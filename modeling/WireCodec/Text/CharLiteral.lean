import WireCodec.Text.Visible

/-!
# Characters in messages

A message names a character between single quotes.  One that has no glyph of its own is given by
its code point in hexadecimal.
-/

namespace WireCodec.Text

/-- The spelling of a character between single quotes. -/
def charLiteral (c : Char) : String :=
  let body :=
    match c.toNat with
    | 0x00 => "\\0"
    | 0x09 => "\\t"
    | 0x0A => "\\n"
    | 0x0D => "\\r"
    | 0x27 => "\\'"
    | 0x5C => "\\\\"
    | n =>
      if isVisible c then String.singleton c
      else "\\u\x7b" ++ String.ofList (Nat.toDigits 16 n) ++ "\x7d"
  "'" ++ body ++ "'"

end WireCodec.Text
