import WireCodec.Text.CaseTable

/-!
# Letter case of texts

Case mappings are the full Unicode ones: a character may map to several (`ß` to `SS`).  One
mapping looks at its surroundings: a capital sigma that ends a word becomes the final sigma.
-/

namespace WireCodec.Text

/-- The property Uppercase. -/
def isUppercase (c : Char) : Bool :=
  c.isUpper || inRuns uppercaseRuns c.toNat

/-- The property Lowercase. -/
def isLowercase (c : Char) : Bool :=
  c.isLower || inRuns lowercaseRuns c.toNat

/-- The property Cased. -/
def isCased (c : Char) : Bool :=
  c.isAlpha || inRanges casedRanges c.toNat

/-- The property Case_Ignorable. -/
def isCaseIgnorable (c : Char) : Bool :=
  c.toNat ∈ [0x27, 0x2E, 0x3A, 0x5E, 0x60] || inRanges caseIgnorableRanges c.toNat

/-- Looks a code point above ASCII up in the two kinds of case mapping. -/
def mapCase (shifts : List CaseShift) (expansions : List (Nat × List Nat)) (c : Char) :
    List Char :=
  match CaseShift.find? shifts c.toNat with
  | some n => [Char.ofNat n]
  | none =>
    match expansions.lookup c.toNat with
    | some ns => ns.map Char.ofNat
    | none => [c]

/-- The upper case of one character. -/
def upperChar (c : Char) : List Char :=
  if c.toNat < 0x80 then [c.toUpper] else mapCase uppercaseShifts uppercaseExpansions c

/-- The lower case of one character on its own. -/
def lowerChar (c : Char) : List Char :=
  if c.toNat < 0x80 then [c.toLower] else mapCase lowercaseShifts lowercaseExpansions c

/-- The first character that case does not ignore is a cased one. -/
def meetsCased (cs : List Char) : Bool :=
  match cs.dropWhile isCaseIgnorable with
  | [] => false
  | c :: _ => isCased c

/-- Lower case of `cs`, where `before` is the text in front of it, last character first. -/
def lowerChars (before : List Char) : List Char → List Char
  | [] => []
  | c :: cs =>
    let lowered :=
      if c == 'Σ' then [if meetsCased before && !meetsCased cs then 'ς' else 'σ'] else lowerChar c
    lowered ++ lowerChars (c :: before) cs

/-- The upper case of a text. -/
def toUppercase (s : String) : String :=
  String.ofList (s.toList.flatMap upperChar)

/-- The lower case of a text. -/
def toLowercase (s : String) : String :=
  String.ofList (lowerChars [] s.toList)

end WireCodec.Text
