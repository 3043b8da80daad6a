import WireCodec.File.Path

/-!
# Configuration files

A configuration file has lines `key = "text"` with the keys `schema` and `output_dir`, each at
most once.  Keys may be quoted.  Texts are quoted as in TOML: with escapes between double quotes,
without them between single quotes, and over several lines between three quotes of either kind.
Everything else is refused.
-/

namespace WireCodec

/-- Where the schema is and where projects go. -/
structure Config where
  schema : Option String
  outputDir : Option String
  deriving DecidableEq, Repr

namespace Config

inductive Token
  | newline
  | equals
  | bare (text : String)
  | quoted (text : String) (multiline : Bool)
  deriving DecidableEq, Repr

/-- How a text is quoted. -/
structure Quoting where
  /-- There are no escapes. -/
  literal : Bool
  /-- Line breaks are allowed. -/
  multiline : Bool
  deriving DecidableEq, Repr

/-- What the characters read so far leave open.  Texts are kept with the last character first. -/
inductive Mode
  | between
  | comment
  | bare (text : List Char)
  /-- Behind one or two quotes at the start of a text. -/
  | opening (literal : Bool) (quotes : Nat)
  /-- Behind three quotes, where a line break does not count. -/
  | fresh (literal : Bool)
  | inside (q : Quoting) (text : List Char)
  /-- Behind quotes that may end a text of several lines. -/
  | closing (literal : Bool) (text : List Char) (quotes : Nat)
  | escape (q : Quoting) (text : List Char)
  /-- Behind the digits of a code point, of which some are missing. -/
  | codePoint (q : Quoting) (text : List Char) (missing value : Nat)
  /-- Behind a backslash at the end of a line; `broken` tells that the line break was read. -/
  | gap (text : List Char) (broken : Bool)
  deriving DecidableEq, Repr

def isBlankChar (c : Char) : Bool :=
  c = ' ' || c = '\t'

def isControl (c : Char) : Bool :=
  (c.toNat < 32 && c ≠ '\t') || c.toNat = 127

def isBareChar (c : Char) : Bool :=
  c.isAlphanum || c = '_' || c = '-'

/-- The quote of a text: double, or single for a literal one. -/
def quoteChar (literal : Bool) : Char :=
  if literal then Char.ofNat 39 else Char.ofNat 34

def quotedToken (multiline : Bool) (text : List Char) : Token :=
  .quoted (String.ofList text.reverse) multiline

/-- Outside of texts and comments. -/
def stepBetween (c : Char) : Option (Mode × List Token) :=
  if isBlankChar c then some (.between, [])
  else if c = '\n' then some (.between, [.newline])
  else if c = '#' then some (.comment, [])
  else if c = '=' then some (.between, [.equals])
  else if isBareChar c then some (.bare [c], [])
  else if c = quoteChar false then some (.opening false 1, [])
  else if c = quoteChar true then some (.opening true 1, [])
  else none

/-- A token ends in front of the character. -/
def stepAfter (t : Token) (c : Char) : Option (Mode × List Token) := do
  let (mode, tokens) ← stepBetween c
  return (mode, t :: tokens)

/-- Inside of a text. -/
def stepInside (q : Quoting) (text : List Char) (c : Char) : Option (Mode × List Token) :=
  if q.multiline && c = '\n' then some (.inside q (c :: text), [])
  else if isControl c then none
  else if c = quoteChar q.literal then
    if q.multiline then some (.closing q.literal text 1, [])
    else some (.between, [quotedToken false text])
  else if !q.literal && c = '\\' then some (.escape q text, [])
  else some (.inside q (c :: text), [])

/-- The character that a letter behind a backslash stands for. -/
def escaped? (c : Char) : Option Char :=
  if c = 'b' then some (Char.ofNat 8)
  else if c = 't' then some '\t'
  else if c = 'n' then some '\n'
  else if c = 'f' then some (Char.ofNat 12)
  else if c = 'r' then some '\r'
  else if c = quoteChar false then some c
  else if c = '\\' then some c
  else none

def stepEscape (q : Quoting) (text : List Char) (c : Char) : Option (Mode × List Token) :=
  match escaped? c with
  | some e => some (.inside q (e :: text), [])
  | none =>
    if c = 'u' then some (.codePoint q text 4 0, [])
    else if c = 'U' then some (.codePoint q text 8 0, [])
    else if q.multiline && c = '\n' then some (.gap text true, [])
    else if q.multiline && isBlankChar c then some (.gap text false, [])
    else none

def hexDigit? (c : Char) : Option Nat :=
  if c.isDigit then some (c.toNat - 48)
  else if 'a' ≤ c && c ≤ 'f' then some (c.toNat - 87)
  else if 'A' ≤ c && c ≤ 'F' then some (c.toNat - 55)
  else none

def stepCodePoint (q : Quoting) (text : List Char) (missing value : Nat) (c : Char) :
    Option (Mode × List Token) := do
  let value := 16 * value + (← hexDigit? c)
  if 1 < missing then return (.codePoint q text (missing - 1) value, [])
  else if value.isValidChar then return (.inside q (Char.ofNat value :: text), [])
  else none

/-- A text of several lines may end with two quotes in front of the three that close it. -/
def stepClosing (literal : Bool) (text : List Char) (quotes : Nat) (c : Char) :
    Option (Mode × List Token) :=
  let quote := quoteChar literal
  if c = quote then
    if quotes = 4 then some (.between, [quotedToken true (quote :: quote :: text)])
    else some (.closing literal text (quotes + 1), [])
  else if 3 ≤ quotes then
    stepAfter (quotedToken true (List.replicate (quotes - 3) quote ++ text)) c
  else stepInside ⟨literal, true⟩ (List.replicate quotes quote ++ text) c

def step : Mode → Char → Option (Mode × List Token)
  | .between, c => stepBetween c
  | .comment, c =>
    if c = '\n' then some (.between, [.newline])
    else if isControl c then none
    else some (.comment, [])
  | .bare text, c =>
    if isBareChar c then some (.bare (c :: text), [])
    else stepAfter (.bare (String.ofList text.reverse)) c
  | .opening literal quotes, c =>
    if c = quoteChar literal then
      if quotes = 1 then some (.opening literal 2, []) else some (.fresh literal, [])
    else if quotes = 1 then stepInside ⟨literal, false⟩ [] c
    else stepAfter (quotedToken false []) c
  | .fresh literal, c =>
    if c = '\n' then some (.inside ⟨literal, true⟩ [], [])
    else stepInside ⟨literal, true⟩ [] c
  | .inside q text, c => stepInside q text c
  | .closing literal text quotes, c => stepClosing literal text quotes c
  | .escape q text, c => stepEscape q text c
  | .codePoint q text missing value, c => stepCodePoint q text missing value c
  | .gap text broken, c =>
    if c = '\n' then some (.gap text true, [])
    else if isBlankChar c then some (.gap text broken, [])
    else if broken then stepInside ⟨false, true⟩ text c
    else none

/-- The token that ends with the file. -/
def finish : Mode → Option (List Token)
  | .between => some []
  | .comment => some []
  | .bare text => some [.bare (String.ofList text.reverse)]
  | .opening _ 2 => some [quotedToken false []]
  | .closing literal text quotes =>
    if 3 ≤ quotes then
      some [quotedToken true (List.replicate (quotes - 3) (quoteChar literal) ++ text)]
    else none
  | _ => none

def tokensFrom (mode : Mode) : List Char → Option (List Token)
  | [] => finish mode
  | c :: cs => do
    let (mode, tokens) ← step mode c
    return tokens ++ (← tokensFrom mode cs)

/-- Line breaks as one character. -/
def joinLineBreaks : List Char → List Char
  | '\r' :: '\n' :: cs => '\n' :: joinLineBreaks cs
  | c :: cs => c :: joinLineBreaks cs
  | [] => []

/-- The characters behind a byte order mark. -/
def dropMark : List Char → List Char
  | [] => []
  | c :: cs => if c.toNat = 0xFEFF then cs else c :: cs

/-- Sets a key that has no value yet. -/
def set? (config : Config) (key value : String) : Option Config :=
  if key = "schema" && config.schema.isNone then some { config with schema := some value }
  else if key = "output_dir" && config.outputDir.isNone then
    some { config with outputDir := some value }
  else none

def keyText? : Token → Option String
  | .bare text => some text
  | .quoted text false => some text
  | _ => none

/-- Reads the entries, one a line. -/
def readEntries (config : Config) : List Token → Option Config
  | [] => some config
  | .newline :: rest => readEntries config rest
  | [key, .equals, .quoted value _] => do config.set? (← keyText? key) value
  | key :: .equals :: .quoted value _ :: .newline :: rest => do
    readEntries (← config.set? (← keyText? key) value) rest
  | _ => none

def empty : Config := ⟨none, none⟩

/-- The configuration in a file with these contents. -/
def ofText? (text : String) : Option Config := do
  readEntries empty (← tokensFrom .between (joinLineBreaks (dropMark text.toList)))

end Config
end WireCodec
