import WireCodec.Text.LetterCase

/-!
# Naming conventions of target languages

Schema names are written in the style that a target language expects: `pascalCase` for types and
`snakeCase` for fields.  A name that is a keyword there gets an underscore.
-/

namespace WireCodec.Text

/-- Upper case first character; the rest is lowered on request. -/
def capitalize (lowerRest : Bool) : List Char → List Char
  | [] => []
  | c :: cs => upperChar c ++ (if lowerRest then lowerChars [] cs else cs)

/-- The pieces between separators, empty ones included. -/
def splitAt (separator : Char) : List Char → List (List Char)
  | [] => [[]]
  | c :: cs =>
    if c = separator then [] :: splitAt separator cs
    else
      match splitAt separator cs with
      | [] => [[c]]
      | piece :: pieces => (c :: piece) :: pieces

/-- A text with underscores has each of its words capitalized and the rest of the word lowered.
Without underscores only the first letter changes, unless the whole text is in upper case. -/
def pascalCase (s : String) : String :=
  let cs := s.toList
  if '_' ∈ cs then
    String.ofList ((splitAt '_' cs).flatMap (capitalize true))
  else
    String.ofList (capitalize (s == toUppercase s) cs)

/-- An upper case letter opens a new word after anything but an underscore or another upper case
letter; inside a run of upper case letters the last one does, if a lower case letter follows. -/
def opensWord (previous : Option Char) (next : List Char) : Bool :=
  match previous with
  | none => false
  | some p =>
    if isUppercase p then
      match next with
      | [] => false
      | n :: _ => isLowercase n
    else p != '_'

/-- `snakeCase` behind the character `previous`. -/
def snakeChars (previous : Option Char) : List Char → List Char
  | [] => []
  | c :: cs =>
    if isUppercase c then
      (if opensWord previous cs then ['_'] else []) ++ lowerChar c ++ snakeChars (some c) cs
    else c :: snakeChars (some c) cs

/-- Words in lower case joined by underscores; acronyms stay together (`sessionID` becomes
`session_id`). -/
def snakeCase (s : String) : String :=
  String.ofList (snakeChars none s.toList)

/-- Appends an underscore to a keyword. -/
def escapeKeyword (keywords : List String) (s : String) : String :=
  if s ∈ keywords then s ++ "_" else s

end WireCodec.Text
