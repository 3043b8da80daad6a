/-!
# Identifiers

An identifier is a letter or underscore followed by letters, digits and underscores, all ASCII.
-/

namespace WireCodec.Text

/-- A character that may begin an identifier. -/
def isIdentifierStart (c : Char) : Bool :=
  c.isAlpha || c == '_'

/-- A character that may stand in an identifier after its first. -/
def isIdentifierRest (c : Char) : Bool :=
  c.isAlphanum || c == '_'

def isIdentifier (s : String) : Bool :=
  match s.toList with
  | [] => false
  | c :: cs => isIdentifierStart c && cs.all isIdentifierRest

end WireCodec.Text
