import WireCodec.Schema.Error
import WireCodec.Source.Token
import WireCodec.Text.Quoted

/-!
# Faults of schema texts
-/

namespace WireCodec

namespace Source

/-- The classes of token that the grammar asks for. -/
inductive TokenClass
  | word (text : String)
  | identifier
  | version
  | integer
  | builtin
  deriving DecidableEq, Repr

namespace TokenClass

/-- The name of a class in messages; a word stands for itself. -/
def name : TokenClass → String
  | word text => Text.quote text
  | identifier => "identifier"
  | version => "version"
  | integer => "integer"
  | builtin => "builtin type"

/-- A character of a version token behind its first digit. -/
def isVersionChar (c : Char) : Bool :=
  isBuildChar c || c == '+'

/-- Whether a text belongs to a class. -/
def accepts : TokenClass → String → Bool
  | word text, s => s = text
  | identifier, s => Text.isIdentifier s
  | version, s =>
    match s.toList with
    | [] => false
    | c :: cs => Text.isDecimalDigit c && cs.all isVersionChar
  | integer, s => s != "" && s.toList.all Text.isDecimalDigit
  | builtin, s => (Builtin.ofName? s).isSome

end TokenClass

/-- What is wrong at a place of a schema text. -/
inductive SyntaxFault
  | noToken (text : String)
  | expected (wanted : TokenClass) (found : String)
  | unexpected (found : String)
  | invalidInteger (found : String)
  | endOfInput
  deriving DecidableEq, Repr

def SyntaxFault.message : SyntaxFault → String
  | noToken text => s!"Syntax error: {Text.quote text}"
  | expected wanted found => s!"Expected {wanted.name} but found {Text.quote found}"
  | unexpected found => s!"Unexpected token {Text.quote found}"
  | invalidInteger found => s!"Invalid integer {Text.quote found}"
  | endOfInput => "Unexpected end of input"

end Source

/-- Why a schema text gives no schema. -/
inductive CompileError
  | parse (fault : Source.SyntaxFault) (position : Source.Position)
  | schema (error : SchemaError)
  deriving DecidableEq, Repr

def CompileError.message : CompileError → String
  | parse fault p => s!"Parse error at line {p.line}, column {p.column}: {fault.message}"
  | schema error => error.message

end WireCodec
