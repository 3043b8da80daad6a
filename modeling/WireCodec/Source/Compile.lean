import WireCodec.Schema.Basic
import WireCodec.Source.Declaration

/-!
# From texts to schemas

`tokenize` cuts a text into tokens, `parse` reads a schema from tokens, and `compile` does both.
-/

namespace WireCodec.Source

/-- The tokens of a text; the last one is empty and marks the end. -/
def tokenize (text : String) : Except CompileError (List Token) :=
  let (cut, unread) := lexemes false text.toList
  let (tokens, stop) := placeTokens .start cut
  if unread = [] then .ok (tokens ++ [⟨"", stop⟩])
  else .error (.parse (.noToken (String.ofList unread)) stop)

/-- The definitions declared up to the end marker.  A declaration is checked as soon as it is
read. -/
def declarations (ts : List Token) : Except CompileError (List TypeDef) :=
  match ts with
  | [] => .error endOfInput
  | t :: rest =>
    if t.text = "" then .ok []
    else
      match _h : declaration (t :: rest) with
      | .error e => .error e
      | .ok (d, behind) =>
        match d.define with
        | .error e => .error (.schema e)
        | .ok definition => (declarations behind).map (definition :: ·)
termination_by ts.length
decreasing_by exact shrinks_declaration _ _ _ _h

/-- Takes the name and the version of a schema. -/
def header : Parser (String × String) := do
  let _ ← expect (.word "schema")
  let name ← expectName
  let version ← expect .version
  let _ ← expect (.word ";")
  return (name, version.text)

/-- Reads a schema from tokens.  What stands behind the end marker does not matter. -/
def parse (ts : List Token) : Except CompileError Schema := do
  let ((name, version), rest) ← header ts
  let declared ← declarations rest
  (Schema.build name version declared).mapError .schema

/-- Reads a schema from a text. -/
def compile (text : String) : Except CompileError Schema := do
  parse (← tokenize text)

end WireCodec.Source
