import WireCodec.Text.Quoted

/-!
# JSON documents

The documents that describe schemas: texts, natural numbers, lists and objects.  `Json.pretty`
writes one entry a line, indented by two blanks a level.
-/

namespace WireCodec

inductive Json
  | text (value : String)
  | number (value : Nat)
  | list (items : List Json)
  | object (members : List (String × Json))

namespace Json

/-- The start of a line at a level of nesting. -/
def newLine (level : Nat) : String :=
  "\n" ++ String.ofList (List.replicate (2 * level) ' ')

mutual

/-- The pieces of a document that is part of a line at a level of nesting. -/
def piecesAt (level : Nat) : Json → List String
  | text value => [Text.quote value]
  | number value => [toString value]
  | list [] => ["[]"]
  | list (item :: items) =>
    ["[", newLine (level + 1)] ++ piecesAt (level + 1) item ++ itemPieces (level + 1) items ++
      [newLine level, "]"]
  | object [] => ["\x7b\x7d"]
  | object ((key, value) :: members) =>
    ["\x7b", newLine (level + 1), Text.quote key, ": "] ++ piecesAt (level + 1) value ++
      memberPieces (level + 1) members ++ [newLine level, "\x7d"]

/-- The items behind the first. -/
def itemPieces (level : Nat) : List Json → List String
  | [] => []
  | item :: items => [",", newLine level] ++ piecesAt level item ++ itemPieces level items

/-- The members behind the first. -/
def memberPieces (level : Nat) : List (String × Json) → List String
  | [] => []
  | (key, value) :: members =>
    [",", newLine level, Text.quote key, ": "] ++ piecesAt level value ++
      memberPieces level members

end

/-- The whole document. -/
def pretty (document : Json) : String :=
  String.join (piecesAt 0 document)

end Json
end WireCodec
