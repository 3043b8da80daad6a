import WireCodec.Text.Blank
import WireCodec.Text.Digit
import WireCodec.Text.Identifier
import WireCodec.Text.WordChar

/-!
# Tokens of schema texts

A schema text is cut into lexemes from left to right.  At each place the first of these that
applies is taken, as long as it can be:

* a version: decimal digits, then dotted segments, then optionally `+` and build metadata;
* an integer: decimal digits between word boundaries;
* one of `;`, `{`, `}`, `[` and `]`;
* an identifier between word boundaries;
* a comment: `//` and the rest of the line;
* blank characters.

Tokens are the lexemes that are neither blank nor comments, with the line and column where they
start.  Columns count bytes.
-/

namespace WireCodec.Source

/-- A place in a text; both numbers start at one. -/
structure Position where
  line : Nat
  column : Nat
  deriving DecidableEq, Repr

namespace Position

/-- The start of a text. -/
def start : Position := ⟨1, 1⟩

/-- The place behind a character. -/
def next (p : Position) (c : Char) : Position :=
  if c = '\n' then ⟨p.line + 1, 1⟩ else ⟨p.line, p.column + c.utf8Size⟩

/-- The place behind a piece of text. -/
def advance (p : Position) (cs : List Char) : Position :=
  cs.foldl next p

end Position

structure Token where
  text : String
  position : Position
  deriving DecidableEq, Repr

/-- What a lexeme is to the tokens of a text. -/
inductive LexemeKind
  | token
  | layout
  deriving DecidableEq, Repr

/-- A piece of text. -/
structure Lexeme where
  kind : LexemeKind
  chars : List Char
  deriving DecidableEq, Repr

/-- A character of a dotted segment. -/
def isSegmentChar (c : Char) : Bool :=
  c.isAlphanum || c == '-'

/-- A character of build metadata. -/
def isBuildChar (c : Char) : Bool :=
  isSegmentChar c || c == '.'

/-- The longest run of segments, each a dot and at least one segment character; the text in front
ends in a segment if `inSegment` is set. -/
def dottedSegments (inSegment : Bool) : List Char → List Char
  | '.' :: c :: cs =>
    if isSegmentChar c then '.' :: c :: dottedSegments true cs else []
  | c :: cs => if inSegment && isSegmentChar c then c :: dottedSegments true cs else []
  | [] => []

/-- Build metadata with its `+`, if any stands here. -/
def buildMetadata : List Char → List Char
  | '+' :: cs =>
    match cs.takeWhile isBuildChar with
    | [] => []
    | build => '+' :: build
  | _ => []

/-- The version at the front of a text. -/
def versionFront? (cs : List Char) : Option (List Char) :=
  match cs.takeWhile Text.isDecimalDigit with
  | [] => none
  | digits =>
    let rest := cs.drop digits.length
    match dottedSegments false rest with
    | [] => none
    | dotted => some (digits ++ dotted ++ buildMetadata (rest.drop dotted.length))

/-- The text starts with something else than a word character. -/
def endsWord : List Char → Bool
  | [] => true
  | c :: _ => !Text.isWordChar c

/-- The run of `rest` characters behind one of `first`, if a word ends with it. -/
def wordFront? (first rest : Char → Bool) : List Char → Option (List Char)
  | [] => none
  | c :: cs =>
    if first c && endsWord (cs.dropWhile rest) then some (c :: cs.takeWhile rest) else none

/-- A character that is a token by itself. -/
def isPunctuation (c : Char) : Bool :=
  c == ';' || c == '\x7b' || c == '\x7d' || c == '[' || c == ']'

/-- The comment or run of blanks at the front of a text. -/
def layoutFront? : List Char → Option (List Char)
  | '/' :: '/' :: cs => some ('/' :: '/' :: cs.takeWhile (· ≠ '\n'))
  | cs =>
    match cs.takeWhile Text.isBlank with
    | [] => none
    | blanks => some blanks

/-- The token at the front of a text.  Integers and identifiers start at a word boundary, so not
right behind a word character. -/
def tokenFront? (afterWord : Bool) (cs : List Char) : Option (List Char) :=
  match versionFront? cs with
  | some version => some version
  | none =>
    match cs with
    | [] => none
    | c :: _ =>
      if isPunctuation c then some [c]
      else if afterWord then none
      else
        match wordFront? Text.isDecimalDigit Text.isDecimalDigit cs with
        | some digits => some digits
        | none => wordFront? Text.isIdentifierStart Text.isIdentifierRest cs

/-- The lexeme at the front of a text; `afterWord` tells whether a word character stands in front
of it. -/
def lexemeFront? (afterWord : Bool) (cs : List Char) : Option Lexeme :=
  match tokenFront? afterWord cs with
  | some chars => some ⟨.token, chars⟩
  | none => (layoutFront? cs).map (Lexeme.mk .layout)

/-- The last character of a piece of text is a word character; `before` answers for an empty
piece. -/
def endsInWord (before : Bool) (cs : List Char) : Bool :=
  match cs.getLast? with
  | none => before
  | some c => Text.isWordChar c

/-- The characters up to the next place where a lexeme starts. -/
def gap (afterWord : Bool) : List Char → List Char
  | [] => []
  | c :: cs =>
    match lexemeFront? afterWord (c :: cs) with
    | some _ => []
    | none => c :: gap (Text.isWordChar c) cs

/-- Cuts a text into lexemes, up to the first place where none starts.  A piece of text that is no
lexeme ends the list; it is empty if the whole text is cut. -/
def lexemes (afterWord : Bool) (cs : List Char) : List Lexeme × List Char :=
  match cs with
  | [] => ([], [])
  | c :: rest =>
    match lexemeFront? afterWord (c :: rest) with
    | none => ([], gap afterWord (c :: rest))
    | some lexeme =>
      let (more, unread) :=
        lexemes (endsInWord afterWord lexeme.chars) (rest.drop (lexeme.chars.length - 1))
      (lexeme :: more, unread)
termination_by cs.length
decreasing_by simp only [List.length_cons, List.length_drop]; omega

/-- The tokens among lexemes that start at `p`, and the place behind them. -/
def placeTokens (p : Position) : List Lexeme → List Token × Position
  | [] => ([], p)
  | lexeme :: more =>
    let (tokens, stop) := placeTokens (p.advance lexeme.chars) more
    match lexeme.kind with
    | .token => (⟨String.ofList lexeme.chars, p⟩ :: tokens, stop)
    | .layout => (tokens, stop)

end WireCodec.Source
