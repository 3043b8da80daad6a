import WireCodec.Schema.TypeDef
import WireCodec.Source.Error

/-!
# Declarations

The declarations of a schema text, as they are written:

```
scalar <name> <builtin>;
enumeration <name> { <label>; … }
composite <name> { <type> <field>; … }
fixed_array <name> <type>[<count>];
variable_array <name> <type>[<max>] <size builtin>;
group <name> { <type> <variant>; … }
```

A parser takes tokens from the front of a list.  `Shrinks` says that it takes at least one;
`shrinks_declaration` lets the declarations of a text be read one after the other.
-/

namespace WireCodec.Source

inductive Declaration
  | scalar (name : String) (builtin : Builtin)
  | enumeration (name : String) (labels : List String)
  | composite (name : String) (fields : List Field)
  | fixedArray (name element : String) (count : Nat)
  | variableArray (name element : String) (max : Nat) (sizeType : Builtin)
  | group (name : String) (variants : List Field)
  deriving DecidableEq, Repr

/-- The definition that a declaration stands for. -/
def Declaration.define : Declaration → Except SchemaError TypeDef
  | scalar name builtin => .ok (.scalar ⟨name, builtin⟩)
  | enumeration name labels => (Enumeration.make? name labels).map .enumeration
  | composite name fields => (Composite.make? name fields).map .composite
  | fixedArray name element count => (FixedArray.make? name element count).map .fixedArray
  | variableArray name element max sizeType =>
    (VariableArray.make? name element max sizeType).map .variableArray
  | group name variants => (Group.make? name variants).map .group

/-- A reader of tokens. -/
abbrev Parser := StateT (List Token) (Except CompileError)

/-- The fault of a token list that stops too early has no place. -/
def endOfInput : CompileError :=
  .parse .endOfInput ⟨0, 0⟩

/-- A fault at a token. -/
def faultAt (t : Token) (fault : SyntaxFault) : CompileError :=
  .parse fault t.position

/-- Takes the next token, whatever it is. -/
def nextToken : Parser Token
  | [] => .error endOfInput
  | t :: ts => .ok (t, ts)

/-- Takes a token of a class. -/
def expect (wanted : TokenClass) : Parser Token
  | [] => .error endOfInput
  | t :: ts =>
    if wanted.accepts t.text then .ok (t, ts)
    else .error (faultAt t (.expected wanted t.text))

/-- Takes an identifier and gives its text. -/
def expectName : Parser String :=
  Token.text <$> expect .identifier

/-- The value of a string of ASCII digits. -/
def decimalValue? (cs : List Char) : Option Nat :=
  if cs.all Char.isDigit then
    some (cs.foldl (fun n c => 10 * n + (c.toNat - '0'.toNat)) 0)
  else none

/-- Takes a count: an integer in ASCII digits that fits in 64 bits. -/
def expectCount : Parser Nat := do
  let t ← expect .integer
  match decimalValue? t.text.toList with
  | some n => if n < twoPow 64 then return n else throw (faultAt t (.invalidInteger t.text))
  | none => throw (faultAt t (.invalidInteger t.text))

/-- Takes the name of a builtin. -/
def expectBuiltin : Parser Builtin := do
  let t ← expect .builtin
  match Builtin.ofName? t.text with
  | some b => return b
  | none => throw (faultAt t (.expected .builtin t.text))

/-- Takes labels, each with its semicolon, and the brace that closes them. -/
def labelsToBrace : Parser (List String)
  | [] => .error endOfInput
  | t :: ts =>
    if t.text = "\x7d" then .ok ([], ts)
    else if !TokenClass.identifier.accepts t.text then
      .error (faultAt t (.expected .identifier t.text))
    else
      match ts with
      | [] => .error endOfInput
      | semicolon :: ts =>
        if semicolon.text ≠ ";" then
          .error (faultAt semicolon (.expected (.word ";") semicolon.text))
        else
          match labelsToBrace ts with
          | .error e => .error e
          | .ok (labels, rest) => .ok (t.text :: labels, rest)

/-- Takes fields, each a type and a name with a semicolon, and the brace that closes them. -/
def fieldsToBrace : Parser (List Field)
  | [] => .error endOfInput
  | t :: ts =>
    if t.text = "\x7d" then .ok ([], ts)
    else if !TokenClass.identifier.accepts t.text then
      .error (faultAt t (.expected .identifier t.text))
    else
      match ts with
      | [] => .error endOfInput
      | name :: ts =>
        if !TokenClass.identifier.accepts name.text then
          .error (faultAt name (.expected .identifier name.text))
        else
          match ts with
          | [] => .error endOfInput
          | semicolon :: ts =>
            if semicolon.text ≠ ";" then
              .error (faultAt semicolon (.expected (.word ";") semicolon.text))
            else
              match fieldsToBrace ts with
              | .error e => .error e
              | .ok (fields, rest) => .ok (⟨name.text, t.text⟩ :: fields, rest)

/-- The element type and the size of an array, up to the closing bracket. -/
def elementAndSize : Parser (String × Nat) := do
  let element ← expectName
  let _ ← expect (.word "[")
  let size ← expectCount
  let _ ← expect (.word "]")
  return (element, size)

/-- What follows a keyword. -/
def declarationBody (keyword : Token) : Parser Declaration :=
  match keyword.text with
  | "scalar" => do
    let name ← expectName
    let builtin ← expectBuiltin
    let _ ← expect (.word ";")
    return .scalar name builtin
  | "enumeration" => do
    let name ← expectName
    let _ ← expect (.word "\x7b")
    return .enumeration name (← labelsToBrace)
  | "composite" => do
    let name ← expectName
    let _ ← expect (.word "\x7b")
    return .composite name (← fieldsToBrace)
  | "fixed_array" => do
    let name ← expectName
    let (element, count) ← elementAndSize
    let _ ← expect (.word ";")
    return .fixedArray name element count
  | "variable_array" => do
    let name ← expectName
    let (element, max) ← elementAndSize
    let sizeType ← expectBuiltin
    let _ ← expect (.word ";")
    return .variableArray name element max sizeType
  | "group" => do
    let name ← expectName
    let _ ← expect (.word "\x7b")
    return .group name (← fieldsToBrace)
  | _ => throw (faultAt keyword (.unexpected keyword.text))

/-- Takes one declaration. -/
def declaration : Parser Declaration := do
  declarationBody (← nextToken)

/-! ## Parsers take tokens -/

section
variable {α β : Type}

/-- A parser never gives tokens back. -/
def Keeps (p : Parser α) : Prop :=
  ∀ ts a rest, p ts = .ok (a, rest) → rest.length ≤ ts.length

/-- A parser takes at least one token. -/
def Shrinks (p : Parser α) : Prop :=
  ∀ ts a rest, p ts = .ok (a, rest) → rest.length < ts.length

theorem Shrinks.keeps {p : Parser α} (h : Shrinks p) : Keeps p :=
  fun ts a rest hp => Nat.le_of_lt (h ts a rest hp)

theorem bind_eq_ok {p : Parser α} {f : α → Parser β} {ts rest : List Token} {b : β}
    (h : (p >>= f) ts = .ok (b, rest)) :
    ∃ a mid, p ts = .ok (a, mid) ∧ f a mid = .ok (b, rest) := by
  change (p ts >>= fun x => f x.1 x.2) = .ok (b, rest) at h
  cases hp : p ts with
  | error e => rw [hp] at h; exact absurd h (by simp [bind, Except.bind])
  | ok x => rw [hp] at h; exact ⟨x.1, x.2, rfl, h⟩

theorem keeps_pure (a : α) : Keeps (pure a) := by
  intro ts b rest h
  cases h
  exact Nat.le_refl _

theorem keeps_throw (e : CompileError) : Keeps (throw e : Parser α) := by
  intro ts b rest h
  exact absurd h (by simp [throw, throwThe, MonadExceptOf.throw, StateT.lift, bind, Except.bind])

theorem Keeps.bind {p : Parser α} {f : α → Parser β} (hp : Keeps p) (hf : ∀ a, Keeps (f a)) :
    Keeps (p >>= f) := by
  intro ts b rest h
  obtain ⟨a, mid, hmid, hrest⟩ := bind_eq_ok h
  exact Nat.le_trans (hf a mid b rest hrest) (hp ts a mid hmid)

theorem Shrinks.bind {p : Parser α} {f : α → Parser β} (hp : Shrinks p)
    (hf : ∀ a, Keeps (f a)) : Shrinks (p >>= f) := by
  intro ts b rest h
  obtain ⟨a, mid, hmid, hrest⟩ := bind_eq_ok h
  exact Nat.lt_of_le_of_lt (hf a mid b rest hrest) (hp ts a mid hmid)

end

theorem shrinks_nextToken : Shrinks nextToken := by
  intro ts a rest h
  cases ts with
  | nil => cases h
  | cons t ts => cases h; exact Nat.lt_succ_self _

theorem shrinks_expect (wanted : TokenClass) : Shrinks (expect wanted) := by
  intro ts a rest h
  cases ts with
  | nil => cases h
  | cons t ts =>
    simp only [expect] at h
    split at h
    · cases h; exact Nat.lt_succ_self _
    · cases h

theorem keeps_expectName : Keeps expectName := by
  have h : expectName = (expect .identifier >>= fun t => pure t.text) := by
    simp only [expectName, map_eq_pure_bind]
  rw [h]
  exact (shrinks_expect _).keeps.bind fun _ => keeps_pure _

theorem keeps_expectCount : Keeps expectCount := by
  refine (shrinks_expect _).keeps.bind fun t => ?_
  split
  · split
    · exact keeps_pure _
    · exact keeps_throw _
  · exact keeps_throw _

theorem keeps_expectBuiltin : Keeps expectBuiltin := by
  refine (shrinks_expect _).keeps.bind fun t => ?_
  split
  · exact keeps_pure _
  · exact keeps_throw _

theorem keeps_labelsToBrace : Keeps labelsToBrace := by
  intro ts
  fun_induction labelsToBrace ts with
  | case1 => intro a rest h; cases h
  | case2 => intro a rest h; cases h; simp
  | case3 => intro a rest h; cases h
  | case4 => intro a rest h; cases h
  | case5 => intro a rest h; cases h
  | case6 => intro a rest h; cases h
  | case7 t _ _ semicolon ts _ labels mid hmid ih =>
    intro a rest h
    cases h
    have := ih _ _ hmid
    simp only [List.length_cons]
    omega

theorem keeps_fieldsToBrace : Keeps fieldsToBrace := by
  intro ts
  fun_induction fieldsToBrace ts with
  | case1 => intro a rest h; cases h
  | case2 => intro a rest h; cases h; simp
  | case3 => intro a rest h; cases h
  | case4 => intro a rest h; cases h
  | case5 => intro a rest h; cases h
  | case6 => intro a rest h; cases h
  | case7 => intro a rest h; cases h
  | case8 => intro a rest h; cases h
  | case9 t _ _ name _ semicolon ts _ fields mid hmid ih =>
    intro a rest h
    cases h
    have := ih _ _ hmid
    simp only [List.length_cons]
    omega

theorem keeps_elementAndSize : Keeps elementAndSize :=
  keeps_expectName.bind fun _ => (shrinks_expect _).keeps.bind fun _ =>
    keeps_expectCount.bind fun _ => (shrinks_expect _).keeps.bind fun _ => keeps_pure _

theorem keeps_declarationBody (keyword : Token) : Keeps (declarationBody keyword) := by
  unfold declarationBody
  split
  · exact keeps_expectName.bind fun _ => keeps_expectBuiltin.bind fun _ =>
      (shrinks_expect _).keeps.bind fun _ => keeps_pure _
  · exact keeps_expectName.bind fun _ => (shrinks_expect _).keeps.bind fun _ =>
      keeps_labelsToBrace.bind fun _ => keeps_pure _
  · exact keeps_expectName.bind fun _ => (shrinks_expect _).keeps.bind fun _ =>
      keeps_fieldsToBrace.bind fun _ => keeps_pure _
  · exact keeps_expectName.bind fun _ => keeps_elementAndSize.bind fun _ =>
      (shrinks_expect _).keeps.bind fun _ => keeps_pure _
  · exact keeps_expectName.bind fun _ => keeps_elementAndSize.bind fun _ =>
      keeps_expectBuiltin.bind fun _ => (shrinks_expect _).keeps.bind fun _ => keeps_pure _
  · exact keeps_expectName.bind fun _ => (shrinks_expect _).keeps.bind fun _ =>
      keeps_fieldsToBrace.bind fun _ => keeps_pure _
  · exact keeps_throw _

theorem shrinks_declaration : Shrinks declaration :=
  shrinks_nextToken.bind keeps_declarationBody

end WireCodec.Source
