import Mathlib.Tactic.IntervalCases
import WireCodec.Text.Json

/-!
# Documents are told apart by their texts

A document is written without loss: quoted texts, decimals, lists and objects all show where they
end, so what stands in front of a rest of text is determined by it.

* `Text.spelled? cs`         the character that a spelling between quotes begins with;
* `Text.Legible spell a`     the spelling of `a` is told apart from every other one, whatever follows
                             that no digit begins;
* `Json.bracketed`           the entries of a list or of an object, one a line;
* `Json.legible_chars`       every document is legible, at every level of nesting;
* `Json.pretty_injective`    so its text determines it.
-/

namespace WireCodec

namespace Text

/-! ## Quoted texts -/

/-- What follows a backslash between quotes. -/
def escaped? : List Char → Option (Char × List Char)
  | 'u' :: a :: b :: c :: d :: rest =>
    ((List.range 0x20).find? fun n => hex4 n = [a, b, c, d]).map fun n => (Char.ofNat n, rest)
  | 'b' :: rest => some ('\x08', rest)
  | 't' :: rest => some ('\t', rest)
  | 'n' :: rest => some ('\n', rest)
  | 'f' :: rest => some ('\x0c', rest)
  | 'r' :: rest => some ('\r', rest)
  | c :: rest => some (c, rest)
  | [] => none

/-- The character that is spelled first between quotes, and what follows it.  There is none where
the closing quote stands. -/
def spelled? : List Char → Option (Char × List Char)
  | [] => none
  | c :: rest => if c = '"' then none else if c = '\\' then escaped? rest else some (c, rest)

theorem spelled?_control {n : Nat} (h : n < 0x20) (rest : List Char) :
    spelled? (('\\' :: 'u' :: hex4 n) ++ rest) = some (Char.ofNat n, rest) := by
  interval_cases n <;> rfl

/-- Every character can be read back from its spelling. -/
theorem spelled?_quoteChar (c : Char) (rest : List Char) :
    spelled? (quoteChar c ++ rest) = some (c, rest) := by
  have hof : Char.ofNat c.toNat = c := Char.ofNat_toNat c
  unfold quoteChar
  split
  case h_8 n h22 h5C _ _ _ _ _ =>
    split
    · next hlow =>
      rw [spelled?_control hlow, hof]
    · have hquote : c ≠ '"' := fun h => h22 (h ▸ rfl)
      have hbackslash : c ≠ '\\' := fun h => h5C (h ▸ rfl)
      show spelled? (c :: rest) = some (c, rest)
      rw [spelled?, if_neg hquote, if_neg hbackslash]
  all_goals
    next hc =>
    rw [hc] at hof
    subst hof
    rfl

/-- A quoted text ends at its first quote that no backslash precedes. -/
theorem quoteChars_append_inj {cs ds rest rest' : List Char}
    (h : cs.flatMap quoteChar ++ '"' :: rest = ds.flatMap quoteChar ++ '"' :: rest') :
    cs = ds ∧ rest = rest' := by
  -- Both sides are read by one character; only the closing quote spells none.
  induction cs generalizing ds with
  | nil =>
    cases ds with
    | nil => exact ⟨rfl, (List.cons.inj h).2⟩
    | cons d ds =>
      rw [List.flatMap_cons, List.append_assoc] at h
      have hread := congrArg spelled? h
      rw [spelled?_quoteChar] at hread
      cases hread
  | cons c cs ih =>
    rw [List.flatMap_cons, List.append_assoc] at h
    have hread := congrArg spelled? h
    rw [spelled?_quoteChar] at hread
    cases ds with
    | nil => cases hread
    | cons d ds =>
      rw [List.flatMap_cons, List.append_assoc, spelled?_quoteChar] at hread
      obtain ⟨rfl, htail⟩ := Prod.mk.inj (Option.some.inj hread)
      obtain ⟨rfl, hrest⟩ := ih htail
      exact ⟨rfl, hrest⟩

theorem toList_quote (s : String) :
    (quote s).toList = '"' :: (s.toList.flatMap quoteChar ++ ['"']) := by
  simp [quote]

theorem quote_append_inj {s t : String} {rest rest' : List Char}
    (h : (quote s).toList ++ rest = (quote t).toList ++ rest') : s = t ∧ rest = rest' := by
  simp only [toList_quote, List.cons_append, List.append_assoc, List.cons.injEq, true_and] at h
  obtain ⟨htext, hrest⟩ := quoteChars_append_inj h
  exact ⟨String.toList_inj.1 htext, hrest⟩

/-! ## Decimals -/

/-- No digit begins the rest of a text. -/
def EndsDecimal (rest : List Char) : Prop :=
  ∀ c ∈ rest.head?, c.isDigit = false

theorem endsDecimal_nil : EndsDecimal [] := by
  intro c hc
  cases hc

theorem endsDecimal_cons {c : Char} (h : c.isDigit = false) (rest : List Char) :
    EndsDecimal (c :: rest) := by
  intro d hd
  cases hd
  exact h

theorem toList_toString (n : Nat) : (toString n).toList = Nat.toDigits 10 n := by
  show (Nat.repr n).toList = _
  exact Nat.toList_repr

theorem isDigit_of_mem_toString {n : Nat} {c : Char} (h : c ∈ (toString n).toList) :
    c.isDigit = true := by
  rw [toList_toString] at h
  exact Nat.isDigit_of_mem_toDigits (by decide) (by decide) h

theorem takeWhile_decimal (n : Nat) {rest : List Char} (h : EndsDecimal rest) :
    ((toString n).toList ++ rest).takeWhile Char.isDigit = (toString n).toList := by
  rw [List.takeWhile_append_of_pos fun c hc => isDigit_of_mem_toString hc]
  cases rest with
  | nil => exact List.append_nil _
  | cons c rest =>
    have hc : ¬ c.isDigit = true := by
      rw [h c rfl]
      exact Bool.false_ne_true
    rw [List.takeWhile_cons_of_neg hc, List.append_nil]

theorem toString_nat_inj {m n : Nat} (h : (toString m).toList = (toString n).toList) : m = n := by
  rw [toList_toString, toList_toString] at h
  rw [← Nat.ofDigitChars_toDigits (b := 10) (n := m) (by decide) (by decide), h,
    Nat.ofDigitChars_toDigits (by decide) (by decide)]

theorem decimal_append_inj {m n : Nat} {rest rest' : List Char} (hrest : EndsDecimal rest)
    (hrest' : EndsDecimal rest')
    (h : (toString m).toList ++ rest = (toString n).toList ++ rest') : m = n ∧ rest = rest' := by
  have hdigits : (toString m).toList = (toString n).toList := by
    rw [← takeWhile_decimal m hrest, h, takeWhile_decimal n hrest']
  rw [hdigits] at h
  exact ⟨toString_nat_inj hdigits, List.append_cancel_left h⟩

/-! ## Spellings in front of a rest -/

/-- The spelling of `a` in front of a rest that no digit begins is no other spelling in front of
another rest. -/
def Legible {α : Type} (spell : α → List Char) (a : α) : Prop :=
  ∀ (b : α) (rest rest' : List Char), EndsDecimal rest → EndsDecimal rest' →
    spell a ++ rest = spell b ++ rest' → a = b ∧ rest = rest'

end Text

namespace Json

open Text

/-! ## Entries of lists and objects -/

/-- The characters in front of an entry at a level. -/
def lineStart (level : Nat) : List Char :=
  '\n' :: List.replicate (2 * level) ' '

def furtherEntries (level : Nat) (entries : List (List Char)) : List Char :=
  entries.flatMap fun entry => ',' :: (lineStart level ++ entry)

/-- Entries between brackets, each on a line of its own. -/
def bracketed (opening closing : Char) (level : Nat) : List (List Char) → List Char
  | [] => [opening, closing]
  | entry :: entries =>
    opening :: (lineStart (level + 1) ++ (entry ++ (furtherEntries (level + 1) entries ++
      (lineStart level ++ [closing]))))

theorem toList_newLine (level : Nat) : (newLine level).toList = lineStart level := by
  simp [newLine, lineStart]

theorem endsDecimal_furtherEntries (level level' : Nat) (entries : List (List Char))
    (rest : List Char) :
    EndsDecimal (furtherEntries level entries ++ (lineStart level' ++ rest)) := by
  cases entries with
  | nil => exact endsDecimal_cons rfl _
  | cons entry entries => exact endsDecimal_cons rfl _

section
variable {α : Type} {spell : α → List Char} {xs ys : List α} {level level' : Nat}
  {rest rest' : List Char}

theorem furtherEntries_append_inj (hxs : ∀ x ∈ xs, Legible spell x)
    (h : furtherEntries level (xs.map spell) ++ (lineStart level' ++ rest) =
      furtherEntries level (ys.map spell) ++ (lineStart level' ++ rest')) :
    xs = ys ∧ rest = rest' := by
  induction xs generalizing ys with
  | nil =>
    cases ys with
    | nil => exact ⟨rfl, List.append_cancel_left h⟩
    | cons y ys => exact absurd (List.cons.inj h).1 (by decide)
  | cons x xs ih =>
    cases ys with
    | nil => exact absurd (List.cons.inj h).1 (by decide)
    | cons y ys =>
      rw [List.forall_mem_cons] at hxs
      simp only [furtherEntries, List.map_cons, List.flatMap_cons, List.cons_append,
        List.append_assoc, List.cons.injEq, true_and] at h
      obtain ⟨rfl, htail⟩ := hxs.1 y _ _ (endsDecimal_furtherEntries level level' _ rest)
        (endsDecimal_furtherEntries level level' _ rest') (List.append_cancel_left h)
      obtain ⟨rfl, hrest⟩ := ih hxs.2 htail
      exact ⟨rfl, hrest⟩

theorem bracketed_append_inj {opening closing : Char} (hclosing : closing ≠ '\n')
    (hxs : ∀ x ∈ xs, Legible spell x)
    (h : bracketed opening closing level (xs.map spell) ++ rest =
      bracketed opening closing level (ys.map spell) ++ rest') :
    xs = ys ∧ rest = rest' := by
  cases xs with
  | nil =>
    cases ys with
    | nil => exact ⟨rfl, (List.cons.inj (List.cons.inj h).2).2⟩
    | cons y ys => exact absurd (List.cons.inj (List.cons.inj h).2).1 hclosing
  | cons x xs =>
    cases ys with
    | nil => exact absurd (List.cons.inj (List.cons.inj h).2).1.symm hclosing
    | cons y ys =>
      rw [List.forall_mem_cons] at hxs
      simp only [List.map_cons, bracketed, List.cons_append, List.append_assoc, List.cons.injEq,
        true_and] at h
      obtain ⟨rfl, hfurther⟩ := hxs.1 y _ _ (endsDecimal_furtherEntries _ level _ _)
        (endsDecimal_furtherEntries _ level _ _) (List.append_cancel_left h)
      obtain ⟨rfl, hclose⟩ := furtherEntries_append_inj hxs.2 hfurther
      exact ⟨rfl, (List.cons.inj hclose).2⟩

end

/-! ## Documents -/

/-- Induction on documents, with the parts of a list or an object as members of a list. -/
@[elab_as_elim]
theorem ind {motive : Json → Prop} (text : ∀ value, motive (.text value))
    (number : ∀ value, motive (.number value))
    (list : ∀ items, (∀ d ∈ items, motive d) → motive (.list items))
    (object : ∀ members, (∀ m ∈ members, motive m.2) → motive (.object members))
    (document : Json) : motive document := by
  refine @Json.rec motive (fun items => ∀ d ∈ items, motive d)
    (fun members => ∀ m ∈ members, motive m.2) (fun member => motive member.2)
    text number list object ?noItem ?item ?noMember ?member ?pair document
  case noItem =>
    intro d hd
    cases hd
  case item =>
    intro d items hd hitems
    exact List.forall_mem_cons.2 ⟨hd, hitems⟩
  case noMember =>
    intro m hm
    cases hm
  case member =>
    intro m members hm hmembers
    exact List.forall_mem_cons.2 ⟨hm, hmembers⟩
  case pair =>
    intro key value h
    exact h

/-- The characters of a document that is part of a line at a level of nesting. -/
def chars (level : Nat) (document : Json) : List Char :=
  (piecesAt level document).flatMap String.toList

def memberChars (level : Nat) (member : String × Json) : List Char :=
  (quote member.1).toList ++ (':' :: ' ' :: chars level member.2)

theorem chars_text (level : Nat) (value : String) :
    chars level (.text value) = (quote value).toList :=
  List.append_nil _

theorem chars_number (level value : Nat) :
    chars level (.number value) = (toString value).toList :=
  List.append_nil _

theorem itemPieces_chars (level : Nat) (items : List Json) :
    (itemPieces level items).flatMap String.toList =
      furtherEntries level (items.map (chars level)) := by
  induction items with
  | nil => rfl
  | cons item items ih =>
    simp only [itemPieces, List.flatMap_append, ih]
    simp [furtherEntries, toList_newLine, chars]

theorem memberPieces_chars (level : Nat) (members : List (String × Json)) :
    (memberPieces level members).flatMap String.toList =
      furtherEntries level (members.map (memberChars level)) := by
  induction members with
  | nil => rfl
  | cons member members ih =>
    obtain ⟨key, value⟩ := member
    simp only [memberPieces, List.flatMap_append, ih]
    simp [furtherEntries, toList_newLine, chars, memberChars]

theorem chars_list (level : Nat) (items : List Json) :
    chars level (.list items) = bracketed '[' ']' level (items.map (chars (level + 1))) := by
  cases items with
  | nil => rfl
  | cons item items =>
    simp only [chars, piecesAt, List.flatMap_append, itemPieces_chars]
    simp [bracketed, toList_newLine, chars]

theorem chars_object (level : Nat) (members : List (String × Json)) :
    chars level (.object members) =
      bracketed '\x7b' '\x7d' level (members.map (memberChars (level + 1))) := by
  cases members with
  | nil => rfl
  | cons member members =>
    obtain ⟨key, value⟩ := member
    simp only [chars, piecesAt, List.flatMap_append, memberPieces_chars]
    simp [bracketed, toList_newLine, chars, memberChars]

inductive Form
  | text
  | number
  | list
  | object

def form : Json → Form
  | .text _ => .text
  | .number _ => .number
  | .list _ => .list
  | .object _ => .object

/-- The form of a document whose text begins with a character. -/
def Form.ofChar (c : Char) : Form :=
  if c = '"' then .text
  else if c = '[' then .list
  else if c = '\x7b' then .object
  else .number

theorem Form.ofChar_digit {c : Char} (h : c.isDigit = true) : Form.ofChar c = .number := by
  have hne : ∀ d : Char, d.isDigit = false → c ≠ d := by
    intro d hd heq
    rw [heq, hd] at h
    cases h
  unfold Form.ofChar
  rw [if_neg (hne '"' rfl), if_neg (hne '[' rfl), if_neg (hne '\x7b' rfl)]

/-- The first character of a document shows its form. -/
theorem exists_chars_eq_cons (level : Nat) (d : Json) :
    ∃ c cs, chars level d = c :: cs ∧ Form.ofChar c = d.form := by
  cases d with
  | text value =>
    rw [chars_text, toList_quote]
    exact ⟨_, _, rfl, rfl⟩
  | number value =>
    rw [chars_number]
    cases hdigits : (toString value).toList with
    | nil =>
      rw [toList_toString] at hdigits
      exact absurd hdigits Nat.toDigits_ne_nil
    | cons c cs =>
      refine ⟨c, cs, rfl, Form.ofChar_digit (isDigit_of_mem_toString (n := value) ?_)⟩
      rw [hdigits]
      exact List.mem_cons_self
  | list items =>
    rw [chars_list]
    cases items with
    | nil => exact ⟨_, _, rfl, rfl⟩
    | cons item items => exact ⟨_, _, rfl, rfl⟩
  | object members =>
    rw [chars_object]
    cases members with
    | nil => exact ⟨_, _, rfl, rfl⟩
    | cons member members => exact ⟨_, _, rfl, rfl⟩

theorem form_eq_of_chars {level : Nat} {d d' : Json} {rest rest' : List Char}
    (h : chars level d ++ rest = chars level d' ++ rest') : d.form = d'.form := by
  obtain ⟨c, cs, hchars, hform⟩ := exists_chars_eq_cons level d
  obtain ⟨c', cs', hchars', hform'⟩ := exists_chars_eq_cons level d'
  rw [hchars, hchars'] at h
  rw [← hform, ← hform', (List.cons.inj h).1]

theorem legible_memberChars {level : Nat} {member : String × Json}
    (h : Legible (chars level) member.2) : Legible (memberChars level) member := by
  intro member' rest rest' hrest hrest' heq
  unfold memberChars at heq
  rw [List.append_assoc, List.append_assoc] at heq
  obtain ⟨hkey, htail⟩ := quote_append_inj heq
  obtain ⟨hvalue, hrests⟩ := h member'.2 rest rest' hrest hrest'
    (List.cons.inj (List.cons.inj htail).2).2
  exact ⟨Prod.ext hkey hvalue, hrests⟩

/-- At every level the characters of a document show which one it is and where it ends. -/
theorem legible_chars (d : Json) (level : Nat) : Legible (chars level) d := by
  -- A document of another form begins with another character, so one case is left of each four.
  induction d using Json.ind generalizing level with
  | text value =>
    intro d' rest rest' _ _ h
    cases d' with
    | text value' =>
      rw [chars_text, chars_text] at h
      obtain ⟨rfl, hrests⟩ := quote_append_inj h
      exact ⟨rfl, hrests⟩
    | _ => cases form_eq_of_chars h
  | number value =>
    intro d' rest rest' hrest hrest' h
    cases d' with
    | number value' =>
      rw [chars_number, chars_number] at h
      obtain ⟨rfl, hrests⟩ := decimal_append_inj hrest hrest' h
      exact ⟨rfl, hrests⟩
    | _ => cases form_eq_of_chars h
  | list items ih =>
    intro d' rest rest' _ _ h
    cases d' with
    | list items' =>
      rw [chars_list, chars_list] at h
      obtain ⟨rfl, hrests⟩ := bracketed_append_inj (by decide) (fun d hd => ih d hd _) h
      exact ⟨rfl, hrests⟩
    | _ => cases form_eq_of_chars h
  | object members ih =>
    intro d' rest rest' _ _ h
    cases d' with
    | object members' =>
      rw [chars_object, chars_object] at h
      obtain ⟨rfl, hrests⟩ :=
        bracketed_append_inj (by decide) (fun m hm => legible_memberChars (ih m hm _)) h
      exact ⟨rfl, hrests⟩
    | _ => cases form_eq_of_chars h

/-- Documents with one text are one document. -/
theorem pretty_injective : Function.Injective pretty := by
  intro d d' h
  have hchars : chars 0 d ++ [] = chars 0 d' ++ [] := by
    have hlist := congrArg String.toList h
    simpa only [pretty, String.toList_join, List.append_nil, chars] using hlist
  exact (legible_chars d 0 d' [] [] endsDecimal_nil endsDecimal_nil hchars).1

end Json
end WireCodec
