import WireCodec.Proofs.Casing

/-!
# Constants in lines of Ruby code

A word of Ruby code that begins with a capital letter is a constant.  It is looked up by itself
unless it stands behind a colon, a dot or an at sign, is a key of a hash, or belongs to a text or a
comment.

* `Target.Ruby.Scan`              what is known of a line in front of a character;
* `Target.Ruby.mentioned`         the constants of a line that are looked up by themselves;
* `Target.Ruby.Scan.Reads`        a piece of a line, and the constants that it may have;
* `Target.Ruby.Scan.Refers`       a reference, and the constants that it may have;
* `Target.Ruby.Scan.reads_bound_name`, `reads_key`, `refers_word`, `refers_nested`,
  `reads_intercalate`             the pieces that are made from a schema.
-/

namespace WireCodec.Target.Ruby

/-! ## Scanning a line -/

inductive Enclosure
  /-- Double quotes. -/
  | text
  /-- Single quotes. -/
  | raw
  | braces
  | comment

/-- What is known of a line in front of a character. -/
structure Scan where
  /-- The enclosures that are open, the innermost first. -/
  within : List Enclosure
  /-- The character in front of the word. -/
  before : Char
  word : List Char
  /-- The word is followed by a colon, which may be the first of two. -/
  colon : Bool

namespace Scan

def start : Scan := ⟨[], ' ', [], false⟩

/-- The word, if it is a constant that is looked up by itself. -/
def constant (s : Scan) : List String :=
  match s.word with
  | [] => []
  | c :: _ => if c.isUpper && !(s.before ∈ [':', '.', '@']) then [String.ofList s.word] else []

/-- Code is what stands outside of quotes and comments. -/
def inCode : List Enclosure → Bool
  | [] => true
  | .braces :: _ => true
  | _ => false

/-- A word of code ends in front of a character, and is no key. -/
def ends (s : Scan) (c : Char) : Bool :=
  if s.colon then c = ':' else !Text.isIdentifierRest c && (c ≠ ':' || s.word.isEmpty)

/-- The enclosures behind a character of code. -/
def enter (within : List Enclosure) (c : Char) : List Enclosure :=
  if c = '"' then .text :: within
  else if c = '\'' then .raw :: within
  else if c = '\x7b' then .braces :: within
  else if c = '\x7d' then within.tail
  else if c = '#' then .comment :: within
  else within

def stepCode (s : Scan) (c : Char) : Scan :=
  if s.ends c then ⟨enter s.within c, c, [], false⟩
  else if s.colon then
    -- the word was a key
    if Text.isIdentifierRest c then ⟨s.within, ':', [c], false⟩
    else ⟨enter s.within c, c, [], false⟩
  else if Text.isIdentifierRest c then { s with word := s.word ++ [c] }
  else { s with colon := true }

def step (s : Scan) (c : Char) : Scan :=
  match s.within with
  | .comment :: _ => s
  | .text :: within =>
    if c = '"' then ⟨within, c, [], false⟩
    else if c = '\x7b' && s.before = '#' then ⟨.braces :: s.within, c, [], false⟩
    else { s with before := c }
  | .raw :: within => if c = '\'' then ⟨within, c, [], false⟩ else s
  | _ => s.stepCode c

def after (s : Scan) (cs : List Char) : Scan := cs.foldl step s

/-- The constants whose words end in front of one of the characters. -/
def gather : Scan → List Char → List String
  | _, [] => []
  | s, c :: cs => (if inCode s.within && s.ends c then s.constant else []) ++ gather (s.step c) cs

end Scan

/-- The constants of a line that are looked up by themselves. -/
def mentioned (line : String) : List String :=
  Scan.start.gather (line.toList ++ ['\n'])

/-! ## Pieces of lines -/

namespace Scan

/-- Characters lead from one state to another, and the constants that end in front of them are
from a list. -/
structure Reads (names : List String) (s : Scan) (cs : List Char) (s' : Scan) : Prop where
  after : s.after cs = s'
  gather : ∀ m ∈ s.gather cs, m ∈ names

section
variable {names names' : List String} {s s' s'' : Scan} {cs front back : List Char} {c : Char}

theorem gather_append (s : Scan) (front back : List Char) :
    s.gather (front ++ back) = s.gather front ++ (s.after front).gather back := by
  induction front generalizing s with
  | nil => rfl
  | cons c front ih =>
    rw [List.cons_append, gather, gather, ih, List.append_assoc]
    rfl

theorem Reads.append (h : Reads names s front s') (h' : Reads names s' back s'') :
    Reads names s (front ++ back) s'' := by
  obtain ⟨rfl, hfront⟩ := h
  obtain ⟨rfl, hback⟩ := h'
  refine ⟨List.foldl_append, ?_⟩
  rw [gather_append]
  exact List.forall_mem_append.2 ⟨hfront, hback⟩

theorem Reads.mono (h : Reads names s cs s') (hsub : names ⊆ names') : Reads names' s cs s' :=
  ⟨h.after, fun m hm => hsub (h.gather m hm)⟩

theorem reads_fixed (h : s.after cs = s') (hall : (s.gather cs).all (names.contains ·) = true) :
    Reads names s cs s' :=
  ⟨h, fun m hm => List.contains_iff_mem.1 (List.all_eq_true.1 hall m hm)⟩

theorem step_of_inCode (h : inCode s.within = true) (c : Char) : s.step c = s.stepCode c := by
  unfold step
  cases hwithin : s.within with
  | nil => rfl
  | cons e within =>
    rw [hwithin] at h
    cases e with
    | braces => rfl
    | _ => cases h

variable {w : List Enclosure} {b : Char} {word : List Char}

theorem reads_word (hcode : inCode w = true) (h : ∀ c ∈ cs, Text.isIdentifierRest c = true) :
    Reads names ⟨w, b, word, false⟩ cs ⟨w, b, word ++ cs, false⟩ := by
  induction cs generalizing word with
  | nil =>
    rw [List.append_nil]
    exact ⟨rfl, List.forall_mem_nil _⟩
  | cons c cs ih =>
    obtain ⟨hc, hcs⟩ := List.forall_mem_cons.1 h
    have hends : ends ⟨w, b, word, false⟩ c = false := by
      show (!Text.isIdentifierRest c && _) = false
      rw [hc]
      rfl
    have hstep : step ⟨w, b, word, false⟩ c = ⟨w, b, word ++ [c], false⟩ := by
      rw [step_of_inCode hcode, stepCode, if_neg (by rw [hends]; decide),
        if_neg Bool.false_ne_true, if_pos hc]
    have hrest : Reads names ⟨w, b, word ++ [c], false⟩ cs ⟨w, b, word ++ c :: cs, false⟩ := by
      have hword : Reads names ⟨w, b, word ++ [c], false⟩ cs ⟨w, b, word ++ [c] ++ cs, false⟩ :=
        ih hcs
      rwa [List.append_assoc] at hword
    refine ⟨?_, ?_⟩
    · show (step ⟨w, b, word, false⟩ c).after cs = _
      rw [hstep]
      exact hrest.after
    · rw [gather, hends, hstep, Bool.and_false]
      exact hrest.gather

/-- A character that belongs to no word and is no colon ends the word in front of it. -/
theorem reads_end (hcode : inCode w = true) (hc : Text.isIdentifierRest c = false)
    (hcolon : c ≠ ':') (hword : ∀ m ∈ constant ⟨w, b, word, false⟩, m ∈ names) :
    Reads names ⟨w, b, word, false⟩ [c] ⟨enter w c, c, [], false⟩ := by
  have hends : ends ⟨w, b, word, false⟩ c = true := by
    show (!Text.isIdentifierRest c && (decide (c ≠ ':') || _)) = true
    rw [hc, decide_eq_true hcolon]
    rfl
  refine ⟨?_, ?_⟩
  · show step ⟨w, b, word, false⟩ c = _
    rw [step_of_inCode hcode, stepCode, if_pos hends]
  · rw [gather, hends, hcode]
    show ∀ m ∈ constant _ ++ [], m ∈ names
    rw [List.append_nil]
    exact hword

/-- A word behind a colon, a dot or an at sign is no constant by itself. -/
theorem constant_eq_nil (h : b ∈ [':', '.', '@']) : constant ⟨w, b, word, false⟩ = [] := by
  unfold constant
  cases word with
  | nil => rfl
  | cons c word =>
    show (if c.isUpper && !decide (b ∈ [':', '.', '@']) then _ else []) = []
    rw [decide_eq_true h, Bool.not_true, Bool.and_false]
    rfl

theorem mem_constant {m : String} (h : m ∈ s.constant) : m = String.ofList s.word := by
  unfold constant at h
  split at h
  · cases h
  · split at h
    · exact List.mem_singleton.1 h
    · cases h

theorem reads_bound_name (hcode : inCode w = true) (hb : b ∈ [':', '.', '@'])
    (hcs : ∀ c ∈ cs, Text.isIdentifierRest c = true) (hc : Text.isIdentifierRest c = false)
    (hcolon : c ≠ ':') : Reads names ⟨w, b, [], false⟩ (cs ++ [c]) ⟨enter w c, c, [], false⟩ := by
  refine (reads_word hcode hcs).append (reads_end hcode hc hcolon ?_)
  rw [constant_eq_nil hb]
  exact List.forall_mem_nil _

theorem ends_colon (hne : word ≠ []) : ends ⟨w, b, word, false⟩ ':' = false := by
  have hempty : word.isEmpty = false := by
    cases word with
    | nil => exact absurd rfl hne
    | cons c word => rfl
  show (!Text.isIdentifierRest ':' && (decide (':' ≠ ':') || word.isEmpty)) = false
  rw [hempty]
  rfl

theorem step_colon (hcode : inCode w = true) (hne : word ≠ []) :
    step ⟨w, b, word, false⟩ ':' = ⟨w, b, word, true⟩ := by
  rw [step_of_inCode hcode, stepCode, if_neg (by rw [ends_colon hne]; decide),
    if_neg Bool.false_ne_true, if_neg (by decide)]

/-- A word with a single colon is a key. -/
theorem reads_key (hcode : inCode w = true) (hne : cs ≠ [])
    (hcs : ∀ c ∈ cs, Text.isIdentifierRest c = true) :
    Reads names ⟨w, b, [], false⟩ (cs ++ [':', ' ']) ⟨w, ' ', [], false⟩ := by
  refine (reads_word hcode hcs).append ?_
  rw [List.nil_append]
  have hblank : step ⟨w, b, cs, true⟩ ' ' = ⟨w, ' ', [], false⟩ := by
    rw [step_of_inCode hcode]
    rfl
  refine ⟨?_, ?_⟩
  · show step (step ⟨w, b, cs, false⟩ ':') ' ' = _
    rw [step_colon hcode hne, hblank]
  · have hkey : ends ⟨w, b, cs, true⟩ ' ' = false := rfl
    rw [gather, ends_colon hne, step_colon hcode hne, gather, hkey, Bool.and_false]
    exact List.forall_mem_nil _

/-- A reference to a class, wherever it stands behind a blank, has constants from a list only. -/
def Refers (names : List String) (reference : String) : Prop :=
  ∀ w c, inCode w = true → Text.isIdentifierRest c = false → c ≠ ':' →
    Reads names ⟨w, ' ', [], false⟩ (reference.toList ++ [c]) ⟨enter w c, c, [], false⟩

theorem refers_word {reference : String}
    (hcs : ∀ c ∈ reference.toList, Text.isIdentifierRest c = true) (hmem : reference ∈ names) :
    Refers names reference := by
  intro w c hcode hc hcolon
  refine (reads_word hcode hcs).append (reads_end hcode hc hcolon fun m hm => ?_)
  rw [mem_constant hm, List.nil_append, String.ofList_toList]
  exact hmem

/-- Behind two colons a class is looked up in the module in front of them. -/
theorem refers_nested {outer inner : String}
    (houter : ∀ c ∈ outer.toList, Text.isIdentifierRest c = true) (hne : outer.toList ≠ [])
    (hinner : ∀ c ∈ inner.toList, Text.isIdentifierRest c = true) (hmem : outer ∈ names) :
    Refers names (outer ++ "::" ++ inner) := by
  intro w c hcode hc hcolon
  have hends : ends ⟨w, ' ', outer.toList, false⟩ ':' = false := ends_colon hne
  have hfirst : step ⟨w, ' ', outer.toList, false⟩ ':' = ⟨w, ' ', outer.toList, true⟩ :=
    step_colon hcode hne
  have hsecond : step ⟨w, ' ', outer.toList, true⟩ ':' = ⟨w, ':', [], false⟩ := by
    rw [step_of_inCode hcode]
    rfl
  have hcolons : Reads names ⟨w, ' ', outer.toList, false⟩ [':', ':'] ⟨w, ':', [], false⟩ := by
    refine ⟨?_, ?_⟩
    · show step (step ⟨w, ' ', outer.toList, false⟩ ':') ':' = _
      rw [hfirst, hsecond]
    · have hboth : ends ⟨w, ' ', outer.toList, true⟩ ':' = true := rfl
      rw [gather, hends, hfirst, gather, hboth, hcode, hsecond]
      show ∀ m ∈ constant ⟨w, ' ', outer.toList, true⟩ ++ [], m ∈ names
      intro m hm
      rw [List.append_nil] at hm
      rw [mem_constant hm, String.ofList_toList]
      exact hmem
  have htext : (outer ++ "::" ++ inner).toList ++ [c] =
      outer.toList ++ ([':', ':'] ++ (inner.toList ++ [c])) := by
    simp
  rw [htext]
  refine (reads_word hcode houter).append (hcolons.append ?_)
  exact reads_bound_name hcode List.mem_cons_self hinner hc hcolon

theorem reads_intercalate {pieces : List String} {final : Char} (hcode : inCode w = true)
    (hfinal : Text.isIdentifierRest final = false) (hcolon : final ≠ ':')
    (h : ∀ piece ∈ pieces, ∀ before ∈ [b, ' '], ∀ c ∈ [',', final],
      Reads names ⟨w, before, [], false⟩ (piece.toList ++ [c]) ⟨enter w c, c, [], false⟩) :
    Reads names ⟨w, b, [], false⟩ ((String.intercalate ", " pieces).toList ++ [final])
      ⟨enter w final, final, [], false⟩ := by
  induction pieces generalizing b with
  | nil => exact reads_end hcode hfinal hcolon (List.forall_mem_nil _)
  | cons piece pieces ih =>
    obtain ⟨hpiece, hpieces⟩ := List.forall_mem_cons.1 h
    cases pieces with
    | nil =>
      rw [String.intercalate_singleton]
      exact hpiece b List.mem_cons_self final (List.mem_cons_of_mem _ List.mem_cons_self)
    | cons next pieces =>
      have htext : (String.intercalate ", " (piece :: next :: pieces)).toList ++ [final] =
          (piece.toList ++ [',']) ++
            ([' '] ++ ((String.intercalate ", " (next :: pieces)).toList ++ [final])) := by
        rw [String.intercalate_cons_cons]
        simp
      rw [htext]
      refine (hpiece b List.mem_cons_self ',' List.mem_cons_self).append ?_
      refine Reads.append (reads_end hcode (by decide) (by decide) ?_) (ih ?_)
      · exact List.forall_mem_nil _
      · intro piece hmem before hbefore
        refine hpieces piece hmem before ?_
        rw [List.mem_pair, or_self] at hbefore
        exact hbefore ▸ List.mem_cons_of_mem _ List.mem_cons_self

end
end Scan
end WireCodec.Target.Ruby
