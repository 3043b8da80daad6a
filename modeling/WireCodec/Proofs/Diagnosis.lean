import Mathlib
import WireCodec.Proofs.Grammar
import WireCodec.Proofs.Lexemes

/-!
# Where faults point

Every fault of a schema text points into the text: at the start of the piece that is no token,
or at the start of the token that the message quotes.

* `TakesFront p`              a parser takes tokens from the front, never the end marker, and what
                              stands behind them does not matter;
* `FailsAt run front t …`     a run fails at the token `t`: what stands in front of it is too
                              little, and what stands behind it does not matter;
* `Blames run ts`             where an end marker is among the tokens, a fault comes from one of
                              them;
* `Heeds p`                   both of a parser, with a law for each way to build parsers;
* `blames_parse`              so it is for the parser of schemas;
* `compile_fault_points`      the statement for texts.
-/

namespace WireCodec
namespace Source

/-! ## Messages -/

def SyntaxFault.quoted? : SyntaxFault → Option String
  | noToken text => some text
  | expected _ found => some found
  | unexpected found => some found
  | invalidInteger found => some found
  | endOfInput => none

theorem SyntaxFault.exists_message {fault : SyntaxFault} {text : String}
    (h : fault.quoted? = some text) : ∃ lead, fault.message = lead ++ Text.quote text := by
  cases fault with
  | noToken => cases h; exact ⟨_, rfl⟩
  | expected => cases h; exact ⟨_, rfl⟩
  | unexpected => cases h; exact ⟨_, rfl⟩
  | invalidInteger => cases h; exact ⟨_, rfl⟩
  | endOfInput => cases h

/-! ## Runs that fail at a token -/

section
variable {α β γ : Type} {p : Parser α} {ts : List Token} {t : Token}
  {run run' : List Token → Except CompileError β}

/-- A parser takes tokens from the front, none of them an end marker, whatever stands behind. -/
def TakesFront (p : Parser α) : Prop :=
  ∀ ts a rest, p ts = .ok (a, rest) → ∃ front, ts = front ++ rest ∧
    (∀ t ∈ front, t.text ≠ "") ∧ ∀ rest', p (front ++ rest') = .ok (a, rest')

/-- A run fails at the token behind `front`: it quotes the token and its place, it would go on
if the tokens ended in front of it, and what stands behind it does not matter. -/
structure FailsAt (run : List Token → Except CompileError β) (front : List Token) (t : Token)
    (fault : SyntaxFault) (place : Position) : Prop where
  place_eq : place = t.position
  quoted : fault.quoted? = some t.text
  short : run front = .error endOfInput
  fails : ∀ back, run (front ++ t :: back) = .error (.parse fault place)

/-- Where an end marker is among the tokens, a fault comes from one of them. -/
def Blames (run : List Token → Except CompileError β) (ts : List Token) : Prop :=
  ∀ fault place, run ts = .error (.parse fault place) → (∃ t ∈ ts, t.text = "") →
    ∃ front t back, ts = front ++ t :: back ∧ FailsAt run front t fault place

theorem Recognizes.takesFront {L : List String → α → Prop} (h : Recognizes p L)
    (hL : ∀ texts a, L texts a → "" ∉ texts) : TakesFront p := by
  intro ts a rest hp
  obtain ⟨front, rfl, hfront⟩ := (h _ _ _).1 hp
  refine ⟨front, rfl, ?_, fun rest' => (h _ _ _).2 ⟨front, rfl, hfront⟩⟩
  intro t ht hempty
  exact hL _ _ hfront (hempty ▸ List.mem_map_of_mem ht)

theorem takesFront_pure (a : α) : TakesFront (pure a : Parser α) := by
  intro ts b rest h
  cases h
  exact ⟨[], rfl, List.forall_mem_nil _, fun _ => rfl⟩

theorem TakesFront.bind {q : α → Parser β} (hp : TakesFront p) (hq : ∀ a, TakesFront (q a)) :
    TakesFront (p >>= q) := by
  intro ts b rest h
  obtain ⟨a, mid, hfirst, hsecond⟩ := bind_eq_ok h
  obtain ⟨front, rfl, hfront, hagain⟩ := hp _ _ _ hfirst
  obtain ⟨back, rfl, hback, hagain'⟩ := hq a _ _ _ hsecond
  refine ⟨front ++ back, (List.append_assoc ..).symm, ?_, fun rest' => ?_⟩
  · exact List.forall_mem_append.2 ⟨hfront, hback⟩
  · rw [List.append_assoc]
    exact bind_eq_ok_iff.2 ⟨a, back ++ rest', hagain _, hagain' _⟩

theorem TakesFront.keeps (hp : TakesFront p) : Keeps p := by
  intro ts a rest h
  obtain ⟨front, rfl, -⟩ := hp _ _ _ h
  rw [List.length_append]
  exact Nat.le_add_left _ _

theorem blames_nil (run : List Token → Except CompileError β) : Blames run [] := by
  rintro fault place - ⟨t, ht, -⟩
  exact absurd ht List.not_mem_nil

theorem blames_of_ne (h : ∀ fault place, run ts ≠ .error (.parse fault place)) : Blames run ts :=
  fun fault place hrun => absurd hrun (h fault place)

theorem blames_of_fault {fault : SyntaxFault} (hnil : run [] = .error endOfInput)
    (hquoted : fault.quoted? = some t.text)
    (h : ∀ ts, run (t :: ts) = .error (faultAt t fault)) : Blames run (t :: ts) := by
  intro fault' place hrun _
  rw [h, faultAt] at hrun
  cases hrun
  exact ⟨[], t, ts, rfl, rfl, hquoted, hnil, h⟩

/-- Faults behind tokens that a run has taken, where it goes on as `run`. -/
theorem Blames.lift {again : List Token → Except CompileError γ} {taken : List Token}
    (htaken : ∀ t ∈ taken, t.text ≠ "")
    (hlift : ∀ ts e, run ts = .error e → again (taken ++ ts) = .error e)
    (hback : ∀ fault place, again (taken ++ ts) = .error (.parse fault place) →
      run ts = .error (.parse fault place))
    (h : Blames run ts) : Blames again (taken ++ ts) := by
  rintro fault place hfault ⟨marker, hmem, hmarker⟩
  have hbehind : marker ∈ ts := by
    rcases List.mem_append.1 hmem with hmem | hmem
    · exact absurd hmarker (htaken marker hmem)
    · exact hmem
  obtain ⟨front, t, back, rfl, hfails⟩ :=
    h fault place (hback fault place hfault) ⟨marker, hbehind, hmarker⟩
  refine ⟨taken ++ front, t, back, (List.append_assoc ..).symm, hfails.place_eq, hfails.quoted,
    hlift front _ hfails.short, fun back => ?_⟩
  rw [List.append_assoc]
  exact hlift _ _ (hfails.fails back)

theorem Blames.cons (ht : t.text ≠ "") (hrun : ∀ ts, run (t :: ts) = run' ts)
    (h : Blames run' ts) : Blames run (t :: ts) := by
  have htaken : ∀ t' ∈ [t], t'.text ≠ "" := by
    intro t' ht'
    rwa [List.mem_singleton.1 ht']
  refine Blames.lift htaken (fun ts e hfault => ?_) (fun fault place hfault => ?_) h
  · exact (hrun ts).trans hfault
  · exact (hrun ts).symm.trans hfault

theorem Blames.of_head (hnil : run [] = .error endOfInput)
    (hrun : ∀ ts, run (t :: ts) = run' (t :: ts)) (h : Blames run' (t :: ts)) :
    Blames run (t :: ts) := by
  intro fault place hfault hmarker
  rw [hrun] at hfault
  obtain ⟨front, t', back, heq, hfails⟩ := h fault place hfault hmarker
  -- `front` is empty or begins with `t`, and then `front ++ t' :: back` begins with `t` too.
  refine ⟨front, t', back, heq, hfails.place_eq, hfails.quoted, ?_, fun back => ?_⟩
  · cases front with
    | nil => exact hnil
    | cons t'' front =>
      obtain ⟨rfl, -⟩ := List.cons_eq_cons.1 heq
      rw [hrun, hfails.short]
  · rw [← hfails.fails back]
    cases front with
    | nil =>
      obtain ⟨rfl, -⟩ := List.cons_eq_cons.1 heq
      exact hrun back
    | cons t'' front =>
      obtain ⟨rfl, -⟩ := List.cons_eq_cons.1 heq
      exact hrun _

theorem Blames.next {next : α → List Token → Except CompileError β} (hp : TakesFront p)
    (hfirst : Blames p ts) (hnext : ∀ a rest, p ts = .ok (a, rest) → Blames (next a) rest) :
    Blames (fun ts => p ts >>= fun read => next read.1 read.2) ts := by
  cases hread : p ts with
  | error e =>
    refine Blames.lift (List.forall_mem_nil _) (fun ts e hfault => ?_)
      (fun fault place hfault => ?_) hfirst
    · rw [List.nil_append, hfault]
      rfl
    · rw [List.nil_append, hread] at hfault
      rw [hread]
      cases hfault
      rfl
  | ok read =>
    obtain ⟨a, rest⟩ := read
    obtain ⟨taken, rfl, htaken, hagain⟩ := hp _ _ _ hread
    refine Blames.lift htaken (fun ts e hfault => ?_) (fun fault place hfault => ?_)
      (hnext a rest hread)
    · rw [hagain]
      exact hfault
    · rw [hagain] at hfault
      exact hfault

theorem Blames.bind {q : α → Parser β} (hp : TakesFront p) (hfirst : Blames p ts)
    (hnext : ∀ a rest, p ts = .ok (a, rest) → Blames (q a) rest) : Blames (p >>= q) ts :=
  Blames.next hp hfirst hnext

theorem Blames.through {next : β → Except CompileError γ}
    (hnext : ∀ b fault place, next b ≠ .error (.parse fault place)) (h : Blames run ts) :
    Blames (fun ts => run ts >>= next) ts := by
  refine Blames.lift (List.forall_mem_nil _) (fun ts e hfault => ?_)
    (fun fault place hfault => ?_) h
  · rw [List.nil_append, hfault]
    rfl
  · rw [List.nil_append] at hfault
    cases hrun : run ts with
    | error e' =>
      rw [hrun] at hfault
      cases hfault
      rfl
    | ok b =>
      rw [hrun] at hfault
      exact absurd hfault (hnext b fault place)

theorem blames_pure (a : α) (ts : List Token) : Blames (pure a : Parser α) ts := by
  refine blames_of_ne fun fault place h => ?_
  cases h

/-- A parser takes tokens from the front, and its faults come from tokens. -/
structure Heeds (p : Parser α) : Prop where
  takes : TakesFront p
  blames : ∀ ts, Blames p ts

theorem heeds_pure (a : α) : Heeds (pure a : Parser α) :=
  ⟨takesFront_pure a, blames_pure a⟩

theorem Heeds.bind {q : α → Parser β} (hp : Heeds p) (hq : ∀ a, Heeds (q a)) : Heeds (p >>= q) :=
  ⟨hp.takes.bind fun a => (hq a).takes,
    fun ts => Blames.bind hp.takes (hp.blames ts) fun a rest _ => (hq a).blames rest⟩

end

/-! ## Single tokens -/

section
variable {β : Type} {wanted : TokenClass} {f : Token → Parser β} {t : Token} {ts : List Token}

theorem expect_bind_cons (wanted : TokenClass) (f : Token → Parser β) (t : Token)
    (ts : List Token) :
    (expect wanted >>= f) (t :: ts) =
      if wanted.accepts t.text then f t ts
      else .error (faultAt t (.expected wanted t.text)) := by
  show (expect wanted (t :: ts) >>= fun read => f read.1 read.2) = _
  rw [expect]
  split <;> rfl

theorem expect_word_bind_cons (word : String) (f : Token → Parser β) (t : Token)
    (ts : List Token) :
    (expect (.word word) >>= f) (t :: ts) =
      if t.text = word then f t ts else .error (faultAt t (.expected (.word word) t.text)) := by
  rw [expect_bind_cons]
  simp only [TokenClass.accepts, decide_eq_true_eq]

theorem blames_of_not_accepts (h : ¬ wanted.accepts t.text = true) :
    Blames (expect wanted >>= f) (t :: ts) := by
  have hquoted : (SyntaxFault.expected wanted t.text).quoted? = some t.text := rfl
  refine blames_of_fault rfl hquoted fun ts => ?_
  rw [expect_bind_cons, if_neg h]

theorem heeds_expect (h : wanted.accepts "" = false) : Heeds (expect wanted) where
  takes := by
    intro ts t rest hread
    obtain ⟨rfl, haccepts⟩ := expect_eq_ok_iff.1 hread
    refine ⟨[t], rfl, ?_, fun rest' => expect_eq_ok_iff.2 ⟨rfl, haccepts⟩⟩
    intro t' ht' hempty
    rw [List.mem_singleton.1 ht'] at hempty
    rw [hempty, h] at haccepts
    exact Bool.noConfusion haccepts
  blames := by
    intro ts
    rw [← bind_pure (expect wanted)]
    cases ts with
    | nil => exact blames_nil _
    | cons t ts =>
      by_cases haccepts : wanted.accepts t.text = true
      · refine blames_of_ne fun fault place h => ?_
        rw [expect_bind_cons, if_pos haccepts] at h
        cases h
      · exact blames_of_not_accepts haccepts

theorem heeds_expectName : Heeds expectName := by
  have heq : expectName = (expect .identifier >>= fun t => pure t.text) := by
    simp only [expectName, map_eq_pure_bind]
  rw [heq]
  exact (heeds_expect rfl).bind fun t => heeds_pure t.text

theorem heeds_expectBuiltin : Heeds expectBuiltin where
  takes := by
    refine recognizes_expectBuiltin.takesFront ?_
    rintro texts b rfl
    cases b <;> decide
  blames := by
    intro ts
    cases ts with
    | nil => exact blames_nil _
    | cons t ts =>
      cases hname : Builtin.ofName? t.text with
      | none =>
        refine blames_of_not_accepts ?_
        rw [TokenClass.accepts, hname]
        exact Bool.false_ne_true
      | some b =>
        refine blames_of_ne fun fault place h => ?_
        rw [expectBuiltin, expect_bind_cons, TokenClass.accepts, hname] at h
        cases h

theorem heeds_expectCount : Heeds expectCount where
  takes := by
    refine recognizes_expectCount.takesFront ?_
    rintro texts n ⟨text, rfl, hcount⟩
    simp [hcount.1.symm]
  blames := by
    intro ts
    cases ts with
    | nil => exact blames_nil _
    | cons t ts =>
      by_cases haccepts : TokenClass.integer.accepts t.text = true
      · have hquoted : (SyntaxFault.invalidInteger t.text).quoted? = some t.text := rfl
        cases hvalue : decimalValue? t.text.toList with
        | none =>
          refine blames_of_fault rfl hquoted fun ts => ?_
          rw [expectCount, expect_bind_cons, if_pos haccepts, hvalue]
          rfl
        | some n =>
          by_cases hn : n < twoPow 64
          · refine blames_of_ne fun fault place h => ?_
            rw [expectCount, expect_bind_cons, if_pos haccepts, hvalue] at h
            dsimp only at h
            rw [if_pos hn] at h
            cases h
          · refine blames_of_fault rfl hquoted fun ts => ?_
            rw [expectCount, expect_bind_cons, if_pos haccepts, hvalue]
            dsimp only
            rw [if_neg hn]
            rfl
      · exact blames_of_not_accepts haccepts

end

/-! ## Lists up to a brace -/

theorem heeds_toBrace {γ : Type} {p : Parser (List γ)} {item : Token → Parser γ}
    (hitem : ∀ t, Heeds (item t)) (hp : TakesFront p) (hnil : p [] = .error endOfInput)
    (hbrace : ∀ t ts, t.text = "\x7d" → p (t :: ts) = .ok ([], ts))
    (hname : ∀ t ts, Text.isIdentifier t.text = true →
      p (t :: ts) = (do return (← item t) :: (← p)) ts)
    (hfault : ∀ t ts, t.text ≠ "\x7d" → ¬ Text.isIdentifier t.text = true →
      p (t :: ts) = .error (faultAt t (.expected .identifier t.text))) : Heeds p := by
  refine ⟨hp, fun ts => ?_⟩
  -- On the number of tokens: behind an item the same parser goes on with fewer of them.
  induction hlength : ts.length using Nat.strong_induction_on generalizing ts with
  | _ n ih =>
  cases ts with
  | nil => exact blames_nil _
  | cons t ts =>
    by_cases ht : t.text = "\x7d"
    · refine blames_of_ne fun fault place h => ?_
      rw [hbrace t ts ht] at h
      cases h
    by_cases hidentifier : Text.isIdentifier t.text = true
    · refine Blames.cons (ne_empty_of_isIdentifier hidentifier)
        (fun ts => hname t ts hidentifier) ?_
      refine Blames.bind (hitem t).takes ((hitem t).blames ts) fun x rest hrest => ?_
      have hshorter := (hitem t).takes.keeps _ _ _ hrest
      rw [List.length_cons] at hlength
      exact Blames.bind hp (ih rest.length (by omega) rest rfl)
        fun xs rest _ => blames_pure (x :: xs) rest
    · have hquoted : (SyntaxFault.expected .identifier t.text).quoted? = some t.text := rfl
      exact blames_of_fault hnil hquoted fun ts => hfault t ts ht hidentifier

theorem labelsToBrace_eq_bind {t : Token} (h : Text.isIdentifier t.text = true)
    (ts : List Token) :
    labelsToBrace (t :: ts) = (do
      let label ← (do
        let _ ← expect (.word ";")
        return t.text)
      return label :: (← labelsToBrace)) ts := by
  have haccepts : TokenClass.identifier.accepts t.text = true := h
  conv_lhs => unfold labelsToBrace
  rw [if_neg (ne_brace_of_isIdentifier h), haccepts, if_neg (by decide)]
  simp only [bind_assoc, pure_bind]
  cases ts with
  | nil => rfl
  | cons semicolon ts =>
    rw [expect_word_bind_cons]
    dsimp only
    by_cases hsemicolon : semicolon.text = ";"
    · rw [if_neg (not_not.2 hsemicolon), if_pos hsemicolon]
      show _ = (labelsToBrace ts >>= fun read => .ok (t.text :: read.1, read.2))
      cases labelsToBrace ts with
      | error e => rfl
      | ok read => rfl
    · rw [if_pos hsemicolon, if_neg hsemicolon]

theorem heeds_labelsToBrace : Heeds labelsToBrace := by
  refine heeds_toBrace ?_ ?_ rfl (fun t ts => labelsToBrace_of_brace)
    (fun t ts h => labelsToBrace_eq_bind h ts) ?_
  · exact fun t => (heeds_expect rfl).bind fun _ => heeds_pure t.text
  · exact recognizes_labelsToBrace.takesFront fun _ _ h => h.2 ▸ notMem_labelTexts h.1
  · intro t ts hbrace hname
    have haccepts : TokenClass.identifier.accepts t.text = false := Bool.not_eq_true _ ▸ hname
    unfold labelsToBrace
    rw [if_neg hbrace, haccepts]
    rfl

theorem fieldsToBrace_eq_bind {t : Token} (h : Text.isIdentifier t.text = true)
    (ts : List Token) :
    fieldsToBrace (t :: ts) = (do
      let field ← (do
        let name ← expect .identifier
        let _ ← expect (.word ";")
        return Field.mk name.text t.text)
      return field :: (← fieldsToBrace)) ts := by
  have haccepts : TokenClass.identifier.accepts t.text = true := h
  conv_lhs => unfold fieldsToBrace
  rw [if_neg (ne_brace_of_isIdentifier h), haccepts, if_neg (by decide)]
  simp only [bind_assoc, pure_bind]
  cases ts with
  | nil => rfl
  | cons name ts =>
    rw [expect_bind_cons]
    dsimp only
    by_cases hname : TokenClass.identifier.accepts name.text = true
    · rw [hname, if_neg (by decide), if_pos rfl]
      cases ts with
      | nil => rfl
      | cons semicolon ts =>
        rw [expect_word_bind_cons]
        dsimp only
        by_cases hsemicolon : semicolon.text = ";"
        · rw [if_neg (not_not.2 hsemicolon), if_pos hsemicolon]
          show _ = (fieldsToBrace ts >>= fun read =>
            .ok (Field.mk name.text t.text :: read.1, read.2))
          cases fieldsToBrace ts with
          | error e => rfl
          | ok read => rfl
        · rw [if_pos hsemicolon, if_neg hsemicolon]
    · rw [Bool.not_eq_true] at hname
      rw [hname]
      rfl

theorem heeds_fieldsToBrace : Heeds fieldsToBrace := by
  refine heeds_toBrace ?_ ?_ rfl (fun t ts => fieldsToBrace_of_brace)
    (fun t ts h => fieldsToBrace_eq_bind h ts) ?_
  · exact fun t => (heeds_expect rfl).bind fun name => (heeds_expect rfl).bind fun _ =>
      heeds_pure (Field.mk name.text t.text)
  · exact recognizes_fieldsToBrace.takesFront fun _ _ h => h.2 ▸ notMem_fieldTexts h.1
  · intro t ts hbrace hname
    have haccepts : TokenClass.identifier.accepts t.text = false := Bool.not_eq_true _ ▸ hname
    unfold fieldsToBrace
    rw [if_neg hbrace, haccepts]
    rfl

/-! ## Declarations -/

theorem heeds_elementAndSize : Heeds elementAndSize :=
  heeds_expectName.bind fun element => (heeds_expect rfl).bind fun _ =>
    heeds_expectCount.bind fun size => (heeds_expect rfl).bind fun _ => heeds_pure (element, size)

/-- A token is no keyword, or a declaration goes on behind it. -/
theorem heeds_declarationBody (keyword : Token) :
    (∀ ts, declarationBody keyword ts = .error (faultAt keyword (.unexpected keyword.text))) ∨
      (keyword.text ≠ "" ∧ Heeds (declarationBody keyword)) := by
  unfold declarationBody
  split
  · next hkeyword =>
    refine .inr ⟨hkeyword ▸ by decide, ?_⟩
    exact heeds_expectName.bind fun _ => heeds_expectBuiltin.bind fun _ =>
      (heeds_expect rfl).bind fun _ => heeds_pure _
  · next hkeyword =>
    refine .inr ⟨hkeyword ▸ by decide, ?_⟩
    exact heeds_expectName.bind fun _ => (heeds_expect rfl).bind fun _ =>
      heeds_labelsToBrace.bind fun _ => heeds_pure _
  · next hkeyword =>
    refine .inr ⟨hkeyword ▸ by decide, ?_⟩
    exact heeds_expectName.bind fun _ => (heeds_expect rfl).bind fun _ =>
      heeds_fieldsToBrace.bind fun _ => heeds_pure _
  · next hkeyword =>
    refine .inr ⟨hkeyword ▸ by decide, ?_⟩
    exact heeds_expectName.bind fun _ => heeds_elementAndSize.bind fun _ =>
      (heeds_expect rfl).bind fun _ => heeds_pure _
  · next hkeyword =>
    refine .inr ⟨hkeyword ▸ by decide, ?_⟩
    exact heeds_expectName.bind fun _ => heeds_elementAndSize.bind fun _ =>
      heeds_expectBuiltin.bind fun _ => (heeds_expect rfl).bind fun _ => heeds_pure _
  · next hkeyword =>
    refine .inr ⟨hkeyword ▸ by decide, ?_⟩
    exact heeds_expectName.bind fun _ => (heeds_expect rfl).bind fun _ =>
      heeds_fieldsToBrace.bind fun _ => heeds_pure _
  · exact .inl fun ts => rfl

theorem heeds_declaration : Heeds declaration where
  takes := recognizes_declaration.takesFront fun _ _ h => h.notMem
  blames := by
    intro ts
    cases ts with
    | nil => exact blames_nil _
    | cons t ts =>
      have hrun : ∀ ts, declaration (t :: ts) = declarationBody t ts := fun _ => rfl
      rcases heeds_declarationBody t with hfault | ⟨ht, hbody⟩
      · have hquoted : (SyntaxFault.unexpected t.text).quoted? = some t.text := rfl
        exact blames_of_fault rfl hquoted fun ts => (hrun ts).trans (hfault ts)
      · exact Blames.cons ht hrun (hbody.blames ts)

/-! ## Schemas -/

/-- What the loop does with a declaration and the tokens behind it. -/
theorem declarations_eq_bind {t : Token} (ht : t.text ≠ "") (ts : List Token) :
    declarations (t :: ts) =
      (declaration (t :: ts) >>= fun read => read.1.define.mapError .schema >>= fun definition =>
        declarations read.2 >>= fun more => .ok (definition :: more)) := by
  rw [declarations_eq_turn, declarationsTurn, if_neg ht]
  cases declaration (t :: ts) with
  | error e => rfl
  | ok read =>
    obtain ⟨d, behind⟩ := read
    show _ = (d.define.mapError .schema >>= fun definition =>
        declarations behind >>= fun more => .ok (definition :: more))
    dsimp only
    cases d.define with
    | error e => rfl
    | ok definition =>
      show (declarations behind).map _ = (declarations behind >>= fun more => _)
      cases declarations behind with
      | error e => rfl
      | ok more => rfl

theorem blames_declarations (ts : List Token) : Blames declarations ts := by
  -- A turn of the loop is a declaration and the loop on fewer tokens, except at the end marker.
  induction hlength : ts.length using Nat.strong_induction_on generalizing ts with
  | _ n ih =>
  cases ts with
  | nil => exact blames_nil _
  | cons t ts =>
    by_cases ht : t.text = ""
    · refine blames_of_ne fun fault place h => ?_
      rw [declarations, if_pos ht] at h
      cases h
    have hnext : ∀ d behind, declaration (t :: ts) = .ok (d, behind) →
        Blames (fun behind => d.define.mapError .schema >>= fun definition =>
          declarations behind >>= fun more => .ok (definition :: more)) behind := by
      intro d behind hd
      have hshorter := shrinks_declaration _ _ _ hd
      have hbehind := ih behind.length (by omega) behind rfl
      cases d.define with
      | error e =>
        refine blames_of_ne fun fault place h => ?_
        cases h
      | ok definition =>
        refine hbehind.through fun more fault place h => ?_
        cases h
    have hturn := Blames.next heeds_declaration.takes (heeds_declaration.blames _) hnext
    exact hturn.of_head (by rw [declarations]) (declarations_eq_bind ht)

theorem heeds_header : Heeds header :=
  (heeds_expect rfl).bind fun _ => heeds_expectName.bind fun name =>
    (heeds_expect rfl).bind fun version => (heeds_expect rfl).bind fun _ =>
      heeds_pure (name, version.text)

theorem blames_parse (ts : List Token) : Blames parse ts := by
  have hnext : ∀ read rest, header ts = .ok (read, rest) →
      Blames (fun rest => declarations rest >>= fun declared =>
        (Schema.build read.1 read.2 declared).mapError .schema) rest := by
    intro read rest _
    refine (blames_declarations rest).through fun declared fault place h => ?_
    cases hbuild : Schema.build read.1 read.2 declared with
    | error e =>
      rw [hbuild] at h
      cases h
    | ok s =>
      rw [hbuild] at h
      cases h
  exact Blames.next heeds_header.takes (heeds_header.blames ts) hnext

/-! ## Texts -/

/-- A text is cut into lexemes up to a piece where none starts. -/
def NoTokenAt (text front piece back : String) : Prop :=
  piece ≠ "" ∧ Stray front.toList piece.toList back.toList ∧
    ∃ ls, Cut (piece.toList ++ back.toList) [] text.toList ls ∧
      front.toList = ls.flatMap Lexeme.chars

/-- A text is cut into lexemes up to its end, and the token `found` behind `front` makes the
parser fail; the end marker stands behind the whole text. -/
def WrongTokenAt (text front found : String) (fault : SyntaxFault) (place : Position) : Prop :=
  (found = "" → front = text) ∧ ∃ ls before behind, Cut [] [] text.toList ls ∧
    tokenOffsets 0 ls = before ++ (found, front.utf8ByteSize) :: behind ∧
    tokenize text = .ok ((tokenOffsets 0 ls).map (tokenAt text)) ∧
    FailsAt parse (before.map (tokenAt text)) ⟨found, place⟩ fault place

section
variable {text : String} {fault : SyntaxFault} {place : Position}

theorem eq_ofList_append {x y z : List Char} (h : text.toList = x ++ (y ++ z)) :
    text = String.ofList x ++ String.ofList y ++ String.ofList z := by
  rw [← String.ofList_append, ← String.ofList_append, List.append_assoc, ← h,
    String.ofList_toList]

theorem exists_of_tokenize_error (h : tokenize text = .error (.parse fault place)) :
    ∃ front quoted back, text = front ++ quoted ++ back ∧
      place = .atOffset text front.utf8ByteSize ∧ fault.quoted? = some quoted ∧
      NoTokenAt text front quoted back := by
  obtain ⟨ls, piece, rest, hcut, hstray, -, htokenize⟩ := exists_cut_of_tokenize text
  rw [h] at htokenize
  by_cases hpiece : piece = []
  · rw [if_pos hpiece] at htokenize
    cases htokenize
  · rw [if_neg hpiece] at htokenize
    cases htokenize
    refine ⟨String.ofList (ls.flatMap Lexeme.chars), String.ofList piece, String.ofList rest,
      eq_ofList_append hcut.eq_append, rfl, rfl, ?_, ?_, ls, ?_, ?_⟩
    · exact fun hempty => hpiece (String.ofList_eq_empty_iff.1 hempty)
    · rwa [String.toList_ofList, String.toList_ofList, String.toList_ofList]
    · rwa [String.toList_ofList, String.toList_ofList]
    · rw [String.toList_ofList]

theorem mem_tokenOffsets (offset : Nat) (ls : List Lexeme) :
    ∃ stop, ("", stop) ∈ tokenOffsets offset ls := by
  induction ls generalizing offset with
  | nil => exact ⟨offset, List.mem_singleton_self _⟩
  | cons l ls ih =>
    obtain ⟨stop, hstop⟩ := ih (offset + (String.ofList l.chars).utf8ByteSize)
    refine ⟨stop, ?_⟩
    rw [tokenOffsets]
    split
    · exact List.mem_cons_of_mem _ hstop
    · exact hstop

theorem exists_of_parse_error {tokens : List Token} (htokens : tokenize text = .ok tokens)
    (h : parse tokens = .error (.parse fault place)) :
    ∃ front quoted back, text = front ++ quoted ++ back ∧
      place = .atOffset text front.utf8ByteSize ∧ fault.quoted? = some quoted ∧
      WrongTokenAt text front quoted fault place := by
  obtain ⟨ls, piece, rest, hcut, -, hnil, htokenize⟩ := exists_cut_of_tokenize text
  rw [htokens] at htokenize
  by_cases hpiece : piece = []
  · rw [if_pos hpiece] at htokenize
    cases htokenize
    rw [hpiece, hnil hpiece, List.append_nil] at hcut
    obtain ⟨stop, hstop⟩ := mem_tokenOffsets 0 ls
    obtain ⟨front, t, back, hsplit, hfails⟩ :=
      blames_parse _ fault place h ⟨_, List.mem_map_of_mem hstop, rfl⟩
    obtain ⟨before, behind, hoffsets, rfl, hbehind⟩ := List.map_eq_append_iff.1 hsplit
    obtain ⟨⟨quoted, offset⟩, after, rfl, rfl, -⟩ := List.map_eq_cons_iff.1 hbehind
    have hentry : (quoted, offset) ∈ tokenOffsets 0 ls := by simp [hoffsets]
    obtain ⟨x, z, hwhole, rfl, hlast⟩ := @exists_of_mem_tokenOffsets ls [] _ hcut.ne_nil hentry
    have htext : text = String.ofList x ++ quoted ++ String.ofList z := by
      have hchars : text.toList = x ++ (quoted.toList ++ z) := by
        rw [hcut.eq_append, List.append_nil, ← List.append_assoc]
        exact hwhole
      rw [eq_ofList_append hchars, String.ofList_toList]
    have hplace := hfails.place_eq
    refine ⟨String.ofList x, quoted, String.ofList z, htext, hplace, hfails.quoted, ?_,
      ls, before, after, hcut, hoffsets, htokens, ?_⟩
    · intro hempty
      rw [htext, hempty, hlast hempty, String.append_empty]
      exact String.append_empty.symm
    · rw [hplace] at hfails ⊢
      exact hfails
  · rw [if_neg hpiece] at htokenize
    cases htokenize

theorem exists_of_compile_error (h : compile text = .error (.parse fault place)) :
    ∃ front quoted back, text = front ++ quoted ++ back ∧
      place = .atOffset text front.utf8ByteSize ∧ fault.quoted? = some quoted ∧
      (tokenize text = .error (.parse fault place) ∧ NoTokenAt text front quoted back ∨
        WrongTokenAt text front quoted fault place) := by
  rw [compile] at h
  cases htokenize : tokenize text with
  | error e =>
    rw [htokenize] at h
    cases h
    obtain ⟨front, quoted, back, htext, hplace, hquoted, hno⟩ := exists_of_tokenize_error htokenize
    exact ⟨front, quoted, back, htext, hplace, hquoted, .inl ⟨rfl, hno⟩⟩
  | ok tokens =>
    rw [htokenize] at h
    obtain ⟨front, quoted, back, htext, hplace, hquoted, hwrong⟩ :=
      exists_of_parse_error htokenize h
    exact ⟨front, quoted, back, htext, hplace, hquoted, .inr hwrong⟩

end

/-- Every fault of a text points into it, at the start of the piece that its message quotes: one
that is no token, blank or comment, or else the token where the parser fails. -/
theorem compile_fault_points (text : String) :
    (∀ fault place, compile text = .error (.parse fault place) →
      ∃ front quoted back, text = front ++ quoted ++ back ∧
        front.utf8ByteSize ≤ text.utf8ByteSize ∧
        place = .atOffset text front.utf8ByteSize ∧
        fault.quoted? = some quoted ∧ (∃ lead, fault.message = lead ++ Text.quote quoted) ∧
        (tokenize text = .error (.parse fault place) ∧ NoTokenAt text front quoted back ∨
          WrongTokenAt text front quoted fault place)) ∧
    compile text ≠ .error endOfInput := by
  refine ⟨fun fault place h => ?_, fun h => ?_⟩
  · obtain ⟨front, quoted, back, htext, hplace, hquoted, hcases⟩ := exists_of_compile_error h
    refine ⟨front, quoted, back, htext, ?_, hplace, hquoted,
      SyntaxFault.exists_message hquoted, hcases⟩
    rw [htext, String.utf8ByteSize_append, String.utf8ByteSize_append]
    omega
  · obtain ⟨_, _, _, _, _, hquoted, _⟩ := exists_of_compile_error h
    cases hquoted

end Source

/-- A text that ends too early, in a line that begins with a blank of two bytes. -/
def Sample.unfinished : String := "//ü\n\u00a0schema"

namespace Source

set_option maxRecDepth 20000 in
theorem compile_fault_points_unfinished :
    compile Sample.unfinished = .error (.parse (.expected .identifier "") ⟨2, 9⟩) ∧
    ∃ front quoted back, Sample.unfinished = front ++ quoted ++ back ∧
      front.utf8ByteSize ≤ Sample.unfinished.utf8ByteSize ∧
      ⟨2, 9⟩ = Position.atOffset Sample.unfinished front.utf8ByteSize ∧
      (SyntaxFault.expected .identifier "").quoted? = some quoted ∧
      (∃ lead, (SyntaxFault.expected .identifier "").message = lead ++ Text.quote quoted) ∧
      (tokenize Sample.unfinished = .error (.parse (.expected .identifier "") ⟨2, 9⟩) ∧
          NoTokenAt Sample.unfinished front quoted back ∨
        WrongTokenAt Sample.unfinished front quoted (.expected .identifier "") ⟨2, 9⟩) := by
  have hfault : compile Sample.unfinished =
      .error (.parse (.expected .identifier "") ⟨2, 9⟩) := by
    cbv
  exact ⟨hfault, (compile_fault_points Sample.unfinished).1 _ _ hfault⟩

end Source
end WireCodec
