import WireCodec.Proofs.Bodies

/-!
# Sections written apart

A section may be written on a page of its own and appended, or written in place.  Both give the
same page, unless the section begins with an empty line where the page has none yet.

* `Page.beneath p q`          the page `p` with what was written on `q` under it;
* `Page.blankFirst steps`     a step asks for an empty line before any line is written;
* `Page.Continues p step q`   the step does the same on `q` as on `q` beneath `p`;
* `Page.writeAll_eq_append`   writing in place is appending a section that was written apart.
-/

namespace WireCodec.Page

/-! ## Pages beneath pages -/

/-- A line of another page at the depth of this one. -/
def shifted (p : Page) (text : String) : String :=
  if text = "" then "" else margin p.unit p.depth ++ text

/-- The page `p` with the lines of `q` under it, at the depth that `q` has seen from `p`. -/
def beneath (p q : Page) : Page :=
  ⟨p.unit, p.lines ++ q.lines.map p.shifted, p.depth + q.depth⟩

theorem margin_add (unit : String) (a b : Nat) :
    margin unit (a + b) = margin unit a ++ margin unit b := by
  apply String.toList_inj.1
  unfold margin
  rw [← List.replicate_append_replicate]
  simp only [String.toList_append, String.toList_join, List.flatMap_append]

theorem shifted_eq_empty_iff {p : Page} {text : String} : p.shifted text = "" ↔ text = "" := by
  unfold shifted
  split
  · next h => simp [h]
  · next h => simp [h]

theorem line_eq (p : Page) (text : String) :
    p.line text = ⟨p.unit, p.lines.push (p.shifted text), p.depth⟩ :=
  rfl

theorem shifted_shifted {p q : Page} (h : q.unit = p.unit) (text : String) :
    p.shifted (q.shifted text) = (p.beneath q).shifted text := by
  by_cases htext : text = ""
  · rw [shifted, if_pos (shifted_eq_empty_iff.2 htext), shifted, if_pos htext]
  · rw [shifted, if_neg (mt shifted_eq_empty_iff.1 htext), shifted, if_neg htext, shifted,
      if_neg htext]
    show _ = margin p.unit (p.depth + q.depth) ++ text
    rw [margin_add, h, String.append_assoc]

theorem beneath_new (p : Page) (unit : String) : p.beneath (Page.new unit) = p := by
  obtain ⟨u, lines, depth⟩ := p
  simp [beneath, Page.new]

theorem line_beneath {p q : Page} (h : q.unit = p.unit) (text : String) :
    (p.beneath q).line text = p.beneath (q.line text) := by
  rw [line_eq, line_eq, ← shifted_shifted h]
  simp [beneath]

theorem foldl_line_beneath {p : Page} (texts : List String) (q : Page) (h : q.unit = p.unit) :
    texts.foldl line (p.beneath q) = p.beneath (texts.foldl line q) := by
  induction texts generalizing q with
  | nil => rfl
  | cons text texts ih =>
    rw [List.foldl_cons, List.foldl_cons, line_beneath h]
    exact ih (q.line text) h

theorem append_beneath {p q : Page} (h : q.unit = p.unit) (other : Page) :
    (p.beneath q).append other = p.beneath (q.append other) := by
  unfold append
  rw [← Array.foldl_toList, ← Array.foldl_toList]
  exact foldl_line_beneath _ q h

theorem append_eq (p q : Page) :
    p.append q = ⟨p.unit, p.lines ++ q.lines.map p.shifted, p.depth⟩ := by
  suffices h : ∀ texts : List String, texts.foldl line p =
      ⟨p.unit, p.lines ++ (texts.map p.shifted).toArray, p.depth⟩ by
    unfold append
    rw [← Array.foldl_toList, h, ← Array.toList_map, Array.toArray_toList]
  intro texts
  induction texts generalizing p with
  | nil => simp
  | cons text texts ih =>
    rw [List.foldl_cons, ih, line_eq]
    show Page.mk _ (p.lines.push (p.shifted text) ++ (texts.map p.shifted).toArray) _ = _
    simp

/-- Once the other page is closed, nothing but its lines is left of it. -/
theorem append_eq_beneath {p q : Page} (h : q.depth = 0) : p.append q = p.beneath q := by
  rw [append_eq, beneath, h, Nat.add_zero]

/-! ## Empty lines -/

theorem endsBlank_beneath {p q : Page} (h : p.endsBlank = true ∨ q.lines ≠ #[]) :
    (p.beneath q).endsBlank = q.endsBlank := by
  unfold endsBlank beneath
  simp only [Array.back?_append, Array.back?_map]
  cases hlast : q.lines.back? with
  | none =>
    have hempty : q.lines = #[] := Array.back?_eq_none_iff.1 hlast
    exact h.resolve_right fun hne => hne hempty
  | some last =>
    show decide (p.shifted last = "") = decide (last = "")
    rw [decide_eq_decide]
    exact shifted_eq_empty_iff

theorem blank_beneath {p q : Page} (h : p.endsBlank = true ∨ q.lines ≠ #[]) :
    (p.beneath q).blank = p.beneath q.blank := by
  unfold blank
  rw [endsBlank_beneath h]
  split
  · rfl
  · simp [beneath, shifted]

/-! ## Steps that begin with an empty line -/

section
variable {ε : Type}

mutual

/-- The step asks for an empty line on its page before it writes a line there. -/
def Step.blankFirst : Step ε → Bool
  | .blank => true
  | .indented body => Page.blankFirst body
  | _ => false

/-- One of the steps asks for an empty line, and none in front of it writes a line. -/
def blankFirst : List (Step ε) → Bool
  | [] => false
  | step :: steps => step.blankFirst || (step.statements.isEmpty && blankFirst steps)

end

end

/-! ## Steps in place -/

/-- The program runs through on `q`, and on `q` beneath `p` it does the same. -/
def Continues (p : Page) (program : EStateM Empty Page Unit) (q : Page) : Prop :=
  ∃ q', program q = .ok () q' ∧ program (p.beneath q) = .ok () (p.beneath q') ∧
    q'.unit = q.unit ∧ q'.depth = q.depth

theorem Continues.deeper {p q : Page} {body : Code}
    (h : p.Continues (writeAll body) { q with depth := q.depth + 1 }) :
    ∃ q', writeAll body { q with depth := q.depth + 1 } = .ok () q' ∧
      writeAll body { p.beneath q with depth := (p.beneath q).depth + 1 } = .ok () (p.beneath q') ∧
      q'.unit = q.unit ∧ q'.depth - 1 = q.depth ∧
      { p.beneath q' with depth := (p.beneath q').depth - 1 } =
        p.beneath { q' with depth := q'.depth - 1 } := by
  obtain ⟨q', hrun, hplaced, hunit, hdepth⟩ := h
  have hback : q'.depth - 1 = q.depth := by
    rw [hdepth]
    rfl
  refine ⟨q', hrun, hplaced, hunit, hback, ?_⟩
  have hsum : p.depth + q'.depth - 1 = p.depth + (q'.depth - 1) := by
    rw [hdepth]
    rfl
  show Page.mk _ _ (p.depth + q'.depth - 1) = _
  rw [hsum]
  rfl

mutual

theorem continues_write (step : CodeStep) (p q : Page) (hunit : q.unit = p.unit)
    (h : (p.endsBlank = true ∨ q.lines ≠ #[]) ∨ step.blankFirst = false) :
    p.Continues step.write q := by
  cases step with
  | line text =>
    refine ⟨q.line text, rfl, ?_, rfl, rfl⟩
    rw [← line_beneath hunit]
    rfl
  | blank =>
    have hblank := h.resolve_right Bool.noConfusion
    have hkept : q.blank.unit = q.unit ∧ q.blank.depth = q.depth := by
      unfold blank
      split <;> exact ⟨rfl, rfl⟩
    refine ⟨q.blank, rfl, ?_, hkept⟩
    rw [← blank_beneath hblank]
    rfl
  | indented body =>
    obtain ⟨q', hrun, hplaced, hunit', hdepth, hback⟩ :=
      (continues_writeAll body p { q with depth := q.depth + 1 } hunit h).deeper
    refine ⟨{ q' with depth := q'.depth - 1 }, ?_, ?_, hunit', hdepth⟩
    · rw [Step.write]
      simp only [hrun]
    · rw [Step.write]
      simp only [hplaced, hback]
  | braces opening closing body =>
    have hopened : (q.line opening).lines ≠ #[] := Array.push_ne_empty
    obtain ⟨q', hrun, hplaced, hunit', hdepth, hback⟩ :=
      (continues_writeAll body p { q.line opening with depth := (q.line opening).depth + 1 } hunit
        (.inl (.inr hopened))).deeper
    have hclosed : ({ q' with depth := q'.depth - 1 } : Page).unit = p.unit := hunit'.trans hunit
    refine ⟨Page.line { q' with depth := q'.depth - 1 } closing, ?_, ?_, hunit', hdepth⟩
    · rw [Step.write]
      simp only [hrun]
    · rw [Step.write]
      simp only [line_beneath hunit, hplaced, hback, line_beneath hclosed]
  | append unit body =>
    -- The section is written on a page of its own, so all that matters is where its lines go.
    obtain ⟨section', hrun, -⟩ := writeAll_size_le body (Page.new unit)
    refine ⟨q.append section', ?_, ?_, ?_, ?_⟩
    · rw [Step.write]
      simp only [hrun]
    · rw [Step.write]
      simp only [hrun, append_beneath hunit]
    · rw [append_eq]
    · rw [append_eq]
  | fail e => exact e.elim

theorem continues_writeAll (steps : Code) (p q : Page) (hunit : q.unit = p.unit)
    (h : (p.endsBlank = true ∨ q.lines ≠ #[]) ∨ blankFirst steps = false) :
    p.Continues (writeAll steps) q := by
  cases steps with
  | nil => exact ⟨q, rfl, rfl, rfl, rfl⟩
  | cons step steps =>
    rw [blankFirst, Bool.or_eq_false_iff, Bool.and_eq_false_iff] at h
    obtain ⟨q₁, hrun, hplaced, hunit₁, hdepth₁⟩ :=
      continues_write step p q hunit (h.imp_right And.left)
    -- Either the step wrote a line, and later empty lines look at that one, or it wrote none and
    -- asked for none, and the condition is still that of the steps behind it.
    have hnext : (p.endsBlank = true ∨ q₁.lines ≠ #[]) ∨ blankFirst steps = false := by
      obtain ⟨q₁', hrun', hsize⟩ := write_size_le step q
      cases hrun.symm.trans hrun'
      rcases h with (hblank | hlines) | ⟨-, hstatements | hsteps⟩
      · exact .inl (.inl hblank)
      · have hpos : 0 < q.lines.size := Array.size_pos_iff.2 hlines
        exact .inl (.inr (Array.size_pos_iff.1 (by omega)))
      · have hpos : 0 < step.statements.length :=
          List.length_pos_iff.2 (List.isEmpty_eq_false_iff.1 hstatements)
        exact .inl (.inr (Array.size_pos_iff.1 (by omega)))
      · exact .inr hsteps
    obtain ⟨q₂, hrun₂, hplaced₂, hunit₂, hdepth₂⟩ :=
      continues_writeAll steps p q₁ (hunit₁.trans hunit) hnext
    refine ⟨q₂, ?_, ?_, hunit₂.trans hunit₁, hdepth₂.trans hdepth₁⟩
    · rw [writeAll, bind_of_ok hrun, hrun₂]
    · rw [writeAll, bind_of_ok hplaced, hplaced₂]

end

/-- Writing a section in place is appending what it gives on an empty page, if it writes a line
before it asks for an empty one, or if the page is empty or ends with an empty line. -/
theorem writeAll_eq_append (steps : Code) (out : Page)
    (h : blankFirst steps = false ∨ out.endsBlank = true) :
    writeAll steps out = .ok () (out.append (ofSteps out.unit steps)) := by
  have hcontinues := continues_writeAll steps out (Page.new out.unit) rfl (h.symm.imp_left .inl)
  rw [Continues, beneath_new] at hcontinues
  obtain ⟨q, hrun, hplaced, -, hdepth⟩ := hcontinues
  have hpage : ofSteps out.unit steps = q := by
    unfold ofSteps
    rw [hrun]
  rw [hpage, hplaced, append_eq_beneath hdepth]

/-- A method behind the first line of a class, with an empty line after the appended part. -/
theorem writeAll_eq_append_method :
    let out : Page := ⟨"  ", #["class A"], 1⟩
    let steps : Code := [.append " " [.blank, .line "X = 1"], .blank,
      .braces "def a" "end" [.line "", .indented [.line "1"], .blank]]
    blankFirst steps = false ∧ out.endsBlank = false ∧
      (writeAll steps out = .ok () (out.append (ofSteps "  " steps))) ∧
      (out.append (ofSteps "  " steps)).lines =
        #["class A", "  X = 1", "", "  def a", "", "      1", "", "  end"] := by
  intro out steps
  exact ⟨rfl, by decide, writeAll_eq_append steps out (.inl rfl), by decide⟩

end WireCodec.Page
