import WireCodec.Proofs.Generating

/-!
# Calls in C routines

A statement of a C routine that packs or unpacks something names the routine it calls.  Read off the
code, the called routines are those of the types that the definition uses, no more and no fewer.

* `Page.statements`               the lines of code, without indentation;
* `Target.C.callee? statement`    the type whose routine a statement calls;
* `Target.C.callees code`         all calls in code;
* `Target.C.mem_callees_pack`     a pack routine calls the routines of the types in use;
* `Target.C.mem_callees_unpack`   and so does an unpack routine.
-/

namespace WireCodec

/-! ## Statements -/

section
variable {ε : Type}

mutual

/-- The lines that a step writes, without indentation. -/
def Page.Step.statements : Page.Step ε → List String
  | .line text => [text]
  | .blank => []
  | .indented body => Page.statements body
  | .braces opening closing body => opening :: (Page.statements body ++ [closing])
  | .append _ body => Page.statements body
  | .fail _ => []

def Page.statements : List (Page.Step ε) → List String
  | [] => []
  | step :: steps => step.statements ++ Page.statements steps

end

end

namespace Page

section
variable {ε : Type}

theorem Step.statements_line (text : String) : (Step.line text : Step ε).statements = [text] := rfl

theorem Step.statements_indented (body : List (Step ε)) :
    (Step.indented body).statements = Page.statements body := rfl

theorem Step.statements_braces (opening closing : String) (body : List (Step ε)) :
    (Step.braces opening closing body).statements =
      opening :: (Page.statements body ++ [closing]) := rfl

theorem statements_cons (step : Step ε) (steps : List (Step ε)) :
    statements (step :: steps) = step.statements ++ statements steps := rfl

theorem statements_append (front back : List (Step ε)) :
    statements (front ++ back) = statements front ++ statements back := by
  induction front with
  | nil => rfl
  | cons step front ih =>
    rw [List.cons_append, statements_cons, statements_cons, ih, List.append_assoc]

end

theorem statements_lines (texts : List String) : statements (Code.lines texts) = texts := by
  induction texts with
  | nil => rfl
  | cons text texts ih => exact congrArg (text :: ·) ih

end Page

/-- What follows one of the texts in `heads`, if the characters begin with it. -/
def behind? (heads : List String) (cs : List Char) : Option (List Char) :=
  heads.findSome? fun head => head.toList.isPrefixOf? cs

theorem toString_string (s : String) : toString s = s := rfl

namespace Target.C

/-- The type whose routine a statement calls. -/
def callee? (statement : String) : Option String := do
  let call ← behind? ["WIRE_TRY(", "return "] statement.toList
  let rest ← behind? ["pack_", "unpack_"] call
  return String.ofList (rest.takeWhile (· ≠ '('))

theorem takeWhile_name {n cs : List Char} (h : '(' ∉ n) :
    (n ++ '(' :: cs).takeWhile (· ≠ '(') = n := by
  rw [List.takeWhile_append_of_pos, List.takeWhile_cons_of_neg (by simp), List.append_nil]
  intro c hc
  exact decide_eq_true fun heq => h (heq ▸ hc)

theorem callee?_eq_some {statement n : String} (head verb : String) (hn : '(' ∉ n.toList)
    (h : head.toList ++ verb.toList ++ n.toList ++ ['('] <+: statement.toList)
    (hhead : head ∈ ["WIRE_TRY(", "return "]) (hverb : verb ∈ ["pack_", "unpack_"]) :
    callee? statement = some n := by
  obtain ⟨arguments, harguments⟩ := h
  have hcall : behind? ["WIRE_TRY(", "return "] statement.toList =
      some (verb.toList ++ (n.toList ++ '(' :: arguments)) := by
    rw [← harguments]
    simp only [List.mem_cons, List.not_mem_nil, or_false] at hhead
    rcases hhead with rfl | rfl <;> simp [behind?, List.isPrefixOf?]
  have hname : behind? ["pack_", "unpack_"] (verb.toList ++ (n.toList ++ '(' :: arguments)) =
      some (n.toList ++ '(' :: arguments) := by
    simp only [List.mem_cons, List.not_mem_nil, or_false] at hverb
    rcases hverb with rfl | rfl <;> simp [behind?, List.isPrefixOf?]
  simp only [callee?, hcall, Option.bind_eq_bind, Option.bind_some, hname, takeWhile_name hn,
    String.ofList_toList, pure]

/-- A statement that begins otherwise than calls do. -/
theorem callee?_eq_none {statement : String} {c : Char} (h : statement.toList.head? = some c)
    (hw : c ≠ 'W') (hr : c ≠ 'r') : callee? statement = none := by
  obtain ⟨cs, hcs⟩ := List.head?_eq_some_iff.1 h
  simp [callee?, behind?, hcs, List.isPrefixOf?, hw.symm, hr.symm]

def callees (code : Code) : List String :=
  (Page.statements code).filterMap callee?

theorem callees_nil : callees [] = [] := rfl

theorem callees_line (text : String) (code : Code) :
    callees (.line text :: code) = (callee? text).toList ++ callees code := by
  cases h : callee? text <;> simp [callees, Page.statements_cons, Page.Step.statements_line, h]

theorem callees_append (front back : Code) :
    callees (front ++ back) = callees front ++ callees back := by
  rw [callees, Page.statements_append, List.filterMap_append]
  rfl

theorem callees_lines (texts : List String) :
    callees (Code.lines texts) = texts.filterMap callee? := by
  rw [callees, Page.statements_lines]

theorem callees_flatMap {α : Type} (xs : List α) (f : α → Code) :
    callees (xs.flatMap f) = xs.flatMap fun x => callees (f x) := by
  induction xs with
  | nil => rfl
  | cons x xs ih => rw [List.flatMap_cons, callees_append, ih, List.flatMap_cons]

theorem callees_indented (body code : Code) :
    callees (.indented body :: code) = callees body ++ callees code := by
  simp [callees, Page.statements_cons, Page.Step.statements_indented]

theorem callees_block {head : String} {c : Char} (body code : Code)
    (h : head.toList.head? = some c) (hw : c ≠ 'W') (hr : c ≠ 'r') :
    callees (Code.block head body :: code) = callees body ++ callees code := by
  have hhead : callee? (head ++ " \x7b") = none := by
    refine callee?_eq_none (c := c) ?_ hw hr
    rw [String.toList_append, List.head?_append, h]
    rfl
  have hclosing : callee? "\x7d" = none := rfl
  simp [callees, Page.statements_cons, Page.Step.statements_braces, Code.block, Code.blockUntil,
    hhead, hclosing]

theorem callees_returnIf (condition : String) {status : String} (code : Code)
    (h : callee? s!"return {status};" = none) :
    callees (returnIf condition status :: code) = callees code := by
  rw [returnIf, callees_block (c := 'i') _ _ (by simp [toString_string]) (by decide) (by decide),
    callees_line, h, callees_nil]
  rfl

theorem callees_forEach (bound statement : String) (code : Code) :
    callees (forEach bound statement :: code) = (callee? statement).toList ++ callees code := by
  rw [forEach, callees_block (c := 'f') _ _ (by simp [toString_string]) (by decide) (by decide),
    callees_line, callees_nil, List.append_nil]

/-! ## Routines -/

section
variable {refer : Referrer} {d : TypeDef} {head : String} {code body : Code} {n : String}

theorem head_packSignature (h : packSignature refer d = .ok head) :
    head.toList.head? = some 'e' := by
  obtain ⟨text, -, hend⟩ := except_bind_eq_ok_iff.1 h
  cases hend
  simp [toString_string]

theorem head_unpackSignature (h : unpackSignature refer d = .ok head) :
    head.toList.head? = some 'e' := by
  obtain ⟨text, -, hend⟩ := except_bind_eq_ok_iff.1 h
  cases hend
  simp [toString_string]

theorem callees_packRoutine
    (h : (packSignature refer d >>= fun head => pure [Code.block head body]) = .ok code) :
    callees code = callees body := by
  obtain ⟨head, hhead, hend⟩ := except_bind_eq_ok_iff.1 h
  cases hend
  rw [callees_block body [] (head_packSignature hhead) (by decide) (by decide), callees_nil,
    List.append_nil]

theorem callees_unpackRoutine
    (h : (unpackSignature refer d >>= fun head => pure [Code.block head body]) = .ok code) :
    callees code = callees body := by
  obtain ⟨head, hhead, hend⟩ := except_bind_eq_ok_iff.1 h
  cases hend
  rw [callees_block body [] (head_unpackSignature hhead) (by decide) (by decide), callees_nil,
    List.append_nil]

theorem callees_floatCheck (b : Builtin) (value : String) : callees (floatCheck b value) = [] := by
  cases b with
  | float32 => exact callees_returnIf _ [] rfl
  | float64 => exact callees_returnIf _ [] rfl
  | _ => rfl

theorem callees_loadBits (b : Builtin) : callees (loadBits b) = [] := by
  cases b <;> rfl

theorem callees_storeBits (b : Builtin) : callees (storeBits b) = [] := by
  cases b with
  | float32 =>
    rw [storeBits, callees_append, callees_append, callees_floatCheck]
    rfl
  | float64 =>
    rw [storeBits, callees_append, callees_append, callees_floatCheck]
    rfl
  | _ => rfl

theorem callees_pack_builtin {b : Builtin} (h : builtinBuilder.pack refer (.builtin b) = .ok code) :
    callees code = [] := by
  obtain ⟨_, hb, h⟩ := except_bind_eq_ok_iff.1 h
  obtain ⟨head, -, hend⟩ := except_bind_eq_ok_iff.1 h
  cases hb
  cases hend
  rw [callees_block (c := 's') _ _ (by simp [toString_string]) (by decide) (by decide)]
  simp only [callees_append, callees_floatCheck, callees_loadBits, callees_nil, List.append_nil,
    List.nil_append]
  rw [callees_returnIf _ _ rfl, callees_forEach]
  rfl

theorem callees_unpack_builtin {b : Builtin}
    (h : builtinBuilder.unpack refer (.builtin b) = .ok code) : callees code = [] := by
  obtain ⟨_, hb, h⟩ := except_bind_eq_ok_iff.1 h
  obtain ⟨head, -, hend⟩ := except_bind_eq_ok_iff.1 h
  cases hb
  cases hend
  rw [callees_block (c := 's') _ _ (by simp [toString_string]) (by decide) (by decide)]
  simp only [callees_append, callees_storeBits, callees_nil, List.append_nil]
  rw [callees_returnIf _ _ rfl, callees_line, callees_forEach]
  rfl

theorem paren_not_mem_name (b : Builtin) : '(' ∉ b.name.toList := by
  cases b <;> decide

theorem callees_pack_scalar {t : Scalar} (h : scalarBuilder.pack refer (.scalar t) = .ok code) :
    callees code = [t.builtin.name] := by
  obtain ⟨_, ht, h⟩ := except_bind_eq_ok_iff.1 h
  cases ht
  rw [callees_packRoutine h, callees_lines,
    List.filterMap_cons_some (callee?_eq_some "return " "pack_" (paren_not_mem_name t.builtin)
      (by simp [toString_string]) (by decide) (by decide))]
  rfl

theorem callees_unpack_scalar {t : Scalar} (h : scalarBuilder.unpack refer (.scalar t) = .ok code) :
    callees code = [t.builtin.name] := by
  obtain ⟨_, ht, h⟩ := except_bind_eq_ok_iff.1 h
  cases ht
  rw [callees_unpackRoutine h, callees_lines,
    List.filterMap_cons_some (callee?_eq_some "return " "unpack_" (paren_not_mem_name t.builtin)
      (by simp [toString_string]) (by decide) (by decide))]
  rfl

theorem callee?_primitive (b : Builtin) (rest : String) : callee? (primitive b ++ rest) = none := by
  have hhead : ∃ c, (primitive b).toList.head? = some c ∧ c ≠ 'W' ∧ c ≠ 'r' := by
    cases b <;> exact ⟨_, rfl, by decide, by decide⟩
  obtain ⟨c, hc, hw, hr⟩ := hhead
  exact callee?_eq_none (by rw [String.toList_append, List.head?_append, hc]; rfl) hw hr

theorem callees_pack_enumeration {t : Enumeration}
    (htag : refer t.tagType.name = .ok (primitive t.tagType))
    (h : enumerationBuilder.pack refer (.enumeration t) = .ok code) :
    callees code = [t.tagType.name] := by
  obtain ⟨_, ht, h⟩ := except_bind_eq_ok_iff.1 h
  cases ht
  obtain ⟨tag, hrefer, h⟩ := except_bind_eq_ok_iff.1 h
  rw [htag] at hrefer
  cases hrefer
  have hordinal : callee? s!"{primitive t.tagType} ordinal = ({primitive t.tagType})*src;" =
      none := by
    simp only [toString_string, String.append_assoc, callee?_primitive]
  rw [callees_packRoutine h, callees_returnIf _ _ rfl, callees_line, callees_line, callees_nil,
    hordinal, callee?_eq_some "return " "pack_" (paren_not_mem_name t.tagType)
      (by simp [toString_string]) (by decide) (by decide)]
  rfl

theorem callees_unpack_enumeration {t : Enumeration}
    (htag : refer t.tagType.name = .ok (primitive t.tagType))
    (h : enumerationBuilder.unpack refer (.enumeration t) = .ok code) :
    callees code = [t.tagType.name] := by
  obtain ⟨_, ht, h⟩ := except_bind_eq_ok_iff.1 h
  cases ht
  obtain ⟨tag, hrefer, h⟩ := except_bind_eq_ok_iff.1 h
  rw [htag] at hrefer
  cases hrefer
  have hordinal : callee? s!"{primitive t.tagType} ordinal;" = none := by
    simp only [toString_string, callee?_primitive]
  have hread : callee? (attempt s!"unpack_{t.tagType.name}(rd, &ordinal)") =
      some t.tagType.name :=
    callee?_eq_some "WIRE_TRY(" "unpack_" (paren_not_mem_name t.tagType)
      (by simp [attempt, toString_string]) (by decide) (by decide)
  have hstore : callee? s!"*dst = (enum {t.name})ordinal;" = none :=
    callee?_eq_none (c := '*') (by simp [toString_string]) (by decide) (by decide)
  rw [callees_unpackRoutine h, callees_line, callees_line, callees_returnIf _ _ rfl, callees_line,
    hordinal, hread, hstore]
  rfl

theorem filterMap_callee?_map {fields : List Field} {call : Field → String}
    (h : ∀ f ∈ fields, callee? (call f) = some f.typeName) :
    (fields.map call).filterMap callee? = fields.map Field.typeName := by
  rw [List.filterMap_map, ← List.filterMap_eq_map]
  exact List.filterMap_congr h

theorem callees_pack_composite {t : Composite}
    (hnames : ∀ f ∈ t.fields, '(' ∉ f.typeName.toList)
    (h : compositeBuilder.pack refer (.composite t) = .ok code) :
    callees code = t.fields.map Field.typeName := by
  obtain ⟨_, ht, h⟩ := except_bind_eq_ok_iff.1 h
  cases ht
  have hunused : callees (if t.fields = [] then Code.lines ["(void)buf;", "(void)src;"] else []) =
      [] := by
    split <;> rfl
  have hcalls : ∀ f ∈ t.fields,
      callee? (attempt s!"pack_{f.typeName}(buf, &src->{member f.name})") = some f.typeName :=
    fun f hf => callee?_eq_some "WIRE_TRY(" "pack_" (hnames f hf)
      (by simp [attempt, toString_string]) (by decide) (by decide)
  rw [callees_packRoutine h, callees_append, callees_append, hunused, callees_lines,
    filterMap_callee?_map hcalls]
  exact List.append_nil _

theorem callee?_local (typeName : String) : callee? s!"struct {typeName} tmp;" = none :=
  callee?_eq_none (c := 's') (by simp [toString_string]) (by decide) (by decide)

theorem callees_unpack_composite {t : Composite}
    (hnames : ∀ f ∈ t.fields, '(' ∉ f.typeName.toList)
    (h : compositeBuilder.unpack refer (.composite t) = .ok code) :
    callees code = t.fields.map Field.typeName := by
  obtain ⟨_, ht, h⟩ := except_bind_eq_ok_iff.1 h
  cases ht
  have hcalls : ∀ f ∈ t.fields,
      callee? (attempt s!"unpack_{f.typeName}(rd, &tmp.{member f.name})") = some f.typeName :=
    fun f hf => callee?_eq_some "WIRE_TRY(" "unpack_" (hnames f hf)
      (by simp [attempt, toString_string]) (by decide) (by decide)
  rw [callees_unpackRoutine h, callees_lines]
  by_cases hfields : t.fields = []
  · rw [if_pos hfields, hfields]
    rfl
  · rw [if_neg hfields, List.filterMap_append, List.filterMap_append,
      filterMap_callee?_map hcalls, List.filterMap_cons_none (callee?_local t.name)]
    exact List.append_nil _

theorem callees_pack_fixedArray {t : FixedArray} (hname : '(' ∉ t.element.toList)
    (h : fixedArrayBuilder.pack refer (.fixedArray t) = .ok code) : callees code = [t.element] := by
  obtain ⟨_, ht, h⟩ := except_bind_eq_ok_iff.1 h
  cases ht
  rw [callees_packRoutine h, callees_forEach, callee?_eq_some "WIRE_TRY(" "pack_" hname
    (by simp [attempt, toString_string]) (by decide) (by decide)]
  rfl

theorem callees_unpack_fixedArray {t : FixedArray} (hname : '(' ∉ t.element.toList)
    (h : fixedArrayBuilder.unpack refer (.fixedArray t) = .ok code) :
    callees code = [t.element] := by
  obtain ⟨_, ht, h⟩ := except_bind_eq_ok_iff.1 h
  cases ht
  rw [callees_unpackRoutine h, callees_line, callee?_local, callees_forEach,
    callee?_eq_some "WIRE_TRY(" "unpack_" hname (by simp [attempt, toString_string]) (by decide)
      (by decide)]
  rfl

theorem callees_pack_variableArray {t : VariableArray} (hname : '(' ∉ t.element.toList)
    (h : variableArrayBuilder.pack refer (.variableArray t) = .ok code) :
    callees code = [t.sizeType.name, t.element] := by
  obtain ⟨_, ht, h⟩ := except_bind_eq_ok_iff.1 h
  cases ht
  have hlength : callee? (attempt s!"pack_{t.sizeType.name}(buf, &src->length)") =
      some t.sizeType.name :=
    callee?_eq_some "WIRE_TRY(" "pack_" (paren_not_mem_name t.sizeType)
      (by simp [attempt, toString_string]) (by decide) (by decide)
  rw [callees_packRoutine h, callees_returnIf _ _ rfl, callees_line, hlength, callees_forEach,
    callee?_eq_some "WIRE_TRY(" "pack_" hname (by simp [attempt, toString_string]) (by decide)
      (by decide)]
  rfl

theorem callees_unpack_variableArray {t : VariableArray} (hname : '(' ∉ t.element.toList)
    (h : variableArrayBuilder.unpack refer (.variableArray t) = .ok code) :
    callees code = [t.sizeType.name, t.element] := by
  obtain ⟨_, ht, h⟩ := except_bind_eq_ok_iff.1 h
  cases ht
  have hlength : callee? (attempt s!"unpack_{t.sizeType.name}(rd, &tmp.length)") =
      some t.sizeType.name :=
    callee?_eq_some "WIRE_TRY(" "unpack_" (paren_not_mem_name t.sizeType)
      (by simp [attempt, toString_string]) (by decide) (by decide)
  rw [callees_unpackRoutine h, callees_line, callee?_local, callees_line, hlength,
    callees_returnIf _ _ rfl, callees_forEach,
    callee?_eq_some "WIRE_TRY(" "unpack_" hname (by simp [attempt, toString_string]) (by decide)
      (by decide)]
  rfl

theorem callees_cases (t : Group) (statements : Field → List String) :
    callees (cases t statements) =
      t.variants.flatMap fun v => (statements v).filterMap callee? := by
  have hcase : ∀ v : Field, callees [.line s!"case {constant (tagEnum t) v.name}:",
      .indented (Code.lines (statements v))] = (statements v).filterMap callee? := by
    intro v
    rw [callees_line, callee?_eq_none (c := 'c') (by simp [toString_string]) (by decide)
      (by decide), callees_indented, callees_lines, callees_nil, List.append_nil]
    rfl
  rw [cases, callees_append, callees_flatMap]
  simp only [hcase]
  exact List.append_nil _

/-- Every variant writes the tag first. -/
theorem callees_pack_group {t : Group} (hnames : ∀ v ∈ t.variants, '(' ∉ v.typeName.toList)
    (h : groupBuilder.pack refer (.group t) = .ok code) :
    callees code = t.variants.flatMap fun v => [t.tagType.name, v.typeName] := by
  obtain ⟨_, ht, h⟩ := except_bind_eq_ok_iff.1 h
  cases ht
  have htag : callee? (attempt s!"pack_{t.tagType.name}(buf, &src->tag)") = some t.tagType.name :=
    callee?_eq_some "WIRE_TRY(" "pack_" (paren_not_mem_name t.tagType)
      (by simp [attempt, toString_string]) (by decide) (by decide)
  rw [callees_packRoutine h, callees_block (c := 's') _ _ rfl (by decide) (by decide),
    callees_cases, callees_nil, List.append_nil]
  refine List.flatMap_congr fun v hv => ?_
  rw [List.filterMap_cons_some htag,
    List.filterMap_cons_some (callee?_eq_some "return " "pack_" (hnames v hv)
      (by simp [toString_string]) (by decide) (by decide))]
  rfl

theorem callees_unpack_group {t : Group} (hnames : ∀ v ∈ t.variants, '(' ∉ v.typeName.toList)
    (h : groupBuilder.unpack refer (.group t) = .ok code) :
    callees code = t.tagType.name :: t.variants.map Field.typeName := by
  obtain ⟨_, ht, h⟩ := except_bind_eq_ok_iff.1 h
  cases ht
  have htag : callee? (attempt s!"unpack_{t.tagType.name}(rd, &tmp.tag)") = some t.tagType.name :=
    callee?_eq_some "WIRE_TRY(" "unpack_" (paren_not_mem_name t.tagType)
      (by simp [attempt, toString_string]) (by decide) (by decide)
  have hvariants : (t.variants.flatMap fun v => [attempt
      s!"unpack_{v.typeName}(rd, &tmp.data.{member v.name})", "break;"].filterMap callee?) =
      t.variants.map Field.typeName := by
    rw [List.map_eq_flatMap]
    refine List.flatMap_congr fun v hv => ?_
    rw [List.filterMap_cons_some (callee?_eq_some "WIRE_TRY(" "unpack_" (hnames v hv)
      (by simp [attempt, toString_string]) (by decide) (by decide))]
    rfl
  rw [callees_unpackRoutine h, callees_line, callee?_local, callees_line, htag,
    callees_block (c := 's') _ _ rfl (by decide) (by decide), callees_cases, hvariants]
  exact congrArg (t.tagType.name :: ·) (List.append_nil _)

theorem mem_uses_group {t : Group} :
    n ∈ (TypeDef.group t).uses ↔ n = t.tagType.name ∨ n ∈ t.variants.map Field.typeName := by
  rw [TypeDef.uses, List.mem_append, or_comm]
  exact or_congr_left List.mem_singleton

variable (hnames : ∀ n ∈ d.references, '(' ∉ n.toList)
  (hrefer : ∀ b : Builtin, refer b.name = .ok (primitive b))
include hnames hrefer

/-- A pack routine calls the routines of the types in use, and no others. -/
theorem mem_callees_pack (h : (builder d.kind).pack refer d = .ok code) :
    n ∈ callees code ↔ n ∈ d.uses := by
  cases d with
  | builtin b => rw [callees_pack_builtin h]; rfl
  | scalar t => rw [callees_pack_scalar h]; rfl
  | enumeration t => rw [callees_pack_enumeration (hrefer _) h]; rfl
  | composite t =>
    rw [callees_pack_composite (fun f hf => hnames _ (List.mem_map_of_mem hf)) h, TypeDef.uses]
    exact List.append_nil _ ▸ Iff.rfl
  | fixedArray t => rw [callees_pack_fixedArray (hnames _ List.mem_cons_self) h]; rfl
  | variableArray t =>
    rw [callees_pack_variableArray (hnames _ (List.mem_cons_of_mem _ List.mem_cons_self)) h]
    rfl
  | group t =>
    rw [callees_pack_group (fun v hv => hnames _ (List.mem_map_of_mem hv)) h]
    rw [List.mem_flatMap, mem_uses_group]
    refine ⟨?_, ?_⟩
    · rintro ⟨v, hv, hn⟩
      rcases List.mem_pair.1 hn with rfl | rfl
      · exact .inl rfl
      · exact .inr (List.mem_map_of_mem hv)
    · rintro (rfl | hn)
      · obtain ⟨first, hfirst⟩ := List.exists_mem_of_ne_nil t.variants t.nonempty
        exact ⟨first, hfirst, List.mem_cons_self⟩
      · obtain ⟨v, hv, rfl⟩ := List.mem_map.1 hn
        exact ⟨v, hv, List.mem_cons_of_mem _ List.mem_cons_self⟩

/-- An unpack routine calls the routines of the types in use, and no others. -/
theorem mem_callees_unpack (h : (builder d.kind).unpack refer d = .ok code) :
    n ∈ callees code ↔ n ∈ d.uses := by
  cases d with
  | builtin b => rw [callees_unpack_builtin h]; rfl
  | scalar t => rw [callees_unpack_scalar h]; rfl
  | enumeration t => rw [callees_unpack_enumeration (hrefer _) h]; rfl
  | composite t =>
    rw [callees_unpack_composite (fun f hf => hnames _ (List.mem_map_of_mem hf)) h, TypeDef.uses]
    exact List.append_nil _ ▸ Iff.rfl
  | fixedArray t => rw [callees_unpack_fixedArray (hnames _ List.mem_cons_self) h]; rfl
  | variableArray t =>
    rw [callees_unpack_variableArray (hnames _ (List.mem_cons_of_mem _ List.mem_cons_self)) h]
    rfl
  | group t =>
    rw [callees_unpack_group (fun v hv => hnames _ (List.mem_map_of_mem hv)) h, List.mem_cons,
      mem_uses_group]

end

end Target.C
end WireCodec
