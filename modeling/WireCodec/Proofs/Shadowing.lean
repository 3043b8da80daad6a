import WireCodec.Proofs.Classes
import WireCodec.Proofs.Spellings

/-!
# Constants that classes take over

The classes of a Ruby file stand in one module with its runtime, and code in a module finds the
constants of the module before those of the language.  Only the name of the runtime is kept from
classes, so a class may take the place of a constant that comes with the language.

* `Target.Ruby.mentions code`          the constants that code looks up by themselves;
* `Target.Ruby.assigned code`          the constants that code assigns;
* `Target.Ruby.mentioned_subset`       what lines of a class mention;
* `Target.Ruby.ambient_unshadowed_iff` when no class takes over a constant of the language;
* `Target.Ruby.exists_shadowed`        a class that does.
-/

namespace WireCodec.Target.Ruby

/-! ## Lines of classes -/

section
variable {names : List String} {d : TypeDef} {front back core : List Char} {b : Char}

open Scan

theorem forall_gather_append {s s' : Scan} (h : Reads names s front s')
    (hback : ∀ m ∈ s'.gather back, m ∈ names) : ∀ m ∈ s.gather (front ++ back), m ∈ names := by
  rw [gather_append, h.after]
  exact List.forall_mem_append.2 ⟨h.gather, hback⟩

theorem reads_front (h : isFront d b front = true) (hfamiliar : familiar d ⊆ names) :
    Reads names start front ⟨[], b, [], false⟩ := by
  obtain ⟨hplain, hall⟩ := Bool.and_eq_true_iff.1 h
  have hstate := (Bool.and_eq_true_iff.1 hplain).2
  refine Reads.mono (reads_fixed ?_ hall) hfamiliar
  generalize start.after front = s at hstate
  obtain ⟨within, before, word, colon⟩ := s
  simp only [Bool.and_eq_true, List.isEmpty_iff, beq_iff_eq, Bool.not_eq_true'] at hstate
  obtain ⟨⟨⟨rfl, rfl⟩, rfl⟩, rfl⟩ := hstate
  rfl

/-- The back of a line goes on behind whatever word its first character ends. -/
theorem forall_gather_back (h : isBack d back = true) (hfamiliar : familiar d ⊆ names)
    (hcore : ∀ c, Text.isIdentifierRest c = false → c ≠ ':' →
      Reads names start (core ++ [c]) ⟨enter [] c, c, [], false⟩) :
    ∀ m ∈ start.gather (core ++ (back ++ ['\n'])), m ∈ names := by
  unfold isBack at h
  cases hback : back ++ ['\n'] with
  | nil =>
    rw [hback] at h
    cases h
  | cons c rest =>
    rw [hback] at h
    obtain ⟨hends, hall⟩ := Bool.and_eq_true_iff.1 h
    obtain ⟨hc, hcolon⟩ := Bool.and_eq_true_iff.1 hends
    have hreads := hcore c (by simpa using hc) (of_decide_eq_true hcolon)
    have hrest : ∀ m ∈ gather ⟨enter [] c, c, [], false⟩ rest, m ∈ names :=
      fun m hm => hfamiliar (List.contains_iff_mem.1 (List.all_eq_true.1 hall m hm))
    have htext : core ++ c :: rest = (core ++ [c]) ++ rest := by simp
    rw [htext]
    exact forall_gather_append hreads hrest

theorem constant_eq_nil_of_head {w : List Enclosure} {word : List Char}
    (h : word.head?.any Char.isUpper = false) : constant ⟨w, b, word, false⟩ = [] := by
  unfold constant
  cases word with
  | nil => rfl
  | cons c word =>
    have hc : c.isUpper = false := h
    simp [hc]

/-- A character of a number belongs to a word that is no constant, or is a mark. -/
theorem isNumeral_cases {c : Char} (h : isNumeral c = true) :
    (Text.isIdentifierRest c = true ∧ c.isUpper = false) ∨ c = '-' ∨ c = '.' := by
  simp only [isNumeral, Bool.or_eq_true, beq_iff_eq] at h
  rcases h with ((hdigit | rfl) | rfl) | rfl
  · have hrest : Text.isIdentifierRest c = true := by
      simp [Text.isIdentifierRest, Char.isAlphanum, hdigit]
    refine .inl ⟨hrest, ?_⟩
    exact Text.of_forall_ascii (fun c => c.isDigit = true → c.isUpper = false) (by decide)
      (Text.toNat_lt_of_isIdentifierRest hrest) hdigit
  · exact .inr (.inl rfl)
  · exact .inr (.inr rfl)
  · exact .inl ⟨rfl, rfl⟩

theorem forall_gather_numeral {cs word : List Char} (hcs : cs.all isNumeral = true)
    (hword : word.head?.any Char.isUpper = false) :
    ∀ m ∈ gather ⟨[], b, word, false⟩ (cs ++ ['\n']), m ∈ names := by
  have hnone : ∀ m ∈ constant ⟨[], b, word, false⟩, m ∈ names := by
    rw [constant_eq_nil_of_head hword]
    exact List.forall_mem_nil _
  induction cs generalizing b word with
  | nil => exact (reads_end rfl rfl (by decide) hnone).gather
  | cons c cs ih =>
    obtain ⟨hc, hcs⟩ := Bool.and_eq_true_iff.1 hcs
    have hnext : ∀ {b : Char} {word : List Char}, word.head?.any Char.isUpper = false →
        ∀ m ∈ gather ⟨[], b, word, false⟩ (cs ++ ['\n']), m ∈ names := by
      intro b word hword
      refine ih hcs hword ?_
      rw [constant_eq_nil_of_head hword]
      exact List.forall_mem_nil _
    show ∀ m ∈ gather ⟨[], b, word, false⟩ ([c] ++ (cs ++ ['\n'])), m ∈ names
    rcases isNumeral_cases hc with ⟨hrest, hlower⟩ | rfl | rfl
    · refine forall_gather_append (reads_word rfl (List.forall_mem_singleton.2 hrest)) (hnext ?_)
      cases word with
      | nil => exact hlower
      | cons c word => exact hword
    · exact forall_gather_append (reads_end rfl rfl (by decide) hnone) (hnext rfl)
    · exact forall_gather_append (reads_end rfl rfl (by decide) hnone) (hnext rfl)

theorem isIdentifierRest_of_entry {n : String} (h : Text.isIdentifier n = true) :
    ∀ c ∈ n.toList, Text.isIdentifierRest c = true :=
  fun _ hc => Text.isIdentifierRest_of_mem h hc

theorem reads_symbol {w : List Enclosure} {n : String} {c : Char} (hcode : inCode w = true)
    (hn : Text.isIdentifier n = true) (hc : Text.isIdentifierRest c = false) (hcolon : c ≠ ':') :
    Reads names ⟨w, b, [], false⟩ ((":" ++ n).toList ++ [c]) ⟨enter w c, c, [], false⟩ := by
  have hfirst : Reads names ⟨w, b, [], false⟩ [':'] ⟨w, ':', [], false⟩ := by
    refine ⟨?_, fun m hm => ?_⟩
    · show step ⟨w, b, [], false⟩ ':' = _
      rw [step_of_inCode hcode]
      rfl
    · have hnil : gather ⟨w, b, [], false⟩ [':'] = [] := by
        rw [gather, hcode]
        rfl
      rw [hnil] at hm
      cases hm
  have htext : (":" ++ n).toList ++ [c] = [':'] ++ (n.toList ++ [c]) := by simp
  rw [htext]
  exact hfirst.append (reads_bound_name hcode List.mem_cons_self (isIdentifierRest_of_entry hn) hc
    hcolon)

theorem reads_pair {w : List Enclosure} {n reference : String} {c : Char} (hcode : inCode w = true)
    (hn : Text.isIdentifier n = true) (hreference : Scan.Refers names reference)
    (hc : Text.isIdentifierRest c = false) (hcolon : c ≠ ':') :
    Reads names ⟨w, b, [], false⟩ ((n ++ ": " ++ reference).toList ++ [c])
      ⟨enter w c, c, [], false⟩ := by
  have hne : n.toList ≠ [] := by
    intro hnil
    unfold Text.isIdentifier at hn
    rw [hnil] at hn
    cases hn
  have htext : (n ++ ": " ++ reference).toList ++ [c] =
      (n.toList ++ [':', ' ']) ++ (reference.toList ++ [c]) := by
    simp
  rw [htext]
  exact (reads_key hcode hne (isIdentifierRest_of_entry hn)).append
    (hreference w c hcode hc hcolon)

theorem reads_hash {pairs : List (String × String)} {c : Char}
    (h : ∀ p ∈ pairs, Text.isIdentifier p.1 = true ∧ Scan.Refers names p.2)
    (hc : Text.isIdentifierRest c = false) (hcolon : c ≠ ':') :
    Reads names ⟨[], ' ', [], false⟩ (("\x7b " ++ String.intercalate ", "
      (pairs.map fun p => p.1 ++ ": " ++ p.2) ++ " \x7d").toList ++ [c])
      ⟨enter [] c, c, [], false⟩ := by
  have htext : ("\x7b " ++ String.intercalate ", " (pairs.map fun p => p.1 ++ ": " ++ p.2) ++
      " \x7d").toList ++ [c] = ['\x7b', ' '] ++ (((String.intercalate ", "
        (pairs.map fun p => p.1 ++ ": " ++ p.2)).toList ++ [' ']) ++ (['\x7d'] ++ [c])) := by
    simp
  have hopen : Reads names ⟨[], ' ', [], false⟩ ['\x7b', ' '] ⟨[.braces], ' ', [], false⟩ :=
    reads_fixed rfl rfl
  have hclose : Reads names ⟨[.braces], ' ', [], false⟩ ['\x7d'] ⟨[], '\x7d', [], false⟩ :=
    reads_fixed rfl rfl
  rw [htext]
  refine hopen.append (Reads.append (reads_intercalate rfl rfl (by decide) ?_) (hclose.append ?_))
  · intro piece hpiece before _ mark hmark
    obtain ⟨p, hp, rfl⟩ := List.mem_map.1 hpiece
    have hend : Text.isIdentifierRest mark = false ∧ mark ≠ ':' := by
      rcases List.mem_pair.1 hmark with rfl | rfl
      · exact ⟨rfl, by decide⟩
      · exact ⟨rfl, by decide⟩
    exact reads_pair rfl (h p hp).1 (h p hp).2 hend.1 hend.2
  · exact reads_end rfl hc hcolon (List.forall_mem_nil _)

theorem refers_runtime (inner : String) (hwire : "Wire" ∈ names)
    (hinner : ∀ c ∈ inner.toList, Text.isIdentifierRest c = true) :
    Scan.Refers names ("Wire::" ++ inner) :=
  @refers_nested _ "Wire" inner (List.all_eq_true.1 rfl) (by decide) hinner hwire

theorem refers_builtin (b : Builtin) (hwire : "Wire" ∈ names) :
    Scan.Refers names ("Wire::" ++ builtinClass b) := by
  refine refers_runtime _ hwire ?_
  cases b <;> exact List.all_eq_true.1 rfl

variable {Ref : String → Prop} {line : String}

/-- The lines of a class mention familiar constants, and what references mention. -/
theorem BodyLine.mentioned_subset (h : BodyLine d Ref line) (hfamiliar : familiar d ⊆ names)
    (hentries : ∀ n ∈ d.entries, Text.isIdentifier n = true)
    (hrefers : ∀ text, Ref text → Scan.Refers names text) : ∀ m ∈ mentioned line, m ∈ names := by
  unfold mentioned
  cases h with
  | fixed cs h =>
    rw [String.toList_ofList]
    have hall := (Bool.and_eq_true_iff.1 h).2
    exact fun m hm => hfamiliar (List.contains_iff_mem.1 (List.all_eq_true.1 hall m hm))
  | value front text hfront htext =>
    rw [String.toList_append, String.toList_ofList, List.append_assoc]
    exact forall_gather_append (reads_front hfront hfamiliar) (forall_gather_numeral htext rfl)
  | reference front text back hfront hback htext =>
    rw [String.toList_append, String.toList_append, String.toList_ofList, String.toList_ofList,
      List.append_assoc]
    refine forall_gather_back hback hfamiliar fun c hc hcolon => ?_
    rw [List.append_assoc]
    exact (reads_front hfront hfamiliar).append (hrefers text htext [] c rfl hc hcolon)
  | symbols front b entries back hfront hback hnames =>
    rw [String.toList_append, String.toList_append, String.toList_ofList, String.toList_ofList,
      List.append_assoc]
    refine forall_gather_back hback hfamiliar fun c hc hcolon => ?_
    rw [List.append_assoc]
    refine (reads_front hfront hfamiliar).append (reads_intercalate rfl hc hcolon ?_)
    intro piece hpiece before _ mark hmark
    obtain ⟨n, hn, rfl⟩ := List.mem_map.1 hpiece
    have hend : Text.isIdentifierRest mark = false ∧ mark ≠ ':' := by
      rcases List.mem_pair.1 hmark with rfl | rfl
      · exact ⟨rfl, by decide⟩
      · exact ⟨hc, hcolon⟩
    exact reads_symbol rfl (hentries n (hnames n hn)) hend.1 hend.2
  | hash front pairs back hfront hback hpairs =>
    rw [String.toList_append, String.toList_append, String.toList_ofList, String.toList_ofList,
      List.append_assoc]
    refine forall_gather_back hback hfamiliar fun c hc hcolon => ?_
    rw [List.append_assoc]
    refine (reads_front hfront hfamiliar).append (reads_hash (fun p hp => ?_) hc hcolon)
    exact ⟨hentries p.1 (hpairs p hp).1, hrefers p.2 (hpairs p hp).2⟩
  | packs n hn =>
    have hsign : Reads names start ['@'] ⟨[], '@', [], false⟩ := reads_fixed rfl rfl
    have hname : Reads names ⟨[], '@', [], false⟩ (n.toList ++ ['.']) ⟨[], '.', [], false⟩ :=
      reads_bound_name rfl (by decide) (isIdentifierRest_of_entry (hentries n hn)) rfl (by decide)
    have hline : ("@" ++ n ++ ".pack_into(out)").toList ++ ['\n'] =
        (['@'] ++ (n.toList ++ ['.'])) ++ "pack_into(out)\n".toList := by
      simp
    rw [hline]
    exact forall_gather_append (hsign.append hname) (List.forall_mem_nil _)
  | unpacks n text hn htext =>
    have hfields : Reads names start "fields[:".toList ⟨[], ':', [], false⟩ := reads_fixed rfl rfl
    have hname : Reads names ⟨[], ':', [], false⟩ (n.toList ++ [']']) ⟨[], ']', [], false⟩ :=
      reads_bound_name rfl List.mem_cons_self (isIdentifierRest_of_entry (hentries n hn)) rfl
        (by decide)
    have hequals : Reads names ⟨[], ']', [], false⟩ " = ".toList ⟨[], ' ', [], false⟩ :=
      reads_fixed rfl rfl
    have hclass : Reads names ⟨[], ' ', [], false⟩ (text.toList ++ ['.']) ⟨[], '.', [], false⟩ :=
      hrefers text htext [] '.' rfl rfl (by decide)
    have hline : ("fields[:" ++ n ++ "] = " ++ text ++ ".unpack_from(reader)").toList ++ ['\n'] =
        ("fields[:".toList ++ (n.toList ++ [']']) ++ " = ".toList ++ (text.toList ++ ['.'])) ++
          "unpack_from(reader)\n".toList := by
      simp
    rw [hline]
    exact forall_gather_append (((hfields.append hname).append hequals).append hclass)
      (List.forall_mem_nil _)
  | packsTag b =>
    have hline : ("Wire::" ++ builtinClass b ++ ".new(ordinal).pack_into(out)").toList ++ ['\n'] =
        (("Wire::" ++ builtinClass b).toList ++ ['.']) ++
          "new(ordinal).pack_into(out)\n".toList := by
      simp
    rw [hline]
    refine forall_gather_append (refers_builtin b (hfamiliar ?_) [] '.' rfl rfl (by decide)) ?_
    · exact List.mem_append_right _ List.mem_cons_self
    · exact List.forall_mem_nil _

end

/-! ## Assigned constants -/

def assigned? (line : String) : Option String :=
  let word := line.toList.takeWhile Text.isIdentifierRest
  let rest := line.toList.dropWhile Text.isIdentifierRest
  if word.head?.any Char.isUpper && " = ".toList.isPrefixOf rest then some (String.ofList word)
  else none

def assigned (code : Code) : List String := (Page.statements code).filterMap assigned?

section
variable {n front text : String} {d : TypeDef} {refer : Referrer} {code : Code}

theorem assigned?_append (h : assigned? front = some n) (rest : String) :
    assigned? (front ++ rest) = some n := by
  unfold assigned? at h ⊢
  dsimp only at h ⊢
  split at h
  · next hassigns =>
    obtain ⟨hupper, hequals⟩ := Bool.and_eq_true_iff.1 hassigns
    obtain ⟨more, hmore⟩ := List.isPrefixOf_iff_prefix.1 hequals
    have hdrop : (front ++ rest).toList.dropWhile Text.isIdentifierRest =
        " = ".toList ++ (more ++ rest.toList) := by
      rw [String.toList_append, List.dropWhile_append, ← hmore]
      exact List.append_assoc _ _ _
    have htake : (front ++ rest).toList.takeWhile Text.isIdentifierRest =
        front.toList.takeWhile Text.isIdentifierRest := by
      rw [String.toList_append, List.takeWhile_append, if_neg]
      intro hlength
      have hsplit : (front.toList.takeWhile Text.isIdentifierRest ++
          (" = ".toList ++ more)).length = front.toList.length := by
        rw [hmore, List.takeWhile_append_dropWhile]
      rw [List.length_append, hlength, List.length_append] at hsplit
      change _ + (3 + _) = _ at hsplit
      omega
    rw [htake, hdrop, hupper, List.isPrefixOf_iff_prefix.2 (List.prefix_append _ _)]
    exact h
  · cases h

theorem mem_assigned_line (h : assigned? text = some n) : n ∈ assigned (.line text :: code) := by
  refine List.mem_filterMap.2 ⟨text, ?_, h⟩
  rw [Page.statements_cons]
  exact List.mem_cons_self

theorem mem_assigned_cons (step : CodeStep) (h : n ∈ assigned code) :
    n ∈ assigned (step :: code) := by
  obtain ⟨line, hline, hn⟩ := List.mem_filterMap.1 h
  refine List.mem_filterMap.2 ⟨line, ?_, hn⟩
  rw [Page.statements_cons]
  exact List.mem_append_right _ hline

theorem mem_assigned_of_mem_ownConstants (h : (builder d.kind).declaration refer d = .ok code) :
    ∀ n ∈ ownConstants d, n ∈ assigned code := by
  cases d with
  | builtin b =>
    cases h
    have hwidth : "WIDTH" ∈ assigned (builtinDeclaration b) :=
      mem_assigned_line (assigned?_append rfl _)
    refine List.forall_mem_cons.2 ⟨hwidth, ?_⟩
    unfold builtinDeclaration
    cases hrange : b.intRange with
    | some range =>
      rw [Option.isSome_some, if_pos rfl, List.forall_mem_cons, List.forall_mem_singleton]
      exact ⟨mem_assigned_cons _ (mem_assigned_line (assigned?_append rfl _)),
        mem_assigned_cons _ (mem_assigned_cons _ (mem_assigned_line (assigned?_append rfl _)))⟩
    | none =>
      rw [Option.isSome_none, if_neg Bool.false_ne_true]
      dsimp only
      split
      · rw [List.forall_mem_singleton]
        exact mem_assigned_cons _ (mem_assigned_line (assigned?_append rfl _))
      · exact List.forall_mem_nil _
  | scalar t => exact List.forall_mem_nil _
  | enumeration t =>
    cases h
    exact List.forall_mem_singleton.2
      (mem_assigned_line (assigned?_append (assigned?_append rfl _) _))
  | composite t =>
    obtain ⟨_, ht, h⟩ := except_bind_eq_ok_iff.1 h
    cases ht
    obtain ⟨fields, -, hend⟩ := ite_bind_eq_ok_iff.1 h
    cases hend
    exact List.forall_mem_singleton.2
      (mem_assigned_line (assigned?_append (assigned?_append rfl _) _))
  | fixedArray t =>
    obtain ⟨_, ht, h⟩ := except_bind_eq_ok_iff.1 h
    cases ht
    obtain ⟨element, -, hend⟩ := except_bind_eq_ok_iff.1 h
    cases hend
    refine List.forall_mem_cons.2 ⟨?_, List.forall_mem_singleton.2 (mem_assigned_cons _ ?_)⟩
    · exact mem_assigned_line (assigned?_append rfl _)
    · exact mem_assigned_line (assigned?_append rfl _)
  | variableArray t =>
    obtain ⟨_, ht, h⟩ := except_bind_eq_ok_iff.1 h
    cases ht
    obtain ⟨size, -, h⟩ := except_bind_eq_ok_iff.1 h
    obtain ⟨element, -, hend⟩ := except_bind_eq_ok_iff.1 h
    cases hend
    refine List.forall_mem_cons.2 ⟨?_, List.forall_mem_cons.2 ⟨mem_assigned_cons _ ?_,
      List.forall_mem_singleton.2 (mem_assigned_cons _ (mem_assigned_cons _ ?_))⟩⟩
    · exact mem_assigned_line (assigned?_append rfl _)
    · exact mem_assigned_line (assigned?_append rfl _)
    · exact mem_assigned_line (assigned?_append rfl _)
  | group t =>
    obtain ⟨_, ht, h⟩ := except_bind_eq_ok_iff.1 h
    cases ht
    obtain ⟨variants, -, h⟩ := except_bind_eq_ok_iff.1 h
    obtain ⟨tag, -, hend⟩ := except_bind_eq_ok_iff.1 h
    cases hend
    refine List.forall_mem_cons.2 ⟨?_, List.forall_mem_singleton.2 (mem_assigned_cons _ ?_)⟩
    · exact mem_assigned_line (assigned?_append (assigned?_append rfl _) _)
    · exact mem_assigned_line (assigned?_append rfl _)

end

/-! ## Classes -/

def mentions (code : Code) : List String := (Page.statements code).flatMap mentioned

section
variable {names : List String} {ctx : RenderContext} {d : TypeDef} {code : Code} {parent : String}

open Scan

theorem refers_classPath (hname : Text.isIdentifier d.name = true) (hwire : "Wire" ∈ names)
    (hclass : className d ∈ names) : Scan.Refers names (classPath d) := by
  cases d with
  | builtin b => exact refers_builtin b hwire
  | _ => exact refers_word (Text.isIdentifierRest_of_mem_pascalCase hname) hclass

theorem mentioned_head (hname : Text.isIdentifier d.name = true) (hwire : "Wire" ∈ names)
    (hclass : className d ∈ names) (hparent : Scan.Refers names parent) :
    ∀ m ∈ mentioned s!"class {classPath d} < {parent}", m ∈ names := by
  have hword : Reads names start "class ".toList ⟨[], ' ', [], false⟩ := reads_fixed rfl rfl
  have hself : Reads names ⟨[], ' ', [], false⟩ ((classPath d).toList ++ [' '])
      ⟨[], ' ', [], false⟩ :=
    refers_classPath hname hwire hclass [] ' ' rfl rfl (by decide)
  have hless : Reads names ⟨[], ' ', [], false⟩ "< ".toList ⟨[], ' ', [], false⟩ :=
    reads_fixed rfl rfl
  have hline : s!"class {classPath d} < {parent}".toList ++ ['\n'] =
      ("class ".toList ++ ((classPath d).toList ++ [' ']) ++ "< ".toList) ++
        (parent.toList ++ ['\n']) := by
    simp [toString_string]
  unfold mentioned
  rw [hline]
  exact forall_gather_append ((hword.append hself).append hless)
    (hparent [] '\n' rfl rfl (by decide)).gather

theorem refers_superclass (h : ctx.Renders backend) (hd : d ∈ ctx.schema.definitions)
    (hnames : ∀ e ∈ ctx.schema.definitions, Text.isIdentifier e.name = true)
    (hwire : "Wire" ∈ names) (hclasses : ∀ e ∈ ctx.schema.definitions, className e ∈ names)
    (hparent : superclass ctx d = .ok parent) : Scan.Refers names parent := by
  rcases superclass_eq_ok hparent with rfl | rfl | ⟨n, hn, htext⟩
  · exact refers_runtime "Builtin" hwire (List.all_eq_true.1 rfl)
  · exact refers_runtime "Type" hwire (List.all_eq_true.1 rfl)
  · obtain ⟨e, he, rfl⟩ := List.mem_map.1
      (h.consistent.cited_mem_names hd n (List.mem_cons_of_mem _ hn))
    rw [reference_eq_classPath h he] at htext
    cases htext
    exact refers_classPath (hnames e he) hwire (hclasses e he)

/-- The constants that the class of a type finds: those of the language, its own, the runtime and
the classes of the schema. -/
def visible (ctx : RenderContext) (code : Code) : List String :=
  ambient ++ (assigned code ++ ("Wire" :: ctx.schema.definitions.map className))

/-- The class of a type mentions constants of the language, its own, the runtime and other
classes. -/
theorem mentions_class (h : ctx.Renders backend) (hd : d ∈ ctx.schema.definitions)
    (hnames : ∀ e ∈ ctx.schema.definitions, Text.isIdentifier e.name = true)
    (hentries : ∀ n ∈ d.entries, Text.isIdentifier n = true)
    (hcode : renderClass ctx d = .ok code) :
    ∀ m ∈ mentions code, m ∈ ambient ∨ m ∈ assigned code ∨
      m ∈ "Wire" :: ctx.schema.definitions.map className := by
  obtain ⟨parent, declaration, pack, unpack, hparent, hdeclaration, hpack, hunpack, hlines⟩ :=
    renderClass_eq_ok h hd hcode
  have hbody := bodyLines_of_rendered h hd hdeclaration hpack hunpack
  have hassigned : ∀ n ∈ ownConstants d, n ∈ assigned code := by
    intro n hn
    obtain ⟨line, hline, hassigns⟩ :=
      List.mem_filterMap.1 (mem_assigned_of_mem_ownConstants hdeclaration n hn)
    refine List.mem_filterMap.2 ⟨line, ?_, hassigns⟩
    rw [hlines, Page.statements_append, Page.statements_append]
    simp [hline]
  have hmem : ∀ m, m ∈ visible ctx code ↔ m ∈ ambient ∨ m ∈ assigned code ∨
      m ∈ "Wire" :: ctx.schema.definitions.map className := by
    intro m
    rw [visible, List.mem_append, List.mem_append]
  have hwire : "Wire" ∈ visible ctx code := (hmem _).2 (.inr (.inr List.mem_cons_self))
  have hclasses : ∀ e ∈ ctx.schema.definitions, className e ∈ visible ctx code := fun e he =>
    (hmem _).2 (.inr (.inr (List.mem_cons_of_mem _ (List.mem_map_of_mem he))))
  have hfamiliar : familiar d ⊆ visible ctx code := by
    refine List.append_subset.2 ⟨fun n hn => ?_, List.cons_subset.2 ⟨hwire, fun n hn => ?_⟩⟩
    · exact (hmem n).2 (.inr (.inl (hassigned n hn)))
    · exact (hmem n).2 (.inl hn)
  have hrefers : ∀ text, IsClassPath ctx text → Scan.Refers (visible ctx code) text := by
    rintro _ ⟨e, he, rfl⟩
    exact refers_classPath (hnames e he) hwire (hclasses e he)
  intro m hm
  refine (hmem m).1 ?_
  obtain ⟨line, hline, hm⟩ := List.mem_flatMap.1 hm
  rw [hlines] at hline
  rcases List.mem_cons.1 hline with rfl | hline
  · exact mentioned_head (hnames d hd) hwire (hclasses d hd)
      (refers_superclass h hd hnames hwire hclasses hparent) m hm
  · rcases List.mem_append.1 hline with hline | hline
    · exact (hbody line hline).mentioned_subset hfamiliar hentries hrefers m hm
    · rw [List.mem_singleton.1 hline] at hm
      exact absurd hm List.not_mem_nil

theorem mentioned_runtime :
    ∀ line ∈ runtime, ∀ m ∈ mentioned line, m ∈ ambient ∨ m ∈ runtimeNames := by
  obtain ⟨texts, hruntime, -, hall⟩ := exists_runtime_eq_map
  rw [hruntime]
  intro line hline m hm
  obtain ⟨cs, hcs, rfl⟩ := List.mem_map.1 hline
  rw [mentioned, String.toList_ofList] at hm
  have hnames := List.all_eq_true.1 (List.all_eq_true.1 hall cs hcs) m hm
  exact (List.mem_append.1 (List.contains_iff_mem.1 hnames)).symm

end

/-! ## Files -/

def ambientWords : List (List String) :=
  [["standard", "error"], ["string"], ["encoding"], ["integer"], ["numeric"], ["array"],
    ["argument", "error"]]

theorem pascalCase_mem_ambient_iff {n : String} (hn : Text.isIdentifier n = true) :
    Text.pascalCase n ∈ ambient ↔ ∃ words ∈ ambientWords, Text.Spelling words n := by
  have hambient : ambient = ambientWords.map Text.capitalized := by decide
  have hplain : ∀ words ∈ ambientWords, Text.IsPlain words := by
    intro words hwords
    have hall : (ambientWords.all fun words => !words.isEmpty && words.all fun w =>
        decide (2 ≤ w.toList.length) && w.toList.all Char.isLower) = true := by rfl
    obtain ⟨hne, hlower⟩ := Bool.and_eq_true_iff.1 (List.all_eq_true.1 hall words hwords)
    exact Text.isPlain_of_all (by simpa using hne) hlower
  rw [hambient, List.mem_map]
  refine exists_congr fun words => and_congr_right fun hwords => ?_
  rw [eq_comm, Text.pascalCase_eq_iff hn (hplain words hwords)]

section
variable {name version : String} {declared : List TypeDef} {s : Schema} {r : Registry}
  {project : String} {files : List GeneratedFile} {classes : List Code}

/-- Each class mentions constants of the language, its own, or classes and modules of the file. -/
theorem FilesOf.mentions_classes (hs : Schema.build name version declared = .ok s)
    (hfiles : FilesOf (r.context language project s) classes files)
    (hrenders : (r.context language project s).Renders backend)
    (hopened : opened (source (r.context language project s) classes) =
      Text.pascalCase project :: (runtimeNames ++ s.ordered.map className))
    (hentries : ∀ d ∈ declared, ∀ n ∈ d.entries, Text.isIdentifier n = true) :
    ∀ code ∈ classes, ∀ m ∈ mentions code, m ∈ ambient ∨ m ∈ assigned code ∨
      m ∈ opened (source (r.context language project s) classes) := by
  obtain ⟨-, -, -, -, rfl, -⟩ := Schema.build_eq_ok_iff.1 hs
  have hlisted := (Schema.consistent_of_build hs).listed
  have hnames : ∀ e ∈ s.definitions, Text.isIdentifier e.name = true :=
    fun e he => Schema.isIdentifier_of_mem_names hs (List.mem_map_of_mem he)
  have hall : ∀ d ∈ s.definitions, ∀ n ∈ d.entries, Text.isIdentifier n = true := by
    intro d hd
    rcases List.mem_append.1 hd with hd | hd
    · obtain ⟨b, rfl⟩ := Schema.mem_builtins.1 hd
      exact List.forall_mem_nil _
    · exact hentries d hd
  have hknown : ∀ m ∈ "Wire" :: s.definitions.map className,
      m ∈ opened (source (r.context language project s) classes) := by
    rw [hopened]
    refine List.forall_mem_cons.2 ⟨?_, fun m hm => ?_⟩
    · exact List.mem_cons_of_mem _ (List.mem_append_left _ List.mem_cons_self)
    · refine List.mem_cons_of_mem _ (List.mem_append_right _ ?_)
      exact (hlisted.map className).mem_iff.2 hm
  have hclass : ∀ d ∈ s.ordered, ∀ code, renderClass (r.context language project s) d = .ok code →
      ∀ m ∈ mentions code, m ∈ ambient ∨ m ∈ assigned code ∨
        m ∈ opened (source (r.context language project s) classes) := by
    intro d hd code hcode m hm
    have hd := hlisted.mem_iff.1 hd
    rcases mentions_class hrenders hd hnames (hall d hd) hcode m hm with hm | hm | hm
    · exact .inl hm
    · exact .inr (.inl hm)
    · exact .inr (.inr (hknown m hm))
  exact forall_mem_of_mapM (mapM_eq_ok_iff.2 hfiles.rendered) hclass

theorem className_eq_pascalCase (hs : Schema.build name version declared = .ok s) :
    ∀ d ∈ declared, className d = Text.pascalCase d.name := by
  obtain ⟨-, -, hcoherent, -⟩ := Schema.build_eq_ok_iff.1 hs
  intro d hd
  cases d with
  | builtin b => exact absurd rfl (hcoherent.declarable _ hd)
  | _ => rfl

/-- In a generated file the runtime mentions constants of the language and its own, and classes
mention those, their own and each other.  No class has the name of the runtime.  None takes over a
constant of the language exactly if no declared type is named by its words. -/
theorem ambient_unshadowed_iff (hs : Schema.build name version declared = .ok s) :
    ∃ r, Registry.withBackends = .ok r ∧ ∀ project files,
      r.generate s language project = .ok files →
      ∃ classes, FilesOf (r.context language project s) classes files ∧
        (∀ line ∈ runtime, ∀ m ∈ mentioned line, m ∈ ambient ∨ m ∈ runtimeNames) ∧
        ((∀ d ∈ declared, ∀ n ∈ d.entries, Text.isIdentifier n = true) →
          ∀ code ∈ classes, ∀ m ∈ mentions code, m ∈ ambient ∨ m ∈ assigned code ∨
            m ∈ opened (source (r.context language project s) classes)) ∧
        "Wire" ∉ classes.flatMap opened ∧
        ((∀ m ∈ classes.flatMap opened, m ∉ ambient) ↔
          ∀ d ∈ declared, ∀ words ∈ ambientWords, ¬ Text.Spelling words d.name) := by
  obtain ⟨r, hr, hoffers⟩ := Registry.exists_withBackends
  refine ⟨r, hr, fun project files hfiles => ?_⟩
  have hruby := hoffers backend mem_backends
  obtain ⟨-, hcheck, -⟩ := hruby.generate_eq_ok_iff.1 hfiles
  obtain ⟨hfree, -, -⟩ := check_eq_ok_iff.1 hcheck
  obtain ⟨classes, hclasses, hrenders, hopened, hsource⟩ := exists_opened hs hruby hfiles
  obtain ⟨-, -, hcoherent, -, hdeclared, -⟩ := Schema.build_eq_ok_iff.1 hs
  have hbuiltin : ∀ b, className (.builtin b) ∉ "Wire" :: ambient := by
    intro b
    cases b <;> decide
  refine ⟨classes, hclasses, mentioned_runtime, hclasses.mentions_classes hs hrenders hsource,
    ?_, ?_⟩
  · have hwire : ∀ d ∈ s.ordered, className d ≠ "Wire" := by
      refine (Schema.forall_ordered_iff hs fun b hb => ?_).2 fun d hd hname => ?_
      · exact hbuiltin b (hb ▸ List.mem_cons_self)
      · rw [className_eq_pascalCase hs d hd] at hname
        exact hfree d (hdeclared ▸ hd) (List.mem_singleton.2 hname)
    rw [hopened]
    intro hmem
    obtain ⟨d, hd, hname⟩ := List.mem_map.1 hmem
    exact hwire d hd hname
  · rw [hopened, List.forall_mem_map,
      Schema.forall_ordered_iff hs fun b hb => hbuiltin b (List.mem_cons_of_mem _ hb)]
    refine forall₂_congr fun d hd => ?_
    rw [className_eq_pascalCase hs d hd, pascalCase_mem_ambient_iff (hcoherent.identifiers d hd)]
    simp only [not_exists, not_and]

/-- Types whose names are close to those of constants of the language. -/
def neighbours : List TypeDef :=
  [.composite ⟨"strings", [⟨"string", "uint8"⟩], List.nodup_singleton _⟩,
    .enumeration ⟨"integer_kind", ["array", "INTEGER"], List.cons_ne_nil _ _,
      of_decide_eq_true rfl, Nat.le_of_ble_eq_true rfl⟩]

theorem ambient_unshadowed_neighbours :
    ∃ s, Schema.build "s" "1.0.0" neighbours = .ok s ∧ ∃ r, Registry.withBackends = .ok r ∧
      ∃ files, r.generate s language "demo" = .ok files ∧
        ∃ classes, FilesOf (r.context language "demo" s) classes files ∧
          (∀ code ∈ classes, ∀ m ∈ mentions code, m ∈ ambient ∨ m ∈ assigned code ∨
            m ∈ opened (source (r.context language "demo" s) classes)) ∧
          ∀ m ∈ classes.flatMap opened, m ∉ ambient := by
  have hrun : (Schema.build "s" "1.0.0" neighbours).map Schema.name = .ok "s" := by rfl
  obtain ⟨s, hs, -⟩ := exists_of_map_eq_ok hrun
  obtain ⟨-, -, -, -, hdeclared, -⟩ := Schema.build_eq_ok_iff.1 hs
  obtain ⟨r, hr, h⟩ := ambient_unshadowed_iff hs
  obtain ⟨_, hr', hoffers⟩ := Registry.exists_withBackends
  cases hr.symm.trans hr'
  have hproject : Text.isIdentifier "demo" = true := rfl
  have hcheck : check (r.context language "demo" s) = .ok () := by
    refine check_eq_ok_iff.2 ?_
    rw [show (r.context language "demo" s).schema.declared = neighbours from hdeclared]
    refine ⟨by decide, by decide, List.forall_mem_cons.2 ⟨?_, List.forall_mem_singleton.2 rfl⟩⟩
    exact checkScope_eq_ok_iff.2 (by decide)
  obtain ⟨files, hfiles⟩ := (hoffers _ mem_backends).exists_generate mem_backends
    (Schema.consistent_of_build hs) hproject hcheck
  obtain ⟨classes, hclasses, -, hmentions, -, hunshadowed⟩ := h "demo" files hfiles
  exact ⟨s, hs, r, hr, files, hfiles, classes, hclasses, hmentions (by decide),
    hunshadowed.2 (by decide)⟩

/-- A scalar whose class takes over the class of texts. -/
def texts : List TypeDef := [.scalar ⟨"string", .uint8⟩]

/-- The runtime makes a text by the name of a class that belongs to a type. -/
theorem exists_shadowed :
    ∃ s r files classes, Schema.build "s" "1.0.0" texts = .ok s ∧ Registry.withBackends = .ok r ∧
      r.generate s language "demo" = .ok files ∧
      FilesOf (r.context language "demo" s) classes files ∧
      "String" ∈ ambient ∧ "String" ∈ classes.flatMap opened ∧
      ∃ line ∈ runtime, "String" ∈ mentioned line := by
  have hrun : (Schema.build "s" "1.0.0" texts).map Schema.name = .ok "s" := by rfl
  obtain ⟨s, hs, -⟩ := exists_of_map_eq_ok hrun
  obtain ⟨-, -, -, -, hdeclared, -⟩ := Schema.build_eq_ok_iff.1 hs
  obtain ⟨r, hr, hoffers⟩ := Registry.exists_withBackends
  have hproject : Text.isIdentifier "demo" = true := rfl
  have hcheck : check (r.context language "demo" s) = .ok () := by
    refine check_eq_ok_iff.2 ?_
    rw [show (r.context language "demo" s).schema.declared = texts from hdeclared]
    exact ⟨by decide, by decide, List.forall_mem_singleton.2 rfl⟩
  obtain ⟨files, hfiles⟩ := (hoffers _ mem_backends).exists_generate mem_backends
    (Schema.consistent_of_build hs) hproject hcheck
  obtain ⟨classes, hclasses, -, hopened, -⟩ := exists_opened hs (hoffers _ mem_backends) hfiles
  refine ⟨s, r, files, classes, hs, hr, hfiles, hclasses, by decide, ?_, ?_⟩
  · rw [hopened]
    refine List.mem_map.2 ⟨.scalar ⟨"string", .uint8⟩, ?_, rfl⟩
    refine (Schema.consistent_of_build hs).listed.mem_iff.2 (List.mem_append_right _ ?_)
    rw [hdeclared]
    exact List.mem_cons_self
  · refine ⟨"      out = String.new(encoding: Encoding::BINARY)", ?_, ?_⟩
    · unfold runtime
      simp
    · exact List.contains_iff_mem.1 rfl

end

end WireCodec.Target.Ruby
