import Mathlib.Data.List.Forall2
import Mathlib.Logic.Function.Iterate
import WireCodec.Proofs.Phrases
import WireCodec.Proofs.Versions
import WireCodec.Source.Compile

/-!
# The grammar of schema texts

A schema text is a header, declarations and the end marker.  The parser accepts exactly the token
lists that begin so, if the constructors of the definitions and of the schema accept what is
declared.

* `SpellsSchema`              the grammar of schemas;
* `declarationsTurn`          one turn of the loop over declarations, which ends within as many
                              turns as there are tokens;
* `declarations_eq_ok_iff`    the loop takes phrases up to the end marker;
* `parse_accepts_grammar`     parsing is recognizing the grammar and building what it spells.
-/

namespace WireCodec

namespace Source

/-- The texts begin with the spelling of a schema, up to the end marker. -/
def SpellsSchema (texts : List String) (name version : String) (ds : List Declaration) : Prop :=
  Text.isIdentifier name = true ∧ ∃ phrases behind, List.Forall₂ Declaration.Spelling ds phrases ∧
    texts = "schema" :: name :: version :: ";" :: phrases.flatten ++ "" :: behind

/-! ## The end marker -/

theorem ne_empty_of_isIdentifier {text : String} (h : Text.isIdentifier text = true) :
    text ≠ "" := by
  rintro rfl
  exact absurd h (by decide)

theorem notMem_labelTexts {labels : List String}
    (h : ∀ label ∈ labels, Text.isIdentifier label = true) : "" ∉ labelTexts labels := by
  intro hmem
  rw [labelTexts, List.mem_append, List.mem_flatMap] at hmem
  rcases hmem with ⟨label, hlabel, hmem⟩ | hmem
  · have hne := ne_empty_of_isIdentifier (h label hlabel)
    simp [hne.symm] at hmem
  · simp at hmem

theorem notMem_fieldTexts {fields : List Field}
    (h : ∀ f ∈ fields, Text.isIdentifier f.typeName = true ∧ Text.isIdentifier f.name = true) :
    "" ∉ fieldTexts fields := by
  intro hmem
  rw [fieldTexts, List.mem_append, List.mem_flatMap] at hmem
  rcases hmem with ⟨f, hf, hmem⟩ | hmem
  · have htype := ne_empty_of_isIdentifier (h f hf).1
    have hname := ne_empty_of_isIdentifier (h f hf).2
    simp [htype.symm, hname.symm] at hmem
  · simp at hmem

theorem Declaration.Spelling.notMem {d : Declaration} {texts : List String}
    (h : d.Spelling texts) : "" ∉ texts := by
  have hbuiltin : ∀ b : Builtin, "" ≠ b.name := by
    intro b
    cases b <;> decide
  cases d with
  | scalar name builtin =>
    obtain ⟨hname, rfl⟩ := h
    simp [(ne_empty_of_isIdentifier hname).symm, hbuiltin]
  | enumeration name labels =>
    obtain ⟨hname, hlabels, rfl⟩ := h
    simp [(ne_empty_of_isIdentifier hname).symm, notMem_labelTexts hlabels]
  | composite name fields =>
    obtain ⟨hname, hfields, rfl⟩ := h
    simp [(ne_empty_of_isIdentifier hname).symm, notMem_fieldTexts hfields]
  | fixedArray name element count =>
    obtain ⟨hname, helement, size, hsize, rfl⟩ := h
    simp [(ne_empty_of_isIdentifier hname).symm, (ne_empty_of_isIdentifier helement).symm,
      hsize.1.symm]
  | variableArray name element max sizeType =>
    obtain ⟨hname, helement, size, hsize, rfl⟩ := h
    simp [(ne_empty_of_isIdentifier hname).symm, (ne_empty_of_isIdentifier helement).symm,
      hsize.1.symm, hbuiltin]
  | group name variants =>
    obtain ⟨hname, hvariants, rfl⟩ := h
    simp [(ne_empty_of_isIdentifier hname).symm, notMem_fieldTexts hvariants]

theorem notMem_flatten {ds : List Declaration} {phrases : List (List String)}
    (h : List.Forall₂ Declaration.Spelling ds phrases) : "" ∉ phrases.flatten := by
  induction h with
  | nil => exact List.not_mem_nil
  | cons hspelling _ ih =>
    rw [List.flatten_cons, List.mem_append, not_or]
    exact ⟨hspelling.notMem, ih⟩

/-- What stands behind the first end marker has no part in the spelling. -/
theorem SpellsSchema.of_marker {front behind : List String} {name version : String}
    {ds : List Declaration} (hversion : version ≠ "")
    (h : SpellsSchema (front ++ "" :: behind) name version ds) (behind' : List String) :
    SpellsSchema (front ++ "" :: behind') name version ds := by
  obtain ⟨hname, phrases, behindMarker, hphrases, htexts⟩ := h
  have hnotMem : "" ∉ "schema" :: name :: version :: ";" :: phrases.flatten := by
    simp [(ne_empty_of_isIdentifier hname).symm, hversion.symm, notMem_flatten hphrases]
  rcases List.append_eq_append_iff.1 htexts with ⟨mid, hspelled, hmid⟩ | ⟨mid, hfront, hmid⟩
  · -- The marker at `front` does not lie inside the spelling, so it is the end of it.
    cases mid with
    | nil =>
      rw [List.append_nil] at hspelled
      exact ⟨hname, phrases, behind', hphrases, by rw [hspelled]⟩
    | cons text mid =>
      have hempty : "" = text := (List.cons.inj hmid).1
      rw [hspelled, hempty] at hnotMem
      exact absurd (List.mem_append_right front List.mem_cons_self) hnotMem
  · cases mid with
    | nil =>
      rw [List.append_nil] at hfront
      exact ⟨hname, phrases, behind', hphrases, by rw [hfront]⟩
    | cons text mid =>
      have hempty : "" = text := (List.cons.inj hmid).1
      refine ⟨hname, phrases, mid ++ "" :: behind', hphrases, ?_⟩
      rw [hfront, ← hempty, List.append_assoc]
      rfl

/-! ## The loop over declarations -/

/-- One turn of the loop over declarations, with `again` for the turns behind it. -/
def declarationsTurn (again : List Token → Except CompileError (List TypeDef)) :
    List Token → Except CompileError (List TypeDef)
  | [] => .error endOfInput
  | t :: rest =>
    if t.text = "" then .ok []
    else
      match declaration (t :: rest) with
      | .error e => .error e
      | .ok (d, behind) =>
        match d.define with
        | .error e => .error (.schema e)
        | .ok definition => (again behind).map (definition :: ·)

theorem declarations_eq_turn (ts : List Token) :
    declarations ts = declarationsTurn declarations ts := by
  cases ts with
  | nil => rw [declarations, declarationsTurn]
  | cons t rest =>
    rw [declarations, declarationsTurn]
    split
    · rfl
    · cases declaration (t :: rest) with
      | error e => rfl
      | ok read => rfl

/-- A turn that goes on does so on fewer tokens. -/
theorem declarationsTurn_congr {again again' : List Token → Except CompileError (List TypeDef)}
    {ts : List Token} (h : ∀ behind, behind.length < ts.length → again behind = again' behind) :
    declarationsTurn again ts = declarationsTurn again' ts := by
  cases ts with
  | nil => rfl
  | cons t rest =>
    rw [declarationsTurn, declarationsTurn]
    cases hd : declaration (t :: rest) with
    | error e => rfl
    | ok read =>
      obtain ⟨d, behind⟩ := read
      have hagain := h behind (shrinks_declaration _ _ _ hd)
      dsimp only
      rw [hagain]

theorem iterate_declarationsTurn (again : List Token → Except CompileError (List TypeDef))
    (ts : List Token) {n : Nat} (hn : ts.length < n) :
    declarationsTurn^[n] again ts = declarations ts := by
  induction n generalizing ts with
  | zero => exact absurd hn (Nat.not_lt_zero _)
  | succ n ih =>
    rw [Function.iterate_succ_apply', declarations_eq_turn ts]
    exact declarationsTurn_congr fun behind hbehind => ih behind (by omega)

theorem declarations_of_declaration {t : Token} {rest behind : List Token} {d : Declaration}
    {definition : TypeDef} {defs : List TypeDef} (ht : t.text ≠ "")
    (hd : declaration (t :: rest) = .ok (d, behind)) (hdefine : d.define = .ok definition)
    (hdefs : declarations behind = .ok defs) :
    declarations (t :: rest) = .ok (definition :: defs) := by
  rw [declarations_eq_turn, declarationsTurn, if_neg ht, hd]
  dsimp only
  rw [hdefine]
  dsimp only
  rw [hdefs]
  rfl

/-- The loop takes phrases of the grammar up to an end marker and gives the definitions they stand
for. -/
theorem declarations_eq_ok_iff {ts : List Token} {defs : List TypeDef} :
    declarations ts = .ok defs ↔ ∃ ds phrases front marker behind,
      ts = front ++ marker :: behind ∧ marker.text = "" ∧
      List.Forall₂ Declaration.Spelling ds phrases ∧ front.map Token.text = phrases.flatten ∧
      List.Forall₂ (fun d definition => d.define = .ok definition) ds defs := by
  constructor
  · fun_induction declarations ts generalizing defs with
    | case2 t rest hmarker =>
      intro h
      cases h
      exact ⟨[], [], [], t, rest, rfl, hmarker, .nil, rfl, .nil⟩
    | case5 t rest hmarker d behind hd definition hdefine ih =>
      intro h
      obtain ⟨defs', hdefs', rfl⟩ := exists_of_map_eq_ok h
      obtain ⟨ds, phrases, front, marker, behind', rfl, hend, hphrases, hfront, hdefs⟩ := ih hdefs'
      obtain ⟨phrase, hphrase, hspelling⟩ := (recognizes_declaration _ _ _).1 hd
      refine ⟨d :: ds, phrase.map Token.text :: phrases, phrase ++ front, marker, behind', ?_, hend,
        .cons hspelling hphrases, ?_, .cons hdefine hdefs⟩
      · rw [hphrase, List.append_assoc]
      · rw [List.map_append, hfront, List.flatten_cons]
    | _ =>
      intro h
      cases h
  · rintro ⟨ds, phrases, front, marker, behind, rfl, hend, hphrases, hfront, hdefs⟩
    induction hphrases generalizing front defs with
    | nil =>
      cases hdefs
      cases List.map_eq_nil_iff.1 hfront
      rw [List.nil_append, declarations, if_pos hend]
    | @cons d phrase ds phrases hspelling _ ih =>
      cases hdefs with
      | @cons _ definition _ defs hdefine hdefs =>
        rw [List.flatten_cons] at hfront
        obtain ⟨first, more, rfl, rfl, hmore⟩ := List.map_eq_append_iff.1 hfront
        have hd : declaration (first ++ (more ++ marker :: behind)) =
            .ok (d, more ++ marker :: behind) :=
          (recognizes_declaration _ _ _).2 ⟨first, rfl, hspelling⟩
        have hne : first ≠ [] := mt List.map_eq_nil_iff.2 hspelling.ne_nil
        obtain ⟨t, first, rfl⟩ := List.exists_cons_of_ne_nil hne
        have ht : t.text ≠ "" := fun ht => hspelling.notMem (ht ▸ List.mem_cons_self)
        rw [List.append_assoc]
        exact declarations_of_declaration ht hd hdefine (ih more hmore hdefs)

/-! ## Schemas -/

theorem recognizes_header :
    Recognizes header fun texts schema => Text.isIdentifier schema.1 = true ∧
      TokenClass.version.accepts schema.2 = true ∧
      texts = ["schema", schema.1, schema.2, ";"] := by
  have hrun := recognizes_word_bind "schema" <| recognizes_expectName.bind fun name =>
    recognizes_expect_bind .version
      (L := fun text texts b => ∃ more, texts = ";" :: more ∧ more = [] ∧ b = (name, text))
      fun version => recognizes_word_bind ";" <| recognizes_pure (name, version.text)
  refine hrun.congr fun texts schema => ?_
  constructor
  · rintro ⟨_, rfl, name, _, _, rfl, ⟨rfl, hname⟩, version, _, rfl, hversion, _, rfl, rfl, rfl⟩
    exact ⟨hname, hversion, rfl⟩
  · rintro ⟨hname, hversion, rfl⟩
    exact ⟨_, rfl, schema.1, _, _, rfl, ⟨rfl, hname⟩, schema.2, _, rfl, hversion, _, rfl, rfl, rfl⟩

theorem mapError_eq_ok_iff {ε ε' α : Type} {x : Except ε α} {f : ε → ε'} {a : α} :
    x.mapError f = .ok a ↔ x = .ok a := by
  cases x with
  | error e => exact ⟨(fun h => nomatch h), fun h => nomatch h⟩
  | ok b =>
    constructor
    · intro h
      cases h
      rfl
    · intro h
      cases h
      rfl

theorem parse_eq_ok_iff {ts : List Token} {s : Schema} :
    parse ts = .ok s ↔ ∃ name version rest defs, header ts = .ok ((name, version), rest) ∧
      declarations rest = .ok defs ∧ Schema.build name version defs = .ok s := by
  unfold parse
  rw [except_bind_eq_ok_iff]
  constructor
  · rintro ⟨⟨⟨name, version⟩, rest⟩, hheader, h⟩
    obtain ⟨defs, hdefs, hbuild⟩ := except_bind_eq_ok_iff.1 h
    exact ⟨name, version, rest, defs, hheader, hdefs, mapError_eq_ok_iff.1 hbuild⟩
  · rintro ⟨name, version, rest, defs, hheader, hdefs, hbuild⟩
    refine ⟨((name, version), rest), hheader, ?_⟩
    exact except_bind_eq_ok_iff.2 ⟨defs, hdefs, mapError_eq_ok_iff.2 hbuild⟩

theorem accepts_of_build {name version : String} {defs : List TypeDef} {s : Schema}
    (h : Schema.build name version defs = .ok s) : TokenClass.version.accepts version = true := by
  obtain ⟨-, hversion, -⟩ := Schema.build_eq_ok_iff.1 h
  exact Version.accepts_of_parse hversion

theorem parse_eq_ok_iff_spells {ts : List Token} {s : Schema} :
    parse ts = .ok s ↔ ∃ name version ds defs, SpellsSchema (ts.map Token.text) name version ds ∧
      List.Forall₂ (fun d definition => d.define = .ok definition) ds defs ∧
      Schema.build name version defs = .ok s := by
  rw [parse_eq_ok_iff]
  constructor
  · rintro ⟨name, version, rest, defs, hheader, hdefs, hbuild⟩
    obtain ⟨first, rfl, hname, -, hfirst⟩ := (recognizes_header _ _ _).1 hheader
    obtain ⟨ds, phrases, front, marker, behind, rfl, hend, hphrases, hfront, hdefine⟩ :=
      declarations_eq_ok_iff.1 hdefs
    refine ⟨name, version, ds, defs, ⟨hname, phrases, behind.map Token.text, hphrases, ?_⟩, hdefine,
      hbuild⟩
    rw [List.map_append, List.map_append, List.map_cons, hfirst, hfront, hend]
    rfl
  · rintro ⟨name, version, ds, defs, ⟨hname, phrases, behind, hphrases, htexts⟩, hdefine, hbuild⟩
    have hsplit : ts.map Token.text =
        ["schema", name, version, ";"] ++ (phrases.flatten ++ "" :: behind) := htexts
    obtain ⟨first, rest, rfl, hfirst, hrest⟩ := List.map_eq_append_iff.1 hsplit
    obtain ⟨front, more, rfl, hfront, hmore⟩ := List.map_eq_append_iff.1 hrest
    obtain ⟨marker, more, rfl, hend, -⟩ := List.map_eq_cons_iff.1 hmore
    refine ⟨name, version, front ++ marker :: more, defs, ?_, ?_, hbuild⟩
    · exact (recognizes_header _ _ _).2 ⟨first, rfl, hname, accepts_of_build hbuild, hfirst⟩
    · exact declarations_eq_ok_iff.2
        ⟨ds, phrases, front, marker, more, rfl, hend, hphrases, hfront, hdefine⟩

theorem parse_eq_ok_of_marker {front front' behind behind' : List Token} {marker marker' : Token}
    {s : Schema} (hfront : front.map Token.text = front'.map Token.text)
    (hmarker : marker.text = "") (hmarker' : marker'.text = "")
    (h : parse (front ++ marker :: behind) = .ok s) :
    parse (front' ++ marker' :: behind') = .ok s := by
  obtain ⟨name, version, ds, defs, hspells, hdefine, hbuild⟩ := parse_eq_ok_iff_spells.1 h
  have hversion : version ≠ "" := by
    rintro rfl
    exact absurd (accepts_of_build hbuild) (by decide)
  rw [List.map_append, List.map_cons, hmarker, hfront] at hspells
  refine parse_eq_ok_iff_spells.2 ⟨name, version, ds, defs, ?_, hdefine, hbuild⟩
  rw [List.map_append, List.map_cons, hmarker']
  exact hspells.of_marker hversion _

/-- Tokens give a schema if and only if they begin with the spelling of declarations that make up
the schema.  Positions and what stands behind the end marker do not matter, and the loop over the
declarations ends within as many turns as there are tokens. -/
theorem parse_accepts_grammar :
    (∀ ts s, parse ts = .ok s ↔
      ∃ name version ds defs, SpellsSchema (ts.map Token.text) name version ds ∧
        List.Forall₂ (fun d definition => d.define = .ok definition) ds defs ∧
        Schema.build name version defs = .ok s) ∧
    (∀ (front front' behind behind' : List Token) (marker marker' : Token) (s : Schema),
      front.map Token.text = front'.map Token.text → marker.text = "" → marker'.text = "" →
        (parse (front ++ marker :: behind) = .ok s ↔
          parse (front' ++ marker' :: behind') = .ok s)) ∧
    ∀ again ts n, ts.length < n → declarationsTurn^[n] again ts = declarations ts := by
  refine ⟨fun ts s => parse_eq_ok_iff_spells, ?_, ?_⟩
  · intro front front' behind behind' marker marker' s hfront hmarker hmarker'
    exact ⟨parse_eq_ok_of_marker hfront hmarker hmarker',
      parse_eq_ok_of_marker hfront.symm hmarker' hmarker⟩
  · intro again ts n hn
    exact iterate_declarationsTurn again ts hn

end Source

/-- The tokens of a text that declares `Pairs.definitions`, up to the end marker. -/
def Sample.Pairs.tokens : List Source.Token :=
  ["schema", "pairs", "1.0.0", ";", "fixed_array", "pair", "side", "[", "02", "]", ";",
    "scalar", "side", "uint8", ";"].map fun text => ⟨text, .start⟩

namespace Source

open Sample

theorem parse_accepts_grammar_pairs :
    ∃ s, Schema.build "pairs" "1.0.0" Pairs.definitions = .ok s ∧
      parse (Pairs.tokens ++ [⟨"", ⟨1, 1⟩⟩]) = .ok s ∧
      parse (Pairs.tokens ++ [⟨"", ⟨4, 2⟩⟩, ⟨"scalar", ⟨5, 1⟩⟩]) = .ok s := by
  obtain ⟨s, hs⟩ := Pairs.exists_build
  obtain ⟨hgrammar, hmarker, -⟩ := parse_accepts_grammar
  have hcount : IsCount "02" 2 :=
    ⟨by decide, List.all_eq_true.1 rfl, by decide, by decide⟩
  have hpair : (Declaration.fixedArray "pair" "side" 2).Spelling
      ["fixed_array", "pair", "side", "[", "02", "]", ";"] :=
    ⟨by decide, by decide, "02", hcount, rfl⟩
  have hside : (Declaration.scalar "side" .uint8).Spelling ["scalar", "side", "uint8", ";"] :=
    ⟨by decide, rfl⟩
  have hspells : SpellsSchema ((Pairs.tokens ++ [Token.mk "" ⟨1, 1⟩]).map Token.text)
      "pairs" "1.0.0" [.fixedArray "pair" "side" 2, .scalar "side" .uint8] :=
    ⟨by decide, _, [], .cons hpair (.cons hside .nil), rfl⟩
  have hparse := (hgrammar _ s).2
    ⟨"pairs", "1.0.0", _, Pairs.definitions, hspells, .cons rfl (.cons rfl .nil), hs⟩
  exact ⟨s, hs, hparse, (hmarker _ _ _ _ _ _ s rfl rfl rfl).1 hparse⟩

end Source
end WireCodec
