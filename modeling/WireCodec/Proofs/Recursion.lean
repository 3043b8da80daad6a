import Mathlib.Logic.Function.Iterate
import WireCodec.Proofs.Faults
import WireCodec.Proofs.Layouts
import WireCodec.Proofs.Packing
import WireCodec.Schema.Size

/-!
# Recursion through the names of a schema

A schema refers to types by name.  Encoding, decoding and measuring can be read as recursions that
look a name up and go on with the names in its definition.  Such a recursion has no measure of its
own: it ends because the schema was accepted.

* `TypeDef.packWith`, `TypeDef.unpackWith`, `TypeDef.encodedSizeWith`,
  `TypeDef.maxEncodedLengthWith`    one turn of each recursion, with `call` for the parts;
* `Schema.Settles s step f`         as many turns as there are definitions make up `f`, whatever
                                    the answer for a missing name and the answer beyond the last
                                    turn are;
* `Schema.Consistent.settles`       what one turn does along the layout, all turns do;
* `Schema.grounded_of_build`        all four recursions of an accepted schema settle.
-/

namespace WireCodec

/-! ## One turn -/

/-- The sum of sizes on top of `total`, up to the first varying one. -/
def EncodedSize.sumFrom (total : Nat) : List EncodedSize → EncodedSize
  | [] => .fixed total
  | .fixed n :: sizes => sumFrom (EncodedSize.add total n) sizes
  | .varying :: _ => .varying

namespace TypeDef

/-- Writes a value as the definition says; `call` writes the parts. -/
def packWith (call : String → Value → Encoder Unit) : TypeDef → Value → Encoder Unit
  | builtin b, v => packNumber b.name b v
  | scalar t, v => packNumber t.name t.builtin v
  | enumeration t, .label label =>
    match t.ordinal? label with
    | some ordinal => Encoder.writeUInt t.tagType.byteLength ordinal
    | none => throw (.unknownLabel t.name label)
  | composite t, .composite given => do
    Encoder.require (checkGiven t.name (fieldNames t.fields) [] given)
    t.fields.forM fun f =>
      match given.lookup f.name with
      | some v => call f.typeName v
      | none => throw (.missingField t.name f.name)
  | fixedArray t, .fixedArray vs =>
    if vs.length = t.count then vs.forM (call t.element)
    else throw (.length t.name vs.length t.count)
  | variableArray t, .variableArray vs =>
    if vs.length ≤ t.max then do
      Encoder.writeUInt t.sizeType.byteLength vs.length
      vs.forM (call t.element)
    else throw (.length t.name vs.length t.max)
  | group t, .group variant payload =>
    match t.variants.zipIdx.find? fun entry => entry.1.name = variant with
    | some (f, index) => do
      Encoder.writeUInt t.tagType.byteLength index
      call f.typeName payload
    | none => throw (.unknownLabel t.name variant)
  | d, v => throw (.typeMismatch d.name v.kind)

def unpackWith (call : String → Decoder Value) : TypeDef → Decoder Value
  | builtin b => unpackNumber b.name b
  | scalar t => unpackNumber t.name t.builtin
  | enumeration t => do
    let ordinal ← Decoder.readUInt t.tagType.byteLength
    match t.labels[ordinal]? with
    | some label => return .label label
    | none => throw (.invalidEnumerationValue t.name ordinal)
  | composite t => do
    return .composite (← t.fields.mapM fun f => do return (f.name, ← call f.typeName))
  | fixedArray t => do
    return .fixedArray (← Decoder.repeated t.count (call t.element))
  | variableArray t => do
    let len ← Decoder.readUInt t.sizeType.byteLength
    if len ≤ t.max then
      return .variableArray (← Decoder.repeated len (call t.element))
    else throw (.length t.name len t.max)
  | group t => do
    let tag ← Decoder.readUInt t.tagType.byteLength
    match t.variants[tag]? with
    | some f => return .group f.name (← call f.typeName)
    | none => throw (.invalidVariant t.name tag)

def encodedSizeWith (call : String → EncodedSize) : TypeDef → EncodedSize
  | builtin b => .fixed b.byteLength
  | scalar t => .fixed t.builtin.byteLength
  | enumeration t => .fixed t.tagType.byteLength
  | composite t => EncodedSize.sumFrom 0 (t.fields.map fun f => call f.typeName)
  | fixedArray t =>
    match call t.element with
    | .fixed n => .fixed (EncodedSize.mul n t.count)
    | .varying => .varying
  | variableArray _ => .varying
  | group _ => .varying

def maxEncodedLengthWith (call : String → Nat) : TypeDef → Nat
  | builtin b => b.byteLength
  | scalar t => t.builtin.byteLength
  | enumeration t => t.tagType.byteLength
  | composite t => (t.fields.map fun f => call f.typeName).foldl EncodedSize.add 0
  | fixedArray t => EncodedSize.mul (call t.element) t.count
  | variableArray t =>
    EncodedSize.add t.sizeType.byteLength (EncodedSize.mul (call t.element) t.max)
  | group t =>
    EncodedSize.add t.tagType.byteLength ((t.variants.map fun f => call f.typeName).foldl max 0)

end TypeDef

/-! ## A turn follows the layout -/

namespace Layout

/-- The parts are those of the fields, and `call` does with the name of each type what `g` does
with its layout. -/
def Follows {α : Type} (call : String → α) (g : Layout → α) (fields : List Field)
    (parts : List (String × Layout)) : Prop :=
  List.Forall₂ (fun f part => part.1 = f.name ∧ call f.typeName = g part.2) fields parts

section
variable {α : Type} {call : String → α} {g : Layout → α} {known : String → Option Layout}
variable {fields : List Field} {parts : List (String × Layout)}

theorem follows_of_ofFields? (h : ofFields? known fields = some parts)
    (hcall : ∀ m ∈ fields.map Field.typeName, ∀ part, known m = some part → call m = g part) :
    Follows call g fields parts := by
  have hfields := ofFields?_eq_some h
  clear h
  induction hfields with
  | nil => exact .nil
  | @cons f part fields parts hpart _ ih =>
    rw [List.map_cons, List.forall_mem_cons] at hcall
    exact .cons ⟨hpart.1, hcall.1 part.2 hpart.2⟩ (ih hcall.2)

theorem Follows.map_eq (h : Follows call g fields parts) :
    (fields.map fun f => call f.typeName) = parts.map fun part => g part.2 := by
  induction h with
  | nil => rfl
  | @cons f part fields parts hpart _ ih => rw [List.map_cons, List.map_cons, hpart.2, ih]

end

section
variable {fields : List Field} {parts : List (String × Layout)}

theorem forM_eq_packFields {call : String → Value → Encoder Unit}
    (h : Follows call pack fields parts) (typeName : String) (given : List (String × Value)) :
    (fields.forM fun f =>
      match given.lookup f.name with
      | some v => call f.typeName v
      | none => throw (.missingField typeName f.name)) = packFields typeName given parts := by
  induction h with
  | nil => rfl
  | @cons f part fields parts hpart _ ih =>
    obtain ⟨name, layout⟩ := part
    obtain ⟨rfl, hcall⟩ := hpart
    show (_ >>= fun _ => fields.forM _) = _
    rw [packFields, ih]
    cases hlookup : given.lookup f.name with
    | none => simp only [hlookup]; rfl
    | some v => simp only [hlookup, hcall]

theorem find?_eq_packVariant {call : String → Value → Encoder Unit}
    (h : Follows call pack fields parts) (typeName : String) (width : Nat) (variant : String)
    (payload : Value) (start : Nat) :
    (match (fields.zipIdx start).find? fun entry => entry.1.name = variant with
      | some (f, index) => do
        Encoder.writeUInt width index
        call f.typeName payload
      | none => throw (.unknownLabel typeName variant)) =
      packVariant typeName width variant payload start parts := by
  induction h generalizing start with
  | nil => rfl
  | @cons f part fields parts hpart _ ih =>
    obtain ⟨name, layout⟩ := part
    obtain ⟨rfl, hcall⟩ := hpart
    rw [List.zipIdx_cons, packVariant]
    by_cases hvariant : f.name = variant
    · rw [List.find?_cons_of_pos (by simpa using hvariant), if_pos hvariant]
      show (do Encoder.writeUInt width start; call f.typeName payload) = _
      rw [hcall]
    · rw [List.find?_cons_of_neg (by simpa using hvariant), if_neg hvariant, ih]

theorem mapM_eq_unpackFields {call : String → Decoder Value}
    (h : Follows call unpack fields parts) :
    (fields.mapM fun f => do return (f.name, ← call f.typeName)) = unpackFields parts := by
  induction h with
  | nil => rfl
  | @cons f part fields parts hpart _ ih =>
    obtain ⟨name, layout⟩ := part
    obtain ⟨rfl, hcall⟩ := hpart
    rw [List.mapM_cons, unpackFields, ih, hcall, bind_assoc]
    simp only [pure_bind]

theorem getElem?_eq_unpackVariant {call : String → Decoder Value}
    (h : Follows call unpack fields parts) (typeName : String) (tag index : Nat) :
    (match fields[index]? with
      | some f => do return .group f.name (← call f.typeName)
      | none => throw (.invalidVariant typeName tag)) =
      unpackVariant typeName tag index parts := by
  induction h generalizing index with
  | nil => rw [List.getElem?_nil, unpackVariant]
  | @cons f part fields parts hpart _ ih =>
    obtain ⟨name, layout⟩ := part
    obtain ⟨rfl, hcall⟩ := hpart
    cases index with
    | zero =>
      rw [List.getElem?_cons_zero, unpackVariant]
      show (do return Value.group f.name (← call f.typeName)) = _
      rw [hcall]
    | succ index => rw [List.getElem?_cons_succ, unpackVariant, ih]

theorem sumFrom_eq_encodedSizeFields (total : Nat) (parts : List (String × Layout)) :
    EncodedSize.sumFrom total (parts.map fun part => part.2.encodedSize) =
      encodedSizeFields total parts := by
  induction parts generalizing total with
  | nil => rw [List.map_nil, encodedSizeFields, EncodedSize.sumFrom]
  | cons part parts ih =>
    obtain ⟨name, layout⟩ := part
    rw [List.map_cons, encodedSizeFields]
    cases layout.encodedSize with
    | fixed n => exact ih (EncodedSize.add total n)
    | varying => rfl

theorem foldl_eq_sumMaxLengths (total : Nat) (parts : List (String × Layout)) :
    (parts.map fun part => part.2.maxEncodedLength).foldl EncodedSize.add total =
      sumMaxLengths total parts := by
  induction parts generalizing total with
  | nil => rw [List.map_nil, List.foldl_nil, sumMaxLengths]
  | cons part parts ih => rw [List.map_cons, List.foldl_cons, sumMaxLengths, ih]

theorem foldl_eq_greatestMaxLength (best : Nat) (parts : List (String × Layout)) :
    (parts.map fun part => part.2.maxEncodedLength).foldl max best =
      greatestMaxLength best parts := by
  induction parts generalizing best with
  | nil => rw [List.map_nil, List.foldl_nil, greatestMaxLength]
  | cons part parts ih => rw [List.map_cons, List.foldl_cons, greatestMaxLength, ih]

end

section
variable {known : String → Option Layout} {d : TypeDef} {layout : Layout}

theorem packWith_eq {call : String → Value → Encoder Unit}
    (h : ofTypeDef? known d = some layout)
    (hcall : ∀ m ∈ d.references, ∀ part, known m = some part → call m = part.pack) :
    d.packWith call = layout.pack := by
  funext v
  cases d with
  | builtin b =>
    cases h
    rw [pack_number, TypeDef.packWith]
  | scalar t =>
    cases h
    rw [pack_number, TypeDef.packWith]
  | enumeration t =>
    cases h
    cases v <;> rfl
  | composite t =>
    obtain ⟨fields, hfields, rfl⟩ := Option.map_eq_some_iff.1 h
    have hnames := map_fst_eq_fieldNames (ofFields?_eq_some hfields)
    have hfollows := follows_of_ofFields? hfields hcall
    cases v with
    | composite given =>
      rw [pack, TypeDef.packWith, forM_eq_packFields hfollows, hnames]
    | _ => rfl
  | fixedArray t =>
    obtain ⟨element, helement, rfl⟩ := Option.map_eq_some_iff.1 h
    have hpart := hcall t.element List.mem_cons_self element helement
    cases v with
    | fixedArray vs => rw [pack, TypeDef.packWith, hpart]
    | _ => rfl
  | variableArray t =>
    obtain ⟨element, helement, rfl⟩ := Option.map_eq_some_iff.1 h
    have hpart := hcall t.element (List.mem_cons_of_mem _ List.mem_cons_self) element helement
    cases v with
    | variableArray vs => rw [pack, TypeDef.packWith, hpart]
    | _ => rfl
  | group t =>
    obtain ⟨variants, hvariants, rfl⟩ := Option.map_eq_some_iff.1 h
    have hfollows := follows_of_ofFields? hvariants hcall
    cases v with
    | group variant payload =>
      rw [pack, TypeDef.packWith, find?_eq_packVariant hfollows, ← hfollows.length_eq]
      rfl
    | _ => rfl

theorem unpackWith_eq {call : String → Decoder Value}
    (h : ofTypeDef? known d = some layout)
    (hcall : ∀ m ∈ d.references, ∀ part, known m = some part → call m = part.unpack) :
    d.unpackWith call = layout.unpack := by
  cases d with
  | builtin b =>
    cases h
    rw [unpack, TypeDef.unpackWith]
  | scalar t =>
    cases h
    rw [unpack, TypeDef.unpackWith]
  | enumeration t =>
    cases h
    rw [unpack, TypeDef.unpackWith]
    rfl
  | composite t =>
    obtain ⟨fields, hfields, rfl⟩ := Option.map_eq_some_iff.1 h
    rw [unpack, TypeDef.unpackWith, mapM_eq_unpackFields (follows_of_ofFields? hfields hcall)]
  | fixedArray t =>
    obtain ⟨element, helement, rfl⟩ := Option.map_eq_some_iff.1 h
    rw [unpack, TypeDef.unpackWith, hcall t.element List.mem_cons_self element helement]
  | variableArray t =>
    obtain ⟨element, helement, rfl⟩ := Option.map_eq_some_iff.1 h
    rw [unpack, TypeDef.unpackWith,
      hcall t.element (List.mem_cons_of_mem _ List.mem_cons_self) element helement]
  | group t =>
    obtain ⟨variants, hvariants, rfl⟩ := Option.map_eq_some_iff.1 h
    have hfollows := follows_of_ofFields? hvariants hcall
    rw [unpack, TypeDef.unpackWith, ← hfollows.length_eq]
    simp only [getElem?_eq_unpackVariant hfollows]
    rfl

theorem encodedSizeWith_eq {call : String → EncodedSize}
    (h : ofTypeDef? known d = some layout)
    (hcall : ∀ m ∈ d.references, ∀ part, known m = some part → call m = part.encodedSize) :
    d.encodedSizeWith call = layout.encodedSize := by
  cases d with
  | builtin b =>
    cases h
    rw [encodedSize, TypeDef.encodedSizeWith]
  | scalar t =>
    cases h
    rw [encodedSize, TypeDef.encodedSizeWith]
  | enumeration t =>
    cases h
    rw [encodedSize, TypeDef.encodedSizeWith]
    rfl
  | composite t =>
    obtain ⟨fields, hfields, rfl⟩ := Option.map_eq_some_iff.1 h
    rw [encodedSize, TypeDef.encodedSizeWith, (follows_of_ofFields? hfields hcall).map_eq,
      sumFrom_eq_encodedSizeFields]
  | fixedArray t =>
    obtain ⟨element, helement, rfl⟩ := Option.map_eq_some_iff.1 h
    have hpart := hcall t.element List.mem_cons_self element helement
    cases hsize : element.encodedSize with
    | fixed n => simp only [encodedSize, TypeDef.encodedSizeWith, hpart, hsize]
    | varying => simp only [encodedSize, TypeDef.encodedSizeWith, hpart, hsize]
  | variableArray t =>
    obtain ⟨element, helement, rfl⟩ := Option.map_eq_some_iff.1 h
    rw [encodedSize, TypeDef.encodedSizeWith]
  | group t =>
    obtain ⟨variants, hvariants, rfl⟩ := Option.map_eq_some_iff.1 h
    rw [encodedSize, TypeDef.encodedSizeWith]

theorem maxEncodedLengthWith_eq {call : String → Nat}
    (h : ofTypeDef? known d = some layout)
    (hcall : ∀ m ∈ d.references, ∀ part, known m = some part → call m = part.maxEncodedLength) :
    d.maxEncodedLengthWith call = layout.maxEncodedLength := by
  cases d with
  | builtin b =>
    cases h
    rw [maxEncodedLength, TypeDef.maxEncodedLengthWith]
  | scalar t =>
    cases h
    rw [maxEncodedLength, TypeDef.maxEncodedLengthWith]
  | enumeration t =>
    cases h
    rw [maxEncodedLength, TypeDef.maxEncodedLengthWith]
    rfl
  | composite t =>
    obtain ⟨fields, hfields, rfl⟩ := Option.map_eq_some_iff.1 h
    rw [maxEncodedLength, TypeDef.maxEncodedLengthWith,
      (follows_of_ofFields? hfields hcall).map_eq, foldl_eq_sumMaxLengths]
  | fixedArray t =>
    obtain ⟨element, helement, rfl⟩ := Option.map_eq_some_iff.1 h
    rw [maxEncodedLength, TypeDef.maxEncodedLengthWith,
      hcall t.element List.mem_cons_self element helement]
  | variableArray t =>
    obtain ⟨element, helement, rfl⟩ := Option.map_eq_some_iff.1 h
    rw [maxEncodedLength, TypeDef.maxEncodedLengthWith,
      hcall t.element (List.mem_cons_of_mem _ List.mem_cons_self) element helement]
  | group t =>
    obtain ⟨variants, hvariants, rfl⟩ := Option.map_eq_some_iff.1 h
    have hfollows := follows_of_ofFields? hvariants hcall
    rw [maxEncodedLength, TypeDef.maxEncodedLengthWith, hfollows.map_eq,
      foldl_eq_greatestMaxLength, ← hfollows.length_eq]
    rfl

end

end Layout

/-! ## All turns -/

namespace Schema

variable {s : Schema}

section
variable {α : Type}

/-- One turn of a recursion through names: the definition of the name is taken up with `call` for
its parts.  `missing` answers for a name without a definition. -/
def turn (s : Schema) (step : (String → α) → TypeDef → α) (missing call : String → α)
    (name : String) : α :=
  match s.get? name with
  | some d => step call d
  | none => missing name

/-- A recursion through names comes to `f` on every definition within as many turns as the schema
has definitions: neither the answer for missing names nor the one `beyond` the last turn has a part
in it. -/
def Settles (s : Schema) (step : (String → α) → TypeDef → α) (f : TypeDef → α) : Prop :=
  ∀ (missing beyond : String → α) (depth : Nat), s.definitions.length ≤ depth →
    ∀ d ∈ s.definitions, (s.turn step missing)^[depth] beyond d.name = f d

variable {step : (String → α) → TypeDef → α} {missing beyond : String → α} {g : Layout → α}

/-- Behind the names in `known`, settled after `k` turns, each definition takes one turn more. -/
theorem iterate_turn_of_definedFirst
    (hstep : ∀ {call : String → α} {d : TypeDef} {layout : Layout},
      Layout.ofTypeDef? s.layout? d = some layout →
      (∀ m ∈ d.references, ∀ part, s.layout? m = some part → call m = g part) →
      step call d = g layout)
    {defs : List TypeDef} {known : List String} {k : Nat} (hfirst : DefinedFirst known defs)
    (hdefs : ∀ d ∈ defs, s.get? d.name = some d ∧ ∃ layout,
      s.layout? d.name = some layout ∧ Layout.ofTypeDef? s.layout? d = some layout)
    (hknown : ∀ n ∈ known, ∀ depth, k ≤ depth → ∀ layout, s.layout? n = some layout →
      (s.turn step missing)^[depth] beyond n = g layout) :
    ∀ d ∈ defs, ∀ depth, k + defs.length ≤ depth → ∀ layout, s.layout? d.name = some layout →
      (s.turn step missing)^[depth] beyond d.name = g layout := by
  induction defs generalizing known k with
  | nil =>
    intro d hd
    cases hd
  | cons d defs ih =>
    rw [List.forall_mem_cons] at hdefs
    obtain ⟨⟨hget, layout, hlayout, hdef⟩, hdefs⟩ := hdefs
    have hnew : ∀ depth, k + 1 ≤ depth → ∀ layout, s.layout? d.name = some layout →
        (s.turn step missing)^[depth] beyond d.name = g layout := by
      intro depth hdepth layout' hlayout'
      rw [hlayout] at hlayout'
      cases hlayout'
      obtain ⟨before, rfl⟩ : ∃ before, depth = before + 1 := ⟨depth - 1, by omega⟩
      rw [Function.iterate_succ_apply', turn, hget]
      exact hstep hdef fun m hm => hknown m (hfirst.1 m hm) before (by omega)
    have hrest := ih hfirst.2 hdefs (k := k + 1) <| List.forall_mem_cons.2
      ⟨hnew, fun n hn depth hdepth => hknown n hn depth (by omega)⟩
    refine List.forall_mem_cons.2 ⟨?_, ?_⟩
    · intro depth hdepth
      rw [List.length_cons] at hdepth
      exact hnew depth (by omega)
    · intro e he depth hdepth
      rw [List.length_cons] at hdepth
      exact hrest e he depth (by omega)

theorem Consistent.settles (h : s.Consistent) {f : TypeDef → α}
    (hf : ∀ {d : TypeDef} {layout : Layout}, s.layout? d.name = some layout → f d = g layout)
    (hstep : ∀ {call : String → α} {d : TypeDef} {layout : Layout},
      Layout.ofTypeDef? s.layout? d = some layout →
      (∀ m ∈ d.references, ∀ part, s.layout? m = some part → call m = g part) →
      step call d = g layout) : s.Settles step f := by
  intro missing beyond depth hdepth d hd
  have hdefs : ∀ e ∈ s.ordered, s.get? e.name = some e ∧ ∃ layout,
      s.layout? e.name = some layout ∧ Layout.ofTypeDef? s.layout? e = some layout := by
    intro e he
    have hget : s.get? e.name = some e := h.get?_eq_some_iff.2 ⟨h.listed.mem_iff.1 he, rfl⟩
    exact ⟨hget, h.layout?_of_get? hget⟩
  have hmem : d ∈ s.ordered := h.listed.mem_iff.2 hd
  obtain ⟨-, layout, hlayout, -⟩ := hdefs d hmem
  rw [← h.listed.length_eq] at hdepth
  rw [hf hlayout]
  exact iterate_turn_of_definedFirst hstep (k := 0) h.definedFirst hdefs
    (fun n hn => absurd hn List.not_mem_nil) d hmem depth (by omega) layout hlayout

end

/-- The recursions through the names of a schema come to an end, and none of them meets a name
without a definition. -/
structure Grounded (s : Schema) : Prop where
  wellFounded : WellFounded fun b a => s.Mentions a b
  defined : ∀ d ∈ s.definitions, ∀ n ∈ d.references, ∃ e, s.get? n = some e
  pack : s.Settles TypeDef.packWith fun d => s.packInto d.name
  unpack : s.Settles TypeDef.unpackWith fun d => s.unpackFrom d.name
  encodedSize : s.Settles TypeDef.encodedSizeWith s.encodedSize
  maxEncodedLength : s.Settles TypeDef.maxEncodedLengthWith s.maxEncodedLength
  unpack_error : ∀ d ∈ s.definitions, ∀ bytes e, s.unpack d.name bytes = .error e →
    e.isOfBytes = true
  pack_error : ∀ d ∈ s.definitions, ∀ v n, s.pack d.name v ≠ .error (.unknownType n)

theorem isOfBytes_of_unpack {typeName : String} {layout : Layout}
    (hlayout : s.layout? typeName = some layout) {bytes : List UInt8} {e : WireError}
    (h : s.unpack typeName bytes = .error e) : e.isOfBytes = true := by
  unfold Schema.unpack Decoder.readAll at h
  rw [unpackFrom_of_layout? hlayout] at h
  cases hrun : layout.unpack (Reader.ofBytes bytes) with
  | error e' r =>
    rw [hrun] at h
    cases h
    exact layout.failsOnly_unpack _ _ _ hrun
  | ok v r =>
    rw [hrun] at h
    dsimp only at h
    split at h
    · cases h
    · cases h
      rfl

theorem knowsType_of_pack {typeName : String} {layout : Layout}
    (hlayout : s.layout? typeName = some layout) {v : Value} {e : WireError}
    (h : s.pack typeName v = .error e) : e.knowsType = true := by
  unfold Schema.pack Encoder.bytesOf at h
  rw [packInto_of_layout? hlayout] at h
  cases hrun : layout.pack v Writer.empty with
  | error e' w =>
    rw [hrun] at h
    cases h
    exact layout.failsOnly_pack v _ _ _ hrun
  | ok u w =>
    rw [hrun] at h
    cases h

/-- In an accepted schema, encoding, decoding and measuring end on every type, decoding fails only
for what the bytes say, and encoding never misses a type. -/
theorem grounded_of_build {name version : String} {declared : List TypeDef}
    (h : build name version declared = .ok s) : s.Grounded := by
  have hs := consistent_of_build h
  have hget : ∀ d ∈ s.definitions, s.get? d.name = some d :=
    fun d hd => hs.get?_eq_some_iff.2 ⟨hd, rfl⟩
  refine ⟨hs.wellFounded_mentions, ?_, ?_, ?_, ?_, ?_, ?_, ?_⟩
  · intro d hd n hn
    exact hs.exists_get? (hget d hd) hn
  · exact hs.settles (fun hlayout => funext (packInto_of_layout? hlayout)) Layout.packWith_eq
  · exact hs.settles (fun hlayout => unpackFrom_of_layout? hlayout) Layout.unpackWith_eq
  · refine hs.settles (fun hlayout => ?_) Layout.encodedSizeWith_eq
    unfold Schema.encodedSize
    rw [hlayout]
  · refine hs.settles (fun hlayout => ?_) Layout.maxEncodedLengthWith_eq
    unfold Schema.maxEncodedLength
    rw [hlayout]
  · intro d hd bytes e he
    obtain ⟨layout, hlayout, -⟩ := hs.layout?_of_get? (hget d hd)
    exact isOfBytes_of_unpack hlayout he
  · intro d hd v n he
    obtain ⟨layout, hlayout, -⟩ := hs.layout?_of_get? (hget d hd)
    cases knowsType_of_pack hlayout he

open Sample

theorem grounded_of_build_pairs :
    ∃ s, build "pairs" "1.0.0" Pairs.definitions = .ok s ∧ s.Grounded := by
  obtain ⟨s, hs⟩ := Pairs.exists_build
  exact ⟨s, hs, grounded_of_build hs⟩

end Schema
end WireCodec
