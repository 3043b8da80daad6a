import WireCodec.Proofs.Callees
import WireCodec.Proofs.Precedence

/-!
# Code in front of its users

The code of a type shows references to itself and to the types it uses only.  Where the code of all
types stands in one file, in dependency order, whatever is used stands in front of its user.

* `RenderContext.ReliesOn`           code that shows the references of some types only;
* `RenderContext.Renders.reliesOn`   the code of a type relies on itself and on the types it uses;
* `ProvidedFirst`                    items use what is known or stands in front of them;
* `providedFirst_of_forall₂`         so do the items of definitions that use those in front of them.
-/

namespace WireCodec

/-! ## References to what stands in front -/

namespace RenderContext

/-- Code is rendered, and only references to the types in `names` show in it: any referrer that
agrees on them gives the same code. -/
def ReliesOn (ctx : RenderContext) (names : List String) (render : Rendering) (d : TypeDef) :
    Prop :=
  ∃ code, render ctx.reference d = .ok code ∧
    ∀ refer : Referrer, (∀ n ∈ names, refer n = ctx.reference n) → render refer d = .ok code

variable {ctx : RenderContext} {b : Backend} {d : TypeDef}

theorem Renders.reliesOn (h : ctx.Renders b) (hd : d ∈ ctx.schema.definitions)
    {names : List String} (hnames : ∀ n ∈ d.cited, n ∈ names) {render : Rendering}
    (hrender : Needs d.cited fun refer => render refer d) : ctx.ReliesOn names render d := by
  obtain ⟨code, hcode, hsame⟩ := h.exists_of_needs hd hrender
  exact ⟨code, hcode, fun refer hrefer => hsame refer fun n hn => hrefer n (hnames n hn)⟩

end RenderContext

/-! ## Items in order -/

section
variable {α β γ : Type} {uses provides : α → List String} {known : List String}

/-- Every item uses names that are known or that the items in front of it provide. -/
def ProvidedFirst (uses provides : α → List String) (known : List String) (items : List α) : Prop :=
  ∀ front item back, items = front ++ item :: back →
    ∀ n ∈ uses item, n ∈ known ++ front.flatMap provides

variable {xs ys : List α}

theorem providedFirst_of_forall (h : ∀ x ∈ xs, ∀ n ∈ uses x, n ∈ known) :
    ProvidedFirst uses provides known xs := by
  rintro front x back rfl n hn
  exact List.mem_append_left _ (h x (List.mem_append_right _ List.mem_cons_self) n hn)

theorem ProvidedFirst.mono {known' : List String} (h : ProvidedFirst uses provides known xs)
    (hknown : known ⊆ known') : ProvidedFirst uses provides known' xs := by
  intro front x back hsplit n hn
  rcases List.mem_append.1 (h front x back hsplit n hn) with hn | hn
  · exact List.mem_append_left _ (hknown hn)
  · exact List.mem_append_right _ hn

/-- What the items of the first list provide is known to the second. -/
theorem ProvidedFirst.append (hxs : ProvidedFirst uses provides known xs)
    (hys : ProvidedFirst uses provides (known ++ xs.flatMap provides) ys) :
    ProvidedFirst uses provides known (xs ++ ys) := by
  intro front x back hsplit n hn
  rcases List.append_eq_append_iff.1 hsplit with ⟨mid, rfl, hmid⟩ | ⟨mid, hmid, htail⟩
  · rw [List.flatMap_append, ← List.append_assoc]
    exact hys mid x back hmid n hn
  · cases mid with
    | nil =>
      rw [List.append_nil] at hmid
      subst hmid
      exact List.append_nil (known ++ _) ▸ hys [] x back htail.symm n hn
    | cons y mid =>
      obtain ⟨rfl, -⟩ := List.cons.inj htail
      exact hxs front x mid hmid n hn

/-- One list of items for each definition.  If the items of a definition provide its names and use
those of the definitions in front of it, all items together use what stands in front of them. -/
theorem providedFirst_of_forall₂ {R : β → γ → Prop} {ds : List β} {cs : List γ} {f : γ → List α}
    {names : β → List String} (h : List.Forall₂ R ds cs)
    (hprovides : ∀ d ∈ ds, ∀ c, R d c → (f c).flatMap provides = names d)
    (huses : ∀ before d after, ds = before ++ d :: after → ∀ c, R d c →
      ∀ x ∈ f c, ∀ n ∈ uses x, n ∈ known ++ before.flatMap names) :
    ProvidedFirst uses provides known (cs.flatMap f) := by
  induction h generalizing known with
  | nil => exact providedFirst_of_forall (List.forall_mem_nil _)
  | @cons d c ds cs hc _ ih =>
    obtain ⟨hd, hds⟩ := List.forall_mem_cons.1 hprovides
    rw [List.flatMap_cons]
    refine ProvidedFirst.append (providedFirst_of_forall ?_) (ih hds ?_)
    · exact List.append_nil known ▸ huses [] d ds rfl c hc
    · rintro before e after rfl c' hc' x hx n hn
      rw [hd c hc, List.append_assoc, ← List.flatMap_cons]
      exact huses (d :: before) e after rfl c' hc' x hx n hn

theorem exists_mem_of_forall₂ {R : β → γ → Prop} {ds : List β} {cs : List γ}
    (h : List.Forall₂ R ds cs) :
    (∀ d ∈ ds, ∃ c ∈ cs, R d c) ∧ ∀ c ∈ cs, ∃ d ∈ ds, R d c := by
  induction h with
  | nil => exact ⟨List.forall_mem_nil _, List.forall_mem_nil _⟩
  | @cons d c ds cs hc _ ih =>
    refine ⟨List.forall_mem_cons.2 ⟨⟨c, List.mem_cons_self, hc⟩, fun e he => ?_⟩,
      List.forall_mem_cons.2 ⟨⟨d, List.mem_cons_self, hc⟩, fun e he => ?_⟩⟩
    · obtain ⟨c', hmem, hc'⟩ := ih.1 e he
      exact ⟨c', List.mem_cons_of_mem _ hmem, hc'⟩
    · obtain ⟨d', hmem, hd'⟩ := ih.2 e he
      exact ⟨d', List.mem_cons_of_mem _ hmem, hd'⟩

theorem exists_split_of_forall₂ {R : β → γ → Prop} {before after : List β} {d : β} {cs : List γ}
    (h : List.Forall₂ R (before ++ d :: after) cs) :
    ∃ front c back, cs = front ++ c :: back ∧ List.Forall₂ R before front ∧ R d c ∧
      List.Forall₂ R after back := by
  induction before generalizing cs with
  | nil =>
    obtain ⟨c, back, hc, hback, rfl⟩ := List.forall₂_cons_left_iff.1 h
    exact ⟨[], c, back, rfl, .nil, hc, hback⟩
  | cons e before ih =>
    obtain ⟨c', cs, hc', hcs, rfl⟩ := List.forall₂_cons_left_iff.1 h
    obtain ⟨front, c, back, rfl, hfront, hc, hback⟩ := ih hcs
    exact ⟨c' :: front, c, back, rfl, .cons hc' hfront, hc, hback⟩

theorem flatMap_eq_of_forall₂ {ds : List β} {cs : List γ} {f : γ → List α} {names : β → List α}
    (h : List.Forall₂ (fun d c => f c = names d) ds cs) : cs.flatMap f = ds.flatMap names := by
  induction h with
  | nil => rfl
  | cons hc _ ih => rw [List.flatMap_cons, List.flatMap_cons, hc, ih]

end

/-! ## Languages -/

def TypeDef.entries : TypeDef → List String
  | .enumeration t => t.labels
  | .composite t => fieldNames t.fields
  | .group t => fieldNames t.variants
  | _ => []

/-- The types that the values of a definition are made of: all that its code is about, but for the
tag of an enumeration, which only the encoding has. -/
def TypeDef.parts : TypeDef → List String
  | .enumeration _ => []
  | d => d.uses

theorem TypeDef.parts_subset_uses (d : TypeDef) : d.parts ⊆ d.uses := by
  cases d with
  | enumeration t => exact List.nil_subset _
  | _ => exact List.Subset.refl _

theorem Schema.isIdentifier_of_mem_names {name version : String} {declared : List TypeDef}
    {s : Schema} (h : build name version declared = .ok s) {n : String}
    (hn : n ∈ s.definitions.map TypeDef.name) : Text.isIdentifier n = true := by
  obtain ⟨-, -, hcoherent, -, rfl, -⟩ := build_eq_ok_iff.1 h
  rcases mem_names_iff.1 hn with ⟨b, rfl⟩ | ⟨d, hd, rfl⟩
  · cases b <;> rfl
  · exact hcoherent.identifiers d hd

/-- What holds of the builtins holds of the whole schema if it holds of the declared types. -/
theorem Schema.forall_ordered_iff {name version : String} {declared : List TypeDef} {s : Schema}
    (hs : Schema.build name version declared = .ok s)
    {P : TypeDef → Prop} (hbuiltin : ∀ b, P (.builtin b)) :
    (∀ d ∈ s.ordered, P d) ↔ ∀ d ∈ declared, P d := by
  obtain ⟨-, -, -, -, rfl, -⟩ := Schema.build_eq_ok_iff.1 hs
  have hlisted := (Schema.consistent_of_build hs).listed
  refine ⟨fun h d hd => h d (hlisted.mem_iff.2 (List.mem_append_right _ hd)), fun h d hd => ?_⟩
  rcases List.mem_append.1 (hlisted.mem_iff.1 hd) with hd | hd
  · obtain ⟨b, rfl⟩ := Schema.mem_builtins.1 hd
    exact hbuiltin b
  · exact h d hd

theorem Schema.Consistent.mem_of_split {s : Schema} {before after : List TypeDef} {d : TypeDef}
    (h : s.Consistent) (hsplit : s.ordered = before ++ d :: after) :
    (∀ e ∈ before, e ∈ s.definitions) ∧ d ∈ s.definitions := by
  have hall : ∀ e ∈ before ++ d :: after, e ∈ s.definitions :=
    fun e he => h.listed.mem_iff.1 (hsplit ▸ he)
  obtain ⟨hbefore, hrest⟩ := List.forall_mem_append.1 hall
  exact ⟨hbefore, hrest d List.mem_cons_self⟩

theorem Text.isIdentifierRest_of_mem {n : String} {c : Char} (h : Text.isIdentifier n = true)
    (hc : c ∈ n.toList) : Text.isIdentifierRest c = true := by
  unfold isIdentifier at h
  split at h
  · cases h
  · rename_i first rest hn
    rw [Bool.and_eq_true] at h
    rw [hn] at hc
    rcases List.mem_cons.1 hc with rfl | hc
    · have hstart := h.1
      simp only [isIdentifierStart, isIdentifierRest, Char.isAlphanum, Bool.or_eq_true] at hstart ⊢
      exact hstart.imp_left .inl
    · exact List.all_eq_true.1 h.2 c hc

section
variable {ctx : RenderContext} {d : TypeDef}

namespace Target.C

theorem reference_builtin (h : ctx.Renders backend) (b : Builtin) :
    ctx.reference b.name = .ok (primitive b) :=
  h.reference_eq (List.mem_append_left _ (Schema.mem_builtins.2 ⟨b, rfl⟩))

theorem mem_callees_iff (h : ctx.Renders backend)
    (hnames : ∀ n ∈ d.references, Text.isIdentifier n = true) {code : Code}
    (hcode : ctx.pack d = .ok code ∨ ctx.unpack d = .ok code) (n : String) :
    n ∈ callees code ↔ n ∈ d.uses := by
  have hparen : ∀ n ∈ d.references, '(' ∉ n.toList :=
    fun n hn hc => absurd (Text.isIdentifierRest_of_mem (hnames n hn) hc) (by decide)
  rw [h.pack_eq, h.unpack_eq] at hcode
  rcases hcode with hpack | hunpack
  · exact mem_callees_pack hparen (reference_builtin h) hpack
  · exact mem_callees_unpack hparen (reference_builtin h) hunpack

end Target.C

namespace Target.Ruby

/-- A class inherits from one of the runtime or from that of a type in use. -/
theorem superclass_eq_ok {parent : String} (h : superclass ctx d = .ok parent) :
    parent = "Wire::Builtin" ∨ parent = "Wire::Type" ∨
      ∃ n ∈ d.uses, ctx.reference n = .ok parent := by
  cases d with
  | builtin b => exact .inl (Except.ok.inj h).symm
  | scalar t => exact .inr (.inr ⟨t.builtin.name, List.mem_cons_self, h⟩)
  | _ => exact .inr (.inl (Except.ok.inj h).symm)

end Target.Ruby

end
end WireCodec
