import WireCodec.Schema.TypeDef

/-!
# Dependency order

Positions of a list of definitions are ordered such that each comes after the positions it refers
to.  The order is the one in which a depth-first walk leaves the positions, so it keeps the
declaration order wherever references allow it.  A walk that meets a position it has not left yet
has found a cycle.
-/

namespace WireCodec

/-- The part of a walk from the last visit of `p` to `p` again; `path` lists the open positions,
the innermost first. -/
def closeCycle (path : List Nat) (p : Nat) : List Nat :=
  p :: ((path.takeWhile (· ≠ p)).reverse ++ [p])

/-- Walks everything that `p` refers to and then leaves `p`.  `path` lists the open positions and
`done` the ones left, each the latest first.  `depth` bounds the length of a path; it is never
used up, because the positions on a path are distinct. -/
def visit (edges : Nat → List Nat) :
    (depth : Nat) → (path done : List Nat) → (p : Nat) → Except (List Nat) (List Nat)
  | depth, path, done, p =>
    if p ∈ done then .ok done
    else if p ∈ path then .error (closeCycle path p)
    else
      match depth with
      | 0 => .ok done
      | depth + 1 => do
        let done ← (edges p).foldlM (visit edges depth (p :: path)) done
        .ok (p :: done)

/-- The positions below `size`, each after those it has an edge to, or a cycle of edges. -/
def dependencyOrder (size : Nat) (edges : Nat → List Nat) : Except (List Nat) (List Nat) := do
  let done ← (List.range size).foldlM (visit edges size []) []
  .ok done.reverse

/-- The positions that the definition at `p` refers to.  Names without a position are passed
over. -/
def referenceEdges (defs : Array TypeDef) (position : String → Option Nat) (p : Nat) : List Nat :=
  match defs[p]? with
  | none => []
  | some d => d.references.filterMap position

/-- Orders the positions of `defs` by their references.  A cycle is reported by the names on
it. -/
def resolve (defs : Array TypeDef) (position : String → Option Nat) :
    Except SchemaError (List Nat) :=
  match dependencyOrder defs.size (referenceEdges defs position) with
  | .ok order => .ok order
  | .error cycle => .error (.cyclic (cycle.filterMap fun p => defs[p]?.map TypeDef.name))

end WireCodec
