/-!
# Pages of source text

A page is a list of lines with a current depth of indentation.  A program of steps writes on it.
A step may fail: that aborts every body around it, keeps the lines written so far and restores
the depth.  Steps that cannot fail have no faults to choose from.
-/

namespace WireCodec

structure Page where
  /-- What indents a line by one level. -/
  unit : String
  lines : Array String
  depth : Nat
  deriving DecidableEq, Repr

namespace Page

/-- An empty page. -/
def new (unit : String) : Page :=
  ⟨unit, #[], 0⟩

/-- The text in front of a line at a depth. -/
def margin (unit : String) (depth : Nat) : String :=
  String.join (List.replicate depth unit)

/-- Writes a line at the current depth.  An empty line is not indented. -/
def line (p : Page) (text : String) : Page :=
  { p with lines := p.lines.push (if text = "" then "" else margin p.unit p.depth ++ text) }

/-- The page is empty or ends with an empty line. -/
def endsBlank (p : Page) : Bool :=
  match p.lines.back? with
  | none => true
  | some last => last = ""

/-- Writes an empty line unless the page is empty or ends with one. -/
def blank (p : Page) : Page :=
  if p.endsBlank then p else { p with lines := p.lines.push "" }

/-- Writes every line of another page at the current depth. -/
def append (p other : Page) : Page :=
  other.lines.foldl line p

def isEmpty (p : Page) : Bool :=
  p.lines.isEmpty

/-- The lines without empty ones at the end, each closed by a line break. -/
def text (p : Page) : String :=
  let lines := (p.lines.toList.reverse.dropWhile (· = "")).reverse
  String.intercalate "\n" lines ++ "\n"

/-- One step of writing; `ε` are the faults that a step may end with. -/
inductive Step (ε : Type)
  | line (text : String)
  | blank
  | indented (body : List (Step ε))
  | braces (opening closing : String) (body : List (Step ε))
  | append (unit : String) (body : List (Step ε))
  | fail (error : ε)

section
variable {ε : Type}

mutual

/-- Writes a step on a page. -/
def Step.write : Step ε → EStateM ε Page Unit
  | .line text => modify fun p => p.line text
  | .blank => modify Page.blank
  | .indented body => fun p =>
    match writeAll body { p with depth := p.depth + 1 } with
    | .ok _ q => .ok () { q with depth := q.depth - 1 }
    | .error e q => .error e { q with depth := q.depth - 1 }
  | .braces opening closing body => fun p =>
    let p := p.line opening
    match writeAll body { p with depth := p.depth + 1 } with
    | .ok _ q => .ok () (Page.line { q with depth := q.depth - 1 } closing)
    | .error e q => .error e { q with depth := q.depth - 1 }
  | .append unit body => fun p =>
    match writeAll body (Page.new unit) with
    | .ok _ q => .ok () (p.append q)
    | .error e _ => .error e p
  | .fail error => throw error

/-- Writes steps one after the other, up to the first that fails. -/
def writeAll : List (Step ε) → EStateM ε Page Unit
  | [] => pure ()
  | step :: steps => do
    step.write
    writeAll steps

end

theorem Step.write_line (text : String) (p : Page) :
    (Step.line text : Step ε).write p = .ok () (p.line text) := by
  rw [Step.write]
  rfl

end

/-- The page that steps give on an empty one.  There is no fault that they could end with. -/
def ofSteps (unit : String) (steps : List (Step Empty)) : Page :=
  match writeAll steps (Page.new unit) with
  | .ok _ p => p
  | .error e _ => e.elim

end Page
end WireCodec
