import Mathlib.Data.List.TakeWhile
import WireCodec.Proofs.Runs
import WireCodec.Target.Page

/-!
# Margins

A program of steps is a tree.  Read from left to right it is a list of requests to its page, each
with the number of bodies around it.  The page serves them up to the first fault, and is then at the
depth at which it was before.

* `Page.Request`               a line, an empty line, or the end with a fault;
* `Page.requests`              what steps ask for, in order, whether it comes to that or not;
* `Page.serveAll`              lines put on a page at their margins;
* `Page.fault?`, `Page.upToFault`   the first fault among requests, and the requests in front of it;
* `Page.write_eq_perform`      a step does what its requests up to the first fault ask for;
* `Page.attemptAll`            steps tried one after the other, those that fail included;
* `Page.attemptAll_restores`   after each of them the page is at the depth of the beginning.
-/

namespace WireCodec.Page

/-! ## Requests -/

/-- What a program asks of its page: a line with `around` bodies around it, an empty line, or to end
with a fault. -/
inductive Request (ε : Type)
  | line (around : Nat) (text : String)
  | blank
  | fail (error : ε)

section
variable {ε : Type}

namespace Request

def deeper : Request ε → Request ε
  | line around text => line (around + 1) text
  | blank => blank
  | fail error => fail error

def fault? : Request ε → Option ε
  | fail error => some error
  | _ => none

theorem fault?_deeper (r : Request ε) : r.deeper.fault? = r.fault? := by
  cases r <;> rfl

end Request

def fault? (requests : List (Request ε)) : Option ε :=
  requests.findSome? Request.fault?

def upToFault (requests : List (Request ε)) : List (Request ε) :=
  requests.takeWhile fun r => r.fault?.isNone

/-- A page after a request.  A line that is not empty gets the unit of the page in front, once for
each level of the page and for each body around the line. -/
def serve (p : Page) : Request ε → Page
  | .line around text =>
    let stored := if text = "" then "" else margin p.unit (p.depth + around) ++ text
    { p with lines := p.lines.push stored }
  | .blank => p.blank
  | .fail _ => p

def serveAll (p : Page) (requests : List (Request ε)) : Page :=
  requests.foldl serve p

/-- The lines of a section that was written apart, or its fault. -/
def sectionRequests (unit : String) (requests : List (Request ε)) : List (Request ε) :=
  match fault? requests with
  | some error => [.fail error]
  | none => ((Page.new unit).serveAll requests).lines.toList.map (.line 0)

mutual

/-- What a step asks for, from left to right, as if nothing failed. -/
def Step.requests : Step ε → List (Request ε)
  | .line text => [.line 0 text]
  | .blank => [.blank]
  | .indented body => (Page.requests body).map .deeper
  | .braces opening closing body =>
    [.line 0 opening] ++ (Page.requests body).map .deeper ++ [.line 0 closing]
  | .append unit body => sectionRequests unit (Page.requests body)
  | .fail error => [.fail error]

def requests : List (Step ε) → List (Request ε)
  | [] => []
  | step :: steps => step.requests ++ requests steps

end

/-- Requests are served up to the first fault, which ends the program. -/
def perform (requests : List (Request ε)) : EStateM ε Page Unit := fun p =>
  match fault? requests with
  | some error => .error error (p.serveAll (upToFault requests))
  | none => .ok () (p.serveAll (upToFault requests))

/-! ## Requests one after the other -/

theorem perform_cons {r : Request ε} (h : r.fault? = none) (rs : List (Request ε)) (p : Page) :
    perform (r :: rs) p = perform rs (p.serve r) := by
  have hfault : fault? (r :: rs) = fault? rs := List.findSome?_cons_of_isNone (by rw [h]; rfl)
  have hfront : upToFault (r :: rs) = r :: upToFault rs :=
    List.takeWhile_cons_of_pos (by rw [h]; rfl)
  unfold perform
  rw [hfault, hfront]
  rfl

theorem perform_append (rs rs' : List (Request ε)) :
    perform (rs ++ rs') = (perform rs >>= fun _ => perform rs') := by
  funext p
  show _ = EStateM.bind (perform rs) (fun _ => perform rs') p
  induction rs generalizing p with
  | nil => rfl
  | cons r rs ih =>
    -- A fault ends both sides at once; any other request is served in front of the rest.
    cases r with
    | fail error => rfl
    | _ =>
      rw [List.cons_append, perform_cons rfl, ih]
      unfold EStateM.bind
      rw [perform_cons rfl]

theorem upToFault_eq_self {rs : List (Request ε)} (h : fault? rs = none) : upToFault rs = rs := by
  refine List.takeWhile_eq_self_iff.2 fun r hr => ?_
  exact Option.isNone_iff_eq_none.2 (List.findSome?_eq_none_iff.1 h r hr)

theorem perform_of_fault?_eq_none {rs : List (Request ε)} (h : fault? rs = none) (p : Page) :
    perform rs p = .ok () (p.serveAll rs) := by
  unfold perform
  rw [h, upToFault_eq_self h]

theorem perform_of_fault?_eq_some {rs : List (Request ε)} {e : ε} (h : fault? rs = some e)
    (p : Page) : perform rs p = .error e (p.serveAll (upToFault rs)) := by
  unfold perform
  rw [h]

/-! ## Depth -/

theorem depth_serve (p : Page) (r : Request ε) : (p.serve r).depth = p.depth := by
  cases r with
  | line around text => rfl
  | blank =>
    show p.blank.depth = p.depth
    unfold blank
    split <;> rfl
  | fail error => rfl

theorem depth_serveAll (p : Page) (rs : List (Request ε)) : (p.serveAll rs).depth = p.depth := by
  induction rs generalizing p with
  | nil => rfl
  | cons r rs ih => exact (ih (p.serve r)).trans (depth_serve p r)

def inside (p : Page) : Page :=
  { p with depth := p.depth + 1 }

/-- A body more around a request counts as much as a level more of the page. -/
theorem serve_inside (p : Page) (r : Request ε) : p.inside.serve r = (p.serve r.deeper).inside := by
  cases r with
  | line around text =>
    show Page.mk _ (p.lines.push (if _ then _ else margin p.unit (p.depth + 1 + around) ++ text)) _ =
      Page.mk _ (p.lines.push (if _ then _ else margin p.unit (p.depth + (around + 1)) ++ text)) _
    rw [Nat.add_right_comm p.depth 1 around, Nat.add_assoc p.depth around 1]
    rfl
  | blank =>
    have hends : p.inside.endsBlank = p.endsBlank := rfl
    show p.inside.blank = p.blank.inside
    unfold blank
    rw [hends]
    split <;> rfl
  | fail error => rfl

theorem serveAll_inside (p : Page) (rs : List (Request ε)) :
    p.inside.serveAll rs = (p.serveAll (rs.map .deeper)).inside := by
  unfold serveAll
  rw [List.foldl_map]
  exact List.foldl_hom inside fun q r => serve_inside q r

theorem fault?_deeper (rs : List (Request ε)) : fault? (rs.map .deeper) = fault? rs := by
  unfold fault?
  rw [List.findSome?_map]
  congr 1
  funext r
  exact r.fault?_deeper

theorem upToFault_deeper (rs : List (Request ε)) :
    upToFault (rs.map .deeper) = (upToFault rs).map .deeper := by
  unfold upToFault
  rw [List.takeWhile_map]
  congr 2
  funext r
  exact congrArg Option.isNone r.fault?_deeper

/-! ## Steps -/

theorem fault?_lines (texts : List String) :
    fault? (texts.map (.line 0) : List (Request ε)) = none := by
  simp [fault?, Request.fault?]

theorem serveAll_lines (p : Page) (texts : List String) :
    p.serveAll (texts.map (.line 0) : List (Request ε)) = texts.foldl line p :=
  List.foldl_map

theorem write_line_eq (text : String) : (Step.line text : Step ε).write = perform [.line 0 text] :=
  funext (Step.write_line text)

section
variable {body : List (Step ε)} {p q : Page} {u : Unit} {e : ε}

theorem write_indented_of_ok (h : writeAll body p.inside = .ok u q) :
    (Step.indented body).write p = .ok () { q with depth := q.depth - 1 } := by
  unfold inside at h
  rw [Step.write]
  simp only [h]

theorem write_indented_of_error (h : writeAll body p.inside = .error e q) :
    (Step.indented body).write p = .error e { q with depth := q.depth - 1 } := by
  unfold inside at h
  rw [Step.write]
  simp only [h]

end

/-- The closing line comes behind the body, so it is only written if the body does not fail. -/
theorem write_braces (opening closing : String) (body : List (Step ε)) :
    (Step.braces opening closing body).write = ((Step.line opening).write >>= fun _ =>
      (Step.indented body).write >>= fun _ => (Step.line closing).write) := by
  funext p
  rw [bind_of_ok (Step.write_line opening p)]
  cases hbody : writeAll body (p.line opening).inside with
  | ok u q =>
    rw [bind_of_ok (write_indented_of_ok hbody), Step.write_line]
    unfold inside at hbody
    rw [Step.write]
    simp only [hbody]
  | error e q =>
    rw [bind_of_error (write_indented_of_error hbody)]
    unfold inside at hbody
    rw [Step.write]
    simp only [hbody]

section
variable {body : List (Step ε)} (h : writeAll body = perform (requests body))
include h

theorem write_indented : (Step.indented body).write = perform ((requests body).map .deeper) := by
  funext p
  have hdeeper := fault?_deeper (requests body)
  -- The page that the body leaves is a level deeper, and both ways out take that level back.
  cases hfault : fault? (requests body) with
  | none =>
    rw [hfault] at hdeeper
    rw [perform_of_fault?_eq_none hdeeper]
    apply write_indented_of_ok (u := ()) (q := (p.serveAll ((requests body).map .deeper)).inside)
    rw [h, perform_of_fault?_eq_none hfault, serveAll_inside]
  | some error =>
    rw [hfault] at hdeeper
    rw [perform_of_fault?_eq_some hdeeper, upToFault_deeper]
    apply write_indented_of_error
      (q := (p.serveAll ((upToFault (requests body)).map .deeper)).inside)
    rw [h, perform_of_fault?_eq_some hfault, serveAll_inside]

theorem write_append (unit : String) :
    (Step.append unit body).write = perform (sectionRequests unit (requests body)) := by
  funext p
  rw [Step.write, h]
  unfold sectionRequests
  cases hfault : fault? (requests body) with
  | none =>
    simp only [perform_of_fault?_eq_none hfault]
    rw [perform_of_fault?_eq_none (fault?_lines _), serveAll_lines]
    unfold append
    rw [Array.foldl_toList]
  | some error =>
    simp only [perform_of_fault?_eq_some hfault]
    rfl

end

mutual

/-- A step serves its requests up to the first fault. -/
theorem write_eq_perform (step : Step ε) : step.write = perform step.requests := by
  cases step with
  | line text =>
    rw [Step.requests]
    exact write_line_eq text
  | blank =>
    rw [Step.write, Step.requests]
    rfl
  | indented body =>
    rw [Step.requests]
    exact write_indented (writeAll_eq_perform body)
  | braces opening closing body =>
    rw [write_braces, write_indented (writeAll_eq_perform body), write_line_eq, write_line_eq,
      Step.requests, perform_append, perform_append, bind_assoc]
  | append unit body =>
    rw [Step.requests]
    exact write_append (writeAll_eq_perform body) unit
  | fail error =>
    rw [Step.write, Step.requests]
    rfl

theorem writeAll_eq_perform (steps : List (Step ε)) : writeAll steps = perform (requests steps) := by
  cases steps with
  | nil =>
    rw [writeAll, requests]
    rfl
  | cons step steps =>
    rw [writeAll, requests, perform_append, write_eq_perform step, writeAll_eq_perform steps]

end

/-! ## Steps tried one after the other -/

/-- How steps end that are tried one after the other, and the page that they leave.  A step that
fails does not keep the next one from being tried. -/
def attemptAll : List (Step ε) → Page → List (Except ε Unit) × Page
  | [], p => ([], p)
  | step :: steps, p =>
    match step.write p with
    | .ok _ q => (.ok () :: (attemptAll steps q).1, (attemptAll steps q).2)
    | .error e q => (.error e :: (attemptAll steps q).1, (attemptAll steps q).2)

def outcome (requests : List (Request ε)) : Except ε Unit :=
  match fault? requests with
  | some error => .error error
  | none => .ok ()

theorem attemptAll_cons (step : Step ε) (steps : List (Step ε)) (p : Page) :
    let q := p.serveAll (upToFault step.requests)
    attemptAll (step :: steps) p =
      (outcome step.requests :: (attemptAll steps q).1, (attemptAll steps q).2) := by
  intro q
  rw [attemptAll, write_eq_perform]
  unfold outcome
  cases hfault : fault? step.requests with
  | none => rw [perform_of_fault?_eq_none hfault, ← upToFault_eq_self hfault]
  | some error => rw [perform_of_fault?_eq_some hfault]

theorem attemptAll_eq (steps : List (Step ε)) (p : Page) :
    attemptAll steps p = (steps.map fun step => outcome step.requests,
      p.serveAll (steps.flatMap fun step => upToFault step.requests)) := by
  induction steps generalizing p with
  | nil => rfl
  | cons step steps ih =>
    rw [attemptAll_cons, ih, List.map_cons, List.flatMap_cons]
    unfold serveAll
    rw [List.foldl_append]

/-- However steps end, after each of them the page is at the depth of the beginning.  Each leaves
what it asks for up to its first fault: lines at the margin that the page and the bodies around
them give, and none from behind the fault, closing lines included. -/
theorem attemptAll_restores (steps : List (Step ε)) (p : Page) :
    (∀ tried, (attemptAll (steps.take tried) p).2.depth = p.depth) ∧
    (attemptAll steps p).1 = steps.map (fun step => outcome step.requests) ∧
    (attemptAll steps p).2 = p.serveAll (steps.flatMap fun step => upToFault step.requests) := by
  refine ⟨?_, ?_, ?_⟩
  · intro tried
    rw [attemptAll_eq]
    exact depth_serveAll p _
  · rw [attemptAll_eq]
  · rw [attemptAll_eq]

end

/-- A class whose method fails within an indented part, and a line behind it. -/
example :
    let method : List (Step String) := [.line "x", .indented [.line "y", .fail "no", .line "z"]]
    let steps := [.braces "class A" "end" [.braces "def a" "end" method, .blank], .line "top"]
    attemptAll steps (Page.new "  ") =
      ([.error "no", .ok ()],
        ⟨"  ", #["class A", "  def a", "    x", "      y", "top"], 0⟩) := by
  rfl

end WireCodec.Page
