import WireCodec.Proofs.Constants

/-!
# Lines of Ruby classes

The class of a type holds constants and methods.  Its lines are fixed ones, and lines with a number,
the names of entries or references to other classes at fixed places.  No line opens a class.

* `Page.statements_eq_nil`          steps that leave a page empty have no statements;
* `Target.Ruby.opened?`             the name that a line declares a class or module with;
* `Target.Ruby.ambient`             the constants that come with the language;
* `Target.Ruby.BodyLine`            the lines that the class of a type may have;
* `Target.Ruby.bodyLines_declaration`, `bodyLines_pack`, `bodyLines_unpack`
                                    what builders write has no others.
-/

namespace WireCodec

/-! ## Lines of a page -/

namespace Page

theorem size_line (p : Page) (text : String) : (p.line text).lines.size = p.lines.size + 1 :=
  Array.size_push _

theorem size_blank_ge (p : Page) : p.lines.size ≤ p.blank.lines.size := by
  unfold blank
  split
  · exact Nat.le_refl _
  · show _ ≤ (p.lines.push "").size
    rw [Array.size_push]
    omega

theorem size_append (p q : Page) : (p.append q).lines.size = p.lines.size + q.lines.size := by
  unfold append
  have hsize : q.lines.size = q.lines.toList.length := Array.length_toList.symm
  rw [← Array.foldl_toList, hsize]
  generalize q.lines.toList = texts
  induction texts generalizing p with
  | nil => rfl
  | cons text texts ih =>
    rw [List.foldl_cons, ih, size_line, List.length_cons]
    omega

mutual

/-- A step writes a line for each of its statements, if not more. -/
theorem write_size_le (step : CodeStep) (p : Page) :
    ∃ q, step.write p = .ok () q ∧ p.lines.size + step.statements.length ≤ q.lines.size := by
  cases step with
  | line text => exact ⟨p.line text, rfl, Nat.le_of_eq (size_line p text).symm⟩
  | blank => exact ⟨p.blank, rfl, size_blank_ge p⟩
  | indented body =>
    obtain ⟨q, hq, hsize⟩ := writeAll_size_le body { p with depth := p.depth + 1 }
    refine ⟨{ q with depth := q.depth - 1 }, ?_, hsize⟩
    rw [Step.write]
    simp only [hq]
  | braces opening closing body =>
    obtain ⟨q, hq, hsize⟩ :=
      writeAll_size_le body { p.line opening with depth := (p.line opening).depth + 1 }
    refine ⟨Page.line { q with depth := q.depth - 1 } closing, ?_, ?_⟩
    · rw [Step.write]
      simp only [hq]
    · rw [size_line, Step.statements, List.length_cons, List.length_append, List.length_singleton]
      change (p.line opening).lines.size + _ ≤ q.lines.size at hsize
      rw [size_line] at hsize
      show _ ≤ q.lines.size + 1
      omega
  | append unit body =>
    obtain ⟨q, hq, hsize⟩ := writeAll_size_le body (Page.new unit)
    refine ⟨p.append q, ?_, ?_⟩
    · rw [Step.write]
      simp only [hq]
    · rw [size_append, Step.statements]
      change 0 + _ ≤ _ at hsize
      omega
  | fail e => exact e.elim

theorem writeAll_size_le (steps : Code) (p : Page) :
    ∃ q, writeAll steps p = .ok () q ∧ p.lines.size + (statements steps).length ≤ q.lines.size := by
  cases steps with
  | nil => exact ⟨p, rfl, Nat.le_refl _⟩
  | cons step steps =>
    obtain ⟨q, hq, hstep⟩ := write_size_le step p
    obtain ⟨q', hq', hsteps⟩ := writeAll_size_le steps q
    refine ⟨q', ?_, ?_⟩
    · rw [writeAll, bind_of_ok hq, hq']
    · rw [statements, List.length_append]
      omega

end

/-- Steps that leave a page empty have no statements. -/
theorem statements_eq_nil {unit : String} {steps : Code}
    (h : (ofSteps unit steps).isEmpty = true) : statements steps = [] := by
  obtain ⟨q, hq, hsize⟩ := writeAll_size_le steps (Page.new unit)
  have hpage : ofSteps unit steps = q := by
    unfold ofSteps
    rw [hq]
  rw [hpage, isEmpty, Array.isEmpty_iff_size_eq_zero] at h
  change 0 + _ ≤ _ at hsize
  exact List.eq_nil_of_length_eq_zero (by omega)

theorem statements_flatten (codes : List Code) :
    statements codes.flatten = codes.flatMap statements := by
  induction codes with
  | nil => rfl
  | cons code codes ih => rw [List.flatten_cons, statements_append, ih, List.flatMap_cons]

end Page

section
variable {a b : Char} {cs tail : List Char}

theorem ne_marks (ha : Text.isIdentifierRest a = false) (hb : Text.isIdentifierRest b = false)
    (hcs : ∀ c ∈ cs, Text.isIdentifierRest c = true) :
    ∀ c ∈ cs, (decide (c ≠ a) && decide (c ≠ b)) = true := by
  intro c hc
  have hrest := hcs c hc
  have hne : c ≠ a ∧ c ≠ b := by
    constructor
    · rintro rfl
      rw [ha] at hrest
      cases hrest
    · rintro rfl
      rw [hb] at hrest
      cases hrest
  rw [decide_eq_true hne.1, decide_eq_true hne.2]
  rfl

/-- What has neither of two marks in it ends in front of one of them, or with the text. -/
theorem takeWhile_until (hcs : ∀ c ∈ cs, (decide (c ≠ a) && decide (c ≠ b)) = true)
    (htail : ∀ c ∈ tail.head?, c = a ∨ c = b) :
    (cs ++ tail).takeWhile (fun c => decide (c ≠ a) && decide (c ≠ b)) = cs := by
  rw [List.takeWhile_append_of_pos hcs]
  cases tail with
  | nil => exact List.append_nil _
  | cons c tail =>
    rw [List.takeWhile_cons_of_neg, List.append_nil]
    rcases htail c rfl with rfl | rfl <;> simp

end

namespace Target.Ruby

/-- What is read off parts one after the other, and is nothing for a part without statements, is
read off the parts of a class in turn. -/
theorem read_joinParts {read : Code → List String}
    (happend : ∀ front back, read (front ++ back) = read front ++ read back)
    (hblank : read [.blank] = []) (hpart : ∀ part, read [.append unit part] = read part)
    (hempty : ∀ part, Page.statements part = [] → read part = []) (parts : List Code) :
    read (joinParts parts) = parts.flatMap read := by
  have hinterspersed : ∀ parts : List Code,
      read ((parts.map fun part => [.append unit part]).intersperse [.blank]).flatten =
        parts.flatMap read := by
    intro parts
    induction parts with
    | nil => exact hempty [] rfl
    | cons part parts ih =>
      cases parts with
      | nil =>
        show read ([.append unit part] ++ []) = read part ++ []
        rw [List.append_nil, List.append_nil, hpart]
      | cons next parts =>
        show read ([.append unit part] ++ ([.blank] ++ _)) = _
        rw [happend, happend, hpart, hblank]
        exact congrArg (read part ++ ·) ih
  have hfiltered : (parts.filter fun part => !(Page.ofSteps unit part).isEmpty).flatMap read =
      parts.flatMap read := by
    clear hinterspersed
    induction parts with
    | nil => rfl
    | cons part parts ih =>
      rw [List.filter_cons, List.flatMap_cons]
      split
      · rw [List.flatMap_cons, ih]
      · next hpage =>
        rw [ih, hempty part (Page.statements_eq_nil (by simpa using hpage)), List.nil_append]
  rw [← hfiltered, ← hinterspersed]
  rfl

theorem statements_joinParts (parts : List Code) :
    Page.statements (joinParts parts) = parts.flatMap Page.statements :=
  read_joinParts Page.statements_append rfl (fun _ => List.append_nil _) (fun _ h => h) parts

/-! ## Classes and modules -/

/-- The name that characters of a line declare a class or module with, without the modules in
front. -/
def openedIn? (cs : List Char) : Option String :=
  (behind? ["class ", "module "] (cs.dropWhile (· = ' '))).map fun rest =>
    let path := rest.takeWhile fun c => c ≠ ' ' && c ≠ ';'
    String.ofList (path.reverse.takeWhile (· ≠ ':')).reverse

def opened? (line : String) : Option String := openedIn? line.toList

/-- What neither blanks nor the words `class` and `module` begin with. -/
def opensPlainly : List Char → Bool
  | [] => false
  | c :: _ => c ≠ ' ' && c ≠ 'c' && c ≠ 'm'

theorem opened?_eq_none {front : List Char} (h : opensPlainly front = true) (rest : String) :
    opened? (String.ofList front ++ rest) = none := by
  rw [opened?, String.toList_append, String.toList_ofList]
  cases front with
  | nil => cases h
  | cons c front =>
    have hc : c ≠ ' ' ∧ c ≠ 'c' ∧ c ≠ 'm' := by
      simpa [opensPlainly, and_assoc] using h
    obtain ⟨hblank, hclass, hmodule⟩ := hc
    have hbehind : behind? ["class ", "module "] (c :: (front ++ rest.toList)) = none := by
      simp [behind?, List.isPrefixOf?, hclass.symm, hmodule.symm]
    rw [openedIn?, List.cons_append, List.dropWhile_cons_of_neg (by simpa using hblank), hbehind]
    rfl

/-- A class or module, which may be one of the runtime. -/
theorem opened?_eq_some {word outer name tail : String} (hword : word ∈ ["class ", "module "])
    (houter : outer ∈ ["", "Wire::"])
    (hname : ∀ c ∈ name.toList, Text.isIdentifierRest c = true)
    (htail : ∀ c ∈ tail.toList.head?, c = ' ' ∨ c = ';') :
    opened? (word ++ (outer ++ (name ++ tail))) = some name := by
  have hline : (word ++ (outer ++ (name ++ tail))).toList =
      word.toList ++ (outer.toList ++ name.toList ++ tail.toList) := by
    simp only [String.toList_append, List.append_assoc]
  have hblanks : (word.toList ++ (outer.toList ++ name.toList ++ tail.toList)).dropWhile (· = ' ') =
      word.toList ++ (outer.toList ++ name.toList ++ tail.toList) := by
    rcases List.mem_pair.1 hword with rfl | rfl <;> rfl
  have hbehind : behind? ["class ", "module "]
      (word.toList ++ (outer.toList ++ name.toList ++ tail.toList)) =
        some (outer.toList ++ name.toList ++ tail.toList) := by
    rcases List.mem_pair.1 hword with rfl | rfl
    · simp [behind?, List.isPrefixOf?]
    · simp [behind?, List.isPrefixOf?]
  have hpath : ∀ c ∈ outer.toList ++ name.toList,
      (decide (c ≠ ' ') && decide (c ≠ ';')) = true := by
    refine List.forall_mem_append.2 ⟨?_, ne_marks rfl rfl hname⟩
    rcases List.mem_pair.1 houter with rfl | rfl
    · exact List.all_eq_true.1 rfl
    · exact List.all_eq_true.1 rfl
  have hcolon : ∀ c ∈ name.toList.reverse, decide (c ≠ ':') = true := by
    intro c hc
    refine decide_eq_true ?_
    rintro rfl
    exact absurd (hname _ (List.mem_reverse.1 hc)) (by decide)
  have hlast : (outer.toList ++ name.toList).reverse.takeWhile (fun c => decide (c ≠ ':')) =
      name.toList.reverse := by
    rw [List.reverse_append, List.takeWhile_append_of_pos hcolon]
    rcases List.mem_pair.1 houter with rfl | rfl
    · exact List.append_nil _
    · exact List.append_nil _
  rw [opened?, openedIn?, hline, hblanks, hbehind, Option.map_some]
  dsimp only
  rw [takeWhile_until hpath htail, hlast, List.reverse_reverse, String.ofList_toList]

/-! ## Lines of a class -/

def ambient : List String :=
  ["StandardError", "String", "Encoding", "Integer", "Numeric", "Array", "ArgumentError"]

def ownConstants : TypeDef → List String
  | .builtin b =>
    "WIDTH" :: if b.intRange.isSome then ["MIN", "MAX"] else if b = .float32 then ["LIMIT"] else []
  | .scalar _ => []
  | .enumeration _ => ["LABELS"]
  | .composite _ => ["FIELDS"]
  | .fixedArray _ => ["COUNT", "ELEMENT"]
  | .variableArray _ => ["MAX", "SIZE_TYPE", "ELEMENT"]
  | .group _ => ["VARIANTS", "TAG"]

/-- The constants that the class of a type may mention apart from other classes. -/
def familiar (d : TypeDef) : List String := ownConstants d ++ ("Wire" :: ambient)

/-- A whole line opens no class and mentions familiar constants only. -/
def isFixed (d : TypeDef) (cs : List Char) : Bool :=
  (openedIn? cs).isNone && (Scan.start.gather (cs ++ ['\n'])).all ((familiar d).contains ·)

/-- So does the front of a line, which ends with the code character `b`. -/
def isFront (d : TypeDef) (b : Char) (cs : List Char) : Bool :=
  let s := Scan.start.after cs
  opensPlainly cs && (s.within.isEmpty && s.before == b && s.word.isEmpty && !s.colon) &&
    (Scan.start.gather cs).all ((familiar d).contains ·)

/-- The back of a line ends the word in front of it and mentions familiar constants only. -/
def isBack (d : TypeDef) (cs : List Char) : Bool :=
  match cs ++ ['\n'] with
  | [] => false
  | c :: rest =>
    !Text.isIdentifierRest c && c ≠ ':' &&
      (Scan.gather ⟨Scan.enter [] c, c, [], false⟩ rest).all ((familiar d).contains ·)

def isNumeral (c : Char) : Bool :=
  c.isDigit || c == '-' || c == '.' || c == 'e'

/-- The lines that the class of a type may have; `Ref` are the references to types. -/
inductive BodyLine (d : TypeDef) (Ref : String → Prop) : String → Prop
  | fixed (cs : List Char) (h : isFixed d cs = true) : BodyLine d Ref (String.ofList cs)
  /-- A constant for a number. -/
  | value (front : List Char) (text : String) (hfront : isFront d ' ' front = true)
      (htext : text.toList.all isNumeral = true) : BodyLine d Ref (String.ofList front ++ text)
  /-- A constant for a class, or a call of one. -/
  | reference (front : List Char) (text : String) (back : List Char)
      (hfront : isFront d ' ' front = true) (hback : isBack d back = true) (htext : Ref text) :
      BodyLine d Ref (String.ofList front ++ text ++ String.ofList back)
  | symbols (front : List Char) (b : Char) (names : List String) (back : List Char)
      (hfront : isFront d b front = true) (hback : isBack d back = true)
      (hnames : ∀ n ∈ names, n ∈ d.entries) :
      BodyLine d Ref (String.ofList front ++ Ruby.symbols names ++ String.ofList back)
  | hash (front : List Char) (pairs : List (String × String)) (back : List Char)
      (hfront : isFront d ' ' front = true) (hback : isBack d back = true)
      (hpairs : ∀ p ∈ pairs, p.1 ∈ d.entries ∧ Ref p.2) :
      BodyLine d Ref (String.ofList front ++ ("\x7b " ++ String.intercalate ", "
        (pairs.map fun p => p.1 ++ ": " ++ p.2) ++ " \x7d") ++ String.ofList back)
  | packs (n : String) (hn : n ∈ d.entries) : BodyLine d Ref ("@" ++ n ++ ".pack_into(out)")
  | unpacks (n text : String) (hn : n ∈ d.entries) (htext : Ref text) :
      BodyLine d Ref ("fields[:" ++ n ++ "] = " ++ text ++ ".unpack_from(reader)")
  | packsTag (b : Builtin) :
      BodyLine d Ref ("Wire::" ++ builtinClass b ++ ".new(ordinal).pack_into(out)")

def BodyLines (d : TypeDef) (Ref : String → Prop) (code : Code) : Prop :=
  ∀ line ∈ Page.statements code, BodyLine d Ref line

section
variable {d : TypeDef} {Ref : String → Prop} {code front back body : Code}

theorem bodyLine_end : BodyLine d Ref "end" :=
  .fixed _ rfl

theorem bodyLine_of_toList {line : String} (h : isFixed d line.toList = true) :
    BodyLine d Ref line := by
  have hline : BodyLine d Ref (String.ofList line.toList) := .fixed _ h
  rwa [String.ofList_toList] at hline

theorem bodyLine_def (cs : List Char) (h : isFixed d ("def ".toList ++ cs) = true) :
    BodyLine d Ref ("def " ++ String.ofList cs) := by
  have hline : "def " ++ String.ofList cs = String.ofList ("def ".toList ++ cs) := by
    rw [String.ofList_append, String.ofList_toList]
  rw [hline]
  exact .fixed _ h

theorem bodyLine_assigned {text : String} (front : List Char) (hfront : isFront d ' ' front = true)
    (htext : Ref text) : BodyLine d Ref (String.ofList front ++ text) := by
  have hline : BodyLine d Ref (String.ofList front ++ text ++ String.ofList []) :=
    .reference front text [] hfront rfl htext
  rwa [String.ofList_nil, String.append_empty] at hline

theorem bodyLines_nil : BodyLines d Ref [] :=
  List.forall_mem_nil _

theorem bodyLines_append :
    BodyLines d Ref (front ++ back) ↔ BodyLines d Ref front ∧ BodyLines d Ref back := by
  unfold BodyLines
  rw [Page.statements_append, List.forall_mem_append]

theorem bodyLines_lines {texts : List String} :
    BodyLines d Ref (Code.lines texts) ↔ ∀ line ∈ texts, BodyLine d Ref line := by
  unfold BodyLines
  rw [Page.statements_lines]

theorem bodyLines_line {text : String} :
    BodyLines d Ref (.line text :: code) ↔ BodyLine d Ref text ∧ BodyLines d Ref code := by
  unfold BodyLines
  rw [Page.statements_cons]
  exact List.forall_mem_cons

theorem bodyLines_blank : BodyLines d Ref (.blank :: code) ↔ BodyLines d Ref code := by
  unfold BodyLines
  rw [Page.statements_cons]
  rfl

theorem bodyLines_closed {head : String} :
    BodyLines d Ref (closed head body :: code) ↔
      BodyLine d Ref head ∧ BodyLines d Ref body ∧ BodyLines d Ref code := by
  unfold BodyLines
  rw [Page.statements_cons]
  show (∀ line ∈ (head :: (Page.statements body ++ ["end"])) ++ Page.statements code, _) ↔ _
  rw [List.cons_append, List.append_assoc, List.forall_mem_cons, List.forall_mem_append]
  show _ ∧ _ ∧ (∀ line ∈ "end" :: Page.statements code, _) ↔ _
  rw [List.forall_mem_cons, and_iff_right bodyLine_end]

theorem bodyLines_method {signature : String} :
    BodyLines d Ref (method signature body :: code) ↔
      BodyLine d Ref ("def " ++ signature) ∧ BodyLines d Ref body ∧ BodyLines d Ref code :=
  bodyLines_closed

theorem bodyLines_closedLine {head text : String} :
    BodyLines d Ref (closed head (Code.lines [text]) :: code) ↔
      BodyLine d Ref head ∧ BodyLine d Ref text ∧ BodyLines d Ref code := by
  rw [bodyLines_closed, bodyLines_lines, List.forall_mem_singleton]

theorem bodyLines_methodLine {signature text : String} :
    BodyLines d Ref (method signature (Code.lines [text]) :: code) ↔
      BodyLine d Ref ("def " ++ signature) ∧ BodyLine d Ref text ∧ BodyLines d Ref code :=
  bodyLines_closedLine

theorem bodyLines_packMethod {texts : List String} :
    BodyLines d Ref (packMethod texts) ↔ ∀ line ∈ texts, BodyLine d Ref line := by
  rw [packMethod, bodyLines_method, bodyLines_lines, and_iff_right (bodyLine_def _ rfl),
    and_iff_left bodyLines_nil]

theorem bodyLines_unpackMethod :
    BodyLines d Ref (unpackMethod body) ↔ BodyLines d Ref body := by
  rw [unpackMethod, bodyLines_method, and_iff_right (bodyLine_def _ rfl),
    and_iff_left bodyLines_nil]

/-! ## Builders -/

theorem isNumeral_nat (n : Nat) : (toString n).toList.all isNumeral = true := by
  rw [List.all_eq_true]
  intro c hc
  rw [Nat.toString_eq_repr, Nat.toList_repr] at hc
  have hdigit := Nat.isDigit_of_mem_toDigits (by decide) (by decide) hc
  rw [isNumeral, hdigit]
  rfl

theorem isNumeral_int (n : Int) : (toString n).toList.all isNumeral = true := by
  cases n with
  | ofNat n => exact isNumeral_nat n
  | negSucc n =>
    show ("-" ++ toString (n + 1)).toList.all isNumeral = true
    rw [String.toList_append, List.all_append, isNumeral_nat]
    rfl

theorem bodyLines_range {b : Builtin} {least greatest : Int}
    (h : b.intRange = some (least, greatest)) :
    BodyLines (.builtin b) Ref (Code.lines [s!"MIN = {least}", s!"MAX = {greatest}"]) := by
  have hfront : isFront (.builtin b) ' ' "MIN = ".toList = true ∧
      isFront (.builtin b) ' ' "MAX = ".toList = true := by
    have hown : familiar (.builtin b) = ["WIDTH", "MIN", "MAX"] ++ ("Wire" :: ambient) := by
      rw [familiar, ownConstants, h]
      rfl
    unfold isFront
    rw [hown]
    exact ⟨rfl, rfl⟩
  rw [bodyLines_lines, List.forall_mem_cons, List.forall_mem_singleton]
  exact ⟨.value _ _ hfront.1 (isNumeral_int least), .value _ _ hfront.2 (isNumeral_int greatest)⟩

theorem bodyLines_builtinDeclaration (b : Builtin) :
    BodyLines (.builtin b) Ref (builtinDeclaration b) := by
  have hwidth : BodyLine (.builtin b) Ref s!"WIDTH = {b.byteLength}" := by
    refine .value "WIDTH = ".toList _ ?_ (isNumeral_nat b.byteLength)
    cases b <;> rfl
  refine bodyLines_line.2 ⟨hwidth, ?_⟩
  cases hrange : b.intRange with
  | some range => exact bodyLines_range hrange
  | none =>
    dsimp only
    split
    · next hb =>
      cases hb
      refine bodyLines_line.2 ⟨.value "LIMIT = ".toList _ rfl rfl, bodyLines_blank.2 ?_⟩
      refine bodyLines_methodLine.2 ⟨bodyLine_def _ rfl, .fixed _ rfl, bodyLines_blank.2 ?_⟩
      refine bodyLines_method.2 ⟨bodyLine_def _ rfl, ?_, bodyLines_nil⟩
      rw [bodyLines_lines, List.forall_mem_cons, List.forall_mem_singleton]
      exact ⟨.fixed _ rfl, bodyLine_of_toList rfl⟩
    · next hne =>
      have hb : b = .float64 := by
        cases b <;> first | rfl | exact absurd rfl hne | cases hrange
      cases hb
      refine bodyLines_blank.2 (bodyLines_methodLine.2 ⟨bodyLine_def _ rfl, .fixed _ rfl, ?_⟩)
      refine bodyLines_blank.2 (bodyLines_method.2 ⟨bodyLine_def _ rfl, ?_, bodyLines_nil⟩)
      rw [bodyLines_lines, List.forall_mem_cons, List.forall_mem_singleton]
      exact ⟨.fixed _ rfl, .fixed _ rfl⟩

variable {refer : Referrer}

/-- Keys of a hash are names of fields, and its values refer to their types. -/
theorem exists_pairs_of_classHash {fields : List Field} {text : String}
    (h : classHash refer fields = .ok text)
    (hrefer : ∀ f ∈ fields, ∀ text, refer f.typeName = .ok text → Ref text) :
    ∃ pairs : List (String × String), (∀ p ∈ pairs, p.1 ∈ fieldNames fields ∧ Ref p.2) ∧
      text = "\x7b " ++ String.intercalate ", " (pairs.map fun p => p.1 ++ ": " ++ p.2) ++
        " \x7d" := by
  obtain ⟨entries, hentries, hend⟩ := except_bind_eq_ok_iff.1 h
  cases hend
  suffices hpairs : ∃ pairs : List (String × String),
      (∀ p ∈ pairs, p.1 ∈ fieldNames fields ∧ Ref p.2) ∧
        entries = pairs.map fun p => p.1 ++ ": " ++ p.2 by
    obtain ⟨pairs, hall, rfl⟩ := hpairs
    exact ⟨pairs, hall, rfl⟩
  have hlines := mapM_eq_ok_iff.1 hentries
  clear h hentries
  induction hlines with
  | nil => exact ⟨[], List.forall_mem_nil _, rfl⟩
  | @cons f entry fields entries hentry _ ih =>
    obtain ⟨hf, hfields⟩ := List.forall_mem_cons.1 hrefer
    obtain ⟨text, htext, hend⟩ := except_bind_eq_ok_iff.1 hentry
    obtain ⟨pairs, hall, rfl⟩ := ih hfields
    refine ⟨(f.name, text) :: pairs, List.forall_mem_cons.2 ⟨?_, fun p hp => ?_⟩, ?_⟩
    · exact ⟨List.mem_cons_self, hf text htext⟩
    · exact ⟨List.mem_cons_of_mem _ (hall p hp).1, (hall p hp).2⟩
    · rw [List.map_cons]
      exact congrArg (· :: _) (Except.ok.inj hend).symm

theorem bodyLines_arrayMembers {condition message : String}
    (hbytes : BodyLine d Ref "elements = elements.bytes if elements.is_a?(String)")
    (hconstruct : BodyLine d Ref
      "@elements = elements.map \x7b |element| ELEMENT.construct(element) \x7d")
    (hcondition : BodyLine d Ref condition) (hmessage : BodyLine d Ref message) :
    BodyLines d Ref (arrayMembers condition message) := by
  refine bodyLines_blank.2 (bodyLines_line.2 ⟨.fixed _ rfl, bodyLines_blank.2 ?_⟩)
  refine bodyLines_methodLine.2 ⟨bodyLine_def _ rfl, .fixed _ rfl, bodyLines_blank.2 ?_⟩
  refine bodyLines_method.2 ⟨bodyLine_def _ rfl, ?_, bodyLines_nil⟩
  refine bodyLines_line.2 ⟨hbytes, bodyLines_line.2 ⟨.fixed _ rfl, bodyLines_closedLine.2 ?_⟩⟩
  exact ⟨hcondition, hmessage, bodyLines_line.2 ⟨hconstruct, bodyLines_nil⟩⟩

theorem forall_mem_of_mapM {ε α β : Type} {f : α → Except ε β} {P : β → Prop} {xs : List α}
    {ys : List β} (h : xs.mapM f = .ok ys) (hf : ∀ x ∈ xs, ∀ y, f x = .ok y → P y) :
    ∀ y ∈ ys, P y := by
  have hall := mapM_eq_ok_iff.1 h
  clear h
  induction hall with
  | nil => exact List.forall_mem_nil _
  | cons hxy _ ih =>
    obtain ⟨hx, hxs⟩ := List.forall_mem_cons.1 hf
    exact List.forall_mem_cons.2 ⟨hx _ hxy, ih hxs⟩

theorem ite_bind_eq_ok_iff {ε α β : Type} {c : Prop} [Decidable c] {x y : Except ε α}
    {next : α → Except ε β} {b : β} :
    (if c then x >>= next else y >>= next) = .ok b ↔
      ∃ a, (if c then x else y) = .ok a ∧ next a = .ok b := by
  split <;> exact except_bind_eq_ok_iff

theorem bodyLines_enumerationDeclaration {t : Enumeration}
    (h : enumerationBuilder.declaration refer (.enumeration t) = .ok code) :
    BodyLines (.enumeration t) Ref code := by
  cases h
  refine bodyLines_line.2 ⟨?_, bodyLines_blank.2 (bodyLines_line.2 ⟨.fixed _ rfl, ?_⟩)⟩
  · exact .symbols "LABELS = [".toList '[' t.labels "].freeze".toList rfl rfl fun _ hn => hn
  · refine bodyLines_blank.2 (bodyLines_method.2 ⟨bodyLine_def _ rfl, ?_, bodyLines_blank.2 ?_⟩)
    · refine bodyLines_line.2 ⟨.fixed _ rfl, bodyLines_closedLine.2 ?_⟩
      exact ⟨.fixed _ rfl, .fixed _ rfl, bodyLines_line.2 ⟨.fixed _ rfl, bodyLines_nil⟩⟩
    · refine bodyLines_methodLine.2 ⟨bodyLine_def _ rfl, .fixed _ rfl, bodyLines_blank.2 ?_⟩
      exact bodyLines_methodLine.2 ⟨bodyLine_def _ rfl, .fixed _ rfl, bodyLines_nil⟩

theorem bodyLines_compositeDeclaration {t : Composite}
    (h : compositeBuilder.declaration refer (.composite t) = .ok code)
    (hrefer : ∀ n ∈ (TypeDef.composite t).cited, ∀ text, refer n = .ok text → Ref text) :
    BodyLines (.composite t) Ref code := by
  obtain ⟨_, ht, h⟩ := except_bind_eq_ok_iff.1 h
  cases ht
  obtain ⟨fields, hfields, hend⟩ := ite_bind_eq_ok_iff.1 h
  cases hend
  have hhash : BodyLine (.composite t) Ref s!"FIELDS = {fields}.freeze" := by
    split at hfields
    · cases hfields
      exact bodyLine_of_toList rfl
    · obtain ⟨pairs, hpairs, rfl⟩ := exists_pairs_of_classHash hfields fun f hf =>
        hrefer f.typeName (t.fields_mem_cited _ (List.mem_map_of_mem hf))
      exact .hash "FIELDS = ".toList pairs ".freeze".toList rfl rfl hpairs
  refine bodyLines_append.2 ⟨bodyLines_append.2 ⟨bodyLines_line.2 ⟨hhash, bodyLines_nil⟩, ?_⟩, ?_⟩
  · split
    · exact bodyLines_nil
    · refine bodyLines_blank.2 (bodyLines_line.2 ⟨?_, bodyLines_nil⟩)
      have hsymbols : BodyLine (.composite t) Ref
          (String.ofList "attr_reader ".toList ++ symbols (fieldNames t.fields) ++
            String.ofList []) :=
        .symbols _ ' ' _ _ rfl rfl fun _ hn => hn
      rwa [String.ofList_nil, String.append_empty] at hsymbols
  · refine bodyLines_blank.2 (bodyLines_method.2 ⟨bodyLine_def _ rfl, ?_, bodyLines_blank.2 ?_⟩)
    · rw [bodyLines_lines]
      simp only [List.forall_mem_cons]
      exact ⟨.fixed _ rfl, .fixed _ rfl, .fixed _ rfl, .fixed _ rfl, .fixed _ rfl, .fixed _ rfl,
        by simp⟩
    · exact bodyLines_methodLine.2 ⟨bodyLine_def _ rfl, .fixed _ rfl, bodyLines_nil⟩

theorem bodyLines_groupDeclaration {t : Group}
    (h : groupBuilder.declaration refer (.group t) = .ok code)
    (hrefer : ∀ n ∈ (TypeDef.group t).cited, ∀ text, refer n = .ok text → Ref text) :
    BodyLines (.group t) Ref code := by
  obtain ⟨_, ht, h⟩ := except_bind_eq_ok_iff.1 h
  cases ht
  obtain ⟨variants, hvariants, h⟩ := except_bind_eq_ok_iff.1 h
  obtain ⟨tag, htag, hend⟩ := except_bind_eq_ok_iff.1 h
  cases hend
  have hhash : BodyLine (.group t) Ref s!"VARIANTS = {variants}.freeze" := by
    obtain ⟨pairs, hpairs, rfl⟩ := exists_pairs_of_classHash hvariants fun v hv =>
      hrefer v.typeName (t.variants_mem_cited _ (List.mem_map_of_mem hv))
    exact .hash "VARIANTS = ".toList pairs ".freeze".toList rfl rfl hpairs
  have hassigned : BodyLine (.group t) Ref s!"TAG = {tag}" :=
    bodyLine_assigned "TAG = ".toList rfl (hrefer _ t.tag_mem_cited _ htag)
  refine bodyLines_line.2 ⟨hhash, bodyLines_line.2 ⟨hassigned, bodyLines_blank.2 ?_⟩⟩
  refine bodyLines_line.2 ⟨.fixed _ rfl, bodyLines_blank.2 ?_⟩
  refine bodyLines_method.2 ⟨bodyLine_def _ rfl, ?_, bodyLines_blank.2 ?_⟩
  · rw [bodyLines_lines]
    simp only [List.forall_mem_cons]
    exact ⟨.fixed _ rfl, .fixed _ rfl, .fixed _ rfl, .fixed _ rfl, .fixed _ rfl, .fixed _ rfl,
      by simp⟩
  · refine bodyLines_methodLine.2 ⟨bodyLine_def _ rfl, .fixed _ rfl, bodyLines_blank.2 ?_⟩
    exact bodyLines_methodLine.2 ⟨bodyLine_def _ rfl, .fixed _ rfl, bodyLines_nil⟩

theorem bodyLines_declaration (h : (builder d.kind).declaration refer d = .ok code)
    (hrefer : ∀ n ∈ d.cited, ∀ text, refer n = .ok text → Ref text) : BodyLines d Ref code := by
  cases d with
  | builtin b =>
    cases h
    exact bodyLines_builtinDeclaration b
  | scalar t =>
    cases h
    exact bodyLines_nil
  | enumeration t => exact bodyLines_enumerationDeclaration h
  | composite t => exact bodyLines_compositeDeclaration h hrefer
  | fixedArray t =>
    obtain ⟨_, ht, h⟩ := except_bind_eq_ok_iff.1 h
    cases ht
    obtain ⟨element, helement, hend⟩ := except_bind_eq_ok_iff.1 h
    cases hend
    refine bodyLines_append.2 ⟨?_, ?_⟩
    · rw [bodyLines_lines, List.forall_mem_cons, List.forall_mem_singleton]
      exact ⟨.value "COUNT = ".toList _ rfl (isNumeral_nat t.count),
        bodyLine_assigned "ELEMENT = ".toList rfl (hrefer _ t.element_mem_cited _ helement)⟩
    · exact bodyLines_arrayMembers (.fixed _ rfl) (.fixed _ rfl) (.fixed _ rfl) (.fixed _ rfl)
  | variableArray t =>
    obtain ⟨_, ht, h⟩ := except_bind_eq_ok_iff.1 h
    cases ht
    obtain ⟨size, hsize, h⟩ := except_bind_eq_ok_iff.1 h
    obtain ⟨element, helement, hend⟩ := except_bind_eq_ok_iff.1 h
    cases hend
    refine bodyLines_append.2 ⟨?_, ?_⟩
    · rw [bodyLines_lines, List.forall_mem_cons, List.forall_mem_cons, List.forall_mem_singleton]
      exact ⟨.value "MAX = ".toList _ rfl (isNumeral_nat t.max),
        bodyLine_assigned "SIZE_TYPE = ".toList rfl (hrefer _ t.size_mem_cited _ hsize),
        bodyLine_assigned "ELEMENT = ".toList rfl (hrefer _ t.element_mem_cited _ helement)⟩
    · exact bodyLines_arrayMembers (.fixed _ rfl) (.fixed _ rfl) (.fixed _ rfl) (.fixed _ rfl)
  | group t => exact bodyLines_groupDeclaration h hrefer

theorem bodyLines_pack (h : (builder d.kind).pack refer d = .ok code)
    (hbuiltin : ∀ b : Builtin, refer b.name = .ok ("Wire::" ++ builtinClass b)) :
    BodyLines d Ref code := by
  cases d with
  | builtin b =>
    cases h
    rw [bodyLines_packMethod, List.forall_mem_singleton]
    cases b <;> exact bodyLine_of_toList rfl
  | scalar t =>
    cases h
    exact bodyLines_nil
  | enumeration t =>
    obtain ⟨_, ht, h⟩ := except_bind_eq_ok_iff.1 h
    cases ht
    obtain ⟨tag, htag, hend⟩ := except_bind_eq_ok_iff.1 h
    cases hend
    rw [hbuiltin] at htag
    cases htag
    rw [bodyLines_packMethod, List.forall_mem_singleton]
    exact .packsTag t.tagType
  | composite t =>
    cases h
    rw [bodyLines_packMethod]
    intro line hline
    obtain ⟨f, hf, rfl⟩ := List.mem_map.1 hline
    exact .packs f.name (List.mem_map_of_mem hf)
  | fixedArray t =>
    cases h
    exact bodyLines_packMethod.2 (List.forall_mem_singleton.2 (.fixed _ rfl))
  | variableArray t =>
    cases h
    rw [bodyLines_packMethod, List.forall_mem_cons, List.forall_mem_singleton]
    exact ⟨.fixed _ rfl, .fixed _ rfl⟩
  | group t =>
    cases h
    rw [bodyLines_packMethod, List.forall_mem_cons, List.forall_mem_singleton]
    exact ⟨.fixed _ rfl, .fixed _ rfl⟩

theorem bodyLines_unpack (h : (builder d.kind).unpack refer d = .ok code)
    (hrefer : ∀ n ∈ d.cited, ∀ text, refer n = .ok text → Ref text) : BodyLines d Ref code := by
  cases d with
  | builtin b =>
    cases h
    rw [bodyLines_unpackMethod, bodyLines_lines, List.forall_mem_singleton]
    cases b <;> exact bodyLine_of_toList rfl
  | scalar t =>
    cases h
    exact bodyLines_nil
  | enumeration t =>
    obtain ⟨_, ht, h⟩ := except_bind_eq_ok_iff.1 h
    cases ht
    obtain ⟨tag, htag, hend⟩ := except_bind_eq_ok_iff.1 h
    cases hend
    have hread : BodyLine (.enumeration t) Ref s!"ordinal = {tag}.unpack_from(reader).value" :=
      .reference "ordinal = ".toList tag ".unpack_from(reader).value".toList rfl rfl
        (hrefer _ t.tag_mem_cited _ htag)
    refine bodyLines_unpackMethod.2 (bodyLines_line.2 ⟨hread, ?_⟩)
    refine bodyLines_closedLine.2 ⟨.fixed _ rfl, .fixed _ rfl, ?_⟩
    exact bodyLines_line.2 ⟨.fixed _ rfl, bodyLines_nil⟩
  | composite t =>
    obtain ⟨_, ht, h⟩ := except_bind_eq_ok_iff.1 h
    cases ht
    obtain ⟨reads, hreads, hend⟩ := except_bind_eq_ok_iff.1 h
    cases hend
    have hlines : ∀ line ∈ reads, BodyLine (.composite t) Ref line := by
      refine forall_mem_of_mapM hreads fun f hf line hread => ?_
      obtain ⟨text, htext, hend⟩ := except_bind_eq_ok_iff.1 hread
      cases hend
      exact .unpacks f.name text (List.mem_map_of_mem hf)
        (hrefer _ (t.fields_mem_cited _ (List.mem_map_of_mem hf)) _ htext)
    rw [bodyLines_unpackMethod, bodyLines_lines, List.forall_mem_append, List.forall_mem_append,
      List.forall_mem_singleton, List.forall_mem_singleton]
    exact ⟨⟨.fixed _ rfl, hlines⟩, .fixed _ rfl⟩
  | fixedArray t =>
    cases h
    exact bodyLines_unpackMethod.2 (bodyLines_lines.2 (List.forall_mem_singleton.2 (.fixed _ rfl)))
  | variableArray t =>
    cases h
    refine bodyLines_unpackMethod.2 (bodyLines_line.2 ⟨.fixed _ rfl, ?_⟩)
    refine bodyLines_closedLine.2 ⟨.fixed _ rfl, .fixed _ rfl, ?_⟩
    exact bodyLines_line.2 ⟨.fixed _ rfl, bodyLines_nil⟩
  | group t =>
    cases h
    refine bodyLines_unpackMethod.2 (bodyLines_line.2 ⟨.fixed _ rfl, ?_⟩)
    refine bodyLines_closedLine.2 ⟨.fixed _ rfl, .fixed _ rfl, ?_⟩
    exact bodyLines_line.2 ⟨.fixed _ rfl, bodyLines_line.2 ⟨.fixed _ rfl, bodyLines_nil⟩⟩

/-- No line of a class opens another one. -/
theorem BodyLine.opened?_eq_none {line : String} (h : BodyLine d Ref line) :
    opened? line = none := by
  have hfronted : ∀ {b front rest}, isFront d b front = true →
      opened? (String.ofList front ++ rest) = none := by
    intro b front rest hfront
    have hplain := (Bool.and_eq_true_iff.1 (Bool.and_eq_true_iff.1 hfront).1).1
    exact Ruby.opened?_eq_none hplain rest
  cases h with
  | fixed cs h =>
    rw [opened?, String.toList_ofList]
    exact Option.isNone_iff_eq_none.1 (Bool.and_eq_true_iff.1 h).1
  | value front text hfront htext => exact hfronted hfront
  | reference front text back hfront hback htext =>
    rw [String.append_assoc]
    exact hfronted hfront
  | symbols front b names back hfront hback hnames =>
    rw [String.append_assoc]
    exact hfronted hfront
  | hash front pairs back hfront hback hpairs =>
    rw [String.append_assoc]
    exact hfronted hfront
  | packs n hn =>
    rw [String.append_assoc]
    exact Ruby.opened?_eq_none rfl _
  | unpacks n text hn htext =>
    rw [String.append_assoc, String.append_assoc, String.append_assoc]
    exact Ruby.opened?_eq_none rfl _
  | packsTag b =>
    rw [String.append_assoc]
    exact Ruby.opened?_eq_none rfl _

end

end Target.Ruby
end WireCodec
