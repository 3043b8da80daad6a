import WireCodec.Proofs.Shadowing

/-!
# Loading Ruby files

When a file is loaded, the bodies of its classes are run, and methods are not.  A class looks up its
parent then, and the classes that its constants for fields, elements, variants and tags hold.

* `Target.Ruby.loaded code`        the lines that are run when code is loaded;
* `Target.Ruby.pathsIn`            constants, with the modules in front of them;
* `Target.Ruby.evaluated line`     the constants that a line looks up;
* `Target.Ruby.Loads`              what the class of a type opens and looks up;
* `Target.Ruby.InOrder`            the file of a schema opens classes above their users;
* `Target.Ruby.exists_inOrder`     generated files do.
-/

namespace WireCodec.Target.Ruby

/-! ## Lines that are run -/

mutual

/-- The lines of a step that are run when it is loaded: all that do not belong to a method. -/
def stepLoaded : CodeStep → List String
  | .line text => [text]
  | .blank => []
  | .indented body => loaded body
  | .braces opening closing body =>
    if "def ".toList.isPrefixOf opening.toList then [] else opening :: (loaded body ++ [closing])
  | .append _ body => loaded body
  | .fail _ => []

def loaded : Code → List String
  | [] => []
  | step :: steps => stepLoaded step ++ loaded steps

end

theorem loaded_cons (step : CodeStep) (code : Code) :
    loaded (step :: code) = stepLoaded step ++ loaded code := by
  rw [loaded]

theorem loaded_append (front back : Code) :
    loaded (front ++ back) = loaded front ++ loaded back := by
  induction front with
  | nil => rw [loaded, List.nil_append, List.nil_append]
  | cons step front ih =>
    rw [List.cons_append, loaded_cons, loaded_cons, ih, List.append_assoc]

theorem loaded_lines (texts : List String) : loaded (Code.lines texts) = texts := by
  induction texts with
  | nil => rw [Code.lines, List.map_nil, loaded]
  | cons text texts ih =>
    show loaded (.line text :: Code.lines texts) = _
    rw [loaded_cons, stepLoaded, ih]
    rfl

theorem loaded_blank (code : Code) : loaded (.blank :: code) = loaded code := by
  rw [loaded_cons, stepLoaded, List.nil_append]

theorem loaded_method (signature : String) (body code : Code) :
    loaded (method signature body :: code) = loaded code := by
  rw [loaded_cons, method, closed, stepLoaded, if_pos, List.nil_append]
  rw [String.toList_append]
  exact List.isPrefixOf_iff_prefix.2 (List.prefix_append _ _)

mutual

theorem stepLoaded_subset (step : CodeStep) : stepLoaded step ⊆ step.statements := by
  cases step with
  | line text =>
    rw [stepLoaded]
    exact List.Subset.refl _
  | blank =>
    rw [stepLoaded]
    exact List.Subset.refl _
  | indented body =>
    rw [stepLoaded]
    exact loaded_subset body
  | braces opening closing body =>
    rw [stepLoaded]
    split
    · exact List.nil_subset _
    · refine List.cons_subset_cons _ (List.append_subset.2 ⟨?_, List.subset_append_right _ _⟩)
      exact List.Subset.trans (loaded_subset body) (List.subset_append_left _ _)
  | append unit body =>
    rw [stepLoaded]
    exact loaded_subset body
  | fail e => exact e.elim

theorem loaded_subset (code : Code) : loaded code ⊆ Page.statements code := by
  cases code with
  | nil =>
    rw [loaded]
    exact List.nil_subset _
  | cons step code =>
    rw [loaded_cons, Page.statements_cons]
    refine List.append_subset.2 ⟨?_, ?_⟩
    · exact List.Subset.trans (stepLoaded_subset step) (List.subset_append_left _ _)
    · exact List.Subset.trans (loaded_subset code) (List.subset_append_right _ _)

end

theorem loaded_joinParts (parts : List Code) :
    loaded (joinParts parts) = parts.flatMap loaded := by
  refine read_joinParts loaded_append ?_ (fun part => ?_) (fun part hpart => ?_) parts
  · rw [loaded_blank, loaded]
  · rw [loaded_cons, stepLoaded, loaded, List.append_nil]
  · exact List.subset_nil.1 (hpart ▸ loaded_subset part)

theorem loaded_packMethod (texts : List String) : loaded (packMethod texts) = [] := by
  rw [packMethod, loaded_method, loaded]

theorem loaded_unpackMethod (body : Code) : loaded (unpackMethod body) = [] := by
  rw [unpackMethod, loaded_method, loaded]

/-! ## Constants -/

def isPathChar (c : Char) : Bool := Text.isIdentifierRest c || c == ':'

/-- A text that begins like a constant and is no key of a hash. -/
def isConstant (text : String) : Bool :=
  text.toList.head?.any Char.isUpper && text.toList.getLast? != some ':'

/-- The constants in a piece of a line, with the modules in front of them. -/
def pathsIn (cs : List Char) : List String :=
  ((cs.splitOnP fun c => !isPathChar c).map String.ofList).filter isConstant

section
variable {cs front back : List Char} {c : Char}

/-- What belongs to no path separates the paths around it. -/
theorem pathsIn_append (hc : isPathChar c = false) :
    pathsIn (front ++ c :: back) = pathsIn front ++ pathsIn back := by
  unfold pathsIn
  rw [List.splitOnP_append_cons front back (by rw [hc]; rfl), List.map_append, List.filter_append]

theorem pathsIn_cons (hc : isPathChar c = false) : pathsIn (c :: back) = pathsIn back := by
  have hsplit : pathsIn ([] ++ c :: back) = pathsIn [] ++ pathsIn back := pathsIn_append hc
  exact hsplit

theorem pathsIn_of_forall (h : ∀ c ∈ cs, isPathChar c = true) :
    pathsIn cs = [String.ofList cs].filter isConstant := by
  unfold pathsIn
  rw [List.splitOnP_eq_singleton fun c hc => by rw [h c hc]; rfl]
  rfl

/-- A piece that begins with no capital is no constant. -/
theorem pathsIn_eq_nil (h : ∀ c ∈ cs, isPathChar c = true)
    (hhead : cs.head?.any Char.isUpper = false) : pathsIn cs = [] := by
  have hconstant : isConstant (String.ofList cs) = false := by
    rw [isConstant, String.toList_ofList, hhead]
    rfl
  rw [pathsIn_of_forall h, List.filter_singleton, hconstant]
  rfl

theorem pathsIn_intercalate (pieces : List String) :
    pathsIn (String.intercalate ", " pieces).toList =
      pieces.flatMap fun piece => pathsIn piece.toList := by
  induction pieces with
  | nil => rfl
  | cons piece pieces ih =>
    cases pieces with
    | nil => rw [String.intercalate_singleton, List.flatMap_singleton]
    | cons next pieces =>
      have htext : (String.intercalate ", " (piece :: next :: pieces)).toList =
          piece.toList ++ ',' :: ' ' :: (String.intercalate ", " (next :: pieces)).toList := by
        rw [String.intercalate_cons_cons]
        simp
      rw [htext, pathsIn_append rfl, pathsIn_cons rfl, ih]
      rfl

theorem isPathChar_of_isIdentifierRest (h : Text.isIdentifierRest c = true) :
    isPathChar c = true := by
  rw [isPathChar, h]
  rfl

/-- Behind a word that is no constant, a number has no constants in it either. -/
theorem pathsIn_numeral {word : List Char} (hcs : cs.all isNumeral = true)
    (hword : ∀ c ∈ word, isPathChar c = true) (hhead : word.head?.any Char.isUpper = false) :
    pathsIn (word ++ cs) = [] := by
  induction cs generalizing word with
  | nil =>
    rw [List.append_nil]
    exact pathsIn_eq_nil hword hhead
  | cons c cs ih =>
    obtain ⟨hc, hcs⟩ := Bool.and_eq_true_iff.1 hcs
    have hmark : isPathChar c = false → pathsIn (word ++ c :: cs) = [] := by
      intro hc
      have hrest : pathsIn ([] ++ cs) = [] := ih hcs (List.forall_mem_nil _) rfl
      rw [pathsIn_append hc, pathsIn_eq_nil hword hhead]
      exact hrest
    rcases isNumeral_cases hc with ⟨hrest, hlower⟩ | rfl | rfl
    · rw [List.append_cons]
      refine ih hcs (List.forall_mem_append.2 ⟨hword, ?_⟩) ?_
      · exact List.forall_mem_singleton.2 (isPathChar_of_isIdentifierRest hrest)
      · cases word with
        | nil => exact hlower
        | cons c word => exact hhead
    · exact hmark rfl
    · exact hmark rfl

theorem pathsIn_symbols {names : List String}
    (h : ∀ n ∈ names, Text.isIdentifier n = true) : pathsIn (symbols names).toList = [] := by
  rw [symbols, pathsIn_intercalate, List.flatMap_eq_nil_iff, List.forall_mem_map]
  intro n hn
  refine pathsIn_eq_nil ?_ ?_
  · rw [String.toList_append, List.forall_mem_append]
    refine ⟨List.forall_mem_singleton.2 rfl, fun c hc => ?_⟩
    exact isPathChar_of_isIdentifierRest (Text.isIdentifierRest_of_mem (h n hn) hc)
  · rw [String.toList_append]
    rfl

/-- A key of a hash is no constant. -/
theorem pathsIn_pair {n text : String} (hn : Text.isIdentifier n = true)
    (htext : ∀ c ∈ text.toList, isPathChar c = true) :
    pathsIn (n ++ ": " ++ text).toList = [text].filter isConstant := by
  have hline : (n ++ ": " ++ text).toList = (n ++ ":").toList ++ ' ' :: text.toList := by
    simp
  have hkey : ∀ c ∈ (n ++ ":").toList, isPathChar c = true := by
    rw [String.toList_append, List.forall_mem_append]
    refine ⟨fun c hc => ?_, List.forall_mem_singleton.2 rfl⟩
    exact isPathChar_of_isIdentifierRest (Text.isIdentifierRest_of_mem hn hc)
  have hconstant : isConstant (n ++ ":") = false := by
    simp [isConstant]
  rw [hline, pathsIn_append rfl, pathsIn_of_forall hkey, pathsIn_of_forall htext,
    String.ofList_toList, String.ofList_toList, List.filter_singleton, hconstant]
  rfl

end

/-! ## Lines that look up constants -/

/-- The class or module that a line opens, with the modules in front of it. -/
def openedPath? (line : String) : Option String :=
  (behind? ["class ", "module "] (line.toList.dropWhile (· = ' '))).map fun rest =>
    String.ofList (rest.takeWhile fun c => c ≠ ' ' && c ≠ ';')

/-- The constants that a line looks up.  A class or constant that it makes is none of them. -/
def evaluated (line : String) : List String :=
  if (opened? line).isSome || (assigned? line).isSome then
    pathsIn (line.toList.dropWhile fun c => c ≠ '<' && c ≠ '=')
  else pathsIn line.toList

def lookups (code : Code) : List String := (loaded code).flatMap evaluated

/-- The front of a line that gives a value to the constant `n`. -/
structure Assigns (front n : String) : Prop where
  assigned : assigned? front = some n
  mark : (front.toList.dropWhile fun c => c ≠ '<' && c ≠ '=') = ['=', ' ']

section
variable {text front n : String} {names : List String}

theorem Assigns.evaluated_eq (h : Assigns front n) (rest : String) :
    evaluated (front ++ rest) = pathsIn rest.toList := by
  rw [evaluated, assigned?_append h.assigned, Option.isSome_some, Bool.or_true, if_pos rfl,
    String.toList_append, List.dropWhile_append, h.mark]
  exact (pathsIn_cons rfl).trans (pathsIn_cons rfl)

theorem Assigns.evaluated_frozen (h : Assigns front n) (text : String) :
    evaluated (front ++ text ++ ".freeze") = pathsIn (text ++ ".freeze").toList := by
  rw [String.append_assoc, h.evaluated_eq]

theorem Assigns.evaluated_value (h : Assigns front n) (htext : text.toList.all isNumeral = true) :
    evaluated (front ++ text) = [] := by
  have hnone : pathsIn ([] ++ text.toList) = [] :=
    pathsIn_numeral htext (List.forall_mem_nil _) rfl
  rw [h.evaluated_eq]
  exact hnone

theorem evaluated_readers (h : ∀ n ∈ names, Text.isIdentifier n = true) :
    evaluated ("attr_reader " ++ symbols names) = [] := by
  have hopened : opened? ("attr_reader " ++ symbols names) = none := opened?_eq_none rfl _
  have hassigned : assigned? ("attr_reader " ++ symbols names) = none := by
    rw [assigned?, String.toList_append]
    rfl
  have hline : ("attr_reader " ++ symbols names).toList =
      "attr_reader".toList ++ ' ' :: (symbols names).toList := by
    rw [String.toList_append]
    rfl
  rw [evaluated, hopened, hassigned, hline]
  exact (pathsIn_append rfl).trans (pathsIn_symbols h)

theorem lookups_append (front back : Code) :
    lookups (front ++ back) = lookups front ++ lookups back := by
  rw [lookups, loaded_append, List.flatMap_append]
  rfl

theorem lookups_line (text : String) (code : Code) :
    lookups (.line text :: code) = evaluated text ++ lookups code := by
  rw [lookups, loaded_cons, stepLoaded]
  rfl

theorem lookups_lines (texts : List String) :
    lookups (Code.lines texts) = texts.flatMap evaluated := by
  rw [lookups, loaded_lines]

theorem lookups_blank (code : Code) : lookups (.blank :: code) = lookups code := by
  rw [lookups, loaded_blank]
  rfl

theorem lookups_method (signature : String) (body code : Code) :
    lookups (method signature body :: code) = lookups code := by
  rw [lookups, loaded_method]
  rfl

theorem lookups_arrayMembers (condition message : String) :
    lookups (arrayMembers condition message) = [] := by
  rw [arrayMembers, lookups_blank, lookups_line, lookups_blank, lookups_method, lookups_blank,
    lookups_method]
  rfl

theorem lookups_builtinDeclaration (b : Builtin) : lookups (builtinDeclaration b) = [] := by
  have hwidth : evaluated s!"WIDTH = {b.byteLength}" = [] :=
    Assigns.evaluated_value ⟨rfl, rfl⟩ (isNumeral_nat b.byteLength)
  rw [builtinDeclaration, lookups_line, hwidth, List.nil_append]
  split
  · next least greatest hrange =>
    have hleast : evaluated s!"MIN = {least}" = [] :=
      Assigns.evaluated_value ⟨rfl, rfl⟩ (isNumeral_int least)
    have hgreatest : evaluated s!"MAX = {greatest}" = [] :=
      Assigns.evaluated_value ⟨rfl, rfl⟩ (isNumeral_int greatest)
    rw [lookups_lines, List.flatMap_cons, List.flatMap_singleton, hleast, hgreatest]
    rfl
  · split
    · have hlimit : evaluated s!"LIMIT = {Double.singleLimit.scientific}" = [] :=
        Assigns.evaluated_value ⟨rfl, rfl⟩ rfl
      rw [lookups_line, hlimit, lookups_blank, lookups_method, lookups_blank, lookups_method]
      rfl
    · rw [lookups_blank, lookups_method, lookups_blank, lookups_method]
      rfl

end

/-! ## Classes -/

/-- A reference: a constant with the modules in front of it, or a word that is none. -/
def IsPath (text : String) : Prop := ∀ c ∈ text.toList, isPathChar c = true

/-- Constants that are found are references to types, one for each type. -/
def Finds (refer : Referrer) (ns found : List String) : Prop :=
  ∃ texts, List.Forall₂ (fun n text => refer n = .ok text) ns texts ∧
    found = texts.filter isConstant

section
variable {refer : Referrer} {ns ms found found' : List String} {n text p : String} {d : TypeDef}
  {code : Code}

theorem finds_nil : Finds refer [] [] :=
  ⟨[], .nil, rfl⟩

theorem finds_singleton (h : refer n = .ok text) (htext : IsPath text) :
    Finds refer [n] (pathsIn text.toList) := by
  rw [pathsIn_of_forall htext, String.ofList_toList]
  exact ⟨[text], .cons h .nil, rfl⟩

theorem Finds.append (h : Finds refer ns found) (h' : Finds refer ms found') :
    Finds refer (ns ++ ms) (found ++ found') := by
  obtain ⟨texts, hall, rfl⟩ := h
  obtain ⟨texts', hall', rfl⟩ := h'
  exact ⟨texts ++ texts', List.rel_append hall hall', (List.filter_append _ _).symm⟩

theorem Finds.mem_iff (h : Finds refer ns found) :
    p ∈ found ↔ isConstant p = true ∧ ∃ n ∈ ns, refer n = .ok p := by
  obtain ⟨texts, hall, rfl⟩ := h
  obtain ⟨hrefer, hfound⟩ := exists_mem_of_forall₂ hall
  rw [List.mem_filter, and_comm]
  refine and_congr_right fun _ => ⟨hfound p, ?_⟩
  rintro ⟨n, hn, hp⟩
  obtain ⟨text, htext, heq⟩ := hrefer n hn
  cases hp.symm.trans heq
  exact htext

theorem finds_classHash {fields : List Field} (h : classHash refer fields = .ok text)
    (hrefer : ∀ f ∈ fields, ∀ text, refer f.typeName = .ok text → IsPath text)
    (hnames : ∀ n ∈ fieldNames fields, Text.isIdentifier n = true) :
    Finds refer (fields.map Field.typeName) (pathsIn (text ++ ".freeze").toList) := by
  obtain ⟨entries, hentries, hend⟩ := except_bind_eq_ok_iff.1 h
  cases hend
  have hline : ("\x7b " ++ String.intercalate ", " entries ++ " \x7d" ++ ".freeze").toList =
      '\x7b' :: ' ' :: ((String.intercalate ", " entries).toList ++
        ' ' :: '\x7d' :: '.' :: "freeze".toList) := by
    simp
  have hfreeze : pathsIn "freeze".toList = [] := rfl
  rw [hline, pathsIn_cons rfl, pathsIn_cons rfl, pathsIn_append rfl, pathsIn_cons rfl,
    pathsIn_cons rfl, hfreeze, List.append_nil, pathsIn_intercalate]
  have hlines := mapM_eq_ok_iff.1 hentries
  clear h hentries hline
  induction hlines with
  | nil => exact finds_nil
  | @cons f entry fields entries hentry _ ih =>
    obtain ⟨hf, hfields⟩ := List.forall_mem_cons.1 hrefer
    obtain ⟨hname, hnames⟩ := List.forall_mem_cons.1 hnames
    obtain ⟨text, htext, hend⟩ := except_bind_eq_ok_iff.1 hentry
    cases hend
    have hfound : Finds refer [f.typeName] (pathsIn s!"{f.name}: {text}".toList) :=
      ⟨[text], .cons htext .nil, pathsIn_pair hname (hf text htext)⟩
    exact hfound.append (ih hfields hnames)

theorem lookups_enumerationDeclaration {t : Enumeration}
    (h : enumerationBuilder.declaration refer (.enumeration t) = .ok code)
    (hlabels : ∀ n ∈ t.labels, Text.isIdentifier n = true) : lookups code = [] := by
  cases h
  have hassigned : evaluated ("LABELS = " ++ ("[" ++ symbols t.labels ++ "].freeze")) = [] := by
    have htext : ("[" ++ symbols t.labels ++ "].freeze").toList =
        '[' :: ((symbols t.labels).toList ++ ']' :: '.' :: "freeze".toList) := by
      simp
    rw [Assigns.evaluated_eq ⟨rfl, rfl⟩, htext, pathsIn_cons rfl, pathsIn_append rfl,
      pathsIn_symbols hlabels]
    rfl
  have hline : evaluated s!"LABELS = [{symbols t.labels}].freeze" = [] := by
    rw [← hassigned, ← String.append_assoc, ← String.append_assoc]
    rfl
  rw [lookups_line, hline, lookups_blank, lookups_line, lookups_blank, lookups_method,
    lookups_blank, lookups_method, lookups_blank, lookups_method]
  rfl

theorem finds_compositeDeclaration {t : Composite}
    (h : compositeBuilder.declaration refer (.composite t) = .ok code)
    (hrefer : ∀ n ∈ (TypeDef.composite t).cited, ∀ text, refer n = .ok text → IsPath text)
    (hnames : ∀ n ∈ fieldNames t.fields, Text.isIdentifier n = true) :
    Finds refer (t.fields.map Field.typeName) (lookups code) := by
  obtain ⟨_, ht, h⟩ := except_bind_eq_ok_iff.1 h
  cases ht
  obtain ⟨fields, hfields, hend⟩ := ite_bind_eq_ok_iff.1 h
  cases hend
  have hassigned : evaluated s!"FIELDS = {fields}.freeze" = pathsIn (fields ++ ".freeze").toList :=
    Assigns.evaluated_frozen ⟨rfl, rfl⟩ fields
  have hreaders : lookups (if t.fields = [] then []
      else [.blank, .line s!"attr_reader {symbols (fieldNames t.fields)}"]) = [] := by
    split
    · rfl
    · have hline : evaluated s!"attr_reader {symbols (fieldNames t.fields)}" = [] :=
        evaluated_readers hnames
      rw [lookups_blank, lookups_line, hline]
      rfl
  rw [lookups_append, lookups_append, lookups_line, hassigned, hreaders, lookups_blank,
    lookups_method, lookups_blank, lookups_method]
  show Finds refer _ (_ ++ [] ++ [] ++ [])
  rw [List.append_nil, List.append_nil, List.append_nil]
  split at hfields
  · next hnil =>
    cases hfields
    rw [hnil]
    exact finds_nil
  · refine finds_classHash hfields (fun f hf => ?_) hnames
    exact hrefer f.typeName (t.fields_mem_cited _ (List.mem_map_of_mem hf))

theorem finds_groupDeclaration {t : Group}
    (h : groupBuilder.declaration refer (.group t) = .ok code)
    (hrefer : ∀ n ∈ (TypeDef.group t).cited, ∀ text, refer n = .ok text → IsPath text)
    (hnames : ∀ n ∈ fieldNames t.variants, Text.isIdentifier n = true) :
    Finds refer (t.variants.map Field.typeName ++ [t.tagType.name]) (lookups code) := by
  obtain ⟨_, ht, h⟩ := except_bind_eq_ok_iff.1 h
  cases ht
  obtain ⟨variants, hvariants, h⟩ := except_bind_eq_ok_iff.1 h
  obtain ⟨tag, htag, hend⟩ := except_bind_eq_ok_iff.1 h
  cases hend
  have hassigned : evaluated s!"VARIANTS = {variants}.freeze" =
      pathsIn (variants ++ ".freeze").toList :=
    Assigns.evaluated_frozen ⟨rfl, rfl⟩ variants
  have htagged : evaluated s!"TAG = {tag}" = pathsIn tag.toList :=
    Assigns.evaluated_eq ⟨rfl, rfl⟩ tag
  have hreaders : evaluated "attr_reader :variant, :payload" = [] := rfl
  rw [lookups_line, lookups_line, hassigned, htagged, lookups_blank, lookups_line, hreaders,
    lookups_blank, lookups_method, lookups_blank, lookups_method, lookups_blank, lookups_method]
  refine Finds.append (finds_classHash hvariants (fun v hv => ?_) hnames) ?_
  · exact hrefer v.typeName (t.variants_mem_cited _ (List.mem_map_of_mem hv))
  · show Finds refer _ (_ ++ [])
    rw [List.append_nil]
    exact finds_singleton htag (hrefer _ t.tag_mem_cited tag htag)

/-- The declaration of a type other than a scalar looks up the types of its parts. -/
theorem finds_declaration (h : (builder d.kind).declaration refer d = .ok code)
    (hrefer : ∀ n ∈ d.cited, ∀ text, refer n = .ok text → IsPath text)
    (hentries : ∀ n ∈ d.entries, Text.isIdentifier n = true) (hd : d.kind ≠ .scalar) :
    Finds refer d.parts (lookups code) := by
  cases d with
  | builtin b =>
    cases h
    rw [lookups_builtinDeclaration]
    exact finds_nil
  | scalar t => exact absurd rfl hd
  | enumeration t =>
    rw [lookups_enumerationDeclaration h hentries]
    exact finds_nil
  | composite t =>
    show Finds refer (t.fields.map Field.typeName ++ []) _
    rw [List.append_nil]
    exact finds_compositeDeclaration h hrefer hentries
  | fixedArray t =>
    obtain ⟨_, ht, h⟩ := except_bind_eq_ok_iff.1 h
    cases ht
    obtain ⟨element, helement, hend⟩ := except_bind_eq_ok_iff.1 h
    cases hend
    have hcount : evaluated s!"COUNT = {t.count}" = [] :=
      Assigns.evaluated_value ⟨rfl, rfl⟩ (isNumeral_nat t.count)
    have hassigned : evaluated s!"ELEMENT = {element}" = pathsIn element.toList :=
      Assigns.evaluated_eq ⟨rfl, rfl⟩ element
    rw [lookups_append, lookups_arrayMembers, lookups_lines, List.flatMap_cons, hcount,
      List.flatMap_singleton, hassigned, List.append_nil]
    exact finds_singleton helement (hrefer t.element t.element_mem_cited element helement)
  | variableArray t =>
    obtain ⟨_, ht, h⟩ := except_bind_eq_ok_iff.1 h
    cases ht
    obtain ⟨size, hsize, h⟩ := except_bind_eq_ok_iff.1 h
    obtain ⟨element, helement, hend⟩ := except_bind_eq_ok_iff.1 h
    cases hend
    have hmax : evaluated s!"MAX = {t.max}" = [] :=
      Assigns.evaluated_value ⟨rfl, rfl⟩ (isNumeral_nat t.max)
    have hassigned : evaluated s!"SIZE_TYPE = {size}" = pathsIn size.toList ∧
        evaluated s!"ELEMENT = {element}" = pathsIn element.toList :=
      ⟨Assigns.evaluated_eq ⟨rfl, rfl⟩ size, Assigns.evaluated_eq ⟨rfl, rfl⟩ element⟩
    rw [lookups_append, lookups_arrayMembers, lookups_lines, List.flatMap_cons, hmax,
      List.flatMap_cons, List.flatMap_singleton, hassigned.1, hassigned.2, List.append_nil]
    exact (finds_singleton hsize (hrefer _ t.size_mem_cited size hsize)).append
      (finds_singleton helement (hrefer _ t.element_mem_cited element helement))
  | group t => exact finds_groupDeclaration h hrefer hentries

end

/-- What the class of a type opens and looks up while it is loaded. -/
structure Loads (ctx : RenderContext) (d : TypeDef) (code : Code) : Prop where
  opens : (loaded code).filterMap openedPath? = [classPath d]
  reads : ∀ p, p ∈ lookups code ↔ isConstant p = true ∧
    (superclass ctx d = .ok p ∨ ∃ n ∈ d.parts, ctx.reference n = .ok p)

section
variable {ctx : RenderContext} {refer : Referrer} {d : TypeDef} {code : Code} {parent : String}

/-- Methods are not run. -/
theorem loaded_pack (h : (builder d.kind).pack refer d = .ok code) : loaded code = [] := by
  cases d with
  | scalar t =>
    cases h
    rw [loaded]
  | enumeration t =>
    obtain ⟨_, ht, h⟩ := except_bind_eq_ok_iff.1 h
    cases ht
    obtain ⟨tag, htag, hend⟩ := except_bind_eq_ok_iff.1 h
    cases hend
    exact loaded_packMethod _
  | _ =>
    cases h
    exact loaded_packMethod _

theorem loaded_unpack (h : (builder d.kind).unpack refer d = .ok code) : loaded code = [] := by
  cases d with
  | scalar t =>
    cases h
    rw [loaded]
  | enumeration t =>
    obtain ⟨_, ht, h⟩ := except_bind_eq_ok_iff.1 h
    cases ht
    obtain ⟨tag, htag, hend⟩ := except_bind_eq_ok_iff.1 h
    cases hend
    exact loaded_unpackMethod _
  | composite t =>
    obtain ⟨_, ht, h⟩ := except_bind_eq_ok_iff.1 h
    cases ht
    obtain ⟨reads, hreads, hend⟩ := except_bind_eq_ok_iff.1 h
    cases hend
    exact loaded_unpackMethod _
  | _ =>
    cases h
    exact loaded_unpackMethod _

theorem openedPath?_eq_none {line : String} (h : opened? line = none) :
    openedPath? line = none := by
  rw [opened?, openedIn?, Option.map_eq_none_iff] at h
  rw [openedPath?, h]
  rfl

theorem isPath_classPath (hname : Text.isIdentifier d.name = true) : IsPath (classPath d) := by
  cases d with
  | builtin b => cases b <;> exact List.all_eq_true.1 rfl
  | _ =>
    exact fun c hc => isPathChar_of_isIdentifierRest
      (Text.isIdentifierRest_of_mem_pascalCase hname c hc)

theorem isPathChar_eq_true {c : Char} (h : isPathChar c = true) :
    c ≠ ' ' ∧ c ≠ ';' ∧ c ≠ '<' ∧ c ≠ '=' := by
  refine ⟨?_, ?_, ?_, ?_⟩ <;> (rintro rfl; cases h)

theorem toList_classHead (path parent : String) :
    s!"class {path} < {parent}".toList =
      "class ".toList ++ (path.toList ++ ' ' :: '<' :: ' ' :: parent.toList) := by
  simp [toString_string]

theorem openedPath?_class {path : String} (hpath : IsPath path) :
    openedPath? s!"class {path} < {parent}" = some path := by
  have hbehind : behind? ["class ", "module "]
      ((s!"class {path} < {parent}".toList).dropWhile (· = ' ')) =
        some (path.toList ++ ' ' :: '<' :: ' ' :: parent.toList) := by
    rw [toList_classHead]
    simp [behind?, List.isPrefixOf?]
  have hmarks : ∀ c ∈ path.toList, (decide (c ≠ ' ') && decide (c ≠ ';')) = true := by
    intro c hc
    obtain ⟨hblank, hend, -⟩ := isPathChar_eq_true (hpath c hc)
    simp [hblank, hend]
  rw [openedPath?, hbehind, Option.map_some, takeWhile_until hmarks (by simp),
    String.ofList_toList]

theorem evaluated_class (hname : Text.isIdentifier d.name = true) (hparent : IsPath parent) :
    evaluated s!"class {classPath d} < {parent}" = [parent].filter isConstant := by
  have hfront : ∀ c ∈ "class ".toList ++ ((classPath d).toList ++ [' ']),
      (decide (c ≠ '<') && decide (c ≠ '=')) = true := by
    rw [List.forall_mem_append, List.forall_mem_append]
    refine ⟨List.all_eq_true.1 rfl, fun c hc => ?_, List.all_eq_true.1 rfl⟩
    obtain ⟨-, -, hless, hequals⟩ := isPathChar_eq_true (isPath_classPath hname c hc)
    simp [hless, hequals]
  have hline : s!"class {classPath d} < {parent}".toList =
      ("class ".toList ++ ((classPath d).toList ++ [' '])) ++ '<' :: ' ' :: parent.toList := by
    rw [toList_classHead]
    simp
  rw [evaluated, opened?_class hname, Option.isSome_some, Bool.true_or, if_pos rfl, hline,
    List.dropWhile_append_of_pos hfront, List.dropWhile_cons_of_neg (by simp), pathsIn_cons rfl,
    pathsIn_cons rfl, pathsIn_of_forall hparent, String.ofList_toList]

theorem loaded_class (path parent : String) (declaration : Code) {pack unpack : Code}
    (hpack : loaded pack = []) (hunpack : loaded unpack = []) :
    loaded [.blank, closed s!"class {path} < {parent}" (joinParts [declaration, pack, unpack])] =
      s!"class {path} < {parent}" :: (loaded declaration ++ ["end"]) := by
  have hhead : ("def ".toList.isPrefixOf s!"class {path} < {parent}".toList) = false := by
    rw [toList_classHead]
    rfl
  have hparts : loaded (joinParts [declaration, pack, unpack]) = loaded declaration := by
    rw [loaded_joinParts, List.flatMap_cons, List.flatMap_cons, List.flatMap_singleton, hpack,
      hunpack, List.append_nil, List.append_nil]
  rw [loaded_blank, loaded_cons, closed, stepLoaded, hhead, if_neg Bool.false_ne_true, hparts,
    loaded, List.append_nil]

theorem isPath_superclass
    (hrefer : ∀ n ∈ d.cited, ∀ text, ctx.reference n = .ok text → IsPath text)
    (hparent : superclass ctx d = .ok parent) : IsPath parent := by
  rcases superclass_eq_ok hparent with rfl | rfl | ⟨n, hn, hreference⟩
  · exact List.all_eq_true.1 rfl
  · exact List.all_eq_true.1 rfl
  · exact hrefer n (List.mem_cons_of_mem _ hn) parent hreference

theorem openedPath?_loaded (h : ctx.Renders backend) (hd : d ∈ ctx.schema.definitions)
    (hname : Text.isIdentifier d.name = true) (hcode : renderClass ctx d = .ok code) :
    (loaded code).filterMap openedPath? = [classPath d] := by
  obtain ⟨parent, declaration, pack, unpack, -, hdeclaration, hpack, hunpack, rfl⟩ :=
    exists_class_eq h hd hcode
  have hbody := bodyLines_of_rendered h hd hdeclaration hpack hunpack
  have hnone : (loaded declaration).filterMap openedPath? = [] := by
    refine List.filterMap_eq_nil_iff.2 fun line hline => openedPath?_eq_none ?_
    refine (hbody line ?_).opened?_eq_none
    rw [Page.statements_append, Page.statements_append]
    exact List.mem_append_left _ (List.mem_append_left _ (loaded_subset declaration hline))
  rw [loaded_class _ _ _ (loaded_pack hpack) (loaded_unpack hunpack),
    List.filterMap_cons_some (openedPath?_class (isPath_classPath hname)), List.filterMap_append,
    hnone]
  rfl

theorem openedPath?_classes {ds : List TypeDef} {codes : List Code} (h : ctx.Renders backend)
    (hds : ∀ d ∈ ds, d ∈ ctx.schema.definitions)
    (hnames : ∀ d ∈ ctx.schema.definitions, Text.isIdentifier d.name = true)
    (hcodes : List.Forall₂ (fun d code => renderClass ctx d = .ok code) ds codes) :
    (codes.flatMap loaded).filterMap openedPath? = ds.map classPath := by
  induction hcodes with
  | nil => rfl
  | cons hcode _ ih =>
    obtain ⟨hd, hds⟩ := List.forall_mem_cons.1 hds
    rw [List.flatMap_cons, List.filterMap_append, openedPath?_loaded h hd (hnames _ hd) hcode,
      ih hds]
    rfl

/-- Behind the head of the class of an enumeration stand its labels, as they are. -/
theorem exists_loaded_enumeration {t : Enumeration} (h : ctx.Renders backend)
    (hd : .enumeration t ∈ ctx.schema.definitions) (hname : Text.isIdentifier t.name = true)
    (hcode : renderClass ctx (.enumeration t) = .ok code) :
    ∃ head rest, openedPath? head = some (classPath (.enumeration t)) ∧
      loaded code = head :: s!"LABELS = [{symbols t.labels}].freeze" :: rest := by
  obtain ⟨parent, declaration, pack, unpack, -, hdeclaration, hpack, hunpack, rfl⟩ :=
    exists_class_eq h hd hcode
  cases hdeclaration
  rw [loaded_class _ _ _ (loaded_pack hpack) (loaded_unpack hunpack), loaded_cons, stepLoaded,
    List.singleton_append, List.cons_append]
  exact ⟨_, _, openedPath?_class (isPath_classPath hname), rfl⟩

/-- The class of a type looks up its parent and the classes of its parts. -/
theorem loads_class (h : ctx.Renders backend) (hd : d ∈ ctx.schema.definitions)
    (hnames : ∀ e ∈ ctx.schema.definitions, Text.isIdentifier e.name = true)
    (hentries : ∀ n ∈ d.entries, Text.isIdentifier n = true)
    (hcode : renderClass ctx d = .ok code) : Loads ctx d code := by
  have hrefer : ∀ n ∈ d.cited, ∀ text, ctx.reference n = .ok text → IsPath text := by
    intro n hn text htext
    obtain ⟨e, he, rfl⟩ := List.mem_map.1 (h.consistent.cited_mem_names hd n hn)
    rw [reference_eq_classPath h he] at htext
    cases htext
    exact isPath_classPath (hnames e he)
  obtain ⟨parent, declaration, pack, unpack, hparent, hdeclaration, hpack, hunpack, rfl⟩ :=
    exists_class_eq h hd hcode
  have hlines := loaded_class (classPath d) parent declaration (loaded_pack hpack)
    (loaded_unpack hunpack)
  refine ⟨openedPath?_loaded h hd (hnames d hd) hcode, fun p => ?_⟩
  have hhead := evaluated_class (hnames d hd) (isPath_superclass hrefer hparent)
  have hfound : lookups [.blank, closed s!"class {classPath d} < {parent}"
      (joinParts [declaration, pack, unpack])] =
        [parent].filter isConstant ++ lookups declaration := by
    rw [lookups, hlines, List.flatMap_cons, hhead, List.flatMap_append]
    exact congrArg (_ ++ ·) (List.append_nil _)
  have hsuper : p ∈ [parent].filter isConstant ↔
      isConstant p = true ∧ superclass ctx d = .ok p := by
    rw [List.mem_filter, List.mem_singleton, and_comm, hparent, Except.ok.injEq, @eq_comm _ p]
  rw [hfound, List.mem_append, hsuper]
  by_cases hscalar : d.kind = .scalar
  · -- the class of a scalar has no body, and its parent is its only part
    cases d with
    | scalar t =>
      cases hdeclaration
      have hnone : lookups [] = [] := by rw [lookups, loaded, List.flatMap_nil]
      have hparts : (∃ n ∈ (TypeDef.scalar t).parts, ctx.reference n = .ok p) ↔
          superclass ctx (.scalar t) = .ok p := by
        show (∃ n ∈ [t.builtin.name], ctx.reference n = .ok p) ↔ _
        rw [List.exists_mem_cons_iff, or_iff_left (by simp)]
        rfl
      rw [hnone, hparts, or_self, or_iff_left List.not_mem_nil]
    | _ => cases hscalar
  · rw [(finds_declaration hdeclaration hrefer hentries hscalar).mem_iff, ← and_or_left]

end

/-! ## Files -/

def runtimePaths : List String := runtimeNames.tail.map ("Wire::" ++ ·)

/-- The file of a schema opens one class for each type, in order, behind the runtime.  While it is
loaded, the classes that are looked up are open already. -/
structure InOrder (ctx : RenderContext) (classes : List Code) : Prop where
  opened : opened (source ctx classes) =
    Text.pascalCase ctx.project :: (runtimeNames ++ ctx.schema.ordered.map className)
  loads : List.Forall₂ (Loads ctx) ctx.schema.ordered classes
  placed : ∃ front, loaded (source ctx classes) =
    front ++ (runtime ++ (loaded classes.flatten ++ ["end"]))
  defined : ProvidedFirst evaluated (fun line => (openedPath? line).toList) runtimePaths
    (loaded classes.flatten)

section
variable {ctx : RenderContext} {classes : List Code}

theorem loaded_flatten (codes : List Code) : loaded codes.flatten = codes.flatMap loaded := by
  induction codes with
  | nil => rw [List.flatten_nil, loaded, List.flatMap_nil]
  | cons code codes ih => rw [List.flatten_cons, loaded_append, ih, List.flatMap_cons]

/-- What is run when the file is loaded: the runtime, and behind it the classes. -/
theorem exists_loaded_source (ctx : RenderContext) (classes : List Code) :
    ∃ front, loaded (source ctx classes) =
      front ++ (runtime ++ (loaded classes.flatten ++ ["end"])) := by
  have hhead :
      "def ".toList.isPrefixOf s!"module {Text.pascalCase ctx.project}".toList = false := by
    rw [String.toList_append]
    rfl
  rw [source, loaded_cons, stepLoaded, loaded_blank, loaded_cons, closed, stepLoaded, hhead,
    if_neg Bool.false_ne_true, loaded_append, loaded_append, loaded_append, loaded_lines,
    loaded_lines, loaded_blank, loaded, List.append_nil, List.append_nil, List.append_assoc,
    List.append_assoc]
  exact ⟨[_, _, _, _], rfl⟩

/-- Every class that a class looks up belongs to the runtime or is opened in front of it. -/
theorem Loads.mem_of_mem {before : List TypeDef} {d : TypeDef} {code : Code} {p : String}
    (hcode : Loads ctx d code) (h : ctx.Renders backend)
    (hbefore : ∀ e ∈ before, e ∈ ctx.schema.definitions)
    (huses : ∀ n ∈ d.uses, n ∈ before.map TypeDef.name) (hp : p ∈ lookups code) :
    p ∈ runtimePaths ++ before.flatMap fun e => [classPath e] := by
  have hreferred : ∀ n ∈ d.uses, ctx.reference n = .ok p →
      p ∈ runtimePaths ++ before.flatMap fun e => [classPath e] := by
    intro n hn hreference
    obtain ⟨e, he, rfl⟩ := List.mem_map.1 (huses n hn)
    rw [reference_eq_classPath h (hbefore e he)] at hreference
    cases hreference
    exact List.mem_append_right _ (List.mem_flatMap.2 ⟨e, he, List.mem_singleton_self _⟩)
  obtain ⟨-, hparent | ⟨n, hn, hreference⟩⟩ := (hcode.reads p).1 hp
  · rcases superclass_eq_ok hparent with rfl | rfl | ⟨n, hn, hreference⟩
    · exact List.mem_append_left _ (by decide)
    · exact List.mem_append_left _ (by decide)
    · exact hreferred n hn hreference
  · exact hreferred n (d.parts_subset_uses hn) hreference

theorem providedFirst_classes (h : ctx.Renders backend)
    (huses : ∀ before d after, ctx.schema.ordered = before ++ d :: after →
      ∀ n ∈ d.uses, n ∈ before.map TypeDef.name)
    (hclasses : List.Forall₂ (Loads ctx) ctx.schema.ordered classes) :
    ProvidedFirst evaluated (fun line => (openedPath? line).toList) runtimePaths
      (loaded classes.flatten) := by
  rw [loaded_flatten]
  have hopens : ∀ d ∈ ctx.schema.ordered, ∀ code, Loads ctx d code →
      ((loaded code).flatMap fun line => (openedPath? line).toList) =
        (fun e => [classPath e]) d := by
    intro d _ code hcode
    rw [← List.filterMap_eq_flatMap_toList]
    exact hcode.opens
  refine providedFirst_of_forall₂ hclasses hopens ?_
  intro before d after hsplit code hcode line hline p hp
  exact hcode.mem_of_mem h (h.consistent.mem_of_split hsplit).1 (huses before d after hsplit)
    (List.mem_flatMap.2 ⟨line, hline, hp⟩)

end

section
variable {name version : String} {declared : List TypeDef} {s : Schema} {r : Registry}
  {project : String} {files : List GeneratedFile}

/-- If labels, fields and variants are identifiers, generated files are in order. -/
theorem exists_inOrder (hs : Schema.build name version declared = .ok s)
    (hentries : ∀ d ∈ declared, ∀ n ∈ d.entries, Text.isIdentifier n = true)
    (hoffers : r.Offers backend) (hfiles : r.generate s language project = .ok files) :
    ∃ classes, FilesOf (r.context language project s) classes files ∧
      InOrder (r.context language project s) classes := by
  obtain ⟨classes, hclasses, hrenders, -, hopened⟩ := exists_opened hs hoffers hfiles
  have hnames : ∀ d ∈ s.definitions, Text.isIdentifier d.name = true :=
    fun d hd => Schema.isIdentifier_of_mem_names hs (List.mem_map_of_mem hd)
  have hall : ∀ d ∈ s.ordered, ∀ n ∈ d.entries, Text.isIdentifier n = true :=
    (Schema.forall_ordered_iff hs fun _ => List.forall_mem_nil _).2 hentries
  have hloads : List.Forall₂ (Loads (r.context language project s)) s.ordered classes := by
    refine ((List.forall₂_and_left _ _).2 ⟨fun d hd => hd, hclasses.rendered⟩).imp ?_
    rintro d code ⟨hd, hcode⟩
    exact loads_class hrenders (hrenders.consistent.listed.mem_iff.1 hd) hnames (hall d hd) hcode
  refine ⟨classes, hclasses, hopened, hloads, exists_loaded_source _ _,
    providedFirst_classes hrenders ?_ hloads⟩
  exact fun before d after hsplit => Schema.uses_before hs hsplit

end

end WireCodec.Target.Ruby
