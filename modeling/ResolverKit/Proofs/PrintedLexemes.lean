import ResolverKit.Proofs.SpelledText
import ResolverKit.Schema.Extraction

/-!
# Lexemes of a printed document

The lexemes that each part of a document is printed as.  Signs that the printer leaves out, such as
the bar in front of the first member of a union, are not among them.
-/

namespace ResolverKit.Sdl

/-! ## Lexemes -/

def bangLexemes (required : Bool) : List Lexeme := if required then [.punct .bang] else []

def TypeRef.lexemes : TypeRef → List Lexeme
  | .named n required => .name n :: bangLexemes required
  | .list t required => .punct .bracketL :: (t.lexemes ++ .punct .bracketR :: bangLexemes required)

mutual

def Value.lexemes : Value → List Lexeme
  | .variable n => [.punct .dollar, .name n]
  | .int t => [.int t]
  | .float t => [.float t]
  | .string lit => [.string lit]
  | .boolean b => [.name (if b then "true" else "false")]
  | .null => [.name "null"]
  | .enum n => [.name n]
  | .list items => .punct .bracketL :: (valueLexemes items).flatten ++ [.punct .bracketR]
  | .object fields => .punct .braceL :: (entryLexemes fields).flatten ++ [.punct .braceR]

def valueLexemes : List Value → List (List Lexeme)
  | [] => []
  | v :: r => v.lexemes :: valueLexemes r

def entryLexemes : List (String × Value) → List (List Lexeme)
  | [] => []
  | (n, v) :: r => (.name n :: .punct .colon :: v.lexemes) :: entryLexemes r

end

def Argument.lexemes (a : Argument) : List Lexeme :=
  .name a.name :: .punct .colon :: a.value.lexemes

def argumentLexemes (as : List Argument) : List Lexeme :=
  wrap [.punct .parenL] (as.map Argument.lexemes).flatten [.punct .parenR]

def Directive.lexemes (d : Directive) : List Lexeme :=
  .punct .at :: .name d.name :: argumentLexemes d.arguments

def directiveLexemes (ds : List Directive) : List Lexeme := (ds.map Directive.lexemes).flatten

def descriptionLexemes (d : Option StringLit) : List Lexeme := d.toList.map .string

def defaultLexemes : Option Value → List Lexeme
  | some v => .punct .equals :: v.lexemes
  | none => []

/-- The lexemes of an argument definition or an input field. -/
def InputValue.lexemes (v : InputValue) : List Lexeme :=
  descriptionLexemes v.description ++ .name v.name :: .punct .colon :: (v.type.lexemes ++
    defaultLexemes v.default ++ directiveLexemes v.directives)

def argumentDefLexemes (args : List InputValue) : List Lexeme :=
  wrap [.punct .parenL] (args.map InputValue.lexemes).flatten [.punct .parenR]

def FieldDef.lexemes (f : FieldDef) : List Lexeme :=
  descriptionLexemes f.description ++ .name f.name :: (argumentDefLexemes f.arguments ++
    .punct .colon :: (f.type.lexemes ++ directiveLexemes f.directives))

def EnumValue.lexemes (v : EnumValue) : List Lexeme :=
  descriptionLexemes v.description ++ .name v.name :: directiveLexemes v.directives

def operationTypeLexemes (op : OperationKind × String) : List Lexeme :=
  [.name op.1.text, .punct .colon, .name op.2]

/-- Names with a sign between them. -/
def nameLexemes (sep : Punctuator) (names : List String) : List Lexeme :=
  [.punct sep].intercalate (names.map fun n => [.name n])

@[simp] theorem nameLexemes_nil (sep : Punctuator) : nameLexemes sep [] = [] := rfl

@[simp] theorem nameLexemes_singleton (sep : Punctuator) (n : String) :
    nameLexemes sep [n] = [.name n] := by simp [nameLexemes]

@[simp] theorem nameLexemes_cons_cons (sep : Punctuator) (n m : String) (r : List String) :
    nameLexemes sep (n :: m :: r) = .name n :: .punct sep :: nameLexemes sep (m :: r) := by
  simp [nameLexemes, List.intercalate_cons_cons]

theorem nameLexemes_ne_nil {sep : Punctuator} {names : List String} (h : names ≠ []) :
    nameLexemes sep names ≠ [] := by
  rcases names with - | ⟨n, - | ⟨m, r⟩⟩
  · exact absurd rfl h
  · simp
  · simp

def interfaceLexemes (names : List String) : List Lexeme :=
  wrap [.name "implements"] (nameLexemes .amp names) []

def bracedLexemes (entries : List (List Lexeme)) : List Lexeme :=
  wrap [.punct .braceL] entries.flatten [.punct .braceR]

/-- The lexemes of the body of a type behind its name. -/
def bodyLexemes (directives : List Directive) : TypeShape → List Lexeme
  | .scalar => directiveLexemes directives
  | .object interfaces fields => interfaceLexemes interfaces ++ directiveLexemes directives ++
      bracedLexemes (fields.map FieldDef.lexemes)
  | .interface interfaces fields => interfaceLexemes interfaces ++ directiveLexemes directives ++
      bracedLexemes (fields.map FieldDef.lexemes)
  | .union members => directiveLexemes directives ++
      wrap [.punct .equals] (nameLexemes .pipe members) []
  | .enum values => directiveLexemes directives ++ bracedLexemes (values.map EnumValue.lexemes)
  | .input fields => directiveLexemes directives ++ bracedLexemes (fields.map InputValue.lexemes)

def typeLexemes (name : String) (directives : List Directive) (shape : TypeShape) : List Lexeme :=
  .name shape.kind.keyword :: .name name :: bodyLexemes directives shape

/-- The lexemes of a definition of the type system; other definitions do not count. -/
def Definition.lexemes : Definition → List Lexeme
  | .operation _ _ _ _ _ _ => []
  | .fragment _ _ _ _ _ => []
  | .schema description directives operations =>
    descriptionLexemes description ++ .name "schema" :: (directiveLexemes directives ++
      bracedLexemes (operations.map operationTypeLexemes))
  | .extendSchema directives operations =>
    .name "extend" :: .name "schema" :: (directiveLexemes directives ++
      bracedLexemes (operations.map operationTypeLexemes))
  | .type description name directives shape =>
    descriptionLexemes description ++ typeLexemes name directives shape
  | .extendType name directives shape => .name "extend" :: typeLexemes name directives shape
  | .directive description name args directives repeatable locations =>
    descriptionLexemes description ++ .name "directive" :: .punct .at :: .name name ::
      (argumentDefLexemes args ++ directiveLexemes directives ++
        (if repeatable then [.name "repeatable"] else []) ++
        .name "on" :: nameLexemes .pipe locations)
  | .extendDirective name directives =>
    .name "extend" :: .name "directive" :: .punct .at :: .name name :: directiveLexemes directives

/-! ## Sound lexemes -/

def AllSound (ls : List Lexeme) : Prop := ∀ l ∈ ls, l.IsSound

@[simp] theorem allSound_nil : AllSound [] := by simp [AllSound]

@[simp] theorem allSound_cons {l : Lexeme} {ls : List Lexeme} :
    AllSound (l :: ls) ↔ l.IsSound ∧ AllSound ls := by simp [AllSound]

@[simp] theorem allSound_append {ls ls' : List Lexeme} :
    AllSound (ls ++ ls') ↔ AllSound ls ∧ AllSound ls' := by simp [AllSound, or_imp, forall_and]

@[simp] theorem allSound_flatten {ls : List (List Lexeme)} :
    AllSound ls.flatten ↔ ∀ x ∈ ls, AllSound x := by
  simp only [AllSound, List.mem_flatten]
  exact ⟨fun h x hx l hl => h l ⟨x, hx, hl⟩, fun h l ⟨x, hx, hl⟩ => h x hx l hl⟩

theorem allSound_flatten_map {α : Type} {lexemes : α → List Lexeme} {as : List α} :
    AllSound (as.map lexemes).flatten ↔ ∀ a ∈ as, AllSound (lexemes a) := by
  rw [allSound_flatten, List.forall_mem_map]

@[simp] theorem isSound_punct (p : Punctuator) : (Lexeme.punct p).IsSound := trivial

@[simp] theorem isSound_name {n : String} : (Lexeme.name n).IsSound ↔ IsName n := Iff.rfl

theorem allSound_wrap {o c ls : List Lexeme} (ho : AllSound o) (hc : AllSound c) :
    AllSound (wrap o ls c) ↔ AllSound ls := by
  unfold wrap
  split
  · next h => simp [h]
  · simp [ho, hc]

/-! ## Types and values -/

theorem TypeRef.lexemes_ne_nil (t : TypeRef) : t.lexemes ≠ [] := by cases t <;> simp [lexemes]

theorem isMarks_bang (required : Bool) :
    IsMarks (if required then "!" else "") (bangLexemes required) := by
  cases required <;> decide

theorem TypeRef.spells {t : TypeRef} (h : AllSound t.lexemes) : Spells t.print t.lexemes := by
  induction t with
  | named n required =>
    have hn : IsName n := (allSound_cons.1 h).1
    exact (Spells.name hn).append_marks (isMarks_bang required) (by simp)
  | list t required ih =>
    have ht : Spells t.print t.lexemes := ih (by simp_all [lexemes])
    have hopen : Closes "[" [.punct .bracketL] := IsMarks.closes (by decide)
    have hclose : IsMarks "]" [.punct .bracketR] := by decide
    refine (((hopen.spells ht (by simp)).append_marks hclose (by simp)).append_marks
      (isMarks_bang required) (by simp)).of_eq ?_
    simp [lexemes]

theorem spells_printList {items : List String} {ls : List (List Lexeme)}
    (h : List.Forall₂ Spells items ls) :
    Spells (printList items) (.punct .bracketL :: ls.flatten ++ [.punct .bracketR]) := by
  unfold printList
  dsimp only
  split
  · have hopen : Closes "[\n" [.punct .bracketL] := IsMarks.closes (by decide)
    exact (hopen.spells (Spells.joined_blank (by decide) (by decide) h).indented
      (by simp)).append_marks (by decide) (by simp)
  · have hopen : Closes "[" [.punct .bracketL] := IsMarks.closes (by decide)
    exact (hopen.spells (Spells.joined_blank (by decide) (by decide) h) (by simp)).append_marks
      (by decide) (by simp)

theorem spells_printObject {fields : List String} {ls : List (List Lexeme)}
    (h : List.Forall₂ Spells fields ls) :
    Spells (printObject fields) (.punct .braceL :: ls.flatten ++ [.punct .braceR]) := by
  have hjoined : Spells (joined ", " fields) ls.flatten :=
    .joined_blank (by decide) (by decide) h
  unfold printObject
  dsimp only
  split
  · next hwide =>
    refine (Spells.braced h).of_eq ?_
    have hne : ls.flatten ≠ [] := by
      intro hnil
      rw [hjoined.empty hnil] at hwide
      revert hwide
      decide
    rw [wrap, if_neg hne]
    rfl
  · have hopen : Closes "\x7b " [.punct .braceL] := IsMarks.closes (by decide)
    exact (hopen.spells hjoined (by simp)).append_marks (by decide) (by simp)

/-- A name, a colon and what follows it. -/
theorem Spells.entry {n s : String} {ls : List Lexeme} (hn : IsName n) (h : Spells s ls)
    (hne : ls ≠ []) : Spells (n ++ ": " ++ s) (.name n :: .punct .colon :: ls) :=
  (Spells.name hn).join (by decide : IsMarks ": " [.punct .colon]) (by decide) h hne

theorem Value.lexemes_ne_nil (v : Value) : v.lexemes ≠ [] := by cases v <;> simp [lexemes]

mutual

theorem Value.spells : (v : Value) → AllSound v.lexemes → Spells v.print v.lexemes
  | .variable n, h => by
    have hn : IsName n := by simp_all [Value.lexemes]
    have hopen : Closes "$" [.punct .dollar] := IsMarks.closes (by decide)
    exact hopen.spells (.name hn) (by simp)
  | .int t, h => .lexeme (l := .int t) (by simpa [Value.lexemes] using h) (by simp)
  | .float t, h => .lexeme (l := .float t) (by simpa [Value.lexemes] using h) (by simp)
  | .string lit, h => .lexeme (l := .string lit) (by simpa [Value.lexemes] using h) (by simp)
  | .boolean b, h => by cases b <;> exact .name (by decide)
  | .null, _ => .name (by decide)
  | .enum n, h => Spells.name (show IsName n by simpa [Value.lexemes] using h)
  | .list items, h => spells_printList (spells_printValues items (by simp_all [Value.lexemes]))
  | .object fields, h =>
    spells_printObject (spells_printEntries fields (by simp_all [Value.lexemes]))

theorem spells_printValues : (vs : List Value) → (∀ x ∈ valueLexemes vs, AllSound x) →
    List.Forall₂ Spells (printValues vs) (valueLexemes vs)
  | [], _ => .nil
  | v :: r, h => .cons (v.spells (h _ (.head _)))
      (spells_printValues r fun x hx => h x (.tail _ hx))

theorem spells_printEntries : (es : List (String × Value)) → (∀ x ∈ entryLexemes es, AllSound x) →
    List.Forall₂ Spells (printEntries es) (entryLexemes es)
  | [], _ => .nil
  | (n, v) :: r, h => by
    have hentry : AllSound (.name n :: .punct .colon :: v.lexemes) := h _ (.head _)
    simp only [allSound_cons, isSound_name] at hentry
    exact .cons (.entry hentry.1 (v.spells hentry.2.2) v.lexemes_ne_nil)
      (spells_printEntries r fun x hx => h x (.tail _ hx))

end

/-! ## Directives -/

/-- What holds of each element, on two lists that are made of it. -/
theorem forall₂_map {α : Type} {text : α → String} {lexemes : α → List Lexeme} {as : List α}
    (h : ∀ a ∈ as, Spells (text a) (lexemes a)) :
    List.Forall₂ Spells (as.map text) (as.map lexemes) := by
  rw [List.forall₂_map_left_iff, List.forall₂_map_right_iff, List.forall₂_same]
  exact h

theorem Argument.spells {a : Argument} (h : AllSound a.lexemes) : Spells a.print a.lexemes := by
  simp only [lexemes, allSound_cons, isSound_name] at h
  exact .entry h.1 (a.value.spells h.2.2) a.value.lexemes_ne_nil

/-- Parts on one line in parentheses. -/
theorem spells_parens {parts : List String} {ls : List (List Lexeme)}
    (h : List.Forall₂ Spells parts ls) : Spells (wrapped "(" (joined ", " parts) ")")
      (wrap [.punct .parenL] ls.flatten [.punct .parenR]) :=
  .wrapped (IsMarks.closes (by decide)) (.joined_blank (by decide) (by decide) h) (by decide)

theorem Directive.spells {d : Directive} (h : AllSound d.lexemes) : Spells d.print d.lexemes := by
  simp only [lexemes, argumentLexemes, allSound_cons, isSound_name] at h
  rw [allSound_wrap (by simp) (by simp), allSound_flatten] at h
  obtain ⟨-, hn, hargs⟩ := h
  have hopen : Closes "@" [.punct .at] := IsMarks.closes (by decide)
  have harguments := spells_parens (forall₂_map fun a ha =>
    Argument.spells (hargs _ (List.mem_map_of_mem ha)))
  exact (hopen.spells (.name hn) (by simp)).append harguments
    (startsNew_wrapped (by decide) (by decide) _ _)

theorem spells_printDirectives {ds : List Directive} (h : AllSound (directiveLexemes ds)) :
    Spells (printDirectives ds) (directiveLexemes ds) := by
  rw [directiveLexemes, allSound_flatten] at h
  exact .joined_blank (by decide) (by decide)
    (forall₂_map fun d hd => d.spells (h _ (List.mem_map_of_mem hd)))

/-! ## Parts of definitions -/

theorem closes_printDescription {d : Option StringLit} (h : AllSound (descriptionLexemes d)) :
    Closes (printDescription d) (descriptionLexemes d) := by
  cases d with
  | none => exact IsMarks.closes (by decide : IsMarks "" [])
  | some lit =>
    have hlit : Spells lit.print [.string lit] :=
      .lexeme (l := .string lit) (by simpa [descriptionLexemes] using h) (by simp)
    have hne : lit.print ≠ "" := mt hlit.eq_empty_iff.1 (by simp)
    have hnewline : IsMarks "\n" [] := by decide
    rw [printDescription, wrapped, if_neg hne, String.empty_append]
    exact hlit.closes hnewline.closes hnewline.startsNew (by decide)

theorem spells_printDefault {v : Option Value} {lead : String}
    (hlead : IsMarks lead [.punct .equals]) (h : AllSound (defaultLexemes v)) :
    Spells (printDefault lead v) (defaultLexemes v) := by
  cases v with
  | none => exact .nil
  | some v =>
    have hv := v.spells (by simpa [defaultLexemes] using h)
    refine (Spells.wrapped hlead.closes hv (by decide : IsMarks "" [])).of_eq ?_
    rw [wrap, if_neg v.lexemes_ne_nil]
    simp [defaultLexemes]

theorem InputValue.spells {v : InputValue} (h : AllSound v.lexemes) :
    Spells v.print v.lexemes := by
  simp only [lexemes, allSound_append, allSound_cons, isSound_name] at h
  obtain ⟨hdescription, hn, -, ⟨htype, hdefault⟩, hdirectives⟩ := h
  have hparts := Spells.joined_blank (by decide : IsMarks " " []) (by decide)
    (.cons (.entry hn (TypeRef.spells htype) v.type.lexemes_ne_nil)
      (.cons (spells_printDefault (by decide : IsMarks "= " _) hdefault)
        (.cons (spells_printDirectives hdirectives) .nil)))
  refine ((closes_printDescription hdescription).spells hparts (by simp)).of_eq ?_
  simp [lexemes]

theorem spells_printArgumentDefs {args : List InputValue} (h : AllSound (argumentDefLexemes args)) :
    Spells (printArgumentDefs args) (argumentDefLexemes args) := by
  rw [argumentDefLexemes, allSound_wrap (by simp) (by simp), allSound_flatten] at h
  have hargs := forall₂_map fun v hv => InputValue.spells (h _ (List.mem_map_of_mem hv))
  unfold printArgumentDefs
  dsimp only
  split
  · exact .wrapped (IsMarks.closes (by decide))
      (Spells.joined_blank (by decide) (by decide) hargs).indented (by decide)
  · exact spells_parens hargs

theorem startsNew_printArgumentDefs (args : List InputValue) :
    StartsNew (printArgumentDefs args) := by
  unfold printArgumentDefs
  dsimp only
  split
  · exact startsNew_wrapped (by decide) (by decide) _ _
  · exact startsNew_wrapped (by decide) (by decide) _ _

/-- Directives behind a space. -/
theorem Spells.append_directives {s : String} {ls : List Lexeme} {ds : List Directive}
    (hs : Spells s ls) (h : AllSound (directiveLexemes ds)) :
    Spells (s ++ Sdl.wrapped " " (printDirectives ds) "") (ls ++ directiveLexemes ds) := by
  have hspace : IsMarks " " [] := by decide
  have hdirectives := Spells.wrapped hspace.closes (spells_printDirectives h)
    (by decide : IsMarks "" [])
  rw [wrap_nil_nil] at hdirectives
  exact hs.append hdirectives (startsNew_wrapped hspace.startsNew (by decide) _ _)

theorem FieldDef.spells {f : FieldDef} (h : AllSound f.lexemes) : Spells f.print f.lexemes := by
  simp only [lexemes, allSound_append, allSound_cons, isSound_name] at h
  obtain ⟨hdescription, hn, harguments, -, htype, hdirectives⟩ := h
  have hcolon : IsMarks ": " [.punct .colon] := by decide
  have hfront := ((closes_printDescription hdescription).spells (.name hn) (by simp)).append
    (spells_printArgumentDefs harguments) (startsNew_printArgumentDefs f.arguments)
  refine ((hfront.join hcolon (by decide) (TypeRef.spells htype)
    f.type.lexemes_ne_nil).append_directives hdirectives).of_eq ?_
  simp [lexemes]

theorem EnumValue.spells {v : EnumValue} (h : AllSound v.lexemes) : Spells v.print v.lexemes := by
  simp only [lexemes, allSound_append, allSound_cons, isSound_name] at h
  obtain ⟨hdescription, hn, hdirectives⟩ := h
  have hparts := Spells.joined_blank (by decide : IsMarks " " []) (by decide)
    (.cons (.name hn) (.cons (spells_printDirectives hdirectives) .nil))
  refine ((closes_printDescription hdescription).spells hparts (by simp)).of_eq ?_
  simp [lexemes]

theorem spells_printOperationType {op : OperationKind × String}
    (h : AllSound (operationTypeLexemes op)) :
    Spells (printOperationType op) (operationTypeLexemes op) := by
  simp only [operationTypeLexemes, allSound_cons, isSound_name] at h
  exact .entry h.1 (.name h.2.2.1) (by simp)

theorem allSound_nameLexemes {p : Punctuator} {names : List String} :
    AllSound (nameLexemes p names) ↔ ∀ n ∈ names, IsName n := by
  induction names with
  | nil => simp
  | cons n r ih =>
    cases r with
    | nil => simp
    | cons m r =>
      rw [nameLexemes_cons_cons, allSound_cons, allSound_cons, ih, List.forall_mem_cons]
      simp

/-- Names with a sign between them. -/
theorem spells_joined_names {sep : String} {p : Punctuator} {names : List String}
    (hsep : IsMarks sep [.punct p]) (hne : sep ≠ "") (h : AllSound (nameLexemes p names)) :
    Spells (joined sep names) (nameLexemes p names) := by
  rw [allSound_nameLexemes] at h
  have hfilter : (names.map fun n => [Lexeme.name n]).filter (· ≠ []) =
      names.map fun n => [Lexeme.name n] := List.filter_eq_self.2 (by simp)
  have hnames := Spells.joined hsep hne (forall₂_map fun n hn => Spells.name (h n hn))
  rwa [List.map_id', hfilter] at hnames

/-- A keyword with the space behind it. -/
theorem closes_keyword {k s : String} (hk : IsName k) (hs : s = k ++ " ") :
    Closes s [.name k] := by
  have hspace : IsMarks " " [] := by decide
  rw [hs]
  exact (Spells.name hk).closes hspace.closes hspace.startsNew (by decide)

theorem spells_printInterfaces {names : List String} (h : AllSound (interfaceLexemes names)) :
    Spells (printInterfaces names) (interfaceLexemes names) := by
  rw [interfaceLexemes, allSound_wrap (by simp; decide) (by simp)] at h
  exact .wrapped (closes_keyword (by decide) rfl) (spells_joined_names (by decide) (by decide) h)
    (by decide)

/-- Entries of a block. -/
theorem spells_braced {α : Type} {text : α → String} {lexemes : α → List Lexeme} {as : List α}
    (hspells : ∀ a, AllSound (lexemes a) → Spells (text a) (lexemes a))
    (h : AllSound (bracedLexemes (as.map lexemes))) :
    Spells (braced (as.map text)) (bracedLexemes (as.map lexemes)) := by
  rw [bracedLexemes, allSound_wrap (by simp) (by simp), allSound_flatten] at h
  exact .braced (forall₂_map fun a ha => hspells a (h _ (List.mem_map_of_mem ha)))

/-! ## Definitions -/

theorem isName_keyword (kind : TypeKind) : IsName kind.keyword := by cases kind <;> decide

/-- A keyword and a name, and the parts behind them. -/
theorem spells_typeParts {k n : String} {parts : List String} {ls : List (List Lexeme)}
    (hk : IsName k) (hn : IsName n) (h : List.Forall₂ Spells parts ls) :
    Spells (joined " " (k :: n :: parts)) (.name k :: .name n :: ls.flatten) :=
  .joined_blank (by decide) (by decide) (.cons (.name hk) (.cons (.name hn) h))

/-- The parts of a type with fields. -/
theorem spells_fieldParts {k n : String} {interfaces : List String} {ds : List Directive}
    {fields : List FieldDef} (hk : IsName k) (hn : IsName n)
    (h : AllSound (interfaceLexemes interfaces ++ directiveLexemes ds ++
      bracedLexemes (fields.map FieldDef.lexemes))) :
    Spells (joined " " [k, n, printInterfaces interfaces, printDirectives ds,
        braced (fields.map FieldDef.print)])
      (.name k :: .name n :: (interfaceLexemes interfaces ++ directiveLexemes ds ++
        bracedLexemes (fields.map FieldDef.lexemes))) := by
  simp only [allSound_append] at h
  obtain ⟨⟨hinterfaces, hds⟩, hfields⟩ := h
  exact (spells_typeParts hk hn (.cons (spells_printInterfaces hinterfaces)
    (.cons (spells_printDirectives hds)
      (.cons (spells_braced (fun _ => FieldDef.spells) hfields) .nil)))).of_eq (by simp)

theorem spells_printType {name : String} {ds : List Directive} {shape : TypeShape}
    (h : AllSound (typeLexemes name ds shape)) :
    Spells (printType name ds shape) (typeLexemes name ds shape) := by
  simp only [typeLexemes, allSound_cons, isSound_name] at h
  obtain ⟨hk, hn, hbody⟩ := h
  cases shape with
  | scalar =>
    exact (spells_typeParts hk hn (.cons (spells_printDirectives hbody) .nil)).of_eq
      (by simp [typeLexemes, bodyLexemes])
  | object interfaces fields => exact spells_fieldParts hk hn hbody
  | interface interfaces fields => exact spells_fieldParts hk hn hbody
  | union members =>
    simp only [bodyLexemes, allSound_append] at hbody
    obtain ⟨hds, hmembers⟩ := hbody
    rw [allSound_wrap (by simp) (by simp)] at hmembers
    have hequals : IsMarks "= " [.punct .equals] := by decide
    have hnames := Spells.wrapped hequals.closes
      (spells_joined_names (by decide : IsMarks " | " _) (by decide) hmembers)
      (by decide : IsMarks "" [])
    exact (spells_typeParts hk hn (.cons (spells_printDirectives hds) (.cons hnames .nil))).of_eq
      (by simp [typeLexemes, bodyLexemes])
  | «enum» values =>
    simp only [bodyLexemes, allSound_append] at hbody
    obtain ⟨hds, hvalues⟩ := hbody
    exact (spells_typeParts hk hn (.cons (spells_printDirectives hds)
      (.cons (spells_braced (fun _ => EnumValue.spells) hvalues) .nil))).of_eq
      (by simp [typeLexemes, bodyLexemes])
  | input fields =>
    simp only [bodyLexemes, allSound_append] at hbody
    obtain ⟨hds, hfields⟩ := hbody
    exact (spells_typeParts hk hn (.cons (spells_printDirectives hds)
      (.cons (spells_braced (fun _ => InputValue.spells) hfields) .nil))).of_eq
      (by simp [typeLexemes, bodyLexemes])

/-- Directives and the operations of a schema behind its keyword. -/
theorem spells_schemaParts {front : String} {lfront : List Lexeme} {ds : List Directive}
    {ops : List (OperationKind × String)} (hfront : Spells front lfront)
    (hds : AllSound (directiveLexemes ds))
    (hops : AllSound (bracedLexemes (ops.map operationTypeLexemes))) :
    Spells (joined " " [front, printDirectives ds, braced (ops.map printOperationType)])
      (lfront ++ (directiveLexemes ds ++ bracedLexemes (ops.map operationTypeLexemes))) := by
  refine (Spells.joined_blank (by decide) (by decide) (.cons hfront
    (.cons (spells_printDirectives hds)
      (.cons (spells_braced (fun _ => spells_printOperationType) hops) .nil)))).of_eq ?_
  simp

/-- The words before the name of a directive. -/
theorem closes_directive : Closes "directive @" [.name "directive", .punct .at] := by
  have hat : IsMarks " @" [.punct .at] := by decide
  have hword : IsName "directive" := by decide
  have htext : "directive @" = "directive" ++ " @" := rfl
  rw [htext]
  exact (Spells.name hword).closes hat.closes hat.startsNew (by decide)

theorem closes_extend : Closes "extend " [.name "extend"] := closes_keyword (by decide) rfl

theorem spells_repeatable (repeatable : Bool) :
    Spells (if repeatable then " repeatable" else "")
      (if repeatable then [.name "repeatable"] else []) := by
  have hspace : IsMarks " " [] := by decide
  cases repeatable with
  | false => exact .nil
  | true => exact hspace.closes.spells (.name (by decide : IsName "repeatable")) (by simp)

theorem startsNew_repeatable (repeatable : Bool) :
    StartsNew (if repeatable then " repeatable" else "") := by
  cases repeatable <;> decide

theorem closes_on : Closes " on " [.name "on"] := by
  have hspace : IsMarks " " [] := by decide
  have hword : IsName "on" := by decide
  have htext : " on " = " " ++ "on " := rfl
  rw [htext]
  exact hspace.closes.append (closes_keyword hword rfl)

theorem Definition.spells {x : Definition} (hplain : Schema.executableLabel? x = none)
    (h : AllSound x.lexemes) : Spells x.print x.lexemes := by
  cases x with
  | operation => cases hplain
  | fragment => cases hplain
  | schema description ds ops =>
    simp only [lexemes, allSound_append, allSound_cons] at h
    obtain ⟨hdescription, hk, hds, hops⟩ := h
    exact (closes_printDescription hdescription).spells
      (spells_schemaParts (.name hk) hds hops) (by simp)
  | extendSchema ds ops =>
    simp only [lexemes, allSound_append, allSound_cons] at h
    obtain ⟨-, hk, hds, hops⟩ := h
    have htext : "extend schema" = "extend " ++ "schema" := rfl
    have hfront : Spells "extend schema" [.name "extend", .name "schema"] := by
      rw [htext]
      exact closes_extend.spells (.name hk) (by simp)
    exact spells_schemaParts hfront hds hops
  | type description name ds shape =>
    simp only [lexemes, allSound_append] at h
    exact (closes_printDescription h.1).spells (spells_printType h.2) (by simp [typeLexemes])
  | extendType name ds shape =>
    simp only [lexemes, allSound_cons] at h
    exact closes_extend.spells (spells_printType h.2) (by simp)
  | directive description name args ds repeatable locations =>
    simp only [lexemes, allSound_append, allSound_cons, isSound_name] at h
    obtain ⟨hdescription, -, -, hn, ⟨⟨hargs, hds⟩, -⟩, hon, hlocations⟩ := h
    have hfront := (((closes_printDescription hdescription).append closes_directive).spells
      (.name hn) (by simp)).append (spells_printArgumentDefs hargs)
      (startsNew_printArgumentDefs args)
    have hwords := ((hfront.append_directives hds).append (spells_repeatable repeatable)
      (startsNew_repeatable repeatable)).closes closes_on (by decide) (by decide)
    have hnames := spells_joined_names (by decide : IsMarks " | " _) (by decide) hlocations
    refine (hwords.spells hnames (by simp)).of_eq ?_
    simp [lexemes]
  | extendDirective name ds =>
    simp only [lexemes, allSound_cons, isSound_name] at h
    obtain ⟨-, -, -, hn, hds⟩ := h
    have hfront : Spells ("extend directive @" ++ name)
        [.name "extend", .name "directive", .punct .at, .name name] :=
      (closes_extend.append closes_directive).spells (.name hn) (by simp)
    refine (Spells.joined_blank (by decide) (by decide)
      (.cons hfront (.cons (spells_printDirectives hds) .nil))).of_eq ?_
    simp [lexemes]

def Document.lexemes (d : Document) : List Lexeme := (d.map Definition.lexemes).flatten

/-- A printed document is cut into its lexemes. -/
theorem Document.placed_tokens {d : Document} (hplain : ∀ x ∈ d, Schema.executableLabel? x = none)
    (h : ∀ x ∈ d, AllSound x.lexemes) :
    Placed (Document.lexemes d ++ [.endOfText]) (tokens (Document.print d)) := by
  have hspells : Spells (Document.print d) (Document.lexemes d) :=
    .joined_blank (by decide) (by decide) (forall₂_map fun x hx => x.spells (hplain x hx) (h x hx))
  obtain ⟨ts, hts, htokens⟩ := hspells.cuts 0 0 [] (fun c hc => nomatch hc)
  rw [spread_zero, List.append_nil] at htokens
  rw [tokens, htokens, tokensFrom]
  exact hts.append (.cons ⟨_, rfl⟩ .nil)

end ResolverKit.Sdl
