import ResolverKit.Proofs.CleanPlans

/-!
# The layout of generated code

The writers indent by hand, and `format` indents again by the brackets of each row.  On generated
code the two agree: `format_keeps_rows` says that the rows with code stay the same, in their order,
but for what stands for one step of their indentation, and that the depth never has to be cut off
at zero and ends there.
-/

namespace ResolverKit.Code

open Text (Unbroken isBlank splitLines trim)
open Sdl (Document)

/-! ## Rows with code -/

def isCodeRow (row : List Char) : Bool := !(trim row).isEmpty

def codeRows (code : String) : List (List Char) := (splitLines code.toList).filter isCodeRow

def leadingSpaces (row : List Char) : Nat := (row.takeWhile (· = ' ')).length

/-- The row with every two spaces at its front replaced by one step of indentation. -/
def reindent (o : LayoutOptions) (row : List Char) : List Char :=
  (List.replicate (leadingSpaces row / 2) o.unit).flatten ++ row.dropWhile (· = ' ')

/-- While these rows are laid out, the depth suffices for all brackets that are closed. -/
def Unclamped (unit : List Char) : Layout → List (List Char) → Prop
  | _, [] => True
  | l, row :: r =>
    leadingClosers (trim row) ≤ l.depth ∧ 0 ≤ l.depth + bracketDelta (trim row) ∧
      Unclamped unit (l.add unit row) r

/-- The second text is the first one laid out, and nothing but its indentation and its blank rows
has changed. -/
structure Relaid (o : LayoutOptions) (raw pretty : String) : Prop where
  rows : codeRows pretty = (codeRows raw).map (reindent o)
  even : ∀ row ∈ codeRows raw, leadingSpaces row % 2 = 0
  standard : o = .standard → codeRows pretty = codeRows raw
  unclamped : Unclamped o.unit ⟨[], 0⟩ (splitLines raw.toList)
  closed : (layout o.unit raw.toList).depth = 0

/-! ## One line -/

def Line.laid (unit : List Char) (l : Line) : List Char :=
  (List.replicate l.indent unit).flatten ++ l.text.toList

theorem Line.toList_render (l : Line) :
    l.render.toList = List.replicate (2 * l.indent) ' ' ++ l.text.toList := by
  rw [Line.render, String.toList_append, String.toList_ofList]

theorem isBlank_of_mem_unit {o : LayoutOptions} : ∀ c ∈ o.unit, isBlank c = true := by
  intro c hc
  rcases eq_of_mem_unit hc with rfl | rfl <;> rfl

namespace Line.Sits

variable {l : Line} {k m : Nat} (h : l.Sits k m)

include h

theorem trim_text : trim l.text.toList = l.text.toList := Text.trim_eq_self h.head h.last

theorem trim_render : trim l.render.toList = l.text.toList := by
  have hspaces : ∀ c ∈ List.replicate (2 * l.indent) ' ', isBlank c = true := by
    intro c hc
    rw [(List.mem_replicate.1 hc).2]
    rfl
  rw [toList_render, Text.trim_append hspaces, h.trim_text]

theorem trim_laid (o : LayoutOptions) : trim (l.laid o.unit) = l.text.toList := by
  have hunits : ∀ c ∈ (List.replicate l.indent o.unit).flatten, isBlank c = true := fun c hc =>
    isBlank_of_mem_unit c (mem_of_mem_flatten_replicate hc)
  rw [laid, Text.trim_append hunits, h.trim_text]

theorem unbroken_render : Unbroken l.render.toList := by
  rw [toList_render]
  refine Unbroken.append (fun c hc => ?_) h.unbroken
  rw [(List.mem_replicate.1 hc).2]
  rfl

theorem isCodeRow_render : isCodeRow l.render.toList = true := by
  simp [isCodeRow, h.trim_render, h.ne_nil]

theorem isCodeRow_laid (o : LayoutOptions) : isCodeRow (l.laid o.unit) = true := by
  simp [isCodeRow, h.trim_laid o, h.ne_nil]

/-- The front of a line of code is its indentation. -/
theorem span_render : (l.render.toList.takeWhile (· = ' ') = List.replicate (2 * l.indent) ' ') ∧
    l.render.toList.dropWhile (· = ' ') = l.text.toList := by
  have hspaces : ∀ c ∈ List.replicate (2 * l.indent) ' ', decide (c = ' ') = true := by
    intro c hc
    rw [(List.mem_replicate.1 hc).2]
    rfl
  obtain ⟨c, r, hcons⟩ := List.exists_cons_of_ne_nil h.ne_nil
  have hc : c ≠ ' ' := by
    have hblank := h.head c (by rw [hcons]; rfl)
    rintro rfl
    cases hblank
  rw [toList_render, List.takeWhile_append_of_pos hspaces, List.dropWhile_append_of_pos hspaces,
    hcons, List.takeWhile_cons_of_neg (by simpa using hc),
    List.dropWhile_cons_of_neg (by simpa using hc)]
  exact ⟨List.append_nil _, rfl⟩

theorem leadingSpaces_render : leadingSpaces l.render.toList = 2 * l.indent := by
  rw [leadingSpaces, h.span_render.1, List.length_replicate]

theorem reindent_render (o : LayoutOptions) : reindent o l.render.toList = l.laid o.unit := by
  rw [reindent, h.leadingSpaces_render, h.span_render.2, laid]
  congr 3
  omega

/-- Laying out a line where it sits gives the line and the depth behind it. -/
theorem add (o : LayoutOptions) (w : List (List Char)) :
    Layout.add o.unit ⟨w, k⟩ l.render.toList =
      ⟨l.laid o.unit :: if leadingClosers l.text.toList = 0 then w else dropBlank w, m⟩ := by
  have hindent : k - leadingClosers l.text.toList = l.indent := by
    have := h.indent
    omega
  have hdepth : (k + bracketDelta l.text.toList).toNat = m := by
    rw [h.depth]
    rfl
  have hline : Layout.add o.unit ⟨w, k⟩ l.render.toList =
      Layout.addLine o.unit ⟨w, k⟩ l.text.toList := by
    unfold Layout.add
    rw [h.trim_render]
    split
    · next hnil => exact absurd hnil h.ne_nil
    · rfl
  rw [hline]
  simp only [Layout.addLine, hindent, hdepth, laid]

end Line.Sits

/-! ## All lines -/

theorem unbroken_of_mem_rows {ls : List Line} {k m : Nat} (h : Nested k ls m) :
    ∀ r ∈ rows ls, Unbroken r := by
  induction h with
  | nil => simp [rows]
  | blank _ ih =>
    intro r hr
    rcases List.mem_cons.1 hr with rfl | hr
    · decide
    · exact ih r hr
  | line hl _ ih =>
    intro r hr
    rcases List.mem_cons.1 hr with rfl | hr
    · exact hl.unbroken_render
    · exact ih r hr

/-- The rows of a nested file are its lines. -/
theorem splitLines_renderLines {ls : List Line} {k m : Nat} (h : Nested k ls m) :
    splitLines (renderLines (ls ++ [.blank])).toList = rows ls := by
  have hrows : (rows ls).flatMap (fun r => splitLines (r ++ ['\n'])) = (rows ls).flatMap ([·]) :=
    List.flatMap_congr fun r hr => Text.splitLines_of_unbroken (unbroken_of_mem_rows h r hr)
  rw [toList_renderLines, Text.splitLines_flatMap, hrows, List.flatMap_singleton']

theorem filter_dropBlank (w : List (List Char)) :
    (dropBlank w).filter isCodeRow = w.filter isCodeRow := by
  unfold dropBlank
  split
  · rw [List.filter_cons_of_neg (by decide)]
  · rfl

theorem exists_add_blank (unit : List Char) (w : List (List Char)) (k : Nat) :
    ∃ w', Layout.add unit ⟨w, k⟩ Line.blank.render.toList = ⟨w', k⟩ ∧
      w'.filter isCodeRow = w.filter isCodeRow := by
  show ∃ w', Layout.addBlank ⟨w, k⟩ = ⟨w', k⟩ ∧ _
  unfold Layout.addBlank
  split
  · split
    · exact ⟨w, rfl, rfl⟩
    · exact ⟨[] :: w, rfl, List.filter_cons_of_neg (by decide)⟩
  · exact ⟨w, rfl, rfl⟩

/-- Nested lines are laid out as they are, but for their indentation and for blank rows. -/
theorem Nested.foldl_add (o : LayoutOptions) {ls : List Line} {k m : Nat} (h : Nested k ls m)
    (w : List (List Char)) :
    ∃ w', (rows ls).foldl (Layout.add o.unit) ⟨w, k⟩ = ⟨w', m⟩ ∧
      w'.filter isCodeRow =
        (((rows ls).filter isCodeRow).map (reindent o)).reverse ++ w.filter isCodeRow := by
  induction h generalizing w with
  | nil k => exact ⟨w, rfl, rfl⟩
  | blank _ ih =>
    obtain ⟨w₁, hadd, hfilter⟩ := exists_add_blank o.unit w _
    obtain ⟨w₂, hfold, hcode⟩ := ih w₁
    refine ⟨w₂, ?_, ?_⟩
    · rw [rows_cons, List.foldl_cons, hadd]
      exact hfold
    · rw [hcode, hfilter]
      rfl
  | @line k j m l r hl _ ih =>
    obtain ⟨w₂, hfold, hcode⟩ := ih (l.laid o.unit ::
      if leadingClosers l.text.toList = 0 then w else dropBlank w)
    refine ⟨w₂, ?_, ?_⟩
    · rw [rows_cons, List.foldl_cons, hl.add o w]
      exact hfold
    · have hdrop : (if leadingClosers l.text.toList = 0 then w else dropBlank w).filter isCodeRow =
          w.filter isCodeRow := by
        split
        · rfl
        · exact filter_dropBlank w
      rw [hcode, rows_cons, List.filter_cons_of_pos (hl.isCodeRow_laid o), hdrop,
        List.filter_cons_of_pos hl.isCodeRow_render, List.map_cons, hl.reindent_render o,
        List.reverse_cons, List.append_assoc]
      rfl

theorem Nested.unclamped (o : LayoutOptions) {ls : List Line} {k m : Nat} (h : Nested k ls m)
    (w : List (List Char)) : Unclamped o.unit ⟨w, k⟩ (rows ls) := by
  induction h generalizing w with
  | nil => trivial
  | @blank k m r _ ih =>
    obtain ⟨w₁, hadd, -⟩ := exists_add_blank o.unit w k
    refine ⟨Nat.zero_le k, ?_, ?_⟩
    · show (0 : Int) ≤ k + 0
      omega
    · rw [hadd]
      exact ih w₁
  | @line k j m l r hl _ ih =>
    have hindent := hl.indent
    have hdepth := hl.depth
    refine ⟨?_, ?_, ?_⟩
    · rw [hl.trim_render]
      dsimp only
      omega
    · rw [hl.trim_render]
      dsimp only
      omega
    · rw [hl.add o w]
      exact ih _

theorem Nested.even {ls : List Line} {k m : Nat} (h : Nested k ls m) :
    ∀ row ∈ (rows ls).filter isCodeRow, leadingSpaces row % 2 = 0 := by
  induction h with
  | nil => simp [rows]
  | blank _ ih => exact ih
  | line hl _ ih =>
    intro row hrow
    rw [rows_cons, List.filter_cons_of_pos hl.isCodeRow_render] at hrow
    rcases List.mem_cons.1 hrow with rfl | hrow
    · rw [hl.leadingSpaces_render]
      omega
    · exact ih row hrow

/-- The rows of a laid out text are those that were written. -/
theorem splitLines_format {o : LayoutOptions} {code : String} (h : laidRows o code ≠ []) :
    splitLines (format o code).toList = laidRows o code := by
  have hrows : (laidRows o code).flatMap (fun r => splitLines (r ++ ['\n'])) =
      (laidRows o code).flatMap ([·]) :=
    List.flatMap_congr fun r hr => Text.splitLines_of_unbroken (unbroken_of_mem_laidRows hr)
  rw [toList_format h, Text.splitLines_flatMap, hrows, List.flatMap_singleton']

theorem codeRows_format (o : LayoutOptions) (code : String) :
    codeRows (format o code) = (laidRows o code).filter isCodeRow := by
  by_cases h : laidRows o code = []
  · rw [codeRows, toList_format_eq, h]
    decide
  · rw [codeRows, splitLines_format h]

/-- Two spaces are the standard step. -/
theorem reindent_standard {row : List Char} (h : leadingSpaces row % 2 = 0) :
    reindent .standard row = row := by
  have hunit : LayoutOptions.standard.unit = List.replicate 2 ' ' := rfl
  have hspaces : row.takeWhile (· = ' ') = List.replicate (leadingSpaces row) ' ' :=
    List.eq_replicate_of_mem fun c hc => by simpa using List.mem_takeWhile_imp hc
  have hsteps : leadingSpaces row / 2 * 2 = leadingSpaces row := by omega
  rw [reindent, hunit, List.flatten_replicate_replicate, hsteps, ← hspaces,
    List.takeWhile_append_dropWhile]

/-- A nested file stays the same when it is laid out. -/
theorem relaid_of_nested (o : LayoutOptions) {ls : List Line} (h : Nested 0 ls 0) :
    Relaid o (renderLines (ls ++ [.blank])) (format o (renderLines (ls ++ [.blank]))) := by
  have hsplit := splitLines_renderLines h
  have hraw : codeRows (renderLines (ls ++ [.blank])) = (rows ls).filter isCodeRow := by
    rw [codeRows, hsplit]
  obtain ⟨w, hfold, hcode⟩ := h.foldl_add o []
  have hlayout : layout o.unit (renderLines (ls ++ [.blank])).toList = ⟨w, 0⟩ := by
    rw [layout, hsplit, hfold]
  have hrows : codeRows (format o (renderLines (ls ++ [.blank]))) =
      ((rows ls).filter isCodeRow).map (reindent o) := by
    rw [codeRows_format, laidRows, hlayout, List.filter_reverse, filter_dropBlank, hcode]
    simp
  refine ⟨?_, ?_, ?_, ?_, ?_⟩
  · rw [hrows, hraw]
  · rw [hraw]
    exact h.even
  · rintro rfl
    rw [hrows, hraw]
    exact (List.map_congr_left fun row hrow => reindent_standard (h.even row hrow)).trans
      (List.map_id' _)
  · rw [hsplit]
    exact h.unclamped o []
  · rw [hlayout]

theorem relaid_renderLines (o : LayoutOptions) {ls : List Line} (h : Nested 0 ls 0)
    (hend : ls.getLast? = some .blank) :
    Relaid o (renderLines ls) (format o (renderLines ls)) := by
  obtain ⟨ls, rfl⟩ := List.getLast?_eq_some_iff.1 hend
  exact relaid_of_nested o h.dropLast

/-! ## All files -/

/-- What is generated for an accepted schema whose models belong to its types. -/
theorem generate_eq {lang : Language} {d : Document} {s : Schema} {bindings : Model.Bindings}
    (hs : Schema.ofDocument d = .ok s)
    (hm : Model.checkTypes bindings (s.types.map (·.name)) = .ok ())
    (layout : Option LayoutOptions) :
    generate d bindings layout lang.name = .ok (match layout with
      | some o => (generateRaw lang (.of s bindings)).format o
      | none => generateRaw lang (.of s bindings)) := by
  have hlang : findLanguage lang.name = .ok lang := by cases lang <;> rfl
  simp only [generate, hs, hm, hlang, Except.mapError, bind, Except.bind]
  rfl

/-- The files of two runs correspond to each other, and their texts are related in this way. -/
structure Generated.Corresponds (R : String → String → Prop) (g g' : Generated) : Prop where
  types : R g.types g'.types
  resolvers : List.Forall₂ (fun f f' => f'.path = f.path ∧ f'.force = f.force ∧ R f.code f'.code)
    g.resolvers g'.resolvers

theorem relaid_scaffolds (lang : Language) (o : LayoutOptions) {s : Schema} (hs : s.IsNamed)
    {bindings : Model.Bindings} (hb : BindingsAreClean bindings) :
    ∀ f ∈ scaffolds lang (.of s bindings), Relaid o f.code (format o f.code) := by
  have hobjects : ∀ t ∈ s.objects, t ∈ s.types := fun t ht => List.mem_of_mem_filter ht
  intro f hf
  rcases List.mem_append.1 hf with hf | hf
  · obtain ⟨t, ht, rfl⟩ := List.mem_map.1 hf
    obtain ⟨hname, hfields⟩ := hs.types t (hobjects t ht)
    have hnames : (TypeScaffold.ofType (.of s bindings) t).HasNames IsIdentifier :=
      TypeScaffold.ofType_hasIdentifiers (fun b hbound => (hb b hbound).1) hname hfields
    exact relaid_renderLines o (TypeScaffold.nested_lines lang hnames)
      (TypeScaffold.getLast?_lines lang _)
  · rcases List.mem_cons.1 hf with rfl | hf
    · exact relaid_renderLines o (nested_contextLines lang) (getLast?_contextLines lang)
    · obtain rfl := List.mem_singleton.1 hf
      refine relaid_renderLines o (nested_indexFileLines lang fun n hn => ?_)
        (getLast?_indexFileLines lang _)
      obtain ⟨t, ht, rfl⟩ := List.mem_map.1 hn
      exact isIdentifier_of_isName (hs.types t (hobjects t ht)).1

/-- Laying out what is generated for an accepted schema changes nothing but its indentation and
its blank rows.  A parsed document is named (`Sdl.isNamed_of_parse`). -/
theorem format_keeps_rows (lang : Language) (o : LayoutOptions) {d : Document} {s : Schema}
    {bindings : Model.Bindings} (hd : d.IsNamed) (hs : Schema.ofDocument d = .ok s)
    (hm : Model.checkTypes bindings (s.types.map (·.name)) = .ok ())
    (hb : BindingsAreClean bindings) :
    ∃ raw pretty, generate d bindings none lang.name = .ok raw ∧
      generate d bindings (some o) lang.name = .ok pretty ∧ raw.Corresponds (Relaid o) pretty := by
  have hnamed := Schema.isNamed_of_ofDocument hd hs
  refine ⟨_, _, generate_eq hs hm none, generate_eq hs hm (some o), ?_, ?_⟩
  · have hclean := TypesFile.ofPlan_isClean lang (by decide : IsQuotable contextPath) hnamed hb
    have htypes : (generateRaw lang (.of s bindings)).types =
        renderLines ((TypesFile.ofPlan lang contextPath (.of s bindings)).lines lang) :=
      TypesFile.render_eq lang _
    show Relaid o (generateRaw lang (.of s bindings)).types
      (format o (generateRaw lang (.of s bindings)).types)
    rw [htypes]
    exact relaid_renderLines o (TypesFile.nested_lines hclean lang)
      (TypesFile.getLast?_lines lang _)
  · have hall := relaid_scaffolds lang o hnamed hb
    exact List.forall₂_map_right_iff.2 (List.forall₂_same.2 fun f hf => ⟨rfl, rfl, hall f hf⟩)

/-- A document with types of all kinds is laid out with tabulators. -/
theorem format_keeps_rows_memberDocument :
    memberDocument.IsNamed ∧
      Schema.ofDocument memberDocument = .ok (Schema.merged memberDocument) ∧
      Model.checkTypes memberBindings ((Schema.merged memberDocument).types.map (·.name)) =
        .ok () ∧
      BindingsAreClean memberBindings ∧
      ∃ raw pretty, generate memberDocument memberBindings none "flow" = .ok raw ∧
        generate memberDocument memberBindings (some ⟨1, true⟩) "flow" = .ok pretty ∧
        raw.Corresponds (Relaid ⟨1, true⟩) pretty := by
  have hd : memberDocument.IsNamed := by decide +kernel
  have hs : Schema.ofDocument memberDocument = .ok (Schema.merged memberDocument) := rfl
  have hm : Model.checkTypes memberBindings ((Schema.merged memberDocument).types.map (·.name)) =
      .ok () := rfl
  have hb : BindingsAreClean memberBindings := by
    intro b hb
    obtain rfl := List.mem_singleton.1 hb
    decide
  exact ⟨hd, hs, hm, hb, format_keeps_rows .flow ⟨1, true⟩ hd hs hm hb⟩

end ResolverKit.Code
