import ResolverKit.Proofs.Decisions
import ResolverKit.Proofs.ScaffoldPaths

/-!
# The placeholder in scaffolds

A scaffold imports from the types file through a placeholder, which the writer replaces where it
stands first.  A description may hold the placeholder as well, but no bracket stands above the
import, as the lines above it are the same in all scaffolds and no name has a bracket:

    StandsFirst old front back text → replaceFirst old new text = front ++ new ++ back
                                                              (StandsFirst.replaceFirst)

So what is replaced is the whole path of the import.  This is shown for the rows of a file, because
layout keeps them (`exists_rows_laidText`).
-/

namespace ResolverKit.Output

/-! ## The first occurrence of a word -/

/-- The word stands behind this front, and nowhere before. -/
structure StandsFirst (word front back text : List Char) : Prop where
  eq : text = front ++ word ++ back
  first : ∀ front' back', text = front' ++ word ++ back' → front.length ≤ front'.length

/-- The first occurrence is replaced, and nothing else. -/
theorem StandsFirst.replaceFirst {word front back text : List Char} (hword : word ≠ [])
    (h : StandsFirst word front back text) (new : List Char) :
    replaceFirst word new text = front ++ new ++ back := by
  obtain ⟨rfl, hfirst⟩ := h
  induction front with
  | nil =>
    obtain ⟨c, r, rfl⟩ := List.exists_cons_of_ne_nil hword
    have hprefix : (c :: r).isPrefixOf (c :: (r ++ back)) = true := by
      rw [List.isPrefixOf_iff_prefix]
      exact List.prefix_append (c :: r) back
    rw [List.nil_append, List.cons_append, Output.replaceFirst, if_pos hprefix]
    simp
  | cons c front ih =>
    have hprefix : ¬ word.isPrefixOf (c :: (front ++ word ++ back)) = true := by
      rw [List.isPrefixOf_iff_prefix]
      rintro ⟨r, hr⟩
      exact absurd (hfirst [] r hr.symm) (by simp)
    rw [List.cons_append, List.cons_append, Output.replaceFirst, if_neg hprefix, ih]
    · rfl
    · intro front' back' heq
      have hlength := hfirst (c :: front') back' (by simp [← heq])
      simpa using hlength

/-- Without the first character of a word in front of it, the word stands there first. -/
theorem standsFirst_of_not_mem {c : Char} {word front : List Char} (hc : c ∉ front)
    (back : List Char) :
    StandsFirst (c :: word) front back (front ++ c :: word ++ back) := by
  refine ⟨rfl, fun front' back' heq => ?_⟩
  rw [List.append_assoc, List.append_assoc] at heq
  rcases List.append_eq_append_iff.1 heq with ⟨a, rfl, -⟩ | ⟨a, rfl, hword⟩
  · simp
  · cases a with
    | nil => simp
    | cons x a =>
      obtain ⟨rfl, -⟩ := List.cons.inj hword
      exact absurd (by simp) hc

/-- A text without the word stays as it is. -/
theorem replaceFirst_of_not_infix {word text : List Char} (h : ¬ word <:+: text)
    (new : List Char) : replaceFirst word new text = text := by
  induction text with
  | nil => rfl
  | cons c r ih =>
    have hprefix : ¬ word.isPrefixOf (c :: r) = true := by
      rw [List.isPrefixOf_iff_prefix]
      exact fun hpre => h hpre.isInfix
    rw [replaceFirst, if_neg hprefix, ih fun hwithin => h (List.infix_cons hwithin)]

end ResolverKit.Output

namespace ResolverKit.Code

open Output (StandsFirst fillPlaceholder standsFirst_of_not_mem)
open Text (isBlank trim trimLeft trimRight)

/-! ## Texts without brackets -/

/-- The text has no bracket as it stands at the front of the placeholder. -/
def IsFree (cs : List Char) : Prop := '[' ∉ cs

instance (cs : List Char) : Decidable (IsFree cs) := inferInstanceAs (Decidable (¬ _))

theorem IsFree.append {a b : List Char} (ha : IsFree a) (hb : IsFree b) : IsFree (a ++ b) :=
  fun h => (List.mem_append.1 h).elim ha hb

theorem IsFree.flatMap_rows {rows : List (List Char)} (h : ∀ r ∈ rows, IsFree r) :
    IsFree (rows.flatMap (· ++ ['\n'])) := by
  intro hmem
  obtain ⟨r, hr, hc⟩ := List.mem_flatMap.1 hmem
  exact (h r hr).append (by decide) hc

theorem IsIdentifier.isFree {s : String} (h : IsIdentifier s) : IsFree s.toList := fun hmem => by
  have hword := h.1.2 _ hmem
  revert hword
  decide

/-- A row of blanks has no bracket. -/
theorem isFree_of_isCodeRow {row : List Char} (h : isCodeRow row = false) : IsFree row := by
  have htrim : trim row = [] := by simpa [isCodeRow] using h
  have hblank : ∀ c ∈ row, isBlank c = true := by
    have hleft : ∀ cs, trimLeft cs = [] → ∀ c ∈ cs, isBlank c = true := fun cs hcs =>
      List.dropWhile_eq_nil_iff.1 hcs
    have hright : trimLeft (trimLeft row).reverse = [] := by
      simpa [trim, trimRight] using htrim
    cases hcons : trimLeft row with
    | nil => exact hleft row hcons
    | cons c r =>
      -- trimming has left a character that is no blank
      have hc := List.head?_dropWhile_not isBlank row
      rw [trimLeft] at hcons
      rw [hcons] at hc
      have := hleft _ hright c (by simp [trimLeft, hcons])
      simp [this] at hc
  intro hmem
  have := hblank _ hmem
  revert this
  decide

theorem isFree_reindent {row : List Char} (h : IsFree row) (o : LayoutOptions) :
    IsFree (reindent o row) := by
  refine IsFree.append (fun hmem => ?_) fun hmem => h ((List.dropWhile_sublist _).subset hmem)
  rcases eq_of_mem_unit (mem_of_mem_flatten_replicate hmem) with hc | hc <;> cases hc

/-! ## Imports -/

/-- The text of an import up to its path. -/
def importFront (lang : Language) (names : List String) : String :=
  typeImport lang ++ " " ++ bracedNames names ++ " from '"

theorem importLine_text (lang : Language) (names : List String) (path : String) :
    (importLine (typeImport lang) names path).text = importFront lang names ++ path ++ "'" := rfl

theorem isFree_importItem {item : String × String} (h1 : IsIdentifier item.1)
    (h2 : IsIdentifier item.2) : IsFree (importItem item).toList := by
  unfold importItem
  split
  · exact h1.isFree
  · rw [String.toList_append, String.toList_append]
    exact (h1.isFree.append (by decide)).append h2.isFree

theorem isFree_importFront (lang : Language) {names : List String}
    (h : ∀ n ∈ names, IsFree n.toList) : IsFree (importFront lang names).toList := by
  have hnames : IsFree (", ".intercalate names).toList := by
    rw [String.toList_intercalate]
    intro hmem
    rcases mem_intercalate hmem with hmem | ⟨cs, hcs, hmem⟩
    · revert hmem
      decide
    · obtain ⟨n, hn, rfl⟩ := List.mem_map.1 hcs
      exact h n hn hmem
  have hkeyword : IsFree (typeImport lang).toList := by cases lang <;> decide
  simp only [importFront, bracedNames, String.toList_append]
  exact ((hkeyword.append (by decide)).append
    (((by decide : IsFree "\x7b ".toList).append hnames).append (by decide))).append (by decide)

/-- An import starts with its keyword. -/
theorem exists_importLine (lang : Language) (names : List String) (path : String) :
    ∃ r, (importLine (typeImport lang) names path).render.toList = 'i' :: r := by
  obtain ⟨k, hk⟩ : ∃ k, (typeImport lang).toList = 'i' :: k := by cases lang <;> exact ⟨_, rfl⟩
  exact ⟨k ++ (" " ++ bracedNames names ++ " from '" ++ path ++ "'").toList,
    by simp [importLine, Line.top, Line.render, hk]⟩

/-- The import of these names from the placeholder stands in a row of its own, and the placeholder
nowhere before; so filling the placeholder gives the path of the import and changes nothing else. -/
structure HoldsImport (lang : Language) (names : List String) (code : String)
    (above below : List Char) : Prop where
  ended : above = [] ∨ ∃ a, above = a ++ ['\n']
  written : code.toList =
    above ++ (importLine (typeImport lang) names placeholder).text.toList ++ '\n' :: below
  first : StandsFirst placeholder.toList (above ++ (importFront lang names).toList)
    ('\'' :: '\n' :: below) code.toList
  filled : ∀ path, (fillPlaceholder code path).toList =
    above ++ (importLine (typeImport lang) names path).text.toList ++ '\n' :: below

/-- Some row of the text is the import of these names, and its path is the first placeholder. -/
def ImportsFirst (lang : Language) (names : List String) (code : String) : Prop :=
  ∃ above below, HoldsImport lang names code above below

/-- An import behind rows without brackets. -/
theorem importsFirst_of_rows {lang : Language} {names : List String} {code : String}
    {a b : List (List Char)} (hnames : ∀ n ∈ names, IsFree n.toList) (ha : ∀ r ∈ a, IsFree r)
    (hcode : code.toList =
      (a ++ (importLine (typeImport lang) names placeholder).render.toList :: b).flatMap
        (· ++ ['\n'])) : ImportsFirst lang names code := by
  have hrow : ∀ path, (importLine (typeImport lang) names path).render.toList =
      (importLine (typeImport lang) names path).text.toList := fun path => by
    rw [Line.toList_render]
    rfl
  have hfront : IsFree (a.flatMap (· ++ ['\n']) ++ (importFront lang names).toList) :=
    (IsFree.flatMap_rows ha).append (isFree_importFront lang hnames)
  have hplace : placeholder.toList = '[' :: "TEMPLATE-INTERFACES-PATH]".toList := by decide
  have htext : code.toList = a.flatMap (· ++ ['\n']) ++
      (importLine (typeImport lang) names placeholder).text.toList ++
        '\n' :: b.flatMap (· ++ ['\n']) := by
    rw [hcode, hrow]
    simp
  have hstands : StandsFirst placeholder.toList
      (a.flatMap (· ++ ['\n']) ++ (importFront lang names).toList)
      ('\'' :: '\n' :: b.flatMap (· ++ ['\n'])) code.toList := by
    have hsplit : code.toList = a.flatMap (· ++ ['\n']) ++ (importFront lang names).toList ++
        placeholder.toList ++ '\'' :: '\n' :: b.flatMap (· ++ ['\n']) := by
      rw [htext, importLine_text]
      simp
    rw [hsplit, hplace]
    exact standsFirst_of_not_mem hfront _
  refine ⟨_, _, ?_, htext, hstands, fun path => ?_⟩
  · rcases List.eq_nil_or_concat a with rfl | ⟨init, last, rfl⟩
    · exact .inl rfl
    · exact .inr ⟨init.flatMap (· ++ ['\n']) ++ last, by simp⟩
  · rw [fillPlaceholder, String.toList_ofList, hstands.replaceFirst (by decide), importLine_text]
    simp

/-! ## Rows as they are written and as they are laid out -/

/-- What layout makes of a row with code. -/
def relaidRow : Option LayoutOptions → List Char → List Char
  | some o => reindent o
  | none => id

theorem isFree_relaidRow {row : List Char} (h : IsFree row) (layout : Option LayoutOptions) :
    IsFree (relaidRow layout row) := by
  cases layout with
  | some o => exact isFree_reindent h o
  | none => exact h

/-- A file consists of rows, and those with code are the lines of the file. -/
theorem exists_rows_laidText (layout : Option LayoutOptions) {ls : List Line}
    (h : Nested 0 ls 0) :
    ∃ rs : List (List Char),
      (laidText layout (renderLines (ls ++ [.blank]))).toList = rs.flatMap (· ++ ['\n']) ∧
      rs.filter isCodeRow = ((rows ls).filter isCodeRow).map (relaidRow layout) := by
  cases layout with
  | none => exact ⟨rows ls, toList_renderLines ls, (List.map_id _).symm⟩
  | some o =>
    have hrows : (laidRows o (renderLines (ls ++ [.blank]))).filter isCodeRow =
        ((rows ls).filter isCodeRow).map (reindent o) := by
      rw [← codeRows_format, (relaid_of_nested o h).rows, codeRows, splitLines_renderLines h]
    by_cases hnil : laidRows o (renderLines (ls ++ [.blank])) = []
    · refine ⟨[[]], ?_, ?_⟩
      · show (format o _).toList = _
        rw [toList_format_eq, hnil]
        rfl
      · rw [← show _ = ((rows ls).filter isCodeRow).map (relaidRow (some o)) from hrows, hnil]
        decide
    · exact ⟨_, toList_format hnil, hrows⟩

/-- Rows in front of a row with code have no brackets if those with code have none. -/
theorem exists_split_rows {rs a b : List (List Char)} {row : List Char}
    (h : rs.filter isCodeRow = a ++ row :: b) (ha : ∀ r ∈ a, IsFree r) :
    ∃ a' b', rs = a' ++ row :: b' ∧ ∀ r ∈ a', IsFree r := by
  obtain ⟨front, rest, rfl, rfl, hrest⟩ := List.filter_eq_append_iff.1 h
  obtain ⟨blanks, back, rfl, hblanks, -, -⟩ := List.filter_eq_cons_iff.1 hrest
  refine ⟨front ++ blanks, back, by simp, fun r hr => ?_⟩
  rcases List.mem_append.1 hr with hr | hr
  · by_cases hcode : isCodeRow r = true
    · exact ha r (List.mem_filter.2 ⟨hr, hcode⟩)
    · exact isFree_of_isCodeRow (by simpa using hcode)
  · exact isFree_of_isCodeRow (by simpa using hblanks r hr)

/-- A file in which the lines above the import have no brackets. -/
theorem importsFirst_laidText (lang : Language) (layout : Option LayoutOptions)
    {names : List String} {ls a : List Line} (h : Nested 0 ls 0)
    (hend : ls.getLast? = some .blank)
    (hls : a ++ [importLine (typeImport lang) names placeholder] <+: ls)
    (hnames : ∀ n ∈ names, IsFree n.toList) (ha : ∀ r ∈ rows a, IsFree r) :
    ImportsFirst lang names (laidText layout (renderLines ls)) := by
  obtain ⟨r, hr⟩ := exists_importLine lang names placeholder
  obtain ⟨ls, rfl⟩ := List.getLast?_eq_some_iff.1 hend
  obtain ⟨b, hb⟩ := hls
  obtain ⟨rs, htext, hrs⟩ := exists_rows_laidText layout h.dropLast
  have hcode : isCodeRow ('i' :: r) = true := by
    obtain ⟨r', htrim⟩ := Text.trim_cons (by decide : isBlank 'i' = false) r
    simp [isCodeRow, htrim]
  have hkept : relaidRow layout ('i' :: r) = 'i' :: r := by
    cases layout <;> simp [relaidRow, reindent, leadingSpaces]
  -- the empty line at the end is not the import
  obtain ⟨c, hrows⟩ : ∃ c, rows ls = rows a ++ ('i' :: r) :: c := by
    have hall : rows a ++ ('i' :: r) :: rows b = rows ls ++ [[]] := by
      have hblank : Line.blank.render.toList = [] := by decide
      have := congrArg rows hb
      simpa [rows, hr, hblank] using this
    rcases List.eq_nil_or_concat (rows b) with hnil | ⟨c, last, hc⟩
    · rw [hnil] at hall
      cases (List.append_inj' hall rfl).2
    · rw [hc, List.concat_eq_append, ← List.cons_append, ← List.append_assoc] at hall
      exact ⟨c, (List.append_inj' hall rfl).1.symm⟩
  rw [hrows, List.filter_append, List.filter_cons_of_pos hcode, List.map_append, List.map_cons,
    hkept] at hrs
  obtain ⟨a', b', rfl, ha'⟩ := exists_split_rows hrs fun row hrow => by
    obtain ⟨row, hmem, rfl⟩ := List.mem_map.1 hrow
    exact isFree_relaidRow (ha row (List.mem_of_mem_filter hmem)) layout
  exact importsFirst_of_rows hnames ha' (by rw [htext, hr])

/-- A file without brackets stays without them. -/
theorem isFree_laidText (layout : Option LayoutOptions) {ls : List Line} (h : Nested 0 ls 0)
    (hend : ls.getLast? = some .blank) (hls : ∀ r ∈ rows ls, IsFree r) :
    IsFree (laidText layout (renderLines ls)).toList := by
  obtain ⟨ls, rfl⟩ := List.getLast?_eq_some_iff.1 hend
  obtain ⟨rs, htext, hrs⟩ := exists_rows_laidText layout h.dropLast
  rw [htext]
  refine IsFree.flatMap_rows fun r hr => ?_
  by_cases hcode : isCodeRow r = true
  · have hmem : r ∈ rs.filter isCodeRow := List.mem_filter.2 ⟨hr, hcode⟩
    rw [hrs] at hmem
    obtain ⟨row, hrow, rfl⟩ := List.mem_map.1 hmem
    have hfree : IsFree row := hls row (by
      simp only [rows, List.map_append]
      exact List.mem_append_left _ (List.mem_of_mem_filter hrow))
    exact isFree_relaidRow hfree layout
  · exact isFree_of_isCodeRow (by simpa using hcode)

/-! ## The scaffolds -/

theorem isFree_front (lang : Language) :
    ∀ r ∈ rows (languageMark lang ++ resolverNote), IsFree r := by
  cases lang <;> decide

def typeImports (lang : Language) (p : Plan) (t : Schema.ObjectType) : List String :=
  lang.resolversName t.name :: (scaffoldParent p t).toList.map importItem

theorem importsFirst_typeFile (lang : Language) (layout : Option LayoutOptions) {p : Plan}
    {t : Schema.ObjectType} (h : (TypeScaffold.ofType p t).HasNames IsIdentifier) :
    ImportsFirst lang (typeImports lang p t) (laidFile layout (typeFile lang p t)).code := by
  have hfront : languageMark lang ++ resolverNote ++
      [importLine (typeImport lang) (typeImports lang p t) placeholder] <+:
        (TypeScaffold.ofType p t).lines lang :=
    ((((List.prefix_append_right_inj _).2 ⟨[.blank], rfl⟩).trans (List.prefix_append _ _)).trans
      (List.prefix_append _ _)).trans (List.prefix_append _ _)
  refine importsFirst_laidText lang layout (TypeScaffold.nested_lines lang h)
    (TypeScaffold.getLast?_lines lang _) hfront (fun n hn => ?_) (isFree_front lang)
  rcases List.mem_cons.1 hn with rfl | hn
  · exact (isNameClass_isIdentifier.resolversName lang h.type).isFree
  · obtain ⟨item, hitem, rfl⟩ := List.mem_map.1 hn
    obtain ⟨h1, h2⟩ := h.parent item (Option.mem_toList.1 hitem)
    exact isFree_importItem h1 h2

theorem importsFirst_indexFile (lang : Language) (layout : Option LayoutOptions)
    {types : List String} (h : ∀ n ∈ types, IsIdentifier n) :
    ImportsFirst lang ["Resolvers"] (laidFile layout (indexFile lang types)).code := by
  have hfront : languageMark lang ++ resolverNote ++
      [importLine (typeImport lang) ["Resolvers"] placeholder] <+: indexFileLines lang types :=
    (((List.prefix_append _ _).trans (List.prefix_append _ _)).trans (List.prefix_append _ _)).trans
      (List.prefix_append _ _)
  refine importsFirst_laidText lang layout (nested_indexFileLines lang h)
    (getLast?_indexFileLines lang _) hfront (fun n hn => ?_) (isFree_front lang)
  obtain rfl := List.mem_singleton.1 hn
  decide

theorem isFree_contextFile (lang : Language) (layout : Option LayoutOptions) :
    IsFree (laidFile layout (contextFile lang)).code.toList :=
  isFree_laidText layout (nested_contextLines lang) (getLast?_contextLines lang)
    (by cases lang <;> decide)

end ResolverKit.Code

namespace ResolverKit.Output

open Path FileTree
open Code (CodeFile)

section

variable {o : WriteOptions} {r : Run} {f g : CodeFile} {done files : List CodeFile}

/-! ## What a run has written -/

/-- Every path that the run reports as written holds the filled text of the scaffold that was
reported so last. -/
def Filled (o : WriteOptions) (files : List CodeFile) (r : Run) : Prop :=
  ∀ before p after, r.handled = before ++ (.written, p) :: after → (.written, p) ∉ after →
    ∃ f, files[before.length]? = some f ∧ o.pathOf f = p ∧
      r.tree.read p = .ok (.text (fillPlaceholder f.code o.typesPath))

/-- A scaffold that fails is not reported, and changes no file. -/
theorem handle_failed (h : (r.handle o f).error ≠ none) :
    (r.handle o f).handled = r.handled ∧ ∃ way, Grows way r.tree (r.handle o f).tree := by
  unfold Run.handle at h ⊢
  split_ifs at h ⊢ with herror htaken
  · exact ⟨rfl, _, .refl (fun _ => False) _⟩
  · exact absurd (by simpa using herror) h
  · have hgrows := grows_makeDirs r.tree (parentDir r.tree (o.pathOf f))
    unfold Run.write at h ⊢
    simp only at h ⊢
    split
    · next t e hm =>
      rw [hm] at hgrows
      exact ⟨rfl, _, hgrows⟩
    · next t missing hm =>
      rw [hm] at hgrows
      simp only [hm] at h
      cases hw : t.write (o.pathOf f) (fillPlaceholder f.code o.typesPath) with
      | ok t' => simp [writeFile, hw] at h
      | error e =>
        simp only [writeFile, hw, true_and]
        exact ⟨_, hgrows⟩

/-- A run that has come to the end of the scaffolds `done`, or failed before. -/
structure Fills (o : WriteOptions) (done : List CodeFile) (r : Run) : Prop where
  length : r.error = none → r.handled.length = done.length
  filled : Filled o done r

theorem Filled.concat (h : Filled o done r) (f : CodeFile) : Filled o (done ++ [f]) r := by
  intro before p after hsplit hlast
  obtain ⟨g, hg, hpath, hread⟩ := h before p after hsplit hlast
  obtain ⟨hlt, -⟩ := List.getElem?_eq_some_iff.1 hg
  exact ⟨g, by rw [List.getElem?_append_left hlt, hg], hpath, hread⟩

/-- One more entry of a report is the last one, or leaves the others where they were. -/
theorem split_concat {α : Type} {a b c : List α} {x y : α} (h : a ++ [x] = b ++ y :: c) :
    (c = [] ∧ x = y ∧ b = a) ∨ ∃ c', c = c' ++ [x] ∧ a = b ++ y :: c' := by
  rcases List.eq_nil_or_concat c with rfl | ⟨c', z, rfl⟩
  · obtain ⟨rfl, hxy⟩ := List.append_inj' h rfl
    exact .inl ⟨rfl, (List.cons.inj hxy).1, rfl⟩
  · rw [List.concat_eq_append, ← List.cons_append, ← List.append_assoc] at h
    obtain ⟨rfl, hxz⟩ := List.append_inj' h rfl
    exact .inr ⟨c', by rw [List.concat_eq_append, (List.cons.inj hxz).1], rfl⟩

/-- One scaffold. -/
theorem Fills.handle (hnames : ∀ g ∈ done ++ [f], ∀ s ∈ segments g.path, IsName s)
    (h : Fills o done r) : Fills o (done ++ [f]) (r.handle o f) := by
  by_cases herror : (r.handle o f).error = none
  · obtain ⟨hr, ⟨-, -, he⟩ | ⟨-, t1, missing, t', hm, hw, he⟩⟩ := handle_cases herror
    · rw [he]
      refine ⟨fun _ => by simp [h.length hr], fun before p after hsplit hlast => ?_⟩
      rcases split_concat hsplit with ⟨-, hx, -⟩ | ⟨after', rfl, hsplit'⟩
      · cases hx
      · exact h.filled.concat f before p after' hsplit' fun hmem => hlast (by simp [hmem])
    · rw [he]
      refine ⟨fun _ => by simp [h.length hr], fun before p after hsplit hlast => ?_⟩
      rcases split_concat hsplit with ⟨-, hx, rfl⟩ | ⟨after', rfl, hsplit'⟩
      · obtain ⟨-, rfl⟩ := Prod.mk.inj hx
        exact ⟨f, by simp [h.length hr], rfl, read_of_write hw⟩
      · obtain ⟨g, hg, rfl, hread⟩ :=
          h.filled.concat f before p after' hsplit' fun hmem => hlast (by simp [hmem])
        -- the scaffold has another path, so it is another file
        have hne : g.path ≠ f.path := fun heq => hlast (by simp [pathOf_congr heq])
        have hplace := place_ne (hnames g (List.mem_of_getElem? hg)) (hnames f (by simp)) hne t1 o
        exact ⟨g, hg, rfl, read_of_write_of_ne hw hplace ((grows_of_makeDirs hm).read hread)⟩
  · obtain ⟨hhandled, way, hgrows⟩ := handle_failed herror
    refine ⟨fun hnone => absurd hnone herror, fun before p after hsplit hlast => ?_⟩
    obtain ⟨g, hg, hpath, hread⟩ := h.filled.concat f before p after (hhandled ▸ hsplit) hlast
    exact ⟨g, hg, hpath, hgrows.read hread⟩

/-- All scaffolds, one behind the other. -/
theorem Fills.foldl (hnames : ∀ g ∈ done ++ files, ∀ s ∈ segments g.path, IsName s)
    (h : Fills o done r) : Fills o (done ++ files) (files.foldl (Run.handle o) r) := by
  induction files generalizing done r with
  | nil => simpa using h
  | cons f fs ih =>
    have hsplit : done ++ f :: fs = (done ++ [f]) ++ fs := by simp
    rw [hsplit] at hnames ⊢
    exact ih hnames (h.handle fun g hg => hnames g (List.mem_append_left _ hg))

end

/-- Whatever a run over scaffolds with ordinary paths has written is filled, also if it fails. -/
theorem filled_writeResolvers {files : List CodeFile}
    (hnames : ∀ f ∈ files, ∀ s ∈ segments f.path, IsName s) (t : FileTree) (o : WriteOptions) :
    Filled o files (writeResolvers t files o) := by
  unfold writeResolvers
  split
  · intro before p after hsplit
    simp at hsplit
  · next t' missing hm =>
    have hstart : Fills o [] ⟨t', missing, [], none⟩ :=
      ⟨fun _ => rfl, fun before p after hsplit => by simp at hsplit⟩
    exact (hstart.foldl (by simpa using hnames)).filled

end ResolverKit.Output

namespace ResolverKit.Code

open Output (Filled fillPlaceholder WriteOptions writeResolvers filled_writeResolvers
  replaceFirst_of_not_infix)
open Sdl (Document)

/-- The scaffolds of the types, of the context and of the collected resolvers: what they import
through the placeholder, and what a run over them has written. -/
structure FillsImports (lang : Language) (p : Plan) (types : List CodeFile)
    (context index : CodeFile) : Prop where
  type_imports : List.Forall₂ (fun t f => f.path = typePath lang t.name ∧
    ImportsFirst lang (typeImports lang p t) f.code) p.schema.objects types
  index_imports : index.path = typePath lang "index" ∧ ImportsFirst lang ["Resolvers"] index.code
  context_same : context.path = contextFilePath lang ∧
    ¬ placeholder.toList <:+: context.code.toList ∧
    ∀ path, fillPlaceholder context.code path = context.code
  written : ∀ (t : FileTree) (o : WriteOptions),
    Filled o (types ++ [context, index]) (writeResolvers t (types ++ [context, index]) o)

/-- A file without brackets holds no placeholder. -/
theorem fillPlaceholder_of_isFree {code : String} (h : IsFree code.toList) :
    ¬ placeholder.toList <:+: code.toList ∧ ∀ path, fillPlaceholder code path = code := by
  have hnone : ¬ placeholder.toList <:+: code.toList := fun hwithin =>
    h (hwithin.subset (by decide))
  refine ⟨hnone, fun path => ?_⟩
  rw [fillPlaceholder, replaceFirst_of_not_infix hnone, String.ofList_toList]

/-- In every scaffold that is generated for an accepted schema with models called by identifiers,
the placeholder that is replaced is the path of the import from the types file. -/
theorem placeholder_is_import_path (lang : Language) (layout : Option LayoutOptions) {d : Document}
    {s : Schema} {bindings : Model.Bindings} (hd : d.IsNamed) (hs : Schema.ofDocument d = .ok s)
    (hm : Model.checkTypes bindings (s.types.map (·.name)) = .ok ())
    (hb : ∀ b ∈ bindings, IsIdentifier b.2.name) :
    ∃ g types context index, generate d bindings layout lang.name = .ok g ∧
      g.resolvers = types ++ [context, index] ∧
      FillsImports lang (.of s bindings) types context index := by
  have hnamed := Schema.isNamed_of_ofDocument hd hs
  have hobject : ∀ t ∈ s.objects, t ∈ s.types := fun t ht => List.mem_of_mem_filter ht
  obtain ⟨g, hg, hresolvers⟩ := exists_generate lang layout hs hm
  have hsplit : g.resolvers = s.objects.map (laidFile layout ∘ typeFile lang (.of s bindings)) ++
      [laidFile layout (contextFile lang),
        laidFile layout (indexFile lang (s.objects.map (·.name)))] := by
    rw [hresolvers, scaffolds_eq]
    simp [Plan.of]
  refine ⟨g, _, _, _, hg, hsplit, ?_, ⟨rfl, ?_⟩, ⟨rfl, ?_⟩, ?_⟩
  · refine List.forall₂_map_right_iff.2 (List.forall₂_same.2 fun t ht => ⟨rfl, ?_⟩)
    obtain ⟨hname, hfields⟩ := hnamed.types t (hobject t ht)
    exact importsFirst_typeFile lang layout
      (TypeScaffold.ofType_hasIdentifiers hb hname hfields)
  · refine importsFirst_indexFile lang layout fun n hn => ?_
    obtain ⟨t, ht, rfl⟩ := List.mem_map.1 hn
    exact isIdentifier_of_isName (hnamed.types t (hobject t ht)).1
  · exact fillPlaceholder_of_isFree (isFree_contextFile lang layout)
  · rw [← hsplit]
    refine filled_writeResolvers fun f hf => ?_
    rw [hresolvers] at hf
    exact (isScaffoldPath_of_mem (by exact hnamed) hf).isName

/-- A description that is the placeholder, and one that looks like the import. -/
def templateDocument : Document :=
  [.type (some ⟨"[TEMPLATE-INTERFACES-PATH]", false⟩) "User" [] (.object []
    [⟨some ⟨"from '[TEMPLATE-INTERFACES-PATH]'", true⟩, "id", [], .named "ID" true, []⟩])]

/-- A model in a file that could not stand between quotes. -/
def templateBindings : Model.Bindings := [("User", ⟨"it's.ts", "./it's", "Person"⟩)]

theorem placeholder_is_import_path_templateDocument :
    templateDocument.IsNamed ∧
      Schema.ofDocument templateDocument = .ok (Schema.merged templateDocument) ∧
      Model.checkTypes templateBindings ((Schema.merged templateDocument).types.map (·.name)) =
        .ok () ∧
      (∀ b ∈ templateBindings, IsIdentifier b.2.name) ∧
      ∃ g types context index,
        generate templateDocument templateBindings (some ⟨4, false⟩) "flow" = .ok g ∧
        g.resolvers = types ++ [context, index] ∧
        FillsImports .flow (.of (Schema.merged templateDocument) templateBindings) types context
          index := by
  have hd : templateDocument.IsNamed := by decide +kernel
  have hs : Schema.ofDocument templateDocument = .ok (Schema.merged templateDocument) := rfl
  have hm : Model.checkTypes templateBindings
      ((Schema.merged templateDocument).types.map (·.name)) = .ok () := rfl
  have hb : ∀ b ∈ templateBindings, IsIdentifier b.2.name := by decide
  exact ⟨hd, hs, hm, hb, placeholder_is_import_path .flow (some ⟨4, false⟩) hd hs hm hb⟩

end ResolverKit.Code
