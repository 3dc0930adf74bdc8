import ResolverKit.Proofs.Relayout

/-!
# Comments in front of lines

A description adds a comment line in front of the line it is about.  In the text this adds a row
that is a comment and nothing else, and that stays so when the text is laid out: a comment has no
brackets in its code, and it is never the row that a later blank row or closing bracket looks at.

    Commented a b →
      AddsComments (laidText layout (renderLines a)) (laidText layout (renderLines b))
                                                                   (Commented.addsComments)
-/

namespace ResolverKit.Code

open Text (Unbroken isBlank isLineBreak endedLines splitLines trim dropEnd)

/-! ## Texts with further rows -/

/-- The second list is the first one with further elements, each of which is of this kind. -/
inductive Inserted {α : Type} (P : α → Prop) : List α → List α → Prop
  | nil : Inserted P [] []
  | same (x : α) {a b : List α} : Inserted P a b → Inserted P (x :: a) (x :: b)
  | extra {x : α} {a b : List α} : P x → Inserted P a b → Inserted P a (x :: b)

namespace Inserted

variable {α : Type} {P : α → Prop} {a b c d : List α}

theorem refl (P : α → Prop) (a : List α) : Inserted P a a := by
  induction a with
  | nil => exact .nil
  | cons x r ih => exact .same x ih

theorem append (h : Inserted P a b) (h' : Inserted P c d) : Inserted P (a ++ c) (b ++ d) := by
  induction h with
  | nil => exact h'
  | same x _ ih => exact .same x ih
  | extra hx _ ih => exact .extra hx ih

theorem reverse (h : Inserted P a b) : Inserted P a.reverse b.reverse := by
  induction h with
  | nil => exact .nil
  | same x _ ih =>
    rw [List.reverse_cons, List.reverse_cons]
    exact ih.append (.refl P [x])
  | extra hx _ ih =>
    rw [List.reverse_cons]
    have hend := ih.append (.extra hx .nil)
    rwa [List.append_nil] at hend

theorem map {β : Type} {Q : β → Prop} {f : α → β} (hf : ∀ x, P x → Q (f x))
    (h : Inserted P a b) : Inserted Q (a.map f) (b.map f) := by
  induction h with
  | nil => exact .nil
  | same x _ ih => exact .same (f x) ih
  | extra hx _ ih => exact .extra (hf _ hx) ih

/-- A filter that lets no element of the kind pass does not see them. -/
theorem filter_eq {p : α → Bool} (hp : ∀ x, P x → p x = false) (h : Inserted P a b) :
    b.filter p = a.filter p := by
  induction h with
  | nil => rfl
  | same x _ ih => rw [List.filter_cons, List.filter_cons, ih]
  | extra hx _ ih => rw [List.filter_cons_of_neg (by simp [hp _ hx]), ih]

theorem ne_nil (h : Inserted P a b) (ha : a ≠ []) : b ≠ [] := by
  cases h with
  | nil => exact absurd rfl ha
  | same x _ => exact List.cons_ne_nil x _
  | extra _ _ => exact List.cons_ne_nil _ _

end Inserted

def commentStart : List Char := ['/', '*', '*']

/-- The row is one comment, which closes at its end and nowhere before. -/
structure IsCommentRow (row : List Char) : Prop where
  starts : commentStart <+: trim row
  closes : ['*', '/'] <:+ row
  closesOnce : NoCloser row.dropLast
  unbroken : Unbroken row

def IsCommentLine (line : List Char) : Prop := ∃ row, IsCommentRow row ∧ line = row ++ ['\n']

/-- The text without the rows that start as comments do. -/
def withoutComments (code : String) : String :=
  let rows := (endedLines code.toList).filter fun row => !commentStart.isPrefixOf (trim row)
  String.ofList rows.flatten

/-- The second text is the first one with comment rows; without comments they are the same. -/
structure AddsComments (plain code : String) : Prop where
  rows : Inserted IsCommentLine (endedLines plain.toList) (endedLines code.toList)
  same : withoutComments code = withoutComments plain

theorem AddsComments.of_rows {plain code : String}
    (h : Inserted IsCommentLine (endedLines plain.toList) (endedLines code.toList)) :
    AddsComments plain code := by
  refine ⟨h, ?_⟩
  unfold withoutComments
  rw [h.filter_eq]
  rintro line ⟨row, hrow, rfl⟩
  have hfeed : trim (row ++ ['\n']) = trim row :=
    Text.trim_append_blanks row fun c hc => by rw [List.mem_singleton.1 hc]; rfl
  rw [hfeed, List.isPrefixOf_iff_prefix.2 hrow.starts, Bool.not_true]

/-! ## Comment rows -/

theorem noCloser_append {a cs : List Char} (ha : '*' ∉ a) (h : NoCloser cs) :
    NoCloser (a ++ cs) := by
  induction a with
  | nil => exact h
  | cons c r ih =>
    obtain ⟨hc, hr⟩ := List.ne_and_not_mem_of_not_mem_cons ha
    exact noCloser_cons_iff.2 ⟨fun hx => hc hx.1.symm, ih hr⟩

def Line.note (indent : Nat) (description : Option String) : Line :=
  ⟨indent, (Line.comment (Text.commentText description)).text⟩

/-- A comment line is a comment row, whatever its indentation is made of. -/
theorem isCommentRow_append {indent : List Char} (h : ∀ c ∈ indent, c = ' ' ∨ c = '\t') (n : Nat)
    (description : Option String) :
    IsCommentRow (indent ++ (Line.note n description).text.toList) := by
  have hsits : (Line.note n description).Sits n n := Line.sits_comment description n
  have hblank : ∀ c ∈ indent, isBlank c = true := fun c hc => by
    rcases h c hc with rfl | rfl <;> rfl
  have hindent : Unbroken indent := fun c hc => by
    rcases h c hc with rfl | rfl <;> rfl
  have hstar : '*' ∉ indent := fun hc => by
    rcases h _ hc with hx | hx <;> cases hx
  have htext : (Line.note n description).text.toList =
      commentStart ++ (' ' :: (Text.commentText description).toList ++ [' ', '*']) ++ ['/'] := by
    simp [Line.note, Line.comment, commentStart]
  refine ⟨?_, ?_, ?_, hindent.append hsits.unbroken⟩
  · rw [Text.trim_append hblank, hsits.trim_text, htext, List.append_assoc]
    exact List.prefix_append _ _
  · rw [htext]
    exact ⟨indent ++ commentStart ++ ' ' :: (Text.commentText description).toList ++ [' '], by simp⟩
  · have hbody := noCloser_append_space_star (noCloser_commentText description)
    rw [htext, ← List.append_assoc, List.dropLast_concat]
    refine noCloser_append hstar ?_
    simpa [commentStart, noCloser_cons_iff] using hbody

theorem isCommentRow_render (n : Nat) (description : Option String) :
    IsCommentRow (Line.note n description).render.toList := by
  rw [Line.toList_render]
  exact isCommentRow_append (fun c hc => .inl (List.mem_replicate.1 hc).2) n description

theorem isCommentRow_laid (o : LayoutOptions) (n : Nat) (description : Option String) :
    IsCommentRow ((Line.note n description).laid o.unit) :=
  isCommentRow_append (fun _ hc => eq_of_mem_unit (mem_of_mem_flatten_replicate hc)) n description

/-- Code at the front of a line stays at the front of its first row. -/
theorem exists_splitLines_append {a : List Char} (ha : Unbroken a) {c : Char}
    (hc : isLineBreak c = false) (r : List Char) :
    ∃ first rest, splitLines (a ++ c :: r) = (a ++ c :: first) :: rest := by
  have hcons : ∀ c cs, isLineBreak c = false → ∃ rest,
      splitLines (c :: cs) = (c :: (splitLines cs).headD []) :: rest := by
    intro c cs hc
    refine ⟨((endedLines cs).tail).map dropEnd, ?_⟩
    rw [Text.splitLines_eq, Text.splitLines_eq, Text.endedLines_of_not_isLineBreak hc]
    cases endedLines cs with
    | nil => simp [dropEnd, hc]
    | cons l ls => simp [dropEnd, hc]
  induction a with
  | nil =>
    obtain ⟨rest, h⟩ := hcons c r hc
    exact ⟨_, rest, h⟩
  | cons x a ih =>
    obtain ⟨first, rest, h⟩ := ih fun y hy => ha y (by simp [hy])
    obtain ⟨rest', h'⟩ := hcons x (a ++ c :: r) (ha x (by simp))
    exact ⟨first, rest', by rw [List.cons_append, h', h]; rfl⟩

/-- The first row of a line of code starts as the line does, but for its indentation. -/
theorem StartsPlain.exists_row {l : Line} (h : StartsPlain l.text) :
    ∃ first rest, splitLines (l.render.toList ++ ['\n']) = first :: rest ∧
      ∃ c r, trim first = c :: r ∧ c ≠ '|' ∧ isCloser c = false := by
  obtain ⟨c, r, hcons, hblank, hbar, hcloser⟩ := h.exists_cons
  have hspace : ∀ x ∈ List.replicate (2 * l.indent) ' ', x = ' ' := fun x hx =>
    (List.mem_replicate.1 hx).2
  have hc : isLineBreak c = false := by
    rw [Bool.eq_false_iff]
    intro hbreak
    rw [Text.isBlank_of_isLineBreak hbreak] at hblank
    cases hblank
  obtain ⟨first, rest, hsplit⟩ := exists_splitLines_append
    (fun x hx => by rw [hspace x hx]; rfl : Unbroken (List.replicate (2 * l.indent) ' ')) hc
    (r ++ ['\n'])
  obtain ⟨r', htrim⟩ := Text.trim_cons hblank first
  refine ⟨List.replicate (2 * l.indent) ' ' ++ c :: first, rest, ?_, c, r', ?_, hbar, hcloser⟩
  · rw [Line.toList_render, hcons, List.append_assoc, List.cons_append, hsplit]
  · rw [Text.trim_append (fun x hx => by rw [hspace x hx]; rfl), htrim]

/-! ## Comment lines -/

/-- The second lines are the first ones with comment lines, each in front of a line of code. -/
inductive Commented : List Line → List Line → Prop
  | nil : Commented [] []
  | same (l : Line) {a b : List Line} : Commented a b → Commented (l :: a) (l :: b)
  | note (n : Nat) (description : Option String) {l : Line} {a b : List Line} :
      StartsPlain l.text → Commented a b → Commented (l :: a) (.note n description :: l :: b)

theorem Line.text_note_ne (n : Nat) (description : Option String) :
    (Line.note n description).text ≠ "" := fun h =>
  (Line.sits_comment description n).ne_nil (String.toList_eq_nil_iff.2 h)

namespace Commented

variable {a b c d : List Line}

theorem refl (a : List Line) : Commented a a := by
  induction a with
  | nil => exact .nil
  | cons l r ih => exact .same l ih

theorem append (h : Commented a b) (h' : Commented c d) : Commented (a ++ c) (b ++ d) := by
  induction h with
  | nil => exact h'
  | same l _ ih => exact .same l ih
  | note n description hl _ ih => exact .note n description hl ih

theorem flatMap {α : Type} {xs : List α} {f g : α → List Line}
    (h : ∀ x ∈ xs, Commented (f x) (g x)) : Commented (xs.flatMap f) (xs.flatMap g) := by
  induction xs with
  | nil => exact .nil
  | cons x r ih => exact (h x (by simp)).append (ih fun y hy => h y (by simp [hy]))

theorem shift (h : Commented a b) : Commented (a.map Line.shift) (b.map Line.shift) := by
  induction h with
  | nil => exact .nil
  | same l _ ih => exact .same l.shift ih
  | @note n description l a b hl _ ih =>
    have hplain : l.shift = ⟨l.indent + 1, l.text⟩ := by
      refine if_neg fun hempty => ?_
      rw [hempty] at hl
      cases hl
    have hnote : (Line.note n description).shift = .note (n + 1) description :=
      if_neg (Line.text_note_ne n description)
    rw [List.map_cons, List.map_cons, List.map_cons, hplain, hnote]
    exact .note (n + 1) description hl ih

theorem ne_nil (h : Commented a b) (ha : a ≠ []) : b ≠ [] := by
  cases h with
  | nil => exact absurd rfl ha
  | same l _ => exact List.cons_ne_nil l _
  | note n description _ _ => exact List.cons_ne_nil _ _

/-- The empty line at the end of a file does not matter. -/
theorem dropLast (h : Commented a b) (hlast : a.getLast? = some .blank) :
    Commented a.dropLast b.dropLast := by
  induction h with
  | nil => exact .nil
  | @same l a b h ih =>
    cases a with
    | nil =>
      cases h
      exact .nil
    | cons x a =>
      rw [List.dropLast_cons_of_ne_nil (List.cons_ne_nil x a),
        List.dropLast_cons_of_ne_nil (h.ne_nil (List.cons_ne_nil x a))]
      exact .same l (ih hlast)
  | @note n description l a b hl h ih =>
    cases a with
    | nil =>
      obtain rfl : l = .blank := by simpa using hlast
      cases hl
    | cons x a =>
      rw [List.dropLast_cons_of_ne_nil (List.cons_ne_nil x a),
        List.dropLast_cons_of_ne_nil (List.cons_ne_nil l b),
        List.dropLast_cons_of_ne_nil (h.ne_nil (List.cons_ne_nil x a))]
      exact .note n description hl (ih hlast)

/-! ## Texts as they are written -/

/-- Comment lines give comment rows. -/
theorem inserted_rows (h : Commented a b) :
    Inserted IsCommentLine ((rows a).flatMap fun r => endedLines (r ++ ['\n']))
      ((rows b).flatMap fun r => endedLines (r ++ ['\n'])) := by
  induction h with
  | nil => exact .nil
  | same l _ ih => exact (Inserted.refl _ _).append ih
  | @note n description l a b _ _ ih =>
    have hrow := isCommentRow_render n description
    rw [rows_cons, rows_cons, rows_cons, List.flatMap_cons, List.flatMap_cons, List.flatMap_cons,
      Text.endedLines_of_unbroken hrow.unbroken]
    exact .extra ⟨_, hrow, rfl⟩ ((Inserted.refl _ _).append ih)

theorem written (h : Commented a b) :
    AddsComments (renderLines (a ++ [.blank])) (renderLines (b ++ [.blank])) := by
  refine .of_rows ?_
  rw [toList_renderLines, toList_renderLines, Text.endedLines_flatMap, Text.endedLines_flatMap]
  exact h.inserted_rows

end Commented

/-! ## Layouts -/

/-- A comment is written at the depth where it stands, and the depth stays. -/
theorem Layout.add_note_row (o : LayoutOptions) (l : Layout) (n : Nat)
    (description : Option String) :
    l.add o.unit (Line.note n description).render.toList =
      ⟨(Line.note l.depth description).laid o.unit :: l.written, l.depth⟩ := by
  have hsits : (Line.note l.depth description).Sits l.depth l.depth :=
    Line.sits_comment description l.depth
  have hclosers : leadingClosers (Line.note l.depth description).text.toList = 0 :=
    Nat.add_left_cancel hsits.indent
  have hanywhere : trim (Line.note n description).render.toList =
      trim (Line.note l.depth description).render.toList :=
    (Line.sits_comment description n).trim_render.trans hsits.trim_render.symm
  have hadd := hsits.add o l.written
  rw [if_pos hclosers] at hadd
  rw [← hadd, Layout.add, Layout.add, hanywhere]

/-- A row that closes no bracket first is written behind what is there. -/
theorem Layout.add_of_leadingClosers_eq_zero (unit : List Char) {l : Layout}
    {row line : List Char} (hrow : trim row = line) (hline : line ≠ [])
    (hclosers : leadingClosers line = 0) :
    l.add unit row = ⟨((List.replicate l.depth unit).flatten ++ line) :: l.written,
      (l.depth + bracketDelta line).toNat⟩ := by
  unfold Layout.add
  rw [hrow]
  split
  · contradiction
  · simp only [Layout.addLine, hclosers, if_pos, Nat.sub_zero]

/-- The second layout is the first one with comment rows, none of which is the last row.  A blank
row is never the first one. -/
inductive Layout.Commented : Layout → Layout → Prop
  | start (k : Nat) : Layout.Commented ⟨[], k⟩ ⟨[], k⟩
  | written {row : List Char} (k : Nat) {w w' : List (List Char)} :
      (row = [] → w ≠ []) → Inserted IsCommentRow w w' →
      Layout.Commented ⟨row :: w, k⟩ ⟨row :: w', k⟩

namespace Layout.Commented

variable {l l' : Layout}

theorem inserted (h : l.Commented l') : Inserted IsCommentRow l.written l'.written := by
  cases h with
  | start k => exact .nil
  | written k _ hw => exact .same _ hw

theorem inserted_dropBlank (h : l.Commented l') :
    Inserted IsCommentRow (dropBlank l.written) (dropBlank l'.written) := by
  cases h with
  | start k => exact .nil
  | @written row k w w' _ hw =>
    cases row with
    | nil => exact hw
    | cons c r => exact .same _ hw

theorem depth_eq (h : l.Commented l') : l'.depth = l.depth := by
  cases h <;> rfl

theorem addBlank (h : l.Commented l') : l.addBlank.Commented l'.addBlank := by
  cases h with
  | start k => exact .start k
  | @written row k w w' hne hw =>
    unfold Layout.addBlank
    dsimp only
    split_ifs
    · exact .written k hne hw
    · exact .written k (fun _ => List.cons_ne_nil _ _) (.same row hw)

theorem addLine (h : l.Commented l') (unit : List Char) {line : List Char} (hline : line ≠ []) :
    (l.addLine unit line).Commented (l'.addLine unit line) := by
  unfold Layout.addLine
  rw [h.depth_eq]
  refine .written _ (fun hnil => absurd (List.append_eq_nil_iff.1 hnil).2 hline) ?_
  split_ifs
  · exact h.inserted
  · exact h.inserted_dropBlank

/-- The same row may be added to both. -/
theorem add (h : l.Commented l') (unit row : List Char) :
    (l.add unit row).Commented (l'.add unit row) := by
  unfold Layout.add
  split
  · exact h.addBlank
  · next hline => exact h.addLine unit hline

/-- A comment may be added to the second one if a row of code follows in both. -/
theorem add_note (h : l.Commented l') (o : LayoutOptions) (n : Nat) (description : Option String)
    {row line : List Char} (hrow : trim row = line) (hline : line ≠ [])
    (hclosers : leadingClosers line = 0) :
    (l.add o.unit row).Commented
      ((l'.add o.unit (Line.note n description).render.toList).add o.unit row) := by
  have hdepth := h.depth_eq
  rw [add_note_row, add_of_leadingClosers_eq_zero o.unit hrow hline hclosers,
    add_of_leadingClosers_eq_zero o.unit hrow hline hclosers, hdepth]
  refine .written _ (fun hnil => absurd (List.append_eq_nil_iff.1 hnil).2 hline) ?_
  exact .extra (isCommentRow_laid o l.depth description) h.inserted

/-- Lines with comments are laid out as without them. -/
theorem foldl (o : LayoutOptions) {a b : List Line} (hab : Code.Commented a b)
    (h : l.Commented l') :
    (((rows a).flatMap fun r => splitLines (r ++ ['\n'])).foldl (Layout.add o.unit) l).Commented
      (((rows b).flatMap fun r => splitLines (r ++ ['\n'])).foldl (Layout.add o.unit) l') := by
  have hsame : ∀ (rs : List (List Char)) {l l' : Layout}, l.Commented l' →
      (rs.foldl (Layout.add o.unit) l).Commented (rs.foldl (Layout.add o.unit) l') :=
    fun rs _ _ h => List.foldl_rel h fun row _ _ _ h => h.add o.unit row
  induction hab generalizing l l' with
  | nil => exact h
  | @same line a b _ ih =>
    rw [rows_cons, rows_cons, List.flatMap_cons, List.flatMap_cons, List.foldl_append,
      List.foldl_append]
    exact ih (hsame _ h)
  | @note n description line a b hline _ ih =>
    have hrow := isCommentRow_render n description
    obtain ⟨first, rest, hsplit, c, r, htrim, hbar, hcloser⟩ := hline.exists_row
    rw [rows_cons, rows_cons, rows_cons, List.flatMap_cons, List.flatMap_cons, List.flatMap_cons,
      Text.splitLines_of_unbroken hrow.unbroken, hsplit, List.foldl_append, List.foldl_append,
      List.foldl_append, List.foldl_cons, List.foldl_cons, List.foldl_cons, List.foldl_nil]
    have hboth := h.add_note o n description htrim (List.cons_ne_nil c r)
      (leadingClosers_cons hbar hcloser r)
    exact ih (hsame rest hboth)

end Layout.Commented

/-! ## Texts as they are laid out -/

/-- The text, laid out if there are options. -/
def laidText (layout : Option LayoutOptions) (code : String) : String :=
  match layout with
  | some o => format o code
  | none => code

theorem Layout.Commented.dropBlank_eq_nil {l l' : Layout} (h : l.Commented l')
    (hnil : dropBlank l.written = []) : dropBlank l'.written = [] := by
  cases h with
  | start k => rfl
  | @written row k w w' hne hw =>
    cases row with
    | nil => exact absurd hnil (hne rfl)
    | cons c r => cases hnil

/-- The rows of a text that is laid out, with their line ends. -/
theorem endedLines_format {o : LayoutOptions} {code : String} (h : laidRows o code ≠ []) :
    endedLines (format o code).toList = (laidRows o code).map (· ++ ['\n']) := by
  rw [toList_format h, Text.endedLines_flatMap, List.map_eq_flatMap]
  exact List.flatMap_congr fun r hr => Text.endedLines_of_unbroken (unbroken_of_mem_laidRows hr)

theorem Commented.laidOut (o : LayoutOptions) {a b : List Line} (h : Commented a b) :
    AddsComments (format o (renderLines (a ++ [.blank])))
      (format o (renderLines (b ++ [.blank]))) := by
  have hlayout : (layout o.unit (renderLines (a ++ [.blank])).toList).Commented
      (layout o.unit (renderLines (b ++ [.blank])).toList) := by
    unfold layout
    rw [toList_renderLines, toList_renderLines, Text.splitLines_flatMap, Text.splitLines_flatMap]
    exact (Layout.Commented.start 0).foldl o h
  have hrows : Inserted IsCommentRow (laidRows o (renderLines (a ++ [.blank])))
      (laidRows o (renderLines (b ++ [.blank]))) := hlayout.inserted_dropBlank.reverse
  by_cases hnil : laidRows o (renderLines (a ++ [.blank])) = []
  · have hnil' : laidRows o (renderLines (b ++ [.blank])) = [] :=
      List.reverse_eq_nil_iff.2 (hlayout.dropBlank_eq_nil (List.reverse_eq_nil_iff.1 hnil))
    have hformat : ∀ code, laidRows o code = [] → format o code = "\n" := by
      intro code hcode
      show String.ofList (['\n'].intercalate (laidRows o code) ++ ['\n']) = _
      rw [hcode]
      rfl
    rw [hformat _ hnil, hformat _ hnil']
    exact .of_rows (.refl _ _)
  · refine .of_rows ?_
    rw [endedLines_format hnil, endedLines_format (hrows.ne_nil hnil)]
    exact hrows.map fun row hrow => ⟨row, hrow, rfl⟩

/-- Comment lines add comments to a file, as it is written and as it is laid out. -/
theorem Commented.addsComments (layout : Option LayoutOptions) {a b : List Line}
    (h : Commented a b) (ha : a.getLast? = some .blank) (hb : b.getLast? = some .blank) :
    AddsComments (laidText layout (renderLines a)) (laidText layout (renderLines b)) := by
  have hlast : ∀ ls : List Line, ls.getLast? = some .blank → ls.dropLast ++ [.blank] = ls :=
    fun _ => List.dropLast_append_getLast? _
  have hdrop := h.dropLast ha
  cases layout with
  | none =>
    have hwritten := hdrop.written
    rwa [hlast a ha, hlast b hb] at hwritten
  | some o =>
    have hlaid := hdrop.laidOut o
    rwa [hlast a ha, hlast b hb] at hlaid

end ResolverKit.Code
