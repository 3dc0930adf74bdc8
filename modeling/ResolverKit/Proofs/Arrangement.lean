import ResolverKit.Proofs.Relayout

/-!
# The arrangement of laid out code

`format` goes through a text line by line, writes empty lines ahead and takes them back.  What comes
out can be said without following it.  `IsArranged unit lines rows` says of the rows of a text that
they are the filled lines, all of them and in order, each indented by the depth behind the lines in
front of it less its own leading closers, and that one empty row stands between two of them where
empty lines stood and neither an opened block nor a closing bracket forbids it:

    s = format o code ↔ ∃ rows, s.toList = ['\n'].intercalate rows ++ ['\n'] ∧
      IsArranged o.unit (trimmedLines code) rows                             (eq_format_iff)

The lines of the arranged text are the filled lines again, with the gaps that were kept, so that a
second layout has nothing left to decide:

    format o₂ (format o₁ code) = format o₂ code                             (format_format)
-/

namespace ResolverKit.Text

/-! ## Trimming twice -/

theorem head?_trim {cs : List Char} : ∀ c ∈ (trim cs).head?, isBlank c = false := by
  intro c hc
  have hprefix : trim cs <+: trimLeft cs := by
    have hsuffix := List.dropWhile_suffix isBlank (l := (trimLeft cs).reverse)
    simpa [trim, trimRight, trimLeft] using List.reverse_prefix.2 hsuffix
  obtain ⟨r, hr⟩ := hprefix
  have hhead : (trimLeft cs).head? = some c := by
    rw [← hr, List.head?_append, hc]
    rfl
  have hnot := List.head?_dropWhile_not isBlank cs
  rw [show cs.dropWhile isBlank = trimLeft cs from rfl, hhead] at hnot
  simpa using hnot

theorem getLast?_trim {cs : List Char} : ∀ c ∈ (trim cs).getLast?, isBlank c = false := by
  intro c hc
  have hnot := List.head?_dropWhile_not isBlank (trimLeft cs).reverse
  rw [trim, trimRight, List.getLast?_reverse] at hc
  rw [show (trimLeft cs).reverse.dropWhile isBlank = trimLeft (trimLeft cs).reverse from rfl,
    show (trimLeft (trimLeft cs).reverse).head? = some c from hc] at hnot
  simpa using hnot

theorem trim_trim (cs : List Char) : trim (trim cs) = trim cs :=
  trim_eq_self head?_trim getLast?_trim

end ResolverKit.Text

namespace ResolverKit.Code

open Text (splitLines trim isBlank)

/-! ## Filled lines and gaps -/

def trimmedLines (code : String) : List (List Char) := (splitLines code.toList).map trim

/-- The lines that are not empty. -/
def filled (ls : List (List Char)) : List (List Char) := ls.filter (· ≠ [])

/-- How many empty lines stand in front of each filled line, behind the filled line before.  In
front of the first stand `n` more. -/
def gapsFrom (n : Nat) : List (List Char) → List Nat
  | [] => []
  | [] :: r => gapsFrom (n + 1) r
  | (_ :: _) :: r => n :: gapsFrom 0 r

/-- How many empty lines stand in front of each filled line. -/
def gaps (ls : List (List Char)) : List Nat := gapsFrom 0 ls

/-- How many empty lines stand at the end; `n` more stand in front of everything. -/
def trailingFrom (n : Nat) : List (List Char) → Nat
  | [] => n
  | [] :: r => trailingFrom (n + 1) r
  | (_ :: _) :: r => trailingFrom 0 r

/-- How many empty lines stand at the end. -/
def trailing (ls : List (List Char)) : Nat := trailingFrom 0 ls

/-! ## Arranged rows -/

/-- The depth of the brackets behind these lines.  It is never below zero. -/
def depthBehind (ls : List (List Char)) : Nat :=
  ls.foldl (fun depth line => (depth + bracketDelta line).toNat) 0

/-- A line at this depth.  The brackets that it closes first are taken off. -/
def indented (unit : List Char) (depth : Nat) (line : List Char) : List Char :=
  (List.replicate (depth - leadingClosers line) unit).flatten ++ line

/-- An empty row may stand in front of the line with this number: the line before opens no block,
and the line itself does not start by closing one. -/
def mayPart (ls : List (List Char)) : Nat → Bool
  | 0 => false
  | i + 1 => ls[i]?.any (!opensBlock ·) && ls[i + 1]?.any (leadingClosers · = 0)

/-- The rows arrange these trimmed lines. -/
structure IsArranged (unit : List Char) (lines rows : List (List Char)) : Prop where
  filled_eq : filled rows = (filled lines).mapIdx fun i line =>
    indented unit (depthBehind ((filled lines).take i)) line
  gaps_eq : gaps rows = (gaps lines).mapIdx fun i n =>
    if 0 < n ∧ mayPart (filled lines) i then 1 else 0
  getLast?_ne : rows.getLast? ≠ some []

/-! ## One line more -/

section

variable {a b : List (List Char)} {line : List Char}

theorem filled_append (a b : List (List Char)) : filled (a ++ b) = filled a ++ filled b :=
  List.filter_append ..

theorem filled_concat_nil (a : List (List Char)) : filled (a ++ [[]]) = filled a := by
  simp [filled]

theorem filled_concat (a : List (List Char)) (h : line ≠ []) :
    filled (a ++ [line]) = filled a ++ [line] := by
  simp [filled, h]

theorem gapsFrom_append (n : Nat) (a b : List (List Char)) :
    gapsFrom n (a ++ b) = gapsFrom n a ++ gapsFrom (trailingFrom n a) b := by
  fun_induction gapsFrom n a with
  | case1 n => rfl
  | case2 n r ih => exact ih
  | case3 n c l r ih => exact congrArg (n :: ·) ih

theorem trailingFrom_append (n : Nat) (a b : List (List Char)) :
    trailingFrom n (a ++ b) = trailingFrom (trailingFrom n a) b := by
  fun_induction trailingFrom n a with
  | case1 n => rfl
  | case2 n r ih => exact ih
  | case3 n c l r ih => exact ih

theorem gaps_concat_nil (a : List (List Char)) : gaps (a ++ [[]]) = gaps a := by
  rw [gaps, gapsFrom_append]
  exact List.append_nil _

theorem gaps_concat (a : List (List Char)) (h : line ≠ []) :
    gaps (a ++ [line]) = gaps a ++ [trailing a] := by
  obtain ⟨c, r, rfl⟩ := List.exists_cons_of_ne_nil h
  exact gapsFrom_append 0 a _

theorem trailing_concat_nil (a : List (List Char)) : trailing (a ++ [[]]) = trailing a + 1 :=
  trailingFrom_append 0 a _

theorem trailing_concat (a : List (List Char)) (h : line ≠ []) : trailing (a ++ [line]) = 0 := by
  obtain ⟨c, r, rfl⟩ := List.exists_cons_of_ne_nil h
  exact trailingFrom_append 0 a _

theorem trailing_eq_zero (h : a.getLast? ≠ some []) : trailing a = 0 := by
  rcases List.eq_nil_or_concat a with rfl | ⟨r, line, rfl⟩
  · rfl
  · rw [List.concat_eq_append] at h ⊢
    exact trailing_concat r fun hl => h (by simp [hl])

theorem length_gaps (a : List (List Char)) : (gaps a).length = (filled a).length := by
  have hall : ∀ n, (gapsFrom n a).length = (filled a).length := by
    intro n
    fun_induction gapsFrom n a with
    | case1 n => rfl
    | case2 n r ih => exact ih
    | case3 n c l r ih => simpa [filled] using ih
  exact hall 0

theorem depthBehind_concat (a : List (List Char)) (line : List Char) :
    depthBehind (a ++ [line]) = (depthBehind a + bracketDelta line).toNat := by
  simp [depthBehind, List.foldl_append]

theorem mayPart_append {ls : List (List Char)} {i : Nat} (h : i < ls.length) (line : List Char) :
    mayPart (ls ++ [line]) i = mayPart ls i := by
  cases i with
  | zero => rfl
  | succ i =>
    rw [mayPart, mayPart, List.getElem?_append_left h,
      List.getElem?_append_left (Nat.lt_of_succ_lt h)]

theorem mayPart_length (ls : List (List Char)) (line : List Char) :
    mayPart (ls ++ [line]) ls.length =
      (ls.getLast?.any (!opensBlock ·) && leadingClosers line = 0) := by
  rcases List.eq_nil_or_concat ls with rfl | ⟨front, last, rfl⟩
  · rfl
  · simp [mayPart]

/-- What is done to each element may depend on those in front of it. -/
theorem mapIdx_concat_of_eq {α β : Type} {f g : Nat → α → β} {l : List α} {x : α}
    (h : ∀ i, i < l.length → f i = g i) :
    (l ++ [x]).mapIdx f = l.mapIdx g ++ [f l.length x] := by
  rw [List.mapIdx_concat, List.mapIdx_eq_mapIdx_iff.2 fun i hi => by rw [h i hi]]

end

/-! ## The rows while they are written -/

section

variable {unit line : List Char} {lines rows done : List (List Char)} {l : Layout}

/-- An empty line stands at the end, and an empty row may stand for it so far. -/
def isPending (done : List (List Char)) : Bool :=
  0 < trailing done && (filled done).getLast?.any (!opensBlock ·)

/-- The layout behind the trimmed lines `done`: their rows, and an empty row ahead. -/
structure Layout.Arranges (unit : List Char) (done rows : List (List Char)) (l : Layout) :
    Prop where
  arranged : IsArranged unit done rows
  written : l.written = (if isPending done then [[]] else []) ++ rows.reverse
  depth : l.depth = depthBehind (filled done)

theorem indented_ne_nil (unit : List Char) (depth : Nat) (h : line ≠ []) :
    indented unit depth line ≠ [] := by
  simp [indented, h]

/-- Indentation does not matter for whether a line opens a block. -/
theorem opensBlock_indented (o : LayoutOptions) (depth : Nat) (line : List Char) :
    opensBlock (indented o.unit depth line) = opensBlock line := by
  have hindent : ∀ c ∈ (List.replicate (depth - leadingClosers line) o.unit).flatten,
      isOpener c = false := by
    intro c hc
    rcases eq_of_mem_unit (mem_of_mem_flatten_replicate hc) with rfl | rfl <;> rfl
  unfold opensBlock indented
  rw [List.reverse_append, List.dropWhile_append]
  generalize (List.replicate (depth - leadingClosers line) o.unit).flatten = indent at hindent
  cases hline : line.reverse.dropWhile (· = '|') with
  | cons c r => rfl
  | nil =>
    simp only [List.isEmpty_nil, if_true]
    split
    · next c r hc =>
      have hmem : c ∈ indent.reverse.dropWhile (· = '|') := by rw [hc]; exact List.mem_cons_self
      exact hindent c (List.mem_reverse.1 ((List.dropWhile_suffix _).subset hmem))
    · rfl

/-- The last row is the last filled line. -/
theorem IsArranged.exists_last (h : IsArranged unit lines rows) {last : List Char}
    (hlast : rows.getLast? = some last) :
    last ≠ [] ∧
      ∃ line depth, (filled lines).getLast? = some line ∧ last = indented unit depth line := by
  obtain ⟨front, rfl⟩ := List.getLast?_eq_some_iff.1 hlast
  have hne : last ≠ [] := fun hl => h.getLast?_ne (by simp [hl])
  have hrow := congrArg List.getLast? h.filled_eq
  rw [filled_concat front hne, List.getLast?_concat, List.getLast?_mapIdx] at hrow
  obtain ⟨line, hline, hrow⟩ := Option.map_eq_some_iff.1 hrow.symm
  exact ⟨hne, line, _, hline, hrow.symm⟩

theorem IsArranged.filled_eq_nil (h : IsArranged unit lines []) : filled lines = [] :=
  List.mapIdx_eq_nil_iff.1 h.filled_eq.symm

/-- An empty line adds nothing to what is arranged. -/
theorem IsArranged.append_blank (h : IsArranged unit done rows) :
    IsArranged unit (done ++ [[]]) rows := by
  have hfilled := filled_concat_nil done
  have hgaps := gaps_concat_nil done
  exact ⟨by rw [hfilled, h.filled_eq], by rw [hfilled, hgaps, h.gaps_eq], h.getLast?_ne⟩

/-- One more filled line, with the empty row in front of it that may stand there. -/
theorem IsArranged.append_line (h : IsArranged unit done rows) (hline : line ≠ []) :
    IsArranged unit (done ++ [line])
      (rows ++ (if isPending done ∧ leadingClosers line = 0 then [[]] else []) ++
        [indented unit (depthBehind (filled done)) line]) := by
  have hrow := indented_ne_nil unit (depthBehind (filled done)) hline
  have hfilled := filled_concat done hline
  have htrailing := trailing_eq_zero h.getLast?_ne
  have hfront : ∀ i, i ≤ (filled done).length →
      (filled done ++ [line]).take i = (filled done).take i := fun i hi =>
    List.take_append_of_le_length hi
  refine ⟨?_, ?_, by simpa using hrow⟩
  · have hgap : filled (if isPending done ∧ leadingClosers line = 0 then [[]] else []) = [] := by
      split <;> rfl
    rw [filled_concat _ hrow, filled_append, hgap, List.append_nil, hfilled,
      mapIdx_concat_of_eq fun i hi => by rw [hfront i (Nat.le_of_lt hi)], hfront _ (Nat.le_refl _),
      List.take_length, h.filled_eq]
  · have hlast : (isPending done = true ∧ leadingClosers line = 0) ↔
        0 < trailing done ∧ mayPart (filled done ++ [line]) (filled done).length = true := by
      simp [isPending, mayPart_length, and_assoc]
    have hgaps : (gaps (done ++ [line])).mapIdx (fun i n =>
          if 0 < n ∧ mayPart (filled (done ++ [line])) i then 1 else 0) =
        gaps rows ++ [if isPending done ∧ leadingClosers line = 0 then 1 else 0] := by
      rw [gaps_concat done hline, hfilled, mapIdx_concat_of_eq fun i hi => ?_, h.gaps_eq,
        length_gaps, if_congr hlast rfl rfl]
      rw [length_gaps] at hi
      rw [mayPart_append hi]
    rw [hgaps, gaps_concat _ hrow]
    split
    · rw [gaps_concat_nil, trailing_concat_nil, htrailing]
    · rw [List.append_nil, htrailing]

/-! ## One row of a text -/

theorem Layout.Arranges.addBlank {o : LayoutOptions} (h : l.Arranges o.unit done rows) :
    l.addBlank.Arranges o.unit (done ++ [[]]) rows := by
  have hdepth : l.addBlank.depth = depthBehind (filled (done ++ [[]])) := by
    rw [filled_concat_nil, ← h.depth]
    unfold Layout.addBlank
    split
    · split <;> rfl
    · rfl
  refine ⟨h.arranged.append_blank, ?_, hdepth⟩
  have hpending : isPending (done ++ [[]]) = (filled done).getLast?.any (!opensBlock ·) := by
    simp [isPending, trailing_concat_nil, filled_concat_nil]
  rw [hpending]
  rcases List.eq_nil_or_concat rows with rfl | ⟨front, last, rfl⟩
  · have hnil := h.arranged.filled_eq_nil
    have hwritten : l.written = [] := by rw [h.written, isPending, hnil]; simp
    simp [Layout.addBlank, hwritten, hnil]
  · rw [List.concat_eq_append] at h ⊢
    obtain ⟨hne, line, depth, hline, hlast⟩ := h.arranged.exists_last (List.getLast?_concat ..)
    have hopens : opensBlock last = opensBlock line := by rw [hlast, opensBlock_indented]
    have hwritten := h.written
    rw [isPending, hline] at hwritten
    rw [hline]
    unfold Layout.addBlank
    cases hopen : opensBlock line with
    | true =>
      have hrows : l.written = last :: front.reverse := by simpa [hopen] using hwritten
      simp [hrows, hopens, hopen]
    | false =>
      rcases Nat.eq_zero_or_pos (trailing done) with hzero | hpos
      · have hrows : l.written = last :: front.reverse := by simpa [hzero] using hwritten
        simp [hrows, hopens, hopen, hne]
      · have hrows : l.written = [] :: last :: front.reverse := by
          simpa [hpos, hopen] using hwritten
        simp [hrows, hopen]

theorem dropBlank_reverse (h : rows.getLast? ≠ some []) (pending : Bool) :
    dropBlank ((if pending then [[]] else []) ++ rows.reverse) = rows.reverse := by
  cases pending with
  | true => rfl
  | false =>
    rcases List.eq_nil_or_concat rows with rfl | ⟨front, last, rfl⟩
    · rfl
    · have hlast : last ≠ [] := by simpa using h
      obtain ⟨c, r, rfl⟩ := List.exists_cons_of_ne_nil hlast
      simp [dropBlank]

theorem Layout.Arranges.addLine (h : l.Arranges unit done rows) (hline : line ≠ []) :
    ∃ rows', (l.addLine unit line).Arranges unit (done ++ [line]) rows' := by
  refine ⟨_, h.arranged.append_line hline, ?_, ?_⟩
  · have hpending : isPending (done ++ [line]) = false := by
      simp [isPending, trailing_concat done hline]
    have hdrop := dropBlank_reverse h.arranged.getLast?_ne (isPending done)
    rw [hpending]
    simp only [Layout.addLine, h.written, hdrop, h.depth, indented]
    by_cases hclosers : leadingClosers line = 0
    · cases isPending done <;> simp [hclosers]
    · simp [hclosers]
  · rw [filled_concat done hline, depthBehind_concat, ← h.depth]
    rfl

/-- One row of a text is added to what is arranged. -/
theorem Layout.Arranges.add {o : LayoutOptions} (h : l.Arranges o.unit done rows)
    (raw : List Char) :
    ∃ rows', (l.add o.unit raw).Arranges o.unit (done ++ [trim raw]) rows' := by
  unfold Layout.add
  split
  · next hraw =>
    rw [hraw]
    exact ⟨rows, h.addBlank⟩
  · next hraw => exact h.addLine fun hnil => hraw hnil

/-- All rows of a text, one behind the other. -/
theorem Layout.Arranges.foldl {o : LayoutOptions} (h : l.Arranges o.unit done rows)
    (raws : List (List Char)) :
    ∃ rows', (raws.foldl (Layout.add o.unit) l).Arranges o.unit (done ++ raws.map trim) rows' := by
  induction raws generalizing l done rows with
  | nil => exact ⟨rows, by simpa using h⟩
  | cons raw r ih =>
    obtain ⟨rows₁, hone⟩ := h.add raw
    obtain ⟨rows₂, hall⟩ := ih hone
    exact ⟨rows₂, by simpa using hall⟩

end

/-! ## Whole texts -/

/-- The rows that `format` writes are arranged. -/
theorem isArranged_laidRows (o : LayoutOptions) (code : String) :
    IsArranged o.unit (trimmedLines code) (laidRows o code) := by
  have hstart : (⟨[], 0⟩ : Layout).Arranges o.unit [] [] := by
    refine ⟨⟨rfl, rfl, by simp⟩, rfl, rfl⟩
  obtain ⟨rows, hend⟩ := hstart.foldl (splitLines code.toList)
  have hrows : laidRows o code = rows := by
    rw [laidRows, layout, hend.written, dropBlank_reverse hend.arranged.getLast?_ne,
      List.reverse_reverse]
  rw [hrows]
  exact hend.arranged

/-- Rows are made of their filled rows and the empty ones in front of each. -/
theorem eq_flatten_zipWith (rows : List (List Char)) :
    rows = (List.zipWith (fun n row => List.replicate n [] ++ [row]) (gaps rows)
      (filled rows)).flatten ++ List.replicate (trailing rows) [] := by
  have hall : ∀ n, List.replicate n [] ++ rows =
      (List.zipWith (fun n row => List.replicate n [] ++ [row]) (gapsFrom n rows)
        (filled rows)).flatten ++ List.replicate (trailingFrom n rows) [] := by
    intro n
    fun_induction gapsFrom n rows with
    | case1 n => simp [filled, trailingFrom]
    | case2 n r ih =>
      rw [List.replicate_succ', List.append_assoc] at ih
      exact ih
    | case3 n c l r ih => simpa [filled, trailingFrom] using ih
  exact hall 0

/-- Lines are arranged in one way only. -/
theorem IsArranged.unique {unit : List Char} {lines rows rows' : List (List Char)}
    (h : IsArranged unit lines rows) (h' : IsArranged unit lines rows') : rows = rows' := by
  rw [eq_flatten_zipWith rows, eq_flatten_zipWith rows', h.filled_eq, h.gaps_eq, h'.filled_eq,
    h'.gaps_eq, trailing_eq_zero h.getLast?_ne, trailing_eq_zero h'.getLast?_ne]

/-! ## The lines of a laid out text -/

section

variable {o : LayoutOptions} {code : String}

theorem trim_of_mem_trimmedLines {line : List Char} (h : line ∈ filled (trimmedLines code)) :
    trim line = line := by
  obtain ⟨raw, -, rfl⟩ := List.mem_map.1 (List.mem_of_mem_filter h)
  exact Text.trim_trim raw

/-- Trimming takes the indentation off again. -/
theorem trim_indented (o : LayoutOptions) (depth : Nat) (line : List Char) :
    trim (indented o.unit depth line) = trim line :=
  Text.trim_append (fun _ hc => isBlank_of_mem_unit _ (mem_of_mem_flatten_replicate hc)) line

theorem map_trim_filled_laidRows (o : LayoutOptions) (code : String) :
    (filled (laidRows o code)).map trim = filled (trimmedLines code) := by
  rw [(isArranged_laidRows o code).filled_eq]
  refine List.ext_getElem (by simp) fun i hi hi' => ?_
  rw [List.getElem_map, List.getElem_mapIdx, trim_indented]
  exact trim_of_mem_trimmedLines (List.getElem_mem hi')

/-- Only the empty rows are blank. -/
theorem trim_eq_nil_iff_of_mem_laidRows {row : List Char} (h : row ∈ laidRows o code) :
    trim row = [] ↔ row = [] := by
  constructor
  · intro hrow
    by_contra hne
    have hmem : trim row ∈ filled (trimmedLines code) := by
      rw [← map_trim_filled_laidRows o code]
      exact List.mem_map_of_mem (List.mem_filter.2 ⟨h, by simpa using hne⟩)
    rw [hrow] at hmem
    simp [filled] at hmem
  · rintro rfl
    rfl

theorem filled_map_trim {rows : List (List Char)} (h : ∀ row ∈ rows, trim row = [] ↔ row = []) :
    filled (rows.map trim) = (filled rows).map trim := by
  unfold filled
  rw [List.filter_map]
  exact congrArg _ (List.filter_congr fun row hrow => by simp [h row hrow])

theorem gaps_map_trim {rows : List (List Char)} (h : ∀ row ∈ rows, trim row = [] ↔ row = []) :
    gaps (rows.map trim) = gaps rows := by
  have hall : ∀ n, gapsFrom n (rows.map trim) = gapsFrom n rows := by
    intro n
    fun_induction gapsFrom n rows with
    | case1 n => rfl
    | case2 n r ih => exact ih fun row hrow => h row (by simp [hrow])
    | case3 n c l r ih =>
      obtain ⟨c', l', hrow⟩ := List.exists_cons_of_ne_nil (mt (h (c :: l) (by simp)).1 (by simp))
      rw [List.map_cons, hrow, gapsFrom, ih fun row hrow => h row (by simp [hrow])]
  exact hall 0

/-- A laid out text has the filled lines of the text, and the gaps that were kept. -/
theorem filled_gaps_trimmedLines_format (o : LayoutOptions) (code : String) :
    filled (trimmedLines (format o code)) = filled (trimmedLines code) ∧
      gaps (trimmedLines (format o code)) = gaps (laidRows o code) := by
  have harranged := isArranged_laidRows o code
  by_cases hrows : laidRows o code = []
  · have hlines : trimmedLines (format o code) = [[]] := by
      rw [trimmedLines, toList_format_eq, hrows]
      decide
    rw [hrows] at harranged ⊢
    rw [hlines, harranged.filled_eq_nil]
    exact ⟨rfl, rfl⟩
  · have hblank : ∀ row ∈ laidRows o code, trim row = [] ↔ row = [] := fun _ =>
      trim_eq_nil_iff_of_mem_laidRows
    rw [trimmedLines, splitLines_format hrows, filled_map_trim hblank, gaps_map_trim hblank]
    exact ⟨map_trim_filled_laidRows o code, rfl⟩

end

/-! ## Main statements -/

/-- Laid out code is the arrangement of its lines, with one line feed behind the last row.  The text
shows these rows line by line, and no filled line is lost. -/
theorem eq_format_iff (o : LayoutOptions) (code s : String) :
    (s = format o code ↔ ∃ rows, s.toList = ['\n'].intercalate rows ++ ['\n'] ∧
      (rows ≠ [] → splitLines s.toList = rows) ∧ IsArranged o.unit (trimmedLines code) rows) ∧
      filled (trimmedLines (format o code)) = filled (trimmedLines code) := by
  refine ⟨⟨?_, ?_⟩, (filled_gaps_trimmedLines_format o code).1⟩
  · rintro rfl
    exact ⟨_, toList_format_eq o code, splitLines_format, isArranged_laidRows o code⟩
  · rintro ⟨rows, hs, -, hrows⟩
    rw [← String.toList_inj, hs, toList_format_eq, hrows.unique (isArranged_laidRows o code)]

/-- Code that is laid out once more is laid out as if it had never been. -/
theorem format_format (o₁ o₂ : LayoutOptions) (code : String) :
    format o₂ (format o₁ code) = format o₂ code := by
  obtain ⟨hfilled, hgaps⟩ := filled_gaps_trimmedLines_format o₁ code
  have harranged := isArranged_laidRows o₂ (format o₁ code)
  have hagain : IsArranged o₂.unit (trimmedLines code) (laidRows o₂ (format o₁ code)) := by
    refine ⟨by rw [harranged.filled_eq, hfilled], ?_, harranged.getLast?_ne⟩
    -- a gap that was kept is kept again, and no other is left
    rw [harranged.gaps_eq, hfilled, hgaps, (isArranged_laidRows o₁ code).gaps_eq,
      List.mapIdx_mapIdx]
    refine List.mapIdx_eq_mapIdx_iff.2 fun i hi => ?_
    dsimp only [Function.comp]
    split <;> simp_all
  rw [← String.toList_inj, toList_format_eq, toList_format_eq,
    hagain.unique (isArranged_laidRows o₂ code)]

end ResolverKit.Code
