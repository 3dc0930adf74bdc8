import Mathlib.Data.List.DropRight
import Mathlib.Data.List.MinMax
import ResolverKit.Sdl.Lexer
import ResolverKit.Sdl.Printer

/-!
# Rows of block strings

The lexer takes the common indentation and the blank rows at both ends from the rows of a block
string.  What is left has no blank row at either end, and unless it is a single row, some row of it
is not indented (`IsTrimmed`).  Rows of this kind are found again when they stand between blank
rows and further right.

    ∀ row ∈ rows, IsRow row → IsTrimmed (dedent rows)                       (isTrimmed_dedent)
    splitRows (joinRows rows) = rows                                      (splitRows_joinRows)
    dedent ([] :: (rows.map (spaces ++ ·) ++ [spaces])) = rows                (dedent_around)
-/

namespace ResolverKit.Sdl

open Text (isRowEnd splitRows)

/-! ## Rows -/

/-- No row ends in this text. -/
def IsRow (cs : List Char) : Prop := ∀ c ∈ cs, isRowEnd c = false

@[simp] theorem isRow_nil : IsRow [] := fun _ hc => nomatch hc

theorem isRow_spaces (n : Nat) : IsRow (List.replicate n ' ') := by
  intro c hc
  rw [List.eq_of_mem_replicate hc]
  rfl

/-- Rows with line feeds between them. -/
def joinRows (rows : List (List Char)) : List Char := ['\n'].intercalate rows

theorem splitRows_cons {c : Char} (h : isRowEnd c = false) (r : List Char) :
    splitRows (c :: r) = (c :: (splitRows r).headD []) :: (splitRows r).tail := by
  have hc : c ≠ '\r' := by
    rintro rfl
    cases h
  rw [splitRows]
  · rw [h, if_neg Bool.false_ne_true]
    cases splitRows r <;> rfl
  · intro r' hr
    exact absurd hr hc

theorem splitRows_newline (r : List Char) : splitRows ('\n' :: r) = [] :: splitRows r := by
  rw [splitRows]
  · exact if_pos (by decide)
  · intro _ h
    exact absurd h (by decide)

theorem isRow_of_mem_splitRows {cs row : List Char} (h : row ∈ splitRows cs) : IsRow row := by
  fun_induction splitRows cs generalizing row with
  | case1 =>
    obtain rfl := List.mem_singleton.1 h
    exact isRow_nil
  | case2 r ih =>
    rcases List.mem_cons.1 h with rfl | h
    · exact isRow_nil
    · exact ih h
  | case3 c r _ _ ih =>
    rcases List.mem_cons.1 h with rfl | h
    · exact isRow_nil
    · exact ih h
  | case4 c r _ hc hr _ => exact absurd hr (Text.splitRows_ne_nil r)
  | case5 c r _ hc l ls hr ih =>
    rw [hr] at ih
    rcases List.mem_cons.1 h with rfl | h
    · intro x hx
      rcases List.mem_cons.1 hx with rfl | hx
      · simpa using hc
      · exact ih (.head _) x hx
    · exact ih (.tail _ h)

theorem splitRows_append {row : List Char} (h : IsRow row) (r : List Char) :
    splitRows (row ++ r) = (row ++ (splitRows r).headD []) :: (splitRows r).tail := by
  induction row with
  | nil =>
    cases hr : splitRows r with
    | nil => exact absurd hr (Text.splitRows_ne_nil r)
    | cons l ls => simp [hr]
  | cons c row ih =>
    have hrow := ih fun x hx => h x (List.mem_cons_of_mem _ hx)
    rw [List.cons_append, splitRows_cons (h c (.head _)), hrow]
    rfl

theorem splitRows_row {row : List Char} (h : IsRow row) : splitRows row = [row] := by
  have hrow := splitRows_append h []
  simpa using hrow

theorem joinRows_cons_cons (row row' : List Char) (rows : List (List Char)) :
    joinRows (row :: row' :: rows) = row ++ '\n' :: joinRows (row' :: rows) := by
  simp [joinRows, List.intercalate_cons_cons]

theorem joinRows_nil_cons {rows : List (List Char)} (h : rows ≠ []) :
    joinRows ([] :: rows) = '\n' :: joinRows rows := by
  obtain ⟨row, rows, rfl⟩ := List.exists_cons_of_ne_nil h
  rw [joinRows_cons_cons, List.nil_append]

/-- A line feed behind the rows starts an empty one. -/
theorem joinRows_concat_nil {rows : List (List Char)} (h : rows ≠ []) :
    joinRows (rows ++ [[]]) = joinRows rows ++ ['\n'] := by
  induction rows with
  | nil => exact absurd rfl h
  | cons row rows ih =>
    cases rows with
    | nil => simp [joinRows]
    | cons row' rows =>
      have hrest := ih (by simp)
      rw [List.cons_append] at hrest
      rw [List.cons_append, List.cons_append, joinRows_cons_cons, hrest, joinRows_cons_cons]
      simp

/-- The rows of a text are found again. -/
theorem splitRows_joinRows {rows : List (List Char)} (hne : rows ≠ [])
    (h : ∀ row ∈ rows, IsRow row) : splitRows (joinRows rows) = rows := by
  induction rows with
  | nil => exact absurd rfl hne
  | cons row rows ih =>
    cases rows with
    | nil => simpa [joinRows] using splitRows_row (h row (.head _))
    | cons row' rows =>
      have hrest := ih (by simp) fun x hx => h x (List.mem_cons_of_mem _ hx)
      rw [joinRows_cons_cons, splitRows_append (h row (.head _)), splitRows_newline, hrest]
      simp

/-- A text is a single row exactly if no row ends in it. -/
theorem length_splitRows_eq_one_iff {cs : List Char} : (splitRows cs).length = 1 ↔ IsRow cs := by
  constructor
  · intro h
    obtain ⟨row, hrow⟩ := List.length_eq_one_iff.1 h
    have hcs : cs = row := by
      fun_induction splitRows cs generalizing row with
      | case1 => simpa using hrow
      | case2 r _ => exact absurd (List.cons.inj hrow).2 (Text.splitRows_ne_nil r)
      | case3 c r _ _ _ => exact absurd (List.cons.inj hrow).2 (Text.splitRows_ne_nil r)
      | case4 c r _ _ hr _ => exact absurd hr (Text.splitRows_ne_nil r)
      | case5 c r _ _ l ls hr ih =>
        obtain ⟨rfl, rfl⟩ := List.cons.inj hrow
        rw [ih (by rw [hr]; rfl) l hr]
    rw [hcs]
    exact isRow_of_mem_splitRows (hrow ▸ List.mem_singleton_self row)
  · intro h
    rw [splitRows_row h]
    rfl

/-! ## Further right -/

/-- The text with all its rows but the first `n` spaces further right. -/
def spread (n : Nat) (cs : List Char) : List Char :=
  cs.flatMap fun c => if c = '\n' then '\n' :: List.replicate n ' ' else [c]

@[simp] theorem spread_nil (n : Nat) : spread n [] = [] := rfl

@[simp] theorem spread_append (n : Nat) (a b : List Char) :
    spread n (a ++ b) = spread n a ++ spread n b := List.flatMap_append

theorem spread_cons (n : Nat) (c : Char) (r : List Char) :
    spread n (c :: r) = spread n [c] ++ spread n r := spread_append n [c] r

@[simp] theorem spread_newline (n : Nat) : spread n ['\n'] = '\n' :: List.replicate n ' ' := by
  simp [spread]

theorem spread_singleton (n : Nat) {c : Char} (h : c ≠ '\n') : spread n [c] = [c] := by
  simp [spread, h]

/-- A text of one row stays as it is. -/
theorem spread_eq_self (n : Nat) {cs : List Char} (h : '\n' ∉ cs) : spread n cs = cs := by
  induction cs with
  | nil => rfl
  | cons c r ih =>
    obtain ⟨hc, hr⟩ := not_or.1 (mt List.mem_cons.2 h)
    rw [spread_cons, spread_singleton n (Ne.symm hc), ih hr]
    rfl

theorem IsRow.spread_eq_self {cs : List Char} (h : IsRow cs) (n : Nat) : spread n cs = cs :=
  Sdl.spread_eq_self n fun hn => absurd (h _ hn) (by decide)

@[simp] theorem spread_zero (cs : List Char) : spread 0 cs = cs := by
  induction cs with
  | nil => rfl
  | cons c r ih =>
    rw [spread_cons, ih]
    by_cases hc : c = '\n'
    · simp [hc]
    · rw [spread_singleton 0 hc]
      rfl

theorem spread_spread (m n : Nat) (cs : List Char) :
    spread m (spread n cs) = spread (m + n) cs := by
  induction cs with
  | nil => rfl
  | cons c r ih =>
    rw [spread_cons, spread_append, ih, spread_cons (m + n)]
    congr 1
    by_cases hc : c = '\n'
    · have hspaces : spread m (List.replicate n ' ') = List.replicate n ' ' :=
        spread_eq_self m (by simp)
      rw [hc, spread_newline, spread_cons, spread_newline, hspaces, spread_newline,
        List.replicate_add]
      rfl
    · rw [spread_singleton n hc, spread_singleton m hc, spread_singleton _ hc]

theorem indentRows_eq_spread (cs : List Char) : indentRows cs = spread 2 cs := by
  fun_induction indentRows cs with
  | case1 => rfl
  | case2 r ih => rw [spread_cons, spread_newline, ih]; rfl
  | case3 c r hc ih => rw [spread_cons, spread_singleton 2 hc, ih]; rfl

/-- All rows but the first get the spaces. -/
theorem spread_joinRows (n : Nat) (row : List Char) (rows : List (List Char))
    (h : ∀ x ∈ row :: rows, IsRow x) : spread n (joinRows (row :: rows)) =
      joinRows (row :: rows.map (List.replicate n ' ' ++ ·)) := by
  induction rows generalizing row with
  | nil => simpa [joinRows] using (h row (.head _)).spread_eq_self n
  | cons row' rows ih =>
    have hrest := ih row' fun x hx => h x (.tail _ hx)
    rw [joinRows_cons_cons, spread_append, spread_cons, hrest, (h row (.head _)).spread_eq_self,
      List.map_cons, joinRows_cons_cons, spread_newline]
    cases rows with
    | nil => simp [joinRows]
    | cons _ _ => simp [joinRows_cons_cons]

/-- Rows between line feeds, with spaces in front. -/
theorem splitRows_spread_around (n : Nat) {rows : List (List Char)} (hne : rows ≠ [])
    (h : ∀ row ∈ rows, IsRow row) : splitRows (spread n (['\n'] ++ joinRows rows ++ ['\n'])) =
      [] :: (rows.map (List.replicate n ' ' ++ ·) ++ [List.replicate n ' ']) := by
  have hframed : ['\n'] ++ joinRows rows ++ ['\n'] = joinRows ([] :: (rows ++ [[]])) := by
    rw [joinRows_nil_cons (by simp), joinRows_concat_nil hne]
    rfl
  have hrows : ∀ x ∈ [] :: (rows ++ [[]]), IsRow x := by
    intro x hx
    simp only [List.mem_cons, List.mem_append, List.not_mem_nil, or_false] at hx
    rcases hx with rfl | hx | rfl
    · exact isRow_nil
    · exact h x hx
    · exact isRow_nil
  rw [hframed, spread_joinRows n _ _ hrows, splitRows_joinRows (by simp), List.map_append,
    List.map_singleton, List.append_nil]
  intro x hx
  rcases List.mem_cons.1 hx with rfl | hx
  · exact isRow_nil
  · obtain ⟨y, hy, rfl⟩ := List.mem_map.1 hx
    intro c hc
    rcases List.mem_append.1 hc with hc | hc
    · exact isRow_spaces n c hc
    · exact hrows y (.tail _ hy) c hc

/-! ## Blank rows at the ends -/

/-- The rows without the blank ones at both ends. -/
def trimRows (rows : List (List Char)) : List (List Char) :=
  (rows.dropWhile isBlankRow).rdropWhile isBlankRow

theorem mem_of_mem_trimRows {rows : List (List Char)} {row : List Char} (h : row ∈ trimRows rows) :
    row ∈ rows :=
  (List.dropWhile_suffix _).subset ((List.rdropWhile_prefix _ _).subset h)

/-- A row that is not blank stays. -/
theorem mem_trimRows {rows : List (List Char)} {row : List Char} (h : row ∈ rows)
    (hblank : isBlankRow row = false) : row ∈ trimRows rows := by
  have hdrop : ∀ l : List (List Char), row ∈ l → row ∈ l.dropWhile isBlankRow := by
    intro l hl
    rw [← List.takeWhile_append_dropWhile (p := isBlankRow) (l := l)] at hl
    refine (List.mem_append.1 hl).resolve_left fun ht => ?_
    rw [List.mem_takeWhile_imp ht] at hblank
    cases hblank
  unfold trimRows List.rdropWhile
  exact List.mem_reverse.2 (hdrop _ (List.mem_reverse.2 (hdrop _ h)))

theorem trimRows_cons_of_blank {row : List Char} (h : isBlankRow row = true)
    (rows : List (List Char)) : trimRows (row :: rows) = trimRows rows := by
  rw [trimRows, List.dropWhile_cons_of_pos h, trimRows]

theorem trimRows_concat_of_blank (rows : List (List Char)) {row : List Char}
    (h : isBlankRow row = true) : trimRows (rows ++ [row]) = trimRows rows := by
  unfold trimRows
  rw [List.dropWhile_append]
  split
  · next hnil =>
    rw [List.isEmpty_iff.1 hnil, List.dropWhile_cons_of_pos h]
    rfl
  · rw [List.rdropWhile_concat_pos _ _ _ h]

theorem trimRows_cons_of_forall_blank (row : List Char) {rows : List (List Char)}
    (h : ∀ x ∈ rows, isBlankRow x = true) : trimRows (row :: rows) = trimRows [row] := by
  induction rows using List.reverseRecOn with
  | nil => rfl
  | append_singleton rows x ih =>
    rw [← List.cons_append, trimRows_concat_of_blank _ (h x (by simp))]
    exact ih fun y hy => h y (by simp [hy])

theorem trimRows_trimRows (rows : List (List Char)) : trimRows (trimRows rows) = trimRows rows := by
  have hfirst : (trimRows rows).dropWhile isBlankRow = trimRows rows := by
    unfold trimRows
    obtain ⟨dropped, hdropped⟩ := List.rdropWhile_prefix isBlankRow (rows.dropWhile isBlankRow)
    cases hkept : (rows.dropWhile isBlankRow).rdropWhile isBlankRow with
    | nil => rfl
    | cons row kept =>
      rw [hkept, List.cons_append] at hdropped
      have hrow := List.dropWhile_eq_self_iff.1 (List.dropWhile_idempotent isBlankRow rows)
      simp only [← hdropped] at hrow
      exact List.dropWhile_cons_of_neg (hrow (by simp))
  rw [trimRows, hfirst]
  exact List.rdropWhile_idempotent _ _

/-! ## Common indentation -/

def indentOf (row : List Char) : Nat := (row.takeWhile isIndent).length

theorem commonIndent_cons (first : List Char) (rest : List (List Char)) :
    commonIndent (first :: rest) =
      ((rest.filter (!isBlankRow ·)).map indentOf).min?.getD 0 := rfl

/-- The common indentation is that of a row that has none to spare. -/
theorem commonIndent_eq (first : List Char) {rest : List (List Char)} {row : List Char}
    (hrow : row ∈ rest) (hblank : isBlankRow row = false)
    (hmin : ∀ x ∈ rest, isBlankRow x = false → indentOf row ≤ indentOf x) :
    commonIndent (first :: rest) = indentOf row := by
  have hmem : indentOf row ∈ (rest.filter (!isBlankRow ·)).map indentOf :=
    List.mem_map_of_mem (List.mem_filter.2 ⟨hrow, by simp [hblank]⟩)
  rw [commonIndent_cons, List.min?_eq_some_iff.2 ⟨hmem, ?_⟩]
  · rfl
  · intro b hb
    obtain ⟨x, hx, rfl⟩ := List.mem_map.1 hb
    obtain ⟨hx, hxblank⟩ := List.mem_filter.1 hx
    exact hmin x hx (by simpa using hxblank)

/-- Some row that is not blank has the common indentation, and none has less. -/
theorem exists_commonIndent (first : List Char) {rest : List (List Char)} {row : List Char}
    (hrow : row ∈ rest) (hblank : isBlankRow row = false) :
    (∃ x ∈ rest, isBlankRow x = false ∧ indentOf x = commonIndent (first :: rest)) ∧
      ∀ x ∈ rest, isBlankRow x = false → commonIndent (first :: rest) ≤ indentOf x := by
  have hmem : indentOf row ∈ (rest.filter (!isBlankRow ·)).map indentOf :=
    List.mem_map_of_mem (List.mem_filter.2 ⟨hrow, by simp [hblank]⟩)
  obtain ⟨m, hm⟩ := Option.isSome_iff_exists.1 (List.isSome_min?_of_mem hmem)
  rw [commonIndent_cons, hm, Option.getD_some]
  obtain ⟨hm, hle⟩ := List.min?_eq_some_iff.1 hm
  constructor
  · obtain ⟨x, hx, rfl⟩ := List.mem_map.1 hm
    obtain ⟨hx, hxblank⟩ := List.mem_filter.1 hx
    exact ⟨x, hx, by simpa using hxblank, rfl⟩
  · intro x hx hxblank
    exact hle _ (List.mem_map_of_mem (List.mem_filter.2 ⟨hx, by simp [hxblank]⟩))

theorem drop_eq_append {row : List Char} {k : Nat} (h : k ≤ indentOf row) :
    row.drop k = (row.takeWhile isIndent).drop k ++ row.dropWhile isIndent := by
  conv_lhs => rw [← List.takeWhile_append_dropWhile (p := isIndent) (l := row)]
  exact List.drop_append_of_le_length h

/-- A row has no indentation left when it loses all of it. -/
theorem indentOf_drop_indentOf (row : List Char) : indentOf (row.drop (indentOf row)) = 0 := by
  have hdrop : row.drop (indentOf row) = row.dropWhile isIndent := by
    rw [drop_eq_append le_rfl, indentOf, List.drop_length, List.nil_append]
  rw [hdrop, indentOf, List.length_eq_zero_iff, List.takeWhile_eq_nil_iff]
  intro hne
  exact List.dropWhile_get_zero_not _ _ hne

/-- A row that loses no more than its indentation is blank only if it was. -/
theorem isBlankRow_drop {row : List Char} {k : Nat}
    (h : isBlankRow row = false → k ≤ indentOf row) : isBlankRow (row.drop k) = isBlankRow row := by
  cases hrow : isBlankRow row with
  | true =>
    exact List.all_eq_true.2 fun c hc => List.all_eq_true.1 hrow c (List.mem_of_mem_drop hc)
  | false =>
    obtain ⟨c, hc, hindent⟩ : ∃ c ∈ row, isIndent c = false := by simpa [isBlankRow] using hrow
    have hrest : c ∈ row.dropWhile isIndent := by
      rw [← List.takeWhile_append_dropWhile (p := isIndent) (l := row)] at hc
      refine (List.mem_append.1 hc).resolve_left fun ht => ?_
      rw [List.mem_takeWhile_imp ht] at hindent
      cases hindent
    rw [drop_eq_append (h hrow)]
    simp only [isBlankRow, List.all_append, Bool.and_eq_false_iff]
    exact .inr (List.all_eq_false.2 ⟨c, hrest, by simp [hindent]⟩)

/-- What becomes of the rows of a block string. -/
theorem dedent_cons (first : List Char) (rest : List (List Char)) :
    dedent (first :: rest) =
      trimRows (first :: rest.map (List.drop (commonIndent (first :: rest)))) := by
  have hmarks : ∀ rows : List (List Char),
      (((rows.map fun row => (row, isBlankRow row)).dropWhile (·.2)).reverse.dropWhile
        (·.2)).reverse.map (·.1) = trimRows rows := by
    intro rows
    rw [List.dropWhile_map, ← List.map_reverse, List.dropWhile_map, ← List.map_reverse,
      List.map_map]
    exact List.map_id' _
  rw [← hmarks, dedent, List.map_cons, List.map_cons, List.map_map]
  dsimp only
  congr 6
  rw [List.map_map]
  refine List.map_congr_left fun row hrow => ?_
  simp only [Function.comp]
  rw [isBlankRow_drop]
  intro hblank
  exact (exists_commonIndent first hrow hblank).2 row hrow hblank

/-! ## Values of block strings -/

/-- A row that is not blank and has no indentation. -/
def IsFlush (row : List Char) : Prop := isBlankRow row = false ∧ indentOf row = 0

/-- The rows of a value: none is blank at either end, and unless it is the only one, some row has no
indentation. -/
structure IsTrimmed (rows : List (List Char)) : Prop where
  unended : ∀ row ∈ rows, IsRow row
  trimmed : trimRows rows = rows
  flush : 1 < rows.length → ∃ row ∈ rows, IsFlush row

theorem isTrimmed_dedent {rows : List (List Char)} (h : ∀ row ∈ rows, IsRow row) :
    IsTrimmed (dedent rows) := by
  cases rows with
  | nil => exact ⟨by simp [dedent], rfl, by simp [dedent]⟩
  | cons first rest =>
    rw [dedent_cons]
    generalize hcommon : commonIndent (first :: rest) = common
    constructor
    case unended =>
      intro row hrow
      rcases List.mem_cons.1 (mem_of_mem_trimRows hrow) with rfl | hrow
      · exact h _ (.head _)
      · obtain ⟨x, hx, rfl⟩ := List.mem_map.1 hrow
        exact fun c hc => h x (.tail _ hx) c (List.mem_of_mem_drop hc)
    case trimmed => exact trimRows_trimRows _
    case flush =>
      intro hlength
      by_cases hrest : ∃ row ∈ rest, isBlankRow row = false
      · obtain ⟨row, hrow, hblank⟩ := hrest
        obtain ⟨⟨x, hx, hxblank, hindent⟩, -⟩ := exists_commonIndent first hrow hblank
        rw [hcommon] at hindent
        have hflush : IsFlush (x.drop common) := by
          refine ⟨?_, ?_⟩
          · rw [isBlankRow_drop fun _ => hindent.ge, hxblank]
          · rw [← hindent, indentOf_drop_indentOf]
        exact ⟨_, mem_trimRows (.tail _ (List.mem_map_of_mem hx)) hflush.1, hflush⟩
      · -- then only the first row may be left
        have hnone : ∀ row ∈ rest.map (List.drop common), isBlankRow row = true := by
          intro row hrow
          obtain ⟨x, hx, rfl⟩ := List.mem_map.1 hrow
          have hxblank : isBlankRow x = true := by
            by_contra hne
            exact hrest ⟨x, hx, by simpa using hne⟩
          rw [isBlankRow_drop fun hfalse => by simp [hxblank] at hfalse, hxblank]
        rw [trimRows_cons_of_forall_blank first hnone] at hlength
        have hle : (trimRows [first]).length ≤ 1 :=
          ((List.dropWhile_sublist _).length_le.trans' (List.rdropWhile_prefix _ _).length_le)
        omega

theorem isBlankRow_spaces (n : Nat) : isBlankRow (List.replicate n ' ') = true :=
  List.all_eq_true.2 fun c hc => by
    rw [List.eq_of_mem_replicate hc]
    rfl

theorem isBlankRow_spaces_append (n : Nat) (row : List Char) :
    isBlankRow (List.replicate n ' ' ++ row) = isBlankRow row := by
  have hspaces := isBlankRow_spaces n
  unfold isBlankRow at hspaces ⊢
  rw [List.all_append, hspaces, Bool.true_and]

theorem indentOf_spaces_append (n : Nat) (row : List Char) :
    indentOf (List.replicate n ' ' ++ row) = n + indentOf row := by
  unfold indentOf
  rw [List.takeWhile_append_of_pos, List.length_append, List.length_replicate]
  intro c hc
  rw [List.eq_of_mem_replicate hc]
  rfl

/-- Rows between the quotes on rows of their own, `n` spaces further right, are found again. -/
theorem dedent_around {rows : List (List Char)} (n : Nat) (h : trimRows rows = rows)
    (hflush : ∃ row ∈ rows, IsFlush row) :
    dedent ([] :: (rows.map (List.replicate n ' ' ++ ·) ++ [List.replicate n ' '])) = rows := by
  obtain ⟨row, hrow, hblank, hindent⟩ := hflush
  have hcommon : commonIndent
      ([] :: (rows.map (List.replicate n ' ' ++ ·) ++ [List.replicate n ' '])) = n := by
    have hmem : List.replicate n ' ' ++ row ∈
        rows.map (List.replicate n ' ' ++ ·) ++ [List.replicate n ' '] :=
      List.mem_append_left _ (List.mem_map_of_mem hrow)
    rw [commonIndent_eq [] hmem, indentOf_spaces_append, hindent, Nat.add_zero]
    · rw [isBlankRow_spaces_append, hblank]
    · intro x hx hxblank
      rw [indentOf_spaces_append, hindent]
      rcases List.mem_append.1 hx with hx | hx
      · obtain ⟨y, -, rfl⟩ := List.mem_map.1 hx
        rw [indentOf_spaces_append]
        omega
      · rw [List.mem_singleton.1 hx, isBlankRow_spaces] at hxblank
        cases hxblank
  have hdrop : (rows.map (List.replicate n ' ' ++ ·)).map (List.drop n) = rows := by
    rw [List.map_map]
    refine (List.map_congr_left fun x _ => ?_).trans (List.map_id rows)
    simp
  rw [dedent_cons, hcommon, List.map_append, hdrop, trimRows_cons_of_blank rfl]
  simpa [trimRows_concat_of_blank rows (rfl : isBlankRow [] = true)] using h

/-- Of rows that are blank but for the first, only that may be left. -/
theorem dedent_of_forall_blank (row : List Char) {blanks : List (List Char)}
    (h : ∀ x ∈ blanks, isBlankRow x = true) : dedent (row :: blanks) = trimRows [row] := by
  rw [dedent_cons, trimRows_cons_of_forall_blank]
  intro x hx
  obtain ⟨y, hy, rfl⟩ := List.mem_map.1 hx
  rw [isBlankRow_drop fun hfalse => by simp [h y hy] at hfalse, h y hy]

end ResolverKit.Sdl
