import Mathlib.Data.List.TakeWhile
import ResolverKit.Code.Generation
import ResolverKit.Proofs.Tokens

/-!
# The rows of a text

A line of generated code may stand for several rows of the text, because a name may hold any
character.  `endedLines` gives the rows with their line ends, so that nothing of a text is lost:

    (endedLines cs).flatten = cs                                             (flatten_endedLines)
    splitLines cs = (endedLines cs).map dropEnd                             (splitLines_eq)
    endedLines (a ++ '\n' :: b) = endedLines (a ++ ['\n']) ++ endedLines b      (endedLines_append)
-/

namespace ResolverKit.Text

/-! ## Rows with their ends -/

/-- No line ends inside this text. -/
def Unbroken (cs : List Char) : Prop := ∀ c ∈ cs, isLineBreak c = false

instance (cs : List Char) : Decidable (Unbroken cs) :=
  decidable_of_iff (cs.all (!isLineBreak ·) = true) (by simp [Unbroken])

theorem Unbroken.append {a b : List Char} (ha : Unbroken a) (hb : Unbroken b) :
    Unbroken (a ++ b) := by
  intro c hc
  rcases List.mem_append.1 hc with hc | hc
  · exact ha c hc
  · exact hb c hc

/-- The lines of a text, each with its line end. -/
def endedLines : List Char → List (List Char)
  | [] => []
  | '\r' :: '\n' :: r => ['\r', '\n'] :: endedLines r
  | c :: r =>
    if isLineBreak c then [c] :: endedLines r
    else
      match endedLines r with
      | [] => [[c]]
      | l :: ls => (c :: l) :: ls

/-- A line without its line end. -/
def dropEnd (l : List Char) : List Char := l.takeWhile (!isLineBreak ·)

theorem flatten_endedLines (cs : List Char) : (endedLines cs).flatten = cs := by
  fun_induction endedLines cs with
  | case1 => rfl
  | case2 r ih => simp [ih]
  | case3 c r _ _ ih => simp [ih]
  | case4 c r _ _ hr ih => rw [hr] at ih; simpa using ih
  | case5 c r _ _ l ls hr ih => rw [hr] at ih; simpa using ih

/-- A line end that is one character makes a line. -/
theorem endedLines_of_isLineBreak {c : Char} {r : List Char} (h : isLineBreak c = true)
    (hr : ∀ r', c = '\r' → r ≠ '\n' :: r') : endedLines (c :: r) = [c] :: endedLines r := by
  rw [endedLines]
  · rw [if_pos h]
  · exact hr

/-- A character that ends no line stands at the front of the first line. -/
theorem endedLines_of_not_isLineBreak {c : Char} (h : isLineBreak c = false) (r : List Char) :
    endedLines (c :: r) = (c :: (endedLines r).headD []) :: (endedLines r).tail := by
  have hc : c ≠ '\r' := by
    rintro rfl
    cases h
  rw [endedLines]
  · rw [h, if_neg Bool.false_ne_true]
    cases endedLines r <;> rfl
  · intro r' hr
    exact absurd hr hc

theorem endedLines_ne_nil {cs : List Char} (h : cs ≠ []) : endedLines cs ≠ [] := by
  intro hnil
  have hflat := flatten_endedLines cs
  rw [hnil] at hflat
  exact h hflat.symm

theorem splitLines_eq (cs : List Char) : splitLines cs = (endedLines cs).map dropEnd := by
  fun_induction splitLines cs with
  | case1 => rfl
  | case2 r ih => rw [endedLines, ih]; rfl
  | case3 c r hcr hc ih => rw [endedLines_of_isLineBreak hc hcr, ih]; simp [dropEnd, hc]
  | case4 c r hcr hc hr ih => simp_all [endedLines_of_not_isLineBreak, dropEnd]
  | case5 c r hcr hc l ls hr ih =>
    rw [hr] at ih
    have hc : isLineBreak c = false := by simpa using hc
    rw [endedLines_of_not_isLineBreak hc]
    cases he : endedLines r with
    | nil => rw [he] at ih; cases ih
    | cons x xs =>
      rw [he] at ih
      obtain ⟨rfl, rfl⟩ := List.cons.inj ih
      simp [dropEnd, hc]

/-- Behind a line feed a new line starts. -/
theorem endedLines_append (a b : List Char) :
    endedLines (a ++ '\n' :: b) = endedLines (a ++ ['\n']) ++ endedLines b := by
  have hfeed : ∀ r, endedLines ('\n' :: r) = ['\n'] :: endedLines r := fun r =>
    endedLines_of_isLineBreak rfl fun _ h => absurd h (by decide)
  have hinside : ∀ c r, isLineBreak c = false →
      endedLines (r ++ '\n' :: b) = endedLines (r ++ ['\n']) ++ endedLines b →
      endedLines (c :: r ++ '\n' :: b) = endedLines (c :: r ++ ['\n']) ++ endedLines b := by
    intro c r hc ih
    have hne : endedLines (r ++ ['\n']) ≠ [] := endedLines_ne_nil (by simp)
    rw [List.cons_append, List.cons_append, endedLines_of_not_isLineBreak hc,
      endedLines_of_not_isLineBreak hc, ih]
    cases hr : endedLines (r ++ ['\n']) with
    | nil => exact absurd hr hne
    | cons l ls => rfl
  fun_induction endedLines a with
  | case1 => rw [List.nil_append, List.nil_append, hfeed, hfeed]; rfl
  | case2 r ih =>
    show ['\r', '\n'] :: endedLines (r ++ '\n' :: b) = ['\r', '\n'] :: endedLines (r ++ ['\n']) ++ _
    rw [ih]
    rfl
  | case3 c r hcr hc ih =>
    cases r with
    | nil =>
      by_cases hreturn : c = '\r'
      · subst hreturn
        rfl
      · have hstep : ∀ r, endedLines (c :: r) = [c] :: endedLines r := fun r =>
          endedLines_of_isLineBreak hc fun _ h => absurd h hreturn
        show endedLines (c :: '\n' :: b) = endedLines [c, '\n'] ++ _
        rw [hstep, hstep, hfeed, hfeed]
        rfl
    | cons d r =>
      have hstep : ∀ x, endedLines (c :: d :: r ++ x) = [c] :: endedLines (d :: r ++ x) := by
        refine fun x => endedLines_of_isLineBreak hc fun r' hreturn hr => ?_
        obtain rfl : d = '\n' := (List.cons.inj hr).1
        exact hcr r hreturn rfl
      rw [hstep, hstep, ih]
      rfl
  | case4 c r _ hc hr ih => exact hinside c r (by simpa using hc) ih
  | case5 c r _ hc l ls hr ih => exact hinside c r (by simpa using hc) ih

/-! ## Texts of whole rows -/

theorem endedLines_of_unbroken {a : List Char} (h : Unbroken a) :
    endedLines (a ++ ['\n']) = [a ++ ['\n']] := by
  induction a with
  | nil => exact endedLines_of_isLineBreak rfl fun _ h => absurd h (by decide)
  | cons c r ih =>
    have hr := ih fun x hx => h x (by simp [hx])
    rw [List.cons_append, endedLines_of_not_isLineBreak (h c (by simp)), hr]
    rfl

theorem endedLines_flatMap (rows : List (List Char)) :
    endedLines (rows.flatMap (· ++ ['\n'])) = rows.flatMap fun a => endedLines (a ++ ['\n']) := by
  induction rows with
  | nil => rfl
  | cons a r ih =>
    rw [List.flatMap_cons, List.flatMap_cons, List.append_assoc, List.singleton_append,
      endedLines_append, ih]

theorem splitLines_flatMap (rows : List (List Char)) :
    splitLines (rows.flatMap (· ++ ['\n'])) = rows.flatMap fun a => splitLines (a ++ ['\n']) := by
  rw [splitLines_eq, endedLines_flatMap, List.map_flatMap]
  simp only [splitLines_eq]

theorem Unbroken.dropEnd {a : List Char} (h : Unbroken a) : dropEnd (a ++ ['\n']) = a := by
  have hall : ∀ c ∈ a, (!isLineBreak c) = true := fun c hc => by rw [h c hc]; rfl
  rw [Text.dropEnd, List.takeWhile_append_of_pos hall, List.takeWhile_cons_of_neg (by decide)]
  exact List.append_nil a

theorem splitLines_of_unbroken {a : List Char} (h : Unbroken a) :
    splitLines (a ++ ['\n']) = [a] := by
  rw [splitLines_eq, endedLines_of_unbroken h, List.map_singleton, h.dropEnd]

/-- The rows of a text are unbroken. -/
theorem unbroken_of_mem_splitLines {cs l : List Char} (h : l ∈ splitLines cs) : Unbroken l := by
  rw [splitLines_eq] at h
  obtain ⟨e, -, rfl⟩ := List.mem_map.1 h
  intro c hc
  simpa using List.mem_takeWhile_imp hc

/-! ## Trimming -/

theorem isBlank_of_isLineBreak {c : Char} (h : isLineBreak c = true) : isBlank c = true := by
  simp only [isLineBreak, isBlank, Bool.or_eq_true, Bool.and_eq_true, decide_eq_true_eq,
    beq_iff_eq] at h ⊢
  omega

/-- Blanks in front do not matter. -/
theorem trim_append {a : List Char} (h : ∀ c ∈ a, isBlank c = true) (cs : List Char) :
    trim (a ++ cs) = trim cs := by
  unfold trim trimLeft
  rw [List.dropWhile_append_of_pos h]

/-- Blanks at the end do not matter. -/
theorem trim_append_blanks (cs : List Char) {b : List Char} (h : ∀ c ∈ b, isBlank c = true) :
    trim (cs ++ b) = trim cs := by
  have hright : ∀ x, trimRight (x ++ b) = trimRight x := by
    intro x
    rw [trimRight, trimRight, trimLeft, List.reverse_append, List.dropWhile_append_of_pos]
    · rfl
    · exact fun c hc => h c (List.mem_reverse.1 hc)
  have hb : b.dropWhile isBlank = [] := List.dropWhile_eq_nil_iff.2 h
  unfold trim trimLeft
  rw [List.dropWhile_append]
  split
  · next hnil => rw [hb, List.isEmpty_iff.1 hnil]
  · exact hright _

/-- A character that is no blank stays at the front. -/
theorem trim_cons {c : Char} (h : isBlank c = false) (cs : List Char) :
    ∃ r, trim (c :: cs) = c :: r := by
  have hleft : trimLeft (c :: cs) = c :: cs := List.dropWhile_cons_of_neg (by simp [h])
  have hright : trimRight (c :: cs) = ((cs.reverse ++ [c]).dropWhile isBlank).reverse := by
    rw [trimRight, List.reverse_cons, trimLeft]
  have hc : [c].dropWhile isBlank = [c] := List.dropWhile_cons_of_neg (by simp [h])
  rw [trim, hleft, hright, List.dropWhile_append, hc]
  split
  · exact ⟨[], rfl⟩
  · exact ⟨(cs.reverse.dropWhile isBlank).reverse, by simp⟩

theorem trimLeft_eq_self {cs : List Char} (h : ∀ c ∈ cs.head?, isBlank c = false) :
    trimLeft cs = cs := by
  cases cs with
  | nil => rfl
  | cons c r => exact List.dropWhile_cons_of_neg (by simp [h c rfl])

/-- A text between characters that are no blanks stays. -/
theorem trim_eq_self {cs : List Char} (hhead : ∀ c ∈ cs.head?, isBlank c = false)
    (hlast : ∀ c ∈ cs.getLast?, isBlank c = false) : trim cs = cs := by
  rw [trim, trimLeft_eq_self hhead, trimRight, trimLeft_eq_self (by rwa [List.head?_reverse]),
    List.reverse_reverse]

theorem unbroken_trim {cs : List Char} (h : Unbroken cs) : Unbroken (trim cs) :=
  fun c hc => h c ((Code.trim_isInfix cs).subset hc)

end ResolverKit.Text

namespace ResolverKit.Code

open Text (Unbroken endedLines splitLines)

/-! ## Generated texts -/

/-- The rows of these lines, as they are written. -/
def rows (ls : List Line) : List (List Char) := ls.map (·.render.toList)

theorem rows_cons (l : Line) (r : List Line) : rows (l :: r) = l.render.toList :: rows r := rfl

/-- A file ends with an empty line; in front of it every line is ended. -/
theorem toList_renderLines (ls : List Line) :
    (renderLines (ls ++ [.blank])).toList = (rows ls).flatMap (· ++ ['\n']) := by
  induction ls with
  | nil => rfl
  | cons l r ih =>
    have hrest : (renderLines (l :: (r ++ [.blank]))) =
        l.render ++ "\n" ++ renderLines (r ++ [.blank]) := by
      cases r <;> exact String.intercalate_cons_cons
    rw [List.cons_append, hrest, String.toList_append, ih, String.toList_append]
    rfl

def laidRows (options : LayoutOptions) (code : String) : List (List Char) :=
  (dropBlank (layout options.unit code.toList).written).reverse

theorem toList_format_eq (options : LayoutOptions) (code : String) :
    (format options code).toList = ['\n'].intercalate (laidRows options code) ++ ['\n'] := by
  show (String.ofList _).toList = _
  rw [String.toList_ofList]
  rfl

theorem toList_format {options : LayoutOptions} {code : String}
    (h : laidRows options code ≠ []) :
    (format options code).toList = (laidRows options code).flatMap (· ++ ['\n']) := by
  have hrows : ∀ ls : List (List Char), ls ≠ [] →
      ['\n'].intercalate ls ++ ['\n'] = ls.flatMap (· ++ ['\n']) := by
    intro ls hls
    induction ls with
    | nil => exact absurd rfl hls
    | cons l r ih =>
      cases r with
      | nil => simp
      | cons l' r =>
        have hr := ih (by simp)
        rw [List.flatMap_cons, ← hr, List.intercalate_cons_cons]
        simp
  rw [toList_format_eq, hrows _ h]

/-- Indentation is made of spaces and tabulators. -/
theorem eq_of_mem_unit {options : LayoutOptions} {c : Char} (h : c ∈ options.unit) :
    c = ' ' ∨ c = '\t' := by
  unfold LayoutOptions.unit at h
  split_ifs at h
  · exact .inr (List.mem_singleton.1 h)
  · exact .inl (List.mem_replicate.1 h).2

theorem mem_of_mem_flatten_replicate {unit : List Char} {n : Nat} {c : Char}
    (h : c ∈ (List.replicate n unit).flatten) : c ∈ unit := by
  obtain ⟨u, hu, hc⟩ := List.mem_flatten.1 h
  rwa [(List.mem_replicate.1 hu).2] at hc

theorem unbroken_unit (options : LayoutOptions) : Unbroken options.unit := by
  intro c hc
  rcases eq_of_mem_unit hc with rfl | rfl <;> rfl

/-- All rows that are written are unbroken. -/
def Layout.IsUnbroken (l : Layout) : Prop := ∀ r ∈ l.written, Unbroken r

theorem dropBlank_subset (w : List (List Char)) : dropBlank w ⊆ w := by
  unfold dropBlank
  split
  · exact List.subset_cons_self _ _
  · exact List.Subset.refl _

theorem Layout.IsUnbroken.addBlank {l : Layout} (h : l.IsUnbroken) : l.addBlank.IsUnbroken := by
  unfold Layout.addBlank
  split
  · split
    · exact h
    · intro r hr
      rcases List.mem_cons.1 hr with rfl | hr
      · exact fun c hc => absurd hc (by simp)
      · exact h r hr
  · exact h

theorem Layout.IsUnbroken.addLine {l : Layout} (h : l.IsUnbroken) {unit line : List Char}
    (hunit : Unbroken unit) (hline : Unbroken line) : (l.addLine unit line).IsUnbroken := by
  intro r hr
  rcases List.mem_cons.1 hr with rfl | hr
  · intro c hc
    rcases List.mem_append.1 hc with hc | hc
    · exact hunit c (mem_of_mem_flatten_replicate hc)
    · exact hline c hc
  · split at hr
    · exact h r hr
    · exact h r (dropBlank_subset _ hr)

theorem Layout.IsUnbroken.foldl {unit : List Char} (hunit : Unbroken unit)
    {rows : List (List Char)} (hrows : ∀ r ∈ rows, Unbroken r) {l : Layout} (h : l.IsUnbroken) :
    (rows.foldl (Layout.add unit) l).IsUnbroken := by
  induction rows generalizing l with
  | nil => exact h
  | cons row rest ih =>
    refine ih (fun r hr => hrows r (by simp [hr])) ?_
    have hrow := Text.unbroken_trim (hrows row (by simp))
    unfold Layout.add
    split
    · exact h.addBlank
    · exact h.addLine hunit hrow

theorem unbroken_of_mem_laidRows {options : LayoutOptions} {code : String} {r : List Char}
    (h : r ∈ laidRows options code) : Unbroken r := by
  have hstart : (⟨[], 0⟩ : Layout).IsUnbroken := fun _ hr => absurd hr (by simp)
  have hall : (layout options.unit code.toList).IsUnbroken :=
    hstart.foldl (unbroken_unit options) fun _ => Text.unbroken_of_mem_splitLines
  exact hall r (dropBlank_subset _ (List.mem_reverse.1 h))

end ResolverKit.Code
