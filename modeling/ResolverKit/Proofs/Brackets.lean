import ResolverKit.Proofs.PlanNames
import ResolverKit.Proofs.Rows

/-!
# Brackets of generated lines

How far the brackets of a text lead is counted piece by piece: `Piece s n` says that the text `s`
adds `n` to the depth whatever stands behind it, and that no line ends in it.

    IsIdentifier w → Piece w 0                                              (Piece.identifier)
    Piece a m → Piece b n → Piece (a ++ b) (m + n)                              (Piece.append)

`l.Sits k m` says of a line that its indentation is right at the depth `k`, with its leading
closers, and that the depth behind it is `m`.
-/

namespace ResolverKit.Code

open Text (Unbroken isBlank isLineBreak)
open Sdl (IsName)

/-! ## Pieces -/

/-- Opening minus closing brackets of a text, wherever they stand. -/
def weight (cs : List Char) : Int := cs.countP isOpener - cs.countP isCloser

/-- A character that neither starts a quoted text or a comment nor ends a line. -/
def isPlainChar (c : Char) : Bool := !isQuote c && c != '/' && !isLineBreak c

/-- The text has no quotes, slashes or line ends, and this weight. -/
def IsFixed (s : String) (n : Int) : Prop := s.toList.all isPlainChar = true ∧ weight s.toList = n

instance (s : String) (n : Int) : Decidable (IsFixed s n) := inferInstanceAs (Decidable (_ ∧ _))

/-- The text adds `n` to the depth, and no line ends in it. -/
structure Piece (s : String) (n : Int) : Prop where
  weighs : ∀ r, bracketsFrom .code (s.toList ++ r) = n + bracketsFrom .code r
  unbroken : Unbroken s.toList

theorem isCloser_of_isOpener {c : Char} (h : isOpener c = true) : isCloser c = false := by
  simp only [isOpener, Bool.or_eq_true, beq_iff_eq] at h
  rcases h with (rfl | rfl) | rfl <;> rfl

theorem bracketsFrom_cons {c : Char} (h : isPlainChar c = true) (r : List Char) :
    bracketsFrom .code (c :: r) = weight [c] + bracketsFrom .code r := by
  simp only [isPlainChar, Bool.and_eq_true, Bool.not_eq_true', bne_iff_ne] at h
  obtain ⟨⟨hquote, hslash⟩, -⟩ := h
  rw [bracketsFrom]
  · rw [hquote, if_neg Bool.false_ne_true]
    cases hopen : isOpener c with
    | true => simp [weight, hopen, isCloser_of_isOpener hopen]
    | false => cases hclose : isCloser c <;> simp [weight, hopen, hclose]; omega
  · exact fun _ hc _ => hslash hc
  · exact fun _ hc _ => hslash hc

theorem weight_append (a b : List Char) : weight (a ++ b) = weight a + weight b := by
  simp only [weight, List.countP_append]
  omega

theorem bracketsFrom_append {a : List Char} (h : ∀ c ∈ a, isPlainChar c = true) (r : List Char) :
    bracketsFrom .code (a ++ r) = weight a + bracketsFrom .code r := by
  induction a with
  | nil => simp [weight]
  | cons c a ih =>
    have ha := ih fun x hx => h x (by simp [hx])
    have hsplit : weight (c :: a) = weight [c] + weight a := weight_append [c] a
    rw [List.cons_append, bracketsFrom_cons (h c (by simp)), ha, hsplit]
    omega

theorem bracketsFrom_quoted {c q : Char} (h : c ≠ '\\') (r : List Char) :
    bracketsFrom (.quoted q) (c :: r) = bracketsFrom (if c = q then .code else .quoted q) r := by
  rw [bracketsFrom.eq_def]
  simp [h]

/-- A character of a word is no bracket and no quote. -/
theorem isWordChar_eq_false {c : Char}
    (h : isQuote c = true ∨ c = '/' ∨ isOpener c = true ∨ isCloser c = true) :
    isWordChar c = false := by
  simp only [isQuote, isOpener, isCloser, Bool.or_eq_true, beq_iff_eq] at h
  rcases h with ((rfl | rfl) | rfl) | rfl | ((rfl | rfl) | rfl) | ((rfl | rfl) | rfl) <;> decide

theorem unbroken_of_isBlank {cs : List Char} (h : ∀ c ∈ cs, isBlank c = true → c = ' ') :
    Unbroken cs := by
  intro c hc
  rw [Bool.eq_false_iff]
  intro hbreak
  obtain rfl := h c hc (Text.isBlank_of_isLineBreak hbreak)
  cases hbreak

theorem IsIdentifier.unbroken {s : String} (h : IsIdentifier s) : Unbroken s.toList :=
  unbroken_of_isBlank fun c hc hblank => by rw [h.2 c hc] at hblank; cases hblank

namespace Piece

variable {a b s : String} {m n : Int}

theorem fixed (h : IsFixed s n) : Piece s n := by
  obtain ⟨hall, rfl⟩ := h
  have hplain := List.all_eq_true.1 hall
  refine ⟨bracketsFrom_append hplain, fun c hc => ?_⟩
  have hc := hplain c hc
  simp only [isPlainChar, Bool.and_eq_true, Bool.not_eq_true'] at hc
  exact hc.2

theorem append (ha : Piece a m) (hb : Piece b n) : Piece (a ++ b) (m + n) := by
  constructor
  · intro r
    rw [String.toList_append, List.append_assoc, ha.weighs, hb.weighs]
    omega
  · rw [String.toList_append]
    exact ha.unbroken.append hb.unbroken

/-- A piece without weight may stand behind. -/
theorem append_flat (ha : Piece a m) (hb : Piece b 0) : Piece (a ++ b) m := by
  have h := ha.append hb
  rwa [Int.add_zero] at h

theorem identifier (h : IsIdentifier s) : Piece s 0 := by
  have hchar : ∀ c ∈ s.toList, isQuote c = false ∧ c ≠ '/' ∧ isOpener c = false ∧
      isCloser c = false := by
    intro c hc
    have hword := h.1.2 c hc
    refine ⟨Bool.eq_false_iff.2 fun hx => ?_, fun hx => ?_, Bool.eq_false_iff.2 fun hx => ?_,
      Bool.eq_false_iff.2 fun hx => ?_⟩ <;>
      simp [isWordChar_eq_false, hx] at hword
  refine fixed ⟨List.all_eq_true.2 fun c hc => ?_, ?_⟩
  · obtain ⟨hquote, hslash, -, -⟩ := hchar c hc
    simp [isPlainChar, hquote, hslash, h.unbroken c hc]
  · have hopen : s.toList.countP isOpener = 0 :=
      List.countP_eq_zero.2 fun c hc => by simp [(hchar c hc).2.2.1]
    have hclose : s.toList.countP isCloser = 0 :=
      List.countP_eq_zero.2 fun c hc => by simp [(hchar c hc).2.2.2]
    simp [weight, hopen, hclose]

/-- Brackets between quotes do not count. -/
theorem quoted (hq : ∀ c ∈ s.toList, c ≠ '\'' ∧ c ≠ '\\') (hs : Unbroken s.toList) :
    Piece ("'" ++ s ++ "'") 0 := by
  have hinside : ∀ cs r : List Char, (∀ c ∈ cs, c ≠ '\'' ∧ c ≠ '\\') →
      bracketsFrom (.quoted '\'') (cs ++ '\'' :: r) = bracketsFrom .code r := by
    intro cs r hcs
    induction cs with
    | nil => rw [List.nil_append, bracketsFrom_quoted (by decide), if_pos rfl]
    | cons c cs ih =>
      obtain ⟨hquote, hslash⟩ := hcs c (by simp)
      rw [List.cons_append, bracketsFrom_quoted hslash, if_neg hquote]
      exact ih fun x hx => hcs x (by simp [hx])
  have htext : ("'" ++ s ++ "'").toList = '\'' :: (s.toList ++ ['\'']) := by simp
  constructor
  · intro r
    rw [htext, List.cons_append, List.append_assoc, bracketsFrom]
    · exact (hinside s.toList r hq).trans (Int.zero_add _).symm
    · exact fun _ h _ => absurd h (by decide)
    · exact fun _ h _ => absurd h (by decide)
  · intro c hc
    rw [htext, List.mem_cons, List.mem_append, List.mem_singleton] at hc
    rcases hc with rfl | hc | rfl
    · rfl
    · exact hs c hc
    · rfl

theorem intercalate {sep : String} {xs : List String} (hsep : Piece sep 0)
    (h : ∀ x ∈ xs, Piece x 0) : Piece (sep.intercalate xs) 0 := by
  induction xs with
  | nil => exact fixed (by decide : IsFixed "" 0)
  | cons x r ih =>
    have hx := h x (by simp)
    cases r with
    | nil => exact hx
    | cons y r =>
      rw [String.intercalate_cons_cons]
      exact (hx.append_flat hsep).append_flat (ih fun z hz => h z (by simp [hz]))

theorem bracketDelta (h : Piece s n) : Code.bracketDelta s.toList = n := by
  have hend := h.weighs []
  rwa [List.append_nil, bracketsFrom, Int.add_zero] at hend

end Piece

/-! ## Lines at a depth -/

/-- The text starts as code does: with no blank, no bar and no closing bracket. -/
def StartsPlain (s : String) : Prop :=
  s.toList.head?.any (fun c => !isBlank c && c != '|' && !isCloser c) = true

instance (s : String) : Decidable (StartsPlain s) := inferInstanceAs (Decidable (_ = true))

/-- The last character is no blank. -/
def EndsPlain (s : String) : Prop := s.toList.getLast?.any (!isBlank ·) = true

instance (s : String) : Decidable (EndsPlain s) := inferInstanceAs (Decidable (_ = true))

theorem StartsPlain.append {a : String} (h : StartsPlain a) (b : String) :
    StartsPlain (a ++ b) := by
  unfold StartsPlain at h ⊢
  rw [String.toList_append, List.head?_append]
  cases ha : a.toList.head? with
  | none => rw [ha] at h; cases h
  | some c => rwa [ha] at h

theorem EndsPlain.append {b : String} (h : EndsPlain b) (a : String) : EndsPlain (a ++ b) := by
  unfold EndsPlain at h ⊢
  rw [String.toList_append, List.getLast?_append]
  cases hb : b.toList.getLast? with
  | none => rw [hb] at h; cases h
  | some c => rwa [hb] at h

theorem StartsPlain.exists_cons {s : String} (h : StartsPlain s) :
    ∃ c r, s.toList = c :: r ∧ isBlank c = false ∧ c ≠ '|' ∧ isCloser c = false := by
  unfold StartsPlain at h
  cases hs : s.toList with
  | nil => simp [hs] at h
  | cons c r =>
    simp only [hs, List.head?_cons, Option.any_some, Bool.and_eq_true, Bool.not_eq_true',
      bne_iff_ne] at h
    exact ⟨c, r, rfl, h.1.1, h.1.2, h.2⟩

theorem leadingClosers_cons {c : Char} (hbar : c ≠ '|') (hc : isCloser c = false) (r : List Char) :
    leadingClosers (c :: r) = 0 := by
  rw [leadingClosers.eq_def]
  split
  · next h => exact absurd (List.cons.inj h).1 hbar
  · next h =>
    obtain ⟨rfl, -⟩ := List.cons.inj h
    rw [hc, if_neg Bool.false_ne_true]
  · rfl

theorem StartsPlain.leadingClosers {s : String} (h : StartsPlain s) :
    Code.leadingClosers s.toList = 0 := by
  obtain ⟨c, r, hs, -, hbar, hc⟩ := h.exists_cons
  rw [hs, leadingClosers_cons hbar hc]

theorem IsIdentifier.startsPlain {s : String} (h : IsIdentifier s) : StartsPlain s := by
  obtain ⟨⟨hne, hword⟩, hblank⟩ := h
  cases hs : s.toList with
  | nil => exact absurd (String.toList_eq_nil_iff.1 hs) hne
  | cons c r =>
    rw [hs] at hword hblank
    have hbar : c ≠ '|' := by
      rintro rfl
      exact absurd (hword '|' (by simp)) (by decide)
    have hcloser : isCloser c = false := by
      rw [Bool.eq_false_iff]
      intro hc
      have hc' := hword c (by simp)
      rw [isWordChar_eq_false (.inr (.inr (.inr hc)))] at hc'
      cases hc'
    simp [StartsPlain, hs, hblank c (by simp), hbar, hcloser]

theorem IsIdentifier.endsPlain {s : String} (h : IsIdentifier s) : EndsPlain s := by
  obtain ⟨⟨hne, -⟩, hblank⟩ := h
  cases hs : s.toList.getLast? with
  | none => exact absurd (String.toList_eq_nil_iff.1 (List.getLast?_eq_none_iff.1 hs)) hne
  | some c => simp [EndsPlain, hs, hblank c (List.mem_of_getLast? hs)]

/-- A piece at the front of a line of code. -/
structure Front (s : String) (n : Int) : Prop extends Piece s n where
  starts : StartsPlain s

theorem Front.fixed {s : String} {n : Int} (h : IsFixed s n) (hs : StartsPlain s) : Front s n :=
  ⟨.fixed h, hs⟩

theorem Front.identifier {s : String} (h : IsIdentifier s) : Front s 0 :=
  ⟨.identifier h, h.startsPlain⟩

theorem Front.append {a b : String} {m n : Int} (ha : Front a m) (hb : Piece b n) :
    Front (a ++ b) (m + n) := ⟨ha.toPiece.append hb, ha.starts.append b⟩

/-- The line is indented as its place asks for: it stands at the depth `k`, less the brackets it
closes first, and the depth behind it is `m`. -/
structure Line.Sits (k : Nat) (l : Line) (m : Nat) : Prop where
  unbroken : Unbroken l.text.toList
  ne_nil : l.text.toList ≠ []
  head : ∀ c ∈ l.text.toList.head?, isBlank c = false
  last : ∀ c ∈ l.text.toList.getLast?, isBlank c = false
  indent : l.indent + leadingClosers l.text.toList = k
  depth : k + bracketDelta l.text.toList = m

theorem not_isBlank_iff (o : Option Char) :
    o.all (!isBlank ·) = true ↔ ∀ c ∈ o, isBlank c = false := by
  cases o <;> simp

instance (k : Nat) (l : Line) (m : Nat) : Decidable (l.Sits k m) :=
  decidable_of_iff (Unbroken l.text.toList ∧ l.text.toList ≠ [] ∧
      l.text.toList.head?.all (!isBlank ·) = true ∧
      l.text.toList.getLast?.all (!isBlank ·) = true ∧
      l.indent + leadingClosers l.text.toList = k ∧ k + bracketDelta l.text.toList = m) <| by
    rw [not_isBlank_iff, not_isBlank_iff]
    exact ⟨fun ⟨h1, h2, h3, h4, h5, h6⟩ => ⟨h1, h2, h3, h4, h5, h6⟩,
      fun ⟨h1, h2, h3, h4, h5, h6⟩ => ⟨h1, h2, h3, h4, h5, h6⟩⟩

theorem EndsPlain.last {s : String} (h : EndsPlain s) :
    ∀ c ∈ s.toList.getLast?, isBlank c = false := by
  intro c hc
  rw [EndsPlain, hc] at h
  simpa using h

/-- A line that starts and ends as code does. -/
theorem Line.sits_of_startsPlain {s : String} {k m : Nat} (hs : Unbroken s.toList)
    (hstart : StartsPlain s) (hend : EndsPlain s) (hdepth : k + bracketDelta s.toList = m) :
    Line.Sits k ⟨k, s⟩ m := by
  obtain ⟨c, r, hcons, hblank, -⟩ := hstart.exists_cons
  refine ⟨hs, ?_, ?_, hend.last, ?_, hdepth⟩
  · simp [hcons]
  · simp [hcons, hblank]
  · show k + Code.leadingClosers s.toList = k
    rw [hstart.leadingClosers, Nat.add_zero]

theorem Front.sits {s : String} {n : Int} {k m : Nat} (h : Front s n) (hend : EndsPlain s)
    (hdepth : k + n = m) : Line.Sits k ⟨k, s⟩ m :=
  Line.sits_of_startsPlain h.unbroken h.starts hend (by rwa [h.bracketDelta])

theorem Line.Sits.shift {k m : Nat} {l : Line} (h : l.Sits k m) : l.shift.Sits (k + 1) (m + 1) := by
  have hne : l.text ≠ "" := fun he => h.ne_nil (by rw [he]; rfl)
  have hindent := h.indent
  have hdepth := h.depth
  rw [Line.shift, if_neg hne]
  exact ⟨h.unbroken, h.ne_nil, h.head, h.last, by dsimp only; omega, by dsimp only; omega⟩

/-! ## Comment lines -/

theorem eq_space_of_mem_commentText {description : Option String} {c : Char}
    (hc : c ∈ (Text.commentText description).toList) (hblank : isBlank c = true) : c = ' ' := by
  have hsqueeze : ∀ (inRun : Bool) (cs : List Char), ∀ c ∈ Text.squeezeFrom inRun cs,
      isBlank c = true → c = ' ' := by
    intro inRun cs
    induction cs generalizing inRun with
    | nil => simp [Text.squeezeFrom]
    | cons d r ih =>
      intro c hc hblank
      rw [Text.squeezeFrom] at hc
      split_ifs at hc with hd
      · exact ih true c hc hblank
      · rcases List.mem_cons.1 hc with rfl | hc
        · rfl
        · exact ih true c hc hblank
      · rcases List.mem_cons.1 hc with rfl | hc
        · exact absurd hblank hd
        · exact ih false c hc hblank
  rw [Text.commentText, String.toList_ofList] at hc
  exact hsqueeze false _ c ((trim_isInfix _).subset hc) hblank

theorem bracketsFrom_comment (cs : List Char) :
    bracketsFrom .comment cs = bracketsFrom .code (behindComment cs) := by
  fun_induction behindComment cs with
  | case1 => rfl
  | case2 r => rw [bracketsFrom]
  | case3 c r h ih => rw [bracketsFrom, ih]; exact h

/-- A comment line stands at any depth and does not change it. -/
theorem Line.sits_comment (description : Option String) (k : Nat) :
    Line.Sits k ⟨k, (Line.comment (Text.commentText description)).text⟩ k := by
  have htext : (Line.comment (Text.commentText description)).text =
      "/** " ++ (Text.commentText description ++ " */") := String.append_assoc
  have hdelta : bracketDelta (Line.comment (Text.commentText description)).text.toList = 0 := by
    have hcode := codeOf_comment description
    obtain ⟨r, hr⟩ : ∃ r, (Line.comment (Text.commentText description)).text.toList =
        '/' :: '*' :: r := ⟨_, by rw [htext, String.toList_append]; rfl⟩
    rw [hr, codeOf] at hcode
    rw [hr, bracketDelta, bracketsFrom, bracketsFrom_comment, hcode, bracketsFrom]
  have htext' : Unbroken (Text.commentText description).toList :=
    unbroken_of_isBlank fun c hc hblank => eq_space_of_mem_commentText hc hblank
  refine Line.sits_of_startsPlain ?_ ?_ ?_ (by rw [hdelta]; omega)
  · rw [htext, String.toList_append, String.toList_append]
    exact Unbroken.append (by decide) (htext'.append (by decide))
  · rw [htext]
    exact StartsPlain.append (by decide) _
  · rw [htext]
    exact ((by decide : EndsPlain " */").append _).append _

/-! ## Nested lines -/

/-- The lines stand at the depths that their brackets give; in front of them the depth is `k`,
behind them `m`. -/
inductive Nested : Nat → List Line → Nat → Prop
  | nil (k : Nat) : Nested k [] k
  | blank {k m : Nat} {r : List Line} : Nested k r m → Nested k (.blank :: r) m
  | line {k j m : Nat} {l : Line} {r : List Line} :
      l.Sits k j → Nested j r m → Nested k (l :: r) m

namespace Nested

variable {a b : List Line} {k j m : Nat}

theorem append (ha : Nested k a j) (hb : Nested j b m) : Nested k (a ++ b) m := by
  induction ha with
  | nil => exact hb
  | blank _ ih => exact .blank (ih hb)
  | line hl _ ih => exact .line hl (ih hb)

/-- A line that keeps the depth. -/
theorem flat {l : Line} (hl : l.Sits k k) (ha : Nested k a m) : Nested k (l :: a) m := .line hl ha

theorem single {l : Line} (h : l.Sits k m) : Nested k [l] m := .line h (.nil m)

theorem flatMap {α : Type} {xs : List α} {f : α → List Line} (h : ∀ x ∈ xs, Nested k (f x) k) :
    Nested k (xs.flatMap f) k := by
  induction xs with
  | nil => exact .nil k
  | cons x r ih => exact (h x (by simp)).append (ih fun y hy => h y (by simp [hy]))

theorem map {α : Type} {xs : List α} {f : α → Line} (h : ∀ x ∈ xs, (f x).Sits k k) :
    Nested k (xs.map f) k := by
  rw [List.map_eq_flatMap]
  exact flatMap fun x hx => single (h x hx)

theorem shift (h : Nested k a m) : Nested (k + 1) (a.map Line.shift) (m + 1) := by
  induction h with
  | nil k => exact .nil (k + 1)
  | blank _ ih => exact .blank ih
  | line hl _ ih => exact .line hl.shift ih

/-- A block: a line that opens it, what is inside, and a line that closes it. -/
theorem block {first last : Line} (hfirst : first.Sits k j) (ha : Nested j a j)
    (hlast : last.Sits j k) : Nested k (first :: a ++ [last]) k :=
  .line hfirst (ha.append (single hlast))

theorem block_blank {first last : Line} (hfirst : first.Sits k j) (ha : Nested j a j)
    (hlast : last.Sits j k) : Nested k (first :: a ++ [last, .blank]) k :=
  .line hfirst (ha.append (.line hlast (.blank (.nil k))))

/-- The empty line at the end of a file does not matter. -/
theorem dropLast (h : Nested k (a ++ [.blank]) m) : Nested k a m := by
  induction a generalizing k with
  | nil =>
    cases h with
    | blank hr => exact hr
    | line hl _ => exact absurd rfl hl.ne_nil
  | cons l r ih =>
    cases h with
    | blank hr => exact .blank (ih hr)
    | line hl hr => exact .line hl (ih hr)

end Nested

end ResolverKit.Code
