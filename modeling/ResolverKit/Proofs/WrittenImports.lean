import ResolverKit.Proofs.CleanPlans
import ResolverKit.Proofs.CommentImports

/-!
# Written import statements

An import line can be written in many ways: with gaps of spaces and tabs, either quote, and a
semicolon or none.  `Spelling` is one of these ways, and a line that is written in it is read back:

    WritesAsked asked text → IsQuotable path →
      ofLine? (s.line text path) = some ⟨asked.map sortedNames, path⟩              (ofLine?_line)

A reader takes the shortest list of names that a source follows.  A name may be `from`, and so may a
part of the path, so it is the quotes that leave one way to read a line: a source starts with the
word `from` between blanks and a quote (`exists_of_sourcePath?`), and what stands in front of the
first quote ends with that word in one place only (`eq_of_append_quote`, `eq_of_append_from`).
-/

namespace ResolverKit.Text

/-! ## A line among others -/

theorem firstLine_of_unbroken {a : List Char} (h : Unbroken a) : firstLine a = a :=
  List.takeWhile_eq_self_iff.2 fun c hc => by rw [h c hc]; rfl

theorem firstLine_append_break (a : List Char) {c : Char} (h : isLineBreak c = true)
    (b : List Char) : firstLine (a ++ c :: b) = firstLine a := by
  refine firstLine_append a fun x hx => ?_
  rwa [← Option.some.inj hx]

/-- What stands behind a line break does not reach into the lines in front of it. -/
theorem linesBehind_cons_of_isLineBreak (a : List Char) {c : Char} (h : isLineBreak c = true)
    (b : List Char) : linesBehind a (c :: b) = linesBehind a [] := by
  induction a with
  | nil => rfl
  | cons d a ih =>
    rw [linesBehind, linesBehind, ih, firstLine_append_break a h, List.append_nil]

section

variable {α : Type} {f : List Char → Option α} (hf : f [] = none)

include hf

/-- Behind a line break a new line starts. -/
theorem filterMap_splitLines_break (a : List Char) {c : Char} (hc : isLineBreak c = true)
    (r : List Char) : (splitLines (a ++ c :: r)).filterMap f =
      (splitLines (a ++ [c])).filterMap f ++ (splitLines r).filterMap f := by
  have hsplit : ∀ r, (splitLines (a ++ c :: r)).filterMap f =
      (firstLine a :: linesBehind a []).filterMap f ++ (splitLines r).filterMap f := by
    intro r
    rw [filterMap_splitLines hf, filterMap_splitLines hf, firstLine_append_break a hc,
      linesBehind_append, List.append_nil, linesBehind_cons_of_isLineBreak a hc, linesBehind,
      if_pos hc, List.append_nil, ← List.filterMap_append, List.cons_append]
  rw [hsplit, hsplit [], splitLines_nil, List.filterMap_nil, List.append_nil]

theorem filterMap_splitLines_unbroken {l b : List Char} (hl : Unbroken l)
    (hb : ∀ c ∈ b.head?, isLineBreak c = true) :
    (splitLines (l ++ b)).filterMap f = (f l).toList ++ (splitLines b).filterMap f := by
  rw [filterMap_splitLines hf, filterMap_splitLines hf, firstLine_append l hb,
    firstLine_of_unbroken hl, firstLine_eq_nil hb, linesBehind_append, List.append_nil,
    linesBehind_of_unbroken hl, List.nil_append, List.filterMap_cons, List.filterMap_cons_none hf]
  cases f l <;> rfl

/-- A line is read wherever it stands, between what stands before and behind it. -/
theorem filterMap_splitLines_append {a l b : List Char}
    (ha : ∀ c ∈ a.getLast?, isLineBreak c = true) (hl : Unbroken l)
    (hb : ∀ c ∈ b.head?, isLineBreak c = true) :
    (splitLines (a ++ (l ++ b))).filterMap f =
      (splitLines a).filterMap f ++ ((f l).toList ++ (splitLines b).filterMap f) := by
  rcases List.eq_nil_or_concat' a with rfl | ⟨a, c, rfl⟩
  · rw [List.nil_append, filterMap_splitLines_unbroken hf hl hb, splitLines_nil]
    rfl
  · have hc : isLineBreak c = true := ha c (by simp)
    rw [List.append_assoc, List.singleton_append, filterMap_splitLines_break hf a hc,
      filterMap_splitLines_unbroken hf hl hb]

end

/-! ## Blanks at the ends -/

/-- Blanks in front of a text that starts with none. -/
theorem trimLeft_append {a r : List Char} (ha : ∀ c ∈ a, isBlank c = true)
    (hr : ∀ c ∈ r.head?, isBlank c = false) : trimLeft (a ++ r) = r := by
  rw [trimLeft, List.dropWhile_append_of_pos ha]
  exact trimLeft_eq_self hr

theorem head_not_isBlank {c : Char} (h : isBlank c = false) (r : List Char) :
    ∀ x ∈ (c :: r).head?, isBlank x = false := by
  intro x hx
  rwa [← Option.some.inj hx]

/-- Blanks behind a text that ends with none. -/
theorem trimRight_append {x b : List Char} (hx : ∀ c ∈ x.getLast?, isBlank c = false)
    (hb : ∀ c ∈ b, isBlank c = true) : trimRight (x ++ b) = x := by
  rw [trimRight, List.reverse_append, trimLeft_append, List.reverse_reverse]
  · exact fun c hc => hb c (List.mem_reverse.1 hc)
  · rwa [List.head?_reverse]

end ResolverKit.Text

namespace ResolverKit.Import

open Sdl (IsName isNameContinue)
open Text (isBlank isLineBreak trim trimLeft trimLeft_append Unbroken)

/-! ## Spellings -/

/-- Spaces and tabs, perhaps none. -/
structure Gap where
  chars : List Char
  isGap : ∀ c ∈ chars, c = ' ' ∨ c = '\t'

/-- Spaces and tabs, at least one. -/
structure Space extends Gap where
  ne_nil : chars ≠ []

/-- The text writes these names, with commas between them and gaps around the commas. -/
inductive WritesNames : List String → List Char → Prop
  | one {n : String} : IsName n → WritesNames [n] n.toList
  | cons {n : String} (a b : Gap) {names : List String} {cs : List Char} :
      IsName n → WritesNames names cs →
      WritesNames (n :: names) (n.toList ++ a.chars ++ ',' :: (b.chars ++ cs))

/-- The text writes what is asked for: a list of names, or a star for everything. -/
inductive WritesAsked : Option (List String) → List Char → Prop
  | all : WritesAsked none ['*']
  | names {names : List String} {cs : List Char} :
      WritesNames names cs → WritesAsked (some names) cs

/-- The path can stand between quotes on a line. -/
structure IsQuotable (path : String) : Prop where
  ne_empty : path ≠ ""
  noQuote : ∀ c ∈ path.toList, isQuote c = false
  unbroken : Unbroken path.toList

/-- A way to write an import statement. -/
structure Spelling where
  beforeHash : Gap
  behindHash : Gap
  behindImport : Space
  beforeFrom : Space
  behindFrom : Space
  opening : Char
  closing : Char
  behindPath : Gap
  semicolon : Bool
  atEnd : Gap
  isQuote_opening : isQuote opening = true
  isQuote_closing : isQuote closing = true

namespace Spelling

/-- What stands behind the path and its quote. -/
def ending (s : Spelling) : List Char :=
  s.behindPath.chars ++ ((if s.semicolon then [';'] else []) ++ s.atEnd.chars)

/-- The path between its quotes, up to the end of the line. -/
def quoted (s : Spelling) (path : String) : List Char :=
  s.opening :: (path.toList ++ s.closing :: s.ending)

/-- The word `from` and the path. -/
def source (s : Spelling) (path : String) : List Char :=
  s.beforeFrom.chars ++ ("from".toList ++ (s.behindFrom.chars ++ s.quoted path))

/-- What stands behind the word `import`. -/
def request (s : Spelling) (asked : List Char) (path : String) : List Char :=
  s.behindImport.chars ++ (asked ++ s.source path)

/-- The line that asks for this and names this path. -/
def line (s : Spelling) (asked : List Char) (path : String) : List Char :=
  s.beforeHash.chars ++ '#' :: (s.behindHash.chars ++ ("import".toList ++ s.request asked path))

end Spelling

/-! ## Characters -/

theorem eq_of_isQuote {c : Char} (h : isQuote c = true) : c = '"' ∨ c = '\'' := by
  simpa [isQuote] using h

theorem isBlank_of_isQuote {c : Char} (h : isQuote c = true) : isBlank c = false := by
  rcases eq_of_isQuote h with rfl | rfl <;> rfl

theorem isQuote_of_isBlank {c : Char} (h : isBlank c = true) : isQuote c = false := by
  by_contra hquote
  rw [isBlank_of_isQuote (by simpa using hquote)] at h
  cases h

theorem isQuote_of_isNameContinue {c : Char} (h : isNameContinue c = true) : isQuote c = false := by
  by_contra hquote
  rcases eq_of_isQuote (by simpa using hquote) with rfl | rfl <;> cases h

theorem comma_not_mem_of_isName {n : String} (h : IsName n) : ',' ∉ n.toList := by
  intro hc
  have hcomma : isNameContinue ',' = true := List.all_eq_true.1 h.2 _ hc
  cases hcomma

namespace Gap

variable (g : Gap)

theorem isBlank : ∀ c ∈ g.chars, isBlank c = true := by
  intro c hc
  rcases g.isGap c hc with rfl | rfl <;> rfl

theorem noQuote : ∀ c ∈ g.chars, isQuote c = false :=
  fun c hc => isQuote_of_isBlank (g.isBlank c hc)

theorem unbroken : Unbroken g.chars := by
  intro c hc
  rcases g.isGap c hc with rfl | rfl <;> rfl

theorem comma_not_mem : ',' ∉ g.chars := by
  intro hc
  rcases g.isGap ',' hc with h | h <;> cases h

end Gap

/-! ## Words and blanks -/

theorem dropWord_eq_some_iff {word : String} {cs r : List Char} :
    dropWord word cs = some r ↔ cs = word.toList ++ r := by
  rw [dropWord]
  constructor
  · intro h
    split_ifs at h with hword
    obtain ⟨r', hr'⟩ := List.isPrefixOf_iff_prefix.1 hword
    rw [← hr', ← String.length_toList, List.drop_left] at h
    rw [← hr', Option.some.inj h]
  · rintro rfl
    rw [if_pos (List.isPrefixOf_iff_prefix.2 (List.prefix_append _ _)), ← String.length_toList,
      List.drop_left]

theorem dropBlanks_append {a r : List Char} (ha : ∀ c ∈ a, isBlank c = true) (hne : a ≠ [])
    (hr : ∀ c ∈ r.head?, isBlank c = false) : dropBlanks (a ++ r) = some r := by
  obtain ⟨c, a', rfl⟩ := List.exists_cons_of_ne_nil hne
  rw [List.cons_append, dropBlanks, if_pos (ha c (.head _)), ← List.cons_append,
    trimLeft_append ha hr]

theorem exists_of_dropBlanks {cs r : List Char} (h : dropBlanks cs = some r) :
    ∃ a, cs = a ++ r ∧ ∀ c ∈ a, isBlank c = true := by
  unfold dropBlanks at h
  split at h
  · next c r' =>
    split_ifs at h
    refine ⟨(c :: r').takeWhile isBlank, ?_, fun x hx => List.mem_takeWhile_imp hx⟩
    rw [← Option.some.inj h, trimLeft, List.takeWhile_append_dropWhile]
  · cases h

/-! ## Sources -/

theorem takeWhile_append_quote {x : List Char} (hx : ∀ c ∈ x, isQuote c = false) {q : Char}
    (hq : isQuote q = true) (r : List Char) : (x ++ q :: r).takeWhile (!isQuote ·) = x := by
  rw [List.takeWhile_append_of_pos fun c hc => by rw [hx c hc]; rfl,
    List.takeWhile_cons_of_neg (by simp [hq]), List.append_nil]

theorem dropWhile_append_quote {x : List Char} (hx : ∀ c ∈ x, isQuote c = false) {q : Char}
    (hq : isQuote q = true) (r : List Char) : (x ++ q :: r).dropWhile (!isQuote ·) = q :: r := by
  rw [List.dropWhile_append_of_pos fun c hc => by rw [hx c hc]; rfl,
    List.dropWhile_cons_of_neg (by simp [hq])]

/-- A source starts with the word `from`, between blanks, and a quote. -/
theorem exists_of_sourcePath? {cs path : List Char} (h : sourcePath? cs = some path) :
    ∃ a b q r, cs = a ++ "from".toList ++ b ++ q :: r ∧ (∀ c ∈ a, isBlank c = true) ∧
      (∀ c ∈ b, isBlank c = true) ∧ isQuote q = true := by
  unfold sourcePath? at h
  obtain ⟨r₁, hbefore, h₁⟩ := Option.bind_eq_some_iff.1 h
  obtain ⟨r₂, hfrom, h₂⟩ := Option.bind_eq_some_iff.1 h₁
  obtain ⟨r₃, hbehind, h₃⟩ := Option.bind_eq_some_iff.1 h₂
  obtain ⟨a, rfl, ha⟩ := exists_of_dropBlanks hbefore
  obtain rfl := dropWord_eq_some_iff.1 hfrom
  obtain ⟨b, rfl, hb⟩ := exists_of_dropBlanks hbehind
  cases r₃ with
  | nil => cases h₃
  | cons q r =>
    refine ⟨a, b, q, r, by simp, ha, hb, ?_⟩
    dsimp only at h₃
    split at h₃
    · split_ifs at h₃ with hquote
      simp only [Bool.and_eq_true] at hquote
      exact hquote.1.1
    · cases h₃

/-- What stands in front of the first quote is settled. -/
theorem eq_of_append_quote {x y r r' : List Char} {q q' : Char} (hx : ∀ c ∈ x, isQuote c = false)
    (hy : ∀ c ∈ y, isQuote c = false) (hq : isQuote q = true) (hq' : isQuote q' = true)
    (h : x ++ q :: r = y ++ q' :: r') : x = y := by
  rw [← takeWhile_append_quote hx hq r, h, takeWhile_append_quote hy hq' r']

/-- What stands in front of the last word is settled, whatever blanks stand behind it. -/
theorem eq_of_append_from {x y a b : List Char} (ha : ∀ c ∈ a, isBlank c = true)
    (hb : ∀ c ∈ b, isBlank c = true) (h : x ++ "from".toList ++ a = y ++ "from".toList ++ b) :
    x = y := by
  have hlast : ∀ z : List Char, ∀ c ∈ (z ++ "from".toList).getLast?, isBlank c = false := by
    intro z c hc
    obtain rfl : 'm' = c := by simpa using hc
    rfl
  have htrimmed : x ++ "from".toList = y ++ "from".toList := by
    rw [← Text.trimRight_append (hlast x) ha, h, Text.trimRight_append (hlast y) hb]
  exact List.append_cancel_right htrimmed

namespace Spelling

variable (s : Spelling)

theorem isEnding_ending : isEnding s.ending = true := by
  have hnil : trimLeft s.atEnd.chars = [] := List.dropWhile_eq_nil_iff.2 s.atEnd.isBlank
  have hending : trimLeft s.ending =
      trimLeft ((if s.semicolon then [';'] else []) ++ s.atEnd.chars) :=
    List.dropWhile_append_of_pos s.behindPath.isBlank
  cases hs : s.semicolon with
  | true =>
    have hsemicolon : trimLeft s.ending = ';' :: s.atEnd.chars := by rw [hending, hs]; rfl
    simp only [isEnding, hsemicolon, hnil, List.isEmpty_nil]
  | false =>
    have hblank : trimLeft s.ending = [] := by
      rw [hending, hs]
      exact hnil
    simp only [isEnding, hblank, List.isEmpty_nil]

theorem sourcePath?_source {path : String} (h : IsQuotable path) :
    sourcePath? (s.source path) = some path.toList := by
  have hbefore : dropBlanks (s.source path) =
      some ("from".toList ++ (s.behindFrom.chars ++ s.quoted path)) :=
    dropBlanks_append s.beforeFrom.isBlank s.beforeFrom.ne_nil (Text.head_not_isBlank rfl _)
  have hfrom : dropWord "from" ("from".toList ++ (s.behindFrom.chars ++ s.quoted path)) =
      some (s.behindFrom.chars ++ s.quoted path) := dropWord_eq_some_iff.2 rfl
  have hbehind : dropBlanks (s.behindFrom.chars ++ s.quoted path) = some (s.quoted path) :=
    dropBlanks_append s.behindFrom.isBlank s.behindFrom.ne_nil
      (Text.head_not_isBlank (isBlank_of_isQuote s.isQuote_opening) _)
  have hne : path.toList.isEmpty = false := by simpa using h.ne_empty
  simp only [sourcePath?, hbefore, hfrom, hbehind, Option.bind_eq_bind, Option.bind_some]
  simp only [quoted, takeWhile_append_quote h.noQuote s.isQuote_closing,
    dropWhile_append_quote h.noQuote s.isQuote_closing, s.isQuote_opening, hne, s.isEnding_ending,
    Bool.not_false, Bool.and_self, if_true]

/-- A list of names in front of a source is no source with it: then it would be blank. -/
theorem sourcePath?_append_source {text : List Char} (hne : text ≠ [])
    (hlast : ∀ c ∈ text.getLast?, isBlank c = false) (hquote : ∀ c ∈ text, isQuote c = false)
    (path : String) : sourcePath? (text ++ s.source path) = none := by
  by_contra hsome
  obtain ⟨p, hp⟩ := Option.ne_none_iff_exists'.1 hsome
  obtain ⟨a, b, q, r, heq, ha, hb, hq⟩ := exists_of_sourcePath? hp
  have hboth : text ++ s.beforeFrom.chars ++ "from".toList ++ s.behindFrom.chars ++
      s.opening :: (path.toList ++ s.closing :: s.ending) = a ++ "from".toList ++ b ++ q :: r := by
    rw [← heq, source, quoted]
    simp only [List.append_assoc]
  have hword : ∀ c ∈ "from".toList, isQuote c = false := by simp [isQuote]
  have hfront : text ++ s.beforeFrom.chars ++ "from".toList ++ s.behindFrom.chars =
      a ++ "from".toList ++ b := by
    refine eq_of_append_quote ?_ ?_ s.isQuote_opening hq hboth
    · grind [s.beforeFrom.noQuote, s.behindFrom.noQuote]
    · grind [isQuote_of_isBlank]
  have hblank : text ++ s.beforeFrom.chars = a := eq_of_append_from s.behindFrom.isBlank hb hfront
  obtain ⟨c, hc⟩ := Option.ne_none_iff_exists'.1 (mt List.getLast?_eq_none_iff.1 hne)
  have hmem : c ∈ a := by
    rw [← hblank]
    exact List.mem_append_left _ (List.mem_of_mem_getLast? hc)
  have hnot := hlast c hc
  rw [ha c hmem] at hnot
  cases hnot

end Spelling

/-! ## Names in front of a source -/

/-- If no later part of the text is a source, the names go up to the source. -/
theorem namesAndPath?_append {names tail path : List Char} (hne : names ≠ [])
    (htail : sourcePath? tail = some path)
    (hnone : ∀ r, r ≠ [] → r <:+ names → sourcePath? (r ++ tail) = none) :
    namesAndPath? (names ++ tail) = some (names, path) := by
  induction names with
  | nil => exact absurd rfl hne
  | cons c r ih =>
    rw [List.cons_append, namesAndPath?]
    cases r with
    | nil => rw [List.nil_append, htail]
    | cons d r =>
      have hsource := hnone (d :: r) (List.cons_ne_nil _ _) (List.suffix_cons _ _)
      have hrest := ih (List.cons_ne_nil _ _) fun r' hr' hsuffix =>
        hnone r' hr' (hsuffix.trans (List.suffix_cons _ _))
      rw [hsource, hrest]
      rfl

/-- All blanks behind the word are passed over at first, and no other try is needed. -/
theorem behindImport?_append {a cs names path : List Char} (ha : ∀ c ∈ a, isBlank c = true)
    (hne : a ≠ []) (hcs : ∀ c ∈ cs.head?, isBlank c = false)
    (h : namesAndPath? cs = some (names, path)) : behindImport? (a ++ cs) = some (names, path) := by
  have hblanks : (a ++ cs).takeWhile isBlank = a := by
    rw [List.takeWhile_append_of_pos ha]
    cases cs with
    | nil => exact List.append_nil a
    | cons c r => rw [List.takeWhile_cons_of_neg (by simp [hcs c rfl]), List.append_nil]
  obtain ⟨k, hk⟩ : ∃ k, a.length = k + 1 :=
    Nat.exists_eq_succ_of_ne_zero (mt List.length_eq_zero_iff.1 hne)
  have hdrop : (a ++ cs).drop (k + 1) = cs := by rw [← hk, List.drop_left]
  rw [behindImport?, hblanks, hk, List.range_succ, List.reverse_append]
  simp only [List.reverse_cons, List.reverse_nil, List.nil_append, List.singleton_append,
    List.map_cons]
  rw [List.findSome?_cons, hdrop, h]

/-! ## Lists of names -/

theorem splitCommas_of_not_mem {a : List Char} (h : ',' ∉ a) : splitCommas a = [a] := by
  induction a with
  | nil => rfl
  | cons c r ih =>
    rw [List.mem_cons, not_or] at h
    rw [splitCommas, if_neg (Ne.symm h.1), ih h.2]

theorem splitCommas_append {a : List Char} (h : ',' ∉ a) (r : List Char) :
    splitCommas (a ++ ',' :: r) = a :: splitCommas r := by
  induction a with
  | nil => rw [List.nil_append, splitCommas, if_pos rfl]
  | cons c a ih =>
    rw [List.mem_cons, not_or] at h
    rw [List.cons_append, splitCommas, if_neg (Ne.symm h.1), ih h.2]

/-- The text neither starts nor ends with a blank, and no quote or line break stands in it. -/
structure IsAskedText (cs : List Char) : Prop where
  ne_nil : cs ≠ []
  head : ∀ c ∈ cs.head?, isBlank c = false
  last : ∀ c ∈ cs.getLast?, isBlank c = false
  noQuote : ∀ c ∈ cs, isQuote c = false
  unbroken : Unbroken cs

theorem isAskedText_of_isName {n : String} (h : IsName n) : IsAskedText n.toList := by
  have hchars : ∀ c ∈ n.toList, isNameContinue c = true := List.all_eq_true.1 h.2
  have hblank : ∀ c ∈ n.toList, isBlank c = false := fun c hc =>
    Code.not_isBlank_of_isNameContinue (hchars c hc)
  constructor
  case ne_nil =>
    intro hnil
    have hstart := h.1
    rw [hnil] at hstart
    cases hstart
  case head => exact fun c hc => hblank c (List.mem_of_mem_head? hc)
  case last => exact fun c hc => hblank c (List.mem_of_mem_getLast? hc)
  case noQuote => exact fun c hc => isQuote_of_isNameContinue (hchars c hc)
  case unbroken => exact fun c hc => Text.isLineBreak_of_not_isBlank (hblank c hc)

namespace WritesNames

variable {names : List String} {cs : List Char}

theorem isAskedText (h : WritesNames names cs) : IsAskedText cs := by
  induction h with
  | one hn => exact isAskedText_of_isName hn
  | @cons n a b names cs hn _ ih =>
    have hname := isAskedText_of_isName hn
    constructor
    case ne_nil => simp
    case head =>
      intro c hc
      rw [List.append_assoc, List.head?_append_of_ne_nil _ hname.ne_nil] at hc
      exact hname.head c hc
    case last =>
      intro c hc
      rw [List.getLast?_append_of_ne_nil _ (List.cons_ne_nil _ _), ← List.cons_append,
        List.getLast?_append_of_ne_nil _ ih.ne_nil] at hc
      exact ih.last c hc
    case noQuote =>
      have hcomma : isQuote ',' = false := rfl
      grind [hname.noQuote, a.noQuote, b.noQuote, ih.noQuote]
    case unbroken =>
      exact (hname.unbroken.append a.unbroken).append
        ((by decide : Unbroken [',']).append (b.unbroken.append ih.unbroken))

/-- The pieces between the commas are the names with gaps around them. -/
theorem map_trim (h : WritesNames names cs) {g : List Char} (hg : ∀ c ∈ g, Text.isBlank c = true)
    (hcomma : ',' ∉ g) : (splitCommas (g ++ cs)).map trim = names.map String.toList := by
  have htrim {n : String} (hn : IsName n) : trim n.toList = n.toList :=
    Text.trim_eq_self (isAskedText_of_isName hn).head (isAskedText_of_isName hn).last
  induction h generalizing g with
  | @one n hn =>
    have hpiece : ',' ∉ g ++ n.toList := by simp [hcomma, comma_not_mem_of_isName hn]
    rw [splitCommas_of_not_mem hpiece, List.map_singleton, Text.trim_append hg, htrim hn]
    rfl
  | @cons n a b names cs hn _ ih =>
    have hpiece : ',' ∉ g ++ (n.toList ++ a.chars) := by
      simp [hcomma, comma_not_mem_of_isName hn, a.comma_not_mem]
    rw [← List.append_assoc, splitCommas_append hpiece, List.map_cons,
      ih b.isBlank b.comma_not_mem, Text.trim_append hg, Text.trim_append_blanks _ a.isBlank,
      htrim hn]
    rfl

theorem isName (h : WritesNames names cs) : ∀ n ∈ names, IsName n := by
  induction h with
  | one hn => simpa using hn
  | cons _ _ hn _ ih => exact List.forall_mem_cons.2 ⟨hn, ih⟩

theorem ne_star (h : WritesNames names cs) : cs ≠ ['*'] := by
  intro hstar
  cases h with
  | one hn =>
    have hstart := hn.1
    rw [hstar] at hstart
    cases hstart
  | @cons n a b names cs =>
    have hcomma : ',' ∈ n.toList ++ a.chars ++ ',' :: (b.chars ++ cs) := by simp
    rw [hstar] at hcomma
    simp at hcomma

end WritesNames

theorem WritesAsked.isAskedText {asked : Option (List String)} {cs : List Char}
    (h : WritesAsked asked cs) : IsAskedText cs := by
  cases h with
  | all =>
    have hblank : isBlank '*' = false := rfl
    exact ⟨by simp, by simpa using hblank, by simpa using hblank, by simp [isQuote], by decide⟩
  | names h => exact h.isAskedText

theorem WritesAsked.ofText {asked : Option (List String)} {cs : List Char}
    (h : WritesAsked asked cs) : Selection.ofText cs = asked.map sortedNames := by
  have htext := h.isAskedText
  have htrim : trim cs = cs := Text.trim_eq_self htext.head htext.last
  cases h with
  | all => rfl
  | @names names _ h =>
    have hpieces : (splitCommas cs).map trim = names.map String.toList :=
      h.map_trim (g := []) (by simp) (by simp)
    have hkept : (names.map String.toList).filter (!·.isEmpty) = names.map String.toList := by
      rw [List.filter_eq_self]
      intro cs hcs
      obtain ⟨n, hn, rfl⟩ := List.mem_map.1 hcs
      simpa using (isAskedText_of_isName (h.isName n hn)).ne_nil
    rw [Selection.ofText, htrim, if_neg h.ne_star, hpieces, hkept, List.map_map]
    simp [Function.comp_def]

/-! ## Names in their order -/

theorem mem_dropRepeats {n : String} {names : List String} :
    n ∈ dropRepeats names ↔ n ∈ names := by
  fun_induction dropRepeats names with
  | case1 b r ih => simp [ih]
  | case2 a b r _ ih => rw [List.mem_cons, ih, ← List.mem_cons]
  | case3 l => rfl

theorem pairwise_dropRepeats {names : List String} (h : names.Pairwise (· ≤ ·)) :
    (dropRepeats names).Pairwise (· < ·) := by
  fun_induction dropRepeats names with
  | case1 b r ih => exact ih (List.pairwise_cons.1 h).2
  | case2 a b r hab ih =>
    obtain ⟨hhead, hrest⟩ := List.pairwise_cons.1 h
    refine List.pairwise_cons.2 ⟨fun n hn => ?_, ih hrest⟩
    have hb : a < b := Std.lt_of_le_of_ne (hhead b (.head _)) hab
    rcases List.mem_cons.1 (mem_dropRepeats.1 hn) with rfl | hn
    · exact hb
    · exact Std.lt_of_lt_of_le hb ((List.pairwise_cons.1 hrest).1 n hn)
  | case3 l hl =>
    cases l with
    | nil => exact .nil
    | cons a r =>
      cases r with
      | nil => exact List.pairwise_singleton _ _
      | cons b r => exact absurd rfl (hl a b r)

theorem mem_sortedNames {n : String} {names : List String} :
    n ∈ sortedNames names ↔ n ∈ names := by
  rw [sortedNames, mem_dropRepeats, List.mem_mergeSort]

theorem pairwise_sortedNames (names : List String) : (sortedNames names).Pairwise (· < ·) := by
  have hsorted : (names.mergeSort fun a b => decide (a ≤ b)).Pairwise
      fun a b => decide (a ≤ b) = true := by
    refine List.pairwise_mergeSort (fun a b c hab hbc => ?_) (fun a b => ?_) names
    · simpa using String.le_trans (of_decide_eq_true hab) (of_decide_eq_true hbc)
    · simpa using String.le_total a b
  exact pairwise_dropRepeats (by simpa using hsorted)

/-! ## Lines -/

theorem ofLine?_line (s : Spelling) {asked : Option (List String)} {text : List Char}
    {path : String} (htext : WritesAsked asked text) (hpath : IsQuotable path) :
    Statement.ofLine? (s.line text path) = some ⟨asked.map sortedNames, path⟩ := by
  have hasked := htext.isAskedText
  have hsource : namesAndPath? (text ++ s.source path) = some (text, path.toList) := by
    refine namesAndPath?_append hasked.ne_nil (s.sourcePath?_source hpath) fun r hr hsuffix => ?_
    obtain ⟨r', hr'⟩ := hsuffix
    refine s.sourcePath?_append_source hr (fun c hc => hasked.last c ?_)
      (fun c hc => hasked.noQuote c ?_) path
    · rwa [← hr', List.getLast?_append_of_ne_nil _ hr]
    · rw [← hr']
      exact List.mem_append_right _ hc
  have hbehind : behindImport? (s.request text path) = some (text, path.toList) := by
    refine behindImport?_append s.behindImport.isBlank s.behindImport.ne_nil ?_ hsource
    rw [List.head?_append_of_ne_nil _ hasked.ne_nil]
    exact hasked.head
  have hhash : trimLeft (s.line text path) =
      "#".toList ++ (s.behindHash.chars ++ ("import".toList ++ s.request text path)) :=
    trimLeft_append s.beforeHash.isBlank (Text.head_not_isBlank rfl _)
  have himport : trimLeft (s.behindHash.chars ++ ("import".toList ++ s.request text path)) =
      "import".toList ++ s.request text path :=
    trimLeft_append s.behindHash.isBlank (Text.head_not_isBlank rfl _)
  rw [Statement.ofLine?, hhash, dropWord_eq_some_iff.2 rfl]
  simp only [Option.bind_eq_bind, Option.bind_some]
  rw [himport, dropWord_eq_some_iff.2 rfl]
  simp only [Option.bind_some, hbehind]
  rw [htext.ofText, String.ofList_toList]
  rfl

theorem Spelling.unbroken_line (s : Spelling) {text : List Char} {path : String}
    (htext : Unbroken text) (hpath : IsQuotable path) : Unbroken (s.line text path) := by
  have hquote {q : Char} (hq : isQuote q = true) : Unbroken [q] := by
    simpa [Unbroken] using Text.isLineBreak_of_not_isBlank (isBlank_of_isQuote hq)
  have hsemicolon : Unbroken (if s.semicolon then [';'] else []) := by cases s.semicolon <;> decide
  have hending : Unbroken s.ending :=
    s.behindPath.unbroken.append (hsemicolon.append s.atEnd.unbroken)
  have hquoted : Unbroken (s.quoted path) := (hquote s.isQuote_opening).append
    (hpath.unbroken.append ((hquote s.isQuote_closing).append hending))
  have hsource : Unbroken (s.source path) := s.beforeFrom.unbroken.append
    ((by decide : Unbroken "from".toList).append (s.behindFrom.unbroken.append hquoted))
  have hrequest : Unbroken (s.request text path) :=
    s.behindImport.unbroken.append (htext.append hsource)
  exact s.beforeHash.unbroken.append ((by decide : Unbroken ['#']).append
    (s.behindHash.unbroken.append ((by decide : Unbroken "import".toList).append hrequest)))

/-- An import that is written on a line of its own is read there, whatever stands around it: it
names the path as it is written, and asks for the names that are listed and no others, or for
everything. -/
theorem statements_of_spelling (s : Spelling) {asked : Option (List String)} {text : List Char}
    {path : String} (htext : WritesAsked asked text) (hpath : IsQuotable path)
    (before behind : String) (hbefore : ∀ c ∈ before.toList.getLast?, isLineBreak c = true)
    (hbehind : ∀ c ∈ behind.toList.head?, isLineBreak c = true) :
    Statement.ofLine? (s.line text path) = some ⟨asked.map sortedNames, path⟩ ∧
      statements (before ++ String.ofList (s.line text path) ++ behind) =
        statements before ++ ⟨asked.map sortedNames, path⟩ :: statements behind ∧
      ∀ names ∈ asked, (sortedNames names).Pairwise (· < ·) ∧
        ∀ n, n ∈ sortedNames names ↔ n ∈ names := by
  have hline := ofLine?_line s htext hpath
  refine ⟨hline, ?_, fun names _ => ⟨pairwise_sortedNames names, fun n => mem_sortedNames⟩⟩
  have hlines := Text.filterMap_splitLines_append ofLine?_nil hbefore
    (s.unbroken_line htext.isAskedText.unbroken hpath) hbehind
  rw [hline] at hlines
  simpa [statements] using hlines

def oneSpace : Space := ⟨⟨[' '], by simp⟩, by simp⟩

def oneTab : Space := ⟨⟨['\t'], by simp⟩, by simp⟩

def noSpace : Gap := ⟨[], by simp⟩

/-- A way to write an import with tabs in it. -/
def tabbedSpelling : Spelling where
  beforeHash := oneSpace.toGap
  behindHash := noSpace
  behindImport := oneTab
  beforeFrom := oneSpace
  behindFrom := oneTab
  opening := '\''
  closing := '\''
  behindPath := oneSpace.toGap
  semicolon := true
  atEnd := oneTab.toGap
  isQuote_opening := rfl
  isQuote_closing := rfl

theorem statements_tabbedSpelling :
    WritesAsked (some ["from", "import", "import"]) "from ,import,import".toList ∧
      IsQuotable "a from b" ∧
      Statement.ofLine? (tabbedSpelling.line "from ,import,import".toList "a from b") =
        some ⟨some ["from", "import"], "a from b"⟩ ∧
      statements ("# import * from \"c\"\n" ++
          String.ofList (tabbedSpelling.line "from ,import,import".toList "a from b") ++
          "\r\ntype D") =
        [⟨none, "c"⟩, ⟨some ["from", "import"], "a from b"⟩] := by
  have hasked : WritesAsked (some ["from", "import", "import"]) "from ,import,import".toList :=
    .names (.cons (n := "from") oneSpace.toGap noSpace (by decide)
      (.cons (n := "import") noSpace noSpace (by decide) (.one (n := "import") (by decide))))
  have hpath : IsQuotable "a from b" := ⟨by simp, by simp [isQuote], by decide⟩
  have hnames : sortedNames ["from", "import", "import"] = ["from", "import"] := by
    rw [sortedNames, List.mergeSort_of_pairwise (by decide)]
    decide
  have hbefore : statements "# import * from \"c\"\n" = [⟨none, "c"⟩] := by decide +kernel
  have hbehind : statements "\r\ntype D" = [] := by decide +kernel
  obtain ⟨hline, hfile, -⟩ := statements_of_spelling tabbedSpelling hasked hpath
    "# import * from \"c\"\n" "\r\ntype D" (by simp [isLineBreak]) (by simp [isLineBreak])
  rw [hbefore, hbehind] at hfile
  rw [Option.map_some, hnames] at hline hfile
  exact ⟨hasked, hpath, hline, hfile⟩

end ResolverKit.Import
