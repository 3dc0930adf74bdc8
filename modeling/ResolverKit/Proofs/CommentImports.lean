import ResolverKit.Import.Statement
import ResolverKit.Proofs.Rows
import ResolverKit.Proofs.Spans

/-!
# Where import statements stand

The lexer cuts a text into spans, and import statements are read line by line, with more characters
that end a line than the lexer knows, and without regard to tokens.  So statements come from
comments that stand alone on their lines, but also from lines that begin inside a string or inside a
comment, and from nowhere else.

    parse text = .ok d →
      statements text = ((spans text).flatMap Span.lines).filterMap ofLine?    (statements_eq_lines)

If no line that begins inside a token says a statement, and no line ends inside a comment, then they
are those of the comments that stand alone.
-/

namespace ResolverKit.Text

/-! ## Lines -/

def firstLine (cs : List Char) : List Char := cs.takeWhile (!isLineBreak ·)

/-- The lines that begin behind the line breaks of `a`, where `b` follows. -/
def linesBehind : List Char → List Char → List (List Char)
  | [], _ => []
  | c :: a, b => if isLineBreak c then firstLine (a ++ b) :: linesBehind a b else linesBehind a b

/-- Only blanks stand behind the last line break. -/
def isFresh (cs : List Char) : Bool := (cs.reverse.takeWhile (!isLineBreak ·)).all isBlank

theorem isLineBreak_of_isRowEnd {c : Char} (h : isRowEnd c = true) : isLineBreak c = true := by
  rcases (by simpa [isRowEnd] using h : c = '\n' ∨ c = '\r') with rfl | rfl <;> rfl

theorem isLineBreak_of_not_isBlank {c : Char} (h : isBlank c = false) : isLineBreak c = false := by
  by_contra hbreak
  rw [isBlank_of_isLineBreak (by simpa using hbreak)] at h
  cases h

theorem firstLine_of_isLineBreak {c : Char} (h : isLineBreak c = true) (r : List Char) :
    firstLine (c :: r) = [] := List.takeWhile_cons_of_neg (by simp [h])

theorem firstLine_cons {c : Char} (h : isLineBreak c = false) (r : List Char) :
    firstLine (c :: r) = c :: firstLine r := List.takeWhile_cons_of_pos (by simp [h])

theorem firstLine_eq_nil {cs : List Char} (h : ∀ c ∈ cs.head?, isLineBreak c = true) :
    firstLine cs = [] := by
  cases cs with
  | nil => rfl
  | cons c r => exact firstLine_of_isLineBreak (h c rfl) r

/-- A line goes up to the place where the next text ends it. -/
theorem firstLine_append (a : List Char) {b : List Char}
    (h : ∀ c ∈ b.head?, isLineBreak c = true) : firstLine (a ++ b) = firstLine a := by
  induction a with
  | nil => exact firstLine_eq_nil h
  | cons c a ih =>
    by_cases hc : isLineBreak c = true
    · rw [List.cons_append, firstLine_of_isLineBreak hc, firstLine_of_isLineBreak hc]
    · have hc : isLineBreak c = false := by simpa using hc
      rw [List.cons_append, firstLine_cons hc, firstLine_cons hc, ih]

theorem linesBehind_append (a b r : List Char) :
    linesBehind (a ++ b) r = linesBehind a (b ++ r) ++ linesBehind b r := by
  induction a with
  | nil => rfl
  | cons c a ih =>
    rw [List.cons_append, linesBehind, linesBehind, ih, List.append_assoc]
    split <;> rfl

theorem linesBehind_of_unbroken {a : List Char} (h : Unbroken a) (b : List Char) :
    linesBehind a b = [] := by
  induction a with
  | nil => rfl
  | cons c a ih =>
    rw [linesBehind, h c (.head _), if_neg Bool.false_ne_true]
    exact ih fun x hx => h x (.tail _ hx)

theorem isFresh_concat (cs : List Char) (c : Char) :
    isFresh (cs ++ [c]) = (isLineBreak c || isBlank c && isFresh cs) := by
  rw [isFresh, List.reverse_append, List.reverse_singleton, List.singleton_append]
  cases hc : isLineBreak c with
  | true => rw [List.takeWhile_cons_of_neg (by simp [hc])]; rfl
  | false => rw [List.takeWhile_cons_of_pos (by simp [hc])]; rfl

/-- A text has its first line and the lines behind its line breaks.  Between a carriage return and a
line feed one more line is seen, which is empty and does not count where empty lines say nothing. -/
theorem filterMap_splitLines {α : Type} {f : List Char → Option α} (hf : f [] = none)
    (cs : List Char) :
    (splitLines cs).filterMap f = (firstLine cs :: linesBehind cs []).filterMap f := by
  have hhead (ls : List (List Char)) : ls.filterMap f = (ls.headD [] :: ls.tail).filterMap f := by
    cases ls with
    | nil => exact (List.filterMap_cons_none hf).symm
    | cons l ls => rfl
  suffices h : (splitLines cs).headD [] = firstLine cs ∧
      (splitLines cs).tail.filterMap f = (linesBehind cs []).filterMap f by
    rw [hhead, List.filterMap_cons, List.filterMap_cons, h.1, h.2]
  have hbreak {c : Char} {r : List Char} (hc : isLineBreak c = true)
      (ih : (splitLines r).headD [] = firstLine r ∧
        (splitLines r).tail.filterMap f = (linesBehind r []).filterMap f) :
      (splitLines r).filterMap f = (linesBehind (c :: r) []).filterMap f := by
    rw [hhead, linesBehind, if_pos hc, List.append_nil, List.filterMap_cons, List.filterMap_cons,
      ih.1, ih.2]
  fun_induction splitLines cs with
  | case1 => exact ⟨rfl, rfl⟩
  | case2 r ih =>
    refine ⟨rfl, ?_⟩
    have hreturn : linesBehind ('\r' :: '\n' :: r) [] = [] :: linesBehind ('\n' :: r) [] := rfl
    rw [List.tail_cons, hbreak (by decide : isLineBreak '\n' = true) ih, hreturn,
      List.filterMap_cons_none hf]
  | case3 c r _ hc ih => exact ⟨(firstLine_of_isLineBreak hc r).symm, hbreak hc ih⟩
  | case4 c r _ hc hr ih =>
    have hc : isLineBreak c = false := by simpa using hc
    rw [hr] at ih
    rw [firstLine_cons hc, ← ih.1, linesBehind, hc, if_neg Bool.false_ne_true, ← ih.2]
    exact ⟨rfl, rfl⟩
  | case5 c r _ hc l ls hr ih =>
    have hc : isLineBreak c = false := by simpa using hc
    rw [hr] at ih
    rw [firstLine_cons hc, ← ih.1, linesBehind, hc, if_neg Bool.false_ne_true, ← ih.2]
    exact ⟨rfl, rfl⟩

end ResolverKit.Text

namespace ResolverKit.Sdl

open Text (firstLine isFresh linesBehind)

/-! ## Lines of a span -/

/-- The lines that a span opens and that may hold a statement: those that begin inside a comment or
a string, and the line of a comment that stands alone. -/
def Span.lines (s : Span) : List (List Char) :=
  match s.kind with
  | .comment =>
    (if isFresh s.before then [firstLine s.chars] else []) ++ linesBehind s.chars s.behind
  | .token (.string _) => linesBehind s.chars s.behind
  | _ => []

/-- The text of a comment that stands alone, with nothing but blanks before it on its line. -/
def Span.loneComment? (s : Span) : Option (List Char) :=
  match s.kind with
  | .comment => if isFresh s.before then some s.chars else none
  | _ => none

def loneComments (text : String) : List (List Char) := (spans text).filterMap Span.loneComment?

end ResolverKit.Sdl

namespace ResolverKit.Import

open Sdl (Cut Span loneComments spans)
open Text (firstLine isBlank isFresh isLineBreak linesBehind splitLines)

/-! ## Single lines -/

theorem ofLine?_nil : Statement.ofLine? [] = none := rfl

theorem ofLine?_cons_of_isBlank {c : Char} (h : isBlank c = true) (l : List Char) :
    Statement.ofLine? (c :: l) = Statement.ofLine? l := by
  have htrim : Text.trimLeft (c :: l) = Text.trimLeft l := List.dropWhile_cons_of_pos h
  rw [Statement.ofLine?, htrim]
  rfl

/-- A statement starts with a hash. -/
theorem ofLine?_cons_eq_none {c : Char} (h : isBlank c = false) (hhash : c ≠ '#') (l : List Char) :
    Statement.ofLine? (c :: l) = none := by
  have htrim : Text.trimLeft (c :: l) = c :: l := List.dropWhile_cons_of_neg (by simp [h])
  have hword : dropWord "#" (c :: l) = none := if_neg (by simpa using Ne.symm hhash)
  rw [Statement.ofLine?, htrim, hword]
  rfl

/-! ## From span to span -/

/-- The statements on the lines of the text `cs` that stands behind `before`.  Its first line counts
if only blanks stand before it. -/
def statementsBehind (before cs : List Char) : List Statement :=
  ((if isFresh before then [firstLine cs] else []) ++ linesBehind cs []).filterMap Statement.ofLine?

/-- A character that opens no statement changes nothing. -/
theorem statementsBehind_cons {before : List Char} {c : Char} (h : c ≠ '#') (r : List Char) :
    statementsBehind before (c :: r) = statementsBehind (before ++ [c]) r := by
  unfold statementsBehind
  rw [Text.isFresh_concat, linesBehind]
  by_cases hbreak : isLineBreak c = true
  · -- the first line ends here, and the next one begins
    rw [Text.firstLine_of_isLineBreak hbreak, hbreak, if_pos rfl, Bool.true_or, if_pos rfl,
      List.append_nil]
    split
    · rw [List.singleton_append, List.filterMap_cons_none ofLine?_nil]
      rfl
    · rfl
  · have hbreak : isLineBreak c = false := by simpa using hbreak
    rw [Text.firstLine_cons hbreak, hbreak, if_neg Bool.false_ne_true, Bool.false_or]
    by_cases hblank : isBlank c = true
    · rw [hblank, Bool.true_and, List.filterMap_append, List.filterMap_append]
      split
      · simp only [List.filterMap_cons, ofLine?_cons_of_isBlank hblank]
      · rfl
    · have hblank : isBlank c = false := by simpa using hblank
      rw [hblank, Bool.false_and, if_neg Bool.false_ne_true, List.nil_append]
      split
      · rw [List.singleton_append,
          List.filterMap_cons_none (ofLine?_cons_eq_none hblank h (firstLine r))]
      · rfl

/-- A first line that does not count, or says nothing, leaves the lines behind the line breaks. -/
theorem statementsBehind_of_silent {before cs : List Char}
    (h : isFresh before = false ∨ Statement.ofLine? (firstLine cs) = none) :
    statementsBehind before cs = (linesBehind cs []).filterMap Statement.ofLine? := by
  unfold statementsBehind
  rcases h with h | h
  · rw [h, if_neg Bool.false_ne_true, List.nil_append]
  · split
    · rw [List.singleton_append, List.filterMap_cons_none h]
    · rfl

theorem lines_of_isSpelled {before chars behind : List Char} {kind : Sdl.Lexeme}
    (h : kind.IsSpelled chars) :
    (⟨before, .token kind, chars, behind⟩ : Span).lines = linesBehind chars behind := by
  have hsilent : (∀ lit, kind ≠ .string lit) → linesBehind chars behind = [] := by
    intro hkind
    rcases h with h | ⟨lit, -, hlit, -⟩
    · exact Text.linesBehind_of_unbroken
        (fun c hc => Text.isLineBreak_of_not_isBlank (h c hc)) behind
    · exact absurd hlit (hkind lit)
  cases kind with
  | string lit => rfl
  | _ => exact (hsilent nofun).symm

/-- From span to span: what a line says is said by the span that opens it. -/
theorem statementsBehind_eq {before cs : List Char} {ss : List Span} (h : Cut before cs ss) :
    statementsBehind before cs = (ss.flatMap Span.lines).filterMap Statement.ofLine? := by
  induction h with
  | done before => exact statementsBehind_of_silent (.inr ofLine?_nil)
  | @gap before r c ss hignored _ ih =>
    have hhash : c ≠ '#' := by
      rintro rfl
      cases hignored
    rw [statementsBehind_cons hhash, ih]
    rfl
  | @comment before body behind ss _ hbehind _ ih =>
    have hends : ∀ c ∈ behind.head?, isLineBreak c = true := fun c hc =>
      Text.isLineBreak_of_isRowEnd (hbehind c hc)
    have hsilent : Statement.ofLine? (firstLine behind) = none := by
      rw [Text.firstLine_eq_nil hends, ofLine?_nil]
    have hrest : statementsBehind (before ++ '#' :: body) behind =
        (linesBehind behind []).filterMap Statement.ofLine? :=
      statementsBehind_of_silent (.inr hsilent)
    rw [statementsBehind, Text.firstLine_append _ hends, Text.linesBehind_append, List.append_nil,
      ← List.append_assoc, List.filterMap_append, ← hrest, ih, List.flatMap_cons,
      List.filterMap_append (l := Span.lines _)]
    rfl
  | @token before chars behind c kind ss hlexeme _ ih =>
    have hspelled := Sdl.isSpelled_of_lexeme hlexeme
    have hblank := hspelled.not_isBlank_head
    have hhash : c ≠ '#' := (Sdl.front_of_lexeme_eq_ok hlexeme).2
    have hfirst : Statement.ofLine? (firstLine (c :: chars ++ behind)) = none := by
      rw [List.cons_append, Text.firstLine_cons (Text.isLineBreak_of_not_isBlank hblank)]
      exact ofLine?_cons_eq_none hblank hhash _
    have hfresh : isFresh (before ++ c :: chars) = false := by
      obtain ⟨front, last, hconcat, hlast⟩ := hspelled.exists_concat
      rw [hconcat, ← List.append_assoc, Text.isFresh_concat, hlast, Bool.false_and, Bool.or_false]
      exact Text.isLineBreak_of_not_isBlank hlast
    rw [statementsBehind_of_silent (.inr hfirst), Text.linesBehind_append, List.append_nil,
      List.filterMap_append, ← statementsBehind_of_silent (.inl hfresh), ih, List.flatMap_cons,
      List.filterMap_append, lines_of_isSpelled hspelled]

/-! ## Statements of a text -/

/-- No line ends inside the comment, and no line that begins inside the token says a statement. -/
def IsPlain (s : Span) : Prop :=
  match s.kind with
  | .gap => True
  | .comment => Text.Unbroken s.chars
  | .token _ => ∀ l ∈ linesBehind s.chars s.behind, Statement.ofLine? l = none

theorem lines_of_isPlain {s : Span} (h : IsPlain s) :
    s.lines.filterMap Statement.ofLine? = s.loneComment?.toList.filterMap Statement.ofLine? := by
  obtain ⟨before, kind, chars, behind⟩ := s
  cases kind with
  | gap => rfl
  | comment =>
    have hchars : Text.Unbroken chars := h
    have hline : firstLine chars = chars :=
      List.takeWhile_eq_self_iff.2 fun c hc => by simp [hchars c hc]
    rw [Span.lines, Span.loneComment?]
    dsimp only
    rw [hline, Text.linesBehind_of_unbroken hchars, List.append_nil]
    split <;> rfl
  | token kind =>
    have hsilent : (linesBehind chars behind).filterMap Statement.ofLine? = [] :=
      List.filterMap_eq_nil_iff.2 h
    cases kind with
    | string lit => exact hsilent
    | _ => rfl

theorem filterMap_lines_of_isPlain {ss : List Span} (h : ∀ s ∈ ss, IsPlain s) :
    (ss.flatMap Span.lines).filterMap Statement.ofLine? =
      (ss.filterMap Span.loneComment?).filterMap Statement.ofLine? := by
  induction ss with
  | nil => rfl
  | cons s ss ih =>
    have hspan := lines_of_isPlain (h s (.head _))
    have hspans := ih fun x hx => h x (.tail _ hx)
    rw [List.flatMap_cons, List.filterMap_append, hspan, hspans, List.filterMap_cons]
    cases s.loneComment? with
    | none => rfl
    | some chars =>
      rw [← List.filterMap_append]
      rfl

/-- The import statements of a text that parses stand on the lines that its comments and strings
open.  If no line that begins inside a token says a statement, and no line ends inside a comment,
they are those of the comments that stand alone. -/
theorem statements_eq_lines {text : String} {d : Sdl.Document} (h : Sdl.parse text = .ok d) :
    Cut [] text.toList (spans text) ∧
      statements text = ((spans text).flatMap Span.lines).filterMap Statement.ofLine? ∧
      ((∀ s ∈ spans text, IsPlain s) →
        statements text = (loneComments text).filterMap Statement.ofLine?) := by
  have hcut : Cut [] text.toList (spans text) :=
    Sdl.cut_spansFrom (Sdl.broken_not_mem_of_parse h)
  have hlines :
      statements text = ((spans text).flatMap Span.lines).filterMap Statement.ofLine? := by
    rw [← statementsBehind_eq hcut, statements, Text.filterMap_splitLines ofLine?_nil]
    rfl
  refine ⟨hcut, hlines, fun hplain => ?_⟩
  rw [hlines, filterMap_lines_of_isPlain hplain]
  rfl

/-- A type with an import in its description, and an import with a line separator in it. -/
def describedQuery : String :=
  "\"\"\"\n# import * from 'other'\n\"\"\"\ntype Query \x7b a: ID \x7d\n# import A\u2028 from 'b'\n"

/-- The description asks for a file, and the comment that stands alone asks for none. -/
theorem statements_describedQuery :
    ∃ d, Sdl.parse describedQuery = .ok d ∧
      statements describedQuery =
        ((spans describedQuery).flatMap Span.lines).filterMap Statement.ofLine? ∧
      statements describedQuery = [⟨none, "other"⟩] ∧
      (loneComments describedQuery).filterMap Statement.ofLine? = [⟨some ["A"], "b"⟩] := by
  have hparse : (Sdl.parse describedQuery).toOption.isSome = true := by decide +kernel
  cases hd : Sdl.parse describedQuery with
  | error e =>
    rw [hd] at hparse
    cases hparse
  | ok d =>
    obtain ⟨-, hlines, -⟩ := statements_eq_lines hd
    exact ⟨d, rfl, hlines, by decide +kernel, by decide +kernel⟩

end ResolverKit.Import
