import Mathlib.Tactic.SplitIfs
import ResolverKit.Code.Language
import ResolverKit.Code.Line

/-!
# Words and marks in generated code

`tokens` cuts a line of generated code into words, texts between quotes and single marks.  A text
that is put together from names and fixed pieces is cut piece by piece: `Spells s ts` says that
the text `s` gives the tokens `ts` wherever no word goes on behind it.

    IsWord w → Spells w [.word w]                                              (Spells.word)
    Spells a ts → IsMark l us → Spells b vs → Spells (a ++ l ++ b) (ts ++ us ++ vs)
                                                                               (Spells.join)

A comment at the front of a line is no code (`codeOf`).
-/

namespace ResolverKit.Code

/-! ## Tokens -/

/-- Letters, digits, the underscore, the dollar sign, and everything beyond ASCII. -/
def isWordChar (c : Char) : Bool := c.isAlphanum || c == '_' || c == '$' || 128 ≤ c.toNat

/-- A text that is read as one word; every identifier is. -/
def IsWord (s : String) : Prop := s ≠ "" ∧ ∀ c ∈ s.toList, isWordChar c = true

instance (s : String) : Decidable (IsWord s) :=
  decidable_of_iff (s ≠ "" ∧ s.toList.all isWordChar = true) (by simp [IsWord])

theorem IsWord.append {a b : String} (ha : IsWord a) (hb : IsWord b) : IsWord (a ++ b) := by
  refine ⟨by simp [ha.1], fun c hc => ?_⟩
  rw [String.toList_append] at hc
  rcases List.mem_append.1 hc with hc | hc
  · exact ha.2 c hc
  · exact hb.2 c hc

/-- A word, a text between single quotes, or any other character but the space. -/
inductive Token
  | word (s : String)
  | quoted (s : String)
  | mark (c : Char)
  deriving DecidableEq, Repr

/-- What has been read of the token at hand, the last character first: a word, perhaps without any
character yet, or the text behind a quote. -/
inductive Scan
  | word (read : List Char)
  | quoted (read : List Char)
  deriving DecidableEq, Repr

/-- The word of these characters, the last one first. -/
def wordToken : List Char → List Token
  | [] => []
  | c :: r => [.word (String.ofList (c :: r).reverse)]

def Scan.step : Scan → Char → List Token × Scan
  | .word read, c =>
    if isWordChar c then ([], .word (c :: read))
    else if c = '\'' then (wordToken read, .quoted [])
    else if c = ' ' then (wordToken read, .word [])
    else (wordToken read ++ [.mark c], .word [])
  | .quoted read, c =>
    if c = '\'' then ([.quoted (String.ofList read.reverse)], .word [])
    else ([], .quoted (c :: read))

/-- Reads these characters. -/
def Scan.run : Scan → List Char → List Token × Scan
  | s, [] => ([], s)
  | s, c :: r =>
    let (ts, s') := s.step c
    let (us, s'') := s'.run r
    (ts ++ us, s'')

/-- The token at hand where the text ends. -/
def Scan.finish : Scan → List Token
  | .word read => wordToken read
  | .quoted read => [.quoted (String.ofList read.reverse)]

def tokens (s : String) : List Token :=
  let (ts, rest) := Scan.run (.word []) s.toList
  ts ++ rest.finish

/-! ## Pieces of a text -/

theorem Scan.run_append (s : Scan) (a b : List Char) :
    s.run (a ++ b) = ((s.run a).1 ++ ((s.run a).2.run b).1, ((s.run a).2.run b).2) := by
  induction a generalizing s with
  | nil => simp [run]
  | cons c r ih => simp [run, ih]

theorem Scan.run_word {read cs : List Char} (h : ∀ c ∈ cs, isWordChar c = true) :
    Scan.run (.word read) cs = ([], .word (cs.reverse ++ read)) := by
  induction cs generalizing read with
  | nil => rfl
  | cons c r ih =>
    have hc : isWordChar c = true := h c (by simp)
    have hr := @ih (c :: read) fun x hx => h x (by simp [hx])
    simp [run, step, hc, hr]

/-- A text whose end is also the end of a token gives these tokens. -/
def IsClosed (l : String) (ts : List Token) : Prop := Scan.run (.word []) l.toList = (ts, .word [])

instance (l : String) (ts : List Token) : Decidable (IsClosed l ts) :=
  inferInstanceAs (Decidable (_ = _))

/-- No word goes on at the front of this text. -/
def StartsOutside (r : String) : Prop := ∀ c, r.toList.head? = some c → isWordChar c = false

theorem tokens_append_of_isClosed {l : String} {ts : List Token} (h : IsClosed l ts) (r : String) :
    tokens (l ++ r) = ts ++ tokens r := by
  unfold IsClosed at h
  simp [tokens, Scan.run_append, h]

theorem tokens_append_of_isWord {w r : String} (hw : IsWord w) (hr : StartsOutside r) :
    tokens (w ++ r) = .word w :: tokens r := by
  obtain ⟨hne, hchars⟩ := hw
  have hword : wordToken w.toList.reverse = [.word w] := by
    obtain ⟨c, cs, hc⟩ : ∃ c cs, w.toList.reverse = c :: cs :=
      List.exists_cons_of_ne_nil (by simpa using hne)
    rw [hc, wordToken, ← hc, List.reverse_reverse, String.ofList_toList]
  have hstep : ∀ c, isWordChar c = false → ∀ read,
      Scan.step (.word read) c =
        (wordToken read ++ (Scan.step (.word []) c).1, (Scan.step (.word []) c).2) := by
    intro c hc read
    simp only [Scan.step, hc, Bool.false_eq_true, if_false]
    split_ifs <;> simp [wordToken]
  unfold tokens
  rw [String.toList_append, Scan.run_append, Scan.run_word hchars]
  cases hrest : r.toList with
  | nil =>
    simp only [Scan.run, Scan.finish, List.append_nil, List.nil_append, hword]
    rfl
  | cons c cs =>
    have hc : isWordChar c = false := hr c (by simp [hrest])
    simp only [Scan.run, List.append_nil, List.nil_append]
    rw [hstep c hc, hword]
    simp

/-- The text gives these tokens wherever no word goes on behind it. -/
def Spells (s : String) (ts : List Token) : Prop :=
  ∀ r, StartsOutside r → tokens (s ++ r) = ts ++ tokens r

/-- A fixed piece of text behind which a token ends and at the front of which no word goes on. -/
def IsMark (l : String) (ts : List Token) : Prop :=
  IsClosed l ts ∧ l.toList.head?.any (!isWordChar ·) = true

instance (l : String) (ts : List Token) : Decidable (IsMark l ts) :=
  inferInstanceAs (Decidable (_ ∧ _))

theorem IsMark.startsOutside {l : String} {ts : List Token} (h : IsMark l ts) (r : String) :
    StartsOutside (l ++ r) := by
  obtain ⟨-, hhead⟩ := h
  intro c hc
  cases hl : l.toList with
  | nil => simp [hl] at hhead
  | cons d ds =>
    obtain rfl : d = c := by simpa [hl] using hc
    simpa [hl] using hhead

theorem startsOutside_empty : StartsOutside "" := by simp [StartsOutside]

namespace Spells

variable {a b l : String} {ts us vs : List Token}

theorem word (h : IsWord a) : Spells a [.word a] := fun _ hr => tokens_append_of_isWord h hr

theorem closed (h : IsClosed l us) : Spells l us := fun r _ => tokens_append_of_isClosed h r

theorem after (hl : IsClosed l us) (ha : Spells a ts) : Spells (l ++ a) (us ++ ts) := by
  intro r hr
  rw [String.append_assoc, tokens_append_of_isClosed hl, ha r hr, List.append_assoc]

theorem before (ha : Spells a ts) (hl : IsMark l us) : Spells (a ++ l) (ts ++ us) := by
  intro r _
  rw [String.append_assoc, ha _ (hl.startsOutside r), tokens_append_of_isClosed hl.1,
    List.append_assoc]

theorem join (ha : Spells a ts) (hl : IsMark l us) (hb : Spells b vs) :
    Spells (a ++ l ++ b) (ts ++ us ++ vs) := by
  intro r hr
  rw [String.append_assoc, String.append_assoc, ha _ (hl.startsOutside _),
    tokens_append_of_isClosed hl.1, hb r hr]
  simp

theorem tokens (h : Spells a ts) : Code.tokens a = ts := by
  have := h "" startsOutside_empty
  rwa [String.append_empty, show Code.tokens "" = [] from rfl, List.append_nil] at this

end Spells

/-! ## Comments -/

/-- What follows the first comment closer. -/
def behindComment : List Char → List Char
  | [] => []
  | '*' :: '/' :: r => r
  | _ :: r => behindComment r

/-- What a line holds besides a comment at its front. -/
def codeOf : List Char → List Char
  | '/' :: '/' :: _ => []
  | '/' :: '*' :: r => behindComment r
  | cs => cs

def NoCloser (cs : List Char) : Prop := ¬ ['*', '/'] <:+: cs

theorem noCloser_nil : NoCloser [] := by simp [NoCloser]

theorem pair_infix_cons_iff {a b c : Char} {r : List Char} :
    [a, b] <:+: c :: r ↔ c = a ∧ r.head? = some b ∨ [a, b] <:+: r := by
  have hfront : [a, b] <+: c :: r ↔ c = a ∧ r.head? = some b := by
    rw [List.cons_prefix_cons]
    cases r with
    | nil => simp
    | cons d r => simp [List.cons_prefix_cons, eq_comm]
  rw [List.infix_cons_iff, hfront]

theorem noCloser_cons_iff {c : Char} {r : List Char} :
    NoCloser (c :: r) ↔ ¬ (c = '*' ∧ r.head? = some '/') ∧ NoCloser r := by
  rw [NoCloser, pair_infix_cons_iff, not_or]
  rfl

theorem noCloser_breakClosers (cs : List Char) : NoCloser (Text.breakClosers cs) := by
  have hhead : ∀ cs, (Text.breakClosers cs).head? = cs.head? := by
    intro cs
    fun_cases Text.breakClosers cs <;> rfl
  fun_induction Text.breakClosers cs with
  | case1 => exact noCloser_nil
  | case2 r ih => simp [noCloser_cons_iff, ih]
  | case3 c r hcloser ih =>
    refine noCloser_cons_iff.2 ⟨fun ⟨hc, hr⟩ => ?_, ih⟩
    rw [hhead] at hr
    cases r with
    | nil => cases hr
    | cons d r =>
      obtain rfl : d = '/' := by simpa using hr
      exact hcloser r hc rfl

theorem noCloser_squeezeFrom {cs : List Char} (h : NoCloser cs) (inRun : Bool) :
    NoCloser (Text.squeezeFrom inRun cs) := by
  have hhead : ∀ cs, (Text.squeezeFrom false cs).head? = some '/' → cs.head? = some '/' := by
    intro cs hcs
    cases cs with
    | nil => cases hcs
    | cons c r =>
      rw [Text.squeezeFrom] at hcs
      split at hcs
      · simp at hcs
      · simpa using hcs
  induction cs generalizing inRun with
  | nil => exact noCloser_nil
  | cons c r ih =>
    obtain ⟨hc, hr⟩ := noCloser_cons_iff.1 h
    rw [Text.squeezeFrom]
    split_ifs
    · exact ih hr true
    · simp [noCloser_cons_iff, ih hr true]
    · refine noCloser_cons_iff.2 ⟨fun ⟨hc', hr'⟩ => hc ⟨hc', hhead r hr'⟩, ih hr false⟩

theorem trim_isInfix (cs : List Char) : Text.trim cs <:+: cs := by
  have hleft : ∀ cs, Text.trimLeft cs <:+ cs := fun cs => List.dropWhile_suffix _
  have hright : Text.trimRight (Text.trimLeft cs) <+: Text.trimLeft cs := by
    have h := hleft (Text.trimLeft cs).reverse
    rwa [← List.reverse_prefix, List.reverse_reverse] at h
  exact hright.isInfix.trans (hleft cs).isInfix

/-- A description cannot end the comment it stands in. -/
theorem noCloser_commentText (description : Option String) :
    NoCloser (Text.commentText description).toList := by
  have h := noCloser_squeezeFrom (noCloser_breakClosers (description.getD "").toList) false
  intro hcloser
  rw [Text.commentText, String.toList_ofList] at hcloser
  exact h (hcloser.trans (trim_isInfix _))

theorem behindComment_append {a : List Char} (h : NoCloser (a ++ ['*'])) (r : List Char) :
    behindComment (a ++ '*' :: '/' :: r) = r := by
  induction a with
  | nil => rfl
  | cons c a ih =>
    obtain ⟨hc, ha⟩ := noCloser_cons_iff.1 h
    have hrest : (c :: a) ++ '*' :: '/' :: r = c :: (a ++ '*' :: '/' :: r) := rfl
    rw [hrest, behindComment, ih ha]
    intro r' hc' hr'
    cases a with
    | nil => simp at hr'
    | cons d a =>
      obtain ⟨rfl, -⟩ : d = '/' ∧ _ := by simpa using hr'
      exact hc ⟨hc', rfl⟩

theorem noCloser_append_space_star {cs : List Char} (h : NoCloser cs) :
    NoCloser (cs ++ [' ', '*']) := by
  induction cs with
  | nil => simp [noCloser_cons_iff, noCloser_nil]
  | cons c r ih =>
    obtain ⟨hc, hr⟩ := noCloser_cons_iff.1 h
    refine noCloser_cons_iff.2 ⟨fun ⟨hc', hr'⟩ => ?_, ih hr⟩
    cases r with
    | nil => simp at hr'
    | cons d r => exact hc ⟨hc', by simpa using hr'⟩

/-- A comment line holds nothing but its comment. -/
theorem codeOf_comment (description : Option String) :
    codeOf (Line.comment (Text.commentText description)).text.toList = [] := by
  have htext : (Line.comment (Text.commentText description)).text.toList =
      '/' :: '*' :: ('*' :: ' ' :: (Text.commentText description).toList ++ [' '] ++
        '*' :: '/' :: []) := by
    simp [Line.comment]
  rw [htext, codeOf, behindComment_append]
  have h := noCloser_append_space_star (noCloser_commentText description)
  simpa [noCloser_cons_iff] using h

theorem codeOf_eq_self {cs : List Char} (h : cs.head? ≠ some '/') : codeOf cs = cs := by
  unfold codeOf
  split <;> simp_all

end ResolverKit.Code
