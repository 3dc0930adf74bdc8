import ResolverKit.Proofs.Brackets

/-!
# Which characters of a line are code

The target languages read a line character by character, and `Mode` is what they have to remember:
whether they are in code, in a literal or in a comment, and whether the character before means
something together with the next one.  The brackets that a layout counts are those read in code:

    bracketDelta line = openers of codeChars line - closers of codeChars line
                                                                   (bracketDelta_eq_codeChars)

The count looks two characters ahead and skips what belongs together.  So it forgets a slash in code
and a star in a comment, but only where the next character does nothing with it (`codeFrom_slash`,
`codeFrom_star`).
-/

namespace ResolverKit.Code

/-! ## Reading character by character -/

/-- What is known of the line in front of a character: it goes on in code, perhaps behind a slash
that may start a comment; in a literal, perhaps behind a backslash; in a comment to the end of the
line; or in a comment that is closed, perhaps behind a star that may close it. -/
inductive Mode
  | code
  | slash
  | literal (quote : Char)
  | escaped (quote : Char)
  | lineComment
  | comment
  | star
  deriving DecidableEq, Repr

/-- The mode behind a character.  The star that opens a comment does not close it, and nothing but
its own end leads out of a literal or a comment. -/
def Mode.next : Mode → Char → Mode
  | .code, c => if isQuote c then .literal c else if c = '/' then .slash else .code
  | .slash, c =>
    if isQuote c then .literal c else if c = '/' then .lineComment
    else if c = '*' then .comment else .code
  | .literal q, c => if c = '\\' then .escaped q else if c = q then .code else .literal q
  | .escaped q, _ => .literal q
  | .lineComment, _ => .lineComment
  | .comment, c => if c = '*' then .star else .comment
  | .star, c => if c = '/' then .code else if c = '*' then .star else .comment

/-- A character that is read in this mode is code. -/
def Mode.isCode : Mode → Bool
  | .code | .slash => true
  | _ => false

/-- The characters that are code in a line that starts in this mode. -/
def codeFrom (m : Mode) (line : List Char) : List Char :=
  ((line.zip (line.scanl Mode.next m)).filter (·.2.isCode)).map (·.1)

def codeChars (line : List Char) : List Char := codeFrom .code line

/-! ## One character -/

variable {c : Char} {m : Mode}

@[simp] theorem codeFrom_nil (m : Mode) : codeFrom m [] = [] := rfl

theorem codeFrom_cons_of_isCode (h : m.isCode = true) (c : Char) (r : List Char) :
    codeFrom m (c :: r) = c :: codeFrom (m.next c) r := by
  simp [codeFrom, List.scanl_cons, h]

theorem codeFrom_cons_of_not_isCode (h : m.isCode = false) (c : Char) (r : List Char) :
    codeFrom m (c :: r) = codeFrom (m.next c) r := by
  simp [codeFrom, List.scanl_cons, h]

theorem codeFrom_lineComment (r : List Char) : codeFrom .lineComment r = [] := by
  induction r with
  | nil => rfl
  | cons c r ih => rw [codeFrom_cons_of_not_isCode rfl, Mode.next, ih]

/-- A slash means nothing to a character that starts no comment with it. -/
theorem codeFrom_slash {r : List Char} (hslash : r.head? ≠ some '/') (hstar : r.head? ≠ some '*') :
    codeFrom .slash r = codeFrom .code r := by
  cases r with
  | nil => rfl
  | cons c r =>
    have hslash : c ≠ '/' := fun h => hslash (congrArg some h)
    have hstar : c ≠ '*' := fun h => hstar (congrArg some h)
    rw [codeFrom_cons_of_isCode rfl, codeFrom_cons_of_isCode rfl, Mode.next, Mode.next,
      if_neg hslash, if_neg hstar, if_neg hslash]

/-- A star in a comment means nothing to a character that does not close the comment with it. -/
theorem codeFrom_star {r : List Char} (h : r.head? ≠ some '/') :
    codeFrom .star r = codeFrom .comment r := by
  cases r with
  | nil => rfl
  | cons c r =>
    have h : c ≠ '/' := fun hc => h (congrArg some hc)
    rw [codeFrom_cons_of_not_isCode rfl, codeFrom_cons_of_not_isCode rfl, Mode.next, Mode.next,
      if_neg h]

/-- A character of code behind which code goes on. -/
theorem codeFrom_code_cons {r : List Char} (hquote : isQuote c = false)
    (hline : ∀ r', c = '/' → r ≠ '/' :: r') (hcomment : ∀ r', c = '/' → r ≠ '*' :: r') :
    codeFrom .code (c :: r) = c :: codeFrom .code r := by
  rw [codeFrom_cons_of_isCode rfl, Mode.next, hquote, if_neg Bool.false_ne_true]
  split_ifs with hslash
  · have hhead : ∀ d, r.head? = some d → ∃ r', r = d :: r' := fun d hd =>
      ⟨r.tail, (List.cons_head?_tail hd).symm⟩
    rw [codeFrom_slash]
    · intro h
      obtain ⟨r', hr⟩ := hhead _ h
      exact hline r' hslash hr
    · intro h
      obtain ⟨r', hr⟩ := hhead _ h
      exact hcomment r' hslash hr
  · rfl

/-! ## Brackets -/

theorem not_isBracket_of_isQuote (h : isQuote c = true) :
    isOpener c = false ∧ isCloser c = false := by
  simp only [isQuote, Bool.or_eq_true, beq_iff_eq] at h
  rcases h with (rfl | rfl) | rfl <;> exact ⟨rfl, rfl⟩

theorem weight_cons_of_isOpener (h : isOpener c = true) (r : List Char) :
    weight (c :: r) = 1 + weight r := by
  rw [weight, weight, List.countP_cons_of_pos h,
    List.countP_cons_of_neg (by simp [isCloser_of_isOpener h])]
  omega

theorem weight_cons_of_isCloser (hopen : isOpener c = false) (hclose : isCloser c = true)
    (r : List Char) : weight (c :: r) = weight r - 1 := by
  rw [weight, weight, List.countP_cons_of_neg (by simp [hopen]), List.countP_cons_of_pos hclose]
  omega

theorem weight_cons_of_not_isBracket (h : isOpener c = false ∧ isCloser c = false)
    (r : List Char) : weight (c :: r) = weight r := by
  rw [weight, weight, List.countP_cons_of_neg (by simp [h.1]),
    List.countP_cons_of_neg (by simp [h.2])]

/-- The mode in which a region starts. -/
def Region.mode : Region → Mode
  | .code => .code
  | .quoted q => .literal q
  | .comment => .comment

/-- The brackets that count from here on are those that are read in code.  Each case is one turn of
the scan; the turns that take two characters pass through a mode that no region starts in. -/
theorem bracketsFrom_eq_weight (region : Region) (line : List Char) :
    bracketsFrom region line = weight (codeFrom region.mode line) := by
  fun_induction bracketsFrom region line with
  | case1 region => rfl
  | case2 q c r ih =>
    rw [ih, Region.mode, codeFrom_cons_of_not_isCode rfl, Mode.next, if_pos rfl,
      codeFrom_cons_of_not_isCode rfl, Mode.next]
  | case3 q => rfl
  | case4 q c r hescape ih =>
    rw [ih, Region.mode, codeFrom_cons_of_not_isCode rfl, Mode.next, if_neg hescape]
    split_ifs <;> rfl
  | case5 r ih =>
    rw [ih, Region.mode, Region.mode, codeFrom_cons_of_not_isCode rfl, Mode.next, if_pos rfl,
      codeFrom_cons_of_not_isCode rfl, Mode.next, if_pos rfl]
  | case6 c r hclose ih =>
    rw [ih, Region.mode, codeFrom_cons_of_not_isCode rfl, Mode.next]
    split_ifs with hstar
    · rw [codeFrom_star]
      exact fun h => hclose r.tail hstar (List.cons_head?_tail h).symm
    · rfl
  | case7 r =>
    rw [Region.mode, codeFrom_cons_of_isCode rfl, codeFrom_cons_of_isCode rfl]
    exact (congrArg (fun cs => weight ('/' :: '/' :: cs)) (codeFrom_lineComment r)).symm
  | case8 r ih =>
    rw [ih, Region.mode, Region.mode, codeFrom_cons_of_isCode rfl, codeFrom_cons_of_isCode rfl]
    rfl
  | case9 c r _ _ hquote ih =>
    rw [ih, Region.mode, Region.mode, codeFrom_cons_of_isCode rfl, Mode.next, if_pos hquote,
      weight_cons_of_not_isBracket (not_isBracket_of_isQuote hquote)]
  | case10 c r hline hcomment hquote hopen ih =>
    rw [ih, Region.mode, codeFrom_code_cons (by simpa using hquote) hline hcomment,
      weight_cons_of_isOpener hopen]
  | case11 c r hline hcomment hquote hopen hclose ih =>
    rw [ih, Region.mode, codeFrom_code_cons (by simpa using hquote) hline hcomment,
      weight_cons_of_isCloser (by simpa using hopen) hclose]
  | case12 c r hline hcomment hquote hopen hclose ih =>
    rw [ih, Region.mode, codeFrom_code_cons (by simpa using hquote) hline hcomment,
      weight_cons_of_not_isBracket ⟨by simpa using hopen, by simpa using hclose⟩]

/-- The scan takes at least one character at every turn, so it ends on every line; and it counts the
opening less the closing brackets that are code. -/
theorem bracketDelta_eq_codeChars (line : List Char) :
    bracketDelta line =
      ((codeChars line).countP isOpener : Int) - (codeChars line).countP isCloser :=
  bracketsFrom_eq_weight .code line

example : bracketDelta "f(/*/[*/ '\\'[', 1/2[ // (".toList = 2 := by decide +kernel

end ResolverKit.Code
