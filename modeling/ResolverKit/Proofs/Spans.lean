import ResolverKit.Proofs.CleanPlans
import ResolverKit.Proofs.Rereading

/-!
# How the lexer cuts a text

The lexer takes a text in spans: a character between tokens, a comment from its hash to the end of
the row, or a token.  `Cut` says what the spans of a text are, `spans` finds them:

    Cut before cs ss → ss.flatMap (·.chars) = cs                                (Cut.flatMap_chars)
    Cut before cs ss → tokensFrom _ cs = ss.filterMap Span.token? ++ [the end]   (Cut.tokensFrom_eq)
    (∀ e, .broken e ∉ tokens text) → Cut [] text.toList (spans text)                (cut_spansFrom)
    parse text = .ok d → .broken e ∉ tokens text                          (broken_not_mem_of_parse)

A token has no blanks in it, unless it is a string, which stands between two quotation marks
(`exists_of_lexeme`).
-/

namespace ResolverKit.Sdl

open Text (isBlank)

/-! ## Numbers -/

theorem Numeral.IsValid.chars_ne_nil {x : Numeral} (h : x.IsValid) : x.chars ≠ [] := by
  have hwhole : x.whole ≠ [] := by
    rcases h.whole with hw | ⟨hw, -⟩
    · rw [hw]
      exact List.cons_ne_nil _ _
    · exact hw.1
  simp [Numeral.chars, hwhole]

theorem Numeral.lexeme_ne_endOfText (x : Numeral) : x.lexeme ≠ .endOfText := by
  unfold Numeral.lexeme
  split <;> nofun

theorem not_isBlank_of_all {cs : List Char} (h : cs.all (!isBlank ·) = true) :
    ∀ c ∈ cs, isBlank c = false := by simpa using h

theorem not_isBlank_of_mem_numeral {x : Numeral} (h : x.IsValid) :
    ∀ c ∈ x.chars, isBlank c = false := by
  have hdigits {ds : List Char} (hds : IsDigits ds) : ∀ c ∈ ds, isBlank c = false := fun c hc =>
    Code.not_isBlank_of_isNameContinue (isNameContinue_of_isDigit (hds.2 c hc))
  obtain ⟨sign, whole, fraction, exponent⟩ := x
  obtain ⟨hsign, hwhole, hfraction, hexponent⟩ := h
  dsimp only at hsign hwhole hfraction hexponent
  simp only [Numeral.chars, List.forall_mem_append]
  refine ⟨⟨⟨?_, ?_⟩, ?_⟩, ?_⟩
  · rcases hsign with rfl | rfl <;> exact not_isBlank_of_all rfl
  · rcases hwhole with rfl | ⟨hds, -⟩
    · exact not_isBlank_of_all rfl
    · exact hdigits hds
  · rcases hfraction with rfl | ⟨ds, hds, rfl⟩
    · exact not_isBlank_of_all rfl
    · exact List.forall_mem_cons.2 ⟨rfl, hdigits hds⟩
  · rcases hexponent with rfl | ⟨mark, sign, ds, hmark, hsign, hds, rfl⟩
    · exact not_isBlank_of_all rfl
    · refine List.forall_mem_cons.2 ⟨?_, List.forall_mem_append.2 ⟨?_, hdigits hds⟩⟩
      · rcases hmark with rfl | rfl <;> rfl
      · rcases hsign with rfl | rfl | rfl <;> exact not_isBlank_of_all rfl

/-! ## Strings -/

theorem size_of_bracedDigits {room size point : Nat} {cs : List Char} {p : Nat × Nat}
    (h : bracedDigits room size point cs = .ok p) : size < p.2 := by
  fun_induction bracedDigits room size point cs with
  | case1 => cases h
  | case2 => cases h
  | case3 => cases h
  | case4 =>
    obtain rfl := Except.ok.inj h
    exact Nat.lt_succ_self _
  | case5 room size point c r _ d _ ih => exact Nat.lt_of_succ_lt (ih h)
  | case6 => cases h

/-- An escape has at least one character. -/
theorem size_of_escape {cs : List Char} {p : Char × Nat} (h : escape cs = .ok p) : 0 < p.2 := by
  unfold escape at h
  split at h
  · next r =>
    unfold bracedEscape at h
    split at h
    · next point size hdigits =>
      obtain rfl := Except.ok.inj h
      exact Nat.lt_of_le_of_lt (Nat.zero_le 3) (size_of_bracedDigits hdigits)
    · cases h
  · unfold plainUnicodeEscape at h
    dsimp only at h
    split at h
    · cases h
    · split_ifs at h
      · obtain rfl := Except.ok.inj h
        exact Nat.succ_pos 5
      · split at h
        · split_ifs at h
          obtain rfl := Except.ok.inj h
          exact Nat.succ_pos 11
        · cases h
  · split at h
    · obtain rfl := Except.ok.inj h
      exact Nat.zero_lt_two
    · cases h
  · cases h

/-- A string goes up to a quotation mark. -/
theorem exists_of_quotedChars {offset n : Nat} {cs s : List Char}
    (h : quotedChars offset cs = .ok (s, n)) :
    ∃ body behind, cs = body ++ '"' :: behind ∧ n = body.length + 1 := by
  fun_induction quotedChars offset cs generalizing s n with
  | case1 => cases h
  | case2 =>
    obtain ⟨-, rfl⟩ := Prod.mk.inj (Except.ok.inj h)
    exact ⟨[], _, rfl, rfl⟩
  | case3 => cases h
  | case4 => cases h
  | case5 offset r d size _ _ hescape ih =>
    cases hread : quotedChars (offset + size) (r.drop (size - 1)) with
    | error e =>
      rw [hread] at h
      cases h
    | ok p =>
      rw [hread] at h
      obtain ⟨-, rfl⟩ := Prod.mk.inj (Except.ok.inj h)
      obtain ⟨body, behind, hrest, hn⟩ := ih hread
      refine ⟨'\\' :: r.take (size - 1) ++ body, behind, ?_, ?_⟩
      · rw [List.append_assoc, ← hrest, List.cons_append, List.take_append_drop]
      · -- the rest holds a quotation mark, so the escape does not go beyond the text
        have hpos : 0 < size := size_of_escape hescape
        have hlength := congrArg List.length hrest
        simp only [List.length_drop, List.length_append, List.length_cons] at hlength
        simp only [List.length_append, List.length_cons, List.length_take]
        omega
  | case6 offset c r _ _ _ ih =>
    cases hread : quotedChars (offset + 1) r with
    | error e =>
      rw [hread] at h
      cases h
    | ok p =>
      rw [hread] at h
      obtain ⟨-, rfl⟩ := Prod.mk.inj (Except.ok.inj h)
      obtain ⟨body, behind, rfl, hn⟩ := ih hread
      exact ⟨c :: body, behind, rfl, by rw [hn]; rfl⟩

/-- A block string goes up to three quotation marks. -/
theorem exists_of_blockChars {offset n : Nat} {cs s : List Char}
    (h : blockChars offset cs = .ok (s, n)) :
    ∃ body behind, cs = body ++ '"' :: '"' :: '"' :: behind ∧ n = body.length + 3 := by
  fun_induction blockChars offset cs generalizing s n with
  | case1 => cases h
  | case2 =>
    obtain ⟨-, rfl⟩ := Prod.mk.inj (Except.ok.inj h)
    exact ⟨[], _, rfl, rfl⟩
  | case3 offset r ih =>
    cases hread : blockChars (offset + 4) r with
    | error e =>
      rw [hread] at h
      cases h
    | ok p =>
      rw [hread] at h
      obtain ⟨-, rfl⟩ := Prod.mk.inj (Except.ok.inj h)
      obtain ⟨body, behind, rfl, hn⟩ := ih hread
      exact ⟨'\\' :: '"' :: '"' :: '"' :: body, behind, rfl, by rw [hn]; rfl⟩
  | case4 offset c r _ _ ih =>
    cases hread : blockChars (offset + 1) r with
    | error e =>
      rw [hread] at h
      cases h
    | ok p =>
      rw [hread] at h
      obtain ⟨-, rfl⟩ := Prod.mk.inj (Except.ok.inj h)
      obtain ⟨body, behind, rfl, hn⟩ := ih hread
      exact ⟨c :: body, behind, rfl, by rw [hn]; rfl⟩

/-! ## Tokens -/

/-- The characters of a token: no blank is among them, unless it is a string and they stand between
two quotation marks. -/
def Lexeme.IsSpelled (kind : Lexeme) (cs : List Char) : Prop :=
  (∀ c ∈ cs, isBlank c = false) ∨ ∃ lit body, kind = .string lit ∧ cs = '"' :: (body ++ ['"'])

theorem not_isBlank_of_ofChar? {c : Char} {p : Punctuator} (h : Punctuator.ofChar? c = some p) :
    isBlank c = false := by
  unfold Punctuator.ofChar? at h
  split at h
  case h_14 => cases h
  all_goals decide

/-- A token takes at least one character off the front of the text. -/
theorem exists_of_lexeme {offset size : Nat} {c : Char} {r : List Char} {kind : Lexeme}
    (h : lexeme offset (c :: r) = .ok (kind, size)) :
    ∃ chars behind, r = chars ++ behind ∧ chars.length + 1 = size ∧ kind.IsSpelled (c :: chars) ∧
      kind ≠ .endOfText := by
  unfold lexeme at h
  split at h
  · next r' heq =>
    obtain ⟨rfl, rfl⟩ := List.cons.inj heq
    cases hread : blockChars (offset + 3) r' with
    | error e =>
      rw [hread] at h
      cases h
    | ok p =>
      rw [hread] at h
      obtain ⟨rfl, rfl⟩ := Prod.mk.inj (Except.ok.inj h)
      obtain ⟨body, behind, rfl, hn⟩ := exists_of_blockChars hread
      refine ⟨'"' :: '"' :: body ++ ['"', '"', '"'], behind, by simp, ?_, .inr ?_, nofun⟩
      · simp only [hn, List.length_append, List.length_cons, List.length_nil]
      · exact ⟨_, '"' :: '"' :: body ++ ['"', '"'], rfl, by simp⟩
  · next r' _ heq =>
    obtain ⟨rfl, rfl⟩ := List.cons.inj heq
    cases hread : quotedChars (offset + 1) r with
    | error e =>
      rw [hread] at h
      cases h
    | ok p =>
      rw [hread] at h
      obtain ⟨rfl, rfl⟩ := Prod.mk.inj (Except.ok.inj h)
      obtain ⟨body, behind, rfl, hn⟩ := exists_of_quotedChars hread
      refine ⟨body ++ ['"'], behind, by simp, ?_, .inr ⟨_, body, rfl, rfl⟩, nofun⟩
      simp [hn]
  · next r' heq =>
    obtain ⟨rfl, rfl⟩ := List.cons.inj heq
    obtain ⟨rfl, rfl⟩ := Prod.mk.inj (Except.ok.inj h)
    exact ⟨['.', '.'], r', rfl, rfl, .inl (not_isBlank_of_all rfl), nofun⟩
  · cases h
  · split at h <;> cases h
  · next c' r' _ _ _ _ _ heq =>
    obtain ⟨rfl, rfl⟩ := List.cons.inj heq
    split at h
    · next p hp =>
      obtain ⟨rfl, rfl⟩ := Prod.mk.inj (Except.ok.inj h)
      refine ⟨[], r, rfl, rfl, .inl ?_, nofun⟩
      simpa using not_isBlank_of_ofChar? hp
    · split_ifs at h with hdigit hstart
      · obtain ⟨x, hx, rfl, ⟨behind, hbehind⟩, rfl⟩ := number_eq_ok h
        obtain ⟨d, chars, hchars⟩ := List.exists_cons_of_ne_nil hx.chars_ne_nil
        have hblank := not_isBlank_of_mem_numeral hx
        rw [hchars] at hbehind hblank
        obtain ⟨rfl, rfl⟩ := List.cons.inj hbehind
        exact ⟨chars, behind, rfl, by rw [hchars]; rfl, .inl hblank, x.lexeme_ne_endOfText⟩
      · obtain ⟨rfl, rfl⟩ := Prod.mk.inj (Except.ok.inj h)
        have htake := List.takeWhile_cons_of_pos (l := r) (isNameContinue_of_isNameStart hstart)
        refine ⟨r.takeWhile isNameContinue, r.dropWhile isNameContinue,
          List.takeWhile_append_dropWhile.symm, by rw [htake]; rfl, .inl ?_, nofun⟩
        rw [← htake]
        exact fun x hx => Code.not_isBlank_of_isNameContinue (List.mem_takeWhile_imp hx)
  · next heq => cases heq

namespace Lexeme.IsSpelled

variable {kind : Lexeme} {c : Char} {cs : List Char}

theorem not_isBlank_head (h : kind.IsSpelled (c :: cs)) : isBlank c = false := by
  rcases h with h | ⟨lit, body, -, heq⟩
  · exact h c (.head _)
  · rw [(List.cons.inj heq).1]
    rfl

theorem exists_concat (h : kind.IsSpelled (c :: cs)) :
    ∃ front last, c :: cs = front ++ [last] ∧ isBlank last = false := by
  rcases h with h | ⟨lit, body, -, heq⟩
  · have hlast := List.dropLast_append_getLast (List.cons_ne_nil c cs)
    exact ⟨_, _, hlast.symm, h _ (List.getLast_mem _)⟩
  · exact ⟨'"' :: body, '"', heq, rfl⟩

end Lexeme.IsSpelled

theorem isSpelled_of_lexeme {offset : Nat} {c : Char} {chars behind : List Char} {kind : Lexeme}
    (h : lexeme offset (c :: chars ++ behind) = .ok (kind, chars.length + 1)) :
    kind.IsSpelled (c :: chars) := by
  obtain ⟨chars', behind', heq, hlength, hspelled, -⟩ := exists_of_lexeme h
  obtain ⟨rfl, -⟩ := List.append_inj heq (by omega)
  exact hspelled

/-! ## Spans -/

/-- What the lexer takes a span for. -/
inductive SpanKind
  | gap
  | comment
  | token (kind : Lexeme)

/-- What the lexer takes in one step, with the text before it and behind it. -/
structure Span where
  before : List Char
  kind : SpanKind
  chars : List Char
  behind : List Char

def Span.token? (s : Span) : Option Token :=
  match s.kind with
  | .token kind => some (.lexeme kind s.before.length)
  | _ => none

/-- The spans of the text `cs` that stands behind `before`, up to the first place where no token
can be read. -/
def spansFrom (before cs : List Char) : List Span :=
  match cs with
  | [] => []
  | c :: r =>
    if isIgnored c then ⟨before, .gap, [c], r⟩ :: spansFrom (before ++ [c]) r
    else if c = '#' then
      ⟨before, .comment, c :: r.takeWhile (!Text.isRowEnd ·), r.dropWhile (!Text.isRowEnd ·)⟩ ::
        spansFrom (before ++ c :: r.takeWhile (!Text.isRowEnd ·)) (r.dropWhile (!Text.isRowEnd ·))
    else
      match lexeme before.length (c :: r) with
      | .error _ => []
      | .ok (kind, size) =>
        ⟨before, .token kind, c :: r.take (size - 1), r.drop (size - 1)⟩ ::
          spansFrom (before ++ c :: r.take (size - 1)) (r.drop (size - 1))
termination_by cs.length
decreasing_by
  · simp
  · exact Nat.lt_succ_of_le (List.dropWhile_suffix _).length_le
  · simp only [List.length_cons, List.length_drop]
    omega

/-- The spans of a schema text. -/
def spans (text : String) : List Span := spansFrom [] text.toList

/-- The lexer cuts the text `cs` that stands behind `before` into these spans, up to its end. -/
inductive Cut : List Char → List Char → List Span → Prop
  | done (before : List Char) : Cut before [] []
  | gap {before r : List Char} {c : Char} {ss : List Span} :
      isIgnored c = true → Cut (before ++ [c]) r ss →
      Cut before (c :: r) (⟨before, .gap, [c], r⟩ :: ss)
  | comment {before body behind : List Char} {ss : List Span} :
      (∀ c ∈ body, Text.isRowEnd c = false) → (∀ c ∈ behind.head?, Text.isRowEnd c = true) →
      Cut (before ++ '#' :: body) behind ss →
      Cut before ('#' :: body ++ behind) (⟨before, .comment, '#' :: body, behind⟩ :: ss)
  | token {before chars behind : List Char} {c : Char} {kind : Lexeme} {ss : List Span} :
      lexeme before.length (c :: chars ++ behind) = .ok (kind, chars.length + 1) →
      Cut (before ++ c :: chars) behind ss →
      Cut before (c :: chars ++ behind) (⟨before, .token kind, c :: chars, behind⟩ :: ss)

/-- Where the lexer meets no place at which it can read no token, the spans cut the whole text. -/
theorem cut_spansFrom {before cs : List Char} (h : ∀ e, .broken e ∉ tokensFrom before.length cs) :
    Cut before cs (spansFrom before cs) := by
  fun_induction spansFrom before cs with
  | case1 before => exact .done before
  | case2 before c r hignored ih =>
    rw [tokensFrom, if_pos hignored] at h
    refine .gap hignored (ih ?_)
    rwa [List.length_append]
  | case3 before r hignored ih =>
    have hsplit : r.takeWhile (!Text.isRowEnd ·) ++ r.dropWhile (!Text.isRowEnd ·) = r :=
      List.takeWhile_append_dropWhile
    have hdrop :
        r.drop (r.takeWhile (!Text.isRowEnd ·)).length = r.dropWhile (!Text.isRowEnd ·) := by
      have hleft : (r.takeWhile (!Text.isRowEnd ·) ++ r.dropWhile (!Text.isRowEnd ·)).drop
          (r.takeWhile (!Text.isRowEnd ·)).length = r.dropWhile (!Text.isRowEnd ·) := List.drop_left
      rwa [hsplit] at hleft
    have hbody : ∀ c ∈ r.takeWhile (!Text.isRowEnd ·), Text.isRowEnd c = false := fun c hc => by
      simpa using List.mem_takeWhile_imp hc
    have hbehind : ∀ c ∈ (r.dropWhile (!Text.isRowEnd ·)).head?, Text.isRowEnd c = true := by
      intro c hc
      have hhead := List.head?_dropWhile_not (!Text.isRowEnd ·) r
      rw [hc] at hhead
      simpa using hhead
    rw [tokensFrom, if_neg hignored, if_pos rfl] at h
    dsimp only at h
    rw [hdrop] at h
    have hcut := Cut.comment hbody hbehind (ih ?_)
    · rwa [List.cons_append, hsplit] at hcut
    · rwa [List.length_append, List.length_cons, ← Nat.add_assoc]
  | case4 before c r hignored hhash e he =>
    rw [tokensFrom, if_neg hignored, if_neg hhash, he] at h
    exact absurd (List.mem_singleton_self _) (h e)
  | case5 before c r hignored hhash kind size hlexeme ih =>
    obtain ⟨chars, behind, rfl, rfl, -, -⟩ := exists_of_lexeme hlexeme
    rw [tokensFrom, if_neg hignored, if_neg hhash, hlexeme] at h
    dsimp only at h
    rw [Nat.add_sub_cancel, List.drop_left] at h ih ⊢
    rw [List.take_left] at ih ⊢
    refine .token hlexeme (ih fun e he => h e (.tail _ ?_))
    rwa [List.length_append] at he

namespace Cut

variable {before cs : List Char} {ss : List Span}

/-- Nothing is lost between the spans. -/
theorem flatMap_chars (h : Cut before cs ss) : ss.flatMap (·.chars) = cs := by
  induction h with
  | done => rfl
  | gap _ _ ih => rw [List.flatMap_cons, ih]; rfl
  | comment _ _ _ ih => rw [List.flatMap_cons, ih]
  | token _ _ ih => rw [List.flatMap_cons, ih]

/-- The spans that are tokens are the tokens of the lexer. -/
theorem tokensFrom_eq (h : Cut before cs ss) : tokensFrom before.length cs =
    ss.filterMap Span.token? ++ [.lexeme .endOfText (before ++ cs).length] := by
  induction h with
  | done before => rw [tokensFrom, List.append_nil]; rfl
  | @gap before r c ss hignored _ ih =>
    rw [List.length_append, List.append_assoc] at ih
    rw [tokensFrom, if_pos hignored]
    exact ih
  | @comment before body behind ss hbody hbehind _ ih =>
    have htake : (body ++ behind).takeWhile (!Text.isRowEnd ·) = body := by
      rw [List.takeWhile_append_of_pos fun c hc => by simp [hbody c hc]]
      cases behind with
      | nil => exact List.append_nil body
      | cons c r => rw [List.takeWhile_cons_of_neg (by simp [hbehind c rfl]), List.append_nil]
    rw [List.length_append, List.append_assoc] at ih
    rw [List.cons_append, tokensFrom, if_neg (by decide), if_pos rfl]
    dsimp only
    rw [htake, List.drop_left]
    exact ih
  | @token before chars behind c kind ss hlexeme _ ih =>
    obtain ⟨hignored, hhash⟩ := front_of_lexeme_eq_ok hlexeme
    rw [List.length_append, List.append_assoc] at ih
    rw [List.cons_append] at hlexeme ⊢
    rw [tokensFrom, if_neg (by simp [hignored]), if_neg hhash, hlexeme]
    dsimp only
    rw [Nat.add_sub_cancel, List.drop_left]
    exact congrArg (.lexeme kind before.length :: ·) ih

end Cut

/-! ## Texts that parse -/

/-- Behind a broken token the text is not read, so that its end is not reached. -/
theorem endOfText_not_mem {offset o : Nat} {cs : List Char} {e : SyntaxError}
    (h : .broken e ∈ tokensFrom offset cs) : .lexeme .endOfText o ∉ tokensFrom offset cs := by
  fun_induction tokensFrom offset cs with
  | case1 => simp at h
  | case2 offset c r _ ih => exact ih h
  | case3 offset r size _ ih => exact ih h
  | case4 => simp
  | case5 offset c r _ _ kind size hlexeme ih =>
    obtain ⟨-, -, -, -, -, hkind⟩ := exists_of_lexeme hlexeme
    have hrest := ih ((List.mem_cons.1 h).resolve_left (by simp))
    intro hmem
    rcases List.mem_cons.1 hmem with heq | hmem
    · exact hkind (Token.lexeme.inj heq).1.symm
    · exact hrest hmem

/-- A broken token behind the front stays there, because it cannot come to the front. -/
theorem Advanced.broken_mem_tail {ts rest : List Token} {e : SyntaxError} (h : Advanced ts rest)
    (he : .broken e ∈ ts.tail) : .broken e ∈ rest.tail := by
  induction h with
  | refl => exact he
  | @tail rest _ hfront ih =>
    cases htail : rest.tail with
    | nil =>
      rw [htail] at ih
      exact absurd ih List.not_mem_nil
    | cons t r =>
      rw [htail] at ih
      refine (List.mem_cons.1 ih).resolve_left ?_
      rintro rfl
      exact hfront e r htail

namespace Reader

/-- The definitions of a document go on to the end of the text. -/
theorem peek_of_definitionsFrom {ts rest : List Token} {d : Document} (hts : Sound ts)
    (h : definitionsFrom ts = .ok (d, rest)) : peek rest = .ok (.endOfText, rest) := by
  fun_induction definitionsFrom ts generalizing d rest with
  | case1 => cases h
  | case2 ts rest' hpeek =>
    cases h
    obtain ⟨rfl, -⟩ := peek_eq_ok hpeek
    exact hpeek
  | case3 => cases h
  | case4 => cases h
  | case5 ts _ _ _ x rest' hx _ ds rest'' hds ih =>
    cases h
    exact ih ((takes_definition ts x rest' hts hx).2.1.sound hts) hds
  | case6 ts p hne hpeek x rest' hx hlength =>
    -- a definition takes a token, if there are any
    have htakes := (takes_definition ts x rest' hts hx).2.2
    obtain rfl : ts = [] := List.eq_nil_of_length_eq_zero (by omega)
    cases hpeek
    exact absurd rfl (hne _)

end Reader

/-- In a text that parses the lexer meets no place where it can read no token. -/
theorem broken_not_mem_of_parse {text : String} {d : Document} (h : parse text = .ok d)
    (e : SyntaxError) : .broken e ∉ tokens text := by
  unfold parse at h
  cases hread : Reader.document.run (tokens text) with
  | error e =>
    rw [hread] at h
    cases h
  | ok p =>
    obtain ⟨d', rest⟩ := p
    obtain ⟨x, mid, hx, hmore⟩ := Reader.bind_eq_ok hread
    obtain ⟨ds, rest', hds, hrest⟩ := Reader.bind_eq_ok hmore
    obtain rfl : rest' = rest := (Prod.mk.inj (Except.ok.inj hrest)).2
    have hsound : Sound (tokens text) := sound_tokensFrom 0 text.toList
    obtain ⟨-, hmid, -⟩ := Reader.takes_definition _ _ _ hsound hx
    have hadvanced := hmid.trans (Reader.yields_definitionsFrom _ _ _ (hmid.sound hsound) hds).2
    have hpeek := Reader.peek_of_definitionsFrom (hmid.sound hsound) hds
    intro he
    -- the first definition has looked at the token in front
    have htail : .broken e ∈ (tokens text).tail := by
      obtain ⟨_, _, hfront, -⟩ := Reader.bind_eq_ok hx
      cases htokens : tokens text with
      | nil =>
        rw [htokens] at he
        exact absurd he List.not_mem_nil
      | cons t r =>
        rw [htokens] at he hfront
        refine (List.mem_cons.1 he).resolve_left ?_
        rintro rfl
        cases hfront
    have hlast := hadvanced.broken_mem_tail htail
    -- the token at which the reader has stopped is not the end
    cases rest' with
    | nil => exact absurd hlast List.not_mem_nil
    | cons t r =>
      cases t with
      | broken e' => cases hpeek
      | lexeme kind offset =>
        obtain rfl : kind = .endOfText := (Prod.mk.inj (Except.ok.inj hpeek)).1
        exact endOfText_not_mem he (hadvanced.subset (.head r))

end ResolverKit.Sdl
