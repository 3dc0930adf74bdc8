import ResolverKit.Proofs.BlockStrings
import ResolverKit.Proofs.Names

/-!
# Lexemes

What the lexer gives is a name, a number in its four parts, or a string whose value comes from rows,
if it is no sign (`Lexeme.IsSound`).  A lexeme of this kind is read off its print wherever something
new starts behind it (`Stops`), at any indentation.

    lexeme offset cs = .ok (l, size) → l.IsSound                             (isSound_of_lexeme)
    l.IsSound → l.IsReadOff (spread n l.print.toList)                   (Lexeme.IsSound.isReadOff)
-/

namespace ResolverKit.Sdl

/-! ## Where lexemes end -/

/-- Behind any lexeme this text starts something new. -/
def Stops (r : List Char) : Prop :=
  ∀ c ∈ r.head?, isNameContinue c = false ∧ c ≠ '.' ∧ c ≠ '"'

def NoDigit (r : List Char) : Prop := ∀ c ∈ r.head?, c.isDigit = false

theorem isNameContinue_of_isDigit {c : Char} (h : c.isDigit = true) : isNameContinue c = true := by
  simp [isNameContinue, Char.isAlphanum, h]

theorem isDigit_eq_false_of_not_isNameContinue {c : Char} (h : isNameContinue c = false) :
    c.isDigit = false := by
  by_contra hdigit
  rw [isNameContinue_of_isDigit (by simpa using hdigit)] at h
  cases h

theorem Stops.noDigit {r : List Char} (h : Stops r) : NoDigit r := fun c hc =>
  isDigit_eq_false_of_not_isNameContinue (h c hc).1

theorem isDigit_eq_false_of_isNameStart {c : Char} (h : isNameStart c = true) :
    c.isDigit = false := by
  by_contra hdigit
  unfold isNameStart Char.isAlpha Char.isUpper Char.isLower at h
  simp only [Bool.or_eq_true, Bool.and_eq_true, decide_eq_true_eq, beq_iff_eq,
    UInt32.le_iff_toNat_le] at h
  simp only [Char.isDigit, Bool.not_eq_false, Bool.and_eq_true, decide_eq_true_eq,
    UInt32.le_iff_toNat_le] at hdigit
  rcases h with (h | h) | rfl
  · have h1 : (65 : UInt32).toNat = 65 := rfl
    have h2 : (57 : UInt32).toNat = 57 := rfl
    simp at h hdigit
    omega
  · simp at h hdigit
    omega
  · revert hdigit
    decide

theorem isName_takeWhile {c : Char} {r : List Char} (h : isNameStart c = true) :
    IsName (String.ofList ((c :: r).takeWhile isNameContinue)) := by
  unfold IsName
  rw [String.toList_ofList]
  refine ⟨?_, List.all_takeWhile⟩
  rw [List.takeWhile_cons_of_pos (isNameContinue_of_isNameStart h)]
  simpa using h

/-! ## Numbers -/

/-- One digit or more. -/
def IsDigits (ds : List Char) : Prop := ds ≠ [] ∧ ∀ c ∈ ds, c.isDigit = true

/-- The digits before the fraction. -/
def IsWhole (w : List Char) : Prop := w = ['0'] ∨ (IsDigits w ∧ w.head? ≠ some '0')

/-- A fraction with its point, or none. -/
def IsFraction (f : List Char) : Prop := f = [] ∨ ∃ ds, IsDigits ds ∧ f = '.' :: ds

/-- An exponent with its mark and perhaps a sign, or none. -/
def IsExponent (e : List Char) : Prop :=
  e = [] ∨ ∃ mark sign ds, (mark = 'e' ∨ mark = 'E') ∧ (sign = [] ∨ sign = ['+'] ∨ sign = ['-']) ∧
    IsDigits ds ∧ e = mark :: (sign ++ ds)

theorem digitRun_eq_ok {offset : Nat} {cs ds : List Char} (h : digitRun offset cs = .ok ds) :
    IsDigits ds := by
  unfold digitRun at h
  split at h
  · cases h
  · next hne =>
    obtain rfl := Except.ok.inj h
    exact ⟨hne, fun c hc => List.mem_takeWhile_imp hc⟩

theorem digitRun_append {ds r : List Char} (h : IsDigits ds) (hr : NoDigit r) (offset : Nat) :
    digitRun offset (ds ++ r) = .ok ds := by
  have htake : (ds ++ r).takeWhile Char.isDigit = ds := by
    rw [List.takeWhile_append_of_pos h.2]
    have hrest : r.takeWhile Char.isDigit = [] := by
      cases r with
      | nil => rfl
      | cons c r => exact List.takeWhile_cons_of_neg (by simp [hr c rfl])
    rw [hrest, List.append_nil]
  unfold digitRun
  rw [htake]
  split
  · exact absurd rfl h.1
  · rfl

theorem wholePart_eq_ok {offset : Nat} {cs w : List Char} (h : wholePart offset cs = .ok w) :
    IsWhole w := by
  unfold wholePart at h
  split at h
  · split at h
    · cases h
    · obtain rfl := Except.ok.inj h
      exact .inl rfl
  · next hzero =>
    -- the digits start with a zero only if there are no others
    refine (em (w.head? = some '0')).imp (fun hw => ?_) fun hw => ⟨digitRun_eq_ok h, hw⟩
    unfold digitRun at h
    split at h
    · cases h
    · obtain rfl := Except.ok.inj h
      cases cs with
      | nil => cases hw
      | cons c r =>
        obtain rfl : c = '0' := by
          by_cases hc : c.isDigit = true
          · simpa [hc] using hw
          · simp [hc] at hw
        cases r with
        | nil => rfl
        | cons c r => exact absurd rfl (hzero c r)

theorem wholePart_append {w r : List Char} (h : IsWhole w) (hr : NoDigit r) (offset : Nat) :
    wholePart offset (w ++ r) = .ok w := by
  rcases h with rfl | ⟨hdigits, hzero⟩
  · cases r with
    | nil => rfl
    | cons c r => simp [wholePart, hr c rfl]
  · obtain ⟨d, w, rfl⟩ := List.exists_cons_of_ne_nil hdigits.1
    rw [wholePart]
    · exact digitRun_append hdigits hr offset
    · rintro c r' hc
      exact hzero (by rw [(List.cons.inj hc).1]; rfl)

theorem fractionPart_eq_ok {offset : Nat} {cs f : List Char} (h : fractionPart offset cs = .ok f) :
    IsFraction f := by
  unfold fractionPart at h
  split at h
  · next r =>
    cases hrun : digitRun (offset + 1) r with
    | error e =>
      rw [hrun] at h
      cases h
    | ok ds =>
      rw [hrun] at h
      exact .inr ⟨ds, digitRun_eq_ok hrun, (Except.ok.inj h).symm⟩
  · exact .inl (Except.ok.inj h).symm

theorem fractionPart_append {f r : List Char} (h : IsFraction f) (hr : NoDigit r)
    (hpoint : r.head? ≠ some '.') (offset : Nat) : fractionPart offset (f ++ r) = .ok f := by
  rcases h with rfl | ⟨ds, hds, rfl⟩
  · rw [List.nil_append, fractionPart]
    rintro r' rfl
    exact hpoint rfl
  · rw [List.cons_append, fractionPart, digitRun_append hds hr]
    rfl

theorem map_append_digitRun_eq_ok (front : List Char) {offset : Nat} {cs e : List Char}
    (h : (digitRun offset cs).map (front ++ ·) = .ok e) :
    ∃ ds, IsDigits ds ∧ e = front ++ ds := by
  cases hrun : digitRun offset cs with
  | error _ =>
    rw [hrun] at h
    cases h
  | ok ds =>
    rw [hrun] at h
    exact ⟨ds, digitRun_eq_ok hrun, (Except.ok.inj h).symm⟩

theorem exponentPart_eq_ok {offset : Nat} {cs e : List Char} (h : exponentPart offset cs = .ok e) :
    IsExponent e := by
  unfold exponentPart at h
  split at h
  · next c r =>
    split at h
    · next hmark =>
      have hmark : c = 'e' ∨ c = 'E' := by simpa using hmark
      split at h
      · next s r' =>
        split at h
        · next hsign =>
          obtain ⟨ds, hds, rfl⟩ := map_append_digitRun_eq_ok [c, s] h
          refine .inr ⟨c, [s], ds, hmark, ?_, hds, rfl⟩
          simpa using hsign
        · obtain ⟨ds, hds, rfl⟩ := map_append_digitRun_eq_ok [c] h
          exact .inr ⟨c, [], ds, hmark, .inl rfl, hds, rfl⟩
      · obtain ⟨ds, hds, rfl⟩ := map_append_digitRun_eq_ok [c] h
        exact .inr ⟨c, [], ds, hmark, .inl rfl, hds, rfl⟩
    · exact .inl (Except.ok.inj h).symm
  · exact .inl (Except.ok.inj h).symm

theorem exponentPart_append {e r : List Char} (h : IsExponent e) (hr : NoDigit r)
    (hmark : ∀ c ∈ r.head?, c ≠ 'e' ∧ c ≠ 'E') (offset : Nat) :
    exponentPart offset (e ++ r) = .ok e := by
  rcases h with rfl | ⟨mark, sign, ds, hm, hsign, hds, rfl⟩
  · cases r with
    | nil => rfl
    | cons c r =>
      obtain ⟨h1, h2⟩ := hmark c rfl
      simp [exponentPart, h1, h2]
  · have hm : (decide (mark = 'e') || decide (mark = 'E')) = true := by simpa using hm
    obtain ⟨d, ds, rfl⟩ := List.exists_cons_of_ne_nil hds.1
    have hd : d ≠ '+' ∧ d ≠ '-' := by
      have hdigit := hds.2 d (.head _)
      constructor <;> rintro rfl <;> cases hdigit
    rcases hsign with rfl | rfl | rfl
    · simp only [List.nil_append, List.cons_append, exponentPart, hm, if_true, hd.1, hd.2,
        decide_false, Bool.or_false, Bool.false_eq_true, if_false]
      rw [← List.cons_append, digitRun_append hds hr]
      rfl
    · simp only [List.cons_append, List.nil_append, exponentPart, hm, if_true]
      rw [if_pos (by decide), ← List.cons_append, digitRun_append hds hr]
      rfl
    · simp only [List.cons_append, List.nil_append, exponentPart, hm, if_true]
      rw [if_pos (by decide), ← List.cons_append, digitRun_append hds hr]
      rfl

theorem prefix_of_digitRun {offset : Nat} {cs ds : List Char} (h : digitRun offset cs = .ok ds) :
    ds <+: cs := by
  unfold digitRun at h
  split at h
  · cases h
  · obtain rfl := Except.ok.inj h
    exact List.takeWhile_prefix _

theorem prefix_of_wholePart {offset : Nat} {cs w : List Char} (h : wholePart offset cs = .ok w) :
    w <+: cs := by
  unfold wholePart at h
  split at h
  · split at h
    · cases h
    · obtain rfl := Except.ok.inj h
      simp
  · exact prefix_of_digitRun h

theorem prefix_of_map_digitRun (front : List Char) {offset : Nat} {cs e : List Char}
    (h : (digitRun offset cs).map (front ++ ·) = .ok e) : e <+: front ++ cs := by
  cases hrun : digitRun offset cs with
  | error _ =>
    rw [hrun] at h
    cases h
  | ok ds =>
    rw [hrun] at h
    obtain rfl := Except.ok.inj h
    exact (List.prefix_append_right_inj front).2 (prefix_of_digitRun hrun)

theorem prefix_of_fractionPart {offset : Nat} {cs f : List Char}
    (h : fractionPart offset cs = .ok f) : f <+: cs := by
  unfold fractionPart at h
  split at h
  · exact prefix_of_map_digitRun ['.'] h
  · obtain rfl := Except.ok.inj h
    exact List.nil_prefix

theorem prefix_of_exponentPart {offset : Nat} {cs e : List Char}
    (h : exponentPart offset cs = .ok e) : e <+: cs := by
  unfold exponentPart at h
  split at h
  · next c r =>
    split at h
    · split at h
      · next s r' =>
        split at h
        · exact prefix_of_map_digitRun [c, s] h
        · exact prefix_of_map_digitRun [c] h
      · exact prefix_of_map_digitRun [c] h
    · obtain rfl := Except.ok.inj h
      exact List.nil_prefix
  · obtain rfl := Except.ok.inj h
    exact List.nil_prefix

/-- A part that stands behind others lengthens what was read. -/
theorem append_prefix_of_drop {a b cs : List Char} (ha : a <+: cs) (hb : b <+: cs.drop a.length) :
    a ++ b <+: cs := by
  obtain ⟨r, rfl⟩ := ha
  rw [List.drop_left] at hb
  exact (List.prefix_append_right_inj a).2 hb

/-- The spelling of a number in its four parts. -/
structure Numeral where
  sign : List Char
  whole : List Char
  fraction : List Char
  exponent : List Char

namespace Numeral

def chars (x : Numeral) : List Char := x.sign ++ x.whole ++ x.fraction ++ x.exponent

def lexeme (x : Numeral) : Lexeme :=
  if x.fraction.isEmpty && x.exponent.isEmpty then .int (String.ofList x.chars)
  else .float (String.ofList x.chars)

/-- The parts are what their names say. -/
structure IsValid (x : Numeral) : Prop where
  sign : x.sign = [] ∨ x.sign = ['-']
  whole : IsWhole x.whole
  fraction : IsFraction x.fraction
  exponent : IsExponent x.exponent

end Numeral

/-- A number has four parts, which stand at the front of the text. -/
theorem number_eq_ok {offset : Nat} {cs : List Char} {l : Lexeme} {size : Nat}
    (h : number offset cs = .ok (l, size)) :
    ∃ x : Numeral, x.IsValid ∧ l = x.lexeme ∧ x.chars <+: cs ∧ x.chars.length = size := by
  simp only [number, bind, Except.bind] at h
  split at h
  · cases h
  next whole hwhole =>
  split at h
  · cases h
  next fraction hfraction =>
  split at h
  · cases h
  next exponent hexponent =>
  have hsign : (signPart cs = [] ∨ signPart cs = ['-']) ∧ signPart cs <+: cs := by
    unfold signPart
    split
    · exact ⟨.inr rfl, by simp⟩
    · exact ⟨.inl rfl, List.nil_prefix⟩
  have hread : l = (⟨signPart cs, whole, fraction, exponent⟩ : Numeral).lexeme ∧
      (⟨signPart cs, whole, fraction, exponent⟩ : Numeral).chars.length = size := by
    split at h
    · split at h
      · cases h
      · obtain ⟨rfl, rfl⟩ := Prod.mk.inj (Except.ok.inj h)
        exact ⟨rfl, rfl⟩
    · obtain ⟨rfl, rfl⟩ := Prod.mk.inj (Except.ok.inj h)
      exact ⟨rfl, rfl⟩
  refine ⟨⟨signPart cs, whole, fraction, exponent⟩, ⟨hsign.1, wholePart_eq_ok hwhole,
    fractionPart_eq_ok hfraction, exponentPart_eq_ok hexponent⟩, hread.1, ?_, hread.2⟩
  have htaken := append_prefix_of_drop hsign.2 (prefix_of_wholePart hwhole)
  have htaken := append_prefix_of_drop htaken (prefix_of_fractionPart hfraction)
  exact append_prefix_of_drop htaken (prefix_of_exponentPart hexponent)

theorem IsFraction.noDigit_append {f r : List Char} (h : IsFraction f) (hr : NoDigit r) :
    NoDigit (f ++ r) := by
  rcases h with rfl | ⟨ds, -, rfl⟩
  · exact hr
  · rintro c ⟨⟩
    rfl

theorem IsExponent.noDigit_append {e r : List Char} (h : IsExponent e) (hr : NoDigit r) :
    NoDigit (e ++ r) := by
  rcases h with rfl | ⟨mark, sign, ds, hmark, -, -, rfl⟩
  · exact hr
  · rintro c ⟨⟩
    rcases hmark with rfl | rfl <;> rfl

theorem IsExponent.head?_append_ne {e r : List Char} (h : IsExponent e)
    (hr : r.head? ≠ some '.') : (e ++ r).head? ≠ some '.' := by
  rcases h with rfl | ⟨mark, sign, ds, hmark, -, -, rfl⟩
  · exact hr
  · rcases hmark with rfl | rfl <;> simp

/-- No sign stands where the digits start. -/
theorem IsWhole.signPart_append {w : List Char} (h : IsWhole w) (r : List Char) :
    signPart (w ++ r) = [] := by
  rcases h with rfl | ⟨hdigits, -⟩
  · rfl
  · obtain ⟨d, w, rfl⟩ := List.exists_cons_of_ne_nil hdigits.1
    rw [List.cons_append, signPart]
    intro r' hd
    have hdigit := hdigits.2 d (.head _)
    rw [(List.cons.inj hd).1] at hdigit
    cases hdigit

/-- A number is read again wherever it stops. -/
theorem number_append {x : Numeral} (h : x.IsValid) {r : List Char} (hr : Stops r)
    (offset : Nat) : number offset (x.chars ++ r) = .ok (x.lexeme, x.chars.length) := by
  obtain ⟨sign, whole, fraction, exponent⟩ := x
  obtain ⟨hsign, hwhole, hfraction, hexponent⟩ := h
  dsimp only at hsign hwhole hfraction hexponent
  have hdot : r.head? ≠ some '.' := fun hc => (hr '.' hc).2.1 rfl
  have hmark : ∀ c ∈ r.head?, c ≠ 'e' ∧ c ≠ 'E' := by
    intro c hc
    have hname := (hr c hc).1
    constructor <;> rintro rfl <;> cases hname
  have hexponentEnd := hexponent.noDigit_append hr.noDigit
  have hfractionEnd := hfraction.noDigit_append hexponentEnd
  generalize hcs : Numeral.chars ⟨sign, whole, fraction, exponent⟩ ++ r = cs
  have hassoc : cs = sign ++ (whole ++ (fraction ++ (exponent ++ r))) := by
    rw [← hcs]
    simp [Numeral.chars]
  have hsigns : signPart cs = sign := by
    rcases hsign with rfl | rfl
    · rw [hassoc]
      exact hwhole.signPart_append _
    · rw [hassoc]
      rfl
  -- where each part starts
  have hdrop₁ : cs.drop sign.length = whole ++ (fraction ++ (exponent ++ r)) := by
    rw [hassoc, List.drop_left]
  have hdrop₂ : cs.drop (sign ++ whole).length = fraction ++ (exponent ++ r) := by
    rw [hassoc, ← List.append_assoc, List.drop_left]
  have hdrop₃ : cs.drop (sign ++ whole ++ fraction).length = exponent ++ r := by
    rw [hassoc, ← List.append_assoc, ← List.append_assoc, List.drop_left]
  have hdrop₄ : cs.drop (sign ++ whole ++ fraction ++ exponent).length = r := by
    rw [hassoc, ← List.append_assoc, ← List.append_assoc, ← List.append_assoc, List.drop_left]
  simp only [number, bind, Except.bind, hsigns, hdrop₁, hdrop₂, hdrop₃, hdrop₄,
    wholePart_append hwhole hfractionEnd,
    fractionPart_append hfraction hexponentEnd (hexponent.head?_append_ne hdot),
    exponentPart_append hexponent hr.noDigit hmark]
  cases r with
  | nil => rfl
  | cons c r =>
    obtain ⟨hname, hpoint, -⟩ := hr c rfl
    have hstart : isNameStart c = false := by
      unfold isNameContinue Char.isAlphanum at hname
      unfold isNameStart
      simp only [Bool.or_eq_false_iff] at hname ⊢
      exact ⟨hname.1.1, hname.2⟩
    simp only [hpoint, hstart, decide_false, Bool.or_false, Bool.false_eq_true, if_false]
    rfl

/-! ## Quoted strings -/

/-- A control character is written with two digits. -/
theorem hexNumber?_upperHexDigit {n : Nat} (h : n < 0xa0) :
    Text.hexNumber? ['0', '0', upperHexDigit (n / 16), upperHexDigit (n % 16)] = some n := by
  revert n
  decide +kernel

theorem fourDigits?_cons (a b c d : Char) (r : List Char) :
    fourDigits? (a :: b :: c :: d :: r) = Text.hexNumber? [a, b, c, d] := rfl

/-- The escapes of the printer are escapes of the lexer. -/
theorem escape_escapedChar (c : Char) (r : List Char) :
    escapedChar c = [c] ∧ c ≠ '"' ∧ c ≠ '\\' ∧ Text.isRowEnd c = false ∨
      ∃ s, escapedChar c = '\\' :: s ∧
        escape (escapedChar c ++ r) = .ok (c, (escapedChar c).length) := by
  unfold escapedChar
  split
  case h_8 hquote hslash _ _ hfeed _ hreturn =>
    dsimp only
    split
    · next hcontrol =>
      refine .inr ⟨_, rfl, ?_⟩
      have hlt : c.toNat < 0xa0 := by
        simp only [Bool.or_eq_true, Bool.and_eq_true, decide_eq_true_eq] at hcontrol
        omega
      have hpoint : fourDigits? ('0' :: '0' :: upperHexDigit (c.toNat / 16) ::
          upperHexDigit (c.toNat % 16) :: r) = some c.toNat := by
        rw [fourDigits?_cons, hexNumber?_upperHexDigit hlt]
      have hscalar : Text.isScalarValue c.toNat = true := by
        simp only [Text.isScalarValue, Bool.or_eq_true, decide_eq_true_eq]
        omega
      simp [escape, plainUnicodeEscape, hpoint, hscalar]
    · refine .inl ⟨rfl, hquote, hslash, ?_⟩
      simp only [Text.isRowEnd, Bool.or_eq_false_iff, beq_eq_false_iff_ne]
      exact ⟨hfeed, hreturn⟩
  all_goals exact .inr ⟨_, rfl, rfl⟩

theorem quotedChars_escapedChar (c : Char) (offset : Nat) (r : List Char) :
    quotedChars offset (escapedChar c ++ r) =
      (quotedChars (offset + (escapedChar c).length) r).map
        fun p => (c :: p.1, (escapedChar c).length + p.2) := by
  rcases escape_escapedChar c r with ⟨hplain, hquote, hslash, hrow⟩ | ⟨s, hs, hescape⟩
  · rw [hplain, List.singleton_append, quotedChars, if_neg hquote, if_neg (by simp [hrow]),
      if_neg hslash]
    cases quotedChars (offset + 1) r with
    | error e => rfl
    | ok p => simp [Except.map, Nat.add_comm]
  · rw [hs, List.cons_append] at hescape ⊢
    rw [quotedChars, if_neg (by decide), if_neg (by decide), if_pos rfl, hescape]
    simp

/-- A quoted text is read again. -/
theorem quotedChars_flatMap (cs r : List Char) (offset : Nat) :
    quotedChars offset (cs.flatMap escapedChar ++ '"' :: r) =
      .ok (cs, (cs.flatMap escapedChar).length + 1) := by
  induction cs generalizing offset with
  | nil =>
    rw [List.flatMap_nil, List.nil_append, quotedChars, if_pos rfl]
    rfl
  | cons c cs ih =>
    rw [List.flatMap_cons, List.append_assoc, quotedChars_escapedChar, ih, List.length_append]
    simp [Except.map, Nat.add_assoc]

/-! ## Single lexemes -/

/-- What the lexer sees to: names are names, numbers are spelled as numbers, and the values of block
strings come from rows. -/
def Lexeme.IsSound : Lexeme → Prop
  | .punct _ => True
  | .name n => IsName n
  | .int t => ∃ x : Numeral, x.IsValid ∧ x.lexeme = .int t
  | .float t => ∃ x : Numeral, x.IsValid ∧ x.lexeme = .float t
  | .string lit => lit.block = true → IsBlockValue lit.value
  | .endOfText => True

def Lexeme.print : Lexeme → String
  | .punct p => p.text
  | .name n => n
  | .int t => t
  | .float t => t
  | .string lit => lit.print
  | .endOfText => ""

@[simp] theorem Lexeme.print_numeral (x : Numeral) : x.lexeme.print = String.ofList x.chars := by
  unfold Numeral.lexeme
  split <;> rfl

theorem Numeral.IsValid.isSound {x : Numeral} (h : x.IsValid) : x.lexeme.IsSound := by
  cases hl : x.lexeme with
  | int t => exact ⟨x, h, hl⟩
  | float t => exact ⟨x, h, hl⟩
  | _ => unfold lexeme at hl; split at hl <;> cases hl

/-- The lexer gives nothing else. -/
theorem isSound_of_lexeme {offset : Nat} {cs : List Char} {l : Lexeme} {size : Nat}
    (h : lexeme offset cs = .ok (l, size)) : l.IsSound := by
  unfold lexeme at h
  split at h
  · next r =>
    cases hread : blockChars (offset + 3) r with
    | error e =>
      rw [hread] at h
      cases h
    | ok p =>
      rw [hread] at h
      obtain ⟨rfl, -⟩ := Prod.mk.inj (Except.ok.inj h)
      exact fun _ => ⟨_, rfl⟩
  · next r _ =>
    cases hread : quotedChars (offset + 1) r with
    | error e =>
      rw [hread] at h
      cases h
    | ok p =>
      rw [hread] at h
      obtain ⟨rfl, -⟩ := Prod.mk.inj (Except.ok.inj h)
      exact fun hfalse => nomatch hfalse
  · obtain ⟨rfl, -⟩ := Prod.mk.inj (Except.ok.inj h)
    trivial
  · cases h
  · split at h <;> cases h
  · split at h
    · obtain ⟨rfl, -⟩ := Prod.mk.inj (Except.ok.inj h)
      trivial
    · split_ifs at h with hdigit hstart
      · obtain ⟨x, hx, rfl, -⟩ := number_eq_ok h
        exact hx.isSound
      · obtain ⟨rfl, -⟩ := Prod.mk.inj (Except.ok.inj h)
        exact isName_takeWhile hstart
  · obtain ⟨rfl, -⟩ := Prod.mk.inj (Except.ok.inj h)
    trivial

/-- The lexeme is read off this text wherever it stops. -/
def Lexeme.IsReadOff (l : Lexeme) (cs : List Char) : Prop :=
  cs ≠ [] ∧ ∀ offset r, Stops r → lexeme offset (cs ++ r) = .ok (l, cs.length)

theorem isReadOff_punct (p : Punctuator) : Lexeme.IsReadOff (.punct p) p.text.toList := by
  refine ⟨by cases p <;> decide, fun offset r hr => ?_⟩
  cases p <;> rfl

theorem ofChar?_eq_none {c : Char} (h : isNameContinue c = true ∨ c = '-') :
    Punctuator.ofChar? c = none := by
  cases hp : Punctuator.ofChar? c with
  | none => rfl
  | some p =>
    exfalso
    unfold Punctuator.ofChar? at hp
    split at hp <;> first | cases hp; done | revert h; decide

/-- Numbers and names start with characters that start nothing else. -/
theorem lexeme_cons {c : Char} (h : isNameContinue c = true ∨ c = '-') (offset : Nat)
    (r : List Char) :
    lexeme offset (c :: r) =
      if c.isDigit || c = '-' then number offset (c :: r)
      else if isNameStart c then
        .ok (.name (String.ofList ((c :: r).takeWhile isNameContinue)),
          ((c :: r).takeWhile isNameContinue).length)
      else if c = '\'' then .error ⟨.singleQuote, offset⟩
      else .error ⟨.unknownCharacter c, offset⟩ := by
  have hquote : c ≠ '"' := by
    rintro rfl
    revert h
    decide
  have hdot : c ≠ '.' := by
    rintro rfl
    revert h
    decide
  rw [lexeme]
  · rw [ofChar?_eq_none h]
  all_goals
    intros
    simp_all

theorem isReadOff_name {n : String} (h : IsName n) : Lexeme.IsReadOff (.name n) n.toList := by
  obtain ⟨hfirst, hall⟩ := h
  cases hn : n.toList with
  | nil =>
    rw [hn] at hfirst
    cases hfirst
  | cons c cs =>
    rw [hn] at hfirst hall
    have hstart : isNameStart c = true := by simpa using hfirst
    have hcontinue : isNameContinue c = true := by
      rw [List.all_cons, Bool.and_eq_true] at hall
      exact hall.1
    refine ⟨by simp, fun offset r hr => ?_⟩
    have hdash : c ≠ '-' := by
      rintro rfl
      cases hstart
    have hnumber : ¬ (c.isDigit || decide (c = '-')) = true := by
      simp [isDigit_eq_false_of_isNameStart hstart, hdash]
    have htake : ((c :: cs) ++ r).takeWhile isNameContinue = c :: cs := by
      rw [List.takeWhile_append_of_pos (List.all_eq_true.1 hall)]
      have hrest : r.takeWhile isNameContinue = [] := by
        cases r with
        | nil => rfl
        | cons d r => exact List.takeWhile_cons_of_neg (by simp [(hr d rfl).1])
      rw [hrest, List.append_nil]
    rw [List.cons_append, lexeme_cons (.inl hcontinue), if_neg hnumber, if_pos hstart,
      ← List.cons_append, htake, ← hn, String.ofList_toList]

theorem isReadOff_numeral {x : Numeral} (h : x.IsValid) : Lexeme.IsReadOff x.lexeme x.chars := by
  obtain ⟨c, cs, hcs, hc⟩ : ∃ c cs, x.chars = c :: cs ∧ (c.isDigit = true ∨ c = '-') := by
    obtain ⟨sign, whole, fraction, exponent⟩ := x
    obtain ⟨hsign, hwhole, -, -⟩ := h
    dsimp only at hsign hwhole
    obtain ⟨d, ds, rfl, hd⟩ : ∃ d ds, whole = d :: ds ∧ d.isDigit = true := by
      rcases hwhole with rfl | ⟨hdigits, -⟩
      · exact ⟨'0', [], rfl, rfl⟩
      · obtain ⟨d, ds, rfl⟩ := List.exists_cons_of_ne_nil hdigits.1
        exact ⟨d, ds, rfl, hdigits.2 d (.head _)⟩
    rcases hsign with rfl | rfl
    · exact ⟨d, _, rfl, .inl hd⟩
    · exact ⟨'-', _, rfl, .inr rfl⟩
  refine ⟨by simp [hcs], fun offset r hr => ?_⟩
  have hnumber := number_append h hr offset
  rw [hcs, List.cons_append] at hnumber ⊢
  rw [lexeme_cons (hc.imp_left isNameContinue_of_isDigit), if_pos (by simpa using hc), hnumber]

/-- A block string is read off its print at any indentation. -/
theorem isReadOff_printBlock {value : String} (h : IsBlockValue value) (n : Nat) :
    Lexeme.IsReadOff (.string ⟨value, true⟩) (spread n (printBlock value).toList) := by
  have hquotes (cs : List Char) : spread n ('"' :: '"' :: '"' :: cs) =
      '"' :: '"' :: '"' :: spread n cs := by
    rw [show '"' :: '"' :: '"' :: cs = ['"', '"', '"'] ++ cs from rfl, spread_append,
      spread_eq_self n (by decide)]
    rfl
  constructor
  · obtain ⟨cs, -, htext, -⟩ := blockChars_printBlock h n 0 []
    simp [htext, hquotes]
  · intro offset r _
    obtain ⟨cs, chars, htext, hread, hvalue⟩ := blockChars_printBlock h n (offset + 3) r
    rw [htext, hquotes, List.cons_append, List.cons_append, List.cons_append, lexeme, hread]
    simp [Except.map, hvalue]

/-- A quoted string is read off its print. -/
theorem isReadOff_printQuoted (value : String) :
    Lexeme.IsReadOff (.string ⟨value, false⟩) (printQuoted value).toList := by
  have htext : (printQuoted value).toList =
      '"' :: (value.toList.flatMap escapedChar ++ ['"']) := by simp [printQuoted]
  refine ⟨by simp [htext], fun offset r hr => ?_⟩
  have hread := quotedChars_flatMap value.toList r (offset + 1)
  rw [htext, List.cons_append, List.append_assoc, List.singleton_append]
  rw [lexeme]
  · rw [hread]
    simp [Except.map]
  · -- two more quotes would make it a block string
    intro r' hne
    cases hvalue : value.toList with
    | nil =>
      rw [hvalue, List.flatMap_nil, List.nil_append] at hne
      exact (hr '"' (by rw [(List.cons.inj hne).2]; rfl)).2.2 rfl
    | cons c cs =>
      rw [hvalue, List.flatMap_cons] at hne
      rcases escape_escapedChar c [] with ⟨hplain, hquote, -⟩ | ⟨s, hs, -⟩
      · rw [hplain] at hne
        exact hquote (List.cons.inj hne).1
      · rw [hs] at hne
        exact absurd (List.cons.inj hne).1 (by decide)

/-! ## Printed lexemes -/

theorem newline_not_mem_name {n : String} (h : IsName n) : '\n' ∉ n.toList := fun hn =>
  absurd (List.all_eq_true.1 h.2 _ hn) (by decide)

theorem newline_not_mem_numeral {x : Numeral} (h : x.IsValid) : '\n' ∉ x.chars := by
  have hdigits {ds : List Char} (hds : IsDigits ds) : '\n' ∉ ds := fun hn =>
    absurd (hds.2 _ hn) (by decide)
  obtain ⟨sign, whole, fraction, exponent⟩ := x
  obtain ⟨hsign, hwhole, hfraction, hexponent⟩ := h
  dsimp only at hsign hwhole hfraction hexponent
  simp only [Numeral.chars, List.mem_append, not_or]
  refine ⟨⟨⟨?_, ?_⟩, ?_⟩, ?_⟩
  · rcases hsign with rfl | rfl <;> decide
  · rcases hwhole with rfl | ⟨hds, -⟩
    · decide
    · exact hdigits hds
  · rcases hfraction with rfl | ⟨ds, hds, rfl⟩
    · decide
    · simpa using hdigits hds
  · rcases hexponent with rfl | ⟨mark, sign, ds, hmark, hsign, hds, rfl⟩
    · decide
    · rcases hmark with rfl | rfl <;> rcases hsign with rfl | rfl | rfl <;> simpa using hdigits hds

theorem newline_not_mem_printQuoted (value : String) : '\n' ∉ (printQuoted value).toList := by
  have hhex : ∀ k < 16, upperHexDigit k ≠ '\n' := by decide
  have hchar (c : Char) : '\n' ∉ escapedChar c := by
    unfold escapedChar
    split
    case h_8 hfeed _ _ =>
      dsimp only
      split
      · next hcontrol =>
        simp only [Bool.or_eq_true, Bool.and_eq_true, decide_eq_true_eq] at hcontrol
        have hhigh := hhex (c.toNat / 16) (by omega)
        have hlow := hhex (c.toNat % 16) (by omega)
        simp [hhigh.symm, hlow.symm]
      · simpa using Ne.symm hfeed
    all_goals decide
  simp [printQuoted, hchar]

/-- A sound lexeme is read off its print, at any indentation. -/
theorem Lexeme.IsSound.isReadOff {l : Lexeme} (h : l.IsSound) (hne : l ≠ .endOfText) (n : Nat) :
    l.IsReadOff (spread n l.print.toList) := by
  have hnumeral {x : Numeral} (hx : x.IsValid) :
      x.lexeme.IsReadOff (spread n x.lexeme.print.toList) := by
    rw [print_numeral, String.toList_ofList, spread_eq_self n (newline_not_mem_numeral hx)]
    exact isReadOff_numeral hx
  cases l with
  | punct p =>
    rw [spread_eq_self n]
    · exact isReadOff_punct p
    · cases p <;> decide
  | name s =>
    rw [Lexeme.print, spread_eq_self n (newline_not_mem_name h)]
    exact isReadOff_name h
  | int t =>
    obtain ⟨x, hx, hl⟩ := h
    exact hl ▸ hnumeral hx
  | float t =>
    obtain ⟨x, hx, hl⟩ := h
    exact hl ▸ hnumeral hx
  | string lit =>
    obtain ⟨value, block⟩ := lit
    cases block with
    | true => exact isReadOff_printBlock (h rfl) n
    | false =>
      rw [show (Lexeme.string ⟨value, false⟩).print = printQuoted value from rfl,
        spread_eq_self n (newline_not_mem_printQuoted value)]
      exact isReadOff_printQuoted value
  | endOfText => exact absurd rfl hne

end ResolverKit.Sdl
