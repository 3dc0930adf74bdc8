import ResolverKit.Proofs.Lexemes

/-!
# Texts and their lexemes

`Spells s ls` says that the text `s` is cut into the lexemes `ls` wherever something new starts
behind it, and at any indentation; `Closes s ls` says so of any text behind it.  The rules of this
module follow the pieces from which the printer builds its texts: texts behind each other, wrapped,
joined, indented and in braces.
-/

namespace ResolverKit.Sdl

/-! ## Cutting -/

/-- The tokens are these lexemes, each at some place. -/
def Placed (ls : List Lexeme) (ts : List Token) : Prop :=
  List.Forall₂ (fun l t => ∃ offset, t = .lexeme l offset) ls ts

theorem Placed.append {ls ls' : List Lexeme} {ts ts' : List Token} (h : Placed ls ts)
    (h' : Placed ls' ts') : Placed (ls ++ ls') (ts ++ ts') :=
  List.rel_append h h'

/-- Before a text of this kind, the text is cut into these lexemes. -/
def Cuts (ok : List Char → Prop) (cs : List Char) (ls : List Lexeme) : Prop :=
  ∀ offset r, ok r → ∃ ts, Placed ls ts ∧
    tokensFrom offset (cs ++ r) = ts ++ tokensFrom (offset + cs.length) r

section

variable {ok ok' : List Char → Prop} {a b : List Char} {la lb : List Lexeme}

theorem cuts_nil : Cuts ok [] [] := fun _ _ _ => ⟨[], .nil, rfl⟩

theorem Cuts.append (ha : Cuts ok a la) (hb : Cuts ok' b lb) (h : ∀ r, ok' r → ok (b ++ r)) :
    Cuts ok' (a ++ b) (la ++ lb) := by
  intro offset r hr
  obtain ⟨ta, hta, ha⟩ := ha offset (b ++ r) (h r hr)
  obtain ⟨tb, htb, hb⟩ := hb (offset + a.length) r hr
  refine ⟨ta ++ tb, hta.append htb, ?_⟩
  rw [List.append_assoc, ha, hb, List.append_assoc, List.length_append, Nat.add_assoc]

end

/-- No lexeme starts with a character that is dropped. -/
theorem front_of_lexeme_eq_ok {offset : Nat} {c : Char} {r : List Char} {p : Lexeme × Nat}
    (h : lexeme offset (c :: r) = .ok p) : isIgnored c = false ∧ c ≠ '#' := by
  have hbad : ∀ d ∈ [' ', '\t', ',', '\ufeff', '\n', '\r', '#'], c ≠ d := by
    intro d hd
    rintro rfl
    simp only [List.mem_cons, List.not_mem_nil, or_false] at hd
    rcases hd with rfl | rfl | rfl | rfl | rfl | rfl | rfl <;> cases h
  simp only [List.forall_mem_cons] at hbad
  simp [isIgnored, Text.isRowEnd, hbad]

theorem Lexeme.IsReadOff.cuts {l : Lexeme} {cs : List Char} (h : l.IsReadOff cs) :
    Cuts Stops cs [l] := by
  obtain ⟨hne, hread⟩ := h
  intro offset r hr
  obtain ⟨c, cs, rfl⟩ := List.exists_cons_of_ne_nil hne
  have hlexeme := hread offset r hr
  obtain ⟨hignored, hcomment⟩ := front_of_lexeme_eq_ok hlexeme
  refine ⟨[.lexeme l offset], .cons ⟨offset, rfl⟩ .nil, ?_⟩
  rw [List.cons_append] at hlexeme ⊢
  rw [tokensFrom, if_neg (by simp [hignored]), if_neg hcomment, hlexeme]
  simp

/-! ## Marks -/

/-- A character that is dropped or a lexeme of its own. -/
def isMark (c : Char) : Bool := isIgnored c || (Punctuator.ofChar? c).isSome

def markLexemes (cs : List Char) : List Lexeme :=
  cs.filterMap fun c => (Punctuator.ofChar? c).map .punct

theorem markLexemes_append (a b : List Char) :
    markLexemes (a ++ b) = markLexemes a ++ markLexemes b := List.filterMap_append

theorem markLexemes_cons (c : Char) (cs : List Char) :
    markLexemes (c :: cs) = markLexemes [c] ++ markLexemes cs := markLexemes_append [c] cs

/-- Line ends and indentation give no lexemes. -/
theorem marks_newline (n : Nat) : ('\n' :: List.replicate n ' ').all isMark = true ∧
    markLexemes ('\n' :: List.replicate n ' ') = [] := by
  have hmem : ∀ c ∈ '\n' :: List.replicate n ' ', isMark c = true ∧
      Punctuator.ofChar? c = none := by
    intro c hc
    rcases List.mem_cons.1 hc with rfl | hc
    · exact ⟨rfl, rfl⟩
    · rw [List.eq_of_mem_replicate hc]
      exact ⟨rfl, rfl⟩
  refine ⟨List.all_eq_true.2 fun c hc => (hmem c hc).1, ?_⟩
  rw [markLexemes, List.filterMap_eq_nil_iff]
  intro c hc
  rw [(hmem c hc).2]
  rfl

theorem lexeme_of_ofChar? {c : Char} {p : Punctuator} (h : Punctuator.ofChar? c = some p)
    (offset : Nat) (r : List Char) : lexeme offset (c :: r) = .ok (.punct p, 1) := by
  unfold Punctuator.ofChar? at h
  split at h <;> first | cases h; done | (obtain rfl := Option.some.inj h; rfl)

theorem cuts_mark {ok : List Char → Prop} {c : Char} (h : isMark c = true) :
    Cuts ok [c] (markLexemes [c]) := by
  intro offset r _
  cases hp : Punctuator.ofChar? c with
  | none =>
    have hignored : isIgnored c = true := by simpa [isMark, hp] using h
    refine ⟨[], by simp [markLexemes, hp, Placed], ?_⟩
    rw [List.singleton_append, tokensFrom, if_pos hignored]
    rfl
  | some p =>
    have hlexeme := lexeme_of_ofChar? hp offset r
    obtain ⟨hignored, hcomment⟩ := front_of_lexeme_eq_ok hlexeme
    refine ⟨[.lexeme (.punct p) offset], ?_, ?_⟩
    · simp [markLexemes, hp, Placed]
    · rw [List.singleton_append, tokensFrom, if_neg (by simp [hignored]), if_neg hcomment, hlexeme]
      rfl

/-- Marks are cut wherever they stand. -/
theorem cuts_marks {ok : List Char → Prop} {cs : List Char} (h : cs.all isMark = true) :
    Cuts ok cs (markLexemes cs) := by
  induction cs with
  | nil => exact cuts_nil
  | cons c cs ih =>
    rw [List.all_cons, Bool.and_eq_true] at h
    have hfirst : Cuts (fun _ => True) [c] (markLexemes [c]) := cuts_mark h.1
    rw [markLexemes_cons, ← List.singleton_append]
    exact hfirst.append (ih h.2) fun _ _ => trivial

theorem not_isNameContinue_of_isMark {c : Char} (h : isMark c = true) :
    isNameContinue c = false ∧ c ≠ '.' ∧ c ≠ '"' := by
  refine ⟨?_, ?_, ?_⟩
  · by_contra hname
    have hname : isNameContinue c = true := by simpa using hname
    have hignored : isIgnored c = true := by simpa [isMark, ofChar?_eq_none (.inl hname)] using h
    simp only [isIgnored, Text.isRowEnd, Bool.or_eq_true, beq_iff_eq] at hignored
    rcases hignored with (((rfl | rfl) | rfl) | rfl) | (rfl | rfl) <;> cases hname
  · rintro rfl
    revert h
    decide
  · rintro rfl
    revert h
    decide

/-! ## Texts -/

/-- A text that consists of marks and gives these lexemes. -/
def IsMarks (s : String) (ls : List Lexeme) : Prop :=
  s.toList.all isMark = true ∧ markLexemes s.toList = ls

instance (s : String) (ls : List Lexeme) : Decidable (IsMarks s ls) :=
  inferInstanceAs (Decidable (_ ∧ _))

def StartsNew (s : String) : Prop := Stops s.toList

instance (s : String) : Decidable (StartsNew s) :=
  -- by name: a search may find the instance that goes through all characters
  Option.decidableForallMem s.toList.head?

/-- The text is cut into these lexemes where something new starts behind it, at any indentation;
without lexemes there is no text. -/
structure Spells (s : String) (ls : List Lexeme) : Prop where
  cuts : ∀ n, Cuts Stops (spread n s.toList) ls
  empty : ls = [] → s = ""

/-- The text is cut into these lexemes wherever it stands, at any indentation. -/
def Closes (s : String) (ls : List Lexeme) : Prop :=
  ∀ n, Cuts (fun _ => True) (spread n s.toList) ls

theorem head?_spread (n : Nat) (cs : List Char) : (spread n cs).head? = cs.head? := by
  cases cs with
  | nil => rfl
  | cons c cs =>
    rw [spread_cons]
    by_cases hc : c = '\n'
    · simp [hc]
    · simp [spread_singleton n hc]

theorem StartsNew.stops {s : String} (h : StartsNew s) (n : Nat) {r : List Char} (hr : Stops r) :
    Stops (spread n s.toList ++ r) := by
  intro c hc
  rw [List.head?_append, head?_spread] at hc
  cases hs : s.toList.head? with
  | none => exact hr c (by rwa [hs] at hc)
  | some d => exact h c (by rwa [hs] at hc ⊢)

/-- With some text in front, nothing needs to follow it. -/
theorem StartsNew.stops_of_ne {s : String} (h : StartsNew s) (hne : s ≠ "") (n : Nat)
    (r : List Char) : Stops (spread n s.toList ++ r) := by
  obtain ⟨d, cs, hs⟩ := List.exists_cons_of_ne_nil (mt String.toList_eq_nil_iff.1 hne)
  intro c hc
  rw [List.head?_append, head?_spread, hs] at hc
  exact h c (by rw [hs]; exact hc)

namespace IsMarks

variable {s : String} {ls : List Lexeme}

theorem closes (h : IsMarks s ls) : Closes s ls := by
  obtain ⟨hall, rfl⟩ := h
  intro n
  -- moving the rows to the right adds marks that give no lexemes
  have hspread : (spread n s.toList).all isMark = true ∧
      markLexemes (spread n s.toList) = markLexemes s.toList := by
    generalize s.toList = cs at hall
    induction cs with
    | nil => exact ⟨rfl, rfl⟩
    | cons c cs ih =>
      rw [List.all_cons, Bool.and_eq_true] at hall
      obtain ⟨ihall, ihlexemes⟩ := ih hall.2
      rw [spread_cons, List.all_append, ihall, markLexemes_append, ihlexemes, markLexemes_cons c,
        Bool.and_true]
      by_cases hc : c = '\n'
      · rw [hc, spread_newline, (marks_newline n).1, (marks_newline n).2]
        exact ⟨rfl, rfl⟩
      · rw [spread_singleton n hc]
        exact ⟨by simp [hall.1], rfl⟩
  rw [← hspread.2]
  exact cuts_marks hspread.1

theorem startsNew (h : IsMarks s ls) : StartsNew s := by
  intro c hc
  exact not_isNameContinue_of_isMark (List.all_eq_true.1 h.1 c (List.mem_of_mem_head? hc))

end IsMarks

theorem Closes.append {a b : String} {la lb : List Lexeme} (ha : Closes a la) (hb : Closes b lb) :
    Closes (a ++ b) (la ++ lb) := by
  intro n
  rw [String.toList_append, spread_append]
  exact (ha n).append (hb n) fun _ _ => trivial

/-- Something is spelled behind a text after which it may start. -/
theorem Closes.spells {a b : String} {la lb : List Lexeme} (ha : Closes a la) (hb : Spells b lb)
    (hne : la ++ lb ≠ []) : Spells (a ++ b) (la ++ lb) where
  cuts := by
    intro n
    rw [String.toList_append, spread_append]
    exact (ha n).append (hb.cuts n) fun _ _ => trivial
  empty := fun h => absurd h hne

namespace Spells

variable {a b : String} {la lb : List Lexeme}

theorem of_eq (h : Spells a la) (heq : la = lb) : Spells a lb := heq ▸ h

theorem nil : Spells "" [] := ⟨fun _ => cuts_nil, fun _ => rfl⟩

theorem lexeme {l : Lexeme} (h : l.IsSound) (hne : l ≠ .endOfText) : Spells l.print [l] where
  cuts := fun n => (h.isReadOff hne n).cuts
  empty := fun h => nomatch h

theorem name {n : String} (h : IsName n) : Spells n [.name n] :=
  lexeme (show (Lexeme.name n).IsSound from h) fun h => nomatch h

/-- There is no text exactly if there are no lexemes. -/
theorem eq_empty_iff (h : Spells a la) : a = "" ↔ la = [] := by
  refine ⟨?_, h.empty⟩
  rintro rfl
  obtain ⟨ts, hts, htext⟩ := h.cuts 0 0 [] (fun c hc => nomatch hc)
  have hnil : ts = [] := by simpa using htext
  subst hnil
  exact List.forall₂_nil_right_iff.1 hts

theorem append (ha : Spells a la) (hb : Spells b lb) (hnew : StartsNew b) :
    Spells (a ++ b) (la ++ lb) where
  cuts := by
    intro n
    rw [String.toList_append, spread_append]
    exact (ha.cuts n).append (hb.cuts n) fun r hr => hnew.stops n hr
  empty := by
    intro h
    obtain ⟨h1, h2⟩ := List.append_eq_nil_iff.1 h
    rw [ha.empty h1, hb.empty h2]
    rfl

/-- A text in front of which something new starts closes what stands before it. -/
theorem closes (ha : Spells a la) (hb : Closes b lb) (hnew : StartsNew b) (hne : b ≠ "") :
    Closes (a ++ b) (la ++ lb) := by
  intro n
  rw [String.toList_append, spread_append]
  exact (ha.cuts n).append (hb n) fun r _ => hnew.stops_of_ne hne n r

theorem append_marks {m : String} {lm : List Lexeme} (ha : Spells a la) (hm : IsMarks m lm)
    (hne : la ≠ []) : Spells (a ++ m) (la ++ lm) where
  cuts := by
    intro n
    rw [String.toList_append, spread_append]
    have hmarks : Cuts Stops (Sdl.spread n m.toList) lm := fun offset r _ =>
      hm.closes n offset r trivial
    exact (ha.cuts n).append hmarks fun r hr => hm.startsNew.stops n hr
  empty := fun h => absurd (List.append_eq_nil_iff.1 h).1 hne

/-- Two texts with marks between them. -/
theorem join {m : String} {lm : List Lexeme} (ha : Spells a la) (hm : IsMarks m lm) (hne : m ≠ "")
    (hb : Spells b lb) (hlb : lb ≠ []) : Spells (a ++ m ++ b) (la ++ lm ++ lb) :=
  (ha.closes hm.closes hm.startsNew hne).spells hb (by simp [hlb])

/-- The text may stand further right. -/
theorem spread (h : Spells a la) (k : Nat) : Spells (String.ofList (spread k a.toList)) la where
  cuts := by
    intro n
    rw [String.toList_ofList, spread_spread]
    exact h.cuts (n + k)
  empty := by
    intro hnil
    rw [h.empty hnil]
    rfl

end Spells

/-! ## Wrapped and joined texts -/

/-- Lexemes between others, or none if there are none. -/
def wrap (opening ls closing : List Lexeme) : List Lexeme :=
  if ls = [] then [] else opening ++ ls ++ closing

theorem Spells.wrapped {o t c : String} {lo lt lc : List Lexeme} (ho : Closes o lo)
    (ht : Spells t lt) (hc : IsMarks c lc) : Spells (wrapped o t c) (wrap lo lt lc) := by
  unfold Sdl.wrapped wrap
  by_cases h : t = ""
  · rw [if_pos h, if_pos (ht.eq_empty_iff.1 h)]
    exact .nil
  · have hne : lt ≠ [] := mt ht.eq_empty_iff.2 h
    rw [if_neg h, if_neg hne]
    exact (ho.spells ht (by simp [hne])).append_marks hc (by simp [hne])

/-- A wrapped text starts as what it is wrapped in. -/
theorem startsNew_wrapped {o : String} (h : StartsNew o) (hne : o ≠ "") (t c : String) :
    StartsNew (wrapped o t c) := by
  unfold wrapped
  split
  · exact fun c hc => nomatch hc
  · obtain ⟨d, cs, hs⟩ := List.exists_cons_of_ne_nil (mt String.toList_eq_nil_iff.1 hne)
    intro x hx
    rw [String.toList_append, String.toList_append, hs] at hx
    exact h x (by rw [hs]; exact hx)

@[simp] theorem wrap_nil_nil (ls : List Lexeme) : wrap [] ls [] = ls := by
  unfold wrap
  split
  · next h => rw [h]
  · simp

theorem Spells.indented {s : String} {ls : List Lexeme} (h : Spells s ls) :
    Spells (indented s) ls := by
  have hwrapped := Spells.wrapped (IsMarks.closes (by decide : IsMarks "  " [])) (h.spread 2)
    (by decide : IsMarks "" [])
  rw [wrap_nil_nil, ← indentRows_eq_spread] at hwrapped
  exact hwrapped

theorem Spells.intercalate {sep : String} {lsep : List Lexeme} {parts : List String}
    {lparts : List (List Lexeme)} (hsep : IsMarks sep lsep) (hne : sep ≠ "")
    (h : List.Forall₂ (fun s ls => Spells s ls ∧ ls ≠ []) parts lparts) :
    Spells (sep.intercalate parts) (lsep.intercalate lparts) := by
  induction h with
  | nil => exact .nil
  | @cons a la r lr ha hr ih =>
    cases hr with
    | nil => simpa using ha.1
    | @cons b lb r lr hb hr =>
      rw [String.intercalate_cons_cons, List.intercalate_cons_cons]
      refine ha.1.join hsep hne ih ?_
      cases lr <;> simp [List.intercalate_cons_cons, hb.2]

/-- Texts with marks between them; empty ones do not count. -/
theorem Spells.joined {sep : String} {lsep : List Lexeme} {parts : List String}
    {lparts : List (List Lexeme)} (hsep : IsMarks sep lsep) (hne : sep ≠ "")
    (h : List.Forall₂ Spells parts lparts) :
    Spells (joined sep parts) (lsep.intercalate (lparts.filter (· ≠ []))) := by
  refine .intercalate hsep hne ?_
  induction h with
  | nil => exact .nil
  | @cons a la r lr ha _ ih =>
    by_cases hnil : la = []
    · have hempty : a = "" := ha.empty hnil
      simpa [hnil, hempty] using ih
    · have hempty : a ≠ "" := mt ha.eq_empty_iff.1 hnil
      rw [List.filter_cons_of_pos (by simp [hempty]), List.filter_cons_of_pos (by simp [hnil])]
      exact .cons ⟨ha, hnil⟩ ih

/-- Between blanks the lexemes just follow each other. -/
theorem Spells.joined_blank {sep : String} {parts : List String} {lparts : List (List Lexeme)}
    (hsep : IsMarks sep []) (hne : sep ≠ "") (h : List.Forall₂ Spells parts lparts) :
    Spells (Sdl.joined sep parts) lparts.flatten := by
  have hnil : ∀ xs : List (List Lexeme), List.intercalate [] xs = xs.flatten := by
    intro xs
    induction xs with
    | nil => rfl
    | cons x xs ih =>
      cases xs with
      | nil => simp
      | cons y ys =>
        rw [List.intercalate_cons_cons, ih]
        simp
  have hjoined := Spells.joined hsep hne h
  rwa [hnil, List.flatten_filter_ne_nil] at hjoined

/-- Entries in braces. -/
theorem Spells.braced {entries : List String} {lentries : List (List Lexeme)}
    (h : List.Forall₂ Spells entries lentries) :
    Spells (braced entries) (wrap [.punct .braceL] lentries.flatten [.punct .braceR]) :=
  .wrapped (IsMarks.closes (by decide)) (Spells.joined_blank (by decide) (by decide) h).indented
    (by decide)

end ResolverKit.Sdl
