import ResolverKit.Proofs.BlockRows

/-!
# Block strings

A block string that was read is printed so that it is read again as it is, at any indentation.  The
printer puts the closing quotes on a row of their own where they could be misread and the opening
ones wherever that does not change the value (`Frame`); every triple quote of the value is escaped.

    IsBlockValue value → blockValue (spread n (before ++ value ++ after)) = value
                                                                            (blockValue_spread)
    IsBlockValue value → the lexer reads printBlock value as value       (blockChars_printBlock)
-/

namespace ResolverKit.Sdl

/-! ## Escaped quotes -/

theorem escapeTripleQuotes_cons {c : Char} {r : List Char}
    (h : ∀ r', c = '"' → r ≠ '"' :: '"' :: r') :
    escapeTripleQuotes (c :: r) = c :: escapeTripleQuotes r := by
  rw [escapeTripleQuotes]
  intro r' hc hr
  exact h r' hc hr

theorem escapeTripleQuotes_append_newline (a b : List Char) :
    escapeTripleQuotes (a ++ '\n' :: b) = escapeTripleQuotes a ++ '\n' :: escapeTripleQuotes b := by
  fun_induction escapeTripleQuotes a with
  | case1 => exact escapeTripleQuotes_cons fun _ h => absurd h (by decide)
  | case2 r ih =>
    simp only [List.cons_append, escapeTripleQuotes, ih]
  | case3 c r hc ih =>
    rw [List.cons_append, escapeTripleQuotes_cons, ih, List.cons_append]
    rintro r' rfl hr
    rcases r with - | ⟨d, - | ⟨e, r⟩⟩
    · cases hr
    · cases hr
    · obtain ⟨rfl, rfl, -⟩ : d = '"' ∧ e = '"' ∧ _ := by simpa using hr
      exact hc r rfl rfl

theorem spread_eq_quote_cons {n : Nat} {cs r : List Char} (h : spread n cs = '"' :: r) :
    ∃ cs', cs = '"' :: cs' ∧ r = spread n cs' := by
  cases cs with
  | nil => cases h
  | cons c cs' =>
    rw [spread_cons] at h
    by_cases hc : c = '\n'
    · rw [hc, spread_newline] at h
      cases h
    · rw [spread_singleton n hc] at h
      obtain ⟨rfl, rfl⟩ := List.cons.inj h
      exact ⟨cs', rfl, rfl⟩

theorem escapeTripleQuotes_spaces_append (n : Nat) (r : List Char) :
    escapeTripleQuotes (List.replicate n ' ' ++ r) =
      List.replicate n ' ' ++ escapeTripleQuotes r := by
  induction n with
  | zero => rfl
  | succ n ih =>
    rw [List.replicate_succ, List.cons_append, escapeTripleQuotes_cons, ih, List.cons_append]
    exact fun _ h => absurd h (by decide)

/-- Escaping does not depend on the indentation. -/
theorem spread_escapeTripleQuotes (n : Nat) (cs : List Char) :
    spread n (escapeTripleQuotes cs) = escapeTripleQuotes (spread n cs) := by
  have hquote (r : List Char) : spread n ('"' :: r) = '"' :: spread n r := by
    rw [spread_cons, spread_singleton n (by decide)]
    rfl
  fun_induction escapeTripleQuotes cs with
  | case1 => rfl
  | case2 r ih =>
    simp only [hquote, escapeTripleQuotes, ← ih]
    rw [spread_cons, spread_singleton n (by decide), hquote, hquote, hquote]
    rfl
  | case3 c r hc ih =>
    rw [spread_cons, ih, spread_cons n c r]
    by_cases hfeed : c = '\n'
    · rw [hfeed, spread_newline, List.cons_append, List.cons_append, escapeTripleQuotes_cons,
        escapeTripleQuotes_spaces_append]
      exact fun _ h => absurd h (by decide)
    · rw [spread_singleton n hfeed, List.singleton_append, List.singleton_append,
        escapeTripleQuotes_cons]
      rintro r' rfl hr
      obtain ⟨r₁, rfl, hr₁⟩ := spread_eq_quote_cons hr
      obtain ⟨r₂, rfl, -⟩ := spread_eq_quote_cons hr₁.symm
      exact hc r₂ rfl rfl

theorem mem_of_mem_escapeTripleQuotes {c : Char} {cs : List Char}
    (h : c ∈ escapeTripleQuotes cs) : c = '\\' ∨ c ∈ cs := by
  fun_induction escapeTripleQuotes cs with
  | case1 => cases h
  | case2 r ih =>
    simp only [List.mem_cons] at h ⊢
    tauto
  | case3 d r _ ih =>
    simp only [List.mem_cons] at h ⊢
    tauto

theorem mem_escapeTripleQuotes {c : Char} {cs : List Char} (h : c ∈ cs) :
    c ∈ escapeTripleQuotes cs := by
  fun_induction escapeTripleQuotes cs with
  | case1 => cases h
  | case2 r ih =>
    simp only [List.mem_cons] at h ⊢
    tauto
  | case3 d r _ ih =>
    simp only [List.mem_cons] at h ⊢
    tauto

/-- Escaping neither adds nor takes a row. -/
theorem isRow_escapeTripleQuotes {cs : List Char} : IsRow (escapeTripleQuotes cs) ↔ IsRow cs := by
  constructor
  · exact fun h c hc => h c (mem_escapeTripleQuotes hc)
  · intro h c hc
    rcases mem_of_mem_escapeTripleQuotes hc with rfl | hc
    · rfl
    · exact h c hc

/-- A text that ends neither with a quote nor with a backslash, or no text: it may stand directly
before closing quotes. -/
def IsClosable (cs : List Char) : Prop := ∀ c ∈ cs.getLast?, c ≠ '"' ∧ c ≠ '\\'

theorem IsClosable.tail {c : Char} {r : List Char} (h : IsClosable (c :: r)) : IsClosable r := by
  intro x hx
  refine h x ?_
  cases r with
  | nil => cases hx
  | cons d r => rwa [List.getLast?_cons_cons]

theorem IsClosable.ne_nil {c : Char} {r : List Char} (h : IsClosable (c :: r))
    (hc : c = '"' ∨ c = '\\') : r ≠ [] := by
  rintro rfl
  have := h c rfl
  rcases hc with rfl | rfl <;> simp at this

/-- No closing quotes stand at the front of an escaped text. -/
theorem escapeTripleQuotes_append_ne {c : Char} {r : List Char} (h : IsClosable (c :: r))
    (tail r' : List Char) : escapeTripleQuotes (c :: r) ++ tail ≠ '"' :: '"' :: '"' :: r' := by
  intro heq
  by_cases hc : c = '"'
  case neg =>
    rw [escapeTripleQuotes_cons fun _ h => absurd h hc] at heq
    exact hc (List.cons.inj heq).1
  subst hc
  obtain ⟨d, r, rfl⟩ := List.exists_cons_of_ne_nil (h.ne_nil (.inl rfl))
  by_cases hd : d = '"'
  case neg =>
    rw [escapeTripleQuotes_cons fun _ _ hr => hd (List.cons.inj hr).1,
      escapeTripleQuotes_cons fun _ h => absurd h hd] at heq
    simp [hd] at heq
  subst hd
  obtain ⟨e, r, rfl⟩ := List.exists_cons_of_ne_nil (h.tail.ne_nil (.inl rfl))
  by_cases he : e = '"'
  case pos =>
    subst he
    rw [escapeTripleQuotes] at heq
    simp at heq
  rw [escapeTripleQuotes_cons fun _ _ hr => he (List.cons.inj (List.cons.inj hr).2).1,
    escapeTripleQuotes_cons fun _ _ hr => he (List.cons.inj hr).1,
    escapeTripleQuotes_cons fun _ h => absurd h he] at heq
  simp [he] at heq

/-- The lexer takes the escapes out again and stops at the closing quotes. -/
theorem blockChars_escapeTripleQuotes {cs : List Char} (h : IsClosable cs) (offset : Nat)
    (r : List Char) :
    blockChars offset (escapeTripleQuotes cs ++ '"' :: '"' :: '"' :: r) =
      .ok (cs, (escapeTripleQuotes cs).length + 3) := by
  -- Three quotes were escaped.  Any other character is read as it is: if it looked like the closing
  -- quotes or like an escape, the text in front of them would not be closable.
  fun_induction escapeTripleQuotes cs generalizing offset with
  | case1 => rfl
  | case2 cs ih =>
    simp only [List.cons_append, blockChars]
    rw [ih h.tail.tail.tail]
    rfl
  | case3 c cs hc ih =>
    have hfront := escapeTripleQuotes_append_ne h ('"' :: '"' :: '"' :: r)
    rw [escapeTripleQuotes_cons fun r' hc' hr => hc r' hc' hr, List.cons_append] at hfront
    rw [List.cons_append, blockChars, ih h.tail]
    · rfl
    · rintro r' rfl hr
      exact hfront r' (by rw [hr])
    · rintro r' rfl hr
      obtain ⟨d, cs, rfl⟩ := List.exists_cons_of_ne_nil (h.ne_nil (.inr rfl))
      exact escapeTripleQuotes_append_ne h.tail _ r' hr

/-! ## Printed blocks -/

/-- What the printer puts between a value and its quotes: nothing, a line feed behind it, or line
feeds on both sides. -/
inductive Frame (cs : List Char) : List Char → List Char → Prop
  | bare : IsRow cs → IsClosable cs → Frame cs [] []
  | below : IsRow cs → Frame cs [] ['\n']
  | around : (IsRow cs → startsIndented cs = false) → Frame cs ['\n'] ['\n']

theorem isClosable_of_isSuffixOf {cs : List Char} (hquote : ['"'].isSuffixOf cs = false)
    (hbackslash : ['\\'].isSuffixOf cs = false) : IsClosable cs := by
  have hlast : ∀ c ∈ cs.getLast?, [c].isSuffixOf cs = true := by
    intro c hc
    obtain ⟨front, rfl⟩ := List.getLast?_eq_some_iff.1 hc
    simp
  intro c hc
  constructor
  · rintro rfl
    rw [hlast _ hc] at hquote
    cases hquote
  · rintro rfl
    rw [hlast _ hc] at hbackslash
    cases hbackslash

/-- Between its quotes a printed block has the escaped value in a frame. -/
theorem toList_printBlock (value : String) :
    ∃ before after, Frame value.toList before after ∧ (printBlock value).toList =
      '"' :: '"' :: '"' ::
        (before ++ escapeTripleQuotes value.toList ++ after ++ ['"', '"', '"']) := by
  have hrow := length_splitRows_eq_one_iff.trans (@isRow_escapeTripleQuotes value.toList)
  unfold printBlock
  generalize escapeTripleQuotes value.toList = escaped at hrow ⊢
  dsimp only
  by_cases hsingle : (Text.splitRows escaped).length = 1
  · have hvalue := hrow.1 hsingle
    simp only [hsingle, decide_true, Bool.not_true, Bool.false_and, Bool.false_or, Bool.or_false,
      Bool.true_and]
    generalize htriple : ['\\', '"', '"', '"'].isSuffixOf escaped = triple
    generalize htrailing : (['"'].isSuffixOf value.toList && !triple ||
      ['\\'].isSuffixOf value.toList) = trailing
    generalize hmultiple : (decide (70 < value.length) || trailing || triple) = multiple
    -- a trailing quote or backslash already makes the block one of several rows
    have habsorb : (multiple || trailing) = multiple := by
      rw [← hmultiple]
      cases trailing <;> simp
    rw [habsorb]
    cases multiple with
    | false =>
      simp only [Bool.or_eq_false_iff] at hmultiple
      obtain ⟨⟨-, rfl⟩, rfl⟩ := hmultiple
      simp only [Bool.not_false, Bool.and_true, Bool.or_eq_false_iff] at htrailing
      exact ⟨[], [], .bare hvalue (isClosable_of_isSuffixOf htrailing.1 htrailing.2), by simp⟩
    | true =>
      cases hindented : startsIndented value.toList with
      | false => exact ⟨['\n'], ['\n'], .around fun _ => hindented, by simp⟩
      | true => exact ⟨[], ['\n'], .below hvalue, by simp⟩
  · refine ⟨['\n'], ['\n'], .around fun h => absurd (hrow.2 h) hsingle, ?_⟩
    simp [hsingle]

/-- The value of a block string that was read. -/
def IsBlockValue (value : String) : Prop := ∃ cs, value = blockValue cs

/-- The rows of a value. -/
theorem IsBlockValue.rows {value : String} (h : IsBlockValue value) :
    ∃ rows, value.toList = joinRows rows ∧ IsTrimmed rows := by
  obtain ⟨cs, rfl⟩ := h
  refine ⟨dedent (Text.splitRows cs), by simp [blockValue, joinRows], ?_⟩
  exact isTrimmed_dedent fun row => isRow_of_mem_splitRows

theorem IsTrimmed.trimRows_singleton {rows : List (List Char)} (h : IsTrimmed rows)
    (hrow : IsRow (joinRows rows)) : trimRows [joinRows rows] = rows := by
  rcases rows with - | ⟨row, - | ⟨row', rows⟩⟩
  · rfl
  · simpa [joinRows] using h.trimmed
  · rw [joinRows_cons_cons] at hrow
    exact absurd (hrow '\n' (by simp)) (by decide)

theorem IsTrimmed.exists_isFlush {rows : List (List Char)} (h : IsTrimmed rows) (hne : rows ≠ [])
    (hindented : IsRow (joinRows rows) → startsIndented (joinRows rows) = false) :
    ∃ row ∈ rows, IsFlush row := by
  by_cases hlength : 1 < rows.length
  · exact h.flush hlength
  · obtain ⟨row, rfl⟩ : ∃ row, rows = [row] := by
      rw [← List.length_eq_one_iff]
      have := List.length_pos_of_ne_nil hne
      omega
    have hjoin : joinRows [row] = row := by simp [joinRows]
    rw [hjoin] at hindented
    refine ⟨row, .head _, ?_, ?_⟩
    · by_contra hblank
      have htrimmed := h.trimmed
      rw [trimRows_cons_of_blank (by simpa using hblank)] at htrimmed
      cases htrimmed
    · have hstart := hindented (h.unended row (.head _))
      rw [indentOf, List.length_eq_zero_iff, List.takeWhile_eq_nil_iff]
      intro hpos
      cases row with
      | nil => cases hpos
      | cons c row => simpa [startsIndented, isIndent] using hstart

/-- A value in its frame is read as it is, at any indentation. -/
theorem blockValue_spread {value : String} (h : IsBlockValue value) {before after : List Char}
    (hframe : Frame value.toList before after) (n : Nat) :
    blockValue (spread n (before ++ value.toList ++ after)) = value := by
  obtain ⟨rows, hvalue, htrimmed⟩ := h.rows
  have hread : ∀ cs, dedent (Text.splitRows cs) = rows → blockValue cs = value := by
    intro cs hcs
    rw [blockValue, hcs, ← String.toList_inj, hvalue, String.toList_ofList]
    rfl
  rw [hvalue] at hframe ⊢
  apply hread
  -- what the frame adds is blank, and the spaces are common to all rows behind the first
  have hblank := isBlankRow_spaces n
  cases hframe with
  | bare hrow _ =>
    rw [List.nil_append, List.append_nil, hrow.spread_eq_self, splitRows_row hrow,
      dedent_of_forall_blank _ (by simp), htrimmed.trimRows_singleton hrow]
  | below hrow =>
    rw [List.nil_append, spread_append, spread_newline, hrow.spread_eq_self, splitRows_append hrow,
      splitRows_newline, splitRows_row (isRow_spaces n), List.headD_cons, List.append_nil,
      dedent_of_forall_blank _ (by simpa using hblank), htrimmed.trimRows_singleton hrow]
  | around hindented =>
    by_cases hnil : rows = []
    · have hframed : spread n (['\n'] ++ joinRows rows ++ ['\n']) =
          '\n' :: (List.replicate n ' ' ++ '\n' :: List.replicate n ' ') := by
        simp [hnil, joinRows, spread]
      rw [hframed, splitRows_newline, splitRows_append (isRow_spaces n), splitRows_newline,
        splitRows_row (isRow_spaces n), dedent_of_forall_blank _ (by simpa using hblank), hnil]
      rfl
    · rw [splitRows_spread_around n hnil htrimmed.unended]
      exact dedent_around n htrimmed.trimmed (htrimmed.exists_isFlush hnil hindented)

/-- A value in its frame may stand directly before closing quotes. -/
theorem Frame.isClosable {cs before after : List Char} (h : Frame cs before after) (n : Nat) :
    IsClosable (spread n (before ++ cs ++ after)) := by
  have hbehind : ∀ a : List Char, IsClosable (spread n (a ++ ['\n'])) := by
    intro a c hc
    rw [spread_append, spread_newline] at hc
    have hmem : c ∈ '\n' :: List.replicate n ' ' := by
      rw [List.getLast?_append_of_ne_nil _ (by simp)] at hc
      exact List.mem_of_getLast? hc
    rcases List.mem_cons.1 hmem with rfl | hmem
    · decide
    · rw [List.eq_of_mem_replicate hmem]
      decide
  cases h with
  | bare hrow hclosable =>
    rw [List.nil_append, List.append_nil, hrow.spread_eq_self]
    exact hclosable
  | below => exact hbehind _
  | around => exact hbehind _

/-- The frame needs no escapes. -/
theorem Frame.escape {cs before after : List Char} (h : Frame cs before after) :
    escapeTripleQuotes (before ++ cs ++ after) = before ++ escapeTripleQuotes cs ++ after := by
  cases h with
  | bare => simp
  | below => exact escapeTripleQuotes_append_newline cs []
  | around =>
    rw [escapeTripleQuotes_append_newline, List.singleton_append, escapeTripleQuotes_cons]
    · rfl
    · exact fun _ h => absurd h (by decide)

/-- A printed block is read as its value, at any indentation. -/
theorem blockChars_printBlock {value : String} (h : IsBlockValue value) (n offset : Nat)
    (r : List Char) :
    ∃ cs chars, (printBlock value).toList = '"' :: '"' :: '"' :: cs ∧
      blockChars offset (spread n cs ++ r) = .ok (chars, (spread n cs).length) ∧
      blockValue chars = value := by
  obtain ⟨before, after, hframe, htext⟩ := toList_printBlock value
  refine ⟨_, spread n (before ++ value.toList ++ after), htext, ?_, blockValue_spread h hframe n⟩
  have hquotes : spread n ['"', '"', '"'] = ['"', '"', '"'] := spread_eq_self n (by decide)
  rw [← hframe.escape, spread_append, spread_escapeTripleQuotes, hquotes, List.append_assoc,
    List.cons_append, List.cons_append, List.cons_append, List.nil_append,
    blockChars_escapeTripleQuotes (hframe.isClosable n)]
  simp

end ResolverKit.Sdl
