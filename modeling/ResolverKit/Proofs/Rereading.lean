import ResolverKit.Proofs.ParsedNames
import ResolverKit.Proofs.PrintedLexemes

/-!
# Reading lexemes again

`Runs m ls a rest` says that from tokens of the lexemes `ls`, wherever they stand, the reader `m`
gives `a` and leaves tokens of the lexemes `rest`.

What a reader gives is read again from its own lexemes (`Rereads`).  There is one lemma for each
reader of the type system; it is proved about the value while that is read for the first time, when
the reader knows all that its grammar asks for.
-/

namespace ResolverKit.Sdl.Reader

variable {α β : Type}

/-! ## Runs -/

/-- From tokens of the first lexemes the reader gives this value and leaves tokens of the second. -/
def Runs (m : Reader α) (ls : List Lexeme) (a : α) (rest : List Lexeme) : Prop :=
  ∀ ts, Placed ls ts → ∃ ts', Placed rest ts' ∧ m ts = .ok (a, ts')

section

variable {m : Reader α} {k : α → Reader β} {a : α} {b : β} {l : Lexeme}
  {ls ls' rest R : List Lexeme}

theorem Runs.bind (hm : Runs m ls a ls') (hk : Runs (k a) ls' b rest) :
    Runs (m >>= k) ls b rest := by
  intro ts hts
  obtain ⟨ts', hts', hm⟩ := hm ts hts
  obtain ⟨ts'', hts'', hk⟩ := hk ts' hts'
  refine ⟨ts'', hts'', ?_⟩
  show (m ts >>= fun p => k p.1 p.2) = _
  rw [hm]
  exact hk

theorem Runs.pure : Runs (pure a) ls a ls := fun ts hts => ⟨ts, hts, rfl⟩

/-- The token in front is looked at; its place may be any. -/
theorem Runs.front {k : Lexeme × Nat → Reader β}
    (h : ∀ offset, Runs (k (l, offset)) (l :: R) b rest) :
    Runs (Reader.front >>= k) (l :: R) b rest := by
  intro ts hts
  obtain ⟨t, ts, ⟨offset, rfl⟩, hts', rfl⟩ := List.forall₂_cons_left_iff.1 hts
  obtain ⟨ts'', hts'', hk⟩ := h offset _ hts
  exact ⟨ts'', hts'', hk⟩

theorem runs_peek : Runs peek (l :: R) l (l :: R) := .front fun _ => .pure

/-- At the end of all tokens the end of the text is seen. -/
theorem runs_peek_head : Runs peek R (R.head?.getD .endOfText) R := by
  cases R with
  | nil =>
    intro ts hts
    obtain rfl := List.forall₂_nil_left_iff.1 hts
    exact ⟨[], .nil, rfl⟩
  | cons l R => exact runs_peek

theorem runs_peek_of_head? (h : R.head? = some l) : Runs peek R l R := by
  obtain ⟨R, rfl⟩ := List.head?_eq_some_iff.1 h
  exact runs_peek

theorem runs_advance : Runs advance (l :: R) () R := by
  intro ts hts
  obtain ⟨t, ts, -, hts', rfl⟩ := List.forall₂_cons_left_iff.1 hts
  cases hts' with
  | nil => exact ⟨[], .nil, rfl⟩
  | cons h hts'' =>
    obtain ⟨offset, rfl⟩ := h
    exact ⟨_, .cons ⟨offset, rfl⟩ hts'', rfl⟩

theorem runs_takes (p : Punctuator) : Runs (takes p) (.punct p :: R) true R := by
  refine .bind runs_peek ?_
  rw [if_pos rfl]
  exact .bind runs_advance .pure

theorem runs_takes_false {p : Punctuator} (h : R.head? ≠ some (.punct p)) :
    Runs (takes p) R false R := by
  refine .bind runs_peek_head ?_
  rw [if_neg]
  · exact .pure
  · cases R with
    | nil => simp
    | cons l R => simpa using h

theorem runs_expect (p : Punctuator) : Runs (expect p) (.punct p :: R) () R := by
  refine .bind runs_peek ?_
  rw [if_pos rfl]
  exact runs_advance

theorem runs_takesKeyword (text : String) : Runs (takesKeyword text) (.name text :: R) true R := by
  refine .bind runs_peek ?_
  rw [if_pos rfl]
  exact .bind runs_advance .pure

theorem runs_takesKeyword_false {text : String} (h : R.head? ≠ some (.name text)) :
    Runs (takesKeyword text) R false R := by
  refine .bind runs_peek_head ?_
  rw [if_neg]
  · exact .pure
  · cases R with
    | nil => simp
    | cons l R => simpa using h

theorem runs_expectKeyword (text : String) : Runs (expectKeyword text) (.name text :: R) () R := by
  refine .bind runs_peek ?_
  rw [if_pos rfl]
  exact runs_advance

theorem runs_name (n : String) : Runs name (.name n :: R) n R :=
  .bind runs_peek (.bind runs_advance .pure)

end

/-! ## What may follow -/

/-- None of these punctuators comes next. -/
def Avoids (ps : List Punctuator) (R : List Lexeme) : Prop := ∀ p ∈ ps, R.head? ≠ some (.punct p)

/-- The lexemes start with this one, if there are any. -/
def OpensWith (o : Lexeme) (ls : List Lexeme) : Prop := ∀ l ∈ ls.head?, l = o

section

variable {o l : Lexeme} {ls R : List Lexeme} {ps : List Punctuator}

theorem avoids_cons (h : ∀ p ∈ ps, l ≠ .punct p) : Avoids ps (l :: R) := by
  intro p hp
  simpa using h p hp

theorem avoids_name {n : String} : Avoids ps (.name n :: R) := avoids_cons fun _ _ h => nomatch h

theorem OpensWith.head?_ne (h : OpensWith o ls) (ho : o ≠ l) (hR : R.head? ≠ some l) :
    (ls ++ R).head? ≠ some l := by
  cases ls with
  | nil => exact hR
  | cons l' ls =>
    obtain rfl : l' = o := h l' rfl
    simpa using ho

theorem OpensWith.avoids (h : OpensWith o ls) (ho : ∀ p ∈ ps, o ≠ .punct p) (hR : Avoids ps R) :
    Avoids ps (ls ++ R) := fun p hp => h.head?_ne (ho p hp) (hR p hp)

theorem opensWith_wrap (o : Lexeme) (ls c : List Lexeme) : OpensWith o (wrap [o] ls c) := by
  unfold wrap
  split
  · exact fun l hl => nomatch hl
  · intro l hl
    exact (Option.some.inj hl).symm

theorem opensWith_directiveLexemes (ds : List Directive) :
    OpensWith (.punct .at) (directiveLexemes ds) := by
  cases ds with
  | nil => exact fun l hl => nomatch hl
  | cons d ds =>
    intro l hl
    exact (Option.some.inj hl).symm

theorem opensWith_defaultLexemes (v : Option Value) :
    OpensWith (.punct .equals) (defaultLexemes v) := by
  cases v with
  | none => exact fun l hl => nomatch hl
  | some v =>
    intro l hl
    exact (Option.some.inj hl).symm

end

/-! ## Repetition -/

/-- The value is read from its own lexemes wherever something of this kind follows. -/
structure Rereads (m : Reader α) (spell : α → List Lexeme) (follow : List Lexeme → Prop) (a : α) :
    Prop where
  sound : AllSound (spell a)
  runs : ∀ R, follow R → Runs m (spell a ++ R) a R

/-- Items with this spelling may stand in front of each other and of the closing punctuator. -/
structure Delimits (close : Punctuator) (spell : α → List Lexeme) (follow : List Lexeme → Prop) :
    Prop where
  head : ∀ a, ∃ l ls, spell a = l :: ls ∧ l ≠ .punct close
  next : ∀ a R, follow (spell a ++ R)
  closing : ∀ R, follow (.punct close :: R)

section

variable {item : Reader α} {spell : α → List Lexeme} {follow : List Lexeme → Prop} {as : List α}
  {R : List Lexeme} {close : Punctuator}

theorem Delimits.follows (h : Delimits close spell follow) (as : List α) (R : List Lexeme) :
    follow ((as.map spell).flatten ++ .punct close :: R) := by
  cases as with
  | nil => exact h.closing R
  | cons a as =>
    rw [List.map_cons, List.flatten_cons, List.append_assoc]
    exact h.next a _

/-- Items up to the closing punctuator. -/
theorem runs_itemsUntil (h : Delimits close spell follow)
    (hitem : ∀ a ∈ as, Rereads item spell follow a) :
    Runs (itemsUntil item close) ((as.map spell).flatten ++ .punct close :: R) as R := by
  intro ts hts
  induction as generalizing ts with
  | nil =>
    obtain ⟨ts', hts', htakes⟩ := runs_takes close ts hts
    refine ⟨ts', hts', ?_⟩
    rw [itemsUntil, htakes]
  | cons a as ih =>
    obtain ⟨l, ls, hspell, hl⟩ := h.head a
    rw [List.map_cons, List.flatten_cons, List.append_assoc] at hts
    obtain ⟨ts', hts', hread⟩ := (hitem a (.head _)).runs _ (h.follows as R) ts hts
    obtain ⟨ts'', hts'', hrest⟩ := ih (fun b hb => hitem b (.tail _ hb)) ts' hts'
    have hhere : (spell a ++ ((as.map spell).flatten ++ .punct close :: R)).head? ≠
        some (.punct close) := by simpa [hspell] using hl
    obtain ⟨_, -, htakes⟩ := runs_takes_false hhere ts hts
    -- the reader goes on only where it has moved
    have hlt : ts'.length < ts.length := by
      rw [← hts'.length_eq, ← hts.length_eq, hspell]
      simp only [List.length_append, List.length_cons]
      omega
    refine ⟨ts'', hts'', ?_⟩
    rw [itemsUntil, htakes]
    simp only [hread, if_pos hlt, hrest]

/-- Items between two punctuators. -/
theorem runs_between {opening : Punctuator} (h : Delimits close spell follow)
    (hitem : ∀ a ∈ as, Rereads item spell follow a) :
    Runs (between opening item close)
      (.punct opening :: (as.map spell).flatten ++ [.punct close] ++ R) as R := by
  have hlexemes : .punct opening :: (as.map spell).flatten ++ [.punct close] ++ R =
      .punct opening :: ((as.map spell).flatten ++ .punct close :: R) := by simp
  rw [hlexemes]
  exact .bind (runs_expect opening) (runs_itemsUntil h hitem)

/-- At least one item between two punctuators. -/
theorem runs_someBetween {opening : Punctuator} (h : Delimits close spell follow) (hne : as ≠ [])
    (hitem : ∀ a ∈ as, Rereads item spell follow a) :
    Runs (someBetween opening item close)
      (wrap [.punct opening] (as.map spell).flatten [.punct close] ++ R) as R := by
  obtain ⟨a, as, rfl⟩ := List.exists_cons_of_ne_nil hne
  have hflatten : ((a :: as).map spell).flatten ≠ [] := by
    obtain ⟨l, ls, hspell, -⟩ := h.head a
    simp [hspell]
  have hlexemes : wrap [.punct opening] ((a :: as).map spell).flatten [.punct close] ++ R =
      .punct opening :: (spell a ++ ((as.map spell).flatten ++ .punct close :: R)) := by
    rw [wrap, if_neg hflatten]
    simp
  rw [hlexemes]
  refine .bind (runs_expect opening) ?_
  refine .bind ((hitem a (.head _)).runs _ (h.follows as R)) ?_
  exact .bind (runs_itemsUntil h fun b hb => hitem b (.tail _ hb)) .pure

/-- Items between two punctuators, or nothing. -/
theorem runs_optionalBetween {opening : Punctuator} (h : Delimits close spell follow)
    (hitem : ∀ a ∈ as, Rereads item spell follow a) (hR : R.head? ≠ some (.punct opening)) :
    Runs (optionalBetween opening item close)
      (wrap [.punct opening] (as.map spell).flatten [.punct close] ++ R) as R := by
  by_cases hnil : as = []
  · subst hnil
    refine .bind runs_peek_head ?_
    rw [if_neg]
    · exact .pure
    · cases R with
      | nil => simp [wrap]
      | cons l R => simpa [wrap] using hR
  · have hsome : Runs (someBetween opening item close)
        (wrap [.punct opening] (as.map spell).flatten [.punct close] ++ R) as R :=
      runs_someBetween h hnil hitem
    have hfront : ∃ ls, wrap [.punct opening] (as.map spell).flatten [.punct close] ++ R =
        .punct opening :: ls := by
      obtain ⟨a, as, rfl⟩ := List.exists_cons_of_ne_nil hnil
      obtain ⟨l, ls, hspell, -⟩ := h.head a
      exact ⟨_, by rw [wrap, if_neg (by simp [hspell])]; rfl⟩
    obtain ⟨ls, hls⟩ := hfront
    refine .bind (runs_peek_of_head? (by rw [hls]; rfl)) ?_
    rw [if_pos rfl]
    exact hsome

/-- Items that each stand behind the same punctuator. -/
theorem runs_separatedTail {sep : Punctuator} (hitem : ∀ a ∈ as, Rereads item spell follow a)
    (hnext : ∀ R, follow (.punct sep :: R)) (hR : follow R) (hsep : R.head? ≠ some (.punct sep)) :
    Runs (separatedTail item sep) ((as.map fun a => .punct sep :: spell a).flatten ++ R) as R := by
  intro ts hts
  induction as generalizing ts with
  | nil =>
    obtain ⟨ts', hts', htakes⟩ := runs_takes_false hsep ts hts
    refine ⟨ts', hts', ?_⟩
    rw [separatedTail, htakes]
  | cons a as ih =>
    rw [List.map_cons, List.flatten_cons, List.append_assoc, List.cons_append] at hts
    have hfollow : follow ((as.map fun a => .punct sep :: spell a).flatten ++ R) := by
      cases as with
      | nil => exact hR
      | cons b bs => exact hnext _
    obtain ⟨behind, hbehind, htakes⟩ := runs_takes sep ts hts
    obtain ⟨ts', hts', hread⟩ := (hitem a (.head _)).runs _ hfollow behind hbehind
    obtain ⟨ts'', hts'', hrest⟩ := ih (fun b hb => hitem b (.tail _ hb)) ts' hts'
    have hlt : ts'.length < ts.length := by
      rw [← hts'.length_eq, ← hts.length_eq]
      simp only [List.length_append, List.length_cons]
      omega
    refine ⟨ts'', hts'', ?_⟩
    rw [separatedTail, htakes]
    simp only [hread, if_pos hlt, hrest]

end

/-- Names with a sign between them. -/
theorem runs_separated {item : Reader String} {sep : Punctuator} {names : List String}
    {R : List Lexeme} (hne : names ≠ [])
    (hitem : ∀ n ∈ names, Rereads item (fun n => [.name n]) (fun _ => True) n)
    (hR : R.head? ≠ some (.punct sep)) :
    Runs (separated item sep) (nameLexemes sep names ++ R) names R := by
  obtain ⟨n, names, rfl⟩ := List.exists_cons_of_ne_nil hne
  have hlexemes : ∀ (n : String) (names : List String), nameLexemes sep (n :: names) ++ R =
      .name n :: ((names.map fun n => [.punct sep, .name n]).flatten ++ R) := by
    intro n names
    induction names generalizing n with
    | nil => simp
    | cons m names ih => rw [nameLexemes_cons_cons, List.cons_append, List.cons_append, ih]; simp
  rw [hlexemes]
  have hskip : Runs (discard (takes sep))
      (.name n :: ((names.map fun n => [.punct sep, .name n]).flatten ++ R)) ()
      (.name n :: ((names.map fun n => [.punct sep, .name n]).flatten ++ R)) :=
    Runs.bind (k := fun _ => Pure.pure ()) (runs_takes_false (by simp)) .pure
  refine .bind hskip (.bind ((hitem n (.head _)).runs _ trivial) (.bind ?_ .pure))
  exact runs_separatedTail (fun m hm => hitem m (.tail _ hm)) (fun _ => trivial) trivial hR

/-! ## Values, types and directives -/

theorem lexemes_namedValue (text : String) : (namedValue text).lexemes = [.name text] := by
  unfold namedValue
  split_ifs with htrue hfalse hnull
  · rw [htrue]
    rfl
  · rw [hfalse]
    rfl
  · rw [hnull]
    rfl
  · rfl

/-- A value of one lexeme, which is no bracket. -/
def RereadsLeaf (v : Value) : Prop :=
  ∃ l, v.lexemes = [l] ∧ l.IsSound ∧ l ≠ .punct .bracketL ∧ l ≠ .punct .braceL ∧
    ∀ R, Runs (leaf true) (l :: R) v R

theorem rereads_leaf : Yields RereadsLeaf (leaf true) := by
  refine .bind yields_peek fun kind hkind => ?_
  split
  · exact .bind keeps_advance fun _ _ => .pure ⟨_, rfl, hkind, by simp, by simp,
      fun R => .bind runs_peek (.bind runs_advance .pure)⟩
  · exact .bind keeps_advance fun _ _ => .pure ⟨_, rfl, hkind, by simp, by simp,
      fun R => .bind runs_peek (.bind runs_advance .pure)⟩
  · exact .bind keeps_advance fun _ _ => .pure ⟨_, rfl, hkind, by simp, by simp,
      fun R => .bind runs_peek (.bind runs_advance .pure)⟩
  · exact .bind keeps_advance fun _ _ => .pure ⟨_, lexemes_namedValue _, hkind, by simp, by simp,
      fun R => .bind runs_peek (.bind runs_advance .pure)⟩
  · exact yields_variableInConstant
  · exact yields_unexpected

def entryLexeme {α : Type} (spell : α → List Lexeme) (p : String × α) : List Lexeme :=
  .name p.1 :: .punct .colon :: spell p.2

theorem rereads_entry {item : Reader α} {spell : α → List Lexeme} {follow : List Lexeme → Prop}
    (h : Yields (Rereads item spell follow) item) :
    Yields (Rereads (entry item) (entryLexeme spell) follow) (entry item) := by
  refine .bind yields_name fun n hn => .bind (keeps_expect .colon) fun _ _ => ?_
  refine .bind h fun a ha => .pure ⟨by simp [entryLexeme, hn, ha.sound], fun R hR => ?_⟩
  exact .bind (runs_name n) (.bind (runs_expect .colon) (.bind (ha.runs R hR) .pure))

theorem delimits_value : Delimits .bracketR Value.lexemes (fun _ => True) where
  head := by
    intro v
    cases v <;> exact ⟨_, _, rfl, by simp⟩
  next := fun _ _ => trivial
  closing := fun _ => trivial

theorem delimits_entry (close : Punctuator) :
    Delimits close (entryLexeme Value.lexemes) (fun _ => True) where
  head := fun _ => ⟨_, _, rfl, fun h => nomatch h⟩
  next := fun _ _ => trivial
  closing := fun _ => trivial

theorem valueLexemes_eq_map (vs : List Value) : valueLexemes vs = vs.map Value.lexemes := by
  induction vs with
  | nil => rfl
  | cons v vs ih => rw [valueLexemes, ih, List.map_cons]

theorem entryLexemes_eq_map (es : List (String × Value)) :
    entryLexemes es = es.map (entryLexeme Value.lexemes) := by
  induction es with
  | nil => rfl
  | cons e es ih =>
    rw [entryLexemes, ih, List.map_cons]
    rfl

theorem rereads_value (depth : Nat) :
    Yields (Rereads (value true depth) Value.lexemes (fun _ => True)) (value true depth) := by
  -- by induction on the depth, as the reader: what it gives is nested no deeper than it may read
  -- a leaf is read at any depth
  have hleaf (depth : Nat) (v : Value) (h : RereadsLeaf v) :
      Rereads (value true depth) Value.lexemes (fun _ => True) v := by
    obtain ⟨l, hl, hsound, hbracket, hbrace, hruns⟩ := h
    refine ⟨by simp [hl, hsound], fun R _ => ?_⟩
    rw [hl, List.singleton_append]
    cases depth with
    | zero =>
      refine .bind runs_peek ?_
      split
      · exact absurd rfl hbracket
      · exact absurd rfl hbrace
      · exact hruns R
    | succ depth =>
      refine .bind runs_peek ?_
      split
      · exact absurd rfl hbracket
      · exact absurd rfl hbrace
      · exact hruns R
  induction depth with
  | zero =>
    refine .bind yields_peek fun kind _ => ?_
    split
    · exact yields_refuse
    · exact yields_refuse
    · exact rereads_leaf.mono (hleaf 0)
  | succ depth ih =>
    refine .bind yields_peek fun kind _ => ?_
    split
    · refine .bind (yields_between ih .bracketL .bracketR) fun vs hvs => .pure ⟨?_, fun R _ => ?_⟩
      · rw [Value.lexemes, valueLexemes_eq_map]
        simpa using fun v hv => (hvs v hv).sound
      · rw [Value.lexemes, valueLexemes_eq_map]
        exact .bind (runs_peek_of_head? rfl) (.bind (runs_between delimits_value hvs) .pure)
    · refine .bind (yields_between (rereads_entry ih) .braceL .braceR) fun es hes =>
        .pure ⟨?_, fun R _ => ?_⟩
      · rw [Value.lexemes, entryLexemes_eq_map]
        simpa [-allSound_flatten, allSound_flatten_map] using fun n v he => (hes (n, v) he).sound
      · rw [Value.lexemes, entryLexemes_eq_map]
        exact .bind (runs_peek_of_head? rfl) (.bind (runs_between (delimits_entry _) hes) .pure)
    · exact rereads_leaf.mono (hleaf (depth + 1))

theorem runs_bang {required : Bool} {R : List Lexeme} (hR : Avoids [.bang] R) :
    Runs (takes .bang) (bangLexemes required ++ R) required R := by
  cases required with
  | false => exact runs_takes_false (hR .bang (.head _))
  | true => exact runs_takes .bang

theorem rereads_typeRef (depth : Nat) :
    Yields (Rereads (typeRef depth) TypeRef.lexemes (Avoids [.bang])) (typeRef depth) := by
  have hbang (required : Bool) : AllSound (bangLexemes required) := by
    cases required <;> simp [bangLexemes]
  -- a name is read at any depth
  have hnamed (depth : Nat) : Yields (Rereads (typeRef depth) TypeRef.lexemes (Avoids [.bang]))
      (do let n ← name; return TypeRef.named n (← takes .bang)) := by
    refine .bind yields_name fun n hn => .bind (keeps_takes .bang) fun required _ => .pure ?_
    refine ⟨by simp [TypeRef.lexemes, hn, hbang], fun R hR => ?_⟩
    have hread : Runs (do let n ← name; return TypeRef.named n (← takes .bang))
        ((TypeRef.named n required).lexemes ++ R) (.named n required) R :=
      .bind (runs_name n) (.bind (runs_bang hR) .pure)
    have hname : ((TypeRef.named n required).lexemes ++ R).head? ≠ some (.punct .bracketL) := by
      simp [TypeRef.lexemes]
    cases depth <;> exact .bind (runs_takes_false hname) hread
  induction depth with
  | zero =>
    refine .bind (keeps_takes .bracketL) fun b _ => ?_
    split
    · exact yields_refuse
    · exact hnamed 0
  | succ depth ih =>
    refine .bind (keeps_takes .bracketL) fun b _ => ?_
    split
    · refine .bind ih fun item hitem => .bind (keeps_expect .bracketR) fun _ _ => ?_
      refine .bind (keeps_takes .bang) fun required _ => .pure ⟨?_, fun R hR => ?_⟩
      · simp [TypeRef.lexemes, hitem.sound, hbang]
      · have hlexemes : (TypeRef.list item required).lexemes ++ R = .punct .bracketL ::
            (item.lexemes ++ .punct .bracketR :: (bangLexemes required ++ R)) := by
          simp [TypeRef.lexemes]
        rw [hlexemes]
        refine .bind (runs_takes .bracketL) ?_
        rw [if_pos rfl]
        refine .bind (hitem.runs _ (avoids_cons (by simp))) (.bind (runs_expect .bracketR) ?_)
        exact .bind (runs_bang hR) .pure
    · exact hnamed (depth + 1)

theorem rereads_arguments (depth : Nat) :
    Yields (Rereads (arguments true depth) argumentLexemes (Avoids [.parenL]))
      (arguments true depth) := by
  refine .bind (yields_optionalBetween (rereads_entry (rereads_value depth)) .parenL .parenR)
    fun es hes => .pure ?_
  have hlexemes : argumentLexemes (es.map fun e => ⟨e.1, e.2⟩) =
      wrap [.punct .parenL] (es.map (entryLexeme Value.lexemes)).flatten [.punct .parenR] := by
    rw [argumentLexemes, List.map_map]
    rfl
  refine ⟨?_, fun R hR => ?_⟩
  · rw [hlexemes, allSound_wrap (by simp) (by simp), allSound_flatten_map]
    exact fun e he => (hes e he).sound
  · rw [hlexemes]
    exact .bind (runs_optionalBetween (delimits_entry _) hes (hR .parenL (.head _))) .pure

/-- The lexemes of a use of a directive behind its mark. -/
def usedLexemes (d : Directive) : List Lexeme := .name d.name :: argumentLexemes d.arguments

theorem rereads_directives :
    Yields (Rereads directives directiveLexemes (Avoids [.at, .parenL])) directives := by
  have hdirective : Yields (Rereads (do return ⟨← name, ← arguments true maxDepth⟩) usedLexemes
      (Avoids [.parenL])) (do return ⟨← name, ← arguments true maxDepth⟩) := by
    refine .bind yields_name fun n hn => .bind (rereads_arguments maxDepth) fun as has => .pure ?_
    refine ⟨by simp [usedLexemes, hn, has.sound], fun R hR => ?_⟩
    exact .bind (runs_name n) (.bind (has.runs R hR) .pure)
  have hread := yields_separatedTail hdirective .at
  rw [← directivesFrom_eq] at hread
  refine hread.mono fun ds hds => ⟨?_, fun R hR => ?_⟩
  · rw [directiveLexemes, allSound_flatten_map]
    exact fun d hd => by simpa [Directive.lexemes, usedLexemes] using (hds d hd).sound
  · have hruns : Runs (directivesFrom true maxDepth) (directiveLexemes ds ++ R) ds R := by
      rw [directivesFrom_eq]
      exact runs_separatedTail hds (fun _ => avoids_cons (by simp)) (fun p hp => hR p (.tail _ hp))
        (hR .at (.head _))
    exact hruns

/-! ## Parts of definitions -/

def NoDescription (R : List Lexeme) : Prop := ∀ lit, R.head? ≠ some (.string lit)

theorem rereads_description :
    Yields (Rereads description descriptionLexemes NoDescription) description := by
  refine .bind yields_peek fun kind hkind => ?_
  split
  · next lit =>
    refine .bind keeps_advance fun _ _ => .pure ⟨?_, fun R _ => ?_⟩
    · simpa [descriptionLexemes] using hkind
    · exact .bind runs_peek (.bind runs_advance .pure)
  · refine .pure ⟨by simp [descriptionLexemes], fun R hR => ?_⟩
    refine .bind runs_peek_head ?_
    split
    · next lit hlit =>
      cases R with
      | nil => cases hlit
      | cons l R => exact absurd (congrArg some hlit) (hR lit)
    · exact .pure

theorem rereads_default :
    Yields (Rereads default defaultLexemes (Avoids [.equals])) default := by
  refine .bind (keeps_takes .equals) fun b _ => ?_
  split
  · refine .bind (rereads_value maxDepth) fun v hv => .pure ⟨?_, fun R _ => ?_⟩
    · simpa [defaultLexemes] using hv.sound
    · refine .bind (runs_takes .equals) ?_
      rw [if_pos rfl]
      exact .bind (hv.runs R trivial) .pure
  · refine .pure ⟨by simp [defaultLexemes], fun R hR => ?_⟩
    refine .bind (runs_takes_false (hR .equals (.head _))) ?_
    rw [if_neg Bool.false_ne_true]
    exact .pure

/-- Whatever follows an item of a block or of parentheses: no part of the item. -/
abbrev Behind : List Lexeme → Prop := Avoids [.bang, .equals, .at, .parenL]

theorem Avoids.mono {ps qs : List Punctuator} {R : List Lexeme} (h : Avoids qs R) (hps : ps ⊆ qs) :
    Avoids ps R := fun p hp => h p (hps hp)

theorem rereads_inputValue :
    Yields (Rereads inputValue InputValue.lexemes Behind) inputValue := by
  refine .bind rereads_description fun d hd => .bind yields_name fun n hn => ?_
  refine .bind (keeps_expect .colon) fun _ _ => .bind (rereads_typeRef maxDepth) fun t ht => ?_
  refine .bind rereads_default fun v hv => .bind rereads_directives fun ds hds => .pure ⟨?_, ?_⟩
  · simp [InputValue.lexemes, hd.sound, hn, ht.sound, hv.sound, hds.sound]
  · intro R hR
    have hlexemes : InputValue.lexemes ⟨d, n, t, v, ds⟩ ++ R = descriptionLexemes d ++
        .name n :: .punct .colon ::
          (t.lexemes ++ (defaultLexemes v ++ (directiveLexemes ds ++ R))) := by
      simp [InputValue.lexemes]
    have hdirectives : Avoids [.bang, .equals] (directiveLexemes ds ++ R) :=
      (opensWith_directiveLexemes ds).avoids (by simp) (hR.mono (by decide))
    have hdefault : Avoids [.bang] (defaultLexemes v ++ (directiveLexemes ds ++ R)) :=
      (opensWith_defaultLexemes v).avoids (by simp) (hdirectives.mono (by decide))
    rw [hlexemes]
    refine .bind (hd.runs _ (by simp [NoDescription])) (.bind (runs_name n) ?_)
    refine .bind (runs_expect .colon) (.bind (ht.runs _ hdefault) ?_)
    refine .bind (hv.runs _ (hdirectives.mono (by decide))) ?_
    exact .bind (hds.runs R (hR.mono (by decide))) .pure

/-- Items that start with a description or a name. -/
theorem delimits_described {spell : α → List Lexeme} {close : Punctuator}
    (h : ∀ a, ∃ d n ls, spell a = descriptionLexemes d ++ .name n :: ls)
    (hclose : close ∉ [.bang, .equals, .at, .parenL]) : Delimits close spell Behind := by
  have hfront (a : α) : ∃ l ls, spell a = l :: ls ∧ ∀ p, l ≠ .punct p := by
    obtain ⟨d, n, ls, hspell⟩ := h a
    cases d with
    | none => exact ⟨_, _, hspell, fun _ h => nomatch h⟩
    | some lit => exact ⟨_, _, hspell, fun _ h => nomatch h⟩
  constructor
  · intro a
    obtain ⟨l, ls, hspell, hl⟩ := hfront a
    exact ⟨l, ls, hspell, hl close⟩
  · intro a R
    obtain ⟨l, ls, hspell, hl⟩ := hfront a
    rw [hspell]
    exact avoids_cons fun p _ => hl p
  · intro R
    refine avoids_cons fun p hp h => hclose ?_
    obtain rfl := Lexeme.punct.inj h
    exact hp

/-- Items between two punctuators, or nothing. -/
theorem rereads_optionalBetween {item : Reader α} {spell : α → List Lexeme}
    {follow : List Lexeme → Prop} (opening close : Punctuator)
    (hitem : Yields (Rereads item spell follow) item) (h : Delimits close spell follow) :
    Yields (Rereads (optionalBetween opening item close)
      (fun as => wrap [.punct opening] (as.map spell).flatten [.punct close]) (Avoids [opening]))
      (optionalBetween opening item close) := by
  refine (yields_optionalBetween hitem opening close).mono fun as has => ⟨?_, fun R hR => ?_⟩
  · rw [allSound_wrap (by simp) (by simp), allSound_flatten_map]
    exact fun a ha => (has a ha).sound
  · exact runs_optionalBetween h has (hR opening (.head _))

theorem rereads_argumentDefs :
    Yields (Rereads argumentDefs argumentDefLexemes (Avoids [.parenL])) argumentDefs :=
  rereads_optionalBetween .parenL .parenR rereads_inputValue
    (delimits_described (fun _ => ⟨_, _, _, rfl⟩) (by decide))

theorem rereads_fieldDef : Yields (Rereads fieldDef FieldDef.lexemes Behind) fieldDef := by
  refine .bind rereads_description fun d hd => .bind yields_name fun n hn => ?_
  refine .bind rereads_argumentDefs fun vs hvs => .bind (keeps_expect .colon) fun _ _ => ?_
  refine .bind (rereads_typeRef maxDepth) fun t ht => ?_
  refine .bind rereads_directives fun ds hds => .pure ⟨?_, fun R hR => ?_⟩
  · simp [FieldDef.lexemes, hd.sound, hn, hvs.sound, ht.sound, hds.sound]
  · have hlexemes : FieldDef.lexemes ⟨d, n, vs, t, ds⟩ ++ R = descriptionLexemes d ++
        .name n :: (argumentDefLexemes vs ++
          .punct .colon :: (t.lexemes ++ (directiveLexemes ds ++ R))) := by
      simp [FieldDef.lexemes]
    have hdirectives : Avoids [.bang] (directiveLexemes ds ++ R) :=
      (opensWith_directiveLexemes ds).avoids (by simp) (hR.mono (by decide))
    rw [hlexemes]
    refine .bind (hd.runs _ (by simp [NoDescription])) (.bind (runs_name n) ?_)
    refine .bind (hvs.runs _ (avoids_cons (by simp))) (.bind (runs_expect .colon) ?_)
    refine .bind (ht.runs _ hdirectives) (.bind (hds.runs R (hR.mono (by decide))) .pure)

theorem peek_eq_ok {ts rest : List Token} {l : Lexeme} (h : peek ts = .ok (l, rest)) :
    rest = ts ∧ l = ((ts.head?.bind fun t => match t with
      | .lexeme kind _ => some kind
      | .broken _ => none).getD .endOfText) := by
  rcases ts with - | ⟨⟨kind, offset⟩ | e, r⟩ <;> cases h <;> exact ⟨rfl, rfl⟩

/-- Where a name is read, it is the token in front. -/
theorem name_eq_ok {ts rest : List Token} {n : String} (h : name ts = .ok (n, rest)) :
    ∃ offset, ts.head? = some (.lexeme (.name n) offset) := by
  obtain ⟨l, ts', hpeek, hl⟩ := bind_eq_ok h
  rcases ts with - | ⟨⟨kind, offset⟩ | e, r⟩
  · cases hpeek
    cases hl
  · cases hpeek
    cases kind with
    | name n' =>
      obtain ⟨_, _, -, hn⟩ := bind_eq_ok hl
      cases hn
      exact ⟨offset, rfl⟩
    | _ => cases hl
  · cases hpeek

theorem rereads_enumValue : Yields (Rereads enumValue EnumValue.lexemes Behind) enumValue := by
  refine .bind rereads_description fun d hd => ?_
  -- The reader looks at the token in front before it reads the name.  That both are the same is not
  -- among what its parts say of themselves, so it is followed step by step.
  intro ts v rest hts h
  obtain ⟨l, ts', hpeek, hl⟩ := bind_eq_ok h
  obtain ⟨rfl, hfront⟩ := peek_eq_ok hpeek
  have hfail (reason : Lexeme → Reason) :
      (refuse reason : Reader EnumValue) ts' ≠ .ok (v, rest) := fun hok =>
    (yields_refuse (P := fun _ => False) _ _ _ hts hok).1
  obtain ⟨m, hm, hl⟩ : ∃ m : Reader EnumValue, _ = m ∧ m ts' = .ok (v, rest) := ⟨_, rfl, hl⟩
  split at hm
  · exact absurd (hm ▸ hl) (hfail _)
  · exact absurd (hm ▸ hl) (hfail _)
  · exact absurd (hm ▸ hl) (hfail _)
  · next htrue hfalse hnull =>
    subst hm
    -- the name is the token that was looked at
    obtain ⟨n, ts₁, hname, hl⟩ := bind_eq_ok hl
    obtain ⟨offset, hhead⟩ := name_eq_ok hname
    have hvalue : l.value? = some n := by rw [hfront, hhead]; rfl
    rw [hvalue] at htrue hfalse hnull
    obtain ⟨hn, hts₁⟩ := yields_name _ _ _ hts hname
    obtain ⟨ds, ts₂, hread, hl⟩ := bind_eq_ok hl
    obtain ⟨hds, hts₂⟩ := rereads_directives _ _ _ (hts₁.sound hts) hread
    cases hl
    refine ⟨⟨by simp [EnumValue.lexemes, hd.sound, hn, hds.sound], fun R hR => ?_⟩,
      hts₁.trans hts₂⟩
    have hlexemes : EnumValue.lexemes ⟨d, n, ds⟩ ++ R =
        descriptionLexemes d ++ .name n :: (directiveLexemes ds ++ R) := by
      simp [EnumValue.lexemes]
    rw [hlexemes]
    refine .bind (hd.runs _ (by simp [NoDescription])) (.bind runs_peek ?_)
    split
    · next heq => exact absurd heq htrue
    · next heq => exact absurd heq hfalse
    · next heq => exact absurd heq hnull
    · exact .bind (runs_name n) (.bind (hds.runs R (hR.mono (by decide))) .pure)

/-! ## Names in a row -/

theorem rereads_name : Yields (Rereads name (fun n => [.name n]) (fun _ => True)) name :=
  yields_name.mono fun n hn => ⟨by simpa using hn, fun _ _ => runs_name n⟩

theorem allSound_wrap_nameLexemes {o : Lexeme} (ho : o.IsSound) {sep : Punctuator}
    {names : List String} (h : ∀ n ∈ names, Rereads name (fun n => [.name n]) (fun _ => True) n) :
    AllSound (wrap [o] (nameLexemes sep names) []) := by
  rw [allSound_wrap (by simpa using ho) (by simp), allSound_nameLexemes]
  exact fun n hn => by simpa using (h n hn).sound

theorem rereads_interfaces : Yields (Rereads interfaces interfaceLexemes
    (fun R => R.head? ≠ some (.name "implements") ∧ Avoids [.amp] R)) interfaces := by
  refine .bind (keeps_takesKeyword _) fun b _ => ?_
  split
  · refine (yields_separated rereads_name .amp).mono fun names hnames => ?_
    obtain ⟨hne, hnames⟩ := hnames
    refine ⟨?_, fun R hR => ?_⟩
    · exact allSound_wrap_nameLexemes (isSound_name.2 (by decide)) hnames
    · rw [interfaceLexemes, wrap, if_neg (nameLexemes_ne_nil hne), List.append_nil]
      refine .bind (runs_takesKeyword _) ?_
      rw [if_pos rfl]
      exact runs_separated hne hnames (hR.2 .amp (.head _))
  · refine .pure ⟨by simp [interfaceLexemes, wrap], fun R hR => ?_⟩
    refine .bind (runs_takesKeyword_false hR.1) ?_
    rw [if_neg Bool.false_ne_true]
    exact .pure

theorem rereads_members : Yields (Rereads members
    (fun names => wrap [.punct .equals] (nameLexemes .pipe names) []) (Avoids [.equals, .pipe]))
    members := by
  refine .bind (keeps_takes .equals) fun b _ => ?_
  split
  · refine (yields_separated rereads_name .pipe).mono fun names hnames => ?_
    obtain ⟨hne, hnames⟩ := hnames
    refine ⟨?_, fun R hR => ?_⟩
    · exact allSound_wrap_nameLexemes (isSound_punct .equals) hnames
    · rw [wrap, if_neg (nameLexemes_ne_nil hne), List.append_nil]
      refine .bind (runs_takes _) ?_
      rw [if_pos rfl]
      exact runs_separated hne hnames (hR .pipe (by simp))
  · refine .pure ⟨by simp [wrap], fun R hR => ?_⟩
    refine .bind (runs_takes_false (hR .equals (.head _))) ?_
    rw [if_neg Bool.false_ne_true]
    exact .pure

/-! ## Schemas and directives -/

theorem ofText?_eq_some {text : String} {k : OperationKind}
    (h : OperationKind.ofText? text = some k) : text = k.text := by
  unfold OperationKind.ofText? at h
  split at h <;> cases h <;> rfl

theorem rereads_operationKind :
    Yields (Rereads operationKind (fun k => [.name k.text]) (fun _ => True)) operationKind := by
  refine .bind yields_front fun p _ => .bind yields_name fun text htext => ?_
  split
  · next k hk =>
    refine .pure ⟨by simpa [← ofText?_eq_some hk] using htext, fun R _ => ?_⟩
    refine .front fun offset => .bind (runs_name _) ?_
    cases k <;> exact .pure
  · exact .throw

theorem rereads_operationType :
    Yields (Rereads operationType operationTypeLexemes (fun _ => True)) operationType := by
  refine .bind rereads_operationKind fun k hk => .bind (keeps_expect .colon) fun _ _ => ?_
  refine .bind yields_name fun n hn => .pure ⟨?_, fun R _ => ?_⟩
  · have hkind : IsName k.text := by simpa using hk.sound
    simp [operationTypeLexemes, hkind, hn]
  · exact .bind (hk.runs _ trivial) (.bind (runs_expect .colon) (.bind (runs_name n) .pure))

theorem rereads_location :
    Yields (Rereads location (fun n => [.name n]) (fun _ => True)) location := by
  refine .bind yields_front fun p _ => .bind yields_name fun text htext => ?_
  split
  · next hmem =>
    refine .pure ⟨by simpa using htext, fun R _ => ?_⟩
    refine .front fun offset => .bind (runs_name _) ?_
    rw [if_pos hmem]
    exact .pure
  · exact .throw

theorem delimits_operationType : Delimits .braceR operationTypeLexemes (fun _ => True) where
  head := fun _ => ⟨_, _, rfl, fun h => nomatch h⟩
  next := fun _ _ => trivial
  closing := fun _ => trivial

/-! ## Types -/

/-- What may follow a definition: the next one, or the end of the text. -/
structure AtDefinition (R : List Lexeme) : Prop where
  noPunct : ∀ p, R.head? ≠ some (.punct p)
  noInterfaces : R.head? ≠ some (.name "implements")

theorem AtDefinition.avoids {R : List Lexeme} (h : AtDefinition R) (ps : List Punctuator) :
    Avoids ps R := fun p _ => h.noPunct p

/-- The last part of a definition may be missing. -/
theorem AtDefinition.avoids_wrap {R : List Lexeme} (h : AtDefinition R) {o : Lexeme}
    {ps : List Punctuator} (ho : ∀ p ∈ ps, o ≠ .punct p) (ls c : List Lexeme) :
    Avoids ps (wrap [o] ls c ++ R) := (opensWith_wrap o ls c).avoids ho (h.avoids ps)

/-- The body of a type as a reader of this kind gives it. -/
structure RereadsBody (kind : TypeKind) (p : String × List Directive × TypeShape) : Prop where
  kind_eq : p.2.2.kind = kind
  body : Rereads (typeBody kind) (fun p => .name p.1 :: bodyLexemes p.2.1 p.2.2) AtDefinition p

/-- Directives and a block, which may both be missing. -/
theorem runs_directives_block {item : Reader α} {spell : α → List Lexeme} {ds : List Directive}
    {as : List α} {R : List Lexeme} (k : List Directive → List α → β)
    (hds : Rereads directives directiveLexemes (Avoids [.at, .parenL]) ds)
    (has : Rereads (optionalBetween .braceL item .braceR)
      (fun as => wrap [.punct .braceL] (as.map spell).flatten [.punct .braceR])
      (Avoids [.braceL]) as) (hR : AtDefinition R) :
    Runs (do let ds ← directives; return k ds (← optionalBetween .braceL item .braceR))
      (directiveLexemes ds ++ (bracedLexemes (as.map spell) ++ R)) (k ds as) R :=
  .bind (hds.runs _ (hR.avoids_wrap (by simp) _ _)) (.bind (has.runs R (hR.avoids _)) .pure)

/-- Interfaces before directives and a block. -/
theorem atInterfaces {ds : List Directive} {entries : List (List Lexeme)} {R : List Lexeme}
    (hR : AtDefinition R) :
    (directiveLexemes ds ++ (bracedLexemes entries ++ R)).head? ≠ some (.name "implements") ∧
      Avoids [.amp] (directiveLexemes ds ++ (bracedLexemes entries ++ R)) := by
  have hopens : OpensWith (.punct .braceL) (bracedLexemes entries) := opensWith_wrap _ _ _
  constructor
  · exact (opensWith_directiveLexemes ds).head?_ne (by simp)
      (hopens.head?_ne (by simp) hR.noInterfaces)
  · exact (opensWith_directiveLexemes ds).avoids (by simp)
      (hopens.avoids (by simp) (hR.avoids _))

theorem rereads_typeBody (kind : TypeKind) : Yields (RereadsBody kind) (typeBody kind) := by
  have hfields := rereads_optionalBetween .braceL .braceR rereads_fieldDef
    (delimits_described (fun _ => ⟨_, _, _, rfl⟩) (by decide))
  have hvalues := rereads_optionalBetween .braceL .braceR rereads_enumValue
    (delimits_described (fun _ => ⟨_, _, _, rfl⟩) (by decide))
  have hinputs := rereads_optionalBetween .braceL .braceR rereads_inputValue
    (delimits_described (fun _ => ⟨_, _, _, rfl⟩) (by decide))
  refine .bind yields_name fun n hn => ?_
  cases kind with
  | scalar =>
    refine .bind rereads_directives fun ds hds => .pure ⟨rfl, ?_, fun R hR => ?_⟩
    · simp [bodyLexemes, hn, hds.sound]
    · exact .bind (runs_name n) (.bind (hds.runs R (hR.avoids _)) .pure)
  | object =>
    refine .bind rereads_interfaces fun is his => .bind rereads_directives fun ds hds => ?_
    refine .bind hfields fun fs hfs => .pure ⟨rfl, ?_, fun R hR => ?_⟩
    · simp [bodyLexemes, bracedLexemes, hn, his.sound, hds.sound, hfs.sound]
    · simp only [bodyLexemes, List.cons_append, List.append_assoc]
      exact .bind (runs_name n) (.bind (his.runs _ (atInterfaces hR))
        (runs_directives_block (fun ds fs => (n, ds, TypeShape.object is fs)) hds hfs hR))
  | interface =>
    refine .bind rereads_interfaces fun is his => .bind rereads_directives fun ds hds => ?_
    refine .bind hfields fun fs hfs => .pure ⟨rfl, ?_, fun R hR => ?_⟩
    · simp [bodyLexemes, bracedLexemes, hn, his.sound, hds.sound, hfs.sound]
    · simp only [bodyLexemes, List.cons_append, List.append_assoc]
      exact .bind (runs_name n) (.bind (his.runs _ (atInterfaces hR))
        (runs_directives_block (fun ds fs => (n, ds, TypeShape.interface is fs)) hds hfs hR))
  | union =>
    refine .bind rereads_directives fun ds hds => ?_
    refine .bind rereads_members fun ms hms => .pure ⟨rfl, ?_, fun R hR => ?_⟩
    · simp [bodyLexemes, hn, hds.sound, hms.sound]
    · simp only [bodyLexemes, List.cons_append, List.append_assoc]
      exact .bind (runs_name n) (.bind (hds.runs _ (hR.avoids_wrap (by simp) _ _))
        (.bind (hms.runs R (hR.avoids _)) .pure))
  | «enum» =>
    refine .bind rereads_directives fun ds hds => ?_
    refine .bind hvalues fun vs hvs => .pure ⟨rfl, ?_, fun R hR => ?_⟩
    · simp [bodyLexemes, bracedLexemes, hn, hds.sound, hvs.sound]
    · simp only [bodyLexemes, List.cons_append, List.append_assoc]
      exact .bind (runs_name n)
        (runs_directives_block (fun ds vs => (n, ds, TypeShape.enum vs)) hds hvs hR)
  | input =>
    refine .bind rereads_directives fun ds hds => ?_
    refine .bind hinputs fun fs hfs => .pure ⟨rfl, ?_, fun R hR => ?_⟩
    · simp [bodyLexemes, bracedLexemes, hn, hds.sound, hfs.sound]
    · simp only [bodyLexemes, List.cons_append, List.append_assoc]
      exact .bind (runs_name n)
        (runs_directives_block (fun ds fs => (n, ds, TypeShape.input fs)) hds hfs hR)

/-! ## Definitions -/

theorem keyword_mem (kind : TypeKind) : kind.keyword ∈ definitionKeywords := by
  cases kind <;> decide

/-- A described definition is read again behind its description. -/
def RereadsBehind (d : Option StringLit) (x : Definition) : Prop :=
  Schema.executableLabel? x = none → ∃ k ls, k ∈ definitionKeywords ∧
    x.lexemes = descriptionLexemes d ++ .name k :: ls ∧ AllSound (.name k :: ls) ∧
    ∀ R, AtDefinition R → Runs (described d) (.name k :: (ls ++ R)) x R

theorem rereads_described (d : Option StringLit) : Yields (RereadsBehind d) (described d) := by
  refine .bind yields_peek fun kind _ => ?_
  split
  · -- a schema
    refine .bind keeps_advance fun _ _ => .bind rereads_directives fun ds hds => ?_
    refine .bind (yields_someBetween rereads_operationType .braceL .braceR)
      fun ops hops => ?_
    obtain ⟨hne, hops⟩ := hops
    refine .pure fun _ => ⟨"schema", _, by decide, rfl, ?_, fun R hR => ?_⟩
    · have hentries : AllSound (bracedLexemes (ops.map operationTypeLexemes)) := by
        rw [bracedLexemes, allSound_wrap (by simp) (by simp), allSound_flatten_map]
        exact fun op hop => (hops op hop).sound
      have hword : IsName "schema" := by decide
      simp [hds.sound, hentries, hword]
    · rw [List.append_assoc]
      refine .bind runs_peek (.bind runs_advance ?_)
      refine .bind (hds.runs _ (hR.avoids_wrap (by simp) _ _)) ?_
      exact .bind (runs_someBetween delimits_operationType hne hops) .pure
  · -- a directive
    refine .bind keeps_advance fun _ _ => .bind (keeps_expect .at) fun _ _ => ?_
    refine .bind yields_name fun n hn => .bind rereads_argumentDefs fun vs hvs => ?_
    refine .bind rereads_directives fun ds hds => .bind (keeps_takesKeyword _) fun b _ => ?_
    refine .bind (keeps_expectKeyword _) fun _ _ => ?_
    refine .bind (yields_separated rereads_location .pipe) fun ns hns => ?_
    obtain ⟨hne, hns⟩ := hns
    refine .pure fun _ => ⟨"directive", _, by decide, rfl, ?_, fun R hR => ?_⟩
    · have hword : IsName "directive" := by decide
      have hon : IsName "on" := by decide
      have hrepeatable : AllSound (if b then [.name "repeatable"] else []) := by
        cases b with
        | false => simp
        | true => simpa using (by decide : IsName "repeatable")
      have hnames : AllSound (nameLexemes .pipe ns) :=
        allSound_nameLexemes.2 fun n hn => by simpa using (hns n hn).sound
      simp [hword, hn, hvs.sound, hds.sound, hrepeatable, hon, hnames]
    · have hlexemes (ls : List Lexeme) : .punct .at :: .name n :: (argumentDefLexemes vs ++
          directiveLexemes ds ++ ls ++ .name "on" :: nameLexemes .pipe ns) ++ R =
          .punct .at :: .name n :: (argumentDefLexemes vs ++ (directiveLexemes ds ++
            (ls ++ .name "on" :: (nameLexemes .pipe ns ++ R)))) := by
        simp
      rw [hlexemes]
      have hrepeatable (ps : List Punctuator) :
          Avoids ps ((if b then [.name "repeatable"] else []) ++
            .name "on" :: (nameLexemes .pipe ns ++ R)) := by
        cases b <;> exact avoids_name
      refine .bind runs_peek (.bind runs_advance (.bind (runs_expect .at) (.bind (runs_name n) ?_)))
      refine .bind (hvs.runs _ ?_) (.bind (hds.runs _ (hrepeatable _)) ?_)
      · exact (opensWith_directiveLexemes ds).avoids (by simp) (hrepeatable _)
      · have hlocations : Runs (do expectKeyword "on"
                                   return Definition.directive d n vs ds b
                                     (← separated location .pipe))
            (.name "on" :: (nameLexemes .pipe ns ++ R)) (Definition.directive d n vs ds b ns) R :=
          .bind (runs_expectKeyword _) (.bind (runs_separated hne hns (hR.noPunct _)) .pure)
        cases b with
        | false => exact .bind (runs_takesKeyword_false (by simp)) hlocations
        | true => exact .bind (runs_takesKeyword _) hlocations
  · -- a fragment
    refine .bind keeps_advance fun _ _ => .bind keeps_fragmentName fun _ _ => ?_
    refine .bind (keeps_expectKeyword _) fun _ _ => .bind yields_name fun _ _ => ?_
    refine .bind (keeps_directivesFrom false maxDepth) fun _ _ => ?_
    exact .bind (keeps_selectionSet maxDepth) fun _ _ => .pure fun h => by cases h
  · split
    · -- a type
      next kind hkind =>
      refine .bind keeps_advance fun _ _ => .bind (rereads_typeBody kind) fun p hp => ?_
      obtain ⟨n, ds, shape⟩ := p
      obtain ⟨hshape, hbody⟩ := hp
      refine .pure fun _ => ⟨kind.keyword, .name n :: bodyLexemes ds shape, keyword_mem kind,
        ?_, ?_, fun R hR => ?_⟩
      · rw [← hshape]
        rfl
      · simpa [isName_keyword] using hbody.sound
      · refine .bind runs_peek ?_
        cases kind <;> exact .bind runs_advance (.bind (hbody.runs R hR) .pure)
    · -- an operation
      refine .bind keeps_operationKind fun _ _ => .bind keeps_optionalName fun _ _ => ?_
      refine .bind (yields_optionalBetween keeps_variableDef .parenL .parenR) fun _ _ => ?_
      refine .bind (keeps_directivesFrom false maxDepth) fun _ _ => ?_
      exact .bind (keeps_selectionSet maxDepth) fun _ _ => .pure fun h => by cases h
  · exact yields_unexpected

/-- An extension is read again behind its keyword. -/
theorem rereads_extension : Yields (fun x => ∃ ls, x.lexemes = .name "extend" :: ls ∧ AllSound ls ∧
    ∀ R, AtDefinition R → Runs extension (ls ++ R) x R) extension := by
  refine .bind yields_peek fun kind _ => ?_
  split
  · -- a schema
    refine .bind keeps_advance fun _ _ => .bind rereads_directives fun ds hds => ?_
    refine .bind (rereads_optionalBetween .braceL .braceR rereads_operationType
      delimits_operationType) fun ops hops => ?_
    split
    · exact yields_unexpected
    · next hsome =>
      refine .pure ⟨_, rfl, ?_, fun R hR => ?_⟩
      · have hword : IsName "schema" := by decide
        simpa [hword, hds.sound, bracedLexemes] using hops.sound
      · simp only [List.cons_append, List.append_assoc]
        refine .bind runs_peek (.bind runs_advance ?_)
        refine .bind (hds.runs _ (hR.avoids_wrap (by simp) _ _)) ?_
        refine .bind (hops.runs R (hR.avoids _)) ?_
        rw [if_neg hsome]
        exact .pure
  · -- a directive
    refine .bind keeps_advance fun _ _ => .bind (keeps_expect .at) fun _ _ => ?_
    refine .bind yields_name fun n hn => .bind rereads_directives fun ds hds => ?_
    split
    · exact yields_unexpected
    · next hsome =>
      refine .pure ⟨_, rfl, ?_, fun R hR => ?_⟩
      · have hword : IsName "directive" := by decide
        simp [hword, hn, hds.sound]
      · refine .bind runs_peek (.bind runs_advance (.bind (runs_expect .at) ?_))
        refine .bind (runs_name n) (.bind (hds.runs R (hR.avoids _)) ?_)
        rw [if_neg hsome]
        exact .pure
  · split
    · -- a type
      next kind hkind =>
      refine .bind keeps_advance fun _ _ => .bind (rereads_typeBody kind) fun p hp => ?_
      obtain ⟨n, ds, shape⟩ := p
      obtain ⟨hshape, hbody⟩ := hp
      dsimp only
      split
      · exact yields_unexpected
      · next hsome =>
        refine .pure ⟨.name kind.keyword :: .name n :: bodyLexemes ds shape, ?_, ?_, fun R hR => ?_⟩
        · rw [← hshape]
          rfl
        · simpa [isName_keyword] using hbody.sound
        · refine .bind runs_peek ?_
          have hrest : Runs (do
              let p ← typeBody kind
              if p.2.1.isEmpty && p.2.2.isBare then unexpected
              else return Definition.extendType p.1 p.2.1 p.2.2)
              (.name n :: bodyLexemes ds shape ++ R) (Definition.extendType n ds shape) R := by
            refine .bind (hbody.runs R hR) ?_
            dsimp only
            rw [if_neg hsome]
            exact .pure
          cases kind <;> exact .bind runs_advance hrest
    · exact yields_unexpected
  · exact yields_unexpected

/-- A definition is read again with its description in front. -/
theorem RereadsBehind.rereads {d : Option StringLit} {x : Definition} (h : RereadsBehind d x)
    (hd : AllSound (descriptionLexemes d)) (hplain : Schema.executableLabel? x = none) :
    Rereads definition Definition.lexemes AtDefinition x := by
  obtain ⟨k, ls, hk, hlexemes, hsound, hruns⟩ := h hplain
  refine ⟨by simpa [hlexemes, hd] using hsound, fun R hR => ?_⟩
  have hkeyword : definitionKeywords.contains k = true := by simpa using hk
  rw [hlexemes, List.append_assoc, List.cons_append]
  cases d with
  | none =>
    refine .front fun offset => ?_
    split
    · next heq => cases heq
    · next heq => cases heq
    · next heq =>
      cases heq
      exact absurd hk (by decide)
    · next heq =>
      cases heq
      rw [if_pos hkeyword]
      exact hruns R hR
    · next _ hname => exact absurd rfl (hname k offset)
  | some lit =>
    refine .front fun offset => .bind runs_advance (.bind runs_peek ?_)
    show Runs (if definitionKeywords.contains k = true then _ else _) _ _ _
    rw [if_pos hkeyword]
    exact hruns R hR

/-- A definition of the type system is read again. -/
theorem rereads_definition : Yields (fun x => Schema.executableLabel? x = none →
    Rereads definition Definition.lexemes AtDefinition x) definition := by
  refine .bind yields_front fun p hp => ?_
  split
  · exact .bind (keeps_selectionSet maxDepth) fun _ _ => .pure fun h => by cases h
  · next lit offset =>
    refine .bind keeps_advance fun _ _ => .bind yields_peek fun kind _ => ?_
    split
    · exact .throw
    · split
      · exact (rereads_described _).mono fun x hx =>
          hx.rereads (by simpa [descriptionLexemes] using hp)
      · exact .throw
    · exact yields_unexpected
  · refine .bind keeps_advance fun _ _ => rereads_extension.mono fun x hx _ => ?_
    obtain ⟨ls, hlexemes, hsound, hruns⟩ := hx
    have hword : IsName "extend" := by decide
    refine ⟨by simp [hlexemes, hword, hsound], fun R hR => ?_⟩
    rw [hlexemes]
    exact .front fun offset => .bind runs_advance (hruns R hR)
  · split
    · exact (rereads_described none).mono fun x hx => hx.rereads (by simp [descriptionLexemes])
    · exact yields_unexpected
  · exact yields_unexpected

end ResolverKit.Sdl.Reader
