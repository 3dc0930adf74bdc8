import ResolverKit.Import.Loader
import ResolverKit.Proofs.Lexemes

/-!
# Names in a parsed document

The lexer makes name tokens of names only, and every name of a parsed document is the text of such
a token, so that a parsed document is called by names.

`Yields P m` says that from sound tokens the reader `m` gives something with the property `P`, and
that it comes to the tokens it leaves by dropping tokens one at a time and looking at the next
(`Advanced`), so that these are sound, too.  There is one lemma for each reader, composed after
its definition.

    parse text = .ok d → d.IsNamed                                       (isNamed_of_parse)
    loadDocument t path = .ok d → d.IsNamed                       (isNamed_of_loadDocument)
-/

namespace ResolverKit.Sdl

/-! ## Tokens -/

def Sound (ts : List Token) : Prop := ∀ l offset, .lexeme l offset ∈ ts → l.IsSound

theorem sound_cons {t : Token} {ts : List Token}
    (ht : ∀ l offset, t = .lexeme l offset → l.IsSound) (hts : Sound ts) : Sound (t :: ts) := by
  intro l offset h
  rcases List.mem_cons.1 h with h | h
  · exact ht l offset h.symm
  · exact hts l offset h

theorem sound_nil : Sound [] := fun _ _ h => nomatch h

theorem sound_tokensFrom (offset : Nat) (cs : List Char) : Sound (tokensFrom offset cs) := by
  fun_induction tokensFrom offset cs with
  | case1 =>
    refine sound_cons (fun l offset h => ?_) sound_nil
    obtain ⟨rfl, -⟩ := Token.lexeme.inj h
    trivial
  | case2 offset c r _ ih => exact ih
  | case3 offset r size _ ih => exact ih
  | case4 offset c r _ _ e he => exact sound_cons (fun _ _ h => nomatch h) sound_nil
  | case5 offset c r _ _ kind size hlexeme ih =>
    refine sound_cons (fun l offset' h => ?_) ih
    obtain ⟨rfl, -⟩ := Token.lexeme.inj h
    exact isSound_of_lexeme hlexeme

/-- From the first tokens one comes to the second by dropping tokens in front, one at a time and
never so that a broken token comes to the front. -/
inductive Advanced : List Token → List Token → Prop
  | refl (ts : List Token) : Advanced ts ts
  | tail {ts rest : List Token} : Advanced ts rest → (∀ e r, rest.tail ≠ .broken e :: r) →
      Advanced ts rest.tail

namespace Advanced

variable {ts ts' rest : List Token}

theorem trans (h : Advanced ts ts') (h' : Advanced ts' rest) : Advanced ts rest := by
  induction h' with
  | refl => exact h
  | tail _ hfront ih => exact ih.tail hfront

theorem subset (h : Advanced ts rest) : rest ⊆ ts := by
  induction h with
  | refl => exact List.Subset.refl ts
  | tail _ _ ih => exact fun t ht => ih (List.mem_of_mem_tail ht)

theorem sound (h : Advanced ts rest) (hts : Sound ts) : Sound rest :=
  fun l offset hl => hts l offset (h.subset hl)

theorem length_le (h : Advanced ts rest) : rest.length ≤ ts.length := by
  induction h with
  | refl => exact Nat.le_refl _
  | tail _ _ ih =>
    rw [List.length_tail]
    exact (Nat.sub_le _ 1).trans ih

end Advanced

/-! ## Readers -/

namespace Reader

variable {α β : Type}

/-- From sound tokens the reader gives something with this property, and advances. -/
def Yields (P : α → Prop) (m : Reader α) : Prop :=
  ∀ ts a rest, Sound ts → m ts = .ok (a, rest) → P a ∧ Advanced ts rest

/-- Two readers one after the other give what the second makes of what the first gives. -/
theorem bind_eq_ok {m : Reader α} {k : α → Reader β} {ts rest : List Token} {b : β}
    (h : (m >>= k) ts = .ok (b, rest)) :
    ∃ a rest', m ts = .ok (a, rest') ∧ k a rest' = .ok (b, rest) := by
  cases hma : m ts with
  | error e =>
    have hfail : (m >>= k) ts = .error e := by
      show (m ts >>= fun p => k p.1 p.2) = .error e
      rw [hma]
      rfl
    rw [hfail] at h
    cases h
  | ok p =>
    have hnext : (m >>= k) ts = k p.1 p.2 := by
      show (m ts >>= fun p => k p.1 p.2) = k p.1 p.2
      rw [hma]
      rfl
    rw [hnext] at h
    exact ⟨p.1, p.2, rfl, h⟩

/-- The reader advances. -/
abbrev Keeps (m : Reader α) : Prop := Yields (fun _ => True) m

/-- The reader advances by one token at least, if there are any. -/
def Takes (P : α → Prop) (m : Reader α) : Prop :=
  ∀ ts a rest, Sound ts → m ts = .ok (a, rest) →
    P a ∧ Advanced ts rest ∧ rest.length ≤ ts.length - 1

namespace Yields

variable {P : α → Prop} {Q : β → Prop} {m : Reader α}

theorem bind {k : α → Reader β} (hm : Yields P m) (hk : ∀ a, P a → Yields Q (k a)) :
    Yields Q (m >>= k) := by
  intro ts b rest hts h
  obtain ⟨a, rest', hma, hka⟩ := bind_eq_ok h
  obtain ⟨ha, hrest'⟩ := hm ts a rest' hts hma
  obtain ⟨hb, hrest⟩ := hk a ha rest' b rest (hrest'.sound hts) hka
  exact ⟨hb, hrest'.trans hrest⟩

theorem pure {a : α} (ha : P a) : Yields P (pure a : Reader α) := by
  intro ts b rest hts h
  obtain ⟨rfl, rfl⟩ : a = b ∧ ts = rest := Prod.mk.inj (Except.ok.inj h)
  exact ⟨ha, .refl ts⟩

theorem throw {e : SyntaxError} : Yields P (throw e : Reader α) := by
  intro ts b rest _ h
  cases h

theorem mono {P' : α → Prop} (h : Yields P m) (hP : ∀ a, P a → P' a) : Yields P' m :=
  fun ts a rest hts hm => ⟨hP a (h ts a rest hts hm).1, (h ts a rest hts hm).2⟩

theorem keeps (h : Yields P m) : Keeps m := h.mono fun _ _ => trivial

end Yields

namespace Takes

variable {P : α → Prop} {Q : β → Prop} {m : Reader α}

theorem yields (h : Takes P m) : Yields P m := fun ts a rest hts hm =>
  ⟨(h ts a rest hts hm).1, (h ts a rest hts hm).2.1⟩

theorem bind {k : α → Reader β} (hm : Takes P m) (hk : ∀ a, P a → Yields Q (k a)) :
    Takes Q (m >>= k) := by
  intro ts b rest hts h
  obtain ⟨a, rest', hma, hka⟩ := bind_eq_ok h
  obtain ⟨ha, hrest', hlength⟩ := hm ts a rest' hts hma
  obtain ⟨hb, hrest⟩ := hk a ha rest' b rest (hrest'.sound hts) hka
  exact ⟨hb, hrest'.trans hrest, hrest.length_le.trans hlength⟩

theorem behind {k : α → Reader β} (hm : Yields P m) (hk : ∀ a, P a → Takes Q (k a)) :
    Takes Q (m >>= k) := by
  intro ts b rest hts h
  obtain ⟨a, rest', hma, hka⟩ := bind_eq_ok h
  obtain ⟨ha, hrest'⟩ := hm ts a rest' hts hma
  obtain ⟨hb, hrest, hlength⟩ := hk a ha rest' b rest (hrest'.sound hts) hka
  exact ⟨hb, hrest'.trans hrest, hlength.trans (Nat.sub_le_sub_right hrest'.length_le 1)⟩

theorem throw {e : SyntaxError} : Takes P (throw e : Reader α) := by
  intro ts b rest _ h
  cases h

theorem mono {P' : α → Prop} (h : Takes P m) (hP : ∀ a, P a → P' a) : Takes P' m :=
  fun ts a rest hts hm => ⟨hP a (h ts a rest hts hm).1, (h ts a rest hts hm).2⟩

end Takes

/-! ### Single tokens -/

theorem yields_front : Yields (fun p => p.1.IsSound) front := by
  intro ts a rest hts h
  cases ts with
  | nil =>
    obtain ⟨rfl, rfl⟩ : (.endOfText, 0) = a ∧ [] = rest := Prod.mk.inj (Except.ok.inj h)
    exact ⟨trivial, .refl []⟩
  | cons t r =>
    cases t with
    | lexeme kind offset =>
      obtain ⟨rfl, rfl⟩ : (kind, offset) = a ∧ .lexeme kind offset :: r = rest :=
        Prod.mk.inj (Except.ok.inj h)
      exact ⟨hts kind offset (.head r), .refl _⟩
    | broken e => cases h

theorem yields_peek : Yields Lexeme.IsSound peek :=
  .bind yields_front fun _ hp => .pure hp

/-- The reader drops the token in front; the next one is not broken. -/
theorem advance_eq_ok {ts rest : List Token} {u : Unit} (h : advance ts = .ok (u, rest)) :
    rest = ts.tail ∧ ∀ e r, ts.tail ≠ .broken e :: r := by
  obtain ⟨_, mid, hmid, hfront⟩ := bind_eq_ok h
  obtain rfl : ts.tail = mid := (Prod.mk.inj (Except.ok.inj hmid)).2
  cases htail : ts.tail with
  | nil =>
    rw [htail] at hfront
    obtain rfl : [] = rest := (Prod.mk.inj (Except.ok.inj hfront)).2
    exact ⟨rfl, fun _ _ hr => nomatch hr⟩
  | cons t r =>
    rw [htail] at hfront
    cases t with
    | lexeme kind offset =>
      obtain rfl : .lexeme kind offset :: r = rest := (Prod.mk.inj (Except.ok.inj hfront)).2
      exact ⟨rfl, fun _ _ hr => nomatch hr⟩
    | broken e => cases hfront

theorem takes_advance : Takes (fun _ => True) advance := by
  intro ts a rest hts h
  obtain ⟨rfl, hfront⟩ := advance_eq_ok h
  exact ⟨trivial, .tail (.refl ts) hfront, Nat.le_of_eq List.length_tail⟩

theorem keeps_advance : Keeps advance := takes_advance.yields

theorem takes_refuse {P : α → Prop} {reason : Lexeme → Reason} :
    Takes P (refuse reason : Reader α) := .behind yields_front fun _ _ => .throw

theorem yields_refuse {P : α → Prop} {reason : Lexeme → Reason} :
    Yields P (refuse reason : Reader α) := takes_refuse.yields

theorem takes_unexpected {P : α → Prop} : Takes P (unexpected : Reader α) := takes_refuse

theorem yields_unexpected {P : α → Prop} : Yields P (unexpected : Reader α) := yields_refuse

theorem keeps_takes (p : Punctuator) : Keeps (takes p) := by
  refine .bind yields_peek fun kind _ => ?_
  split
  · exact .bind keeps_advance fun _ _ => .pure trivial
  · exact .pure trivial

theorem takes_expect (p : Punctuator) : Takes (fun _ => True) (expect p) := by
  refine .behind yields_peek fun kind _ => ?_
  split
  · exact takes_advance
  · exact takes_refuse

theorem keeps_expect (p : Punctuator) : Keeps (expect p) := (takes_expect p).yields

theorem keeps_takesKeyword (text : String) : Keeps (takesKeyword text) := by
  refine .bind yields_peek fun kind _ => ?_
  split
  · exact .bind keeps_advance fun _ _ => .pure trivial
  · exact .pure trivial

theorem keeps_expectKeyword (text : String) : Keeps (expectKeyword text) := by
  refine .bind yields_peek fun kind _ => ?_
  split
  · exact keeps_advance
  · exact yields_refuse

theorem takes_name : Takes IsName name := by
  refine .behind yields_peek fun kind hkind => ?_
  split
  · next text => exact .bind takes_advance fun _ _ => .pure hkind
  · exact takes_refuse

theorem yields_name : Yields IsName name := takes_name.yields

/-! ### Repetition -/

theorem forall_cons {P : α → Prop} {a : α} {as : List α} (ha : P a) (has : ∀ x ∈ as, P x) :
    ∀ x ∈ a :: as, P x := by
  simpa using ⟨ha, has⟩

theorem forall_flatMap {f : α → List β} {P : β → Prop} {as : List α}
    (h : ∀ a ∈ as, ∀ b ∈ f a, P b) : ∀ b ∈ as.flatMap f, P b := by
  intro b hb
  obtain ⟨a, ha, hb⟩ := List.mem_flatMap.1 hb
  exact h a ha b hb

theorem yields_itemsUntil {P : α → Prop} {item : Reader α} (h : Yields P item)
    (close : Punctuator) : Yields (fun as => ∀ a ∈ as, P a) (itemsUntil item close) := by
  intro ts as rest hts hread
  fun_induction itemsUntil item close ts generalizing as rest with
  | case1 => cases hread
  | case2 ts rest' htakes =>
    cases hread
    exact ⟨by simp, (keeps_takes close ts _ _ hts htakes).2⟩
  | case3 => cases hread
  | case4 => cases hread
  | case5 ts _ _ a rest' hitem _ as' rest'' hitems ih =>
    cases hread
    obtain ⟨ha, hrest'⟩ := h ts a rest' hts hitem
    obtain ⟨has, hrest⟩ := ih as' rest'' (hrest'.sound hts) hitems
    exact ⟨forall_cons ha has, hrest'.trans hrest⟩
  | case6 ts _ _ a rest' hitem =>
    cases hread
    obtain ⟨ha, hrest⟩ := h ts a rest' hts hitem
    exact ⟨forall_cons ha (by simp), hrest⟩

theorem yields_separatedTail {P : α → Prop} {item : Reader α} (h : Yields P item)
    (sep : Punctuator) : Yields (fun as => ∀ a ∈ as, P a) (separatedTail item sep) := by
  intro ts as rest hts hread
  fun_induction separatedTail item sep ts generalizing as rest with
  | case1 => cases hread
  | case2 ts rest' htakes =>
    cases hread
    exact ⟨by simp, (keeps_takes sep ts _ _ hts htakes).2⟩
  | case3 => cases hread
  | case4 => cases hread
  | case5 ts behind htakes a rest' hitem _ as' rest'' hitems ih =>
    cases hread
    have hbehind := (keeps_takes sep ts _ _ hts htakes).2
    obtain ⟨ha, hrest'⟩ := h behind a rest' (hbehind.sound hts) hitem
    have hrest' := hbehind.trans hrest'
    obtain ⟨has, hrest⟩ := ih as' rest'' (hrest'.sound hts) hitems
    exact ⟨forall_cons ha has, hrest'.trans hrest⟩
  | case6 ts behind htakes a rest' hitem =>
    cases hread
    have hbehind := (keeps_takes sep ts _ _ hts htakes).2
    obtain ⟨ha, hrest⟩ := h behind a rest' (hbehind.sound hts) hitem
    exact ⟨forall_cons ha (by simp), hbehind.trans hrest⟩

section

variable {P : α → Prop} {item : Reader α} (h : Yields P item)

include h

theorem takes_between (opening close : Punctuator) :
    Takes (fun as => ∀ a ∈ as, P a) (between opening item close) :=
  .bind (takes_expect opening) fun _ _ => yields_itemsUntil h close

theorem yields_between (opening close : Punctuator) :
    Yields (fun as => ∀ a ∈ as, P a) (between opening item close) :=
  (takes_between h opening close).yields

theorem yields_someBetween (opening close : Punctuator) :
    Yields (fun as => as ≠ [] ∧ ∀ a ∈ as, P a) (someBetween opening item close) := by
  refine .bind (keeps_expect opening) fun _ _ => .bind h fun a ha => ?_
  refine .bind (yields_itemsUntil h close) fun as has => .pure ⟨?_, forall_cons ha has⟩
  exact List.cons_ne_nil a as

theorem yields_optionalBetween (opening close : Punctuator) :
    Yields (fun as => ∀ a ∈ as, P a) (optionalBetween opening item close) := by
  refine .bind yields_peek fun kind _ => ?_
  split
  · exact (yields_someBetween h opening close).mono fun _ has => has.2
  · exact .pure (by simp)

theorem yields_separated (sep : Punctuator) :
    Yields (fun as => as ≠ [] ∧ ∀ a ∈ as, P a) (separated item sep) := by
  have hskip : Keeps (discard (takes sep)) := .bind (keeps_takes sep) fun _ _ => .pure trivial
  refine .bind hskip fun _ _ => .bind h fun a ha => ?_
  refine .bind (yields_separatedTail h sep) fun as has => .pure ⟨?_, forall_cons ha has⟩
  exact List.cons_ne_nil a as

end

/-! ### Values, types and directives -/

theorem yields_variableInConstant {P : Value → Prop} : Yields P variableInConstant := by
  refine .bind yields_front fun _ _ => .bind keeps_advance fun _ _ => ?_
  refine .bind yields_peek fun kind _ => ?_
  split <;> exact .throw

theorem keeps_leaf (constant : Bool) : Keeps (leaf constant) := by
  refine .bind yields_peek fun kind _ => ?_
  split
  · exact .bind keeps_advance fun _ _ => .pure trivial
  · exact .bind keeps_advance fun _ _ => .pure trivial
  · exact .bind keeps_advance fun _ _ => .pure trivial
  · exact .bind keeps_advance fun _ _ => .pure trivial
  · split
    · exact yields_variableInConstant
    · exact .bind keeps_advance fun _ _ => .bind yields_name fun _ _ => .pure trivial
  · exact yields_unexpected

theorem keeps_entry {item : Reader α} (h : Keeps item) : Keeps (entry item) := by
  refine .bind yields_name fun n _ => .bind (keeps_expect .colon) fun _ _ => ?_
  exact .bind h fun _ _ => .pure trivial

theorem keeps_value (constant : Bool) (depth : Nat) : Keeps (value constant depth) := by
  induction depth with
  | zero =>
    refine .bind yields_peek fun kind _ => ?_
    split
    · exact yields_refuse
    · exact yields_refuse
    · exact keeps_leaf constant
  | succ depth ih =>
    refine .bind yields_peek fun kind _ => ?_
    split
    · exact .bind (yields_between ih .bracketL .bracketR) fun _ _ => .pure trivial
    · exact .bind (yields_between (keeps_entry ih) .braceL .braceR) fun _ _ => .pure trivial
    · exact keeps_leaf constant

theorem yields_typeRef (depth : Nat) : Yields (fun t => IsName t.base) (typeRef depth) := by
  have hnamed : Yields (fun t : TypeRef => IsName t.base)
      (do let n ← name; return .named n (← takes .bang)) :=
    .bind yields_name fun n hn => .bind (keeps_takes .bang) fun _ _ => .pure hn
  induction depth with
  | zero =>
    refine .bind (keeps_takes .bracketL) fun b _ => ?_
    split
    · exact yields_refuse
    · exact hnamed
  | succ depth ih =>
    refine .bind (keeps_takes .bracketL) fun b _ => ?_
    split
    · refine .bind ih fun item hitem => .bind (keeps_expect .bracketR) fun _ _ => ?_
      exact .bind (keeps_takes .bang) fun _ _ => .pure hitem
    · exact hnamed

theorem keeps_arguments (constant : Bool) (depth : Nat) : Keeps (arguments constant depth) :=
  .bind (yields_optionalBetween (keeps_entry (keeps_value constant depth)) .parenL .parenR)
    fun _ _ => .pure trivial

/-- Directives are read as separated items, the first of them behind its mark too. -/
theorem directivesFrom_eq (constant : Bool) (depth : Nat) :
    directivesFrom constant depth =
      separatedTail (do return ⟨← name, ← arguments constant depth⟩) .at := by
  funext ts
  fun_induction directivesFrom constant depth ts with
  | case1 ts e htakes => simp only [separatedTail, htakes]
  | case2 ts rest htakes => simp only [separatedTail, htakes]
  | case3 ts behind htakes e hd => simp only [separatedTail, htakes, hd]
  | case4 ts behind htakes d rest hd hlt e hds ih =>
    rw [separatedTail, htakes]
    simp only [hd, if_pos hlt, ← ih, hds]
  | case5 ts behind htakes d rest hd hlt ds rest' hds ih =>
    rw [separatedTail, htakes]
    simp only [hd, if_pos hlt, ← ih, hds]
  | case6 ts behind htakes d rest hd hlt =>
    rw [separatedTail, htakes]
    simp only [hd, if_neg hlt]

theorem keeps_directivesFrom (constant : Bool) (depth : Nat) :
    Keeps (directivesFrom constant depth) := by
  have hdirective : Keeps (do return ⟨← name, ← arguments constant depth⟩ : Reader Directive) :=
    .bind yields_name fun _ _ => .bind (keeps_arguments constant depth) fun _ _ => .pure trivial
  rw [directivesFrom_eq]
  exact (yields_separatedTail hdirective .at).keeps

theorem keeps_directives : Keeps directives := keeps_directivesFrom true maxDepth

/-! ### Parts of definitions -/

theorem keeps_description : Keeps description := by
  refine .bind yields_peek fun kind _ => ?_
  split
  · exact .bind keeps_advance fun _ _ => .pure trivial
  · exact .pure trivial

theorem keeps_default : Keeps default := by
  refine .bind (keeps_takes .equals) fun b _ => ?_
  split
  · exact .bind (keeps_value true maxDepth) fun _ _ => .pure trivial
  · exact .pure trivial

theorem yields_inputValue : Yields (fun v => ∀ n ∈ v.names, IsName n) inputValue := by
  refine .bind keeps_description fun _ _ => .bind yields_name fun n hn => ?_
  refine .bind (keeps_expect .colon) fun _ _ => .bind (yields_typeRef maxDepth) fun t ht => ?_
  refine .bind keeps_default fun _ _ => .bind keeps_directives fun _ _ => .pure ?_
  exact forall_cons hn (forall_cons ht (by simp))

theorem yields_argumentDefs :
    Yields (fun vs => ∀ n ∈ vs.flatMap (·.names), IsName n) argumentDefs :=
  (yields_optionalBetween yields_inputValue .parenL .parenR).mono fun _ => forall_flatMap

theorem yields_fieldDef : Yields (fun f => ∀ n ∈ f.names, IsName n) fieldDef := by
  refine .bind keeps_description fun _ _ => .bind yields_name fun n hn => ?_
  refine .bind yields_argumentDefs fun vs hvs => .bind (keeps_expect .colon) fun _ _ => ?_
  refine .bind (yields_typeRef maxDepth) fun t ht => .bind keeps_directives fun _ _ => .pure ?_
  exact forall_cons hn (forall_cons ht hvs)

theorem yields_enumValue : Yields (fun v => IsName v.name) enumValue := by
  refine .bind keeps_description fun _ _ => .bind yields_peek fun kind _ => ?_
  split
  · exact yields_refuse
  · exact yields_refuse
  · exact yields_refuse
  · exact .bind yields_name fun n hn => .bind keeps_directives fun _ _ => .pure hn

theorem keeps_interfaces : Keeps interfaces := by
  refine .bind (keeps_takesKeyword _) fun b _ => ?_
  split
  · exact (yields_separated yields_name .amp).keeps
  · exact .pure trivial

theorem yields_members : Yields (fun ns => ∀ n ∈ ns, IsName n) members := by
  refine .bind (keeps_takes .equals) fun b _ => ?_
  split
  · exact (yields_separated yields_name .pipe).mono fun _ hns => hns.2
  · exact .pure (by simp)

theorem takes_operationKind : Takes (fun _ => True) operationKind := by
  refine .behind yields_front fun p _ => .bind takes_name fun text _ => ?_
  split
  · exact .pure trivial
  · exact .throw

theorem keeps_operationKind : Keeps operationKind := takes_operationKind.yields

theorem keeps_operationType : Keeps operationType := by
  refine .bind keeps_operationKind fun _ _ => .bind (keeps_expect .colon) fun _ _ => ?_
  exact .bind yields_name fun _ _ => .pure trivial

theorem keeps_location : Keeps location := by
  refine .bind yields_front fun p _ => .bind yields_name fun text _ => ?_
  split
  · exact .pure trivial
  · exact .throw

/-- The name of a type and the names in its body. -/
theorem yields_typeBody (kind : TypeKind) :
    Yields (fun p => ∀ n ∈ p.1 :: p.2.2.names, IsName n) (typeBody kind) := by
  have hfields : Yields (fun fs => ∀ n ∈ fs.flatMap FieldDef.names, IsName n)
      (optionalBetween .braceL fieldDef .braceR) :=
    (yields_optionalBetween yields_fieldDef .braceL .braceR).mono fun _ => forall_flatMap
  have hinputs : Yields (fun vs => ∀ n ∈ vs.flatMap InputValue.names, IsName n)
      (optionalBetween .braceL inputValue .braceR) :=
    (yields_optionalBetween yields_inputValue .braceL .braceR).mono fun _ => forall_flatMap
  have hvalues : Yields (fun vs => ∀ n ∈ vs.map EnumValue.name, IsName n)
      (optionalBetween .braceL enumValue .braceR) :=
    (yields_optionalBetween yields_enumValue .braceL .braceR).mono fun _ => List.forall_mem_map.2
  refine .bind yields_name fun n hn => ?_
  cases kind with
  | scalar =>
    exact .bind keeps_directives fun _ _ => .pure (forall_cons hn (by simp [TypeShape.names]))
  | object =>
    refine .bind keeps_interfaces fun _ _ => .bind keeps_directives fun _ _ => ?_
    exact .bind hfields fun _ h => .pure (forall_cons hn h)
  | interface =>
    refine .bind keeps_interfaces fun _ _ => .bind keeps_directives fun _ _ => ?_
    exact .bind hfields fun _ h => .pure (forall_cons hn h)
  | union =>
    exact .bind keeps_directives fun _ _ => .bind yields_members fun _ h => .pure (forall_cons hn h)
  | enum =>
    exact .bind keeps_directives fun _ _ => .bind hvalues fun _ h => .pure (forall_cons hn h)
  | input =>
    exact .bind keeps_directives fun _ _ => .bind hinputs fun _ h => .pure (forall_cons hn h)

theorem yields_extension : Yields (fun x => ∀ n ∈ x.names, IsName n) extension := by
  refine .bind yields_peek fun kind _ => ?_
  split
  · refine .bind keeps_advance fun _ _ => .bind keeps_directives fun ds _ => ?_
    refine .bind (yields_optionalBetween keeps_operationType .braceL .braceR) fun ops _ => ?_
    split
    · exact yields_unexpected
    · exact .pure (by simp [Definition.names])
  · refine .bind keeps_advance fun _ _ => .bind (keeps_expect .at) fun _ _ => ?_
    refine .bind yields_name fun _ _ => .bind keeps_directives fun ds _ => ?_
    split
    · exact yields_unexpected
    · exact .pure (by simp [Definition.names])
  · split
    · refine .bind keeps_advance fun _ _ => .bind (yields_typeBody _) fun p hp => ?_
      dsimp only
      split
      · exact yields_unexpected
      · exact .pure hp
    · exact yields_unexpected
  · exact yields_unexpected

/-! ### Operations -/

theorem keeps_variableDef : Keeps variableDef := by
  refine .bind keeps_description fun _ _ => .bind (keeps_expect .dollar) fun _ _ => ?_
  refine .bind yields_name fun _ _ => .bind (keeps_expect .colon) fun _ _ => ?_
  refine .bind (yields_typeRef maxDepth) fun _ _ => .bind keeps_default fun _ _ => ?_
  exact .bind keeps_directives fun _ _ => .pure trivial

theorem keeps_fragmentName : Keeps fragmentName := by
  refine .bind yields_peek fun kind _ => ?_
  split
  · exact yields_unexpected
  · exact yields_name.keeps

section

variable {inner : Reader (List Selection)} (h : Keeps inner) (depth : Nat)

include h

theorem keeps_fragmentSelection : Keeps (fragmentSelection inner depth) := by
  refine .bind (keeps_expect .spread) fun _ _ => .bind (keeps_takesKeyword _) fun b _ => ?_
  split
  · refine .bind yields_name fun _ _ => .bind (keeps_directivesFrom false depth) fun _ _ => ?_
    exact .bind h fun _ _ => .pure trivial
  · refine .bind yields_peek fun kind _ => ?_
    split
    · refine .bind keeps_fragmentName fun _ _ => ?_
      exact .bind (keeps_directivesFrom false depth) fun _ _ => .pure trivial
    · refine .bind (keeps_directivesFrom false depth) fun _ _ => ?_
      exact .bind h fun _ _ => .pure trivial

theorem keeps_fieldSelection : Keeps (fieldSelection inner depth) := by
  -- what follows the name, behind an alias or not
  have hrest : ∀ alias? n, Keeps (do
      let args ← arguments false depth
      let ds ← directivesFrom false depth
      if (← peek) = .punct .braceL then
        return .field alias? n args ds (some (← inner))
      else return .field alias? n args ds none : Reader Selection) := by
    intro alias? n
    refine .bind (keeps_arguments false depth) fun _ _ => ?_
    refine .bind (keeps_directivesFrom false depth) fun _ _ => .bind yields_peek fun kind _ => ?_
    split
    · exact .bind h fun _ _ => .pure trivial
    · exact .pure trivial
  refine .bind yields_name fun first _ => .bind (keeps_takes .colon) fun aliased _ => ?_
  cases aliased with
  | true => exact .bind yields_name fun n _ => hrest (some first) n
  | false => exact hrest none first

end

theorem takes_selectionSet (depth : Nat) : Takes (fun _ => True) (selectionSet depth) := by
  induction depth with
  | zero =>
    refine .behind yields_peek fun kind _ => ?_
    split
    · exact takes_refuse
    · exact takes_refuse
  | succ depth ih =>
    have hselection : Keeps (do
        if (← peek) = .punct .spread then fragmentSelection (selectionSet depth) depth
        else fieldSelection (selectionSet depth) depth) := by
      refine .bind yields_peek fun kind _ => ?_
      split
      · exact keeps_fragmentSelection ih.yields depth
      · exact keeps_fieldSelection ih.yields depth
    exact (takes_between hselection .braceL .braceR).mono fun _ _ => trivial

theorem keeps_selectionSet (depth : Nat) : Keeps (selectionSet depth) :=
  (takes_selectionSet depth).yields

/-! ### Definitions -/

theorem keeps_optionalName : Keeps optionalName := by
  refine .bind yields_peek fun kind _ => ?_
  split
  · exact .bind yields_name fun _ _ => .pure trivial
  · exact .pure trivial

theorem takes_operation (description : Option StringLit) :
    Takes (fun x => ∀ n ∈ x.names, IsName n) (operation description) := by
  refine .bind takes_operationKind fun _ _ => .bind keeps_optionalName fun _ _ => ?_
  refine .bind (yields_optionalBetween keeps_variableDef .parenL .parenR) fun _ _ => ?_
  refine .bind (keeps_directivesFrom false maxDepth) fun _ _ => ?_
  exact .bind (keeps_selectionSet maxDepth) fun _ _ => .pure (by simp [Definition.names])

theorem takes_described (description : Option StringLit) :
    Takes (fun x => ∀ n ∈ x.names, IsName n) (described description) := by
  refine .behind yields_peek fun kind _ => ?_
  split
  · refine .bind takes_advance fun _ _ => .bind keeps_directives fun _ _ => ?_
    refine .bind (yields_someBetween keeps_operationType .braceL .braceR) fun _ _ => ?_
    exact .pure (by simp [Definition.names])
  · refine .bind takes_advance fun _ _ => .bind (keeps_expect .at) fun _ _ => ?_
    refine .bind yields_name fun _ _ => .bind yields_argumentDefs fun _ _ => ?_
    refine .bind keeps_directives fun _ _ => .bind (keeps_takesKeyword _) fun _ _ => ?_
    refine .bind (keeps_expectKeyword _) fun _ _ => ?_
    refine .bind (yields_separated keeps_location .pipe) fun _ _ => ?_
    exact .pure (by simp [Definition.names])
  · refine .bind takes_advance fun _ _ => .bind keeps_fragmentName fun _ _ => ?_
    refine .bind (keeps_expectKeyword _) fun _ _ => .bind yields_name fun _ _ => ?_
    refine .bind (keeps_directivesFrom false maxDepth) fun _ _ => ?_
    exact .bind (keeps_selectionSet maxDepth) fun _ _ => .pure (by simp [Definition.names])
  · split
    · exact .bind takes_advance fun _ _ => .bind (yields_typeBody _) fun _ hp => .pure hp
    · exact takes_operation description
  · exact takes_unexpected

theorem takes_definition : Takes (fun x => ∀ n ∈ x.names, IsName n) definition := by
  refine .behind yields_front fun p _ => ?_
  split
  · exact .bind (takes_selectionSet maxDepth) fun _ _ => .pure (by simp [Definition.names])
  · refine .bind takes_advance fun _ _ => .bind yields_peek fun kind _ => ?_
    split
    · exact .throw
    · split
      · exact (takes_described _).yields
      · exact .throw
    · exact yields_unexpected
  · exact .bind takes_advance fun _ _ => yields_extension
  · split
    · exact takes_described none
    · exact takes_unexpected
  · exact takes_unexpected

theorem yields_definition : Yields (fun x => ∀ n ∈ x.names, IsName n) definition :=
  takes_definition.yields

theorem yields_definitionsFrom : Yields Document.IsNamed definitionsFrom := by
  intro ts d rest hts hread
  fun_induction definitionsFrom ts generalizing d rest with
  | case1 => cases hread
  | case2 ts rest' hpeek =>
    cases hread
    exact ⟨by simp [Document.IsNamed], (yields_peek ts _ _ hts hpeek).2⟩
  | case3 => cases hread
  | case4 => cases hread
  | case5 ts _ _ _ x rest' hx _ ds rest'' hds ih =>
    cases hread
    obtain ⟨hnames, hrest'⟩ := yields_definition ts x rest' hts hx
    obtain ⟨hd, hrest⟩ := ih ds rest'' (hrest'.sound hts) hds
    exact ⟨forall_cons hnames hd, hrest'.trans hrest⟩
  | case6 ts _ _ _ x rest' hx =>
    cases hread
    obtain ⟨hnames, hrest⟩ := yields_definition ts x rest' hts hx
    exact ⟨forall_cons hnames (by simp), hrest⟩

theorem yields_document : Yields Document.IsNamed document := by
  refine .bind yields_definition fun x hx => ?_
  exact .bind yields_definitionsFrom fun d hd => .pure (forall_cons hx hd)

end Reader

/-! ## Documents -/

/-- A parsed document is called by names. -/
theorem isNamed_of_parse {text : String} {d : Document} (h : parse text = .ok d) : d.IsNamed := by
  unfold parse at h
  cases hread : Reader.document.run (tokens text) with
  | error e =>
    rw [hread] at h
    cases h
  | ok p =>
    obtain ⟨d', rest⟩ := p
    rw [hread] at h
    obtain rfl : d' = d := Except.ok.inj h
    exact (Reader.yields_document _ _ _ (sound_tokensFrom _ _) hread).1

end ResolverKit.Sdl

namespace ResolverKit.Import

/-- The document of a schema file is called by names. -/
theorem isNamed_of_loadDocument {t : FileTree} {path : String} {d : Sdl.Document}
    (h : loadDocument t path = .ok d) : d.IsNamed := by
  unfold loadDocument at h
  cases htext : loadText t path with
  | error e =>
    rw [htext] at h
    cases h
  | ok text =>
    simp only [htext, bind, Except.bind] at h
    cases hparse : Sdl.parse text with
    | error e =>
      rw [hparse] at h
      cases h
    | ok d' =>
      rw [hparse] at h
      obtain rfl : d' = d := Except.ok.inj h
      exact Sdl.isNamed_of_parse hparse

end ResolverKit.Import
