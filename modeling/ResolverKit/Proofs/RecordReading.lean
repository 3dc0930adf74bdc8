import Mathlib.Data.List.TakeWhile
import ResolverKit.Proofs.FileReading

/-!
# Reading records

`records` collects the records that statements declare, each with the blocks around it, its name
and its members.  The type of a member is read back to a type as schemas write it: `| null` or a
question mark in front makes it nullable, `Array` a list.

    lang.readType? (t.tokens lang) = some t.ref                               (readType?_tokens)

Parts of a file are read on their own: `Declares lang ss f` says that the statements `ss` declare
the records `f blocks` wherever they stand.
-/

namespace ResolverKit.Code

open Sdl (TypeRef)

/-! ## Types -/

/-- What is left without the mark of a nullable type, and whether there was none. -/
def Language.dropNullable (lang : Language) (ts : List Token) : List Token × Bool :=
  match lang with
  | .typescript =>
    match ts.reverse with
    | .word "null" :: .mark '|' :: r => (r.reverse, false)
    | _ => (ts, true)
  | .flow =>
    match ts with
    | .mark '?' :: r => (r, false)
    | _ => (ts, true)

/-- The type that these tokens stand for. -/
def Language.readType? (lang : Language) (ts : List Token) : Option TypeRef :=
  match lang.dropNullable ts with
  | ([.word base], required) => some (.named base required)
  | (.word "Array" :: .mark '<' :: r, required) =>
    match r.getLast?, lang.dropNullable r.dropLast with
    | some (.mark '>'), ([.word base], itemRequired) =>
      some (.list (.named base itemRequired) required)
    | _, _ => none
  | _ => none

/-- A type as schemas write it. -/
def TypeExpr.ref (t : TypeExpr) : TypeRef :=
  match t.multiplicity with
  | .one => .named t.base t.required
  | .many itemRequired => .list (.named t.base itemRequired) t.required

theorem dropNullable_optionalTokens (lang : Language) (required : Bool) {ts : List Token}
    {base : String} (hfirst : ts.head? ≠ some (.mark '?'))
    (hlast : ts = [.word base] ∨ ts.getLast? = some (.mark '>')) :
    lang.dropNullable (lang.optionalTokens required ts) = (ts, required) := by
  cases required with
  | false => cases lang <;> simp [Language.optionalTokens, Language.nullableTokens,
      Language.dropNullable]
  | true =>
    rw [Language.optionalTokens, if_pos rfl]
    unfold Language.dropNullable
    cases lang with
    | typescript =>
      simp only
      split
      · next r hr =>
        rw [List.reverse_eq_iff] at hr
        subst hr
        rcases hlast with hlast | hlast
        · have hlength := congrArg List.length hlast
          simp at hlength
        · simp at hlast
      · rfl
    | flow =>
      simp only
      split
      · simp at hfirst
      · rfl

/-- The type of a member can be read back. -/
theorem readType?_tokens (lang : Language) (t : TypeExpr) :
    lang.readType? (t.tokens lang) = some t.ref := by
  obtain ⟨base, multiplicity, required⟩ := t
  have hone := fun required => @dropNullable_optionalTokens lang required [.word base] base
    (by simp) (.inl rfl)
  cases multiplicity with
  | one => simp [TypeExpr.tokens, Language.readType?, hone, TypeExpr.ref]
  | many itemRequired =>
    have hmany := @dropNullable_optionalTokens lang required
      ([.word "Array", .mark '<'] ++ lang.optionalTokens itemRequired [.word base] ++ [.mark '>'])
      base (by simp) (.inr (by rw [List.getLast?_concat]))
    unfold TypeExpr.tokens Language.readType?
    rw [hmany]
    simp [hone, TypeExpr.ref]

example : Language.flow.readType? (tokens "?Array<?number>") =
    some (.list (.named "number" false) false) := by decide

/-! ## Records -/

/-- A member as it is read back; a type that is no name and no list of one has no reading. -/
structure ReadMember where
  name : String
  optional : Bool
  type : Option TypeRef
  deriving DecidableEq, Repr

/-- A record as it is read back, with the names of the blocks around it. -/
structure ReadRecord where
  blocks : List String
  name : String
  members : List ReadMember
  deriving DecidableEq, Repr

/-- What ends a member is no part of its type. -/
def dropComma (ts : List Token) : List Token :=
  if ts.getLast? = some (.mark ',') then ts.dropLast else ts

/-- The statement neither opens nor closes a declaration. -/
def Statement.isInner : Statement → Bool
  | .opens _ _ => false
  | .closes => false
  | _ => true

def Statement.member? (lang : Language) : Statement → Option ReadMember
  | .entry name optional type => some ⟨name, optional, lang.readType? (dropComma type)⟩
  | _ => none

/-- The members up to where a block opens or closes. -/
def members (lang : Language) (ss : List Statement) : List ReadMember :=
  (ss.takeWhile Statement.isInner).filterMap (Statement.member? lang)

/-- The records that are declared, the first statement standing in these blocks. -/
def records (lang : Language) (blocks : List String) : List Statement → List ReadRecord
  | [] => []
  | .opens keyword name :: r =>
    if keyword = lang.recordKeyword then
      ⟨blocks, name, members lang r⟩ :: records lang (blocks ++ [name]) r
    else records lang (blocks ++ [name]) r
  | .closes :: r => records lang blocks.dropLast r
  | _ :: r => records lang blocks r

/-! ## Parts of a file -/

/-- These statements declare the records `f blocks` in the blocks `blocks`. -/
def Declares (lang : Language) (ss : List Statement) (f : List String → List ReadRecord) : Prop :=
  ∀ blocks r, records lang blocks (ss ++ r) = f blocks ++ records lang blocks r

section

variable {lang : Language} {a b : List Statement} {f g : List String → List ReadRecord}

theorem Declares.append (ha : Declares lang a f) (hb : Declares lang b g) :
    Declares lang (a ++ b) fun blocks => f blocks ++ g blocks := by
  intro blocks r
  rw [List.append_assoc, ha, hb, List.append_assoc]

/-- Outside of records only declarations count. -/
theorem Declares.of_isInner (h : ∀ s ∈ a, s.isInner = true) : Declares lang a fun _ => [] := by
  intro blocks r
  induction a with
  | nil => rfl
  | cons s a ih =>
    have hs := h s (by simp)
    have ha := ih fun x hx => h x (by simp [hx])
    cases s <;> first | exact ha | cases hs

theorem Declares.flatMap {α : Type} {xs : List α} {ss : α → List Statement}
    {f : α → List String → List ReadRecord} (h : ∀ x ∈ xs, Declares lang (ss x) (f x)) :
    Declares lang (xs.flatMap ss) fun blocks => xs.flatMap (f · blocks) := by
  induction xs with
  | nil => exact fun _ _ => rfl
  | cons x r ih =>
    have hr := ih fun y hy => h y (by simp [hy])
    exact (h x (by simp)).append hr

/-- Statements that declare nothing may stand in front. -/
theorem Declares.inner_append (ha : ∀ s ∈ a, s.isInner = true) (hb : Declares lang b f) :
    Declares lang (a ++ b) f := (Declares.of_isInner ha).append hb

/-- Statements that declare nothing may stand behind. -/
theorem Declares.append_inner (ha : Declares lang a f) (hb : ∀ s ∈ b, s.isInner = true) :
    Declares lang (a ++ b) f := by
  intro blocks r
  have hall := ha.append (.of_isInner hb) blocks r
  simpa only [List.append_nil] using hall

/-- A block that is no record. -/
theorem Declares.block {keyword : String} (h : Declares lang a f)
    (hkeyword : keyword ≠ lang.recordKeyword) (name : String) :
    Declares lang (.opens keyword name :: a ++ [.closes]) fun blocks => f (blocks ++ [name]) := by
  intro blocks r
  simp only [List.cons_append, List.append_assoc, records, hkeyword, if_false]
  rw [h]
  simp [records]

/-- A record with what stands inside. -/
theorem declares_record (name : String) (h : ∀ s ∈ a, s.isInner = true) :
    Declares lang (.opens lang.recordKeyword name :: a ++ [.closes])
      fun blocks => [⟨blocks, name, a.filterMap (Statement.member? lang)⟩] := by
  intro blocks r
  have hbody := @Declares.of_isInner lang a h (blocks ++ [name]) (.closes :: r)
  have hmembers : members lang (a ++ .closes :: r) = a.filterMap (Statement.member? lang) := by
    rw [members, List.takeWhile_append_of_pos h]
    simp [Statement.isInner]
  simp only [List.cons_append, List.append_assoc, List.nil_append, records, if_true, hmembers]
  rw [hbody]
  simp [records]

end

/-! ## Lines with any names of models

What is understood of a line with a model is not known, but that it opens and closes nothing shows
in front of the model. -/

/-- The line neither opens nor closes a declaration. -/
def Line.IsInner (l : Line) : Prop := ∀ s, statement? l.code = some s → s.isInner = true

theorem isInner_of_mem_understood {ls : List Line} (h : ∀ l ∈ ls, l.IsInner) :
    ∀ s ∈ understood ls, s.isInner = true := by
  intro s hs
  obtain ⟨l, hl, hs⟩ := List.mem_filterMap.1 hs
  exact h l hl s hs

theorem Line.isInner_of_statement {l : Line} {ts : List Token} {s : Statement}
    (hcode : l.code = ts) (hs : statement? ts = some s) (hinner : s.isInner = true) :
    l.IsInner := by
  intro s' hs'
  rw [hcode, hs] at hs'
  obtain rfl := Option.some.inj hs'
  exact hinner

/-- Lines that say nothing are inner. -/
theorem isInner_of_silent {ls : List Line} (h : read ls = some []) : ∀ l ∈ ls, l.IsInner := by
  intro l hl s hs
  have hmem : s ∈ understood ls := List.mem_filterMap.2 ⟨l, hl, hs⟩
  rw [understood_of_read h] at hmem
  cases hmem

/-- The tokens of the text start with these. -/
def StartsWith (s : String) (ts : List Token) : Prop := ∀ r, ∃ us, tokens (s ++ r) = ts ++ us

namespace StartsWith

variable {a b : String} {ts us : List Token}

theorem closed (h : IsClosed a ts) : StartsWith a ts := fun r =>
  ⟨tokens r, tokens_append_of_isClosed h r⟩

theorem spelled (ha : Spells a ts) (hb : IsMark b us) : StartsWith (a ++ b) (ts ++ us) := by
  intro r
  refine ⟨tokens r, ?_⟩
  rw [String.append_assoc, ha _ (hb.startsOutside r), tokens_append_of_isClosed hb.1,
    List.append_assoc]

theorem append (h : StartsWith a ts) (b : String) : StartsWith (a ++ b) ts := by
  intro r
  rw [String.append_assoc]
  exact h _

theorem after (ha : IsClosed a ts) (hb : StartsWith b us) : StartsWith (a ++ b) (ts ++ us) := by
  intro r
  obtain ⟨vs, hvs⟩ := hb r
  exact ⟨vs, by rw [String.append_assoc, tokens_append_of_isClosed ha, hvs, List.append_assoc]⟩

theorem code {t : Token} (h : StartsWith a (t :: ts)) (ht : t ≠ .mark '/') (indent : Nat) :
    ∃ us, (Line.mk indent a).code = t :: (ts ++ us) := by
  obtain ⟨us, hus⟩ := h ""
  rw [String.append_empty] at hus
  exact ⟨us, Line.code_mk hus ht indent⟩

end StartsWith

theorem isInner_delegate {field : String} (hf : IsWord field) (parent : String) (indent : Nat) :
    (Line.mk indent (delegateText parent field)).IsInner := by
  have hcolon : IsMark ": (parent: " [.mark ':', .mark '(', .word "parent", .mark ':'] := by decide
  have hstart := ((((StartsWith.spelled (Spells.word hf) hcolon).append parent).append
    ") => parent.").append field).append ","
  obtain ⟨us, hcode⟩ := hstart.code (by simp) indent
  refine Line.isInner_of_statement hcode rfl ?_
  unfold keyed
  split
  · split_ifs <;> rfl
  · rfl

theorem isInner_signature (lang : Language) {type : String} {r : Resolver}
    (h : IsWord (lang.resolverName type r.field)) (parent args : String) :
    (Line.top (r.signature lang type parent args)).IsInner := by
  have hfront : IsClosed "export type " [.word "export", .word "type"] := by decide
  have hparent : IsMark " = (parent: "
      [.mark '=', .mark '(', .word "parent", .mark ':'] := by decide
  have hstart := ((((((((StartsWith.spelled (Spells.after hfront (.word h)) hparent).append
    parent).append ", args: ").append args).append
    ", ctx: Context, info: GraphQLResolveInfo) => ").append (r.result.text lang)).append
    " | Promise<").append (r.result.text lang)).append ">"
  have htext : StartsWith (r.signature lang type parent args) _ := hstart
  obtain ⟨us, hcode⟩ := htext.code (by simp) 0
  have halias := statement?_type (lang.resolverName type r.field)
    ([.mark '(', .word "parent", .mark ':'] ++ us)
  exact Line.isInner_of_statement hcode halias (by simp [isOpening, Statement.isInner])

theorem startsWith_bracedNames (names : List String) :
    StartsWith (bracedNames names) [.mark '{'] :=
  ((StartsWith.closed (by decide : IsClosed "\x7b " [.mark '{'])).append
    (", ".intercalate names)).append " \x7d"

theorem isInner_importLine (lang : Language) (names : List String) (path : String) :
    (importLine (importKeyword lang) names path).IsInner := by
  have hstart := (((StartsWith.after (isClosed_importKeyword lang)
    (startsWith_bracedNames names)).append " from '").append path).append "'"
  cases lang <;> obtain ⟨us, hcode⟩ := hstart.code (by simp) 0 <;>
    exact Line.isInner_of_statement hcode rfl rfl

theorem isInner_reexportLine (names : List String) :
    (Line.top ("export type " ++ bracedNames names)).IsInner := by
  have hfront : IsClosed "export type " [.word "export", .word "type"] := by decide
  obtain ⟨us, hcode⟩ := (StartsWith.after hfront (startsWith_bracedNames names)).code (by simp) 0
  exact Line.isInner_of_statement hcode rfl rfl

end ResolverKit.Code
