import ResolverKit.Code.Generation
import ResolverKit.Proofs.Names
import ResolverKit.Proofs.Tokens

/-!
# Classes of names

The names of a schema are words and even identifiers, and so are the names that are put together
from them.  Both are classes of names (`IsNameClass`), and what is generated is looked at for all
classes at once: `f.HasNames P` says that all names in a types file belong to the class `P`, and
`f.HasOwnNames P` says so of those that are not taken from models.
-/

namespace ResolverKit.Code

open Sdl (IsName isNameStart isNameContinue isNameContinue_of_isNameStart)
open Text (isBlank)

/-! ## Words -/

theorem isWord_of_isName {s : String} (h : IsName s) : IsWord s := by
  obtain ⟨hhead, hall⟩ := h
  refine ⟨?_, fun c hc => ?_⟩
  · rintro rfl
    simp at hhead
  · have hc := List.all_eq_true.1 hall c hc
    unfold isNameContinue at hc
    unfold isWordChar
    rcases Bool.or_eq_true_iff.1 hc with hc | hc <;> simp [hc]

/-- Names are in ASCII. -/
theorem toNat_lt_of_isNameContinue {c : Char} (h : isNameContinue c = true) : c.toNat < 128 := by
  unfold isNameContinue Char.isAlphanum Char.isAlpha Char.isUpper Char.isLower Char.isDigit at h
  simp only [Bool.or_eq_true, Bool.and_eq_true, decide_eq_true_eq, beq_iff_eq] at h
  rcases h with ((⟨-, h⟩ | ⟨-, h⟩) | ⟨-, h⟩) | rfl
  · exact Nat.lt_of_le_of_lt h (by decide)
  · exact Nat.lt_of_le_of_lt h (by decide)
  · exact Nat.lt_of_le_of_lt h (by decide)
  · decide

theorem toNat_lt_of_isNameStart {c : Char} (h : isNameStart c = true) : c.toNat < 128 :=
  toNat_lt_of_isNameContinue (isNameContinue_of_isNameStart h)

/-- What holds of the numbers below 128 holds of the ASCII characters. -/
theorem forall_ascii {P : Char → Prop} (h : ∀ n, n < 128 → P (Char.ofNat n)) {c : Char}
    (hc : c.toNat < 128) : P c := by
  have hn := h c.toNat hc
  rwa [Char.ofNat_toNat] at hn

theorem capital_isWord {c : Char} (h : isNameStart c = true) :
    Text.capital c ≠ [] ∧ (Text.capital c).all isWordChar = true := by
  have hascii : ∀ n, n < 128 → isNameStart (Char.ofNat n) = true →
      Text.capital (Char.ofNat n) ≠ [] ∧ (Text.capital (Char.ofNat n)).all isWordChar = true := by
    decide +kernel
  exact forall_ascii (P := fun c => isNameStart c = true → Text.capital c ≠ [] ∧
    (Text.capital c).all isWordChar = true) hascii (toNat_lt_of_isNameStart h) h

/-- What holds of the characters of a name and of the capital of its first one holds of the name
with a capital. -/
theorem forall_mem_capitalize {P : Char → Prop} {s : String} (h : IsName s)
    (hchars : ∀ c ∈ s.toList, P c)
    (hcapital : ∀ c, isNameStart c = true → ∀ x ∈ Text.capital c, P x) :
    ∀ x ∈ (Text.capitalize s).toList, P x := by
  intro x hx
  unfold Text.capitalize at hx
  split at hx
  · exact hchars x hx
  · next c r hs =>
    rw [String.toList_ofList] at hx
    rcases List.mem_append.1 hx with hx | hx
    · have hc : isNameStart c = true := by simpa [hs] using h.1
      exact hcapital c hc x hx
    · exact hchars x (by simp [hs, hx])

theorem isWord_capitalize {s : String} (h : IsName s) : IsWord (Text.capitalize s) := by
  obtain ⟨hne, hchars⟩ := isWord_of_isName h
  refine ⟨?_, forall_mem_capitalize h hchars fun c hc x hx =>
    List.all_eq_true.1 (capital_isWord hc).2 x hx⟩
  unfold Text.capitalize
  split
  · exact hne
  · next c r hs =>
    have hc : isNameStart c = true := by simpa [hs] using h.1
    intro he
    have hnil := congrArg String.toList he
    simp [(capital_isWord hc).1] at hnil

/-! ## Identifiers -/

/-- A text that is read as one word, without blanks; every identifier is. -/
def IsIdentifier (s : String) : Prop := IsWord s ∧ ∀ c ∈ s.toList, isBlank c = false

instance (s : String) : Decidable (IsIdentifier s) :=
  decidable_of_iff (IsWord s ∧ s.toList.all (!isBlank ·) = true) (by simp [IsIdentifier])

theorem IsIdentifier.append {a b : String} (ha : IsIdentifier a) (hb : IsIdentifier b) :
    IsIdentifier (a ++ b) := by
  refine ⟨ha.1.append hb.1, fun c hc => ?_⟩
  rw [String.toList_append] at hc
  rcases List.mem_append.1 hc with hc | hc
  · exact ha.2 c hc
  · exact hb.2 c hc

theorem not_isBlank_of_isNameContinue {c : Char} (h : isNameContinue c = true) :
    isBlank c = false := by
  have hascii : ∀ n, n < 128 → isNameContinue (Char.ofNat n) = true →
      isBlank (Char.ofNat n) = false := by decide +kernel
  exact forall_ascii (P := fun c => isNameContinue c = true → isBlank c = false) hascii
    (toNat_lt_of_isNameContinue h) h

theorem not_isBlank_of_mem_capital {c : Char} (h : isNameStart c = true) :
    ∀ x ∈ Text.capital c, isBlank x = false := by
  have hascii : ∀ n, n < 128 → isNameStart (Char.ofNat n) = true →
      (Text.capital (Char.ofNat n)).all (!isBlank ·) = true := by decide +kernel
  have hall := forall_ascii
    (P := fun c => isNameStart c = true → (Text.capital c).all (!isBlank ·) = true)
    hascii (toNat_lt_of_isNameStart h) h
  intro x hx
  simpa using List.all_eq_true.1 hall x hx

theorem isIdentifier_of_isName {s : String} (h : IsName s) : IsIdentifier s :=
  ⟨isWord_of_isName h, fun c hc => not_isBlank_of_isNameContinue (List.all_eq_true.1 h.2 c hc)⟩

theorem isIdentifier_capitalize {s : String} (h : IsName s) : IsIdentifier (Text.capitalize s) :=
  ⟨isWord_capitalize h, forall_mem_capitalize h (isIdentifier_of_isName h).2 fun _ hc =>
    not_isBlank_of_mem_capital hc⟩

/-! ## Classes of names -/

/-- The class holds the names of a schema, as they are and with a capital, and what is put together
from its members. -/
structure IsNameClass (P : String → Prop) : Prop where
  name : ∀ {s}, IsName s → P s
  capital : ∀ {s}, IsName s → P (Text.capitalize s)
  append : ∀ {a b}, P a → P b → P (a ++ b)
  ne_empty : ∀ {s}, P s → s ≠ ""

theorem isNameClass_isWord : IsNameClass IsWord :=
  ⟨isWord_of_isName, isWord_capitalize, .append, (·.1)⟩

theorem isNameClass_isIdentifier : IsNameClass IsIdentifier :=
  ⟨isIdentifier_of_isName, isIdentifier_capitalize, .append, (·.1.1)⟩

namespace IsNameClass

variable {P : String → Prop} (hP : IsNameClass P) (lang : Language) {type field : String}

include hP

theorem argsName (ht : P type) (hf : P (Text.capitalize field)) : P (lang.argsName type field) := by
  cases lang with
  | typescript => exact hP.append (hP.name (by decide)) hf
  | flow =>
    exact hP.append (hP.append (hP.append ht (hP.name (by decide))) hf) (hP.name (by decide))

theorem resolverName (ht : P type) (hf : P (Text.capitalize field)) :
    P (lang.resolverName type field) := by
  cases lang with
  | typescript => exact hP.append hf (hP.name (by decide))
  | flow =>
    exact hP.append (hP.append (hP.append ht (hP.name (by decide))) hf) (hP.name (by decide))

theorem defaultsName (ht : P type) : P (lang.defaultsName type) := by
  cases lang with
  | typescript => exact hP.name (by decide : IsName "defaultResolvers")
  | flow => exact hP.append ht (hP.name (by decide))

theorem resolversName (ht : P type) : P (lang.resolversName type) := by
  cases lang <;> exact hP.append ht (hP.name (by decide))

end IsNameClass

/-! ## Names in what is generated -/

section

variable (P : String → Prop)

/-- The names of a member. -/
structure Member.HasNames (m : Member) : Prop where
  name : P m.name
  type : P m.type.base

/-- A choice; a quoted text holds a name. -/
structure Choice.HasNames (c : Choice) : Prop where
  name : P c.name
  options : ∀ o ∈ c.options, P o ∨ ∃ v, P v ∧ o = "'" ++ v ++ "'"

structure RecordType.HasNames (r : RecordType) : Prop where
  name : P r.name
  members : ∀ m ∈ r.members, m.HasNames P

/-- The names of a resolver but for its result, which may be a model. -/
structure Resolver.HasOwnNames (r : Resolver) : Prop where
  field : P r.field
  capital : P (Text.capitalize r.field)
  arguments : ∀ m ∈ r.arguments, m.HasNames P

structure Resolver.HasNames (r : Resolver) : Prop extends r.HasOwnNames P where
  result : P r.result.base

structure ResolverGroup.HasOwnNames (g : ResolverGroup) : Prop where
  type : P g.type
  delegated : ∀ f ∈ g.delegated, P f
  resolvers : ∀ r ∈ g.resolvers, r.HasOwnNames P

structure ResolverGroup.HasNames (g : ResolverGroup) : Prop where
  type : P g.type
  parent : P g.parent
  delegated : ∀ f ∈ g.delegated, P f
  resolvers : ∀ r ∈ g.resolvers, r.HasNames P

structure TypesFile.HasOwnNames (f : TypesFile) : Prop where
  enums : ∀ c ∈ f.enums, c.HasNames P
  unions : ∀ c ∈ f.unions, c.HasNames P
  records : ∀ r ∈ f.records, r.HasNames P
  groups : ∀ g ∈ f.groups, g.HasOwnNames P

structure TypesFile.HasNames (f : TypesFile) : Prop where
  imports : ∀ g ∈ f.imports, ∀ i ∈ g.names, P i.1 ∧ P i.2
  enums : ∀ c ∈ f.enums, c.HasNames P
  unions : ∀ c ∈ f.unions, c.HasNames P
  records : ∀ r ∈ f.records, r.HasNames P
  groups : ∀ g ∈ f.groups, g.HasNames P

structure TypeScaffold.HasNames (s : TypeScaffold) : Prop where
  type : P s.type
  parent : ∀ p ∈ s.parent, P p.1 ∧ P p.2
  fields : ∀ f ∈ s.fields, P f.name

end

theorem ResolverGroup.HasNames.own {P : String → Prop} {g : ResolverGroup} (h : g.HasNames P) :
    g.HasOwnNames P :=
  ⟨h.type, h.delegated, fun r hr => (h.resolvers r hr).toHasOwnNames⟩

end ResolverKit.Code
