import Mathlib.Data.List.TakeWhile
import ResolverKit.Proofs.FileBlocks

/-!
# The parts of a types file

What a types file says of the resolvers of a type is found in its statements: behind the namespace
of the type, or from its constant with default resolvers on.  From there the default resolvers,
the types of the resolvers and the type of all resolvers are read off.  For the file of a schema
in which no two types have the same name these are what the file was written for.

    partOf lang g.type (f.statements lang) = groupBody lang g ++ …           (exists_partOf_eq)
-/

namespace ResolverKit.Code

/-! ## Looking for statements -/

/-- The statements behind the first `s`. -/
def behind (s : Statement) (ss : List Statement) : List Statement := (ss.dropWhile (· ≠ s)).tail

/-- The statements in front of the first `s`. -/
def upTo (s : Statement) (ss : List Statement) : List Statement := ss.takeWhile (· ≠ s)

def behindLast (s : Statement) (ss : List Statement) : List Statement :=
  (upTo s ss.reverse).reverse

theorem dropWhile_append {s : Statement} {a : List Statement} (h : s ∉ a) (b : List Statement) :
    (a ++ s :: b).dropWhile (· ≠ s) = s :: b := by
  rw [List.dropWhile_append_of_pos, List.dropWhile_cons_of_neg (by simp)]
  intro x hx
  have hne : x ≠ s := ne_of_mem_of_not_mem hx h
  simpa using hne

theorem behind_append {s : Statement} {a : List Statement} (h : s ∉ a) (b : List Statement) :
    behind s (a ++ s :: b) = b := by
  rw [behind, dropWhile_append h]
  rfl

theorem upTo_append {s : Statement} {a : List Statement} (h : s ∉ a) (b : List Statement) :
    upTo s (a ++ s :: b) = a := by
  rw [upTo, List.takeWhile_append_of_pos, List.takeWhile_cons_of_neg (by simp), List.append_nil]
  intro x hx
  have hne : x ≠ s := ne_of_mem_of_not_mem hx h
  simpa using hne

theorem behindLast_append {s : Statement} {b : List Statement} (h : s ∉ b) (a : List Statement) :
    behindLast s (a ++ s :: b) = b := by
  rw [behindLast, List.reverse_append, List.reverse_cons, List.append_assoc, List.singleton_append,
    upTo_append (by simpa using h), List.reverse_reverse]

def key? : Statement → Option String
  | .entry name _ _ => some name
  | .asks name _ => some name
  | .item name => some name
  | _ => none

def alias? : Statement → Option (String × List Token)
  | .alias name type => some (name, type)
  | _ => none

/-! ## Resolvers -/

/-- The statements of a types file from the default resolvers of a type on. -/
def partOf : Language → (type : String) → List Statement → List Statement
  | .typescript, type, ss => behind (.opens "namespace" (type ++ "Resolvers")) ss
  | .flow, type, ss => ss.dropWhile (· ≠ .opens "const" (type ++ "_defaultResolvers"))

def defaultKeys (lang : Language) (type : String) (ss : List Statement) : List String :=
  (upTo .closes (behind (.opens "const" (lang.defaultsName type)) (partOf lang type ss))).filterMap
    key?

def signatures (lang : Language) (type : String) (ss : List Statement) :
    List (String × List Token) :=
  (upTo (.opens lang.recordKeyword (lang.groupName type)) (partOf lang type ss)).filterMap alias?

def resolverKeys (lang : Language) (type : String) (ss : List Statement) : List String :=
  (upTo .closes (behind (.opens lang.recordKeyword (lang.groupName type))
    (partOf lang type ss))).filterMap key?

/-- The members of the type of the resolvers of all types, which stands at the end of the file. -/
def indexKeys (lang : Language) (ss : List Statement) : List String :=
  (behindLast (.opens lang.recordKeyword "Resolvers") ss).filterMap key?

section

variable {lang : Language}

theorem mem_recordStatements {name : String} {members : List Member} {s : Statement}
    (h : s ∈ recordStatements lang name members) :
    s = .opens lang.recordKeyword name ∨ (∃ m ∈ members, s = m.statement lang) ∨ s = .closes := by
  simp only [recordStatements, List.mem_append, List.mem_cons, List.mem_map, List.not_mem_nil,
    or_false] at h
  rcases h with (h | ⟨m, hm, rfl⟩) | h
  · exact .inl h
  · exact .inr (.inl ⟨m, hm, rfl⟩)
  · exact .inr (.inr h)

/-- The record keyword is neither of those around resolvers. -/
theorem recordKeyword_ne (lang : Language) :
    lang.recordKeyword ≠ "namespace" ∧ lang.recordKeyword ≠ "const" := by
  cases lang <;> decide

theorem opens_not_mem_record {keyword name : String} (h : keyword ≠ lang.recordKeyword)
    (n : String) (members : List Member) :
    .opens keyword name ∉ recordStatements lang n members := by
  intro hm
  rcases mem_recordStatements hm with h' | ⟨m, -, h'⟩ | h'
  · cases h'
    exact h rfl
  · cases h'
  · cases h'

/-- What a group opens, besides records, are its namespace and its default resolvers. -/
theorem opens_mem_group {g : ResolverGroup} {keyword name : String}
    (h : keyword ≠ lang.recordKeyword) (hm : .opens keyword name ∈ groupStatements lang g) :
    keyword = "namespace" ∧ lang = .typescript ∧ name = g.type ++ "Resolvers" ∨
      keyword = "const" ∧ name = lang.defaultsName g.type := by
  have hbody : .opens keyword name ∈ groupBody lang g →
      keyword = "const" ∧ name = lang.defaultsName g.type := by
    intro hm
    simp only [groupBody, List.mem_append] at hm
    rcases hm with ((hm | hm) | hm) | hm
    · simp only [defaultStatements, List.mem_append, List.mem_cons, List.mem_map, List.not_mem_nil,
        or_false] at hm
      rcases hm with (hm | ⟨f, -, hm⟩) | hm
      · cases hm
        exact ⟨rfl, rfl⟩
      · cases hm
      · cases hm
    · obtain ⟨r, -, hm⟩ := List.mem_flatMap.1 hm
      split_ifs at hm
      · cases hm
      · exact absurd hm (opens_not_mem_record h _ _)
    · obtain ⟨r, -, hm⟩ := List.mem_map.1 hm
      cases hm
    · exact absurd hm (opens_not_mem_record h _ _)
  cases lang with
  | typescript =>
    simp only [groupStatements, List.mem_append, List.mem_cons, List.not_mem_nil, or_false] at hm
    rcases hm with (hm | hm) | hm
    · cases hm
      exact .inl ⟨rfl, rfl, rfl⟩
    · exact .inr (hbody hm)
    · cases hm
  | flow => exact .inr (hbody hm)

theorem opens_not_mem_head {f : TypesFile} (keyword name : String) :
    .opens keyword name ∉ headStatements lang f := by
  intro hm
  have hflat := isFlat_of_mem_head _ hm []
  simp [Statement.blocksBehind] at hflat

/-- What stands in front of the resolver types of a type, which come behind those of `before`. -/
def frontOf (lang : Language) (f : TypesFile) (before : List ResolverGroup) : List Statement :=
  headStatements lang f ++ f.records.flatMap (fun r => recordStatements lang r.name r.members) ++
    before.flatMap (groupStatements lang)

theorem opens_not_mem_front {f : TypesFile} {before : List ResolverGroup} {keyword name : String}
    (h : keyword ≠ lang.recordKeyword)
    (hbefore : ∀ g ∈ before, .opens keyword name ∉ groupStatements lang g) :
    .opens keyword name ∉ frontOf lang f before := by
  intro hm
  rcases List.mem_append.1 hm with hm | hm
  · rcases List.mem_append.1 hm with hm | hm
    · exact opens_not_mem_head keyword name hm
    · obtain ⟨r, -, hm⟩ := List.mem_flatMap.1 hm
      exact opens_not_mem_record h _ _ hm
  · obtain ⟨g, hg, hm⟩ := List.mem_flatMap.1 hm
    exact hbefore g hg hm

section

variable {f : TypesFile} {before : List ResolverGroup} {type : String}
  (h : ∀ g ∈ before, g.type ≠ type)

include h

theorem namespace_not_mem_front :
    .opens "namespace" (type ++ "Resolvers") ∉ frontOf .typescript f before := by
  refine opens_not_mem_front (by decide) fun g hg hm => ?_
  rcases opens_mem_group (by decide) hm with ⟨-, -, hname⟩ | ⟨hconst, -⟩
  · exact h g hg ((String.append_left_inj _).1 hname.symm)
  · exact absurd hconst (by decide)

theorem const_not_mem_front :
    .opens "const" (type ++ "_defaultResolvers") ∉ frontOf .flow f before := by
  refine opens_not_mem_front (by decide) fun g hg hm => ?_
  rcases opens_mem_group (by decide) hm with ⟨-, hlang, -⟩ | ⟨-, hname⟩
  · cases hlang
  · exact h g hg ((String.append_left_inj _).1 hname.symm)

end

/-- What is found for a type starts with what its resolvers were written as. -/
theorem exists_partOf_eq {f : TypesFile} (hf : (f.groups.map (·.type)).Nodup) {g : ResolverGroup}
    (hg : g ∈ f.groups) :
    ∃ rest, partOf lang g.type (f.statements lang) = groupBody lang g ++ rest := by
  obtain ⟨before, after, hsplit⟩ := List.append_of_mem hg
  have hdistinct : ∀ g' ∈ before, g'.type ≠ g.type := by
    intro g' hg' he
    rw [hsplit, List.map_append, List.nodup_append] at hf
    exact hf.2.2 _ (List.mem_map_of_mem hg') _ (by simp) he
  have hstatements : f.statements lang = frontOf lang f before ++ (groupStatements lang g ++
      (after.flatMap (groupStatements lang) ++ indexStatements lang f.groups)) := by
    rw [TypesFile.statements_eq, hsplit]
    simp only [frontOf, List.flatMap_append, List.flatMap_cons, List.append_assoc]
  rw [hstatements]
  cases lang with
  | typescript =>
    refine ⟨.closes :: (after.flatMap (groupStatements .typescript) ++
      indexStatements .typescript f.groups), ?_⟩
    show behind _ (_ ++ (.opens "namespace" (g.type ++ "Resolvers") ::
      (groupBody .typescript g ++ [.closes]) ++ _)) = _
    rw [List.cons_append, behind_append (namespace_not_mem_front hdistinct)]
    simp
  | flow =>
    exact ⟨after.flatMap (groupStatements .flow) ++ indexStatements .flow f.groups,
      dropWhile_append (const_not_mem_front hdistinct) _⟩

theorem argsName_ne_groupName (lang : Language) (type field : String) :
    lang.argsName type field ≠ lang.groupName type := by
  intro h
  cases lang with
  | typescript =>
    have hhead := congrArg (·.toList.head?) h
    simp [Language.argsName, Language.groupName] at hhead
  | flow =>
    have hlast := congrArg (·.toList.reverse) h
    simp [Language.argsName, Language.groupName] at hlast

def groupFront (lang : Language) (g : ResolverGroup) : List Statement :=
  defaultStatements lang g ++ argumentStatements lang g ++ signatureStatements lang g

theorem groupType_not_mem_front (g : ResolverGroup) :
    .opens lang.recordKeyword (lang.groupName g.type) ∉ groupFront lang g := by
  intro hm
  simp only [groupFront, List.mem_append] at hm
  rcases hm with (hm | hm) | hm
  · simp only [defaultStatements, List.mem_append, List.mem_cons, List.mem_map, List.not_mem_nil,
      or_false] at hm
    rcases hm with (hm | ⟨f, -, hm⟩) | hm
    · exact (recordKeyword_ne lang).2 (Statement.opens.inj hm).1
    · cases hm
    · cases hm
  · obtain ⟨r, -, hm⟩ := List.mem_flatMap.1 hm
    split_ifs at hm
    · cases hm
    · rcases mem_recordStatements hm with hm | ⟨m, -, hm⟩ | hm
      · exact argsName_ne_groupName lang g.type r.field (Statement.opens.inj hm).2.symm
      · cases hm
      · cases hm
  · obtain ⟨r, -, hm⟩ := List.mem_map.1 hm
    cases hm

/-- The keys up to the end of a block are those of its members. -/
theorem keys_block {α : Type} {xs : List α} {entry : α → Statement} {name : α → String}
    (h : ∀ x, key? (entry x) = some (name x)) (rest : List Statement) :
    (upTo .closes (xs.map entry ++ .closes :: rest)).filterMap key? = xs.map name := by
  have hcloses : .closes ∉ xs.map entry := by
    intro hm
    obtain ⟨x, -, hx⟩ := List.mem_map.1 hm
    have hkey := h x
    rw [hx] at hkey
    cases hkey
  have hnames : key? ∘ entry = some ∘ name := funext h
  rw [upTo_append hcloses, List.filterMap_map, hnames, List.filterMap_eq_map]

variable {f : TypesFile} {g : ResolverGroup}

theorem defaultKeys_eq (hf : (f.groups.map (·.type)).Nodup) (hg : g ∈ f.groups) :
    defaultKeys lang g.type (f.statements lang) = g.delegated := by
  obtain ⟨rest, hpart⟩ := @exists_partOf_eq lang f hf g hg
  have hbody : groupBody lang g ++ rest = [] ++ .opens "const" (lang.defaultsName g.type) ::
      (g.delegated.map (.asks · g.parent) ++ .closes :: (argumentStatements lang g ++
        signatureStatements lang g ++ groupTypeStatements lang g ++ rest)) := by
    simp [groupBody, defaultStatements]
  rw [defaultKeys, hpart, hbody, behind_append (by simp), keys_block (fun _ => rfl), List.map_id']

theorem signatures_eq (hf : (f.groups.map (·.type)).Nodup) (hg : g ∈ f.groups) :
    signatures lang g.type (f.statements lang) =
      g.resolvers.map fun r => (lang.resolverName g.type r.field, signatureTokens lang g r) := by
  obtain ⟨rest, hpart⟩ := @exists_partOf_eq lang f hf g hg
  have hbody : groupBody lang g ++ rest = groupFront lang g ++
      .opens lang.recordKeyword (lang.groupName g.type) ::
        ((groupTypeStatements lang g).tail ++ rest) := by
    simp [groupBody, groupFront, groupTypeStatements, recordStatements]
  have hdefaults : (defaultStatements lang g).filterMap alias? = [] := by
    rw [List.filterMap_eq_nil_iff]
    intro s hs
    simp only [defaultStatements, List.mem_append, List.mem_cons, List.mem_map, List.not_mem_nil,
      or_false] at hs
    rcases hs with (rfl | ⟨n, -, rfl⟩) | rfl <;> rfl
  have harguments : (argumentStatements lang g).filterMap alias? = [] := by
    rw [List.filterMap_eq_nil_iff]
    intro s hs
    obtain ⟨r, -, hs⟩ := List.mem_flatMap.1 hs
    split_ifs at hs
    · cases hs
    · rcases mem_recordStatements hs with rfl | ⟨m, -, rfl⟩ | rfl <;> rfl
  rw [signatures, hpart, hbody, upTo_append (groupType_not_mem_front g), groupFront,
    List.filterMap_append, List.filterMap_append, hdefaults, harguments, signatureStatements,
    List.filterMap_map, ← List.filterMap_eq_map']
  rfl

theorem resolverKeys_eq (hf : (f.groups.map (·.type)).Nodup) (hg : g ∈ f.groups) :
    resolverKeys lang g.type (f.statements lang) = g.resolvers.map (·.field) := by
  obtain ⟨rest, hpart⟩ := @exists_partOf_eq lang f hf g hg
  have hbody : groupBody lang g ++ rest = groupFront lang g ++
      .opens lang.recordKeyword (lang.groupName g.type) ::
        ((g.resolvers.map fun r => (namedMember r.field
          (lang.resolverName g.type r.field)).statement lang) ++ .closes :: rest) := by
    simp [groupBody, groupFront, groupTypeStatements, recordStatements]
  rw [resolverKeys, hpart, hbody, behind_append (groupType_not_mem_front g),
    keys_block (fun _ => rfl)]
  rfl

theorem indexKeys_eq (f : TypesFile) :
    indexKeys lang (f.statements lang) = f.groups.map (·.type) := by
  have hindex : f.statements lang = (headStatements lang f ++
      f.records.flatMap (fun r => recordStatements lang r.name r.members) ++
      f.groups.flatMap (groupStatements lang)) ++ .opens lang.recordKeyword "Resolvers" ::
        (f.groups.map (fun g =>
          .entry g.type false (resolversTypeTokens lang g.type ++ lang.endTokens)) ++
          [.closes]) := rfl
  have hlast : .opens lang.recordKeyword "Resolvers" ∉
      f.groups.map (fun g => Statement.entry g.type false
        (resolversTypeTokens lang g.type ++ lang.endTokens)) ++ [.closes] := by simp
  rw [indexKeys, hindex, behindLast_append hlast, List.filterMap_append, List.filterMap_map,
    ← List.filterMap_eq_map']
  simp [key?, Function.comp_def]

end

end ResolverKit.Code
