import ResolverKit.Model.Binding

/-!
# Local names of models

Under which name a generated file knows each model.  A model keeps its own name unless the file
already uses it; then `Model` is put behind the name as often as needed.  Models of one specifier
are imported together, in the order of first use.

Main statement: a fresh name is not among the used ones.
-/

namespace ResolverKit.Model

/-! ## Algorithm -/

/-- A model as the schema types refer to it: specifier and name. -/
abbrev Key := String × String

def Binding.key (b : Binding) : Key := (b.specifier, b.name)

def othersThan (name : String) (names : List String) : List String := names.filter (· ≠ name)

theorem length_othersThan_lt {name : String} {names : List String} (h : name ∈ names) :
    (othersThan name names).length < names.length :=
  List.length_filter_lt_length_iff_exists.2 ⟨name, h, by simp⟩

/-- The name with the least number of `Model` endings that is not used. -/
def freshName (used : List String) (name : String) : String :=
  if _h : name ∈ used then freshName (othersThan name used) (name ++ "Model") else name
termination_by used.length
decreasing_by exact length_othersThan_lt _h

/-- An import of several models from one file: names and local names. -/
structure ImportGroup where
  specifier : String
  names : List (String × String)
  deriving DecidableEq, Repr

/-- The local names of the models met so far, and the names in use. -/
structure Naming where
  used : List String
  locals : List (Key × String)
  deriving Repr

/-- Gives a model a local name unless it has one. -/
def Naming.add (n : Naming) (key : Key) : Naming :=
  match Keyed.get? key n.locals with
  | some _ => n
  | none =>
    let fresh := freshName n.used key.2
    ⟨fresh :: n.used, n.locals ++ [(key, fresh)]⟩

/-- The local names of all models, in the order of first use; `used` are the names that the file
uses otherwise. -/
def nameModels (used : List String) (bindings : Bindings) : List (Key × String) :=
  (bindings.foldl (fun (n : Naming) (_, b) => n.add b.key) ⟨used, []⟩).locals

/-- The local name of the model behind a schema type. -/
def localName? (locals : List (Key × String)) (bindings : Bindings) (type : String) :
    Option String :=
  (Keyed.get? type bindings).bind fun b => Keyed.get? b.key locals

/-- The imports of the models, one for each specifier. -/
def importGroups (locals : List (Key × String)) : List ImportGroup :=
  (locals.map (·.1.1)).eraseDups.map fun specifier =>
    ⟨specifier, (locals.filter (·.1.1 = specifier)).map fun ((_, name), loc) => (name, loc)⟩

/-! ## Lemmas -/

theorem length_le_freshName (used : List String) (name : String) :
    name.length ≤ (freshName used name).length := by
  fun_induction freshName used name with
  | case1 used name _ ih => exact Nat.le_trans (by simp) ih
  | case2 => exact Nat.le_refl _

theorem freshName_not_mem (used : List String) (name : String) : freshName used name ∉ used := by
  fun_induction freshName used name with
  | case1 used name h ih =>
    intro hm
    refine ih (List.mem_filter.2 ⟨hm, ?_⟩)
    have := length_le_freshName (othersThan name used) (name ++ "Model")
    have hl : (name ++ "Model").length = name.length + 5 := by rw [String.length_append]; rfl
    simp only [ne_eq, decide_eq_true_eq]
    intro he
    rw [he] at this
    omega
  | case2 used name h => exact h

end ResolverKit.Model
