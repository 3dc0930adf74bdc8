import ResolverKit.Sdl.Document

/-!
# Dependencies of definitions

`closure` adds to a set of names the names of all definitions of the same document that the
definitions under these names mention, directly or through others.  Names that the document does
not define are left out; other files may supply them.
-/

namespace ResolverKit.Import

open Sdl (Document)

def definedNames (d : Document) : List String := d.filterMap (·.name?)

/-- The types that the definitions and extensions under a name mention. -/
def referencesOf (d : Document) (name : String) : List String :=
  (d.filter (·.name? = some name)).flatMap (·.references)

/-- The defined names that are not selected yet. -/
def remaining (d : Document) (selected : List String) : List String :=
  (definedNames d).filter (!selected.contains ·)

theorem length_remaining_lt {d : Document} {selected : List String} {name : String}
    (hd : name ∈ definedNames d) (hs : name ∉ selected) :
    (remaining d (name :: selected)).length < (remaining d selected).length := by
  have h : remaining d (name :: selected) = (remaining d selected).filter (· ≠ name) := by
    simp only [remaining, List.filter_filter]
    congr 1
    funext x
    by_cases hx : x = name <;> simp [hx]
  rw [h]
  refine List.length_filter_lt_length_iff_exists.2 ⟨name, ?_, by simp⟩
  simp [remaining, hd, hs]

/-- The selected names with all that the pending names lead to. -/
def closureFrom (d : Document) (selected pending : List String) : List String :=
  match pending with
  | [] => selected
  | name :: r =>
    if _h : name ∈ definedNames d ∧ name ∉ selected then
      closureFrom d (name :: selected) (referencesOf d name ++ r)
    else closureFrom d selected r
termination_by ((remaining d selected).length, pending.length)
decreasing_by
  · exact Prod.Lex.left _ _ (length_remaining_lt _h.1 _h.2)
  · exact Prod.Lex.right _ (by simp)

/-- The least set of defined names that holds the given names and all they lead to. -/
def closure (d : Document) (names : List String) : List String := closureFrom d [] names

end ResolverKit.Import
