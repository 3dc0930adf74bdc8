import ResolverKit.Proofs.Nesting

/-!
# Identifiers in a plan

The names of a schema are identifiers, and the identifiers are a class of names.  If the names of
the models are identifiers and their specifiers can stand between quotes, a types file is clean:

    s.IsNamed → BindingsAreClean bindings →
      (TypesFile.ofPlan lang path (.of s bindings)).IsClean               (TypesFile.ofPlan_isClean)
-/

namespace ResolverKit.Code

open Sdl (IsName)
open Schema (ObjectType)
open Model (Bindings)

/-! ## Plans -/

/-- The names of the models are identifiers, and their specifiers can stand between quotes. -/
def BindingsAreClean (bindings : Bindings) : Prop :=
  ∀ b ∈ bindings, IsIdentifier b.2.name ∧ IsQuotable b.2.specifier

/-- The types file of a schema is clean if the models are. -/
theorem TypesFile.ofPlan_isClean (lang : Language) {path : String} (hpath : IsQuotable path)
    {s : Schema} (hs : s.IsNamed) {bindings : Bindings} (hb : BindingsAreClean bindings) :
    (TypesFile.ofPlan lang path (.of s bindings)).IsClean := by
  have hnames := TypesFile.ofPlan_hasNames isNameClass_isIdentifier lang path hs
    fun b hbound => (hb b hbound).1
  refine ⟨hnames, hpath, fun g hg => ?_⟩
  obtain ⟨specifier, hspecifier, rfl⟩ := List.mem_map.1 hg
  obtain ⟨p, hp, rfl⟩ := List.mem_map.1 (List.mem_eraseDups.1 hspecifier)
  obtain ⟨b, hbound, hkey, -⟩ := exists_binding_of_mem_nameModels hp
  show IsQuotable p.1.1
  rw [hkey]
  exact (hb b hbound).2

/-- The names of a scaffold are identifiers if those of the models are. -/
theorem TypeScaffold.ofType_hasIdentifiers {s : Schema} {bindings : Bindings}
    (hb : ∀ b ∈ bindings, IsIdentifier b.2.name) {t : ObjectType} (ht : IsName t.name)
    (hfields : ∀ f ∈ t.fields, f.IsNamed) :
    (TypeScaffold.ofType (.of s bindings) t).HasNames IsIdentifier :=
  TypeScaffold.ofType_hasNames isNameClass_isIdentifier (isNameClass_isIdentifier.nameModels _ hb)
    ht hfields

end ResolverKit.Code
