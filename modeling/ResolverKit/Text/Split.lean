/-!
# Splitting texts

`pieces sep` cuts a text at every separator; there is one piece more than there are separators,
and putting separators between the pieces gives the text back.
-/

namespace ResolverKit.Text

/-! ## Algorithm -/

/-- The pieces of a text between the separators. -/
def pieces (sep : Char) : List Char → List (List Char)
  | [] => [[]]
  | c :: r =>
    if c = sep then [] :: pieces sep r
    else
      match pieces sep r with
      | [] => [[c]]
      | p :: ps => (c :: p) :: ps

/-! ## Lemmas -/

theorem pieces_ne_nil (sep : Char) (cs : List Char) : pieces sep cs ≠ [] := by
  fun_cases pieces sep cs <;> simp

theorem intercalate_pieces (sep : Char) (cs : List Char) :
    [sep].intercalate (pieces sep cs) = cs := by
  induction cs with
  | nil => rfl
  | cons c r ih =>
    by_cases h : c = sep
    · cases hp : pieces sep r with
      | nil => exact absurd hp (pieces_ne_nil sep r)
      | cons p ps => simp_all [pieces, List.intercalate]
    · cases hp : pieces sep r with
      | nil => exact absurd hp (pieces_ne_nil sep r)
      | cons p ps =>
        cases ps <;> simp_all [pieces, List.intercalate]

end ResolverKit.Text
