import ResolverKit.Import.Closure

/-!
# What a set of names leads to

`Depends d names n` is reachability: the name `n` is asked for, or a definition under a name that
`names` leads to mentions it, and the document defines it.  The worklist finds exactly these names:

    n ∈ closure d names ↔ Depends d names n                                       (mem_closure_iff)
-/

namespace ResolverKit.Import

open Sdl (Document)

/-- The names that a document defines among those that some names lead to. -/
inductive Depends (d : Document) (names : List String) : String → Prop
  | asked {n : String} : n ∈ names → n ∈ definedNames d → Depends d names n
  | mentioned {m n : String} : Depends d names m → n ∈ referencesOf d m → n ∈ definedNames d →
      Depends d names n

theorem Depends.defined {d : Document} {names : List String} {n : String}
    (h : Depends d names n) : n ∈ definedNames d := by
  cases h <;> assumption

/-- Every selected name follows from what was asked for, if every pending name does. -/
theorem depends_of_mem_closureFrom {d : Document} {names selected pending : List String}
    (hs : ∀ n ∈ selected, Depends d names n)
    (hp : ∀ n ∈ pending, n ∈ definedNames d → Depends d names n) :
    ∀ n ∈ closureFrom d selected pending, Depends d names n := by
  fun_induction closureFrom d selected pending with
  | case1 selected => exact hs
  | case2 selected name r h ih =>
    have hname : Depends d names name := hp name (by simp) h.1
    refine ih ?_ ?_
    · intro n hn
      rcases List.mem_cons.1 hn with rfl | hn
      · exact hname
      · exact hs n hn
    · intro n hn hd
      rcases List.mem_append.1 hn with hn | hn
      · exact .mentioned hname hn hd
      · exact hp n (by simp [hn]) hd
  | case3 selected name r h ih => exact ih hs fun n hn => hp n (by simp [hn])

/-- What the selected names mention is selected or pending. -/
def MentionsCovered (d : Document) (selected pending : List String) : Prop :=
  ∀ m ∈ selected, ∀ n ∈ referencesOf d m, n ∈ definedNames d → n ∈ selected ∨ n ∈ pending

/-- The worklist ends with a set that holds all it began with and what that mentions. -/
theorem closureFrom_closed {d : Document} {selected pending : List String}
    (h : MentionsCovered d selected pending) :
    (∀ n ∈ selected, n ∈ closureFrom d selected pending) ∧
      (∀ n ∈ pending, n ∈ definedNames d → n ∈ closureFrom d selected pending) ∧
      MentionsCovered d (closureFrom d selected pending) [] := by
  fun_induction closureFrom d selected pending with
  | case1 selected => exact ⟨fun n hn => hn, by simp, h⟩
  | case2 selected name r hname ih =>
    have hcovered : MentionsCovered d (name :: selected) (referencesOf d name ++ r) := by
      intro m hm n hn hd
      rcases List.mem_cons.1 hm with rfl | hm
      · exact .inr (by simp [hn])
      · rcases h m hm n hn hd with hsel | hpend
        · exact .inl (by simp [hsel])
        · rcases List.mem_cons.1 hpend with rfl | hpend
          · exact .inl (by simp)
          · exact .inr (by simp [hpend])
    obtain ⟨h1, h2, h3⟩ := ih hcovered
    refine ⟨fun n hn => h1 n (by simp [hn]), fun n hn hd => ?_, h3⟩
    rcases List.mem_cons.1 hn with rfl | hn
    · exact h1 n (by simp)
    · exact h2 n (by simp [hn]) hd
  | case3 selected name r hname ih =>
    have hdone : name ∈ definedNames d → name ∈ selected := fun hd =>
      Classical.byContradiction fun hs => hname ⟨hd, hs⟩
    have hcovered : MentionsCovered d selected r := by
      intro m hm n hn hd
      rcases h m hm n hn hd with hsel | hpend
      · exact .inl hsel
      · rcases List.mem_cons.1 hpend with rfl | hpend
        · exact .inl (hdone hd)
        · exact .inr hpend
    obtain ⟨h1, h2, h3⟩ := ih hcovered
    refine ⟨h1, fun n hn hd => ?_, h3⟩
    rcases List.mem_cons.1 hn with rfl | hn
    · exact h1 n (hdone hd)
    · exact h2 n hn hd

theorem mem_closure_iff {d : Document} {names : List String} {n : String} :
    n ∈ closure d names ↔ Depends d names n := by
  have hstart : MentionsCovered d [] names := by
    intro m hm
    cases hm
  obtain ⟨-, hasked, hclosed⟩ := closureFrom_closed hstart
  constructor
  · exact depends_of_mem_closureFrom (by simp) (fun m hm hd => .asked hm hd) n
  · intro h
    induction h with
    | asked hn hd => exact hasked _ hn hd
    | mentioned _ hn hd ih =>
      rcases hclosed _ ih _ hn hd with h | h
      · exact h
      · cases h

end ResolverKit.Import
