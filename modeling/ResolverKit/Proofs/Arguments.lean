import Mathlib.Tactic.SplitIfs
import ResolverKit.Command.Arguments

/-!
# Asking to overwrite

Which arguments make a run overwrite scaffolds.  `AsksForce` is what the arguments come to when they
are read; `exists_argument_of_asksForce` says that it takes `--force`, or an `f` among letters
behind one dash.
-/

namespace ResolverKit.Command

/-- The arguments ask to overwrite scaffolds. -/
def AsksForce (args : List String) : Prop :=
  ∃ a, readFrom .none args = .ok a ∧ a.force = true

theorem readFrom_of_readArguments {t : FileTree} {args : List String} {a : Arguments}
    (h : readArguments t args = .ok a) : readFrom .none args = .ok a := by
  unfold readArguments at h
  cases hr : readFrom .none args with
  | error e => simp [hr, bind, Except.bind] at h
  | ok a' =>
    simp only [hr, bind, Except.bind] at h
    split_ifs at h <;> cases h <;> rfl

theorem force_of_readLetters {a a' : Arguments} {cs : List Char} {last : Option Char}
    (h : readLetters a cs = .ok (a', last)) (hf : a'.force = true) :
    a.force = true ∨ 'f' ∈ cs := by
  induction cs generalizing a with
  | nil =>
    cases h
    exact .inl hf
  | cons c r ih =>
    unfold readLetters at h
    split at h
    · split_ifs at h <;> cases h <;> exact .inl hf
    · next s _ hs =>
      have hmem : (c, s) ∈ shortOptions := Keyed.mem_of_get? hs
      rcases ih h with ha | hr
      · cases s with
        | force => exact .inr (by simp_all [shortOptions])
        | _ => exact .inl ha
      · exact .inr (by simp [hr])
    · cases h

/-- The option in full stands alone: with a value behind it it is refused. -/
theorem eq_force_of_shapeOf {arg name : String} (h : shapeOf arg = .long .force name none) :
    arg = "--force" := by
  unfold shapeOf at h
  cases hv : splitValue arg with
  | mk n v =>
    simp only [hv] at h
    split at h
    · cases h
    · split at h
      · next s hs =>
        cases h
        have hname : (name, Switch.force) ∈ longOptions := Keyed.mem_of_get? hs
        have harg : arg = name := by
          unfold splitValue at hv
          simp only at hv
          split at hv <;> cases hv
          rfl
        rw [harg]
        simpa [longOptions] using hname
      · split_ifs at h
    · cases h

/-- One argument that asks to overwrite. -/
def MeansForce (arg : String) : Prop :=
  arg = "--force" ∨ ∃ cs, shapeOf arg = .letters cs ∧ 'f' ∈ cs

theorem force_of_readFrom {a a' : Arguments} {args : List String} (h : readFrom a args = .ok a')
    (hf : a'.force = true) : a.force = true ∨ ∃ arg ∈ args, MeansForce arg := by
  have hlater : ∀ {arg : String} {rest : List String}, (∃ arg ∈ rest, MeansForce arg) →
      ∃ arg' ∈ arg :: rest, MeansForce arg' := fun ⟨arg', hm, h⟩ => ⟨arg', by simp [hm], h⟩
  fun_induction readFrom a args with
  | case1 a | case2 a =>
    cases h
    exact .inl hf
  | case3 a arg rest _ ih | case5 a arg rest _ _ _ ih => exact (ih h).imp_right hlater
  | case6 a arg _ _ v rest ih => exact (ih h).imp_right fun hm => hlater (hlater hm)
  | case9 a arg rest s name value _ _ hshape hvalue ih =>
    obtain rfl : value = none := by simpa using hvalue
    rcases ih h with hset | hm
    · cases s with
      | force => exact .inr ⟨arg, by simp, .inl (eq_force_of_shapeOf hshape)⟩
      | _ => exact .inl hset
    · exact .inr (hlater hm)
  | case11 a arg rest cs hshape a1 hletters ih =>
    rcases ih h with ha1 | hm
    · exact (force_of_readLetters hletters ha1).imp_right fun hcs =>
        ⟨arg, by simp, .inr ⟨cs, hshape, hcs⟩⟩
    · exact .inr (hlater hm)
  | case12 a arg cs hshape a1 c hletters v rest ih =>
    rcases ih h with ha1 | hm
    · exact (force_of_readLetters hletters ha1).imp_right fun hcs =>
        ⟨arg, by simp, .inr ⟨cs, hshape, hcs⟩⟩
    · exact .inr (hlater (hlater hm))
  | case4 | case7 | case8 | case10 | case13 => cases h

/-- Scaffolds are overwritten only on request. -/
theorem exists_argument_of_asksForce {args : List String} (h : AsksForce args) :
    ∃ arg ∈ args, MeansForce arg := by
  obtain ⟨a, ha, hf⟩ := h
  rcases force_of_readFrom ha hf with hnone | harg
  · cases hnone
  · exact harg

end ResolverKit.Command
