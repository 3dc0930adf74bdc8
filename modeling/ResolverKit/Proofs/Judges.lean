import ResolverKit.Schema.Extraction

/-!
# Judging a computation that may fail

`Judges Fault a r` compares a result with a description of its faults: without a fault the result
is the value `a`, and with a fault it is an error that names one.  The rules follow the shape of
a computation: what stands behind a step is judged only if the step has no fault.
-/

namespace ResolverKit.Schema

/-- The result is `a` if there is no fault, and otherwise an error at a faulty declaration. -/
inductive Judges {α : Type} (Fault : String → Prop) (a : α) : Except ExtractionError α → Prop
  | pass : (∀ label, ¬ Fault label) → Judges Fault a (.ok a)
  | fail {e : ExtractionError} : Fault e.declaration → Judges Fault a (.error e)

namespace Judges

variable {α β : Type} {Fault Fault' : String → Prop} {a : α} {b : β}
  {r : Except ExtractionError α}

/-- Other faults may be added where there is one already. -/
theorem weaken (h : Judges Fault a r) (hto : ∀ label, Fault label → Fault' label)
    (hfrom : ∀ label, Fault' label → ∃ label', Fault label') : Judges Fault' a r := by
  cases h with
  | pass hnone =>
    refine .pass fun label hl => ?_
    obtain ⟨label', hl'⟩ := hfrom label hl
    exact hnone label' hl'
  | fail hl => exact .fail (hto _ hl)

theorem congr (h : Judges Fault a r) (hiff : ∀ label, Fault label ↔ Fault' label) :
    Judges Fault' a r :=
  h.weaken (fun label => (hiff label).1) fun label hl => ⟨label, (hiff label).2 hl⟩

theorem bind {k : α → Except ExtractionError β} (h : Judges Fault a r)
    (hk : (∀ label, ¬ Fault label) → Judges Fault' b (k a)) :
    Judges (fun label => Fault label ∨ Fault' label) b (r >>= k) := by
  cases h with
  | pass hnone =>
    show Judges _ b (k a)
    refine congr (hk hnone) fun label => ?_
    constructor
    · exact .inr
    · rintro (hl | hl)
      · exact absurd hl (hnone label)
      · exact hl
  | fail hl => exact .fail (.inl hl)

/-- A last step that cannot fail has no fault of its own. -/
theorem bind_ok {k : α → Except ExtractionError β} (h : Judges Fault a r) (hk : k a = .ok b) :
    Judges Fault b (r >>= k) := by
  cases h with
  | pass hnone =>
    show Judges Fault b (k a)
    rw [hk]
    exact .pass hnone
  | fail hl => exact .fail hl

theorem map {g : α → β} (h : Judges Fault a r) : Judges Fault (g a) (g <$> r) := by
  cases h with
  | pass hnone => exact .pass hnone
  | fail hl => exact .fail hl

/-- The faults of the elements are the faults of the list. -/
theorem mapM {xs : List α} {f : α → Except ExtractionError β} {g : α → β}
    {Faults : α → String → Prop} (h : ∀ x ∈ xs, Judges (Faults x) (g x) (f x)) :
    Judges (fun label => ∃ x ∈ xs, Faults x label) (xs.map g) (xs.mapM f) := by
  induction xs with
  | nil => exact .pass (by simp)
  | cons x r ih =>
    rw [List.mapM_cons]
    have hx := h x (by simp)
    have hr := ih fun y hy => h y (by simp [hy])
    refine congr (hx.bind fun _ => hr.bind_ok rfl) fun label => ?_
    simp

/-- A result that is judged is an error exactly when there is a fault. -/
theorem exists_error_iff (h : Judges Fault a r) :
    (∃ e, r = .error e) ↔ ∃ label, Fault label := by
  cases h with
  | pass hnone => simp [hnone]
  | fail hl => exact iff_of_true ⟨_, rfl⟩ ⟨_, hl⟩

end Judges

end ResolverKit.Schema
