import Mathlib.Data.Finset.Card
import Mathlib.Data.Prod.Lex
import Mathlib.Logic.Relation
import Mathlib.Order.Bounds.Basic
import ResolverKit.Proofs.Closure
import ResolverKit.Proofs.Mentions

/-!
# The worklist in any order

The pending names of a closure form a set, and nothing says which of them is taken next.  `Step`
is the search without an order: it takes any pending name, and puts the names that are mentioned
under it back in any order and number.  Whatever it takes, it comes to an end, and it ends with the
names that `closure` finds, the least set that is closed under what definitions mention
(`closure_isLeast`).

`Explores` is the invariant of the search; `Explores.step` and `Explores.run` keep it.
-/

namespace ResolverKit.Import

open Sdl (Document)
open Relation (ReflTransGen)

/-- The set holds the defined names that are asked for, and with a name every defined name that a
definition or an extension under it mentions. -/
structure IsClosed (d : Document) (names : List String) (s : Set String) : Prop where
  asked : ∀ n ∈ names, n ∈ definedNames d → n ∈ s
  mentioned : ∀ m ∈ s, ∀ x ∈ d, x.name? = some m → ∀ n, x.Mentions n → n ∈ definedNames d → n ∈ s

theorem mem_referencesOf_iff {d : Document} {m n : String} :
    n ∈ referencesOf d m ↔ ∃ x ∈ d, x.name? = some m ∧ x.Mentions n := by
  simp only [referencesOf, List.mem_flatMap, List.mem_filter, decide_eq_true_eq, and_assoc,
    Sdl.Definition.mem_references_iff]

/-- What some names lead to is the least set that is closed. -/
theorem isLeast_depends (d : Document) (names : List String) :
    IsLeast {s : Set String | IsClosed d names s} {n | Depends d names n} := by
  constructor
  · refine ⟨fun n hn hd => .asked hn hd, fun m hm x hx hname n hn hd => ?_⟩
    exact .mentioned hm (mem_referencesOf_iff.2 ⟨x, hx, hname, hn⟩) hd
  · intro s hs n hn
    induction hn with
    | asked hn hd => exact hs.asked _ hn hd
    | mentioned _ hn hd ih =>
      obtain ⟨x, hx, hname, hmentions⟩ := mem_referencesOf_iff.1 hn
      exact hs.mentioned _ ih x hx hname _ hmentions hd

/-! ## The search without an order -/

/-- The names that are selected so far, and those that are pending. -/
structure Worklist where
  selected : Finset String
  pending : Multiset String

/-- One step of the search takes any pending name.  It drops a name that is selected already or not
defined; any other it selects, and the names that are mentioned under it become pending. -/
inductive Worklist.Step (d : Document) : Worklist → Worklist → Prop
  | drop {selected : Finset String} {pending : Multiset String} {n : String} :
      n ∉ definedNames d ∨ n ∈ selected → Step d ⟨selected, n ::ₘ pending⟩ ⟨selected, pending⟩
  | select {selected : Finset String} {pending found : Multiset String} {n : String} :
      n ∈ definedNames d → n ∉ selected →
      (∀ m, m ∈ found ↔ ∃ x ∈ d, x.name? = some n ∧ x.Mentions m) →
      Step d ⟨selected, n ::ₘ pending⟩ ⟨insert n selected, found + pending⟩

namespace Worklist

/-- The number of defined names that are not selected, then the number of pending names. -/
def size (d : Document) (w : Worklist) : Nat ×ₗ Nat :=
  toLex (((definedNames d).toFinset \ w.selected).card, w.pending.card)

theorem Step.size_lt {d : Document} {w w' : Worklist} (h : Step d w w') :
    w'.size d < w.size d := by
  cases h with
  | drop _ => exact Prod.Lex.toLex_lt_toLex.2 (.inr ⟨rfl, by simp⟩)
  | @select selected pending found n hd hs _ =>
    have hsub : (definedNames d).toFinset \ insert n selected ⊆
        (definedNames d).toFinset \ selected :=
      Finset.sdiff_subset_sdiff (Finset.Subset.refl _) (Finset.subset_insert n selected)
    have hlt : (definedNames d).toFinset \ insert n selected ⊂
        (definedNames d).toFinset \ selected :=
      (Finset.ssubset_iff_of_subset hsub).2 ⟨n, by simp [hd, hs], by simp⟩
    exact Prod.Lex.toLex_lt_toLex.2 (.inl (Finset.card_lt_card hlt))

/-- The search ends, whatever it takes. -/
theorem wellFounded_step (d : Document) : WellFounded fun w' w => Step d w w' :=
  Subrelation.wf Step.size_lt (InvImage.wf (size d) wellFounded_lt)

/-- While names are pending there is a step. -/
theorem pending_eq_zero_iff {d : Document} {w : Worklist} :
    w.pending = 0 ↔ ∀ w', ¬ Step d w w' := by
  obtain ⟨selected, pending⟩ := w
  constructor
  · rintro h w' hstep
    generalize hw : Worklist.mk selected pending = w at hstep
    cases hstep <;> simp_all
  · intro h
    induction pending using Multiset.induction with
    | empty => rfl
    | cons n pending _ =>
      by_cases hn : n ∈ definedNames d ∧ n ∉ selected
      · have hselect : Step d ⟨selected, n ::ₘ pending⟩
            ⟨insert n selected, (referencesOf d n : Multiset String) + pending⟩ :=
          .select hn.1 hn.2 fun m => Multiset.mem_coe.trans mem_referencesOf_iff
        exact absurd hselect (h _)
      · exact absurd (.drop (by tauto)) (h ⟨selected, pending⟩)

/-- The search has found nothing but what the names lead to, and has lost nothing of it. -/
structure Explores (d : Document) (names : List String) (w : Worklist) : Prop where
  selected : ∀ n ∈ w.selected, Depends d names n
  pending : ∀ n ∈ w.pending, n ∈ definedNames d → Depends d names n
  asked : ∀ n ∈ names, n ∈ definedNames d → n ∈ w.selected ∨ n ∈ w.pending
  mentioned : ∀ m ∈ w.selected, ∀ n ∈ referencesOf d m, n ∈ definedNames d →
    n ∈ w.selected ∨ n ∈ w.pending

theorem Explores.step {d : Document} {names : List String} {w w' : Worklist}
    (h : Explores d names w) (hstep : Step d w w') : Explores d names w' := by
  cases hstep with
  | @drop selected pending n hn =>
    -- the dropped name is selected, or not defined
    have hkeep : ∀ m, m ∈ definedNames d → m ∈ selected ∨ m ∈ n ::ₘ pending →
        m ∈ selected ∨ m ∈ pending := by
      rintro m hd (hm | hm)
      · exact .inl hm
      · rcases Multiset.mem_cons.1 hm with rfl | hm
        · exact .inl (hn.resolve_left (not_not.2 hd))
        · exact .inr hm
    exact ⟨h.selected, fun m hm => h.pending m (Multiset.mem_cons_of_mem hm),
      fun m hm hd => hkeep m hd (h.asked m hm hd),
      fun k hk m hm hd => hkeep m hd (h.mentioned k hk m hm hd)⟩
  | @select selected pending found n hd _ hfound =>
    have hn : Depends d names n := h.pending n (Multiset.mem_cons_self n pending) hd
    have hkeep : ∀ m, m ∈ selected ∨ m ∈ n ::ₘ pending →
        m ∈ insert n selected ∨ m ∈ found + pending := by
      intro m hm
      simp only [Finset.mem_insert, Multiset.mem_cons, Multiset.mem_add] at hm ⊢
      tauto
    refine ⟨fun m hm => ?_, fun m hm hmd => ?_, fun m hm hmd => hkeep m (h.asked m hm hmd),
      fun k hk m hm hmd => ?_⟩
    · rcases Finset.mem_insert.1 hm with rfl | hm
      · exact hn
      · exact h.selected m hm
    · rcases Multiset.mem_add.1 hm with hm | hm
      · exact .mentioned hn (mem_referencesOf_iff.2 ((hfound m).1 hm)) hmd
      · exact h.pending m (Multiset.mem_cons_of_mem hm) hmd
    · rcases Finset.mem_insert.1 hk with rfl | hk
      · exact .inr (Multiset.mem_add.2 (.inl ((hfound m).2 (mem_referencesOf_iff.1 hm))))
      · exact hkeep m (h.mentioned k hk m hm hmd)

theorem Explores.run {d : Document} {names : List String} {w w' : Worklist}
    (h : Explores d names w) (hrun : ReflTransGen (Step d) w w') : Explores d names w' := by
  induction hrun with
  | refl => exact h
  | tail _ hstep ih => exact ih.step hstep

/-- The search starts with nothing selected and the names that are asked for pending. -/
theorem explores_start {d : Document} {names : List String} {pending : Multiset String}
    (h : ∀ n, n ∈ pending ↔ n ∈ names) : Explores d names ⟨∅, pending⟩ :=
  ⟨by simp, fun n hn hd => .asked ((h n).1 hn) hd, fun n hn _ => .inr ((h n).2 hn), by simp⟩

/-- A search at its end has selected exactly what the names lead to. -/
theorem Explores.mem_selected_iff {d : Document} {names : List String} {w : Worklist}
    (h : Explores d names w) (hend : w.pending = 0) {n : String} :
    n ∈ w.selected ↔ Depends d names n := by
  refine ⟨h.selected n, fun hn => ?_⟩
  induction hn with
  | asked hn hd => simpa [hend] using h.asked _ hn hd
  | mentioned _ hn hd ih => simpa [hend] using h.mentioned _ ih _ hn hd

/-- Taking the pending names from the front is one of the orders. -/
theorem run_closureFrom (d : Document) (selected pending : List String) :
    ReflTransGen (Step d) ⟨selected.toFinset, pending⟩
      ⟨(closureFrom d selected pending).toFinset, 0⟩ := by
  fun_induction closureFrom d selected pending with
  | case1 selected => exact .refl
  | case2 selected name r h ih =>
    have hstep : Step d ⟨selected.toFinset, name ::ₘ r⟩
        ⟨insert name selected.toFinset, referencesOf d name + (r : Multiset String)⟩ :=
      .select h.1 (by simpa using h.2) fun m => Multiset.mem_coe.trans mem_referencesOf_iff
    rw [Multiset.coe_add, ← List.toFinset_cons] at hstep
    exact .head hstep ih
  | case3 selected name r h ih =>
    have hname : name ∉ definedNames d ∨ name ∈ selected.toFinset := by
      rw [List.mem_toFinset]
      tauto
    have hstep : Step d ⟨selected.toFinset, name ::ₘ r⟩ ⟨selected.toFinset, r⟩ := .drop hname
    exact .head hstep ih

end Worklist

open Worklist (Step)

theorem nodup_closureFrom {d : Document} {selected pending : List String} (h : selected.Nodup) :
    (closureFrom d selected pending).Nodup := by
  fun_induction closureFrom d selected pending with
  | case1 selected => exact h
  | case2 selected name r hname ih => exact ih (List.nodup_cons.2 ⟨hname.2, h⟩)
  | case3 selected name r _ ih => exact ih h

/-- What a closed set leads to is that set. -/
theorem depends_closure_iff {d : Document} {names : List String} {n : String} :
    Depends d (closure d names) n ↔ Depends d names n := by
  constructor
  · intro h
    induction h with
    | asked hn _ => exact mem_closure_iff.1 hn
    | mentioned _ hn hd ih => exact .mentioned ih hn hd
  · exact fun h => .asked (mem_closure_iff.2 h) h.defined

/-- The closure is the least closed set, without repetition; the search ends with it in every
order, and the closure of the closure is the same set. -/
theorem closure_isLeast (d : Document) (names : List String) :
    IsLeast {s : Set String | IsClosed d names s} {n | n ∈ closure d names} ∧
      (closure d names).Nodup ∧
      (WellFounded fun w' w => Step d w w') ∧
      (∀ pending : Multiset String, (∀ n, n ∈ pending ↔ n ∈ names) →
        ∀ w, ReflTransGen (Step d) ⟨∅, pending⟩ w → (∀ w', ¬ Step d w w') →
          w = ⟨(closure d names).toFinset, 0⟩) ∧
      ReflTransGen (Step d) ⟨∅, names⟩ ⟨(closure d names).toFinset, 0⟩ ∧
      (closure d (closure d names)).Perm (closure d names) := by
  have hnodup : ∀ names, (closure d names).Nodup := fun names => nodup_closureFrom List.nodup_nil
  refine ⟨?_, hnodup names, Worklist.wellFounded_step d, ?_,
    Worklist.run_closureFrom d [] names, ?_⟩
  · simpa only [mem_closure_iff] using isLeast_depends d names
  · intro pending hpending w hrun hlast
    have hexplores := (Worklist.explores_start (d := d) hpending).run hrun
    have hend : w.pending = 0 := Worklist.pending_eq_zero_iff.2 hlast
    obtain ⟨selected, rest⟩ := w
    obtain rfl : rest = 0 := hend
    have hselected : selected = (closure d names).toFinset := by
      ext n
      rw [hexplores.mem_selected_iff rfl, List.mem_toFinset, mem_closure_iff]
    rw [hselected]
  · refine (List.perm_ext_iff_of_nodup (hnodup _) (hnodup _)).2 fun n => ?_
    rw [mem_closure_iff, depends_closure_iff, mem_closure_iff]

end ResolverKit.Import
