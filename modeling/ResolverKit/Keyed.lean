/-!
# Keyed lists

Lists of keys and values in the order in which the keys came first.  A key that comes again keeps
its place and takes the new value.  Main statement: after `put k v` the key `k` has the value `v`
and every other key has the value it had.
-/

namespace ResolverKit.Keyed

variable {α β : Type} [DecidableEq α]

/-! ## Algorithm -/

/-- Gives the key `k` the value `v`: in its place, or at the end if the key is new. -/
def put (k : α) (v : β) : List (α × β) → List (α × β)
  | [] => [(k, v)]
  | (k', v') :: r => if k' = k then (k', v) :: r else (k', v') :: put k v r

/-- The keyed list of these pairs, taken in order. -/
def ofPairs (pairs : List (α × β)) : List (α × β) :=
  pairs.foldl (fun acc (k, v) => put k v acc) []

def get? (k : α) : List (α × β) → Option β
  | [] => none
  | (k', v) :: r => if k' = k then some v else get? k r

/-! ## Lemmas -/

@[simp] theorem get?_put_self (k : α) (v : β) (l : List (α × β)) : get? k (put k v l) = some v := by
  induction l with
  | nil => simp [put, get?]
  | cons p r ih => by_cases h : p.1 = k <;> simp [put, get?, h, ih]

theorem get?_put_of_ne {k k' : α} (h : k' ≠ k) (v : β) (l : List (α × β)) :
    get? k' (put k v l) = get? k' l := by
  induction l with
  | nil => simp [put, get?, h.symm]
  | cons p r ih =>
    by_cases hk : p.1 = k
    · simp [put, get?, hk, h.symm]
    · by_cases hk' : p.1 = k' <;> simp_all [put, get?]

theorem mem_of_get? {k : α} {v : β} {l : List (α × β)} (h : get? k l = some v) : (k, v) ∈ l := by
  induction l with
  | nil => simp [get?] at h
  | cons p r ih =>
    by_cases hk : p.1 = k
    · obtain rfl : p.2 = v := by simpa [get?, hk] using h
      simp [← hk]
    · exact List.mem_cons_of_mem p (ih (by simpa [get?, hk] using h))

end ResolverKit.Keyed
