import Mathlib.Tactic.SplitIfs
import Mathlib.Tactic.ByContra
import ResolverKit.Proofs.Path

/-!
# What stands at a place

`look` is the view of a tree that the operations on files are described by: at every place stands
nothing, a directory, or a file with what it holds.  Writing a file and creating a directory change
the view at one place, the one that the path names, and nowhere else:

    t.write p text = .ok t' → t'.look ss = if ss = t.placeOf p then .file text else t.look ss
    t.createDir p = .ok t' → t'.look ss = if ss = t.placeOf p then .folder else t.look ss

`makeDirs` only ever adds directories on the way to its path (`grows_makeDirs`), however it ends.
-/

namespace ResolverKit

open Path

/-- What stands at a place. -/
inductive Standing
  | nothing
  | folder
  | file (content : Content)
  deriving DecidableEq, Repr

namespace Node

/-! ## Nodes -/

def look (n : Node) (ss : List String) : Standing :=
  match n.get? ss with
  | none => .nothing
  | some (.dir _) => .folder
  | some (.file c) => .file c

/-- Nothing stands below this node. -/
def IsBare (n : Node) : Prop := ∀ s r, n.get? (s :: r) = none

theorem isBare_file (c : Content) : (Node.file c).IsBare := fun _ _ => rfl

theorem isBare_dir_nil : (Node.dir []).IsBare := fun _ _ => rfl

theorem look_eq_file_iff {n : Node} {ss : List String} {c : Content} :
    n.look ss = .file c ↔ n.get? ss = some (.file c) := by
  unfold look
  split <;> simp_all

theorem look_eq_folder_iff {n : Node} {ss : List String} :
    n.look ss = .folder ↔ ∃ es, n.get? ss = some (.dir es) := by
  unfold look
  split <;> simp_all

theorem look_eq_nothing_iff {n : Node} {ss : List String} :
    n.look ss = .nothing ↔ n.get? ss = none := by
  unfold look
  split <;> simp_all

theorem look_dir_cons (es : List (String × Node)) (s : String) (r : List String) :
    (Node.dir es).look (s :: r) =
      match Keyed.get? s es with
      | some n => n.look r
      | none => .nothing := by
  unfold look
  cases hs : Keyed.get? s es <;> simp [get?, hs]

theorem get?_append (n : Node) (a b : List String) :
    n.get? (a ++ b) = (n.get? a).bind (·.get? b) := by
  induction a generalizing n with
  | nil => simp
  | cons s r ih =>
    cases n with
    | file c => simp [get?]
    | dir es => cases hs : Keyed.get? s es <;> simp [get?, hs, ih]

/-- Something stands only in and below directories. -/
theorem look_of_look_append {n : Node} {a b : List String} (hb : b ≠ [])
    (h : n.look (a ++ b) ≠ .nothing) : n.look a = .folder := by
  cases ha : n.get? a with
  | none => exact absurd (by rw [look_eq_nothing_iff, get?_append, ha]; rfl) h
  | some m =>
    cases m with
    | dir es => exact look_eq_folder_iff.2 ⟨es, ha⟩
    | file c =>
      refine absurd ?_ h
      rw [look_eq_nothing_iff, get?_append, ha]
      cases b with
      | nil => exact absurd rfl hb
      | cons s r => rfl

/-- What a bare node changes when it is put into a directory, where no directory stands. -/
theorem look_put {n new : Node} {here : List String} {name : String} (hnew : new.IsBare)
    (hdir : n.look here = .folder) (hold : n.look (here ++ [name]) ≠ .folder) (ss : List String) :
    (n.put (here ++ [name]) new).look ss =
      if ss = here ++ [name] then new.look [] else n.look ss := by
  induction here generalizing n ss with
  | nil =>
    obtain ⟨es, rfl⟩ : ∃ es, n = .dir es := by simpa [look_eq_folder_iff] using hdir
    simp only [List.nil_append, put] at hold ⊢
    cases ss with
    | nil => simp [look]
    | cons s r =>
      rw [look_dir_cons, look_dir_cons]
      by_cases hs : s = name
      · subst hs
        cases r with
        | nil => simp
        | cons s' r' =>
          have hbelow : (Node.dir es).look (s :: s' :: r') = .nothing := by
            by_contra hne
            exact hold (look_of_look_append (a := [s]) (by simp) hne)
          rw [look_dir_cons] at hbelow
          simpa [hbelow] using look_eq_nothing_iff.2 (hnew s' r')
      · simp [Keyed.get?_put_of_ne hs, hs]
  | cons d r ih =>
    obtain ⟨es, rfl⟩ : ∃ es, n = .dir es := by
      cases n with
      | dir es => exact ⟨es, rfl⟩
      | file c => simp [look, get?] at hdir
    cases hd : Keyed.get? d es with
    | none => simp [look_dir_cons, hd] at hdir
    | some m =>
      simp only [List.cons_append, look_dir_cons, hd] at hdir hold
      simp only [List.cons_append, put, hd, Option.getD_some]
      cases ss with
      | nil => simp [look]
      | cons s r' =>
        rw [look_dir_cons, look_dir_cons]
        by_cases hs : s = d
        · subst hs
          simp [hd, ih hdir hold]
        · simp [Keyed.get?_put_of_ne hs, hs]

end Node

namespace FileTree

/-! ## Following paths -/

def look (t : FileTree) (ss : List String) : Standing := t.root.look ss

theorem walk_cons (root : Node) (here : List String) (s : String) (r : List String) :
    walk root here (s :: r) =
      match root.look here with
      | .nothing => .error .notFound
      | .file _ => .error .notDirectory
      | .folder =>
        if s = "" || s = "." then walk root here r
        else if s = ".." then walk root here.dropLast r
        else if maxName < s.utf8ByteSize then .error .nameTooLong
        else if root.look (here ++ [s]) = .nothing then .error .notFound
        else walk root (here ++ [s]) r := by
  rw [walk]
  cases hh : root.get? here with
  | none => simp [Node.look, hh]
  | some n =>
    cases n with
    | file c => simp [Node.look, hh]
    | dir es =>
      have hentry : root.get? (here ++ [s]) = Keyed.get? s es := by
        rw [Node.get?_append, hh]
        cases hs : Keyed.get? s es <;> simp [Node.get?, hs]
      cases hs : Keyed.get? s es with
      | none =>
        have : root.look (here ++ [s]) = .nothing := by rw [Node.look_eq_nothing_iff, hentry, hs]
        simp [Node.look_eq_folder_iff.2 ⟨es, hh⟩, this, hs]
      | some m =>
        have : root.look (here ++ [s]) ≠ .nothing := by
          rw [Ne, Node.look_eq_nothing_iff, hentry, hs]
          simp
        simp [Node.look_eq_folder_iff.2 ⟨es, hh⟩, this, hs]

/-- Trees in which the same things stand are walked alike. -/
theorem walk_congr {a b : Node} (h : ∀ ss, a.look ss = b.look ss) (here ss : List String) :
    walk a here ss = walk b here ss := by
  induction ss generalizing here with
  | nil => simp [walk]
  | cons s r ih => simp only [walk_cons, h, ih]

theorem walk_append (root : Node) (here a b : List String) :
    walk root here (a ++ b) = (walk root here a).bind (walk root · b) := by
  induction a generalizing here with
  | nil => simp [walk, Except.bind]
  | cons s r ih =>
    rw [List.cons_append, walk_cons, walk_cons]
    cases root.look here with
    | nothing => rfl
    | file c => rfl
    | folder =>
      simp only [ih]
      split_ifs <;> rfl

/-- A walk that gets anywhere gets where climbing leads. -/
theorem eq_foldl_climb_of_walk {root : Node} {here ss at_ : List String}
    (h : walk root here ss = .ok at_) : at_ = ss.foldl climb here := by
  induction ss generalizing here with
  | nil => simpa [walk] using h.symm
  | cons s r ih =>
    rw [walk_cons] at h
    cases hl : root.look here with
    | nothing => simp [hl] at h
    | file c => simp [hl] at h
    | folder =>
      simp only [hl] at h
      rw [List.foldl_cons, climb]
      split_ifs at h ⊢ <;> exact ih h

theorem walk_of_resolve {t : FileTree} {p : String} {ss : List String}
    (h : t.resolve p = .ok ss) : walk t.root (t.startOf p) (segments p) = .ok ss := by
  unfold resolve at h
  split at h
  · cases h
  · exact h

theorem resolve_eq_placeOf {t : FileTree} {p : String} {ss : List String}
    (h : t.resolve p = .ok ss) : ss = t.placeOf p :=
  eq_foldl_climb_of_walk (walk_of_resolve h)

theorem node?_eq_some_iff {t : FileTree} {p : String} {n : Node} :
    t.node? p = some n ↔ t.resolve p = .ok (t.placeOf p) ∧ t.root.get? (t.placeOf p) = some n := by
  unfold node?
  cases hr : t.resolve p with
  | error e => simp
  | ok ss =>
    obtain rfl := resolve_eq_placeOf hr
    simp

theorem isFile_iff {t : FileTree} {p : String} :
    t.isFile p = true ↔ t.resolve p = .ok (t.placeOf p) ∧ ∃ c, t.look (t.placeOf p) = .file c := by
  have : t.isFile p = true ↔ ∃ c, t.node? p = some (.file c) := by
    unfold isFile
    split <;> simp_all
  simp [this, node?_eq_some_iff, look, Node.look_eq_file_iff]

theorem exists?_iff {t : FileTree} {p : String} :
    t.exists? p = true ↔
      t.resolve p = .ok (t.placeOf p) ∧ t.look (t.placeOf p) ≠ .nothing := by
  rw [exists?, Option.isSome_iff_exists]
  simp [node?_eq_some_iff, look, Node.look_eq_nothing_iff, Option.ne_none_iff_exists']

/-! ## Writing -/

/-- Where a path would create a node: its last name stands behind a way that can be walked. -/
theorem exists_segments_of_target {t : FileTree} {p name : String} {here : List String}
    {trailing : Bool} (h : t.target p = .ok (here, some name, trailing)) :
    ∃ before rest, segments p = before ++ name :: rest ∧ (∀ s ∈ rest, s = "") ∧
      (trailing = false → rest = []) ∧ unusable? p = none ∧
      walk t.root (t.startOf p) before = .ok here ∧ t.look here = .folder ∧
      name ≠ "" ∧ name ≠ "." ∧ name ≠ ".." := by
  unfold target at h
  cases hu : unusable? p with
  | some e => simp [hu, throw, throwThe, MonadExceptOf.throw] at h
  | none =>
    simp only [hu] at h
    have hsplit := List.takeWhile_append_dropWhile (p := (· = "")) (l := (segments p).reverse)
    cases hcore : (segments p).reverse.dropWhile (· = "") with
    | nil => simp [hcore, pure, Except.pure] at h
    | cons last before =>
      have hlast : last ≠ "" := by
        have := List.head?_dropWhile_not (· = "") (segments p).reverse
        rw [hcore] at this
        simpa using this
      have hsegments : segments p = before.reverse ++
          last :: ((segments p).reverse.takeWhile (· = "")).reverse := by
        have := congrArg List.reverse hsplit
        rw [hcore] at this
        simpa using this.symm
      have hrest : ∀ s ∈ ((segments p).reverse.takeWhile (· = "")).reverse, s = "" := by
        intro s hs
        have := List.all_takeWhile (l := (segments p).reverse) (p := (· = ""))
        rw [List.all_eq_true] at this
        simpa using this s (List.mem_reverse.1 hs)
      simp only [hcore] at h
      cases hw : walk t.root (t.startOf p) before.reverse with
      | error e => simp [hw, bind, Except.bind] at h
      | ok at_ =>
        simp only [hw, bind, Except.bind] at h
        split at h
        · next es hdir =>
          split_ifs at h with h1 h2
          · simp [pure, Except.pure] at h
          · simp [pure, Except.pure] at h
          · simp only [pure, Except.pure, Except.ok.injEq, Prod.mk.injEq, Option.some.injEq] at h
            obtain ⟨rfl, rfl, htrailing⟩ := h
            refine ⟨before.reverse, _, hsegments, hrest, fun hfalse => ?_, rfl, hw,
              Node.look_eq_folder_iff.2 ⟨es, hdir⟩, hlast, h1, h2⟩
            have hlen := congrArg List.length hsplit
            rw [hfalse] at htrailing
            simp only [hcore, List.length_append, List.length_cons, List.length_reverse,
              decide_eq_false_iff_not] at hlen htrailing
            refine List.reverse_eq_nil_iff.2 (List.eq_nil_of_length_eq_zero ?_)
            omega
        · cases h
        · cases h

theorem placeOf_eq_of_target {t : FileTree} {p name : String} {here : List String}
    {trailing : Bool} (h : t.target p = .ok (here, some name, trailing)) :
    t.placeOf p = here ++ [name] := by
  obtain ⟨before, rest, hp, hrest, -, -, hw, -, h1, h2, h3⟩ := exists_segments_of_target h
  have hstay : ∀ here, rest.foldl climb here = here := by
    intro here
    rw [← foldl_climb_filter, List.filter_eq_nil_iff.2]
    · rfl
    · intro s hs
      simp [hrest s hs]
  rw [placeOf, hp, List.foldl_append, List.foldl_cons, ← eq_foldl_climb_of_walk hw, hstay]
  simp [climb, h1, h2, h3]

/-- What it takes to write a file. -/
theorem exists_target_of_write {t t' : FileTree} {p text : String} (h : t.write p text = .ok t') :
    ∃ here name, t.target p = .ok (here, some name, false) ∧ name.utf8ByteSize ≤ maxName ∧
      t.look (here ++ [name]) ≠ .folder ∧
      t' = { t with root := t.root.put (here ++ [name]) (.file (.text text)) } := by
  unfold write at h
  cases ht : t.target p with
  | error e => simp [ht, bind, Except.bind] at h
  | ok place =>
    obtain ⟨here, name, trailing⟩ := place
    simp only [ht, bind, Except.bind] at h
    cases name with
    | none => cases h
    | some name =>
      simp only at h
      split_ifs at h with h1 h2
      split at h
      · cases h
      · next hold =>
        refine ⟨here, name, by simp [Bool.eq_false_iff.2 h1], by omega, fun hl => ?_,
          (Except.ok.inj h).symm⟩
        obtain ⟨es, hes⟩ := Node.look_eq_folder_iff.1 hl
        exact hold es hes

theorem look_here_of_target {t : FileTree} {p name : String} {here : List String}
    {trailing : Bool} (h : t.target p = .ok (here, some name, trailing)) :
    t.look here = .folder := by
  obtain ⟨_, _, _, _, _, _, _, hdir, _⟩ := exists_segments_of_target h
  exact hdir

/-- Writing changes what stands at the place of the path, and nothing else. -/
theorem look_write {t t' : FileTree} {p text : String} (h : t.write p text = .ok t') :
    t'.cwd = t.cwd ∧
      ∀ ss, t'.look ss = if ss = t.placeOf p then .file (.text text) else t.look ss := by
  obtain ⟨here, name, ht, -, hold, rfl⟩ := exists_target_of_write h
  refine ⟨rfl, fun ss => ?_⟩
  rw [placeOf_eq_of_target ht]
  exact Node.look_put (Node.isBare_file _) (look_here_of_target ht) hold ss

/-- If something stood at the place of a written file, the path led there before. -/
theorem exists?_of_write {t t' : FileTree} {p text : String} (h : t.write p text = .ok t')
    (hold : t.look (t.placeOf p) ≠ .nothing) : t.exists? p = true := by
  obtain ⟨here, name, ht, hsize, -, -⟩ := exists_target_of_write h
  obtain ⟨before, rest, hp, -, hrest, hu, hw, hdir, h1, h2, h3⟩ := exists_segments_of_target ht
  rw [placeOf_eq_of_target ht] at hold
  rw [exists?_iff, placeOf_eq_of_target ht]
  refine ⟨?_, hold⟩
  have hstep : walk t.root here [name] = .ok (here ++ [name]) := by
    have hsize' : ¬ maxName < name.utf8ByteSize := by omega
    unfold look at hdir hold
    rw [walk_cons, hdir]
    simp [h1, h2, h3, hsize', hold, walk]
  unfold resolve
  rw [hu, hp, hrest rfl, walk_append, hw]
  exact hstep

/-- Creating a directory changes what stands at the place of the path, where nothing stood. -/
theorem look_createDir {t t' : FileTree} {p : String} (h : t.createDir p = .ok t') :
    t'.cwd = t.cwd ∧ t.look (t.placeOf p) = .nothing ∧
      ∀ ss, t'.look ss = if ss = t.placeOf p then .folder else t.look ss := by
  unfold createDir at h
  cases ht : t.target p with
  | error e => simp [ht, bind, Except.bind] at h
  | ok place =>
    obtain ⟨here, name, trailing⟩ := place
    simp only [ht, bind, Except.bind] at h
    cases name with
    | none => cases h
    | some name =>
      simp only at h
      split_ifs at h with h1
      split at h
      · cases h
      · next hold =>
        obtain rfl := Except.ok.inj h
        have hnone : t.look (here ++ [name]) = .nothing := Node.look_eq_nothing_iff.2 hold
        rw [placeOf_eq_of_target ht]
        refine ⟨rfl, hnone, fun ss => ?_⟩
        exact Node.look_put Node.isBare_dir_nil (look_here_of_target ht)
          (by show t.look _ ≠ _; simp [hnone]) ss

/-! ## Growing -/

/-- The second tree holds what the first one holds, and directories at some places of `way` where
nothing stood. -/
structure Grows (way : List String → Prop) (t t' : FileTree) : Prop where
  cwd : t'.cwd = t.cwd
  look : ∀ ss, t'.look ss = t.look ss ∨ (way ss ∧ t.look ss = .nothing ∧ t'.look ss = .folder)

namespace Grows

variable {way : List String → Prop} {t t' t'' : FileTree}

theorem refl (way : List String → Prop) (t : FileTree) : Grows way t t :=
  ⟨rfl, fun _ => .inl rfl⟩

theorem trans (h : Grows way t t') (h' : Grows way t' t'') : Grows way t t'' := by
  refine ⟨h'.cwd.trans h.cwd, fun ss => ?_⟩
  rcases h.look ss with h1 | ⟨hw, h1, h2⟩
  · rw [← h1]
    exact h'.look ss
  · rcases h'.look ss with h3 | ⟨-, h3, -⟩
    · exact .inr ⟨hw, h1, h3.trans h2⟩
    · rw [h2] at h3
      cases h3

theorem mono {way' : List String → Prop} (h : Grows way t t') (hw : ∀ ss, way ss → way' ss) :
    Grows way' t t' :=
  ⟨h.cwd, fun ss => (h.look ss).imp_right fun ⟨h1, h2⟩ => ⟨hw ss h1, h2⟩⟩

theorem startOf (h : Grows way t t') (p : String) : t'.startOf p = t.startOf p := by
  simp [FileTree.startOf, h.cwd]

theorem placeOf (h : Grows way t t') (p : String) : t'.placeOf p = t.placeOf p := by
  simp [FileTree.placeOf, h.startOf]

theorem housed (h : Grows way t t') (ht : t.Housed) : t'.Housed := by
  simpa [Housed, h.cwd] using ht

/-- A file stays as it is. -/
theorem look_file (h : Grows way t t') {ss : List String} {c : Content}
    (hc : t.look ss = .file c) : t'.look ss = .file c := by
  rcases h.look ss with h1 | ⟨-, h1, -⟩
  · rw [h1, hc]
  · rw [hc] at h1
    cases h1

/-- If everything on the way stands already, nothing changes. -/
theorem look_eq (h : Grows way t t') (hway : ∀ ss, way ss → t.look ss ≠ .nothing)
    (ss : List String) : t'.look ss = t.look ss := by
  rcases h.look ss with h1 | ⟨hw, h1, -⟩
  · exact h1
  · exact absurd h1 (hway ss hw)

end Grows

theorem grows_ensureDir (t : FileTree) (p : String) :
    Grows (· = t.placeOf p) t (t.ensureDir p).1 := by
  unfold ensureDir
  cases h : t.createDir p with
  | ok t' =>
    obtain ⟨hcwd, hnone, hlook⟩ := look_createDir h
    refine ⟨hcwd, fun ss => ?_⟩
    by_cases hss : ss = t.placeOf p
    · exact .inr ⟨hss, hss ▸ hnone, by simp [hlook, hss]⟩
    · exact .inl (by simp [hlook, hss])
  | error e =>
    simp only
    split <;> exact .refl _ t

/-- The places on the way along a path. -/
def OnWay (t : FileTree) (p : List Char) (ss : List String) : Prop :=
  ∃ q, q <+: names p ∧ ss = q.foldl climb (t.startOf (String.ofList p))

theorem onWay_placeOf (t : FileTree) (p : List Char) : t.OnWay p (t.placeOf (String.ofList p)) :=
  ⟨names p, List.prefix_rfl, by simp [placeOf_eq_names]⟩

theorem onWay_of_cutLast {t : FileTree} {p : List Char} (hne : (cutLast p).1 ≠ [])
    {ss : List String} (h : t.OnWay (cutLast p).1 ss) : t.OnWay p ss := by
  obtain ⟨q, hq, rfl⟩ := h
  refine ⟨q, hq.trans (isPrefix_names_cutLast p), ?_⟩
  have hhead : (cutLast p).1.head? = p.head? := by
    obtain ⟨r, hr⟩ := isPrefix_cutLast p
    cases hc : (cutLast p).1 with
    | nil => exact absurd hc hne
    | cons c cs =>
      rw [hc] at hr
      rw [← hr]
      rfl
  simp [startOf, isAbsolute, hhead]

/-- Whatever `makeDirs` gets done, it only adds directories on the way along its path. -/
theorem grows_makeDirs (t : FileTree) (p : List Char) : Grows (t.OnWay p) t (t.makeDirs p).1 := by
  have hensure : ∀ (p : List Char) (t' : FileTree), Grows (t.OnWay p) t t' →
      Grows (t.OnWay p) t (t'.ensureDir (String.ofList p)).1 := by
    intro p t' h
    refine h.trans ((grows_ensureDir t' _).mono fun ss hss => ?_)
    rw [hss, h.placeOf]
    exact t.onWay_placeOf p
  induction hn : p.length using Nat.strongRecOn generalizing p with
  | _ n ih =>
    rw [makeDirs]
    split
    · exact hensure p t (.refl _ t)
    · next hp =>
      simp only
      split
      · exact hensure p t (.refl _ t)
      · next hhead =>
        have hne : (cutLast p).1 ≠ [] := fun h => hhead (by simp [h])
        have hgrows : Grows (t.OnWay p) t (t.makeDirs (cutLast p).1).1 :=
          (ih _ (hn ▸ length_cutLast_lt hp) _ rfl).mono fun ss => onWay_of_cutLast hne
        -- whatever became of the directories above, at most one more is created
        cases hm : t.makeDirs (cutLast p).1 with
        | mk t' failure =>
          rw [hm] at hgrows
          cases failure with
          | none =>
            simp only
            split
            · exact hgrows
            · exact hensure p t' hgrows
          | some failure =>
            simp only
            split_ifs
            · exact hgrows
            · exact hensure p t' hgrows
            · exact hgrows

end FileTree

end ResolverKit
