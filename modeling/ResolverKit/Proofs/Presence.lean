import ResolverKit.Proofs.FileTree

/-!
# What is there, and stays there

`Stays t t'` says that everything that stands in the first tree stands in the second: directories
as directories, files as files, whatever they hold.  Every path that leads somewhere in the first
tree leads there in the second.

A directory that is there is not made again, and one that was made is there:

    t.isDir p → t.makeDirs p = (t, none)                                   (makeDirs_of_isDir)
    t.makeDirs p = (t', none) → ¬ EndsInDot p → t'.isDir p                  (isDir_of_makeDirs)

The second does not hold of a path that ends in a dot.  Only what stands in front of the dot is
made then, and a file that is met there is taken for a directory that came into being meanwhile.
-/

namespace ResolverKit

open Path

namespace FileTree

/-! ## Directories and files that a path leads to -/

theorem isDir_iff {t : FileTree} {p : String} :
    t.isDir p = true ↔ t.resolve p = .ok (t.placeOf p) ∧ t.look (t.placeOf p) = .folder := by
  have : t.isDir p = true ↔ ∃ es, t.node? p = some (.dir es) := by
    unfold isDir
    split <;> simp_all
  simp [this, node?_eq_some_iff, look, Node.look_eq_folder_iff]

theorem exists?_of_isDir {t : FileTree} {p : String} (h : t.isDir p = true) :
    t.exists? p = true := by
  obtain ⟨hr, hl⟩ := isDir_iff.1 h
  exact exists?_iff.2 ⟨hr, by simp [hl]⟩

theorem exists?_of_isFile {t : FileTree} {p : String} (h : t.isFile p = true) :
    t.exists? p = true := by
  obtain ⟨hr, c, hl⟩ := isFile_iff.1 h
  exact exists?_iff.2 ⟨hr, by simp [hl]⟩

/-- A walk to a directory starts in a directory. -/
theorem look_of_walk {root : Node} {here ss at_ : List String}
    (h : walk root here ss = .ok at_) (hat : root.look at_ = .folder) :
    root.look here = .folder := by
  cases ss with
  | nil =>
    obtain rfl : here = at_ := by simpa [walk] using h
    exact hat
  | cons s r =>
    rw [walk_cons] at h
    cases hl : root.look here with
    | nothing => simp [hl] at h
    | file c => simp [hl] at h
    | folder => rfl

theorem walk_filter {root : Node} {here ss at_ : List String} (h : walk root here ss = .ok at_) :
    walk root here (ss.filter (· ≠ "")) = .ok at_ := by
  induction ss generalizing here with
  | nil => exact h
  | cons s r ih =>
    rw [walk_cons] at h
    by_cases hs : s = ""
    · subst hs
      cases hl : root.look here with
      | nothing => simp [hl] at h
      | file c => simp [hl] at h
      | folder => exact ih (by simpa [hl] using h)
    · rw [List.filter_cons_of_pos (by simpa using hs), walk_cons]
      cases hl : root.look here with
      | nothing => simp [hl] at h
      | file c => simp [hl] at h
      | folder =>
        simp only [hl] at h ⊢
        split_ifs at h ⊢ <;> exact ih h

/-- Empty segments ask for a directory and lead nowhere else. -/
theorem walk_of_filter {root : Node} {here ss at_ : List String}
    (h : walk root here (ss.filter (· ≠ "")) = .ok at_) (hat : root.look at_ = .folder) :
    walk root here ss = .ok at_ := by
  induction ss generalizing here with
  | nil => exact h
  | cons s r ih =>
    rw [walk_cons]
    by_cases hs : s = ""
    · subst hs
      have h' : walk root here (r.filter (· ≠ "")) = .ok at_ := by simpa using h
      simpa [look_of_walk h' hat] using ih h'
    · rw [List.filter_cons_of_pos (by simpa using hs), walk_cons] at h
      cases hl : root.look here with
      | nothing => simp [hl] at h
      | file c => simp [hl] at h
      | folder =>
        simp only [hl] at h ⊢
        split_ifs at h ⊢ <;> exact ih h

/-- Whether a path leads to a directory is a matter of its names. -/
theorem isDir_iff_names {t : FileTree} {p : String} :
    t.isDir p = true ↔ unusable? p = none ∧
      walk t.root (t.startOf p) (names p.toList) = .ok (t.placeOf p) ∧
      t.look (t.placeOf p) = .folder := by
  rw [isDir_iff, names_toList]
  unfold resolve
  constructor
  · rintro ⟨hr, hl⟩
    split at hr
    · cases hr
    · next hu => exact ⟨hu, walk_filter hr, hl⟩
  · rintro ⟨hu, hw, hl⟩
    rw [hu]
    exact ⟨walk_of_filter hw hl, hl⟩

theorem unusable?_eq_none_iff {p : String} :
    unusable? p = none ↔ '\x00' ∉ p.toList ∧ p ≠ "" ∧ p.utf8ByteSize ≤ maxPath := by
  unfold unusable?
  split_ifs with h1 h2 h3
  · simp [List.contains_iff_mem.1 h1]
  · simp [h2]
  · simp [h3]
  · simp only [List.contains_eq_mem, decide_eq_true_eq] at h1
    simp [h1, h2]
    omega

/-- The front of a path that can be used can be used, unless it is empty. -/
theorem unusable?_of_front {p q : List Char} (hq : q <+: p) (hne : q ≠ [])
    (h : unusable? (String.ofList p) = none) : unusable? (String.ofList q) = none := by
  obtain ⟨r, rfl⟩ := hq
  rw [unusable?_eq_none_iff] at h ⊢
  obtain ⟨h0, -, hsize⟩ := h
  rw [String.ofList_append, String.utf8ByteSize_append] at hsize
  refine ⟨?_, by simpa using hne, by omega⟩
  simp only [String.toList_ofList, List.mem_append, not_or] at h0 ⊢
  exact h0.1

theorem startOf_of_front (t : FileTree) {p q : List Char} (hq : q <+: p) (hne : q ≠ []) :
    t.startOf (String.ofList q) = t.startOf (String.ofList p) := by
  obtain ⟨r, rfl⟩ := hq
  cases q with
  | nil => exact absurd rfl hne
  | cons c q => simp [startOf, isAbsolute]

/-- The directories on the way to a directory are there. -/
theorem isDir_of_front {t : FileTree} {p q : List Char} (hq : q <+: p) (hne : q ≠ [])
    (hnames : names q <+: names p) (h : t.isDir (String.ofList p) = true) :
    t.isDir (String.ofList q) = true := by
  rw [isDir_iff_names] at h ⊢
  obtain ⟨hu, hw, hl⟩ := h
  obtain ⟨r, hr⟩ := hnames
  rw [String.toList_ofList] at hw ⊢
  rw [← hr, walk_append, ← startOf_of_front t hq hne] at hw
  cases hw1 : walk t.root (t.startOf (String.ofList q)) (names q) with
  | error e =>
    rw [hw1] at hw
    cases hw
  | ok at_ =>
    rw [hw1] at hw
    have hplace : at_ = t.placeOf (String.ofList q) := by
      rw [placeOf_eq_names, String.toList_ofList]
      exact eq_foldl_climb_of_walk hw1
    rw [← hplace]
    exact ⟨unusable?_of_front hq hne hu, rfl, look_of_walk hw hl⟩

/-! ## Making a directory that is there -/

theorem ne_nullCharacter_of_walk {root : Node} {here ss : List String} {e : AccessError}
    (h : walk root here ss = .error e) : e ≠ .nullCharacter := by
  induction ss generalizing here with
  | nil => simp [walk] at h
  | cons s r ih =>
    rw [walk_cons] at h
    cases hl : root.look here with
    | nothing =>
      obtain rfl : AccessError.notFound = e := by simpa [hl] using h
      decide
    | file c =>
      obtain rfl : AccessError.notDirectory = e := by simpa [hl] using h
      decide
    | folder =>
      simp only [hl] at h
      split_ifs at h
      · exact ih h
      · exact ih h
      · obtain rfl := Except.error.inj h
        decide
      · obtain rfl := Except.error.inj h
        decide
      · exact ih h

theorem ne_nullCharacter_of_createDir {t : FileTree} {p : String} {e : AccessError}
    (hu : unusable? p = none) (h : t.createDir p = .error e) : e ≠ .nullCharacter := by
  unfold createDir target at h
  simp only [hu, bind, Except.bind, pure, Except.pure, throw, throwThe, MonadExceptOf.throw] at h
  grind [ne_nullCharacter_of_walk]

theorem ensureDir_of_isDir {t : FileTree} {p : String} (h : t.isDir p = true) :
    t.ensureDir p = (t, none) := by
  obtain ⟨hu, -, hl⟩ := isDir_iff_names.1 h
  unfold ensureDir
  cases hc : t.createDir p with
  | ok t' =>
    obtain ⟨-, hnone, -⟩ := look_createDir hc
    rw [hl] at hnone
    cases hnone
  | error e => simp [ne_nullCharacter_of_createDir hu hc, h]

/-- A directory that is there is not made again. -/
theorem makeDirs_of_isDir {t : FileTree} {p : List Char} (h : t.isDir (String.ofList p) = true) :
    t.makeDirs p = (t, none) := by
  rw [makeDirs]
  split
  · exact ensureDir_of_isDir h
  · simp only
    split
    · exact ensureDir_of_isDir h
    · next hhead =>
      refine absurd ?_ hhead
      by_cases hne : (cutLast p).1 = []
      · simp [hne]
      · simp [exists?_of_isDir (isDir_of_front (isPrefix_cutLast p) hne
          (isPrefix_names_cutLast p) h)]

/-! ## Staying -/

/-- What stands in the first tree stands in the second: directories as directories, files as files,
whatever they hold. -/
structure Stays (t t' : FileTree) : Prop where
  cwd : t'.cwd = t.cwd
  folder : ∀ ss, t.look ss = .folder → t'.look ss = .folder
  file : ∀ ss c, t.look ss = .file c → ∃ c', t'.look ss = .file c'

namespace Stays

variable {t t' t'' : FileTree}

theorem refl (t : FileTree) : Stays t t := ⟨rfl, fun _ h => h, fun _ c h => ⟨c, h⟩⟩

theorem trans (h : Stays t t') (h' : Stays t' t'') : Stays t t'' := by
  refine ⟨h'.cwd.trans h.cwd, fun ss hs => h'.folder ss (h.folder ss hs), fun ss c hs => ?_⟩
  obtain ⟨c', hc'⟩ := h.file ss c hs
  exact h'.file ss c' hc'

theorem of_grows {way : List String → Prop} (h : Grows way t t') : Stays t t' := by
  refine ⟨h.cwd, fun ss hs => ?_, fun ss c hs => ⟨c, h.look_file hs⟩⟩
  rcases h.look ss with h1 | ⟨-, h1, -⟩
  · rw [h1, hs]
  · rw [hs] at h1
    cases h1

theorem look_ne_nothing (h : Stays t t') {ss : List String} (hs : t.look ss ≠ .nothing) :
    t'.look ss ≠ .nothing := by
  cases hl : t.look ss with
  | nothing => exact absurd hl hs
  | folder => simp [h.folder ss hl]
  | file c =>
    obtain ⟨c', hc'⟩ := h.file ss c hl
    simp [hc']

theorem startOf (h : Stays t t') (p : String) : t'.startOf p = t.startOf p := by
  simp [FileTree.startOf, h.cwd]

theorem placeOf (h : Stays t t') (p : String) : t'.placeOf p = t.placeOf p := by
  simp [FileTree.placeOf, h.startOf]

theorem absolute (h : Stays t t') (p : String) : t'.absolute p = t.absolute p := by
  simp [FileTree.absolute, cwdPath, h.cwd]

theorem housed (h : Stays t t') (ht : t.Housed) : t'.Housed := by
  simpa [Housed, h.cwd] using ht

theorem walk (h : Stays t t') {here ss at_ : List String}
    (hw : FileTree.walk t.root here ss = .ok at_) : FileTree.walk t'.root here ss = .ok at_ := by
  induction ss generalizing here with
  | nil => exact hw
  | cons s r ih =>
    rw [walk_cons] at hw ⊢
    cases hl : t.root.look here with
    | nothing => simp [hl] at hw
    | file c => simp [hl] at hw
    | folder =>
      have hl' : t'.root.look here = .folder := h.folder here hl
      simp only [hl, hl'] at hw ⊢
      split_ifs at hw with h1 h2 h3 h4
      · rw [if_pos h1]
        exact ih hw
      · rw [if_neg h1, if_pos h2]
        exact ih hw
      · have h5 : ¬ t'.root.look (here ++ [s]) = .nothing := h.look_ne_nothing h4
        rw [if_neg h1, if_neg h2, if_neg h3, if_neg h5]
        exact ih hw

theorem resolve (h : Stays t t') {p : String} {ss : List String}
    (hr : t.resolve p = .ok ss) : t'.resolve p = .ok ss := by
  unfold FileTree.resolve at hr ⊢
  split at hr
  · cases hr
  · rw [h.startOf]
    exact h.walk hr

theorem target (h : Stays t t') {p : String} {place : List String × Option String × Bool}
    (ht : t.target p = .ok place) : t'.target p = .ok place := by
  unfold FileTree.target at ht ⊢
  split at ht
  · cases ht
  · rw [h.startOf]
    simp only at ht ⊢
    split at ht
    · exact ht
    · next last before hcore =>
      cases hw : FileTree.walk t.root (t.startOf p) before.reverse with
      | error e =>
        rw [hw] at ht
        cases ht
      | ok here =>
        rw [hw] at ht
        rw [h.walk hw]
        simp only [bind, Except.bind] at ht ⊢
        split at ht
        · next es hes =>
          obtain ⟨es', hes'⟩ := Node.look_eq_folder_iff.1
            (h.folder here (Node.look_eq_folder_iff.2 ⟨es, hes⟩))
          rw [hes']
          exact ht
        · cases ht
        · cases ht

theorem exists? (h : Stays t t') {p : String} (hp : t.exists? p = true) :
    t'.exists? p = true := by
  obtain ⟨hr, hl⟩ := exists?_iff.1 hp
  rw [exists?_iff, h.placeOf]
  exact ⟨h.resolve hr, h.look_ne_nothing hl⟩

theorem isDir (h : Stays t t') {p : String} (hp : t.isDir p = true) : t'.isDir p = true := by
  obtain ⟨hr, hl⟩ := isDir_iff.1 hp
  rw [isDir_iff, h.placeOf]
  exact ⟨h.resolve hr, h.folder _ hl⟩

theorem isFile (h : Stays t t') {p : String} (hp : t.isFile p = true) : t'.isFile p = true := by
  obtain ⟨hr, c, hl⟩ := isFile_iff.1 hp
  rw [isFile_iff, h.placeOf]
  exact ⟨h.resolve hr, h.file _ c hl⟩

end Stays

theorem stays_createDir {t t' : FileTree} {p : String} (h : t.createDir p = .ok t') :
    Stays t t' := by
  obtain ⟨hcwd, hnone, hlook⟩ := look_createDir h
  refine ⟨hcwd, fun ss hs => ?_, fun ss c hs => ⟨c, ?_⟩⟩
  · simp [hlook, hs]
  · rw [hlook, if_neg, hs]
    rintro rfl
    rw [hs] at hnone
    cases hnone

theorem stays_write {t t' : FileTree} {p text : String} (h : t.write p text = .ok t') :
    Stays t t' := by
  obtain ⟨here, name, ht, -, hold, rfl⟩ := exists_target_of_write h
  obtain ⟨hcwd, hlook⟩ := look_write h
  refine ⟨hcwd, fun ss hs => ?_, fun ss c hs => ?_⟩
  · rw [hlook, if_neg, hs]
    rintro rfl
    rw [placeOf_eq_of_target ht] at hs
    exact hold hs
  · rw [hlook]
    split
    · exact ⟨_, rfl⟩
    · exact ⟨c, hs⟩

/-! ## What was made is there -/

theorem walk_name {root : Node} {here : List String} {name : String}
    (hdir : root.look here = .folder) (hname : root.look (here ++ [name]) ≠ .nothing)
    (h0 : name ≠ "") (h1 : name ≠ ".") (h2 : name ≠ "..") (hsize : name.utf8ByteSize ≤ maxName) :
    walk root here [name] = .ok (here ++ [name]) := by
  have hsize' : ¬ maxName < name.utf8ByteSize := by omega
  rw [walk_cons, hdir]
  simp [h0, h1, h2, hsize', hname, walk]

theorem size_of_createDir {t t' : FileTree} {p name : String} {here : List String} {trailing : Bool}
    (h : t.createDir p = .ok t') (ht : t.target p = .ok (here, some name, trailing)) :
    name.utf8ByteSize ≤ maxName := by
  unfold createDir at h
  simp only [ht, bind, Except.bind] at h
  split_ifs at h with hsize
  omega

theorem exists_target_of_createDir {t t' : FileTree} {p : String} (h : t.createDir p = .ok t') :
    ∃ here name trailing, t.target p = .ok (here, some name, trailing) := by
  unfold createDir at h
  cases ht : t.target p with
  | error e => simp [ht, bind, Except.bind] at h
  | ok place =>
    obtain ⟨here, name, trailing⟩ := place
    cases name with
    | none => simp [ht, bind, Except.bind, throw, throwThe, MonadExceptOf.throw] at h
    | some name => exact ⟨here, name, trailing, rfl⟩

theorem isDir_of_createDir {t t' : FileTree} {p : String} (h : t.createDir p = .ok t') :
    t'.isDir p = true := by
  obtain ⟨here, name, trailing, ht⟩ := exists_target_of_createDir h
  obtain ⟨before, rest, hp, hrest, -, hu, hw, hdir, h0, h1, h2⟩ := exists_segments_of_target ht
  have hstays := stays_createDir h
  have hplace := placeOf_eq_of_target ht
  obtain ⟨-, -, hlook⟩ := look_createDir h
  have hthere : t'.look (here ++ [name]) = .folder := by simp [hlook, hplace]
  have hnames : names p.toList = before.filter (· ≠ "") ++ [name] := by
    have hrest' : rest.filter (· ≠ "") = [] := by
      rw [List.filter_eq_nil_iff]
      intro s hs
      simp [hrest s hs]
    rw [names_toList, hp, List.filter_append, List.filter_cons_of_pos (by simpa using h0), hrest']
  rw [isDir_iff_names, hstays.placeOf, hplace, hstays.startOf, hnames, walk_append,
    hstays.walk (walk_filter hw)]
  refine ⟨hu, ?_, hthere⟩
  exact walk_name (hstays.folder here hdir) (by show t'.look _ ≠ _; simp [hthere]) h0 h1 h2
    (size_of_createDir h ht)

theorem isDir_of_ensureDir {t t' : FileTree} {p : String} (h : t.ensureDir p = (t', none)) :
    t'.isDir p = true := by
  unfold ensureDir at h
  cases hc : t.createDir p with
  | ok t1 =>
    simp only [hc, Prod.mk.injEq] at h
    obtain ⟨rfl, -⟩ := h
    exact isDir_of_createDir hc
  | error e =>
    simp only [hc] at h
    split_ifs at h with hdir
    · obtain ⟨rfl, -⟩ := Prod.mk.inj h
      exact (Bool.and_eq_true_iff.1 hdir).2
    · cases (Prod.mk.inj h).2

/-- The path ends in a dot that stands for the directory before it. -/
def EndsInDot (p : List Char) : Prop := (cutLast p).2 = ['.']

instance (p : List Char) : Decidable (EndsInDot p) :=
  inferInstanceAs (Decidable ((cutLast p).2 = ['.']))

/-- A path ends in no dot if none of its names is one. -/
theorem not_endsInDot {p : List Char} (h : "." ∉ names p) : ¬ EndsInDot p := by
  intro hends
  have hself : "." ∈ names ['.'] := by decide
  refine h ?_
  unfold EndsInDot cutLast at hends
  simp only at hends
  split at hends
  · next hlast =>
    rw [names_splitLast, names_splitLast (splitLast _).1, hends]
    simp [hself]
  · rw [names_splitLast, hends]
    simp [hself]

/-- A directory that was made is there. -/
theorem isDir_of_makeDirs {t t' : FileTree} {p : List Char} (h : t.makeDirs p = (t', none))
    (hdot : ¬ EndsInDot p) : t'.isDir (String.ofList p) = true := by
  rw [makeDirs] at h
  simp only [show (cutLast p).2 ≠ ['.'] from hdot, if_false] at h
  split at h
  · exact isDir_of_ensureDir h
  · split at h
    · exact isDir_of_ensureDir h
    · split at h
      · split at h
        · exact isDir_of_ensureDir h
        · cases h
      · exact isDir_of_ensureDir h

/-- A file that was written is there. -/
theorem isFile_of_write {t t' : FileTree} {p text : String} (h : t.write p text = .ok t') :
    t'.isFile p = true := by
  obtain ⟨here, name, ht, hsize, -, -⟩ := exists_target_of_write h
  obtain ⟨before, rest, hp, -, hrest, hu, hw, hdir, h0, h1, h2⟩ := exists_segments_of_target ht
  have hstays := stays_write h
  have hplace := placeOf_eq_of_target ht
  obtain ⟨-, hlook⟩ := look_write h
  have hthere : t'.look (here ++ [name]) = .file (.text text) := by simp [hlook, hplace]
  rw [isFile_iff, hstays.placeOf, hplace]
  refine ⟨?_, _, hthere⟩
  unfold resolve
  rw [hu, hstays.startOf, hp, hrest rfl, walk_append, hstays.walk hw]
  exact walk_name (hstays.folder here hdir) (by show t'.look _ ≠ _; simp [hthere]) h0 h1 h2 hsize

/-- The directory of a file that can be written is there. -/
theorem isDir_dirname_of_write {t t' : FileTree} {p text : String} (h : t.write p text = .ok t')
    (hp : dirname p ≠ "") : t.isDir (dirname p) = true := by
  obtain ⟨here, name, ht, -⟩ := exists_target_of_write h
  obtain ⟨before, rest, hsegments, -, hrest, hu, hw, hdir, -⟩ := exists_segments_of_target ht
  rw [hrest rfl] at hsegments
  have hne : (splitLast p.toList).1 ≠ [] := by simpa [dirname] using hp
  have hprefix := isPrefix_splitLast p.toList
  have hu' : unusable? (dirname p) = none :=
    unusable?_of_front hprefix hne (by simpa using hu)
  have hw' : walk t.root (t.startOf (dirname p)) (names (dirname p).toList) = .ok here := by
    rw [names_dirname hsegments, dirname, startOf_of_front t hprefix hne, String.ofList_toList]
    exact walk_filter hw
  have hplace : t.placeOf (dirname p) = here := by
    rw [placeOf_eq_names]
    exact (eq_foldl_climb_of_walk hw').symm
  rw [isDir_iff_names, hplace]
  exact ⟨hu', hw', hdir⟩

/-- A file that was written can be written again while everything stays. -/
theorem exists_write_of_stays {t1 t2 t : FileTree} {p text : String}
    (h : t1.write p text = .ok t2) (hstays : Stays t2 t) (text' : String) :
    ∃ t', t.write p text' = .ok t' := by
  obtain ⟨here, name, ht, hsize, -, -⟩ := exists_target_of_write h
  have hfile : ∃ c, t.look (here ++ [name]) = .file c := by
    refine hstays.file _ (.text text) ?_
    rw [(look_write h).2, if_pos (placeOf_eq_of_target ht).symm]
  unfold write
  rw [((stays_write h).trans hstays).target ht]
  have hsize' : ¬ maxName < name.utf8ByteSize := by omega
  simp only [bind, Except.bind, Bool.false_eq_true, if_false, hsize']
  obtain ⟨c, hc⟩ := hfile
  rw [Node.look_eq_file_iff.1 hc]
  exact ⟨_, rfl⟩

end FileTree

end ResolverKit
