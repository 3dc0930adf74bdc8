import Mathlib.Data.List.Nodup
import ResolverKit.Output.Links
import ResolverKit.Proofs.Making

/-!
# Which scaffolds are left alone

Whether a scaffold is skipped is a matter of the tree before the run: it is left alone if something
stands at its path, or at the path of its directory unless this is the output directory, and it is
written otherwise.

    (writeResolvers t files o).error = none → ".." ∉ segments o.dir → SetApart files →
      Decides t files o (writeResolvers t files o)                      (writeResolvers_decides)

The run looks at the tree as it has become by then, and leaves out the directories that it has made.
That comes to the same: what is new since the output directory was made is a scaffold's or a
remembered directory (`Made`), and making the output directory adds nothing below it, because its
path never climbs (`look_of_makeDirs`).

`Reported` is what the report of a run says about the files: those that are reported as written are
there, and all others are as they were.

This holds of trees without links.  A link is a second path to a directory, and a scaffold in a
directory that is new on one path may find it there on the other (writeResolvers_by_order).
-/

namespace ResolverKit.FileTree

open Path

/-! ## Paths that never climb -/

theorem foldl_climb_prefix {here ss : List String} (h : ".." ∉ ss) :
    here <+: ss.foldl climb here := by
  induction ss generalizing here with
  | nil => exact List.prefix_rfl
  | cons s r ih =>
    obtain ⟨hs, hr⟩ : ".." ≠ s ∧ ".." ∉ r := by simpa using h
    have hstep : here <+: climb here s := by
      unfold climb
      split_ifs with h1 h2
      · exact List.prefix_rfl
      · exact absurd h2.symm hs
      · exact List.prefix_append _ _
    exact hstep.trans (ih hr)

theorem dots_mem_names_iff {p : String} : ".." ∈ names p.toList ↔ ".." ∈ segments p := by
  simp [names_toList]

/-- The way along such a path leads down to its place. -/
theorem prefix_of_onWay {t : FileTree} {p : String} {ss : List String} (hp : ".." ∉ segments p)
    (h : t.OnWay p.toList ss) : ss <+: t.placeOf p := by
  obtain ⟨q, ⟨r, hr⟩, rfl⟩ := h
  have hdots : ".." ∉ r := fun hmem =>
    hp (dots_mem_names_iff.1 (hr ▸ List.mem_append_right q hmem))
  rw [placeOf_eq_names, ← hr, List.foldl_append, String.ofList_toList]
  exact foldl_climb_prefix hdots

/-- A directory of the second tree, above something in the first, is a directory there. -/
theorem look_folder_of_stays {t t' : FileTree} {here at_ : List String} (h : Stays t t')
    (hpre : here <+: at_) (hat : t.look at_ ≠ .nothing) (hl : t'.look here = .folder) :
    t.look here = .folder := by
  cases hhere : t.look here with
  | nothing => exact absurd (look_nothing_of_front hpre hhere) hat
  | folder => rfl
  | file c =>
    obtain ⟨c', hc'⟩ := h.file here c hhere
    rw [hl] at hc'
    cases hc'

/-- A walk that never climbs and ends at something that was there could be made before. -/
theorem walk_of_stays {t t' : FileTree} {here ss at_ : List String} (h : Stays t t')
    (hdots : ".." ∉ ss) (hw : walk t'.root here ss = .ok at_) (hat : t.look at_ ≠ .nothing) :
    walk t.root here ss = .ok at_ := by
  induction ss generalizing here with
  | nil => exact hw
  | cons s r ih =>
    obtain ⟨hs, hr⟩ : ".." ≠ s ∧ ".." ∉ r := by simpa using hdots
    -- every directory on the way lies above the end of the walk
    have hpre : here <+: at_ := eq_foldl_climb_of_walk hw ▸ foldl_climb_prefix hdots
    rw [walk_cons] at hw ⊢
    cases hl : t'.root.look here with
    | nothing => simp [hl] at hw
    | file c => simp [hl] at hw
    | folder =>
      have hl' : t.root.look here = .folder := look_folder_of_stays h hpre hat hl
      simp only [hl, hl'] at hw ⊢
      split_ifs at hw with h1 h2 h3 h4
      · rw [if_pos h1]
        exact ih hr hw
      · exact absurd h2.symm hs
      · have hbelow : here ++ [s] <+: at_ := eq_foldl_climb_of_walk hw ▸ foldl_climb_prefix hr
        have h5 : ¬ t.root.look (here ++ [s]) = .nothing := fun hnone =>
          hat (look_nothing_of_front hbelow hnone)
        rw [if_neg h1, if_neg h2, if_neg h3, if_neg h5]
        exact ih hr hw

/-- What such a path leads to in the second tree it led to in the first, if anything stood there. -/
theorem exists?_of_stays {t t' : FileTree} {p : String} (h : Stays t t') (hp : ".." ∉ segments p)
    (hexists : t'.exists? p = true) (hl : t.look (t.placeOf p) ≠ .nothing) :
    t.exists? p = true := by
  obtain ⟨hr, -⟩ := exists?_iff.1 hexists
  refine exists?_iff.2 ⟨?_, hl⟩
  rw [h.placeOf] at hr
  have hw := walk_of_resolve hr
  rw [h.startOf] at hw
  unfold resolve at hr ⊢
  split at hr
  · cases hr
  · exact walk_of_stays h hp hw hl

/-! ## Files -/

/-- Directories that are added change no file. -/
theorem Grows.look_file_iff {way : List String → Prop} {t t' : FileTree} (h : Grows way t t')
    {ss : List String} {c : Content} : t'.look ss = .file c ↔ t.look ss = .file c := by
  rcases h.look ss with hsame | ⟨-, hnone, hfolder⟩
  · rw [hsame]
  · simp [hnone, hfolder]

theorem read_eq_ok_iff {t : FileTree} {p : String} {c : Content} :
    t.read p = .ok c ↔ t.resolve p = .ok (t.placeOf p) ∧ t.look (t.placeOf p) = .file c := by
  unfold read
  cases hr : t.resolve p with
  | error e => simp [bind, Except.bind]
  | ok ss =>
    obtain rfl := resolve_eq_placeOf hr
    rw [look, Node.look_eq_file_iff]
    cases hn : t.root.get? (t.placeOf p) with
    | none => simp [bind, Except.bind, throw, throwThe, MonadExceptOf.throw, hn]
    | some n =>
      cases n <;> simp [bind, Except.bind, pure, Except.pure, throw, throwThe,
        MonadExceptOf.throw, hn]

theorem read_of_write {t t' : FileTree} {p text : String} (h : t.write p text = .ok t') :
    t'.read p = .ok (.text text) := by
  have hplace := (stays_write h).placeOf p
  obtain ⟨hr, -⟩ := isFile_iff.1 (isFile_of_write h)
  exact read_eq_ok_iff.2 ⟨hr, by rw [(look_write h).2, if_pos hplace]⟩

/-- Added directories change nothing that is read. -/
theorem Grows.read {way : List String → Prop} {t t' : FileTree} {p : String} {c : Content}
    (h : Grows way t t') (hr : t.read p = .ok c) :
    t'.read p = .ok c := by
  obtain ⟨hresolve, hl⟩ := read_eq_ok_iff.1 hr
  rw [read_eq_ok_iff, h.placeOf]
  exact ⟨(Stays.of_grows h).resolve hresolve, h.look_file hl⟩

/-- Writing a file leaves a file at another place as it is. -/
theorem read_of_write_of_ne {t t' : FileTree} {p q text : String} {c : Content}
    (h : t.write q text = .ok t') (hne : t.placeOf p ≠ t.placeOf q) (hr : t.read p = .ok c) :
    t'.read p = .ok c := by
  obtain ⟨hresolve, hl⟩ := read_eq_ok_iff.1 hr
  rw [read_eq_ok_iff, (stays_write h).placeOf, (look_write h).2, if_neg hne]
  exact ⟨(stays_write h).resolve hresolve, hl⟩

end ResolverKit.FileTree

namespace ResolverKit.Output

open Path FileTree
open Code (CodeFile)

section

variable {t t2 : FileTree} {o : WriteOptions} {r : Run} {f : CodeFile}
  {done rest files : List CodeFile} {missing : List String}

/-! ## What the report says about the files -/

/-- The files that a run since the tree `t` reports as written are there, and all others are as
they were. -/
structure Reported (t : FileTree) (r : Run) : Prop where
  stays : Stays t r.tree
  isFile : ∀ p, (.written, p) ∈ r.handled → r.tree.isFile p = true
  kept : ∀ ss c, (∀ p, (.written, p) ∈ r.handled → ss ≠ t.placeOf p) →
    (r.tree.look ss = .file c ↔ t.look ss = .file c)

theorem Reported.handle (h : Reported t r) (hr : (r.handle o f).error = none) :
    Reported t (r.handle o f) := by
  obtain ⟨-, ⟨-, -, he⟩ | ⟨-, t1, missing, t', hm, hw, he⟩⟩ := handle_cases hr
  · rw [he]
    have hskip : ∀ p, (.written, p) ∈ r.handled ++ [(.skipped, o.pathOf f)] ↔
        (.written, p) ∈ r.handled := by simp
    exact ⟨h.stays, fun p hp => h.isFile p ((hskip p).1 hp),
      fun ss c hss => h.kept ss c fun p hp => hss p ((hskip p).2 hp)⟩
  · have hgrows := grows_of_makeDirs hm
    have hstays : Stays r.tree t' := (Stays.of_grows hgrows).trans (stays_write hw)
    obtain ⟨-, hlook⟩ := look_write hw
    rw [hgrows.placeOf, h.stays.placeOf] at hlook
    rw [he]
    refine ⟨h.stays.trans hstays, fun p hp => ?_, fun ss c hss => ?_⟩
    · change t'.isFile p = true
      rcases List.mem_append.1 hp with hp | hp
      · exact hstays.isFile (h.isFile p hp)
      · obtain rfl : p = o.pathOf f := by simpa using hp
        exact isFile_of_write hw
    · change t'.look ss = _ ↔ _
      rw [hlook, if_neg (hss _ (by simp)), hgrows.look_file_iff]
      exact h.kept ss c fun p hp => hss p (List.mem_append_left _ hp)

theorem Reported.foldl (h : Reported t r) (hr : (files.foldl (Run.handle o) r).error = none) :
    Reported t (files.foldl (Run.handle o) r) := by
  induction files generalizing r with
  | nil => exact h
  | cons f fs ih => exact ih (h.handle (error_of_foldl_handle hr)) hr

/-- A file that was written is read by its path. -/
theorem Reported.read (h : Reported t r) {p : String} {c : Content}
    (hp : (.written, p) ∈ r.handled) (hl : r.tree.look (t.placeOf p) = .file c) :
    r.tree.read p = .ok c := by
  rw [← h.stays.placeOf] at hl
  exact read_eq_ok_iff.2 ⟨(isFile_iff.1 (h.isFile p hp)).1, hl⟩

/-! ## The decision -/

/-- The scaffold is not forced, and something is found at its path or at the path of its directory,
which is not the output directory. -/
def IsLeft (t : FileTree) (o : WriteOptions) (f : CodeFile) : Prop :=
  isForced o f = false ∧ (t.exists? (o.pathOf f) = true ∨
    (parentDir t (o.pathOf f) ≠ t.absolute o.dir ∧ t.exists? (parentDir t (o.pathOf f)) = true))

instance (t : FileTree) (o : WriteOptions) : DecidablePred (IsLeft t o) :=
  fun _ => inferInstanceAs (Decidable (_ ∧ _))

/-- Making the output directory adds nothing but that directory and those above it. -/
theorem look_of_makeDirs (hm : makeDirs t o.dir = (t2, .ok missing))
    (hdots : ".." ∉ segments o.dir) {ss : List String} (hss : ¬ ss <+: t.placeOf o.dir) :
    t2.look ss = t.look ss := by
  rcases (grows_of_makeDirs hm).look ss with hsame | ⟨hway, -, -⟩
  · exact hsame
  · exact absurd (prefix_of_onWay hdots hway) hss

theorem dots_not_mem_absolute (t : FileTree) (p : String) : ".." ∉ segments (t.absolute p) :=
  fun hmem => (isName_of_mem_absolute (dots_mem_names_iff.2 hmem)).ne_dots rfl

theorem dots_not_mem_pathOf (hdots : ".." ∉ segments o.dir)
    (hf : ∀ s ∈ segments f.path, IsName s) : ".." ∉ segments (o.pathOf f) := by
  unfold WriteOptions.pathOf
  rw [← dots_mem_names_iff, names_join (isAbsolute_of_isName hf), List.mem_append,
    dots_mem_names_iff, dots_mem_names_iff]
  rintro (hmem | hmem)
  · exact hdots hmem
  · exact (hf _ hmem).ne_dots rfl

/-- What is in the way of a scaffold during the run is what was in its way before. -/
theorem Made.isTaken_iff_exists? (ht : t.Housed) (hm : makeDirs t o.dir = (t2, .ok missing))
    (hdots : ".." ∉ segments o.dir) (h : Made t2 o done r)
    (hfiles : SetApart (done ++ f :: rest)) :
    isTaken o r (o.pathOf f) = true ↔ t.exists? (o.pathOf f) = true ∨
      (parentDir t (o.pathOf f) ≠ t.absolute o.dir ∧
        t.exists? (parentDir t (o.pathOf f)) = true) := by
  have hf := hfiles.isName_head
  have hmade : Stays t t2 := .of_grows (grows_of_makeDirs hm)
  have ht2 : t2.Housed := hmade.housed ht
  have hstays : Stays t r.tree := hmade.trans h.stays
  rw [isTaken_iff, parentDir_of_stays hstays, hstays.absolute]
  constructor
  · rintro (hpath | ⟨hroot, hcreated, hparent⟩)
    · left
      have hl := h.look_place hfiles (by rw [← h.stays.placeOf]; exact (exists?_iff.1 hpath).2)
      rw [hmade.placeOf, look_of_makeDirs hm hdots (not_place_prefix_dir hf)] at hl
      exact exists?_of_stays hstays (dots_not_mem_pathOf hdots hf) hpath hl
    · right
      have hl := (exists?_iff.1 hparent).2
      rw [hstays.placeOf, placeOf_parentDir ht hf, ← hmade.placeOf] at hl
      have hl2 := h.look_dirname ht2 hfiles (by rwa [parentDir_of_stays hmade]) hl
      have hbelow : ¬ t.placeOf (dirname (o.pathOf f)) <+: t.placeOf o.dir := fun hpre =>
        hroot ((parentDir_eq_root_iff ht hf).2 (dirname_eq_of_prefix_dir hf hpre))
      rw [hmade.placeOf, look_of_makeDirs hm hdots hbelow, ← placeOf_parentDir ht hf] at hl2
      exact ⟨hroot, exists?_of_stays hstays (dots_not_mem_absolute t _) hparent hl2⟩
  · rintro (hpath | ⟨hroot, hparent⟩)
    · exact .inl (hstays.exists? hpath)
    · refine .inr ⟨hroot, ?_, hstays.exists? hparent⟩
      have hroot2 := mt (parentDir_eq_root_iff ht hf).2 hroot
      rw [← hmade.placeOf, ← hmade.placeOf] at hroot2
      have hnew := h.not_mem_created ht2 hf hroot2
      rw [parentDir_of_stays hmade] at hnew
      exact hnew (hmade.exists? hparent)

/-! ## The whole run -/

/-- A run over all scaffolds that has decided in the tree before it: what it reported, which paths
it has skipped and written, and what stands there. -/
structure Decides (t : FileTree) (files : List CodeFile) (o : WriteOptions) (r : Run) : Prop where
  handled : r.handled = files.map fun f => (fateBy (IsLeft t o) f, o.pathOf f)
  skipped : r.paths .skipped = (files.filter fun f => IsLeft t o f).map o.pathOf
  written : r.paths .written = (files.filter fun f => ¬ IsLeft t o f).map o.pathOf
  mem_skipped : ∀ f ∈ files, o.pathOf f ∈ r.paths .skipped ↔ IsLeft t o f
  mem_written : ∀ f ∈ files, o.pathOf f ∈ r.paths .written ↔ ¬ IsLeft t o f
  didSkip : r.didSkip = true ↔ ∃ f ∈ files, IsLeft t o f
  read : ∀ f ∈ files, ¬ IsLeft t o f →
    r.tree.read (o.pathOf f) = .ok (.text (fillPlaceholder f.code o.typesPath))
  kept : ∀ ss c, (∀ f ∈ files, ¬ IsLeft t o f → ss ≠ t.placeOf (o.pathOf f)) →
    (r.tree.look ss = .file c ↔ t.look ss = .file c)

/-- Scaffolds that are set apart have different paths. -/
theorem SetApart.nodup_pathOf (h : SetApart files) (o : WriteOptions) :
    (files.map o.pathOf).Nodup := by
  refine List.pairwise_map.2 (h.apart.imp_of_mem fun {f g} hf hg hapart heq => ?_)
  have hplace := congrArg (FileTree.empty []).placeOf heq
  unfold WriteOptions.pathOf at hplace
  rw [placeOf_join _ (h.isName f hf), placeOf_join _ (h.isName g hg)] at hplace
  exact hapart.1 (List.append_cancel_left hplace ▸ List.prefix_rfl)

theorem paths_of_handled {fate : CodeFile → FileState}
    (h : r.handled = files.map fun f => (fate f, o.pathOf f)) (s : FileState) :
    r.paths s = (files.filter fun f => fate f = s).map o.pathOf := by
  simp [Run.paths, h, List.filter_map, Function.comp_def]

theorem SetApart.pathOf_mem_paths (hfiles : SetApart files) {fate : CodeFile → FileState}
    (h : r.handled = files.map fun f => (fate f, o.pathOf f)) (hf : f ∈ files) (s : FileState) :
    o.pathOf f ∈ r.paths s ↔ fate f = s := by
  rw [paths_of_handled h]
  constructor
  · intro hmem
    obtain ⟨g, hg, heq⟩ := List.mem_map.1 hmem
    obtain ⟨hg, hfate⟩ := List.mem_filter.1 hg
    obtain rfl := List.inj_on_of_nodup_map (hfiles.nodup_pathOf o) hg hf heq
    simpa using hfate
  · intro hfate
    exact List.mem_map_of_mem (List.mem_filter.2 ⟨hf, by simpa using hfate⟩)

/-- A run that has dealt with the scaffolds as they fare in the tree `t`. -/
theorem Carried.decides (h : Carried t2 o (fateBy (IsLeft t o)) files r) (hreport : Reported t r)
    (hfiles : SetApart files) : Decides t files o r where
  handled := h.handled
  skipped := by simpa [fateBy_eq_skipped_iff] using paths_of_handled h.handled .skipped
  written := by simpa [fateBy_eq_written_iff] using paths_of_handled h.handled .written
  mem_skipped f hf := by
    rw [hfiles.pathOf_mem_paths h.handled hf, fateBy_eq_skipped_iff]
  mem_written f hf := by
    rw [hfiles.pathOf_mem_paths h.handled hf, fateBy_eq_written_iff]
  didSkip := by
    simp [Run.didSkip, paths_of_handled h.handled, fateBy_eq_skipped_iff]
  read f hf hleft := by
    have hwritten := fateBy_eq_written_iff.2 hleft
    have hreported : (.written, o.pathOf f) ∈ r.handled := by
      rw [h.handled, ← hwritten]
      exact List.mem_map_of_mem hf
    refine hreport.read hreported ?_
    rw [← hreport.stays.placeOf, h.stays.placeOf]
    exact h.written f hf hwritten
  kept ss c hss := by
    refine hreport.kept ss c fun p hp => ?_
    rw [h.handled] at hp
    obtain ⟨f, hf, heq⟩ := List.mem_map.1 hp
    obtain ⟨hfate, rfl⟩ := Prod.mk.inj heq
    exact hss f hf (fateBy_eq_written_iff.1 hfate)

end

/-- Each scaffold is decided on as if it were the only one. -/
theorem writeResolvers_decides {t : FileTree} {files : List CodeFile} {o : WriteOptions}
    (ht : t.Housed) (hdots : ".." ∉ segments o.dir) (hfiles : SetApart files)
    (h : (writeResolvers t files o).error = none) :
    Decides t files o (writeResolvers t files o) := by
  unfold writeResolvers at h ⊢
  cases hm : makeDirs t o.dir with
  | mk t2 result =>
    cases result with
    | error e => simp [hm] at h
    | ok missing =>
      simp only [hm] at h ⊢
      have hgrows := grows_of_makeDirs hm
      have hstays : Stays t t2 := .of_grows hgrows
      have ht2 : t2.Housed := hstays.housed ht
      have hstart : Carried t2 o (fateBy (IsLeft t o)) [] ⟨t2, missing, [], none⟩ := .start ht hm
      have hreport : Reported t ⟨t2, missing, [], none⟩ :=
        ⟨hstays, by simp, fun ss c _ => hgrows.look_file_iff⟩
      have hend := hstart.foldl ht2 (by simpa using hfiles) h ?_
      · exact hend.decides (hreport.foldl h) hfiles
      · intro f _ done rest r hapart hmade _
        rw [fateBy_eq_skipped_iff, IsLeft, hmade.isTaken_iff_exists? ht hm hdots hapart]

/-- An output directory with a scaffold and a directory in it. -/
def startedTree : FileTree :=
  ⟨.dir [("work", .dir [("out", .dir [("User.ts", .file (.text "mine")), ("types", .dir []),
    ("index.ts", .file (.text "old"))])])], ["work"]⟩

/-- A scaffold that is there, one in a directory that is there, two in directories that the run
makes, and one that is forced. -/
theorem writeResolvers_startedTree :
    let o : WriteOptions := ⟨"./out/.", "../t", false⟩
    let files : List CodeFile := [⟨"User.ts", "u", false⟩, ⟨"types/Context.ts", "c", false⟩,
      ⟨"deep/er/A.ts", "a", false⟩, ⟨"deep/B.ts", "b", false⟩, ⟨"index.ts", "i", true⟩]
    startedTree.Housed ∧ ".." ∉ segments o.dir ∧ SetApart files ∧
      (writeResolvers startedTree files o).error = none ∧
      (writeResolvers startedTree files o).handled =
        [(.skipped, "./out/./User.ts"), (.skipped, "./out/./types/Context.ts"),
          (.written, "./out/./deep/er/A.ts"), (.written, "./out/./deep/B.ts"),
          (.written, "./out/./index.ts")] ∧
      (writeResolvers startedTree files o).didSkip = true ∧
      (writeResolvers startedTree files o).tree.read "./out/./deep/B.ts" = .ok (.text "b") ∧
      (writeResolvers startedTree files o).tree.look ["work", "out", "User.ts"] =
        .file (.text "mine") := by
  intro o files
  have ht : startedTree.Housed := by decide
  have hdots : ".." ∉ segments o.dir := by decide +kernel
  have hfiles : SetApart files := ⟨by decide +kernel, by decide +kernel⟩
  have herror : (writeResolvers startedTree files o).error = none := by decide +kernel
  have hrun := writeResolvers_decides ht hdots hfiles herror
  refine ⟨ht, hdots, hfiles, herror, ?_, ?_, ?_, ?_⟩
  · rw [hrun.handled]
    decide +kernel
  · exact hrun.didSkip.2 ⟨⟨"User.ts", "u", false⟩, by simp [files], by decide +kernel⟩
  · have hread := hrun.read ⟨"deep/B.ts", "b", false⟩ (by simp [files]) (by decide +kernel)
    have hpath : o.pathOf ⟨"deep/B.ts", "b", false⟩ = "./out/./deep/B.ts" := by decide +kernel
    have hcode : fillPlaceholder "b" o.typesPath = "b" := by decide +kernel
    rwa [hpath, hcode] at hread
  · exact (hrun.kept _ _ (by decide +kernel)).2 (by decide +kernel)

/-- A directory, to which the link `l` leads. -/
def twoWaysTree : FileTree := ⟨.dir [("work", .dir [("d", .dir [])])], ["work"]⟩

def secondWay : Links := ⟨[(["work", "l"], "d")]⟩

/-- Of two scaffolds in one new directory, each by a way of its own, the first is written and the
second is skipped, although nothing stood at their paths or at those of their directories. -/
theorem writeResolvers_by_order :
    let o : WriteOptions := ⟨".", "t", false⟩
    let x : CodeFile := ⟨"d/new/x.ts", "x", false⟩
    let y : CodeFile := ⟨"l/new/y.ts", "y", false⟩
    twoWaysTree.Housed ∧ ".." ∉ segments o.dir ∧ SetApart [x, y] ∧
      (∀ p ∈ ["./d/new/x.ts", "./d/new", "./l/new/y.ts", "./l/new"],
        secondWay.exists? twoWaysTree p = false) ∧
      (secondWay.writeResolvers twoWaysTree [x, y] o).error = none ∧
      (secondWay.writeResolvers twoWaysTree [x, y] o).handled =
        [(.written, "./d/new/x.ts"), (.skipped, "./l/new/y.ts")] ∧
      (secondWay.writeResolvers twoWaysTree [y, x] o).error = none ∧
      (secondWay.writeResolvers twoWaysTree [y, x] o).handled =
        [(.written, "./l/new/y.ts"), (.skipped, "./d/new/x.ts")] := by
  refine ⟨by decide, by decide +kernel, ⟨by decide +kernel, by decide +kernel⟩, ?_, ?_, ?_, ?_, ?_⟩
  all_goals decide +kernel

end ResolverKit.Output
