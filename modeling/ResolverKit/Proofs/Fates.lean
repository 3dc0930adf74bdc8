import ResolverKit.Proofs.Making

/-!
# What a run has made itself

Scaffolds do not get in each other's way.  If their paths are apart from each other, then what one
of them makes, its file and the directories above it, stops none of those behind it:

    writePhase t types path files o = some r → SetApart files → … →
      r.handled = files.map fun f => (fateBy (IsMet t' o) f, o.pathOf f)

where `t'` is the tree before the first of them.  What stands there may be the run's own work as
well, since the types file comes before the scaffolds: a directory that was made for the types file
counts as one that was there (`writePhase_skips_types_directory`).

What the run makes for one scaffold is known (`Made`), so that the next one is in the way of
something exactly if it is met in `t'`; that is what `Carried.foldl` asks for.
-/

namespace ResolverKit.Output

open Path FileTree
open Code (CodeFile)

/-! ## What a scaffold meets -/

/-- Something stands at the place of the scaffold or of its directory, and this is not the output
directory. -/
def IsMet (t : FileTree) (o : WriteOptions) (f : CodeFile) : Prop :=
  t.look (t.placeOf (o.pathOf f)) ≠ .nothing ∨
    (t.placeOf (dirname (o.pathOf f)) ≠ t.placeOf o.dir ∧
      t.look (t.placeOf (dirname (o.pathOf f))) ≠ .nothing)

instance (t : FileTree) (o : WriteOptions) : DecidablePred (IsMet t o) :=
  fun _ => inferInstanceAs (Decidable (_ ∨ _))

section

variable {t t1 t' : FileTree} {o : WriteOptions} {r : Run} {f : CodeFile}
  {done rest : List CodeFile} {missing : List String} {text : String}

/-- What is in the way of a scaffold stood there from the start. -/
theorem Made.isMet_of_isTaken (ht : t.Housed) (h : Made t o done r)
    (hfiles : SetApart (done ++ f :: rest)) (htaken : isTaken o r (o.pathOf f) = true) :
    IsMet t o f := by
  have hf := hfiles.isName_head
  rcases isTaken_iff.1 htaken with hpath | ⟨hroot, hcreated, hexists⟩
  · have hl := (exists?_iff.1 hpath).2
    rw [h.stays.placeOf] at hl
    exact .inl (h.look_place hfiles hl)
  · rw [parentDir_of_stays h.stays] at hroot hcreated hexists
    have hl := (exists?_iff.1 hexists).2
    rw [h.stays.placeOf, placeOf_parentDir ht hf] at hl
    rw [h.stays.absolute, Ne, parentDir_eq_root_iff ht hf] at hroot
    exact .inr ⟨hroot, h.look_dirname ht hfiles hcreated hl⟩

/-- A scaffold that can be written meets a file or nothing at its place; a file is found there. -/
theorem Made.exists?_of_written (ht : t.Housed) (h : Made t o done r)
    (hm : makeDirs r.tree (parentDir r.tree (o.pathOf f)) = (t1, .ok missing))
    (hw : t1.write (o.pathOf f) text = .ok t')
    (hplace : t.look (t.placeOf (o.pathOf f)) ≠ .nothing) :
    r.tree.exists? (o.pathOf f) = true := by
  have hgrows := grows_of_makeDirs hm
  have hstays : Stays t t1 := h.stays.trans (.of_grows hgrows)
  obtain ⟨here, name, htarget, -, hold, -⟩ := exists_target_of_write hw
  rw [← placeOf_eq_of_target htarget, hstays.placeOf] at hold
  cases hl : t.look (t.placeOf (o.pathOf f)) with
  | nothing => exact absurd hl hplace
  | folder => exact absurd (hstays.folder _ hl) hold
  | file c =>
    obtain ⟨c', hc'⟩ := h.stays.file _ c hl
    exact exists?_of_write_of_grows (h.stays.housed ht) hgrows hw (by rwa [h.stays.placeOf])

/-- A directory that was made sure of has a path that can be used, so it is found if it stood there
from the start. -/
theorem Made.isDir_of_made (ht : t.Housed) (h : Made t o done r)
    (hf : ∀ s ∈ segments f.path, IsName s)
    (hm : makeDirs r.tree (parentDir r.tree (o.pathOf f)) = (t1, .ok missing))
    (hdir : t.look (t.placeOf (dirname (o.pathOf f))) ≠ .nothing) :
    t.isDir (parentDir t (o.pathOf f)) = true := by
  have hstays : Stays t t1 := h.stays.trans (.of_grows (grows_of_makeDirs hm))
  have hnames : ∀ s ∈ t.placeOf (dirname (o.pathOf f)), IsName s :=
    fun s => isName_of_mem_placeOf ht
  have hthere : t1.isDir (parentDir t (o.pathOf f)) = true := by
    rw [← parentDir_of_stays h.stays]
    exact isDir_of_makeDirs_eq hm (not_endsInDot_absolute _ _)
  rw [parentDir_eq ht hf] at hthere ⊢
  obtain ⟨hu, hsize, hfolder⟩ := (isDir_rooted_iff hnames).1 hthere
  refine (isDir_rooted_iff hnames).2 ⟨hu, hsize, ?_⟩
  cases hl : t.look (t.placeOf (dirname (o.pathOf f))) with
  | nothing => exact absurd hl hdir
  | folder => rfl
  | file c =>
    obtain ⟨c', hc'⟩ := hstays.file _ c hl
    rw [hfolder] at hc'
    cases hc'

/-- What stood in the way of a scaffold from the start is found there, unless the scaffold cannot
be written at all. -/
theorem Made.isTaken_of_isMet (ht : t.Housed) (h : Made t o done r)
    (hf : ∀ s ∈ segments f.path, IsName s) (hr : (r.handle o f).error = none)
    (hmet : IsMet t o f) : isTaken o r (o.pathOf f) = true := by
  obtain ⟨-, ⟨-, htaken, -⟩ | ⟨-, t1, missing, t', hm, hw, -⟩⟩ := handle_cases hr
  · exact htaken
  · rw [isTaken_iff]
    rcases hmet with hplace | ⟨hroot, hdir⟩
    · exact .inl (h.exists?_of_written ht hm hw hplace)
    · right
      have hold := exists?_of_isDir (h.isDir_of_made ht hf hm hdir)
      rw [parentDir_of_stays h.stays, h.stays.absolute, Ne, parentDir_eq_root_iff ht hf]
      exact ⟨hroot, h.not_mem_created ht hf hroot hold, h.stays.exists? hold⟩

/-- A scaffold that is not forced is decided on by what it meets in the tree before the run. -/
theorem Made.isTaken_iff_isMet (ht : t.Housed) (h : Made t o done r)
    (hfiles : SetApart (done ++ f :: rest)) (hr : (r.handle o f).error = none) :
    isTaken o r (o.pathOf f) = true ↔ IsMet t o f :=
  ⟨h.isMet_of_isTaken ht hfiles, h.isTaken_of_isMet ht hfiles.isName_head hr⟩

/-! ## The write phase -/

/-- The tree in which the first scaffold is dealt with. -/
def beforeScaffolds (t : FileTree) (types path : String) (o : WriteOptions) : FileTree :=
  (makeDirs (writeTypes t types path).1 o.dir).1

/-- The place of the types file, or of a directory that it or the output directory is reached
through. -/
def IsOnTheWay (t : FileTree) (path : String) (o : WriteOptions) (ss : List String) : Prop :=
  ss = t.placeOf path ∨ t.OnWay (dirname path).toList ss ∨ t.OnWay o.dir.toList ss

/-- What is new before the first scaffold was made for the types file and the output directory. -/
theorem isOnTheWay_of_new {types path : String} {t1 t2 : FileTree} {missing : List String}
    (htypes : writeTypes t types path = (t1, none)) (hm : makeDirs t1 o.dir = (t2, .ok missing))
    {ss : List String} (hnew : t2.look ss ≠ .nothing) (hold : t.look ss = .nothing) :
    IsOnTheWay t path o ss := by
  have hgrows := grows_of_makeDirs hm
  obtain ⟨t', hw, hway⟩ := exists_write_of_writeTypes htypes
  have hcwd : t1.cwd = t.cwd := (look_write hw).1.trans hway.cwd
  rcases hgrows.look ss with hsame | ⟨⟨q, hq, rfl⟩, -, -⟩
  · rw [hsame, (look_write hw).2] at hnew
    split at hnew
    · next hss => exact .inl (hss.trans (hway.placeOf path))
    · rcases hway.look ss with hsame' | ⟨hon, -, -⟩
      · rw [hsame', hold] at hnew
        exact absurd rfl hnew
      · exact .inr (.inl hon)
  · exact .inr (.inr ⟨q, hq, by simp [startOf, hcwd]⟩)

/-- Scaffolds apart from each other, below a directory that is not there, are all written but for
those that the types file or the output directory itself came in the way of. -/
theorem writePhase_fates {types path : String} {files : List CodeFile} (ht : t.Housed)
    (hfree : t.look (t.placeOf o.dir) = .nothing) (hfiles : SetApart files)
    (hunforced : ∀ f ∈ files, f.force = false) (ho : o.force = false)
    (h : writePhase t types path files o = some r) :
    r.handled = files.map
        (fun f => (fateBy (IsMet (beforeScaffolds t types path o) o) f, o.pathOf f)) ∧
      ∀ f ∈ files,
        (¬ IsMet (beforeScaffolds t types path o) o f →
          r.tree.look (t.placeOf (o.pathOf f)) =
            .file (.text (fillPlaceholder f.code o.typesPath))) ∧
        (IsMet (beforeScaffolds t types path o) o f →
          IsOnTheWay t path o (t.placeOf (o.pathOf f)) ∨
            (t.placeOf (dirname (o.pathOf f)) ≠ t.placeOf o.dir ∧
              IsOnTheWay t path o (t.placeOf (dirname (o.pathOf f))))) := by
  obtain ⟨t1, t2, missing, htypes, hm, hr, herror⟩ := writePhase_eq_some_iff.1 h
  have hbefore : beforeScaffolds t types path o = t2 := by
    rw [beforeScaffolds, htypes, hm]
  obtain ⟨t0, hw0, hgrows0⟩ := exists_write_of_writeTypes htypes
  have hstays1 : Stays t t1 := (Stays.of_grows hgrows0).trans (stays_write hw0)
  have hstays : Stays t t2 := hstays1.trans (.of_grows (grows_of_makeDirs hm))
  have ht2 : t2.Housed := hstays.housed ht
  have hstart : Carried t2 o (fateBy (IsMet t2 o)) [] ⟨t2, missing, [], none⟩ :=
    .start (hstays1.housed ht) hm
  have hend := hstart.foldl ht2 (by simpa using hfiles) (hr ▸ herror) ?_
  swap
  · intro f hf done rest r hapart hmade hstep
    have hforced : isForced o f = false := by simp [isForced, ho, hunforced f hf]
    rw [fateBy_eq_skipped_iff, hmade.isTaken_iff_isMet ht2 hapart hstep]
    simp [hforced]
  rw [hr, List.nil_append] at hend
  rw [hbefore]
  refine ⟨hend.handled, fun f hf => ⟨fun hmet => ?_, fun hmet => ?_⟩⟩
  · rw [← hstays.placeOf]
    exact hend.written f hf (fateBy_eq_written_iff.2 hmet)
  · -- nothing stood below the output directory
    have hbelow : ∀ p, t.placeOf o.dir <+: t.placeOf p → t.look (t.placeOf p) = .nothing :=
      fun p hp => look_nothing_of_front hp hfree
    have hname := hfiles.isName f hf
    unfold IsMet at hmet
    rw [hstays.placeOf, hstays.placeOf, hstays.placeOf] at hmet
    refine hmet.imp (fun hplace => ?_) fun ⟨hroot, hdir⟩ => ⟨hroot, ?_⟩
    · refine isOnTheWay_of_new htypes hm hplace (hbelow _ ?_)
      rw [WriteOptions.pathOf, placeOf_join t hname]
      exact List.prefix_append _ _
    · refine isOnTheWay_of_new htypes hm hdir (hbelow _ ?_)
      rw [WriteOptions.pathOf, placeOf_dirname_join t hname]
      exact List.prefix_append _ _

end

/-- A scaffold beside the types file is skipped, because its directory was made for the types
file. -/
theorem writePhase_skips_types_directory :
    let t : FileTree := ⟨.dir [("work", .dir [])], ["work"]⟩
    let o : WriteOptions := ⟨"out", "out/types/t.ts", false⟩
    let files : List CodeFile := [⟨"types/Context.ts", "c", false⟩, ⟨"Query.ts", "q", false⟩]
    t.Housed ∧ t.look (t.placeOf o.dir) = .nothing ∧ SetApart files ∧
      (∀ f ∈ files, f.force = false) ∧ o.force = false ∧
      ∃ r, writePhase t "t" "out/types/t.ts" files o = some r ∧
        r.handled = [(.skipped, "out/types/Context.ts"), (.written, "out/Query.ts")] ∧
        r.tree.look ["work", "out", "Query.ts"] = .file (.text "q") := by
  intro t o files
  have ht : t.Housed := by decide
  have hfree : t.look (t.placeOf o.dir) = .nothing := by decide +kernel
  have hfiles : SetApart files := ⟨by decide +kernel, by decide +kernel⟩
  have hunforced : ∀ f ∈ files, f.force = false := by decide
  have hsome : (writePhase t "t" "out/types/t.ts" files o).isSome = true := by decide +kernel
  obtain ⟨r, hr⟩ := Option.isSome_iff_exists.1 hsome
  obtain ⟨hhandled, hdisk⟩ := writePhase_fates ht hfree hfiles hunforced rfl hr
  refine ⟨ht, hfree, hfiles, hunforced, rfl, r, hr, ?_, ?_⟩
  · rw [hhandled]
    decide +kernel
  · have hquery := (hdisk ⟨"Query.ts", "q", false⟩ (by simp [files])).1 (by decide +kernel)
    have hplace : t.placeOf (o.pathOf ⟨"Query.ts", "q", false⟩) = ["work", "out", "Query.ts"] := by
      decide +kernel
    have hcode : fillPlaceholder "q" o.typesPath = "q" := by decide +kernel
    rwa [hplace, hcode] at hquery

end ResolverKit.Output
