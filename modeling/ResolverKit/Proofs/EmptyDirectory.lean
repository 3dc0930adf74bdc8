import ResolverKit.Proofs.Creation
import ResolverKit.Proofs.Decisions
import ResolverKit.Proofs.Fates
import ResolverKit.Proofs.ScaffoldPaths

/-!
# Scaffolds in an empty directory

In an empty output directory nothing is in the way of a scaffold but another scaffold of the same
run.  A scaffold whose path is short enough can be written there (`FitsIn.error_handle`), so a run
over scaffolds with different paths writes them all:

    SetApart files → … → WritesEach t o files (writeResolvers t files o)
                                                                      (writesEach_writeResolvers)

The scaffolds of a schema have different paths exactly if no type is called `index`, as the file
that collects the resolvers.  This file comes last.  If it finds the scaffold of a type in its place
it takes it for a file of the user, and is skipped; if scaffolds are forced it replaces that of the
type (`writesShared_writeResolvers`).
-/

namespace ResolverKit.Output

open Path FileTree
open Code (CodeFile)

/-! ## Scaffolds that fit -/

/-- The path of a scaffold, the path of its directory from the root, and the names on the way are
not too long. -/
structure FitsIn (t : FileTree) (o : WriteOptions) (f : CodeFile) : Prop where
  path : unusable? (o.pathOf f) = none
  parent : unusable? (parentDir t (o.pathOf f)) = none
  names : ∀ s ∈ t.placeOf (o.pathOf f), s.utf8ByteSize ≤ maxName

instance (t : FileTree) (o : WriteOptions) (f : CodeFile) : Decidable (FitsIn t o f) :=
  decidable_of_iff (unusable? (o.pathOf f) = none ∧ unusable? (parentDir t (o.pathOf f)) = none ∧
      ∀ s ∈ t.placeOf (o.pathOf f), s.utf8ByteSize ≤ maxName)
    ⟨fun h => ⟨h.1, h.2.1, h.2.2⟩, fun h => ⟨h.path, h.parent, h.names⟩⟩

section

variable {t t' : FileTree} {o : WriteOptions} {r : Run} {f g : CodeFile}
  {done rest files : List CodeFile}

theorem FitsIn.of_stays (h : FitsIn t o f) (hstays : Stays t t') : FitsIn t' o f where
  path := h.path
  parent := by rw [parentDir_of_stays hstays]; exact h.parent
  names := by rw [hstays.placeOf]; exact h.names

/-- The directory of a scaffold that fits is made if no file stands on the way to it. -/
theorem FitsIn.exists_makeDirs (h : FitsIn t o f) (hf : ∀ s ∈ segments f.path, IsName s)
    (ht : t.Housed)
    (hway : ∀ q, q <+: t.placeOf (dirname (o.pathOf f)) → ∀ c, t.look q ≠ .file c) :
    ∃ t1 missing, makeDirs t (parentDir t (o.pathOf f)) = (t1, .ok missing) := by
  have hsize : ∀ s ∈ t.placeOf (dirname (o.pathOf f)), s.utf8ByteSize ≤ maxName := fun s hs =>
    h.names s ((dir_prefix_place hf).subset hs)
  have hparent := h.parent
  rw [parentDir_eq ht hf] at hparent
  have hmade := makeDirs_rooted (fun s hs => isName_of_mem_placeOf ht hs) hparent hsize hway
  rw [← toList_parentDir ht hf] at hmade
  cases hm : t.makeDirs (parentDir t (o.pathOf f)).toList with
  | mk t1 failure =>
    rw [hm] at hmade
    obtain rfl : failure = none := hmade
    exact ⟨t1, _, by rw [makeDirs, hm]⟩

/-- A scaffold that fits can be created in its directory if that is there. -/
theorem FitsIn.exists_target (h : FitsIn t o f) (hf : ∀ s ∈ segments f.path, IsName s)
    (hdir : t.isDir o.dir = true)
    (hparent : t.look (t.placeOf (dirname (o.pathOf f))) = .folder) :
    ∃ name, t.target (o.pathOf f) = .ok (t.placeOf (dirname (o.pathOf f)), some name, false) ∧
      name.utf8ByteSize ≤ maxName := by
  obtain ⟨ss, name, hpath⟩ : ∃ ss name, segments f.path = ss ++ [name] :=
    ⟨_, _, (List.dropLast_concat_getLast (segments_ne_nil f.path)).symm⟩
  have hss : ∀ s ∈ ss, IsName s := fun s hs => hf s (by simp [hpath, hs])
  have hdirname : t.placeOf (dirname (o.pathOf f)) = t.placeOf o.dir ++ ss := by
    rw [WriteOptions.pathOf, placeOf_dirname_join t hf, hpath, List.dropLast_concat]
  have hsize : ∀ s ∈ ss ++ [name], s.utf8ByteSize ≤ maxName := fun s hs =>
    h.names s (by
      rw [WriteOptions.pathOf, placeOf_join t hf, hpath]
      exact List.mem_append_right _ hs)
  rw [hdirname] at hparent ⊢
  -- the output directory is reached by its path, and the rest of the way from there
  obtain ⟨before, hsegments, hbefore⟩ := exists_segments_join o.dir (isAbsolute_of_isName hf)
  have hwalk : walk t.root (t.startOf (o.pathOf f)) (before ++ ss) =
      .ok (t.placeOf o.dir ++ ss) := by
    have hstart : t.startOf (o.pathOf f) = t.startOf o.dir := by
      simp [startOf, WriteOptions.pathOf, isAbsolute_join_of_relative (isAbsolute_of_isName hf)]
    obtain ⟨-, hroot, hlook⟩ := isDir_iff_names.1 hdir
    rw [hstart, walk_append, walk_of_filter (by rwa [hbefore]) hlook]
    exact (walk_names_iff hss hparent).2 fun s hs => hsize s (List.mem_append_left _ hs)
  rw [hpath, ← List.append_assoc] at hsegments
  exact ⟨name, target_of_walk h.path hsegments (hf name (by simp [hpath])) hwalk hparent,
    hsize name (by simp)⟩

theorem FitsIn.exists_write (h : FitsIn t o f) (hf : ∀ s ∈ segments f.path, IsName s)
    (hdir : t.isDir o.dir = true)
    (hparent : t.look (t.placeOf (dirname (o.pathOf f))) = .folder)
    (hplace : t.look (t.placeOf (o.pathOf f)) ≠ .folder) (text : String) :
    ∃ t', t.write (o.pathOf f) text = .ok t' := by
  obtain ⟨name, htarget, hsize⟩ := h.exists_target hf hdir hparent
  rw [placeOf_eq_of_target htarget] at hplace
  exact exists_write_of_target htarget hsize hplace text

/-- A file is not on the way to its directory. -/
theorem not_place_prefix_dirname (hf : ∀ s ∈ segments f.path, IsName s) :
    ¬ t.placeOf (o.pathOf f) <+: t.placeOf (dirname (o.pathOf f)) := by
  intro hpre
  have hlen := hpre.length_le
  have hpos := List.length_pos_iff.2 (segments_ne_nil f.path)
  unfold WriteOptions.pathOf at hlen
  rw [placeOf_join t hf, placeOf_dirname_join t hf] at hlen
  simp only [List.length_append, List.length_dropLast] at hlen
  omega

/-- A scaffold that is there is reached through directories. -/
theorem look_of_prefix_dirname (hf : ∀ s ∈ segments f.path, IsName s)
    (hthere : t'.look (t.placeOf (o.pathOf f)) ≠ .nothing) {q : List String}
    (hq : q <+: t.placeOf (dirname (o.pathOf f))) : t'.look q = .folder := by
  obtain ⟨b, hb⟩ := hq.trans (dir_prefix_place hf)
  refine Node.look_of_look_append (b := b) ?_ (by rw [hb]; exact hthere)
  rintro rfl
  rw [List.append_nil] at hb
  exact not_place_prefix_dirname hf (hb ▸ hq)

/-- A scaffold that fits is written, if it is forced or nothing is in its way. -/
theorem FitsIn.error_handle (h : FitsIn r.tree o f) (ht : r.tree.Housed)
    (hdir : r.tree.isDir o.dir = true) (hf : ∀ s ∈ segments f.path, IsName s)
    (hway : ∀ q, q <+: r.tree.placeOf (dirname (o.pathOf f)) → ∀ c, r.tree.look q ≠ .file c)
    (hplace : r.tree.look (r.tree.placeOf (o.pathOf f)) ≠ .folder) (herror : r.error = none)
    (hfree : isForced o f = true ∨ isTaken o r (o.pathOf f) = false) :
    (r.handle o f).error = none := by
  obtain ⟨t1, missing, hm⟩ := h.exists_makeDirs hf ht hway
  have hgrows := grows_of_makeDirs hm
  have hstays : Stays r.tree t1 := .of_grows hgrows
  have hparent : t1.look (t1.placeOf (dirname (o.pathOf f))) = .folder := by
    have hmade := isDir_of_makeDirs_eq hm (not_endsInDot_absolute _ _)
    rw [← placeOf_parentDir (hstays.housed ht) hf, parentDir_of_stays hstays]
    exact (isDir_iff.1 hmade).2
  have hplace1 : t1.look (t1.placeOf (o.pathOf f)) ≠ .folder := by
    rw [hstays.placeOf]
    rcases hgrows.look (r.tree.placeOf (o.pathOf f)) with hsame | ⟨hon, -, -⟩
    · rwa [hsame]
    · exact absurd (prefix_of_onWay_parentDir ht hon) (not_place_prefix_dirname hf)
  obtain ⟨t', hw⟩ := (h.of_stays hstays).exists_write hf (hstays.isDir hdir) hparent hplace1
    (fillPlaceholder f.code o.typesPath)
  rw [handle_eq_write herror hfree hm hw]

/-! ## A run over an empty directory -/

theorem not_isMet_of_isEmptyDir (h : t.IsEmptyDir o.dir) (hf : ∀ s ∈ segments f.path, IsName s) :
    ¬ IsMet t o f := by
  unfold IsMet WriteOptions.pathOf
  rw [placeOf_join t hf, placeOf_dirname_join t hf]
  rintro (hplace | ⟨hroot, hdirname⟩)
  · exact hplace (h.look_append (segments_ne_nil f.path))
  · exact hdirname (h.look_append fun hnil => hroot (by rw [hnil, List.append_nil]))

/-- No file is on the way to the directory of a scaffold, because nothing stood below the output
directory and what the run has made there is beside the scaffold. -/
theorem Carried.no_file_on_way (h : Carried t o (fun _ => .written) done r)
    (hempty : t.IsEmptyDir o.dir) (hfiles : SetApart (done ++ f :: rest)) {q : List String}
    (hq : q <+: t.placeOf (dirname (o.pathOf f))) (c : Content) : r.tree.look q ≠ .file c := by
  intro hfile
  have hf := hfiles.isName_head
  have hfolder : r.tree.look q = .folder := by
    rcases h.made q (by simp [hfile]) with hold | ⟨g, hg, rfl | ⟨-, habove⟩⟩
    · rw [WriteOptions.pathOf, placeOf_dirname_join t hf] at hq
      exact h.stays.folder q (hempty.look_of_prefix hq hold)
    · exact absurd (hq.trans (dir_prefix_place hf)) (hfiles.beside hg t o).1
    · -- the file of an earlier scaffold is below
      refine look_of_prefix_dirname (hfiles.isName g (by simp [hg])) ?_ habove
      simp [h.written g hg rfl]
  rw [hfolder] at hfile
  cases hfile

/-- One more scaffold is written. -/
theorem Carried.handle_of_isEmptyDir (ht : t.Housed) (h : Carried t o (fun _ => .written) done r)
    (hempty : t.IsEmptyDir o.dir) (hfiles : SetApart (done ++ f :: rest)) (hfits : FitsIn t o f) :
    Carried t o (fun _ => .written) (done ++ [f]) (r.handle o f) := by
  have hf := hfiles.isName_head
  have hmet := not_isMet_of_isEmptyDir hempty hf
  have hfree : isTaken o r (o.pathOf f) = false := by
    rw [Bool.eq_false_iff]
    exact fun htaken => hmet (h.isMet_of_isTaken ht hfiles htaken)
  have hplace : r.tree.look (t.placeOf (o.pathOf f)) ≠ .folder := fun hl =>
    hmet (.inl (h.look_place hfiles (by simp [hl])))
  refine h.handle ht hfiles ?_ (by simp [hfree])
  refine (hfits.of_stays h.stays).error_handle (h.stays.housed ht) (h.stays.isDir hempty.isDir) hf
    (fun q hq => h.no_file_on_way hempty hfiles ?_) ?_ h.error (.inr hfree)
  · rwa [h.stays.placeOf] at hq
  · rwa [h.stays.placeOf]

theorem Carried.foldl_of_isEmptyDir (ht : t.Housed) (h : Carried t o (fun _ => .written) done r)
    (hempty : t.IsEmptyDir o.dir) (hfiles : SetApart (done ++ files))
    (hfits : ∀ f ∈ files, FitsIn t o f) :
    Carried t o (fun _ => .written) (done ++ files) (files.foldl (Run.handle o) r) := by
  induction files generalizing r done with
  | nil => simpa using h
  | cons f fs ih =>
    have hstep := h.handle_of_isEmptyDir ht hempty hfiles (hfits f (by simp))
    have hsplit : done ++ f :: fs = (done ++ [f]) ++ fs := by simp
    rw [hsplit] at hfiles ⊢
    exact ih hstep hfiles fun f' hf' => hfits f' (by simp [hf'])

/-- All scaffolds that are set apart and fit are written into an empty directory. -/
theorem carried_writeResolvers (ht : t.Housed) (hempty : t.IsEmptyDir o.dir)
    (hfiles : SetApart files) (hfits : ∀ f ∈ files, FitsIn t o f) :
    Carried t o (fun _ => .written) files (writeResolvers t files o) ∧
      Reported t (writeResolvers t files o) := by
  have hm := makeDirs_of_isDir hempty.isDir
  have hstart : Carried t o (fun _ => .written) [] ⟨t, _, [], none⟩ := .start ht hm
  have hend := hstart.foldl_of_isEmptyDir ht hempty hfiles hfits
  have hreport : Reported t ⟨t, missingDirs t (t.absolute o.dir).toList, [], none⟩ :=
    ⟨.refl t, by simp, fun _ _ _ => .rfl⟩
  rw [writeResolvers, hm]
  exact ⟨hend, hreport.foldl hend.error⟩

/-! ## What is on the disk -/

/-- The run has written each scaffold, and no other file. -/
structure WritesEach (t : FileTree) (o : WriteOptions) (files : List CodeFile) (r : Run) : Prop
    where
  error : r.error = none
  handled : r.handled = files.map fun f => (.written, o.pathOf f)
  read : ∀ f ∈ files,
    r.tree.read (o.pathOf f) = .ok (.text (fillPlaceholder f.code o.typesPath))
  kept : ∀ ss c, (∀ f ∈ files, ss ≠ t.placeOf (o.pathOf f)) →
    (r.tree.look ss = .file c ↔ t.look ss = .file c)

theorem writesEach_writeResolvers (ht : t.Housed) (hempty : t.IsEmptyDir o.dir)
    (hfiles : SetApart files) (hfits : ∀ f ∈ files, FitsIn t o f) :
    WritesEach t o files (writeResolvers t files o) := by
  obtain ⟨h, hreport⟩ := carried_writeResolvers ht hempty hfiles hfits
  refine ⟨h.error, h.handled, fun f hf => ?_, fun ss c hss => hreport.kept ss c fun p hp => ?_⟩
  · refine hreport.read ?_ (h.written f hf rfl)
    rw [h.handled]
    exact List.mem_map_of_mem hf
  · rw [h.handled] at hp
    obtain ⟨f, hf, heq⟩ := List.mem_map.1 hp
    obtain ⟨-, rfl⟩ := Prod.mk.inj heq
    exact hss f hf

/-- The run has written each scaffold of `init`.  It has skipped one behind them that has the path
of the scaffold `first`, or put it in the place of that one. -/
structure WritesShared (o : WriteOptions) (init : List CodeFile) (first last : CodeFile) (r : Run) :
    Prop where
  error : r.error = none
  handled : r.handled = (init.map fun f => (.written, o.pathOf f)) ++
    [(if o.force then .written else .skipped, o.pathOf last)]
  read : ∀ f ∈ init, f.path ≠ last.path →
    r.tree.read (o.pathOf f) = .ok (.text (fillPlaceholder f.code o.typesPath))
  shared : r.tree.read (o.pathOf last) =
    .ok (.text (fillPlaceholder (if o.force then last else first).code o.typesPath))

theorem writeResolvers_concat (t : FileTree) (init : List CodeFile) (last : CodeFile)
    (o : WriteOptions) :
    writeResolvers t (init ++ [last]) o = (writeResolvers t init o).handle o last := by
  unfold writeResolvers
  split
  · simp [Run.handle]
  · rw [List.foldl_append]
    rfl

theorem FitsIn.congr (h : FitsIn t o f) (hpath : f.path = g.path) : FitsIn t o g := by
  obtain ⟨h1, h2, h3⟩ := h
  rw [pathOf_congr hpath] at h1 h2 h3
  exact ⟨h1, h2, h3⟩

section

variable {init : List CodeFile} {first last : CodeFile} (hfirst : first ∈ init)
  (hpath : first.path = last.path)

include hfirst hpath

/-- A scaffold with the path of an earlier one is taken for one that was there. -/
theorem WritesEach.skip (h : WritesEach t o init r) (hlast : last.force = false)
    (hforce : o.force = false) :
    WritesShared o init first last (r.handle o last) := by
  have hread := h.read first hfirst
  rw [pathOf_congr hpath] at hread
  have htaken : isTaken o r (o.pathOf last) = true := by
    obtain ⟨hr, hl⟩ := read_eq_ok_iff.1 hread
    exact isTaken_iff.2 (.inl (exists?_iff.2 ⟨hr, by simp [hl]⟩))
  rw [handle_eq_skip h.error (by simp [isForced, hforce, hlast]) htaken]
  exact ⟨h.error, by simp [h.handled, hforce], fun f hf _ => h.read f hf, by simpa [hforce]⟩

/-- A forced scaffold with the path of an earlier one replaces it. -/
theorem WritesEach.replace (h : WritesEach t o init r) (hstays : Stays t r.tree) (ht : t.Housed)
    (hdir : t.isDir o.dir = true) (hnames : ∀ f ∈ init, ∀ s ∈ segments f.path, IsName s)
    (hfits : FitsIn t o first) (hforce : o.force = true) :
    WritesShared o init first last (r.handle o last) := by
  have hname : ∀ s ∈ segments last.path, IsName s := hpath ▸ hnames first hfirst
  have hforced : isForced o last = true := by simp [isForced, hforce]
  have hread := h.read first hfirst
  rw [pathOf_congr hpath] at hread
  have hthere := (read_eq_ok_iff.1 hread).2
  have herror : (r.handle o last).error = none := by
    refine ((hfits.congr hpath).of_stays hstays).error_handle (hstays.housed ht)
      (hstays.isDir hdir) hname (fun q hq c hfile => ?_) (by simp [hthere]) h.error (.inl hforced)
    rw [look_of_prefix_dirname hname (by simp [hthere]) hq] at hfile
    cases hfile
  obtain ⟨-, ⟨hunforced, -, -⟩ | ⟨-, t1, missing, t', hm, hw, he⟩⟩ := handle_cases herror
  · rw [hforced] at hunforced
    cases hunforced
  rw [he]
  refine ⟨rfl, by simp [h.handled, hforce], fun f hf hne => ?_, ?_⟩
  · have hplace := place_ne (hnames f hf) hname hne t1 o
    exact read_of_write_of_ne hw hplace ((grows_of_makeDirs hm).read (h.read f hf))
  · simpa [hforce] using read_of_write hw

/-- The last scaffold has the path of an earlier one. -/
theorem writesShared_writeResolvers (ht : t.Housed) (hempty : t.IsEmptyDir o.dir)
    (hfiles : SetApart init) (hfits : ∀ f ∈ init, FitsIn t o f) (hlast : last.force = false) :
    WritesShared o init first last (writeResolvers t (init ++ [last]) o) := by
  rw [writeResolvers_concat]
  have heach := writesEach_writeResolvers ht hempty hfiles hfits
  cases hforce : o.force with
  | false => exact heach.skip hfirst hpath hlast hforce
  | true =>
    exact heach.replace hfirst hpath (carried_writeResolvers ht hempty hfiles hfits).1.stays ht
      hempty.isDir hfiles.isName (hfits first hfirst) hforce

end

end

end ResolverKit.Output

namespace ResolverKit.Code

open Sdl (Document)
open Output

/-- The scaffolds of an accepted schema have different paths, and are all written into an empty
directory, exactly if no type is called as the file that collects the resolvers.  If one is, this
file is skipped, or takes the place of the scaffold of the type. -/
theorem scaffolds_in_empty_directory (lang : Language) (layout : Option LayoutOptions)
    {d : Document} {s : Schema} {bindings : Model.Bindings} (hd : d.IsNamed)
    (hs : Schema.ofDocument d = .ok s)
    (hm : Model.checkTypes bindings (s.types.map (·.name)) = .ok ()) :
    ∃ g, generate d bindings layout lang.name = .ok g ∧
      g.resolvers.map (·.path) = (s.objects.map (·.name)).map (typePath lang) ++
        [contextFilePath lang, typePath lang "index"] ∧
      ((g.resolvers.map (·.path)).Nodup ↔ "index" ∉ s.objects.map (·.name)) ∧
      ∀ (t : FileTree) (o : WriteOptions), t.Housed → t.IsEmptyDir o.dir →
        (∀ f ∈ g.resolvers, FitsIn t o f) →
          ("index" ∉ s.objects.map (·.name) →
            WritesEach t o g.resolvers (writeResolvers t g.resolvers o)) ∧
          ("index" ∈ s.objects.map (·.name) →
            ∃ init first last, g.resolvers = init ++ [last] ∧ first ∈ init ∧
              first.path = last.path ∧
              WritesShared o init first last (writeResolvers t g.resolvers o)) := by
  have hnamed := Schema.isNamed_of_ofDocument hd hs
  have hobject : ∀ n ∈ s.objects.map (·.name), Sdl.IsName n := by
    intro n hn
    obtain ⟨x, hx, rfl⟩ := List.mem_map.1 hn
    exact (hnamed.types x (List.mem_of_mem_filter hx)).1
  have hnodup := nodup_objectNames (nodup_entryNames hs)
  obtain ⟨g, hg, hresolvers⟩ := exists_generate lang layout hs hm
  have hpaths := map_path_scaffolds lang layout (.of s bindings)
  have hscaffold : ∀ f ∈ g.resolvers, IsScaffoldPath lang f.path := fun f hf =>
    isScaffoldPath_of_mem (by exact hnamed) (hresolvers ▸ hf)
  rw [← hresolvers] at hpaths
  have hdistinct : (g.resolvers.map (·.path)).Nodup ↔ "index" ∉ s.objects.map (·.name) := by
    rw [hpaths]
    exact nodup_paths_iff hnodup hobject
  refine ⟨g, hg, hpaths, hdistinct, fun t o ht hempty hfits => ⟨fun hindex => ?_, fun hindex => ?_⟩⟩
  · exact writesEach_writeResolvers ht hempty
      (setApart_of_nodup hscaffold (hdistinct.2 hindex)) hfits
  · -- the scaffold of the type is found where the last file belongs
    obtain ⟨x, hx, hname⟩ := List.mem_map.1 hindex
    rw [map_laidFile_scaffolds] at hresolvers
    have hown : ∀ f ∈ ownFiles lang layout (.of s bindings), f ∈ g.resolvers := fun f hf => by
      rw [hresolvers]
      exact List.mem_append_left _ hf
    have hapart : SetApart (ownFiles lang layout (.of s bindings)) := by
      refine setApart_of_nodup (fun f hf => hscaffold f (hown f hf)) ?_
      rw [map_path_ownFiles]
      exact nodup_ownPaths hnodup hobject
    have hfirst : laidFile layout (typeFile lang (.of s bindings) x) ∈
        ownFiles lang layout (.of s bindings) :=
      List.mem_map_of_mem (List.mem_append_left _ (List.mem_map_of_mem hx))
    have hpath : (laidFile layout (typeFile lang (.of s bindings) x)).path =
        (laidFile layout (indexFile lang (s.objects.map (·.name)))).path := by
      simp [laidFile, typeFile, indexFile, hname]
    refine ⟨_, _, _, hresolvers, hfirst, hpath, ?_⟩
    rw [hresolvers]
    exact writesShared_writeResolvers hfirst hpath ht hempty hapart
      (fun f hf => hfits f (hown f hf)) rfl

/-- A type called as the file that collects the resolvers. -/
def indexDocument : Document :=
  [.type none "index" [] (.object [] [⟨none, "id", [], .named "ID" true, []⟩])]

/-- A working directory with an empty directory in it. -/
def emptyTree : FileTree := ⟨.dir [("work", .dir [("out", .dir [])])], ["work"]⟩

theorem scaffolds_in_empty_directory_indexDocument :
    indexDocument.IsNamed ∧ Schema.ofDocument indexDocument = .ok (Schema.merged indexDocument) ∧
      Model.checkTypes [] ((Schema.merged indexDocument).types.map (·.name)) = .ok () ∧
      emptyTree.Housed ∧ emptyTree.IsEmptyDir "out" ∧
      ∃ g, generate indexDocument [] none "typescript" = .ok g ∧
        ∀ force,
          let o : WriteOptions := ⟨"out", "./types", force⟩
          (∀ f ∈ g.resolvers, FitsIn emptyTree o f) ∧
            (writeResolvers emptyTree g.resolvers o).handled =
              [(.written, "out/index.ts"), (.written, "out/types/Context.ts"),
                (if force then .written else .skipped, "out/index.ts")] := by
  have hd : indexDocument.IsNamed := by decide +kernel
  have hs : Schema.ofDocument indexDocument = .ok (Schema.merged indexDocument) := rfl
  have hm : Model.checkTypes [] ((Schema.merged indexDocument).types.map (·.name)) = .ok () := rfl
  have ht : emptyTree.Housed := by decide
  have hempty : emptyTree.IsEmptyDir "out" := rfl
  obtain ⟨g, hg, hpaths, -, hrun⟩ := scaffolds_in_empty_directory .typescript none hd hs hm
  refine ⟨hd, hs, hm, ht, hempty, g, hg, fun force => ?_⟩
  have hpaths' : g.resolvers.map (·.path) = ["index.ts", "types/Context.ts", "index.ts"] := by
    rw [hpaths]
    decide +kernel
  have hfits : ∀ f ∈ g.resolvers, FitsIn emptyTree ⟨"out", "./types", force⟩ f := by
    intro f hf
    have hmem : f.path ∈ ["index.ts", "types/Context.ts", "index.ts"] :=
      hpaths' ▸ List.mem_map_of_mem hf
    have hpart : ∀ p ∈ ["index.ts", "types/Context.ts", "index.ts"],
        FitsIn emptyTree ⟨"out", "./types", force⟩ ⟨p, "", false⟩ := by
      cases force <;> decide +kernel
    exact (hpart f.path hmem).congr rfl
  obtain ⟨init, first, last, hsplit, -, -, hshared⟩ :=
    (hrun emptyTree ⟨"out", "./types", force⟩ ht hempty hfits).2 (by decide +kernel)
  obtain ⟨hinit, hlast⟩ : init.map (·.path) = ["index.ts", "types/Context.ts"] ∧
      last.path = "index.ts" := by
    have hparts : init.map (·.path) ++ [last.path] =
        ["index.ts", "types/Context.ts"] ++ ["index.ts"] := by
      simpa [hsplit] using hpaths'
    simpa using List.append_inj' hparts rfl
  have hwritten : init.map (fun f => (FileState.written, Path.join "out" f.path)) =
      (init.map (·.path)).map fun p => (.written, Path.join "out" p) := by simp
  refine ⟨hfits, ?_⟩
  rw [hshared.handled]
  unfold WriteOptions.pathOf
  rw [hwritten, hinit, hlast]
  cases force <;> decide +kernel

end ResolverKit.Code
