import ResolverKit.Output.Writer
import ResolverKit.Proofs.FileTree

/-!
# Files that stay

Writing scaffolds that are not forced destroys nothing, however the run ends:

    (∀ f ∈ files, f.force = false) → o.force = false →
      KeepsFiles t (writeResolvers t files o).tree                   (keepsFiles_writeResolvers)

A scaffold is written only if its path leads nowhere.  That alone is not enough, because the
directories that are made for it could let the path lead to a file that was there all along.  But
they all lie on the way to the scaffold's directory, and if that directory holds a file already
then none of them is missing (`keepsFiles_write`).
-/

namespace ResolverKit.Output

open Path FileTree

/-! ## Files and directories -/

/-- Every file of the first tree stands in the second, unchanged. -/
structure KeepsFiles (t t' : FileTree) : Prop where
  cwd : t'.cwd = t.cwd
  look : ∀ ss c, t.look ss = .file c → t'.look ss = .file c

theorem KeepsFiles.refl (t : FileTree) : KeepsFiles t t := ⟨rfl, fun _ _ h => h⟩

theorem KeepsFiles.trans {t t' t'' : FileTree} (h : KeepsFiles t t') (h' : KeepsFiles t' t'') :
    KeepsFiles t t'' :=
  ⟨h'.cwd.trans h.cwd, fun ss c hc => h'.look ss c (h.look ss c hc)⟩

theorem keepsFiles_of_grows {way : List String → Prop} {t t' : FileTree} (h : Grows way t t') :
    KeepsFiles t t' :=
  ⟨h.cwd, fun _ _ => h.look_file⟩

theorem grows_makeDirs (t : FileTree) (path : String) :
    Grows (t.OnWay path.toList) t (makeDirs t path).1 := by
  have h := FileTree.grows_makeDirs t path.toList
  unfold makeDirs
  split <;> simp_all

/-- A written file, or a tree as it was. -/
theorem writeFile_cases (t : FileTree) (path text : String) :
    t.write path text = .ok (writeFile t path text).1 ∨ (writeFile t path text).1 = t := by
  unfold writeFile
  split
  · next h => exact .inl h
  · exact .inr rfl

/-! ## The types file -/

/-- The types file is the only file that writing it may change. -/
theorem look_writeTypes (t : FileTree) (types path : String) :
    (writeTypes t types path).1.cwd = t.cwd ∧
      ∀ ss c, t.look ss = .file c →
        ∃ c', (writeTypes t types path).1.look ss = .file c' ∧ (ss ≠ t.placeOf path → c' = c) := by
  have hwrite : ∀ {way : List String → Prop} {t' : FileTree}, Grows way t t' →
      (writeFile t' path types).1.cwd = t.cwd ∧
        ∀ ss c, t.look ss = .file c →
          ∃ c', (writeFile t' path types).1.look ss = .file c' ∧
            (ss ≠ t.placeOf path → c' = c) := by
    intro way t' hg
    rcases writeFile_cases t' path types with hw | hw
    · obtain ⟨hcwd, hlook⟩ := look_write hw
      refine ⟨hcwd.trans hg.cwd, fun ss c hc => ?_⟩
      rw [hlook, hg.placeOf]
      by_cases hss : ss = t.placeOf path
      · exact ⟨.text types, by simp [hss], fun hne => absurd hss hne⟩
      · exact ⟨c, by simp [hss, hg.look_file hc], fun _ => rfl⟩
    · rw [hw]
      exact ⟨hg.cwd, fun ss c hc => ⟨c, hg.look_file hc, fun _ => rfl⟩⟩
  unfold writeTypes
  simp only
  split
  · exact hwrite (.refl (fun _ => False) t)
  · have hg := grows_makeDirs t (dirname path)
    split
    · next t' _ hm =>
      rw [hm] at hg
      exact hwrite hg
    · next t' e hm =>
      rw [hm] at hg
      exact ⟨hg.cwd, fun ss c hc => ⟨c, hg.look_file hc, fun _ => rfl⟩⟩

/-! ## Scaffolds -/

/-- The directories made for a path lie on the way to its directory. -/
theorem prefix_of_onWay_parentDir {t : FileTree} (ht : t.Housed) {path : String} {ss : List String}
    (h : t.OnWay (parentDir t path).toList ss) : ss <+: t.placeOf (dirname path) := by
  obtain ⟨q, hq, rfl⟩ := h
  have hstart : t.startOf (String.ofList (parentDir t path).toList) = [] := by
    simp [startOf, parentDir, isAbsolute_absolute]
  rw [hstart, foldl_climb_of_isName fun s hs => isName_of_mem_absolute (hq.subset hs),
    List.nil_append, ← names_absolute ht]
  exact hq

/-- The directory part of a path that a file can be written to leads to the file's directory. -/
theorem placeOf_dirname_of_target {t : FileTree} {p name : String} {here : List String}
    (h : t.target p = .ok (here, some name, false)) : t.placeOf (dirname p) = here := by
  obtain ⟨before, rest, hp, -, hrest, -, hw, -⟩ := exists_segments_of_target h
  rw [hrest rfl] at hp
  have hstart : t.startOf (dirname p) = t.startOf p := by simp [startOf, isAbsolute_dirname]
  rw [placeOf_eq_names, names_dirname hp, foldl_climb_filter, hstart]
  exact (eq_foldl_climb_of_walk hw).symm

/-- If a file stands where a path leads in the tree with the directories above it, then the path
led there before. -/
theorem exists?_of_write_of_grows {t t' t'' : FileTree} (ht : t.Housed) {path text : String}
    (hg : Grows (t.OnWay (parentDir t path).toList) t t') (hw : t'.write path text = .ok t'')
    {c : Content} (hc : t.look (t.placeOf path) = .file c) : t.exists? path = true := by
  obtain ⟨here, name, htarget, -⟩ := exists_target_of_write hw
  have hplace : t.placeOf path = here ++ [name] := by
    rw [← hg.placeOf]
    exact placeOf_eq_of_target htarget
  have hdir : t.placeOf (dirname path) = here := by
    rw [← hg.placeOf]
    exact placeOf_dirname_of_target htarget
  have hstands : ∀ ss, t.OnWay (parentDir t path).toList ss → t.look ss ≠ .nothing := by
    intro ss hss
    obtain ⟨r, hr⟩ := prefix_of_onWay_parentDir ht hss
    have hfolder : t.look ss = .folder := by
      refine Node.look_of_look_append (b := r ++ [name]) (by simp) ?_
      rw [← List.append_assoc, hr, hdir, ← hplace]
      show t.look _ ≠ _
      simp [hc]
    simp [hfolder]
  have hsame := hg.look_eq hstands
  have hexists : t'.exists? path = true := by
    refine exists?_of_write hw ?_
    rw [hg.placeOf, hsame, hc]
    simp
  have hresolve : t'.resolve path = t.resolve path := by
    unfold resolve
    rw [hg.startOf]
    split
    · rfl
    · exact walk_congr hsame _ _
  rw [exists?_iff, hresolve, hg.placeOf, hsame] at hexists
  exact exists?_iff.2 hexists

/-- Writing a scaffold whose path leads nowhere keeps every file. -/
theorem keepsFiles_write {o : WriteOptions} {r : Run} {f : Code.CodeFile} (ht : r.tree.Housed)
    (hfree : r.tree.exists? (o.pathOf f) = false) : KeepsFiles r.tree (r.write o f).tree := by
  have hg := grows_makeDirs r.tree (parentDir r.tree (o.pathOf f))
  unfold Run.write
  simp only
  split
  · next t e hm =>
    rw [hm] at hg
    exact keepsFiles_of_grows hg
  · next t missing hm =>
    rw [hm] at hg
    have hfile : KeepsFiles r.tree
        (writeFile t (o.pathOf f) (fillPlaceholder f.code o.typesPath)).1 := by
      rcases writeFile_cases t (o.pathOf f) (fillPlaceholder f.code o.typesPath) with hw | hw
      · obtain ⟨hcwd, hlook⟩ := look_write hw
        refine ⟨hcwd.trans hg.cwd, fun ss c hc => ?_⟩
        rw [hlook, hg.placeOf]
        by_cases hss : ss = r.tree.placeOf (o.pathOf f)
        · rw [hss] at hc
          rw [exists?_of_write_of_grows ht hg hw hc] at hfree
          cases hfree
        · simp [hss, hg.look_file hc]
      · rw [hw]
        exact keepsFiles_of_grows hg
    split
    · next t' hw =>
      rw [hw] at hfile
      exact hfile
    · next t' e hw =>
      rw [hw] at hfile
      exact hfile

/-- One scaffold that is not forced. -/
theorem keepsFiles_handle {o : WriteOptions} {r : Run} {f : Code.CodeFile} (ht : r.tree.Housed)
    (ho : o.force = false) (hf : f.force = false) : KeepsFiles r.tree (r.handle o f).tree := by
  unfold Run.handle
  split_ifs with herror htaken
  · exact .refl _
  · exact .refl _
  · refine keepsFiles_write ht ?_
    have hfree : isTaken o r (o.pathOf f) = false := by simpa [ho, hf] using htaken
    unfold isTaken at hfree
    simp only [Bool.or_eq_false_iff] at hfree
    exact hfree.1

/-- All scaffolds, whether the run gets to the end of the list or not. -/
theorem keepsFiles_foldl_handle {o : WriteOptions} (ho : o.force = false)
    {files : List Code.CodeFile} (hf : ∀ f ∈ files, f.force = false) {r : Run}
    (ht : r.tree.Housed) : KeepsFiles r.tree (files.foldl (Run.handle o) r).tree := by
  induction files generalizing r with
  | nil => exact .refl _
  | cons f fs ih =>
    have hstep := keepsFiles_handle ht ho (hf f (by simp))
    have ht' : (r.handle o f).tree.Housed := by simpa [Housed, hstep.cwd] using ht
    exact hstep.trans (ih (fun f' hf' => hf f' (by simp [hf'])) ht')

theorem keepsFiles_writeResolvers {t : FileTree} (ht : t.Housed) {files : List Code.CodeFile}
    (hf : ∀ f ∈ files, f.force = false) {o : WriteOptions} (ho : o.force = false) :
    KeepsFiles t (writeResolvers t files o).tree := by
  have hg := grows_makeDirs t o.dir
  unfold writeResolvers
  split
  · next t' e hm =>
    rw [hm] at hg
    exact keepsFiles_of_grows hg
  · next t' missing hm =>
    rw [hm] at hg
    have hkeep : KeepsFiles t t' := keepsFiles_of_grows hg
    have ht' : t'.Housed := hg.housed ht
    exact hkeep.trans (keepsFiles_foldl_handle ho hf (r := ⟨t', missing, [], none⟩) ht')

end ResolverKit.Output
