import ResolverKit.Proofs.Presence
import ResolverKit.Proofs.Writer

/-!
# Writing twice

The write phase, the types file and then the scaffolds, can be repeated: the second time it
succeeds, leaves everything as it is, writes the forced scaffolds and skips all others.

    writePhase t types path files o = some r → … →
      ∃ r', writePhase r.tree types path files o = some r' ∧
        ∀ ss, r'.tree.look ss = r.tree.look ss                             (writePhase_again)

The second run goes through other states than the first, because the scaffolds that the first run
adds are there from its start and because the types file is put back in between.  `Repeats` relates
the states of both runs behind the same scaffolds: the second holds the same files and directories
as the final tree of the first, each file with what it finally holds or with what it holds at this
point of the first run.  One scaffold preserves this (`Repeats.handle`), and so do all of them.

An output directory whose path ends in a dot has to be there after the first time; making such a
path may succeed without it (`writePhase_not_repeatable`).
-/

namespace ResolverKit.Output

open Path FileTree
open Code (CodeFile)

/-! ## Steps of the writer -/

theorem write_of_writeFile {t t' : FileTree} {path text : String}
    (h : writeFile t path text = (t', none)) : t.write path text = .ok t' := by
  unfold writeFile at h
  split at h
  · next t1 hw =>
    obtain ⟨rfl, -⟩ := Prod.mk.inj h
    exact hw
  · cases (Prod.mk.inj h).2

theorem writeFile_of_write {t t' : FileTree} {path text : String}
    (h : t.write path text = .ok t') : writeFile t path text = (t', none) := by
  simp [writeFile, h]

theorem makeDirs_eq_ok {t t' : FileTree} {path : String} {missing : List String}
    (h : makeDirs t path = (t', .ok missing)) :
    t.makeDirs path.toList = (t', none) ∧
      missing = missingDirs t (t.absolute path).toList := by
  unfold makeDirs at h
  simp only at h
  split at h
  · next t1 hm =>
    simp only [Prod.mk.injEq, Except.ok.injEq] at h
    exact ⟨by rw [hm, h.1], h.2.symm⟩
  · cases (Prod.mk.inj h).2

theorem grows_of_makeDirs {t t' : FileTree} {path : String} {missing : List String}
    (h : makeDirs t path = (t', .ok missing)) : Grows (t.OnWay path.toList) t t' := by
  have hgrows := grows_makeDirs t path
  rwa [h] at hgrows

theorem isDir_of_makeDirs_eq {t t' : FileTree} {path : String} {missing : List String}
    (h : makeDirs t path = (t', .ok missing)) (hdot : ¬ EndsInDot path.toList) :
    t'.isDir path = true := by
  simpa using isDir_of_makeDirs (makeDirs_eq_ok h).1 hdot

/-- Making a directory that is there leaves the tree as it is. -/
theorem makeDirs_of_isDir {t : FileTree} {path : String} (h : t.isDir path = true) :
    makeDirs t path = (t, .ok (missingDirs t (t.absolute path).toList)) := by
  have hm : t.makeDirs path.toList = (t, none) := FileTree.makeDirs_of_isDir (by simpa using h)
  simp [makeDirs, hm]

theorem exists?_of_mem_missingDirs {t : FileTree} {p : List Char} {d : String}
    (h : d ∈ missingDirs t p) : t.exists? d = false := by
  fun_induction missingDirs t p with
  | case1 => cases h
  | case2 p hp hlast =>
    obtain rfl : d = String.ofList p := by simpa using h
    have hnot : p ≠ [] ∧ t.exists? (String.ofList p) = false := by simpa using hp
    exact hnot.2
  | case3 p hp hlast ih =>
    have hnot : p ≠ [] ∧ t.exists? (String.ofList p) = false := by simpa using hp
    rcases List.mem_cons.1 h with rfl | h
    · exact hnot.2
    · exact ih h

theorem not_endsInDot_absolute (t : FileTree) (p : String) :
    ¬ EndsInDot (t.absolute p).toList :=
  not_endsInDot fun hdot => (isName_of_mem_absolute hdot).ne_dot rfl

/-- Writing a file that is there makes nothing new. -/
theorem stays_of_write_again {t t' : FileTree} {path text : String} (h : t.write path text = .ok t')
    (hfile : ∃ c, t.look (t.placeOf path) = .file c) : Stays t' t := by
  obtain ⟨hcwd, hlook⟩ := look_write h
  refine ⟨hcwd.symm, fun ss hs => ?_, fun ss c hs => ?_⟩
  · rw [hlook] at hs
    split at hs
    · cases hs
    · exact hs
  · rw [hlook] at hs
    split at hs
    · next hss => rwa [hss]
    · exact ⟨c, hs⟩

/-! ## One scaffold -/

/-- The scaffold is written in any case. -/
def isForced (o : WriteOptions) (f : CodeFile) : Bool := o.force || f.force

theorem isTaken_iff {o : WriteOptions} {r : Run} {path : String} :
    isTaken o r path = true ↔ r.tree.exists? path = true ∨
      (parentDir r.tree path ≠ r.tree.absolute o.dir ∧ parentDir r.tree path ∉ r.created ∧
        r.tree.exists? (parentDir r.tree path) = true) := by
  simp [isTaken, and_assoc]

theorem parentDir_of_stays {t t' : FileTree} (h : Stays t t') (path : String) :
    parentDir t' path = parentDir t path :=
  h.absolute _

/-- A scaffold that is written has its directory made first. -/
theorem write_cases {o : WriteOptions} {r : Run} {f : CodeFile} (h : (r.write o f).error = none) :
    ∃ t missing t', makeDirs r.tree (parentDir r.tree (o.pathOf f)) = (t, .ok missing) ∧
      t.write (o.pathOf f) (fillPlaceholder f.code o.typesPath) = .ok t' ∧
      r.write o f = ⟨t', missing ++ r.created, r.handled ++ [(.written, o.pathOf f)], none⟩ := by
  unfold Run.write at h ⊢
  simp only at h ⊢
  cases hm : makeDirs r.tree (parentDir r.tree (o.pathOf f)) with
  | mk t result =>
    cases result with
    | error e =>
      rw [hm] at h
      cases h
    | ok missing =>
      rw [hm] at h
      simp only at h ⊢
      cases hw : writeFile t (o.pathOf f) (fillPlaceholder f.code o.typesPath) with
      | mk t' failure =>
        cases failure with
        | some e =>
          rw [hw] at h
          cases h
        | none => exact ⟨t, missing, t', rfl, write_of_writeFile hw, rfl⟩

/-- All that handling a scaffold can do without failing. -/
theorem handle_cases {o : WriteOptions} {r : Run} {f : CodeFile}
    (h : (r.handle o f).error = none) :
    r.error = none ∧
      ((isForced o f = false ∧ isTaken o r (o.pathOf f) = true ∧
          r.handle o f = { r with handled := r.handled ++ [(.skipped, o.pathOf f)] }) ∨
        ((isForced o f = true ∨ isTaken o r (o.pathOf f) = false) ∧
          ∃ t missing t', makeDirs r.tree (parentDir r.tree (o.pathOf f)) = (t, .ok missing) ∧
            t.write (o.pathOf f) (fillPlaceholder f.code o.typesPath) = .ok t' ∧
            r.handle o f =
              ⟨t', missing ++ r.created, r.handled ++ [(.written, o.pathOf f)], none⟩)) := by
  unfold Run.handle at h ⊢
  split at h
  · next herror =>
    rw [h] at herror
    cases herror
  · next herror =>
    refine ⟨by simpa using herror, ?_⟩
    rw [if_neg herror]
    split at h
    · next htaken =>
      rw [Bool.and_eq_true, Bool.not_eq_true'] at htaken
      exact .inl ⟨htaken.1, htaken.2, by rw [if_pos (by simp [htaken.1, htaken.2])]⟩
    · next htaken =>
      have hfree : isForced o f = true ∨ isTaken o r (o.pathOf f) = false := by
        unfold isForced
        cases hf : o.force || f.force with
        | true => exact .inl rfl
        | false => exact .inr (by simpa [hf] using htaken)
      rw [if_neg htaken]
      exact .inr ⟨hfree, write_cases h⟩

theorem stays_handle {o : WriteOptions} {r : Run} {f : CodeFile}
    (h : (r.handle o f).error = none) : Stays r.tree (r.handle o f).tree := by
  obtain ⟨-, ⟨-, -, he⟩ | ⟨-, t, missing, t', hm, hw, he⟩⟩ := handle_cases h
  · rw [he]
    exact .refl _
  · rw [he]
    exact (Stays.of_grows (grows_of_makeDirs hm)).trans (stays_write hw)

theorem handle_eq_skip {o : WriteOptions} {r : Run} {f : CodeFile} (hr : r.error = none)
    (hforced : isForced o f = false) (htaken : isTaken o r (o.pathOf f) = true) :
    r.handle o f = { r with handled := r.handled ++ [(.skipped, o.pathOf f)] } := by
  unfold isForced at hforced
  simp [Run.handle, hr, hforced, htaken]

theorem handle_eq_write {o : WriteOptions} {r : Run} {f : CodeFile} {t t' : FileTree}
    {missing : List String} (hr : r.error = none)
    (hfree : isForced o f = true ∨ isTaken o r (o.pathOf f) = false)
    (hm : makeDirs r.tree (parentDir r.tree (o.pathOf f)) = (t, .ok missing))
    (hw : t.write (o.pathOf f) (fillPlaceholder f.code o.typesPath) = .ok t') :
    r.handle o f = ⟨t', missing ++ r.created, r.handled ++ [(.written, o.pathOf f)], none⟩ := by
  have hgoes : ¬ (!(o.force || f.force) && isTaken o r (o.pathOf f)) = true := by
    unfold isForced at hfree
    rcases hfree with h | h <;> simp [h]
  rw [Run.handle, if_neg (by simp [hr]), if_neg hgoes]
  simp [Run.write, hm, writeFile_of_write hw]

/-- A run that has not failed did not fail at an earlier scaffold. -/
theorem error_of_foldl_handle {o : WriteOptions} {files : List CodeFile} {r : Run}
    (h : (files.foldl (Run.handle o) r).error = none) : r.error = none := by
  induction files generalizing r with
  | nil => exact h
  | cons f fs ih => exact (handle_cases (ih h)).1

theorem stays_foldl_handle {o : WriteOptions} {files : List CodeFile} {r : Run}
    (h : (files.foldl (Run.handle o) r).error = none) :
    Stays r.tree (files.foldl (Run.handle o) r).tree := by
  induction files generalizing r with
  | nil => exact .refl _
  | cons f fs ih => exact (stays_handle (error_of_foldl_handle h)).trans (ih h)

/-! ## The same scaffold a second time -/

/-- The states `r` of a run that ends with the tree `t`, and `v` of a second run over the same
scaffolds, both behind the same scaffolds. -/
structure Repeats (t : FileTree) (r v : Run) : Prop where
  error : v.error = none
  stays : Stays t v.tree
  back : Stays v.tree t
  created : ∀ d ∈ v.created, v.tree.exists? d = false
  look : ∀ ss, v.tree.look ss = t.look ss ∨ ∃ c, r.tree.look ss = .file c ∧ v.tree.look ss = .file c

/-- What was in the way of a scaffold, or the scaffold itself, is in its way the second time. -/
theorem Repeats.taken {o : WriteOptions} {t : FileTree} {r v : Run} {f : CodeFile}
    (h : Repeats t r v) (hr : (r.handle o f).error = none) (ht : Stays (r.handle o f).tree t) :
    isForced o f = true ∨ isTaken o v (o.pathOf f) = true := by
  have hv := ht.trans h.stays
  have hrv := (stays_handle hr).trans hv
  rw [isTaken_iff]
  obtain ⟨-, ⟨-, htaken, -⟩ | ⟨-, t1, missing, t', -, hw, he⟩⟩ := handle_cases hr
  · rcases isTaken_iff.1 htaken with hpath | ⟨hroot, -, hparent⟩
    · exact .inr (.inl (hrv.exists? hpath))
    · rw [parentDir_of_stays hrv, hrv.absolute]
      have hparent' := hrv.exists? hparent
      refine .inr (.inr ⟨hroot, fun hmem => ?_, hparent'⟩)
      -- what the second run has created was not there
      rw [h.created _ hmem] at hparent'
      cases hparent'
  · rw [he] at hv
    exact .inr (.inl (hv.exists? (exists?_of_isFile (isFile_of_write hw))))

/-- Writing a scaffold leaves every other file as it is. -/
theorem eq_or_look_of_write {t t1 t2 : FileTree} {dir path text : String} {missing : List String}
    (hm : makeDirs t dir = (t1, .ok missing)) (hw : t1.write path text = .ok t2)
    (ss : List String) :
    ss = t1.placeOf path ∨ ∀ c, t.look ss = .file c → t2.look ss = .file c := by
  by_cases hss : ss = t1.placeOf path
  · exact .inl hss
  · refine .inr fun c hc => ?_
    rw [(look_write hw).2, if_neg hss]
    exact (grows_of_makeDirs hm).look_file hc

section

variable {o : WriteOptions} {t t1 t2 : FileTree} {r r' v : Run} {f : CodeFile} {path text : String}
  {missing : List String}

/-- What the first run has written stays as the second run finds it. -/
theorem Repeats.skip (h : Repeats t r v)
    (hm : makeDirs r.tree (parentDir r.tree path) = (t1, .ok missing))
    (hw : t1.write path text = .ok t2) (hr' : r'.tree = t2)
    (hempty : ∀ c, r.tree.look (t1.placeOf path) ≠ .file c) : Repeats t r' v := by
  refine ⟨h.error, h.stays, h.back, h.created, fun ss => ?_⟩
  rw [hr']
  rcases h.look ss with hl | ⟨c, hc, hl⟩
  · exact .inl hl
  · rcases eq_or_look_of_write hm hw ss with rfl | hkeep
    · exact absurd hc (hempty c)
    · exact .inr ⟨c, hkeep c hc, hl⟩

/-- The second run writes what the first one has written, and finds its directory. -/
theorem Repeats.write (h : Repeats t r v)
    (hm : makeDirs r.tree (parentDir r.tree path) = (t1, .ok missing))
    (hw : t1.write path text = .ok t2) (hr' : r'.tree = t2) (hv : Stays t2 v.tree)
    (handled : List (FileState × String)) :
    ∃ missing' v', makeDirs v.tree (parentDir v.tree path) = (v.tree, .ok missing') ∧
      v.tree.write path text = .ok v' ∧
      Repeats t r' ⟨v', missing' ++ v.created, handled, none⟩ := by
  have hstays1 : Stays t1 v.tree := (stays_write hw).trans hv
  have hparent : v.tree.isDir (parentDir v.tree path) = true := by
    rw [parentDir_of_stays ((Stays.of_grows (grows_of_makeDirs hm)).trans hstays1)]
    exact hstays1.isDir (isDir_of_makeDirs_eq hm (not_endsInDot_absolute _ _))
  obtain ⟨v', hv'⟩ := exists_write_of_stays hw hv text
  obtain ⟨-, hlook⟩ := look_write hw
  obtain ⟨-, hlook'⟩ := look_write hv'
  have hsame : v.tree.placeOf path = t1.placeOf path := hstays1.placeOf _
  have hfile : ∃ c, v.tree.look (v.tree.placeOf path) = .file c :=
    hv.file _ (.text text) (by rw [hsame, hlook, if_pos rfl])
  have hback : Stays v' v.tree := stays_of_write_again hv' hfile
  refine ⟨_, v', makeDirs_of_isDir hparent, hv', rfl, h.stays.trans (stays_write hv'),
    hback.trans h.back, fun d hd => ?_, fun ss => ?_⟩
  · have hbefore : v.tree.exists? d = false := by
      rcases List.mem_append.1 hd with hd | hd
      · exact exists?_of_mem_missingDirs hd
      · exact h.created d hd
    cases hexists : v'.exists? d with
    | false => rfl
    | true =>
      rw [hback.exists? hexists] at hbefore
      cases hbefore
  · show v'.look ss = _ ∨ ∃ c, r'.tree.look ss = _ ∧ v'.look ss = _
    rw [hr', hlook', hsame]
    by_cases hss : ss = t1.placeOf path
    · exact .inr ⟨_, by rw [hlook, if_pos hss], by rw [if_pos hss]⟩
    · rw [if_neg hss]
      rcases h.look ss with hl | ⟨c, hc, hl⟩
      · exact .inl hl
      · exact .inr ⟨c, (eq_or_look_of_write hm hw ss).resolve_left hss c hc, hl⟩

/-- One scaffold keeps the relation, and the second run writes it exactly if it is forced. -/
theorem Repeats.handle (hhoused : r.tree.Housed) (h : Repeats t r v)
    (hr : (r.handle o f).error = none) (ht : Stays (r.handle o f).tree t) :
    Repeats t (r.handle o f) (v.handle o f) ∧ (v.handle o f).handled = v.handled ++
      [(if isForced o f then .written else .skipped, o.pathOf f)] := by
  have hv := ht.trans h.stays
  have htaken := h.taken hr ht
  obtain ⟨-, ⟨hforced, -, he⟩ | ⟨hfree, t1, missing, t2, hm, hw, he⟩⟩ := handle_cases hr
  · rw [handle_eq_skip h.error hforced (htaken.resolve_left (by simp [hforced])), he, hforced]
    exact ⟨⟨h.error, h.stays, h.back, h.created, h.look⟩, rfl⟩
  · cases hforced : isForced o f with
    | false =>
      have hempty : ∀ c, r.tree.look (t1.placeOf (o.pathOf f)) ≠ .file c := by
        intro c hc
        have hgrows := grows_of_makeDirs hm
        have hexists := exists?_of_write_of_grows hhoused hgrows hw (by rwa [← hgrows.placeOf])
        have hnot := hfree.resolve_left (by simp [hforced])
        simp [isTaken, hexists] at hnot
      rw [handle_eq_skip h.error hforced (htaken.resolve_left (by simp [hforced]))]
      have hnext := h.skip hm hw (by rw [he] : (r.handle o f).tree = t2) hempty
      exact ⟨⟨hnext.error, hnext.stays, hnext.back, hnext.created, hnext.look⟩, rfl⟩
    | true =>
      rw [he] at hv
      obtain ⟨missing', v', hm', hw', hnext⟩ :=
        h.write hm hw (by rw [he] : (r.handle o f).tree = t2) hv _
      rw [handle_eq_write h.error (.inl hforced) hm' hw']
      exact ⟨hnext, rfl⟩

end

/-- The relation holds all the way through the scaffolds. -/
theorem Repeats.foldl {o : WriteOptions} {t : FileTree} {files : List CodeFile} {r v : Run}
    (hhoused : r.tree.Housed) (h : Repeats t r v)
    (hr : (files.foldl (Run.handle o) r).error = none)
    (ht : Stays (files.foldl (Run.handle o) r).tree t) :
    Repeats t (files.foldl (Run.handle o) r) (files.foldl (Run.handle o) v) ∧
      (files.foldl (Run.handle o) v).handled = v.handled ++ files.map fun f =>
        (if isForced o f then .written else .skipped, o.pathOf f) := by
  induction files generalizing r v with
  | nil => exact ⟨h, by simp⟩
  | cons f fs ih =>
    rw [List.foldl_cons] at hr ht
    have hstep := error_of_foldl_handle hr
    obtain ⟨hnext, hone⟩ := h.handle hhoused hstep ((stays_foldl_handle hr).trans ht)
    obtain ⟨hlast, hall⟩ := ih ((stays_handle hstep).housed hhoused) hnext hr ht
    exact ⟨hlast, by simp [hall, hone]⟩

/-! ## The types file -/

/-- The types file is written where its directory is there. -/
theorem exists_write_of_writeTypes {t t' : FileTree} {types path : String}
    (h : writeTypes t types path = (t', none)) :
    ∃ t1, t1.write path types = .ok t' ∧ Grows (t.OnWay (dirname path).toList) t t1 := by
  unfold writeTypes at h
  simp only at h
  split at h
  · exact ⟨t, write_of_writeFile h, .refl _ t⟩
  · split at h
    · next t1 missing hm =>
      exact ⟨t1, write_of_writeFile h, grows_of_makeDirs hm⟩
    · cases (Prod.mk.inj h).2

/-- While everything stays, the types file is written again and nothing else is made. -/
theorem writeTypes_again {t t1 t2 : FileTree} {types path : String}
    (h : writeTypes t types path = (t1, none)) (hstays : Stays t1 t2) :
    ∃ t3, writeTypes t2 types path = (t3, none) ∧ t2.write path types = .ok t3 := by
  obtain ⟨t', hw, -⟩ := exists_write_of_writeTypes h
  obtain ⟨t3, hw3⟩ := exists_write_of_stays hw hstays types
  refine ⟨t3, ?_, hw3⟩
  unfold writeTypes
  simp only
  split
  · exact writeFile_of_write hw3
  · next hdir =>
    have hparent : t2.isDir (dirname path) = true :=
      hstays.isDir ((stays_write hw).isDir (isDir_dirname_of_write hw hdir))
    rw [makeDirs_of_isDir hparent]
    exact writeFile_of_write hw3

/-! ## The write phase -/

/-- The types file and then the scaffolds, if nothing fails. -/
def writePhase (t : FileTree) (types path : String) (files : List CodeFile) (o : WriteOptions) :
    Option Run :=
  match writeTypes t types path with
  | (_, some _) => none
  | (t', none) =>
    let r := writeResolvers t' files o
    if r.error.isNone then some r else none

theorem writePhase_eq_some_iff {t : FileTree} {types path : String} {files : List CodeFile}
    {o : WriteOptions} {r : Run} :
    writePhase t types path files o = some r ↔
      ∃ t1 t2 missing, writeTypes t types path = (t1, none) ∧
        makeDirs t1 o.dir = (t2, .ok missing) ∧
        files.foldl (Run.handle o) ⟨t2, missing, [], none⟩ = r ∧ r.error = none := by
  unfold writePhase writeResolvers
  constructor
  · intro h
    split at h
    · cases h
    · next t1 ht =>
      cases hm : makeDirs t1 o.dir with
      | mk t2 result =>
        cases result with
        | error e => simp [hm] at h
        | ok missing =>
          simp only [hm, Option.isNone_iff_eq_none] at h
          split_ifs at h with herror
          obtain rfl := Option.some.inj h
          exact ⟨t1, t2, missing, ht, hm, rfl, herror⟩
  · rintro ⟨t1, t2, missing, ht, hm, rfl, herror⟩
    simp [ht, hm, herror]

/-- The write phase can be repeated.  The second time it succeeds as well, leaves everything as it
is, writes the forced scaffolds and skips all others. -/
theorem writePhase_again {t : FileTree} {types path : String} {files : List CodeFile}
    {o : WriteOptions} {r : Run} (ht : t.Housed)
    (h : writePhase t types path files o = some r)
    (hdir : ¬ EndsInDot o.dir.toList ∨ r.tree.isDir o.dir = true) :
    ∃ r', writePhase r.tree types path files o = some r' ∧
      r'.tree.cwd = r.tree.cwd ∧ (∀ ss, r'.tree.look ss = r.tree.look ss) ∧
      r'.handled = files.map fun f =>
        (if isForced o f then .written else .skipped, o.pathOf f) := by
  obtain ⟨t1, t2, missing, htypes, hm, hr, herror⟩ := writePhase_eq_some_iff.1 h
  have hgrows := grows_of_makeDirs hm
  have hrest : Stays t2 r.tree := by
    have := stays_foldl_handle (hr ▸ herror)
    rwa [hr] at this
  have hstays : Stays t1 r.tree := (Stays.of_grows hgrows).trans hrest
  obtain ⟨t0, hw0, hgrows0⟩ := exists_write_of_writeTypes htypes
  obtain ⟨t3, htypes3, hw3⟩ := writeTypes_again htypes hstays
  -- the types file that is put back was there at the end of the first time
  have hplace : t1.look (r.tree.placeOf path) = .file (.text types) := by
    rw [((stays_write hw0).trans hstays).placeOf, (look_write hw0).2, if_pos rfl]
  have hback : Stays t3 r.tree := stays_of_write_again hw3 (hstays.file _ _ hplace)
  have hdir3 : t3.isDir o.dir = true := by
    refine (stays_write hw3).isDir ?_
    rcases hdir with hdot | hdir
    · exact hrest.isDir (isDir_of_makeDirs_eq hm hdot)
    · exact hdir
  have hstart : Repeats r.tree ⟨t2, missing, [], none⟩
      ⟨t3, missingDirs t3 (t3.absolute o.dir).toList, [], none⟩ := by
    refine ⟨rfl, stays_write hw3, hback, fun d => exists?_of_mem_missingDirs, fun ss => ?_⟩
    show t3.look ss = _ ∨ ∃ c, t2.look ss = _ ∧ t3.look ss = _
    rw [(look_write hw3).2]
    split
    · next hss => exact .inr ⟨_, by rw [hss]; exact hgrows.look_file hplace, rfl⟩
    · exact .inl rfl
  have hhoused : t2.Housed :=
    (((Stays.of_grows hgrows0).trans (stays_write hw0)).trans (.of_grows hgrows)).housed ht
  obtain ⟨hend, hhandled⟩ := hstart.foldl hhoused (hr ▸ herror) (hr ▸ .refl _)
  have hphase := writePhase_eq_some_iff.2
    ⟨t3, t3, _, htypes3, makeDirs_of_isDir hdir3, rfl, hend.error⟩
  refine ⟨_, hphase, hend.stays.cwd, fun ss => ?_, by simpa using hhandled⟩
  rcases hend.look ss with hl | ⟨c, hc, hl⟩
  · exact hl
  · rw [hl, ← hc, hr]

/-- A working directory with a file in it. -/
def notedTree : FileTree := ⟨.dir [("work", .dir [("notes", .file (.text "mine"))])], ["work"]⟩

/-- The types file lies between the scaffolds, one of which is forced. -/
theorem writePhase_again_notedTree :
    notedTree.Housed ∧ ∃ r r',
      writePhase notedTree "types" "out/t.ts" [⟨"A.ts", "a", false⟩, ⟨"B.ts", "b", true⟩]
        ⟨"out", "./t", false⟩ = some r ∧
      ¬ EndsInDot "out".toList ∧
      writePhase r.tree "types" "out/t.ts" [⟨"A.ts", "a", false⟩, ⟨"B.ts", "b", true⟩]
        ⟨"out", "./t", false⟩ = some r' ∧
      r'.handled = [(.skipped, "out/A.ts"), (.written, "out/B.ts")] := by
  have ht : notedTree.Housed := by decide
  have hdot : ¬ EndsInDot "out".toList := by decide
  have hsome : (writePhase notedTree "types" "out/t.ts"
      [⟨"A.ts", "a", false⟩, ⟨"B.ts", "b", true⟩] ⟨"out", "./t", false⟩).isSome = true := by
    decide +kernel
  obtain ⟨r, hr⟩ := Option.isSome_iff_exists.1 hsome
  obtain ⟨r', hr', -, -, hhandled⟩ := writePhase_again ht hr (.inl hdot)
  exact ⟨ht, r, r', hr, hdot, hr', by rw [hhandled]; decide +kernel⟩

/-- Making `a/../b/.` makes `a`, finds the file `b`, and takes the dot for a directory that is
there.  Making it again finds that it is not. -/
theorem writePhase_not_repeatable :
    let t : FileTree := ⟨.dir [("work", .dir [("b", .file (.text "x"))])], ["work"]⟩
    let o : WriteOptions := ⟨"a/../b/.", "t.ts", false⟩
    t.Housed ∧ (writePhase t "t" "t.ts" [] o).isSome = true ∧
      ((writePhase t "t" "t.ts" [] o).bind fun r =>
        writePhase r.tree "t" "t.ts" [] o).isNone = true :=
  ⟨by decide, by decide +kernel, by decide +kernel⟩

end ResolverKit.Output
