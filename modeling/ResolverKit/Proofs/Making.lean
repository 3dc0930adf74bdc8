import Mathlib.Data.List.Induction
import ResolverKit.Proofs.Repeat
import ResolverKit.Proofs.Rooted

/-!
# What a run over scaffolds makes

Scaffolds that are set apart, none of them at or below the place of another, do not get in each
other's way.  `Made t o done r` says so of a run `r` that has dealt with the scaffolds `done` since
the tree was `t`: whatever is new is the file of a scaffold, or a directory above one whose text is
remembered.  So a scaffold that comes later meets nothing new:

    Made t o done r → SetApart (done ++ f :: rest) →
      r.tree.look (t.placeOf (o.pathOf f)) ≠ .nothing →
        t.look (t.placeOf (o.pathOf f)) ≠ .nothing                          (Made.look_place)

`Carried` adds what became of the scaffolds.  One step keeps it wherever the step decides as a given
fate says, and a run does if every step does (`Carried.foldl`).
-/

namespace ResolverKit.Output

open Path FileTree
open Code (CodeFile)

/-! ## Directories that were missing -/

theorem names_of_mem_missingDirs {t : FileTree} {p : List Char} {d : String}
    (h : d ∈ missingDirs t p) : names d.toList <+: names p := by
  fun_induction missingDirs t p with
  | case1 => cases h
  | case2 p hp hlast =>
    obtain rfl : d = String.ofList p := by simpa using h
    simp
  | case3 p hp hlast ih =>
    rcases List.mem_cons.1 h with rfl | h
    · simp
    · exact (ih h).trans ⟨names (splitLast p).2, (names_splitLast p).symm⟩

/-- A directory above a path from the root is found missing if nothing stands there. -/
theorem mem_missingDirs {t : FileTree} {n : Nat} {ss way : List String}
    (hway : ∀ s ∈ way, IsName s) (hss : ss <+: way) (hl : t.look ss = .nothing) :
    String.ofList (rooted n ss) ∈ missingDirs t (rooted n way) := by
  have hroot : t.look [] ≠ .nothing := by
    unfold FileTree.look Node.look
    cases t.root <;> simp
  induction way using List.reverseRecOn with
  | nil =>
    obtain rfl : ss = [] := List.prefix_nil.1 hss
    exact absurd hl hroot
  | append_singleton way s ih =>
    have hwayName : ∀ x ∈ way, IsName x := fun x hx => hway x (by simp [hx])
    have hs : IsName s := hway s (by simp)
    have hfree : t.exists? (String.ofList (rooted n (way ++ [s]))) = false := by
      rw [Bool.eq_false_iff]
      intro hexists
      have := (exists?_iff.1 hexists).2
      rw [placeOf_rooted t n hway] at this
      exact this (look_nothing_of_front hss hl)
    have hne : rooted n (way ++ [s]) ≠ [] := by simp [rooted]
    rw [missingDirs, if_neg (by simp [hne, hfree]), splitLast_rooted n hs hwayName,
      dif_neg (by simpa using hs.ne_empty)]
    rcases List.prefix_concat_iff.1 hss with rfl | hss
    · exact List.mem_cons_self
    · exact List.mem_cons_of_mem _ (ih hwayName hss)

/-! ## Scaffolds apart -/

/-- Scaffolds with ordinary paths, none of which is another's or leads through another. -/
structure SetApart (files : List CodeFile) : Prop where
  isName : ∀ f ∈ files, ∀ s ∈ segments f.path, IsName s
  apart : files.Pairwise fun f g =>
    ¬ segments f.path <+: segments g.path ∧ ¬ segments g.path <+: segments f.path

section

variable {t t1 t' : FileTree} {o : WriteOptions} {r : Run} {f g : CodeFile}
  {done rest files : List CodeFile} {missing : List String} {text : String}

/-- The directory of a scaffold, from the root. -/
theorem toList_parentDir (ht : t.Housed) (hf : ∀ s ∈ segments f.path, IsName s) :
    (parentDir t (o.pathOf f)).toList =
      rooted (moreSlashes o.dir) (t.placeOf (dirname (o.pathOf f))) := by
  have hslashes : moreSlashes (dirname (o.pathOf f)) = moreSlashes o.dir := by
    unfold WriteOptions.pathOf
    rw [moreSlashes_dirname_join (isAbsolute_of_isName hf)]
  rw [parentDir, toList_absolute ht, hslashes]

theorem parentDir_eq (ht : t.Housed) (hf : ∀ s ∈ segments f.path, IsName s) :
    parentDir t (o.pathOf f) =
      String.ofList (rooted (moreSlashes o.dir) (t.placeOf (dirname (o.pathOf f)))) := by
  rw [← toList_parentDir ht hf, String.ofList_toList]

theorem placeOf_parentDir (ht : t.Housed) (hf : ∀ s ∈ segments f.path, IsName s) :
    t.placeOf (parentDir t (o.pathOf f)) = t.placeOf (dirname (o.pathOf f)) := by
  rw [parentDir_eq ht hf, placeOf_rooted _ _ fun s => isName_of_mem_placeOf ht]

theorem moreSlashes_parentDir (ht : t.Housed) (hf : ∀ s ∈ segments f.path, IsName s) :
    moreSlashes (parentDir t (o.pathOf f)) = moreSlashes o.dir := by
  rw [moreSlashes, toList_parentDir ht hf, rootSlashes_rooted (moreSlashes_le _)
    fun s => isName_of_mem_placeOf ht, Nat.add_sub_cancel]

theorem parentDir_eq_root_iff (ht : t.Housed) (hf : ∀ s ∈ segments f.path, IsName s) :
    parentDir t (o.pathOf f) = t.absolute o.dir ↔
      t.placeOf (dirname (o.pathOf f)) = t.placeOf o.dir := by
  rw [← String.toList_inj, toList_parentDir ht hf, toList_absolute ht]
  constructor
  · intro h
    have := congrArg names h
    rwa [names_rooted _ fun s => isName_of_mem_placeOf ht,
      names_rooted _ fun s => isName_of_mem_placeOf ht] at this
  · intro h
    rw [h]

/-- Scaffolds with one path are written to one place. -/
theorem pathOf_congr (h : f.path = g.path) : o.pathOf f = o.pathOf g := by
  rw [WriteOptions.pathOf, h, ← WriteOptions.pathOf]

/-- Scaffolds with different paths are written to different places. -/
theorem place_ne (hf : ∀ s ∈ segments f.path, IsName s) (hg : ∀ s ∈ segments g.path, IsName s)
    (hne : f.path ≠ g.path) (t : FileTree) (o : WriteOptions) :
    t.placeOf (o.pathOf f) ≠ t.placeOf (o.pathOf g) := by
  intro heq
  unfold WriteOptions.pathOf at heq
  rw [placeOf_join t hf, placeOf_join t hg] at heq
  exact hne (segments_inj.1 (List.append_cancel_left heq))

theorem dir_prefix_place (hf : ∀ s ∈ segments f.path, IsName s) :
    t.placeOf (dirname (o.pathOf f)) <+: t.placeOf (o.pathOf f) := by
  unfold WriteOptions.pathOf
  rw [placeOf_join t hf, placeOf_dirname_join t hf]
  exact (List.prefix_append_right_inj _).2 (List.dropLast_prefix _)

/-- A scaffold lies below the output directory. -/
theorem not_place_prefix_dir (hf : ∀ s ∈ segments f.path, IsName s) :
    ¬ t.placeOf (o.pathOf f) <+: t.placeOf o.dir := by
  intro hpre
  have hlen := hpre.length_le
  have hpos := List.length_pos_iff.2 (segments_ne_nil f.path)
  unfold WriteOptions.pathOf at hlen
  rw [placeOf_join t hf, List.length_append] at hlen
  omega

/-- The directory of a scaffold lies below the output directory or is it. -/
theorem dirname_eq_of_prefix_dir (hf : ∀ s ∈ segments f.path, IsName s)
    (hpre : t.placeOf (dirname (o.pathOf f)) <+: t.placeOf o.dir) :
    t.placeOf (dirname (o.pathOf f)) = t.placeOf o.dir := by
  unfold WriteOptions.pathOf at hpre ⊢
  rw [placeOf_dirname_join t hf] at hpre ⊢
  exact hpre.eq_of_length_le (by simp)

theorem SetApart.isName_head (h : SetApart (done ++ f :: rest)) :
    ∀ s ∈ segments f.path, IsName s :=
  h.isName f (by simp)

/-- A scaffold lies neither at or below an earlier one nor above it. -/
theorem SetApart.beside (h : SetApart (done ++ f :: rest)) (hg : g ∈ done) (t : FileTree)
    (o : WriteOptions) :
    ¬ t.placeOf (o.pathOf g) <+: t.placeOf (o.pathOf f) ∧
      ¬ t.placeOf (o.pathOf f) <+: t.placeOf (dirname (o.pathOf g)) := by
  have hgName : ∀ s ∈ segments g.path, IsName s := h.isName g (by simp [hg])
  obtain ⟨hgf, hfg⟩ := (List.pairwise_append.1 h.apart).2.2 g hg f (by simp)
  unfold WriteOptions.pathOf
  rw [placeOf_join t h.isName_head, placeOf_join t hgName, placeOf_dirname_join t hgName]
  refine ⟨fun hpre => hgf ((List.prefix_append_right_inj _).1 hpre), fun hpre => ?_⟩
  exact hfg (((List.prefix_append_right_inj _).1 hpre).trans (List.dropLast_prefix _))

/-! ## What is new -/

/-- A run that has dealt with the scaffolds `done` since the tree was `t`. -/
structure Made (t : FileTree) (o : WriteOptions) (done : List CodeFile) (r : Run) : Prop where
  error : r.error = none
  stays : Stays t r.tree
  created : ∀ d ∈ r.created, names d.toList <+: t.placeOf o.dir ∨ t.exists? d = false
  made : ∀ ss, r.tree.look ss ≠ .nothing → t.look ss ≠ .nothing ∨
    ∃ g ∈ done, ss = t.placeOf (o.pathOf g) ∨
      (String.ofList (rooted (moreSlashes o.dir) ss) ∈ r.created ∧
        ss <+: t.placeOf (dirname (o.pathOf g)))

/-- What stands at the place of a scaffold stood there from the start. -/
theorem Made.look_place (h : Made t o done r) (hfiles : SetApart (done ++ f :: rest))
    (hl : r.tree.look (t.placeOf (o.pathOf f)) ≠ .nothing) :
    t.look (t.placeOf (o.pathOf f)) ≠ .nothing := by
  rcases h.made _ hl with hold | ⟨g, hg, hsame | ⟨-, habove⟩⟩
  · exact hold
  · exact absurd (by simp [hsame]) (hfiles.beside hg t o).1
  · exact absurd habove (hfiles.beside hg t o).2

/-- What stands at the place of its directory did so as well, unless the run has made it. -/
theorem Made.look_dirname (ht : t.Housed) (h : Made t o done r)
    (hfiles : SetApart (done ++ f :: rest))
    (hcreated : parentDir t (o.pathOf f) ∉ r.created)
    (hl : r.tree.look (t.placeOf (dirname (o.pathOf f))) ≠ .nothing) :
    t.look (t.placeOf (dirname (o.pathOf f))) ≠ .nothing := by
  have hf := hfiles.isName_head
  rcases h.made _ hl with hold | ⟨g, hg, hsame | ⟨hmem, -⟩⟩
  · exact hold
  · exact absurd (hsame ▸ dir_prefix_place hf) (hfiles.beside hg t o).1
  · rw [parentDir_eq ht hf] at hcreated
    exact absurd hmem hcreated

/-- A directory that was there is not taken for one that the run has made. -/
theorem Made.not_mem_created (ht : t.Housed) (h : Made t o done r)
    (hf : ∀ s ∈ segments f.path, IsName s)
    (hroot : t.placeOf (dirname (o.pathOf f)) ≠ t.placeOf o.dir)
    (hold : t.exists? (parentDir t (o.pathOf f)) = true) :
    parentDir t (o.pathOf f) ∉ r.created := by
  intro hmem
  rcases h.created _ hmem with hpre | hfree
  · rw [toList_parentDir ht hf, names_rooted _ fun s => isName_of_mem_placeOf ht] at hpre
    exact hroot (dirname_eq_of_prefix_dir hf hpre)
  · rw [hold] at hfree
    cases hfree

/-! ## One more scaffold -/

theorem Made.skip (h : Made t o done r) (handled : List (FileState × String)) :
    Made t o (done ++ [f]) { r with handled } := by
  refine ⟨h.error, h.stays, h.created, fun ss hss => ?_⟩
  exact (h.made ss hss).imp_right fun ⟨g, hg, hwhy⟩ => ⟨g, by simp [hg], hwhy⟩

/-- The directories that were made for a scaffold are remembered. -/
theorem Made.mem_missing (ht : t.Housed) (h : Made t o done r)
    (hf : ∀ s ∈ segments f.path, IsName s)
    (hm : makeDirs r.tree (parentDir r.tree (o.pathOf f)) = (t1, .ok missing)) {ss : List String}
    (hway : r.tree.OnWay (parentDir r.tree (o.pathOf f)).toList ss)
    (hnone : r.tree.look ss = .nothing) :
    String.ofList (rooted (moreSlashes o.dir) ss) ∈ missing ∧
      ss <+: t.placeOf (dirname (o.pathOf f)) := by
  have habove := prefix_of_onWay_parentDir (h.stays.housed ht) hway
  rw [h.stays.placeOf] at habove
  have hnames : ∀ s ∈ t.placeOf (dirname (o.pathOf f)), IsName s :=
    fun s => isName_of_mem_placeOf ht
  refine ⟨?_, habove⟩
  rw [(makeDirs_eq_ok hm).2, parentDir_of_stays h.stays, h.stays.absolute, toList_absolute ht,
    placeOf_parentDir ht hf, moreSlashes_parentDir ht hf]
  exact mem_missingDirs hnames habove hnone

theorem Made.write (ht : t.Housed) (h : Made t o done r) (hf : ∀ s ∈ segments f.path, IsName s)
    (hm : makeDirs r.tree (parentDir r.tree (o.pathOf f)) = (t1, .ok missing))
    (hw : t1.write (o.pathOf f) text = .ok t') (handled : List (FileState × String)) :
    Made t o (done ++ [f]) ⟨t', missing ++ r.created, handled, none⟩ := by
  have hgrows := grows_of_makeDirs hm
  obtain ⟨-, hlook⟩ := look_write hw
  rw [hgrows.placeOf, h.stays.placeOf] at hlook
  refine ⟨rfl, h.stays.trans ((Stays.of_grows hgrows).trans (stays_write hw)), fun d hd => ?_,
    fun ss hss => ?_⟩
  · rcases List.mem_append.1 hd with hd | hd
    · right
      rw [(makeDirs_eq_ok hm).2] at hd
      have hfree := exists?_of_mem_missingDirs hd
      cases hexists : t.exists? d with
      | false => rfl
      | true =>
        rw [h.stays.exists? hexists] at hfree
        cases hfree
    · exact h.created d hd
  · change t'.look ss ≠ .nothing at hss
    show _ ∨ ∃ g ∈ done ++ [f], _ ∨ (_ ∈ missing ++ r.created ∧ _)
    rw [hlook] at hss
    split at hss
    · next heq => exact .inr ⟨f, by simp, .inl heq⟩
    · rcases hgrows.look ss with hsame | ⟨hway, hnone, -⟩
      · rw [hsame] at hss
        refine (h.made ss hss).imp_right fun ⟨g, hg, hwhy⟩ => ⟨g, by simp [hg], ?_⟩
        exact hwhy.imp_right fun ⟨hmem, habove⟩ => ⟨by simp [hmem], habove⟩
      · obtain ⟨hmem, habove⟩ := h.mem_missing ht hf hm hway hnone
        exact .inr ⟨f, by simp, .inr ⟨List.mem_append_left _ hmem, habove⟩⟩

/-! ## What became of the scaffolds -/

/-- What becomes of a scaffold if exactly those with this property are left alone. -/
def fateBy (left : CodeFile → Prop) [DecidablePred left] (f : CodeFile) : FileState :=
  if left f then .skipped else .written

section

variable {left : CodeFile → Prop} [DecidablePred left]

theorem fateBy_eq_skipped_iff : fateBy left f = .skipped ↔ left f := by
  unfold fateBy
  split <;> simp_all

theorem fateBy_eq_written_iff : fateBy left f = .written ↔ ¬ left f := by
  unfold fateBy
  split <;> simp_all

end

/-- A run that has dealt with the scaffolds `done` as `fate` says. -/
structure Carried (t : FileTree) (o : WriteOptions) (fate : CodeFile → FileState)
    (done : List CodeFile) (r : Run) : Prop extends Made t o done r where
  handled : r.handled = done.map fun f => (fate f, o.pathOf f)
  written : ∀ g ∈ done, fate g = .written →
    r.tree.look (t.placeOf (o.pathOf g)) = .file (.text (fillPlaceholder g.code o.typesPath))

variable {fate : CodeFile → FileState}

/-- A run starts with the directories that were made for the output directory. -/
theorem Carried.start (ht : t.Housed) (hm : makeDirs t o.dir = (t1, .ok missing)) :
    Carried t1 o fate [] ⟨t1, missing, [], none⟩ := by
  refine ⟨⟨rfl, .refl t1, fun d hd => .inl ?_, fun ss hss => .inl hss⟩, rfl, by simp⟩
  have hnames := names_of_mem_missingDirs ((makeDirs_eq_ok hm).2 ▸ hd)
  rwa [names_absolute ht, ← (Stays.of_grows (grows_of_makeDirs hm)).placeOf] at hnames

/-- A scaffold that is dealt with as its fate says. -/
theorem Carried.handle (ht : t.Housed) (h : Carried t o fate done r)
    (hfiles : SetApart (done ++ f :: rest)) (hr : (r.handle o f).error = none)
    (hfate : fate f = .skipped ↔ isForced o f = false ∧ isTaken o r (o.pathOf f) = true) :
    Carried t o fate (done ++ [f]) (r.handle o f) := by
  obtain ⟨-, ⟨hforced, htaken, he⟩ | ⟨hfree, t1, missing, t', hm, hw, he⟩⟩ := handle_cases hr
  · have hskipped : fate f = .skipped := hfate.2 ⟨hforced, htaken⟩
    rw [he]
    refine ⟨h.toMade.skip _, by simp [h.handled, hskipped], fun g hg hwritten => ?_⟩
    rcases List.mem_append.1 hg with hg | hg
    · exact h.written g hg hwritten
    · obtain rfl : g = f := by simpa using hg
      rw [hskipped] at hwritten
      cases hwritten
  · have hwritten : fate f = .written := by
      cases hf : fate f with
      | written => rfl
      | skipped =>
        obtain ⟨hforced, htaken⟩ := hfate.1 hf
        simp [hforced, htaken] at hfree
    have hgrows := grows_of_makeDirs hm
    obtain ⟨-, hlook⟩ := look_write hw
    rw [hgrows.placeOf, h.stays.placeOf] at hlook
    rw [he]
    refine ⟨h.toMade.write ht hfiles.isName_head hm hw _, by simp [h.handled, hwritten],
      fun g hg hg' => ?_⟩
    change t'.look _ = _
    rw [hlook]
    rcases List.mem_append.1 hg with hg | hg
    · have hne : t.placeOf (o.pathOf g) ≠ t.placeOf (o.pathOf f) := fun heq =>
        (hfiles.beside hg t o).1 (by simp [heq])
      rw [if_neg hne]
      exact hgrows.look_file (h.written g hg hg')
    · obtain rfl : g = f := by simpa using hg
      rw [if_pos rfl]

/-- All scaffolds behind each other, if each step decides as the fate says. -/
theorem Carried.foldl (ht : t.Housed) (h : Carried t o fate done r)
    (hfiles : SetApart (done ++ files)) (hr : (files.foldl (Run.handle o) r).error = none)
    (hfate : ∀ f ∈ files, ∀ done rest r, SetApart (done ++ f :: rest) → Made t o done r →
      (r.handle o f).error = none →
        (fate f = .skipped ↔ isForced o f = false ∧ isTaken o r (o.pathOf f) = true)) :
    Carried t o fate (done ++ files) (files.foldl (Run.handle o) r) := by
  induction files generalizing r done with
  | nil => simpa using h
  | cons f fs ih =>
    rw [List.foldl_cons] at hr ⊢
    have hfirst := error_of_foldl_handle hr
    have hstep := h.handle ht hfiles hfirst
      (hfate f (by simp) done fs r hfiles h.toMade hfirst)
    have hsplit : done ++ f :: fs = (done ++ [f]) ++ fs := by simp
    rw [hsplit] at hfiles ⊢
    exact ih hstep hfiles hr fun f' hf' => hfate f' (by simp [hf'])

end

end ResolverKit.Output
