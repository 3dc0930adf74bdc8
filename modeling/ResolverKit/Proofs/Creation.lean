import Mathlib.Data.List.Induction
import ResolverKit.Proofs.Rooted

/-!
# Files and directories that can be made

A path that ends in an ordinary name, behind a way to a directory, can be used to create a file or
a directory there (`target_of_walk`), unless the name is too long.  So a path from the root can be
made with all directories above it, if no file stands on the way:

    (∀ q, q <+: ss → ∀ c, t.look q ≠ .file c) → … → (t.makeDirs (rooted n ss)).2 = none
                                                                                 (makeDirs_rooted)

No file stands below an empty directory.
-/

namespace ResolverKit.Path

/-- A path from the root with its last name behind a slash. -/
theorem exists_segments_rooted (n : Nat) {ss : List String} {s : String} (hs : IsName s)
    (hss : ∀ x ∈ ss, IsName x) :
    ∃ before, segments (String.ofList (rooted n (ss ++ [s]))) = before ++ [s] ∧
      before.filter (· ≠ "") = ss := by
  obtain ⟨front, last, hsplit, hlast, hfront, hparts⟩ := splitLast_parts (rooted n (ss ++ [s]))
  rw [splitLast_rooted n hs hss] at hparts
  obtain ⟨hinit, rfl⟩ := Prod.mk.inj hparts
  rcases hfront with rfl | ⟨f, rfl⟩
  · rw [List.nil_append] at hsplit
    exact absurd (by rw [← hsplit]; simp [rooted]) hlast
  · refine ⟨(Text.pieces '/' f).map String.ofList, ?_, ?_⟩
    · rw [segments, String.toList_ofList, hsplit, List.append_assoc, List.singleton_append,
        Text.pieces_append_cons, Text.pieces_eq_singleton hlast, List.map_append]
      simp
    · have hnames : names (rooted n ss) = names f := by
        rw [hinit, names_trimSlashes, names_append_cons, names_nil, List.append_nil]
      rw [names_rooted n hss] at hnames
      exact hnames.symm

end ResolverKit.Path

namespace ResolverKit.FileTree

open Path

variable {t t' : FileTree} {p name : String} {here before ss : List String} {n : Nat}

/-! ## Files and directories that can be made -/

/-- A path that ends in a name behind a way to a directory can be used to create something. -/
theorem target_of_walk (hu : unusable? p = none) (hp : segments p = before ++ [name])
    (hname : IsName name) (hw : walk t.root (t.startOf p) before = .ok here)
    (hdir : t.look here = .folder) : t.target p = .ok (here, some name, false) := by
  obtain ⟨es, hes⟩ := Node.look_eq_folder_iff.1 hdir
  have hcore : (segments p).reverse.dropWhile (· = "") = name :: before.reverse := by
    rw [hp, List.reverse_append]
    exact List.dropWhile_cons_of_neg (by simpa using hname.ne_empty)
  have hlength : ¬ (name :: before.reverse).length < (segments p).reverse.length := by simp [hp]
  unfold target
  simp only [hu, hcore, List.reverse_reverse, hw, bind, Except.bind, hes, hname.ne_dot,
    hname.ne_dots, if_false, hlength, decide_false]
  rfl

theorem exists_write_of_target (ht : t.target p = .ok (here, some name, false))
    (hsize : name.utf8ByteSize ≤ maxName) (hl : t.look (here ++ [name]) ≠ .folder)
    (text : String) : ∃ t', t.write p text = .ok t' := by
  have hsize' : ¬ maxName < name.utf8ByteSize := by omega
  unfold write
  simp only [ht, bind, Except.bind, Bool.false_eq_true, if_false, hsize']
  split
  · next es hes => exact absurd (Node.look_eq_folder_iff.2 ⟨es, hes⟩) hl
  · exact ⟨_, rfl⟩

theorem exists_createDir_of_target (ht : t.target p = .ok (here, some name, false))
    (hsize : name.utf8ByteSize ≤ maxName) (hl : t.look (here ++ [name]) = .nothing) :
    ∃ t', t.createDir p = .ok t' := by
  have hsize' : ¬ maxName < name.utf8ByteSize := by omega
  unfold createDir
  simp only [ht, bind, Except.bind, if_false, hsize', Node.look_eq_nothing_iff.1 hl]
  exact ⟨_, rfl⟩

section

variable {s : String} (hss : ∀ x ∈ ss ++ [s], IsName x)
  (hu : unusable? (String.ofList (rooted n (ss ++ [s]))) = none)
  (hsize : ∀ x ∈ ss ++ [s], x.utf8ByteSize ≤ maxName)

include hss hu hsize

/-- A directory is made where no file stands, if the directory above it is there. -/
theorem ensureDir_rooted (hdir : t.look ss = .folder) (hfree : ∀ c, t.look (ss ++ [s]) ≠ .file c) :
    (t.ensureDir (String.ofList (rooted n (ss ++ [s])))).2 = none := by
  have hinit : ∀ x ∈ ss, IsName x := fun x hx => hss x (List.mem_append_left _ hx)
  cases hl : t.look (ss ++ [s]) with
  | file c => exact absurd hl (hfree c)
  | folder => rw [ensureDir_of_isDir ((isDir_rooted_iff hss).2 ⟨hu, hsize, hl⟩)]
  | nothing =>
    obtain ⟨before, hsegments, hbefore⟩ := exists_segments_rooted n (hss s (by simp)) hinit
    have hstart : t.startOf (String.ofList (rooted n (ss ++ [s]))) = [] := by
      simp [startOf, isAbsolute, rooted]
    have hwalk : walk t.root [] ss = .ok ss :=
      (@walk_names_iff t.root [] ss hinit hdir).2 fun x hx => hsize x (List.mem_append_left _ hx)
    have htarget := target_of_walk hu hsegments (hss s (by simp))
      (by rw [hstart]; exact walk_of_filter (by rw [hbefore]; exact hwalk) hdir) hdir
    obtain ⟨t', hcreated⟩ := exists_createDir_of_target htarget (hsize s (by simp)) hl
    rw [ensureDir, hcreated]

end

/-- A directory that was made from the root on is there. -/
theorem look_of_makeDirs_rooted (hss : ∀ s ∈ ss, IsName s)
    (h : t.makeDirs (rooted n ss) = (t', none)) : t'.look ss = .folder := by
  have hdot : ¬ EndsInDot (rooted n ss) := not_endsInDot fun hmem => by
    rw [names_rooted n hss] at hmem
    exact (hss _ hmem).ne_dot rfl
  exact ((isDir_rooted_iff hss).1 (isDir_of_makeDirs h hdot)).2.2

theorem cutLast_rooted (n : Nat) {ss : List String} {s : String} (hs : IsName s)
    (hss : ∀ x ∈ ss, IsName x) : cutLast (rooted n (ss ++ [s])) = (rooted n ss, s.toList) := by
  have hne : s.toList ≠ [] := by simpa using hs.ne_empty
  simp [cutLast, splitLast_rooted n hs hss, hne]

/-- A directory is made from the root on if no file stands on the way. -/
theorem makeDirs_rooted (hss : ∀ s ∈ ss, IsName s)
    (hu : unusable? (String.ofList (rooted n ss)) = none)
    (hsize : ∀ s ∈ ss, s.utf8ByteSize ≤ maxName)
    (hfree : ∀ q, q <+: ss → ∀ c, t.look q ≠ .file c) : (t.makeDirs (rooted n ss)).2 = none := by
  induction ss using List.reverseRecOn generalizing t with
  | nil =>
    have hroot : t.look [] = .folder := by
      have hfile := hfree [] List.prefix_rfl
      unfold FileTree.look Node.look at hfile ⊢
      cases hnode : t.root with
      | file c => exact absurd (by simp [hnode]) (hfile c)
      | dir es => simp
    rw [makeDirs_of_isDir ((isDir_rooted_iff hss).2 ⟨hu, hsize, hroot⟩)]
  | append_singleton ss s ih =>
    have hs : IsName s := hss s (by simp)
    have hinit : ∀ x ∈ ss, IsName x := fun x hx => hss x (List.mem_append_left _ hx)
    have hfile := hfree (ss ++ [s]) List.prefix_rfl
    have hfreeInit : ∀ q, q <+: ss → ∀ c, t.look q ≠ .file c := fun q hq =>
      hfree q (hq.trans (List.prefix_append _ _))
    have hdot : ¬ s.toList = ['.'] := fun h => hs.ne_dot (String.toList_inj.1 h)
    rw [makeDirs]
    simp only [cutLast_rooted n hs hinit]
    rw [dif_neg (by simpa using hs.ne_empty)]
    split
    · next hhead =>
      -- the directory above is there
      have hexists : t.exists? (String.ofList (rooted n ss)) = true := by
        simpa [rooted] using hhead
      have hl := (exists?_iff.1 hexists).2
      rw [placeOf_rooted t n hinit] at hl
      refine ensureDir_rooted hss hu hsize ?_ hfile
      cases hlook : t.look ss with
      | nothing => exact absurd hlook hl
      | folder => rfl
      | file c => exact absurd hlook (hfreeInit ss List.prefix_rfl c)
    · -- it is made first
      have hfront : unusable? (String.ofList (rooted n ss)) = none := by
        have hpre := isPrefix_cutLast (rooted n (ss ++ [s]))
        rw [cutLast_rooted n hs hinit] at hpre
        exact unusable?_of_front hpre (by simp [rooted]) hu
      have hmade := ih hinit hfront (fun x hx => hsize x (List.mem_append_left _ hx)) hfreeInit
      have hgrows := FileTree.grows_makeDirs t (rooted n ss)
      cases hm : t.makeDirs (rooted n ss) with
      | mk t' failure =>
        rw [hm] at hmade hgrows
        obtain rfl : failure = none := hmade
        have hdir := look_of_makeDirs_rooted hinit hm
        have hfile' : ∀ c, t'.look (ss ++ [s]) ≠ .file c := by
          intro c hc
          rcases hgrows.look (ss ++ [s]) with hsame | ⟨-, -, hfolder⟩
          · exact hfile c (hsame ▸ hc)
          · rw [hfolder] at hc
            cases hc
        simpa [hdot] using ensureDir_rooted hss hu hsize hdir hfile'

/-! ## Empty directories -/

/-- The path leads to a directory without entries. -/
def IsEmptyDir (t : FileTree) (p : String) : Prop := t.node? p = some (.dir [])

section

variable {t : FileTree} {p : String} {q ss : List String}

theorem IsEmptyDir.isDir (h : t.IsEmptyDir p) : t.isDir p = true := by
  rw [FileTree.isDir, show t.node? p = _ from h]

theorem IsEmptyDir.look_append (h : t.IsEmptyDir p) (hss : ss ≠ []) :
    t.look (t.placeOf p ++ ss) = .nothing := by
  obtain ⟨s, r, rfl⟩ := List.exists_cons_of_ne_nil hss
  rw [look, Node.look_eq_nothing_iff, Node.get?_append, (node?_eq_some_iff.1 h).2]
  exact Node.isBare_dir_nil s r

/-- What is there on a way through an empty directory is a directory. -/
theorem IsEmptyDir.look_of_prefix (h : t.IsEmptyDir p) (hq : q <+: t.placeOf p ++ ss)
    (hl : t.look q ≠ .nothing) : t.look q = .folder := by
  have hdir : t.look (t.placeOf p) = .folder := (isDir_iff.1 h.isDir).2
  rcases List.prefix_or_prefix_of_prefix hq (List.prefix_append _ _) with ⟨b, hb⟩ | ⟨b, rfl⟩
  · by_cases hnil : b = []
    · rw [hnil, List.append_nil] at hb
      rwa [hb]
    · refine Node.look_of_look_append hnil ?_
      rw [hb]
      show t.look _ ≠ _
      simp [hdir]
  · by_cases hnil : b = []
    · rwa [hnil, List.append_nil]
    · exact absurd (h.look_append hnil) hl

end

end ResolverKit.FileTree
