import Mathlib.Data.List.Basic
import Mathlib.Data.List.TakeWhile
import ResolverKit.Proofs.Specifiers

/-!
# Which specifiers are relative

A specifier is relative if its first segment is a dot or two dots; any other names a package.  The
relative path to a model file gets a dot and a slash in front only if it does not start with a dot.
So a path that goes down to a name with a dot at its front is left as it is, and the specifier
is not relative:

    IsRelative specifier ↔ ¬ IsHiddenBelow (dirname output) file        (specifier?_isRelative_iff)

Endings are taken off the last segment (`dropExtensionInLine_append`), and the first segment stays
unless it is the last (`takeWhile_withoutIndex`).
-/

namespace ResolverKit.Path

/-! ## Normal paths -/

/-- The path is in its shortest form and starts at the root. -/
structure IsNormal (p : String) : Prop where
  normal : normalize p = p
  absolute : isAbsolute p = true

instance (p : String) : Decidable (IsNormal p) :=
  decidable_of_iff (normalize p = p ∧ isAbsolute p = true)
    ⟨fun ⟨h1, h2⟩ => ⟨h1, h2⟩, fun h => ⟨h.1, h.2⟩⟩

/-- A normal path starts with one slash or two, and consists of its names. -/
theorem IsNormal.exists_rooted {p : String} (h : IsNormal p) :
    ∃ n ≤ 1, (∀ s ∈ names p.toList, IsName s) ∧ p.toList = rooted n (names p.toList) := by
  have htext := toList_normalize h.absolute
  rw [h.normal] at htext
  have hnames : ∀ s ∈ (segments p).foldl climb [], IsName s :=
    fun s => isName_of_mem_normalSegments
  have hself : names p.toList = (segments p).foldl climb [] := by
    conv_lhs => rw [htext]
    exact names_rooted _ hnames
  rw [hself]
  exact ⟨_, moreSlashes_le p, hnames, htext⟩

/-- The directory of a normal path is the path without its last name. -/
theorem IsNormal.dirname {p : String} (h : IsNormal p) :
    IsNormal (dirname p) ∧ names (dirname p).toList = (names p.toList).dropLast := by
  obtain ⟨n, hn, hnames, htext⟩ := h.exists_rooted
  have hdir := toList_dirname_of_rooted hnames htext
  have hinit : ∀ s ∈ (names p.toList).dropLast, IsName s :=
    fun s hs => hnames s (List.dropLast_subset _ hs)
  refine ⟨⟨normalize_of_rooted hn hinit hdir, ?_⟩, ?_⟩
  · rw [isAbsolute_dirname, h.absolute]
  · rw [hdir, names_rooted n hinit]

/-! ## The first step -/

/-- From a place to one below it the steps go down. -/
theorem dropShared_append (as bs : List String) : dropShared as (as ++ bs) = ([], bs) := by
  induction as with
  | nil => cases bs <;> rfl
  | cons a as ih => rw [List.cons_append, dropShared, if_pos rfl, ih]

/-- The first step is a name exactly if the way goes down from the start. -/
theorem stepsTo_eq_cons_iff {ss ps r : List String} {s : String} (hs : IsName s) :
    stepsTo ss ps = s :: r ↔ ps = ss ++ s :: r := by
  constructor
  · intro h
    obtain ⟨front, hss, hps⟩ := exists_dropShared ss ps
    unfold stepsTo at h
    split at h
    · exact absurd (List.cons.inj h).1.symm hs.ne_dot
    · next hsteps =>
      cases hup : (dropShared ss ps).1 with
      | nil =>
        rw [hup, List.map_nil, List.nil_append] at h
        rw [hup, List.append_nil] at hss
        rw [hps, h, ← hss]
      | cons u up =>
        rw [hup, List.map_cons, List.cons_append] at h
        exact absurd (List.cons.inj h).1.symm hs.ne_dots
  · rintro rfl
    rw [stepsTo, dropShared_append]
    rfl

theorem toList_ofSegments_cons (s : String) {r : List String} (hr : r ≠ []) :
    (ofSegments (s :: r)).toList = s.toList ++ '/' :: (ofSegments r).toList := by
  obtain ⟨s', r, rfl⟩ := List.exists_cons_of_ne_nil hr
  rw [toList_ofSegments, toList_ofSegments, List.map_cons, List.map_cons,
    List.intercalate_cons_cons, List.append_assoc, List.singleton_append]

end ResolverKit.Path

namespace ResolverKit.Model

open Path

/-! ## First segments -/

/-- A specifier that is looked up from the directory of the file it stands in. -/
def IsRelative (specifier : String) : Prop :=
  specifier = "." ∨ specifier = ".." ∨ "./".toList <+: specifier.toList ∨
    "../".toList <+: specifier.toList

theorem takeWhile_of_no_slash {cs : List Char} (h : '/' ∉ cs) : cs.takeWhile (· ≠ '/') = cs := by
  rw [List.takeWhile_eq_self_iff]
  rintro c hc
  have hne : c ≠ '/' := fun he => h (he ▸ hc)
  simpa using hne

theorem takeWhile_append_slash {cs : List Char} (h : '/' ∉ cs) (r : List Char) :
    (cs ++ '/' :: r).takeWhile (· ≠ '/') = cs := by
  rw [List.takeWhile_append_of_pos, List.takeWhile_cons_of_neg (by simp), List.append_nil]
  intro c hc
  have hne : c ≠ '/' := fun he => h (he ▸ hc)
  simpa using hne

/-- A text is its first segment, or starts with that and a slash. -/
theorem eq_or_prefix_takeWhile (cs : List Char) :
    cs = cs.takeWhile (· ≠ '/') ∨ cs.takeWhile (· ≠ '/') ++ ['/'] <+: cs := by
  have hsplit := List.takeWhile_append_dropWhile (p := (· ≠ '/')) (l := cs)
  cases hrest : cs.dropWhile (· ≠ '/') with
  | nil =>
    rw [hrest, List.append_nil] at hsplit
    exact .inl hsplit.symm
  | cons c r =>
    have hc : c = '/' := by
      have hnot := List.head?_dropWhile_not (· ≠ '/') cs
      rw [hrest] at hnot
      simpa using hnot
    rw [hrest, hc] at hsplit
    exact .inr ⟨r, by simpa using hsplit⟩

/-- Whether a specifier is relative is a matter of its first segment. -/
theorem isRelative_iff {specifier : String} :
    IsRelative specifier ↔ specifier.toList.takeWhile (· ≠ '/') = ['.'] ∨
      specifier.toList.takeWhile (· ≠ '/') = ['.', '.'] := by
  constructor
  · rintro (rfl | rfl | ⟨r, hr⟩ | ⟨r, hr⟩)
    · exact .inl (by decide)
    · exact .inr (by decide)
    · exact .inl (hr ▸ takeWhile_append_slash (show '/' ∉ ['.'] by decide) r)
    · exact .inr (hr ▸ takeWhile_append_slash (show '/' ∉ ['.', '.'] by decide) r)
  · rintro (h | h)
    · rcases eq_or_prefix_takeWhile specifier.toList with hall | hprefix
      · exact .inl (String.toList_inj.1 (hall.trans h))
      · rw [h] at hprefix
        exact .inr (.inr (.inl hprefix))
    · rcases eq_or_prefix_takeWhile specifier.toList with hall | hprefix
      · exact .inr (.inl (String.toList_inj.1 (hall.trans h)))
      · rw [h] at hprefix
        exact .inr (.inr (.inr hprefix))

/-! ## What endings leave -/

/-- The extension is taken off the last segment, also in front of a line feed. -/
theorem dropExtensionInLine_append {front : List Char} (hfront : IsFront front)
    (last : List Char) :
    dropExtensionInLine (front ++ last) = front ++ dropExtensionInLine last := by
  by_cases hlast : last = []
  · -- a front ends with a slash, if with anything
    have hline : front.getLast? ≠ some '\n' := by
      rcases hfront with rfl | ⟨way, rfl⟩ <;> simp
    rw [hlast, List.append_nil, dropExtensionInLine_of_getLast? hline]
    simpa [dropExtensionInLine] using dropExtension_append hfront []
  · by_cases hline : last.getLast? = some '\n'
    · obtain ⟨init, rfl⟩ := List.getLast?_eq_some_iff.1 hline
      simp [dropExtensionInLine, dropExtension_append hfront, ← List.append_assoc]
    · have hwhole : (front ++ last).getLast? ≠ some '\n' := by
        rwa [List.getLast?_append_of_ne_nil _ hlast]
      rw [dropExtensionInLine_of_getLast? hwhole, dropExtensionInLine_of_getLast? hline,
        dropExtension_append hfront]

/-- Nothing is added to a text whose extension is taken off. -/
theorem dropExtensionInLine_subset (cs : List Char) : dropExtensionInLine cs ⊆ cs := by
  have hextension : ∀ cs, dropExtension cs ⊆ cs := by
    intro cs
    obtain ⟨ending, -, hcs⟩ := exists_ending cs
    conv_rhs => rw [hcs]
    exact List.subset_append_left _ _
  unfold dropExtensionInLine
  split
  · next r hr =>
    have hcs : cs = r.reverse ++ ['\n'] := by
      rw [← List.reverse_reverse cs, hr, List.reverse_cons]
    rw [hcs]
    exact List.append_subset.2 ⟨fun _ hc => List.mem_append_left _ (hextension _ hc),
      List.subset_append_right _ _⟩
  · exact hextension cs

/-- The text without the name `index` at its end, if a slash stands in front of it. -/
def withoutIndex (cs : List Char) : List Char := (dropEnding? "/index" cs).getD cs

/-- Taking off `index` leaves the first segment as it is. -/
theorem takeWhile_withoutIndex {first : List Char} (hfirst : '/' ∉ first) (r : List Char) :
    (withoutIndex (first ++ '/' :: r)).takeWhile (· ≠ '/') = first := by
  unfold withoutIndex
  cases hdrop : dropEnding? "/index" (first ++ '/' :: r) with
  | none => exact takeWhile_append_slash hfirst r
  | some way =>
    have hway := dropEnding?_eq_some_iff.1 hdrop
    rw [Option.getD_some]
    rcases List.append_eq_append_iff.1 hway with ⟨a, rfl, hr⟩ | ⟨a, hfirst', hindex⟩
    · -- the slash in front of `index` is this one or a later one
      cases a with
      | nil => simpa using takeWhile_of_no_slash hfirst
      | cons c a =>
        obtain ⟨rfl, -⟩ := List.cons.inj hr
        exact takeWhile_append_slash hfirst a
    · cases a with
      | nil =>
        rw [List.append_nil] at hfirst'
        exact hfirst' ▸ takeWhile_of_no_slash hfirst
      | cons c a =>
        -- the slash would stand in the first segment
        have hc : '/' = c := (List.cons.inj (show '/' :: "index".toList = c :: _ from hindex)).1
        exact absurd (by simp [hfirst', ← hc]) hfirst

theorem withoutIndex_of_no_slash {cs : List Char} (h : '/' ∉ cs) : withoutIndex cs = cs := by
  unfold withoutIndex
  cases hdrop : dropEnding? "/index" cs with
  | none => rfl
  | some way => exact absurd (by simp [dropEnding?_eq_some_iff.1 hdrop]) h

theorem toList_specifierOf (relative : String) :
    (specifierOf relative).toList =
      withoutIndex (dropExtensionInLine (dotted relative.toList)) := by
  rw [specifierOf, String.toList_ofList]
  rfl

/-- The first segment of a specifier is that of the dotted path, if another one follows. -/
theorem takeWhile_specifierOf {relative : String} {first r : List Char} (hfirst : '/' ∉ first)
    (h : dotted relative.toList = first ++ '/' :: r) :
    (specifierOf relative).toList.takeWhile (· ≠ '/') = first := by
  have hsplit : first ++ '/' :: r = (first ++ ['/']) ++ r := by simp
  rw [toList_specifierOf, h, hsplit, dropExtensionInLine_append (.inr ⟨first, rfl⟩),
    List.append_assoc, List.singleton_append, takeWhile_withoutIndex hfirst]

/-- A dotted path of one segment becomes that segment without its extension. -/
theorem takeWhile_specifierOf_of_no_slash {relative : String} {last : List Char}
    (hlast : '/' ∉ last) (h : dotted relative.toList = last) :
    (specifierOf relative).toList.takeWhile (· ≠ '/') = dropExtensionInLine last := by
  have hslash : '/' ∉ dropExtensionInLine last := fun hc => hlast (dropExtensionInLine_subset _ hc)
  rw [toList_specifierOf, h, withoutIndex_of_no_slash hslash, takeWhile_of_no_slash hslash]

/-! ## Hidden names -/

/-- The path goes down from the directory to a name with a dot at its front. -/
def IsHiddenBelow (dir p : String) : Prop :=
  ∃ s r, names p.toList = names dir.toList ++ s :: r ∧ s.toList.head? = some '.'

/-- The path goes down to a hidden name exactly if that is its first step. -/
theorem isHiddenBelow_iff {dir p s : String} {r : List String}
    (hnames : ∀ x ∈ names p.toList, IsName x)
    (hsteps : stepsTo (names dir.toList) (names p.toList) = s :: r) :
    IsHiddenBelow dir p ↔ IsName s ∧ s.toList.head? = some '.' := by
  constructor
  · rintro ⟨s', r', hdown, hhead⟩
    have hs' : IsName s' := hnames s' (by simp [hdown])
    rw [(stepsTo_eq_cons_iff hs').2 hdown] at hsteps
    obtain ⟨rfl, -⟩ := List.cons.inj hsteps
    exact ⟨hs', hhead⟩
  · rintro ⟨hs, hhead⟩
    exact ⟨s, r, (stepsTo_eq_cons_iff hs).1 hsteps, hhead⟩

/-- A path whose first step has no dot at its front gets one. -/
theorem isRelative_of_head?_ne {s : String} {r : List String} (hne : s ≠ "")
    (h : s.toList.head? ≠ some '.') : IsRelative (specifierOf (ofSegments (s :: r))) := by
  obtain ⟨text, htext⟩ : ∃ text, (ofSegments (s :: r)).toList = s.toList ++ text := by
    by_cases hr : r = []
    · exact ⟨[], by simp [hr, ofSegments]⟩
    · exact ⟨_, toList_ofSegments_cons s hr⟩
  have hs : s.toList ≠ [] := by simpa using hne
  have hhead : (s.toList ++ text).head? ≠ some '.' := by
    rwa [List.head?_append_of_ne_nil _ hs]
  have hdotted : dotted (ofSegments (s :: r)).toList = ['.'] ++ '/' :: (s.toList ++ text) := by
    rw [htext, dotted, if_neg hhead]
    rfl
  exact isRelative_iff.2 (.inl (takeWhile_specifierOf (by decide) hdotted))

/-- The first segment of the specifier for a path whose first step has a dot at its front. -/
theorem takeWhile_specifierOf_of_head? {s : String} {r : List String} (hslash : '/' ∉ s.toList)
    (h : s.toList.head? = some '.') :
    (specifierOf (ofSegments (s :: r))).toList.takeWhile (· ≠ '/') =
      if r = [] then dropExtensionInLine s.toList else s.toList := by
  have hs : s.toList ≠ [] := by
    intro hnil
    rw [hnil] at h
    cases h
  split
  · next hr =>
    refine takeWhile_specifierOf_of_no_slash hslash ?_
    rw [hr, dotted, if_pos (by simpa [ofSegments] using h)]
    simp [ofSegments]
  · next hr =>
    refine takeWhile_specifierOf hslash (r := (ofSegments r).toList) ?_
    have hhead : (ofSegments (s :: r)).toList.head? = some '.' := by
      rw [toList_ofSegments_cons s hr, List.head?_append_of_ne_nil _ hs, h]
    rw [dotted, if_pos hhead, toList_ofSegments_cons s hr]

/-- The specifier for a model file is relative unless the file is reached from the directory of the
generated file by going down to a hidden name. -/
theorem specifier?_isRelative_iff (cwd : String) {file output : String} (hfile : IsNormal file)
    (houtput : IsNormal output)
    (hbase : String.ofList (dropExtensionInLine (basename file).toList) ∉ ["", ".", ".."]) :
    ∃ specifier, specifier? cwd file output = some specifier ∧
      (IsRelative specifier ↔ ¬ IsHiddenBelow (dirname output) file) := by
  obtain ⟨n, -, hnames, htext⟩ := hfile.exists_rooted
  have hdir := houtput.dirname.1
  have hne : file ≠ "" := by
    rintro rfl
    cases hfile.absolute
  have hspecifier : specifier? cwd file output = some (specifierOf (ofSegments
      (stepsTo (names (dirname output).toList) (names file.toList)))) := by
    rw [specifier?, absolute_of_normal cwd houtput.absolute houtput.normal, relative?_eq cwd hne,
      absolute_of_normal cwd hdir.absolute hdir.normal,
      absolute_of_normal cwd hfile.absolute hfile.normal, Option.map_some]
  refine ⟨_, hspecifier, ?_⟩
  have hclimbs := @climbs_stepsTo (names (dirname output).toList) (names file.toList) hnames
  obtain ⟨s, r, hsteps⟩ := List.exists_cons_of_ne_nil hclimbs.ne_nil
  have hstep := hclimbs.isStep s (by simp [hsteps])
  rw [isHiddenBelow_iff hnames hsteps, hsteps]
  by_cases hhead : s.toList.head? = some '.'
  · have hslash : '/' ∉ s.toList := by
      rcases hstep with rfl | rfl | hname
      · decide
      · decide
      · exact hname.no_slash
    have hfirst := takeWhile_specifierOf_of_head? (r := r) hslash hhead
    rcases or_assoc.2 hstep with hdots | hname
    · -- up from the directory, or the directory itself
      refine iff_of_true (isRelative_iff.2 ?_) fun h => hdots.elim h.1.ne_dot h.1.ne_dots
      have hkeep : dropExtensionInLine s.toList = s.toList := by
        rcases hdots with rfl | rfl <;> decide
      rw [hfirst, hkeep, ite_self]
      exact hdots.imp (fun h => by rw [h]; rfl) fun h => by rw [h]; rfl
    · refine iff_of_false (fun hrelative => ?_) fun hnot => hnot ⟨hname, hhead⟩
      rw [isRelative_iff, hfirst] at hrelative
      split at hrelative
      · next hr =>
        -- the hidden name is that of the file
        have hdown := (stepsTo_eq_cons_iff hname).1 hsteps
        rw [hr] at hdown
        rw [hdown] at htext hnames
        rw [toList_basename_of_rooted hnames htext] at hbase
        rcases hrelative with h | h <;> exact hbase (by rw [h]; decide)
      · rcases hrelative with h | h
        · exact hname.ne_dot (String.toList_inj.1 h)
        · exact hname.ne_dots (String.toList_inj.1 h)
  · have hs : s ≠ "" := by
      rcases hstep with rfl | rfl | hname
      · decide
      · decide
      · exact hname.ne_empty
    exact iff_of_true (isRelative_of_head?_ne hs hhead) fun h => hhead h.2

/-- A hidden file beside the generated one: the specifier names a package. -/
theorem specifier?_hidden_file :
    IsNormal "/project/.models.ts" ∧ IsNormal "/project/types.ts" ∧
      String.ofList (dropExtensionInLine (basename "/project/.models.ts").toList) ∉
        ["", ".", ".."] ∧
      specifier? "/" "/project/.models.ts" "/project/types.ts" = some ".models" ∧
      ¬ IsRelative ".models" := by
  have hfile : IsNormal "/project/.models.ts" := by decide +kernel
  have houtput : IsNormal "/project/types.ts" := by decide +kernel
  have hbase : String.ofList (dropExtensionInLine (basename "/project/.models.ts").toList) ∉
      ["", ".", ".."] := by decide +kernel
  have hspecifier : specifier? "/" "/project/.models.ts" "/project/types.ts" = some ".models" := by
    decide +kernel
  refine ⟨hfile, houtput, hbase, hspecifier, fun hrelative => ?_⟩
  obtain ⟨specifier, hsome, hiff⟩ := specifier?_isRelative_iff "/" hfile houtput hbase
  obtain rfl : ".models" = specifier := Option.some.inj (hspecifier.symm.trans hsome)
  exact hiff.1 hrelative ⟨".models.ts", [], by decide +kernel, by decide⟩

end ResolverKit.Model
