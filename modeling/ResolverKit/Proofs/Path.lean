import ResolverKit.FileTree

/-!
# Names in a path

The text of a path and the names it is made of.  `names` are the segments that are not empty; on
them a path can be taken apart and put together without counting slashes.  `climb` says where a
segment leads from a directory, whatever stands there, so that `placeOf` is the place that a path
names in every tree with the same working directory.

    names (trimSlashes cs) = names cs                                      (names_trimSlashes)
    isAbsolute p → names (normalize p) = (names p).foldl climb []          (names_normalize)
    t.Housed → names (t.absolute p) = t.placeOf p                          (names_absolute)
-/

namespace ResolverKit.Text

/-! ## Pieces -/

theorem pieces_append_cons (sep : Char) (a b : List Char) :
    pieces sep (a ++ sep :: b) = pieces sep a ++ pieces sep b := by
  induction a with
  | nil => simp [pieces]
  | cons c r ih =>
    by_cases h : c = sep
    · simp [pieces, h, ih]
    · cases hp : pieces sep r with
      | nil => exact absurd hp (pieces_ne_nil sep r)
      | cons p ps => simp [pieces, h, ih, hp]

theorem pieces_eq_singleton {sep : Char} {cs : List Char} (h : sep ∉ cs) :
    pieces sep cs = [cs] := by
  induction cs with
  | nil => rfl
  | cons c r ih =>
    obtain ⟨hc, hr⟩ : sep ≠ c ∧ sep ∉ r := by simpa using h
    simp [pieces, hc.symm, ih hr]

theorem sep_not_mem_piece {sep : Char} {cs p : List Char} (h : p ∈ pieces sep cs) : sep ∉ p := by
  induction cs generalizing p with
  | nil =>
    have hp : p = [] := by simpa [pieces] using h
    simp [hp]
  | cons c r ih =>
    by_cases hc : c = sep
    · rcases (by simpa [pieces, hc] using h : p = [] ∨ p ∈ pieces sep r) with rfl | hp
      · simp
      · exact ih hp
    · cases hr : pieces sep r with
      | nil => exact absurd hr (pieces_ne_nil sep r)
      | cons q qs =>
        rcases (by simpa [pieces, hc, hr] using h : p = c :: q ∨ p ∈ qs) with rfl | hp
        · have := ih (p := q) (by simp [hr])
          simp [this, Ne.symm hc]
        · exact ih (by simp [hr, hp])

theorem pieces_intercalate {sep : Char} {ps : List (List Char)} (hne : ps ≠ [])
    (h : ∀ p ∈ ps, sep ∉ p) : pieces sep ([sep].intercalate ps) = ps := by
  induction ps with
  | nil => exact absurd rfl hne
  | cons p r ih =>
    cases r with
    | nil => simp [pieces_eq_singleton (h p (by simp))]
    | cons q qs =>
      rw [List.intercalate_cons_cons, List.append_assoc, List.singleton_append, pieces_append_cons,
        pieces_eq_singleton (h p (by simp)), ih (by simp) fun x hx => h x (by simp [hx])]
      rfl

end ResolverKit.Text

namespace ResolverKit.Path

/-! ## Names -/

/-- The names in a path: its segments that are not empty. -/
def names (cs : List Char) : List String :=
  ((Text.pieces '/' cs).map String.ofList).filter (· ≠ "")

theorem names_toList (p : String) : names p.toList = (segments p).filter (· ≠ "") := rfl

@[simp] theorem names_nil : names [] = [] := by decide

theorem names_append_cons (a b : List Char) : names (a ++ '/' :: b) = names a ++ names b := by
  simp [names, Text.pieces_append_cons]

@[simp] theorem names_cons (b : List Char) : names ('/' :: b) = names b := by
  simpa using names_append_cons [] b

theorem names_replicate_append (n : Nat) (cs : List Char) :
    names (List.replicate n '/' ++ cs) = names cs := by
  induction n with
  | zero => rfl
  | succ n ih => simpa [List.replicate_succ] using ih

theorem names_append_replicate (cs : List Char) (n : Nat) :
    names (cs ++ List.replicate n '/') = names cs := by
  cases n with
  | zero => simp
  | succ n =>
    rw [List.replicate_succ, names_append_cons, ← List.append_nil (List.replicate n '/'),
      names_replicate_append]
    simp

/-- A slash or nothing stands in front of the last piece. -/
theorem splitLast_parts (cs : List Char) :
    ∃ front last, cs = front ++ last ∧ '/' ∉ last ∧ (front = [] ∨ ∃ f, front = f ++ ['/']) ∧
      splitLast cs = (trimSlashes front, last) := by
  let last := (cs.reverse.takeWhile (· ≠ '/')).reverse
  let front := (cs.reverse.dropWhile (· ≠ '/')).reverse
  have hcs : front ++ last = cs := by
    rw [← List.reverse_append, List.takeWhile_append_dropWhile, List.reverse_reverse]
  have hsize : cs.length - (cs.reverse.takeWhile (· ≠ '/')).length = front.length := by
    have := congrArg List.length hcs
    simp only [List.length_append, last, List.length_reverse] at this
    omega
  refine ⟨front, last, hcs.symm, fun h => ?_, ?_, ?_⟩
  · have := List.all_takeWhile (l := cs.reverse) (p := (· ≠ '/'))
    rw [List.all_eq_true] at this
    simpa using this '/' (by simpa [last] using h)
  · cases hd : cs.reverse.dropWhile (· ≠ '/') with
    | nil =>
      left
      show (cs.reverse.dropWhile (· ≠ '/')).reverse = []
      rw [hd, List.reverse_nil]
    | cons c r =>
      have hc : c = '/' := by
        have := List.head?_dropWhile_not (· ≠ '/') cs.reverse
        rw [hd] at this
        simpa using this
      right
      refine ⟨r.reverse, ?_⟩
      show (cs.reverse.dropWhile (· ≠ '/')).reverse = r.reverse ++ ['/']
      rw [hd, List.reverse_cons, hc]
  · simp only [splitLast, hsize]
    rw [← hcs, List.take_left, List.drop_left]

theorem trimSlashes_append (cs : List Char) :
    ∃ n, trimSlashes cs ++ List.replicate n '/' = cs := by
  unfold trimSlashes
  split
  · exact ⟨0, by simp⟩
  · refine ⟨(cs.reverse.takeWhile (· = '/')).length, ?_⟩
    have hall : cs.reverse.takeWhile (· = '/') =
        List.replicate (cs.reverse.takeWhile (· = '/')).length '/' := by
      refine List.eq_replicate_iff.2 ⟨rfl, fun c hc => ?_⟩
      have := List.all_takeWhile (l := cs.reverse) (p := (· = '/'))
      rw [List.all_eq_true] at this
      simpa using this c hc
    calc _ = (cs.reverse.dropWhile (· = '/')).reverse ++
          (cs.reverse.takeWhile (· = '/')).reverse := by
            rw [← List.reverse_replicate, ← hall]
      _ = cs := by
        rw [← List.reverse_append, List.takeWhile_append_dropWhile, List.reverse_reverse]

@[simp] theorem names_trimSlashes (cs : List Char) : names (trimSlashes cs) = names cs := by
  obtain ⟨n, hn⟩ := trimSlashes_append cs
  calc names (trimSlashes cs) = names (trimSlashes cs ++ List.replicate n '/') :=
        (names_append_replicate _ n).symm
    _ = names cs := by rw [hn]

/-- The names of a path are those of its directory part and the last segment. -/
theorem names_splitLast (cs : List Char) :
    names cs = names (splitLast cs).1 ++ names (splitLast cs).2 := by
  obtain ⟨front, last, rfl, -, hfront, hsplit⟩ := splitLast_parts cs
  rw [hsplit, names_trimSlashes]
  rcases hfront with rfl | ⟨f, rfl⟩
  · rfl
  · simp [names_append_cons]

theorem isPrefix_splitLast (cs : List Char) : (splitLast cs).1 <+: cs := by
  obtain ⟨front, last, rfl, -, -, hsplit⟩ := splitLast_parts cs
  obtain ⟨n, hn⟩ := trimSlashes_append front
  rw [hsplit]
  exact ⟨List.replicate n '/' ++ last, by rw [← List.append_assoc, hn]⟩

theorem eq_nil_of_trimSlashes {cs : List Char} (h : trimSlashes cs = []) : cs = [] := by
  unfold trimSlashes at h
  split at h
  · exact h
  · next hall =>
    have hdrop : cs.reverse.dropWhile (· = '/') = [] := by simpa using h
    have hslash := (List.takeWhile_append_dropWhile (p := (· = '/')) (l := cs.reverse)).symm
    rw [hdrop, List.append_nil] at hslash
    have := List.all_takeWhile (l := cs.reverse) (p := (· = '/'))
    rw [← hslash, List.all_reverse] at this
    exact absurd this hall

theorem isAbsolute_dirname (p : String) : isAbsolute (dirname p) = isAbsolute p := by
  obtain ⟨front, last, hp, hlast, -, hsplit⟩ := splitLast_parts p.toList
  have hdir : (dirname p).toList = trimSlashes front := by simp [dirname, hsplit]
  unfold isAbsolute
  rw [hdir, hp]
  cases hf : trimSlashes front with
  | nil =>
    rw [eq_nil_of_trimSlashes hf]
    cases last with
    | nil => rfl
    | cons c r =>
      have : '/' ≠ c := by
        rintro rfl
        simp at hlast
      simp [this.symm]
  | cons c r =>
    obtain ⟨n, hn⟩ := trimSlashes_append front
    rw [← hn, hf]
    rfl

/-- The directory part has the names in front of the last segment. -/
theorem names_dirname {p name : String} {before : List String}
    (h : segments p = before ++ [name]) : names (dirname p).toList = before.filter (· ≠ "") := by
  obtain ⟨front, last, hp, hlast, hfront, hsplit⟩ := splitLast_parts p.toList
  have hdir : names (dirname p).toList = names front := by simp [dirname, hsplit]
  unfold segments at h
  rw [hp] at h
  rcases hfront with rfl | ⟨f, rfl⟩
  · rw [List.nil_append, Text.pieces_eq_singleton hlast] at h
    have : before = [] := by
      have := congrArg List.length h
      simpa using this
    simp [hdir, this]
  · rw [List.append_assoc, List.singleton_append, Text.pieces_append_cons,
      Text.pieces_eq_singleton hlast, List.map_append] at h
    have hbefore := (List.append_inj' h rfl).1
    rw [hdir, names_append_cons, names_nil, List.append_nil, ← hbefore]
    rfl

/-! ## Climbing -/

/-- Where a segment leads from a directory, whatever stands there. -/
def climb (here : List String) (s : String) : List String :=
  if s = "" || s = "." then here else if s = ".." then here.dropLast else here ++ [s]

/-- The name of an entry of a directory: neither empty nor dots alone, and without slashes. -/
structure IsName (s : String) : Prop where
  ne_empty : s ≠ ""
  ne_dot : s ≠ "."
  ne_dots : s ≠ ".."
  no_slash : '/' ∉ s.toList

instance (s : String) : Decidable (IsName s) :=
  decidable_of_iff (s ≠ "" ∧ s ≠ "." ∧ s ≠ ".." ∧ '/' ∉ s.toList)
    ⟨fun ⟨h1, h2, h3, h4⟩ => ⟨h1, h2, h3, h4⟩, fun h => ⟨h.1, h.2, h.3, h.4⟩⟩

theorem foldl_climb_filter (here ss : List String) :
    (ss.filter (· ≠ "")).foldl climb here = ss.foldl climb here := by
  induction ss generalizing here with
  | nil => rfl
  | cons s r ih =>
    by_cases hs : s = ""
    · simp [hs, climb, ← ih]
    · simp [hs, ← ih]

theorem climb_of_isName {s : String} (h : IsName s) (here : List String) :
    climb here s = here ++ [s] := by
  simp [climb, h.ne_empty, h.ne_dot, h.ne_dots]

theorem foldl_climb_of_isName {ss : List String} (h : ∀ s ∈ ss, IsName s) (here : List String) :
    ss.foldl climb here = here ++ ss := by
  induction ss generalizing here with
  | nil => simp
  | cons s r ih =>
    rw [List.foldl_cons, climb_of_isName (h s (by simp)), ih fun x hx => h x (by simp [hx])]
    simp

theorem isName_of_mem_foldl_climb {here ss : List String} (hh : ∀ s ∈ here, IsName s)
    (hs : ∀ s ∈ ss, '/' ∉ s.toList) : ∀ s ∈ ss.foldl climb here, IsName s := by
  induction ss generalizing here with
  | nil => exact hh
  | cons s r ih =>
    refine ih ?_ fun x hx => hs x (by simp [hx])
    intro x hx
    unfold climb at hx
    split at hx
    · exact hh x hx
    · next h1 =>
      split at hx
      · exact hh x ((List.dropLast_sublist here).subset hx)
      · next h2 =>
        rcases List.mem_append.1 hx with hx | hx
        · exact hh x hx
        · obtain rfl : x = s := by simpa using hx
          simp only [Bool.or_eq_true, decide_eq_true_eq, not_or] at h1
          exact ⟨h1.1, h1.2, h2, hs x (by simp)⟩

/-! ## Normal paths -/

/-- From the root on, working off the segments of a path is climbing along it. -/
theorem normalSegments_eq_climb (ss : List String) :
    normalSegments true ss = ss.foldl climb [] := by
  have step : ∀ (ss stack : List String), ".." ∉ stack →
      (ss.foldl (pushSegment true) stack).reverse = ss.foldl climb stack.reverse := by
    intro ss
    induction ss with
    | nil => intro stack _; rfl
    | cons s r ih =>
      intro stack hst
      rw [List.foldl_cons, List.foldl_cons]
      by_cases h1 : s = "" ∨ s = "."
      · have : pushSegment true stack s = stack := by simp [pushSegment, h1]
        rw [this, ih stack hst]
        simp [climb, h1]
      · by_cases h2 : s = ".."
        · subst h2
          cases stack with
          | nil => simpa [pushSegment, climb] using ih [] (by simp)
          | cons last below =>
            obtain ⟨hl, hb⟩ : ".." ≠ last ∧ ".." ∉ below := by simpa using hst
            simpa [pushSegment, climb, hl.symm] using ih below hb
        · have : pushSegment true stack s = s :: stack := by
            simp [pushSegment, not_or.1 h1, h2]
          rw [this, ih (s :: stack) (by simp [Ne.symm h2, hst])]
          simp [climb, not_or.1 h1, h2]
  simpa [normalSegments] using step ss [] (by simp)

theorem isName_of_mem_normalSegments {p s : String}
    (h : s ∈ (segments p).foldl climb []) : IsName s := by
  refine isName_of_mem_foldl_climb (by simp) (fun x hx => ?_) s h
  obtain ⟨q, hq, rfl⟩ := List.mem_map.1 hx
  simpa using Text.sep_not_mem_piece hq

theorem toList_ofSegments (ss : List String) :
    (ofSegments ss).toList = ['/'].intercalate (ss.map String.toList) := by
  rw [ofSegments, String.toList_intercalate]
  rfl

theorem names_ofSegments {ss : List String} (h : ∀ s ∈ ss, s ≠ "" ∧ '/' ∉ s.toList) :
    names (ofSegments ss).toList = ss := by
  rw [toList_ofSegments]
  by_cases hne : ss = []
  · simp [hne]
  · have hfilter : ss.filter (· ≠ "") = ss := by
      refine List.filter_eq_self.2 fun s hs => ?_
      simpa using (h s hs).1
    rw [names, Text.pieces_intercalate (by simpa using hne)]
    · simpa [Function.comp_def] using hfilter
    · intro p hp
      obtain ⟨s, hs, rfl⟩ := List.mem_map.1 hp
      exact (h s hs).2

theorem rootSlashes_of_isAbsolute {p : String} (h : isAbsolute p = true) :
    rootSlashes p.toList = 1 ∨ rootSlashes p.toList = 2 := by
  obtain ⟨r, hr⟩ : ∃ r, p.toList = '/' :: r := by
    cases hp : p.toList with
    | nil => simp [isAbsolute, hp] at h
    | cons c r => exact ⟨r, by simpa [isAbsolute, hp] using h⟩
  rw [hr]
  unfold rootSlashes
  split <;> simp_all

/-- The text of a path from the root: one slash and `n` more, and the names between slashes. -/
def rooted (n : Nat) (ss : List String) : List Char :=
  '/' :: (List.replicate n '/' ++ (ofSegments ss).toList)

theorem names_rooted (n : Nat) {ss : List String} (h : ∀ s ∈ ss, IsName s) :
    names (rooted n ss) = ss := by
  rw [rooted, names_cons, names_replicate_append]
  exact names_ofSegments fun s hs => ⟨(h s hs).ne_empty, (h s hs).no_slash⟩

/-- A path from the root in its shortest form. -/
theorem toList_normalize {p : String} (h : isAbsolute p = true) :
    (normalize p).toList = rooted (rootSlashes p.toList - 1) ((segments p).foldl climb []) := by
  have hroot := rootSlashes_of_isAbsolute h
  obtain ⟨n, hn⟩ : ∃ n, rootSlashes p.toList = n + 1 := ⟨rootSlashes p.toList - 1, by omega⟩
  have htext : (String.ofList (List.replicate (n + 1) '/') ++
      ofSegments ((segments p).foldl climb [])).toList =
      rooted n ((segments p).foldl climb []) := by
    simp [rooted, List.replicate_succ]
  have hne : String.ofList (List.replicate (n + 1) '/') ++
      ofSegments ((segments p).foldl climb []) ≠ "" := by
    intro he
    rw [he] at htext
    simp [rooted] at htext
  simp only [normalize, hn]
  rw [decide_eq_true (by simp : n + 1 ≠ 0), normalSegments_eq_climb, if_neg hne, htext,
    Nat.add_sub_cancel]

/-- In front of the names of a normal path stands one slash or two. -/
theorem normalize_of_isAbsolute {p : String} (h : isAbsolute p = true) :
    ∃ n, (n = 0 ∨ n = 1) ∧ (normalize p).toList =
      '/' :: (List.replicate n '/' ++ (ofSegments ((segments p).foldl climb [])).toList) := by
  have hroot := rootSlashes_of_isAbsolute h
  exact ⟨_, by omega, toList_normalize h⟩

theorem isAbsolute_normalize {p : String} (h : isAbsolute p = true) :
    isAbsolute (normalize p) = true := by
  simp [isAbsolute, toList_normalize h, rooted]

theorem names_normalize {p : String} (h : isAbsolute p = true) :
    names (normalize p).toList = (segments p).foldl climb [] := by
  rw [toList_normalize h]
  exact names_rooted _ fun s hs => isName_of_mem_normalSegments hs

theorem isAbsolute_join {base : String} (h : isAbsolute base = true) (p : String) :
    isAbsolute (join base p) = true := by
  obtain ⟨r, hr⟩ : ∃ r, base.toList = '/' :: r := by
    cases hp : base.toList with
    | nil => simp [isAbsolute, hp] at h
    | cons c r => exact ⟨r, by simpa [isAbsolute, hp] using h⟩
  unfold join
  split
  · next hp =>
    rcases (by simpa using hp : isAbsolute p = true ∨ base = "") with hp | hp
    · exact hp
    · simp [hp] at hr
  · split <;> simp [isAbsolute, hr]

theorem names_join {base p : String} (hp : isAbsolute p = false) :
    names (join base p).toList = names base.toList ++ names p.toList := by
  unfold join
  rw [hp, Bool.false_or]
  split
  · next hb =>
    have : base = "" := by simpa using hb
    simp [this]
  · split
    · next hlast =>
      obtain ⟨b, hb⟩ : ∃ b, base.toList = b ++ ['/'] :=
        List.getLast?_eq_some_iff.1 hlast
      simp [hb, names_append_cons]
    · simp [names_append_cons]

end ResolverKit.Path

namespace ResolverKit.FileTree

open Path

/-! ## Directory parts -/

theorem isPrefix_cutLast (cs : List Char) : (cutLast cs).1 <+: cs := by
  unfold cutLast
  simp only
  split
  · exact (isPrefix_splitLast _).trans (isPrefix_splitLast _)
  · exact isPrefix_splitLast _

theorem isPrefix_names_cutLast (cs : List Char) : names (cutLast cs).1 <+: names cs := by
  have hone : ∀ cs, names (splitLast cs).1 <+: names cs := fun cs =>
    ⟨names (splitLast cs).2, (names_splitLast cs).symm⟩
  unfold cutLast
  simp only
  split
  · exact (hone _).trans (hone _)
  · exact hone _

/-! ## Places -/

/-- The working directory is a way of names, as it is on every disk. -/
def Housed (t : FileTree) : Prop := ∀ s ∈ t.cwd, IsName s

instance (t : FileTree) : Decidable t.Housed :=
  inferInstanceAs (Decidable (∀ s ∈ t.cwd, IsName s))

/-- The place that a path names, whatever stands there. -/
def placeOf (t : FileTree) (p : String) : List String :=
  (segments p).foldl climb (t.startOf p)

theorem placeOf_eq_names (t : FileTree) (p : String) :
    t.placeOf p = (names p.toList).foldl climb (t.startOf p) := by
  rw [placeOf, names_toList, foldl_climb_filter]

theorem isAbsolute_cwdPath (t : FileTree) : isAbsolute t.cwdPath = true := by
  simp [cwdPath, isAbsolute]

/-- A path from the root is the shortest form of a path that starts there. -/
theorem exists_absolute_eq_normalize (t : FileTree) (p : String) :
    ∃ q, isAbsolute q = true ∧ t.absolute p = normalize q := by
  unfold absolute Path.absolute
  cases hp : isAbsolute p with
  | true =>
    rw [if_pos rfl]
    exact ⟨p, hp, rfl⟩
  | false =>
    rw [if_neg Bool.false_ne_true]
    exact ⟨join t.cwdPath p, isAbsolute_join t.isAbsolute_cwdPath p, rfl⟩

theorem isAbsolute_absolute (t : FileTree) (p : String) : isAbsolute (t.absolute p) = true := by
  obtain ⟨q, hq, hp⟩ := t.exists_absolute_eq_normalize p
  rw [hp]
  exact isAbsolute_normalize hq

/-- The path from the root is spelled with the names of the place. -/
theorem names_absolute {t : FileTree} (h : t.Housed) (p : String) :
    names (t.absolute p).toList = t.placeOf p := by
  unfold absolute Path.absolute
  cases hp : isAbsolute p with
  | true => simp [names_normalize hp, placeOf, startOf, hp]
  | false =>
    have hcwd : names t.cwdPath.toList = t.cwd := by
      have : t.cwdPath.toList = '/' :: (ofSegments t.cwd).toList := by simp [cwdPath]
      rw [this, names_cons]
      exact names_ofSegments fun s hs => ⟨(h s hs).ne_empty, (h s hs).no_slash⟩
    simp only [Bool.false_eq_true, if_false]
    rw [names_normalize (isAbsolute_join t.isAbsolute_cwdPath p), ← foldl_climb_filter,
      ← names_toList, names_join hp, List.foldl_append, hcwd, foldl_climb_of_isName h,
      placeOf_eq_names]
    simp [startOf, hp]

theorem isName_of_mem_absolute {t : FileTree} {p s : String}
    (hs : s ∈ names (t.absolute p).toList) : IsName s := by
  obtain ⟨q, hq, hp⟩ := t.exists_absolute_eq_normalize p
  rw [hp, names_normalize hq] at hs
  exact isName_of_mem_normalSegments hs

end ResolverKit.FileTree
