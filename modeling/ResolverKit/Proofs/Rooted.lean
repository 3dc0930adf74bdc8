import ResolverKit.Proofs.Presence

/-!
# Paths from the root, as texts

Two paths from the root are the same text if they name the same place and start with as many
slashes.  The directories that scaffolds are written to all start like the output directory, so
that remembering the text of a directory is remembering its place:

    t.Housed → (t.absolute p).toList = rooted (moreSlashes p) (t.placeOf p)     (toList_absolute)
    moreSlashes (dirname (join dir p)) = moreSlashes dir                (moreSlashes_dirname_join)
-/

namespace ResolverKit.Path

/-! ## Cutting -/

/-- A path is cut behind its last slash. -/
theorem splitLast_append {front last : List Char} (hlast : '/' ∉ last)
    (hfront : front = [] ∨ ∃ f, front = f ++ ['/']) :
    splitLast (front ++ last) = (trimSlashes front, last) := by
  have hsize : ((front ++ last).reverse.takeWhile (· ≠ '/')).length = last.length := by
    rw [List.reverse_append, List.takeWhile_append_of_pos]
    · rcases hfront with rfl | ⟨f, rfl⟩ <;> simp
    · intro c hc
      have hne : c ≠ '/' := by
        rintro rfl
        exact hlast (List.mem_reverse.1 hc)
      simpa using hne
  unfold splitLast
  simp only [hsize, List.length_append, Nat.add_sub_cancel, List.take_left, List.drop_left]

theorem trimSlashes_replicate (n : Nat) :
    trimSlashes (List.replicate n '/') = List.replicate n '/' := by
  simp [trimSlashes]

theorem trimSlashes_append_slash {cs : List Char} {c : Char} (h : c ≠ '/') :
    trimSlashes (cs ++ [c] ++ ['/']) = cs ++ [c] := by
  simp [trimSlashes, h]

theorem exists_toList_eq_append {s : String} (h : IsName s) :
    ∃ cs c, s.toList = cs ++ [c] ∧ c ≠ '/' := by
  have hne : s.toList ≠ [] := by simpa using h.ne_empty
  refine ⟨s.toList.dropLast, s.toList.getLast hne, (List.dropLast_concat_getLast hne).symm, ?_⟩
  intro hc
  exact h.no_slash (hc ▸ List.getLast_mem hne)

theorem intercalate_append_singleton {sep : List Char} {ps : List (List Char)} (h : ps ≠ [])
    (p : List Char) : sep.intercalate (ps ++ [p]) = sep.intercalate ps ++ sep ++ p := by
  induction ps with
  | nil => exact absurd rfl h
  | cons q r ih =>
    cases r with
    | nil => simp
    | cons q' r => simpa using ih (by simp)

theorem rooted_append_singleton {n : Nat} {ss : List String} {s : String} (hss : ss ≠ []) :
    rooted n (ss ++ [s]) = rooted n ss ++ ['/'] ++ s.toList := by
  simp only [rooted, toList_ofSegments, List.map_append, List.map_cons, List.map_nil]
  rw [intercalate_append_singleton (by simpa using hss)]
  simp

/-- The directory part of a path from the root names the place above. -/
theorem splitLast_rooted (n : Nat) {ss : List String} {s : String} (hs : IsName s)
    (hss : ∀ x ∈ ss, IsName x) : splitLast (rooted n (ss ++ [s])) = (rooted n ss, s.toList) := by
  rcases List.eq_nil_or_concat ss with rfl | ⟨r, x, rfl⟩
  · have hone : rooted n ([] ++ [s]) = List.replicate (n + 1) '/' ++ s.toList := by
      simp [rooted, ofSegments, List.replicate_succ]
    rw [hone, splitLast_append hs.no_slash (.inr ⟨List.replicate n '/', List.replicate_succ'⟩),
      trimSlashes_replicate]
    simp [rooted, ofSegments, List.replicate_succ]
  · rw [List.concat_eq_append] at hss ⊢
    have hne : r ++ [x] ≠ [] := by simp
    obtain ⟨cs, c, hx, hc⟩ := exists_toList_eq_append (hss x (by simp))
    obtain ⟨front, hfront⟩ : ∃ front, rooted n (r ++ [x]) = front ++ [c] := by
      by_cases hr : r = []
      · exact ⟨'/' :: (List.replicate n '/' ++ cs), by simp [hr, rooted, ofSegments, hx]⟩
      · exact ⟨rooted n r ++ ['/'] ++ cs, by rw [rooted_append_singleton hr, hx]; simp⟩
    rw [rooted_append_singleton hne, splitLast_append hs.no_slash (.inr ⟨_, rfl⟩), hfront,
      trimSlashes_append_slash hc]

/-! ## Slashes at the front -/

/-- The slashes of a path from the root in front of its names, but for one. -/
def moreSlashes (p : String) : Nat := rootSlashes p.toList - 1

/-- Only the slashes in front of everything else count. -/
theorem rootSlashes_eq_takeWhile (cs : List Char) :
    rootSlashes cs = match (cs.takeWhile (· = '/')).length with
      | 0 => 0
      | 2 => 2
      | _ => 1 := by
  unfold rootSlashes
  split
  · simp
  · next r h =>
    cases r with
    | nil => simp
    | cons c r =>
      have hc : c ≠ '/' := fun hc => h r (by rw [hc])
      simp [hc]
  · next r h1 h2 =>
    cases r with
    | nil => simp
    | cons c r =>
      have hc : c ≠ '/' := fun hc => h2 r (by rw [hc])
      simp [hc]
  · next h =>
    cases cs with
    | nil => simp
    | cons c r =>
      have hc : c ≠ '/' := fun hc => h r (by rw [hc])
      simp [hc]

theorem rootSlashes_congr {a b : List Char}
    (h : a.takeWhile (· = '/') = b.takeWhile (· = '/')) : rootSlashes a = rootSlashes b := by
  rw [rootSlashes_eq_takeWhile, rootSlashes_eq_takeWhile, h]

/-- What follows a path does not count, unless the path is nothing but slashes. -/
theorem takeWhile_append {cs r : List Char} (h : r.head? ≠ some '/' ∨ ∃ c ∈ cs, c ≠ '/') :
    (cs ++ r).takeWhile (· = '/') = cs.takeWhile (· = '/') := by
  induction cs with
  | nil =>
    cases r with
    | nil => rfl
    | cons c r =>
      have hc : c ≠ '/' := by
        rcases h with h | ⟨c', hc', -⟩
        · simpa using h
        · cases hc'
      simp [hc]
  | cons c cs ih =>
    by_cases hc : c = '/'
    · subst hc
      have h' : r.head? ≠ some '/' ∨ ∃ c ∈ cs, c ≠ '/' := by simpa using h
      simp [ih h']
    · simp [hc]

theorem takeWhile_trimSlashes (cs : List Char) :
    (trimSlashes cs).takeWhile (· = '/') = cs.takeWhile (· = '/') := by
  by_cases hall : cs.all (· = '/') = true
  · rw [trimSlashes, if_pos hall]
  · obtain ⟨n, hn⟩ := trimSlashes_append cs
    obtain ⟨c, hc, hne⟩ : ∃ c ∈ cs, c ≠ '/' := by simpa using hall
    have hmem : c ∈ trimSlashes cs := by
      rw [← hn] at hc
      rcases List.mem_append.1 hc with hc | hc
      · exact hc
      · exact absurd (List.eq_of_mem_replicate hc) hne
    conv_rhs => rw [← hn]
    exact (takeWhile_append (.inr ⟨c, hmem, hne⟩)).symm

theorem rootSlashes_of_not_isAbsolute {p : String} (h : isAbsolute p = false) :
    rootSlashes p.toList = 0 := by
  cases hp : p.toList with
  | nil => rfl
  | cons c r =>
    have hc : c ≠ '/' := by simpa [isAbsolute, hp] using h
    simp [rootSlashes_eq_takeWhile, hc]

/-- The text that a path is joined behind. -/
theorem exists_join_eq (base : String) {p : String} (hp : isAbsolute p = false) :
    ∃ front, (join base p).toList = front ++ p.toList ∧ (front = [] ∨ ∃ f, front = f ++ ['/']) ∧
      (base ≠ "" → front.takeWhile (· = '/') = base.toList.takeWhile (· = '/')) ∧
      names front = names base.toList := by
  unfold join
  rw [hp, Bool.false_or]
  split
  · next hb =>
    have hb : base = "" := by simpa using hb
    exact ⟨[], by simp, .inl rfl, fun h => absurd hb h, by simp [hb]⟩
  · next hb =>
    have hb : base.toList ≠ [] := by simpa using hb
    split
    · next hlast =>
      obtain ⟨b, hb⟩ := List.getLast?_eq_some_iff.1 hlast
      exact ⟨base.toList, by simp, .inr ⟨b, hb⟩, fun _ => rfl, rfl⟩
    · next hlast =>
      refine ⟨base.toList ++ ['/'], by simp, .inr ⟨_, rfl⟩, fun _ => ?_, ?_⟩
      · refine takeWhile_append (.inr ⟨base.toList.getLast hb, List.getLast_mem hb, fun h => ?_⟩)
        rw [List.getLast?_eq_some_getLast hb, h] at hlast
        exact hlast rfl
      · simpa using names_append_cons base.toList []

theorem isAbsolute_join_of_relative {base p : String} (hp : isAbsolute p = false) :
    isAbsolute (join base p) = isAbsolute base := by
  unfold join
  rw [hp, Bool.false_or]
  split
  · next hb =>
    have hb : base = "" := by simpa using hb
    rw [hb, hp]
    rfl
  · next hb =>
    obtain ⟨c, r, hr⟩ : ∃ c r, base.toList = c :: r :=
      List.exists_cons_of_ne_nil (by simpa using hb)
    split <;> simp [isAbsolute, hr]

/-- The directory of a joined path starts like the path that was joined to. -/
theorem moreSlashes_dirname_join {base p : String} (hp : isAbsolute p = false) :
    moreSlashes (dirname (join base p)) = moreSlashes base := by
  unfold moreSlashes
  by_cases hbase : base = ""
  · have hrel : isAbsolute (dirname (join base p)) = false := by
      rw [isAbsolute_dirname, isAbsolute_join_of_relative hp, hbase]
      rfl
    rw [rootSlashes_of_not_isAbsolute hrel, hbase]
    rfl
  · obtain ⟨front, last, hsplit, hlast, -, hdir⟩ := splitLast_parts (join base p).toList
    obtain ⟨f, hjoin, -, hf, -⟩ := exists_join_eq base hp
    have hlast' : last.head? ≠ some '/' := fun h => hlast (List.mem_of_mem_head? h)
    have hp' : p.toList.head? ≠ some '/' := by simpa [isAbsolute] using hp
    have hslashes : (dirname (join base p)).toList.takeWhile (· = '/') =
        base.toList.takeWhile (· = '/') := by
      calc (dirname (join base p)).toList.takeWhile (· = '/')
          = front.takeWhile (· = '/') := by
            rw [dirname, hdir, String.toList_ofList, takeWhile_trimSlashes]
        _ = (join base p).toList.takeWhile (· = '/') := by
            rw [hsplit, takeWhile_append (.inl hlast')]
        _ = base.toList.takeWhile (· = '/') := by
            rw [hjoin, takeWhile_append (.inl hp'), hf hbase]
    rw [rootSlashes_congr hslashes]

theorem head?_ofSegments_ne {ss : List String} (h : ∀ s ∈ ss, IsName s) :
    (ofSegments ss).toList.head? ≠ some '/' := by
  cases ss with
  | nil => simp [ofSegments]
  | cons s r =>
    have hs := h s (by simp)
    obtain ⟨c, cs, hc⟩ : ∃ c cs, s.toList = c :: cs :=
      List.exists_cons_of_ne_nil (by simpa using hs.ne_empty)
    have hne : c ≠ '/' := by
      rintro rfl
      exact hs.no_slash (by simp [hc])
    rw [toList_ofSegments, List.map_cons]
    cases r with
    | nil => simpa [hc] using hne
    | cons s' r => simpa [List.intercalate_cons_cons, hc] using hne

theorem moreSlashes_le (p : String) : moreSlashes p ≤ 1 := by
  unfold moreSlashes rootSlashes
  split <;> simp

theorem rootSlashes_rooted {n : Nat} (hn : n ≤ 1) {ss : List String} (h : ∀ s ∈ ss, IsName s) :
    rootSlashes (rooted n ss) = n + 1 := by
  have htake : (rooted n ss).takeWhile (· = '/') = List.replicate (n + 1) '/' := by
    have hsplit : rooted n ss = List.replicate (n + 1) '/' ++ (ofSegments ss).toList := by
      simp [rooted, List.replicate_succ]
    rw [hsplit, takeWhile_append (.inl (head?_ofSegments_ne h))]
    simp
  rw [rootSlashes_eq_takeWhile, htake]
  obtain rfl | rfl : n = 0 ∨ n = 1 := by omega
  · rfl
  · rfl

/-! ## Paths of ordinary names -/

theorem isAbsolute_of_isName {p : String} (h : ∀ s ∈ segments p, IsName s) :
    isAbsolute p = false := by
  cases hp : p.toList with
  | nil => simp [isAbsolute, hp]
  | cons c r =>
    have hc : c ≠ '/' := by
      rintro rfl
      have hmem : "" ∈ segments p := by simp [segments, hp, Text.pieces]
      exact (h _ hmem).ne_empty rfl
    simp [isAbsolute, hp, hc]

theorem segments_ne_nil (p : String) : segments p ≠ [] := fun h =>
  Text.pieces_ne_nil '/' p.toList (List.map_eq_nil_iff.1 h)

theorem names_of_isName {p : String} (h : ∀ s ∈ segments p, IsName s) :
    names p.toList = segments p := by
  rw [names_toList, List.filter_eq_self]
  intro s hs
  simpa using (h s hs).ne_empty

theorem segments_inj {p q : String} : segments p = segments q ↔ p = q := by
  refine ⟨fun h => ?_, fun h => h ▸ rfl⟩
  have hpieces := (List.map_inj_right fun _ _ => String.ofList_inj.1).1 h
  rw [← String.toList_inj, ← Text.intercalate_pieces '/' p.toList, hpieces,
    Text.intercalate_pieces]

/-- The segments of a joined path. -/
theorem exists_segments_join (base : String) {p : String} (hp : isAbsolute p = false) :
    ∃ before, segments (join base p) = before ++ segments p ∧
      before.filter (· ≠ "") = names base.toList := by
  obtain ⟨front, hjoin, hfront, -, hnames⟩ := exists_join_eq base hp
  rcases hfront with rfl | ⟨f, rfl⟩
  · exact ⟨[], by rw [segments, hjoin]; rfl, by rw [← hnames]; rfl⟩
  · refine ⟨(Text.pieces '/' f).map String.ofList, ?_, ?_⟩
    · rw [segments, hjoin, List.append_assoc, List.singleton_append, Text.pieces_append_cons,
        List.map_append]
      rfl
    · rw [← hnames, names_append_cons, names_nil, List.append_nil]
      rfl

theorem names_dirname_join {base p : String} (h : ∀ s ∈ segments p, IsName s) :
    names (dirname (join base p)).toList = names base.toList ++ (segments p).dropLast := by
  obtain ⟨before, hsegments, hbefore⟩ := exists_segments_join base (isAbsolute_of_isName h)
  have hinit : (segments p).dropLast.filter (· ≠ "") = (segments p).dropLast := by
    refine List.filter_eq_self.2 fun s hs => ?_
    simpa using (h s (List.dropLast_subset _ hs)).ne_empty
  rw [← List.dropLast_concat_getLast (segments_ne_nil p), ← List.append_assoc] at hsegments
  rw [names_dirname hsegments, List.filter_append, hbefore, hinit]

end ResolverKit.Path

namespace ResolverKit.FileTree

open Path

/-! ## Places -/

theorem placeOf_join (t : FileTree) {dir p : String} (h : ∀ s ∈ segments p, IsName s) :
    t.placeOf (join dir p) = t.placeOf dir ++ segments p := by
  have hp := isAbsolute_of_isName h
  rw [placeOf_eq_names, names_join hp, List.foldl_append, names_of_isName h,
    foldl_climb_of_isName h, placeOf_eq_names t dir, startOf, startOf,
    isAbsolute_join_of_relative hp]

theorem placeOf_dirname_join (t : FileTree) {dir p : String} (h : ∀ s ∈ segments p, IsName s) :
    t.placeOf (dirname (join dir p)) = t.placeOf dir ++ (segments p).dropLast := by
  have hinit : ∀ s ∈ (segments p).dropLast, IsName s := fun s hs => h s (List.dropLast_subset _ hs)
  rw [placeOf_eq_names, names_dirname_join h, List.foldl_append, foldl_climb_of_isName hinit,
    placeOf_eq_names t dir, startOf, startOf, isAbsolute_dirname,
    isAbsolute_join_of_relative (isAbsolute_of_isName h)]

/-- The text of a path from the root. -/
theorem toList_absolute {t : FileTree} (ht : t.Housed) (p : String) :
    (t.absolute p).toList = rooted (moreSlashes p) (t.placeOf p) := by
  have hplace := names_absolute ht p
  unfold absolute Path.absolute at hplace ⊢
  cases hp : isAbsolute p with
  | true =>
    rw [hp, if_pos rfl, names_normalize hp] at hplace
    rw [if_pos rfl, toList_normalize hp, hplace]
    rfl
  | false =>
    have hjoined := isAbsolute_join t.isAbsolute_cwdPath p
    rw [hp, if_neg Bool.false_ne_true, names_normalize hjoined] at hplace
    rw [if_neg Bool.false_ne_true, toList_normalize hjoined, hplace]
    have hone : rootSlashes (join t.cwdPath p).toList = rootSlashes ['/'] := by
      obtain ⟨front, hjoin, -, hfront, -⟩ := exists_join_eq t.cwdPath hp
      have hp' : p.toList.head? ≠ some '/' := by simpa [isAbsolute] using hp
      have hbase : t.cwdPath ≠ "" := by simp [cwdPath]
      have hcwd : t.cwdPath.toList = ['/'] ++ (ofSegments t.cwd).toList := by simp [cwdPath]
      refine rootSlashes_congr ?_
      rw [hjoin, takeWhile_append (.inl hp'), hfront hbase, hcwd,
        takeWhile_append (.inl (head?_ofSegments_ne ht))]
    rw [hone, moreSlashes, rootSlashes_of_not_isAbsolute hp]
    rfl

theorem isName_of_mem_placeOf {t : FileTree} (ht : t.Housed) {p s : String}
    (hs : s ∈ t.placeOf p) : IsName s :=
  isName_of_mem_absolute (names_absolute ht p ▸ hs)

theorem placeOf_rooted (t : FileTree) (n : Nat) {ss : List String} (h : ∀ s ∈ ss, IsName s) :
    t.placeOf (String.ofList (rooted n ss)) = ss := by
  have hstart : t.startOf (String.ofList (rooted n ss)) = [] := by
    simp [startOf, isAbsolute, rooted]
  rw [placeOf_eq_names, String.toList_ofList, names_rooted n h, hstart, foldl_climb_of_isName h,
    List.nil_append]

theorem look_nothing_of_front {t : FileTree} {a b : List String} (hab : a <+: b)
    (h : t.look a = .nothing) : t.look b = .nothing := by
  obtain ⟨r, rfl⟩ := hab
  cases r with
  | nil => rwa [List.append_nil]
  | cons s r =>
    by_contra hne
    have := Node.look_of_look_append (List.cons_ne_nil s r) hne
    rw [show t.root.look a = .nothing from h] at this
    cases this

/-- A way of names to a directory can be walked if no name is too long. -/
theorem walk_names_iff {root : Node} {here ss : List String} (h : ∀ s ∈ ss, IsName s)
    (hl : root.look (here ++ ss) = .folder) :
    walk root here ss = .ok (here ++ ss) ↔ ∀ s ∈ ss, s.utf8ByteSize ≤ maxName := by
  induction ss generalizing here with
  | nil => simp [walk]
  | cons s r ih =>
    have hs := h s (by simp)
    have hl' : root.look ((here ++ [s]) ++ r) = .folder := by simpa using hl
    have hdir : root.look here = .folder :=
      Node.look_of_look_append (List.cons_ne_nil s r) (by rw [hl]; simp)
    have hthere : root.look (here ++ [s]) ≠ .nothing := by
      cases r with
      | nil => simp [hl]
      | cons s' r => simp [Node.look_of_look_append (List.cons_ne_nil s' r) (by rw [hl']; simp)]
    have hih := ih (fun x hx => h x (by simp [hx])) hl'
    rw [walk_cons, hdir]
    by_cases hsize : maxName < s.utf8ByteSize
    · have hgt : ¬ s.utf8ByteSize ≤ maxName := by omega
      simp [hs.ne_empty, hs.ne_dot, hs.ne_dots, hsize, hgt]
    · have hle : s.utf8ByteSize ≤ maxName := by omega
      simpa [hs.ne_empty, hs.ne_dot, hs.ne_dots, hsize, hthere, hle] using hih

/-- Whether a text from the root leads to a directory depends on the tree by its place only. -/
theorem isDir_rooted_iff {t : FileTree} {n : Nat} {ss : List String} (h : ∀ s ∈ ss, IsName s) :
    t.isDir (String.ofList (rooted n ss)) = true ↔
      unusable? (String.ofList (rooted n ss)) = none ∧ (∀ s ∈ ss, s.utf8ByteSize ≤ maxName) ∧
        t.look ss = .folder := by
  have hstart : t.startOf (String.ofList (rooted n ss)) = [] := by
    simp [startOf, isAbsolute, rooted]
  rw [isDir_iff_names, placeOf_rooted t n h, String.toList_ofList, names_rooted n h, hstart]
  refine and_congr_right fun _ => and_congr_left fun hl => ?_
  have hiff := @walk_names_iff t.root [] ss h hl
  rwa [List.nil_append] at hiff

end ResolverKit.FileTree
