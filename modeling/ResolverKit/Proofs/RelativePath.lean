import ResolverKit.Proofs.Rooted

/-!
# Relative paths

A rooted path is one slash and its names.  Joining a path to a rooted directory is climbing from it
(`toList_normalize_join`).  `relative?` goes up from a directory to the last place that it shares
with a path and down from there, so that climbing along it leads to the path (`exists_relative?`).
-/

namespace ResolverKit.Path

/-! ## Rooted paths -/

/-- The path is in its shortest form and starts with a single slash. -/
structure IsRooted (p : String) : Prop where
  normal : normalize p = p
  single : rootSlashes p.toList = 1

instance (p : String) : Decidable (IsRooted p) :=
  decidable_of_iff (normalize p = p ∧ rootSlashes p.toList = 1)
    ⟨fun ⟨h1, h2⟩ => ⟨h1, h2⟩, fun h => ⟨h.1, h.2⟩⟩

theorem IsRooted.isAbsolute {p : String} (h : IsRooted p) : isAbsolute p = true := by
  by_contra hp
  have hnone := rootSlashes_of_not_isAbsolute (by simpa using hp)
  rw [h.single] at hnone
  cases hnone

/-- The names of a rooted path, which say what the path is. -/
theorem IsRooted.exists_names {p : String} (h : IsRooted p) :
    ∃ ss, (∀ s ∈ ss, IsName s) ∧ p.toList = rooted 0 ss := by
  have htext := toList_normalize h.isAbsolute
  rw [h.normal, h.single] at htext
  exact ⟨_, fun s => isName_of_mem_normalSegments, htext⟩

theorem normalize_of_rooted {p : String} {n : Nat} {ss : List String} (hn : n ≤ 1)
    (hss : ∀ s ∈ ss, IsName s) (hp : p.toList = rooted n ss) : normalize p = p := by
  have habs : isAbsolute p = true := by simp [isAbsolute, hp, rooted]
  have hnames : (segments p).foldl climb [] = ss := by
    rw [← foldl_climb_filter, ← names_toList, hp, names_rooted n hss, foldl_climb_of_isName hss]
    rfl
  rw [← String.toList_inj, toList_normalize habs, hnames, hp, rootSlashes_rooted hn hss,
    Nat.add_sub_cancel]

theorem absolute_of_normal (cwd : String) {p : String} (habs : isAbsolute p = true)
    (h : normalize p = p) : absolute cwd p = p := by
  rw [absolute, habs, if_pos rfl, h]

theorem absolute_of_rooted (cwd : String) {p : String} {ss : List String}
    (hss : ∀ s ∈ ss, IsName s) (hp : p.toList = rooted 0 ss) : absolute cwd p = p :=
  absolute_of_normal cwd (by simp [isAbsolute, hp, rooted])
    (normalize_of_rooted (Nat.zero_le 1) hss hp)

theorem toList_dirname_of_rooted {p : String} {n : Nat} {ss : List String}
    (hss : ∀ s ∈ ss, IsName s) (hp : p.toList = rooted n ss) :
    (dirname p).toList = rooted n ss.dropLast := by
  rw [dirname, String.toList_ofList, hp]
  rcases List.eq_nil_or_concat ss with rfl | ⟨ss, s, rfl⟩
  · have hslashes : rooted n [] = List.replicate (n + 1) '/' ++ [] := by
      simp [rooted, ofSegments, List.replicate_succ]
    rw [List.dropLast_nil, hslashes, splitLast_append List.not_mem_nil
      (.inr ⟨List.replicate n '/', List.replicate_succ'⟩), trimSlashes_replicate, List.append_nil]
  · rw [List.concat_eq_append] at hss ⊢
    rw [splitLast_rooted n (hss s (by simp)) fun x hx => hss x (by simp [hx]), List.dropLast_concat]

theorem toList_basename_of_rooted {p s : String} {n : Nat} {ss : List String}
    (hss : ∀ x ∈ ss ++ [s], IsName x) (hp : p.toList = rooted n (ss ++ [s])) :
    (basename p).toList = s.toList := by
  rw [basename, String.toList_ofList, hp,
    splitLast_rooted n (hss s (by simp)) fun x hx => hss x (by simp [hx])]

/-- What stands before the last name does not depend on it. -/
theorem exists_rooted_append (ss : List String) :
    ∃ front, ∀ s, rooted 0 (ss ++ [s]) = front ++ s.toList := by
  by_cases hss : ss = []
  · exact ⟨['/'], fun s => by simp [hss, rooted, ofSegments]⟩
  · exact ⟨rooted 0 ss ++ ['/'], fun s => rooted_append_singleton hss⟩

/-! ## Joining -/

/-- Joining a path to a directory and working it off is climbing from the directory. -/
theorem toList_normalize_join {dir p : String} {ss : List String} (hss : ∀ s ∈ ss, IsName s)
    (hdir : dir.toList = rooted 0 ss) (hp : isAbsolute p = false) :
    (normalize (join dir p)).toList = rooted 0 ((names p.toList).foldl climb ss) := by
  have habs : isAbsolute dir = true := by simp [isAbsolute, hdir, rooted]
  have hne : dir ≠ "" := by
    rintro rfl
    cases habs
  have hslashes : rootSlashes (join dir p).toList = 1 := by
    obtain ⟨front, hjoin, -, hfront, -⟩ := exists_join_eq dir hp
    have hp' : p.toList.head? ≠ some '/' := by simpa [isAbsolute] using hp
    rw [hjoin, rootSlashes_congr (takeWhile_append (.inl hp')), rootSlashes_congr (hfront hne),
      hdir, rootSlashes_rooted (by omega) hss]
  rw [toList_normalize (isAbsolute_join habs p), hslashes, ← foldl_climb_filter, ← names_toList,
    names_join hp, hdir, names_rooted 0 hss, List.foldl_append, foldl_climb_of_isName hss]
  rfl

/-- A name is joined as the last one. -/
theorem toList_join_of_rooted {dir s : String} {ss : List String} (hss : ∀ x ∈ ss, IsName x)
    (hdir : dir.toList = rooted 0 ss) (hs : IsName s) :
    (join dir s).toList = rooted 0 (ss ++ [s]) := by
  have hsegments : segments s = [s] := by
    simp [segments, Text.pieces_eq_singleton hs.no_slash]
  have hrel : isAbsolute s = false := isAbsolute_of_isName (by simpa [hsegments] using hs)
  have hne : dir ≠ "" := by
    rintro rfl
    cases hdir
  rw [join, hrel, Bool.false_or, decide_eq_false hne, if_neg Bool.false_ne_true]
  rcases List.eq_nil_or_concat ss with rfl | ⟨r, x, rfl⟩
  · simp [hdir, rooted, ofSegments]
  · rw [List.concat_eq_append] at hss hdir ⊢
    obtain ⟨cs, c, hx, hc⟩ := exists_toList_eq_append (hss x (by simp))
    obtain ⟨front, hfront⟩ := exists_rooted_append r
    have hlast : dir.toList.getLast? ≠ some '/' := by simp [hdir, hfront, hx, hc]
    rw [if_neg hlast, rooted_append_singleton (by simp), ← hdir]
    simp

/-! ## Climbing and going down -/

/-- The shared front of two lists is dropped from both. -/
theorem exists_dropShared (as bs : List String) :
    ∃ front, as = front ++ (dropShared as bs).1 ∧ bs = front ++ (dropShared as bs).2 := by
  fun_induction dropShared as bs with
  | case1 as a bs ih =>
    obtain ⟨front, has, hbs⟩ := ih
    exact ⟨a :: front, congrArg (a :: ·) has, congrArg (a :: ·) hbs⟩
  | case2 a as b bs h => exact ⟨[], rfl, rfl⟩
  | case3 as bs h => exact ⟨[], rfl, rfl⟩

/-- As many parent segments as there are names lead up from all of them. -/
theorem foldl_climb_dots (front up : List String) :
    (up.map fun _ => "..").foldl climb (front ++ up) = front := by
  rw [List.map_const']
  generalize hn : up.length = n
  induction n generalizing up with
  | zero => simp [List.length_eq_zero_iff.1 hn]
  | succ n ih =>
    have hne : up ≠ [] := List.ne_nil_of_length_pos (by omega)
    have hclimb : climb (front ++ up) ".." = front ++ up.dropLast := by
      simp [climb, List.dropLast_append_of_ne_nil hne]
    rw [List.replicate_succ, List.foldl_cons, hclimb]
    exact ih up.dropLast (by simp [hn])

/-- What a relative path consists of: segments that climb from the directory to the path. -/
structure Climbs (ss ps steps : List String) : Prop where
  ne_nil : steps ≠ []
  isStep : ∀ s ∈ steps, s = "." ∨ s = ".." ∨ IsName s
  climb : steps.foldl climb ss = ps

/-- Climbing up from the names on the one side and going down along those on the other. -/
theorem climbs_of_shared {front up down : List String} (hdown : ∀ s ∈ down, IsName s)
    (hne : up.map (fun _ => "..") ++ down ≠ []) :
    Climbs (front ++ up) (front ++ down) (up.map (fun _ => "..") ++ down) := by
  refine ⟨hne, fun s hs => ?_, ?_⟩
  · rcases List.mem_append.1 hs with hs | hs
    · obtain ⟨_, -, rfl⟩ := List.mem_map.1 hs
      exact .inr (.inl rfl)
    · exact .inr (.inr (hdown s hs))
  · rw [List.foldl_append, foldl_climb_dots, foldl_climb_of_isName hdown]

/-- The steps from the names on the one side to those on the other: up to what they share and down
from there. -/
def stepsTo (ss ps : List String) : List String :=
  match (dropShared ss ps).1.map (fun _ => "..") ++ (dropShared ss ps).2 with
  | [] => ["."]
  | steps => steps

theorem climbs_stepsTo {ss ps : List String} (hps : ∀ s ∈ ps, IsName s) :
    Climbs ss ps (stepsTo ss ps) := by
  obtain ⟨front, hss', hps'⟩ := exists_dropShared ss ps
  unfold stepsTo
  generalize dropShared ss ps = parts at hss' hps' ⊢
  obtain ⟨up, down⟩ := parts
  have hdown : ∀ s ∈ down, IsName s := fun s hs => hps s (by simp [hps', hs])
  split
  · next h =>
    obtain ⟨hup, rfl⟩ := List.append_eq_nil_iff.1 h
    obtain rfl := List.map_eq_nil_iff.1 hup
    refine ⟨by simp, by simp, ?_⟩
    rw [hss', hps']
    rfl
  · next h =>
    rw [hss', hps']
    exact climbs_of_shared hdown fun he => h he

/-- The relative path consists of the steps between the names. -/
theorem relative?_eq (cwd : String) {p start : String} (hp : p ≠ "") :
    relative? cwd p start = some (ofSegments
      (stepsTo (names (absolute cwd start).toList) (names (absolute cwd p).toList))) := by
  rw [relative?, if_neg hp]
  simp only [← names_toList, stepsTo]
  generalize dropShared _ _ = parts
  split <;> simp_all [ofSegments]

/-- The relative path leads from the directory to the path. -/
theorem exists_relative? (cwd : String) {p start : String} {ps ss : List String}
    (hps : ∀ s ∈ ps, IsName s) (hp : p.toList = rooted 0 ps) (hss : ∀ s ∈ ss, IsName s)
    (hstart : start.toList = rooted 0 ss) :
    ∃ steps, relative? cwd p start = some (ofSegments steps) ∧ Climbs ss ps steps := by
  have hne : p ≠ "" := by
    rintro rfl
    cases hp
  refine ⟨stepsTo ss ps, ?_, climbs_stepsTo hps⟩
  rw [relative?_eq cwd hne, absolute_of_rooted cwd hss hstart, absolute_of_rooted cwd hps hp,
    hstart, hp, names_rooted 0 hss, names_rooted 0 hps]

end ResolverKit.Path
