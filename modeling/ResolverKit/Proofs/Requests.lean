import ResolverKit.Import.Loader
import ResolverKit.Proofs.FileTree

/-!
# The requests of a schema

`Reachable` is the graph that loading explores: it starts at the root file, and every import
statement of a file that is asked for leads on.  The graph may have cycles, but only finitely many
of its requests go to files, and `possibleRequests` holds all of them besides the first:

    Reachable t path r → t.isFile r.path → r = .root t path ∨ r ∈ possibleRequests t
                                                              (mem_possibleRequests_of_reachable)

The guard of `follow` therefore never turns a request away.
-/

namespace ResolverKit

open Path

namespace Node

/-! ## Nodes below a node -/

theorem mem_entryDescendants {s : String} {m : Node} {es : List (String × Node)}
    (h : (s, m) ∈ es) :
    ([s], m) ∈ entryDescendants es ∧
      ∀ p k, (p, k) ∈ m.descendants → (s :: p, k) ∈ entryDescendants es := by
  induction es with
  | nil => cases h
  | cons e r ih =>
    obtain ⟨s', m'⟩ := e
    rcases List.mem_cons.1 h with h | h
    · cases h
      refine ⟨by simp [entryDescendants], fun p k hk => ?_⟩
      simp [entryDescendants, hk]
    · obtain ⟨h1, h2⟩ := ih h
      exact ⟨by simp [entryDescendants, h1], fun p k hk => by simp [entryDescendants, h2 p k hk]⟩

theorem mem_descendants {n m : Node} {ss : List String} (hne : ss ≠ [])
    (h : n.get? ss = some m) : (ss, m) ∈ n.descendants := by
  induction ss generalizing n with
  | nil => exact absurd rfl hne
  | cons s r ih =>
    cases n with
    | file c => simp [get?] at h
    | dir es =>
      cases hs : Keyed.get? s es with
      | none => simp [get?, hs] at h
      | some k =>
        have hk : k.get? r = some m := by simpa [get?, hs] using h
        obtain ⟨hself, hbelow⟩ := mem_entryDescendants (Keyed.mem_of_get? hs)
        rw [descendants]
        cases r with
        | nil =>
          obtain rfl : k = m := by simpa using hk
          exact hself
        | cons s' r' => exact hbelow _ _ (ih (by simp) hk)

end Node

namespace Import

/-! ## Reachable requests -/

def Request.root (t : FileTree) (path : String) : Request := ⟨t.absolute path, none⟩

@[simp] theorem Request.path_root (t : FileTree) (path : String) :
    (Request.root t path).path = t.absolute path := by
  simp only [root]

/-- The requests that the root file leads to. -/
inductive Reachable (t : FileTree) (path : String) : Request → Prop
  | root : Reachable t path (.root t path)
  | imported {r : Request} {text : String} {s : Statement} : Reachable t path r →
      readText t r.path = .ok text → s ∈ statements text →
      Reachable t path (Link.ofStatement r.path s).request

theorem Link.request_ofStatement (importer : String) (s : Statement) :
    (ofStatement importer s).request =
      ⟨normalize (join (dirname importer) s.path), s.selection⟩ := by
  simp only [ofStatement]

/-- The path of a reachable request starts at the root and is in its shortest form. -/
theorem Reachable.exists_normalize {t : FileTree} {path : String} {r : Request}
    (h : Reachable t path r) : ∃ p, isAbsolute p = true ∧ r.path = normalize p := by
  induction h with
  | root =>
    rw [Request.path_root]
    exact t.exists_absolute_eq_normalize path
  | @imported r text s _ _ _ ih =>
    obtain ⟨p, hp, hr⟩ := ih
    simp only [Link.request_ofStatement]
    refine ⟨join (dirname r.path) s.path, isAbsolute_join ?_ s.path, rfl⟩
    rw [isAbsolute_dirname, hr]
    exact isAbsolute_normalize hp

/-! ## Files of a tree -/

theorem isFile_of_readText {t : FileTree} {p text : String} (h : readText t p = .ok text) :
    t.isFile p = true := by
  unfold readText at h
  cases hr : t.read p with
  | error e => simp [hr] at h
  | ok c =>
    unfold FileTree.read at hr
    cases hres : t.resolve p with
    | error e => simp [hres, bind, Except.bind] at hr
    | ok at_ =>
      simp only [hres, bind, Except.bind] at hr
      obtain rfl := FileTree.resolve_eq_placeOf hres
      cases hn : t.root.get? (t.placeOf p) with
      | none => simp [hn, throw, throwThe, MonadExceptOf.throw] at hr
      | some n =>
        cases n with
        | dir es => simp [hn, throw, throwThe, MonadExceptOf.throw] at hr
        | file c' => exact FileTree.isFile_iff.2 ⟨hres, c', Node.look_eq_file_iff.2 hn⟩

theorem mem_filePaths {t : FileTree} {p : String} (hp : isAbsolute p = true)
    (h : t.isFile (normalize p) = true) : normalize p ∈ filePaths t := by
  obtain ⟨hres, c, hc⟩ := FileTree.isFile_iff.1 h
  have hplace : t.placeOf (normalize p) = (segments p).foldl climb [] := by
    rw [FileTree.placeOf_eq_names, names_normalize hp,
      foldl_climb_of_isName fun s => isName_of_mem_normalSegments]
    simp [FileTree.startOf, isAbsolute_normalize hp]
  rw [hplace] at hc
  have hne : (segments p).foldl climb [] ≠ [] := by
    intro hnil
    rw [hnil] at hc
    -- a root that is a file cannot be walked along any path
    obtain ⟨s, r, hsr⟩ := List.exists_cons_of_ne_nil
      (fun h => Text.pieces_ne_nil '/' (normalize p).toList (List.map_eq_nil_iff.1 h))
    have hwalk := FileTree.walk_of_resolve hres
    rw [show segments (normalize p) = s :: r from hsr, FileTree.walk_cons] at hwalk
    simp only [FileTree.startOf, isAbsolute_normalize hp, if_true] at hwalk
    rw [show t.root.look [] = .file c from hc] at hwalk
    cases hwalk
  have hmem := Node.mem_descendants hne (Node.look_eq_file_iff.1 hc)
  obtain ⟨n, hn, htext⟩ := normalize_of_isAbsolute hp
  refine List.mem_flatMap.2 ⟨_, hmem, ?_⟩
  rcases hn with rfl | rfl
  · have : normalize p = "/" ++ ofSegments ((segments p).foldl climb []) := by
      apply String.toList_inj.1
      simpa using htext
    simp [Node.isDir, this]
  · have : normalize p = "//" ++ ofSegments ((segments p).foldl climb []) := by
      apply String.toList_inj.1
      simpa using htext
    simp [Node.isDir, this]

/-- Every reachable request to a file is the first one or foreseen. -/
theorem mem_possibleRequests_of_reachable {t : FileTree} {path : String} {r : Request}
    (h : Reachable t path r) (hr : t.isFile r.path = true) :
    r = .root t path ∨ r ∈ possibleRequests t := by
  have hpath : r.path ∈ filePaths t := by
    obtain ⟨p, hp, hrp⟩ := h.exists_normalize
    rw [hrp] at hr ⊢
    exact mem_filePaths hp hr
  cases h with
  | root => exact .inl rfl
  | @imported r0 text s h0 htext hs =>
    right
    have hpath0 : r0.path ∈ filePaths t := by
      obtain ⟨p, hp, hrp⟩ := h0.exists_normalize
      have hfile := isFile_of_readText htext
      rw [hrp] at hfile ⊢
      exact mem_filePaths hp hfile
    simp only [Link.request_ofStatement] at hpath ⊢
    refine List.mem_flatMap.2 ⟨_, hpath, List.mem_map.2 ⟨s.selection, ?_, rfl⟩⟩
    rw [List.mem_eraseDups]
    refine List.mem_flatMap.2 ⟨_, hpath0, ?_⟩
    rw [htext]
    exact List.mem_map.2 ⟨s, hs, rfl⟩

end Import

end ResolverKit
