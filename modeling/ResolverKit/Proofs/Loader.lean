import Mathlib.Data.Set.Finite.List
import ResolverKit.Proofs.Closure
import ResolverKit.Proofs.Requests

/-!
# What loading a schema returns

A request is answerable if its file can be read and parsed and defines the names it asks for.
Loading succeeds exactly when every reachable request is answerable, and then it returns each
definition that a reachable request selects once, told apart by its file and its place there
(`load_iff`).

`Progress` is the invariant of the search.  `Progress.answer` and `Progress.skip` are its two
steps, `follow_finishes` is the whole run.
-/

namespace ResolverKit.Import

open Sdl (Document)

/-! ## Answers -/

/-- The file at this path holds the document. -/
def Parses (t : FileTree) (p : String) (d : Document) : Prop :=
  ∃ text, readText t p = .ok text ∧ parseText p text = .ok d

/-- The names that a request asks for are defined in the document. -/
def Request.Defined (r : Request) (d : Document) : Prop :=
  ∀ names, r.selection = some names → ∀ n ∈ names, n ∈ definedNames d

/-- The request is for a file that reads, parses and defines all the names. -/
def Answerable (t : FileTree) (r : Request) : Prop :=
  t.isFile r.path = true ∧ ∃ d, Parses t r.path d ∧ r.Defined d

/-- The request selects this definition of its file: it asks for all of them, or the name of the
definition is among those that the selected names lead to. -/
def Selects (t : FileTree) (r : Request) (l : Loaded) : Prop :=
  ∃ d, Parses t r.path d ∧ l.path = r.path ∧ d[l.index]? = some l.definition ∧
    ∀ names, r.selection = some names → ∃ n, l.definition.name? = some n ∧ Depends d names n

theorem Parses.unique {t : FileTree} {p : String} {d d' : Document} (h : Parses t p d)
    (h' : Parses t p d') : d = d' := by
  obtain ⟨text, hr, hp⟩ := h
  obtain ⟨text', hr', hp'⟩ := h'
  obtain rfl : text = text' := Except.ok.inj (hr.symm.trans hr')
  exact Except.ok.inj (hp.symm.trans hp')

/-- A file and a place in it determine the definition. -/
theorem Selects.unique {t : FileTree} {r r' : Request} {l l' : Loaded} (h : Selects t r l)
    (h' : Selects t r' l') (hp : l.path = l'.path) (hi : l.index = l'.index) : l = l' := by
  obtain ⟨d, hd, hl, hn, -⟩ := h
  obtain ⟨d', hd', hl', hn', -⟩ := h'
  obtain rfl : d = d' := hd.unique (by rw [← hl, hp, hl']; exact hd')
  obtain ⟨p, i, x⟩ := l
  obtain ⟨p', i', x'⟩ := l'
  cases hp
  cases hi
  cases Option.some.inj (hn.symm.trans hn')
  rfl

theorem mem_selected_iff {d : Document} {r : Request} {l : Loaded} :
    l ∈ selected d r ↔ l.path = r.path ∧ d[l.index]? = some l.definition ∧
      ∀ names, r.selection = some names → ∃ n, l.definition.name? = some n ∧ Depends d names n := by
  have hall : l ∈ d.zipIdx.map (fun p => (⟨r.path, p.2, p.1⟩ : Loaded)) ↔
      l.path = r.path ∧ d[l.index]? = some l.definition := by
    rw [List.mem_map]
    constructor
    · rintro ⟨⟨x, i⟩, hm, rfl⟩
      exact ⟨rfl, List.mem_zipIdx_iff_getElem?.1 hm⟩
    · rintro ⟨hp, hi⟩
      refine ⟨(l.definition, l.index), List.mem_zipIdx_iff_getElem?.2 hi, ?_⟩
      rw [← hp]
  unfold selected
  cases hsel : r.selection with
  | none =>
    show l ∈ d.zipIdx.map (fun p => (⟨r.path, p.2, p.1⟩ : Loaded)) ↔ _
    rw [hall]
    simp
  | some names =>
    show l ∈ List.filter _ (d.zipIdx.map fun p => (⟨r.path, p.2, p.1⟩ : Loaded)) ↔ _
    rw [List.mem_filter, hall, and_assoc]
    simp [Option.any_eq_true, mem_closure_iff]

/-- What a request selects of the document is what it selects of the file that holds it. -/
theorem mem_selected_iff_selects {t : FileTree} {d : Document} {r : Request} {l : Loaded}
    (hd : Parses t r.path d) : l ∈ selected d r ↔ Selects t r l := by
  rw [mem_selected_iff]
  constructor
  · intro hl
    exact ⟨d, hd, hl⟩
  · rintro ⟨d', hd', hl⟩
    obtain rfl := hd.unique hd'
    exact hl

/-- No name is missing among the selected definitions exactly when all are defined. -/
theorem missingNames_eq_nil_iff {d : Document} {r : Request} :
    missingNames r (selected d r) = [] ↔ r.Defined d := by
  unfold missingNames Request.Defined
  cases hsel : r.selection with
  | none => simp
  | some names =>
    simp only [Option.getD_some, List.filter_eq_nil_iff, Option.some.injEq, forall_eq']
    refine forall₂_congr fun n hn => ?_
    simp only [Bool.not_eq_true', Bool.not_eq_false, List.any_eq_true, decide_eq_true_eq]
    constructor
    · rintro ⟨l, hl, hname⟩
      obtain ⟨-, hget, -⟩ := mem_selected_iff.1 hl
      exact List.mem_filterMap.2 ⟨_, List.mem_of_getElem? hget, hname⟩
    · intro hd
      obtain ⟨x, hx, hname⟩ := List.mem_filterMap.1 hd
      obtain ⟨i, hi⟩ := List.getElem?_of_mem hx
      refine ⟨⟨r.path, i, x⟩, mem_selected_iff.2 ⟨rfl, hi, ?_⟩, hname⟩
      intro names' hnames'
      obtain rfl : names = names' := Option.some.inj (hsel.symm.trans hnames')
      exact ⟨n, hname, .asked hn hd⟩

/-- What an answer consists of. -/
theorem answer_eq_ok_iff {t : FileTree} {r : Request} {loaded loaded' : List Loaded}
    {links : List Link} :
    answer t r loaded = .ok (loaded', links) ↔
      ∃ text d, readText t r.path = .ok text ∧ parseText r.path text = .ok d ∧ r.Defined d ∧
        loaded' = addNew loaded (selected d r) ∧
        links = (statements text).map (Link.ofStatement r.path) := by
  unfold answer
  cases hr : readText t r.path with
  | error e => simp [bind, Except.bind]
  | ok text =>
    cases hp : parseText r.path text with
    | error e => simp [bind, Except.bind, hp]
    | ok d =>
      simp only [bind, Except.bind, hp]
      cases hm : missingNames r (selected d r) with
      | nil =>
        have hdef := missingNames_eq_nil_iff.1 hm
        constructor
        · intro h
          cases h
          exact ⟨text, d, rfl, hp, hdef, rfl, rfl⟩
        · rintro ⟨text', d', htext, hp', -, rfl, rfl⟩
          cases htext
          cases hp.symm.trans hp'
          rfl
      | cons n ns =>
        constructor
        · intro h
          cases h
        · rintro ⟨text', d', htext, hp', hdef, -, -⟩
          cases htext
          cases hp.symm.trans hp'
          rw [missingNames_eq_nil_iff.2 hdef] at hm
          cases hm

/-- The requests that are answered are the answerable ones. -/
theorem exists_answer_iff {t : FileTree} {r : Request} {loaded : List Loaded} :
    (∃ a, answer t r loaded = .ok a) ↔ Answerable t r := by
  constructor
  · rintro ⟨⟨loaded', links⟩, h⟩
    obtain ⟨text, d, hr, hp, hdef, -, -⟩ := answer_eq_ok_iff.1 h
    exact ⟨isFile_of_readText hr, d, ⟨text, hr, hp⟩, hdef⟩
  · rintro ⟨-, d, ⟨text, hr, hp⟩, hdef⟩
    exact ⟨_, answer_eq_ok_iff.2 ⟨text, d, hr, hp, hdef, rfl, rfl⟩⟩

/-! ## Adding definitions -/

/-- The file and the place that tell a loaded definition from all others. -/
def Loaded.key (l : Loaded) : String × Nat := (l.path, l.index)

theorem addNew_cons {have_ new : List Loaded} {l : Loaded} :
    addNew have_ (l :: new) =
      addNew (if l.key ∈ have_.map Loaded.key then have_ else have_ ++ [l]) new := by
  have hkey : (have_.any fun l' => l'.path = l.path ∧ l'.index = l.index) = true ↔
      l.key ∈ have_.map Loaded.key := by
    simp [Loaded.key]
  unfold addNew
  rw [List.foldl_cons]
  congr 1
  by_cases h : l.key ∈ have_.map Loaded.key
  · rw [if_pos h, if_pos (hkey.2 h)]
  · rw [if_neg h, if_neg (mt hkey.1 h)]

/-- No key is added twice. -/
theorem nodup_addNew {have_ new : List Loaded} (h : (have_.map Loaded.key).Nodup) :
    ((addNew have_ new).map Loaded.key).Nodup := by
  induction new generalizing have_ with
  | nil => exact h
  | cons l r ih =>
    rw [addNew_cons]
    apply ih
    split
    · exact h
    · next hl =>
      rw [List.map_append, List.nodup_append]
      refine ⟨h, by simp, ?_⟩
      intro a ha b hb hab
      obtain rfl : b = l.key := by simpa using hb
      exact hl (hab ▸ ha)

/-- Where a key determines the definition, nothing is lost. -/
theorem mem_addNew {have_ new : List Loaded} {x : Loaded}
    (h : ∀ a ∈ have_ ++ new, ∀ b ∈ have_ ++ new, a.key = b.key → a = b) :
    x ∈ addNew have_ new ↔ x ∈ have_ ∨ x ∈ new := by
  induction new generalizing have_ with
  | nil => simp [addNew]
  | cons l r ih =>
    rw [addNew_cons]
    by_cases hl : l.key ∈ have_.map Loaded.key
    · obtain ⟨l', hl', hkey⟩ := List.mem_map.1 hl
      obtain rfl : l' = l := h l' (by simp [hl']) l (by simp) hkey
      have hsub : ∀ a ∈ have_ ++ r, a ∈ have_ ++ l' :: r := by
        intro a ha
        rcases List.mem_append.1 ha with ha | ha
        · exact List.mem_append_left _ ha
        · exact List.mem_append_right _ (.tail _ ha)
      rw [if_pos hl, ih fun a ha b hb => h a (hsub a ha) b (hsub b hb)]
      constructor
      · rintro (hx | hx)
        · exact .inl hx
        · exact .inr (.tail _ hx)
      · rintro (hx | hx)
        · exact .inl hx
        · rcases List.mem_cons.1 hx with rfl | hx
          · exact .inl hl'
          · exact .inr hx
    · rw [if_neg hl, ih (by simpa using h)]
      simp [or_assoc]

/-- Adding what a request selects to definitions that requests selected loses none of them. -/
theorem mem_addNew_selected {t : FileTree} {d : Document} {r : Request} {loaded : List Loaded}
    {x : Loaded} (hd : Parses t r.path d) (hloaded : ∀ l ∈ loaded, ∃ q, Selects t q l) :
    x ∈ addNew loaded (selected d r) ↔ x ∈ loaded ∨ Selects t r x := by
  have hsome : ∀ a ∈ loaded ++ selected d r, ∃ q, Selects t q a := by
    intro a ha
    rcases List.mem_append.1 ha with ha | ha
    · exact hloaded a ha
    · exact ⟨r, (mem_selected_iff_selects hd).1 ha⟩
  rw [mem_addNew, mem_selected_iff_selects hd]
  intro a ha b hb hab
  obtain ⟨q, hq⟩ := hsome a ha
  obtain ⟨q', hq'⟩ := hsome b hb
  exact hq.unique hq' (congrArg Prod.fst hab) (congrArg Prod.snd hab)

/-! ## The invariant of the search -/

/-- How far the search has come: which requests were answered, which definitions they gave, and
which requests wait. -/
structure Progress (t : FileTree) (path : String) (opened : List Request) (loaded : List Loaded)
    (pending : List Request) : Prop where
  /-- The first request was answered or waits. -/
  started : .root t path ∈ opened ++ pending
  /-- What was answered is reachable and answerable. -/
  answered : ∀ r ∈ opened, Reachable t path r ∧ Answerable t r
  /-- What waits is reachable. -/
  waiting : ∀ r ∈ pending, Reachable t path r
  /-- What the opened files ask for was answered or waits. -/
  covered : ∀ r ∈ opened, ∀ text, readText t r.path = .ok text → ∀ s ∈ statements text,
    (Link.ofStatement r.path s).request ∈ opened ++ pending
  /-- The definitions are those that the answered requests select. -/
  selected : ∀ l, l ∈ loaded ↔ ∃ r ∈ opened, Selects t r l
  /-- No definition is there twice. -/
  distinct : (loaded.map Loaded.key).Nodup

namespace Progress

variable {t : FileTree} {path : String} {opened : List Request} {loaded : List Loaded}
  {r : Request} {pending : List Request}

/-- Before the first answer. -/
theorem start : Progress t path [] [] [.root t path] where
  started := by simp
  answered := by simp
  waiting := by
    intro r hr
    obtain rfl : r = .root t path := by simpa using hr
    exact .root
  covered := by simp
  selected := by simp
  distinct := by simp

/-- A request that was answered before is skipped. -/
theorem skip (h : Progress t path opened loaded (r :: pending)) (hr : r ∈ opened) :
    Progress t path opened loaded pending where
  started := by
    rcases List.mem_append.1 h.started with h' | h'
    · exact List.mem_append_left _ h'
    · rcases List.mem_cons.1 h' with rfl | h'
      · exact List.mem_append_left _ hr
      · exact List.mem_append_right _ h'
  answered := h.answered
  waiting := fun q hq => h.waiting q (.tail _ hq)
  covered := by
    intro q hq text htext s hs
    rcases List.mem_append.1 (h.covered q hq text htext s hs) with h' | h'
    · exact List.mem_append_left _ h'
    · rcases List.mem_cons.1 h' with h' | h'
      · exact List.mem_append_left _ (h' ▸ hr)
      · exact List.mem_append_right _ h'
  selected := h.selected
  distinct := h.distinct

/-- An answer adds what its request selects, and its links wait. -/
theorem answer {loaded' : List Loaded} {links : List Link}
    (h : Progress t path opened loaded (r :: pending))
    (ha : Import.answer t r loaded = .ok (loaded', links)) :
    Progress t path (r :: opened) loaded' (links.map (·.request) ++ pending) := by
  have hreach : Reachable t path r := h.waiting r (by simp)
  obtain ⟨text, d, htext, hd, hdef, rfl, rfl⟩ := answer_eq_ok_iff.1 ha
  have hkeep : ∀ q ∈ opened ++ r :: pending, q ∈ r :: opened ++
      (((statements text).map (Link.ofStatement r.path)).map (·.request) ++ pending) := by
    intro q hq
    simp only [List.mem_append, List.mem_cons] at hq ⊢
    tauto
  constructor
  case started => exact hkeep _ h.started
  case answered =>
    intro q hq
    rcases List.mem_cons.1 hq with rfl | hq
    · exact ⟨hreach, exists_answer_iff.1 ⟨_, ha⟩⟩
    · exact h.answered q hq
  case waiting =>
    intro q hq
    rcases List.mem_append.1 hq with hq | hq
    · rw [List.map_map] at hq
      obtain ⟨s, hs, rfl⟩ := List.mem_map.1 hq
      exact .imported hreach htext hs
    · exact h.waiting q (.tail _ hq)
  case covered =>
    intro q hq text' htext' s hs
    rcases List.mem_cons.1 hq with rfl | hq
    · obtain rfl : text = text' := Except.ok.inj (htext.symm.trans htext')
      refine List.mem_append_right _ (List.mem_append_left _ ?_)
      exact List.mem_map.2 ⟨_, List.mem_map.2 ⟨s, hs, rfl⟩, rfl⟩
    · exact hkeep _ (h.covered q hq text' htext' s hs)
  case selected =>
    intro l
    have hloaded : ∀ a ∈ loaded, ∃ q, Selects t q a := by
      intro a ha
      obtain ⟨q, -, hq⟩ := (h.selected a).1 ha
      exact ⟨q, hq⟩
    rw [mem_addNew_selected ⟨text, htext, hd⟩ hloaded, h.selected]
    constructor
    · rintro (⟨q, hq, hl⟩ | hl)
      · exact ⟨q, .tail _ hq, hl⟩
      · exact ⟨r, .head _, hl⟩
    · rintro ⟨q, hq, hl⟩
      rcases List.mem_cons.1 hq with rfl | hq
      · exact .inr hl
      · exact .inl ⟨q, hq, hl⟩
  case distinct => exact nodup_addNew h.distinct

/-- When nothing waits, every reachable request was answered. -/
theorem mem_opened (h : Progress t path opened loaded []) (hr : Reachable t path r) :
    r ∈ opened := by
  induction hr with
  | root => simpa using h.started
  | imported _ htext hs ih => simpa using h.covered _ ih _ htext _ hs

end Progress

/-! ## The whole search -/

/-- How a search may end: with nothing waiting, or at a request that cannot be answered. -/
inductive Finishes (t : FileTree) (path : String) : Except LoadError (List Loaded) → Prop
  | done {ls : List Loaded} {opened : List Request} : Progress t path opened ls [] →
      Finishes t path (.ok ls)
  | stuck {e : LoadError} {r : Request} : Reachable t path r → ¬ Answerable t r →
      Finishes t path (.error e)

/-- An answer that fails ends the search at a request that cannot be answered. -/
theorem finishes_of_answer_eq_error {t : FileTree} {path : String} {r : Request}
    {loaded : List Loaded} {e : LoadError} (hr : Reachable t path r)
    (he : answer t r loaded = .error e) : Finishes t path (.error e) := by
  refine .stuck hr fun ha => ?_
  obtain ⟨a, hok⟩ := exists_answer_iff.2 ha
  rw [he] at hok
  cases hok

theorem follow_finishes {t : FileTree} {path : String} {opened : List Request}
    {loaded : List Loaded} {links : List Link}
    (h : Progress t path opened loaded (links.map (·.request)))
    (hroot : .root t path ∈ opened) :
    Finishes t path (follow t (possibleRequests t) opened loaded links) := by
  generalize hall : possibleRequests t = all
  fun_induction follow t all opened loaded links with
  | case1 opened loaded => exact .done h
  | case2 opened loaded link rest hfile =>
    refine .stuck (h.waiting link.request (by simp)) ?_
    rintro ⟨hf, -⟩
    simp [hf] at hfile
  | case3 opened loaded link rest hfile hopen e he =>
    exact finishes_of_answer_eq_error (h.waiting _ (by simp)) he
  | case4 opened loaded link rest hfile hopen loaded' links' ha ih =>
    have hstep := h.answer ha
    rw [← List.map_append] at hstep
    exact ih hstep (.tail _ hroot)
  | case5 opened loaded link rest hfile hopen ih =>
    refine ih (h.skip ?_) hroot
    -- the guard holds, so that the request can only be left out for having been answered
    by_contra hnot
    rcases mem_possibleRequests_of_reachable (h.waiting link.request (by simp))
      (by simpa using hfile) with hr | hr
    · rw [← hr] at hroot
      exact hnot hroot
    · rw [hall] at hr
      exact hopen ⟨hr, hnot⟩

/-- The search from the root file on. -/
def search (t : FileTree) (path : String) : Except LoadError (List Loaded) :=
  if t.isFile (Request.root t path).path then
    match answer t (.root t path) [] with
    | .ok (loaded, links) => follow t (possibleRequests t) [.root t path] loaded links
    | .error e => .error e
  else .error (.rootMissing path)

theorem load_eq_search (t : FileTree) (path : String) :
    load t path = (search t path).map fun ls => ls.map (·.definition) := by
  unfold load search
  rw [Request.path_root]
  by_cases hfile : t.isFile (t.absolute path) = true
  · rw [if_pos hfile]
    simp only [hfile, Bool.not_true, Bool.false_eq_true, if_false, Request.root]
    cases answer t ⟨t.absolute path, none⟩ [] with
    | error e => rfl
    | ok a => cases hf : follow t (possibleRequests t) [⟨t.absolute path, none⟩] a.1 a.2 with
      | error e => simp [hf, bind, Except.bind, Except.map]
      | ok ls => simp [hf, bind, Except.bind, pure, Except.pure, Except.map]
  · simp [hfile, bind, Except.bind, throw, throwThe, MonadExceptOf.throw, Except.map]

theorem search_finishes (t : FileTree) (path : String) : Finishes t path (search t path) := by
  unfold search
  by_cases hfile : t.isFile (Request.root t path).path = true
  · rw [if_pos hfile]
    cases ha : answer t (.root t path) [] with
    | error e => exact finishes_of_answer_eq_error .root ha
    | ok a =>
      have hstep := Progress.start.answer ha
      rw [List.append_nil] at hstep
      exact follow_finishes hstep (.head _)
  · rw [if_neg hfile]
    exact .stuck .root fun h => hfile h.1

theorem load_eq_ok_iff {t : FileTree} {path : String} {d : Document} :
    load t path = .ok d ↔ ∃ ls, search t path = .ok ls ∧ d = ls.map (·.definition) := by
  rw [load_eq_search]
  cases search t path with
  | error e => simp [Except.map]
  | ok ls => simp [Except.map, eq_comm]

/-- Only finitely many reachable requests go to files; loading succeeds if and only if all
reachable requests are answerable; and the definitions it returns are those that the reachable
requests select, each once. -/
theorem load_iff (t : FileTree) (path : String) :
    {r | Reachable t path r ∧ t.isFile r.path = true}.Finite ∧
    ((∃ d, load t path = .ok d) ↔ ∀ r, Reachable t path r → Answerable t r) ∧
    ∀ d, load t path = .ok d → ∃ ls : List Loaded, d = ls.map (·.definition) ∧
      (ls.map fun l => (l.path, l.index)).Nodup ∧
      ∀ l, l ∈ ls ↔ ∃ r, Reachable t path r ∧ Selects t r l := by
  have hend := search_finishes t path
  refine ⟨?_, ?_, ?_⟩
  · apply (List.finite_toSet (.root t path :: possibleRequests t)).subset
    rintro r ⟨hr, hfile⟩
    exact List.mem_cons.2 (mem_possibleRequests_of_reachable hr hfile)
  · generalize hs : search t path = res at hend
    cases hend with
    | done hdone =>
      refine iff_of_true ⟨_, load_eq_ok_iff.2 ⟨_, hs, rfl⟩⟩ fun r hr => ?_
      exact (hdone.answered r (hdone.mem_opened hr)).2
    | stuck hr hnot =>
      refine iff_of_false ?_ fun hall => hnot (hall _ hr)
      rintro ⟨d, hd⟩
      obtain ⟨ls, hok, -⟩ := load_eq_ok_iff.1 hd
      rw [hs] at hok
      cases hok
  · intro d hd
    obtain ⟨ls, hs, rfl⟩ := load_eq_ok_iff.1 hd
    rw [hs] at hend
    obtain ⟨hdone⟩ := hend
    refine ⟨ls, rfl, hdone.distinct, fun l => ?_⟩
    rw [hdone.selected]
    constructor
    · rintro ⟨r, hr, hl⟩
      exact ⟨r, (hdone.answered r hr).1, hl⟩
    · rintro ⟨r, hr, hl⟩
      exact ⟨r, hdone.mem_opened hr, hl⟩

end ResolverKit.Import
