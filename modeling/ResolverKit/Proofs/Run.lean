import ResolverKit.Command.Run
import ResolverKit.Proofs.Arguments
import ResolverKit.Proofs.Writer

/-!
# What a run leaves as it was

`Action.Ensures` says what holds of the tree after a part of a run: one condition for the case that
it gives a result, and one for the case that it fails.  With its rule for sequences a whole run is
followed step by step, so that nothing has to be said about where it stops.

A run that is not asked to overwrite keeps every file, except that it may give new contents to the
one file that the settings name for the types:

    t.root.get? ss = some (.file c) →
      ∃ c', (run t args).tree.root.get? ss = some (.file c') ∧ …                  (run_keeps_files)

This holds of trees without links only (run_replaces_files).
-/

namespace ResolverKit.Command

open Output

/-! ## Conditions on the tree -/

/-- From a tree with `before`, the action gives a result with `after` or fails with `failed`. -/
structure Action.Ensures {α : Type} (before : FileTree → Prop) (x : Action α)
    (after : α → FileTree → Prop) (failed : FileTree → Prop) : Prop where
  ok : ∀ s s' a, before s.tree → x.run.run s = (.ok a, s') → after a s'.tree
  error : ∀ s s' e, before s.tree → x.run.run s = (.error e, s') → failed s'.tree

theorem run_bind {α β : Type} (x : Action α) (f : α → Action β) (s : Session) :
    (x >>= f).run.run s =
      match x.run.run s with
      | (.ok a, s') => (f a).run.run s'
      | (.error e, s') => (.error e, s') := by
  show (ExceptT.bind x f).run.run s = _
  simp only [ExceptT.bind, ExceptT.run_mk, StateT.run_bind]
  show (ExceptT.bindCont f (x.run.run s).1).run (x.run.run s).2 = _
  cases x.run.run s with
  | mk r s' => cases r <;> rfl

namespace Action.Ensures

variable {α β : Type} {before : FileTree → Prop} {after : α → FileTree → Prop}
  {failed : FileTree → Prop}

/-- An action that always gives a result and acts on the session by `g`. -/
theorem of_run {x : Action α} {a : α} {g : Session → Session}
    (hx : ∀ s, x.run.run s = (.ok a, g s))
    (h : ∀ s : Session, before s.tree → after a (g s).tree) : Ensures before x after failed := by
  refine ⟨fun s s' b hs hr => ?_, fun s s' e hs hr => ?_⟩
  · rw [hx] at hr
    cases hr
    exact h s hs
  · rw [hx] at hr
    cases hr

theorem pure {a : α} (h : ∀ t, before t → after a t) :
    Ensures before (pure a : Action α) after failed :=
  of_run (g := id) (fun _ => rfl) fun s hs => h s.tree hs

theorem print {m : Message} : Ensures before (Action.print m) (fun _ => before) failed :=
  of_run (fun _ => rfl) fun _ hs => hs

theorem modify {g : Session → Session} : Ensures before (modify g : Action PUnit)
    (fun _ t => ∃ s : Session, before s.tree ∧ (g s).tree = t) failed :=
  of_run (fun _ => rfl) fun s hs => ⟨s, hs, rfl⟩

theorem tree : Ensures before Action.tree (fun a t => a = t ∧ before t) failed := by
  refine ⟨fun s s' a hs hr => ?_, fun s s' e hs hr => ?_⟩
  · have h : Action.tree.run.run s = (.ok s.tree, s) := rfl
    rw [h] at hr
    cases hr
    exact ⟨rfl, hs⟩
  · have h : Action.tree.run.run s = (.ok s.tree, s) := rfl
    rw [h] at hr
    cases hr

theorem fail {f : Failure} (h : ∀ t, before t → failed t) :
    Ensures before (Action.fail f : Action α) after failed := by
  have hrun : ∀ s, (Action.fail f : Action α).run.run s = (.error f, s) := fun _ => rfl
  refine ⟨fun s s' a hs hr => ?_, fun s s' e hs hr => ?_⟩
  · rw [hrun] at hr
    cases hr
  · rw [hrun] at hr
    cases hr
    exact h _ hs

/-- Nothing comes after a failure. -/
theorem fail_bind {f : Failure} {g : α → Action β} {last : β → FileTree → Prop}
    (h : ∀ t, before t → failed t) : Ensures before (Action.fail f >>= g) last failed := by
  have hrun : ∀ s, (Action.fail f >>= g).run.run s = (.error f, s) := fun _ => rfl
  refine ⟨fun s s' a hs hr => ?_, fun s s' e hs hr => ?_⟩
  · rw [hrun] at hr
    cases hr
  · rw [hrun] at hr
    cases hr
    exact h _ hs

theorem bind {x : Action α} {f : α → Action β} {last : β → FileTree → Prop}
    (hx : Ensures before x after failed) (hf : ∀ a, Ensures (after a) (f a) last failed) :
    Ensures before (x >>= f) last failed := by
  refine ⟨fun s s' b hs hr => ?_, fun s s' e hs hr => ?_⟩
  · rw [run_bind] at hr
    split at hr
    · next a s1 hx1 => exact (hf a).ok _ _ _ (hx.ok _ _ _ hs hx1) hr
    · cases hr
  · rw [run_bind] at hr
    split at hr
    · next a s1 hx1 => exact (hf a).error _ _ _ (hx.ok _ _ _ hs hx1) hr
    · next e' s1 hx1 =>
      cases hr
      exact hx.error _ _ _ hs hx1

theorem mono {x : Action α} {before' : FileTree → Prop} {after' : α → FileTree → Prop}
    {failed' : FileTree → Prop} (h : Ensures before x after failed)
    (hb : ∀ t, before' t → before t) (ha : ∀ a t, after a t → after' a t)
    (hf : ∀ t, failed t → failed' t) : Ensures before' x after' failed' :=
  ⟨fun _ _ _ hs hr => ha _ _ (h.ok _ _ _ (hb _ hs) hr),
    fun _ _ _ hs hr => hf _ (h.error _ _ _ (hb _ hs) hr)⟩

/-- What follows from the condition before the action may be used about the action. -/
theorem assume {x : Action α} {P : Prop} (hP : ∀ t, before t → P)
    (h : P → Ensures before x after failed) : Ensures before x after failed :=
  ⟨fun s s' a hs hr => (h (hP _ hs)).ok s s' a hs hr,
    fun s s' e hs hr => (h (hP _ hs)).error s s' e hs hr⟩

/-- Settings and a schema change nothing, and a result is the one that was given. -/
theorem settings {r : Except Settings.SettingsError α} (h : ∀ t, before t → failed t) :
    Ensures before (Action.settings r) (fun a t => r = .ok a ∧ before t) failed := by
  unfold Action.settings
  split
  · exact .pure fun _ ht => ⟨rfl, ht⟩
  · exact .fail h
  · exact .fail h
  · exact .fail h

theorem schema {r : Except Import.LoadError α} (h : ∀ t, before t → failed t) :
    Ensures before (Action.schema r) (fun a t => r = .ok a ∧ before t) failed := by
  unfold Action.schema
  split
  · exact .pure fun _ ht => ⟨rfl, ht⟩
  · exact .fail h
  · exact .fail h

theorem reporting {ε : Type} {message : ε → String} {r : Except ε α}
    (h : ∀ t, before t → failed t) :
    Ensures before (Action.reporting message r) (fun a t => r = .ok a ∧ before t) failed := by
  unfold Action.reporting
  split
  · exact .pure fun _ ht => ⟨rfl, ht⟩
  · exact .fail h

theorem written {e : Option WriteError} (h : ∀ t, before t → failed t) :
    Ensures before (Action.written e) (fun _ => before) failed := by
  unfold Action.written
  split
  · exact .pure fun _ ht => ht
  · split
    · exact .fail h
    · exact .fail h

theorem written_some {e : WriteError} (h : ∀ t, before t → failed t) :
    Ensures before (Action.written (some e)) (fun _ _ => False) failed := by
  unfold Action.written
  dsimp only
  split
  · exact .fail h
  · exact .fail h

/-- Nothing is asked of an action that is not reached. -/
theorem never {x : Action α} : Ensures (fun _ => False) x after failed :=
  ⟨fun _ _ _ h => h.elim, fun _ _ _ h => h.elim⟩

end Action.Ensures

/-- The action gives this result and leaves the tree as it is. -/
def Action.Yields {α : Type} (t : FileTree) (x : Action α) (a : α) : Prop :=
  ∀ printed, ∃ printed', x.run.run ⟨t, printed⟩ = (.ok a, ⟨t, printed'⟩)

namespace Action.Yields

variable {α β : Type} {t : FileTree}

theorem pure (a : α) : Yields t (pure a : Action α) a := fun printed => ⟨printed, rfl⟩

theorem tree : Yields t Action.tree t := fun printed => ⟨printed, rfl⟩

theorem print (m : Message) : Yields t (Action.print m) () := fun printed => ⟨printed ++ [m], rfl⟩

theorem bind {x : Action α} {f : α → Action β} {a : α} {b : β} (hx : Yields t x a)
    (hf : Yields t (f a) b) : Yields t (x >>= f) b := by
  intro printed
  obtain ⟨printed', hx⟩ := hx printed
  rw [run_bind, hx]
  exact hf printed'

theorem settings {r : Except Settings.SettingsError α} {a : α} (h : r = .ok a) :
    Yields t (Action.settings r) a := h ▸ .pure a

theorem schema {r : Except Import.LoadError α} {a : α} (h : r = .ok a) :
    Yields t (Action.schema r) a := h ▸ .pure a

theorem reporting {ε : Type} {message : ε → String} {r : Except ε α} {a : α} (h : r = .ok a) :
    Yields t (Action.reporting message r) a := h ▸ .pure a

/-- An action that gives a result does not fail. -/
theorem ensures {x : Action α} {a : α} {failed : FileTree → Prop} (h : Yields t x a) :
    Ensures (· = t) x (fun a' t' => a' = a ∧ t' = t) failed := by
  have hrun : ∀ s : Session, s.tree = t → ∃ s', s'.tree = t ∧ x.run.run s = (.ok a, s') := by
    rintro s rfl
    obtain ⟨printed', hx⟩ := h s.printed
    exact ⟨⟨s.tree, printed'⟩, rfl, hx⟩
  refine ⟨fun s s' a' hs hr => ?_, fun s s' e hs hr => ?_⟩
  · obtain ⟨s'', htree, hx⟩ := hrun s hs
    rw [hx] at hr
    cases hr
    exact ⟨rfl, htree⟩
  · obtain ⟨s'', -, hx⟩ := hrun s hs
    rw [hx] at hr
    cases hr

end Action.Yields

/-! ## Preparing -/

open ResolverKit.Command.Action (Ensures Yields)

/-- The layout that the files of a tree ask for, if it is wanted. -/
def layoutIn (t : FileTree) (prettify : Bool) :
    Except Settings.SettingsError (Option Code.LayoutOptions) :=
  if prettify then (Settings.loadLayout t t.cwdPath).map fun o => some (o.getD .standard)
  else .ok none

theorem ensures_findLayout {prettify : Bool} {before failed : FileTree → Prop}
    (h : ∀ t, before t → failed t) :
    Ensures before (findLayout prettify) (fun o t => layoutIn t prettify = .ok o ∧ before t)
      failed := by
  unfold findLayout layoutIn
  cases prettify with
  | false => exact .pure fun _ ht => ⟨rfl, ht⟩
  | true =>
    refine .bind .tree fun t => .bind (.settings fun t' ht => h t' ht.2) fun o => ?_
    cases o with
    | some o =>
      refine .bind .print fun _ => .pure fun t' ⟨ho, ht, hb⟩ => ⟨?_, hb⟩
      rw [← ht, ho]
      rfl
    | none =>
      refine .pure fun t' ⟨ho, ht, hb⟩ => ⟨?_, hb⟩
      rw [← ht, ho]
      rfl

theorem yields_findLayout {t : FileTree} {prettify : Bool} {layout : Option Code.LayoutOptions}
    (h : layoutIn t prettify = .ok layout) : Yields t (findLayout prettify) layout := by
  unfold layoutIn at h
  unfold findLayout
  cases prettify with
  | false =>
    obtain rfl := Except.ok.inj h
    exact .pure none
  | true =>
    cases hload : Settings.loadLayout t t.cwdPath with
    | error e => simp [hload, Except.map] at h
    | ok o =>
      obtain rfl : some (o.getD .standard) = layout := by simpa [hload, Except.map] using h
      refine .bind .tree (.bind (.settings hload) ?_)
      cases o with
      | none => exact .pure _
      | some o => exact .bind (.print _) (.pure _)

/-- No scaffold is forced, laid out or not. -/
theorem force_of_generate {d : Sdl.Document} {bindings : Model.Bindings}
    {layout : Option Code.LayoutOptions} {language : String} {g : Code.Generated}
    (h : Code.generate d bindings layout language = .ok g) :
    ∀ f ∈ g.resolvers, f.force = false := by
  have hraw : ∀ lang plan, ∀ f ∈ Code.scaffolds lang plan, f.force = false := by
    intro lang plan f hf
    simp only [Code.scaffolds, List.mem_append, List.mem_map, List.mem_cons, List.not_mem_nil,
      or_false] at hf
    rcases hf with ⟨t, -, rfl⟩ | rfl | rfl <;> rfl
  unfold Code.generate at h
  simp only [bind, Except.bind] at h
  split at h
  · cases h
  · split at h
    · cases h
    · split at h
      · cases h
      · cases layout with
        | none =>
          obtain rfl := Except.ok.inj h
          exact hraw _ _
        | some options =>
          obtain rfl := Except.ok.inj h
          intro f hf
          obtain ⟨f', hf', rfl⟩ := List.mem_map.1 hf
          exact hraw _ _ f' hf'

/-- The entries of models in the form in which they are read. -/
def modelEntries (models : List (Text.CodeText × Text.CodeText)) :
    List (String × Model.EntryValue) :=
  models.map fun (type, entry) => (type.shown, .text entry.shown)

/-- Everything can be read and generated: the settings of the project, the schema with its imports,
the layout, the models, and from these the code. -/
structure Generates (t : FileTree) (a : Arguments) (project : Settings.ProjectSettings)
    (code : Code.Generated) : Prop where
  settings : Settings.loadProject t a.configPath = .ok project
  code : ∃ document layout bindings,
    Import.loadDocument t project.input.schemaPath = .ok document ∧
    layoutIn t a.prettify = .ok layout ∧ layout.bind Code.LayoutOptions.fault? = none ∧
    Model.bindAll t.cwdPath none project.output.typesPath (modelEntries project.input.models) =
      .ok bindings ∧
    Code.generate document bindings layout project.language.name = .ok code

/-- The names of the models can be written to a file. -/
def hasEncodableModels (project : Settings.ProjectSettings) : Bool :=
  project.input.models.all fun (_, entry) => entry.string?.isSome

/-- What is prepared is what can be read and generated. -/
def Prepared.IsFor (p : Prepared) (t : FileTree) (a : Arguments) : Prop :=
  ∃ project code, Generates t a project code ∧
    p = ⟨project.output, code, hasEncodableModels project⟩

theorem ensures_prepare {a : Arguments} {t : FileTree} :
    Ensures (· = t) (prepare a) (fun p t' => t' = t ∧ p.IsFor t a) (· = t) := by
  unfold prepare
  refine .bind .tree fun t' => ?_
  extract_lets detail
  have hdetail : ∀ {before : FileTree → Prop} (text : String),
      Ensures before (detail text) (fun _ => before) (· = t) := by
    intro before text
    show Ensures before (if a.verbose then _ else _) _ _
    split
    · exact .print
    · exact .pure fun _ h => h
  refine .bind (.settings fun _ h => h.2) fun project => ?_
  refine .bind (hdetail _) fun _ => ?_
  refine .bind (.schema fun _ h => h.2.2) fun document => ?_
  refine .bind (hdetail _) fun _ => ?_
  refine .bind (ensures_findLayout fun _ h => h.2.2.2) fun layout => ?_
  extract_lets models entries fault
  refine .bind (.reporting fun _ h => h.2.2.2.2) fun bindings => ?_
  refine .bind (hdetail _) fun _ => ?_
  refine .bind (.reporting fun _ h => h.2.2.2.2.2) fun code => ?_
  extract_lets finish
  cases hfault : fault with
  | some fault =>
    exact .fail_bind fun _ h => h.2.2.2.2.2.2
  | none =>
    refine .pure fun t'' ⟨hcode, hbindings, hlayout, hdocument, hproject, ht', ht''⟩ => ?_
    obtain rfl := ht'
    obtain rfl := ht''
    exact ⟨rfl, project, code, ⟨hproject, document, layout, bindings, hdocument, hlayout, hfault,
      hbindings, hcode⟩, rfl⟩

/-- What can be read and generated is prepared. -/
theorem yields_prepare {t : FileTree} {a : Arguments} {project : Settings.ProjectSettings}
    {code : Code.Generated} (h : Generates t a project code) :
    Yields t (prepare a) ⟨project.output, code, hasEncodableModels project⟩ := by
  obtain ⟨hproject, document, layout, bindings, hdocument, hlayout, hfault, hbindings, hcode⟩ := h
  unfold prepare
  refine .bind .tree ?_
  extract_lets detail
  have hdetail : ∀ text, Yields t (detail text) () := by
    intro text
    show Yields t (if a.verbose then _ else _) _
    split
    · exact .print _
    · exact .pure _
  refine .bind (.settings hproject) (.bind (hdetail _) (.bind (.schema hdocument) ?_))
  refine .bind (hdetail _) (.bind (yields_findLayout hlayout) ?_)
  refine .bind (.reporting hbindings) (.bind (hdetail _) ?_)
  rw [hfault]
  exact .bind (.reporting hcode) (.pure _)

/-! ## Writing -/

/-- The tree after the code was written. -/
def treeAfter (w : Writer) (force : Bool) (p : Prepared) (t : FileTree) : FileTree :=
  match w.types t (if p.encodable then p.code.types else "") p.output.typesPath with
  | (t', some _) => t'
  | (t', none) =>
    if p.encodable then
      (w.resolvers t' p.code.resolvers ⟨p.output.resolversDir, p.output.typesPath, force⟩).tree
    else t'

theorem ensures_write (w : Writer) (force : Bool) (p : Prepared) (t : FileTree) :
    Ensures (· = t) (write w force p) (fun _ => (· = treeAfter w force p t))
      (· = treeAfter w force p t) := by
  obtain ⟨types, resolvers⟩ := w
  obtain ⟨output, code, encodable⟩ := p
  unfold write treeAfter
  refine .bind .tree fun t1 => .assume (fun _ h => h.1.trans h.2) ?_
  rintro rfl
  dsimp only
  cases hw : types t1 (if encodable then code.types else "") output.typesPath with
  | mk t' e =>
    refine .bind .modify fun _ => ?_
    cases e with
    | some e => exact .bind (.written_some (by rintro _ ⟨_, _, rfl⟩; rfl)) fun _ => .never
    | none =>
      refine .bind (.pure fun _ h => h : Ensures _ (Action.written none) (fun _ => _) _) fun _ => ?_
      cases encodable with
      | false => exact .fail_bind (by rintro _ ⟨_, _, rfl⟩; rfl)
      | true =>
        refine .bind .print fun _ => .bind .modify fun _ => ?_
        refine .bind (.written (by rintro _ ⟨_, _, rfl⟩; rfl)) fun _ => ?_
        exact .pure (by rintro _ ⟨_, _, rfl⟩; rfl)

/-- What a run that is not asked to overwrite may do to a tree: every file stays a file, and only
the one at the place of the types may have other contents. -/
structure KeepsFilesBut (place : List String) (t t' : FileTree) : Prop where
  cwd : t'.cwd = t.cwd
  look : ∀ ss c, t.look ss = .file c → ∃ c', t'.look ss = .file c' ∧ (ss ≠ place → c' = c)

theorem KeepsFilesBut.trans_keepsFiles {place : List String} {t t' t'' : FileTree}
    (h : KeepsFilesBut place t t') (h' : KeepsFiles t' t'') : KeepsFilesBut place t t'' := by
  refine ⟨h'.cwd.trans h.cwd, fun ss c hc => ?_⟩
  obtain ⟨c', hc', hsame⟩ := h.look ss c hc
  exact ⟨c', h'.look ss c' hc', hsame⟩

/-- Scaffolds that are not forced leave all files as the types file has left them. -/
theorem keepsFilesBut_treeAfter {t : FileTree} (ht : t.Housed) {p : Prepared}
    (hforce : ∀ f ∈ p.code.resolvers, f.force = false) :
    KeepsFilesBut (t.placeOf p.output.typesPath) t (treeAfter .plain false p t) := by
  have htypes := look_writeTypes t (if p.encodable then p.code.types else "") p.output.typesPath
  unfold treeAfter
  simp only [Writer.plain]
  cases hw : writeTypes t (if p.encodable then p.code.types else "") p.output.typesPath with
  | mk t' e =>
    rw [hw] at htypes
    have hbut : KeepsFilesBut (t.placeOf p.output.typesPath) t t' := ⟨htypes.1, htypes.2⟩
    have ht' : t'.Housed := by simpa [FileTree.Housed, hbut.cwd] using ht
    cases e with
    | some e => exact hbut
    | none =>
      dsimp only
      split
      · exact hbut.trans_keepsFiles (keepsFiles_writeResolvers ht' hforce rfl)
      · exact hbut

/-- Every file stands in the second tree, with what it held unless it is the types file of the
settings. -/
def KeepsFilesButTypes (a : Arguments) (t t' : FileTree) : Prop :=
  ∀ ss c, t.look ss = .file c → ∃ c', t'.look ss = .file c' ∧
    (c' = c ∨ ∃ project, Settings.loadProject t a.configPath = .ok project ∧
      ss = t.placeOf project.output.typesPath)

theorem KeepsFilesButTypes.refl (a : Arguments) (t : FileTree) : KeepsFilesButTypes a t t :=
  fun _ c h => ⟨c, h, .inl rfl⟩

theorem keepsFilesButTypes_treeAfter {t : FileTree} (ht : t.Housed) {a : Arguments}
    {p : Prepared} (hp : p.IsFor t a) : KeepsFilesButTypes a t (treeAfter .plain false p t) := by
  obtain ⟨project, code, ⟨hproject, _, _, _, -, -, -, -, hcode⟩, rfl⟩ := hp
  have hbut := keepsFilesBut_treeAfter (p := ⟨project.output, code, hasEncodableModels project⟩)
    ht (force_of_generate hcode)
  intro ss c hc
  obtain ⟨c', hc', hsame⟩ := hbut.look ss c hc
  refine ⟨c', hc', ?_⟩
  by_cases hss : ss = t.placeOf project.output.typesPath
  · exact .inr ⟨project, hproject, hss⟩
  · exact .inl (hsame hss)

/-- All that a run does with arguments that do not ask to overwrite. -/
theorem ensures_perform {t : FileTree} (ht : t.Housed) {a : Arguments} (ha : a.force = false) :
    Ensures (· = t) (perform .plain a) (fun _ => KeepsFilesButTypes a t)
      (KeepsFilesButTypes a t) := by
  have hprepare : Ensures (· = t) (prepare a) (fun p t' => t' = t ∧ p.IsFor t a)
      (KeepsFilesButTypes a t) := by
    refine ensures_prepare.mono (fun _ h => h) (fun _ _ h => h) ?_
    rintro t' rfl
    exact .refl a t'
  unfold perform
  refine .bind hprepare fun p => .assume (fun _ h => h.2) fun hp => ?_
  have hwritten := keepsFilesButTypes_treeAfter ht hp
  have hwrite : Ensures (fun t' => t' = t ∧ p.IsFor t a) (write .plain false p)
      (fun _ => KeepsFilesButTypes a t) (KeepsFilesButTypes a t) := by
    refine (ensures_write .plain false p t).mono (fun _ h => h.1) ?_ ?_
    · intro _ t' h
      rwa [h]
    · intro t' h
      rwa [h]
  rw [ha]
  refine .bind hwrite fun skip => ?_
  split
  · exact .print
  · exact .pure fun _ h => h

/-! ## Whole runs -/

/-- What holds of the tree wherever the command may end holds of the tree that a run leaves. -/
theorem runWith_of_ensures {w : Writer} {t : FileTree} {args : List String} {a : Arguments}
    {P : FileTree → Prop} (ha : readArguments t args = .ok a) (hnotice : a.notice = none)
    (h : Ensures (· = t) (perform w a) (fun _ => P) P) : P (runWith w t args).tree := by
  unfold runWith
  simp only [ha, hnotice]
  split
  · next s hs => exact h.ok _ _ _ rfl hs
  · next message s hs => exact h.error _ _ _ rfl hs
  · next crash s hs => exact h.error _ _ _ rfl hs

/-- Where everything can be prepared, the writes alone decide what a run leaves. -/
theorem tree_runWith {w : Writer} {t : FileTree} {args : List String} {a : Arguments}
    {p : Prepared} (ha : readArguments t args = .ok a) (hnotice : a.notice = none)
    (hp : Yields t (prepare a) p) :
    (runWith w t args).tree = treeAfter w a.force p t := by
  refine runWith_of_ensures (P := (· = treeAfter w a.force p t)) ha hnotice ?_
  unfold perform
  refine .bind hp.ensures fun p' => .assume (fun _ h => h.1) ?_
  rintro rfl
  refine .bind ((ensures_write w a.force p' t).mono (fun _ h => h.2) (fun _ _ h => h)
    fun _ h => h) fun skip => ?_
  split
  · exact .print
  · exact .pure fun _ h => h

/-- A run that is not asked to overwrite keeps every file, wherever and however it ends: each file
is still there, and it holds what it held unless it is the one at the place that the settings name
for the types. -/
theorem run_keeps_files {t : FileTree} (ht : t.Housed) {args : List String}
    (hforce : ¬ AsksForce args) {ss : List String} {c : Content}
    (hc : t.root.get? ss = some (.file c)) :
    ∃ c', (run t args).tree.root.get? ss = some (.file c') ∧
      (c' = c ∨ ∃ a project, readArguments t args = .ok a ∧
        Settings.loadProject t a.configPath = .ok project ∧
        ss = t.placeOf project.output.typesPath) := by
  have hlook : t.look ss = .file c := Node.look_eq_file_iff.2 hc
  unfold run
  cases ha : readArguments t args with
  | error e =>
    have htree : (runWith .plain t args).tree = t := by cases e <;> simp [runWith, ha]
    exact ⟨c, by rw [htree, hc], .inl rfl⟩
  | ok a =>
    cases hnotice : a.notice with
    | some n =>
      have htree : (runWith .plain t args).tree = t := by simp [runWith, ha, hnotice]
      exact ⟨c, by rw [htree, hc], .inl rfl⟩
    | none =>
      have haforce : a.force = false := by
        by_contra h
        exact hforce ⟨a, readFrom_of_readArguments ha, by simpa using h⟩
      have hkeeps := runWith_of_ensures ha hnotice (ensures_perform ht haforce)
      obtain ⟨c', hc', hsame⟩ := hkeeps ss c hlook
      refine ⟨c', Node.look_eq_file_iff.1 hc', hsame.imp_right ?_⟩
      rintro ⟨project, hproject, hss⟩
      exact ⟨a, project, rfl, hproject, hss⟩

/-- A project in the directory `work`, with a scaffold edited by hand. -/
def editedProject : FileTree :=
  ⟨.dir [("work", .dir
      [("graphqlgen.yml", .file (.text
        "{language: flow, input: {schema: a}, output: {types: t, resolvers: r}}")),
       ("a", .file (.text "type User \x7b name: String \x7d")),
       ("r", .dir [("User.js", .file (.text "// edited"))])])],
    ["work"]⟩

/-- The edited scaffold outlives a run, although the types file beside it is written. -/
theorem run_keeps_edited_scaffold :
    editedProject.Housed ∧ ¬ AsksForce ["-v"] ∧
      editedProject.root.get? ["work", "r", "User.js"] = some (.file (.text "// edited")) ∧
      (run editedProject ["-v"]).tree.root.get? ["work", "r", "User.js"] =
        some (.file (.text "// edited")) := by
  have ht : editedProject.Housed := by
    intro s hs
    obtain rfl : s = "work" := by simpa [editedProject] using hs
    exact ⟨by decide, by decide, by decide, by decide⟩
  have hread : readFrom .none ["-v"] = .ok ⟨"graphqlgen.yml", false, true, true, none, []⟩ := rfl
  have hforce : ¬ AsksForce ["-v"] := by
    rintro ⟨a, ha, hf⟩
    obtain rfl := Except.ok.inj (hread.symm.trans ha)
    cases hf
  have hc : editedProject.root.get? ["work", "r", "User.js"] =
      some (.file (.text "// edited")) := rfl
  refine ⟨ht, hforce, hc, ?_⟩
  obtain ⟨c', hc', hsame⟩ := run_keeps_files ht hforce hc
  rcases hsame with rfl | ⟨a, project, ha, hproject, hplace⟩
  · exact hc'
  · obtain rfl := Except.ok.inj (hread.symm.trans (readFrom_of_readArguments ha))
    have htypes : (Settings.loadProject editedProject "graphqlgen.yml").toOption.map
        (·.output.typesPath) = some "t" := by decide +kernel
    rw [hproject] at htypes
    have hpath : project.output.typesPath = "t" := Option.some.inj htypes
    rw [hpath] at hplace
    exact absurd hplace (by decide +kernel)

/-! ## Files that a run does change

Links lead a write elsewhere than its path says.  A scaffold whose link leads to nothing counts as
absent; making the directories above it can bring its target into being, and then the scaffold is
written over it.  Without links a scaffold is only lost if the settings name it for the types. -/

theorem loadText_of_answer {t : FileTree} {path : String} {loaded : List Import.Loaded}
    (hfile : t.isFile (t.absolute path) = true)
    (h : Import.answer t ⟨t.absolute path, none⟩ [] = .ok (loaded, [])) :
    Import.loadText t path = .ok (Sdl.Document.print (loaded.map (·.definition))) := by
  simp [Import.loadText, Import.load, hfile, h, Import.follow, bind, Except.bind, pure, Except.pure,
    Except.map]

theorem eq_ok_of_toOption {ε α : Type} {r : Except ε α} {a : α} (h : r.toOption = some a) :
    r = .ok a := by
  cases r with
  | error e => cases h
  | ok b => exact congrArg _ (Option.some.inj h)

theorem eq_ok_getD {ε α : Type} {r : Except ε α} {default : α} (h : r.isOk = true) :
    r = .ok (r.toOption.getD default) := by
  cases r with
  | error e => cases h
  | ok a => rfl

def scalarDocument : Sdl.Document := (Sdl.parse "scalar A").toOption.getD []

def scalarCode : Code.Generated :=
  (Code.generate scalarDocument [] none "flow").toOption.getD ⟨"", []⟩

/-- A run in a project whose schema `a` declares one scalar. -/
theorem tree_runWith_scalarCode {t : FileTree} (w : Writer) (output : Settings.OutputSettings)
    (harguments : readArguments t ["--no-prettify"] =
      .ok ⟨"graphqlgen.yml", false, false, false, none, []⟩)
    (hsettings : (Settings.loadProject t "graphqlgen.yml").toOption =
      some ⟨.flow, ⟨"a", []⟩, output⟩)
    (hfile : t.isFile (t.absolute "a") = true)
    (hanswer : (Import.answer t ⟨t.absolute "a", none⟩ []).toOption.map
      (fun r => (Sdl.Document.print (r.1.map (·.definition)), r.2)) = some ("scalar A", [])) :
    (runWith w t ["--no-prettify"]).tree = treeAfter w false ⟨output, scalarCode, true⟩ t := by
  obtain ⟨⟨loaded, links⟩, hloaded, hr⟩ := Option.map_eq_some_iff.1 hanswer
  obtain ⟨hprinted, rfl⟩ : Sdl.Document.print (loaded.map (·.definition)) = "scalar A" ∧
      links = [] := Prod.mk.inj hr
  have hparse : Sdl.parse "scalar A" = .ok scalarDocument := eq_ok_getD (by decide +kernel)
  have hcode : Code.generate scalarDocument [] none "flow" = .ok scalarCode :=
    eq_ok_getD (by decide +kernel)
  have htext := loadText_of_answer hfile (eq_ok_of_toOption hloaded)
  rw [hprinted] at htext
  have hdocument : Import.loadDocument t "a" = .ok scalarDocument := by
    simp [Import.loadDocument, htext, hparse, bind, Except.bind, pure, Except.pure]
  have hgenerates : Generates t ⟨"graphqlgen.yml", false, false, false, none, []⟩
      ⟨.flow, ⟨"a", []⟩, output⟩ scalarCode :=
    ⟨eq_ok_of_toOption hsettings, scalarDocument, none, [], hdocument, rfl, rfl, rfl, hcode⟩
  exact tree_runWith harguments rfl (yields_prepare hgenerates)

/-- A project whose scaffolds go beside the directory that the link `l` leads to. -/
def linkedProject : FileTree :=
  ⟨.dir [("work", .dir
      [("graphqlgen.yml", .file (.text
        "{language: flow, input: {schema: a}, output: {types: t, resolvers: l/../out}}")),
       ("a", .file (.text "scalar A")),
       ("notes", .file (.text "mine")),
       ("e", .dir [("d", .dir []), ("out", .dir [("types", .dir [])])])])],
    ["work"]⟩

/-- The link `l`, and a scaffold that leads to the notes once there is a directory `out/types`. -/
def projectLinks : Links :=
  ⟨[(["work", "l"], "e/d"),
    (["work", "e", "out", "types", "Context.js"], "../../../out/types/../../notes")]⟩

/-- A project that names a scaffold for the types. -/
def namedProject : FileTree :=
  ⟨.dir [("work", .dir
      [("graphqlgen.yml", .file (.text
        "{language: flow, input: {schema: a}, output: {types: r/index.js, resolvers: r}}")),
       ("a", .file (.text "scalar A")),
       ("r", .dir [("index.js", .file (.text "// edited"))])])],
    ["work"]⟩

/-- Without being asked to overwrite, a run replaces the notes, which are not the types file; and
without any links it replaces an edited scaffold that is named for the types. -/
theorem run_replaces_files :
    (linkedProject.Housed ∧ ¬ AsksForce ["--no-prettify"] ∧
      linkedProject.root.get? ["work", "notes"] = some (.file (.text "mine")) ∧
      (Settings.loadProject linkedProject "graphqlgen.yml").toOption =
        some ⟨.flow, ⟨"a", []⟩, ⟨"t", "l/../out"⟩⟩ ∧
      (runThrough projectLinks linkedProject ["--no-prettify"]).tree.root.get? ["work", "notes"] ≠
        some (.file (.text "mine"))) ∧
    (namedProject.Housed ∧
      namedProject.root.get? ["work", "r", "index.js"] = some (.file (.text "// edited")) ∧
      (run namedProject ["--no-prettify"]).tree.root.get? ["work", "r", "index.js"] ≠
        some (.file (.text "// edited"))) := by
  have hwork : ∀ root, FileTree.Housed ⟨root, ["work"]⟩ := by
    intro root s hs
    obtain rfl : s = "work" := by simpa using hs
    exact ⟨by decide, by decide, by decide, by decide⟩
  have hforce : ¬ AsksForce ["--no-prettify"] := by
    rintro ⟨a, ha, hf⟩
    obtain rfl := Except.ok.inj ha
    cases hf
  have hlinked : (Settings.loadProject linkedProject "graphqlgen.yml").toOption =
      some ⟨.flow, ⟨"a", []⟩, ⟨"t", "l/../out"⟩⟩ := by decide +kernel
  refine ⟨⟨hwork _, hforce, rfl, hlinked, ?_⟩, hwork _, rfl, ?_⟩
  · rw [runThrough, tree_runWith_scalarCode _ _ rfl hlinked (by decide +kernel) (by decide +kernel)]
    exact mt Node.look_eq_file_iff.2 (by decide +kernel)
  · rw [run, tree_runWith_scalarCode _ ⟨"r/index.js", "r"⟩ rfl (by decide +kernel)
      (by decide +kernel) (by decide +kernel)]
    exact mt Node.look_eq_file_iff.2 (by decide +kernel)

end ResolverKit.Command
