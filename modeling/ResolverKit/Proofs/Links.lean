import ResolverKit.Command.Run

/-!
# Trees without links

Where there are no links every operation through links is the one on the tree, and so is what is
written:

    empty.direct t p = if p can be used then p itself                             (direct_empty)
    empty.writeTypes t types path = Output.writeTypes t types path            (writeTypes_empty)
    empty.writeResolvers t files o = Output.writeResolvers t files o      (writeResolvers_empty)
    runThrough .empty = run                                                    (runThrough_empty)
-/

namespace ResolverKit.Links

open Code (CodeFile)
open FileTree (unusable?)
open Output (Run WriteOptions)

/-! ## Paths -/

@[simp] theorem held?_empty (t : FileTree) (way : List String) (name : String) :
    empty.held? t way name = none := by
  unfold held?
  split <;> rfl

theorem walk_empty (t : FileTree)
    (behind : List String → List String → Except AccessError (List String))
    (way ss : List String) : empty.walk t behind way ss = .ok (way ++ ss) := by
  induction ss generalizing way with
  | nil => simp [walk]
  | cons s r ih => simp [walk, ih]

theorem follow_empty (t : FileTree) (budget : Nat) (way ss : List String) :
    empty.follow t budget way ss = .ok (way ++ ss) := by
  cases budget <;> exact walk_empty t _ way ss

theorem ofSegments_segments (p : String) : Path.ofSegments (Path.segments p) = p := by
  rw [Path.ofSegments, Path.segments, ← String.toList_inj, String.toList_intercalate]
  simpa [Function.comp_def] using Text.intercalate_pieces '/' p.toList

theorem direct_empty (t : FileTree) (p : String) :
    empty.direct t p = match unusable? p with
      | some e => .error e
      | none => .ok p := by
  unfold direct
  cases unusable? p with
  | some e => rfl
  | none => simp [follow_empty, Except.map, ofSegments_segments]

@[simp] theorem endsInLink_empty (t : FileTree) (p : String) : empty.endsInLink t p = false := by
  unfold endsInLink
  split
  · rfl
  · split
    · simp
    · rfl

/-! ## Operations -/

variable {t : FileTree} {p : String}

/-- A path that no access can use leads nowhere in a tree. -/
theorem node?_eq_none_of_unusable {e : AccessError} (h : unusable? p = some e) :
    t.node? p = none := by
  simp [FileTree.node?, FileTree.resolve, h]

theorem target_of_unusable {e : AccessError} (h : unusable? p = some e) :
    t.target p = .error e := by
  simp [FileTree.target, h, throw, throwThe, MonadExceptOf.throw]

@[simp] theorem exists?_empty (t : FileTree) (p : String) : empty.exists? t p = t.exists? p := by
  unfold exists?
  rw [direct_empty]
  cases h : unusable? p with
  | some e => simp [FileTree.exists?, node?_eq_none_of_unusable h]
  | none => rfl

@[simp] theorem isDir_empty (t : FileTree) (p : String) : empty.isDir t p = t.isDir p := by
  unfold isDir
  rw [direct_empty]
  cases h : unusable? p with
  | some e => simp [FileTree.isDir, node?_eq_none_of_unusable h]
  | none => rfl

@[simp] theorem write_empty (t : FileTree) (p text : String) :
    empty.write t p text = t.write p text := by
  unfold write
  rw [direct_empty]
  cases h : unusable? p with
  | some e => simp [FileTree.write, target_of_unusable h, bind, Except.bind]
  | none => rfl

@[simp] theorem createDir_empty (t : FileTree) (p : String) :
    empty.createDir t p = t.createDir p := by
  simp only [createDir, endsInLink_empty, Bool.and_false, Bool.false_eq_true, if_false]
  rw [direct_empty]
  cases h : unusable? p with
  | some e => simp [FileTree.createDir, target_of_unusable h, bind, Except.bind]
  | none => rfl

@[simp] theorem ensureDir_empty (t : FileTree) (p : String) :
    empty.ensureDir t p = t.ensureDir p := by
  cases h : t.createDir p <;> simp [ensureDir, FileTree.ensureDir, h]

@[simp] theorem makeDirs_empty (t : FileTree) (p : List Char) :
    empty.makeDirs t p = t.makeDirs p := by
  rw [makeDirs, FileTree.makeDirs]
  split
  · exact ensureDir_empty t _
  · next h =>
    have ih := makeDirs_empty t (FileTree.cutLast p).1
    rcases hm : t.makeDirs (FileTree.cutLast p).1 with ⟨t', _ | failure⟩ <;> simp [ih, hm]
termination_by p.length
decreasing_by exact FileTree.length_cutLast_lt ‹_›

/-! ## Generated files -/

@[simp] theorem writeFile_empty (t : FileTree) (path text : String) :
    empty.writeFile t path text = Output.writeFile t path text := by
  cases h : t.write path text <;> simp [writeFile, Output.writeFile, h]

@[simp] theorem missingDirs_empty (t : FileTree) (p : List Char) :
    empty.missingDirs t p = Output.missingDirs t p := by
  fun_induction Output.missingDirs t p with
  | case1 p h => rw [missingDirs, exists?_empty, if_pos h]
  | case2 p h hlast => rw [missingDirs, exists?_empty, if_neg h, dif_pos hlast]
  | case3 p h hlast ih => rw [missingDirs, exists?_empty, if_neg h, dif_neg hlast, ih]

@[simp] theorem provideDirs_empty (t : FileTree) (path : String) :
    empty.provideDirs t path = Output.makeDirs t path := by
  rcases h : t.makeDirs path.toList with ⟨t', _ | failure⟩ <;>
    simp [provideDirs, Output.makeDirs, h]

/-- The types file is written as in a tree without links. -/
theorem writeTypes_empty : empty.writeTypes = Output.writeTypes := by
  funext t types path
  rcases h : Output.makeDirs t (Path.dirname path) with ⟨t', e | missing⟩ <;>
    simp [writeTypes, Output.writeTypes, h]

@[simp] theorem handle_empty (o : WriteOptions) : empty.handle o = Run.handle o := by
  funext r f
  simp only [handle, Run.handle, isTaken, Output.isTaken, exists?_empty, writeScaffold, Run.write,
    provideDirs_empty, writeFile_empty]
  rfl

/-- Scaffolds are written as in a tree without links. -/
theorem writeResolvers_empty : empty.writeResolvers = Output.writeResolvers := by
  funext t files o
  rcases h : Output.makeDirs t o.dir with ⟨t', e | missing⟩ <;>
    simp [writeResolvers, Output.writeResolvers, h]

/-- A run without links is a run in the tree. -/
theorem runThrough_empty : Command.runThrough .empty = Command.run := by
  funext t args
  rw [Command.runThrough, writeTypes_empty, writeResolvers_empty]
  rfl

end ResolverKit.Links
