import ResolverKit.Proofs.Commented
import ResolverKit.Proofs.Distinct
import ResolverKit.Proofs.Making

/-!
# The paths of scaffolds

The scaffold of a type is called as the type, and two more files have names of their own.  One of
these names may be that of a type:

    s.entryNames.Nodup → ((scaffolds lang (.of s bindings)).map (·.path)).Nodup ↔
      "index" ∉ s.objects.map (·.name)                                       (nodup_paths_iff)

Paths that are different are set apart: none of them leads through another.
-/

namespace ResolverKit.Code

open Sdl (Document)
open Schema (ObjectType)
open Path (segments IsName)
open Output (SetApart)

section

variable {lang : Language} {type : String}

def typePath (lang : Language) (type : String) : String := type ++ lang.extension

def contextFilePath (lang : Language) : String := "types/Context" ++ lang.extension

theorem typePath_inj {a b : String} : typePath lang a = typePath lang b ↔ a = b :=
  String.append_left_inj lang.extension

/-! ## Segments -/

theorem length_extension (lang : Language) : lang.extension.length = 3 := by
  cases lang <;> rfl

theorem slash_not_mem_typePath (h : Sdl.IsName type) : '/' ∉ (typePath lang type).toList := by
  have hname : '/' ∉ type.toList := fun hmem => by
    have := List.all_eq_true.1 h.2 '/' hmem
    revert this
    decide
  have hextension : '/' ∉ lang.extension.toList := by cases lang <;> decide
  simp [typePath, hname, hextension]

theorem isName_typePath (h : Sdl.IsName type) : IsName (typePath lang type) := by
  have hlength : 3 ≤ (typePath lang type).length := by
    rw [typePath, String.length_append, length_extension]
    omega
  refine ⟨?_, ?_, ?_, slash_not_mem_typePath h⟩ <;>
  · intro heq
    rw [heq] at hlength
    revert hlength
    decide

theorem segments_typePath (h : Sdl.IsName type) :
    segments (typePath lang type) = [typePath lang type] := by
  simp [segments, Text.pieces_eq_singleton (slash_not_mem_typePath h)]

theorem segments_contextFilePath (lang : Language) :
    segments (contextFilePath lang) = ["types", "Context" ++ lang.extension] := by
  cases lang <;> decide +kernel

/-- The extension tells a file from the directory of the context. -/
theorem typePath_ne_types (lang : Language) (type : String) : typePath lang type ≠ "types" := by
  intro heq
  have hdot : '.' ∈ (typePath lang type).toList := by
    cases lang <;> simp [typePath, Language.extension]
  rw [heq] at hdot
  revert hdot
  decide

/-! ## Paths apart -/

/-- The path of the scaffold of some type, or of the context. -/
inductive IsScaffoldPath (lang : Language) : String → Prop
  | type {name : String} : Sdl.IsName name → IsScaffoldPath lang (typePath lang name)
  | context : IsScaffoldPath lang (contextFilePath lang)

theorem IsScaffoldPath.isName {p : String} (h : IsScaffoldPath lang p) :
    ∀ s ∈ segments p, IsName s := by
  cases h with
  | type hname =>
    rw [segments_typePath hname]
    simpa using isName_typePath hname
  | context =>
    rw [segments_contextFilePath]
    cases lang <;> decide

theorem IsScaffoldPath.eq_of_isPrefix {p q : String} (hp : IsScaffoldPath lang p)
    (hq : IsScaffoldPath lang q) (hpre : segments p <+: segments q) : p = q := by
  cases hp with
  | type hname =>
    rw [segments_typePath hname] at hpre
    cases hq with
    | type hname' =>
      rw [segments_typePath hname'] at hpre
      simpa using hpre.eq_of_length rfl
    | context =>
      rw [segments_contextFilePath] at hpre
      exact absurd (List.cons_prefix_cons.1 hpre).1 (typePath_ne_types lang _)
  | context =>
    cases hq with
    | type hname' =>
      rw [segments_contextFilePath, segments_typePath hname'] at hpre
      exact absurd hpre.length_le (by simp)
    | context => rfl

/-- Scaffolds with different paths do not get in each other's way. -/
theorem setApart_of_nodup {files : List CodeFile} (h : ∀ f ∈ files, IsScaffoldPath lang f.path)
    (hpaths : (files.map (·.path)).Nodup) : SetApart files := by
  refine ⟨fun f hf => (h f hf).isName, ?_⟩
  refine (List.pairwise_map.1 hpaths).imp_of_mem fun {f g} hf hg hne =>
    ⟨fun hpre => ?_, fun hpre => ?_⟩
  · exact hne ((h f hf).eq_of_isPrefix (h g hg) hpre)
  · exact hne ((h g hg).eq_of_isPrefix (h f hf) hpre).symm

end

/-! ## The scaffolds of a schema -/

def typeFile (lang : Language) (p : Plan) (t : ObjectType) : CodeFile :=
  ⟨typePath lang t.name, renderLines ((TypeScaffold.ofType p t).lines lang), false⟩

def contextFile (lang : Language) : CodeFile :=
  ⟨contextFilePath lang, renderLines (contextLines lang), false⟩

def indexFile (lang : Language) (types : List String) : CodeFile :=
  ⟨typePath lang "index", renderLines (indexFileLines lang types), false⟩

theorem scaffolds_eq (lang : Language) (p : Plan) :
    scaffolds lang p = p.schema.objects.map (typeFile lang p) ++
      [contextFile lang, indexFile lang (p.schema.objects.map (·.name))] := rfl

/-- The file with its text laid out, if there are options. -/
def laidFile (layout : Option LayoutOptions) (f : CodeFile) : CodeFile :=
  { f with code := laidText layout f.code }

/-- The scaffolds that are generated for an accepted schema whose models belong to its types. -/
theorem exists_generate (lang : Language) (layout : Option LayoutOptions) {d : Document}
    {s : Schema} {bindings : Model.Bindings} (hs : Schema.ofDocument d = .ok s)
    (hm : Model.checkTypes bindings (s.types.map (·.name)) = .ok ()) :
    ∃ g, generate d bindings layout lang.name = .ok g ∧
      g.resolvers = (scaffolds lang (.of s bindings)).map (laidFile layout) := by
  refine ⟨_, generate_eq hs hm layout, ?_⟩
  cases layout with
  | some o => rfl
  | none => exact (List.map_id _).symm

theorem isScaffoldPath_of_mem {lang : Language} {p : Plan} {layout : Option LayoutOptions}
    (hp : p.schema.IsNamed) {f : CodeFile} (hf : f ∈ (scaffolds lang p).map (laidFile layout)) :
    IsScaffoldPath lang f.path := by
  obtain ⟨g, hg, rfl⟩ := List.mem_map.1 hf
  rw [scaffolds_eq] at hg
  rcases List.mem_append.1 hg with hg | hg
  · obtain ⟨t, ht, rfl⟩ := List.mem_map.1 hg
    exact .type (hp.types t (List.mem_of_mem_filter ht)).1
  · rcases List.mem_cons.1 hg with rfl | hg
    · exact .context
    · obtain rfl := List.mem_singleton.1 hg
      exact .type (by decide)

/-- The scaffolds of the types and of the context. -/
def ownFiles (lang : Language) (layout : Option LayoutOptions) (p : Plan) : List CodeFile :=
  (p.schema.objects.map (typeFile lang p) ++ [contextFile lang]).map (laidFile layout)

/-- The file that collects the resolvers comes last. -/
theorem map_laidFile_scaffolds (lang : Language) (layout : Option LayoutOptions) (p : Plan) :
    (scaffolds lang p).map (laidFile layout) =
      ownFiles lang layout p ++
        [laidFile layout (indexFile lang (p.schema.objects.map (·.name)))] := by
  simp [scaffolds_eq, ownFiles]

theorem map_path_ownFiles (lang : Language) (layout : Option LayoutOptions) (p : Plan) :
    (ownFiles lang layout p).map (·.path) =
      (p.schema.objects.map (·.name)).map (typePath lang) ++ [contextFilePath lang] := by
  simp [ownFiles, laidFile, typeFile, contextFile, Function.comp_def]

/-- The paths of the scaffolds. -/
theorem map_path_scaffolds (lang : Language) (layout : Option LayoutOptions) (p : Plan) :
    ((scaffolds lang p).map (laidFile layout)).map (·.path) =
      (p.schema.objects.map (·.name)).map (typePath lang) ++
        [contextFilePath lang, typePath lang "index"] := by
  rw [map_laidFile_scaffolds, List.map_append, map_path_ownFiles]
  simp [laidFile, indexFile]

theorem contextFilePath_ne {lang : Language} {type : String} (h : Sdl.IsName type) :
    contextFilePath lang ≠ typePath lang type := by
  intro heq
  have hsegments : segments (typePath lang type) = [typePath lang type] := segments_typePath h
  rw [← heq, segments_contextFilePath] at hsegments
  simp at hsegments

/-- The paths of types and of the context are different. -/
theorem nodup_ownPaths {lang : Language} {types : List String} (htypes : types.Nodup)
    (hnames : ∀ n ∈ types, Sdl.IsName n) :
    (types.map (typePath lang) ++ [contextFilePath lang]).Nodup := by
  have hinj : (types.map (typePath lang)).Nodup :=
    htypes.map fun a b h => typePath_inj.1 h
  refine List.nodup_append.2 ⟨hinj, List.nodup_singleton _, ?_⟩
  rintro p hp q hq rfl
  obtain rfl := List.mem_singleton.1 hq
  obtain ⟨n, hn, heq⟩ := List.mem_map.1 hp
  exact contextFilePath_ne (hnames n hn) heq.symm

/-- All paths are different exactly if no type is called as the file that collects the resolvers. -/
theorem nodup_paths_iff {lang : Language} {types : List String} (htypes : types.Nodup)
    (hnames : ∀ n ∈ types, Sdl.IsName n) :
    (types.map (typePath lang) ++ [contextFilePath lang, typePath lang "index"]).Nodup ↔
      "index" ∉ types := by
  have hsplit : types.map (typePath lang) ++ [contextFilePath lang, typePath lang "index"] =
      (types.map (typePath lang) ++ [contextFilePath lang]) ++ [typePath lang "index"] := by simp
  have hcontext : contextFilePath lang ≠ typePath lang "index" := contextFilePath_ne (by decide)
  rw [hsplit, ← List.concat_eq_append, List.nodup_concat]
  simp [nodup_ownPaths htypes hnames, typePath_inj, hcontext.symm]

end ResolverKit.Code
