import ResolverKit.Proofs.Commented
import ResolverKit.Proofs.Undescribed

/-!
# Descriptions in generated code

Descriptions show only in comments: whatever is generated for a document is what is generated for
the document without its descriptions, with rows added that are comments
(`descriptions_add_comments`).
-/

namespace ResolverKit.Code

open Schema (Field ObjectType)
open Sdl (Document IsName)

/-! ## Files without descriptions -/

def Member.undescribed (m : Member) : Member := { m with doc := none }

def Choice.undescribed (c : Choice) : Choice := { c with doc := none }

def RecordType.undescribed (r : RecordType) : RecordType :=
  { r with doc := none, members := r.members.map Member.undescribed }

def Resolver.undescribed (r : Resolver) : Resolver :=
  { r with doc := none, arguments := r.arguments.map Member.undescribed }

/-- The resolvers of a type without descriptions. -/
def ResolverGroup.undescribed (g : ResolverGroup) : ResolverGroup :=
  { g with resolvers := g.resolvers.map Resolver.undescribed }

def TypesFile.undescribed (f : TypesFile) : TypesFile :=
  { f with
    enums := f.enums.map Choice.undescribed
    unions := f.unions.map Choice.undescribed
    records := f.records.map RecordType.undescribed
    groups := f.groups.map ResolverGroup.undescribed }

def TypeScaffold.undescribed (s : TypeScaffold) : TypeScaffold := { s with doc := none }

/-! ## Plans -/

def Plan.undescribed (p : Plan) : Plan := { p with schema := p.schema.undescribed }

theorem objects_undescribed (s : Schema) :
    s.undescribed.objects = s.objects.map ObjectType.undescribed := by
  simp only [Schema.objects, Schema.undescribed, List.filter_map]
  rfl

/-- Descriptions play no part in the naming of models. -/
theorem Plan.of_undescribed (s : Schema) (bindings : Model.Bindings) :
    Plan.of s.undescribed bindings = (Plan.of s bindings).undescribed := by
  have hused : usedNames s.undescribed = usedNames s := by
    simp only [usedNames, Schema.undescribed, List.map_map]
    rfl
  unfold Plan.of Plan.undescribed
  rw [hused]

section

variable (lang : Language) (p : Plan)

theorem fieldMembers_undescribed (fields : List Field) :
    fieldMembers lang (fields.map Field.undescribed) =
      (fieldMembers lang fields).map Member.undescribed := by
  simp only [fieldMembers, List.map_map]
  rfl

theorem RecordType.ofInput_undescribed (t : Schema.InputType) :
    ofInput lang t.undescribed = (ofInput lang t).undescribed :=
  congrArg (RecordType.mk t.name none false) (fieldMembers_undescribed lang t.fields)

theorem RecordType.ofType_undescribed (t : ObjectType) :
    ofType lang t.undescribed = (ofType lang t).undescribed :=
  congrArg (RecordType.mk t.name none t.isInterface) (fieldMembers_undescribed lang t.fields)

theorem Resolver.ofField_undescribed (f : Field) :
    ofField lang p.undescribed f.undescribed = (ofField lang p f).undescribed := by
  have harguments : argumentMembers lang f.arguments =
      (argumentMembers lang f.arguments).map Member.undescribed := by
    simp only [argumentMembers, List.map_map]
    rfl
  exact congrArg (Resolver.mk f.name none · (resultType lang p f.type)) harguments

theorem ResolverGroup.ofType_undescribed (t : ObjectType) :
    ofType lang p.undescribed t.undescribed = (ofType lang p t).undescribed := by
  have hresolvers : (t.fields.map Field.undescribed).map (Resolver.ofField lang p.undescribed) =
      (t.fields.map (Resolver.ofField lang p)).map Resolver.undescribed := by
    rw [List.map_map, List.map_map]
    exact List.map_congr_left fun f _ => Resolver.ofField_undescribed lang p f
  have hdelegated : ((t.fields.map Field.undescribed).filter isDelegated).map (·.name) =
      (t.fields.filter isDelegated).map (·.name) := by
    rw [List.filter_map, List.map_map]
    rfl
  unfold ofType undescribed
  rw [← hresolvers, ← hdelegated]
  rfl

theorem TypesFile.ofPlan_undescribed (path : String) :
    ofPlan lang path p.undescribed = (ofPlan lang path p).undescribed := by
  have hrecords : p.undescribed.schema.inputs.map (RecordType.ofInput lang) ++
      p.undescribed.schema.types.map (RecordType.ofType lang) =
      (p.schema.inputs.map (RecordType.ofInput lang) ++
        p.schema.types.map (RecordType.ofType lang)).map RecordType.undescribed := by
    simp only [Plan.undescribed, Schema.undescribed, List.map_append, List.map_map]
    congr 1
    · exact List.map_congr_left fun t _ => RecordType.ofInput_undescribed lang t
    · exact List.map_congr_left fun t _ => RecordType.ofType_undescribed lang t
  have hgroups : p.undescribed.schema.objects.map (ResolverGroup.ofType lang p.undescribed) =
      (p.schema.objects.map (ResolverGroup.ofType lang p)).map ResolverGroup.undescribed := by
    show p.schema.undescribed.objects.map _ = _
    rw [objects_undescribed, List.map_map, List.map_map]
    exact List.map_congr_left fun t _ => ResolverGroup.ofType_undescribed lang p t
  unfold ofPlan undescribed
  rw [hrecords, hgroups]
  simp only [Plan.undescribed, Schema.undescribed, List.map_map]
  rfl

theorem TypeScaffold.ofType_undescribed (t : ObjectType) :
    ofType p.undescribed t.undescribed = (ofType p t).undescribed := by
  unfold ofType undescribed
  simp only [Schema.ObjectType.undescribed, List.map_map]
  rfl

end

/-! ## Lines -/

/-- A description may stand as a comment in front of a line of code. -/
theorem Commented.docLines (description : Option String) {l : Line} (hl : StartsPlain l.text)
    {a b : List Line} (h : Commented a b) :
    Commented (Code.docLines none ++ l :: a) (Code.docLines description ++ l :: b) := by
  show Commented (l :: a) _
  unfold Code.docLines
  dsimp only
  split
  · exact .same l h
  · exact .note 0 description hl h

theorem Commented.scaffoldDoc (description : Option String) {l : Line} (hl : StartsPlain l.text)
    {a b : List Line} (h : Commented a b) :
    Commented (Code.scaffoldDoc none ++ l :: a) (Code.scaffoldDoc description ++ l :: b) := by
  show Commented (l :: a) _
  unfold Code.scaffoldDoc
  split
  · exact .same l h
  · exact .same l h
  · exact .note 0 _ hl h

theorem Commented.flatMap_map {α : Type} {u : α → α} {f g : α → List Line} {xs : List α}
    (h : ∀ x ∈ xs, Commented (f (u x)) (g x)) :
    Commented ((xs.map u).flatMap f) (xs.flatMap g) := by
  rw [List.flatMap_map]
  exact .flatMap h

theorem Choice.commented_lines (lang : Language) (c : Choice) :
    Commented (c.undescribed.lines lang) (c.lines lang) := by
  have hstart : ∀ options,
      StartsPlain (Line.top ("export type " ++ c.name ++ " = " ++ options)).text :=
    fun options => ((StartsPlain.append (by decide) c.name).append " = ").append options
  exact .docLines c.doc (hstart _) (.refl [.blank])

theorem TypeScript.commented_memberLines {m : Member} (h : StartsPlain m.name) :
    Commented (memberLines m.undescribed) (memberLines m) := by
  have hstart : StartsPlain (Line.top (m.text .typescript)).text :=
    ((h.append _).append ": ").append _
  exact (Commented.docLines m.doc hstart .nil).shift

/-- The lines behind the one that opens an interface. -/
theorem TypeScript.commented_members {members : List Member}
    (h : ∀ m ∈ members, StartsPlain m.name) :
    Commented ((members.map Member.undescribed).flatMap memberLines ++ [.top "\x7d"])
      (members.flatMap memberLines ++ [.top "\x7d"]) :=
  (Commented.flatMap_map fun m hm => commented_memberLines (h m hm)).append (.refl _)

theorem TypeScript.commented_recordLines {r : RecordType}
    (h : ∀ m ∈ r.members, StartsPlain m.name) :
    Commented (recordLines r.undescribed) (recordLines r) := by
  have hstart : StartsPlain (Line.top ("export interface " ++ r.name ++ " \x7b")).text :=
    (StartsPlain.append (by decide) r.name).append " \x7b"
  exact (Commented.docLines r.doc hstart (commented_members h)).append (.refl [.blank])

theorem Flow.memberLines_undescribed (members : List Member) :
    memberLines (members.map Member.undescribed) = memberLines members := by
  simp only [memberLines, List.map_map]
  rfl

theorem Flow.commented_recordLines (r : RecordType) :
    Commented (recordLines r.undescribed) (recordLines r) := by
  have hstart : ∀ last, StartsPlain (Line.top ("export type " ++ r.name ++ last)).text :=
    fun last => (StartsPlain.append (by decide) r.name).append last
  have hrecord : recordLines r.undescribed = docLines none ++
      if r.isOpen then openLines r.name (memberLines r.members)
      else exactLines r.name (memberLines r.members) := by
    rw [← memberLines_undescribed r.members]
    rfl
  rw [hrecord]
  unfold recordLines openLines exactLines
  split
  · exact .docLines r.doc (hstart " = \x7b") (.refl _)
  · exact .docLines r.doc (hstart " = \x7b|") (.refl _)

section

variable (g : ResolverGroup) (r : Resolver)

theorem TypeScript.argumentType_undescribed :
    argumentType g.undescribed r.undescribed = argumentType g r := by
  show (if (r.arguments.map Member.undescribed).isEmpty then _ else _) = _
  rw [List.isEmpty_map]
  rfl

theorem Flow.argumentType_undescribed :
    argumentType g.undescribed r.undescribed = argumentType g r := by
  show (if (r.arguments.map Member.undescribed).isEmpty then _ else _) = _
  rw [List.isEmpty_map]
  rfl

theorem Flow.argumentLines_undescribed :
    argumentLines g.undescribed r.undescribed = argumentLines g r := by
  show (if (r.arguments.map Member.undescribed).isEmpty then []
    else exactLines _ (memberLines (r.arguments.map Member.undescribed))) = _
  rw [List.isEmpty_map, memberLines_undescribed]
  rfl

end

theorem TypeScript.commented_argumentLines (g : ResolverGroup) {r : Resolver}
    (h : ∀ m ∈ r.arguments, StartsPlain m.name) :
    Commented (argumentLines g.undescribed r.undescribed) (argumentLines g r) := by
  show Commented (if (r.arguments.map Member.undescribed).isEmpty then [] else _) _
  unfold argumentLines
  rw [List.isEmpty_map]
  split
  · exact .nil
  · exact (Commented.same _ (commented_members h)).append (.refl [.blank])

theorem TypeScript.commented_resolverLines (g : ResolverGroup) (r : Resolver) :
    Commented (resolverLines g.undescribed r.undescribed) (resolverLines g r) := by
  have hlines : resolverLines g.undescribed r.undescribed =
      docLines none ++ [.top (r.signature .typescript g.type g.parent (argumentType g r))] := by
    rw [← argumentType_undescribed g r]
    rfl
  have hstart :
      StartsPlain (Line.top (r.signature .typescript g.type g.parent (argumentType g r))).text := by
    unfold Resolver.signature
    simp only [Line.top, String.append_assoc]
    exact StartsPlain.append (by decide) _
  rw [hlines]
  exact .docLines r.doc hstart .nil

/-- In a namespace the resolvers have comments. -/
theorem TypeScript.commented_groupLines {g : ResolverGroup}
    (h : ∀ r ∈ g.resolvers, ∀ m ∈ r.arguments, StartsPlain m.name) :
    Commented (groupLines g.undescribed) (groupLines g) := by
  have harguments : Commented ((g.resolvers.map Resolver.undescribed).flatMap
      (argumentLines g.undescribed)) (g.resolvers.flatMap (argumentLines g)) :=
    .flatMap_map fun r hr => commented_argumentLines g (h r hr)
  have hresolvers : Commented ((g.resolvers.map Resolver.undescribed).flatMap
      (resolverLines g.undescribed)) (g.resolvers.flatMap (resolverLines g)) :=
    .flatMap_map fun r _ => commented_resolverLines g r
  have htype : typeLines g.undescribed = typeLines g := by
    simp only [typeLines, ResolverGroup.undescribed, List.map_map]
    rfl
  have hbody := ((((Commented.refl (defaultLines g)).append harguments).append hresolvers).append
    (.refl [.blank])).append (.refl (typeLines g))
  have hgroup := (Commented.same (.top ("export namespace " ++
    Language.resolversName .typescript g.type ++ " \x7b")) hbody.shift).append
    (.refl [.top "\x7d", .blank])
  unfold groupLines
  rw [htype]
  exact hgroup

theorem Flow.groupLines_undescribed (g : ResolverGroup) :
    groupLines g.undescribed = groupLines g := by
  have harguments : (g.resolvers.map Resolver.undescribed).flatMap (argumentLines g.undescribed) =
      g.resolvers.flatMap (argumentLines g) := by
    rw [List.flatMap_map]
    exact List.flatMap_congr fun r _ => argumentLines_undescribed g r
  have hresolvers : (g.resolvers.map Resolver.undescribed).map (resolverLine g.undescribed) =
      g.resolvers.map (resolverLine g) := by
    rw [List.map_map]
    refine List.map_congr_left fun r _ => ?_
    show Line.top (r.signature .flow g.type g.parent (argumentType g.undescribed r.undescribed)) = _
    rw [argumentType_undescribed]
    rfl
  have htype : typeLines g.undescribed = typeLines g := by
    simp only [typeLines, ResolverGroup.undescribed, List.map_map]
    rfl
  unfold groupLines
  rw [htype, ← harguments, ← hresolvers]
  rfl

/-! ## Files -/

/-- The names of all members in a types file start as code does. -/
structure TypesFile.HasPlainMembers (f : TypesFile) : Prop where
  records : ∀ r ∈ f.records, ∀ m ∈ r.members, StartsPlain m.name
  arguments : ∀ g ∈ f.groups, ∀ r ∈ g.resolvers, ∀ m ∈ r.arguments, StartsPlain m.name

theorem indexLines_undescribed (lang : Language) (groups : List ResolverGroup) :
    indexLines lang (groups.map ResolverGroup.undescribed) = indexLines lang groups := by
  cases lang with
  | typescript =>
    simp only [indexLines, TypeScript.indexLines, List.map_map]
    rfl
  | flow =>
    simp only [indexLines, Flow.indexLines, List.map_map]
    rfl

/-- Descriptions are comments in a types file. -/
theorem TypesFile.commented_lines (lang : Language) {f : TypesFile} (h : f.HasPlainMembers) :
    Commented (f.undescribed.lines lang) (f.lines lang) := by
  have hchoices : ∀ cs : List Choice,
      Commented ((cs.map Choice.undescribed).flatMap (·.lines lang)) (cs.flatMap (·.lines lang)) :=
    fun cs => .flatMap_map fun c _ => Choice.commented_lines lang c
  have hindex : Commented (indexLines lang (f.groups.map ResolverGroup.undescribed))
      (indexLines lang f.groups) := by
    rw [indexLines_undescribed]
    exact .refl _
  cases lang with
  | typescript =>
    have hfront := Commented.refl ([.top ("// " ++ generatedNote), .blank] ++
      importLines "import" f ++ reexportLines f)
    have hrecords : Commented
        ((f.records.map RecordType.undescribed).flatMap TypeScript.recordLines)
        (f.records.flatMap TypeScript.recordLines) :=
      .flatMap_map fun r hr => TypeScript.commented_recordLines (h.records r hr)
    have hgroups : Commented
        ((f.groups.map ResolverGroup.undescribed).flatMap TypeScript.groupLines)
        (f.groups.flatMap TypeScript.groupLines) :=
      .flatMap_map fun g hg => TypeScript.commented_groupLines (h.arguments g hg)
    exact ((((hfront.append (hchoices f.enums)).append (hchoices f.unions)).append
      hrecords).append hgroups).append hindex
  | flow =>
    have hfront := Commented.refl ([.top "/* @flow */", .top ("// " ++ generatedNote), .blank] ++
      importLines "import type" f ++ reexportLines f)
    have hrecords : Commented ((f.records.map RecordType.undescribed).flatMap Flow.recordLines)
        (f.records.flatMap Flow.recordLines) :=
      .flatMap_map fun r _ => Flow.commented_recordLines r
    have hgroups : Commented ((f.groups.map ResolverGroup.undescribed).flatMap Flow.groupLines)
        (f.groups.flatMap Flow.groupLines) :=
      .flatMap_map fun g _ => by
        rw [Flow.groupLines_undescribed]
        exact .refl _
    exact ((((hfront.append (hchoices f.enums)).append (hchoices f.unions)).append
      hrecords).append hgroups).append hindex

/-- The description of a scaffold is a comment. -/
theorem TypeScaffold.commented_lines (lang : Language) (s : TypeScaffold) :
    Commented (s.undescribed.lines lang) (s.lines lang) := by
  have hstart : StartsPlain (Line.top ("export const " ++ s.type ++ ": " ++
      lang.resolversType s.type ++ " = \x7b")).text :=
    (((StartsPlain.append (by decide) s.type).append ": ").append _).append " = \x7b"
  have hlines : ∀ s : TypeScaffold, s.lines lang = languageMark lang ++ resolverNote ++
      [importLine (typeImport lang)
        (lang.resolversName s.type :: s.parent.toList.map importItem) placeholder, .blank] ++
      (scaffoldDoc s.doc ++ .top ("export const " ++ s.type ++ ": " ++
        lang.resolversType s.type ++ " = \x7b") :: s.fields.flatMap (·.lines s.parent)) ++
      [.top "\x7d", .blank] := by
    intro s
    rw [← List.append_assoc _ (scaffoldDoc s.doc)]
    rfl
  rw [hlines, hlines]
  exact ((Commented.refl _).append (.scaffoldDoc s.doc hstart (.refl _))).append (.refl _)

/-! ## What is generated -/

theorem TypesFile.ofPlan_hasPlainMembers (lang : Language) (path : String) {p : Plan}
    (hs : p.schema.IsNamed) : (ofPlan lang path p).HasPlainMembers := by
  have hplain : ∀ n, IsName n → StartsPlain n := fun n hn =>
    (isIdentifier_of_isName hn).startsPlain
  have hfields : ∀ fields : List Field, (∀ f ∈ fields, f.IsNamed) →
      ∀ m ∈ fieldMembers lang fields, StartsPlain m.name := by
    intro fields h m hm
    obtain ⟨f, hf, rfl⟩ := List.mem_map.1 hm
    exact hplain f.name (h f hf).name
  refine ⟨fun r hr => ?_, fun g hg r hr m hm => ?_⟩
  · rcases List.mem_append.1 hr with hr | hr
    · obtain ⟨t, ht, rfl⟩ := List.mem_map.1 hr
      exact hfields t.fields (hs.inputs t ht).2
    · obtain ⟨t, ht, rfl⟩ := List.mem_map.1 hr
      exact hfields t.fields (hs.types t ht).2
  · obtain ⟨t, ht, rfl⟩ := List.mem_map.1 hg
    obtain ⟨f, hf, rfl⟩ := List.mem_map.1 hr
    obtain ⟨a, ha, rfl⟩ := List.mem_map.1 hm
    have hfield := (hs.types t (List.mem_of_mem_filter ht)).2 f hf
    exact hplain a.name (hfield.arguments a ha).1

theorem commented_types (lang : Language) (layout : Option LayoutOptions) {p : Plan}
    (hs : p.schema.IsNamed) :
    AddsComments (laidText layout (generateRaw lang p.undescribed).types)
      (laidText layout (generateRaw lang p).types) := by
  have hplain := TypesFile.ofPlan_hasPlainMembers lang contextPath hs
  have hlines := TypesFile.commented_lines lang hplain
  have htypes : ∀ p : Plan, (generateRaw lang p).types =
      renderLines ((TypesFile.ofPlan lang contextPath p).lines lang) := fun p =>
    TypesFile.render_eq lang _
  rw [htypes, htypes, TypesFile.ofPlan_undescribed]
  exact hlines.addsComments layout (TypesFile.getLast?_lines lang _)
    (TypesFile.getLast?_lines lang _)

theorem commented_scaffolds (lang : Language) (layout : Option LayoutOptions) (p : Plan) :
    List.Forall₂ (fun f g => g.path = f.path ∧ g.force = f.force ∧
      AddsComments (laidText layout f.code) (laidText layout g.code))
      (scaffolds lang p.undescribed) (scaffolds lang p) := by
  have hobjects : p.undescribed.schema.objects = p.schema.objects.map ObjectType.undescribed :=
    objects_undescribed p.schema
  have hnames : p.undescribed.schema.objects.map (·.name) = p.schema.objects.map (·.name) := by
    rw [hobjects, List.map_map]
    rfl
  have hsame : ∀ f : CodeFile, f.path = f.path ∧ f.force = f.force ∧
      AddsComments (laidText layout f.code) (laidText layout f.code) := fun f =>
    ⟨rfl, rfl, .of_rows (.refl _ _)⟩
  unfold scaffolds
  dsimp only
  rw [hnames, hobjects, List.map_map]
  refine List.rel_append ?_ (List.forall₂_same.2 fun f _ => hsame f)
  rw [List.forall₂_map_left_iff, List.forall₂_map_right_iff]
  refine List.forall₂_same.2 fun t _ => ⟨rfl, rfl, ?_⟩
  have hscaffold := TypeScaffold.ofType_undescribed p t
  have hlines := TypeScaffold.commented_lines lang (TypeScaffold.ofType p t)
  show AddsComments (laidText layout (renderLines
    ((TypeScaffold.ofType p.undescribed t.undescribed).lines lang))) _
  rw [hscaffold]
  exact hlines.addsComments layout (TypeScaffold.getLast?_lines lang _)
    (TypeScaffold.getLast?_lines lang _)

/-- Descriptions add comments to what is generated for an accepted schema, and nothing else.  A
parsed document is named (`Sdl.isNamed_of_parse`). -/
theorem descriptions_add_comments (lang : Language) (layout : Option LayoutOptions) {d : Document}
    {s : Schema} {bindings : Model.Bindings} (hd : d.IsNamed) (hs : Schema.ofDocument d = .ok s)
    (hm : Model.checkTypes bindings (s.types.map (·.name)) = .ok ()) :
    ∃ plain code, generate d.undescribed bindings layout lang.name = .ok plain ∧
      generate d bindings layout lang.name = .ok code ∧ plain.Corresponds AddsComments code := by
  have hs' : Schema.ofDocument d.undescribed = .ok s.undescribed := by
    rw [Schema.ofDocument_undescribed, hs]
    rfl
  have hm' : Model.checkTypes bindings (s.undescribed.types.map (·.name)) = .ok () := by
    have hnames : s.undescribed.types.map (·.name) = s.types.map (·.name) := List.map_map
    rw [hnames]
    exact hm
  have hnamed : (Plan.of s bindings).schema.IsNamed := Schema.isNamed_of_ofDocument hd hs
  have htypes := commented_types lang layout hnamed
  have hscaffolds := commented_scaffolds lang layout (Plan.of s bindings)
  refine ⟨_, _, generate_eq hs' hm' layout, generate_eq hs hm layout, ?_⟩
  rw [Plan.of_undescribed]
  cases layout with
  | none => exact ⟨htypes, hscaffolds⟩
  | some o =>
    refine ⟨htypes, ?_⟩
    exact List.forall₂_map_left_iff.2 (List.forall₂_map_right_iff.2 hscaffolds)

/-- A document whose descriptions close comments, open brackets and break lines. -/
def describedDocument : Document :=
  [.type (some ⟨"Closes */ and opens \x7b( \x60", false⟩) "User" [] (.object []
    [⟨some ⟨"One\u2028line\n\x7d", true⟩, "id", [], .named "ID" true, []⟩]),
   .type (some ⟨" \u0085 ", false⟩) "Query" [] (.object []
    [⟨none, "user", [⟨some ⟨"/**", false⟩, "id", .named "ID" true, none, []⟩],
      .named "User" false, []⟩])]

theorem descriptions_add_comments_describedDocument :
    describedDocument.IsNamed ∧
      Schema.ofDocument describedDocument = .ok (Schema.merged describedDocument) ∧
      Model.checkTypes [] ((Schema.merged describedDocument).types.map (·.name)) = .ok () ∧
      ∃ plain code,
        generate describedDocument.undescribed [] (some .standard) "typescript" = .ok plain ∧
        generate describedDocument [] (some .standard) "typescript" = .ok code ∧
        plain.Corresponds AddsComments code := by
  have hd : describedDocument.IsNamed := by decide +kernel
  have hs : Schema.ofDocument describedDocument = .ok (Schema.merged describedDocument) := rfl
  have hm : Model.checkTypes [] ((Schema.merged describedDocument).types.map (·.name)) =
      .ok () := rfl
  exact ⟨hd, hs, hm, descriptions_add_comments .typescript (some .standard) hd hs hm⟩

end ResolverKit.Code
