import ResolverKit.Proofs.Agreement
import ResolverKit.Proofs.Brackets

/-!
# Generated code is nested

The writers indent by hand.  If all names are identifiers and all paths fit between single quotes,
every line stands where its brackets put it, in a types file and in a scaffold:

    f.IsClean → Nested 0 (f.lines lang) 0                              (TypesFile.nested_lines)
    s.HasNames IsIdentifier → Nested 0 (s.lines lang) 0             (TypeScaffold.nested_lines)
-/

namespace ResolverKit.Code

open Text (Unbroken isBlank isLineBreak)
open Schema (Field ObjectType TypeUse)
open Sdl (IsName)

/-! ## Types and names -/

theorem piece_nullable (lang : Language) {s : String} (h : Piece s 0) :
    Piece (lang.nullable s) 0 := by
  cases lang with
  | typescript => exact h.append (.fixed (by decide : IsFixed " | null" 0))
  | flow => exact Piece.append (.fixed (by decide : IsFixed "?" 0)) h

theorem piece_optionally (lang : Language) (required : Bool) {s : String} (h : Piece s 0) :
    Piece (lang.optionally required s) 0 := by
  unfold Language.optionally
  split
  · exact h
  · exact piece_nullable lang h

theorem endsPlain_optionally (lang : Language) (required : Bool) {s : String} (h : EndsPlain s) :
    EndsPlain (lang.optionally required s) := by
  unfold Language.optionally
  split
  · exact h
  · cases lang with
    | typescript => exact EndsPlain.append (by decide) s
    | flow => exact h.append "?"

theorem TypeExpr.piece (lang : Language) {t : TypeExpr} (h : IsIdentifier t.base) :
    Piece (t.text lang) 0 := by
  unfold TypeExpr.text Language.typeText
  apply piece_optionally
  cases t.multiplicity with
  | one => exact .identifier h
  | many itemRequired =>
    have hitem := piece_optionally lang itemRequired (.identifier h)
    exact (Piece.append (.fixed (by decide : IsFixed "Array<" 0)) hitem).append
      (.fixed (by decide : IsFixed ">" 0))

theorem TypeExpr.endsPlain (lang : Language) {t : TypeExpr} (h : IsIdentifier t.base) :
    EndsPlain (t.text lang) := by
  unfold TypeExpr.text Language.typeText
  apply endsPlain_optionally
  cases t.multiplicity with
  | one => exact h.endsPlain
  | many itemRequired => exact EndsPlain.append (by decide) _

/-- A text that can stand between single quotes on one line. -/
def IsQuotable (s : String) : Prop :=
  ∀ c ∈ s.toList, c ≠ '\'' ∧ c ≠ '\\' ∧ isLineBreak c = false

instance (s : String) : Decidable (IsQuotable s) :=
  decidable_of_iff (s.toList.all (fun c => c != '\'' && c != '\\' && !isLineBreak c) = true)
    (by simp [IsQuotable, and_assoc])

theorem IsQuotable.piece {s : String} (h : IsQuotable s) : Piece ("'" ++ s ++ "'") 0 :=
  .quoted (fun c hc => ⟨(h c hc).1, (h c hc).2.1⟩) fun c hc => (h c hc).2.2

theorem IsIdentifier.isQuotable {s : String} (h : IsIdentifier s) : IsQuotable s := by
  intro c hc
  have hword := h.1.2 c hc
  refine ⟨?_, ?_, h.unbroken c hc⟩
  · rintro rfl
    exact absurd hword (by decide)
  · rintro rfl
    exact absurd hword (by decide)

theorem IsQuotable.append {a b : String} (ha : IsQuotable a) (hb : IsQuotable b) :
    IsQuotable (a ++ b) := by
  intro c hc
  rw [String.toList_append] at hc
  rcases List.mem_append.1 hc with hc | hc
  · exact ha c hc
  · exact hb c hc

theorem piece_importItem {item : String × String} (h1 : IsIdentifier item.1)
    (h2 : IsIdentifier item.2) : Piece (importItem item) 0 := by
  unfold importItem
  split
  · exact .identifier h1
  · exact (Piece.append (.identifier h1) (.fixed (by decide : IsFixed " as " 0))).append
      (.identifier h2)

theorem piece_bracedNames {names : List String} (h : ∀ n ∈ names, Piece n 0) :
    Piece (bracedNames names) 0 := by
  have hrow := Piece.intercalate (.fixed (by decide : IsFixed ", " 0)) h
  exact (Piece.append (.fixed (by decide : IsFixed "\x7b " 1)) hrow).append
    (.fixed (by decide : IsFixed " \x7d" (-1)))

/-! ## Imports, exports and choices -/

theorem sits_importLine (lang : Language) {names : List String} {path : String}
    (hnames : ∀ n ∈ names, Piece n 0) (hpath : IsQuotable path) :
    (importLine (importKeyword lang) names path).Sits 0 0 := by
  have hkeyword : Front (importKeyword lang ++ " ") 0 := by
    cases lang <;> exact .fixed (by decide) (by decide)
  have htext : importKeyword lang ++ " " ++ bracedNames names ++ " from '" ++ path ++ "'" =
      importKeyword lang ++ " " ++ bracedNames names ++ " from " ++ ("'" ++ path ++ "'") := by
    have hsplit : (" from '" : String) = " from " ++ "'" := rfl
    simp only [hsplit, String.append_assoc]
  have hfront := ((hkeyword.append (piece_bracedNames hnames)).append
    (.fixed (by decide : IsFixed " from " 0))).append hpath.piece
  rw [← htext] at hfront
  exact hfront.sits (EndsPlain.append (by decide) _) rfl

theorem nested_docLines (description : Option String) : Nested 0 (docLines description) 0 := by
  unfold docLines
  dsimp only
  split
  · exact .nil 0
  · exact .single (Line.sits_comment description 0)

theorem endsPlain_intercalate {sep : String} {xs : List String} (hne : xs ≠ [])
    (h : ∀ x ∈ xs, EndsPlain x) : EndsPlain (sep.intercalate xs) := by
  induction xs with
  | nil => exact absurd rfl hne
  | cons x r ih =>
    cases r with
    | nil => exact h x (by simp)
    | cons y r =>
      rw [String.intercalate_cons_cons]
      exact (ih (by simp) fun z hz => h z (by simp [hz])).append _

theorem piece_option {o : String} (h : IsIdentifier o ∨ ∃ v, IsIdentifier v ∧ o = "'" ++ v ++ "'") :
    Piece o 0 ∧ EndsPlain o := by
  rcases h with h | ⟨v, h, rfl⟩
  · exact ⟨.identifier h, h.endsPlain⟩
  · exact ⟨h.isQuotable.piece, EndsPlain.append (by decide) _⟩

theorem Choice.nested_lines (lang : Language) {c : Choice} (h : c.HasNames IsIdentifier) :
    Nested 0 (c.lines lang) 0 := by
  obtain ⟨hpiece, hend⟩ : Piece (if c.options.isEmpty then lang.emptyType
      else " | ".intercalate c.options) 0 ∧ EndsPlain (if c.options.isEmpty then lang.emptyType
      else " | ".intercalate c.options) := by
    split
    · have hempty : IsIdentifier lang.emptyType := by cases lang <;> decide
      exact ⟨.identifier hempty, hempty.endsPlain⟩
    · next hne =>
      refine ⟨.intercalate (.fixed (by decide : IsFixed " | " 0)) fun o ho =>
        (piece_option (h.options o ho)).1, endsPlain_intercalate ?_ fun o ho =>
        (piece_option (h.options o ho)).2⟩
      simpa using hne
  have hfront : Front "export type " 0 := .fixed (by decide) (by decide)
  have hline := ((hfront.append (.identifier h.name)).append
    (.fixed (by decide : IsFixed " = " 0))).append hpiece
  have hsits := hline.sits (k := 0) (m := 0) (hend.append _) rfl
  exact (nested_docLines c.doc).append (.line hsits (.blank (.nil 0)))

/-! ## Records -/

theorem Member.front (lang : Language) {m : Member} (h : m.HasNames IsIdentifier) :
    Front (m.text lang) 0 := by
  have hoptional : Piece (if m.optional then "?" else "") 0 := by
    cases m.optional with
    | true => exact .fixed (by decide : IsFixed "?" 0)
    | false => exact .fixed (by decide : IsFixed "" 0)
  exact (((Front.identifier h.name).append hoptional).append
    (.fixed (by decide : IsFixed ": " 0))).append (TypeExpr.piece lang h.type)

theorem Member.endsPlain (lang : Language) {m : Member} (h : m.HasNames IsIdentifier) :
    EndsPlain (m.text lang) := (TypeExpr.endsPlain lang h.type).append _

/-- A line that opens a block with a name. -/
theorem sits_opening {front name last : String} (hfront : Front front 0) (hname : IsIdentifier name)
    (hlast : IsFixed last 1) (hend : EndsPlain last) :
    (Line.top (front ++ name ++ last)).Sits 0 1 :=
  ((hfront.append (.identifier hname)).append (.fixed hlast)).sits (hend.append _) rfl

theorem TypeScript.nested_memberLines {m : Member} (h : m.HasNames IsIdentifier) :
    Nested 1 (memberLines m) 1 := by
  have hline := (Member.front .typescript h).sits (k := 0) (m := 0)
    (Member.endsPlain .typescript h) rfl
  exact ((nested_docLines m.doc).append (.single hline)).shift

theorem TypeScript.nested_interfaceLines {name : String} {members : List Member}
    (hname : IsIdentifier name) (h : ∀ m ∈ members, m.HasNames IsIdentifier) :
    Nested 0 (interfaceLines name members) 0 := by
  have hfront : Front "export interface " 0 := .fixed (by decide) (by decide)
  have hopen := sits_opening hfront hname (by decide : IsFixed " \x7b" 1) (by decide)
  exact .block hopen (.flatMap fun m hm => nested_memberLines (h m hm))
    (by decide)

theorem Flow.nested_memberLines {members : List Member}
    (h : ∀ m ∈ members, m.HasNames IsIdentifier) :
    Nested 1 (memberLines members) 1 :=
  .map fun m hm => ((Member.front .flow (h m hm)).append
    (.fixed (by decide : IsFixed "," 0))).sits (EndsPlain.append (by decide) _) rfl

theorem Flow.nested_exactLines {name : String} {members : List Line} (hname : IsIdentifier name)
    (h : Nested 1 members 1) : Nested 0 (exactLines name members) 0 := by
  have hfront : Front "export type " 0 := .fixed (by decide) (by decide)
  have hopen := sits_opening hfront hname (by decide : IsFixed " = \x7b|" 1) (by decide)
  exact .block_blank hopen h (by decide)

theorem Flow.nested_openLines {name : String} {members : List Line} (hname : IsIdentifier name)
    (h : Nested 1 members 1) : Nested 0 (openLines name members) 0 := by
  have hfront : Front "export type " 0 := .fixed (by decide) (by decide)
  have hopen := sits_opening hfront hname (by decide : IsFixed " = \x7b" 1) (by decide)
  exact .block_blank hopen h (by decide)

theorem RecordType.nested_lines (lang : Language) {r : RecordType} (h : r.HasNames IsIdentifier) :
    Nested 0 (r.lines lang) 0 := by
  have hdoc := nested_docLines r.doc
  cases lang with
  | typescript =>
    have hrecord := TypeScript.nested_interfaceLines h.name h.members
    exact (hdoc.append hrecord).append (.blank (.nil 0))
  | flow =>
    have hmembers := Flow.nested_memberLines h.members
    show Nested 0 (Flow.recordLines r) 0
    unfold Flow.recordLines
    split
    · exact hdoc.append (Flow.nested_openLines h.name hmembers)
    · exact hdoc.append (Flow.nested_exactLines h.name hmembers)

/-! ## Resolvers -/

theorem sits_delegate {parent field : String} (hp : IsIdentifier parent)
    (hf : IsIdentifier field) : (Line.inner (delegateText parent field)).Sits 1 1 :=
  (((((Front.identifier hf).append (.fixed (by decide : IsFixed ": (parent: " 1))).append
    (.identifier hp)).append (.fixed (by decide : IsFixed ") => parent." (-1)))).append
    (.identifier hf)).append (.fixed (by decide : IsFixed "," 0)) |>.sits
    (EndsPlain.append (by decide) _) rfl

theorem nested_defaultLines (lang : Language) {g : ResolverGroup} (h : g.HasNames IsIdentifier) :
    Nested 0 (.top ("export const " ++ lang.defaultsName g.type ++ " = \x7b") ::
      g.delegated.map (fun f => .inner (delegateText g.parent f)) ++ [.top "\x7d", .blank]) 0 := by
  have hfront : Front "export const " 0 := .fixed (by decide) (by decide)
  have hopen := sits_opening hfront (isNameClass_isIdentifier.defaultsName lang h.type)
    (by decide : IsFixed " = \x7b" 1) (by decide)
  exact .block_blank hopen (.map fun f hf => sits_delegate h.parent (h.delegated f hf)) (by decide)

theorem sits_signature (lang : Language) {g : ResolverGroup} (h : g.HasNames IsIdentifier)
    {r : Resolver} (hr : r.HasNames IsIdentifier) {args : String} (hargs : Piece args 0) :
    (Line.top (r.signature lang g.type g.parent args)).Sits 0 0 := by
  have hfront : Front "export type " 0 := .fixed (by decide) (by decide)
  have hname := isNameClass_isIdentifier.resolverName lang h.type hr.capital
  have hresult := TypeExpr.piece lang hr.result
  have hparent : IsFixed " = (parent: " 1 := by decide
  have hargument : IsFixed ", args: " 0 := by decide
  have hcontext : IsFixed ", ctx: Context, info: GraphQLResolveInfo) => " (-1) := by
    decide +kernel
  have hpromise : IsFixed " | Promise<" 0 := by decide
  have hline := (((((((((hfront.append (.identifier hname)).append (.fixed hparent)).append
    (.identifier h.parent)).append (.fixed hargument)).append hargs).append
    (.fixed hcontext)).append hresult).append (.fixed hpromise)).append hresult).append
    (.fixed (by decide : IsFixed ">" 0))
  exact hline.sits (EndsPlain.append (by decide) _) rfl

/-- An entry of the type of all resolvers of a type, or of all types. -/
theorem sits_entry (lang : Language) {name type : String} (hname : IsIdentifier name)
    (htype : Piece type 0) (hend : EndsPlain type) :
    (Line.inner (name ++ ": " ++ type ++ lang.memberEnd)).Sits 1 1 := by
  have hline := ((Front.identifier hname).append (.fixed (by decide : IsFixed ": " 0))).append htype
  cases lang with
  | typescript =>
    rw [Language.memberEnd, String.append_empty]
    exact hline.sits (hend.append _) rfl
  | flow =>
    have hend := hline.append (.fixed (by decide : IsFixed "," 0))
    exact hend.sits (EndsPlain.append (by decide) _) rfl

/-- A note to the end of the line. -/
theorem sits_note {text name : String} (htext : Unbroken text.toList) (h : IsIdentifier name) :
    (Line.top ("//" ++ text ++ name)).Sits 0 0 := by
  have hchars : ("//" ++ text ++ name).toList = '/' :: '/' :: (text ++ name).toList := by simp
  refine Line.sits_of_startsPlain ?_ ((StartsPlain.append (by decide) _).append _)
    (h.endsPlain.append _) ?_
  · rw [String.toList_append, String.toList_append]
    exact (Unbroken.append (by decide) htext).append h.unbroken
  · rw [hchars, bracketDelta, bracketsFrom]
    rfl

section

variable {g : ResolverGroup} (h : g.HasNames IsIdentifier)

include h

theorem TypeScript.nested_argumentLines {r : Resolver} (hr : r.HasNames IsIdentifier) :
    Nested 0 (argumentLines g r) 0 := by
  unfold argumentLines
  split
  · exact .nil 0
  · have hname := isNameClass_isIdentifier.argsName .typescript h.type hr.capital
    exact (nested_interfaceLines hname hr.arguments).append (.blank (.nil 0))

theorem Flow.nested_argumentLines {r : Resolver} (hr : r.HasNames IsIdentifier) :
    Nested 0 (argumentLines g r) 0 := by
  unfold argumentLines
  split
  · exact .nil 0
  · have hname := isNameClass_isIdentifier.argsName .flow h.type hr.capital
    exact nested_exactLines hname (nested_memberLines hr.arguments)

theorem TypeScript.nested_resolverLines {r : Resolver} (hr : r.HasNames IsIdentifier) :
    Nested 0 (resolverLines g r) 0 := by
  have hargs : Piece (argumentType g r) 0 := by
    unfold argumentType
    split
    · exact .fixed (by decide)
    · exact .identifier (isNameClass_isIdentifier.argsName .typescript h.type hr.capital)
  exact (nested_docLines r.doc).append (.single (sits_signature .typescript h hr hargs))

theorem Flow.sits_resolverLine {r : Resolver} (hr : r.HasNames IsIdentifier) :
    (resolverLine g r).Sits 0 0 := by
  have hargs : Piece (argumentType g r) 0 := by
    unfold argumentType
    split
    · exact .fixed (by decide)
    · exact .identifier (isNameClass_isIdentifier.argsName .flow h.type hr.capital)
  exact sits_signature .flow h hr hargs

theorem nested_resolverEntries (lang : Language) :
    Nested 1 (g.resolvers.map fun r =>
      .inner (r.field ++ ": " ++ lang.resolverName g.type r.field ++ lang.memberEnd)) 1 :=
  .map fun r hr =>
    have hname := isNameClass_isIdentifier.resolverName lang h.type (h.resolvers r hr).capital
    sits_entry lang (h.resolvers r hr).field (.identifier hname) hname.endsPlain

theorem TypeScript.nested_groupLines : Nested 0 (groupLines g) 0 := by
  have hentries := nested_resolverEntries h .typescript
  simp only [Language.memberEnd, String.append_empty] at hentries
  have htype : Nested 0 (typeLines g) 0 := .block (by decide +kernel) hentries (by decide)
  have hbody := ((((nested_defaultLines .typescript h).append
    (.flatMap fun r hr => nested_argumentLines h (h.resolvers r hr))).append
    (.flatMap fun r hr => nested_resolverLines h (h.resolvers r hr))).append
    (.blank (.nil 0))).append htype
  have hfront : Front "export namespace " 0 := .fixed (by decide) (by decide)
  have hopen := sits_opening hfront (isNameClass_isIdentifier.resolversName .typescript h.type)
    (by decide : IsFixed " \x7b" 1) (by decide)
  exact .block_blank hopen hbody.shift (by decide)

theorem Flow.nested_groupLines : Nested 0 (groupLines g) 0 := by
  have hnote := sits_note (by decide : Unbroken " Resolvers for ".toList) h.type
  have hname := isNameClass_isIdentifier.resolversName .flow h.type
  have htype : Nested 0 (typeLines g) 0 := nested_exactLines hname (nested_resolverEntries h .flow)
  exact (((Nested.line hnote ((nested_defaultLines .flow h).append
    (.flatMap fun r hr => nested_argumentLines h (h.resolvers r hr)))).append
    (.map fun r hr => sits_resolverLine h (h.resolvers r hr))).append
    (.blank (.nil 0))).append htype

end

/-! ## The types file -/

theorem piece_resolversType (lang : Language) {type : String} (h : IsIdentifier type) :
    Piece (lang.resolversType type) 0 ∧ EndsPlain (lang.resolversType type) := by
  cases lang with
  | typescript =>
    exact ⟨Piece.append (.identifier h) (.fixed (by decide : IsFixed "Resolvers.Type" 0)),
      EndsPlain.append (by decide) type⟩
  | flow =>
    have hname : IsIdentifier (type ++ "_Resolvers") := h.append (by decide)
    exact ⟨.identifier hname, hname.endsPlain⟩

theorem nested_indexLines (lang : Language) {groups : List ResolverGroup}
    (h : ∀ g ∈ groups, IsIdentifier g.type) : Nested 0 (indexLines lang groups) 0 := by
  have hentries : ∀ lang : Language, Nested 1 (groups.map fun g =>
      .inner (g.type ++ ": " ++ lang.resolversType g.type ++ lang.memberEnd)) 1 := fun lang =>
    .map fun g hg =>
      have htype := piece_resolversType lang (h g hg)
      sits_entry lang (h g hg) htype.1 htype.2
  cases lang with
  | typescript =>
    have hbody := hentries .typescript
    simp only [Language.memberEnd, String.append_empty] at hbody
    exact .block_blank (by decide +kernel) hbody (by decide)
  | flow => exact Flow.nested_exactLines (by decide) (hentries .flow)

/-- The names of a types file are identifiers, and its paths can stand between quotes. -/
structure TypesFile.IsClean (f : TypesFile) : Prop extends f.HasNames IsIdentifier where
  context : IsQuotable f.contextPath
  specifiers : ∀ g ∈ f.imports, IsQuotable g.specifier

section

variable {f : TypesFile} (h : f.IsClean)

include h

theorem nested_importLines (lang : Language) :
    Nested 0 (importLines (importKeyword lang) f) 0 := by
  have hfixed : ∀ name : String, IsIdentifier name → ∀ n ∈ [name], Piece n 0 := by
    intro name hname n hn
    obtain rfl := List.mem_singleton.1 hn
    exact .identifier hname
  have hinfo := sits_importLine lang (hfixed "GraphQLResolveInfo" (by decide))
    (by decide : IsQuotable "graphql")
  have hcontext := sits_importLine lang (hfixed "Context" (by decide)) h.context
  have hmodels : Nested 0 (f.imports.map fun g =>
      importLine (importKeyword lang) (g.names.map importItem) g.specifier) 0 := by
    refine .map fun g hg => sits_importLine lang (fun n hn => ?_) (h.specifiers g hg)
    obtain ⟨i, hi, rfl⟩ := List.mem_map.1 hn
    obtain ⟨h1, h2⟩ := h.imports g hg i hi
    exact piece_importItem h1 h2
  exact (Nested.line hinfo (.line hcontext hmodels)).append (.blank (.nil 0))

theorem nested_reexportLines : Nested 0 (reexportLines f) 0 := by
  have hnames : ∀ n ∈ f.models, Piece n 0 := by
    intro n hn
    obtain ⟨g, hg, hn⟩ := List.mem_flatMap.1 hn
    obtain ⟨i, hi, rfl⟩ := List.mem_map.1 hn
    exact .identifier (h.imports g hg i hi).2
  unfold reexportLines
  split
  · exact .nil 0
  · have hfront : Front "export type " 0 := .fixed (by decide) (by decide)
    have hend : EndsPlain (bracedNames f.models) := EndsPlain.append (by decide) _
    have hline := hfront.append (piece_bracedNames hnames)
    exact .line (hline.sits (hend.append _) rfl) (.blank (.nil 0))

/-- A types file is nested. -/
theorem TypesFile.nested_lines (lang : Language) : Nested 0 (f.lines lang) 0 := by
  have himports := nested_importLines h lang
  have hreexports := nested_reexportLines h
  have henums : Nested 0 (f.enums.flatMap (·.lines lang)) 0 :=
    .flatMap fun c hc => Choice.nested_lines lang (h.enums c hc)
  have hunions : Nested 0 (f.unions.flatMap (·.lines lang)) 0 :=
    .flatMap fun c hc => Choice.nested_lines lang (h.unions c hc)
  have hrecords : Nested 0 (f.records.flatMap (RecordType.lines lang)) 0 :=
    .flatMap fun r hr => RecordType.nested_lines lang (h.records r hr)
  have hindex := nested_indexLines lang fun g hg => (h.groups g hg).type
  have hnote : (Line.top ("// " ++ generatedNote)).Sits 0 0 := by decide +kernel
  cases lang with
  | typescript =>
    have hgroups : Nested 0 (f.groups.flatMap TypeScript.groupLines) 0 :=
      .flatMap fun g hg => TypeScript.nested_groupLines (h.groups g hg)
    exact (((((((Nested.line hnote (.blank (.nil 0))).append himports).append hreexports).append
      henums).append hunions).append hrecords).append hgroups).append hindex
  | flow =>
    have hgroups : Nested 0 (f.groups.flatMap Flow.groupLines) 0 :=
      .flatMap fun g hg => Flow.nested_groupLines (h.groups g hg)
    have hmark : (Line.top "/* @flow */").Sits 0 0 := by decide
    exact (((((((Nested.line hmark (.line hnote (.blank (.nil 0)))).append himports).append
      hreexports).append henums).append hunions).append hrecords).append hgroups).append hindex

end

/-! ## Scaffolds -/

theorem nested_front (lang : Language) : Nested 0 (languageMark lang ++ resolverNote) 0 := by
  have hnote : Nested 0 resolverNote 0 :=
    .flat (by decide +kernel) (.flat (by decide +kernel) (.blank (.nil 0)))
  cases lang with
  | typescript => exact hnote
  | flow => exact .flat (by decide) hnote

theorem isQuotable_placeholder : IsQuotable placeholder := by decide

theorem nested_scaffoldDoc (description : Option String) :
    Nested 0 (scaffoldDoc description) 0 := by
  unfold scaffoldDoc
  split
  · exact .nil 0
  · exact .nil 0
  · exact .single (Line.sits_comment _ 0)

theorem nested_unwritten {argument field : String} (hp : Piece argument 0)
    (hf : IsIdentifier field) :
    Nested 1 [.inner (field ++ ": (" ++ argument ++ ", args, ctx, info) => \x7b"),
      ⟨2, "throw new Error('Resolver not implemented')"⟩, .inner "\x7d,"] 1 := by
  have hopen : IsFixed ": (" 1 := by decide
  have hrest : IsFixed ", args, ctx, info) => \x7b" 0 := by decide
  have hline := (((Front.identifier hf).append (.fixed hopen)).append hp).append (.fixed hrest)
  have hsits := hline.sits (k := 1) (m := 2) (EndsPlain.append (by decide) _) rfl
  have hthrow : (Line.mk 2 "throw new Error('Resolver not implemented')").Sits 2 2 := by
    decide +kernel
  exact .line hsits (.line hthrow (.line (by decide) (.nil 1)))

theorem ScaffoldField.nested_lines {parent : Option (String × String)}
    (hp : ∀ p ∈ parent, IsIdentifier p.2) {f : ScaffoldField} (hf : IsIdentifier f.name) :
    Nested 1 (f.lines parent) 1 := by
  obtain ⟨name, delegated⟩ := f
  rcases parent with _ | ⟨type, parent⟩
  · exact nested_unwritten (.fixed (by decide : IsFixed "parent" 0)) hf
  · have hparent : IsIdentifier parent := hp _ rfl
    cases delegated with
    | true => exact .single (sits_delegate hparent hf)
    | false =>
      exact nested_unwritten (Piece.append (.fixed (by decide : IsFixed "parent: " 0))
        (.identifier hparent)) hf

theorem TypeScaffold.nested_lines (lang : Language) {s : TypeScaffold}
    (h : s.HasNames IsIdentifier) :
    Nested 0 (s.lines lang) 0 := by
  have hnames : ∀ n ∈ lang.resolversName s.type :: s.parent.toList.map importItem, Piece n 0 := by
    intro n hn
    rcases List.mem_cons.1 hn with rfl | hn
    · exact .identifier (isNameClass_isIdentifier.resolversName lang h.type)
    · obtain ⟨i, hi, rfl⟩ := List.mem_map.1 hn
      obtain ⟨h1, h2⟩ := h.parent i (Option.mem_toList.1 hi)
      exact piece_importItem h1 h2
  have himport := sits_importLine lang hnames isQuotable_placeholder
  rw [← typeImport_eq] at himport
  have hfields : Nested 1 (s.fields.flatMap (·.lines s.parent)) 1 :=
    .flatMap fun f hf =>
      ScaffoldField.nested_lines (fun p hp => (h.parent p hp).2) (h.fields f hf)
  have hconst : Front "export const " 0 := .fixed (by decide) (by decide)
  have hopen := (((hconst.append (.identifier h.type)).append
    (.fixed (by decide : IsFixed ": " 0))).append (piece_resolversType lang h.type).1).append
    (.fixed (by decide : IsFixed " = \x7b" 1))
  have hsits := hopen.sits (k := 0) (m := 1) (EndsPlain.append (by decide) _) rfl
  exact (((nested_front lang).append (.line himport (.blank (.nil 0)))).append
    (nested_scaffoldDoc s.doc)).append (.line hsits hfields) |>.append
    (.line (by decide) (.blank (.nil 0)))

theorem nested_contextLines (lang : Language) : Nested 0 (contextLines lang) 0 := by
  have hbody : ∀ first db request : Line, first.Sits 0 1 → db.Sits 1 1 → request.Sits 1 1 →
      Nested 0 [.top "// This file was scaffolded by graphqlgen. Add whatever your resolvers need",
        .top "// on the request context.", .blank, first, db, request, .top "\x7d", .blank] 0 :=
    fun _ _ _ hfirst hdb hrequest => .flat (by decide +kernel) (.flat (by decide) (.blank
      (.line hfirst (.flat hdb (.flat hrequest (.line (by decide) (.blank (.nil 0))))))))
  cases lang with
  | typescript => exact hbody _ _ _ (by decide +kernel) (by decide) (by decide)
  | flow => exact .flat (by decide) (hbody _ _ _ (by decide) (by decide) (by decide))

theorem nested_indexFileLines (lang : Language) {types : List String}
    (h : ∀ t ∈ types, IsIdentifier t) : Nested 0 (indexFileLines lang types) 0 := by
  have hsingle : ∀ name : String, IsIdentifier name → ∀ n ∈ [name], Piece n 0 := by
    intro name hname n hn
    obtain rfl := List.mem_singleton.1 hn
    exact .identifier hname
  have hresolvers := sits_importLine lang (hsingle "Resolvers" (by decide)) isQuotable_placeholder
  rw [← typeImport_eq] at hresolvers
  have himports : Nested 0 (types.map fun t => importLine "import" [t] ("./" ++ t)) 0 :=
    .map fun t ht => sits_importLine .typescript (hsingle t (h t ht))
      (IsQuotable.append (by decide) (h t ht).isQuotable)
  have hitems : Nested 1 (types.map fun t => .inner (t ++ ",")) 1 :=
    .map fun t ht => ((Front.identifier (h t ht)).append
      (.fixed (by decide : IsFixed "," 0))).sits (EndsPlain.append (by decide) _) rfl
  exact ((((nested_front lang).append (.single hresolvers)).append himports).append
    (.blank (.nil 0))).append (.line (by decide +kernel) hitems) |>.append
    (.line (by decide) (.blank (.nil 0)))

/-! ## Ends of files -/

theorem getLast?_closing (a : List Line) (l : Line) :
    (a ++ [l, .blank]).getLast? = some .blank := by
  rw [List.getLast?_append_of_ne_nil _ (by simp)]
  rfl

theorem getLast?_indexLines (lang : Language) (groups : List ResolverGroup) :
    (indexLines lang groups).getLast? = some .blank := by
  cases lang <;> exact getLast?_closing _ _

/-- Every file ends with an empty line. -/
theorem TypesFile.getLast?_lines (lang : Language) (f : TypesFile) :
    (f.lines lang).getLast? = some .blank := by
  have hindex := getLast?_indexLines lang f.groups
  have hne : indexLines lang f.groups ≠ [] := by
    intro h
    rw [h] at hindex
    cases hindex
  cases lang with
  | typescript => exact (List.getLast?_append_of_ne_nil _ hne).trans hindex
  | flow => exact (List.getLast?_append_of_ne_nil _ hne).trans hindex

theorem TypeScaffold.getLast?_lines (lang : Language) (s : TypeScaffold) :
    (s.lines lang).getLast? = some .blank := getLast?_closing _ _

theorem getLast?_contextLines (lang : Language) :
    (contextLines lang).getLast? = some .blank := by
  cases lang <;> rfl

theorem getLast?_indexFileLines (lang : Language) (types : List String) :
    (indexFileLines lang types).getLast? = some .blank := getLast?_closing _ _

end ResolverKit.Code
