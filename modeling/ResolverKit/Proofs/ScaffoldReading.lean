import ResolverKit.Code.Scaffold
import ResolverKit.Proofs.FileReading

/-!
# Reading scaffolds

A scaffold can be read back as a types file can: what it imports, and for each field whether its
resolver asks the parent or has to be written.

    s.HasNames IsWord → read (s.lines lang) = some (s.statements lang)
                                                                        (TypeScaffold.read_lines)
-/

namespace ResolverKit.Code

/-! ## The scaffold of a type -/

def parentTokens : Option (String × String) → List Token
  | some (_, parent) => [.word "parent", .mark ':', .word parent]
  | none => [.word "parent"]

/-- What stands behind the name of a resolver that has to be written. -/
def unwrittenTokens (parent : Option (String × String)) : List Token :=
  .mark '(' :: parentTokens parent ++
    [.mark ',', .word "args", .mark ',', .word "ctx", .mark ',', .word "info", .mark ')', .mark '=',
      .mark '>', .mark '{']

def ScaffoldField.statements (parent : Option (String × String)) (f : ScaffoldField) :
    List Statement :=
  match parent, f.delegated with
  | some (_, parent), true => [.asks f.name parent]
  | _, _ => [.entry f.name false (unwrittenTokens parent), .throws, .closes]

def TypeScaffold.statements (lang : Language) (s : TypeScaffold) : List Statement :=
  .imports ((lang.resolversName s.type, lang.resolversName s.type) :: s.parent.toList)
    placeholder ::
    .constant s.type (resolversTypeTokens lang s.type ++ [.mark '=', .mark '{']) ::
      s.fields.flatMap (·.statements s.parent) ++
    [.closes]

theorem typeImport_eq (lang : Language) : typeImport lang = importKeyword lang := by
  cases lang <;> rfl

theorem quotedPath_placeholder : quotedPath placeholder = placeholder :=
  quotedPath_eq (by decide)

theorem read_front (lang : Language) : read (languageMark lang ++ resolverNote) = some [] := by
  cases lang <;> decide +kernel

theorem read_scaffoldDoc (description : Option String) :
    read (scaffoldDoc description) = some [] := by
  unfold scaffoldDoc
  split
  · rfl
  · rfl
  · rw [read_singleton, Line.read_comment]

theorem Line.read_constant {name type : String} {ts : List Token} (h : IsWord name)
    (ht : Spells type ts) :
    (Line.top ("export const " ++ name ++ ": " ++ type ++ " = \x7b")).read =
      some [.constant name (ts ++ [.mark '=', .mark '{'])] := by
  have hfront : IsClosed "export const " [.word "export", .word "const"] := by decide
  have hcolon : IsMark ": " [.mark ':'] := by decide
  have hopen : IsMark " = \x7b" [.mark '=', .mark '{'] := by decide
  have htext := ((Spells.after hfront (.word h)).join hcolon ht).before hopen
  exact read_of_spells htext (statement?_constant _ _)

theorem Line.read_unwritten {parent : Option (String × String)} {argument field : String}
    (hp : Spells argument (parentTokens parent)) (hf : IsWord field) (indent : Nat) :
    (Line.mk indent (field ++ ": (" ++ argument ++ ", args, ctx, info) => \x7b")).read =
      some [.entry field false (unwrittenTokens parent)] := by
  have hopen : IsMark ": (" [.mark ':', .mark '('] := by decide
  have hrest : IsMark ", args, ctx, info) => \x7b"
      [.mark ',', .word "args", .mark ',', .word "ctx", .mark ',', .word "info", .mark ')',
        .mark '=', .mark '>', .mark '{'] := by decide +kernel
  have htext := ((Spells.word hf).join hopen hp).before hrest
  refine read_of_spells htext ?_
  rcases parent with _ | ⟨name, parent⟩ <;> rfl

theorem read_unwrittenLines {parent : Option (String × String)} {argument field : String}
    (hp : Spells argument (parentTokens parent)) (hf : IsWord field) :
    read [.inner (field ++ ": (" ++ argument ++ ", args, ctx, info) => \x7b"),
      ⟨2, "throw new Error('Resolver not implemented')"⟩, .inner "\x7d,"] =
      some [.entry field false (unwrittenTokens parent), .throws, .closes] := by
  have hhead := Line.read_unwritten hp hf 1
  have hthrow : (Line.mk 2 "throw new Error('Resolver not implemented')").read =
      some [.throws] := by decide +kernel
  have hclose : (Line.inner "\x7d,").read = some [.closes] := by decide
  exact read_cons hhead (read_cons hthrow (read_cons hclose rfl))

theorem ScaffoldField.read_lines {parent : Option (String × String)}
    (hp : ∀ p ∈ parent, IsWord p.2) {f : ScaffoldField} (hf : IsWord f.name) :
    read (f.lines parent) = some (f.statements parent) := by
  obtain ⟨name, delegated⟩ := f
  rcases parent with _ | ⟨type, parent⟩
  · have hparent : Spells "parent" (parentTokens none) :=
      .word (by decide : IsWord "parent")
    exact read_unwrittenLines hparent hf
  · have hword : IsWord parent := hp _ rfl
    cases delegated with
    | true => exact (read_singleton _).trans (read_delegate hword hf 1)
    | false =>
      have hparent : Spells ("parent: " ++ parent) (parentTokens (some (type, parent))) :=
        .after (by decide : IsClosed "parent: " [.word "parent", .mark ':']) (.word hword)
      exact read_unwrittenLines hparent hf

theorem TypeScaffold.read_lines (lang : Language) {s : TypeScaffold} (h : s.HasNames IsWord) :
    read (s.lines lang) = some (s.statements lang) := by
  have hname := isNameClass_isWord.resolversName lang h.type
  have hitem : importItem (lang.resolversName s.type, lang.resolversName s.type) =
      lang.resolversName s.type := if_pos rfl
  have himport : (importLine (typeImport lang)
      (lang.resolversName s.type :: s.parent.toList.map importItem) placeholder).read =
      some [.imports ((lang.resolversName s.type, lang.resolversName s.type) :: s.parent.toList)
        placeholder] := by
    have hitems : ∀ i ∈ (lang.resolversName s.type, lang.resolversName s.type) :: s.parent.toList,
        IsWord i.1 ∧ IsWord i.2 := by
      intro i hi
      rcases List.mem_cons.1 hi with rfl | hi
      · exact ⟨hname, hname⟩
      · exact h.parent i (Option.mem_toList.1 hi)
    have hline := read_importLine lang placeholder hitems
    rwa [List.map_cons, hitem, ← typeImport_eq, quotedPath_placeholder] at hline
  have hfields : read (s.fields.flatMap (·.lines s.parent)) =
      some (s.fields.flatMap (·.statements s.parent)) :=
    read_flatMap fun f hf =>
      ScaffoldField.read_lines (fun p hp => (h.parent p hp).2) (h.fields f hf)
  have hopen := Line.read_constant h.type (spells_resolversType lang h.type)
  have hclose : (Line.top "\x7d").read = some [.closes] := by decide
  have hfront := read_append (read_append (read_front lang) (read_cons himport read_blank))
    (read_scaffoldDoc s.doc)
  exact (read_append (read_append hfront (read_cons hopen hfields))
    (read_cons hclose read_blank)).trans rfl

/-! ## The file that collects the resolvers -/

/-- What the file that collects the resolvers says. -/
def indexFileStatements (types : List String) : List Statement :=
  .imports [("Resolvers", "Resolvers")] placeholder ::
    types.map (fun t => .imports [(t, t)] ("./" ++ t)) ++
    .constant "resolvers" [.word "Resolvers", .mark '=', .mark '{'] :: types.map .item ++ [.closes]

theorem read_indexImports {types : List String} (h : ∀ t ∈ types, IsWord t) :
    read (types.map fun t => importLine "import" [t] ("./" ++ t)) =
      some (types.map fun t => .imports [(t, t)] ("./" ++ t)) := by
  refine read_map fun t ht => ?_
  have hquote : '\'' ∉ ("./" ++ t).toList := by
    rw [String.toList_append, List.mem_append, not_or]
    exact ⟨by decide, (h t ht).quote_not_mem⟩
  have hline := read_importLine_single .typescript (h t ht) ("./" ++ t)
  rwa [quotedPath_eq hquote] at hline

theorem read_indexItems {types : List String} (h : ∀ t ∈ types, IsWord t) :
    read (types.map fun t => .inner (t ++ ",")) = some (types.map .item) :=
  read_map fun t ht => Line.read_of_spells
    ((Spells.word (h t ht)).before (by decide : IsMark "," [.mark ','])) rfl

theorem read_indexFileLines (lang : Language) {types : List String} (h : ∀ t ∈ types, IsWord t) :
    read (indexFileLines lang types) = some (indexFileStatements types) := by
  have himport := read_importLine_single lang (by decide : IsWord "Resolvers") placeholder
  rw [← typeImport_eq, quotedPath_placeholder] at himport
  have hopen : (Line.top "export const resolvers: Resolvers = \x7b").read =
      some [.constant "resolvers" [.word "Resolvers", .mark '=', .mark '{']] := by decide +kernel
  have hclose : (Line.top "\x7d").read = some [.closes] := by decide
  have hfront := read_append (read_append (read_append (read_front lang)
    ((read_singleton _).trans himport)) (read_indexImports h)) read_blank
  have hall := (read_append (read_append hfront (read_cons hopen (read_indexItems h)))
    (read_cons hclose read_blank))
  rw [List.nil_append, List.append_nil] at hall
  exact hall

end ResolverKit.Code
