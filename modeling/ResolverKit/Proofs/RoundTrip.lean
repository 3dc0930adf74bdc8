import ResolverKit.Code.Generation
import ResolverKit.Proofs.Loader
import ResolverKit.Proofs.Rereading

/-!
# Documents read again from their text

The definitions of a schema file and of all that it imports go through a text: they are printed one
after the other, and the text is parsed.  Nothing gets lost on that way.

    parse (print d) = .ok d                                                       (parse_print)
    load t path = .ok d → loadDocument t path = .ok d                    (loadDocument_eq_load)
-/

namespace ResolverKit.Sdl

open Reader

/-! ## Documents -/

/-- The definition is read again from its print, in whatever document it stands. -/
def Definition.IsRereadable (x : Definition) : Prop :=
  Rereads definition Definition.lexemes AtDefinition x

theorem yields_rereadable :
    Yields (fun d => ∀ x ∈ d, Schema.executableLabel? x = none → x.IsRereadable) document := by
  have hrest : Yields (fun d => ∀ x ∈ d, Schema.executableLabel? x = none → x.IsRereadable)
      definitionsFrom := by
    intro ts d rest hts hread
    fun_induction definitionsFrom ts generalizing d rest with
    | case1 => cases hread
    | case2 ts rest' hpeek =>
      cases hread
      exact ⟨by simp, (yields_peek ts _ _ hts hpeek).2⟩
    | case3 => cases hread
    | case4 => cases hread
    | case5 ts _ _ _ x rest' hx _ ds rest'' hds ih =>
      cases hread
      obtain ⟨hx, hrest'⟩ := rereads_definition ts x rest' hts hx
      obtain ⟨hd, hrest⟩ := ih ds rest'' (hrest'.sound hts) hds
      exact ⟨forall_cons hx hd, hrest'.trans hrest⟩
    | case6 ts _ _ _ x rest' hx =>
      cases hread
      obtain ⟨hx, hrest⟩ := rereads_definition ts x rest' hts hx
      exact ⟨forall_cons hx (by simp), hrest⟩
  exact .bind rereads_definition fun x hx => .bind hrest fun d hd => .pure (forall_cons hx hd)

theorem isRereadable_of_parse {text : String} {d : Document} (h : parse text = .ok d) :
    ∀ x ∈ d, Schema.executableLabel? x = none → x.IsRereadable := by
  unfold parse at h
  cases hread : Reader.document.run (tokens text) with
  | error e =>
    rw [hread] at h
    cases h
  | ok p =>
    obtain ⟨d', rest⟩ := p
    rw [hread] at h
    obtain rfl : d' = d := Except.ok.inj h
    exact (yields_rereadable _ _ _ (sound_tokensFrom _ _) hread).1

/-- A definition starts with a description or with a keyword, which is not that of interfaces. -/
theorem lexemes_eq_append {x : Definition} (hplain : Schema.executableLabel? x = none) :
    ∃ d k ls, x.lexemes = descriptionLexemes d ++ .name k :: ls ∧ k ≠ "implements" := by
  cases x with
  | operation => cases hplain
  | fragment => cases hplain
  | schema d => exact ⟨d, _, _, rfl, by decide⟩
  | extendSchema => exact ⟨none, _, _, rfl, by decide⟩
  | type d name ds shape =>
    refine ⟨d, _, _, rfl, ?_⟩
    cases shape.kind <;> decide
  | extendType => exact ⟨none, _, _, rfl, by decide⟩
  | directive d => exact ⟨d, _, _, rfl, by decide⟩
  | extendDirective => exact ⟨none, _, _, rfl, by decide⟩

theorem atDefinition_append {x : Definition} (hplain : Schema.executableLabel? x = none)
    (R : List Lexeme) : AtDefinition (x.lexemes ++ R) := by
  obtain ⟨d, k, ls, hlexemes, hk⟩ := lexemes_eq_append hplain
  rw [hlexemes]
  cases d with
  | none => exact ⟨by simp [descriptionLexemes], by simpa [descriptionLexemes] using hk⟩
  | some lit => exact ⟨by simp [descriptionLexemes], by simp [descriptionLexemes]⟩

/-- The text does not end where a definition starts. -/
theorem exists_head_lexemes {x : Definition} (hplain : Schema.executableLabel? x = none) :
    ∃ l ls, x.lexemes = l :: ls ∧ l ≠ .endOfText := by
  obtain ⟨d, k, ls, hlexemes, -⟩ := lexemes_eq_append hplain
  cases d with
  | none => exact ⟨_, _, hlexemes, fun h => nomatch h⟩
  | some lit => exact ⟨_, _, hlexemes, fun h => nomatch h⟩

theorem lexemes_cons (x : Definition) (d : Document) : Document.lexemes (x :: d) ++ [.endOfText] =
    x.lexemes ++ (Document.lexemes d ++ [.endOfText]) := by
  simp [Document.lexemes]

theorem atDefinition_lexemes {d : Document}
    (hplain : ∀ x ∈ d, Schema.executableLabel? x = none) :
    AtDefinition (Document.lexemes d ++ [.endOfText]) := by
  cases d with
  | nil => exact ⟨by simp [Document.lexemes], by simp [Document.lexemes]⟩
  | cons x d =>
    rw [lexemes_cons]
    exact atDefinition_append (hplain x (.head _)) _

/-- Further definitions are read up to the end of the text. -/
theorem runs_definitionsFrom {d : Document} (hplain : ∀ x ∈ d, Schema.executableLabel? x = none)
    (h : ∀ x ∈ d, x.IsRereadable) :
    Runs definitionsFrom (Document.lexemes d ++ [.endOfText]) d [.endOfText] := by
  intro ts hts
  induction d generalizing ts with
  | nil =>
    obtain ⟨ts', hts', hpeek⟩ := runs_peek ts hts
    refine ⟨ts', hts', ?_⟩
    rw [definitionsFrom, hpeek]
  | cons x d ih =>
    have hx := hplain x (.head _)
    have hfollow := atDefinition_lexemes fun y hy => hplain y (.tail _ hy)
    rw [lexemes_cons] at hts
    obtain ⟨ts', hts', hread⟩ := (h x (.head _)).runs _ hfollow ts hts
    obtain ⟨ts'', hts'', hrest⟩ := ih (fun y hy => hplain y (.tail _ hy))
      (fun y hy => h y (.tail _ hy)) ts' hts'
    obtain ⟨l, ls, hl, hend⟩ := exists_head_lexemes hx
    have hhead : (x.lexemes ++ (Document.lexemes d ++ [Lexeme.endOfText])).head? = some l := by
      rw [hl]
      rfl
    obtain ⟨front, -, hpeek⟩ := runs_peek_of_head? hhead ts hts
    have hlt : ts'.length < ts.length := by
      rw [← hts'.length_eq, ← hts.length_eq, hl]
      simp only [List.length_append, List.length_cons]
      omega
    refine ⟨ts'', hts'', ?_⟩
    rw [definitionsFrom, hpeek]
    split
    · next heq => cases heq
    · next heq =>
      cases heq
      exact absurd rfl hend
    · simp only [hread, if_pos hlt, hrest]

/-- A document of the type system whose definitions come from texts is read again from its own
text. -/
theorem parse_print {d : Document} (hne : d ≠ [])
    (hplain : ∀ x ∈ d, Schema.executableLabel? x = none) (h : ∀ x ∈ d, x.IsRereadable) :
    parse (Document.print d) = .ok d := by
  obtain ⟨x, d, rfl⟩ := List.exists_cons_of_ne_nil hne
  have hrest := runs_definitionsFrom (fun y hy => hplain y (.tail _ hy))
    fun y hy => h y (.tail _ hy)
  have hread : Runs document (Document.lexemes (x :: d) ++ [.endOfText]) (x :: d) [.endOfText] := by
    rw [lexemes_cons]
    exact .bind ((h x (.head _)).runs _ (atDefinition_lexemes fun y hy => hplain y (.tail _ hy)))
      (.bind hrest .pure)
  obtain ⟨ts, -, hok⟩ := hread _
    (Document.placed_tokens hplain fun y hy => (h y hy).sound)
  show (document (tokens (Document.print (x :: d)))).map (·.1) = .ok (x :: d)
  rw [hok]
  rfl

end ResolverKit.Sdl

namespace ResolverKit.Import

open Sdl (Document)

/-- The definitions of a schema file and of all it imports come from the texts of files. -/
theorem isRereadable_of_load {t : FileTree} {path : String} {d : Document}
    (h : load t path = .ok d) :
    ∀ x ∈ d, Schema.executableLabel? x = none → x.IsRereadable := by
  obtain ⟨ls, hs, rfl⟩ := load_eq_ok_iff.1 h
  have hend := search_finishes t path
  rw [hs] at hend
  obtain ⟨hdone⟩ := hend
  intro x hx
  obtain ⟨l, hl, rfl⟩ := List.mem_map.1 hx
  obtain ⟨r, -, d, ⟨text, -, hparse⟩, -, hget, -⟩ := (hdone.selected l).1 hl
  unfold parseText at hparse
  split at hparse
  · cases hparse
    cases hget
  · split at hparse
    · next d' hd' =>
      cases hparse
      exact Sdl.isRereadable_of_parse hd' _ (List.mem_of_getElem? hget)
    · cases hparse

theorem loadDocument_eq_load {t : FileTree} {path : String} {d : Document}
    (h : load t path = .ok d) (hne : d ≠ [])
    (hplain : ∀ x ∈ d, Schema.executableLabel? x = none) : loadDocument t path = .ok d := by
  have hparse := Sdl.parse_print hne hplain fun x hx => isRereadable_of_load h x hx (hplain x hx)
  simp only [loadDocument, loadText, h, Except.map, bind, Except.bind, hparse]
  rfl

/-- Nothing gets lost when the imports of a schema are inlined through a text: where a schema file
loads, with at least one definition and nothing but the type system, the text that is printed is
parsed as the document that was loaded, and the same is generated for both, or the same error
comes. -/
theorem generate_inlined {t : FileTree} {path : String} {d : Document} (h : load t path = .ok d)
    (hne : d ≠ []) (hplain : ∀ x ∈ d, Schema.executableLabel? x = none) :
    loadDocument t path = .ok d ∧ ∀ d', loadDocument t path = .ok d' →
      ∀ (bindings : Model.Bindings) (layout : Option Code.LayoutOptions) (language : String),
        Code.generate d' bindings layout language = Code.generate d bindings layout language := by
  have hload := loadDocument_eq_load h hne hplain
  refine ⟨hload, fun d' hd' bindings layout language => ?_⟩
  obtain rfl : d = d' := Except.ok.inj (hload.symm.trans hd')
  rfl

/-- A schema in two files; the second holds descriptions of both kinds, a directive and a default
value. -/
def importingTree : FileTree :=
  ⟨.dir [("a", .file (.text "# import User from 'b'\ntype Query \x7b u: User! \x7d")),
    ("b", .file (.text "\"\"\"\n  Who\n   \\\"\"\"reads\"\n\"\"\"\ntype User @k(of: [-1.5e3]) \x7b
  \"\\u0041 \\\"b\\\"\" name(n: [Int!]! = [1 2]): ID \x7d"))], []⟩

/-- What a file asks for, the names that it defines, and whether all its definitions belong to the
type system. -/
def contents (t : FileTree) (p : String) : Option (List Request × List String × Bool) :=
  (readText t p).toOption.bind fun text => (parseText p text).toOption.map fun d =>
    ((statements text).map fun s => (Link.ofStatement p s).request, definedNames d,
      d.all fun x => Schema.executableLabel? x = none)

theorem exists_of_contents {t : FileTree} {p : String} {rs : List Request} {names : List String}
    (h : contents t p = some (rs, names, true)) :
    ∃ text d, readText t p = .ok text ∧ parseText p text = .ok d ∧
      (∀ s ∈ statements text, (Link.ofStatement p s).request ∈ rs) ∧ definedNames d = names ∧
      ∀ x ∈ d, Schema.executableLabel? x = none := by
  unfold contents at h
  cases hread : readText t p with
  | error e =>
    rw [hread] at h
    cases h
  | ok text =>
    cases hparse : parseText p text with
    | error e =>
      simp only [hread, Except.toOption, Option.bind_some, hparse] at h
      cases h
    | ok d =>
      simp only [hread, Except.toOption, Option.bind_some, hparse, Option.map_some,
        Option.some.injEq, Prod.mk.injEq] at h
      obtain ⟨rfl, rfl, hplain⟩ := h
      exact ⟨text, d, rfl, hparse, fun s hs => List.mem_map_of_mem hs, rfl, by simpa using hplain⟩

/-- Both files load, and the text of the whole schema is read as what was loaded. -/
theorem generate_inlined_importingTree :
    ∃ d, load importingTree "a" = .ok d ∧ d ≠ [] ∧
      (∀ x ∈ d, Schema.executableLabel? x = none) ∧ loadDocument importingTree "a" = .ok d ∧
      ∀ d', loadDocument importingTree "a" = .ok d' →
        ∀ (bindings : Model.Bindings) (layout : Option Code.LayoutOptions) (language : String),
          Code.generate d' bindings layout language = Code.generate d bindings layout language := by
  obtain ⟨texta, da, hreada, hparsea, hasksa, hnamesa, hplaina⟩ :=
    exists_of_contents (by decide +kernel :
      contents importingTree "/a" = some ([⟨"/b", some ["User"]⟩], ["Query"], true))
  obtain ⟨textb, db, hreadb, hparseb, hasksb, hnamesb, hplainb⟩ :=
    exists_of_contents (by decide +kernel :
      contents importingTree "/b" = some ([], ["User"], true))
  have hroot : Request.root importingTree "a" = ⟨"/a", none⟩ := by decide
  have hreach : ∀ r, Reachable importingTree "a" r →
      r = ⟨"/a", none⟩ ∨ r = ⟨"/b", some ["User"]⟩ := by
    intro r hr
    induction hr with
    | root => exact .inl hroot
    | @imported r text s _ htext hs ih =>
      rcases ih with rfl | rfl
      · obtain rfl := Except.ok.inj (hreada.symm.trans htext)
        exact .inr (List.mem_singleton.1 (hasksa s hs))
      · obtain rfl := Except.ok.inj (hreadb.symm.trans htext)
        cases hasksb s hs
  have hanswerable : ∀ r, Reachable importingTree "a" r → Answerable importingTree r := by
    intro r hr
    rcases hreach r hr with rfl | rfl
    · exact ⟨isFile_of_readText hreada, da, ⟨texta, hreada, hparsea⟩, fun _ h => nomatch h⟩
    · refine ⟨isFile_of_readText hreadb, db, ⟨textb, hreadb, hparseb⟩, fun names h => ?_⟩
      cases h
      simp [hnamesb]
  -- the search ends, with what the two files hold
  obtain ⟨ls, hsearch, opened, hdone⟩ : ∃ ls, search importingTree "a" = .ok ls ∧
      ∃ opened, Progress importingTree "a" opened ls [] := by
    have hend := search_finishes importingTree "a"
    generalize search importingTree "a" = res at hend
    cases hend with
    | done hdone => exact ⟨_, rfl, _, hdone⟩
    | stuck hr hnot => exact absurd (hanswerable _ hr) hnot
  have hload := load_eq_ok_iff.2 ⟨ls, hsearch, rfl⟩
  have hne : ls.map (·.definition) ≠ [] := by
    obtain ⟨x, d, rfl⟩ : ∃ x d, da = x :: d :=
      List.exists_cons_of_ne_nil (by rintro rfl; cases hnamesa)
    have hopened : (⟨"/a", none⟩ : Request) ∈ opened := hroot ▸ hdone.mem_opened .root
    have hfirst : ⟨"/a", 0, x⟩ ∈ ls :=
      (hdone.selected _).2 ⟨_, hopened, _, ⟨texta, hreada, hparsea⟩, rfl, rfl, fun _ h => nomatch h⟩
    exact mt List.map_eq_nil_iff.1 (List.ne_nil_of_mem hfirst)
  have hplain : ∀ x ∈ ls.map (·.definition), Schema.executableLabel? x = none := by
    rw [List.forall_mem_map]
    intro l hl
    obtain ⟨r, hr, d, hd, -, hget, -⟩ := (hdone.selected l).1 hl
    rcases hreach r (hdone.answered r hr).1 with rfl | rfl
    · obtain rfl := hd.unique ⟨texta, hreada, hparsea⟩
      exact hplaina _ (List.mem_of_getElem? hget)
    · obtain rfl := hd.unique ⟨textb, hreadb, hparseb⟩
      exact hplainb _ (List.mem_of_getElem? hget)
  exact ⟨_, hload, hne, hplain, generate_inlined hload hne hplain⟩

end ResolverKit.Import
