import ResolverKit.Proofs.NameClasses
import ResolverKit.Proofs.Outline

/-!
# Reading declarations

What the parts of a types file say that are no resolvers: types, imports, exports, choices and
records.  Each part is read back from its lines, in either language, if its names are words.

    IsWord t.base → Spells (t.text lang) (t.tokens lang)                      (TypeExpr.spells)
    r.HasNames IsWord → read (r.lines lang) = some (recordStatements lang r.name r.members)
                                                                        (RecordType.read_lines)
-/

namespace ResolverKit.Code

/-! ## Types -/

def Language.nullableTokens : Language → List Token → List Token
  | .typescript, ts => ts ++ [.mark '|', .word "null"]
  | .flow, ts => .mark '?' :: ts

/-- A type that is nullable unless it is required. -/
def Language.optionalTokens (lang : Language) (required : Bool) (ts : List Token) : List Token :=
  if required then ts else lang.nullableTokens ts

def TypeExpr.tokens (lang : Language) (t : TypeExpr) : List Token :=
  lang.optionalTokens t.required <|
    match t.multiplicity with
    | .one => [.word t.base]
    | .many itemRequired =>
      [.word "Array", .mark '<'] ++ lang.optionalTokens itemRequired [.word t.base] ++ [.mark '>']

theorem spells_nullable (lang : Language) {s : String} {ts : List Token} (h : Spells s ts) :
    Spells (lang.nullable s) (lang.nullableTokens ts) := by
  cases lang with
  | typescript =>
    have hsplit : s ++ " | null" = s ++ " | " ++ "null" := by rw [String.append_assoc]; rfl
    have hnull : Spells "null" [.word "null"] := .word (by decide)
    have hjoin := h.join (by decide : IsMark " | " [.mark '|']) hnull
    rw [← hsplit, List.append_assoc] at hjoin
    exact hjoin
  | flow => exact .after (by decide : IsClosed "?" [.mark '?']) h

theorem spells_optionally (lang : Language) (required : Bool) {s : String} {ts : List Token}
    (h : Spells s ts) : Spells (lang.optionally required s) (lang.optionalTokens required ts) := by
  unfold Language.optionally Language.optionalTokens
  split
  · exact h
  · exact spells_nullable lang h

theorem TypeExpr.spells (lang : Language) {t : TypeExpr} (h : IsWord t.base) :
    Spells (t.text lang) (t.tokens lang) := by
  unfold TypeExpr.text Language.typeText TypeExpr.tokens
  apply spells_optionally
  cases t.multiplicity with
  | one => exact .word h
  | many itemRequired =>
    have hitem := spells_optionally lang itemRequired (Spells.word h)
    have harray : IsClosed "Array<" [.word "Array", .mark '<'] := by decide
    exact (Spells.after harray hitem).before (by decide : IsMark ">" [.mark '>'])

/-- What ends a member of a block. -/
def Language.memberEnd : Language → String
  | .typescript => ""
  | .flow => ","

def Language.endTokens : Language → List Token
  | .typescript => []
  | .flow => [.mark ',']

theorem Spells.memberEnd {s : String} {ts : List Token} (h : Spells s ts) (lang : Language) :
    Spells (s ++ lang.memberEnd) (ts ++ lang.endTokens) := by
  cases lang with
  | typescript => simpa [Language.memberEnd, Language.endTokens] using h
  | flow => exact h.before (by decide : IsMark "," [.mark ','])

theorem TypeExpr.head?_tokens_ne (lang : Language) (t : TypeExpr) (r : List Token) :
    (t.tokens lang ++ r).head? ≠ some (.mark '(') ∧
      (t.tokens lang ++ r).head? ≠ some (.mark '{') := by
  obtain ⟨base, multiplicity, required⟩ := t
  unfold TypeExpr.tokens Language.optionalTokens
  cases lang <;> cases multiplicity <;> cases required <;>
    simp [Language.nullableTokens]

/-! ## Names in a row -/

theorem spells_intercalate {α : Type} {sep : String} {us : List Token} {xs : List α}
    {text : α → String} {ts : α → List Token} (hsep : IsMark sep us)
    (h : ∀ x ∈ xs, Spells (text x) (ts x)) :
    Spells (sep.intercalate (xs.map text)) (us.intercalate (xs.map ts)) := by
  induction xs with
  | nil => exact .closed (by decide : IsClosed "" [])
  | cons x r ih =>
    have hx := h x (by simp)
    cases r with
    | nil => simpa using hx
    | cons y r =>
      have hr := ih fun z hz => h z (by simp [hz])
      simp only [List.map_cons] at hr ⊢
      rw [String.intercalate_cons_cons, List.intercalate_cons_cons]
      exact hx.join hsep hr

/-- The tokens of a name with its local name. -/
def itemTokens (item : String × String) : List Token :=
  if item.1 = item.2 then [.word item.1] else [.word item.1, .word "as", .word item.2]

theorem spells_importItem {item : String × String} (h1 : IsWord item.1) (h2 : IsWord item.2) :
    Spells (importItem item) (itemTokens item) := by
  unfold importItem itemTokens
  split
  · exact .word h1
  · exact (Spells.word h1).join (by decide : IsMark " as " [.word "as"]) (.word h2)

def bracedTokens (items : List (List Token)) : List Token :=
  .mark '{' :: [.mark ','].intercalate items ++ [.mark '}']

theorem bracedItems_of_tokens (items : List (String × String)) (r : List Token) :
    bracedItems ([.mark ','].intercalate (items.map itemTokens) ++ .mark '}' :: r) = items := by
  have hcons : ∀ item : String × String, ∀ c r, bracedItems (itemTokens item ++ .mark c :: r) =
      item :: bracedItems (.mark c :: r) := by
    intro ⟨n, l⟩ c r
    unfold itemTokens
    split
    · next h =>
      obtain rfl : n = l := h
      rfl
    · rfl
  induction items with
  | nil => rfl
  | cons item items ih =>
    cases items with
    | nil =>
      have hlast : bracedItems (itemTokens item ++ .mark '}' :: r) = [item] := hcons item '}' r
      simpa using hlast
    | cons item' items =>
      have hnext := hcons item ',' ([.mark ','].intercalate ((item' :: items).map itemTokens) ++
        .mark '}' :: r)
      have hcomma : ∀ ts, bracedItems (.mark ',' :: ts) = bracedItems ts := fun _ => rfl
      rw [hcomma, ih] at hnext
      simpa [List.intercalate_cons_cons] using hnext

theorem spells_bracedNames {α : Type} {items : List α} {text : α → String}
    {ts : α → List Token} (h : ∀ x ∈ items, Spells (text x) (ts x)) :
    Spells (bracedNames (items.map text)) (bracedTokens (items.map ts)) := by
  have hrow := spells_intercalate (by decide : IsMark ", " [.mark ',']) h
  have hopen : IsClosed "\x7b " [.mark '{'] := by decide
  exact (Spells.after hopen hrow).before (by decide : IsMark " \x7d" [.mark '}'])

/-! ## Imports and exports -/

/-- The path that is read back from an import. -/
def quotedPath (path : String) : String := firstQuoted (tokens ("'" ++ path ++ "'"))

theorem firstQuoted_append_of_words {ts r : List Token} (h : ∀ t ∈ ts, ∀ s, t ≠ .quoted s) :
    firstQuoted (ts ++ r) = firstQuoted r := by
  induction ts with
  | nil => rfl
  | cons t ts ih =>
    have hts := ih fun x hx => h x (by simp [hx])
    cases t with
    | word s => simpa [firstQuoted] using hts
    | mark c => simpa [firstQuoted] using hts
    | quoted s => exact absurd rfl (h _ (by simp) s)

theorem ne_quoted_of_mem_itemTokens {item : String × String} {t : Token}
    (h : t ∈ itemTokens item) (s : String) : t ≠ .quoted s := by
  rintro rfl
  unfold itemTokens at h
  split at h <;> simp at h

theorem mem_intercalate {α : Type} {sep : List α} {xs : List (List α)} {x : α}
    (h : x ∈ sep.intercalate xs) : x ∈ sep ∨ ∃ ys ∈ xs, x ∈ ys := by
  induction xs with
  | nil => simp at h
  | cons ys r ih =>
    cases r with
    | nil => exact .inr ⟨ys, by simp, by simpa using h⟩
    | cons zs r =>
      rw [List.intercalate_cons_cons, List.mem_append, List.mem_append] at h
      rcases h with (h | h) | h
      · exact .inr ⟨ys, by simp, h⟩
      · exact .inl h
      · rcases ih h with hsep | ⟨ws, hws, hx⟩
        · exact .inl hsep
        · exact .inr ⟨ws, by simp [hws], hx⟩

def importTokens : Language → List Token
  | .typescript => [.word "import"]
  | .flow => [.word "import", .word "type"]

def importKeyword : Language → String
  | .typescript => "import"
  | .flow => "import type"

theorem isClosed_importKeyword (lang : Language) :
    IsClosed (importKeyword lang ++ " ") (importTokens lang) := by
  cases lang <;> decide

theorem read_importLine (lang : Language) {items : List (String × String)} (path : String)
    (h : ∀ i ∈ items, IsWord i.1 ∧ IsWord i.2) :
    (importLine (importKeyword lang) (items.map importItem) path).read =
      some [.imports items (quotedPath path)] := by
  have hbraced := spells_bracedNames fun i hi => spells_importItem (h i hi).1 (h i hi).2
  have hfrom : IsMark " from " [.word "from"] := by decide
  have hfront := (Spells.after (isClosed_importKeyword lang) hbraced).before hfrom
  have htext : (importLine (importKeyword lang) (items.map importItem) path).text =
      importKeyword lang ++ " " ++ bracedNames (items.map importItem) ++ " from " ++
        ("'" ++ path ++ "'") := by
    have hsplit : (" from '" : String) = " from " ++ "'" := rfl
    simp only [importLine, Line.top, hsplit, String.append_assoc]
  have hquote : StartsOutside ("'" ++ path ++ "'") := by
    intro c hc
    obtain rfl : '\'' = c := by simpa using hc
    decide
  have htokens := hfront _ hquote
  rw [← htext] at htokens
  refine Line.read_of_tokens htokens ?_
  have hitems := bracedItems_of_tokens items (.word "from" :: tokens ("'" ++ path ++ "'"))
  have hpath : firstQuoted ([.mark ','].intercalate (items.map itemTokens) ++ .mark '}' ::
      .word "from" :: tokens ("'" ++ path ++ "'")) = quotedPath path := by
    rw [firstQuoted_append_of_words]
    · rfl
    · intro t ht s
      rcases mem_intercalate ht with hsep | ⟨ts, hts, ht⟩
      · obtain rfl : t = .mark ',' := by simpa using hsep
        simp
      · obtain ⟨i, -, rfl⟩ := List.mem_map.1 hts
        exact ne_quoted_of_mem_itemTokens ht s
  cases lang <;>
    simp [importTokens, bracedTokens, hitems, hpath]

theorem read_reexportLine {names : List String} (h : ∀ n ∈ names, IsWord n) :
    (Line.top ("export type " ++ bracedNames names)).read = some [.reexports names] := by
  have hbraced := @spells_bracedNames _ names id (fun n => [.word n]) fun n hn =>
    Spells.word (h n hn)
  rw [List.map_id] at hbraced
  have hexport : IsClosed "export type " [.word "export", .word "type"] := by decide
  refine Line.read_of_spells (Spells.after hexport hbraced) ?_
  have hitems := bracedItems_of_tokens (names.map fun n => (n, n)) []
  have hself : (names.map fun n => (n, n)).map itemTokens = names.map fun n => [.word n] := by
    simp [itemTokens]
  rw [hself] at hitems
  simp [bracedTokens, hitems, Function.comp_def]

/-! ## Declarations -/

theorem IsWord.quote_not_mem {v : String} (h : IsWord v) : '\'' ∉ v.toList :=
  fun hv => absurd (h.2 _ hv) (by decide)

theorem spells_quoted {v : String} (h : '\'' ∉ v.toList) :
    Spells ("'" ++ v ++ "'") [.quoted v] := by
  have hchars : ∀ (cs read : List Char), '\'' ∉ cs →
      Scan.run (.quoted read) cs = ([], .quoted (cs.reverse ++ read)) := by
    intro cs
    induction cs with
    | nil => intro read _; rfl
    | cons c r ih =>
      intro read hcs
      rw [List.mem_cons, not_or] at hcs
      have hr := ih (c :: read) hcs.2
      simp [Scan.run, Scan.step, Ne.symm hcs.1, hr]
  refine .closed ?_
  have htext : ("'" ++ v ++ "'").toList = ['\''] ++ v.toList ++ ['\''] := by simp
  have hopen : Scan.run (.word []) ['\''] = ([], .quoted []) := by decide
  have hclose : ∀ read, Scan.run (.quoted read) ['\''] =
      ([.quoted (String.ofList read.reverse)], .word []) := fun _ => rfl
  unfold IsClosed
  rw [htext, Scan.run_append, Scan.run_append, hopen]
  simp [hchars v.toList [] h, hclose]

theorem quotedPath_eq {path : String} (h : '\'' ∉ path.toList) : quotedPath path = path := by
  rw [quotedPath, (spells_quoted h).tokens]
  rfl

/-- An option of a choice is a word, or a word between quotes. -/
theorem tokens_of_option {o : String} (h : IsWord o ∨ ∃ v, IsWord v ∧ o = "'" ++ v ++ "'") :
    Spells o (tokens o) ∧ (tokens o = [.word o] ∨ ∃ v, tokens o = [.quoted v]) := by
  rcases h with h | ⟨v, h, rfl⟩
  · have hs := Spells.word h
    rw [hs.tokens]
    exact ⟨hs, .inl rfl⟩
  · have hs := spells_quoted h.quote_not_mem
    rw [hs.tokens]
    exact ⟨hs, .inr ⟨v, rfl⟩⟩

def Choice.tokens (lang : Language) (c : Choice) : List Token :=
  if c.options.isEmpty then [.word lang.emptyType]
  else [.mark '|'].intercalate (c.options.map Code.tokens)

theorem head?_of_isOpening {ts : List Token} (h : isOpening ts = true) :
    ts.head? = some (.mark '{') := by
  unfold isOpening at h
  split at h <;> simp_all

theorem Choice.head?_tokens_ne (lang : Language) {c : Choice} (h : c.HasNames IsWord) :
    (c.tokens lang).head? ≠ some (.mark '{') := by
  obtain ⟨name, doc, options⟩ := c
  unfold Choice.tokens
  cases options with
  | nil => simp
  | cons o os =>
    obtain ⟨-, ho⟩ := tokens_of_option (h.options o (by simp))
    cases os with
    | nil => rcases ho with ho | ⟨v, ho⟩ <;> simp [ho]
    | cons o' os => rcases ho with ho | ⟨v, ho⟩ <;> simp [ho, List.intercalate_cons_cons]

theorem Choice.spells (lang : Language) {c : Choice} (h : c.HasNames IsWord) :
    Spells (if c.options.isEmpty then lang.emptyType else " | ".intercalate c.options)
      (c.tokens lang) := by
  unfold Choice.tokens
  split
  · exact .word (by cases lang <;> decide)
  · have hbar : IsMark " | " [.mark '|'] := by decide
    have hrow := @spells_intercalate _ _ _ c.options id Code.tokens hbar fun o ho =>
      (tokens_of_option (h.options o ho)).1
    rwa [List.map_id] at hrow

theorem Choice.read_lines (lang : Language) {c : Choice} (h : c.HasNames IsWord) :
    read (c.lines lang) = some [.alias c.name (c.tokens lang)] := by
  have hfront : IsClosed "export type " [.word "export", .word "type"] := by decide
  have hequals : IsMark " = " [.mark '='] := by decide
  have htext := (Spells.after hfront (.word h.name)).join hequals (Choice.spells lang h)
  have hopening : isOpening (c.tokens lang) = false := by
    rw [Bool.eq_false_iff]
    exact fun ho => Choice.head?_tokens_ne lang h (head?_of_isOpening ho)
  have hline : (Line.top ("export type " ++ c.name ++ " = " ++
      if c.options.isEmpty then lang.emptyType else " | ".intercalate c.options)).read =
        some [.alias c.name (c.tokens lang)] :=
    Line.read_of_spells htext (by simp [hopening])
  exact read_silent_append (read_docLines c.doc) (read_cons hline read_blank)

/-! ## Records -/

def Member.statement (lang : Language) (m : Member) : Statement :=
  .entry m.name m.optional (m.type.tokens lang ++ lang.endTokens)

theorem keyed_of_head? {name : String} {optional : Bool} {ts : List Token}
    (h : ts.head? ≠ some (.mark '(')) : keyed name optional ts = .entry name optional ts := by
  unfold keyed
  split
  · simp at h
  · rfl

theorem Member.spells (lang : Language) {m : Member} (h : m.HasNames IsWord) :
    Spells (m.text lang ++ lang.memberEnd)
      ([.word m.name] ++ (if m.optional then [.mark '?'] else []) ++ [.mark ':'] ++
        m.type.tokens lang ++ lang.endTokens) := by
  have hname : Spells (m.name ++ if m.optional then "?" else "")
      ([.word m.name] ++ if m.optional then [.mark '?'] else []) := by
    cases m.optional with
    | true => exact (Spells.word h.name).before (by decide : IsMark "?" [.mark '?'])
    | false => simpa using Spells.word h.name
  have hcolon : IsMark ": " [.mark ':'] := by decide
  exact (hname.join hcolon (TypeExpr.spells lang h.type)).memberEnd lang

theorem Member.read_line (lang : Language) {m : Member} (h : m.HasNames IsWord) (indent : Nat) :
    (Line.mk indent (m.text lang ++ lang.memberEnd)).read = some [m.statement lang] := by
  refine Line.read_of_spells (Member.spells lang h) ?_
  have hkeyed : keyed m.name m.optional (m.type.tokens lang ++ lang.endTokens) =
      m.statement lang := keyed_of_head? (TypeExpr.head?_tokens_ne lang m.type lang.endTokens).1
  rw [← hkeyed]
  cases m.optional <;> simp

def Language.recordKeyword : Language → String
  | .typescript => "interface"
  | .flow => "type"

def recordStatements (lang : Language) (name : String) (members : List Member) : List Statement :=
  .opens lang.recordKeyword name :: members.map (Member.statement lang) ++ [.closes]

theorem Line.read_opens {front keyword name : String}
    (hfront : IsClosed front [.word "export", .word keyword]) (h : IsWord name) :
    (Line.top (front ++ name ++ " \x7b")).read = some [.opens keyword name] := by
  have htext := (Spells.after hfront (.word h)).before (by decide : IsMark " \x7b" [.mark '{'])
  exact read_of_spells htext (statement?_opens keyword name)

theorem Line.read_type {name l : String} {ts : List Token} (h : IsWord name)
    (hl : IsMark l (.mark '=' :: ts)) (hts : isOpening ts = true) :
    (Line.top ("export type " ++ name ++ l)).read = some [.opens "type" name] := by
  have hfront : IsClosed "export type " [.word "export", .word "type"] := by decide
  have htext := (Spells.after hfront (.word h)).before hl
  exact read_of_spells htext (by simp [hts])

theorem TypeScript.read_interfaceLines {name : String} {members : List Member} (h : IsWord name)
    (hm : ∀ m ∈ members, m.HasNames IsWord) :
    read (interfaceLines name members) = some (recordStatements .typescript name members) := by
  have hbody : read (members.flatMap memberLines) =
      some (members.flatMap fun m => [m.statement .typescript]) := by
    refine read_flatMap fun m hmem => ?_
    have hline := Member.read_line .typescript (hm m hmem) 0
    rw [Language.memberEnd, String.append_empty] at hline
    rw [memberLines, read_map_shift]
    exact read_silent_append (read_docLines m.doc) ((read_singleton _).trans hline)
  rw [← List.map_eq_flatMap] at hbody
  have hfront : IsClosed "export interface " [.word "export", .word "interface"] := by decide
  exact read_block (Line.read_opens hfront h) hbody rfl

theorem Flow.read_memberLines {members : List Member} (hm : ∀ m ∈ members, m.HasNames IsWord) :
    read (memberLines members) = some (members.map (Member.statement .flow)) :=
  read_map fun m hmem => Member.read_line .flow (hm m hmem) 1

theorem Flow.read_exactLines {name : String} {ls : List Line} {ss : List Statement}
    (h : IsWord name) (hls : read ls = some ss) :
    read (exactLines name ls) = some (.opens "type" name :: ss ++ [.closes]) := by
  have hopen : IsMark " = \x7b|" [.mark '=', .mark '{', .mark '|'] := by decide
  have hclose : (Line.top "|\x7d").read = some [.closes] := rfl
  exact read_block_blank (Line.read_type h hopen rfl) hls hclose

theorem Flow.read_openLines {name : String} {ls : List Line} {ss : List Statement}
    (h : IsWord name) (hls : read ls = some ss) :
    read (openLines name ls) = some (.opens "type" name :: ss ++ [.closes]) := by
  have hopen : IsMark " = \x7b" [.mark '=', .mark '{'] := by decide
  have hclose : (Line.top "\x7d").read = some [.closes] := rfl
  exact read_block_blank (Line.read_type h hopen rfl) hls hclose

def RecordType.lines : Language → RecordType → List Line
  | .typescript, r => TypeScript.recordLines r
  | .flow, r => Flow.recordLines r

theorem RecordType.read_lines (lang : Language) {r : RecordType} (h : r.HasNames IsWord) :
    read (r.lines lang) = some (recordStatements lang r.name r.members) := by
  have hdoc := read_docLines r.doc
  cases lang with
  | typescript =>
    have hrecord := TypeScript.read_interfaceLines h.name h.members
    exact read_append_silent (read_silent_append hdoc hrecord) read_blank
  | flow =>
    have hmembers := Flow.read_memberLines h.members
    show read (Flow.recordLines r) = _
    unfold Flow.recordLines
    split
    · exact read_silent_append hdoc (Flow.read_openLines h.name hmembers)
    · exact read_silent_append hdoc (Flow.read_exactLines h.name hmembers)

end ResolverKit.Code
