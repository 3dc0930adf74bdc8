import ResolverKit.Proofs.Tokens

/-!
# What generated code says

`read` takes lines of generated code for statements: imports, exports, the declarations that open a
block, the entries inside.  Every line that holds code has to be understood, else nothing is read.
`understood` passes over what is not understood, so it reads the same where `read` does:

    read ls = some ss → understood ls = ss                                     (understood_of_read)

`place` says in which blocks each statement stands.

What is generated is put together from parts that are read on their own (`read_append`), each of
which closes the blocks that it opens (`Closes`), so that a statement stands in the blocks of its
own part.
-/

namespace ResolverKit.Code

/-! ## Statements -/

/-- What a line says.  Imports have names and local names; `constant` is a constant of a type, whose
value is a block; `asks` is a resolver that only asks the parent for the field of its own name. -/
inductive Statement
  | imports (items : List (String × String)) (path : String)
  | reexports (names : List String)
  | alias (name : String) (type : List Token)
  | opens (keyword name : String)
  | constant (name : String) (type : List Token)
  | closes
  | entry (name : String) (optional : Bool) (type : List Token)
  | asks (name parent : String)
  | item (name : String)
  | throws
  deriving DecidableEq, Repr

/-- The names up to the closing brace, each with its local name. -/
def bracedItems : List Token → List (String × String)
  | .word n :: .word "as" :: .word l :: r => (n, l) :: bracedItems r
  | .word n :: r => (n, n) :: bracedItems r
  | .mark ',' :: r => bracedItems r
  | _ => []

def firstQuoted : List Token → String
  | [] => ""
  | .quoted s :: _ => s
  | _ :: r => firstQuoted r

/-- These tokens stand for the opening bracket of a block. -/
def isOpening : List Token → Bool
  | [.mark '{'] => true
  | [.mark '{', .mark '|'] => true
  | _ => false

/-- The entry `name` with what stands behind the colon. -/
def keyed (name : String) (optional : Bool) (ts : List Token) : Statement :=
  match ts with
  | [.mark '(', .word "parent", .mark ':', .word parent, .mark ')', .mark '=', .mark '>',
      .word "parent", .mark '.', .word field, .mark ','] =>
    if field = name then .asks name parent else .entry name optional ts
  | _ => .entry name optional ts

/-- The statement that these tokens make. -/
def statement? : List Token → Option Statement
  | [.mark '}'] => some .closes
  | [.mark '}', .mark ','] => some .closes
  | [.mark '|', .mark '}'] => some .closes
  | .word name :: .mark ':' :: r => some (keyed name false r)
  | .word name :: .mark '?' :: .mark ':' :: r => some (keyed name true r)
  | [.word name, .mark ','] => some (.item name)
  | .word "import" :: .mark '{' :: r => some (.imports (bracedItems r) (firstQuoted r))
  | .word "import" :: .word "type" :: .mark '{' :: r =>
    some (.imports (bracedItems r) (firstQuoted r))
  | .word "export" :: .word "type" :: .mark '{' :: r =>
    some (.reexports ((bracedItems r).map (·.1)))
  | .word "export" :: .word "type" :: .word name :: .mark '=' :: r =>
    some (if isOpening r then .opens "type" name else .alias name r)
  | .word "export" :: .word "const" :: .word name :: .mark ':' :: r => some (.constant name r)
  | [.word "export", .word "const", .word name, .mark '=', .mark '{'] => some (.opens "const" name)
  | [.word "export", .word keyword, .word name, .mark '{'] => some (.opens keyword name)
  | .word "throw" :: _ => some .throws
  | _ => none

/-- The tokens of the code in a line. -/
def Line.code (l : Line) : List Token := tokens (String.ofList (codeOf l.text.toList))

/-- The statement of a line, if it holds code; nothing if it is not understood. -/
def Line.read (l : Line) : Option (List Statement) :=
  match l.code with
  | [] => some []
  | ts => (statement? ts).map ([·])

/-- The statements of these lines. -/
def read : List Line → Option (List Statement)
  | [] => some []
  | l :: r => do return (← l.read) ++ (← read r)

/-- The statements of those lines that are understood. -/
def understood (ls : List Line) : List Statement := ls.filterMap fun l => statement? l.code

/-! ## Single statements -/

section

variable (keyword name : String) (r : List Token)

@[simp] theorem statement?_entry :
    statement? (.word name :: .mark ':' :: r) = some (keyed name false r) := rfl

@[simp] theorem statement?_optionalEntry :
    statement? (.word name :: .mark '?' :: .mark ':' :: r) = some (keyed name true r) := rfl

@[simp] theorem statement?_import :
    statement? (.word "import" :: .mark '{' :: r) =
      some (.imports (bracedItems r) (firstQuoted r)) := rfl

@[simp] theorem statement?_importType :
    statement? (.word "import" :: .word "type" :: .mark '{' :: r) =
      some (.imports (bracedItems r) (firstQuoted r)) := rfl

@[simp] theorem statement?_reexports :
    statement? (.word "export" :: .word "type" :: .mark '{' :: r) =
      some (.reexports ((bracedItems r).map (·.1))) := rfl

@[simp] theorem statement?_type :
    statement? (.word "export" :: .word "type" :: .word name :: .mark '=' :: r) =
      some (if isOpening r then .opens "type" name else .alias name r) := rfl

@[simp] theorem statement?_constant :
    statement? (.word "export" :: .word "const" :: .word name :: .mark ':' :: r) =
      some (.constant name r) := rfl

@[simp] theorem statement?_block :
    statement? [.word "export", .word "const", .word name, .mark '=', .mark '{'] =
      some (.opens "const" name) := rfl

@[simp] theorem statement?_opens :
    statement? [.word "export", .word keyword, .word name, .mark '{'] =
      some (.opens keyword name) := by
  simp [statement?]

end

/-! ## Reading lines -/

theorem read_append {a b : List Line} {xs ys : List Statement} (ha : read a = some xs)
    (hb : read b = some ys) : read (a ++ b) = some (xs ++ ys) := by
  induction a generalizing xs with
  | nil =>
    obtain rfl : [] = xs := by simpa [read] using ha
    exact hb
  | cons l r ih =>
    simp only [read, bind, Option.bind_eq_some_iff] at ha
    obtain ⟨us, hl, vs, hr, hxs⟩ := ha
    obtain rfl : us ++ vs = xs := by simpa using hxs
    simp [read, hl, ih hr]

/-- Lines that say nothing may stand in front. -/
theorem read_silent_append {a b : List Line} {xs : List Statement} (ha : read a = some [])
    (hb : read b = some xs) : read (a ++ b) = some xs := read_append ha hb

/-- Lines that say nothing may stand behind. -/
theorem read_append_silent {a b : List Line} {xs : List Statement} (ha : read a = some xs)
    (hb : read b = some []) : read (a ++ b) = some xs := by
  rw [read_append ha hb, List.append_nil]

theorem read_flatMap {α : Type} {xs : List α} {f : α → List Line} {g : α → List Statement}
    (h : ∀ x ∈ xs, read (f x) = some (g x)) : read (xs.flatMap f) = some (xs.flatMap g) := by
  induction xs with
  | nil => rfl
  | cons x r ih =>
    exact read_append (h x (by simp)) (ih fun y hy => h y (by simp [hy]))

theorem read_map {α : Type} {xs : List α} {f : α → Line} {g : α → Statement}
    (h : ∀ x ∈ xs, (f x).read = some [g x]) : read (xs.map f) = some (xs.map g) := by
  induction xs with
  | nil => rfl
  | cons x r ih =>
    have hr := ih fun y hy => h y (by simp [hy])
    simp [read, h x (by simp), hr]

@[simp] theorem Line.code_shift (l : Line) : l.shift.code = l.code := by
  unfold Line.shift
  split
  · rfl
  · rfl

@[simp] theorem Line.read_shift (l : Line) : l.shift.read = l.read := by
  rw [Line.read, Line.code_shift, Line.read]

@[simp] theorem read_map_shift (ls : List Line) : read (ls.map Line.shift) = read ls := by
  induction ls with
  | nil => rfl
  | cons l r ih => simp [read, ih]

theorem read_cons {l : Line} {r : List Line} {s : Statement} {ys : List Statement}
    (hl : l.read = some [s]) (hr : read r = some ys) : read (l :: r) = some (s :: ys) := by
  simp [read, hl, hr]

@[simp] theorem read_singleton (l : Line) : read [l] = l.read := by
  cases hl : l.read <;> simp [read, hl]

theorem read_blank : read [Line.blank] = some [] := rfl

theorem Line.code_comment (description : Option String) :
    (Line.comment (Text.commentText description)).code = [] := by
  rw [Line.code, codeOf_comment]
  rfl

theorem Line.read_comment (description : Option String) :
    (Line.comment (Text.commentText description)).read = some [] := by
  rw [Line.read, Line.code_comment]

theorem read_docLines (description : Option String) : read (docLines description) = some [] := by
  unfold docLines
  simp only
  split
  · rfl
  · rw [read_singleton, Line.read_comment]

/-- A line whose first token is no slash is no comment. -/
theorem Line.code_mk {text : String} {t : Token} {ts : List Token} (hts : tokens text = t :: ts)
    (ht : t ≠ .mark '/') (indent : Nat) : (Line.mk indent text).code = t :: ts := by
  have hhead : text.toList.head? ≠ some '/' := by
    intro hslash
    obtain ⟨r, hr⟩ : ∃ r, text.toList = '/' :: r := by
      cases htext : text.toList with
      | nil => simp [htext] at hslash
      | cons c r => exact ⟨r, by simpa [htext] using hslash⟩
    rw [tokens, hr] at hts
    exact ht (List.cons.inj hts).1.symm
  rw [Line.code, codeOf_eq_self hhead, String.ofList_toList, hts]

theorem Line.read_of_tokens {l : Line} {ts : List Token} {s : Statement}
    (hts : tokens l.text = ts) (hs : statement? ts = some s) : l.read = some [s] := by
  cases ts with
  | nil => cases hs
  | cons t r =>
    have ht : t ≠ .mark '/' := by
      rintro rfl
      cases hs
    rw [Line.read, Line.code_mk hts ht]
    simp [hs]

theorem Line.read_of_spells {l : Line} {ts : List Token} {s : Statement}
    (hts : Spells l.text ts) (hs : statement? ts = some s) : l.read = some [s] :=
  read_of_tokens hts.tokens hs

theorem read_block {first last : Line} {body : List Line} {s s' : Statement}
    {ss : List Statement} (hfirst : first.read = some [s]) (hbody : read body = some ss)
    (hlast : last.read = some [s']) : read (first :: body ++ [last]) = some (s :: ss ++ [s']) := by
  have hend : read (body ++ [last]) = some (ss ++ [s']) :=
    read_append hbody ((read_singleton last).trans hlast)
  exact read_cons hfirst hend

/-- A block with an empty line behind. -/
theorem read_block_blank {first last : Line} {body : List Line} {s s' : Statement}
    {ss : List Statement} (hfirst : first.read = some [s]) (hbody : read body = some ss)
    (hlast : last.read = some [s']) :
    read (first :: body ++ [last, .blank]) = some (s :: ss ++ [s']) := by
  have hall := read_append_silent (read_block hfirst hbody hlast) read_blank
  rwa [List.append_assoc] at hall

/-! ## What is understood -/

theorem understood_append (a b : List Line) :
    understood (a ++ b) = understood a ++ understood b := List.filterMap_append

theorem understood_append_of_silent {note : List Line} (h : understood note = []) (ls : List Line) :
    understood (note ++ ls) = understood ls := by rw [understood_append, h, List.nil_append]

theorem understood_flatMap {α : Type} (xs : List α) (f : α → List Line) :
    understood (xs.flatMap f) = xs.flatMap fun x => understood (f x) := by
  induction xs with
  | nil => rfl
  | cons x r ih => rw [List.flatMap_cons, understood_append, ih, List.flatMap_cons]

@[simp] theorem understood_blank : understood [Line.blank] = [] := rfl

@[simp] theorem understood_map_shift (ls : List Line) :
    understood (ls.map Line.shift) = understood ls := by
  simp [understood, List.filterMap_map, Function.comp_def]

/-- What is read is all understood. -/
theorem understood_of_read {ls : List Line} {ss : List Statement} (h : read ls = some ss) :
    understood ls = ss := by
  induction ls generalizing ss with
  | nil => exact Option.some.inj h
  | cons l r ih =>
    simp only [read, bind, Option.bind_eq_some_iff] at h
    obtain ⟨xs, hl, ys, hr, hss⟩ := h
    obtain rfl : xs ++ ys = ss := by simpa using hss
    have hline : understood [l] = xs := by
      unfold Line.read at hl
      split at hl
      · next hcode =>
        obtain rfl := Option.some.inj hl
        simp [understood, hcode, statement?]
      · obtain ⟨s, hs, rfl⟩ := Option.map_eq_some_iff.1 hl
        simp [understood, hs]
    rw [← List.singleton_append, understood_append, hline, ih hr]

/-! ## Blocks -/

/-- The blocks behind a statement that stands in these. -/
def Statement.blocksBehind (blocks : List String) : Statement → List String
  | .opens _ name => blocks ++ [name]
  | .constant name _ => blocks ++ [name]
  | .entry name _ type => if type.getLast? = some (.mark '{') then blocks ++ [name] else blocks
  | .closes => blocks.dropLast
  | _ => blocks

/-- A statement and the names of the blocks that it stands in, the innermost last. -/
abbrev Placed := List String × Statement

/-- The statements, the first of which stands in these blocks. -/
def place (blocks : List String) : List Statement → List Placed
  | [] => []
  | s :: r => (blocks, s) :: place (s.blocksBehind blocks) r

/-- All blocks that these statements open are closed again. -/
def Closes (ss : List Statement) : Prop :=
  ∀ blocks, ss.foldl Statement.blocksBehind blocks = blocks

theorem place_append (blocks : List String) (a b : List Statement) :
    place blocks (a ++ b) = place blocks a ++ place (a.foldl Statement.blocksBehind blocks) b := by
  induction a generalizing blocks with
  | nil => rfl
  | cons s r ih => simp [place, ih]

theorem Closes.place_append {a : List Statement} (ha : Closes a) (blocks : List String)
    (b : List Statement) : place blocks (a ++ b) = place blocks a ++ place blocks b := by
  rw [Code.place_append, ha]

theorem Closes.nil : Closes [] := fun _ => rfl

theorem Closes.append {a b : List Statement} (ha : Closes a) (hb : Closes b) : Closes (a ++ b) := by
  intro blocks
  rw [List.foldl_append, ha, hb]

theorem Closes.flatMap {α : Type} {xs : List α} {f : α → List Statement}
    (h : ∀ x ∈ xs, Closes (f x)) : Closes (xs.flatMap f) := by
  induction xs with
  | nil => exact .nil
  | cons x r ih => exact (h x (by simp)).append (ih fun y hy => h y (by simp [hy]))

theorem Closes.place_flatMap {α : Type} {xs : List α} {f : α → List Statement}
    (h : ∀ x ∈ xs, Closes (f x)) (blocks : List String) :
    place blocks (xs.flatMap f) = xs.flatMap fun x => place blocks (f x) := by
  induction xs with
  | nil => rfl
  | cons x r ih =>
    rw [List.flatMap_cons, (h x (by simp)).place_append, ih fun y hy => h y (by simp [hy])]
    rfl

/-- The statement neither opens nor closes a block. -/
def Statement.IsFlat (s : Statement) : Prop := ∀ blocks, s.blocksBehind blocks = blocks

theorem closes_of_isFlat {ss : List Statement} (h : ∀ s ∈ ss, s.IsFlat) : Closes ss := by
  intro blocks
  induction ss with
  | nil => rfl
  | cons s r ih =>
    rw [List.foldl_cons, h s (by simp) blocks]
    exact ih fun x hx => h x (by simp [hx])

theorem place_of_isFlat {ss : List Statement} (h : ∀ s ∈ ss, s.IsFlat) (blocks : List String) :
    place blocks ss = ss.map (blocks, ·) := by
  induction ss with
  | nil => rfl
  | cons s r ih =>
    rw [place, h s (by simp) blocks, ih fun x hx => h x (by simp [hx])]
    rfl

/-- A block with what is inside. -/
theorem closes_block {keyword name : String} {ss : List Statement} (h : Closes ss) :
    Closes (.opens keyword name :: ss ++ [.closes]) := by
  intro blocks
  simp only [List.cons_append, List.foldl_cons, List.foldl_append, List.foldl_nil]
  rw [h, Statement.blocksBehind, Statement.blocksBehind]
  simp

theorem place_block {keyword name : String} {ss : List Statement} (h : Closes ss)
    (blocks : List String) :
    place blocks (.opens keyword name :: ss ++ [.closes]) =
      (blocks, .opens keyword name) :: place (blocks ++ [name]) ss ++
        [(blocks ++ [name], .closes)] := by
  rw [List.cons_append, place, h.place_append]
  rfl

end ResolverKit.Code
