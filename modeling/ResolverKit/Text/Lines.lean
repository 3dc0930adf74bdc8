/-!
# Lines of a text

Three ways to see line ends.  `splitLines` breaks at every line boundary of Unicode and gives no
line after a final break; it is used where text is laid out.  `splitRows` breaks at the line ends
of the schema language only (carriage return, line feed, or the two together) and keeps a last
empty row; it is used where a position in a schema is shown.  `unifyLineEnds` reads every line
end of a file as a line feed.
-/

namespace ResolverKit.Text

/-! ## Algorithm -/

def isLineBreak (c : Char) : Bool :=
  let n := c.toNat
  (10 ≤ n && n ≤ 13) || (28 ≤ n && n ≤ 30) || n == 0x85 || n == 0x2028 || n == 0x2029

/-- The lines of a text; a carriage return and a line feed together are one break. -/
def splitLines : List Char → List (List Char)
  | [] => []
  | '\r' :: '\n' :: r => [] :: splitLines r
  | c :: r =>
    if isLineBreak c then [] :: splitLines r
    else
      match splitLines r with
      | [] => [[c]]
      | l :: ls => (c :: l) :: ls

/-- Line ends of the schema language. -/
def isRowEnd (c : Char) : Bool := c == '\n' || c == '\r'

/-- The rows of a schema text, one more than it has line ends. -/
def splitRows : List Char → List (List Char)
  | [] => [[]]
  | '\r' :: '\n' :: r => [] :: splitRows r
  | c :: r =>
    if isRowEnd c then [] :: splitRows r
    else
      match splitRows r with
      | [] => [[c]]
      | l :: ls => (c :: l) :: ls

/-- Every line end becomes a line feed. -/
def unifyLineEnds : List Char → List Char
  | [] => []
  | '\r' :: '\n' :: r => '\n' :: unifyLineEnds r
  | c :: r => (if c = '\r' then '\n' else c) :: unifyLineEnds r

/-! ## Lemmas -/

@[simp] theorem splitLines_nil : splitLines [] = [] := by simp [splitLines]

@[simp] theorem splitRows_nil : splitRows [] = [[]] := by simp [splitRows]

theorem splitRows_ne_nil (cs : List Char) : splitRows cs ≠ [] := by
  fun_cases splitRows cs <;> simp

end ResolverKit.Text
