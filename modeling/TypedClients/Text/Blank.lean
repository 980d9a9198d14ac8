/-!
# Blank characters, trimming and lines

Which characters count as blank, and the three cuts of a text that depend on it: trimming both
ends, splitting into words, splitting into lines. Everything here works on `List Char`, so that
statements about it are statements about lists; `String` callers convert at the border.
-/

namespace TypedClients.Text

/-- The blank characters: the Unicode characters of bidirectional type `WS`, `B` or `S` together
with the space separators. -/
def isBlank (c : Char) : Bool :=
  let n := c.toNat
  (0x09 ≤ n && n ≤ 0x0D) || (0x1C ≤ n && n ≤ 0x20) || n == 0x85 || n == 0xA0 || n == 0x1680 ||
    (0x2000 ≤ n && n ≤ 0x200A) || n == 0x2028 || n == 0x2029 || n == 0x202F || n == 0x205F ||
    n == 0x3000

/-- The characters that end a line, a carriage return before a line feed counting as one end. -/
def isLineEnd (c : Char) : Bool :=
  let n := c.toNat
  (0x0A ≤ n && n ≤ 0x0D) || (0x1C ≤ n && n ≤ 0x1E) || n == 0x85 || n == 0x2028 || n == 0x2029

/-! ## Trimming -/

/-- The text without the blanks at its start. -/
def trimStart (s : List Char) : List Char := s.dropWhile isBlank

theorem trimStart_eq_self {s : List Char} (h : ∀ c ∈ s.head?, isBlank c = false) :
    trimStart s = s := by
  cases s with
  | nil => rfl
  | cons c r => simp [trimStart, List.dropWhile, h c rfl]

/-- The text without the blanks at its end. -/
def trimEnd (s : List Char) : List Char := (s.reverse.dropWhile isBlank).reverse

/-- The text without the blanks at either end. -/
def trim (s : List Char) : List Char := trimEnd (trimStart s)

/-- Whether nothing is left of a text once it is trimmed. -/
def isAllBlank (s : List Char) : Bool := s.all isBlank

/-! ## Words and lines -/

/-- The maximal runs of characters that are not blank, joined together. -/
def squeeze (s : List Char) : List Char := s.filter (!isBlank ·)

/-- Lines of a text, without their ends; a final line end opens no further line. The first
argument holds the characters of the current line, last one first. -/
def linesFrom : List Char → List Char → List (List Char)
  | [], [] => []
  | line, [] => [line.reverse]
  | line, '\r' :: '\n' :: rest => line.reverse :: linesFrom [] rest
  | line, c :: rest =>
    if isLineEnd c then line.reverse :: linesFrom [] rest else linesFrom (c :: line) rest

/-- The lines of a text, without their ends. -/
def lines (s : List Char) : List (List Char) := linesFrom [] s

/-- Line ends of any of the three usual forms, read as a line feed. -/
def normaliseLineEnds : List Char → List Char
  | [] => []
  | '\r' :: '\n' :: rest => '\n' :: normaliseLineEnds rest
  | c :: rest => (if c = '\r' then '\n' else c) :: normaliseLineEnds rest

end TypedClients.Text
