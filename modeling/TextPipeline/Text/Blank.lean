/-! Blank characters, and what they delimit: the words of a text and its stripped form. -/

namespace TextPipeline.Text

/-- Whether a character separates words: the controls that move the print position, the four
separator controls, the spaces of every width, and the line and paragraph separators. -/
def isBlank (c : Char) : Bool :=
  let n := c.toNat
  (9 ≤ n && n ≤ 13) || (28 ≤ n && n ≤ 32) || n == 0x85 || n == 0xA0 || n == 0x1680 ||
    (0x2000 ≤ n && n ≤ 0x200A) || n == 0x2028 || n == 0x2029 || n == 0x202F || n == 0x205F ||
    n == 0x3000

/-- The stretches of a list between the elements that satisfy `p`, empty ones included. -/
def pieces {α : Type} (p : α → Bool) : List α → List (List α)
  | [] => [[]]
  | a :: rest =>
    if p a then [] :: pieces p rest
    else
      match pieces p rest with
      | [] => [[a]]
      | first :: others => (a :: first) :: others

/-- The words of a text: its longest stretches without blanks. -/
def words (s : List Char) : List (List Char) :=
  (pieces isBlank s).filter (!·.isEmpty)

/-- A list without the elements at its end that satisfy `p`. -/
def dropEnd {α : Type} (p : α → Bool) (s : List α) : List α :=
  (s.reverse.dropWhile p).reverse

/-- A text without the blanks at either end. -/
def strip (s : List Char) : List Char :=
  dropEnd isBlank (s.dropWhile isBlank)

end TextPipeline.Text
