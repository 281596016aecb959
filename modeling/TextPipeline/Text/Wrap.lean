import TextPipeline.Text.Blank
import TextPipeline.Text.Width

/-! Text within a number of columns: a line that is too long goes on in the next one, or is cut. A text is
broken into lines with all of its characters in their order; only then are lines cut. -/

namespace TextPipeline.Text

/-- What becomes of a line that is too long. -/
inductive Overflow where
  /-- It goes on in the next line after the last word that fits, and a word that no line can hold is
  divided. -/
  | divided
  /-- It goes on in the next line after the last word that fits, and a word that no line can hold is
  abridged. -/
  | wrapped
  /-- It is abridged. -/
  | abridged
  deriving DecidableEq, Repr

/-- A text with blanks in the place of a tab, up to the next column that is a multiple of eight. The
text starts at `column`. -/
def expandTabs (column : Nat) : List Char → List Char
  | [] => []
  | c :: rest =>
    if c == '\t' then
      List.replicate (8 - column % 8) ' ' ++ expandTabs (column + (8 - column % 8)) rest
    else c :: expandTabs (column + charWidth c) rest

/-- A text cut off after `columns`. A blank stands for the half of a wide character. -/
def cut (columns : Nat) : List Char → List Char
  | [] => []
  | c :: rest =>
    if charWidth c ≤ columns then c :: cut (columns - charWidth c) rest
    else List.replicate columns ' '

/-- A text that ends with an ellipsis if it takes more than `columns`. -/
def abridge (columns : Nat) (s : List Char) : List Char :=
  if width s ≤ columns then s else cut (columns - 1) s ++ ['…']

/-- A text divided wherever a blank is followed by another character than a blank. -/
def afterBlanks : List Char → List (List Char)
  | [] => []
  | c :: rest =>
    match afterBlanks rest with
    | (d :: first) :: others =>
      if isBlank c && !isBlank d then [c] :: (d :: first) :: others
      else (c :: d :: first) :: others
    | others => [c] :: others

/-- The words of a text with the blanks that follow them. The blanks at the start are part of the
first. -/
def spacedWords (s : List Char) : List (List Char) :=
  match afterBlanks s with
  | first :: second :: rest =>
    if first.all isBlank then (first ++ second) :: rest else first :: second :: rest
  | words => words

/-- Lines under way: the full ones, of which the first is the last one filled, and the one that is
being filled. -/
structure Filling where
  full : List (List Char)
  line : List Char

namespace Filling

def empty : Filling := ⟨[], []⟩

def lines (f : Filling) : List (List Char) := (f.line :: f.full).reverse

/-- A text at the end of the line. -/
def add (f : Filling) (s : List Char) : Filling := { f with line := f.line ++ s }

/-- A text in a line of its own. The first line is not left empty. -/
def addBelow (f : Filling) (s : List Char) : Filling :=
  if f.full.isEmpty && f.line.isEmpty then f.add s else ⟨f.line :: f.full, s⟩

end Filling

/-- A word divided wherever the next character would not fit. -/
def chop (columns : Nat) (word : List Char) : List (List Char) :=
  (word.foldl place Filling.empty).lines
where
  place (f : Filling) (c : Char) : Filling :=
    if width f.line + charWidth c ≤ columns then f.add [c] else ⟨f.line :: f.full, [c]⟩

/-- A word in the line if it fits, and else below. The blanks after it may stick out. -/
def Filling.place (columns : Nat) (divides : Bool) (f : Filling) (word : List Char) : Filling :=
  let needed := width (dropEnd isBlank word)
  if width f.line + needed ≤ columns then f.add word
  else if divides && columns < needed then (chop columns word).foldl addBelow f
  else f.addBelow word

/-- The lines of a text that is broken between words. -/
def fill (columns : Nat) (divides : Bool) (s : List Char) : List (List Char) :=
  ((spacedWords s).foldl (Filling.place columns divides) Filling.empty).lines

/-- A line without the blanks at its end by which it has more than `columns` characters. -/
def trimOverhang (columns : Nat) (s : List Char) : List Char :=
  let blanks := s.length - (dropEnd isBlank s).length
  s.take (s.length - min blanks (s.length - columns))

/-- The lines in which a line is shown. -/
def fitLine (columns : Nat) (s : List Char) : Overflow → List (List Char)
  | .divided => (fill columns true s).map fun line => cut columns (trimOverhang columns line)
  | .wrapped => (fill columns false s).map fun line => abridge columns (trimOverhang columns line)
  | .abridged => [abridge columns (trimOverhang columns s)]

/-- The lines in which a text is shown. Without a column there are none. -/
def fit (columns : Nat) (overflow : Overflow) (s : List Char) : List (List Char) :=
  if columns = 0 then []
  else (pieces (· == '\n') s).flatMap fun line => fitLine columns (expandTabs 0 line) overflow

end TextPipeline.Text
