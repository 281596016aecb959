import TextPipeline.Grammar.Locator
import TextPipeline.Tree.Literal

/-! The plain text grammar. A text is a sequence of paragraphs with blank lines between them;
nothing is lost, so that joining the literals of the tree gives back the text. -/

namespace TextPipeline.Grammar.Plain

/-- Whether a character may pad a blank line. -/
def isPad (c : Char) : Bool :=
  c == ' ' || c == '\t'

/-- The length of the line break at the start of a text with the padding after it, and zero if the
text does not start with a line break. -/
def breakLength : List Char → Nat
  | '\r' :: '\n' :: rest => 2 + (rest.takeWhile isPad).length
  | '\n' :: rest => 1 + (rest.takeWhile isPad).length
  | _ => 0

theorem breakLength_le (s : List Char) : breakLength s ≤ s.length := by
  have bound (t : List Char) : (t.takeWhile isPad).length ≤ t.length :=
    (List.takeWhile_prefix isPad).length_le
  fun_cases breakLength s with
  | case1 rest =>
    have := bound rest
    simp only [List.length_cons]
    omega
  | case2 rest =>
    have := bound rest
    simp only [List.length_cons]
    omega
  | case3 => omega

/-- The total length of the line breaks at the start of a text, each with the padding after it. -/
def breaksLength (s : List Char) : Nat :=
  if _h : 0 < breakLength s then breakLength s + breaksLength (s.drop (breakLength s)) else 0
termination_by s.length
decreasing_by
  have := breakLength_le s
  simp only [List.length_drop]
  omega

/-- The length of the separator at the start of a text: two or more line breaks, each with the
padding after it, and zero if there are fewer. -/
def separatorLength (s : List Char) : Nat :=
  if breakLength s < breaksLength s then breaksLength s else 0

/-- A stretch of a text: a paragraph or a separator. -/
inductive Chunk where
  | paragraph (text : List Char)
  | separator (text : List Char)
  deriving DecidableEq, Repr

/-- The text of a chunk. -/
def Chunk.text : Chunk → List Char
  | .paragraph s | .separator s => s

/-- Puts a character in front of the paragraph that chunks start with. -/
def extend (c : Char) : List Chunk → List Chunk
  | .paragraph s :: rest => .paragraph (c :: s) :: rest
  | rest => .paragraph [c] :: rest

/-- The paragraphs and separators of a text, none of them empty. -/
def chunks (s : List Char) : List Chunk :=
  match s with
  | [] => []
  | c :: rest =>
    let n := separatorLength (c :: rest)
    if 0 < n then .separator ((c :: rest).take n) :: chunks ((c :: rest).drop n)
    else extend c (chunks rest)
termination_by s.length
decreasing_by
  · simp only [List.length_drop, List.length_cons]
    omega
  · simp

/-- The node of a chunk: a separator is a literal, and a paragraph holds its text as a literal. -/
def chunkNode (chunk : Chunk) (position : Value) : Node :=
  let text := String.ofList chunk.text
  match chunk with
  | .separator _ => NodeOf.literal "whitespace" text position
  | .paragraph _ =>
    NodeOf.parent "paragraph" [.node (NodeOf.literal "text" text position)] position

/-- The position between two offsets, if positions are recorded. -/
def located (locator : Option Locator) (start stop : Nat) : Value :=
  match locator with
  | some l => l.position start stop
  | none => .none

/-- The nodes of chunks that start at an offset. -/
def chunkNodes (locator : Option Locator) (start : Nat) : List Chunk → List Value
  | [] => []
  | chunk :: rest =>
    let stop := start + chunk.text.length
    .node (chunkNode chunk (located locator start stop)) :: chunkNodes locator stop rest

/-- The children of the root of a text. -/
def childNodes (paragraphs : Bool) (locator : Option Locator) (s : List Char) : List Value :=
  if paragraphs then chunkNodes locator 0 (chunks s)
  else if s.isEmpty then []
  else [.node (NodeOf.literal "text" (String.ofList s) (located locator 0 s.length))]

/-- The tree of a text. -/
def parse (paragraphs positions : Bool) (s : List Char) : Node :=
  let locator := if positions then some (Locator.ofText s) else none
  NodeOf.parent "root" (childNodes paragraphs locator s) (located locator 0 s.length)

/-- The text of a tree, without the literals of the types in `skip`. -/
def compile (skip : List Value) (tree : Value) : Outcome String := do
  let kept (n : Node) : Outcome (List Value) := do
    if n.isLiteral then return if (← n.type.asKey).among skip then [] else [n.value]
    else return []
  Tree.joinTexts "" (← Tree.collect kept tree)

end TextPipeline.Grammar.Plain
