import TextPipeline.Text.Blank
import TextPipeline.Text.Line
import TextPipeline.Value.Sequence

/-! Front matter: a block of data between two fences at the very start of a text. -/

namespace TextPipeline.FrontMatter

open TextPipeline.Text

/-- The formats of front matter. -/
inductive Format where
  | yaml
  | toml
  deriving DecidableEq, Repr, Inhabited

namespace Format

/-- The line before and after a block. -/
def fence : Format → String
  | .yaml => "---"
  | .toml => "+++"

/-- The name of a format, which is also the type of the nodes that hold it. -/
def name : Format → String
  | .yaml => "yaml"
  | .toml => "toml"

/-- The format of a name. -/
def ofName? : String → Option Format
  | "yaml" => some .yaml
  | "toml" => some .toml
  | _ => none

/-- The format that a value names. -/
def ofValue (v : Value) : Outcome Format :=
  match v with
  | .str s => (ofName? s).elim (.error (.raised "KeyError" [v])) .ok
  | v => do
    let v ← v.asKey
    throw (.raised "KeyError" [v])

end Format

/-- What finds out the data that a text in a format stands for. -/
abbrev Reader := Format → String → Outcome Value

/-- Front matter as it stands in a text. -/
structure Block where
  format : Format
  /-- The text between the fences. -/
  raw : String
  /-- The text with the fences and the line break after the closing one. -/
  whole : String

/-- Whether a text starts with a line that is a fence and nothing else. -/
def isFenced (fence s : List Char) : Bool :=
  fence.isPrefixOf s &&
    match s.drop fence.length with
    | '\n' :: _ | '\r' :: '\n' :: _ => true
    | _ => false

/-- The lines before the first one that is a closing fence, and that one. Blanks around a closing
fence do not count. -/
def untilFence (fence : List Char) : List (List Char) → Option (List (List Char) × List Char)
  | [] => none
  | line :: rest =>
    if strip line == fence then some ([], line)
    else (untilFence fence rest).map fun (before, closing) => (line :: before, closing)

/-- The block at the start of a text that starts with a fence. -/
def fenced (format : Format) (s : List Char) : Option Block :=
  match lines s with
  | [] => none
  | opening :: rest =>
    (untilFence format.fence.toList rest).map fun (before, closing) =>
      ⟨format, String.ofList before.flatten, String.ofList (opening ++ before.flatten ++ closing)⟩

/-- The block at the start of a text. The first format whose fence opens the text decides; a block
that is not closed is none. Formats are looked up only as far as needed. -/
def find (text : String) : List Value → Outcome (Option Block)
  | [] => .ok none
  | name :: rest => do
    let format ← Format.ofValue name
    if isFenced format.fence.toList text.toList then return fenced format text.toList
    else find text rest

/-- The formats that are looked for unless others are given. -/
def standardFormats : List Value := [.str "yaml", .str "toml"]

end TextPipeline.FrontMatter
