import TextPipeline.FrontMatter.Block
import TextPipeline.Pipeline.Program
import TextPipeline.Plugin.Metadata
import TextPipeline.Text.Case
import TextPipeline.Tree.Literal
import TextPipeline.Value.Edit

/-! The plugin that reads front matter: its data go to the file, and a node at the start of the tree
that holds just the block becomes a literal of its format. -/

namespace TextPipeline.Standard

open TextPipeline.Pipeline TextPipeline.Plugin

/-- Whether a value lists formats of front matter, and at least one. -/
def areFormats (v : Value) : Outcome Bool :=
  match v with
  | .list items => .ok (!items.isEmpty && items.all fun item => item.among FrontMatter.standardFormats)
  | v => .ok v.truthy

/-- The options of the plugin and what is known about it. -/
def frontMatterAbout : Metadata Unit where
  name := "frontmatter"
  description := .str "Parse leading YAML or TOML front matter into file data"
  attacher := ()
  parameters := [
    ("formats", {
      type := .list
      elementType := some .str
      default := .list FrontMatter.standardFormats
      validator := some areFormats
      help := .str "Front matter formats to recognize ('yaml', 'toml')" }),
    ("strict", { type := .bool, default := .bool false, help := .str "Fail on malformed front matter" }),
    ("key", {
      type := .str
      default := .str "matter"
      help := .str "file.data key for the parsed mapping" })]
  tags := .list [.str "metadata"]
  version := Metadata.firstVersion
  author := .str "syntaxflow"

/-- Reports on the file; a report of an error ends the transformer. -/
def report (severity : Severity) (reason origin : String) : Act :=
  .change fun _ tree file =>
    match file.report severity (.str reason) .none (.str origin) with
    | .ok (file, d) =>
      if severity == .error then
        { tree, file, records := [file.failure (.str reason)], fault := some (.diagnostic d) }
      else { tree, file }
    | .error f => { tree, file, fault := some f }

/-- A text without line breaks at its end. -/
def dropBreaks (s : String) : String :=
  String.ofList (Text.dropEnd (fun c => c == '\r' || c == '\n') s.toList)

/-- The text of what stands first in a tree: a node, or a list of nodes. -/
def firstText : Value → Outcome String
  | .list nodes => Tree.textOfAll nodes ""
  | v => Tree.textOf v

/-- A tree whose first child is a literal of the block, if it was a node that holds just the
block. -/
def markBlock (block : FrontMatter.Block) (sight : Sight) (tree : Value) : Outcome Value := do
  let n ← Tree.asNode tree
  unless n.children.truthy do return tree
  let first := sight.reveal (← n.children.getItem (.int 0))
  let text ← firstText first
  if text == block.whole || text == dropBreaks block.whole then
    let position := (← Tree.asNode first).position
    let marked ← NodeOf.make (.str block.format.name) .none (.str text) .none position
    return .node { n with children := ← n.children.setItem (.int 0) (.node marked) }
  else return tree

section

variable (read : FrontMatter.Reader)

/-- What the transformer does with a block that was found. -/
def frontMatterActs (block : FrontMatter.Block) (strict : Bool) (key : Value) : List Act :=
  let format := block.format.name
  let take (matter : Entries) : List Act :=
    [.change fun _ tree file =>
        { tree, file := { file with data := Entries.insert key (.dict matter) file.data } },
      .log ⟨.debug, "syntaxflow.plugins.frontmatter", "Read " ++ format ++ " front matter with " ++
        toString matter.length ++ " key(s)"⟩,
      .change fun sight tree file =>
        match markBlock block sight tree with
        | .ok tree => { tree, file }
        | .error f => { tree, file, fault := some f }]
  match read block.format block.raw with
  | .ok .none => take []
  | .ok (.dict matter) => take matter
  | .ok v =>
    [report .warning ("Front matter must be a mapping, got " ++ v.typeName)
      "frontmatter:not-a-mapping"]
  | .error f =>
    if f.isKind "YAMLError" || f.isKind "TOMLDecodeError" then
      match f.render with
      | .ok said =>
        [report (if strict then .error else .warning)
          ("Invalid " ++ Text.upper format ++ " front matter: " ++ said)
          ("frontmatter:invalid-" ++ format)]
      | .error unread => [.raise unread]
    else [.raise f]

/-- What the transformer does. -/
def readFrontMatter (formats : List Value) (strict : Bool) (key : Value) (file : File) : List Act :=
  let found : Outcome (Option FrontMatter.Block) := do FrontMatter.find (← file.text) formats
  match found with
  | .error f => [.raise f]
  | .ok none => []
  | .ok (some block) => frontMatterActs read block strict key

/-- The transformer that the options ask for. -/
def frontMatterFor (options : Value) : Logged Transformer := do
  let resolved ← frontMatterAbout.resolveOptions options
  let formats := match resolved.get? "formats" with
    | some (.list formats) => formats
    | _ => []
  let strict := (Value.ofOption (resolved.get? "strict")).truthy
  let key := Value.ofOption (resolved.get? "key")
  return .mk "frontmatter.<locals>.parse_front_matter" .plain fun _ file =>
    readFrontMatter read formats strict key file

/-- The plugin. -/
def frontMatterPlugin : Metadata Attacher :=
  frontMatterAbout.attachedBy (.mk "frontmatter" fun options _ =>
    Attacher.steps (frontMatterFor read options))

end

end TextPipeline.Standard
