import TextPipeline.Toml.Scalar

/-! TOML documents: nested tables built from statements. A table may be opened only once, inline
values are final, and nothing is given twice. -/

namespace TextPipeline.Toml

/-- The way to a table: the keys from the root. -/
abbrev Path := List String

/-- Changes the table at the end of a path, making those on the way that are missing. An array of
tables stands for its last table if `lists` is set. -/
def alter (lists : Bool) (f : Entries → Outcome Entries) : Path → Entries → Outcome Entries
  | [], table => f table
  | k :: path, table => do
    match table.get? k with
    | none => return table.put k (.dict (← alter lists f path []))
    | some (.dict inner) => return table.put k (.dict (← alter lists f path inner))
    | some (.list items) =>
      match lists, items.getLast? with
      | true, some (.dict inner) =>
        return table.put k (.list (items.dropLast ++ [.dict (← alter lists f path inner)]))
      | _, _ => throw (malformed "Cannot overwrite a value")
    | some _ => throw (malformed "Cannot overwrite a value")

/-- Adds an entry to the table at the end of a path, where its key must be new. -/
def add (lists : Bool) (path : Path) (k : String) (v : Value) (root : Entries) : Outcome Entries :=
  alter lists (fun table =>
    if (table.get? k).isSome then .error (malformed "Cannot overwrite a value")
    else .ok (table.put k v)) path root

/-- Adds an empty table to the array of tables at the end of a path. -/
def append (path : Path) (k : String) (root : Entries) : Outcome Entries :=
  alter true (fun table =>
    match table.get? k with
    | none => .ok (table.put k (.list [.dict []]))
    | some (.list items) => .ok (table.put k (.list (items ++ [.dict []])))
    | some _ => .error (malformed "Cannot overwrite a value")) path root

/-- What may no longer be done to tables. -/
structure Marks where
  /-- Inline values: nothing may be added in them. -/
  frozen : List Path
  /-- Tables that may not be opened again. -/
  opened : List Path
  /-- Tables that may not be opened again once another table has been opened. -/
  pending : List Path

namespace Marks

def isFrozen (m : Marks) (path : Path) : Bool :=
  m.frozen.any (·.isPrefixOf path)

def isOpened (m : Marks) (path : Path) : Bool :=
  m.opened.contains path

def freeze (m : Marks) (path : Path) : Marks := { m with frozen := path :: m.frozen }

def open_ (m : Marks) (path : Path) : Marks := { m with opened := path :: m.opened }

/-- Forgets all marks of a table and of the tables in it. -/
def clear (m : Marks) (path : Path) : Marks :=
  { m with
    frozen := m.frozen.filter (!path.isPrefixOf ·)
    opened := m.opened.filter (!path.isPrefixOf ·) }

/-- Another table is opened. -/
def settle (m : Marks) : Marks := { m with opened := m.pending ++ m.opened, pending := [] }

end Marks

/-- Whether a value was given inline as a table or an array. -/
def isInline : Value → Bool
  | .dict _ | .list _ => true
  | _ => false

/-- Skips blanks, line breaks and comments. -/
def skipSpace : Nat → List Char → Outcome (List Char)
  | 0, s => .ok s
  | fuel + 1, s => do
    let rest ← skipComment (s.dropWhile isSpace)
    if rest.length == s.length then return rest else skipSpace fuel rest

mutual

/-- Reads a value. -/
def value : Nat → List Char → Outcome (Value × List Char)
  | 0, _ => .error (malformed "Invalid value")
  | fuel + 1, s =>
    match s with
    | '"' :: _ | '\'' :: _ => (text s).map fun (t, rest) => (.str t, rest)
    | '[' :: rest => do
      let rest ← skipSpace rest.length rest
      match rest with
      | ']' :: rest => return (.list [], rest)
      | rest =>
        let (items, rest) ← items fuel rest
        return (.list items, rest)
    | '\x7b' :: rest =>
      match rest.dropWhile isPad with
      | '\x7d' :: rest => .ok (.dict [], rest)
      | rest => inline fuel [] [] rest
    | 't' :: 'r' :: 'u' :: 'e' :: rest => .ok (.bool true, rest)
    | 'f' :: 'a' :: 'l' :: 's' :: 'e' :: rest => .ok (.bool false, rest)
    | s => scalar s

/-- Reads the items of an array and its end. -/
def items : Nat → List Char → Outcome (List Value × List Char)
  | 0, _ => .error (malformed "Unclosed array")
  | fuel + 1, s => do
    let (first, rest) ← value fuel s
    let rest ← skipSpace rest.length rest
    match rest with
    | ']' :: rest => return ([first], rest)
    | ',' :: rest =>
      let rest ← skipSpace rest.length rest
      match rest with
      | ']' :: rest => return ([first], rest)
      | rest =>
        let (others, rest) ← items fuel rest
        return (first :: others, rest)
    | _ => throw (malformed "Unclosed array")

/-- Reads a key and its value. -/
def pair : Nat → List Char → Outcome ((Path × Value) × List Char)
  | 0, _ => .error (malformed "Invalid value")
  | fuel + 1, s => do
    let (k, rest) ← key (s.length + 1) s
    match rest with
    | '=' :: rest =>
      let (v, rest) ← value fuel (rest.dropWhile isPad)
      return ((k, v), rest)
    | _ => throw (malformed "Expected '=' after a key in a key/value pair")

/-- Reads the entries of an inline table and its end. -/
def inline : Nat → List Path → Entries → List Char → Outcome (Value × List Char)
  | 0, _, _, _ => .error (malformed "Unclosed inline table")
  | fuel + 1, frozen, table, s => do
    let ((k, v), rest) ← pair fuel s
    if frozen.any (·.isPrefixOf k) then throw (malformed "Cannot mutate immutable namespace")
    let table ← add false k.dropLast (k.getLast?.getD "") v table
    match rest.dropWhile isPad with
    | '\x7d' :: rest => return (.dict table, rest)
    | ',' :: rest =>
      inline fuel (if isInline v then k :: frozen else frozen) table (rest.dropWhile isPad)
    | _ => throw (malformed "Unclosed inline table")

end

/-- A document as far as it has been read. -/
structure Document where
  root : Entries
  marks : Marks
  /-- The table to which the next entries belong. -/
  header : Path

namespace Document

def empty : Document := ⟨[], ⟨[], [], []⟩, []⟩

/-- Opens a table. -/
def openTable (d : Document) (path : Path) : Outcome Document := do
  let marks := d.marks.settle
  if marks.isOpened path || marks.isFrozen path then throw (malformed "Cannot declare twice")
  let root ← alter true .ok path d.root
  return ⟨root, marks.open_ path, path⟩

/-- Opens a new table at the end of an array of tables. -/
def openArray (d : Document) (path : Path) : Outcome Document := do
  let marks := d.marks.settle
  if marks.isFrozen path then throw (malformed "Cannot mutate immutable namespace")
  let root ← append path.dropLast (path.getLast?.getD "") d.root
  return ⟨root, (marks.clear path).open_ path, path⟩

/-- The paths of the tables that the parts of a key open on the way. -/
def onTheWay (header k : Path) : List Path :=
  (List.range (k.length - 1)).map fun i => header ++ k.take (i + 1)

/-- Adds an entry to the open table. -/
def put (d : Document) (k : Path) (v : Value) : Outcome Document := do
  let way := onTheWay d.header k
  if way.any d.marks.isOpened then throw (malformed "Cannot redefine namespace")
  let marks := { d.marks with pending := way ++ d.marks.pending }
  let parent := d.header ++ k.dropLast
  if marks.isFrozen parent then throw (malformed "Cannot mutate immutable namespace")
  let root ← add true parent (k.getLast?.getD "") v d.root
  return ⟨root, if isInline v then marks.freeze (d.header ++ k) else marks, d.header⟩

/-- Reads the statement that starts here. -/
def statement (d : Document) (s : List Char) : Outcome (Document × List Char) :=
  match s with
  | '[' :: '[' :: rest => do
    let (k, rest) ← key (rest.length + 1) (rest.dropWhile isPad)
    let d ← d.openArray k
    match rest with
    | ']' :: ']' :: rest => return (d, rest)
    | _ => throw (malformed "Expected ']]' at the end of an array declaration")
  | '[' :: rest => do
    let (k, rest) ← key (rest.length + 1) (rest.dropWhile isPad)
    let d ← d.openTable k
    match rest with
    | ']' :: rest => return (d, rest)
    | _ => throw (malformed "Expected ']' at the end of a table declaration")
  | '#' :: _ => .ok (d, s)
  | c :: _ =>
    if isKeyChar c || c == '"' || c == '\'' then do
      let ((k, v), rest) ← pair (2 * s.length + 2) s
      return (← d.put k v, rest)
    else .error (malformed "Invalid statement")
  | [] => .ok (d, [])

/-- Reads statements up to the end of the text. -/
def run : Nat → Document → List Char → Outcome Document
  | 0, d, _ => .ok d
  | fuel + 1, d, s =>
    match s.dropWhile isPad with
    | [] => .ok d
    | '\n' :: rest => run fuel d rest
    | s => do
      let (d, rest) ← statement d s
      match ← skipComment (rest.dropWhile isPad) with
      | [] => return d
      | '\n' :: rest => run fuel d rest
      | _ => throw (malformed "Expected newline or end of document after a statement")

end Document

/-- Line ends as line feeds only. -/
def unixLines : List Char → List Char
  | '\r' :: '\n' :: rest => '\n' :: unixLines rest
  | c :: rest => c :: unixLines rest
  | [] => []

/-- The table that a text describes. -/
def read (text : String) : Outcome Value := do
  let s := unixLines text.toList
  let d ← Document.empty.run (s.length + 1) s
  return .dict d.root

end TextPipeline.Toml
