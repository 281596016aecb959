import TextPipeline.Proofs.Fencing
import TextPipeline.Proofs.Options
import TextPipeline.Proofs.Placing
import TextPipeline.Proofs.Revising
import TextPipeline.Standard.Plugins

/-! Front matter in a pipeline. The children of the tree of a text are pieces of it, and a piece that becomes
a literal of its own text stays the piece that it was: the text of the tree is the same, and so is what a
second run finds. -/

namespace TextPipeline.Tree

open TextPipeline.Pipeline

/-- A node of which one text is read, in whatever way literals are read. -/
structure Piece (n : Node) (s : String) : Prop where
  closed : (Value.node n).Closed
  literals : ∀ {f : Node → Outcome (List Value)}, ReadsLiterals f → Literals f (.node n) [s]

theorem Piece.textOf {n : Node} {s : String} (h : Piece n s) : textOf (.node n) = .ok s := by
  have := (h.literals readsLiterals_literalValue).spells.textOf
  simpa using this

/-- What is put in the place of a piece is one with the same text. -/
theorem Piece.literal {n : Node} {s : String} (h : Piece n s) (type : String) :
    Piece (NodeOf.literal type s n.position) s := by
  obtain ⟨-, -, -, -, hposition⟩ := Value.closed_node.mp h.closed
  refine ⟨Value.closed_node.mpr ⟨fun _ => rfl, fun _ => rfl, fun _ => rfl, fun _ => rfl, hposition⟩, ?_⟩
  exact fun hf => literals_literal hf type s n.position

/-- Nodes that are the pieces of a text. -/
inductive Pieces : List Value → List String → Prop
  | nil : Pieces [] []
  | cons {n : Node} {s : String} {vs : List Value} {ss : List String} :
    Piece n s → Pieces vs ss → Pieces (.node n :: vs) (s :: ss)

section Pieces

variable {vs vs' : List Value} {ss : List String} (h : Pieces vs ss)
include h

theorem Pieces.closed : ∀ v ∈ vs, v.Closed := by
  induction h with
  | nil => simp
  | cons hn _ ih => exact List.forall_mem_cons.mpr ⟨hn.closed, ih⟩

/-- The text of a root is that of the pieces that are its children. -/
theorem Pieces.compile (position : Value) :
    Grammar.Plain.compile [] (.node (NodeOf.parent "root" vs position)) =
      .ok (String.ofList (ss.flatMap String.toList)) := by
  have hall : List.Forall₂ (Literals (Grammar.Plain.kept [])) vs (ss.map fun s => [s]) := by
    induction h with
    | nil => exact .nil
    | cons hn _ ih => exact .cons (hn.literals readsLiterals_kept) ih
  rw [(literals_parent readsLiterals_kept hall "root" position).compile, ← List.flatMap_def,
    List.flatMap_singleton']

end Pieces

end TextPipeline.Tree

namespace TextPipeline.Grammar.Plain

open TextPipeline.Tree

theorem pieces_chunks {cs : List Chunk} {vs : List Value} (h : List.Forall₂ StandsFor cs vs)
    (hclosed : ∀ v ∈ vs, v.Closed) : ∃ ss, Pieces vs ss := by
  induction h with
  | nil => exact ⟨[], .nil⟩
  | @cons c v cs vs hv _ ih =>
    obtain ⟨hc, hvs⟩ := List.forall_mem_cons.mp hclosed
    obtain ⟨ss, hss⟩ := ih hvs
    have hpiece {n : Node} (h : StandsFor c (.node n)) (hn : (Value.node n).Closed) :
        Piece n (String.ofList c.text) := ⟨hn, fun hf => h.literals hf⟩
    cases hv with
    | separator w position => exact ⟨_, .cons (hpiece (.separator w position) hc) hss⟩
    | paragraph t position => exact ⟨_, .cons (hpiece (.paragraph t position) hc) hss⟩

end TextPipeline.Grammar.Plain

namespace TextPipeline.Pipeline

open TextPipeline.Tree TextPipeline.Settings

/-- The children of the tree of a text are the pieces of the text. -/
theorem pieces_readTree (settings : Value) (text : String) :
    ∃ vs ss position, readTree settings text = .node (NodeOf.parent "root" vs position) ∧ Pieces vs ss := by
  obtain ⟨vs, position, hroot, hcases⟩ : ∃ vs position,
      readTree settings text = .node (NodeOf.parent "root" vs position) ∧
      ((∃ cs, List.Forall₂ Grammar.Plain.StandsFor cs vs) ∨ vs = [] ∨
        ∃ s position, vs = [.node (NodeOf.literal "text" s position)]) := by
    refine ⟨_, _, rfl, ?_⟩
    unfold Grammar.Plain.childNodes
    split
    · exact .inl ⟨_, Grammar.Plain.standsFor_chunkNodes _ _ _⟩
    · split
      · exact .inr (.inl rfl)
      · exact .inr (.inr ⟨_, _, rfl⟩)
  have hclosed : ∀ v ∈ vs, v.Closed := by
    have hwhole := readTree_closed settings text
    rw [hroot] at hwhole
    obtain ⟨-, hchildren, -⟩ := Value.closed_node.mp hwhole
    exact Value.closed_list.mp hchildren
  rcases hcases with ⟨cs, hstands⟩ | rfl | ⟨s, p, rfl⟩
  · obtain ⟨ss, hpieces⟩ := Grammar.Plain.pieces_chunks hstands hclosed
    exact ⟨vs, ss, position, hroot, hpieces⟩
  · exact ⟨[], [], position, hroot, .nil⟩
  · exact ⟨_, [s], position, hroot, .cons ⟨hclosed _ (by simp), fun hf => literals_literal hf _ _ _⟩ .nil⟩

end TextPipeline.Pipeline

namespace TextPipeline.FrontMatter.Block

variable {read : Reader} {b : Block} {e : Fault}

/-- A block holds a mapping; a block without data holds an empty one. -/
def Holds (read : Reader) (b : Block) (matter : Entries) : Prop :=
  read b.format b.raw = .ok .none ∧ matter = [] ∨ read b.format b.raw = .ok (.dict matter)

/-- Whether a fault says that a block is malformed. -/
def SaysMalformed (e : Fault) : Prop := (e.isKind "YAMLError" || e.isKind "TOMLDecodeError") = true

/-- The reader ends with a fault that does not say that the block is malformed, or with one that says so
and has no text. -/
def Breaks (read : Reader) (b : Block) (e : Fault) : Prop :=
  read b.format b.raw = .error e ∧ ¬SaysMalformed e ∨
    ∃ malformed, read b.format b.raw = .error malformed ∧ SaysMalformed malformed ∧
      malformed.render = .error e

theorem not_holds_of_error (h : read b.format b.raw = .error e) (matter : Entries) :
    ¬b.Holds read matter := by
  rintro (⟨hnone, -⟩ | hdict)
  · cases h.symm.trans hnone
  · cases h.symm.trans hdict

/-- A block that breaks the reader holds nothing. -/
theorem Breaks.not_holds (h : b.Breaks read e) (matter : Entries) : ¬b.Holds read matter := by
  rcases h with ⟨hread, -⟩ | ⟨_, hread, -⟩
  · exact not_holds_of_error hread matter
  · exact not_holds_of_error hread matter

theorem Breaks.unique {e' : Fault} (h : b.Breaks read e) (h' : b.Breaks read e') : e = e' := by
  rcases h with ⟨hread, hnot⟩ | ⟨m, hread, hsays, hunread⟩ <;>
    rcases h' with ⟨hread', hnot'⟩ | ⟨m', hread', hsays', hunread'⟩ <;>
    obtain rfl := Except.error.inj (hread.symm.trans hread')
  · rfl
  · exact absurd hsays' hnot
  · exact absurd hsays hnot'
  · exact Except.error.inj (hunread.symm.trans hunread')

end TextPipeline.FrontMatter.Block

namespace TextPipeline.Standard

open TextPipeline.Tree TextPipeline.Pipeline TextPipeline.Plugin TextPipeline.FrontMatter

/-- A text that is just a block, but perhaps for line breaks at its end. -/
def Fills (b : Block) (s : String) : Prop := s = b.whole ∨ s = dropBreaks b.whole

instance (b : Block) (s : String) : Decidable (Fills b s) :=
  inferInstanceAs (Decidable (s = b.whole ∨ s = dropBreaks b.whole))

/-- Children of which the first becomes a literal of a block if it is just the block. -/
inductive Marks (b : Block) : List Value → List Value → Prop
  | nil : Marks b [] []
  | kept {n : Node} {s : String} {vs : List Value} : Piece n s → ¬ Fills b s →
    Marks b (.node n :: vs) (.node n :: vs)
  | marked {n : Node} {s : String} {vs : List Value} : Piece n s → Fills b s →
    Marks b (.node n :: vs) (.node (NodeOf.literal b.format.name s n.position) :: vs)

theorem marks_of_pieces {vs : List Value} {ss : List String} (h : Pieces vs ss) (b : Block) :
    ∃ vs', Marks b vs vs' ∧ Pieces vs' ss := by
  cases h with
  | nil => exact ⟨[], .nil, .nil⟩
  | @cons n s vs ss hn hvs =>
    by_cases hfills : Fills b s
    · exact ⟨_, .marked hn hfills, .cons (hn.literal _) hvs⟩
    · exact ⟨_, .kept hn hfills, .cons hn hvs⟩

theorem markBlock_cons {n : Node} {s : String} (hn : Piece n s) (b : Block) {sight : Sight}
    (hs : sight.Clear) (vs : List Value) (position : Value) :
    markBlock b sight (.node (NodeOf.parent "root" (.node n :: vs) position)) =
      .ok (.node (NodeOf.parent "root" (.node
        (if Fills b s then NodeOf.literal b.format.name s n.position else n) :: vs) position)) := by
  have hplace (fault : Fault) : (Value.int 0).asPlace "list" (vs.length + 1) fault = .ok 0 := by
    simp [Value.asPlace, Value.asPlace.number, Value.place?, Option.filter]
  have hget : (Value.list (.node n :: vs)).getItem (.int 0) = .ok (.node n) := by
    simp only [Value.getItem, Value.getItem.nth, List.length_cons, hplace]
    rfl
  have hset (m : Node) : (Value.list (.node n :: vs)).setItem (.int 0) (.node m) =
      .ok (.list (.node m :: vs)) := by
    simp only [Value.setItem, List.length_cons, hplace]
    rfl
  have htext : firstText (.node n) = .ok s := hn.textOf
  have hmade : NodeOf.make (.str b.format.name) .none (.str s) .none n.position =
      .ok (NodeOf.literal b.format.name s n.position) := by
    cases b.format <;> rfl
  have hsome : (Value.list (.node n :: vs)).truthy = true := rfl
  unfold markBlock
  simp only [Tree.asNode, NodeOf.parent, hsome, hget, hs _ hn.closed, htext, hset, hmade, bind, Except.bind,
    pure, Except.pure, if_true]
  by_cases hfills : Fills b s
  · have htest : (s == b.whole || s == dropBreaks b.whole) = true := by simpa [Fills] using hfills
    rw [if_pos htest, if_pos hfills]
  · have htest : ¬ (s == b.whole || s == dropBreaks b.whole) = true := by simpa [Fills] using hfills
    rw [if_neg htest, if_neg hfills]

section Marks

variable {b : Block} {vs vs' : List Value} (h : Marks b vs vs')
include h

/-- What was marked once is marked. -/
theorem Marks.again : Marks b vs' vs' := by
  cases h with
  | nil => exact .nil
  | kept hn hfills => exact .kept hn hfills
  | marked hn hfills => exact .marked (hn.literal b.format.name) hfills

theorem Marks.markBlock {sight : Sight} (hs : sight.Clear) (position : Value) :
    markBlock b sight (.node (NodeOf.parent "root" vs position)) =
      .ok (.node (NodeOf.parent "root" vs' position)) := by
  cases h with
  | nil => rfl
  | kept hn hfills => rw [markBlock_cons hn b hs, if_neg hfills]
  | marked hn hfills => rw [markBlock_cons hn b hs, if_pos hfills]

end Marks

/-- A file can always be reported on. -/
theorem report_ok (f : File) (severity : Severity) (reason origin : String) :
    ∃ d : Diagnostic, d.fatal = File.fatality severity ∧
      ∀ ns, File.report { f with namespaces := ns } severity (.str reason) .none (.str origin) =
        .ok ({ f with namespaces := ns, messages := f.messages ++ [d] }, d) := by
  obtain ⟨parts, hparts⟩ : ∃ parts, DiagnosticOf.splitOrigin (.str origin) = .ok parts := by
    unfold DiagnosticOf.splitOrigin
    split
    · exact ⟨_, rfl⟩
    · dsimp only
      split <;> exact ⟨_, rfl⟩
  refine ⟨⟨.str reason, File.fatality severity, f.path, .none, .none, .none, parts.1, parts.2⟩, rfl,
    fun ns => ?_⟩
  rw [File.report, DiagnosticOf.make, hparts]
  rfl

theorem effects_report (severity : Severity) (reason origin : String) (tree : Value) (f : File) :
    ∃ d : Diagnostic, d.fatal = File.fatality severity ∧
      ∀ ns, Effects [report severity reason origin] tree { f with namespaces := ns }
        (if severity == .error then some (.diagnostic d) else none) tree
        { f with namespaces := ns, messages := f.messages ++ [d] } := by
  obtain ⟨d, hfatal, hd⟩ := report_ok f severity reason origin
  refine ⟨d, hfatal, fun ns => ?_⟩
  cases hseverity : severity == .error with
  | true =>
    refine .fail (c := ⟨tree, { f with namespaces := ns, messages := f.messages ++ [d] },
      [File.failure { f with namespaces := ns, messages := f.messages ++ [d] } (.str reason)],
      some (.diagnostic d)⟩) (fun _ _ => ?_) rfl
    simp only [hd, hseverity, if_true]
  | false =>
    refine .change (c := ⟨tree, { f with namespaces := ns, messages := f.messages ++ [d] }, [], none⟩)
      (fun _ _ => ?_) rfl (.nil _ _)
    simp only [hd, hseverity, Bool.false_eq_true, if_false]

/-- Steps that mark at most the first piece of a text, and find nothing more to do when they come again. -/
structure Settles (acts : List Act) (found : Option Block) (f f' : File) (fault : Option Fault)
    (vs vs' : List Value) (ss : List String) (position : Value) : Prop where
  effects : ∀ ns, Effects acts (.node (NodeOf.parent "root" vs position)) { f with namespaces := ns } fault
    (.node (NodeOf.parent "root" vs' position)) { f' with namespaces := ns }
  pieces : Pieces vs' ss
  marks : vs' = vs ∨ ∃ b ∈ found, Marks b vs vs'
  again : fault = none → ∀ g : File, g.data = f'.data →
    ∃ g', Effects acts (.node (NodeOf.parent "root" vs' position)) g none
      (.node (NodeOf.parent "root" vs' position)) g' ∧ g'.data = g.data

section Settles

variable {read : Reader} {b : Block} {strict : Bool} {vs vs' : List Value} {ss : List String}
  {position : Value}

/-- A mapping goes to the data of the file. -/
theorem effects_mapping {key : Value} {matter : Entries} (hread : b.Holds read matter) (h : Marks b vs vs')
    (f : File) :
    Effects (frontMatterActs read b strict key) (.node (NodeOf.parent "root" vs position)) f none
      (.node (NodeOf.parent "root" vs' position)) { f with data := f.data.insert key (.dict matter) } := by
  obtain ⟨g, hg⟩ : ∃ g : File, g = { f with data := f.data.insert key (.dict matter) } := ⟨_, rfl⟩
  rw [← hg]
  unfold frontMatterActs
  rcases hread with ⟨hread, rfl⟩ | hread
  all_goals
    rw [hread]
    refine .change (c := ⟨.node (NodeOf.parent "root" vs position), g, [], none⟩) (fun _ _ => by rw [hg]) rfl
      (.log (.change (c := ⟨.node (NodeOf.parent "root" vs' position), g, [], none⟩) (fun s hs => ?_) rfl
        (.nil _ _)))
    simp only [h.markBlock hs]

theorem settles_report (h : Pieces vs ss) (severity : Severity) {reason origin : String}
    {found : Option Block} (f : File) (position : Value) :
    ∃ d : Diagnostic, d.fatal = File.fatality severity ∧
      Settles [report severity reason origin] found f { f with messages := f.messages ++ [d] }
        (if severity == .error then some (.diagnostic d) else none) vs vs ss position := by
  obtain ⟨d, hfatal, hd⟩ := effects_report severity reason origin (.node (NodeOf.parent "root" vs position)) f
  refine ⟨d, hfatal, ⟨hd, h, .inl rfl, fun hnone g _ => ?_⟩⟩
  obtain ⟨d', -, hd'⟩ := effects_report severity reason origin (.node (NodeOf.parent "root" vs position)) g
  refine ⟨{ g with messages := g.messages ++ [d'] }, ?_, rfl⟩
  cases hseverity : severity == .error with
  | true => simp [hseverity] at hnone
  | false => simpa [hseverity] using hd' g.namespaces

theorem settles_mapping (h : Pieces vs ss) {matter : Entries} (hread : b.Holds read matter) (strict : Bool)
    (key : String) (f : File) (position : Value) :
    ∃ vs', Marks b vs vs' ∧ Settles (frontMatterActs read b strict (.str key)) (some b) f
      { f with data := f.data.insert (.str key) (.dict matter) } none vs vs' ss position := by
  obtain ⟨vs', hmarks, hpieces⟩ := marks_of_pieces h b
  refine ⟨vs', hmarks, ⟨fun ns => effects_mapping hread hmarks _, hpieces, .inr ⟨b, rfl, hmarks⟩,
    fun _ g hg => ?_⟩⟩
  -- The second time, the same mapping goes to where it already is.
  refine ⟨_, effects_mapping hread hmarks.again g, ?_⟩
  rw [hg]
  exact Entries.insert_of_find? (Entries.find?_insert_self (Value.equals_str_iff.mpr rfl) _ _)

/-- What comes of a block for the file and the pieces of the text. -/
inductive Comes (read : Reader) (b : Block) (strict : Bool) (key : String) (f : File) (vs : List Value) :
    Option Fault → File → List Value → Prop
  | mapping {matter : Entries} {vs' : List Value} : b.Holds read matter → Marks b vs vs' →
    Comes read b strict key f vs none { f with data := f.data.insert (.str key) (.dict matter) } vs'
  | warning {d : Diagnostic} : (∀ matter, ¬b.Holds read matter) → (∀ e, ¬b.Breaks read e) →
    d.fatal = .bool false → Comes read b strict key f vs none { f with messages := f.messages ++ [d] } vs
  | failure {d : Diagnostic} : strict = true →
    Comes read b strict key f vs (some (.diagnostic d)) { f with messages := f.messages ++ [d] } vs
  | raised {e : Fault} : b.Breaks read e → Comes read b strict key f vs (some e) f vs

theorem comes_of_block (h : Pieces vs ss) (read : Reader) (b : Block) (strict : Bool) (key : String) (f : File)
    (position : Value) :
    ∃ fault f' vs', Comes read b strict key f vs fault f' vs' ∧
      Settles (frontMatterActs read b strict (.str key)) (some b) f f' fault vs vs' ss position := by
  have hmapping {matter : Entries} (hread : b.Holds read matter) :
      ∃ fault f' vs', Comes read b strict key f vs fault f' vs' ∧
        Settles (frontMatterActs read b strict (.str key)) (some b) f f' fault vs vs' ss position := by
    obtain ⟨vs', hmarks, hsettles⟩ := settles_mapping h hread strict key f position
    exact ⟨none, _, vs', .mapping hread hmarks, hsettles⟩
  -- Whatever is read but a mapping or nothing at all is reported.
  have hstray {v : Value} (hread : read b.format b.raw = .ok v) (hnone : v ≠ .none)
      (hdict : ∀ matter, v ≠ .dict matter) {reason origin : String}
      (hacts : frontMatterActs read b strict (.str key) = [report .warning reason origin]) :
      ∃ fault f' vs', Comes read b strict key f vs fault f' vs' ∧
        Settles (frontMatterActs read b strict (.str key)) (some b) f f' fault vs vs' ss position := by
    rw [hacts]
    obtain ⟨d, hfatal, hsettles⟩ := settles_report h .warning f position
    refine ⟨_, _, vs, .warning (fun matter hholds => ?_) (fun e hbreaks => ?_) hfatal, hsettles⟩
    · rcases hholds with ⟨hnone', -⟩ | hdict'
      · exact hnone (Except.ok.inj (hread.symm.trans hnone'))
      · exact hdict matter (Except.ok.inj (hread.symm.trans hdict'))
    · rcases hbreaks with ⟨herror, -⟩ | ⟨malformed, herror, -⟩
      · cases hread.symm.trans herror
      · cases hread.symm.trans herror
  cases hread : read b.format b.raw with
  | ok v =>
    cases v with
    | none => exact hmapping (.inl ⟨hread, rfl⟩)
    | mapping kind matter =>
      cases kind with
      | dict => exact hmapping (.inr hread)
      | other => exact hstray hread (by simp) (by simp) (by unfold frontMatterActs; rw [hread])
    | _ => exact hstray hread (by simp) (by simp) (by unfold frontMatterActs; rw [hread])
  | error e =>
    unfold frontMatterActs
    rw [hread]
    dsimp only
    split
    · rename_i hmalformed
      cases hsaid : e.render with
      | error unread =>
        exact ⟨some unread, f, vs, .raised (.inr ⟨e, hread, hmalformed, hsaid⟩), fun ns => .raise unread [] _ _,
          h, .inl rfl, by simp⟩
      | ok said =>
      have hsays {e' : Fault} (hbreaks : b.Breaks read e') : False := by
        rcases hbreaks with ⟨herror, hnot⟩ | ⟨malformed, herror, -, hunread⟩
        · obtain rfl := Except.error.inj (hread.symm.trans herror)
          exact hnot hmalformed
        · obtain rfl := Except.error.inj (hread.symm.trans herror)
          cases hsaid.symm.trans hunread
      cases strict with
      | true =>
        obtain ⟨d, -, hsettles⟩ := settles_report h .error f position
        exact ⟨_, _, vs, .failure rfl, hsettles⟩
      | false =>
        obtain ⟨d, hfatal, hsettles⟩ := settles_report h .warning f position
        exact ⟨_, _, vs, .warning (Block.not_holds_of_error hread) (fun _ => hsays) hfatal, hsettles⟩
    · rename_i hbreaks
      exact ⟨some e, f, vs, .raised (.inl ⟨hread, hbreaks⟩), fun ns => .raise e [] _ _, h, .inl rfl, by simp⟩

/-- Where no block is found, nothing is done. -/
theorem settles_none (h : Pieces vs ss) (f : File) (position : Value) :
    Settles [] none f f none vs vs ss position :=
  ⟨fun _ => .nil _ _, h, .inl rfl, fun _ g _ => ⟨g, .nil _ _, rfl⟩⟩

theorem settles_found (h : Pieces vs ss) (read : Reader) (found : Option Block) (strict : Bool) (key : String)
    (f : File) (position : Value) :
    ∃ fault vs' f', Settles ((found.map fun b => frontMatterActs read b strict (.str key)).getD []) found f f'
      fault vs vs' ss position := by
  cases found with
  | none => exact ⟨none, vs, f, settles_none h f position⟩
  | some b =>
    obtain ⟨fault, f', vs', -, hsettles⟩ := comes_of_block h read b strict key f position
    exact ⟨fault, vs', f', hsettles⟩

end Settles

theorem readFrontMatter_eq {read : Reader} {f : File} {text : String} {formats : List Value} {found : Option Block}
    (htext : f.text = .ok text) (hfind : find text formats = .ok found) (strict : Bool) (key : Value) :
    readFrontMatter read formats strict key f =
      (found.map fun b => frontMatterActs read b strict key).getD [] := by
  have hfound : (do FrontMatter.find (← f.text) formats) = .ok found := by
    rw [htext]
    exact hfind
  rw [readFrontMatter, hfound]
  cases found <;> rfl

/-- The formats that options ask for. -/
def askedFormats (options : Value) : List Value :=
  match options with
  | .mapping _ entries =>
    match Entries.get? entries "formats" with
    | some (.list items) | some (.tuple items) => items
    | _ => standardFormats
  | _ => standardFormats

/-- The transformer that reads front matter. -/
def readingMatter (read : Reader) (formats : List Format) (strict : Bool) (key : String) : Transformer :=
  .mk "frontmatter.<locals>.parse_front_matter" .plain fun _ file =>
    readFrontMatter read (names formats) strict (.str key) file

theorem adds_readingMatter (read : Reader) :
    Adds (frontMatterPlugin read).attacher (frontMatterFor read) := fun _ _ => rfl

theorem areFormats_names {formats : List Format} (h : formats ≠ []) :
    areFormats (.list (names formats)) = .ok true := by
  have hall : ∀ item ∈ names formats, item.among standardFormats = true := by
    intro item hitem
    obtain ⟨format, -, rfl⟩ := List.mem_map.mp hitem
    cases format <;> simp [standardFormats, Value.among, Value.equals_str, Format.name]
  have hsome : (names formats).isEmpty = false := by
    simpa [names] using h
  simp [areFormats, hsome, List.all_eq_true.mpr hall]

theorem names_of_areFormats {items : List Value} (h : areFormats (.list items) = .ok true) :
    ∃ formats, items = names formats := by
  have hall : ∀ item ∈ items, item.among standardFormats = true := by
    have := Except.ok.inj h
    simp only [Bool.and_eq_true, List.all_eq_true] at this
    exact this.2
  clear h
  induction items with
  | nil => exact ⟨[], rfl⟩
  | cons item items ih =>
    obtain ⟨hitem, hitems⟩ := List.forall_mem_cons.mp hall
    obtain ⟨formats, rfl⟩ := ih hitems
    simp only [standardFormats, Value.among, List.any_cons, List.any_nil, Bool.or_false, Bool.or_eq_true,
      Value.equals_str_iff] at hitem
    rcases hitem with rfl | rfl
    · exact ⟨.yaml :: formats, rfl⟩
    · exact ⟨.toml :: formats, rfl⟩

theorem closed_names (formats : List Format) : (Value.list (names formats)).Closed := by
  refine Value.closed_list.mpr fun v hv => ?_
  obtain ⟨format, -, rfl⟩ := List.mem_map.mp hv
  exact fun _ => rfl

/-- Options that ask for formats: they list them, or they say nothing of formats, which asks for all. -/
inductive Asks (formats : List Format) : Value → Prop
  | absent : names formats = standardFormats → Asks formats .none
  | silent {kind : MappingKind} {entries : Entries} : Entries.get? entries "formats" = none →
    names formats = standardFormats → Asks formats (.mapping kind entries)
  | list {kind : MappingKind} {entries : Entries} :
    Entries.get? entries "formats" = some (.list (names formats)) → Asks formats (.mapping kind entries)
  | tuple {kind : MappingKind} {entries : Entries} :
    Entries.get? entries "formats" = some (.tuple (names formats)) → Asks formats (.mapping kind entries)

section Asks

variable {formats : List Format} {given : Value} (h : Asks formats given)
include h

theorem Asks.askedFormats : askedFormats given = names formats := by
  unfold Standard.askedFormats
  cases h with
  | absent hstandard => exact hstandard.symm
  | silent hget hstandard =>
    dsimp only
    rw [hget, hstandard]
  | list hget =>
    dsimp only
    rw [hget]
  | tuple hget =>
    dsimp only
    rw [hget]

/-- What was given for the formats is given on as the list of them. -/
theorem Asks.givenFor : givenFor given (.str "formats") (.list (names formats)) = .list (names formats) := by
  have hfind (entries : Entries) : Entries.find? entries (.str "formats") =
      Entries.get? entries "formats" := rfl
  unfold Pipeline.givenFor
  cases h with
  | absent => rfl
  | silent hget =>
    dsimp only
    rw [hfind, hget]
  | list hget =>
    dsimp only
    rw [hfind, hget]
  | tuple hget =>
    dsimp only
    rw [hfind, hget]

end Asks

/-- The options with which front matter is read: which formats, whether strictly, and where the data go. -/
structure Resolved (given : Value) (resolved : Entries) (formats : List Format) (strict : Bool)
    (key : String) : Prop where
  list : resolved.get? "formats" = some (.list (names formats))
  flag : resolved.get? "strict" = some (.bool strict)
  field : resolved.get? "key" = some (.str key)
  asks : Asks formats given
  closed : given.Closed → Value.ClosedEntries resolved

/-- A list of formats is given as a list or as a fixed sequence. -/
theorem of_validate_formats {p : Parameter} {w v : Value} (htype : p.type = .list)
    (hvalidator : p.validator = some areFormats) (h : p.validate w = .ok v) :
    ∃ formats, v = .list (names formats) ∧ (w = .list (names formats) ∨ w = .tuple (names formats)) := by
  obtain ⟨items, rfl, hgiven⟩ := of_validate_list htype h
  obtain ⟨-, -, haccepted⟩ := of_validate h
  obtain ⟨formats, rfl⟩ := names_of_areFormats (haccepted _ hvalidator)
  exact ⟨formats, rfl, hgiven⟩

/-- The value of the option for the formats, which says what was asked for. -/
theorem asks_of_option {p : Parameter} (htype : p.type = .list) (hvalidator : p.validator = some areFormats)
    (hdefault : p.copied = .ok (.list standardFormats)) {given : Value} {entries : Entries}
    (hgiven : Metadata.Gives given entries) {v : Value}
    (hv : entries.get? "formats" = none ∧ p.copied = .ok v ∨
      ∃ w, entries.get? "formats" = some w ∧ p.validate w = .ok v) :
    ∃ formats, v = .list (names formats) ∧ Asks formats given := by
  rcases hv with ⟨hget, hcopied⟩ | ⟨w, hget, hw⟩
  · refine ⟨[.yaml, .toml], Except.ok.inj (hcopied.symm.trans hdefault), ?_⟩
    cases hgiven with
    | none => exact .absent rfl
    | mapping => exact .silent hget rfl
  · obtain ⟨formats, rfl, hlisted⟩ := of_validate_formats htype hvalidator hw
    refine ⟨formats, rfl, ?_⟩
    cases hgiven with
    | none => cases hget
    | mapping =>
      rcases hlisted with rfl | rfl
      · exact .list hget
      · exact .tuple hget

theorem of_resolveOptions_frontMatter {α : Type} {m : Metadata α}
    (hm : m.parameters = frontMatterAbout.parameters) {given : Value} {resolved : Entries}
    (h : (m.resolveOptions given).result.1 = .ok resolved) :
    ∃ formats strict key, Resolved given resolved formats strict key := by
  obtain ⟨entries, hgiven, hall, -⟩ := Metadata.resolveOptions_ok_iff.mp h
  rw [hm] at hall
  obtain ⟨v₁, hv₁, hall⟩ := Metadata.of_resolveAll_cons rfl hall
  obtain ⟨v₂, hv₂, hall⟩ := Metadata.of_resolveAll_cons rfl hall
  obtain ⟨v₃, hv₃, hall⟩ := Metadata.of_resolveAll_cons rfl hall
  obtain rfl := Except.ok.inj hall
  obtain ⟨formats, rfl, hasks⟩ := asks_of_option rfl rfl rfl hgiven hv₁
  obtain ⟨strict, rfl⟩ : ∃ strict, v₂ = .bool strict := by
    rcases hv₂ with ⟨-, hcopied⟩ | ⟨w, -, hw⟩
    · exact ⟨false, (Except.ok.inj hcopied).symm⟩
    · exact of_validate_bool rfl hw
  obtain ⟨key, rfl⟩ : ∃ key, v₃ = .str key := by
    rcases hv₃ with ⟨-, hcopied⟩ | ⟨w, -, hw⟩
    · exact ⟨_, (Except.ok.inj hcopied).symm⟩
    · exact of_validate_str rfl hw
  refine ⟨formats, strict, key, ?_, ?_, ?_, hasks, ?_⟩
  · rw [Entries.get?_put_ne (by decide), Entries.get?_put_ne (by decide)]
    exact Entries.find?_insert_self (Value.equals_str_iff.mpr rfl) _ _
  · rw [Entries.get?_put_ne (by decide)]
    exact Entries.find?_insert_self (Value.equals_str_iff.mpr rfl) _ _
  · exact Entries.find?_insert_self (Value.equals_str_iff.mpr rfl) _ _
  · intro hclosed
    have hentries : Value.ClosedEntries entries := by
      cases hgiven with
      | none => simp [Value.ClosedEntries]
      | mapping => exact Value.closed_mapping.mp hclosed
    have hstr (s : String) : (Value.str s).Closed := fun _ => rfl
    exact ((hentries.insert (hstr _) (closed_names formats)).insert (hstr _) fun _ => rfl).insert (hstr _)
      (hstr key)

theorem of_frontMatterFor {read : Reader} {given : Value} {t : Transformer}
    (h : (frontMatterFor read given).result.1 = .ok t) :
    ∃ formats strict key, t = readingMatter read formats strict key ∧ askedFormats given = names formats := by
  obtain ⟨o, records, hresolve⟩ : ∃ o records, (frontMatterAbout.resolveOptions given).result =
    (o, records) := ⟨_, _, rfl⟩
  cases o with
  | error e =>
    rw [frontMatterFor, Logged.result_bind_error hresolve] at h
    cases h
  | ok resolved =>
    obtain ⟨formats, strict, key, hresolved⟩ :=
      of_resolveOptions_frontMatter (m := frontMatterAbout) rfl (congrArg Prod.fst hresolve)
    rw [frontMatterFor, Logged.result_bind_ok hresolve] at h
    simp only [hresolved.list, hresolved.flag, hresolved.field] at h
    exact ⟨formats, strict, key, (Except.ok.inj h).symm, hresolved.asks.askedFormats⟩

/-- Options are given on with the formats that they ask for. -/
theorem askedFormats_keepGiven {options : Value} {resolved : Entries} {formats : List Format}
    {strict : Bool} {key : String} (h : Resolved options resolved formats strict key) :
    askedFormats (.dict (keepGiven options resolved)) = names formats := by
  unfold askedFormats
  dsimp only
  rw [get?_keepGiven, h.list, Option.map_some, h.asks.givenFor]

/-- A root whose first child was just a block, and has become a literal of the format of the block with the
text and in the place of what it was. -/
def Marked (b : Block) (root root' : Node) : Prop :=
  ∃ (first : Node) (s : String) (rest : List Value), root.children = .list (.node first :: rest) ∧
    Tree.textOf (.node first) = .ok s ∧ Fills b s ∧
    root' = { root with
      children := .list (.node (NodeOf.literal b.format.name s first.position) :: rest) }

theorem Marks.marked_root {b : Block} {vs vs' : List Value} (h : Marks b vs vs') (position : Value) :
    vs' = vs ∨ Marked b (NodeOf.parent "root" vs position) (NodeOf.parent "root" vs' position) := by
  cases h with
  | nil => exact .inl rfl
  | kept => exact .inl rfl
  | marked hn hfills => exact .inr ⟨_, _, _, rfl, hn.textOf, hfills, rfl⟩

/-- A plugin that was given options reads the formats for which they ask. -/
theorem askedFormats_given {read : Reader} {x : World} {options : Value} (hclosed : options.Closed)
    {resolved : Entries}
    (hresolve : ((frontMatterPlugin read).resolveOptions (x.display options)).result.1 = .ok resolved)
    {formats : List Format}
    (hformats : askedFormats (x.display (.dict (keepGiven (x.store.content options) resolved))) =
      names formats) : askedFormats options = names formats := by
  have hcontent : x.store.content options = options := by
    cases options <;> first | rfl | exact absurd hclosed (Value.not_closed_handle _)
  rw [World.display_closed hclosed] at hresolve
  obtain ⟨formats', strict, key, hresolved⟩ := of_resolveOptions_frontMatter rfl hresolve
  rw [hcontent, World.display_closed (keepGiven_closed hclosed (hresolved.closed hclosed)),
    askedFormats_keepGiven hresolved] at hformats
  rw [hresolved.asks.askedFormats, hformats]

section Reading

variable {read : Reader} {host : Host} {w u : World} {settings value : Value} {id : Nat} {f f' : File}
  {text : String} {formats : List Format} {found : Option Block} {strict : Bool} {key : String}
  {fault : Option Fault} {vs vs' : List Value} {ss : List String} {position : Value}
  (hfind : find text (names formats) = .ok found)
  (hroot : readTree settings text = .node (NodeOf.parent "root" vs position))
  (hsettles : Settles ((found.map fun b => frontMatterActs read b strict (.str key)).getD []) found f f'
    fault vs vs' ss position)
include hfind hroot hsettles

theorem Settles.makes (htext : f.text = .ok text) (ns : List (Value × Entries)) :
    Makes (readingMatter read formats strict key) (readTree settings text) { f with namespaces := ns } fault
      (.node (NodeOf.parent "root" vs' position)) { f' with namespaces := ns } := by
  have hfound : File.text { f with namespaces := ns } = .ok text := htext
  refine ⟨rfl, ?_⟩
  show Effects (readFrontMatter read (names formats) strict (.str key) { f with namespaces := ns }) _ _ _ _ _
  rw [readFrontMatter_eq hfound hfind, hroot]
  exact hsettles.effects ns

omit hroot in
theorem Settles.makes_again (hnone : fault = none) {g : File} (htext : g.text = .ok text)
    (hdata : g.data = f'.data) :
    ∃ g', Makes (readingMatter read formats strict key) (.node (NodeOf.parent "root" vs' position)) g none
      (.node (NodeOf.parent "root" vs' position)) g' ∧ g'.data = g.data := by
  obtain ⟨g', heffects, hsame⟩ := hsettles.again hnone g hdata
  refine ⟨g', ⟨rfl, ?_⟩, hsame⟩
  show Effects (readFrontMatter read (names formats) strict (.str key) g) _ _ _ _ _
  rw [readFrontMatter_eq htext hfind]
  exact heffects

omit hfind in
theorem Settles.closed : (Value.node (NodeOf.parent "root" vs' position)).Closed := by
  have hread := readTree_closed settings text
  rw [hroot] at hread
  obtain ⟨htype, -, hnone, hdata, hposition⟩ := Value.closed_node.mp hread
  exact Value.closed_node.mpr ⟨htype, Value.closed_list.mpr hsettles.pieces.closed, hnone, hdata, hposition⟩

/-- Reading front matter leaves the text of a document. -/
theorem Settles.result_processOn (hhost : host.HasPlain) (hset : Verbatim settings)
    (hready : w.Readied u (readingMatter read formats strict key)) (hvalue : w.Gives value id f)
    (htext : f.text = .ok text) (hpieces : Pieces vs ss) (hnone : fault = none) :
    ∃ v ns, (processOn host (.handle (.processor w.processors.length)) value settings none none).result u =
        (.ok (.str text), v) ∧ v.processors = u.processors ∧
      v.store.cells = w.store.cells ++ [.node (NodeOf.parent "root" vs' position)] ∧
      v.files[id]? = some { f' with namespaces := ns, contents := .str text } := by
  have hwhole : String.ofList (ss.flatMap String.toList) = text := by
    have hread := compile_readTree settings text
    rw [hroot, hpieces.compile] at hread
    exact Except.ok.inj hread
  have hcompile := hsettles.pieces.compile position
  rw [hwhole] at hcompile
  subst hnone
  exact hready.result_processOn hhost hset hvalue htext (hsettles.makes hfind hroot htext)
    (hsettles.closed hroot) hcompile

end Reading

/-- Front matter is read without a change of the text: the tree is the one that was read, or its first
child was just the block that was found and has become a literal with the same text in the same place; and
another run of the processor on its own result changes neither the tree nor the data of the file. -/
theorem frontMatter_keeps_text {read : Reader} {host : Host} {w v : World} {settings options value out : Value}
    {id : Nat} {f : File} {text : String} (hhost : host.HasPlain)
    (hoffer : w.Offers host (frontMatterPlugin read).name (frontMatterPlugin read)) (hset : Verbatim settings)
    (hvalue : w.Gives value id f) (htext : f.text = .ok text)
    (hok : (processWith host (frontMatterPlugin read).name options value settings).result w = (.ok out, v)) :
    out = .str text ∧ ∃ formats found root root',
      (options.Closed → askedFormats options = names formats) ∧ find text (names formats) = .ok found ∧
      readTree settings text = .node root ∧ v.store.cells = w.store.cells ++ [.node root'] ∧
      (root' = root ∨ ∃ b ∈ found, Marked b root root') ∧
      ∃ x g g', (runOn host (.handle (.processor w.processors.length))
          (.handle (.node w.store.cells.length)) (.handle (.file id)) none none).result v =
          (.ok (.handle (.node w.store.cells.length)), x) ∧ x.store.cells = v.store.cells ∧
        v.files[id]? = some g ∧ x.files[id]? = some g' ∧ g'.data = g.data := by
  obtain ⟨x, u, resolved, t, hresolve, hbuild, hready, hrun⟩ :=
    (adds_readingMatter read).of_processWith hoffer hok
  obtain ⟨formats, strict, key, rfl, hformats⟩ := of_frontMatterFor hbuild
  obtain ⟨found, hfind⟩ := find_names text formats
  obtain ⟨vs, ss, position, hroot, hpieces⟩ := pieces_readTree settings text
  obtain ⟨fault, vs', f', hsettles⟩ := settles_found hpieces read found strict key f position
  cases fault with
  | some e =>
    -- The pipeline would have failed with the transformer.
    obtain ⟨v', hv'⟩ := hready.result_processOn_error hhost hset hvalue htext fun ns =>
      ⟨_, _, hsettles.makes hfind hroot htext ns⟩
    cases hrun.symm.trans hv'
  | none =>
    obtain ⟨v', ns, hv', hprocessors, hcells, hfile⟩ :=
      hsettles.result_processOn hfind hroot hhost hset hready hvalue htext hpieces rfl
    obtain ⟨hout, rfl⟩ := Prod.mk.inj (hrun.symm.trans hv')
    refine ⟨Except.ok.inj hout, formats, found, _, _, fun hc => askedFormats_given hc hresolve hformats,
      hfind, hroot, hcells, ?_, ?_⟩
    · rcases hsettles.marks with rfl | ⟨b, hb, hmarks⟩
      · exact .inl rfl
      · rcases hmarks.marked_root position with rfl | hmarked
        · exact .inl rfl
        · exact .inr ⟨b, hb, hmarked⟩
    · -- The file has the same text again, and therefore the same block is found in it.
      obtain ⟨q, hq, hruns⟩ := hready.processor
      obtain ⟨g', hagain, hdata⟩ := hsettles.makes_again hfind rfl
        (g := { f' with namespaces := ns, contents := .str text }) rfl rfl
      have hn : v.store.cells[w.store.cells.length]? =
          some (.node (NodeOf.parent "root" vs' position)) := by
        rw [hcells]
        exact List.getElem?_concat_length
      obtain ⟨x, hx, hrevised⟩ := result_runOn host (by rw [hprocessors]; exact hq) hruns hn hfile hagain
        (hsettles.closed hroot)
      obtain ⟨ns', hns'⟩ := holding_eq g' q.name (.handle (.node w.store.cells.length))
      refine ⟨x, _, { g' with namespaces := ns' }, hx, ?_, hfile, ?_, hdata⟩
      · rw [hrevised.cells, set_of_getElem? hn]
      · rw [hrevised.file hfile, hns']

/-- The options that the plugin takes by itself. -/
def standardOptions : Entries :=
  [(.str "formats", .list standardFormats), (.str "strict", .bool false), (.str "key", .str "matter")]

theorem resolveOptions_standard {α : Type} {m : Metadata α}
    (hm : m.parameters = frontMatterAbout.parameters) :
    (m.resolveOptions (.dict standardOptions)).result = (.ok standardOptions, []) := by
  refine Metadata.result_resolveOptions ?_ ?_
  · rw [hm]
    refine List.forall_mem_cons.mpr ⟨⟨.list standardFormats, ?_, ?_⟩, List.forall_mem_cons.mpr
      ⟨⟨.bool false, ?_, rfl⟩, List.forall_mem_singleton.mpr ⟨.str "matter", ?_, validate_str rfl rfl ?_⟩⟩⟩
    · simp [standardOptions, Entries.get?, Entries.find?, Value.equals_str]
    · refine validate_texts ["yaml", "toml"] rfl rfl rfl (.inl rfl) ?_
      rintro accepts ⟨⟩
      exact areFormats_names (show [Format.yaml, .toml] ≠ [] by decide)
    · simp [standardOptions, Entries.get?, Entries.find?, Value.equals_str]
    · simp [standardOptions, Entries.get?, Entries.find?, Value.equals_str]
    · rintro accepts ⟨⟩
  · rw [hm]
    simp [standardOptions, frontMatterAbout, Value.among, Value.equals_str]

/-- A document that is nothing but a block without data. -/
theorem frontMatter_keeps_text_block :
    let read : Reader := fun _ _ => .ok .none
    let host := Host.nested .standard (pluginsWith read) (.ok []) 0
    ∃ v, (processWith host "frontmatter" (.dict standardOptions)
        (.str "---\n---\n") (.dict [(.str "paragraphs", .bool false)])).result {} =
        (.ok (.str "---\n---\n"), v) ∧
      ∃ formats found root root', askedFormats (.dict standardOptions) = names formats ∧
        find "---\n---\n" (names formats) = .ok found ∧
        readTree (.dict [(.str "paragraphs", .bool false)]) "---\n---\n" = .node root ∧
        v.store.cells = [.node root'] ∧ (root' = root ∨ ∃ b ∈ found, Marked b root root') ∧
        ∃ x g g', (runOn host (.handle (.processor 0)) (.handle (.node 0)) (.handle (.file 0)) none
            none).result v = (.ok (.handle (.node 0)), x) ∧
          x.store.cells = v.store.cells ∧ v.files[0]? = some g ∧ x.files[0]? = some g' ∧
          g'.data = g.data := by
  intro read host
  have hhost : host.HasPlain := ⟨rfl, rfl⟩
  have hoffer : World.Offers {} host "frontmatter" (frontMatterPlugin read) := rfl
  have hset := verbatim_paragraphs false
  have hvalue : World.Gives {} (.str "---\n---\n") 0 _ := .text "---\n---\n"
  have hfind : find "---\n---\n" (names [.yaml, .toml]) = .ok (some ⟨.yaml, "", "---\n---\n"⟩) := rfl
  have hholds : (⟨.yaml, "", "---\n---\n"⟩ : Block).Holds read [] := .inl ⟨rfl, rfl⟩
  have hclosed : (Value.dict standardOptions).Closed := by
    intro shown
    simp [standardOptions, standardFormats, Value.revealWith, Value.revealEntries, Value.revealList]
  have hkept : keepGiven (.dict standardOptions) standardOptions = standardOptions := by
    simp [standardOptions, keepGiven, Entries.find?, Value.equals_str]
  have hbuild : (frontMatterFor read (.dict standardOptions)).result.1 =
      .ok (readingMatter read [.yaml, .toml] false "matter") := by
    rw [frontMatterFor, Logged.result_bind_ok (resolveOptions_standard rfl)]
    simp [standardOptions, Entries.get?, Entries.find?, Value.equals_str, Value.ofOption, Value.truthy]
    rfl
  have hresolve := congrArg Prod.fst (resolveOptions_standard (m := frontMatterPlugin read) rfl)
  obtain ⟨vs, ss, position, hroot, hpieces⟩ :=
    pieces_readTree (.dict [(.str "paragraphs", .bool false)]) "---\n---\n"
  obtain ⟨vs', -, hsettles⟩ := settles_mapping hpieces hholds false "matter"
    { File.empty with contents := .str "---\n---\n" } position
  obtain ⟨u, hready, hrun⟩ := (adds_readingMatter read).result_processWith hoffer hclosed hresolve
    (by rw [hkept]; exact hclosed) (by rw [hkept]; exact hbuild) (.str "---\n---\n")
    (.dict [(.str "paragraphs", .bool false)])
  have hsettles : Settles ((Option.map (fun b => frontMatterActs read b false (.str "matter"))
    (some ⟨.yaml, "", "---\n---\n"⟩)).getD []) _ _ _ _ _ _ _ _ := hsettles
  obtain ⟨v, ns, hv, -⟩ := Settles.result_processOn hfind hroot hsettles hhost hset hready hvalue rfl hpieces
    rfl
  obtain ⟨-, formats, found, root, root', hformats, hrest⟩ :=
    frontMatter_keeps_text hhost hoffer hset hvalue rfl (hrun.trans hv)
  exact ⟨v, hrun.trans hv, formats, found, root, root', hformats hclosed, hrest⟩

end TextPipeline.Standard
