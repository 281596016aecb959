import TextPipeline.Proofs.Receiving
import TextPipeline.Proofs.Paragraphs
import TextPipeline.Proofs.Walking

/-! Plain text that goes through a pipeline without plugins comes out as it went in: the literals of
its tree join to it, and nothing in between changes the tree. -/

namespace TextPipeline

/-- Lists with nothing between them. -/
theorem nil_intercalate {α : Type} (ls : List (List α)) : [].intercalate ls = ls.flatten := by
  induction ls with
  | nil => rfl
  | cons l ls ih =>
    cases ls with
    | nil => simp
    | cons l' ls => rw [List.intercalate_cons_cons, ih, List.append_nil]; rfl

theorem Tree.joinTexts_str (joiner : String) (texts : List String) :
    Tree.joinTexts joiner (texts.map .str) = .ok (String.intercalate joiner texts) := by
  have hall {f : Value → Outcome String} (hf : ∀ s, f (.str s) = .ok s) :
      (texts.map .str).mapM f = .ok texts := by
    induction texts with
    | nil => rfl
    | cons s texts ih => rw [List.map_cons, List.mapM_cons, ih, hf]; rfl
  rw [Tree.joinTexts, hall fun _ => rfl]
  rfl

theorem Tree.joinTexts_map_str (texts : List String) :
    Tree.joinTexts "" (texts.map .str) = .ok (String.ofList (texts.flatMap String.toList)) := by
  have hjoin : String.intercalate "" texts = String.ofList (texts.flatMap String.toList) := by
    apply String.toList_injective
    rw [String.toList_intercalate, String.toList_empty, nil_intercalate, String.toList_ofList]
    rfl
  rw [joinTexts_str, hjoin]

namespace Grammar.Plain

open TextPipeline.Tree

/-- The types of literals of plain text. -/
def literalTypes : List String := ["text", "whitespace"]

theorem areTrees_chunkNodes (locator : Option Locator) (start : Nat) (cs : List Chunk) :
    AreTrees (chunkNodes locator start cs) := by
  induction cs generalizing start with
  | nil => trivial
  | cons c cs ih =>
    refine ⟨?_, ih _⟩
    cases c with
    | paragraph t => exact ⟨rfl, trivial⟩
    | separator w => exact rfl

theorem isTree_parse (paragraphs positions : Bool) (s : List Char) :
    IsTree (.node (parse paragraphs positions s)) := by
  show AreTrees (childNodes paragraphs _ s)
  unfold childNodes
  split
  · exact areTrees_chunkNodes _ _ _
  · split
    · trivial
    · exact ⟨rfl, trivial⟩

/-- The value of a literal that is not left out. -/
def kept (skip : List Value) (n : Node) : Outcome (List Value) := do
  if n.isLiteral then return if (← n.type.asKey).among skip then [] else [n.value]
  else return []

/-- The values that are kept of the nodes that a walk comes to. -/
def keptOf (skip : List Value) (visits : List Visit) : Outcome (List (List Value)) :=
  visits.mapM fun visit => do kept skip (← asNode visit.node)

theorem keptOf_cons {skip : List Value} {n : Node} {parent : Option Node} {index : Option Nat}
    {vs : List Visit} {x : List Value} {ys : List (List Value)} (hn : kept skip n = .ok x)
    (hv : keptOf skip vs = .ok ys) : keptOf skip (⟨.node n, parent, index⟩ :: vs) = .ok (x :: ys) := by
  have hone : (do kept skip (← asNode (Value.node n))) = .ok x := hn
  rw [keptOf] at hv ⊢
  rw [List.mapM_cons, hone, hv]
  rfl

section

variable {skip : List Value} (hskip : ∀ type ∈ literalTypes, (Value.str type).among skip = false)
include hskip

theorem kept_literal {type : String} (ht : type ∈ literalTypes) (s : String) (position : Value) :
    kept skip (NodeOf.literal type s position) = .ok [.str s] := by
  show Except.ok (if (Value.str type).among skip then [] else [Value.str s]) = _
  rw [hskip type ht]
  rfl

/-- The literals of chunks hold their texts. -/
theorem keptOf_chunkNodes (locator : Option Locator) (start : Nat) (parent : Node) (i : Nat)
    (cs : List Chunk) :
    ∃ made, keptOf skip (preorderAll parent i (chunkNodes locator start cs)) = .ok made ∧
      made.flatten = cs.map fun c => .str (String.ofList c.text) := by
  induction cs generalizing start i with
  | nil => exact ⟨[], rfl, rfl⟩
  | cons c cs ih =>
    obtain ⟨made, hmade, hflatten⟩ := ih (start + c.text.length) (i + 1)
    cases c with
    | paragraph t =>
      refine ⟨[] :: [.str (String.ofList t)] :: made, ?_, by rw [List.map_cons, ← hflatten]; rfl⟩
      exact keptOf_cons rfl (keptOf_cons (kept_literal hskip (by decide) _ _) hmade)
    | separator w =>
      refine ⟨[.str (String.ofList w)] :: made, ?_, by rw [List.map_cons, ← hflatten]; rfl⟩
      exact keptOf_cons (kept_literal hskip (by decide) _ _) hmade

/-- The text of the tree of a text is the text. -/
theorem compile_parse (paragraphs positions : Bool) (s : List Char) :
    compile skip (.node (parse paragraphs positions s)) = .ok (String.ofList s) := by
  obtain ⟨locator, hlocator⟩ : ∃ locator, locator =
    if positions then some (Locator.ofText s) else none := ⟨_, rfl⟩
  obtain ⟨made, texts, hmade, hflatten, htexts⟩ : ∃ (made : List (List Value))
      (pieces : List String),
      keptOf skip (preorderAll (parse paragraphs positions s) 0 (childNodes paragraphs locator s)) =
        .ok made ∧ made.flatten = pieces.map .str ∧ pieces.flatMap String.toList = s := by
    unfold childNodes
    split
    · obtain ⟨made, hmade, hflatten⟩ := keptOf_chunkNodes hskip locator 0
        (parse paragraphs positions s) 0 (chunks s)
      refine ⟨made, (chunks s).map fun c => String.ofList c.text, hmade, ?_, ?_⟩
      · rw [hflatten, List.map_map]
        rfl
      · rw [List.flatMap_map]
        simpa [texts] using texts_chunks s
    · split
      · rename_i hs
        exact ⟨[], [], rfl, rfl, (List.isEmpty_iff.mp hs).symm⟩
      · exact ⟨[[.str (String.ofList s)]], [String.ofList s],
          keptOf_cons (kept_literal hskip (by decide) _ _) rfl, rfl, by simp⟩
  have hall : keptOf skip (preorder none none (.node (parse paragraphs positions s))) =
      .ok ([] :: made) := by
    rw [hlocator] at hmade
    exact keptOf_cons rfl hmade
  have hcompile : compile skip (.node (parse paragraphs positions s)) = (do
      joinTexts "" (← collect (kept skip) (.node (parse paragraphs positions s)))) := rfl
  rw [hcompile, collect_preorder (isTree_parse paragraphs positions s)]
  rw [keptOf] at hall
  rw [hall]
  show joinTexts "" ([] :: made).flatten = _
  rw [List.flatten_cons, List.nil_append, hflatten, joinTexts_map_str, htexts]

end

end Grammar.Plain

theorem Value.equals_str (s t : String) : (Value.str s).equals (.str t) = (s == t) := by
  simp [equals, equalsWith]

namespace Settings

/-- Settings from the fields of a mapping. -/
def own (kind : SettingsKind) (entries : Entries) : List (String × Value) :=
  ((fields kind).map (·.name)).filterMap fun name => (Entries.get? entries name).map fun v => (name, v)

theorem mapM_of_str {values : List Value} (h : ∀ v ∈ values, ∃ s, v = .str s)
    {f : Value → Outcome String} (hf : ∀ s, f (.str s) = .ok s) :
    ∃ texts, values.mapM f = .ok texts := by
  induction values with
  | nil => exact ⟨[], rfl⟩
  | cons v values ih =>
    obtain ⟨⟨s, rfl⟩, hvalues⟩ := List.forall_mem_cons.mp h
    obtain ⟨texts, htexts⟩ := ih hvalues
    exact ⟨s :: texts, by rw [List.mapM_cons, htexts, hf]; rfl⟩

theorem joinSorted_str {values : List Value} (h : ∀ v ∈ values, ∃ s, v = .str s) :
    ∃ s, joinSorted values = .ok s := by
  have hall (f : Value → Outcome String) (hf : ∀ s, f (.str s) = .ok s) :
      ∃ s, (do return commaSeparated (sortTexts (← values.mapM f))) = Except.ok s := by
    obtain ⟨texts, htexts⟩ := mapM_of_str h hf
    exact ⟨commaSeparated (sortTexts texts), by rw [htexts]; rfl⟩
  exact hall _ fun _ => rfl

/-- A mapping from names stands for the settings that its fields make; those that there are not are
ignored. -/
theorem coerce_dict {entries : Entries} (h : ∀ e ∈ entries, ∃ name, e.1 = .str name)
    {kind : SettingsKind} {v : Value} (hv : make kind (own kind entries) = .ok v) (component : String)
    (counterpart : List SettingsKind) :
    ∃ records, (coerce (.dict entries) kind component counterpart).result = (.ok v, records) := by
  have hkeys : ∀ v ∈ (entries.map (·.1)).filter fun k =>
      !k.among (((fields kind).map (·.name)).map .str), ∃ s, v = .str s := by
    intro v hv
    obtain ⟨e, he, rfl⟩ := List.mem_map.mp (List.mem_of_mem_filter hv)
    exact h e he
  obtain ⟨s, hs⟩ := joinSorted_str hkeys
  unfold coerce
  rw [own] at hv
  dsimp only
  rw [hv, hs]
  split
  · exact ⟨_, rfl⟩
  · exact ⟨_, rfl⟩

/-- What the settings that were given say of a field of the compiler of plain text. -/
def asked (given : Value) (field : String) (default : Value) : Value :=
  match given with
  | .dict entries => (Entries.get? entries field).getD default
  | .settings .plainCompiler fields => get fields field
  | _ => default

/-- Whether the settings that were given ask for something of the parser of plain text, which does it
unless told otherwise. -/
def reads (given : Value) (field : String) : Bool :=
  match given with
  | .dict entries => ((Entries.get? entries field).getD (.bool true)).truthy
  | .settings .plainParser fields => (get fields field).truthy
  | _ => true

/-- What both ends of the grammar of plain text take for settings. -/
inductive SuitsText : Value → Prop
  | absent : SuitsText .none
  | mapping {entries : Entries} : (∀ e ∈ entries, ∃ name, e.1 = .str name) → SuitsText (.dict entries)
  | parser (fields : List (String × Value)) : SuitsText (.settings .plainParser fields)
  | compiler (fields : List (String × Value)) : SuitsText (.settings .plainCompiler fields)

theorem SuitsText.isCallable {given : Value} (h : SuitsText given) : given.isCallable = false := by
  cases h <;> rfl

theorem SuitsText.parser_configure {given : Value} (h : SuitsText given) :
    ∃ settings records, (Grammar.plainParser.configure given).result = (.ok settings, records) ∧
      (field settings "paragraphs").truthy = reads given "paragraphs" ∧
      (field settings "positions").truthy = reads given "positions" := by
  cases h with
  | absent => exact ⟨_, _, rfl, rfl, rfl⟩
  | @mapping entries h =>
    obtain ⟨settings, hs, hparagraphs, hpositions⟩ : ∃ settings,
        make .plainParser (own .plainParser entries) = .ok settings ∧
        (field settings "paragraphs").truthy = reads (.dict entries) "paragraphs" ∧
        (field settings "positions").truthy = reads (.dict entries) "positions" := by
      simp only [own, fields, positionsField, described, List.map_cons, List.map_nil,
        List.filterMap_cons, List.filterMap_nil, reads]
      cases Entries.get? entries "positions" <;> cases Entries.get? entries "paragraphs" <;>
        exact ⟨_, rfl, rfl, rfl⟩
    obtain ⟨records, hr⟩ := coerce_dict h hs "PlainTextParser" [.compiler]
    exact ⟨settings, records, hr, hparagraphs, hpositions⟩
  | parser fields => exact ⟨_, _, rfl, rfl, rfl⟩
  | compiler fields => exact ⟨_, _, rfl, rfl, rfl⟩

theorem SuitsText.compiler_configure {given : Value} (h : SuitsText given) :
    ∃ settings records, (Grammar.plainCompiler.configure given).result = (.ok settings, records) ∧
      field settings "skip_types" = asked given "skip_types" (.tuple []) ∧
      field settings "ensure_final_newline" = asked given "ensure_final_newline" (.bool false) := by
  cases h with
  | absent => exact ⟨_, _, rfl, rfl, rfl⟩
  | @mapping entries h =>
    obtain ⟨settings, hs, hskip, hfinal⟩ : ∃ settings,
        make .plainCompiler (own .plainCompiler entries) = .ok settings ∧
        field settings "skip_types" = asked (.dict entries) "skip_types" (.tuple []) ∧
        field settings "ensure_final_newline" =
          asked (.dict entries) "ensure_final_newline" (.bool false) := by
      simp only [own, fields, finalNewlineField, described, List.map_cons, List.map_nil,
        List.filterMap_cons, List.filterMap_nil, asked]
      cases Entries.get? entries "ensure_final_newline" <;> cases Entries.get? entries "skip_types" <;>
        exact ⟨_, rfl, rfl, rfl⟩
    obtain ⟨records, hr⟩ := coerce_dict h hs "PlainTextCompiler" [.parser]
    exact ⟨settings, records, hr, hskip, hfinal⟩
  | parser fields => exact ⟨_, _, rfl, rfl, rfl⟩
  | compiler fields => exact ⟨_, _, rfl, rfl, rfl⟩

end Settings

theorem Logged.result_bind_ok {α β : Type} {x : Logged α} {f : α → Logged β} {a : α}
    {records : List LogRecord} (h : x.result = (.ok a, records)) :
    (x >>= f).result = StateT.run (ExceptT.run (f a)) records := by
  have hrun : StateT.run (ExceptT.run x) [] = (.ok a, records) := h
  rw [Logged.result, ExceptT.run_bind, StateT.run_bind, hrun]
  rfl

theorem Logged.result_bind_error {α β : Type} {x : Logged α} {f : α → Logged β} {e : Fault}
    {records : List LogRecord} (h : x.result = (.error e, records)) :
    (x >>= f).result = (.error e, records) := by
  have hrun : StateT.run (ExceptT.run x) [] = (.error e, records) := h
  rw [Logged.result, ExceptT.run_bind, StateT.run_bind, hrun]
  rfl

theorem Logged.lift_ok_bind {α β : Type} (a : α) (f : α → Logged β) :
    ((liftM (Except.ok a : Outcome α) : Logged α) >>= f) = f a := rfl

namespace Pipeline

open TextPipeline.Grammar TextPipeline.Settings
open TextPipeline.Pipeline.Action

/-- Types of literals to leave out, none of which is one of plain text. -/
def LeavesText (skip : Value) : Prop :=
  ∃ items, skip.iterate = .ok items ∧ (∀ v ∈ items, v.isKey = true) ∧
    ∀ type ∈ Plain.literalTypes, (Value.str type).among items = false

/-- A text with a line feed at its end, if one is wanted and it has some other end. -/
def lineEnded (wanted : Bool) (text : String) : String :=
  if wanted && text != "" && text.toList.getLast? != some '\n' then text ++ "\n" else text

theorem mapM_asKey {items : List Value} (h : ∀ v ∈ items, v.isKey = true) :
    items.mapM Value.asKey = .ok items := by
  induction items with
  | nil => rfl
  | cons v items ih =>
    obtain ⟨hv, hitems⟩ := List.forall_mem_cons.mp h
    rw [List.mapM_cons, ih hitems, Value.asKey, if_pos hv]
    rfl

/-- The tree that a text is read into as the settings ask. -/
def readTree (given : Value) (text : String) : Value :=
  .node (Plain.parse (reads given "paragraphs") (reads given "positions") text.toList)

/-- The parser of plain text reads every text. -/
theorem plainParser_run {given : Value} (h : SuitsText given) {f : File} {text : String}
    (htext : f.text = .ok text) (data : Option Value) :
    ∃ settings records, (plainParser.run given f data).result =
      (.ok (settings, readTree given text), records) := by
  obtain ⟨settings, records, hsettings, hparagraphs, hpositions⟩ := h.parser_configure
  refine ⟨settings, ?_⟩
  rw [Parser.run, Logged.result_bind_ok hsettings, readTree, ← hparagraphs, ← hpositions]
  unfold plainParser
  simp only [htext]
  cases (field settings "paragraphs").truthy <;> exact ⟨_, rfl⟩

/-- The compiler of plain text, if it can be told which types to skip and there is a text of the tree. -/
theorem plainCompiler_compiles {given : Value} (h : SuitsText given) {skip : List Value}
    (hskip : (asked given "skip_types" (.tuple [])).iterate = .ok skip) (hkeys : ∀ v ∈ skip, v.isKey = true)
    {tree : Value} {text : String} (htext : Plain.compile skip tree = .ok text) (data : Option Value) :
    ∃ settings records, (plainCompiler.run given tree data).result =
      (.ok (settings, .str (lineEnded (asked given "ensure_final_newline" (.bool false)).truthy text)),
        records) := by
  obtain ⟨settings, records, hsettings, hskipped, hfinal⟩ := h.compiler_configure
  refine ⟨settings, ?_⟩
  rw [Compiler.run, Logged.result_bind_ok hsettings]
  unfold plainCompiler
  simp only [hskipped, hskip, Logged.lift_ok_bind, mapM_asKey hkeys, htext]
  rw [lineEnded, ← hfinal]
  exact ⟨_, rfl⟩

theorem result_ofLogged {α : Type} {x : Logged α} {o : Outcome α} {records : List LogRecord}
    (h : x.result = (o, records)) (w : World) :
    (ofLogged x).result w = (o, { w with events := w.events ++ records.map .log }) := by
  unfold ofLogged
  rw [h]
  cases o <;> rfl

/-- The parts of a world on which the stages of a pipeline depend, after a tree that is kept and a file
have changed. -/
structure World.Revised (w v : World) (n : Nat) (tree : Value) (id : Nat) (f : File) : Prop where
  processors : v.processors = w.processors
  cells : v.store.cells = w.store.cells.set n tree
  files : v.files = w.files.set id f

theorem set_of_getElem? {α : Type} {xs : List α} {i : Nat} {a : α} (h : xs[i]? = some a) :
    xs.set i a = xs := by
  obtain ⟨hi, rfl⟩ := List.getElem?_eq_some_iff.mp h
  exact List.set_getElem_self hi

namespace World.Revised

variable {w v u : World} {n id : Nat} {tree tree' old : Value} {f f' g : File}

theorem trans (h : w.Revised v n tree id f) (h' : v.Revised u n tree' id f') :
    w.Revised u n tree' id f' := by
  refine ⟨h'.processors.trans h.processors, ?_, ?_⟩
  · rw [h'.cells, h.cells, List.set_set]
  · rw [h'.files, h.files, List.set_set]

theorem cell (h : w.Revised v n tree id f) (hn : w.store.cells[n]? = some old) :
    v.store.cells[n]? = some tree := by
  rw [h.cells, List.getElem?_set_self (List.getElem?_eq_some_iff.mp hn).1]

theorem file (h : w.Revised v n tree id f) (hf : w.files[id]? = some g) : v.files[id]? = some f := by
  rw [h.files, List.getElem?_set_self (List.getElem?_eq_some_iff.mp hf).1]

/-- Nothing has changed. -/
theorem of_same (hn : w.store.cells[n]? = some tree) (hf : w.files[id]? = some f)
    (hp : v.processors = w.processors) (hs : v.store = w.store) (hfiles : v.files = w.files) :
    w.Revised v n tree id f := by
  refine ⟨hp, ?_, ?_⟩
  · rw [hs, set_of_getElem? hn]
  · rw [hfiles, set_of_getElem? hf]

end World.Revised

/-- What a chain makes of a tree that is kept and of a file. The chain comes to the tree in its place,
unless it ends with a fault. -/
def Revises (host : Host) (steps : List Transformer) (n : Nat) (tree : Value) (id : Nat) (f : File)
    (fault : Option Fault) (tree' : Value) (f' : File) : Prop :=
  ∀ w : World, w.store.cells[n]? = some tree → w.files[id]? = some f →
    ∃ v, (runChain host steps none (.handle (.node n)) id).result w =
        (settlement fault (.handle (.node n)), v) ∧ w.Revised v n tree' id f'

/-- A processor whose ends are those of plain text. -/
structure Processor.HasEnds (q : Processor) : Prop where
  parser : q.parser = .callable plainParser.name
  compiler : q.compiler = .callable plainCompiler.name

/-- A processor of plain text without transformers. -/
structure Processor.IsPlain (q : Processor) : Prop where
  parser : q.parser = .callable plainParser.name
  compiler : q.compiler = .callable plainCompiler.name
  idle : q.registry.transformers = []

/-- Ends of pipelines under whose names the grammar of plain text is found. -/
structure Host.HasPlain (host : Host) : Prop where
  parser : host.endpoints.parser? plainParser.name = some plainParser
  compiler : host.endpoints.compiler? plainCompiler.name = some plainCompiler

/-- The tree of a text refers to nothing that is kept elsewhere. -/
theorem revealWith_parse (shown : Handle → Value) (paragraphs positions : Bool) (s : List Char) :
    (Value.node (Plain.parse paragraphs positions s)).revealWith shown =
      .node (Plain.parse paragraphs positions s) := by
  obtain ⟨locator, hlocator⟩ : ∃ locator, locator =
    if positions then some (Locator.ofText s) else none := ⟨_, rfl⟩
  have hlocated (start stop : Nat) :
      (Plain.located locator start stop).revealWith shown = Plain.located locator start stop := by
    cases locator <;> rfl
  have hchunks (start : Nat) (cs : List Plain.Chunk) :
      Value.revealList shown (Plain.chunkNodes locator start cs) =
        Plain.chunkNodes locator start cs := by
    induction cs generalizing start with
    | nil => rfl
    | cons c cs ih =>
      cases c <;>
        simp [Plain.chunkNodes, Plain.chunkNode, NodeOf.parent, NodeOf.literal, Value.revealList,
          Value.revealWith, hlocated, ih]
  have hchildren : Value.revealList shown (Plain.childNodes paragraphs locator s) =
      Plain.childNodes paragraphs locator s := by
    unfold Plain.childNodes
    split
    · exact hchunks _ _
    · split
      · rfl
      · simp [NodeOf.literal, Value.revealList, Value.revealWith, hlocated]
  simp [Plain.parse, NodeOf.parent, Value.revealWith, ← hlocator, hchildren, hlocated]

/-- A node that refers to nothing else shows as what is kept of it. -/
theorem World.reveal_node {w : World} {id : Nat} {v : Value} (h : w.store.cells[id]? = some v)
    (hwhole : ∀ shown, v.revealWith shown = v) : w.reveal (.handle (.node id)) = v := by
  have hcontent : w.store.content? (.node id) = some v := h
  have hwithin (n : Nat) : w.store.revealWithin n v = v := by
    cases n with
    | zero => rfl
    | succ n => rw [Store.revealWithin, hwhole]
  rw [reveal, Store.reveal, Store.revealWithin, Value.revealWith, hcontent]
  exact hwithin _

section Stages

variable {host : Host} {w : World} {p id : Nat} {q : Processor} {settings : Value}

/-- A chain that must not wait has the result with which it ends. -/
theorem result_runChain {steps : List Transformer} {tree final : Value} {error : Option Fault} {u : World}
    (hrun : u.runs[w.runs.length]? = some (w.nextRun steps none tree id))
    (hdrive : (drive host w.runs.length .kept true steps 0 tree).result (w.starting steps none tree id) =
      (.ok (), u.ended w.runs.length error final)) :
    (runChain host steps none tree id).result w =
      (settlement error final, u.ended w.runs.length error final) := by
  have hstart : (start host steps none tree id .kept).result w =
      (.ok w.runs.length, u.ended w.runs.length error final) := by
    rw [result_start, hdrive]
    rfl
  have hended : (u.ended w.runs.length error final).runs[w.runs.length]? =
      some (Run.keep error final (w.nextRun steps none tree id)) := by
    rw [World.runs_ended, List.getElem?_modify_eq, hrun]
    rfl
  rw [runChain, result_bind_ok hstart, result_bind_ok (result_run hended)]
  cases error <;> rfl

/-- A chain without steps leaves its tree and the file. -/
theorem revises_nil (host : Host) (n : Nat) (tree : Value) (id : Nat) (f : File) :
    Revises host [] n tree id f none tree f := by
  intro w hn hf
  obtain ⟨u, hu⟩ : ∃ u, u = (w.starting [] none (.handle (.node n)) id).told
    (.log ⟨.debug, Transform.logger, "Transformer chain complete"⟩) := ⟨_, rfl⟩
  have hrun : u.runs[w.runs.length]? = some (w.nextRun [] none (.handle (.node n)) id) := by
    rw [hu]
    exact List.getElem?_concat_length
  refine ⟨_, result_runChain hrun ?_, .of_same hn hf ?_ ?_ ?_⟩
  · rw [drive, result_bind_ok (result_log _ _ _ _), ← hu]
    exact result_deliver_kept none _ hrun
  all_goals rw [hu]; rfl

theorem result_file {f : File} (hf : w.files[id]? = some f) : (file id).result w = (.ok f, w) := by
  show (Except.ok (w.files.getD id File.empty), w) = _
  rw [List.getD_eq_getElem?_getD, hf]
  rfl

theorem result_reveal (v : Value) (w : World) : (reveal v).result w = (.ok (w.reveal v), w) := rfl

theorem result_require (fault : Fault) (w : World) : (require true fault).result w = (.ok (), w) := rfl

theorem World.reveal_whole (hwhole : ∀ shown, settings.revealWith shown = settings) (w : World) :
    w.reveal settings = settings :=
  hwhole _

theorem result_readWith (hhost : host.HasPlain) (hq : w.processors[p]? = some q) (hends : q.HasEnds)
    (hsettings : SuitsText settings) (hwhole : ∀ shown, settings.revealWith shown = settings) {f : File}
    {text : String} (htext : f.text = .ok text) :
    ∃ es, (readWith host p q.parser f settings).result w =
      (.ok (readTree settings text), { w with events := w.events ++ es }) := by
  obtain ⟨made, records, hrun⟩ := plainParser_run hsettings htext (some (w.reveal q.data))
  refine ⟨records.map .log, ?_⟩
  have hparser : host.endpoints.parserOf? q.parser = some plainParser := by
    rw [hends.parser]
    exact hhost.parser
  have hreveal : (reveal settings).result w = (.ok settings, w) := by
    rw [result_reveal, World.reveal_whole hwhole]
  have hdata : (dataFor plainParser p).result w = (.ok (w.reveal q.data), w) := by
    rw [dataFor, result_bind_ok (result_processor hq)]
    rfl
  unfold readWith
  rw [hparser]
  dsimp only
  rw [result_bind_ok hreveal, result_bind_ok hdata, result_bind_ok (result_ofLogged hrun w)]
  rfl

/-- A text is read into its tree, which is kept, and stored in the file. -/
theorem result_parseFile (hhost : host.HasPlain) (hq : w.processors[p]? = some q) (hends : q.HasEnds)
    (hsettings : SuitsText settings) (hwhole : ∀ shown, settings.revealWith shown = settings) {f : File}
    (hf : w.files[id]? = some f) {text : String} (htext : f.text = .ok text) :
    ∃ v, (parseFile host p id settings).result w = (.ok (.handle (.node w.store.cells.length)), v) ∧
      v.processors = w.processors ∧ v.store.cells = w.store.cells ++ [readTree settings text] ∧
      v.files = w.files.set id (File.holding f q.name (.handle (.node w.store.cells.length))) := by
  obtain ⟨u, hu⟩ : ∃ u, u = w.told (.log ⟨.debug, logger, "Parsing " ++ f.label ++ " with processor '" ++
    q.name ++ "'"⟩) := ⟨_, rfl⟩
  obtain ⟨es, hread⟩ := result_readWith (w := u) hhost (by rw [hu]; exact hq) hends hsettings hwhole htext
  obtain ⟨x, hx⟩ : ∃ x, x = { u with
    store := ⟨u.store.cells ++ [readTree settings text]⟩
    events := u.events ++ es } := ⟨_, rfl⟩
  have hshare : (share (readTree settings text)).result { u with events := u.events ++ es } =
      (.ok (.handle (.node w.store.cells.length)), x) := by
    rw [hx, hu]
    rfl
  have hnode : (readTree settings text).isNode = true := rfl
  obtain ⟨tree, htree⟩ : ∃ tree, tree = Value.handle (.node w.store.cells.length) := ⟨_, rfl⟩
  rw [← htree] at hshare ⊢
  refine ⟨(x.storing id q.name tree).told (.produced q.name id tree), ?_, ?_⟩
  · have hnone : q.parser.isNone = false := by
      rw [hends.parser]
      rfl
    rw [parseFile, result_bind_ok (result_processor hq), hnone, Bool.not_false,
      result_bind_ok (result_require _ w), result_bind_ok (result_file hf),
      result_bind_ok (result_log _ _ _ w), ← hu, result_bind_ok hread, hnode,
      result_bind_ok (result_require _ _), result_bind_ok hshare, result_bind_ok (result_storeTree q.named id _ x)]
    rfl
  · subst hx hu
    refine ⟨rfl, rfl, ?_⟩
    show w.files.set id (File.holding (w.files.getD id File.empty) q.name tree) = _
    rw [List.getD_eq_getElem?_getD, hf]
    rfl

/-- The tree that a chain leaves is stored again. -/
theorem result_runTree (hq : w.processors[p]? = some q) {n : Nat} {tree tree' : Value} {f f' : File}
    (hn : w.store.cells[n]? = some tree) (hf : w.files[id]? = some f)
    (h : Revises host q.registry.transformers n tree id f none tree' f') :
    ∃ v, (runTree host p (.handle (.node n)) id none).result w = (.ok (.handle (.node n)), v) ∧
      w.Revised v n tree' id (File.holding f' q.name (.handle (.node n))) := by
  obtain ⟨v, hv, hrevised⟩ := h w hn hf
  have hstart : (startTree id q.name (.handle (.node n))).result w = (.ok (.handle (.node n)), w) := rfl
  refine ⟨(v.storing id q.name (.handle (.node n))).told (.produced q.name id (.handle (.node n))), ?_,
    hrevised.trans ⟨rfl, (set_of_getElem? (hrevised.cell hn)).symm, ?_⟩⟩
  · rw [runTree, result_bind_ok (result_processor hq), result_bind_ok hstart, result_bind_ok hv,
      result_bind_ok (result_storeTree q.named id _ v)]
    rfl
  · show v.files.set id (File.holding (v.files.getD id File.empty) q.name _) = _
    rw [List.getD_eq_getElem?_getD, hrevised.file hf]
    rfl

theorem result_runTree_error (hq : w.processors[p]? = some q) {n : Nat} {tree tree' : Value} {f f' : File}
    (hn : w.store.cells[n]? = some tree) (hf : w.files[id]? = some f) {fault : Fault}
    (h : Revises host q.registry.transformers n tree id f (some fault) tree' f') :
    ∃ v, (runTree host p (.handle (.node n)) id none).result w = (.error fault, v) := by
  obtain ⟨v, hv, -⟩ := h w hn hf
  have hstart : (startTree id q.name (.handle (.node n))).result w = (.ok (.handle (.node n)), w) := rfl
  refine ⟨v, ?_⟩
  rw [runTree, result_bind_ok (result_processor hq), result_bind_ok hstart]
  exact result_bind_error hv

/-- A tree that is kept is written as its text. -/
theorem result_stringify (id : Nat) (hhost : host.HasPlain) (hq : w.processors[p]? = some q)
    (hends : q.HasEnds) (hsettings : SuitsText settings)
    (hwhole : ∀ shown, settings.revealWith shown = settings) {skip : List Value}
    (hskip : (asked settings "skip_types" (.tuple [])).iterate = .ok skip)
    (hkeys : ∀ v ∈ skip, v.isKey = true) {n : Nat} {tree : Value} {text : String}
    (hn : w.store.cells[n]? = some tree) (hclosed : ∀ shown, tree.revealWith shown = tree)
    (htext : Plain.compile skip tree = .ok text) :
    ∃ v, (stringify host p (.handle (.node n)) (.handle (.file id)) settings).result w =
        (.ok (.str (lineEnded (asked settings "ensure_final_newline" (.bool false)).truthy text)), v) ∧
      v.processors = w.processors ∧ v.store = w.store ∧ v.files = w.files := by
  obtain ⟨made, records, hrun⟩ := plainCompiler_compiles hsettings hskip hkeys htext
    (some (w.display q.data))
  obtain ⟨u, hu⟩ : ∃ u, u = w.told (.log ⟨.debug, logger, "Compiling " ++
    (w.files.getD id File.empty).label ++ " with processor '" ++ q.name ++ "'"⟩) := ⟨_, rfl⟩
  have hcompiler : host.endpoints.compilerOf? q.compiler = some plainCompiler := by
    rw [hends.compiler]
    exact hhost.compiler
  have hreveal : (reveal settings).result u = (.ok settings, u) := by
    rw [result_reveal, World.reveal_whole hwhole]
  have htree : (reveal (.handle (.node n))).result u = (.ok tree, u) := by
    rw [result_reveal, World.reveal_node (w := u) (by rw [hu]; exact hn) hclosed]
  have hdisplay : u.display q.data = w.display q.data := by
    rw [hu]
    rfl
  have hwrite : (writeWith host q.compiler q.data (.handle (.node n)) settings).result u =
      (.ok (.str (lineEnded (asked settings "ensure_final_newline" (.bool false)).truthy text)),
        { u with events := u.events ++ records.map .log }) := by
    rw [← hdisplay] at hrun
    unfold writeWith
    rw [hcompiler]
    dsimp only
    rw [result_get_bind, result_bind_ok hreveal, result_bind_ok htree,
      result_bind_ok (result_ofLogged hrun u)]
    rfl
  refine ⟨{ u with events := u.events ++ records.map .log }, ?_, ?_⟩
  · have hnone : q.compiler.isNone = false := by
      rw [hends.compiler]
      rfl
    have hfile : (toFile (.handle (.file id))).result w = (.ok id, w) := rfl
    have hstart : (startTree id q.name (.handle (.node n))).result w = (.ok (.handle (.node n)), w) := rfl
    have hlabel : (file id).result w = (.ok (w.files.getD id File.empty), w) := rfl
    rw [stringify, result_bind_ok (result_processor hq), hnone, Bool.not_false,
      result_bind_ok (result_require _ w), result_bind_ok hfile, result_bind_ok hstart,
      result_bind_ok hlabel, result_bind_ok (result_log _ _ _ w), ← hu, result_bind_ok hwrite]
    rfl
  · rw [hu]
    exact ⟨rfl, rfl, rfl⟩

theorem result_requireEndpoints (hq : w.processors[p]? = some q) (hends : q.HasEnds) :
    (requireEndpoints p).result w = (.ok (), w) := by
  have hparser : q.parser.isNone = false := by
    rw [hends.parser]
    rfl
  have hcompiler : q.compiler.isNone = false := by
    rw [hends.compiler]
    rfl
  rw [requireEndpoints, result_bind_ok (result_processor hq), hparser, hcompiler, Bool.not_false,
    result_bind_ok (result_require _ w), result_require]

/-- What the transformers of a processor make of the tree of a text and of the file, when both have been
stored. -/
def Recasts (host : Host) (w : World) (q : Processor) (settings : Value) (text : String) (id : Nat)
    (f : File) (fault : Option Fault) (tree : Value) (f' : File) : Prop :=
  Revises host q.registry.transformers w.store.cells.length (readTree settings text) id
    (File.holding f q.name (.handle (.node w.store.cells.length))) fault tree f'

/-- All three stages of a pipeline of plain text. -/
theorem result_processFile (hhost : host.HasPlain) (hq : w.processors[p]? = some q) (hends : q.HasEnds)
    (hsettings : SuitsText settings) (hwhole : ∀ shown, settings.revealWith shown = settings)
    {skip : List Value} (hskip : (asked settings "skip_types" (.tuple [])).iterate = .ok skip)
    (hkeys : ∀ v ∈ skip, v.isKey = true) {f f' : File} (hf : w.files[id]? = some f) {text text' : String}
    (htext : f.text = .ok text) {tree : Value} (hclosed : ∀ shown, tree.revealWith shown = tree)
    (htext' : Plain.compile skip tree = .ok text')
    (h : Recasts host w q settings text id f none tree f') :
    ∃ v, (processFile host p id settings none).result w =
        (.ok (.str (lineEnded (asked settings "ensure_final_newline" (.bool false)).truthy text')), v) ∧
      v.processors = w.processors ∧ v.store.cells = w.store.cells ++ [tree] ∧
      v.files = w.files.set id (File.holding f' q.name (.handle (.node w.store.cells.length))) := by
  obtain ⟨u, hparse, hprocessors, hcells, hfiles⟩ :=
    result_parseFile hhost hq hends hsettings hwhole hf htext
  have hqu : u.processors[p]? = some q := by
    rw [hprocessors]
    exact hq
  have hnu : u.store.cells[w.store.cells.length]? = some (readTree settings text) := by
    rw [hcells]
    exact List.getElem?_concat_length
  have hfu : u.files[id]? = some (File.holding f q.name (.handle (.node w.store.cells.length))) := by
    rw [hfiles, List.getElem?_set_self (List.getElem?_eq_some_iff.mp hf).1]
  obtain ⟨v, hrun, hrevised⟩ := result_runTree hqu hnu hfu h
  have hqv : v.processors[p]? = some q := by
    rw [hrevised.processors]
    exact hqu
  obtain ⟨x, hwrite, hxprocessors, hxstore, hxfiles⟩ := result_stringify id hhost hqv hends hsettings hwhole
    hskip hkeys (hrevised.cell hnu) hclosed htext'
  have htold (stage : String) (w : World) : (tellStage none stage).result w = (.ok (), w) := rfl
  refine ⟨x, ?_, ?_, ?_, ?_⟩
  · rw [processFile, result_bind_ok (result_requireEndpoints hq hends), result_bind_ok hparse,
      result_bind_ok (htold _ u), result_bind_ok hrun, result_bind_ok (htold _ v), result_bind_ok hwrite,
      result_bind_ok (htold _ x)]
    rfl
  · rw [hxprocessors, hrevised.processors, hprocessors]
  · rw [hxstore, hrevised.cells, hcells, List.set_append_right _ _ (Nat.le_refl _), Nat.sub_self]
    rfl
  · rw [hxfiles, hrevised.files, hfiles, List.set_set]

/-- A fault of the transformers is one of the pipeline. -/
theorem result_processFile_error (hhost : host.HasPlain) (hq : w.processors[p]? = some q)
    (hends : q.HasEnds) (hsettings : SuitsText settings)
    (hwhole : ∀ shown, settings.revealWith shown = settings) {f f' : File}
    (hf : w.files[id]? = some f) {text : String} (htext : f.text = .ok text) {fault : Fault} {tree : Value}
    (h : Recasts host w q settings text id f (some fault) tree f') :
    ∃ v, (processFile host p id settings none).result w = (.error fault, v) := by
  obtain ⟨u, hparse, hprocessors, hcells, hfiles⟩ :=
    result_parseFile hhost hq hends hsettings hwhole hf htext
  have hnu : u.store.cells[w.store.cells.length]? = some (readTree settings text) := by
    rw [hcells]
    exact List.getElem?_concat_length
  have hfu : u.files[id]? = some (File.holding f q.name (.handle (.node w.store.cells.length))) := by
    rw [hfiles, List.getElem?_set_self (List.getElem?_eq_some_iff.mp hf).1]
  obtain ⟨v, hrun⟩ := result_runTree_error (by rw [hprocessors]; exact hq) hnu hfu h
  have htold (stage : String) (w : World) : (tellStage none stage).result w = (.ok (), w) := rfl
  refine ⟨v, ?_⟩
  rw [processFile, result_bind_ok (result_requireEndpoints hq hends), result_bind_ok hparse,
    result_bind_ok (htold _ u)]
  exact result_bind_error hrun

/-- A pipeline of plain text leaves its text in the file, and the tree where it was kept. -/
theorem result_processText_revised (hhost : host.HasPlain) (hq : w.processors[p]? = some q)
    (hends : q.HasEnds) (hsettings : SuitsText settings)
    (hwhole : ∀ shown, settings.revealWith shown = settings) {skip : List Value}
    (hskip : (asked settings "skip_types" (.tuple [])).iterate = .ok skip)
    (hkeys : ∀ v ∈ skip, v.isKey = true) {f f' : File} {value : Value} {u : World}
    (hvalue : (toFile value).result w = (.ok id, u)) (hu : u.processors = w.processors)
    (hf : u.files[id]? = some f) {text text' : String} (htext : f.text = .ok text) {tree : Value}
    (hclosed : ∀ shown, tree.revealWith shown = tree) (htext' : Plain.compile skip tree = .ok text')
    (h : Recasts host u q settings text id f none tree f') :
    ∃ v out, out = lineEnded (asked settings "ensure_final_newline" (.bool false)).truthy text' ∧
      (processText host p value settings none).result w = (.ok (.str out), v) ∧
      v.processors = w.processors ∧ v.store.cells = u.store.cells ++ [tree] ∧
      v.files = u.files.set id { File.holding f' q.name (.handle (.node u.store.cells.length)) with
        contents := .str out } := by
  obtain ⟨out, hout⟩ : ∃ out, out =
    lineEnded (asked settings "ensure_final_newline" (.bool false)).truthy text' := ⟨_, rfl⟩
  obtain ⟨x, hprocess, hxprocessors, hxcells, hxfiles⟩ := result_processFile (w := u) (p := p) hhost
    (by rw [hu]; exact hq) hends hsettings hwhole hskip hkeys hf htext hclosed htext' h
  rw [← hout] at hprocess
  have hstarted : (tellStarted none f).result u = (.ok (), u) := rfl
  have hattempt : (attempt (processFile host p id settings none)).result u = (.ok (.ok (.str out)), x) := by
    rw [result_attempt, hprocess]
  have hcomplete : (complete none id (.str out)).result x = (.ok (), { x with
      files := x.files.set id { x.files.getD id File.empty with contents := .str out } }) := rfl
  refine ⟨{ x with files := x.files.set id { x.files.getD id File.empty with contents := .str out } },
    out, hout, ?_, hxprocessors.trans hu, hxcells, ?_⟩
  · rw [processText, result_bind_ok hvalue, result_bind_ok (result_file hf), result_bind_ok hstarted,
      result_bind_ok hattempt]
    dsimp only
    rw [result_bind_ok hcomplete]
    rfl
  · have hid : (x.files.getD id File.empty) =
        File.holding f' q.name (.handle (.node u.store.cells.length)) := by
      rw [List.getD_eq_getElem?_getD, hxfiles,
        List.getElem?_set_self (List.getElem?_eq_some_iff.mp hf).1, Option.getD_some]
    show x.files.set id { x.files.getD id File.empty with contents := .str out } = _
    rw [hid, hxfiles, List.set_set]

/-- The fault with which a pipeline without a receiver ends of which a stage has failed: that of the stage,
unless it is an error that has no text. -/
def World.surfaced (w : World) (f : Fault) : Fault :=
  match f.isError, w.textOf (.error f) with
  | true, .error g => g
  | _, _ => f

theorem World.surfaced_eq {f : Fault} {said : String} (h : w.textOf (.error f) = .ok said) :
    w.surfaced f = f := by
  unfold surfaced
  rw [h]
  cases f.isError <;> rfl

theorem result_processText_error (hhost : host.HasPlain) (hq : w.processors[p]? = some q)
    (hends : q.HasEnds) (hsettings : SuitsText settings)
    (hwhole : ∀ shown, settings.revealWith shown = settings) {f f' : File} {value : Value} {u : World}
    (hvalue : (toFile value).result w = (.ok id, u)) (hu : u.processors = w.processors)
    (hf : u.files[id]? = some f) {text : String} (htext : f.text = .ok text) {fault : Fault} {tree : Value}
    (h : Recasts host u q settings text id f (some fault) tree f') :
    ∃ v, (processText host p value settings none).result w = (.error (v.surfaced fault), v) := by
  obtain ⟨x, hprocess⟩ := result_processFile_error (w := u) (p := p) hhost (by rw [hu]; exact hq) hends
    hsettings hwhole hf htext h
  have hstarted : (tellStarted none f).result u = (.ok (), u) := rfl
  have hattempt : (attempt (processFile host p id settings none)).result u = (.ok (.error fault), x) := by
    rw [result_attempt, hprocess]
  refine ⟨x, ?_⟩
  rw [processText, result_bind_ok hvalue, result_bind_ok (result_file hf), result_bind_ok hstarted,
    result_bind_ok hattempt]
  dsimp only
  unfold World.surfaced
  cases fault.isError with
  | false => rfl
  | true =>
    cases hsaid : x.textOf (.error fault) with
    | error g => exact result_bind_error (result_tellFailed_error none hsaid)
    | ok said => exact result_bind_ok (result_tellFailed_ok none hsaid)

/-- A pipeline of plain text without transformers leaves its text in the file. -/
theorem result_processText (hhost : host.HasPlain) (hq : w.processors[p]? = some q) (hplain : q.IsPlain)
    (hsettings : SuitsText settings) (hwhole : ∀ shown, settings.revealWith shown = settings)
    (hskip : LeavesText (asked settings "skip_types" (.tuple []))) {f : File} {text : String}
    {value : Value} {u : World} (hvalue : (toFile value).result w = (.ok id, u))
    (hu : u.processors = w.processors) (hf : u.files[id]? = some f) (htext : f.text = .ok text) :
    ∃ v, (processText host p value settings none).result w =
        (.ok (.str (lineEnded (asked settings "ensure_final_newline" (.bool false)).truthy text)), v) ∧
      (v.files[id]?).map (·.contents) =
        some (.str (lineEnded (asked settings "ensure_final_newline" (.bool false)).truthy text)) := by
  obtain ⟨items, hitems, hkeys, hkept⟩ := hskip
  have hcompile := Plain.compile_parse hkept (reads settings "paragraphs") (reads settings "positions")
    text.toList
  rw [String.ofList_toList] at hcompile
  have hidle : Recasts host u q settings text id f none (readTree settings text)
      (File.holding f q.name (.handle (.node u.store.cells.length))) := by
    rw [Recasts, hplain.idle]
    exact revises_nil _ _ _ _ _
  obtain ⟨v, out, hout, hprocess, -, -, hfiles⟩ := result_processText_revised hhost hq
    ⟨hplain.parser, hplain.compiler⟩ hsettings hwhole hitems hkeys hvalue hu hf htext
    (fun shown => revealWith_parse shown _ _ _) hcompile hidle
  subst hout
  refine ⟨v, hprocess, ?_⟩
  rw [hfiles, List.getElem?_set_self (List.getElem?_eq_some_iff.mp hf).1]
  rfl

end Stages

theorem result_newTextProcessor (w : World) :
    ∃ q : Processor, (newTextProcessor (.str textProcessorName) .none).result w =
      (.ok w.processors.length, { w with processors := w.processors ++ [q] }) ∧ q.IsPlain :=
  ⟨_, rfl, rfl, rfl, rfl⟩

/-- A processor of the standard grammar returns every text that it is given, but for a line feed that
is wanted at its end, and leaves in the file what it returns. -/
theorem textProcessor_returns {host : Host} (hhost : host.HasPlain) {settings : Value}
    (hsettings : SuitsText settings) (hwhole : ∀ shown, settings.revealWith shown = settings)
    (hskip : LeavesText (asked settings "skip_types" (.tuple []))) (text : String) (w : World) :
    ∃ v, (do
          let p ← newTextProcessor (.str textProcessorName) .none
          processOn host (.handle (.processor p)) (.str text) settings none none).result w =
        (.ok (.str (lineEnded (asked settings "ensure_final_newline" (.bool false)).truthy text)), v) ∧
      (v.files[w.files.length]?).map (·.contents) =
        some (.str (lineEnded (asked settings "ensure_final_newline" (.bool false)).truthy text)) := by
  obtain ⟨q, hnew, hplain⟩ := result_newTextProcessor w
  obtain ⟨u, hu⟩ : ∃ u : World, u = { w with processors := w.processors ++ [q] } := ⟨_, rfl⟩
  rw [← hu] at hnew
  have hq : u.processors[w.processors.length]? = some q := by
    rw [hu]
    exact List.getElem?_concat_length
  have hfile : (toFile (.str text)).result u = (.ok w.files.length,
      { u with files := u.files ++ [{ File.empty with contents := .str text }] }) := by
    rw [hu]
    rfl
  have hf : (u.files ++ [{ File.empty with contents := .str text }])[w.files.length]? =
      some { File.empty with contents := .str text } := by
    rw [hu]
    exact List.getElem?_concat_length
  have htext : File.text { File.empty with contents := .str text } = .ok text := rfl
  obtain ⟨v, hv, hcontents⟩ :=
    result_processText hhost hq hplain hsettings hwhole hskip hfile rfl hf htext
  refine ⟨v, ?_, hcontents⟩
  have hfor : (processorFor host (.handle (.processor w.processors.length))).result u =
      (.ok w.processors.length, u) := rfl
  rw [result_bind_ok hnew, processOn, result_bind_ok hfor, hsettings.isCallable]
  exact hv


/-- A text with line breaks of both kinds, and settings for both ends of the pipeline. -/
theorem textProcessor_returns_lines :
    let host := Host.nested .standard [] (.ok []) 0
    let settings : Value := .dict [(.str "paragraphs", .bool false), (.str "positions", .bool false),
      (.str "skip_types", .list [.str "comment"]), (.str "ensure_final_newline", .bool true)]
    ∃ v, (do
          let p ← newTextProcessor (.str textProcessorName) .none
          processOn host (.handle (.processor p)) (.str "a\r\n \nb") settings none none).result {} =
        (.ok (.str "a\r\n \nb\n"), v) ∧
      (v.files[0]?).map (·.contents) = some (.str "a\r\n \nb\n") := by
  intro host settings
  have hsettings : SuitsText settings := by
    refine .mapping fun e he => ?_
    simp only [List.mem_cons, List.not_mem_nil, or_false] at he
    obtain rfl | rfl | rfl | rfl := he <;> exact ⟨_, rfl⟩
  have hasked : asked settings "skip_types" (.tuple []) = .list [.str "comment"] := by
    simp [settings, asked, Entries.get?, Entries.find?, Value.equals_str]
  have hfinal : asked settings "ensure_final_newline" (.bool false) = .bool true := by
    simp [settings, asked, Entries.get?, Entries.find?, Value.equals_str]
  have hskip : LeavesText (asked settings "skip_types" (.tuple [])) := by
    rw [hasked]
    refine ⟨[.str "comment"], rfl, by decide, ?_⟩
    simp [Plain.literalTypes, Value.among, Value.equals_str]
  have hwhole (shown : Handle → Value) : settings.revealWith shown = settings := by
    simp [settings, Value.revealWith, Value.revealEntries, Value.revealList]
  have hended : lineEnded (asked settings "ensure_final_newline" (.bool false)).truthy "a\r\n \nb" =
      "a\r\n \nb\n" := by
    rw [hfinal]
    rfl
  rw [← hended]
  exact textProcessor_returns ⟨rfl, rfl⟩ hsettings hwhole hskip "a\r\n \nb" {}

end Pipeline

end TextPipeline
