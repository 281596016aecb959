import Mathlib.Algebra.Group.Int.Defs
import TextPipeline.Proofs.Describing
import TextPipeline.Proofs.Recomposition
import TextPipeline.Proofs.Rereading

/-! A tree that is written as JSON and read again. Its record is read back from its text but for the
tuples of its data, so the text gives the tree that the record describes. -/

namespace TextPipeline.Json

open TextPipeline.Decimal

theorem pow_le_limit {n : Nat} (h : n ≤ digitLimit) : 10 ^ n ≤ Nat.pow 10 digitLimit := by
  -- The limit is a number that is not to be raised to.
  generalize digitLimit = limit at h ⊢
  exact Nat.pow_le_pow_right (by decide) h

/-- A legible value is data. -/
theorem Legible.isData {v : Value} (h : Legible v) : v.IsData := by
  induction h with
  | none => exact .none
  | bool b => exact .bool b
  | str s => exact .str s
  | int => exact .int _
  | float => exact .float _
  | list _ ih => exact .list ih
  | tuple _ ih => exact .sequence ih
  | dict hkeys _ _ ih => exact .mapping hkeys ih

/-- A legible mapping is a dict. -/
theorem Legible.asDict_eq {v : Value} (h : Legible v) : v.asDict = v := by
  cases h <;> rfl

theorem Legible.listed {v : Value} (h : Legible v) : Legible (listed v) := by
  have hitems {items : List Value} (ih : ∀ v ∈ items, Legible (Json.listed v)) :
      ∀ v ∈ listedItems items, Legible v := by
    rw [listedItems_eq_map]
    intro v hv
    obtain ⟨x, hx, rfl⟩ := List.mem_map.mp hv
    exact ih x hx
  induction h with
  | none => exact .none
  | bool b => exact .bool b
  | str s => exact .str s
  | int hn => exact .int hn
  | float hx => exact .float hx
  | list _ ih | tuple _ ih => exact .list (hitems ih)
  | @dict entries hkeys hnodup _ ih =>
    rw [Json.listed, listedEntries_eq_map]
    refine .dict (fun e he => ?_) ?_ fun e he => ?_
    · obtain ⟨x, hx, rfl⟩ := List.mem_map.mp he
      exact hkeys x hx
    · rw [List.map_map]
      exact hnodup
    · obtain ⟨x, hx, rfl⟩ := List.mem_map.mp he
      exact ih x hx

end TextPipeline.Json

namespace TextPipeline.Tree

open TextPipeline.Json

/-- A point of a document as a record can hold it: a line and a column from one, and an offset from zero
if there is one. -/
structure OnPoint (q : Point) : Prop where
  line : ∃ n : Int, 1 ≤ n ∧ q.line = .int n
  column : ∃ n : Int, 1 ≤ n ∧ q.column = .int n
  offset : q.offset = .none ∨ ∃ n : Int, 0 ≤ n ∧ q.offset = .int n

/-- A position of two points, or none. -/
inductive Located : Value → Prop
  | absent : Located .none
  | span {start stop : Point} : OnPoint start → OnPoint stop → Located (.span start stop)

theorem OnPoint.placeable {q : Point} (h : OnPoint q) : Placeable q := by
  refine ⟨h.line, h.column, h.offset.imp_right ?_⟩
  rintro ⟨k, hk, hoffset⟩
  rw [hoffset]
  exact congrArg Except.ok (by simpa using hk)

theorem Located.placed {position : Value} (h : Located position) : Placed position := by
  cases h with
  | absent => exact .absent
  | span hstart hstop => exact .span hstart.placeable hstop.placeable

theorem OnPoint.listed_record {q : Point} (h : OnPoint q) : listed (pointRecord q) = pointRecord q := by
  obtain ⟨line, column, offset⟩ := q
  obtain ⟨⟨n, -, rfl⟩, ⟨m, -, rfl⟩, rfl | ⟨k, -, rfl⟩⟩ := h <;> rfl

theorem Located.listed_positionOf {position record : Value} (h : Located position)
    (hrecord : positionOf position = .ok record) : listed record = record := by
  cases h with
  | absent =>
    obtain rfl : .none = record := Except.ok.inj hrecord
    rfl
  | span hstart hstop =>
    obtain rfl := Except.ok.inj hrecord
    simp only [Value.record, List.map_cons, List.map_nil, listed, listedEntries, hstart.listed_record,
      hstop.listed_record]

mutual

/-- A tree as it is read: with lists for the collections of its children and for the tuples of its
data, and with dicts for the mappings of data. -/
def restored : Value → Value
  | .node ⟨t, .list cs, v, d, p⟩ => .node ⟨t, .list (restoredAll cs), v, listed d.asDict, p⟩
  | .node ⟨t, .sequence _ cs, v, d, p⟩ => .node ⟨t, .list (restoredAll cs), v, listed d.asDict, p⟩
  | .node ⟨t, .none, v, d, p⟩ => .node ⟨t, .none, v, listed d.asDict, p⟩
  | .node ⟨t, _, v, d, p⟩ => .node ⟨t, .list [], v, listed d.asDict, p⟩
  | v => v

/-- Several trees as they are read. -/
def restoredAll : List Value → List Value
  | [] => []
  | c :: rest => restored c :: restoredAll rest

end

theorem restoredAll_eq_map (cs : List Value) : restoredAll cs = cs.map restored := by
  induction cs with
  | nil => rfl
  | cons c cs ih => rw [restoredAll, ih, List.map_cons]

theorem reading_listed : Reading listed restored where
  absent v := by
    cases v with
    | sequence kind => cases kind <;> rfl
    | mapping kind => cases kind <;> rfl
    | _ => rfl
  str _ := rfl
  list items := by rw [listed, listedItems_eq_map]
  record fields := by
    rw [Value.record, listed, listedEntries_eq_map, Value.record, List.map_map, List.map_map]
    rfl
  node := by
    intro n cs h
    obtain ⟨t, c, v, d, p⟩ := n
    cases h with
    | list | sequence =>
      rw [restored, restoredAll_eq_map]
      rfl
    | absent | set | mapping | str | bytes => rfl

/-- A record of legible fields is legible. -/
theorem legible_record {fields : List (String × Value)} (hnames : (fields.map (·.1)).Nodup)
    (h : ∀ f ∈ fields, Legible f.2) : Legible (.record fields) := by
  refine .dict (fun e he => ?_) ?_ fun e he => ?_
  · obtain ⟨f, -, rfl⟩ := List.mem_map.mp he
    exact ⟨f.1, rfl⟩
  · have hkeys := hnames.map (f := Value.str) fun _ _ => Value.str.inj
    rw [List.map_map] at hkeys ⊢
    exact hkeys
  · obtain ⟨f, hf, rfl⟩ := List.mem_map.mp he
    exact h f hf

theorem recorder_legible : Recorder Legible where
  none := .none
  str := .str
  list := .list
  record := legible_record

theorem Sound.tellable {n : Node} (h : Sound n) (hdata : Legible n.data) (hlocated : Located n.position)
    (hposition : ∀ record, positionOf n.position = .ok record → Legible record) :
    Tellable listed Legible n := by
  have hdict := hdata.asDict_eq
  refine ⟨h, hlocated.placed, hdict.symm ▸ hdata, ?_, ?_,
    fun record hrecord => ⟨hposition record hrecord, hlocated.listed_positionOf hrecord⟩⟩
  · rw [hdict]
    rcases h.data with hd | ⟨kind, entries, hd⟩
    · exact .inl (congrArg listed hd)
    · have hlisted : listed n.data = .dict (listedEntries entries) := by
        rw [← hdict, hd]
        rfl
      exact .inr ⟨_, hlisted, fun path =>
        Value.validateData_iff.mpr ⟨hdata.listed.isData, _, _, hlisted⟩⟩
  · exact h.data.imp_right fun hentries path => Value.validateData_iff.mpr ⟨hdata.isData, hentries⟩

section Positions

theorem dropPositionsAll_eq_map (cs : List Value) : dropPositionsAll cs = cs.map dropPositions := by
  induction cs with
  | nil => rfl
  | cons c cs ih => rw [dropPositionsAll, ih, List.map_cons]

theorem dropPositions_node {n : Node} {cs : List Value} (h : Holds n.children cs) :
    ∃ field, dropPositions (.node n) = .node { n with children := field, position := .none } ∧
      Holds field (cs.map dropPositions) ∧ field.isNone = n.children.isNone := by
  obtain ⟨t, c, v, d, p⟩ := n
  cases h with
  | list =>
    refine ⟨.list (cs.map dropPositions), ?_, .list _, rfl⟩
    rw [dropPositions, dropPositionsAll_eq_map]
  | @sequence kind =>
    refine ⟨.sequence kind (cs.map dropPositions), ?_, .sequence _ _, rfl⟩
    rw [dropPositions, dropPositionsAll_eq_map]
  | absent => exact ⟨_, rfl, .absent, rfl⟩
  | set => exact ⟨_, rfl, .set, rfl⟩
  | mapping => exact ⟨_, rfl, .mapping _, rfl⟩
  | str => exact ⟨_, rfl, .str, rfl⟩
  | bytes => exact ⟨_, rfl, .bytes, rfl⟩

variable {P : Node → Prop} {tree : Value}

theorem Every.dropPositions {Q : Node → Prop}
    (hPQ : ∀ n field, P n → field.isNone = n.children.isNone →
      Q { n with children := field, position := .none }) (h : Every P tree) :
    Every Q (dropPositions tree) := by
  induction h with
  | @node n cs hholds hn _ ih =>
    obtain ⟨field, hdrop, hfield, hnone⟩ := dropPositions_node hholds
    rw [hdrop]
    refine .node hfield (hPQ n field hn hnone) fun c hc => ?_
    obtain ⟨x, hx, rfl⟩ := List.mem_map.mp hc
    exact ih x hx

/-- A tree without positions has none to lose. -/
theorem Every.dropPositions_idem (h : Every P tree) :
    Tree.dropPositions (Tree.dropPositions tree) = Tree.dropPositions tree := by
  induction h with
  | @node n cs hholds _ _ ih =>
    obtain ⟨t, c, v, d, p⟩ := n
    have hmap : (cs.map Tree.dropPositions).map Tree.dropPositions = cs.map Tree.dropPositions := by
      rw [List.map_map]
      exact List.map_congr_left ih
    cases hholds with
    | list | sequence =>
      simp only [Tree.dropPositions, dropPositionsAll_eq_map, hmap]
    | absent | set | mapping | str | bytes => rfl

/-- It does not matter whether positions are dropped before a tree is written or after it is read. -/
theorem Every.restored_dropPositions (h : Every P tree) :
    restored (Tree.dropPositions tree) = Tree.dropPositions (restored tree) := by
  induction h with
  | @node n cs hholds _ _ ih =>
    obtain ⟨t, c, v, d, p⟩ := n
    have hmap : (cs.map Tree.dropPositions).map restored = (cs.map restored).map Tree.dropPositions := by
      rw [List.map_map, List.map_map]
      exact List.map_congr_left ih
    cases hholds with
    | list | sequence =>
      simp only [Tree.dropPositions, restored, restoredAll_eq_map, dropPositionsAll_eq_map, hmap]
    | absent | set | mapping | str | bytes => rfl

theorem Every.preorder_node (h : Every P tree) (parent : Option Node) (index : Option Nat) :
    ∀ visit ∈ preorder parent index tree, ∃ n, visit.node = .node n := by
  induction h generalizing parent index with
  | @node n cs hholds hn hcs ih =>
    have hall (parent : Node) (cs : List Value)
        (h : ∀ c ∈ cs, ∀ p i, ∀ visit ∈ preorder p i c, ∃ n, visit.node = .node n) (i : Nat) :
        ∀ visit ∈ preorderAll parent i cs, ∃ n, visit.node = .node n := by
      induction cs generalizing i with
      | nil => simp [preorderAll]
      | cons c cs ih =>
        obtain ⟨hc, hcs⟩ := List.forall_mem_cons.mp h
        rw [preorderAll]
        intro visit hvisit
        rcases List.mem_append.mp hvisit with hvisit | hvisit
        · exact hc _ _ visit hvisit
        · exact ih hcs _ visit hvisit
    rw [hholds.preorder_eq]
    exact List.forall_mem_cons.mpr ⟨⟨n, rfl⟩, hall n cs (fun c hc p i => ih c hc p i) 0⟩

/-- A walk over a tree meets nothing but nodes. -/
theorem Every.nodes (h : Every P tree) : ∃ ns, nodes tree = .ok ns := by
  have hall (visits : List Visit) (hvisits : ∀ visit ∈ visits, ∃ n, visit.node = .node n) :
      ∃ made, (visits.mapM fun visit => do
        (fun n => .ok [n] : Node → Outcome (List Node)) (← asNode visit.node)) = .ok made := by
    induction visits with
    | nil => exact ⟨[], rfl⟩
    | cons visit visits ih =>
      obtain ⟨⟨n, hn⟩, hvisits⟩ := List.forall_mem_cons.mp hvisits
      obtain ⟨made, hmade⟩ := ih hvisits
      refine ⟨[n] :: made, ?_⟩
      rw [List.mapM_cons, hmade, hn]
      rfl
  obtain ⟨made, hmade⟩ := hall _ (h.preorder_node none none)
  refine ⟨made.flatten, ?_⟩
  rw [Tree.nodes, collect_preorder h.isTree, hmade]
  rfl

end Positions

end TextPipeline.Tree

namespace TextPipeline.Grammar

open TextPipeline.Json TextPipeline.Tree TextPipeline.Settings

/-- Indents that can be written: none, or a number of blanks that a text can hold. -/
def Fits (indent : Value) : Prop :=
  indent = .none ∨ ∃ n : Nat, n < 2 ^ 40 ∧ indent = .int n

theorem Fits.layout {indent : Value} (h : Fits indent) :
    ∃ layout, Layout.ofValue indent = .ok layout ∧ layout.Spaced := by
  rcases h with rfl | ⟨n, hn, rfl⟩
  · exact ⟨.compact, rfl, trivial⟩
  · refine ⟨.indented (List.replicate n ' '), ?_, fun c hc => ?_⟩
    · have hindex : ¬((n : Int) ≥ 9223372036854775808 ∨ (n : Int) < -9223372036854775808) := by omega
      have hmemory : ¬(n : Int) ≥ 1099511627776 := by omega
      rw [Layout.ofValue, if_neg hindex, if_neg hmemory, Int.toNat_natCast]
    · rw [List.eq_of_mem_replicate hc]
      rfl

/-- A tree that can be written with its positions or without them, as is asked for. -/
structure Writable (positions : Bool) (tree : Value) : Prop where
  valid : validate "tree" tree = .ok ()
  located : Every (fun n => Located n.position) tree
  data : Every (fun n => Legible n.data) tree
  positions : positions = true →
    Every (fun n => ∀ record, positionOf n.position = .ok record → Legible record) tree

/-- What is written of a tree. -/
def written (positions : Bool) (tree : Value) : Value :=
  if positions then tree else dropPositions tree

theorem Writable.recorded {positions : Bool} {tree : Value} (h : Writable positions tree) :
    ∃ record, Recorded listed restored Legible (written positions tree) record := by
  have hsound : Every Sound tree := (validate_iff.mp h.valid).mono fun n hn => hn.toSound
  unfold written
  cases hp : positions with
  | true =>
    have hall := (hsound.and h.data).and (h.located.and (h.positions hp))
    exact (hall.mono fun n hn => hn.1.1.tellable hn.1.2 hn.2.1 hn.2.2).recorded reading_listed
      recorder_legible
  | false =>
    refine ((hsound.and h.data).dropPositions fun n field hn hfield => ?_).recorded reading_listed
      recorder_legible
    refine Sound.tellable ⟨hn.1.type, ?_, hn.1.value, hn.1.data⟩ hn.2 .absent fun record hrecord => ?_
    · rcases hn.1.content with hc | hv
      · rw [hc] at hfield
        exact .inl (Value.isNone_iff.mp hfield)
      · exact .inr hv
    · obtain rfl : .none = record := Except.ok.inj hrecord
      exact .none

theorem finalize_ending (settings : Value) (text : String) :
    ∃ ending ∈ ["", "\n"], finalize settings text = text ++ ending := by
  unfold finalize
  split
  · exact ⟨"\n", by simp, rfl⟩
  · exact ⟨"", by simp, (String.append_empty).symm⟩

variable {settings tree : Value}

/-- What the compiler to JSON writes can be read as what was written. -/
theorem jsonCompiler_compile (hindent : Fits (field settings "indent"))
    (h : Writable (field settings "include_positions").truthy tree) (data : Option Value) :
    ∃ text, (jsonCompiler.compile settings tree data).result = (.ok (.str text), []) ∧
      ofJson text = .ok (restored (written (field settings "include_positions").truthy tree)) := by
  obtain ⟨layout, hlayout, hspaced⟩ := hindent.layout
  obtain ⟨record, hrecord⟩ := h.recorded
  obtain ⟨entries, rfl⟩ := hrecord.mapping
  obtain ⟨text, htext, -, hread⟩ := ofString_toText hspaced hrecord.kind
  obtain ⟨ending, hending, hfinal⟩ := finalize_ending settings text
  obtain ⟨ns, hns⟩ := h.located.nodes
  have hjson : toJson (field settings "indent")
      (written (field settings "include_positions").truthy tree) = .ok text := by
    rw [toJson, hrecord.made, hlayout]
    exact htext
  refine ⟨text ++ ending, ?_, ?_⟩
  · unfold jsonCompiler
    unfold written at hjson
    cases hp : (field settings "include_positions").truthy with
    | true =>
      rw [hp, if_pos rfl] at hjson
      simp only [hp, if_true, pure_bind, hjson, Logged.lift_ok_bind, hfinal]
      rfl
    | false =>
      rw [hp, if_neg (by decide)] at hjson
      simp only [hp, hns, pure_bind, hjson, Logged.lift_ok_bind, hfinal]
      rfl
  · rw [ofJson, hread ending hending]
    exact hrecord.described "tree"

/-- The tree that a text describes, without its positions if they are not asked for. -/
theorem jsonParser_parse {text : String} (h : ofJson text = .ok tree) {file : File}
    (htext : file.text = .ok text) (data : Option Value) :
    (jsonParser.parse settings file data).result =
      (.ok (written (field settings "positions").truthy tree), []) := by
  unfold jsonParser written
  cases hp : (field settings "positions").truthy <;>
  · simp only [htext, h, hp, Logged.lift_ok_bind]
    rfl

/-- Positions are lost if either side drops them, and nothing else depends on the sides. -/
theorem written_restored {P : Node → Prop} (h : Every P tree) (written? read? : Bool) :
    written read? (restored (written written? tree)) = written (written? && read?) (restored tree) := by
  have hdropped : Every (fun _ => True) (dropPositions tree) := h.dropPositions fun _ _ _ _ => trivial
  cases written? <;> cases read?
  · show dropPositions (restored (dropPositions tree)) = dropPositions (restored tree)
    rw [← hdropped.restored_dropPositions, h.dropPositions_idem, h.restored_dropPositions]
  · exact h.restored_dropPositions
  · rfl
  · rfl

end TextPipeline.Grammar

namespace TextPipeline.Pipeline

open TextPipeline.Decimal TextPipeline.Grammar TextPipeline.Json TextPipeline.Tree
open TextPipeline.Pipeline.Action

/-- A tree that is compiled to JSON stays as it is, and the text is read as the tree: its collections of
children and the tuples of its data come back as lists, and its positions if both sides keep them. -/
theorem jsonTree_returns {host : Host}
    (hhost : host.endpoints.compiler? jsonCompiler.name = some jsonCompiler)
    {fields : List (String × Value)}
    (hwhole : ∀ shown, (Value.settings .jsonCompiler fields).revealWith shown = .settings .jsonCompiler fields)
    (hindent : Fits (Settings.get fields "indent")) {w : World} {at_ : Value}
    (h : Writable (Settings.get fields "include_positions").truthy (w.reveal at_)) (data : Value) :
    ∃ text v, (writeWith host (.callable jsonCompiler.name) data at_ (.settings .jsonCompiler fields)).result w =
        (.ok (.str text), v) ∧ v.store = w.store ∧ v.reveal at_ = w.reveal at_ ∧
      ∀ settings file data, file.text = .ok text →
        (jsonParser.parse (.settings .jsonParser settings) file data).result.1 =
          .ok (written ((Settings.get fields "include_positions").truthy &&
            (Settings.get settings "positions").truthy) (restored (w.reveal at_))) := by
  have hcompiler : host.endpoints.compilerOf? (.callable jsonCompiler.name) = some jsonCompiler := hhost
  have hfits : Fits (Settings.field (.settings .jsonCompiler fields) "indent") := hindent
  obtain ⟨text, hcompile, hread⟩ := jsonCompiler_compile hfits h (some (w.display data))
  have hrun : (jsonCompiler.run (.settings .jsonCompiler fields) (w.reveal at_)
      (some (w.display data))).result = (.ok (.settings .jsonCompiler fields, .str text), []) := by
    have hconfigure : (jsonCompiler.configure (.settings .jsonCompiler fields)).result =
        (.ok (.settings .jsonCompiler fields), []) := rfl
    rw [Compiler.run, Logged.result_bind_ok hconfigure]
    exact Logged.result_bind_ok hcompile
  have hreveal : (reveal (.settings .jsonCompiler fields)).result w =
      (.ok (.settings .jsonCompiler fields), w) := by
    rw [result_reveal, World.reveal_whole hwhole]
  refine ⟨text, { w with events := w.events ++ [] }, ?_, rfl, rfl, fun settings file data htext => ?_⟩
  · unfold writeWith
    rw [hcompiler]
    dsimp only
    rw [result_get_bind, result_bind_ok hreveal, result_bind_ok (result_reveal at_ w),
      result_bind_ok (result_ofLogged hrun w)]
    rfl
  · rw [jsonParser_parse hread htext, ← written_restored h.located]
    rfl

/-- A node with a position and data, and settings for one line. -/
theorem jsonTree_returns_line :
    let host := Host.nested .standard [] (.ok []) 0
    let settings : List (String × Value) := [("ensure_final_newline", .bool true), ("indent", .none),
      ("include_positions", .bool true)]
    let leaf (items : List Value → Value) : Value := .node ⟨.str "text", .none, .str "a\n",
      .dict [(.str "k", items [.int 1, .none])], .span ⟨.int 1, .int 1, .none⟩ ⟨.int 2, .int 1, .none⟩⟩
    ∃ text v, (writeWith host (.callable jsonCompiler.name) .none (leaf .tuple)
        (.settings .jsonCompiler settings)).result {} = (.ok (.str text), v) ∧
      (jsonParser.parse (.settings .jsonParser [("positions", .bool true)])
        { File.empty with contents := .str text } none).result.1 = .ok (leaf .list) := by
  intro host settings leaf
  have hreveal : World.reveal {} (leaf .tuple) = leaf .tuple := by
    simp [leaf, World.reveal, Store.reveal, Store.revealWithin, Value.revealWith, Value.revealList,
      Value.revealEntries]
  have hevery {P : Node → Prop} (h : P ⟨.str "text", .none, .str "a\n",
      .dict [(.str "k", .tuple [.int 1, .none])],
        .span ⟨.int 1, .int 1, .none⟩ ⟨.int 2, .int 1, .none⟩⟩) : Every P (leaf .tuple) :=
    .node .absent h (by simp)
  have hdigit {n : Int} (hn : n.natAbs < 10 ^ 1) : Legible (.int n) :=
    .int (Nat.lt_of_lt_of_le hn (pow_le_limit (by decide)))
  have hone : Legible (.int 1) := hdigit (by decide)
  have htwo : Legible (.int 2) := hdigit (by decide)
  have hpoint {n : Int} (hn : Legible (.int n)) : Legible (pointRecord ⟨.int n, .int 1, .none⟩) :=
    legible_record (show ["line", "column"].Nodup by decide) (by simpa using ⟨hn, hone, fun _ => .none⟩)
  have hwritable : Writable true (leaf .tuple) := by
    refine ⟨rfl, hevery ?_, hevery ?_, fun _ => hevery fun record hrecord => ?_⟩
    · exact .span ⟨⟨1, by decide, rfl⟩, ⟨1, by decide, rfl⟩, .inl rfl⟩
        ⟨⟨2, by decide, rfl⟩, ⟨1, by decide, rfl⟩, .inl rfl⟩
    · exact .dict (by simp) (by simp) (by simpa using Legible.tuple (by simpa using ⟨hone, .none⟩))
    · obtain rfl := Except.ok.inj hrecord
      exact legible_record (by decide) (by simpa using ⟨hpoint hone, hpoint htwo⟩)
  have hkept : Writable (Settings.get settings "include_positions").truthy
      (World.reveal {} (leaf .tuple)) := by
    rw [hreveal]
    exact hwritable
  have hwhole (shown : Handle → Value) :
      (Value.settings .jsonCompiler settings).revealWith shown = .settings .jsonCompiler settings := by
    simp [settings, Value.revealWith, Value.revealFields]
  have hhost : host.endpoints.compiler? jsonCompiler.name = some jsonCompiler := rfl
  obtain ⟨text, v, hwrite, -, -, hread⟩ := jsonTree_returns hhost hwhole (.inl rfl) hkept .none
  refine ⟨text, v, hwrite, ?_⟩
  rw [hread _ { File.empty with contents := .str text } none rfl, hreveal]
  rfl

/-- What a round trip cannot keep: an integer of too many digits and an indent that no text can hold are
not written, and children in a tuple come back in a list. -/
theorem jsonTree_limits :
    let compiled (settings : List (String × Value)) (n : Node) :=
      (jsonCompiler.compile (.settings .jsonCompiler settings) (.node n) none).result.1
    let long : Node := ⟨.str "root", .none, .none, .dict [(.str "n", .int (Nat.pow 10 digitLimit))], .none⟩
    let short : Node := ⟨.str "root", .none, .none, .none, .none⟩
    let paired : Node := ⟨.str "root", .tuple [], .none, .none, .none⟩
    (validate "tree" (.node long) = .ok () ∧ compiled [] long = .error (.badValue ("Exceeds the limit (" ++
      toString digitLimit ++
      " digits) for integer string conversion; use sys.set_int_max_str_digits() to increase the limit"))) ∧
    (validate "tree" (.node short) = .ok () ∧ compiled [("indent", .int (2 ^ 63))] short =
      .error (.raised "OverflowError" [.str "cannot fit 'int' into an index-sized integer"])) ∧
    validate "tree" (.node paired) = .ok () ∧ ∃ text, compiled [] paired = .ok (.str text) ∧
      ofJson text = .ok (.node { paired with children := .list [] }) := by
  intro compiled
  generalize hm : Nat.pow 10 digitLimit = m
  intro long short paired
  have hcompiled {settings : List (String × Value)} {n : Node} (hn : n.children = .none)
      (hnone : n.position = .none) {f : Fault}
      (h : toJson (Settings.get settings "indent") (.node n) = .error f) : compiled settings n = .error f := by
    obtain ⟨t, c, v, d, p⟩ := n
    obtain rfl : c = .none := hn
    obtain rfl : p = .none := hnone
    have hnodes : nodes (.node ⟨t, .none, v, d, .none⟩) = .ok [⟨t, .none, v, d, .none⟩] := rfl
    have hkept : dropPositions (.node ⟨t, .none, v, d, .none⟩) = .node ⟨t, .none, v, d, .none⟩ := rfl
    show (jsonCompiler.compile _ _ none).result.1 = _
    unfold jsonCompiler
    simp only [hnodes, hkept, pure_bind, Settings.field, h, Logged.lift_ok_bind]
    split <;> rfl
  have hlong (n : Int) : validate "tree" (.node ⟨.str "root", .none, .none, .dict [(.str "n", .int n)],
      .none⟩) = .ok () := rfl
  have hmany (n : Int) {f : Fault} (h : integerText n = .error f) :
      toJson .none (.node ⟨.str "root", .none, .none, .dict [(.str "n", .int n)], .none⟩) = .error f := by
    have hrecord : toRecord (.node ⟨.str "root", .none, .none, .dict [(.str "n", .int n)], .none⟩) =
        .ok (.record [("type", .str "root"), ("data", .dict [(.str "n", .int n)])]) := rfl
    have hscalar (otherwise : Fault) : scalarText otherwise (.int n) = .error f := h
    have hmember (depth : Nat) : writeMembers .compact depth [(.str "n", .int n)] = .error f := by
      have hwrite : write .compact depth (.int n) = .error f := by
        show (do return (← scalarText _ (.int n)).toList) = _
        rw [hscalar]
        rfl
      rw [writeMembers, hwrite]
      rfl
    have htext : toText .compact (.record [("type", .str "root"), ("data", .dict [(.str "n", .int n)])]) =
        .error f := by
      rw [toText, Value.record, List.map_cons, List.map_cons, List.map_nil, write, writeMembers,
        writeMembers, write, write, hmember]
      rfl
    have hlayout : Layout.ofValue .none = .ok .compact := rfl
    simp only [toJson, hrecord, hlayout, bind, Except.bind, htext]
  have hwide : Layout.ofValue (.int (2 ^ 63)) =
      .error (.raised "OverflowError" [.str "cannot fit 'int' into an index-sized integer"]) := by
    rw [Layout.ofValue, if_pos (.inl (by decide))]
  have hdigits : integerText m = .error (.badValue ("Exceeds the limit (" ++ toString digitLimit ++
      " digits) for integer string conversion; use sys.set_int_max_str_digits() to increase the limit")) := by
    rw [integerText, Int.natAbs_natCast, hm, if_neg (Nat.lt_irrefl m)]
  refine ⟨⟨hlong m, hcompiled rfl rfl (hmany m hdigits)⟩, ⟨rfl, hcompiled rfl rfl ?_⟩, rfl, ?_⟩
  · have hrecord : toRecord (.node short) = .ok (.record [("type", .str "root")]) := rfl
    have hindent : Settings.get [("indent", .int (2 ^ 63))] "indent" = .int (2 ^ 63) := rfl
    rw [toJson, hrecord, hindent, hwide]
    rfl
  · have hpaired {P : Node → Prop} (h : P paired) : Every P (.node paired) :=
      .node (.sequence .tuple []) h (by simp)
    have hwritable : Writable (Settings.field (.settings .jsonCompiler []) "include_positions").truthy
        (.node paired) :=
      ⟨rfl, hpaired .absent, hpaired .none, fun h => by cases h⟩
    have hfits : Fits (Settings.field (.settings .jsonCompiler []) "indent") := .inl rfl
    obtain ⟨text, hcompile, hread⟩ := jsonCompiler_compile hfits hwritable none
    refine ⟨text, ?_, hread⟩
    show (jsonCompiler.compile _ (.node paired) none).result.1 = _
    rw [hcompile]

end TextPipeline.Pipeline
