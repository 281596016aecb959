import TextPipeline.Proofs.Closed
import TextPipeline.Proofs.Filtering
import TextPipeline.Proofs.Options
import TextPipeline.Proofs.Pruning
import TextPipeline.Proofs.Recomposition
import TextPipeline.Proofs.Storing
import TextPipeline.Standard.RemoveNodes

/-! Removing nodes by their types. What is left of a tree is given by recursion over it, and what is left
after two removals is what one removal of both leaves, from which it follows that they can be made in either
order and that a second one of the same types changes nothing. -/

namespace TextPipeline

namespace Tree

mutual

/-- A tree without the nodes of some types below its root, each with all that is below it, and with lists
for the collections of its children. -/
def pruned (types : List Value) : Value → Value
  | .node ⟨t, .list cs, v, d, p⟩ => .node ⟨t, .list (prunedAll types cs), v, d, p⟩
  | .node ⟨t, .sequence _ cs, v, d, p⟩ => .node ⟨t, .list (prunedAll types cs), v, d, p⟩
  | .node ⟨t, .none, v, d, p⟩ => .node ⟨t, .none, v, d, p⟩
  | .node ⟨t, _, v, d, p⟩ => .node ⟨t, .list [], v, d, p⟩
  | v => v

/-- What is left of several trees, without those whose roots are of the types. -/
def prunedAll (types : List Value) : List Value → List Value
  | [] => []
  | c :: rest => if isOf types c then prunedAll types rest else pruned types c :: prunedAll types rest

end

/-- A tree with lists for the collections of its children. -/
def inLists (tree : Value) : Value := pruned [] tree

section Pruned

variable {P : Node → Prop} {types : List Value} {n : Node} {cs : List Value} {tree : Value}

theorem prunedAll_eq (types cs : List Value) :
    prunedAll types cs = (cs.filter fun c => !isOf types c).map (pruned types) := by
  induction cs with
  | nil => rfl
  | cons c cs ih =>
    rw [prunedAll, ih, List.filter_cons]
    cases isOf types c <;> rfl

theorem pruned_node (types : List Value) (h : Holds n.children cs) : pruned types (.node n) =
    .node { n with children := listField n.children (prunedAll types cs) } := by
  obtain ⟨t, field, v, d, p⟩ := n
  cases h <;> rfl

theorem isOf_nil (c : Value) : isOf [] c = false := by
  cases c <;> rfl

theorem inLists_node (h : Holds n.children cs) :
    inLists (.node n) = .node { n with children := listField n.children (cs.map inLists) } := by
  have hall : cs.filter (fun c => !isOf [] c) = cs := by simp [isOf_nil]
  rw [inLists, pruned_node [] h, prunedAll_eq, hall]
  rfl

theorem Every.inLists_eq (h : Every InList tree) : inLists tree = tree := by
  induction h with
  | @node n cs hholds hn _ ih =>
    have hmap : cs.map inLists = cs := (List.map_congr_left ih).trans (List.map_id cs)
    rw [inLists_node hholds, hmap, hn.listField hholds]

theorem holds_pruned (types : List Value) (h : Holds n.children cs) :
    Holds (listField n.children (prunedAll types cs)) (prunedAll types cs) := by
  refine h.listField ?_
  rintro rfl
  rfl

theorem isOf_congr {others : List Value} (h : ∀ v, Value.among v types = v.among others) (c : Value) :
    isOf types c = isOf others c := by
  cases c with
  | node n => exact h n.type
  | _ => rfl

/-- The root of a tree is kept. -/
theorem isOf_pruned (types others : List Value) (h : Every P tree) :
    isOf others (pruned types tree) = isOf others tree := by
  cases h with
  | node hholds =>
    rw [pruned_node types hholds]
    rfl

theorem listField_listField (field : Value) (cs ds : List Value) :
    listField (listField field cs) ds = listField field ds := by
  unfold listField
  cases field.isNone <;> rfl

theorem Every.pruned (h : Every Checked tree) (types : List Value) : Every Checked (pruned types tree) := by
  induction h with
  | @node n cs hholds hn _ ih =>
    have hcontent : listField n.children (prunedAll types cs) = .none ∨ n.value = .none := by
      refine hn.content.imp_left fun hnone => ?_
      rw [hnone]
      rfl
    rw [pruned_node types hholds]
    refine .node (holds_pruned types hholds) ⟨⟨hn.type, hcontent, hn.value, hn.data⟩, hn.variant⟩ ?_
    intro c hc
    rw [prunedAll_eq] at hc
    obtain ⟨d, hd, rfl⟩ := List.mem_map.mp hc
    exact ih d (List.mem_of_mem_filter hd)

/-- The data of what is left are those of before. -/
theorem Every.pruned_data {Q : Value → Prop} (h : Every (fun n => Q n.data) tree) (types : List Value) :
    Every (fun n => Q n.data) (Tree.pruned types tree) := by
  induction h with
  | @node n cs hholds hn _ ih =>
    rw [pruned_node types hholds]
    refine .node (holds_pruned types hholds) hn fun c hc => ?_
    rw [prunedAll_eq] at hc
    obtain ⟨d, hd, rfl⟩ := List.mem_map.mp hc
    exact ih d (List.mem_of_mem_filter hd)

/-- Removing nodes of some types and then of others leaves what removing both at once does. -/
theorem pruned_pruned {first second both : List Value}
    (hboth : ∀ v, Value.among v both = (v.among first || v.among second)) (h : Every P tree) :
    pruned second (pruned first tree) = pruned both tree := by
  have hisOf (c : Value) : isOf both c = (isOf first c || isOf second c) := by
    cases c with
    | node n => exact hboth n.type
    | _ => rfl
  induction h with
  | @node n cs hholds _ hcs ih =>
    have hleft : (prunedAll first cs).filter (fun c => !isOf second c) =
        (cs.filter fun c => !isOf both c).map (pruned first) := by
      rw [prunedAll_eq, List.filter_map, List.filter_filter]
      congr 1
      refine List.filter_congr fun c hc => ?_
      rw [Function.comp_apply, isOf_pruned first second (hcs c hc), hisOf, Bool.not_or, Bool.and_comm]
    have hall : prunedAll second (prunedAll first cs) = prunedAll both cs := by
      rw [prunedAll_eq, hleft, List.map_map, prunedAll_eq]
      exact List.map_congr_left fun c hc => ih c (List.mem_of_mem_filter hc)
    rw [pruned_node first hholds, pruned_node second (holds_pruned first hholds), pruned_node both hholds,
      listField_listField, hall]

theorem mem_spotsAll {c : Value} (hc : c ∈ cs) (n : Node) (i : Nat) :
    ∃ k, ∀ s ∈ spots false (some k) (some n) c, s.under k ∈ spotsAll false n i cs := by
  induction cs generalizing i with
  | nil => cases hc
  | cons d cs ih =>
    rw [spotsAll_cons]
    rcases List.mem_cons.mp hc with rfl | hc
    · exact ⟨i, fun s hs => List.mem_append_left _ (List.mem_map_of_mem hs)⟩
    · obtain ⟨k, hk⟩ := ih hc (i + 1)
      exact ⟨k, fun s hs => List.mem_append_right _ (hk s hs)⟩

/-- Nothing is removed from a tree without a node of the types below its root. -/
theorem pruned_of_unmatched (h : Every P tree) {index : Option Nat} {parent : Option Node}
    (hnone : ∀ s ∈ spots false index parent tree, s.place ≠ [] → s.node.type.among types = false) :
    pruned types tree = inLists tree := by
  induction h generalizing index parent with
  | @node n cs hholds _ hcs ih =>
    rw [spots_node hholds] at hnone
    have hchild : ∀ c ∈ cs, isOf types c = false ∧ pruned types c = inLists c := by
      intro c hc
      obtain ⟨k, hk⟩ := mem_spotsAll hc n 0
      have hunder : ∀ s ∈ spots false (some k) (some n) c, s.node.type.among types = false := fun s hs =>
        hnone (s.under k) (List.mem_cons_of_mem _ (hk s hs)) (List.cons_ne_nil _ _)
      refine ⟨?_, ih c hc fun s hs _ => hunder s hs⟩
      cases hcs c hc with
      | node hdeeper =>
        rw [spots_node hdeeper] at hunder
        exact hunder _ List.mem_cons_self
    have hkept : cs.filter (fun c => !isOf types c) = cs :=
      List.filter_eq_self.mpr fun c hc => by rw [(hchild c hc).1]; rfl
    have hall : prunedAll types cs = cs.map inLists := by
      rw [prunedAll_eq, hkept]
      exact List.map_congr_left fun c hc => (hchild c hc).2
    rw [pruned_node types hholds, hall, inLists_node hholds]

/-- Removing nodes by filtering leaves what it should of a valid tree, unless the data of a node have no
copy. -/
theorem removeTypes_cases (types : List Value) (h : Every Checked tree) :
    removeTypes types tree = .ok (pruned types tree) ∨
      ∃ type, removeTypes types tree = .error (notCopied type) ∧ ¬Every (fun n => n.data.CanCopy) tree := by
  simp only [removeTypes]
  induction h with
  | @node n cs hholds hn hcs ih =>
    have hall : filterAll (fun n => do return !(← n.type.asKey).among types : Node → Outcome Bool) cs =
        .ok (prunedAll types cs) ∨
        ∃ type, filterAll (fun n => do return !(← n.type.asKey).among types : Node → Outcome Bool) cs =
          .error (notCopied type) ∧ ¬∀ c ∈ cs, Every (fun n => n.data.CanCopy) c := by
      clear hholds
      induction cs with
      | nil => exact .inl rfl
      | cons c cs ihcs =>
        obtain ⟨hc, hrest⟩ := List.forall_mem_cons.mp hcs
        obtain ⟨ihc, ihrest⟩ := List.forall_mem_cons.mp ih
        obtain ⟨m, rfl, hm⟩ : ∃ m, c = .node m ∧ Checked m := by
          cases hc with
          | node _ hm => exact ⟨_, rfl, hm⟩
        have hkeep : (do return !(← m.type.asKey).among types : Outcome Bool) =
            pure (!m.type.among types) := by
          obtain ⟨t, -, ht⟩ := hm.type
          rw [ht]
          rfl
        rw [filterAll_cons, hkeep, pure_bind, prunedAll, isOf]
        cases m.type.among types with
        | true =>
          rcases ihcs hrest ihrest with hlater | ⟨type, hlater, huncopied⟩
          · exact .inl hlater
          · exact .inr ⟨type, hlater, fun h => huncopied (List.forall_mem_cons.mp h).2⟩
        | false =>
          simp only [Bool.not_false, if_true]
          rcases ihc with hfirst | ⟨type, hfirst, huncopied⟩
          · rw [hfirst]
            rcases ihcs hrest ihrest with hlater | ⟨type, hlater, huncopied⟩
            · rw [hlater]
              exact .inl rfl
            · rw [hlater]
              exact .inr ⟨type, rfl, fun h => huncopied (List.forall_mem_cons.mp h).2⟩
          · rw [hfirst]
            exact .inr ⟨type, rfl, fun h => huncopied (List.forall_mem_cons.mp h).1⟩
    have hbelow : Every (fun n => n.data.CanCopy) (.node n) →
        n.data.CanCopy ∧ ∀ c ∈ cs, Every (fun n => n.data.CanCopy) c := by
      rintro (⟨hholds', hdata, hall⟩)
      exact ⟨hdata, hholds'.unique hholds ▸ hall⟩
    rw [filter_node _ hholds hn.toSound, pruned_node types hholds]
    rcases hall with hall | ⟨type, hall, huncopied⟩
    · rw [hall]
      rcases hn.variant.copying with hcopy | ⟨type, hcopy⟩
      · rw [hcopy]
        exact .inl rfl
      · refine .inr ⟨type, by rw [hcopy]; rfl, fun h => ?_⟩
        obtain ⟨w, hw⟩ := (hbelow h).1
        cases hw.symm.trans hcopy
    · rw [hall]
      exact .inr ⟨type, rfl, fun h => huncopied (hbelow h).2⟩

theorem removeTypes_pruned (types : List Value) (h : Every Checked tree)
    (hcopies : Every (fun n => n.data.CanCopy) tree) : removeTypes types tree = .ok (pruned types tree) :=
  (removeTypes_cases types h).resolve_right fun ⟨_, _, huncopied⟩ => huncopied hcopies

theorem closed_pruned (types : List Value) (h : Every P tree) (hclosed : tree.Closed) :
    (pruned types tree).Closed := by
  induction h with
  | @node n cs hholds _ hcs ih =>
    obtain ⟨ht, hc, hv, hd, hp⟩ := Value.closed_node.mp hclosed
    have hchildren : ∀ c ∈ cs, c.Closed := by
      clear hcs ih
      obtain ⟨t, field, v, d, p⟩ := n
      cases hholds with
      | list => exact Value.closed_list.mp hc
      | sequence => exact Value.closed_sequence.mp hc
      | absent | set | mapping | str | bytes => simp
    have hall : ∀ c ∈ prunedAll types cs, c.Closed := by
      intro c hc
      rw [prunedAll_eq] at hc
      obtain ⟨d, hd, rfl⟩ := List.mem_map.mp hc
      have hmem := List.mem_of_mem_filter hd
      exact ih d hmem (hchildren d hmem)
    have hfield : (listField n.children (prunedAll types cs)).Closed := by
      unfold listField
      split
      · exact fun _ => rfl
      · exact Value.closed_list.mpr hall
    rw [pruned_node types hholds]
    exact Value.closed_node.mpr ⟨ht, hfield, hv, hd, hp⟩

end Pruned

end Tree

namespace Standard

open TextPipeline.Pipeline TextPipeline.Plugin TextPipeline.Tree
open TextPipeline.Pipeline.Action

/-- The keys of a mapping that takes up a text as a key. -/
theorem keys_insert (s : String) {es : Entries} (h : ∀ k ∈ es.map (·.1), ∃ s, k = .str s) :
    (∀ k ∈ (Entries.insert (.str s) .none es).map (·.1), ∃ s, k = .str s) ∧
      ∀ p : Value → Bool, ((Entries.insert (.str s) .none es).map (·.1)).any p =
        ((es.map (·.1)).any p || p (.str s)) := by
  induction es with
  | nil => simp [Entries.insert]
  | cons e es ih =>
    obtain ⟨k, v⟩ := e
    obtain ⟨⟨t, hk⟩, hes⟩ := List.forall_mem_cons.mp h
    obtain rfl : k = .str t := hk
    obtain ⟨hkeys, hany⟩ := ih hes
    rw [Entries.insert]
    split
    · rename_i hequal
      obtain rfl : t = s := by simpa [Value.equals_str] using hequal
      refine ⟨h, fun p => ?_⟩
      rw [List.map_cons, List.map_cons, List.any_cons, Bool.or_right_comm, Bool.or_self]
    · refine ⟨List.forall_mem_cons.mpr ⟨⟨t, rfl⟩, hkeys⟩, fun p => ?_⟩
      rw [List.map_cons, List.map_cons, List.any_cons, List.any_cons, hany, Bool.or_assoc]

/-- Texts that are taken up as keys one after the other are the keys in the end. -/
theorem keys_foldl_insert (types : List String) {es : Entries} (h : ∀ k ∈ es.map (·.1), ∃ s, k = .str s) :
    let taken := (types.map fun s => (Value.str s, Value.none)).foldl
      (fun es e => Entries.insert e.1 e.2 es) es
    (∀ k ∈ taken.map (·.1), ∃ s, k = .str s) ∧
      ∀ p : Value → Bool, (taken.map (·.1)).any p = ((es.map (·.1)).any p || (types.map .str).any p) := by
  induction types generalizing es with
  | nil => exact ⟨h, fun p => (Bool.or_false _).symm⟩
  | cons s types ih =>
    obtain ⟨hkeys, hany⟩ := keys_insert s h
    obtain ⟨hall, hin⟩ := ih hkeys
    refine ⟨hall, fun p => ?_⟩
    have hcons : ((s :: types).map Value.str).any p = (p (.str s) || (types.map .str).any p) := rfl
    rw [hcons, ← Bool.or_assoc, ← hany p]
    exact hin p

/-- The types that are removed if some are given, of which some may be given twice. -/
def removed (types : List String) : List Value := distinct (types.map .str)

theorem removed_str (types : List String) : ∀ k ∈ removed types, ∃ s, k = .str s := by
  rw [removed, distinct, List.map_map]
  exact (keys_foldl_insert types (by simp)).1

theorem among_removed (types : List String) (v : Value) :
    v.among (removed types) = v.among (types.map .str) := by
  rw [removed, distinct, List.map_map]
  exact (keys_foldl_insert types (by simp)).2 _

theorem among_removed_append (first second : List String) (v : Value) :
    v.among (removed (first ++ second)) = (v.among (removed first) || v.among (removed second)) := by
  rw [among_removed, among_removed, among_removed, List.map_append]
  exact List.any_append

/-- The transformer that removes the nodes of some types. -/
def removing (types : List String) : Transformer :=
  .mk "remove_nodes.<locals>.remove_matching_nodes" .plain fun tree _ =>
    removeNodesActs (removed types) tree

theorem strayElement_str (types : List String) (i : Nat) :
    Parameter.strayElement .str i (types.map .str) = none := by
  induction types generalizing i with
  | nil => rfl
  | cons s types ih =>
    rw [List.map_cons, Parameter.strayElement]
    exact ih (i + 1)

/-- The one option that is declared takes every list of texts as it is. -/
theorem parameters_types (types : List String) : ∃ p, removeNodesAbout.parameters = [("types", p)] ∧
    p.validate (.list (types.map .str)) = .ok (.list (types.map .str)) := by
  refine ⟨_, rfl, ?_⟩
  unfold Parameter.validate Parameter.checkElements
  dsimp only [Parameter.coerce]
  rw [strayElement_str]
  rfl

theorem resolveOptions_types (types : List String) :
    (removeNodesAbout.resolveOptions (.record [("types", .list (types.map .str))])).result =
      (.ok [(.str "types", .list (types.map .str))], []) := by
  obtain ⟨p, hp, hvalid⟩ := parameters_types types
  refine Metadata.result_resolveOptions (m := removeNodesAbout) ?_ ?_
  · rw [hp]
    refine List.forall_mem_singleton.mpr ⟨_, ?_, hvalid⟩
    simp [Entries.get?, Entries.find?, Value.equals_str]
  · rw [hp]
    simp [Value.among, Value.equals_str]

theorem removeNodesFor_types (types : List String) :
    (removeNodesFor (.record [("types", .list (types.map .str))])).result = (.ok (removing types), []) := by
  rw [removeNodesFor, Logged.result_bind_ok (resolveOptions_types types)]
  simp only [Entries.get?, Entries.find?, List.find?_cons, Value.equals_str, beq_self_eq_true]
  rfl

/-- A transformer turns a tree into another one if, wherever it is called on what shows the tree, it logs and
answers with the other one for others to share; unless the tree refers to what is kept elsewhere, its answer
shows the other one. -/
def Turns (t : Transformer) (tree left : Value) : Prop :=
  ∀ (host : Host) (scene : Scene) (w : World), w.reveal scene.tree = tree →
    ∃ (records : List LogRecord) (v : Value) (u : World),
      (share left).result { w with events := w.events ++ records.map .log } = (.ok v, u) ∧
      (call host scene t).result w = (.ok (.value v), u) ∧
      (tree.Closed → left.Closed ∧ u.reveal v = left)

/-- The plugin leaves a tree of another one if its options are some types. -/
def Leaves (types : List String) (tree left : Value) : Prop :=
  ∃ t records, (removeNodesFor (.record [("types", .list (types.map .str))])).result = (.ok t, records) ∧
    Turns t tree left

/-- A node that is shared is kept, and shows as it is if it refers to nothing else. -/
theorem result_share_node (n : Node) (w : World) : ∃ id u,
    (share (.node n)).result w = (.ok (.handle (.node id)), u) ∧
      ((Value.node n).Closed → u.reveal (.handle (.node id)) = .node n) := by
  refine ⟨w.store.cells.length, _, rfl, fun hclosed => ?_⟩
  exact World.reveal_node (List.getElem?_concat_length ..) hclosed

/-- The transformer fails on a tree: wherever it is called on what shows the tree, it logs and fails, since
the data of a node have no copy. -/
def Refuses (types : List String) (tree : Value) : Prop :=
  ∃ t records type, (removeNodesFor (.record [("types", .list (types.map .str))])).result =
    (.ok t, records) ∧ ∀ (host : Host) (scene : Scene) (w : World), w.reveal scene.tree = tree →
      ∃ record, (call host scene t).result w = (.error (notCopied type), w.told (.log record))

variable {tree : Value}

/-- The transformer logs, and others can share what it leaves. -/
theorem result_performAll_removing (types : List String) (host : Host) {scene : Scene} {w : World}
    (hreveal : w.reveal scene.tree = tree) :
    ∃ record, (performAll host scene (removing types)).result w =
      (do share (← ofOutcome (removeTypes (removed types) tree))).result (w.told (.log record)) := by
  obtain ⟨listed, hlisted⟩ := Settings.joinSorted_str (removed_str types)
  obtain ⟨record, hacts⟩ : ∃ record, removeNodesActs (removed types) tree =
      [.log record, .give fun _ => removeTypes (removed types) tree] := by
    rw [removeNodesActs, hlisted]
    exact ⟨_, rfl⟩
  have hfile : (file scene.file).result w = (.ok (w.files.getD scene.file File.empty), w) := rfl
  have hprogram : (removing types).program tree (w.files.getD scene.file File.empty) =
      [.log record, .give fun _ => removeTypes (removed types) tree] := hacts
  have hargument : (argument fun _ => removeTypes (removed types) tree).result (w.told (.log record)) =
      (removeTypes (removed types) tree, w.told (.log record)) := by
    rw [argument, result_get_bind, result_ofOutcome]
  refine ⟨record, ?_⟩
  rw [performAll, result_bind_ok (result_reveal _ _), hreveal, result_bind_ok hfile]
  dsimp only
  rw [hprogram, perform, bind_assoc, result_bind_ok (result_tell _ _), perform]
  cases hremoved : removeTypes (removed types) tree with
  | error f =>
    rw [hremoved] at hargument
    rw [bind_assoc, result_bind_error hargument, result_bind_error (result_ofOutcome _ _)]
  | ok left =>
    rw [hremoved] at hargument
    rw [bind_assoc, result_bind_ok hargument, bind_assoc, result_bind_ok (result_share_handed _ _),
      result_bind_ok (result_ofOutcome _ _)]
    rfl

theorem result_call_removing (types : List String) (host : Host) (scene : Scene) (w : World) :
    (call host scene (removing types)).result w = (do
      match ← performAll host scene (removing types) with
      | .awaitable _ => return Answer.later ⟨scene, .inr []⟩
      | v => return Answer.value v).result w := by
  have htell : (tellArguments (removing types)).result w = (.ok (), w) := rfl
  exact result_bind_ok htell

/-- Called on a valid tree, the transformer leaves what it should of it if anything is left. -/
theorem turns_removing (types : List String) (h : Every Checked tree)
    (hremoved : removeTypes (removed types) tree = .ok (pruned (removed types) tree)) :
    Turns (removing types) tree (pruned (removed types) tree) := by
  intro host scene w hreveal
  obtain ⟨m, hm⟩ : ∃ m, pruned (removed types) tree = .node m := by
    cases h with
    | node hholds => exact ⟨_, pruned_node _ hholds⟩
  obtain ⟨record, hall⟩ := result_performAll_removing types host hreveal
  obtain ⟨id, u, hshare, hshows⟩ := result_share_node m (w.told (.log record))
  rw [hremoved, hm, result_bind_ok (result_ofOutcome _ _), hshare] at hall
  refine ⟨[record], .handle (.node id), u, ?_, ?_, fun hclosed => ?_⟩
  · rw [hm]
    exact hshare
  · rw [result_call_removing, result_bind_ok hall]
    rfl
  · have hleft : (Value.node m).Closed := hm ▸ closed_pruned _ h hclosed
    rw [hm]
    exact ⟨hleft, hshows hleft⟩

theorem leaves_pruned (types : List String) (h : Every Checked tree)
    (hcopies : Every (fun n => n.data.CanCopy) tree) :
    Leaves types tree (pruned (removed types) tree) :=
  ⟨removing types, [], removeNodesFor_types types, turns_removing types h (removeTypes_pruned _ h hcopies)⟩

theorem refuses_of_error {types : List String} {type : String}
    (h : removeTypes (removed types) tree = .error (notCopied type)) : Refuses types tree := by
  refine ⟨removing types, [], type, removeNodesFor_types types, fun host scene w hreveal => ?_⟩
  obtain ⟨record, hall⟩ := result_performAll_removing types host hreveal
  rw [h, result_bind_error (result_ofOutcome _ _)] at hall
  exact ⟨record, by rw [result_call_removing, result_bind_error hall]⟩

/-- Of a valid tree the transformer leaves what it should, or the data of a node have no copy and it fails. -/
theorem leaves_or_refuses (types : List String) (h : Every Checked tree) :
    Leaves types tree (pruned (removed types) tree) ∨
      Refuses types tree ∧ ¬Every (fun n => n.data.CanCopy) tree := by
  rcases removeTypes_cases (removed types) h with hremoved | ⟨type, hfault, huncopied⟩
  · exact .inl ⟨removing types, [], removeNodesFor_types types, turns_removing types h hremoved⟩
  · exact .inr ⟨refuses_of_error hfault, huncopied⟩

/-- A section of two notes, one of them in a quotation. -/
def notes : Value :=
  .node (NodeOf.parent "section" [.node (NodeOf.literal "note" "a" .none),
    .node (NodeOf.parent "quotation" [.node (NodeOf.literal "note" "b" .none),
      .node (NodeOf.literal "text" "c" .none)] .none)] .none)

theorem canCopy_notes : Every (fun n => n.data.CanCopy) notes := by
  have hleaf (type value : String) :
      Every (fun n => n.data.CanCopy) (.node (NodeOf.literal type value .none)) :=
    .node .absent .none (by simp)
  have hquotation : Every (fun n => n.data.CanCopy) (.node (NodeOf.parent "quotation"
      [.node (NodeOf.literal "note" "b" .none), .node (NodeOf.literal "text" "c" .none)] .none)) :=
    .node (.list _) .none (by simpa using And.intro (hleaf "note" "b") (hleaf "text" "c"))
  exact .node (.list _) .none (by simpa using And.intro (hleaf "note" "a") hquotation)

/-- A tree whose root holds its one child in a tuple. -/
def tupled : Value := .node ⟨.str "root", .tuple [.node (NodeOf.literal "text" "a" .none)], .none, .none, .none⟩

/-- A tree whose root has a view of a mapping for its data, of which no copies are made. -/
def viewed : Value :=
  .node ⟨.str "root", .none, .none, .mapping (.other ⟨"mappingproxy", none, false, false⟩) [], .none⟩

end Standard

end TextPipeline
