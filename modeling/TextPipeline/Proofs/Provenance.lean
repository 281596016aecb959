import TextPipeline.Proofs.Bookkeeping

/-! Where the stored tree comes from. What is stored in a file for processors of a name is the tree that
was last come to for that name, by reading the file or by a run on it; nothing else stores or removes a
tree. A run, or writing as text, that is not given a tree takes the one that is stored. -/

namespace TextPipeline.Pipeline

open TextPipeline.Transform
open TextPipeline.Pipeline.Action
open World (Retains)

/-! ### What the stages come to -/

/-- The tree that an event tells of, with the name and the file. -/
def Event.produced? : Event → Option (String × Nat × Value)
  | .produced name file tree => some (name, file, tree)
  | _ => none

namespace World

/-- Since an earlier world these trees were come to, in this order. -/
def Produces (w v : World) (ps : List (String × Nat × Value)) : Prop :=
  ∃ es, v.events = w.events ++ es ∧ es.filterMap Event.produced? = ps

theorem Produces.trans {u v w : World} {ps qs : List (String × Nat × Value)} (h : u.Produces v ps)
    (h' : v.Produces w qs) : u.Produces w (ps ++ qs) := by
  obtain ⟨es, he, rfl⟩ := h
  obtain ⟨fs, hf, rfl⟩ := h'
  exact ⟨es ++ fs, by rw [hf, he, List.append_assoc], List.filterMap_append⟩

/-- Where all trees stay in place, none was come to. -/
theorem Retains.produces {w v : World} (h : w.Retains v) : w.Produces v [] := by
  obtain ⟨es, he, hes⟩ := h.events
  refine ⟨es, he, List.filterMap_eq_nil_iff.mpr fun e hmem => ?_⟩
  have := hes e hmem
  cases e <;> first | rfl | cases this

end World

/-- What is done first fails, or what comes after it starts from where it leads. -/
theorem Action.Respects.cases_bind {α β : Type} {R : World → World → Prop} {x : Action α}
    (hx : Respects R x) (f : α → Action β) (w : World) :
    (∃ e v, R w v ∧ (x >>= f).result w = (.error e, v)) ∨
      ∃ a v, R w v ∧ x.result w = (.ok a, v) ∧ (x >>= f).result w = (f a).result v := by
  have hw := hx w
  rw [result_bind]
  generalize x.result w = done at hw ⊢
  obtain ⟨o, v⟩ := done
  cases o with
  | error e => exact .inl ⟨e, v, hw, rfl⟩
  | ok a => exact .inr ⟨a, v, hw, rfl, rfl⟩

section Stages

variable {host : Host} {w : World} {p id : Nat} {q : Processor}

/-- The world in which a tree was stored that was come to. -/
def World.yielding (w : World) (id : Nat) (name : String) (tree : Value) : World :=
  (w.storing id name tree).told (.produced name id tree)

theorem World.produces_yielding (w : World) (id : Nat) (name : String) (tree : Value) :
    w.Produces (w.yielding id name tree) [(name, id, tree)] := ⟨[.produced name id tree], rfl, rfl⟩

/-- A tree that was come to is stored, and told of. -/
theorem result_yield {α : Type} {name : String} (hn : name ≠ "") (id : Nat) (tree : Value) (rest : Action α)
    (w : World) : (do storeTree id name tree; tell (.produced name id tree); rest).result w =
      rest.result (w.yielding id name tree) := by
  rw [result_bind_ok (result_storeTree hn id tree w)]
  rfl

/-- A file that is read comes to the tree that is returned, and to none if it cannot be read; then all
trees stay in place. -/
theorem parseFile_produces (hq : w.processors[p]? = some q) (settings : Value) :
    (∃ f v, (parseFile host p id settings).result w = (.error f, v) ∧ w.Retains v) ∨
      ∃ tree v, (parseFile host p id settings).result w = (.ok tree, v) ∧ tree.isNode = true ∧
        w.Produces v [(q.name, id, tree)] := by
  have hread : Respects Retains (do
      require (!q.parser.isNone) (.noParser q.name)
      let f ← file id
      log .debug logger ("Parsing " ++ f.label ++ " with processor '" ++ q.name ++ "'")
      readWith host p q.parser f settings) :=
    .bind (Retains.require _ _) fun _ => .bind (Retains.file id) fun _ => .bind (Retains.tell rfl) fun _ =>
      Retains.readWith p _ _ _
  have hparse : (parseFile host p id settings).result w = ((do
      let tree ← (do
        require (!q.parser.isNone) (.noParser q.name)
        let f ← file id
        log .debug logger ("Parsing " ++ f.label ++ " with processor '" ++ q.name ++ "'")
        readWith host p q.parser f settings)
      require tree.isNode (.parsing (.str ("Parser of processor '" ++ q.name ++ "' returned " ++
        tree.typeName ++ ", expected a Node")) (some "parse") none)
      let tree ← share tree
      storeTree id q.name tree
      tell (.produced q.name id tree)
      return tree) : Action Value).result w := by
    rw [parseFile, result_bind_ok (result_processor hq)]
    simp only [bind_assoc]
  rw [hparse]
  rcases hread.cases_bind _ w with ⟨f, v, hv, h⟩ | ⟨tree, v, hv, -, h⟩
  · exact .inl ⟨f, v, h, hv⟩
  rw [h]
  cases hnode : tree.isNode with
  | false => exact .inl ⟨_, v, rfl, hv⟩
  | true =>
    rw [result_bind_ok (result_require _ v), result_bind_ok (result_share_handed v tree), result_yield q.named]
    refine .inr ⟨_, _, rfl, World.handed_isNode v hnode, ?_⟩
    exact (World.Retains.produces (World.Temporal.trans hv (Retains.withStore _ v))).trans
      (World.produces_yielding _ id q.name _)

/-- A run comes to the tree that it returns, when its chain has; if there is no tree to start with, or the
chain fails, nothing more happens. -/
theorem runTree_produces (hq : w.processors[p]? = some q) (tree : Value) (watcher : Option Watcher) :
    (∃ f v, (runTree host p tree id watcher).result w = (.error f, v) ∧ w.Retains v) ∨
      ∃ first u, (startTree id q.name tree).result w = (.ok first, u) ∧ w.Retains u ∧
        match (runChain host q.registry.transformers watcher first id).result u with
        | (.error f, v) => (runTree host p tree id watcher).result w = (.error f, v)
        | (.ok final, v) =>
          (runTree host p tree id watcher).result w = (.ok final, v.yielding id q.name final) := by
  rw [runTree, result_bind_ok (result_processor hq)]
  rcases (Retains.startTree id q.name tree).cases_bind _ w with ⟨f, v, hv, h⟩ | ⟨first, u, hu, hfirst, h⟩
  · exact .inl ⟨f, v, h, hv⟩
  refine .inr ⟨first, u, hfirst, hu, ?_⟩
  rw [h, result_bind]
  generalize (runChain host q.registry.transformers watcher first id).result u = done
  obtain ⟨o, v⟩ := done
  cases o with
  | error f => rfl
  | ok final => exact result_yield q.named id final _ v

end Stages

namespace World.Retains

variable {host : Host}

theorem enqueue (j : Job) : Respects Retains (enqueue j) := of_files fun _ =>
  ⟨rfl, Nat.le_refl _, fun _ _ _ => rfl⟩

theorem raise (fault : Option Fault) : Respects Retains (raise fault) := by
  cases fault with
  | none => exact .of_reads (.pure _)
  | some f => exact .of_reads (.throw f)

theorem tellProcessed (receiver : TextReceiver) (error : Option Fault) (text : Value) (id : Nat) :
    Respects Retains (tellProcessed receiver error text id) := by
  cases receiver with
  | callback k => exact .get fun _ => .bind (tell rfl) fun _ => raise _
  | silent k => exact raise _
  | future future => exact enqueue _

theorem fail (watcher : Option Watcher) (receiver : TextReceiver) (f : Fault) (id : Nat) :
    Respects Retains (fail watcher receiver f id) :=
  .bind (file id) fun _ => .bind (logFault _ _ _ _) fun _ => .bind (tellFailed _ _) fun _ =>
    tellProcessed _ _ _ _

/-- Whoever is told of the result of a run, all trees stay in place; and so they do when the tree of the
run is written as text. -/
theorem receive (r file : Nat) (receiver : TreeReceiver) (error : Option Fault) (tree : Value) :
    Respects Retains (receive host r file receiver error tree) := by
  have hchange (f : Run → Run) : Respects Retains (changeRun r f) := of_files fun _ =>
    ⟨rfl, Nat.le_refl _, fun _ _ _ => rfl⟩
  cases receiver with
  | callback k => exact .get fun _ => .bind (tell rfl) fun _ => raise _
  | future future => exact enqueue _
  | compilation c =>
    cases error with
    | some f => exact fail _ _ _ _
    | none =>
      refine .bind (emit _ _) fun _ => .bind (.attempt (stringify _ _ _ _)) fun o => ?_
      cases o with
      | error f => exact .ite (fail _ _ _ _) (.of_reads (.throw _))
      | ok text =>
        exact .bind (emit _ _) fun _ => .bind (complete _ _ _) fun _ => .bind (hchange _) fun _ =>
          tellProcessed _ _ _ _

end World.Retains

section Stages

variable {host : Host} {w : World} {p id : Nat} {q : Processor}

/-- A chain that is run for a receiver has come to a tree when it ends without a fault, and to none when it
fails. -/
theorem deliver_produces {r : Nat} {x : Run} {name : String} (hn : name ≠ "") (hx : w.runs[r]? = some x)
    (receiver : TreeReceiver) (error : Option Fault) (tree : Value) :
    w.Produces ((deliver host r (.stored name receiver) error tree).result w).2
      (if error.isNone && !tree.isNone then [(name, x.file, tree)] else []) := by
  rw [result_deliver_stored hn hx]
  have htold : w.Produces (w.told (.delivered r error tree)) [] := ⟨[.delivered r error tree], rfl, rfl⟩
  have hsettled : (w.told (.delivered r error tree)).Produces
      ((w.told (.delivered r error tree)).settling r x.file name error tree)
      (if error.isNone && !tree.isNone then [(name, x.file, tree)] else []) := by
    unfold World.settling
    split
    · exact ⟨[.produced name x.file tree], rfl, rfl⟩
    · exact ⟨[], (List.append_nil _).symm, rfl⟩
  have hkept : Respects Retains (receive host r x.file receiver error tree) := .receive _ _ _ _ _
  have hreceived := (hkept ((w.told (.delivered r error tree)).settling r x.file name error tree)).produces
  simpa using (htold.trans hsettled).trans hreceived

/-! ### The tree that is taken -/

/-- Without a given tree the one is taken that is stored in the namespace of the name, which is there
then. -/
theorem result_startTree_none {name : String} (hn : name ≠ "") (id : Nat) (w : World) :
    ∃ g, (w.files.getD id File.empty).openNamespace (.str name) = .ok g ∧
      (startTree id name .none).result w =
        (match w.treeOf id name with
          | some tree => if tree.isNode then .ok tree else .error (storedTree.missing name g)
          | none => .error (storedTree.missing name g),
        { w with files := w.files.set id g }) := by
  obtain ⟨g, hg⟩ := openNamespace_ok hn (w.files.getD id File.empty)
  have hfile : (file id).result w = (.ok (w.files.getD id File.empty), w) := rfl
  have hopen : (liftM (File.openNamespace (w.files.getD id File.empty) (.str name)) :
      Action File).result w = (.ok g, w) := by
    rw [result_lift, hg]
  have hset : (setFile id g).result w = (.ok ⟨⟩, { w with files := w.files.set id g }) := rfl
  have hstart : (startTree id name .none).result w = (storedTree id name).result w := rfl
  have htree : w.treeOf id name = (g.results (.str name)).find? treeKey :=
    (File.openNamespace_treeOf hg name).symm
  refine ⟨g, hg, ?_⟩
  rw [hstart, storedTree, result_bind_ok hfile, result_bind_ok hopen, result_bind_ok hset, htree]
  cases (g.results (.str name)).find? treeKey with
  | none => rfl
  | some tree => cases hnode : tree.isNode <;> simp [hnode]

/-- A tree that is stored is taken as if it had been given. -/
theorem result_startTree_stored {name : String} (hn : name ≠ "") {tree : Value}
    (h : w.treeOf id name = some tree) (hnode : tree.isNode = true) :
    (startTree id name .none).result w = (.ok tree, w) := by
  obtain ⟨g, hg, hstart⟩ := result_startTree_none hn id w
  obtain rfl := Except.ok.inj ((File.openNamespace_stored hn h).symm.trans hg)
  have hid : w.files.set id (w.files.getD id File.empty) = w.files := by
    by_cases hlt : id < w.files.length
    · rw [List.getD_eq_getElem?_getD, List.getElem?_eq_getElem hlt, Option.getD_some, List.set_getElem_self]
    · exact List.set_eq_of_length_le (Nat.le_of_not_lt hlt)
  rw [hstart, h, hid]
  simp [hnode]

theorem result_startTree_given {name : String} {tree : Value} (hnode : tree.isNode = true) (w : World) :
    (startTree id name tree).result w = (.ok tree, w) :=
  result_startTree (isNone_of_isNode hnode) id name w

/-- Where no tree is stored there is none to start with. -/
theorem result_startTree_absent {name : String} (hn : name ≠ "")
    (h : ∀ tree, w.treeOf id name = some tree → tree.isNode = false) :
    ∃ f v, (startTree id name .none).result w = (.error f, v) ∧ f.isKind "MissingTreeError" = true ∧
      w.Retains v := by
  obtain ⟨g, -, hstart⟩ := result_startTree_none hn id w
  have hmissing : (startTree id name .none).result w =
      (.error (storedTree.missing name g), { w with files := w.files.set id g }) := by
    rw [hstart]
    cases htree : w.treeOf id name with
    | none => rfl
    | some tree => simp [h tree htree]
  have hkept := Retains.startTree id name .none w
  rw [hmissing] at hkept
  exact ⟨_, _, hmissing, startTree_error hn hmissing, hkept⟩

/-- Something that is done with a tree. If none is given, it does what it does with the tree that is stored
in the file for the name; if none is stored there, a fault says so, and all trees stay in place. -/
structure TakesStored {α : Type} (w : World) (id : Nat) (name : String) (x : Value → Action α)
    (miss : Fault → Action α) : Prop where
  present : ∀ tree, w.treeOf id name = some tree → tree.isNode = true →
    (x .none).result w = (x tree).result w
  absent : (∀ tree, w.treeOf id name = some tree → tree.isNode = false) →
    ∃ f v, f.isKind "MissingTreeError" = true ∧ w.Retains v ∧ (x .none).result w = (miss f).result v

/-- What depends on the tree only through the one to start with takes the stored one. -/
theorem TakesStored.of_start {α : Type} {name : String} (hn : name ≠ "") {x : Value → Action α}
    {miss : Fault → Action α}
    (hsame : ∀ s t, (startTree id name s).result w = (startTree id name t).result w →
      (x s).result w = (x t).result w)
    (hfail : ∀ f v, f.isKind "MissingTreeError" = true → (startTree id name .none).result w = (.error f, v) →
      (x .none).result w = (miss f).result v) : TakesStored w id name x miss where
  present tree htree hnode :=
    hsame _ _ ((result_startTree_stored hn htree hnode).trans (result_startTree_given hnode w).symm)
  absent h := by
    obtain ⟨f, v, hstart, hf, hv⟩ := result_startTree_absent hn h
    exact ⟨f, v, hf, hv, hfail f v hf hstart⟩

section Processor

variable (hq : w.processors[p]? = some q)
include hq

theorem takesStored_runTree (watcher : Option Watcher) :
    TakesStored w id q.name (fun tree => runTree host p tree id watcher) throw := by
  refine .of_start q.named (fun s t h => ?_) fun f v _ h => ?_
  · rw [runTree, runTree, result_bind_ok (result_processor hq), result_bind_ok (result_processor hq),
      result_bind, result_bind, h]
  · rw [runTree, result_bind_ok (result_processor hq)]
    exact result_bind_error h

theorem takesStored_runTreeFor (watcher : Option Watcher) (receiver : TreeReceiver) :
    TakesStored w id q.name (fun tree => runTreeFor host p tree id watcher receiver)
      (fun f => do tellNoTree receiver f id; return none) := by
  refine .of_start q.named (fun s t h => ?_) fun f v hf h => ?_
  · rw [runTreeFor, runTreeFor, result_bind_ok (result_processor hq), result_bind_ok (result_processor hq),
      result_bind_ok (result_attempt _ w), result_bind_ok (result_attempt _ w), h]
  · rw [runTreeFor, result_bind_ok (result_processor hq), result_bind_ok (result_attempt _ w), h]
    dsimp only
    rw [hf]
    rfl

theorem takesStored_stringify (hcompiler : q.compiler.isNone = false) (settings : Value) :
    TakesStored w id q.name (fun tree => stringify host p tree (.handle (.file id)) settings) throw := by
  have hrequire : (require (!q.compiler.isNone) (.noCompiler q.name)).result w = (.ok (), w) := by
    rw [hcompiler]
    rfl
  have hfile : (toFile (.handle (.file id))).result w = (.ok id, w) := rfl
  refine .of_start q.named (fun s t h => ?_) fun f v _ h => ?_
  · rw [stringify, stringify, result_bind_ok (result_processor hq), result_bind_ok (result_processor hq),
      result_bind_ok hrequire, result_bind_ok hrequire, result_bind_ok hfile, result_bind_ok hfile,
      result_bind, result_bind, h]
  · rw [stringify, result_bind_ok (result_processor hq), result_bind_ok hrequire, result_bind_ok hfile]
    exact result_bind_error h

end Processor

/-- What the stages of a processor do with the tree that is stored for it in a file. -/
structure StagesLawful (host : Host) (w : World) (p id : Nat) (q : Processor) : Prop where
  /-- Reading the file comes to the tree that is returned; if it fails, all trees stay in place. -/
  parse : ∀ settings, (∃ f v, (parseFile host p id settings).result w = (.error f, v) ∧ w.Retains v) ∨
    ∃ tree v, (parseFile host p id settings).result w = (.ok tree, v) ∧ tree.isNode = true ∧
      w.Produces v [(q.name, id, tree)]
  /-- A run comes to the tree that is returned, when its chain has ended; if it fails, nothing happens after
  the chain has. -/
  run : ∀ tree watcher, (∃ f v, (runTree host p tree id watcher).result w = (.error f, v) ∧ w.Retains v) ∨
    ∃ first u, (startTree id q.name tree).result w = (.ok first, u) ∧ w.Retains u ∧
      match (runChain host q.registry.transformers watcher first id).result u with
      | (.error f, v) => (runTree host p tree id watcher).result w = (.error f, v)
      | (.ok final, v) =>
        (runTree host p tree id watcher).result w = (.ok final, v.yielding id q.name final)
  /-- A run for a receiver comes to the tree with which its chain ends without a fault, and to no other. -/
  delivered : ∀ r x receiver error tree, w.runs[r]? = some x →
    w.Produces ((deliver host r (.stored q.name receiver) error tree).result w).2
      (if error.isNone && !tree.isNone then [(q.name, x.file, tree)] else [])
  /-- Writing a tree as text leaves all trees in place, whether it succeeds or not. -/
  stringify : ∀ tree given settings, w.Retains ((stringify host p tree given settings).result w).2
  takenByRun : ∀ watcher, TakesStored w id q.name (fun tree => runTree host p tree id watcher) throw
  takenByRunFor : ∀ watcher receiver,
    TakesStored w id q.name (fun tree => runTreeFor host p tree id watcher receiver)
      (fun f => do tellNoTree receiver f id; return none)
  takenByStringify : q.compiler.isNone = false → ∀ settings,
    TakesStored w id q.name (fun tree => Pipeline.stringify host p tree (.handle (.file id)) settings) throw

theorem stagesLawful (host : Host) (id : Nat) (hq : w.processors[p]? = some q) :
    StagesLawful host w p id q where
  parse := parseFile_produces hq
  run := runTree_produces hq
  delivered _ _ receiver error tree hx := deliver_produces q.named hx receiver error tree
  stringify tree given settings := Retains.stringify p tree given settings w
  takenByRun := takesStored_runTree hq
  takenByRunFor := takesStored_runTreeFor hq
  takenByStringify hcompiler := takesStored_stringify hq hcompiler

end Stages

/-! ### What the chains come to -/

/-- The tree of a chain that was started on one is one wherever it stands. -/
def Standing.Rooted : Standing → Prop
  | .due _ tree | .waiting _ tree _ | .failed _ tree => tree.isNode = true
  | .ended => True

theorem Run.standing_rooted {x : Run} {r : Nat} {es : List Event} (hx : x.tree.isNode = true)
    (hlawful : x.Lawful r es) (hroot : ∀ id, ∀ result ∈ resolutions id es, Rooted result) :
    (x.standing r es).Rooted := by
  induction es using List.reverseRecOn with
  | nil => exact hx
  | append_singleton es e ih =>
    obtain ⟨hes, hpermits⟩ := Run.Lawful.snoc_iff.mp hlawful
    have hstands := ih hes fun id result hmem => hroot id result (by
      rw [resolutions_append]
      exact List.mem_append_left _ hmem)
    rw [Run.standing_snoc]
    cases e with
    | called run a =>
      simp only [Standing.after]
      split
      · obtain ⟨hdue, -⟩ := hpermits ‹_›
        rw [hdue] at hstands
        exact hstands
      · exact hstands
    | resolved id result =>
      cases hs : x.standing r es with
      | waiting index tree awaited =>
        rw [hs] at hstands
        simp only [Standing.after]
        split
        · have hresult := hroot id result (by simp)
          unfold Standing.settle
          split
          · exact hstands
          · cases htree : result.tree with
            | none => exact hstands
            | some tree => exact hresult tree htree
        · exact hstands
      | due | failed | ended =>
        rw [hs] at hstands
        exact hstands
    | delivered run error tree =>
      simp only [Standing.after]
      split
      · trivial
      · exact hstands
    | _ => exact hstands

namespace World.Sound

variable {v : World} {r : Nat}

/-- What is delivered without a fault is a tree, if the chain was started on one. -/
theorem delivered_isNode (hv : v.Sound) (hnodes : ∀ x ∈ v.runs, x.tree.isNode = true) {tree : Value}
    (h : (none, tree) ∈ deliveries r v.events) : tree.isNode = true := by
  have hlt : r < v.runs.length := by
    by_contra hge
    rw [(hv.fresh r (Nat.le_of_not_lt hge)).2] at h
    cases h
  obtain ⟨e, he, hdelivery⟩ := List.mem_filterMap.mp h
  obtain ⟨pre, post, hevents⟩ := List.append_of_mem he
  have hlawful := hv.lawful r v.runs[r] (List.getElem?_eq_getElem hlt)
  rw [hevents] at hlawful
  cases e with
  | delivered run error final =>
    obtain ⟨hr, heq⟩ : run = r ∧ (error, final) = (none, tree) := by
      simpa [Event.delivery?] using hdelivery
    obtain ⟨rfl, rfl⟩ := Prod.mk.inj heq
    have hdue := hlawful pre _ post rfl hr
    have hroot := Run.standing_rooted (hnodes _ (List.getElem_mem hlt)) hlawful.of_append fun id result hmem =>
      hv.rooted id result (by
        rw [hevents, resolutions_append]
        exact List.mem_append_left _ hmem)
    rw [hdue] at hroot
    exact hroot
  | _ => cases hdelivery

/-- A step that was called is a step of its run. -/
theorem called_mem (hv : v.Sound) {a : Invocation} (h : .called r a ∈ v.events) :
    ∃ x ∈ v.runs, a.step ∈ x.steps := by
  have hcalls : a ∈ calls r v.events := List.mem_filterMap.mpr ⟨_, h, by simp⟩
  have hlt : r < v.runs.length := by
    by_contra hge
    rw [(hv.fresh r (Nat.le_of_not_lt hge)).1] at hcalls
    cases hcalls
  obtain ⟨pre, post, hevents⟩ := List.append_of_mem h
  have hpermits := hv.lawful r v.runs[r] (List.getElem?_eq_getElem hlt) pre _ post hevents rfl
  exact ⟨_, List.getElem_mem hlt, List.mem_of_getElem? hpermits.2⟩

end World.Sound

/-- The trees that were last come to are trees. -/
theorem latest_isNode {v : World} {es : List Event} (hv : v.Sound)
    (hnodes : ∀ x ∈ v.runs, x.tree.isNode = true) (hgrounded : ∀ e ∈ es, e.Grounded v.events) {file : Nat}
    {name : String} {tree : Value} (h : latest file name es = some tree) : tree.isNode = true := by
  obtain ⟨e, he, hproduction⟩ := List.mem_filterMap.mp (List.mem_of_getLast? h)
  have hground := hgrounded e he
  cases e with
  | produced n f t =>
    obtain ⟨-, rfl⟩ : (f = file ∧ n = name) ∧ t = tree := by simpa [Event.production?] using hproduction
    rcases hground with hnode | ⟨r, hr⟩
    · exact hnode
    · exact hv.delivered_isNode hnodes hr
  | _ => cases hproduction

/-- At every moment the tree that is stored in a file for a name is the one that was last come to for this
name, by reading the file or by a run on it, or else the one that was stored before; and so it was at every
moment at which a step was called. The trees that were come to are trees, if all runs were started on trees.
A stage comes to the tree that it returns or delivers, and to none if it fails; writing a tree as text leaves
all stored trees in place. What is not given a tree takes the one that is stored, and says so if there is
none. Nothing is supposed but that neither the steps of the runs nor changes from outside touch what is
stored. -/
theorem stored_tree_law (endpoints : Grammar.Endpoints) (standard : List (Plugin.Metadata Attacher))
    (surroundings : Plugin.Surroundings Attacher) (depth : Nat) (before moves : List Move) :
    let host := Host.nested endpoints standard surroundings depth
    let w := play host before {}
    let v := play host moves w
    (∀ m ∈ before ++ moves, m.Docile) → (∀ x ∈ v.runs, ∀ t ∈ x.steps, t.Docile) →
    (∃ es, v.events = w.events ++ es ∧ w.Held v es ∧
      ((∀ x ∈ v.runs, x.tree.isNode = true) →
        ∀ file name tree, latest file name es = some tree → tree.isNode = true)) ∧
    ∀ p id q, v.processors[p]? = some q → StagesLawful host v p id q := by
  intro host w v hmoves hsteps
  have hhost : host.Accountable := Host.nested_accountable endpoints standard surroundings depth
  obtain ⟨fs, hbefore⟩ := World.Accounts.play hhost (fun m hm => hmoves m (List.mem_append_left _ hm)) {}
  obtain ⟨es, haccount⟩ := World.Accounts.play hhost (fun m hm => hmoves m (List.mem_append_right _ hm)) w
  have hsound : v.Sound := by
    have hw : w.Sound := reached_sound endpoints standard surroundings depth before
    exact (hw.play (Host.nested_steady endpoints standard surroundings depth) moves).1
  have hevents : v.events = fs ++ es := by
    rw [haccount.events, hbefore.events]
    rfl
  have hdocile : ∀ e ∈ fs ++ es, e.Docile := fun e he => by
    rw [← hevents] at he
    cases e with
    | called r a =>
      obtain ⟨x, hx, ha⟩ := hsound.called_mem he
      exact hsteps x hx _ ha
    | _ => trivial
  have hw := (hbefore.held trivial nofun fun e he => hdocile e (List.mem_append_left _ he)).1
  have hheld := (haccount.held trivial hw fun e he => hdocile e (List.mem_append_right _ he)).2
  have hgrounded := (haccount.kept (hbefore.kept nofun).1).2
  exact ⟨⟨es, haccount.events, hheld, fun hnodes _ _ _ => latest_isNode hsound hnodes hgrounded⟩,
    fun p id q hq => stagesLawful host id hq⟩

/-! ### Two processors on one file

The first has a step that does nothing, the second one that fails; both run on the same tree. -/

namespace TwoNames

def idle : Transformer := .mk "idle" .plain fun _ _ => []

def failing : Transformer := .mk "failing" .plain fun _ _ => [.raise (.raised "ValueError" [])]

def first : Processor := ⟨"first", by decide, .none, .none, .dict [], ⟨[], [idle]⟩⟩

def second : Processor := ⟨"second", by decide, .none, .none, .dict [], ⟨[], [failing]⟩⟩

/-- Both processors and a file come to be. -/
def made : List Move :=
  [.change fun c => { c with
    processors := c.processors ++ [first, second]
    files := c.files ++ [{ File.empty with contents := .str "hello" }] }]

/-- Both processors run on the file. -/
def ran : List Move :=
  let tree := .node ⟨.str "root", .none, .none, .none, .none⟩
  [.run (.handle (.processor 0)) tree (.handle (.file 0)) none none,
    .run (.handle (.processor 1)) tree (.handle (.file 0)) none none]

def host : Host := Host.nested .standard [] (.ok []) 1

def before : World := play host made {}

def reached : World := play host ran before

theorem moves_docile : ∀ m ∈ made ++ ran, m.Docile := by
  intro m hm
  simp only [made, ran, List.cons_append, List.nil_append, List.mem_cons, List.not_mem_nil,
    or_false] at hm
  rcases hm with rfl | rfl | rfl
  · refine fun c => ⟨by simp, fun file hlt name => ?_⟩
    simp only [List.getD_eq_getElem?_getD, List.getElem?_append_left hlt]
  · trivial
  · trivial

theorem reached_steps : reached.runs.map (·.steps) = [[idle], [failing]] := by rfl

theorem reached_second : reached.processors[1]? = some second := by rfl

theorem steps_docile : ∀ x ∈ reached.runs, ∀ t ∈ x.steps, t.Docile := fun x hx t ht => by
  have hmem : x.steps ∈ [[idle], [failing]] := reached_steps ▸ List.mem_map_of_mem hx
  rcases List.mem_cons.mp hmem with h | h
  · obtain rfl := List.mem_singleton.mp (h ▸ ht)
    exact fun _ _ _ ha => nomatch ha
  · obtain rfl := List.mem_singleton.mp (List.mem_singleton.mp h ▸ ht)
    exact fun _ _ a ha => by
      obtain rfl := List.mem_singleton.mp ha
      trivial

end TwoNames

open TwoNames in
/-- A run has come to a tree, and another one for a processor of another name has failed: the tree stays, and
none is stored for the other name. -/
theorem stored_tree_law_failed :
    (∀ m ∈ made ++ ran, m.Docile) ∧ (∀ x ∈ reached.runs, ∀ t ∈ x.steps, t.Docile) ∧
      (∃ es, reached.events = before.events ++ es ∧ before.Held reached es ∧
        ∀ file name tree, latest file name es = some tree → tree.isNode = true) ∧
      StagesLawful host reached 1 0 second ∧ reached.runs.length = 2 ∧
      (reached.treeOf 0 "first").map (·.isNode) = some true ∧
      (reached.treeOf 0 "second").isNone = true := by
  have hnodes : ∀ x ∈ reached.runs, x.tree.isNode = true := by decide +kernel
  have hstored : reached.runs.length = 2 ∧ (reached.treeOf 0 "first").map (·.isNode) = some true ∧
      (reached.treeOf 0 "second").isNone = true := by decide +kernel
  obtain ⟨⟨es, hevents, hheld, htrees⟩, hstages⟩ :=
    stored_tree_law .standard [] (.ok []) 1 made ran moves_docile steps_docile
  exact ⟨moves_docile, steps_docile, ⟨es, hevents, hheld, htrees hnodes⟩,
    hstages 1 0 second reached_second, hstored⟩

end TextPipeline.Pipeline
