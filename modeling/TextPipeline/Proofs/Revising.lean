import TextPipeline.Proofs.Closed
import TextPipeline.Proofs.Restoring
import TextPipeline.Proofs.Storing

/-! Transformers that change the tree of a text and its file, and nothing else. What their steps come to
is a relation between trees and files, from which follow the call, the chain of one such step, and with
it the whole pipeline. -/

namespace TextPipeline

/-- The fault with which a chain ends of which a step has failed: that of the step, unless it is an error
that has no description. -/
def Fault.chained (f : Fault) : Fault :=
  match f.isError, f.inspect with
  | true, .error unread => unread
  | _, _ => f

theorem Fault.chained_eq {f : Fault} {said : String} (h : f.inspect = .ok said) : f.chained = f := by
  unfold chained
  rw [h]
  cases f.isError <;> rfl

theorem Fault.chained_of_not_isError {f : Fault} (h : f.isError = false) : f.chained = f := by
  unfold chained
  rw [h]

end TextPipeline

namespace TextPipeline.Pipeline

open TextPipeline.Transform
open TextPipeline.Pipeline.Action

/-- A sight in which what refers to nothing shared is seen as it is. -/
def Sight.Clear (s : Sight) : Prop := ∀ v : Value, v.Closed → s.reveal v = v

theorem World.clear_sight (w : World) : w.sight.Clear := fun _ hv => hv _

/-- The tree and the file that steps leave, and the fault with which they end if they do. -/
inductive Effects : List Act → Value → File → Option Fault → Value → File → Prop
  | nil (tree : Value) (f : File) : Effects [] tree f none tree f
  | log {record : LogRecord} {rest : List Act} {tree tree' : Value} {f f' : File}
      {fault : Option Fault} :
      Effects rest tree f fault tree' f' → Effects (.log record :: rest) tree f fault tree' f'
  | raise (fault : Fault) (rest : List Act) (tree : Value) (f : File) :
      Effects (.raise fault :: rest) tree f (some fault) tree f
  | change {make : Sight → Value → File → Change} {c : Change} {rest : List Act}
      {tree tree' : Value} {f f' : File} {fault : Option Fault} :
      (∀ s : Sight, s.Clear → make s tree f = c) → c.fault = none →
      Effects rest c.tree c.file fault tree' f' →
      Effects (.change make :: rest) tree f fault tree' f'
  | fail {make : Sight → Value → File → Change} {c : Change} {rest : List Act}
      {tree : Value} {f : File} {fault : Fault} :
      (∀ s : Sight, s.Clear → make s tree f = c) → c.fault = some fault →
      Effects (.change make :: rest) tree f (some fault) c.tree c.file
  | mapLiterals {type : Option Value} {g : Node → Outcome Value} {records : Nat → List LogRecord}
      {m : Tree.Mapped} {rest : List Act} {tree tree' : Value} {f f' : File} {fault : Option Fault} :
      (∀ shared : Handle → StateM Store Tree.Mapped,
        Tree.mapLiteralsWith shared g type tree = pure m) → m.fault = none →
      Effects rest m.tree f fault tree' f' →
      Effects (.mapLiterals type g records :: rest) tree f fault tree' f'

/-- The world after a tree that is kept and a file were changed, with some events. -/
def World.revised (w : World) (n : Nat) (tree : Value) (id : Nat) (f : File) (es : List Event) :
    World :=
  { w with
    store := ⟨w.store.cells.set n tree⟩
    files := w.files.set id f
    events := w.events ++ es }

section Steps

variable {host : Host} {scene : Scene} {w : World} {n : Nat} {tree : Value} {f : File}

theorem World.revised_revised (w : World) (n id : Nat) (tree tree' : Value) (f f' : File)
    (es es' : List Event) :
    (w.revised n tree id f es).revised n tree' id f' es' = w.revised n tree' id f' (es ++ es') := by
  simp [revised]

theorem World.revised_same (hn : w.store.cells[n]? = some tree) {id : Nat} (hf : w.files[id]? = some f)
    (es : List Event) : w.revised n tree id f es = { w with events := w.events ++ es } := by
  rw [revised, set_of_getElem? hn, set_of_getElem? hf]

theorem World.revised_cell (hn : w.store.cells[n]? = some tree) (tree' : Value) (id : Nat) (f' : File)
    (es : List Event) : (w.revised n tree' id f' es).store.cells[n]? = some tree' :=
  List.getElem?_set_self (List.getElem?_eq_some_iff.mp hn).1

theorem World.revised_file {id : Nat} (hf : w.files[id]? = some f) (n : Nat) (tree' : Value) (f' : File)
    (es : List Event) : (w.revised n tree' id f' es).files[id]? = some f' :=
  List.getElem?_set_self (List.getElem?_eq_some_iff.mp hf).1

theorem result_tellAll (records : List LogRecord) (w : World) :
    (records.forM fun record => Action.tell (.log record)).result w =
      (.ok (), { w with events := w.events ++ records.map .log }) := by
  induction records generalizing w with
  | nil => simp
  | cons record records ih =>
    show (Action.tell (.log record) >>= fun _ =>
      records.forM fun record => Action.tell (.log record)).result w = _
    rw [result_bind_ok (result_tell _ w), ih]
    simp [World.told]

theorem result_setFile (id : Nat) (f : File) (w : World) :
    (setFile id f).result w = (.ok ⟨⟩, { w with files := w.files.set id f }) := rfl

/-- What a change makes of a tree and a file goes to their places. -/
theorem result_perform_change {make : Sight → Value → File → Change} {c : Change} {rest : List Act}
    (hscene : scene.tree = .handle (.node n)) (hn : w.store.cells[n]? = some tree)
    (hf : w.files[scene.file]? = some f) (hc : ∀ s : Sight, s.Clear → make s tree f = c) :
    (perform host scene false (.change make :: rest)).result w =
      (do
        raise c.fault
        perform host scene false rest : Action (Sum Value (List Act))).result
          (w.revised n c.tree scene.file c.file (c.records.map .log)) := by
  have hcontent : (content scene.tree).result w = (.ok tree, w) := by
    rw [hscene]
    show (Except.ok ((w.store.cells[n]?).getD _), w) = _
    rw [hn]
    rfl
  have hstore : (withStore (Store.change (fun _ => c.tree) scene.tree)).result w =
      (.ok scene.tree, { w with store := ⟨w.store.cells.set n c.tree⟩ }) := by
    rw [hscene]
    rfl
  rw [perform, result_get_bind, result_bind_ok hcontent, result_bind_ok (result_file hf),
    hc _ w.clear_sight]
  dsimp only
  rw [result_bind_ok hstore, result_bind_ok (result_setFile _ _ _), result_bind_ok (result_tellAll _ _)]
  rfl

/-- What a map over the literals makes of a tree goes to its place. -/
theorem result_perform_mapLiterals {type : Option Value} {g : Node → Outcome Value}
    {records : Nat → List LogRecord} {m : Tree.Mapped} {rest : List Act}
    (hscene : scene.tree = .handle (.node n)) (hn : w.store.cells[n]? = some tree)
    (hf : w.files[scene.file]? = some f)
    (hm : ∀ shared : Handle → StateM Store Tree.Mapped,
      Tree.mapLiteralsWith shared g type tree = pure m) (hnone : m.fault = none) :
    (perform host scene false (.mapLiterals type g records :: rest)).result w =
      (perform host scene false rest).result
        (w.revised n m.tree scene.file f ((records m.count).map .log)) := by
  have hwithin : (Store.mapWithin g type (w.store.cells.length + 1) (.node n)).run w.store =
      ({ m with tree := .handle (.node n) }, ⟨w.store.cells.set n m.tree⟩) := by
    have hcontent : w.store.content? (.node n) = some tree := hn
    rw [Store.mapWithin]
    simp [hcontent, hm, StateT.run_bind]
    rfl
  have hmap : (withStore (Store.mapLiterals g type scene.tree)).result w =
      (.ok { m with tree := scene.tree }, { w with store := ⟨w.store.cells.set n m.tree⟩ }) := by
    rw [hscene]
    show (Except.ok ((Store.mapWithin g type (w.store.cells.length + 1) (.node n)).run w.store).1,
      { w with store := ((Store.mapWithin g type (w.store.cells.length + 1) (.node n)).run w.store).2 }) = _
    rw [hwithin]
  have hraise (v : World) : (Action.raise none).result v = (.ok (), v) := rfl
  rw [perform, result_bind_ok hmap, hnone, result_bind_ok (hraise _),
    result_bind_ok (result_tellAll _ _)]
  simp only [World.revised, set_of_getElem? hf]

/-- Steps that leave a tree and a file leave them in their places. -/
theorem Effects.result {acts : List Act} {fault : Option Fault} {tree' : Value} {f' : File}
    (h : Effects acts tree f fault tree' f') (host : Host) (scene : Scene)
    (hscene : scene.tree = .handle (.node n)) (hn : w.store.cells[n]? = some tree)
    (hf : w.files[scene.file]? = some f) :
    ∃ es, (perform host scene false acts).result w =
      (fault.elim (.ok (.inl .none)) .error, w.revised n tree' scene.file f' es) := by
  induction h generalizing w with
  | nil tree f =>
    refine ⟨[], ?_⟩
    rw [World.revised_same hn hf, List.append_nil]
    rfl
  | @log record rest tree tree' f f' fault _ ih =>
    obtain ⟨es, hes⟩ := ih (w := w.told (.log record)) hn hf
    refine ⟨.log record :: es, ?_⟩
    rw [perform, result_bind_ok (result_tell _ w), hes]
    simp [World.revised, World.told]
  | raise fault rest tree f =>
    refine ⟨[], ?_⟩
    rw [World.revised_same hn hf, List.append_nil]
    rfl
  | @change make c rest tree tree' f f' fault hc hnone _ ih =>
    obtain ⟨es, hes⟩ := ih (World.revised_cell hn _ _ _ _) (World.revised_file hf n c.tree _ _)
    refine ⟨c.records.map .log ++ es, ?_⟩
    rw [result_perform_change hscene hn hf hc, hnone, ← World.revised_revised]
    exact hes
  | @fail make c rest tree f fault hc hfault =>
    refine ⟨c.records.map .log, ?_⟩
    rw [result_perform_change hscene hn hf hc, hfault]
    rfl
  | @mapLiterals type g records m rest tree tree' f f' fault hm hnone _ ih =>
    obtain ⟨es, hes⟩ := ih (World.revised_cell hn _ _ _ _) (World.revised_file hf n m.tree _ _)
    refine ⟨(records m.count).map .log ++ es, ?_⟩
    rw [result_perform_mapLiterals hscene hn hf hm hnone, ← World.revised_revised]
    exact hes

/-- What a transformer that is called as a function makes of a tree and a file. -/
structure Makes (t : Transformer) (tree : Value) (f : File) (fault : Option Fault) (tree' : Value)
    (f' : File) : Prop where
  plain : t.style = .plain
  effects : Effects (t.program tree f) tree f fault tree' f'

theorem Makes.result {t : Transformer} {fault : Option Fault} {tree' : Value} {f' : File}
    (h : Makes t tree f fault tree' f') (hclosed : tree.Closed) (host : Host) (scene : Scene)
    (hscene : scene.tree = .handle (.node n)) (hn : w.store.cells[n]? = some tree)
    (hf : w.files[scene.file]? = some f) :
    ∃ es, (call host scene t).result w =
      (fault.elim (.ok (.value .none)) .error, w.revised n tree' scene.file f' es) := by
  obtain ⟨es, hes⟩ := h.effects.result host scene hscene hn hf
  refine ⟨es, ?_⟩
  have hreveal : (reveal scene.tree).result w = (.ok tree, w) := by
    rw [hscene, result_reveal, World.reveal_node hn hclosed]
  have hall : (performAll host scene t).result w =
      (fault.elim (.ok .none) .error, w.revised n tree' scene.file f' es) := by
    rw [performAll, result_bind_ok hreveal, result_bind_ok (result_file hf)]
    cases fault with
    | none => rw [result_bind_ok hes]; rfl
    | some fault => exact result_bind_error hes
  have htell : (tellArguments t).result w = (.ok (), w) := by
    rw [tellArguments, h.plain]
    rfl
  rw [call, h.plain]
  dsimp only
  rw [result_bind_ok htell]
  cases fault with
  | none => rw [result_bind_ok hall]; rfl
  | some fault => exact result_bind_error hall

/-- What a transformer that is called as a function comes to resolves its completion, unless it is a fault
that goes through everything. -/
theorem result_conclude_plain {t : Transformer} (hplain : t.style = .plain) {id : Nat}
    (hid : w.completions[id]? = some (.start t.name)) (host : Host) (fault : Option Fault) :
    (∃ e, fault = some e ∧ e.isError = false ∧
        (conclude host id t (fault.elim (.ok (.value .none)) .error)).result w = (.error e, w)) ∨
      (∀ e, fault = some e → e.isError = true) ∧
        (conclude host id t (fault.elim (.ok (.value .none)) .error)).result w =
          (.ok (), w.answering id (.start t.name) ⟨fault, none⟩) := by
  have htakes : t.style.takesNext = false := by
    rw [hplain]
    rfl
  have hresolve (result : Resolution) : (resolve host id result).result w =
      (.ok (), w.answering id (.start t.name) result) :=
    result_resolve_unwaited hid rfl rfl result
  have hcompletion : (completion id).result w = (.ok (.start t.name), w) := result_completion hid
  cases fault with
  | none =>
    refine .inr ⟨nofun, ?_⟩
    show (conclude host id t (.ok (.value .none))).result w = _
    rw [conclude, htakes]
    exact hresolve _
  | some e =>
    cases herror : e.isError with
    | false =>
      refine .inl ⟨e, rfl, herror, ?_⟩
      show (conclude host id t (.error e)).result w = _
      rw [conclude, result_bind_ok hcompletion, herror]
      rfl
    | true =>
      refine .inr ⟨fun e' he' => Option.some.inj he' ▸ herror, ?_⟩
      show (conclude host id t (.error e)).result w = _
      rw [conclude, result_bind_ok hcompletion, herror, htakes]
      exact hresolve _

/-- A step of a chain is resolved with what the transformer comes to, unless this is a fault that goes
through everything. -/
theorem Makes.invoke {t : Transformer} {fault : Option Fault} {tree' : Value} {f' : File}
    (h : Makes t tree f fault tree' f') (hclosed : tree.Closed) (host : Host) (r index : Nat) {x : Run}
    (hn : w.store.cells[n]? = some tree) (hf : w.files[x.file]? = some f) :
    ∃ u, w.Revised u n tree' x.file f' ∧ u.runs = w.runs ∧
      ((∃ e, fault = some e ∧ e.isError = false ∧
          (invoke host r x index t (.handle (.node n))).result w = (.error e, u)) ∨
        (∀ e, fault = some e → e.isError = true) ∧
          (invoke host r x index t (.handle (.node n))).result w = (.ok w.completions.length, u) ∧
          u.completions[w.completions.length]? = some (answered (.start t.name) ⟨fault, none⟩)) := by
  obtain ⟨k, hk⟩ : ∃ k, k = Value.handle (.node n) := ⟨_, rfl⟩
  rw [← hk]
  obtain ⟨es, hcall⟩ := h.result (w := (w.calling r x index t k).told (applying x index t)) hclosed host
    ⟨k, x.file, w.completions.length, t.style.takesNext⟩ hk hn hf
  obtain ⟨u, hu⟩ : ∃ u, u = ((w.calling r x index t k).told (applying x index t)).revised n tree'
    x.file f' es := ⟨_, rfl⟩
  rw [← hu] at hcall
  have hcompletion : u.completions[w.completions.length]? = some (.start t.name) := by
    rw [hu]
    exact List.getElem?_concat_length
  have hrevised : w.Revised u n tree' x.file f' := by
    rw [hu]
    exact ⟨rfl, rfl, rfl⟩
  have hruns : u.runs = w.runs := by
    rw [hu]
    rfl
  have hinvoke := result_invoke host r x index t k w
  rw [result_apply_calling, World.concluded, World.call, hcall] at hinvoke
  dsimp only at hinvoke
  rcases result_conclude_plain h.plain hcompletion host fault with
    ⟨e, he, hstop, hconclude⟩ | ⟨herrors, hconclude⟩
  · rw [hconclude] at hinvoke
    exact ⟨u, hrevised, hruns, .inl ⟨e, he, hstop, hinvoke⟩⟩
  · rw [hconclude] at hinvoke
    exact ⟨u.answering w.completions.length (.start t.name) ⟨fault, none⟩,
      ⟨hrevised.processors, hrevised.cells, hrevised.files⟩, hruns,
      .inr ⟨herrors, hinvoke, List.getElem?_set_self (List.getElem?_eq_some_iff.mp hcompletion).1⟩⟩

/-- A chain of one transformer does what the transformer does. -/
theorem Makes.revises {t : Transformer} {fault : Option Fault} {tree' : Value} {f' : File}
    (h : Makes t tree f fault tree' f') (hclosed : tree.Closed) (host : Host) (id : Nat) :
    Revises host [t] n tree id f (fault.map Fault.chained) tree' f' := by
  intro w hn hf
  obtain ⟨k, hk⟩ : ∃ k, k = Value.handle (.node n) := ⟨_, rfl⟩
  obtain ⟨x, hx⟩ : ∃ x, x = w.nextRun [t] none k id := ⟨_, rfl⟩
  obtain ⟨v, hv⟩ : ∃ v, v = w.starting [t] none k id := ⟨_, rfl⟩
  have hvrun : v.runs[w.runs.length]? = some x := by
    rw [hv, hx]
    exact List.getElem?_concat_length
  obtain ⟨u, hrevised, hruns, hinvoke⟩ := h.invoke (w := v) (x := x) hclosed host w.runs.length 0
    (by rw [hv]; exact hn) (by rw [hv, hx]; exact hf)
  have hfrom : w.Revised u n tree' id f' := by
    rw [hv, hx] at hrevised
    exact ⟨hrevised.processors, hrevised.cells, hrevised.files⟩
  have hurun : u.runs[w.runs.length]? = some x := by
    rw [hruns]
    exact hvrun
  rw [← hk] at hinvoke ⊢
  have hraised (e : Fault) (h : (drive host w.runs.length .kept true [t] 0 k).result v = (.error e, u)) :
      (runChain host [t] none k id).result w = (.error e, u) := by
    have hstart : (start host [t] none k id .kept).result w = (.error e, u) := by
      rw [result_start, ← hv]
      dsimp only
      rw [h]
      rfl
    rw [runChain, result_bind_error hstart]
  have hended (fault : Option Fault) (e : Event)
      (h : (drive host w.runs.length .kept true [t] 0 k).result v =
        (.ok (), (u.told e).ended w.runs.length fault k)) :
      ∃ v, (runChain host [t] none k id).result w = (settlement fault k, v) ∧ w.Revised v n tree' id f' := by
    rw [hv] at h
    rw [hx] at hurun
    exact ⟨_, result_runChain (u := u.told e) hurun h, hfrom.processors, hfrom.cells, hfrom.files⟩
  rcases hinvoke with ⟨e, rfl, hstop, hinvoke⟩ | ⟨herrors, hinvoke, hcompletion⟩
  · rw [Option.map_some, Fault.chained_of_not_isError hstop]
    refine ⟨u, hraised e ?_, hfrom⟩
    rw [drive, result_bind_ok (result_run hvrun), result_bind_error hinvoke]
  · have hstep : (drive host w.runs.length .kept true [t] 0 k).result v =
        (fault.elim (do
            tellStep x 0 t.name
            drive host w.runs.length .kept true [] 1 k)
          fun e => failStep host w.runs.length .kept t.name e k).result u := by
      conv_lhs => rw [drive, result_bind_ok (result_run hvrun), result_bind_ok hinvoke,
        result_bind_ok (result_completion hcompletion)]
      cases fault <;> rfl
    cases fault with
    | none =>
      have htell : (tellStep x 0 t.name).result u = (.ok (), u) := by
        rw [hx]
        rfl
      rw [Option.elim_none, result_bind_ok htell, drive, result_bind_ok (result_log _ _ _ u)] at hstep
      exact hended none _ (hstep.trans (result_deliver_kept none k hurun))
    | some e =>
      rw [Option.elim_some, failStep] at hstep
      cases hsaid : e.inspect with
      | ok said =>
        rw [Option.map_some, Fault.chained_eq hsaid]
        rw [result_bind_ok (result_logFault_ok hsaid _ _ _ u)] at hstep
        exact hended (some e) _ (hstep.trans (result_deliver_kept (some e) k hurun))
      | error unread =>
        have hchained : e.chained = unread := by
          rw [Fault.chained, herrors e rfl, hsaid]
        rw [Option.map_some, hchained]
        rw [result_bind_error (result_logFault_error hsaid _ _ _ u)] at hstep
        exact ⟨u, hraised unread hstep, hfrom⟩

end Steps

/-! ### Plugins that add one transformer -/

section Use

open TextPipeline.Plugin

variable {host : Host} {w v : World} {p : Nat} {q : Processor} {name : String}

/-- The catalog has a plugin under a name. -/
def World.Offers (w : World) (host : Host) (name : String) (m : Metadata Attacher) : Prop :=
  (((Catalog.lookup host.standard host.surroundings name).run.run w.catalog).run []).1.1 = .ok m

theorem World.display_congr (hs : v.store = w.store) (hf : v.files = w.files)
    (hp : v.processors = w.processors) (hfactories : v.factories = w.factories) (options : Value) :
    v.display options = w.display options := by
  have hdescribe : v.describe = w.describe := by
    unfold World.describe
    rw [hf, hp, hfactories]
  unfold World.display World.reveal
  rw [hs, hdescribe]

theorem World.display_closed {options : Value} (h : options.Closed) (w : World) :
    w.display options = options := by
  have hreveal : w.reveal options = options := h _
  rw [display, hreveal, h]

/-- A plugin that adds a transformer, which it makes of its options. -/
def Adds (a : Attacher) (build : Value → Logged Transformer) : Prop :=
  ∀ options data, a.program options data = Attacher.steps (build options)

theorem prepare_records (host : Host) (id : Nat) (options : Value) (records : List LogRecord)
    (rest : List Preparation) (w : World) :
    (prepare host id options (records.map .log ++ rest)).result w =
      (prepare host id options rest).result { w with events := w.events ++ records.map .log } := by
  induction records generalizing w with
  | nil => simp
  | cons record records ih =>
    rw [List.map_cons, List.cons_append, prepare, result_bind_ok (result_tell _ w), ih]
    simp [World.told]

theorem result_prepare_steps (host : Host) (id : Nat) (options : Value) (x : Logged Transformer)
    (w : World) :
    (prepare host id options (Attacher.steps x)).result w =
      (x.result.1.map .transformer, { w with events := w.events ++ x.result.2.map .log }) := by
  rw [Attacher.steps]
  generalize x.result = done
  obtain ⟨o, records⟩ := done
  dsimp only
  rw [prepare_records]
  cases o <;> rfl

/-- The call of a plugin that adds a transformer gives what it makes. -/
theorem Adds.called {a : Attacher} {build : Value → Logged Transformer} (h : Adds a build)
    (host : Host) (id : Nat) (q : Processor) (options : Value) (name : String) (w : World) :
    ∃ es, w.called host id q a options name =
      ((build (w.display options)).result.1.map .transformer, { w with events := w.events ++ es }) := by
  have hdisplay : (w.attaching q name).display options = w.display options :=
    World.display_congr rfl rfl rfl rfl _
  obtain ⟨e, he⟩ : ∃ e, w.attaching q name = w.told e := ⟨_, rfl⟩
  refine ⟨e :: (build (w.display options)).result.2.map .log, ?_⟩
  rw [World.called, Attacher.call, result_get_bind, h, result_prepare_steps, hdisplay, he]
  simp [World.told]

/-- The parts of a world on which the use of a processor depends, after a transformer was added. -/
structure World.Added (w v : World) (p : Nat) (q : Processor) (t : Transformer) : Prop where
  processors : ∃ a, v.processors = w.processors.set p { q with registry := q.registry.add a (some t) }
  files : v.files = w.files
  store : v.store = w.store

theorem Adds.result_attach {a : Attacher} {build : Value → Logged Transformer} (h : Adds a build)
    {options : Value} {t : Transformer} (hbuild : (build (w.display options)).result.1 = .ok t)
    (hq : w.processors[p]? = some q) (hvalid : (w.reveal q.data).validateData "data" = .ok ())
    (hcopies : w.Copies q) (host : Host) (name : String) :
    ∃ v, (attach host p a options name).result w = (.ok p, v) ∧ w.Added v p q t := by
  obtain ⟨es, hcalled⟩ := h.called host p q options name w
  rw [hbuild] at hcalled
  have hread : (w.called host p q a options name).1 >>= Attached.ofReturned name = .ok ⟨none, some t⟩ := by
    rw [hcalled]
    rfl
  have hattempt := attach_cases host p a options name w
  generalize (attach host p a options name).result w = done at hattempt ⊢
  -- The call leaves data that are valid, and so only the last of the cases is left.
  cases hattempt with
  | absent hp => cases hp.symm.trans hq
  | unfit q' f hp hbefore =>
    obtain rfl := Option.some.inj (hp.symm.trans hq)
    obtain ⟨entries, copied, hentries, -⟩ := hcopies
    cases hbefore.symm.trans hentries
  | uncopied q' entries f hp hbefore hcopy =>
    obtain rfl := Option.some.inj (hp.symm.trans hq)
    obtain ⟨entries', copied, hentries, hcopied⟩ := hcopies
    obtain rfl := Except.ok.inj (hbefore.symm.trans hentries)
    cases hcopy.symm.trans hcopied
  | stopped q' f v hp hstopped _ =>
    obtain rfl := Option.some.inj (hp.symm.trans hq)
    rw [hstopped] at hread
    cases hread
  | undone q' entries before words f hp hbefore hcopy hmishap =>
    obtain rfl := Option.some.inj (hp.symm.trans hq)
    rcases hmishap.cases with ⟨-, hfailed, -⟩ | ⟨attached, r, -, hread', hr, hinvalid⟩
    · cases hread.symm.trans hfailed
    · obtain rfl := Except.ok.inj (hread.symm.trans hread')
      rw [hcalled] at hr hinvalid
      obtain rfl := Option.some.inj (hp.symm.trans hr)
      cases hvalid.symm.trans hinvalid
  | astray q' attached v hp hread' hv htarget =>
    obtain rfl := Option.some.inj (hp.symm.trans hq)
    obtain rfl := Except.ok.inj (hread.symm.trans hread')
    rw [hv, hcalled] at htarget
    cases htarget.symm.trans hp
  | attached q' attached r v hp hread' hv hr _ =>
    obtain rfl := Option.some.inj (hp.symm.trans hq)
    obtain rfl := Except.ok.inj (hread.symm.trans hread')
    have hr' : v.processors[p]? = some r := hr
    obtain ⟨events, hregister⟩ := result_register p hr' ⟨a.name, options⟩ (some t) name
    have hvw : v = { w with events := w.events ++ es } := by rw [hv, hcalled]
    rw [hvw] at hr'
    obtain rfl := Option.some.inj (hp.symm.trans hr')
    refine ⟨_, hregister, ⟨⟨a.name, options⟩, ?_⟩, ?_, ?_⟩
    all_goals rw [hvw]; rfl

/-- What was attached has made a transformer of its options, for a processor with valid data. -/
theorem Adds.of_attach {a : Attacher} {build : Value → Logged Transformer} (h : Adds a build)
    {options : Value} {r : Nat} (hattach : (attach host p a options name).result w = (.ok r, v)) :
    r = p ∧ ∃ q t, w.processors[p]? = some q ∧ (w.reveal q.data).validateData "data" = .ok () ∧
      w.Copies q ∧ (build (w.display options)).result.1 = .ok t ∧ w.Added v p q t := by
  obtain ⟨q, attached, q', events, hq, hread, hr, hq', hvalid, -⟩ := attach_ok hattach
  have hcopies := attach_copies hattach hq
  obtain ⟨es, hcalled⟩ := h.called host p q options name w
  rw [hcalled] at hread hq' hvalid
  cases hbuild : (build (w.display options)).result.1 with
  | error f =>
    rw [hbuild] at hread
    cases hread
  | ok t =>
    rw [hbuild] at hread
    obtain rfl := Except.ok.inj hread
    obtain rfl : r = p := hr
    obtain rfl := Option.some.inj (hq.symm.trans hq')
    obtain ⟨v', hattach', hadded⟩ := h.result_attach hbuild hq hvalid hcopies host name
    obtain ⟨-, rfl⟩ := Prod.mk.inj (hattach.symm.trans hattach')
    exact ⟨rfl, q, t, hq, hvalid, hcopies, rfl, hadded⟩

/-- What is said of a plugin that cannot be found, or does not take the options, or what comes of the text of
the fault. -/
def World.refusal (w : World) (name : String) (f : Fault) : Fault :=
  if f.isKind "KeyError" || f.isKind "ValidationError" then
    match ((cannotAttach name f).result w).1 with
    | .ok g | .error g => g
  else f

theorem World.refusal_congr (hs : v.store = w.store) (hf : v.files = w.files)
    (hp : v.processors = w.processors) (hfactories : v.factories = w.factories) (name : String) (f : Fault) :
    v.refusal name f = w.refusal name f := by
  have htext (x : Value) : v.textOf x = w.textOf x := by
    rw [World.textOf, World.display_congr hs hf hp hfactories, World.textOf]
  have hreason : ((reasonOf f).result v).1 = ((reasonOf f).result w).1 := by
    unfold reasonOf
    split
    · rfl
    · rw [result_textOf, result_textOf, htext]
    · rw [result_textOf, result_textOf, htext]
  have hsame : ((cannotAttach name f).result v).1 = ((cannotAttach name f).result w).1 := by
    rw [cannotAttach, result_bind, result_bind]
    generalize (reasonOf f).result v = done at hreason ⊢
    generalize (reasonOf f).result w = done' at hreason ⊢
    obtain ⟨o, u⟩ := done
    obtain ⟨o', u'⟩ := done'
    obtain rfl : o = o' := hreason
    cases o <;> rfl
  unfold refusal
  rw [hsame]

theorem result_refuse {α : Type} (name : String) (f : Fault) (w : World) :
    (if f.isKind "KeyError" || f.isKind "ValidationError" then do throw (← cannotAttach name f)
      else throw f : Action α).result w = (.error (w.refusal name f), w) := by
  unfold World.refusal
  split
  · rcases (Reads.cannotAttach name f).result_bind (fun g => (throw g : Action α)) w with
      ⟨g, hg, h⟩ | ⟨g, hg, h⟩
    · rw [h, hg]
    · rw [h, hg]
      rfl
  · rfl

/-- A name stands for the plugin that is found under it, if the plugin takes the options. -/
theorem result_attacherOf_looked {o : Outcome (Metadata Attacher)}
    (hlookup : (((Catalog.lookup host.standard host.surroundings name).run.run w.catalog).run []).1.1 = o)
    (options : Value) :
    ∃ c es, (attacherOf host options (.named name)).result w =
      ((o >>= fun m => (m.resolveOptions (w.display options)).result.1.map fun resolved =>
          (m.attacher, Value.dict (keepGiven (w.store.content options) resolved), m.name)).mapError
        (w.refusal name), { w with catalog := c, events := es }) := by
  obtain ⟨u, hu⟩ : ∃ u, u = ((withCatalog (Catalog.lookup host.standard host.surroundings name)).result
    w).2 := ⟨_, rfl⟩
  have hlooked : (withCatalog (Catalog.lookup host.standard host.surroundings name)).result w = (o, u) := by
    rw [hu, result_withCatalog, hlookup]
  rw [result_withCatalog] at hu
  have hsides (es : List Event) : { u with events := es } = { w with catalog := u.catalog, events := es } := by
    rw [hu]
  have hrefusal (f : Fault) (es : List Event) :
      World.refusal { u with events := es } name f = w.refusal name f := by
    rw [hsides]
    exact World.refusal_congr (w := w) (v := { w with catalog := u.catalog, events := es }) rfl rfl rfl rfl name f
  cases o with
  | error f =>
    have hfound : (attempt (do
        let m ← withCatalog (Catalog.lookup host.standard host.surroundings name)
        let resolved ← ofLogged (m.resolveOptions ((← get).display options))
        return (m, keepGiven (← content options) resolved))).result w = (.ok (.error f), u) := by
      rw [result_attempt, result_bind_error hlooked]
    refine ⟨u.catalog, u.events, ?_⟩
    rw [← hsides, attacherOf, result_bind_ok hfound]
    dsimp only
    rw [result_refuse]
    exact congrArg (fun g => (Except.error g, u)) (hrefusal f u.events)
  | ok m =>
    obtain ⟨r, records, hresolve⟩ : ∃ r records,
        (m.resolveOptions (w.display options)).result = (r, records) := ⟨_, _, rfl⟩
    have hsame : u.display options = w.display options := by
      rw [hu]
      exact World.display_congr rfl rfl rfl rfl _
    have hcontent : u.store.content options = w.store.content options := by
      rw [hu]
    have hfound : (attempt (do
        let m ← withCatalog (Catalog.lookup host.standard host.surroundings name)
        let resolved ← ofLogged (m.resolveOptions ((← get).display options))
        return (m, keepGiven (← content options) resolved))).result w =
          (.ok (r.map fun resolved => (m, keepGiven (w.store.content options) resolved)),
            { u with events := u.events ++ records.map .log }) := by
      rw [result_attempt, result_bind_ok hlooked, result_get_bind, hsame, result_bind,
        result_ofLogged hresolve, ← hcontent]
      cases r <;> rfl
    refine ⟨u.catalog, u.events ++ records.map .log, ?_⟩
    show _ = (((m.resolveOptions (w.display options)).result.1.map _).mapError _, _)
    rw [hresolve, ← hsides, attacherOf, result_bind_ok hfound]
    cases r with
    | ok resolved => rfl
    | error f =>
      dsimp only [Except.map]
      rw [result_refuse, hrefusal]
      rfl

/-- The plugin of a name is looked up, and takes the options or does not. -/
theorem result_attacherOf_named {m : Metadata Attacher} (hoffer : w.Offers host name m)
    (options : Value) :
    ∃ c es, (attacherOf host options (.named name)).result w =
      (match (m.resolveOptions (w.display options)).result.1 with
        | .ok resolved =>
          .ok (m.attacher, .dict (keepGiven (w.store.content options) resolved), m.name)
        | .error f => .error (w.refusal name f),
        { w with catalog := c, events := es }) := by
  obtain ⟨c, es, hof⟩ := result_attacherOf_looked hoffer options
  refine ⟨c, es, hof.trans ?_⟩
  show (((m.resolveOptions (w.display options)).result.1.map _).mapError _, _) = _
  cases (m.resolveOptions (w.display options)).result.1 <;> rfl

section Named

variable {m : Metadata Attacher} {build : Value → Logged Transformer} (hoffer : w.Offers host name m)
  (h : Adds m.attacher build)
include hoffer h

/-- A plugin is used by its name with options that it takes, and makes a transformer of what is given on for
them. -/
theorem Adds.result_useOn (hq : w.processors[p]? = some q)
    (hvalid : (w.reveal q.data).validateData "data" = .ok ()) (hcopies : w.Copies q) {options : Value}
    {resolved : Entries}
    (hresolve : (m.resolveOptions (w.display options)).result.1 = .ok resolved) {t : Transformer}
    (hbuild : (build (w.display (.dict (keepGiven (w.store.content options) resolved)))).result.1 = .ok t) :
    ∃ v, (useOn host p (.leaf (.named name)) options).result w = (.ok p, v) ∧ w.Added v p q t := by
  obtain ⟨c, es, hof⟩ := result_attacherOf_named hoffer options
  rw [hresolve] at hof
  have hsame (x : Value) : World.display { w with catalog := c, events := es } x = w.display x :=
    World.display_congr rfl rfl rfl rfl x
  rw [← hsame] at hbuild
  obtain ⟨v, hattach, hadded⟩ := h.result_attach hbuild hq hvalid hcopies host m.name
  refine ⟨v, ?_, hadded.processors, hadded.files, hadded.store⟩
  rw [useOn_leaf, attachItem_eq, result_bind_ok hof]
  exact hattach

/-- A plugin that was used by its name has taken its options, and added the transformer that it made of what
is given on for them. -/
theorem Adds.of_useOn {options : Value} {r : Nat}
    (huse : (useOn host p (.leaf (.named name)) options).result w = (.ok r, v)) :
    r = p ∧ ∃ (q : Processor) (resolved : Entries) (t : Transformer),
      w.processors[p]? = some q ∧ (w.reveal q.data).validateData "data" = .ok () ∧ w.Copies q ∧
      (m.resolveOptions (w.display options)).result.1 = .ok resolved ∧
      (build (w.display (.dict (keepGiven (w.store.content options) resolved)))).result.1 = .ok t ∧
      w.Added v p q t := by
  obtain ⟨c, es, hof⟩ := result_attacherOf_named hoffer options
  obtain ⟨a, given, n, u, hof', -, hattach⟩ := useOn_leaf_ok huse
  rw [hof] at hof'
  obtain ⟨ho, rfl⟩ := Prod.mk.inj hof'
  cases hresolve : (m.resolveOptions (w.display options)).result.1 with
  | error f =>
    rw [hresolve] at ho
    cases ho
  | ok resolved =>
    rw [hresolve] at ho
    obtain ⟨rfl, hpair⟩ := Prod.mk.inj (Except.ok.inj ho)
    obtain ⟨rfl, rfl⟩ := Prod.mk.inj hpair
    obtain ⟨rfl, q, t, hq, hvalid, hcopies, hbuild, hadded⟩ := h.of_attach hattach
    have hsame (x : Value) : World.display { w with catalog := c, events := es } x = w.display x :=
      World.display_congr rfl rfl rfl rfl x
    rw [hsame] at hbuild
    exact ⟨rfl, q, resolved, t, hq, hvalid, hcopies, rfl, hbuild, hadded.processors, hadded.files,
      hadded.store⟩

end Named

end Use

/-! ### Pipelines of plain text with one transformer -/

section Text

open TextPipeline.Grammar TextPipeline.Settings

/-- Settings of both ends of the grammar of plain text that have a tree written as it is. -/
structure Verbatim (settings : Value) : Prop where
  suits : SuitsText settings
  closed : settings.Closed
  skips : (asked settings "skip_types" (.tuple [])).iterate = .ok []
  unended : (asked settings "ensure_final_newline" (.bool false)).truthy = false

theorem verbatim_none : Verbatim .none := ⟨.absent, fun _ => rfl, rfl, rfl⟩

theorem verbatim_paragraphs (b : Bool) : Verbatim (.dict [(.str "paragraphs", .bool b)]) := by
  have hasked (field : String) (default : Value) (hfield : field ≠ "paragraphs") :
      asked (.dict [(.str "paragraphs", .bool b)]) field default = default := by
    simp [asked, Entries.get?, Entries.find?, Value.equals_str, hfield.symm]
  refine ⟨.mapping fun e he => ⟨_, congrArg Prod.fst (List.mem_singleton.mp he)⟩, fun shown => ?_, ?_, ?_⟩
  · simp [Value.revealWith, Value.revealEntries]
  · rw [hasked _ _ (by decide)]
    rfl
  · rw [hasked _ _ (by decide)]
    rfl

/-- A processor of plain text that runs one transformer. -/
structure Processor.Runs (q : Processor) (t : Transformer) : Prop where
  ends : q.HasEnds
  transformers : q.registry.transformers = [t]

/-- Storing a tree changes neither the contents nor the data of a file. -/
theorem holding_eq (f : File) (name : String) (tree : Value) :
    ∃ ns, File.holding f name tree = { f with namespaces := ns } := by
  cases hstore : f.store (.str name) treeKey tree with
  | error e =>
    refine ⟨f.namespaces, ?_⟩
    rw [File.holding, hstore]
    rfl
  | ok g =>
    obtain ⟨opened, hopened, rfl⟩ := File.store_named hstore
    rw [File.openNamespace_str (File.openNamespace_named hopened)] at hopened
    obtain rfl := Except.ok.inj hopened
    rw [File.holding, hstore]
    split <;> exact ⟨_, rfl⟩

theorem readTree_closed (settings : Value) (text : String) : (readTree settings text).Closed :=
  fun shown => revealWith_parse shown _ _ _

theorem compile_readTree (settings : Value) (text : String) :
    Plain.compile [] (readTree settings text) = .ok text := by
  rw [readTree, Plain.compile_parse (fun _ _ => rfl), String.ofList_toList]

/-- A new processor of plain text has nothing but its ends. -/
theorem result_newTextProcessor_bare (w : World) :
    ∃ q : Processor, (newTextProcessor (.str textProcessorName) .none).result w =
      (.ok w.processors.length, { w with processors := w.processors ++ [q] }) ∧ q.HasEnds ∧
      q.data = .dict [] ∧ q.registry.transformers = [] :=
  ⟨_, rfl, ⟨rfl, rfl⟩, rfl, rfl⟩

variable {host : Host} {w u : World} {p id : Nat} {q : Processor} {settings value tree : Value}
  {t : Transformer} {f f' : File} {text text' : String}

/-- What the transformer makes of the tree of a text goes through the pipeline. -/
theorem result_processOn (hhost : host.HasPlain) (hset : Verbatim settings)
    (hq : w.processors[p]? = some q) (hruns : q.Runs t)
    (hvalue : (toFile value).result w = (.ok id, u)) (hu : u.processors = w.processors)
    (hf : u.files[id]? = some f) (htext : f.text = .ok text)
    (h : Makes t (readTree settings text)
      (File.holding f q.name (.handle (.node u.store.cells.length))) none tree f')
    (hclosed : tree.Closed) (htext' : Plain.compile [] tree = .ok text') :
    ∃ v, (processOn host (.handle (.processor p)) value settings none none).result w =
        (.ok (.str text'), v) ∧ v.processors = w.processors ∧ v.store.cells = u.store.cells ++ [tree] ∧
      v.files = u.files.set id { File.holding f' q.name (.handle (.node u.store.cells.length)) with
        contents := .str text' } := by
  have hrecasts : Recasts host u q settings text id f none tree f' := by
    rw [Recasts, hruns.transformers]
    exact h.revises (readTree_closed settings text) host id
  obtain ⟨v, out, hout, hv, hprocessors, hcells, hfiles⟩ := result_processText_revised hhost hq hruns.ends
    hset.suits hset.closed hset.skips (by simp) hvalue hu hf htext hclosed htext' hrecasts
  have hend : lineEnded (asked settings "ensure_final_newline" (.bool false)).truthy text' = text' := by
    rw [hset.unended]
    rfl
  rw [hend] at hout
  subst hout
  have hfor : (processorFor host (.handle (.processor p))).result w = (.ok p, w) := rfl
  refine ⟨v, ?_, hprocessors, hcells, hfiles⟩
  rw [processOn, result_bind_ok hfor, hset.suits.isCallable]
  exact hv

/-- A pipeline fails with its transformer. -/
theorem result_processOn_error (hhost : host.HasPlain) (hset : Verbatim settings)
    (hq : w.processors[p]? = some q) (hruns : q.Runs t)
    (hvalue : (toFile value).result w = (.ok id, u)) (hu : u.processors = w.processors)
    (hf : u.files[id]? = some f) (htext : f.text = .ok text) {fault : Fault}
    (h : Makes t (readTree settings text)
      (File.holding f q.name (.handle (.node u.store.cells.length))) (some fault) tree f') :
    ∃ v, (processOn host (.handle (.processor p)) value settings none none).result w =
      (.error (v.surfaced fault.chained), v) := by
  have hrecasts : Recasts host u q settings text id f (some fault.chained) tree f' := by
    rw [Recasts, hruns.transformers]
    exact h.revises (readTree_closed settings text) host id
  obtain ⟨v, hv⟩ := result_processText_error hhost hq hruns.ends hset.suits hset.closed hvalue hu hf
    htext hrecasts
  have hfor : (processorFor host (.handle (.processor p))).result w = (.ok p, w) := rfl
  refine ⟨v, ?_⟩
  rw [processOn, result_bind_ok hfor, hset.suits.isCallable]
  exact hv

/-- A processor runs its transformer on a tree that is kept. -/
theorem result_runOn (host : Host) {n : Nat} {tree' : Value} (hq : w.processors[p]? = some q) (hruns : q.Runs t)
    (hn : w.store.cells[n]? = some tree) (hf : w.files[id]? = some f) (h : Makes t tree f none tree' f')
    (hclosed : tree.Closed) :
    ∃ v, (runOn host (.handle (.processor p)) (.handle (.node n)) (.handle (.file id)) none none).result w =
        (.ok (.handle (.node n)), v) ∧
      w.Revised v n tree' id (File.holding f' q.name (.handle (.node n))) := by
  have hrevises : Revises host q.registry.transformers n tree id f none tree' f' := by
    rw [hruns.transformers]
    exact h.revises hclosed host id
  obtain ⟨v, hv, hrevised⟩ := result_runTree hq hn hf hrevises
  exact ⟨v, hv, hrevised⟩

/-- What stands for a file: a text for one that is made of it, and a handle for one that there is. -/
inductive World.Gives (w : World) : Value → Nat → File → Prop
  | text (s : String) : w.Gives (.str s) w.files.length { File.empty with contents := .str s }
  | file {id : Nat} {f : File} : w.files[id]? = some f → w.Gives (.handle (.file id)) id f

theorem World.Gives.congr (h : w.Gives value id f) (hfiles : u.files = w.files) : u.Gives value id f := by
  cases h with
  | text s =>
    rw [← hfiles]
    exact .text s
  | file hf => exact .file (hfiles ▸ hf)

theorem World.Gives.result_toFile (h : w.Gives value id f) :
    ∃ u, (toFile value).result w = (.ok id, u) ∧ u.processors = w.processors ∧ u.store = w.store ∧
      u.files[id]? = some f := by
  cases h with
  | text s => exact ⟨_, rfl, rfl, rfl, List.getElem?_concat_length⟩
  | file hf => exact ⟨w, rfl, rfl, rfl, hf⟩

/-- A new processor of plain text uses a plugin and works on a value. -/
def processWith (host : Host) (name : String) (options value settings : Value) : Action Value := do
  let p ← newTextProcessor (.str textProcessorName) .none
  let p ← useOn host p (.leaf (.named name)) options
  processOn host (.handle (.processor p)) value settings none none

/-- A world in which a processor that runs one transformer was added to another. -/
structure World.Readied (w u : World) (t : Transformer) : Prop where
  processor : ∃ q, u.processors[w.processors.length]? = some q ∧ q.Runs t
  files : u.files = w.files
  store : u.store = w.store

theorem World.Added.readied {a : Processor}
    (h : World.Added { w with processors := w.processors ++ [a] } u w.processors.length a t)
    (hends : a.HasEnds) (htransformers : a.registry.transformers = []) : w.Readied u t := by
  obtain ⟨entry, hprocessors⟩ := h.processors
  refine ⟨⟨{ a with registry := a.registry.add entry (some t) }, ?_, ⟨hends.parser, hends.compiler⟩, ?_⟩,
    h.files, h.store⟩
  · rw [hprocessors]
    exact List.getElem?_set_self (by simp)
  · show a.registry.transformers ++ [t] = [t]
    rw [htransformers]
    rfl

/-- Once a new processor has used a plugin that adds a transformer, what follows is up to the transformer. -/
theorem result_processWith_of_useOn {name : String} {options : Value}
    (huse : ∀ q : Processor, q.data = .dict [] → ∃ u,
      (useOn host w.processors.length (.leaf (.named name)) options).result
        { w with processors := w.processors ++ [q] } = (.ok w.processors.length, u) ∧
      World.Added { w with processors := w.processors ++ [q] } u w.processors.length q t)
    (value settings : Value) :
    ∃ u, w.Readied u t ∧ (processWith host name options value settings).result w =
      (processOn host (.handle (.processor w.processors.length)) value settings none none).result u := by
  obtain ⟨q, hnew, hends, hdata, htransformers⟩ := result_newTextProcessor_bare w
  obtain ⟨u, huse, hadded⟩ := huse q hdata
  exact ⟨u, hadded.readied hends htransformers, by
    rw [processWith, result_bind_ok hnew, result_bind_ok huse]⟩

section Named

variable {name : String} {m : Plugin.Metadata Attacher} {build : Value → Logged Transformer}
  {options : Value} (hoffer : w.Offers host name m) (h : Adds m.attacher build)
include hoffer h

/-- With options that a plugin takes, what follows is up to its transformer. -/
theorem Adds.result_processWith (hclosed : options.Closed) {resolved : Entries}
    (hresolve : (m.resolveOptions options).result.1 = .ok resolved)
    (hresolved : (Value.dict (keepGiven options resolved)).Closed)
    (hbuild : (build (.dict (keepGiven options resolved))).result.1 = .ok t) (value settings : Value) :
    ∃ u, w.Readied u t ∧ (processWith host name options value settings).result w =
      (processOn host (.handle (.processor w.processors.length)) value settings none none).result u := by
  have hcontent : w.store.content options = options := by
    cases options <;> first | rfl | exact absurd hclosed (Value.not_closed_handle _)
  refine result_processWith_of_useOn (fun q hdata => ?_) value settings
  exact h.result_useOn (w := { w with processors := w.processors ++ [q] }) hoffer
    List.getElem?_concat_length (by rw [hdata]; rfl) (World.copies_empty hdata)
    (by rw [World.display_closed hclosed, hresolve])
    (by rw [hcontent, World.display_closed hresolved, hbuild])

/-- A pipeline that succeeds has made a transformer of the options. -/
theorem Adds.of_processWith {out : Value} {v : World}
    (hok : (processWith host name options value settings).result w = (.ok out, v)) :
    ∃ (x u : World) (resolved : Entries) (t : Transformer),
      (m.resolveOptions (x.display options)).result.1 = .ok resolved ∧
      (build (x.display (.dict (keepGiven (x.store.content options) resolved)))).result.1 = .ok t ∧
      w.Readied u t ∧
      (processOn host (.handle (.processor w.processors.length)) value settings none none).result u =
        (.ok out, v) := by
  obtain ⟨q, hnew, hends, hdata, htransformers⟩ := result_newTextProcessor_bare w
  rw [processWith, result_bind_ok hnew] at hok
  obtain ⟨p, u, huse, hrun⟩ := of_result_bind_ok hok
  obtain ⟨rfl, q', resolved, t, hq', -, -, hresolve, hbuild, hadded⟩ := h.of_useOn
    (w := { w with processors := w.processors ++ [q] }) hoffer huse
  obtain rfl := Option.some.inj (List.getElem?_concat_length.symm.trans hq')
  exact ⟨_, u, resolved, t, hresolve, hbuild, hadded.readied hends htransformers, hrun⟩

end Named

section Readied

variable (hhost : host.HasPlain) (hset : Verbatim settings) (hready : w.Readied u t)
  (hvalue : w.Gives value id f) (htext : f.text = .ok text)
include hhost hset hready hvalue htext

/-- What the transformer makes of the tree of a text is written, and goes to the file. -/
theorem World.Readied.result_processOn
    (h : ∀ ns, Makes t (readTree settings text) { f with namespaces := ns } none tree
      { f' with namespaces := ns })
    (hclosed : tree.Closed) (htext' : Plain.compile [] tree = .ok text') :
    ∃ v ns, (processOn host (.handle (.processor w.processors.length)) value settings none none).result u =
        (.ok (.str text'), v) ∧ v.processors = u.processors ∧ v.store.cells = w.store.cells ++ [tree] ∧
      v.files[id]? = some { f' with namespaces := ns, contents := .str text' } := by
  obtain ⟨q, hq, hruns⟩ := hready.processor
  obtain ⟨u', hfile, hprocessors, hstore, hf⟩ := (hvalue.congr hready.files).result_toFile
  obtain ⟨ns, hns⟩ := holding_eq f q.name (.handle (.node u'.store.cells.length))
  have hmakes : Makes t (readTree settings text)
      (File.holding f q.name (.handle (.node u'.store.cells.length))) none tree
      { f' with namespaces := ns } := by
    rw [hns]
    exact h ns
  obtain ⟨v, hv, hprocessors', hcells, hfiles⟩ := Pipeline.result_processOn hhost hset hq hruns hfile
    hprocessors hf htext hmakes hclosed htext'
  obtain ⟨ns', hns'⟩ := holding_eq { f' with namespaces := ns } q.name
    (.handle (.node u'.store.cells.length))
  refine ⟨v, ns', hv, hprocessors', ?_, ?_⟩
  · rw [hcells, hstore, hready.store]
  · rw [hfiles, List.getElem?_set_self (List.getElem?_eq_some_iff.mp hf).1, hns']

/-- A pipeline fails with its transformer. -/
theorem World.Readied.result_processOn_error {fault : Fault}
    (h : ∀ ns, ∃ tree f', Makes t (readTree settings text) { f with namespaces := ns } (some fault)
      tree f') :
    ∃ v, (processOn host (.handle (.processor w.processors.length)) value settings none none).result u =
      (.error (v.surfaced fault.chained), v) := by
  obtain ⟨q, hq, hruns⟩ := hready.processor
  obtain ⟨u', hfile, hprocessors, hstore, hf⟩ := (hvalue.congr hready.files).result_toFile
  obtain ⟨ns, hns⟩ := holding_eq f q.name (.handle (.node u'.store.cells.length))
  obtain ⟨tree, f', hmakes⟩ := h ns
  exact Pipeline.result_processOn_error hhost hset hq hruns hfile hprocessors hf htext (hns ▸ hmakes)

end Readied

end Text

end TextPipeline.Pipeline
