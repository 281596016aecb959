import TextPipeline.Pipeline.Session

/-! Actions that have nothing to do with chains: they see and change only the core of the world,
which is everything but the chains, and tell of nothing that happens to a chain. Files, data and
plugins are handled by such actions, and so are the stages of a pipeline that do not wait. What such
an action does is settled by the core alone. -/

namespace TextPipeline.Pipeline

open TextPipeline.Plugin TextPipeline.Transform
open TextPipeline.Pipeline.Action

/-- The world after an event. -/
def World.told (w : World) (e : Event) : World := { w with events := w.events ++ [e] }

namespace World

variable (w : World) (e : Event)

@[simp] theorem events_told : (w.told e).events = w.events ++ [e] := rfl

@[simp] theorem runs_told : (w.told e).runs = w.runs := rfl

@[simp] theorem completions_told : (w.told e).completions = w.completions := rfl

end World

namespace Action

variable {α β : Type}

@[simp] theorem result_pure (a : α) (w : World) : (pure a : Action α).result w = (.ok a, w) := rfl

@[simp] theorem result_throw (f : Fault) (w : World) :
    (throw f : Action α).result w = (.error f, w) := rfl

theorem result_bind (x : Action α) (f : α → Action β) (w : World) :
    (x >>= f).result w =
      match x.result w with
      | (.ok a, v) => (f a).result v
      | (.error e, v) => (.error e, v) := by
  simp only [result, ExceptT.run_bind, StateT.run_bind]
  cases h : StateT.run (ExceptT.run x) w with
  | mk o v => cases o <;> simp <;> rfl

theorem result_bind_ok {x : Action α} {f : α → Action β} {w v : World} {a : α}
    (h : x.result w = (.ok a, v)) : (x >>= f).result w = (f a).result v := by
  rw [result_bind, h]

theorem result_bind_error {x : Action α} {f : α → Action β} {w v : World} {e : Fault}
    (h : x.result w = (.error e, v)) : (x >>= f).result w = (.error e, v) := by
  rw [result_bind, h]

theorem result_get_bind (f : World → Action α) (w : World) :
    (get >>= f).result w = (f w).result w := rfl

@[simp] theorem result_tell (e : Event) (w : World) : (tell e).result w = (.ok (), w.told e) := rfl

@[simp] theorem result_log (level : Level) (logger text : String) (w : World) :
    (log level logger text).result w = (.ok (), w.told (.log ⟨level, logger, text⟩)) := rfl

@[simp] theorem result_get (w : World) : (get : Action World).result w = (.ok w, w) := rfl

@[simp] theorem result_set (v w : World) : (set v : Action PUnit).result w = (.ok ⟨⟩, v) := rfl

@[simp] theorem result_modify (f : World → World) (w : World) :
    (modify f : Action PUnit).result w = (.ok ⟨⟩, f w) := rfl

@[simp] theorem result_attempt (x : Action α) (w : World) :
    (attempt x).result w = (.ok (x.result w).1, (x.result w).2) := rfl

@[simp] theorem result_ofOutcome (o : Outcome α) (w : World) : (ofOutcome o).result w = (o, w) := by
  cases o <;> rfl

theorem result_textOf (v : Value) (w : World) : (textOf v).result w = (w.textOf v, w) :=
  result_ofOutcome _ _

theorem result_logFault_ok {f : Fault} {said : String} (h : f.inspect = .ok said) (level : Level)
    (logger words : String) (w : World) : (logFault level logger words f).result w =
      (.ok (), w.told (.log ⟨level, logger, words ++ said⟩)) := by
  rw [logFault, h]
  rfl

theorem result_logFault_error {f g : Fault} (h : f.inspect = .error g) (level : Level)
    (logger words : String) (w : World) : (logFault level logger words f).result w = (.error g, w) := by
  rw [logFault, h]
  rfl

theorem result_require_true (f : Fault) (w : World) : (require true f).result w = (.ok (), w) := rfl

theorem result_require_false (f : Fault) (w : World) : (require false f).result w = (.error f, w) := rfl

theorem result_lift (o : Outcome α) (w : World) : (liftM o : Action α).result w = (o, w) := by
  rfl

theorem result_run {r : Nat} {x : Run} {w : World} (h : w.runs[r]? = some x) :
    (run r).result w = (.ok x, w) := by
  rw [run, result_bind, result_get]
  simp only [h]
  rfl

theorem result_completion {id : Nat} {c : Completion Resolution Resumption Empty} {w : World}
    (h : w.completions[id]? = some c) : (completion id).result w = (.ok c, w) := by
  rw [completion, result_bind, result_get]
  simp only [h]
  rfl

theorem of_result_completion {id : Nat} {c : Completion Resolution Resumption Empty} {w v : World}
    (h : (completion id).result w = (.ok c, v)) : w.completions[id]? = some c ∧ v = w := by
  rw [completion, result_bind, result_get] at h
  dsimp only at h
  split at h
  · obtain ⟨ho, rfl⟩ := Prod.mk.inj h
    obtain rfl := Except.ok.inj ho
    exact ⟨‹_›, rfl⟩
  · cases (Prod.mk.inj h).1

/-- A chain is started on a tree that is given. -/
theorem result_startTree {tree : Value} (h : tree.isNone = false) (file : Nat) (name : String) (w : World) :
    (startTree file name tree).result w = (.ok tree, w) := by
  rw [startTree, h]
  rfl

end Action

/-- What chains have in common with everything else: all but the chains themselves. -/
structure Core where
  store : Store
  files : List File
  processors : List Processor
  factories : List Factory
  catalog : Catalog Attacher
  loops : Nat
  openLoop : Option Nat
  threaded : Bool
  names : List (String × Value)

namespace World

def core (w : World) : Core :=
  ⟨w.store, w.files, w.processors, w.factories, w.catalog, w.loops, w.openLoop, w.threaded, w.names⟩

/-- The world with another core. -/
def withCore (w : World) (c : Core) : World :=
  { w with
    store := c.store, files := c.files, processors := c.processors, factories := c.factories,
    catalog := c.catalog, loops := c.loops, openLoop := c.openLoop, threaded := c.threaded,
    names := c.names }

/-- The world with another core, after further events. -/
def moved (w : World) (c : Core) (events : List Event) : World :=
  { w.withCore c with events := w.events ++ events }

theorem moved_nil (w : World) (c : Core) : w.moved c [] = w.withCore c := by
  simp [moved, withCore]

@[simp] theorem core_moved (w : World) (c : Core) (es : List Event) : (w.moved c es).core = c := rfl

@[simp] theorem events_moved (w : World) (c : Core) (es : List Event) :
    (w.moved c es).events = w.events ++ es := rfl

@[simp] theorem moved_core (w : World) : w.moved w.core [] = w := by
  rw [moved_nil]
  rfl

@[simp] theorem moved_moved (w : World) (c d : Core) (es fs : List Event) :
    (w.moved c es).moved d fs = w.moved d (es ++ fs) := by
  simp [moved, withCore]

end World

/-- The world in which there is nothing but a core. -/
def Core.world (c : Core) : World := ({} : World).moved c []

@[simp] theorem Core.core_world (c : Core) : c.world.core = c := rfl

@[simp] theorem Core.events_world (c : Core) : c.world.events = [] := rfl

/-- Whether an event belongs to the course of a chain or tells someone of its result. -/
def Event.ofChain : Event → Bool
  | .called .. | .resolved .. | .delivered .. | .ran .. | .processed .. => true
  | _ => false

/-- An action that sees and changes nothing but the core. -/
structure Local {α : Type} (x : Action α) : Prop where
  result : ∀ w : World, x.result w =
    ((x.result w.core.world).1,
      w.moved (x.result w.core.world).2.core (x.result w.core.world).2.events)
  quiet : ∀ c : Core, ∀ e ∈ (x.result c.world).2.events, e.ofChain = false

namespace Local

variable {α β : Type}

theorem pure (a : α) : Local (pure a) := ⟨fun w => by simp, fun c e h => by simp at h⟩

theorem throw (f : Fault) : Local (throw f : Action α) :=
  ⟨fun w => by simp, fun c e h => by simp at h⟩

theorem bind {x : Action α} {f : α → Action β} (hx : Local x) (hf : ∀ a, Local (f a)) :
    Local (x >>= f) := by
  have key : ∀ c : Core, (x.result c.world).2 =
      c.world.moved (x.result c.world).2.core (x.result c.world).2.events := fun c => by
    have := congrArg Prod.snd (hx.result c.world)
    simpa using this
  constructor
  · intro w
    rw [result_bind, result_bind, hx.result w]
    generalize hr : x.result w.core.world = r at *
    obtain ⟨o, v⟩ := r
    have hv := key w.core
    rw [hr] at hv
    cases o with
    | error e => simp
    | ok a =>
      simp only [(hf a).result (w.moved v.core v.events), (hf a).result v, World.core_moved,
        World.moved_moved, World.events_moved]
  · intro c e he
    rw [result_bind] at he
    have hq := hx.quiet c
    have hv := key c
    generalize hr : x.result c.world = r at *
    obtain ⟨o, v⟩ := r
    cases o with
    | error f => exact hq e he
    | ok a =>
      simp only [(hf a).result v, World.events_moved, List.mem_append] at he
      exact he.elim (hq e) ((hf a).quiet v.core e)

theorem get {f : World → Action α} (hf : ∀ w, Local (f w)) (hc : ∀ w, f w = f w.core.world) :
    Local (get >>= f) := by
  constructor
  · intro w
    rw [result_bind, result_bind]
    simp only [result_get]
    rw [← hc w]
    exact (hf w).result w
  · intro c e he
    rw [result_bind] at he
    exact (hf c.world).quiet c e he

theorem ofOutcome (o : Outcome α) : Local (ofOutcome o) := by
  cases o with
  | ok a => exact pure a
  | error f => exact throw f

theorem attempt {x : Action α} (hx : Local x) : Local (attempt x) := by
  constructor
  · intro w
    simp only [result_attempt]
    rw [hx.result w]
  · intro c e he
    exact hx.quiet c e he

theorem of {x : Action α} (o : Core → Outcome α) (g : Core → Core) (es : Core → List Event)
    (h : ∀ w, x.result w = (o w.core, w.moved (g w.core) (es w.core)))
    (hq : ∀ c, ∀ e ∈ es c, e.ofChain = false) : Local x := by
  constructor
  · intro w
    simp [h]
  · intro c e he
    simp only [h, World.events_moved, Core.core_world, Core.events_world, List.nil_append] at he
    exact hq c e he

theorem update {x : Action α} (o : Core → Outcome α) (g : Core → Core)
    (h : ∀ w, x.result w = (o w.core, w.withCore (g w.core))) : Local x :=
  of o g (fun _ => []) (fun w => by rw [h, World.moved_nil]) (by simp)

theorem modify {f : World → World} (g : Core → Core) (h : ∀ w, f w = w.withCore (g w.core)) :
    Local (modify f) :=
  update (fun _ => .ok ⟨⟩) g fun w => by rw [result_modify, h]

theorem lift (o : Outcome α) : Local (liftM o : Action α) :=
  of (fun _ => o) id (fun _ => []) (fun w => by rw [result_lift]; simp) (by simp)

theorem raise (f : Option Fault) : Local (raise f) := by
  cases f with
  | none => exact pure ()
  | some f => exact throw f

theorem tell {e : Event} (he : e.ofChain = false) : Local (tell e) :=
  of (fun _ => .ok ()) id (fun _ => [e]) (fun _ => rfl) fun _ e' h => by simp_all

theorem log (level : Level) (logger text : String) : Local (log level logger text) := tell rfl

theorem logFault (level : Level) (logger words : String) (f : Fault) :
    Local (logFault level logger words f) := bind (ofOutcome _) fun _ => log _ _ _

theorem ofLogged (x : Logged α) : Local (ofLogged x) :=
  of (fun _ => x.result.1) id (fun _ => x.result.2.map .log)
    (fun _ => by rw [Action.ofLogged, result_bind]; exact result_ofOutcome _ _)
    fun _ e h => by
      obtain ⟨record, -, rfl⟩ := List.mem_map.mp h
      rfl

theorem withStore (x : StateM Store α) : Local (withStore x) :=
  update (fun c => .ok (x.run c.store).1) (fun c => { c with store := (x.run c.store).2 })
    fun _ => rfl

theorem share (v : Value) : Local (share v) := withStore _

theorem reveal (v : Value) : Local (reveal v) := get (fun _ => pure _) fun _ => rfl

theorem textOf (v : Value) : Local (textOf v) := get (fun _ => ofOutcome _) fun _ => rfl

theorem content (v : Value) : Local (content v) := get (fun _ => pure _) fun _ => rfl

theorem argument (a : Argument) : Local (argument a) := get (fun _ => ofOutcome _) fun _ => rfl

theorem file (id : Nat) : Local (file id) := get (fun _ => pure _) fun _ => rfl

theorem setFile (id : Nat) (f : File) : Local (setFile id f) :=
  modify (fun c => { c with files := c.files.set id f }) fun _ => rfl

theorem addFile (f : File) : Local (addFile f) :=
  update (fun c => .ok c.files.length) (fun c => { c with files := c.files ++ [f] }) fun _ => rfl

theorem shareValues (v : Value) : Local (shareValues v) := by
  unfold Action.shareValues
  split
  · exact bind (content _) fun _ => bind (withStore _) fun _ => bind (withStore _) fun _ => pure _
  · exact pure _

theorem mapM {f : α → Action β} (hf : ∀ a, Local (f a)) (l : List α) : Local (l.mapM f) := by
  induction l with
  | nil => exact pure _
  | cons a l ih =>
    rw [List.mapM_cons]
    exact bind (hf a) fun _ => bind ih fun _ => pure _

theorem forM {f : α → Action PUnit} (hf : ∀ a, Local (f a)) (l : List α) : Local (l.forM f) := by
  induction l with
  | nil => exact pure _
  | cons a l ih =>
    exact bind (hf a) fun _ => ih

theorem toFile (v : Value) : Local (toFile v) := by
  unfold Action.toFile
  split
  · exact pure _
  · refine bind (content _) fun c => ?_
    split
    · refine bind (mapM (fun e => ?_) _) fun _ => bind (lift _) fun _ => addFile _
      dsimp only
      split
      · exact bind (shareValues _) fun _ => pure _
      · exact pure _
    · exact bind (lift _) fun _ => addFile _

theorem processor (id : Nat) : Local (processor id) := by
  refine get (fun w => ?_) fun _ => rfl
  split
  · exact pure _
  · exact throw _

theorem setProcessor (id : Nat) (p : Processor) : Local (setProcessor id p) :=
  modify (fun c => { c with processors := c.processors.set id p }) fun _ => rfl

theorem addProcessor (p : Processor) : Local (addProcessor p) :=
  update (fun c => .ok c.processors.length) (fun c => { c with processors := c.processors ++ [p] })
    fun _ => rfl

theorem setData (id : Nat) (data : Value) : Local (setData id data) :=
  bind (processor id) fun _ => bind (withStore _) fun _ => setProcessor id _

theorem alter (id : Nat) (a : Alteration) : Local (alter id a) := by
  cases a with
  | change e =>
    exact get (fun _ => bind (processor id) fun _ => bind (content _) fun _ =>
      bind (ofOutcome _) fun _ => setData id _) fun _ => rfl
  | push key item =>
    refine bind (processor id) fun _ => bind (content _) fun _ => bind (argument _) fun _ =>
      bind (ofOutcome _) fun held => bind (content _) fun _ => bind (argument _) fun _ =>
      bind (ofOutcome _) fun _ => ?_
    split
    · exact withStore _
    · exact setData id _

theorem named (name : String) : Local (named name) := by
  refine get (fun w => ?_) fun _ => rfl
  split
  · exact pure _
  · exact throw _

theorem withCatalog (x : Cataloguing Attacher α) : Local (withCatalog x) :=
  of (fun c => ((x.run.run c.catalog).run []).1.1)
    (fun c => { c with catalog := ((x.run.run c.catalog).run []).1.2 })
    (fun c => ((x.run.run c.catalog).run []).2.map .log)
    (fun _ => by rw [Action.withCatalog, result_bind]; exact result_ofOutcome _ _)
    fun _ e h => by
      obtain ⟨record, -, rfl⟩ := List.mem_map.mp h
      rfl

theorem emit (watcher : Option Watcher) (p : Progress) : Local (emit watcher p) := by
  unfold Action.emit
  split
  · exact pure _
  · exact bind (tell rfl) fun _ => ofLogged _

theorem ite {c : Prop} [Decidable c] {x y : Action α} (hx : Local x) (hy : Local y) :
    Local (if c then x else y) := by
  split
  · exact hx
  · exact hy

theorem require (holds : Bool) (f : Fault) : Local (require holds f) := ite (pure _) (throw _)

theorem storeTree (id : Nat) (name : String) (tree : Value) : Local (storeTree id name tree) :=
  bind (file id) fun _ => bind (lift _) fun _ => setFile id _

theorem storedTree (id : Nat) (name : String) : Local (storedTree id name) := by
  refine bind (file id) fun _ => bind (lift _) fun _ => bind (setFile id _) fun _ => ?_
  split
  · exact ite (pure _) (throw _)
  · exact throw _

theorem startTree (id : Nat) (name : String) (tree : Value) : Local (startTree id name tree) :=
  ite (storedTree id name) (pure _)

theorem dataFor (parser : Grammar.Parser) (p : Nat) : Local (dataFor parser p) := by
  refine bind (processor p) fun _ => ite ?_ (reveal _)
  exact bind (content _) fun _ => bind (withStore _) fun _ => bind (setData p _) fun _ => pure _

theorem readWith (host : Host) (p : Nat) (parser : Value) (f : File) (settings : Value) :
    Local (readWith host p parser f settings) := by
  unfold Pipeline.readWith
  split
  · exact bind (reveal _) fun _ => bind (dataFor _ p) fun _ => bind (ofLogged _) fun _ => pure _
  · exact throw _

theorem writeWith (host : Host) (compiler data tree settings : Value) :
    Local (writeWith host compiler data tree settings) := by
  unfold Pipeline.writeWith
  split
  · refine get (fun w => ?_) fun _ => rfl
    exact bind (reveal _) fun _ => bind (reveal _) fun _ => bind (ofLogged _) fun _ => pure _
  · exact throw _

theorem parseFile (host : Host) (p id : Nat) (settings : Value) :
    Local (parseFile host p id settings) :=
  bind (processor p) fun _ => bind (require _ _) fun _ => bind (file id) fun _ =>
    bind (log _ _ _) fun _ => bind (readWith host p _ _ _) fun _ => bind (require _ _) fun _ =>
    bind (share _) fun _ => bind (storeTree id _ _) fun _ => bind (tell rfl) fun _ => pure _

theorem stringify (host : Host) (p : Nat) (tree given settings : Value) :
    Local (stringify host p tree given settings) := by
  refine bind (processor p) fun _ => bind (require _ _) fun _ => bind (toFile _) fun id =>
    bind (startTree id _ _) fun _ => bind (file id) fun _ => bind (log _ _ _) fun _ =>
    bind (writeWith host _ _ _ _) fun _ => ?_
  split
  · exact pure _
  · exact throw _

theorem tellArguments (t : Transformer) : Local (tellArguments t) := ite (tell rfl) (pure _)

theorem tellStarted (watcher : Option Watcher) (f : File) : Local (tellStarted watcher f) :=
  emit _ _

theorem tellStage (watcher : Option Watcher) (stage : String) : Local (tellStage watcher stage) :=
  emit _ _

theorem tellFailed (watcher : Option Watcher) (f : Fault) : Local (tellFailed watcher f) :=
  bind (textOf _) fun _ => emit _ _

theorem complete (watcher : Option Watcher) (id : Nat) (text : Value) :
    Local (complete watcher id text) :=
  bind (file id) fun _ => bind (setFile id _) fun _ => emit _ _

theorem requireEndpoints (p : Nat) : Local (requireEndpoints p) :=
  bind (processor p) fun _ => bind (require _ _) fun _ => require _ _

theorem parseFor (host : Host) (p id : Nat) (settings : Value) (watcher : Option Watcher) :
    Local (parseFor host p id settings watcher) :=
  bind (file id) fun _ => bind (tellStarted _ _) fun _ => bind (requireEndpoints p) fun _ =>
    parseFile host p id settings

theorem newProcessor (name parser compiler data : Value) :
    Local (newProcessor name parser compiler data) :=
  bind (bind (reveal _) fun _ => ite (ofOutcome _) (pure _)) fun _ => bind (lift _) fun _ =>
    bind (ofOutcome _) fun _ => bind (ofOutcome _) fun _ => addProcessor _

theorem cloneProcessor (id : Nat) : Local (cloneProcessor id) :=
  bind (processor id) fun _ => bind (reveal _) fun _ => bind (ofOutcome _) fun _ =>
    bind (ofOutcome _) fun _ => bind (newProcessor _ _ _ _) fun copy => bind (processor copy) fun _ =>
    bind (setProcessor copy _) fun _ => pure _

theorem namedProcessor (name : String) : Local (namedProcessor name) := by
  refine bind (named name) fun v => ?_
  split <;> exact pure _

theorem resultProcessor (p : Option (Sum String Argument)) : Local (resultProcessor p) := by
  unfold Pipeline.resultProcessor
  split
  · exact pure _
  · refine bind (namedProcessor _) fun _ => ?_
    split <;> exact pure _
  · refine bind (argument _) fun _ => ?_
    split <;> exact pure _

theorem resultTransformer (t : Option (Sum Transformer Argument)) : Local (resultTransformer t) := by
  unfold Pipeline.resultTransformer
  split
  · exact pure _
  · exact pure _
  · refine bind (argument _) fun _ => ?_
    split <;> exact pure _

theorem make (id : Nat) (g : Gift) : Local (g.make id) := by
  cases g with
  | value v =>
    refine bind (argument v) fun _ => ?_
    split <;> exact pure _
  | transformer t => exact pure _
  | processor name =>
    refine bind (namedProcessor name) fun _ => ?_
    split <;> exact pure _
  | copy changes t =>
    refine bind (cloneProcessor id) fun copy => bind (forM (alter copy) changes) fun _ => ?_
    split <;> exact pure _
  | result p t =>
    exact bind (resultProcessor p) fun _ => bind (resultTransformer t) fun _ => pure _

theorem restoreData (id : Nat) (entries : Entries) : Local (restoreData id entries) := by
  refine bind (processor id) fun _ => bind (content _) fun _ => ?_
  split
  · exact setData id _
  · exact setData id _
  · exact bind (setData id _) fun _ => throw _
  · exact throw _

theorem reasonOf (f : Fault) : Local (reasonOf f) := by
  unfold Pipeline.reasonOf
  split
  · exact throw _
  · exact textOf _
  · exact textOf _

theorem cannotAttach (name : String) (f : Fault) : Local (cannotAttach name f) :=
  bind (reasonOf f) fun _ => pure _

theorem register (id target : Nat) (a : Attachment) (t : Option Transformer) (name : String) :
    Local (register id target a t name) :=
  bind (processor target) fun _ => bind (setProcessor target _) fun _ => bind (log _ _ _) fun _ =>
    ite (pure _) (bind (log _ _ _) fun _ => pure _)

mutual

theorem visit {σ γ : Type} {act : σ → γ → Action σ} (h : ∀ s a, Local (act s a)) (s : σ) :
    (b : Batch γ) → Local (b.visit act s)
  | .leaf a => by
    rw [Batch.visit]
    exact h s a
  | .many _ items => by
    rw [Batch.visit]
    exact visitAll h s items

theorem visitAll {σ γ : Type} {act : σ → γ → Action σ} (h : ∀ s a, Local (act s a)) (s : σ) :
    (items : List (Batch γ)) → Local (Batch.visitAll act s items)
  | [] => by
    rw [Batch.visitAll]
    exact pure _
  | b :: rest => by
    rw [Batch.visitAll]
    exact bind (visit h s b) fun _ => visitAll h _ rest

end

/-! ### Attaching plugins, for a host whose plugins attach others in the same way -/

section Use

variable {host : Host} (hu : ∀ on plugin options, Local (host.use on plugin options))

include hu

theorem prepare (id : Nat) (options : Value) (ps : List Preparation) :
    Local (prepare host id options ps) := by
  induction ps with
  | nil => exact pure _
  | cons p rest ih =>
    cases p with
    | announce label =>
      exact bind (reveal _) fun _ => get (fun _ => bind (tell rfl) fun _ => ih) fun _ => rfl
    | log record => exact bind (tell rfl) fun _ => ih
    | alter a => exact bind (alter id a) fun _ => ih
    | use plugin =>
      exact get (fun _ => bind (ofOutcome _) fun _ => bind (hu _ _ _) fun _ => ih) fun _ => rfl
    | raise f => exact throw f
    | give g => exact make id g

theorem attach (id : Nat) (a : Attacher) (options : Value) (name : String) :
    Local (attach host id a options name) := by
  have attempted (data : Value) : Local (do
      let returned ← Pipeline.prepare host id options
        (a.program ((← MonadState.get).display options) data)
      Action.ofOutcome (Attached.ofReturned name returned)) :=
    get (fun _ => bind (prepare hu id options _) fun _ => ofOutcome _) fun _ => rfl
  refine bind (processor id) fun _ => bind (log _ _ _) fun _ => bind (reveal _) fun data =>
    bind (ofOutcome _) fun _ => bind (ofOutcome _) fun _ => bind (attempt (attempted data)) fun r => ?_
  cases r with
  | error f =>
    exact bind (require _ _) fun _ => bind (restoreData id _) fun _ => bind (textOf _) fun _ => throw _
  | ok attached =>
    refine bind (processor _) fun _ => bind (reveal _) fun _ => ?_
    split
    · exact bind (restoreData id _) fun _ => bind (textOf _) fun _ => throw _
    · exact register _ _ _ _ _

theorem attachNamed (id : Nat) (name : String) (options : Value) :
    Local (attachNamed host id name options) := by
  have found : Local (do
      let m ← Action.withCatalog (Catalog.lookup host.standard host.surroundings name)
      let resolved ← Action.ofLogged (m.resolveOptions ((← MonadState.get).display options))
      return (m, keepGiven (← Action.content options) resolved)) :=
    bind (withCatalog _) fun _ => get (fun _ => bind (ofLogged _) fun _ => bind (content _)
      fun _ => pure _) fun _ => rfl
  refine bind (attempt found) fun r => ?_
  cases r with
  | error f => exact ite (bind (cannotAttach _ _) fun _ => throw _) (throw _)
  | ok r => exact attach hu id _ _ _

theorem attachItem (options : Value) (id : Nat) (item : Item) :
    Local (attachItem host options id item) := by
  cases item with
  | named name => exact attachNamed hu id name options
  | attacher a => exact attach hu id a options _
  | other v =>
    cases hv : Attacher.ofValue? v with
    | some a =>
      simp only [Pipeline.attachItem, hv]
      exact attach hu id a options _
    | none =>
      simp only [Pipeline.attachItem, hv]
      exact throw _

theorem useOn (id : Nat) (plugin : Plugin) (options : Value) :
    Local (useOn host id plugin options) :=
  visit (attachItem hu options) id plugin

theorem build (factory : Factory) : Local (build host factory) := by
  refine bind (newProcessor _ _ _ _) fun id => ?_
  generalize factory.plugins = plugins
  induction plugins generalizing id with
  | nil => exact pure _
  | cons entry rest ih =>
    rw [List.foldlM_cons]
    exact bind (useOn hu id _ _) fun _ => ih _

theorem processorFor (v : Value) : Local (processorFor host v) := by
  unfold Pipeline.processorFor
  split
  · exact pure _
  · refine get (fun w => ?_) fun _ => rfl
    split
    · exact build hu _
    · exact throw _
  · exact throw _

end Use

end Local

end TextPipeline.Pipeline
