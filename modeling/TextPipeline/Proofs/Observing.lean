import TextPipeline.Proofs.Receiving

/-! Observers of progress do not matter. An observer that fails by nothing but errors whose texts can be
read is as good as none, and there is no other that never stops what it observes (`polite_iff`): worlds that
differ only in such observers, and in what observers were told, are peers, and whatever is done in two peers
comes to the same and leaves peers. For every function this is shown from the same fact about the functions
that it calls; the observers of the two sides differ from the start of a run or of a pipeline on, in its
steps that are put off, and in the work that is left on the loop. -/

namespace TextPipeline.Pipeline

open TextPipeline.Transform
open TextPipeline.Pipeline.Action

/-- An observer that fails by nothing but errors whose texts can be read, or none. -/
def Polite (watcher : Option Watcher) : Prop :=
  ∀ x ∈ watcher, ∀ p f, x.reaction p = some f → f.isError = true ∧ ∃ said, f.render = .ok said

theorem polite_none : Polite none := fun _ h => by cases h

/-- An event that is there because of an observer. -/
def Event.ofObserver : Event → Bool
  | .progress .. => true
  | .log record => record.logger == Progress.logger
  | _ => false

/-- What happened, without what observers were told and how they failed. -/
def unobserved (es : List Event) : List Event := es.filter fun e => !e.ofObserver

@[simp] theorem unobserved_append (es fs : List Event) :
    unobserved (es ++ fs) = unobserved es ++ unobserved fs := List.filter_append ..

@[simp] theorem unobserved_notice (watcher : Option Watcher) (p : Progress) :
    unobserved (notice watcher p) = [] := by
  cases watcher with
  | none => rfl
  | some x =>
    cases h : x.reaction p with
    | none => simp [notice, unobserved, Event.ofObserver, h]
    | some f => cases hsaid : f.render <;> simp [notice, unobserved, Event.ofObserver, h, hsaid]

theorem Polite.not_interrupts {watcher : Option Watcher} (h : Polite watcher) {es : List Event} {f : Fault} :
    ¬Interrupts watcher es f := by
  rintro ⟨x, p, g, hx, -, hreaction, hstops⟩
  obtain ⟨herror, said, hsaid⟩ := h x hx p g hreaction
  rcases hstops with ⟨hnot, -⟩ | ⟨-, hunread⟩
  · cases herror.symm.trans hnot
  · cases hsaid.symm.trans hunread

/-- A polite observer stops nothing. -/
theorem result_emit {watcher : Option Watcher} (h : Polite watcher) (p : Progress) (w : World) :
    (emit watcher p).result w = (.ok (), { w with events := w.events ++ notice watcher p }) := by
  rcases emit_cases watcher p with ⟨g, k, hemit⟩ | hemit
  · exact absurd (emit_error (hemit w)) h.not_interrupts
  · exact hemit w

/-- The polite observers are those that never stop what they are told of. -/
theorem polite_iff {watcher : Option Watcher} :
    Polite watcher ↔ ∀ p w, ((emit watcher p).result w).1 = .ok () := by
  refine ⟨fun h p w => by rw [result_emit h], fun h x hx p f hf => ?_⟩
  obtain rfl := Option.mem_def.mp hx
  have hemit : ((ofLogged (Progress.observed (x.reaction p))).result (World.told {} (.progress x.id p))).1 =
      .ok () := h p {}
  rw [hf, result_observed] at hemit
  cases herror : f.isError with
  | false =>
    rw [herror] at hemit
    cases hemit
  | true =>
    cases hsaid : f.render with
    | ok said => exact ⟨rfl, said, rfl⟩
    | error g =>
      rw [herror, hsaid] at hemit
      cases hemit

/-! ### Worlds that differ in their observers -/

open Classical in
/-- An observer, unless it is a polite one. -/
noncomputable def mute (watcher : Option Watcher) : Option Watcher :=
  if Polite watcher then none else watcher

theorem mute_of_polite {a : Option Watcher} (h : Polite a) : mute a = none := if_pos h

theorem polite_of_mute {a b : Option Watcher} (h : mute a = mute b) : a = b ∨ Polite a ∧ Polite b := by
  unfold mute at h
  split at h <;> split at h
  · exact .inr ⟨‹_›, ‹_›⟩
  · exact absurd (h ▸ polite_none) ‹¬Polite b›
  · exact absurd (h ▸ polite_none) ‹¬Polite a›
  · exact .inl h

noncomputable def Compilation.mute (c : Compilation) : Compilation :=
  { c with watcher := Pipeline.mute c.watcher }

noncomputable def TreeReceiver.mute : TreeReceiver → TreeReceiver
  | .compilation c => .compilation c.mute
  | receiver => receiver

noncomputable def Delivery.mute : Delivery → Delivery
  | .stored name receiver => .stored name receiver.mute
  | delivery => delivery

noncomputable def Resumption.mute (k : Resumption) : Resumption :=
  { k with delivery := k.delivery.mute }

noncomputable def Run.mute (x : Run) : Run := { x with watcher := Pipeline.mute x.watcher }

noncomputable def Call.mute : Call → Call
  | .run on tree file watcher => .run on tree file (Pipeline.mute watcher)
  | .process on value settings watcher => .process on value settings (Pipeline.mute watcher)

noncomputable def Job.mute : Job → Job
  | .resume k result => .resume k.mute result
  | .start call future => .start call.mute future
  | job => job

/-- A completion whose waiting chains are told by no polite observer. -/
noncomputable def muteDone (c : Completion Resolution Resumption Empty) :
    Completion Resolution Resumption Empty :=
  { c with onDone := c.onDone.map Resumption.mute }

/-- Two worlds that differ only in polite observers and in what observers were told. -/
structure World.Peer (w v : World) : Prop where
  core : w.core = v.core
  completions : w.completions.map muteDone = v.completions.map muteDone
  runs : w.runs.map Run.mute = v.runs.map Run.mute
  futures : w.futures = v.futures
  jobs : w.jobs.map Job.mute = v.jobs.map Job.mute
  nexts : w.nexts = v.nexts
  events : unobserved w.events = unobserved v.events

theorem World.Peer.refl (w : World) : w.Peer w := ⟨rfl, rfl, rfl, rfl, rfl, rfl, rfl⟩

/-- The entries of two lists that are alike, at one place. -/
theorem getElem?_alike {α β : Type} {f : α → β} {l m : List α} (h : l.map f = m.map f) (i : Nat) :
    (l[i]? = none ∧ m[i]? = none) ∨ ∃ a b, l[i]? = some a ∧ m[i]? = some b ∧ f a = f b := by
  have hi := congrArg (·[i]?) h
  simp only [List.getElem?_map] at hi
  cases hl : l[i]? with
  | none => exact .inl ⟨rfl, by simpa [hl] using hi.symm⟩
  | some a =>
    rw [hl, Option.map_some, eq_comm, Option.map_eq_some_iff] at hi
    obtain ⟨b, hb, hab⟩ := hi
    exact .inr ⟨a, b, rfl, hb, hab.symm⟩

/-- Two actions that come to the same in worlds that are peers, and leave peers. -/
def Blind {α : Type} (x y : Action α) : Prop :=
  ∀ w v : World, w.Peer v → (x.result w).1 = (y.result v).1 ∧ (x.result w).2.Peer (y.result v).2

namespace Blind

variable {α β : Type}

theorem bind {x y : Action α} {f g : α → Action β} (h : Blind x y) (hf : ∀ a, Blind (f a) (g a)) :
    Blind (x >>= f) (y >>= g) := fun w v hp => by
  obtain ⟨ho, hq⟩ := h w v hp
  rw [result_bind, result_bind]
  generalize x.result w = done at *
  generalize y.result v = done' at *
  obtain ⟨o, w'⟩ := done
  obtain ⟨o', v'⟩ := done'
  obtain rfl : o = o' := ho
  cases o with
  | error e => exact ⟨rfl, hq⟩
  | ok a => exact hf a w' v' hq

/-- An action that has nothing to do with chains does not see observers. -/
theorem of_local {x : Action α} (hx : Local x) : Blind x x := fun w v hp => by
  rw [hx.result w, hx.result v, hp.core]
  refine ⟨rfl, rfl, hp.completions, hp.runs, hp.futures, hp.jobs, hp.nexts, ?_⟩
  rw [World.events_moved, World.events_moved, unobserved_append, unobserved_append, hp.events]

theorem pure (a : α) : Blind (pure a) (pure a) := of_local (.pure a)

theorem throw (f : Fault) : Blind (throw f : Action α) (throw f) := of_local (.throw f)

theorem attempt {x y : Action α} (h : Blind x y) : Blind (attempt x) (attempt y) := fun w v hp =>
  ⟨congrArg Except.ok (h w v hp).1, (h w v hp).2⟩

theorem ite {c : Prop} [Decidable c] {x y x' y' : Action α} (hx : Blind x x') (hy : Blind y y') :
    Blind (if c then x else y) (if c then x' else y') := by
  split
  · exact hx
  · exact hy

theorem get {f g : World → Action α} (h : ∀ w v : World, w.Peer v → Blind (f w) (g v)) :
    Blind (get >>= f) (get >>= g) := fun w v hp => h w v hp w v hp

theorem tell (e : Event) : Blind (tell e) (tell e) := fun w v hp =>
  ⟨rfl, hp.core, hp.completions, hp.runs, hp.futures, hp.jobs, hp.nexts, by simp [hp.events]⟩

/-- Both sides go through lists that are alike. -/
theorem forM {γ : Type} {φ : γ → β} {f g : γ → Action PUnit}
    (h : ∀ a b, φ a = φ b → Blind (f a) (g b)) {l m : List γ} (hl : l.map φ = m.map φ) :
    Blind (l.forM f) (m.forM g) := by
  induction l generalizing m with
  | nil =>
    cases m with
    | nil => exact pure _
    | cons b m => simp at hl
  | cons a l ih =>
    cases m with
    | nil => simp at hl
    | cons b m =>
      obtain ⟨hab, hl⟩ := List.cons.inj hl
      exact bind (h a b hab) fun _ => ih hl

theorem modify {f g : World → World} (h : ∀ w v : World, w.Peer v → (f w).Peer (g v)) :
    Blind (modify f) (modify g) := fun w v hp => ⟨rfl, h w v hp⟩

/-- An observer is told of progress, or another one, or none. -/
theorem emit {a b : Option Watcher} (h : mute a = mute b) (p : Progress) :
    Blind (emit a p) (emit b p) := by
  rcases polite_of_mute h with rfl | ⟨ha, hb⟩
  · exact of_local (.emit _ _)
  intro w v hp
  rw [result_emit ha, result_emit hb]
  refine ⟨rfl, hp.core, hp.completions, hp.runs, hp.futures, hp.jobs, hp.nexts, ?_⟩
  simp [hp.events]

theorem run_bind {r : Nat} {f g : Run → Action α} (h : ∀ x y, x.mute = y.mute → Blind (f x) (g y)) :
    Blind (run r >>= f) (run r >>= g) := fun w v hp => by
  rcases getElem?_alike hp.runs r with ⟨hw, hv⟩ | ⟨x, y, hw, hv, hxy⟩
  · have herror (u : World) (hu : u.runs[r]? = none) :
        (run r).result u = (.error (.raised "KeyError" [.nat r]), u) := by
      rw [run, result_get_bind]
      simp only [hu]
      rfl
    rw [result_bind_error (herror w hw), result_bind_error (herror v hv)]
    exact ⟨rfl, hp⟩
  · rw [result_bind_ok (result_run hw), result_bind_ok (result_run hv)]
    exact h x y hxy w v hp

theorem completion_bind {id : Nat} {f g : Completion Resolution Resumption Empty → Action α}
    (h : ∀ c d, muteDone c = muteDone d → Blind (f c) (g d)) :
    Blind (completion id >>= f) (completion id >>= g) := fun w v hp => by
  rcases getElem?_alike hp.completions id with ⟨hw, hv⟩ | ⟨c, d, hw, hv, hcd⟩
  · have herror (u : World) (hu : u.completions[id]? = none) :
        (completion id).result u = (.error (.raised "KeyError" [.nat id]), u) := by
      rw [completion, result_get_bind]
      simp only [hu]
      rfl
    rw [result_bind_error (herror w hw), result_bind_error (herror v hv)]
    exact ⟨rfl, hp⟩
  · rw [result_bind_ok (result_completion hw), result_bind_ok (result_completion hv)]
    exact h c d hcd w v hp

theorem setCompletion (id : Nat) {c d : Completion Resolution Resumption Empty}
    (h : muteDone c = muteDone d) : Blind (setCompletion id c) (setCompletion id d) :=
  modify fun w v hp => ⟨hp.core, by simp [hp.completions, h], hp.runs, hp.futures, hp.jobs, hp.nexts,
    hp.events⟩

theorem addCompletion (label : String) : Blind (addCompletion label) (addCompletion label) :=
  fun w v hp => by
    refine ⟨congrArg Except.ok ?_, hp.core, ?_, hp.runs, hp.futures, hp.jobs, hp.nexts, hp.events⟩
    · simpa using congrArg List.length hp.completions
    · show (w.completions ++ [_]).map muteDone = (v.completions ++ [_]).map muteDone
      rw [List.map_append, List.map_append, hp.completions]

theorem changeRun (r : Nat) {f : Run → Run} (hf : ∀ x, (f x).mute = f x.mute) :
    Blind (changeRun r f) (changeRun r f) :=
  modify fun w v hp => by
    refine ⟨hp.core, hp.completions, ?_, hp.futures, hp.jobs, hp.nexts, hp.events⟩
    have hmap (l : List Run) : (l.modify r f).map Run.mute = (l.map Run.mute).modify r f := by
      refine List.ext_getElem? fun i => ?_
      rw [List.getElem?_map, List.getElem?_modify, List.getElem?_modify, List.getElem?_map]
      split
      · cases l[i]? <;> simp [hf]
      · cases l[i]? <;> simp
    rw [hmap, hmap, hp.runs]

theorem enqueue {i j : Job} (h : i.mute = j.mute) : Blind (enqueue i) (enqueue j) :=
  modify fun w v hp => ⟨hp.core, hp.completions, hp.runs, hp.futures, by simp [hp.jobs, h], hp.nexts,
    hp.events⟩

end Blind

/-! ### What transformers do -/

/-- A host whose plugins do not see observers. -/
structure Host.Blind (host : Host) : Prop where
  use : ∀ on plugin options, Local (host.use on plugin options)
  process : ∀ on value, Pipeline.Blind (host.process on value) (host.process on value)
  resume : ∀ k k' result, k.mute = k'.mute →
    Pipeline.Blind (host.resume k result) (host.resume k' result)

namespace Blind

variable {host : Host}

theorem goOn (hh : host.Blind) {k k' : Resumption} (h : k.mute = k'.mute) (result : Resolution) :
    Blind (goOn host k result) (goOn host k' result) := by
  have hrun : k.run = k'.run := (congrArg Resumption.run h :)
  unfold Pipeline.goOn
  rw [hrun]
  refine run_bind fun x y hxy => get fun w v hp => ?_
  have hloop : x.loop = y.loop := (congrArg Run.loop hxy :)
  have hopen : w.openLoop = v.openLoop := congrArg Core.openLoop hp.core
  have hrunning : w.runningLoop = v.runningLoop := congrArg (·.world.runningLoop) hp.core
  rw [hloop, hopen, hrunning]
  refine ite (hh.resume k k' result h) (bind (of_local (.log _ _ _)) fun _ => enqueue ?_)
  rw [Job.mute, Job.mute, h]

theorem resolve (hh : host.Blind) (id : Nat) (result : Resolution) :
    Blind (resolve host id result) (resolve host id result) := by
  refine completion_bind fun ⟨label, phase, onDone, onAbandon⟩ ⟨label', phase', onDone', onAbandon'⟩ h => ?_
  obtain ⟨rfl, rfl, hdone, rfl⟩ := Completion.mk.inj h
  cases phase with
  | abandoned => exact of_local (.log _ _ _)
  | done _ => exact throw _
  | pending =>
    simp only [Completion.resolve, Action.ofOutcome, pure_bind]
    exact bind (setCompletion id rfl) fun _ => bind (tell _) fun _ =>
      forM (fun k k' hk => goOn hh hk result) hdone

theorem next (hh : host.Blind) (id : Nat) (error tree : Value) :
    Blind (next host id error tree) (next host id error tree) := by
  refine completion_bind fun c d h => get fun w v hp => ?_
  have hlabel : c.label = d.label := (congrArg Completion.label h :)
  have hpassed : w.passedError error = v.passedError error :=
    congrArg (fun c : Core => c.world.passedError error) hp.core
  rw [hlabel, hpassed]
  exact bind (of_local (.ofOutcome _)) fun _ => bind (of_local (.share _)) fun _ => resolve hh id _

theorem scene_next (hh : host.Blind) (scene : Scene) (error tree : Argument) :
    Blind (scene.next host error tree) (scene.next host error tree) :=
  bind (of_local (.argument _)) fun _ => bind (of_local (.argument _)) fun _ =>
    bind (of_local (.require _ _)) fun _ => next hh _ _ _

theorem saveNext (scene : Scene) (id : String) : Blind (scene.saveNext id) (scene.saveNext id) := by
  have hkeep (way : Option Nat) : Blind
      (MonadState.modifyGet fun w => ((), { w with nexts := (id, way) :: w.nexts }) : Action PUnit)
      (MonadState.modifyGet fun w => ((), { w with nexts := (id, way) :: w.nexts })) :=
    modify fun w v hp => ⟨hp.core, hp.completions, hp.runs, hp.futures, hp.jobs, by rw [hp.nexts],
      hp.events⟩
  rw [Scene.saveNext, Scene.way]
  split
  · simp only [bind_assoc, pure_bind]
    exact completion_bind fun _ _ _ => hkeep _
  · simp only [pure_bind]
    exact hkeep _

theorem callNext (hh : host.Blind) (id : String) (error tree : Value) :
    Blind (callNext host id error tree) (callNext host id error tree) := by
  refine get fun w v hp => ?_
  rw [hp.nexts]
  split
  · exact next hh _ _ _
  · exact throw _
  · exact throw _

theorem passing (guarded : Bool) {pass : Action Unit} (h : Blind pass pass) :
    Blind (passing guarded pass) (passing guarded pass) := by
  refine ite (bind (attempt h) fun o => ?_) h
  cases o with
  | ok _ => exact tell _
  | error f => exact ite (tell _) (throw _)

theorem perform (hh : host.Blind) (scene : Scene) (waits : Bool) (acts : List Act) :
    Blind (perform host scene waits acts) (perform host scene waits acts) := by
  -- What a step sees is settled by the core.
  have hsight {w v : World} (hp : w.Peer v) : w.sight = v.sight :=
    congrArg (fun c : Core => c.world.sight) hp.core
  have hlog (records : List LogRecord) : Blind (records.forM fun record => Action.tell (.log record))
      (records.forM fun record => Action.tell (.log record)) :=
    forM (φ := id) (fun a b h => by obtain rfl : a = b := h; exact tell _) rfl
  induction acts with
  | nil => exact pure _
  | cons act rest ih =>
    cases act with
    | change f =>
      refine get fun w v hp => ?_
      rw [hsight hp]
      exact bind (of_local (.content _)) fun _ => bind (of_local (.file _)) fun _ =>
        bind (of_local (.withStore _)) fun _ => bind (of_local (.setFile _ _)) fun _ =>
        bind (hlog _) fun _ => bind (of_local (.raise _)) fun _ => ih
    | mapLiterals type f records =>
      exact bind (of_local (.withStore _)) fun _ => bind (of_local (.raise _)) fun _ =>
        bind (hlog _) fun _ => ih
    | observe label f =>
      exact bind (of_local (.reveal _)) fun _ => bind (of_local (.file _)) fun _ =>
        bind (of_local (.ofOutcome _)) fun _ => bind (tell _) fun _ => ih
    | log record => exact bind (tell _) fun _ => ih
    | next guarded error tree => exact bind (passing _ (scene_next hh _ _ _)) fun _ => ih
    | saveNext id => exact bind (saveNext scene id) fun _ => ih
    | callNext guarded id error tree =>
      exact bind (passing _ (bind (of_local (.argument _)) fun _ => bind (of_local (.argument _))
        fun _ => callNext hh _ _ _)) fun _ => ih
    | laterNext threaded error tree =>
      refine bind (of_local (.argument _)) fun _ => bind (of_local (.argument _)) fun _ =>
        get fun w v hp => ?_
      have hrunning : w.runningLoop = v.runningLoop := congrArg (·.world.runningLoop) hp.core
      rw [hrunning]
      exact bind (of_local (.require _ _)) fun _ => bind (ite (enqueue rfl) (pure _)) fun _ => ih
    | use name plugin options =>
      refine bind (of_local (.named _)) fun _ => get fun w v hp => ?_
      rw [hsight hp]
      exact bind (of_local (.ofOutcome _)) fun _ => bind (of_local (.argument _)) fun _ =>
        bind (of_local (hh.use _ _ _)) fun _ => ih
    | process name value =>
      exact bind (of_local (.named _)) fun _ => bind (of_local (.argument _)) fun _ =>
        bind (hh.process _ _) fun _ => bind (tell _) fun _ => ih
    | sleep => exact ite (pure _) ih
    | raise f => exact throw f
    | give v => exact bind (of_local (.argument _)) fun _ => bind (of_local (.share _)) fun _ => pure _
    | giveReport reason =>
      exact bind (of_local (.file _)) fun _ => bind (of_local (.argument _)) fun _ =>
        bind (of_local (.lift _)) fun _ => bind (of_local (.setFile _ _)) fun _ => pure _
    | giveAwaitable => exact pure _

theorem performAll (hh : host.Blind) (scene : Scene) (t : Transformer) :
    Blind (performAll host scene t) (performAll host scene t) := by
  refine bind (of_local (.reveal _)) fun _ => bind (of_local (.file _)) fun _ =>
    bind (perform hh scene false _) fun r => ?_
  cases r <;> exact pure _

theorem call (hh : host.Blind) (scene : Scene) (t : Transformer) :
    Blind (call host scene t) (call host scene t) := by
  unfold Pipeline.call
  split
  · exact pure _
  · exact pure _
  · exact pure _
  · refine bind (attempt (performAll hh scene t)) fun r => ?_
    cases r with
    | ok v => exact pure _
    | error f => exact ite (pure _) (throw _)
  · refine bind (of_local (.tellArguments t)) fun _ => bind (performAll hh scene t) fun v => ?_
    split <;> exact pure _

/-! ### Chains -/

theorem tellRan (k : Callback) (error : Option Fault) (tree : Value) (id : Nat) :
    Blind (tellRan k error tree id) (tellRan k error tree id) := by
  refine get fun w v hp => ?_
  have hreveal : w.reveal tree = v.reveal tree :=
    congrArg (fun c : Core => c.world.reveal tree) hp.core
  have hnames : w.namesOfValue tree = v.namesOfValue tree :=
    congrArg (fun c : Core => c.world.namesOfValue tree) hp.core
  have hfile : w.namesOf (.file id) = v.namesOf (.file id) :=
    congrArg (fun c : Core => c.world.namesOf (.file id)) hp.core
  rw [hreveal, hnames, hfile]
  exact bind (tell _) fun _ => of_local (.raise _)

theorem tellProcessed (receiver : TextReceiver) (error : Option Fault) (text : Value) (id : Nat) :
    Blind (tellProcessed receiver error text id) (tellProcessed receiver error text id) := by
  cases receiver with
  | callback k =>
    refine get fun w v hp => ?_
    have hnames : w.namesOf (.file id) = v.namesOf (.file id) :=
      congrArg (fun c : Core => c.world.namesOf (.file id)) hp.core
    have hcontents : w.reveal (w.files.getD id File.empty).contents =
        v.reveal (v.files.getD id File.empty).contents :=
      congrArg (fun c : Core => c.world.reveal (c.files.getD id File.empty).contents) hp.core
    rw [hnames, hcontents]
    exact bind (tell _) fun _ => of_local (.raise _)
  | silent k => exact of_local (.raise _)
  | future future => exact enqueue rfl

section Observers

variable {a b : Option Watcher} (h : mute a = mute b)
include h

theorem tellFailed (f : Fault) : Blind (tellFailed a f) (tellFailed b f) :=
  bind (of_local (.textOf _)) fun _ => emit h _

theorem fail (receiver : TextReceiver) (f : Fault) (id : Nat) :
    Blind (fail a receiver f id) (fail b receiver f id) :=
  bind (of_local (.file _)) fun _ => bind (of_local (.logFault _ _ _ _)) fun _ =>
    bind (tellFailed h _) fun _ => tellProcessed _ _ _ _

theorem complete (id : Nat) (text : Value) : Blind (complete a id text) (complete b id text) :=
  bind (of_local (.file _)) fun _ => bind (of_local (.setFile _ _)) fun _ => emit h _

end Observers

theorem compile (r : Nat) {c d : Compilation} (h : c.mute = d.mute) (error : Option Fault)
    (tree : Value) : Blind (compile host r c error tree) (compile host r d error tree) := by
  obtain ⟨p, file, settings, a, receiver⟩ := c
  obtain ⟨p', file', settings', b, receiver'⟩ := d
  obtain ⟨rfl, rfl, rfl, h, rfl⟩ := Compilation.mk.inj h
  cases error with
  | some f => exact fail h _ _ _
  | none =>
    refine bind (emit h _) fun _ => bind (attempt (of_local (.stringify host _ _ _ _))) fun text => ?_
    cases text with
    | error f => exact ite (fail h _ _ _) (throw _)
    | ok text =>
      exact bind (emit h _) fun _ => bind (complete h _ _) fun _ =>
        bind (changeRun r fun _ => rfl) fun _ => tellProcessed _ _ _ _

theorem settle (r file : Nat) (name : String) (error : Option Fault) (tree : Value) :
    Blind (settle r file name error tree) (settle r file name error tree) :=
  ite (bind (of_local (.storeTree _ _ _)) fun _ => bind (tell _) fun _ => changeRun r fun _ => rfl)
    (pure _)

theorem receive (r file : Nat) {receiver receiver' : TreeReceiver} (h : receiver.mute = receiver'.mute)
    (error : Option Fault) (tree : Value) :
    Blind (receive host r file receiver error tree) (receive host r file receiver' error tree) := by
  cases receiver <;> cases receiver' <;> first | cases h | skip
  · exact tellRan _ _ _ _
  · exact enqueue rfl
  · exact compile r (TreeReceiver.compilation.inj h) error tree

theorem deliver (r : Nat) {delivery delivery' : Delivery} (h : delivery.mute = delivery'.mute)
    (error : Option Fault) (tree : Value) :
    Blind (deliver host r delivery error tree) (deliver host r delivery' error tree) := by
  refine run_bind fun x y hxy => bind (tell _) fun _ => ?_
  have hfile : x.file = y.file := (congrArg Run.file hxy :)
  rw [hfile]
  cases delivery <;> cases delivery' <;> first | cases h | skip
  · exact changeRun r fun _ => rfl
  · exact tellRan _ _ _ _
  · obtain ⟨rfl, hreceiver⟩ := Delivery.stored.inj h
    exact bind (settle r _ _ error tree) fun _ => receive r _ hreceiver error tree

theorem failStep (r : Nat) {delivery delivery' : Delivery} (h : delivery.mute = delivery'.mute)
    (name : String) (f : Fault) (tree : Value) :
    Blind (failStep host r delivery name f tree) (failStep host r delivery' name f tree) :=
  bind (of_local (.logFault _ _ _ _)) fun _ => deliver r h _ _

theorem schedule (hh : host.Blind) (id : Nat) (name : String) (job : Job) :
    Blind (schedule host id name job) (schedule host id name job) := by
  refine get fun w v hp => ?_
  have hrunning : w.runningLoop = v.runningLoop := congrArg (·.world.runningLoop) hp.core
  rw [hrunning]
  exact ite (resolve hh id _) (enqueue rfl)

theorem conclude (hh : host.Blind) (id : Nat) (t : Transformer) (answer : Outcome Answer) :
    Blind (conclude host id t answer) (conclude host id t answer) := by
  cases answer with
  | error f =>
    refine completion_bind fun c d h => ?_
    have hphase : c.phase = d.phase := (congrArg Completion.phase h :)
    rw [Completion.isDone, Completion.isDone, Completion.isAbandoned, Completion.isAbandoned, hphase]
    exact bind (of_local (.require _ _)) fun _ => resolve hh id _
  | ok answer =>
    refine ite (pure _) ?_
    cases answer with
    | value v => exact resolve hh id _
    | later task => exact schedule hh id _ _
    | settled s => exact schedule hh id _ _

theorem holdUp {k k' : Resumption} (h : k.mute = k'.mute) (sync : Bool) (name : String) (id : Nat)
    {c d : Completion Resolution Resumption Empty} (hc : muteDone c = muteDone d) :
    Blind (holdUp host k sync name id c) (holdUp host k' sync name id d) := by
  obtain ⟨r, index, tree, delivery⟩ := k
  obtain ⟨r', index', tree', delivery'⟩ := k'
  obtain ⟨rfl, rfl, rfl, hdelivery⟩ := Resumption.mk.inj h
  obtain ⟨label, phase, onDone, onAbandon⟩ := c
  obtain ⟨label', phase', onDone', onAbandon'⟩ := d
  obtain ⟨rfl, rfl, hdone, rfl⟩ := Completion.mk.inj hc
  refine ite (bind (setCompletion id ?_) fun _ => bind (of_local (.log _ _ _)) fun _ =>
    deliver r hdelivery _ _) (bind (of_local (.log _ _ _)) fun _ => setCompletion id ?_)
  · cases phase <;> simp [Completion.abandon, muteDone, hdone]
  · cases phase <;> simp [Completion.addDone, Completion.isDone, muteDone, hdone, h]

/-- The steps of a chain are called alike, whoever observes it and whoever is told of its result. -/
theorem drive (hh : host.Blind) (r : Nat) {delivery delivery' : Delivery}
    (h : delivery.mute = delivery'.mute) (sync : Bool) (rest : List Transformer) (index : Nat)
    (tree : Value) :
    Blind (drive host r delivery sync rest index tree) (drive host r delivery' sync rest index tree) := by
  induction rest generalizing index tree with
  | nil => exact bind (of_local (.log _ _ _)) fun _ => deliver r h _ _
  | cons t rest ih =>
    refine run_bind fun ⟨steps, a, loop, file, first, outcome, settled, compiled⟩
      ⟨steps', b, loop', file', first', outcome', settled', compiled'⟩ hxy => ?_
    obtain ⟨rfl, hwatcher, rfl, rfl, rfl, rfl, rfl, rfl⟩ := Run.mk.inj hxy
    refine bind ?_ fun id => completion_bind fun c d hc => ?_
    · refine get fun w v hp => ?_
      have hview : w.view tree file = v.view tree file :=
        congrArg (fun c : Core => c.world.view tree file) hp.core
      rw [hview]
      exact bind (addCompletion _) fun id => bind (tell _) fun _ =>
        bind (bind (of_local (.log _ _ _)) fun _ => bind (attempt (call hh _ t)) fun _ =>
          conclude hh id t _) fun _ => pure _
    · have hresult : c.result? = d.result? := by
        have hphase : c.phase = d.phase := (congrArg Completion.phase hc :)
        rw [Completion.result?, Completion.result?, hphase]
      rw [hresult]
      split
      · split
        · exact failStep r h _ _ _
        · exact bind (emit hwatcher _) fun _ => ih _ _
      · refine holdUp ?_ sync t.name id hc
        rw [Resumption.mute, Resumption.mute, h]

theorem resume (hh : host.Blind) {k k' : Resumption} (h : k.mute = k'.mute) (result : Resolution) :
    Blind (resume host k result) (resume host k' result) := by
  obtain ⟨r, index, tree, delivery⟩ := k
  obtain ⟨r', index', tree', delivery'⟩ := k'
  obtain ⟨rfl, rfl, rfl, hdelivery⟩ := Resumption.mk.inj h
  refine run_bind fun ⟨steps, a, loop, file, first, outcome, settled, compiled⟩
    ⟨steps', b, loop', file', first', outcome', settled', compiled'⟩ hxy => ?_
  obtain ⟨rfl, hwatcher, rfl, rfl, rfl, rfl, rfl, rfl⟩ := Run.mk.inj hxy
  dsimp only
  split
  · exact failStep r hdelivery _ _ _
  · exact bind (emit hwatcher _) fun _ => drive hh r hdelivery false _ _ _

section Observers

variable {a b : Option Watcher} (h : mute a = mute b)
include h

theorem start (hh : host.Blind) (steps : List Transformer) (tree : Value) (file : Nat)
    {delivery delivery' : Delivery} (hd : delivery.mute = delivery'.mute) :
    Blind (start host steps a tree file delivery) (start host steps b tree file delivery') := by
  refine bind (of_local (.log _ _ _)) fun _ => get fun w v hp => ?_
  have hlength : w.runs.length = v.runs.length := by simpa using congrArg List.length hp.runs
  have hrunning : w.runningLoop = v.runningLoop := congrArg (·.world.runningLoop) hp.core
  rw [hlength]
  refine bind (fun _ _ _ => ⟨rfl, hp.core, hp.completions, ?_, hp.futures, hp.jobs, hp.nexts,
    hp.events⟩) fun _ => bind ?_ fun _ => pure _
  · show (w.runs ++ [_]).map Run.mute = (v.runs ++ [_]).map Run.mute
    rw [List.map_append, List.map_append, hp.runs, hrunning, List.map_singleton, List.map_singleton,
      Run.mute, Run.mute, h]
  · cases delivery <;> cases delivery' <;> first | exact drive hh _ hd _ steps 0 tree | cases hd

theorem runChain (hh : host.Blind) (steps : List Transformer) (tree : Value) (file : Nat) :
    Blind (runChain host steps a tree file) (runChain host steps b tree file) := by
  refine bind (start h hh steps tree file rfl) fun r => run_bind fun x y hxy => ?_
  have houtcome : x.outcome = y.outcome := (congrArg Run.outcome hxy :)
  rw [houtcome]
  split
  · exact pure _
  · exact throw _
  · exact pure _

/-! ### Processors -/

theorem runTree (hh : host.Blind) (p : Nat) (tree : Value) (id : Nat) :
    Blind (runTree host p tree id a) (runTree host p tree id b) :=
  bind (of_local (.processor _)) fun _ => bind (of_local (.startTree _ _ _)) fun _ =>
    bind (runChain h hh _ _ _) fun _ => bind (of_local (.storeTree _ _ _)) fun _ =>
    bind (tell _) fun _ => pure _

omit h in
theorem tellNoTree {receiver receiver' : TreeReceiver} (hr : receiver.mute = receiver'.mute) (f : Fault)
    (id : Nat) : Blind (tellNoTree receiver f id) (tellNoTree receiver' f id) := by
  cases receiver <;> cases receiver' <;> first | cases hr | skip
  · exact tellRan _ _ _ _
  · exact enqueue rfl
  · rename_i c d
    obtain ⟨p, file, settings, a, receiver⟩ := c
    obtain ⟨p', file', settings', b, receiver'⟩ := d
    obtain ⟨rfl, rfl, rfl, h, rfl⟩ := Compilation.mk.inj (TreeReceiver.compilation.inj hr)
    exact fail h _ _ _

theorem runTreeFor (hh : host.Blind) (p : Nat) (tree : Value) (id : Nat)
    {receiver receiver' : TreeReceiver} (hr : receiver.mute = receiver'.mute) :
    Blind (runTreeFor host p tree id a receiver) (runTreeFor host p tree id b receiver') := by
  refine bind (of_local (.processor _)) fun q => bind (attempt (of_local (.startTree _ _ _))) fun o => ?_
  cases o with
  | error f =>
    exact bind (of_local (.require _ _)) fun _ => bind (tellNoTree hr _ _) fun _ => pure _
  | ok first =>
    refine bind (start h hh _ first id ?_) fun r => pure _
    rw [Delivery.mute, Delivery.mute, hr]

theorem processText (hh : host.Blind) (p : Nat) (value settings : Value) :
    Blind (processText host p value settings a) (processText host p value settings b) := by
  have hprocess (id : Nat) : Blind (processFile host p id settings a) (processFile host p id settings b) :=
    bind (of_local (.requireEndpoints _)) fun _ => bind (of_local (.parseFile _ _ _ _)) fun _ =>
      bind (emit h _) fun _ => bind (runTree h hh _ _ _) fun _ => bind (emit h _) fun _ =>
      bind (of_local (.stringify host _ _ _ _)) fun _ => bind (emit h _) fun _ => pure _
  refine bind (of_local (.toFile _)) fun id => bind (of_local (.file _)) fun f => bind (emit h _)
    fun _ => bind (attempt (hprocess id)) fun o => ?_
  cases o with
  | ok text => exact bind (complete h _ _) fun _ => pure _
  | error f => exact ite (bind (tellFailed h _) fun _ => throw _) (throw _)

theorem processTextFor (hh : host.Blind) (p : Nat) (value settings : Value) (receiver : TextReceiver) :
    Blind (processTextFor host p value settings a receiver)
      (processTextFor host p value settings b receiver) := by
  refine bind (attempt (of_local (.toFile _))) fun o => ?_
  cases o with
  | error f =>
    exact bind (of_local (.require _ _)) fun _ => bind (of_local (.addFile _)) fun _ =>
      bind (fail h _ _ _) fun _ => pure _
  | ok id =>
    refine bind (attempt (bind (of_local (.file _)) fun _ => bind (emit h _) fun _ =>
      bind (of_local (.requireEndpoints _)) fun _ => of_local (.parseFile _ _ _ _))) fun o => ?_
    cases o with
    | error f => exact bind (of_local (.require _ _)) fun _ => bind (fail h _ _ _) fun _ => pure _
    | ok tree =>
      refine bind (emit h _) fun _ => bind (runTreeFor h hh p tree id ?_) fun r => ?_
      · rw [TreeReceiver.mute, TreeReceiver.mute, Compilation.mute, Compilation.mute, h]
      · cases r with
        | none => exact pure _
        | some r =>
          refine run_bind fun x y hxy => ?_
          have hcompiled : x.compiled = y.compiled := (congrArg Run.compiled hxy :)
          rw [hcompiled]
          exact pure _

end Observers

end Blind

/-- Plugins do not see observers at any depth. -/
theorem Host.nested_blind (endpoints : Grammar.Endpoints) (standard : List (Plugin.Metadata Attacher))
    (surroundings : Plugin.Surroundings Attacher) (depth : Nat) :
    (Host.nested endpoints standard surroundings depth).Blind := by
  have hsteady := Host.nested_steady endpoints standard surroundings
  induction depth with
  | zero => exact ⟨fun _ _ _ => .throw _, fun _ _ => .throw _, fun _ _ _ _ => .throw _⟩
  | succ depth ih =>
    exact ⟨(hsteady (depth + 1)).use,
      fun on value => .bind (.of_local (.processorFor (hsteady depth).use on)) fun _ =>
        .processText rfl ih _ _ _,
      fun k k' result h => .resume ih h result⟩

end TextPipeline.Pipeline
