import TextPipeline.Proofs.Passing

/-! A chain that must not wait is a fold over its steps. Each step makes a tree of the tree that it is
given, or fails, and the first fault ends the fold. What a step comes to can be read off its call: how
the transformer answered, and what it passed on meanwhile. The completions in between leave no trace in
the result. -/

namespace TextPipeline.Pipeline

open TextPipeline.Transform
open TextPipeline.Pipeline.Action
open World (nobody)

/-- What a call of a transformer makes of the tree that it was given: by how it ended, by the result
that was passed on meanwhile, which only those pass on that are handed the way to, and by whether a loop
is running on which an answer could be waited for. -/
def verdict (t : Transformer) (tree : Value) (passed : Option Resolution) (looping : Bool) :
    Outcome Answer → Outcome Value
  | .error f => .error f
  | .ok answer =>
    if t.style.takesNext then
      match passed with
      | some ⟨some f, _⟩ => .error f
      | some ⟨none, some new⟩ => .ok new
      | some ⟨none, none⟩ => .ok tree
      | none => .error (notSynchronous t.name)
    else
      match answer with
      | .value .none => .ok tree
      | .value (.error f) => .error f
      | .value v =>
        if v.isNode then .ok v
        else
          .error (.transform (.str ("Transformer '" ++ t.name ++
            "' returned unsupported value of type " ++ v.typeName)) (some t.name) none)
      | _ => .error (if looping then notSynchronous t.name else noLoop t.name)

/-- One step of a chain as a step of a fold. What the call came to is noted as a chain notes it, which
does not matter to the verdict. -/
def foldStep (host : Host) (r : Nat) (x : Run) (tree : Value) (step : Transformer × Nat) :
    Action Value := do
  let (t, index) := step
  let id := (← get).completions.length
  modify fun w => w.calling r x index t tree
  log .debug Transform.logger ("Applying transformer " ++ toString (index + 1) ++ "/" ++
    toString x.steps.length ++ ": " ++ t.name)
  let answer ← attempt (call host ⟨tree, x.file, id, t.style.takesNext⟩ t)
  let w ← get
  let _ ← attempt (conclude host id t answer)
  let new ← ofOutcome (verdict t tree (resolutions id w.events).head? w.runningLoop.isSome answer)
  tellStep x index t.name
  return new

/-- What a result makes of the tree that the step was given. -/
def yield (tree : Value) (result : Resolution) : Outcome Value :=
  settlement result.error (result.tree.getD tree)

variable {host : Host} {w : World} {id : Nat} {c : Completion Resolution Resumption Empty}

/-- A completion with a result, for which nobody waits any more. -/
def answered (c : Completion Resolution Resumption Empty) (result : Resolution) :
    Completion Resolution Resumption Empty :=
  { c with phase := .done result, onDone := [] }

/-- The world in which a step has its result. -/
def World.answering (w : World) (id : Nat) (c : Completion Resolution Resumption Empty)
    (result : Resolution) : World :=
  { w with
    completions := w.completions.set id (answered c result)
    events := w.events ++ [.resolved id result] }

theorem World.result?_answering (hc : w.completions[id]? = some c) (result : Resolution) :
    (w.answering id c result).result? id = some result := by
  have hset : (w.answering id c result).completions[id]? = some (answered c result) :=
    List.getElem?_set_self (List.getElem?_eq_some_iff.mp hc).1
  exact World.result?_of_found hset

/-- A step that nobody waits for is resolved. -/
theorem result_resolve_unwaited (hc : w.completions[id]? = some c) (hp : c.phase = .pending)
    (hk : c.onDone = []) (result : Resolution) :
    (resolve host id result).result w = (.ok (), w.answering id c result) := by
  have hr : c.resolve result = .ok (some (answered c result, [])) := by
    simp [Completion.resolve, hp, hk, answered]
  rw [resolve, result_bind_ok (result_completion hc), hr]
  rfl

/-- To pass on a result of a step that nobody waits for is to resolve it with what the result comes
to. -/
theorem result_next_unwaited (hc : w.completions[id]? = some c) (hp : c.phase = .pending)
    (hk : c.onDone = []) {error e : Value} (he : w.passedError error = .ok e) (tree : Value) :
    (next host id error tree).result w =
      (.ok (), (w.handing tree).answering id c (Resolution.ofCall c.label e (w.handed tree))) := by
  rw [next, result_bind_ok (result_completion hc), result_get_bind, he,
    result_bind_ok (result_ofOutcome _ w), result_bind_ok (result_share_handed w tree)]
  exact result_resolve_unwaited (w := w.handing tree) hc hp hk _

/-- A step of a run that was just called and that nobody waits for. Nobody but the step itself can have
resolved it, and that only if it was handed the way to. -/
structure World.Answerable (w : World) (id : Nat) (t : Transformer)
    (c : Completion Resolution Resumption Empty) : Prop where
  found : w.completions[id]? = some c
  unwaited : c.onDone = []
  open_ : c.phase ≠ .abandoned
  untold : t.style.takesNext = false → c.phase = .pending

theorem schedule_verdict (h : w.completions[id]? = some c) (hp : c.phase = .pending)
    (hk : c.onDone = []) (name : String) (job : Job) {o : Outcome Unit} {v : World}
    (hr : (schedule host id name job).result w = (o, v)) :
    o = .ok () ∧ v.result? id =
      if w.runningLoop.isSome then none else some (.failed (noLoop name)) := by
  rw [schedule, result_get_bind] at hr
  cases hl : w.runningLoop with
  | none =>
    simp only [hl, Option.isNone_none, if_true] at hr
    rw [result_resolve_unwaited h hp hk] at hr
    obtain ⟨rfl, rfl⟩ := Prod.mk.inj hr
    exact ⟨rfl, World.result?_answering h _⟩
  | some l =>
    rw [hl, if_neg (by simp)] at hr
    obtain ⟨rfl, rfl⟩ := Prod.mk.inj hr
    refine ⟨rfl, ?_⟩
    simp [World.result?, h, Completion.result?, hp]

/-- What can come of noting how a step has answered. -/
inductive World.Concludes (w : World) (id : Nat) (t : Transformer)
    (c : Completion Resolution Resumption Empty) : Outcome Answer → Outcome Unit × World → Prop where
  /-- A fault is passed through that is no error, or that comes after the result. -/
  | raised {f : Fault} : f.isError = false ∨ t.style.takesNext = true ∧ w.result? id ≠ none →
    Concludes w id t c (.error f) (.error f, w)
  | failed {f : Fault} : Concludes w id t c (.error f) (.ok (), w.answering id c (.failed f))
  /-- An answer does not matter where the way to pass on the result was handed out. -/
  | ignored {answer : Answer} : t.style.takesNext = true →
    Concludes w id t c (.ok answer) (.ok (), w)
  | returned {value : Value} : t.style.takesNext = false →
    Concludes w id t c (.ok (.value value))
      (.ok (), w.answering id c (Resolution.ofReturn t.name value))
  /-- An answer that is to come waits for a loop. -/
  | scheduled {answer : Answer} {v : World} : t.style.takesNext = false →
    (∀ value, answer ≠ .value value) →
    v.result? id = (if w.runningLoop.isSome then none else some (.failed (noLoop t.name))) →
    Concludes w id t c (.ok answer) (.ok (), v)

theorem World.Answerable.concludes {t : Transformer} (h : w.Answerable id t c) (a : Outcome Answer) :
    w.Concludes id t c a ((conclude host id t a).result w) := by
  have resolved (hp : c.phase = .pending) (result : Resolution) :
      (resolve host id result).result w = (.ok (), w.answering id c result) :=
    result_resolve_unwaited h.found hp h.unwaited result
  have scheduled (hn : t.style.takesNext = false) {answer : Answer}
      (hanswer : ∀ value, answer ≠ .value value) (job : Job) :
      w.Concludes id t c (.ok answer) ((schedule host id t.name job).result w) := by
    generalize hr : (schedule host id t.name job).result w = done
    obtain ⟨o, v⟩ := done
    obtain ⟨rfl, hv⟩ := schedule_verdict h.found (h.untold hn) h.unwaited _ _ hr
    exact .scheduled hn hanswer hv
  cases a with
  | error f =>
    rw [conclude, result_bind_ok (result_completion h.found)]
    cases hb : f.isError && !(t.style.takesNext && (c.isDone || c.isAbandoned)) with
    | true =>
      have hp : c.phase = .pending := by
        cases hn : t.style.takesNext with
        | false => exact h.untold hn
        | true =>
          cases hp : c.phase with
          | pending => rfl
          | done result => simp [hn, Completion.isDone, hp] at hb
          | abandoned => exact absurd hp h.open_
      rw [result_bind_ok (result_require_true f w), resolved hp]
      exact .failed
    | false =>
      refine .raised ?_
      cases he : f.isError with
      | false => exact .inl rfl
      | true =>
        cases hp : c.phase with
        | pending => simp [he, Completion.isDone, Completion.isAbandoned, hp] at hb
        | abandoned => exact absurd hp h.open_
        | done result =>
          refine .inr ⟨by simpa [he, Completion.isDone, hp] using hb, ?_⟩
          simp [result?_of_phase h.found hp]
  | ok answer =>
    unfold conclude
    dsimp only
    cases hn : t.style.takesNext with
    | true => exact .ignored hn
    | false =>
      rw [if_neg (by simp)]
      cases answer with
      | value value =>
        dsimp only
        rw [resolved (h.untold hn)]
        exact .returned hn
      | later task => exact scheduled hn (by simp) _
      | settled s => exact scheduled hn (by simp) _

/-- What comes of a step by what was noted of it. -/
def noted (t : Transformer) (tree : Value) (result : Option Resolution) : Outcome Unit → Outcome Value
  | .error f => .error f
  | .ok _ =>
    match result with
    | some result => yield tree result
    | none => .error (notSynchronous t.name)

/-- What is noted of a call is its verdict: it fails, or the step has a result, or the chain is held
up. -/
theorem conclude_verdict {t : Transformer} (h : w.Answerable id t c) (tree : Value)
    {a : Outcome Answer} {o : Outcome Unit} {v : World}
    (hr : (conclude host id t a).result w = (o, v)) :
    verdict t tree c.result? w.runningLoop.isSome a = noted t tree (v.result? id) o := by
  have hconcludes : w.Concludes id t c a (o, v) := hr ▸ h.concludes a
  unfold verdict noted
  cases hconcludes with
  | raised => rfl
  | failed =>
    rw [World.result?_answering h.found]
    rfl
  | ignored hn =>
    rw [World.result?_of_found h.found]
    simp only [hn, if_true]
    rcases c.result? with _ | ⟨_ | f, _ | new⟩ <;> rfl
  | @returned value hn =>
    simp only [World.result?_answering h.found, hn, Bool.false_eq_true, if_false]
    unfold Resolution.ofReturn
    cases value with
    | none => rfl
    | error f => rfl
    | _ => dsimp only; split <;> rfl
  | @scheduled answer _ hn hanswer hv =>
    simp only [hv, hn, Bool.false_eq_true, if_false]
    cases answer with
    | value value => exact absurd rfl (hanswer value)
    | later task | settled s => cases w.runningLoop <;> rfl

/-- When a step has been called that was due, it is answerable, and what it passed on is its result. -/
theorem World.Ready.answerable (hh : host.Steady) {r index : Nat} {x : Run} {t : Transformer}
    {tree : Value} (h : w.Ready r x (.due index tree)) (ht : x.steps[index]? = some t) (e : Event)
    (he : e.ofChain = false) {o : Outcome Answer} {v : World}
    (hr : (call host ⟨tree, x.file, w.completions.length, t.style.takesNext⟩ t).result
      ((w.calling r x index t tree).told e) = (o, v)) :
    ∃ c, v.Answerable w.completions.length t c ∧
      (resolutions w.completions.length v.events).head? = c.result? := by
  obtain ⟨hcalling, -⟩ := h.calling ht
  obtain ⟨hu, -⟩ : Safe nobody _ (tell e) := Steady.of_local (.tell he) _ hcalling.sound
  obtain ⟨hv, huv⟩ := Steady.call hh ⟨tree, x.file, w.completions.length, t.style.takesNext⟩ t _ hu
  simp only [result_tell, hr] at hv huv
  have hid := w.calling_completion r x index t tree
  have hlt := (List.getElem?_eq_some_iff.mp hid).1
  obtain ⟨c, hc⟩ : ∃ c, v.completions[w.completions.length]? = some c :=
    ⟨_, List.getElem?_eq_getElem (Nat.lt_of_lt_of_le hlt huv.completions)⟩
  refine ⟨c, ⟨hc, ?_, fun ha => ?_, fun hn => ?_⟩, ?_⟩
  · exact List.sublist_nil.mp (huv.unwaited _ _ _ hid hc)
  · have hnot := (World.abandoned_iff hid).not.mpr (by simp [Completion.start])
    exact hnot ((huv.abandoned _ hlt).mp ((World.abandoned_iff hc).mpr ha))
  · have hunnamed : World.Unnamed ((w.calling r x index t tree).told e) w.completions.length :=
      h.sound.unnamed _ (Nat.le_refl _)
    obtain ⟨-, hsame⟩ := huv.spared _ (fun hs => by simp [Scene.rights, hn] at hs) hlt hunnamed
    rw [hc, World.completions_told, hid] at hsame
    rw [Option.some.inj hsame]
    rfl
  · rw [hv.answered, World.result?, hc]
    cases hc? : c.result? <;> simp [hc?]

/-- The record that a step is called. -/
def applying (x : Run) (index : Nat) (t : Transformer) : Event :=
  .log ⟨.debug, Transform.logger, "Applying transformer " ++ toString (index + 1) ++ "/" ++
    toString x.steps.length ++ ": " ++ t.name⟩

section Step

variable (host : Host) (r : Nat) (x : Run) (index : Nat) (t : Transformer) (tree : Value) (w : World)

/-- How the call of the next step of a run ends. -/
def World.call : Outcome Answer × World :=
  (Pipeline.call host ⟨tree, x.file, w.completions.length, t.style.takesNext⟩ t).result
    ((w.calling r x index t tree).told (applying x index t))

/-- What is noted of the call of the next step of a run. -/
def World.concluded : Outcome Unit × World :=
  (conclude host w.completions.length t (w.call host r x index t tree).1).result
    (w.call host r x index t tree).2

theorem result_apply_calling :
    (apply host x index t tree w.completions.length).result (w.calling r x index t tree) =
      w.concluded host r x index t tree := by
  rw [apply, result_bind_ok (result_log _ _ _ _), result_bind_ok (result_attempt _ _)]
  rfl

theorem result_foldStep :
    (foldStep host r x tree (t, index)).result w =
      (do
        let new ← ofOutcome (verdict t tree
          (resolutions w.completions.length (w.call host r x index t tree).2.events).head?
          (w.call host r x index t tree).2.runningLoop.isSome (w.call host r x index t tree).1)
        tellStep x index t.name
        return new : Action Value).result (w.concluded host r x index t tree).2 := rfl

end Step

theorem concluded_of_invoke {r index : Nat} {x : Run} {t : Transformer} {tree : Value} {v : World}
    {o : Outcome Nat} (h : (invoke host r x index t tree).result w = (o, v)) :
    w.concluded host r x index t tree = (o.map fun _ => (), v) :=
  (result_apply_calling host r x index t tree w).symm.trans (apply_of_invoke h)

/-- What a step of a chain comes to where the chain must not wait. -/
def Stride.outcome (t : Transformer) : Stride → Outcome Value
  | .held _ _ => .error (notSynchronous t.name)
  | .failed f => .error f
  | .next new => .ok new

/-- A step of the fold does what the step of the chain does. -/
theorem World.Ready.result_foldStep (hh : host.Steady) {r index : Nat} {x : Run} {t : Transformer}
    {tree : Value} (h : w.Ready r x (.due index tree)) (ht : x.steps[index]? = some t) :
    (foldStep host r x tree (t, index)).result w =
      (stride host r t index tree >>= fun s => ofOutcome (s.outcome t)).result w := by
  obtain ⟨c, hanswerable, hpassed⟩ := h.answerable hh ht (applying x index t) rfl
    (o := (w.call host r x index t tree).1) (v := (w.call host r x index t tree).2) rfl
  have hverdict := conclude_verdict hanswerable tree
    (a := (w.call host r x index t tree).1) (o := (w.concluded host r x index t tree).1)
    (v := (w.concluded host r x index t tree).2) rfl
  have hstride := h.strode hh ht
  rw [Pipeline.result_foldStep, hpassed, hverdict, result_bind (ofOutcome _), result_ofOutcome,
    result_bind (stride host r t index tree)]
  generalize (stride host r t index tree).result w = done at hstride
  cases hstride with
  | stopped hinvoke =>
    rw [concluded_of_invoke hinvoke]
    rfl
  | held hinvoke _ hc hr =>
    rw [concluded_of_invoke hinvoke, World.result?_of_found hc, hr]
    rfl
  | failed hinvoke _ hr he =>
    rw [concluded_of_invoke hinvoke, hr, Except.map, noted, yield, he]
    rfl
  | untold hinvoke htold _ hr he =>
    rw [result?_of_tellStep htold] at hr
    rw [concluded_of_invoke hinvoke, hr, Except.map, noted, yield, he]
    exact result_bind_error htold
  | next hinvoke htold _ hr he =>
    rw [result?_of_tellStep htold] at hr
    rw [concluded_of_invoke hinvoke, hr, Except.map, noted, yield, he]
    exact result_bind_ok htold

/-- How a chain reports the outcome of a fold: as it is, unless the fault that ended the fold cannot be
read; then the chain fails with the fault of reading it. -/
def Reports {α : Type} (folded ran : Outcome α) : Prop :=
  ran = folded ∨ ∃ f unread, folded = .error f ∧ f.inspect = .error unread ∧ ran = .error unread

/-- What a chain and a fold have in common when both are through: everything but chains, the calls,
and the outcome, which the chain keeps unless it fails itself. -/
structure Agree (r : Nat) (x : Run) (driven : Outcome Unit × World) (folded : Outcome Value × World) :
    Prop where
  core : driven.2.core = folded.2.core
  calls_eq : calls r driven.2.events = calls r folded.2.events
  outcome : (∃ f, driven.1 = .error f ∧ Reports folded.1 (.error f)) ∨
    driven.1 = .ok () ∧ ∃ error final, folded.1 = settlement error final ∧
      driven.2.runs[r]? = some (x.keep error final)

/-- The end of a chain is kept that comes to what the fold came to. -/
theorem agree_ended {r : Nat} {x : Run} {v : World} (hx : v.runs[r]? = some x) (hc : v.core = w.core)
    (hcalls : calls r v.events = calls r w.events) {error : Option Fault} {final : Value}
    {o : Outcome Value} (ho : o = settlement error final) :
    Agree r x (.ok (), v.ended r error final) (o, w) where
  core := hc
  calls_eq := by simp [hcalls]
  outcome := .inr ⟨rfl, error, final, ho, by simp [hx]⟩

/-- A step fails, or holds up the chain, where the fold fails. -/
theorem agree_holdUp {r index : Nat} {x : Run} {t : Transformer} {tree : Value}
    (hx : w.runs[r]? = some x) :
    Agree r x ((holdUp host ⟨r, index, tree, .kept⟩ true t.name id c).result w)
      (.error (notSynchronous t.name), w) := by
  have hset : (setCompletion id (c.abandon.getD c)).result w =
      (.ok ⟨⟩, { w with completions := w.completions.set id (c.abandon.getD c) }) := rfl
  rw [holdUp, if_pos rfl, result_bind_ok hset, result_bind_ok (result_log _ _ _ _)]
  dsimp only
  rw [result_deliver_kept (x := x) _ _ (by exact hx)]
  refine agree_ended ?_ ?_ ?_ rfl
  · exact hx
  · rfl
  · simp

theorem agree_failStep {r : Nat} {x : Run} {f : Fault} {name : String} {tree : Value}
    (hx : w.runs[r]? = some x) :
    Agree r x ((failStep host r .kept name f tree).result w) (.error f, w) := by
  rw [failStep]
  cases hsaid : f.inspect with
  | error unread =>
    rw [result_bind_error (result_logFault_error hsaid _ _ _ _)]
    exact ⟨rfl, rfl, .inl ⟨unread, rfl, .inr ⟨f, unread, rfl, hsaid, rfl⟩⟩⟩
  | ok said =>
    rw [result_bind_ok (result_logFault_ok hsaid _ _ _ _),
      result_deliver_kept (x := x) _ _ (by exact hx)]
    refine agree_ended ?_ ?_ ?_ rfl
    · exact hx
    · rfl
    · simp

/-- A chain that must not wait, from a step on that is due, does what the fold does over the steps that
are left. -/
theorem drive_fold (hh : host.Steady) {r : Nat} {x : Run} {rest : List Transformer} {index : Nat}
    {tree : Value} {w : World} (h : w.Ready r x (.due index tree))
    (hrest : x.steps.drop index = rest) :
    Agree r x ((drive host r .kept true rest index tree).result w)
      (((rest.zipIdx index).foldlM (foldStep host r x) tree).result w) := by
  induction rest generalizing index tree w with
  | nil =>
    rw [drive, result_bind_ok (result_log _ _ _ w), result_deliver_kept _ _ (by exact h.run)]
    refine agree_ended ?_ ?_ ?_ rfl
    · exact h.run
    · rfl
    · simp
  | cons t rest ih =>
    obtain ⟨ht, hrest'⟩ := of_drop_eq_cons hrest
    have hstride := h.strode hh ht
    rw [drive_cons, List.zipIdx_cons, List.foldlM_cons, result_bind (stride host r t index tree),
      result_bind (foldStep host r x tree (t, index)), h.result_foldStep hh ht,
      result_bind (stride host r t index tree)]
    generalize (stride host r t index tree).result w = done at hstride
    cases hstride with
    | stopped => exact ⟨rfl, rfl, .inl ⟨_, rfl, .inl rfl⟩⟩
    | held _ hinv => exact agree_holdUp hinv.ready.run
    | failed _ hinv => exact agree_failStep hinv.ready.run
    | untold => exact ⟨rfl, rfl, .inl ⟨_, rfl, .inl rfl⟩⟩
    | next _ _ hinv hr he => exact ih (hinv.due hr he) hrest'

theorem runChain_fold (hh : host.Steady) (hw : w.Sound) (steps : List Transformer)
    (watcher : Option Watcher) (tree : Value) (file : Nat) :
    let r := w.runs.length
    let ran := (runChain host steps watcher tree file).result w
    let folded := (steps.zipIdx.foldlM (foldStep host r (w.nextRun steps watcher tree file)) tree).result
      (w.starting steps watcher tree file)
    Reports folded.1 ran.1 ∧ ran.2.core = folded.2.core ∧
      calls r ran.2.events = calls r folded.2.events := by
  intro r ran folded
  obtain ⟨hready, -⟩ := hw.starting steps watcher tree file
  have hagree : Agree r (w.nextRun steps watcher tree file)
      ((drive host w.runs.length .kept true steps 0 tree).result (w.starting steps watcher tree file))
      folded := drive_fold hh hready rfl
  have hstart := result_start host steps watcher tree file .kept w
  generalize hdriven : (drive host w.runs.length .kept true steps 0 tree).result
    (w.starting steps watcher tree file) = driven at hagree
  have hran : ran = (runChain host steps watcher tree file).result w := rfl
  rw [hdriven] at hstart
  obtain ⟨o, v⟩ := driven
  obtain ⟨hcore, hcalls, houtcome⟩ := hagree
  rw [runChain] at hran
  rcases houtcome with ⟨f, rfl, hf⟩ | ⟨rfl, error, final, hf, hx⟩
  · rw [result_bind_error hstart] at hran
    exact hran ▸ ⟨hf, hcore, hcalls⟩
  · rw [result_bind_ok hstart, result_bind_ok (result_run hx)] at hran
    have hkept : ran = (settlement error final, v) := by
      rw [hran]
      cases error <;> rfl
    exact hkept ▸ ⟨.inl hf.symm, hcore, hcalls⟩

/-- A step that was handed the way to pass on its result and has not yet done so, while nobody waits for
it. -/
structure World.Asking (u : World) (id : Nat) (c : Completion Resolution Resumption Empty) : Prop where
  found : u.completions[id]? = some c
  pending : c.phase = .pending
  unwaited : c.onDone = []
  silent : resolutions id u.events = []

/-- Passing on an error and a tree succeeds, and the step makes this of the tree that it was given. -/
def World.NextMakes (u : World) (host : Host) (id : Nat) (error given tree : Value) (made : Outcome Value) :
    Prop :=
  ∃ v, (next host id error given).result u = (.ok (), v) ∧
    ∀ (t : Transformer) (looping : Bool) (answer : Answer), t.style.takesNext = true →
      verdict t tree (resolutions id v.events).head? looping (.ok answer) = made

/-- The fault of a step that passed on something else than a tree. -/
def strayTree (name : String) (given : Value) : Fault :=
  .transform (.str ("Transformer '" ++ name ++ "' passed a " ++ given.typeName ++
    " to next() instead of a Node")) (some name) none

namespace World.Asking

variable {u : World} (h : u.Asking id c)
include h

theorem makes (host : Host) (error : Value) {e : Value} (he : u.passedError error = .ok e)
    (given tree : Value) :
    u.NextMakes host id error given tree (yield tree (Resolution.ofCall c.label e (u.handed given))) := by
  refine ⟨_, result_next_unwaited h.found h.pending h.unwaited he given, fun t looping answer hn => ?_⟩
  have hpassed : (resolutions id ((u.handing given).answering id c
      (Resolution.ofCall c.label e (u.handed given))).events).head? =
        some (Resolution.ofCall c.label e (u.handed given)) := by
    have hsilent : resolutions id (u.handing given).events = [] := h.silent
    have hresolved (result : Resolution) : resolutions id [.resolved id result] = [result] := by
      simp [resolutions, Event.resolution?]
    rw [World.answering, resolutions_append, hsilent, hresolved]
    rfl
  rw [hpassed]
  simp only [verdict, hn, if_true]
  rcases Resolution.ofCall c.label e (u.handed given) with ⟨_ | f, _ | new⟩ <;> rfl

theorem makes_unchanged (tree : Value) : u.NextMakes host id .none .none tree (.ok tree) :=
  h.makes host .none rfl .none tree

theorem makes_tree {given : Value} (hnode : given.isNode = true) (tree : Value) :
    u.NextMakes host id .none given tree (.ok (u.handed given)) := by
  have hhanded := u.handed_isNode hnode
  have hcall : Resolution.ofCall c.label .none (u.handed given) = ⟨none, some (u.handed given)⟩ := by
    simp [Resolution.ofCall, isNone_of_isNode hhanded, hhanded]
  have hmakes := h.makes host .none rfl given tree
  rwa [hcall] at hmakes

theorem makes_error (f : Fault) {given : Value} (hgiven : given = .none ∨ given.isNode = true)
    (tree : Value) : u.NextMakes host id (.error f) given tree (.error f) := by
  have hcall : Resolution.ofCall c.label (.error f) (u.handed given) = .failed f := by
    rcases hgiven with rfl | hnode
    · rfl
    · simp [Resolution.ofCall, u.handed_isNode hnode]
  have hmakes := h.makes host (.error f) rfl given tree
  rwa [hcall] at hmakes

theorem makes_stray {error : Value} (herror : error = .none ∨ ∃ f, error = .error f) {given : Value}
    (hnone : given ≠ .none) (hnode : given.isNode = false) (tree : Value) :
    u.NextMakes host id error given tree (.error (strayTree c.label given)) := by
  obtain ⟨htype, hnone, hnode⟩ := u.handed_of_not_node hnone hnode
  have hcall : yield tree (Resolution.ofCall c.label error (u.handed given)) =
      .error (strayTree c.label given) := by
    rcases herror with rfl | ⟨f, rfl⟩ <;>
      simp [Resolution.ofCall, Resolution.ofCall.strayTree, Resolution.misuse, Resolution.failed, yield,
        settlement, strayTree, hnone, hnode, htype]
  have hpassed : u.passedError error = .ok error := by
    rcases herror with rfl | ⟨f, rfl⟩ <;> rfl
  exact hcall ▸ h.makes host error hpassed given tree

/-- What is passed on as an error and is none stands for its text, if there is one. -/
theorem makes_text {error : Value} (hnone : error ≠ .none) (hfault : ∀ f, error ≠ .error f) {said : String}
    (hsaid : u.textOf error = .ok said) (given tree : Value) :
    u.NextMakes host id error given tree (.error (.transform (.str said) (some c.label) none)) := by
  have hpassed : u.passedError error = .ok (.str said) := by
    rw [u.passedError_of_value hnone hfault, hsaid]
    rfl
  exact h.makes host error hpassed given tree

theorem next_fails {error : Value} (hnone : error ≠ .none) (hfault : ∀ f, error ≠ .error f) {unread : Fault}
    (hsaid : u.textOf error = .error unread) (given : Value) :
    (next host id error given).result u = (.error unread, u) := by
  have hpassed : u.passedError error = .error unread := by
    rw [u.passedError_of_value hnone hfault, hsaid]
    rfl
  rw [next, result_bind_ok (result_completion h.found), result_get_bind, hpassed,
    result_bind_error (result_ofOutcome _ u)]

end World.Asking

/-- A chain that must not wait is a fold over its steps: it reports the outcome of the fold, it leaves files
and all else that is no chain as the fold does, and it makes the same calls, none after the first fault. A
step that passes on nothing keeps the tree that it was given, one that passes on a node makes that node of
it, and one that passes on an error fails with it; what is neither an error nor a node fails the step, with
the text of what stands for an error. If that has no text, passing it on fails, and nothing comes of it. -/
theorem chain_folds (endpoints : Grammar.Endpoints) (standard : List (Plugin.Metadata Attacher))
    (surroundings : Plugin.Surroundings Attacher) (depth : Nat) (moves : List Move)
    (steps : List Transformer) (watcher : Option Watcher) (tree : Value) (file : Nat) :
    let host := Host.nested endpoints standard surroundings depth
    let w := play host moves {}
    let r := w.runs.length
    let ran := (runChain host steps watcher tree file).result w
    let folded := (steps.zipIdx.foldlM (foldStep host r (w.nextRun steps watcher tree file)) tree).result
      (w.starting steps watcher tree file)
    (Reports folded.1 ran.1 ∧ ran.2.core = folded.2.core ∧
      calls r ran.2.events = calls r folded.2.events) ∧
    ∀ (u : World) id (c : Completion Resolution Resumption Empty) (before : Value), u.Asking id c →
      u.NextMakes host id .none .none before (.ok before) ∧
      (∀ given, given.isNode = true → u.NextMakes host id .none given before (.ok (u.handed given))) ∧
      (∀ f given, given = .none ∨ given.isNode = true →
        u.NextMakes host id (.error f) given before (.error f)) ∧
      (∀ error given, (error = .none ∨ ∃ f, error = .error f) → given ≠ .none → given.isNode = false →
        u.NextMakes host id error given before (.error (strayTree c.label given))) ∧
      ∀ error given, error ≠ .none → (∀ f, error ≠ .error f) →
        (∀ said, u.textOf error = .ok said →
          u.NextMakes host id error given before (.error (.transform (.str said) (some c.label) none))) ∧
        ∀ unread, u.textOf error = .error unread →
          (next host id error given).result u = (.error unread, u) := by
  intro host w
  have hh : host.Steady := Host.nested_steady endpoints standard surroundings depth
  have hw : w.Sound := reached_sound endpoints standard surroundings depth moves
  refine ⟨runChain_fold hh hw steps watcher tree file, fun u id c before h => ⟨h.makes_unchanged before,
    fun given hnode => h.makes_tree hnode before, fun f given hgiven => h.makes_error f hgiven before,
    fun error given herror hnone hnode => h.makes_stray herror hnone hnode before,
    fun error given hnone hfault => ⟨fun said hsaid => h.makes_text hnone hfault hsaid given before,
      fun unread hsaid => h.next_fails hnone hfault hsaid given⟩⟩⟩

/-- A step that passes on a truth value as an error. In its place a node is another tree, and a number
fails it. -/
theorem chain_folds_passing :
    let host := Host.nested .standard [] (.ok []) 0
    let w := play host [] {}
    let steps : List Transformer :=
      [.mk "step" .next fun _ _ => [.next false (fun _ => .ok (.bool true)) fun _ => .ok .none]]
    let ran := (runChain host steps none .none 0).result w
    let folded := (steps.zipIdx.foldlM (foldStep host 0 (w.nextRun steps none .none 0)) .none).result
      (w.starting steps none .none 0)
    let u : World := { completions := [.start "step"] }
    (Reports folded.1 ran.1 ∧ ran.2.core = folded.2.core ∧
      calls 0 ran.2.events = calls 0 folded.2.events) ∧
    u.Asking 0 (.start "step") ∧
      u.NextMakes host 0 (.bool true) .none .none (.error (.transform (.str "True") (some "step") none)) ∧
      u.NextMakes host 0 .none (.node (.parent "root" [] .none)) .none (.ok (.handle (.node 0))) ∧
      u.NextMakes host 0 .none (.int 5) .none (.error (strayTree "step" (.int 5))) := by
  intro host w steps ran folded u
  have hasking : u.Asking 0 (.start "step") := ⟨rfl, rfl, rfl, rfl⟩
  obtain ⟨hfold, hnext⟩ := chain_folds .standard [] (.ok []) 0 [] steps none .none 0
  obtain ⟨-, hnode, -, hstray, htext⟩ := hnext u 0 (.start "step") .none hasking
  exact ⟨hfold, hasking, (htext (.bool true) .none (by simp) (by simp)).1 "True" rfl,
    hnode (.node (.parent "root" [] .none)) rfl, hstray .none (.int 5) (.inl rfl) (by simp) rfl⟩

/-- A step that catches what comes of passing on a file as an error. -/
def passingFile : Transformer :=
  .mk "step" .next fun _ _ => [.next true (fun _ => .ok (.handle (.file 0))) fun _ => .ok .none]

/-- A file that is not UTF-8 has no text: passed on as an error it does not fail the step, which is left
without a result. -/
theorem error_without_text_passed :
    let host := Host.nested .standard [] (.ok []) 0
    let w := play host [.change fun c => { c with files := [{ File.empty with
      contents := .bytes [255] }] }] {}
    w.textOf (.handle (.file 0)) = .error (.undecodable [255] 0 1 "invalid start byte") ∧
      ((runChain host [passingFile] none .none 0).result w).1 = .error (notSynchronous "step") :=
  ⟨rfl, rfl⟩

end TextPipeline.Pipeline
