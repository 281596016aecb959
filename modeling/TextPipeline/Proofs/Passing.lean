import TextPipeline.Proofs.Reach

/-! Results that are passed on again, or too late. A step that is resolved takes no further result, and
a step that was given up ignores whatever comes. The one step that a chain which must not wait can
leave without a result is the last one that it called. -/

namespace TextPipeline.Pipeline

open TextPipeline.Transform
open TextPipeline.Pipeline.Action
open World (nobody)

mutual

/-- Sharing a value keeps everything that is shared already as it is. -/
theorem Store.share_cells (s : Store) (v : Value) :
    ∃ kept, ((Store.share v).run s).2.cells = s.cells ++ kept := by
  cases v with
  | node n => exact ⟨[.node n], rfl⟩
  | list items => exact ⟨[.list items], rfl⟩
  | sequence kind items =>
    cases kind with
    | tuple => exact Store.shareAll_cells s items
    | other type => exact ⟨[], (List.append_nil _).symm⟩
  | mapping kind entries =>
    cases kind with
    | dict => exact ⟨[.dict entries], rfl⟩
    | other type => exact ⟨[], (List.append_nil _).symm⟩
  | _ => exact ⟨[], (List.append_nil _).symm⟩

theorem Store.shareAll_cells (s : Store) : (vs : List Value) →
    ∃ kept, ((Store.shareAll vs).run s).2.cells = s.cells ++ kept
  | [] => ⟨[], (List.append_nil _).symm⟩
  | v :: rest => by
    obtain ⟨first, hfirst⟩ := Store.share_cells s v
    obtain ⟨more, hmore⟩ := Store.shareAll_cells ((Store.share v).run s).2 rest
    refine ⟨first ++ more, ?_⟩
    rw [← List.append_assoc, ← hfirst, ← hmore]
    rfl

end

/-- The world in which more values are kept. -/
def World.withKept (w : World) (kept : List Value) : World :=
  { w with store := ⟨w.store.cells ++ kept⟩ }

theorem result_share (v : Value) (w : World) :
    ∃ shared kept, (share v).result w = (.ok shared, w.withKept kept) := by
  obtain ⟨kept, hkept⟩ := Store.share_cells w.store v
  refine ⟨((Store.share v).run w.store).1, kept, ?_⟩
  rw [World.withKept, ← hkept]
  rfl

theorem isNone_of_isNode {v : Value} (h : v.isNode = true) : v.isNone = false := by
  cases v <;> first | rfl | cases h

section Share

variable (w : World) (v : Value)

/-- A value as it can be used in several places. -/
def World.handed : Value := ((Store.share v).run w.store).1

/-- The world in which a value can be used in several places. -/
def World.handing : World := { w with store := ((Store.share v).run w.store).2 }

theorem result_share_handed : (share v).result w = (.ok (w.handed v), w.handing v) := rfl

variable {v}

theorem World.handed_isNode (h : v.isNode = true) : (w.handed v).isNode = true := by
  cases v with
  | node n => rfl
  | handle g =>
    cases g with
    | node id => rfl
    | _ => cases h
  | _ => cases h

theorem World.handed_of_not_node (hnone : v ≠ .none) (hnode : v.isNode = false) :
    (w.handed v).typeName = v.typeName ∧ (w.handed v).isNone = false ∧ (w.handed v).isNode = false := by
  cases v with
  | none => exact absurd rfl hnone
  | node n => cases hnode
  | sequence kind items => cases kind <;> exact ⟨rfl, rfl, rfl⟩
  | mapping kind entries => cases kind <;> exact ⟨rfl, rfl, rfl⟩
  | handle g => exact ⟨rfl, rfl, hnode⟩
  | _ => exact ⟨rfl, rfl, rfl⟩

/-- What is passed on as an error, but neither is one nor absent, stands for its text. -/
theorem World.passedError_of_value (hnone : v ≠ .none) (hfault : ∀ f, v ≠ .error f) :
    w.passedError v = (w.textOf v).map .str := by
  cases v with
  | none => exact absurd rfl hnone
  | error f => exact absurd rfl (hfault f)
  | _ => rfl

end Share

/-- To pass on a result is to resolve the step with what it comes to, unless its error is a value of
which there is no text. -/
theorem result_next (host : Host) {w : World} {id : Nat}
    {c : Completion Resolution Resumption Empty} (hc : w.completions[id]? = some c)
    (error tree : Value) :
    (∃ f, w.passedError error = .error f ∧ (next host id error tree).result w = (.error f, w)) ∨
      ∃ e shared kept, w.passedError error = .ok e ∧
        (next host id error tree).result w =
          (resolve host id (Resolution.ofCall c.label e shared)).result (w.withKept kept) := by
  rw [next, result_bind_ok (result_completion hc), result_get_bind]
  cases he : w.passedError error with
  | error f => exact .inl ⟨f, rfl, rfl⟩
  | ok e =>
    obtain ⟨shared, kept, hs⟩ := result_share tree w
    refine .inr ⟨e, shared, kept, rfl, ?_⟩
    rw [result_bind_ok (result_ofOutcome _ w), result_bind_ok hs]

/-- A step has no use for a further result: passing one on has an outcome and is told of, and
nothing else comes of it. Where its error is a value of which there is no text, nothing comes of it at
all. -/
def World.Declines (w : World) (host : Host) (id : Nat) (o : Outcome Unit) (es : List Event) : Prop :=
  ∀ error tree,
    (∃ f, w.passedError error = .error f ∧ (next host id error tree).result w = (.error f, w)) ∨
      ∃ kept, (next host id error tree).result w =
        (o, { w.withKept kept with events := w.events ++ es })

variable {host : Host} {w : World} {id : Nat} {c : Completion Resolution Resumption Empty}

theorem World.declines_done (hc : w.completions[id]? = some c) (hd : c.isDone) :
    w.Declines host id (.error (Completion.resolvedTwice c.label)) [] := fun error tree => by
  rcases result_next host hc error tree with h | ⟨e, shared, kept, -, h⟩
  · exact .inl h
  · refine .inr ⟨kept, ?_⟩
    have hc' : (w.withKept kept).completions[id]? = some c := hc
    have hr : c.resolve (Resolution.ofCall c.label e shared) =
        .error (Completion.resolvedTwice c.label) := by
      cases hp : c.phase <;> simp_all [Completion.isDone, Completion.resolve]
    rw [h, resolve, result_bind_ok (result_completion hc'), hr, List.append_nil]
    rfl

theorem World.declines_abandoned (hc : w.completions[id]? = some c) (ha : c.phase = .abandoned) :
    w.Declines host id (.ok ()) [.log ⟨.warning, Transform.logger, lateText c.label⟩] :=
  fun error tree => by
    rcases result_next host hc error tree with h | ⟨e, shared, kept, -, h⟩
    · exact .inl h
    · refine .inr ⟨kept, ?_⟩
      have hc' : (w.withKept kept).completions[id]? = some c := hc
      have hr : c.resolve (Resolution.ofCall c.label e shared) = .ok none := by
        simp [Completion.resolve, ha]
      rw [h, resolve, result_bind_ok (result_completion hc'), hr]
      rfl

/-! ### The step that a chain is left with -/

/-- A step that has a result keeps it. -/
theorem World.Extends.result? {own : Rights} {v : World} {result : Resolution}
    (h : w.Extends own v) (hw : w.Sound) (hv : v.Sound) (hr : w.result? id = some result) :
    v.result? id = some result := by
  obtain ⟨es, he⟩ := h.events
  have hres := hv.answered id
  rw [← he, resolutions_append, hw.answered, hr] at hres
  cases hv' : v.result? id with
  | none => simp [hv'] at hres
  | some result' =>
    rw [hv'] at hres
    exact congrArg some (List.cons.inj hres).1.symm

theorem result?_of_phase {result : Resolution} (hc : w.completions[id]? = some c)
    (hp : c.phase = .done result) : w.result? id = some result := by
  simp [World.result?, hc, Completion.result?, hp]

/-- A step that can be resolved has a result afterwards. -/
theorem resolve_result? (hh : host.Steady) (hw : w.Sound) (hc : w.completions[id]? = some c)
    (ho : c.phase ≠ .abandoned) {result : Resolution} (hroot : Rooted result) :
    ((resolve host id result).result w).2.result? id ≠ none := by
  cases hp : c.phase with
  | abandoned => exact absurd hp ho
  | done result' =>
    obtain ⟨hv, he⟩ := Steady.resolve hh id hroot w hw
    simp [he.result? hw hv (result?_of_phase hc hp)]
  | pending =>
    obtain ⟨⟨hv, -⟩, es, he⟩ := Steady.resolve_pending hh hw hc hp hroot
    intro hnone
    have := hv.answered id
    rw [← he, hnone] at this
    simp at this

theorem schedule_result? (hh : host.Steady) (hw : w.Sound) (hc : w.completions[id]? = some c)
    (ho : c.phase ≠ .abandoned) {name : String} {job : Job} {o : Outcome Unit} {v : World}
    (hr : (schedule host id name job).result w = (o, v)) (hnone : v.result? id = none) :
    o = .ok () := by
  rw [schedule, result_get_bind] at hr
  split at hr
  · exact absurd hnone (by simpa [hr] using resolve_result? hh hw hc ho (rooted_failed (noLoop name)))
  · exact (Prod.mk.inj hr).1.symm

/-- An answer that leaves a step without a result raises nothing, unless the transformer raised what
is no error. -/
theorem conclude_result? (hh : host.Steady) (hw : w.Sound) (hc : w.completions[id]? = some c)
    (ho : c.phase ≠ .abandoned) {t : Transformer} {answer : Outcome Answer} {o : Outcome Unit}
    {v : World} (hr : (conclude host id t answer).result w = (o, v)) (hnone : v.result? id = none) :
    o = .ok () ∨ ∃ f, answer = .error f ∧ f.isError = false ∧ o = .error f ∧ v = w := by
  have resolved {result : Resolution} (hroot : Rooted result)
      (h : (resolve host id result).result w = (o, v)) : False :=
    resolve_result? hh hw hc ho hroot (by rw [h]; exact hnone)
  cases answer with
  | error f =>
    rw [conclude, result_bind_ok (result_completion hc)] at hr
    cases hb : f.isError && !(t.style.takesNext && (c.isDone || c.isAbandoned)) with
    | true =>
      rw [hb] at hr
      exact (resolved (rooted_failed f) hr).elim
    | false =>
      rw [hb] at hr
      obtain ⟨rfl, rfl⟩ := Prod.mk.inj hr
      refine .inr ⟨f, rfl, ?_, rfl, rfl⟩
      have hp := c.pending_of_result? ((World.result?_of_found hc).symm.trans hnone) ho
      simpa [Completion.isDone, Completion.isAbandoned, hp] using hb
  | ok answer =>
    unfold conclude at hr
    dsimp only at hr
    split at hr
    · exact .inl (Prod.mk.inj hr).1.symm
    · cases answer with
      | value r => exact (resolved (rooted_ofReturn _ _) hr).elim
      | later task => exact .inl (schedule_result? hh hw hc ho hr hnone)
      | settled s => exact .inl (schedule_result? hh hw hc ho hr hnone)

/-- A step that is left without a result was not given up by anyone but its chain. -/
theorem apply_result? (hh : host.Steady) (hw : w.Sound) (hc : w.completions[id]? = some c)
    (ho : c.phase ≠ .abandoned) {x : Run} {index : Nat} {t : Transformer} {tree : Value}
    {o : Outcome Unit} {v : World} (hr : (apply host x index t tree id).result w = (o, v))
    (hnone : v.result? id = none) :
    o = .ok () ∨ ∃ f u, f.isError = false ∧ o = .error f ∧
      (call host ⟨tree, x.file, id, t.style.takesNext⟩ t).result u = (.error f, v) := by
  rw [apply, result_bind_ok (result_log _ _ _ w)] at hr
  generalize hu : w.told (.log ⟨.debug, Transform.logger, _⟩) = u at hr
  have huw : u.Sound ∧ w.Extends nobody u := by
    rw [← hu]
    exact Steady.of_local (.log .debug Transform.logger _) w hw
  obtain ⟨hz, huz⟩ := Steady.call hh ⟨tree, x.file, id, t.style.takesNext⟩ t u huw.1
  have hwz := huw.2.of_nobody.trans huz
  rw [result_bind_ok (result_attempt _ u)] at hr
  generalize hcall : (call host ⟨tree, x.file, id, t.style.takesNext⟩ t).result u = done at hr hz hwz
  obtain ⟨answer, z⟩ := done
  have hlt := (List.getElem?_eq_some_iff.mp hc).1
  obtain ⟨d, hd⟩ : ∃ d, z.completions[id]? = some d :=
    ⟨_, List.getElem?_eq_getElem (Nat.lt_of_lt_of_le hlt hwz.completions)⟩
  have hdo : d.phase ≠ .abandoned := fun ha =>
    ho ((World.abandoned_iff hc).mp ((hwz.abandoned id hlt).mp ((World.abandoned_iff hd).mpr ha)))
  rcases conclude_result? hh hz hd hdo hr hnone with h | ⟨f, rfl, hf, ho', rfl⟩
  · exact .inl h
  · exact .inr ⟨f, u, hf, ho', hcall⟩

/-- The world after the end of a chain that must not wait. -/
def World.ended (w : World) (r : Nat) (error : Option Fault) (tree : Value) : World :=
  { w with
    runs := w.runs.modify r (Run.keep error tree)
    events := w.events ++ [.delivered r error tree] }

section Ended

variable (w : World) (r : Nat) (error : Option Fault) (tree : Value)

@[simp] theorem World.events_ended :
    (w.ended r error tree).events = w.events ++ [.delivered r error tree] := rfl

@[simp] theorem World.completions_ended : (w.ended r error tree).completions = w.completions := rfl

@[simp] theorem World.runs_ended :
    (w.ended r error tree).runs = w.runs.modify r (Run.keep error tree) := rfl

end Ended

/-- What a chain that must not wait comes to is kept. -/
theorem result_deliver_kept {r : Nat} {x : Run} (error : Option Fault) (tree : Value)
    (hx : w.runs[r]? = some x) :
    (deliver host r .kept error tree).result w = (.ok (), w.ended r error tree) := by
  rw [deliver, result_bind_ok (result_run hx)]
  rfl

/-- How it stands when a chain which must not wait has left its last step without a result: the step
was given up and the chain failed for that, or the transformer raised what is no error. -/
def World.LeftPending (v : World) (host : Host) (r : Nat) (o : Outcome Unit) (file : Nat)
    (a : Invocation) : Prop :=
  (o = .ok () ∧ v.Abandoned a.completion ∧
    ∃ y, v.runs[r]? = some y ∧ y.outcome = some (some (notSynchronous a.step.name), a.tree)) ∨
  ∃ f u, f.isError = false ∧ o = .error f ∧
    (call host ⟨a.tree, file, a.completion, a.step.style.takesNext⟩ a.step).result u = (.error f, v)

theorem holdUp_leftPending {r index : Nat} {x : Run} {t : Transformer} {tree : Value}
    (hc : w.completions[id]? = some c) (hp : c.phase = .pending) (hx : w.runs[r]? = some x)
    (hout : x.outcome = none) {seen : View} {o : Outcome Unit} {v : World}
    (hr : (holdUp host ⟨r, index, tree, .kept⟩ true t.name id c).result w = (o, v)) :
    calls r v.events = calls r w.events ∧
      v.LeftPending host r o x.file ⟨index, t, tree, seen, id⟩ := by
  have habandon : c.abandon.getD c = { c with phase := .abandoned, onDone := [] } := by
    simp [Completion.abandon, hp]
  have hlt := (List.getElem?_eq_some_iff.mp hc).1
  have hset : (setCompletion id (c.abandon.getD c)).result w =
      (.ok ⟨⟩, { w with completions := w.completions.set id (c.abandon.getD c) }) := rfl
  rw [holdUp, if_pos rfl, result_bind_ok hset, result_bind_ok (result_log _ _ _ _)] at hr
  dsimp only at hr
  rw [result_deliver_kept (x := x) _ _ (by exact hx), habandon] at hr
  obtain ⟨rfl, rfl⟩ := Prod.mk.inj hr
  refine ⟨by simp, .inl ⟨rfl, ⟨_, List.getElem?_set_self hlt, rfl⟩,
    x.keep (some (notSynchronous t.name)) tree, ?_, ?_⟩⟩
  · simp [hx]
  · simp [Run.keep, hout]

/-- Where a step is due, the step that was called last has its result. -/
theorem World.Ready.last_resolved {w : World} {r index : Nat} {x : Run} {tree : Value}
    (h : w.Ready r x (.due index tree)) {a : Invocation} (ha : (calls r w.events).getLast? = some a) :
    w.result? a.completion ≠ none := by
  have hf := (h.sound.lawful r x h.run).fits
  rw [h.stands] at hf
  obtain ⟨-, -, hlast⟩ := hf
  rw [ha] at hlast
  obtain ⟨result, hresult, -⟩ := hlast
  rw [h.sound.answered] at hresult
  intro hnone
  simp [hnone] at hresult

/-- A chain that must not wait can leave only the step without a result that it called last. -/
theorem drive_leftPending (hh : host.Steady) {r : Nat} {x : Run} (hout : x.outcome = none)
    {rest : List Transformer} {index : Nat} {tree : Value} {w : World}
    (h : w.Ready r x (.due index tree)) (hrest : x.steps.drop index = rest) {o : Outcome Unit}
    {v : World} (hr : (drive host r .kept true rest index tree).result w = (o, v)) {a : Invocation}
    (ha : (calls r v.events).getLast? = some a) (hnone : v.result? a.completion = none) :
    v.LeftPending host r o x.file a := by
  induction rest generalizing index tree w with
  | nil =>
    rw [drive, result_bind_ok (result_log _ _ _ w), result_deliver_kept _ _ (by exact h.run)] at hr
    obtain ⟨rfl, rfl⟩ := Prod.mk.inj hr
    rw [World.events_ended, World.events_told, calls_append, calls_append] at ha
    simp only [calls_cons, Event.call?_log, Event.call?_delivered, calls_nil, Option.toList_none,
      List.append_nil] at ha
    exact absurd hnone (h.last_resolved ha)
  | cons t rest ih =>
    obtain ⟨ht, hrest'⟩ := of_drop_eq_cons hrest
    have hstride := h.strode hh ht
    rw [drive_cons, result_bind] at hr
    generalize (stride host r t index tree).result w = done at hstride hr
    -- the last call is the one made here unless the chain goes on
    have last {u : World} (hinv : w.Invoked u r x index t tree)
        (hcalls : calls r v.events = calls r u.events) : a = w.invocation x index t tree := by
      rw [hcalls, hinv.last_call] at ha
      exact (Option.some.inj ha).symm
    -- a step with a result is not the one that was left without
    have resolved {u : World} {result : Resolution} (hinv : w.Invoked u r x index t tree)
        (hresult : u.result? w.completions.length = some result)
        (hcalls : calls r v.events = calls r u.events)
        (hcompletions : v.completions = u.completions) : False := by
      obtain rfl := last hinv hcalls
      rw [World.result?, ← hcompletions] at hresult
      cases hnone.symm.trans hresult
    cases hstride with
    | stopped hinvoke hinv =>
      obtain ⟨rfl, rfl⟩ := Prod.mk.inj hr
      obtain rfl := last hinv rfl
      rcases apply_result? hh (h.calling ht).1.sound (w.calling_completion r x index t tree)
        (by simp [Completion.start]) (apply_of_invoke hinvoke) hnone with ho | hraised
      · cases ho
      · obtain ⟨f, u, hf, ho, hcall⟩ := hraised
        exact .inr ⟨f, u, hf, ho, hcall⟩
    | held _ hinv hc _ hp =>
      obtain ⟨hcalls, hleft⟩ := holdUp_leftPending hc hp hinv.ready.run hout hr
      rw [last hinv hcalls]
      exact hleft
    | failed _ hinv hresult =>
      rename_i f _ _
      dsimp only at hr
      cases hsaid : f.inspect with
      | error g =>
        rw [failStep, result_bind_error (result_logFault_error hsaid _ _ _ _)] at hr
        obtain ⟨rfl, rfl⟩ := Prod.mk.inj hr
        exact (resolved hinv hresult rfl rfl).elim
      | ok said =>
        rw [failStep, result_bind_ok (result_logFault_ok hsaid _ _ _ _), result_deliver_kept (x := x) _ _
          (by exact hinv.ready.run)] at hr
        obtain ⟨rfl, rfl⟩ := Prod.mk.inj hr
        exact (resolved hinv hresult (by simp) rfl).elim
    | untold _ _ hinv hresult =>
      obtain ⟨rfl, rfl⟩ := Prod.mk.inj hr
      exact (resolved hinv hresult rfl rfl).elim
    | next _ _ hinv hresult he => exact ih (hinv.due hresult he) hrest' hr

/-- A chain that must not wait and that leaves a step without a result fails for that, and the step is
given up. The one exception is a transformer that raises what is no error. -/
theorem runChain_leftPending (hh : host.Steady) (hw : w.Sound) {steps : List Transformer}
    {watcher : Option Watcher} {tree : Value} {file : Nat} {o : Outcome Value} {v : World}
    (hr : (runChain host steps watcher tree file).result w = (o, v)) {a : Invocation}
    (ha : (calls w.runs.length v.events).getLast? = some a) (hnone : v.result? a.completion = none) :
    (o = .error (notSynchronous a.step.name) ∧ v.Abandoned a.completion) ∨
      ∃ f u, f.isError = false ∧ o = .error f ∧
        (call host ⟨a.tree, file, a.completion, a.step.style.takesNext⟩ a.step).result u =
          (.error f, v) := by
  obtain ⟨hready, -⟩ := hw.starting steps watcher tree file
  have hstart := result_start host steps watcher tree file .kept w
  have hsafe : Safe (.run w.runs.length) _ (drive host w.runs.length .kept true steps 0 tree) :=
    Steady.drive hh hready rfl
  have hleft (u : World) (o₁ : Outcome Unit) := drive_leftPending (o := o₁) (v := u) hh rfl hready rfl
  generalize hdrive : (drive host w.runs.length .kept true steps 0 tree).result
    (w.starting steps watcher tree file) = done at hstart
  rw [Safe, hdrive] at hsafe
  obtain ⟨o₁, u⟩ := done
  obtain ⟨y, hy, -⟩ := World.exists_bare hsafe.2.runs hready.run
  rw [runChain] at hr
  cases o₁ with
  | error f =>
    rw [result_bind_error hstart] at hr
    obtain ⟨rfl, rfl⟩ := Prod.mk.inj hr
    rcases hleft u _ hdrive ha hnone with ⟨h, -⟩ | ⟨f', z, hf, ho, hcall⟩
    · cases h
    · obtain rfl := Except.error.inj ho
      exact .inr ⟨f, z, hf, rfl, hcall⟩
  | ok _ =>
    rw [result_bind_ok hstart, result_bind_ok (result_run hy)] at hr
    obtain rfl : u = v := by split at hr <;> exact (Prod.mk.inj hr).2
    rcases hleft u _ hdrive ha hnone with ⟨-, habandoned, y', hy', hout⟩ | ⟨f, z, -, ho, -⟩
    · obtain rfl := Option.some.inj (hy.symm.trans hy')
      rw [hout] at hr
      exact .inl ⟨(Prod.mk.inj hr).1.symm, habandoned⟩
    · cases ho

/-! ### Every chain that can be reached -/

/-- Whatever is done from outside, and whoever passes on results while transformers are called or
afterwards: chains call their steps in order and each once, a step only after the one before it was
resolved without a fault and with the tree that this one left, and they tell their end once and call
no step after it. A step that is resolved refuses further results, a step that was given up ignores
them, and a chain that must not wait gives up the step that it is left with, for good. -/
theorem chains_orderly (endpoints : Grammar.Endpoints) (standard : List (Plugin.Metadata Attacher))
    (surroundings : Plugin.Surroundings Attacher) (depth : Nat) (moves : List Move) :
    let host := Host.nested endpoints standard surroundings depth
    let w := play host moves {}
    (∀ r (x : Run) es, w.runs[r]? = some x → es <+: w.events → x.Orderly r es) ∧
    (∀ id es, es <+: w.events → (resolutions id es).length ≤ 1) ∧
    (∀ (u : World) id c, u.completions[id]? = some c → c.isDone →
      u.Declines host id (.error (Completion.resolvedTwice c.label)) []) ∧
    (∀ (u : World) id c, u.completions[id]? = some c → c.isAbandoned →
      u.Declines host id (.ok ()) [.log ⟨.warning, Transform.logger, lateText c.label⟩]) ∧
    ∀ steps watcher tree file a,
      let ran := (runChain host steps watcher tree file).result w
      (calls w.runs.length ran.2.events).getLast? = some a → ran.2.result? a.completion = none →
        (ran.1 = .error (notSynchronous a.step.name) ∧
          ∀ later, (play host later ran.2).Abandoned a.completion ∧
            resolutions a.completion (play host later ran.2).events = []) ∨
        ∃ f u, f.isError = false ∧ ran.1 = .error f ∧
          (call host ⟨a.tree, file, a.completion, a.step.style.takesNext⟩ a.step).result u =
            (.error f, ran.2) := by
  intro host w
  have hh : host.Steady := Host.nested_steady endpoints standard surroundings depth
  have hw : w.Sound := reached_sound endpoints standard surroundings depth moves
  refine ⟨fun r x es hx ⟨rest, he⟩ => ?_, fun id es ⟨rest, he⟩ => ?_,
    fun u id c hc hd => World.declines_done hc hd, fun u id c hc ha => ?_, ?_⟩
  · have hl := hw.lawful r x hx
    rw [← he] at hl
    exact hl.of_append.orderly
  · have hlen := congrArg List.length (hw.answered id)
    rw [← he, resolutions_append, List.length_append] at hlen
    have : (w.result? id).toList.length ≤ 1 := by cases w.result? id <;> simp
    omega
  · refine World.declines_abandoned hc ?_
    cases hp : c.phase with
    | abandoned => rfl
    | pending | done => simp [Completion.isAbandoned, hp] at ha
  · intro steps watcher tree file a ran ha hnone
    rcases runChain_leftPending hh hw rfl ha hnone with ⟨ho, habandoned⟩ | h
    · refine .inl ⟨ho, fun later => ?_⟩
      have hran : ran.2.Sound := (Steady.runChain hh steps watcher tree file w hw).1
      obtain ⟨hv, he⟩ := hran.play hh later
      obtain ⟨c, hc, hp⟩ := habandoned
      have hv' := (he.abandoned _ (List.getElem?_eq_some_iff.mp hc).1).mpr ⟨c, hc, hp⟩
      refine ⟨hv', ?_⟩
      obtain ⟨d, hd, hdp⟩ := hv'
      rw [hv.answered, World.result?, hd]
      simp [Completion.result?, hdp]
    · exact .inr h

/-- A value in the place of the error whose text cannot be read, such as a file that holds no text, is
not passed on at all: the call fails for that, also where the step was given up. -/
theorem late_error_without_text :
    let host := Host.nested .standard [] (.ok []) 0
    let w := play host [.change fun c => { c with files := [{ File.empty with
      contents := .bytes [255] }] }] {}
    let ran := (runChain host [.mk "step" .next fun _ _ => [.saveNext "n"]] none .none 0).result w
    ran.1 = .error (notSynchronous "step") ∧
      ((callNext host "n" (.handle (.file 0)) .none).result ran.2).1 =
        .error (.undecodable [255] 0 1 "invalid start byte") := by
  exact ⟨rfl, rfl⟩

end TextPipeline.Pipeline
