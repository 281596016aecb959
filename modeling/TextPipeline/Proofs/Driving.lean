import TextPipeline.Proofs.Steady

/-! Chains keep the chains sound. A chain that is driven calls the step that is due, and goes on, holds
or ends as its completion says; nothing that the step does meanwhile can touch the chain, since nobody
waits for it. Starting and resuming chains is steady, and so are the pipelines built from them, to any
depth of pipelines within one another. -/

namespace TextPipeline.Pipeline

open TextPipeline.Transform
open TextPipeline.Pipeline.Action
open World (nobody)

/-- A run stands somewhere, and it is for whoever looks at it to let it go on. -/
structure World.Ready (w : World) (r : Nat) (x : Run) (s : Standing) : Prop where
  sound : w.Sound
  run : w.runs[r]? = some x
  stands : x.standing r w.events = s
  free : r ∉ w.awaited

namespace World.Ready

variable {w v : World} {r : Nat} {x : Run} {s : Standing}

theorem of_local {α : Type} {y : Action α} (hy : Local y) (h : w.Ready r x s) :
    (y.result w).2.Ready r x s := by
  have hsafe : Safe nobody w y := Steady.of_local hy w h.sound
  obtain ⟨hfree, hrun, -, -⟩ := hsafe.2.idle r x h.run id h.free
  refine ⟨hsafe.1, hrun, ?_, hfree⟩
  rw [hy.result w, World.events_moved, x.standing_neutral, h.stands]
  exact fun e he => .of_ofChain (hy.quiet w.core e he)

end World.Ready

theorem Local.result?_eq {α : Type} {y : Action α} (hy : Local y) (w : World) (id : Nat) :
    (y.result w).2.result? id = w.result? id := by
  rw [hy.result w]
  rfl

theorem result?_of_tellStep {x : Run} {index : Nat} {name : String} {w v : World} {o : Outcome Unit}
    (h : (tellStep x index name).result w = (o, v)) (id : Nat) : v.result? id = w.result? id := by
  have hlocal : Local (tellStep x index name) := .emit _ _
  rw [← hlocal.result?_eq w, h]

theorem Safe.local_bind {α β : Type} {y : Action α} {f : α → Action β} {w : World} {r : Nat} {x : Run}
    {s : Standing} (hy : Local y) (h : w.Ready r x s)
    (hf : ∀ a v, v.Ready r x s → Safe (.run r) v (f a)) : Safe (.run r) w (y >>= f) := by
  refine (Steady.of_local hy w h.sound).bind fun a v hr _ _ => hf a v ?_
  have := h.of_local hy
  rwa [hr] at this

/-- What is safe now is safe from an earlier world on. -/
theorem Safe.since {own : Rights} {α : Type} {u w : World} {x : Action α} (h : Safe own w x)
    (hu : u.Extends own w) : (x.result w).2.Sound ∧ u.Extends own (x.result w).2 :=
  ⟨h.1, hu.trans h.2⟩

namespace Steady

variable {own : Rights} {host : Host}

theorem tellRan (k : Callback) (error : Option Fault) (tree : Value) (id : Nat) :
    Steady own (tellRan k error tree id) :=
  get fun _ => bind (tell fun _ => ⟨rfl, rfl, rfl⟩) fun _ => of_local (.raise _)

theorem tellProcessed (receiver : TextReceiver) (error : Option Fault) (text : Value) (id : Nat) :
    Steady own (tellProcessed receiver error text id) := by
  cases receiver with
  | callback k => exact get fun _ => bind (tell fun _ => ⟨rfl, rfl, rfl⟩) fun _ => of_local (.raise _)
  | silent k => exact of_local (.raise _)
  | future future => exact enqueue rfl

theorem fail (watcher : Option Watcher) (receiver : TextReceiver) (f : Fault) (id : Nat) :
    Steady own (fail watcher receiver f id) :=
  bind (of_local (.file _)) fun _ => bind (of_local (.logFault _ _ _ _)) fun _ =>
    bind (of_local (.tellFailed _ _)) fun _ => tellProcessed _ _ _ _

theorem compile (r : Nat) (c : Compilation) (error : Option Fault) (tree : Value) :
    Steady (.run r) (compile host r c error tree) := by
  cases error with
  | some f => exact fail _ _ _ _
  | none =>
    refine bind (of_local (.tellStage _ _)) fun _ =>
      bind (attempt (of_local (.stringify host _ _ _ _))) fun text => ?_
    cases text with
    | error f => exact ite (fail _ _ _ _) (throw _)
    | ok text =>
      exact bind (of_local (.tellStage _ _)) fun _ => bind (of_local (.complete _ _ _)) fun _ =>
        bind (changeRun rfl fun _ => rfl) fun _ => tellProcessed _ _ _ _

theorem settle (r file : Nat) (name : String) (error : Option Fault) (tree : Value) :
    Steady (.run r) (settle r file name error tree) :=
  ite (bind (of_local (.storeTree _ _ _)) fun _ => bind (of_local (.tell rfl)) fun _ =>
    changeRun rfl fun _ => rfl) (pure _)

/-- The end of a chain is told where it is permitted. -/
theorem deliver {w : World} {r : Nat} {x : Run} {s : Standing} {delivery : Delivery}
    {error : Option Fault} {tree : Value} (h : w.Ready r x s)
    (hp : x.Permits r s (.delivered r error tree)) :
    Safe (.run r) w (deliver host r delivery error tree) := by
  have hp' : x.Permits r (x.standing r w.events) (.delivered r error tree) := h.stands ▸ hp
  have hdelivering : w.Delivering (w.told (.delivered r error tree)) r x error tree :=
    ⟨h.run, hp', h.free, rfl, rfl, rfl, rfl, rfl⟩
  refine .bind_same (result_run h.run) (.bind_ok (result_tell _ w) hdelivering.extends_
    ((?_ : Steady (.run r) _) _ (hdelivering.sound h.sound)))
  cases delivery with
  | kept => exact changeRun rfl fun _ => rfl
  | callback k => exact tellRan _ _ _ _
  | stored name receiver =>
    refine bind (settle r x.file name error tree) fun _ => ?_
    cases receiver with
    | callback k => exact tellRan _ _ _ _
    | future future => exact enqueue rfl
    | compilation c => exact compile _ _ _ _

theorem failStep {w : World} {r : Nat} {x : Run} {delivery : Delivery} {name : String} {f : Fault}
    {tree : Value} (h : w.Ready r x (.failed f tree)) :
    Safe (.run r) w (failStep host r delivery name f tree) :=
  .local_bind (.logFault _ _ _ _) h fun _ _ hv => deliver hv fun _ => .inl rfl

theorem schedule (hh : host.Steady) (id : Nat) (name : String) {job : Job} (hj : job.resume? = none) :
    Steady (.step id) (schedule host id name job) :=
  get fun _ => ite (resolve hh _ (rooted_failed _)) (enqueue hj)

theorem conclude (hh : host.Steady) (id : Nat) (t : Transformer) (answer : Outcome Answer) :
    Steady (.step id) (conclude host id t answer) := by
  cases answer with
  | error f =>
    exact bind (completion id) fun _ => bind (of_local (.require _ _)) fun _ =>
      resolve hh _ (rooted_failed _)
  | ok answer =>
    refine ite (pure _) ?_
    cases answer with
    | value v => exact resolve hh _ (rooted_ofReturn _ _)
    | later task => exact schedule hh _ _ rfl
    | settled s => exact schedule hh _ _ rfl

end Steady

/-- The call of a step of a run that is made in a world. -/
def World.invocation (w : World) (x : Run) (index : Nat) (t : Transformer) (tree : Value) :
    Invocation :=
  ⟨index, t, tree, w.view tree x.file, w.completions.length⟩

/-- The world in which a step of a run is called next. -/
def World.calling (w : World) (r : Nat) (x : Run) (index : Nat) (t : Transformer) (tree : Value) :
    World :=
  { w with
    completions := w.completions ++ [.start t.name]
    events := w.events ++ [.called r (w.invocation x index t tree)] }

theorem World.calling_completion (w : World) (r : Nat) (x : Run) (index : Nat) (t : Transformer)
    (tree : Value) :
    (w.calling r x index t tree).completions[w.completions.length]? = some (.start t.name) :=
  List.getElem?_concat_length

theorem World.Ready.calling {w : World} {r index : Nat} {x : Run} {t : Transformer} {tree : Value}
    (h : w.Ready r x (.due index tree)) (ht : x.steps[index]? = some t) :
    (w.calling r x index t tree).Ready r x (.waiting index tree w.completions.length) ∧
      w.Extends (.run r) (w.calling r x index t tree) := by
  have hcalling : w.Calling (w.calling r x index t tree) r x (w.invocation x index t tree)
      (.start t.name) := ⟨h.run, h.stands, ht, rfl, h.free, rfl, rfl, rfl, rfl, rfl, rfl, rfl⟩
  exact ⟨⟨hcalling.sound h.sound, h.run, hcalling.standing, hcalling.awaited ▸ h.free⟩,
    hcalling.extends_⟩

theorem result_invoke (host : Host) (r : Nat) (x : Run) (index : Nat) (t : Transformer) (tree : Value)
    (w : World) : (invoke host r x index t tree).result w =
      let done := (apply host x index t tree w.completions.length).result (w.calling r x index t tree)
      (done.1.map fun _ => w.completions.length, done.2) := by
  show (apply host x index t tree w.completions.length >>= fun _ => pure w.completions.length).result
    (w.calling r x index t tree) = _
  rw [result_bind]
  generalize (apply host x index t tree w.completions.length).result _ = done
  obtain ⟨o, v⟩ := done
  cases o <;> rfl

theorem apply_of_invoke {host : Host} {r index : Nat} {x : Run} {t : Transformer} {tree : Value}
    {w v : World} {o : Outcome Nat} (h : (invoke host r x index t tree).result w = (o, v)) :
    (apply host x index t tree w.completions.length).result (w.calling r x index t tree) =
      (o.map fun _ => (), v) := by
  rw [result_invoke] at h
  generalize (apply host x index t tree w.completions.length).result _ = done at h ⊢
  obtain ⟨o', u⟩ := done
  obtain ⟨rfl, rfl⟩ := Prod.mk.inj h
  cases o' <;> rfl

/-- How it stands with a run right after one of its steps was called: the step is resolved, or the run
waits for it. -/
structure World.Invoked (w v : World) (r : Nat) (x : Run) (index : Nat) (t : Transformer)
    (tree : Value) : Prop where
  calls_eq : calls r v.events = calls r w.events ++ [w.invocation x index t tree]
  ready : v.Ready r x (match v.result? w.completions.length with
    | none => .waiting index tree w.completions.length
    | some result => .settle index tree result)
  extends_ : w.Extends (.run r) v
  open_ : ∃ c, v.completions[w.completions.length]? = some c ∧ c.phase ≠ .abandoned

namespace Steady

variable {own : Rights} {host : Host}

theorem apply (hh : host.Steady) (x : Run) (index : Nat) (t : Transformer) (tree : Value) (id : Nat) :
    Steady (.step id) (apply host x index t tree id) := by
  have hcall : Steady (.step id) (Pipeline.call host ⟨tree, x.file, id, t.style.takesNext⟩ t) :=
    (call hh _ t).mono ⟨fun _ h => h.elim, fun _ h => h.2⟩
  exact bind (of_local (.log _ _ _)) fun _ => bind (attempt hcall) fun _ => conclude hh _ _ _

/-- The step that is due is called. -/
theorem invoke (hh : host.Steady) {w : World} {r : Nat} {x : Run} {index : Nat} {tree : Value}
    {t : Transformer} (h : w.Ready r x (.due index tree)) (ht : x.steps[index]? = some t) :
    w.Invoked ((invoke host r x index t tree).result w).2 r x index t tree := by
  obtain ⟨⟨hu, hrun, hstands, hfree⟩, hwu⟩ := h.calling ht
  have hid := w.calling_completion r x index t tree
  obtain ⟨hv, huv⟩ := apply hh x index t tree w.completions.length _ hu
  rw [result_invoke]
  have hnew := huv.stands_waiting hu hv hrun hstands id hfree (World.result?_of_found hid)
  obtain ⟨hfree', hrun', hcalls, -⟩ := huv.idle r x hrun id hfree
  refine ⟨?_, ⟨hv, hrun', hnew, hfree'⟩, hwu.trans_of huv (fun _ h => h.elim)
    fun _ h => .inr (Nat.le_of_eq (Eq.symm h)), ?_⟩
  · rw [hcalls]
    simp [World.calling]
  have hlt := (List.getElem?_eq_some_iff.mp hid).1
  obtain ⟨c, hc⟩ : ∃ c, ((Pipeline.apply host x index t tree w.completions.length).result
      (w.calling r x index t tree)).2.completions[w.completions.length]? = some c :=
    ⟨_, List.getElem?_eq_getElem (Nat.lt_of_lt_of_le hlt huv.completions)⟩
  refine ⟨c, hc, fun ha => ?_⟩
  have hnot := (World.abandoned_iff hid).not.mpr (by simp [Completion.start])
  exact hnot ((huv.abandoned _ hlt).mp ((World.abandoned_iff hc).mpr ha))

end Steady

namespace World.Invoked

variable {w v : World} {r index : Nat} {x : Run} {t : Transformer} {tree : Value} {result : Resolution}

theorem waiting (h : w.Invoked v r x index t tree) (hr : v.result? w.completions.length = none) :
    v.Ready r x (.waiting index tree w.completions.length) := by
  have hready := h.ready
  rwa [hr] at hready

theorem settle (h : w.Invoked v r x index t tree)
    (hr : v.result? w.completions.length = some result) :
    v.Ready r x (.settle index tree result) := by
  have hready := h.ready
  rwa [hr] at hready

theorem failed (h : w.Invoked v r x index t tree)
    (hr : v.result? w.completions.length = some result) {f : Fault} (he : result.error = some f) :
    v.Ready r x (.failed f tree) := by
  simpa [Standing.settle, he] using h.settle hr

theorem due (h : w.Invoked v r x index t tree)
    (hr : v.result? w.completions.length = some result) (he : result.error = none) :
    v.Ready r x (.due (index + 1) (result.tree.getD tree)) := by
  simpa [Standing.settle, he] using h.settle hr

theorem last_call (h : w.Invoked v r x index t tree) :
    (calls r v.events).getLast? = some (w.invocation x index t tree) := by
  rw [h.calls_eq, List.getLast?_concat]

/-- What has nothing to do with chains leaves a run where the call of its step has brought it. -/
theorem of_local {α : Type} {y : Action α} (hy : Local y) (h : w.Invoked v r x index t tree) :
    w.Invoked (y.result v).2 r x index t tree where
  calls_eq := by
    rw [hy.result v, World.events_moved, calls_append,
      calls_neutral fun e he => .of_ofChain (hy.quiet v.core e he), List.append_nil, h.calls_eq]
  ready := by
    rw [hy.result?_eq]
    exact h.ready.of_local hy
  extends_ := h.extends_.trans (Steady.of_local hy v h.ready.sound).2
  open_ := by
    rw [hy.result v]
    exact h.open_

end World.Invoked

/-- What comes of a step of a chain at once. -/
inductive Stride where
  /-- The step is pending. -/
  | held (id : Nat) (c : Completion Resolution Resumption Empty)
  | failed (f : Fault)
  /-- The next step is due, with this tree. -/
  | next (tree : Value)

/-- Calls a step of a chain, and tells of it where the next one is due then. -/
def stride (host : Host) (r : Nat) (t : Transformer) (index : Nat) (tree : Value) : Action Stride := do
  let x ← run r
  let id ← invoke host r x index t tree
  let c ← completion id
  match c.result? with
  | some result =>
    match result.error with
    | some f => return .failed f
    | none =>
      tellStep x index t.name
      return .next (result.tree.getD tree)
  | none => return .held id c

theorem stride_bind {α : Type} (host : Host) (r : Nat) (t : Transformer) (index : Nat) (tree : Value)
    (f : Stride → Action α) : stride host r t index tree >>= f = (do
      let x ← run r
      let id ← invoke host r x index t tree
      let c ← completion id
      match c.result? with
      | some result =>
        match result.error with
        | some e => f (.failed e)
        | none =>
          tellStep x index t.name
          f (.next (result.tree.getD tree))
      | none => f (.held id c)) := by
  rw [stride]
  simp only [bind_assoc]
  refine bind_congr fun x => bind_congr fun id => bind_congr fun c => ?_
  cases c.result? with
  | none => rfl
  | some result =>
    dsimp only
    cases result.error with
    | some e => rfl
    | none => exact bind_assoc _ _ _

/-- A chain goes on by what comes of its next step. -/
theorem drive_cons (host : Host) (r : Nat) (delivery : Delivery) (sync : Bool) (t : Transformer)
    (rest : List Transformer) (index : Nat) (tree : Value) :
    drive host r delivery sync (t :: rest) index tree = stride host r t index tree >>= fun
      | .held id c => holdUp host ⟨r, index, tree, delivery⟩ sync t.name id c
      | .failed f => failStep host r delivery t.name f tree
      | .next new => drive host r delivery sync rest (index + 1) new := by
  rw [drive]
  refine Eq.trans ?_ (stride_bind ..).symm
  rfl

/-- How it can go with the step of a run that is due. -/
inductive World.Strode (w : World) (host : Host) (r : Nat) (x : Run) (index : Nat) (t : Transformer)
    (tree : Value) : Outcome Stride × World → Prop where
  /-- The call fails itself, which is not to say that the step fails. -/
  | stopped {v : World} {f : Fault} : (invoke host r x index t tree).result w = (.error f, v) →
    w.Invoked v r x index t tree → Strode w host r x index t tree (.error f, v)
  | held {v : World} {c : Completion Resolution Resumption Empty} :
    (invoke host r x index t tree).result w = (.ok w.completions.length, v) →
    w.Invoked v r x index t tree → v.completions[w.completions.length]? = some c →
    c.result? = none → c.phase = .pending →
    Strode w host r x index t tree (.ok (.held w.completions.length c), v)
  | failed {v : World} {result : Resolution} {f : Fault} :
    (invoke host r x index t tree).result w = (.ok w.completions.length, v) →
    w.Invoked v r x index t tree → v.result? w.completions.length = some result →
    result.error = some f → Strode w host r x index t tree (.ok (.failed f), v)
  /-- Whoever is told of the step stops the chain. -/
  | untold {u v : World} {result : Resolution} {f : Fault} :
    (invoke host r x index t tree).result w = (.ok w.completions.length, u) →
    (tellStep x index t.name).result u = (.error f, v) →
    w.Invoked v r x index t tree → v.result? w.completions.length = some result →
    result.error = none → Strode w host r x index t tree (.error f, v)
  | next {u v : World} {result : Resolution} :
    (invoke host r x index t tree).result w = (.ok w.completions.length, u) →
    (tellStep x index t.name).result u = (.ok (), v) →
    w.Invoked v r x index t tree → v.result? w.completions.length = some result →
    result.error = none →
    Strode w host r x index t tree (.ok (.next (result.tree.getD tree)), v)

theorem World.Ready.strode {host : Host} (hh : host.Steady) {w : World} {r index : Nat} {x : Run}
    {t : Transformer} {tree : Value} (h : w.Ready r x (.due index tree))
    (ht : x.steps[index]? = some t) :
    w.Strode host r x index t tree ((stride host r t index tree).result w) := by
  have hinv := Steady.invoke hh h ht
  have hinvoke := result_invoke host r x index t tree w
  rw [hinvoke] at hinv
  rw [stride, result_bind_ok (result_run h.run)]
  generalize (apply host x index t tree w.completions.length).result
    (w.calling r x index t tree) = done at hinv hinvoke
  obtain ⟨o, v⟩ := done
  cases o with
  | error f =>
    rw [result_bind_error hinvoke]
    exact .stopped hinvoke hinv
  | ok _ =>
    obtain ⟨c, hc, hopen⟩ := hinv.open_
    have hv := World.result?_of_found hc
    rw [result_bind_ok hinvoke, result_bind_ok (result_completion hc)]
    cases hr : c.result? with
    | none => exact .held hinvoke hinv hc hr (c.pending_of_result? hr hopen)
    | some result =>
      dsimp only
      rw [hr] at hv
      cases he : result.error with
      | some f => exact .failed hinvoke hinv hv he
      | none =>
        have hlocal : Local (tellStep x index t.name) := .emit _ _
        have htold := hinv.of_local hlocal
        dsimp only
        generalize hr' : (tellStep x index t.name).result v = told at htold
        obtain ⟨o, u⟩ := told
        cases o with
        | error f =>
          rw [result_bind_error hr']
          exact .untold hinvoke hr' htold ((result?_of_tellStep hr' _).trans hv) he
        | ok _ =>
          rw [result_bind_ok hr']
          exact .next hinvoke hr' htold ((result?_of_tellStep hr' _).trans hv) he

namespace Steady

variable {own : Rights} {host : Host}

/-- A step is pending that was called since the world `u`. -/
theorem holdUp {u w : World} {x : Run} {k : Resumption} {sync : Bool} {t : Transformer} {id : Nat}
    {c : Completion Resolution Resumption Empty} (h : w.Ready k.run x (.waiting k.index k.tree id))
    (hu : u.Extends (.run k.run) w) (hc : w.completions[id]? = some c) (hp : c.phase = .pending)
    (hnew : u.completions.length ≤ id) (ht : x.steps[k.index]? = some t) :
    ((holdUp host k sync t.name id c).result w).2.Sound ∧
      u.Extends (.run k.run) ((Pipeline.holdUp host k sync t.name id c).result w).2 := by
  cases sync with
  | true =>
    have habandon : c.abandon.getD c = { c with phase := .abandoned, onDone := [] } := by
      simp [Completion.abandon, hp]
    obtain ⟨hv, huv, hsub⟩ := h.sound.abandon (v := { w with
      completions := w.completions.set id (c.abandon.getD c) }) hu hc hp hnew (by rw [habandon]) rfl
      rfl rfl rfl
    have hready : World.Ready _ k.run x (.waiting k.index k.tree id) :=
      ⟨hv, h.run, h.stands, fun hm => h.free (hsub.subset hm)⟩
    have hsafe : Safe (.run k.run) _ (do
        log .debug Transform.logger ("Transformer '" ++ t.name ++
          "' did not resolve synchronously; abandoning run")
        Pipeline.deliver host k.run k.delivery (some (notSynchronous t.name)) k.tree) :=
      .local_bind (.log _ _ _) hready fun _ _ hz =>
        deliver hz fun _ => .inr ⟨k.index, id, t, rfl, ht, rfl⟩
    exact hsafe.since huv
  | false =>
    have hlog : Local (log .debug Transform.logger ("Transformer '" ++ t.name ++ "' is pending")) :=
      .log _ _ _
    have hready := h.of_local hlog
    have hadd : (c.addDone k).1 = { c with onDone := c.onDone ++ [k] } := by
      simp [Completion.addDone, Completion.isDone, hp]
    exact hready.sound.hold (v := { w with
        completions := w.completions.set id (c.addDone k).1
        events := w.events ++ [.log ⟨.debug, Transform.logger, "Transformer '" ++ t.name ++
          "' is pending"⟩] }) (hu.trans (of_local hlog w h.sound).2) hc hp hnew
        ⟨x, hready.run, hready.stands⟩ hready.free rfl (by rw [hadd]; rfl) rfl rfl rfl rfl

/-- The step that is due is called, and what comes then is safe whether it is resolved or pending. -/
theorem drive (hh : host.Steady) {r : Nat} {x : Run} {delivery : Delivery} {sync : Bool}
    {rest : List Transformer} {index : Nat} {tree : Value} {w : World}
    (h : w.Ready r x (.due index tree)) (hrest : x.steps.drop index = rest) :
    Safe (.run r) w (drive host r delivery sync rest index tree) := by
  induction rest generalizing index tree w with
  | nil =>
    have hend : index = x.steps.length :=
      Nat.le_antisymm ((h.sound.lawful r x h.run).due_le h.stands) (List.drop_eq_nil_iff.mp hrest)
    subst hend
    exact .local_bind (.log _ _ _) h fun _ _ hv => deliver hv fun _ => rfl
  | cons t rest ih =>
    obtain ⟨ht, hrest'⟩ := of_drop_eq_cons hrest
    have hstride := h.strode hh ht
    rw [Safe, drive_cons, result_bind]
    generalize (stride host r t index tree).result w = done at hstride
    cases hstride with
    | stopped _ hinv => exact ⟨hinv.ready.sound, hinv.extends_⟩
    | held _ hinv hc hr hp =>
      exact holdUp (hinv.waiting ((World.result?_of_found hc).trans hr)) hinv.extends_ hc hp
        (Nat.le_refl _) ht
    | failed _ hinv hr he => exact (failStep (hinv.failed hr he)).since hinv.extends_
    | untold _ _ hinv => exact ⟨hinv.ready.sound, hinv.extends_⟩
    | next _ _ hinv hr he => exact (ih (hinv.due hr he) hrest').since hinv.extends_

/-- A chain goes on that stands where it is resumed. -/
theorem resume (hh : host.Steady) {k : Resumption} {result : Resolution} {w : World} {x : Run}
    (h : w.Ready k.run x (.settle k.index k.tree result)) :
    Safe (.run k.run) w (resume host k result) := by
  refine .bind_same (result_run h.run) ?_
  dsimp only
  cases he : result.error with
  | some f => exact failStep (by simpa [Standing.settle, he] using h)
  | none =>
    exact .local_bind (.emit _ _) (by simpa [Standing.settle, he] using h)
      fun _ _ hv => drive hh hv rfl

end Steady

/-- The run that is started with these steps in a world. -/
def World.nextRun (w : World) (steps : List Transformer) (watcher : Option Watcher) (tree : Value)
    (file : Nat) : Run :=
  ⟨steps, watcher, w.runningLoop, file, tree, none, none, none⟩

/-- The world in which the first step of a chain is due. -/
def World.starting (w : World) (steps : List Transformer) (watcher : Option Watcher) (tree : Value)
    (file : Nat) : World :=
  { w with
    runs := w.runs ++ [w.nextRun steps watcher tree file]
    events := w.events ++ [.log ⟨.debug, Transform.logger, "Running " ++ toString steps.length ++
      " transformer(s)"⟩] }

section Start

variable (host : Host) (steps : List Transformer) (watcher : Option Watcher) (tree : Value)
  (file : Nat)

theorem result_start (delivery : Delivery) (w : World) :
    (start host steps watcher tree file delivery).result w =
      let done := (drive host w.runs.length delivery (delivery matches .kept) steps 0 tree).result
        (w.starting steps watcher tree file)
      (done.1.map fun _ => w.runs.length, done.2) := by
  show (drive host w.runs.length delivery (delivery matches .kept) steps 0 tree >>=
    fun _ => pure w.runs.length).result (w.starting steps watcher tree file) = _
  rw [result_bind]
  generalize (drive host w.runs.length delivery (delivery matches .kept) steps 0 tree).result _ = done
  obtain ⟨o, v⟩ := done
  cases o <;> rfl

theorem World.Sound.starting {w : World} (h : w.Sound) :
    (w.starting steps watcher tree file).Ready w.runs.length (w.nextRun steps watcher tree file)
        (.due 0 tree) ∧ w.Extends nobody (w.starting steps watcher tree file) := by
  obtain ⟨hu, hwu⟩ : Safe nobody w (log .debug Transform.logger ("Running " ++
    toString steps.length ++ " transformer(s)")) := Steady.of_local (.log _ _ _) w h
  have hstarting : World.Starting (w.told (.log ⟨.debug, Transform.logger, "Running " ++
    toString steps.length ++ " transformer(s)"⟩)) (w.starting steps watcher tree file)
    (w.nextRun steps watcher tree file) := ⟨rfl, rfl, rfl, rfl, rfl⟩
  exact ⟨⟨hstarting.sound hu, List.getElem?_concat_length, hstarting.standing hu, hstarting.free hu⟩,
    hwu.trans hstarting.extends_⟩

end Start

namespace Steady

variable {own : Rights} {host : Host}

/-- A chain is started. It was not there before, so that no other run is touched. -/
theorem start (hh : host.Steady) (steps : List Transformer) (watcher : Option Watcher) (tree : Value)
    (id : Nat) (delivery : Delivery) : Steady nobody (start host steps watcher tree id delivery) :=
  fun w hw => by
    obtain ⟨hready, hstart⟩ := hw.starting steps watcher tree id
    have hdrive : Safe (.run w.runs.length) _ (Pipeline.drive host w.runs.length delivery
      (delivery matches .kept) steps 0 tree) := drive hh hready rfl
    obtain ⟨hv, he⟩ := hdrive
    rw [Safe, result_start]
    exact ⟨hv, hstart.trans_of he (fun r hr => .inr (.inr (Nat.le_of_eq (Eq.symm hr)))) fun _ hs =>
      hs.elim⟩

/-! ### Processors and pipelines -/

theorem runChain (hh : host.Steady) (steps : List Transformer) (watcher : Option Watcher)
    (tree : Value) (id : Nat) : Steady nobody (runChain host steps watcher tree id) := by
  refine bind (start hh _ _ _ _ _) fun r => bind (run r) fun x => ?_
  split
  · exact pure _
  · exact throw _
  · exact pure _

theorem runTree (hh : host.Steady) (p : Nat) (tree : Value) (id : Nat) (watcher : Option Watcher) :
    Steady nobody (runTree host p tree id watcher) :=
  bind (of_local (.processor _)) fun _ => bind (of_local (.startTree _ _ _)) fun _ =>
    bind (runChain hh _ _ _ _) fun _ => bind (of_local (.storeTree _ _ _)) fun _ =>
    bind (of_local (.tell rfl)) fun _ => pure _

theorem tellNoTree (receiver : TreeReceiver) (f : Fault) (id : Nat) :
    Steady own (tellNoTree receiver f id) := by
  cases receiver with
  | callback k => exact tellRan _ _ _ _
  | future future => exact enqueue rfl
  | compilation c => exact fail _ _ _ _

theorem runTreeFor (hh : host.Steady) (p : Nat) (tree : Value) (id : Nat) (watcher : Option Watcher)
    (receiver : TreeReceiver) : Steady nobody (runTreeFor host p tree id watcher receiver) := by
  refine bind (of_local (.processor _)) fun _ =>
    bind (attempt (of_local (.startTree _ _ _))) fun first => ?_
  cases first with
  | error f =>
    exact bind (of_local (.require _ _)) fun _ => bind (tellNoTree _ _ _) fun _ => pure _
  | ok first => exact bind (start hh _ _ _ _ _) fun _ => pure _

theorem processFile (hh : host.Steady) (p id : Nat) (settings : Value) (watcher : Option Watcher) :
    Steady nobody (processFile host p id settings watcher) :=
  bind (of_local (.requireEndpoints _)) fun _ => bind (of_local (.parseFile _ _ _ _)) fun _ =>
    bind (of_local (.tellStage _ _)) fun _ => bind (runTree hh _ _ _ _) fun _ =>
    bind (of_local (.tellStage _ _)) fun _ => bind (of_local (.stringify _ _ _ _ _)) fun _ =>
    bind (of_local (.tellStage _ _)) fun _ => pure _

theorem processText (hh : host.Steady) (p : Nat) (value settings : Value)
    (watcher : Option Watcher) : Steady nobody (processText host p value settings watcher) := by
  refine bind (of_local (.toFile _)) fun id => bind (of_local (.file _)) fun _ =>
    bind (of_local (.tellStarted _ _)) fun _ => bind (attempt (processFile hh _ _ _ _)) fun text => ?_
  cases text with
  | ok text => exact bind (of_local (.complete _ _ _)) fun _ => pure _
  | error f => exact ite (bind (of_local (.tellFailed _ _)) fun _ => throw _) (throw _)

theorem processTextFor (hh : host.Steady) (p : Nat) (value settings : Value)
    (watcher : Option Watcher) (receiver : TextReceiver) :
    Steady nobody (processTextFor host p value settings watcher receiver) := by
  refine bind (attempt (of_local (.toFile _))) fun id => ?_
  cases id with
  | error f =>
    exact bind (of_local (.require _ _)) fun _ => bind (of_local (.addFile _)) fun _ =>
      bind (fail _ _ _ _) fun _ => pure _
  | ok id =>
    refine bind (attempt (of_local (.parseFor _ _ _ _ _))) fun tree => ?_
    cases tree with
    | error f =>
      exact bind (of_local (.require _ _)) fun _ => bind (fail _ _ _ _) fun _ => pure _
    | ok tree =>
      refine bind (of_local (.tellStage _ _)) fun _ => bind (runTreeFor hh _ _ _ _ _) fun r => ?_
      cases r with
      | none => exact pure _
      | some r => exact bind (run r) fun _ => pure _

end Steady

/-- What plugins can do with other pipelines is steady, to any depth. -/
theorem Host.nested_steady (endpoints : Grammar.Endpoints)
    (standard : List (Plugin.Metadata Attacher)) (surroundings : Plugin.Surroundings Attacher)
    (depth : Nat) : (Host.nested endpoints standard surroundings depth).Steady := by
  induction depth with
  | zero =>
    exact ⟨fun _ _ _ => .throw _, fun _ _ => .throw _, fun _ _ _ hw _ _ => .throw hw _⟩
  | succ depth ih =>
    refine ⟨fun on plugin options => ?_, fun on value => ?_, fun k result w hw hs hk => ?_⟩
    · exact .bind (.processorFor ih.use on) fun _ => .useOn ih.use _ _ _
    · exact .bind (.of_local (.processorFor ih.use on)) fun _ => .processText ih _ _ _ _
    · obtain ⟨x, hx, hs⟩ := hs
      exact Pipeline.Steady.resume ih ⟨hw, hx, hs, hk⟩

end TextPipeline.Pipeline
