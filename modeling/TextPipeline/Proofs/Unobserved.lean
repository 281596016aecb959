import TextPipeline.Proofs.Observing

/-! Whatever is done from outside does not see observers either, and neither does the loop. So a run or a
pipeline comes to the same whoever observes it, as long as observers fail by nothing but errors whose
texts can be read, and so does everything that is done afterwards: `progress_unobserved`. An error of an
observer whose text cannot be read is not logged but goes on (`polite_iff`). -/

namespace TextPipeline.Pipeline

open TextPipeline.Transform
open TextPipeline.Pipeline.Action

namespace Blind

variable {host : Host} {α : Type}

/-! ### The loop -/

/-- The next pieces of work differ in nothing but observers. -/
theorem dequeue_bind {f g : Option Job → Action α} (hnone : Blind (f none) (g none))
    (hsome : ∀ i j : Job, i.mute = j.mute → Blind (f (some i)) (g (some j))) :
    Blind (dequeue >>= f) (dequeue >>= g) := fun w v hp => by
  have hjobs := hp.jobs
  cases hw : w.jobs with
  | nil =>
    rw [hw, List.map_nil, eq_comm, List.map_eq_nil_iff] at hjobs
    rw [result_bind_ok (result_dequeue_nil hw), result_bind_ok (result_dequeue_nil hjobs)]
    exact hnone w v hp
  | cons i rest =>
    rw [hw, List.map_cons, eq_comm, List.map_eq_cons_iff] at hjobs
    obtain ⟨j, rest', hv, hij, hrest⟩ := hjobs
    rw [result_bind_ok (result_dequeue_cons hw), result_bind_ok (result_dequeue_cons hv)]
    exact hsome i j hij.symm _ _
      ⟨hp.core, hp.completions, hp.runs, hp.futures, hrest.symm, hp.nexts, hp.events⟩

theorem addFuture : Blind addFuture addFuture := fun w v hp => by
  refine ⟨congrArg Except.ok (congrArg List.length hp.futures), hp.core, hp.completions, hp.runs, ?_,
    hp.jobs, hp.nexts, hp.events⟩
  show w.futures ++ [none] = v.futures ++ [none]
  rw [hp.futures]

theorem settleFuture (id : Nat) (result : Outcome Value) :
    Blind (settleFuture id result) (settleFuture id result) := by
  refine get fun w v hp => ?_
  rw [hp.futures]
  split
  · exact bind (fun _ _ _ => ⟨rfl, hp.core, hp.completions, hp.runs, rfl, hp.jobs, hp.nexts, hp.events⟩)
      fun _ => enqueue rfl
  · exact pure _

theorem proceed (hh : host.Blind) (t : Task) : Blind (proceed host t) (proceed host t) := by
  have hacts : Blind t.acts t.acts := by
    unfold Task.acts
    split
    · exact bind (of_local (.reveal _)) fun _ => bind (of_local (.file _)) fun _ => pure _
    · exact pure _
  refine bind hacts fun acts => bind (attempt (perform hh t.scene true acts)) fun o => ?_
  split
  · exact enqueue rfl
  · exact enqueue rfl
  · split <;> exact enqueue rfl

theorem advance (hh : host.Blind) (t : Task) : Blind (advance host t) (advance host t) := by
  refine completion_bind fun c d h => ?_
  have hphase : c.phase = d.phase := (congrArg Completion.phase h :)
  rw [Completion.isAbandoned, Completion.isAbandoned, hphase]
  exact ite (pure _) (proceed hh t)

theorem startCall (hh : host.Blind) (future : Nat) {c d : Call} (h : c.mute = d.mute) :
    Blind (startCall host future c) (startCall host future d) := by
  cases c <;> cases d <;> first | cases h | skip
  · obtain ⟨rfl, rfl, rfl, hwatcher⟩ := Call.run.inj h
    exact bind (of_local (.processorFor hh.use _)) fun _ => bind (of_local (.toFile _)) fun _ =>
      bind (runTreeFor hwatcher hh _ _ _ rfl) fun _ => pure _
  · obtain ⟨rfl, rfl, rfl, hwatcher⟩ := Call.process.inj h
    exact bind (of_local (.processorFor hh.use _)) fun _ =>
      bind (processTextFor hwatcher hh _ _ _ _) fun _ => pure _

theorem work (hh : host.Blind) {i j : Job} (h : i.mute = j.mute) :
    Blind (work host i) (work host j) := by
  -- The two jobs are of one kind; those that hold no observer are one and the same.
  cases i <;> cases j <;> first | cases h | skip
  · exact advance hh _
  · refine completion_bind fun c d hc => ?_
    have hphase : c.phase = d.phase := (congrArg Completion.phase hc :)
    have hlabel : c.label = d.label := (congrArg Completion.label hc :)
    rw [Completion.isAbandoned, Completion.isAbandoned, hphase, hlabel]
    exact ite (pure _) (resolve hh _ _)
  · obtain ⟨hk, rfl⟩ := Job.resume.inj h
    exact resume hh hk _
  · rename_i threaded id error tree
    exact bind (of_local (.modify (fun c => { c with threaded := threaded }) fun _ => rfl)) fun _ =>
      bind (attempt (next hh id error tree)) fun _ =>
      bind (of_local (.modify (fun c => { c with threaded := false }) fun _ => rfl)) fun _ =>
      of_local (.ofOutcome _)
  · exact settleFuture _ _
  · exact pure _
  · obtain ⟨hcall, rfl⟩ := Job.start.inj h
    refine bind (attempt (startCall hh _ hcall)) fun o => ?_
    cases o with
    | ok _ => exact pure _
    | error f => exact settleFuture _ _

theorem settleAll (hh : host.Blind) (fuel : Nat) : Blind (settleAll host fuel) (settleAll host fuel) := by
  induction fuel with
  | zero => exact pure _
  | succ fuel ih => exact dequeue_bind (pure _) fun i j h => bind (attempt (work hh h)) fun _ => ih

theorem waitFor (hh : host.Blind) (future fuel : Nat) :
    Blind (waitFor host future fuel) (waitFor host future fuel) := by
  induction fuel with
  | zero => exact pure _
  | succ fuel ih =>
    refine dequeue_bind (pure _) fun i j h => ?_
    have hwork : Blind (Action.attempt (Pipeline.work host i) >>= fun _ => Pipeline.waitFor host future fuel)
        (Action.attempt (Pipeline.work host j) >>= fun _ => Pipeline.waitFor host future fuel) :=
      bind (attempt (work hh h)) fun _ => ih
    cases i <;> cases j <;> first | exact hwork | cases h
    exact ite (pure _) ih

theorem awaitCall (hh : host.Blind) {c d : Call} (h : c.mute = d.mute) (future : Nat) :
    Blind (awaitCall host c future) (awaitCall host d future) := by
  refine get fun w v hp => ?_
  have hrunning : w.runningLoop = v.runningLoop := congrArg (·.world.runningLoop) hp.core
  rw [hrunning]
  refine ite (bind (startCall hh future h) fun _ => waitFor hh _ _) ?_
  refine bind (of_local (.modify (fun c => { c with loops := c.loops + 1, openLoop := some c.loops })
    fun _ => rfl)) fun _ => bind (enqueue ?_) fun _ => bind (waitFor hh _ _) fun _ =>
    bind (settleAll hh _) fun _ => of_local (.modify (fun c => { c with openLoop := none }) fun _ => rfl)
  rw [Job.mute, Job.mute, h]

theorem await (hh : host.Blind) {c d : Call} (h : c.mute = d.mute) : Blind (await host c) (await host d) := by
  have hresult (future : Nat) : Blind (resultOf future) (resultOf future) := get fun w v hp => by
    rw [hp.futures]
    exact pure _
  refine bind addFuture fun future => bind (awaitCall hh h future) fun _ => bind (hresult future)
    fun o => ?_
  cases o with
  | some o => exact of_local (.ofOutcome _)
  | none => exact throw _

/-! ### What is done from outside -/

section Observers

variable {a b : Option Watcher} (h : mute a = mute b)
include h

theorem runOn (hh : host.Blind) (on tree given : Value) (callback : Option Callback) :
    Blind (runOn host on tree given callback a) (runOn host on tree given callback b) := by
  refine bind (of_local (.processorFor hh.use on)) fun p => bind (of_local (.toFile _)) fun id => ?_
  cases callback with
  | none => exact runTree h hh _ _ _
  | some k =>
    refine bind (runTreeFor h hh _ _ _ rfl) fun r => ?_
    cases r with
    | none => exact pure _
    | some r =>
      refine run_bind fun x y hxy => ?_
      have hsettled : x.settled = y.settled := (congrArg Run.settled hxy :)
      rw [hsettled]
      exact pure _

theorem processOn (hh : host.Blind) (on value settings : Value) (callback : Option Callback) :
    Blind (processOn host on value settings callback a) (processOn host on value settings callback b) := by
  refine bind (of_local (.processorFor hh.use on)) fun p => ?_
  cases callback with
  | none => exact ite (processTextFor h hh _ _ _ _) (processText h hh _ _ _)
  | some k => exact processTextFor h hh _ _ _ _

end Observers

theorem act (hh : host.Blind) (m : Move) : Blind (m.act host) (m.act host) := by
  cases m with
  | change f =>
    exact modify fun w v hp => ⟨congrArg f hp.core, hp.completions, hp.runs, hp.futures, hp.jobs,
      hp.nexts, hp.events⟩
  | rename id name =>
    exact modify fun w v hp => ⟨hp.core, hp.completions, hp.runs, hp.futures, hp.jobs, by rw [hp.nexts],
      hp.events⟩
  | next id error tree => exact next hh _ _ _
  | nextNamed id error tree => exact callNext hh _ _ _
  | start steps watcher tree file k => exact bind (start rfl hh _ _ _ rfl) fun _ => pure _
  | runChain steps watcher tree file => exact bind (runChain rfl hh _ _ _) fun _ => pure _
  | use on plugin options =>
    exact bind (of_local (.processorFor hh.use on)) fun _ =>
      bind (of_local (.useOn hh.use _ _ _)) fun _ => pure _
  | parse on value settings =>
    exact bind (bind (of_local (.processorFor hh.use on)) fun _ => bind (of_local (.toFile _)) fun _ =>
      of_local (.parseFile _ _ _ _)) fun _ => pure _
  | run on tree given callback watcher => exact bind (runOn rfl hh _ _ _ _) fun _ => pure _
  | stringify on tree given settings =>
    exact bind (bind (of_local (.processorFor hh.use on)) fun _ =>
      of_local (.stringify _ _ _ _ _)) fun _ => pure _
  | process on value settings callback watcher =>
    exact bind (processOn rfl hh _ _ _ _) fun _ => pure _
  | await c => exact bind (await hh rfl) fun _ => pure _
  | post c => exact bind addFuture fun _ => enqueue rfl
  | turn => exact settleAll hh 1

end Blind

/-- Peers stay peers, whatever is done. -/
theorem World.Peer.play {host : Host} (hh : host.Blind) {w v : World} (hp : w.Peer v)
    (moves : List Move) : (play host moves w).Peer (play host moves v) := by
  induction moves generalizing w v with
  | nil => exact hp
  | cons m moves ih => exact ih (Blind.act hh m w v hp).2

theorem calls_unobserved (r : Nat) (es : List Event) : calls r (unobserved es) = calls r es := by
  rw [calls, unobserved, List.filterMap_filter]
  refine List.filterMap_congr fun e _ => ?_
  cases e <;> simp [Event.ofObserver, Event.call?]

theorem deliveries_unobserved (r : Nat) (es : List Event) :
    deliveries r (unobserved es) = deliveries r es := by
  rw [deliveries, unobserved, List.filterMap_filter]
  refine List.filterMap_congr fun e _ => ?_
  cases e <;> simp [Event.ofObserver, Event.delivery?]

/-- Two calls that cannot be told apart but by their observers. They come to the same, and leave the same
files, trees and data; the same steps were called with the same trees, the same results were delivered and
told, and all else that happened was the same. This stays so whatever is done afterwards, and that comes to
the same, too. -/
structure Indistinct (host : Host) {α : Type} (x y : Outcome α × World) : Prop where
  outcome : x.1 = y.1
  core (moves : List Move) : (play host moves x.2).core = (play host moves y.2).core
  calls (moves : List Move) (r : Nat) :
    calls r (play host moves x.2).events = calls r (play host moves y.2).events
  deliveries (moves : List Move) (r : Nat) :
    deliveries r (play host moves x.2).events = deliveries r (play host moves y.2).events
  happened (moves : List Move) :
    unobserved (play host moves x.2).events = unobserved (play host moves y.2).events
  futures (moves : List Move) : (play host moves x.2).futures = (play host moves y.2).futures
  later (moves : List Move) (m : Move) : ((m.act host).result (play host moves x.2)).1 =
    ((m.act host).result (play host moves y.2)).1

theorem Blind.indistinct {host : Host} (hh : host.Blind) {α : Type} {x y : Action α} (h : Blind x y)
    (w : World) : Indistinct host (x.result w) (y.result w) := by
  obtain ⟨ho, hp⟩ := h w w (.refl w)
  have hplay (moves : List Move) := hp.play hh moves
  exact {
    outcome := ho
    core := fun moves => (hplay moves).core
    calls := fun moves r => by
      rw [← calls_unobserved, (hplay moves).events, calls_unobserved]
    deliveries := fun moves r => by
      rw [← deliveries_unobserved, (hplay moves).events, deliveries_unobserved]
    happened := fun moves => (hplay moves).events
    futures := fun moves => (hplay moves).futures
    later := fun moves m => (Blind.act hh m _ _ (hplay moves)).1 }

end TextPipeline.Pipeline
