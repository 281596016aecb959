import TextPipeline.Proofs.Driving

/-! The worlds that can be reached from outside. Pipelines and chains are called, results are passed
on in any way that was kept, the loop takes its turns, and everything that is no chain is changed at
will in between. The chains of every world that is reached so are sound. -/

namespace TextPipeline.Pipeline

open TextPipeline.Transform
open TextPipeline.Pipeline.Action
open World (nobody)

/-- What a piece of work may touch: the run that it lets go on, and any step. -/
def Job.rights (j : Job) : Rights where
  runs r := ∃ k result, j.resume? = some (k, result) ∧ r = k.run
  steps _ := True

theorem Job.anyStep_within (j : Job) : Rights.anyStep.Within j.rights :=
  ⟨fun _ h => h.elim, fun _ h => h⟩

/-- A piece of work finds the chain where it lets it go on. -/
def World.Fit (w : World) (j : Job) : Prop :=
  ∀ k result, j.resume? = some (k, result) →
    w.Stands k.run (.settle k.index k.tree result) ∧ k.run ∉ w.awaited

/-- A piece of work is taken off the loop. -/
theorem World.Sound.dequeue {w : World} (h : w.Sound) {j : Job} {rest : List Job}
    (hj : w.jobs = j :: rest) :
    World.Sound { w with jobs := rest } ∧ w.Extends nobody { w with jobs := rest } ∧
      World.Fit { w with jobs := rest } j ∧ ∀ r, j.rights.runs r → r ∈ w.awaited := by
  have hsub : (rest.filterMap Job.resume?).Sublist (w.jobs.filterMap Job.resume?) := by
    rw [hj]
    exact (List.sublist_cons_self j rest).filterMap _
  have hawaited (k : Resumption) (result : Resolution) (hk : j.resume? = some (k, result)) :
      (k, result) ∈ w.jobs.filterMap Job.resume? := by
    rw [hj]
    simp [hk]
  refine ⟨h.undisturbed rfl rfl hsub (List.append_nil _).symm (by simp) fun _ _ hu => hu,
    .undisturbed nobody rfl rfl hsub (List.append_nil _).symm (by simp) (fun _ _ => rfl)
      fun _ _ hu => hu,
    fun k result hk => ⟨?_, fun hm => ?_⟩, ?_⟩
  · exact (h.queued k result (hawaited k result hk)).of_eq List.prefix_rfl fun _ hx => hx
  · have hsingle := h.single
    rw [World.awaited, World.resumptions, hj, List.filterMap_cons_some hk, List.map_cons,
      List.map_append, List.map_cons] at hsingle
    rw [World.awaited, World.resumptions, List.map_append, List.mem_append] at hm
    obtain ⟨-, hright, hdis⟩ := List.nodup_append.mp hsingle
    rcases hm with hm | hm
    · exact hdis _ hm _ (List.mem_cons_self ..) rfl
    · exact (List.nodup_cons.mp hright).1 hm
  · rintro r ⟨k, result, hk, rfl⟩
    exact World.mem_awaited_job (hawaited k result hk)

theorem rooted_settled (name : String) (s : Settled) : Rooted (s.resolution name) := by
  unfold Settled.resolution
  split
  · exact rooted_failed _
  · exact rooted_failed _
  · exact rooted_failed _
  · exact rooted_ofReturn _ _

theorem result_dequeue_nil {w : World} (h : w.jobs = []) : dequeue.result w = (.ok none, w) := by
  rw [dequeue, result_get_bind, h]
  rfl

theorem result_dequeue_cons {w : World} {j : Job} {rest : List Job} (h : w.jobs = j :: rest) :
    dequeue.result w = (.ok (some j), { w with jobs := rest }) := by
  rw [dequeue, result_get_bind, h]
  rfl

namespace Steady

variable {own : Rights} {host : Host} {α : Type}

/-- What is done with the next piece of work touches no run that the work does not let go on. -/
theorem dequeue_bind {f : Option Job → Action α} (hnone : Steady .anyStep (f none))
    (hsome : ∀ j v, v.Sound → v.Fit j → Safe j.rights v (f (some j))) :
    Steady .anyStep (dequeue >>= f) := fun w hw => by
  cases hj : w.jobs with
  | nil =>
    have hd : dequeue.result w = (.ok none, w) := by
      rw [dequeue, result_bind, result_get]
      simp only [hj]
      rfl
    exact .bind_same hd (hnone w hw)
  | cons j rest =>
    have hd : dequeue.result w = (.ok (some j), { w with jobs := rest }) := by
      rw [dequeue, result_bind, result_get]
      simp only [hj]
      rfl
    obtain ⟨hv, hwv, hfit, howns⟩ := hw.dequeue hj
    obtain ⟨hsound, hext⟩ := hsome j _ hv hfit
    rw [Safe, result_bind, hd]
    exact ⟨hsound, hwv.of_nobody.trans_of hext (fun r hr => .inr (.inl (howns r hr))) fun _ h => .inl h⟩

theorem addFuture : Steady own addFuture :=
  of_undisturbed fun _ =>
    ⟨rfl, rfl, List.Sublist.refl _, ⟨[], (List.append_nil _).symm, by simp⟩, fun _ _ => rfl,
      fun _ _ hu => hu⟩

theorem settleFuture (id : Nat) (result : Outcome Value) : Steady own (settleFuture id result) :=
  of_undisturbed fun w => by
    unfold Pipeline.settleFuture
    rw [result_bind, result_get]
    dsimp only
    split
    · refine ⟨rfl, rfl, ?_, ⟨[], (List.append_nil _).symm, by simp⟩, fun _ _ => rfl,
        fun _ _ hu => hu⟩
      show List.Sublist ((w.jobs ++ [Job.wake id]).filterMap Job.resume?) _
      simp [Job.resume?]
    · exact ⟨rfl, rfl, List.Sublist.refl _, ⟨[], (List.append_nil _).symm, by simp⟩, fun _ _ => rfl,
        fun _ _ hu => hu⟩

theorem acts (t : Task) : Steady own t.acts := by
  unfold Task.acts
  split
  · exact bind (of_local (.reveal _)) fun _ => bind (of_local (.file _)) fun _ => pure _
  · exact pure _

theorem proceed (hh : host.Steady) (t : Task) : Steady .anyStep (proceed host t) := by
  have hperform (acts : List Act) : Steady .anyStep (Pipeline.perform host t.scene true acts) :=
    (perform hh _ _ _).mono ⟨fun _ h => h, fun _ _ => trivial⟩
  refine bind (acts t) fun acts => bind (attempt (hperform acts)) fun o => ?_
  split
  · exact enqueue rfl
  · exact enqueue rfl
  · split <;> exact enqueue rfl

theorem advance (hh : host.Steady) (t : Task) : Steady .anyStep (advance host t) :=
  bind (completion _) fun _ => ite (pure _) (proceed hh t)

theorem startCall (hh : host.Steady) (future : Nat) (c : Call) :
    Steady nobody (startCall host future c) := by
  cases c with
  | run on tree given watcher =>
    exact bind (of_local (.processorFor hh.use on)) fun _ => bind (of_local (.toFile _)) fun _ =>
      bind (runTreeFor hh _ _ _ _ _) fun _ => pure _
  | process on value settings watcher =>
    exact bind (of_local (.processorFor hh.use on)) fun _ =>
      bind (processTextFor hh _ _ _ _ _) fun _ => pure _

theorem anyStep {x : Action α} {id : Nat} (h : Steady (.step id) x) : Steady .anyStep x :=
  h.mono (.step trivial)

/-- A piece of work is safe where it finds its chain. -/
theorem work (hh : host.Steady) {w : World} (hw : w.Sound) {j : Job} (hj : w.Fit j) :
    Safe j.rights w (work host j) := by
  have safe {x : Action Unit} (hx : Steady .anyStep x) : Safe j.rights w x :=
    (hx w hw).mono j.anyStep_within
  unfold Pipeline.work
  cases j with
  | advance t => exact safe (advance hh t)
  | settle id s =>
    exact safe (bind (completion id) fun _ => ite (pure _)
      (anyStep (resolve hh id (rooted_settled _ _))))
  | resume k result =>
    obtain ⟨⟨x, hx, hs⟩, hk⟩ := hj k result rfl
    refine (resume hh ⟨hw, hx, hs, hk⟩).mono (.ofRuns fun r hr => ?_)
    exact ⟨k, result, rfl, hr⟩
  | next t id error tree =>
    refine safe (bind (modify ?_ ?_ ?_ ?_ ?_) fun _ => bind (attempt (anyStep (next hh id _ _)))
      fun _ => bind (modify ?_ ?_ ?_ ?_ ?_) fun _ => of_local (.ofOutcome _))
    all_goals first | exact fun _ => rfl | exact fun _ _ hu => hu
  | deliver future result => exact safe (settleFuture _ _)
  | wake _ => exact safe (pure _)
  | start c future =>
    refine safe (bind (attempt (of_nobody (startCall hh future c))) fun o => ?_)
    cases o with
    | ok _ => exact pure _
    | error f => exact settleFuture _ _

theorem settleAll (hh : host.Steady) (fuel : Nat) : Steady .anyStep (settleAll host fuel) := by
  induction fuel with
  | zero => exact pure _
  | succ fuel ih =>
    exact dequeue_bind (pure _) fun j v hv hj =>
      .bind (work hh hv hj) fun _ u _ hu _ => (ih u hu).mono j.anyStep_within

theorem waitFor (hh : host.Steady) (future fuel : Nat) :
    Steady .anyStep (waitFor host future fuel) := by
  induction fuel with
  | zero => exact pure _
  | succ fuel ih =>
    refine dequeue_bind (pure _) fun j v hv hj => ?_
    have hwork : Safe j.rights v (Action.attempt (Pipeline.work host j) >>= fun _ =>
        Pipeline.waitFor host future fuel) :=
      .bind (work hh hv hj) fun _ u _ hu _ => (ih u hu).mono j.anyStep_within
    cases j with
    | wake id => exact (ite (pure _) ih v hv).mono (Job.anyStep_within _)
    | _ => exact hwork

theorem awaitCall (hh : host.Steady) (c : Call) (future : Nat) :
    Steady .anyStep (awaitCall host c future) := by
  refine get fun w => ite (bind (of_nobody (startCall hh future c)) fun _ => waitFor hh _ _) ?_
  refine bind (modify ?_ ?_ ?_ ?_ ?_) fun _ => bind (enqueue rfl) fun _ =>
    bind (waitFor hh _ _) fun _ => bind (settleAll hh _) fun _ => modify ?_ ?_ ?_ ?_ ?_
  all_goals first | exact fun _ => rfl | exact fun _ _ hu => hu

theorem await (hh : host.Steady) (c : Call) : Steady .anyStep (await host c) := by
  refine bind addFuture fun future => bind (awaitCall hh c future) fun _ =>
    bind (get fun _ => pure _) fun result => ?_
  cases result with
  | some result => exact of_local (.ofOutcome _)
  | none => exact throw _

theorem runOn (hh : host.Steady) (on tree given : Value) (callback : Option Callback)
    (watcher : Option Watcher) : Steady nobody (runOn host on tree given callback watcher) := by
  refine bind (of_local (.processorFor hh.use on)) fun p => bind (of_local (.toFile _)) fun id => ?_
  cases callback with
  | none => exact runTree hh _ _ _ _
  | some k =>
    refine bind (runTreeFor hh _ _ _ _ _) fun r => ?_
    cases r with
    | none => exact pure _
    | some r => exact bind (run r) fun _ => pure _

theorem processOn (hh : host.Steady) (on value settings : Value) (callback : Option Callback)
    (watcher : Option Watcher) :
    Steady nobody (processOn host on value settings callback watcher) := by
  refine bind (of_local (.processorFor hh.use on)) fun p => ?_
  cases callback with
  | none => exact ite (processTextFor hh _ _ _ _ _) (processText hh _ _ _ _)
  | some k => exact processTextFor hh _ _ _ _ _

theorem parse (hh : host.Steady) (on value settings : Value) :
    Steady own (parse host on value settings) :=
  bind (of_local (.processorFor hh.use on)) fun _ => bind (of_local (.toFile _)) fun _ =>
    of_local (.parseFile _ _ _ _)

theorem stringifyOn (hh : host.Steady) (on tree given settings : Value) :
    Steady own (stringifyOn host on tree given settings) :=
  bind (of_local (.processorFor hh.use on)) fun _ => of_local (.stringify _ _ _ _ _)

end Steady

/-- Something that is done from outside. -/
inductive Move where
  /-- All that is no chain is changed at will. -/
  | change (f : Core → Core)
  /-- A way to pass on a result that is kept gets another name. -/
  | rename (id name : String)
  /-- A result is passed on to a step. -/
  | next (id : Nat) (error tree : Value)
  /-- A result is passed on in a way that was kept. -/
  | nextNamed (id : String) (error tree : Value)
  /-- A chain is started for someone who is told of its result. -/
  | start (steps : List Transformer) (watcher : Option Watcher) (tree : Value) (file : Nat)
    (k : Callback)
  /-- A chain is run that must not wait. -/
  | runChain (steps : List Transformer) (watcher : Option Watcher) (tree : Value) (file : Nat)
  | use (on : Value) (plugin : Plugin) (options : Value)
  | parse (on value settings : Value)
  | run (on tree given : Value) (callback : Option Callback) (watcher : Option Watcher)
  | stringify (on tree given settings : Value)
  | process (on value settings : Value) (callback : Option Callback) (watcher : Option Watcher)
  | await (c : Call)
  /-- A call is put on the loop. -/
  | post (c : Call)
  /-- The loop takes a turn. -/
  | turn

/-- What a move does. -/
def Move.act (host : Host) : Move → Action Unit
  | .change f => modify fun w => w.withCore (f w.core)
  | .rename id name => modify fun w =>
    { w with nexts := (w.nexts.lookup id).toList.map (name, ·) ++ w.nexts }
  | .next id error tree => Pipeline.next host id error tree
  | .nextNamed id error tree => callNext host id error tree
  | .start steps watcher tree file k => do
    let _ ← Pipeline.start host steps watcher tree file (.callback k)
  | .runChain steps watcher tree file => do let _ ← Pipeline.runChain host steps watcher tree file
  | .use on plugin options => do let _ ← useOn host (← processorFor host on) plugin options
  | .parse on value settings => do let _ ← Pipeline.parse host on value settings
  | .run on tree given callback watcher => do let _ ← runOn host on tree given callback watcher
  | .stringify on tree given settings => do let _ ← stringifyOn host on tree given settings
  | .process on value settings callback watcher => do
    let _ ← processOn host on value settings callback watcher
  | .await c => do let _ ← Pipeline.await host c
  | .post c => do enqueue (.start c (← addFuture))
  | .turn => settleAll host 1

/-- The world after moves. A move that fails leaves what it did. -/
def play (host : Host) (moves : List Move) (w : World) : World :=
  moves.foldl (fun v m => ((m.act host).result v).2) w

theorem Steady.act {host : Host} (hh : host.Steady) (m : Move) : Steady .anyStep (m.act host) := by
  cases m with
  | change f =>
    exact modify (fun _ => rfl) (fun _ => rfl) (fun _ => rfl) (fun _ => rfl) fun _ _ hu => hu
  | rename id name =>
    refine modify (fun _ => rfl) (fun _ => rfl) (fun _ => rfl) (fun _ => rfl) fun w n hn other => ?_
    rw [List.mem_append, List.mem_map, not_or]
    refine ⟨fun ⟨way, hway, heq⟩ => hn id ?_, hn other⟩
    obtain ⟨pre, post, hnexts, -⟩ := List.lookup_eq_some_iff.mp (Option.mem_toList.mp hway)
    simp [hnexts, (Prod.mk.inj heq).2]
  | next id error tree => exact anyStep (next hh _ _ _)
  | nextNamed id error tree => exact of_nobody (callNext hh _ _ _)
  | start steps watcher tree file k => exact of_nobody (bind (start hh _ _ _ _ _) fun _ => pure _)
  | runChain steps watcher tree file => exact of_nobody (bind (runChain hh _ _ _ _) fun _ => pure _)
  | use on plugin options =>
    exact bind (of_local (.processorFor hh.use on)) fun _ =>
      bind (of_local (.useOn hh.use _ _ _)) fun _ => pure _
  | parse on value settings => exact bind (parse hh _ _ _) fun _ => pure _
  | run on tree given callback watcher =>
    exact of_nobody (bind (runOn hh _ _ _ _ _) fun _ => pure _)
  | stringify on tree given settings => exact bind (stringifyOn hh _ _ _ _) fun _ => pure _
  | process on value settings callback watcher =>
    exact of_nobody (bind (processOn hh _ _ _ _ _) fun _ => pure _)
  | await c => exact bind (await hh _) fun _ => pure _
  | post c => exact bind addFuture fun _ => enqueue rfl
  | turn => exact settleAll hh 1

/-- Whatever is done from outside keeps the chains sound, and leaves alone those that nobody waits
for. -/
theorem World.Sound.play {host : Host} (hh : host.Steady) {w : World} (hw : w.Sound)
    (moves : List Move) : (play host moves w).Sound ∧ w.Extends .anyStep (play host moves w) := by
  induction moves generalizing w with
  | nil => exact ⟨hw, .refl _ w⟩
  | cons m moves ih =>
    obtain ⟨hv, hwv⟩ := Steady.act hh m w hw
    obtain ⟨hu, hvu⟩ := ih hv
    exact ⟨hu, hwv.trans hvu⟩

/-- The world in which nothing has happened yet. -/
theorem World.Sound.empty : World.Sound {} where
  fresh := fun _ _ => ⟨rfl, rfl⟩
  lawful := fun _ _ h => by simp at h
  answered := fun _ => rfl
  held := fun _ _ _ h => by simp at h
  queued := fun _ _ h => by simp at h
  single := List.nodup_nil
  unnamed := fun _ _ _ h => by simp at h
  rooted := fun _ _ h => by simp at h

/-- The chains of every world that can be reached are sound. -/
theorem reached_sound (endpoints : Grammar.Endpoints) (standard : List (Plugin.Metadata Attacher))
    (surroundings : Plugin.Surroundings Attacher) (depth : Nat) (moves : List Move) :
    (play (Host.nested endpoints standard surroundings depth) moves {}).Sound :=
  (World.Sound.empty.play (Host.nested_steady endpoints standard surroundings depth) moves).1

end TextPipeline.Pipeline
