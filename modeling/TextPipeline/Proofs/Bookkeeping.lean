import TextPipeline.Proofs.Accounting

/-! Every action keeps an account of the trees that are stored: what transformers do, chains and all that
starts or resumes them, the stages of a pipeline, and the loop. -/

namespace TextPipeline.Pipeline

open TextPipeline.Transform
open TextPipeline.Pipeline.Action
open World (Accounts Account Retains)

/-- An action and what comes after it keep to a relation if they do so where they start. -/
theorem Action.Respects.bind_at {α β : Type} {R : World → World → Prop} [World.Temporal R] {w : World}
    {x : Action α} {f : α → Action β} (hx : R w (x.result w).2)
    (hf : ∀ a v, x.result w = (.ok a, v) → R v ((f a).result v).2) : R w ((x >>= f).result w).2 := by
  rw [result_bind]
  generalize x.result w = done at hx hf ⊢
  obtain ⟨o, v⟩ := done
  cases o with
  | error e => exact hx
  | ok a => exact World.Temporal.trans hx (hf a v rfl)

theorem Action.Reads.run (r : Nat) : Reads (run r) := .get fun w => by
  split
  · exact .pure _
  · exact .throw _

theorem Action.Reads.completion (id : Nat) : Reads (completion id) := .get fun w => by
  split
  · exact .pure _
  · exact .throw _

theorem of_result_run {r : Nat} {x : Run} {w v : World} (h : (run r).result w = (.ok x, v)) :
    w.runs[r]? = some x ∧ v = w := by
  rw [run, result_get_bind] at h
  split at h
  · obtain ⟨ho, rfl⟩ := Prod.mk.inj h
    exact ⟨(Except.ok.inj ho) ▸ ‹_›, rfl⟩
  · cases (Prod.mk.inj h).1

theorem of_result_require {holds : Bool} {f : Fault} {u : Unit} {w v : World}
    (h : (require holds f).result w = (.ok u, v)) : holds = true ∧ v = w := by
  cases holds with
  | true => exact ⟨rfl, (Prod.mk.inj h).2.symm⟩
  | false => cases (Prod.mk.inj h).1

/-- Through a host nothing is done but what keeps an account. -/
structure Host.Accountable (host : Host) : Prop where
  use : ∀ on plugin options, Local (host.use on plugin options)
  apart : ∀ on plugin options, Respects World.Apart (host.use on plugin options)
  process : ∀ P on value, Respects (Accounts P) (host.process on value)
  resume : ∀ P k result, Respects (Accounts P) (host.resume k result)

/-- An action that leads from every world to one with an account, provided that what it is to do leaves
stored trees in place. -/
abbrev Accountable (P : Prop) {α : Type} (x : Action α) : Prop := Respects (Accounts P) x

namespace Accountable

variable {P : Prop} {α : Type} {host : Host} {w : World}

theorem of_local {x : Action α} (hx : Local x) (h : Respects Retains x) : Accountable P x := fun w => by
  have hw := h w
  rw [hx.result w] at hw ⊢
  exact .of_retains hw rfl fun _ hj => .inl hj

theorem pure (a : α) : Accountable P (pure a) := .of_reads (.pure a)

theorem throw (f : Fault) : Accountable P (throw f : Action α) := .of_reads (.throw f)

theorem tell {e : Event} (he : e.ofTrees = false) : Accountable P (tell e) := fun _ => .told he

theorem log (level : Level) (logger text : String) : Accountable P (log level logger text) := tell rfl

theorem logFault (level : Level) (logger words : String) (f : Fault) :
    Accountable P (logFault level logger words f) :=
  of_local (.logFault _ _ _ _) (Retains.logFault _ _ _ _)

theorem run (r : Nat) : Accountable P (run r) := .of_reads (.run r)

theorem completion (id : Nat) : Accountable P (completion id) := .of_reads (.completion id)

theorem file (id : Nat) : Accountable P (file id) := .of_reads fun _ => rfl

theorem require (holds : Bool) (f : Fault) : Accountable P (require holds f) :=
  .ite (pure _) (throw _)

theorem raise (fault : Option Fault) : Accountable P (raise fault) := by
  cases fault with
  | none => exact pure _
  | some f => exact throw f

theorem enqueue {j : Job} (hj : P → j.Docile) : Accountable P (enqueue j) := fun _ => .queued hj

theorem modify {f : World → World} (he : ∀ w, (f w).events = w.events) (hf : ∀ w, (f w).files = w.files)
    (hr : ∀ w, (f w).runs = w.runs) (hj : ∀ w, (f w).jobs = w.jobs) : Accountable P (modify f) := fun w =>
  .of_eq (he w) (hf w) (hr w) fun _ h => hj w ▸ h

theorem changeRun (r : Nat) {f : Run → Run} (hf : ∀ x, (f x).file = x.file)
    (ho : ∀ x, (f x).outcome = x.outcome) : Accountable P (changeRun r f) := fun _ => .noted hf ho

theorem emit (watcher : Option Watcher) (p : Progress) : Accountable P (emit watcher p) :=
  of_local (.emit _ _) (Retains.emit _ _)

theorem tellFailed (watcher : Option Watcher) (f : Fault) : Accountable P (tellFailed watcher f) :=
  of_local (.tellFailed _ _) (Retains.tellFailed _ _)

theorem tellAll (records : List LogRecord) :
    Accountable P (records.forM fun record => Action.tell (.log record)) :=
  .forM (fun _ => tell rfl) records

theorem withStore (x : StateM Store α) : Accountable P (withStore x) := of_local (.withStore x) (.withStore x)

/-! ### What transformers do -/

theorem goOn (hh : host.Accountable) (k : Resumption) (result : Resolution) :
    Accountable P (goOn host k result) := by
  refine .bind (run _) fun _ => .get fun _ => .ite (hh.resume P k result) ?_
  exact .bind (log _ _ _) fun _ => enqueue fun _ => trivial

theorem resolve (hh : host.Accountable) (id : Nat) (result : Resolution) :
    Accountable P (resolve host id result) := by
  refine .bind (completion id) fun c => .bind (.of_reads (.ofOutcome _)) fun resolved => ?_
  cases resolved with
  | none => exact log _ _ _
  | some resolved =>
    exact .bind (modify (fun _ => rfl) (fun _ => rfl) (fun _ => rfl) fun _ => rfl) fun _ =>
      .bind (tell rfl) fun _ => .forM (fun k => goOn hh k result) _

theorem next (hh : host.Accountable) (id : Nat) (error tree : Value) :
    Accountable P (next host id error tree) :=
  .bind (completion id) fun _ => .get fun _ => .bind (.of_reads (.ofOutcome _)) fun _ =>
    .bind (withStore _) fun _ => resolve hh id _

theorem scene_next (hh : host.Accountable) (scene : Scene) (error tree : Argument) :
    Accountable P (scene.next host error tree) :=
  .bind (.of_reads (.argument _)) fun _ => .bind (.of_reads (.argument _)) fun _ =>
    .bind (require _ _) fun _ => next hh _ _ _

theorem saveNext (scene : Scene) (id : String) : Accountable P (scene.saveNext id) := by
  refine .bind (.ite (.bind (completion _) fun _ => pure _) (pure _)) fun way => ?_
  exact modify (fun _ => rfl) (fun _ => rfl) (fun _ => rfl) fun _ => rfl

theorem callNext (hh : host.Accountable) (id : String) (error tree : Value) :
    Accountable P (callNext host id error tree) := by
  refine .get fun w => ?_
  split
  · exact next hh _ _ _
  · exact throw _
  · exact throw _

theorem passing (guarded : Bool) {pass : Action Unit} (h : Accountable P pass) :
    Accountable P (passing guarded pass) := by
  refine .ite (.bind (.attempt h) fun o => ?_) h
  cases o with
  | ok _ => exact tell rfl
  | error f => exact .ite (tell rfl) (throw _)

/-- A change of a tree and its file that leaves stored trees in place, and what comes after it. -/
theorem change {scene : Scene} {f : Sight → Value → File → Change} (hf : P → (Act.change f).Docile)
    {rest : Action α} (hrest : Accountable P rest) :
    Accountable P (do
      let c := f (← get).sight (← content scene.tree) (← Action.file scene.file)
      let _ ← Action.withStore (Store.change (fun _ => c.tree) scene.tree)
      setFile scene.file c.file
      c.records.forM fun record => Action.tell (.log record)
      Action.raise c.fault
      rest) := fun w => by
  refine Reads.then_at (R := Accounts P) (x := MonadState.get) (fun _ => rfl) fun s _ => ?_
  refine (Reads.content scene.tree).then_at fun tree _ => ?_
  refine Reads.then_at (x := Action.file scene.file) (fun _ => rfl) fun held hheld => ?_
  obtain rfl : w.files.getD scene.file File.empty = held := Except.ok.inj (Prod.mk.inj hheld).1
  generalize hc : f s.sight tree (w.files.getD scene.file File.empty) = c
  have hplaced (v : World) (hv : v.files = w.files) :
      v.Accounts P ((setFile scene.file c.file).result v).2 := by
    refine .placed fun hP name => ?_
    rw [← hc, hf hP, World.treeOf, hv]
  have hstore := withStore (P := P) (Store.change (fun _ => c.tree) scene.tree) w
  dsimp only
  rw [result_bind_ok (x := Action.withStore (Store.change (fun _ => c.tree) scene.tree)) rfl]
  exact World.Temporal.trans hstore <| Respects.bind_at (hplaced _ rfl) fun _ v _ =>
    Respects.bind (tellAll _) (fun _ => .bind (raise _) fun _ => hrest) v

/-- Whatever a transformer does keeps an account, if its steps leave stored trees in place. -/
theorem perform (hh : host.Accountable) (scene : Scene) (waits : Bool) (acts : List Act)
    (hacts : P → ∀ a ∈ acts, a.Docile) : Accountable P (perform host scene waits acts) := by
  induction acts with
  | nil => exact pure _
  | cons act rest ih =>
    have ih := ih fun hP a ha => hacts hP a (List.mem_cons_of_mem _ ha)
    cases act with
    | change f => exact change (fun hP => hacts hP _ List.mem_cons_self) ih
    | mapLiterals type f records =>
      exact .bind (withStore _) fun _ => .bind (raise _) fun _ => .bind (tellAll _) fun _ => ih
    | observe label f =>
      exact .bind (.of_reads (.reveal _)) fun _ => .bind (file _) fun _ =>
        .bind (.of_reads (.ofOutcome _)) fun _ => .bind (tell rfl) fun _ => ih
    | log record => exact .bind (tell rfl) fun _ => ih
    | next guarded error tree => exact .bind (passing _ (scene_next hh _ _ _)) fun _ => ih
    | saveNext id => exact .bind (saveNext scene id) fun _ => ih
    | callNext guarded id error tree =>
      exact .bind (passing _ (.bind (.of_reads (.argument _)) fun _ => .bind (.of_reads (.argument _))
        fun _ => callNext hh _ _ _)) fun _ => ih
    | laterNext threaded error tree =>
      exact .bind (.of_reads (.argument _)) fun _ => .bind (.of_reads (.argument _)) fun _ =>
        .get fun _ => .bind (require _ _) fun _ =>
        .bind (.ite (enqueue fun _ => trivial) (pure _)) fun _ => ih
    | use name plugin options =>
      exact .bind (.of_reads (.named _)) fun _ => .get fun _ => .bind (.of_reads (.ofOutcome _)) fun _ =>
        .bind (.of_reads (.argument _)) fun _ =>
        .bind (of_local (hh.use _ _ _) (.of_apart (hh.apart _ _ _))) fun _ => ih
    | process name value =>
      exact .bind (.of_reads (.named _)) fun _ => .bind (.of_reads (.argument _)) fun _ =>
        .bind (hh.process P _ _) fun _ => .bind (tell rfl) fun _ => ih
    | sleep => exact .ite (pure _) ih
    | raise f => exact throw f
    | give v =>
      exact .bind (.of_reads (.argument _)) fun _ => .bind (withStore _) fun _ => pure _
    | giveReport reason =>
      intro w
      refine Reads.then_at (x := Action.file scene.file) (fun _ => rfl) fun held hheld => ?_
      obtain rfl : w.files.getD scene.file File.empty = held := Except.ok.inj (Prod.mk.inj hheld).1
      refine (Reads.argument reason).then_at fun reason _ => ?_
      cases hreport : (w.files.getD scene.file File.empty).report .warning reason .none .none with
      | error f => exact World.Temporal.refl w
      | ok reported =>
        exact World.Accounts.placed fun _ name => File.report_treeOf hreport name
    | giveAwaitable => exact pure _

theorem performAll (hh : host.Accountable) (scene : Scene) {t : Transformer} (ht : P → t.Docile) :
    Accountable P (performAll host scene t) := by
  refine .bind (.of_reads (.reveal _)) fun tree => .bind (file _) fun f =>
    .bind (perform hh scene false _ fun hP => ht hP tree f) fun r => ?_
  cases r <;> exact pure _

theorem call (hh : host.Accountable) (scene : Scene) {t : Transformer} (ht : P → t.Docile) :
    Accountable P (call host scene t) := by
  unfold Pipeline.call
  split
  · exact pure _
  · exact pure _
  · exact pure _
  · refine .bind (.attempt (performAll hh scene ht)) fun r => ?_
    cases r with
    | ok v => exact pure _
    | error f => exact .ite (pure _) (throw _)
  · refine .bind (.ite (tell rfl) (pure _)) fun _ => .bind (performAll hh scene ht) fun v => ?_
    split <;> exact pure _

end Accountable

/-- Whatever an action comes to has a property. -/
def Returns {α : Type} (Q : α → Prop) (x : Action α) : Prop := ∀ w v a, x.result w = (.ok a, v) → Q a

namespace Returns

variable {α β : Type} {Q : β → Prop}

theorem pure {b : β} (h : Q b) : Returns Q (pure b) := fun _ _ _ hr =>
  Except.ok.inj (Prod.mk.inj hr).1 ▸ h

theorem throw (f : Fault) : Returns Q (throw f : Action β) := fun _ _ _ hr => by cases (Prod.mk.inj hr).1

theorem bind {x : Action α} {f : α → Action β} (hf : ∀ a, Returns Q (f a)) : Returns Q (x >>= f) :=
  fun w v b h => by
    obtain ⟨a, u, -, h⟩ := of_result_bind_ok h
    exact hf a u v b h

theorem ite {c : Prop} [Decidable c] {x y : Action β} (hx : Returns Q x) (hy : Returns Q y) :
    Returns Q (if c then x else y) := by
  split
  · exact hx
  · exact hy

/-- The steps that are left after a pause are the last ones. -/
theorem perform (host : Host) (scene : Scene) (waits : Bool) (acts : List Act) :
    Returns (fun r => ∀ rest, r = .inr rest → rest <:+ acts) (perform host scene waits acts) := by
  induction acts with
  | nil => exact pure nofun
  | cons act acts ih =>
    have ih : Returns (fun r => ∀ rest, r = .inr rest → rest <:+ act :: acts)
        (Pipeline.perform host scene waits acts) := fun w v r h rest hrest =>
      (ih w v r h rest hrest).trans (List.suffix_cons _ _)
    cases act with
    | change f =>
      exact bind fun _ => bind fun _ => bind fun _ => bind fun _ => bind fun _ => bind fun _ =>
        bind fun _ => ih
    | mapLiterals type f records => exact bind fun _ => bind fun _ => bind fun _ => ih
    | observe label f => exact bind fun _ => bind fun _ => bind fun _ => bind fun _ => ih
    | log record => exact bind fun _ => ih
    | next guarded error tree => exact bind fun _ => ih
    | saveNext id => exact bind fun _ => ih
    | callNext guarded id error tree => exact bind fun _ => ih
    | laterNext threaded error tree =>
      exact bind fun _ => bind fun _ => bind fun _ => bind fun _ => bind fun _ => ih
    | use name plugin options =>
      exact bind fun _ => bind fun _ => bind fun _ => bind fun _ => bind fun _ => ih
    | process name value => exact bind fun _ => bind fun _ => bind fun _ => bind fun _ => ih
    | sleep =>
      refine ite (pure ?_) ih
      rintro rest ⟨⟩
      exact List.suffix_cons _ _
    | raise f => exact throw f
    | give v => exact bind fun _ => bind fun _ => pure nofun
    | giveReport reason => exact bind fun _ => bind fun _ => bind fun _ => bind fun _ => pure nofun
    | giveAwaitable => exact pure nofun

/-- The steps of a task that leaves stored trees in place. -/
theorem acts {t : Task} (ht : t.Docile) : Returns (fun acts => ∀ a ∈ acts, a.Docile) t.acts := by
  obtain ⟨scene, rest⟩ := t
  cases rest with
  | inl program => exact bind fun tree => bind fun f => pure (ht tree f)
  | inr acts => exact pure ht

/-- What a call leaves to be done is what the transformer does. -/
theorem call (host : Host) (scene : Scene) {t : Transformer} (ht : t.Docile) :
    Returns (fun answer => ∀ task, answer = .later task → task.Docile) (call host scene t) := by
  unfold Pipeline.call
  split
  · exact pure nofun
  · refine pure ?_
    rintro task ⟨⟩
    exact ht
  · refine pure ?_
    rintro task ⟨⟩
    exact ht
  · refine bind fun o => ?_
    cases o with
    | ok v => exact pure nofun
    | error f => exact ite (pure nofun) (throw _)
  · refine bind fun _ => bind fun v => ?_
    split
    · refine pure ?_
      rintro task ⟨⟩
      exact fun a ha => nomatch ha
    · exact pure nofun

end Returns

namespace Accountable

variable {P : Prop} {α : Type} {host : Host} {w : World}

/-! ### Chains -/

theorem tellRan (k : Callback) (error : Option Fault) (tree : Value) (id : Nat) :
    Accountable P (tellRan k error tree id) :=
  .get fun _ => .bind (tell rfl) fun _ => raise _

theorem tellProcessed (receiver : TextReceiver) (error : Option Fault) (text : Value) (id : Nat) :
    Accountable P (tellProcessed receiver error text id) := by
  cases receiver with
  | callback k => exact .get fun _ => .bind (tell rfl) fun _ => raise _
  | silent k => exact raise _
  | future future => exact enqueue fun _ => trivial

theorem fail (watcher : Option Watcher) (receiver : TextReceiver) (f : Fault) (id : Nat) :
    Accountable P (fail watcher receiver f id) :=
  .bind (file id) fun _ => .bind (logFault _ _ _ _) fun _ => .bind (tellFailed _ _) fun _ =>
    tellProcessed _ _ _ _

theorem compile (r : Nat) (c : Compilation) (error : Option Fault) (tree : Value) :
    Accountable P (compile host r c error tree) := by
  cases error with
  | some f => exact fail _ _ _ _
  | none =>
    refine .bind (emit _ _) fun _ =>
      .bind (.attempt (of_local (.stringify host _ _ _ _) (Retains.stringify _ _ _ _))) fun o => ?_
    cases o with
    | error f => exact .ite (fail _ _ _ _) (throw _)
    | ok text =>
      exact .bind (emit _ _) fun _ => .bind (of_local (.complete _ _ _) (Retains.complete _ _ _)) fun _ =>
        .bind (changeRun _ (fun _ => rfl) fun _ => rfl) fun _ => tellProcessed _ _ _ _

theorem receive (r file : Nat) (receiver : TreeReceiver) (error : Option Fault) (tree : Value) :
    Accountable P (receive host r file receiver error tree) := by
  cases receiver with
  | callback k => exact tellRan _ _ _ _
  | future future => exact enqueue fun _ => trivial
  | compilation c => exact compile _ _ _ _

/-- A tree is stored that is one, or with which a chain ended. -/
theorem storing {id : Nat} {name : String} {tree : Value}
    (hground : w.Kept → tree.isNode = true ∨ ∃ r, (none, tree) ∈ deliveries r w.events) {rest : Action α}
    (hrest : Accountable P rest) :
    w.Accounts P ((do storeTree id name tree; Action.tell (.produced name id tree); rest).result w).2 := by
  have hstore : (storeTree id name tree).result w =
      ((do setFile id (← (liftM (File.store (w.files.getD id File.empty) (.str name) treeKey tree) :
        Action File)) : Action Unit)).result w := rfl
  rw [result_bind, hstore]
  cases hg : (w.files.getD id File.empty).store (.str name) treeKey tree with
  | error f => exact World.Temporal.refl w
  | ok g =>
    have hstored := World.Accounts.stored (P := P) hg hground
    exact World.Temporal.trans (R := Accounts P) ⟨_, hstored⟩ (hrest _)

/-- The tree of a run is stored that has come to it. -/
theorem settle (r file : Nat) (name : String) {error : Option Fault} {tree : Value}
    (hground : (error, tree) ∈ deliveries r w.events) :
    w.Accounts P ((settle r file name error tree).result w).2 := by
  unfold Pipeline.settle
  split
  · rename_i h
    obtain rfl : error = none := by
      cases error with
      | none => rfl
      | some f => cases h
    exact storing (fun _ => .inr ⟨r, hground⟩) (changeRun _ (fun _ => rfl) fun _ => rfl)
  · exact World.Temporal.refl w

theorem deliver (r : Nat) (delivery : Delivery) (error : Option Fault) (tree : Value) :
    Accountable P (deliver host r delivery error tree) := fun w => by
  refine (Reads.run r).then_at fun x hx => ?_
  cases delivery with
  | kept => exact World.Accounts.ended r error tree
  | callback k => exact Respects.bind (tell rfl) (fun _ => tellRan _ _ _ _) w
  | stored name receiver =>
    refine Respects.bind_at (tell rfl w) fun _ v hv => ?_
    obtain ⟨-, rfl⟩ := Prod.mk.inj hv
    refine Respects.bind_at (settle _ _ _ ?_) fun _ u _ => receive r x.file receiver error tree u
    simp

theorem schedule (hh : host.Accountable) (id : Nat) (name : String) {job : Job} (hj : P → job.Docile) :
    Accountable P (schedule host id name job) :=
  .get fun _ => .ite (resolve hh _ _) (enqueue hj)

theorem conclude (hh : host.Accountable) (id : Nat) (t : Transformer) {answer : Outcome Answer}
    (ha : ∀ task, answer = .ok (.later task) → P → task.Docile) :
    Accountable P (conclude host id t answer) := by
  cases answer with
  | error f => exact .bind (completion _) fun _ => .bind (require _ _) fun _ => resolve hh _ _
  | ok answer =>
    refine .ite (pure _) ?_
    cases answer with
    | value v => exact resolve hh _ _
    | later task => exact schedule hh _ _ (ha task rfl)
    | settled s => exact schedule hh _ _ fun _ => trivial

theorem apply (hh : host.Accountable) (x : Run) (index : Nat) {t : Transformer} (ht : P → t.Docile)
    (tree : Value) (id : Nat) : Accountable P (apply host x index t tree id) :=
  .bind (log _ _ _) fun _ w => by
    refine Respects.bind_at (Respects.attempt (call hh _ ht) w) fun answer v hanswer => ?_
    refine conclude hh id t (fun task htask hP => ?_) v
    obtain ⟨ho, rfl⟩ := Prod.mk.inj hanswer
    exact Returns.call host _ (ht hP) w _ _ (Prod.ext ((Except.ok.inj ho).trans htask) rfl) task rfl

/-- A step is called. That it leaves stored trees in place is known from the call. -/
theorem invoke (hh : host.Accountable) {r : Nat} {x : Run} (hx : w.runs[r]? = some x) (index : Nat)
    (t : Transformer) (tree : Value) : w.Accounts P ((invoke host r x index t tree).result w).2 := by
  rw [result_invoke]
  obtain ⟨es, happly⟩ := apply (P := t.Docile) hh x index id tree w.completions.length
    (w.calling r x index t tree)
  have hcalled := World.Accounts.called (P := P) hx index t tree
  exact ⟨_, hcalled.trans_of happly fun _ _ hdocile => hdocile _ (List.mem_singleton_self _)⟩

theorem setCompletion (id : Nat) (c : Completion Resolution Resumption Empty) :
    Accountable P (setCompletion id c) :=
  modify (fun _ => rfl) (fun _ => rfl) (fun _ => rfl) fun _ => rfl

theorem failStep (r : Nat) (delivery : Delivery) (name : String) (f : Fault) (tree : Value) :
    Accountable P (failStep host r delivery name f tree) :=
  .bind (logFault _ _ _ _) fun _ => deliver _ _ _ _

theorem drive (hh : host.Accountable) (r : Nat) (delivery : Delivery) (sync : Bool)
    (rest : List Transformer) (index : Nat) (tree : Value) :
    Accountable P (drive host r delivery sync rest index tree) := by
  induction rest generalizing index tree with
  | nil => exact .bind (log _ _ _) fun _ => deliver _ _ _ _
  | cons t rest ih =>
    intro w
    refine (Reads.run r).then_at fun x hx => ?_
    refine Respects.bind_at (invoke hh (of_result_run hx).1 _ _ _) fun id v _ => ?_
    refine Respects.bind (completion id) (fun c => ?_) v
    split
    · split
      · exact failStep _ _ _ _ _
      · exact .bind (emit _ _) fun _ => ih _ _
    · refine .ite (.bind (setCompletion _ _) fun _ => .bind (log _ _ _) fun _ => deliver _ _ _ _) ?_
      exact .bind (log _ _ _) fun _ => setCompletion _ _

theorem resume (hh : host.Accountable) (k : Resumption) (result : Resolution) :
    Accountable P (resume host k result) := by
  refine .bind (run _) fun x => ?_
  dsimp only
  split
  · exact failStep _ _ _ _ _
  · exact .bind (emit _ _) fun _ => drive hh _ _ _ _ _ _

theorem start (hh : host.Accountable) (steps : List Transformer) (watcher : Option Watcher) (tree : Value)
    (id : Nat) (delivery : Delivery) : Accountable P (start host steps watcher tree id delivery) := fun w => by
  rw [result_start]
  have hstarted : w.Accounts P (w.starting steps watcher tree id) :=
    World.Temporal.trans (.told rfl) (.started (w.nextRun steps watcher tree id) rfl)
  exact World.Temporal.trans hstarted (drive hh _ _ _ _ _ _ _)

end Accountable

/-- The end of a chain that must not wait is kept. -/
theorem outcome_of_drive {host : Host} {r : Nat} {rest : List Transformer} {index : Nat} {tree : Value}
    {w v : World} (h : (drive host r .kept true rest index tree).result w = (.ok (), v)) :
    ∃ x : Run, v.runs[r]? = some x ∧ x.outcome ≠ none := by
  have hdeliver {error : Option Fault} {tree : Value} {u : World}
      (h : (deliver host r .kept error tree).result u = (.ok (), v)) :
      ∃ x : Run, v.runs[r]? = some x ∧ x.outcome ≠ none := by
    obtain ⟨x, z, hrun, -⟩ := of_result_bind_ok h
    obtain ⟨hx, -⟩ := of_result_run hrun
    rw [result_deliver_kept error tree hx] at h
    obtain ⟨-, rfl⟩ := Prod.mk.inj h
    refine ⟨x.keep error tree, by rw [World.runs_ended, List.getElem?_modify_eq, hx]; rfl, ?_⟩
    cases hout : x.outcome <;> simp [Run.keep, hout]
  induction rest generalizing index tree w with
  | nil =>
    obtain ⟨-, u, -, h⟩ := of_result_bind_ok h
    exact hdeliver h
  | cons t rest ih =>
    obtain ⟨x, u, -, h⟩ := of_result_bind_ok h
    obtain ⟨id, u, -, h⟩ := of_result_bind_ok h
    obtain ⟨c, u, -, h⟩ := of_result_bind_ok h
    split at h
    · split at h
      · obtain ⟨-, u, -, h⟩ := of_result_bind_ok h
        exact hdeliver h
      · obtain ⟨-, u, -, h⟩ := of_result_bind_ok h
        exact ih h
    · obtain ⟨-, u, -, h⟩ := of_result_bind_ok h
      obtain ⟨-, u, -, h⟩ := of_result_bind_ok h
      exact hdeliver h

/-- The tree of a chain that must not wait is the one that it ended with. -/
theorem outcome_of_runChain {host : Host} {steps : List Transformer} {watcher : Option Watcher}
    {tree final : Value} {id : Nat} {w v : World}
    (h : (runChain host steps watcher tree id).result w = (.ok final, v)) :
    ∃ (r : Nat) (x : Run), v.runs[r]? = some x ∧ x.outcome = some (none, final) := by
  obtain ⟨r, u, hstart, hread⟩ := of_result_bind_ok h
  obtain ⟨x, z, hrun, hkept⟩ := of_result_bind_ok hread
  obtain ⟨hx, rfl⟩ := of_result_run hrun
  have hout : x.outcome ≠ none := by
    rw [result_start] at hstart
    generalize hdone : (drive host w.runs.length .kept _ steps 0 tree).result _ = done at hstart
    obtain ⟨o, y⟩ := done
    cases o with
    | error f => cases (Prod.mk.inj hstart).1
    | ok _ =>
      obtain ⟨hr, rfl⟩ := Prod.mk.inj hstart
      obtain rfl := Except.ok.inj hr
      obtain ⟨x', hx', hout⟩ := outcome_of_drive hdone
      rwa [Option.some.inj (hx.symm.trans hx')]
  split at hkept
  · rename_i hfinal
    obtain ⟨ho, rfl⟩ := Prod.mk.inj hkept
    obtain rfl := Except.ok.inj ho
    exact ⟨r, x, hx, hfinal⟩
  · cases (Prod.mk.inj hkept).1
  · exact absurd ‹_› hout

namespace Accountable

variable {P : Prop} {α : Type} {host : Host} {w : World}

/-! ### Processors -/

theorem runChain (hh : host.Accountable) (steps : List Transformer) (watcher : Option Watcher)
    (tree : Value) (id : Nat) : Accountable P (runChain host steps watcher tree id) := by
  refine .bind (start hh _ _ _ _ _) fun r => .bind (run r) fun x => ?_
  split
  · exact pure _
  · exact throw _
  · exact pure _

theorem startTree (id : Nat) (name : String) (tree : Value) : Accountable P (startTree id name tree) :=
  of_local (.startTree _ _ _) (Retains.startTree _ _ _)

/-- The tree of a run that succeeds is stored. -/
theorem runTree (hh : host.Accountable) (p : Nat) (tree : Value) (id : Nat) (watcher : Option Watcher) :
    Accountable P (runTree host p tree id watcher) :=
  .bind (.of_reads (.processor _)) fun _ => .bind (startTree _ _ _) fun _ w => by
    refine Respects.bind_at (runChain hh _ _ _ _ w) fun final v hfinal => storing (fun hv => .inr ?_) (pure _)
    obtain ⟨r, x, hx, hout⟩ := outcome_of_runChain hfinal
    exact ⟨r, hv r x _ hx hout⟩

theorem tellNoTree (receiver : TreeReceiver) (f : Fault) (id : Nat) :
    Accountable P (tellNoTree receiver f id) := by
  cases receiver with
  | callback k => exact tellRan _ _ _ _
  | future future => exact enqueue fun _ => trivial
  | compilation c => exact fail _ _ _ _

theorem runTreeFor (hh : host.Accountable) (p : Nat) (tree : Value) (id : Nat) (watcher : Option Watcher)
    (receiver : TreeReceiver) : Accountable P (runTreeFor host p tree id watcher receiver) := by
  refine .bind (.of_reads (.processor _)) fun q => .bind (.attempt (startTree _ _ _)) fun o => ?_
  cases o with
  | error f => exact .bind (require _ _) fun _ => .bind (tellNoTree _ _ _) fun _ => pure _
  | ok first => exact .bind (start hh _ _ _ _ _) fun r => pure _

/-- The tree that a file is read into is stored. -/
theorem parseFile (p id : Nat) (settings : Value) : Accountable P (parseFile host p id settings) := by
  refine .bind (.of_reads (.processor p)) fun q => .bind (require _ _) fun _ => .bind (file id) fun _ =>
    .bind (log _ _ _) fun _ =>
    .bind (of_local (.readWith host p _ _ _) (Retains.readWith p _ _ _)) fun tree w => ?_
  refine Respects.bind_at (require _ _ w) fun _ v hv => ?_
  obtain ⟨hnode, rfl⟩ := of_result_require hv
  refine Respects.bind_at (withStore _ v) fun shared u hu => storing (fun _ => .inl ?_) (pure _)
  obtain ⟨ho, -⟩ := Prod.mk.inj hu
  rw [← Except.ok.inj ho]
  exact World.handed_isNode v hnode

theorem processFile (hh : host.Accountable) (p id : Nat) (settings : Value) (watcher : Option Watcher) :
    Accountable P (processFile host p id settings watcher) :=
  .bind (of_local (.requireEndpoints _) (Retains.requireEndpoints _)) fun _ =>
    .bind (parseFile _ _ _) fun _ => .bind (emit _ _) fun _ =>
    .bind (runTree hh _ _ _ _) fun _ => .bind (emit _ _) fun _ =>
    .bind (of_local (.stringify host _ _ _ _) (Retains.stringify _ _ _ _)) fun _ => .bind (emit _ _) fun _ =>
    pure _

theorem processText (hh : host.Accountable) (p : Nat) (value settings : Value) (watcher : Option Watcher) :
    Accountable P (processText host p value settings watcher) := by
  refine .bind (of_local (.toFile _) (Retains.toFile _)) fun id => .bind (file id) fun f =>
    .bind (emit _ _) fun _ => .bind (.attempt (processFile hh p id settings watcher)) fun o => ?_
  cases o with
  | ok text => exact .bind (of_local (.complete _ _ _) (Retains.complete _ _ _)) fun _ => pure _
  | error f => exact .ite (.bind (tellFailed _ _) fun _ => throw _) (throw _)

theorem processTextFor (hh : host.Accountable) (p : Nat) (value settings : Value)
    (watcher : Option Watcher) (receiver : TextReceiver) :
    Accountable P (processTextFor host p value settings watcher receiver) := by
  refine .bind (.attempt (of_local (.toFile _) (Retains.toFile _))) fun o => ?_
  cases o with
  | error f =>
    exact .bind (require _ _) fun _ => .bind (of_local (.addFile _) (Retains.addFile _)) fun _ =>
      .bind (fail _ _ _ _) fun _ => pure _
  | ok id =>
    refine .bind (.attempt (.bind (file _) fun _ => .bind (emit _ _) fun _ =>
      .bind (of_local (.requireEndpoints _) (Retains.requireEndpoints _)) fun _ => parseFile _ _ _)) fun o => ?_
    cases o with
    | error f => exact .bind (require _ _) fun _ => .bind (fail _ _ _ _) fun _ => pure _
    | ok tree =>
      refine .bind (emit _ _) fun _ => .bind (runTreeFor hh _ _ _ _ _) fun r => ?_
      cases r with
      | none => exact pure _
      | some r => exact .bind (run r) fun _ => pure _

end Accountable

/-- At any depth of pipelines within one another an account is kept. -/
theorem Host.nested_accountable (endpoints : Grammar.Endpoints)
    (standard : List (Plugin.Metadata Attacher)) (surroundings : Plugin.Surroundings Attacher)
    (depth : Nat) : (Host.nested endpoints standard surroundings depth).Accountable := by
  have hsteady := Host.nested_steady endpoints standard surroundings
  have happart := World.Apart.nested endpoints standard surroundings
  induction depth with
  | zero =>
    exact ⟨(hsteady 0).use, happart 0, fun _ _ _ => Accountable.throw _, fun _ _ _ => Accountable.throw _⟩
  | succ depth ih =>
    refine ⟨(hsteady (depth + 1)).use, happart (depth + 1), fun P on value => ?_, fun P k result => ?_⟩
    · exact .bind (Accountable.of_local (.processorFor (hsteady depth).use on)
        (.of_apart (.processorFor (happart depth) on))) fun _ => Accountable.processText ih _ _ _ _
    · exact Pipeline.Accountable.resume ih k result

/-- What is done from outside leaves stored trees in place, apart from what it runs. -/
def Move.Docile : Move → Prop
  | .change f => ∀ c : Core, c.files.length ≤ (f c).files.length ∧ ∀ file < c.files.length, ∀ name,
      ((f c).files.getD file File.empty).treeOf name = (c.files.getD file File.empty).treeOf name
  | _ => True

namespace Accountable

variable {P : Prop} {α : Type} {host : Host} {w : World}

/-! ### The loop, and what is done from outside -/

/-- What waits on the loop leaves stored trees in place. -/
theorem dequeue_bind {f : Option Job → Action α} (hnone : Accountable P (f none))
    (hsome : ∀ j : Job, Accountable j.Docile (f (some j))) : Accountable P (dequeue >>= f) := fun w => by
  cases hj : w.jobs with
  | nil =>
    rw [result_bind_ok (result_dequeue_nil hj)]
    exact hnone w
  | cons j rest =>
    rw [result_bind_ok (result_dequeue_cons hj)]
    have htaken : w.Accounts P { w with jobs := rest } :=
      .of_eq rfl rfl rfl fun i hi => hj ▸ List.mem_cons_of_mem _ hi
    exact htaken.trans_of (hsome j _) fun _ hw => hw j (hj ▸ List.mem_cons_self)

theorem addFuture : Accountable P addFuture := fun _ => .of_eq rfl rfl rfl fun _ h => h

theorem settleFuture (id : Nat) (result : Outcome Value) : Accountable P (settleFuture id result) := fun w => by
  rw [Pipeline.settleFuture, result_get_bind]
  split
  · have hset : w.Accounts P { w with futures := w.futures.set id (some result) } :=
      .of_eq rfl rfl rfl fun _ h => h
    refine Respects.bind_at (x := set _) hset fun _ v _ => enqueue ?_ v
    exact fun _ => trivial
  · exact pure _ w

theorem acts (t : Task) : Accountable P t.acts := by
  unfold Task.acts
  split
  · exact .bind (.of_reads (.reveal _)) fun _ => .bind (file _) fun _ => pure _
  · exact pure _

/-- More of a task is carried out that leaves stored trees in place. -/
theorem proceed (hh : host.Accountable) {t : Task} (ht : P → t.Docile) : Accountable P (proceed host t) :=
  fun w => by
  refine Respects.bind_at (acts t w) fun acts v hacts => ?_
  have hdocile (hP : P) : ∀ a ∈ acts, a.Docile := Returns.acts (ht hP) w v acts hacts
  refine Respects.bind_at (Respects.attempt (perform hh t.scene true acts hdocile) v) fun o u ho => ?_
  obtain ⟨ho, -⟩ := Prod.mk.inj ho
  have hrest (rest : List Act) (hr : o = .ok (.inr rest)) : rest <:+ acts :=
    Returns.perform host t.scene true acts v _ _ (Prod.ext ((Except.ok.inj ho).trans hr) rfl) rest rfl
  split
  · refine enqueue ?_ u
    exact fun _ => trivial
  · refine enqueue ?_ u
    exact fun hP a ha => hdocile hP a ((hrest _ rfl).subset ha)
  · split
    all_goals
      refine enqueue ?_ u
      exact fun _ => trivial

theorem advance (hh : host.Accountable) {t : Task} (ht : P → t.Docile) : Accountable P (advance host t) :=
  .bind (completion _) fun _ => .ite (pure _) (proceed hh ht)

theorem processorFor (hh : host.Accountable) (on : Value) : Accountable P (processorFor host on) :=
  of_local (.processorFor hh.use on) (.of_apart (.processorFor hh.apart on))

theorem startCall (hh : host.Accountable) (future : Nat) (c : Call) :
    Accountable P (startCall host future c) := by
  cases c with
  | run on tree given watcher =>
    exact .bind (processorFor hh on) fun _ => .bind (of_local (.toFile _) (Retains.toFile _)) fun _ =>
      .bind (runTreeFor hh _ _ _ _ _) fun _ => pure _
  | process on value settings watcher =>
    exact .bind (processorFor hh on) fun _ => .bind (processTextFor hh _ _ _ _ _) fun _ => pure _

theorem work (hh : host.Accountable) {j : Job} (hj : P → j.Docile) : Accountable P (work host j) := by
  unfold Pipeline.work
  cases j with
  | advance t => exact advance hh hj
  | settle id s => exact .bind (completion id) fun _ => .ite (pure _) (resolve hh _ _)
  | resume k result => exact resume hh k result
  | next threaded id error tree =>
    have hthread (threaded : Bool) :
        Accountable P (MonadStateOf.modifyGet fun w : World => ((), { w with threaded := threaded })) :=
      modify (fun _ => rfl) (fun _ => rfl) (fun _ => rfl) fun _ => rfl
    exact .bind (hthread threaded) fun _ => .bind (.attempt (next hh id error tree)) fun _ =>
      .bind (hthread false) fun _ => .of_reads (.ofOutcome _)
  | deliver future result => exact settleFuture _ _
  | wake _ => exact pure _
  | start call future =>
    refine .bind (.attempt (startCall hh future call)) fun o => ?_
    cases o with
    | ok _ => exact pure _
    | error f => exact settleFuture _ _

theorem settleAll (hh : host.Accountable) (fuel : Nat) : Accountable P (settleAll host fuel) := by
  induction fuel generalizing P with
  | zero => exact pure _
  | succ fuel ih => exact dequeue_bind (pure _) fun j => .bind (.attempt (work hh id)) fun _ => ih

theorem waitFor (hh : host.Accountable) (future fuel : Nat) : Accountable P (waitFor host future fuel) := by
  induction fuel generalizing P with
  | zero => exact pure _
  | succ fuel ih =>
    refine dequeue_bind (pure _) fun j => ?_
    have hwork : Accountable j.Docile (Action.attempt (Pipeline.work host j) >>= fun _ =>
        Pipeline.waitFor host future fuel) :=
      .bind (.attempt (work hh id)) fun _ => ih
    cases j with
    | wake id => exact .ite (pure _) ih
    | _ => exact hwork

theorem await (hh : host.Accountable) (c : Call) : Accountable P (await host c) := by
  have hcall (future : Nat) : Accountable P (Pipeline.awaitCall host c future) :=
    .get fun w => .ite (.bind (startCall hh future c) fun _ => waitFor hh _ _) <|
      .bind (modify (fun _ => rfl) (fun _ => rfl) (fun _ => rfl) fun _ => rfl) fun _ =>
      .bind (enqueue fun _ => trivial) fun _ => .bind (waitFor hh _ _) fun _ =>
      .bind (settleAll hh _) fun _ =>
      modify (fun _ => rfl) (fun _ => rfl) (fun _ => rfl) fun _ => rfl
  refine .bind addFuture fun future => .bind (hcall future) fun _ => .bind (.of_reads fun _ => rfl) fun o => ?_
  cases o with
  | some o => exact .of_reads (.ofOutcome _)
  | none => exact throw _

/-- What is done from outside keeps an account, if it leaves stored trees in place apart from what it
runs. -/
theorem act (hh : host.Accountable) {m : Move} (hm : m.Docile) : Accountable P (m.act host) := by
  have hfile (value : Value) : Accountable P (toFile value) := of_local (.toFile _) (Retains.toFile _)
  cases m with
  | change f =>
    exact fun w => .of_retains ⟨(hm w.core).1, (hm w.core).2, [], (List.append_nil _).symm, by simp⟩ rfl
      fun _ hj => .inl hj
  | rename id name => exact modify (fun _ => rfl) (fun _ => rfl) (fun _ => rfl) fun _ => rfl
  | next id error tree => exact next hh _ _ _
  | nextNamed id error tree => exact callNext hh _ _ _
  | start steps watcher tree file k => exact .bind (start hh _ _ _ _ _) fun _ => pure _
  | runChain steps watcher tree file => exact .bind (runChain hh _ _ _ _) fun _ => pure _
  | use on plugin options =>
    exact .bind (processorFor hh on) fun _ =>
      .bind (of_local (.useOn hh.use _ _ _) (.of_apart (.useOn hh.apart _ _ _))) fun _ => pure _
  | parse on value settings =>
    exact .bind (.bind (processorFor hh on) fun _ => .bind (hfile value) fun _ => parseFile _ _ _) fun _ =>
      pure _
  | run on tree given callback watcher =>
    refine .bind (.bind (processorFor hh on) fun _ => .bind (hfile given) fun _ => ?_) fun _ => pure _
    cases callback with
    | none => exact runTree hh _ _ _ _
    | some k =>
      refine .bind (runTreeFor hh _ _ _ _ _) fun r => ?_
      cases r with
      | none => exact pure _
      | some r => exact .bind (Accountable.run r) fun _ => pure _
  | stringify on tree given settings =>
    exact .bind (.bind (processorFor hh on) fun _ =>
      of_local (.stringify host _ _ _ _) (Retains.stringify _ _ _ _)) fun _ => pure _
  | process on value settings callback watcher =>
    refine .bind (.bind (processorFor hh on) fun _ => ?_) fun _ => pure _
    cases callback with
    | none => exact .ite (processTextFor hh _ _ _ _ _) (processText hh _ _ _ _)
    | some k => exact processTextFor hh _ _ _ _ _
  | await c => exact .bind (await hh _) fun _ => pure _
  | post c => exact .bind addFuture fun future => enqueue fun _ => trivial
  | turn => exact settleAll hh 1

end Accountable

/-- There is an account of whatever is done from outside that leaves stored trees in place. -/
theorem World.Accounts.play {host : Host} (hh : host.Accountable) {moves : List Move}
    (hmoves : ∀ m ∈ moves, m.Docile) (w : World) : w.Accounts True (play host moves w) := by
  induction moves generalizing w with
  | nil => exact World.Temporal.refl w
  | cons m moves ih =>
    exact World.Temporal.trans (Accountable.act hh (hmoves m List.mem_cons_self) w)
      (ih (fun m hm => hmoves m (List.mem_cons_of_mem _ hm)) _)

end TextPipeline.Pipeline
