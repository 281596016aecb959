import TextPipeline.Proofs.Apart
import TextPipeline.Proofs.Receiving

/-! Who is told of progress. An observer hears of the runs that were started for it, and of nothing else.
`Tracking` names an observer, the runs that it follows, the resumptions that may let those go on, and what
is claimed of the events; `World.Tracked` says that in a world nobody but those resumptions can tell the
observer anything, and that the claim holds. Every action leaves a tracked world tracked as long as the
resumptions in question do (`Host.Tracked`), whatever else it starts, resolves or puts on the loop. -/

namespace TextPipeline.Pipeline

open TextPipeline.Transform
open TextPipeline.Pipeline.Action

/-- An observer goes by a number. -/
def Hears (k : Nat) (watcher : Option Watcher) : Prop := ∃ x ∈ watcher, x.id = k

/-- The observer of a number is told when the result of a chain is delivered. -/
def Delivery.Informs (k : Nat) : Delivery → Prop
  | .stored _ (.compilation c) => Hears k c.watcher
  | _ => False

def Call.Informs (k : Nat) : Call → Prop
  | .run _ _ _ watcher => Hears k watcher
  | .process _ _ _ watcher => Hears k watcher

/-- Whether a piece of work neither lets a chain go on nor starts a call. -/
def Job.isInert : Job → Bool
  | .resume .. | .start .. => false
  | _ => true

/-- Whether an event belongs to a run or tells someone of progress. -/
def Event.ofRun : Event → Bool
  | .progress .. | .called .. | .delivered .. => true
  | _ => false

/-- What the observer of a number was told, in order. -/
def toldTo (k : Nat) (es : List Event) : List Progress :=
  es.filterMap fun
    | .progress j p => if j = k then some p else none
    | _ => none

@[simp] theorem toldTo_append (k : Nat) (es fs : List Event) :
    toldTo k (es ++ fs) = toldTo k es ++ toldTo k fs := List.filterMap_append

@[simp] theorem toldTo_nil (k : Nat) : toldTo k [] = [] := rfl

/-- An event that neither tells the observer of a number anything nor belongs to certain runs. -/
structure Event.Beside (k : Nat) (runs : Nat → Prop) (e : Event) : Prop where
  told : ∀ p, e ≠ .progress k p
  calls : ∀ r, runs r → e.call? r = none
  deliveries : ∀ r, runs r → e.delivery? r = none

theorem toldTo_beside {k : Nat} {runs : Nat → Prop} {es : List Event} (h : ∀ e ∈ es, e.Beside k runs) :
    toldTo k es = [] := by
  refine List.filterMap_eq_nil_iff.mpr fun e he => ?_
  cases e with
  | progress j p =>
    have hne : j ≠ k := fun hj => (h _ he).told p (by rw [hj])
    simp [hne]
  | _ => rfl

/-- An observer, the runs that it follows as they were started, and the resumptions that may let those
go on. -/
structure Following where
  observer : Nat
  starts : Nat → Run → Prop
  resumes : Resumption → Prop

/-- The runs that an observer follows. -/
def Following.runs (F : Following) (r : Nat) : Prop := ∃ x, F.starts r x

/-- What an observer follows, and a claim about the events that no other event can spoil. -/
structure Tracking extends Following where
  claim : List Event → Prop
  skips : ∀ es e, e.Beside observer toFollowing.runs → claim es → claim (es ++ [e])

theorem Tracking.skips_all (T : Tracking) {es fs : List Event}
    (h : ∀ e ∈ fs, e.Beside T.observer T.runs)
    (hes : T.claim es) : T.claim (es ++ fs) := by
  induction fs generalizing es with
  | nil => rwa [List.append_nil]
  | cons e fs ih =>
    have he := T.skips es e (h e List.mem_cons_self) hes
    rw [List.append_cons]
    exact ih (fun e he => h e (List.mem_cons_of_mem _ he)) he

namespace World

/-- The runs that there were are still there, apart from their results. -/
def Grown (w v : World) : Prop :=
  ∀ (r : Nat) (x : Run), w.runs[r]? = some x → ∃ y, v.runs[r]? = some y ∧ y.bare = x.bare

theorem Grown.of_eq {w v : World} (h : v.runs = w.runs) : w.Grown v := fun _ x hx =>
  ⟨x, by rw [h]; exact hx, rfl⟩

theorem Grown.refl (w : World) : w.Grown w := .of_eq rfl

theorem Grown.trans {u v w : World} (h : u.Grown v) (h' : v.Grown w) : u.Grown w := fun r x hx => by
  obtain ⟨y, hy, hyx⟩ := h r x hx
  obtain ⟨z, hz, hzy⟩ := h' r y hy
  exact ⟨z, hz, hzy.trans hyx⟩

/-- A run that is not followed, with a result that the observer is not told of. -/
structure Foreign (F : Following) (w : World) (r : Nat) (delivery : Delivery) : Prop where
  other : ¬F.runs r
  unheard : ∃ x, w.runs[r]? = some x ∧ ¬Hears F.observer x.watcher
  undelivered : ¬delivery.Informs F.observer

theorem Foreign.grown {F : Following} {w v : World} {r : Nat} {delivery : Delivery}
    (h : w.Foreign F r delivery) (hg : w.Grown v) : v.Foreign F r delivery := by
  obtain ⟨x, hx, hunheard⟩ := h.unheard
  obtain ⟨y, hy, hyx⟩ := hg r x hx
  have hwatcher : y.watcher = x.watcher := (congrArg Run.watcher hyx :)
  exact ⟨h.other, ⟨y, hy, by rwa [hwatcher]⟩, h.undelivered⟩

/-- A resumption that lets go on a run which is not followed, or one that may let go on such a run. -/
def Admits (F : Following) (w : World) (k : Resumption) : Prop :=
  w.Foreign F k.run k.delivery ∨ F.resumes k

theorem Admits.grown {F : Following} {w v : World} {k : Resumption} (h : w.Admits F k)
    (hg : w.Grown v) : v.Admits F k := h.imp_left fun h => h.grown hg

/-- Only resumptions that may do so can let the followed runs go on, and nothing else is left to do that
the observer would be told of. -/
structure Shaped (F : Following) (w : World) : Prop where
  started : ∀ r x, F.starts r x → ∃ y, w.runs[r]? = some y ∧ y.bare = x.bare
  held : ∀ c ∈ w.completions, ∀ k ∈ c.onDone, w.Admits F k
  queued : ∀ k result, .resume k result ∈ w.jobs → w.Admits F k
  posted : ∀ call future, .start call future ∈ w.jobs → ¬call.Informs F.observer

/-- Only resumptions that may do so can let the followed runs go on, and the claim holds. -/
structure Tracked (T : Tracking) (w : World) : Prop where
  shaped : w.Shaped T.toFollowing
  claim : T.claim w.events

/-- A run that is yet to be started is not followed. -/
theorem Shaped.unstarted {F : Following} {w : World} (h : w.Shaped F) : ¬F.runs w.runs.length := by
  rintro ⟨x, hx⟩
  obtain ⟨y, hy, -⟩ := h.started _ x hx
  exact Nat.lt_irrefl _ (List.getElem?_eq_some_iff.mp hy).1

theorem Shaped.grown {F : Following} {w v : World} (h : w.Shaped F) (hg : w.Grown v)
    (hc : ∀ c ∈ v.completions, ∀ k ∈ c.onDone, v.Admits F k ∨ ∃ d ∈ w.completions, k ∈ d.onDone)
    (hq : ∀ k result, .resume k result ∈ v.jobs → v.Admits F k ∨ .resume k result ∈ w.jobs)
    (hp : ∀ call future, .start call future ∈ v.jobs →
      ¬call.Informs F.observer ∨ .start call future ∈ w.jobs) : v.Shaped F where
  started r x hr := by
    obtain ⟨y, hy, hyx⟩ := h.started r x hr
    obtain ⟨z, hz, hzy⟩ := hg r y hy
    exact ⟨z, hz, hzy.trans hyx⟩
  held c hcv k hk := (hc c hcv k hk).elim id fun ⟨_, hc', hk'⟩ => (h.held _ hc' k hk').grown hg
  queued k result hk := (hq k result hk).elim id fun hk' => (h.queued k result hk').grown hg
  posted call future hj := (hp call future hj).elim id fun hj' => h.posted call future hj'

/-- A world in which nothing was added that is held, queued or posted. -/
theorem Shaped.same {F : Following} {w v : World} (h : w.Shaped F) (hr : v.runs = w.runs)
    (hc : v.completions = w.completions) (hj : v.jobs = w.jobs) : v.Shaped F :=
  h.grown (.of_eq hr) (fun c hcv _ hk => .inr ⟨c, hc ▸ hcv, hk⟩) (fun _ _ hk => .inr (hj ▸ hk))
    fun _ _ hk => .inr (hj ▸ hk)

end World

/-- An action leaves a world tracked. -/
def Tracking.At {α : Type} (T : Tracking) (w : World) (x : Action α) : Prop :=
  w.Tracked T → (x.result w).2.Tracked T ∧ w.Grown (x.result w).2

/-- An action leaves every world tracked. -/
def Tracking.Keeps {α : Type} (T : Tracking) (x : Action α) : Prop := ∀ w, T.At w x

namespace Tracking

variable {T : Tracking} {α β : Type} {w : World}

theorem At.bind {x : Action α} {f : α → Action β} (hx : T.At w x)
    (hf : ∀ a v, x.result w = (.ok a, v) → w.Grown v → T.At v (f a)) : T.At w (x >>= f) := fun hw => by
  obtain ⟨hv, hg⟩ := hx hw
  rw [result_bind]
  generalize x.result w = done at hv hg hf
  obtain ⟨o, v⟩ := done
  cases o with
  | error e => exact ⟨hv, hg⟩
  | ok a =>
    obtain ⟨hu, hg'⟩ := hf a v rfl hg hv
    exact ⟨hu, hg.trans hg'⟩

/-- What is found out first changes nothing. -/
theorem At.after {x : Action α} {a : α} {f : α → Action β} (hx : x.result w = (.ok a, w))
    (hf : T.At w (f a)) : T.At w (x >>= f) := by
  rw [At, result_bind_ok hx]
  exact hf

namespace Keeps

theorem bind {x : Action α} {f : α → Action β} (hx : T.Keeps x) (hf : ∀ a, T.Keeps (f a)) :
    T.Keeps (x >>= f) := fun w => (hx w).bind fun a v _ _ => hf a v

theorem get {f : World → Action α} (hf : ∀ w, T.Keeps (f w)) : T.Keeps (get >>= f) := fun w => hf w w

theorem attempt {x : Action α} (hx : T.Keeps x) : T.Keeps (attempt x) := hx

theorem ite {c : Prop} [Decidable c] {x y : Action α} (hx : T.Keeps x) (hy : T.Keeps y) :
    T.Keeps (if c then x else y) := by
  split
  · exact hx
  · exact hy

/-- An action that has nothing to do with chains or progress. -/
theorem of_local {x : Action α} (hx : Local x) (hm : Respects World.Mute x) : T.Keeps x := fun w hw => by
  obtain ⟨es, he, hes⟩ := hm w
  rw [hx.result w] at he ⊢
  have hsame : (x.result w.core.world).2.events = es := List.append_cancel_left he
  refine ⟨⟨hw.shaped.same rfl rfl rfl, ?_⟩, .of_eq rfl⟩
  rw [World.events_moved]
  refine T.skips_all (fun e hmem => ⟨fun p => hes e (hsame ▸ hmem) _ p, fun r _ => ?_, fun r _ => ?_⟩)
    hw.claim
  all_goals
    have hquiet := hx.quiet w.core e hmem
    cases e <;> first | rfl | cases hquiet

theorem of_reads {x : Action α} (hx : Reads x) : T.Keeps x := fun w hw => by
  rw [hx w]
  exact ⟨hw, .refl w⟩

theorem pure (a : α) : T.Keeps (pure a) := of_reads (.pure a)

theorem throw (f : Fault) : T.Keeps (throw f : Action α) := of_reads (.throw f)

theorem tell {e : Event} (he : e.Beside T.observer T.runs) : T.Keeps (tell e) := fun w hw =>
  ⟨⟨hw.shaped.same rfl rfl rfl, T.skips w.events e he hw.claim⟩, .of_eq rfl⟩

/-- Something is changed besides runs, completions, jobs and events. -/
theorem modify {f : World → World} (hr : ∀ w, (f w).runs = w.runs)
    (hc : ∀ w, (f w).completions = w.completions) (hj : ∀ w, (f w).jobs = w.jobs)
    (he : ∀ w, (f w).events = w.events) : T.Keeps (modify f) := fun w hw => by
  refine ⟨⟨hw.shaped.same (hr w) (hc w) (hj w), ?_⟩, .of_eq (hr w)⟩
  show T.claim (f w).events
  rw [he w]
  exact hw.claim

theorem forM {f : α → Action PUnit} (hf : ∀ a, T.Keeps (f a)) (l : List α) : T.Keeps (l.forM f) := by
  induction l with
  | nil => exact pure _
  | cons a l ih => exact bind (hf a) fun _ => ih

/-- Someone else is told of progress. -/
theorem emit {watcher : Option Watcher} (h : ¬Hears T.observer watcher) (p : Progress) :
    T.Keeps (emit watcher p) := by
  cases watcher with
  | none => exact pure _
  | some x =>
    refine bind (tell ⟨fun q hq => h ⟨x, rfl, ?_⟩, fun _ _ => rfl, fun _ _ => rfl⟩) fun _ =>
      of_local (.ofLogged _) (.of_apart (.ofLogged _))
    exact (Event.progress.inj hq).1

theorem run (r : Nat) : T.Keeps (run r) := of_reads (.get fun w => by
  split
  · exact .pure _
  · exact .throw _)

theorem completion (id : Nat) : T.Keeps (completion id) := of_reads (.get fun w => by
  split
  · exact .pure _
  · exact .throw _)

theorem enqueue {j : Job} (h : j.isInert = true) : T.Keeps (enqueue j) := fun w hw => by
  refine ⟨⟨hw.shaped.grown (.of_eq rfl) (fun c hc k hk => .inr ⟨c, hc, hk⟩) (fun k result hk => .inr ?_)
    fun c future hk => .inr ?_, hw.claim⟩, .of_eq rfl⟩
  all_goals
    refine (List.mem_append.mp hk).resolve_right fun hj => ?_
    obtain rfl := List.mem_singleton.mp hj
    cases h

/-- A run is given results. -/
theorem changeRun {r : Nat} {f : Run → Run} (hf : ∀ x, (f x).bare = x.bare) : T.Keeps (changeRun r f) :=
  fun w hw => by
    have hg : w.Grown { w with runs := w.runs.modify r f } := fun n x hx => by
      by_cases hn : r = n
      · exact ⟨f x, by simp [hn, hx], hf x⟩
      · exact ⟨x, by simp [hn, hx], rfl⟩
    exact ⟨⟨hw.shaped.grown hg (fun c hc k hk => .inr ⟨c, hc, hk⟩) (fun _ _ hk => .inr hk)
      fun _ _ hk => .inr hk, hw.claim⟩, hg⟩

end Keeps

theorem At.setCompletion {id : Nat} {c : Completion Resolution Resumption Empty}
    (hc : ∀ k ∈ c.onDone, w.Admits T.toFollowing k) : T.At w (setCompletion id c) := fun hw => by
  have hg : w.Grown { w with completions := w.completions.set id c } := .of_eq rfl
  refine ⟨⟨hw.shaped.grown hg (fun d hd k hk => ?_) (fun _ _ hk => .inr hk) fun _ _ hk => .inr hk,
    hw.claim⟩, hg⟩
  rcases List.mem_or_eq_of_mem_set hd with hd | rfl
  · exact .inr ⟨d, hd, hk⟩
  · exact .inl ((hc k hk).grown hg)

end Tracking

/-- A host through which worlds stay tracked. -/
structure Host.Tracked (T : Tracking) (host : Host) : Prop where
  use : ∀ on plugin options, Local (host.use on plugin options)
  apart : ∀ on plugin options, Respects World.Apart (host.use on plugin options)
  process : ∀ on value, T.Keeps (host.process on value)
  resume : ∀ k result w, w.Admits T.toFollowing k → T.At w (host.resume k result)

namespace Tracking

variable {T : Tracking} {α β : Type} {w : World} {host : Host}

/-! ### What transformers do -/

theorem At.goOn (hh : host.Tracked T) {k : Resumption} (hk : w.Admits T.toFollowing k) (result : Resolution) :
    T.At w (goOn host k result) := by
  refine .bind (Keeps.run _ w) fun x v _ hg => .after (result_get v) ?_
  have hk := hk.grown hg
  split
  · exact hh.resume k result v hk
  · refine .bind (Keeps.of_local (.log _ _ _) (.of_apart (World.Apart.log _ _ _)) v) fun _ u _ hg hu => ?_
    refine ⟨⟨hu.shaped.grown (.of_eq rfl) (fun c hc k hk => .inr ⟨c, hc, hk⟩) (fun k' result' hk' => ?_)
      fun c future hc => .inr ?_, hu.claim⟩, .of_eq rfl⟩
    · rcases List.mem_append.mp hk' with h | h
      · exact .inr h
      · obtain ⟨rfl, rfl⟩ := Job.resume.inj (List.mem_singleton.mp h)
        exact .inl (hk.grown hg)
    · exact (List.mem_append.mp hc).resolve_right fun h => nomatch List.mem_singleton.mp h

theorem At.goOnAll (hh : host.Tracked T) {ks : List Resumption} (hk : ∀ k ∈ ks, w.Admits T.toFollowing k)
    (result : Resolution) : T.At w (ks.forM fun k => Pipeline.goOn host k result) := by
  induction ks generalizing w with
  | nil => exact Keeps.pure _ w
  | cons k ks ih =>
    exact .bind (.goOn hh (hk k List.mem_cons_self) result) fun _ v _ hg =>
      ih fun k' hk' => (hk k' (List.mem_cons_of_mem _ hk')).grown hg

namespace Keeps

/-- An event that belongs to no run and tells nobody of progress. -/
theorem tell_plain {e : Event} (h : e.ofRun = false) : T.Keeps (Action.tell e) := by
  refine tell ⟨?_, fun r _ => ?_, fun r _ => ?_⟩
  · rintro p rfl
    cases h
  all_goals cases e <;> first | rfl | cases h

theorem log (level : Level) (logger text : String) : T.Keeps (log level logger text) := tell_plain rfl

theorem logFault (level : Level) (logger words : String) (f : Fault) : T.Keeps (logFault level logger words f) :=
  bind (of_reads (.ofOutcome _)) fun _ => log _ _ _

theorem tellFailed {watcher : Option Watcher} (h : ¬Hears T.observer watcher) (f : Fault) :
    T.Keeps (tellFailed watcher f) :=
  bind (of_reads (.textOf _)) fun _ => emit h _

theorem tellAll (records : List LogRecord) : T.Keeps (records.forM fun record => Action.tell (.log record)) :=
  forM (fun _ => tell_plain rfl) _

theorem resolve (hh : host.Tracked T) (id : Nat) (result : Resolution) :
    T.Keeps (resolve host id result) := fun w => by
  refine .bind (completion id w) fun c v hr _ hv => ?_
  obtain ⟨hc, rfl⟩ := of_result_completion hr
  cases hp : c.phase with
  | abandoned =>
    have hnone : c.resolve result = .ok none := by simp [Completion.resolve, hp]
    rw [hnone]
    exact log _ _ _ v hv
  | done _ =>
    have herror : c.resolve result = .error (Completion.resolvedTwice c.label) := by
      simp [Completion.resolve, hp]
    rw [herror]
    exact throw _ v hv
  | pending =>
    have hsome : c.resolve result =
        .ok (some ({ c with phase := .done result, onDone := [] }, c.onDone)) := by
      simp [Completion.resolve, hp]
    rw [hsome]
    have hheld : ∀ k ∈ c.onDone, v.Admits T.toFollowing k :=
      hv.shaped.held c (List.mem_of_getElem? hc)
    have hset : T.At v (Action.setCompletion id { c with phase := .done result, onDone := [] }) :=
      .setCompletion fun k hk => by cases hk
    exact (hset.bind fun _ u _ hg => .bind (tell_plain rfl u) fun _ u' _ hg' =>
      .goOnAll hh (fun k hk => (hheld k hk).grown (hg.trans hg')) result) hv

theorem next (hh : host.Tracked T) (id : Nat) (error tree : Value) : T.Keeps (next host id error tree) :=
  bind (completion id) fun _ => get fun _ => bind (of_reads (.ofOutcome _)) fun _ =>
    bind (of_local (.share _) (.withStore _)) fun _ => resolve hh id _

theorem require (holds : Bool) (f : Fault) : T.Keeps (require holds f) := ite (pure _) (throw _)

theorem scene_next (hh : host.Tracked T) (scene : Scene) (error tree : Argument) :
    T.Keeps (scene.next host error tree) :=
  bind (of_reads (.argument _)) fun _ => bind (of_reads (.argument _)) fun _ =>
    bind (require _ _) fun _ => next hh _ _ _

theorem saveNext (scene : Scene) (id : String) : T.Keeps (scene.saveNext id) := by
  refine bind (ite (bind (completion _) fun _ => pure _) (pure _)) fun _ =>
    modify (fun _ => rfl) (fun _ => rfl) (fun _ => rfl) fun _ => rfl

theorem callNext (hh : host.Tracked T) (id : String) (error tree : Value) :
    T.Keeps (callNext host id error tree) := by
  refine get fun w => ?_
  split
  · exact next hh _ _ _
  · exact throw _
  · exact throw _

theorem passing (guarded : Bool) {pass : Action Unit} (h : T.Keeps pass) :
    T.Keeps (passing guarded pass) := by
  have htell (fault : Option Fault) : T.Keeps (Action.tell (.passed fault)) :=
    tell_plain rfl
  refine ite (bind (attempt h) fun o => ?_) h
  cases o with
  | ok _ => exact htell _
  | error f => exact ite (htell _) (throw _)

theorem raise (fault : Option Fault) : T.Keeps (raise fault) := by
  cases fault with
  | none => exact pure _
  | some f => exact throw f

theorem perform (hh : host.Tracked T) (scene : Scene) (waits : Bool) (acts : List Act) :
    T.Keeps (perform host scene waits acts) := by
  have setFile (f : File) : T.Keeps (Action.setFile scene.file f) := of_local (.setFile _ _) (.setFile _ _)
  have file : T.Keeps (Action.file scene.file) := of_reads fun _ => rfl
  induction acts with
  | nil => exact pure _
  | cons act rest ih =>
    cases act with
    | change f =>
      exact get fun _ => bind (of_reads (.content _)) fun _ => bind file fun _ =>
        bind (of_local (.withStore _) (.withStore _)) fun _ => bind (setFile _) fun _ =>
        bind (tellAll _) fun _ => bind (raise _) fun _ => ih
    | mapLiterals type f records =>
      exact bind (of_local (.withStore _) (.withStore _)) fun _ => bind (raise _) fun _ =>
        bind (tellAll _) fun _ => ih
    | observe label f =>
      exact bind (of_reads (.reveal _)) fun _ => bind file fun _ => bind (of_reads (.ofOutcome _)) fun _ =>
        bind (tell_plain rfl) fun _ => ih
    | log record => exact bind (tell_plain rfl) fun _ => ih
    | next guarded error tree => exact bind (passing _ (scene_next hh _ _ _)) fun _ => ih
    | saveNext id => exact bind (saveNext scene id) fun _ => ih
    | callNext guarded id error tree =>
      exact bind (passing _ (bind (of_reads (.argument _)) fun _ => bind (of_reads (.argument _))
        fun _ => callNext hh _ _ _)) fun _ => ih
    | laterNext threaded error tree =>
      exact bind (of_reads (.argument _)) fun _ => bind (of_reads (.argument _)) fun _ => get fun _ =>
        bind (require _ _) fun _ => bind (ite (enqueue rfl)
          (pure _)) fun _ => ih
    | use name plugin options =>
      exact bind (of_reads (.named _)) fun _ => get fun _ => bind (of_reads (.ofOutcome _)) fun _ =>
        bind (of_reads (.argument _)) fun _ =>
        bind (of_local (hh.use _ _ _) (.of_apart (hh.apart _ _ _))) fun _ => ih
    | process name value =>
      exact bind (of_reads (.named _)) fun _ => bind (of_reads (.argument _)) fun _ =>
        bind (hh.process _ _) fun _ =>
        bind (tell_plain rfl) fun _ => ih
    | sleep => exact ite (pure _) ih
    | raise f => exact throw f
    | give v =>
      exact bind (of_reads (.argument _)) fun _ => bind (of_local (.share _) (.withStore _)) fun _ => pure _
    | giveReport reason =>
      exact bind file fun _ => bind (of_reads (.argument _)) fun _ =>
        bind (of_local (.lift _) (.lift _)) fun _ => bind (setFile _) fun _ => pure _
    | giveAwaitable => exact pure _

theorem performAll (hh : host.Tracked T) (scene : Scene) (t : Transformer) :
    T.Keeps (performAll host scene t) := by
  refine bind (of_reads (.reveal _)) fun _ => bind (of_reads fun _ => rfl) fun _ =>
    bind (perform hh scene false _) fun r => ?_
  cases r <;> exact pure _

theorem call (hh : host.Tracked T) (scene : Scene) (t : Transformer) : T.Keeps (call host scene t) := by
  unfold Pipeline.call
  split
  · exact pure _
  · exact pure _
  · exact pure _
  · refine bind (attempt (performAll hh scene t)) fun r => ?_
    cases r with
    | ok v => exact pure _
    | error f => exact ite (pure _) (throw _)
  · refine bind (ite (tell_plain rfl) (pure _))
      fun _ => bind (performAll hh scene t) fun v => ?_
    split <;> exact pure _

/-! ### Chains -/

theorem tellRan (k : Callback) (error : Option Fault) (tree : Value) (id : Nat) :
    T.Keeps (tellRan k error tree id) :=
  get fun _ => bind (tell_plain rfl) fun _ => raise _

theorem tellProcessed (receiver : TextReceiver) (error : Option Fault) (text : Value) (id : Nat) :
    T.Keeps (tellProcessed receiver error text id) := by
  cases receiver with
  | callback k =>
    exact get fun _ => bind (tell_plain rfl) fun _ => raise _
  | silent k => exact raise _
  | future future => exact enqueue rfl

theorem schedule (hh : host.Tracked T) (id : Nat) (name : String) {j : Job} (h : j.isInert = true) :
    T.Keeps (schedule host id name j) := get fun _ => ite (resolve hh _ _) (enqueue h)

theorem conclude (hh : host.Tracked T) (id : Nat) (t : Transformer) (answer : Outcome Answer) :
    T.Keeps (conclude host id t answer) := by
  cases answer with
  | error f => exact bind (completion id) fun _ => bind (require _ _) fun _ => resolve hh _ _
  | ok answer =>
    refine ite (pure _) ?_
    cases answer with
    | value v => exact resolve hh _ _
    | later task => exact schedule hh _ _ rfl
    | settled s => exact schedule hh _ _ rfl

theorem apply (hh : host.Tracked T) (x : Run) (index : Nat) (t : Transformer) (tree : Value) (id : Nat) :
    T.Keeps (apply host x index t tree id) :=
  bind (log _ _ _) fun _ => bind (attempt (call hh _ t)) fun _ => conclude hh _ _ _

section Unheard

variable {watcher : Option Watcher} (h : ¬Hears T.observer watcher)
include h

theorem fail (receiver : TextReceiver) (f : Fault) (id : Nat) : T.Keeps (fail watcher receiver f id) :=
  bind (of_reads fun _ => rfl) fun _ => bind (logFault _ _ _ _) fun _ => bind (tellFailed h _) fun _ =>
    tellProcessed _ _ _ _

theorem complete (id : Nat) (text : Value) : T.Keeps (complete watcher id text) :=
  bind (of_reads fun _ => rfl) fun _ => bind (of_local (.setFile _ _) (.setFile _ _)) fun _ => emit h _

end Unheard

theorem compile (r : Nat) {c : Compilation} (h : ¬Hears T.observer c.watcher) (error : Option Fault)
    (tree : Value) : T.Keeps (compile host r c error tree) := by
  cases error with
  | some f => exact fail h _ _ _
  | none =>
    refine bind (emit h _) fun _ => bind (attempt (of_local (.stringify host _ _ _ _) (.stringify _ _ _ _)))
      fun text => ?_
    cases text with
    | error f => exact ite (fail h _ _ _) (throw _)
    | ok text =>
      exact bind (emit h _) fun _ => bind (complete h _ _) fun _ => bind (changeRun fun _ => rfl) fun _ =>
        tellProcessed _ _ _ _

theorem settle (r file : Nat) (name : String) (error : Option Fault) (tree : Value) :
    T.Keeps (settle r file name error tree) :=
  ite (bind (of_local (.storeTree _ _ _) (.storeTree _ _ _)) fun _ =>
    bind (tell_plain rfl) fun _ =>
    changeRun fun _ => rfl) (pure _)

/-- The result of a run that is not followed is told to someone else than the observer. -/
theorem deliver {r : Nat} (hr : ¬T.runs r) {delivery : Delivery} (hd : ¬delivery.Informs T.observer)
    (error : Option Fault) (tree : Value) : T.Keeps (deliver host r delivery error tree) := by
  have hother {n : Nat} (hn : T.runs n) : r ≠ n := fun h => hr (h ▸ hn)
  refine bind (run r) fun x => bind (tell ⟨nofun, fun _ _ => rfl, fun n hn => ?_⟩) fun _ => ?_
  · simp [Event.delivery?, hother hn]
  cases delivery with
  | kept => exact changeRun fun _ => rfl
  | callback k => exact tellRan _ _ _ _
  | stored name receiver =>
    refine bind (settle r x.file name error tree) fun _ => ?_
    cases receiver with
    | callback k => exact tellRan _ _ _ _
    | future future => exact enqueue rfl
    | compilation c => exact compile r hd error tree

theorem invoke (hh : host.Tracked T) {r : Nat} (hr : ¬T.runs r) (x : Run) (index : Nat) (t : Transformer)
    (tree : Value) : T.Keeps (invoke host r x index t tree) := by
  have hother {n : Nat} (hn : T.runs n) : r ≠ n := fun h => hr (h ▸ hn)
  have hadd (label : String) : T.Keeps (addCompletion label) := fun w hw => by
    refine ⟨⟨hw.shaped.grown (.of_eq rfl) (fun c hc k hk => .inr ?_) (fun _ _ hk => .inr hk)
      fun _ _ hk => .inr hk, hw.claim⟩, .of_eq rfl⟩
    rcases List.mem_append.mp hc with hc | hc
    · exact ⟨c, hc, hk⟩
    · obtain rfl := List.mem_singleton.mp hc
      cases hk
  refine get fun _ => bind (hadd _) fun id => bind (tell ⟨nofun, fun n hn => ?_,
    fun _ _ => rfl⟩) fun _ => bind (apply hh x index t tree id) fun _ => pure _
  simp [Event.call?, hother hn]

end Keeps

/-- A run is held up by a step, and goes on or ends in a way that leaves the world tracked. -/
theorem At.holdUp {k : Resumption} {sync : Bool} (hk : sync = false → w.Admits T.toFollowing k) {name : String}
    (hd : ∀ v, w.Grown v → T.At v (deliver host k.run k.delivery (some (notSynchronous name)) k.tree))
    {id : Nat} {c : Completion Resolution Resumption Empty} (hc : w.completions[id]? = some c) :
    T.At w (holdUp host k sync name id c) := fun hw => by
  have hheld := hw.shaped.held c (List.mem_of_getElem? hc)
  cases sync with
  | true =>
    have hset : T.At w (Action.setCompletion id (c.abandon.getD c)) := .setCompletion fun k hk => by
      cases hp : c.phase with
      | pending => simp [Completion.abandon, hp] at hk
      | _ => exact hheld k (by simpa [Completion.abandon, hp] using hk)
    exact (hset.bind fun _ v _ hg => (Keeps.log _ _ _ v).bind fun _ u _ hg' => hd u (hg.trans hg')) hw
  | false =>
    refine (At.bind (Keeps.log _ _ _ w) fun _ v _ hg => .setCompletion fun k' hk' => ?_) hw
    cases hd : c.isDone with
    | true => exact (hheld k' (by simpa [Completion.addDone, hd] using hk')).grown hg
    | false =>
      have hmem : k' ∈ c.onDone ++ [k] := by simpa [Completion.addDone, hd] using hk'
      rcases List.mem_append.mp hmem with h | h
      · exact (hheld k' h).grown hg
      · obtain rfl := List.mem_singleton.mp h
        exact (hk rfl).grown hg

/-- A run that is not followed goes on unheard. -/
theorem At.drive (hh : host.Tracked T) {r : Nat} {delivery : Delivery} (h : w.Foreign T.toFollowing r delivery)
    (sync : Bool) (rest : List Transformer) (index : Nat) (tree : Value) :
    T.At w (drive host r delivery sync rest index tree) := by
  induction rest generalizing w index tree with
  | nil =>
    exact .bind (Keeps.log _ _ _ w) fun _ v _ _ => Keeps.deliver h.other h.undelivered _ _ v
  | cons t rest ih =>
    obtain ⟨x, hx, hunheard⟩ := h.unheard
    refine .after (result_run hx) (.bind (Keeps.invoke hh h.other x index t tree w) fun id v _ hg =>
      .bind (Keeps.completion id v) fun c u hr hg' => ?_)
    have h := h.grown (hg.trans hg')
    split
    · split
      · exact .bind (Keeps.logFault _ _ _ _ u) fun _ z _ _ => Keeps.deliver h.other h.undelivered _ _ z
      · exact .bind (Keeps.emit hunheard _ u) fun _ z _ hg => ih (h.grown hg) _ _
    · obtain ⟨hc, rfl⟩ := of_result_completion hr
      exact .holdUp (k := ⟨r, index, tree, delivery⟩) (fun _ => .inl h)
        (fun v _ => Keeps.deliver h.other h.undelivered _ _ v) hc

theorem At.resume (hh : host.Tracked T) {k : Resumption} (h : w.Foreign T.toFollowing k.run k.delivery)
    (result : Resolution) : T.At w (resume host k result) := by
  obtain ⟨x, hx, hunheard⟩ := h.unheard
  refine .after (result_run hx) ?_
  dsimp only
  split
  · exact .bind (Keeps.logFault _ _ _ _ w) fun _ v _ _ => Keeps.deliver h.other h.undelivered _ _ v
  · exact .bind (Keeps.emit hunheard _ w) fun _ v _ hg => .drive hh (h.grown hg) _ _ _ _

/-! ### Processors -/

/-- A run is started that is not followed. -/
theorem Keeps.start (hh : host.Tracked T) {watcher : Option Watcher} (h : ¬Hears T.observer watcher)
    (steps : List Transformer) (tree : Value) (file : Nat) {delivery : Delivery}
    (hd : ¬delivery.Informs T.observer) : T.Keeps (start host steps watcher tree file delivery) := fun w => by
  refine .bind (Keeps.log _ _ _ w) fun _ v _ _ => .after (result_get v) ?_
  intro hv
  have hg : v.Grown { v with runs := v.runs ++ [v.nextRun steps watcher tree file] } := fun r x hx =>
    ⟨x, by rw [List.getElem?_append_left (List.getElem?_eq_some_iff.mp hx).1]; exact hx, rfl⟩
  have hset : T.At v (set { v with runs := v.runs ++ [v.nextRun steps watcher tree file] }) := fun hv =>
    ⟨⟨hv.shaped.grown hg (fun c hc k hk => .inr ⟨c, hc, hk⟩) (fun _ _ hk => .inr hk)
      fun _ _ hk => .inr hk, hv.claim⟩, hg⟩
  refine (hset.bind fun _ u hu hg' => ?_) hv
  obtain rfl : { v with runs := v.runs ++ [v.nextRun steps watcher tree file] } = u :=
    (Prod.mk.inj hu).2
  have hforeign : World.Foreign T.toFollowing { v with runs := v.runs ++ [v.nextRun steps watcher tree file] }
      v.runs.length delivery :=
    ⟨hv.shaped.unstarted, ⟨_, List.getElem?_concat_length, h⟩, hd⟩
  exact .bind (.drive hh hforeign _ _ _ _) fun _ z _ _ => Keeps.pure _ z

namespace Keeps

section Unheard

variable (hh : host.Tracked T) {watcher : Option Watcher} (h : ¬Hears T.observer watcher)
include hh h

theorem runChain (steps : List Transformer) (tree : Value) (file : Nat) :
    T.Keeps (runChain host steps watcher tree file) := by
  refine bind (start hh h steps tree file id) fun r => bind (run r) fun x => ?_
  split
  · exact pure _
  · exact throw _
  · exact pure _

theorem runTree (p : Nat) (tree : Value) (id : Nat) : T.Keeps (runTree host p tree id watcher) :=
  bind (of_reads (.processor _)) fun _ => bind (of_local (.startTree _ _ _) (.startTree _ _ _)) fun _ =>
    bind (runChain hh h _ _ _) fun _ => bind (of_local (.storeTree _ _ _) (.storeTree _ _ _)) fun _ =>
    bind (tell_plain rfl) fun _ => pure _

/-- The observer is not told of the result of a run for a receiver. -/
theorem runTreeFor (p : Nat) (tree : Value) (id : Nat) {receiver : TreeReceiver}
    (hr : ∀ c, receiver = .compilation c → ¬Hears T.observer c.watcher) :
    T.Keeps (runTreeFor host p tree id watcher receiver) := by
  refine bind (of_reads (.processor _)) fun q =>
    bind (attempt (of_local (.startTree _ _ _) (.startTree _ _ _))) fun o => ?_
  cases o with
  | error f =>
    refine bind (require _ _) fun _ => bind ?_ fun _ => pure _
    cases receiver with
    | callback k => exact tellRan _ _ _ _
    | future future => exact enqueue rfl
    | compilation c => exact fail (hr c rfl) _ _ _
  | ok first =>
    refine bind (start hh h _ _ _ ?_) fun r => pure _
    cases receiver with
    | compilation c => exact hr c rfl
    | _ => exact fun h => h

theorem processText (p : Nat) (value settings : Value) :
    T.Keeps (processText host p value settings watcher) := by
  have hprocess (id : Nat) : T.Keeps (processFile host p id settings watcher) :=
    bind (of_local (.requireEndpoints _) (.requireEndpoints _)) fun _ =>
      bind (of_local (.parseFile _ _ _ _) (.parseFile _ _ _)) fun _ => bind (emit h _) fun _ =>
      bind (runTree hh h _ _ _) fun _ => bind (emit h _) fun _ =>
      bind (of_local (.stringify host _ _ _ _) (.stringify _ _ _ _)) fun _ => bind (emit h _) fun _ => pure _
  refine bind (of_local (.toFile _) (.toFile _)) fun id => bind (of_reads fun _ => rfl) fun f =>
    bind (emit h _) fun _ => bind (attempt (hprocess id)) fun o => ?_
  cases o with
  | ok text => exact bind (complete h _ _) fun _ => pure _
  | error f => exact ite (bind (tellFailed h _) fun _ => throw _) (throw _)

theorem processTextFor (p : Nat) (value settings : Value) (receiver : TextReceiver) :
    T.Keeps (processTextFor host p value settings watcher receiver) := by
  refine bind (attempt (of_local (.toFile _) (.toFile _))) fun o => ?_
  cases o with
  | error f =>
    exact bind (require _ _) fun _ => bind (of_local (.addFile _) (.addFile _)) fun _ =>
      bind (fail h _ _ _) fun _ => pure _
  | ok id =>
    refine bind (attempt (bind (of_reads fun _ => rfl) fun _ => bind (emit h _) fun _ =>
      bind (of_local (.requireEndpoints _) (.requireEndpoints _)) fun _ =>
      of_local (.parseFile _ _ _ _) (.parseFile _ _ _))) fun o => ?_
    cases o with
    | error f => exact bind (require _ _) fun _ => bind (fail h _ _ _) fun _ => pure _
    | ok tree =>
      refine bind (emit h _) fun _ => bind (runTreeFor hh h p tree id ?_) fun r => ?_
      · rintro c hc
        obtain rfl := TreeReceiver.compilation.inj hc
        exact h
      · cases r with
        | none => exact pure _
        | some r => exact bind (run r) fun _ => pure _

end Unheard

end Keeps

theorem not_hears_none (k : Nat) : ¬Hears k none := fun ⟨_, h, _⟩ => by cases h

/-- Worlds stay tracked through plugins at any depth, if they do so when a resumption that may do it lets
a followed run go on. -/
theorem nested (T : Tracking) (endpoints : Grammar.Endpoints) (standard : List (Plugin.Metadata Attacher))
    (surroundings : Plugin.Surroundings Attacher)
    (hresume : ∀ host k result w, host.endpoints = endpoints → host.Tracked T → T.resumes k →
      T.At w (Pipeline.resume host k result)) (depth : Nat) :
    (Host.nested endpoints standard surroundings depth).Tracked T := by
  have hsteady := Host.nested_steady endpoints standard surroundings
  have happart := World.Apart.nested endpoints standard surroundings
  have hendpoints (depth : Nat) :
      (Host.nested endpoints standard surroundings depth).endpoints = endpoints := by
    cases depth <;> rfl
  induction depth with
  | zero =>
    exact ⟨(hsteady 0).use, happart 0, fun _ _ => Keeps.throw _, fun _ _ w _ => Keeps.throw _ w⟩
  | succ depth ih =>
    refine ⟨(hsteady (depth + 1)).use, happart (depth + 1), fun on value => ?_, fun k result w hk => ?_⟩
    · exact .bind (.of_local (.processorFor (hsteady depth).use on)
        (.of_apart (.processorFor (happart depth) on))) fun _ =>
        .processText ih (not_hears_none _) _ _ _
    · rcases hk with hk | hk
      · exact .resume ih hk result
      · exact hresume _ k result w (hendpoints depth) ih hk

end Tracking

/-! ### The loop, and what is done from outside -/

/-- A piece of work that the observer need not be told of. -/
structure World.Clear (F : Following) (w : World) (j : Job) : Prop where
  resumes : ∀ k result, j = .resume k result → w.Admits F k
  starts : ∀ call future, j = .start call future → ¬call.Informs F.observer

/-- What is done from outside tells the observer of a number of it. -/
def Move.Informs (k : Nat) : Move → Prop
  | .start _ watcher _ _ _ | .runChain _ watcher _ _ | .run _ _ _ _ watcher |
    .process _ _ _ _ watcher => Hears k watcher
  | .await c | .post c => c.Informs k
  | _ => False

namespace Tracking

variable {T : Tracking} {α : Type} {host : Host}

namespace Keeps

theorem dequeue_bind {f : Option Job → Action α} (hnone : T.Keeps (f none))
    (hsome : ∀ j v, v.Clear T.toFollowing j → T.At v (f (some j))) : T.Keeps (dequeue >>= f) := fun w hw => by
  cases hj : w.jobs with
  | nil =>
    exact At.after (result_dequeue_nil hj) (hnone w) hw
  | cons j rest =>
    have hmem : j ∈ w.jobs := hj ▸ List.mem_cons_self
    have hrest {i : Job} (hi : i ∈ rest) : i ∈ w.jobs := hj ▸ List.mem_cons_of_mem _ hi
    have hg : w.Grown { w with jobs := rest } := .of_eq rfl
    have htracked : World.Tracked T { w with jobs := rest } :=
      ⟨hw.shaped.grown hg (fun c hc _ hk => .inr ⟨c, hc, hk⟩) (fun _ _ hk => .inr (hrest hk))
        fun _ _ hk => .inr (hrest hk), hw.claim⟩
    have hclear : World.Clear T.toFollowing { w with jobs := rest } j := by
      constructor
      · rintro k result rfl
        exact (hw.shaped.queued k result hmem).grown hg
      · rintro call future rfl
        exact hw.shaped.posted call future hmem
    rw [result_bind_ok (result_dequeue_cons hj)]
    exact (hsome j _ hclear htracked).imp_right hg.trans

theorem addFuture : T.Keeps addFuture := fun _ hw => ⟨⟨hw.shaped.same rfl rfl rfl, hw.claim⟩, .of_eq rfl⟩

/-- A call is put on the loop of which the observer is not told. -/
theorem post {c : Call} (h : ¬c.Informs T.observer) (future : Nat) :
    T.Keeps (Action.enqueue (.start c future)) := fun w hw => by
  refine ⟨⟨hw.shaped.grown (.of_eq rfl) (fun c hc k hk => .inr ⟨c, hc, hk⟩) (fun k result hk => .inr ?_)
    fun call id hcall => ?_, hw.claim⟩, .of_eq rfl⟩
  · exact (List.mem_append.mp hk).resolve_right fun hj => nomatch List.mem_singleton.mp hj
  · rcases List.mem_append.mp hcall with hj | hj
    · exact .inr hj
    · obtain ⟨rfl, -⟩ := Job.start.inj (List.mem_singleton.mp hj)
      exact .inl h

theorem settleFuture (id : Nat) (result : Outcome Value) : T.Keeps (settleFuture id result) := fun w => by
  refine .after (result_get w) ?_
  split
  · have hset : T.At w (set { w with futures := w.futures.set id (some result) } : Action PUnit) := fun hw =>
      ⟨⟨hw.shaped.same rfl rfl rfl, hw.claim⟩, .of_eq rfl⟩
    exact hset.bind fun _ v _ _ => enqueue rfl v
  · exact pure _ w

theorem proceed (hh : host.Tracked T) (t : Task) : T.Keeps (proceed host t) := by
  have hacts : T.Keeps t.acts := by
    unfold Task.acts
    split
    · exact of_reads (.bind (.reveal _) fun _ => .bind (fun _ => rfl) fun _ => .pure _)
    · exact pure _
  refine bind hacts fun acts => bind (attempt (perform hh t.scene true acts)) fun o => ?_
  split
  · exact enqueue rfl
  · exact enqueue rfl
  · split <;> exact enqueue rfl

theorem advance (hh : host.Tracked T) (t : Task) : T.Keeps (advance host t) :=
  bind (completion _) fun _ => ite (pure _) (proceed hh t)

theorem startCall (hh : host.Tracked T) (future : Nat) {c : Call} (h : ¬c.Informs T.observer) :
    T.Keeps (startCall host future c) := by
  have hfor (on : Value) : T.Keeps (processorFor host on) :=
    of_local (.processorFor hh.use on) (.of_apart (.processorFor hh.apart on))
  cases c with
  | run on tree given watcher =>
    exact bind (hfor on) fun _ => bind (of_local (.toFile _) (.toFile _)) fun _ =>
      bind (runTreeFor hh h _ _ _ fun c hc => by cases hc) fun _ => pure _
  | process on value settings watcher =>
    exact bind (hfor on) fun _ => bind (processTextFor hh h _ _ _ _) fun _ => pure _

section Loop

variable (hh : host.Tracked T)
  (hresume : ∀ k result w, T.resumes k → T.At w (Pipeline.resume host k result))
include hh hresume

/-- A piece of work of which the observer need not be told. -/
theorem work {w : World} {j : Job} (hj : w.Clear T.toFollowing j) : T.At w (work host j) := by
  unfold Pipeline.work
  cases j with
  | advance t => exact advance hh t w
  | settle id s =>
    have hkeeps : T.Keeps (Action.completion id >>= fun c => do
        unless c.isAbandoned do Pipeline.resolve host id (s.resolution c.label)) :=
      bind (completion id) fun _ => ite (pure _) (resolve hh _ _)
    exact hkeeps w
  | resume k result =>
    rcases hj.resumes k result rfl with hk | hk
    · exact .resume hh hk result
    · exact hresume k result w hk
  | next threaded id error tree =>
    have hthread (threaded : Bool) :
        T.Keeps (MonadStateOf.modifyGet fun w : World => ((), { w with threaded := threaded })) :=
      modify (fun _ => rfl) (fun _ => rfl) (fun _ => rfl) fun _ => rfl
    exact (hthread threaded w).bind fun _ v _ _ => (attempt (next hh id error tree) v).bind fun _ u _ _ =>
      (hthread false u).bind fun _ z _ _ => of_reads (.ofOutcome _) z
  | deliver future result => exact settleFuture _ _ w
  | wake _ => exact pure _ w
  | start call future =>
    refine (attempt (startCall hh future (hj.starts call future rfl)) w).bind fun o v _ _ => ?_
    cases o with
    | ok _ => exact pure _ v
    | error f => exact settleFuture _ _ v

theorem settleAll (fuel : Nat) : T.Keeps (settleAll host fuel) := by
  induction fuel with
  | zero => exact pure _
  | succ fuel ih =>
    exact dequeue_bind (pure _) fun j v hj => .bind (x := Action.attempt (Pipeline.work host j))
      (work hh hresume hj) fun _ u _ _ => ih u

theorem waitFor (future fuel : Nat) : T.Keeps (waitFor host future fuel) := by
  induction fuel with
  | zero => exact pure _
  | succ fuel ih =>
    refine dequeue_bind (pure _) fun j v hj => ?_
    have hwork : T.At v (Action.attempt (Pipeline.work host j) >>= fun _ =>
        Pipeline.waitFor host future fuel) :=
      .bind (x := Action.attempt (Pipeline.work host j)) (work hh hresume hj) fun _ u _ _ => ih u
    cases j with
    | wake id => exact ite (pure _) ih v
    | _ => exact hwork

theorem await {c : Call} (hc : ¬c.Informs T.observer) : T.Keeps (await host c) := by
  have hcall (future : Nat) : T.Keeps (Pipeline.awaitCall host c future) :=
    get fun w => ite (bind (startCall hh future hc) fun _ => waitFor hh hresume _ _) <|
      bind (modify (fun _ => rfl) (fun _ => rfl) (fun _ => rfl) fun _ => rfl) fun _ =>
      bind (post hc future) fun _ =>
      bind (waitFor hh hresume _ _) fun _ => bind (settleAll hh hresume _) fun _ =>
      modify (fun _ => rfl) (fun _ => rfl) (fun _ => rfl) fun _ => rfl
  refine bind addFuture fun future => bind (hcall future) fun _ => bind (of_reads fun _ => rfl) fun o => ?_
  cases o with
  | some o => exact of_reads (.ofOutcome _)
  | none => exact throw _

end Loop

/-- What is done from outside leaves a world tracked, unless the observer is told of it. -/
theorem act (hh : host.Tracked T)
    (hresume : ∀ k result w, T.resumes k → T.At w (Pipeline.resume host k result)) {m : Move}
    (hm : ¬m.Informs T.observer) : T.Keeps (m.act host) := by
  have hfor (on : Value) : T.Keeps (processorFor host on) :=
    of_local (.processorFor hh.use on) (.of_apart (.processorFor hh.apart on))
  have hfile (value : Value) : T.Keeps (toFile value) := of_local (.toFile _) (.toFile _)
  cases m with
  | change f => exact modify (fun _ => rfl) (fun _ => rfl) (fun _ => rfl) fun _ => rfl
  | rename id name => exact modify (fun _ => rfl) (fun _ => rfl) (fun _ => rfl) fun _ => rfl
  | next id error tree => exact next hh _ _ _
  | nextNamed id error tree => exact callNext hh _ _ _
  | start steps watcher tree file k =>
    exact bind (start hh hm _ _ _ fun h => h) fun _ => pure _
  | runChain steps watcher tree file => exact bind (runChain hh hm _ _ _) fun _ => pure _
  | use on plugin options =>
    exact bind (hfor on) fun _ =>
      bind (of_local (.useOn hh.use _ _ _) (.of_apart (.useOn hh.apart _ _ _))) fun _ => pure _
  | parse on value settings =>
    exact bind (bind (hfor on) fun _ => bind (hfile value) fun _ =>
      of_local (.parseFile _ _ _ _) (.parseFile _ _ _)) fun _ => pure _
  | run on tree given callback watcher =>
    refine bind (bind (hfor on) fun _ => bind (hfile given) fun _ => ?_) fun _ => pure _
    cases callback with
    | none => exact runTree hh hm _ _ _
    | some k =>
      refine bind (runTreeFor hh hm _ _ _ fun c hc => by cases hc) fun r => ?_
      cases r with
      | none => exact pure _
      | some r => exact bind (Keeps.run r) fun _ => pure _
  | stringify on tree given settings =>
    exact bind (bind (hfor on) fun _ => of_local (.stringify host _ _ _ _) (.stringify _ _ _ _)) fun _ =>
      pure _
  | process on value settings callback watcher =>
    refine bind (bind (hfor on) fun _ => ?_) fun _ => pure _
    cases callback with
    | none => exact ite (processTextFor hh hm _ _ _ _) (processText hh hm _ _ _)
    | some k => exact processTextFor hh hm _ _ _ _
  | await c => exact bind (await hh hresume hm) fun _ => pure _
  | post c =>
    exact bind addFuture fun future => post hm future
  | turn => exact settleAll hh hresume 1

end Keeps

/-- A world stays tracked whatever is done of which the observer is not told. -/
theorem play (hh : host.Tracked T)
    (hresume : ∀ k result w, T.resumes k → T.At w (Pipeline.resume host k result)) {moves : List Move}
    (hmoves : ∀ m ∈ moves, ¬m.Informs T.observer) {w : World} (hw : w.Tracked T) :
    (play host moves w).Tracked T := by
  induction moves generalizing w with
  | nil => exact hw
  | cons m moves ih =>
    exact ih (fun m hm => hmoves m (List.mem_cons_of_mem _ hm))
      (Keeps.act hh hresume (hmoves m List.mem_cons_self) w hw).1

end Tracking

end TextPipeline.Pipeline
