import TextPipeline.Proofs.Observing
import TextPipeline.Proofs.Stretch
import TextPipeline.Proofs.Tracking

/-! What an observer is told step by step of its own run. Everything that is told of a pipeline has its
place in a script; after every step that is called, the observer of the run has been told of the steps
before it and of nothing else, and after the end of the run of the end. An end is told as the delivery of
the run requires, which is a parameter here. -/

namespace TextPipeline.Pipeline

open TextPipeline.Transform
open TextPipeline.Pipeline.Action

/-! ### The script -/

/-- A pipeline has begun. -/
def begun (label : String) : Progress := .at_ "started" ("Processing " ++ label) 0 3 []

/-- A stage is done. -/
def stageDone (number : Nat) (stage : String) : Progress :=
  .at_ "item_done" ("Stage " ++ stage ++ " complete") number 3
    [(.str "item_type", .str "stage"), (.str "stage", .str stage)]

/-- A step is done. -/
def stepDone (count index : Nat) (name : String) : Progress :=
  .at_ "item_done" ("Transformer " ++ name ++ " complete") (index + 1) count
    [(.str "item_type", .str "transformer"), (.str "transformer", .str name)]

/-- A pipeline has finished. -/
def finished (label : String) : Progress := .at_ "finished" ("Processed " ++ label) 0 3 []

/-- What is told of a pipeline before it finishes, in order. -/
def script (label : String) (steps : List Transformer) : List Progress :=
  [begun label, stageDone 1 "parse"] ++ steps.mapIdx (fun i t => stepDone steps.length i t.name) ++
    [stageDone 2 "run", stageDone 3 "stringify"]

section Script

variable {label : String} {steps : List Transformer}

theorem script_step {i : Nat} {t : Transformer} (h : steps[i]? = some t) :
    (script label steps)[2 + i]? = some (stepDone steps.length i t.name) := by
  have hlt := (List.getElem?_eq_some_iff.mp h).1
  rw [script, List.append_assoc, List.getElem?_append_right (by simp)]
  simp only [List.length_cons, List.length_nil, Nat.add_sub_cancel_left]
  rw [List.getElem?_append_left (by simpa using hlt), List.getElem?_mapIdx, h]
  rfl

/-- The last stages come after all steps. -/
theorem script_after (j : Nat) : (script label steps)[2 + steps.length + j]? =
    [stageDone 2 "run", stageDone 3 "stringify"][j]? := by
  have hlength : ([begun label, stageDone 1 "parse"] ++
      steps.mapIdx fun i t => stepDone steps.length i t.name).length = 2 + steps.length := by
    simp
    omega
  rw [script, List.getElem?_append_right (by omega), hlength, Nat.add_sub_cancel_left]

theorem take_script : (script label steps).take (2 + steps.length + 2) = script label steps :=
  List.take_of_length_le (by simp [script]; omega)

/-- What comes next in the script is told. -/
theorem take_concat {ps : List Progress} {i : Nat} {p : Progress} (h : ps[i]? = some p) :
    ps.take i ++ [p] = ps.take (i + 1) := by
  rw [List.take_add_one, h]
  rfl

end Script

/-- An observer that stops nothing is told of progress, and at most a record is told of it. -/
theorem notice_cases (x : Watcher) (p : Progress) : notice (some x) p = [.progress x.id p] ∨
    ∃ record, notice (some x) p = [.progress x.id p, .log record] := by
  rw [notice]
  split
  · exact .inr ⟨_, rfl⟩
  · exact .inl rfl

theorem toldTo_notice (x : Watcher) (p : Progress) : toldTo x.id (notice (some x) p) = [p] := by
  rcases notice_cases x p with h | ⟨record, h⟩ <;> simp [h, toldTo]

/-! ### A run and its observer -/

/-- The chain must not wait. -/
def Delivery.isKept : Delivery → Bool
  | .kept => true
  | _ => false

/-- A run with its observer, the label of what it is about, and what becomes of its result. -/
structure Pursuit where
  watcher : Watcher
  polite : Polite (some watcher)
  label : String
  run : Nat
  origin : Run
  watched : origin.watcher = some watcher
  delivery : Delivery

namespace Pursuit

variable (U : Pursuit)

/-- The run is followed, and lets itself go on only where it may wait. -/
def following : Following where
  observer := U.watcher.id
  starts r x := r = U.run ∧ x = U.origin
  resumes k := k.run = U.run ∧ k.delivery = U.delivery ∧ k.index < U.origin.steps.length ∧
    U.delivery.isKept = false

/-- What is told of the pipeline before it finishes. -/
def script : List Progress := Pipeline.script U.label U.origin.steps

/-- No other event can spoil what is said of events. -/
def Lasting (Q : List Event → Prop) : Prop :=
  ∀ es e, e.Beside U.watcher.id U.following.runs → Q es → Q (es ++ [e])

/-- Something that is said of the events of a world in which nobody but the run itself can tell its
observer anything, if the run has a lawful course. -/
structure Has (w : World) (Q : List Event → Prop) : Prop where
  shaped : w.Shaped U.following
  said : U.origin.Lawful U.run w.events → Q w.events

/-- The observer was told of the steps before the one that was called last, and something is so after the
end. -/
def Paced (close : List Event → Prop) (es : List Event) : Prop :=
  (deliveries U.run es = [] → toldTo U.watcher.id es = U.script.take (2 + ((calls U.run es).length - 1))) ∧
    (deliveries U.run es ≠ [] → close es)

/-- Before a step is called, the observer was told of all that came before. -/
def Owing (index : Nat) (es : List Event) : Prop :=
  deliveries U.run es = [] → (calls U.run es).length = index →
    toldTo U.watcher.id es = U.script.take (2 + index)

/-- Before the end of a run, the observer was told of all steps, or of some where one has failed. -/
def Closing (error : Option Fault) (es : List Event) : Prop :=
  match error with
  | none => U.Owing U.origin.steps.length es
  | some _ => deliveries U.run es = [] → ∃ i, toldTo U.watcher.id es = U.script.take i

/-- The end of a run, of which all steps were told if none has failed. -/
structure Ended (error : Option Fault) (tree : Value) (es : List Event) : Prop where
  deliveries_eq : deliveries U.run es = [(error, tree)]
  told : ∃ i, toldTo U.watcher.id es = U.script.take i
  whole : error = none → toldTo U.watcher.id es = U.script.take (2 + U.origin.steps.length)

variable {U}

theorem calls_beside {es : List Event} {e : Event} (h : e.Beside U.watcher.id U.following.runs) :
    calls U.run (es ++ [e]) = calls U.run es := by
  have hcall := h.calls U.run ⟨_, rfl, rfl⟩
  simp [hcall]

theorem deliveries_beside {es : List Event} {e : Event} (h : e.Beside U.watcher.id U.following.runs) :
    deliveries U.run (es ++ [e]) = deliveries U.run es := by
  have hdelivery := h.deliveries U.run ⟨_, rfl, rfl⟩
  simp [hdelivery]

theorem toldTo_concat_beside {es : List Event} {e : Event} {runs : Nat → Prop} {k : Nat}
    (h : e.Beside k runs) : toldTo k (es ++ [e]) = toldTo k es := by
  have hbeside : toldTo k [e] = [] := toldTo_beside (by simpa using h)
  rw [toldTo_append, hbeside, List.append_nil]

theorem Lasting.paced {close : List Event → Prop} (h : U.Lasting close) : U.Lasting (U.Paced close) := by
  intro es e he ⟨htold, hclose⟩
  rw [Paced, calls_beside he, deliveries_beside he, toldTo_concat_beside he]
  exact ⟨htold, fun hd => h es e he (hclose hd)⟩

theorem lasting_owing (index : Nat) : U.Lasting (U.Owing index) := by
  intro es e he h
  rwa [Owing, calls_beside he, deliveries_beside he, toldTo_concat_beside he]

theorem lasting_closing (error : Option Fault) : U.Lasting (U.Closing error) := by
  cases error with
  | none => exact lasting_owing _
  | some f =>
    intro es e he h
    rwa [Closing, deliveries_beside he, toldTo_concat_beside he]

theorem lasting_ended (error : Option Fault) (tree : Value) : U.Lasting (U.Ended error tree) := by
  intro es e he ⟨hd, htold, hwhole⟩
  constructor
  · rwa [deliveries_beside he]
  · rwa [toldTo_concat_beside he]
  · rwa [toldTo_concat_beside he]

theorem Paced.closing {close : List Event → Prop} {es : List Event} (h : U.Paced close es) (f : Fault) :
    U.Closing (some f) es := fun hd => ⟨_, h.1 hd⟩

/-- The run with its observer, and what is said of the events. -/
def tracking (U : Pursuit) {Q : List Event → Prop} (hQ : U.Lasting Q) : Tracking where
  toFollowing := U.following
  claim es := U.origin.Lawful U.run es → Q es
  skips es e he h hl := hQ es e he (h hl.of_append)

theorem tracked_iff {Q : List Event → Prop} {hQ : U.Lasting Q} {w : World} :
    w.Tracked (U.tracking hQ) ↔ U.Has w Q := ⟨fun h => ⟨h.shaped, h.claim⟩, fun h => ⟨h.shaped, h.said⟩⟩

namespace Has

variable {w : World} {Q R : List Event → Prop}

theorem mono (h : U.Has w Q) (hQR : Q w.events → R w.events) : U.Has w R :=
  ⟨h.shaped, fun hl => hQR (h.said hl)⟩

/-- The run as it is now. -/
theorem found (h : U.Has w Q) : ∃ x, w.runs[U.run]? = some x ∧ x.bare = U.origin.bare :=
  h.shaped.started U.run U.origin ⟨rfl, rfl⟩

theorem kept (h : U.Has w Q) (hQ : U.Lasting Q) {α : Type} {x : Action α}
    (hx : (U.tracking hQ).Keeps x) : U.Has (x.result w).2 Q ∧ w.Grown (x.result w).2 :=
  (hx w (tracked_iff.mpr h)).imp_left tracked_iff.mp

theorem told {e : Event} (h : U.Has w Q)
    (hQR : U.origin.Lawful U.run (w.events ++ [e]) → Q w.events → R (w.events ++ [e])) :
    U.Has (w.told e) R :=
  ⟨h.shaped.same rfl rfl rfl, fun hl => hQR hl (h.said hl.of_append)⟩

/-- A record is told. -/
theorem logged (h : U.Has w Q) (hQ : U.Lasting Q) (record : LogRecord) : U.Has (w.told (.log record)) Q :=
  h.told fun _ => hQ _ _ ⟨nofun, fun _ _ => rfl, fun _ _ => rfl⟩

/-- The observer is told of progress. -/
theorem noticed (h : U.Has w Q) (p : Progress)
    (hQR : ∀ es, toldTo U.watcher.id es = toldTo U.watcher.id w.events ++ [p] →
      calls U.run es = calls U.run w.events → deliveries U.run es = deliveries U.run w.events →
      Q w.events → R es) :
    U.Has { w with events := w.events ++ notice (some U.watcher) p } R := by
  refine ⟨h.shaped.same rfl rfl rfl, fun hl => hQR _ ?_ ?_ ?_ (h.said hl.of_append)⟩
  · rw [toldTo_append, toldTo_notice]
  · rcases notice_cases U.watcher p with h | ⟨record, h⟩ <;> simp [h, Event.call?]
  · rcases notice_cases U.watcher p with h | ⟨record, h⟩ <;> simp [h, Event.delivery?]

end Has

/-! ### Steps -/

variable {host : Host} {close : List Event → Prop} (hclose : U.Lasting close)

/-- The step that is due is called: the observer has been told of all steps before it. -/
theorem Has.called {w : World} {a : Invocation} (h : U.Has w (U.Owing a.index)) :
    U.Has (w.told (.called U.run a)) (U.Paced close) := by
  refine h.told fun hl hw => ?_
  obtain ⟨hl, hp⟩ := Run.Lawful.snoc_iff.mp hl
  obtain ⟨hdue, -⟩ := hp rfl
  have hfits := hl.fits
  rw [hdue] at hfits
  obtain ⟨hlen, hd, -⟩ := hfits
  have htold := hw hd hlen
  refine ⟨fun _ => ?_, fun hne => absurd ?_ hne⟩
  · rw [toldTo_append, htold]
    simp [hlen, toldTo]
  · rw [deliveries_append, hd]
    rfl

/-- The step is called that is due, and does what it does. -/
theorem Has.invoke (hh : host.Tracked (U.tracking hclose.paced)) {w : World} {index : Nat}
    (h : U.Has w (U.Owing index)) (x : Run) (t : Transformer) (tree : Value) :
    U.Has ((Pipeline.invoke host U.run x index t tree).result w).2 (U.Paced close) ∧
      w.Grown ((Pipeline.invoke host U.run x index t tree).result w).2 := by
  have hadded : U.Has { w with completions := w.completions ++ [Completion.start t.name] } (U.Owing index) := by
    refine ⟨h.shaped.grown (.of_eq rfl) (fun c hc k hk => .inr ?_) (fun _ _ hk => .inr hk)
      fun _ _ hk => .inr hk, h.said⟩
    rcases List.mem_append.mp hc with hc | hc
    · exact ⟨c, hc, hk⟩
    · obtain rfl := List.mem_singleton.mp hc
      cases hk
  have hcalled : U.Has (w.calling U.run x index t tree) (U.Paced close) :=
    hadded.called (a := w.invocation x index t tree)
  rw [result_invoke]
  obtain ⟨hv, hg⟩ := hcalled.kept hclose.paced (Tracking.Keeps.apply hh x index t tree w.completions.length)
  exact ⟨hv, (World.Grown.of_eq rfl : w.Grown (w.calling U.run x index t tree)).trans hg⟩

/-- The observer is told that a step is done. -/
theorem Has.stepped {w : World} (h : U.Has w (U.Paced close)) {x : Run} (hx : x.bare = U.origin.bare)
    {index : Nat} {t : Transformer} (ht : U.origin.steps[index]? = some t) :
    ∃ v, (tellStep x index t.name).result w = (.ok (), v) ∧ U.Has v (U.Owing (index + 1)) ∧ w.Grown v := by
  have hwatcher : x.watcher = some U.watcher := (congrArg Run.watcher hx).trans U.watched
  have hsteps : x.steps = U.origin.steps := (congrArg Run.steps hx :)
  refine ⟨_, ?_, h.noticed (stepDone U.origin.steps.length index t.name) ?_, .of_eq rfl⟩
  · rw [tellStep, hwatcher, hsteps]
    exact result_emit U.polite _ w
  · intro es htold hcalls hdeliveries hpaced hd hlen
    rw [hdeliveries] at hd
    rw [hcalls] at hlen
    rw [htold, hpaced.1 hd, hlen]
    exact take_concat (script_step ht)

/-- How a run stands after its next step was called. -/
inductive Paces (U : Pursuit) (close : List Event → Prop) (index : Nat) : Outcome Stride × World → Prop
  | held {v : World} {id : Nat} {c : Completion Resolution Resumption Empty} : U.Has v (U.Paced close) →
    v.completions[id]? = some c → Paces U close index (.ok (.held id c), v)
  | failed {v : World} {f : Fault} : U.Has v (U.Paced close) → Paces U close index (.ok (.failed f), v)
  | next {v : World} {tree : Value} : U.Has v (U.Owing (index + 1)) →
    Paces U close index (.ok (.next tree), v)
  | stopped {v : World} {f : Fault} : U.Has v (U.Paced close) → Paces U close index (.error f, v)

/-- What is owed for a step is paid when it is called. -/
theorem Has.stride (hh : host.Tracked (U.tracking hclose.paced)) {w : World} {index : Nat}
    (h : U.Has w (U.Owing index)) {t : Transformer} (ht : U.origin.steps[index]? = some t) (tree : Value) :
    U.Paces close index ((Pipeline.stride host U.run t index tree).result w) ∧
      w.Grown ((Pipeline.stride host U.run t index tree).result w).2 := by
  obtain ⟨x, hx, hbare⟩ := h.found
  rw [Pipeline.stride, result_bind_ok (result_run hx)]
  obtain ⟨hv, hg⟩ := h.invoke hclose hh x t tree
  generalize hinvoked : (Pipeline.invoke host U.run x index t tree).result w = invoked at hv hg
  obtain ⟨o, v⟩ := invoked
  cases o with
  | error f =>
    rw [result_bind_error hinvoked]
    exact ⟨.stopped hv, hg⟩
  | ok id =>
    rw [result_bind_ok hinvoked]
    cases hc : v.completions[id]? with
    | none =>
      have hmissing : (completion id).result v = (.error (.raised "KeyError" [.nat id]), v) := by
        rw [completion, result_get_bind, hc]
        rfl
      rw [result_bind_error hmissing]
      exact ⟨.stopped hv, hg⟩
    | some c =>
      rw [result_bind_ok (result_completion hc)]
      cases c.result? with
      | none => exact ⟨.held hv hc, hg⟩
      | some result =>
        dsimp only
        cases result.error with
        | some f => exact ⟨.failed hv, hg⟩
        | none =>
          obtain ⟨u, htold, hu, hgu⟩ := hv.stepped hbare ht
          dsimp only
          rw [result_bind_ok htold]
          exact ⟨.next hu, hg.trans hgu⟩

/-- How a run stands that has come as far as it comes at once. -/
inductive Stands (U : Pursuit) (close : List Event → Prop) : Outcome Halt × World → Prop
  | ended {v : World} {error : Option Fault} {tree : Value} : U.Has v (U.Closing error) →
    Stands U close (.ok (.ended error tree), v)
  | held {v : World} {index : Nat} {tree : Value} {name : String} {id : Nat}
    {c : Completion Resolution Resumption Empty} : U.Has v (U.Paced close) →
    index < U.origin.steps.length → v.completions[id]? = some c →
    Stands U close (.ok (.held index tree name id c), v)
  | stopped {v : World} {f : Fault} : U.Has v (U.Paced close) → Stands U close (.error f, v)

/-- The run goes on as far as it comes at once. -/
theorem Has.stretch (hh : host.Tracked (U.tracking hclose.paced)) {rest : List Transformer} {w : World}
    {index : Nat} (h : U.Has w (U.Owing index)) (hrest : U.origin.steps.drop index = rest) (tree : Value)
    (hle : index ≤ U.origin.steps.length) :
    U.Stands close ((Pipeline.stretch host U.run rest index tree).result w) ∧
      w.Grown ((Pipeline.stretch host U.run rest index tree).result w).2 := by
  -- on the steps that are left, with all told that is owed before the first one is called
  induction rest generalizing index tree w with
  | nil =>
    have hend : index = U.origin.steps.length :=
      Nat.le_antisymm hle (List.drop_eq_nil_iff.mp hrest)
    subst hend
    rw [Pipeline.stretch, result_bind_ok (result_log _ _ _ w)]
    exact ⟨.ended (h.logged (lasting_owing _) _), .of_eq rfl⟩
  | cons t rest ih =>
    obtain ⟨ht, hrest'⟩ := of_drop_eq_cons hrest
    have hlt := (List.getElem?_eq_some_iff.mp ht).1
    obtain ⟨hpaces, hg⟩ := h.stride hclose hh ht tree
    rw [stretch_cons, result_bind]
    generalize (Pipeline.stride host U.run t index tree).result w = done at hpaces hg
    cases hpaces with
    | stopped hv => exact ⟨.stopped hv, hg⟩
    | held hv hc => exact ⟨.held hv hlt hc, hg⟩
    | @failed v f hv =>
      dsimp only
      cases hsaid : f.inspect with
      | error g =>
        rw [result_bind_error (result_logFault_error hsaid _ _ _ v)]
        exact ⟨.stopped hv, hg⟩
      | ok said =>
        rw [result_bind_ok (result_logFault_ok hsaid _ _ _ v)]
        have hclosing := hv.mono fun h => h.closing f
        exact ⟨.ended (hclosing.logged (lasting_closing _) _), hg.trans (.of_eq rfl)⟩
    | next hv =>
      obtain ⟨hz, hgz⟩ := ih hv hrest' _ hlt
      exact ⟨hz, hg.trans hgz⟩

/-! ### The end -/

/-- What becomes of the result of a run when its end was told. -/
def passOn (host : Host) (r file : Nat) (delivery : Delivery) (error : Option Fault) (tree : Value) :
    Action Unit := do
  match delivery with
  | .kept => changeRun r (Run.keep error tree)
  | .callback k => tellRan k error tree file
  | .stored name receiver =>
    settle r file name error tree
    receive host r file receiver error tree

theorem result_deliver {w : World} {r : Nat} {x : Run} (hx : w.runs[r]? = some x) (delivery : Delivery)
    (error : Option Fault) (tree : Value) :
    (deliver host r delivery error tree).result w =
      (passOn host r x.file delivery error tree).result (w.told (.delivered r error tree)) := by
  rw [deliver, result_bind_ok (result_run hx)]
  cases delivery with
  | stored name receiver => cases receiver <;> rfl
  | _ => rfl

/-- Whatever becomes of the result of the run, something is so then. -/
def Closes (U : Pursuit) (endpoints : Grammar.Endpoints) (close : List Event → Prop) : Prop :=
  ∀ (host : Host) (w : World) (file : Nat) (error : Option Fault) (tree : Value),
    host.endpoints = endpoints → U.Has w (U.Ended error tree) →
    let v := ((passOn host U.run file U.delivery error tree).result w).2
    U.Has v (fun es => deliveries U.run es ≠ [] ∧ close es) ∧ w.Grown v

/-- The end of a run is told. -/
theorem Has.delivered {w : World} {error : Option Fault} (h : U.Has w (U.Closing error)) (tree : Value) :
    U.Has (w.told (.delivered U.run error tree)) (U.Ended error tree) := by
  refine h.told fun hl hw => ?_
  obtain ⟨hl, hp⟩ := Run.Lawful.snoc_iff.mp hl
  have hfits := hl.fits
  have hd := hfits.deliveries_eq_nil hp.not_ended
  have hsame : toldTo U.watcher.id (w.events ++ [.delivered U.run error tree]) =
      toldTo U.watcher.id w.events := by
    simp [toldTo]
  refine ⟨by simp [hd], ?_, ?_⟩
  · rw [hsame]
    cases error with
    | some f => exact hw hd
    | none =>
      rw [hp rfl] at hfits
      exact ⟨_, hw hd hfits.1⟩
  · rintro rfl
    rw [hp rfl] at hfits
    rw [hsame]
    exact hw hd hfits.1

section Closing

variable {endpoints : Grammar.Endpoints} (hcloses : U.Closes endpoints close)
  (hendpoints : host.endpoints = endpoints)
include hcloses hendpoints

/-- The result of the run is delivered. -/
theorem Has.deliver {w : World} {error : Option Fault} (h : U.Has w (U.Closing error)) (tree : Value) :
    U.Has ((Pipeline.deliver host U.run U.delivery error tree).result w).2 (U.Paced close) ∧
      w.Grown ((Pipeline.deliver host U.run U.delivery error tree).result w).2 := by
  obtain ⟨x, hx, -⟩ := h.found
  rw [result_deliver hx]
  obtain ⟨hv, hg⟩ := hcloses host _ x.file error tree hendpoints (h.delivered tree)
  exact ⟨hv.mono fun h => ⟨fun hnil => absurd hnil h.1, fun _ => h.2⟩,
    (World.Grown.of_eq rfl : w.Grown (w.told (.delivered U.run error tree))).trans hg⟩

include hclose

/-- The run ends or waits where it has come to. -/
theorem Stands.act {halt : Halt} {v : World} (h : U.Stands close (.ok halt, v)) :
    U.Has ((halt.act host U.run U.delivery U.delivery.isKept).result v).2 (U.Paced close) ∧
      v.Grown ((halt.act host U.run U.delivery U.delivery.isKept).result v).2 := by
  cases h with
  | ended h => exact h.deliver hcloses hendpoints _
  | @held v index tree name id c h hlt hc =>
    have hat : (U.tracking hclose.paced).At v
        (holdUp host ⟨U.run, index, tree, U.delivery⟩ U.delivery.isKept name id c) := by
      refine .holdUp (fun hkept => .inr (show U.following.resumes _ from ⟨rfl, rfl, hlt, hkept⟩))
        (fun u _ hu => ?_) hc
      have hclosing := (tracked_iff.mp hu).mono fun h => h.closing (notSynchronous name)
      exact (hclosing.deliver hcloses hendpoints tree).imp_left tracked_iff.mpr
    exact (hat (tracked_iff.mpr h)).imp_left tracked_iff.mp

/-- The run goes on with the step that is due. -/
theorem Has.drive (hh : host.Tracked (U.tracking hclose.paced)) {w : World} {index : Nat}
    (h : U.Has w (U.Owing index)) (hle : index ≤ U.origin.steps.length) (tree : Value) :
    let v := ((Pipeline.drive host U.run U.delivery U.delivery.isKept (U.origin.steps.drop index) index
      tree).result w).2
    U.Has v (U.Paced close) ∧ w.Grown v := by
  intro v
  obtain ⟨hv, hg⟩ := h.stretch hclose hh rfl tree hle
  have hdrive := congrArg (·.result w) (@drive_stretch host U.run (U.origin.steps.drop index) index tree
    U.delivery U.delivery.isKept)
  rw [result_bind] at hdrive
  generalize (Pipeline.stretch host U.run (U.origin.steps.drop index) index tree).result w = S at hv hg hdrive
  obtain ⟨o, u⟩ := S
  cases o with
  | error f =>
    have hvu : v = u := congrArg Prod.snd hdrive
    rw [hvu]
    cases hv with
    | stopped hu => exact ⟨hu, hg⟩
  | ok halt =>
    obtain ⟨hz, hgz⟩ := hv.act hclose hcloses hendpoints
    have hvz : v = ((halt.act host U.run U.delivery U.delivery.isKept).result u).2 := congrArg Prod.snd hdrive
    rw [hvz]
    exact ⟨hz, hg.trans hgz⟩

/-- The run goes on after a step that has held it up. -/
theorem At.resume (hh : host.Tracked (U.tracking hclose.paced)) {k : Resumption} (hk : U.following.resumes k)
    (result : Resolution) (w : World) : (U.tracking hclose.paced).At w (Pipeline.resume host k result) := by
  obtain ⟨r, index, tree, delivery⟩ := k
  obtain ⟨rfl, rfl, hlt, hkept⟩ := hk
  intro hw
  have hw := tracked_iff.mp hw
  obtain ⟨x, hx, hbare⟩ := hw.found
  have hsteps : x.steps = U.origin.steps := (congrArg Run.steps hbare :)
  obtain ⟨t, ht⟩ : ∃ t, U.origin.steps[index]? = some t := ⟨_, List.getElem?_eq_getElem hlt⟩
  rw [Pipeline.resume, result_bind_ok (result_run hx)]
  dsimp only
  cases result.error with
  | some f =>
    dsimp only
    rw [failStep]
    cases hsaid : f.inspect with
    | error g =>
      rw [result_bind_error (result_logFault_error hsaid _ _ _ w)]
      exact ⟨tracked_iff.mpr hw, .refl w⟩
    | ok said =>
      rw [result_bind_ok (result_logFault_ok hsaid _ _ _ w)]
      have hclosing := hw.mono fun h => h.closing f
      obtain ⟨hv, hg⟩ := (hclosing.logged (lasting_closing _) _).deliver hcloses hendpoints tree
      exact ⟨tracked_iff.mpr hv, (World.Grown.of_eq rfl : w.Grown (w.told _)).trans hg⟩
  | none =>
    have hname : ((x.steps[index]?).map (·.name)).getD "" = t.name := by
      rw [hsteps, ht]
      rfl
    obtain ⟨v, htold, hv, hg⟩ := hw.stepped hbare ht
    dsimp only
    rw [hname, result_bind_ok htold, hsteps, ← hkept]
    obtain ⟨hu, hgu⟩ := hv.drive hclose hcloses hendpoints hh hlt (result.tree.getD tree)
    exact ⟨tracked_iff.mpr hu, hg.trans hgu⟩

end Closing

/-- The run stays tracked through plugins at any depth. -/
theorem nested (hclose : U.Lasting close) (endpoints : Grammar.Endpoints)
    (standard : List (Plugin.Metadata Attacher)) (surroundings : Plugin.Surroundings Attacher)
    (hcloses : U.Closes endpoints close) (depth : Nat) :
    (Host.nested endpoints standard surroundings depth).Tracked (U.tracking hclose.paced) :=
  Tracking.nested _ endpoints standard surroundings (fun _ _ result w hendpoints hh hk =>
    At.resume hclose hcloses hendpoints hh hk result w) depth

end Pursuit

end TextPipeline.Pipeline
