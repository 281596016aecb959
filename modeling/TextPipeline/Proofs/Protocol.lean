import TextPipeline.Proofs.Listening
import TextPipeline.Proofs.Pacing

/-! The protocol of progress. What the observer of a pipeline has been told at any moment is a beginning
of the script with the end of a pipeline that has finished, or a beginning of the script and one failure
(`Follows`). A pipeline without a receiver returns its text with the whole script told and raises its
fault with the failure told, and the receiver of any other is called then (`Answered`). Nothing is told of a
fault that cannot be described or has no text (`Balked`). -/

namespace TextPipeline.Pipeline

open TextPipeline.Transform
open TextPipeline.Pipeline.Action
open World (nobody)

section Told

variable {label : String} {steps : List Transformer}

/-- What has been told is a beginning of the script with its end, or of the script with one failure after
it. -/
def Follows (label : String) (steps : List Transformer) (ps : List Progress) : Prop :=
  (∃ l, ps <+: script label steps ++ [finished l]) ∨
    ∃ i said, ps = (script label steps).take i ++ [aborted said]

/-- Everything has been told of a pipeline that has finished, or has failed with a fault: what the fault
says was told last. -/
def Concluded (label : String) (steps : List Transformer) (error : Option Fault) (ps : List Progress) :
    Prop :=
  match error with
  | none => ∃ l, ps = script label steps ++ [finished l]
  | some f => ∃ i said, (∃ w : World, w.textOf (.error f) = .ok said) ∧
    ps = (script label steps).take i ++ [aborted said]

theorem follows_take (i : Nat) : Follows label steps ((script label steps).take i) :=
  .inl ⟨"", (List.take_prefix ..).trans (List.prefix_append ..)⟩

theorem Concluded.follows {error : Option Fault} {ps : List Progress} (h : Concluded label steps error ps) :
    Follows label steps ps := by
  cases error with
  | none =>
    obtain ⟨l, rfl⟩ := h
    exact .inl ⟨l, List.prefix_rfl⟩
  | some f =>
    obtain ⟨i, said, -, rfl⟩ := h
    exact .inr ⟨i, said, rfl⟩

/-- What was told before followed the script, too. -/
theorem Follows.of_prefix {ps qs : List Progress} (h : Follows label steps ps) (hq : qs <+: ps) :
    Follows label steps qs := by
  rcases h with ⟨l, h⟩ | ⟨i, said, rfl⟩
  · exact .inl ⟨l, hq.trans h⟩
  · rcases List.prefix_concat_iff.mp hq with rfl | hq
    · exact .inr ⟨i, said, rfl⟩
    · exact .inl ⟨"", hq.trans ((List.take_prefix ..).trans (List.prefix_append ..))⟩

theorem toldTo_of_isPrefix {k : Nat} {es fs : List Event} (h : es <+: fs) : toldTo k es <+: toldTo k fs := by
  obtain ⟨gs, rfl⟩ := h
  rw [toldTo_append]
  exact List.prefix_append ..

/-- A receiver that does not fail. -/
def TextReceiver.Calm : TextReceiver → Prop
  | .callback k | .silent k => k.fault = none
  | .future _ => True

/-- Everything has been told of a pipeline and nothing was told after that; if its receiver is a callback,
it was called next. -/
def Answered (k : Nat) (label : String) (steps : List Transformer) (receiver : TextReceiver)
    (es : List Event) : Prop :=
  ∃ error pre post, es = pre ++ post ∧ Concluded label steps error (toldTo k pre) ∧ toldTo k post = [] ∧
    ∀ j, receiver = .callback j → ∃ text names contents rest,
      post = .processed error text names contents :: rest

theorem Answered.told {k : Nat} {receiver : TextReceiver} {es : List Event}
    (h : Answered k label steps receiver es) : ∃ error, Concluded label steps error (toldTo k es) := by
  obtain ⟨error, pre, post, rfl, hpre, hpost, -⟩ := h
  refine ⟨error, ?_⟩
  rwa [toldTo_append, hpost, List.append_nil]

theorem Answered.skip {k : Nat} {receiver : TextReceiver} {es : List Event} {e : Event}
    {runs : Nat → Prop} (h : Answered k label steps receiver es) (he : e.Beside k runs) :
    Answered k label steps receiver (es ++ [e]) := by
  obtain ⟨error, pre, post, rfl, hpre, hpost, hcall⟩ := h
  refine ⟨error, pre, post ++ [e], List.append_assoc .., hpre, ?_, fun j hj => ?_⟩
  · rw [Pursuit.toldTo_concat_beside he, hpost]
  · obtain ⟨text, names, contents, rest, rfl⟩ := hcall j hj
    exact ⟨text, names, contents, rest ++ [e], rfl⟩

/-- A pipeline with a receiver fails: its observer is told of the fault, or nobody can be told of it. -/
theorem result_fail {c : Watcher} (hc : Polite (some c)) (f : Fault) (file : Nat) (w : World) :
    (∃ g v, w.Unsaid f g ∧ (v = w ∨ ∃ record, v = w.told (.log record)) ∧
      ∀ receiver, (fail (some c) receiver f file).result w = (.error g, v)) ∨
    ∃ described said, w.textOf (.error f) = .ok said ∧
      ∀ receiver, (fail (some c) receiver f file).result w =
        (tellProcessed receiver (some f) .none file).result (w.failed (some c) file described said) := by
  refine (fail_logged (some c) f w file).imp_right fun ⟨described, said, hsaid, h⟩ => ?_
  refine ⟨described, said, hsaid, fun receiver => ?_⟩
  rw [h, result_bind_ok (result_emit hc _ _)]
  rfl

/-- The world after a receiver that does not fail was told. -/
def World.replying (w : World) (receiver : TextReceiver) (error : Option Fault) (text : Value)
    (file : Nat) : World :=
  match receiver with
  | .callback _ => w.toldProcessed error text file
  | .silent _ => w
  | .future future => { w with jobs := w.jobs ++ [.deliver future (settlement error text)] }

theorem result_tellProcessed_calm {receiver : TextReceiver} (h : receiver.Calm) (error : Option Fault)
    (text : Value) (file : Nat) (w : World) :
    (tellProcessed receiver error text file).result w = (.ok (), w.replying receiver error text file) := by
  cases receiver with
  | callback j =>
    obtain ⟨fault⟩ := j
    obtain rfl : fault = none := h
    rfl
  | silent j =>
    obtain ⟨fault⟩ := j
    obtain rfl : fault = none := h
    rfl
  | future id => rfl

theorem World.answered_replying {k : Nat} {w : World} {error : Option Fault}
    (h : Concluded label steps error (toldTo k w.events)) (receiver : TextReceiver) (text : Value)
    (file : Nat) : Answered k label steps receiver (w.replying receiver error text file).events := by
  refine ⟨error, w.events, ?_⟩
  cases receiver with
  | callback j =>
    refine ⟨[.processed error text _ _], rfl, h, rfl, fun _ _ => ⟨_, _, _, _, rfl⟩⟩
  | _ => exact ⟨[], (List.append_nil _).symm, h, rfl, nofun⟩

theorem World.Shaped.replying {F : Following} {w : World} (h : w.Shaped F) (receiver : TextReceiver)
    (error : Option Fault) (text : Value) (file : Nat) :
    (w.replying receiver error text file).Shaped F ∧ w.Grown (w.replying receiver error text file) := by
  cases receiver with
  | callback j => exact ⟨h.same rfl rfl rfl, .of_eq rfl⟩
  | silent j => exact ⟨h, .refl w⟩
  | future id =>
    refine ⟨h.grown (.of_eq rfl) (fun c hc k hk => .inr ⟨c, hc, hk⟩) (fun k result hk => .inr ?_)
      fun c future hc => .inr ?_, .of_eq rfl⟩
    · exact (List.mem_append.mp hk).resolve_right fun hj => nomatch List.mem_singleton.mp hj
    · exact (List.mem_append.mp hc).resolve_right fun hj => nomatch List.mem_singleton.mp hj

end Told

/-! ### A run that must not wait -/

namespace Pursuit

variable {U : Pursuit}

/-- The result of a run that must not wait is kept. -/
theorem closes_kept (h : U.delivery = .kept) (endpoints : Grammar.Endpoints) :
    U.Closes endpoints fun es => ∃ error tree, U.Ended error tree es := by
  intro host w file error tree _ hw v
  obtain ⟨hv, hg⟩ := hw.kept (lasting_ended error tree) (x := changeRun U.run (Run.keep error tree))
    (.changeRun fun _ => rfl)
  have hpass : v = ((changeRun U.run (Run.keep error tree)).result w).2 := by
    show ((passOn host U.run file U.delivery error tree).result w).2 = _
    rw [h]
    rfl
  rw [hpass]
  exact ⟨hv.mono fun h => ⟨by simp [h.deliveries_eq], error, tree, h⟩, hg⟩

theorem lasting_kept : U.Lasting fun es => ∃ error tree, U.Ended error tree es :=
  fun es e he ⟨error, tree, h⟩ => ⟨error, tree, lasting_ended error tree es e he h⟩

/-! ### A run in a pipeline that has a receiver -/

/-- A pipeline came to a fault of which nobody can be told, or its tree could not be written for what is no
error. -/
inductive Balked (endpoints : Grammar.Endpoints) (c : Compilation) (r : Nat) (es : List Event) : Prop
  | ran {u : World} {f g : Fault} {tree : Value} : (some f, tree) ∈ deliveries r u.events →
    u.Unsaid f g → u.events <+: es → Balked endpoints c r es
  | written {host : Host} {tree : Value} {u v : World} {f : Fault} : host.endpoints = endpoints →
    (stringify host c.processor tree (.handle (.file c.file)) c.settings).result u = (.error f, v) →
    (f.isError = false ∨ ∃ g, v.Unsaid f g) → v.events <+: es → Balked endpoints c r es

theorem Balked.concat {endpoints : Grammar.Endpoints} {c : Compilation} {r : Nat} {es : List Event}
    (h : Balked endpoints c r es) (e : Event) : Balked endpoints c r (es ++ [e]) := by
  cases h with
  | ran hended hunsaid hu => exact .ran hended hunsaid (hu.trans (List.prefix_append ..))
  | written hhost hwritten hf hv => exact .written hhost hwritten hf (hv.trans (List.prefix_append ..))

/-- How it stands with a pipeline whose run has ended: everything has been told, or nobody can be told of
what it came to. -/
def Closed (U : Pursuit) (endpoints : Grammar.Endpoints) (c : Compilation) (es : List Event) : Prop :=
  Answered U.watcher.id U.label U.origin.steps c.receiver es ∨
    Balked endpoints c U.run es ∧ ∃ i, toldTo U.watcher.id es = U.script.take i

theorem lasting_closed (endpoints : Grammar.Endpoints) (c : Compilation) : U.Lasting (U.Closed endpoints c) := by
  rintro es e he (h | ⟨hbalked, htold⟩)
  · exact .inl (h.skip he)
  · refine .inr ⟨hbalked.concat e, ?_⟩
    rwa [toldTo_concat_beside he]

/-- The run has ended, and so much of the script has been told. -/
def Told (U : Pursuit) (i : Nat) (es : List Event) : Prop :=
  deliveries U.run es ≠ [] ∧ toldTo U.watcher.id es = U.script.take i

theorem lasting_told (i : Nat) : U.Lasting (U.Told i) := by
  intro es e he h
  rwa [Told, deliveries_beside he, toldTo_concat_beside he]

/-- What comes next in the script is told. -/
theorem Has.next {w : World} {i : Nat} (h : U.Has w (U.Told i)) {p : Progress} (hp : U.script[i]? = some p) :
    U.Has { w with events := w.events ++ notice (some U.watcher) p } (U.Told (i + 1)) :=
  h.noticed p fun es htold _ hd ⟨hne, hw⟩ => ⟨by rwa [hd], by rw [htold, hw, take_concat hp]⟩

/-- The run has ended, and everything has been told of its pipeline. -/
def Over (U : Pursuit) (error : Option Fault) (es : List Event) : Prop :=
  deliveries U.run es ≠ [] ∧ Concluded U.label U.origin.steps error (toldTo U.watcher.id es)

theorem lasting_over (error : Option Fault) : U.Lasting (U.Over error) := by
  intro es e he h
  rwa [Over, deliveries_beside he, toldTo_concat_beside he]

/-- How a pipeline has failed with a fault in a world of which something was said: everything has been told,
or nobody can be told of the fault. -/
def Failed (U : Pursuit) (receiver : TextReceiver) (w : World) (f : Fault) (Q : List Event → Prop)
    (es : List Event) : Prop :=
  deliveries U.run es ≠ [] ∧ (Answered U.watcher.id U.label U.origin.steps receiver es ∨
    Q w.events ∧ (∃ g, w.Unsaid f g) ∧ w.events <+: es ∧ ∃ i, toldTo U.watcher.id es = U.script.take i)

section Receiver

variable {receiver : TextReceiver} (hcalm : receiver.Calm)
include hcalm

/-- The receiver is told when everything else has been told. -/
theorem Has.answered {w : World} {error : Option Fault} (h : U.Has w (U.Over error)) (text : Value)
    (file : Nat) :
    let v := ((tellProcessed receiver error text file).result w).2
    U.Has v (fun es => deliveries U.run es ≠ [] ∧
      Answered U.watcher.id U.label U.origin.steps receiver es) ∧ w.Grown v := by
  rw [result_tellProcessed_calm hcalm]
  obtain ⟨hshaped, hg⟩ := h.shaped.replying receiver error text file
  have hevents : ∃ es, (w.replying receiver error text file).events = w.events ++ es := by
    cases receiver with
    | callback j => exact ⟨_, rfl⟩
    | _ => exact ⟨[], (List.append_nil _).symm⟩
  obtain ⟨es, hes⟩ := hevents
  refine ⟨⟨hshaped, fun hl => ?_⟩, hg⟩
  rw [hes] at hl
  obtain ⟨hd, htold⟩ := h.said hl.of_append
  refine ⟨fun hnil => hd ?_, World.answered_replying htold receiver text file⟩
  rw [hes, deliveries_append] at hnil
  exact (List.append_eq_nil_iff.mp hnil).1

/-- The pipeline fails. -/
theorem Has.failed {w : World} {Q : List Event → Prop} (h : U.Has w Q)
    (hQ : ∀ es, Q es → ∃ i, U.Told i es) (f : Fault) (file : Nat) :
    let v := ((fail (some U.watcher) receiver f file).result w).2
    U.Has v (U.Failed receiver w f Q) ∧ w.Grown v := by
  rcases result_fail U.polite f file w with ⟨g, v, hunsaid, hv, hfail⟩ | ⟨described, said, hsaid, hfail⟩
  · rw [hfail]
    rcases hv with rfl | ⟨record, rfl⟩
    · refine ⟨h.mono fun hq => ?_, .refl v⟩
      obtain ⟨i, hne, htold⟩ := hQ _ hq
      exact ⟨hne, .inr ⟨hq, ⟨g, hunsaid⟩, List.prefix_rfl, i, htold⟩⟩
    · refine ⟨h.told fun _ hq => ?_, .of_eq rfl⟩
      obtain ⟨i, hi⟩ := hQ _ hq
      obtain ⟨hne, htold⟩ := lasting_told i _ (.log record) ⟨nofun, fun _ _ => rfl, fun _ _ => rfl⟩ hi
      exact ⟨hne, .inr ⟨hq, ⟨g, hunsaid⟩, List.prefix_append .., i, htold⟩⟩
  · have hpartly : U.Has w fun es => ∃ i, U.Told i es := h.mono (hQ _)
    have hlogged := hpartly.logged (fun es e he ⟨i, hi⟩ => ⟨i, lasting_told i es e he hi⟩)
      (w.failure file described)
    have hfailed : U.Has (w.failed (some U.watcher) file described said) (U.Over (some f)) :=
      hlogged.noticed (aborted said) fun es htold _ hd ⟨i, hne, hw⟩ =>
        ⟨by rwa [hd], i, said, ⟨w, hsaid⟩, by rw [htold, hw]; rfl⟩
    obtain ⟨hv, hg⟩ := hfailed.answered hcalm .none file
    rw [hfail]
    exact ⟨hv.mono fun h => ⟨h.1, .inl h.2⟩, (World.Grown.of_eq rfl : w.Grown _).trans hg⟩

/-- A text is put into its file, and the receiver is told. -/
theorem Has.completed {w : World} (h : U.Has w (U.Told (2 + U.origin.steps.length + 2))) (file : Nat)
    (text : Value) :
    let v := ((complete (some U.watcher) file text >>= fun _ =>
      changeRun U.run (fun x => { x with compiled := x.compiled.or (some text) }) >>= fun _ =>
        tellProcessed receiver none text file).result w).2
    U.Has v (fun es => deliveries U.run es ≠ [] ∧
      Answered U.watcher.id U.label U.origin.steps receiver es) ∧ w.Grown v := by
  obtain ⟨hset, hg⟩ := h.kept (lasting_told _)
    (x := setFile file { w.files.getD file File.empty with contents := text })
    (.of_local (.setFile _ _) (.setFile _ _))
  have hdone : U.Has _ (U.Over none) := hset.noticed
    (finished (File.label { w.files.getD file File.empty with contents := text }))
    fun es htold _ hd ⟨hne, hw⟩ => ⟨by rwa [hd], _, by rw [htold, hw, script, take_script]⟩
  obtain ⟨hchanged, hg'⟩ := hdone.kept (lasting_over none)
    (x := changeRun U.run fun x => { x with compiled := x.compiled.or (some text) }) (.changeRun fun _ => rfl)
  obtain ⟨hv, hg''⟩ := hchanged.answered hcalm text file
  have hcomplete : (complete (some U.watcher) file text).result w =
      (emit (some U.watcher) (finished (File.label { w.files.getD file File.empty with contents := text }))).result
        ((setFile file { w.files.getD file File.empty with contents := text }).result w).2 := rfl
  rw [result_emit U.polite] at hcomplete
  rw [result_bind_ok hcomplete]
  exact ⟨hv, (hg.trans (.of_eq rfl)).trans (hg'.trans hg'')⟩

/-- What becomes of the tree that a run has come to: it is written as text, or the pipeline fails. -/
theorem Has.compiled {w : World} (host : Host) {c : Compilation} (hwatcher : c.watcher = some U.watcher)
    (hreceiver : c.receiver = receiver) {error : Option Fault} {tree : Value}
    (h : U.Has w (U.Ended error tree)) :
    let v := ((compile host U.run c error tree).result w).2
    U.Has v (fun es => deliveries U.run es ≠ [] ∧ U.Closed host.endpoints c es) ∧ w.Grown v := by
  obtain ⟨p, file, settings, watcher, receiver'⟩ := c
  obtain rfl : watcher = some U.watcher := hwatcher
  obtain rfl : receiver' = receiver := hreceiver
  have hne {es : List Event} (h : U.Ended error tree es) : deliveries U.run es ≠ [] := by
    simp [h.deliveries_eq]
  cases error with
  | some f =>
    obtain ⟨hv, hg⟩ := h.failed hcalm (fun es hes => hes.told.imp fun i hi => ⟨hne hes, hi⟩) f file
    refine ⟨hv.mono fun h => ⟨h.1, ?_⟩, hg⟩
    rcases h.2 with ha | ⟨hended, ⟨g, hunsaid⟩, hprefix, htold⟩
    · exact .inl ha
    · exact .inr ⟨.ran (by rw [hended.deliveries_eq]; exact List.mem_singleton_self _) hunsaid hprefix, htold⟩
  | none =>
    have hwhole : U.Has w (U.Told (2 + U.origin.steps.length)) := h.mono fun h => ⟨hne h, h.whole rfl⟩
    obtain ⟨u, hran, hu, hgu⟩ : ∃ u, (tellStage (some U.watcher) "run").result w = (.ok (), u) ∧
        U.Has u (U.Told (2 + U.origin.steps.length + 1)) ∧ w.Grown u :=
      ⟨_, result_emit U.polite (stageDone 2 "run") w, hwhole.next (script_after 0), .of_eq rfl⟩
    rw [compile, result_bind_ok hran, result_bind_ok (result_attempt _ u)]
    have hmute : Respects World.Mute (stringify host p tree (.handle (.file file)) settings) :=
      .stringify _ _ _ _
    obtain ⟨hv, hg⟩ := hu.kept (lasting_told _) (.of_local (.stringify host _ _ _ _) hmute)
    generalize hwritten : (stringify host p tree (.handle (.file file)) settings).result u = written at hv hg
    obtain ⟨o, v⟩ := written
    have hgv : w.Grown v := hgu.trans hg
    cases o with
    | error f =>
      dsimp only
      cases hf : f.isError with
      | true =>
        rw [if_pos rfl]
        obtain ⟨hz, hgz⟩ := hv.failed hcalm (fun _ h => ⟨_, h⟩) f file
        refine ⟨hz.mono fun h => ⟨h.1, ?_⟩, hgv.trans hgz⟩
        rcases h.2 with ha | ⟨-, hunsaid, hprefix, htold⟩
        · exact .inl ha
        · exact .inr ⟨.written rfl hwritten (.inr hunsaid) hprefix, htold⟩
      | false =>
        rw [if_neg (by simp)]
        exact ⟨hv.mono fun h => ⟨h.1, .inr ⟨.written rfl hwritten (.inl hf) List.prefix_rfl, _, h.2⟩⟩, hgv⟩
    | ok text =>
      have htold : (tellStage (some U.watcher) "stringify").result v = (.ok (), _) :=
        result_emit U.polite (stageDone 3 "stringify") v
      dsimp only
      rw [result_bind_ok htold]
      obtain ⟨hz, hgz⟩ := (hv.next (script_after 1)).completed hcalm file text
      exact ⟨hz.mono fun h => ⟨h.1, .inl h.2⟩, (hgv.trans (.of_eq rfl)).trans hgz⟩

/-- A run in a pipeline with a receiver: the receiver is told, unless nobody can be told of what the pipeline
came to. -/
theorem closes_compilation {name : String} (hname : name ≠ "") {c : Compilation}
    (hwatcher : c.watcher = some U.watcher) (hreceiver : c.receiver = receiver)
    (hdelivery : U.delivery = .stored name (.compilation c)) (endpoints : Grammar.Endpoints) :
    U.Closes endpoints (U.Closed endpoints c) := by
  intro host w file error tree hendpoints hw v
  obtain ⟨hv, hg⟩ := hw.kept (lasting_ended error tree) (x := settle U.run file name error tree)
    (.settle U.run file name error tree)
  obtain ⟨hu, hg'⟩ := hv.compiled hcalm host hwatcher hreceiver
  have hpass : v = ((compile host U.run c error tree).result
      ((settle U.run file name error tree).result w).2).2 := by
    show ((passOn host U.run file U.delivery error tree).result w).2 = _
    rw [hdelivery, passOn, result_bind_ok (result_settle hname U.run file error tree w),
      result_settle hname]
    rfl
  rw [hpass, ← hendpoints]
  exact ⟨hu, hg.trans hg'⟩

end Receiver

end Pursuit

end TextPipeline.Pipeline
