import TextPipeline.Proofs.Sound

/-! Every action keeps the chains sound. An action is steady if it does, and if it leaves alone the
runs that nobody waits for, those excepted that it owns. What transformers do is steady, whatever they
pass on and in whatever order, and so are chains and everything that starts or resumes them. -/

namespace TextPipeline.Pipeline

open TextPipeline.Transform
open TextPipeline.Pipeline.Action
open World (nobody)

/-- In a world an action keeps the chains sound and does to them only what it has rights to. -/
def Safe (own : Rights) {α : Type} (w : World) (x : Action α) : Prop :=
  (x.result w).2.Sound ∧ w.Extends own (x.result w).2

/-- An action that is safe in every sound world. -/
def Steady (own : Rights) {α : Type} (x : Action α) : Prop := ∀ w : World, w.Sound → Safe own w x

namespace Safe

variable {own : Rights} {α β : Type} {w v : World}

theorem mono {other : Rights} {x : Action α} (h : Safe other w x) (ho : other.Within own) :
    Safe own w x := ⟨h.1, h.2.mono ho⟩

theorem pure (hw : w.Sound) (a : α) : Safe own w (pure a) := ⟨hw, .refl own w⟩

theorem throw (hw : w.Sound) (f : Fault) : Safe own w (throw f : Action α) := ⟨hw, .refl own w⟩

theorem bind {x : Action α} {f : α → Action β} (hx : Safe own w x)
    (hf : ∀ a v, x.result w = (.ok a, v) → v.Sound → w.Extends own v → Safe own v (f a)) :
    Safe own w (x >>= f) := by
  rw [Safe, result_bind]
  unfold Safe at hx
  generalize hr : x.result w = r at *
  obtain ⟨o, v⟩ := r
  cases o with
  | error e => exact hx
  | ok a =>
    have h := hf a v rfl hx.1 hx.2
    exact ⟨h.1, hx.2.trans h.2⟩

/-- A first action that owns no runs. -/
theorem after {x : Action α} {f : α → Action β} (hx : Safe nobody w x)
    (hf : ∀ a v, x.result w = (.ok a, v) → v.Sound → w.Extends nobody v → Safe own v (f a)) :
    Safe own w (x >>= f) := by
  refine (hx.mono (World.nobody_within own)).bind fun a v hr hv _ => hf a v hr hv ?_
  have := hx.2
  rwa [hr] at this

/-- A first action whose result is known. -/
theorem bind_ok {x : Action α} {f : α → Action β} {a : α} (hx : x.result w = (.ok a, v))
    (he : w.Extends own v) (hf : Safe own v (f a)) : Safe own w (x >>= f) := by
  rw [Safe, result_bind, hx]
  exact ⟨hf.1, he.trans hf.2⟩

/-- A first action that only looks. -/
theorem bind_same {x : Action α} {f : α → Action β} {a : α} (hx : x.result w = (.ok a, w))
    (hf : Safe own w (f a)) : Safe own w (x >>= f) :=
  bind_ok hx (.refl own w) hf

end Safe

namespace Steady

variable {own : Rights} {α β : Type}

theorem mono {other : Rights} {x : Action α} (h : Steady other x) (ho : other.Within own) :
    Steady own x := fun w hw => ⟨(h w hw).1, (h w hw).2.mono ho⟩

theorem of_nobody {x : Action α} (h : Steady nobody x) : Steady own x :=
  h.mono (World.nobody_within own)

/-- An action whose change to the chains is none, apart from the results of its own runs and from
further ways to pass on the results of its own steps. -/
theorem of_undisturbed {x : Action α}
    (h : ∀ w : World, (x.result w).2.runs.map Run.bare = w.runs.map Run.bare ∧
      (x.result w).2.completions = w.completions ∧
      ((x.result w).2.jobs.filterMap Job.resume?).Sublist (w.jobs.filterMap Job.resume?) ∧
      (∃ es, (x.result w).2.events = w.events ++ es ∧ ∀ e ∈ es, e.Neutral) ∧
      (∀ r, ¬own.runs r → (x.result w).2.runs[r]? = w.runs[r]?) ∧
      ∀ id, ¬own.steps id ∨ w.completions.length ≤ id → w.Unnamed id →
        (x.result w).2.Unnamed id) : Steady own x := fun w hw => by
  obtain ⟨hr, hc, hj, ⟨es, he, hn⟩, ho, hs⟩ := h w
  exact ⟨hw.undisturbed hr hc hj he hn fun id hid => hs id (.inr hid),
    .undisturbed own hr hc hj he hn ho fun id hid => hs id (.inl hid)⟩

theorem of_local {x : Action α} (hx : Local x) : Steady own x :=
  of_undisturbed fun w => by
    rw [hx.result w]
    exact ⟨rfl, rfl, List.Sublist.refl _, ⟨_, rfl, fun e he => .of_ofChain (hx.quiet w.core e he)⟩,
      fun _ _ => rfl, fun _ _ hu => hu⟩

theorem pure (a : α) : Steady own (pure a) := of_local (.pure a)

theorem throw (f : Fault) : Steady own (throw f : Action α) := of_local (.throw f)

theorem bind {x : Action α} {f : α → Action β} (hx : Steady own x) (hf : ∀ a, Steady own (f a)) :
    Steady own (x >>= f) := fun w hw => (hx w hw).bind fun a v _ hv _ => hf a v hv

theorem attempt {x : Action α} (hx : Steady own x) : Steady own (attempt x) := hx

theorem ite {c : Prop} [Decidable c] {x y : Action α} (hx : Steady own x) (hy : Steady own y) :
    Steady own (if c then x else y) := by
  split
  · exact hx
  · exact hy

theorem get {f : World → Action α} (hf : ∀ w, Steady own (f w)) : Steady own (get >>= f) :=
  fun w hw => Safe.bind_same (result_get w) (hf w w hw)

theorem tell {e : Event} (he : e.Neutral) : Steady own (tell e) :=
  of_undisturbed fun _ =>
    ⟨rfl, rfl, List.Sublist.refl _, ⟨[e], rfl, by simpa using he⟩, fun _ _ => rfl,
      fun _ _ hu => hu⟩

theorem forM {f : α → Action PUnit} (hf : ∀ a, Steady own (f a)) (l : List α) :
    Steady own (l.forM f) := by
  induction l with
  | nil => exact pure _
  | cons a l ih => exact bind (hf a) fun _ => ih

theorem run (r : Nat) : Steady own (run r) := by
  refine get fun w => ?_
  split
  · exact pure _
  · exact throw _

theorem completion (id : Nat) : Steady own (completion id) := by
  refine get fun w => ?_
  split
  · exact pure _
  · exact throw _

/-- Work is put on the loop that lets no chain go on. -/
theorem enqueue {j : Job} (hj : j.resume? = none) : Steady own (enqueue j) :=
  of_undisturbed fun w => by
    refine ⟨rfl, rfl, ?_, ⟨[], (List.append_nil _).symm, by simp⟩, fun _ _ => rfl, fun _ _ hu => hu⟩
    show List.Sublist (List.filterMap Job.resume? (w.jobs ++ [j])) _
    simp [hj]

/-- A run of its own is given results. -/
theorem changeRun {r : Nat} {f : Run → Run} (hr : own.runs r) (hf : ∀ x, (f x).bare = x.bare) :
    Steady own (changeRun r f) :=
  of_undisturbed fun w => by
    refine ⟨?_, rfl, List.Sublist.refl _, ⟨[], (List.append_nil _).symm, by simp⟩, fun n hn => ?_,
      fun _ _ hu => hu⟩
    · show (w.runs.modify r f).map Run.bare = w.runs.map Run.bare
      apply List.ext_getElem?
      intro i
      rw [List.getElem?_map, List.getElem?_map, List.getElem?_modify]
      split
      · cases w.runs[i]? <;> simp [hf]
      · simp
    · show (w.runs.modify r f)[n]? = w.runs[n]?
      have hne : r ≠ n := fun h => hn (h ▸ hr)
      simp [hne]

/-- What is kept outside the chains is changed. -/
theorem modify {f : World → World} (hr : ∀ w, (f w).runs = w.runs)
    (hc : ∀ w, (f w).completions = w.completions) (hj : ∀ w, (f w).jobs = w.jobs)
    (he : ∀ w, (f w).events = w.events)
    (hs : ∀ w id, w.Unnamed id → (f w).Unnamed id) : Steady own (modify f) :=
  of_undisturbed fun w => by
    rw [result_modify]
    exact ⟨congrArg _ (hr w), hc w, hj w ▸ List.Sublist.refl _, ⟨[], by simp [he w], by simp⟩,
      fun n _ => congrArg (·[n]?) (hr w), fun id _ => hs w id⟩

end Steady

/-- A host through which nothing is done to the chains but what is steady: it attaches plugins without
touching them, and lets a chain go on that stands where it is resumed. -/
structure Host.Steady (host : Host) : Prop where
  use : ∀ on plugin options, Local (host.use on plugin options)
  process : ∀ on value, Pipeline.Steady nobody (host.process on value)
  resume : ∀ k result (w : World), w.Sound → w.Stands k.run (.settle k.index k.tree result) →
    k.run ∉ w.awaited → Safe (.run k.run) w (host.resume k result)

namespace Steady

variable {own : Rights} {host : Host}

/-- A chain goes on that stands where it is resumed, at once or when it has its turn. -/
theorem goOn (hh : host.Steady) {k : Resumption} {result : Resolution} {w : World} (hw : w.Sound)
    (hs : w.Stands k.run (.settle k.index k.tree result)) (hk : k.run ∉ w.awaited) :
    Safe (.run k.run) w (goOn host k result) := by
  have ⟨x, hx, _⟩ := hs
  refine .bind_same (result_run hx) (.bind_same (result_get w) ?_)
  split
  · exact hh.resume k result w hw hs hk
  · refine .after (of_local (.log _ _ _) w hw) fun _ v _ hv he => ?_
    have hs' := he.stands hs id hk (Standing.settle_ne_waiting _ _ _)
    exact hv.enqueue hs' (he.idle _ _ hx id hk).1 rfl rfl rfl rfl rfl

/-- All chains go on that waited for a step. -/
theorem goOnAll (hh : host.Steady) {ks : List Resumption} {result : Resolution} {w : World}
    (hw : w.Sound) (hn : (ks.map (·.run)).Nodup)
    (hk : ∀ k ∈ ks, w.Stands k.run (.settle k.index k.tree result) ∧ k.run ∉ w.awaited) :
    Safe (.ofRuns (· ∈ ks.map (·.run))) w (ks.forM fun k => Pipeline.goOn host k result) := by
  induction ks generalizing w with
  | nil => exact .pure hw _
  | cons k ks ih =>
    obtain ⟨hs, ha⟩ := hk k (by simp)
    rw [List.map_cons, List.nodup_cons] at hn
    have hfirst := goOn hh hw hs ha
    refine (hfirst.mono (.ofRuns fun r hr => by rw [show r = k.run from hr]; exact List.mem_cons_self ..)).bind
      fun _ v hr hv _ => ?_
    have he := hfirst.2
    rw [hr] at he
    refine (ih hv hn.2 fun k' hk' => ?_).mono (.ofRuns fun r hr => List.mem_cons_of_mem _ hr)
    obtain ⟨hs', ha'⟩ := hk k' (by simp [hk'])
    have hne : k'.run ≠ k.run := fun h => hn.1 (h ▸ List.mem_map_of_mem hk')
    obtain ⟨x, hx, -⟩ := id hs'
    exact ⟨he.stands hs' hne ha' (Standing.settle_ne_waiting _ _ _), (he.idle _ _ hx hne ha').1⟩

/-- A pending step is resolved, and what waited for it goes on. -/
theorem resolve_pending (hh : host.Steady) {w : World} (hw : w.Sound) {id : Nat}
    {c : Completion Resolution Resumption Empty} (hc : w.completions[id]? = some c)
    (hp : c.phase = .pending) {result : Resolution} (hroot : Rooted result) :
    Safe (.step id) w (resolve host id result) ∧
      w.events ++ [.resolved id result] <+: ((resolve host id result).result w).2.events := by
  have hr : c.resolve result =
      .ok (some ({ c with phase := .done result, onDone := [] }, c.onDone)) := by
    simp [Completion.resolve, hp]
  have hresolving : w.Resolving { w with
      completions := w.completions.set id { c with phase := .done result, onDone := [] }
      events := w.events ++ [.resolved id result] } id c result := ⟨hc, hp, rfl, rfl, rfl, rfl, rfl⟩
  obtain ⟨hn, hk⟩ := hresolving.goes_on hw
  obtain ⟨hsound, hext⟩ := goOnAll hh (hresolving.sound hw hroot) hn hk
  rw [Safe, Pipeline.resolve, result_bind_ok (result_completion hc), hr]
  refine ⟨⟨hsound, hresolving.extends_.trans_of hext (fun r hr => .inr (.inl ?_)) fun _ hs => hs.elim⟩, hext.events⟩
  obtain ⟨k, hk, rfl⟩ := List.mem_map.mp hr
  exact World.mem_awaited hc hk

theorem resolve (hh : host.Steady) (id : Nat) {result : Resolution} (hroot : Rooted result) :
    Steady (.step id) (resolve host id result) := by
  intro w hw
  refine (completion id w hw).bind fun c v hr _ _ => ?_
  obtain ⟨hid, rfl⟩ := of_result_completion hr
  cases hp : c.phase with
  | abandoned =>
    have hr : c.resolve result = .ok none := by simp [Completion.resolve, hp]
    rw [hr]
    exact of_local (.log _ _ _) v hw
  | done _ =>
    have hr : c.resolve result = .error (Completion.resolvedTwice c.label) := by
      simp [Completion.resolve, hp]
    rw [hr]
    exact .throw hw _
  | pending =>
    have h := (resolve_pending hh hw hid hp hroot).1
    rwa [Safe, Pipeline.resolve, result_bind_ok (result_completion hid)] at h

/-! ### What transformers do -/

theorem next (hh : host.Steady) (id : Nat) (error tree : Value) :
    Steady (.step id) (next host id error tree) :=
  bind (completion id) fun _ => get fun _ => bind (of_local (.ofOutcome _)) fun _ =>
    bind (of_local (.share _)) fun _ => resolve hh id (rooted_ofCall _ _ _)

theorem scene_next (hh : host.Steady) (scene : Scene) (error tree : Argument) :
    Steady scene.rights (scene.next host error tree) := by
  refine bind (of_local (.argument _)) fun _ => bind (of_local (.argument _)) fun _ => ?_
  intro w hw
  refine Safe.bind (of_local (.require _ _) w hw) fun _ v hr hv _ => ?_
  have hnext : scene.hasNext = true := by
    cases h : scene.hasNext with
    | true => rfl
    | false =>
      rw [h] at hr
      cases (Prod.mk.inj hr).1
  have hsteps : scene.rights.steps scene.completion := ⟨hnext, rfl⟩
  exact (next hh _ _ _).mono (.step hsteps) v hv

theorem nextLater (scene : Scene) (threaded : Bool) (error tree : Value) :
    Steady own (scene.nextLater threaded error tree) :=
  ite (enqueue rfl) (pure _)

/-- A kept way to pass on a result is called, which takes no rights. -/
theorem callNext (hh : host.Steady) (id : String) (error tree : Value) :
    Steady nobody (callNext host id error tree) := by
  intro w hw
  refine Safe.bind_same (result_get w) ?_
  split
  · rename_i c hc
    obtain ⟨hv, he⟩ := next hh c error tree w hw
    refine ⟨hv, he.of_named fun hu => hu id ?_⟩
    obtain ⟨pre, post, hnexts, -⟩ := List.lookup_eq_some_iff.mp hc
    simp [hnexts]
  · exact .throw hw _
  · exact .throw hw _

theorem passing (guarded : Bool) {pass : Action Unit} (h : Steady own pass) :
    Steady own (passing guarded pass) := by
  refine ite (bind (attempt h) fun r => ?_) h
  cases r with
  | ok _ => exact tell (.of_ofChain rfl)
  | error f => exact ite (tell (.of_ofChain rfl)) (throw _)

/-- A way to pass on the result of a step that was called is kept by who owns the step. -/
theorem keepWay {w : World} (hw : w.Sound) (id : String) (way : Option Nat)
    (hway : ∀ n, way = some n → own.steps n ∧ n < w.completions.length) :
    Safe own w (MonadState.modifyGet fun w => ((), { w with nexts := (id, way) :: w.nexts })) := by
  have unnamed {n : Nat} (hn : ¬own.steps n ∨ w.completions.length ≤ n) (hu : w.Unnamed n) :
      World.Unnamed { w with nexts := (id, way) :: w.nexts } n := by
    intro name hm
    rcases List.mem_cons.mp hm with heq | hm
    · obtain ⟨hs, hlt⟩ := hway n (Prod.mk.inj heq).2.symm
      rcases hn with hn | hn
      · exact hn hs
      · omega
    · exact hu name hm
  exact ⟨hw.undisturbed rfl rfl (List.Sublist.refl _) (List.append_nil _).symm (by simp)
      fun _ hn => unnamed (.inr hn),
    .undisturbed own rfl rfl (List.Sublist.refl _) (List.append_nil _).symm (by simp)
      (fun _ _ => rfl) fun _ hn => unnamed (.inl hn)⟩

/-- To keep the way to pass on the result matters only to the step itself. -/
theorem saveNext (scene : Scene) (id : String) : Steady scene.rights (scene.saveNext id) := by
  intro w hw
  rw [Scene.saveNext, Scene.way]
  split
  · rename_i hnext
    rw [bind_assoc]
    refine (completion scene.completion w hw).bind fun c v hr hv _ => ?_
    obtain ⟨hid, rfl⟩ := of_result_completion hr
    refine .bind_same rfl (keepWay hv id _ fun n hn => ?_)
    obtain rfl := Option.some.inj hn
    exact ⟨⟨hnext, rfl⟩, (List.getElem?_eq_some_iff.mp hid).1⟩
  · exact .bind_same rfl (keepWay hw id none fun n hn => by cases hn)

/-- Whatever a transformer does is steady. -/
theorem perform (hh : host.Steady) (scene : Scene) (waits : Bool) (acts : List Act) :
    Steady scene.rights (perform host scene waits acts) := by
  induction acts with
  | nil => exact pure _
  | cons act rest ih =>
    cases act with
    | change f =>
      exact get fun _ => bind (of_local (.content _)) fun _ => bind (of_local (.file _)) fun _ =>
        bind (of_local (.withStore _)) fun _ => bind (of_local (.setFile _ _)) fun _ =>
        bind (forM (fun _ => tell (.of_ofChain rfl)) _) fun _ => bind (of_local (.raise _)) fun _ => ih
    | mapLiterals type f records =>
      exact bind (of_local (.withStore _)) fun _ => bind (of_local (.raise _)) fun _ =>
        bind (forM (fun _ => tell (.of_ofChain rfl)) _) fun _ => ih
    | observe label f =>
      exact bind (of_local (.reveal _)) fun _ => bind (of_local (.file _)) fun _ =>
        bind (of_local (.ofOutcome _)) fun _ => bind (tell (.of_ofChain rfl)) fun _ => ih
    | log record => exact bind (tell (.of_ofChain rfl)) fun _ => ih
    | next guarded error tree => exact bind (passing _ (scene_next hh _ _ _)) fun _ => ih
    | saveNext id =>
      exact bind (saveNext scene id) fun _ => ih
    | callNext guarded id error tree =>
      exact bind (passing _ (bind (of_local (.argument _)) fun _ => bind (of_local (.argument _))
        fun _ => of_nobody (callNext hh _ _ _))) fun _ => ih
    | laterNext threaded error tree =>
      exact bind (of_local (.argument _)) fun _ => bind (of_local (.argument _)) fun _ =>
        get fun _ => bind (of_local (.require _ _)) fun _ => bind (nextLater _ _ _ _) fun _ => ih
    | use name plugin options =>
      exact bind (of_local (.named _)) fun _ => get fun _ => bind (of_local (.ofOutcome _)) fun _ =>
        bind (of_local (.argument _)) fun _ => bind (of_local (hh.use _ _ _)) fun _ => ih
    | process name value =>
      exact bind (of_local (.named _)) fun _ => bind (of_local (.argument _)) fun _ =>
        bind (of_nobody (hh.process _ _)) fun _ => bind (tell (.of_ofChain rfl)) fun _ => ih
    | sleep => exact ite (pure _) ih
    | raise f => exact throw f
    | give v => exact bind (of_local (.argument _)) fun _ => bind (of_local (.share _)) fun _ => pure _
    | giveReport reason =>
      exact bind (of_local (.file _)) fun _ => bind (of_local (.argument _)) fun _ =>
        bind (of_local (.lift _)) fun _ => bind (of_local (.setFile _ _)) fun _ => pure _
    | giveAwaitable => exact pure _

theorem performAll (hh : host.Steady) (scene : Scene) (t : Transformer) :
    Steady scene.rights (performAll host scene t) := by
  refine bind (of_local (.reveal _)) fun _ => bind (of_local (.file _)) fun _ =>
    bind (perform hh scene false _) fun r => ?_
  cases r <;> exact pure _

/-- A call of a transformer is steady. -/
theorem call (hh : host.Steady) (scene : Scene) (t : Transformer) :
    Steady scene.rights (call host scene t) := by
  unfold Pipeline.call
  split
  · exact pure _
  · exact pure _
  · exact pure _
  · refine bind (attempt (performAll hh scene t)) fun r => ?_
    cases r with
    | ok v => exact pure _
    | error f => exact ite (pure _) (throw _)
  · refine bind (of_local (.tellArguments t)) fun _ => bind (performAll hh scene t) fun v => ?_
    split <;> exact pure _

end Steady

end TextPipeline.Pipeline
