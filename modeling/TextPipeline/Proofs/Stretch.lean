import TextPipeline.Proofs.Receiving

/-! A chain comes at once to its end, or to a step that is pending, and what is done with it then is
another matter. The way there is the same whoever waits for the result. A fault that stops it on the way is
no error, comes of the observer or of a step that has failed with what cannot be described, or was raised by
a step that had passed on its result before. -/

namespace TextPipeline.Pipeline

open TextPipeline.Transform
open TextPipeline.Pipeline.Action
open World (nobody)

/-- How far a chain comes at once. -/
inductive Halt where
  | ended (error : Option Fault) (tree : Value)
  /-- A step is pending. -/
  | held (index : Nat) (tree : Value) (name : String) (id : Nat)
    (c : Completion Resolution Resumption Empty)

/-- What a chain does where it has come to. -/
def Halt.act (host : Host) (r : Nat) (delivery : Delivery) (sync : Bool) : Halt → Action Unit
  | .ended error tree => deliver host r delivery error tree
  | .held index tree name id c => holdUp host ⟨r, index, tree, delivery⟩ sync name id c

/-- Runs the steps that are left as far as they come at once. -/
def stretch (host : Host) (r : Nat) : List Transformer → Nat → Value → Action Halt
  | [], _, tree => do
    log .debug Transform.logger "Transformer chain complete"
    return .ended none tree
  | t :: rest, index, tree => do
    let x ← run r
    let id ← invoke host r x index t tree
    let c ← completion id
    match c.result? with
    | some result =>
      match result.error with
      | some f =>
        logFault .debug Transform.logger ("Transformer '" ++ t.name ++ "' failed: ") f
        return .ended (some f) tree
      | none =>
        tellStep x index t.name
        stretch host r rest (index + 1) (result.tree.getD tree)
    | none => return .held index tree t.name id c

variable {host : Host} {r : Nat} {x : Run} {rest : List Transformer} {index : Nat} {tree : Value}

theorem stretch_cons (t : Transformer) :
    stretch host r (t :: rest) index tree = stride host r t index tree >>= fun
      | .held id c => pure (.held index tree t.name id c)
      | .failed f => do
        logFault .debug Transform.logger ("Transformer '" ++ t.name ++ "' failed: ") f
        return .ended (some f) tree
      | .next new => stretch host r rest (index + 1) new := by
  rw [stretch]
  refine Eq.trans ?_ (stride_bind ..).symm
  rfl

/-- To whom the result of a chain goes, and whether it may wait, matters only where it halts. -/
theorem drive_stretch (delivery : Delivery) (sync : Bool) :
    drive host r delivery sync rest index tree =
      stretch host r rest index tree >>= Halt.act host r delivery sync := by
  induction rest generalizing index tree with
  | nil =>
    rw [drive, stretch, bind_assoc]
    rfl
  | cons t rest ih =>
    rw [drive_cons, stretch_cons, bind_assoc]
    refine bind_congr fun s => ?_
    cases s with
    | held id c => rfl
    | failed f =>
      dsimp only
      rw [failStep, bind_assoc]
      rfl
    | next new => exact ih

/-! ### What stops a chain -/

/-- A step has passed on its result, and has failed with a fault then. -/
def World.Betrayed (v : World) (host : Host) (r file : Nat) (f : Fault) : Prop :=
  deliveries r v.events = [] ∧
    ∃ a u, (calls r v.events).getLast? = some a ∧ v.result? a.completion ≠ none ∧
      (Pipeline.call host ⟨a.tree, file, a.completion, true⟩ a.step).result u = (.error f, v)

/-- A fault comes of what is noted of a call only if the call failed with it, and with what is no error
or after its result was passed on. -/
theorem conclude_error {w v : World} {id : Nat} {t : Transformer}
    {c : Completion Resolution Resumption Empty} (h : w.Answerable id t c) {answer : Outcome Answer}
    {f : Fault} (hr : (conclude host id t answer).result w = (.error f, v)) :
    answer = .error f ∧ v = w ∧
      (f.isError = false ∨ t.style.takesNext = true ∧ w.result? id ≠ none) := by
  have hconcludes : w.Concludes id t c answer (.error f, v) := hr ▸ h.concludes answer
  cases hconcludes with
  | raised hf => exact ⟨rfl, rfl, hf⟩

/-- A chain of which a step was called has not told its end. -/
theorem World.Invoked.deliveries_eq_nil {w v : World} {t : Transformer}
    (h : w.Invoked v r x index t tree) : deliveries r v.events = [] := by
  refine h.ready.deliveries_eq_nil ?_
  split
  · exact Standing.noConfusion
  · unfold Standing.settle
    split <;> exact Standing.noConfusion

/-- What stops a chain in the call of a step that is due. -/
theorem World.Ready.stopped (hh : host.Steady) {w v : World} {t : Transformer} {f : Fault}
    (h : w.Ready r x (.due index tree)) (ht : x.steps[index]? = some t)
    (hinvoke : (invoke host r x index t tree).result w = (.error f, v))
    (hinv : w.Invoked v r x index t tree) : f.isError = false ∨ v.Betrayed host r x.file f := by
  obtain ⟨c, hanswerable, -⟩ := h.answerable hh ht (applying x index t) rfl
    (o := (w.call host r x index t tree).1) (v := (w.call host r x index t tree).2) rfl
  obtain ⟨hcall, rfl, hf⟩ := conclude_error hanswerable (concluded_of_invoke hinvoke)
  refine hf.imp_right fun ⟨hn, hresult⟩ => ?_
  refine ⟨hinv.deliveries_eq_nil, w.invocation x index t tree,
    (w.calling r x index t tree).told (applying x index t), hinv.last_call, hresult, ?_⟩
  refine Eq.trans ?_ (Prod.ext hcall rfl)
  rw [World.call, hn]
  rfl

theorem World.Ready.deliveries_log {w : World} {s : Standing} (h : w.Ready r x s) (hs : s ≠ .ended)
    (record : LogRecord) : deliveries r (w.told (.log record)).events = [] := by
  rw [World.events_told, deliveries_append, h.deliveries_eq_nil hs]
  rfl

/-- How a chain halts that was to go on with a step. -/
inductive Halted (host : Host) (r : Nat) (x : Run) : Outcome Halt × World → Prop
  | ended {v : World} {error : Option Fault} {tree : Value} : v.runs[r]? = some x →
    tree.isNone = false → deliveries r v.events = [] →
    Halted host r x (.ok (.ended error tree), v)
  | held {v : World} {index : Nat} {tree : Value} {name : String} {a : Invocation}
    {c : Completion Resolution Resumption Empty} : v.runs[r]? = some x →
    (calls r v.events).getLast? = some a →
    v.completions[a.completion]? = some c → c.result? = none →
    Halted host r x (.ok (.held index tree name a.completion c), v)
  | stopped {v : World} {f : Fault} : v.Stopped x.watcher r f ∨ v.Betrayed host r x.file f →
    Halted host r x (.error f, v)

theorem World.Sound.isNone_getD {w : World} (h : w.Sound) {id : Nat} {result : Resolution}
    (hr : w.result? id = some result) (htree : tree.isNone = false) :
    (result.tree.getD tree).isNone = false := by
  cases hnew : result.tree with
  | none => exact htree
  | some new =>
    have hmem : result ∈ resolutions id w.events := by
      rw [h.answered, hr]
      exact List.mem_singleton_self result
    exact isNone_of_isNode (h.rooted _ result hmem new hnew)

/-- A chain that is to go on with a step halts at its end or at a pending step, unless something stops
it. -/
theorem stretch_halted (hh : host.Steady) {w : World} (h : w.Ready r x (.due index tree))
    (hrest : x.steps.drop index = rest) (htree : tree.isNone = false) :
    Halted host r x ((stretch host r rest index tree).result w) := by
  -- on the steps that are left, of which the first one is due in a sound world
  induction rest generalizing index tree w with
  | nil =>
    rw [stretch, result_bind_ok (result_log _ _ _ w)]
    exact .ended h.run htree (h.deliveries_log (by simp) _)
  | cons t rest ih =>
    obtain ⟨ht, hrest'⟩ := of_drop_eq_cons hrest
    have hstride := h.strode hh ht
    rw [stretch_cons, result_bind]
    generalize (stride host r t index tree).result w = done at hstride
    cases hstride with
    | stopped hinvoke hinv => exact .stopped ((h.stopped hh ht hinvoke hinv).imp_left .abort)
    | held _ hinv hc hr => exact .held hinv.ready.run hinv.last_call hc hr
    | failed _ hinv hr he =>
      have hfailed := hinv.failed hr he
      dsimp only
      cases hsaid : Fault.inspect _ with
      | error g =>
        rw [result_bind_error (result_logFault_error hsaid _ _ _ _)]
        exact .stopped (.inl (.step hfailed.run hfailed.stands hsaid))
      | ok said =>
        rw [result_bind_ok (result_logFault_ok hsaid _ _ _ _)]
        exact .ended hinv.ready.run htree (hfailed.deliveries_log (by simp) _)
    | untold _ htold => exact .stopped (.inl (.observer (emit_error htold)))
    | next _ _ hinv hr he =>
      exact ih (hinv.due hr he) hrest' (hinv.ready.sound.isNone_getD hr htree)

end TextPipeline.Pipeline
