import TextPipeline.Proofs.Delay

/-! What becomes of the result of a chain that a processor runs: the tree is stored in the file, and the
result goes to its receiver, or is written as text first. -/

namespace TextPipeline.Pipeline

open TextPipeline.Transform
open TextPipeline.Pipeline.Action
open World (nobody)

/-- A file in which the tree of a processor is stored. -/
def File.holding (f : File) (name : String) (tree : Value) : File :=
  (f.store (.str name) treeKey tree).toOption.getD f

/-- The world in which the tree of a processor is stored in a file. -/
def World.storing (w : World) (id : Nat) (name : String) (tree : Value) : World :=
  { w with files := w.files.set id (File.holding (w.files.getD id File.empty) name tree) }

section Named

variable {name : String} (hn : name ≠ "")
include hn

theorem openNamespace_ok (f : File) : ∃ g, f.openNamespace (.str name) = .ok g := by
  have htruthy : (Value.str name).truthy = true := by simp [Value.truthy, hn]
  have hopen : f.openNamespace (.str name) =
      if f.hasNamespace (.str name) then .ok f
      else .ok { f with namespaces := f.namespaces ++ [(.str name, [])] } := by
    unfold File.openNamespace
    rw [htruthy]
    rfl
  rw [hopen]
  split
  · exact ⟨_, rfl⟩
  · exact ⟨_, rfl⟩

/-- The tree of a processor can always be stored, since the processor has a name. -/
theorem result_storeTree (id : Nat) (tree : Value) (w : World) :
    (storeTree id name tree).result w = (.ok (), w.storing id name tree) := by
  obtain ⟨g, hg⟩ := openNamespace_ok hn (w.files.getD id File.empty)
  obtain ⟨h, hh⟩ : ∃ h, (w.files.getD id File.empty).store (.str name) treeKey tree = .ok h := by
    unfold File.store
    rw [hg]
    exact ⟨_, rfl⟩
  have hstore : (storeTree id name tree).result w =
      ((do setFile id (← (liftM (File.store (w.files.getD id File.empty) (.str name) treeKey tree) :
        Action File)) : Action Unit)).result w := rfl
  rw [hstore, hh, World.storing, File.holding, hh]
  rfl

/-- No tree to start with can only mean that none was given and none is stored. -/
theorem startTree_error {id : Nat} {tree : Value} {w v : World} {f : Fault}
    (h : (startTree id name tree).result w = (.error f, v)) : f.isKind "MissingTreeError" = true := by
  unfold startTree at h
  split at h
  · obtain ⟨g, hg⟩ := openNamespace_ok hn (w.files.getD id File.empty)
    have hfile : (file id).result w = (.ok (w.files.getD id File.empty), w) := rfl
    have hopen : (liftM (File.openNamespace (w.files.getD id File.empty) (.str name)) :
        Action File).result w = (.ok g, w) := by
      rw [result_lift, hg]
    have hset : (setFile id g).result w = (.ok ⟨⟩, { w with files := w.files.set id g }) := rfl
    rw [storedTree, result_bind_ok hfile, result_bind_ok hopen, result_bind_ok hset] at h
    have hmissing : f = storedTree.missing name g := by
      split at h
      · split at h
        · cases (Prod.mk.inj h).1
        · exact (Except.error.inj (Prod.mk.inj h).1).symm
      · exact (Except.error.inj (Prod.mk.inj h).1).symm
    rw [hmissing]
    show (Fault.ancestry 8 "MissingTreeError").contains "MissingTreeError" = true
    decide
  · cases (Prod.mk.inj h).1

end Named

/-- The world in which the tree that a run came to is stored, if it came to one. -/
def World.settling (w : World) (r file : Nat) (name : String) (error : Option Fault) (tree : Value) :
    World :=
  if error.isNone && !tree.isNone then
    { (w.storing file name tree).told (.produced name file tree) with
      runs := w.runs.modify r fun x => { x with settled := x.settled.or (some tree) } }
  else w

theorem result_settle {name : String} (hn : name ≠ "") (r file : Nat) (error : Option Fault)
    (tree : Value) (w : World) :
    (settle r file name error tree).result w = (.ok (), w.settling r file name error tree) := by
  unfold settle World.settling
  split
  · rw [result_bind_ok (result_storeTree hn file tree w)]
    rfl
  · rfl

/-- Passes the result of a run on to its receiver. -/
def receive (host : Host) (r file : Nat) (receiver : TreeReceiver) (error : Option Fault)
    (tree : Value) : Action Unit :=
  match receiver with
  | .callback k => tellRan k error tree file
  | .future future => enqueue (.deliver future (settlement error tree))
  | .compilation c => compile host r c error tree

/-- The result of a chain that a processor runs is stored, and passed on then. -/
theorem result_deliver_stored {host : Host} {r : Nat} {x : Run} {w : World} {name : String}
    (hn : name ≠ "") (hx : w.runs[r]? = some x) (receiver : TreeReceiver) (error : Option Fault)
    (tree : Value) :
    (deliver host r (.stored name receiver) error tree).result w =
      (receive host r x.file receiver error tree).result
        ((w.told (.delivered r error tree)).settling r x.file name error tree) := by
  have htell : (Action.tell (.delivered r error tree)).result w =
      (.ok (), w.told (.delivered r error tree)) := rfl
  rw [deliver, result_bind_ok (result_run hx), result_bind_ok htell]
  dsimp only
  rw [result_bind_ok (result_settle hn r x.file error tree _)]
  rfl

/-- No step was called between two worlds, no run has changed, and none has come to its end. -/
structure World.Aside (w v : World) : Prop where
  runs_eq : v.runs = w.runs
  calls_eq : ∀ r, calls r v.events = calls r w.events
  deliveries_eq : ∀ r, deliveries r v.events = deliveries r w.events

theorem World.Aside.trans {u v w : World} (h : u.Aside v) (h' : v.Aside w) : u.Aside w :=
  ⟨h'.runs_eq.trans h.runs_eq, fun r => (h'.calls_eq r).trans (h.calls_eq r),
    fun r => (h'.deliveries_eq r).trans (h.deliveries_eq r)⟩

theorem Local.aside {α : Type} {y : Action α} (hy : Local y) {w v : World} {o : Outcome α}
    (h : y.result w = (o, v)) : w.Aside v := by
  obtain ⟨-, rfl⟩ := Prod.mk.inj ((hy.result w).symm.trans h)
  have hneutral : ∀ e ∈ (y.result w.core.world).2.events, e.Neutral :=
    fun e he => .of_ofChain (hy.quiet w.core e he)
  refine ⟨rfl, fun r => ?_, fun r => ?_⟩
  · rw [World.events_moved, calls_append, calls_neutral hneutral, List.append_nil]
  · rw [World.events_moved, deliveries_append, deliveries_neutral hneutral, List.append_nil]

/-- The world after the receiver of a whole pipeline was told of its result. -/
def World.toldProcessed (w : World) (error : Option Fault) (text : Value) (file : Nat) : World :=
  w.told (.processed error text (w.namesOf (.file file))
    (w.reveal (w.files.getD file File.empty).contents))

theorem result_tellProcessed (w : World) (k : Callback) (error : Option Fault) (text : Value)
    (file : Nat) :
    (tellProcessed (.callback k) error text file).result w =
      (((raise k.fault).result w).1, w.toldProcessed error text file) := by
  obtain ⟨fault⟩ := k
  cases fault <;> rfl

section Told

variable {host : Host} {w : World}

/-- What is logged when a pipeline with a receiver has failed with a fault that is described. -/
def World.failure (w : World) (file : Nat) (described : String) : LogRecord :=
  ⟨.debug, logger, "Processing " ++ (w.files.getD file File.empty).label ++ " failed: " ++ described⟩

/-- What is told of progress that is not stopped by its observer. -/
def notice (watcher : Option Watcher) (p : Progress) : List Event :=
  match watcher with
  | none => []
  | some watcher => .progress watcher.id p ::
    match (watcher.reaction p).map Fault.render with
    | some (.ok said) => [.log ⟨.warning, Progress.logger, "Progress callback failed: " ++ said⟩]
    | _ => []

/-- An observer stops what it is told of in every world, or in none. -/
theorem emit_cases (watcher : Option Watcher) (p : Progress) :
    (∃ g k, ∀ w, (emit watcher p).result w = (.error g, w.told (.progress k p))) ∨
      ∀ w, (emit watcher p).result w = (.ok (), { w with events := w.events ++ notice watcher p }) := by
  cases watcher with
  | none =>
    refine .inr fun w => ?_
    rw [notice, List.append_nil]
    rfl
  | some watcher =>
    have hemit (w : World) : (emit (some watcher) p).result w =
        (ofLogged (Progress.observed (watcher.reaction p))).result (w.told (.progress watcher.id p)) :=
      rfl
    simp only [hemit, notice]
    cases watcher.reaction p with
    | none =>
      refine .inr fun w => ?_
      show (Except.ok (), { w with events := (w.events ++ [Event.progress watcher.id p]) ++ [] }) = _
      rw [List.append_nil]
      rfl
    | some f =>
      simp only [result_observed, Option.map_some]
      cases hf : f.isError with
      | false => exact .inl ⟨f, watcher.id, fun w => rfl⟩
      | true =>
        cases f.render with
        | error g => exact .inl ⟨g, watcher.id, fun w => rfl⟩
        | ok said =>
          refine .inr fun w => ?_
          simp [World.told]

/-- What an observer is told of a pipeline that has failed with a fault that says something. -/
def aborted (said : String) : Progress :=
  .at_ "error" ("Processing failed: " ++ said) 0 0 [(.str "error", .str said)]

/-- The world in which a pipeline for a receiver has failed with a fault that is described and has a text. -/
def World.failed (w : World) (watcher : Option Watcher) (file : Nat) (described said : String) : World :=
  let u := w.told (.log (w.failure file described))
  { u with events := u.events ++ notice watcher (aborted said) }

theorem World.events_failed (w : World) (watcher : Option Watcher) (file : Nat) (described said : String) :
    (w.failed watcher file described said).events =
      w.events ++ .log (w.failure file described) :: notice watcher (aborted said) :=
  List.append_assoc ..

/-- Nobody can be told of a fault: it cannot be described, or it has no text, and that comes to another
fault. -/
def World.Unsaid (w : World) (f g : Fault) : Prop :=
  f.inspect = .error g ∨ w.textOf (.error f) = .error g

/-- What a value reads as is settled by the core. -/
theorem World.textOf_of_core {u : World} (h : u.core = w.core) (v : Value) : u.textOf v = w.textOf v :=
  congrArg (fun c : Core => c.world.textOf v) h

theorem World.Unsaid.of_core {u : World} {f g : Fault} (h : w.Unsaid f g) (hc : u.core = w.core) :
    u.Unsaid f g :=
  h.imp_right (World.textOf_of_core hc _).trans

theorem result_tellFailed_error (watcher : Option Watcher) {f g : Fault}
    (h : w.textOf (.error f) = .error g) : (tellFailed watcher f).result w = (.error g, w) := by
  rw [tellFailed, result_bind, result_textOf, h]

theorem result_tellFailed_ok (watcher : Option Watcher) {f : Fault} {said : String}
    (h : w.textOf (.error f) = .ok said) :
    (tellFailed watcher f).result w = (emit watcher (aborted said)).result w := by
  rw [tellFailed, result_bind, result_textOf, h]
  rfl

/-- A pipeline that fails with a fault of which can be told logs it, tells its observer of it, and then its
receiver. -/
theorem fail_logged (watcher : Option Watcher) (f : Fault) (w : World) (file : Nat) :
    (∃ g v, w.Unsaid f g ∧ (v = w ∨ ∃ record, v = w.told (.log record)) ∧
      ∀ receiver, (fail watcher receiver f file).result w = (.error g, v)) ∨
    ∃ described said, w.textOf (.error f) = .ok said ∧
      ∀ receiver, (fail watcher receiver f file).result w =
        (emit watcher (aborted said) >>= fun _ => tellProcessed receiver (some f) .none file).result
          (w.told (.log (w.failure file described))) := by
  have hfile : (Action.file file).result w = (.ok (w.files.getD file File.empty), w) := rfl
  cases hinspect : f.inspect with
  | error g =>
    refine .inl ⟨g, w, .inl hinspect, .inl rfl, fun receiver => ?_⟩
    rw [fail, result_bind_ok hfile, result_bind_error (result_logFault_error hinspect _ _ _ w)]
  | ok described =>
    obtain ⟨u, hu⟩ : ∃ u, u = w.told (.log (w.failure file described)) := ⟨_, rfl⟩
    have hcore : u.core = w.core := by rw [hu]; rfl
    have hfail (receiver : TextReceiver) : (fail watcher receiver f file).result w =
        (tellFailed watcher f >>= fun _ => tellProcessed receiver (some f) .none file).result u := by
      rw [fail, result_bind_ok hfile, result_bind_ok (result_logFault_ok hinspect _ _ _ w), hu]
      rfl
    have htext := World.textOf_of_core hcore (.error f)
    cases hsaid : w.textOf (.error f) with
    | error g =>
      refine .inl ⟨g, u, .inr hsaid, .inr ⟨_, hu⟩, fun receiver => ?_⟩
      rw [hfail, result_bind_error (result_tellFailed_error watcher (htext.trans hsaid))]
    | ok said =>
      refine .inr ⟨described, said, rfl, fun receiver => ?_⟩
      rw [hfail, result_bind, result_tellFailed_ok watcher (htext.trans hsaid), ← result_bind, hu]

/-- A receiver is told of a fault if it can be told of and the observer does not stop the pipeline. -/
theorem fail_cases (watcher : Option Watcher) (f : Fault) (w : World) (file : Nat) :
    (∃ g v, (w.Unsaid f g ∨ Interrupts watcher v.events g) ∧ w.core = v.core ∧ w.Aside v ∧
      ∀ receiver, (fail watcher receiver f file).result w = (.error g, v)) ∨
    ∃ described said, w.textOf (.error f) = .ok said ∧
      (∀ u : World, u.core = w.core → (tellFailed watcher f).result u =
        (.ok (), { u with events := u.events ++ notice watcher (aborted said) })) ∧
      ∀ receiver, (fail watcher receiver f file).result w =
        (tellProcessed receiver (some f) .none file).result (w.failed watcher file described said) := by
  have hlogged (record : LogRecord) : w.Aside (w.told (.log record)) :=
    (Local.log record.level record.logger record.text).aside (result_log ..)
  rcases fail_logged watcher f w file with ⟨g, v, hunsaid, hv, h⟩ | ⟨described, said, hsaid, h⟩
  · rcases hv with rfl | ⟨record, rfl⟩
    · exact .inl ⟨g, v, .inl hunsaid, rfl, (Local.pure ()).aside rfl, h⟩
    · exact .inl ⟨g, w.told (.log record), .inl hunsaid, rfl, hlogged record, h⟩
  · obtain ⟨u, hu⟩ : ∃ u, u = w.told (.log (w.failure file described)) := ⟨_, rfl⟩
    have hcore : w.core = u.core := by rw [hu]; rfl
    rcases emit_cases watcher (aborted said) with ⟨g, k, hemit⟩ | hemit
    · refine .inl ⟨g, u.told (.progress k _), .inr (emit_error (hemit u)), hcore,
        hu ▸ (hlogged _).trans ((Local.emit ..).aside (hemit _)), fun receiver => ?_⟩
      rw [h, ← hu, result_bind_error (hemit u)]
    · refine .inr ⟨described, said, hsaid, fun v hv => ?_, fun receiver => ?_⟩
      · rw [result_tellFailed_ok watcher ((World.textOf_of_core hv _).trans hsaid), hemit]
      · rw [h, result_bind_ok (hemit _)]
        rfl

theorem of_result_bind_ok {α β : Type} {x : Action α} {f : α → Action β} {v : World} {b : β}
    (h : (x >>= f).result w = (.ok b, v)) :
    ∃ a u, x.result w = (.ok a, u) ∧ (f a).result u = (.ok b, v) := by
  rw [result_bind] at h
  generalize x.result w = done at h
  obtain ⟨o, u⟩ := done
  cases o with
  | error f => cases (Prod.mk.inj h).1
  | ok a => exact ⟨a, u, rfl, h⟩

/-- What a tree is written as is a text. -/
theorem stringify_str {p : Nat} {tree given settings text : Value} {v : World}
    (h : (stringify host p tree given settings).result w = (.ok text, v)) : ∃ s, text = .str s := by
  obtain ⟨q, u, -, h⟩ := of_result_bind_ok h
  obtain ⟨-, u, -, h⟩ := of_result_bind_ok h
  obtain ⟨id, u, -, h⟩ := of_result_bind_ok h
  obtain ⟨tree, u, -, h⟩ := of_result_bind_ok h
  obtain ⟨f, u, -, h⟩ := of_result_bind_ok h
  obtain ⟨-, u, -, h⟩ := of_result_bind_ok h
  obtain ⟨written, u, -, h⟩ := of_result_bind_ok h
  split at h
  · exact ⟨_, (Except.ok.inj (Prod.mk.inj h).1).symm⟩
  · cases (Prod.mk.inj h).1

theorem complete_error {watcher : Option Watcher} {file : Nat} {text : Value} {v : World} {g : Fault}
    (h : (complete watcher file text).result w = (.error g, v)) : Interrupts watcher v.events g := by
  have hfile : (Action.file file).result w = (.ok (w.files.getD file File.empty), w) := rfl
  have hset (f : File) : (setFile file f).result w = (.ok ⟨⟩, { w with files := w.files.set file f }) :=
    rfl
  rw [complete, result_bind_ok hfile] at h
  dsimp only at h
  rw [result_bind_ok (hset _)] at h
  exact emit_error h

theorem complete_contents {watcher : Option Watcher} {file : Nat} {text : Value} {v : World}
    (h : (complete watcher file text).result w = (.ok (), v)) {f : File}
    (hf : v.files[file]? = some f) : f.contents = text := by
  obtain ⟨g, u₁, -, h⟩ := of_result_bind_ok h
  obtain ⟨⟨⟩, u₂, hset, h⟩ := of_result_bind_ok h
  obtain ⟨-, rfl⟩ := Prod.mk.inj hset
  have hfiles : v.files = u₁.files.set file { g with contents := text } := by
    rcases emit_cases watcher _ with ⟨g', k, hemit⟩ | hemit
    · rw [hemit] at h
      cases (Prod.mk.inj h).1
    · rw [hemit] at h
      obtain ⟨-, rfl⟩ := Prod.mk.inj h
      rfl
  rw [hfiles, List.getElem?_set] at hf
  split at hf
  · split at hf
    · obtain rfl := Option.some.inj hf
      rfl
    · cases hf
  · exact absurd rfl ‹_›

/-- The world in which the text that a run came to is noted. -/
def World.compiling (w : World) (r : Nat) (text : String) : World :=
  { w with runs := w.runs.modify r fun x => { x with compiled := x.compiled.or (some (.str text)) } }

theorem result_processor {p : Nat} {q : Processor} (h : w.processors[p]? = some q) :
    (processor p).result w = (.ok q, w) := by
  rw [processor, result_get_bind]
  simp only [h]
  rfl

/-- A chain that came to its end has left its tree, and no text yet. -/
theorem World.run_settling {r : Nat} {x : Run} (hx : w.runs[r]? = some x) (file : Nat) (name : String)
    (error : Option Fault) (tree : Value) (hsettled : x.settled = none) :
    ∃ y, (w.settling r file name error tree).runs[r]? = some y ∧ y.compiled = x.compiled ∧
      Value.ofOption y.settled = if error.isNone then tree else .none := by
  unfold settling
  cases error with
  | some f => exact ⟨x, hx, rfl, by rw [hsettled]; rfl⟩
  | none =>
    cases htree : tree.isNone with
    | true =>
      refine ⟨x, hx, rfl, ?_⟩
      rw [hsettled]
      cases tree <;> first | rfl | cases htree
    | false =>
      refine ⟨{ x with settled := x.settled.or (some tree) }, ?_, rfl, by rw [hsettled]; rfl⟩
      simp [hx]

/-- What is told of the tree that a run came to, if it came to one. -/
def yielded (file : Nat) (name : String) (error : Option Fault) (tree : Value) : List Event :=
  if error.isNone && !tree.isNone then [.produced name file tree] else []

@[simp] theorem calls_yielded (r file : Nat) (name : String) (error : Option Fault) (tree : Value) :
    calls r (yielded file name error tree) = [] := by
  unfold yielded
  split <;> rfl

@[simp] theorem deliveries_yielded (r file : Nat) (name : String) (error : Option Fault) (tree : Value) :
    deliveries r (yielded file name error tree) = [] := by
  unfold yielded
  split <;> rfl

theorem World.events_settled (r file : Nat) (name : String) (error : Option Fault) (tree : Value) :
    ((w.told (.delivered r error tree)).settling r file name error tree).events =
      w.events ++ [.delivered r error tree] ++ yielded file name error tree := by
  unfold settling yielded
  split
  · rfl
  · rw [List.append_nil]
    rfl

end Told

end TextPipeline.Pipeline
