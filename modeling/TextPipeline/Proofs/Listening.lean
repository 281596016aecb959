import TextPipeline.Proofs.Apart
import TextPipeline.Proofs.Stretch

/-! A pipeline for a receiver, compared with the pipelines for nobody. The receiver is told once, as the
last thing that happens, of what the pipeline would have returned or raised without it; apart from that
the two leave the same behind. -/

namespace TextPipeline.Pipeline

open TextPipeline.Transform
open TextPipeline.Pipeline.Action
open World (nobody)

/-! ### The same actions in two worlds -/

/-- Two worlds have taken the same way from two others: they are alike but for the chains, and the same
was told on the way. -/
structure World.Abreast (w u v z : World) : Prop where
  core : v.core = z.core
  events : ∃ es, v.events = w.events ++ es ∧ z.events = u.events ++ es

theorem World.Abreast.trans {w u v z w' u' : World} (h : w.Abreast u v z) (h' : v.Abreast z w' u') :
    w.Abreast u w' u' := by
  obtain ⟨es, hv, hz⟩ := h.events
  obtain ⟨fs, hw, hu⟩ := h'.events
  exact ⟨h'.core, es ++ fs, by rw [hw, hv, List.append_assoc], by rw [hu, hz, List.append_assoc]⟩

theorem Local.abreast {α : Type} {y : Action α} (hy : Local y) {w u v : World} (hc : w.core = u.core)
    {o : Outcome α} (h : y.result w = (o, v)) : ∃ z, y.result u = (o, z) ∧ w.Abreast u v z := by
  have hu := hy.result u
  rw [← hc] at hu
  obtain ⟨rfl, rfl⟩ := Prod.mk.inj ((hy.result w).symm.trans h)
  exact ⟨_, hu, rfl, _, rfl, rfl⟩

theorem Local.sound {α : Type} {y : Action α} (hy : Local y) {w v : World} (hw : w.Sound)
    {o : Outcome α} (h : y.result w = (o, v)) : v.Sound := by
  have hsafe : Safe nobody w y := Steady.of_local hy w hw
  rw [Safe, h] at hsafe
  exact hsafe.1

section Finish

variable {host : Host} {p file : Nat} {settings : Value} {watcher : Option Watcher}

/-- Writes the tree that a run came to. -/
def writeFinal (host : Host) (p file : Nat) (settings : Value) (watcher : Option Watcher) (final : Value) :
    Action Value := do
  tellStage watcher "run"
  let text ← stringify host p final (.handle (.file file)) settings
  tellStage watcher "stringify"
  return text

/-- Returns the text or raises the fault that a pipeline came to. -/
def conclusion (watcher : Option Watcher) (file : Nat) : Outcome Value → Action Value
  | .ok text => do
    complete watcher file text
    return text
  | .error f =>
    if f.isError then do
      tellFailed watcher f
      throw f
    else throw f

/-- What is left of a pipeline after its run if nobody is told of its result. -/
def finish (host : Host) (p file : Nat) (settings : Value) (watcher : Option Watcher)
    (ran : Outcome Value) : Action Value :=
  attempt (ofOutcome ran >>= writeFinal host p file settings watcher) >>= conclusion watcher file

/-- A receiver for whom a tree is written in the world `w`, and the same tree written in the world `u`
for nobody, where the last stages come to a text or a fault. -/
inductive Finished (r file : Nat) (watcher : Option Watcher) (w u : World) (stages : Outcome Value)
    (ending : TextReceiver → Outcome Unit × World) (plain : Outcome Value × World) : Prop where
  | written {text : String} {v z : World} : w.Aside v → w.Abreast u v z → plain = (.ok (.str text), z) →
    (∀ f, z.files[file]? = some f → f.contents = .str text) →
    (∀ receiver, ending receiver =
      (tellProcessed receiver none (.str text) file).result (v.compiling r text)) →
    Finished r file watcher w u stages ending plain
  | failed {f : Fault} {v z : World} : w.Aside v → w.Abreast u v z → stages = .error f →
    plain = (conclusion watcher file (.error f)).result z →
    (∀ receiver, ending receiver = (fail watcher receiver f file).result v) →
    Finished r file watcher w u stages ending plain
  | stopped {f : Fault} {v : World} : v.Stopped watcher r f →
    (∀ receiver, ending receiver = (.error f, v)) → Finished r file watcher w u stages ending plain

theorem compile_finished {w u : World} (hc : w.core = u.core) (r : Nat) (tree : Value) :
    Finished r file watcher w u ((writeFinal host p file settings watcher tree).result u).1
      (fun receiver => (compile host r ⟨p, file, settings, watcher, receiver⟩ none tree).result w)
      ((finish host p file settings watcher (.ok tree)).result u) := by
  simp only [compile]
  rw [finish, result_bind_ok (result_attempt _ u), result_bind_ok (result_ofOutcome _ u), writeFinal]
  generalize htold : (tellStage watcher "run").result w = told
  obtain ⟨o, w₁⟩ := told
  obtain ⟨u₁, htold', h₁⟩ := (Local.tellStage watcher "run").abreast hc htold
  have ha₁ := (Local.tellStage watcher "run").aside htold
  cases o with
  | error g => exact .stopped (.observer (emit_error htold)) fun _ => result_bind_error htold
  | ok _ =>
    simp only [result_bind_ok htold, result_bind_ok htold', result_bind_ok (result_attempt _ w₁)]
    have hlocal := Local.stringify host p tree (.handle (.file file)) settings
    generalize hwritten : (stringify host p tree (.handle (.file file)) settings).result w₁ = written
    obtain ⟨o, w₂⟩ := written
    obtain ⟨u₂, hwritten', h₂⟩ := hlocal.abreast h₁.core hwritten
    have ha₂ := ha₁.trans (hlocal.aside hwritten)
    cases o with
    | error f =>
      rw [result_bind_error hwritten']
      dsimp only
      cases hf : f.isError with
      | true => exact .failed ha₂ (h₁.trans h₂) rfl rfl fun _ => rfl
      | false => exact .stopped (.abort hf) fun _ => rfl
    | ok text =>
      obtain ⟨s, rfl⟩ := stringify_str hwritten
      simp only [result_bind_ok hwritten']
      generalize htold : (tellStage watcher "stringify").result w₂ = told
      obtain ⟨o, w₃⟩ := told
      obtain ⟨u₃, htold', h₃⟩ := (Local.tellStage watcher "stringify").abreast h₂.core htold
      have ha₃ := ha₂.trans ((Local.tellStage watcher "stringify").aside htold)
      cases o with
      | error g => exact .stopped (.observer (emit_error htold)) fun _ => result_bind_error htold
      | ok _ =>
        simp only [result_bind_ok htold, result_bind_ok htold']
        generalize hdone : (complete watcher file (.str s)).result w₃ = done
        obtain ⟨o, v⟩ := done
        have hlocal := Local.complete watcher file (.str s)
        obtain ⟨z, hdone', h₄⟩ := hlocal.abreast h₃.core hdone
        cases o with
        | error g => exact .stopped (.observer (complete_error hdone)) fun _ => result_bind_error hdone
        | ok _ =>
          refine .written (ha₃.trans (hlocal.aside hdone)) (((h₁.trans h₂).trans h₃).trans h₄)
            (result_bind_ok hdone') (fun f => complete_contents hdone') fun receiver => ?_
          rw [result_bind_ok hdone]
          rfl

end Finish

theorem result_bind_congr {α β : Type} {x y : Action α} {w u : World} (h : x.result w = y.result u)
    (f : α → Action β) : (x >>= f).result w = (y >>= f).result u := by
  rw [result_bind, result_bind, h]

theorem result_bind_of {α β : Type} {y : Action α} {w u : World} {o : Outcome α}
    (h : y.result w = (o, u)) (f : α → Action β) :
    (y >>= f).result w = (ofOutcome o >>= f).result u :=
  result_bind_congr (h.trans (result_ofOutcome o u).symm) f

/-! ### From the start of a chain on -/

section Chain

variable {host : Host} {w u : World} {p file : Nat} {q : Processor} {tree first : Value}
  {watcher : Option Watcher}

/-- No chain is started where there is no tree. -/
theorem result_runTreeFor_error (hq : w.processors[p]? = some q) {f : Fault}
    (hfirst : (startTree file q.name tree).result w = (.error f, u)) (receiver : TreeReceiver) :
    (runTreeFor host p tree file watcher receiver).result w =
      (tellNoTree receiver f file >>= fun _ => pure none).result u := by
  rw [runTreeFor, result_bind_ok (result_processor hq), result_bind_ok (result_attempt _ w), hfirst]
  dsimp only
  rw [startTree_error q.named hfirst]
  rfl

/-- The chain of a processor goes as far as it comes at once, and halts there. -/
theorem result_runTreeFor (hq : w.processors[p]? = some q)
    (hfirst : (startTree file q.name tree).result w = (.ok first, u)) (receiver : TreeReceiver) :
    (runTreeFor host p tree file watcher receiver).result w =
      (stretch host u.runs.length q.registry.transformers 0 first >>= fun halt =>
        halt.act host u.runs.length (.stored q.name receiver) false >>= fun _ =>
          pure (some u.runs.length)).result
        (u.starting q.registry.transformers watcher first file) := by
  rw [runTreeFor, result_bind_ok (result_processor hq), result_bind_ok (result_attempt _ w), hfirst]
  dsimp only
  have hstart : (start host q.registry.transformers watcher first file (.stored q.name receiver)).result u =
      (drive host u.runs.length (.stored q.name receiver) false q.registry.transformers 0 first >>=
        fun _ => pure u.runs.length).result
          (u.starting q.registry.transformers watcher first file) := rfl
  rw [result_bind_congr hstart, drive_stretch]
  simp only [bind_assoc, pure_bind]

/-- The tree that a chain comes to is stored where nobody waits for it, and a fault is raised. -/
def World.left (w : World) (r file : Nat) (name : String) (error : Option Fault) (tree : Value) :
    World :=
  match error with
  | some _ => w.ended r error tree
  | none => ((w.ended r error tree).storing file name tree).told (.produced name file tree)

/-- A chain that came to its end leaves the same whether its result is passed on or kept. -/
theorem World.core_settled (w : World) (r file : Nat) (name : String) (error : Option Fault)
    {tree : Value} (htree : tree.isNone = false) :
    ((w.told (.delivered r error tree)).settling r file name error tree).core =
      (w.left r file name error tree).core := by
  rw [settling, htree]
  cases error <;> rfl

theorem World.events_settled_left (w : World) (r file : Nat) (name : String) (error : Option Fault)
    {tree : Value} (htree : tree.isNone = false) :
    ((w.told (.delivered r error tree)).settling r file name error tree).events =
      (w.left r file name error tree).events := by
  rw [settling, htree]
  cases error <;> rfl

theorem result_runTree_ended (hq : w.processors[p]? = some q)
    (hfirst : (startTree file q.name tree).result w = (.ok first, u)) {error : Option Fault}
    {final : Value} {v : World}
    (h : (stretch host u.runs.length q.registry.transformers 0 first).result
      (u.starting q.registry.transformers watcher first file) = (.ok (.ended error final), v))
    (hrun : v.runs[u.runs.length]? =
      some (u.nextRun q.registry.transformers watcher first file)) :
    (runTree host p tree file watcher).result w =
      (settlement error final, v.left u.runs.length file q.name error final) := by
  have hdrive : (drive host u.runs.length .kept true q.registry.transformers 0 first).result
      (u.starting q.registry.transformers watcher first file) =
        (.ok (), v.ended u.runs.length error final) := by
    rw [drive_stretch, result_bind_ok h, Halt.act, result_deliver_kept error final hrun]
  have hstart : (start host q.registry.transformers watcher first file .kept).result u =
      (.ok u.runs.length, v.ended u.runs.length error final) := by
    rw [result_start]
    show (Except.map _ ((drive host u.runs.length .kept true q.registry.transformers 0 first).result
      (u.starting q.registry.transformers watcher first file)).1, _) = _
    rw [hdrive]
    rfl
  have hkept : (v.ended u.runs.length error final).runs[u.runs.length]? =
      some ((u.nextRun q.registry.transformers watcher first file).keep error final) := by
    simp [hrun]
  rw [runTree, result_bind_ok (result_processor hq), result_bind_ok hfirst, runChain, bind_assoc,
    result_bind_ok hstart, bind_assoc, result_bind_ok (result_run hkept)]
  cases error with
  | some f => rfl
  | none =>
    show (storeTree file q.name final >>= fun _ => tell (.produced q.name file final) >>= fun _ =>
      pure final).result (v.ended u.runs.length none final) = _
    rw [result_bind_ok (result_storeTree q.named file final _)]
    rfl

end Chain

/-! ### The tree that is read -/

/-- An action that leaves every processor what is attached to it. -/
def KeepsRegistries {α : Type} (x : Action α) : Prop :=
  ∀ w : World, (x.result w).2.processors.map (·.registry) = w.processors.map (·.registry)

/-- Every processor has what was attached to it before. -/
def World.SameRegistries (w v : World) : Prop :=
  v.processors.map (·.registry) = w.processors.map (·.registry)

instance : World.Temporal World.SameRegistries where
  refl _ := rfl
  trans h h' := Eq.trans h' h

namespace KeepsRegistries

variable {α β : Type} {host : Host} {p file : Nat}

theorem pure (a : α) : KeepsRegistries (pure a) := fun _ => rfl

theorem throw (f : Fault) : KeepsRegistries (throw f : Action α) := fun _ => rfl

theorem lift (o : Outcome α) : KeepsRegistries (liftM o : Action α) := fun _ => rfl

theorem of_reads {x : Action α} (hx : Reads x) : KeepsRegistries x :=
  Respects.of_reads (R := World.SameRegistries) hx

theorem bind {x : Action α} {f : α → Action β} (hx : KeepsRegistries x)
    (hf : ∀ a, KeepsRegistries (f a)) : KeepsRegistries (x >>= f) :=
  Respects.bind (R := World.SameRegistries) hx hf

theorem mapM {f : α → Action β} (hf : ∀ a, KeepsRegistries (f a)) (l : List α) :
    KeepsRegistries (l.mapM f) := Respects.mapM (R := World.SameRegistries) hf l

theorem ofLogged (x : Logged α) : KeepsRegistries (ofLogged x) :=
  .bind (fun _ => rfl) fun _ => .of_reads (.ofOutcome _)

theorem require (holds : Bool) (f : Fault) : KeepsRegistries (require holds f) := by
  cases holds <;> exact fun _ => rfl

theorem processor (p : Nat) : KeepsRegistries (processor p) := .of_reads (.processor p)

theorem setData (p : Nat) (data : Value) : KeepsRegistries (setData p data) := fun w => by
  rw [Action.setData]
  cases hq : w.processors[p]? with
  | none =>
    obtain ⟨f, hf⟩ : ∃ f, (Action.processor p).result w = (.error f, w) := by
      rw [Action.processor, result_get_bind]
      simp only [hq]
      exact ⟨_, rfl⟩
    rw [result_bind_error hf]
  | some q =>
    rw [result_bind_ok (result_processor hq)]
    show (w.processors.set p _).map (·.registry) = _
    rw [List.map_set]
    refine List.ext_getElem? fun i => ?_
    rw [List.getElem?_set]
    split
    · rename_i hi
      subst hi
      obtain ⟨hlt, rfl⟩ := List.getElem?_eq_some_iff.mp hq
      simp [hlt]
    · rfl

theorem dataFor (parser : Grammar.Parser) (p : Nat) : KeepsRegistries (dataFor parser p) := by
  refine .bind (processor p) fun q => ?_
  split
  · exact .bind (fun _ => rfl) fun _ => .bind (fun _ => rfl) fun _ => .bind (setData _ _) fun _ => pure _
  · exact fun _ => rfl

theorem readWith (p : Nat) (parser : Value) (f : File) (settings : Value) :
    KeepsRegistries (readWith host p parser f settings) := by
  unfold Pipeline.readWith
  split
  · exact .bind (fun _ => rfl) fun _ => .bind (dataFor _ _) fun _ => .bind (ofLogged _) fun _ => pure _
  · exact throw _

theorem storeTree (name : String) (tree : Value) : KeepsRegistries (storeTree file name tree) :=
  .bind (fun _ => rfl) fun _ => .bind (lift _) fun _ _ => rfl

theorem emit (watcher : Option Watcher) (progress : Progress) :
    KeepsRegistries (emit watcher progress) := by
  cases watcher with
  | none => exact pure _
  | some watcher => exact .bind (fun _ => rfl) fun _ => ofLogged _

theorem requireEndpoints (p : Nat) : KeepsRegistries (requireEndpoints p) :=
  .bind (processor _) fun _ => .bind (require _ _) fun _ => require _ _

theorem parseFile (host : Host) (p file : Nat) (settings : Value) :
    KeepsRegistries (parseFile host p file settings) :=
  .bind (processor _) fun _ => .bind (require _ _) fun _ => .bind (fun _ => rfl) fun _ =>
    .bind (fun _ => rfl) fun _ => .bind (readWith _ _ _ _) fun _ => .bind (require _ _) fun _ =>
      .bind (fun _ => rfl) fun _ => .bind (storeTree _ _) fun _ => .bind (fun _ => rfl) fun _ => pure _

theorem shareValues (v : Value) : KeepsRegistries (shareValues v) := by
  unfold Action.shareValues
  split
  · exact .bind (fun _ => rfl) fun _ => .bind (fun _ => rfl) fun _ => .bind (fun _ => rfl) fun _ => pure _
  · exact pure _

theorem toFile (v : Value) : KeepsRegistries (toFile v) := by
  have hmade (c : Value) : KeepsRegistries (do addFile (← File.ofValue c)) :=
    .bind (lift _) fun _ _ => rfl
  unfold Action.toFile
  split
  · exact pure _
  · refine .bind (fun _ => rfl) fun c => ?_
    split
    · refine .bind (.mapM (fun e => ?_) _) fun _ => hmade _
      dsimp only
      split
      · exact .bind (shareValues _) fun _ => pure _
      · exact pure _
    · exact hmade _

theorem processor_of {x : Action α} (hx : KeepsRegistries x) {w v : World} {o : Outcome α}
    (h : x.result w = (o, v)) {q : Processor} (hq : w.processors[p]? = some q) :
    ∃ q', v.processors[p]? = some q' ∧ q'.registry = q.registry := by
  have hsame := hx w
  rw [h] at hsame
  have hp := congrArg (fun l => l[p]?) hsame
  simpa [hq] using hp

end KeepsRegistries

/-- A file that is read has a processor, and a tree then. -/
theorem parseFile_ok {host : Host} {p file : Nat} {settings tree : Value} {w v : World}
    (h : (parseFile host p file settings).result w = (.ok tree, v)) :
    (∃ q, w.processors[p]? = some q) ∧ tree.isNone = false := by
  obtain ⟨q, u₁, hq, h⟩ := of_result_bind_ok h
  obtain ⟨-, u₂, -, h⟩ := of_result_bind_ok h
  obtain ⟨f, u₃, -, h⟩ := of_result_bind_ok h
  obtain ⟨-, u₄, -, h⟩ := of_result_bind_ok h
  obtain ⟨read, u₅, -, h⟩ := of_result_bind_ok h
  obtain ⟨⟨⟩, u₆, hread, h⟩ := of_result_bind_ok h
  obtain ⟨kept, u₇, hshare, h⟩ := of_result_bind_ok h
  obtain ⟨-, u₈, -, h⟩ := of_result_bind_ok h
  obtain rfl : kept = tree := Except.ok.inj (Prod.mk.inj h).1
  constructor
  · cases hfound : w.processors[p]? with
    | some q => exact ⟨q, rfl⟩
    | none =>
      rw [processor, result_get_bind] at hq
      simp only [hfound] at hq
      cases (Prod.mk.inj hq).1
  · have hnode : read.isNode = true := by
      cases hn : read.isNode with
      | true => rfl
      | false =>
        rw [hn] at hread
        cases (Prod.mk.inj hread).1
    rw [result_share_handed] at hshare
    obtain rfl := Except.ok.inj (Prod.mk.inj hshare).1
    exact isNone_of_isNode (u₆.handed_isNode hnode)

/-! ### Whole pipelines -/

/-- What a call for a receiver returns when a chain was started, or none was. -/
def answer : Option Nat → Action Value
  | some r => do return Value.ofOption (← run r).compiled
  | none => return .none

theorem result_answer_none {v : World} {r : Nat} {y : Run} (hy : v.runs[r]? = some y)
    (hcompiled : y.compiled = none) : (answer (some r)).result v = (.ok .none, v) := by
  rw [answer, result_bind_ok (result_run hy), hcompiled]
  rfl

theorem result_answer_compiling {v : World} {r : Nat} {y : Run} {text : String}
    (hy : v.runs[r]? = some y) (hcompiled : y.compiled = none) {u : World}
    (hu : u.runs = (v.compiling r text).runs) : (answer (some r)).result u = (.ok (.str text), u) := by
  have hfound : u.runs[r]? = some { y with compiled := some (.str text) } := by
    rw [hu, World.compiling]
    simp [hy, hcompiled]
  rw [answer, result_bind_ok (result_run hfound)]
  rfl

/-- How three pipelines compare of which the first has a receiver that is told, the second one of whom
nothing is seen, and the third none. The receiver is told of the text that the third pipeline returns,
or of the fault that it raises; where that is the fault of a run, nothing else happens after the run.
Of a fault that cannot be described, or has no text, no receiver is told. -/
inductive Agreed (host : Host) (r file : Nat) (watcher : Option Watcher) (stages : Outcome Value) :
    Outcome Value × World → Outcome Value × World → Outcome Value × World → Prop
  | written {text : String} {v z : World} : v.core = z.core → v.events = z.events →
    (∀ f, z.files[file]? = some f → f.contents = .str text) →
    Agreed host r file watcher stages (.ok (.str text), v.toldProcessed none (.str text) file)
      (.ok (.str text), v) (.ok (.str text), z)
  | failed {f : Fault} {said : String} {v z : World} {es : List Event} {record : LogRecord} :
    v.core = z.core → z.textOf (.error f) = .ok said →
    v.events = es ++ .log record :: notice watcher (aborted said) →
    (z.events = es ++ (if f.isError then notice watcher (aborted said) else []) ∨
      Interrupts watcher es f ∧ z.events = es) →
    (∀ g tree, (some g, tree) ∈ deliveries r es →
      g = f ∧ es.getLast? = some (.delivered r (some g) tree)) →
    Agreed host r file watcher stages (.ok .none, v.toldProcessed (some f) .none file) (.ok .none, v)
      (.error f, z)
  | muffled {f g : Fault} {v z : World} {plain : Outcome Value × World} : v.core = z.core →
    stages = .error f → v.Unsaid f g →
    plain = (conclusion watcher file (.error f)).result z ∨ plain = (.error f, z) →
    Agreed host r file watcher stages (.error g, v) (.error g, v) plain
  | stopped {f : Fault} {v : World} {n : Nat} {plain : Outcome Value × World} :
    v.Stopped watcher r f ∨ v.Betrayed host r n f →
    Agreed host r file watcher stages (.error f, v) (.error f, v) plain
  | held {u v : World} {a : Invocation} {plain : Outcome Value × World} :
    (calls r u.events).getLast? = some a → u.result? a.completion = none → u.events = v.events →
    Agreed host r file watcher stages (.ok .none, u) (.ok .none, v) plain

section Whole

variable {host : Host} {w u : World} {p file : Nat} {settings : Value} {watcher : Option Watcher}

/-- What a pipeline that comes to a fault without a receiver leaves behind. -/
theorem result_conclusion_error {f : Fault} {said : String}
    (htold : (tellFailed watcher f).result u =
      (.ok (), { u with events := u.events ++ notice watcher (aborted said) })) :
    (conclusion watcher file (.error f)).result u = (.error f, { u with
      events := u.events ++ (if f.isError then notice watcher (aborted said) else []) }) := by
  rw [conclusion]
  cases f.isError with
  | true =>
    rw [if_pos rfl, if_pos rfl, result_bind_ok htold]
    rfl
  | false =>
    rw [if_neg (by simp), if_neg (by simp), List.append_nil]
    rfl

/-- A pipeline fails in a world, and the same pipeline without a receiver in another one, unless an
observer has stopped that there before. -/
theorem fail_agreed {r : Nat} {f : Fault} (hc : w.core = u.core) (he : w.events = u.events)
    (hd : ∀ g tree, (some g, tree) ∈ deliveries r w.events →
      g = f ∧ w.events.getLast? = some (.delivered r (some g) tree)) {k : Action Value}
    (hk : ∀ v : World, v.runs = w.runs → k.result v = (.ok .none, v)) {plain : Outcome Value × World}
    (hplain : plain = (conclusion watcher file (.error f)).result u ∨
      Interrupts watcher u.events f ∧ plain = (.error f, u)) :
    Agreed host r file watcher (.error f)
      ((fail watcher (.callback ⟨none⟩) f file >>= fun _ => k).result w)
      ((fail watcher (.silent ⟨none⟩) f file >>= fun _ => k).result w) plain := by
  rcases fail_cases watcher f w file with ⟨g, v, hg, hcore, -, h⟩ | ⟨described, said, hsaid, htold, h⟩
  · rw [result_bind_error (h _), result_bind_error (h _)]
    rcases hg with hg | hg
    · exact .muffled (hcore.symm.trans hc) rfl (hg.of_core hcore.symm) (hplain.imp_right (·.2))
    · exact .stopped (n := 0) (.inl (.observer hg))
  · obtain ⟨v, hv⟩ : ∃ v, v = w.failed watcher file described said := ⟨_, rfl⟩
    have hruns : v.runs = w.runs := by rw [hv]; rfl
    have hcore : v.core = u.core := by rw [hv]; exact hc
    have hcallback : (fail watcher (.callback ⟨none⟩) f file).result w =
        (.ok (), v.toldProcessed (some f) .none file) := by
      rw [h, ← hv]
      exact result_tellProcessed v ⟨none⟩ (some f) .none file
    have hsilent : (fail watcher (.silent ⟨none⟩) f file).result w = (.ok (), v) := by
      rw [h, ← hv]
      rfl
    have htext : u.textOf (.error f) = .ok said := (World.textOf_of_core hc.symm _).trans hsaid
    have hv' : v.events = u.events ++ .log (w.failure file described) :: notice watcher (aborted said) := by
      rw [hv, World.events_failed, he]
    rw [result_bind_ok hcallback, result_bind_ok hsilent, hk v hruns,
      hk (v.toldProcessed (some f) .none file) hruns]
    rw [he] at hd
    rcases hplain with rfl | ⟨hinterrupts, rfl⟩
    · rw [result_conclusion_error (htold u hc.symm)]
      exact .failed hcore htext hv' (.inl rfl) hd
    · exact .failed hcore htext hv' (.inr ⟨hinterrupts, rfl⟩) hd

/-- What a tree is written as goes to the receiver. -/
theorem Finished.agreed {r : Nat} {x : TextReceiver → Action Unit} {stages : Outcome Value}
    {plain : Outcome Value × World}
    (h : Finished r file watcher w u stages (fun receiver => (x receiver).result w) plain)
    (he : w.events = u.events) (hd : ∀ g tree, (some g, tree) ∉ deliveries r w.events) {y : Run}
    (hy : w.runs[r]? = some y) (hcompiled : y.compiled = none) :
    Agreed host r file watcher stages ((x (.callback ⟨none⟩) >>= fun _ => answer (some r)).result w)
      ((x (.silent ⟨none⟩) >>= fun _ => answer (some r)).result w) plain := by
  cases h with
  | @written text v z haside hvz hplain hcontents hx =>
    obtain ⟨es, hv, hz⟩ := hvz.events
    obtain ⟨v', hv'⟩ : ∃ v', v' = v.compiling r text := ⟨_, rfl⟩
    rw [← hv'] at hx
    have hrun (u' : World) (hu' : u'.runs = v'.runs) :
        (answer (some r)).result u' = (.ok (.str text), u') :=
      result_answer_compiling (haside.runs_eq ▸ hy) hcompiled (hv' ▸ hu')
    have hcallback : (x (.callback ⟨none⟩)).result w = (.ok (), v'.toldProcessed none (.str text) file) :=
      (hx _).trans (result_tellProcessed v' ⟨none⟩ none (.str text) file)
    have hsilent : (x (.silent ⟨none⟩)).result w = (.ok (), v') := hx _
    rw [result_bind_ok hcallback, result_bind_ok hsilent, hrun v' rfl,
      hrun (v'.toldProcessed none (.str text) file) rfl, hplain, hv']
    refine .written hvz.core ?_ hcontents
    show v.events = z.events
    rw [hv, hz, he]
  | @failed f v z haside hvz hstages hplain hx =>
    obtain ⟨es, hv, hz⟩ := hvz.events
    rw [result_bind_congr (hx _), result_bind_congr (hx _), hstages]
    refine fail_agreed hvz.core (by rw [hv, hz, he]) (fun g tree hg => ?_) (fun v' hv' => ?_) (.inl hplain)
    · rw [haside.deliveries_eq] at hg
      exact absurd hg (hd g tree)
    · exact result_answer_none (by rw [hv', haside.runs_eq, hy]) hcompiled
  | stopped hf hx =>
    rw [result_bind_error (hx _), result_bind_error (hx _)]
    exact .stopped (n := 0) (.inl hf)

/-- A chain has come to its end, and its tree is written if it has not failed. -/
theorem compile_agreed {r : Nat} {y : Run} {error : Option Fault} {final : Value}
    (hc : w.core = u.core) (he : w.events = u.events) (hy : w.runs[r]? = some y)
    (hcompiled : y.compiled = none) (hends : deliveries r w.events = [(error, final)])
    (hlast : ∀ f, error = some f → w.events.getLast? = some (.delivered r error final)) :
    let x (receiver : TextReceiver) := compile host r ⟨p, file, settings, watcher, receiver⟩ error final
    Agreed host r file watcher
      ((ofOutcome (settlement error final) >>= writeFinal host p file settings watcher).result u).1
      ((x (.callback ⟨none⟩) >>= fun _ => answer (some r)).result w)
      ((x (.silent ⟨none⟩) >>= fun _ => answer (some r)).result w)
      ((finish host p file settings watcher (settlement error final)).result u) := by
  cases error with
  | none =>
    refine (compile_finished hc r final).agreed he (fun g tree hg => ?_) hy hcompiled
    rw [hends] at hg
    cases List.mem_singleton.mp hg
  | some f =>
    have hfinish : (finish host p file settings watcher (settlement (some f) final)).result u =
        (conclusion watcher file (.error f)).result u := rfl
    rw [hfinish]
    refine fail_agreed hc he (fun g tree hg => ?_) (fun v hv => ?_) (.inl rfl)
    · rw [hends] at hg
      cases List.mem_singleton.mp hg
      exact ⟨rfl, hlast f rfl⟩
    · exact result_answer_none (by rw [hv, hy]) hcompiled

/-- A pipeline for a receiver fails before its chain is started. -/
def giveUp (watcher : Option Watcher) (receiver : TextReceiver) (file : Nat) (f : Fault) :
    Action Value := do
  require f.isError f
  fail watcher receiver f file
  return .none

theorem giveUp_agreed {r : Nat} (f : Fault) (hc : w.core = u.core) (he : w.events = u.events)
    (hd : deliveries r w.events = []) {plain : Outcome Value × World}
    (hplain : plain = (conclusion watcher file (.error f)).result u ∨
      Interrupts watcher u.events f ∧ plain = (.error f, u)) :
    Agreed host r file watcher (.error f) ((giveUp watcher (.callback ⟨none⟩) file f).result w)
      ((giveUp watcher (.silent ⟨none⟩) file f).result w) plain := by
  unfold giveUp
  cases hf : f.isError with
  | false => exact .stopped (n := 0) (.inl (.abort hf))
  | true =>
    refine fail_agreed hc he (fun g tree hg => ?_) (fun _ _ => rfl) hplain
    rw [hd] at hg
    cases hg

/-- The world in which a chain waits for a step. -/
def World.waitingFor (w : World) (id : Nat) (c : Completion Resolution Resumption Empty) (name : String)
    (k : Resumption) : World :=
  { w.told (.log ⟨.debug, Transform.logger, "Transformer '" ++ name ++ "' is pending"⟩) with
    completions := w.completions.set id (c.addDone k).1 }

theorem result_act_held {r index : Nat} {tree : Value} {name : String} {id : Nat} {delivery : Delivery}
    {c : Completion Resolution Resumption Empty} {k : Action Value}
    (hk : ∀ v : World, v.runs = w.runs → k.result v = (.ok .none, v)) :
    (Halt.act host r delivery false (.held index tree name id c) >>= fun _ => k).result w =
      (.ok .none, w.waitingFor id c name ⟨r, index, tree, delivery⟩) := by
  have hheld : (Halt.act host r delivery false (.held index tree name id c)).result w =
      (.ok (), w.waitingFor id c name ⟨r, index, tree, delivery⟩) := rfl
  rw [result_bind_ok hheld]
  exact hk _ rfl

theorem World.calls_waitingFor {r : Nat} {a : Invocation} {id : Nat}
    {c : Completion Resolution Resumption Empty} {name : String} {k : Resumption} (w : World)
    (h : (calls r w.events).getLast? = some a) :
    (calls r (w.waitingFor id c name k).events).getLast? = some a := by
  rw [waitingFor]
  simpa using h

theorem World.result?_waitingFor {id : Nat} {c : Completion Resolution Resumption Empty} {name : String}
    {k : Resumption} (w : World) (hc : w.completions[id]? = some c) (hnone : c.result? = none) :
    (w.waitingFor id c name k).result? id = none := by
  have hlt := (List.getElem?_eq_some_iff.mp hc).1
  rw [result?, waitingFor]
  simp only [List.getElem?_set_self hlt]
  show Completion.result? _ = none
  unfold Completion.addDone
  split <;> exact hnone

/-- The chain of a pipeline has come to its end at once, and its tree is written. -/
theorem ended_agreed {q : Processor} (hq : w.processors[p]? = some q) {tree final : Value}
    {error : Option Fault} {v : World} (htree : tree.isNone = false)
    (hS : (stretch host w.runs.length q.registry.transformers 0 tree).result
      (w.starting q.registry.transformers watcher tree file) = (.ok (.ended error final), v))
    (hrun : v.runs[w.runs.length]? = some (w.nextRun q.registry.transformers watcher tree file))
    (hfinal : final.isNone = false) (hdeliveries : deliveries w.runs.length v.events = []) :
    let told (receiver : TextReceiver) := (Halt.act host w.runs.length
      (.stored q.name (.compilation ⟨p, file, settings, watcher, receiver⟩)) false
      (.ended error final) >>= fun _ => answer (some w.runs.length)).result v
    let stages := runTree host p tree file watcher >>= writeFinal host p file settings watcher
    Agreed host w.runs.length file watcher (stages.result w).1 (told (.callback ⟨none⟩))
      (told (.silent ⟨none⟩)) ((attempt stages >>= conclusion watcher file).result w) := by
  intro told stages
  have hstages : stages.result w =
      (ofOutcome (settlement error final) >>= writeFinal host p file settings watcher).result
        (v.left w.runs.length file q.name error final) :=
    result_bind_of (result_runTree_ended hq (result_startTree htree file q.name w) hS hrun) _
  have hplain : (attempt stages >>= conclusion watcher file).result w =
      (finish host p file settings watcher (settlement error final)).result
        (v.left w.runs.length file q.name error final) := by
    rw [finish, result_bind_ok (result_attempt _ _), result_bind_ok (result_attempt _ _), hstages]
  obtain ⟨u, hu⟩ : ∃ u, u = (v.told (.delivered w.runs.length error final)).settling w.runs.length file
    q.name error final := ⟨_, rfl⟩
  have htold (receiver : TextReceiver) : told receiver =
      (compile host w.runs.length ⟨p, file, settings, watcher, receiver⟩ error final >>= fun _ =>
        answer (some w.runs.length)).result u := by
    refine result_bind_congr ?_ _
    rw [hu, Halt.act, result_deliver_stored q.named hrun]
    rfl
  obtain ⟨y, hy, hcompiled, -⟩ := World.run_settling (w := v.told (.delivered w.runs.length error final))
    hrun file q.name error final rfl
  have hevents := v.events_settled w.runs.length file q.name error final
  have hcore := v.core_settled w.runs.length file q.name error hfinal
  have hleft := v.events_settled_left w.runs.length file q.name error hfinal
  rw [← hu] at hy hevents hcore hleft
  rw [hplain, hstages, htold, htold]
  refine compile_agreed hcore hleft hy hcompiled ?_ ?_
  · rw [hevents, deliveries_append, deliveries_append, hdeliveries]
    simp
  · rintro f rfl
    rw [hevents]
    simp [yielded]

/-- From the start of the chain on, the tree being there. -/
theorem run_agreed (hh : host.Steady) (hw : w.Sound) {q : Processor} (hq : w.processors[p]? = some q)
    {tree : Value} (htree : tree.isNone = false) (file : Nat) (settings : Value)
    (watcher : Option Watcher) :
    let told (receiver : TextReceiver) := (runTreeFor host p tree file watcher
      (.compilation ⟨p, file, settings, watcher, receiver⟩) >>= answer).result w
    let stages := runTree host p tree file watcher >>= writeFinal host p file settings watcher
    Agreed host w.runs.length file watcher (stages.result w).1 (told (.callback ⟨none⟩))
      (told (.silent ⟨none⟩)) ((attempt stages >>= conclusion watcher file).result w) := by
  intro told stages
  obtain ⟨hready, -⟩ := hw.starting q.registry.transformers watcher tree file
  have hhalted : Halted host w.runs.length (w.nextRun q.registry.transformers watcher tree file)
      ((stretch host w.runs.length q.registry.transformers 0 tree).result
        (w.starting q.registry.transformers watcher tree file)) := stretch_halted hh hready rfl htree
  have htold (receiver : TextReceiver) : told receiver =
      (stretch host w.runs.length q.registry.transformers 0 tree >>= fun halt =>
        halt.act host w.runs.length
          (.stored q.name (.compilation ⟨p, file, settings, watcher, receiver⟩)) false >>= fun _ =>
            answer (some w.runs.length)).result
        (w.starting q.registry.transformers watcher tree file) := by
    show (runTreeFor host p tree file watcher _ >>= answer).result w = _
    rw [result_bind_congr (result_runTreeFor hq (result_startTree htree file q.name w) _)]
    simp only [bind_assoc, pure_bind]
  rw [htold, htold]
  -- the way of the chain is the same for all three, so that they differ only by where it halts
  generalize hS : (stretch host w.runs.length q.registry.transformers 0 tree).result
    (w.starting q.registry.transformers watcher tree file) = S at hhalted
  cases hhalted with
  | stopped hf =>
    rw [result_bind_error hS, result_bind_error hS]
    exact .stopped hf
  | @held v index tree' name a c hrun hlast hc hnone =>
    have hk (v' : World) (hv' : v'.runs = v.runs) :
        (answer (some w.runs.length)).result v' = (.ok .none, v') :=
      result_answer_none (by rw [hv', hrun]) rfl
    rw [result_bind_ok hS, result_bind_ok hS, result_act_held hk, result_act_held hk]
    exact .held (v.calls_waitingFor hlast) (v.result?_waitingFor hc hnone) rfl
  | ended hrun hfinal hdeliveries =>
    rw [result_bind_ok hS, result_bind_ok hS]
    exact ended_agreed hq htree hS hrun hfinal hdeliveries

/-- Checks the ends of a pipeline and reads its file. -/
def reading (host : Host) (p file : Nat) (settings : Value) : Action Value := do
  requireEndpoints p
  parseFile host p file settings

theorem Local.reading : Local (reading host p file settings) :=
  .bind (.requireEndpoints _) fun _ => .parseFile _ _ _ _

theorem World.Mute.reading : Respects World.Mute (reading host p file settings) :=
  .bind (.requireEndpoints _) fun _ => .parseFile _ _ _

theorem KeepsRegistries.reading : KeepsRegistries (reading host p file settings) :=
  .bind (requireEndpoints _) fun _ => parseFile _ _ _ _

theorem processFile_eq : processFile host p file settings watcher =
    reading host p file settings >>= fun tree => tellStage watcher "parse" >>= fun _ =>
      runTree host p tree file watcher >>= writeFinal host p file settings watcher := by
  rw [reading, bind_assoc]
  rfl

/-- What becomes for a receiver of the tree that was read, or of the fault of reading it. -/
def afterReading (host : Host) (p file : Nat) (settings : Value) (watcher : Option Watcher)
    (receiver : TextReceiver) : Outcome Value → Action Value
  | .error f => giveUp watcher receiver file f
  | .ok tree => tellStage watcher "parse" >>= fun _ =>
      runTreeFor host p tree file watcher (.compilation ⟨p, file, settings, watcher, receiver⟩) >>= answer

theorem result_processTextFor_file (receiver : TextReceiver) :
    (processTextFor host p (.handle (.file file)) settings watcher receiver).result w =
      (attempt (tellStarted watcher (w.files.getD file File.empty) >>= fun _ =>
        reading host p file settings) >>= afterReading host p file settings watcher receiver).result w := by
  have hgiven : (toFile (.handle (.file file))).result w = (.ok file, w) := rfl
  have hfile : (Action.file file).result w = (.ok (w.files.getD file File.empty), w) := rfl
  have hparse : (parseFor host p file settings watcher).result w =
      (tellStarted watcher (w.files.getD file File.empty) >>= fun _ =>
        reading host p file settings).result w := by
    rw [parseFor, result_bind_ok hfile]
    rfl
  have hfor : (processTextFor host p (.handle (.file file)) settings watcher receiver).result w =
      (attempt (parseFor host p file settings watcher) >>=
        afterReading host p file settings watcher receiver).result w := by
    rw [processTextFor, result_bind_ok (result_attempt _ w), hgiven]
    rfl
  rw [hfor, result_bind_ok (result_attempt _ w), result_bind_ok (result_attempt _ w), hparse]

theorem result_processText_file :
    (processText host p (.handle (.file file)) settings watcher).result w =
      (tellStarted watcher (w.files.getD file File.empty) >>= fun _ =>
        attempt (processFile host p file settings watcher) >>= conclusion watcher file).result w := by
  have hgiven : (toFile (.handle (.file file))).result w = (.ok file, w) := rfl
  have hfile : (Action.file file).result w = (.ok (w.files.getD file File.empty), w) := rfl
  rw [processText, result_bind_ok hgiven, result_bind_ok hfile]
  rfl

/-- The stages of a pipeline, with what is told before them. -/
def staged (host : Host) (p file : Nat) (settings : Value) (watcher : Option Watcher) : Action Value := do
  tellStarted watcher (← Action.file file)
  processFile host p file settings watcher

theorem result_staged : (staged host p file settings watcher).result w =
    (tellStarted watcher (w.files.getD file File.empty) >>= fun _ =>
      processFile host p file settings watcher).result w := by
  have hfile : (Action.file file).result w = (.ok (w.files.getD file File.empty), w) := rfl
  rw [staged, result_bind_ok hfile]

/-- A pipeline on a file. -/
theorem processTextFor_agreed (hh : host.Steady) (hw : w.Sound) :
    let told (receiver : TextReceiver) :=
      (processTextFor host p (.handle (.file file)) settings watcher receiver).result w
    Agreed host w.runs.length file watcher ((staged host p file settings watcher).result w).1
      (told (.callback ⟨none⟩)) (told (.silent ⟨none⟩))
      ((processText host p (.handle (.file file)) settings watcher).result w) := by
  dsimp only
  have hstarted := Local.tellStarted watcher (w.files.getD file File.empty)
  have hreading : Local (reading host p file settings) := .reading
  rw [result_processTextFor_file, result_processTextFor_file, result_processText_file, result_staged,
    result_bind_ok (result_attempt _ w), result_bind_ok (result_attempt _ w)]
  generalize hbegun : (tellStarted watcher (w.files.getD file File.empty)).result w = begun
  obtain ⟨o, w₁⟩ := begun
  cases o with
  | error g =>
    rw [result_bind_error hbegun, result_bind_error hbegun, result_bind_error hbegun]
    refine giveUp_agreed g rfl rfl ?_ (.inr ⟨emit_error hbegun, rfl⟩)
    rw [(hstarted.aside hbegun).deliveries_eq]
    exact (hw.fresh _ (Nat.le_refl _)).2
  | ok _ =>
    rw [result_bind_ok hbegun, result_bind_ok hbegun, result_bind_ok hbegun, processFile_eq,
      result_bind_ok (result_attempt _ w₁)]
    generalize hread : (reading host p file settings).result w₁ = read
    obtain ⟨o, w₂⟩ := read
    cases o with
    | error f =>
      rw [result_bind_error hread]
      refine giveUp_agreed f rfl rfl ?_ (.inl rfl)
      rw [(hreading.aside hread).deliveries_eq, (hstarted.aside hbegun).deliveries_eq]
      exact (hw.fresh _ (Nat.le_refl _)).2
    | ok tree =>
      have hlocal := Local.tellStage watcher "parse"
      rw [result_bind_ok hread]
      dsimp only [afterReading]
      generalize hparsed : (tellStage watcher "parse").result w₂ = parsed
      obtain ⟨o, w₃⟩ := parsed
      cases o with
      | error g =>
        rw [result_bind_error hparsed, result_bind_error hparsed, result_bind_error hparsed]
        exact .stopped (n := 0) (.inl (.observer (emit_error hparsed)))
      | ok _ =>
        have hsound := hlocal.sound (hreading.sound (hstarted.sound hw hbegun) hread) hparsed
        have hruns := ((hstarted.aside hbegun).trans (hreading.aside hread)).trans (hlocal.aside hparsed)
        obtain ⟨-, u, hchecked, hparse⟩ := of_result_bind_ok hread
        obtain ⟨⟨q, hq⟩, htree⟩ := parseFile_ok hparse
        obtain ⟨q₁, hq₁, -⟩ := (KeepsRegistries.parseFile _ _ _ _).processor_of hparse hq
        obtain ⟨q₂, hq₂, -⟩ := (KeepsRegistries.emit _ _).processor_of hparsed hq₁
        have h := run_agreed hh hsound hq₂ htree file settings watcher
        dsimp only at h
        rw [result_bind_ok (result_attempt _ w₃), hruns.runs_eq] at h
        rw [result_bind_ok hparsed, result_bind_ok hparsed, result_bind_ok hparsed]
        exact h

end Whole

end TextPipeline.Pipeline
