import TextPipeline.Proofs.Listening

/-! What a callback hears. It is called once by a pipeline whose steps deliver before they return, with
the text that the same call without a callback returns or with the fault that it raises, and both leave
the same behind. What gets around the callback is a step that fails after it has passed on its result, and
a fault that cannot be described or has no text. -/

namespace TextPipeline.Pipeline

open TextPipeline.Transform
open TextPipeline.Pipeline.Action
open World (nobody)

/-- A run of which nobody is told: it was stopped on its way, a step failed after it had passed on its
result, or the last step that was called has yet to deliver. -/
def Lapsed (host : Host) (r : Nat) (watcher : Option Watcher) (ran : Outcome Value × World) : Prop :=
  (∃ f n, ran.1 = .error f ∧ (ran.2.Stopped watcher r f ∨ ran.2.Betrayed host r n f)) ∨
    ∃ a, ran.1 = .ok .none ∧ (calls r ran.2.events).getLast? = some a ∧
      ran.2.result? a.completion = none

/-- A pipeline of which nobody is told: its stages come to a fault that cannot be described or has no text,
and what was to tell of it fails. -/
def Muffled (stages : Outcome Value) (ran : Outcome Value × World) : Prop :=
  ∃ f g, stages = .error f ∧ ran.1 = .error g ∧ ran.2.Unsaid f g

section Once

variable {host : Host} {w : World} {p file : Nat} {settings : Value} {watcher : Option Watcher}

/-- What becomes of a document that cannot be made a file of. -/
def refuse (watcher : Option Watcher) (receiver : TextReceiver) (f : Fault) : Action Value := do
  require f.isError f
  fail watcher receiver f (← addFile File.empty)
  return .none

/-- A receiver hears of a document as of the file that is made of it. -/
theorem processTextFor_heard (hh : host.Steady) (hw : w.Sound) (p : Nat) (value settings : Value)
    (watcher : Option Watcher) :
    let told (receiver : TextReceiver) := (processTextFor host p value settings watcher receiver).result w
    let stages := toFile value >>= fun file => staged host p file settings watcher
    ∃ file plain, Agreed host w.runs.length file watcher (stages.result w).1 (told (.callback ⟨none⟩))
      (told (.silent ⟨none⟩)) plain := by
  intro told stages
  have hlocal := Local.toFile value
  generalize hmade : (toFile value).result w = made
  obtain ⟨o, v⟩ := made
  have hv := hlocal.sound hw hmade
  have hruns := (hlocal.aside hmade).runs_eq
  cases o with
  | ok id =>
    refine ⟨id, (processText host p (.handle (.file id)) settings watcher).result v, ?_⟩
    have htold (receiver : TextReceiver) : told receiver =
        (processTextFor host p (.handle (.file id)) settings watcher receiver).result v := by
      show (processTextFor host p value settings watcher receiver).result w = _
      rw [processTextFor, result_bind_ok (result_attempt _ w), hmade]
      rfl
    rw [htold, htold, ← hruns, result_bind_ok hmade]
    exact processTextFor_agreed hh hv
  | error f =>
    -- no file is there to be told of, and a new one takes its place
    have htold (receiver : TextReceiver) : told receiver = (refuse watcher receiver f).result v := by
      show (processTextFor host p value settings watcher receiver).result w = _
      rw [processTextFor, result_bind_ok (result_attempt _ w), hmade]
      rfl
    cases hf : f.isError with
    | false =>
      refine ⟨0, (.error f, v), ?_⟩
      rw [htold, htold, refuse, refuse, hf]
      exact .stopped (n := 0) (.inl (.abort hf))
    | true =>
      have hadded := Local.addFile File.empty
      obtain ⟨u, hu⟩ : ∃ u, (addFile File.empty).result v = (.ok v.files.length, u) := ⟨_, rfl⟩
      refine ⟨v.files.length, (conclusion watcher v.files.length (.error f)).result u, ?_⟩
      have hrefuse (receiver : TextReceiver) : told receiver =
          (fail watcher receiver f v.files.length >>= fun _ => pure .none).result u := by
        rw [htold, refuse, hf]
        show (addFile File.empty >>= fun n => fail watcher receiver f n >>= fun _ =>
          pure Value.none : Action Value).result v = _
        rw [result_bind_ok hu]
      rw [hrefuse, hrefuse, result_bind_error hmade]
      refine fail_agreed rfl rfl (fun g tree hg => ?_) (fun _ _ => rfl) (.inl rfl)
      rw [(hadded.aside hu).deliveries_eq, (hlocal.aside hmade).deliveries_eq,
        (hw.fresh _ (Nat.le_refl _)).2] at hg
      cases hg

/-- A pipeline with a receiver raises a fault where it is stopped, where a step has raised it after it had
passed on its result, or where nobody can be told of what its stages came to. -/
theorem Agreed.raises {r file : Nat} {stages : Outcome Value} {told unheard plain : Outcome Value × World}
    (h : Agreed host r file watcher stages told unheard plain) {f : Fault}
    (hf : told.1 = .error f ∨ unheard.1 = .error f) :
    told = unheard ∧ (told.2.Stopped watcher r f ∨ (∃ n, told.2.Betrayed host r n f) ∨ Muffled stages told) := by
  cases h with
  | written | failed | held => rcases hf with hf | hf <;> cases hf
  | muffled _ hstages hunsaid => exact ⟨rfl, .inr (.inr ⟨_, _, hstages, rfl, hunsaid⟩)⟩
  | stopped hstops =>
    obtain rfl := Except.error.inj (or_self_iff.mp hf)
    exact ⟨rfl, hstops.imp_right fun hbetrayed => .inl ⟨_, hbetrayed⟩⟩

theorem Agreed.called_once {r file : Nat} {stages : Outcome Value}
    {told unheard plain : Outcome Value × World}
    (h : Agreed host r file watcher stages told unheard plain) :
    (∃ text error shown names contents, unheard.1 = .ok text ∧
      told = (.ok text, unheard.2.told (.processed error shown names contents))) ∨
    told.1 = unheard.1 ∧ told.2.events = unheard.2.events ∧
      (Lapsed host r watcher told ∨ Muffled stages told) := by
  cases h with
  | written | failed => exact .inl ⟨_, _, _, _, _, rfl, rfl⟩
  | muffled _ hstages hunsaid => exact .inr ⟨rfl, rfl, .inr ⟨_, _, hstages, rfl, hunsaid⟩⟩
  | stopped hf => exact .inr ⟨rfl, rfl, .inl (.inl ⟨_, _, rfl, hf⟩)⟩
  | held hlast hnone he => exact .inr ⟨rfl, he, .inl (.inr ⟨_, rfl, hlast, hnone⟩)⟩

end Once

section Run

variable {host : Host} {w : World} {p file : Nat} {watcher : Option Watcher}

theorem startTree_ok {name : String} {tree first : Value} {v : World}
    (h : (startTree file name tree).result w = (.ok first, v)) : first.isNone = false := by
  unfold startTree at h
  cases htree : tree.isNone with
  | false =>
    rw [htree] at h
    obtain rfl := Except.ok.inj (Prod.mk.inj h).1
    exact htree
  | true =>
    rw [htree, if_pos rfl, storedTree] at h
    obtain ⟨f, u₁, -, h⟩ := of_result_bind_ok h
    obtain ⟨g, u₂, -, h⟩ := of_result_bind_ok h
    obtain ⟨-, u₃, -, h⟩ := of_result_bind_ok h
    split at h
    · split at h
      · rename_i hnode
        obtain rfl := Except.ok.inj (Prod.mk.inj h).1
        exact isNone_of_isNode hnode
      · cases (Prod.mk.inj h).1
    · cases (Prod.mk.inj h).1

/-- What is told of a run in two worlds that are alike. -/
theorem World.events_toldRan {v z : World} (hc : v.core = z.core) (he : v.events = z.events)
    (error : Option Fault) (tree : Value) (file : Nat) :
    (v.toldRan error tree file).events = (z.toldRan error tree file).events := by
  have hstore : v.store = z.store := congrArg Core.store hc
  have hnames : v.names = z.names := congrArg Core.names hc
  rw [toldRan, toldRan, events_told, events_told, he]
  unfold reveal namesOfValue namesOf
  rw [hstore, hnames]

/-- What a call for a receiver returns of the run that was started, if one was. -/
def treeOf : Option Nat → Action Value
  | some r => do return Value.ofOption (← run r).settled
  | none => return .none

/-- How two runs compare of which the first has a callback. It is told of the tree that the second one
returns, or of the fault that it raises, and the same is left behind. -/
inductive AlikeRun (host : Host) (r file : Nat) (watcher : Option Watcher) :
    Outcome Value × World → Outcome Value × World → Prop
  | returned {final : Value} {told plain : World} : told.core = plain.core →
    told.events = (plain.toldRan none final file).events →
    AlikeRun host r file watcher (.ok final, told) (.ok final, plain)
  | raised {f : Fault} {shown : Value} {told plain : World} : told.core = plain.core →
    told.events = (plain.toldRan (some f) shown file).events →
    AlikeRun host r file watcher (.ok .none, told) (.error f, plain)
  | lapsed {told plain : Outcome Value × World} : Lapsed host r watcher told →
    AlikeRun host r file watcher told plain

/-- A chain that comes to its end at once. -/
theorem runTreeFor_ended {q : Processor} (hq : w.processors[p]? = some q) {tree first : Value} {u v : World}
    (hfirst : (startTree file q.name tree).result w = (.ok first, u)) {error : Option Fault} {final : Value}
    (hS : (stretch host u.runs.length q.registry.transformers 0 first).result
      (u.starting q.registry.transformers watcher first file) = (.ok (.ended error final), v))
    (hrun : v.runs[u.runs.length]? = some (u.nextRun q.registry.transformers watcher first file))
    (hfinal : final.isNone = false) (r : Nat) :
    AlikeRun host r file watcher
      ((runTreeFor host p tree file watcher (.callback ⟨none⟩) >>= treeOf).result w)
      ((runTree host p tree file watcher).result w) := by
  obtain ⟨z, hz⟩ : ∃ z, z = (v.told (.delivered u.runs.length error final)).settling u.runs.length
    file q.name error final := ⟨_, rfl⟩
  have hact : (Halt.act host u.runs.length (.stored q.name (.callback ⟨none⟩)) false
      (.ended error final)).result v = (.ok (), z.toldRan error final file) := by
    rw [Halt.act, result_deliver_stored q.named hrun, hz]
    exact result_tellRan _ ⟨none⟩ error final file
  obtain ⟨y, hy, -, hsettled⟩ := World.run_settling
    (w := v.told (.delivered u.runs.length error final)) hrun file q.name error final rfl
  have hcore := v.core_settled u.runs.length file q.name error hfinal
  have hevents := v.events_settled_left u.runs.length file q.name error hfinal
  rw [← hz] at hy hcore hevents
  have hfound : (z.toldRan error final file).runs[u.runs.length]? = some y := hy
  have htold : (runTreeFor host p tree file watcher (.callback ⟨none⟩) >>= treeOf).result w =
      (.ok (if error.isNone then final else .none), z.toldRan error final file) := by
    rw [result_bind_congr (result_runTreeFor hq hfirst _)]
    simp only [bind_assoc, pure_bind]
    rw [result_bind_ok hS, result_bind_ok hact, treeOf, result_bind_ok (result_run hfound), hsettled]
    rfl
  have htoldRan := World.events_toldRan hcore hevents error final file
  rw [htold, result_runTree_ended hq hfirst hS hrun]
  cases error with
  | none => exact .returned hcore htoldRan
  | some f => exact .raised hcore htoldRan

/-- A run of the transformers of a processor. -/
theorem runOn_agreed (hh : host.Steady) (hw : w.Sound) {q : Processor} (hq : w.processors[p]? = some q)
    (tree : Value) (file : Nat) (watcher : Option Watcher) :
    let ran (callback : Option Callback) :=
      (runOn host (.handle (.processor p)) tree (.handle (.file file)) callback watcher).result w
    AlikeRun host w.runs.length file watcher (ran (some ⟨none⟩)) (ran none) := by
  intro ran
  have htold : ran (some ⟨none⟩) =
      (runTreeFor host p tree file watcher (.callback ⟨none⟩) >>= treeOf).result w := rfl
  have hplain : ran none = (runTree host p tree file watcher).result w := rfl
  have hlocal := Local.startTree file q.name tree
  rw [htold, hplain]
  generalize hfirst : (startTree file q.name tree).result w = started
  obtain ⟨o, u⟩ := started
  cases o with
  | error f =>
    have hnone : (runTreeFor host p tree file watcher (.callback ⟨none⟩)).result w =
        (.ok none, u.toldRan (some f) .none file) := result_runTreeFor_error hq hfirst _
    have hfailed : (runTree host p tree file watcher).result w = (.error f, u) := by
      rw [runTree, result_bind_ok (result_processor hq)]
      exact result_bind_error hfirst
    rw [result_bind_ok hnone, hfailed]
    exact .raised rfl rfl
  | ok first =>
    obtain ⟨hready, -⟩ := (hlocal.sound hw hfirst).starting q.registry.transformers watcher first file
    have hhalted : Halted host u.runs.length (u.nextRun q.registry.transformers watcher first file)
        ((stretch host u.runs.length q.registry.transformers 0 first).result
          (u.starting q.registry.transformers watcher first file)) :=
      stretch_halted hh hready rfl (startTree_ok hfirst)
    have hfor : (runTreeFor host p tree file watcher (.callback ⟨none⟩) >>= treeOf).result w = _ :=
      result_bind_congr (result_runTreeFor hq hfirst _) treeOf
    simp only [bind_assoc, pure_bind] at hfor
    rw [← (hlocal.aside hfirst).runs_eq]
    generalize hS : (stretch host u.runs.length q.registry.transformers 0 first).result
      (u.starting q.registry.transformers watcher first file) = S at hhalted
    cases hhalted with
    | stopped hf =>
      rw [hfor, result_bind_error hS]
      exact .lapsed (.inl ⟨_, _, rfl, hf⟩)
    | @held v index tree' name a c hrun hlast hc hnone =>
      have hk (v' : World) (hv' : v'.runs = v.runs) :
          (treeOf (some u.runs.length)).result v' = (.ok .none, v') := by
        rw [treeOf, result_bind_ok (result_run (by rw [hv', hrun]))]
        rfl
      rw [hfor, result_bind_ok hS, result_act_held hk]
      exact .lapsed (.inr ⟨a, rfl, v.calls_waitingFor hlast, v.result?_waitingFor hc hnone⟩)
    | ended hrun hfinal => exact runTreeFor_ended hq hfirst hS hrun hfinal _

end Run

section Alike

variable {host : Host} {w : World} {p file : Nat} {settings : Value} {watcher : Option Watcher}

/-- The world in which a file holds another text. -/
def World.holding (w : World) (file : Nat) (text : Value) : World :=
  { w with files := w.files.set file { w.files.getD file File.empty with contents := text } }

theorem emit_core (watcher : Option Watcher) (progress : Progress) (w : World) :
    ((emit watcher progress).result w).2.core = w.core := by
  rcases emit_cases watcher progress with ⟨g, k, h⟩ | h
  · rw [h]
    rfl
  · rw [h]
    rfl

theorem tellFailed_core (watcher : Option Watcher) (f : Fault) (w : World) :
    ((tellFailed watcher f).result w).2.core = w.core := by
  rw [tellFailed, result_bind, result_textOf]
  cases w.textOf (.error f) with
  | error g => rfl
  | ok said => exact emit_core watcher _ w

/-- A text is put into its file where all stages succeed, and nowhere else. -/
theorem conclusion_core (watcher : Option Watcher) (file : Nat) (w : World) :
    (∀ text, ((conclusion watcher file (.ok text)).result w).2.core = (w.holding file text).core) ∧
      ∀ f, ((conclusion watcher file (.error f)).result w).2.core = w.core := by
  constructor
  · intro text
    have hset : (conclusion watcher file (.ok text)).result w =
        (emit watcher (.at_ "finished"
          ("Processed " ++ File.label { w.files.getD file File.empty with contents := text }) 0
          stages.length []) >>= fun _ => pure text).result (w.holding file text) := rfl
    rw [hset, ← emit_core watcher _ (w.holding file text), result_bind]
    generalize (emit watcher _).result (w.holding file text) = done
    obtain ⟨o, v⟩ := done
    cases o <;> rfl
  · intro f
    rw [conclusion]
    split
    · rw [← tellFailed_core watcher f w, result_bind]
      generalize (tellFailed watcher f).result w = done
      obtain ⟨o, v⟩ := done
      cases o <;> rfl
    · rfl

/-- What a processor lacks to process anything. -/
def Processor.lack? (q : Processor) : Option Fault :=
  if q.parser.isNone then some (.noParser q.name)
  else if q.compiler.isNone then some (.noCompiler q.name)
  else none

/-- What a processor lacks can always be told. -/
theorem Processor.not_unsaid {q : Processor} {f g : Fault} (hf : q.lack? = some f) : ¬w.Unsaid f g := by
  unfold lack? at hf
  split at hf
  · obtain rfl := Option.some.inj hf
    rintro (h | h) <;> cases h
  · split at hf
    · obtain rfl := Option.some.inj hf
      rintro (h | h) <;> cases h
    · cases hf

theorem requireEndpoints_lack {q : Processor} (hq : w.processors[p]? = some q) {f : Fault}
    (hf : q.lack? = some f) : f.isError = true ∧ (requireEndpoints p).result w = (.error f, w) := by
  rw [requireEndpoints, result_bind_ok (result_processor hq)]
  unfold Processor.lack? at hf
  cases hparser : q.parser.isNone with
  | true =>
    rw [hparser] at hf
    obtain rfl := Option.some.inj hf
    have herror : (Fault.ancestry 8 "MissingParserError").contains "Exception" = true := by decide
    exact ⟨herror, rfl⟩
  | false =>
    cases hcompiler : q.compiler.isNone with
    | true =>
      rw [hparser, hcompiler] at hf
      obtain rfl := Option.some.inj hf
      have herror : (Fault.ancestry 8 "MissingCompilerError").contains "Exception" = true := by decide
      exact ⟨herror, rfl⟩
    | false =>
      rw [hparser, hcompiler] at hf
      cases hf

/-- What a callback is told of a pipeline on a file, which without it returns a text or raises a fault:
that text or that fault, as the last thing that happens, and the same is left behind. Where the fault
is that of a run, nothing else happens after the run. A fault of the stages that cannot be described, or
has no text, is kept from the callback: telling of it fails. -/
inductive Alike (host : Host) (r file : Nat) (watcher : Option Watcher) (stages : Outcome Value) :
    Outcome Value × World → Outcome Value × World → Prop
  | returned {text : String} {v z : World} : v.core = z.core → v.events = z.events →
    (∀ f, z.files[file]? = some f → f.contents = .str text) →
    Alike host r file watcher stages (.ok (.str text), v.toldProcessed none (.str text) file)
      (.ok (.str text), z)
  | raised {f : Fault} {said : String} {v z : World} {es : List Event} {record : LogRecord} :
    v.core = z.core → z.textOf (.error f) = .ok said →
    v.events = es ++ .log record :: notice watcher (aborted said) →
    (z.events = es ++ (if f.isError then notice watcher (aborted said) else []) ∨
      Interrupts watcher es f ∧ z.events = es) →
    (∀ g tree, (some g, tree) ∈ deliveries r es →
      g = f ∧ es.getLast? = some (.delivered r (some g) tree)) →
    Alike host r file watcher stages (.ok .none, v.toldProcessed (some f) .none file) (.error f, z)
  | muffled {f g : Fault} {v z : World} {plain : Outcome Value × World} : v.core = z.core →
    stages = .error f → v.Unsaid f g →
    plain = (conclusion watcher file (.error f)).result z ∨ plain = (.error f, z) →
    Alike host r file watcher stages (.error g, v) plain
  | lapsed {told plain : Outcome Value × World} : Lapsed host r watcher told →
    Alike host r file watcher stages told plain

theorem Agreed.alike {r : Nat} {stages : Outcome Value} {told unheard plain : Outcome Value × World}
    (h : Agreed host r file watcher stages told unheard plain) :
    Alike host r file watcher stages told plain := by
  cases h with
  | written hc he ht => exact .returned hc he ht
  | failed hc hsaid hv hz hd => exact .raised hc hsaid hv hz hd
  | muffled hc hstages hunsaid hplain => exact .muffled hc hstages hunsaid hplain
  | stopped hf => exact .lapsed (.inl ⟨_, _, rfl, hf⟩)
  | held hlast hnone => exact .lapsed (.inr ⟨_, rfl, hlast, hnone⟩)

/-- What an observer is told when the stages of a pipeline on a file begin. -/
def World.started (w : World) (file : Nat) : Progress :=
  .at_ "started" ("Processing " ++ (w.files.getD file File.empty).label) 0 stages.length []

/-- A callback is told of what a processor lacks, and nothing else happens than what is told of it. -/
def Lacks (watcher : Option Watcher) (w : World) (file : Nat) (f : Fault) (told : Outcome Value × World) :
    Prop :=
  ∃ (v : World) (record : LogRecord) (said : String), told = (.ok .none, v.toldProcessed (some f) .none file) ∧
    v.core = w.core ∧ w.textOf (.error f) = .ok said ∧
    v.events = w.events ++ notice watcher (w.started file) ++ .log record :: notice watcher (aborted said)

/-- Without its ends a pipeline comes to nothing, for a callback and without one. -/
theorem lacking {q : Processor} (hq : w.processors[p]? = some q) {f : Fault} (hf : q.lack? = some f)
    (file : Nat) (settings : Value) (watcher : Option Watcher) :
    let told := (processTextFor host p (.handle (.file file)) settings watcher (.callback ⟨none⟩)).result w
    Lacks watcher w file f told ∨ Lapsed host w.runs.length watcher told ∨
      ∃ k g, Interrupts watcher (w.told (.progress k (w.started file))).events g := by
  intro told
  obtain ⟨herror, -⟩ := requireEndpoints_lack hq hf
  have htold : told = (attempt (tellStarted watcher (w.files.getD file File.empty) >>= fun _ =>
      reading host p file settings) >>=
        afterReading host p file settings watcher (.callback ⟨none⟩)).result w :=
    result_processTextFor_file _
  rw [htold, result_bind_ok (result_attempt _ w)]
  rcases emit_cases watcher (w.started file) with ⟨g, k, h⟩ | h
  · exact .inr (.inr ⟨k, g, emit_error (h w)⟩)
  · obtain ⟨u, hu⟩ : ∃ u : World, u = { w with events := w.events ++ notice watcher (w.started file) } :=
      ⟨_, rfl⟩
    have hcore : u.core = w.core := by rw [hu]; rfl
    have hbegun : (tellStarted watcher (w.files.getD file File.empty)).result w = (.ok (), u) := by
      rw [hu]
      exact h w
    have hlack : (reading host p file settings).result u = (.error f, u) :=
      result_bind_error (requireEndpoints_lack (by rw [hu]; exact hq) hf).2
    rw [result_bind_ok hbegun, hlack]
    dsimp only [afterReading]
    rcases fail_cases watcher f u file with ⟨g, v, hg, -, -, hfail⟩ | ⟨described, said, hsaid, -, hfail⟩
    · rcases hg with hg | hg
      · exact absurd hg (Processor.not_unsaid hf)
      · have hraised : (giveUp watcher (.callback ⟨none⟩) file f).result u = (.error g, v) := by
          rw [giveUp, herror]
          show (fail watcher (.callback ⟨none⟩) f file >>= fun _ => pure Value.none).result u = _
          exact result_bind_error (hfail (.callback ⟨none⟩))
        rw [hraised]
        exact .inr (.inl (.inl ⟨g, 0, rfl, .inl (.observer hg)⟩))
    · have hcallback : (fail watcher (.callback ⟨none⟩) f file).result u =
          (.ok (), (u.failed watcher file described said).toldProcessed (some f) .none file) := by
        rw [hfail]
        exact result_tellProcessed _ ⟨none⟩ (some f) .none file
      refine .inl ⟨u.failed watcher file described said, u.failure file described, said, ?_, hcore,
        (World.textOf_of_core hcore.symm _).trans hsaid, by rw [World.events_failed, hu]⟩
      rw [giveUp, herror]
      exact result_bind_ok hcallback

theorem processText_staged (file : Nat) (settings : Value) (watcher : Option Watcher) :
    let plain := (processText host p (.handle (.file file)) settings watcher).result w
    let stages := (staged host p file settings watcher).result w
    (∀ text, stages.1 = .ok text → plain.2.core = (stages.2.holding file text).core) ∧
      ∀ f, stages.1 = .error f → plain.2.core = stages.2.core := by
  intro plain stages
  have hplain : plain = (tellStarted watcher (w.files.getD file File.empty) >>= fun _ =>
      attempt (processFile host p file settings watcher) >>= conclusion watcher file).result w :=
    result_processText_file
  have hstages : stages = (tellStarted watcher (w.files.getD file File.empty) >>= fun _ =>
      processFile host p file settings watcher).result w := result_staged
  rw [hplain, hstages]
  generalize hbegun : (tellStarted watcher (w.files.getD file File.empty)).result w = begun
  obtain ⟨o, v⟩ := begun
  cases o with
  | error g =>
    rw [result_bind_error hbegun, result_bind_error hbegun]
    constructor
    · rintro text ⟨⟩
    · rintro f -
      rfl
  | ok _ =>
    rw [result_bind_ok hbegun, result_bind_ok hbegun, result_bind_ok (result_attempt _ v)]
    generalize (processFile host p file settings watcher).result v = processed
    obtain ⟨o, u⟩ := processed
    obtain ⟨hwritten, hfailed⟩ := conclusion_core watcher file u
    constructor
    · rintro text ⟨⟩
      exact hwritten text
    · rintro f ⟨⟩
      exact hfailed f

end Alike

end TextPipeline.Pipeline
