import TextPipeline.Proofs.Callback

/-! It does not matter for a receiver when the steps of a chain deliver: it is told the same, only later.
It matters for the caller, who gets what is there when the call returns. A step that is to deliver later
leaves the caller with nothing, and so does a fault. -/

namespace TextPipeline.Pipeline

open TextPipeline.Transform
open TextPipeline.Pipeline.Action
open World (nobody)

/-- How a call answers that passes its result on to a receiver. It returns what comes of the final tree,
which the receiver is told, too, if all steps that were called delivered at once and nothing failed. It
returns nothing if the receiver was told of a fault, or is yet to be told by a step that delivers later.
A fault is raised only by what halts the call. -/
inductive Answers (parts : List (Part × Manner)) (r : Nat) (comes : Value → Value → Prop)
    (halts : Fault → World → Prop) (told : World → Option Fault → Value → World) :
    Outcome Value × World → Prop where
  | returned {final value : Value} {v : World} : comes final value →
    deliveries r v.events = [(none, final)] → (∀ a ∈ calls r v.events, PromptAt parts a) →
    Answers parts r comes halts told (.ok value, told v none value)
  | failed {f : Fault} {shown : Value} {v : World} :
    Answers parts r comes halts told (.ok .none, told v (some f) shown)
  | putOff {a : Invocation} {record : LogRecord} {v : World} : v.events.getLast? = some (.log record) →
    a ∈ calls r v.events → ¬PromptAt parts a → Answers parts r comes halts told (.ok .none, v)
  | stopped {f : Fault} {v : World} : halts f v → Answers parts r comes halts told (.error f, v)

section Start

variable {host : Host} {w : World} {parts : List (Part × Manner)} {name : String}

/-- How far a chain comes at once whose tree is to be stored. -/
inductive Started (host : Host) (r : Nat) (x : Run) (parts : List (Part × Manner)) (name : String)
    (receiver : TreeReceiver) : Outcome Nat × World → Prop where
  | ended {v : World} {error : Option Fault} {final : Value} {done : Outcome Unit × World} :
    v.runs[r]? = some x → deliveries r v.events = [] →
    (error = none → ∀ a ∈ calls r v.events, PromptAt parts a) →
    done = (receive host r x.file receiver error final).result
      ((v.told (.delivered r error final)).settling r x.file name error final) →
    Started host r x parts name receiver (done.1.map fun _ => r, done.2)
  | putOff {v : World} {a : Invocation} {record : LogRecord} : v.runs[r]? = some x →
    a ∈ calls r v.events → ¬PromptAt parts a → v.events.getLast? = some (.log record) →
    Started host r x parts name receiver (.ok r, v)
  | stopped {f : Fault} {v : World} : v.Stopped x.watcher r f →
    Started host r x parts name receiver (.error f, v)

theorem start_started (hh : host.Steady) (hw : w.Sound) (hn : name ≠ "")
    (parts : List (Part × Manner)) (watcher : Option Watcher) (tree : Value) (file : Nat)
    (receiver : TreeReceiver) :
    Started host w.runs.length (w.nextRun (chainOf parts) watcher tree file) parts name receiver
      ((start host (chainOf parts) watcher tree file (.stored name receiver)).result w) := by
  obtain ⟨u, hu⟩ : ∃ u, u = w.starting (chainOf parts) watcher tree file := ⟨_, rfl⟩
  obtain ⟨hready, -⟩ := hw.starting (chainOf parts) watcher tree file
  rw [result_start]
  rw [← hu] at hready ⊢
  have hnone : calls w.runs.length u.events = [] := by
    rw [hu]
    show calls w.runs.length (w.events ++ _) = []
    rw [calls_append, (hw.fresh _ (Nat.le_refl _)).1]
    rfl
  have hleads : Leads host w.runs.length (w.nextRun (chainOf parts) watcher tree file) parts
      (.stored name receiver) u (u.followed w.runs.length _)
      ((drive host w.runs.length (.stored name receiver) false (chainOf parts) 0 tree).result u) :=
    drive_leads hh rfl hready rfl (fun _ ha => .inl ha) rfl
  dsimp only
  generalize (drive host w.runs.length (.stored name receiver) false (chainOf parts) 0 tree).result u =
    done at hleads
  cases hleads with
  | @ended v s error final hready' hp _ hprompt =>
    rw [result_deliver_stored hn hready'.run]
    refine .ended hready'.run (hready'.deliveries_eq_nil hp.not_ended) (fun he a ha => ?_) rfl
    rcases hprompt he a ha with ha | ha
    · rw [hnone] at ha
      cases ha
    · exact ha
  | escaped _ _ hf _ => exact .stopped hf
  | held h _ hlog =>
    obtain ⟨record, hlog⟩ := hlog
    refine .putOff h.run (List.mem_of_getLast? h.last) ?_ hlog
    rintro ⟨q, m, hpart, hm⟩
    obtain ⟨rfl, rfl⟩ := Prod.mk.inj (Option.some.inj (hpart.symm.trans h.part))
    cases hm

end Start

section Answer

variable {host : Host} {w : World} {p file : Nat} {q : Processor} {parts : List (Part × Manner)}
  {watcher : Option Watcher}

theorem result_runTreeFor_started (hh : host.Steady) (hw : w.Sound) (hq : w.processors[p]? = some q)
    (hparts : q.registry.transformers = chainOf parts) {tree first : Value} {u : World}
    (hfirst : (startTree file q.name tree).result w = (.ok first, u)) (watcher : Option Watcher)
    (receiver : TreeReceiver) :
    ∃ done, Started host w.runs.length (u.nextRun (chainOf parts) watcher first file) parts q.name
        receiver done ∧
      (runTreeFor host p tree file watcher receiver).result w = (done.1.map some, done.2) := by
  have hlocal := Local.startTree file q.name tree
  have hstarted := start_started hh (hlocal.sound hw hfirst) q.named parts watcher first file receiver
  rw [(hlocal.aside hfirst).runs_eq] at hstarted
  refine ⟨_, hstarted, ?_⟩
  rw [runTreeFor, result_bind_ok (result_processor hq), result_bind_ok (result_attempt _ w), hfirst]
  dsimp only
  rw [hparts]
  show (start host (chainOf parts) watcher first file (.stored q.name receiver) >>= fun r =>
    pure (some r)).result u = _
  rw [result_bind]
  generalize (start host (chainOf parts) watcher first file (.stored q.name receiver)).result u = done
  obtain ⟨o, v⟩ := done
  cases o <;> rfl

/-- What a run with a receiver returns. -/
theorem runOn_answers (hh : host.Steady) (hw : w.Sound) (hq : w.processors[p]? = some q)
    (hparts : q.registry.transformers = chainOf parts) (tree : Value) (file : Nat)
    (watcher : Option Watcher) :
    Answers parts w.runs.length Eq (fun f v => v.Stopped watcher w.runs.length f)
      (fun v error shown => v.toldRan error shown file)
      ((runOn host (.handle (.processor p)) tree (.handle (.file file)) (some ⟨none⟩) watcher).result
        w) := by
  obtain ⟨ran, hran⟩ : ∃ ran, ran = (runOn host (.handle (.processor p)) tree (.handle (.file file))
    (some ⟨none⟩) watcher).result w := ⟨_, rfl⟩
  have htold : ran = (runTreeFor host p tree file watcher (.callback ⟨none⟩) >>= treeOf).result w := hran
  rw [← hran]
  have hlocal := Local.startTree file q.name tree
  generalize hfirst : (startTree file q.name tree).result w = started
  obtain ⟨o, u⟩ := started
  cases o with
  | error f =>
    have hnone : (runTreeFor host p tree file watcher (.callback ⟨none⟩)).result w =
        (.ok none, u.toldRan (some f) .none file) := result_runTreeFor_error hq hfirst _
    rw [htold, result_bind_ok hnone]
    exact .failed
  | ok first =>
    obtain ⟨done, hstarted, hdone⟩ := result_runTreeFor_started hh hw hq hparts hfirst watcher
      (.callback ⟨none⟩)
    cases hstarted with
    | @ended v error final done hrun hnil hprompt hreceive =>
      obtain ⟨z, hz⟩ : ∃ z, z = (v.told (.delivered w.runs.length error final)).settling w.runs.length
        file q.name error final := ⟨_, rfl⟩
      have hreceived : done = (.ok (), z.toldRan error final file) := by
        rw [hreceive, hz]
        exact result_tellRan _ ⟨none⟩ error final file
      obtain ⟨y, hy, -, hsettled⟩ := World.run_settling
        (w := v.told (.delivered w.runs.length error final)) hrun file q.name error final rfl
      rw [← hz] at hy
      have hfound : (z.toldRan error final file).runs[w.runs.length]? = some y := hy
      have hevents : z.events = v.events ++ [.delivered w.runs.length error final] ++
          yielded file q.name error final := by
        rw [hz, World.events_settled]
      rw [hreceived] at hdone
      rw [htold, result_bind_ok hdone, treeOf, result_bind_ok (result_run hfound), hsettled]
      cases error with
      | some f => exact .failed
      | none =>
        refine .returned rfl ?_ ?_
        · rw [hevents, deliveries_append, deliveries_append, hnil]
          simp
        · rw [hevents, calls_append, calls_append]
          simpa using hprompt rfl
    | @putOff v a record hrun ha hlater hlast =>
      rw [htold, result_bind_ok hdone, treeOf, result_bind_ok (result_run hrun)]
      exact .putOff hlast ha hlater
    | stopped hf =>
      rw [htold, result_bind_error hdone]
      exact .stopped hf

/-! ### Whole pipelines -/

variable {settings : Value}

/-- What a pipeline with a callback returns. -/
abbrev AnswersText (parts : List (Part × Manner)) (r file : Nat) (halts : Fault → World → Prop) :
    Outcome Value × World → Prop :=
  Answers parts r (fun _ text => ∃ s, text = .str s) halts fun v error shown =>
    v.toldProcessed error shown file

/-- A run is stopped, or no step is to blame that has failed after it passed on its result. -/
def Halting (host : Host) (r : Nat) (watcher : Option Watcher) (f : Fault) (v : World) : Prop :=
  v.Stopped watcher r f ∨ ∀ n, ¬v.Betrayed host r n f

/-- Only a step of a chain that goes on can have failed after it passed on its result. -/
theorem World.Aside.not_betrayed {r n : Nat} {v : World} {f : Fault} (h : w.Aside v)
    (hover : deliveries r w.events ≠ [] ∨ calls r w.events = []) : ¬v.Betrayed host r n f := by
  rintro ⟨hnil, a, -, hlast, -⟩
  rw [h.deliveries_eq] at hnil
  rw [h.calls_eq] at hlast
  rcases hover with hover | hover
  · exact hover hnil
  · rw [hover] at hlast
    cases hlast

theorem fail_answers {r : Nat} {f : Fault} (hover : deliveries r w.events ≠ [] ∨ calls r w.events = [])
    {k : Action Value} (hk : ∀ v : World, v.runs = w.runs → k.result v = (.ok .none, v)) :
    AnswersText parts r file (Halting host r watcher)
      ((fail watcher (.callback ⟨none⟩) f file >>= fun _ => k).result w) := by
  rcases fail_cases watcher f w file with ⟨g, v, -, -, haside, h⟩ | ⟨described, said, -, -, h⟩
  · rw [result_bind_error (h _)]
    exact .stopped (.inr fun n => haside.not_betrayed hover)
  · obtain ⟨u, hu⟩ : ∃ u, u = w.failed watcher file described said := ⟨_, rfl⟩
    have hfailed : (fail watcher (.callback ⟨none⟩) f file).result w =
        (.ok (), u.toldProcessed (some f) .none file) := by
      rw [h, ← hu]
      exact result_tellProcessed _ ⟨none⟩ (some f) .none file
    have hruns : u.runs = w.runs := by rw [hu]; rfl
    rw [result_bind_ok hfailed, hk (u.toldProcessed (some f) .none file) hruns]
    exact .failed

theorem giveUp_answers {r : Nat} (f : Fault) (hcalls : calls r w.events = []) :
    AnswersText parts r file (Halting host r watcher)
      ((giveUp watcher (.callback ⟨none⟩) file f).result w) := by
  unfold giveUp
  cases hf : f.isError with
  | false => exact .stopped (.inl (.abort hf))
  | true => exact fail_answers (.inr hcalls) fun _ _ => rfl

/-- What a pipeline returns whose chain has come to its end. -/
theorem compile_answers {r : Nat} {y : Run} (hy : w.runs[r]? = some y) (hcompiled : y.compiled = none)
    {error : Option Fault} {final : Value} (hd : deliveries r w.events = [(error, final)])
    (hprompt : error = none → ∀ a ∈ calls r w.events, PromptAt parts a) :
    AnswersText parts r file (Halting host r watcher)
      ((compile host r ⟨p, file, settings, watcher, .callback ⟨none⟩⟩ error final >>= fun _ =>
        answer (some r)).result w) := by
  have hover : deliveries r w.events ≠ [] := by simp [hd]
  cases error with
  | some f => exact fail_answers (.inl hover) fun v hv => result_answer_none (hv ▸ hy) hcompiled
  | none =>
    have hfinished : Finished r file watcher w w _ (fun receiver => (compile host r
        ⟨p, file, settings, watcher, receiver⟩ none final).result w) _ := compile_finished rfl r final
    cases hfinished with
    | @written text v z haside _ _ _ hending =>
      obtain ⟨u, hu⟩ : ∃ u, u = v.compiling r text := ⟨_, rfl⟩
      have hcompile : (compile host r ⟨p, file, settings, watcher, .callback ⟨none⟩⟩ none final).result w =
          (.ok (), u.toldProcessed none (.str text) file) := by
        rw [hending, ← hu]
        exact result_tellProcessed u ⟨none⟩ none (.str text) file
      have hrun : (answer (some r)).result (u.toldProcessed none (.str text) file) =
          (.ok (.str text), u.toldProcessed none (.str text) file) :=
        result_answer_compiling (haside.runs_eq ▸ hy) hcompiled (hu ▸ rfl)
      have hevents : u.events = v.events := by
        rw [hu]
        rfl
      rw [result_bind_ok hcompile, hrun]
      have hends : deliveries r u.events = [(none, final)] := by
        rw [hevents, haside.deliveries_eq, hd]
      refine .returned ⟨text, rfl⟩ hends ?_
      rw [hevents, haside.calls_eq]
      exact hprompt rfl
    | @failed f v z haside _ _ _ hending =>
      rw [result_bind_congr (hending _)]
      exact fail_answers (.inl (haside.deliveries_eq r ▸ hover)) fun u hu =>
        result_answer_none (hu ▸ haside.runs_eq ▸ hy) hcompiled
    | stopped hf hending =>
      rw [result_bind_error (hending _)]
      exact .stopped (.inl hf)

/-- What a pipeline returns from the start of its chain on. -/
theorem run_answers (hh : host.Steady) (hw : w.Sound) (hq : w.processors[p]? = some q)
    (hparts : q.registry.transformers = chainOf parts) {tree : Value} (htree : tree.isNone = false)
    (file : Nat) (settings : Value) (watcher : Option Watcher) :
    AnswersText parts w.runs.length file (Halting host w.runs.length watcher)
      ((runTreeFor host p tree file watcher
        (.compilation ⟨p, file, settings, watcher, .callback ⟨none⟩⟩) >>= answer).result w) := by
  have hfirst := result_startTree htree file q.name w
  obtain ⟨done, hstarted, hdone⟩ := result_runTreeFor_started hh hw hq hparts hfirst watcher
    (.compilation ⟨p, file, settings, watcher, .callback ⟨none⟩⟩)
  rw [result_bind_of hdone]
  cases hstarted with
  | @ended v error final done hrun hnil hprompt hreceive =>
    obtain ⟨z, hz⟩ : ∃ z, z = (v.told (.delivered w.runs.length error final)).settling w.runs.length
      file q.name error final := ⟨_, rfl⟩
    obtain ⟨y, hy, hcompiled, -⟩ := World.run_settling
      (w := v.told (.delivered w.runs.length error final)) hrun file q.name error final rfl
    have hevents : z.events = v.events ++ [.delivered w.runs.length error final] ++
        yielded file q.name error final := by
      rw [hz, World.events_settled]
    rw [← hz] at hy
    have hd : deliveries w.runs.length z.events = [(error, final)] := by
      rw [hevents, deliveries_append, deliveries_append, hnil]
      simp
    have hcalls (he : error = none) : ∀ a ∈ calls w.runs.length z.events, PromptAt parts a := by
      rw [hevents, calls_append, calls_append]
      simpa using hprompt he
    have hanswers : AnswersText parts w.runs.length file (Halting host w.runs.length watcher)
        ((compile host w.runs.length ⟨p, file, settings, watcher, .callback ⟨none⟩⟩ error final >>= fun _ =>
          answer (some w.runs.length)).result z) := compile_answers hy hcompiled hd hcalls
    have hcompile : (compile host w.runs.length ⟨p, file, settings, watcher, .callback ⟨none⟩⟩ error
        final).result z = done := by
      rw [hz]
      exact hreceive.symm
    obtain ⟨o, u⟩ := done
    rw [result_bind_of hcompile] at hanswers
    cases o <;> exact hanswers
  | @putOff v a record hrun ha hlater hlast =>
    have hnone : (answer (some w.runs.length)).result v = (.ok .none, v) := result_answer_none hrun rfl
    show Answers _ _ _ _ _ ((answer (some w.runs.length)).result v)
    rw [hnone]
    exact .putOff hlast ha hlater
  | stopped hf => exact .stopped (.inl hf)

/-- What a pipeline with a callback returns, no fault of it being that of a step that has failed after it
passed on its result. -/
theorem processTextFor_answers (hh : host.Steady) (hw : w.Sound) (hq : w.processors[p]? = some q)
    (hparts : q.registry.transformers = chainOf parts) (file : Nat) (settings : Value)
    (watcher : Option Watcher) :
    AnswersText parts w.runs.length file (Halting host w.runs.length watcher)
      ((processTextFor host p (.handle (.file file)) settings watcher (.callback ⟨none⟩)).result w) := by
  have hstarted := Local.tellStarted watcher (w.files.getD file File.empty)
  have hreading : Local (reading host p file settings) := .reading
  have hnone := (hw.fresh _ (Nat.le_refl _)).1
  rw [result_processTextFor_file, result_bind_ok (result_attempt _ w)]
  generalize hbegun : (tellStarted watcher (w.files.getD file File.empty)).result w = begun
  obtain ⟨o, w₁⟩ := begun
  cases o with
  | error g =>
    rw [result_bind_error hbegun]
    exact giveUp_answers g (((hstarted.aside hbegun).calls_eq _).trans hnone)
  | ok _ =>
    rw [result_bind_ok hbegun]
    generalize hread : (reading host p file settings).result w₁ = read
    obtain ⟨o, w₂⟩ := read
    cases o with
    | error f =>
      exact giveUp_answers f
        ((((hstarted.aside hbegun).trans (hreading.aside hread)).calls_eq _).trans hnone)
    | ok tree =>
      have hlocal := Local.tellStage watcher "parse"
      dsimp only [afterReading]
      generalize hparsed : (tellStage watcher "parse").result w₂ = parsed
      obtain ⟨o, w₃⟩ := parsed
      cases o with
      | error g =>
        rw [result_bind_error hparsed]
        exact .stopped (.inl (.observer (emit_error hparsed)))
      | ok _ =>
        have hsound := hlocal.sound (hreading.sound (hstarted.sound hw hbegun) hread) hparsed
        have hruns := ((hstarted.aside hbegun).trans (hreading.aside hread)).trans (hlocal.aside hparsed)
        obtain ⟨q₁, hq₁, h₁⟩ := (KeepsRegistries.emit _ _).processor_of hbegun hq
        obtain ⟨q₂, hq₂, h₂⟩ := KeepsRegistries.reading.processor_of hread hq₁
        obtain ⟨q₃, hq₃, h₃⟩ := (KeepsRegistries.emit _ _).processor_of hparsed hq₂
        obtain ⟨-, u, -, hparse⟩ := of_result_bind_ok hread
        have htree := (parseFile_ok hparse).2
        have h := run_answers hh hsound hq₃ (by rw [h₃, h₂, h₁, hparts]) htree file settings watcher
        rw [hruns.runs_eq] at h
        rw [result_bind_ok hparsed]
        exact h

/-- A pipeline is stopped, or its stages come to a fault of which nobody can be told. -/
def Silenced (r : Nat) (watcher : Option Watcher) (stages : Outcome Value) (f : Fault) (v : World) : Prop :=
  v.Stopped watcher r f ∨ Muffled stages (.error f, v)

/-- What a pipeline with a callback returns. -/
theorem processOn_answers (hh : host.Steady) (hw : w.Sound) (hq : w.processors[p]? = some q)
    (hparts : q.registry.transformers = chainOf parts) (file : Nat) (settings : Value)
    (watcher : Option Watcher) :
    AnswersText parts w.runs.length file
      (Silenced w.runs.length watcher ((staged host p file settings watcher).result w).1)
      ((processOn host (.handle (.processor p)) (.handle (.file file)) settings (some ⟨none⟩) watcher).result
        w) := by
  have hfor : (processOn host (.handle (.processor p)) (.handle (.file file)) settings (some ⟨none⟩)
      watcher).result w = (processTextFor host p (.handle (.file file)) settings watcher
        (.callback ⟨none⟩)).result w := rfl
  have hanswers := processTextFor_answers hh hw hq hparts file settings watcher
  have hagreed := @processTextFor_agreed host w p file settings watcher hh hw
  dsimp only at hagreed
  rw [hfor]
  generalize (processTextFor host p (.handle (.file file)) settings watcher (.callback ⟨none⟩)).result w =
    told at hanswers hagreed
  cases hanswers with
  | returned hcomes hends hprompt => exact .returned hcomes hends hprompt
  | failed => exact .failed
  | putOff hlast ha hlater => exact .putOff hlast ha hlater
  | stopped hhalting =>
    obtain ⟨-, hstopped | ⟨n, hbetrayed⟩ | hmuffled⟩ := hagreed.raises (.inl rfl)
    · exact .stopped (.inl hstopped)
    · exact .stopped (.inl (hhalting.resolve_right fun hnot => hnot n hbetrayed))
    · exact .stopped (.inr hmuffled)

end Answer

/-- Two chains of the same steps that deliver in other ways have the same course. -/
theorem course_of_parts (w : World) {parts others : List (Part × Manner)}
    (h : others.map Prod.fst = parts.map Prod.fst) (watcher : Option Watcher) (tree : Value) (file : Nat) :
    course (w.nextRun (chainOf others) watcher tree file) (others.map Prod.fst) 0 tree w.core =
      course (w.nextRun (chainOf parts) watcher tree file) (parts.map Prod.fst) 0 tree w.core := by
  have hlength : (chainOf others).length = (chainOf parts).length := by
    have := congrArg List.length h
    simpa [chainOf] using this
  have htell : tellStep (w.nextRun (chainOf others) watcher tree file) =
      tellStep (w.nextRun (chainOf parts) watcher tree file) := by
    funext index name
    rw [tellStep, tellStep]
    show emit watcher (.at_ _ _ _ (chainOf others).length _) =
      emit watcher (.at_ _ _ _ (chainOf parts).length _)
    rw [hlength]
  rw [h]
  have hcourse := course_of_run (x := w.nextRun (chainOf others) watcher tree file)
    (y := w.nextRun (chainOf parts) watcher tree file) rfl htell (parts.map Prod.fst)
  exact congrFun (congrFun (congrFun hcourse 0) tree) w.core

end TextPipeline.Pipeline
