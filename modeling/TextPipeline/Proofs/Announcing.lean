import TextPipeline.Proofs.Callback
import TextPipeline.Proofs.Protocol

/-! What the observer of a whole pipeline is told, from a call of it on and through everything that is done
afterwards. Before the run of the pipeline is started and after one that must not wait, nothing is under
way for the observer, so that only the pipeline itself can tell it anything. -/

namespace TextPipeline.Pipeline

open TextPipeline.Transform
open TextPipeline.Pipeline.Action
open World (nobody)

/-- An observer for which nothing is under way. -/
def alone (k : Nat) : Following := ⟨k, fun _ _ => False, fun _ => False⟩

/-- Nothing is under way for an observer, and it has been told these things. -/
structure World.Hushed (w : World) (k : Nat) (ps : List Progress) : Prop where
  shaped : w.Shaped (alone k)
  told : toldTo k w.events = ps

/-- An observer that is told nothing more. -/
def hush (k : Nat) (ps : List Progress) : Tracking where
  toFollowing := alone k
  claim es := toldTo k es = ps
  skips _ _ he h := (Pursuit.toldTo_concat_beside he).trans h

theorem World.hushed_iff {w : World} {k : Nat} {ps : List Progress} :
    w.Tracked (hush k ps) ↔ w.Hushed k ps := ⟨fun h => ⟨h.shaped, h.claim⟩, fun h => ⟨h.shaped, h.told⟩⟩

namespace World.Hushed

variable {w : World} {k : Nat} {ps : List Progress}

theorem kept (h : w.Hushed k ps) {α : Type} {x : Action α} (hx : (hush k ps).Keeps x) :
    (x.result w).2.Hushed k ps := hushed_iff.mp (hx w (hushed_iff.mpr h)).1

/-- What has to do with neither chains nor progress leaves an observer alone. -/
theorem still (h : w.Hushed k ps) {α : Type} {x : Action α} (hx : Local x) (hm : Respects World.Mute x)
    {o : Outcome α} {v : World} (hr : x.result w = (o, v)) : v.Hushed k ps := by
  have hv := h.kept (.of_local hx hm)
  rwa [hr] at hv

/-- The observer is told of progress. -/
theorem noticed {x : Watcher} (h : w.Hushed x.id ps) (p : Progress) :
    World.Hushed { w with events := w.events ++ notice (some x) p } x.id (ps ++ [p]) :=
  ⟨h.shaped.same rfl rfl rfl, by rw [toldTo_append, toldTo_notice, h.told]⟩

end World.Hushed

/-! ### The run of a pipeline -/

section Start

variable (c : Watcher) (hc : Polite (some c)) (label : String) (steps : List Transformer) (tree : Value)
  (file : Nat) (delivery : Delivery) (w : World)

/-- The run that is started next, for an observer. -/
def World.pursuit : Pursuit where
  watcher := c
  polite := hc
  label := label
  run := w.runs.length
  origin := w.nextRun steps (some c) tree file
  watched := rfl
  delivery := delivery

variable {c hc label steps tree file delivery w}

/-- Nothing that was under way before has to do with a run that is started. -/
theorem World.Shaped.starting (h : w.Shaped (alone c.id)) :
    (w.starting steps (some c) tree file).Shaped (w.pursuit c hc label steps tree file delivery).following := by
  have hg : w.Grown (w.starting steps (some c) tree file) := fun r x hx =>
    ⟨x, by rw [World.starting, List.getElem?_append_left (List.getElem?_eq_some_iff.mp hx).1]; exact hx, rfl⟩
  have hadmits {k : Resumption} (hk : w.Admits (alone c.id) k) :
      (w.starting steps (some c) tree file).Admits
        (w.pursuit c hc label steps tree file delivery).following k := by
    obtain ⟨-, ⟨x, hx, hunheard⟩, hdelivery⟩ := hk.resolve_right fun h => h
    have hlt := (List.getElem?_eq_some_iff.mp hx).1
    refine .inl ⟨?_, ?_, hdelivery⟩
    · rintro ⟨-, heq, -⟩
      exact Nat.ne_of_lt hlt heq
    · obtain ⟨y, hy, hyx⟩ := hg _ x hx
      have hwatcher : y.watcher = x.watcher := (congrArg Run.watcher hyx :)
      exact ⟨y, hy, by rwa [hwatcher]⟩
  constructor
  · rintro r x ⟨rfl, rfl⟩
    exact ⟨_, List.getElem?_concat_length, rfl⟩
  · exact fun d hd k hk => hadmits (h.held d hd k hk)
  · exact fun k result hk => hadmits (h.queued k result hk)
  · exact h.posted

/-- A run is started after the file was read: nothing is owed to its observer. -/
theorem World.Hushed.starting (h : w.Hushed c.id ((script label steps).take 2)) :
    (w.pursuit c hc label steps tree file delivery).Has (w.starting steps (some c) tree file)
      ((w.pursuit c hc label steps tree file delivery).Owing 0) := by
  refine ⟨h.shaped.starting, fun _ _ _ => ?_⟩
  show toldTo c.id (w.events ++ _) = _
  rw [toldTo_append, h.told]
  exact List.append_nil _

end Start

/-- After a run that must not wait nothing is under way for its observer. -/
theorem Pursuit.Has.settled {U : Pursuit} {w : World} {Q : List Event → Prop} (h : U.Has w Q)
    (hkept : U.delivery = .kept) : w.Shaped (alone U.watcher.id) := by
  have hadmits {k : Resumption} (hk : w.Admits U.following k) : w.Admits (alone U.watcher.id) k := by
    rcases hk with hk | ⟨-, -, -, hwaits⟩
    · exact .inl ⟨fun ⟨_, h⟩ => h, hk.unheard, hk.undelivered⟩
    · rw [hkept] at hwaits
      cases hwaits
  exact ⟨nofun, fun d hd k hk => hadmits (h.shaped.held d hd k hk),
    fun k result hk => hadmits (h.shaped.queued k result hk), h.shaped.posted⟩

/-- What is said of the events of a run in a sound world is so. -/
theorem Pursuit.Has.holds {U : Pursuit} {w : World} {Q : List Event → Prop} (h : U.Has w Q)
    (hw : w.Sound) : Q w.events := by
  obtain ⟨x, hx, hbare⟩ := h.found
  have hlawful := hw.lawful U.run x hx
  rw [← Run.lawful_bare, hbare, Run.lawful_bare] at hlawful
  exact h.said hlawful

/-- A run that must not wait has a result wherever it halts, which is kept and is the one that was told. -/
theorem Halt.act_kept (host : Host) (halt : Halt) {r : Nat} {x : Run} {w : World} (hx : w.runs[r]? = some x)
    (hnone : x.outcome = none) :
    ∃ error tree v y, (halt.act host r .kept true).result w = (.ok (), v) ∧ v.runs[r]? = some y ∧
      y.outcome = some (error, tree) ∧ (error, tree) ∈ deliveries r v.events := by
  have hkept (u : World) (hu : u.runs = w.runs) (error : Option Fault) (tree : Value) :
      ∃ v y, (deliver host r .kept error tree).result u = (.ok (), v) ∧ v.runs[r]? = some y ∧
        y.outcome = some (error, tree) ∧ (error, tree) ∈ deliveries r v.events := by
    refine ⟨_, x.keep error tree, result_deliver_kept error tree (by rw [hu]; exact hx), ?_, ?_, ?_⟩
    · simp [World.ended, hu, hx]
    · simp [Run.keep, hnone]
    · simp [World.ended]
  cases halt with
  | ended error tree =>
    obtain ⟨v, y, h⟩ := hkept w rfl error tree
    exact ⟨error, tree, v, y, h⟩
  | held index tree name id c =>
    obtain ⟨v, y, h⟩ := hkept { { w with completions := w.completions.set id (c.abandon.getD c) } with
      events := w.events ++ [.log ⟨.debug, Transform.logger, "Transformer '" ++ name ++
        "' did not resolve synchronously; abandoning run"⟩] } rfl (some (notSynchronous name)) tree
    exact ⟨_, tree, v, y, h⟩

/-- A chain that must not wait and that has come to a halt keeps its result there. -/
theorem result_runChain_halt {host : Host} {steps : List Transformer} {watcher : Option Watcher}
    {tree : Value} {file : Nat} {w u : World} {halt : Halt}
    (hs : (stretch host w.runs.length steps 0 tree).result (w.starting steps watcher tree file) =
      (.ok halt, u))
    (hx : u.runs[w.runs.length]? = some (w.nextRun steps watcher tree file)) :
    ∃ error final v, (halt.act host w.runs.length .kept true).result u = (.ok (), v) ∧
      (error, final) ∈ deliveries w.runs.length v.events ∧
      (runChain host steps watcher tree file).result w = (settlement error final, v) := by
  obtain ⟨error, final, v, y, hact, hy, houtcome, hdelivered⟩ := Halt.act_kept host halt hx rfl
  refine ⟨error, final, v, hact, hdelivered, ?_⟩
  have hstart := result_start host steps watcher tree file .kept w
  rw [drive_stretch, result_bind_ok hs] at hstart
  have hstarted : (start host steps watcher tree file .kept).result w = (.ok w.runs.length, v) := by
    rw [hstart]
    dsimp only
    rw [show (halt.act host w.runs.length .kept true).result u = (.ok (), v) from hact]
    rfl
  rw [runChain, result_bind_ok hstarted, result_bind_ok (result_run hy), houtcome]
  cases error <;> rfl

theorem result_runChain_stopped {host : Host} {steps : List Transformer} {watcher : Option Watcher}
    {tree : Value} {file : Nat} {w u : World} {f : Fault}
    (hs : (stretch host w.runs.length steps 0 tree).result (w.starting steps watcher tree file) =
      (.error f, u)) : (runChain host steps watcher tree file).result w = (.error f, u) := by
  have hstart := result_start host steps watcher tree file .kept w
  rw [drive_stretch, result_bind_error hs] at hstart
  rw [runChain]
  exact result_bind_error hstart

theorem Host.nested_endpoints (endpoints : Grammar.Endpoints) (standard : List (Plugin.Metadata Attacher))
    (surroundings : Plugin.Surroundings Attacher) (depth : Nat) :
    (Host.nested endpoints standard surroundings depth).endpoints = endpoints := by
  cases depth <;> rfl

/-- A host through which every run stays tracked whose end is told. -/
structure Host.Observed (endpoints : Grammar.Endpoints) (host : Host) : Prop where
  steady : host.Steady
  endpoints_eq : host.endpoints = endpoints
  alone : ∀ (T : Tracking) k, T.toFollowing = Pipeline.alone k → host.Tracked T
  tracked : ∀ (U : Pursuit) (close : List Event → Prop) (hclose : U.Lasting close), U.Closes endpoints close →
    host.Tracked (U.tracking hclose.paced)

theorem Host.nested_observed (endpoints : Grammar.Endpoints) (standard : List (Plugin.Metadata Attacher))
    (surroundings : Plugin.Surroundings Attacher) (depth : Nat) :
    (Host.nested endpoints standard surroundings depth).Observed endpoints where
  steady := Host.nested_steady endpoints standard surroundings depth
  endpoints_eq := Host.nested_endpoints endpoints standard surroundings depth
  alone T k hT := Tracking.nested T endpoints standard surroundings (fun _ j _ _ _ _ hj => by
    rw [hT] at hj
    exact hj.elim) depth
  tracked U _ hclose hcloses := U.nested hclose endpoints standard surroundings hcloses depth

section Pipeline

variable {endpoints : Grammar.Endpoints} {host : Host} (hhost : host.Observed endpoints)
variable {c : Watcher} (hc : Polite (some c)) {label : String} {w : World} {p file : Nat} {q : Processor}
  {tree : Value}
include hhost hc

/-- A chain that must not wait: all steps are told of one that comes to a tree, and some of any other. -/
theorem World.Hushed.runChain {steps : List Transformer} (h : w.Hushed c.id ((script label steps).take 2))
    (hw : w.Sound) (htree : tree.isNone = false) {o : Outcome Value} {v : World}
    (hr : (Pipeline.runChain host steps (some c) tree file).result w = (o, v)) :
    (∃ i, v.Hushed c.id ((script label steps).take i)) ∧
      ∀ final, o = .ok final → v.Hushed c.id ((script label steps).take (2 + steps.length)) := by
  have hv : v.Sound := by
    have hsafe := Steady.runChain hhost.steady steps (some c) tree file w hw
    rw [Safe, hr] at hsafe
    exact hsafe.1
  let U : Pursuit := w.pursuit c hc label steps tree file .kept
  have hcloses : U.Closes endpoints _ := Pursuit.closes_kept rfl endpoints
  have htracked := hhost.tracked U _ Pursuit.lasting_kept hcloses
  -- the chain goes as far as it comes at once, and its result is kept wherever that is
  obtain ⟨hready, -⟩ := hw.starting steps (some c) tree file
  have hhalted : Halted host w.runs.length (w.nextRun steps (some c) tree file)
      ((stretch host w.runs.length steps 0 tree).result (w.starting steps (some c) tree file)) :=
    stretch_halted hhost.steady hready rfl htree
  have howing : U.Has (w.starting steps (some c) tree file) (U.Owing 0) := h.starting
  have hstands : U.Stands (fun es => ∃ error tree, U.Ended error tree es)
      ((stretch host w.runs.length steps 0 tree).result (w.starting steps (some c) tree file)) :=
    (howing.stretch Pursuit.lasting_kept htracked rfl tree (Nat.zero_le _)).1
  have paced (hpaced : U.Has v (U.Paced fun es => ∃ error tree, U.Ended error tree es)) :
      ∃ i, v.Hushed c.id ((script label steps).take i) := by
    obtain ⟨htold, hended⟩ := hpaced.holds hv
    by_cases hd : deliveries U.run v.events = []
    · exact ⟨_, hpaced.settled rfl, htold hd⟩
    · obtain ⟨error, final, hended⟩ := hended hd
      obtain ⟨i, hi⟩ := hended.told
      exact ⟨i, hpaced.settled rfl, hi⟩
  generalize hS : (stretch host w.runs.length steps 0 tree).result
    (w.starting steps (some c) tree file) = S at hhalted hstands
  obtain ⟨halted, u⟩ := S
  cases halted with
  | error f =>
    obtain ⟨rfl, rfl⟩ := Prod.mk.inj ((result_runChain_stopped hS).symm.trans hr)
    cases hstands with
    | stopped hu => exact ⟨paced hu, fun _ h => by cases h⟩
  | ok halt =>
    have hx : u.runs[w.runs.length]? = some (w.nextRun steps (some c) tree file) := by
      cases hhalted <;> assumption
    obtain ⟨error, final, z, hact, hdelivered, hran⟩ := result_runChain_halt hS hx
    obtain ⟨rfl, rfl⟩ := Prod.mk.inj (hran.symm.trans hr)
    obtain ⟨hz, -⟩ := hstands.act Pursuit.lasting_kept hcloses hhost.endpoints_eq
    rw [show (halt.act host U.run U.delivery U.delivery.isKept).result u = (.ok (), z) from hact] at hz
    refine ⟨paced hz, fun result ho => ?_⟩
    obtain rfl : error = none := by
      cases error with
      | none => rfl
      | some f => cases ho
    obtain ⟨-, hended⟩ := hz.holds hv
    obtain ⟨error, final', hended⟩ := hended (List.ne_nil_of_mem hdelivered)
    have hmem : (none, final) ∈ deliveries U.run z.events := hdelivered
    rw [hended.deliveries_eq] at hmem
    obtain ⟨rfl, -⟩ := Prod.mk.inj (List.mem_singleton.mp hmem)
    exact ⟨hz.settled rfl, hended.whole rfl⟩

/-- The stage of a pipeline in which its steps are run, if it has no receiver. -/
theorem World.Hushed.runTree (h : w.Hushed c.id ((script label q.registry.transformers).take 2))
    (hw : w.Sound) (hq : w.processors[p]? = some q) (htree : tree.isNone = false) {o : Outcome Value}
    {v : World} (hr : (Pipeline.runTree host p tree file (some c)).result w = (o, v)) :
    (∃ i, v.Hushed c.id ((script label q.registry.transformers).take i)) ∧
      ∀ final, o = .ok final → v.Hushed c.id
        ((script label q.registry.transformers).take (2 + q.registry.transformers.length)) := by
  have hfirst := result_startTree htree file q.name w
  rw [Pipeline.runTree, result_bind_ok (result_processor hq), result_bind_ok hfirst] at hr
  generalize hchain : (Pipeline.runChain host q.registry.transformers (some c) tree file).result w = ran at hr
  obtain ⟨ran, u⟩ := ran
  obtain ⟨hpart, hwhole⟩ := h.runChain hhost hc hw htree hchain
  cases ran with
  | error f =>
    rw [result_bind_error hchain] at hr
    obtain ⟨rfl, rfl⟩ := Prod.mk.inj hr
    exact ⟨hpart, fun _ h => by cases h⟩
  | ok final =>
    rw [result_bind_ok hchain] at hr
    have hv := (hwhole final rfl).still
      (.bind (.storeTree _ _ _) fun _ => .bind (.tell rfl) fun _ => .pure _)
      (.bind (.storeTree _ _ _) fun _ => .bind (World.Mute.tell fun _ _ h => by cases h) fun _ =>
        .of_reads (.pure _)) hr
    exact ⟨⟨_, hv⟩, fun _ _ => hv⟩

omit hhost in
/-- The stages of a pipeline after its run, if it has no receiver. -/
theorem World.Hushed.writeFinal {steps : List Transformer}
    (h : w.Hushed c.id ((script label steps).take (2 + steps.length))) (settings final : Value)
    {o : Outcome Value} {v : World}
    (hr : (Pipeline.writeFinal host p file settings (some c) final).result w = (o, v)) :
    (∃ i, v.Hushed c.id ((script label steps).take i)) ∧
      ∀ text, o = .ok text → v.Hushed c.id (script label steps) := by
  obtain ⟨w₁, hrun, h₁⟩ : ∃ w₁, (tellStage (some c) "run").result w = (.ok (), w₁) ∧
      w₁.Hushed c.id ((script label steps).take (2 + steps.length + 1)) := by
    refine ⟨_, result_emit hc (stageDone 2 "run") w, ?_⟩
    rw [← take_concat (script_after 0)]
    exact h.noticed _
  rw [Pipeline.writeFinal, result_bind_ok hrun] at hr
  generalize hwritten : (stringify host p final (.handle (.file file)) settings).result w₁ = written at hr
  obtain ⟨written, w₂⟩ := written
  have h₂ := h₁.still (.stringify host _ _ _ _) (.stringify _ _ _ _) hwritten
  cases written with
  | error f =>
    rw [result_bind_error hwritten] at hr
    obtain ⟨rfl, rfl⟩ := Prod.mk.inj hr
    exact ⟨⟨_, h₂⟩, fun _ h => by cases h⟩
  | ok text =>
    have hstage : (tellStage (some c) "stringify").result w₂ = (.ok (), _) :=
      result_emit hc (stageDone 3 "stringify") w₂
    rw [result_bind_ok hwritten, result_bind_ok hstage] at hr
    obtain ⟨rfl, rfl⟩ := Prod.mk.inj hr
    have h₃ := h₂.noticed (stageDone 3 "stringify")
    rw [take_concat (script_after 1), take_script] at h₃
    refine ⟨⟨2 + steps.length + 2, ?_⟩, fun _ _ => h₃⟩
    rw [take_script]
    exact h₃

/-- The stages of a pipeline without a receiver. -/
theorem World.Hushed.processFile (h : w.Hushed c.id ((script label q.registry.transformers).take 1))
    (hw : w.Sound) (hq : w.processors[p]? = some q) (settings : Value) {o : Outcome Value} {v : World}
    (hr : (Pipeline.processFile host p file settings (some c)).result w = (o, v)) :
    (∃ i, v.Hushed c.id ((script label q.registry.transformers).take i)) ∧
      ∀ text, o = .ok text → v.Hushed c.id (script label q.registry.transformers) := by
  have hlocal : Local (reading host p file settings) := .reading
  rw [processFile_eq] at hr
  generalize hread : (reading host p file settings).result w = read at hr
  obtain ⟨read, w₁⟩ := read
  have h₁ := h.still hlocal .reading hread
  cases read with
  | error f =>
    rw [result_bind_error hread] at hr
    obtain ⟨rfl, rfl⟩ := Prod.mk.inj hr
    exact ⟨⟨_, h₁⟩, fun _ h => by cases h⟩
  | ok tree =>
    obtain ⟨q₁, hq₁, hsame⟩ := KeepsRegistries.reading.processor_of hread hq
    obtain ⟨-, u, -, hparse⟩ := of_result_bind_ok hread
    have htree := (parseFile_ok hparse).2
    obtain ⟨w₂, htold, h₂, hs₂, hq₂⟩ : ∃ w₂, (tellStage (some c) "parse").result w₁ = (.ok (), w₂) ∧
        w₂.Hushed c.id ((script label q₁.registry.transformers).take 2) ∧ w₂.Sound ∧
          w₂.processors[p]? = some q₁ := by
      have hemit := result_emit hc (stageDone 1 "parse") w₁
      refine ⟨_, hemit, ?_, (Local.tellStage (some c) "parse").sound (hlocal.sound hw hread) hemit, hq₁⟩
      rw [hsame]
      exact h₁.noticed (stageDone 1 "parse")
    rw [result_bind_ok hread, result_bind_ok htold] at hr
    rw [← hsame]
    generalize hran : (Pipeline.runTree host p tree file (some c)).result w₂ = ran at hr
    obtain ⟨ran, w₃⟩ := ran
    obtain ⟨hpart, hwhole⟩ := h₂.runTree hhost hc hs₂ hq₂ htree hran
    cases ran with
    | error f =>
      rw [result_bind_error hran] at hr
      obtain ⟨rfl, rfl⟩ := Prod.mk.inj hr
      exact ⟨hpart, fun _ h => by cases h⟩
    | ok final =>
      rw [result_bind_ok hran] at hr
      exact (hwhole final rfl).writeFinal hc settings final hr

/-- A pipeline without a receiver: the whole script is told of one that returns a text, and a failure of one
that raises an error, unless it raises what came of reading the text of an error. -/
theorem World.Hushed.processText (h : w.Hushed c.id []) (hw : w.Sound) (hq : w.processors[p]? = some q)
    (settings : Value) {o : Outcome Value} {v : World}
    (hr : (Pipeline.processText host p (.handle (.file file)) settings (some c)).result w = (o, v)) :
    ∃ ps, v.Hushed c.id ps ∧
      Follows (w.files.getD file File.empty).label q.registry.transformers ps ∧
      (∀ text, o = .ok text →
        Concluded (w.files.getD file File.empty).label q.registry.transformers none ps) ∧
      ∀ f, o = .error f → f.isError = true →
        Concluded (w.files.getD file File.empty).label q.registry.transformers (some f) ps ∨
        ∃ g i, ((staged host p file settings (some c)).result w).1 = .error g ∧
          v.textOf (.error g) = .error f ∧
          ps = (script (w.files.getD file File.empty).label q.registry.transformers).take i := by
  obtain ⟨label, hlabel⟩ : ∃ label, label = (w.files.getD file File.empty).label := ⟨_, rfl⟩
  obtain ⟨w₁, htold, h₁, hs₁, hq₁⟩ :
      ∃ w₁, (tellStarted (some c) (w.files.getD file File.empty)).result w = (.ok (), w₁) ∧
        w₁.Hushed c.id ((script label q.registry.transformers).take 1) ∧ w₁.Sound ∧
          w₁.processors[p]? = some q := by
    have hemit := result_emit hc (begun (w.files.getD file File.empty).label) w
    refine ⟨_, hemit, ?_, (Local.tellStarted _ _).sound hw hemit, hq⟩
    rw [hlabel]
    exact h.noticed _
  rw [result_processText_file, result_bind_ok htold, result_bind_ok (result_attempt _ w₁)] at hr
  rw [← hlabel, result_staged, result_bind_ok htold]
  generalize hran : (Pipeline.processFile host p file settings (some c)).result w₁ = ran at hr
  obtain ⟨ran, w₂⟩ := ran
  obtain ⟨⟨i, hpart⟩, hwhole⟩ := h₁.processFile hhost hc hs₁ hq₁ settings hran
  cases ran with
  | ok text =>
    obtain ⟨g, hg⟩ : ∃ g, g = { w₂.files.getD file File.empty with contents := text } := ⟨_, rfl⟩
    have hset := (hwhole text rfl).still (.setFile file g) (.setFile file g) rfl
    have hcomplete : (complete (some c) file text).result w₂ =
        (emit (some c) (finished g.label)).result ((setFile file g).result w₂).2 := by
      rw [hg]
      rfl
    rw [result_emit hc] at hcomplete
    rw [conclusion, result_bind_ok hcomplete] at hr
    obtain ⟨rfl, rfl⟩ := Prod.mk.inj hr
    have hconcluded : Concluded label q.registry.transformers none
        (script label q.registry.transformers ++ [finished g.label]) := ⟨g.label, rfl⟩
    exact ⟨_, hset.noticed _, hconcluded.follows, fun _ _ => hconcluded, fun _ h => by cases h⟩
  | error f =>
    rw [conclusion] at hr
    cases hf : f.isError with
    | true =>
      rw [hf, if_pos rfl] at hr
      cases hsaid : w₂.textOf (.error f) with
      | error g =>
        rw [result_bind_error (result_tellFailed_error (some c) hsaid)] at hr
        obtain ⟨rfl, rfl⟩ := Prod.mk.inj hr
        refine ⟨_, hpart, follows_take i, fun _ h => (by cases h), ?_⟩
        rintro _ ⟨⟩ -
        exact .inr ⟨f, i, rfl, hsaid, rfl⟩
      | ok said =>
        rw [result_bind_ok ((result_tellFailed_ok (some c) hsaid).trans (result_emit hc _ w₂))] at hr
        obtain ⟨rfl, rfl⟩ := Prod.mk.inj hr
        have hconcluded : Concluded label q.registry.transformers (some f)
            ((script label q.registry.transformers).take i ++ [aborted said]) := ⟨i, said, ⟨w₂, hsaid⟩, rfl⟩
        refine ⟨_, hpart.noticed (aborted said), hconcluded.follows, fun _ h => (by cases h), ?_⟩
        rintro _ ⟨⟩ -
        exact .inl hconcluded
    | false =>
      rw [hf, if_neg (by simp)] at hr
      obtain ⟨rfl, rfl⟩ := Prod.mk.inj hr
      refine ⟨_, hpart, follows_take i, fun _ h => (by cases h), ?_⟩
      rintro _ ⟨⟩ herror
      rw [hf] at herror
      cases herror

end Pipeline

/-! ### A pipeline with a receiver -/

/-- How it stands with the observer of a pipeline that has a receiver: its run is under way or has ended,
everything has been told before a run was started, or something has stopped the pipeline before that. -/
inductive World.Attended (endpoints : Grammar.Endpoints) (c : Watcher) (label : String)
    (steps : List Transformer) (job : Compilation) (r : Nat) (stopped : Prop) (v : World) : Prop
  | run {U : Pursuit} : U.watcher = c → U.label = label → U.origin.steps = steps → U.run = r →
    U.Closes endpoints (U.Closed endpoints job) → U.Has v (U.Paced (U.Closed endpoints job)) →
    v.Attended endpoints c label steps job r stopped
  | concluded : v.Shaped (alone c.id) → Answered c.id label steps job.receiver v.events →
    v.Attended endpoints c label steps job r stopped
  | stopped {ps : List Progress} : stopped → v.Hushed c.id ps → Follows label steps ps →
    v.Attended endpoints c label steps job r stopped

section Receiver

variable {endpoints : Grammar.Endpoints} {host : Host} (hhost : host.Observed endpoints)
variable {c : Watcher} {label : String} {steps : List Transformer} {job : Compilation} {r : Nat}
  {stopped : Prop}

section Later

include hhost

/-- An observer of whom nothing is said anywhere is told nothing more. -/
theorem World.Hushed.play {w : World} {k : Nat} {ps : List Progress} (h : w.Hushed k ps) {moves : List Move}
    (hmoves : ∀ m ∈ moves, ¬m.Informs k) : (Pipeline.play host moves w).Hushed k ps :=
  hushed_iff.mp (Tracking.play (hhost.alone (hush k ps) k rfl) (fun _ _ _ hk => hk.elim) hmoves
    (hushed_iff.mpr h))

/-- Whatever is done later of which the observer is not told, it stays attended. -/
theorem World.Attended.play {v : World} (h : v.Attended endpoints c label steps job r stopped)
    {moves : List Move} (hmoves : ∀ m ∈ moves, ¬m.Informs c.id) :
    (Pipeline.play host moves v).Attended endpoints c label steps job r stopped := by
  cases h with
  | @run U hc hlabel hsteps hr hcloses hv =>
    have hlasting := Pursuit.lasting_closed (U := U) endpoints job
    have hh := hhost.tracked U _ hlasting hcloses
    have hsilent : ∀ m ∈ moves, ¬m.Informs U.watcher.id := by rwa [← hc] at hmoves
    have hplayed := Tracking.play hh
      (fun k result w hk => Pursuit.At.resume hlasting hcloses hhost.endpoints_eq hh hk result w)
      hsilent (Pursuit.tracked_iff.mpr hv)
    exact .run hc hlabel hsteps hr hcloses (Pursuit.tracked_iff.mp hplayed)
  | concluded hshaped hanswered =>
    let T : Tracking := ⟨alone c.id, Answered c.id label steps job.receiver, fun _ _ he h => h.skip he⟩
    have hplayed : (Pipeline.play host moves v).Tracked T :=
      Tracking.play (hhost.alone T c.id rfl) (fun _ _ _ hk => hk.elim) hmoves ⟨hshaped, hanswered⟩
    exact .concluded hplayed.shaped hplayed.claim
  | stopped hs hv hps => exact .stopped hs (hv.play hhost hmoves) hps

end Later

/-- What an attended observer has been told follows the script, and everything has been told when the run
has ended, unless something has stopped the pipeline or nobody can be told of what it came to. -/
theorem World.Attended.told {v : World} (h : v.Attended endpoints c label steps job r stopped)
    (hv : v.Sound) :
    Follows label steps (toldTo c.id v.events) ∧
      (Answered c.id label steps job.receiver v.events ∨ stopped ∨ Pursuit.Balked endpoints job r v.events ∨
        deliveries r v.events = [] ∧ ∃ i, toldTo c.id v.events = (script label steps).take i) := by
  have answered (ha : Answered c.id label steps job.receiver v.events) :
      Follows label steps (toldTo c.id v.events) :=
    have ⟨_, hconcluded⟩ := ha.told
    hconcluded.follows
  cases h with
  | @run U hc hlabel hsteps hr _ h =>
    subst hc hlabel hsteps hr
    obtain ⟨hopen, hclosed⟩ := h.holds hv
    by_cases hd : deliveries U.run v.events = []
    · rw [hopen hd]
      exact ⟨follows_take _, .inr (.inr (.inr ⟨hd, _, rfl⟩))⟩
    · rcases hclosed hd with ha | ⟨hbalked, i, hi⟩
      · exact ⟨answered ha, .inl ha⟩
      · rw [hi]
        exact ⟨follows_take i, .inr (.inr (.inl hbalked))⟩
  | concluded _ ha => exact ⟨answered ha, .inl ha⟩
  | stopped hs hv hps =>
    rw [hv.told]
    exact ⟨hps, .inr (.inl hs)⟩

variable (hc : Polite (some c)) {w : World} {p file : Nat} {q : Processor}
include hhost hc

/-- The run of a pipeline with a receiver. -/
theorem World.Hushed.runTreeFor (hcalm : job.receiver.Calm) (hwatcher : job.watcher = some c)
    (h : w.Hushed c.id ((script label q.registry.transformers).take 2)) (hq : w.processors[p]? = some q)
    {tree : Value} (htree : tree.isNone = false) :
    ((Pipeline.runTreeFor host p tree file (some c) (.compilation job) >>= answer).result w).2.Attended
      endpoints c label q.registry.transformers job w.runs.length stopped := by
  have hfirst := result_startTree htree file q.name w
  let U : Pursuit := w.pursuit c hc label q.registry.transformers tree file (.stored q.name (.compilation job))
  have hcloses : U.Closes endpoints (U.Closed endpoints job) :=
    U.closes_compilation hcalm q.named hwatcher rfl rfl endpoints
  have hlasting := Pursuit.lasting_closed (U := U) endpoints job
  have howing : U.Has (w.starting q.registry.transformers (some c) tree file) (U.Owing 0) := h.starting
  have hv : U.Has ((drive host w.runs.length (.stored q.name (.compilation job)) false
      q.registry.transformers 0 tree).result (w.starting q.registry.transformers (some c) tree file)).2
      (U.Paced (U.Closed endpoints job)) :=
    (howing.drive hlasting hcloses hhost.endpoints_eq (hhost.tracked U _ hlasting hcloses)
      (Nat.zero_le _) tree).1
  have hstart := result_start host q.registry.transformers (some c) tree file
    (.stored q.name (.compilation job)) w
  dsimp only at hstart
  generalize (drive host w.runs.length (.stored q.name (.compilation job)) false q.registry.transformers 0
    tree).result (w.starting q.registry.transformers (some c) tree file) = driven at hv hstart
  obtain ⟨o, v⟩ := driven
  have hworld :
      ((Pipeline.runTreeFor host p tree file (some c) (.compilation job) >>= answer).result w).2 = v := by
    rw [Pipeline.runTreeFor, bind_assoc, result_bind_ok (result_processor hq), bind_assoc,
      result_bind_ok (result_attempt _ w), hfirst]
    cases o with
    | error f => rw [bind_assoc, result_bind_error hstart]
    | ok _ =>
      obtain ⟨x, hx, -⟩ := hv.found
      have hrun : (run w.runs.length).result v = (.ok x, v) := result_run hx
      rw [bind_assoc, result_bind_ok hstart, pure_bind]
      show ((answer (some w.runs.length)).result v).2 = v
      rw [answer, result_bind_ok hrun]
      rfl
  rw [hworld]
  exact .run rfl rfl rfl rfl hcloses hv

omit hhost in
/-- A pipeline with a receiver fails before a run is started. -/
theorem World.Hushed.giveUp {i : Nat} (h : w.Hushed c.id ((script label steps).take i))
    (hcalm : job.receiver.Calm) {f : Fault} {o : Outcome Value} {v : World}
    (hr : (Pipeline.giveUp (some c) job.receiver file f).result w = (o, v))
    (hstopped : ∀ g, o = .error g → g.isError = false ∨ v.Unsaid f g → stopped) :
    v.Attended endpoints c label steps job r stopped := by
  rw [Pipeline.giveUp] at hr
  cases hf : f.isError with
  | false =>
    rw [hf, result_bind_error (result_require_false f w)] at hr
    obtain ⟨rfl, rfl⟩ := Prod.mk.inj hr
    exact .stopped (hstopped f rfl (.inl hf)) h (follows_take i)
  | true =>
    have hlogged (record : LogRecord) : (w.told (.log record)).Hushed c.id ((script label steps).take i) :=
      h.still (.log record.level record.logger record.text) (.of_apart (World.Apart.log _ _ _)) rfl
    rw [hf, result_bind_ok (result_require_true f w)] at hr
    rcases result_fail hc f file w with ⟨g, u, hunsaid, hu, hfail⟩ | ⟨described, said, hsaid, hfail⟩
    · rw [result_bind_error (hfail _)] at hr
      obtain ⟨rfl, rfl⟩ := Prod.mk.inj hr
      have hcore : u.core = w.core := by
        rcases hu with rfl | ⟨record, rfl⟩ <;> rfl
      have hhushed : u.Hushed c.id ((script label steps).take i) := by
        rcases hu with rfl | ⟨record, rfl⟩
        · exact h
        · exact hlogged record
      exact .stopped (hstopped g rfl (.inr (hunsaid.of_core hcore))) hhushed (follows_take i)
    · have hreplied := (hfail job.receiver).trans (result_tellProcessed_calm hcalm ..)
      rw [result_bind_ok hreplied] at hr
      obtain ⟨-, rfl⟩ := Prod.mk.inj hr
      have haborted : (w.failed (some c) file described said).Hushed c.id
          ((script label steps).take i ++ [aborted said]) := (hlogged _).noticed (aborted said)
      refine .concluded (haborted.shaped.replying ..).1 (World.answered_replying ?_ job.receiver .none file)
      rw [haborted.told]
      exact ⟨i, said, ⟨w, hsaid⟩, rfl⟩

/-- A pipeline with a receiver. -/
theorem World.Hushed.processTextFor (h : w.Hushed c.id []) (hq : w.processors[p]? = some q)
    (settings : Value) {receiver : TextReceiver} (hcalm : receiver.Calm) {o : Outcome Value} {v : World}
    (hr : (Pipeline.processTextFor host p (.handle (.file file)) settings (some c) receiver).result w = (o, v)) :
    v.Attended endpoints c (w.files.getD file File.empty).label q.registry.transformers
      ⟨p, file, settings, some c, receiver⟩ w.runs.length ((∃ f, o = .error f ∧ f.isError = false) ∨
        Muffled ((staged host p file settings (some c)).result w).1 (o, v)) := by
  obtain ⟨label, hlabel⟩ : ∃ label, label = (w.files.getD file File.empty).label := ⟨_, rfl⟩
  obtain ⟨w₁, htold, h₁, hruns₁, hq₁⟩ :
      ∃ w₁, (tellStarted (some c) (w.files.getD file File.empty)).result w = (.ok (), w₁) ∧
        w₁.Hushed c.id ((script label q.registry.transformers).take 1) ∧ w₁.runs = w.runs ∧
          w₁.processors[p]? = some q := by
    refine ⟨_, result_emit hc (begun (w.files.getD file File.empty).label) w, ?_, rfl, hq⟩
    rw [hlabel]
    exact h.noticed _
  rw [result_processTextFor_file, result_bind_ok (result_attempt _ w), result_bind_ok htold] at hr
  rw [← hlabel, result_staged, result_bind_ok htold, processFile_eq]
  generalize hread : (reading host p file settings).result w₁ = read at hr
  obtain ⟨read, w₂⟩ := read
  have hlocal : Local (reading host p file settings) := .reading
  have h₂ := h₁.still hlocal .reading hread
  cases read with
  | error f =>
    let job : Compilation := ⟨p, file, settings, some c, receiver⟩
    have hcalm' : job.receiver.Calm := hcalm
    rw [result_bind_error hread]
    exact h₂.giveUp hc hcalm' hr fun g ho hg => hg.imp (fun herror => ⟨g, ho, herror⟩) fun hunsaid =>
      ⟨f, g, rfl, ho, hunsaid⟩
  | ok tree =>
    obtain ⟨q₂, hq₂, hsame⟩ := KeepsRegistries.reading.processor_of hread hq₁
    obtain ⟨-, u, -, hparse⟩ := of_result_bind_ok hread
    obtain ⟨w₃, hparsed, h₃, hruns₃, hq₃⟩ : ∃ w₃, (tellStage (some c) "parse").result w₂ = (.ok (), w₃) ∧
        w₃.Hushed c.id ((script label q₂.registry.transformers).take 2) ∧ w₃.runs = w₂.runs ∧
          w₃.processors[p]? = some q₂ := by
      refine ⟨_, result_emit hc (stageDone 1 "parse") w₂, ?_, rfl, hq₂⟩
      rw [hsame]
      exact h₂.noticed (stageDone 1 "parse")
    have hrest : (Pipeline.runTreeFor host p tree file (some c)
        (.compilation ⟨p, file, settings, some c, receiver⟩) >>= answer).result w₃ = (o, v) :=
      (result_bind_ok hparsed).symm.trans hr
    obtain ⟨job, hjob⟩ : ∃ job : Compilation, job = ⟨p, file, settings, some c, receiver⟩ := ⟨_, rfl⟩
    have hattended (stopped : Prop) : ((Pipeline.runTreeFor host p tree file (some c) (.compilation job) >>=
        answer).result w₃).2.Attended endpoints c label q₂.registry.transformers job w₃.runs.length stopped :=
      h₃.runTreeFor hhost hc (hjob ▸ hcalm) (hjob ▸ rfl) hq₃ (parseFile_ok hparse).2
    rw [hjob, hrest, hsame, hruns₃, (hlocal.aside hread).runs_eq, hruns₁] at hattended
    exact hattended _

end Receiver

/-- Who is told of the result of a pipeline, with the settings of the pipeline, if anyone is. -/
def addressee (settings : Value) (callback : Option Callback) : Option (TextReceiver × Value) :=
  match callback with
  | some k => some (.callback k, settings)
  | none => if settings.isCallable then some (.silent ⟨misuse settings⟩, .none) else none

theorem processOn_addressee (host : Host) (p : Nat) (value settings : Value) (callback : Option Callback)
    (watcher : Option Watcher) :
    processOn host (.handle (.processor p)) value settings callback watcher =
      match addressee settings callback with
      | some (receiver, given) => processTextFor host p value given watcher receiver
      | none => processText host p value settings watcher := by
  cases callback with
  | some k => rfl
  | none =>
    unfold addressee
    cases h : settings.isCallable with
    | true =>
      show (if settings.isCallable then _ else _) = _
      rw [h]
      rfl
    | false =>
      show (if settings.isCallable then _ else _) = _
      rw [h]
      rfl

/-- An addressee that does not fail. -/
theorem addressee_calm {settings given : Value} {callback : Option Callback} {receiver : TextReceiver}
    (h : addressee settings callback = some (receiver, given)) (hcalm : receiver.Calm) :
    receiver = .callback ⟨none⟩ ∨ receiver = .silent ⟨none⟩ := by
  cases callback with
  | some k =>
    obtain ⟨rfl, -⟩ := Prod.mk.inj (Option.some.inj h)
    obtain ⟨fault⟩ := k
    obtain rfl : fault = none := hcalm
    exact .inl rfl
  | none =>
    unfold addressee at h
    dsimp only at h
    split at h
    · obtain ⟨rfl, -⟩ := Prod.mk.inj (Option.some.inj h)
      have hnone : misuse settings = none := hcalm
      rw [hnone]
      exact .inr rfl
    · cases h

/-- A pipeline with a receiver that returns a text has finished, and one that raises a fault was stopped,
was betrayed by a step, or came to a fault of which nobody can be told. -/
theorem World.Hushed.processTextFor_returns {endpoints : Grammar.Endpoints} {host : Host}
    (hhost : host.Observed endpoints) {c : Watcher} (hc : Polite (some c)) {w : World} {p file : Nat}
    {q : Processor} (h : w.Hushed c.id []) (hw : w.Sound) (hq : w.processors[p]? = some q) (settings : Value)
    {receiver : TextReceiver} (hreceiver : receiver = .callback ⟨none⟩ ∨ receiver = .silent ⟨none⟩)
    {o : Outcome Value} {v : World}
    (hr : (Pipeline.processTextFor host p (.handle (.file file)) settings (some c) receiver).result w = (o, v)) :
    (∀ text, o = .ok (.str text) → Concluded (w.files.getD file File.empty).label q.registry.transformers none
      (toldTo c.id v.events)) ∧
      ∀ f, o = .error f → v.Stopped (some c) w.runs.length f ∨ (∃ n, v.Betrayed host w.runs.length n f) ∨
        Muffled ((staged host p file settings (some c)).result w).1 (o, v) := by
  have hagreed := @processTextFor_agreed host w p file settings (some c) hhost.steady hw
  dsimp only at hagreed
  generalize hplain : (Pipeline.processText host p (.handle (.file file)) settings (some c)).result w = plain
    at hagreed
  have hwritten {text : Value} {z : World} (hz : plain = (.ok text, z)) :
      Concluded (w.files.getD file File.empty).label q.registry.transformers none (toldTo c.id z.events) := by
    obtain ⟨ps, htold, -, hwhole, -⟩ := h.processText hhost hc hw hq settings (hplain.trans hz)
    rw [htold.told]
    exact hwhole text rfl
  rcases hreceiver with rfl | rfl
  · rw [hr] at hagreed
    generalize (Pipeline.processTextFor host p (.handle (.file file)) settings (some c)
      (.silent ⟨none⟩)).result w = unheard at hagreed
    refine ⟨fun text hok => ?_, fun f hf => (hagreed.raises (.inl hf)).2⟩
    cases hagreed with
    | written _ he =>
      have htold := hwritten rfl
      rw [← he] at htold
      rw [World.toldProcessed, World.events_told, toldTo_append]
      simpa [toldTo] using htold
    | failed | muffled | stopped | held => cases hok
  · rw [hr] at hagreed
    generalize (Pipeline.processTextFor host p (.handle (.file file)) settings (some c)
      (.callback ⟨none⟩)).result w = told at hagreed
    refine ⟨fun text hok => ?_, fun f hf => ?_⟩
    · cases hagreed with
      | written _ he =>
        rw [he]
        exact hwritten rfl
      | failed | muffled | stopped | held => cases hok
    · obtain ⟨rfl, hstops⟩ := hagreed.raises (.inr hf)
      exact hstops

end TextPipeline.Pipeline
