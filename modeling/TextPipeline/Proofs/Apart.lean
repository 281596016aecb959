import TextPipeline.Proofs.Keeping

/-! Attaching plugins leaves all files alone, and nothing is told meanwhile but records and the calls of
attachers; the stages of a pipeline that do not wait tell nobody of progress. So whoever observes a run
hears nothing of either, and no stored tree is lost to a plugin that is attached. -/

namespace TextPipeline.Pipeline

open TextPipeline.Plugin
open TextPipeline.Pipeline.Action

/-- Whether an event can happen while a plugin is attached. -/
def Event.ofPlugin : Event → Bool
  | .log _ | .attached .. => true
  | _ => false

/-- Whether nobody is told of progress by an event. -/
def Event.Mute (e : Event) : Prop := ∀ k p, e ≠ .progress k p

namespace World

/-- Since an earlier world no file has changed, nor what names stand for, nor the loop, and nothing has
happened but to plugins. No shared object was lost. -/
structure Apart (w v : World) : Prop where
  files : v.files = w.files
  names : v.names = w.names
  openLoop : v.openLoop = w.openLoop
  threaded : v.threaded = w.threaded
  count : w.store.cells.length ≤ v.store.cells.length
  events : ∃ es, v.events = w.events ++ es ∧ ∀ e ∈ es, e.ofPlugin = true

/-- Since an earlier world nobody was told of progress. -/
def Mute (w v : World) : Prop := ∃ es, v.events = w.events ++ es ∧ ∀ e ∈ es, e.Mute

theorem Apart.mute {w v : World} (h : w.Apart v) : w.Mute v := by
  obtain ⟨es, he, hes⟩ := h.events
  refine ⟨es, he, fun e hmem k p heq => ?_⟩
  subst heq
  cases hes _ hmem

instance : Temporal Apart where
  refl w := ⟨rfl, rfl, rfl, rfl, Nat.le_refl _, [], (List.append_nil _).symm, by simp⟩
  trans h h' := by
    obtain ⟨es, he, hes⟩ := h.events
    obtain ⟨fs, hf, hfs⟩ := h'.events
    refine ⟨h'.files.trans h.files, h'.names.trans h.names, h'.openLoop.trans h.openLoop,
      h'.threaded.trans h.threaded,
      h.count.trans h'.count, es ++ fs, by rw [hf, he, List.append_assoc], fun e hmem => ?_⟩
    exact (List.mem_append.mp hmem).elim (hes e) (hfs e)

instance : Temporal Mute where
  refl w := ⟨[], (List.append_nil _).symm, by simp⟩
  trans := by
    rintro u v w ⟨es, he, hes⟩ ⟨fs, hf, hfs⟩
    refine ⟨es ++ fs, by rw [hf, he, List.append_assoc], fun e hmem => ?_⟩
    exact (List.mem_append.mp hmem).elim (hes e) (hfs e)

end World

mutual

theorem respects_visit {σ γ : Type} {R : World → World → Prop} [World.Temporal R]
    {act : σ → γ → Action σ} (h : ∀ s a, Respects R (act s a)) (s : σ) :
    (b : Batch γ) → Respects R (b.visit act s)
  | .leaf a => by
    rw [Batch.visit]
    exact h s a
  | .many _ items => by
    rw [Batch.visit]
    exact respects_visitAll h s items

theorem respects_visitAll {σ γ : Type} {R : World → World → Prop} [World.Temporal R]
    {act : σ → γ → Action σ} (h : ∀ s a, Respects R (act s a)) (s : σ) :
    (items : List (Batch γ)) → Respects R (Batch.visitAll act s items)
  | [] => by
    rw [Batch.visitAll]
    exact .of_reads (.pure _)
  | b :: rest => by
    rw [Batch.visitAll]
    exact .bind (respects_visit h s b) fun s => respects_visitAll h s rest

end

theorem Action.Respects.mapM {β γ : Type} {R : World → World → Prop} [World.Temporal R] {f : β → Action γ}
    (hf : ∀ b, Respects R (f b)) (l : List β) : Respects R (l.mapM f) := by
  induction l with
  | nil => exact .of_reads (.pure _)
  | cons b l ih =>
    rw [List.mapM_cons]
    exact .bind (hf b) fun _ => .bind ih fun _ => .of_reads (.pure _)

/-! ### Attaching plugins -/

namespace Store

/-- What is written takes the place of something. -/
theorem length_write (s : Store) (h : Handle) (v : Value) :
    (s.write h v).cells.length = s.cells.length := by
  unfold write
  split
  · exact List.length_set
  · rfl

theorem length_change (f : Value → Value) (v : Value) (s : Store) :
    s.cells.length ≤ ((Store.change f v).run s).2.cells.length := by
  cases v with
  | handle h => exact (s.length_write h _).ge
  | _ => exact Nat.le_refl _

end Store

namespace World.Apart

variable {α : Type}

theorem of_processors {x : Action α} (h : ∀ w, ∃ ps, (x.result w).2 = { w with processors := ps }) :
    Respects Apart x := fun w => by
  obtain ⟨ps, hps⟩ := h w
  rw [hps]
  exact ⟨rfl, rfl, rfl, rfl, Nat.le_refl _, [], (List.append_nil _).symm, by simp⟩

theorem tell {e : Event} (he : e.ofPlugin = true) : Respects Apart (tell e) := fun _ =>
  ⟨rfl, rfl, rfl, rfl, Nat.le_refl _, [e], rfl, by simpa using he⟩

theorem log (level : Level) (logger text : String) : Respects Apart (log level logger text) := tell rfl

theorem withStore {x : StateM Store α} (hx : ∀ s, s.cells.length ≤ (x.run s).2.cells.length) :
    Respects Apart (withStore x) := fun w =>
  ⟨rfl, rfl, rfl, rfl, hx w.store, [], (List.append_nil _).symm, by simp⟩

theorem ofLogged (x : Logged α) : Respects Apart (ofLogged x) := fun w => by
  have hx : x.result = (x.result.1, x.result.2) := rfl
  rw [result_ofLogged hx w]
  exact ⟨rfl, rfl, rfl, rfl, Nat.le_refl _, _, rfl, by simp [Event.ofPlugin]⟩

theorem withCatalog (x : Cataloguing Attacher α) : Respects Apart (withCatalog x) := fun w => by
  have hx : (Action.withCatalog x).result w = (((x.run.run w.catalog).run []).1.1, { w with
      catalog := ((x.run.run w.catalog).run []).1.2,
      events := w.events ++ ((x.run.run w.catalog).run []).2.map .log }) := by
    rw [Action.withCatalog, result_get_bind]
    exact result_ofOutcome _ _
  rw [hx]
  exact ⟨rfl, rfl, rfl, rfl, Nat.le_refl _, _, rfl, by simp [Event.ofPlugin]⟩

theorem setProcessor (id : Nat) (p : Processor) : Respects Apart (setProcessor id p) :=
  of_processors fun _ => ⟨_, rfl⟩

theorem setData (id : Nat) (data : Value) : Respects Apart (setData id data) :=
  .bind (.of_reads (.processor id)) fun _ => .bind (withStore (Store.length_change _ _)) fun _ =>
    setProcessor id _

theorem alter (id : Nat) (a : Alteration) : Respects Apart (alter id a) := by
  cases a with
  | change e =>
    exact .get fun _ => .bind (.of_reads (.processor id)) fun _ => .bind (.of_reads (.content _)) fun _ =>
      .bind (.of_reads (.ofOutcome _)) fun _ => setData id _
  | push key item =>
    refine .bind (.of_reads (.processor id)) fun _ => .bind (.of_reads (.content _)) fun _ =>
      .bind (.of_reads (.argument _)) fun _ => .bind (.of_reads (.ofOutcome _)) fun held =>
      .bind (.of_reads (.content _)) fun _ => .bind (.of_reads (.argument _)) fun _ =>
      .bind (.of_reads (.ofOutcome _)) fun _ => ?_
    split
    · exact withStore fun s => (s.length_write _ _).ge
    · exact setData id _

theorem newProcessor (name parser compiler data : Value) :
    Respects Apart (newProcessor name parser compiler data) := of_processors fun w => by
  rcases newProcessor_cases name parser compiler data w with ⟨f, h⟩ | ⟨p, entries, h, -⟩ <;> rw [h] <;>
    exact ⟨_, rfl⟩

theorem cloneProcessor (id : Nat) : Respects Apart (cloneProcessor id) := of_processors fun w => by
  rcases cloneProcessor_cases id w with ⟨f, h⟩ | ⟨p, q, entries, -, h, -⟩ <;> rw [h] <;>
    exact ⟨_, rfl⟩

theorem make (id : Nat) (g : Gift) : Respects Apart (g.make id) := by
  cases g with
  | value v => exact .of_reads (.bind (.argument v) fun _ => by split <;> exact .pure _)
  | transformer t => exact .of_reads (.pure _)
  | processor name =>
    exact .of_reads (.bind (.namedProcessor name) fun _ => by split <;> exact .pure _)
  | copy changes t =>
    refine .bind (cloneProcessor id) fun copy => .bind (.forM (alter copy) changes) fun _ => ?_
    split <;> exact .of_reads (.pure _)
  | result p t =>
    exact .of_reads (.bind (.resultProcessor p) fun _ => .bind (.resultTransformer t) fun _ => .pure _)

theorem restoreData (id : Nat) (entries : Entries) : Respects Apart (restoreData id entries) := by
  refine .bind (.of_reads (.processor id)) fun _ => .bind (.of_reads (.content _)) fun _ => ?_
  split
  · exact setData id _
  · exact setData id _
  · exact .bind (setData id _) fun _ => .of_reads (.throw _)
  · exact .of_reads (.throw _)

theorem register (id target : Nat) (a : Attachment) (t : Option Transformer) (name : String) :
    Respects Apart (register id target a t name) :=
  .bind (.of_reads (.processor target)) fun _ => .bind (setProcessor target _) fun _ =>
    .bind (log _ _ _) fun _ => .ite (.of_reads (.pure _)) (.bind (log _ _ _) fun _ =>
      .of_reads (.pure _))

section Use

variable {host : Host} (hu : ∀ on plugin options, Respects Apart (host.use on plugin options))
include hu

theorem prepare (id : Nat) (options : Value) (ps : List Preparation) :
    Respects Apart (prepare host id options ps) := by
  induction ps with
  | nil => exact .of_reads (.pure _)
  | cons p rest ih =>
    cases p with
    | announce label => exact .bind (.of_reads (.reveal _)) fun _ => .get fun _ => .bind (tell rfl) fun _ => ih
    | log record => exact .bind (tell rfl) fun _ => ih
    | alter a => exact .bind (alter id a) fun _ => ih
    | use plugin =>
      exact .get fun _ => .bind (.of_reads (.ofOutcome _)) fun _ => .bind (hu _ _ _) fun _ => ih
    | raise f => exact .of_reads (.throw f)
    | give g => exact make id g

theorem attach (id : Nat) (a : Attacher) (options : Value) (name : String) :
    Respects Apart (attach host id a options name) := by
  have attempted (data : Value) : Respects Apart (do
      let returned ← Pipeline.prepare host id options
        (a.program ((← MonadState.get).display options) data)
      Action.ofOutcome (Attached.ofReturned name returned)) :=
    .get fun _ => .bind (prepare hu id options _) fun _ => .of_reads (.ofOutcome _)
  refine .bind (.of_reads (.processor id)) fun _ => .bind (log _ _ _) fun _ =>
    .bind (.of_reads (.reveal _)) fun data => .bind (.of_reads (.ofOutcome _)) fun _ =>
    .bind (.of_reads (.ofOutcome _)) fun _ => .bind (.attempt (attempted data)) fun r => ?_
  cases r with
  | error f =>
    exact .bind (.ite (.of_reads (.pure _)) (.of_reads (.throw _))) fun _ =>
      .bind (restoreData id _) fun _ => .of_reads (.bind (.textOf _) fun _ => .throw _)
  | ok attached =>
    refine .bind (.of_reads (.processor _)) fun _ => .bind (.of_reads (.reveal _)) fun _ => ?_
    split
    · exact .bind (restoreData id _) fun _ => .of_reads (.bind (.textOf _) fun _ => .throw _)
    · exact register _ _ _ _ _

theorem attachNamed (id : Nat) (name : String) (options : Value) :
    Respects Apart (attachNamed host id name options) := by
  have found : Respects Apart (do
      let m ← Action.withCatalog (Catalog.lookup host.standard host.surroundings name)
      let resolved ← Action.ofLogged (m.resolveOptions ((← MonadState.get).display options))
      return (m, keepGiven (← Action.content options) resolved)) :=
    .bind (withCatalog _) fun _ => .get fun _ => .bind (ofLogged _) fun _ =>
      .bind (.of_reads (.content _)) fun _ => .of_reads (.pure _)
  refine .bind (.attempt found) fun r => ?_
  cases r with
  | error f => exact .ite (.of_reads (.bind (.cannotAttach _ _) fun _ => .throw _)) (.of_reads (.throw _))
  | ok r => exact attach hu id _ _ _

theorem attachItem (options : Value) (id : Nat) (item : Item) :
    Respects Apart (attachItem host options id item) := by
  cases item with
  | named name => exact attachNamed hu id name options
  | attacher a => exact attach hu id a options _
  | other v =>
    cases hv : Attacher.ofValue? v with
    | some a =>
      simp only [Pipeline.attachItem, hv]
      exact attach hu id a options _
    | none =>
      simp only [Pipeline.attachItem, hv]
      exact .of_reads (.throw _)

theorem useOn (id : Nat) (plugin : Plugin) (options : Value) :
    Respects Apart (useOn host id plugin options) :=
  respects_visit (attachItem hu options) id plugin

theorem build (factory : Factory) : Respects Apart (build host factory) :=
  .bind (newProcessor _ _ _ _) fun id =>
    Respects.foldlM (fun id (entry : Plugin × Value) => useOn hu id entry.1 entry.2) _ id

theorem processorFor (v : Value) : Respects Apart (processorFor host v) := by
  unfold Pipeline.processorFor
  split
  · exact .of_reads (.pure _)
  · refine .get fun w => ?_
    split
    · exact build hu _
    · exact .of_reads (.throw _)
  · exact .of_reads (.throw _)

end Use

/-- Plugins that attach others leave the files alone at any depth. -/
theorem nested (endpoints : Grammar.Endpoints) (standard : List (Metadata Attacher))
    (surroundings : Surroundings Attacher) (depth : Nat) (on : Value) (plugin : Plugin)
    (options : Value) :
    Respects Apart ((Host.nested endpoints standard surroundings depth).use on plugin options) := by
  induction depth generalizing on plugin options with
  | zero => exact .of_reads (.throw _)
  | succ depth ih => exact .bind (processorFor ih on) fun _ => useOn ih _ plugin options

end World.Apart

/-! ### The stages of a pipeline -/

namespace World.Mute

variable {α : Type} {host : Host}

theorem of_apart {x : Action α} (h : Respects Apart x) : Respects Mute x := h.mono fun _ _ => Apart.mute

theorem of_events {x : Action α} (h : ∀ w, (x.result w).2.events = w.events) : Respects Mute x :=
  fun w => ⟨[], by rw [h w, List.append_nil], by simp⟩

theorem tell {e : Event} (he : e.Mute) : Respects Mute (tell e) := fun _ => ⟨[e], rfl, by simpa using he⟩

theorem lift (o : Outcome α) : Respects Mute (liftM o : Action α) :=
  of_events fun _ => by rw [result_lift]

theorem withStore (x : StateM Store α) : Respects Mute (withStore x) := of_events fun _ => rfl

theorem addFile (f : File) : Respects Mute (addFile f) := of_events fun _ => rfl

theorem shareValues (v : Value) : Respects Mute (shareValues v) := by
  unfold Action.shareValues
  split
  · exact .bind (.of_reads (.content _)) fun _ => .bind (withStore _) fun _ => .bind (withStore _) fun _ =>
      .of_reads (.pure _)
  · exact .of_reads (.pure _)

theorem require (holds : Bool) (f : Fault) : Respects Mute (require holds f) :=
  .ite (.of_reads (.pure _)) (.of_reads (.throw _))

theorem file (id : Nat) : Respects Mute (file id) := of_events fun _ => rfl

theorem setFile (id : Nat) (f : File) : Respects Mute (setFile id f) := of_events fun _ => rfl

theorem toFile (v : Value) : Respects Mute (toFile v) := by
  unfold Action.toFile
  split
  · exact .of_reads (.pure _)
  · refine .bind (.of_reads (.content _)) fun c => ?_
    split
    · refine .bind (.mapM (fun e => ?_) _) fun _ => .bind (lift _) fun _ => addFile _
      exact .ite (.bind (shareValues _) fun _ => .of_reads (.pure _)) (.of_reads (.pure _))
    · exact .bind (lift _) fun _ => addFile _

theorem storeTree (id : Nat) (name : String) (tree : Value) : Respects Mute (storeTree id name tree) :=
  .bind (file id) fun _ => .bind (lift _) fun _ => setFile id _

theorem startTree (id : Nat) (name : String) (tree : Value) : Respects Mute (startTree id name tree) := by
  refine .ite (.bind (file id) fun _ => .bind (lift _) fun _ => .bind (setFile id _) fun _ => ?_)
    (.of_reads (.pure _))
  split
  · exact .ite (.of_reads (.pure _)) (.of_reads (.throw _))
  · exact .of_reads (.throw _)

theorem dataFor (parser : Grammar.Parser) (p : Nat) : Respects Mute (dataFor parser p) := by
  refine .bind (.of_reads (.processor p)) fun _ => .ite ?_ (.of_reads (.reveal _))
  exact .bind (.of_reads (.content _)) fun _ => .bind (withStore _) fun _ =>
    .bind (of_apart (.setData p _)) fun _ => .of_reads (.pure _)

theorem readWith (p : Nat) (parser : Value) (f : File) (settings : Value) :
    Respects Mute (readWith host p parser f settings) := by
  unfold Pipeline.readWith
  split
  · exact .bind (.of_reads (.reveal _)) fun _ => .bind (dataFor _ p) fun _ =>
      .bind (of_apart (.ofLogged _)) fun _ => .of_reads (.pure _)
  · exact .of_reads (.throw _)

theorem writeWith (compiler data tree settings : Value) :
    Respects Mute (writeWith host compiler data tree settings) := by
  unfold Pipeline.writeWith
  split
  · exact .get fun _ => .bind (.of_reads (.reveal _)) fun _ => .bind (.of_reads (.reveal _)) fun _ =>
      .bind (of_apart (.ofLogged _)) fun _ => .of_reads (.pure _)
  · exact .of_reads (.throw _)

theorem requireEndpoints (p : Nat) : Respects Mute (requireEndpoints p) :=
  .bind (.of_reads (.processor p)) fun _ => .bind (require _ _) fun _ => require _ _

theorem parseFile (p id : Nat) (settings : Value) : Respects Mute (parseFile host p id settings) :=
  .bind (.of_reads (.processor p)) fun _ => .bind (require _ _) fun _ => .bind (file id) fun _ =>
    .bind (of_apart (Apart.log _ _ _)) fun _ => .bind (readWith p _ _ _) fun _ => .bind (require _ _) fun _ =>
    .bind (withStore _) fun _ => .bind (storeTree id _ _) fun _ =>
    .bind (tell fun _ _ h => by cases h) fun _ => .of_reads (.pure _)

theorem stringify (p : Nat) (tree given settings : Value) :
    Respects Mute (stringify host p tree given settings) := by
  refine .bind (.of_reads (.processor p)) fun _ => .bind (require _ _) fun _ => .bind (toFile _) fun id =>
    .bind (startTree id _ _) fun _ => .bind (file id) fun _ => .bind (of_apart (Apart.log _ _ _)) fun _ =>
    .bind (writeWith _ _ _ _) fun _ => ?_
  split
  · exact .of_reads (.pure _)
  · exact .of_reads (.throw _)

end World.Mute

end TextPipeline.Pipeline
