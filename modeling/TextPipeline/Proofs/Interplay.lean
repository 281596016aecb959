import Mathlib.Logic.Function.Basic
import TextPipeline.Proofs.Resting

/-! Runs of one processor that go on side by side: in every turn one of them is started, or one of its
steps is passed a result, or a plugin is attached to the processor. Each run is followed by the same run
in a world of its own, in which only its own turns are taken, and stands there where it stands among the
others: what belongs to a run is changed in no turn but its own. -/

namespace TextPipeline.Pipeline

open TextPipeline.Plugin TextPipeline.Transform
open TextPipeline.Pipeline.Action

/-! ### Turns -/

/-- A run that is asked for: its file and its tree, and whether the tree is given or is the one that is
stored in the file, who is told of the result, and who observes it. -/
structure Ask where
  file : Nat
  tree : Nat
  given : Bool
  callback : Callback
  watcher : Option Watcher

/-- The call with which the run is started. -/
def Ask.move (a : Ask) (p : Nat) : Move :=
  .run (.handle (.processor p)) (if a.given then .handle (.node a.tree) else .none) (.handle (.file a.file))
    (some a.callback) a.watcher

/-- A tree that is passed on: some value, or the one that a step of the run was given. -/
inductive Handed where
  | value (v : Value)
  | ofStep (index : Nat)

/-- What is done from outside while runs go on. -/
inductive Turn (ι : Type) where
  /-- A run is started. -/
  | run (i : ι)
  /-- A result is passed on to one of the steps of a run, by the number of its call. -/
  | next (i : ι) (index : Nat) (error : Value) (tree : Handed)
  /-- A plugin is attached to the processor. -/
  | use (plugin : Plugin) (options : Value)

/-- The run whose turn it is. -/
def Turn.owner? {ι : Type} : Turn ι → Option ι
  | .run i | .next i .. => some i
  | .use .. => none

/-- A result that refers to nothing but trees of its run. -/
def Turn.Proper {ι : Type} : Turn ι → Prop
  | .next _ _ error tree => error.Closed ∧ ∀ v, tree = .value v → v.Closed
  | _ => True

/-- The call of a step of which an event tells. -/
def Event.invocation? : Event → Option Invocation
  | .called _ a => some a
  | _ => none

/-- The calls of steps of which is told, in order. -/
def invocations (es : List Event) : List Invocation := es.filterMap Event.invocation?

def Handed.value? (calls : List Invocation) : Handed → Option Value
  | .value v => some v
  | .ofStep index => (calls[index]?).map (·.tree)

/-- Passing on a result to a step that was called. -/
def passOn? (calls : List Invocation) (index : Nat) (error : Value) (tree : Handed) : Option Move :=
  match calls[index]?, tree.value? calls with
  | some a, some v => some (.next a.completion error v)
  | _, _ => none

/-- A world, and for every run that was started what was told in its turns. -/
structure Interplay (ι : Type) where
  world : World
  told : ι → Option (List Event)

namespace Interplay

variable {ι : Type} [DecidableEq ι]

/-- No run was started. -/
def start (w : World) : Interplay ι := ⟨w, fun _ => none⟩

/-- The world in which nothing of this has happened but that the processors are as they are now. -/
def afresh (s : Interplay ι) (w : World) : Interplay ι := .start { w with processors := s.world.processors }

/-- A move is made in the turn of a run. -/
def own (host : Host) (s : Interplay ι) (i : ι) (m : Move) : Interplay ι :=
  let v := ((m.act host).result s.world).2
  ⟨v, Function.update s.told i (some ((s.told i).getD [] ++ v.events.drop s.world.events.length))⟩

/-- A turn is taken. A run is started once, and a result can be passed on only to a step that was
called. -/
def turn (host : Host) (asks : ι → Ask) (p : Nat) (s : Interplay ι) : Turn ι → Interplay ι
  | .run i =>
    match s.told i with
    | none => s.own host i ((asks i).move p)
    | some _ => s
  | .next i index error tree =>
    match (s.told i).bind fun es => passOn? (invocations es) index error tree with
    | some m => s.own host i m
    | none => s
  | .use plugin options =>
    ⟨(((Move.use (.handle (.processor p)) plugin options).act host).result s.world).2, s.told⟩

/-- Turns are taken one after another. -/
def turns (host : Host) (asks : ι → Ask) (p : Nat) (s : Interplay ι) (ts : List (Turn ι)) : Interplay ι :=
  ts.foldl (turn host asks p) s

/-- Whenever a run is started, the transformers that are registered then touch nothing but their own tree
and file. -/
def Tame (host : Host) (asks : ι → Ask) (p : Nat) : Interplay ι → List (Turn ι) → Prop
  | _, [] => True
  | s, t :: ts =>
    (∀ i q, t = .run i → s.world.processors[p]? = some q → ∀ t ∈ q.registry.transformers, t.Own) ∧
      (s.turn host asks p t).Tame host asks p ts

end Interplay

/-! ### What a plugin leaves alone -/

/-- A host with pipelines to some depth. -/
def Host.IsNested (host : Host) : Prop :=
  ∃ endpoints standard surroundings depth, host = .nested endpoints standard surroundings depth

/-- A plugin that is attached changes no file and no chain, and where the data of processors are mappings
it changes no tree. -/
theorem use_leaves {host : Host} (hhost : host.IsNested) (on : Value) (plugin : Plugin) (options : Value)
    (w : World) :
    let u := (((Move.use on plugin options).act host).result w).2
    w.Equips u ∧ w.Apart u ∧ u.completions = w.completions ∧ u.runs = w.runs := by
  intro u
  obtain ⟨endpoints, standard, surroundings, depth, rfl⟩ := hhost
  have hlocal : Local ((Move.use on plugin options).act (.nested endpoints standard surroundings depth)) :=
    .bind (.processorFor (Host.nested_steady _ _ _ _).use on) fun _ =>
      .bind (.useOn (Host.nested_steady _ _ _ _).use _ _ _) fun _ => .pure _
  have hapart : Respects World.Apart
      ((Move.use on plugin options).act (.nested endpoints standard surroundings depth)) :=
    .bind (World.Apart.processorFor (World.Apart.nested _ _ _ _) on) fun _ =>
      .bind (World.Apart.useOn (World.Apart.nested _ _ _ _) _ _ _) fun _ => .of_reads (.pure _)
  have hequips : Respects World.Equips
      ((Move.use on plugin options).act (.nested endpoints standard surroundings depth)) :=
    .bind (World.Enduring.processorFor (World.Enduring.nested _ _ _ _) on) fun _ =>
      .bind (World.Enduring.useOn (World.Enduring.nested _ _ _ _) _ _ _) fun _ => .of_reads (.pure _)
  refine ⟨hequips w, hapart w, ?_, ?_⟩
  · rw [show u = _ from congrArg Prod.snd (hlocal.result w)]
    rfl
  · rw [show u = _ from congrArg Prod.snd (hlocal.result w)]
    rfl

/-! ### Runs that rest while something else is done -/

namespace World.Rests

variable {w v u : World} {c : Couple} {b : Bond}

/-- But for a pending step a chain that rests is the same in both worlds. -/
theorem twins (h : w.Rests v c b) : ∃ d : Bond, d.trees = b.trees ∧ w.Twins v c false d := by
  cases h with
  | idle h => exact ⟨b, rfl, h⟩
  | @held b i j h => exact ⟨b, rfl, h.twins.idle⟩

theorem tree (h : w.Rests v c b) {n m : Nat} (hn : b.trees n m) : ∃ t : Node, (Value.node t).Closed ∧
    w.store.cells[n]? = some (.node t) ∧ v.store.cells[m]? = some (.node t) := by
  obtain ⟨d, hd, ht⟩ := h.twins
  exact ht.trees n m (hd ▸ hn)

theorem step (h : w.Rests v c b) {i j : Nat} (hi : b.steps i j) : ∃ s, w.completions[i]? = some s := by
  cases h with
  | idle h =>
    obtain ⟨s, -, hs, -⟩ := h.steps i j hi
    exact ⟨s, hs⟩
  | held h =>
    rcases hi with hi | ⟨rfl, rfl⟩
    · obtain ⟨s, -, hs, -⟩ := h.twins.steps i j hi
      exact ⟨s, hs⟩
    · obtain ⟨_, _, _, _, _, _, _, _, -, hs, -⟩ := h.waiting
      exact ⟨_, hs⟩

theorem records (h : w.Rests v c b) :
    ∃ x y, w.runs[c.left]? = some x ∧ v.runs[c.right]? = some y ∧ c.Records x y := by
  obtain ⟨d, -, ht⟩ := h.twins
  exact ht.runs

theorem stored (h : w.Rests v c b) (name : String) :
    b.Stored (w.treeOf c.file name) (v.treeOf c.file name) := by
  obtain ⟨d, hd, ht⟩ := h.twins
  exact Bond.Stored.of_trees (fun _ _ hn => hd ▸ hn) (ht.stored name)

/-- Nothing is changed for a chain where something else is done with other trees and steps, another run
and another file. -/
theorem of_frame {trees steps : Nat → Prop} {run file : Nat} (h : w.Rests v c b)
    (hu : w.Frame u trees steps run file) (htrees : ∀ n m, b.trees n m → ¬trees n)
    (hsteps : ∀ i j, b.steps i j → ¬steps i) (hrun : c.left ≠ run) (hfile : c.file ≠ file) :
    u.Rests v c b :=
  h.leaves {
    trees n m hn t ht := hu.cells n _ (htrees n m hn) ht
    steps i j hi := by
      obtain ⟨s, hs⟩ := h.step hi
      rw [hs, hu.completions i s (hsteps i j hi) hs]
    run := hu.runs _ hrun
    file := hu.files _ hfile
    names := hu.names
    openLoop := hu.openLoop
    threaded := hu.threaded }

end World.Rests

/-- Where only trees are changed the data of processors stay mappings. -/
theorem World.Frame.allMapped {w u : World} {trees steps : Nat → Prop} {run file : Nat}
    (hu : w.Frame u trees steps run file)
    (htrees : ∀ n, trees n → ∃ t : Node, w.store.cells[n]? = some (.node t)) (hw : w.AllMapped) :
    u.AllMapped := by
  intro k q hq
  rw [hu.processors] at hq
  obtain ⟨q', entries, hq', hentries⟩ := hw k q hq
  obtain rfl := Option.some.inj (hq.symm.trans hq')
  refine ⟨q, entries, by rw [hu.processors]; exact hq, ?_⟩
  revert hentries
  cases q.data with
  | handle g =>
    rw [Store.content_handle_eq_dict, Store.content_handle_eq_dict, Store.content?, Store.content?]
    cases Store.number? g with
    | none =>
      intro hk
      cases hk
    | some k =>
      intro hk
      refine hu.cells k _ (fun hn => ?_) hk
      obtain ⟨t, ht⟩ := htrees k hn
      cases ht.symm.trans hk
  | _ => exact id

/-- A run that was started among others, and the same run alone. -/
structure Shadow (ι : Type) where
  couple : Couple
  bond : Bond
  alone : Interplay ι

/-- A tree and a file on which a run can be started. The tree refers to nothing that is shared, and no
other such tree is stored in the file; if the tree is not given it is the one that is stored. -/
structure Ask.Fits (a : Ask) (w : World) (name : String) : Prop where
  tree : ∃ t : Node, (Value.node t).Closed ∧ w.store.cells[a.tree]? = some (.node t)
  stored : ∀ name u, w.treeOf a.file name = some u → u.Closed ∨ u = .handle (.node a.tree)
  given : a.given = false → w.treeOf a.file name = some (.handle (.node a.tree))

section Shadows

variable {ι : Type} [DecidableEq ι]

/-- A run of the interplay stands where it stands alone, and the same was told. Its trees are the one that
it was started with, and new ones. -/
structure Shadow.Follows (l : Shadow ι) (w : World) (a : Ask) (i : ι) (s : Interplay ι) : Prop where
  rests : s.world.Rests l.alone.world l.couple l.bond
  told : ∃ es fs, s.told i = some es ∧ l.alone.told i = some fs ∧
    List.Forall₂ (l.bond.Events l.couple) es fs ∧ l.alone.world.events = w.events ++ fs
  file : l.couple.file = a.file
  own : ∀ t ∈ l.couple.steps, t.Own
  trees : ∀ n m, l.bond.trees n m → n = a.tree ∨ w.store.cells.length ≤ n

/-- Two runs have nothing in common. -/
structure Shadow.Apart (l l' : Shadow ι) : Prop where
  runs : l.couple.left ≠ l'.couple.left
  trees : ∀ n m m', l.bond.trees n m → ¬l'.bond.trees n m'
  steps : ∀ i j j', l.bond.steps i j → ¬l'.bond.steps i j'

omit [DecidableEq ι] in
theorem Shadow.Apart.symm {l l' : Shadow ι} (h : l.Apart l') : l'.Apart l :=
  ⟨h.runs.symm, fun n m m' hn hn' => h.trees n m' m hn' hn, fun i j j' hi hi' => h.steps i j' j hi' hi⟩

/-- All runs that were started stand where they stand alone, and have nothing in common. What the others
are to be started on is as it was in the beginning. -/
structure Interplay.Accords (s : Interplay ι) (w : World) (asks : ι → Ask) (p : Nat) (name : String)
    (shadows : ι → Shadow ι) : Prop where
  mapped : s.world.AllMapped
  processor : ∃ q, s.world.processors[p]? = some q ∧ q.name = name
  cells : w.store.cells.length ≤ s.world.store.cells.length
  names : s.world.names = w.names
  openLoop : s.world.openLoop = w.openLoop
  threaded : s.world.threaded = w.threaded
  idle : ∀ i, s.told i = none → s.world.files[(asks i).file]? = w.files[(asks i).file]? ∧
    ∀ t : Node, w.store.cells[(asks i).tree]? = some (.node t) →
      s.world.store.cells[(asks i).tree]? = some (.node t)
  going : ∀ i es, s.told i = some es → (shadows i).Follows w (asks i) i s
  apart : ∀ i k es fs, i ≠ k → s.told i = some es → s.told k = some fs → (shadows i).Apart (shadows k)

namespace Interplay.Accords

variable {s : Interplay ι} {w : World} {asks : ι → Ask} {p : Nat} {name : String} {shadows : ι → Shadow ι}
  (h : s.Accords w asks p name shadows)
include h

/-- A plugin is attached. -/
theorem use {host : Host} (hhost : host.IsNested) (plugin : Plugin) (options : Value) :
    (s.turn host asks p (.use plugin options)).Accords w asks p name shadows := by
  obtain ⟨hequips, hapart, hcompletions, hruns⟩ :=
    use_leaves hhost (.handle (.processor p)) plugin options s.world
  have hnodes := hequips.nodes h.mapped
  refine ⟨hequips.grows.allMapped h.mapped, ?_, h.cells.trans hapart.count, hapart.names.trans h.names,
    hapart.openLoop.trans h.openLoop, hapart.threaded.trans h.threaded, fun i hi => ?_, fun i es hi => ?_,
    h.apart⟩
  · obtain ⟨q, hq, hname⟩ := h.processor
    obtain ⟨q', hq', hname'⟩ := hequips.grows.names p q hq
    exact ⟨q', hq', hname'.trans hname⟩
  · obtain ⟨hfile, htree⟩ := h.idle i hi
    exact ⟨(congrArg (·[(asks i).file]?) hapart.files).trans hfile, fun t ht => hnodes _ t (htree t ht)⟩
  · have hi := h.going i es hi
    refine ⟨hi.rests.leaves ⟨fun n _ _ t ht => hnodes n t ht, fun k _ _ => congrArg (·[k]?) hcompletions,
      congrArg (·[_]?) hruns, congrArg (·[_]?) hapart.files, hapart.names, hapart.openLoop,
      hapart.threaded⟩, hi.told, hi.file, hi.own, hi.trees⟩

omit [DecidableEq ι] in
/-- Whoever has nothing in common with what something is done with has nothing in common with it
afterwards: what came to it is new. -/
theorem apart_of_passes {k : ι} {es : List Event} (hes : s.told k = some es) {l l' : Shadow ι}
    (hcouple : l'.couple = l.couple) {v v' w' : World}
    (hp : Passes l.couple l.bond s.world v l'.bond w' v') (hapart : l.Apart (shadows k)) :
    l'.Apart (shadows k) := by
  have hgoing := h.going k es hes
  refine ⟨hcouple ▸ hapart.runs, fun n m m' hn hn' => ?_, fun x y y' hx hx' => ?_⟩
  · rcases hp.grows.trees n m hn with hold | ⟨hle, -⟩
    · exact hapart.trees n m m' hold hn'
    · obtain ⟨t, -, ht, -⟩ := hgoing.rests.tree hn'
      have := (List.getElem?_eq_some_iff.mp ht).1
      omega
  · rcases hp.grows.steps x y hx with hold | ⟨hle, -⟩
    · exact hapart.steps x y y' hold hx'
    · obtain ⟨c, hc⟩ := hgoing.rests.step hx'
      have := (List.getElem?_eq_some_iff.mp hc).1
      omega

variable (hfiles : Function.Injective fun i => (asks i).file)
include hfiles

/-- Whoever has nothing in common with what something is done with goes on as before. -/
theorem follows_of_passes {i k : ι} (hk : k ≠ i) {es : List Event} (hes : s.told k = some es)
    {l l' : Shadow ι} {v v' w' : World} (hp : Passes l.couple l.bond s.world v l'.bond w' v')
    (hfile : l.couple.file = (asks i).file) (hapart : l.Apart (shadows k)) (told : List Event) :
    (shadows k).Follows w (asks k) k ⟨w', Function.update s.told i (some told)⟩ := by
  have hgoing := h.going k es hes
  have hdisjoint := hapart.symm
  refine ⟨hgoing.rests.of_frame hp.left (fun n m hn ⟨m', hn'⟩ => hdisjoint.trees n m m' hn hn')
    (fun i j hi ⟨j', hi'⟩ => hdisjoint.steps i j j' hi hi') hdisjoint.runs ?_, ?_, hgoing.file, hgoing.own,
    hgoing.trees⟩
  · rw [hgoing.file, hfile]
    exact fun heq => hk (hfiles heq)
  · obtain ⟨es, fs, hes, hfs⟩ := hgoing.told
    exact ⟨es, fs, (Function.update_of_ne hk _ _).trans hes, hfs⟩

variable (htrees : Function.Injective fun i => (asks i).tree)
include htrees

/-- Something is done with what belongs to one run, which goes on to where it goes on alone. -/
theorem pass {i : ι} {l l' : Shadow ι} (hcouple : l'.couple = l.couple) {v v' w' : World}
    (hp : Passes l.couple l.bond s.world v l'.bond w' v')
    (hnodes : ∀ n m, l.bond.trees n m → ∃ t : Node, s.world.store.cells[n]? = some (.node t))
    (hown : ∀ n m, l.bond.trees n m → n = (asks i).tree ∨ w.store.cells.length ≤ n)
    (hfile : l.couple.file = (asks i).file)
    (hapart : ∀ k es, k ≠ i → s.told k = some es → l.Apart (shadows k)) {told : List Event}
    (hl' : l'.Follows w (asks i) i ⟨w', Function.update s.told i (some told)⟩) :
    Interplay.Accords ⟨w', Function.update s.told i (some told)⟩ w asks p name
      (Function.update shadows i l') := by
  have htold {k : ι} (hk : k ≠ i) : Function.update s.told i (some told) k = s.told k :=
    Function.update_of_ne hk _ _
  have hnew {k : ι} (hk : k ≠ i) {es : List Event} (hes : s.told k = some es) : l'.Apart (shadows k) :=
    h.apart_of_passes hes hcouple hp (hapart k es hk hes)
  exact {
    mapped := hp.left.allMapped (fun n ⟨m, hn⟩ => hnodes n m hn) h.mapped
    processor := by
      obtain ⟨q, hq, hname⟩ := h.processor
      exact ⟨q, by rw [hp.left.processors]; exact hq, hname⟩
    cells := h.cells.trans hp.left.cells_le
    names := hp.left.names.trans h.names
    openLoop := hp.left.openLoop.trans h.openLoop
    threaded := hp.left.threaded.trans h.threaded
    idle := fun k hk => by
      have hki : k ≠ i := by
        rintro rfl
        simp at hk
      obtain ⟨hsame, htree⟩ := h.idle k ((htold hki).symm.trans hk)
      refine ⟨(hp.left.files _ ?_).trans hsame, fun t ht => hp.left.cells _ _ ?_ (htree t ht)⟩
      · rw [hfile]
        exact fun heq => hki (hfiles heq)
      · rintro ⟨m, hn⟩
        rcases hown _ m hn with heq | hle
        · exact hki (htrees heq)
        · have := (List.getElem?_eq_some_iff.mp ht).1
          omega
    going := fun k es hk => by
      by_cases hki : k = i
      · subst hki
        rw [Function.update_self]
        exact hl'
      · have hold := (htold hki).symm.trans hk
        rw [Function.update_of_ne hki]
        exact h.follows_of_passes hfiles hki hold hp hfile (hapart k es hki hold) told
    apart := fun k k' es fs hne hk hk' => by
      by_cases hki : k = i
      · subst hki
        rw [Function.update_self, Function.update_of_ne hne.symm]
        exact hnew hne.symm ((htold hne.symm).symm.trans hk')
      · have hold := (htold hki).symm.trans hk
        rw [Function.update_of_ne hki]
        by_cases hki' : k' = i
        · subst hki'
          rw [Function.update_self]
          exact (hnew hki hold).symm
        · rw [Function.update_of_ne hki']
          exact h.apart k k' es fs hne hold ((htold hki').symm.trans hk') }

end Interplay.Accords

end Shadows

/-! ### Turns of a run -/

/-- Calls of steps that stand for one another. -/
structure Bond.Calls (b : Bond) (a a' : Invocation) : Prop where
  step : a.step = a'.step
  tree : ∃ n m, b.trees n m ∧ a.tree = .handle (.node n) ∧ a'.tree = .handle (.node m)
  completion : b.steps a.completion a'.completion

theorem Bond.Events.invocations {b : Bond} {c : Couple} {es fs : List Event}
    (h : List.Forall₂ (b.Events c) es fs) : List.Forall₂ b.Calls (invocations es) (invocations fs) := by
  induction h with
  | nil => exact .nil
  | @cons e f es fs he _ ih =>
    cases he with
    | called index step seen hn hi => exact .cons ⟨rfl, ⟨_, _, hn, rfl, rfl⟩, hi⟩ ih
    | delivered error hn => exact ih
    | other hu hc hc' =>
      have uncalled {e : Event} (he : e.ofCourse = false) : e.invocation? = none := by
        cases e <;> first | rfl | cases he
      rw [Pipeline.invocations, Pipeline.invocations, List.filterMap_cons_none (uncalled hc),
        List.filterMap_cons_none (uncalled hc')]
      exact ih

theorem forall₂_getElem? {α β : Type} {R : α → β → Prop} {l : List α} {l' : List β}
    (h : List.Forall₂ R l l') (i : Nat) :
    l[i]? = none ∧ l'[i]? = none ∨ ∃ a a', l[i]? = some a ∧ l'[i]? = some a' ∧ R a a' := by
  induction h generalizing i with
  | nil => exact .inl ⟨rfl, rfl⟩
  | cons hab _ ih =>
    cases i with
    | zero => exact .inr ⟨_, _, rfl, rfl, hab⟩
    | succ i => exact ih i

/-- What is passed on to the step of a number is passed on to steps that stand for one another. -/
theorem Bond.Events.passOn {b : Bond} {c : Couple} {es fs : List Event}
    (h : List.Forall₂ (b.Events c) es fs) (index : Nat) (error : Value) {tree : Handed}
    (htree : ∀ v, tree = .value v → v.Closed) :
    passOn? (Pipeline.invocations es) index error tree = none ∧
        passOn? (Pipeline.invocations fs) index error tree = none ∨
      ∃ i j v v', passOn? (Pipeline.invocations es) index error tree = some (.next i error v) ∧
        passOn? (Pipeline.invocations fs) index error tree = some (.next j error v') ∧ b.steps i j ∧
        b.Given v v' := by
  have hcalls := Bond.Events.invocations h
  have hvalue : tree.value? (Pipeline.invocations es) = none ∧ tree.value? (Pipeline.invocations fs) = none ∨
      ∃ v v', tree.value? (Pipeline.invocations es) = some v ∧
        tree.value? (Pipeline.invocations fs) = some v' ∧ b.Given v v' := by
    cases tree with
    | value v => exact .inr ⟨v, v, rfl, rfl, .closed (htree v rfl)⟩
    | ofStep k =>
      rcases forall₂_getElem? hcalls k with ⟨ha, ha'⟩ | ⟨a, a', ha, ha', hc⟩
      · exact .inl ⟨by simp [Handed.value?, ha], by simp [Handed.value?, ha']⟩
      · obtain ⟨n, m, hn, hat, hat'⟩ := hc.tree
        exact .inr ⟨a.tree, a'.tree, by simp [Handed.value?, ha], by simp [Handed.value?, ha'],
          hat ▸ hat' ▸ .tree hn⟩
  rcases forall₂_getElem? hcalls index with ⟨ha, ha'⟩ | ⟨a, a', ha, ha', hc⟩
  · exact .inl ⟨by rw [passOn?, ha], by rw [passOn?, ha']⟩
  · rcases hvalue with ⟨hv, hv'⟩ | ⟨v, v', hv, hv', hg⟩
    · exact .inl ⟨by rw [passOn?, ha, hv], by rw [passOn?, ha', hv']⟩
    · exact .inr ⟨a.completion, a'.completion, v, v', by rw [passOn?, ha, hv], by rw [passOn?, ha', hv'],
        hc.completion, hg⟩

section Turns

variable {ι : Type} [DecidableEq ι] {s : Interplay ι} {w : World} {asks : ι → Ask} {p : Nat} {name : String}
  {shadows : ι → Shadow ι}

theorem Move.run_world {host : Host} {on tree given : Value} {k : Option Callback} {watcher : Option Watcher}
    (w : World) : (((Move.run on tree given k watcher).act host).result w).2 =
      ((runOn host on tree given k watcher).result w).2 := by
  show ((runOn host on tree given k watcher >>= fun _ => pure ()).result w).2 = _
  rw [result_bind]
  generalize (runOn host on tree given k watcher).result w = done
  obtain ⟨o, v⟩ := done
  cases o <;> rfl

theorem Interplay.told_self (w : World) (told : ι → Option (List Event)) (i : ι) (es : List Event) :
    (⟨w, Function.update told i (some es)⟩ : Interplay ι).told i = some es := Function.update_self ..

theorem Interplay.own_of_events {host : Host} {i : ι} {m : Move} {es : List Event}
    (h : ((m.act host).result s.world).2.events = s.world.events ++ es) :
    s.own host i m =
      ⟨((m.act host).result s.world).2, Function.update s.told i (some ((s.told i).getD [] ++ es))⟩ := by
  rw [own, h, List.drop_left]

theorem Interplay.turn_run {host : Host} {i : ι} {es : List Event} (hi : s.told i = none)
    (h : ((((asks i).move p).act host).result s.world).2.events = s.world.events ++ es) :
    s.turn host asks p (.run i) =
      ⟨((((asks i).move p).act host).result s.world).2, Function.update s.told i (some es)⟩ := by
  rw [turn, hi]
  dsimp only
  rw [own_of_events h, hi]
  rfl

theorem Interplay.turn_next {host : Host} {i : ι} {es fs : List Event} {index : Nat} {error : Value}
    {tree : Handed} {m : Move} (hi : s.told i = some es)
    (hm : passOn? (invocations es) index error tree = some m)
    (h : ((m.act host).result s.world).2.events = s.world.events ++ fs) :
    s.turn host asks p (.next i index error tree) =
      ⟨((m.act host).result s.world).2, Function.update s.told i (some (es ++ fs))⟩ := by
  rw [turn, hi, Option.bind_some, hm]
  dsimp only
  rw [own_of_events h, hi]
  rfl

/-- The tree on which a run was asked for is the one that it is started on. -/
theorem Ask.startTree {a : Ask} {v : World} {name : String} (hn : name ≠ "")
    (h : a.given = false → v.treeOf a.file name = some (.handle (.node a.tree))) :
    (Pipeline.startTree a.file name (if a.given then .handle (.node a.tree) else .none)).result v =
      (.ok (.handle (.node a.tree)), v) := by
  cases hg : a.given with
  | true => exact result_startTree_given rfl v
  | false => exact result_startTree_stored hn (h hg) rfl

omit [DecidableEq ι] in
/-- A run is not started yet, and its tree and file are as they were. It starts as it does alone. -/
theorem Interplay.Accords.starts (h : s.Accords w asks p name shadows) {i : ι} (hi : s.told i = none)
    (hfits : (asks i).Fits w name) :
    s.world.Starts { w with processors := s.world.processors } (asks i).file (asks i).tree := by
  obtain ⟨hfile, htree⟩ := h.idle i hi
  obtain ⟨t, hc, ht⟩ := hfits.tree
  refine ⟨⟨t, hc, htree t ht, ht⟩, hfile, fun name u hu => hfits.stored name u ?_, h.names, h.openLoop,
    h.threaded⟩
  rw [← hu, World.treeOf, World.treeOf, List.getD_eq_getElem?_getD, List.getD_eq_getElem?_getD, hfile]

namespace Interplay.Accords

variable (h : s.Accords w asks p name shadows) (hfiles : Function.Injective fun i => (asks i).file)
  (htrees : Function.Injective fun i => (asks i).tree) {i : ι}
include h hfiles htrees

/-- A run is started. -/
theorem run (host : Host) (hfits : ∀ i, (asks i).Fits w name) (hi : s.told i = none) {q : Processor}
    (hq : s.world.processors[p]? = some q) (hown : ∀ t ∈ q.registry.transformers, t.Own) :
    ∃ l, (s.turn host asks p (.run i)).Accords w asks p name (Function.update shadows i l) ∧
      l.alone = (s.afresh w).turn host asks p (.run i) ∧
      l.couple.steps = q.registry.transformers ∧ l.couple.right = w.runs.length := by
  obtain ⟨q', hq', hname⟩ := h.processor
  obtain rfl := Option.some.inj (hq.symm.trans hq')
  have hstarts := h.starts hi (hfits i)
  have hfirst (v : World) (hv : v.files[(asks i).file]? = w.files[(asks i).file]?) :=
    Ask.startTree (a := asks i) (v := v) q.named fun hg => by
      rw [World.treeOf, List.getD_eq_getElem?_getD, hv, ← List.getD_eq_getElem?_getD, hname]
      exact (hfits i).given hg
  obtain ⟨e, hp, hr⟩ := hstarts.start (asks i).watcher hown host q.name (asks i).callback
  have hworld (v : World) (hv : v.files[(asks i).file]? = w.files[(asks i).file]?)
      (hqv : v.processors[p]? = some q) : ((((asks i).move p).act host).result v).2 = _ :=
    (Move.run_world v).trans (runOn_world hqv (hfirst v hv) (asks i).callback (asks i).watcher)
  rw [← hworld _ (h.idle i hi).1 hq, ← hworld { w with processors := s.world.processors } rfl hq] at hp hr
  obtain ⟨es, fs, hes, hfs, hall⟩ := hp.events
  have hturn : s.turn host asks p (.run i) = _ := turn_run hi hes
  have halone : (s.afresh w).turn host asks p (.run i) =
      ⟨((((asks i).move p).act host).result { w with processors := s.world.processors }).2,
        Function.update (fun _ => none) i (some fs)⟩ := own_of_events hfs
  obtain ⟨t, -, ht, -⟩ := hstarts.tree
  let c : Couple := ⟨s.world.runs.length, w.runs.length, (asks i).file, q.registry.transformers⟩
  let l : Shadow ι := ⟨c, .single (asks i).tree, .start w⟩
  let l' : Shadow ι := ⟨c, e, (s.afresh w).turn host asks p (.run i)⟩
  rw [hturn]
  refine ⟨l', h.pass hfiles htrees (show l'.couple = l.couple from rfl) hp ?_ ?_ rfl ?_ ?_, rfl, rfl, rfl⟩
  · rintro _ _ ⟨rfl, -⟩
    exact ⟨t, ht⟩
  · rintro _ _ ⟨rfl, -⟩
    exact .inl rfl
  · intro k es hk hes
    have hgoing := h.going k es hes
    refine ⟨?_, ?_, fun _ _ _ hf => hf.elim⟩
    · obtain ⟨x, -, hx, -⟩ := hgoing.rests.records
      exact (List.getElem?_eq_some_iff.mp hx).1.ne'
    · rintro _ _ m' ⟨rfl, -⟩ hn'
      rcases hgoing.trees _ m' hn' with heq | hle
      · exact hk (htrees heq).symm
      · obtain ⟨u, -, hu⟩ := (hfits i).tree
        have := (List.getElem?_eq_some_iff.mp hu).1
        omega
  · refine ⟨?_, ⟨es, fs, told_self _ _ i es, ?_, hall, ?_⟩, rfl, hown, fun n m hn => ?_⟩
    · rw [show l'.alone = _ from halone]
      exact hr
    · rw [show l'.alone = _ from halone]
      exact told_self _ _ i fs
    · rw [show l'.alone = _ from halone]
      exact hfs
    · exact (hp.grows.trees n m hn).imp And.left fun hle => h.cells.trans hle.1

/-- A result is passed on to a step of a run. -/
theorem next {host : Host} (hhost : host.IsNested) {es : List Event} (hi : s.told i = some es) (index : Nat)
    {error : Value} (herror : error.Closed) {tree : Handed} (htree : ∀ v, tree = .value v → v.Closed) :
    ∃ l, (s.turn host asks p (.next i index error tree)).Accords w asks p name (Function.update shadows i l) ∧
      l.couple = (shadows i).couple ∧
      l.alone = (shadows i).alone.turn host asks p (.next i index error tree) := by
  obtain ⟨endpoints, standard, surroundings, depth, rfl⟩ := hhost
  have hgoing := h.going i es hi
  obtain ⟨es', fs, hes', hfs, hall, hevents⟩ := hgoing.told
  obtain rfl := Option.some.inj (hi.symm.trans hes')
  rcases Bond.Events.passOn hall index error htree with ⟨hl, hr⟩ | ⟨k, j, v, v', hl, hr, hstep, hgiven⟩
  · refine ⟨shadows i, ?_, rfl, ?_⟩
    · rw [Function.update_eq_self, turn, hi, Option.bind_some, hl]
      exact h
    · rw [turn, hfs, Option.bind_some, hr]
  · obtain ⟨e, hp, hrests⟩ := hgoing.rests.next hgoing.own endpoints standard surroundings depth hstep herror
      hgiven
    obtain ⟨es', fs', hes', hfs', hall'⟩ := hp.events
    let nested : Host := .nested endpoints standard surroundings depth
    have hturn : s.turn nested asks p (.next i index error tree) = _ := turn_next hi hl hes'
    have halone : (shadows i).alone.turn nested asks p (.next i index error tree) = _ :=
      turn_next hfs hr hfs'
    let l' : Shadow ι := ⟨(shadows i).couple, e,
      (shadows i).alone.turn nested asks p (.next i index error tree)⟩
    rw [hturn]
    refine ⟨l', h.pass hfiles htrees (show l'.couple = (shadows i).couple from rfl) hp
      (fun n m hn => ?_) hgoing.trees hgoing.file
      (fun k es' hk hes' => h.apart i k es es' hk.symm hi hes') ?_, rfl, rfl⟩
    · obtain ⟨t, -, ht, -⟩ := hgoing.rests.tree hn
      exact ⟨t, ht⟩
    · refine ⟨?_, ⟨es ++ es', fs ++ fs', told_self _ _ i _, ?_, ?_, ?_⟩, hgoing.file, hgoing.own,
        fun n m hn => ?_⟩
      · rw [show l'.alone = _ from halone]
        exact hrests
      · rw [show l'.alone = _ from halone]
        exact told_self _ _ i (fs ++ fs')
      · exact List.rel_append (hall.imp fun _ _ he => he.mono hp.grows.within) hall'
      · rw [show l'.alone = _ from halone]
        exact hfs'.trans (by rw [hevents, List.append_assoc])
      · rcases hp.grows.trees n m hn with hold | ⟨hle, -⟩
        · exact hgoing.trees n m hold
        · exact .inr (h.cells.trans hle)

end Interplay.Accords

end Turns

end TextPipeline.Pipeline
