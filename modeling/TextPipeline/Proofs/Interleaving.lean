import TextPipeline.Proofs.Interplay
import TextPipeline.Proofs.Passing

/-! Runs of one processor do not interfere. In whatever order they are started, results are passed on to
their steps and plugins are attached to the processor, each of them carries out the transformers that were
registered when it was started, its callback is told of the same error or tree, and the same trees are
stored in its file, as where it is the only one and is passed the same results. -/

namespace TextPipeline.Pipeline

open TextPipeline.Plugin TextPipeline.Transform
open TextPipeline.Pipeline.Action

/-! ### Many turns -/

section Turns

variable {ι : Type} [DecidableEq ι] {host : Host} {asks : ι → Ask} {p : Nat}

namespace Interplay

variable {s : Interplay ι}

theorem turn_use (plugin : Plugin) (options : Value) : (s.turn host asks p (.use plugin options)).world =
    (((Move.use (.handle (.processor p)) plugin options).act host).result s.world).2 := rfl

theorem tame_append {ts us : List (Turn ι)} (h : s.Tame host asks p (ts ++ us)) :
    s.Tame host asks p ts ∧ (s.turns host asks p ts).Tame host asks p us := by
  induction ts generalizing s with
  | nil => exact ⟨trivial, h⟩
  | cons t ts ih =>
    obtain ⟨hts, hus⟩ := ih h.2
    exact ⟨⟨h.1, hts⟩, hus⟩

/-- A turn of one run tells nothing of the others. -/
theorem told_turn {i : ι} {t : Turn ι} (h : t.owner? ≠ some i) : (s.turn host asks p t).told i = s.told i := by
  have hown {k : ι} (hk : some k ≠ some i) (m : Move) : (s.own host k m).told i = s.told i :=
    Function.update_of_ne (fun heq => hk (by rw [heq])) _ _
  cases t with
  | run k =>
    rw [turn]
    split
    · exact hown h _
    · rfl
  | next k index error tree =>
    rw [turn]
    split
    · exact hown h _
    · rfl
  | use plugin options => rfl

/-- A run that was started stays started. -/
theorem told_turn_some {i : ι} {es : List Event} (h : s.told i = some es) (t : Turn ι) :
    ∃ es', (s.turn host asks p t).told i = some es' := by
  by_cases ht : t.owner? = some i
  · cases t with
    | run k =>
      obtain rfl := Option.some.inj ht
      exact ⟨es, by rw [turn, h]; exact h⟩
    | next k index error tree =>
      obtain rfl := Option.some.inj ht
      rw [turn]
      split
      · exact ⟨_, told_self _ _ k _⟩
      · exact ⟨es, h⟩
    | use plugin options => cases ht
  · exact ⟨es, (told_turn ht).trans h⟩

/-- Nothing happens to a run before it is started. -/
theorem told_turns_none {i : ι} {ts : List (Turn ι)} (hts : .run i ∉ ts) (h : s.told i = none) :
    (s.turns host asks p ts).told i = none := by
  induction ts generalizing s with
  | nil => exact h
  | cons t ts ih =>
    have ht : .run i ≠ t := fun heq => hts (heq ▸ List.mem_cons_self)
    have hts : .run i ∉ ts := fun hmem => hts (List.mem_cons_of_mem _ hmem)
    refine ih hts ?_
    by_cases howner : t.owner? = some i
    · cases t with
      | run k => exact absurd (Option.some.inj howner ▸ rfl) ht
      | next k index error tree =>
        obtain rfl := Option.some.inj howner
        rw [turn, h]
        exact h
      | use plugin options => cases howner
    · exact (told_turn howner).trans h

/-- Chains stay sound in all turns. -/
theorem sound_turns (hh : host.Steady) (hs : s.world.Sound) (ts : List (Turn ι)) :
    (s.turns host asks p ts).world.Sound := by
  induction ts generalizing s with
  | nil => exact hs
  | cons t ts ih =>
    have hmove (m : Move) : ((m.act host).result s.world).2.Sound := (hs.play hh [m]).1
    refine ih ?_
    cases t with
    | run i =>
      rw [turn]
      split
      · exact hmove _
      · exact hs
    | next i index error tree =>
      rw [turn]
      split
      · exact hmove _
      · exact hs
    | use plugin options => exact hmove _

end Interplay

namespace Interplay.Accords

variable {s : Interplay ι} {w : World} {name : String} {shadows : ι → Shadow ι}
  (hfiles : Function.Injective fun i => (asks i).file) (htrees : Function.Injective fun i => (asks i).tree)
  (hfits : ∀ i, (asks i).Fits w name) (hhost : host.IsNested)
include hfiles htrees hfits hhost

/-- In every turn the runs go on to where they go on alone, each of them in its own turns only. -/
theorem turn (h : s.Accords w asks p name shadows) (t : Turn ι) (hproper : t.Proper)
    (htame : ∀ i q, t = .run i → s.world.processors[p]? = some q → ∀ t ∈ q.registry.transformers, t.Own) :
    ∃ shadows', (s.turn host asks p t).Accords w asks p name shadows' ∧ ∀ i es, s.told i = some es →
      (shadows' i).couple = (shadows i).couple ∧
      (shadows' i).alone =
        if t.owner? = some i then (shadows i).alone.turn host asks p t else (shadows i).alone := by
  cases t with
  | use plugin options => exact ⟨shadows, h.use hhost plugin options, fun i es _ => ⟨rfl, rfl⟩⟩
  | run k =>
    cases hk : s.told k with
    | none =>
      obtain ⟨q, hq, -⟩ := h.processor
      obtain ⟨l, haccords, -⟩ := h.run hfiles htrees host hfits hk hq (htame k q rfl hq)
      refine ⟨_, haccords, fun i es hi => ?_⟩
      have hne : i ≠ k := by
        rintro rfl
        cases hk.symm.trans hi
      have howner : (Turn.run k).owner? ≠ some i := fun heq => hne (Option.some.inj heq).symm
      rw [Function.update_of_ne hne, if_neg howner]
      exact ⟨rfl, rfl⟩
    | some fs =>
      obtain ⟨-, gs, -, hgs, -⟩ := (h.going k fs hk).told
      refine ⟨shadows, by rw [Interplay.turn, hk]; exact h, fun i es _ => ⟨rfl, ?_⟩⟩
      split
      · rename_i heq
        obtain rfl := Option.some.inj heq
        rw [Interplay.turn, hgs]
      · rfl
  | next k index error tree =>
    cases hk : s.told k with
    | none =>
      refine ⟨shadows, by rw [Interplay.turn, hk]; exact h, fun i es hi => ⟨rfl, ?_⟩⟩
      have howner : (Turn.next k index error tree).owner? ≠ some i := by
        intro heq
        obtain rfl := Option.some.inj heq
        cases hk.symm.trans hi
      rw [if_neg howner]
    | some fs =>
      obtain ⟨l, haccords, hcouple, halone⟩ := h.next hfiles htrees hhost hk index hproper.1 hproper.2
      refine ⟨_, haccords, fun i es _ => ?_⟩
      by_cases hne : i = k
      · subst hne
        have howner : (Turn.next i index error tree).owner? = some i := rfl
        rw [Function.update_self, if_pos howner]
        exact ⟨hcouple, halone⟩
      · have howner : (Turn.next k index error tree).owner? ≠ some i :=
          fun heq => hne (Option.some.inj heq).symm
        rw [Function.update_of_ne hne, if_neg howner]
        exact ⟨rfl, rfl⟩

/-- A run that goes on among others goes on to where its own turns lead alone. -/
theorem turns (h : s.Accords w asks p name shadows) (ts : List (Turn ι)) (hproper : ∀ t ∈ ts, t.Proper)
    (htame : s.Tame host asks p ts) :
    ∃ shadows', (s.turns host asks p ts).Accords w asks p name shadows' ∧ ∀ i es, s.told i = some es →
      (∃ es', (s.turns host asks p ts).told i = some es') ∧
      (shadows' i).couple = (shadows i).couple ∧
      (shadows' i).alone = (shadows i).alone.turns host asks p (ts.filter fun t => t.owner? = some i) := by
  -- on the turns, with what is known of the runs that were started before
  induction ts generalizing s shadows with
  | nil => exact ⟨shadows, h, fun i es hi => ⟨⟨es, hi⟩, rfl, rfl⟩⟩
  | cons t ts ih =>
    obtain ⟨ht, hts⟩ := List.forall_mem_cons.mp hproper
    obtain ⟨shadows₁, h₁, hsame₁⟩ := h.turn hfiles htrees hfits hhost t ht htame.1
    obtain ⟨shadows₂, h₂, hsame₂⟩ := ih h₁ hts htame.2
    refine ⟨shadows₂, h₂, fun i es hi => ?_⟩
    obtain ⟨es₁, hes₁⟩ : ∃ es', (s.turn host asks p t).told i = some es' := told_turn_some hi t
    obtain ⟨hcouple₁, halone₁⟩ := hsame₁ i es hi
    obtain ⟨htold, hcouple₂, halone₂⟩ := hsame₂ i es₁ hes₁
    refine ⟨htold, hcouple₂.trans hcouple₁, ?_⟩
    rw [halone₂, halone₁]
    by_cases howner : t.owner? = some i
    · rw [if_pos howner, List.filter_cons_of_pos (by simpa using howner)]
      rfl
    · rw [if_neg howner, List.filter_cons_of_neg (by simpa using howner)]

end Interplay.Accords

end Turns

/-! ### What is told of a run -/

/-- The result of which the callback of a run is told: the error, the tree in full, and the names of the
file. -/
def Event.reception? : Event → Option (Option Fault × Value × List String)
  | .ran error tree _ names => some (error, tree, names)
  | _ => none

/-- The results of which callbacks of runs are told. -/
def receptions (es : List Event) : List (Option Fault × Value × List String) :=
  es.filterMap Event.reception?

theorem Bond.Events.unnumbered {b : Bond} {c : Couple} {es fs : List Event}
    (h : List.Forall₂ (b.Events c) es fs) : es.map Event.unnumbered = fs.map Event.unnumbered := by
  induction h with
  | nil => rfl
  | cons he _ ih =>
    rw [List.map_cons, List.map_cons, ih]
    cases he with
    | called | delivered => rfl
    | other hu => rw [hu]

/-- Callbacks are told of results in which numbers do not occur. -/
theorem receptions_unnumbered (es : List Event) : receptions (es.map .unnumbered) = receptions es := by
  rw [receptions, List.filterMap_map]
  congr 1
  funext e
  cases e <;> rfl

theorem Bond.Calls.steps {b : Bond} {as as' : List Invocation} (h : List.Forall₂ b.Calls as as') :
    as.map (·.step) = as'.map (·.step) := by
  induction h with
  | nil => rfl
  | cons ha _ ih => rw [List.map_cons, List.map_cons, ha.step, ih]

/-- All calls of steps of which is told are calls of the run. -/
theorem Bond.Events.calls {b : Bond} {c : Couple} {es fs : List Event}
    (h : List.Forall₂ (b.Events c) es fs) : calls c.right fs = Pipeline.invocations fs := by
  induction h with
  | nil => rfl
  | @cons e f es fs he _ ih =>
    cases he with
    | called index step seen hn hi =>
      rw [calls_cons, ih]
      simp [Pipeline.invocations, Event.invocation?]
    | delivered error hn =>
      rw [calls_cons, ih]
      rfl
    | other hu hc hc' =>
      have uncalled : f.call? c.right = none ∧ f.invocation? = none := by
        cases f <;> first | exact ⟨rfl, rfl⟩ | cases hc'
      rw [calls_cons, ih, uncalled.1]
      exact (List.filterMap_cons_none uncalled.2).symm

/-- Where the run is told to have come to its end, it is told so alone. -/
theorem Bond.Events.delivered_mem {b : Bond} {c : Couple} {es fs : List Event}
    (h : List.Forall₂ (b.Events c) es fs) {r : Nat} {error : Option Fault} {tree : Value}
    (he : .delivered r error tree ∈ es) : ∃ tree', .delivered c.right error tree' ∈ fs := by
  induction h with
  | nil => cases he
  | @cons e f es fs hef _ ih =>
    rcases List.mem_cons.mp he with rfl | he
    · cases hef with
      | delivered => exact ⟨_, List.mem_cons_self⟩
      | other hu hc => cases hc
    · obtain ⟨tree', hmem⟩ := ih he
      exact ⟨tree', List.mem_cons_of_mem _ hmem⟩

/-- A run that has come to its end without an error has called all its steps. -/
theorem Run.Lawful.complete {x : Run} {r : Nat} {es : List Event} {tree : Value} (h : x.Lawful r es)
    (he : .delivered r none tree ∈ es) : (calls r es).map (·.step) = x.steps := by
  obtain ⟨pre, post, hes⟩ := List.append_of_mem he
  have hstanding : x.standing r pre = .due x.steps.length tree := h pre _ post hes rfl
  have hall : x.Lawful r (pre ++ .delivered r none tree :: post) := hes ▸ h
  have hfits := hall.of_append.fits
  rw [hstanding] at hfits
  have hpost := h.orderly.last pre none tree post hes
  have hlength : (calls r es).length = x.steps.length := by
    rw [hes, calls_append, List.length_append, calls_cons, hpost, hfits.1]
    rfl
  rw [h.orderly.steps, hlength, List.take_length]

/-- Trees that stand for one another are the same in full. -/
theorem World.Rests.stored_eq {w v : World} {c : Couple} {b : Bond} (h : w.Rests v c b) (name : String) :
    (w.treeOf c.file name).map w.reveal = (v.treeOf c.file name).map v.reveal := by
  have hstored := h.stored name
  revert hstored
  generalize w.treeOf c.file name = o
  generalize v.treeOf c.file name = o'
  rintro (hgiven | _)
  · cases hgiven with
    | closed hc => rw [Option.map_some, Option.map_some, World.reveal_whole hc, World.reveal_whole hc]
    | tree hn =>
      obtain ⟨t, hc, hw, hv⟩ := h.tree hn
      rw [Option.map_some, Option.map_some, World.reveal_node hw hc, World.reveal_node hv hc]
  · rfl

/-! ### Runs among others and alone -/

/-- What has become of a run among others is what has become of it alone: the same was told of it but for
numbers, its callback was told of the same, and the same trees are stored in its file. The steps that were
called are the transformers that were registered when it was started, from the first one on, and all of
them where the end was told without an error. -/
structure Interplay.Undisturbed {ι : Type} (ready among alone : Interplay ι) (p : Nat) (a : Ask) (i : ι) :
    Prop where
  told : ∃ es fs, among.told i = some es ∧ alone.told i = some fs ∧
    es.map Event.unnumbered = fs.map Event.unnumbered ∧ receptions es = receptions fs
  stored : ∀ name, (among.world.treeOf a.file name).map among.world.reveal =
    (alone.world.treeOf a.file name).map alone.world.reveal
  steps : ∃ q es, ready.world.processors[p]? = some q ∧ among.told i = some es ∧
    (invocations es).map (·.step) <+: q.registry.transformers ∧
    ∀ r tree, .delivered r none tree ∈ es → (invocations es).map (·.step) = q.registry.transformers

/-- Runs of one processor are started on different trees and files, with transformers that touch nothing
else, and in any order results are passed on to their steps and plugins are attached to the processor. Each
run comes to what it comes to when it is started alone, with the transformers that were registered then, and
is passed the same results. -/
theorem runs_do_not_interfere {ι : Type} [DecidableEq ι] (endpoints : Grammar.Endpoints)
    (standard : List (Plugin.Metadata Attacher)) (surroundings : Plugin.Surroundings Attacher) (depth : Nat)
    (moves : List Move) (asks : ι → Ask) (p : Nat) (q : Processor) (before after : List (Turn ι)) (i : ι) :
    let host := Host.nested endpoints standard surroundings depth
    let w := play host moves {}
    let ready := (Interplay.start w).turns host asks p before
    let among := ready.turns host asks p (.run i :: after)
    let alone := (ready.afresh w).turns host asks p (.run i :: after.filter fun t => t.owner? = some i)
    w.processors[p]? = some q → w.AllMapped → (∀ i, (asks i).Fits w q.name) →
      (Function.Injective fun i => (asks i).file) → (Function.Injective fun i => (asks i).tree) →
      (∀ t ∈ before ++ .run i :: after, t.Proper) →
      (Interplay.start w).Tame host asks p (before ++ .run i :: after) → .run i ∉ before →
      ready.Undisturbed among alone p (asks i) i := by
  intro host w ready among alone hq hmapped hfits hfiles htrees hproper htame hnew
  have hhost : host.IsNested := ⟨_, _, _, _, rfl⟩
  have hh : host.Steady := Host.nested_steady endpoints standard surroundings depth
  have hsound : w.Sound := reached_sound endpoints standard surroundings depth moves
  obtain ⟨htame₁, htame₂⟩ := Interplay.tame_append htame
  have hstart : (Interplay.start w : Interplay ι).Accords w asks p q.name
      fun _ => ⟨⟨0, 0, 0, []⟩, .single 0, .start w⟩ :=
    ⟨hmapped, ⟨q, hq, rfl⟩, Nat.le_refl _, rfl, rfl, rfl, fun _ _ => ⟨rfl, fun _ => id⟩, nofun, nofun⟩
  -- up to where the run is started, through its start, and from there on
  obtain ⟨shadows, hready, -⟩ := hstart.turns hfiles htrees hfits hhost before
    (fun t ht => hproper t (List.mem_append_left _ ht)) htame₁
  have hnone : ready.told i = none := Interplay.told_turns_none hnew rfl
  obtain ⟨started, hstarted, -⟩ := hready.processor
  obtain ⟨l, hrun, halone, hsteps, hright⟩ := hready.run hfiles htrees host hfits hnone hstarted
    (htame₂.1 i started rfl hstarted)
  obtain ⟨es₀, htold₀⟩ : ∃ es, (ready.turn host asks p (.run i)).told i = some es := by
    rw [Interplay.turn, hnone]
    exact ⟨_, Interplay.told_self _ _ i _⟩
  obtain ⟨shadows', hamong, hsame⟩ := hrun.turns hfiles htrees hfits hhost after
    (fun t ht => hproper t (List.mem_append_right _ (List.mem_cons_of_mem _ ht))) htame₂.2
  obtain ⟨⟨es, hes⟩, hcouple, hshadow⟩ := hsame i es₀ htold₀
  rw [Function.update_self] at hcouple hshadow
  have halone' : (shadows' i).alone = alone := by
    rw [hshadow, halone]
    rfl
  obtain ⟨hrests, ⟨es', fs, hes', hfs, hall, hevents⟩, hfile, -, -⟩ := hamong.going i es hes
  obtain rfl := Option.some.inj (hes.symm.trans hes')
  rw [halone'] at hrests hfs hevents
  have hsame := Bond.Events.unnumbered hall
  -- what the run calls alone is what it may call
  have hv : alone.world.Sound := Interplay.sound_turns hh
    (hsound.play hh [.change fun c => { c with processors := ready.world.processors }]).1 _
  obtain ⟨_, x, -, hx, hrecords⟩ := hrests.records
  have hlawful := hv.lawful _ x hx
  have hcalls : calls (shadows' i).couple.right alone.world.events = invocations fs := by
    rw [hevents, calls_append, (hsound.fresh _ ?_).1, Bond.Events.calls hall, List.nil_append]
    rw [hcouple, hright]
  have hxsteps : x.steps = started.registry.transformers := by rw [hrecords.steps_right, hcouple, hsteps]
  have hinvoked : (invocations es).map (·.step) = (invocations fs).map (·.step) :=
    Bond.Calls.steps (Bond.Events.invocations hall)
  refine ⟨⟨es, fs, hes, hfs, hsame, ?_⟩, fun name => ?_,
    ⟨started, es, hstarted, hes, ?_, fun r tree hdelivered => ?_⟩⟩
  · rw [← receptions_unnumbered es, hsame, receptions_unnumbered]
  · rw [← hfile]
    exact hrests.stored_eq name
  · rw [hinvoked, ← hcalls, hlawful.orderly.steps, hxsteps]
    exact List.take_prefix _ _
  · obtain ⟨tree', hmem⟩ := Bond.Events.delivered_mem hall hdelivered
    rw [hinvoked, ← hcalls, hlawful.complete (by rw [hevents]; exact List.mem_append_right _ hmem), hxsteps]

/-- A transformer that writes to the file, and waits for a result to be passed on. -/
def marking (name text : String) : Transformer :=
  .mk name .next fun _ _ => [.change fun _ tree file => { tree, file := { file with contents := .str text } }]

theorem marking_own (name text : String) : (marking name text).Own := by
  rintro tree file - a ha
  obtain rfl := List.mem_singleton.mp ha
  exact ⟨fun _ _ => rfl, fun _ t _ ht => ⟨t, rfl, ht⟩, fun _ _ _ _ _ _ hv => .inr hv⟩

/-- Two runs, between the starts of which a second transformer is attached. The results of the two are
passed on in the other order. -/
theorem runs_do_not_interfere_two :
    let host := Host.nested .standard [] (.ok []) 1
    let leaf (text : String) : Node := ⟨.str "text", .none, .str text, .none, .none⟩
    let first := marking "first" "one"
    let second := marking "second" "two"
    let q : Processor := ⟨"p", by decide, .none, .none, .dict [], ⟨[], [first]⟩⟩
    let moves : List Move := [.change fun c => { c with
      store := ⟨[.node (leaf "a"), .node (leaf "b")]⟩
      files := [File.empty, File.empty]
      processors := [q] }]
    let w := play host moves {}
    let asks : Fin 2 → Ask := fun i => ⟨i, i, true, ⟨none⟩, none⟩
    let before : List (Turn (Fin 2)) :=
      [.run 0, .use (.leaf (.attacher (.mk "second" fun _ _ => [.give (.transformer second)]))) .none]
    let after : List (Turn (Fin 2)) :=
      [.next 1 0 .none (.value (.node (leaf "c"))), .next 0 0 .none (.value .none), .next 1 1 .none (.ofStep 0)]
    let ready := (Interplay.start w).turns host asks 0 before
    let among := ready.turns host asks 0 (.run 1 :: after)
    let alone := (ready.afresh w).turns host asks 0 (.run 1 :: after.filter fun t => t.owner? = some 1)
    ready.Undisturbed among alone 0 (asks 1) 1 := by
  intro host leaf first second q moves w asks before after ready among alone
  have hrun : ((Interplay.start w).turn host asks 0 (.run 0)).world.processors = [q] := rfl
  have hused (u : World) (hu : u.processors = [q]) (q' : Processor)
      (hq' : (((Move.use (.handle (.processor 0)) (.leaf (.attacher (.mk "second" fun _ _ =>
        [.give (.transformer second)]))) .none).act host).result u).2.processors[0]? = some q') :
      q'.registry.transformers = [first, second] := by
    cases u
    cases hu
    obtain rfl := Option.some.inj hq'
    rfl
  have hmapped : w.AllMapped := fun k q' hq' => by
    cases k with
    | zero =>
      obtain rfl := Option.some.inj hq'
      exact ⟨q, [], rfl, rfl⟩
    | succ k => cases hq'
  have hfits : ∀ i : Fin 2, (asks i).Fits w q.name
    | 0 => ⟨⟨leaf "a", fun _ => rfl, rfl⟩, nofun, nofun⟩
    | 1 => ⟨⟨leaf "b", fun _ => rfl, rfl⟩, nofun, nofun⟩
  have htame : (Interplay.start w).Tame host asks 0 (before ++ .run 1 :: after) := by
    refine ⟨fun i q' _ hq' => ?_, nofun, fun i q' _ hq' => ?_, nofun, nofun, nofun, trivial⟩
    · obtain rfl := Option.some.inj hq'
      exact List.forall_mem_singleton.mpr (marking_own _ _)
    · rw [Interplay.turn_use] at hq'
      rw [hused _ hrun q' hq']
      exact List.forall_mem_cons.mpr ⟨marking_own _ _, List.forall_mem_singleton.mpr (marking_own _ _)⟩
  have hproper : ∀ t ∈ before ++ .run 1 :: after, t.Proper := by
    intro t ht
    simp only [before, after, List.cons_append, List.nil_append, List.mem_cons, List.not_mem_nil,
      or_false] at ht
    rcases ht with rfl | rfl | rfl | rfl | rfl | rfl
    · trivial
    · trivial
    · trivial
    · exact ⟨fun _ => rfl, fun v hv => Handed.value.inj hv ▸ fun _ => rfl⟩
    · exact ⟨fun _ => rfl, fun v hv => Handed.value.inj hv ▸ fun _ => rfl⟩
    · exact ⟨fun _ => rfl, nofun⟩
  have hfirst : Turn.run 1 ∉ before := by
    intro hmem
    rcases List.mem_cons.mp hmem with hrun | hmem
    · cases hrun
    · cases List.mem_singleton.mp hmem
  have hq : w.processors[0]? = some q := rfl
  exact runs_do_not_interfere .standard [] (.ok []) 1 moves asks 0 q before after 1 hq hmapped hfits
    (fun i k hik => Fin.ext hik) (fun i k hik => Fin.ext hik) hproper htame hfirst

end TextPipeline.Pipeline
