import TextPipeline.Proofs.Mirroring
import TextPipeline.Proofs.Provenance

/-! A chain that is told to a callback, in two worlds. It goes as far as it can and rests: at its end, or
held up by a pending step with what is to be done when that is resolved. Where it rests in both worlds at
the same point, a result that is passed on to one of its steps makes it go on in the same way in both, to
where it rests at the same point again. What others do to the one world meanwhile changes nothing of
this as long as they leave alone what belongs to the chain. -/

namespace TextPipeline

/-- Whether a tree can be stored does not depend on the tree. -/
theorem File.store_outcomes (f : File) (name : String) (tree tree' : Value) :
    (∃ e, f.store (.str name) Pipeline.treeKey tree = .error e ∧
      f.store (.str name) Pipeline.treeKey tree' = .error e) ∨
    ∃ g g', f.store (.str name) Pipeline.treeKey tree = .ok g ∧
      f.store (.str name) Pipeline.treeKey tree' = .ok g' := by
  unfold File.store
  cases f.openNamespace (.str name) with
  | error e => exact .inl ⟨e, rfl, rfl⟩
  | ok g => exact .inr ⟨_, _, rfl, rfl⟩

namespace Pipeline

open TextPipeline.Plugin TextPipeline.Transform
open TextPipeline.Pipeline.Action

/-! ### The end of a chain -/

namespace Mirrors

variable {c : Couple} {p : Bool} {b : Bond} {n m : Nat} (hn : b.trees n m)
include hn

/-- The callback is told of the same. -/
theorem tellRan (k : Callback) (error : Option Fault) (file : Nat) :
    Mirrors c p p b Same (tellRan k error (.handle (.node n)) file)
      (tellRan k error (.handle (.node m)) file) :=
  get fun d hd w v ht => by
    obtain ⟨t, hc, hw, hv⟩ := ht.trees n m (hd.trees n m hn)
    have hnames : w.namesOf (.file file) = v.namesOf (.file file) := by
      rw [World.namesOf, World.namesOf, ht.names]
    rw [World.reveal_node hw hc, World.reveal_node hv hc, hnames]
    exact bind (tell fun _ _ => .other rfl rfl rfl) fun _ _ _ _ _ => raise _

theorem storeTree (name : String) :
    Mirrors c true false b Same (storeTree c.file name (.handle (.node n)))
      (storeTree c.file name (.handle (.node m))) := by
  refine file_bind fun d x hd hx => ?_
  rcases x.store_outcomes name (.handle (.node n)) (.handle (.node m)) with
    ⟨e, h, h'⟩ | ⟨f, g, hf, hg⟩
  · rw [h, h']
    exact idle (throw e)
  · rw [hf, hg]
    intro e he w v ht
    have hstored (other : String) : e.Stored (f.treeOf other) (g.treeOf other) := by
      rw [File.store_treeOf hf, File.store_treeOf hg]
      split
      · exact .some (.tree ((hd.trans he).trees n m hn))
      · exact Bond.Stored.mono he (hx other)
    obtain ⟨hp, ht'⟩ := ht.setFile (q := false) nofun hstored
    exact ⟨e, hp, ht', .ok rfl⟩

/-- The tree that the chain comes to is stored. -/
theorem settle (name : String) (error : Option Fault) :
    Mirrors c true false b Same (settle c.left c.file name error (.handle (.node n)))
      (settle c.right c.file name error (.handle (.node m))) := by
  cases error with
  | some f => exact idle (pure fun _ _ => rfl)
  | none =>
    have hchange (d : Bond) (tree tree' : Value) : Mirrors c false false d Same
        (changeRun c.left fun x => { x with settled := x.settled.or (some tree) })
        (changeRun c.right fun x => { x with settled := x.settled.or (some tree') }) := fun e _ w v ht => by
      obtain ⟨hp, ht'⟩ := ht.changeRun (f := fun x => { x with settled := x.settled.or (some tree) })
        (g := fun x => { x with settled := x.settled.or (some tree') }) (fun _ => ⟨rfl, rfl, rfl, rfl⟩)
        fun _ => ⟨rfl, rfl, rfl, rfl⟩
      exact ⟨e, hp, ht', .ok rfl⟩
    refine bind_of (q := false) id (storeTree hn name) fun d _ _ _ _ => ?_
    exact bind (tell fun _ _ => .other rfl rfl rfl) fun d _ _ _ _ => hchange d _ _

/-- The result of the chain is delivered. -/
theorem deliver (host : Host) (name : String) (k : Callback) (error : Option Fault) :
    Mirrors c true false b Same (deliver host c.left (.stored name (.callback k)) error (.handle (.node n)))
      (deliver host c.right (.stored name (.callback k)) error (.handle (.node m))) := by
  refine run_bind fun d₁ x y hd₁ hr => ?_
  have htold (d : Bond) (hd : d₁.Within d) : d.Events c (.delivered c.left error (.handle (.node n)))
      (.delivered c.right error (.handle (.node m))) := .delivered error (hd.trees n m (hd₁.trees n m hn))
  refine bind_of (q := true) nofun (tell htold) fun d₂ _ _ hd₂ _ => ?_
  have hn := (hd₁.trans hd₂).trees n m hn
  dsimp only
  rw [hr.file_left, hr.file_right]
  exact bind_of (q := false) id (settle hn name error) fun d₃ _ _ hd₃ _ =>
    tellRan (hd₃.trees n m hn) k error c.file

end Mirrors

/-! ### Where a chain rests -/

namespace World

/-- A chain stands at the same point in two worlds but for one pending step, which holds it up. -/
structure HeldUp (w v : World) (c : Couple) (b : Bond) (i j : Nat) : Prop where
  twins : w.Twins v c true b
  left : ∀ j', ¬b.steps i j'
  right : ∀ i', ¬b.steps i' j
  waiting : ∃ label index name n m, ∃ k : Callback, ∃ vs ws : List Empty, b.trees n m ∧
    w.completions[i]? = some ⟨label, .pending,
      [⟨c.left, index, .handle (.node n), .stored name (.callback k)⟩], vs⟩ ∧
    v.completions[j]? = some ⟨label, .pending,
      [⟨c.right, index, .handle (.node m), .stored name (.callback k)⟩], ws⟩

/-- A chain rests at the same point in two worlds. -/
inductive Rests (w v : World) (c : Couple) : Bond → Prop
  | idle {b : Bond} (h : w.Twins v c false b) : Rests w v c b
  | held {b : Bond} {i j : Nat} (h : w.HeldUp v c b i j) : Rests w v c (b.withStep i j)

end World

/-- Two actions after which a chain in two worlds, which may be busy before, rests at the same point. -/
def RestsAfter {α β : Type} (c : Couple) (b : Bond) (x : Action α) (y : Action β) : Prop :=
  ∀ d, b.Within d → ∀ w v : World, w.Twins v c true d →
    ∃ e, Passes c d w v e (x.result w).2 (y.result v).2 ∧ (x.result w).2.Rests (y.result v).2 c e

/-- A bond without a step. -/
def Bond.without (b : Bond) (i : Nat) : Bond := { b with steps := fun i' j' => b.steps i' j' ∧ i' ≠ i }

theorem Bond.withStep_without {b : Bond} {i j : Nat} (hi : b.steps i j)
    (h : ∀ i j i' j', b.steps i j → b.steps i' j' → (i = i' ↔ j = j')) :
    (b.without i).withStep i j = b := by
  ext n m
  · rfl
  · show (b.steps n m ∧ n ≠ i) ∨ n = i ∧ m = j ↔ b.steps n m
    constructor
    · rintro (⟨hn, -⟩ | ⟨rfl, rfl⟩)
      · exact hn
      · exact hi
    · intro hn
      by_cases heq : n = i
      · exact .inr ⟨heq, ((h _ _ _ _ hi hn).mp heq.symm).symm⟩
      · exact .inl ⟨hn, heq⟩

theorem Bond.withStep_self (b : Bond) (i j : Nat) : (b.withStep i j).steps i j := .inr ⟨rfl, rfl⟩

/-- What stands for one another does so where as many trees do. -/
theorem Bond.Given.of_trees {b d : Bond} (h : ∀ n m, b.trees n m → d.trees n m) {v w : Value}
    (hv : b.Given v w) : d.Given v w := by
  cases hv with
  | closed hc => exact .closed hc
  | tree hn => exact .tree (h _ _ hn)

theorem Bond.Given.of_withStep {b : Bond} {i j : Nat} {v w : Value} (h : (b.withStep i j).Given v w) :
    b.Given v w := by
  have hb (n m : Nat) (hn : (b.withStep i j).trees n m) : b.trees n m := hn
  exact h.of_trees hb

theorem Bond.Stored.of_trees {b d : Bond} (h : ∀ n m, b.trees n m → d.trees n m) {v w : Option Value}
    (hv : b.Stored v w) : d.Stored v w := by
  cases hv with
  | none => exact .none
  | some hv => exact .some (hv.of_trees h)

theorem Bond.Completions.of_trees {b d : Bond} (h : ∀ n m, b.trees n m → d.trees n m)
    {s t : Completion Resolution Resumption Empty} (hs : b.Completions s t) : d.Completions s t := by
  cases hs with
  | pending label vs ws => exact .pending label vs ws
  | done label vs ws hr =>
    cases hr with
    | plain error => exact .done label vs ws (.plain error)
    | tree hn => exact .done label vs ws (.tree (h _ _ hn))

theorem World.Frame.mono {w v : World} {trees steps trees' steps' : Nat → Prop} {run file : Nat}
    (h : w.Frame v trees steps run file) (ht : ∀ n, trees n → trees' n) (hs : ∀ i, steps i → steps' i) :
    w.Frame v trees' steps' run file :=
  ⟨fun n u hn => h.cells n u fun hn' => hn (ht n hn'), h.cells_le,
    fun i s hi => h.completions i s fun hi' => hi (hs i hi'), h.completions_le, h.runs, h.files,
    h.processors, h.names, h.openLoop, h.threaded⟩

/-- One more step may change as well. -/
theorem Passes.withStep {c : Couple} {b d : Bond} {w v w' v' : World} (h : Passes c b w v d w' v')
    (i j : Nat) : Passes c (b.withStep i j) w v (d.withStep i j) w' v' where
  grows := by
    refine ⟨⟨h.grows.within.trees, fun k l hk => hk.imp (h.grows.within.steps k l) id⟩, h.grows.trees,
      fun k l hk => ?_⟩
    rcases hk with hk | hk
    · exact (h.grows.steps k l hk).imp .inl id
    · exact .inl (.inr hk)
  left := h.left.mono (fun _ => id) fun _ ⟨l, hk⟩ => ⟨l, .inl hk⟩
  right := h.right.mono (fun _ => id) fun _ ⟨k, hl⟩ => ⟨k, .inl hl⟩
  events := by
    obtain ⟨es, fs, hw, hv, hes⟩ := h.events
    exact ⟨es, fs, hw, hv, hes.imp fun _ _ he => he.mono (d.within_withStep i j)⟩

namespace World.Twins

variable {c : Couple} {b : Bond} {w v : World} {i j : Nat}

/-- A pending step holds the chain up from now on. -/
theorem hold (h : w.Twins v c true b) (hi : b.steps i j) {n m : Nat} (hn : b.trees n m) (label : String)
    (index : Nat) (name : String) (k : Callback) (vs ws : List Empty) :
    let s : Completion Resolution Resumption Empty := ⟨label, .pending,
      [⟨c.left, index, .handle (.node n), .stored name (.callback k)⟩], vs⟩
    let t : Completion Resolution Resumption Empty := ⟨label, .pending,
      [⟨c.right, index, .handle (.node m), .stored name (.callback k)⟩], ws⟩
    World.HeldUp { w with completions := w.completions.set i s }
      { v with completions := v.completions.set j t } c (b.without i) i j := by
  intro s t
  have hd (n m : Nat) (hn : b.trees n m) : (b.without i).trees n m := hn
  refine ⟨⟨h.trees, h.trees_iff, fun i' j' hi' => ?_, fun _ _ _ _ hk hl => h.steps_iff _ _ _ _ hk.1 hl.1,
    h.runs, h.file, fun name => Bond.Stored.of_trees hd (h.stored name), h.names,
    h.openLoop, h.threaded⟩, fun j' hi' => hi'.2 rfl, fun i' hi' => hi'.2 ?_, ?_⟩
  · obtain ⟨s, t, hs, ht, hst⟩ := h.steps i' j' hi'.1
    have hother : j ≠ j' := fun hj => hi'.2 ((h.steps_iff _ _ _ _ hi hi'.1).mpr hj).symm
    exact ⟨s, t, (List.getElem?_set_ne (Ne.symm hi'.2)).trans hs, (List.getElem?_set_ne hother).trans ht,
      hst.of_trees hd⟩
  · exact (h.steps_iff _ _ _ _ hi'.1 hi).mpr rfl
  · exact ⟨label, index, name, n, m, k, vs, ws, hn, List.getElem?_set_self (h.step_lt hi).1,
      List.getElem?_set_self (h.step_lt hi).2⟩

end World.Twins

namespace RestsAfter

variable {α β γ δ : Type} {c : Couple} {b : Bond}

theorem of_mirrors {p : Bool} {A : Bond → α → β → Prop} {x : Action α} {y : Action β}
    (h : Mirrors c true p b A x y) : RestsAfter c b x y := fun d hd w v ht => by
  obtain ⟨e, hp, hq, -⟩ := h d hd w v ht
  exact ⟨e, hp, .idle hq.idle⟩

/-- Whatever a chain does before, it rests after what it does then, or has failed. -/
theorem bind {A : Bond → α → β → Prop} {x : Action α} {y : Action β} {f : α → Action γ}
    {g : β → Action δ} (hx : Mirrors c true true b A x y)
    (hf : ∀ d a a', b.Within d → A d a a' → RestsAfter c d (f a) (g a')) :
    RestsAfter c b (x >>= f) (y >>= g) := fun d hd w v ht => by
  obtain ⟨e, hp, hq, ho⟩ := hx d hd w v ht
  rw [result_bind, result_bind]
  generalize x.result w = left at hp hq ho
  generalize y.result v = right at hp hq ho
  obtain ⟨o, w'⟩ := left
  obtain ⟨o', v'⟩ := right
  dsimp only at hp hq ho
  cases ho with
  | error f => exact ⟨e, hp, .idle hq.idle⟩
  | ok ha =>
    obtain ⟨e', hp', hr⟩ := hf e _ _ (hd.trans hp.grows.within) ha e (.refl e) w' v' hq
    exact ⟨e', hp.trans hp', hr⟩

theorem run_bind {f : Run → Action α} {g : Run → Action β}
    (h : ∀ d x y, b.Within d → c.Records x y → RestsAfter c d (f x) (g y)) :
    RestsAfter c b (Action.run c.left >>= f) (Action.run c.right >>= g) := fun d hd w v ht => by
  obtain ⟨x, y, hx, hy, hr⟩ := ht.runs
  rw [result_bind_ok (result_run hx), result_bind_ok (result_run hy)]
  exact h d x y hd hr d (.refl d) w v ht

variable {host : Host} {name : String} {k : Callback}

/-- What a chain does where it halts. -/
theorem act {x y : Halt} (h : b.Halts x y) :
    RestsAfter c b (x.act host c.left (.stored name (.callback k)) false)
      (y.act host c.right (.stored name (.callback k)) false) := by
  cases h with
  | ended error hn => exact of_mirrors (.deliver hn host name k error)
  | held index step label vs ws hn hi =>
    refine bind (.log _ _ _) fun d _ _ hd _ e he w v ht => ?_
    have hi := he.steps _ _ (hd.steps _ _ hi)
    have hheld := ht.hold hi (he.trees _ _ (hd.trees _ _ hn)) label index name k vs ws
    refine ⟨e, .setCompletion c w v hi _ _, ?_⟩
    have hrests := World.Rests.held hheld
    rw [Bond.withStep_without hi ht.steps_iff] at hrests
    exact hrests

section Own

variable {rest : List Transformer} {n m : Nat}

/-- The steps that are left are run. -/
theorem drive (hrest : ∀ t ∈ rest, t.Own) (hn : b.trees n m) (index : Nat) :
    RestsAfter c b
      (Pipeline.drive host c.left (.stored name (.callback k)) false rest index (.handle (.node n)))
      (Pipeline.drive host c.right (.stored name (.callback k)) false rest index (.handle (.node m))) := by
  rw [drive_stretch, drive_stretch]
  exact bind (.stretch hrest hn index) fun _ _ _ _ h => act h

variable (hown : ∀ t ∈ c.steps, t.Own)
include hown

/-- A chain goes on after a step that held it up. -/
theorem resume (hn : b.trees n m) {r s : Resolution} (hrs : b.Results r s) (index : Nat) :
    RestsAfter c b
      (Pipeline.resume host ⟨c.left, index, .handle (.node n), .stored name (.callback k)⟩ r)
      (Pipeline.resume host ⟨c.right, index, .handle (.node m), .stored name (.callback k)⟩ s) := by
  refine run_bind fun d x y hd hr => ?_
  rw [hr.steps_left, hr.steps_right]
  have go {n m : Nat} (hn : d.trees n m) : RestsAfter c d
      (do
        tellStep x index (((c.steps[index]?).map (·.name)).getD "")
        Pipeline.drive host c.left (.stored name (.callback k)) false (c.steps.drop (index + 1)) (index + 1)
          (.handle (.node n)))
      (do
        tellStep y index (((c.steps[index]?).map (·.name)).getD "")
        Pipeline.drive host c.right (.stored name (.callback k)) false (c.steps.drop (index + 1)) (index + 1)
          (.handle (.node m))) :=
    bind (.tellStep hr _ _) fun e _ _ he _ =>
      drive (fun t ht => hown t (List.mem_of_mem_drop ht)) (he.trees n m hn) (index + 1)
  have hn := hd.trees n m hn
  cases hrs with
  | plain error =>
    cases error with
    | some f =>
      exact bind (.logFault _ _ _ _) fun e _ _ he _ => of_mirrors (.deliver (he.trees n m hn) host name k _)
    | none => exact go hn
  | tree hn' => exact go (hd.trees _ _ hn')

/-- A chain is let go on, or has to wait for its loop. -/
theorem goOn (endpoints : Grammar.Endpoints) (standard : List (Metadata Attacher))
    (surroundings : Surroundings Attacher) (depth : Nat) (hn : b.trees n m) {r s : Resolution}
    (hrs : b.Results r s) (index : Nat) :
    RestsAfter c b
      (Pipeline.goOn (.nested endpoints standard surroundings depth)
        ⟨c.left, index, .handle (.node n), .stored name (.callback k)⟩ r)
      (Pipeline.goOn (.nested endpoints standard surroundings depth)
        ⟨c.right, index, .handle (.node m), .stored name (.callback k)⟩ s) := by
  refine run_bind fun d x y hd hr => ?_
  have hresume : RestsAfter c d
      ((Host.nested endpoints standard surroundings depth).resume
        ⟨c.left, index, .handle (.node n), .stored name (.callback k)⟩ r)
      ((Host.nested endpoints standard surroundings depth).resume
        ⟨c.right, index, .handle (.node m), .stored name (.callback k)⟩ s) := by
    cases depth with
    | zero => exact of_mirrors (A := Same) (.throw _)
    | succ depth => exact resume hown (hd.trees n m hn) (hrs.mono hd) index
  have hwait : RestsAfter c d
      (do
        log .debug Transform.logger "Resuming transformer chain on its event loop"
        enqueue (.resume ⟨c.left, index, .handle (.node n), .stored name (.callback k)⟩ r))
      (do
        log .debug Transform.logger "Resuming transformer chain on its event loop"
        enqueue (.resume ⟨c.right, index, .handle (.node m), .stored name (.callback k)⟩ s)) :=
    of_mirrors (.bind (.log _ _ _) fun _ _ _ _ _ => .enqueue _ _)
  intro e he w v ht
  have hrunning : w.runningLoop = v.runningLoop := by
    rw [World.runningLoop, World.runningLoop, ht.threaded, ht.openLoop]
  rw [result_get_bind, result_get_bind, hr.loop, ht.openLoop, hrunning]
  split
  · exact hresume e he w v ht
  · exact hwait e he w v ht

end Own

end RestsAfter

/-! ### Results that are passed on to a chain that rests -/

namespace World.HeldUp

variable {c : Couple} {b : Bond} {w v : World} {i j : Nat}

/-- What is done with a chain that is held up, but not with the step that holds it up. -/
theorem mirrors {α β : Type} {A : Bond → α → β → Prop} {x : Action α} {y : Action β}
    (h : w.HeldUp v c b i j) (hx : Mirrors c true true b A x y) :
    ∃ e, Passes c (b.withStep i j) w v (e.withStep i j) (x.result w).2 (y.result v).2 ∧
      (x.result w).2.HeldUp (y.result v).2 c e i j ∧ b.Within e ∧
      Outcomes (A e) (x.result w).1 (y.result v).1 := by
  obtain ⟨e, hp, ht, ho⟩ := hx b (.refl b) w v h.twins
  obtain ⟨label, index, name, n, m, k, vs, ws, hn, hi, hj⟩ := h.waiting
  have hlt := (List.getElem?_eq_some_iff.mp hi).1
  have hlt' := (List.getElem?_eq_some_iff.mp hj).1
  refine ⟨e, hp.withStep i j, ⟨ht, fun j' hi' => ?_, fun i' hj' => ?_, ?_⟩, hp.grows.within, ho⟩
  · rcases hp.grows.steps i j' hi' with hold | ⟨hnew, -⟩
    · exact h.left j' hold
    · omega
  · rcases hp.grows.steps i' j hj' with hold | ⟨-, hnew⟩
    · exact h.right i' hold
    · omega
  · exact ⟨label, index, name, n, m, k, vs, ws, hp.grows.within.trees n m hn,
      hp.left.completions i _ (fun ⟨j', hi'⟩ => h.left j' hi') hi,
      hp.right.completions j _ (fun ⟨i', hj'⟩ => h.right i' hj') hj⟩

/-- The step that holds the chain up has got its result. -/
theorem twins_withStep (h : w.HeldUp v c b i j) {s t : Completion Resolution Resumption Empty}
    (hst : b.Completions s t) :
    World.Twins { w with completions := w.completions.set i s }
      { v with completions := v.completions.set j t } c true (b.withStep i j) := by
  have ht := h.twins
  obtain ⟨label, index, name, n, m, k, vs, ws, hn, hi, hj⟩ := h.waiting
  have hlt := (List.getElem?_eq_some_iff.mp hi).1
  have hlt' := (List.getElem?_eq_some_iff.mp hj).1
  refine ⟨ht.trees, ht.trees_iff, fun i' j' hi' => ?_, fun k l k' l' hk hk' => ?_, ht.runs, ht.file,
    fun name => Bond.Stored.mono (b.within_withStep i j) (ht.stored name), ht.names, ht.openLoop,
    ht.threaded⟩
  · rcases hi' with hi' | ⟨rfl, rfl⟩
    · obtain ⟨s', t', hs', ht', hst'⟩ := ht.steps i' j' hi'
      have hne : i ≠ i' := by
        rintro rfl
        exact h.left j' hi'
      have hne' : j ≠ j' := by
        rintro rfl
        exact h.right i' hi'
      exact ⟨s', t', (List.getElem?_set_ne hne).trans hs', (List.getElem?_set_ne hne').trans ht',
        hst'.mono (b.within_withStep i j)⟩
    · exact ⟨s, t, List.getElem?_set_self hlt, List.getElem?_set_self hlt',
        hst.mono (b.within_withStep _ _)⟩
  · rcases hk with hk | ⟨rfl, rfl⟩ <;> rcases hk' with hk' | ⟨rfl, rfl⟩
    · exact ht.steps_iff k l k' l' hk hk'
    · exact ⟨fun heq => (h.left l (heq ▸ hk)).elim, fun heq => (h.right k (heq ▸ hk)).elim⟩
    · exact ⟨fun heq => (h.left l' (heq ▸ hk')).elim, fun heq => (h.right k' (heq ▸ hk')).elim⟩
    · simp

section Own

variable (hown : ∀ t ∈ c.steps, t.Own) (endpoints : Grammar.Endpoints) (standard : List (Metadata Attacher))
  (surroundings : Surroundings Attacher) (depth : Nat)
include hown

/-- The step that holds the chain up is resolved, and the chain goes on. -/
theorem resolve (h : w.HeldUp v c b i j) {r s : Resolution} (hrs : b.Results r s) :
    let host := Host.nested endpoints standard surroundings depth
    ∃ e, Passes c (b.withStep i j) w v e ((Pipeline.resolve host i r).result w).2
        ((Pipeline.resolve host j s).result v).2 ∧
      ((Pipeline.resolve host i r).result w).2.Rests ((Pipeline.resolve host j s).result v).2 c e := by
  intro host
  obtain ⟨label, index, name, n, m, k, vs, ws, hn, hi, hj⟩ := h.waiting
  have hd := b.within_withStep i j
  have hgo : RestsAfter c (b.withStep i j)
      (do
        tell (.resolved i r)
        goOn host ⟨c.left, index, .handle (.node n), .stored name (.callback k)⟩ r)
      (do
        tell (.resolved j s)
        goOn host ⟨c.right, index, .handle (.node m), .stored name (.callback k)⟩ s) :=
    .bind (.tell fun _ _ => .other (by cases hrs <;> rfl) rfl rfl) fun d _ _ hd' _ =>
      .goOn hown _ _ _ _ ((hd.trans hd').trees n m hn) (hrs.mono (hd.trans hd')) index
  have hresolve (u : World) (i : Nat) (k : Resumption) (r : Resolution) (vs : List Empty)
      (hi : u.completions[i]? = some ⟨label, .pending, [k], vs⟩) :
      (Pipeline.resolve host i r).result u = (do tell (.resolved i r); goOn host k r).result
        { u with completions := u.completions.set i ⟨label, .done r, [], vs⟩ } := by
    rw [Pipeline.resolve, result_bind_ok (result_completion hi)]
    have hone : [k].forM (fun k => goOn host k r) = goOn host k r := bind_pure_unit
    simp only [Completion.resolve, Action.ofOutcome, pure_bind, hone]
    rfl
  rw [hresolve w i _ r vs hi, hresolve v j _ s ws hj]
  obtain ⟨e, hp, hr⟩ := hgo _ (.refl _) _ _ (h.twins_withStep (.done label vs ws hrs))
  exact ⟨e, Passes.trans (.setCompletion c w v (b.withStep_self i j) _ _) hp, hr⟩

/-- A result is passed on to the step that holds the chain up. -/
theorem next (h : w.HeldUp v c b i j) {error tree tree' : Value} (herror : error.Closed)
    (htree : b.Given tree tree') :
    let host := Host.nested endpoints standard surroundings depth
    ∃ e, Passes c (b.withStep i j) w v e ((Pipeline.next host i error tree).result w).2
        ((Pipeline.next host j error tree').result v).2 ∧
      ((Pipeline.next host i error tree).result w).2.Rests ((Pipeline.next host j error tree').result v).2
        c e := by
  intro host
  obtain ⟨label, _, _, _, _, _, vs, ws, -, hi, hj⟩ := h.waiting
  have hfails (u : World) (i : Nat) (tree : Value) {s : Completion Resolution Resumption Empty}
      (hi : u.completions[i]? = some s) {f : Fault} (hf : u.passedError error = .error f) :
      (Pipeline.next host i error tree).result u = (.error f, u) := by
    rw [Pipeline.next, result_bind_ok (result_completion hi), result_get_bind, result_bind,
      result_ofOutcome, hf]
  have hpasses (u : World) (i : Nat) (tree : Value) {s : Completion Resolution Resumption Empty}
      (hi : u.completions[i]? = some s) {passed : Value} (hpassed : u.passedError error = .ok passed) :
      (Pipeline.next host i error tree).result u =
        (Action.share tree >>= fun t => Pipeline.resolve host i (.ofCall s.label passed t)).result u := by
    rw [Pipeline.next, result_bind_ok (result_completion hi), result_get_bind, result_bind,
      result_ofOutcome, hpassed]
  have hsame := World.passedError_closed herror w v
  cases hv : v.passedError error with
  | error f =>
    rw [hfails w i tree hi (hsame.trans hv), hfails v j tree' hj hv]
    exact ⟨_, .refl c _ w v, .held h⟩
  | ok passed =>
    obtain ⟨e, hp, hheld, -, ho⟩ := h.mirrors (.share htree)
    rw [hpasses w i tree hi (hsame.trans hv), hpasses v j tree' hj hv, result_bind, result_bind]
    generalize (Action.share tree).result w = left at hp hheld ho
    generalize (Action.share tree').result v = right at hp hheld ho
    obtain ⟨o, w'⟩ := left
    obtain ⟨o', v'⟩ := right
    dsimp only at hp hheld ho
    cases ho with
    | error f => exact ⟨_, hp, .held hheld⟩
    | ok ha =>
      obtain ⟨e', hp', hr⟩ := hheld.resolve hown endpoints standard surroundings depth (ha.ofCall label passed)
      exact ⟨e', hp.trans hp', hr⟩

end Own

end World.HeldUp

namespace World.Rests

variable {c : Couple} {b : Bond} {w v : World}

/-- A result is passed on to a step of a chain that rests. -/
theorem next (hown : ∀ t ∈ c.steps, t.Own) (endpoints : Grammar.Endpoints)
    (standard : List (Metadata Attacher)) (surroundings : Surroundings Attacher) (depth : Nat)
    (h : w.Rests v c b) {i j : Nat} (hi : b.steps i j) {error tree tree' : Value} (herror : error.Closed)
    (htree : b.Given tree tree') :
    let host := Host.nested endpoints standard surroundings depth
    ∃ e, Passes c b w v e ((Pipeline.next host i error tree).result w).2
        ((Pipeline.next host j error tree').result v).2 ∧
      ((Pipeline.next host i error tree).result w).2.Rests ((Pipeline.next host j error tree').result v).2
        c e := by
  intro host
  cases h with
  | idle h =>
    have hmirrors : Mirrors c false false b Same (Pipeline.next host i error tree)
        (Pipeline.next host j error tree') := .next hi herror htree
    obtain ⟨e, hp, ht, -⟩ := hmirrors b (.refl b) w v h
    exact ⟨e, hp, .idle ht⟩
  | @held b i₀ j₀ h =>
    have hgiven : b.Given tree tree' := htree.of_withStep
    rcases hi with hi | ⟨rfl, rfl⟩
    · obtain ⟨e, hp, hheld, -⟩ := h.mirrors (.next hi herror hgiven)
      exact ⟨_, hp, .held hheld⟩
    · exact h.next hown endpoints standard surroundings depth herror hgiven

end World.Rests

/-! ### What others do meanwhile -/

/-- What belongs to a chain in the first of two worlds was left alone since an earlier world. -/
structure World.Leaves (w u : World) (c : Couple) (b : Bond) : Prop where
  trees : ∀ n m, b.trees n m → ∀ t : Node, w.store.cells[n]? = some (.node t) →
    u.store.cells[n]? = some (.node t)
  steps : ∀ i j, b.steps i j → u.completions[i]? = w.completions[i]?
  run : u.runs[c.left]? = w.runs[c.left]?
  file : u.files[c.file]? = w.files[c.file]?
  names : u.names = w.names
  openLoop : u.openLoop = w.openLoop
  threaded : u.threaded = w.threaded

theorem World.Twins.leaves {w v u : World} {c : Couple} {p : Bool} {b : Bond} (h : w.Twins v c p b)
    (hu : w.Leaves u c b) : u.Twins v c p b where
  trees n m hn := by
    obtain ⟨t, hc, hw, hv⟩ := h.trees n m hn
    exact ⟨t, hc, hu.trees n m hn t hw, hv⟩
  trees_iff := h.trees_iff
  steps i j hi := by
    rw [hu.steps i j hi]
    exact h.steps i j hi
  steps_iff := h.steps_iff
  runs := by
    rw [hu.run]
    exact h.runs
  file hp := hu.file.trans (h.file hp)
  stored name := by
    have hfile : u.treeOf c.file name = w.treeOf c.file name := by
      rw [treeOf, treeOf, List.getD_eq_getElem?_getD, List.getD_eq_getElem?_getD, hu.file]
    rw [hfile]
    exact h.stored name
  names := hu.names.trans h.names
  openLoop := hu.openLoop.trans h.openLoop
  threaded := hu.threaded.trans h.threaded

/-- A chain goes on resting where others leave alone what belongs to it. -/
theorem World.Rests.leaves {w v u : World} {c : Couple} {b : Bond} (h : w.Rests v c b)
    (hu : w.Leaves u c b) : u.Rests v c b := by
  cases h with
  | idle h => exact .idle (h.leaves hu)
  | held h =>
    refine .held ⟨h.twins.leaves ⟨hu.trees, fun i j hi => hu.steps i j (.inl hi), hu.run, hu.file, hu.names,
      hu.openLoop, hu.threaded⟩, h.left, h.right, ?_⟩
    rw [hu.steps _ _ (Bond.withStep_self _ _ _)]
    exact h.waiting

/-! ### The start of a run -/

/-- One tree that has the same number in both worlds, and no step. -/
def Bond.single (n : Nat) : Bond := ⟨fun k l => k = n ∧ l = n, fun _ _ => False⟩

/-- A run can start in the same way in two worlds: its tree and its file are the same. -/
structure World.Starts (w v : World) (file n : Nat) : Prop where
  tree : ∃ t : Node, (Value.node t).Closed ∧ w.store.cells[n]? = some (.node t) ∧
    v.store.cells[n]? = some (.node t)
  files : w.files[file]? = v.files[file]?
  stored : ∀ name u, w.treeOf file name = some u → u.Closed ∨ u = .handle (.node n)
  names : w.names = v.names
  openLoop : w.openLoop = v.openLoop
  threaded : w.threaded = v.threaded

section Start

variable {w v : World} {file n : Nat} (h : w.Starts v file n) (steps : List Transformer)
  (watcher : Option Watcher)
include h

theorem World.Starts.twins :
    (w.starting steps watcher (.handle (.node n)) file).Twins
      (v.starting steps watcher (.handle (.node n)) file) ⟨w.runs.length, v.runs.length, file, steps⟩ true
      (.single n) where
  trees := by
    rintro _ _ ⟨rfl, rfl⟩
    exact h.tree
  trees_iff := by
    rintro _ _ _ _ ⟨rfl, rfl⟩ ⟨rfl, rfl⟩
    simp
  steps _ _ hi := hi.elim
  steps_iff _ _ _ _ hi := hi.elim
  runs := by
    refine ⟨w.nextRun steps watcher (.handle (.node n)) file, v.nextRun steps watcher (.handle (.node n)) file,
      List.getElem?_concat_length, List.getElem?_concat_length, rfl, rfl, rfl, rfl, rfl, ?_⟩
    show w.runningLoop = v.runningLoop
    rw [World.runningLoop, World.runningLoop, h.threaded, h.openLoop]
  file _ := h.files
  stored name := by
    have hsame : v.treeOf file name = w.treeOf file name := by
      rw [World.treeOf, World.treeOf, List.getD_eq_getElem?_getD, List.getD_eq_getElem?_getD, h.files]
    show (Bond.single n).Stored (w.treeOf file name) (v.treeOf file name)
    rw [hsame]
    cases hu : w.treeOf file name with
    | none => exact .none
    | some u =>
      rcases h.stored name u hu with hc | rfl
      · exact .some (.closed hc)
      · exact .some (.tree ⟨rfl, rfl⟩)
  names := h.names
  openLoop := h.openLoop
  threaded := h.threaded

omit h in
theorem World.frame_starting (w : World) (trees steps' : Nat → Prop) (tree : Value) :
    w.Frame (w.starting steps watcher tree file) trees steps' w.runs.length file where
  cells _ _ _ hn := hn
  cells_le := Nat.le_refl _
  completions _ _ _ hi := hi
  completions_le := Nat.le_refl _
  runs r hr := by
    show (w.runs ++ [w.nextRun steps watcher tree file])[r]? = w.runs[r]?
    rcases Nat.lt_or_gt_of_ne hr with hlt | hgt
    · exact List.getElem?_append_left hlt
    · rw [List.getElem?_eq_none (Nat.le_of_lt hgt), List.getElem?_eq_none (by simp; omega)]
  files _ _ := rfl
  processors := rfl
  names := rfl
  openLoop := rfl
  threaded := rfl

/-- A run that is started goes as far as it can in the same way in both worlds. -/
theorem World.Starts.start {steps : List Transformer} (hown : ∀ t ∈ steps, t.Own)
    (host : Host) (name : String) (k : Callback) :
    let x := Pipeline.start host steps watcher (.handle (.node n)) file (.stored name (.callback k))
    let c : Couple := ⟨w.runs.length, v.runs.length, file, steps⟩
    ∃ e, Passes c (.single n) w v e (x.result w).2 (x.result v).2 ∧ (x.result w).2.Rests (x.result v).2 c e := by
  intro x c
  have hstarting : Passes c (.single n) w v (.single n) (w.starting steps watcher (.handle (.node n)) file)
      (v.starting steps watcher (.handle (.node n)) file) :=
    ⟨⟨.refl _, fun _ _ => .inl, fun _ _ => .inl⟩, w.frame_starting steps watcher _ _ _,
      v.frame_starting steps watcher _ _ _, [_], [_], rfl, rfl, .cons (.other rfl rfl rfl) .nil⟩
  have hx (u : World) : (x.result u).2 = ((drive host u.runs.length (.stored name (.callback k)) false steps 0
      (.handle (.node n))).result (u.starting steps watcher (.handle (.node n)) file)).2 := by
    rw [show x.result u = _ from result_start host steps watcher (.handle (.node n)) file _ u]
  rw [hx, hx]
  have hdrive : RestsAfter c (.single n)
      (drive host w.runs.length (.stored name (.callback k)) false steps 0 (.handle (.node n)))
      (drive host v.runs.length (.stored name (.callback k)) false steps 0 (.handle (.node n))) :=
    .drive hown (b := .single n) ⟨rfl, rfl⟩ 0
  obtain ⟨e, hp, hr⟩ := hdrive _ (.refl _) _ _ (h.twins steps watcher)
  exact ⟨e, hstarting.trans hp, hr⟩

end Start

/-- The world after a run with a callback is the one after its chain was started. -/
theorem runOn_world {host : Host} {w : World} {p file : Nat} {q : Processor} {tree first : Value}
    (hq : w.processors[p]? = some q) (hfirst : (startTree file q.name tree).result w = (.ok first, w))
    (k : Callback) (watcher : Option Watcher) :
    ((runOn host (.handle (.processor p)) tree (.handle (.file file)) (some k) watcher).result w).2 =
      ((start host q.registry.transformers watcher first file (.stored q.name (.callback k))).result w).2 := by
  have hstarted : (runTreeFor host p tree file watcher (.callback k)).result w =
      (start host q.registry.transformers watcher first file (.stored q.name (.callback k)) >>=
        fun r => pure (some r)).result w := by
    rw [runTreeFor, result_bind_ok (result_processor hq), result_bind_ok (result_attempt _ w), hfirst]
  show ((runTreeFor host p tree file watcher (.callback k) >>= _ : Action Value).result w).2 = _
  rw [result_bind, hstarted, result_bind]
  generalize (start host q.registry.transformers watcher first file _).result w = done
  obtain ⟨o, v⟩ := done
  cases o with
  | error f => rfl
  | ok r =>
    exact Reads.bind (.run r) (fun _ => .pure _) v

end Pipeline

end TextPipeline
