import Mathlib.Data.List.Forall2
import TextPipeline.Proofs.Attaching
import TextPipeline.Proofs.Closed
import TextPipeline.Proofs.Storing
import TextPipeline.Proofs.Stretch

/-! One chain in two worlds. Its number, its trees and its completions may have other numbers in the one
world than in the other; what is kept of its trees and steps is the same, and so is its file. Actions
that mirror each other come to the same in two such worlds, tell of the same, and leave two such worlds;
and neither of them touches anything but what belongs to the chain. -/

namespace TextPipeline.Pipeline

open TextPipeline.Transform
open TextPipeline.Pipeline.Action

/-- A chain in two worlds: its number in each of them, its file and its steps. -/
structure Couple where
  left : Nat
  right : Nat
  file : Nat
  steps : List Transformer

/-- The records of a chain in two worlds say the same. -/
structure Couple.Records (c : Couple) (x y : Run) : Prop where
  file_left : x.file = c.file
  file_right : y.file = c.file
  steps_left : x.steps = c.steps
  steps_right : y.steps = c.steps
  watcher : x.watcher = y.watcher
  loop : x.loop = y.loop

/-- Which trees and which steps of a chain in two worlds stand for one another, by number. -/
@[ext]
structure Bond where
  trees : Nat → Nat → Prop
  steps : Nat → Nat → Prop

/-! ### What stands for one another -/

namespace Bond

/-- A bond that holds at least as much. -/
structure Within (b d : Bond) : Prop where
  trees : ∀ n m, b.trees n m → d.trees n m
  steps : ∀ i j, b.steps i j → d.steps i j

theorem Within.refl (b : Bond) : b.Within b := ⟨fun _ _ => id, fun _ _ => id⟩

theorem Within.trans {b d e : Bond} (h : b.Within d) (h' : d.Within e) : b.Within e :=
  ⟨fun n m hn => h'.trees n m (h.trees n m hn), fun i j hi => h'.steps i j (h.steps i j hi)⟩

/-- Values that can be used in several places and stand for one another. Of what is no tree only the
type matters. -/
inductive Alike (b : Bond) : Value → Value → Prop
  | same {v : Value} (h : v.isNode = false) : Alike b v v
  | tree {n m : Nat} (h : b.trees n m) : Alike b (.handle (.node n)) (.handle (.node m))
  | list (n m : Nat) : Alike b (.handle (.list n)) (.handle (.list m))
  | dict (n m : Nat) : Alike b (.handle (.dict n)) (.handle (.dict m))
  | tuple (vs ws : List Value) : Alike b (.tuple vs) (.tuple ws)

/-- Values that come from outside: the same one that refers to nothing, or trees of the chain. -/
inductive Given (b : Bond) : Value → Value → Prop
  | closed {v : Value} (h : v.Closed) : Given b v v
  | tree {n m : Nat} (h : b.trees n m) : Given b (.handle (.node n)) (.handle (.node m))

/-- Trees that are stored, if any are. -/
abbrev Stored (b : Bond) : Option Value → Option Value → Prop := Option.Rel b.Given

/-- Results of a step. -/
inductive Results (b : Bond) : Resolution → Resolution → Prop
  | plain (error : Option Fault) : Results b ⟨error, none⟩ ⟨error, none⟩
  | tree {n m : Nat} (h : b.trees n m) :
    Results b ⟨none, some (.handle (.node n))⟩ ⟨none, some (.handle (.node m))⟩

/-- Completions of a step for which nobody waits. -/
inductive Completions (b : Bond) : Completion Resolution Resumption Empty →
    Completion Resolution Resumption Empty → Prop
  | pending (label : String) (vs ws : List Empty) :
    Completions b ⟨label, .pending, [], vs⟩ ⟨label, .pending, [], ws⟩
  | done (label : String) (vs ws : List Empty) {r s : Resolution} (h : b.Results r s) :
    Completions b ⟨label, .done r, [], vs⟩ ⟨label, .done s, [], ws⟩

end Bond

/-- An event without the numbers and the names of objects, which are other ones in another world. -/
def Event.unnumbered : Event → Event
  | .called _ a => .called 0 { a with tree := .none, completion := 0 }
  | .resolved _ r => .resolved 0 { r with tree := r.tree.map fun _ => .none }
  | .delivered _ error _ => .delivered 0 error .none
  | .produced name file _ => .produced name file .none
  | .ran error tree _ names => .ran error tree [] names
  | e => e

/-- Whether an event tells that a step of a chain is called, or that a chain has come to its end. -/
def Event.ofCourse : Event → Bool
  | .called .. | .delivered .. => true
  | _ => false

/-- Events of a chain in two worlds that stand for one another. -/
inductive Bond.Events (b : Bond) (c : Couple) : Event → Event → Prop
  | called (index : Nat) (step : Transformer) (seen : View) {n m i j : Nat} (hn : b.trees n m)
    (hi : b.steps i j) :
    Events b c (.called c.left ⟨index, step, .handle (.node n), seen, i⟩)
      (.called c.right ⟨index, step, .handle (.node m), seen, j⟩)
  | delivered (error : Option Fault) {n m : Nat} (hn : b.trees n m) :
    Events b c (.delivered c.left error (.handle (.node n))) (.delivered c.right error (.handle (.node m)))
  | other {e e' : Event} (h : e.unnumbered = e'.unnumbered) (hc : e.ofCourse = false)
    (hc' : e'.ofCourse = false) : Events b c e e'

namespace Bond

variable {b d : Bond} (h : b.Within d)
include h

theorem Alike.mono {v w : Value} (hv : b.Alike v w) : d.Alike v w := by
  cases hv with
  | same hn => exact .same hn
  | tree hn => exact .tree (h.trees _ _ hn)
  | list n m => exact .list n m
  | dict n m => exact .dict n m
  | tuple vs ws => exact .tuple vs ws

theorem Given.mono {v w : Value} (hv : b.Given v w) : d.Given v w := by
  cases hv with
  | closed hc => exact .closed hc
  | tree hn => exact .tree (h.trees _ _ hn)

theorem Stored.mono {v w : Option Value} (hv : b.Stored v w) : d.Stored v w := by
  cases hv with
  | none => exact .none
  | some hv => exact .some (hv.mono h)

theorem Results.mono {r s : Resolution} (hr : b.Results r s) : d.Results r s := by
  cases hr with
  | plain error => exact .plain error
  | tree hn => exact .tree (h.trees _ _ hn)

theorem Completions.mono {s t : Completion Resolution Resumption Empty} (hs : b.Completions s t) :
    d.Completions s t := by
  cases hs with
  | pending label vs ws => exact .pending label vs ws
  | done label vs ws hr => exact .done label vs ws (hr.mono h)

theorem Events.mono {c : Couple} {e e' : Event} (he : b.Events c e e') : d.Events c e e' := by
  cases he with
  | called index step seen hn hi => exact .called index step seen (h.trees _ _ hn) (h.steps _ _ hi)
  | delivered error hn => exact .delivered error (h.trees _ _ hn)
  | other hu hc hc' => exact .other hu hc hc'

end Bond

/-! ### Two worlds -/

namespace World

/-- Two worlds in which a chain stands at the same point and nobody waits for any of its steps. While it
is `busy`, its file is the same in both; in the end only the trees that are stored there stand for one
another. -/
structure Twins (w v : World) (c : Couple) (busy : Bool) (b : Bond) : Prop where
  trees : ∀ n m, b.trees n m → ∃ t : Node, (Value.node t).Closed ∧
    w.store.cells[n]? = some (.node t) ∧ v.store.cells[m]? = some (.node t)
  trees_iff : ∀ n m n' m', b.trees n m → b.trees n' m' → (n = n' ↔ m = m')
  steps : ∀ i j, b.steps i j → ∃ s t, w.completions[i]? = some s ∧ v.completions[j]? = some t ∧
    b.Completions s t
  steps_iff : ∀ i j i' j', b.steps i j → b.steps i' j' → (i = i' ↔ j = j')
  runs : ∃ x y : Run, w.runs[c.left]? = some x ∧ v.runs[c.right]? = some y ∧ c.Records x y
  file : busy = true → w.files[c.file]? = v.files[c.file]?
  stored : ∀ name, b.Stored (w.treeOf c.file name) (v.treeOf c.file name)
  names : w.names = v.names
  openLoop : w.openLoop = v.openLoop
  threaded : w.threaded = v.threaded

/-- Nothing has changed since an earlier world but some trees, some steps, a run and a file, and what is
new. -/
structure Frame (w v : World) (trees steps : Nat → Prop) (run file : Nat) : Prop where
  cells : ∀ n u, ¬trees n → w.store.cells[n]? = some u → v.store.cells[n]? = some u
  cells_le : w.store.cells.length ≤ v.store.cells.length
  completions : ∀ i s, ¬steps i → w.completions[i]? = some s → v.completions[i]? = some s
  completions_le : w.completions.length ≤ v.completions.length
  runs : ∀ r, r ≠ run → v.runs[r]? = w.runs[r]?
  files : ∀ f, f ≠ file → v.files[f]? = w.files[f]?
  processors : v.processors = w.processors
  names : v.names = w.names
  openLoop : v.openLoop = w.openLoop
  threaded : v.threaded = w.threaded

end World

/-- What is new in a bond is new in both worlds. -/
structure Bond.Grows (b d : Bond) (w v : World) : Prop where
  within : b.Within d
  trees : ∀ n m, d.trees n m → b.trees n m ∨ w.store.cells.length ≤ n ∧ v.store.cells.length ≤ m
  steps : ∀ i j, d.steps i j → b.steps i j ∨ w.completions.length ≤ i ∧ v.completions.length ≤ j

/-- How the two worlds of a chain go on: what belongs to it may change, and the same is told. -/
structure Passes (c : Couple) (b : Bond) (w v : World) (d : Bond) (w' v' : World) : Prop where
  grows : b.Grows d w v
  left : w.Frame w' (fun n => ∃ m, b.trees n m) (fun i => ∃ j, b.steps i j) c.left c.file
  right : v.Frame v' (fun m => ∃ n, b.trees n m) (fun j => ∃ i, b.steps i j) c.right c.file
  events : ∃ es fs, w'.events = w.events ++ es ∧ v'.events = v.events ++ fs ∧
    List.Forall₂ (d.Events c) es fs

theorem World.Frame.refl (w : World) (trees steps : Nat → Prop) (run file : Nat) :
    w.Frame w trees steps run file :=
  ⟨fun _ _ _ => id, Nat.le_refl _, fun _ _ _ => id, Nat.le_refl _, fun _ _ => rfl, fun _ _ => rfl, rfl,
    rfl, rfl, rfl⟩

/-- What was not touched at first is not touched afterwards if only what is new is touched as well. -/
theorem World.Frame.trans {w v u : World} {trees steps trees' steps' : Nat → Prop} {run file : Nat}
    (h : w.Frame v trees steps run file) (h' : v.Frame u trees' steps' run file)
    (htrees : ∀ n, trees' n → trees n ∨ w.store.cells.length ≤ n)
    (hsteps : ∀ i, steps' i → steps i ∨ w.completions.length ≤ i) : w.Frame u trees steps run file where
  cells n t hn ht := by
    refine h'.cells n t (fun hn' => ?_) (h.cells n t hn ht)
    have hlt := (List.getElem?_eq_some_iff.mp ht).1
    rcases htrees n hn' with hn' | hle
    · exact hn hn'
    · omega
  cells_le := Nat.le_trans h.cells_le h'.cells_le
  completions i s hi hs := by
    refine h'.completions i s (fun hi' => ?_) (h.completions i s hi hs)
    have hlt := (List.getElem?_eq_some_iff.mp hs).1
    rcases hsteps i hi' with hi' | hle
    · exact hi hi'
    · omega
  completions_le := Nat.le_trans h.completions_le h'.completions_le
  runs r hr := (h'.runs r hr).trans (h.runs r hr)
  files f hf := (h'.files f hf).trans (h.files f hf)
  processors := h'.processors.trans h.processors
  names := h'.names.trans h.names
  openLoop := h'.openLoop.trans h.openLoop
  threaded := h'.threaded.trans h.threaded

namespace Passes

variable {c : Couple} {b d e : Bond} {w v w' v' w'' v'' : World}

theorem refl (c : Couple) (b : Bond) (w v : World) : Passes c b w v b w v :=
  ⟨⟨.refl b, fun _ _ => .inl, fun _ _ => .inl⟩, .refl _ _ _ _ _, .refl _ _ _ _ _,
    [], [], by simp, by simp, .nil⟩

theorem trans (h : Passes c b w v d w' v') (h' : Passes c d w' v' e w'' v'') :
    Passes c b w v e w'' v'' where
  grows := by
    refine ⟨h.grows.within.trans h'.grows.within, fun n m hn => ?_, fun i j hi => ?_⟩
    · rcases h'.grows.trees n m hn with hn | ⟨hn, hm⟩
      · exact h.grows.trees n m hn
      · exact .inr ⟨Nat.le_trans h.left.cells_le hn, Nat.le_trans h.right.cells_le hm⟩
    · rcases h'.grows.steps i j hi with hi | ⟨hi, hj⟩
      · exact h.grows.steps i j hi
      · exact .inr ⟨Nat.le_trans h.left.completions_le hi, Nat.le_trans h.right.completions_le hj⟩
  left := h.left.trans h'.left
    (fun n ⟨m, hn⟩ => (h.grows.trees n m hn).imp (fun hn => ⟨m, hn⟩) And.left)
    (fun i ⟨j, hi⟩ => (h.grows.steps i j hi).imp (fun hi => ⟨j, hi⟩) And.left)
  right := h.right.trans h'.right
    (fun m ⟨n, hn⟩ => (h.grows.trees n m hn).imp (fun hn => ⟨n, hn⟩) And.right)
    (fun j ⟨i, hi⟩ => (h.grows.steps i j hi).imp (fun hi => ⟨i, hi⟩) And.right)
  events := by
    obtain ⟨es, fs, hw, hv, hes⟩ := h.events
    obtain ⟨es', fs', hw', hv', hes'⟩ := h'.events
    refine ⟨es ++ es', fs ++ fs', by rw [hw', hw, List.append_assoc], by rw [hv', hv, List.append_assoc],
      ?_⟩
    exact List.rel_append (hes.imp fun _ _ he => he.mono h'.grows.within) hes'

end Passes

/-! ### Actions -/

/-- Outcomes that are the same fault, or values that stand for one another. -/
inductive Outcomes {α β : Type} (R : α → β → Prop) : Outcome α → Outcome β → Prop
  | ok {a : α} {a' : β} (h : R a a') : Outcomes R (.ok a) (.ok a')
  | error (f : Fault) : Outcomes R (.error f) (.error f)

/-- Two actions that do the same for a chain in two worlds, from a point where it may be busy to one where
it may be. -/
def Mirrors {α β : Type} (c : Couple) (p q : Bool) (b : Bond) (A : Bond → α → β → Prop) (x : Action α)
    (y : Action β) : Prop :=
  ∀ d, b.Within d → ∀ w v : World, w.Twins v c p d →
    ∃ e, Passes c d w v e (x.result w).2 (y.result v).2 ∧ (x.result w).2.Twins (y.result v).2 c q e ∧
      Outcomes (A e) (x.result w).1 (y.result v).1

/-- The same value in both worlds. -/
def Same {α : Type} (_ : Bond) (a a' : α) : Prop := a = a'

theorem World.Twins.idle {w v : World} {c : Couple} {p : Bool} {b : Bond} (h : w.Twins v c p b) :
    w.Twins v c false b :=
  ⟨h.trees, h.trees_iff, h.steps, h.steps_iff, h.runs, nofun, h.stored, h.names, h.openLoop, h.threaded⟩

namespace Mirrors

variable {α β γ δ : Type} {c : Couple} {p q r : Bool} {b : Bond}

/-- A bond that holds more allows what one allows that holds less. -/
theorem within {A : Bond → α → β → Prop} {x : Action α} {y : Action β} (h : Mirrors c p q b A x y)
    {d : Bond} (hd : b.Within d) : Mirrors c p q d A x y := fun e he => h e (hd.trans he)

theorem pure {A : Bond → α → β → Prop} {a : α} {a' : β} (h : ∀ d, b.Within d → A d a a') :
    Mirrors c p p b A (pure a) (pure a') := fun d hd w v ht =>
  ⟨d, .refl c d w v, ht, .ok (h d hd)⟩

theorem throw {A : Bond → α → β → Prop} (f : Fault) : Mirrors c p p b A (throw f) (throw f) :=
  fun d _ w v ht => ⟨d, .refl c d w v, ht, .error f⟩

/-- Actions after one another. What the first ones leave if they fail must be what both leave. -/
theorem bind_of {A : Bond → α → β → Prop} {B : Bond → γ → δ → Prop} {x : Action α} {y : Action β}
    {f : α → Action γ} {g : β → Action δ} (hqr : r = true → q = true) (hx : Mirrors c p q b A x y)
    (hf : ∀ d a a', b.Within d → A d a a' → Mirrors c q r d B (f a) (g a')) :
    Mirrors c p r b B (x >>= f) (y >>= g) := fun d hd w v ht => by
  obtain ⟨e, hp, hq, ho⟩ := hx d hd w v ht
  rw [result_bind, result_bind]
  generalize x.result w = left at hp hq ho
  generalize y.result v = right at hp hq ho
  obtain ⟨o, w'⟩ := left
  obtain ⟨o', v'⟩ := right
  dsimp only at hp hq ho
  cases ho with
  | error f =>
    refine ⟨e, hp, ?_, .error f⟩
    cases r with
    | false => exact hq.idle
    | true => exact hqr rfl ▸ hq
  | ok ha =>
    obtain ⟨e', hp', hq', ho'⟩ := hf e _ _ (hd.trans hp.grows.within) ha e (.refl e) w' v' hq
    exact ⟨e', hp.trans hp', hq', ho'⟩

theorem bind {A : Bond → α → β → Prop} {B : Bond → γ → δ → Prop} {x : Action α} {y : Action β}
    {f : α → Action γ} {g : β → Action δ} (hx : Mirrors c p p b A x y)
    (hf : ∀ d a a', b.Within d → A d a a' → Mirrors c p p d B (f a) (g a')) :
    Mirrors c p p b B (x >>= f) (y >>= g) := bind_of id hx hf

theorem attempt {A : Bond → α → β → Prop} {x : Action α} {y : Action β} (h : Mirrors c p q b A x y) :
    Mirrors c p q b (fun d => Outcomes (A d)) (attempt x) (attempt y) := fun d hd w v ht => by
  obtain ⟨e, hp, hq, ho⟩ := h d hd w v ht
  exact ⟨e, hp, hq, .ok ho⟩

/-- Actions that depend on what is read, which changes nothing. -/
theorem read {B : Bond → γ → δ → Prop} {x : Action α} {y : Action β} {f : α → Action γ}
    {g : β → Action δ} (h : ∀ d, b.Within d → ∀ w v : World, w.Twins v c p d →
      ∃ a a', x.result w = (.ok a, w) ∧ y.result v = (.ok a', v) ∧ Mirrors c p q d B (f a) (g a')) :
    Mirrors c p q b B (x >>= f) (y >>= g) := fun d hd w v ht => by
  obtain ⟨a, a', hx, hy, hf⟩ := h d hd w v ht
  rw [result_bind_ok hx, result_bind_ok hy]
  exact hf d (.refl d) w v ht

theorem get {B : Bond → γ → δ → Prop} {f : World → Action γ} {g : World → Action δ}
    (h : ∀ d, b.Within d → ∀ w v : World, w.Twins v c p d → Mirrors c p q d B (f w) (g v)) :
    Mirrors c p q b B (get >>= f) (get >>= g) :=
  read fun d hd w v ht => ⟨w, v, rfl, rfl, h d hd w v ht⟩

theorem ite {A : Bond → α → β → Prop} {k : Prop} [Decidable k] {x x' : Action α} {y y' : Action β}
    (hx : Mirrors c p q b A x y) (hx' : Mirrors c p q b A x' y') :
    Mirrors c p q b A (if k then x else x') (if k then y else y') := by
  split
  · exact hx
  · exact hx'

theorem forM {f : γ → Action PUnit} {g : γ → Action PUnit}
    (h : ∀ a, Mirrors c p p b Same (f a) (g a)) (l : List γ) :
    Mirrors c p p b Same (l.forM f) (l.forM g) := by
  induction l with
  | nil => exact pure fun _ _ => rfl
  | cons a l ih => exact bind (h a) fun d _ _ hd _ => ih.within hd

theorem ofOutcome {A : Bond → α → β → Prop} {o : Outcome α} {o' : Outcome β}
    (h : ∀ d, b.Within d → Outcomes (A d) o o') : Mirrors c p p b A (ofOutcome o) (ofOutcome o') :=
  fun d hd w v ht => by
    rw [result_ofOutcome, result_ofOutcome]
    exact ⟨d, .refl c d w v, ht, h d hd⟩

theorem require (holds : Bool) (f : Fault) :
    Mirrors c p p b Same (require holds f) (require holds f) :=
  ite (pure fun _ _ => rfl) (throw f)

theorem raise (f : Option Fault) : Mirrors c p p b Same (raise f) (raise f) := by
  cases f with
  | none => exact pure fun _ _ => rfl
  | some f => exact throw f

theorem idle {A : Bond → α → β → Prop} {x : Action α} {y : Action β} (h : Mirrors c p q b A x y) :
    Mirrors c p false b A x y := fun d hd w v ht => by
  obtain ⟨e, hp, hq, ho⟩ := h d hd w v ht
  exact ⟨e, hp, hq.idle, ho⟩

end Mirrors

theorem Outcomes.same {α : Type} (b : Bond) (o : Outcome α) : Outcomes (Same b) o o := by
  cases o with
  | ok a => exact .ok rfl
  | error f => exact .error f

/-! ### Changes of the two worlds -/

/-- Nothing of what chains work on has changed, and events were told. -/
structure World.Still (w v : World) (es : List Event) : Prop where
  store : v.store = w.store
  files : v.files = w.files
  completions : v.completions = w.completions
  runs : v.runs = w.runs
  processors : v.processors = w.processors
  names : v.names = w.names
  openLoop : v.openLoop = w.openLoop
  threaded : v.threaded = w.threaded
  events : v.events = w.events ++ es

theorem World.Still.frame {w v : World} {es : List Event} (h : w.Still v es) (trees steps : Nat → Prop)
    (run file : Nat) : w.Frame v trees steps run file where
  cells _ _ _ hn := by rw [h.store]; exact hn
  cells_le := by rw [h.store]
  completions _ _ _ hi := by rw [h.completions]; exact hi
  completions_le := by rw [h.completions]
  runs _ _ := by rw [h.runs]
  files _ _ := by rw [h.files]
  processors := h.processors
  names := h.names
  openLoop := h.openLoop
  threaded := h.threaded

namespace World.Twins

variable {c : Couple} {p : Bool} {b : Bond} {w v : World}

theorem still (h : w.Twins v c p b) {w' v' : World} {es fs : List Event} (hw : w.Still w' es)
    (hv : v.Still v' fs) (he : List.Forall₂ (b.Events c) es fs) :
    Passes c b w v b w' v' ∧ w'.Twins v' c p b := by
  refine ⟨⟨⟨.refl b, fun _ _ => .inl, fun _ _ => .inl⟩, hw.frame _ _ _ _, hv.frame _ _ _ _,
    es, fs, hw.events, hv.events, he⟩, ?_⟩
  constructor
  · rw [hw.store, hv.store]; exact h.trees
  · exact h.trees_iff
  · rw [hw.completions, hv.completions]; exact h.steps
  · exact h.steps_iff
  · rw [hw.runs, hv.runs]; exact h.runs
  · rw [hw.files, hv.files]; exact h.file
  · intro name
    rw [treeOf, treeOf, hw.files, hv.files]
    exact h.stored name
  · rw [hw.names, hv.names]; exact h.names
  · rw [hw.openLoop, hv.openLoop]; exact h.openLoop
  · rw [hw.threaded, hv.threaded]; exact h.threaded

end World.Twins

namespace Mirrors

variable {α β : Type} {c : Couple} {p : Bool} {b : Bond}

/-- Actions that only tell of the same. -/
theorem still {A : Bond → α → β → Prop} {x : Action α} {y : Action β}
    (h : ∀ d, b.Within d → ∀ w v : World, w.Twins v c p d → ∃ es fs, w.Still (x.result w).2 es ∧
      v.Still (y.result v).2 fs ∧ List.Forall₂ (d.Events c) es fs ∧
      Outcomes (A d) (x.result w).1 (y.result v).1) : Mirrors c p p b A x y := fun d hd w v ht => by
  obtain ⟨es, fs, hw, hv, he, ho⟩ := h d hd w v ht
  obtain ⟨hp, ht'⟩ := ht.still hw hv he
  exact ⟨d, hp, ht', ho⟩

theorem tell {e e' : Event} (h : ∀ d, b.Within d → d.Events c e e') :
    Mirrors c p p b Same (tell e) (tell e') := still fun d hd _ _ _ =>
  ⟨[e], [e'], ⟨rfl, rfl, rfl, rfl, rfl, rfl, rfl, rfl, rfl⟩, ⟨rfl, rfl, rfl, rfl, rfl, rfl, rfl, rfl, rfl⟩,
    .cons (h d hd) .nil, .ok rfl⟩

/-- The same is told of what is no call. -/
theorem tell_same {e : Event} (he : e.ofCourse = false) : Mirrors c p p b Same (Action.tell e) (Action.tell e) :=
  tell fun _ _ => .other rfl he he

theorem log (level : Level) (logger text : String) :
    Mirrors c p p b Same (log level logger text) (log level logger text) := tell_same rfl

theorem events_logs (d : Bond) (records : List LogRecord) :
    List.Forall₂ (d.Events c) (records.map .log) (records.map .log) := by
  induction records with
  | nil => exact .nil
  | cons record rest ih => exact .cons (.other rfl rfl rfl) ih

theorem ofLogged (x : Logged α) : Mirrors c p p b Same (ofLogged x) (ofLogged x) :=
  still fun d _ w v _ => by
    rw [result_logged, result_logged]
    exact ⟨_, _, ⟨rfl, rfl, rfl, rfl, rfl, rfl, rfl, rfl, rfl⟩, ⟨rfl, rfl, rfl, rfl, rfl, rfl, rfl, rfl, rfl⟩,
      events_logs d x.result.2, .same d _⟩

theorem emit (watcher : Option Watcher) (progress : Progress) :
    Mirrors c p p b Same (emit watcher progress) (emit watcher progress) := by
  cases watcher with
  | none => exact pure fun _ _ => rfl
  | some watcher => exact bind (tell_same rfl) fun _ _ _ _ _ => ofLogged _

/-- Work that is left on the loop is nothing that chains work on. -/
theorem enqueue (j j' : Job) : Mirrors c p p b Same (enqueue j) (enqueue j') := still fun _ _ _ _ _ =>
  ⟨[], [], ⟨rfl, rfl, rfl, rfl, rfl, rfl, rfl, rfl, (List.append_nil _).symm⟩,
    ⟨rfl, rfl, rfl, rfl, rfl, rfl, rfl, rfl, (List.append_nil _).symm⟩, .nil, .ok rfl⟩

end Mirrors

/-! ### What belongs to the chain -/

/-- A bond with one more pair of trees. -/
def Bond.withTree (b : Bond) (n m : Nat) : Bond :=
  { b with trees := fun n' m' => b.trees n' m' ∨ n' = n ∧ m' = m }

/-- A bond with one more pair of steps. -/
def Bond.withStep (b : Bond) (i j : Nat) : Bond :=
  { b with steps := fun i' j' => b.steps i' j' ∨ i' = i ∧ j' = j }

theorem Bond.within_withTree (b : Bond) (n m : Nat) : b.Within (b.withTree n m) :=
  ⟨fun _ _ => .inl, fun _ _ => id⟩

theorem Bond.within_withStep (b : Bond) (i j : Nat) : b.Within (b.withStep i j) :=
  ⟨fun _ _ => id, fun _ _ => .inl⟩

/-- Pairs that fix one another, and a new pair, do so together. -/
theorem pairs_iff {r : Nat → Nat → Prop} {k l : Nat}
    (h : ∀ n m n' m', r n m → r n' m' → (n = n' ↔ m = m')) (hk : ∀ n m, r n m → n < k)
    (hl : ∀ n m, r n m → m < l) (n m n' m' : Nat) (hn : r n m ∨ n = k ∧ m = l)
    (hn' : r n' m' ∨ n' = k ∧ m' = l) : n = n' ↔ m = m' := by
  rcases hn with hn | ⟨rfl, rfl⟩ <;> rcases hn' with hn' | ⟨rfl, rfl⟩
  · exact h n m n' m' hn hn'
  · have := hk n m hn
    have := hl n m hn
    omega
  · have := hk n' m' hn'
    have := hl n' m' hn'
    omega
  · simp

theorem World.frame_withKept (w : World) (kept : List Value) (trees steps : Nat → Prop)
    (run file : Nat) : w.Frame (w.withKept kept) trees steps run file where
  cells _ _ _ hn := by
    rw [withKept, List.getElem?_append_left (List.getElem?_eq_some_iff.mp hn).1]
    exact hn
  cells_le := by simp [withKept]
  completions _ _ _ hi := hi
  completions_le := Nat.le_refl _
  runs _ _ := rfl
  files _ _ := rfl
  processors := rfl
  names := rfl
  openLoop := rfl
  threaded := rfl

theorem World.frame_setCompletion (w : World) (i : Nat) (s : Completion Resolution Resumption Empty)
    {steps : Nat → Prop} (hi : steps i) (trees : Nat → Prop) (run file : Nat) :
    w.Frame { w with completions := w.completions.set i s } trees steps run file where
  cells _ _ _ hn := hn
  cells_le := Nat.le_refl _
  completions k x hk hx := by
    have hne : i ≠ k := by
      rintro rfl
      exact hk hi
    exact (List.getElem?_set_ne hne).trans hx
  completions_le := List.length_set.ge
  runs _ _ := rfl
  files _ _ := rfl
  processors := rfl
  names := rfl
  openLoop := rfl
  threaded := rfl

theorem Passes.setCompletion (c : Couple) {b : Bond} (w v : World) {i j : Nat} (hi : b.steps i j)
    (s t : Completion Resolution Resumption Empty) :
    Passes c b w v b { w with completions := w.completions.set i s }
      { v with completions := v.completions.set j t } where
  grows := ⟨.refl b, fun _ _ => .inl, fun _ _ => .inl⟩
  left := w.frame_setCompletion i s ⟨j, hi⟩ _ _ _
  right := v.frame_setCompletion j t ⟨i, hi⟩ _ _ _
  events := ⟨[], [], (List.append_nil _).symm, (List.append_nil _).symm, .nil⟩

namespace World.Twins

variable {c : Couple} {p : Bool} {b : Bond} {w v : World}

theorem tree_lt (h : w.Twins v c p b) {n m : Nat} (hn : b.trees n m) :
    n < w.store.cells.length ∧ m < v.store.cells.length := by
  obtain ⟨t, -, hw, hv⟩ := h.trees n m hn
  exact ⟨(List.getElem?_eq_some_iff.mp hw).1, (List.getElem?_eq_some_iff.mp hv).1⟩

theorem step_lt (h : w.Twins v c p b) {i j : Nat} (hi : b.steps i j) :
    i < w.completions.length ∧ j < v.completions.length := by
  obtain ⟨s, t, hw, hv, -⟩ := h.steps i j hi
  exact ⟨(List.getElem?_eq_some_iff.mp hw).1, (List.getElem?_eq_some_iff.mp hv).1⟩

/-- More is kept in both worlds. -/
theorem withKept (h : w.Twins v c p b) (kept kept' : List Value) :
    Passes c b w v b (w.withKept kept) (v.withKept kept') ∧
      (w.withKept kept).Twins (v.withKept kept') c p b := by
  refine ⟨⟨⟨.refl b, fun _ _ => .inl, fun _ _ => .inl⟩, w.frame_withKept kept _ _ _ _,
    v.frame_withKept kept' _ _ _ _, [], [], (List.append_nil _).symm, (List.append_nil _).symm, .nil⟩, ?_⟩
  refine ⟨fun n m hn => ?_, h.trees_iff, h.steps, h.steps_iff, h.runs, h.file, h.stored, h.names,
    h.openLoop, h.threaded⟩
  obtain ⟨t, hc, hw, hv⟩ := h.trees n m hn
  exact ⟨t, hc, (w.frame_withKept kept (fun _ => False) (fun _ => False) 0 0).cells n _ id hw,
    (v.frame_withKept kept' (fun _ => False) (fun _ => False) 0 0).cells m _ id hv⟩

/-- The chain has got one more tree. -/
theorem keep (h : w.Twins v c p b) {t : Node} (hc : (Value.node t).Closed) :
    let d := b.withTree w.store.cells.length v.store.cells.length
    Passes c b w v d (w.withKept [.node t]) (v.withKept [.node t]) ∧
      (w.withKept [.node t]).Twins (v.withKept [.node t]) c p d := by
  intro d
  have hd : b.Within d := b.within_withTree _ _
  obtain ⟨hp, ht⟩ := h.withKept [.node t] [.node t]
  refine ⟨⟨⟨hd, fun n m hn => hn.imp id fun hn => ?_, fun _ _ => .inl⟩, hp.left, hp.right,
    [], [], (List.append_nil _).symm, (List.append_nil _).symm, .nil⟩, ?_⟩
  · exact ⟨hn.1.ge, hn.2.ge⟩
  refine ⟨fun n m hn => ?_, pairs_iff h.trees_iff (fun n m hn => (h.tree_lt hn).1)
    fun n m hn => (h.tree_lt hn).2, fun i j hi => ?_, h.steps_iff, h.runs, h.file,
    fun name => Bond.Stored.mono hd (ht.stored name), h.names, h.openLoop, h.threaded⟩
  · rcases hn with hn | ⟨rfl, rfl⟩
    · exact ht.trees n m hn
    · exact ⟨t, hc, List.getElem?_concat_length, List.getElem?_concat_length⟩
  · obtain ⟨s, u, hs, hu, hsu⟩ := h.steps i j hi
    exact ⟨s, u, hs, hu, hsu.mono hd⟩

theorem frame_write (w : World) (n : Nat) (u : Value) {trees : Nat → Prop} (hn : trees n)
    (steps : Nat → Prop) (run file : Nat) :
    w.Frame { w with store := w.store.write (.node n) u } trees steps run file where
  cells k x hk hx := by
    have hne : n ≠ k := by
      rintro rfl
      exact hk hn
    exact (List.getElem?_set_ne hne).trans hx
  cells_le := (w.store.length_write _ _).ge
  completions _ _ _ hi := hi
  completions_le := Nat.le_refl _
  runs _ _ := rfl
  files _ _ := rfl
  processors := rfl
  names := rfl
  openLoop := rfl
  threaded := rfl

/-- A tree of the chain is changed. -/
theorem write (h : w.Twins v c p b) {n m : Nat} (hn : b.trees n m) {t : Node}
    (hc : (Value.node t).Closed) :
    let w' : World := { w with store := w.store.write (.node n) (.node t) }
    let v' : World := { v with store := v.store.write (.node m) (.node t) }
    Passes c b w v b w' v' ∧ w'.Twins v' c p b := by
  intro w' v'
  refine ⟨⟨⟨.refl b, fun _ _ => .inl, fun _ _ => .inl⟩, frame_write w n _ ⟨m, hn⟩ _ _ _,
    frame_write v m _ ⟨n, hn⟩ _ _ _, [], [], (List.append_nil _).symm, (List.append_nil _).symm, .nil⟩, ?_⟩
  refine ⟨fun n' m' hn' => ?_, h.trees_iff, h.steps, h.steps_iff, h.runs, h.file, h.stored, h.names,
    h.openLoop, h.threaded⟩
  by_cases hsame : n = n'
  · obtain rfl := hsame
    obtain rfl := (h.trees_iff _ _ _ _ hn hn').mp rfl
    exact ⟨t, hc, List.getElem?_set_self (h.tree_lt hn).1, List.getElem?_set_self (h.tree_lt hn).2⟩
  · have hother : m ≠ m' := fun hm => hsame ((h.trees_iff _ _ _ _ hn hn').mpr hm)
    obtain ⟨u, hu, hw, hv⟩ := h.trees n' m' hn'
    exact ⟨u, hu, (List.getElem?_set_ne hsame).trans hw, (List.getElem?_set_ne hother).trans hv⟩

/-- The files of the chain are replaced by ones in which trees are stored that stand for one another. -/
theorem setFile (h : w.Twins v c true b) {q : Bool} {f g : File}
    (hfg : q = true → f = g) (hs : ∀ name, b.Stored (f.treeOf name) (g.treeOf name)) :
    let w' : World := { w with files := w.files.set c.file f }
    let v' : World := { v with files := v.files.set c.file g }
    Passes c b w v b w' v' ∧ w'.Twins v' c q b := by
  intro w' v'
  have hfile := h.file rfl
  have frame (u : World) (f : File) (trees steps : Nat → Prop) (run : Nat) :
      u.Frame { u with files := u.files.set c.file f } trees steps run c.file :=
    ⟨fun _ _ _ => id, Nat.le_refl _, fun _ _ _ => id, Nat.le_refl _, fun _ _ => rfl,
      fun g hg => List.getElem?_set_ne (Ne.symm hg), rfl, rfl, rfl, rfl⟩
  refine ⟨⟨⟨.refl b, fun _ _ => .inl, fun _ _ => .inl⟩, frame w f _ _ _, frame v g _ _ _,
    [], [], (List.append_nil _).symm, (List.append_nil _).symm, .nil⟩, ?_⟩
  refine ⟨h.trees, h.trees_iff, h.steps, h.steps_iff, h.runs, fun hq => ?_, fun name => ?_, h.names,
    h.openLoop, h.threaded⟩
  · rw [List.getElem?_set_self', List.getElem?_set_self', hfile, hfg hq]
  · have hstored := h.stored name
    simp only [treeOf, List.getD_eq_getElem?_getD, w', v', List.getElem?_set_self', hfile] at hstored ⊢
    cases hx : v.files[c.file]? with
    | none =>
      rw [hx] at hstored
      exact hstored
    | some x => exact hs name

/-- A step of the chain is called. -/
theorem addCompletion (h : w.Twins v c p b) (label : String) :
    let d := b.withStep w.completions.length v.completions.length
    let w' : World := { w with completions := w.completions ++ [Completion.start label] }
    let v' : World := { v with completions := v.completions ++ [Completion.start label] }
    Passes c b w v d w' v' ∧ w'.Twins v' c p d := by
  intro d w' v'
  have hd : b.Within d := b.within_withStep _ _
  have old {l : List (Completion Resolution Resumption Empty)} {i : Nat} {s : _} (hs : l[i]? = some s) :
      (l ++ [Completion.start label])[i]? = some s := by
    rw [List.getElem?_append_left (List.getElem?_eq_some_iff.mp hs).1]
    exact hs
  have frame (u : World) (trees steps : Nat → Prop) (run file : Nat) :
      u.Frame { u with completions := u.completions ++ [Completion.start label] } trees steps run file :=
    ⟨fun _ _ _ => id, Nat.le_refl _, fun _ _ _ => old, by simp, fun _ _ => rfl, fun _ _ => rfl, rfl, rfl,
      rfl, rfl⟩
  refine ⟨⟨⟨hd, fun _ _ => .inl, fun i j hi => hi.imp id fun hi => ⟨hi.1.ge, hi.2.ge⟩⟩, frame w _ _ _ _,
    frame v _ _ _ _, [], [], (List.append_nil _).symm, (List.append_nil _).symm, .nil⟩, ?_⟩
  refine ⟨h.trees, h.trees_iff, fun i j hi => ?_, pairs_iff h.steps_iff (fun i j hi => (h.step_lt hi).1)
    fun i j hi => (h.step_lt hi).2, h.runs, h.file, fun name => Bond.Stored.mono hd (h.stored name), h.names,
    h.openLoop, h.threaded⟩
  rcases hi with hi | ⟨rfl, rfl⟩
  · obtain ⟨s, t, hs, ht, hst⟩ := h.steps i j hi
    exact ⟨s, t, old hs, old ht, hst.mono hd⟩
  · exact ⟨_, _, List.getElem?_concat_length, List.getElem?_concat_length, .pending label [] []⟩

/-- A step of the chain gets another completion. -/
theorem setCompletion (h : w.Twins v c p b) {i j : Nat} (hi : b.steps i j)
    {s t : Completion Resolution Resumption Empty} (hst : b.Completions s t) :
    let w' : World := { w with completions := w.completions.set i s }
    let v' : World := { v with completions := v.completions.set j t }
    Passes c b w v b w' v' ∧ w'.Twins v' c p b := by
  intro w' v'
  refine ⟨.setCompletion c w v hi s t, ?_⟩
  refine ⟨h.trees, h.trees_iff, fun i' j' hi' => ?_, h.steps_iff, h.runs, h.file, h.stored, h.names,
    h.openLoop, h.threaded⟩
  by_cases hsame : i = i'
  · obtain rfl := hsame
    obtain rfl := (h.steps_iff _ _ _ _ hi hi').mp rfl
    exact ⟨s, t, List.getElem?_set_self (h.step_lt hi).1, List.getElem?_set_self (h.step_lt hi).2, hst⟩
  · have hother : j ≠ j' := fun hj => hsame ((h.steps_iff _ _ _ _ hi hi').mpr hj)
    obtain ⟨x, y, hx, hy, hxy⟩ := h.steps i' j' hi'
    exact ⟨x, y, (List.getElem?_set_ne hsame).trans hx, (List.getElem?_set_ne hother).trans hy, hxy⟩

/-- The record of the chain gets a result. -/
theorem changeRun (h : w.Twins v c p b) {f g : Run → Run}
    (hf : ∀ x, (f x).file = x.file ∧ (f x).steps = x.steps ∧ (f x).watcher = x.watcher ∧
      (f x).loop = x.loop)
    (hg : ∀ x, (g x).file = x.file ∧ (g x).steps = x.steps ∧ (g x).watcher = x.watcher ∧
      (g x).loop = x.loop) :
    let w' : World := { w with runs := w.runs.modify c.left f }
    let v' : World := { v with runs := v.runs.modify c.right g }
    Passes c b w v b w' v' ∧ w'.Twins v' c p b := by
  intro w' v'
  have frame (u : World) (r : Nat) (f : Run → Run) (trees steps : Nat → Prop) (file : Nat) :
      u.Frame { u with runs := u.runs.modify r f } trees steps r file :=
    ⟨fun _ _ _ => id, Nat.le_refl _, fun _ _ _ => id, Nat.le_refl _,
      fun k hk => List.getElem?_modify_ne f u.runs (Ne.symm hk), fun _ _ => rfl, rfl, rfl, rfl, rfl⟩
  refine ⟨⟨⟨.refl b, fun _ _ => .inl, fun _ _ => .inl⟩, frame w _ f _ _ _, frame v _ g _ _ _,
    [], [], (List.append_nil _).symm, (List.append_nil _).symm, .nil⟩, ?_⟩
  refine ⟨h.trees, h.trees_iff, h.steps, h.steps_iff, ?_, h.file, h.stored, h.names, h.openLoop,
    h.threaded⟩
  obtain ⟨x, y, hx, hy, hr⟩ := h.runs
  obtain ⟨ff, fs, fw, fl⟩ := hf x
  obtain ⟨gf, gs, gw, gl⟩ := hg y
  refine ⟨f x, g y, ?_, ?_, ff.trans hr.file_left, gf.trans hr.file_right, fs.trans hr.steps_left,
    gs.trans hr.steps_right, by rw [fw, gw, hr.watcher], by rw [fl, gl, hr.loop]⟩
  · show (w.runs.modify c.left f)[c.left]? = _
    rw [List.getElem?_modify_eq, hx]
    rfl
  · show (v.runs.modify c.right g)[c.right]? = _
    rw [List.getElem?_modify_eq, hy]
    rfl

end World.Twins

end TextPipeline.Pipeline
