import TextPipeline.Proofs.Plan

/-! What steps that only carry out deeds depend on: the shared objects, the names, and their file. In
two worlds that agree on these, such steps do the same, whatever else there is. -/

namespace TextPipeline.Pipeline

open TextPipeline.Transform
open TextPipeline.Pipeline.Action

/-- The part of the world that a step with a file can see and change. -/
structure Scope where
  store : Store
  names : List (String × Value)
  file : Option File

def World.scope (w : World) (id : Nat) : Scope := ⟨w.store, w.names, w.files[id]?⟩

section Scope

variable {w v : World} {id : Nat}

theorem World.scope_of_core (h : w.core = v.core) (id : Nat) : w.scope id = v.scope id := by
  obtain ⟨hs, hf, -, -, -, -, -, -, hn⟩ := Core.mk.inj h
  rw [scope, scope, hs, hf, hn]

theorem World.sight_of_scope (h : w.scope id = v.scope id) : w.sight = v.sight := by
  obtain ⟨hs, hn, -⟩ := Scope.mk.inj h
  have hreveal : w.reveal = v.reveal := by
    funext value
    rw [reveal, reveal, hs]
  rw [sight, sight, hn, hreveal]

theorem World.view_of_scope (h : w.scope id = v.scope id) (tree : Value) :
    w.view tree id = v.view tree id := by
  obtain ⟨hs, -, hf⟩ := Scope.mk.inj h
  rw [view, view, reveal, reveal, hs, List.getD_eq_getElem?_getD, List.getD_eq_getElem?_getD, hf]

theorem World.handed_of_scope (h : w.scope id = v.scope id) (value : Value) :
    w.handed value = v.handed value := by
  rw [handed, handed, (Scope.mk.inj h).1]

theorem World.handing_of_scope (h : w.scope id = v.scope id) (value : Value) :
    (w.handing value).scope id = (v.handing value).scope id := by
  obtain ⟨hs, hn, hf⟩ := Scope.mk.inj h
  rw [scope, scope]
  simp only [handing, hs, hn, hf]

end Scope

/-- An action that depends on nothing but the scope of steps with a file, and changes nothing else. -/
def Scoped (id : Nat) {α : Type} (x : Action α) : Prop :=
  ∀ w v : World, w.scope id = v.scope id → (x.result w).1 = (x.result v).1 ∧
    (x.result w).2.scope id = (x.result v).2.scope id ∧
    ∃ es, (x.result w).2.events = w.events ++ es ∧ (x.result v).2.events = v.events ++ es

namespace Scoped

variable {α β : Type} {id : Nat}

theorem of {x : Action α} (o : Outcome α) (es : List Event) (ho : ∀ w, (x.result w).1 = o)
    (hs : ∀ w, (x.result w).2.scope id = w.scope id)
    (he : ∀ w, (x.result w).2.events = w.events ++ es) : Scoped id x :=
  fun w v h => ⟨by rw [ho, ho], by rw [hs, hs, h], es, he w, he v⟩

theorem pure (a : α) : Scoped id (pure a) :=
  of (.ok a) [] (fun _ => rfl) (fun _ => rfl) fun _ => (List.append_nil _).symm

theorem throw (f : Fault) : Scoped id (throw f : Action α) :=
  of (.error f) [] (fun _ => rfl) (fun _ => rfl) fun _ => (List.append_nil _).symm

theorem bind {x : Action α} {f : α → Action β} (hx : Scoped id x) (hf : ∀ a, Scoped id (f a)) :
    Scoped id (x >>= f) := by
  intro w v h
  obtain ⟨ho, hs, es, hw, hv⟩ := hx w v h
  rw [result_bind, result_bind]
  generalize x.result w = left at ho hs hw
  generalize x.result v = right at ho hs hv
  obtain ⟨o, w'⟩ := left
  obtain ⟨o', v'⟩ := right
  obtain rfl : o = o' := ho
  cases o with
  | error e => exact ⟨rfl, hs, es, hw, hv⟩
  | ok a =>
    obtain ⟨ho', hs', fs, hw', hv'⟩ := hf a w' v' hs
    exact ⟨ho', hs', es ++ fs, by rw [hw', hw, List.append_assoc], by rw [hv', hv, List.append_assoc]⟩

theorem get {f : World → Action α} (hf : ∀ w, Scoped id (f w))
    (hc : ∀ w v : World, w.scope id = v.scope id → f w = f v) : Scoped id (get >>= f) := by
  intro w v h
  rw [result_get_bind, result_get_bind, hc w v h]
  exact hf v w v h

theorem ofOutcome (o : Outcome α) : Scoped id (ofOutcome o) := by
  cases o with
  | ok a => exact pure a
  | error f => exact throw f

theorem raise (f : Option Fault) : Scoped id (raise f) := by
  cases f with
  | none => exact pure ()
  | some f => exact throw f

theorem tell (e : Event) : Scoped id (tell e) :=
  of (.ok ()) [e] (fun _ => rfl) (fun _ => rfl) fun _ => rfl

theorem ofLogged (x : Logged α) : Scoped id (ofLogged x) := by
  have hresult (w : World) : (Action.ofLogged x).result w =
      (x.result.1, { w with events := w.events ++ x.result.2.map .log }) := by
    rw [Action.ofLogged, result_bind]
    exact result_ofOutcome _ _
  refine of x.result.1 (x.result.2.map .log) (fun w => ?_) (fun w => ?_) fun w => ?_
  · rw [hresult]
  · rw [hresult]
    rfl
  · rw [hresult]

theorem withStore (x : StateM Store α) : Scoped id (withStore x) := by
  intro w v h
  obtain ⟨hs, hn, hf⟩ := Scope.mk.inj h
  have hresult (w : World) : (Action.withStore x).result w =
      (.ok (x.run w.store).1, { w with store := (x.run w.store).2 }) := rfl
  rw [hresult, hresult]
  refine ⟨by rw [hs], ?_, [], (List.append_nil _).symm, (List.append_nil _).symm⟩
  simp only [World.scope, hs, hn, hf]

theorem reveal (value : Value) : Scoped id (reveal value) :=
  get (fun _ => pure _) fun w v h => by rw [World.reveal, World.reveal, (Scope.mk.inj h).1]

theorem content (value : Value) : Scoped id (content value) :=
  get (fun _ => pure _) fun w v h => by rw [(Scope.mk.inj h).1]

theorem file : Scoped id (file id) :=
  get (fun _ => pure _) fun w v h => by
    rw [List.getD_eq_getElem?_getD, List.getD_eq_getElem?_getD, (Scope.mk.inj h).2.2]

theorem setFile (f : File) : Scoped id (setFile id f) := by
  intro w v h
  obtain ⟨hs, hn, hf⟩ := Scope.mk.inj h
  refine ⟨rfl, ?_, [], (List.append_nil _).symm, (List.append_nil _).symm⟩
  rw [World.scope, World.scope]
  simp only [Action.setFile, result_modify, hs, hn, List.getElem?_set_self', hf]

theorem forM {f : α → Action PUnit} (hf : ∀ a, Scoped id (f a)) (l : List α) :
    Scoped id (l.forM f) := by
  induction l with
  | nil => exact pure _
  | cons a l ih => exact bind (hf a) fun _ => ih

theorem emit (watcher : Option Watcher) (p : Progress) : Scoped id (emit watcher p) := by
  cases watcher with
  | none => exact pure _
  | some watcher => exact bind (tell _) fun _ => ofLogged _

theorem carryOut (tree : Value) (deeds : List Deed) : Scoped id (carryOut tree id deeds) := by
  refine forM (fun d => ?_) deeds
  cases d with
  | change f =>
    refine get (fun _ => bind (content _) fun _ => bind file fun _ => bind (withStore _) fun _ =>
      bind (setFile _) fun _ => bind (forM (fun _ => tell _) _) fun _ => raise _) fun w v h => ?_
    rw [World.sight_of_scope h]
  | mapLiterals type f records =>
    exact bind (withStore _) fun _ => bind (raise _) fun _ => forM (fun _ => tell _) _
  | observe label f =>
    exact bind (reveal _) fun _ => bind file fun _ => bind (ofOutcome _) fun _ => tell _
  | log record => exact tell _

end Scoped

end TextPipeline.Pipeline
