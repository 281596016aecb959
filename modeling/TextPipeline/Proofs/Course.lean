import Mathlib.Data.List.Induction
import TextPipeline.Proofs.Local

/-! The course of a chain as its events tell it. A chain calls its steps one after the other; each
call is followed by the resolution of the step before the next one is made, and the end of the chain
is told once. `Run.Lawful` says so event by event, and `Run.Orderly` says what follows from it for
the calls and the ends of the chain as a whole. -/

namespace TextPipeline.Pipeline

open TextPipeline.Transform

/-- The steps that are left begin with the step that is due. -/
theorem of_drop_eq_cons {α : Type} {steps rest : List α} {index : Nat} {t : α}
    (h : steps.drop index = t :: rest) : steps[index]? = some t ∧ steps.drop (index + 1) = rest := by
  rw [← List.head?_drop, ← List.tail_drop, h]
  exact ⟨rfl, rfl⟩

/-- The call of a step of a run that an event tells of. -/
def Event.call? (r : Nat) : Event → Option Invocation
  | .called run a => if run = r then some a else none
  | _ => none

/-- The result of a run that an event tells of. -/
def Event.delivery? (r : Nat) : Event → Option (Option Fault × Value)
  | .delivered run error tree => if run = r then some (error, tree) else none
  | _ => none

/-- The result of a step that an event tells of. -/
def Event.resolution? (id : Nat) : Event → Option Resolution
  | .resolved completion result => if completion = id then some result else none
  | _ => none

section Kinds

variable (r run id completion : Nat) (a : Invocation) (tree : Value) (result : Resolution)
  (error : Option Fault)

@[simp] theorem Event.call?_called : (called run a).call? r =
    if run = r then some a else none := rfl

@[simp] theorem Event.call?_resolved : (resolved id result).call? r = none := rfl

@[simp] theorem Event.call?_delivered : (delivered run error tree).call? r = none := rfl

@[simp] theorem Event.call?_log (record : LogRecord) : (log record).call? r = none := rfl

@[simp] theorem Event.delivery?_log (record : LogRecord) : (log record).delivery? r = none := rfl

@[simp] theorem Event.resolution?_log (record : LogRecord) : (log record).resolution? id = none := rfl

@[simp] theorem Event.delivery?_called : (called run a).delivery? r = none := rfl

@[simp] theorem Event.delivery?_resolved : (resolved id result).delivery? r = none := rfl

@[simp] theorem Event.delivery?_delivered : (delivered run error tree).delivery? r =
    if run = r then some (error, tree) else none := rfl

@[simp] theorem Event.resolution?_called : (called run a).resolution? r = none := rfl

@[simp] theorem Event.resolution?_resolved : (resolved completion result).resolution? id =
    if completion = id then some result else none := rfl

@[simp] theorem Event.resolution?_delivered : (delivered run error tree).resolution? id = none := rfl

end Kinds

/-- The calls of the steps of a run, in order. -/
def calls (r : Nat) (es : List Event) : List Invocation := es.filterMap (Event.call? r)

/-- The results of a run, in order. -/
def deliveries (r : Nat) (es : List Event) : List (Option Fault × Value) :=
  es.filterMap (Event.delivery? r)

/-- The results of a step, in order. -/
def resolutions (id : Nat) (es : List Event) : List Resolution :=
  es.filterMap (Event.resolution? id)

@[simp] theorem calls_append (r : Nat) (es fs : List Event) :
    calls r (es ++ fs) = calls r es ++ calls r fs := List.filterMap_append

@[simp] theorem deliveries_append (r : Nat) (es fs : List Event) :
    deliveries r (es ++ fs) = deliveries r es ++ deliveries r fs := List.filterMap_append

@[simp] theorem resolutions_append (id : Nat) (es fs : List Event) :
    resolutions id (es ++ fs) = resolutions id es ++ resolutions id fs := List.filterMap_append

@[simp] theorem calls_nil (r : Nat) : calls r [] = [] := rfl

@[simp] theorem deliveries_nil (r : Nat) : deliveries r [] = [] := rfl

@[simp] theorem resolutions_nil (id : Nat) : resolutions id [] = [] := rfl

@[simp] theorem calls_cons (r : Nat) (e : Event) (es : List Event) :
    calls r (e :: es) = (e.call? r).toList ++ calls r es := by
  cases h : e.call? r <;> simp [calls, h]

@[simp] theorem deliveries_cons (r : Nat) (e : Event) (es : List Event) :
    deliveries r (e :: es) = (e.delivery? r).toList ++ deliveries r es := by
  cases h : e.delivery? r <;> simp [deliveries, h]

@[simp] theorem resolutions_cons (id : Nat) (e : Event) (es : List Event) :
    resolutions id (e :: es) = (e.resolution? id).toList ++ resolutions id es := by
  cases h : e.resolution? id <;> simp [resolutions, h]

/-- Where a chain stands: a step is due, a step was called and is not resolved, a step has failed,
or the end was told. -/
inductive Standing where
  | due (index : Nat) (tree : Value)
  | waiting (index : Nat) (tree : Value) (completion : Nat)
  | failed (fault : Fault) (tree : Value)
  | ended

namespace Standing

/-- Where a chain stands when a step that was given a tree is resolved. -/
def settle (index : Nat) (tree : Value) (result : Resolution) : Standing :=
  match result.error with
  | some f => .failed f tree
  | none => .due (index + 1) (result.tree.getD tree)

/-- Where a chain stands after an event. -/
def after (r : Nat) (s : Standing) : Event → Standing
  | .called run a => if run = r then .waiting a.index a.tree a.completion else s
  | .resolved completion result =>
    match s with
    | .waiting index tree awaited => if awaited = completion then settle index tree result else s
    | s => s
  | .delivered run _ _ => if run = r then .ended else s
  | _ => s

theorem settle_ne_waiting (index : Nat) (tree : Value) (result : Resolution) (i : Nat) (t : Value)
    (c : Nat) : settle index tree result ≠ .waiting i t c := by
  unfold settle
  split <;> simp

/-- A resolution matters only to a step that waits for it. -/
theorem after_resolved {r : Nat} {s : Standing} {completion : Nat} (result : Resolution)
    (h : ∀ i t, s ≠ .waiting i t completion) : s.after r (.resolved completion result) = s := by
  cases s with
  | waiting i t c =>
    have hne : c ≠ completion := fun hc => h i t (by rw [hc])
    simp [after, hne]
  | due | failed | ended => rfl

/-- An event that tells of neither a call nor the end of a chain nor a resolution changes nothing
for it. -/
theorem after_other {r : Nat} {s : Standing} {e : Event} (hc : e.call? r = none)
    (hd : e.delivery? r = none) (hr : ∀ id, e.resolution? id = none) : s.after r e = s := by
  cases e with
  | called run => simp only [Event.call?] at hc; simp only [after]; split <;> simp_all
  | delivered run => simp only [Event.delivery?] at hd; simp only [after]; split <;> simp_all
  | resolved id => simpa [Event.resolution?] using hr id
  | _ => rfl

end Standing

/-- Where a run stands after events. -/
def Run.standing (x : Run) (r : Nat) (es : List Event) : Standing :=
  es.foldl (Standing.after r) (.due 0 x.tree)

@[simp] theorem Run.standing_nil (x : Run) (r : Nat) : x.standing r [] = .due 0 x.tree := rfl

theorem Run.standing_append (x : Run) (r : Nat) (es fs : List Event) :
    x.standing r (es ++ fs) = fs.foldl (Standing.after r) (x.standing r es) := List.foldl_append

theorem Run.standing_snoc (x : Run) (r : Nat) (es : List Event) (e : Event) :
    x.standing r (es ++ [e]) = (x.standing r es).after r e := by
  rw [Run.standing_append]
  rfl

/-- Without a call and without an end of the chain, a chain stands where it stood unless it waited
for a step that was resolved; the first resolution counts. -/
theorem Standing.foldl_idle {r : Nat} (s : Standing) (es : List Event) (hc : calls r es = [])
    (hd : deliveries r es = []) :
    es.foldl (Standing.after r) s =
      match s with
      | .waiting index tree id =>
        match resolutions id es with
        | [] => s
        | result :: _ => settle index tree result
      | s => s := by
  induction es generalizing s with
  | nil => cases s <;> rfl
  | cons e es ih =>
    have hce : e.call? r = none := List.filterMap_eq_nil_iff.mp hc e (by simp)
    have hde : e.delivery? r = none := List.filterMap_eq_nil_iff.mp hd e (by simp)
    have hc' : calls r es = [] := by simpa [hce] using hc
    have hd' : deliveries r es = [] := by simpa [hde] using hd
    rw [List.foldl_cons, ih _ hc' hd']
    by_cases he : ∃ id result, e = .resolved id result
    · obtain ⟨id, result, rfl⟩ := he
      cases s with
      | waiting i t c =>
        by_cases h : c = id
        · subst h
          simp only [Standing.after, if_true, resolutions_cons, Event.resolution?_resolved, Option.toList_some,
            List.cons_append]
          split
          · rename_i hs
            exact absurd hs (settle_ne_waiting _ _ _ _ _ _)
          · rfl
        · simp [Standing.after, h, Ne.symm h]
      | due | failed | ended => rfl
    · have hr : ∀ id, e.resolution? id = none := fun id => by
        cases e with
        | resolved id' result => exact absurd ⟨id', result, rfl⟩ he
        | _ => rfl
      rw [Standing.after_other hce hde hr]
      cases s with
      | waiting i t c => simp [hr]
      | due | failed | ended => rfl

/-- What may happen to a run that stands somewhere. Only the step that is due is called, with the
tree that is due. The end is told when no step is left or when a step has failed, or else because a
step holds up a chain that must not wait. -/
def Run.Permits (x : Run) (r : Nat) (s : Standing) : Event → Prop
  | .called run a => run = r → s = .due a.index a.tree ∧ x.steps[a.index]? = some a.step
  | .delivered run none tree => run = r → s = .due x.steps.length tree
  | .delivered run (some f) tree =>
    run = r → s = .failed f tree ∨ ∃ index id t, s = .waiting index tree id ∧
      x.steps[index]? = some t ∧ f = notSynchronous t.name
  | _ => True

/-- Everything that happened to a run was permitted where it stood then. -/
def Run.Lawful (x : Run) (r : Nat) (es : List Event) : Prop :=
  ∀ pre e post, es = pre ++ e :: post → x.Permits r (x.standing r pre) e

namespace Run.Lawful

variable {x : Run} {r : Nat} {es : List Event}

theorem nil : x.Lawful r [] := by
  intro pre e post h
  simp at h

theorem of_append {fs : List Event} (h : x.Lawful r (es ++ fs)) : x.Lawful r es := by
  intro pre e post he
  exact h pre e (post ++ fs) (by simp [he])

theorem snoc_iff {e : Event} :
    x.Lawful r (es ++ [e]) ↔ x.Lawful r es ∧ x.Permits r (x.standing r es) e := by
  constructor
  · intro h
    exact ⟨h.of_append, h es e [] rfl⟩
  · rintro ⟨h, he⟩ pre e' post hs
    rcases List.eq_nil_or_concat post with rfl | ⟨post, e'', rfl⟩
    · obtain ⟨rfl, h'⟩ := List.append_inj' hs rfl
      obtain rfl : e = e' := by simpa using h'
      exact he
    · rw [List.concat_eq_append, ← List.cons_append, ← List.append_assoc] at hs
      exact h pre e' post (List.append_inj' hs rfl).1

/-- What is said of calls and ends of other runs only, and of resolutions, is always permitted. -/
theorem append_idle {fs : List Event} (h : x.Lawful r es) (hc : calls r fs = [])
    (hd : deliveries r fs = []) : x.Lawful r (es ++ fs) := by
  induction fs using List.reverseRecOn with
  | nil => simpa using h
  | append_singleton fs e ih =>
    rw [calls_append, List.append_eq_nil_iff] at hc
    rw [deliveries_append, List.append_eq_nil_iff] at hd
    rw [← List.append_assoc, snoc_iff]
    refine ⟨ih hc.1 hd.1, ?_⟩
    have hce : e.call? r = none := List.filterMap_eq_nil_iff.mp hc.2 e (by simp)
    have hde : e.delivery? r = none := List.filterMap_eq_nil_iff.mp hd.2 e (by simp)
    cases e with
    | called run => exact fun hr => by simp [hr] at hce
    | delivered run error =>
      cases error <;> exact fun hr => by simp [hr] at hde
    | _ => trivial

end Run.Lawful

/-- The calls and ends of a run, in full. -/
structure Run.Orderly (x : Run) (r : Nat) (es : List Event) : Prop where
  inOrder : (calls r es).map (·.index) = List.range (calls r es).length
  /-- The steps called are those from the first one on, in order and each once. -/
  steps : (calls r es).map (·.step) = x.steps.take (calls r es).length
  first : ∀ a, (calls r es)[0]? = some a → a.tree = x.tree
  /-- A step is called only after the one before it was resolved without a fault, and it is given
  the tree that this one left. -/
  follows : ∀ i a b, (calls r es)[i]? = some a → (calls r es)[i + 1]? = some b →
    ∃ result ∈ resolutions a.completion es, result.error = none ∧ b.tree = result.tree.getD a.tree
  once : (deliveries r es).length ≤ 1
  /-- No step is called after the end. -/
  last : ∀ pre error tree post, es = pre ++ .delivered r error tree :: post → calls r post = []

theorem Run.Orderly.length_le {x : Run} {r : Nat} {es : List Event} (h : x.Orderly r es) :
    (calls r es).length ≤ x.steps.length := by
  have := congrArg List.length h.steps
  simp only [List.length_map, List.length_take] at this
  omega

/-- What the events so far have to do with where the run stands. -/
def Run.Fits (x : Run) (r : Nat) (es : List Event) : Standing → Prop
  | .due index tree =>
    (calls r es).length = index ∧ deliveries r es = [] ∧
      match (calls r es).getLast? with
      | none => tree = x.tree
      | some a => ∃ result ∈ resolutions a.completion es, result.error = none ∧
          tree = result.tree.getD a.tree
  | .waiting index tree id =>
    (calls r es).length = index + 1 ∧ deliveries r es = [] ∧
      ∃ a, (calls r es).getLast? = some a ∧ a.index = index ∧ a.tree = tree ∧ a.completion = id
  | .failed _ _ => deliveries r es = []
  | .ended => (deliveries r es).length = 1

namespace Run

variable {x : Run} {r : Nat} {es : List Event}

theorem Orderly.nil : x.Orderly r [] where
  inOrder := rfl
  steps := by simp
  first := by simp
  follows := by simp
  once := by simp
  last := by simp

/-- An event that is no call and no end of the run leaves its course orderly. -/
theorem Orderly.other {e : Event} (h : x.Orderly r es) (hc : e.call? r = none)
    (hd : e.delivery? r = none) : x.Orderly r (es ++ [e]) := by
  have hcalls : calls r (es ++ [e]) = calls r es := by simp [hc]
  have hdeliveries : deliveries r (es ++ [e]) = deliveries r es := by simp [hd]
  constructor
  · rw [hcalls]
    exact h.inOrder
  · rw [hcalls]
    exact h.steps
  · rw [hcalls]
    exact h.first
  · rw [hcalls]
    intro i a b ha hb
    obtain ⟨result, hr, he, ht⟩ := h.follows i a b ha hb
    exact ⟨result, by simp [hr], he, ht⟩
  · rw [hdeliveries]
    exact h.once
  · intro pre error tree post hs
    rcases List.eq_nil_or_concat post with rfl | ⟨post, e', rfl⟩
    · rfl
    · rw [List.concat_eq_append, ← List.cons_append, ← List.append_assoc] at hs
      obtain ⟨hes, he⟩ := List.append_inj' hs rfl
      obtain rfl : e = e' := by simpa using he
      rw [List.concat_eq_append, calls_append, h.last pre error tree post hes]
      simp [hc]

theorem not_delivered (h : deliveries r es = []) {pre post : List Event} {error : Option Fault}
    {tree : Value} : es ≠ pre ++ .delivered r error tree :: post := by
  rintro rfl
  simp at h

/-- The step that is due is called. -/
theorem Orderly.call {a : Invocation} (h : x.Orderly r es)
    (hf : x.Fits r es (.due a.index a.tree)) (hi : x.steps[a.index]? = some a.step) :
    x.Orderly r (es ++ [.called r a]) := by
  obtain ⟨hlen, hdel, hlast⟩ := hf
  have hcalls : calls r (es ++ [.called r a]) = calls r es ++ [a] := by simp
  have hdeliveries : deliveries r (es ++ [.called r a]) = [] := by simp [hdel]
  constructor
  · rw [hcalls, List.map_append, h.inOrder, List.length_append, hlen]
    exact List.range_succ.symm
  · rw [hcalls, List.map_append, h.steps, List.length_append, hlen]
    simp [List.take_add_one, hi]
  · rw [hcalls]
    intro b hb
    cases hc : calls r es with
    | nil =>
      rw [hc] at hb hlast
      simp only [List.nil_append, List.getElem?_cons_zero, Option.some.injEq] at hb
      rw [← hb]
      exact hlast
    | cons b' bs =>
      rw [hc] at hb
      exact h.first b (by rw [hc]; simpa using hb)
  · rw [hcalls]
    intro i b c hb hc
    have hres (c : Nat) : resolutions c (es ++ [.called r a]) = resolutions c es := by simp
    rw [hres]
    by_cases hlt : i + 1 < (calls r es).length
    · rw [List.getElem?_append_left (by omega)] at hb
      rw [List.getElem?_append_left hlt] at hc
      exact h.follows i b c hb hc
    · have hend := (List.getElem?_eq_some_iff.mp hc).1
      have hi' : i + 1 = (calls r es).length := by simp at hend; omega
      rw [List.getElem?_append_left (by omega)] at hb
      rw [hi', List.getElem?_concat_length] at hc
      obtain rfl := Option.some.inj hc
      have hlast' : (calls r es).getLast? = some b := by
        rw [List.getLast?_eq_getElem?, ← hi']
        exact hb
      rw [hlast'] at hlast
      exact hlast
  · rw [hdeliveries]
    simp
  · intro pre error t post hs
    exact absurd hs (not_delivered hdeliveries)

/-- The end is told, for the first time. -/
theorem Orderly.deliver {error : Option Fault} {tree : Value} (h : x.Orderly r es)
    (hd : deliveries r es = []) : x.Orderly r (es ++ [.delivered r error tree]) := by
  have hcalls : calls r (es ++ [.delivered r error tree]) = calls r es := by simp
  have hres (c : Nat) : resolutions c (es ++ [.delivered r error tree]) = resolutions c es := by simp
  constructor
  · rw [hcalls]
    exact h.inOrder
  · rw [hcalls]
    exact h.steps
  · rw [hcalls]
    exact h.first
  · rw [hcalls]
    intro i a b ha hb
    rw [hres]
    exact h.follows i a b ha hb
  · simp [hd]
  · intro pre error' tree' post hs
    rcases List.eq_nil_or_concat post with rfl | ⟨post, e', rfl⟩
    · rfl
    · rw [List.concat_eq_append, ← List.cons_append, ← List.append_assoc] at hs
      exact absurd (List.append_inj' hs rfl).1 (not_delivered hd)

/-- What fits still does after an event that is no call and no end of the run. -/
theorem Fits.other {s : Standing} {e : Event} (h : x.Fits r es s) (hc : e.call? r = none)
    (hd : e.delivery? r = none) : x.Fits r (es ++ [e]) s := by
  have hcalls : calls r (es ++ [e]) = calls r es := by simp [hc]
  have hdeliveries : deliveries r (es ++ [e]) = deliveries r es := by simp [hd]
  cases s with
  | due index tree =>
    obtain ⟨hlen, hdel, hlast⟩ := h
    refine ⟨by rw [hcalls, hlen], by rw [hdeliveries, hdel], ?_⟩
    rw [hcalls]
    revert hlast
    cases (calls r es).getLast? with
    | none => exact id
    | some a => exact fun ⟨result, hr, he, ht⟩ => ⟨result, by simp [hr], he, ht⟩
  | waiting index tree id =>
    obtain ⟨hlen, hdel, hlast⟩ := h
    exact ⟨by rw [hcalls, hlen], by rw [hdeliveries, hdel], by rw [hcalls]; exact hlast⟩
  | failed f tree => exact hdeliveries.trans h
  | ended => exact (congrArg List.length hdeliveries).trans h

/-- What is known of the course of a run when a step is resolved that it waits for. -/
theorem Fits.resolve {index id : Nat} {tree : Value} (h : x.Fits r es (.waiting index tree id))
    (result : Resolution) :
    x.Fits r (es ++ [.resolved id result]) (.settle index tree result) := by
  obtain ⟨hlen, hdel, a, hlast, -, htree, hid⟩ := h
  subst htree hid
  have hcalls : calls r (es ++ [.resolved a.completion result]) = calls r es := by simp
  have hdeliveries : deliveries r (es ++ [.resolved a.completion result]) = [] := by simp [hdel]
  unfold Standing.settle
  split
  · exact hdeliveries
  · rename_i he
    refine ⟨by rw [hcalls, hlen], hdeliveries, ?_⟩
    rw [hcalls, hlast]
    exact ⟨result, by simp, he, rfl⟩

theorem Fits.deliveries_eq_nil {s : Standing} (h : x.Fits r es s) (hs : s ≠ .ended) :
    deliveries r es = [] := by
  cases s with
  | due | waiting => exact h.2.1
  | failed => exact h
  | ended => exact absurd rfl hs

/-- The end is permitted only once. -/
theorem Permits.not_ended {s : Standing} {error : Option Fault} {tree : Value}
    (h : x.Permits r s (.delivered r error tree)) : s ≠ .ended := by
  rintro rfl
  cases error with
  | none => simpa using h rfl
  | some f =>
    rcases h rfl with h | ⟨_, _, _, h, -⟩ <;> cases h

/-- The course of a run to which only happened what was permitted is orderly. -/
theorem Lawful.orderly_fits (h : x.Lawful r es) : x.Orderly r es ∧ x.Fits r es (x.standing r es) := by
  induction es using List.reverseRecOn with
  | nil => exact ⟨.nil, rfl, rfl, rfl⟩
  | append_singleton es e ih =>
    obtain ⟨hl, hp⟩ := Lawful.snoc_iff.mp h
    obtain ⟨ho, hf⟩ := ih hl
    rw [standing_snoc]
    generalize x.standing r es = s at hp hf
    cases e with
    | called run a =>
      by_cases hr : run = r
      · subst hr
        obtain ⟨rfl, hi⟩ := hp rfl
        refine ⟨ho.call hf hi, ?_⟩
        simp only [Standing.after, if_true]
        refine ⟨?_, ?_, ?_⟩
        · simp [hf.1]
        · simp [hf.2.1]
        · simp
      · have hc : (Event.called run a).call? r = none := by simp [hr]
        rw [Standing.after_other hc rfl fun _ => rfl]
        exact ⟨ho.other hc rfl, hf.other hc rfl⟩
    | delivered run error tree =>
      by_cases hr : run = r
      · subst hr
        have hd := hf.deliveries_eq_nil hp.not_ended
        refine ⟨ho.deliver hd, ?_⟩
        simp only [Standing.after, if_true]
        simp [Fits, hd]
      · have hd : (Event.delivered run error tree).delivery? r = none := by simp [hr]
        rw [Standing.after_other rfl hd fun _ => rfl]
        exact ⟨ho.other rfl hd, hf.other rfl hd⟩
    | resolved id result =>
      refine ⟨ho.other rfl rfl, ?_⟩
      by_cases hw : ∃ i t, s = .waiting i t id
      · obtain ⟨i, t, rfl⟩ := hw
        simpa [Standing.after] using hf.resolve result
      · rw [Standing.after_resolved result fun i t hs => hw ⟨i, t, hs⟩]
        exact hf.other rfl rfl
    | _ => exact ⟨ho.other rfl rfl, hf.other rfl rfl⟩

theorem Lawful.orderly (h : x.Lawful r es) : x.Orderly r es := h.orderly_fits.1

theorem Lawful.fits (h : x.Lawful r es) : x.Fits r es (x.standing r es) := h.orderly_fits.2

theorem Lawful.due_le {index : Nat} {tree : Value} (h : x.Lawful r es)
    (hs : x.standing r es = .due index tree) : index ≤ x.steps.length := by
  have hf := h.fits
  rw [hs] at hf
  rw [← hf.1]
  exact h.orderly.length_le

end Run

end TextPipeline.Pipeline
