import TextPipeline.Proofs.Scope

/-! When the steps of a chain deliver their results does not matter. A chain of steps that fix what they
do and what they result in has one course: the calls with what the steps see, the progress that is told,
and the end. The course is a function of the steps and of the world, in which completions and waiting do
not occur. However steps deliver, and whatever happens meanwhile that leaves the tree and the file alone,
what has happened and what is still to come make up that course. -/

namespace TextPipeline.Pipeline

open TextPipeline.Transform
open TextPipeline.Pipeline.Action
open World (nobody)

/-- The progress that an event tells of. -/
def Event.report? : Event → Option Progress
  | .progress _ p => some p
  | _ => none

/-- The progress that was told, in order. -/
def reports (es : List Event) : List Progress := es.filterMap Event.report?

@[simp] theorem reports_append (es fs : List Event) : reports (es ++ fs) = reports es ++ reports fs :=
  List.filterMap_append

/-- A call of a step as it can be compared between runs: its number and name, the tree that it was
given, and what it saw. -/
structure Visit where
  index : Nat
  name : String
  tree : Value
  seen : View

/-- The calls of a run as they can be compared. -/
def visits (r : Nat) (es : List Event) : List Visit :=
  (calls r es).map fun a => ⟨a.index, a.step.name, a.tree, a.seen⟩

@[simp] theorem visits_append (r : Nat) (es fs : List Event) :
    visits r (es ++ fs) = visits r es ++ visits r fs := by
  simp [visits]

/-- What a chain comes to: the calls, the progress, the end if it comes to one, and what its steps
leave. -/
@[ext] structure Course where
  visits : List Visit
  reports : List Progress
  ending : Option (Option Fault × Value)
  scope : Scope

namespace Course

/-- A chain that is at its end. -/
def stop (ending : Option (Option Fault × Value)) (scope : Scope) : Course := ⟨[], [], ending, scope⟩

/-- A course before which something else happens. -/
def after (c : Course) (vs : List Visit) (ps : List Progress) : Course :=
  { c with visits := vs ++ c.visits, reports := ps ++ c.reports }

theorem after_after (c : Course) (vs ws : List Visit) (ps qs : List Progress) :
    (c.after vs ps).after ws qs = c.after (ws ++ vs) (qs ++ ps) := by
  simp [after]

end Course

section Course

variable (x : Run)

/-- The course from the result of a step on, with the course from the next step on. A chain that fails with
what cannot be described comes to no end. -/
def settled (go : Nat → Value → Core → Course) (index : Nat) (name : String) (tree : Value)
    (result : Resolution) (c : Core) : Course :=
  match result.error with
  | some f =>
    match f.inspect with
    | .ok _ => .stop (some (some f, tree)) (c.world.scope x.file)
    | .error _ => .stop none (c.world.scope x.file)
  | none =>
    match (tellStep x index name).result c.world with
    | (.error _, v) => (Course.stop none (v.scope x.file)).after [] (reports v.events)
    | (.ok _, v) => (go (index + 1) (result.tree.getD tree) v.core).after [] (reports v.events)

/-- The course from the moment on at which a step delivers what it fixed. -/
def decided (go : Nat → Value → Core → Course) (index : Nat) (name : String) (tree : Value)
    (v : Verdict) (c : Core) : Course :=
  settled x go index name tree (v.result (c.world.handed (v.tree c.world.sight)))
    (c.world.handing (v.tree c.world.sight)).core

/-- The course of the steps that are left, of which the first has the number `index`. -/
def course : List Part → Nat → Value → Core → Course
  | [], _, tree, c => .stop (some (none, tree)) (c.world.scope x.file)
  | p :: rest, index, tree, c =>
    let seen := c.world.view tree x.file
    match (carryOut tree x.file (p.plan seen).deeds).result c.world with
    | (.error f, v) =>
      (if f.isError then settled x (course rest) index p.title tree (.failed f) v.core
      else .stop none (v.scope x.file)).after [⟨index, p.title, tree, seen⟩] (reports v.events)
    | (.ok _, v) =>
      (decided x (course rest) index p.title tree (p.plan seen).verdict v.core).after
        [⟨index, p.title, tree, seen⟩] (reports v.events)

/-! The course depends on nothing but the file of the run, what is told of steps, and the scope. -/

variable {x} in
theorem settled_of_run {y : Run} (hf : x.file = y.file) (ht : tellStep x = tellStep y)
    (go : Nat → Value → Core → Course) : settled x go = settled y go := by
  funext index name tree result c
  rw [settled, settled, hf, ht]

variable {x} in
theorem course_of_run {y : Run} (hf : x.file = y.file) (ht : tellStep x = tellStep y)
    (parts : List Part) : course x parts = course y parts := by
  induction parts with
  | nil =>
    funext index tree c
    rw [course, course, hf]
  | cons p rest ih =>
    have hsettled := settled_of_run hf ht (course y rest)
    have hdecided : decided x (course y rest) = decided y (course y rest) := by
      funext index name tree v c
      rw [decided, decided, hsettled]
    funext index tree c
    rw [course, course, ih, hf, hsettled, hdecided]

variable {x} {c d : Core} (h : c.world.scope x.file = d.world.scope x.file)
include h

theorem settled_congr {go : Nat → Value → Core → Course}
    (hgo : ∀ i t (c d : Core), c.world.scope x.file = d.world.scope x.file → go i t c = go i t d)
    (index : Nat) (name : String) (tree : Value) (result : Resolution) :
    settled x go index name tree result c = settled x go index name tree result d := by
  unfold settled
  cases result.error with
  | some f =>
    dsimp only
    cases f.inspect <;> rw [h]
  | none =>
    have htell : Scoped x.file (tellStep x index name) := .emit _ _
    obtain ⟨ho, hs, es, hc, hd⟩ := htell c.world d.world h
    dsimp only
    generalize (tellStep x index name).result c.world = left at ho hs hc
    generalize (tellStep x index name).result d.world = right at ho hs hd
    obtain ⟨o, u⟩ := left
    obtain ⟨o', v⟩ := right
    obtain rfl : o = o' := ho
    have he : u.events = v.events := hc.trans hd.symm
    cases o with
    | error f =>
      dsimp only
      rw [he, hs]
    | ok _ =>
      dsimp only
      rw [he, hgo (index + 1) _ u.core v.core hs]

theorem decided_congr {go : Nat → Value → Core → Course}
    (hgo : ∀ i t (c d : Core), c.world.scope x.file = d.world.scope x.file → go i t c = go i t d)
    (index : Nat) (name : String) (tree : Value) (v : Verdict) :
    decided x go index name tree v c = decided x go index name tree v d := by
  have hhanding := World.handing_of_scope h (v.tree d.world.sight)
  rw [decided, decided, World.sight_of_scope h, World.handed_of_scope h]
  exact settled_congr (c := (c.world.handing _).core) (d := (d.world.handing _).core) hhanding hgo
    index name tree _

theorem course_congr (parts : List Part) (index : Nat) (tree : Value) :
    course x parts index tree c = course x parts index tree d := by
  induction parts generalizing index tree c d with
  | nil => rw [course, course, h]
  | cons p rest ih =>
    have hgo (i : Nat) (t : Value) (c d : Core) (h : c.world.scope x.file = d.world.scope x.file) :
        course x rest i t c = course x rest i t d := ih h i t
    rw [course, course, World.view_of_scope h]
    obtain ⟨ho, hs, es, hc, hd⟩ := Scoped.carryOut tree
      (p.plan (d.world.view tree x.file)).deeds c.world d.world h
    generalize (carryOut tree x.file (p.plan (d.world.view tree x.file)).deeds).result c.world =
      left at ho hs hc
    generalize (carryOut tree x.file (p.plan (d.world.view tree x.file)).deeds).result d.world =
      right at ho hs hd
    obtain ⟨o, u⟩ := left
    obtain ⟨o', v⟩ := right
    obtain rfl : o = o' := ho
    have he : u.events = v.events := hc.trans hd.symm
    have hsettled := settled_congr (c := u.core) (d := v.core) hs hgo index p.title tree
    have hdecided := decided_congr (c := u.core) (d := v.core) hs hgo index p.title tree
    cases o with
    | error f =>
      dsimp only
      rw [he, hs, hsettled]
    | ok _ =>
      dsimp only
      rw [he, hdecided]

end Course

/-- What has happened to a run so far, and then what is still to come. -/
def World.followed (w : World) (r : Nat) (c : Course) : Course :=
  c.after (visits r w.events) (reports w.events)

/-- What happens to no chain and is no progress does not belong to a course. -/
theorem World.followed_of_events {w v : World} {es : List Event} (r : Nat) (c : Course)
    (he : v.events = w.events ++ es) (hc : calls r es = []) :
    v.followed r c = w.followed r (c.after [] (reports es)) := by
  rw [followed, followed, Course.after_after, he, visits_append, reports_append]
  simp [visits, hc]

/-- The transformers that act as the parts of a chain. -/
def chainOf (parts : List (Part × Manner)) : List Transformer :=
  parts.map fun e => e.1.transformer e.2

section Drive

variable {host : Host} {r : Nat} {x : Run} {parts : List (Part × Manner)} {delivery : Delivery}

/-- A chain waits for a step that delivers later. -/
structure World.Waiting (w : World) (r : Nat) (x : Run) (parts : List (Part × Manner))
    (delivery : Delivery) (a : Invocation) (p : Part) (key : String) : Prop where
  run : w.runs[r]? = some x
  stands : x.standing r w.events = .waiting a.index a.tree a.completion
  last : (calls r w.events).getLast? = some a
  part : parts[a.index]? = some (p, .later key)
  held : ∃ c, w.completions[a.completion]? = some c ∧ c.phase = .pending ∧
    c.onDone = [⟨r, a.index, a.tree, delivery⟩]

/-- The course from a step on that fixed what it delivers. -/
def awaiting (x : Run) (parts : List (Part × Manner)) (a : Invocation) (p : Part) (c : Core) : Course :=
  decided x (course x ((parts.drop (a.index + 1)).map Prod.fst)) a.index p.title a.tree
    (p.plan a.seen).verdict c

/-- A step that delivers when it is called. -/
def PromptAt (parts : List (Part × Manner)) (a : Invocation) : Prop :=
  ∃ p m, parts[a.index]? = some (p, m) ∧ m.prompt = true

/-- An observer stops what it observes: it fails when it is told of the last event, with what is no error
or with an error of which the text cannot be read. -/
def Interrupts (watcher : Option Watcher) (es : List Event) (f : Fault) : Prop :=
  ∃ c p g, watcher = some c ∧ es.getLast? = some (.progress c.id p) ∧ c.reaction p = some g ∧
    (g.isError = false ∧ f = g ∨ g.isError = true ∧ g.render = .error f)

/-- What stops a chain on its way: what is no error, its observer, or a step that has failed with what
cannot be described. -/
inductive World.Stopped (w : World) (watcher : Option Watcher) (r : Nat) (f : Fault) : Prop
  | abort : f.isError = false → w.Stopped watcher r f
  | observer : Interrupts watcher w.events f → w.Stopped watcher r f
  | step {x : Run} {g : Fault} {tree : Value} : w.runs[r]? = some x →
    x.standing r w.events = .failed g tree → g.inspect = .error f → w.Stopped watcher r f

/-- How it stands with a chain that was driven in a world as far as it goes: it has told its end, it was
stopped on its way, or it waits. The course is the same in all cases. -/
inductive Leads (host : Host) (r : Nat) (x : Run) (parts : List (Part × Manner)) (delivery : Delivery)
    (w : World) (total : Course) : Outcome Unit × World → Prop where
  | ended {v : World} {s : Standing} {error : Option Fault} {final : Value} :
    v.Ready r x s → x.Permits r s (.delivered r error final) →
    total = v.followed r (.stop (some (error, final)) (v.scope x.file)) →
    (error = none → ∀ a ∈ calls r v.events, a ∈ calls r w.events ∨ PromptAt parts a) →
    Leads host r x parts delivery w total ((deliver host r delivery error final).result v)
  | escaped {v : World} {s : Standing} {f : Fault} :
    v.Ready r x s → s ≠ .ended → v.Stopped x.watcher r f →
    total = v.followed r (.stop none (v.scope x.file)) →
    Leads host r x parts delivery w total (.error f, v)
  | held {v : World} {a : Invocation} {p : Part} {key : String} :
    v.Waiting r x parts delivery a p key → total = v.followed r (awaiting x parts a p v.core) →
    (∃ record, v.events.getLast? = some (.log record)) →
    Leads host r x parts delivery w total (.ok (), v)

/-- An action on all but chains belongs to no course but by its progress. -/
theorem World.followed_moved {w : World} {α : Type} {y : Action α} (hy : Local y) (c : Course) :
    (y.result w).2.followed r c = w.followed r (c.after [] (reports (y.result w.core.world).2.events)) := by
  have hevents : (y.result w).2.events = w.events ++ (y.result w.core.world).2.events := by
    rw [hy.result w]
    rfl
  exact World.followed_of_events r c hevents
    (calls_neutral (fun e he => .of_ofChain (hy.quiet w.core e he)) r)

theorem World.followed_log (w : World) (record : LogRecord) (c : Course) :
    (w.told (.log record)).followed r c = w.followed r c := by
  have hevents : (w.told (.log record)).events = w.events ++ [.log record] := rfl
  exact World.followed_of_events r c hevents rfl

/-- What an observer that fails comes to. -/
theorem result_observed (g : Fault) (w : World) :
    (ofLogged (Progress.observed (some g))).result w =
      if g.isError then
        match g.render with
        | .ok said =>
          (.ok (), w.told (.log ⟨.warning, Progress.logger, "Progress callback failed: " ++ said⟩))
        | .error f => (.error f, w)
      else (.error g, w) := by
  have hfailed (f : Fault) : ((.error f, { w with events := w.events ++ [] }) : Outcome Unit × World) =
      (.error f, w) := by
    rw [List.append_nil]
  rw [Progress.observed]
  cases g.isError with
  | false => exact hfailed g
  | true =>
    cases g.render with
    | ok said => rfl
    | error f => exact hfailed f

/-- An action that tells of an event fails only where its observer stops it. -/
theorem emit_error {watcher : Option Watcher} {p : Progress} {w v : World} {f : Fault}
    (h : (emit watcher p).result w = (.error f, v)) : Interrupts watcher v.events f := by
  cases watcher with
  | none => cases (Prod.mk.inj h).1
  | some c =>
    have hemit : (emit (some c) p).result w =
        (ofLogged (Progress.observed (c.reaction p))).result (w.told (.progress c.id p)) := rfl
    rw [hemit] at h
    cases hc : c.reaction p with
    | none =>
      rw [hc] at h
      cases (Prod.mk.inj h).1
    | some g =>
      rw [hc, result_observed] at h
      cases hg : g.isError with
      | false =>
        rw [hg] at h
        obtain ⟨hf, rfl⟩ := Prod.mk.inj h
        exact ⟨c, p, g, rfl, List.getLast?_concat, hc, .inl ⟨hg, (Except.error.inj hf).symm⟩⟩
      | true =>
        rw [hg, if_pos rfl] at h
        cases hsaid : g.render with
        | ok said =>
          rw [hsaid] at h
          cases (Prod.mk.inj h).1
        | error e =>
          rw [hsaid] at h
          obtain ⟨hf, rfl⟩ := Prod.mk.inj h
          obtain rfl := Except.error.inj hf
          exact ⟨c, p, g, rfl, List.getLast?_concat, hc, .inr ⟨hg, hsaid⟩⟩

/-- What a chain does from the result of a step on. -/
def goFrom (host : Host) (r : Nat) (x : Run) (delivery : Delivery) (index : Nat) (name : String)
    (tree : Value) (rest : List Transformer) (result : Resolution) : Action Unit :=
  match result.error with
  | some f => failStep host r delivery name f tree
  | none => do
    tellStep x index name
    drive host r delivery false rest (index + 1) (result.tree.getD tree)

/-- A chain goes on from the result of a step as its course does, if it does so from the next step on. -/
theorem goFrom_leads {u w : World} {total : Course} {index : Nat} {name : String} {tree : Value}
    {result : Resolution} {rest : List (Part × Manner)} (h : w.Ready r x (.settle index tree result))
    (ht : total = w.followed r (settled x (course x (rest.map Prod.fst)) index name tree result w.core))
    (hp : result.error = none → ∀ a ∈ calls r w.events, a ∈ calls r u.events ∨ PromptAt parts a)
    (hgo : ∀ v : World, v.Ready r x (.due (index + 1) (result.tree.getD tree)) →
      (∀ a ∈ calls r v.events, a ∈ calls r u.events ∨ PromptAt parts a) →
      total = v.followed r (course x (rest.map Prod.fst) (index + 1) (result.tree.getD tree) v.core) →
      Leads host r x parts delivery u total ((drive host r delivery false (chainOf rest) (index + 1)
        (result.tree.getD tree)).result v)) :
    Leads host r x parts delivery u total
      ((goFrom host r x delivery index name tree (chainOf rest) result).result w) := by
  unfold goFrom
  cases he : result.error with
  | some f =>
    have hfailed : Standing.settle index tree result = .failed f tree := by simp [Standing.settle, he]
    rw [hfailed] at h
    rw [settled, he] at ht
    dsimp only at ht ⊢
    rw [failStep]
    cases hsaid : f.inspect with
    | error g =>
      rw [result_bind_error (result_logFault_error hsaid _ _ _ w)]
      rw [hsaid] at ht
      exact .escaped h (by simp) (.step h.run h.stands hsaid) ht
    | ok said =>
      have hready := h.of_local (Local.log .debug Transform.logger
        ("Transformer '" ++ name ++ "' failed: " ++ said))
      rw [result_bind_ok (result_logFault_ok hsaid _ _ _ w)]
      rw [hsaid] at ht
      refine .ended hready (fun _ => .inl rfl) ?_ (fun hnone => by cases hnone)
      rw [ht]
      exact (w.followed_log _ _).symm
  | none =>
    have hdue : w.Ready r x (.due (index + 1) (result.tree.getD tree)) := by
      simpa [Standing.settle, he] using h
    have hlocal : Local (tellStep x index name) := .emit _ _
    have hnext := hdue.of_local hlocal
    have hresult := hlocal.result w
    have hcalls : calls r ((tellStep x index name).result w).2.events = calls r w.events := by
      rw [hresult]
      simp [calls_neutral fun e he => .of_ofChain (hlocal.quiet w.core e he)]
    have hfollowed (c : Course) := World.followed_moved (r := r) (w := w) hlocal c
    rw [settled, he] at ht
    dsimp only at ht ⊢
    generalize htold : (tellStep x index name).result w = told at hnext hcalls hfollowed hresult
    generalize (tellStep x index name).result w.core.world = done at ht hfollowed hresult
    obtain ⟨o, v⟩ := done
    obtain ⟨o', v'⟩ := told
    obtain ⟨rfl, rfl⟩ := Prod.mk.inj hresult
    cases o' with
    | error f =>
      rw [result_bind_error htold]
      refine .escaped hnext (by simp) (.observer (emit_error htold)) ?_
      rw [ht, ← hfollowed]
      rfl
    | ok _ =>
      rw [result_bind_ok htold]
      refine hgo _ hnext (by rw [hcalls]; exact hp he) ?_
      rw [ht, ← hfollowed]
      rfl

/-- A call of a step belongs to the course, and so does the progress that is told meanwhile. -/
theorem World.followed_called {w v : World} {a : Invocation} {es : List Event} (c : Course)
    (he : v.events = w.events ++ .called r a :: es) (hc : calls r es = []) :
    v.followed r c = w.followed r
      (c.after [⟨a.index, a.step.name, a.tree, a.seen⟩] (reports es)) := by
  have hreports : reports (.called r a :: es) = reports es := rfl
  rw [followed, followed, Course.after_after, he, visits_append, reports_append, hreports]
  simp [visits, hc]

/-- A step of a chain that is resolved when its call returns. -/
theorem drive_resolved (hh : host.Steady) {u w v : World} {total : Course} {index : Nat} {tree : Value}
    {t : Transformer} {rest : List (Part × Manner)} {result : Resolution}
    (h : w.Ready r x (.due index tree)) (ht : x.steps[index]? = some t)
    (happly : (apply host x index t tree w.completions.length).result (w.calling r x index t tree) =
      (.ok (), v.answering w.completions.length (.start t.name) result))
    (hlt : w.completions.length < v.completions.length)
    (htotal : total = v.followed r
      (settled x (course x (rest.map Prod.fst)) index t.name tree result v.core))
    (hp : ∀ a ∈ calls r w.events, a ∈ calls r u.events ∨ PromptAt parts a)
    (hpt : result.error = none → PromptAt parts (w.invocation x index t tree))
    (hgo : ∀ v : World, v.Ready r x (.due (index + 1) (result.tree.getD tree)) →
      (∀ a ∈ calls r v.events, a ∈ calls r u.events ∨ PromptAt parts a) →
      total = v.followed r (course x (rest.map Prod.fst) (index + 1) (result.tree.getD tree) v.core) →
      Leads host r x parts delivery u total ((drive host r delivery false (chainOf rest) (index + 1)
        (result.tree.getD tree)).result v)) :
    Leads host r x parts delivery u total
      ((drive host r delivery false (t :: chainOf rest) index tree).result w) := by
  have hinv := Steady.invoke hh h ht
  have hinvoke := result_invoke host r x index t tree w
  rw [happly] at hinvoke
  rw [hinvoke] at hinv
  have hc : (v.answering w.completions.length (.start t.name) result).completions[
      w.completions.length]? = some (answered (.start t.name) result) :=
    List.getElem?_set_self hlt
  have hresult := World.result?_of_found hc
  have hready := hinv.settle hresult
  rw [drive, result_bind_ok (result_run h.run), result_bind_ok hinvoke,
    result_bind_ok (result_completion hc)]
  have hevents : (v.answering w.completions.length (.start t.name) result).events =
      v.events ++ [.resolved w.completions.length result] := rfl
  refine goFrom_leads hready (htotal.trans (World.followed_of_events r _ hevents rfl).symm)
    (fun he a ha => ?_) hgo
  rw [hinv.calls_eq, List.mem_append, List.mem_singleton] at ha
  rcases ha with ha | rfl
  · exact hp a ha
  · exact .inr (hpt he)

/-- A step of a chain that is to deliver later when its call returns. -/
theorem drive_held (hh : host.Steady) {u w v : World} {total : Course} {index : Nat} {tree : Value}
    {t : Transformer} {p : Part} {key : String} {rest : List Transformer}
    (h : w.Ready r x (.due index tree)) (ht : x.steps[index]? = some t)
    (happly : (apply host x index t tree w.completions.length).result (w.calling r x index t tree) =
      (.ok (), v))
    (hc : v.completions[w.completions.length]? = some (.start t.name))
    (hpart : parts[index]? = some (p, .later key))
    (htotal : total = v.followed r (decided x (course x ((parts.drop (index + 1)).map Prod.fst)) index
      p.title tree (p.plan (w.view tree x.file)).verdict v.core)) :
    Leads host r x parts delivery u total
      ((drive host r delivery false (t :: rest) index tree).result w) := by
  have hinv := Steady.invoke hh h ht
  have hinvoke := result_invoke host r x index t tree w
  rw [happly] at hinvoke
  rw [hinvoke] at hinv
  have hlog : Local (log .debug Transform.logger ("Transformer '" ++ t.name ++ "' is pending")) :=
    .log _ _ _
  have hready := hinv.waiting (World.result?_of_found hc)
  have hstands := (hready.of_local hlog).stands
  have hlt := (List.getElem?_eq_some_iff.mp hc).1
  rw [drive, result_bind_ok (result_run h.run), result_bind_ok hinvoke,
    result_bind_ok (result_completion hc)]
  refine .held (a := w.invocation x index t tree) (p := p) ⟨hready.run, hstands, ?_, hpart,
    ⟨_, List.getElem?_set_self hlt, rfl, rfl⟩⟩ ?_ ⟨_, List.getLast?_concat⟩
  · show (calls r ((v.told _).events)).getLast? = _
    rw [World.events_told, calls_append, hinv.calls_eq]
    simp
  · rw [htotal]
    exact (v.followed_log _ _).symm

/-- The world in which a part was called and its deeds were carried out, which came to another core
and to further events. -/
def World.acted (w : World) (r : Nat) (x : Run) (index : Nat) (p : Part) (m : Manner) (tree : Value)
    (d : World) : World :=
  ((w.calling r x index (p.transformer m) tree).told
    (applying x index (p.transformer m))).moved d.core d.events

section Acted

variable (w : World) (r : Nat) (x : Run) (index : Nat) (p : Part) (m : Manner) (tree : Value)

theorem World.core_acted (d : World) : (w.acted r x index p m tree d).core = d.core := rfl

theorem World.acted_completion (d : World) :
    (w.acted r x index p m tree d).completions[w.completions.length]? =
      some (.start (p.transformer m).name) :=
  w.calling_completion r x index (p.transformer m) tree

/-- What the call of a part does is settled by the core, up to how its result is delivered. -/
theorem World.result_apply_acted (host : Host) :
    (apply host x index (p.transformer m) tree w.completions.length).result
        (w.calling r x index (p.transformer m) tree) =
      match (carryOut tree x.file (p.plan (w.view tree x.file)).deeds).result w.core.world with
      | (.error f, d) =>
        if f.isError then
          (.ok (), (w.acted r x index p m tree d).answering w.completions.length
            (.start (p.transformer m).name) (.failed f))
        else (.error f, w.acted r x index p m tree d)
      | (.ok _, d) =>
        (.ok (), (w.acted r x index p m tree d).finish w.completions.length
          (.start (p.transformer m).name) (p.plan (w.view tree x.file)).verdict m) := by
  have hlocal := Local.carryOut tree x.file (p.plan (w.view tree x.file)).deeds
  have hview : (w.calling r x index (p.transformer m) tree).view tree x.file = w.view tree x.file := rfl
  have hcore : ((w.calling r x index (p.transformer m) tree).told
    (applying x index (p.transformer m))).core = w.core := rfl
  rw [result_apply_part (w.calling_completion r x index (p.transformer m) tree) rfl rfl, hview,
    hlocal.result, hcore]
  generalize (carryOut tree x.file (p.plan (w.view tree x.file)).deeds).result w.core.world = done
  obtain ⟨o, d⟩ := done
  cases o <;> rfl

/-- What a part does besides its result belongs to the course as its call. -/
theorem World.followed_acted {d : World} (hquiet : ∀ e ∈ d.events, e.ofChain = false) (c : Course) :
    (w.acted r x index p m tree d).followed r c =
      w.followed r (c.after [⟨index, p.title, tree, w.view tree x.file⟩] (reports d.events)) := by
  have hevents : (w.acted r x index p m tree d).events =
      w.events ++ .called r (w.invocation x index (p.transformer m) tree) ::
        applying x index (p.transformer m) :: d.events := by
    simp [World.acted, World.calling]
  have hcalls : calls r (applying x index (p.transformer m) :: d.events) = [] := by
    rw [calls_cons, calls_neutral fun e he => .of_ofChain (hquiet e he)]
    rfl
  rw [World.followed_called c hevents hcalls, ← p.transformer_name m]
  rfl

end Acted

/-- A step of a chain that fails with what is no error. -/
theorem drive_escaped (hh : host.Steady) {u w v : World} {total : Course} {index : Nat} {tree : Value}
    {t : Transformer} {rest : List Transformer} {f : Fault} (h : w.Ready r x (.due index tree))
    (ht : x.steps[index]? = some t)
    (happly : (apply host x index t tree w.completions.length).result (w.calling r x index t tree) =
      (.error f, v))
    (hc : v.completions[w.completions.length]? = some (.start t.name)) (hf : f.isError = false)
    (htotal : total = v.followed r (.stop none (v.scope x.file))) :
    Leads host r x parts delivery u total
      ((drive host r delivery false (t :: rest) index tree).result w) := by
  have hinv := Steady.invoke hh h ht
  have hinvoke := result_invoke host r x index t tree w
  rw [happly] at hinvoke
  rw [hinvoke] at hinv
  rw [drive, result_bind_ok (result_run h.run), result_bind_error hinvoke]
  exact .escaped (hinv.waiting (World.result?_of_found hc)) (by simp) (.abort hf) htotal

theorem drive_leads (hh : host.Steady) (hsteps : x.steps = chainOf parts) {u w : World}
    {total : Course} {index : Nat} {tree : Value} {rest : List (Part × Manner)}
    (h : w.Ready r x (.due index tree)) (hrest : parts.drop index = rest)
    (hp : ∀ a ∈ calls r w.events, a ∈ calls r u.events ∨ PromptAt parts a)
    (htotal : total = w.followed r (course x (rest.map Prod.fst) index tree w.core)) :
    Leads host r x parts delivery u total
      ((drive host r delivery false (chainOf rest) index tree).result w) := by
  -- the chain and its course are taken apart step by step, with what was told so far on the chain's side
  induction rest generalizing index tree w with
  | nil =>
    have hend : index = x.steps.length := by
      refine Nat.le_antisymm ((h.sound.lawful r x h.run).due_le h.stands) ?_
      rw [hsteps, chainOf, List.length_map]
      exact List.drop_eq_nil_iff.mp hrest
    have hlog : Local (log .debug Transform.logger "Transformer chain complete") := .log _ _ _
    show Leads host r x parts delivery u total ((drive host r delivery false [] index tree).result w)
    rw [drive, result_bind_ok (result_log _ _ _ w)]
    refine .ended (h.of_local hlog) (fun _ => by rw [hend]) ?_ fun _ => ?_
    · rw [htotal]
      exact (w.followed_log _ _).symm
    · intro a ha
      exact hp a (by simpa using ha)
  | cons e rest ih =>
    obtain ⟨p, m⟩ := e
    obtain ⟨hpart, hrest'⟩ := of_drop_eq_cons hrest
    have ht : x.steps[index]? = some (p.transformer m) := by
      rw [hsteps, chainOf, List.getElem?_map, hpart]
      rfl
    have happly := w.result_apply_acted r x index p m tree host
    have hquiet := (Local.carryOut tree x.file (p.plan (w.view tree x.file)).deeds).quiet w.core
    have hgo (result : Resolution) (v : World)
        (hv : v.Ready r x (.due (index + 1) (result.tree.getD tree)))
        (hpv : ∀ a ∈ calls r v.events, a ∈ calls r u.events ∨ PromptAt parts a)
        (hv' : total = v.followed r
          (course x (rest.map Prod.fst) (index + 1) (result.tree.getD tree) v.core)) :=
      ih hv hrest' hpv hv'
    have hview : w.core.world.view tree x.file = w.view tree x.file := rfl
    rw [List.map_cons, course, hview] at htotal
    show Leads host r x parts delivery u total
      ((drive host r delivery false (p.transformer m :: chainOf rest) index tree).result w)
    generalize (carryOut tree x.file (p.plan (w.view tree x.file)).deeds).result w.core.world = done
      at happly hquiet htotal
    obtain ⟨o, d⟩ := done
    have hfollowed := w.followed_acted r x index p m tree (d := d) hquiet
    have hcore := w.core_acted r x index p m tree d
    have hc := w.acted_completion r x index p m tree d
    have hlt := (List.getElem?_eq_some_iff.mp hc).1
    cases o with
    | error f =>
      dsimp only at htotal happly
      rw [← hcore, ← hfollowed] at htotal
      cases hf : f.isError with
      | true =>
        rw [hf, if_pos rfl] at happly htotal
        rw [← p.transformer_name m] at htotal
        exact drive_resolved hh h ht happly hlt htotal hp (fun he => by cases he) (hgo _)
      | false =>
        rw [hf, if_neg (by simp), ← World.scope_of_core hcore] at htotal
        rw [hf, if_neg (by simp)] at happly
        exact drive_escaped hh h ht happly hc hf htotal
    | ok _ =>
      dsimp only at htotal happly
      rw [← hcore, ← hfollowed] at htotal
      cases hm : m.prompt with
      | true =>
        rw [World.finish_of_prompt hm] at happly
        rw [← p.transformer_name m] at htotal
        exact drive_resolved hh h ht happly hlt htotal hp (fun _ => ⟨p, m, hpart, hm⟩) (hgo _)
      | false =>
        cases m with
        | later key =>
          rw [← hrest'] at htotal
          exact drive_held hh h ht happly hc hpart htotal
        | _ => cases hm

end Drive

end TextPipeline.Pipeline
