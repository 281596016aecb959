import TextPipeline.Proofs.Course

/-! What holds of the chains in every world. Every run has a lawful course, a completion is resolved
as its events say, and at most one resumption waits for a run, which stands then where the resumption
takes it up. `World.Sound` collects these facts. `World.Extends` says what an action may do to chains
that it does not own: a run for which no resumption waits is left alone. -/

namespace TextPipeline.Pipeline

open TextPipeline.Transform

/-- A run without its results. -/
def Run.bare (x : Run) : Run := { x with outcome := none, settled := none, compiled := none }

theorem Run.standing_bare (x : Run) (r : Nat) (es : List Event) :
    x.bare.standing r es = x.standing r es := rfl

theorem Run.lawful_bare {x : Run} {r : Nat} {es : List Event} :
    x.bare.Lawful r es ↔ x.Lawful r es := by
  refine forall₃_congr fun pre e post => imp_congr_right fun _ => ?_
  cases e with
  | delivered run error => cases error <;> rfl
  | _ => rfl

/-- A result leaves a tree that is one, if it leaves one. -/
def Rooted (result : Resolution) : Prop := ∀ tree, result.tree = some tree → tree.isNode = true

theorem rooted_failed (f : Fault) : Rooted (.failed f) := fun _ h => by cases h

theorem rooted_unchanged : Rooted .unchanged := fun _ h => by cases h

theorem rooted_ofReturn (name : String) (v : Value) : Rooted (.ofReturn name v) := by
  unfold Resolution.ofReturn
  split
  · exact rooted_unchanged
  · exact rooted_failed _
  · split
    · rename_i h
      rintro tree ⟨⟩
      exact h
    · exact rooted_failed _

theorem rooted_ofCall (name : String) (error tree : Value) : Rooted (.ofCall name error tree) := by
  unfold Resolution.ofCall
  split
  · split <;> exact rooted_failed _
  · split
    · exact rooted_unchanged
    · split
      · rename_i h
        rintro tree ⟨⟩
        exact h
      · exact rooted_failed _
  · exact rooted_failed _

/-- The resumption that a piece of work is to carry out, with the result that it takes up. -/
def Job.resume? : Job → Option (Resumption × Resolution)
  | .resume k result => some (k, result)
  | _ => none

/-- The runs and steps that an action may touch, besides those that it makes. -/
structure Rights where
  runs : Nat → Prop
  steps : Nat → Prop

namespace Rights

def ofRuns (p : Nat → Prop) : Rights := ⟨p, fun _ => False⟩

def run (r : Nat) : Rights := .ofRuns (· = r)

def step (id : Nat) : Rights := ⟨fun _ => False, (· = id)⟩

/-- To resolve any step. -/
def anyStep : Rights := ⟨fun _ => False, fun _ => True⟩

/-- Some rights are among others. -/
structure Within (a b : Rights) : Prop where
  runs : ∀ r, a.runs r → b.runs r
  steps : ∀ id, a.steps id → b.steps id

theorem Within.ofRuns {p : Nat → Prop} {own : Rights} (h : ∀ r, p r → own.runs r) :
    (ofRuns p).Within own := ⟨h, fun _ h => h.elim⟩

theorem Within.step {id : Nat} {own : Rights} (h : own.steps id) : (step id).Within own :=
  ⟨fun _ h => h.elim, fun n hn => by rw [show n = id from hn]; exact h⟩

end Rights

/-- What a transformer may touch: the step that it is, if it was handed the way to pass on its
result. -/
def Scene.rights (s : Scene) : Rights := ⟨fun _ => False, fun id => s.hasNext ∧ id = s.completion⟩

/-- An event that says nothing of chains. -/
def Event.Neutral (e : Event) : Prop :=
  ∀ n, e.call? n = none ∧ e.delivery? n = none ∧ e.resolution? n = none

theorem Event.Neutral.of_ofChain {e : Event} (h : e.ofChain = false) : e.Neutral := by
  cases e <;> first | exact fun _ => ⟨rfl, rfl, rfl⟩ | cases h

section Neutral

variable {es : List Event} (h : ∀ e ∈ es, e.Neutral)

include h

theorem calls_neutral (r : Nat) : calls r es = [] :=
  List.filterMap_eq_nil_iff.mpr fun e he => (h e he r).1

theorem deliveries_neutral (r : Nat) : deliveries r es = [] :=
  List.filterMap_eq_nil_iff.mpr fun e he => (h e he r).2.1

theorem resolutions_neutral (id : Nat) : resolutions id es = [] :=
  List.filterMap_eq_nil_iff.mpr fun e he => (h e he id).2.2

end Neutral

/-- A run that is neither called nor ended meanwhile stands where it stood, or where the resolution of
the step that it waits for takes it. -/
theorem Run.standing_idle (x : Run) {r : Nat} {es fs : List Event} (hc : calls r fs = [])
    (hd : deliveries r fs = []) :
    x.standing r (es ++ fs) =
      match x.standing r es with
      | .waiting index tree id =>
        match resolutions id fs with
        | [] => .waiting index tree id
        | result :: _ => .settle index tree result
      | s => s := by
  rw [Run.standing_append, Standing.foldl_idle _ _ hc hd]
  cases x.standing r es with
  | waiting i t id => cases resolutions id fs <;> rfl
  | due | failed | ended => rfl

theorem Run.standing_neutral (x : Run) {r : Nat} {es fs : List Event} (h : ∀ e ∈ fs, e.Neutral) :
    x.standing r (es ++ fs) = x.standing r es := by
  rw [x.standing_idle (calls_neutral h r) (deliveries_neutral h r)]
  split
  · rename_i hs
    rw [resolutions_neutral h, hs]
  · rfl

namespace World

/-- All that waits to let a chain go on: for a completion, or for its turn on the loop. -/
def resumptions (w : World) : List Resumption :=
  w.completions.flatMap (·.onDone) ++ (w.jobs.filterMap Job.resume?).map (·.1)

/-- The runs that something waits to let go on. -/
def awaited (w : World) : List Nat := w.resumptions.map (·.run)

/-- The result of a step, if there is one. -/
def result? (w : World) (id : Nat) : Option Resolution := (w.completions[id]?).bind (·.result?)

theorem result?_of_found {w : World} {id : Nat} {c : Completion Resolution Resumption Empty}
    (hc : w.completions[id]? = some c) : w.result? id = c.result? := by
  rw [result?, hc]
  rfl

/-- Nobody waits any more for a step. -/
def Abandoned (w : World) (id : Nat) : Prop :=
  ∃ c, w.completions[id]? = some c ∧ c.phase = .abandoned

/-- A run stands somewhere. -/
def Stands (w : World) (r : Nat) (s : Standing) : Prop :=
  ∃ x, w.runs[r]? = some x ∧ x.standing r w.events = s

/-- No kept way to pass on a result leads to a step. -/
def Unnamed (w : World) (id : Nat) : Prop := ∀ name, (name, some id) ∉ w.nexts

/-- What holds of the chains of every world. -/
structure Sound (w : World) : Prop where
  /-- Nothing was ever said of runs that are yet to be started. -/
  fresh : ∀ r, w.runs.length ≤ r → calls r w.events = [] ∧ deliveries r w.events = []
  lawful : ∀ r (x : Run), w.runs[r]? = some x → x.Lawful r w.events
  /-- A step is resolved once, as its completion says. -/
  answered : ∀ id, resolutions id w.events = (w.result? id).toList
  /-- What waits for a completion waits for a step that is pending, of a run that stands there. -/
  held : ∀ id (c : Completion Resolution Resumption Empty) k, w.completions[id]? = some c →
    k ∈ c.onDone → c.phase = .pending ∧ w.Stands k.run (.waiting k.index k.tree id)
  queued : ∀ k result, (k, result) ∈ w.jobs.filterMap Job.resume? →
    w.Stands k.run (.settle k.index k.tree result)
  single : w.awaited.Nodup
  /-- No way is kept to a step that is yet to be called. -/
  unnamed : ∀ id, w.completions.length ≤ id → w.Unnamed id
  rooted : ∀ id, ∀ result ∈ resolutions id w.events, Rooted result

/-- What an action may do to the chains with its rights. Runs that were awaited before it may go on,
and steps may be resolved to which a kept way leads. -/
structure Extends (own : Rights) (w v : World) : Prop where
  events : w.events <+: v.events
  runs : w.runs.map Run.bare <+: v.runs.map Run.bare
  completions : w.completions.length ≤ v.completions.length
  /-- Nobody stops waiting for a step that was there before. -/
  abandoned : ∀ id, id < w.completions.length → (v.Abandoned id ↔ w.Abandoned id)
  idle : ∀ r x, w.runs[r]? = some x → ¬own.runs r → r ∉ w.awaited →
    r ∉ v.awaited ∧ v.runs[r]? = some x ∧ calls r v.events = calls r w.events ∧
      deliveries r v.events = deliveries r w.events
  spared : ∀ id, ¬own.steps id → id < w.completions.length → w.Unnamed id →
    v.Unnamed id ∧ v.completions[id]? = w.completions[id]?
  /-- Nobody starts to wait for a step that was there before. -/
  unwaited : ∀ (id : Nat) (c d : Completion Resolution Resumption Empty), w.completions[id]? = some c →
    v.completions[id]? = some d → d.onDone.Sublist c.onDone

/-- A run is still there when further runs are added or runs get their results. -/
theorem exists_bare {w v : World} {r : Nat} {x : Run}
    (h : w.runs.map Run.bare <+: v.runs.map Run.bare) (hx : w.runs[r]? = some x) :
    ∃ y, v.runs[r]? = some y ∧ y.bare = x.bare := by
  have hlt : r < (w.runs.map Run.bare).length := by
    simpa using (List.getElem?_eq_some_iff.mp hx).1
  have hb := List.prefix_iff_getElem?.mp h r hlt
  have hr : (w.runs.map Run.bare)[r] = x.bare := by
    simp [(List.getElem?_eq_some_iff.mp hx).2]
  rw [hr, List.getElem?_map] at hb
  exact Option.map_eq_some_iff.mp hb

theorem abandoned_congr {w v : World} {id : Nat} (h : v.completions[id]? = w.completions[id]?) :
    v.Abandoned id ↔ w.Abandoned id := by
  rw [Abandoned, Abandoned, h]

theorem abandoned_iff {w : World} {id : Nat} {c : Completion Resolution Resumption Empty}
    (h : w.completions[id]? = some c) : w.Abandoned id ↔ c.phase = .abandoned := by
  constructor
  · rintro ⟨d, hd, ha⟩
    rwa [Option.some.inj (h.symm.trans hd)]
  · exact fun ha => ⟨c, h, ha⟩

/-- One completion is replaced by another, and neither is abandoned. -/
theorem abandoned_set {w v : World} {id n : Nat} {c d : Completion Resolution Resumption Empty}
    (h : w.completions[id]? = some c) (hc : c.phase ≠ .abandoned)
    (hv : v.completions = w.completions.set id d) (hd : d.phase ≠ .abandoned) :
    v.Abandoned n ↔ w.Abandoned n := by
  by_cases hne : id = n
  · subst hne
    have hself : v.completions[id]? = some d := by
      rw [hv, List.getElem?_set_self (List.getElem?_eq_some_iff.mp h).1]
    rw [abandoned_iff h, abandoned_iff hself]
    exact iff_of_false hd hc
  · exact abandoned_congr (by rw [hv, List.getElem?_set_ne hne])

/-- One completion is replaced by another for which no more waits. -/
theorem unwaited_set {w v : World} {id n : Nat} {a b c d : Completion Resolution Resumption Empty}
    (h : w.completions[id]? = some c) (hv : v.completions = w.completions.set id d)
    (hd : d.onDone.Sublist c.onDone) (ha : w.completions[n]? = some a)
    (hb : v.completions[n]? = some b) : b.onDone.Sublist a.onDone := by
  by_cases hne : id = n
  · subst hne
    rw [hv, List.getElem?_set_self (List.getElem?_eq_some_iff.mp h).1] at hb
    rwa [← Option.some.inj hb, Option.some.inj (ha.symm.trans h)]
  · rw [hv, List.getElem?_set_ne hne, ha] at hb
    exact Option.some.inj hb ▸ List.Sublist.refl _

theorem unwaited_congr {w v : World} {n : Nat} {a b : Completion Resolution Resumption Empty}
    (h : v.completions = w.completions) (ha : w.completions[n]? = some a)
    (hb : v.completions[n]? = some b) : b.onDone.Sublist a.onDone := by
  rw [h, ha] at hb
  exact Option.some.inj hb ▸ List.Sublist.refl _

theorem unnamed_congr {w v : World} {id : Nat} (h : v.nexts = w.nexts) :
    v.Unnamed id ↔ w.Unnamed id := by
  rw [Unnamed, Unnamed, h]

/-- No rights at all. -/
def nobody : Rights := .ofRuns fun _ => False

theorem nobody_within (own : Rights) : nobody.Within own := ⟨fun _ h => h.elim, fun _ h => h.elim⟩

namespace Extends

variable {own : Rights} {w u v : World}

theorem refl (own : Rights) (w : World) : w.Extends own w where
  events := List.prefix_rfl
  runs := List.prefix_rfl
  completions := Nat.le_refl _
  abandoned := fun _ _ => Iff.rfl
  idle := fun _ _ hx _ hr => ⟨hr, hx, rfl, rfl⟩
  spared := fun _ _ _ hu => ⟨hu, rfl⟩
  unwaited := fun _ _ _ ha hb => unwaited_congr rfl ha hb

/-- The runs that the second action owns were awaited before the first one, or owned by both, or were
not there; so it is with the steps. -/
theorem trans_of {other : Rights} (h : w.Extends own u) (h' : u.Extends other v)
    (ho : ∀ r, other.runs r → own.runs r ∨ r ∈ w.awaited ∨ w.runs.length ≤ r)
    (hs : ∀ id, other.steps id → own.steps id ∨ w.completions.length ≤ id) : w.Extends own v where
  events := h.events.trans h'.events
  runs := h.runs.trans h'.runs
  completions := Nat.le_trans h.completions h'.completions
  abandoned := fun id hid =>
    (h'.abandoned id (Nat.lt_of_lt_of_le hid h.completions)).trans (h.abandoned id hid)
  idle := fun r x hx hn hr => by
    obtain ⟨hr', hx', hc, hd⟩ := h.idle r x hx hn hr
    have hlt : r < w.runs.length := (List.getElem?_eq_some_iff.mp hx).1
    have hn' : ¬other.runs r := fun h => by
      rcases ho r h with h | h | h
      · exact hn h
      · exact hr h
      · omega
    obtain ⟨hr'', hx'', hc', hd'⟩ := h'.idle r x hx' hn' hr'
    exact ⟨hr'', hx'', hc'.trans hc, hd'.trans hd⟩
  spared := fun id hn hid hu => by
    obtain ⟨hu', hc⟩ := h.spared id hn hid hu
    have hn' : ¬other.steps id := fun h => by
      rcases hs id h with h | h
      · exact hn h
      · omega
    obtain ⟨hu'', hc'⟩ := h'.spared id hn' (Nat.lt_of_lt_of_le hid h.completions) hu'
    exact ⟨hu'', hc'.trans hc⟩
  unwaited := fun id c d hc hd => by
    have hlt := (List.getElem?_eq_some_iff.mp hc).1
    have hm := List.getElem?_eq_getElem (Nat.lt_of_lt_of_le hlt h.completions)
    exact (h'.unwaited id _ d hm hd).trans (h.unwaited id c _ hc hm)

theorem trans (h : w.Extends own u) (h' : u.Extends own v) : w.Extends own v :=
  h.trans_of h' (fun _ ho => .inl ho) fun _ hs => .inl hs

theorem mono {other : Rights} (h : w.Extends other v) (ho : other.Within own) :
    w.Extends own v where
  events := h.events
  runs := h.runs
  completions := h.completions
  abandoned := h.abandoned
  idle := fun r x hx hn hr => h.idle r x hx (fun h => hn (ho.runs r h)) hr
  spared := fun id hn hid hu => h.spared id (fun h => hn (ho.steps id h)) hid hu
  unwaited := h.unwaited

theorem of_nobody (h : w.Extends nobody v) : w.Extends own v := h.mono (nobody_within own)

/-- To resolve a step to which a kept way leads takes no rights. -/
theorem of_named {id : Nat} (h : w.Extends (.step id) v) (hid : ¬w.Unnamed id) : w.Extends nobody v where
  events := h.events
  runs := h.runs
  completions := h.completions
  abandoned := h.abandoned
  idle := fun r x hx _ hr => h.idle r x hx (fun h => h.elim) hr
  spared := fun n _ hn hu => h.spared n (fun h => hid (h ▸ hu)) hn hu
  unwaited := h.unwaited

end Extends

/-! ### What single changes of the chains preserve -/

variable {w v : World}

theorem Stands.of_eq {r : Nat} {s : Standing} (h : w.Stands r s)
    (hr : w.runs.map Run.bare <+: v.runs.map Run.bare)
    (he : ∀ x : Run, x.standing r w.events = s → x.standing r v.events = s) : v.Stands r s := by
  obtain ⟨x, hx, hs⟩ := h
  obtain ⟨y, hy, hyx⟩ := exists_bare hr hx
  refine ⟨y, hy, ?_⟩
  rw [← y.standing_bare, hyx, x.standing_bare]
  exact he x hs

/-- A change that leaves the chains as they are, apart from what becomes of the results of runs, is
of no concern to them. Less may wait for its turn on the loop. -/
theorem Sound.undisturbed (h : w.Sound) {es : List Event}
    (hr : v.runs.map Run.bare = w.runs.map Run.bare) (hc : v.completions = w.completions)
    (hj : (v.jobs.filterMap Job.resume?).Sublist (w.jobs.filterMap Job.resume?))
    (he : v.events = w.events ++ es) (hn : ∀ e ∈ es, e.Neutral)
    (hs : ∀ id, w.completions.length ≤ id → w.Unnamed id → v.Unnamed id) : v.Sound := by
  have hlen : v.runs.length = w.runs.length := by simpa using congrArg List.length hr
  have stands {r : Nat} {s : Standing} (hs : w.Stands r s) : v.Stands r s :=
    hs.of_eq (hr ▸ List.prefix_rfl) fun x hx => by rw [he, x.standing_neutral hn, hx]
  exact {
    fresh := fun r hle => by
      rw [hlen] at hle
      simp [he, h.fresh r hle, calls_neutral hn, deliveries_neutral hn]
    lawful := fun r x hx => by
      obtain ⟨y, hy, hyx⟩ := exists_bare (v := w) (hr ▸ List.prefix_rfl) hx
      rw [he, ← Run.lawful_bare, ← hyx, Run.lawful_bare]
      exact (h.lawful r y hy).append_idle (calls_neutral hn r) (deliveries_neutral hn r)
    answered := fun id => by
      rw [he, resolutions_append, resolutions_neutral hn, List.append_nil, h.answered, result?,
        result?, hc]
    held := fun id c k hid hk => by
      rw [hc] at hid
      obtain ⟨hp, hs⟩ := h.held id c k hid hk
      exact ⟨hp, stands hs⟩
    queued := fun k result hk => stands (h.queued k result (hj.subset hk))
    single := by
      refine List.Sublist.nodup ?_ h.single
      rw [awaited, awaited, resumptions, resumptions, hc]
      exact (List.Sublist.append_left (hj.map _) _).map _
    unnamed := fun id hid => by
      rw [hc] at hid
      exact hs id hid (h.unnamed id hid)
    rooted := fun id => by
      rw [he, resolutions_append, resolutions_neutral hn, List.append_nil]
      exact h.rooted id }

theorem Extends.undisturbed (own : Rights) {es : List Event}
    (hr : v.runs.map Run.bare = w.runs.map Run.bare) (hc : v.completions = w.completions)
    (hj : (v.jobs.filterMap Job.resume?).Sublist (w.jobs.filterMap Job.resume?))
    (he : v.events = w.events ++ es) (hn : ∀ e ∈ es, e.Neutral)
    (ho : ∀ r, ¬own.runs r → v.runs[r]? = w.runs[r]?)
    (hs : ∀ id, ¬own.steps id → w.Unnamed id → v.Unnamed id) : w.Extends own v where
  spared := fun id hn _ hu => ⟨hs id hn hu, by rw [hc]⟩
  unwaited := fun _ _ _ ha hb => unwaited_congr hc ha hb
  events := ⟨es, he.symm⟩
  runs := hr ▸ List.prefix_rfl
  completions := Nat.le_of_eq (by rw [hc])
  abandoned := fun id _ => abandoned_congr (by rw [hc])
  idle := fun r x hx hn' hw => by
    refine ⟨fun hv => hw (List.Sublist.subset ?_ hv), by rw [ho r hn', hx], ?_, ?_⟩
    · rw [awaited, awaited, resumptions, resumptions, hc]
      exact (List.Sublist.append_left (hj.map _) _).map _
    · rw [he, calls_append, calls_neutral hn, List.append_nil]
    · rw [he, deliveries_append, deliveries_neutral hn, List.append_nil]

/-- What waits for steps when one completion is replaced by another. -/
theorem onDone_set {cs : List (Completion Resolution Resumption Empty)} {id : Nat}
    {c : Completion Resolution Resumption Empty} (h : cs[id]? = some c)
    (d : Completion Resolution Resumption Empty) :
    ∃ pre post, cs.flatMap (·.onDone) = pre ++ c.onDone ++ post ∧
      (cs.set id d).flatMap (·.onDone) = pre ++ d.onDone ++ post := by
  induction cs generalizing id with
  | nil => simp at h
  | cons b cs ih =>
    cases id with
    | zero =>
      obtain rfl : b = c := by simpa using h
      exact ⟨[], cs.flatMap (·.onDone), by simp, by simp⟩
    | succ id =>
      obtain ⟨pre, post, h₁, h₂⟩ := ih (by simpa using h)
      exact ⟨b.onDone ++ pre, post, by simp [h₁], by simp [h₂]⟩

/-- What waits for chains when one completion is replaced by another. -/
theorem awaited_set {id : Nat} {c d : Completion Resolution Resumption Empty}
    (h : w.completions[id]? = some c) (hc : v.completions = w.completions.set id d)
    (hj : v.jobs = w.jobs) :
    ∃ pre post, w.awaited = pre ++ c.onDone.map (·.run) ++ post ∧
      v.awaited = pre ++ d.onDone.map (·.run) ++ post := by
  obtain ⟨pre, post, h₁, h₂⟩ := onDone_set h d
  refine ⟨pre.map (·.run), post.map (·.run) ++ (w.jobs.filterMap Job.resume?).map (·.1.run), ?_, ?_⟩
  · simp [awaited, resumptions, h₁]
  · simp [awaited, resumptions, hc, hj, h₂]

/-- A resumption that waits for a completion is awaited. -/
theorem mem_awaited {id : Nat} {c : Completion Resolution Resumption Empty} {k : Resumption}
    (h : w.completions[id]? = some c) (hk : k ∈ c.onDone) : k.run ∈ w.awaited := by
  refine List.mem_map.mpr ⟨k, List.mem_append_left _ (List.mem_flatMap.mpr ⟨c, ?_, hk⟩), rfl⟩
  exact List.mem_of_getElem? h

theorem mem_awaited_job {k : Resumption} {result : Resolution}
    (h : (k, result) ∈ w.jobs.filterMap Job.resume?) : k.run ∈ w.awaited :=
  List.mem_map.mpr ⟨k, List.mem_append_right _ (List.mem_map.mpr ⟨_, h, rfl⟩), rfl⟩

/-- A run that is awaited was started. -/
theorem Sound.awaited_lt (h : w.Sound) {r : Nat} (hr : r ∈ w.awaited) : r < w.runs.length := by
  have of_stands {s : Standing} (hs : w.Stands r s) : r < w.runs.length := by
    obtain ⟨x, hx, -⟩ := hs
    exact (List.getElem?_eq_some_iff.mp hx).1
  obtain ⟨k, hk, rfl⟩ := List.mem_map.mp hr
  rcases List.mem_append.mp hk with hk | hk
  · obtain ⟨c, hc, hk⟩ := List.mem_flatMap.mp hk
    obtain ⟨id, hid, rfl⟩ := List.mem_iff_getElem.mp hc
    exact of_stands (h.held id _ k (List.getElem?_eq_getElem hid) hk).2
  · obtain ⟨⟨k', result⟩, hj, rfl⟩ := List.mem_map.mp hk
    exact of_stands (h.queued k' result hj)

/-- A pending step is resolved. -/
structure Resolving (w v : World) (id : Nat) (c : Completion Resolution Resumption Empty)
    (result : Resolution) : Prop where
  found : w.completions[id]? = some c
  pending : c.phase = .pending
  completions : v.completions = w.completions.set id { c with phase := .done result, onDone := [] }
  events : v.events = w.events ++ [.resolved id result]
  runs : v.runs = w.runs
  jobs : v.jobs = w.jobs
  nexts : v.nexts = w.nexts

namespace Resolving

variable {id : Nat} {c : Completion Resolution Resumption Empty} {result : Resolution}
  (hv : w.Resolving v id c result)
include hv

theorem lt : id < w.completions.length := (List.getElem?_eq_some_iff.mp hv.found).1

theorem others {n : Nat} (hn : n ≠ id) : v.completions[n]? = w.completions[n]? := by
  rw [hv.completions, List.getElem?_set_ne (Ne.symm hn)]

/-- What waited for the step is not awaited any more, and all else is. -/
theorem awaited : ∃ pre post, w.awaited = pre ++ c.onDone.map (·.run) ++ post ∧
    v.awaited = pre ++ post := by
  obtain ⟨pre, post, hpre, hpost⟩ := awaited_set hv.found hv.completions hv.jobs
  exact ⟨pre, post, hpre, by simpa using hpost⟩

theorem stands {r : Nat} {s : Standing} (hs : w.Stands r s) (hne : ∀ i t, s ≠ .waiting i t id) :
    v.Stands r s :=
  hs.of_eq (hv.runs ▸ List.prefix_rfl) fun x hx => by
    rw [hv.events, x.standing_snoc, hx, Standing.after_resolved result hne]

theorem sound (h : w.Sound) (hroot : Rooted result) : v.Sound where
  fresh := fun r hle => by
    rw [hv.runs] at hle
    simp [hv.events, h.fresh r hle]
  lawful := fun r x hx => by
    rw [hv.runs] at hx
    rw [hv.events]
    exact (h.lawful r x hx).append_idle rfl rfl
  answered := fun n => by
    rw [hv.events, resolutions_append, h.answered]
    by_cases hn : n = id
    · subst hn
      rw [result?, result?, hv.completions, List.getElem?_set_self hv.lt, hv.found]
      simp [Completion.result?, hv.pending]
    · rw [result?, result?, hv.others hn]
      simp [Ne.symm hn]
  held := fun n d k hn hk => by
    by_cases hne : n = id
    · subst hne
      rw [hv.completions, List.getElem?_set_self hv.lt] at hn
      obtain rfl := Option.some.inj hn
      cases hk
    · rw [hv.others hne] at hn
      obtain ⟨hp, hs⟩ := h.held n d k hn hk
      exact ⟨hp, hv.stands hs fun i t heq => hne (Standing.waiting.inj heq).2.2⟩
  queued := fun k result' hk => by
    rw [hv.jobs] at hk
    exact hv.stands (h.queued k result' hk) (Standing.settle_ne_waiting _ _ _ · · id)
  single := by
    obtain ⟨pre, post, hpre, hpost⟩ := hv.awaited
    have hsingle := h.single
    rw [hpre] at hsingle
    rw [hpost]
    exact List.Sublist.nodup (by simp) hsingle
  unnamed := fun n hn =>
    (unnamed_congr hv.nexts).mpr (h.unnamed n (by simpa [hv.completions] using hn))
  rooted := fun n d hd => by
    rw [hv.events, resolutions_append, List.mem_append] at hd
    rcases hd with hd | hd
    · exact h.rooted n d hd
    · by_cases hn : id = n
      · obtain rfl : d = result := by simpa [hn] using hd
        exact hroot
      · simp [hn] at hd

theorem extends_ : w.Extends (.step id) v where
  events := ⟨_, hv.events.symm⟩
  runs := hv.runs ▸ List.prefix_rfl
  completions := by simp [hv.completions]
  abandoned := fun _ _ => abandoned_set hv.found (by simp [hv.pending]) hv.completions (by simp)
  idle := fun r x hx _ hra => by
    obtain ⟨pre, post, hpre, hpost⟩ := hv.awaited
    refine ⟨fun hm => hra ?_, by rw [hv.runs, hx], by simp [hv.events], by simp [hv.events]⟩
    rw [hpost] at hm
    rw [hpre]
    simp only [List.mem_append] at hm ⊢
    exact hm.elim (fun hm => .inl (.inl hm)) .inr
  spared := fun n hn _ hu => ⟨(unnamed_congr hv.nexts).mpr hu, hv.others hn⟩
  unwaited := fun _ _ _ => unwaited_set hv.found hv.completions (List.nil_sublist _)

/-- What waited for the step is to go on now, each of it once. -/
theorem goes_on (h : w.Sound) : (c.onDone.map (·.run)).Nodup ∧
    ∀ k ∈ c.onDone, v.Stands k.run (.settle k.index k.tree result) ∧ k.run ∉ v.awaited := by
  obtain ⟨pre, post, hpre, hpost⟩ := hv.awaited
  have hsingle := h.single
  rw [hpre] at hsingle
  obtain ⟨hleft, -, hright⟩ := List.nodup_append.mp hsingle
  obtain ⟨-, hmine, hdisjoint⟩ := List.nodup_append.mp hleft
  refine ⟨hmine, fun k hk => ⟨?_, fun hm => ?_⟩⟩
  · obtain ⟨-, x, hx, hs⟩ := h.held id c k hv.found hk
    refine ⟨x, by rw [hv.runs, hx], ?_⟩
    rw [hv.events, x.standing_snoc, hs]
    simp [Standing.after]
  · have hk' : k.run ∈ c.onDone.map (·.run) := List.mem_map_of_mem hk
    rw [hpost] at hm
    rcases List.mem_append.mp hm with hm | hm
    · exact hdisjoint _ hm _ hk' rfl
    · exact hright _ (List.mem_append_right _ hk') _ hm rfl

end Resolving

/-- The step that is due is called, with a completion to which nothing has happened. -/
structure Calling (w v : World) (r : Nat) (x : Run) (a : Invocation)
    (c : Completion Resolution Resumption Empty) : Prop where
  run : w.runs[r]? = some x
  due : x.standing r w.events = .due a.index a.tree
  step : x.steps[a.index]? = some a.step
  completion : a.completion = w.completions.length
  free : r ∉ w.awaited
  pending : c.phase = .pending
  unwaited : c.onDone = []
  completions : v.completions = w.completions ++ [c]
  events : v.events = w.events ++ [.called r a]
  runs : v.runs = w.runs
  jobs : v.jobs = w.jobs
  nexts : v.nexts = w.nexts

namespace Calling

variable {r : Nat} {x : Run} {a : Invocation} {c : Completion Resolution Resumption Empty}
  (hv : w.Calling v r x a c)
include hv

theorem awaited : v.awaited = w.awaited := by
  simp [World.awaited, resumptions, hv.completions, hv.jobs, hv.unwaited]

theorem standing : x.standing r v.events = .waiting a.index a.tree w.completions.length := by
  rw [hv.events, x.standing_snoc, ← hv.completion]
  simp [Standing.after]

theorem earlier {n : Nat} (hn : n < w.completions.length) :
    v.completions[n]? = w.completions[n]? := by
  rw [hv.completions, List.getElem?_append_left hn]

theorem stands {r' : Nat} {s : Standing} (hne : r ≠ r') (hs : w.Stands r' s) : v.Stands r' s :=
  hs.of_eq (hv.runs ▸ List.prefix_rfl) fun y hy => by
    rw [hv.events, y.standing_snoc, hy, Standing.after_other (by simp [hne]) rfl fun _ => rfl]

theorem sound (h : w.Sound) : v.Sound where
  fresh := fun r' hle => by
    rw [hv.runs] at hle
    have hne : r ≠ r' := by
      rintro rfl
      have := (List.getElem?_eq_some_iff.mp hv.run).1
      omega
    simp [hv.events, h.fresh r' hle, hne]
  lawful := fun r' y hy => by
    rw [hv.runs] at hy
    rw [hv.events, Run.Lawful.snoc_iff]
    refine ⟨h.lawful r' y hy, fun hr' => ?_⟩
    subst hr'
    obtain rfl : x = y := Option.some.inj (hv.run.symm.trans hy)
    exact ⟨hv.due, hv.step⟩
  answered := fun n => by
    rw [hv.events, resolutions_append, h.answered, result?, result?, hv.completions]
    by_cases hn : n < w.completions.length
    · rw [List.getElem?_append_left hn]
      simp
    · rw [List.getElem?_eq_none (by omega)]
      rcases Nat.lt_or_eq_of_le (Nat.le_of_not_lt hn) with hlt | rfl
      · rw [List.getElem?_eq_none (by simp; omega)]
        simp
      · simp [Completion.result?, hv.pending]
  held := fun n d k hn hk => by
    by_cases hlt : n < w.completions.length
    · rw [hv.earlier hlt] at hn
      obtain ⟨hp, hs⟩ := h.held n d k hn hk
      exact ⟨hp, hv.stands (fun heq => hv.free (heq ▸ mem_awaited hn hk)) hs⟩
    · rw [hv.completions] at hn
      have hlen := (List.getElem?_eq_some_iff.mp hn).1
      obtain rfl : n = w.completions.length := by simp at hlen; omega
      rw [List.getElem?_concat_length] at hn
      obtain rfl := Option.some.inj hn
      simp [hv.unwaited] at hk
  queued := fun k result hk => by
    rw [hv.jobs] at hk
    exact hv.stands (fun heq => hv.free (heq ▸ mem_awaited_job hk)) (h.queued k result hk)
  single := hv.awaited ▸ h.single
  unnamed := fun n hn => by
    rw [hv.completions, List.length_append] at hn
    exact (unnamed_congr hv.nexts).mpr (h.unnamed n (by omega))
  rooted := fun n => by
    rw [hv.events, resolutions_append]
    simpa using h.rooted n

theorem extends_ : w.Extends (.run r) v where
  events := ⟨_, hv.events.symm⟩
  runs := hv.runs ▸ List.prefix_rfl
  completions := by simp [hv.completions]
  abandoned := fun _ hn => abandoned_congr (hv.earlier hn)
  idle := fun r' y hy hne hr' => by
    have hne' : r ≠ r' := fun h => hne h.symm
    exact ⟨hv.awaited ▸ hr', by rw [hv.runs, hy], by simp [hv.events, hne'], by simp [hv.events]⟩
  spared := fun _ _ hn hu => ⟨(unnamed_congr hv.nexts).mpr hu, hv.earlier hn⟩
  unwaited := fun n b d hb hd => by
    rw [hv.earlier (List.getElem?_eq_some_iff.mp hb).1, hb] at hd
    exact Option.some.inj hd ▸ List.Sublist.refl _

end Calling

/-- What waits is changed, and nothing happens to a chain. -/
theorem Sound.rearranged (h : w.Sound) (he : v.events = w.events) (hr : v.runs = w.runs)
    (ha : ∀ id, v.result? id = w.result? id)
    (hheld : ∀ id (c : Completion Resolution Resumption Empty) k, v.completions[id]? = some c →
      k ∈ c.onDone → c.phase = .pending ∧ w.Stands k.run (.waiting k.index k.tree id))
    (hqueued : ∀ k result, (k, result) ∈ v.jobs.filterMap Job.resume? →
      w.Stands k.run (.settle k.index k.tree result))
    (hsingle : v.awaited.Nodup) (hc : v.completions.length = w.completions.length)
    (hx : v.nexts = w.nexts) : v.Sound := by
  have stands {r : Nat} {s : Standing} (hs : w.Stands r s) : v.Stands r s :=
    hs.of_eq (hr ▸ List.prefix_rfl) fun x hx => by rw [he, hx]
  exact {
    fresh := by
      rw [hr, he]
      exact h.fresh
    lawful := by
      rw [hr, he]
      exact h.lawful
    answered := fun id => by rw [he, h.answered, ha]
    held := fun id c k hid hk => by
      obtain ⟨hp, hs⟩ := hheld id c k hid hk
      exact ⟨hp, stands hs⟩
    queued := fun k result hk => stands (hqueued k result hk)
    single := hsingle
    unnamed := fun id hid => (unnamed_congr hx).mpr (h.unnamed id (hc ▸ hid))
    rooted := by
      rw [he]
      exact h.rooted }

/-- A completion is replaced that was not there before the chains were looked at. -/
theorem Extends.replaced {u : World} {own : Rights} (hu : u.Extends own w) {id : Nat}
    {d : Completion Resolution Resumption Empty} (hnew : u.completions.length ≤ id)
    (hc : v.completions = w.completions.set id d) (he : v.events = w.events) (hr : v.runs = w.runs)
    (hx : v.nexts = w.nexts) (hi : ∀ r, ¬own.runs r → r ∉ w.awaited → r ∉ v.awaited) :
    u.Extends own v := by
  have same {n : Nat} (hn : n < u.completions.length) : v.completions[n]? = w.completions[n]? := by
    rw [hc, List.getElem?_set_ne (by omega)]
  refine ⟨he ▸ hu.events, hr ▸ hu.runs, by simp [hc, hu.completions], fun n hn => ?_, ?_, ?_, ?_⟩
  · rw [← hu.abandoned n hn]
    exact abandoned_congr (same hn)
  · intro r x hx hn hra
    obtain ⟨hra', hx', hcalls, hdel⟩ := hu.idle r x hx hn hra
    exact ⟨hi r hn hra', by rw [hr, hx'], by rw [he, hcalls], by rw [he, hdel]⟩
  · intro n hn hlt hnamed
    obtain ⟨hnamed', hc'⟩ := hu.spared n hn hlt hnamed
    exact ⟨(unnamed_congr hx).mpr hnamed', by rw [same hlt, hc']⟩
  · intro n a b ha hb
    rw [same (List.getElem?_eq_some_iff.mp ha).1] at hb
    exact hu.unwaited n a b ha hb

/-- A chain is to go on when a step is resolved that is pending, and that was not there before the
chains were looked at. -/
theorem Sound.hold {u : World} {own : Rights} (h : w.Sound) (hu : u.Extends own w) {id : Nat}
    {c : Completion Resolution Resumption Empty} {k : Resumption}
    (hid : w.completions[id]? = some c) (hp : c.phase = .pending)
    (hnew : u.completions.length ≤ id) (hs : w.Stands k.run (.waiting k.index k.tree id))
    (hk : k.run ∉ w.awaited) (hown : own.runs k.run)
    (hc : v.completions = w.completions.set id { c with onDone := c.onDone ++ [k] })
    (he : v.events = w.events) (hr : v.runs = w.runs) (hj : v.jobs = w.jobs)
    (hx : v.nexts = w.nexts) : v.Sound ∧ u.Extends own v := by
  obtain ⟨pre, post, hw, hv⟩ := awaited_set hid hc hj
  have hperm : v.awaited.Perm (k.run :: w.awaited) := by
    rw [hw, hv]
    simpa using @List.perm_middle _ k.run (pre ++ c.onDone.map (·.run)) post
  have hlt : id < w.completions.length := (List.getElem?_eq_some_iff.mp hid).1
  constructor
  · refine h.rearranged he hr (fun n => ?_) (fun n d k' hn hk' => ?_) (by rw [hj]; exact h.queued)
      (hperm.nodup_iff.mpr (List.nodup_cons.mpr ⟨hk, h.single⟩)) (by simp [hc]) hx
    · rw [result?, result?, hc]
      by_cases hn : n = id
      · subst hn
        rw [List.getElem?_set_self hlt, hid]
        rfl
      · rw [List.getElem?_set_ne (Ne.symm hn)]
    · by_cases hne : n = id
      · subst hne
        rw [hc, List.getElem?_set_self hlt] at hn
        obtain rfl := Option.some.inj hn
        refine ⟨hp, ?_⟩
        rcases List.mem_append.mp hk' with hm | hm
        · exact (h.held n c k' hid hm).2
        · obtain rfl : k' = k := by simpa using hm
          exact hs
      · rw [hc, List.getElem?_set_ne (Ne.symm hne)] at hn
        exact h.held n d k' hn hk'
  · refine hu.replaced hnew hc he hr hx fun r hn hra hm => ?_
    rcases List.mem_cons.mp (hperm.mem_iff.mp hm) with heq | hm
    · exact hn (heq ▸ hown)
    · exact hra hm

/-- Nobody waits any more for a step that is pending, and that was not there before the chain was
looked at. -/
theorem Sound.abandon {u : World} {own : Rights} (h : w.Sound) (hu : u.Extends own w) {id : Nat}
    {c : Completion Resolution Resumption Empty} (hid : w.completions[id]? = some c)
    (hp : c.phase = .pending) (hnew : u.completions.length ≤ id)
    (hc : v.completions = w.completions.set id { c with phase := .abandoned, onDone := [] })
    (he : v.events = w.events) (hr : v.runs = w.runs) (hj : v.jobs = w.jobs)
    (hx : v.nexts = w.nexts) : v.Sound ∧ u.Extends own v ∧ v.awaited.Sublist w.awaited := by
  obtain ⟨pre, post, hw, hv⟩ := awaited_set hid hc hj
  have hsub : v.awaited.Sublist w.awaited := by
    rw [hw, hv]
    simp
  have hlt : id < w.completions.length := (List.getElem?_eq_some_iff.mp hid).1
  refine ⟨?_, ?_, hsub⟩
  · refine h.rearranged he hr (fun n => ?_) (fun n d k hn hk => ?_) (by rw [hj]; exact h.queued)
      (hsub.nodup h.single) (by simp [hc]) hx
    · rw [result?, result?, hc]
      by_cases hn : n = id
      · subst hn
        rw [List.getElem?_set_self hlt, hid]
        simp [Completion.result?, hp]
      · rw [List.getElem?_set_ne (Ne.symm hn)]
    · by_cases hne : n = id
      · subst hne
        rw [hc, List.getElem?_set_self hlt] at hn
        obtain rfl := Option.some.inj hn
        simp at hk
      · rw [hc, List.getElem?_set_ne (Ne.symm hne)] at hn
        exact h.held n d k hn hk
  · exact hu.replaced hnew hc he hr hx fun r _ hra hm => hra (hsub.subset hm)

/-- The end of a chain is told. -/
structure Delivering (w v : World) (r : Nat) (x : Run) (error : Option Fault) (tree : Value) : Prop where
  run : w.runs[r]? = some x
  permits : x.Permits r (x.standing r w.events) (.delivered r error tree)
  free : r ∉ w.awaited
  events : v.events = w.events ++ [.delivered r error tree]
  runs : v.runs = w.runs
  completions : v.completions = w.completions
  jobs : v.jobs = w.jobs
  nexts : v.nexts = w.nexts

namespace Delivering

variable {r : Nat} {x : Run} {error : Option Fault} {tree : Value}
  (hv : w.Delivering v r x error tree)
include hv

theorem awaited : v.awaited = w.awaited := by
  simp [World.awaited, resumptions, hv.completions, hv.jobs]

theorem stands {r' : Nat} {s : Standing} (hne : r ≠ r') (hs : w.Stands r' s) : v.Stands r' s :=
  hs.of_eq (hv.runs ▸ List.prefix_rfl) fun y hy => by
    rw [hv.events, y.standing_snoc, hy, Standing.after_other rfl (by simp [hne]) fun _ => rfl]

theorem sound (h : w.Sound) : v.Sound where
  fresh := fun r' hle => by
    rw [hv.runs] at hle
    have hne : r ≠ r' := by
      rintro rfl
      have := (List.getElem?_eq_some_iff.mp hv.run).1
      omega
    simp [hv.events, h.fresh r' hle, hne]
  lawful := fun r' y hy => by
    rw [hv.runs] at hy
    rw [hv.events, Run.Lawful.snoc_iff]
    refine ⟨h.lawful r' y hy, ?_⟩
    by_cases heq : r = r'
    · subst heq
      obtain rfl : x = y := Option.some.inj (hv.run.symm.trans hy)
      exact hv.permits
    · cases error <;> exact fun hr' => absurd hr' heq
  answered := fun n => by
    rw [hv.events, resolutions_append, h.answered, result?, result?, hv.completions]
    simp
  held := fun n d k hn hk => by
    rw [hv.completions] at hn
    obtain ⟨hp, hs⟩ := h.held n d k hn hk
    exact ⟨hp, hv.stands (fun heq => hv.free (heq ▸ mem_awaited hn hk)) hs⟩
  queued := fun k result hk => by
    rw [hv.jobs] at hk
    exact hv.stands (fun heq => hv.free (heq ▸ mem_awaited_job hk)) (h.queued k result hk)
  single := hv.awaited ▸ h.single
  unnamed := fun n hn => (unnamed_congr hv.nexts).mpr (h.unnamed n (hv.completions ▸ hn))
  rooted := fun n => by
    rw [hv.events, resolutions_append]
    simpa using h.rooted n

theorem extends_ : w.Extends (.run r) v where
  events := ⟨_, hv.events.symm⟩
  runs := hv.runs ▸ List.prefix_rfl
  completions := by simp [hv.completions]
  abandoned := fun _ _ => abandoned_congr (by rw [hv.completions])
  idle := fun r' y hy hne hr' => by
    have hne' : r ≠ r' := fun h => hne h.symm
    exact ⟨hv.awaited ▸ hr', by rw [hv.runs, hy], by simp [hv.events], by simp [hv.events, hne']⟩
  spared := fun _ _ _ hu => ⟨(unnamed_congr hv.nexts).mpr hu, by rw [hv.completions]⟩
  unwaited := fun _ _ _ => unwaited_congr hv.completions

end Delivering

/-- A chain is started. -/
structure Starting (w v : World) (x : Run) : Prop where
  runs : v.runs = w.runs ++ [x]
  completions : v.completions = w.completions
  events : v.events = w.events
  jobs : v.jobs = w.jobs
  nexts : v.nexts = w.nexts

namespace Starting

variable {x : Run} (hv : w.Starting v x)
include hv

theorem awaited : v.awaited = w.awaited := by
  simp [World.awaited, resumptions, hv.completions, hv.jobs]

theorem runs_prefix : w.runs.map Run.bare <+: v.runs.map Run.bare := by
  rw [hv.runs, List.map_append]
  exact List.prefix_append _ _

theorem standing (h : w.Sound) : x.standing w.runs.length v.events = .due 0 x.tree := by
  obtain ⟨hcalls, hdel⟩ := h.fresh _ (Nat.le_refl w.runs.length)
  rw [hv.events]
  simpa using @Run.standing_idle x _ [] _ hcalls hdel

theorem free (h : w.Sound) : w.runs.length ∉ v.awaited := by
  rw [hv.awaited]
  exact fun hm => Nat.lt_irrefl _ (h.awaited_lt hm)

theorem stands {r : Nat} {s : Standing} (hs : w.Stands r s) : v.Stands r s :=
  hs.of_eq hv.runs_prefix fun y hy => by rw [hv.events, hy]

theorem sound (h : w.Sound) : v.Sound where
  fresh := fun r hle => by
    rw [hv.events]
    exact h.fresh r (by simp [hv.runs] at hle; omega)
  lawful := fun r y hy => by
    rw [hv.events]
    by_cases hlt : r < w.runs.length
    · rw [hv.runs, List.getElem?_append_left hlt] at hy
      exact h.lawful r y hy
    · have hlen := (List.getElem?_eq_some_iff.mp hy).1
      obtain rfl : r = w.runs.length := by simp [hv.runs] at hlen; omega
      rw [hv.runs, List.getElem?_concat_length] at hy
      obtain rfl := Option.some.inj hy
      obtain ⟨hcalls, hdel⟩ := h.fresh _ (Nat.le_refl w.runs.length)
      simpa using Run.Lawful.nil.append_idle hcalls hdel
  answered := fun n => by rw [hv.events, h.answered, result?, result?, hv.completions]
  held := fun n d k hn hk => by
    rw [hv.completions] at hn
    obtain ⟨hp, hs⟩ := h.held n d k hn hk
    exact ⟨hp, hv.stands hs⟩
  queued := fun k result hk => by
    rw [hv.jobs] at hk
    exact hv.stands (h.queued k result hk)
  single := hv.awaited ▸ h.single
  unnamed := fun n hn => (unnamed_congr hv.nexts).mpr (h.unnamed n (hv.completions ▸ hn))
  rooted := by
    rw [hv.events]
    exact h.rooted

theorem extends_ : w.Extends nobody v where
  events := hv.events ▸ List.prefix_rfl
  runs := hv.runs_prefix
  completions := Nat.le_of_eq (by rw [hv.completions])
  abandoned := fun _ _ => abandoned_congr (by rw [hv.completions])
  idle := fun r y hy _ hra => by
    refine ⟨hv.awaited ▸ hra, ?_, by rw [hv.events], by rw [hv.events]⟩
    rw [hv.runs, List.getElem?_append_left (List.getElem?_eq_some_iff.mp hy).1, hy]
  spared := fun _ _ _ hu => ⟨(unnamed_congr hv.nexts).mpr hu, by rw [hv.completions]⟩
  unwaited := fun _ _ _ => unwaited_congr hv.completions

end Starting

/-- A chain is to go on when it has its turn on the loop. -/
theorem Sound.enqueue (h : w.Sound) {k : Resumption} {result : Resolution}
    (hs : w.Stands k.run (.settle k.index k.tree result)) (hk : k.run ∉ w.awaited)
    (hj : v.jobs = w.jobs ++ [.resume k result]) (hc : v.completions = w.completions)
    (he : v.events = w.events) (hr : v.runs = w.runs) (hnexts : v.nexts = w.nexts) :
    v.Sound ∧ w.Extends (.run k.run) v := by
  have hawaited : v.awaited = w.awaited ++ [k.run] := by
    simp [awaited, resumptions, hc, hj, Job.resume?]
  constructor
  · refine h.rearranged he hr (fun n => by rw [result?, result?, hc]) (by rw [hc]; exact h.held)
      (fun k' result' hk' => ?_) ?_ (by rw [hc]) hnexts
    · rw [hj, List.filterMap_append, List.mem_append] at hk'
      rcases hk' with hm | hm
      · exact h.queued k' result' hm
      · obtain ⟨rfl, rfl⟩ : k' = k ∧ result' = result := by simpa [Job.resume?] using hm
        exact hs
    · rw [hawaited, List.nodup_append]
      refine ⟨h.single, by simp, fun a ha b hb heq => hk ?_⟩
      obtain rfl : b = k.run := by simpa using hb
      exact heq ▸ ha
  · refine ⟨he ▸ List.prefix_rfl, hr ▸ List.prefix_rfl, Nat.le_of_eq (by rw [hc]),
      fun n _ => abandoned_congr (by rw [hc]), fun r x hx hn hra => ?_,
      fun n _ _ hu => ⟨(unnamed_congr hnexts).mpr hu, by rw [hc]⟩, fun _ _ _ => unwaited_congr hc⟩
    refine ⟨?_, by rw [hr, hx], by rw [he], by rw [he]⟩
    rw [hawaited, List.mem_append, List.mem_singleton]
    exact fun hm => hm.elim hra hn

/-- What was said of a run meanwhile that is neither owned nor awaited. -/
theorem Extends.idle_events {own : Rights} {r : Nat} {x : Run} (h : w.Extends own v)
    (hx : w.runs[r]? = some x) (ho : ¬own.runs r) (hr : r ∉ w.awaited) :
    ∃ es, v.events = w.events ++ es ∧ calls r es = [] ∧ deliveries r es = [] := by
  obtain ⟨es, he⟩ := h.events
  obtain ⟨-, -, hc, hd⟩ := h.idle r x hx ho hr
  rw [← he, calls_append] at hc
  rw [← he, deliveries_append] at hd
  exact ⟨es, he.symm, by simpa using hc, by simpa using hd⟩

/-- A run that is neither owned nor awaited stands where it stood, unless its step is resolved. -/
theorem Extends.stands {own : Rights} {r : Nat} {s : Standing} (h : w.Extends own v)
    (hs : w.Stands r s) (ho : ¬own.runs r) (hr : r ∉ w.awaited) (hn : ∀ i t id, s ≠ .waiting i t id) :
    v.Stands r s := by
  obtain ⟨x, hx, hs⟩ := hs
  obtain ⟨es, he, hc, hd⟩ := h.idle_events hx ho hr
  refine ⟨x, (h.idle r x hx ho hr).2.1, ?_⟩
  rw [he, x.standing_idle hc hd, hs]
  cases s with
  | waiting i t id => exact absurd rfl (hn i t id)
  | due | failed | ended => rfl

/-- A run that is neither owned nor awaited and whose step was pending stands where the completion of
the step says. -/
theorem Extends.stands_waiting {own : Rights} {r index id : Nat} {tree : Value} {x : Run}
    (h : w.Extends own v) (hw : w.Sound) (hv : v.Sound) (hx : w.runs[r]? = some x)
    (hs : x.standing r w.events = .waiting index tree id) (ho : ¬own.runs r) (hr : r ∉ w.awaited)
    (hid : w.result? id = none) :
    x.standing r v.events =
      match v.result? id with
      | none => .waiting index tree id
      | some result => .settle index tree result := by
  obtain ⟨es, he, hc, hd⟩ := h.idle_events hx ho hr
  have hres := hv.answered id
  rw [he, resolutions_append, hw.answered, hid] at hres
  simp only [Option.toList_none, List.nil_append] at hres
  rw [he, x.standing_idle hc hd, hs]
  simp only [hres]
  cases v.result? id <;> rfl

end World

end TextPipeline.Pipeline
