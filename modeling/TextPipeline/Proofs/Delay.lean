import Mathlib.Data.List.Nodup
import TextPipeline.Proofs.Timing

/-! What may happen until all results of a chain are delivered. While a chain waits, the result of the
step for which it waits is delivered, it takes its turn on the loop, and other things happen that leave
it alone. It keeps to its course all the while, so that it comes to the same end as a chain that never
waits. -/

namespace TextPipeline.Pipeline

open TextPipeline.Transform
open TextPipeline.Pipeline.Action
open World (nobody)

/-- The progress that was told since an earlier world. -/
def World.reportsSince (w v : World) : List Progress := reports (v.events.drop w.events.length)

theorem World.reportsSince_of_events {w u v : World} {es : List Event}
    (he : u.events = w.events ++ es) (hv : u.events <+: v.events) :
    w.reportsSince v = reports es ++ u.reportsSince v := by
  obtain ⟨fs, hv⟩ := hv
  rw [reportsSince, reportsSince, ← hv, List.drop_left, he, List.append_assoc, List.drop_left,
    reports_append]

/-- What happens besides leaves a chain alone, and all that its steps can see. -/
structure World.Untouched (w v : World) (r file : Nat) : Prop where
  scope : v.scope file = w.scope file
  run : v.runs[r]? = w.runs[r]?
  calls_eq : calls r v.events = calls r w.events
  deliveries_eq : deliveries r v.events = deliveries r w.events
  completions : ∀ a ∈ calls r w.events, v.completions[a.completion]? = w.completions[a.completion]?
  jobs : ∀ k result, k.run = r → Job.resume k result ∈ w.jobs → Job.resume k result ∈ v.jobs

/-- What may happen while a chain waits, with the progress that the chain tells meanwhile: other things,
the delivery of the result for which it waits in a way that was kept, and its turn on the loop. -/
inductive Meanwhile (host : Host) (r file : Nat) (parts : List (Part × Manner)) (w : World) :
    List Progress → World → Prop where
  | refl : Meanwhile host r file parts w [] w
  | others {v : World} {ps : List Progress} (moves : List Move) : Meanwhile host r file parts w ps v →
    v.Untouched (play host moves v) r file → Meanwhile host r file parts w ps (play host moves v)
  | deliver {v u : World} {ps : List Progress} {a : Invocation} {p : Part} {m : Manner} {key : String} :
    Meanwhile host r file parts w ps v → r ∈ v.awaited → (calls r v.events).getLast? = some a →
    v.result? a.completion = none → parts[a.index]? = some (p, m) →
    v.nexts.lookup key = some (some a.completion) →
    u = play host [.nextNamed key (p.plan a.seen).verdict.error
      ((p.plan a.seen).verdict.tree v.sight)] v →
    Meanwhile host r file parts w (ps ++ v.reportsSince u) u
  | turn {v u : World} {ps : List Progress} {k : Resumption} {result : Resolution} {rest : List Job} :
    Meanwhile host r file parts w ps v → v.jobs = .resume k result :: rest → k.run = r →
    u = play host [.turn] v → Meanwhile host r file parts w (ps ++ v.reportsSince u) u

/-- A chain keeps to its course: it has come to its end, or it waits to go on in its course. The
progress is what the chain has told so far. -/
inductive World.OnTrack (w : World) (r : Nat) (x : Run) (parts : List (Part × Manner))
    (delivery : Delivery) (ps : List Progress) (total : Course) : Prop where
  | ended {error : Option Fault} {final : Value} : w.runs[r]? = some x → r ∉ w.awaited →
    deliveries r w.events = [(error, final)] →
    total = (Course.stop (some (error, final)) (w.scope x.file)).after (visits r w.events) ps →
    OnTrack w r x parts delivery ps total
  | escaped : w.runs[r]? = some x → r ∉ w.awaited → deliveries r w.events = [] →
    total = (Course.stop none (w.scope x.file)).after (visits r w.events) ps →
    OnTrack w r x parts delivery ps total
  | waiting {a : Invocation} {p : Part} {key : String} : w.Waiting r x parts delivery a p key →
    total = (awaiting x parts a p w.core).after (visits r w.events) ps →
    OnTrack w r x parts delivery ps total
  | queued {a : Invocation} {result : Resolution} {p : Part} {key : String} :
    w.runs[r]? = some x → Job.resume ⟨r, a.index, a.tree, delivery⟩ result ∈ w.jobs →
    (calls r w.events).getLast? = some a → w.result? a.completion = some result →
    parts[a.index]? = some (p, .later key) →
    total = (settled x (course x ((parts.drop (a.index + 1)).map Prod.fst)) a.index p.title a.tree
      result w.core).after (visits r w.events) ps →
    OnTrack w r x parts delivery ps total

section Course

variable {host : Host} {r : Nat} {x : Run} {parts : List (Part × Manner)} {delivery : Delivery}
  {ps : List Progress} {total : Course}

/-- A course that is followed in both of two worlds is the same from the first one on with what was
told before. -/
theorem World.followed_since {w v : World} {c d : Course} (h : w.followed r c = v.followed r d)
    (he : w.events <+: v.events) (ps : List Progress) :
    c.after (visits r w.events) ps = d.after (visits r v.events) (ps ++ w.reportsSince v) := by
  obtain ⟨es, he⟩ := he
  have hsince : w.reportsSince v = reports es := by
    rw [reportsSince, ← he, List.drop_left]
  obtain ⟨hvisits, hreports, hending, hscope⟩ := Course.mk.inj h
  rw [← he, reports_append, List.append_assoc] at hreports
  have hrest := List.append_cancel_left hreports
  rw [hsince]
  refine Course.ext hvisits ?_ hending hscope
  show ps ++ c.reports = ps ++ reports es ++ d.reports
  rw [hrest, List.append_assoc]

/-- Nothing was told of the end of a chain that has not come to it. -/
theorem World.Ready.deliveries_eq_nil {w : World} {s : Standing} (h : w.Ready r x s)
    (hs : s ≠ .ended) : deliveries r w.events = [] := by
  have hf := (h.sound.lawful r x h.run).fits
  rw [h.stands] at hf
  exact hf.deliveries_eq_nil hs

/-- The world after the receiver of a run was told of its result. -/
def World.toldRan (w : World) (error : Option Fault) (tree : Value) (file : Nat) : World :=
  w.told (.ran error (w.reveal tree) (w.namesOfValue tree) (w.namesOf (.file file)))

theorem result_tellRan (w : World) (k : Callback) (error : Option Fault) (tree : Value) (file : Nat) :
    (tellRan k error tree file).result w =
      (((raise k.fault).result w).1, w.toldRan error tree file) := by
  obtain ⟨fault⟩ := k
  cases fault <;> rfl

theorem result_deliver_callback {w : World} (hx : w.runs[r]? = some x) (k : Callback)
    (error : Option Fault) (final : Value) :
    (deliver host r (.callback k) error final).result w =
      (tellRan k error final x.file).result (w.told (.delivered r error final)) := by
  rw [deliver, result_bind_ok (result_run hx)]
  rfl

/-- A chain that was driven as far as it goes keeps to its course. -/
theorem Leads.onTrack {w u : World} {k : Callback} {c : Course} {done : Outcome Unit × World}
    (h : Leads host r x parts (.callback k) u (w.followed r c) done)
    (he : w.events <+: done.2.events) (ps : List Progress) :
    done.2.OnTrack r x parts (.callback k) (ps ++ w.reportsSince done.2)
      (c.after (visits r w.events) ps) := by
  cases h with
  | @ended v s error final hready hp ht _ =>
    rw [result_deliver_callback hready.run, result_tellRan] at he ⊢
    have hnil := hready.deliveries_eq_nil hp.not_ended
    have hevents : ((v.told (.delivered r error final)).toldRan error final x.file).events =
        v.events ++ [.delivered r error final,
          .ran error (v.reveal final) (v.namesOfValue final) (v.namesOf (.file x.file))] :=
      List.append_assoc ..
    have hfollowed := World.followed_of_events r (.stop (some (error, final)) (v.scope x.file))
      hevents rfl
    have hdeliveries : deliveries r ((v.told (.delivered r error final)).toldRan error final
        x.file).events = [(error, final)] := by
      rw [hevents, deliveries_append, hnil]
      simp
      rfl
    exact .ended hready.run hready.free hdeliveries (World.followed_since (ht.trans hfollowed.symm) he ps)
  | @escaped v s f hready hs _ ht =>
    exact .escaped hready.run hready.free (hready.deliveries_eq_nil hs) (World.followed_since ht he ps)
  | held h ht _ => exact .waiting h (World.followed_since ht he ps)

/-- What leaves a chain alone keeps it to its course. -/
theorem World.OnTrack.others {w v : World} (h : w.OnTrack r x parts delivery ps total) (hw : w.Sound)
    (hv : v.Sound) (he : w.Extends .anyStep v) (hu : w.Untouched v r x.file) :
    v.OnTrack r x parts delivery ps total := by
  have hvisits : visits r v.events = visits r w.events := by
    rw [visits, visits, hu.calls_eq]
  have hscope : w.core.world.scope x.file = v.core.world.scope x.file := hu.scope.symm
  have hcongr (parts : List (Part × Manner)) (i : Nat) (t : Value) (c d : Core)
      (h : c.world.scope x.file = d.world.scope x.file) :
      course x (parts.map Prod.fst) i t c = course x (parts.map Prod.fst) i t d := course_congr h _ i t
  cases h with
  | ended hx hfree hd ht =>
    refine .ended (hu.run.trans hx) (he.idle r x hx id hfree).1 (hu.deliveries_eq.trans hd) ?_
    rw [hvisits, hu.scope, ht]
  | escaped hx hfree hd ht =>
    refine .escaped (hu.run.trans hx) (he.idle r x hx id hfree).1 (hu.deliveries_eq.trans hd) ?_
    rw [hvisits, hu.scope, ht]
  | @waiting a p key h ht =>
    have ha : a ∈ calls r w.events := List.mem_of_getLast? h.last
    have hcompletion := hu.completions a ha
    have hstands : x.standing r v.events = .waiting a.index a.tree a.completion := by
      obtain ⟨es, hes⟩ := he.events
      have hcalls : calls r es = [] := by
        have := hu.calls_eq
        rw [← hes, calls_append] at this
        exact List.append_right_eq_self.mp this
      have hdeliveries : deliveries r es = [] := by
        have := hu.deliveries_eq
        rw [← hes, deliveries_append] at this
        exact List.append_right_eq_self.mp this
      have hresolutions : resolutions a.completion es = [] := by
        have hsame : v.result? a.completion = w.result? a.completion := by
          rw [World.result?, World.result?, hcompletion]
        have := hv.answered a.completion
        rw [hsame, ← hw.answered, ← hes, resolutions_append] at this
        exact List.append_right_eq_self.mp this
      rw [← hes, x.standing_idle hcalls hdeliveries, h.stands]
      dsimp only
      rw [hresolutions]
    refine .waiting (p := p) (a := a) ⟨hu.run.trans h.run, hstands, ?_, h.part, ?_⟩ ?_
    · rw [hu.calls_eq]
      exact h.last
    · rw [hcompletion]
      exact h.held
    · rw [hvisits, ht, awaiting, awaiting, decided_congr hscope (hcongr _)]
  | @queued a result p m hx hjob hlast hresult hpart ht =>
    have hcompletion := hu.completions a (List.mem_of_getLast? hlast)
    refine .queued (hu.run.trans hx) (hu.jobs _ _ rfl hjob) (hu.calls_eq ▸ hlast) ?_ hpart ?_
    · rw [World.result?, hcompletion]
      exact hresult
    · rw [hvisits, ht, settled_congr hscope (hcongr _)]

theorem result_resume {w : World} {k : Resumption} (hx : w.runs[k.run]? = some x) {p : Part}
    {m : Manner} (hsteps : x.steps = chainOf parts) (hpart : parts[k.index]? = some (p, m))
    (result : Resolution) :
    (resume host k result).result w =
      (goFrom host k.run x k.delivery k.index p.title k.tree (chainOf (parts.drop (k.index + 1)))
        result).result w := by
  have hname : ((x.steps[k.index]?).map (·.name)).getD "" = p.title := by
    rw [hsteps, chainOf, List.getElem?_map, hpart]
    exact p.transformer_name m
  have hrest : x.steps.drop (k.index + 1) = chainOf (parts.drop (k.index + 1)) := by
    rw [hsteps, chainOf, chainOf, List.map_drop]
  rw [resume, result_bind_ok (result_run hx)]
  dsimp only
  rw [hname, hrest]
  rfl

/-- A chain that goes on from the result of a step does so in its course. -/
theorem resume_leads (hh : host.Steady) (hsteps : x.steps = chainOf parts) {w : World} {index : Nat}
    {tree : Value} {result : Resolution} (h : w.Ready r x (.settle index tree result)) {p : Part}
    {m : Manner} (hpart : parts[index]? = some (p, m)) :
    Leads host r x parts delivery w (w.followed r (settled x
      (course x ((parts.drop (index + 1)).map Prod.fst)) index p.title tree result w.core))
      ((resume host ⟨r, index, tree, delivery⟩ result).result w) := by
  rw [result_resume h.run hsteps hpart result]
  exact goFrom_leads h rfl (fun _ _ ha => .inl ha) fun v hv hp ht =>
    drive_leads hh hsteps hv rfl hp ht

end Course

/-- What a chain has come to that nothing waits for any more is what its course says. -/
theorem World.OnTrack.comes_to {w : World} (h : w.OnTrack r x parts delivery ps total)
    (hr : r ∉ w.awaited) :
    visits r w.events = total.visits ∧ ps = total.reports ∧
      deliveries r w.events = total.ending.toList ∧ w.scope x.file = total.scope := by
  cases h with
  | ended _ _ hd ht =>
    rw [ht, hd]
    simp [Course.after, Course.stop]
  | escaped _ _ hd ht =>
    rw [ht, hd]
    simp [Course.after, Course.stop]
  | waiting h =>
    obtain ⟨c, hc, -, hk⟩ := h.held
    exact absurd (World.mem_awaited hc (hk ▸ List.mem_singleton.mpr rfl)) hr
  | queued _ hjob =>
    exact absurd (World.mem_awaited_job (List.mem_filterMap.mpr ⟨_, hjob, rfl⟩)) hr

/-- A chain waits only for a step that is to deliver later, or for its turn on the loop. -/
theorem World.OnTrack.awaits {w : World} (h : w.OnTrack r x parts delivery ps total)
    (hr : r ∈ w.awaited) :
    (∃ a p key, (calls r w.events).getLast? = some a ∧ w.result? a.completion = none ∧
      parts[a.index]? = some (p, .later key)) ∨
    ∃ j result, Job.resume j result ∈ w.jobs ∧ j.run = r := by
  cases h with
  | ended _ hfree => exact absurd hr hfree
  | escaped _ hfree => exact absurd hr hfree
  | @waiting a p key h =>
    obtain ⟨c, hc, hp, -⟩ := h.held
    refine .inl ⟨a, p, key, h.last, ?_, h.part⟩
    rw [World.result?, hc]
    simp [Completion.result?, hp]
  | queued _ hjob => exact .inr ⟨_, _, hjob, rfl⟩

/-- A chain whose steps all deliver when they are called waits for nothing. -/
theorem World.OnTrack.free_of_prompt {w : World} (h : w.OnTrack r x parts delivery ps total)
    (hparts : ∀ e ∈ parts, e.2.prompt = true) : r ∉ w.awaited := by
  have hlater {i : Nat} {p : Part} {key : String} (hpart : parts[i]? = some (p, .later key)) : False :=
    absurd (hparts _ (List.mem_of_getElem? hpart)) (by simp [Manner.prompt])
  cases h with
  | ended _ hfree => exact hfree
  | escaped _ hfree => exact hfree
  | waiting h => exact (hlater h.part).elim
  | queued _ _ _ _ hpart => exact (hlater hpart).elim

/-- A chain that was started keeps to its course. -/
theorem start_onTrack {w : World} (hh : host.Steady) (hw : w.Sound) (parts : List (Part × Manner))
    (watcher : Option Watcher) (tree : Value) (file : Nat) (k : Callback) {v : World}
    (hv : v = ((start host (chainOf parts) watcher tree file (.callback k)).result w).2) :
    v.Sound ∧ v.OnTrack w.runs.length (w.nextRun (chainOf parts) watcher tree file) parts
      (.callback k) (w.reportsSince v)
      (course (w.nextRun (chainOf parts) watcher tree file) (parts.map Prod.fst) 0 tree w.core) := by
  obtain ⟨u, hu⟩ : ∃ u, u = w.starting (chainOf parts) watcher tree file := ⟨_, rfl⟩
  obtain ⟨hready, -⟩ := hw.starting (chainOf parts) watcher tree file
  rw [result_start] at hv
  rw [← hu] at hready hv
  have hsafe : Safe (.run w.runs.length) u (drive host w.runs.length (.callback k) false
    (chainOf parts) 0 tree) := Steady.drive hh hready rfl
  have hleads : Leads host w.runs.length (w.nextRun (chainOf parts) watcher tree file) parts
      (.callback k) u (u.followed w.runs.length _)
      ((drive host w.runs.length (.callback k) false (chainOf parts) 0 tree).result u) :=
    drive_leads hh rfl hready rfl (fun _ ha => .inl ha) rfl
  have htrack := hleads.onTrack hsafe.2.events []
  have hevents : u.events = w.events ++ [.log ⟨.debug, Transform.logger, "Running " ++
      toString (chainOf parts).length ++ " transformer(s)"⟩] := by
    rw [hu]
    rfl
  have hvisits : visits w.runs.length u.events = [] := by
    rw [hevents, visits, calls_append, (hw.fresh _ (Nat.le_refl _)).1]
    rfl
  have hcore : u.core = w.core := by
    rw [hu]
    rfl
  have hreports := World.reportsSince_of_events hevents hsafe.2.events
  rw [hvisits, hcore, List.nil_append] at htrack
  rw [hv]
  refine ⟨hsafe.1, ?_⟩
  rw [hreports]
  exact htrack

section Turns

variable {endpoints : Grammar.Endpoints} {standard : List (Plugin.Metadata Attacher)}
  {surroundings : Plugin.Surroundings Attacher} {depth r : Nat} {x : Run}
  {parts : List (Part × Manner)} {k : Callback} {ps : List Progress} {total : Course}

/-- A chain that is let go on keeps to its course. -/
theorem World.Ready.resume_onTrack {w : World} {index : Nat} {tree : Value} {result : Resolution}
    (h : w.Ready r x (.settle index tree result)) (hsteps : x.steps = chainOf parts) {p : Part}
    {m : Manner} (hpart : parts[index]? = some (p, m))
    (ht : total = (settled x (course x ((parts.drop (index + 1)).map Prod.fst)) index p.title tree
      result w.core).after (visits r w.events) ps) {v : World}
    (hv : v = (((Host.nested endpoints standard surroundings (depth + 1)).resume
      ⟨r, index, tree, .callback k⟩ result).result w).2) :
    v.OnTrack r x parts (.callback k) (ps ++ w.reportsSince v) total := by
  have hh := Host.nested_steady endpoints standard surroundings depth
  have hleads : Leads (Host.nested endpoints standard surroundings depth) r x parts (.callback k) w _ _ :=
    resume_leads hh hsteps h hpart
  have hsafe := Steady.resume hh (k := ⟨r, index, tree, .callback k⟩) h
  rw [hv, ht]
  exact hleads.onTrack hsafe.2.events ps

/-- A chain that waits for its result, and then goes on at once or is put on the loop, keeps to its
course. -/
theorem World.Ready.goOn_onTrack {w : World} {a : Invocation} {result : Resolution}
    (h : w.Ready r x (.settle a.index a.tree result)) (hlast : (calls r w.events).getLast? = some a)
    (hresult : w.result? a.completion = some result) (hsteps : x.steps = chainOf parts) {p : Part}
    {key : String} (hpart : parts[a.index]? = some (p, .later key))
    (ht : total = (settled x (course x ((parts.drop (a.index + 1)).map Prod.fst)) a.index p.title a.tree
      result w.core).after (visits r w.events) ps) {v : World}
    (hv : v = ((goOn (Host.nested endpoints standard surroundings (depth + 1))
      ⟨r, a.index, a.tree, .callback k⟩ result).result w).2) :
    v.OnTrack r x parts (.callback k) (ps ++ w.reportsSince v) total := by
  rw [goOn, result_bind_ok (result_run h.run), result_get_bind] at hv
  split at hv
  · exact h.resume_onTrack hsteps hpart ht hv
  · have hevents : v.events = w.events ++ [.log ⟨.debug, Transform.logger,
        "Resuming transformer chain on its event loop"⟩] := by
      rw [hv]
      rfl
    have hjobs : v.jobs = w.jobs ++ [.resume ⟨r, a.index, a.tree, .callback k⟩ result] := by
      rw [hv]
      rfl
    have hcompletions : v.completions = w.completions := by
      rw [hv]
      rfl
    have hcore : v.core = w.core := by
      rw [hv]
      rfl
    have hreports : w.reportsSince v = [] := by
      rw [World.reportsSince, hevents, List.drop_left]
      rfl
    have hruns : v.runs = w.runs := by
      rw [hv]
      rfl
    refine .queued (hruns ▸ h.run) (hjobs ▸ List.mem_append_right _ (List.mem_singleton.mpr rfl)) ?_ ?_ hpart ?_
    · rw [hevents, calls_append]
      simpa using hlast
    · rw [World.result?, hcompletions]
      exact hresult
    · rw [ht, hcore, hreports, List.append_nil, hevents, visits_append]
      simp [visits]

/-- To deliver what a step fixed is to let the chain go on that waits for the step. -/
theorem play_deliver {host : Host} {w : World} {id : Nat} {c : Completion Resolution Resumption Empty}
    {j : Resumption} {key : String} (hkey : w.nexts.lookup key = some (some id))
    (hc : w.completions[id]? = some c) (hp : c.phase = .pending) (hk : c.onDone = [j]) (v : Verdict) :
    play host [.nextNamed key v.error (v.tree w.sight)] w =
      ((goOn host j (v.result (w.handed (v.tree w.sight)))).result (w.deciding id c v)).2 := by
  obtain ⟨result, hresult⟩ : ∃ d, d = v.result (w.handed (v.tree w.sight)) := ⟨_, rfl⟩
  have hresolve : c.resolve result = .ok (some (answered c result, [j])) := by
    simp [Completion.resolve, hp, hk, answered]
  have hplay : play host [.nextNamed key v.error (v.tree w.sight)] w =
      ((callNext host key v.error (v.tree w.sight)).result w).2 := rfl
  rw [hplay, callNext, result_get_bind, hkey]
  dsimp only
  rw [result_next_resolve hc v, World.deciding, ← hresult, resolve,
    result_bind_ok (result_completion (w := w.handing (v.tree w.sight)) hc), hresolve]
  show ((goOn host j result >>= fun _ => pure PUnit.unit).result
    ((w.handing (v.tree w.sight)).answering id c result)).2 = _
  rw [result_bind]
  generalize (goOn host j result).result _ = done
  obtain ⟨o, u⟩ := done
  cases o <;> rfl

/-- When the step for which a chain waits has its result, the chain stands there. -/
theorem World.Waiting.decided {w : World} {delivery : Delivery} {a : Invocation} {p : Part} {key : String}
    (h : w.Waiting r x parts delivery a p key) (hw : w.Sound)
    {c : Completion Resolution Resumption Empty} (hc : w.completions[a.completion]? = some c)
    (hp : c.phase = .pending) (hk : c.onDone = [⟨r, a.index, a.tree, delivery⟩]) (verdict : Verdict) :
    (w.deciding a.completion c verdict).Ready r x
      (.settle a.index a.tree (verdict.result (w.handed (verdict.tree w.sight)))) := by
  have hroot : Rooted (verdict.result (w.handed (verdict.tree w.sight))) := by
    rw [← verdict.ofCall_eq p.title w]
    exact rooted_ofCall _ _ _
  have hhanding : Safe nobody w (share (verdict.tree w.sight)) := Steady.of_local (.share _) w hw
  rw [Safe, result_share_handed] at hhanding
  have hresolving : (w.handing (verdict.tree w.sight)).Resolving (w.deciding a.completion c verdict)
      a.completion c (verdict.result (w.handed (verdict.tree w.sight))) :=
    ⟨hc, hp, rfl, rfl, rfl, rfl, rfl⟩
  obtain ⟨⟨y, hy, hstands⟩, hfree⟩ := (hresolving.goes_on hhanding.1).2
    ⟨r, a.index, a.tree, delivery⟩ (by rw [hk]; exact List.mem_singleton_self _)
  obtain rfl : x = y := Option.some.inj (h.run.symm.trans hy)
  exact ⟨hresolving.sound hhanding.1 hroot, hy, hstands, hfree⟩

/-- The result of the step for which a chain waits is delivered. -/
theorem World.OnTrack.deliver {w v : World} (h : w.OnTrack r x parts (.callback k) ps total)
    (hw : w.Sound) (hsteps : x.steps = chainOf parts) (hr : r ∈ w.awaited) {a : Invocation}
    (hlast : (calls r w.events).getLast? = some a) (hnone : w.result? a.completion = none) {p : Part}
    {m : Manner} (hpart : parts[a.index]? = some (p, m)) {key : String}
    (hkey : w.nexts.lookup key = some (some a.completion))
    (hv : v = play (Host.nested endpoints standard surroundings (depth + 1))
      [.nextNamed key (p.plan a.seen).verdict.error ((p.plan a.seen).verdict.tree w.sight)] w) :
    v.OnTrack r x parts (.callback k) (ps ++ w.reportsSince v) total := by
  cases h with
  | ended _ hfree => exact absurd hr hfree
  | escaped _ hfree => exact absurd hr hfree
  | @queued b result _ _ _ _ hlast' hresult =>
    obtain rfl : a = b := Option.some.inj (hlast.symm.trans hlast')
    rw [hnone] at hresult
    cases hresult
  | @waiting b q key' h ht =>
    obtain rfl : a = b := Option.some.inj (hlast.symm.trans h.last)
    obtain ⟨rfl, rfl⟩ := Prod.mk.inj (Option.some.inj (hpart.symm.trans h.part))
    obtain ⟨c, hc, hp, hk⟩ := h.held
    rw [awaiting] at ht
    rw [play_deliver hkey hc hp hk] at hv
    generalize (p.plan a.seen).verdict = verdict at ht hv
    have hready := h.decided hw hc hp hk verdict
    obtain ⟨result, hresult⟩ : ∃ d, d = verdict.result (w.handed (verdict.tree w.sight)) := ⟨_, rfl⟩
    obtain ⟨u, hu⟩ : ∃ u, u = w.deciding a.completion c verdict := ⟨_, rfl⟩
    have hdone : u.result? a.completion = some result := by
      rw [hu, hresult]
      exact World.result?_answering (w := w.handing (verdict.tree w.sight)) hc _
    have hevents : u.events = w.events ++ [.resolved a.completion result] := by
      rw [hu, hresult]
      rfl
    have htotal : total = (settled x (course x ((parts.drop (a.index + 1)).map Prod.fst)) a.index
        p.title a.tree result u.core).after (visits r u.events) ps := by
      rw [ht, hevents, visits_append, hu, hresult]
      simp [visits]
      rfl
    rw [← hresult, ← hu] at hready hv
    have hlast' : (calls r u.events).getLast? = some a := by
      rw [hevents, calls_append]
      simpa using hlast
    have hsafe := Steady.goOn (k := ⟨r, a.index, a.tree, .callback k⟩)
      (Host.nested_steady endpoints standard surroundings (depth + 1)) hready.sound
      ⟨x, hready.run, hready.stands⟩ hready.free
    have hreports := World.reportsSince_of_events hevents (v := v) (by rw [hv]; exact hsafe.2.events)
    rw [hreports]
    exact hready.goOn_onTrack hlast' hdone hsteps h.part htotal hv

theorem play_turn {host : Host} {w : World} {j : Job} {rest : List Job} (hj : w.jobs = j :: rest) :
    play host [.turn] w = ((work host j).result { w with jobs := rest }).2 := by
  have hplay : play host [.turn] w = ((settleAll host 1).result w).2 := rfl
  have hdequeue : dequeue.result w = (.ok (some j), { w with jobs := rest }) := by
    rw [dequeue, result_get_bind, hj]
    rfl
  rw [hplay, settleAll, result_bind_ok hdequeue]
  rfl

/-- A chain has its turn on the loop. -/
theorem World.OnTrack.turn {w v : World} (h : w.OnTrack r x parts (.callback k) ps total)
    (hw : w.Sound) (hsteps : x.steps = chainOf parts) {j : Resumption}
    {result : Resolution} {rest : List Job} (hj : w.jobs = .resume j result :: rest) (hr : j.run = r)
    (hv : v = play (Host.nested endpoints standard surroundings (depth + 1)) [.turn] w) :
    v.OnTrack r x parts (.callback k) (ps ++ w.reportsSince v) total := by
  have hjob : (j, result) ∈ w.jobs.filterMap Job.resume? := by
    rw [hj]
    exact List.mem_cons_self ..
  have hawaited : r ∈ w.awaited := hr ▸ World.mem_awaited_job hjob
  cases h with
  | ended _ hfree => exact absurd hawaited hfree
  | escaped _ hfree => exact absurd hawaited hfree
  | waiting h =>
    obtain ⟨y, hy, hstands⟩ := hw.queued j result hjob
    rw [hr] at hy hstands
    obtain rfl := Option.some.inj (hy.symm.trans h.run)
    rw [h.stands] at hstands
    exact absurd hstands.symm (Standing.settle_ne_waiting _ _ _ _ _ _)
  | @queued a result' p m hx hjob' hlast hresult hpart ht =>
    have hmem : ((⟨r, a.index, a.tree, .callback k⟩ : Resumption), result') ∈
        w.jobs.filterMap Job.resume? := List.mem_filterMap.mpr ⟨_, hjob', rfl⟩
    -- nothing else waits for the chain, so that this is the job it waits with
    have hnodup : ((w.jobs.filterMap Job.resume?).map fun e => e.1.run).Nodup := by
      have := hw.single
      rw [World.awaited, World.resumptions, List.map_append, List.map_map] at this
      exact (List.nodup_append.mp this).2.1
    obtain ⟨rfl, rfl⟩ : j = ⟨r, a.index, a.tree, .callback k⟩ ∧ result = result' :=
      Prod.mk.inj (List.inj_on_of_nodup_map hnodup hjob hmem hr)
    obtain ⟨hsound, -, hfit, -⟩ := hw.dequeue hj
    obtain ⟨⟨y, hy, hstands⟩, hfree⟩ := hfit _ _ rfl
    obtain rfl : y = x := Option.some.inj (hy.symm.trans hx)
    have hready : World.Ready { w with jobs := rest } r y (.settle a.index a.tree result) :=
      ⟨hsound, hy, hstands, hfree⟩
    exact hready.resume_onTrack hsteps hpart ht (hv.trans (play_turn hj))

/-- Whatever happens until a chain has all its results, it keeps to its course. -/
theorem Meanwhile.onTrack {w v : World} {ps qs : List Progress}
    (h : Meanwhile (Host.nested endpoints standard surroundings (depth + 1)) r x.file parts w qs v)
    (hw : w.Sound) (hsteps : x.steps = chainOf parts)
    (ht : w.OnTrack r x parts (.callback k) ps total) :
    v.Sound ∧ v.OnTrack r x parts (.callback k) (ps ++ qs) total := by
  have hh := Host.nested_steady endpoints standard surroundings (depth + 1)
  -- each thing that may happen keeps the world sound and the chain on its course
  induction h with
  | refl => exact ⟨hw, by rwa [List.append_nil]⟩
  | others moves _ hu ih =>
    obtain ⟨hsound, htrack⟩ := ih
    obtain ⟨hsound', hext⟩ := hsound.play hh moves
    exact ⟨hsound', htrack.others hsound hsound' hext hu⟩
  | deliver _ hr hlast hnone hpart hkey hu ih =>
    obtain ⟨hsound, htrack⟩ := ih
    have htrack' := htrack.deliver hsound hsteps hr hlast hnone hpart hkey hu
    exact ⟨hu ▸ (hsound.play hh _).1, by rwa [← List.append_assoc]⟩
  | turn _ hj hr hu ih =>
    obtain ⟨hsound, htrack⟩ := ih
    have htrack' := htrack.turn hsound hsteps hj hr hu
    exact ⟨hu ▸ (hsound.play hh _).1, by rwa [← List.append_assoc]⟩

end Turns

end TextPipeline.Pipeline
