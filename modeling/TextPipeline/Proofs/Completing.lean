import TextPipeline.Proofs.Visiting
import TextPipeline.Transform.Completion

/-! Commands to a completion that come from outside, with listeners that may fail but give no commands when
they are told. A completion is quiet up to the first command that resolves or abandons it. That command tells
the listeners that there are by then, one after another until one of them fails, and from then on the result
stays what it is; who asks for it later is told at once. -/

namespace TextPipeline.Transform

open TextPipeline.Tree (upTo)

/-- A completion with listeners. -/
abbrev Awaited := Completion (Value × Value) Listener Listener

namespace Listener

/-- A listener that gives no command when it is told. -/
def Plain : Listener → Prop
  | .mk _ command _ => command = none

/-- How it ends that a listener without a command is told. -/
def finish : Listener → Outcome Unit
  | .mk _ _ (some f) => .error f
  | .mk _ _ none => .ok ()

def fails (k : Listener) : Bool := k.finish matches .error _

/-- What a listener is told of a result. -/
def doneNotice (result : Value × Value) : Listener → Notice
  | .mk id _ _ => .done id result.1 result.2

/-- What a listener is told when the step is abandoned. -/
def abandonNotice : Listener → Notice
  | .mk id _ _ => .abandoned id

end Listener

/-- A command whose listener, if it brings one, gives no commands. -/
def Command.Plain : Command → Prop
  | .addDone k | .addAbandon k => k.Plain
  | .resolve .. | .abandon => True

/-- A command from outside, and what came of it: its answer, who was told, what was logged, and the
completion before and after. -/
structure Request where
  before : Awaited
  command : Command
  answer : Outcome Unit
  told : List Notice
  logged : List LogRecord
  after : Awaited

/-- Carries out a command from outside. -/
def request (bound : Nat) (c : Awaited) (command : Command) : Request :=
  let (answer, x) := (command.run bound).run.run ⟨c, [], []⟩
  ⟨c, command, answer, x.notices, x.records, x.completion⟩

/-- Carries out commands from outside, one after another, whatever their answers are. -/
def requests (bound : Nat) (c : Awaited) : List Command → List Request
  | [] => []
  | command :: rest =>
    request bound c command :: requests bound (request bound c command).after rest

section Telling

variable {α β : Type} {m : Exercising α} {next : α → Exercising β} {k : Listener} {ks : List Listener}
  {result : Value × Value} {x y : Exercise} {fuel : Nat}

theorem bind_run_ok {a : α} (h : m.run.run x = (.ok a, y)) :
    (m >>= next).run.run x = (next a).run.run y := by
  change (m.run >>= ExceptT.bindCont next).run x = _
  rw [StateT.run_bind, h]
  rfl

theorem bind_run_error {f : Fault} (h : m.run.run x = (.error f, y)) :
    (m >>= next).run.run x = (.error f, y) := by
  change (m.run >>= ExceptT.bindCont next).run x = _
  rw [StateT.run_bind, h]
  rfl

theorem get_run : (get : Exercising Exercise).run.run x = (.ok x, x) := rfl

theorem forM_finish_error {f : Fault} (h : k.finish = .error f) :
    (k :: ks).forM Listener.finish = .error f ∧ upTo Listener.fails (k :: ks) = [k] := by
  have hfails : k.fails = true := by rw [Listener.fails, h]
  rw [upTo, if_pos hfails]
  exact ⟨congrArg (· >>= fun _ => ks.forM Listener.finish) h, rfl⟩

theorem forM_finish_ok {u : Unit} (h : k.finish = .ok u) :
    (k :: ks).forM Listener.finish = ks.forM Listener.finish ∧
      upTo Listener.fails (k :: ks) = k :: upTo Listener.fails ks := by
  have hfails : ¬k.fails = true := by rw [Listener.fails, h]; exact Bool.false_ne_true
  rw [upTo, if_neg hfails]
  exact ⟨congrArg (· >>= fun _ => ks.forM Listener.finish) h, rfl⟩

theorem upTo_fails_eq_self (h : ∀ k ∈ ks, k.fails = false) : upTo Listener.fails ks = ks :=
  Tree.upTo_eq_self (List.any_eq_false.mpr fun k hk => Bool.eq_false_iff.mp (h k hk))

theorem Listener.done_run (hk : k.Plain) (hx : x.completion.result? = some result) :
    (Listener.done (fuel + 1) k).run.run x =
      (k.finish, { x with notices := x.notices ++ [k.doneNotice result] }) := by
  obtain ⟨id, command, fault⟩ := k
  obtain rfl : command = none := hk
  have hrun : (Listener.done (fuel + 1) (.mk id none fault)).run.run x =
      ((Listener.mk id none fault).finish, { x with notices := x.notices ++
        [(Listener.mk id none fault).doneNotice (x.completion.result?.getD (.none, .none))] }) := by
    cases fault <;> rfl
  rw [hrun, hx, Option.getD_some]

/-- Listeners are told of a result one after another, until one of them fails. -/
theorem forM_done_run (hplain : ∀ k ∈ ks, k.Plain) (hx : x.completion.result? = some result) :
    (ks.forM (Listener.done (fuel + 1))).run.run x = (ks.forM Listener.finish,
      { x with notices := x.notices ++ (upTo Listener.fails ks).map (·.doneNotice result) }) := by
  induction ks generalizing x with
  | nil => rw [upTo, List.map_nil, List.append_nil]; rfl
  | cons k ks ih =>
    have hk : (Listener.done (fuel + 1) k).run.run x = _ :=
      Listener.done_run (hplain k List.mem_cons_self) hx
    change (Listener.done (fuel + 1) k >>= fun _ => ks.forM (Listener.done (fuel + 1))).run.run x = _
    cases hfinish : k.finish with
    | error f =>
      rw [hfinish] at hk
      rw [bind_run_error hk, (forM_finish_error hfinish).1, (forM_finish_error hfinish).2]
      rfl
    | ok =>
      rw [hfinish] at hk
      have hrest := ih (x := { x with notices := x.notices ++ [k.doneNotice result] })
        (fun l hl => hplain l (List.mem_cons_of_mem _ hl)) hx
      rw [bind_run_ok hk, hrest, (forM_finish_ok hfinish).1, (forM_finish_ok hfinish).2, List.map_cons]
      simp only [List.append_assoc, List.singleton_append]

theorem tellAbandoned_error {i : Nat} {f : Fault} (hi : x.completion.onAbandon[i]? = some k)
    (hk : k.Plain) (hfinish : k.finish = .error f) : (tellAbandoned (fuel + 1) i).run.run x =
      (.error f, { x with notices := x.notices ++ [k.abandonNotice] }) := by
  obtain ⟨id, command, fault⟩ := k
  obtain rfl : command = none := hk
  rw [tellAbandoned, bind_run_ok get_run, hi]
  cases fault with
  | some => obtain rfl := Except.error.inj hfinish; rfl
  | none => cases hfinish

theorem tellAbandoned_ok {i : Nat} {u : Unit} (hi : x.completion.onAbandon[i]? = some k)
    (hk : k.Plain) (hfinish : k.finish = .ok u) : (tellAbandoned (fuel + 1) i).run.run x =
      (tellAbandoned fuel (i + 1)).run.run { x with notices := x.notices ++ [k.abandonNotice] } := by
  obtain ⟨id, command, fault⟩ := k
  obtain rfl : command = none := hk
  rw [tellAbandoned, bind_run_ok get_run, hi]
  cases fault with
  | some => cases hfinish
  | none => rfl

/-- The listeners from number `i` on are told that the step was abandoned, until one of them fails. -/
theorem tellAbandoned_run {i : Nat} (hks : x.completion.onAbandon.drop i = ks)
    (hplain : ∀ k ∈ ks, k.Plain) (hfuel : ks.length < fuel) :
    (tellAbandoned fuel i).run.run x = (ks.forM Listener.finish,
      { x with notices := x.notices ++ (upTo Listener.fails ks).map Listener.abandonNotice }) := by
  induction ks generalizing x i fuel with
  | nil =>
    obtain ⟨fuel, rfl⟩ := Nat.exists_eq_succ_of_ne_zero (Nat.ne_of_gt hfuel)
    have hi : x.completion.onAbandon[i]? = none := List.getElem?_eq_none (List.drop_eq_nil_iff.mp hks)
    rw [tellAbandoned, bind_run_ok get_run, hi, upTo, List.map_nil,
      List.append_nil]
    rfl
  | cons k ks ih =>
    obtain ⟨fuel, rfl⟩ := Nat.exists_eq_succ_of_ne_zero (Nat.ne_of_gt (Nat.zero_lt_of_lt hfuel))
    have hi : x.completion.onAbandon[i]? = some k := by
      rw [← Nat.add_zero i, ← List.getElem?_drop, hks, List.getElem?_cons_zero]
    have hk := hplain k List.mem_cons_self
    cases hfinish : k.finish with
    | error f =>
      rw [tellAbandoned_error hi hk hfinish, (forM_finish_error hfinish).1, (forM_finish_error hfinish).2]
      rfl
    | ok =>
      have hdrop : x.completion.onAbandon.drop (i + 1) = ks := by
        rw [← List.tail_drop, hks, List.tail_cons]
      have hrest := ih (x := { x with notices := x.notices ++ [k.abandonNotice] }) hdrop
        (fun l hl => hplain l (List.mem_cons_of_mem _ hl)) (Nat.lt_of_succ_lt_succ hfuel)
      rw [tellAbandoned_ok hi hk hfinish, hrest, (forM_finish_ok hfinish).1, (forM_finish_ok hfinish).2,
        List.map_cons]
      simp only [List.append_assoc, List.singleton_append]

end Telling

section Following

variable {c : Awaited} {command : Command} {bound : Nat}

/-- What follows from a command from outside. -/
inductive Request.Follows : Request → Prop
  | resolved {c : Awaited} (error tree : Value) (hc : c.phase = .pending) :
      Follows ⟨c, .resolve error tree, c.onDone.forM Listener.finish,
        (upTo Listener.fails c.onDone).map (·.doneNotice (error, tree)), [],
        { c with phase := .done (error, tree), onDone := [] }⟩
  | resolvedAgain {c : Awaited} {result : Value × Value} (error tree : Value)
      (hc : c.phase = .done result) :
      Follows ⟨c, .resolve error tree, .error (Completion.resolvedTwice c.label), [], [], c⟩
  | resolvedLate {c : Awaited} (error tree : Value) (hc : c.phase = .abandoned) :
      Follows ⟨c, .resolve error tree, .ok (), [], [⟨.warning, logger, lateText c.label⟩], c⟩
  | waits {c : Awaited} (k : Listener) (hc : ∀ result, c.phase ≠ .done result) :
      Follows ⟨c, .addDone k, .ok (), [], [], { c with onDone := c.onDone ++ [k] }⟩
  | toldAtOnce {c : Awaited} {result : Value × Value} (k : Listener) (hc : c.phase = .done result) :
      Follows ⟨c, .addDone k, k.finish, [k.doneNotice result], [], c⟩
  | watches {c : Awaited} (k : Listener) : Follows ⟨c, .addAbandon k, .ok (), [], [], c.addAbandon k⟩
  | abandoned {c : Awaited} (hc : c.phase = .pending) :
      Follows ⟨c, .abandon, c.onAbandon.forM Listener.finish,
        (upTo Listener.fails c.onAbandon).map Listener.abandonNotice, [],
        { c with phase := .abandoned, onDone := [] }⟩
  | settled {c : Awaited} (hc : c.phase ≠ .pending) : Follows ⟨c, .abandon, .ok (), [], [], c⟩

/-- A completion whose listeners give no commands. The bound is enough for some more commands: each of them
may bring one more listener, and all of these may have to be told one after the other. -/
structure Ready (bound more : Nat) (c : Awaited) : Prop where
  onDone : ∀ k ∈ c.onDone, k.Plain
  onAbandon : ∀ k ∈ c.onAbandon, k.Plain
  bound : c.onAbandon.length + more + 2 ≤ bound

theorem request_follows {more : Nat} (hc : Ready bound more c) (hcommand : command.Plain) :
    (request bound c command).Follows := by
  obtain ⟨fuel, rfl⟩ : ∃ fuel, bound = fuel + 2 := ⟨bound - 2, by have := hc.bound; omega⟩
  obtain ⟨label, phase, onDone, onAbandon⟩ := c
  cases command with
  | resolve error tree =>
    cases phase with
    | pending =>
      have hrun : ((Command.resolve error tree).run (fuel + 2)).run.run
          ⟨⟨label, .pending, onDone, onAbandon⟩, [], []⟩ = _ :=
        forM_done_run (x := ⟨⟨label, .done (error, tree), [], onAbandon⟩, [], []⟩) hc.onDone rfl
      rw [request, hrun]
      exact .resolved error tree rfl
    | done result => exact .resolvedAgain (c := ⟨label, .done result, onDone, onAbandon⟩) error tree rfl
    | abandoned => exact .resolvedLate error tree rfl
  | addDone k =>
    cases phase with
    | done result =>
      have hrun : ((Command.addDone k).run (fuel + 2)).run.run
          ⟨⟨label, .done result, onDone, onAbandon⟩, [], []⟩ = _ :=
        Listener.done_run (x := ⟨⟨label, .done result, onDone, onAbandon⟩, [], []⟩) hcommand rfl
      rw [request, hrun]
      exact .toldAtOnce k rfl
    | pending | abandoned => exact .waits k nofun
  | addAbandon k => exact .watches k
  | abandon =>
    cases phase with
    | pending =>
      have hfuel : onAbandon.length < fuel + 1 := by have := hc.bound; dsimp only at this; omega
      have hrun : (Command.abandon.run (fuel + 2)).run.run
          ⟨⟨label, .pending, onDone, onAbandon⟩, [], []⟩ = _ :=
        tellAbandoned_run (x := ⟨⟨label, .abandoned, [], onAbandon⟩, [], []⟩) rfl hc.onAbandon hfuel
      rw [request, hrun]
      exact .abandoned rfl
    | done | abandoned => exact .settled nofun

theorem Ready.after {more : Nat} {r : Request} (h : r.Follows) (hc : Ready bound (more + 1) r.before)
    (hr : r.command.Plain) : Ready bound more r.after := by
  obtain ⟨hdone, habandon, hbound⟩ := hc
  cases h with
  | resolved => exact ⟨nofun, habandon, by dsimp only at *; omega⟩
  | abandoned => exact ⟨nofun, habandon, by dsimp only at *; omega⟩
  | waits k => exact ⟨List.forall_mem_append.mpr ⟨hdone, List.forall_mem_singleton.mpr hr⟩, habandon,
      by dsimp only at *; omega⟩
  | watches k =>
    refine ⟨hdone, List.forall_mem_append.mpr ⟨habandon, List.forall_mem_singleton.mpr hr⟩, ?_⟩
    rw [Completion.addAbandon, List.length_append, List.length_singleton]
    dsimp only at *
    omega
  | _ => exact ⟨hdone, habandon, by dsimp only at *; omega⟩

/-- Commands from outside, each to what the one before has left. -/
inductive Request.Chained : Awaited → List Request → Prop
  | nil (c : Awaited) : Chained c []
  | cons {r : Request} {rs : List Request} (h : r.Follows) (hrs : Chained r.after rs) :
      Chained r.before (r :: rs)

theorem requests_chained {commands : List Command} (hc : Ready bound commands.length c)
    (hcommands : ∀ command ∈ commands, command.Plain) :
    Request.Chained c (requests bound c commands) := by
  induction commands generalizing c with
  | nil => exact .nil c
  | cons command rest ih =>
    have hcommand := hcommands command List.mem_cons_self
    have hfollows := request_follows hc hcommand
    exact .cons hfollows (ih (hc.after hfollows hcommand) fun d hd => hcommands d (List.mem_cons_of_mem _ hd))

end Following

/-- The listener that a command brings for the result. -/
def Command.waiting? : Command → Option Listener
  | .addDone k => some k
  | _ => none

/-- The listener that a command brings for the case that the step is abandoned. -/
def Command.watching? : Command → Option Listener
  | .addAbandon k => some k
  | _ => none

/-- The listeners for the result, in the order in which they were brought. -/
def waiting (rs : List Request) : List Listener := rs.filterMap fun r => r.command.waiting?

/-- The listeners for the case that the step is abandoned, in the order in which they were brought. -/
def watching (rs : List Request) : List Listener := rs.filterMap fun r => r.command.watching?

/-- Everything that listeners were told. -/
def news (rs : List Request) : List Notice := rs.flatMap Request.told

section Append

variable {r : Request} {rs rs' : List Request}

theorem waiting_cons : waiting (r :: rs) = r.command.waiting?.toList ++ waiting rs := by
  rw [waiting, waiting, List.filterMap_cons]
  cases r.command.waiting? <;> rfl

theorem watching_cons : watching (r :: rs) = r.command.watching?.toList ++ watching rs := by
  rw [watching, watching, List.filterMap_cons]
  cases r.command.watching? <;> rfl

theorem waiting_append : waiting (rs ++ rs') = waiting rs ++ waiting rs' := List.filterMap_append

theorem watching_append : watching (rs ++ rs') = watching rs ++ watching rs' := List.filterMap_append

theorem news_cons : news (r :: rs) = r.told ++ news rs := List.flatMap_cons

theorem news_append : news (rs ++ rs') = news rs ++ news rs' := List.flatMap_append

end Append

namespace Completion

variable {c : Awaited}

theorem result?_eq_some {result : Value × Value} : c.result? = some result ↔ c.phase = .done result := by
  unfold result?
  cases c.phase <;> simp

theorem isDone_iff : c.isDone = true ↔ ∃ result, c.phase = .done result := by
  unfold isDone
  cases c.phase <;> simp

theorem isAbandoned_iff : c.isAbandoned = true ↔ c.phase = .abandoned := by
  unfold isAbandoned
  cases c.phase <;> simp

end Completion

/-- A request that leaves a pending step pending: nobody is told anything, and the listener that it brings is
added to the others. -/
structure Request.Quiet (r : Request) : Prop where
  before : r.before.phase = .pending
  after : r.after.phase = .pending
  told : r.told = []
  onDone : r.after.onDone = r.before.onDone ++ r.command.waiting?.toList
  onAbandon : r.after.onAbandon = r.before.onAbandon ++ r.command.watching?.toList

theorem Request.Follows.quiet {r : Request} (h : r.Follows) (hr : r.after.phase = .pending) :
    r.Quiet := by
  cases h with
  | resolved | abandoned => cases hr
  | resolvedAgain _ _ hdone => simp [hdone] at hr
  | resolvedLate _ _ habandoned => simp [habandoned] at hr
  | toldAtOnce _ hdone => simp [hdone] at hr
  | settled hc => exact absurd hr hc
  | waits => exact ⟨hr, hr, rfl, rfl, (List.append_nil _).symm⟩
  | watches => exact ⟨hr, hr, rfl, (List.append_nil _).symm, rfl⟩

theorem Request.Follows.label {r : Request} (h : r.Follows) : r.after.label = r.before.label := by
  cases h <;> rfl

namespace Request.Chained

variable {c : Awaited} {rs earlier later : List Request} {r : Request} {result : Value × Value}

theorem follows (h : Chained c rs) : ∀ r ∈ rs, r.Follows := by
  induction h with
  | nil => nofun
  | cons h hrs ih => exact List.forall_mem_cons.mpr ⟨h, ih⟩

theorem label (h : Chained c rs) : ∀ r ∈ rs, r.before.label = c.label := by
  induction h with
  | nil => nofun
  | cons h hrs ih => exact List.forall_mem_cons.mpr ⟨rfl, fun s hs => (ih s hs).trans h.label⟩

/-- What is so of whatever comes after a command is so of any two commands. -/
theorem pairwise {P : Request → Request → Prop} (h : Chained c rs)
    (hP : ∀ r rs, r.after.label = c.label → Chained r.after rs → ∀ s ∈ rs, P r s) : rs.Pairwise P := by
  induction h with
  | nil => exact .nil
  | @cons r rs h hrs ih =>
    exact .cons (hP r rs h.label hrs) (ih fun s ss hs => hP s ss (hs.trans h.label))

/-- Once there is a result it stays, and who asks for it is told at once. -/
theorem of_done (h : Chained c rs) (hc : c.phase = .done result) :
    (∀ r ∈ rs, r.before.phase = .done result ∧ r.after.phase = .done result) ∧
      news rs = (waiting rs).map (·.doneNotice result) := by
  induction h with
  | nil => exact ⟨nofun, rfl⟩
  | cons h hrs ih =>
    cases h with
    | resolved _ _ hpending => simp [hpending] at hc
    | resolvedLate _ _ habandoned => simp [habandoned] at hc
    | waits k hk => exact absurd hc (hk result)
    | abandoned hpending => simp [hpending] at hc
    | toldAtOnce k hk =>
      obtain rfl := Phase.done.inj (hc.symm.trans hk)
      exact ⟨List.forall_mem_cons.mpr ⟨⟨hc, hc⟩, (ih hc).1⟩, congrArg (k.doneNotice _ :: ·) (ih hc).2⟩
    | _ => exact ⟨List.forall_mem_cons.mpr ⟨⟨hc, hc⟩, (ih hc).1⟩, (ih hc).2⟩

/-- Once the step is abandoned it stays so, and nobody is told anything. -/
theorem of_abandoned (h : Chained c rs) (hc : c.phase = .abandoned) :
    (∀ r ∈ rs, r.before.phase = .abandoned ∧ r.after.phase = .abandoned) ∧ news rs = [] := by
  induction h with
  | nil => exact ⟨nofun, rfl⟩
  | cons h hrs ih =>
    cases h with
    | resolved _ _ hpending => simp [hpending] at hc
    | resolvedAgain _ _ hdone => simp [hdone] at hc
    | toldAtOnce _ hdone => simp [hdone] at hc
    | abandoned hpending => simp [hpending] at hc
    | _ => exact ⟨List.forall_mem_cons.mpr ⟨⟨hc, hc⟩, (ih hc).1⟩, (ih hc).2⟩

/-- Of a pending step, commands are quiet up to the first that settles it. -/
theorem of_pending (h : Chained c rs) (hc : c.phase = .pending) :
    (∀ r ∈ rs, r.Quiet) ∨ ∃ early r late, rs = early ++ r :: late ∧ (∀ q ∈ early, q.Quiet) ∧
      r.before.phase = .pending ∧ r.after.phase ≠ .pending ∧ Chained r.after late := by
  induction h with
  | nil => exact .inl nofun
  | @cons r rs h hrs ih =>
    by_cases hafter : r.after.phase = .pending
    · rcases ih hafter with hall | ⟨early, s, late, rfl, hearly, hs⟩
      · exact .inl (List.forall_mem_cons.mpr ⟨h.quiet hafter, hall⟩)
      · exact .inr ⟨r :: early, s, late, rfl, List.forall_mem_cons.mpr ⟨h.quiet hafter, hearly⟩, hs⟩
    · exact .inr ⟨[], r, rs, rfl, nofun, hc, hafter, hrs⟩

/-- While the step is pending, its listeners are those that were brought. -/
theorem listeners (h : Chained c (earlier ++ r :: later)) (hr : r.before.phase = .pending) :
    c.phase = .pending ∧ r.before.onDone = c.onDone ++ waiting earlier ∧
      r.before.onAbandon = c.onAbandon ++ watching earlier := by
  induction earlier generalizing c with
  | nil =>
    cases h
    exact ⟨hr, (List.append_nil _).symm, (List.append_nil _).symm⟩
  | cons q earlier ih =>
    cases h with
    | cons h hrs =>
      obtain ⟨hafter, hdone, habandon⟩ := ih hrs
      have hq := h.quiet hafter
      refine ⟨hq.before, ?_, ?_⟩
      · rw [hdone, hq.onDone, List.append_assoc, waiting_cons]
      · rw [habandon, hq.onAbandon, List.append_assoc, watching_cons]

end Request.Chained

/-- Whether the step was pending when a command came. -/
def Request.early (r : Request) : Bool := r.before.phase matches .pending

/-- What commands from outside to a new completion lead to. -/
structure Delivers (label : String) (commands : List Command) (rs : List Request) : Prop where
  carried_out : rs.map Request.command = commands
  apart : ∀ r ∈ rs, ¬(r.after.isDone = true ∧ r.after.isAbandoned = true)
  /-- A result stays, and to resolve the step again is refused. -/
  once_done : rs.Pairwise fun r s => ∀ result, r.after.result? = some result →
    s.after.result? = some result ∧ ∀ error tree, s.command = .resolve error tree →
      s.answer = .error (Completion.resolvedTwice label) ∧ s.told = [] ∧ s.logged = [] ∧
        s.after = s.before
  /-- An abandoned step stays so, and to resolve it does nothing but leave a warning. -/
  once_abandoned : rs.Pairwise fun r s => r.after.isAbandoned = true →
    s.after.isAbandoned = true ∧ ∀ error tree, s.command = .resolve error tree →
      s.answer = .ok () ∧ s.told = [] ∧ s.logged = [⟨.warning, logger, lateText label⟩] ∧
        s.after = s.before
  /-- A pending step is resolved, and those are told who have asked for the result by then. -/
  resolved : ∀ earlier r later, rs = earlier ++ r :: later → r.before.phase = .pending →
    ∀ error tree, r.command = .resolve error tree → r.after.result? = some (error, tree) ∧
      r.answer = (waiting earlier).forM Listener.finish ∧
      r.told = (upTo Listener.fails (waiting earlier)).map (·.doneNotice (error, tree))
  /-- Who asks when there is a result is told at once. -/
  told_at_once : rs.Pairwise fun r s => ∀ result k, r.after.result? = some result →
    s.command = .addDone k → s.answer = k.finish ∧ s.told = [k.doneNotice result]
  /-- A pending step is abandoned, and those are told who have asked for that by then. -/
  abandoned : ∀ earlier r later, rs = earlier ++ r :: later → r.before.phase = .pending →
    r.command = .abandon → r.after.isAbandoned = true ∧
      r.answer = (watching earlier).forM Listener.finish ∧
      r.told = (upTo Listener.fails (watching earlier)).map Listener.abandonNotice
  /-- All that is told in the course of time if the step is resolved. -/
  all_of_done : ∀ result, (∃ r ∈ rs, r.after.result? = some result) →
    ∃ called, called.Sublist (waiting rs) ∧ news rs = called.map (·.doneNotice result) ∧
      ((∀ k ∈ waiting rs, k.fails = false) → called = waiting rs)
  /-- All that is told in the course of time if the step is abandoned. -/
  all_of_abandoned : (∃ r ∈ rs, r.after.isAbandoned = true) →
    ∃ called, called <+: watching (rs.filter Request.early) ∧
      news rs = called.map Listener.abandonNotice ∧
      ((∀ k ∈ watching (rs.filter Request.early), k.fails = false) →
        called = watching (rs.filter Request.early))
  all_of_pending : (∀ r ∈ rs, r.after.phase = .pending) → news rs = []

section Requests

variable {label : String} {rs earlier later : List Request} {r : Request}

theorem Request.Follows.resolved_again (h : r.Follows) {result : Value × Value} {error tree : Value}
    (hr : r.before.phase = .done result) (hcommand : r.command = .resolve error tree) :
    r.answer = .error (Completion.resolvedTwice r.before.label) ∧ r.told = [] ∧ r.logged = [] ∧
      r.after = r.before := by
  cases h with
  | resolved _ _ hc => cases hr.symm.trans hc
  | resolvedAgain => exact ⟨rfl, rfl, rfl, rfl⟩
  | resolvedLate _ _ hc => cases hr.symm.trans hc
  | _ => cases hcommand

theorem Request.Follows.resolved_late (h : r.Follows) {error tree : Value}
    (hr : r.before.phase = .abandoned) (hcommand : r.command = .resolve error tree) :
    r.answer = .ok () ∧ r.told = [] ∧
      r.logged = [⟨.warning, logger, lateText r.before.label⟩] ∧ r.after = r.before := by
  cases h with
  | resolved _ _ hc => cases hr.symm.trans hc
  | resolvedAgain _ _ hc => cases hr.symm.trans hc
  | resolvedLate => exact ⟨rfl, rfl, rfl, rfl⟩
  | _ => cases hcommand

theorem Request.Follows.told_at_once (h : r.Follows) {result : Value × Value} {k : Listener}
    (hr : r.before.phase = .done result) (hcommand : r.command = .addDone k) :
    r.answer = k.finish ∧ r.told = [k.doneNotice result] := by
  cases h with
  | waits _ hc => exact absurd hr (hc result)
  | toldAtOnce _ hc =>
    cases hcommand
    cases hr.symm.trans hc
    exact ⟨rfl, rfl⟩
  | _ => cases hcommand

/-- A command that settles a pending step resolves or abandons it. -/
theorem Request.Follows.settles (h : r.Follows) (hr : r.before.phase = .pending)
    (hafter : r.after.phase ≠ .pending) :
    (∃ result, r.after.phase = .done result ∧ r.command.waiting? = none ∧
      r.told = (upTo Listener.fails r.before.onDone).map (·.doneNotice result)) ∨
    (r.after.phase = .abandoned ∧ r.command.watching? = none ∧
      r.told = (upTo Listener.fails r.before.onAbandon).map Listener.abandonNotice) := by
  cases h with
  | resolved error tree => exact .inl ⟨(error, tree), rfl, rfl, rfl⟩
  | abandoned => exact .inr ⟨rfl, rfl, rfl⟩
  | _ => exact absurd hr hafter

namespace Request.Chained

theorem resolved (h : Chained (.start label) (earlier ++ r :: later)) (hr : r.before.phase = .pending)
    {error tree : Value} (hcommand : r.command = .resolve error tree) :
    r.after.result? = some (error, tree) ∧ r.answer = (waiting earlier).forM Listener.finish ∧
      r.told = (upTo Listener.fails (waiting earlier)).map (·.doneNotice (error, tree)) := by
  obtain ⟨-, hdone, -⟩ := h.listeners hr
  rw [← hdone.trans (List.nil_append _)]
  cases h.follows r (List.mem_append_right _ List.mem_cons_self) with
  | resolved => cases hcommand; exact ⟨rfl, rfl, rfl⟩
  | resolvedAgain _ _ hc => cases hr.symm.trans hc
  | resolvedLate _ _ hc => cases hr.symm.trans hc
  | _ => cases hcommand

theorem abandoned (h : Chained (.start label) (earlier ++ r :: later)) (hr : r.before.phase = .pending)
    (hcommand : r.command = .abandon) :
    r.after.isAbandoned = true ∧ r.answer = (watching earlier).forM Listener.finish ∧
      r.told = (upTo Listener.fails (watching earlier)).map Listener.abandonNotice := by
  obtain ⟨-, -, habandon⟩ := h.listeners hr
  rw [← habandon.trans (List.nil_append _)]
  cases h.follows r (List.mem_append_right _ List.mem_cons_self) with
  | abandoned => exact ⟨rfl, rfl, rfl⟩
  | settled hc => exact absurd hr hc
  | _ => cases hcommand

end Request.Chained

theorem news_of_quiet (h : ∀ r ∈ rs, r.Quiet) : news rs = [] :=
  List.flatMap_eq_nil_iff.mpr fun r hr => (h r hr).told

theorem filter_early (hearly : ∀ q ∈ earlier, q.Quiet) (hr : r.before.phase = .pending)
    (hlater : ∀ q ∈ later, q.before.phase ≠ .pending) :
    (earlier ++ r :: later).filter Request.early = earlier ++ [r] := by
  have hpending : earlier.filter Request.early = earlier :=
    List.filter_eq_self.mpr fun q hq => by rw [Request.early, (hearly q hq).before]
  have hsettled : later.filter Request.early = [] := by
    refine List.filter_eq_nil_iff.mpr fun q hq => ?_
    have hq := hlater q hq
    unfold Request.early
    split <;> simp_all
  rw [List.filter_append, hpending, List.filter_cons_of_pos (by rw [Request.early, hr]), hsettled]

/-- How the commands to a new completion go: the step stays pending, or one of them resolves it, or one
abandons it. -/
theorem Request.Chained.cases_of_start (h : Chained (.start label) rs) :
    (∀ r ∈ rs, r.after.phase = .pending) ∨
    (∃ result, (∀ r ∈ rs, r.after.phase = .pending ∨ r.after.phase = .done result) ∧
      ∃ early late, waiting rs = early ++ late ∧
        news rs = (upTo Listener.fails early ++ late).map (·.doneNotice result)) ∨
    ((∀ r ∈ rs, r.after.phase = .pending ∨ r.after.phase = .abandoned) ∧
      news rs = (upTo Listener.fails (watching (rs.filter Request.early))).map Listener.abandonNotice) := by
  rcases h.of_pending rfl with hquiet | ⟨early, r, late, rfl, hquiet, hbefore, hafter, hlate⟩
  · exact .inl fun r hr => (hquiet r hr).after
  · obtain ⟨-, hdone, habandon⟩ := h.listeners hbefore
    rcases (h.follows r (List.mem_append_right _ List.mem_cons_self)).settles hbefore hafter with
      ⟨result, hphase, hcommand, htold⟩ | ⟨hphase, hcommand, htold⟩
    · obtain ⟨hphases, hnews⟩ := hlate.of_done hphase
      refine .inr (.inl ⟨result, ?_, waiting early, waiting late, ?_, ?_⟩)
      · exact List.forall_mem_append.mpr ⟨fun q hq => .inl (hquiet q hq).after,
          List.forall_mem_cons.mpr ⟨.inr hphase, fun q hq => .inr (hphases q hq).2⟩⟩
      · rw [waiting_append, waiting_cons, hcommand]
        rfl
      · rw [news_append, news_of_quiet hquiet, news_cons, htold, hdone, hnews, List.map_append]
        rfl
    · obtain ⟨hphases, hnews⟩ := hlate.of_abandoned hphase
      refine .inr (.inr ⟨?_, ?_⟩)
      · exact List.forall_mem_append.mpr ⟨fun q hq => .inl (hquiet q hq).after,
          List.forall_mem_cons.mpr ⟨.inr hphase, fun q hq => .inr (hphases q hq).2⟩⟩
      · have hlater : ∀ q ∈ late, q.before.phase ≠ .pending := by
          intro q hq hpending
          cases hpending.symm.trans (hphases q hq).1
        rw [filter_early hquiet hbefore hlater, news_append, news_of_quiet hquiet, news_cons, htold,
          habandon, hnews, watching_append, watching_cons, hcommand]
        simp [Completion.start, watching]

namespace Request.Chained

theorem once_done (h : Chained (.start label) rs) : rs.Pairwise fun r s =>
    ∀ result, r.after.result? = some result → s.after.result? = some result ∧
      ∀ error tree, s.command = .resolve error tree →
        s.answer = .error (Completion.resolvedTwice label) ∧ s.told = [] ∧ s.logged = [] ∧
          s.after = s.before := by
  refine h.pairwise fun r rs hlabel hrs s hs result hresult => ?_
  obtain ⟨hbefore, hafter⟩ := (hrs.of_done (Completion.result?_eq_some.mp hresult)).1 s hs
  have hlabel : s.before.label = label := (hrs.label s hs).trans hlabel
  refine ⟨Completion.result?_eq_some.mpr hafter, fun error tree hcommand => ?_⟩
  rw [← hlabel]
  exact (hrs.follows s hs).resolved_again hbefore hcommand

theorem once_abandoned (h : Chained (.start label) rs) : rs.Pairwise fun r s =>
    r.after.isAbandoned = true → s.after.isAbandoned = true ∧
      ∀ error tree, s.command = .resolve error tree →
        s.answer = .ok () ∧ s.told = [] ∧ s.logged = [⟨.warning, logger, lateText label⟩] ∧
          s.after = s.before := by
  refine h.pairwise fun r rs hlabel hrs s hs habandoned => ?_
  obtain ⟨hbefore, hafter⟩ := (hrs.of_abandoned (Completion.isAbandoned_iff.mp habandoned)).1 s hs
  have hlabel : s.before.label = label := (hrs.label s hs).trans hlabel
  refine ⟨Completion.isAbandoned_iff.mpr hafter, fun error tree hcommand => ?_⟩
  rw [← hlabel]
  exact (hrs.follows s hs).resolved_late hbefore hcommand

theorem told_at_once (h : Chained (.start label) rs) : rs.Pairwise fun r s =>
    ∀ result k, r.after.result? = some result → s.command = .addDone k →
      s.answer = k.finish ∧ s.told = [k.doneNotice result] := by
  refine h.pairwise fun r rs _ hrs s hs result k hresult hcommand => ?_
  have hbefore := ((hrs.of_done (Completion.result?_eq_some.mp hresult)).1 s hs).1
  exact (hrs.follows s hs).told_at_once hbefore hcommand

theorem all_of_done (h : Chained (.start label) rs) {result : Value × Value}
    (hdone : ∃ r ∈ rs, r.after.result? = some result) :
    ∃ called, called.Sublist (waiting rs) ∧ news rs = called.map (·.doneNotice result) ∧
      ((∀ k ∈ waiting rs, k.fails = false) → called = waiting rs) := by
  obtain ⟨r, hr, hresult⟩ := hdone
  have hphase := Completion.result?_eq_some.mp hresult
  rcases h.cases_of_start with hall | ⟨result', hall, early, late, hwaiting, hnews⟩ | ⟨hall, -⟩
  · cases hphase.symm.trans (hall r hr)
  · obtain rfl : result' = result := by
      rcases hall r hr with hpending | hdone
      · cases hphase.symm.trans hpending
      · exact Phase.done.inj (hdone.symm.trans hphase)
    rw [hwaiting]
    refine ⟨_, (Tree.upTo_prefix _ _).sublist.append (List.Sublist.refl late), hnews, fun hnone => ?_⟩
    rw [upTo_fails_eq_self fun k hk => hnone k (List.mem_append_left _ hk)]
  · rcases hall r hr with hpending | habandoned
    · cases hphase.symm.trans hpending
    · cases hphase.symm.trans habandoned

theorem all_of_abandoned (h : Chained (.start label) rs)
    (habandoned : ∃ r ∈ rs, r.after.isAbandoned = true) :
    ∃ called, called <+: watching (rs.filter Request.early) ∧
      news rs = called.map Listener.abandonNotice ∧
      ((∀ k ∈ watching (rs.filter Request.early), k.fails = false) →
        called = watching (rs.filter Request.early)) := by
  obtain ⟨r, hr, habandoned⟩ := habandoned
  have hphase := Completion.isAbandoned_iff.mp habandoned
  rcases h.cases_of_start with hall | ⟨result, hall, -⟩ | ⟨hall, hnews⟩
  · cases hphase.symm.trans (hall r hr)
  · rcases hall r hr with hpending | hdone
    · cases hphase.symm.trans hpending
    · cases hphase.symm.trans hdone
  · exact ⟨_, Tree.upTo_prefix _ _, hnews, upTo_fails_eq_self⟩

theorem all_of_pending (h : Chained (.start label) rs) (hpending : ∀ r ∈ rs, r.after.phase = .pending) :
    news rs = [] := by
  rcases h.of_pending rfl with hquiet | ⟨early, r, late, rfl, -, -, hafter, -⟩
  · exact news_of_quiet hquiet
  · exact absurd (hpending r (List.mem_append_right _ List.mem_cons_self)) hafter

end Request.Chained

theorem Completion.not_done_and_abandoned (c : Awaited) :
    ¬(c.isDone = true ∧ c.isAbandoned = true) := by
  rintro ⟨hdone, habandoned⟩
  obtain ⟨result, hdone⟩ := isDone_iff.mp hdone
  cases hdone.symm.trans (isAbandoned_iff.mp habandoned)

theorem ready_start {bound more : Nat} (h : more + 2 ≤ bound) : Ready bound more (.start label) where
  onDone := List.forall_mem_nil _
  onAbandon := List.forall_mem_nil _
  bound := by rwa [Completion.start, List.length_nil, Nat.zero_add]

theorem map_command_requests {bound : Nat} {c : Awaited} {commands : List Command} :
    (requests bound c commands).map Request.command = commands := by
  induction commands generalizing c with
  | nil => rfl
  | cons command rest ih => exact congrArg (command :: ·) ih

/-- A completion answers and tells as it should, whatever commands it is given from outside and whichever
listeners fail, as long as these give no commands themselves. -/
theorem requests_deliver (label : String) (bound : Nat) (commands : List Command)
    (hplain : ∀ command ∈ commands, command.Plain) (hbound : commands.length + 2 ≤ bound) :
    Delivers label commands (requests bound (.start label) commands) := by
  have h : Request.Chained (.start label) (requests bound (.start label) commands) :=
    requests_chained (ready_start hbound) hplain
  exact {
    carried_out := map_command_requests
    apart := fun r _ => r.after.not_done_and_abandoned
    once_done := h.once_done
    once_abandoned := h.once_abandoned
    resolved := fun _ _ _ hsplit hr _ _ hcommand => (hsplit ▸ h).resolved hr hcommand
    told_at_once := h.told_at_once
    abandoned := fun _ _ _ hsplit hr hcommand => (hsplit ▸ h).abandoned hr hcommand
    all_of_done := fun _ hdone => h.all_of_done hdone
    all_of_abandoned := h.all_of_abandoned
    all_of_pending := h.all_of_pending }

end Requests

/-- Commands that resolve a step, and afterwards ask for its result, resolve it again and abandon it. One of
the listeners fails. -/
def busy : List Command := [
  .addDone (.mk "first" none none),
  .addDone (.mk "failing" none (some (.raised "RuntimeError" [.str "boom"]))),
  .addDone (.mk "third" none none),
  .addAbandon (.mk "abandoned" none none),
  .resolve .none (.str "tree"),
  .addDone (.mk "late" none none),
  .resolve .none .none,
  .abandon]

theorem requests_deliver_busy : (∀ command ∈ busy, command.Plain) ∧
    busy.length + 2 ≤ 10 ∧
    Delivers "upper" busy (requests 10 (.start "upper") busy) ∧
    (requests 10 (.start "upper") busy).map Request.told =
      [[], [], [], [], [.done "first" .none (.str "tree"), .done "failing" .none (.str "tree")],
        [.done "late" .none (.str "tree")], [], []] := by
  have hplain : ∀ command ∈ busy, command.Plain := by
    simp [busy, Command.Plain, Listener.Plain]
  have hbound : busy.length + 2 ≤ 10 := by decide
  exact ⟨hplain, hbound, requests_deliver "upper" 10 busy hplain hbound, rfl⟩

end TextPipeline.Transform
