import TextPipeline.Proofs.Fold

/-! Steps that fix, when they are called, what they do to the tree and the file and what they result
in. Such a step can pass on its result at once, return it or raise it, or it can keep the way to pass it
on for later. What it does besides is the same in every manner. -/

namespace TextPipeline.Pipeline

open TextPipeline.Transform
open TextPipeline.Pipeline.Action
open World (nobody)

/-- What changes or sees a tree and a file, and does nothing else. -/
inductive Deed where
  | change (f : Sight → Value → File → Change)
  | mapLiterals (type : Option Value) (f : Node → Outcome Value) (records : Nat → List LogRecord)
  | observe (label : String) (f : Value → File → Outcome (Option String))
  | log (record : LogRecord)

namespace Deed

/-- A deed as a step of a transformer. -/
def act : Deed → Act
  | change f => .change f
  | mapLiterals type f records => .mapLiterals type f records
  | observe label f => .observe label f
  | log record => .log record

def carryOut (tree : Value) (id : Nat) : Deed → Action Unit
  | change f => do
    let c := f (← get).sight (← content tree) (← file id)
    let _ ← withStore (Store.change (fun _ => c.tree) tree)
    setFile id c.file
    c.records.forM fun record => tell (.log record)
    Action.raise c.fault
  | mapLiterals type f records => do
    let m ← withStore (Store.mapLiterals f type tree)
    Action.raise m.fault
    (records m.count).forM fun record => tell (.log record)
  | observe label f => do
    tell (.traced label (← ofOutcome (f (← reveal tree) (← file id))))
  | log record => tell (.log record)

end Deed

/-- Carries out deeds in order. -/
def carryOut (tree : Value) (id : Nat) (deeds : List Deed) : Action Unit :=
  deeds.forM (Deed.carryOut tree id)

theorem Local.carryOut (tree : Value) (id : Nat) (deeds : List Deed) :
    Local (carryOut tree id deeds) := by
  refine forM (fun d => ?_) deeds
  cases d with
  | change f =>
    exact get (fun _ => bind (content _) fun _ => bind (file _) fun _ => bind (withStore _) fun _ =>
      bind (setFile _ _) fun _ => bind (forM (fun _ => tell rfl) _) fun _ => raise _) fun _ => rfl
  | mapLiterals type f records =>
    exact bind (withStore _) fun _ => bind (raise _) fun _ => forM (fun _ => tell rfl) _
  | observe label f =>
    exact bind (reveal _) fun _ => bind (file _) fun _ => bind (ofOutcome _) fun _ => tell rfl
  | log record => exact tell rfl

/-- Deeds are carried out as steps of a transformer by carrying them out. -/
theorem perform_deeds (host : Host) (scene : Scene) (waits : Bool) (deeds : List Deed)
    (rest : List Act) :
    perform host scene waits (deeds.map Deed.act ++ rest) =
      carryOut scene.tree scene.file deeds >>= fun _ => perform host scene waits rest := by
  induction deeds with
  | nil => rfl
  | cons d deeds ih =>
    have hcons : carryOut scene.tree scene.file (d :: deeds) =
        d.carryOut scene.tree scene.file >>= fun _ => carryOut scene.tree scene.file deeds := rfl
    rw [hcons, bind_assoc, ← ih]
    cases d <;> simp only [List.map_cons, List.cons_append, Deed.act, perform, Deed.carryOut, bind_assoc]

/-- The result that a step fixes: a fault, no change, or another tree. -/
inductive Verdict where
  | fail (f : Fault)
  | keep
  | replace (tree : Sight → { v : Value // v.isNode = true })

namespace Verdict

/-- The fault that is passed on, if there is one. -/
def error : Verdict → Value
  | fail f => .error f
  | _ => .none

/-- The tree that is passed on, if there is one. -/
def tree (s : Sight) : Verdict → Value
  | replace tree => (tree s).1
  | _ => .none

/-- The result as it is returned. -/
def answer (s : Sight) : Verdict → Value
  | fail f => .error f
  | v => v.tree s

/-- The result of a step that passes on such a tree. -/
def result (shared : Value) : Verdict → Resolution
  | fail f => .failed f
  | keep => .unchanged
  | replace _ => ⟨none, some shared⟩

end Verdict

/-- What a step is to do and to result in. -/
structure Plan where
  deeds : List Deed
  verdict : Verdict

/-- A step that makes a plan when it sees a tree and a file. -/
structure Part where
  name : String
  plan : View → Plan

/-- When and how a step delivers its result. -/
inductive Manner where
  | passing
  | returning
  | raising
  /-- By the way to pass it on, which is kept under a name. -/
  | later (key : String)

namespace Manner

def style : Manner → Style
  | passing | later _ => .next
  | returning | raising => .plain

/-- The last steps of a transformer, by which it delivers its result. What is no error is returned
even if all else is raised. -/
def acts (v : Verdict) : Manner → List Act
  | passing => [.next false (fun _ => .ok v.error) fun s => .ok (v.tree s)]
  | returning => [.give fun s => .ok (v.answer s)]
  | raising =>
    match v with
    | .fail f => if f.isError then [.raise f] else [.give fun _ => .ok (.error f)]
    | v => [.give fun s => .ok (v.answer s)]
  | later key => [.saveNext key]

/-- Whether the result is there when the call returns. -/
def prompt : Manner → Bool
  | later _ => false
  | _ => true

end Manner

/-- The transformer that acts as a part of a chain, in some manner. -/
def Part.transformer (p : Part) (m : Manner) : Transformer :=
  .mk p.name m.style fun tree file =>
    (p.plan ⟨tree, file⟩).deeds.map Deed.act ++ m.acts (p.plan ⟨tree, file⟩).verdict

/-- The name that a part goes by. -/
def Part.title (p : Part) : String := nameOf (some p.name) none "function"

theorem Part.transformer_name (p : Part) (m : Manner) : (p.transformer m).name = p.title := by
  cases m <;> rfl

/-- What a transformer answers with the value that its steps come to. -/
def Scene.reply (scene : Scene) : Value → Answer
  | .awaitable _ => .later ⟨scene, .inr []⟩
  | v => .value v

/-- The world in which a step has the result that it fixed. -/
def World.deciding (w : World) (id : Nat) (c : Completion Resolution Resumption Empty) (v : Verdict) :
    World :=
  (w.handing (v.tree w.sight)).answering id c (v.result (w.handed (v.tree w.sight)))

namespace Verdict

theorem ofCall_eq (name : String) (v : Verdict) (w : World) :
    Resolution.ofCall name v.error (w.handed (v.tree w.sight)) =
      v.result (w.handed (v.tree w.sight)) := by
  cases v with
  | fail f => rfl
  | keep => rfl
  | replace tree =>
    have hnode := w.handed_isNode (tree w.sight).2
    have hnone := isNone_of_isNode hnode
    simp [Resolution.ofCall, error, Verdict.tree, result, hnone, hnode]

theorem handing_answer (v : Verdict) (w : World) :
    w.handing (v.answer w.sight) = w.handing (v.tree w.sight) := by
  cases v <;> rfl

/-- What a step fixed comes to the same when it is returned. -/
theorem ofReturn_eq (name : String) (v : Verdict) (w : World) :
    Resolution.ofReturn name (w.handed (v.answer w.sight)) =
      v.result (w.handed (v.tree w.sight)) := by
  cases v with
  | fail f => rfl
  | keep => rfl
  | replace tree =>
    have hnode := w.handed_isNode (tree w.sight).2
    show Resolution.ofReturn name (w.handed (tree w.sight).1) = ⟨none, some (w.handed (tree w.sight).1)⟩
    generalize w.handed (tree w.sight).1 = v at hnode
    cases v with
    | node n => rfl
    | handle g => simp [Resolution.ofReturn, hnode]
    | _ => cases hnode

theorem reply_answer (scene : Scene) (v : Verdict) (w : World) :
    scene.reply (w.handed (v.answer w.sight)) = .value (w.handed (v.answer w.sight)) := by
  cases v with
  | fail f => rfl
  | keep => rfl
  | replace tree =>
    have hnode := w.handed_isNode (tree w.sight).2
    show scene.reply (w.handed (tree w.sight).1) = .value (w.handed (tree w.sight).1)
    generalize w.handed (tree w.sight).1 = v at hnode
    cases v <;> first | rfl | cases hnode

end Verdict

theorem Verdict.passedError (v : Verdict) (w : World) : w.passedError v.error = .ok v.error := by
  cases v <;> rfl

section Deliver

variable {host : Host} {w : World} {scene : Scene} {c : Completion Resolution Resumption Empty}

/-- To pass on what a step fixed is to resolve it with what this comes to. -/
theorem result_next_resolve {id : Nat} (hc : w.completions[id]? = some c) (v : Verdict) :
    (next host id v.error (v.tree w.sight)).result w =
      (resolve host id (v.result (w.handed (v.tree w.sight)))).result (w.handing (v.tree w.sight)) := by
  rw [next, result_bind_ok (result_completion hc), result_get_bind, v.passedError,
    result_bind_ok (result_ofOutcome _ w), result_bind_ok (result_share_handed w _), v.ofCall_eq]

/-- What a step fixed is passed on, while nobody waits for it. -/
theorem result_next_verdict (hc : w.completions[scene.completion]? = some c)
    (hp : c.phase = .pending) (hk : c.onDone = []) (v : Verdict) :
    (next host scene.completion v.error (v.tree w.sight)).result w =
      (.ok (), w.deciding scene.completion c v) :=
  (result_next_resolve hc v).trans
    (result_resolve_unwaited (w := w.handing (v.tree w.sight)) hc hp hk _)

theorem perform_passing (hn : scene.hasNext = true)
    (hc : w.completions[scene.completion]? = some c) (hp : c.phase = .pending) (hk : c.onDone = [])
    (v : Verdict) :
    (perform host scene false (Manner.passing.acts v)).result w =
      (.ok (.inl .none), w.deciding scene.completion c v) := by
  have hnext : (scene.next host (fun _ => .ok v.error) fun s => .ok (v.tree s)).result w =
      (.ok (), w.deciding scene.completion c v) := by
    have herror : (argument fun _ => .ok v.error).result w = (.ok v.error, w) := rfl
    have htree : (argument fun s => .ok (v.tree s)).result w = (.ok (v.tree w.sight), w) := rfl
    have hrequire : (require scene.hasNext noNext).result w = (.ok (), w) := by
      rw [hn]
      rfl
    rw [Scene.next, result_bind_ok herror, result_bind_ok htree, result_bind_ok hrequire]
    exact result_next_verdict hc hp hk v
  rw [Manner.acts, perform, passing, if_neg (by simp), result_bind_ok hnext]
  rfl

theorem perform_later (hn : scene.hasNext = true)
    (hc : w.completions[scene.completion]? = some c) (v : Verdict) (key : String) :
    (perform host scene false ((Manner.later key).acts v)).result w =
      (.ok (.inl .none), { w with nexts := (key, some scene.completion) :: w.nexts }) := by
  have hway : scene.way.result w = (.ok (some scene.completion), w) := by
    rw [Scene.way, hn, if_pos rfl, result_bind_ok (result_completion hc)]
    rfl
  have hsave : (scene.saveNext key).result w =
      (.ok ⟨⟩, { w with nexts := (key, some scene.completion) :: w.nexts }) := by
    rw [Scene.saveNext, result_bind_ok hway]
    rfl
  rw [Manner.acts, perform, result_bind_ok hsave]
  rfl

end Deliver

theorem Action.result_bind_congr {α β : Type} {x y : Action α} {w : World}
    (h : x.result w = y.result w) (f : α → Action β) :
    (x >>= f).result w = (y >>= f).result w := by
  rw [result_bind, result_bind, h]

section Call

variable (host : Host) (scene : Scene) (p : Part) (m : Manner) (w : World)

/-- The plan that a part makes in a world. -/
def Part.planIn : Plan := p.plan (w.view scene.tree scene.file)

/-- The value that steps come to. -/
def returned : Sum Value (List Act) → Value
  | .inl v => v
  | .inr _ => .none

theorem result_performAll_part :
    (performAll host scene (p.transformer m)).result w =
      (carryOut scene.tree scene.file (p.planIn scene w).deeds >>= fun _ => do
        return returned (← perform host scene false (m.acts (p.planIn scene w).verdict))).result
        w := by
  have hreveal : (reveal scene.tree).result w = (.ok (w.reveal scene.tree), w) := rfl
  have hfile : (file scene.file).result w = (.ok (w.files.getD scene.file File.empty), w) := rfl
  have hacts : (p.transformer m).program (w.reveal scene.tree) (w.files.getD scene.file File.empty) =
      (p.planIn scene w).deeds.map Deed.act ++ m.acts (p.planIn scene w).verdict := rfl
  rw [performAll, result_bind_ok hreveal, result_bind_ok hfile, hacts]
  dsimp only
  rw [perform_deeds, bind_assoc]
  congr 1
  refine bind_congr fun _ => bind_congr fun r => ?_
  cases r <;> rfl

/-- A part carries out the deeds of its plan, and answers then. -/
theorem result_call_part :
    (call host scene (p.transformer m)).result w =
      (carryOut scene.tree scene.file (p.planIn scene w).deeds >>= fun _ => do
        return scene.reply (returned
          (← perform host scene false (m.acts (p.planIn scene w).verdict)))).result w := by
  have hcall : (call host scene (p.transformer m)).result w =
      (performAll host scene (p.transformer m) >>= fun v => pure (scene.reply v)).result w := by
    have harguments : (tellArguments (p.transformer m)).result w = (.ok (), w) := by
      cases m <;> rfl
    have hstyle : call host scene (p.transformer m) = (do
        tellArguments (p.transformer m)
        match ← performAll host scene (p.transformer m) with
        | .awaitable _ => return .later ⟨scene, .inr []⟩
        | v => return .value v) := by
      cases m <;> rfl
    rw [hstyle, result_bind_ok harguments]
    congr 1
    refine bind_congr fun v => ?_
    cases v <;> rfl
  rw [hcall, result_bind_congr (result_performAll_part host scene p m w)]
  simp only [bind_assoc, pure_bind]

end Call

section Conclude

variable {host : Host} {w : World} {id : Nat} {c : Completion Resolution Resumption Empty}

/-- How a step ends that has carried out its deeds. -/
def World.finish (w : World) (id : Nat) (c : Completion Resolution Resumption Empty) (v : Verdict) :
    Manner → World
  | .later key => { w with nexts := (key, some id) :: w.nexts }
  | _ => w.deciding id c v

theorem World.finish_of_prompt {m : Manner} (hm : m.prompt = true) (w : World) (id : Nat)
    (c : Completion Resolution Resumption Empty) (v : Verdict) :
    w.finish id c v m = w.deciding id c v := by
  cases m with
  | later key => cases hm
  | _ => rfl

/-- What an answer of a part means for its step. -/
def answering (host : Host) (w : World) (id file : Nat) (tree : Value) (p : Part) (m : Manner)
    (acts : List Act) : Outcome Unit × World :=
  let scene : Scene := ⟨tree, file, id, m.style.takesNext⟩
  let answer := (do
    return scene.reply (returned (← perform host scene false acts)) : Action Answer).result w
  (conclude host id (p.transformer m) answer.1).result answer.2

theorem answering_of {file : Nat} {tree : Value} {p : Part} {m : Manner} {acts : List Act}
    {a : Outcome Answer} {v : World}
    (h : (do
      return Scene.reply ⟨tree, file, id, m.style.takesNext⟩
        (returned (← perform host ⟨tree, file, id, m.style.takesNext⟩ false acts)) :
          Action Answer).result w = (a, v)) :
    answering host w id file tree p m acts = (conclude host id (p.transformer m) a).result v := by
  unfold answering
  dsimp only
  rw [h]

/-- The result of a part is noted that it returns. -/
theorem answering_given (hc : w.completions[id]? = some c) (hp : c.phase = .pending)
    (hk : c.onDone = []) (p : Part) {m : Manner} (hm : m.style = .plain) (v : Verdict) (tree : Value)
    (file : Nat) :
    answering host w id file tree p m [.give fun s => .ok (v.answer s)] =
      (.ok (), w.deciding id c v) := by
  have hperform : (perform host ⟨tree, file, id, m.style.takesNext⟩ false
      [.give fun s => .ok (v.answer s)]).result w =
        (.ok (.inl (w.handed (v.answer w.sight))), w.handing (v.answer w.sight)) := rfl
  have hstyle : (p.transformer m).style = .plain := hm
  rw [answering_of (result_bind_ok hperform)]
  rw [returned, v.reply_answer, v.handing_answer, conclude, hstyle, if_neg (by decide), v.ofReturn_eq]
  exact result_resolve_unwaited (w := w.handing (v.tree w.sight)) hc hp hk _

/-- The result of a part is noted when its call returns, unless it is to come later. -/
theorem answering_acts (hc : w.completions[id]? = some c) (hp : c.phase = .pending)
    (hk : c.onDone = []) (p : Part) (m : Manner) (v : Verdict) (tree : Value) (file : Nat) :
    answering host w id file tree p m (m.acts v) = (.ok (), w.finish id c v m) := by
  cases m with
  | passing => exact answering_of (result_bind_ok (perform_passing rfl hc hp hk v))
  | later key => exact answering_of (result_bind_ok (perform_later rfl hc v key))
  | returning => exact answering_given hc hp hk p rfl v tree file
  | raising =>
    cases v with
    | keep => exact answering_given hc hp hk p rfl .keep tree file
    | replace t => exact answering_given hc hp hk p rfl (.replace t) tree file
    | fail f =>
      cases hf : f.isError with
      | true =>
        have hacts : Manner.raising.acts (.fail f) = [.raise f] := by simp [Manner.acts, hf]
        rw [hacts, answering_of (result_bind_error (e := f) rfl), conclude,
          result_bind_ok (result_completion hc), hf]
        exact result_resolve_unwaited hc hp hk _
      | false =>
        have hacts : Manner.raising.acts (.fail f) = [.give fun s => .ok ((Verdict.fail f).answer s)] := by
          simp [Manner.acts, hf, Verdict.answer]
        rw [hacts]
        exact answering_given hc hp hk p rfl (.fail f) tree file

/-- The step of a part: its deeds are carried out, and then it is finished in its manner, at once or
later. Deeds that fail are its result at once. -/
theorem result_apply_part (hc : w.completions[id]? = some c) (hp : c.phase = .pending)
    (hk : c.onDone = []) (x : Run) (index : Nat) (p : Part) (m : Manner) (tree : Value) :
    (apply host x index (p.transformer m) tree id).result w =
      match (carryOut tree x.file (p.plan (w.view tree x.file)).deeds).result
        (w.told (applying x index (p.transformer m))) with
      | (.error f, v) => if f.isError then (.ok (), v.answering id c (.failed f)) else (.error f, v)
      | (.ok _, v) => (.ok (), v.finish id c (p.plan (w.view tree x.file)).verdict m) := by
  have hlocal := (Local.carryOut tree x.file (p.plan (w.view tree x.file)).deeds).result
    (w.told (applying x index (p.transformer m)))
  have hcall := result_call_part host ⟨tree, x.file, id, m.style.takesNext⟩ p m
    (w.told (applying x index (p.transformer m)))
  have hplan : p.planIn ⟨tree, x.file, id, m.style.takesNext⟩
      (w.told (applying x index (p.transformer m))) = p.plan (w.view tree x.file) := rfl
  rw [hplan, result_bind] at hcall
  have happly : (apply host x index (p.transformer m) tree id).result w =
      (conclude host id (p.transformer m)
        ((call host ⟨tree, x.file, id, m.style.takesNext⟩ (p.transformer m)).result
          (w.told (applying x index (p.transformer m)))).1).result
        ((call host ⟨tree, x.file, id, m.style.takesNext⟩ (p.transformer m)).result
          (w.told (applying x index (p.transformer m)))).2 := by
    rw [apply, result_bind_ok (result_log _ _ _ w), result_bind_ok (result_attempt _ _)]
    rfl
  rw [happly, hcall]
  generalize (carryOut tree x.file (p.plan (w.view tree x.file)).deeds).result
    (w.told (applying x index (p.transformer m))) = done at hlocal ⊢
  obtain ⟨o, v⟩ := done
  have hc' : v.completions[id]? = some c := by
    rw [(Prod.mk.inj hlocal).2]
    exact hc
  cases o with
  | error f =>
    dsimp only
    rw [conclude, result_bind_ok (result_completion hc')]
    cases hf : f.isError with
    | true =>
      simp only [Completion.isDone, Completion.isAbandoned, hp, Bool.or_self, Bool.and_false,
        Bool.not_false, Bool.and_self]
      exact result_resolve_unwaited hc' hp hk _
    | false => rfl
  | ok _ => exact answering_acts hc' hp hk p m _ tree x.file

end Conclude

end TextPipeline.Pipeline
