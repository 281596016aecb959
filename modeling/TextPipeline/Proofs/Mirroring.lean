import TextPipeline.Proofs.Twin

/-! Transformers that touch nothing but their own tree and file. Whatever their chain does, up to the
point at which it halts, it does the same in two worlds in which it stands at the same point. For every
function this is shown from the same fact about the functions that it calls. -/

namespace TextPipeline.Pipeline

open TextPipeline.Transform
open TextPipeline.Pipeline.Action

/-- An argument that is the same whatever can be seen, and refers to nothing that is shared. -/
def Argument.Closed (a : Argument) : Prop := (∀ s s', a s = a s') ∧ ∀ s v, a s = .ok v → v.Closed

/-- A change that is the same whatever else can be seen. Of a tree that refers to nothing it makes such a
tree, and it stores no trees in the file but such trees. -/
structure Confined (f : Sight → Value → File → Change) : Prop where
  blind : ∀ s s', f s = f s'
  tree : ∀ s (t : Node) file, (Value.node t).Closed →
    ∃ t', (f s (.node t) file).tree = .node t' ∧ (Value.node t').Closed
  stored : ∀ s (t : Node) file name v, (Value.node t).Closed →
    (f s (.node t) file).file.treeOf name = some v → v.Closed ∨ file.treeOf name = some v

/-- A step that touches nothing but its own tree and file, and passes on nothing else. -/
def Act.Own : Act → Prop
  | .change f => Confined f
  | .mapLiterals _ f _ => Tree.Closing f
  | .next _ error tree | .laterNext _ error tree => Argument.Closed error ∧ Argument.Closed tree
  | .give v => Argument.Closed v
  | .giveReport reason => ∀ s s', reason s = reason s'
  | .callNext .. | .use .. | .process .. => False
  | .observe .. | .log _ | .saveNext _ | .sleep | .raise _ | .giveAwaitable => True

/-- A transformer that touches nothing but its own tree and file. -/
def Transformer.Own (t : Transformer) : Prop :=
  ∀ (tree : Node) (file : File), (Value.node tree).Closed → ∀ a ∈ t.program (.node tree) file, a.Own

/-! ### What is passed on -/

section Results

variable {b : Bond}

theorem Bond.Results.treeless {r : Resolution} (h : r.tree = none) : b.Results r r := by
  obtain ⟨error, tree⟩ := r
  obtain rfl : tree = none := h
  exact .plain error

/-- What is returned comes to the same result. -/
theorem Bond.Alike.ofReturn (name : String) {v w : Value} (h : b.Alike v w) :
    b.Results (.ofReturn name v) (.ofReturn name w) := by
  cases h with
  | same hv =>
    refine .treeless ?_
    unfold Resolution.ofReturn
    split
    · rfl
    · rfl
    · rw [hv]
      rfl
  | tree hn => exact .tree hn
  | list n m => exact .plain _
  | dict n m => exact .plain _
  | tuple vs ws => exact .plain _

/-- What is passed on comes to the same result. -/
theorem Bond.Alike.ofCall (name : String) (error : Value) {v w : Value} (h : b.Alike v w) :
    b.Results (.ofCall name error v) (.ofCall name error w) := by
  have treeless {v : Value} (hv : v.isNode = false) : (Resolution.ofCall name error v).tree = none := by
    unfold Resolution.ofCall
    split
    · split <;> rfl
    · rw [hv]
      split
      · rfl
      · rfl
    · rfl
  have untyped {v w : Value} (hv : v.isNone = w.isNone) (hn : v.isNode = w.isNode)
      (ht : v.typeName = w.typeName) (hf : v.isNode = false) :
      b.Results (.ofCall name error v) (.ofCall name error w) := by
    have heq : Resolution.ofCall name error v = Resolution.ofCall name error w := by
      unfold Resolution.ofCall Resolution.ofCall.strayTree
      rw [hv, hn, ht, ← hn, hf]
      rfl
    rw [← heq]
    exact .treeless (treeless hf)
  cases h with
  | same hv => exact .treeless (treeless hv)
  | tree hn =>
    unfold Resolution.ofCall
    split
    · exact .plain _
    · exact .tree hn
    · exact .plain _
  | list n m => exact untyped rfl rfl rfl rfl
  | dict n m => exact untyped rfl rfl rfl rfl
  | tuple vs ws => exact untyped rfl rfl rfl rfl

end Results

/-- What steps come to: a value, or the steps that are left. -/
inductive Bond.Performed (b : Bond) : Sum Value (List Act) → Sum Value (List Act) → Prop
  | value {v w : Value} (h : b.Alike v w) : Performed b (.inl v) (.inl w)
  | rest (acts : List Act) : Performed b (.inr acts) (.inr acts)

/-- Answers of a transformer; of what is put off nothing matters but that it is. -/
inductive Bond.Answers (b : Bond) : Answer → Answer → Prop
  | value {v w : Value} (h : b.Alike v w) : Answers b (.value v) (.value w)
  | later (t u : Task) : Answers b (.later t) (.later u)
  | settled (s s' : Settled) : Answers b (.settled s) (.settled s')

/-- Where a chain halts: with the same error if it has ended, or at a pending step. -/
inductive Bond.Halts (b : Bond) : Halt → Halt → Prop
  | ended (error : Option Fault) {n m : Nat} (h : b.trees n m) :
    Halts b (.ended error (.handle (.node n))) (.ended error (.handle (.node m)))
  | held (index : Nat) (name label : String) (vs ws : List Empty) {n m i j : Nat} (h : b.trees n m)
    (hi : b.steps i j) :
    Halts b (.held index (.handle (.node n)) name i ⟨label, .pending, [], vs⟩)
      (.held index (.handle (.node m)) name j ⟨label, .pending, [], ws⟩)

theorem Value.Closed.isNode {v : Value} (h : v.Closed) (hn : v.isNode = true) : ∃ t, v = .node t := by
  cases v with
  | node t => exact ⟨t, rfl⟩
  | handle g => exact absurd h (Value.not_closed_handle g)
  | _ => cases hn

/-- An error that refers to nothing is passed on in the same way everywhere. -/
theorem World.passedError_closed {v : Value} (h : v.Closed) (w u : World) :
    w.passedError v = u.passedError v := by
  have hdisplay : w.display v = u.display v := by
    rw [display, display, reveal_whole h, reveal_whole h]
    exact (h _).trans (h _).symm
  have htext : w.textOf v = u.textOf v := by rw [textOf, textOf, hdisplay]
  unfold passedError
  split
  · rfl
  · rfl
  · rw [htext]

namespace Mirrors

variable {c : Couple} {p : Bool} {b : Bond} {host : Host}

theorem logFault (level : Level) (logger words : String) (f : Fault) :
    Mirrors c p p b Same (logFault level logger words f) (logFault level logger words f) := by
  refine bind (A := Same) (ofOutcome fun _ _ => .same _ _) fun _ said _ _ hsaid => ?_
  obtain rfl := hsaid
  exact log _ _ _

/-- Something that is passed on can be used in several places. -/
theorem share {v v' : Value} (h : b.Given v v') : Mirrors c p p b Bond.Alike (share v) (share v') := by
  intro d hd w u ht
  cases h with
  | tree hn => exact ⟨d, .refl c d w u, ht, .ok (.tree (hd.trees _ _ hn))⟩
  | closed hc =>
    have other (hn : v.isNode = false) (ha : d.Alike (w.handed v) (u.handed v)) :
        ∃ e, Passes c d w u e ((Action.share v).result w).2 ((Action.share v).result u).2 ∧
          ((Action.share v).result w).2.Twins ((Action.share v).result u).2 c p e ∧
          Outcomes (e.Alike) ((Action.share v).result w).1 ((Action.share v).result u).1 := by
      obtain ⟨shared, kept, hw⟩ := result_share v w
      obtain ⟨shared', kept', hu⟩ := result_share v u
      rw [result_share_handed] at hw hu
      rw [result_share_handed, result_share_handed, (Prod.mk.inj hw).2, (Prod.mk.inj hu).2]
      obtain ⟨hp, ht'⟩ := ht.withKept kept kept'
      exact ⟨d, hp, ht', .ok ha⟩
    cases v with
    | node t =>
      obtain ⟨hp, ht'⟩ := ht.keep hc
      exact ⟨_, hp, ht', .ok (.tree (.inr ⟨rfl, rfl⟩))⟩
    | handle g => exact absurd hc (Value.not_closed_handle g)
    | list items => exact other rfl (.list _ _)
    | sequence kind items =>
      cases kind with
      | tuple => exact other rfl (.tuple _ _)
      | other type => exact other rfl (.same rfl)
    | mapping kind entries =>
      cases kind with
      | dict => exact other rfl (.dict _ _)
      | other type => exact other rfl (.same rfl)
    | _ => exact other rfl (.same rfl)

/-- A completion of the chain is looked at. -/
theorem completion_bind {α β : Type} {q : Bool} {i j : Nat} (hi : b.steps i j)
    {B : Bond → α → β → Prop} {f : Completion Resolution Resumption Empty → Action α}
    {g : Completion Resolution Resumption Empty → Action β}
    (h : ∀ d s t, b.Within d → d.Completions s t → Mirrors c p q d B (f s) (g t)) :
    Mirrors c p q b B (Action.completion i >>= f) (Action.completion j >>= g) :=
  read fun d hd w v ht => by
    obtain ⟨s, t, hs, ht', hst⟩ := ht.steps i j (hd.steps i j hi)
    exact ⟨s, t, result_completion hs, result_completion ht', h d s t hd hst⟩

/-- A step is resolved for which nobody waits. -/
theorem resolve {i j : Nat} (hi : b.steps i j) {r s : Resolution} (hr : b.Results r s) :
    Mirrors c p p b Same (Pipeline.resolve host i r) (Pipeline.resolve host j s) := by
  refine completion_bind hi fun d _ _ hd hst => ?_
  cases hst with
  | done label vs ws h => exact throw _
  | pending label vs ws =>
    have hset : Mirrors c p p d Same (setCompletion i ⟨label, .done r, [], vs⟩)
        (setCompletion j ⟨label, .done s, [], ws⟩) := fun e he w v ht => by
      obtain ⟨hp, ht'⟩ := ht.setCompletion (he.steps i j (hd.steps i j hi))
        (.done label vs ws ((hr.mono hd).mono he))
      exact ⟨e, hp, ht', .ok rfl⟩
    have htell : Mirrors c p p d Same (Action.tell (.resolved i r)) (Action.tell (.resolved j s)) :=
      tell fun _ _ => .other (by cases hr <;> rfl) rfl rfl
    simp only [Completion.resolve, Action.ofOutcome, pure_bind]
    exact bind hset fun e _ _ he _ => bind (htell.within he) fun _ _ _ _ _ => pure fun _ _ => rfl

/-- A result is passed on of a step for which nobody waits. -/
theorem next {i j : Nat} (hi : b.steps i j) {error tree tree' : Value} (herror : error.Closed)
    (htree : b.Given tree tree') :
    Mirrors c p p b Same (Pipeline.next host i error tree) (Pipeline.next host j error tree') := by
  refine completion_bind hi fun d s t hd hst => get fun e he w v ht => ?_
  have hlabel : s.label = t.label := by cases hst <;> rfl
  rw [World.passedError_closed herror w v, hlabel]
  refine bind (A := Same) (ofOutcome fun _ _ => .same _ _) fun e' passed _ he' hpassed => ?_
  obtain rfl := hpassed
  have hall := (hd.trans he).trans he'
  refine bind (share (htree.mono hall)) fun d' _ _ hd' ha => ?_
  exact resolve ((hall.trans hd').steps i j hi) (ha.ofCall _ _)

/-! ### Steps -/

/-- An argument that refers to nothing that is shared. -/
theorem argument {a : Argument} (h : a.Closed) :
    Mirrors c p p b (fun _ v v' => v = v' ∧ v.Closed) (argument a) (argument a) :=
  get fun d _ w v _ => by
    rw [h.1 w.sight v.sight]
    refine ofOutcome fun _ _ => ?_
    cases ha : a v.sight with
    | ok x => exact .ok ⟨rfl, h.2 _ _ ha⟩
    | error f => exact .error f

section Tree

variable {α β : Type} {q : Bool} {n m : Nat} (hn : b.trees n m) {B : Bond → α → β → Prop}
include hn

/-- A tree of the chain is read as it is kept. -/
theorem content_bind {f : Value → Action α} {g : Value → Action β}
    (h : ∀ d (t : Node), b.Within d → (Value.node t).Closed →
      Mirrors c p q d B (f (.node t)) (g (.node t))) :
    Mirrors c p q b B (Action.content (.handle (.node n)) >>= f)
      (Action.content (.handle (.node m)) >>= g) :=
  read fun d hd w v ht => by
    obtain ⟨t, hc, hw, hv⟩ := ht.trees n m (hd.trees n m hn)
    have hcontent {u : World} {k : Nat} (hk : u.store.cells[k]? = some (.node t)) :
        (Action.content (.handle (.node k))).result u = (.ok (.node t), u) := by
      show (Except.ok ((u.store.cells[k]?).getD (.handle (.node k))), u) = _
      rw [hk]
      rfl
    exact ⟨.node t, .node t, hcontent hw, hcontent hv, h d t hd hc⟩

/-- A tree of the chain is seen in full. -/
theorem reveal_bind {f : Value → Action α} {g : Value → Action β}
    (h : ∀ d (t : Node), b.Within d → (Value.node t).Closed →
      Mirrors c p q d B (f (.node t)) (g (.node t))) :
    Mirrors c p q b B (Action.reveal (.handle (.node n)) >>= f)
      (Action.reveal (.handle (.node m)) >>= g) :=
  read fun d hd w v ht => by
    obtain ⟨t, hc, hw, hv⟩ := ht.trees n m (hd.trees n m hn)
    refine ⟨.node t, .node t, ?_, ?_, h d t hd hc⟩
    · rw [result_reveal, World.reveal_node hw hc]
    · rw [result_reveal, World.reveal_node hv hc]

/-- A tree of the chain is changed to another one. -/
theorem change {t : Node} (hc : (Value.node t).Closed) :
    Mirrors c p p b (fun _ _ _ => True) (withStore (Store.change (fun _ => .node t) (.handle (.node n))))
      (withStore (Store.change (fun _ => .node t) (.handle (.node m)))) := fun d hd w v ht => by
  obtain ⟨hp, ht'⟩ := ht.write (hd.trees n m hn) hc
  exact ⟨d, hp, ht', .ok trivial⟩

omit hn in
/-- Changing the literals of a tree that is kept, and refers to nothing else, changes only what is kept of
it. -/
theorem mapLiterals_kept {f : Node → Outcome Value} (hf : Tree.Closing f) (type : Option Value)
    {t : Node} (hc : (Value.node t).Closed) : ∃ t' count fault, (Value.node t').Closed ∧
      ∀ (s : Store) (k : Nat), s.cells[k]? = some (.node t) →
        (Store.mapLiterals f type (.handle (.node k))).run s =
          (⟨.handle (.node k), count, fault⟩, s.write (.node k) (.node t')) := by
  obtain ⟨⟨tree, count, fault⟩, hclosed, hnode, hall⟩ : ∃ m : Tree.Mapped, m.tree.Closed ∧
      m.tree.isNode = true ∧ ∀ shared : Handle → StateM Store Tree.Mapped,
        Tree.mapLiteralsWith shared f type (.node t) = Pure.pure m :=
    Tree.mapLiteralsWith_closed hf (.node t) hc
  obtain ⟨t', rfl⟩ := Value.Closed.isNode (v := tree) hclosed hnode
  refine ⟨t', count, fault, hclosed, fun s k hk => ?_⟩
  have hcontent : s.content? (.node k) = some (.node t) := hk
  show (Store.mapWithin f type (s.cells.length + 1) (.node k)).run s = _
  rw [Store.mapWithin]
  simp [hcontent, hall, StateT.run_bind]
  rfl

theorem mapLiterals {f : Node → Outcome Value} (hf : Tree.Closing f) (type : Option Value) :
    Mirrors c p p b (fun _ a a' => a.count = a'.count ∧ a.fault = a'.fault)
      (withStore (Store.mapLiterals f type (.handle (.node n))))
      (withStore (Store.mapLiterals f type (.handle (.node m)))) := fun d hd w v ht => by
  have hn' := hd.trees n m hn
  obtain ⟨t, hc, hw, hv⟩ := ht.trees n m hn'
  obtain ⟨t', count, fault, hclosed, hmap⟩ := mapLiterals_kept hf type hc
  obtain ⟨hp, ht'⟩ := ht.write hn' hclosed
  have hresult {u : World} {k : Nat} (hk : u.store.cells[k]? = some (.node t)) :
      (withStore (Store.mapLiterals f type (.handle (.node k)))).result u =
        (.ok ⟨.handle (.node k), count, fault⟩,
          { u with store := u.store.write (.node k) (.node t') }) := by
    show (Except.ok ((Store.mapLiterals f type (.handle (.node k))).run u.store).1,
      { u with store := ((Store.mapLiterals f type (.handle (.node k))).run u.store).2 }) = _
    rw [hmap u.store k hk]
  rw [hresult hw, hresult hv]
  exact ⟨d, hp, ht', .ok ⟨rfl, rfl⟩⟩

end Tree

/-- An outcome does not depend on where it is looked at. -/
theorem lift {α : Type} (o : Outcome α) : Mirrors c p p b (fun _ a a' => a = a' ∧ o = .ok a)
    (liftM o) (liftM o) := fun d _ w v ht => by
  rw [result_lift, result_lift]
  refine ⟨d, .refl c d w v, ht, ?_⟩
  cases o with
  | ok a => exact .ok ⟨rfl, rfl⟩
  | error f => exact .error f

/-- The file of the chain is looked at. -/
theorem file_bind {α β : Type} {q : Bool} {B : Bond → α → β → Prop} {f : File → Action α}
    {g : File → Action β}
    (h : ∀ d x, b.Within d → (∀ name, d.Stored (x.treeOf name) (x.treeOf name)) →
      Mirrors c true q d B (f x) (g x)) :
    Mirrors c true q b B (Action.file c.file >>= f) (Action.file c.file >>= g) :=
  read fun d hd w v ht => by
    have hsame : w.files.getD c.file File.empty = v.files.getD c.file File.empty := by
      rw [List.getD_eq_getElem?_getD, List.getD_eq_getElem?_getD, ht.file rfl]
    have hstored := ht.stored
    simp only [World.treeOf, hsame] at hstored
    exact ⟨_, _, rfl, rfl, by rw [hsame]; exact h d _ hd hstored⟩

theorem setFile {x : File} (hs : ∀ name, b.Stored (x.treeOf name) (x.treeOf name)) :
    Mirrors c true true b Same (Action.setFile c.file x) (Action.setFile c.file x) := fun d hd w v ht => by
  obtain ⟨hp, ht'⟩ := ht.setFile (q := true) (fun _ => rfl) fun name => Bond.Stored.mono hd (hs name)
  exact ⟨d, hp, ht', .ok rfl⟩

section Scene

variable {n m i j : Nat} (hn : b.trees n m) (hi : b.steps i j) (hasNext : Bool)

include hi in
theorem scene_next {error tree : Argument} (he : error.Closed) (ht : tree.Closed) :
    Mirrors c p p b Same (Scene.next host ⟨.handle (.node n), c.file, i, hasNext⟩ error tree)
      (Scene.next host ⟨.handle (.node m), c.file, j, hasNext⟩ error tree) := by
  refine bind (argument he) fun d e _ hd herror => ?_
  obtain ⟨rfl, herror⟩ := herror
  refine bind (argument ht) fun d' t _ hd' htree => ?_
  obtain ⟨rfl, htree⟩ := htree
  refine bind (require _ _) fun d'' _ _ hd'' _ => ?_
  exact next (((hd.trans hd').trans hd'').steps i j hi) herror (.closed htree)

theorem passing (guarded : Bool) {x y : Action Unit} (h : Mirrors c p p b Same x y) :
    Mirrors c p p b Same (passing guarded x) (passing guarded y) := by
  cases guarded with
  | false => exact h
  | true =>
    refine bind h.attempt fun d o _ hd ho => ?_
    cases ho with
    | ok _ => exact tell_same rfl
    | error f => exact ite (tell_same rfl) (throw f)

include hi in
theorem saveNext (id : String) :
    Mirrors c p p b Same (Scene.saveNext ⟨.handle (.node n), c.file, i, hasNext⟩ id)
      (Scene.saveNext ⟨.handle (.node m), c.file, j, hasNext⟩ id) := by
  have keep (d : Bond) (way way' : Option Nat) : Mirrors c p p d Same
      (MonadState.modifyGet fun w : World => (⟨⟩, { w with nexts := (id, way) :: w.nexts }) : Action PUnit)
      (MonadState.modifyGet fun w : World => (⟨⟩, { w with nexts := (id, way') :: w.nexts })) :=
    still fun e _ w v _ =>
      ⟨[], [], ⟨rfl, rfl, rfl, rfl, rfl, rfl, rfl, rfl, (List.append_nil _).symm⟩,
        ⟨rfl, rfl, rfl, rfl, rfl, rfl, rfl, rfl, (List.append_nil _).symm⟩, .nil, .ok rfl⟩
  cases hasNext with
  | false => exact keep b none none
  | true =>
    rw [Scene.saveNext, Scene.saveNext, Scene.way, Scene.way, if_pos rfl, if_pos rfl, bind_assoc, bind_assoc]
    exact completion_bind hi fun d _ _ _ _ => keep d _ _

include hn hi in
/-- Steps that touch nothing but their own tree and file do the same with them. -/
theorem perform (waits : Bool) (acts : List Act) (h : ∀ a ∈ acts, a.Own) :
    Mirrors c true true b Bond.Performed
      (perform host ⟨.handle (.node n), c.file, i, hasNext⟩ waits acts)
      (perform host ⟨.handle (.node m), c.file, j, hasNext⟩ waits acts) := by
  -- the steps are taken one after another, with the bond that the ones before have left
  induction acts generalizing b with
  | nil => exact pure fun _ _ => .value (.same rfl)
  | cons a rest ih =>
    obtain ⟨ha, hrest⟩ := List.forall_mem_cons.mp h
    have go {d : Bond} (hd : b.Within d) := ih (hd.trees n m hn) (hd.steps i j hi) hrest
    cases a with
    | change f =>
      refine get fun d₀ hd₀ w v _ => ?_
      rw [ha.blind w.sight v.sight]
      refine content_bind (hd₀.trees n m hn) fun d₁ t hd₁ ht => file_bind fun d₂ x hd₂ hx => ?_
      obtain ⟨t', htree, hclosed⟩ := ha.tree v.sight t x ht
      have hd := (hd₀.trans hd₁).trans hd₂
      dsimp only
      rw [htree]
      refine bind (change (hd.trees n m hn) hclosed) fun d₃ _ _ hd₃ _ => ?_
      have hstored (name : String) : d₃.Stored ((f v.sight (.node t) x).file.treeOf name)
          ((f v.sight (.node t) x).file.treeOf name) := by
        cases hv : (f v.sight (.node t) x).file.treeOf name with
        | none => exact .none
        | some u =>
          rcases ha.stored v.sight t x name u ht hv with hu | hu
          · exact .some (.closed hu)
          · exact hu ▸ Bond.Stored.mono hd₃ (hx name)
      refine bind (setFile hstored) fun d₄ _ _ hd₄ _ => ?_
      refine bind (forM (fun _ => tell_same rfl) _) fun d₅ _ _ hd₅ _ => ?_
      refine bind (raise _) fun d₆ _ _ hd₆ _ => ?_
      exact go ((((hd.trans hd₃).trans hd₄).trans hd₅).trans hd₆)
    | mapLiterals type f records =>
      refine bind (mapLiterals hn ha type) fun d₁ x x' hd₁ hx => ?_
      rw [hx.1, hx.2]
      refine bind (raise _) fun d₂ _ _ hd₂ _ => ?_
      refine bind (forM (fun _ => tell_same rfl) _) fun d₃ _ _ hd₃ _ => ?_
      exact go ((hd₁.trans hd₂).trans hd₃)
    | observe label f =>
      refine reveal_bind hn fun d₁ t hd₁ ht => file_bind fun d₂ x hd₂ _ => ?_
      refine bind (A := Same) (ofOutcome fun _ _ => .same _ _) fun d₃ text _ hd₃ htext => ?_
      obtain rfl := htext
      exact bind (tell_same rfl) fun d₄ _ _ hd₄ _ => go (((hd₁.trans hd₂).trans hd₃).trans hd₄)
    | log record => exact bind (tell_same rfl) fun d _ _ hd _ => go hd
    | next guarded error tree =>
      exact bind (passing guarded (scene_next hi hasNext ha.1 ha.2)) fun d _ _ hd _ => go hd
    | saveNext id => exact bind (saveNext hi hasNext id) fun d _ _ hd _ => go hd
    | callNext guarded id error tree => exact ha.elim
    | laterNext threaded error tree =>
      refine bind (argument ha.1) fun d₁ e e' hd₁ _ => bind (argument ha.2) fun d₂ t t' hd₂ _ =>
        get fun d₃ hd₃ w v ht => ?_
      have hrunning : w.runningLoop = v.runningLoop := by
        rw [World.runningLoop, World.runningLoop, ht.threaded, ht.openLoop]
      rw [hrunning]
      refine bind (require _ _) fun d₄ _ _ hd₄ _ => ?_
      have hlater : Mirrors c true true d₄ Same
          (Scene.nextLater ⟨.handle (.node n), c.file, i, hasNext⟩ threaded e t)
          (Scene.nextLater ⟨.handle (.node m), c.file, j, hasNext⟩ threaded e' t') :=
        ite (enqueue _ _) (pure fun _ _ => rfl)
      exact bind hlater fun d₅ _ _ hd₅ _ => go ((((hd₁.trans hd₂).trans hd₃).trans hd₄).trans hd₅)
    | use name plugin options => exact ha.elim
    | process name value => exact ha.elim
    | sleep =>
      cases waits with
      | true => exact pure fun _ _ => .rest rest
      | false => exact go (.refl b)
    | raise f => exact throw f
    | give v =>
      refine bind (argument ha) fun d₁ x _ hd₁ hx => ?_
      obtain ⟨rfl, hx⟩ := hx
      exact bind (share (.closed hx)) fun d₂ _ _ hd₂ hs => pure fun d hd => .value (hs.mono hd)
    | giveReport reason =>
      refine file_bind fun d₁ x hd₁ hx => ?_
      have hreason : Mirrors c true true d₁ Same (Action.argument reason) (Action.argument reason) :=
        get fun _ _ w v _ => by
          rw [ha w.sight v.sight]
          exact ofOutcome fun _ _ => .same _ _
      refine bind hreason fun d₂ r _ hd₂ hr => ?_
      obtain rfl := hr
      refine bind (lift _) fun d₃ reported _ hd₃ hreport => ?_
      obtain ⟨rfl, hreport⟩ := hreport
      obtain ⟨y, report⟩ := reported
      have hy (name : String) : d₃.Stored (y.treeOf name) (y.treeOf name) := by
        rw [File.report_treeOf hreport]
        exact Bond.Stored.mono (hd₂.trans hd₃) (hx name)
      exact bind (setFile hy) fun _ _ _ _ _ => pure fun _ _ => .value (.same rfl)
    | giveAwaitable => exact pure fun _ _ => .value (.same rfl)

variable {t : Transformer} (ht : t.Own)

include hn hi ht

theorem performAll :
    Mirrors c true true b Bond.Alike (performAll host ⟨.handle (.node n), c.file, i, hasNext⟩ t)
      (performAll host ⟨.handle (.node m), c.file, j, hasNext⟩ t) := by
  refine reveal_bind hn fun d₁ tree hd₁ hc => file_bind fun d₂ x hd₂ _ => ?_
  have hd := hd₁.trans hd₂
  refine bind (perform (hd.trees n m hn) (hd.steps i j hi) hasNext false _ (ht tree x hc))
    fun d₃ r r' _ hr => ?_
  cases hr with
  | value h => exact pure fun _ hd => h.mono hd
  | rest acts => exact pure fun _ _ => .same rfl

/-- Such a transformer answers a call in the same way. -/
theorem call :
    Mirrors c true true b Bond.Answers (call host ⟨.handle (.node n), c.file, i, hasNext⟩ t)
      (call host ⟨.handle (.node m), c.file, j, hasNext⟩ t) := by
  have hall : Mirrors c true true b Bond.Alike
      (Pipeline.performAll host ⟨.handle (.node n), c.file, i, hasNext⟩ t)
      (Pipeline.performAll host ⟨.handle (.node m), c.file, j, hasNext⟩ t) := performAll hn hi hasNext ht
  have htell : Mirrors c true true b Same (tellArguments t) (tellArguments t) :=
    ite (tell_same rfl) (pure fun _ _ => rfl)
  unfold Pipeline.call
  split
  · exact pure fun _ _ => .value (.same rfl)
  · exact pure fun _ _ => .later _ _
  · exact pure fun _ _ => .later _ _
  · refine bind hall.attempt fun d o o' _ ho => ?_
    cases ho with
    | ok h => exact pure fun _ _ => .settled _ _
    | error f => exact ite (pure fun _ _ => .settled _ _) (throw f)
  · refine bind htell fun d₁ _ _ hd₁ _ => bind (hall.within hd₁) fun d₂ v v' hd₂ hv => ?_
    cases hv with
    | same hv =>
      split
      · exact pure fun _ _ => .later _ _
      · exact pure fun _ _ => .value (.same hv)
    | tree h => exact pure fun _ hd => .value (.tree (hd.trees _ _ h))
    | list n m => exact pure fun _ _ => .value (.list n m)
    | dict n m => exact pure fun _ _ => .value (.dict n m)
    | tuple vs ws => exact pure fun _ _ => .value (.tuple vs ws)

omit hn ht in
theorem schedule (name : String) (job job' : Job) :
    Mirrors c p p b Same (schedule host i name job) (schedule host j name job') :=
  get fun d hd w v hwv => by
    have hrunning : w.runningLoop = v.runningLoop := by
      rw [World.runningLoop, World.runningLoop, hwv.threaded, hwv.openLoop]
    rw [hrunning]
    exact ite (resolve (hd.steps i j hi) (.plain _)) (enqueue _ _)

omit hn ht in
/-- The same answer means the same for its step. -/
theorem conclude (t : Transformer) {o o' : Outcome Answer} (h : Outcomes b.Answers o o') :
    Mirrors c p p b Same (conclude host i t o) (conclude host j t o') := by
  cases h with
  | error f =>
    refine completion_bind hi fun d s u hd hsu => ?_
    have hdone : s.isDone = u.isDone ∧ s.isAbandoned = u.isAbandoned := by cases hsu <;> exact ⟨rfl, rfl⟩
    rw [hdone.1, hdone.2]
    exact bind (require _ _) fun d₂ _ _ hd₂ _ => resolve ((hd.trans hd₂).steps i j hi) (.plain _)
  | ok h =>
    unfold Pipeline.conclude
    dsimp only
    refine ite (pure fun _ _ => rfl) ?_
    cases h with
    | value h => exact resolve hi (h.ofReturn _)
    | later t u => exact schedule hi _ _ _
    | settled s s' => exact schedule hi _ _ _

end Scene

section Chain

variable {n m : Nat} (hn : b.trees n m) {x y : Run}

theorem run_bind {α β : Type} {q : Bool} {B : Bond → α → β → Prop} {f : Run → Action α}
    {g : Run → Action β} (h : ∀ d x y, b.Within d → c.Records x y → Mirrors c p q d B (f x) (g y)) :
    Mirrors c p q b B (Action.run c.left >>= f) (Action.run c.right >>= g) :=
  read fun d hd w v ht => by
    obtain ⟨x, y, hx, hy, hr⟩ := ht.runs
    exact ⟨x, y, result_run hx, result_run hy, h d x y hd hr⟩

variable (hr : c.Records x y) {t : Transformer} (ht : t.Own)
include hn hr ht

theorem apply (index : Nat) {i j : Nat} (hi : b.steps i j) :
    Mirrors c true true b Same (apply host x index t (.handle (.node n)) i)
      (apply host y index t (.handle (.node m)) j) := by
  unfold Pipeline.apply
  rw [hr.steps_left, hr.steps_right, hr.file_left, hr.file_right]
  refine bind (log _ _ _) fun d₁ _ _ hd₁ _ => ?_
  refine bind (call (hd₁.trees n m hn) (hd₁.steps i j hi) _ ht).attempt fun d₂ o o' hd₂ ho => ?_
  exact conclude ((hd₁.trans hd₂).steps i j hi) t ho

/-- A step is called, and sees the same. -/
theorem invoke (index : Nat) :
    Mirrors c true true b Bond.steps (invoke host c.left x index t (.handle (.node n)))
      (invoke host c.right y index t (.handle (.node m))) := by
  refine get fun d hd w v hwv => ?_
  obtain ⟨tree, hc, hw, hv⟩ := hwv.trees n m (hd.trees n m hn)
  have hseen : w.view (.handle (.node n)) x.file = v.view (.handle (.node m)) y.file := by
    rw [World.view, World.view, World.reveal_node hw hc, World.reveal_node hv hc, hr.file_left, hr.file_right,
      List.getD_eq_getElem?_getD, List.getD_eq_getElem?_getD, hwv.file rfl]
  rw [hseen]
  have hadd : Mirrors c true true d Bond.steps (addCompletion t.name) (addCompletion t.name) :=
    fun d₁ _ w v ht => by
      obtain ⟨hp, ht'⟩ := ht.addCompletion t.name
      exact ⟨_, hp, ht', .ok (.inr ⟨rfl, rfl⟩)⟩
  refine bind hadd fun d₁ i j hd₁ hi => ?_
  refine bind (tell fun d₂ hd₂ =>
    .called index t _ ((hd.trans hd₁).trans hd₂ |>.trees n m hn) (hd₂.steps i j hi)) fun d₂ _ _ hd₂ _ => ?_
  have hd' := (hd.trans hd₁).trans hd₂
  refine bind (apply (hd'.trees n m hn) hr ht index (hd₂.steps i j hi)) fun d₃ _ _ hd₃ _ => ?_
  exact pure fun d₄ hd₄ => hd₄.steps i j (hd₃.steps i j (hd₂.steps i j hi))

omit hn ht in
theorem tellStep (index : Nat) (name : String) :
    Mirrors c p p b Same (tellStep x index name) (tellStep y index name) := by
  rw [Pipeline.tellStep, Pipeline.tellStep, hr.watcher, hr.steps_left, hr.steps_right]
  exact emit _ _

end Chain

/-- A chain of such transformers comes as far at once. -/
theorem stretch {rest : List Transformer} (hrest : ∀ t ∈ rest, t.Own) {n m : Nat} (hn : b.trees n m)
    (index : Nat) :
    Mirrors c true true b Bond.Halts (stretch host c.left rest index (.handle (.node n)))
      (stretch host c.right rest index (.handle (.node m))) := by
  -- the steps that are left, each on the tree that the one before it has come to
  induction rest generalizing b n m index with
  | nil => exact bind (log _ _ _) fun d _ _ hd _ => pure fun e he => .ended none (he.trees n m (hd.trees n m hn))
  | cons t rest ih =>
    obtain ⟨ht, hrest⟩ := List.forall_mem_cons.mp hrest
    refine run_bind fun d₁ x y hd₁ hr => ?_
    refine bind (invoke (hd₁.trees n m hn) hr ht index) fun d₂ i j hd₂ hi => ?_
    refine completion_bind hi fun d₃ s u hd₃ hsu => ?_
    have hd := (hd₁.trans hd₂).trans hd₃
    cases hsu with
    | pending label vs ws =>
      exact pure fun d₄ hd₄ => .held index t.name label vs ws (hd₄.trees n m (hd.trees n m hn))
        (hd₄.steps i j (hd₃.steps i j hi))
    | done label vs ws hresult =>
      cases hresult with
      | plain error =>
        cases error with
        | some f =>
          exact bind (logFault _ _ _ _) fun d₄ _ _ hd₄ _ => pure fun d₅ hd₅ =>
            .ended (some f) ((hd₄.trans hd₅).trees n m (hd.trees n m hn))
        | none =>
          exact bind (tellStep hr index t.name) fun d₄ _ _ hd₄ _ =>
            ih hrest (hd₄.trees n m (hd.trees n m hn)) (index + 1)
      | tree hn' =>
        exact bind (tellStep hr index t.name) fun d₄ _ _ hd₄ _ => ih hrest (hd₄.trees _ _ hn') (index + 1)

end Mirrors

end TextPipeline.Pipeline
