import TextPipeline.Proofs.Reach
import TextPipeline.Proofs.Storing

/-! An account of the trees that are stored. A tree is stored when a file was read into it or when a run
on the file came to it, and this is told; so what is stored for a name can be told from what has happened,
if the transformers do not change it themselves. Every action keeps to that. -/

namespace TextPipeline.Pipeline

open TextPipeline.Transform
open TextPipeline.Pipeline.Action

/-! ### Transformers that leave stored trees in place -/

/-- A step that leaves the trees in place that are stored in the file. -/
def Act.Docile : Act → Prop
  | .change f => ∀ sight tree (file : File) name, (f sight tree file).file.treeOf name = file.treeOf name
  | _ => True

/-- Steps that are made from what is seen leave stored trees in place. -/
def Yielding (program : Value → File → List Act) : Prop := ∀ tree file, ∀ a ∈ program tree file, a.Docile

def Transformer.Docile (t : Transformer) : Prop := Yielding t.program

def Task.Docile (t : Task) : Prop :=
  match t.rest with
  | .inl program => Yielding program
  | .inr acts => ∀ a ∈ acts, a.Docile

def Job.Docile : Job → Prop
  | .advance t => t.Docile
  | _ => True

/-- If a step was called, it leaves stored trees in place. -/
def Event.Docile : Event → Prop
  | .called _ a => a.step.Docile
  | _ => True

/-- What is still to be done of steps that were called leaves stored trees in place. -/
def World.Docile (w : World) : Prop := ∀ j ∈ w.jobs, j.Docile

/-! ### What can be told from what has happened -/

/-- The tree that an event tells of for a file and processors of a name. -/
def Event.production? (file : Nat) (name : String) : Event → Option Value
  | .produced n f tree => if f = file ∧ n = name then some tree else none
  | _ => none

/-- The last tree that was come to for a file and processors of a name, if there was one. -/
def latest (file : Nat) (name : String) (es : List Event) : Option Value :=
  (es.filterMap (Event.production? file name)).getLast?

theorem latest_append (file : Nat) (name : String) (es fs : List Event) :
    latest file name (es ++ fs) = (latest file name fs).or (latest file name es) := by
  rw [latest, List.filterMap_append, List.getLast?_append, latest, latest]

theorem latest_eq_none {file : Nat} {name : String} {es : List Event}
    (h : ∀ e ∈ es, e.production? file name = none) : latest file name es = none := by
  rw [latest, List.filterMap_eq_nil_iff.mpr h]
  rfl

theorem production?_of_ofTrees {e : Event} (h : e.ofTrees = false) (file : Nat) (name : String) :
    e.production? file name = none := by
  cases e <;> first | rfl | cases h

/-- A tree that was come to is one, or a chain ended with it. -/
def Event.Grounded (es : List Event) : Event → Prop
  | .produced _ _ tree => tree.isNode = true ∨ ∃ r, (none, tree) ∈ deliveries r es
  | _ => True

theorem Event.Grounded.mono {e : Event} {es : List Event} (h : e.Grounded es) (fs : List Event) :
    e.Grounded (es ++ fs) := by
  cases e with
  | produced name file tree =>
    refine h.imp_right fun ⟨r, hr⟩ => ⟨r, ?_⟩
    rw [deliveries_append]
    exact List.mem_append_left _ hr
  | _ => trivial

namespace World

/-- What is kept as the result of a run was delivered. -/
def Kept (w : World) : Prop :=
  ∀ (r : Nat) (x : Run) o, w.runs[r]? = some x → x.outcome = some o → o ∈ deliveries r w.events

theorem Kept.told {w : World} (hw : w.Kept) (e : Event) : (w.told e).Kept := fun r x o hx ho => by
  rw [events_told, deliveries_append]
  exact List.mem_append_left _ (hw r x o hx ho)

/-- All runs are still there, on the files that they were started on. -/
def Lasts (w v : World) : Prop :=
  ∀ (r : Nat) (x : Run), w.runs[r]? = some x → ∃ y : Run, v.runs[r]? = some y ∧ y.file = x.file

theorem Lasts.trans {u v w : World} (h : u.Lasts v) (h' : v.Lasts w) : u.Lasts w := fun r x hx => by
  obtain ⟨y, hy, hyx⟩ := h r x hx
  obtain ⟨z, hz, hzy⟩ := h' r y hy
  exact ⟨z, hz, hzy.trans hyx⟩

theorem Lasts.of_eq {w v : World} (h : v.runs = w.runs) : w.Lasts v := fun r x hx =>
  ⟨x, by rw [h]; exact hx, rfl⟩

/-- What is stored can be told from what has happened since an earlier world; and so it could when a
step was called, by the file that the step saw. -/
structure Held (w v : World) (es : List Event) : Prop where
  stored : ∀ file < w.files.length, ∀ name, v.treeOf file name = (latest file name es).or (w.treeOf file name)
  seen : ∀ pre r a post, es = pre ++ .called r a :: post → ∃ x : Run, v.runs[r]? = some x ∧
    (x.file < w.files.length →
      ∀ name, a.seen.file.treeOf name = (latest x.file name pre).or (w.treeOf x.file name))

/-- An account of what has happened since an earlier world, provided that what is about to be done leaves
stored trees in place. -/
structure Account (P : Prop) (w v : World) (es : List Event) : Prop where
  events : v.events = w.events ++ es
  files : w.files.length ≤ v.files.length
  runs : w.Lasts v
  kept : w.Kept → v.Kept ∧ ∀ e ∈ es, e.Grounded v.events
  held : P → w.Docile → (∀ e ∈ es, e.Docile) → v.Docile ∧ w.Held v es

/-- There is an account of what has happened since an earlier world. -/
def Accounts (P : Prop) (w v : World) : Prop := ∃ es, w.Account P v es

theorem Held.trans {u v w : World} {es fs : List Event} (h : u.Held v es) (h' : v.Held w fs)
    (hfiles : u.files.length ≤ v.files.length)
    (hruns : v.Lasts w) :
    u.Held w (es ++ fs) where
  stored file hlt name := by
    rw [h'.stored file (Nat.lt_of_lt_of_le hlt hfiles), h.stored file hlt, latest_append, Option.or_assoc]
  seen pre r a post he := by
    rcases List.append_eq_append_iff.mp he with ⟨mid, hpre, hfs⟩ | ⟨mid, hes, hpost⟩
    · obtain ⟨x, hx, hseen⟩ := h'.seen mid r a post hfs
      refine ⟨x, hx, fun hlt name => ?_⟩
      rw [hseen (Nat.lt_of_lt_of_le hlt hfiles), h.stored x.file hlt, hpre, latest_append, Option.or_assoc]
    · cases mid with
      | nil =>
        obtain ⟨x, hx, hseen⟩ := h'.seen [] r a post hpost.symm
        refine ⟨x, hx, fun hlt name => ?_⟩
        rw [List.append_nil] at hes
        rw [hseen (Nat.lt_of_lt_of_le hlt hfiles), h.stored x.file hlt, hes]
        rfl
      | cons e mid =>
        obtain ⟨rfl, -⟩ := List.cons.inj hpost
        obtain ⟨x, hx, hseen⟩ := h.seen pre r a mid hes
        obtain ⟨y, hy, hfile⟩ := hruns r x hx
        exact ⟨y, hy, hfile ▸ hseen⟩

namespace Account

variable {P Q : Prop} {u v w : World} {es fs : List Event}

/-- What has happened first may show that the rest leaves stored trees in place. -/
theorem trans_of (h : u.Account P v es) (h' : v.Account Q w fs)
    (hQ : P → u.Docile → (∀ e ∈ es, e.Docile) → Q) : u.Account P w (es ++ fs) where
  events := by rw [h'.events, h.events, List.append_assoc]
  files := Nat.le_trans h.files h'.files
  runs := h.runs.trans h'.runs
  kept hu := by
    obtain ⟨hv, hes⟩ := h.kept hu
    obtain ⟨hw, hfs⟩ := h'.kept hv
    refine ⟨hw, fun e he => (List.mem_append.mp he).elim (fun he => ?_) (hfs e)⟩
    rw [h'.events]
    exact (hes e he).mono fs
  held hP hu hdocile := by
    have hes : ∀ e ∈ es, e.Docile := fun e he => hdocile e (List.mem_append_left _ he)
    obtain ⟨hv, hheld⟩ := h.held hP hu hes
    obtain ⟨hw, hheld'⟩ := h'.held (hQ hP hu hes) hv fun e he => hdocile e (List.mem_append_right _ he)
    exact ⟨hw, hheld.trans hheld' h.files h'.runs⟩

/-- Nothing has happened to stored trees. -/
theorem quiet (he : v.events = w.events ++ es) (hes : ∀ e ∈ es, e.ofTrees = false)
    (hfiles : w.files.length ≤ v.files.length)
    (htrees : P → ∀ file < w.files.length, ∀ name, v.treeOf file name = w.treeOf file name)
    (hruns : w.Lasts v)
    (houtcomes : ∀ (r : Nat) (y : Run) o, v.runs[r]? = some y → y.outcome = some o →
      ∃ x : Run, w.runs[r]? = some x ∧ x.outcome = some o)
    (hjobs : P → ∀ j ∈ v.jobs, j ∈ w.jobs ∨ j.Docile) : w.Account P v es where
  events := he
  files := hfiles
  runs := hruns
  kept hw := by
    refine ⟨fun r y o hy ho => ?_, fun e hmem => ?_⟩
    · obtain ⟨x, hx, hxo⟩ := houtcomes r y o hy ho
      rw [he, deliveries_append]
      exact List.mem_append_left _ (hw r x o hx hxo)
    · have := hes e hmem
      cases e <;> trivial
  held hP hw _ := by
    refine ⟨fun j hj => (hjobs hP j hj).elim (hw j) id, fun file hlt name => ?_, ?_⟩
    · rw [latest_eq_none fun e hmem => production?_of_ofTrees (hes e hmem) file name, htrees hP file hlt]
      rfl
    · rintro pre r a post rfl
      cases hes (.called r a) (by simp)

theorem of_retains (h : w.Retains v) (hr : v.runs = w.runs) (hj : ∀ j ∈ v.jobs, j ∈ w.jobs ∨ j.Docile) :
    ∃ es, w.Account P v es ∧ ∀ e ∈ es, e.ofTrees = false := by
  obtain ⟨es, he, hes⟩ := h.events
  exact ⟨es, quiet he hes h.files (fun _ => h.trees) (.of_eq hr)
    (fun r y o hy ho => ⟨y, hr ▸ hy, ho⟩) (fun _ => hj), hes⟩

end Account

namespace Accounts

variable {P Q : Prop} {u v w : World}

theorem trans_of (h : u.Accounts P v) (h' : v.Accounts Q w) (hQ : P → u.Docile → Q) :
    u.Accounts P w := by
  obtain ⟨es, h⟩ := h
  obtain ⟨fs, h'⟩ := h'
  exact ⟨es ++ fs, h.trans_of h' fun hP hu _ => hQ hP hu⟩

theorem of_retains (h : w.Retains v) (hr : v.runs = w.runs)
    (hj : ∀ j ∈ v.jobs, j ∈ w.jobs ∨ j.Docile) : w.Accounts P v := by
  obtain ⟨es, h, -⟩ := Account.of_retains (P := P) h hr hj
  exact ⟨es, h⟩

instance : Temporal (Accounts P) where
  refl w := of_retains (Temporal.refl w) rfl fun _ hj => .inl hj
  trans h h' := h.trans_of h' fun hP _ => hP

/-- Nothing has changed but what has nothing to do with stored trees. -/
theorem of_eq (he : v.events = w.events) (hf : v.files = w.files) (hr : v.runs = w.runs)
    (hj : ∀ j ∈ v.jobs, j ∈ w.jobs) : w.Accounts P v :=
  of_retains ⟨hf ▸ Nat.le_refl _, fun _ _ _ => by rw [treeOf, treeOf, hf],
    [], by rw [he, List.append_nil], by simp⟩ hr fun j h => .inl (hj j h)

theorem told {e : Event} (he : e.ofTrees = false) : w.Accounts P (w.told e) :=
  of_retains ⟨Nat.le_refl _, fun _ _ _ => rfl, [e], rfl, by simpa using he⟩ rfl fun _ hj => .inl hj

/-- Work is put on the loop that leaves stored trees in place. -/
theorem queued {j : Job} (hj : P → j.Docile) : w.Accounts P { w with jobs := w.jobs ++ [j] } :=
  ⟨[], .quiet (List.append_nil _).symm (by simp) (Nat.le_refl _) (fun _ _ _ _ => rfl) (.of_eq rfl)
    (fun _ y _ hy ho => ⟨y, hy, ho⟩) fun hP i hi => (List.mem_append.mp hi).imp id fun h => by
      rw [List.mem_singleton.mp h]
      exact hj hP⟩

/-- A file is changed in which all trees stay in place. -/
theorem placed {file : Nat} {f : File} (hf : P → ∀ name, f.treeOf name = w.treeOf file name) :
    w.Accounts P { w with files := w.files.set file f } :=
  ⟨[], .quiet (List.append_nil _).symm (by simp) (Nat.le_of_eq (List.length_set).symm)
    (fun hP => (Retains.setFile_at (hf hP)).trees) (.of_eq rfl) (fun _ y _ hy ho => ⟨y, hy, ho⟩)
    fun _ _ hj => .inl hj⟩

/-- Something was noted for a run. -/
theorem noted {r : Nat} {f : Run → Run} (hf : ∀ x, (f x).file = x.file)
    (ho : ∀ x, (f x).outcome = x.outcome) : w.Accounts P { w with runs := w.runs.modify r f } := by
  have hget (n : Nat) : (w.runs.modify r f)[n]? = (w.runs[n]?).map (if r = n then f else id) := by
    rw [List.getElem?_modify]
    split <;> cases w.runs[n]? <;> rfl
  refine ⟨[], .quiet (List.append_nil _).symm (by simp) (Nat.le_refl _) (fun _ _ _ _ => rfl)
    (fun n x hx => ⟨(if r = n then f else id) x, ?_, ?_⟩) (fun n y o hy hyo => ?_) fun _ _ hj => .inl hj⟩
  · rw [hget, hx]
    rfl
  · split
    · exact hf x
    · rfl
  · rw [hget] at hy
    obtain ⟨x, hx, rfl⟩ := Option.map_eq_some_iff.mp hy
    refine ⟨x, hx, ?_⟩
    split at hyo
    · rw [← ho]
      exact hyo
    · exact hyo

/-- A chain that must not wait has come to its end. -/
theorem ended (r : Nat) (error : Option Fault) (tree : Value) : w.Accounts P (w.ended r error tree) := by
  have hget (n : Nat) : (w.ended r error tree).runs[n]? =
      (w.runs[n]?).map (if r = n then Run.keep error tree else id) := by
    rw [runs_ended, List.getElem?_modify]
    split <;> cases w.runs[n]? <;> rfl
  have hdeliveries (n : Nat) : deliveries n (w.ended r error tree).events =
      deliveries n w.events ++ if r = n then [(error, tree)] else [] := by
    rw [events_ended, deliveries_append]
    split <;> simp_all
  refine ⟨[.delivered r error tree], rfl, Nat.le_refl _, fun n x hx => ?_, fun hw => ⟨?_, ?_⟩,
    fun _ hw _ => ⟨hw, fun _ _ _ => rfl, ?_⟩⟩
  · refine ⟨(if r = n then Run.keep error tree else id) x, by rw [hget, hx]; rfl, ?_⟩
    split <;> rfl
  · intro n y o hy ho
    rw [hget] at hy
    obtain ⟨x, hx, rfl⟩ := Option.map_eq_some_iff.mp hy
    rw [hdeliveries]
    split at ho
    · rw [if_pos ‹r = n›]
      cases hout : x.outcome with
      | none =>
        rw [Run.keep, hout] at ho
        exact List.mem_append_right _ (Option.some.inj ho ▸ List.mem_singleton_self _)
      | some o' =>
        rw [Run.keep, hout] at ho
        exact List.mem_append_left _ (hw n x o hx (hout.trans ho))
    · exact List.mem_append_left _ (hw n x o hx ho)
  · intro e he
    rw [List.mem_singleton.mp he]
    trivial
  · intro pre n a post he
    have hmem : Event.called n a ∈ [Event.delivered r error tree] := by
      rw [he]
      simp
    cases List.mem_singleton.mp hmem

/-- A chain is started. -/
theorem started (x : Run) (hx : x.outcome = none) : w.Accounts P { w with runs := w.runs ++ [x] } := by
  refine ⟨[], .quiet (List.append_nil _).symm (by simp) (Nat.le_refl _) (fun _ _ _ _ => rfl)
    (fun r y hy => ⟨y, ?_, rfl⟩) (fun r y o hy ho => ?_) fun _ _ hj => .inl hj⟩
  · rw [List.getElem?_append_left (List.getElem?_eq_some_iff.mp hy).1]
    exact hy
  · dsimp only at hy
    by_cases hlt : r < w.runs.length
    · rw [List.getElem?_append_left hlt] at hy
      exact ⟨y, hy, ho⟩
    · rw [List.getElem?_append_right (Nat.le_of_not_lt hlt)] at hy
      obtain rfl : y = x := List.mem_singleton.mp (List.mem_of_getElem? hy)
      rw [hx] at ho
      cases ho

/-- A tree is stored, and this is told. -/
theorem stored {file : Nat} {name : String} {tree : Value} {g : File}
    (hg : (w.files.getD file File.empty).store (.str name) treeKey tree = .ok g)
    (hground : w.Kept → tree.isNode = true ∨ ∃ r, (none, tree) ∈ deliveries r w.events) :
    w.Account P (World.told { w with files := w.files.set file g } (.produced name file tree))
      [.produced name file tree] where
  events := rfl
  files := Nat.le_of_eq (List.length_set).symm
  runs := .of_eq rfl
  kept hw := by
    refine ⟨Kept.told (w := { w with files := w.files.set file g }) hw _, fun e he => ?_⟩
    rw [List.mem_singleton.mp he]
    refine (hground hw).imp_right fun ⟨r, hr⟩ => ⟨r, ?_⟩
    rw [events_told, deliveries_append]
    exact List.mem_append_left _ hr
  held _ hw _ := by
    refine ⟨hw, fun other hlt n => ?_, fun pre r a post he => ?_⟩
    · show ((w.files.set file g).getD other File.empty).treeOf n = _
      have hlatest : latest other n [.produced name file tree] =
          if file = other ∧ name = n then some tree else none := by
        unfold latest
        by_cases h : file = other ∧ name = n <;> simp [Event.production?, h]
      rw [hlatest, List.getD_eq_getElem?_getD, List.getElem?_set]
      by_cases hfile : file = other
      · subst hfile
        rw [if_pos rfl, if_pos hlt, Option.getD_some, File.store_treeOf hg]
        by_cases hn : n = name
        · subst hn
          simp
        · rw [if_neg hn, if_neg (by simp [Ne.symm hn])]
          rfl
      · rw [if_neg hfile, if_neg (by simp [hfile]), ← List.getD_eq_getElem?_getD]
        rfl
    · have hmem : Event.called r a ∈ [Event.produced name file tree] := by
        rw [he]
        simp
      cases List.mem_singleton.mp hmem

/-- A step is called, and sees the file. -/
theorem called {r : Nat} {x : Run} (hx : w.runs[r]? = some x) (index : Nat) (t : Transformer)
    (tree : Value) :
    w.Account P (w.calling r x index t tree) [.called r (w.invocation x index t tree)] where
  events := rfl
  files := Nat.le_refl _
  runs := .of_eq rfl
  kept hw := by
    refine ⟨hw.told (.called r (w.invocation x index t tree)), fun e he => ?_⟩
    rw [List.mem_singleton.mp he]
    trivial
  held _ hw _ := by
    refine ⟨hw, fun _ _ _ => rfl, fun pre n a post he => ?_⟩
    have hpre : pre = [] := by
      cases pre with
      | nil => rfl
      | cons e pre => simp at he
    subst hpre
    obtain ⟨rfl, rfl⟩ := Event.called.inj (List.cons.inj he).1
    exact ⟨x, hx, fun _ _ => rfl⟩

end Accounts

end World

end TextPipeline.Pipeline
