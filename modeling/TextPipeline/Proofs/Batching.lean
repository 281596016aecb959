import TextPipeline.Proofs.Attaching

/-! A batch of plugins is attached as its members are one by one, each to the processor that the one
before it left. When a member fails, those before it stay attached, and those after it are not even
looked at. -/

namespace TextPipeline.Pipeline

open TextPipeline.Plugin
open TextPipeline.Pipeline.Action

/-- Every plugin is used on its own, on the processor that the use of the one before it returned. -/
inductive UsedInTurn (host : Host) (options : Value) : List Item → Nat → World → Nat → World → Prop
  | done (p : Nat) (w : World) : UsedInTurn host options [] p w p w
  | next {item : Item} {rest : List Item} {p q r : Nat} {w u v : World}
    (hfirst : (useOn host p (.leaf item) options).result w = (.ok q, u))
    (hrest : UsedInTurn host options rest q u r v) :
    UsedInTurn host options (item :: rest) p w r v

section Batch

variable (host : Host) (options : Value)

/-- A plugin by itself is a batch of one. -/
theorem useOn_leaf (id : Nat) (item : Item) :
    useOn host id (.leaf item) options = attachItem host options id item := by
  rw [useOn, Batch.visit]

/-- A plugin that is used with success was attached by its attacher. -/
theorem useOn_leaf_ok {host : Host} {options : Value} {id : Nat} {item : Item} {q : Nat} {w v : World}
    (h : (useOn host id (.leaf item) options).result w = (.ok q, v)) :
    ∃ a given name u, (attacherOf host options item).result w = (.ok (a, given, name), u) ∧
      w.Beside u ∧ (attach host id a given name).result u = (.ok q, v) := by
  rw [useOn_leaf, attachItem_eq] at h
  obtain ⟨⟨a, given, name⟩, u, hof, hattach⟩ := of_result_bind_ok h
  have hbeside := beside_attacherOf host options item w
  rw [hof] at hbeside
  exact ⟨a, given, name, u, hof, hbeside, hattach⟩

/-- A batch is used by using its members. -/
theorem useOn_eq_foldlM (id : Nat) (plugin : Plugin) :
    useOn host id plugin options =
      plugin.leaves.foldlM (fun p item => useOn host p (.leaf item) options) id := by
  simp only [useOn_leaf]
  rw [useOn, Batch.visit_eq_foldlM]

/-- Plugins that are used one by one are all used, or all before the first that fails. -/
theorem foldlM_useOn_cases (items : List Item) (id : Nat) (w : World) :
    let used := (items.foldlM (fun p item => useOn host p (.leaf item) options) id).result w
    (∃ q v, UsedInTurn host options items id w q v ∧ used = (.ok q, v)) ∨
      ∃ before failing rest p u f v, items = before ++ failing :: rest ∧
        UsedInTurn host options before id w p u ∧
        (useOn host p (.leaf failing) options).result u = (.error f, v) ∧ used = (.error f, v) := by
  induction items generalizing id w with
  | nil => exact .inl ⟨id, w, .done id w, rfl⟩
  | cons item items ih =>
    intro used
    obtain ⟨o, u, hfirst⟩ : ∃ o u, (useOn host id (.leaf item) options).result w = (o, u) :=
      ⟨_, _, rfl⟩
    cases o with
    | error f =>
      exact .inr ⟨[], item, items, id, w, f, u, rfl, .done id w, hfirst, result_bind_error hfirst⟩
    | ok p =>
      have hused : used =
          (items.foldlM (fun p item => useOn host p (.leaf item) options) p).result u :=
        result_bind_ok hfirst
      rw [hused]
      rcases ih p u with ⟨q, v, hrest, hv⟩ | ⟨before, failing, rest, q, x, f, v, rfl, hbefore, hf, hv⟩
      · exact .inl ⟨q, v, .next hfirst hrest, hv⟩
      · exact .inr ⟨item :: before, failing, rest, q, x, f, v, rfl, .next hfirst hbefore, hf, hv⟩

end Batch

/-- A batch of plugins, however it is divided into batches, is used as its members are one by one,
each on the processor that the one before it returned. The first member that fails is the last that is
used: its fault is that of the batch, and what was attached before it stays attached. -/
theorem batch_used_in_turn (endpoints : Grammar.Endpoints) (standard : List (Metadata Attacher))
    (surroundings : Surroundings Attacher) (depth id : Nat) (plugin : Plugin) (options : Value) :
    let host := Host.nested endpoints standard surroundings depth
    useOn host id plugin options =
        plugin.leaves.foldlM (fun p item => useOn host p (.leaf item) options) id ∧
      ∀ w : World,
        (∃ q v, UsedInTurn host options plugin.leaves id w q v ∧
          (useOn host id plugin options).result w = (.ok q, v)) ∨
        ∃ before failing rest p u f v, plugin.leaves = before ++ failing :: rest ∧
          UsedInTurn host options before id w p u ∧
          (useOn host p (.leaf failing) options).result u = (.error f, v) ∧
          (useOn host id plugin options).result w = (.error f, v) ∧ u.Grows v := by
  intro host
  have heq := useOn_eq_foldlM host options id plugin
  refine ⟨heq, fun w => ?_⟩
  rw [heq]
  rcases foldlM_useOn_cases host options plugin.leaves id w with
    hall | ⟨before, failing, rest, p, u, f, v, hleaves, hbefore, hf, hv⟩
  · exact .inl hall
  · have hgrows := World.Enduring.useOn (R := World.Grows)
      (World.Enduring.nested endpoints standard surroundings depth) p (.leaf failing) options u
    rw [hf] at hgrows
    exact .inr ⟨before, failing, rest, p, u, f, v, hleaves, hbefore, hf, hv, hgrows⟩

end TextPipeline.Pipeline
