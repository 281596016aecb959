/-! Plugins are given one by one or in batches of batches. -/

namespace TextPipeline.Plugin

/-- Something, or a batch of such, written as a fixed sequence or as a list. -/
inductive Batch (α : Type) where
  | leaf (a : α)
  | many (fixed : Bool) (items : List (Batch α))

namespace Batch

variable {α : Type}

mutual

/-- The members of a batch and of the batches in it, in order. -/
def leaves : Batch α → List α
  | .leaf a => [a]
  | .many _ items => leavesAll items

/-- The members of several batches, in order. -/
def leavesAll : List (Batch α) → List α
  | [] => []
  | g :: rest => leaves g ++ leavesAll rest

end

mutual

/-- Lets every member of a batch act in turn on what the one before it left. -/
def visit {m : Type → Type} [Monad m] {σ : Type} (act : σ → α → m σ) (s : σ) : Batch α → m σ
  | .leaf a => act s a
  | .many _ items => visitAll act s items

/-- Lets every member of several batches act in turn. -/
def visitAll {m : Type → Type} [Monad m] {σ : Type} (act : σ → α → m σ) (s : σ) :
    List (Batch α) → m σ
  | [] => pure s
  | g :: rest => do visitAll act (← visit act s g) rest

end

section Visit

variable {m : Type → Type} [Monad m] [LawfulMonad m] {σ : Type}

mutual

/-- How a batch is divided into batches does not matter. -/
theorem visit_eq_foldlM (act : σ → α → m σ) (s : σ) :
    (g : Batch α) → visit act s g = g.leaves.foldlM act s
  | .leaf a => by simp [visit, leaves]
  | .many _ items => visitAll_eq_foldlM act s items

theorem visitAll_eq_foldlM (act : σ → α → m σ) (s : σ) :
    (items : List (Batch α)) → visitAll act s items = (leavesAll items).foldlM act s
  | [] => rfl
  | g :: rest => by
    rw [visitAll, leavesAll, List.foldlM_append, visit_eq_foldlM act s g]
    exact bind_congr fun s => visitAll_eq_foldlM act s rest

end

end Visit

end Batch

end TextPipeline.Plugin
