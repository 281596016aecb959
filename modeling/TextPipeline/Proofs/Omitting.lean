import TextPipeline.Proofs.Removing

/-! Literals that are left out of a text. If the nodes of some types have no children, it makes no difference
whether the compiler of plain text skips their literals or they are removed before. -/

namespace TextPipeline

open TextPipeline.Tree

namespace Grammar.Plain

/-- A node of some types that has no children. -/
def Childless (types : List Value) (n : Node) : Prop := n.type.among types = true → children n = .ok []

section Skip

variable {skip types : List Value} {n : Node} {cs : List Value} {tree : Value}

/-- What is kept of a sound node: its value, unless it has none or its type is skipped. -/
theorem kept_sound (skip : List Value) (h : Sound n) : ∃ texts : List String,
    kept [] n = .ok (texts.map .str) ∧
    kept skip n = .ok (if n.type.among skip then [] else texts.map .str) := by
  obtain ⟨t, -, ht⟩ := h.type
  have hkey : n.type.asKey = .ok n.type := by
    rw [ht]
    rfl
  unfold kept
  rw [hkey, show n.isLiteral = !n.value.isNone from rfl]
  rcases h.value with hvalue | ⟨s, hvalue⟩
  · refine ⟨[], ?_, ?_⟩
    · rw [hvalue]
      rfl
    · rw [hvalue]
      cases n.type.among skip <;> rfl
  · refine ⟨[s], ?_, ?_⟩
    · rw [hvalue]
      rfl
    · rw [hvalue]
      rfl

/-- What is kept of a tree if some types are skipped, and of what is left of it without others. -/
def KeepsSame (skip types : List Value) (tree : Value) : Prop :=
  ∃ texts : List String, collect (kept skip) tree = .ok (texts.map .str) ∧
    (isOf types tree = true → texts = []) ∧
    (isOf types tree = false → collect (kept []) (pruned types tree) = .ok (texts.map .str))

theorem mapM_collect_pruned (h : ∀ c ∈ cs, KeepsSame skip types c) :
    ∃ made left : List (List Value), ∃ texts : List String, cs.mapM (collect (kept skip)) = .ok made ∧
      (prunedAll types cs).mapM (collect (kept [])) = .ok left ∧
      made.flatten = texts.map .str ∧ left.flatten = texts.map .str := by
  induction cs with
  | nil => exact ⟨[], [], [], rfl, rfl, rfl, rfl⟩
  | cons c cs ih =>
    obtain ⟨⟨first, hfirst, hnothing, hpruned⟩, hrest⟩ := List.forall_mem_cons.mp h
    obtain ⟨made, left, texts, hmade, hleft, hmadetexts, hlefttexts⟩ := ih hrest
    have hall : (c :: cs).mapM (collect (kept skip)) = .ok (first.map .str :: made) := by
      rw [List.mapM_cons, hfirst, hmade]
      rfl
    rw [prunedAll]
    cases hone : isOf types c with
    | true =>
      obtain rfl := hnothing hone
      exact ⟨_, left, texts, hall, hleft, hmadetexts, hlefttexts⟩
    | false =>
      refine ⟨_, first.map .str :: left, first ++ texts, hall, ?_, ?_, ?_⟩
      · rw [if_neg Bool.false_ne_true, List.mapM_cons, hpruned hone, hleft]
        rfl
      · rw [List.flatten_cons, hmadetexts, List.map_append]
      · rw [List.flatten_cons, hlefttexts, List.map_append]

/-- The literals that are kept of a tree are those of what is left of it without the types that are skipped,
unless its root is of one of these. -/
theorem keepsSame (hsame : ∀ v, Value.among v skip = v.among types)
    (h : Every (fun n => Checked n ∧ Childless types n) tree) : KeepsSame skip types tree := by
  induction h with
  | @node n cs hholds hn hcs ih =>
    obtain ⟨hchecked, hchildless⟩ := hn
    obtain ⟨own, hown, hskipped⟩ := kept_sound skip hchecked.toSound
    obtain ⟨made, left, texts, hmade, hleft, hmadetexts, hlefttexts⟩ := mapM_collect_pruned ih
    have htree : Every Checked (.node n) :=
      .node hholds hchecked fun c hc => (hcs c hc).mono fun _ h => h.1
    have hcollect := collect_node htree.isTree hholds.children hskipped hmade
    rw [hmadetexts, hsame] at hcollect
    cases hone : n.type.among types with
    | true =>
      obtain rfl : cs = [] := Except.ok.inj (hholds.children.symm.trans (hchildless hone))
      obtain rfl : [] = made := Except.ok.inj hmade
      obtain rfl : texts = [] := List.map_eq_nil_iff.mp hmadetexts.symm
      rw [hone] at hcollect
      refine ⟨[], hcollect, fun _ => rfl, fun hother => ?_⟩
      rw [isOf, hone] at hother
      cases hother
    | false =>
      rw [hone] at hcollect
      refine ⟨own ++ texts, ?_, fun hother => ?_, fun _ => ?_⟩
      · rw [List.map_append]
        exact hcollect
      · rw [isOf, hone] at hother
        cases hother
      · have hpruned := htree.pruned types
        rw [pruned_node types hholds] at hpruned ⊢
        rw [collect_node hpruned.isTree (holds_pruned types hholds).children hown hleft, hlefttexts,
          List.map_append]

/-- So the same text is compiled of both. -/
theorem compile_pruned (hsame : ∀ v, Value.among v skip = v.among types)
    (h : Every (fun n => Checked n ∧ Childless types n) tree) (hroot : isOf types tree = false) :
    ∃ text, compile skip tree = .ok text ∧ compile [] (pruned types tree) = .ok text := by
  obtain ⟨texts, hkept, -, hleft⟩ := keepsSame hsame h
  have hcompile (skip : List Value) (tree : Value) :
      compile skip tree = (do joinTexts "" (← collect (kept skip) tree)) := rfl
  refine ⟨String.ofList (texts.flatMap String.toList), ?_, ?_⟩
  · rw [hcompile, hkept]
    exact joinTexts_map_str texts
  · rw [hcompile, hleft hroot]
    exact joinTexts_map_str texts

end Skip

end Grammar.Plain

namespace Standard

open TextPipeline.Grammar TextPipeline.Settings TextPipeline.Pipeline

theorem childless_notes : Every (Plain.Childless (["note"].map .str)) notes := by
  have hleaf (type value : String) :
      Every (Plain.Childless (["note"].map .str)) (.node (NodeOf.literal type value .none)) :=
    .node .absent (fun _ => rfl) (by simp)
  have hother (type : String) (htype : (Value.str type).among (["note"].map .str) = false)
      (cs : List Value) (hcs : ∀ c ∈ cs, Every (Plain.Childless (["note"].map .str)) c) :
      Every (Plain.Childless (["note"].map .str)) (.node (NodeOf.parent type cs .none)) :=
    .node (.list cs) (fun hone => (Bool.false_ne_true (htype.symm.trans hone)).elim) hcs
  have hquotation := hother "quotation" (by cbv) [.node (NodeOf.literal "note" "b" .none),
    .node (NodeOf.literal "text" "c" .none)] (by simpa using And.intro (hleaf "note" "b") (hleaf "text" "c"))
  exact hother "section" (by cbv) _ (by simpa using And.intro (hleaf "note" "a") hquotation)

end Standard

end TextPipeline
