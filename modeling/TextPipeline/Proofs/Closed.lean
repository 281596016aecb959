import TextPipeline.Proofs.Recomposition

/-! Values that refer to nothing that is shared. Such a value is seen by everybody as it is, whatever is
kept. Changing the literals of such a tree does not come to anything that is kept elsewhere, and leaves
such a tree if the new literals are such values. -/

namespace TextPipeline

namespace Value

/-- A value that refers to nothing that is shared. -/
def Closed (v : Value) : Prop := ∀ shown, v.revealWith shown = v

theorem not_closed_handle (h : Handle) : ¬(Value.handle h).Closed := fun hc =>
  nomatch hc fun _ => .none

theorem revealList_eq_self {shown : Handle → Value} {items : List Value} :
    revealList shown items = items ↔ ∀ v ∈ items, v.revealWith shown = v := by
  induction items with
  | nil => simp [revealList]
  | cons v rest ih => simp [revealList, ih]

theorem revealEntries_eq_self {shown : Handle → Value} {entries : List (Value × Value)} :
    revealEntries shown entries = entries ↔
      ∀ e ∈ entries, e.1.revealWith shown = e.1 ∧ e.2.revealWith shown = e.2 := by
  induction entries with
  | nil => simp [revealEntries]
  | cons e rest ih =>
    obtain ⟨k, v⟩ := e
    simp only [revealEntries, List.cons.injEq, Prod.mk.injEq, ih, List.forall_mem_cons]

theorem closed_list {items : List Value} : (Value.list items).Closed ↔ ∀ v ∈ items, v.Closed := by
  simp only [Closed, revealWith, Value.list.injEq, revealList_eq_self]
  exact ⟨fun h v hv shown => h shown v hv, fun h shown v hv => h v hv shown⟩

theorem closed_sequence {kind : SequenceKind} {items : List Value} :
    (Value.sequence kind items).Closed ↔ ∀ v ∈ items, v.Closed := by
  simp only [Closed, revealWith, Value.sequence.injEq, true_and, revealList_eq_self]
  exact ⟨fun h v hv shown => h shown v hv, fun h shown v hv => h v hv shown⟩

/-- The keys and values of a mapping refer to nothing that is shared. -/
def ClosedEntries (entries : List (Value × Value)) : Prop := ∀ e ∈ entries, e.1.Closed ∧ e.2.Closed

theorem closed_mapping {kind : MappingKind} {entries : List (Value × Value)} :
    (Value.mapping kind entries).Closed ↔ ClosedEntries entries := by
  simp only [Closed, ClosedEntries, revealWith, Value.mapping.injEq, true_and, revealEntries_eq_self]
  exact ⟨fun h e he => ⟨fun shown => (h shown e he).1, fun shown => (h shown e he).2⟩,
    fun h shown e he => ⟨(h e he).1 shown, (h e he).2 shown⟩⟩

theorem closed_node {n : Node} : (Value.node n).Closed ↔
    n.type.Closed ∧ n.children.Closed ∧ n.value.Closed ∧ n.data.Closed ∧ n.position.Closed := by
  obtain ⟨t, c, v, d, p⟩ := n
  simp only [Closed, revealWith, Value.node.injEq, NodeOf.mk.injEq]
  constructor
  · exact fun h => ⟨fun s => (h s).1, fun s => (h s).2.1, fun s => (h s).2.2.1, fun s => (h s).2.2.2.1,
      fun s => (h s).2.2.2.2⟩
  · rintro ⟨ht, hc, hv, hd, hp⟩ s
    exact ⟨ht s, hc s, hv s, hd s, hp s⟩

theorem ClosedEntries.insert {entries : List (Value × Value)} {key v : Value}
    (h : ClosedEntries entries) (hkey : key.Closed) (hv : v.Closed) :
    ClosedEntries (Entries.insert key v entries) := by
  induction entries with
  | nil =>
    intro e he
    obtain rfl := List.mem_singleton.mp he
    exact ⟨hkey, hv⟩
  | cons e rest ih =>
    obtain ⟨k, w⟩ := e
    have hhead := h _ List.mem_cons_self
    have hrest : ClosedEntries rest := fun e he => h e (List.mem_cons_of_mem _ he)
    intro e he
    rw [Entries.insert] at he
    split at he
    · rcases List.mem_cons.mp he with rfl | he
      · exact ⟨hhead.1, hv⟩
      · exact hrest e he
    · rcases List.mem_cons.mp he with rfl | he
      · exact hhead
      · exact ih hrest e he

end Value

namespace Tree

/-- A change of literals that makes none of them refer to something that is shared. -/
def Closing (f : Node → Outcome Value) : Prop := ∀ n v, (Value.node n).Closed → f n = .ok v → v.Closed

section

variable {f : Node → Outcome Value} {type : Option Value}

/-- Changing one node changes nothing but its value. -/
theorem mapNode_closed (hf : Closing f) {n m : Node} {k : Nat} (hn : (Value.node n).Closed)
    (h : mapNode f type n = .ok (m, k)) : (Value.node m).Closed ∧ m.children = n.children := by
  unfold mapNode at h
  split_ifs at h with hwanted
  · cases hv : f n with
    | error e =>
      rw [hv] at h
      cases h
    | ok v =>
      rw [hv] at h
      obtain ⟨rfl, -⟩ := Prod.mk.inj (Except.ok.inj h)
      obtain ⟨ht, hc, -, hd, hp⟩ := Value.closed_node.mp hn
      exact ⟨Value.closed_node.mpr ⟨ht, hc, hf n v hn hv, hd, hp⟩, rfl⟩
  · obtain ⟨rfl, -⟩ := Prod.mk.inj (Except.ok.inj h)
    exact ⟨hn, rfl⟩

/-- A node with other children. -/
theorem closed_withChildren {n : Node} {c : Value} (hn : (Value.node n).Closed) (hc : c.Closed) :
    (Value.node { n with children := c }).Closed := by
  obtain ⟨ht, -, hv, hd, hp⟩ := Value.closed_node.mp hn
  exact Value.closed_node.mpr ⟨ht, hc, hv, hd, hp⟩

theorem closed_inNumberOrder {changed : List (Value × Mapped)} {entries : Entries}
    (hchanged : ∀ e ∈ changed, e.1.Closed ∧ e.2.tree.Closed) (h : Value.ClosedEntries entries) :
    Value.ClosedEntries (inNumberOrder changed entries).1 := by
  unfold inNumberOrder
  generalize hs : (entries, 0, (none : Option Fault)) = start
  have hstart : Value.ClosedEntries start.1 := hs ▸ h
  clear hs h
  generalize List.range entries.length = numbers
  induction numbers generalizing start with
  | nil => exact hstart
  | cons i rest ih =>
    refine ih _ ?_
    obtain ⟨es, count, fault⟩ := start
    cases fault with
    | some fault => exact hstart
    | none =>
      cases hfound : changed.find? fun e => e.1.equals (.nat i) with
      | none => simpa [hfound] using hstart
      | some e =>
        obtain ⟨hkey, hm⟩ := hchanged _ (List.mem_of_find?_eq_some hfound)
        simpa [hfound] using hstart.insert hkey hm

end

section

variable {M : Type → Type} [Monad M] {f : Node → Outcome Value} {type : Option Value}

/-- What changing the literals of a node comes to if no trees that could be changed stand below it. -/
def mapChildless (f : Node → Outcome Value) (type : Option Value) (n : Node) : Mapped :=
  match mapNode f type n with
  | .error fault => ⟨.node n, 0, some fault⟩
  | .ok (n, k) =>
    match children n with
    | .error fault => ⟨.node n, k, some fault⟩
    | .ok [] => ⟨.node n, k, none⟩
    | .ok (stray :: _) => ⟨.node n, k, some (notNode stray)⟩

theorem mapChildless_closed (hf : Closing f) {n : Node} (h : (Value.node n).Closed) :
    (mapChildless f type n).tree.Closed ∧ (mapChildless f type n).tree.isNode = true := by
  unfold mapChildless
  split
  · exact ⟨h, rfl⟩
  · rename_i hn
    have hclosed := (mapNode_closed hf h hn).1
    split <;> exact ⟨hclosed, rfl⟩

/-- A tree without children that could be kept elsewhere. -/
theorem mapLiteralsWith_childless (hf : Closing f) {n : Node} (h : (Value.node n).Closed)
    (hlist : ∀ cs, n.children ≠ .list cs) (hsequence : ∀ kind cs, n.children ≠ .sequence kind cs)
    (hmapping : ∀ kind es, n.children ≠ .mapping kind es) :
    ∃ m : Mapped, m.tree.Closed ∧ m.tree.isNode = true ∧
      ∀ shared : Handle → M Mapped, mapLiteralsWith shared f type (.node n) = pure m := by
  obtain ⟨hclosed, hnode⟩ : (mapChildless f type n).tree.Closed ∧
    (mapChildless f type n).tree.isNode = true := mapChildless_closed hf h
  refine ⟨_, hclosed, hnode, fun shared => ?_⟩
  obtain ⟨t, c, v, d, p⟩ := n
  cases c with
  | list cs => exact absurd rfl (hlist cs)
  | sequence kind cs => exact absurd rfl (hsequence kind cs)
  | mapping kind es => exact absurd rfl (hmapping kind es)
  | _ =>
    unfold mapLiteralsWith
    split
    · rename_i hn
      rw [mapChildless, hn]
    · rename_i mapped k hn
      rw [mapChildless, hn]
      dsimp only
      cases children mapped with
      | error fault => rfl
      | ok cs => cases cs <;> rfl

variable [LawfulMonad M]

mutual

/-- The literals of a tree that refers to nothing are changed without coming to anything that is kept. -/
theorem mapLiteralsWith_closed (hf : Closing f) : (v : Value) → v.Closed →
    ∃ m : Mapped, m.tree.Closed ∧ m.tree.isNode = v.isNode ∧
      ∀ shared : Handle → M Mapped, mapLiteralsWith shared f type v = pure m
  | .node ⟨t, c, v, d, p⟩, h => by
    have hchildren := (Value.closed_node.mp h).2.1
    cases c with
    | list cs =>
      obtain ⟨below, hbelow, hall⟩ := mapLiteralsAll_closed hf cs (Value.closed_list.mp hchildren)
      cases hn : mapNode f type ⟨t, .list cs, v, d, p⟩ with
      | error fault => exact ⟨_, h, rfl, fun shared => by rw [mapLiteralsWith, hn]⟩
      | ok mapped =>
        obtain ⟨n, k⟩ := mapped
        refine ⟨⟨.node { n with children := .list below.1 }, k + below.2.1, below.2.2⟩,
          closed_withChildren (mapNode_closed hf h hn).1 (Value.closed_list.mpr hbelow), rfl,
          fun shared => ?_⟩
        simp [mapLiteralsWith, hn, hall]
    | sequence kind cs =>
      obtain ⟨below, hbelow, hall⟩ := mapLiteralsAll_closed hf cs (Value.closed_sequence.mp hchildren)
      cases hn : mapNode f type ⟨t, .sequence kind cs, v, d, p⟩ with
      | error fault => exact ⟨_, h, rfl, fun shared => by rw [mapLiteralsWith, hn]⟩
      | ok mapped =>
        obtain ⟨n, k⟩ := mapped
        refine ⟨⟨.node { n with children := .sequence kind below.1 }, k + below.2.1, below.2.2⟩,
          closed_withChildren (mapNode_closed hf h hn).1 (Value.closed_sequence.mpr hbelow), rfl,
          fun shared => ?_⟩
        simp [mapLiteralsWith, hn, hall]
    | mapping kind es =>
      have hes := Value.closed_mapping.mp hchildren
      obtain ⟨changed, hchanged, hall⟩ := mapLiteralsEntries_closed hf es hes
      cases hn : mapNode f type ⟨t, .mapping kind es, v, d, p⟩ with
      | error fault => exact ⟨_, h, rfl, fun shared => by rw [mapLiteralsWith, hn]⟩
      | ok mapped =>
        obtain ⟨n, k⟩ := mapped
        have hclosed := (mapNode_closed hf h hn).1
        cases hc : children n with
        | error fault =>
          exact ⟨⟨.node n, k, some fault⟩, hclosed, rfl, fun shared => by simp [mapLiteralsWith, hn, hc]⟩
        | ok _ =>
          refine ⟨⟨.node { n with children := .mapping kind (inNumberOrder changed es).1 },
            k + (inNumberOrder changed es).2.1, (inNumberOrder changed es).2.2⟩,
            closed_withChildren hclosed
              (Value.closed_mapping.mpr (closed_inNumberOrder hchanged hes)), rfl,
            fun shared => ?_⟩
          simp [mapLiteralsWith, hn, hc, hall]
    | _ => exact mapLiteralsWith_childless hf h (by simp) (by simp) (by simp)
  | .handle g, h => absurd h (Value.not_closed_handle g)
  | .none, h | .bool _, h | .int _, h | .float _, h | .str _, h | .bytes _, h | .list _, h
  | .sequence .., h | .set _, h | .mapping .., h | .moment _, h | .point _, h | .span .., h | .error _, h
  | .settings .., h | .callable _, h | .anonymous, h | .awaitable _, h | .document .., h | .other .., h =>
    ⟨_, h, rfl, fun _ => rfl⟩

/-- The same of several trees. -/
theorem mapLiteralsAll_closed (hf : Closing f) : (cs : List Value) → (∀ c ∈ cs, c.Closed) →
    ∃ done : List Value × Nat × Option Fault, (∀ c ∈ done.1, c.Closed) ∧
      ∀ shared : Handle → M Mapped, mapLiteralsAll shared f type cs = pure done
  | [], _ => ⟨([], 0, none), by simp, fun shared => rfl⟩
  | c :: rest, h => by
    obtain ⟨hc, hrest⟩ := List.forall_mem_cons.mp h
    obtain ⟨first, hfirst, -, hwith⟩ := mapLiteralsWith_closed hf c hc
    obtain ⟨others, hothers, hall⟩ := mapLiteralsAll_closed hf rest hrest
    cases hfault : first.fault with
    | some fault =>
      refine ⟨(first.tree :: rest, first.count, some fault), List.forall_mem_cons.mpr ⟨hfirst, hrest⟩,
        fun shared => ?_⟩
      simp [mapLiteralsAll, hwith, hfault]
    | none =>
      refine ⟨(first.tree :: others.1, first.count + others.2.1, others.2.2),
        List.forall_mem_cons.mpr ⟨hfirst, hothers⟩, fun shared => ?_⟩
      simp [mapLiteralsAll, hwith, hall, hfault]

/-- The same of the trees that a mapping holds. -/
theorem mapLiteralsEntries_closed (hf : Closing f) : (es : List (Value × Value)) →
    Value.ClosedEntries es → ∃ changed : List (Value × Mapped),
      (∀ e ∈ changed, e.1.Closed ∧ e.2.tree.Closed) ∧
        ∀ shared : Handle → M Mapped, mapLiteralsEntries shared f type es = pure changed
  | [], _ => ⟨[], by simp, fun shared => rfl⟩
  | (k, c) :: rest, h => by
    obtain ⟨hc, hrest⟩ := List.forall_mem_cons.mp h
    obtain ⟨first, hfirst, -, hwith⟩ := mapLiteralsWith_closed hf c hc.2
    obtain ⟨others, hothers, hall⟩ := mapLiteralsEntries_closed hf rest hrest
    refine ⟨(k, first) :: others, List.forall_mem_cons.mpr ⟨⟨hc.1, hfirst⟩, hothers⟩, fun shared => ?_⟩
    simp [mapLiteralsEntries, hwith, hall]

end

end

end Tree

end TextPipeline
