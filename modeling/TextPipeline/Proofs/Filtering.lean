import Mathlib.Data.List.Infix
import TextPipeline.Proofs.Spots
import TextPipeline.Tree.Rebuild

/-! What filtering a tree asks and what it keeps. The verdicts are known by the places of the nodes they are
about, so that one that depends on what was asked before may differ between equal nodes. A node below the
root is asked about if all on the way to it were accepted, in the order of a walk, and is kept if it was
accepted, too. -/

namespace TextPipeline

namespace Tree

/-- A sound node can be made again with other children, if it has any, and other data. -/
theorem Sound.make {n : Node} (h : Sound n) {field data : Value}
    (hfield : n.children = .none → field = .none) :
    NodeOf.make n.type field n.value data n.position =
      .ok { n with children := field, data := data } := by
  obtain ⟨t, ht, htype⟩ := h.type
  have hboth : (!field.isNone && !n.value.isNone) = false := by
    rcases h.content with hnone | hnone
    · rw [hfield hnone]
      rfl
    · rw [hnone]
      exact Bool.and_false _
  have hname : (t == "") = false := by simpa using ht
  unfold NodeOf.make
  rw [htype]
  dsimp only
  rw [hname, hboth]
  rfl

theorem Holds.noStray {field : Value} (h : Holds field []) : noStray field = .ok () := by
  cases h <;> rfl

theorem Holds.listField {field : Value} {cs below : List Value} (h : Holds field cs)
    (hnone : cs = [] → below = []) : Holds (listField field below) below := by
  cases h with
  | absent =>
    obtain rfl := hnone rfl
    exact .absent
  | list | sequence | set | mapping | str | bytes => exact .list below

section Filter

variable {m : Type → Type} [Monad m] [MonadExceptOf Fault m] [LawfulMonad m] (keep : Node → m Bool)

theorem filter_node {n : Node} {cs : List Value} (hholds : Holds n.children cs) (hn : Sound n) :
    filter keep (.node n) = (do
      let below ← filterAll keep cs
      let data ← lift n.data.duplicate
      return .node { n with children := listField n.children below, data := data }) := by
  have hmake {field data : Value} (hfield : n.children = .none → field = .none) :=
    @Sound.make n hn field data hfield
  have hstray : cs = [] → noStray n.children = .ok () := by
    rintro rfl
    exact hholds.noStray
  obtain ⟨t, field, v, d, p⟩ := n
  dsimp only at hmake hstray hholds ⊢
  cases hholds with
  | list | sequence =>
    rw [filter]
    refine bind_congr fun below => bind_congr fun data => ?_
    rw [@hmake (.list below) data fun h => by cases h]
    exact pure_bind _ _
  | absent =>
    have hnone (data : Value) := @hmake .none data fun _ => rfl
    simp [filter, filterAll, hstray, lift, Value.isNone, listField, hnone]
  | set | mapping | str | bytes =>
    have hlist (data : Value) := @hmake (.list []) data fun h => by cases h
    simp [filter, filterAll, hstray, lift, Value.isNone, listField, hlist]

theorem filterAll_cons (n : Node) (cs : List Value) : filterAll keep (.node n :: cs) = (do
    if ← keep n then
      let first ← filter keep (.node n)
      return first :: (← filterAll keep cs)
    else filterAll keep cs) := by
  rw [filterAll]
  simp [asNode, lift]

end Filter

section Verdicts

variable {σ : Type}

/-- A predicate that may remember what it was asked. -/
def asking (ask : Node → σ → Bool × σ) (n : Node) : StateT σ Outcome Bool :=
  fun state => .ok (ask n state)

/-- Whether all on the way to a place below the root were accepted, and what stands there, too. -/
def accepted (verdict : List Nat → Bool) (place : List Nat) : Bool := place.inits.tail.all verdict

/-- Whether a place is below the root and all on the way to it were accepted. -/
def questioned (verdict : List Nat → Bool) (place : List Nat) : Bool :=
  !place.isEmpty && accepted verdict place.dropLast

/-- The predicate is asked about some spots one after another and gives the verdicts on them. -/
inductive Asked (ask : Node → σ → Bool × σ) (verdict : List Nat → Bool) : List Spot → σ → σ → Prop
  | nil {state : σ} : Asked ask verdict [] state state
  | cons {s : Spot} {rest : List Spot} {before between after : σ} :
      ask s.node before = (verdict s.place, between) → Asked ask verdict rest between after →
      Asked ask verdict (s :: rest) before after

/-- What a spot says but for its children: its depth, and the type, the value, the data and the position of
its node. -/
def Spot.described (s : Spot) : Nat × Value × Value × Value × Value :=
  (s.place.length, s.node.type, s.node.value, s.node.data, s.node.position)

variable {ask : Node → σ → Bool × σ} {verdict verdict' : List Nat → Bool} {i : Nat} {place : List Nat}
  {l l' : List Spot} {before between after : σ}

theorem accepted_cons : accepted verdict (i :: place) =
    (verdict [i] && accepted (fun p => verdict (i :: p)) place) := by
  cases place with
  | nil => simp [accepted]
  | cons j place => simp [accepted, List.all_map, Function.comp_def]

theorem questioned_cons (h : place ≠ []) : questioned verdict (i :: place) =
    (verdict [i] && questioned (fun p => verdict (i :: p)) place) := by
  rw [questioned, List.dropLast_cons_of_ne_nil h, accepted_cons, questioned, List.isEmpty_eq_false_iff.mpr h]
  rfl

theorem accepted_congr (h : ∀ p, p ≠ [] → p <+: place → verdict p = verdict' p) :
    accepted verdict place = accepted verdict' place := by
  have hmem : ∀ p ∈ place.inits.tail, p ≠ [] ∧ p <+: place := by
    cases place with
    | nil => simp
    | cons i place => simp [List.mem_inits]
  rw [accepted, accepted, Bool.eq_iff_iff, List.all_eq_true, List.all_eq_true]
  exact forall₂_congr fun p hp => by rw [h p (hmem p hp).1 (hmem p hp).2]

theorem questioned_congr (h : ∀ p, p ≠ [] → p <+: place → verdict p = verdict' p) :
    questioned verdict place = questioned verdict' place := by
  rw [questioned, questioned, accepted_congr fun p hne hp => h p hne (hp.trans place.dropLast_prefix)]

namespace Asked

theorem append (h : Asked ask verdict l before between) (h' : Asked ask verdict l' between after) :
    Asked ask verdict (l ++ l') before after := by
  induction h with
  | nil => exact h'
  | cons hask _ ih => exact .cons hask (ih h')

theorem congr (h : Asked ask verdict l before after) (hsame : ∀ s ∈ l, verdict s.place = verdict' s.place) :
    Asked ask verdict' l before after := by
  induction h with
  | nil => exact .nil
  | cons hask _ ih =>
    obtain ⟨hs, hrest⟩ := List.forall_mem_cons.mp hsame
    exact .cons (hs ▸ hask) (ih hrest)

theorem under (h : Asked ask (fun p => verdict (i :: p)) l before after) :
    Asked ask verdict (l.map (Spot.under i)) before after := by
  induction h with
  | nil => exact .nil
  | cons hask _ ih => exact .cons hask ih

end Asked

/-- The verdicts on what stands below a node, if they are known for its child of number `i`, for what is
below that child, and for what stands beside it. -/
def graft (i : Nat) (verdict : Bool) (below beside : List Nat → Bool) : List Nat → Bool
  | [] => true
  | j :: place => if j = i then (if place.isEmpty then verdict else below place) else beside (j :: place)

section Graft

variable {i : Nat} {given : Bool} {below beside : List Nat → Bool} {place : List Nat}

theorem graft_self : graft i given below beside [i] = given := by
  simp [graft]

theorem graft_below (h : place ≠ []) : graft i given below beside (i :: place) = below place := by
  simp [graft, h]

theorem graft_beside {j : Nat} (h : i < j) :
    graft i given below beside (j :: place) = beside (j :: place) :=
  if_neg (by omega)

theorem accepted_graft_below : accepted (graft i given below beside) (i :: place) =
    (given && accepted below place) := by
  rw [accepted_cons, graft_self, accepted_congr fun p hp _ => graft_below hp]

theorem questioned_graft_below (h : place ≠ []) :
    questioned (graft i given below beside) (i :: place) = (given && questioned below place) := by
  rw [questioned_cons h, graft_self, questioned_congr fun p hp _ => graft_below hp]

theorem graft_on_way {j : Nat} (h : i < j) (p : List Nat) (hp : p ≠ []) (hway : p <+: j :: place) :
    graft i given below beside p = beside p := by
  obtain ⟨k, q, rfl⟩ := List.exists_cons_of_ne_nil hp
  obtain ⟨rfl, -⟩ := List.cons_prefix_cons.mp hway
  exact graft_beside h

variable {l l' : List Spot}

theorem filter_accepted_graft (h : ∀ s ∈ l', ∃ j p, s.place = j :: p ∧ i < j) :
    (l.map (Spot.under i) ++ l').filter (fun s => accepted (graft i given below beside) s.place) =
      (if given then (l.filter fun s => accepted below s.place).map (Spot.under i) else []) ++
        l'.filter fun s => accepted beside s.place := by
  have hbeside : l'.filter (fun s => accepted (graft i given below beside) s.place) =
      l'.filter fun s => accepted beside s.place := by
    refine List.filter_congr fun s hs => ?_
    obtain ⟨j, p, hplace, hj⟩ := h s hs
    rw [hplace, accepted_congr (graft_on_way hj)]
  rw [List.filter_append, hbeside, List.filter_map]
  congr 1
  cases given <;> simp [Function.comp_def, accepted_graft_below]

theorem filter_questioned_graft {s : Spot} (hs : s.place = []) (hl : ∀ t ∈ l, t.place ≠ [])
    (h : ∀ t ∈ l', ∃ j p, t.place = j :: p ∧ i < j) :
    ((s :: l).map (Spot.under i) ++ l').filter
        (fun t => questioned (graft i given below beside) t.place) =
      s.under i :: ((if given then (l.filter fun t => questioned below t.place).map (Spot.under i)
        else []) ++ l'.filter fun t => questioned beside t.place) := by
  have hbeside : l'.filter (fun t => questioned (graft i given below beside) t.place) =
      l'.filter fun t => questioned beside t.place := by
    refine List.filter_congr fun t ht => ?_
    obtain ⟨j, p, hplace, hj⟩ := h t ht
    rw [hplace, questioned_congr (graft_on_way hj)]
  have hunder : l.filter ((fun t => questioned (graft i given below beside) t.place) ∘ Spot.under i) =
      l.filter fun t => given && questioned below t.place :=
    List.filter_congr fun t ht => questioned_graft_below (hl t ht)
  have hroot : questioned (graft i given below beside) (s.under i).place = true := by
    rw [Spot.place_under, hs]
    rfl
  rw [List.map_cons, List.cons_append, List.filter_cons, if_pos hroot, List.filter_append, hbeside,
    List.filter_map, hunder]
  cases given <;> simp

end Graft

/-- Whether the data of a node at one of some spots are refused a copy for their type. -/
def Uncopied (type : String) (l : List Spot) : Prop :=
  ∃ s ∈ l, s.node.data.duplicate = .error (notCopied type)

theorem Uncopied.under {type : String} {l : List Spot} (i : Nat) (h : Uncopied type l) :
    Uncopied type (l.map (Spot.under i)) := by
  obtain ⟨s, hs, hfault⟩ := h
  exact ⟨s.under i, List.mem_map_of_mem hs, hfault⟩

theorem Uncopied.mono {type : String} {l l' : List Spot} (h : Uncopied type l) (hsub : l ⊆ l') :
    Uncopied type l' := by
  obtain ⟨s, hs, hfault⟩ := h
  exact ⟨s, hsub hs, hfault⟩

/-- What filtering a tree comes to: the spots in question are asked about in their order, and what is left
is described as the accepted ones are; or it fails, since the data of a node have no copy. -/
def Filters (ask : Node → σ → Bool × σ) (tree : Value) : Prop :=
  ∀ index parent state,
    (∃ result verdict after, (filter (asking ask) tree).run state = .ok (result, after) ∧
      Asked ask verdict ((spots false index parent tree).filter fun s => questioned verdict s.place)
        state after ∧
      ∀ index' parent', (spots false index' parent' result).map Spot.described =
        ((spots false index parent tree).filter fun s => accepted verdict s.place).map Spot.described) ∨
    ∃ type, Uncopied type (spots false index parent tree) ∧
      (filter (asking ask) tree).run state = .error (notCopied type)

theorem described_under (i : Nat) (l : List Spot) : (l.map (Spot.under i)).map Spot.described =
    (l.map Spot.described).map fun d => (d.1 + 1, d.2) := by
  simp [List.map_map, Function.comp_def, Spot.described]

/-- The verdicts on the spots beside a child of number `i`. -/
theorem Asked.beside {ask : Node → σ → Bool × σ} {i : Nat} {given : Bool} {below beside : List Nat → Bool}
    {l : List Spot} (h : ∀ s ∈ l, ∃ j p, s.place = j :: p ∧ i < j) {before after : σ}
    (hasked : Asked ask beside (l.filter fun s => questioned beside s.place) before after) :
    Asked ask (graft i given below beside) (l.filter fun s => questioned beside s.place) before after := by
  refine hasked.congr fun s hs => ?_
  obtain ⟨j, p, hplace, hj⟩ := h s (List.mem_of_mem_filter hs)
  rw [hplace, graft_beside hj]

/-- The verdicts on the spots below it. -/
theorem Asked.beneath {ask : Node → σ → Bool × σ} {i : Nat} {given : Bool} {below beside : List Nat → Bool}
    {s : Spot} (hs : s.place = []) {l : List Spot} (h : ∀ t ∈ l, t.place ≠ []) {before after : σ}
    (hasked : Asked ask below ((s :: l).filter fun t => questioned below t.place) before after) :
    Asked ask (graft i given below beside)
      ((l.filter fun t => questioned below t.place).map (Spot.under i)) before after := by
  rw [List.filter_cons, if_neg (by rw [hs]; exact Bool.false_ne_true)] at hasked
  exact (hasked.congr fun t ht => (graft_below (h t (List.mem_of_mem_filter ht))).symm).under

theorem run_filterAll_refused {ask : Node → σ → Bool × σ} {m : Node} {cs : List Value}
    {before between : σ} (hask : ask m before = (false, between)) :
    (filterAll (asking ask) (.node m :: cs)).run before = (filterAll (asking ask) cs).run between := by
  have hkeep : (asking ask m).run before = pure (false, between) := congrArg Except.ok hask
  rw [filterAll_cons]
  simp [hkeep]

theorem run_filterAll_accepted {ask : Node → σ → Bool × σ} {m : Node} {cs : List Value}
    {before between middle after : σ} (hask : ask m before = (true, between)) {first : Value}
    (hfirst : (filter (asking ask) (.node m)).run between = pure (first, middle)) {below : List Value}
    (hbelow : (filterAll (asking ask) cs).run middle = pure (below, after)) :
    (filterAll (asking ask) (.node m :: cs)).run before = pure (first :: below, after) := by
  have hkeep : (asking ask m).run before = pure (true, between) := congrArg Except.ok hask
  rw [filterAll_cons]
  simp [hkeep, hfirst, hbelow]

theorem run_filterAll_first_fails {ask : Node → σ → Bool × σ} {m : Node} {cs : List Value}
    {before between : σ} (hask : ask m before = (true, between)) {f : Fault}
    (hfirst : (filter (asking ask) (.node m)).run between = .error f) :
    (filterAll (asking ask) (.node m :: cs)).run before = .error f := by
  have hkeep : (asking ask m).run before = pure (true, between) := congrArg Except.ok hask
  rw [filterAll_cons]
  simp only [StateT.run_bind, hkeep, pure_bind, if_true, hfirst]
  rfl

theorem run_filterAll_rest_fails {ask : Node → σ → Bool × σ} {m : Node} {cs : List Value}
    {before between middle : σ} (hask : ask m before = (true, between)) {first : Value}
    (hfirst : (filter (asking ask) (.node m)).run between = pure (first, middle)) {f : Fault}
    (hbelow : (filterAll (asking ask) cs).run middle = .error f) :
    (filterAll (asking ask) (.node m :: cs)).run before = .error f := by
  have hkeep : (asking ask m).run before = pure (true, between) := congrArg Except.ok hask
  rw [filterAll_cons]
  simp only [StateT.run_bind, hkeep, pure_bind, if_true, hfirst, hbelow]
  rfl

/-- What filtering several trees comes to. -/
theorem filterAll_filters {ask : Node → σ → Bool × σ} {P : Node → Prop} {cs : List Value}
    (hcs : ∀ c ∈ cs, Every P c) (h : ∀ c ∈ cs, Filters ask c) (n : Node) (i : Nat) (state : σ) :
    (∃ below verdict after, (filterAll (asking ask) cs).run state = .ok (below, after) ∧
      Asked ask verdict ((spotsAll false n i cs).filter fun s => questioned verdict s.place) state after ∧
      ∀ m j, (spotsAll false m j below).map Spot.described =
        ((spotsAll false n i cs).filter fun s => accepted verdict s.place).map Spot.described) ∨
    ∃ type, Uncopied type (spotsAll false n i cs) ∧
      (filterAll (asking ask) cs).run state = .error (notCopied type) := by
  induction cs generalizing i state with
  | nil => exact .inl ⟨[], fun _ => true, state, rfl, .nil, fun _ _ => rfl⟩
  | cons c cs ih =>
    obtain ⟨hc, hrest⟩ := List.forall_mem_cons.mp hcs
    obtain ⟨hfirst, hlater⟩ := List.forall_mem_cons.mp h
    obtain ⟨m, ds, rfl, hholds⟩ : ∃ m ds, c = .node m ∧ Holds m.children ds := by
      cases hc with
      | node hholds => exact ⟨_, _, rfl, hholds⟩
    have hbeside : ∀ s ∈ spotsAll false n (i + 1) cs, ∃ j p, s.place = j :: p ∧ i < j := by
      intro s hs
      obtain ⟨j, p, hplace, hle, -⟩ := place_of_mem_spotsAll hs
      exact ⟨j, p, hplace, hle⟩
    have hbelow : ∀ s ∈ spotsAll false m 0 ds, s.place ≠ [] := fun s hs => place_ne_nil_of_mem_spotsAll hs
    have hfault {type : String} (h : Uncopied type (spotsAll false n (i + 1) cs)) :
        Uncopied type (spotsAll false n i (.node m :: cs)) := by
      rw [spotsAll_cons]
      exact h.mono (List.subset_append_right _ _)
    obtain ⟨given, between, hgiven⟩ : ∃ given between, ask m state = (given, between) := ⟨_, _, rfl⟩
    cases given with
    | false =>
      rcases ih hrest hlater (i + 1) between with
        ⟨below, beside, after, hrun, hasked, hdescribed⟩ | ⟨type, huncopied, hrun⟩
      swap
      · exact .inr ⟨type, hfault huncopied, by rw [run_filterAll_refused hgiven, hrun]⟩
      refine .inl ⟨below, graft i false (fun _ => true) beside, after, ?_, ?_, fun k j => ?_⟩
      · rw [run_filterAll_refused hgiven, hrun]
      · rw [spotsAll_cons, spots_node hholds, filter_questioned_graft rfl hbelow hbeside]
        refine .cons ?_ (hasked.beside hbeside)
        rw [Spot.place_under, graft_self]
        exact hgiven
      · rw [spotsAll_cons, filter_accepted_graft hbeside]
        exact hdescribed k j
    | true =>
      rcases hfirst (some i) (some n) between with
        ⟨first, under, middle, hfirstrun, hfirstasked, hfirstdescribed⟩ | ⟨type, huncopied, hfirstrun⟩
      swap
      · refine .inr ⟨type, ?_, run_filterAll_first_fails hgiven hfirstrun⟩
        rw [spotsAll_cons]
        exact (huncopied.under i).mono (List.subset_append_left _ _)
      rcases ih hrest hlater (i + 1) middle with
        ⟨below, beside, after, hrun, hasked, hdescribed⟩ | ⟨type, huncopied, hrun⟩
      swap
      · exact .inr ⟨type, hfault huncopied, run_filterAll_rest_fails hgiven hfirstrun hrun⟩
      refine .inl ⟨first :: below, graft i true under beside, after, ?_, ?_, fun k j => ?_⟩
      · exact run_filterAll_accepted hgiven hfirstrun hrun
      · rw [spotsAll_cons, spots_node hholds, filter_questioned_graft rfl hbelow hbeside]
        rw [spots_node hholds] at hfirstasked
        refine .cons ?_ ((hfirstasked.beneath rfl hbelow).append (hasked.beside hbeside))
        rw [Spot.place_under, graft_self]
        exact hgiven
      · rw [spotsAll_cons, spotsAll_cons, filter_accepted_graft hbeside, List.map_append, List.map_append,
          described_under, hfirstdescribed, hdescribed, if_pos rfl, described_under]

/-- What filtering a valid tree comes to. -/
theorem filters (ask : Node → σ → Bool × σ) {tree : Value} (h : Every Checked tree) : Filters ask tree := by
  induction h with
  | @node n cs hholds hn hcs ih =>
    intro index parent state
    rcases filterAll_filters hcs ih n 0 state with
      ⟨below, verdict, after, hrun, hasked, hdescribed⟩ | ⟨type, huncopied, hrun⟩
    swap
    · refine .inr ⟨type, ?_, ?_⟩
      · rw [spots_node hholds]
        exact huncopied.mono (List.subset_cons_self _ _)
      · rw [filter_node _ hholds hn.toSound, StateT.run_bind, hrun]
        rfl
    rcases hn.variant.copying with hcopy | ⟨type, hcopy⟩
    swap
    · refine .inr ⟨type, ⟨⟨[], n, index, parent⟩, ?_, hcopy⟩, ?_⟩
      · rw [spots_node hholds]
        exact List.mem_cons_self
      · rw [filter_node _ hholds hn.toSound, StateT.run_bind, hrun, hcopy]
        rfl
    left
    have hfield : Holds (listField n.children below) below := by
      refine hholds.listField ?_
      rintro rfl
      exact (Prod.mk.inj (Except.ok.inj hrun)).1.symm
    refine ⟨.node { n with children := listField n.children below }, verdict, after, ?_, ?_,
      fun index' parent' => ?_⟩
    · rw [filter_node _ hholds hn.toSound, StateT.run_bind, hrun, hcopy]
      rfl
    · rw [spots_node hholds]
      exact hasked
    · rw [spots_node hfield, spots_node hholds, List.map_cons, hdescribed]
      rfl

end Verdicts

/-- A predicate that refuses the second node it is asked about. -/
def butSecond (_ : Node) (count : Nat) : Bool × Nat := (count != 1, count + 1)

/-- A text, a list of a text, and a text. -/
def threeTexts : Value :=
  .node (NodeOf.parent "root" [.node (NodeOf.literal "text" "a" .none),
    .node (NodeOf.parent "list" [.node (NodeOf.literal "text" "a" .none)] .none),
    .node (NodeOf.literal "text" "a" .none)] .none)

theorem canCopy_threeTexts : Every (fun n => n.data.CanCopy) threeTexts := by
  have htext : Every (fun n => n.data.CanCopy) (.node (NodeOf.literal "text" "a" .none)) :=
    .node .absent .none (by simp)
  have hlist : Every (fun n => n.data.CanCopy)
      (.node (NodeOf.parent "list" [.node (NodeOf.literal "text" "a" .none)] .none)) :=
    .node (.list _) .none (by simpa using htext)
  exact .node (.list _) .none (by simpa using ⟨htext, hlist, htext⟩)

example : (filter (asking butSecond) threeTexts).run 0 =
    .ok (.node (NodeOf.parent "root" [.node (NodeOf.literal "text" "a" .none),
      .node (NodeOf.literal "text" "a" .none)] .none), 3) := by cbv

end Tree

end TextPipeline
