import TextPipeline.Proofs.Pruning
import TextPipeline.Proofs.Spots

/-! A visit that changes nothing. Which calls it makes is said of the spots of the tree, all at once: those
below a spot whose node is selected and answered with a skip are left out, the selected ones of the rest are
called on, and the calls end with the first that is answered with an exit. A part of the tree makes the same
calls wherever it stands, and parts side by side do not skip anything of each other, which is how the visit
comes to the same calls by recursion. -/

namespace TextPipeline.Tree

/-- The elements up to the first that fulfils a condition, with that one. -/
def upTo {α : Type} (p : α → Bool) : List α → List α
  | [] => []
  | a :: rest => if p a then [a] else a :: upTo p rest

theorem any_upTo {α : Type} (p : α → Bool) (l : List α) : (upTo p l).any p = l.any p := by
  induction l with
  | nil => rfl
  | cons a l ih =>
    rw [upTo]
    split <;> simp [*]

theorem upTo_append {α : Type} (p : α → Bool) (l l' : List α) :
    upTo p (l ++ l') = if l.any p then upTo p l else l ++ upTo p l' := by
  induction l with
  | nil => rfl
  | cons a l ih =>
    rw [List.cons_append, upTo, upTo, ih, List.any_cons]
    cases p a
    · cases l.any p <;> rfl
    · rfl

theorem upTo_prefix {α : Type} (p : α → Bool) (l : List α) : upTo p l <+: l := by
  induction l with
  | nil => exact List.prefix_rfl
  | cons a l ih =>
    rw [upTo]
    split
    · exact List.cons_prefix_cons.mpr ⟨rfl, List.nil_prefix⟩
    · exact List.cons_prefix_cons.mpr ⟨rfl, ih⟩

theorem upTo_eq_self {α : Type} {p : α → Bool} {l : List α} (h : l.any p = false) : upTo p l = l := by
  have happend := upTo_append p l []
  rwa [h, if_neg Bool.false_ne_true, upTo, List.append_nil] at happend

namespace Test

/-- Whether a test says of a node if it is selected. -/
def Answers (test : Test) (n : Node) : Prop := ∃ selected, test.holds n = .ok selected

/-- Whether a test selects a node. -/
def selects (test : Test) (n : Node) : Bool :=
  match test.holds n with
  | .ok selected => selected
  | .error _ => false

variable {test : Test} {n : Node}

theorem Answers.holds (h : test.Answers n) : test.holds n = .ok (test.selects n) := by
  obtain ⟨selected, h⟩ := h
  rw [selects, h]

/-- Of a sound node every test says whether it is selected, if a predicate says so of every node. -/
theorem answers_of_sound (hpredicate : ∀ p, test = .predicate p → ∀ n, ∃ selected, p n = .ok selected)
    (h : Sound n) : test.Answers n := by
  cases test with
  | all => exact ⟨true, rfl⟩
  | type name => exact ⟨n.hasType name, rfl⟩
  | types names =>
    obtain ⟨t, -, ht⟩ := h.type
    exact ⟨n.type.among names, by rw [Test.holds, ht]; rfl⟩
  | predicate p => exact hpredicate p rfl n

end Test

section Calls

variable (test : Test) (answer : Visit → Value)

/-- A visitor that changes nothing. It notes every call in its state and answers it, and its answer may
depend on the node, its number and its parent. -/
def watcher {σ : Type} (note : σ → Visit → σ) : Visitor σ where
  test := test
  call index parent site state :=
    let visit : Visit := ⟨.node site.node, parent, index⟩
    (site, note state visit, .ofValue (answer visit))

/-- Whether a call is answered so that the visit ends. -/
def exits (visit : Visit) : Bool := (answer visit).equals (.str "exit")

/-- Whether a call is made at a spot, and answered so that the visit goes on behind all that is below. -/
def Spot.skips (s : Spot) : Bool := test.selects s.node && (answer s.visit).equals (.str "skip")

/-- The spots of some that none of them skips. -/
def unskipped (all : List Spot) : List Spot :=
  all.filter fun s => !all.any fun t => t.skips test answer && t.above s

/-- The calls to be made at some spots. -/
def called (all : List Spot) : List Visit :=
  ((unskipped test answer all).filter fun s => test.selects s.node).map Spot.visit

/-- The calls that a visit of a tree makes. -/
def calls (reverse : Bool) (tree : Value) : List Visit :=
  upTo (exits answer) (called test answer (spots reverse none none tree))

end Calls

section Called

variable {test : Test} {answer : Visit → Value}

/-- Nothing skips the root, which may skip all that is below. -/
theorem unskipped_root {s : Spot} {below : List Spot} (hs : s.place = [])
    (h : ∀ t ∈ below, t.place ≠ []) : unskipped test answer (s :: below) =
      s :: (if s.skips test answer then [] else unskipped test answer below) := by
  have hroot : ((s :: below).any fun t => t.skips test answer && t.above s) = false :=
    List.any_eq_false.mpr fun t _ => by simp [Spot.not_above_root hs]
  rw [unskipped, List.filter_cons_of_pos (by rw [hroot]; rfl)]
  cases hskips : s.skips test answer with
  | true =>
    rw [if_pos rfl, List.filter_eq_nil_iff.mpr fun t ht => ?_]
    simp [hskips, Spot.root_above hs (h t ht)]
  | false =>
    rw [if_neg Bool.false_ne_true, unskipped]
    simp only [List.any_cons, hskips, Bool.false_and, Bool.false_or]

/-- Spots side by side skip nothing of each other. -/
theorem unskipped_append {l l' : List Spot}
    (h : ∀ s ∈ l, ∀ t ∈ l', s.above t = false ∧ t.above s = false) :
    unskipped test answer (l ++ l') = unskipped test answer l ++ unskipped test answer l' := by
  have hl : ∀ s ∈ l, (l'.any fun t => t.skips test answer && t.above s) = false := fun s hs =>
    List.any_eq_false.mpr fun t ht => by simp [(h s hs t ht).2]
  have hl' : ∀ t ∈ l', (l.any fun s => s.skips test answer && s.above t) = false := fun t ht =>
    List.any_eq_false.mpr fun s hs => by simp [(h s hs t ht).1]
  rw [unskipped, List.filter_append]
  congr 1
  · exact List.filter_congr fun s hs => by rw [List.any_append, hl s hs, Bool.or_false]
  · exact List.filter_congr fun t ht => by rw [List.any_append, hl' t ht, Bool.false_or]

theorem called_root {s : Spot} {below : List Spot} (hs : s.place = []) (h : ∀ t ∈ below, t.place ≠ []) :
    called test answer (s :: below) = (if test.selects s.node then [s.visit] else []) ++
      (if s.skips test answer then [] else called test answer below) := by
  rw [called, unskipped_root hs h, List.filter_cons, called]
  cases test.selects s.node <;> cases s.skips test answer <;> rfl

theorem called_append {l l' : List Spot}
    (h : ∀ s ∈ l, ∀ t ∈ l', s.above t = false ∧ t.above s = false) :
    called test answer (l ++ l') = called test answer l ++ called test answer l' := by
  rw [called, unskipped_append h, List.filter_append, List.map_append]
  rfl

/-- A part of a tree makes the calls that it makes on its own. -/
theorem called_under (i : Nat) (l : List Spot) :
    called test answer (l.map (.under i)) = called test answer l := by
  simp only [called, unskipped, List.filter_map, List.any_map, List.map_map, Function.comp_def, Spot.skips,
    Spot.node_under, Spot.visit_under, Spot.above_under]

variable {n : Node} {cs : List Value}

theorem called_apart {reverse : Bool} {i k : Nat} {l : List Spot} (hk : k < i ∨ i + cs.length ≤ k) :
    ∀ s ∈ l.map (Spot.under k), ∀ t ∈ spotsAll reverse n i cs, s.above t = false ∧ t.above s = false := by
  intro s hs t ht
  obtain ⟨u, -, rfl⟩ := List.mem_map.mp hs
  obtain ⟨j, p, hplace, hle, hlt⟩ := place_of_mem_spotsAll ht
  have hhead : (u.under k).place.head? ≠ t.place.head? := by
    rw [hplace, Spot.place_under, List.head?_cons, List.head?_cons]
    intro heq
    obtain rfl := Option.some.inj heq
    omega
  exact ⟨Spot.not_above hhead (List.cons_ne_nil _ _),
    Spot.not_above hhead.symm (place_ne_nil_of_mem_spotsAll ht)⟩

theorem called_cons (i : Nat) (c : Value) : called test answer (spotsAll false n i (c :: cs)) =
    called test answer (spots false (some i) (some n) c) ++
      called test answer (spotsAll false n (i + 1) cs) := by
  rw [spotsAll_cons, called_append (called_apart (.inl (by omega))), called_under]

theorem called_concat (c : Value) : called test answer (spotsAll true n 0 (cs ++ [c])) =
    called test answer (spots true (some cs.length) (some n) c) ++
      called test answer (spotsAll true n 0 cs) := by
  rw [spotsAll_concat, called_append (called_apart (.inr (by omega))), called_under, Nat.zero_add]

end Called

section Ran

variable {α σ : Type} (answer : Visit → Value) (note : σ → Visit → σ) (seen : α)

/-- What a visit comes to that is to make some calls and leaves a thing as it was. -/
def ran (visits : List Visit) (state : σ) : Progress α σ :=
  ⟨seen, (upTo (exits answer) visits).foldl note state,
    if visits.any (exits answer) then some .stopped else none⟩

theorem ran_append (l l' : List Visit) (state : σ) : ran answer note seen (l ++ l') state =
    if l.any (exits answer) then ran answer note seen l state
    else ran answer note seen l' (l.foldl note state) := by
  rw [ran, upTo_append, List.any_append]
  cases hany : l.any (exits answer) with
  | true => simp [ran, hany]
  | false => simp [ran]

theorem ran_cons_of_exits {visit : Visit} (h : exits answer visit = true) (l : List Visit) (state : σ) :
    ran answer note seen (visit :: l) state = ⟨seen, note state visit, some .stopped⟩ := by
  simp [ran, upTo, h]

theorem ran_cons {visit : Visit} (h : exits answer visit = false) (l : List Visit) (state : σ) :
    ran answer note seen (visit :: l) state = ran answer note seen l (note state visit) := by
  simp [ran, upTo, h]

end Ran

section Visit

variable {σ : Type} {test : Test} {answer : Visit → Value} {note : σ → Visit → σ} {reverse : Bool}

/-- A visit of a node's children that makes the calls it should. -/
def CallsBelow (test : Test) (answer : Visit → Value) (note : σ → Visit → σ) (reverse : Bool) (fuel : Nat)
    (m : Node) (cs : List Value) : Prop :=
  ∀ state, visitChildren (watcher test answer note) reverse fuel
      (if reverse then (cs.length : Int) - 1 else 0) m state =
    ran answer note m (called test answer (spotsAll reverse m 0 cs)) state

/-- The visit of a node, once that of its children makes the calls it should. -/
theorem visitSite_calls {m : Node} {cs : List Value} (hholds : Holds m.children cs)
    (hanswers : test.Answers m) {fuel : Nat} (hbelow : CallsBelow test answer note reverse fuel m cs)
    (index : Option Nat) (parent : Option Node) (siblings : Value) (focus : Option Nat) (state : σ) :
    visitSite (watcher test answer note) reverse (fuel + 1) index parent ⟨siblings, focus, m⟩ state =
      ran answer note ⟨siblings, focus, m⟩
        (called test answer (spots reverse index parent (.node m))) state := by
  have htest : (watcher test answer note).test.holds m = .ok (test.selects m) := hanswers.holds
  have hcall (state : σ) : (watcher test answer note).call index parent ⟨siblings, focus, m⟩ state =
    (⟨siblings, focus, m⟩, note state ⟨.node m, parent, index⟩,
      .ofValue (answer ⟨.node m, parent, index⟩)) := rfl
  have hcalled : called test answer (spots reverse index parent (.node m)) =
      (if test.selects m then [⟨.node m, parent, index⟩] else []) ++
        (if test.selects m && (answer ⟨.node m, parent, index⟩).equals (.str "skip") then []
          else called test answer (spotsAll reverse m 0 cs)) := by
    rw [spots_node hholds]
    exact called_root rfl fun t ht => place_ne_nil_of_mem_spotsAll ht
  rw [hcalled]
  cases hselects : test.selects m with
  | false =>
    rw [hselects] at htest
    rw [visitSite, htest]
    simp only [Bool.false_eq_true, if_false, Bool.false_and, List.nil_append, hholds.width, hbelow state]
    rfl
  | true =>
    rw [hselects] at htest
    rw [visitSite, htest]
    simp only [if_true, Bool.true_and, hcall, List.singleton_append]
    cases hexits : exits answer ⟨.node m, parent, index⟩ with
    | true =>
      have hverdict : Verdict.ofValue (answer ⟨.node m, parent, index⟩) = .stop := if_pos hexits
      rw [hverdict, ran_cons_of_exits _ _ _ hexits]
    | false =>
      rw [ran_cons _ _ _ hexits]
      rw [exits] at hexits
      cases hskips : (answer ⟨.node m, parent, index⟩).equals (.str "skip") with
      | true =>
        have hverdict : Verdict.ofValue (answer ⟨.node m, parent, index⟩) = .skip := by
          simp [Verdict.ofValue, hexits, hskips]
        rw [hverdict]
        rfl
      | false =>
        have hverdict : Verdict.ofValue (answer ⟨.node m, parent, index⟩) = .proceed := by
          simp [Verdict.ofValue, hexits, hskips]
        rw [hverdict]
        simp only [hholds.width, hbelow (note state ⟨.node m, parent, index⟩)]
        rfl

/-- A node whose visit makes the calls that it should, given enough fuel. -/
def Watchable (test : Test) (answer : Visit → Value) (note : σ → Visit → σ) (reverse : Bool)
    (c : Value) : Prop :=
  ∃ m, c = .node m ∧ ∀ fuel, 2 * size c ≤ fuel → ∀ index parent siblings focus state,
    visitSite (watcher test answer note) reverse fuel index parent ⟨siblings, focus, m⟩ state =
      ran answer note ⟨siblings, focus, m⟩ (called test answer (spots reverse index parent c)) state

/-- One step among the children of a node: the visit ends with the child, or goes on behind it. -/
theorem visitChildren_calls {row : List Value → Value} (hrow : Row row) {n : Node} {cs ds : List Value}
    {c : Value} (hn : n.children = row (cs ++ c :: ds)) (h : Watchable test answer note reverse c)
    {fuel : Nat} (hfuel : 2 * size c ≤ fuel) (state : σ) :
    visitChildren (watcher test answer note) reverse (fuel + 1) cs.length n state =
      let visits := called test answer (spots reverse (some cs.length) (some n) c)
      if visits.any (exits answer) then ran answer note n visits state
      else visitChildren (watcher test answer note) reverse fuel (advance reverse cs.length) n
        (visits.foldl note state) := by
  obtain ⟨m, rfl, hvisit⟩ := h
  have hclose : { n with children := row (cs ++ .node m :: ds) } = n := by rw [← hn]
  rw [visitChildren, hrow.nextChild_some hn, Int.toNat_natCast]
  dsimp only
  rw [hvisit fuel hfuel, hn]
  dsimp only [ran]
  rw [hrow.close, hclose]
  cases hany : (called test answer (spots reverse (some cs.length) (some n) (.node m))).any
      (exits answer) with
  | true => rfl
  | false =>
    rw [upTo_eq_self hany]
    rfl

/-- A visit of children from the first on. -/
theorem visitChildren_calls_forward {row : List Value → Value} (hrow : Row row) {cs : List Value}
    (h : ∀ c ∈ cs, Watchable test answer note false c) (before : List Value) {n : Node}
    (hn : n.children = row (before ++ cs)) {fuel : Nat} (hfuel : 2 * sizeAll cs + 1 ≤ fuel) (state : σ) :
    visitChildren (watcher test answer note) false fuel before.length n state =
      ran answer note n (called test answer (spotsAll false n before.length cs)) state := by
  obtain ⟨fuel, rfl⟩ : ∃ g, fuel = g + 1 := ⟨fuel - 1, by omega⟩
  induction cs generalizing before fuel state with
  | nil =>
    have hend : nextChild n before.length = .ok none := hrow.nextChild_none hn (.inr (by simp))
    rw [visitChildren, hend, spotsAll]
    rfl
  | cons c cs ih =>
    obtain ⟨hc, hcs⟩ := List.forall_mem_cons.mp h
    have hsize := size_pos c
    rw [sizeAll] at hfuel
    obtain ⟨fuel, rfl⟩ : ∃ g, fuel = g + 1 := ⟨fuel - 1, by omega⟩
    have hnext : n.children = row ((before ++ [c]) ++ cs) := by
      rw [hn, List.append_assoc, List.singleton_append]
    have hlater : 2 * sizeAll cs + 1 ≤ fuel + 1 := by omega
    have hrest (between : σ) := ih hcs (before ++ [c]) hnext between fuel hlater
    rw [List.length_append, List.length_singleton] at hrest
    rw [visitChildren_calls hrow hn hc (by omega), called_cons, ran_append, ← hrest]
    rfl

/-- A visit of children from the last on. -/
theorem visitChildren_calls_reverse {row : List Value → Value} (hrow : Row row) {cs : List Value}
    (h : ∀ c ∈ cs, Watchable test answer note true c) (behind : List Value) {n : Node}
    (hn : n.children = row (cs ++ behind)) {fuel : Nat} (hfuel : 2 * sizeAll cs + 1 ≤ fuel) (state : σ) :
    visitChildren (watcher test answer note) true fuel ((cs.length : Int) - 1) n state =
      ran answer note n (called test answer (spotsAll true n 0 cs)) state := by
  obtain ⟨fuel, rfl⟩ : ∃ g, fuel = g + 1 := ⟨fuel - 1, by omega⟩
  induction cs using List.reverseRecOn generalizing behind fuel state with
  | nil =>
    have hend : nextChild n (([] : List Value).length - 1 : Int) = .ok none :=
      hrow.nextChild_none hn (.inl (by simp))
    rw [visitChildren, hend, spotsAll]
    rfl
  | append_singleton cs c ih =>
    have hc := h c (by simp)
    have hcs : ∀ c ∈ cs, Watchable test answer note true c := fun c hc => h c (by simp [hc])
    have hsize := size_pos c
    rw [sizeAll_concat] at hfuel
    obtain ⟨fuel, rfl⟩ : ∃ g, fuel = g + 1 := ⟨fuel - 1, by omega⟩
    rw [List.append_assoc, List.singleton_append] at hn
    have hstart : ((cs ++ [c]).length : Int) - 1 = cs.length := by
      rw [List.length_append, List.length_singleton]
      omega
    have hlater : 2 * sizeAll cs + 1 ≤ fuel + 1 := by omega
    have hrest (between : σ) := ih hcs (c :: behind) hn between fuel hlater
    rw [hstart, visitChildren_calls hrow hn hc (by omega), called_concat, ran_append, ← hrest]
    rfl

/-- A visit of children in either direction. -/
theorem callsBelow_of_row {row : List Value → Value} (hrow : Row row) {n : Node} {cs : List Value}
    (hn : n.children = row cs) (h : ∀ c ∈ cs, Watchable test answer note reverse c) {fuel : Nat}
    (hfuel : 2 * sizeAll cs + 1 ≤ fuel) : CallsBelow test answer note reverse fuel n cs := by
  intro state
  cases reverse with
  | false => exact visitChildren_calls_forward hrow h [] hn hfuel state
  | true =>
    have hlast : n.children = row (cs ++ []) := by rw [hn, List.append_nil]
    exact visitChildren_calls_reverse hrow h [] hlast hfuel state

theorem callsBelow_of_nil {n : Node} (h : Holds n.children []) {fuel : Nat} (hfuel : 1 ≤ fuel) :
    CallsBelow test answer note reverse fuel n [] := by
  intro state
  obtain ⟨fuel, rfl⟩ : ∃ g, fuel = g + 1 := ⟨fuel - 1, by omega⟩
  have hend : nextChild n (if reverse then ((0 : Nat) : Int) - 1 else 0) = .ok none := by
    refine h.nextChild_none ?_
    cases reverse <;> simp
  rw [visitChildren, List.length_nil, hend, spotsAll]
  rfl

theorem watchable (test : Test) (answer : Visit → Value) (note : σ → Visit → σ) (reverse : Bool)
    {tree : Value} (h : Every test.Answers tree) : Watchable test answer note reverse tree := by
  induction h with
  | @node n cs hholds hn hcs ih =>
    refine ⟨n, rfl, fun fuel hfuel => ?_⟩
    have hpositive := size_pos (.node n)
    obtain ⟨fuel, rfl⟩ : ∃ g, fuel = g + 1 := ⟨fuel - 1, by omega⟩
    refine visitSite_calls hholds hn ?_
    obtain ⟨t, field, v, d, p⟩ := n
    cases hholds with
    | list =>
      rw [size] at hfuel
      exact callsBelow_of_row .list rfl ih (by omega)
    | sequence kind =>
      rw [size] at hfuel
      exact callsBelow_of_row (.sequence kind) rfl ih (by omega)
    | absent => exact callsBelow_of_nil .absent (by omega)
    | set => exact callsBelow_of_nil .set (by omega)
    | mapping kind => exact callsBelow_of_nil (.mapping kind) (by omega)
    | str => exact callsBelow_of_nil .str (by omega)
    | bytes => exact callsBelow_of_nil .bytes (by omega)

/-- The calls that a visit makes which changes nothing. -/
theorem visit_calls (test : Test) (answer : Visit → Value) (note : σ → Visit → σ) (reverse : Bool)
    {tree : Value} (h : Every test.Answers tree) (state : σ) :
    visit (watcher test answer note) reverse tree state =
      ⟨tree, (calls test answer reverse tree).foldl note state,
        if (calls test answer reverse tree).any (exits answer) then some .stopped else none⟩ := by
  obtain ⟨n, rfl, hvisit⟩ := watchable test answer note reverse h
  rw [visit, hvisit _ (Nat.le_add_right _ _), calls, any_upTo]
  rfl

end Visit

namespace Outline

/-- A word of an outline. -/
def word (text : String) : Value := .node (NodeOf.literal "word" text .none)

/-- An item of one word. -/
def item : Node := NodeOf.parent "item" [word "c"] .none

/-- A list of a word and an item. -/
def listing : Node := NodeOf.parent "list" [word "b", .node item] .none

/-- A note of one word. -/
def remark : Node := NodeOf.parent "note" [word "d"] .none

/-- An outline of a word, a list and a note. -/
def outline : Node := NodeOf.parent "outline" [word "a", .node listing, .node remark] .none

/-- The test that selects words and notes. -/
def wordOrNote : Test := .types [.str "word", .str "note"]

/-- The answer that skips what is below a note and ends the visit at the word `b`. -/
def untilB (visit : Visit) : Value :=
  match visit.node with
  | .node ⟨.str "note", _, _, _, _⟩ => .str "skip"
  | .node ⟨_, _, .str "b", _, _⟩ => .str "exit"
  | _ => .none

theorem answers_outline : Every wordOrNote.Answers (.node outline) := by
  have hvalid : validate "outline" (.node outline) = .ok () := rfl
  exact (every_checked hvalid).mono fun n hn => Test.answers_of_sound (fun p hp => by cases hp) hn.toSound

/-- In reverse, the word of the note is skipped, the list is passed although it is not selected, and the
first word is not come to. -/
theorem visit_calls_outline :
    visit (watcher wordOrNote untilB fun seen visit => seen ++ [visit]) true (.node outline) [] =
      ⟨.node outline, [⟨.node remark, some outline, some 2⟩, ⟨word "c", some item, some 0⟩,
        ⟨word "b", some listing, some 0⟩], some .stopped⟩ := by
  have hcalls : calls wordOrNote untilB true (.node outline) =
      [⟨.node remark, some outline, some 2⟩, ⟨word "c", some item, some 0⟩,
        ⟨word "b", some listing, some 0⟩] := by cbv
  have hexits : (calls wordOrNote untilB true (.node outline)).any (exits untilB) = true := by cbv
  rw [visit_calls wordOrNote untilB _ true answers_outline, hexits, hcalls]
  rfl

end Outline

end TextPipeline.Tree
