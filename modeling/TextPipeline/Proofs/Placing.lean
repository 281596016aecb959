import Mathlib.Data.List.DropRight
import TextPipeline.Proofs.Describing
import TextPipeline.Proofs.Recomposition

/-! Positions in plain text. A search among the starts of lines gives the line and the column that
counting gives, and the position of each node of a text's tree is the stretch of the text that its
literals join to. -/

namespace TextPipeline.Grammar

/-- A search ends where the numbers end that are not above the one sought. -/
theorem bisectRight_eq {xs : Array Nat} {x k : Nat} (hbelow : ∀ i, i < k → xs.getD i 0 ≤ x)
    (habove : ∀ i, k ≤ i → i < xs.size → x < xs.getD i 0) {lo hi : Nat} (hlo : lo ≤ k) (hhi : k ≤ hi)
    (hsize : hi ≤ xs.size) : bisectRight xs x lo hi = k := by
  fun_induction bisectRight xs x lo hi with
  | case1 lo hi h mid hx ih =>
    have hk : k ≤ mid := by
      by_contra hmid
      have := hbelow mid (by omega)
      omega
    exact ih hlo hk (by omega)
  | case2 lo hi h mid hx ih =>
    have hk : mid < k := by
      by_contra hmid
      exact hx (habove mid (by omega) (by omega))
    exact ih hk hhi hsize
  | case3 lo hi h => omega

theorem lineEnds_append (offset : Nat) (a b : List Char) :
    lineEnds offset (a ++ b) = lineEnds offset a ++ lineEnds (offset + a.length) b := by
  induction a generalizing offset with
  | nil => rfl
  | cons c a ih =>
    have hlength : offset + (c :: a).length = offset + 1 + a.length := by
      rw [List.length_cons]
      omega
    rw [List.cons_append, lineEnds, lineEnds, ih, hlength]
    split <;> rfl

theorem lineEnds_bounds {offset : Nat} {s : List Char} {stop : Nat} (h : stop ∈ lineEnds offset s) :
    offset < stop ∧ stop ≤ offset + s.length := by
  induction s generalizing offset with
  | nil => simp [lineEnds] at h
  | cons c s ih =>
    rw [List.length_cons]
    rw [lineEnds] at h
    split at h
    · rcases List.mem_cons.mp h with rfl | h
      · omega
      · have := ih h
        omega
    · have := ih h
      omega

theorem length_lineEnds (offset : Nat) (s : List Char) :
    (lineEnds offset s).length = s.count '\n' := by
  induction s generalizing offset with
  | nil => rfl
  | cons c s ih =>
    rw [lineEnds, List.count_cons]
    split <;> simp [ih]

/-- The last line of a text starts where the characters after its last line feed do. -/
theorem getLast_lineEnds (s : List Char) :
    (0 :: lineEnds 0 s).getLast? = some (s.length - (s.rtakeWhile (· != '\n')).length) := by
  induction s using List.reverseRecOn with
  | nil => rfl
  | append_singleton s c ih =>
    have hends : 0 :: lineEnds 0 (s ++ [c]) = (0 :: lineEnds 0 s) ++ lineEnds s.length [c] := by
      rw [lineEnds_append, Nat.zero_add, List.cons_append]
    rw [hends, List.rtakeWhile_concat, List.length_append, List.length_singleton, lineEnds, lineEnds]
    by_cases hc : c = '\n'
    · simp only [hc, beq_self_eq_true, if_true, bne_self_eq_false, Bool.false_eq_true, if_false,
        List.length_nil, Nat.sub_zero]
      exact List.getLast?_concat
    · have hle : (s.rtakeWhile (· != '\n')).length ≤ s.length :=
        (List.rtakeWhile_suffix _ s).length_le
      simp only [beq_iff_eq, hc, if_false, List.append_nil, ih, bne_iff_ne, ne_eq, not_false_iff,
        if_true, List.length_append, List.length_singleton]
      congr 1
      omega

/-- The place at an offset as it is counted: one line more than there are line feeds before it, and one
column more than there are characters since the last of them. -/
def countedPoint (s : List Char) (offset : Nat) : Point :=
  ⟨.nat (1 + (s.take offset).count '\n'),
    .nat (1 + ((s.take offset).rtakeWhile (· != '\n')).length), .nat offset⟩

/-- The place that is found is the one that is counted. -/
theorem Locator.point_ofText {s : List Char} {offset : Nat} (h : offset ≤ s.length) :
    (Locator.ofText s).point offset = countedPoint s offset := by
  obtain ⟨a, ha⟩ : ∃ a, a = s.take offset := ⟨_, rfl⟩
  obtain ⟨xs, hxs⟩ : ∃ xs, xs = (Locator.ofText s).lineStarts := ⟨_, rfl⟩
  have hlength : a.length = offset := by
    rw [ha, List.length_take]
    omega
  -- the starts of lines up to the offset, and those beyond it
  have hstarts : xs.toList = (0 :: lineEnds 0 a) ++ lineEnds offset (s.drop offset) := by
    have hends : lineEnds 0 s = lineEnds 0 a ++ lineEnds offset (s.drop offset) := by
      conv => lhs; rw [← List.take_append_drop offset s, ← ha, lineEnds_append, hlength, Nat.zero_add]
    rw [hxs, List.cons_append, ← hends]
    rfl
  have hcount : (0 :: lineEnds 0 a).length = a.count '\n' + 1 := by
    rw [List.length_cons, length_lineEnds]
  have hget (i : Nat) : xs.getD i 0 = xs.toList[i]?.getD 0 := by
    rw [Array.getD_eq_getD_getElem?, Array.getElem?_toList]
  have hbelow : ∀ i, i < a.count '\n' + 1 → xs.getD i 0 ≤ offset := by
    intro i hi
    have hshort : i < (0 :: lineEnds 0 a).length := by omega
    rw [hget, hstarts, List.getElem?_append_left hshort, List.getElem?_eq_getElem hshort,
      Option.getD_some]
    rcases List.mem_cons.mp (List.getElem_mem hshort) with hzero | hend
    · omega
    · have := lineEnds_bounds hend
      omega
  have habove : ∀ i, a.count '\n' + 1 ≤ i → i < xs.size → offset < xs.getD i 0 := by
    intro i hi hsize
    have hlong : i - (0 :: lineEnds 0 a).length < (lineEnds offset (s.drop offset)).length := by
      rw [← Array.length_toList, hstarts, List.length_append] at hsize
      omega
    rw [hget, hstarts, List.getElem?_append_right (by omega), List.getElem?_eq_getElem hlong,
      Option.getD_some]
    exact (lineEnds_bounds (List.getElem_mem hlong)).1
  have hsize : a.count '\n' + 1 ≤ xs.size := by
    rw [← Array.length_toList, hstarts, List.length_append, hcount]
    omega
  have hindex : bisectRight xs offset 0 xs.size - 1 = a.count '\n' := by
    rw [bisectRight_eq hbelow habove (Nat.zero_le _) hsize (Nat.le_refl _), Nat.add_sub_cancel]
  have hlast : xs.getD (a.count '\n') 0 = offset - (a.rtakeWhile (· != '\n')).length := by
    have hend := getLast_lineEnds a
    rw [List.getLast?_eq_getElem?, hcount, Nat.add_sub_cancel, hlength] at hend
    rw [hget, hstarts, List.getElem?_append_left (by omega), hend, Option.getD_some]
  have hle : (a.rtakeWhile (· != '\n')).length ≤ offset := by
    rw [← hlength]
    exact (List.rtakeWhile_suffix _ a).length_le
  have hcolumn : offset - (offset - (a.rtakeWhile (· != '\n')).length) + 1 =
      1 + (a.rtakeWhile (· != '\n')).length := by omega
  rw [Locator.point, countedPoint, ← ha, ← hxs, hindex, hlast, hcolumn, Nat.add_comm (a.count '\n')]

end TextPipeline.Grammar

namespace TextPipeline.Tree

/-- The value of a literal. -/
def literalValue (n : Node) : Outcome (List Value) :=
  .ok (if n.isLiteral then [n.value] else [])

/-- A reading of nodes that gives the value of a literal and nothing of a parent. -/
structure ReadsLiterals (f : Node → Outcome (List Value)) : Prop where
  literal : ∀ type text position, f (NodeOf.literal type text position) = .ok [.str text]
  parent : ∀ type cs position, f (NodeOf.parent type cs position) = .ok []

theorem readsLiterals_literalValue : ReadsLiterals literalValue :=
  ⟨fun _ _ _ => rfl, fun _ _ _ => rfl⟩

theorem readsLiterals_kept : ReadsLiterals (Grammar.Plain.kept []) :=
  ⟨fun _ _ _ => rfl, fun _ _ _ => rfl⟩

/-- A tree of which these texts are read, in the order of a walk. -/
structure Literals (f : Node → Outcome (List Value)) (tree : Value) (pieces : List String) : Prop where
  isTree : IsTree tree
  collected : collect f tree = .ok (pieces.map .str)

section Literals

variable {f : Node → Outcome (List Value)}

theorem literals_literal (hf : ReadsLiterals f) (type text : String) (position : Value) :
    Literals f (.node (NodeOf.literal type text position)) [text] := by
  have htree : IsTree (.node (NodeOf.literal type text position)) := rfl
  exact ⟨htree, collect_node htree rfl (hf.literal type text position) rfl⟩

/-- The literals of a node without a value are those of its children. -/
theorem literals_parent (hf : ReadsLiterals f) {cs : List Value} {ps : List (List String)}
    (h : List.Forall₂ (Literals f) cs ps) (type : String) (position : Value) :
    Literals f (.node (NodeOf.parent type cs position)) ps.flatten := by
  have htrees : AreTrees cs := by
    induction h with
    | nil => trivial
    | cons hc _ ih => exact ⟨hc.isTree, ih⟩
  have hmade : cs.mapM (collect f) = .ok (ps.map (·.map .str)) := by
    clear htrees
    induction h with
    | nil => rfl
    | cons hc _ ih =>
      rw [List.mapM_cons, hc.collected, ih]
      rfl
  refine ⟨htrees, ?_⟩
  rw [collect_node (n := NodeOf.parent type cs position) htrees rfl (hf.parent type cs position) hmade,
    List.map_flatten]
  rfl

end Literals

theorem Literals.values {tree : Value} {pieces : List String} (h : Literals literalValue tree pieces) :
    literalValues [tree] = .ok (pieces.map .str) := by
  show (do
    let all ← [tree].mapM (collect literalValue)
    return all.flatten) = _
  rw [List.mapM_cons, h.collected]
  show Except.ok [pieces.map Value.str].flatten = _
  rw [List.flatten_singleton]

/-- The text of a tree is that of its literals, none of which is skipped. -/
theorem Literals.compile {tree : Value} {pieces : List String}
    (h : Literals (Grammar.Plain.kept []) tree pieces) :
    Grammar.Plain.compile [] tree = .ok (String.ofList (pieces.flatMap String.toList)) := by
  show (do joinTexts "" (← collect (Grammar.Plain.kept []) tree)) = _
  rw [h.collected, ← joinTexts_map_str]
  rfl

/-- A tree whose literals are texts that join to `t`. -/
structure Spells (tree : Value) (t : List Char) : Prop where
  isTree : IsTree tree
  pieces : ∃ pieces : List String, collect literalValue tree = .ok (pieces.map .str) ∧
    pieces.flatMap String.toList = t

theorem Literals.spells {tree : Value} {pieces : List String} (h : Literals literalValue tree pieces) :
    Spells tree (pieces.flatMap String.toList) :=
  ⟨h.isTree, pieces, h.collected, rfl⟩

theorem Spells.textOf {tree : Value} {t : List Char} (h : Spells tree t) :
    textOf tree = .ok (String.ofList t) := by
  obtain ⟨pieces, hcollect, rfl⟩ := h.pieces
  rw [Tree.textOf, textOfAll, Literals.values ⟨h.isTree, hcollect⟩, ← joinTexts_map_str]
  rfl

theorem spells_literal (type : String) (t : List Char) (position : Value) :
    Spells (.node (NodeOf.literal type (String.ofList t) position)) t := by
  simpa using (literals_literal readsLiterals_literalValue type (String.ofList t) position).spells

theorem spells_parent {cs : List Value} {ts : List (List Char)} (h : List.Forall₂ Spells cs ts)
    (type : String) (position : Value) :
    Spells (.node (NodeOf.parent type cs position)) ts.flatten := by
  obtain ⟨ps, hps, rfl⟩ : ∃ ps, List.Forall₂ (Literals literalValue) cs ps ∧
      ts = ps.map (·.flatMap String.toList) := by
    induction h with
    | nil => exact ⟨[], .nil, rfl⟩
    | cons hc _ ih =>
      obtain ⟨pieces, hcollect, rfl⟩ := hc.pieces
      obtain ⟨ps, hps, rfl⟩ := ih
      exact ⟨pieces :: ps, .cons ⟨hc.isTree, hcollect⟩ hps, rfl⟩
  have h := (literals_parent readsLiterals_literalValue hps type position).spells
  rwa [List.flatMap_def, List.map_flatten, List.flatten_flatten, List.map_map] at h

end TextPipeline.Tree

namespace TextPipeline.Grammar.Plain

open TextPipeline.Tree

/-- A node that covers the text between two offsets: its position leads from the one to the other, and its
literals join to what stands between them. -/
structure Covers (s : List Char) (i j : Nat) (n : Node) : Prop where
  le : i ≤ j
  le_length : j ≤ s.length
  position : n.position = .span (countedPoint s i) (countedPoint s j)
  text : textOf (.node n) = .ok (String.ofList (s.extract i j))

/-- What is so of every node of the tree of a text. -/
structure Stretched (s : List Char) (n : Node) : Prop where
  covers : ∃ i j, Covers s i j n
  /-- A paragraph and its text are in the same place. -/
  paragraph : n.type = .str "paragraph" →
    ∃ t, n.children = .list [.node t] ∧ t.type = .str "text" ∧ t.position = n.position

/-- Nodes that cover a text from `i` to `k`, each from where the one before it ends. -/
inductive Tiles (s : List Char) : Nat → Nat → List Value → Prop
  | nil (i : Nat) : Tiles s i i []
  | cons {i j k : Nat} {n : Node} {rest : List Value} : i < j → Covers s i j n → Tiles s j k rest →
      Tiles s i k (.node n :: rest)

theorem Covers.of_spells {s : List Char} {i j : Nat} {n : Node} (hle : i ≤ j) (hlength : j ≤ s.length)
    (hposition : n.position = located (some (.ofText s)) i j)
    (hspells : Spells (.node n) (s.extract i j)) : Covers s i j n := by
  refine ⟨hle, hlength, ?_, hspells.textOf⟩
  rw [hposition, located, Locator.position, Locator.point_ofText (by omega),
    Locator.point_ofText hlength]

theorem extract_append (before t after : List Char) :
    (before ++ t ++ after).extract before.length (before.length + t.length) = t := by
  rw [List.extract_eq_take_drop, List.append_assoc, List.drop_left, Nat.add_sub_cancel_left, List.take_left]

section

variable {s before after : List Char} {c : Chunk}

theorem spells_chunkNode (c : Chunk) (position : Value) :
    Spells (.node (chunkNode c position)) c.text := by
  cases c with
  | separator w => exact spells_literal _ w position
  | paragraph t =>
    have h := spells_parent (.cons (spells_literal "text" t position) .nil) "paragraph" position
    rwa [List.flatten_singleton] at h

theorem StandsFor.literals {f : Node → Outcome (List Value)} (hf : ReadsLiterals f) {v : Value}
    (h : StandsFor c v) : Literals f v [String.ofList c.text] := by
  cases h with
  | separator w position => exact literals_literal hf "whitespace" (String.ofList w) position
  | paragraph t position =>
    have h := literals_parent hf (.cons (literals_literal hf "text" (String.ofList t) position) .nil)
      "paragraph" position
    rwa [List.flatten_singleton] at h

/-- The literals of a root are the chunks that its children stand for. -/
theorem literals_root {f : Node → Outcome (List Value)} (hf : ReadsLiterals f) {cs : List Chunk}
    {children : List Value} (h : List.Forall₂ StandsFor cs children) (position : Value) :
    Literals f (.node (NodeOf.parent "root" children position))
      (cs.map fun c => String.ofList c.text) := by
  have hall : List.Forall₂ (Literals f) children (cs.map fun c => [String.ofList c.text]) := by
    induction h with
    | nil => exact .nil
    | cons hc _ ih => exact .cons (hc.literals hf) ih
  have h := literals_parent hf hall "root" position
  have hflatten (ds : List Chunk) :
      (ds.map fun c => [String.ofList c.text]).flatten = ds.map fun c => String.ofList c.text := by
    induction ds with
    | nil => rfl
    | cons d ds ih => rw [List.map_cons, List.flatten_cons, ih]; rfl
  rwa [hflatten] at h

/-- The literals of the tree of a text. -/
theorem literals_parse {f : Node → Outcome (List Value)} (hf : ReadsLiterals f)
    (paragraphs positions : Bool) (s : List Char) :
    Literals f (.node (parse paragraphs positions s))
      (if paragraphs then (chunks s).map fun c => String.ofList c.text
      else if s.isEmpty then [] else [String.ofList s]) := by
  rw [parse]
  unfold childNodes
  split
  · exact literals_root hf (standsFor_chunkNodes _ _ _) _
  · split
    · exact literals_parent hf .nil "root" _
    · exact literals_parent hf (.cons (literals_literal hf "text" (String.ofList s) _) .nil) "root" _

theorem covers_chunkNode (hs : s = before ++ c.text ++ after) :
    Covers s before.length (before.length + c.text.length)
      (chunkNode c (located (some (.ofText s)) before.length (before.length + c.text.length))) := by
  have hposition (position : Value) : (chunkNode c position).position = position := by
    cases c <;> rfl
  have hlength : before.length + c.text.length ≤ s.length := by
    rw [hs, List.length_append, List.length_append]
    omega
  refine .of_spells (by omega) hlength (hposition _) ?_
  have htext : s.extract before.length (before.length + c.text.length) = c.text := by
    rw [hs, extract_append]
  rw [htext]
  exact spells_chunkNode c _

theorem every_literal (type : String) (htype : type ≠ "paragraph") {i j : Nat} (hle : i ≤ j)
    (hlength : j ≤ s.length) : Every (Stretched s) (.node (NodeOf.literal type
      (String.ofList (s.extract i j)) (located (some (.ofText s)) i j))) := by
  refine .node .absent ⟨⟨i, j, ?_⟩, fun h => absurd (Value.str.inj h) htype⟩ (by simp)
  exact .of_spells hle hlength rfl (spells_literal ..)

theorem every_chunkNode (hs : s = before ++ c.text ++ after) :
    Every (Stretched s) (.node (chunkNode c
      (located (some (.ofText s)) before.length (before.length + c.text.length)))) := by
  have hcovers := covers_chunkNode hs
  have htext : s.extract before.length (before.length + c.text.length) = c.text := by
    rw [hs, extract_append]
  cases c with
  | separator w =>
    have h := every_literal "whitespace" (by decide) hcovers.le hcovers.le_length
    rwa [htext] at h
  | paragraph t =>
    have h := every_literal "text" (by decide) hcovers.le hcovers.le_length
    rw [htext] at h
    exact .node (.list _) ⟨⟨_, _, hcovers⟩, fun _ => ⟨_, rfl, rfl, rfl⟩⟩ (by simpa using h)

end

/-- The nodes of chunks cover the rest of a text that the chunks are. -/
theorem chunkNodes_tile {s before : List Char} {cs : List Chunk} (hs : s = before ++ texts cs)
    (hne : ∀ c ∈ cs, c.text ≠ []) :
    Tiles s before.length s.length (chunkNodes (some (.ofText s)) before.length cs) ∧
      (∀ v ∈ chunkNodes (some (.ofText s)) before.length cs, Every (Stretched s) v) ∧
      List.Forall₂ Spells (chunkNodes (some (.ofText s)) before.length cs) (cs.map Chunk.text) := by
  induction cs generalizing before with
  | nil =>
    rw [texts_nil, List.append_nil] at hs
    rw [hs]
    exact ⟨.nil _, by simp [chunkNodes], .nil⟩
  | cons c cs ih =>
    obtain ⟨hc, hcs⟩ := List.forall_mem_cons.mp hne
    have hrest : s = (before ++ c.text) ++ texts cs := by
      rw [hs, texts_cons, List.append_assoc]
    obtain ⟨htiles, hall, hspells⟩ := ih hrest hcs
    have hpositive : 0 < c.text.length := List.length_pos_of_ne_nil hc
    rw [List.length_append] at htiles hall hspells
    refine ⟨.cons (by omega) (covers_chunkNode hrest) htiles, ?_, .cons (spells_chunkNode c _) hspells⟩
    exact List.forall_mem_cons.mpr ⟨every_chunkNode hrest, hall⟩

/-- The children of the root of a text cover it. -/
theorem childNodes_tile (paragraphs : Bool) (s : List Char) :
    Tiles s 0 s.length (childNodes paragraphs (some (.ofText s)) s) ∧
      (∀ v ∈ childNodes paragraphs (some (.ofText s)) s, Every (Stretched s) v) ∧
      ∃ ts, List.Forall₂ Spells (childNodes paragraphs (some (.ofText s)) s) ts ∧ ts.flatten = s := by
  unfold childNodes
  split
  · have hdivides := divides_chunks s
    have hne : ∀ c ∈ chunks s, c.text ≠ [] := by
      intro c hc
      cases c with
      | paragraph t => exact (hdivides.paragraph t hc).1
      | separator w =>
        obtain ⟨before, after, hcs⟩ := List.append_of_mem hc
        exact (hdivides.separator before w after hcs).1
    have hs : s = [] ++ texts (chunks s) := (texts_chunks s).symm
    obtain ⟨htiles, hall, hspells⟩ := chunkNodes_tile hs hne
    refine ⟨htiles, hall, _, hspells, ?_⟩
    rw [← List.flatMap_def]
    exact texts_chunks s
  · split
    · rename_i hs
      obtain rfl := List.isEmpty_iff.mp hs
      exact ⟨.nil 0, by simp, [], .nil, rfl⟩
    · rename_i hs
      have hpositive : 0 < s.length := List.length_pos_of_ne_nil fun h => hs (List.isEmpty_iff.mpr h)
      have hwhole : s.extract 0 s.length = s := by simp
      have hall := every_literal "text" (by decide) (Nat.zero_le _) (Nat.le_refl s.length)
      rw [hwhole] at hall
      refine ⟨.cons hpositive ?_ (.nil _), by simpa using hall, [s], .cons (spells_literal ..) .nil, by simp⟩
      refine .of_spells (Nat.zero_le _) (Nat.le_refl _) rfl ?_
      rw [hwhole]
      exact spells_literal ..

/-- The tree of a text, with positions. -/
theorem parse_covers (paragraphs : Bool) (s : List Char) :
    ∃ children, (parse paragraphs true s).children = .list children ∧ Tiles s 0 s.length children ∧
      Covers s 0 s.length (parse paragraphs true s) ∧
      Every (Stretched s) (.node (parse paragraphs true s)) := by
  obtain ⟨htiles, hall, ts, hspells, hts⟩ := childNodes_tile paragraphs s
  have hcovers : Covers s 0 s.length (parse paragraphs true s) := by
    refine .of_spells (Nat.zero_le _) (Nat.le_refl _) rfl ?_
    have hroot := spells_parent hspells "root" (located (some (.ofText s)) 0 s.length)
    have hwhole : s.extract 0 s.length = s := by simp
    rw [hts] at hroot
    rw [hwhole]
    exact hroot
  refine ⟨_, rfl, htiles, hcovers, .node (.list _) ⟨⟨_, _, hcovers⟩, fun h => ?_⟩ hall⟩
  exact absurd (Value.str.inj h) (by decide)

/-- With positions, every node of the tree of a text covers the text of its literals, the children of the
root cover the text one after the other, and every place is the one that is counted. -/
theorem plainParser_places {settings : Value} {file : File} {text : String}
    (hpositions : (Settings.field settings "positions").truthy = true)
    (htext : file.text = .ok text) (data : Option Value) :
    ∃ root children, (plainParser.parse settings file data).result.1 = .ok (.node root) ∧
      root.children = .list children ∧ Tiles text.toList 0 text.toList.length children ∧
      Covers text.toList 0 text.toList.length root ∧
      Every (Stretched text.toList) (.node root) ∧
      ∀ offset, offset ≤ text.toList.length →
        (Locator.ofText text.toList).point offset = countedPoint text.toList offset := by
  obtain ⟨children, hchildren, htiles, hcovers, hall⟩ :=
    parse_covers (Settings.field settings "paragraphs").truthy text.toList
  refine ⟨_, children, ?_, hchildren, htiles, hcovers, hall, fun offset => Locator.point_ofText⟩
  rw [result_plainParser_parse settings htext data, hpositions]

/-- A paragraph on two lines, a blank line with a carriage return, and a paragraph on the line after it. -/
theorem plainParser_places_lines :
    ∃ root children, (plainParser.parse
        (.settings .plainParser [("positions", .bool true), ("paragraphs", .bool true)])
        { File.empty with contents := .str "a\nb\r\n\nc" } none).result.1 = .ok (.node root) ∧
      root.children = .list children ∧ Tiles "a\nb\r\n\nc".toList 0 7 children ∧
      Covers "a\nb\r\n\nc".toList 0 7 root ∧ Every (Stretched "a\nb\r\n\nc".toList) (.node root) ∧
      ∀ offset, offset ≤ 7 →
        (Locator.ofText "a\nb\r\n\nc".toList).point offset = countedPoint "a\nb\r\n\nc".toList offset :=
  plainParser_places (by decide) rfl none

end TextPipeline.Grammar.Plain
