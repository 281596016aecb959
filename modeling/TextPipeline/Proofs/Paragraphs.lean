import Mathlib.Data.List.Chain
import Mathlib.Data.List.TakeWhile
import TextPipeline.Grammar.Endpoint

/-! How plain text falls into paragraphs and separators. A separator is a longest match of its
pattern, which is given here on its own, and no match begins within a paragraph: this is what a scan
from left to right keeps, and the shape of the tree follows from it. -/

namespace TextPipeline.Grammar.Plain

/-- A line break with the padding after it. -/
def IsBreak (s : List Char) : Prop :=
  ∃ pad : List Char, (∀ c ∈ pad, isPad c) ∧ (s = '\n' :: pad ∨ s = '\r' :: '\n' :: pad)

/-- What stands between paragraphs: two or more line breaks, each with the padding after it. -/
def IsSeparator (s : List Char) : Prop :=
  ∃ breaks : List (List Char), 2 ≤ breaks.length ∧ (∀ b ∈ breaks, IsBreak b) ∧ breaks.flatten = s

theorem IsBreak.ne_nil {s : List Char} (h : IsBreak s) : s ≠ [] := by
  obtain ⟨pad, -, rfl | rfl⟩ := h <;> simp

/-- A text that starts with a break does not start with padding. -/
theorem IsBreak.takeWhile_isPad {s : List Char} (h : IsBreak s) (rest : List Char) :
    (s ++ rest).takeWhile isPad = [] := by
  obtain ⟨pad, -, rfl | rfl⟩ := h <;> rfl

/-- The break at the start of a text takes all padding that follows. -/
theorem IsBreak.breakLength_append {s : List Char} (h : IsBreak s) (rest : List Char) :
    breakLength (s ++ rest) = s.length + (rest.takeWhile isPad).length := by
  obtain ⟨pad, hpad, rfl | rfl⟩ := h
  · show 1 + ((pad ++ rest).takeWhile isPad).length = _
    rw [List.takeWhile_append_of_pos hpad, List.length_append, List.length_cons]
    omega
  · show 2 + ((pad ++ rest).takeWhile isPad).length = _
    rw [List.takeWhile_append_of_pos hpad, List.length_append, List.length_cons, List.length_cons]
    omega

theorem isBreak_take {s : List Char} (h : 0 < breakLength s) : IsBreak (s.take (breakLength s)) := by
  have hpad (t : List Char) : ∀ c ∈ t.takeWhile isPad, isPad c := fun c => List.mem_takeWhile_imp
  have htake (t : List Char) : t.take (t.takeWhile isPad).length = t.takeWhile isPad :=
    (List.prefix_iff_eq_take.mp (List.takeWhile_prefix isPad)).symm
  fun_cases breakLength s with
  | case1 rest =>
    refine ⟨_, hpad rest, .inr ?_⟩
    rw [Nat.add_comm, List.take_succ_cons, List.take_succ_cons, htake]
  | case2 rest =>
    refine ⟨_, hpad rest, .inl ?_⟩
    rw [Nat.add_comm, List.take_succ_cons, htake]
  | case3 s h₁ h₂ => simp [breakLength] at h

theorem breakLength_le_breaksLength (s : List Char) : breakLength s ≤ breaksLength s := by
  rw [breaksLength]
  split <;> omega

/-- The breaks at the start of a text, of which none is left out. -/
theorem exists_breaks (s : List Char) :
    ∃ breaks : List (List Char), (∀ b ∈ breaks, IsBreak b) ∧
      breaks.flatten = s.take (breaksLength s) ∧
      (breakLength s < breaksLength s → 2 ≤ breaks.length) := by
  fun_induction breaksLength s with
  | case1 s h ih =>
    obtain ⟨breaks, hbreaks, hflatten, -⟩ := ih
    refine ⟨s.take (breakLength s) :: breaks, ?_, ?_, fun hlt => ?_⟩
    · exact List.forall_mem_cons.mpr ⟨isBreak_take h, hbreaks⟩
    · rw [List.flatten_cons, hflatten, List.take_add]
    · rcases breaks with _ | ⟨b, breaks⟩
      · have hnil : (s.drop (breakLength s)).take (breaksLength (s.drop (breakLength s))) = [] :=
          hflatten.symm
        rw [List.take_eq_nil_iff] at hnil
        rcases hnil with hzero | hnil
        · omega
        · rw [hnil] at hlt
          simp [breaksLength, breakLength] at hlt
      · simp
  | case2 s h => exact ⟨[], by simp, by simp, fun hlt => by omega⟩

/-- Breaks at the start of a text are among those that a scan finds. -/
theorem length_flatten_le_breaksLength {breaks : List (List Char)} (h : ∀ b ∈ breaks, IsBreak b)
    (rest : List Char) : breaks.flatten.length ≤ breaksLength (breaks.flatten ++ rest) := by
  induction breaks with
  | nil => simp
  | cons b breaks ih =>
    obtain ⟨hb, hbreaks⟩ := List.forall_mem_cons.mp h
    rw [List.flatten_cons, List.append_assoc]
    have hlength := hb.breakLength_append (breaks.flatten ++ rest)
    rcases breaks with _ | ⟨b', breaks⟩
    · have := breakLength_le_breaksLength (b ++ ([].flatten ++ rest))
      simp only [List.length_append, List.flatten_nil, List.length_nil]
      simp only [List.flatten_nil] at hlength this
      omega
    · have hpad := (hbreaks b' (by simp)).takeWhile_isPad (breaks.flatten ++ rest)
      rw [← List.append_assoc, ← List.flatten_cons] at hpad
      rw [hpad, List.length_nil, Nat.add_zero] at hlength
      have hpos : 0 < b.length := List.length_pos_of_ne_nil hb.ne_nil
      have := ih hbreaks
      rw [breaksLength, dif_pos (by omega), hlength, List.drop_left, List.length_append]
      omega

/-- No break is left after those that a scan finds. -/
theorem breakLength_drop_breaksLength (s : List Char) :
    breakLength (s.drop (breaksLength s)) = 0 := by
  fun_induction breaksLength s with
  | case1 s h ih => rwa [← List.drop_drop]
  | case2 s h => simpa using h

theorem separatorLength_of_breakLength {s : List Char} (h : breakLength s = 0) :
    separatorLength s = 0 := by
  have hzero : breaksLength s = 0 := by
    rw [breaksLength, dif_neg (by omega)]
  rw [separatorLength, hzero, if_neg (by omega)]

theorem separatorLength_le (s : List Char) : separatorLength s ≤ s.length := by
  have hle : breaksLength s ≤ s.length := by
    fun_induction breaksLength s with
    | case1 s h ih =>
      have := breakLength_le s
      rw [List.length_drop] at ih
      omega
    | case2 s h => omega
  rw [separatorLength]
  split <;> omega

theorem IsSeparator.ne_nil {s : List Char} (h : IsSeparator s) : s ≠ [] := by
  obtain ⟨_ | ⟨b, breaks⟩, hlength, hbreaks, rfl⟩ := h
  · simp at hlength
  · simp [(hbreaks b (by simp)).ne_nil]

/-- A separator starts with a line break, and has nothing but line breaks and padding. -/
theorem IsSeparator.eq_cons {s : List Char} (h : IsSeparator s) :
    ∃ c rest, s = c :: rest ∧ (c = '\n' ∨ c = '\r') := by
  obtain ⟨_ | ⟨b, breaks⟩, hlength, hbreaks, rfl⟩ := h
  · simp at hlength
  · obtain ⟨pad, -, rfl | rfl⟩ := hbreaks b (by simp)
    · exact ⟨'\n', _, rfl, .inl rfl⟩
    · exact ⟨'\r', _, rfl, .inr rfl⟩

theorem IsSeparator.mem {s : List Char} (h : IsSeparator s) :
    ∀ c ∈ s, c = '\n' ∨ c = '\r' ∨ isPad c = true := by
  obtain ⟨breaks, -, hbreaks, rfl⟩ := h
  intro c hc
  obtain ⟨b, hb, hcb⟩ := List.mem_flatten.mp hc
  obtain ⟨pad, hpad, rfl | rfl⟩ := hbreaks b hb
  · rcases List.mem_cons.mp hcb with rfl | hcb
    · exact .inl rfl
    · exact .inr (.inr (hpad c hcb))
  · rcases List.mem_cons.mp hcb with rfl | hcb
    · exact .inr (.inl rfl)
    · rcases List.mem_cons.mp hcb with rfl | hcb
      · exact .inl rfl
      · exact .inr (.inr (hpad c hcb))

/-- What a scan takes for a separator is one. -/
theorem isSeparator_take {s : List Char} (h : 0 < separatorLength s) :
    IsSeparator (s.take (separatorLength s)) := by
  rw [separatorLength] at h ⊢
  split at h
  · rename_i hlt
    obtain ⟨breaks, hbreaks, hflatten, hlength⟩ := exists_breaks s
    rw [if_pos hlt]
    exact ⟨breaks, hlength hlt, hbreaks, hflatten⟩
  · omega

/-- A scan takes the longest separator at the start of a text. -/
theorem IsSeparator.length_le {s : List Char} (h : IsSeparator s) (rest : List Char) :
    s.length ≤ separatorLength (s ++ rest) := by
  obtain ⟨_ | ⟨b, _ | ⟨b', breaks⟩⟩, hlength, hbreaks, rfl⟩ := h
  · simp at hlength
  · simp at hlength
  have hle := length_flatten_le_breaksLength hbreaks rest
  have hfirst := (hbreaks b (by simp)).breakLength_append ((b' :: breaks).flatten ++ rest)
  have hsecond := hbreaks b' (by simp)
  have hpad := hsecond.takeWhile_isPad (breaks.flatten ++ rest)
  rw [← List.append_assoc, ← List.flatten_cons] at hpad
  rw [hpad, ← List.append_assoc, ← List.flatten_cons] at hfirst
  have hpos : 0 < b'.length := List.length_pos_of_ne_nil hsecond.ne_nil
  have hlonger : b.length < (b :: b' :: breaks).flatten.length := by
    simp only [List.flatten_cons, List.length_append]
    omega
  rw [separatorLength, if_pos (by simp only [List.length_nil] at hfirst; omega)]
  exact hle

/-- The text of chunks. -/
def texts (cs : List Chunk) : List Char := cs.flatMap Chunk.text

@[simp] theorem texts_nil : texts [] = [] := rfl

@[simp] theorem texts_cons (c : Chunk) (cs : List Chunk) : texts (c :: cs) = c.text ++ texts cs := rfl

@[simp] theorem texts_append (cs ds : List Chunk) : texts (cs ++ ds) = texts cs ++ texts ds :=
  List.flatMap_append

theorem texts_extend (c : Char) (cs : List Chunk) : texts (extend c cs) = c :: texts cs := by
  fun_cases extend c cs <;> rfl

/-- The chunks of a text join to it. -/
theorem texts_chunks (s : List Char) : texts (chunks s) = s := by
  fun_induction chunks s with
  | case1 => rfl
  | case2 c rest n h ih => rw [texts_cons, ih, Chunk.text, List.take_append_drop]
  | case3 c rest n h ih => rw [texts_extend, ih]

def Chunk.isSeparator : Chunk → Bool
  | .separator _ => true
  | .paragraph _ => false

/-- What a scan keeps: a separator is as long as it can be, none begins within a paragraph, and
neither is followed by another of its kind. -/
inductive Scanned : List Chunk → Prop
  | nil : Scanned []
  | separator {w : List Char} {cs : List Chunk} : IsSeparator w →
    separatorLength (w ++ texts cs) = w.length → (∀ c ∈ cs.head?, c.isSeparator = false) →
    Scanned cs → Scanned (.separator w :: cs)
  | paragraph {t : List Char} {cs : List Chunk} : t ≠ [] →
    (∀ a b, t = a ++ b → b ≠ [] → separatorLength (b ++ texts cs) = 0) →
    (∀ c ∈ cs.head?, c.isSeparator = true) → Scanned cs → Scanned (.paragraph t :: cs)

theorem Scanned.extend {c : Char} {cs : List Chunk} (h : Scanned cs)
    (hc : separatorLength (c :: texts cs) = 0) : Scanned (extend c cs) := by
  have hone (hs : ∀ d ∈ cs.head?, d.isSeparator = true) : Scanned (.paragraph [c] :: cs) := by
    refine .paragraph (by simp) (fun a b hab hb => ?_) hs h
    obtain ⟨rfl, rfl⟩ | ⟨-, hnil⟩ := List.singleton_eq_append_iff.mp hab
    · exact hc
    · exact absurd hnil.symm (by simpa using hb.symm)
  cases h with
  | nil => exact hone (by simp)
  | separator => exact hone (by simp [Chunk.isSeparator])
  | @paragraph t cs ht hnone hnext hcs =>
    refine .paragraph (by simp) (fun a b hab hb => ?_) hnext hcs
    rcases a with _ | ⟨d, a⟩
    · obtain rfl : c :: t = b := hab
      exact hc
    · obtain ⟨-, rfl⟩ := List.cons.inj hab
      exact hnone a b rfl hb

theorem scanned_chunks (s : List Char) : Scanned (chunks s) := by
  fun_induction chunks s with
  | case1 => exact .nil
  | case2 c rest n h ih =>
    have htaken : ((c :: rest).take n).length = n := by
      rw [List.length_take]
      exact Nat.min_eq_left (separatorLength_le (c :: rest))
    refine .separator (isSeparator_take h) ?_ (fun d hd => ?_) ih
    · rw [texts_chunks, List.take_append_drop, htaken]
    · cases d with
      | paragraph => rfl
      | separator w =>
        -- a separator after this one would start with a break, but no break is left here
        obtain ⟨cs, hcs⟩ := List.head?_eq_some_iff.mp hd
        have hw : Scanned (.separator w :: cs) := hcs ▸ ih
        cases hw with
        | separator hsep hlength =>
          have hlong : n = breaksLength (c :: rest) := by
            have : separatorLength (c :: rest) = n := rfl
            rw [separatorLength] at this
            split at this <;> omega
          have hzero := breakLength_drop_breaksLength (c :: rest)
          have htexts : w ++ texts cs = (c :: rest).drop n := by
            rw [← texts_chunks ((c :: rest).drop n), hcs]
            rfl
          rw [htexts, hlong, separatorLength_of_breakLength hzero] at hlength
          exact absurd (List.length_eq_zero_iff.mp hlength.symm) hsep.ne_nil
  | case3 c rest n h ih =>
    refine ih.extend ?_
    rw [texts_chunks]
    exact Nat.eq_zero_of_not_pos h

theorem Scanned.of_append {cs ds : List Chunk} (h : Scanned (cs ++ ds)) : Scanned ds := by
  induction cs with
  | nil => exact h
  | cons c cs ih =>
    cases h with
    | separator _ _ _ h => exact ih h
    | paragraph _ _ _ h => exact ih h

/-- A division of a text into chunks as its grammar demands it. -/
structure Divides (s : List Char) (cs : List Chunk) : Prop where
  texts_eq : texts cs = s
  /-- Paragraphs and separators take turns. -/
  alternate : cs.IsChain fun a b => a.isSeparator ≠ b.isSeparator
  /-- A paragraph has some text, and no part of it is a separator. -/
  paragraph : ∀ t, .paragraph t ∈ cs → t ≠ [] ∧ ∀ m, m <:+: t → ¬ IsSeparator m
  /-- A separator can be extended neither to the right nor by a carriage return before it. -/
  separator : ∀ before w after, cs = before ++ .separator w :: after →
    w ≠ [] ∧ IsSeparator w ∧ (∀ x, x ≠ [] → x <+: texts after → ¬ IsSeparator (w ++ x)) ∧
      ∀ pre, texts before = pre ++ ['\r'] → ¬ IsSeparator ('\r' :: w)

theorem Scanned.alternate {cs : List Chunk} (h : Scanned cs) :
    cs.IsChain fun a b => a.isSeparator ≠ b.isSeparator := by
  induction h with
  | nil => exact .nil
  | separator _ _ hnext _ ih =>
    refine List.isChain_cons.mpr ⟨fun c hc => ?_, ih⟩
    rw [hnext c hc]
    simp [Chunk.isSeparator]
  | paragraph _ _ hnext _ ih =>
    refine List.isChain_cons.mpr ⟨fun c hc => ?_, ih⟩
    rw [hnext c hc]
    simp [Chunk.isSeparator]

/-- A match within a paragraph would begin at a place where a scan found none. -/
theorem Scanned.not_isSeparator_infix {t : List Char} {cs : List Chunk}
    (h : Scanned (.paragraph t :: cs)) : t ≠ [] ∧ ∀ m, m <:+: t → ¬ IsSeparator m := by
  cases h with
  | paragraph hne hnone =>
    refine ⟨hne, fun m ⟨a, b, hm⟩ hsep => ?_⟩
    have hzero := hnone a (m ++ b) (by rw [← hm, List.append_assoc]) (by simp [hsep.ne_nil])
    have hle := hsep.length_le (b ++ texts cs)
    rw [← List.append_assoc, hzero] at hle
    exact hsep.ne_nil (List.length_eq_zero_iff.mp (Nat.le_zero.mp hle))

/-- A longer match would have been taken. -/
theorem Scanned.not_isSeparator_append {w : List Char} {cs : List Chunk}
    (h : Scanned (.separator w :: cs)) {x : List Char} (hx : x ≠ []) (hpre : x <+: texts cs) :
    ¬ IsSeparator (w ++ x) := by
  obtain ⟨rest, hrest⟩ := hpre
  cases h with
  | separator _ hlength =>
    intro hsep
    have hle := hsep.length_le rest
    rw [List.append_assoc, hrest, hlength, List.length_append] at hle
    exact hx (List.length_eq_zero_iff.mp (by omega))

/-- A carriage return before a separator that belonged to it would have begun the match. -/
theorem Scanned.not_isSeparator_return {before after : List Chunk} {w pre : List Char}
    (h : Scanned (before ++ .separator w :: after)) (hpre : texts before = pre ++ ['\r']) :
    ¬ IsSeparator ('\r' :: w) := by
  intro hsep
  rcases before.eq_nil_or_concat with rfl | ⟨before, c, rfl⟩
  · simp at hpre
  rw [List.concat_eq_append, List.append_assoc, List.singleton_append] at h
  have hlast := h.of_append
  cases hlast with
  | separator _ _ hnext => exact absurd (hnext _ rfl) (by simp [Chunk.isSeparator])
  | @paragraph t _ hne hnone =>
    have hend : t.getLast? = some '\r' := by
      have := congrArg List.getLast? hpre
      rw [List.concat_eq_append, texts_append, texts_cons, texts_nil, List.append_nil, Chunk.text,
        List.getLast?_append_of_ne_nil _ hne] at this
      simpa using this
    obtain ⟨a, rfl⟩ := List.getLast?_eq_some_iff.mp hend
    have hzero := hnone a ['\r'] rfl (by simp)
    have hle := hsep.length_le (texts after)
    have hsame : ('\r' :: w) ++ texts after = ['\r'] ++ texts (.separator w :: after) := rfl
    rw [hsame, hzero] at hle
    simp at hle

/-- The chunks of a text are a division of it. -/
theorem divides_chunks (s : List Char) : Divides s (chunks s) := by
  have h := scanned_chunks s
  refine ⟨texts_chunks s, h.alternate, fun t ht => ?_, fun before w after hcs => ?_⟩
  · obtain ⟨before, after, hcs⟩ := List.append_of_mem ht
    rw [hcs] at h
    exact h.of_append.not_isSeparator_infix
  · rw [hcs] at h
    have hlater := h.of_append
    have hw : IsSeparator w := by
      cases hlater
      assumption
    exact ⟨hw.ne_nil, hw, fun x => hlater.not_isSeparator_append, fun pre =>
      h.not_isSeparator_return⟩

/-- The node that stands for a chunk, with some position. -/
inductive StandsFor : Chunk → Value → Prop
  | paragraph (t : List Char) (position : Value) : StandsFor (.paragraph t)
    (.node (NodeOf.parent "paragraph" [.node (NodeOf.literal "text" (String.ofList t) position)]
      position))
  | separator (w : List Char) (position : Value) : StandsFor (.separator w)
    (.node (NodeOf.literal "whitespace" (String.ofList w) position))

theorem standsFor_chunkNodes (locator : Option Locator) (start : Nat) (cs : List Chunk) :
    List.Forall₂ StandsFor cs (chunkNodes locator start cs) := by
  induction cs generalizing start with
  | nil => exact .nil
  | cons c cs ih =>
    refine .cons ?_ (ih _)
    cases c with
    | paragraph t => exact .paragraph t _
    | separator w => exact .separator w _

/-- What the parser of plain text makes of a file. -/
theorem result_plainParser_parse (settings : Value) {file : File} {text : String}
    (htext : file.text = .ok text) (data : Option Value) :
    (plainParser.parse settings file data).result.1 =
      .ok (.node (Plain.parse (Settings.field settings "paragraphs").truthy
        (Settings.field settings "positions").truthy text.toList)) := by
  unfold plainParser Logged.result
  simp only [htext]
  cases (Settings.field settings "paragraphs").truthy <;> rfl

/-- With paragraphs, the children of the root of a text stand for a division of it. -/
theorem plainParser_divides {settings : Value} {file : File} {text : String}
    (hparagraphs : (Settings.field settings "paragraphs").truthy = true)
    (htext : file.text = .ok text) (data : Option Value) :
    ∃ cs children position, Divides text.toList cs ∧ List.Forall₂ StandsFor cs children ∧
      (text = "" → children = []) ∧
      (plainParser.parse settings file data).result.1 =
        .ok (.node (NodeOf.parent "root" children position)) := by
  let locator := if (Settings.field settings "positions").truthy then
    some (Locator.ofText text.toList) else none
  refine ⟨chunks text.toList, chunkNodes locator 0 (chunks text.toList),
    located locator 0 text.toList.length, divides_chunks _, standsFor_chunkNodes _ _ _, ?_, ?_⟩
  · rintro rfl
    rw [String.toList_empty, chunks]
    rfl
  · rw [result_plainParser_parse settings htext data, hparagraphs]
    rfl

/-- Two paragraphs with a blank line between them that a carriage return belongs to. -/
theorem plainParser_divides_lines :
    ∃ cs children position, Divides "a \r\n\t\nb".toList cs ∧ List.Forall₂ StandsFor cs children ∧
      ("a \r\n\t\nb" = "" → children = []) ∧
      (plainParser.parse (.settings .plainParser [("positions", .bool true), ("paragraphs", .bool true)])
        { File.empty with contents := .str "a \r\n\t\nb" } none).result.1 =
          .ok (.node (NodeOf.parent "root" children position)) :=
  plainParser_divides (by decide) rfl none

end TextPipeline.Grammar.Plain
