import TextPipeline.FrontMatter.Block

/-! Where front matter stands in a text. The lines of a text are the one way to divide it into
stretches that are each ended by a break, and the block is read off them: the opening line, the
lines up to the first one that strips to the fence, and that one. -/

namespace TextPipeline.Text

/-- What can end a line. -/
def IsEnd (e : List Char) : Prop :=
  e = ['\r', '\n'] ∨ ∃ c, isLineBreak c = true ∧ e = [c]

/-- Stretches of a text that are its lines: each ends at its first break, a carriage return is not
parted from a line feed, and only the last may have no end. -/
inductive Lined : List (List Char) → Prop
  | nil : Lined []
  | last {body : List Char} : body ≠ [] → (∀ c ∈ body, isLineBreak c = false) → Lined [body]
  | cons {body e : List Char} {ls : List (List Char)} : (∀ c ∈ body, isLineBreak c = false) →
    IsEnd e → (e = ['\r'] → ls.flatten.head? ≠ some '\n') → Lined ls → Lined ((body ++ e) :: ls)

theorem lines_break {c : Char} {rest : List Char} (hc : isLineBreak c = true)
    (hr : c = '\r' → rest.head? ≠ some '\n') : lines (c :: rest) = [c] :: lines rest := by
  rw [lines.eq_3 c rest, if_pos hc]
  rintro t rfl rfl
  exact hr rfl rfl

theorem lines_other {c : Char} (hc : isLineBreak c = false) (rest : List Char) :
    lines (c :: rest) =
      match lines rest with
      | [] => [[c]]
      | first :: others => (c :: first) :: others := by
  have hr : ∀ t, c = '\r' → rest = '\n' :: t → False := by
    rintro t rfl -
    exact absurd hc (by decide)
  refine ((lines.eq_3 c rest hr).trans (if_neg (by simp [hc]))).trans ?_
  cases lines rest <;> rfl

/-- A line ends at its first break. -/
theorem lines_line {body e rest : List Char} (hbody : ∀ c ∈ body, isLineBreak c = false)
    (he : IsEnd e) (hr : e = ['\r'] → rest.head? ≠ some '\n') :
    lines (body ++ e ++ rest) = (body ++ e) :: lines rest := by
  induction body with
  | nil =>
    obtain rfl | ⟨c, hc, rfl⟩ := he
    · simp [lines]
    · exact lines_break hc fun hcr => hr (by rw [hcr])
  | cons a body ih =>
    have htail : ∀ c ∈ body, isLineBreak c = false := fun c hc => hbody c (by simp [hc])
    show lines (a :: (body ++ e ++ rest)) = _
    rw [lines_other (hbody a (by simp)), ih htail]
    rfl

/-- A text without a break is one line. -/
theorem lines_unbroken {body : List Char} (hne : body ≠ [])
    (hbody : ∀ c ∈ body, isLineBreak c = false) : lines body = [body] := by
  induction body with
  | nil => contradiction
  | cons a body ih =>
    rw [lines_other (hbody a (by simp))]
    by_cases h : body = []
    · simp [h, lines]
    · rw [ih h fun c hc => hbody c (by simp [hc])]

theorem lined_lines (s : List Char) : Lined (lines s) := by
  fun_induction lines s with
  | case1 => exact .nil
  | case2 rest ih => exact @Lined.cons [] _ _ (by simp) (.inl rfl) (by simp) ih
  | case3 c rest hcr hc ih =>
    refine @Lined.cons [] _ _ (by simp) (.inr ⟨c, hc, rfl⟩) (fun hr hhead => ?_) ih
    rw [lines_flatten] at hhead
    obtain ⟨t, ht⟩ := List.head?_eq_some_iff.mp hhead
    exact hcr t (by simpa using hr) ht
  | case4 c rest hcr hc h ih => exact .last (by simp) (by simpa using hc)
  | case5 c rest hcr hc first others h ih =>
    have hc : isLineBreak c = false := by simpa using hc
    rw [h] at ih
    generalize hls : first :: others = ls at ih
    cases ih with
    | nil => simp at hls
    | last hne hbody =>
      obtain ⟨rfl, rfl⟩ := List.cons.inj hls
      exact .last (by simp) (List.forall_mem_cons.mpr ⟨hc, hbody⟩)
    | cons hbody he hr hrest =>
      obtain ⟨rfl, rfl⟩ := List.cons.inj hls
      exact .cons (List.forall_mem_cons.mpr ⟨hc, hbody⟩) he hr hrest

theorem Lined.lines_flatten {ls : List (List Char)} (h : Lined ls) : lines ls.flatten = ls := by
  induction h with
  | nil => rfl
  | last hne hbody => simpa using lines_unbroken hne hbody
  | cons hbody he hr _ ih => rw [List.flatten_cons, lines_line hbody he hr, ih]

theorem Lined.tail {line : List Char} {ls : List (List Char)} (h : Lined (line :: ls)) :
    Lined ls := by
  cases h with
  | last => exact .nil
  | cons _ _ _ hrest => exact hrest

/-- The first lines of a text are the lines of the text that they make. -/
theorem Lined.of_append {as bs : List (List Char)} (h : Lined (as ++ bs)) : Lined as := by
  induction as with
  | nil => exact .nil
  | cons a as ih =>
    rw [List.cons_append] at h
    generalize hls : a :: (as ++ bs) = ls at h
    cases h with
    | nil => simp at hls
    | last hne hbody =>
      obtain ⟨rfl, hnil⟩ := List.cons.inj hls
      rw [(List.append_eq_nil_iff.mp hnil).1]
      exact .last hne hbody
    | cons hbody he hr hrest =>
      obtain ⟨rfl, rfl⟩ := List.cons.inj hls
      refine .cons hbody he (fun hcr hhead => hr hcr ?_) (ih hrest)
      obtain ⟨t, ht⟩ := List.head?_eq_some_iff.mp hhead
      rw [List.flatten_append, ht]
      rfl

end TextPipeline.Text

namespace TextPipeline.FrontMatter

open TextPipeline.Text

/-- A text that begins with a line that is a fence. -/
def Opens (f : Format) (s : List Char) : Prop :=
  f.fence.toList ++ ['\n'] <+: s ∨ f.fence.toList ++ ['\r', '\n'] <+: s

theorem isFenced_iff {f : Format} {s : List Char} :
    isFenced f.fence.toList s = true ↔ Opens f s := by
  rw [isFenced, Bool.and_eq_true, List.isPrefixOf_iff_prefix]
  constructor
  · rintro ⟨⟨t, rfl⟩, h⟩
    rw [List.drop_left] at h
    split at h
    · next t => exact .inl ⟨t, by simp⟩
    · next t => exact .inr ⟨t, by simp⟩
    · contradiction
  · rintro (⟨t, rfl⟩ | ⟨t, rfl⟩)
    · exact ⟨⟨'\n' :: t, by simp⟩, by simp⟩
    · exact ⟨⟨'\r' :: '\n' :: t, by simp⟩, by simp⟩

theorem Opens.lines {f : Format} {s : List Char} (h : Opens f s) :
    ∃ e rest, (e = ['\n'] ∨ e = ['\r', '\n']) ∧
      Text.lines s = (f.fence.toList ++ e) :: rest := by
  have hfence : ∀ c ∈ f.fence.toList, isLineBreak c = false := by
    intro c hc
    cases f
    all_goals
      simp [Format.fence] at hc
      obtain rfl := hc
      rfl
  obtain ⟨t, rfl⟩ | ⟨t, rfl⟩ := h
  · exact ⟨_, _, .inl rfl, lines_line hfence (.inr ⟨'\n', by decide, rfl⟩) (by simp)⟩
  · exact ⟨_, _, .inr rfl, lines_line hfence (.inl rfl) (by simp)⟩

/-- No text begins with the fences of two formats. -/
theorem Opens.unique {f g : Format} {s : List Char} (hf : Opens f s) (hg : Opens g s) : f = g := by
  have hhead {f : Format} (h : Opens f s) : s.head? = f.fence.toList.head? := by
    obtain ⟨t, rfl⟩ | ⟨t, rfl⟩ := h <;> cases f <;> rfl
  have := (hhead hf).symm.trans (hhead hg)
  cases f <;> cases g <;> first | rfl | simp [Format.fence] at this

theorem untilFence_eq_none {fence : List Char} {ls : List (List Char)} :
    untilFence fence ls = none ↔ ∀ line ∈ ls, strip line ≠ fence := by
  induction ls with
  | nil => simp [untilFence]
  | cons line ls ih =>
    rw [untilFence, List.forall_mem_cons, ← ih]
    by_cases h : strip line = fence <;> simp [h]

theorem untilFence_eq_some {fence closing : List Char} {ls before : List (List Char)}
    (h : untilFence fence ls = some (before, closing)) :
    (∃ after, ls = before ++ closing :: after) ∧ strip closing = fence ∧
      ∀ line ∈ before, strip line ≠ fence := by
  induction ls generalizing before with
  | nil => simp [untilFence] at h
  | cons line ls ih =>
    rw [untilFence] at h
    by_cases hline : strip line = fence
    · simp only [hline, beq_self_eq_true, if_true, Option.some.injEq, Prod.mk.injEq] at h
      obtain ⟨rfl, rfl⟩ := h
      exact ⟨⟨ls, rfl⟩, hline, by simp⟩
    · rw [if_neg (by simpa using hline), Option.map_eq_some_iff] at h
      obtain ⟨⟨before, closing⟩, hls, heq⟩ := h
      obtain ⟨rfl, rfl⟩ := Prod.mk.inj heq
      obtain ⟨⟨after, rfl⟩, hclosing, hbefore⟩ := ih hls
      exact ⟨⟨after, rfl⟩, hclosing, List.forall_mem_cons.mpr ⟨hline, hbefore⟩⟩

/-- A block at the start of a text: the opening line, the lines of what it holds, of which none
strips to the fence, and the closing line, which does. -/
structure Block.Stands (b : Block) (s : List Char) : Prop where
  starts : b.whole.toList <+: s
  stands : ∃ e closing rest, (e = ['\n'] ∨ e = ['\r', '\n']) ∧
    strip closing = b.format.fence.toList ∧
    b.whole.toList = b.format.fence.toList ++ e ++ b.raw.toList ++ closing ∧
    lines s = (b.format.fence.toList ++ e) :: (lines b.raw.toList ++ closing :: rest)
  unfenced : ∀ line ∈ lines b.raw.toList, strip line ≠ b.format.fence.toList

theorem fenced_eq_none {f : Format} {s : List Char} (h : Opens f s) :
    fenced f s = none ↔ ∀ line ∈ (lines s).tail, strip line ≠ f.fence.toList := by
  obtain ⟨e, rest, -, hlines⟩ := h.lines
  rw [fenced, hlines]
  simp only [Option.map_eq_none_iff, untilFence_eq_none, List.tail_cons]

theorem fenced_stands {f : Format} {s : List Char} {b : Block} (h : Opens f s)
    (hb : fenced f s = some b) : b.format = f ∧ b.Stands s := by
  obtain ⟨e, rest, he, hlines⟩ := h.lines
  simp only [fenced, hlines, Option.map_eq_some_iff] at hb
  obtain ⟨⟨before, closing⟩, huntil, rfl⟩ := hb
  obtain ⟨⟨after, rfl⟩, hclosing, hbefore⟩ := untilFence_eq_some huntil
  have hraw : lines before.flatten = before := by
    have hlined := lined_lines s
    rw [hlines] at hlined
    exact hlined.tail.of_append.lines_flatten
  refine ⟨rfl, ⟨after.flatten, ?_⟩, ⟨e, closing, after, he, hclosing, by simp, ?_⟩, ?_⟩
  · have := lines_flatten s
    rw [hlines] at this
    simpa using this
  · rw [hlines, String.toList_ofList, hraw]
  · rwa [String.toList_ofList, hraw]

/-- The values that name formats. -/
def names (formats : List Format) : List Value := formats.map fun f => .str f.name

theorem find_cons (text : String) (f : Format) (rest : List Format) :
    find text (names (f :: rest)) =
      if isFenced f.fence.toList text.toList then .ok (fenced f text.toList)
      else find text (names rest) := by
  cases f <;> rfl

theorem find_names (text : String) (formats : List Format) : ∃ found, find text (names formats) = .ok found := by
  induction formats with
  | nil => exact ⟨none, rfl⟩
  | cons f formats ih =>
    rw [find_cons]
    split
    · exact ⟨_, rfl⟩
    · exact ih

theorem find_of_opens {text : String} {f : Format} {formats : List Format} (hf : f ∈ formats)
    (h : Opens f text.toList) : find text (names formats) = .ok (fenced f text.toList) := by
  induction formats with
  | nil => simp at hf
  | cons g formats ih =>
    rw [find_cons]
    by_cases hg : Opens g text.toList
    · rw [if_pos (isFenced_iff.mpr hg), hg.unique h]
    · have hne : f ≠ g := by
        rintro rfl
        exact hg h
      rw [if_neg fun hg' => hg (isFenced_iff.mp hg')]
      exact ih (List.mem_of_ne_of_mem hne hf)

theorem find_of_not_opens {text : String} {formats : List Format}
    (h : ∀ f ∈ formats, ¬ Opens f text.toList) : find text (names formats) = .ok none := by
  induction formats with
  | nil => rfl
  | cons g formats ih =>
    obtain ⟨hg, hformats⟩ := List.forall_mem_cons.mp h
    rw [find_cons, if_neg fun hg' => hg (isFenced_iff.mp hg'), ih hformats]

/-- Front matter is the block up to the first line that closes it, whichever format opens the text;
the order of the formats and repetitions among them do not matter. -/
theorem find_first_block (text : String) (formats : List Format) :
    ∃ found, find text (names formats) = .ok found ∧
      (∀ others : List Format, (∀ f, f ∈ others ↔ f ∈ formats) →
        find text (names others) = .ok found) ∧
      (∀ b ∈ found, b.format ∈ formats ∧ b.Stands text.toList) ∧
      (found = none ↔ (∀ f ∈ formats, ¬ Opens f text.toList) ∨
        ∃ f ∈ formats, Opens f text.toList ∧
          ∀ line ∈ (lines text.toList).tail, strip line ≠ f.fence.toList) := by
  by_cases h : ∃ f ∈ formats, Opens f text.toList
  · obtain ⟨f, hf, hopens⟩ := h
    refine ⟨fenced f text.toList, find_of_opens hf hopens, fun others hothers =>
      find_of_opens ((hothers f).mpr hf) hopens, fun b hb => ?_, ?_⟩
    · obtain ⟨rfl, hstands⟩ := fenced_stands hopens hb
      exact ⟨hf, hstands⟩
    · rw [fenced_eq_none hopens]
      constructor
      · intro hlines
        exact .inr ⟨f, hf, hopens, hlines⟩
      · rintro (hnone | ⟨g, hg, hgopens, hlines⟩)
        · exact absurd hopens (hnone f hf)
        · rwa [hopens.unique hgopens]
  · have hnone : ∀ f ∈ formats, ¬ Opens f text.toList := fun f hf hopens => h ⟨f, hf, hopens⟩
    refine ⟨none, find_of_not_opens hnone, fun others hothers =>
      find_of_not_opens fun f hf => hnone f ((hothers f).mp hf), by simp, ?_⟩
    simp only [true_iff]
    exact .inl hnone

end TextPipeline.FrontMatter
