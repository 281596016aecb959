import Mathlib.Data.List.Forall2
import Mathlib.Data.List.TakeWhile
import TextPipeline.Json.Printer
import TextPipeline.Json.Reader

/-! What is written as JSON is read back. A text is not read back alone but with what follows it in a
larger one, so every statement that is proved by induction has a rest of the text in it. The rest
starts with something that no number and no word goes on with. -/

namespace TextPipeline.Json

open TextPipeline.Decimal TextPipeline.Text

/-- What can stand right after a value. -/
def closers : List Char := [',', ']', '\x7d', '\n']

/-- What can stand after a value: nothing, or something that starts with a closer. -/
def Ends (rest : List Char) : Prop :=
  ∀ c ∈ rest.head?, c ∈ closers

theorem ends_nil : Ends [] := by simp [Ends]

theorem ends_cons {c : Char} (h : c ∈ closers) (rest : List Char) : Ends (c :: rest) := by
  simpa [Ends] using h

theorem eq_of_mem_closers {c : Char} (h : c ∈ closers) : c = ',' ∨ c = ']' ∨ c = '\x7d' ∨ c = '\n' := by
  simpa [closers] using h

theorem isDigit_closer {c : Char} (h : c ∈ closers) : isDigit c = false := by
  rcases eq_of_mem_closers h with rfl | rfl | rfl | rfl <;> rfl

/-- The sign of a number and what follows it. -/
def readMinus (s : List Char) : Bool × List Char :=
  match s with
  | '-' :: rest => (true, rest)
  | rest => (false, rest)

theorem readMinus_append {s : List Char} (hs : s ≠ []) (rest : List Char) :
    readMinus (s ++ rest) = ((readMinus s).1, (readMinus s).2 ++ rest) := by
  cases s with
  | nil => exact absurd rfl hs
  | cons a s =>
    by_cases hminus : a = '-'
    · rw [hminus]
      rfl
    · simp [readMinus, hminus]

theorem readNumeral?_eq (s : List Char) :
    readNumeral? s = (readWhole? (readMinus s).2).map fun w =>
      (⟨(readMinus s).1, w.1, (readFraction w.2).1, (readExponent (readFraction w.2).2).1⟩,
        (readExponent (readFraction w.2).2).2) := by
  show (readWhole? (readMinus s).2).bind _ = _
  cases readWhole? (readMinus s).2 <;> rfl

section Scalars

variable {s rest : List Char} (hrest : Ends rest)
include hrest

theorem takeWhile_isDigit_ends : rest.takeWhile isDigit = [] ∧ rest.dropWhile isDigit = rest := by
  cases rest with
  | nil => exact ⟨rfl, rfl⟩
  | cons c rest =>
    have hc : isDigit c = false := isDigit_closer (hrest c rfl)
    exact ⟨List.takeWhile_cons_of_neg (by simp [hc]), List.dropWhile_cons_of_neg (by simp [hc])⟩

theorem takeWhile_isDigit_append :
    (s ++ rest).takeWhile isDigit = s.takeWhile isDigit ∧
      (s ++ rest).dropWhile isDigit = s.dropWhile isDigit ++ rest := by
  induction s with
  | nil => exact takeWhile_isDigit_ends hrest
  | cons c s ih =>
    cases hc : isDigit c with
    | true => simp [hc, ih]
    | false => simp [hc]

theorem isPrefixOf_append_ends {word : List Char} (hword : ∀ c ∈ word, c ∉ closers) :
    word.isPrefixOf (s ++ rest) = word.isPrefixOf s := by
  induction word generalizing s with
  | nil => rfl
  | cons a word ih =>
    obtain ⟨ha, hword⟩ := List.forall_mem_cons.mp hword
    cases s with
    | cons b s => rw [List.cons_append, List.isPrefixOf_cons_cons, List.isPrefixOf_cons_cons, ih hword]
    | nil =>
      cases rest with
      | nil => rfl
      | cons c rest =>
        have hne : a ≠ c := by
          rintro rfl
          exact ha (hrest a rfl)
        simp [List.isPrefixOf, hne]

/-- A word is read with what follows as it is alone. -/
theorem readWord?_append :
    readWord? (s ++ rest) = (readWord? s).map fun r => (r.1, r.2 ++ rest) := by
  have hall (ws : List (List Char × Value)) (hws : ∀ w ∈ ws, ∀ c ∈ w.1, c ∉ closers) :
      (ws.findSome? fun w => if w.1.isPrefixOf (s ++ rest) then
          some (w.2, (s ++ rest).drop w.1.length) else none) =
        (ws.findSome? fun w => if w.1.isPrefixOf s then some (w.2, s.drop w.1.length)
          else none).map fun r => (r.1, r.2 ++ rest) := by
    induction ws with
    | nil => rfl
    | cons w ws ih =>
      obtain ⟨hw, hws⟩ := List.forall_mem_cons.mp hws
      rw [List.findSome?_cons, List.findSome?_cons, isPrefixOf_append_ends hrest hw]
      cases hpre : w.1.isPrefixOf s with
      | false => exact ih hws
      | true =>
        have hle := (List.isPrefixOf_iff_prefix.mp hpre).length_le
        simp [List.drop_append_of_le_length hle]
  refine hall words ?_
  simp [words, closers]

theorem readWhole?_append {digits r : List Char} (h : readWhole? s = some (digits, r)) :
    readWhole? (s ++ rest) = some (digits, r ++ rest) := by
  fun_cases readWhole? s with
  | case1 t =>
    obtain ⟨rfl, rfl⟩ : digits = ['0'] ∧ r = t := by simpa [readWhole?, eq_comm] using h
    rfl
  | case2 c t hzero hc =>
    rw [readWhole?, if_pos hc] at h
    · obtain ⟨rfl, rfl⟩ := Prod.mk.inj (Option.some.inj h)
      obtain ⟨htake, hdrop⟩ := takeWhile_isDigit_append (s := t) hrest
      rw [List.cons_append, readWhole?, if_pos hc, htake, hdrop]
      exact hzero
    · exact hzero
  | case3 c t hzero hc =>
    rw [readWhole?, if_neg hc] at h
    · cases h
    · exact hzero
  | case4 => cases h

theorem readFraction_append :
    readFraction (s ++ rest) = ((readFraction s).1, (readFraction s).2 ++ rest) := by
  have hnone {t : List Char} (h : ∀ c u, t = '.' :: c :: u → isDigit c = false) :
      readFraction t = (none, t) := by
    fun_cases readFraction t with
    | case1 c u hc => simp [h c u rfl] at hc
    | case2 c u hc => rfl
    | case3 t hdot => rfl
  rcases s with _ | ⟨a, _ | ⟨b, s⟩⟩
  · rw [hnone (t := []) (by simp), List.nil_append, hnone]
    rintro c u rfl
    exact absurd (hrest '.' rfl) (by decide)
  · rw [hnone (t := [a]) (by simp), List.singleton_append, hnone]
    rintro c u ht
    obtain ⟨rfl, rfl⟩ := List.cons.inj ht
    exact isDigit_closer (hrest c rfl)
  · cases ha : a == '.' with
    | false =>
      have hne : a ≠ '.' := by simpa using ha
      rw [hnone (t := a :: b :: s) (by simp [hne]), hnone]
      rintro c u ht
      exact absurd (List.cons.inj ht).1 hne
    | true =>
      obtain rfl : a = '.' := by simpa using ha
      obtain ⟨htake, hdrop⟩ := takeWhile_isDigit_append (s := s) hrest
      show readFraction ('.' :: b :: (s ++ rest)) = _
      rw [readFraction, readFraction, htake, hdrop]
      split <;> rfl

theorem readSign_append : readSign (s ++ rest) = ((readSign s).1, (readSign s).2 ++ rest) := by
  cases s with
  | cons a s =>
    by_cases hminus : a = '-'
    · rw [hminus]
      rfl
    · by_cases hplus : a = '+'
      · rw [hplus]
        rfl
      · simp [readSign, hminus, hplus]
  | nil =>
    cases rest with
    | nil => rfl
    | cons c rest =>
      have hc := hrest c rfl
      have hminus : c ≠ '-' := by
        rintro rfl
        exact absurd hc (by decide)
      have hplus : c ≠ '+' := by
        rintro rfl
        exact absurd hc (by decide)
      simp [readSign, hminus, hplus]

theorem readExponent_append :
    readExponent (s ++ rest) = ((readExponent s).1, (readExponent s).2 ++ rest) := by
  cases s with
  | nil =>
    cases rest with
    | nil => rfl
    | cons c rest =>
      have he : (c == 'e' || c == 'E') = false := by
        rcases eq_of_mem_closers (hrest c rfl) with rfl | rfl | rfl | rfl <;> rfl
      simp [readExponent, he]
  | cons a s =>
    cases ha : a == 'e' || a == 'E' with
    | false => simp [readExponent, ha]
    | true =>
      obtain ⟨htake, hdrop⟩ := takeWhile_isDigit_append (s := (readSign s).2) hrest
      simp only [readExponent, List.cons_append, ha, if_true, readSign_append hrest, htake, hdrop]
      split <;> rfl

theorem readNumeral?_append {n : Numeral} {r : List Char} (h : readNumeral? s = some (n, r)) :
    readNumeral? (s ++ rest) = some (n, r ++ rest) := by
  rw [readNumeral?_eq] at h ⊢
  obtain ⟨⟨whole, t⟩, hwhole, hn⟩ := Option.map_eq_some_iff.mp h
  obtain ⟨rfl, rfl⟩ := Prod.mk.inj hn
  have hs : s ≠ [] := by
    rintro rfl
    cases hwhole
  rw [readMinus_append hs, readWhole?_append hrest hwhole, Option.map_some,
    readFraction_append hrest, readExponent_append hrest]

/-- A number or a word is read with what follows as it is alone. -/
theorem readScalar_append {v : Value} {r : List Char} (h : readScalar s = .ok (v, r)) :
    readScalar (s ++ rest) = .ok (v, r ++ rest) := by
  rw [readScalar] at h ⊢
  rw [readWord?_append hrest]
  cases hword : readWord? s with
  | some w =>
    rw [hword] at h
    cases h
    rfl
  | none =>
    rw [hword] at h
    cases hnumeral : readNumeral? s with
    | none => simp [hnumeral] at h
    | some n =>
      rw [hnumeral] at h
      rw [Option.map_none]
      dsimp only at h ⊢
      rw [readNumeral?_append hrest hnumeral]
      cases hvalue : n.1.value with
      | error f => simp [hvalue, Except.map] at h
      | ok x =>
        simp only [hvalue, Except.map, Except.ok.injEq, Prod.mk.injEq] at h ⊢
        exact ⟨h.1, by rw [h.2]⟩

end Scalars

/-- The digits of a number are read as its whole part. -/
theorem readWhole?_toDigits (n : Nat) : readWhole? (Nat.toDigits 10 n) = some (Nat.toDigits 10 n, []) := by
  have hdigits : ∀ c ∈ Nat.toDigits 10 n, isDigit c = true := fun c hc => by
    have h : c.isDigit = true := Nat.isDigit_of_mem_toDigits (by decide) (by decide) hc
    exact h
  have hhead (m : Nat) (hm : m ≠ 0) : ∃ c t, Nat.toDigits 10 m = c :: t ∧ c ≠ '0' := by
    induction m using Nat.strong_induction_on with
    | _ m ih =>
      rw [Nat.toDigits_eq_if (by decide)]
      split
      · rename_i hlt
        refine ⟨_, _, rfl, ?_⟩
        clear ih
        revert hm
        revert m
        decide
      · obtain ⟨c, t, ht, hc⟩ := ih (m / 10) (by omega) (by omega)
        exact ⟨c, t ++ [(m % 10).digitChar], by rw [ht]; rfl, hc⟩
  by_cases hn : n = 0
  · subst hn
    rfl
  · obtain ⟨c, t, ht, hc⟩ := hhead n hn
    rw [ht] at hdigits ⊢
    obtain ⟨hcdigit, htdigits⟩ := List.forall_mem_cons.mp hdigits
    have htake : t.takeWhile isDigit = t := List.takeWhile_eq_self_iff.mpr htdigits
    have hdrop : t.dropWhile isDigit = [] := List.dropWhile_eq_nil_iff.mpr htdigits
    rw [readWhole?, if_pos hcdigit, htake, hdrop]
    rintro rfl
    exact absurd rfl hc

theorem digitsValue_toDigits (n : Nat) : digitsValue (Nat.toDigits 10 n) = n := by
  have h := Nat.ofDigitChars_toDigits (b := 10) (n := n) (by decide) (by decide)
  unfold Nat.ofDigitChars at h
  rw [digitsValue]
  simpa [Nat.mul_comm] using h

/-- A number is no word. -/
theorem readWord?_digits {s : List Char} (h : ∀ c ∈ s.head?, isDigit c = true) :
    readWord? s = none ∧ readWord? ('-' :: s) = none := by
  cases s with
  | nil => decide
  | cons c s =>
    have hc : isDigit c = true := h c rfl
    have hne {d : Char} (hd : isDigit d = false) : d ≠ c := by
      rintro rfl
      rw [hc] at hd
      cases hd
    have hI : 'I' ≠ c := hne (by decide)
    constructor
    · have hn : 'n' ≠ c := hne (by decide)
      have ht : 't' ≠ c := hne (by decide)
      have hf : 'f' ≠ c := hne (by decide)
      have hN : 'N' ≠ c := hne (by decide)
      have hminus : '-' ≠ c := hne (by decide)
      simp [readWord?, words, hn, ht, hf, hN, hI, hminus]
    · simp [readWord?, words, hI]

/-- An integer is read as itself unless it has too many digits. -/
theorem readScalar_int {n : Int} (h : n.natAbs < Nat.pow 10 digitLimit) :
    readScalar (toString n).toList = .ok (.int n, []) := by
  have hn : n.natAbs < 10 ^ digitLimit := by
    -- The limit is a number that is not to be raised to.
    generalize digitLimit = limit at h ⊢
    exact h
  have hhead (m : Nat) : ∀ c ∈ (Nat.toDigits 10 m).head?, isDigit c = true := fun c hc =>
    Nat.isDigit_of_mem_toDigits (b := 10) (n := m) (by decide) (by decide) (List.mem_of_mem_head? hc)
  have hnumeral (negative : Bool) (m : Nat) (hm : m < 10 ^ digitLimit) :
      Numeral.value ⟨negative, Nat.toDigits 10 m, none, none⟩ =
        .ok (.int (if negative then -(m : Int) else m)) := by
    have hlength : (Nat.toDigits 10 m).length ≤ digitLimit :=
      (Nat.length_toDigits_le_iff (by decide) (by decide)).mpr hm
    simp [Numeral.value, Nat.not_lt.mpr hlength, digitsValue_toDigits]
  have hread (negative : Bool) (m : Nat) {s : List Char} (hs : readMinus s = (negative, Nat.toDigits 10 m))
      (hword : readWord? s = none) (hm : m < 10 ^ digitLimit) :
      readScalar s = .ok (.int (if negative then -(m : Int) else m), []) := by
    rw [readScalar, hword]
    dsimp only
    rw [readNumeral?_eq, hs]
    dsimp only
    rw [readWhole?_toDigits, Option.map_some]
    dsimp only [readFraction, readExponent]
    rw [hnumeral negative m hm]
    rfl
  cases n with
  | ofNat m =>
    have htext : (toString (Int.ofNat m)).toList = Nat.toDigits 10 m := Nat.toList_repr
    rw [htext]
    have hs : readMinus (Nat.toDigits 10 m) = (false, Nat.toDigits 10 m) := by
      unfold readMinus
      split
      · rename_i t ht
        have := hhead m '-' (by rw [ht]; rfl)
        cases this
      · rfl
    exact hread false m hs (readWord?_digits (hhead m)).1 hn
  | negSucc m =>
    have htext : (toString (Int.negSucc m)).toList = '-' :: Nat.toDigits 10 (m + 1) := by
      show ("-" ++ Nat.repr (m + 1)).toList = _
      rw [String.toList_append, Nat.toList_repr]
      rfl
    rw [htext]
    exact hread true (m + 1) rfl (readWord?_digits (hhead (m + 1))).2 hn

section Strings

variable {opening rest : List Char}

theorem readUnits_escape {a b : Char} (ha : a ≠ 'u') (hb : escape? a = some b) :
    readUnits opening ('\\' :: a :: rest) =
      (readUnits opening rest).map fun r => (b.toNat :: r.1, r.2) := by
  rw [readUnits.eq_6 opening a rest (fun _ _ _ _ _ _ h => absurd h ha) ha, hb]
  dsimp only
  cases readUnits opening rest <;> rfl

theorem readUnits_hex {a b c d : Char} {n : Nat} (hn : readHex? [a, b, c, d] = some n) (hrest : rest ≠ []) :
    readUnits opening ('\\' :: 'u' :: a :: b :: c :: d :: rest) =
      (readUnits opening rest).map fun r => (n :: r.1, r.2) := by
  obtain ⟨e, rest, rfl⟩ := List.exists_cons_of_ne_nil hrest
  rw [readUnits.eq_4, hn]
  dsimp only
  cases readUnits opening (e :: rest) <;> rfl

theorem readUnits_plain {c : Char} (hquote : c ≠ '"') (hslash : c ≠ '\\') (hc : ¬c.toNat < 0x20) :
    readUnits opening (c :: rest) = (readUnits opening rest).map fun r => (c.toNat :: r.1, r.2) := by
  rw [readUnits.eq_7 opening c rest hquote (fun h _ => hslash h) (fun _ _ _ _ _ _ h _ => hslash h)
    (fun _ h _ => hslash h) (fun _ _ h _ => hslash h), if_neg hc]
  cases readUnits opening rest <;> rfl

theorem readHex?_hex (n : Nat) (h : n < 0x20) :
    ∃ a b c d, hex 4 n = [a, b, c, d] ∧ readHex? [a, b, c, d] = some n := by
  refine ⟨_, _, _, _, rfl, ?_⟩
  revert n
  decide

/-- A character of a string is read as its code unit. -/
theorem readUnits_stringChar (c : Char) (hrest : rest ≠ []) :
    readUnits opening (stringChar c ++ rest) =
      (readUnits opening rest).map fun r => (c.toNat :: r.1, r.2) := by
  unfold stringChar
  split_ifs with hquote hslash hn hr ht hb hf hcontrol
  · rw [beq_iff_eq.mp hquote]
    exact readUnits_escape (by decide) rfl
  · rw [beq_iff_eq.mp hslash]
    exact readUnits_escape (by decide) rfl
  · rw [beq_iff_eq.mp hn]
    exact readUnits_escape (by decide) rfl
  · rw [beq_iff_eq.mp hr]
    exact readUnits_escape (by decide) rfl
  · rw [beq_iff_eq.mp ht]
    exact readUnits_escape (by decide) rfl
  · rw [beq_iff_eq.mp hb]
    exact readUnits_escape (by decide) rfl
  · rw [beq_iff_eq.mp hf]
    exact readUnits_escape (by decide) rfl
  · obtain ⟨a, b, c', d, hdigits, hread⟩ := readHex?_hex c.toNat hcontrol
    rw [hdigits]
    exact readUnits_hex hread hrest
  · exact readUnits_plain (by simpa using hquote) (by simpa using hslash) hcontrol

theorem readUnits_stringText (cs : List Char) :
    readUnits opening (cs.flatMap stringChar ++ '"' :: rest) = .ok (cs.map Char.toNat, rest) := by
  induction cs with
  | nil => exact readUnits.eq_2 opening rest
  | cons c cs ih =>
    rw [List.flatMap_cons, List.append_assoc, readUnits_stringChar c (by simp), ih]
    rfl

/-- The code units of a text spell it: none of its characters is half of a pair. -/
theorem ofUnits_map_toNat (cs : List Char) : ofUnits (cs.map Char.toNat) = cs := by
  have hhalf (c : Char) : ¬(0xD800 ≤ c.toNat ∧ c.toNat < 0xE000) := by
    rcases c.valid with h | ⟨h, -⟩
    · exact fun hc => Nat.lt_irrefl _ (Nat.lt_of_lt_of_le h hc.1)
    · exact fun hc => Nat.lt_irrefl _ (Nat.lt_of_lt_of_le hc.2 h)
  have hunit (c : Char) : unitChar c.toNat = c := by
    rw [unitChar, if_neg (hhalf c), Char.ofNat_toNat]
  induction cs with
  | nil => rfl
  | cons c cs ih =>
    cases cs with
    | nil => exact congrArg (· :: []) (hunit c)
    | cons d cs =>
      have hpair : ¬(0xD800 ≤ c.toNat ∧ c.toNat < 0xDC00 ∧ 0xDC00 ≤ d.toNat ∧ d.toNat < 0xE000) :=
        fun h => hhalf c ⟨h.1, Nat.lt_trans h.2.1 (by decide)⟩
      rw [List.map_cons, List.map_cons, ofUnits, if_neg hpair, hunit]
      exact congrArg (c :: ·) ih

/-- A string is read as its text. -/
theorem readString_stringText (s : String) :
    readString opening (s.toList.flatMap stringChar ++ '"' :: rest) = .ok (s, rest) := by
  rw [readString, readUnits_stringText]
  show Except.ok (String.ofList (ofUnits (s.toList.map Char.toNat)), rest) = _
  rw [ofUnits_map_toNat, String.ofList_toList]

end Strings

mutual

/-- A value with its tuples as lists, which is all that a text tells of them. -/
def listed : Value → Value
  | .list items => .list (listedItems items)
  | .tuple items => .list (listedItems items)
  | .dict entries => .dict (listedEntries entries)
  | v => v

/-- Several values with their tuples as lists. -/
def listedItems : List Value → List Value
  | [] => []
  | v :: rest => listed v :: listedItems rest

/-- Entries with the tuples of their values as lists. -/
def listedEntries : List (Value × Value) → List (Value × Value)
  | [] => []
  | (k, v) :: rest => (k, listed v) :: listedEntries rest

end

theorem listedItems_eq_map (items : List Value) : listedItems items = items.map listed := by
  induction items with
  | nil => rfl
  | cons v items ih => rw [listedItems, ih, List.map_cons]

theorem listedEntries_eq_map (entries : List (Value × Value)) :
    listedEntries entries = entries.map fun e => (e.1, listed e.2) := by
  induction entries with
  | nil => rfl
  | cons e entries ih => rw [listedEntries, ih, List.map_cons]

/-- A value that can be written and read: its integers do not have too many digits, its floats are
read as they are written, and its mappings have texts as keys, each of them once. -/
inductive Legible : Value → Prop
  | none : Legible .none
  | bool (b : Bool) : Legible (.bool b)
  | str (s : String) : Legible (.str s)
  | int {n : Int} : n.natAbs < Nat.pow 10 digitLimit → Legible (.int n)
  | float {x : Float} : readScalar (FloatStyle.data.text x).toList = .ok (.float x, []) →
      Legible (.float x)
  | list {items : List Value} : (∀ v ∈ items, Legible v) → Legible (.list items)
  | tuple {items : List Value} : (∀ v ∈ items, Legible v) → Legible (.tuple items)
  | dict {entries : List (Value × Value)} : (∀ e ∈ entries, ∃ s, e.1 = .str s) →
      (entries.map (·.1)).Nodup → (∀ e ∈ entries, Legible e.2) → Legible (.dict entries)

/-- A text that starts with neither space nor a closer. -/
def Opens (text : List Char) : Prop :=
  ∃ c rest, text = c :: rest ∧ isSpace c = false ∧ c ∉ closers

theorem Opens.append {text : List Char} (h : Opens text) (rest : List Char) : Opens (text ++ rest) := by
  obtain ⟨c, t, rfl, hc⟩ := h
  exact ⟨c, t ++ rest, rfl, hc⟩

/-- A text that is read as a value, whatever it ends with. -/
structure Reads (v : Value) (text : List Char) : Prop where
  opens : Opens text
  reads : ∀ {fuel rest}, text.length ≤ fuel → Ends rest → readValue fuel (text ++ rest) = .ok (v, rest)

/-- The start of what is read as a number or a word. -/
theorem readScalar_opens {s : List Char} {v : Value} {r : List Char} (h : readScalar s = .ok (v, r)) :
    ∃ c rest, s = c :: rest ∧ (isDigit c = true ∨ c ∈ ['-', 'n', 't', 'f', 'N', 'I']) := by
  rw [readScalar] at h
  cases hword : readWord? s with
  | some w =>
    obtain ⟨⟨word, x⟩, hmem, hw⟩ := List.exists_of_findSome?_eq_some hword
    obtain ⟨c, word, rfl, hc⟩ : ∃ c rest, word = c :: rest ∧ c ∈ ['-', 'n', 't', 'f', 'N', 'I'] := by
      simp only [words, List.mem_cons, Prod.mk.injEq, List.not_mem_nil, or_false] at hmem
      rcases hmem with h | h | h | h | h | h <;> exact ⟨_, _, h.1, by decide⟩
    dsimp only at hw
    split at hw
    · rename_i hpre
      obtain ⟨t, rfl⟩ := List.isPrefixOf_iff_prefix.mp hpre
      exact ⟨c, word ++ t, rfl, .inr hc⟩
    · cases hw
  | none =>
    rw [hword] at h
    cases hnumeral : readNumeral? s with
    | none => simp [hnumeral] at h
    | some n =>
      rw [readNumeral?_eq] at hnumeral
      obtain ⟨w, hwhole, -⟩ := Option.map_eq_some_iff.mp hnumeral
      cases s with
      | nil => cases hwhole
      | cons c s =>
        refine ⟨c, s, rfl, ?_⟩
        by_cases hminus : c = '-'
        · exact .inr (by simp [hminus])
        · have hsame : (readMinus (c :: s)).2 = c :: s := by simp [readMinus, hminus]
          rw [hsame] at hwhole
          by_cases hzero : c = '0'
          · exact .inl (by rw [hzero]; decide)
          · rw [readWhole?.eq_2 c s hzero] at hwhole
            split at hwhole
            · rename_i hc
              exact .inl hc
            · cases hwhole

theorem reads_scalar {v : Value} {text : List Char} (h : readScalar text = .ok (v, [])) :
    Reads v text := by
  obtain ⟨c, s, rfl, hc⟩ := readScalar_opens h
  have hne {d : Char} (hd : isDigit d = false) (hd' : d ∉ ['-', 'n', 't', 'f', 'N', 'I']) : c ≠ d := by
    rintro rfl
    rcases hc with hc | hc
    · rw [hc] at hd
      cases hd
    · exact hd' hc
  refine ⟨⟨c, s, rfl, ?_, ?_⟩, fun {fuel rest} hfuel hrest => ?_⟩
  · have hspace : c ≠ ' ' := hne (by decide) (by decide)
    have htab : c ≠ '\t' := hne (by decide) (by decide)
    have hline : c ≠ '\n' := hne (by decide) (by decide)
    have hreturn : c ≠ '\r' := hne (by decide) (by decide)
    simp [isSpace, hspace, htab, hline, hreturn]
  · intro hcloser
    have hstart : c ∉ ['-', 'n', 't', 'f', 'N', 'I'] := by
      rcases eq_of_mem_closers hcloser with rfl | rfl | rfl | rfl <;> decide
    exact hne (isDigit_closer hcloser) hstart rfl
  · obtain ⟨fuel, rfl⟩ := Nat.exists_eq_add_one_of_ne_zero (n := fuel) (by rintro rfl; cases hfuel)
    have hbrace : c ≠ '\x7b' := hne (by decide) (by decide)
    have hbracket : c ≠ '[' := hne (by decide) (by decide)
    have hquote : c ≠ '"' := hne (by decide) (by decide)
    rw [List.cons_append, readValue]
    · exact readScalar_append hrest h
    all_goals simp_all

theorem reads_string (s : String) : Reads (.str s) (stringText s) := by
  refine ⟨⟨'"', _, rfl, by decide, by decide⟩, fun {fuel rest} hfuel _ => ?_⟩
  obtain ⟨fuel, rfl⟩ := Nat.exists_eq_add_one_of_ne_zero (n := fuel) (by rintro rfl; cases hfuel)
  have htext : stringText s ++ rest = '"' :: (s.toList.flatMap stringChar ++ '"' :: rest) := by
    rw [stringText, List.append_assoc]
    rfl
  rw [htext, readValue, readString_stringText]
  rfl

section Space

theorem skipSpace_opens {text : List Char} (h : Opens text) (rest : List Char) :
    skipSpace (text ++ rest) = text ++ rest := by
  obtain ⟨c, t, rfl, hc, -⟩ := h
  exact List.dropWhile_cons_of_neg (by simp [hc])

theorem skipSpace_append {space : List Char} (h : ∀ c ∈ space, isSpace c = true) (rest : List Char) :
    skipSpace (space ++ rest) = skipSpace rest :=
  List.dropWhile_append_of_pos h

/-- Layouts of which the indents are space. -/
def Layout.Spaced : Layout → Prop
  | .compact => True
  | .indented indent => ∀ c ∈ indent, isSpace c = true

variable {layout : Layout}

theorem Layout.Spaced.break (h : layout.Spaced) (depth : Nat) :
    ∀ c ∈ layout.break depth, isSpace c = true := by
  cases layout with
  | compact => exact fun c hc => by cases hc
  | indented indent =>
    refine List.forall_mem_cons.mpr ⟨rfl, fun c hc => ?_⟩
    obtain ⟨l, hl, hc⟩ := List.mem_flatten.mp hc
    rw [List.eq_of_mem_replicate hl] at hc
    exact h c hc

theorem Layout.Spaced.separator (h : layout.Spaced) (depth : Nat) :
    ∃ space, layout.separator depth = ',' :: space ∧ ∀ c ∈ space, isSpace c = true := by
  cases layout with
  | compact => exact ⟨[' '], rfl, List.forall_mem_singleton.mpr rfl⟩
  | indented indent => exact ⟨_, rfl, Layout.Spaced.break h depth⟩

theorem Layout.ends_break (layout : Layout) (depth : Nat) {c : Char} (hc : c ∈ closers)
    (rest : List Char) : Ends (layout.break depth ++ c :: rest) := by
  cases layout with
  | compact => exact ends_cons hc rest
  | indented indent => exact ends_cons (by decide) _

end Space

section Elements

variable {fuel : Nat} {s r rest : List Char} {v : Value}

theorem readItems_last (hv : readValue fuel s = .ok (v, r)) (hr : skipSpace r = ']' :: rest) :
    readItems (fuel + 1) s = .ok ([v], rest) := by
  simp only [readItems, bind, Except.bind, hv, hr]
  rfl

theorem readItems_more {items : List Value} (hv : readValue fuel s = .ok (v, ',' :: r))
    (hr : readItems fuel (skipSpace r) = .ok (items, rest)) :
    readItems (fuel + 1) s = .ok (v :: items, rest) := by
  have hcomma : skipSpace (',' :: r) = ',' :: r := rfl
  simp only [readItems, bind, Except.bind, hv, hcomma, hr]
  rfl

variable {name t : List Char} {key : String}
  (hname : readString ('"' :: name) name = .ok (key, ':' :: t))
include hname

theorem readMembers_last (hv : readValue fuel (skipSpace t) = .ok (v, r))
    (hr : skipSpace r = '\x7d' :: rest) :
    readMembers (fuel + 1) ('"' :: name) = .ok ([(.str key, v)], rest) := by
  have hcolon : skipSpace (':' :: t) = ':' :: t := rfl
  simp only [readMembers, bind, Except.bind, hname, hcolon, hv, hr]
  rfl

theorem readMembers_more {members : List (Value × Value)}
    (hv : readValue fuel (skipSpace t) = .ok (v, ',' :: r))
    (hr : readMembers fuel (skipSpace r) = .ok (members, rest)) :
    readMembers (fuel + 1) ('"' :: name) = .ok ((.str key, v) :: members, rest) := by
  have hcolon : skipSpace (':' :: t) = ':' :: t := rfl
  have hcomma : skipSpace (',' :: r) = ',' :: r := rfl
  simp only [readMembers, bind, Except.bind, hname, hcolon, hv, hcomma, hr]
  rfl

end Elements

/-- The name of a member and its value, read one after the other. -/
def ReadsMember (e : Value × Value) (text : List Char) : Prop :=
  ∃ name value, e.1 = .str name ∧ text = stringText name ++ ':' :: ' ' :: value ∧ Reads e.2 value

theorem ReadsMember.opens {e : Value × Value} {text : List Char} (h : ReadsMember e text) :
    Opens text := by
  obtain ⟨name, value, -, rfl, -⟩ := h
  exact ⟨'"', _, rfl, by decide, by decide⟩

theorem opens_intercalate {text : List Char} (h : Opens text) (between : List Char)
    (texts : List (List Char)) : Opens (between.intercalate (text :: texts)) := by
  obtain ⟨c, t, rfl, hc⟩ := h
  cases texts with
  | nil => exact ⟨c, t, List.intercalate_singleton, hc⟩
  | cons u texts => exact ⟨c, _, by rw [List.intercalate_cons_cons]; rfl, hc⟩

section Collections

variable {space before : List Char} (hspace : ∀ c ∈ space, isSpace c = true)
  (hbefore : ∀ c ∈ before, isSpace c = true)
include hspace hbefore

/-- The elements of a list are read one after the other. -/
theorem readItems_reads (hends : ∀ rest, Ends (before ++ ']' :: rest)) {items : List Value}
    {texts : List (List Char)} (h : List.Forall₂ Reads items texts) (hne : texts ≠ []) {fuel : Nat}
    (rest : List Char) (hfuel : ((',' :: space).intercalate texts).length < fuel) :
    readItems fuel ((',' :: space).intercalate texts ++ (before ++ ']' :: rest)) = .ok (items, rest) := by
  induction h generalizing fuel with
  | nil => exact absurd rfl hne
  | @cons v text items texts hv hrest ih =>
    obtain ⟨fuel, rfl⟩ := Nat.exists_eq_add_one_of_ne_zero (n := fuel) (by rintro rfl; cases hfuel)
    cases hrest with
    | nil =>
      rw [List.intercalate_singleton] at hfuel ⊢
      exact readItems_last (hv.reads (Nat.le_of_lt_succ hfuel) (hends rest))
        (skipSpace_append hbefore _)
    | @cons w text' items texts hw hrest =>
      rw [List.intercalate_cons_cons, List.length_append, List.length_append, List.length_cons] at hfuel
      rw [List.intercalate_cons_cons, List.append_assoc, List.append_assoc, List.cons_append]
      refine readItems_more (hv.reads (by omega) (ends_cons (by decide) _)) ?_
      rw [skipSpace_append hspace, skipSpace_opens (opens_intercalate hw.opens _ _)]
      exact ih (by simp) (by omega)

/-- The members of a mapping are read one after the other. -/
theorem readMembers_reads (hends : ∀ rest, Ends (before ++ '\x7d' :: rest))
    {entries : List (Value × Value)} {texts : List (List Char)}
    (h : List.Forall₂ ReadsMember entries texts) (hne : texts ≠ []) {fuel : Nat}
    (rest : List Char) (hfuel : ((',' :: space).intercalate texts).length < fuel) :
    readMembers fuel ((',' :: space).intercalate texts ++ (before ++ '\x7d' :: rest)) =
      .ok (entries, rest) := by
  induction h generalizing fuel with
  | nil => exact absurd rfl hne
  | @cons e text entries texts he hrest ih =>
    obtain ⟨fuel, rfl⟩ := Nat.exists_eq_add_one_of_ne_zero (n := fuel) (by rintro rfl; cases hfuel)
    obtain ⟨k, v⟩ := e
    obtain ⟨name, value, hk, rfl, hv⟩ := he
    obtain rfl : k = .str name := hk
    have htext (u : List Char) : stringText name ++ ':' :: ' ' :: value ++ u =
        '"' :: (name.toList.flatMap stringChar ++ '"' :: ':' :: ' ' :: (value ++ u)) := by
      simp [stringText]
    have hname (u : List Char) : readString
        ('"' :: (name.toList.flatMap stringChar ++ '"' :: ':' :: ' ' :: (value ++ u)))
        (name.toList.flatMap stringChar ++ '"' :: ':' :: ' ' :: (value ++ u)) =
          .ok (name, ':' :: ' ' :: (value ++ u)) := readString_stringText name
    have hskip (u : List Char) : skipSpace (' ' :: (value ++ u)) = value ++ u :=
      skipSpace_opens hv.opens u
    cases hrest with
    | nil =>
      rw [List.intercalate_singleton] at hfuel ⊢
      rw [List.length_append, List.length_cons, List.length_cons] at hfuel
      rw [htext]
      refine readMembers_last (r := before ++ '\x7d' :: rest) (hname _) ?_ ?_
      · rw [hskip]
        exact hv.reads (by omega) (hends rest)
      · exact skipSpace_append hbefore _
    | @cons e' text' entries texts he' hrest =>
      rw [List.intercalate_cons_cons, List.length_append, List.length_append, List.length_append,
        List.length_cons, List.length_cons, List.length_cons] at hfuel
      rw [List.intercalate_cons_cons, List.append_assoc, List.append_assoc, List.cons_append, htext]
      refine readMembers_more (r := space ++ ((',' :: space).intercalate (text' :: texts) ++
        (before ++ '\x7d' :: rest))) (hname _) ?_ ?_
      · rw [hskip]
        exact hv.reads (by omega) (ends_cons (by decide) _)
      · rw [skipSpace_append hspace, skipSpace_opens (opens_intercalate he'.opens _ _)]
        exact ih (by simp) (by omega)

end Collections

section Brackets

variable {fuel : Nat} {s t rest : List Char}

theorem readValue_list {items : List Value} (hs : skipSpace s = t) (ht : Opens t)
    (h : readItems fuel t = .ok (items, rest)) :
    readValue (fuel + 1) ('[' :: s) = .ok (.list items, rest) := by
  obtain ⟨c, t, rfl, -, hc⟩ := ht
  have hne : c ≠ ']' := by
    rintro rfl
    exact hc (by decide)
  simp only [readValue, bind, Except.bind, hs]
  split
  · rename_i hclose
    exact absurd (List.cons.inj hclose).1 hne
  · rw [h]
    rfl

theorem readValue_dict {entries : List (Value × Value)} (hs : skipSpace s = t) (ht : Opens t)
    (h : readMembers fuel t = .ok (entries, rest)) :
    readValue (fuel + 1) ('\x7b' :: s) = .ok (.dict (Entries.ofList entries), rest) := by
  obtain ⟨c, t, rfl, -, hc⟩ := ht
  have hne : c ≠ '\x7d' := by
    rintro rfl
    exact hc (by decide)
  simp only [readValue, bind, Except.bind, hs]
  split
  · rename_i hclose
    exact absurd (List.cons.inj hclose).1 hne
  · rw [h]
    rfl

theorem enclose_cons (layout : Layout) (depth : Nat) (opening closing : Char) (text : List Char)
    (texts : List (List Char)) :
    layout.enclose depth opening closing (text :: texts) ++ rest =
      opening :: (layout.break (depth + 1) ++ ((layout.separator (depth + 1)).intercalate (text :: texts) ++
        (layout.break depth ++ closing :: rest))) := by
  simp [Layout.enclose]

theorem length_enclose_cons (layout : Layout) (depth : Nat) (opening closing : Char) (text : List Char)
    (texts : List (List Char)) :
    ((layout.separator (depth + 1)).intercalate (text :: texts)).length + 2 ≤
      (layout.enclose depth opening closing (text :: texts)).length := by
  simp only [Layout.enclose, List.length_append, List.length_cons, List.length_nil]
  omega

variable {layout : Layout} (hlayout : layout.Spaced) (depth : Nat)
include hlayout

theorem reads_list {items : List Value} {texts : List (List Char)} (h : List.Forall₂ Reads items texts) :
    Reads (.list items) (layout.enclose depth '[' ']' texts) := by
  obtain ⟨space, hseparator, hspace⟩ := hlayout.separator (depth + 1)
  cases h with
  | nil =>
    refine ⟨⟨'[', [']'], rfl, by decide, by decide⟩, fun {fuel rest} hfuel _ => ?_⟩
    obtain ⟨fuel, rfl⟩ := Nat.exists_eq_add_one_of_ne_zero (n := fuel) (by rintro rfl; cases hfuel)
    rfl
  | @cons v text items texts hv hrest =>
    refine ⟨⟨'[', _, rfl, by decide, by decide⟩, fun {fuel rest} hfuel _ => ?_⟩
    have hlength := length_enclose_cons layout depth '[' ']' text texts
    obtain ⟨fuel, rfl⟩ := Nat.exists_eq_add_one_of_ne_zero (n := fuel) (by rintro rfl; omega)
    rw [hseparator] at hlength
    rw [enclose_cons, hseparator]
    have hopens := opens_intercalate hv.opens (',' :: space) texts
    refine readValue_list (skipSpace_append (hlayout.break _) _) ?_ ?_
    · rw [skipSpace_opens hopens]
      exact hopens.append _
    · rw [skipSpace_opens hopens]
      exact readItems_reads hspace (hlayout.break depth) (layout.ends_break depth (by decide))
        (.cons hv hrest) (by simp) rest (by omega)

/-- Entries with different keys are all kept. -/
theorem reads_dict {entries : List (Value × Value)} {texts : List (List Char)}
    (h : List.Forall₂ ReadsMember entries texts) (hentries : Entries.ofList entries = entries) :
    Reads (.dict entries) (layout.enclose depth '\x7b' '\x7d' texts) := by
  obtain ⟨space, hseparator, hspace⟩ := hlayout.separator (depth + 1)
  cases h with
  | nil =>
    refine ⟨⟨'\x7b', ['\x7d'], rfl, by decide, by decide⟩, fun {fuel rest} hfuel _ => ?_⟩
    obtain ⟨fuel, rfl⟩ := Nat.exists_eq_add_one_of_ne_zero (n := fuel) (by rintro rfl; cases hfuel)
    rfl
  | @cons e text entries texts he hrest =>
    refine ⟨⟨'\x7b', _, rfl, by decide, by decide⟩, fun {fuel rest} hfuel _ => ?_⟩
    have hlength := length_enclose_cons layout depth '\x7b' '\x7d' text texts
    obtain ⟨fuel, rfl⟩ := Nat.exists_eq_add_one_of_ne_zero (n := fuel) (by rintro rfl; omega)
    rw [hseparator] at hlength
    rw [enclose_cons, hseparator, ← hentries]
    have hopens := opens_intercalate he.opens (',' :: space) texts
    refine readValue_dict (skipSpace_append (hlayout.break _) _) ?_ ?_
    · rw [skipSpace_opens hopens]
      exact hopens.append _
    · rw [skipSpace_opens hopens]
      exact readMembers_reads hspace (hlayout.break depth) (layout.ends_break depth (by decide))
        (.cons he hrest) (by simp) rest (by omega)

end Brackets

section Writing

/-- Entries whose keys are different texts are the entries that they make one after another. -/
theorem ofList_of_nodup {entries : List (Value × Value)} (hkeys : ∀ e ∈ entries, ∃ s, e.1 = .str s)
    (h : (entries.map (·.1)).Nodup) : Entries.ofList entries = entries := by
  have hequals {k j : Value} (hk : ∃ s, k = .str s) (hj : ∃ s, j = .str s) (hne : k ≠ j) :
      k.equals j = false := by
    obtain ⟨s, rfl⟩ := hk
    obtain ⟨t, rfl⟩ := hj
    have hst : s ≠ t := fun hst => hne (by rw [hst])
    simp [Value.equals, Value.equalsWith, hst]
  have hinsert (key v : Value) (hkey : ∃ s, key = .str s) (made : List (Value × Value))
      (hmade : ∀ e ∈ made, ∃ s, e.1 = .str s) (hnew : key ∉ made.map (·.1)) :
      Entries.insert key v made = made ++ [(key, v)] := by
    induction made with
    | nil => rfl
    | cons e made ih =>
      obtain ⟨he, hmade⟩ := List.forall_mem_cons.mp hmade
      rw [List.map_cons, List.mem_cons, not_or] at hnew
      rw [Entries.insert, hequals he hkey (Ne.symm hnew.1), ih hmade hnew.2]
      rfl
  have hfold (made : List (Value × Value)) (hmade : ∀ e ∈ made ++ entries, ∃ s, e.1 = .str s)
      (hnodup : ((made ++ entries).map (·.1)).Nodup) :
      entries.foldl (fun made e => Entries.insert e.1 e.2 made) made = made ++ entries := by
    clear hkeys h
    induction entries generalizing made with
    | nil => rw [List.append_nil]; rfl
    | cons e entries ih =>
      have hmove : made ++ e :: entries = made ++ [e] ++ entries := by simp
      rw [List.map_append, List.map_cons, List.nodup_append] at hnodup
      have hnew : e.1 ∉ made.map (·.1) := fun hmem =>
        hnodup.2.2 e.1 hmem e.1 List.mem_cons_self rfl
      rw [List.foldl_cons, hinsert e.1 e.2 (hmade e (by simp)) made
        (fun x hx => hmade x (List.mem_append_left _ hx)) hnew, hmove]
      refine ih (made ++ [e]) (by rw [← hmove]; exact hmade) ?_
      rw [← hmove, List.map_append, List.map_cons, List.nodup_append]
      exact hnodup
  exact hfold [] hkeys h

variable {layout : Layout}

theorem writeItems_reads {depth : Nat} {items : List Value}
    (h : ∀ v ∈ items, ∃ text, write layout depth v = .ok text ∧ Reads (listed v) text) :
    ∃ texts, writeItems layout depth items = .ok texts ∧
      List.Forall₂ Reads (listedItems items) texts := by
  induction items with
  | nil => exact ⟨[], rfl, .nil⟩
  | cons v items ih =>
    obtain ⟨⟨text, hwrite, hreads⟩, hitems⟩ := List.forall_mem_cons.mp h
    obtain ⟨texts, hwrites, hrest⟩ := ih hitems
    refine ⟨text :: texts, ?_, .cons hreads hrest⟩
    rw [writeItems, hwrite, hwrites]
    rfl

theorem writeMembers_reads {depth : Nat} {entries : List (Value × Value)}
    (hkeys : ∀ e ∈ entries, ∃ s, e.1 = .str s)
    (h : ∀ e ∈ entries, ∃ text, write layout depth e.2 = .ok text ∧ Reads (listed e.2) text) :
    ∃ texts, writeMembers layout depth entries = .ok texts ∧
      List.Forall₂ ReadsMember (listedEntries entries) texts := by
  induction entries with
  | nil => exact ⟨[], rfl, .nil⟩
  | cons e entries ih =>
    obtain ⟨k, v⟩ := e
    obtain ⟨⟨name, hk⟩, hrestkeys⟩ := List.forall_mem_cons.mp hkeys
    obtain rfl : k = .str name := hk
    obtain ⟨⟨text, hwrite, hreads⟩, hentries⟩ := List.forall_mem_cons.mp h
    obtain ⟨texts, hwrites, hrest⟩ := ih hrestkeys hentries
    refine ⟨(stringText name ++ [':', ' '] ++ text) :: texts, ?_, .cons ?_ hrest⟩
    · rw [writeMembers, hwrite, hwrites]
      rfl
    · exact ⟨name, text, rfl, by simp, hreads⟩

/-- A legible value can be written, and what is written is read as the value. -/
theorem Legible.write_reads (hlayout : layout.Spaced) {v : Value} (h : Legible v) (depth : Nat) :
    ∃ text, write layout depth v = .ok text ∧ Reads (listed v) text := by
  induction h generalizing depth with
  | none => exact ⟨_, rfl, reads_scalar rfl⟩
  | bool b => cases b <;> exact ⟨_, rfl, reads_scalar rfl⟩
  | str s => exact ⟨_, rfl, reads_string s⟩
  | @int n hn =>
    refine ⟨_, ?_, reads_scalar (readScalar_int hn)⟩
    show (do return (← integerText n).toList) = _
    rw [integerText, if_pos hn]
    rfl
  | float hx => exact ⟨_, rfl, reads_scalar hx⟩
  | @list items _ ih =>
    obtain ⟨texts, hwrite, hreads⟩ := writeItems_reads fun v hv => ih v hv (depth + 1)
    refine ⟨_, ?_, reads_list hlayout depth hreads⟩
    rw [write, hwrite]
    rfl
  | @tuple items _ ih =>
    obtain ⟨texts, hwrite, hreads⟩ := writeItems_reads fun v hv => ih v hv (depth + 1)
    refine ⟨_, ?_, reads_list hlayout depth hreads⟩
    rw [write, hwrite]
    rfl
  | @dict entries hkeys hnodup _ ih =>
    obtain ⟨texts, hwrite, hreads⟩ := writeMembers_reads hkeys fun e he => ih e he (depth + 1)
    have hentries : Entries.ofList (listedEntries entries) = listedEntries entries := by
      rw [listedEntries_eq_map]
      refine ofList_of_nodup ?_ ?_
      · intro e he
        obtain ⟨x, hx, rfl⟩ := List.mem_map.mp he
        exact hkeys x hx
      · rw [List.map_map]
        exact hnodup
    refine ⟨_, ?_, reads_dict hlayout depth hreads hentries⟩
    rw [write, hwrite]
    rfl

/-- The text of a mapping is read as the mapping, also with space after it. -/
theorem ofString_toText (hlayout : layout.Spaced) {entries : List (Value × Value)}
    (h : Legible (.dict entries)) :
    ∃ text, toText layout (.dict entries) = .ok text ∧ text ≠ "" ∧
      ∀ ending ∈ ["", "\n"], ofString (text ++ ending) = .ok (listed (.dict entries)) := by
  obtain ⟨text, hwrite, hreads⟩ := h.write_reads hlayout 0
  obtain ⟨rest, htext⟩ : ∃ rest, text = '\x7b' :: rest := by
    rw [write] at hwrite
    cases hmembers : writeMembers layout 1 entries with
    | error f => rw [hmembers] at hwrite; cases hwrite
    | ok texts =>
      rw [hmembers] at hwrite
      obtain rfl : layout.enclose 0 '\x7b' '\x7d' texts = text := Except.ok.inj hwrite
      cases texts <;> exact ⟨_, rfl⟩
  refine ⟨String.ofList text, ?_, ?_, fun ending hending => ?_⟩
  · rw [toText, hwrite]
    rfl
  · rw [htext]
    intro hnil
    have := congrArg String.toList hnil
    simp at this
  · have hends : Ends ending.toList ∧ skipSpace ending.toList = [] := by
      simp only [List.mem_cons, List.not_mem_nil, or_false] at hending
      rcases hending with rfl | rfl
      · exact ⟨ends_nil, rfl⟩
      · exact ⟨ends_cons (by decide) _, rfl⟩
    have hlength : text.length ≤ (text ++ ending.toList).length + 1 := by
      rw [List.length_append]
      omega
    have hread := hreads.reads hlength hends.1
    rw [ofString, String.toList_append, String.toList_ofList]
    have hall : read (text ++ ending.toList) = .ok (listed (.dict entries)) := by
      rw [htext, List.cons_append] at hread
      rw [htext, List.cons_append]
      have hskip : skipSpace ('\x7b' :: (rest ++ ending.toList)) = '\x7b' :: (rest ++ ending.toList) :=
        rfl
      unfold read
      dsimp only
      rw [hskip, hread]
      simp only [bind, Except.bind, hends.2]
      rfl
    rw [hall]

end Writing

end TextPipeline.Json
