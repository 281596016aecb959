import TextPipeline.Proofs.Recording

/-! Texts that are not read as trees. What JSON spells is data, and data that describe no tree are
refused as such. Two faults are not told in these words: an integer with more digits than are read, and
a place in a document that is infinitely far. -/

namespace TextPipeline.Json

open TextPipeline.Decimal

/-- What reading from a text comes to: something of which `P` is true with a rest of the text, a place
at which the text is malformed, or digits in it that are too many. -/
inductive Yields {α : Type} (P : α → Prop) (s : List Char) : Except Failure (α × List Char) → Prop
  | ok {a : α} {rest : List Char} : P a → rest <:+ s → Yields P s (.ok (a, rest))
  | malformed (problem : Problem) (rest : List Char) : Yields P s (.error (.malformed problem rest))
  | tooMany {digits : List Char} : digits <:+: s → (∀ c ∈ digits, isDigit c) →
      digitLimit < digits.length → Yields P s (.error (.tooManyDigits digits.length))

section

variable {α β : Type} {P : α → Prop} {Q : β → Prop} {s t : List Char}

theorem Yields.mono {r : Except Failure (α × List Char)} (h : Yields P t r) (hts : t <:+ s) :
    Yields P s r := by
  cases h with
  | ok ha hrest => exact .ok ha (hrest.trans hts)
  | malformed problem rest => exact .malformed problem rest
  | tooMany hrun hdigits hlong => exact .tooMany (hrun.trans hts.isInfix) hdigits hlong

theorem Yields.bind {x : Except Failure (α × List Char)} {f : α × List Char → Except Failure (β × List Char)}
    (hx : Yields P s x) (hf : ∀ a rest, P a → rest <:+ s → Yields Q s (f (a, rest))) :
    Yields Q s (x >>= f) := by
  cases hx with
  | ok ha hrest => exact hf _ _ ha hrest
  | malformed problem rest => exact .malformed problem rest
  | tooMany hrun hdigits hlong => exact .tooMany hrun hdigits hlong

end

theorem skipSpace_suffix (s : List Char) : skipSpace s <:+ s :=
  List.dropWhile_suffix _

theorem yields_readUnits (opening s : List Char) :
    Yields (fun _ => True) s (readUnits opening s) := by
  have hmore {s t : List Char} {r : Except Failure (List Nat × List Char)} (n : Nat)
      (h : Yields (fun _ => True) t r) (ht : t <:+ s) :
        Yields (fun _ => True) s (r >>= fun read => .ok (n :: read.1, read.2)) := by
    refine (h.mono ht).bind fun units rest _ hrest => ?_
    exact .ok trivial hrest
  fun_induction readUnits opening s with
  | case1 | case3 | case5 | case6 | case8 | case9 => exact .malformed _ _
  | case2 rest => exact .ok trivial (List.suffix_cons _ _)
  | case4 a b c d e rest n hn ih => exact hmore n ih ⟨['\\', 'u', a, b, c, d], rfl⟩
  | case7 c rest _ _ d hd ih => exact hmore _ ih ⟨['\\', c], rfl⟩
  | case10 c rest _ _ _ _ _ _ ih => exact hmore _ ih ⟨[c], rfl⟩

theorem yields_readString (opening s : List Char) :
    Yields (fun _ => True) s (readString opening s) := by
  refine (yields_readUnits opening s).bind fun units rest _ hrest => ?_
  exact .ok trivial hrest

/-- A number that is made of digits one after the other has no more digits than those. -/
theorem foldl_digits_lt {α : Type} {f : α → Nat} {l : List α} (h : ∀ a ∈ l, f a < 10) (n : Nat) :
    l.foldl (fun n a => n * 10 + f a) n < (n + 1) * 10 ^ l.length := by
  induction l generalizing n with
  | nil => simp
  | cons a l ih =>
    obtain ⟨ha, hl⟩ := List.forall_mem_cons.mp h
    calc l.foldl (fun n a => n * 10 + f a) (n * 10 + f a)
        < (n * 10 + f a + 1) * 10 ^ l.length := ih hl _
      _ ≤ ((n + 1) * 10) * 10 ^ l.length := Nat.mul_le_mul_right _ (by omega)
      _ = (n + 1) * 10 ^ (a :: l).length := by rw [List.length_cons, Nat.pow_succ', Nat.mul_assoc]

/-- An integer that is read has few enough digits to be written. -/
theorem foldl_digits_lt_limit {α : Type} {f : α → Nat} {l : List α} (h : ∀ a ∈ l, f a < 10)
    (hl : l.length ≤ digitLimit) :
    l.foldl (fun n a => n * 10 + f a) 0 < Nat.pow 10 digitLimit := by
  have hlt := foldl_digits_lt h 0
  rw [Nat.zero_add, Nat.one_mul] at hlt
  exact Nat.lt_of_lt_of_le hlt (pow_le_limit hl)

theorem natAbs_signed (negative : Bool) (n : Nat) :
    (if negative then -(n : Int) else (n : Int)).natAbs = n := by
  split <;> simp

/-- What a text in JSON spells: data of lists and dicts, with integers that can be written. -/
inductive Spelled : Value → Prop
  | none : Spelled .none
  | bool (b : Bool) : Spelled (.bool b)
  | int {n : Int} : n.natAbs < Nat.pow 10 digitLimit → Spelled (.int n)
  | float (x : Float) : Spelled (.float x)
  | str (s : String) : Spelled (.str s)
  | list {items : List Value} : (∀ v ∈ items, Spelled v) → Spelled (.list items)
  | dict {entries : List (Value × Value)} : (∀ e ∈ entries, ∃ s, e.1 = .str s) →
      (∀ e ∈ entries, Spelled e.2) → Spelled (.dict entries)

theorem readWhole?_some {s digits rest : List Char} (h : readWhole? s = some (digits, rest)) :
    digits ++ rest = s ∧ ∀ c ∈ digits, isDigit c := by
  fun_cases readWhole? s with
  | case1 t =>
    obtain ⟨rfl, rfl⟩ : digits = ['0'] ∧ rest = t := by simpa [readWhole?, eq_comm] using h
    exact ⟨rfl, by simp [isDigit]⟩
  | case2 c t _ hc =>
    obtain ⟨rfl, rfl⟩ : digits = c :: t.takeWhile isDigit ∧ rest = t.dropWhile isDigit := by
      simpa [readWhole?, hc, eq_comm] using h
    refine ⟨by rw [List.cons_append, List.takeWhile_append_dropWhile], fun d hd => ?_⟩
    rcases List.mem_cons.mp hd with rfl | hd
    · exact hc
    · exact List.mem_takeWhile_imp hd
  | case3 c t _ hc => simp [readWhole?, hc] at h
  | case4 => cases h

theorem readMinus_suffix (s : List Char) : (readMinus s).2 <:+ s := by
  unfold readMinus
  split
  · exact List.suffix_cons _ _
  · exact List.suffix_refl _

theorem readFraction_suffix (s : List Char) : (readFraction s).2 <:+ s := by
  unfold readFraction
  split
  · split
    · exact (List.dropWhile_suffix _).trans ⟨['.', _], rfl⟩
    · exact List.suffix_refl _
  · exact List.suffix_refl _

theorem readSign_suffix (s : List Char) : (readSign s).2 <:+ s := by
  unfold readSign
  split
  · exact List.suffix_cons _ _
  · exact List.suffix_cons _ _
  · exact List.suffix_refl _

theorem readExponent_suffix (s : List Char) : (readExponent s).2 <:+ s := by
  unfold readExponent
  split
  · rename_i c rest
    split
    · dsimp only
      split
      · exact List.suffix_refl _
      · exact (List.dropWhile_suffix _).trans ((readSign_suffix rest).trans (List.suffix_cons _ _))
    · exact List.suffix_refl _
  · exact List.suffix_refl _

/-- A numeral stands in the text that it is read from. -/
theorem readNumeral?_some {s rest : List Char} {n : Numeral} (h : readNumeral? s = some (n, rest)) :
    rest <:+ s ∧ n.whole <:+: s ∧ ∀ c ∈ n.whole, isDigit c := by
  rw [readNumeral?_eq] at h
  obtain ⟨⟨digits, t⟩, hwhole, hn⟩ := Option.map_eq_some_iff.mp h
  obtain ⟨rfl, rfl⟩ := Prod.mk.inj hn
  obtain ⟨hsplit, hdigits⟩ := readWhole?_some hwhole
  have hminus := readMinus_suffix s
  have ht : t <:+ s := List.IsSuffix.trans ⟨digits, hsplit⟩ hminus
  have hleft : (readExponent (readFraction t).2).2 <:+ t :=
    (readExponent_suffix _).trans (readFraction_suffix t)
  exact ⟨hleft.trans ht, (show digits <:+: _ from ⟨[], t, hsplit⟩).trans hminus.isInfix, hdigits⟩

theorem readWord?_some {s rest : List Char} {v : Value} (h : readWord? s = some (v, rest)) :
    Spelled v ∧ rest <:+ s := by
  obtain ⟨⟨word, x⟩, hw, hfound⟩ := List.exists_of_findSome?_eq_some h
  dsimp only at hfound
  split at hfound
  · obtain ⟨rfl, rfl⟩ := Prod.mk.inj (Option.some.inj hfound)
    refine ⟨?_, List.drop_suffix _ _⟩
    simp only [words, List.mem_cons, Prod.mk.injEq, List.not_mem_nil, or_false] at hw
    rcases hw with ⟨-, rfl⟩ | ⟨-, rfl⟩ | ⟨-, rfl⟩ | ⟨-, rfl⟩ | ⟨-, rfl⟩ | ⟨-, rfl⟩
    · exact .none
    · exact .bool true
    · exact .bool false
    · exact .float _
    · exact .float _
    · exact .float _
  · cases hfound

theorem yields_readScalar (s : List Char) : Yields Spelled s (readScalar s) := by
  unfold readScalar
  split
  · rename_i result hword
    obtain ⟨hdata, hrest⟩ := readWord?_some hword
    exact .ok hdata hrest
  · split
    · rename_i n rest hnumeral
      obtain ⟨hrest, hwhole, hdigits⟩ := readNumeral?_some hnumeral
      unfold Numeral.value
      split
      · split
        · rename_i hlong
          exact .tooMany hwhole hdigits hlong
        · rename_i hshort
          have hvalue : ∀ c ∈ n.whole, c.toNat - 48 < 10 := fun c hc => by
            have hdigit := hdigits c hc
            simp only [isDigit, Bool.and_eq_true, decide_eq_true_eq] at hdigit
            have h9 : c.toNat ≤ '9'.toNat := hdigit.2
            have h9 : c.toNat ≤ 57 := h9
            omega
          refine .ok (.int ?_) hrest
          rw [natAbs_signed]
          exact foldl_digits_lt_limit hvalue (Nat.le_of_not_lt hshort)
      · exact .ok (.float _) hrest
    · exact .malformed _ _

/-- Members with texts as names and data as values, before their names are told apart. -/
def Members (members : List (Value × Value)) : Prop :=
  ∀ e ∈ members, (∃ s, e.1 = .str s) ∧ Spelled e.2

theorem members_insert {entries : Entries} (h : Members entries) {key v : Value}
    (hkey : ∃ s, key = .str s) (hv : Spelled v) : Members (Entries.insert key v entries) := by
  induction entries with
  | nil => simpa [Entries.insert, Members] using ⟨hkey, hv⟩
  | cons e entries ih =>
    obtain ⟨k, w⟩ := e
    obtain ⟨hk, hrest⟩ := List.forall_mem_cons.mp h
    rw [Entries.insert]
    split
    · exact List.forall_mem_cons.mpr ⟨⟨hk.1, hv⟩, hrest⟩
    · exact List.forall_mem_cons.mpr ⟨hk, ih hrest⟩

theorem Members.ofList {members : List (Value × Value)} (h : Members members) :
    Spelled (.dict (Entries.ofList members)) := by
  have hfold (entries : Entries) (hentries : Members entries) :
      Members (members.foldl (fun entries e => Entries.insert e.1 e.2 entries) entries) := by
    induction members generalizing entries with
    | nil => exact hentries
    | cons e members ih =>
      obtain ⟨he, hmembers⟩ := List.forall_mem_cons.mp h
      exact ih hmembers _ (members_insert hentries he.1 he.2)
  have hall := hfold [] (by simp [Members])
  exact .dict (fun e he => (hall e he).1) fun e he => (hall e he).2

/-- The elements of an array, read one after the other. -/
def Items (items : List Value) : Prop := ∀ v ∈ items, Spelled v

section

variable {fuel : Nat}

theorem suffix_of_skipSpace {s rest : List Char} {c : Char} (h : skipSpace s = c :: rest) : rest <:+ s :=
  (List.suffix_cons c rest).trans (h ▸ skipSpace_suffix s)

theorem yields_readValue (hmembers : ∀ s, Yields Members s (readMembers fuel s))
    (hitems : ∀ s, Yields Items s (readItems fuel s)) (s : List Char) :
    Yields Spelled s (readValue (fuel + 1) s) := by
  unfold readValue
  split
  · rename_i h
    cases h
  · rename_i fuel' rest h
    obtain rfl : fuel = fuel' := Nat.succ.inj h
    split
    · rename_i hbrace
      exact .ok (.dict (by simp) (by simp))
        ((suffix_of_skipSpace hbrace).trans (List.suffix_cons _ rest))
    · refine ((hmembers _).mono (skipSpace_suffix rest)).mono (List.suffix_cons _ rest)
        |>.bind fun members rest' hread hrest => ?_
      exact .ok hread.ofList hrest
  · rename_i fuel' rest h
    obtain rfl : fuel = fuel' := Nat.succ.inj h
    split
    · rename_i hbracket
      exact .ok (.list (by simp)) ((suffix_of_skipSpace hbracket).trans (List.suffix_cons _ rest))
    · refine ((hitems _).mono (skipSpace_suffix rest)).mono (List.suffix_cons _ rest)
        |>.bind fun items rest' hread hrest => ?_
      exact .ok (.list hread) hrest
  · rename_i rest h
    refine (yields_readString _ rest).mono (List.suffix_cons _ rest) |>.bind fun t rest' _ hrest => ?_
    exact .ok (.str t) hrest
  · exact yields_readScalar _

theorem yields_readMembers (hvalue : ∀ s, Yields Spelled s (readValue fuel s))
    (hmembers : ∀ s, Yields Members s (readMembers fuel s)) (s : List Char) :
    Yields Members s (readMembers (fuel + 1) s) := by
  unfold readMembers
  split
  · rename_i h
    cases h
  · rename_i fuel' rest h
    obtain rfl : fuel = fuel' := Nat.succ.inj h
    refine (yields_readString _ rest).mono (List.suffix_cons _ rest)
      |>.bind fun name afterName _ hname => ?_
    dsimp only
    split
    · rename_i hcolon
      refine ((hvalue _).mono ((skipSpace_suffix _).trans ((suffix_of_skipSpace hcolon).trans hname)))
        |>.bind fun v afterValue hv hafter => ?_
      dsimp only
      split
      · rename_i hbrace
        exact .ok (by simpa [Members] using hv) ((suffix_of_skipSpace hbrace).trans hafter)
      · rename_i hcomma
        refine ((hmembers _).mono ((skipSpace_suffix _).trans ((suffix_of_skipSpace hcomma).trans hafter)))
          |>.bind fun others last hothers hlast => ?_
        exact .ok (List.forall_mem_cons.mpr ⟨⟨⟨name, rfl⟩, hv⟩, hothers⟩) hlast
      · exact .malformed _ _
    · exact .malformed _ _
  · exact .malformed _ _

theorem yields_readItems (hvalue : ∀ s, Yields Spelled s (readValue fuel s))
    (hitems : ∀ s, Yields Items s (readItems fuel s)) (s : List Char) :
    Yields Items s (readItems (fuel + 1) s) := by
  unfold readItems
  refine (hvalue s).bind fun v afterValue hv hafter => ?_
  dsimp only
  split
  · rename_i hbracket
    exact .ok (by simpa [Items] using hv) ((suffix_of_skipSpace hbracket).trans hafter)
  · rename_i hcomma
    refine ((hitems _).mono ((skipSpace_suffix _).trans ((suffix_of_skipSpace hcomma).trans hafter)))
      |>.bind fun others last hothers hlast => ?_
    exact .ok (List.forall_mem_cons.mpr ⟨hv, hothers⟩) hlast
  · exact .malformed _ _

end

theorem yields_read (fuel : Nat) :
    (∀ s, Yields Spelled s (readValue fuel s)) ∧ (∀ s, Yields Members s (readMembers fuel s)) ∧
      ∀ s, Yields Items s (readItems fuel s) := by
  induction fuel with
  | zero => exact ⟨fun s => .malformed _ _, fun s => .malformed _ _, fun s => .malformed _ _⟩
  | succ fuel ih =>
    obtain ⟨hvalue, hmembers, hitems⟩ := ih
    exact ⟨yields_readValue hmembers hitems, yields_readMembers hvalue hmembers,
      yields_readItems hvalue hitems⟩

theorem read_cases (s : List Char) :
    (∃ v, read s = .ok v ∧ Spelled v) ∨ (∃ problem rest, read s = .error (.malformed problem rest)) ∨
      ∃ digits, digits <:+: s ∧ (∀ c ∈ digits, isDigit c) ∧ digitLimit < digits.length ∧
        read s = .error (.tooManyDigits digits.length) := by
  unfold read
  split
  · exact .inr (.inl ⟨_, _, rfl⟩)
  · have h := ((yields_read (s.length + 1)).1 (skipSpace s)).mono (skipSpace_suffix s)
    generalize readValue (s.length + 1) (skipSpace s) = r at h
    cases h with
    | malformed problem rest => exact .inr (.inl ⟨problem, rest, rfl⟩)
    | tooMany hrun hdigits hlong => exact .inr (.inr ⟨_, hrun, hdigits, hlong, rfl⟩)
    | @ok v rest hv _ =>
      cases hrest : skipSpace rest with
      | nil =>
        refine .inl ⟨v, ?_, hv⟩
        simp only [bind, Except.bind, hrest]
        rfl
      | cons c t =>
        refine .inr (.inl ⟨.extra, c :: t, ?_⟩)
        simp only [bind, Except.bind, hrest]

/-- A text spells data, is no JSON, or has an integer of more digits in it than are read. -/
theorem ofString_cases (text : String) :
    (∃ raw, ofString text = .ok raw ∧ Spelled raw) ∨
      (∃ f said, ofString text = .error f ∧ f.isKind "JSONDecodeError" = true ∧
        f.render = .ok said) ∨
      ∃ digits, digits <:+: text.toList ∧ (∀ c ∈ digits, isDigit c) ∧ digitLimit < digits.length ∧
        ofString text = .error (Value.tooManyDigits digits.length) := by
  have hkind (problem : Problem) (rest : List Char) :
      (Failure.fault text.toList (.malformed problem rest)).isKind "JSONDecodeError" = true := rfl
  have htext (problem : Problem) (rest : List Char) : ∃ said,
      (Failure.fault text.toList (.malformed problem rest)).render = .ok said :=
    ⟨_, by unfold Failure.fault Fault.render Value.render; rfl⟩
  rcases read_cases text.toList with ⟨v, hread, hv⟩ | ⟨problem, rest, hread⟩ |
    ⟨digits, hrun, hdigits, hlong, hread⟩
  · exact .inl ⟨v, by rw [ofString, hread], hv⟩
  · obtain ⟨said, hsaid⟩ := htext problem rest
    exact .inr (.inl ⟨_, said, by rw [ofString, hread], hkind problem rest, hsaid⟩)
  · exact .inr (.inr ⟨digits, hrun, hdigits, hlong, by rw [ofString, hread]; rfl⟩)

end TextPipeline.Json

namespace TextPipeline.Tree

open TextPipeline.Decimal

/-- The fault of a place that is infinitely far. -/
def boundless : Fault :=
  .raised "OverflowError" [.str "cannot convert float infinity to integer"]

/-- Whether a record of a point has an infinite line or column. -/
def FarPoint (raw : Value) : Prop :=
  ∃ entries, raw = .dict entries ∧ ∃ name ∈ ["line", "column"], ∃ x negative,
    Entries.get? entries name = some (.float x) ∧ parts x = .infinity negative

/-- Whether a record of a tree has a position with such a point. -/
inductive Far : Value → Prop
  | point {entries position : Entries} {name : String} {raw : Value} :
      Entries.get? entries "position" = some (.dict position) → name ∈ ["start", "end"] →
        Entries.get? position name = some raw → FarPoint raw → Far (.dict entries)
  | child {entries : Entries} {items : List Value} {raw : Value} :
      (.str "children", .list items) ∈ entries → raw ∈ items → Far raw → Far (.dict entries)

/-- Whether a fault says that something could not be read. -/
def IsParsing (f : Fault) : Prop :=
  ∃ message stage origin, f = .parsing message stage origin

theorem isParsing_badRecord (path detail : String) (origin : Option Fault) :
    IsParsing (badRecord path detail origin) := ⟨_, _, _, rfl⟩

theorem isParsing_badPoint (path detail : String) (origin : Option Fault) :
    IsParsing (badPoint path detail origin) := ⟨_, _, _, rfl⟩

/-- A fault of making a point that can be told in a message. -/
def Complains (f : Fault) : Prop := isPointFault f = true ∧ ∃ said, f.render = .ok said

theorem toInteger_error {v : Value} {f : Fault} (h : v.toInteger = .error f) :
    Complains f ∨ f = boundless ∧ ∃ x negative, v = .float x ∧ parts x = .infinity negative := by
  have hread {s : List Char} {shown : String} (h : Value.readInteger s shown = .error f) :
      Complains f := by
    unfold Value.readInteger at h
    split at h
    · cases h
    · obtain rfl := Except.error.inj h
      exact ⟨rfl, _, rfl⟩
    · obtain rfl := Except.error.inj h
      exact ⟨rfl, _, rfl⟩
  unfold Value.toInteger at h
  split at h
  · cases h
  · cases h
  · rename_i x
    split at h
    · obtain rfl := Except.error.inj h
      exact .inl ⟨rfl, _, rfl⟩
    · rename_i negative hparts
      exact .inr ⟨(Except.error.inj h).symm, x, negative, rfl, hparts⟩
    · cases h
  · exact .inl (hread h)
  · exact .inl (hread h)
  · obtain rfl := Except.error.inj h
    exact .inl ⟨rfl, _, rfl⟩

/-! An integer that is made of what JSON spells can be written. -/

theorem digits?_lt {fresh : Bool} {s : List Char} {digits : List Nat} (h : digits? fresh s = some digits) :
    ∀ d ∈ digits, d < 10 := by
  fun_induction digits? fresh s generalizing digits with
  | case1 => cases h
  | case2 =>
    obtain rfl := Option.some.inj h
    simp
  | case3 => cases h
  | case4 _ _ _ ih => exact ih h
  | case5 fresh c rest hc ih =>
    obtain ⟨d, hd, h⟩ := Option.bind_eq_some_iff.mp h
    obtain ⟨others, hothers, h⟩ := Option.bind_eq_some_iff.mp h
    obtain rfl := Option.some.inj h
    refine List.forall_mem_cons.mpr ⟨?_, ih hothers⟩
    unfold Text.digit? at hd
    split at hd
    · rename_i hrange
      obtain rfl := Option.some.inj hd
      omega
    · split at hd
      · cases hd
      · obtain ⟨base, hbase, rfl⟩ := Option.map_eq_some_iff.mp hd
        have hrange := List.find?_some hbase
        simp only [decide_eq_true_eq] at hrange
        omega

theorem integer?_lt {s : List Char} {n : Int} (h : integer? s = .ok n) :
    n.natAbs < Nat.pow 10 digitLimit := by
  unfold integer? at h
  dsimp only at h
  split at h
  · cases h
  · rename_i digits hdigits
    split at h
    · cases h
    · rename_i hshort
      split at h
      · cases h
      · obtain rfl := Except.ok.inj h
        rw [Json.natAbs_signed]
        exact Json.foldl_digits_lt_limit (digits?_lt hdigits) (Nat.le_of_not_lt hshort)

/-- A mantissa and an exponent of few enough bits make a number of few enough digits. -/
theorem mul_pow_lt {mantissa exponent a b : Nat} (hm : mantissa < 2 ^ a) (he : exponent ≤ b)
    (hlimit : a + b ≤ digitLimit) : mantissa * 2 ^ exponent < Nat.pow 10 digitLimit := by
  have hpos : 0 < 2 ^ b := Nat.pow_pos (by decide)
  calc mantissa * 2 ^ exponent ≤ mantissa * 2 ^ b :=
        Nat.mul_le_mul_left _ (Nat.pow_le_pow_right (by decide) he)
    _ < 2 ^ a * 2 ^ b := Nat.mul_lt_mul_of_pos_right hm hpos
    _ = 2 ^ (a + b) := (Nat.pow_add 2 a b).symm
    _ ≤ 10 ^ (a + b) := Nat.pow_le_pow_left (by decide) _
    _ ≤ Nat.pow 10 digitLimit := Json.pow_le_limit hlimit

/-- A floating-point number that is finite is less than the powers of two that it cannot reach. -/
theorem truncate_lt {x : Float} {b : Binary} (h : parts x = .finite b) :
    b.truncate.natAbs < Nat.pow 10 digitLimit := by
  obtain ⟨hmantissa, hexponent⟩ : b.mantissa < 2 ^ 53 ∧ b.exponent ≤ 971 := by
    unfold parts partsOfBits at h
    have hfraction : x.toBits.toNat % Nat.pow 2 52 < 2 ^ 52 := Nat.mod_lt _ (by decide)
    have hexponent : x.toBits.toNat / Nat.pow 2 52 % Nat.pow 2 11 < 2 ^ 11 := Nat.mod_lt _ (by decide)
    have hpow : Nat.pow 2 52 = 2 ^ 52 := rfl
    generalize x.toBits.toNat % Nat.pow 2 52 = fraction at h hfraction
    generalize x.toBits.toNat / Nat.pow 2 52 % Nat.pow 2 11 = exponent at h hexponent
    dsimp only at h
    rw [hpow] at h
    split at h
    · split at h <;> cases h
    · rename_i hfinite
      have hfinite : exponent ≠ 2047 := by simpa using hfinite
      split at h
      · obtain rfl := Parts.finite.inj h
        exact ⟨by dsimp only; omega, by dsimp only; omega⟩
      · obtain rfl := Parts.finite.inj h
        exact ⟨by dsimp only; omega, by dsimp only; omega⟩
  have hsize : b.truncate.natAbs ≤ b.mantissa * 2 ^ b.exponent.toNat := by
    rw [Binary.truncate, Binary.fraction, Int.natAbs_tdiv, Int.natAbs_mul, Binary.signed,
      Json.natAbs_signed, Int.natAbs_natCast]
    exact Nat.div_le_self _ _
  have hreach : b.exponent.toNat ≤ 971 := by omega
  exact hsize.trans_lt (mul_pow_lt hmantissa hreach (by decide))

theorem toInteger_lt {v : Value} (hv : Json.Spelled v) {n : Int} (h : v.toInteger = .ok n) :
    n.natAbs < Nat.pow 10 digitLimit := by
  cases hv with
  | int hn =>
    obtain rfl := Except.ok.inj h
    exact hn
  | bool b =>
    obtain rfl := Except.ok.inj h
    have hone : 1 < Nat.pow 10 digitLimit :=
      Nat.lt_of_lt_of_le (by decide : 1 < 10 ^ 1) (Json.pow_le_limit (by decide))
    cases b
    · exact Nat.lt_trans Nat.zero_lt_one hone
    · exact hone
  | float x =>
    unfold Value.toInteger at h
    dsimp only at h
    split at h
    · cases h
    · cases h
    · rename_i b hparts
      obtain rfl := Except.ok.inj h
      exact truncate_lt hparts
  | str s =>
    unfold Value.toInteger Value.readInteger at h
    dsimp only at h
    split at h
    · rename_i hread
      obtain rfl := Except.ok.inj h
      exact integer?_lt hread
    · cases h
    · cases h
  | none | list | dict => cases h

/-- Numbers that JSON spells can be told in a message. -/
theorem render_int {n : Int} (hn : n.natAbs < Nat.pow 10 digitLimit) :
    (Value.int n).render = .ok (toString n) := by
  rw [Value.render, Value.inspect, integerText, if_pos hn]
  all_goals simp

theorem isBelow_error {v : Value} {n : Int} {f : Fault} (h : v.isBelow n = .error f) :
    f = Value.unordered v (.int n) := by
  unfold Value.isBelow at h
  split at h
  · split at h <;> cases h
  · cases h
  · cases h
  · exact (Except.error.inj h).symm

theorem render_of_isBelow {v : Value} (hv : Json.Spelled v) {n : Int} {b : Bool} (h : v.isBelow n = .ok b) :
    ∃ said, v.render = .ok said := by
  cases hv with
  | int hn => exact ⟨_, render_int hn⟩
  | bool b => exact ⟨_, rfl⟩
  | float x => exact ⟨_, rfl⟩
  | none | str | list | dict => cases h

theorem make_error {n m : Int} (hline : n.natAbs < Nat.pow 10 digitLimit)
    (hcolumn : m.natAbs < Nat.pow 10 digitLimit) {offset : Value} (hoffset : Json.Spelled offset) {f : Fault}
    (h : PointOf.make (.int n) (.int m) offset = .error f) : Complains f := by
  have hearly : PointOf.tooEarly (.int n) (.int m) = .ok (.validation (.str
      ("Point line and column are 1-based, got " ++ toString n ++ ":" ++ toString m)) none none) := by
    rw [PointOf.tooEarly, render_int hline, render_int hcolumn]
    rfl
  have hbelow (k : Int) : (Value.int k).isBelow 1 = .ok (decide (k < 1)) := rfl
  unfold PointOf.make at h
  rw [hbelow, hbelow, hearly] at h
  by_cases hn : n < 1
  · simp only [hn, decide_true] at h
    obtain rfl := Except.error.inj h
    exact ⟨rfl, _, rfl⟩
  by_cases hm : m < 1
  · simp only [hn, hm, decide_true, decide_false] at h
    obtain rfl := Except.error.inj h
    exact ⟨rfl, _, rfl⟩
  simp only [hn, hm, decide_false] at h
  cases hnone : offset.isNone with
  | true =>
    rw [hnone] at h
    cases h
  | false =>
    rw [hnone] at h
    change (offset.isBelow 0 >>= _) = _ at h
    rcases Outcome.of_bind_error h with hbelow | ⟨below, hread, h⟩
    · rw [isBelow_error hbelow]
      exact ⟨rfl, _, rfl⟩
    · cases below with
      | true =>
        obtain ⟨said, hsaid⟩ := render_of_isBelow hoffset hread
        rw [if_pos rfl, PointOf.negative, hsaid] at h
        obtain rfl := Except.error.inj h
        exact ⟨rfl, _, rfl⟩
      | false => cases h

theorem spelled_get? {entries : Entries} (h : ∀ e ∈ entries, Json.Spelled e.2) {name : String} {v : Value}
    (hv : Entries.get? entries name = some v) : Json.Spelled v := by
  obtain ⟨e, he, rfl⟩ := Option.map_eq_some_iff.mp hv
  exact h e (List.mem_of_find?_eq_some he)

theorem ofPointRecord_error {path : String} {raw : Value} (hraw : Json.Spelled raw) {f : Fault}
    (h : ofPointRecord path raw = .error f) : IsParsing f ∨ f = boundless ∧ FarPoint raw := by
  unfold ofPointRecord at h
  split at h
  · rename_i kind entries
    obtain ⟨rfl, hvalues⟩ : kind = .dict ∧ ∀ e ∈ entries, Json.Spelled e.2 := by
      cases hraw with
      | dict _ hvalues => exact ⟨rfl, hvalues⟩
    split at h
    · rename_i line column hline hcolumn
      dsimp only at h
      split at h
      · cases h
      · rename_i g hmade
        have hknown : Complains g ∨ g = boundless ∧ FarPoint (.dict entries) := by
          rcases Outcome.of_bind_error hmade with hread | ⟨n, hn, hmade⟩
          · refine (toInteger_error hread).imp_right ?_
            rintro ⟨hg, x, negative, rfl, hparts⟩
            exact ⟨hg, entries, rfl, "line", by simp, x, negative, hline, hparts⟩
          rcases Outcome.of_bind_error hmade with hread | ⟨m, hm, hmade⟩
          · refine (toInteger_error hread).imp_right ?_
            rintro ⟨hg, x, negative, rfl, hparts⟩
            exact ⟨hg, entries, rfl, "column", by simp, x, negative, hcolumn, hparts⟩
          · refine .inl (make_error (toInteger_lt (spelled_get? hvalues hline) hn)
              (toInteger_lt (spelled_get? hvalues hcolumn) hm) ?_ hmade)
            cases hoffset : Entries.get? entries "offset" with
            | none => exact .none
            | some offset => exact spelled_get? hvalues hoffset
        rcases hknown with ⟨hg, said, hsaid⟩ | ⟨rfl, hfar⟩
        · rw [if_pos hg, hsaid] at h
          obtain rfl := Except.error.inj h
          exact .inl (isParsing_badPoint _ _ _)
        · rw [if_neg (by decide)] at h
          obtain rfl := Except.error.inj h
          exact .inr ⟨rfl, hfar⟩
    · obtain rfl := Except.error.inj h
      exact .inl (isParsing_badPoint _ _ _)
  · obtain rfl := Except.error.inj h
    exact .inl (isParsing_badPoint _ _ _)

theorem ofPositionRecord_error {path : String} {raw : Value} (hspelled : Json.Spelled raw) {f : Fault}
    (h : ofPositionRecord path raw = .error f) :
    IsParsing f ∨ f = boundless ∧ ∃ position, raw = .dict position ∧ ∃ name ∈ ["start", "end"],
      ∃ point, Entries.get? position name = some point ∧ FarPoint point := by
  have hfield {position : Entries} {name : String} (hname : name ∈ ["start", "end"]) (hraw : raw = .dict position)
      (h : ofPointRecord (path ++ ".position." ++ name) (Value.ofOption (Entries.get? position name)) =
        .error f) : IsParsing f ∨ f = boundless ∧ ∃ position, raw = .dict position ∧
          ∃ name ∈ ["start", "end"], ∃ point, Entries.get? position name = some point ∧ FarPoint point := by
    have hpoint : Json.Spelled (Value.ofOption (Entries.get? position name)) := by
      subst hraw
      cases hspelled with
      | dict _ hvalues =>
        cases hpoint : Entries.get? position name with
        | none => exact .none
        | some point => exact spelled_get? hvalues hpoint
    refine (ofPointRecord_error hpoint h).imp_right ?_
    rintro ⟨hf, hfar⟩
    cases hpoint : Entries.get? position name with
    | none =>
      rw [hpoint] at hfar
      obtain ⟨entries, hentries, -⟩ := hfar
      cases hentries
    | some point =>
      rw [hpoint] at hfar
      exact ⟨hf, position, hraw, name, hname, point, hpoint, hfar⟩
  unfold ofPositionRecord at h
  split at h
  · cases h
  · rename_i kind position
    obtain rfl : kind = .dict := by
      cases hspelled with
      | dict => rfl
    rcases Outcome.of_bind_error h with hstart | ⟨start, -, h⟩
    · exact hfield (by simp) rfl hstart
    rcases Outcome.of_bind_error h with hstop | ⟨stop, -, h⟩
    · exact hfield (by simp) rfl hstop
    · cases h
  · obtain rfl := Except.error.inj h
    exact .inl ⟨_, _, _, rfl⟩

/-- Texts can be told in a message, so unknown keys of a record of data are. -/
theorem checkKeys_error {path : String} {entries : Entries} {f : Fault}
    (hkeys : ∀ e ∈ entries, ∃ s, e.1 = .str s) (h : checkKeys path entries = .error f) : IsParsing f := by
  unfold checkKeys at h
  dsimp only at h
  have hunknown : ∀ v ∈ (entries.map (·.1)).filter fun k => !k.among (recordKeys.map .str),
      ∃ s, v = .str s := fun v hv => by
    obtain ⟨e, he, rfl⟩ := List.mem_map.mp (List.mem_of_mem_filter hv)
    exact hkeys e he
  obtain ⟨told, htold⟩ := Settings.joinSorted_str hunknown
  rw [htold] at h
  split at h
  · cases h
  · obtain rfl := Except.error.inj h
    exact isParsing_badRecord _ _ _

mutual

/-- What is amiss with data is told as a violation. -/
theorem checkData_error : (v : Value) → {path : String} → {f : Fault} →
    v.checkData path = .error f → ∃ parameter message, f = .violation parameter message
  | .none, _, _, h | .bool _, _, _, h | .int _, _, _, h | .float _, _, _, h | .str _, _, _, h => by
    cases h
  | .mapping _ entries, _, _, h => checkEntries_error entries h
  | .list items, _, _, h => checkItems_error items h
  | .sequence _ items, _, _, h => checkItems_error items h
  | .bytes _, _, _, h | .set _, _, _, h | .moment _, _, _, h | .node _, _, _, h | .point _, _, _, h
  | .span _ _, _, _, h | .error _, _, _, h | .settings _ _, _, _, h | .callable _, _, _, h
  | .anonymous, _, _, h | .awaitable _, _, _, h | .handle _, _, _, h | .document _ _ _, _, _, h
  | .other _ _, _, _, h =>
    ⟨_, _, (Except.error.inj h).symm⟩

theorem checkItems_error : (items : List Value) → {path : String} → {i : Nat} → {f : Fault} →
    Value.checkItems path i items = .error f → ∃ parameter message, f = .violation parameter message
  | [], _, _, _, h => by cases h
  | v :: rest, _, _, _, h => by
    rcases Outcome.of_bind_error h with hv | ⟨_, -, hrest⟩
    · exact checkData_error v hv
    · exact checkItems_error rest hrest

theorem checkEntries_error : (entries : List (Value × Value)) → {path : String} → {f : Fault} →
    Value.checkEntries path entries = .error f → ∃ parameter message, f = .violation parameter message
  | [], _, _, h => by cases h
  | (key, v) :: rest, path, f, h => by
    unfold Value.checkEntries at h
    split at h
    · cases h
    · rename_i hcons
      obtain ⟨hpair, rfl⟩ := List.cons.inj hcons
      obtain ⟨-, rfl⟩ := Prod.mk.inj hpair
      rcases Outcome.of_bind_error h with hv | ⟨_, -, hrest⟩
      · exact checkData_error v hv
      · exact checkEntries_error rest hrest
    · exact ⟨_, _, (Except.error.inj h).symm⟩

end

theorem nodeOf_error {path : String} {type children value data position : Value} {f : Fault}
    (h : nodeOf path type children value data position = .error f) :
    f.isKind "ValidationError" = true ∧ ∃ said, f.render = .ok said := by
  have hmake {f : Fault} (h : NodeOf.make type children value data.asDict position = .error f) :
      ∃ parameter message, f = .violation parameter message := by
    unfold NodeOf.make at h
    split at h
    · split at h
      · exact ⟨_, _, (Except.error.inj h).symm⟩
      · split at h
        · exact ⟨_, _, (Except.error.inj h).symm⟩
        · cases h
    · exact ⟨_, _, (Except.error.inj h).symm⟩
  have hdata {f : Fault} (h : data.validateData (path ++ ".data") = .error f) :
      ∃ parameter message, f = .violation parameter message := by
    unfold Value.validateData at h
    split at h
    · exact checkEntries_error _ h
    · exact ⟨_, _, (Except.error.inj h).symm⟩
  obtain ⟨parameter, message, rfl⟩ : ∃ parameter message, f = .violation parameter message := by
    unfold nodeOf at h
    split at h
    · exact hmake h
    · rcases Outcome.of_bind_error h with h | ⟨_, -, h⟩
      · exact hdata h
      · exact hmake h
  exact ⟨rfl, message, rfl⟩

theorem ofFields_error {path : String} {entries : Entries} (hvalues : ∀ e ∈ entries, Json.Spelled e.2)
    {children : Option (List Value)} {f : Fault} (h : ofFields path entries children = .error f) :
    IsParsing f ∨ f = boundless ∧ Far (.dict entries) := by
  rw [ofFields_eq] at h
  rcases Outcome.of_bind_error h with hvalue | ⟨value, -, h⟩
  · unfold textField at hvalue
    split at hvalue
    · cases hvalue
    · cases hvalue
    · obtain rfl := Except.error.inj hvalue
      exact .inl (isParsing_badRecord _ _ _)
  rcases Outcome.of_bind_error h with hposition | ⟨position, -, h⟩
  · have hspelled : Json.Spelled (Value.ofOption (Entries.get? entries "position")) := by
      cases hplace : Entries.get? entries "position" with
      | none => exact .none
      | some place => exact spelled_get? hvalues hplace
    refine (ofPositionRecord_error hspelled hposition).imp_right ?_
    rintro ⟨hf, place, hplace, name, hname, point, hpoint, hfar⟩
    refine ⟨hf, .point ?_ hname hpoint hfar⟩
    cases hfield : Entries.get? entries "position" with
    | none =>
      rw [hfield] at hplace
      cases hplace
    | some v =>
      rw [hfield] at hplace
      exact congrArg some hplace
  · unfold reported at h
    split at h
    · cases h
    · rename_i hmade
      obtain ⟨hkind, said, hsaid⟩ := nodeOf_error hmade
      rw [if_pos hkind, hsaid] at h
      obtain rfl := Except.error.inj h
      exact .inl (isParsing_badRecord _ _ _)

theorem ofRecords_error {path : String} {i : Nat} {items : List Value} {f : Fault}
    (h : ofRecords path i items = .error f) : ∃ raw ∈ items, ∃ path, ofRecord path raw = .error f := by
  induction items generalizing i with
  | nil => cases h
  | cons raw items ih =>
    rw [ofRecords] at h
    rcases Outcome.of_bind_error h with hfirst | ⟨first, -, h⟩
    · exact ⟨raw, List.mem_cons_self, _, hfirst⟩
    rcases Outcome.of_bind_error h with hothers | ⟨others, -, h⟩
    · obtain ⟨raw', hraw', herror⟩ := ih hothers
      exact ⟨raw', List.mem_cons_of_mem _ hraw', herror⟩
    · cases h

/-- Data that describe no tree are refused as such, unless they put something infinitely far. -/
theorem ofRecord_error {path : String} {raw : Value} {f : Fault} (hraw : Json.Spelled raw)
    (h : ofRecord path raw = .error f) : IsParsing f ∨ f = boundless ∧ Far raw := by
  induction hsize : sizeOf raw using Nat.strongRecOn generalizing raw path with
  | ind size ih =>
    cases hraw with
    | @dict entries hkeys hvalues =>
      rw [ofRecord] at h
      rcases Outcome.of_bind_error h with hunknown | ⟨_, -, h⟩
      · exact .inl (checkKeys_error hkeys hunknown)
      rcases Outcome.of_bind_error h with hchildren | ⟨children, -, h⟩
      · rcases ofChildrenField_cases path entries with hnone | ⟨items, hitems, hsome⟩ | herror
        · cases hnone.symm.trans hchildren
        · rcases Outcome.of_bind_error (hsome.symm.trans hchildren) with hrecords | ⟨_, -, hdone⟩
          · obtain ⟨raw, hraw, path', herror⟩ := ofRecords_error hrecords
            have hdata : Json.Spelled raw := by
              cases hvalues _ hitems with
              | list hall => exact hall raw hraw
            have hsmaller : sizeOf raw < size := hsize ▸ sizeOf_child_lt hitems hraw
            rcases ih _ hsmaller hdata herror rfl with hf | ⟨hf, hfar⟩
            · exact .inl hf
            · exact .inr ⟨hf, .child hitems hraw hfar⟩
          · cases hdone
        · obtain rfl := Except.error.inj (herror.symm.trans hchildren)
          exact .inl (isParsing_badRecord _ _ _)
      rcases Outcome.of_bind_error h with hfields | ⟨n, -, h⟩
      · exact ofFields_error hvalues hfields
      · cases h
    | _ =>
      obtain rfl := Except.error.inj h
      exact .inl (isParsing_badRecord _ _ _)

/-- A text is read as a valid tree or refused as the text of none. There are two exceptions: an integer
of more digits than are read, and a position with an infinite line or column. -/
theorem ofJson_reads_or_refuses (text : String) :
    (∃ tree, ofJson text = .ok tree ∧ validate "tree" tree = .ok ()) ∨
      (∃ f, ofJson text = .error f ∧ IsParsing f) ∨
      (∃ digits, digits <:+: text.toList ∧ (∀ c ∈ digits, Json.isDigit c) ∧ digitLimit < digits.length ∧
        ofJson text = .error (Value.tooManyDigits digits.length)) ∨
      ∃ raw, Json.ofString text = .ok raw ∧ Far raw ∧ ofJson text = .error boundless := by
  rcases Json.ofString_cases text with ⟨raw, hraw, hdata⟩ | ⟨f, said, hraw, hkind, hsaid⟩ |
    ⟨digits, hrun, hdigits, hlong, hraw⟩
  · have hjson : ofJson text = ofRecord "tree" raw := by rw [ofJson, hraw]
    rw [hjson]
    cases hread : ofRecord "tree" raw with
    | ok tree =>
      have hvalid := ((every_decoded hread).mono fun n hn => hn.checked).validate "tree"
      exact .inl ⟨tree, rfl, hvalid⟩
    | error f =>
      rcases ofRecord_error hdata hread with hf | ⟨rfl, hfar⟩
      · exact .inr (.inl ⟨f, rfl, hf⟩)
      · exact .inr (.inr (.inr ⟨raw, hraw, hfar, rfl⟩))
  · have herror : ofJson text =
        .error (.parsing (.str ("Invalid JSON tree: " ++ said)) (some "json") (some f)) := by
      rw [ofJson, hraw]
      simp only [hkind, if_true, hsaid]
      rfl
    exact .inr (.inl ⟨_, herror, _, _, _, rfl⟩)
  · refine .inr (.inr (.inl ⟨digits, hrun, hdigits, hlong, ?_⟩))
    rw [ofJson, hraw]
    rfl

/-- A tree whose position starts at a line without end is not refused as it should be. -/
theorem infinite_line_escapes :
    ofJson ("\x7b\"type\": \"a\", \"position\": \x7b\"start\": " ++
      "\x7b\"line\": Infinity, \"column\": null\x7d\x7d\x7d") = .error boundless ∧
    ¬IsParsing boundless := by
  let point : List (String × Value) := [("line", .float (1.0 / 0.0)), ("column", .none)]
  let fields : List (String × Value) := [("type", .str "a"),
    ("position", .record [("start", .record point)])]
  have hinfinity : Json.Legible (.float (1.0 / 0.0)) := .float rfl
  have hpointLegible : Json.Legible (.record point) :=
    legible_record (show ["line", "column"].Nodup by decide) (by simpa [point] using ⟨hinfinity, .none⟩)
  have hlegible : Json.Legible (.record fields) := by
    have hposition : Json.Legible (.record [("start", .record point)]) :=
      legible_record (show ["start"].Nodup by decide) (by simpa using hpointLegible)
    exact legible_record (show ["type", "position"].Nodup by decide)
      (by simpa [fields] using ⟨.str "a", hposition⟩)
  have hspaced : Json.Layout.compact.Spaced := trivial
  obtain ⟨text, htext, -, hread⟩ := Json.ofString_toText hspaced hlegible
  have hwritten : Json.toText .compact (.record fields) =
      .ok ("\x7b\"type\": \"a\", \"position\": \x7b\"start\": " ++
        "\x7b\"line\": Infinity, \"column\": null\x7d\x7d\x7d") := rfl
  obtain rfl := Except.ok.inj (hwritten.symm.trans htext)
  have hraw := hread "" (by simp)
  rw [String.append_empty] at hraw
  have hparts : parts (1.0 / 0.0) = .infinity false := by decide
  have hpoint (path : String) : ofPointRecord path (.record point) = .error boundless := by
    have hline : Entries.get? (point.map fun f => (.str f.1, f.2)) "line" =
        some (.float (1.0 / 0.0)) := by rw [get?_fields]; rfl
    have hcolumn : Entries.get? (point.map fun f => (.str f.1, f.2)) "column" = some .none := by
      rw [get?_fields]; rfl
    rw [Value.record]
    unfold ofPointRecord
    simp only [hline, hcolumn, Value.toInteger, hparts]
    rfl
  have hposition : ofPositionRecord "tree" (.record [("start", .record point)]) = .error boundless := by
    have hstart : Entries.get? ([("start", Value.record point)].map fun f => (.str f.1, f.2)) "start" =
        some (.record point) := by rw [get?_fields]; rfl
    rw [Value.record]
    unfold ofPositionRecord
    simp only [hstart, Value.ofOption, hpoint]
    rfl
  have hrecord : ofRecord "tree" (.record fields) = .error boundless := by
    have hfields : ofFields "tree" (fields.map fun f => (.str f.1, f.2)) none = .error boundless := by
      have hvalue : Entries.get? (fields.map fun f => (.str f.1, f.2)) "value" = none := by
        rw [get?_fields]; rfl
      have hplace : Entries.get? (fields.map fun f => (.str f.1, f.2)) "position" =
          some (.record [("start", .record point)]) := by rw [get?_fields]; rfl
      rw [ofFields_eq, hvalue, hplace]
      simp only [Value.ofOption, hposition]
      rfl
    rw [Value.record, ofRecord, checkKeys_fields "tree" (by simp [fields, recordKeys]),
      ofChildrenField_absent "tree" (by simp [fields])]
    show (do return Value.node (← ofFields "tree" _ none)) = _
    rw [hfields]
    rfl
  refine ⟨?_, ?_⟩
  · rw [ofJson, hraw]
    exact hrecord
  · rintro ⟨message, stage, origin, h⟩
    cases h

end TextPipeline.Tree
