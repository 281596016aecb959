import TextPipeline.Proofs.Describing

/-! Where something is wrong in data. What data may not hold, and a key that is not a text, stands at a
place: the numbers of the entries and elements on the way to it. Depth-first order is the lexicographic
order of these places, since a collection is come to before what it holds, and what it holds in order. The
check of a mapping reports what is wrong at the first place, under the name that the keys and numbers on the
way give it. -/

namespace TextPipeline

section Checking

variable {α : Type} {check : Nat → α → Outcome Unit}

/-- Checks the elements of a list one after the other, the first of which has number `i`. -/
def checkEach (check : Nat → α → Outcome Unit) (i : Nat) : List α → Outcome Unit
  | [] => .ok ()
  | x :: rest => do
    check i x
    checkEach check (i + 1) rest

/-- What a list is refused for is what the first of its elements that are refused is refused for. -/
theorem checkEach_error {i : Nat} {xs : List α} {f : Fault} (h : checkEach check i xs = .error f) :
    ∃ j x, xs[j]? = some x ∧ check (i + j) x = .error f ∧
      ∀ k y, k < j → xs[k]? = some y → check (i + k) y = .ok () := by
  induction xs generalizing i with
  | nil => cases h
  | cons x xs ih =>
    rcases Outcome.of_bind_error h with hx | ⟨_, hx, hrest⟩
    · exact ⟨0, x, rfl, hx, fun k y hk => absurd hk (Nat.not_lt_zero k)⟩
    · obtain ⟨j, y, hy, herror, hbefore⟩ := ih hrest
      refine ⟨j + 1, y, by simpa using hy, by rw [← herror]; congr 1; omega, ?_⟩
      intro k z hk hz
      cases k with
      | zero =>
        obtain rfl : x = z := by simpa using hz
        exact hx
      | succ k =>
        have hok := hbefore k z (by omega) (by simpa using hz)
        rwa [show i + (k + 1) = i + 1 + k by omega]

end Checking

namespace Value

/-- A step from a collection to something that it holds: the value of entry number `i` of a mapping, whose
key is a text, or element number `i` of a list or another sequence. -/
inductive Segment where
  | entry (i : Nat) (key : String)
  | element (i : Nat)

namespace Segment

/-- The number that a step has among those that start at the same collection. -/
def number : Segment → Nat
  | entry i _ | element i => i

/-- The name of what a step leads to, if `path` is the name of the collection. -/
def name (path : String) : Segment → String
  | entry _ key => path ++ "." ++ key
  | element i => path ++ "[" ++ toString i ++ "]"

end Segment

/-- A way through collections that hold each other. -/
abbrev Way := List Segment

/-- The name of what a way leads to, if `path` is the name of where it starts. -/
def Way.name (path : String) (way : Way) : String := way.foldl Segment.name path

/-- The place to which a way leads. -/
def Way.place (way : Way) : List Nat := way.map Segment.number

/-- What a collection holds at the end of a step. -/
inductive Part : Value → Segment → Value → Prop
  | entry {kind : MappingKind} {entries : List (Value × Value)} {i : Nat} {key : String} {w : Value} :
    entries[i]? = some (.str key, w) → Part (.mapping kind entries) (.entry i key) w
  | listed {items : List Value} {i : Nat} {w : Value} :
    items[i]? = some w → Part (.list items) (.element i) w
  | sequenced {kind : SequenceKind} {items : List Value} {i : Nat} {w : Value} :
    items[i]? = some w → Part (.sequence kind items) (.element i) w

/-- What stands at the end of a way into a value. -/
inductive LeadsTo : Value → Way → Value → Prop
  | here (v : Value) : LeadsTo v [] v
  | step {v w x : Value} {s : Segment} {way : Way} :
    Part v s w → LeadsTo w way x → LeadsTo v (s :: way) x

/-- Whether a value is of a kind of data, whatever it holds: absent, a scalar, a list, another sequence or
a mapping. -/
def isDataKind : Value → Bool
  | .none | .bool _ | .int _ | .float _ | .str _ | .list _ | .sequence .. | .mapping .. => true
  | _ => false

/-- Something wrong in a value, at the end of a way: a mapping there has a key that is no text, which stands
at the place of its entry, or what is there is of no kind of data. What is said of it depends on the name
that the way gives it. -/
inductive Violation (v : Value) : Way → List Nat → (String → Fault) → Prop
  | key {way : Way} {kind : MappingKind} {entries : List (Value × Value)} {i : Nat} {k w : Value} :
    LeadsTo v way (.mapping kind entries) → entries[i]? = some (k, w) → (∀ s, k ≠ .str s) →
      Violation v way (way.place ++ [i]) (keyFault · k)
  | value {way : Way} {w : Value} :
    LeadsTo v way w → w.isDataKind = false → Violation v way way.place (unsupported · w)

/-- What is said of a value named `path` is what is wrong at the first place where something is. -/
def SaysFirst (wrong : Way → List Nat → (String → Fault) → Prop) (path : String) (f : Fault) : Prop :=
  ∃ way place fault, f = fault (way.name path) ∧ wrong way place fault ∧
    ∀ way' place' fault', wrong way' place' fault' → ¬ place' < place

section Violations

variable {v w : Value} {s : Segment} {way : Way} {place : List Nat} {fault : String → Fault}

theorem Part.unique {t : Segment} {u : Value} (h : Part v s w) (h' : Part v t u)
    (hnumber : s.number = t.number) : w = u := by
  cases h with
  | entry h =>
    cases h' with
    | entry h' =>
      obtain rfl := hnumber
      exact (Prod.mk.inj (Option.some.inj (h.symm.trans h'))).2
  | listed h =>
    cases h' with
    | listed h' =>
      obtain rfl := hnumber
      exact Option.some.inj (h.symm.trans h')
  | sequenced h =>
    cases h' with
    | sequenced h' =>
      obtain rfl := hnumber
      exact Option.some.inj (h.symm.trans h')

/-- What is wrong in a part is wrong in the whole. -/
theorem Violation.under (hpart : Part v s w) (h : Violation w way place fault) :
    Violation v (s :: way) (s.number :: place) fault := by
  cases h with
  | key hway hk hkey => exact .key (.step hpart hway) hk hkey
  | value hway hkind => exact .value (.step hpart hway) hkind

/-- What is wrong in a value is the value itself, a key of it, or wrong in one of its parts. -/
theorem Violation.inv (h : Violation v way place fault) :
    v.isDataKind = false ∨
    (∃ kind entries i k w, v = .mapping kind entries ∧ entries[i]? = some (k, w) ∧ (∀ s, k ≠ .str s) ∧
      place = [i]) ∨
    ∃ s w way' place', Part v s w ∧ place = s.number :: place' ∧ Violation w way' place' fault := by
  cases h with
  | key hway hk hkey =>
    cases hway with
    | here => exact .inr (.inl ⟨_, _, _, _, _, rfl, hk, hkey, rfl⟩)
    | step hpart hway => exact .inr (.inr ⟨_, _, _, _, hpart, rfl, .key hway hk hkey⟩)
  | value hway hkind =>
    cases hway with
    | here => exact .inl hkind
    | step hpart hway => exact .inr (.inr ⟨_, _, _, _, hpart, rfl, .value hway hkind⟩)

theorem IsData.part (h : IsData v) (hpart : Part v s w) : IsData w := by
  cases hpart with
  | entry hi =>
    cases h with
    | mapping _ hvalues => exact hvalues _ (List.mem_of_getElem? hi)
  | listed hi =>
    cases h with
    | list hitems => exact hitems _ (List.mem_of_getElem? hi)
  | sequenced hi =>
    cases h with
    | sequence hitems => exact hitems _ (List.mem_of_getElem? hi)

theorem IsData.leadsTo (h : IsData v) (hway : LeadsTo v way w) : IsData w := by
  induction hway with
  | here => exact h
  | step hpart _ ih => exact ih (h.part hpart)

/-- Nothing is wrong in data. -/
theorem IsData.sound (h : IsData v) : ¬ Violation v way place fault := by
  intro hwrong
  cases hwrong with
  | key hway hk hkey =>
    cases h.leadsTo hway with
    | mapping hkeys _ =>
      obtain ⟨s, hs⟩ := hkeys _ (List.mem_of_getElem? hk)
      exact hkey s hs
  | value hway hkind =>
    cases h.leadsTo hway <;> simp [isDataKind] at hkind

theorem not_violation_of_checkData {path : String} (h : v.checkData path = .ok ()) :
    ¬ Violation v way place fault :=
  (isData_of_checkData v h).sound

/-- What is said of a part is what is said first of the whole, if nothing is wrong in the parts before
it. -/
theorem SaysFirst.under {path : String} {f : Fault} (hpart : Part v s w)
    (h : SaysFirst (Violation w) (s.name path) f)
    (hkeys : ∀ kind entries i k u, v = .mapping kind entries → entries[i]? = some (k, u) →
      (∀ s, k ≠ .str s) → ¬ i < s.number)
    (hparts : ∀ t u way place fault, Part v t u → t.number < s.number → ¬ Violation u way place fault) :
    SaysFirst (Violation v) path f := by
  obtain ⟨way, place, fault, rfl, hwrong, hfirst⟩ := h
  refine ⟨s :: way, s.number :: place, fault, rfl, hwrong.under hpart, ?_⟩
  intro way' place' fault' hwrong' hbefore
  rcases hwrong'.inv with hkind | ⟨kind, entries, i, k, u, rfl, hk, hkey, rfl⟩ |
    ⟨t, u, way', place', ht, rfl, hu⟩
  · cases hpart <;> simp [isDataKind] at hkind
  · rcases List.cons_lt_cons_iff.mp hbefore with hlt | ⟨rfl, hlt⟩
    · exact hkeys kind entries i k u rfl hk hkey hlt
    · -- the key of an entry with a way into its value is a text
      cases hpart with
      | entry hi =>
        obtain ⟨rfl, -⟩ := Prod.mk.inj (Option.some.inj (hi.symm.trans hk))
        exact hkey _ rfl
  · rcases List.cons_lt_cons_iff.mp hbefore with hlt | ⟨hsame, hlt⟩
    · exact hparts t u _ _ _ ht hlt hu
    · obtain rfl := ht.unique hpart hsame
      exact hfirst _ _ _ hu hlt

end Violations

section Checks

variable {path : String} {f : Fault}

theorem checkItems_eq (path : String) (i : Nat) (items : List Value) :
    checkItems path i items =
      checkEach (fun i v => v.checkData (path ++ "[" ++ toString i ++ "]")) i items := by
  induction items generalizing i with
  | nil => rfl
  | cons v items ih => rw [checkItems, checkEach, ih]

/-- Checks one entry of the mapping at `path`. -/
def checkEntry (path : String) : Value × Value → Outcome Unit
  | (.str key, v) => v.checkData (path ++ "." ++ key)
  | (key, _) => .error (keyFault path key)

theorem checkEntry_of_not_str {key : Value} (h : ∀ s, key ≠ .str s) (path : String) (v : Value) :
    checkEntry path (key, v) = .error (keyFault path key) := by
  cases key with
  | str s => exact absurd rfl (h s)
  | _ => rfl

theorem checkEntries_eq (path : String) (i : Nat) (entries : List (Value × Value)) :
    checkEntries path entries = checkEach (fun _ e => checkEntry path e) i entries := by
  induction entries generalizing i with
  | nil => rfl
  | cons e entries ih =>
    obtain ⟨key, v⟩ := e
    cases key with
    | str key => rw [checkEntries, checkEach, ih (i + 1)]; rfl
    | _ => rfl

theorem saysFirst_of_checkItems {v : Value} {items : List Value}
    (hpart : ∀ i w, items[i]? = some w → Part v (.element i) w)
    (hnumber : ∀ s w, Part v s w → items[s.number]? = some w)
    (hmapping : ∀ kind entries, v ≠ .mapping kind entries)
    (ih : ∀ w ∈ items, ∀ path, w.checkData path = .error f → SaysFirst (Violation w) path f)
    (h : checkItems path 0 items = .error f) : SaysFirst (Violation v) path f := by
  rw [checkItems_eq] at h
  obtain ⟨j, w, hw, herror, hbefore⟩ := checkEach_error h
  simp only [Nat.zero_add] at herror hbefore
  refine (ih w (List.mem_of_getElem? hw) _ herror).under (hpart j w hw) ?_ ?_
  · intro kind entries i k u hv
    exact absurd hv (hmapping kind entries)
  · intro t u way place fault ht hlt
    exact not_violation_of_checkData (hbefore t.number u hlt (hnumber t u ht))

theorem saysFirst_of_checkEntries {kind : MappingKind} {entries : List (Value × Value)}
    (ih : ∀ e ∈ entries, ∀ path, e.2.checkData path = .error f → SaysFirst (Violation e.2) path f)
    (h : checkEntries path entries = .error f) : SaysFirst (Violation (.mapping kind entries)) path f := by
  rw [checkEntries_eq path 0] at h
  obtain ⟨j, ⟨key, w⟩, hw, herror, hbefore⟩ := checkEach_error h
  -- the entries before have texts as their keys, and nothing is wrong in their values
  have hkeys : ∀ kind' es i k u, Value.mapping kind entries = .mapping kind' es → es[i]? = some (k, u) →
      (∀ s, k ≠ .str s) → ¬ i < j := by
    rintro kind' es i k u hes hk hkey hlt
    obtain ⟨rfl, rfl⟩ := Value.mapping.inj hes
    have hok := hbefore i (k, u) hlt hk
    rw [checkEntry_of_not_str hkey] at hok
    cases hok
  have hparts : ∀ t u way place fault, Part (.mapping kind entries) t u → t.number < j →
      ¬ Violation u way place fault := by
    rintro _ u way place fault ⟨hi⟩ hlt
    exact not_violation_of_checkData (hbefore _ _ hlt hi)
  by_cases hkey : ∃ s, key = .str s
  · obtain ⟨s, rfl⟩ := hkey
    exact (ih (.str s, w) (List.mem_of_getElem? hw) _ herror).under (.entry hw) hkeys hparts
  · have hkey : ∀ s, key ≠ .str s := fun s hs => hkey ⟨s, hs⟩
    rw [checkEntry_of_not_str hkey] at herror
    have hfault : f = keyFault path key := (Except.error.inj herror).symm
    refine ⟨[], [j], (keyFault · key), hfault, .key (.here _) hw hkey, ?_⟩
    intro way' place' fault' hwrong hlt
    rcases hwrong.inv with hkind | ⟨kind', es, i, k, u, hes, hk, hkey', rfl⟩ |
      ⟨t, u, way', place', ht, rfl, hu⟩
    · cases hkind
    · rcases List.cons_lt_cons_iff.mp hlt with hlt | ⟨-, hlt⟩
      · exact hkeys kind' es i k u hes hk hkey' hlt
      · exact absurd hlt (List.not_lt_nil _)
    · rcases List.cons_lt_cons_iff.mp hlt with hlt | ⟨-, hlt⟩
      · exact hparts t u _ _ _ ht hlt hu
      · exact absurd hlt (List.not_lt_nil _)

/-- The check of a value says what is wrong at the first place. -/
theorem saysFirst_of_checkData {v : Value} (h : v.checkData path = .error f) :
    SaysFirst (Violation v) path f := by
  induction hsize : sizeOf v using Nat.strongRecOn generalizing v path with
  | ind size ih =>
    subst hsize
    have hforeign (hkind : v.isDataKind = false) (hv : f = unsupported path v) :
        SaysFirst (Violation v) path f :=
      ⟨[], [], (unsupported · v), hv, .value (.here v) hkind, fun _ _ _ _ => List.not_lt_nil _⟩
    have hbelow (w : Value) (hw : sizeOf w < sizeOf v) (path : String) (h : w.checkData path = .error f) :
        SaysFirst (Violation w) path f := ih (sizeOf w) hw h rfl
    cases v with
    | none | bool | int | float | str => cases h
    | list items =>
      refine saysFirst_of_checkItems (fun i w => .listed) ?_ (by simp) (fun w hw => hbelow w ?_) h
      · intro s w hpart
        cases hpart with
        | listed hi => exact hi
      · have := List.sizeOf_lt_of_mem hw
        rw [Value.list.sizeOf_spec]
        omega
    | sequence kind items =>
      refine saysFirst_of_checkItems (fun i w => .sequenced) ?_ (by simp) (fun w hw => hbelow w ?_) h
      · intro s w hpart
        cases hpart with
        | sequenced hi => exact hi
      · have := List.sizeOf_lt_of_mem hw
        rw [Value.sequence.sizeOf_spec]
        omega
    | mapping kind entries =>
      refine saysFirst_of_checkEntries (fun e he => hbelow e.2 ?_) h
      have := List.sizeOf_lt_of_mem he
      obtain ⟨k, w⟩ := e
      rw [Prod.mk.sizeOf_spec] at this
      rw [Value.mapping.sizeOf_spec]
      dsimp only
      omega
    | _ => exact hforeign rfl (Except.error.inj h).symm

end Checks

/-- The fault of data that are no mapping. -/
def notMapping (path : String) (v : Value) : Fault :=
  .violation path (path ++ " must be a mapping, got " ++ v.typeName)

/-- Something wrong in a value that is to be a mapping of data: it is none, or something is wrong in it. -/
inductive MappingViolation (v : Value) : Way → List Nat → (String → Fault) → Prop
  | shape : (∀ kind entries, v ≠ .mapping kind entries) → MappingViolation v [] [] (notMapping · v)
  | within {kind : MappingKind} {entries : List (Value × Value)} {way : Way} {place : List Nat}
      {fault : String → Fault} : v = .mapping kind entries → Violation v way place fault →
      MappingViolation v way place fault

theorem Violation.parameter {v : Value} {way : Way} {place : List Nat} {fault : String → Fault}
    (h : Violation v way place fault) (name : String) :
    (fault name).kind = "ValidationError" ∧ (fault name).parameter? = some name := by
  cases h <;> exact ⟨rfl, rfl⟩

theorem MappingViolation.parameter {v : Value} {way : Way} {place : List Nat} {fault : String → Fault}
    (h : MappingViolation v way place fault) (name : String) :
    (fault name).kind = "ValidationError" ∧ (fault name).parameter? = some name := by
  cases h with
  | shape => exact ⟨rfl, rfl⟩
  | within _ hwrong => exact hwrong.parameter name

theorem validateData_of_not_mapping {v : Value} (h : ∀ kind entries, v ≠ .mapping kind entries)
    (path : String) : v.validateData path = .error (notMapping path v) := by
  cases v with
  | mapping kind entries => exact absurd rfl (h kind entries)
  | _ => rfl

/-- The check of what is to be a mapping of data says what is wrong at the first place. -/
theorem saysFirst_of_validateData {path : String} {v : Value} {f : Fault}
    (h : v.validateData path = .error f) : SaysFirst (MappingViolation v) path f := by
  by_cases hmapping : ∃ kind entries, v = .mapping kind entries
  · obtain ⟨kind, entries, rfl⟩ := hmapping
    have hdata : (Value.mapping kind entries).checkData path = .error f := h
    obtain ⟨way, place, fault, hf, hwrong, hfirst⟩ := saysFirst_of_checkData hdata
    refine ⟨way, place, fault, hf, .within rfl hwrong, ?_⟩
    intro way' place' fault' hwrong'
    cases hwrong' with
    | shape hshape => exact absurd rfl (hshape kind entries)
    | within _ hwrong' => exact hfirst way' place' fault' hwrong'
  · have hshape : ∀ kind entries, v ≠ .mapping kind entries :=
      fun kind entries hv => hmapping ⟨kind, entries, hv⟩
    rw [validateData_of_not_mapping hshape] at h
    exact ⟨[], [], (notMapping · v), (Except.error.inj h).symm, .shape hshape, fun _ _ _ _ => List.not_lt_nil _⟩

/-- Scalars, lists and tuples of such values, and mappings from texts to such values. -/
inductive IsListed : Value → Prop
  | none : IsListed .none
  | bool (b : Bool) : IsListed (.bool b)
  | int (n : Int) : IsListed (.int n)
  | float (x : Float) : IsListed (.float x)
  | str (s : String) : IsListed (.str s)
  | list {items : List Value} : (∀ v ∈ items, IsListed v) → IsListed (.list items)
  | tuple {items : List Value} : (∀ v ∈ items, IsListed v) → IsListed (.tuple items)
  | mapping {kind : MappingKind} {entries : List (Value × Value)} :
    (∀ e ∈ entries, ∃ s, e.1 = .str s) → (∀ e ∈ entries, IsListed e.2) → IsListed (.mapping kind entries)

theorem IsListed.isData {v : Value} (h : IsListed v) : IsData v := by
  induction h with
  | none => exact .none
  | bool b => exact .bool b
  | int n => exact .int n
  | float x => exact .float x
  | str s => exact .str s
  | list _ ih => exact .list ih
  | tuple _ ih => exact .sequence ih
  | mapping hkeys _ ih => exact .mapping hkeys ih

/-- Whether no sequence in a value is of another type than a list and a tuple. -/
def ListsOnly (v : Value) : Prop :=
  ∀ way type items, ¬ LeadsTo v way (.sequence (.other type) items)

theorem ListsOnly.part {v w : Value} {s : Segment} (h : ListsOnly v) (hpart : Part v s w) :
    ListsOnly w :=
  fun way type items hway => h (s :: way) type items (.step hpart hway)

/-- What is of the data variant without sequences of other types is listed. -/
theorem IsData.isListed {v : Value} (h : IsData v) (hlists : ListsOnly v) : IsListed v := by
  induction h with
  | none => exact .none
  | bool b => exact .bool b
  | int n => exact .int n
  | float x => exact .float x
  | str s => exact .str s
  | list _ ih =>
    refine .list fun w hw => ih w hw ?_
    obtain ⟨i, hi⟩ := List.getElem?_of_mem hw
    exact hlists.part (.listed hi)
  | @sequence kind items _ ih =>
    cases kind with
    | tuple =>
      refine .tuple fun w hw => ih w hw ?_
      obtain ⟨i, hi⟩ := List.getElem?_of_mem hw
      exact hlists.part (.sequenced hi)
    | other type => exact absurd (.here _) (hlists [] type items)
  | @mapping _ entries hkeys _ ih =>
    refine .mapping hkeys fun e he => ih e he ?_
    obtain ⟨key, hkey⟩ := hkeys e he
    obtain ⟨i, hi⟩ := List.getElem?_of_mem he
    have hentry : entries[i]? = some (Value.str key, e.2) := by rw [hi, ← hkey]
    exact hlists.part (.entry hentry)

theorem IsListed.part {v w : Value} {s : Segment} (h : IsListed v) (hpart : Part v s w) :
    IsListed w := by
  cases hpart with
  | entry hi =>
    cases h with
    | mapping _ hvalues => exact hvalues _ (List.mem_of_getElem? hi)
  | listed hi =>
    cases h with
    | list hitems => exact hitems _ (List.mem_of_getElem? hi)
  | sequenced hi =>
    cases h with
    | tuple hitems => exact hitems _ (List.mem_of_getElem? hi)

theorem IsListed.listsOnly {v : Value} (h : IsListed v) : ListsOnly v := by
  intro way type items hway
  generalize hw : Value.sequence (.other type) items = w at hway
  induction hway with
  | here =>
    subst hw
    cases h
  | step hpart _ ih => exact ih (h.part hpart) hw

/-- A mapping with a list in which a tuple stands. -/
def listedSettings : Value :=
  .dict [(.str "depth", .int 2), (.str "tags", .list [.str "a", .tuple [.none]])]

theorem isListed_listedSettings : IsListed listedSettings := by
  refine .mapping (by simp) ?_
  have htuple : IsListed (.tuple [.none]) := .tuple (by simpa using .none)
  simpa using ⟨.int 2, .list (by simpa using ⟨.str "a", htuple⟩)⟩

/-- A mapping in which a set, a key that is no text, and octets under such a key are wrong. -/
def severalWrong : Value :=
  .dict [(.str "depth", .int 2), (.str "tags", .list [.str "a", .tuple [.none, .set [.int 1]]]),
    (.int 3, .bytes [0])]

end Value

end TextPipeline
