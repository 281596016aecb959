import TextPipeline.Proofs.Closed
import TextPipeline.Proofs.Storing

/-! The options of a plugin. Options that are valid as they are given are resolved to themselves, and what
options were resolved to is what the parameters accept or their defaults. They are given on with the given
values in the place of what was seen of them. -/

namespace TextPipeline.Plugin

/-! ### Parameters -/

section Parameters

variable {p : Parameter} {given v : Value}

/-- A parameter takes a value that passes its checks. -/
theorem validate_passing (htype : p.type.accepts (p.coerce given) = true)
    (helements : p.checkElements (p.coerce given) = .ok ()) (hchoices : p.choices = .none)
    (hvalid : ∀ accepts, p.validator = some accepts → accepts (p.coerce given) = .ok true) :
    p.validate given = .ok (p.coerce given) := by
  have hall : p.checkChoices (p.coerce given) = .ok () := by
    rw [Parameter.checkChoices, hchoices]
    rfl
  have hvalidator : p.checkValidator (p.coerce given) = .ok () := by
    rw [Parameter.checkValidator]
    cases haccepts : p.validator with
    | none => rfl
    | some accepts =>
      dsimp only
      rw [hvalid accepts haccepts]
      rfl
  rw [Parameter.validate, htype, helements, hall, hvalidator]
  rfl

/-- A parameter takes a value as it is that stands for itself and has no elements to be checked. -/
theorem validate_self (hcoerce : p.coerce v = v) (htype : p.type.accepts v = true)
    (helements : p.checkElements v = .ok ()) (hchoices : p.choices = .none)
    (hvalid : ∀ accepts, p.validator = some accepts → accepts v = .ok true) : p.validate v = .ok v := by
  have h : p.validate v = .ok (p.coerce v) := by
    refine validate_passing ?_ ?_ hchoices ?_
    all_goals rwa [hcoerce]
  rw [h, hcoerce]

/-- A parameter takes a text that its validator accepts. -/
theorem validate_str {s : String} (htype : p.type = .str) (hchoices : p.choices = .none)
    (hvalid : ∀ accepts, p.validator = some accepts → accepts (.str s) = .ok true) :
    p.validate (.str s) = .ok (.str s) :=
  validate_self (by simp [Parameter.coerce]) (by rw [htype]; rfl) (by simp [Parameter.checkElements])
    hchoices hvalid

/-- A parameter takes a truth value that its validator accepts. -/
theorem validate_bool {b : Bool} (htype : p.type = .bool) (hchoices : p.choices = .none)
    (hvalid : ∀ accepts, p.validator = some accepts → accepts (.bool b) = .ok true) :
    p.validate (.bool b) = .ok (.bool b) :=
  validate_self (by simp [Parameter.coerce]) (by rw [htype]; rfl) (by simp [Parameter.checkElements])
    hchoices hvalid

/-- Texts are no strays in a list of texts. -/
theorem strayElement_texts (i : Nat) (texts : List String) :
    Parameter.strayElement .str i (texts.map .str) = none := by
  induction texts generalizing i with
  | nil => rfl
  | cons s texts ih => exact ih (i + 1)

/-- A parameter takes a list of texts that its validator accepts, also if it is given as a fixed sequence. -/
theorem validate_texts (texts : List String) (htype : p.type = .list) (helement : p.elementType = some .str)
    (hchoices : p.choices = .none)
    (hgiven : given = .list (texts.map .str) ∨ given = .tuple (texts.map .str))
    (hvalid : ∀ accepts, p.validator = some accepts → accepts (.list (texts.map .str)) = .ok true) :
    p.validate given = .ok (.list (texts.map .str)) := by
  have hcoerce : p.coerce given = .list (texts.map .str) := by
    unfold Parameter.coerce
    rw [htype]
    rcases hgiven with rfl | rfl <;> rfl
  have h : p.validate given = .ok (p.coerce given) := by
    refine validate_passing ?_ ?_ hchoices ?_
    · rw [hcoerce, htype]
      rfl
    · simp [hcoerce, Parameter.checkElements, htype, helement, strayElement_texts]
    · rw [hcoerce]
      exact hvalid
  rw [h, hcoerce]

/-- What a parameter takes is of its type, and its validator accepts it. -/
theorem of_validate (h : p.validate given = .ok v) :
    v = p.coerce given ∧ p.type.accepts v = true ∧
      ∀ accepts, p.validator = some accepts → accepts v = .ok true := by
  unfold Parameter.validate at h
  obtain ⟨c, hc⟩ : ∃ c, c = p.coerce given := ⟨_, rfl⟩
  rw [← hc] at h ⊢
  dsimp only at h
  split at h
  · rename_i haccepts
    obtain ⟨-, -, h⟩ := Outcome.of_bind_ok h
    obtain ⟨-, -, h⟩ := Outcome.of_bind_ok h
    obtain ⟨_, hvalidator, h⟩ := Outcome.of_bind_ok h
    obtain rfl := Except.ok.inj h
    refine ⟨rfl, haccepts, fun accepts hp => ?_⟩
    unfold Parameter.checkValidator at hvalidator
    rw [hp] at hvalidator
    dsimp only at hvalidator
    obtain ⟨b, hb, hvalidator⟩ := Outcome.of_bind_ok hvalidator
    cases b with
    | true => exact hb
    | false =>
      rw [if_neg Bool.false_ne_true] at hvalidator
      obtain ⟨_, _, hfailed⟩ := Outcome.of_bind_ok hvalidator
      cases hfailed
  · cases h

theorem of_validate_str (htype : p.type = .str) (h : p.validate given = .ok v) : ∃ s, v = .str s := by
  obtain ⟨-, haccepts, -⟩ := of_validate h
  rw [htype] at haccepts
  cases v with
  | str s => exact ⟨s, rfl⟩
  | _ => cases haccepts

theorem of_validate_bool (htype : p.type = .bool) (h : p.validate given = .ok v) : ∃ b, v = .bool b := by
  obtain ⟨-, haccepts, -⟩ := of_validate h
  rw [htype] at haccepts
  cases v with
  | bool b => exact ⟨b, rfl⟩
  | _ => cases haccepts

/-- A list is given as a list or as a fixed sequence. -/
theorem of_validate_list (htype : p.type = .list) (h : p.validate given = .ok v) :
    ∃ items, v = .list items ∧ (given = .list items ∨ given = .tuple items) := by
  obtain ⟨rfl, haccepts, -⟩ := of_validate h
  unfold Parameter.coerce at haccepts ⊢
  rw [htype] at haccepts ⊢
  cases given with
  | list items => exact ⟨items, rfl, .inl rfl⟩
  | sequence kind items =>
    cases kind with
    | tuple => exact ⟨items, rfl, .inr rfl⟩
    | other => cases haccepts
  | _ => cases haccepts

end Parameters

/-! ### Resolved options -/

/-- What an option is resolved to: the given value if the parameter takes it, or else a copy of the
default. -/
inductive Parameter.Resolves (p : Parameter) : Option Value → Option Value → Prop
  | given {w v : Value} : p.validate w = .ok v → Resolves p (some w) (some v)
  | byDefault {v : Value} : p.required.truthy = false → p.default.isNone = false → p.copied = .ok v →
    Resolves p none (some v)
  | absent : p.required.truthy = false → p.default.isNone = true → Resolves p none none

namespace Metadata

section Declared

variable {plugin : String} {given resolved acc : Entries} {declared : List (String × Parameter)}

theorem resolveOne_ok_iff {option : String} {p : Parameter} {o : Option Value} :
    resolveOne plugin given option p = .ok o ↔ p.Resolves (given.get? option) o := by
  unfold resolveOne
  cases given.get? option with
  | some w =>
    dsimp only
    constructor
    · intro h
      split at h
      · rename_i v hv
        obtain rfl := Except.ok.inj h
        exact .given hv
      · rename_i f _
        cases hkind : f.isKind "ValueError" with
        | true =>
          rw [hkind, if_pos rfl] at h
          obtain ⟨_, _, hfailed⟩ := Outcome.of_bind_ok h
          cases hfailed
        | false =>
          rw [hkind, if_neg Bool.false_ne_true] at h
          cases h
    · rintro ⟨hv⟩
      rw [hv]
  | none =>
    dsimp only
    constructor
    · intro h
      split_ifs at h with hrequired hnone
      · obtain rfl := Except.ok.inj h
        exact .absent (by simpa using hrequired) hnone
      · obtain ⟨v, hv, h⟩ := Outcome.of_bind_ok h
        obtain rfl := Except.ok.inj h
        exact .byDefault (by simpa using hrequired) (by simpa using hnone) hv
    · intro h
      cases h with
      | byDefault hrequired hdefault hcopied =>
        simp [hrequired, hdefault, hcopied]
      | absent hrequired hnone => simp [hrequired, hnone]

/-- Options that are resolved to what they are stay as they are. -/
theorem resolveAll_resolved (h : ∀ e ∈ declared, e.2.Resolves (given.get? e.1) (given.get? e.1))
    (plugin : String) : resolveAll plugin given declared given = .ok given := by
  induction declared with
  | nil => rfl
  | cons e rest ih =>
    obtain ⟨he, hrest⟩ := List.forall_mem_cons.mp h
    have hone : resolveOne plugin given e.1 e.2 = .ok (given.get? e.1) := resolveOne_ok_iff.mpr he
    rw [resolveAll, hone]
    cases hget : given.get? e.1 with
    | none => exact ih hrest
    | some v =>
      show resolveAll plugin given rest (given.put e.1 v) = _
      rw [Entries.put, Entries.insert_of_find? hget, ih hrest]

/-- An option that has a default gets a value, the given one or the default. -/
theorem of_resolveAll_cons {option : String} {p : Parameter} {rest : List (String × Parameter)}
    (hdefault : p.default.isNone = false)
    (h : resolveAll plugin given ((option, p) :: rest) acc = .ok resolved) :
    ∃ v, (given.get? option = none ∧ p.copied = .ok v ∨
        ∃ w, given.get? option = some w ∧ p.validate w = .ok v) ∧
      resolveAll plugin given rest (acc.put option v) = .ok resolved := by
  rw [resolveAll] at h
  obtain ⟨o, ho, h⟩ := Outcome.of_bind_ok h
  have hresolves := resolveOne_ok_iff.mp ho
  generalize given.get? option = asked at hresolves
  cases hresolves with
  | given hv => exact ⟨_, .inr ⟨_, rfl, hv⟩, h⟩
  | byDefault _ _ hcopied => exact ⟨_, .inl ⟨rfl, hcopied⟩, h⟩
  | absent _ hnone => exact absurd (hdefault.symm.trans hnone) Bool.false_ne_true

end Declared

section All

variable {α : Type} {m : Metadata α} {given resolved : Entries} {options : Value}

/-- Options that are declared, and valid as they are given, are all that the plugin takes. -/
theorem result_resolveOptions
    (hvalid : ∀ e ∈ m.parameters, ∃ v, given.get? e.1 = some v ∧ e.2.validate v = .ok v)
    (hdeclared : ∀ e ∈ given, e.1.among (m.parameters.map fun p => .str p.1) = true) :
    (m.resolveOptions (.dict given)).result = (.ok given, []) := by
  have hunknown : (given.map (·.1)).filter
      (fun k => !k.among (m.parameters.map fun p => Value.str p.1)) = [] := by
    rw [List.filter_eq_nil_iff]
    intro k hk
    obtain ⟨e, he, rfl⟩ := List.mem_map.mp hk
    simp [hdeclared e he]
  have hresolves : ∀ e ∈ m.parameters, e.2.Resolves (given.get? e.1) (given.get? e.1) := by
    intro e he
    obtain ⟨v, hget, hv⟩ := hvalid e he
    rw [hget]
    exact .given hv
  rw [resolveOptions]
  dsimp only
  rw [pure_bind, resolveAll_resolved hresolves, hunknown]
  rfl

/-- Whether a plugin declares an option. -/
def declares (m : Metadata α) (key : Value) : Bool := key.among (m.parameters.map fun e => .str e.1)

/-- The options that a plugin does not declare. -/
def undeclared (m : Metadata α) (given : Entries) : Entries := given.filter fun e => !m.declares e.1

/-- The entries that options stand for, if they are a mapping or none are given. -/
inductive Gives : Value → Entries → Prop
  | none : Gives .none []
  | mapping (kind : MappingKind) (given : Entries) : Gives (.mapping kind given) given

theorem Gives.unique {entries : Entries} (h : Gives options given) (h' : Gives options entries) :
    given = entries := by
  cases h <;> cases h' <;> rfl

/-- Options that are not declared are told of, which needs texts. -/
def tells (m : Metadata α) (given : Entries) : Outcome Unit :=
  if (m.undeclared given).isEmpty || m.parameters.isEmpty then .ok ()
  else (joinSorted ((m.undeclared given).map (·.1))).map fun _ => ()

theorem map_undeclared (m : Metadata α) (given : Entries) :
    (m.undeclared given).map (·.1) = (given.map (·.1)).filter fun k => !m.declares k := by
  rw [List.filter_map]
  rfl

/-- All that resolving options depends on. -/
theorem outcome_resolveOptions (h : Gives options given) :
    (m.resolveOptions options).result.1 = (do
      let resolved ← resolveAll m.name given m.parameters given
      m.tells given
      return resolved) := by
  have hkeys : (given.map (·.1)).filter (fun k => !k.among (m.parameters.map fun e => Value.str e.1)) =
      (m.undeclared given).map (·.1) := (m.map_undeclared given).symm
  have hmapping (kind : MappingKind) : (m.resolveOptions (.mapping kind given)).result.1 = (do
      let resolved ← resolveAll m.name given m.parameters given
      m.tells given
      return resolved) := by
    rw [resolveOptions]
    dsimp only
    rw [pure_bind, hkeys, tells]
    cases resolveAll m.name given m.parameters given with
    | error f => rfl
    | ok resolved =>
      dsimp only [Logged.lift_ok_bind]
      rw [List.isEmpty_map]
      cases hquiet : (m.undeclared given).isEmpty || m.parameters.isEmpty with
      | true => rfl
      | false =>
        cases joinSorted ((m.undeclared given).map (·.1)) with
        | error f => rfl
        | ok text => rfl
  cases h with
  | none => exact hmapping .dict
  | mapping kind => exact hmapping kind

/-- Whatever stands for no mapping is refused. -/
theorem resolveOptions_cases (m : Metadata α) (options : Value) :
    (∃ given, Gives options given) ∨ (∀ given, ¬Gives options given) ∧
      ∃ message, (m.resolveOptions options).result.1 = .error (.violation "options" message) := by
  cases options with
  | none => exact .inl ⟨[], .none⟩
  | mapping kind given => exact .inl ⟨given, .mapping kind given⟩
  | _ => exact .inr ⟨nofun, _, rfl⟩

/-- Options are taken if each declared one is, and the others can be told of. -/
theorem resolveOptions_ok_iff :
    (m.resolveOptions options).result.1 = .ok resolved ↔
      ∃ given, Gives options given ∧ resolveAll m.name given m.parameters given = .ok resolved ∧
        m.tells given = .ok () := by
  constructor
  · intro h
    rcases m.resolveOptions_cases options with ⟨given, hgiven⟩ | ⟨-, message, herror⟩
    · rw [outcome_resolveOptions hgiven] at h
      obtain ⟨r, hall, h⟩ := Outcome.of_bind_ok h
      obtain ⟨⟨⟩, htold, h⟩ := Outcome.of_bind_ok h
      obtain rfl := Except.ok.inj h
      exact ⟨given, hgiven, hall, htold⟩
    · cases herror.symm.trans h
  · rintro ⟨given, hgiven, hall, htells⟩
    rw [outcome_resolveOptions hgiven, hall, htells]
    rfl

end All

end Metadata

end TextPipeline.Plugin

namespace TextPipeline.Pipeline

/-! ### Options that are given on -/

/-- What is given on for an option: what was given for it, if anything was. -/
def givenFor (options key v : Value) : Value :=
  match options, v with
  | .mapping _ entries, v =>
    match Entries.find? entries key, v with
    | some (.tuple items), .list _ => .list items
    | some w, _ => w
    | none, v => v
  | _, v => v

theorem keepGiven_eq (options : Value) (resolved : Entries) :
    keepGiven options resolved = resolved.map fun e => (e.1, givenFor options e.1 e.2) := rfl

theorem get?_keepGiven (options : Value) (resolved : Entries) (name : String) :
    Entries.get? (keepGiven options resolved) name =
      (Entries.get? resolved name).map (givenFor options (.str name)) := by
  rw [keepGiven_eq]
  unfold Entries.get? Entries.find?
  induction resolved with
  | nil => rfl
  | cons e es ih =>
    rw [List.map_cons, List.find?_cons, List.find?_cons]
    cases hk : e.1.equals (.str name) with
    | true => simp [Value.equals_str_iff.mp hk]
    | false => exact ih

theorem givenFor_closed {options v : Value} (h : options.Closed) (hv : v.Closed) (key : Value) :
    (givenFor options key v).Closed := by
  cases options with
  | mapping kind entries =>
    unfold givenFor
    dsimp only
    cases hfind : Entries.find? entries key with
    | none => exact hv
    | some w =>
      obtain ⟨e, hfound, rfl⟩ := Option.map_eq_some_iff.mp hfind
      have hw := (Value.closed_mapping.mp h e (List.mem_of_find?_eq_some hfound)).2
      cases hgiven : e.2 with
      | sequence kind items =>
        rw [hgiven] at hw
        cases kind with
        | tuple =>
          cases v with
          | list => exact Value.closed_list.mpr (Value.closed_sequence.mp hw)
          | _ => exact hw
        | other => exact hw
      | _ =>
        rw [hgiven] at hw
        exact hw
  | _ => exact hv

theorem keepGiven_closed {options : Value} {resolved : Entries} (h : options.Closed)
    (hresolved : Value.ClosedEntries resolved) : (Value.dict (keepGiven options resolved)).Closed := by
  refine Value.closed_mapping.mpr fun e he => ?_
  rw [keepGiven_eq] at he
  obtain ⟨⟨k, v⟩, hmem, rfl⟩ := List.mem_map.mp he
  obtain ⟨hk, hv⟩ := hresolved _ hmem
  exact ⟨hk, givenFor_closed h hv k⟩

end TextPipeline.Pipeline
