import TextPipeline.Proofs.Options

/-! Options that are resolved more than once. What an option is resolved to depends on what is given for it
alone, and is accepted as it is when it is given again; the options that are not declared are handed on. So
what options were resolved to is resolved to itself, and so is whatever says the same of every declared
option. -/

namespace TextPipeline

/-- Values can be listed if they are texts. -/
theorem joinSorted_ok_iff {values : List Value} :
    (∃ s, joinSorted values = .ok s) ↔ ∀ v ∈ values, ∃ s, v = .str s := by
  refine ⟨?_, Settings.joinSorted_str⟩
  rintro ⟨s, h⟩
  obtain ⟨texts, hall, hs⟩ := Outcome.of_bind_ok h
  clear h hs
  induction values generalizing texts with
  | nil => simp
  | cons v values ih =>
    rw [List.mapM_cons] at hall
    obtain ⟨first, hfirst, hall⟩ := Outcome.of_bind_ok hall
    obtain ⟨rest, hrest, -⟩ := Outcome.of_bind_ok hall
    refine List.forall_mem_cons.mpr ⟨?_, ih rest hrest⟩
    cases v with
    | str s => exact ⟨s, rfl⟩
    | _ => cases hfirst

/-- Values that cannot be listed are of the wrong type. -/
theorem kind_of_joinSorted_error {values : List Value} {f : Fault} (h : joinSorted values = .error f) :
    f.kind = "TypeError" := by
  rcases Outcome.of_bind_error h with hall | ⟨texts, -, h⟩
  · clear h
    induction values with
    | nil => cases hall
    | cons v values ih =>
      rw [List.mapM_cons] at hall
      rcases Outcome.of_bind_error hall with hfirst | ⟨first, -, hall⟩
      · cases v with
        | str s => cases hfirst
        | _ => exact Except.error.inj hfirst ▸ rfl
      · rcases Outcome.of_bind_error hall with hrest | ⟨rest, -, hall⟩
        · exact ih hrest
        · cases hall
  · cases h

namespace Entries

theorem get?_put_self (entries : Entries) (name : String) (v : Value) :
    (entries.put name v).get? name = some v :=
  find?_insert_self (Value.equals_str_iff.mpr rfl) v entries

/-- The entries of other keys are not touched by what is set for a text. -/
theorem filter_put {keep : Value → Bool} {name : String} (hkeep : keep (.str name) = false) (v : Value)
    (entries : Entries) :
    (entries.put name v).filter (fun e => keep e.1) = entries.filter fun e => keep e.1 := by
  unfold put
  induction entries with
  | nil => simp [insert, hkeep]
  | cons e rest ih =>
    obtain ⟨k, w⟩ := e
    unfold insert
    cases hk : k.equals (.str name) with
    | true =>
      obtain rfl := Value.equals_str_iff.mp hk
      simp [hkeep]
    | false =>
      rw [if_neg Bool.false_ne_true, List.filter_cons, List.filter_cons, ih]

end Entries

namespace Plugin

/-! ### Parameters -/

namespace Parameter

variable {p : Parameter} {given v : Value} {o o' : Option Value}

/-- A default that there is is accepted as it is, and so is a copy of it that is another value. -/
structure Coherent (p : Parameter) : Prop where
  default : p.default.isNone = false → p.validate p.default = .ok p.default
  copied : p.default.isNone = false → ∀ v, p.copied = .ok v → v = p.default ∨ p.validate v = .ok v

/-- A built-in type. -/
def Builtin (p : Parameter) : Prop := ∀ name holds, p.type ≠ .other name holds

theorem coerce_coerce (p : Parameter) (v : Value) : p.coerce (p.coerce v) = p.coerce v := by
  unfold coerce
  cases p.type with
  | list =>
    cases v with
    | sequence kind items => cases kind <;> rfl
    | _ => rfl
  | _ => rfl

/-- What a parameter has taken it accepts as it is. -/
theorem validate_validated (h : p.validate given = .ok v) : p.validate v = .ok v := by
  obtain ⟨rfl, -, -⟩ := of_validate h
  rw [← h]
  unfold validate
  rw [coerce_coerce]

/-- A copy of a value of a built-in type is the value. -/
theorem shallowCopy_validated (hp : p.Builtin) (h : p.validate given = .ok v) : v.shallowCopy = .ok v := by
  obtain ⟨-, haccepts, -⟩ := of_validate h
  cases htype : p.type with
  | other name holds => exact absurd htype (hp name holds)
  | _ =>
    rw [htype] at haccepts
    cases v with
    | int | bool | str | list | float => rfl
    | mapping kind entries => cases kind <;> first | rfl | cases haccepts
    | _ => cases haccepts

theorem Coherent.validate_copied (hp : p.Coherent) (hdefault : p.default.isNone = false)
    (hcopied : p.copied = .ok v) : p.validate v = .ok v := by
  rcases hp.copied hdefault v hcopied with rfl | hv
  · exact hp.default hdefault
  · exact hv

/-- A default of a built-in type needs to be accepted only. -/
theorem Coherent.of_builtin (hp : p.Builtin) (hcopied : p.copied = p.default.shallowCopy)
    (h : p.validate p.default = .ok p.default) : p.Coherent := by
  refine ⟨fun _ => h, fun _ v hv => .inl ?_⟩
  rw [hcopied, shallowCopy_validated hp h] at hv
  exact (Except.ok.inj hv).symm

theorem Resolves.unique {o₁ o₂ : Option Value} (h₁ : p.Resolves o o₁) (h₂ : p.Resolves o o₂) : o₁ = o₂ := by
  cases h₁ with
  | given hv =>
    cases h₂ with
    | given hw => exact congrArg some (Except.ok.inj (hv.symm.trans hw))
  | byDefault _ hdefault hcopied =>
    cases h₂ with
    | byDefault _ _ hcopied' => exact congrArg some (Except.ok.inj (hcopied.symm.trans hcopied'))
    | absent _ hnone => exact absurd (hdefault.symm.trans hnone) Bool.false_ne_true
  | absent _ hnone =>
    cases h₂ with
    | byDefault _ hdefault => exact absurd (hdefault.symm.trans hnone) Bool.false_ne_true
    | absent => rfl

/-- What an option was resolved to is resolved to itself. -/
theorem Resolves.again (hp : p.Coherent) (h : p.Resolves o o') : p.Resolves o' o' := by
  cases h with
  | given hv => exact .given (validate_validated hv)
  | byDefault _ hdefault hcopied =>
    exact .given (hp.validate_copied hdefault hcopied)
  | absent hrequired hnone => exact .absent hrequired hnone

/-- A parameter that says of every value whether it takes it: what its validator is asked about has a text,
and the default has a copy. -/
structure Total (p : Parameter) : Prop where
  copied : ∃ v, p.copied = .ok v
  choices : p.choices = .none
  validator : ∀ accepts, p.validator = some accepts → ∀ v, ∃ b, accepts v = .ok b
  texts : ∀ v, p.type.accepts v = true → p.checkElements v = .ok () → ∃ said, v.render = .ok said

theorem badValue_of_strayElement {type : ParameterType} {i : Nat} {items : List Value} {f : Fault}
    (h : strayElement type i items = some f) : ∃ message, f = .badValue message := by
  induction items generalizing i with
  | nil => cases h
  | cons v rest ih =>
    rw [strayElement] at h
    split at h
    · exact ih h
    · exact ⟨_, (Option.some.inj h).symm⟩

theorem badValue_of_checkElements {f : Fault} (h : p.checkElements v = .error f) :
    ∃ message, f = .badValue message := by
  unfold checkElements at h
  split at h
  · split at h
    · obtain rfl := Except.error.inj h
      exact badValue_of_strayElement ‹_›
    · cases h
  · cases h

section Total

variable (hp : p.Total) {f : Fault}
include hp

theorem Total.checkChoices (v : Value) : p.checkChoices v = .ok () := by
  rw [Parameter.checkChoices, hp.choices]
  rfl

theorem Total.badValue_of_checkValidator {said : String} (hsaid : v.render = .ok said)
    (h : p.checkValidator v = .error f) : ∃ message, f = .badValue message := by
  unfold checkValidator at h
  split at h
  · cases h
  · rename_i accepts haccepts
    obtain ⟨b, hb⟩ := hp.validator accepts haccepts v
    rw [hb] at h
    cases b with
    | true => cases h
    | false =>
      simp only [hsaid] at h
      exact ⟨_, (Except.error.inj h).symm⟩

/-- What a parameter does not take is a bad value. -/
theorem Total.badValue_of_validate (h : p.validate given = .error f) : ∃ message, f = .badValue message := by
  unfold validate at h
  dsimp only at h
  split at h
  · rename_i haccepts
    rcases Outcome.of_bind_error h with helements | ⟨_, helements, h⟩
    · exact badValue_of_checkElements helements
    · rcases Outcome.of_bind_error h with hchoices | ⟨_, -, h⟩
      · cases (hp.checkChoices _).symm.trans hchoices
      · rcases Outcome.of_bind_error h with hvalidator | ⟨_, -, h⟩
        · obtain ⟨said, hsaid⟩ := hp.texts _ haccepts helements
          exact hp.badValue_of_checkValidator hsaid hvalidator
        · cases h
  · exact ⟨_, (Except.error.inj h).symm⟩

end Total

end Parameter

/-! ### Declared options -/

namespace Metadata

section Declared

variable {plugin : String} {given resolved acc : Entries} {declared : List (String × Parameter)}

/-- Options that are not declared are handed on as they are given, in their order. -/
theorem filter_resolveAll (keep : Value → Bool) (hkeep : ∀ e ∈ declared, keep (.str e.1) = false)
    (h : resolveAll plugin given declared acc = .ok resolved) :
    resolved.filter (fun e => keep e.1) = acc.filter fun e => keep e.1 := by
  induction declared generalizing acc with
  | nil =>
    obtain rfl := Except.ok.inj h
    rfl
  | cons e rest ih =>
    obtain ⟨hfirst, hrest⟩ := List.forall_mem_cons.mp hkeep
    rw [resolveAll] at h
    obtain ⟨o, -, h⟩ := Outcome.of_bind_ok h
    cases o with
    | none => exact ih hrest h
    | some v => rw [ih hrest h, Entries.filter_put hfirst]

theorem get?_resolveAll_other {option : String} (hoption : option ∉ declared.map (·.1))
    (h : resolveAll plugin given declared acc = .ok resolved) : resolved.get? option = acc.get? option := by
  induction declared generalizing acc with
  | nil =>
    obtain rfl := Except.ok.inj h
    rfl
  | cons e rest ih =>
    rw [List.map_cons, List.mem_cons, not_or] at hoption
    rw [resolveAll] at h
    obtain ⟨o, -, h⟩ := Outcome.of_bind_ok h
    cases o with
    | none => exact ih hoption.2 h
    | some v => rw [ih hoption.2 h, Entries.get?_put_ne (Ne.symm hoption.1)]

/-- Every declared option is resolved, each on its own. -/
theorem resolves_resolveAll (hnames : (declared.map (·.1)).Nodup)
    (hacc : ∀ e ∈ declared, given.get? e.1 = none → acc.get? e.1 = none)
    (h : resolveAll plugin given declared acc = .ok resolved) :
    ∀ e ∈ declared, e.2.Resolves (given.get? e.1) (resolved.get? e.1) := by
  induction declared generalizing acc with
  | nil => simp
  | cons e rest ih =>
    rw [List.map_cons, List.nodup_cons] at hnames
    obtain ⟨hfirst, hrest⟩ := List.forall_mem_cons.mp hacc
    rw [resolveAll] at h
    obtain ⟨o, hone, h⟩ := Outcome.of_bind_ok h
    rw [resolveOne_ok_iff] at hone
    cases o with
    | none =>
      have hnone : given.get? e.1 = none := by
        cases hget : given.get? e.1 with
        | none => rfl
        | some w => rw [hget] at hone; cases hone
      refine List.forall_mem_cons.mpr ⟨?_, ih hnames.2 hrest h⟩
      rw [get?_resolveAll_other hnames.1 h, hfirst hnone]
      exact hone
    | some v =>
      refine List.forall_mem_cons.mpr ⟨?_, ih hnames.2 (fun other hother hget => ?_) h⟩
      · rw [get?_resolveAll_other hnames.1 h, Entries.get?_put_self]
        exact hone
      · have hne : e.1 ≠ other.1 := by
          intro heq
          exact hnames.1 (heq ▸ List.mem_map_of_mem hother)
        rw [Entries.get?_put_ne hne, hrest other hother hget]

/-- If each declared option can be resolved, they all can. -/
theorem exists_resolveAll (h : ∀ e ∈ declared, ∃ o, e.2.Resolves (given.get? e.1) o) (plugin : String)
    (acc : Entries) : ∃ resolved, resolveAll plugin given declared acc = .ok resolved := by
  induction declared generalizing acc with
  | nil => exact ⟨acc, rfl⟩
  | cons e rest ih =>
    obtain ⟨⟨o, ho⟩, hrest⟩ := List.forall_mem_cons.mp h
    have hone : resolveOne plugin given e.1 e.2 = .ok o := resolveOne_ok_iff.mpr ho
    rw [resolveAll, hone]
    cases o with
    | none => exact ih hrest acc
    | some v => exact ih hrest (acc.put e.1 v)

theorem isKind_badValue (message : String) : (Fault.badValue message).isKind "ValueError" = true := by
  show (Fault.ancestry 8 "ValueError").contains "ValueError" = true
  decide

theorem render_badValue (message : String) : (Fault.badValue message).render = .ok message := by
  unfold Fault.badValue Fault.render Value.render
  rfl

theorem isKind_validation (message : Value) (parameter : Option String) (origin : Option Fault) :
    (Fault.validation message parameter origin).isKind "ValidationError" = true := by
  show (Fault.ancestry 8 "ValidationError").contains "ValidationError" = true
  decide

/-- A fault that says in its text what was violated. -/
def Violation (f : Fault) : Prop := ∃ message parameter origin, f = .validation (.str message) parameter origin

theorem Violation.isKind {f : Fault} (h : Violation f) : f.isKind "ValidationError" = true := by
  obtain ⟨message, parameter, origin, rfl⟩ := h
  exact isKind_validation _ _ _

/-- What parameters do not take, or what is missing, violates what is said of the options. -/
theorem violation_of_resolveAll (hdeclared : ∀ e ∈ declared, e.2.Total) {f : Fault}
    (h : resolveAll plugin given declared acc = .error f) : Violation f := by
  induction declared generalizing acc with
  | nil => cases h
  | cons e rest ih =>
    obtain ⟨he, hrest⟩ := List.forall_mem_cons.mp hdeclared
    obtain ⟨v, hcopied⟩ := he.copied
    rw [resolveAll] at h
    rcases Outcome.of_bind_error h with h | ⟨o, -, h⟩
    · unfold resolveOne at h
      split at h
      · split at h
        · cases h
        · obtain ⟨message, rfl⟩ := he.badValue_of_validate ‹_›
          simp only [isKind_badValue, if_true, invalidOption, render_badValue] at h
          exact ⟨_, _, _, (Except.error.inj h).symm⟩
      · rw [hcopied] at h
        split_ifs at h
        · exact ⟨_, _, _, (Except.error.inj h).symm⟩
        · cases h
    · cases o with
      | none => exact ih hrest h
      | some v => exact ih hrest h

end Declared

/-! ### All options -/

section All

variable {α : Type} {m : Metadata α} {given resolved resolved' : Entries} {options : Value}

/-- No two parameters have the same name, and every default is accepted as it is. -/
structure Coherent (m : Metadata α) : Prop where
  names : (m.parameters.map (·.1)).Nodup
  parameters : ∀ e ∈ m.parameters, e.2.Coherent

theorem declares_name {e : String × Parameter} (he : e ∈ m.parameters) : m.declares (.str e.1) = true :=
  List.any_eq_true.mpr ⟨.str e.1, List.mem_map_of_mem he, Value.equals_str_iff.mpr rfl⟩

/-- Only texts are declared. -/
theorem str_of_declares {key : Value} (h : m.declares key = true) : ∃ s, key = .str s := by
  obtain ⟨v, hv, heq⟩ := List.any_eq_true.mp h
  obtain ⟨e, -, rfl⟩ := List.mem_map.mp hv
  exact ⟨e.1, Value.equals_str_iff.mp heq⟩

/-- Options can be told of if they are texts. -/
theorem tells_ok_iff (hdeclared : m.parameters ≠ []) :
    m.tells given = .ok () ↔ ∀ e ∈ m.undeclared given, ∃ s, e.1 = .str s := by
  have hsome : m.parameters.isEmpty = false := by simpa using hdeclared
  have hall : (∃ s, joinSorted ((m.undeclared given).map (·.1)) = .ok s) ↔
      ∀ e ∈ m.undeclared given, ∃ s, e.1 = .str s := by
    rw [joinSorted_ok_iff, List.forall_mem_map]
  rw [← hall, tells, hsome, Bool.or_false]
  cases hothers : m.undeclared given with
  | nil => exact iff_of_true rfl (joinSorted_ok_iff.mpr (by simp))
  | cons e rest =>
    cases joinSorted ((e :: rest).map (·.1)) with
    | error f => simp [Except.map]
    | ok s => simp [Except.map]

/-- Options that cannot be told of are of the wrong type. -/
theorem kind_of_tells {f : Fault} (h : m.tells given = .error f) : f.kind = "TypeError" := by
  unfold tells at h
  split_ifs at h
  cases hlisted : joinSorted ((m.undeclared given).map (·.1)) with
  | ok s =>
    rw [hlisted] at h
    cases h
  | error e =>
    rw [hlisted] at h
    obtain rfl := Except.error.inj h
    exact kind_of_joinSorted_error hlisted

/-- Options are refused for what violates what is said of them, or because they cannot be told of. -/
theorem resolveOptions_error (hdeclared : ∀ e ∈ m.parameters, e.2.Total) {f : Fault}
    (h : (m.resolveOptions options).result.1 = .error f) :
    (Violation f ∧
      ∀ given resolved, Gives options given → resolveAll m.name given m.parameters given ≠ .ok resolved) ∨
      f.kind = "TypeError" ∧ ∃ given resolved, Gives options given ∧
        resolveAll m.name given m.parameters given = .ok resolved ∧ m.tells given = .error f := by
  rcases m.resolveOptions_cases options with ⟨given, hgiven⟩ | ⟨hnone, message, herror⟩
  · rw [outcome_resolveOptions hgiven] at h
    rcases Outcome.of_bind_error h with hall | ⟨resolved, hall, h⟩
    · refine .inl ⟨violation_of_resolveAll hdeclared hall, fun given' resolved hgiven' hresolved => ?_⟩
      obtain rfl := hgiven'.unique hgiven
      cases hall.symm.trans hresolved
    · rcases Outcome.of_bind_error h with htells | ⟨_, -, h⟩
      · exact .inr ⟨kind_of_tells htells, given, resolved, hgiven, hall, htells⟩
      · cases h
  · obtain rfl := Except.error.inj (herror.symm.trans h)
    exact .inl ⟨⟨_, _, _, rfl⟩, fun given _ hgiven => absurd hgiven (hnone given)⟩

theorem undeclared_resolveAll (h : resolveAll m.name given m.parameters given = .ok resolved) :
    m.undeclared resolved = m.undeclared given :=
  filter_resolveAll (fun key => !m.declares key) (fun e he => by simp [declares_name he]) h

/-- Options that say of each declared one what can be resolved to the same, and have the same others, are
resolved to the same. -/
theorem resolveOptions_alike (hnames : (m.parameters.map (·.1)).Nodup) {entries : Entries}
    (htells : m.tells given = .ok ())
    (hdeclared : ∀ e ∈ m.parameters, e.2.Resolves (entries.get? e.1) (resolved.get? e.1))
    (hothers : (m.undeclared entries).map (·.1) = (m.undeclared given).map (·.1)) :
    ∃ again, (m.resolveOptions (.dict entries)).result.1 = .ok again ∧
      ∀ e ∈ m.parameters, again.get? e.1 = resolved.get? e.1 := by
  obtain ⟨again, hagain⟩ := exists_resolveAll (fun e he => ⟨_, hdeclared e he⟩) m.name entries
  have htells' : m.tells entries = m.tells given := by
    have hempty : (m.undeclared entries).isEmpty = (m.undeclared given).isEmpty := by
      rw [← List.isEmpty_map (f := Prod.fst), hothers, List.isEmpty_map]
    rw [tells, hempty, hothers, tells]
  refine ⟨again, resolveOptions_ok_iff.mpr ⟨entries, .mapping .dict entries, hagain, htells'.trans htells⟩,
    fun e he => ?_⟩
  exact (resolves_resolveAll hnames (fun _ _ hget => hget) hagain e he).unique (hdeclared e he)

/-- What options were resolved to is resolved to itself. Each declared option then has a value that its
parameter accepts as it is, if it has one, and the others are the ones that were given. -/
theorem Coherent.again (hm : m.Coherent) (h : (m.resolveOptions options).result.1 = .ok resolved) :
    (m.resolveOptions (.dict resolved)).result.1 = .ok resolved ∧
      (∃ given, Gives options given ∧ m.undeclared resolved = m.undeclared given) ∧
      ∀ e ∈ m.parameters, ∀ v, resolved.get? e.1 = some v → e.2.validate v = .ok v := by
  obtain ⟨given, hgiven, hall, htells⟩ := resolveOptions_ok_iff.mp h
  have hothers := undeclared_resolveAll hall
  have hresolves (e : String × Parameter) (he : e ∈ m.parameters) :
      e.2.Resolves (resolved.get? e.1) (resolved.get? e.1) :=
    (resolves_resolveAll hm.names (fun _ _ hget => hget) hall e he).again (hm.parameters e he)
  refine ⟨resolveOptions_ok_iff.mpr ⟨resolved, .mapping .dict resolved, resolveAll_resolved hresolves m.name, ?_⟩,
    ⟨given, hgiven, hothers⟩, fun e he v hv => ?_⟩
  · rw [tells, hothers]
    exact htells
  · have := hresolves e he
    rw [hv] at this
    cases this with
    | given hvalid => exact hvalid

end All

end Metadata

end Plugin

end TextPipeline
