import TextPipeline.Proofs.Keeping

/-! What becomes of attaching a plugin. Its attacher is called once; what it returned is read, and the
data of the processor to go on with are looked at. Either the plugin is registered there, or the
data of the processor are put back and the fault is passed on as the origin of another one. -/

namespace TextPipeline.Pipeline

open TextPipeline.Plugin
open TextPipeline.Pipeline.Action

/-- Calls an attacher for a processor that holds these data. -/
def Attacher.call (a : Attacher) (host : Host) (id : Nat) (options data : Value) :
    Action (Returned Nat Transformer) := do
  prepare host id options (a.program ((← get).display options) data)

/-- The fault of a plugin that is not attached, with the fault that led to it and what that says. -/
def unattached (name words said : String) (f : Fault) : Fault :=
  .pluginAttach (.str ("Plugin '" ++ name ++ words ++ said)) (some name) (some f)

/-- Raises the fault of a plugin that is not attached, or what comes of a fault that led to it and has no
text. -/
def complain (name words : String) (f : Fault) : Action Nat := do
  let said ← textOf (.error f)
  throw (unattached name words said f)

namespace World

/-- The fault of a plugin that is not attached, as it is raised in a world. -/
def complaint (w : World) (name words : String) (f : Fault) : Fault :=
  match w.textOf (.error f) with
  | .ok said => unattached name words said f
  | .error g => g

/-- The world in which an attacher is called: the attempt was logged. -/
def attaching (w : World) (p : Processor) (name : String) : World :=
  w.told (.log ⟨.debug, logger,
    "Attaching plugin '" ++ name ++ "' to processor '" ++ p.name ++ "'"⟩)

/-- The world in which a plugin is registered for a processor. -/
def registered (w : World) (target : Nat) (q : Processor) (attachment : Attachment)
    (t : Option Transformer) : World :=
  { w with
    processors := w.processors.set target { q with registry := q.registry.add attachment t } }

/-- What calling an attacher for a processor comes to. -/
def called (w : World) (host : Host) (id : Nat) (p : Processor) (a : Attacher) (options : Value)
    (name : String) : Outcome (Returned Nat Transformer) × World :=
  (a.call host id options (w.reveal p.data)).result (w.attaching p name)

end World

/-- What is said of a plugin whose attacher failed. -/
def failedToAttach : String := "' failed to attach: "

/-- What is said of a plugin whose attacher left data that are none. -/
def leftInvalidData : String := "' left invalid processor data: "

theorem result_complain (name words : String) (f : Fault) (w : World) :
    (complain name words f).result w = (.error (w.complaint name words f), w) := by
  rw [complain, result_bind, result_textOf, World.complaint]
  cases w.textOf (.error f) <;> rfl

/-- A call of an attacher that is taken back: what is said of it, and the fault. -/
inductive Mishap (name : String) (id : Nat) :
    Outcome (Returned Nat Transformer) × World → String → Fault → Prop
  | raised (f : Fault) (v : World) (herror : f.isError = true) :
    Mishap name id (.error f, v) failedToAttach f
  | unsupported (x : Value) (v : World) :
    Mishap name id (.ok (.other x), v) failedToAttach (Attached.unsupported name x)
  | strayProcessor (x : Value) (t : Option (Slot Transformer)) (v : World) :
    Mishap name id (.ok (.result (some (.stray x)) t), v) failedToAttach
      (Attached.strayProcessor name x)
  | strayTransformer (p : Option (Slot Nat)) (x : Value) (v : World)
    (hp : ∀ y, p ≠ some (.stray y)) :
    Mishap name id (.ok (.result p (some (.stray x))), v) failedToAttach
      (Attached.strayTransformer name)
  | invalidData (returned : Returned Nat Transformer) (attached : Attached Nat Transformer)
    (q : Processor) (f : Fault) (v : World)
    (hread : Attached.ofReturned name returned = .ok attached)
    (hq : v.processors[attached.processor.getD id]? = some q)
    (hinvalid : (v.reveal q.data).validateData "data" = .error f) :
    Mishap name id (.ok returned, v) leftInvalidData f

/-- What cannot be read of what an attacher returned. -/
theorem Mishap.of_ofReturned {name : String} {id : Nat} {returned : Returned Nat Transformer}
    {f : Fault} (h : Attached.ofReturned name returned = .error f) (v : World) :
    Mishap name id (.ok returned, v) failedToAttach f := by
  match returned with
  | .other x => exact Except.error.inj h ▸ .unsupported x v
  | .result (some (.stray x)) t => exact Except.error.inj h ▸ .strayProcessor x t v
  | .result none (some (.stray x)) => exact Except.error.inj h ▸ .strayTransformer none x v nofun
  | .result (some (.proper p)) (some (.stray x)) =>
    exact Except.error.inj h ▸ .strayTransformer (some (.proper p)) x v nofun

theorem isError_violation (parameter message : String) :
    (Fault.violation parameter message).isError = true := by
  show (Fault.ancestry 8 "ValidationError").contains "Exception" = true
  decide

/-- A call that is taken back is read as its fault, or the data it left are invalid. -/
theorem Mishap.cases {name : String} {id : Nat} {done : Outcome (Returned Nat Transformer) × World}
    {said : String} {f : Fault} (h : Mishap name id done said f) :
    (said = failedToAttach ∧ done.1 >>= Attached.ofReturned name = .error f ∧ f.isError = true) ∨
      ∃ attached q, said = leftInvalidData ∧
        done.1 >>= Attached.ofReturned name = .ok attached ∧
        done.2.processors[attached.processor.getD id]? = some q ∧
        (done.2.reveal q.data).validateData "data" = .error f := by
  cases h with
  | raised _ v herror => exact .inl ⟨rfl, rfl, herror⟩
  | unsupported x v => exact .inl ⟨rfl, rfl, isError_violation _ _⟩
  | strayProcessor x t v => exact .inl ⟨rfl, rfl, isError_violation _ _⟩
  | strayTransformer p x v hp =>
    match p with
    | none => exact .inl ⟨rfl, rfl, isError_violation _ _⟩
    | some (.proper p) => exact .inl ⟨rfl, rfl, isError_violation _ _⟩
    | some (.stray y) => exact absurd rfl (hp y)
  | invalidData returned attached q _ v hread hq hinvalid =>
    exact .inr ⟨attached, q, rfl, hread, hq, hinvalid⟩

/-- A call that comes to no result is taken back, unless the attacher asked to stop. -/
theorem Mishap.of_error {name : String} {id : Nat} {done : Outcome (Returned Nat Transformer) × World}
    {f : Fault} (h : done.1 >>= Attached.ofReturned name = .error f) :
    Mishap name id done failedToAttach f ∧ f.isError = true ∨
      ∃ v, done = (.error f, v) ∧ f.isError = false := by
  obtain ⟨o, v⟩ := done
  cases o with
  | error g =>
    obtain rfl : g = f := Except.error.inj h
    cases herror : g.isError with
    | false => exact .inr ⟨v, rfl, rfl⟩
    | true => exact .inl ⟨.raised g v herror, rfl⟩
  | ok returned =>
    have hmishap : Mishap name id (.ok returned, v) failedToAttach f := .of_ofReturned h v
    rcases hmishap.cases with ⟨-, -, herror⟩ | ⟨attached, q, -, hread, -⟩
    · exact .inl ⟨hmishap, herror⟩
    · cases hread.symm.trans h

/-- A call is taken back that leaves invalid data on the processor to go on with. -/
theorem Mishap.of_invalid {name : String} {id : Nat}
    {done : Outcome (Returned Nat Transformer) × World} {attached : Attached Nat Transformer}
    {q : Processor} {f : Fault} (hread : done.1 >>= Attached.ofReturned name = .ok attached)
    (hq : done.2.processors[attached.processor.getD id]? = some q)
    (hinvalid : (done.2.reveal q.data).validateData "data" = .error f) :
    Mishap name id done leftInvalidData f := by
  obtain ⟨o, v⟩ := done
  cases o with
  | error g => cases hread
  | ok returned => exact .invalidData returned attached q f v hread hq hinvalid

/-- The ways in which attaching a plugin goes. -/
inductive Attempt (host : Host) (id : Nat) (a : Attacher) (options : Value) (name : String)
    (w : World) : Outcome Nat × World → Prop
  /-- There is no such processor. -/
  | absent (hp : w.processors[id]? = none) :
    Attempt host id a options name w (.error (.raised "KeyError" [.nat id]), w)
  /-- The data of the processor are no mapping. -/
  | unfit (p : Processor) (f : Fault) (hp : w.processors[id]? = some p)
    (hbefore : (w.reveal p.data).toEntries = .error f) :
    Attempt host id a options name w (.error f, w.attaching p name)
  /-- The data of the processor have no copy. -/
  | uncopied (p : Processor) (entries : Entries) (f : Fault) (hp : w.processors[id]? = some p)
    (hbefore : (w.reveal p.data).toEntries = .ok entries)
    (hcopy : Value.duplicateEntries entries = .error f) :
    Attempt host id a options name w (.error f, w.attaching p name)
  /-- The attacher asked to stop. -/
  | stopped (p : Processor) (f : Fault) (v : World) (hp : w.processors[id]? = some p)
    (hcalled : w.called host id p a options name = (.error f, v)) (hstop : f.isError = false) :
    Attempt host id a options name w (.error f, v)
  /-- The data of the processor are put back. -/
  | undone (p : Processor) (entries before : Entries) (words : String) (f : Fault)
    (hp : w.processors[id]? = some p) (hbefore : (w.reveal p.data).toEntries = .ok entries)
    (hcopy : Value.duplicateEntries entries = .ok before)
    (hmishap : Mishap name id (w.called host id p a options name) words f) :
    Attempt host id a options name w
      ((restoreData id before >>= fun _ => complain name words f).result
        (w.called host id p a options name).2)
  /-- The processor to go on with does not exist. -/
  | astray (p : Processor) (attached : Attached Nat Transformer) (v : World)
    (hp : w.processors[id]? = some p)
    (hcalled : (w.called host id p a options name).1 >>= Attached.ofReturned name = .ok attached)
    (hv : v = (w.called host id p a options name).2)
    (htarget : v.processors[attached.processor.getD id]? = none) :
    Attempt host id a options name w
      (.error (.raised "KeyError" [.nat (attached.processor.getD id)]), v)
  /-- The plugin is registered. -/
  | attached (p : Processor) (attached : Attached Nat Transformer) (q : Processor) (v : World)
    (hp : w.processors[id]? = some p)
    (hcalled : (w.called host id p a options name).1 >>= Attached.ofReturned name = .ok attached)
    (hv : v = (w.called host id p a options name).2)
    (hq : v.processors[attached.processor.getD id]? = some q)
    (hvalid : (v.reveal q.data).validateData "data" = .ok ()) :
    Attempt host id a options name w
      ((register id (attached.processor.getD id) ⟨a.name, options⟩ attached.transformer name).result v)

theorem result_processor_none {id : Nat} {w : World} (hp : w.processors[id]? = none) :
    (processor id).result w = (.error (.raised "KeyError" [.nat id]), w) := by
  rw [processor, result_get_bind, hp]
  rfl

/-- The call of an attacher is attempted, together with reading what it returned. -/
theorem result_attempt_called (host : Host) (id : Nat) (p : Processor) (a : Attacher) (options : Value)
    (name : String) (w : World) :
    (attempt do
      let returned ← prepare host id options (a.program ((← get).display options) (w.reveal p.data))
      ofOutcome (Attached.ofReturned name returned)).result (w.attaching p name) =
      (.ok ((w.called host id p a options name).1 >>= Attached.ofReturned name),
        (w.called host id p a options name).2) := by
  show (attempt (a.call host id options (w.reveal p.data) >>= fun returned =>
    ofOutcome (Attached.ofReturned name returned))).result (w.attaching p name) = _
  rw [result_attempt, result_bind]
  unfold World.called
  generalize (a.call host id options (w.reveal p.data)).result (w.attaching p name) = done
  obtain ⟨o, v⟩ := done
  cases o with
  | error f => rfl
  | ok returned =>
    dsimp only
    rw [result_ofOutcome]
    rfl

/-- There is no other way. -/
theorem attach_cases (host : Host) (id : Nat) (a : Attacher) (options : Value) (name : String)
    (w : World) : Attempt host id a options name w ((attach host id a options name).result w) := by
  rw [attach]
  cases hp : w.processors[id]? with
  | none =>
    rw [result_bind_error (result_processor_none hp)]
    exact .absent hp
  | some p =>
    have hlog : (log .debug logger ("Attaching plugin '" ++ name ++ "' to processor '" ++ p.name ++
        "'")).result w = (.ok (), w.attaching p name) := rfl
    have hreveal : (reveal p.data).result (w.attaching p name) =
        (.ok (w.reveal p.data), w.attaching p name) := rfl
    rw [result_bind_ok (result_processor hp), result_bind_ok hlog, result_bind_ok hreveal]
    cases hbefore : (w.reveal p.data).toEntries with
    | error f => exact .unfit p f hp hbefore
    | ok entries =>
      rw [result_bind_ok (result_ofOutcome _ _)]
      cases hcopy : Value.duplicateEntries entries with
      | error f => exact .uncopied p entries f hp hbefore hcopy
      | ok before =>
        rw [result_bind_ok (result_ofOutcome _ _),
          result_bind_ok (result_attempt_called host id p a options name w)]
        cases hcalled : (w.called host id p a options name).1 >>= Attached.ofReturned name with
        | error f =>
          dsimp only
          -- A fault that is no error passes through as it is, and nothing is put back.
          rcases Mishap.of_error hcalled with ⟨hmishap, herror⟩ | ⟨v, hv, hstop⟩
          · rw [herror, result_bind_ok (result_require_true _ _)]
            exact .undone p entries before failedToAttach f hp hbefore hcopy hmishap
          · rw [hstop, hv, result_bind_error (result_require_false _ _)]
            exact .stopped p f v hp hv hstop
        | ok attached =>
          dsimp only
          cases hq : (w.called host id p a options name).2.processors[attached.processor.getD id]? with
          | none =>
            rw [result_bind_error (result_processor_none hq)]
            exact .astray p attached _ hp hcalled rfl hq
          | some q =>
            rw [result_bind_ok (result_processor hq), result_bind_ok (result_reveal _ _)]
            cases hdata : ((w.called host id p a options name).2.reveal q.data).validateData "data" with
            | error f =>
              exact .undone p entries before leftInvalidData f hp hbefore hcopy (.of_invalid hcalled hq hdata)
            | ok _ => exact .attached p attached q _ hp hcalled rfl hq hdata

/-! ### What is kept -/

/-- An attacher that attaches nothing itself. -/
def Attacher.Plain (a : Attacher) : Prop :=
  ∀ options data plugin, Preparation.use plugin ∉ a.program options data

/-- What an attacher attaches itself, if anything, keeps to a relation. -/
def Attacher.Heeds (a : Attacher) (host : Host) (R : World → World → Prop) : Prop :=
  a.Plain ∨ ∀ on plugin options, Respects R (host.use on plugin options)

/-- A call keeps to what the plugins keep to that the attacher attaches itself. -/
theorem called_respects {R : World → World → Prop} [World.Lenient R] {host : Host} {a : Attacher}
    (huse : a.Heeds host R) (w : World)
    (id : Nat) (p : Processor) (options : Value) (name : String) :
    R w (w.called host id p a options name).2 := by
  have hcall : Respects R (a.call host id options (w.reveal p.data)) :=
    .get fun v => .prepare id options _ fun plugin hmem =>
      huse.elim (fun hplain => absurd hmem (hplain _ _ plugin)) fun huse => huse
  exact World.Temporal.trans (Respects.log _ _ _ w) (hcall (w.attaching p name))

theorem result_register (id : Nat) {target : Nat} {q : Processor} {w : World}
    (hq : w.processors[target]? = some q) (attachment : Attachment) (t : Option Transformer)
    (name : String) : ∃ events, (register id target attachment t name).result w =
      (.ok target, { w.registered target q attachment t with events := events }) := by
  rw [register, result_bind_ok (result_processor hq)]
  have hset : (setProcessor target { q with registry := q.registry.add attachment t }).result w =
    (.ok ⟨⟩, w.registered target q attachment t) := rfl
  rw [result_bind_ok hset, result_bind_ok (result_log _ _ _ _)]
  split
  · exact ⟨_, rfl⟩
  · exact ⟨_, rfl⟩

/-- What is registered for a processor comes after all that was. -/
theorem grows_registered {target : Nat} {q : Processor} {w : World}
    (hq : w.processors[target]? = some q) (attachment : Attachment) (t : Option Transformer) :
    w.Grows (w.registered target q attachment t) :=
  .set (q := { q with registry := q.registry.add attachment t }) .refl hq (q.registry.before_add _ _) rfl
    fun entries hdata => ⟨entries, hdata⟩

/-- What a plugin does that is attached. -/
theorem attach_ok {host : Host} {id : Nat} {a : Attacher} {options : Value} {name : String}
    {w v : World} {target : Nat} (h : (attach host id a options name).result w = (.ok target, v)) :
    ∃ p attached q events, w.processors[id]? = some p ∧
      (w.called host id p a options name).1 >>= Attached.ofReturned name = .ok attached ∧
      target = attached.processor.getD id ∧
      (w.called host id p a options name).2.processors[target]? = some q ∧
      ((w.called host id p a options name).2.reveal q.data).validateData "data" = .ok () ∧
      v = { (w.called host id p a options name).2.registered target q ⟨a.name, options⟩
        attached.transformer with events := events } := by
  have hattempt := attach_cases host id a options name w
  generalize (attach host id a options name).result w = done at hattempt h
  cases hattempt with
  | undone p entries before words f hp hbefore hcopy hmishap =>
    obtain ⟨g, u, hu, -⟩ := Respects.then_fails (R := fun _ _ => True) (x := restoreData id before)
      (fun _ => trivial) (fun _ v => ⟨_, result_complain name words f v⟩)
      (w.called host id p a options name).2
    cases congrArg Prod.fst (hu.symm.trans h)
  | attached p attached q u hp hread hu hq hvalid =>
    subst hu
    obtain ⟨events, hv⟩ := result_register id hq ⟨a.name, options⟩ attached.transformer name
    obtain ⟨ho, rfl⟩ := Prod.mk.inj (hv.symm.trans h)
    obtain rfl := Except.ok.inj ho
    exact ⟨p, attached, q, events, hp, hread, rfl, hq, hvalid, rfl⟩
  | _ => cases congrArg Prod.fst h

/-- A plugin that is not attached keeps to what the plugins keep to that its attacher attaches. -/
theorem attach_error {R : World → World → Prop} [World.Lenient R] {host : Host} {id : Nat}
    {a : Attacher} (huse : a.Heeds host R)
    {options : Value} {name : String} {w v : World} {f : Fault}
    (h : (attach host id a options name).result w = (.error f, v)) : R w v := by
  have hcalled (p : Processor) : R w (w.called host id p a options name).2 :=
    called_respects huse w id p options name
  have hattempt := attach_cases host id a options name w
  generalize (attach host id a options name).result w = done at hattempt h
  cases hattempt with
  | absent hp =>
    obtain ⟨-, rfl⟩ := Prod.mk.inj h
    exact World.Temporal.refl w
  | unfit p f hp hbefore =>
    obtain ⟨-, rfl⟩ := Prod.mk.inj h
    exact Respects.log (R := R) _ _ _ w
  | uncopied p entries f hp hbefore hcopy =>
    obtain ⟨-, rfl⟩ := Prod.mk.inj h
    exact Respects.log (R := R) _ _ _ w
  | stopped p f u hp hu hstop =>
    obtain ⟨-, rfl⟩ := Prod.mk.inj h
    have hu' := hcalled p
    rw [hu] at hu'
    exact hu'
  | undone p entries before words f hp hbefore hcopy hmishap =>
    have hrestore : Respects R (restoreData id before) := .restoreData _ _
    obtain ⟨g, u, hu, hrestored⟩ := hrestore.then_fails (fun _ v => ⟨_, result_complain name words f v⟩)
      (w.called host id p a options name).2
    obtain ⟨-, rfl⟩ := Prod.mk.inj (hu.symm.trans h)
    exact World.Temporal.trans (hcalled p) hrestored
  | astray p attached u hp hread hu htarget =>
    obtain ⟨-, rfl⟩ := Prod.mk.inj h
    subst hu
    exact hcalled p
  | attached p attached q u hp hread hu hq hvalid =>
    obtain ⟨events, hv⟩ := result_register id hq ⟨a.name, options⟩ attached.transformer name
    cases congrArg Prod.fst (hv.symm.trans h)

/-- The processors and their data are the same. -/
structure World.Beside (w v : World) : Prop where
  processors : v.processors = w.processors
  store : v.store = w.store

instance : World.Temporal World.Beside where
  refl _ := ⟨rfl, rfl⟩
  trans h h' := ⟨h'.processors.trans h.processors, h'.store.trans h.store⟩

/-- A relation in time that allows plugins to be attached, and all that leaves processors and what is
kept as they are. -/
class World.Enduring (R : World → World → Prop) : Prop extends World.Lenient R where
  of_beside {w v : World} : w.Beside v → R w v
  of_registered {w : World} {target : Nat} {q : Processor} (hq : w.processors[target]? = some q)
    (attachment : Attachment) (t : Option Transformer) : R w (w.registered target q attachment t)

instance : World.Enduring World.Grows where
  of_beside h := .of_eq .refl h.store h.processors
  of_registered := grows_registered

/-- What was attached stays attached, and all nodes that are kept are as they were. -/
structure World.Equips (w v : World) : Prop where
  grows : w.Grows v
  nodes : w.SparesNodes v

instance : World.Enduring World.Equips where
  refl w := ⟨World.Temporal.refl w, fun _ _ _ h => h⟩
  trans h h' := ⟨h.grows.trans h'.grows, h.nodes.trans h.grows h'.nodes⟩
  of_spares h := ⟨h.grows, h.nodes⟩
  of_beside h := ⟨.of_eq .refl h.store h.processors, fun _ _ _ hn => by rw [h.store]; exact hn⟩
  of_registered hq attachment t := ⟨grows_registered hq attachment t, fun _ _ _ h => h⟩

/-- Attaching keeps to what the plugins keep to that the attacher attaches itself. -/
theorem World.Enduring.attach {R : World → World → Prop} [World.Enduring R] {host : Host} {a : Attacher}
    (huse : a.Heeds host R) (id : Nat) (options : Value) (name : String) :
    Respects R (attach host id a options name) := fun w => by
  obtain ⟨o, v, h⟩ : ∃ o v, (Pipeline.attach host id a options name).result w = (o, v) := ⟨_, _, rfl⟩
  rw [h]
  cases o with
  | error f => exact attach_error huse h
  | ok target =>
    obtain ⟨p, attached, q, events, hp, -, -, hq, -, rfl⟩ := attach_ok h
    have hcalled : R w (w.called host id p a options name).2 :=
      called_respects huse w id p options name
    have hregistered := World.Enduring.of_registered (R := R) hq ⟨a.name, options⟩ attached.transformer
    exact World.Temporal.trans (World.Temporal.trans hcalled hregistered)
      (World.Enduring.of_beside ⟨rfl, rfl⟩)

/-! ### The attacher of a plugin -/

/-- The attacher of a plugin, the options that it is given, and the name under which it is attached. -/
def attacherOf (host : Host) (options : Value) : Item → Action (Attacher × Value × String)
  | .named name => do
    let found ← attempt do
      let m ← withCatalog (Catalog.lookup host.standard host.surroundings name)
      let resolved ← ofLogged (m.resolveOptions ((← get).display options))
      return (m, keepGiven (← content options) resolved)
    match found with
    | .ok (m, options) => return (m.attacher, .dict options, m.name)
    | .error f =>
      if f.isKind "KeyError" || f.isKind "ValidationError" then throw (← cannotAttach name f)
      else throw f
  | .attacher a => return (a, options, a.name)
  | .other v =>
    match Attacher.ofValue? v with
    | some a => return (a, options, a.name)
    | none =>
      throw (.violation "plugin" ("Plugin must be an attacher, a plugin name or a list of them, " ++
        "got " ++ v.typeName))

/-- A plugin is attached by its attacher. -/
theorem attachItem_eq (host : Host) (options : Value) (id : Nat) (item : Item) :
    attachItem host options id item =
      attacherOf host options item >>= fun (a, options, name) => attach host id a options name := by
  cases item with
  | named name =>
    rw [attachItem, attachNamed, attacherOf, bind_assoc]
    refine bind_congr fun found => ?_
    cases found with
    | ok found => rfl
    | error f =>
      dsimp only
      split
      · rw [bind_assoc]
        rfl
      · rfl
  | attacher a => rfl
  | other v =>
    simp only [attachItem, attacherOf]
    cases Attacher.ofValue? v <;> rfl

theorem result_withCatalog {α : Type} (x : Cataloguing Attacher α) (w : World) :
    (withCatalog x).result w =
      (((x.run.run w.catalog).run []).1.1, { w with
        catalog := ((x.run.run w.catalog).run []).1.2,
        events := w.events ++ ((x.run.run w.catalog).run []).2.map .log }) := by
  rw [withCatalog, result_bind]
  exact result_ofOutcome _ _

theorem beside_withCatalog {α : Type} (x : Cataloguing Attacher α) :
    Respects World.Beside (withCatalog x) := fun w => by
  rw [result_withCatalog]
  exact ⟨rfl, rfl⟩

theorem result_logged {α : Type} (x : Logged α) (w : World) :
    (ofLogged x).result w =
      (x.result.1, { w with events := w.events ++ x.result.2.map .log }) := by
  obtain ⟨o, records, h⟩ : ∃ o records, x.result = (o, records) := ⟨_, _, rfl⟩
  rw [h]
  exact result_ofLogged h w

theorem beside_ofLogged {α : Type} (x : Logged α) : Respects World.Beside (ofLogged x) := fun w => by
  rw [result_logged]
  exact ⟨rfl, rfl⟩

/-- Looking for the attacher of a plugin changes no processor. -/
theorem beside_attacherOf (host : Host) (options : Value) (item : Item) :
    Respects World.Beside (attacherOf host options item) := by
  cases item with
  | named name =>
    refine .bind (.attempt (.bind (beside_withCatalog _) fun m => .get fun _ =>
      .bind (beside_ofLogged _) fun _ => .of_reads (.bind (.content _) fun _ => .pure _))) fun found => ?_
    cases found with
    | ok found => exact .of_reads (.pure _)
    | error f => exact .ite (.of_reads (.bind (.cannotAttach _ _) fun _ => .throw _)) (.of_reads (.throw _))
  | attacher a => exact .of_reads (.pure _)
  | other v =>
    simp only [attacherOf]
    cases Attacher.ofValue? v with
    | none => exact .of_reads (.throw _)
    | some a => exact .of_reads (.pure _)

/-! ### Attaching plugins that attach others -/

namespace World.Enduring

variable {R : World → World → Prop} [World.Enduring R]

section Use

variable {host : Host} (huse : ∀ on plugin options, Respects R (host.use on plugin options))
include huse

theorem attachItem (options : Value) (id : Nat) (item : Item) :
    Respects R (attachItem host options id item) := by
  rw [attachItem_eq]
  exact .bind ((beside_attacherOf host options item).mono fun w v => of_beside)
    fun _ => attach (.inr huse) _ _ _

theorem useOn (id : Nat) (plugin : Plugin) (options : Value) :
    Respects R (useOn host id plugin options) := by
  rw [Pipeline.useOn, Batch.visit_eq_foldlM]
  exact .foldlM (attachItem huse options) _ _

theorem processorFor (v : Value) : Respects R (processorFor host v) := by
  unfold Pipeline.processorFor
  split
  · exact .of_reads (.pure _)
  · refine .get fun w => ?_
    split
    · exact .bind (.newProcessor _ _ _ _) fun _ => .foldlM (fun _ _ => useOn huse _ _ _) _ _
    · exact .of_reads (.throw _)
  · exact .of_reads (.throw _)

end Use

/-- Plugins that attach others keep to what attaching keeps to. -/
theorem nested (endpoints : Grammar.Endpoints) (standard : List (Metadata Attacher))
    (surroundings : Surroundings Attacher) (depth : Nat) (on : Value) (plugin : Plugin)
    (options : Value) :
    Respects R ((Host.nested endpoints standard surroundings depth).use on plugin options) := by
  induction depth generalizing on plugin options with
  | zero => exact .of_reads (.throw _)
  | succ depth ih => exact .bind (processorFor ih on) fun _ => useOn ih _ plugin options

end World.Enduring

end TextPipeline.Pipeline
