import TextPipeline.Proofs.Batching
import TextPipeline.Proofs.Closed
import TextPipeline.Proofs.Describing

/-! The data that plugins leave. Data refer to nothing and are their own copy, so what was copied
before an attacher was called can be put back as it was: a failed attachment is taken back as a whole.
Data of which no copy is made keep the attacher from being called. An attachment that succeeds leads to a
processor whose data are data. -/

namespace TextPipeline.Value

/-- Data refer to nothing. -/
theorem IsData.closed {v : Value} (h : IsData v) : v.Closed := by
  induction h with
  | none | bool | int | float | str => exact fun _ => rfl
  | list _ ih => exact closed_list.mpr ih
  | sequence _ ih => exact closed_sequence.mpr ih
  | mapping hkeys _ ih =>
    refine closed_mapping.mpr fun e he => ⟨?_, ih e he⟩
    obtain ⟨s, hs⟩ := hkeys e he
    rw [hs]
    exact fun _ => rfl

/-- The entries of data are their own copy, if there is one. -/
theorem IsData.copying_entries {kind : MappingKind} {entries : Entries} (h : IsData (.mapping kind entries)) :
    Copying (duplicateEntries entries) entries := by
  cases h with
  | mapping hkeys hvalues =>
    refine copying_duplicateEntries fun e he => ⟨?_, (hvalues e he).copying⟩
    obtain ⟨s, hs⟩ := hkeys e he
    rw [hs]
    exact copying_str s

end TextPipeline.Value

namespace TextPipeline.Pipeline

open TextPipeline.Plugin
open TextPipeline.Pipeline.Action

/-- The data of a processor are data. -/
def World.Valid (w : World) (id : Nat) : Prop :=
  ∃ data, w.data? id = some data ∧ data.validateData "data" = .ok ()

/-- A copy of the data of a processor can be made. -/
def World.Copies (w : World) (p : Processor) : Prop :=
  ∃ entries copied, (w.reveal p.data).toEntries = .ok entries ∧ Value.duplicateEntries entries = .ok copied

theorem World.copies_empty {w : World} {p : Processor} (h : p.data = .dict []) : w.Copies p := by
  refine ⟨[], [], ?_, by rw [Value.duplicateEntries]⟩
  rw [h]
  rfl

/-- A mishap has one description. -/
theorem Mishap.unique {name : String} {id : Nat} {done : Outcome (Returned Nat Transformer) × World}
    {said said' : String} {f f' : Fault} (h : Mishap name id done said f)
    (h' : Mishap name id done said' f') : said = said' ∧ f = f' := by
  rcases h.cases with ⟨rfl, hf, -⟩ | ⟨attached, q, rfl, hread, hq, hdata⟩ <;>
    rcases h'.cases with ⟨rfl, hf', -⟩ | ⟨attached', q', rfl, hread', hq', hdata'⟩
  · exact ⟨rfl, Except.error.inj (hf.symm.trans hf')⟩
  · cases hf.symm.trans hread'
  · cases hf'.symm.trans hread
  · obtain rfl := Except.ok.inj (hread.symm.trans hread')
    obtain rfl := Option.some.inj (hq.symm.trans hq')
    exact ⟨rfl, Except.error.inj (hdata.symm.trans hdata')⟩

/-- The attacher that a plugin stands for by itself. -/
def Item.attacher? : Item → Option Attacher
  | .named _ => none
  | .attacher a => some a
  | .other v => Attacher.ofValue? v

theorem attachItem_of_attacher? {host : Host} {options : Value} {id : Nat} {item : Item} {a : Attacher}
    (h : item.attacher? = some a) : attachItem host options id item = attach host id a options a.name := by
  cases item with
  | named name => cases h
  | attacher b =>
    obtain rfl := Option.some.inj h
    rfl
  | other v =>
    simp only [Item.attacher?] at h
    simp only [attachItem, h]

section Restore

variable {host : Host} {id : Nat} {a : Attacher} {options : Value} {name : String} {w : World}

/-- A mishap is no request to stop. -/
theorem Mishap.not_stopped {done : Outcome (Returned Nat Transformer) × World} {said : String}
    {f g : Fault} {v : World} (h : Mishap name id done said f) (hdone : done = (.error g, v)) :
    g.isError = true := by
  subst hdone
  rcases h.cases with ⟨-, hf, herror⟩ | ⟨attached, q, -, hread, -⟩
  · obtain rfl : g = f := Except.error.inj hf
    exact herror
  · cases hread

theorem Mishap.invalid_of_read {done : Outcome (Returned Nat Transformer) × World} {said : String}
    {f : Fault} {attached : Attached Nat Transformer} (h : Mishap name id done said f)
    (hread : done.1 >>= Attached.ofReturned name = .ok attached) :
    ∃ q, done.2.processors[attached.processor.getD id]? = some q ∧
      (done.2.reveal q.data).validateData "data" = .error f := by
  rcases h.cases with ⟨-, hf, -⟩ | ⟨attached', q, -, hread', hq, hdata⟩
  · cases hf.symm.trans hread
  · obtain rfl := Except.ok.inj (hread'.symm.trans hread)
    exact ⟨q, hq, hdata⟩

/-- What is held as a mapping is seen as one. -/
theorem World.Mapped.reveal {p : Processor} (hmapped : w.Mapped id) (hp : w.processors[id]? = some p) :
    ∃ entries, w.reveal p.data = .dict entries := by
  obtain ⟨p', held, hp', hheld⟩ := hmapped
  obtain rfl := Option.some.inj (hp.symm.trans hp')
  have hwithin (n : Nat) : ∃ entries, w.store.revealWithin n (.dict held) = .dict entries := by
    cases n with
    | zero => exact ⟨held, rfl⟩
    | succ n => exact ⟨_, rfl⟩
  cases hdata : p.data with
  | handle h =>
    rw [hdata, Store.content_handle_eq_dict] at hheld
    rw [World.reveal, Store.reveal, Store.revealWithin, Value.revealWith, hheld]
    exact hwithin _
  | mapping kind entries =>
    rw [hdata] at hheld
    obtain ⟨rfl, rfl⟩ := Value.mapping.inj hheld
    exact hwithin _
  | _ =>
    rw [hdata] at hheld
    cases hheld

/-- The data of a processor are seen as a mapping of data if they are held as one and are valid. -/
theorem World.Mapped.data {p : Processor} (hmapped : w.Mapped id) (hp : w.processors[id]? = some p)
    (hvalid : (w.reveal p.data).validateData "data" = .ok ()) :
    ∃ entries, w.reveal p.data = .dict entries ∧ Value.IsData (.dict entries) := by
  obtain ⟨entries, hentries⟩ := hmapped.reveal hp
  rw [hentries] at hvalid
  exact ⟨entries, hentries, (Value.validateData_iff.mp hvalid).1⟩

/-- Data that are held as a mapping are as they were when a call has been taken back. -/
theorem data?_restored {p : Processor} {entries before : Entries} {words : String} (fault : Fault)
    (huse : a.Heeds host World.Grows)
    (hp : w.processors[id]? = some p) (hmapped : w.Mapped id)
    (hvalid : (w.reveal p.data).validateData "data" = .ok ())
    (hentries : (w.reveal p.data).toEntries = .ok entries)
    (hcopy : Value.duplicateEntries entries = .ok before) :
    ∃ u, (restoreData id before >>= fun _ => complain name words fault).result
        (w.called host id p a options name).2 = (.error (u.complaint name words fault), u) ∧
      u.data? id = w.data? id := by
  obtain ⟨held, hheld, hdata⟩ := hmapped.data hp hvalid
  obtain rfl : held = entries := by
    rw [hheld] at hentries
    exact Except.ok.inj hentries
  obtain rfl : before = held := by
    rcases hdata.copying_entries with hsame | ⟨type, hfault⟩
    · exact Except.ok.inj (hcopy.symm.trans hsame)
    · cases hcopy.symm.trans hfault
  have hgrows : w.Grows (w.called host id p a options name).2 := called_respects huse w id p options name
  obtain ⟨u, hu, hrestored⟩ := restoreData_ok (hgrows.mapped id hmapped) hdata.closed
  refine ⟨u, ?_, ?_⟩
  · rw [result_bind_ok hu, result_complain]
  · rw [hrestored, World.data?, hp, Option.map_some, hheld]

/-- A call that is taken back puts the data of the processor back. -/
theorem attach_of_mishap {p : Processor} {words : String} {f : Fault}
    (huse : a.Heeds host World.Grows)
    (hp : w.processors[id]? = some p) (hmapped : w.Mapped id)
    (hvalid : (w.reveal p.data).validateData "data" = .ok ()) (hcopies : w.Copies p)
    (hmishap : Mishap name id (w.called host id p a options name) words f) :
    ∃ u, (attach host id a options name).result w = (.error (u.complaint name words f), u) ∧
      u.data? id = w.data? id := by
  -- A mishap says what was read of the call and which data it left, which rules out every other way.
  have hattempt := attach_cases host id a options name w
  generalize (attach host id a options name).result w = done at hattempt ⊢
  cases hattempt with
  | absent hp' => cases hp.symm.trans hp'
  | unfit p' f' hp' hbefore =>
    obtain rfl := Option.some.inj (hp.symm.trans hp')
    obtain ⟨entries, hentries, -⟩ := hmapped.data hp hvalid
    rw [hentries] at hbefore
    cases hbefore
  | uncopied p' entries f' hp' hbefore hcopy =>
    obtain rfl := Option.some.inj (hp.symm.trans hp')
    obtain ⟨entries', copied, hentries, hcopied⟩ := hcopies
    obtain rfl := Except.ok.inj (hbefore.symm.trans hentries)
    cases hcopied.symm.trans hcopy
  | stopped p' f' v hp' hcalled hstop =>
    obtain rfl := Option.some.inj (hp.symm.trans hp')
    cases hstop.symm.trans (hmishap.not_stopped hcalled)
  | undone p' entries before words' f' hp' hbefore hcopy hmishap' =>
    obtain rfl := Option.some.inj (hp.symm.trans hp')
    obtain ⟨rfl, rfl⟩ := hmishap.unique hmishap'
    exact data?_restored _ huse hp hmapped hvalid hbefore hcopy
  | astray p' attached v hp' hread hv htarget =>
    obtain rfl := Option.some.inj (hp.symm.trans hp')
    obtain ⟨q, hq, -⟩ := hmishap.invalid_of_read hread
    rw [hv] at htarget
    cases hq.symm.trans htarget
  | attached p' attached q v hp' hread hv hq hok =>
    obtain rfl := Option.some.inj (hp.symm.trans hp')
    obtain ⟨q', hq', hinvalid⟩ := hmishap.invalid_of_read hread
    subst hv
    obtain rfl := Option.some.inj (hq.symm.trans hq')
    cases hok.symm.trans hinvalid

/-- An attacher is not called on a processor of whose data no copy is made. -/
theorem attach_of_not_copies {p : Processor} (hp : w.processors[id]? = some p)
    (hvalid : (w.reveal p.data).validateData "data" = .ok ()) (hcopies : ¬w.Copies p) :
    ∃ type, (attach host id a options name).result w =
      (.error (notCopied type), w.attaching p name) := by
  obtain ⟨hdata, kind, held, hheld⟩ := Value.validateData_iff.mp hvalid
  rw [hheld] at hdata
  have hentries : (w.reveal p.data).toEntries = .ok held := by
    rw [hheld]
    rfl
  have hlog : (log .debug logger ("Attaching plugin '" ++ name ++ "' to processor '" ++ p.name ++
      "'")).result w = (.ok (), w.attaching p name) := rfl
  have hreveal : (reveal p.data).result (w.attaching p name) =
      (.ok (w.reveal p.data), w.attaching p name) := rfl
  rcases hdata.copying_entries with hsame | ⟨type, hfault⟩
  · exact absurd ⟨held, held, hentries, hsame⟩ hcopies
  · refine ⟨type, ?_⟩
    rw [attach, result_bind_ok (result_processor hp), result_bind_ok hlog, result_bind_ok hreveal, hentries,
      result_bind_ok (result_ofOutcome _ _), hfault]
    rfl

end Restore

/-- An edit that adds a text to the list under the first key. -/
def Edit.extendFirst (s : String) : Edit where
  apply _
    | .dict ((k, .list items) :: rest) => .ok (.dict ((k, .list (items ++ [.str s])) :: rest))
    | v => .ok v
  mapping sight entries data h := by
    split at h
    · exact ⟨_, (Except.ok.inj h).symm⟩
    · exact ⟨entries, (Except.ok.inj h).symm⟩

theorem World.Beside.data? {w v : World} (h : w.Beside v) (id : Nat) : v.data? id = w.data? id := by
  unfold World.data? World.reveal
  rw [h.processors, h.store]

theorem World.Beside.mapped {w v : World} (h : w.Beside v) {id : Nat} (hid : w.Mapped id) :
    v.Mapped id := by
  rw [World.Mapped, h.processors, h.store]
  exact hid

/-- Registering a plugin changes no data. -/
theorem World.data?_registered {w : World} {target : Nat} {q : Processor}
    (hq : w.processors[target]? = some q) (attachment : Attachment) (t : Option Transformer)
    (id : Nat) : (w.registered target q attachment t).data? id = w.data? id := by
  unfold World.data? World.registered
  by_cases h : target = id
  · subst h
    rw [List.getElem?_set_self (List.getElem?_eq_some_iff.mp hq).1, hq]
    rfl
  · rw [List.getElem?_set_ne h]
    rfl

section Valid

variable {host : Host} {id : Nat} {options : Value} {w v : World}

/-- A plugin is attached only to a processor of whose data a copy can be made. -/
theorem attach_copies {a : Attacher} {name : String} {q : Nat} {p : Processor}
    (h : (attach host id a options name).result w = (.ok q, v)) (hp : w.processors[id]? = some p) :
    w.Copies p := by
  have hlog : (log .debug logger ("Attaching plugin '" ++ name ++ "' to processor '" ++ p.name ++
      "'")).result w = (.ok (), w.attaching p name) := rfl
  have hreveal : (reveal p.data).result (w.attaching p name) =
      (.ok (w.reveal p.data), w.attaching p name) := rfl
  rw [attach, result_bind_ok (result_processor hp), result_bind_ok hlog, result_bind_ok hreveal] at h
  obtain ⟨entries, u, hentries, h⟩ := of_result_bind_ok h
  obtain ⟨copied, _, hcopied, _⟩ := of_result_bind_ok h
  exact ⟨entries, copied, of_result_ofOutcome hentries, of_result_ofOutcome hcopied⟩

/-- What is attached leads to a processor whose data are data. All data are as the attacher left
them. -/
theorem attach_valid {a : Attacher} {name : String} {q : Nat}
    (h : (attach host id a options name).result w = (.ok q, v)) :
    v.Valid q ∧ ∃ p, w.processors[id]? = some p ∧
      ∀ other, v.data? other = (w.called host id p a options name).2.data? other := by
  obtain ⟨p, attached, o, events, hp, -, -, ho, hvalid, rfl⟩ := attach_ok h
  have hsame := World.data?_registered ho ⟨a.name, options⟩ attached.transformer
  refine ⟨⟨_, (hsame q).trans ?_, hvalid⟩, p, hp, hsame⟩
  rw [World.data?, ho, Option.map_some]

/-- Plugins that are used in turn lead to a processor whose data are data. -/
theorem UsedInTurn.valid {items : List Item} {p q : Nat} (h : UsedInTurn host options items p w q v)
    (hp : w.Valid p) : v.Valid q := by
  induction h with
  | done => exact hp
  | next hfirst _ ih =>
    obtain ⟨a, given, name, u, -, -, hattach⟩ := useOn_leaf_ok hfirst
    exact ih (attach_valid hattach).1

/-- A plugin that is not attached leaves the data of the processor as they were, unless its attacher
asked to stop or leads to a processor that does not exist. -/
theorem attach_error_restores {a : Attacher} {name : String} {f : Fault}
    (huse : a.Heeds host World.Grows)
    (hmapped : w.Mapped id) (hvalid : w.Valid id)
    (h : (attach host id a options name).result w = (.error f, v)) (herror : f.isError = true) :
    v.data? id = w.data? id ∨
      ∃ missing, v.processors[missing]? = none ∧ f = .raised "KeyError" [.nat missing] := by
  have hattempt := attach_cases host id a options name w
  generalize (attach host id a options name).result w = done at hattempt h
  cases hattempt with
  | absent hp =>
    obtain ⟨ho, rfl⟩ := Prod.mk.inj h
    exact .inr ⟨id, hp, (Except.error.inj ho).symm⟩
  | unfit p f hp hbefore =>
    obtain ⟨-, rfl⟩ := Prod.mk.inj h
    exact .inl rfl
  | stopped p g u hp hu hstop =>
    obtain ⟨ho, -⟩ := Prod.mk.inj h
    obtain rfl := Except.error.inj ho
    cases hstop.symm.trans herror
  | uncopied p entries f hp hbefore hcopy =>
    obtain ⟨-, rfl⟩ := Prod.mk.inj h
    exact .inl rfl
  | undone p entries before words g hp hbefore hcopy hmishap =>
    obtain ⟨data, hdata, hok⟩ := hvalid
    rw [World.data?, hp] at hdata
    obtain rfl := Option.some.inj hdata
    obtain ⟨u, hu, hsame⟩ := data?_restored g huse hp hmapped hok hbefore hcopy
    obtain ⟨-, rfl⟩ := Prod.mk.inj (hu.symm.trans h)
    exact .inl hsame
  | astray p attached u hp hread hu htarget =>
    obtain ⟨ho, rfl⟩ := Prod.mk.inj h
    exact .inr ⟨_, htarget, (Except.error.inj ho).symm⟩
  | attached p attached q u hp hread hu hq hok =>
    obtain ⟨events, hv⟩ := result_register id hq ⟨a.name, options⟩ attached.transformer name
    cases congrArg Prod.fst (hv.symm.trans h)

theorem useOn_leaf_error_restores {item : Item} {f : Fault}
    (huse : ∀ on plugin options, Respects World.Grows (host.use on plugin options))
    (hmapped : w.Mapped id) (hvalid : w.Valid id)
    (h : (useOn host id (.leaf item) options).result w = (.error f, v)) (herror : f.isError = true) :
    v.data? id = w.data? id ∨
      ∃ missing, v.processors[missing]? = none ∧ f = .raised "KeyError" [.nat missing] := by
  have hbeside := beside_attacherOf host options item w
  rw [useOn_leaf, attachItem_eq, result_bind] at h
  generalize (attacherOf host options item).result w = done at h hbeside
  obtain ⟨o, u⟩ := done
  cases o with
  | error g =>
    obtain ⟨-, rfl⟩ := Prod.mk.inj h
    exact .inl (hbeside.data? id)
  | ok found =>
    rw [← hbeside.data? id]
    have hvalid' : u.Valid id := by
      unfold World.Valid
      rw [hbeside.data? id]
      exact hvalid
    exact attach_error_restores (.inr huse) (hbeside.mapped hmapped) hvalid' h herror

end Valid

/-- Using plugins on a processor that holds data as a mapping leads to a processor whose data are data.
A plugin that is not attached leaves the data of the processor as they were, unless its attacher asked
to stop or leads to a processor that does not exist. What is not looked at are the data of a processor
that is not the one to go on with: they are as the attacher left them. -/
theorem use_leads_to_data (endpoints : Grammar.Endpoints) (standard : List (Metadata Attacher))
    (surroundings : Surroundings Attacher) (depth : Nat) {w : World} {id : Nat}
    (hmapped : w.Mapped id) (hvalid : w.Valid id) (options : Value) :
    let host := Host.nested endpoints standard surroundings depth
    (∀ plugin q v, (useOn host id plugin options).result w = (.ok q, v) → v.Valid q) ∧
      (∀ item f v, (useOn host id (.leaf item) options).result w = (.error f, v) → f.isError = true →
        v.data? id = w.data? id ∨
          ∃ missing, v.processors[missing]? = none ∧ f = .raised "KeyError" [.nat missing]) ∧
      ∀ item a q v, item.attacher? = some a →
        (useOn host id (.leaf item) options).result w = (.ok q, v) →
          ∃ p, w.processors[id]? = some p ∧
            v.data? id = (w.called host id p a options a.name).2.data? id := by
  intro host
  have huse := World.Enduring.nested (R := World.Grows) endpoints standard surroundings depth
  refine ⟨fun plugin q v h => ?_, fun item f v h herror => ?_, fun item a q v hitem h => ?_⟩
  · rw [useOn_eq_foldlM] at h
    rcases foldlM_useOn_cases host options plugin.leaves id w with
      ⟨q', v', hused, h'⟩ | ⟨-, -, -, -, -, f, v', -, -, -, h'⟩
    · obtain ⟨ho, rfl⟩ := Prod.mk.inj (h'.symm.trans h)
      obtain rfl := Except.ok.inj ho
      exact hused.valid hvalid
    · cases congrArg Prod.fst (h'.symm.trans h)
  · exact useOn_leaf_error_restores huse hmapped hvalid h herror
  · rw [useOn_leaf, attachItem_of_attacher? hitem] at h
    obtain ⟨-, p, hp, hsame⟩ := attach_valid h
    exact ⟨p, hp, hsame id⟩

/-- An edit that sets an entry of a mapping. -/
def Edit.put (key : String) (v : Value) : Edit :=
  ⟨fun _ data => data.setItem (.str key) v, fun _ _ _ h => Value.setItem_dict h⟩

/-- A plugin that adds an entry and is attached. -/
theorem use_leads_to_data_entry :
    let host := Host.nested .standard [] (.ok []) 1
    let w : World := { processors := [⟨"p", by decide, .none, .none, .dict [], Registry.empty⟩] }
    let a : Attacher := .mk "entry" fun _ _ => [.alter (.change (.put "depth" (.int 2)))]
    ∃ v, (useOn host 0 (.leaf (.attacher a)) .none).result w = (.ok 0, v) ∧ v.Valid 0 := by
  intro host w a
  have hmapped : w.Mapped 0 := ⟨_, [], rfl, rfl⟩
  have hvalid : w.Valid 0 := ⟨.dict [], rfl, rfl⟩
  obtain ⟨v, hused⟩ : ∃ v, (useOn host 0 (.leaf (.attacher a)) .none).result w = (.ok 0, v) :=
    ⟨_, rfl⟩
  exact ⟨v, hused, (use_leads_to_data .standard [] (.ok []) 1 hmapped hvalid .none).1 _ _ _ hused⟩

/-- An attacher can leave octets in the data of its processor when it leads to another one. -/
theorem use_leaves_octets :
    let host := Host.nested .standard [] (.ok []) 1
    let w : World := {
      processors := [⟨"p", by decide, .none, .none, .dict [], Registry.empty⟩,
        ⟨"q", by decide, .none, .none, .dict [], Registry.empty⟩]
      names := [("q", .handle (.processor 1))] }
    let a : Attacher := .mk "octets" fun _ _ =>
      [.alter (.change (.put "bad" (.bytes [0]))), .give (.processor "q")]
    w.Valid 0 ∧ w.Valid 1 ∧
      ∃ v, (useOn host 0 (.leaf (.attacher a)) .none).result w = (.ok 1, v) ∧ ¬v.Valid 0 := by
  intro host w a
  refine ⟨⟨.dict [], rfl, rfl⟩, ⟨.dict [], rfl, rfl⟩, _, rfl, ?_⟩
  rintro ⟨data, hdata, hvalid⟩
  obtain rfl := Option.some.inj hdata
  cases hvalid

end TextPipeline.Pipeline
