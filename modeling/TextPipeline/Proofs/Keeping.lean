import TextPipeline.Proofs.Recomposition

/-! What attachers can do to the processors that are there. Their data change, but data that are held
as a mapping stay one, and what is attached to a processor stays attached. An attacher that attaches
nothing itself adds nothing to any of them; it can only make copies, which are processors of their
own. An action keeps to such a relation of an earlier and a later world if its parts do. -/

namespace TextPipeline.Plugin.Registry

variable {τ : Type}

/-- A record of plugins from which another one goes on. -/
structure Before (r s : Registry τ) : Prop where
  attachments : r.attachments <+: s.attachments
  transformers : r.transformers <+: s.transformers

theorem Before.refl (r : Registry τ) : r.Before r := ⟨List.prefix_rfl, List.prefix_rfl⟩

theorem Before.trans {r s t : Registry τ} (h : r.Before s) (h' : s.Before t) : r.Before t :=
  ⟨h.attachments.trans h'.attachments, h.transformers.trans h'.transformers⟩

theorem before_add (r : Registry τ) (a : Attachment) (t : Option τ) : r.Before (r.add a t) :=
  ⟨List.prefix_append .., List.prefix_append ..⟩

end TextPipeline.Plugin.Registry

namespace TextPipeline.Pipeline

open TextPipeline.Plugin
open TextPipeline.Pipeline.Action

namespace Store

/-- What is kept of an object after a change of what is kept of some object. -/
theorem content?_write (s : Store) (g h : Handle) (v : Value) :
    (s.write g v).content? h = s.content? h ∨
      (s.content? g = s.content? h ∧ (s.write g v).content? h = some v) := by
  unfold write content?
  cases hg : number? g with
  | none => exact .inl rfl
  | some i =>
    cases hh : number? h with
    | none => exact .inl rfl
    | some j =>
      simp only [Option.bind_some]
      by_cases hij : i = j
      · subst hij
        by_cases hi : i < s.cells.length
        · exact .inr ⟨rfl, by rw [List.getElem?_set_self hi]⟩
        · exact .inl (by rw [List.set_eq_of_length_le (Nat.le_of_not_lt hi)])
      · exact .inl (List.getElem?_set_ne hij)

theorem content?_write_self {s : Store} {h : Handle} {c : Value} (hc : s.content? h = some c)
    (v : Value) : (s.write h v).content? h = some v := by
  rcases content?_write s h h v with heq | ⟨-, heq⟩
  · unfold write content? at *
    cases hn : number? h with
    | none => rw [hn] at hc; cases hc
    | some i =>
      rw [hn, Option.bind_some] at hc
      exact List.getElem?_set_self (List.getElem?_eq_some_iff.mp hc).1
  · exact heq

theorem content_handle_eq_dict {s : Store} {h : Handle} {entries : Entries} :
    s.content (.handle h) = .dict entries ↔ s.content? h = some (.dict entries) := by
  show (s.content? h).getD (.handle h) = _ ↔ _
  cases s.content? h <;> simp

/-- A value whose content is a mapping keeps one if what is written in the place of a mapping is one. -/
theorem content_write {s : Store} {h : Handle} {v w : Value} {entries : Entries}
    (hv : ∀ entries, s.content? h = some (.dict entries) → ∃ kept, v = .dict kept)
    (hw : s.content w = .dict entries) : ∃ kept, (s.write h v).content w = .dict kept := by
  cases w with
  | handle g =>
    rw [content_handle_eq_dict] at hw
    rcases content?_write s h g v with heq | ⟨hsame, heq⟩
    · exact ⟨entries, content_handle_eq_dict.mpr (heq.trans hw)⟩
    · obtain ⟨kept, rfl⟩ := hv entries (hsame.trans hw)
      exact ⟨kept, content_handle_eq_dict.mpr heq⟩
  | _ => exact ⟨entries, hw⟩

end Store

namespace World

/-- What is attached to a processor. -/
def registryOf? (w : World) (id : Nat) : Option (Registry Transformer) :=
  (w.processors[id]?).map (·.registry)

/-- The data of a processor as they are read. -/
def data? (w : World) (id : Nat) : Option Value :=
  (w.processors[id]?).map fun p => w.reveal p.data

/-- A mapping that refers to nothing is read as it is kept. -/
theorem reveal_content {w : World} {v : Value} {entries : Entries}
    (hv : w.store.content v = .dict entries)
    (hwhole : ∀ shown, (Value.dict entries).revealWith shown = .dict entries) :
    w.reveal v = .dict entries := by
  have hwithin (n : Nat) : w.store.revealWithin n (.dict entries) = .dict entries := by
    cases n with
    | zero => rfl
    | succ n => rw [Store.revealWithin, hwhole]
  cases v with
  | handle h =>
    rw [reveal, Store.reveal, Store.revealWithin, Value.revealWith,
      Store.content_handle_eq_dict.mp hv]
    exact hwithin _
  | mapping kind held =>
    obtain ⟨rfl, rfl⟩ := Value.mapping.inj hv
    exact hwithin _
  | _ => cases hv

/-- The data of a processor are held as a mapping, which others may share. -/
def Mapped (w : World) (id : Nat) : Prop :=
  ∃ p entries, w.processors[id]? = some p ∧ w.store.content p.data = .dict entries

/-- All processors are still there, what is attached to them is in a relation to what was, and no
mapping of data was lost. -/
structure Stays (ρ : Registry Transformer → Registry Transformer → Prop) (w v : World) : Prop where
  registry : ∀ id r, w.registryOf? id = some r → ∃ s, v.registryOf? id = some s ∧ ρ r s
  mapped : ∀ id, w.Mapped id → v.Mapped id
  fresh : ∀ id p, w.processors[id]? = none → v.processors[id]? = some p → v.Mapped id
  names : ∀ (id : Nat) (p : Processor), w.processors[id]? = some p →
    ∃ q : Processor, v.processors[id]? = some q ∧ q.name = p.name

namespace Stays

variable {ρ σ : Registry Transformer → Registry Transformer → Prop} {u v w : World}

theorem trans (hρ : ∀ r s t, ρ r s → ρ s t → ρ r t) (h : u.Stays ρ v) (h' : v.Stays ρ w) :
    u.Stays ρ w where
  registry id r hr := by
    obtain ⟨s, hs, hrs⟩ := h.registry id r hr
    obtain ⟨t, ht, hst⟩ := h'.registry id s hs
    exact ⟨t, ht, hρ r s t hrs hst⟩
  mapped id hid := h'.mapped id (h.mapped id hid)
  fresh id p hu hw := by
    cases hv : v.processors[id]? with
    | none => exact h'.fresh id p hv hw
    | some q => exact h'.mapped id (h.fresh id q hu hv)
  names id p hp := by
    obtain ⟨q, hq, hname⟩ := h.names id p hp
    obtain ⟨o, ho, hsame⟩ := h'.names id q hq
    exact ⟨o, ho, hsame.trans hname⟩

theorem mono (hρσ : ∀ r s, ρ r s → σ r s) (h : w.Stays ρ v) : w.Stays σ v where
  registry id r hr := by
    obtain ⟨s, hs, hrs⟩ := h.registry id r hr
    exact ⟨s, hs, hρσ r s hrs⟩
  mapped := h.mapped
  fresh := h.fresh
  names := h.names

section Reflexive

variable (hρ : ∀ r, ρ r r)
include hρ

/-- Nothing about processors and their data has changed. -/
theorem of_eq (hstore : v.store = w.store) (hprocessors : v.processors = w.processors) :
    w.Stays ρ v where
  registry id r hr := ⟨r, by rw [registryOf?, hprocessors]; exact hr, hρ r⟩
  mapped id hid := by rw [Mapped, hstore, hprocessors]; exact hid
  fresh id p hw hv := by rw [hprocessors, hw] at hv; cases hv
  names id p hp := ⟨p, by rw [hprocessors]; exact hp, rfl⟩

/-- What is kept of an object has changed, but no mapping was lost. -/
theorem write {h : Handle} {c : Value}
    (hc : ∀ entries, w.store.content? h = some (.dict entries) → ∃ kept, c = .dict kept) :
    w.Stays ρ { w with store := w.store.write h c } where
  registry _ r hr := ⟨r, hr, hρ r⟩
  mapped := by
    rintro id ⟨p, entries, hp, hentries⟩
    obtain ⟨kept, hkept⟩ := Store.content_write hc hentries
    exact ⟨p, kept, hp, hkept⟩
  fresh id p hw hv := by rw [hw] at hv; cases hv
  names _ p hp := ⟨p, hp, rfl⟩

/-- A processor was replaced by one of the same name whose data are a mapping if they were one. -/
theorem set {id : Nat} {p q : Processor} (hp : w.processors[id]? = some p)
    (hregistry : ρ p.registry q.registry) (hname : q.name = p.name)
    (hdata : ∀ entries, w.store.content p.data = .dict entries →
      ∃ kept, w.store.content q.data = .dict kept) :
    w.Stays ρ { w with processors := w.processors.set id q } := by
  have hsame : (w.processors.set id q)[id]? = some q :=
    List.getElem?_set_self (List.getElem?_eq_some_iff.mp hp).1
  have hother {other : Nat} (h : id ≠ other) : (w.processors.set id q)[other]? = w.processors[other]? :=
    List.getElem?_set_ne h
  constructor
  · intro other r hr
    by_cases h : id = other
    · subst h
      obtain rfl : p.registry = r := by simpa [registryOf?, hp] using hr
      exact ⟨q.registry, by simp [registryOf?, hsame], hregistry⟩
    · exact ⟨r, by rw [registryOf?, hother h]; exact hr, hρ r⟩
  · rintro other ⟨o, entries, ho, hentries⟩
    by_cases h : id = other
    · subst h
      obtain rfl := Option.some.inj (hp.symm.trans ho)
      obtain ⟨kept, hkept⟩ := hdata entries hentries
      exact ⟨q, kept, hsame, hkept⟩
    · exact ⟨o, entries, (hother h).trans ho, hentries⟩
  · intro other o hw hv
    have h : id ≠ other := by
      rintro rfl
      rw [hp] at hw
      cases hw
    rw [hother h, hw] at hv
    cases hv
  · intro other o ho
    by_cases h : id = other
    · subst h
      obtain rfl := Option.some.inj (hp.symm.trans ho)
      exact ⟨q, hsame, hname⟩
    · exact ⟨o, (hother h).trans ho, rfl⟩

/-- One more processor, whose data are a mapping. -/
theorem append {p : Processor} {entries : Entries} (hdata : w.store.content p.data = .dict entries) :
    w.Stays ρ { w with processors := w.processors ++ [p] } := by
  have hold {id : Nat} {q : Processor} (hq : w.processors[id]? = some q) :
      (w.processors ++ [p])[id]? = some q := by
    rw [List.getElem?_append_left (List.getElem?_eq_some_iff.mp hq).1]
    exact hq
  constructor
  · intro id r hr
    obtain ⟨q, hq, rfl⟩ := Option.map_eq_some_iff.mp hr
    exact ⟨q.registry, Option.map_eq_some_iff.mpr ⟨q, hold hq, rfl⟩, hρ _⟩
  · rintro id ⟨q, kept, hq, hkept⟩
    exact ⟨q, kept, hold hq, hkept⟩
  · intro id q hw hv
    dsimp only at hv
    obtain rfl : q = p := by
      rw [List.getElem?_append_right (List.getElem?_eq_none_iff.mp hw)] at hv
      exact List.mem_singleton.mp (List.mem_of_getElem? hv)
    exact ⟨q, entries, hv, hdata⟩
  · exact fun id q hq => ⟨q, hold hq, rfl⟩

end Reflexive

end Stays

/-- The data of every processor are held as a mapping. -/
def AllMapped (w : World) : Prop := ∀ id p, w.processors[id]? = some p → w.Mapped id

theorem Stays.allMapped {ρ : Registry Transformer → Registry Transformer → Prop} {w v : World}
    (h : w.Stays ρ v) (hw : w.AllMapped) : v.AllMapped := fun id p hp => by
  cases hid : w.processors[id]? with
  | none => exact h.fresh id p hid hp
  | some q => exact h.mapped id (hw id q hid)

/-- All nodes that are kept are as they were, as long as all data of processors are mappings. -/
def SparesNodes (w v : World) : Prop :=
  w.AllMapped → ∀ (i : Nat) n, w.store.cells[i]? = some (.node n) → v.store.cells[i]? = some (.node n)

theorem SparesNodes.trans {ρ : Registry Transformer → Registry Transformer → Prop} {u v w : World}
    (h : u.SparesNodes v) (hs : u.Stays ρ v) (h' : v.SparesNodes w) : u.SparesNodes w :=
  fun hu i n hn => h' (hs.allMapped hu) i n (h hu i n hn)

/-- What is written in the place of something else than a node leaves the nodes alone. -/
theorem SparesNodes.write {w : World} {h : Handle} (c : Value)
    (hc : w.AllMapped → ∀ n, w.store.content? h ≠ some (.node n)) :
    w.SparesNodes { w with store := w.store.write h c } := fun hw i n hn => by
  show (w.store.write h c).cells[i]? = _
  unfold Store.write
  cases hnumber : Store.number? h with
  | none => exact hn
  | some j =>
    have hji : j ≠ i := by
      rintro rfl
      exact hc hw n (by rw [Store.content?, hnumber]; exact hn)
    exact (List.getElem?_set_ne hji).trans hn

/-- Nothing was attached to any processor that was there, and the catalog is the same. -/
structure Spares (w v : World) : Prop where
  stays : w.Stays Eq v
  catalog : v.catalog = w.catalog
  nodes : w.SparesNodes v

theorem Spares.refl (w : World) : w.Spares w :=
  ⟨.of_eq (fun _ => rfl) rfl rfl, rfl, fun _ _ _ h => h⟩

theorem Spares.trans {u v w : World} (h : u.Spares v) (h' : v.Spares w) : u.Spares w :=
  ⟨h.stays.trans (fun _ _ _ => Eq.trans) h'.stays, h'.catalog.trans h.catalog,
    h.nodes.trans h.stays h'.nodes⟩

theorem Spares.registry {w v : World} (h : w.Spares v) {id : Nat} {r : Registry Transformer}
    (hr : w.registryOf? id = some r) : v.registryOf? id = some r := by
  obtain ⟨s, hs, rfl⟩ := h.stays.registry id r hr
  exact hs

/-- What was attached to a processor stays attached, in the same order. -/
abbrev Grows : World → World → Prop := Stays Registry.Before

theorem Spares.grows {w v : World} (h : w.Spares v) : w.Grows v :=
  h.stays.mono fun r _ heq => by
    subst heq
    exact .refl r

theorem Grows.trans {u v w : World} (h : u.Grows v) (h' : v.Grows w) : u.Grows w :=
  Stays.trans (fun _ _ _ => .trans) h h'

/-- A relation between an earlier world and a later one. -/
class Temporal (R : World → World → Prop) : Prop where
  refl (w : World) : R w w
  trans {u v w : World} : R u v → R v w → R u w

/-- A relation in time that allows at least what spares the processors. -/
class Lenient (R : World → World → Prop) : Prop extends Temporal R where
  of_spares {u v : World} : u.Spares v → R u v

instance : Lenient Spares where
  refl := .refl
  trans := .trans
  of_spares := id

instance : Lenient Grows where
  refl _ := .of_eq .refl rfl rfl
  trans := .trans
  of_spares := Spares.grows

end World

namespace Action

variable {α β : Type} {R : World → World → Prop} {w : World}

/-- An action that changes nothing. -/
def Reads (x : Action α) : Prop := ∀ w, (x.result w).2 = w

/-- An action that leads from every world to one in a relation with it. -/
def Respects (R : World → World → Prop) (x : Action α) : Prop := ∀ w, R w (x.result w).2

namespace Reads

theorem pure (a : α) : Reads (pure a) := fun _ => rfl

theorem throw (f : Fault) : Reads (throw f : Action α) := fun _ => rfl

theorem bind {x : Action α} {f : α → Action β} (hx : Reads x) (hf : ∀ a, Reads (f a)) :
    Reads (x >>= f) := fun w => by
  have hw := hx w
  rw [result_bind]
  generalize x.result w = done at hw ⊢
  obtain ⟨o, v⟩ := done
  obtain rfl : v = w := hw
  cases o with
  | error f => rfl
  | ok a => exact hf a v

theorem get {f : World → Action α} (hf : ∀ w, Reads (f w)) : Reads (get >>= f) :=
  fun w => hf w w

theorem ofOutcome (o : Outcome α) : Reads (ofOutcome o) := fun w => by rw [result_ofOutcome]

theorem reveal (v : Value) : Reads (reveal v) := fun _ => rfl

theorem content (v : Value) : Reads (content v) := fun _ => rfl

theorem argument (a : Argument) : Reads (argument a) := get fun _ => ofOutcome _

theorem processor (id : Nat) : Reads (processor id) :=
  get fun w => by
    split
    · exact pure _
    · exact throw _

theorem named (name : String) : Reads (named name) :=
  get fun w => by
    split
    · exact pure _
    · exact throw _

theorem textOf (v : Value) : Reads (textOf v) := get fun _ => ofOutcome _

theorem cannotAttach (name : String) (f : Fault) : Reads (cannotAttach name f) := by
  refine bind ?_ fun _ => pure _
  unfold Pipeline.reasonOf
  split
  · exact throw _
  · exact textOf _
  · exact textOf _

theorem namedProcessor (name : String) : Reads (namedProcessor name) :=
  bind (named name) fun v => by split <;> exact pure _

theorem resultProcessor (p : Option (Sum String Argument)) : Reads (resultProcessor p) := by
  unfold Pipeline.resultProcessor
  split
  · exact pure _
  · exact bind (namedProcessor _) fun _ => by split <;> exact pure _
  · exact bind (argument _) fun _ => by split <;> exact pure _

theorem resultTransformer (t : Option (Sum Transformer Argument)) : Reads (resultTransformer t) := by
  unfold Pipeline.resultTransformer
  split
  · exact pure _
  · exact pure _
  · exact bind (argument _) fun _ => by split <;> exact pure _

/-- What is done after reading starts from the same world. -/
theorem result_bind {x : Action α} (hx : Reads x) (f : α → Action β) (w : World) :
    (∃ e, x.result w = (.error e, w) ∧ (x >>= f).result w = (.error e, w)) ∨
      ∃ a, x.result w = (.ok a, w) ∧ (x >>= f).result w = (f a).result w := by
  have hw := hx w
  rw [Action.result_bind]
  generalize x.result w = done at hw ⊢
  obtain ⟨o, v⟩ := done
  obtain rfl : v = w := hw
  cases o with
  | error e => exact .inl ⟨e, rfl, rfl⟩
  | ok a => exact .inr ⟨a, rfl, rfl⟩

/-- What is done after reading keeps to what it keeps to in the same world. -/
theorem then_at [World.Temporal R] {x : Action α} (hx : Reads x) {f : α → Action β}
    (hf : ∀ a, x.result w = (.ok a, w) → R w ((f a).result w).2) : R w ((x >>= f).result w).2 := by
  rcases hx.result_bind f w with ⟨e, -, h⟩ | ⟨a, ha, h⟩
  · rw [h]
    exact World.Temporal.refl w
  · rw [h]
    exact hf a ha

end Reads

theorem of_result_processor {id : Nat} {p : Processor} {v : World}
    (h : (processor id).result w = (.ok p, v)) : w.processors[id]? = some p ∧ v = w := by
  rw [processor, result_get_bind] at h
  split at h
  · obtain ⟨ho, rfl⟩ := Prod.mk.inj h
    exact ⟨(Except.ok.inj ho) ▸ ‹_›, rfl⟩
  · cases (Prod.mk.inj h).1

theorem of_result_ofOutcome {o : Outcome α} {a : α} {v : World}
    (h : (ofOutcome o).result w = (.ok a, v)) : o = .ok a :=
  congrArg Prod.fst ((result_ofOutcome o w).symm.trans h)

theorem result_setData {id : Nat} {p : Processor} (hp : w.processors[id]? = some p) (data : Value) :
    (setData id data).result w = (.ok (), match p.data with
      | .handle h => { w with store := w.store.write h data }
      | _ => { w with processors := w.processors.set id { p with data := data } }) := by
  rw [setData, result_bind_ok (result_processor hp)]
  cases hheld : p.data with
  | handle h =>
    have hsame : w.processors.set id { p with data := .handle h } = w.processors := by
      obtain ⟨hlt, hget⟩ := List.getElem?_eq_some_iff.mp hp
      rw [← hheld, ← hget]
      exact List.set_getElem_self hlt
    show (Except.ok (), { w with
      store := w.store.write h data, processors := w.processors.set id { p with data := .handle h } }) = _
    rw [hsame]
  | _ => rfl

/-- Data of a processor change without a mapping being lost. -/
theorem spares_setData {id : Nat} {p : Processor} {data : Value} (hp : w.processors[id]? = some p)
    (hdata : ∀ entries, w.store.content p.data = .dict entries → ∃ kept, data = .dict kept) :
    w.Spares ((setData id data).result w).2 := by
  rw [result_setData hp]
  dsimp only
  split
  · rename_i h hheld
    refine ⟨.write (fun _ => rfl) fun entries hentries => hdata entries ?_, rfl,
      .write data fun hw n hn => ?_⟩
    · rw [hheld]
      exact Store.content_handle_eq_dict.mpr hentries
    · obtain ⟨q, entries, hq, hentries⟩ := hw id p hp
      obtain rfl := Option.some.inj (hp.symm.trans hq)
      rw [hheld, Store.content_handle_eq_dict, hn] at hentries
      cases hentries
  · refine ⟨.set (fun _ => rfl) hp rfl rfl fun entries hentries => ?_, rfl, fun _ _ _ h => h⟩
    obtain ⟨kept, rfl⟩ := hdata entries hentries
    exact ⟨kept, rfl⟩

/-- Data that are held as a mapping can be put back. -/
theorem restoreData_ok {id : Nat} {entries : Entries} (hid : w.Mapped id)
    (hwhole : ∀ shown, (Value.dict entries).revealWith shown = .dict entries) :
    ∃ v, (restoreData id entries).result w = (.ok (), v) ∧ v.data? id = some (.dict entries) := by
  obtain ⟨p, held, hp, hheld⟩ := hid
  have hcontent : (content p.data).result w = (.ok (.dict held), w) := by
    rw [← hheld]
    rfl
  have hrestore : (restoreData id entries).result w = (setData id (.dict entries)).result w := by
    rw [restoreData, result_bind_ok (result_processor hp), result_bind_ok hcontent]
  rw [hrestore, result_setData hp]
  refine ⟨_, rfl, ?_⟩
  cases hdata : p.data with
  | handle h =>
    rw [hdata, Store.content_handle_eq_dict] at hheld
    have hkept := Store.content_handle_eq_dict.mpr (Store.content?_write_self hheld (.dict entries))
    dsimp only
    rw [World.data?, hp, Option.map_some, hdata]
    exact congrArg some (World.reveal_content hkept hwhole)
  | mapping kind held =>
    have hset : (w.processors.set id { p with data := .dict entries })[id]? =
        some { p with data := .dict entries } :=
      List.getElem?_set_self (List.getElem?_eq_some_iff.mp hp).1
    dsimp only
    rw [World.data?, hset, Option.map_some]
    exact congrArg some (World.reveal_content rfl hwhole)
  | _ =>
    rw [hdata] at hheld
    cases hheld

namespace Respects

theorem get {f : World → Action α} (hf : ∀ w, Respects R (f w)) : Respects R (get >>= f) :=
  fun w => hf w w

theorem attempt {x : Action α} (hx : Respects R x) : Respects R (attempt x) := hx

theorem mono {S : World → World → Prop} (hRS : ∀ w v, R w v → S w v) {x : Action α}
    (hx : Respects R x) : Respects S x := fun w => hRS w _ (hx w)

theorem ite {c : Prop} [Decidable c] {x y : Action α} (hx : Respects R x) (hy : Respects R y) :
    Respects R (if c then x else y) := by
  split
  · exact hx
  · exact hy

theorem then_fails {x : Action α} (hx : Respects R x) {k : α → Action β}
    (hk : ∀ a v, ∃ f, (k a).result v = (.error f, v)) (w : World) :
    ∃ f v, (x >>= k).result w = (.error f, v) ∧ R w v := by
  have hw := hx w
  rw [result_bind]
  generalize x.result w = done at hw ⊢
  obtain ⟨o, v⟩ := done
  cases o with
  | error f => exact ⟨f, v, rfl, hw⟩
  | ok a =>
    obtain ⟨f, hf⟩ := hk a v
    exact ⟨f, v, hf, hw⟩

section Temporal

variable [World.Temporal R]

theorem of_reads {x : Action α} (hx : Reads x) : Respects R x := fun w => by
  rw [hx w]
  exact World.Temporal.refl w

theorem bind {x : Action α} {f : α → Action β} (hx : Respects R x) (hf : ∀ a, Respects R (f a)) :
    Respects R (x >>= f) := fun w => by
  have hw := hx w
  rw [result_bind]
  generalize x.result w = done at hw ⊢
  obtain ⟨o, v⟩ := done
  cases o with
  | error e => exact hw
  | ok a => exact World.Temporal.trans hw (hf a v)

theorem forM {γ : Type} {f : γ → Action PUnit} (hf : ∀ c, Respects R (f c)) (l : List γ) :
    Respects R (l.forM f) := by
  induction l with
  | nil => exact of_reads (.pure _)
  | cons c l ih => exact bind (hf c) fun _ => ih

theorem foldlM {γ σ : Type} {f : σ → γ → Action σ} (hf : ∀ s c, Respects R (f s c)) (l : List γ)
    (s : σ) : Respects R (l.foldlM f s) := by
  induction l generalizing s with
  | nil => exact of_reads (.pure _)
  | cons c l ih => exact bind (hf s c) fun s => ih s

end Temporal

variable [World.Lenient R]

theorem tell (e : Event) : Respects R (tell e) := fun _ =>
  World.Lenient.of_spares ⟨.of_eq (fun _ => rfl) rfl rfl, rfl, fun _ _ _ h => h⟩

theorem log (level : Level) (logger text : String) : Respects R (log level logger text) :=
  tell _

/-- A change of data leaves a mapping of data a mapping. -/
theorem alter (id : Nat) (a : Alteration) : Respects R (alter id a) := fun w => by
  cases a with
  | change e =>
    refine Reads.then_at (x := MonadState.get) (fun _ => rfl) fun s _ => ?_
    refine (Reads.processor id).then_at fun p hp => ?_
    refine (Reads.content _).then_at fun held hheld => ?_
    refine (Reads.ofOutcome _).then_at fun data hdata => World.Lenient.of_spares ?_
    refine spares_setData (of_result_processor hp).1 fun entries hentries => ?_
    obtain rfl : w.store.content p.data = held := Except.ok.inj (Prod.mk.inj hheld).1
    exact e.mapping _ entries data (hentries ▸ of_result_ofOutcome hdata)
  | push key item =>
    refine (Reads.processor id).then_at fun p hp => ?_
    refine (Reads.content _).then_at fun data hdata => ?_
    refine (Reads.argument key).then_at fun key _ => ?_
    refine (Reads.ofOutcome _).then_at fun held _ => ?_
    refine (Reads.content _).then_at fun c hc => ?_
    refine (Reads.argument item).then_at fun item _ => ?_
    refine (Reads.ofOutcome _).then_at fun extended hextended => World.Lenient.of_spares ?_
    obtain rfl : w.store.content p.data = data := Except.ok.inj (Prod.mk.inj hdata).1
    obtain rfl : w.store.content held = c := Except.ok.inj (Prod.mk.inj hc).1
    split
    · refine ⟨.write (fun _ => rfl) fun entries hentries => ?_, rfl, .write extended fun _ n hn => ?_⟩
      · rw [Store.content_handle_eq_dict.mpr hentries] at hextended
        cases of_result_ofOutcome hextended
      · rw [Store.content, hn] at hextended
        cases of_result_ofOutcome hextended
    · refine spares_setData (of_result_processor hp).1 fun entries hentries => ?_
      rw [hentries]
      exact ⟨_, rfl⟩

end Respects

/-- The copy of a mapping is a mapping. -/
theorem duplicate_dict (entries : Entries) :
    (Value.dict entries).duplicate = (Value.duplicateEntries entries).map .dict := by
  rw [Value.duplicate]
  cases Value.duplicateEntries entries <;> rfl

theorem make_processor (name parser compiler data : Value) :
    let given := [("name", name), ("parser", parser), ("compiler", compiler), ("data", data)]
    Settings.make .processor given =
      (Settings.check .processor given).map fun _ => .settings .processor given := by
  intro given
  show (Settings.check .processor given >>= fun _ => pure (Value.settings .processor given)) = _
  cases Settings.check .processor given <;> rfl

/-- Either nothing has happened, or there is one more processor. -/
theorem newProcessor_cases (name parser compiler data : Value) (w : World) :
    (∃ f, (newProcessor name parser compiler data).result w = (.error f, w)) ∨
      ∃ p entries, (newProcessor name parser compiler data).result w =
          (.ok w.processors.length, { w with processors := w.processors ++ [p] }) ∧
        p.registry = Registry.empty ∧ p.data = .dict entries := by
  have hgiven : Reads (givenEntries data) :=
    .bind (.reveal _) fun _ => by
      split
      · exact .ofOutcome _
      · exact .pure _
  rw [newProcessor]
  rcases hgiven.result_bind _ w with ⟨f, -, h⟩ | ⟨entries, -, h⟩
  · exact .inl ⟨f, h⟩
  rw [h, make_processor]
  cases Settings.check .processor _ with
  | error f => exact .inl ⟨f, rfl⟩
  | ok _ =>
    cases Settings.checkName name with
    | error f => exact .inl ⟨f, rfl⟩
    | ok checked =>
      rcases (Reads.ofOutcome (Value.dict entries).duplicate).result_bind (fun data =>
        addProcessor ⟨checked.1, checked.2, parser, compiler, data, Registry.empty⟩) w with
        ⟨f, -, h⟩ | ⟨data, hdata, h⟩
      · exact .inl ⟨f, h⟩
      · have hcopied := of_result_ofOutcome hdata
        rw [duplicate_dict] at hcopied
        cases hentries : Value.duplicateEntries entries with
        | error f =>
          rw [hentries] at hcopied
          cases hcopied
        | ok copied =>
          rw [hentries] at hcopied
          exact .inr ⟨_, copied, h, rfl, (Except.ok.inj hcopied).symm⟩

/-- Either nothing has happened, or there is one more processor, with the same plugins. -/
theorem cloneProcessor_cases (id : Nat) (w : World) :
    (∃ f, (cloneProcessor id).result w = (.error f, w)) ∨
      ∃ p q entries, w.processors[id]? = some p ∧
        (cloneProcessor id).result w =
          (.ok w.processors.length, { w with processors := w.processors ++ [q] }) ∧
        q.registry = p.registry ∧ q.data = .dict entries := by
  rw [cloneProcessor]
  rcases (Reads.processor id).result_bind _ w with ⟨f, -, h⟩ | ⟨p, hp, h⟩
  · exact .inl ⟨f, h⟩
  rw [h]
  rcases (Reads.reveal p.data).result_bind _ w with ⟨f, -, h⟩ | ⟨data, -, h⟩
  · exact .inl ⟨f, h⟩
  rw [h]
  rcases (Reads.ofOutcome data.toEntries).result_bind _ w with ⟨f, -, h⟩ | ⟨entries, -, h⟩
  · exact .inl ⟨f, h⟩
  rw [h]
  rcases (Reads.ofOutcome (Value.dict entries).duplicate).result_bind _ w with ⟨f, -, h⟩ | ⟨data, -, h⟩
  · exact .inl ⟨f, h⟩
  rw [h]
  rcases newProcessor_cases (.str p.name) p.parser p.compiler data w with
    ⟨f, hnew⟩ | ⟨q, kept, hnew, -, hdata⟩
  · exact .inl ⟨f, result_bind_error hnew⟩
  have hq : (w.processors ++ [q])[w.processors.length]? = some q := List.getElem?_concat_length
  have hset (r : Processor) :
      (w.processors ++ [q]).set w.processors.length r = w.processors ++ [r] := by
    rw [List.set_append_right _ _ (Nat.le_refl _), Nat.sub_self]
    rfl
  rw [result_bind_ok hnew, result_bind_ok (result_processor hq)]
  refine .inr ⟨p, { q with registry := p.registry }, kept, (of_result_processor hp).1, ?_, rfl, hdata⟩
  show (Except.ok w.processors.length, { w with
    processors := (w.processors ++ [q]).set w.processors.length { q with registry := p.registry } }) = _
  rw [hset]

namespace Respects

variable [World.Lenient R]

theorem newProcessor (name parser compiler data : Value) :
    Respects R (newProcessor name parser compiler data) := fun w => by
  rcases newProcessor_cases name parser compiler data w with ⟨f, h⟩ | ⟨p, entries, h, -, hdata⟩
  · rw [h]
    exact World.Temporal.refl w
  · rw [h]
    exact World.Lenient.of_spares ⟨.append (fun _ => rfl) (by rw [hdata]; rfl), rfl,
      fun _ _ _ h => h⟩

theorem cloneProcessor (id : Nat) : Respects R (cloneProcessor id) := fun w => by
  rcases cloneProcessor_cases id w with ⟨f, h⟩ | ⟨p, q, entries, -, h, -, hdata⟩
  · rw [h]
    exact World.Temporal.refl w
  · rw [h]
    exact World.Lenient.of_spares ⟨.append (fun _ => rfl) (by rw [hdata]; rfl), rfl,
      fun _ _ _ h => h⟩

theorem make (id : Nat) (g : Gift) : Respects R (g.make id) := by
  cases g with
  | value v => exact of_reads (.bind (.argument v) fun _ => by split <;> exact .pure _)
  | transformer t => exact of_reads (.pure _)
  | processor name =>
    exact of_reads (.bind (.namedProcessor name) fun _ => by split <;> exact .pure _)
  | copy changes t =>
    refine bind (cloneProcessor id) fun copy => bind (forM (alter copy) changes) fun _ => ?_
    split <;> exact of_reads (.pure _)
  | result p t =>
    exact of_reads (.bind (.resultProcessor p) fun _ => .bind (.resultTransformer t) fun _ => .pure _)

/-- The steps of an attacher keep to what the plugins keep to that they attach themselves. -/
theorem prepare {host : Host} (id : Nat) (options : Value) (ps : List Preparation)
    (huse : ∀ plugin, .use plugin ∈ ps → ∀ on plugin options, Respects R (host.use on plugin options)) :
    Respects R (prepare host id options ps) := by
  induction ps with
  | nil => exact of_reads (.pure _)
  | cons p rest ih =>
    have hrest := ih fun plugin hmem => huse plugin (List.mem_cons_of_mem _ hmem)
    cases p with
    | announce label =>
      exact bind (of_reads (.reveal _)) fun _ => get fun _ => bind (tell _) fun _ => hrest
    | log record => exact bind (tell _) fun _ => hrest
    | alter a => exact bind (alter id a) fun _ => hrest
    | use plugin =>
      have hnested := huse plugin List.mem_cons_self
      exact get fun _ => bind (of_reads (.ofOutcome _)) fun _ => bind (hnested _ _ _) fun _ => hrest
    | raise f => exact of_reads (.throw f)
    | give g => exact make id g

/-- Putting data back puts a mapping in the place of one. -/
theorem restoreData (id : Nat) (entries : Entries) : Respects R (restoreData id entries) := fun w => by
  refine (Reads.processor id).then_at fun p hp => ?_
  refine (Reads.content _).then_at fun held hheld => ?_
  have hp := (of_result_processor hp).1
  obtain rfl : w.store.content p.data = held := Except.ok.inj (Prod.mk.inj hheld).1
  split
  · exact World.Lenient.of_spares (spares_setData hp fun _ _ => ⟨_, rfl⟩)
  · rename_i items hset
    exact World.Lenient.of_spares (spares_setData hp fun _ hdict => nomatch hset.symm.trans hdict)
  · rename_i items hlist
    have hspares : w.Spares ((setData id (.list [])).result w).2 :=
      spares_setData hp fun _ hdict => nomatch hlist.symm.trans hdict
    rw [result_setData hp] at hspares
    rw [result_bind_ok (result_setData hp _)]
    exact World.Lenient.of_spares hspares
  · exact of_reads (.throw _) w

end Respects

end Action

end TextPipeline.Pipeline
