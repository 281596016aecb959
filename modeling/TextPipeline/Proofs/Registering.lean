import TextPipeline.Proofs.Batching
import TextPipeline.Proofs.Cataloguing
import TextPipeline.Standard.Plugins

/-! What is attached to the processors of a pool over all that is done with them. Each operation
extends the record of plugins of a processor by what it attaches to this processor, so a sequence of
operations extends it by its part of what they attach together. -/

namespace TextPipeline.Pipeline

open TextPipeline.Plugin
open TextPipeline.Pipeline.Action

/-! ### Attachers that attach nothing themselves -/

/-- A plugin that brings no attacher that attaches others itself. -/
def Item.Plain : Item → Prop
  | .attacher a => a.Plain
  | _ => True

/-- No plugin that can be found by its name attaches others itself. -/
structure Host.Plain (host : Host) : Prop where
  standard : ∀ m ∈ host.standard, m.attacher.Plain
  published : Catalog.AllPublished (fun m => m.attacher.Plain) host.surroundings

/-- No plugin of the catalog attaches others itself. -/
def World.PlainCatalog (w : World) : Prop := w.catalog.All fun m => m.attacher.Plain

theorem Attacher.plain_ofValue? {v : Value} {a : Attacher} (h : Attacher.ofValue? v = some a) :
    a.Plain := by
  intro options data plugin hmem
  unfold Attacher.ofValue? at h
  split at h
  · obtain rfl := Option.some.inj h
    simp [Attacher.program] at hmem
  · obtain ⟨name, -, rfl⟩ := Option.map_eq_some_iff.mp h
    simp [Attacher.program, Attacher.idle] at hmem

/-- An attacher that only builds a transformer attaches no others. -/
theorem Attacher.plain_steps (name : String) (build : Value → Logged Transformer) :
    (Attacher.mk name fun options _ => Attacher.steps (build options)).Plain := by
  intro options data plugin hmem
  rcases List.mem_append.mp hmem with hlog | hlast
  · obtain ⟨record, -, hrecord⟩ := List.mem_map.mp hlog
    cases hrecord
  · split at hlast
    · cases List.mem_singleton.mp hlast
    · cases List.mem_singleton.mp hlast

/-- No standard plugin attaches others itself. -/
theorem plain_of_mem_plugins {read : FrontMatter.Reader} {m : Metadata Attacher}
    (hm : m ∈ Standard.pluginsWith read) : m.attacher.Plain := by
  simp only [Standard.pluginsWith, List.mem_cons, List.not_mem_nil, or_false] at hm
  rcases hm with rfl | rfl | rfl | rfl
  · exact Attacher.plain_steps _ (Standard.frontMatterFor read)
  · exact Attacher.plain_steps _ Standard.removeNodesFor
  · exact Attacher.plain_steps _ Standard.replaceTextFor
  · exact Attacher.plain_steps _ Standard.countWordsFor

/-- With the standard plugins, only a published one could attach others itself. -/
theorem Host.plain_nested (endpoints : Grammar.Endpoints) {read : FrontMatter.Reader}
    {surroundings : Surroundings Attacher}
    (hpublished : Catalog.AllPublished (fun m => m.attacher.Plain) surroundings) (depth : Nat) :
    (Host.nested endpoints (Standard.pluginsWith read) surroundings depth).Plain := by
  cases depth with
  | zero => exact ⟨fun _ => plain_of_mem_plugins, hpublished⟩
  | succ depth => exact ⟨fun _ => plain_of_mem_plugins, hpublished⟩

/-- An action that keeps the catalog free of plugins that attach others, and whose result has a
property. -/
def Gives {α : Type} (Q : α → Prop) (x : Action α) : Prop :=
  ∀ w : World, w.PlainCatalog → (x.result w).2.PlainCatalog ∧ ∀ a, (x.result w).1 = .ok a → Q a

namespace Gives

variable {α β : Type} {Q : α → Prop} {S : β → Prop}

theorem pure {a : α} (ha : Q a) : Gives Q (pure a) := fun _ hw =>
  ⟨hw, fun b h => by
    obtain rfl : a = b := Except.ok.inj h
    exact ha⟩

theorem throw (f : Fault) : Gives Q (throw f : Action α) := fun _ hw => ⟨hw, fun a h => by cases h⟩

theorem bind {x : Action α} {f : α → Action β} (hx : Gives Q x) (hf : ∀ a, Q a → Gives S (f a)) :
    Gives S (x >>= f) := fun w hw => by
  obtain ⟨hcatalog, ha⟩ := hx w hw
  rw [result_bind]
  generalize x.result w = done at hcatalog ha
  obtain ⟨o, v⟩ := done
  cases o with
  | error f => exact ⟨hcatalog, fun b h => by cases h⟩
  | ok a => exact hf a (ha a rfl) v hcatalog

theorem get {f : World → Action β} (hf : ∀ w, Gives S (f w)) : Gives S (get >>= f) :=
  fun w hw => hf w w hw

theorem attempt {x : Action α} (hx : Gives Q x) :
    Gives (fun o : Outcome α => ∀ a, o = .ok a → Q a) (attempt x) := fun w hw =>
  ⟨(hx w hw).1, fun o h => by
    obtain rfl : (x.result w).1 = o := Except.ok.inj h
    exact (hx w hw).2⟩

theorem of_catalog_eq {x : Action α} (hx : ∀ w, (x.result w).2.catalog = w.catalog) :
    Gives (fun _ => True) x := fun w hw =>
  ⟨by rw [World.PlainCatalog, hx]; exact hw, fun _ _ => trivial⟩

end Gives

/-- A plugin that is looked up attaches no others itself. -/
theorem gives_lookup {host : Host} (hhost : host.Plain) (name : String) :
    Gives (fun m => m.attacher.Plain)
      (withCatalog (Catalog.lookup host.standard host.surroundings name)) := fun w hw => by
  rw [result_withCatalog]
  exact Catalog.Keeps.lookup hhost.standard hhost.published name w.catalog [] hw

/-- The attacher of a plugin attaches no others itself. -/
theorem gives_attacherOf {host : Host} (hhost : host.Plain) (options : Value) {item : Item}
    (hitem : item.Plain) : Gives (fun found => found.1.Plain) (attacherOf host options item) := by
  cases item with
  | named name =>
    have hfound : Gives (fun found : Metadata Attacher × Entries => found.1.attacher.Plain) (do
        let m ← withCatalog (Catalog.lookup host.standard host.surroundings name)
        let resolved ← ofLogged (m.resolveOptions ((← MonadState.get).display options))
        return (m, keepGiven (← content options) resolved)) := by
      refine .bind (gives_lookup hhost name) fun m hm => .get fun _ =>
        .bind (.of_catalog_eq fun w => ?_) fun _ _ => .bind (.of_catalog_eq fun w => rfl) fun _ _ =>
          .pure hm
      rw [result_logged]
    refine .bind hfound.attempt fun found hplain => ?_
    cases found with
    | ok found => exact .pure (hplain found rfl)
    | error f =>
      dsimp only
      split
      · exact .bind (.of_catalog_eq fun w => congrArg World.catalog (Reads.cannotAttach name f w))
          fun _ _ => .throw _
      · exact .throw _
  | attacher a => exact .pure hitem
  | other v =>
    simp only [attacherOf]
    cases hv : Attacher.ofValue? v with
    | none => exact .throw _
    | some a => exact .pure (Attacher.plain_ofValue? hv)

/-! ### What a use attaches -/

/-- A plugin that was attached: the processor that was gone on with, and what was registered for it. -/
structure Attaching where
  target : Nat
  attachment : Attachment
  transformer : Option Transformer

/-- What attaching a plugin comes to, before anything is registered. -/
def attachingOf (host : Host) (options : Value) (id : Nat) (item : Item) : Action Attaching := do
  let (a, given, name) ← attacherOf host options item
  let p ← processor id
  log .debug logger ("Attaching plugin '" ++ name ++ "' to processor '" ++ p.name ++ "'")
  let returned ← a.call host id given (← reveal p.data)
  let attached ← ofOutcome (Attached.ofReturned name returned)
  return ⟨attached.processor.getD id, ⟨a.name, given⟩, attached.transformer⟩

section Single

variable {host : Host} {options : Value} {id : Nat} {item : Item} {u x : World}

/-- A registry after something was attached to its processor, or to another one. -/
def Attaching.apply (m : Attaching) (id : Nat) (r : Registry Transformer) : Registry Transformer :=
  if id = m.target then r.add m.attachment m.transformer else r

theorem World.registryOf?_registered {w : World} {target : Nat} {q : Processor}
    (hq : w.processors[target]? = some q) (attachment : Attachment) (t : Option Transformer)
    (id : Nat) : (w.registered target q attachment t).registryOf? id =
      (w.registryOf? id).map (Attaching.apply ⟨target, attachment, t⟩ id) := by
  unfold World.registryOf? World.registered Attaching.apply
  by_cases h : target = id
  · subst h
    rw [List.getElem?_set_self (List.getElem?_eq_some_iff.mp hq).1, hq]
    simp
  · rw [List.getElem?_set_ne h, Option.map_map]
    simp [Function.comp_def, Ne.symm h]

theorem World.Beside.registryOf? {w v : World} (h : w.Beside v) (id : Nat) :
    v.registryOf? id = w.registryOf? id := by
  unfold World.registryOf?
  rw [h.processors]

/-- What attaching a plugin comes to when its attacher is called and what it returned is read. -/
theorem result_attachingOf {a : Attacher} {given : Value} {name : String} {v : World} {p : Processor}
    {attached : Attached Nat Transformer}
    (hof : (attacherOf host options item).result u = (.ok (a, given, name), v))
    (hp : v.processors[id]? = some p)
    (hread : (v.called host id p a given name).1 >>= Attached.ofReturned name = .ok attached) :
    (attachingOf host options id item).result u =
      (.ok ⟨attached.processor.getD id, ⟨a.name, given⟩, attached.transformer⟩,
        (v.called host id p a given name).2) := by
  have hlog : (log .debug logger ("Attaching plugin '" ++ name ++ "' to processor '" ++ p.name ++
      "'")).result v = (.ok (), v.attaching p name) := rfl
  have hreveal : (reveal p.data).result (v.attaching p name) =
      (.ok (v.reveal p.data), v.attaching p name) := rfl
  obtain ⟨returned, y, hcall⟩ : ∃ returned y, v.called host id p a given name = (.ok returned, y) := by
    generalize v.called host id p a given name = done at hread
    obtain ⟨o, y⟩ := done
    cases o with
    | error f => cases hread
    | ok returned => exact ⟨returned, y, rfl⟩
  rw [hcall] at hread ⊢
  rw [attachingOf, result_bind_ok hof]
  dsimp only
  rw [result_bind_ok (result_processor hp), result_bind_ok hlog, result_bind_ok hreveal,
    result_bind_ok hcall]
  have hof : (ofOutcome (Attached.ofReturned name returned)).result y = (.ok attached, y) := by
    rw [result_ofOutcome]
    exact congrArg (·, y) hread
  rw [result_bind_ok hof]
  rfl

/-- A plugin that is used with success is registered for the processor to go on with, and for no
other. -/
theorem use_registers (hhost : host.Plain) (hu : u.PlainCatalog) (hitem : item.Plain) {q : Nat}
    (h : (useOn host id (.leaf item) options).result u = (.ok q, x)) :
    x.PlainCatalog ∧ ∃ m y, (attachingOf host options id item).result u = (.ok m, y) ∧ m.target = q ∧
      (∀ other r, u.registryOf? other = some r → y.registryOf? other = some r) ∧
      (y.registryOf? q).isSome ∧
      ∀ other, x.registryOf? other = (y.registryOf? other).map (m.apply other) := by
  obtain ⟨a, given, name, v, hof, hbeside, hattach⟩ := useOn_leaf_ok h
  obtain ⟨hv, hplain⟩ := gives_attacherOf hhost options hitem u hu
  rw [hof] at hv hplain
  obtain ⟨p, attached, o, events, hp, hread, rfl, ho, -, rfl⟩ := attach_ok hattach
  have hspares : v.Spares (v.called host id p a given name).2 :=
    called_respects (.inl (hplain _ rfl)) v id p given name
  refine ⟨?_, _, _, result_attachingOf hof hp hread, rfl, fun other r hr => ?_, ?_,
    World.registryOf?_registered ho ⟨a.name, given⟩ attached.transformer⟩
  · show ((v.called host id p a given name).2.catalog).All _
    rw [hspares.catalog]
    exact hv
  · exact hspares.registry ((hbeside.registryOf? other).trans hr)
  · rw [World.registryOf?, ho]
    rfl

/-- A plugin that is used without success is registered for no processor. -/
theorem use_error_spares (hhost : host.Plain) (hu : u.PlainCatalog) (hitem : item.Plain) {f : Fault}
    (h : (useOn host id (.leaf item) options).result u = (.error f, x)) :
    x.PlainCatalog ∧ ∀ other r, u.registryOf? other = some r → x.registryOf? other = some r := by
  obtain ⟨hcatalog, hplain⟩ := gives_attacherOf hhost options hitem u hu
  have hbeside := beside_attacherOf host options item u
  rw [useOn_leaf, attachItem_eq, result_bind] at h
  generalize (attacherOf host options item).result u = done at h hcatalog hplain hbeside
  obtain ⟨o, v⟩ := done
  cases o with
  | error g =>
    obtain ⟨-, rfl⟩ := Prod.mk.inj h
    exact ⟨hcatalog, fun other r hr => (hbeside.registryOf? other).trans hr⟩
  | ok found =>
    have hspares : v.Spares x := attach_error (.inl (hplain found rfl)) h
    refine ⟨?_, fun other r hr => hspares.registry ((hbeside.registryOf? other).trans hr)⟩
    rw [World.PlainCatalog, hspares.catalog]
    exact hcatalog

end Single

/-! ### What a sequence of operations attaches -/

/-- A registry to which more was added. -/
def extended (r : Registry Transformer) (ms : List Attaching) : Registry Transformer :=
  ⟨r.attachments ++ ms.map (·.attachment), r.transformers ++ ms.filterMap (·.transformer)⟩

/-- What was registered for a processor. -/
def attachedTo (id : Nat) (ms : List Attaching) : List Attaching := ms.filter fun m => id = m.target

theorem extended_nil (r : Registry Transformer) : extended r [] = r := by simp [extended]

theorem extended_append (r : Registry Transformer) (ms ns : List Attaching) :
    extended r (ms ++ ns) = extended (extended r ms) ns := by
  simp [extended, List.append_assoc]

theorem attachedTo_append (id : Nat) (ms ns : List Attaching) :
    attachedTo id (ms ++ ns) = attachedTo id ms ++ attachedTo id ns := List.filter_append ..

theorem before_extended (r : Registry Transformer) (ms : List Attaching) : r.Before (extended r ms) :=
  ⟨List.prefix_append .., List.prefix_append ..⟩

theorem Attaching.apply_eq (m : Attaching) (id : Nat) (r : Registry Transformer) :
    m.apply id r = extended r (attachedTo id [m]) := by
  unfold Attaching.apply attachedTo
  by_cases h : id = m.target
  · obtain ⟨target, attachment, t⟩ := m
    cases t <;> simp [h, extended, Registry.add]
  · simp [h, extended]

/-- What is attached when plugins are used one by one, up to the first that fails. -/
def attachings (host : Host) (options : Value) : Nat → List Item → World → List Attaching
  | _, [], _ => []
  | id, item :: rest, w =>
    match (useOn host id (.leaf item) options).result w,
      (attachingOf host options id item).result w with
    | (.ok q, v), (.ok m, _) => m :: attachings host options q rest v
    | _, _ => []

/-- Something that is done with a pool of processors. -/
inductive Operation where
  | construct (name parser compiler data : Value)
  | clone (id : Nat)
  | use (id : Nat) (plugin : Plugin) (options : Value)

namespace Operation

def act (host : Host) : Operation → Action Nat
  | construct name parser compiler data => newProcessor name parser compiler data
  | clone id => cloneProcessor id
  | use id plugin options => useOn host id plugin options

/-- The plugins that are used attach no others themselves. -/
def Plain : Operation → Prop
  | use _ plugin _ => ∀ item ∈ plugin.leaves, item.Plain
  | _ => True

/-- What an operation attaches. -/
def attachings (host : Host) : Operation → World → List Attaching
  | use id plugin options, w => Pipeline.attachings host options id plugin.leaves w
  | _, _ => []

end Operation

/-- The world after operations. An operation that fails leaves what it did. -/
def operate (host : Host) (ops : List Operation) (w : World) : World :=
  ops.foldl (fun v op => ((op.act host).result v).2) w

/-- What operations attach, in order. -/
def history (host : Host) : List Operation → World → List Attaching
  | [], _ => []
  | op :: rest, w => op.attachings host w ++ history host rest ((op.act host).result w).2

/-- From one world to the next, every registry was extended by what was attached to its processor. -/
structure World.Gains (w v : World) (ms : List Attaching) : Prop where
  catalog : v.PlainCatalog
  registry : ∀ id r, w.registryOf? id = some r →
    v.registryOf? id = some (extended r (attachedTo id ms))

namespace World.Gains

variable {u v w : World} {ms ns : List Attaching}

theorem of_same (hcatalog : v.PlainCatalog)
    (hregistry : ∀ id r, w.registryOf? id = some r → v.registryOf? id = some r) : w.Gains v [] :=
  ⟨hcatalog, fun id r hr => (hregistry id r hr).trans (congrArg some (extended_nil r).symm)⟩

theorem trans (h : u.Gains v ms) (h' : v.Gains w ns) : u.Gains w (ms ++ ns) :=
  ⟨h'.catalog, fun id r hr => by
    rw [h'.registry id _ (h.registry id r hr), ← extended_append, ← attachedTo_append]⟩

theorem of_spares (hw : w.PlainCatalog) (h : w.Spares v) : w.Gains v [] :=
  of_same (by rw [World.PlainCatalog, h.catalog]; exact hw) fun _ _ hr => h.registry hr

end World.Gains

section Operate

variable {host : Host} {w : World}

/-- Plugins that are used one by one add to the registries what each attaches. -/
theorem gains_uses (hhost : host.Plain) (options : Value) {items : List Item}
    (hitems : ∀ item ∈ items, item.Plain) (id : Nat) (hw : w.PlainCatalog) :
    w.Gains ((items.foldlM (fun p item => useOn host p (.leaf item) options) id).result w).2
      (attachings host options id items w) := by
  induction items generalizing id w with
  | nil => exact .of_same hw fun _ _ hr => hr
  | cons item items ih =>
    obtain ⟨hitem, hrest⟩ := List.forall_mem_cons.mp hitems
    obtain ⟨o, u, hused⟩ : ∃ o u, (useOn host id (.leaf item) options).result w = (o, u) := ⟨_, _, rfl⟩
    cases o with
    | error f =>
      obtain ⟨hu, hregistry⟩ := use_error_spares hhost hw hitem hused
      rw [List.foldlM_cons, result_bind_error hused, attachings, hused]
      exact .of_same hu hregistry
    | ok q =>
      -- The attacher may have made processors before it came to `m`; those of `w` are not touched.
      obtain ⟨hu, m, y, hm, -, hspares, -, hregistry⟩ := use_registers hhost hw hitem hused
      have hfirst : w.Gains u [m] := ⟨hu, fun other r hr => by
        rw [hregistry, hspares other r hr, Option.map_some, m.apply_eq]⟩
      rw [List.foldlM_cons, result_bind_ok hused, attachings, hused, hm]
      exact hfirst.trans (ih hrest q hu)

/-- An operation adds to the registries what it attaches. -/
theorem gains_act (hhost : host.Plain) {op : Operation} (hop : op.Plain) (hw : w.PlainCatalog) :
    w.Gains ((op.act host).result w).2 (op.attachings host w) := by
  cases op with
  | construct name parser compiler data =>
    exact .of_spares hw (Respects.newProcessor (R := World.Spares) name parser compiler data w)
  | clone id => exact .of_spares hw (Respects.cloneProcessor (R := World.Spares) id w)
  | use id plugin options =>
    rw [Operation.act, useOn_eq_foldlM]
    exact gains_uses hhost options hop id hw

/-- Operations add to the registries what they attach. -/
theorem gains_operate (hhost : host.Plain) {ops : List Operation} (hops : ∀ op ∈ ops, op.Plain)
    (hw : w.PlainCatalog) : w.Gains (operate host ops w) (history host ops w) := by
  induction ops generalizing w with
  | nil => exact .of_same hw fun _ _ hr => hr
  | cons op ops ih =>
    obtain ⟨hop, hrest⟩ := List.forall_mem_cons.mp hops
    have hact := gains_act hhost hop hw
    exact hact.trans (ih hrest hact.catalog)

/-- A copy is a new processor with the same plugins; nothing else is attached. -/
theorem clone_copies {id c : Nat} {v : World} (h : (cloneProcessor id).result w = (.ok c, v)) :
    w.registryOf? c = none ∧ (w.registryOf? id).isSome ∧ v.registryOf? c = w.registryOf? id ∧
      ∀ other, other ≠ c → v.registryOf? other = w.registryOf? other := by
  rcases cloneProcessor_cases id w with ⟨f, hf⟩ | ⟨p, q, entries, hp, hok, hregistry, -⟩
  · cases congrArg Prod.fst (hf.symm.trans h)
  · obtain ⟨ho, rfl⟩ := Prod.mk.inj (hok.symm.trans h)
    obtain rfl := Except.ok.inj ho
    unfold World.registryOf?
    refine ⟨by simp, by simp [hp], by simp [hp, hregistry], fun other hne => ?_⟩
    rcases Nat.lt_or_ge other w.processors.length with hlt | hge
    · rw [List.getElem?_append_left hlt]
    · rw [List.getElem?_eq_none (by simp; omega), List.getElem?_eq_none hge]

end Operate

/-- The records of plugins only grow, each on its own. Whatever is done with a pool of processors by
plugins that attach no others themselves, the record of every processor is at any later time what it
was, followed by what was attached to this processor in between. A plugin that is used with success adds
itself, and the transformer that it came to if there is one, to the processor that is gone on with, and
nothing to any other; one that is used without success adds nothing. A copy starts with the same record,
and from then on each of the two is followed by its own additions. -/
theorem registries_append_only {host : Host} (hhost : host.Plain) {w : World} (hw : w.PlainCatalog)
    {before after : List Operation} (hplain : ∀ op ∈ before ++ after, op.Plain) :
    let u := operate host before w
    let v := operate host after u
    (∀ id r, u.registryOf? id = some r →
        ∃ s, v.registryOf? id = some s ∧ r.Before s ∧
          s = extended r (attachedTo id (history host after u))) ∧
      (∀ id item options q x, item.Plain →
        (useOn host id (.leaf item) options).result u = (.ok q, x) →
          ∃ m y, (attachingOf host options id item).result u = (.ok m, y) ∧ m.target = q ∧
            (∀ other r, u.registryOf? other = some r → y.registryOf? other = some r) ∧
            (y.registryOf? q).isSome ∧
            ∀ other, x.registryOf? other = (y.registryOf? other).map (m.apply other)) ∧
      (∀ id item options f x, item.Plain →
        (useOn host id (.leaf item) options).result u = (.error f, x) →
          ∀ other r, u.registryOf? other = some r → x.registryOf? other = some r) ∧
      ∀ id c x, (cloneProcessor id).result u = (.ok c, x) →
        u.registryOf? c = none ∧ x.registryOf? c = u.registryOf? id ∧
          (∀ other, other ≠ c → x.registryOf? other = u.registryOf? other) ∧
          ∃ r, u.registryOf? id = some r ∧ ∀ more : List Operation, (∀ op ∈ more, op.Plain) →
            (operate host more x).registryOf? c =
                some (extended r (attachedTo c (history host more x))) ∧
              (operate host more x).registryOf? id =
                some (extended r (attachedTo id (history host more x))) := by
  intro u v
  obtain ⟨hbefore, hafter⟩ := List.forall_mem_append.mp hplain
  have hu := (gains_operate hhost hbefore hw).catalog
  refine ⟨fun id r hr => ?_, fun id item options q x hitem h => ?_, fun id item options f x hitem h => ?_,
    fun id c x h => ?_⟩
  · exact ⟨_, (gains_operate hhost hafter hu).registry id r hr, before_extended r _, rfl⟩
  · exact (use_registers hhost hu hitem h).2
  · exact (use_error_spares hhost hu hitem h).2
  · obtain ⟨hfresh, hsome, hcopy, hothers⟩ := clone_copies h
    obtain ⟨r, hr⟩ := Option.isSome_iff_exists.mp hsome
    have hne : id ≠ c := by
      rintro rfl
      rw [hfresh] at hr
      cases hr
    have hx : x.PlainCatalog := by
      have hplain : (Operation.clone id).Plain := trivial
      have hgains := gains_act hhost hplain hu
      rw [Operation.act, h] at hgains
      exact hgains.catalog
    refine ⟨hfresh, hcopy, hothers, r, hr, fun more hmore => ?_⟩
    have hgains := gains_operate hhost hmore hx
    exact ⟨hgains.registry c r (hcopy.trans hr), hgains.registry id r ((hothers id hne).trans hr)⟩

/-- A plugin that is used on a processor leads to another one, which is copied; what is attached to the
copy later is its own. -/
theorem registries_append_only_copy :
    let read : FrontMatter.Reader := fun _ _ => .ok .none
    let host := Host.nested .standard (Standard.pluginsWith read) (.ok []) 0
    let w : World := {
      processors := [⟨"p", by decide, .none, .none, .dict [], Registry.empty⟩,
        ⟨"q", by decide, .none, .none, .dict [], Registry.empty⟩] }
    let lead : Attacher := .mk "lead" fun _ _ => [.give (.value fun _ => .ok (.handle (.processor 1)))]
    let stay : Attacher := .mk "stay" fun _ _ => []
    let before : List Operation := [.use 0 (.leaf (.attacher lead)) .none, .clone 1]
    let after : List Operation := [.use 2 (.leaf (.attacher stay)) (.int 2)]
    let v := operate host after (operate host before w)
    v.registryOf? 0 = some Registry.empty ∧ v.registryOf? 1 = some ⟨[⟨"lead", .none⟩], []⟩ ∧
      v.registryOf? 2 = some ⟨[⟨"lead", .none⟩, ⟨"stay", .int 2⟩], []⟩ := by
  intro read host w lead stay before after v
  have hhost : host.Plain :=
    Host.plain_nested .standard (fun _ h _ hp => by cases h; cases hp) 0
  have hw : w.PlainCatalog := fun e he => by cases he
  have hlead : lead.Plain := fun _ _ plugin h => by simp [lead, Attacher.program] at h
  have hstay : stay.Plain := fun _ _ plugin h => by simp [stay, Attacher.program] at h
  have hplain : ∀ op ∈ before ++ after, op.Plain := by
    simp [before, after, Operation.Plain, Batch.leaves, Item.Plain, hlead, hstay]
  have hhistory : history host after (operate host before w) = [⟨2, ⟨"stay", .int 2⟩, none⟩] := by
    rfl
  have hgrown := (registries_append_only hhost hw hplain).1
  rw [hhistory] at hgrown
  obtain ⟨r, hr, -, rfl⟩ := hgrown 0 Registry.empty rfl
  obtain ⟨s, hs, -, rfl⟩ := hgrown 1 ⟨[⟨"lead", .none⟩], []⟩ rfl
  obtain ⟨t, ht, -, rfl⟩ := hgrown 2 ⟨[⟨"lead", .none⟩], []⟩ rfl
  exact ⟨hr, hs, ht⟩

end TextPipeline.Pipeline
