import Mathlib.Data.List.Nodup
import TextPipeline.Proofs.Cataloguing
import TextPipeline.Standard.Plugins

/-! When a catalog is filled. The standard and the published plugins are added when a catalog is first looked
at; what was registered before keeps its place. A catalog that is filled from the start answers alike: what a
catalog would have if it were filled now goes the same way for both, whatever is asked of them. -/

namespace TextPipeline

/-- The order in which texts were does not matter when they are sorted. -/
theorem sortTexts_perm {texts texts' : List String} (h : texts.Perm texts') :
    sortTexts texts = sortTexts texts' := by
  have hsorted (l : List String) : (sortTexts l).Pairwise fun a b => (!decide (b < a)) = true := by
    refine List.pairwise_mergeSort (fun a b c hab hbc => ?_) (fun a b => ?_) l
    · simp only [Bool.not_eq_true', decide_eq_false_iff_not, String.not_lt] at hab hbc ⊢
      exact String.le_trans hab hbc
    · simp only [Bool.or_eq_true, Bool.not_eq_true', decide_eq_false_iff_not, String.not_lt]
      exact String.le_total a b
  have hperm (l : List String) : (sortTexts l).Perm l := List.mergeSort_perm l _
  refine List.Perm.eq_of_pairwise (fun a b _ _ hab hba => ?_) (hsorted texts) (hsorted texts')
    ((hperm texts).trans (h.trans (hperm texts').symm))
  simp only [Bool.not_eq_true', decide_eq_false_iff_not, String.not_lt] at hab hba
  exact String.le_antisymm hab hba

namespace Outcome

variable {γ : Type} {f : γ → Outcome Bool}

/-- What is kept of a list with a test that may fail. -/
theorem filterAuxM_ok_iff {l kept r : List γ} :
    List.filterAuxM f l kept = .ok r ↔
      (∀ e ∈ l, ∃ b, f e = .ok b) ∧ r = (l.filter fun e => (f e).toOption == some true).reverse ++ kept := by
  induction l generalizing kept with
  | nil =>
    rw [List.filterAuxM]
    exact ⟨fun h => ⟨nofun, (Except.ok.inj h).symm⟩, fun h => congrArg Except.ok h.2.symm⟩
  | cons e rest ih =>
    rw [List.filterAuxM]
    cases he : f e with
    | error fault =>
      refine iff_of_false nofun fun h => ?_
      obtain ⟨b, hb⟩ := h.1 e List.mem_cons_self
      cases he.symm.trans hb
    | ok b =>
      show List.filterAuxM f rest (cond b (e :: kept) kept) = .ok r ↔ _
      rw [ih, List.forall_mem_cons, List.filter_cons, he]
      cases b with
      | true => simp [Except.toOption]
      | false => simp [Except.toOption]

theorem filterM_ok_iff {l r : List γ} :
    l.filterM f = .ok r ↔
      (∀ e ∈ l, ∃ b, f e = .ok b) ∧ r = l.filter fun e => (f e).toOption == some true := by
  have hrun : l.filterM f = (List.filterAuxM f l []).map List.reverse := by
    rw [List.filterM]
    cases List.filterAuxM f l [] <;> rfl
  rw [hrun]
  constructor
  · intro h
    cases haux : List.filterAuxM f l [] with
    | error fault =>
      rw [haux] at h
      cases h
    | ok kept =>
      rw [haux] at h
      obtain ⟨hall, rfl⟩ := filterAuxM_ok_iff.mp haux
      exact ⟨hall, by rw [← Except.ok.inj h, List.append_nil, List.reverse_reverse]⟩
  · rintro ⟨hall, rfl⟩
    rw [filterAuxM_ok_iff.mpr ⟨hall, rfl⟩, List.append_nil]
    exact congrArg Except.ok (List.reverse_reverse _)

/-- A test that fails for none of the elements of a list keeps the same of a list in another order. -/
theorem filterM_perm {l l' : List γ} (h : l.Perm l') :
    (∃ r r', l.filterM f = .ok r ∧ l'.filterM f = .ok r' ∧ r.Perm r') ∨
      ∃ e e', l.filterM f = .error e ∧ l'.filterM f = .error e' := by
  by_cases hall : ∀ e ∈ l, ∃ b, f e = .ok b
  · exact .inl ⟨_, _, filterM_ok_iff.mpr ⟨hall, rfl⟩,
      filterM_ok_iff.mpr ⟨fun e he => hall e (h.mem_iff.mpr he), rfl⟩, h.filter _⟩
  · refine .inr ?_
    have hfails (l : List γ) (hnot : ¬∀ e ∈ l, ∃ b, f e = .ok b) : ∃ e, l.filterM f = .error e := by
      cases hf : l.filterM f with
      | error e => exact ⟨e, rfl⟩
      | ok r => exact absurd (filterM_ok_iff.mp hf).1 hnot
    obtain ⟨e, he⟩ := hfails l hall
    obtain ⟨e', he'⟩ := hfails l' fun hall' => hall fun x hx => hall' x (h.mem_iff.mp hx)
    exact ⟨e, e', he, he'⟩

end Outcome

namespace Plugin.Catalog

open Pipeline

variable {α β γ : Type}

/-! ### What computations come to -/

/-- What a computation with a catalog comes to and the catalog that it leaves, whatever was logged before. -/
def Leads (x : Cataloguing α β) (c : Catalog α) (o : Outcome β) (d : Catalog α) : Prop :=
  ∀ records, ((x.run.run c).run records).1 = (o, d)

namespace Leads

variable {c d e : Catalog α} {x : Cataloguing α β} {f : β → Cataloguing α γ} {b : β} {o : Outcome γ}

theorem pure (b : β) (c : Catalog α) : Leads (pure b) c (.ok b) c := fun _ => rfl

theorem throw (fault : Fault) (c : Catalog α) : Leads (throw fault : Cataloguing α β) c (.error fault) c :=
  fun _ => rfl

theorem bind_ok (hx : Leads x c (.ok b) d) (hf : Leads (f b) d o e) : Leads (x >>= f) c o e :=
    fun records => by
  rw [run_bind]
  obtain ⟨more, hrun⟩ : ∃ more, (x.run.run c).run records = ((.ok b, d), more) :=
    ⟨_, Prod.ext (hx records) rfl⟩
  rw [hrun]
  exact hf more

theorem bind_error {fault : Fault} (hx : Leads x c (.error fault) d) : Leads (x >>= f) c (.error fault) d :=
  fun records => by
    rw [run_bind]
    obtain ⟨more, hrun⟩ : ∃ more, (x.run.run c).run records = ((.error fault, d), more) :=
      ⟨_, Prod.ext (hx records) rfl⟩
    rw [hrun]

/-- What is made of the result of a computation. -/
theorem map {o : Outcome β} (hx : Leads x c o d) (f : β → γ) :
    Leads (x >>= fun b => Pure.pure (f b)) c (o.map f) d := by
  cases o with
  | ok b => exact bind_ok hx (pure _ _)
  | error fault => exact bind_error hx

theorem get_bind {f : Catalog α → Cataloguing α γ} (hf : Leads (f c) c o e) : Leads (get >>= f) c o e := hf

theorem update (f : Catalog α → Catalog α) (c : Catalog α) :
    Leads (modify f : Cataloguing α PUnit) c (.ok ⟨⟩) (f c) := fun _ => rfl

theorem logged (level : Level) (text : String) (c : Catalog α) :
    Leads (log level text : Cataloguing α Unit) c (.ok ()) c := fun _ => rfl

theorem lift (o : Outcome β) (c : Catalog α) : Leads (liftM o : Cataloguing α β) c o c := fun _ => by
  cases o <;> rfl

end Leads

/-! ### Plugins by name -/

section Plugins

variable {m : Metadata α} {ms : List (Metadata α)} {plugins : List (String × Metadata α)}

/-- The plugins with others that are registered after them. -/
def insertAll (ms : List (Metadata α)) (plugins : List (String × Metadata α)) : List (String × Metadata α) :=
  ms.foldl (fun plugins m => insert m plugins) plugins

theorem lookup_cons (e : String × Metadata α) (rest : List (String × Metadata α)) (name : String) :
    (e :: rest).lookup name = if e.1 = name then some e.2 else rest.lookup name := by
  obtain ⟨n, m⟩ := e
  rw [List.lookup_cons]
  by_cases h : n = name
  · rw [if_pos h, beq_iff_eq.mpr h.symm]
  · rw [if_neg h, beq_eq_false_iff_ne.mpr (Ne.symm h)]

theorem find?_cons (m : Metadata α) (rest : List (Metadata α)) (name : String) :
    ((m :: rest).find? fun m => m.name == name) =
      if m.name = name then some m else rest.find? fun m => m.name == name := by
  rw [List.find?_cons]
  by_cases h : m.name = name
  · rw [if_pos h, beq_iff_eq.mpr h]
  · rw [if_neg h, beq_eq_false_iff_ne.mpr h]

theorem lookup_insert (m : Metadata α) (plugins : List (String × Metadata α)) (name : String) :
    (insert m plugins).lookup name = if m.name = name then some m else plugins.lookup name := by
  induction plugins with
  | nil => exact lookup_cons _ _ _
  | cons e rest ih =>
    obtain ⟨n, old⟩ := e
    rw [insert]
    by_cases hn : n = m.name
    · rw [if_pos (beq_iff_eq.mpr hn), lookup_cons, lookup_cons, hn]
      split <;> rfl
    · rw [if_neg (by simpa using hn), lookup_cons, lookup_cons, ih]
      by_cases h : m.name = name
      · rw [if_pos h, if_pos h, if_neg (h ▸ hn)]
      · rw [if_neg h, if_neg h]

/-- Of plugins of one name, the one that is registered last is found. -/
theorem lookup_insertAll (ms : List (Metadata α)) (plugins : List (String × Metadata α)) (name : String) :
    (insertAll ms plugins).lookup name =
      (ms.reverse.find? fun m => m.name == name).or (plugins.lookup name) := by
  induction ms generalizing plugins with
  | nil => rfl
  | cons m rest ih =>
    show (insertAll rest (insert m plugins)).lookup name = _
    rw [ih, lookup_insert, List.reverse_cons, List.find?_append]
    cases rest.reverse.find? fun m => m.name == name with
    | some found => rfl
    | none => by_cases h : m.name = name <;> simp [h]

/-- A standard plugin is found under a name that was free. -/
theorem lookup_addStandard (standard : List (Metadata α)) (c : Catalog α) (name : String) :
    (addStandard standard c).plugins.lookup name =
      (c.plugins.lookup name).or (standard.find? fun m => m.name == name) := by
  obtain ⟨plugins, initialized⟩ := c
  unfold addStandard
  dsimp only
  induction standard generalizing plugins with
  | nil => simp
  | cons m rest ih =>
    rw [List.foldl_cons, ih, find?_cons]
    by_cases hm : (plugins.lookup m.name).isSome
    · rw [if_pos hm]
      by_cases h : m.name = name
      · subst h
        obtain ⟨found, hfound⟩ := Option.isSome_iff_exists.mp hm
        rw [hfound, Option.some_or, Option.some_or]
      · rw [if_neg h]
    · rw [if_neg hm, List.lookup_append, Option.or_assoc, lookup_cons]
      by_cases h : m.name = name
      · rw [if_pos h, if_pos h, Option.some_or]
      · rw [if_neg h, if_neg h, List.lookup_nil, Option.none_or]

theorem names_insert (h : (plugins.map (·.1)).Nodup) : ((insert m plugins).map (·.1)).Nodup := by
  have hmem (plugins : List (String × Metadata α)) (name : String) (hname : name ≠ m.name) :
      name ∈ (insert m plugins).map (·.1) ↔ name ∈ plugins.map (·.1) := by
    induction plugins with
    | nil => simp [insert, hname]
    | cons e rest ih =>
      rw [insert]
      split
      · rfl
      · rw [List.map_cons, List.map_cons, List.mem_cons, List.mem_cons, ih]
  induction plugins with
  | nil => simp [insert]
  | cons e rest ih =>
    obtain ⟨hfirst, hrest⟩ := List.nodup_cons.mp h
    rw [insert]
    split
    · exact h
    · rename_i hne
      refine List.nodup_cons.mpr ⟨?_, ih hrest⟩
      rw [hmem rest e.1 (by simpa using hne)]
      exact hfirst

theorem names_insertAll (h : (plugins.map (·.1)).Nodup) : ((insertAll ms plugins).map (·.1)).Nodup := by
  induction ms generalizing plugins with
  | nil => exact h
  | cons m rest ih => exact ih (names_insert h)

theorem lookup_isSome_iff {name : String} : (plugins.lookup name).isSome ↔ name ∈ plugins.map (·.1) := by
  induction plugins with
  | nil => simp
  | cons e rest ih =>
    rw [lookup_cons, List.map_cons, List.mem_cons]
    by_cases h : e.1 = name
    · simp [h]
    · rw [if_neg h, ih]
      exact ⟨.inr, fun h' => h'.resolve_left (Ne.symm h)⟩

theorem names_addStandard {c : Catalog α} (standard : List (Metadata α)) (h : (c.plugins.map (·.1)).Nodup) :
    ((addStandard standard c).plugins.map (·.1)).Nodup := by
  obtain ⟨plugins, initialized⟩ := c
  unfold addStandard
  dsimp only at h ⊢
  induction standard generalizing plugins with
  | nil => exact h
  | cons m rest ih =>
    rw [List.foldl_cons]
    refine ih _ ?_
    split
    · exact h
    · rename_i hnone
      rw [lookup_isSome_iff] at hnone
      rw [List.map_append, List.nodup_append']
      exact ⟨h, List.nodup_singleton _, by simpa using hnone⟩

/-- What is found under a name is what is there under it. -/
theorem lookup_eq_some_iff (h : (plugins.map (·.1)).Nodup) {name : String} :
    plugins.lookup name = some m ↔ (name, m) ∈ plugins := by
  induction plugins with
  | nil => simp
  | cons e rest ih =>
    obtain ⟨hfirst, hrest⟩ := List.nodup_cons.mp h
    rw [lookup_cons, List.mem_cons]
    by_cases hname : e.1 = name
    · subst hname
      have hnot : (e.1, m) ∉ rest := fun hmem => hfirst (List.mem_map.mpr ⟨_, hmem, rfl⟩)
      rw [if_pos rfl, Option.some.injEq]
      exact ⟨fun he => .inl (he ▸ rfl), fun h' => (congrArg Prod.snd (h'.resolve_right hnot)).symm⟩
    · rw [if_neg hname, ih hrest]
      exact ⟨.inr, fun h' => h'.resolve_left fun he => hname (congrArg Prod.fst he).symm⟩

/-- Plugins with the same names for the same are the same, in some order. -/
theorem perm_of_lookup {plugins' : List (String × Metadata α)} (h : (plugins.map (·.1)).Nodup)
    (h' : (plugins'.map (·.1)).Nodup) (hsame : ∀ name, plugins.lookup name = plugins'.lookup name) :
    plugins.Perm plugins' := by
  rw [List.perm_ext_iff_of_nodup h.of_map h'.of_map]
  intro e
  rw [← lookup_eq_some_iff h, hsame, lookup_eq_some_iff h']

theorem lookup_filter (plugins : List (String × Metadata α)) (removed name : String) :
    (plugins.filter fun e => e.1 != removed).lookup name =
      if removed = name then none else plugins.lookup name := by
  induction plugins with
  | nil => simp
  | cons e rest ih =>
    rw [List.filter_cons, lookup_cons]
    by_cases he : e.1 = removed
    · rw [if_neg (by simpa using he), ih]
      subst he
      split <;> rfl
    · rw [if_pos (by simpa using he), lookup_cons, ih]
      by_cases hr : removed = name
      · rw [if_pos hr, if_pos hr, if_neg (hr ▸ he)]
      · rw [if_neg hr, if_neg hr]

theorem find?_eq_lookup (ms : List (Metadata α)) (name : String) :
    (ms.find? fun m => m.name == name) = (ms.map fun m => (m.name, m)).lookup name := by
  induction ms with
  | nil => rfl
  | cons m rest ih => rw [List.map_cons, lookup_cons, ← ih, find?_cons]

/-- Of plugins with different names, each is found under its own. -/
theorem find?_of_mem (h : (ms.map (·.name)).Nodup) (hm : m ∈ ms) :
    (ms.find? fun m' => m'.name == m.name) = some m := by
  have hnames : ((ms.map fun m => (m.name, m)).map (·.1)).Nodup := by
    rwa [List.map_map]
  rw [find?_eq_lookup, lookup_eq_some_iff hnames]
  exact List.mem_map.mpr ⟨m, hm, rfl⟩

/-- Of plugins with different names, the first and the last of a name are the same. -/
theorem find?_reverse (h : (ms.map (·.name)).Nodup) (name : String) :
    (ms.reverse.find? fun m => m.name == name) = ms.find? fun m => m.name == name := by
  have hnames : ((ms.map fun m => (m.name, m)).map (·.1)).Nodup := by
    rwa [List.map_map]
  have hreverse : ((ms.reverse.map fun m => (m.name, m)).map (·.1)).Nodup := by
    rw [List.map_reverse, List.map_reverse]
    exact List.nodup_reverse.mpr hnames
  refine Option.ext fun m => ?_
  rw [find?_eq_lookup, find?_eq_lookup, lookup_eq_some_iff hreverse, lookup_eq_some_iff hnames,
    List.map_reverse, List.mem_reverse]

end Plugins

/-! ### What is asked of a catalog -/

/-- The plugins among what other packages publish, up to the first fault that ends the search for them. -/
def found : List (Published α) → List (Metadata α)
  | [] => []
  | p :: rest =>
    match p.loaded with
    | .ok m => m.toList ++ found rest
    | .error f =>
      match f.isError, f.render with
      | true, .ok _ => found rest
      | _, _ => []

/-- How the search among what other packages publish ends. What does not load is passed over if what its fault
says can be read, unless the fault asks to stop. -/
def searched : List (Published α) → Outcome (Option Fault)
  | [] => .ok none
  | p :: rest =>
    match p.loaded with
    | .ok _ => searched rest
    | .error f =>
      match f.isError, f.render with
      | false, _ => .error f
      | true, .ok _ => searched rest
      | true, .error unread => .ok (some unread)

/-- The plugins that other packages publish. -/
def offered : Surroundings α → List (Metadata α)
  | .ok published => found published
  | .error _ => []

/-- The fault that comes of a fault that is told of, if one does: itself if it asks to stop, or what comes of its
text. -/
def untold? (f : Fault) : Option Fault :=
  match f.isError, f.render with
  | false, _ => some f
  | true, .ok _ => none
  | true, .error unread => some unread

/-- The fault with which looking for published plugins ends, if it does: one that asks to stop, or one of a text
that cannot be read. -/
def stop? : Surroundings α → Option Fault
  | .ok published =>
    match searched published with
    | .ok ended => ended.bind untold?
    | .error f => some f
  | .error f => untold? f

section Steps

variable {standard : List (Metadata α)} {surroundings : Surroundings α} {c : Catalog α}

theorem leads_register (m : Metadata α) (c : Catalog α) :
    Leads (register m) c (.ok ()) { c with plugins := insert m c.plugins } := by
  have hset : Leads (do
      modify fun c => { c with plugins := insert m c.plugins }
      log .debug ("Registered plugin: " ++ m.name) : Cataloguing α Unit) c (.ok ())
        { c with plugins := insert m c.plugins } := .bind_ok (.update _ c) (.logged _ _ _)
  refine .get_bind ?_
  dsimp only
  split
  · exact .bind_ok (.logged _ _ _) hset
  · exact hset

/-- The plugins that are found are registered, however the search ends. -/
theorem leads_discoverAll (published : List (Published α)) (count : Nat) (c : Catalog α) :
    Leads (discoverAll published count) c
      ((searched published).map fun ended => (count + (found published).length, ended))
      { c with plugins := insertAll (found published) c.plugins } := by
  induction published generalizing count c with
  | nil => exact .pure _ _
  | cons p rest ih =>
    obtain ⟨name, loaded⟩ := p
    unfold discoverAll searched found
    cases loaded with
    | ok loaded =>
      cases loaded with
      | none => exact .bind_ok (.logged _ _ _) (ih count c)
      | some m =>
        refine .bind_ok (leads_register m c) (.bind_ok (.logged _ _ _) ?_)
        have hnext := ih (count + 1) { c with plugins := insert m c.plugins }
        dsimp only
        rw [Nat.add_assoc, Nat.add_comm 1] at hnext
        exact hnext
    | error f =>
      dsimp only
      cases hf : f.isError with
      | false => exact .bind_error (.throw _ _)
      | true =>
        cases f.render with
        | ok said => exact .bind_ok (.logged _ _ _) (ih count c)
        | error unread => exact .pure _ _

theorem leads_tellEnded (ended : Option Fault) (c : Catalog α) :
    Leads (tellEnded ended) c ((ended.bind untold?).elim (.ok ()) .error) c := by
  cases ended with
  | none => exact .pure _ _
  | some f =>
    rw [Option.bind_some]
    unfold tellEnded untold?
    dsimp only
    cases hf : f.isError with
    | false => exact .bind_error (.throw _ _)
    | true =>
      rw [if_pos rfl]
      cases f.render with
      | ok said => exact .bind_ok (.lift (.ok said) c) (.logged _ _ _)
      | error unread => exact .bind_error (.lift (.error unread) c)

/-- The published plugins are registered. -/
theorem leads_discover (h : stop? surroundings = none) (c : Catalog α) :
    Leads (discover surroundings) c (.ok (offered surroundings).length)
      { c with plugins := insertAll (offered surroundings) c.plugins } := by
  unfold discover
  cases surroundings with
  | ok published =>
    have hall := leads_discoverAll published 0 c
    unfold stop? at h
    dsimp only at h
    cases hsearched : searched published with
    | error f =>
      rw [hsearched] at h
      cases h
    | ok ended =>
      rw [hsearched] at h hall
      dsimp only at h
      have htold := leads_tellEnded ended { c with plugins := insertAll (found published) c.plugins }
      rw [h] at htold
      rw [Nat.zero_add] at hall
      exact .bind_ok hall (.bind_ok htold (.bind_ok (.logged _ _ _) (.pure _ _)))
  | error f =>
    have htold := leads_tellEnded (some f) c
    rw [Option.bind_some, show untold? f = none from h] at htold
    exact .bind_ok (.pure _ _) (.bind_ok htold (.bind_ok (.logged _ _ _) (.pure _ _)))

theorem leads_discover_stop {f : Fault} (h : stop? surroundings = some f) (c : Catalog α) :
    ∃ d, Leads (discover surroundings) c (.error f) d := by
  unfold discover
  cases surroundings with
  | ok published =>
    have hall := leads_discoverAll published 0 c
    unfold stop? at h
    dsimp only at h
    cases hsearched : searched published with
    | error g =>
      rw [hsearched] at h hall
      obtain rfl : g = f := Option.some.inj h
      exact ⟨_, .bind_error hall⟩
    | ok ended =>
      rw [hsearched] at h hall
      dsimp only at h
      have htold := leads_tellEnded ended { c with plugins := insertAll (found published) c.plugins }
      rw [h] at htold
      exact ⟨_, .bind_ok hall (.bind_error htold)⟩
  | error g =>
    have htold := leads_tellEnded (some g) c
    rw [Option.bind_some, show untold? g = some f from h] at htold
    exact ⟨_, .bind_ok (.pure _ _) (.bind_error htold)⟩

/-- The plugin of a name in a catalog that has been filled. -/
def looked (c : Catalog α) (name : String) : Outcome (Metadata α) :=
  match c.find? name with
  | some m => .ok m
  | none => .error (c.unknown name)

/-- The names of the plugins in a catalog that has been filled, or of those that have one of the given tags. -/
def listed (c : Catalog α) (tags : Value) : Outcome (List String) :=
  if tags.isNone then .ok c.names
  else (c.plugins.filterM fun e => hasTag tags e.2).map fun tagged => sortTexts (tagged.map (·.1))

/-- A catalog as it is once it has been filled. -/
def filled (standard : List (Metadata α)) (surroundings : Surroundings α) (c : Catalog α) : Catalog α :=
  if c.initialized then c
  else ⟨insertAll (offered surroundings) (addStandard standard c).plugins, true⟩

theorem filled_initialized (hc : c.initialized = true) : filled standard surroundings c = c := if_pos hc

/-- A catalog that is filled has what is published, what was registered, and what is standard, in this order
of precedence. -/
theorem lookup_filled (hc : c.initialized = false) (name : String) :
    (filled standard surroundings c).plugins.lookup name =
      ((offered surroundings).reverse.find? fun m => m.name == name).or
        ((c.plugins.lookup name).or (standard.find? fun m => m.name == name)) := by
  rw [filled, hc, if_neg Bool.false_ne_true, lookup_insertAll, lookup_addStandard]

theorem leads_fillOnce (standard : List (Metadata α)) (h : stop? surroundings = none) (c : Catalog α) :
    Leads (fillOnce standard surroundings) c (.ok ()) (filled standard surroundings c) := by
  refine .get_bind ?_
  cases hc : c.initialized with
  | true =>
    rw [filled_initialized hc]
    exact .pure _ _
  | false =>
    rw [filled, hc]
    exact .bind_ok (.update _ c) (.bind_ok (leads_discover h _) (.pure _ _))

theorem leads_fillOnce_stop (standard : List (Metadata α)) {f : Fault} (h : stop? surroundings = some f)
    (hc : c.initialized = false) : ∃ d, Leads (fillOnce standard surroundings) c (.error f) d := by
  obtain ⟨d, hd⟩ := leads_discover_stop h (addStandard standard { c with initialized := true })
  refine ⟨d, .get_bind ?_⟩
  rw [hc]
  exact .bind_ok (.update _ c) (.bind_error hd)

theorem leads_clear (c : Catalog α) : Leads clear c (.ok ()) empty :=
  .bind_ok (.update (fun _ => empty) c) (.logged _ _ _)

variable (h : stop? surroundings = none)
include h

theorem leads_unregister (standard : List (Metadata α)) (name : String) (c : Catalog α) :
    Leads (unregister standard surroundings name) c
      (.ok ((filled standard surroundings c).find? name).isSome)
      { filled standard surroundings c with
        plugins := (filled standard surroundings c).plugins.filter fun e => e.1 != name } := by
  refine .bind_ok (leads_fillOnce standard h c) (.get_bind ?_)
  generalize filled standard surroundings c = d
  cases hfound : (d.find? name).isSome with
  | true => exact .bind_ok (.update _ d) (.bind_ok (.logged _ _ _) (.pure _ _))
  | false =>
    -- Where no plugin has the name, nothing is removed.
    have hsame : (d.plugins.filter fun e => e.1 != name) = d.plugins := by
      have hnone : name ∉ d.plugins.map (·.1) := by
        rw [← lookup_isSome_iff]
        exact (Bool.eq_false_iff.mp hfound)
      rw [List.filter_eq_self]
      intro e he
      have hne : e.1 ≠ name := fun heq => hnone (heq ▸ List.mem_map_of_mem he)
      simpa using hne
    rw [hsame]
    exact .pure _ _

theorem leads_lookup (standard : List (Metadata α)) (name : String) (c : Catalog α) :
    Leads (lookup standard surroundings name) c (looked (filled standard surroundings c) name)
      (filled standard surroundings c) := by
  refine .bind_ok (leads_fillOnce standard h c) (.get_bind ?_)
  generalize filled standard surroundings c = d
  unfold looked
  cases d.find? name with
  | some m => exact .pure _ _
  | none => exact .throw _ _

theorem leads_has (standard : List (Metadata α)) (name : String) (c : Catalog α) :
    Leads (has standard surroundings name) c (.ok ((filled standard surroundings c).find? name).isSome)
      (filled standard surroundings c) :=
  .bind_ok (leads_fillOnce standard h c) (.get_bind (.pure _ _))

theorem leads_list (standard : List (Metadata α)) (tags : Value) (c : Catalog α) :
    Leads (list standard surroundings tags) c (listed (filled standard surroundings c) tags)
      (filled standard surroundings c) := by
  refine .bind_ok (leads_fillOnce standard h c) (.get_bind ?_)
  generalize filled standard surroundings c = d
  unfold listed
  cases tags.isNone with
  | true => exact .pure _ _
  | false => exact .map (.lift _ d) _

end Steps

/-- What is asked of a catalog. -/
inductive Request (α : Type) where
  | register (m : Metadata α)
  | unregister (name : String)
  | lookup (name : String)
  | attacher (name : String)
  | has (name : String)
  | list (tags : Value)
  | discover
  | clear

/-- What a catalog answers. -/
inductive Answer (α : Type) where
  | done
  | plugin (m : Metadata α)
  | attacher (a : α)
  | flag (b : Bool)
  | names (names : List String)
  | count (n : Nat)

/-- What a catalog does that is filled when it is first looked at. -/
def serve (standard : List (Metadata α)) (surroundings : Surroundings α) :
    Request α → Cataloguing α (Answer α)
  | .register m => do
    register m
    return .done
  | .unregister name => return .flag (← unregister standard surroundings name)
  | .lookup name => return .plugin (← lookup standard surroundings name)
  | .attacher name => return .attacher (← lookup standard surroundings name).attacher
  | .has name => return .flag (← has standard surroundings name)
  | .list tags => return .names (← list standard surroundings tags)
  | .discover => return .count (← discover surroundings)
  | .clear => do
    clear
    return .done

/-- Installs the standard plugins and then the published ones in a new catalog. -/
def install (standard : List (Metadata α)) (surroundings : Surroundings α) : Cataloguing α Unit := do
  set (⟨[], true⟩ : Catalog α)
  standard.forM register
  let _ ← discover surroundings

/-- What a catalog does that is filled from the start, and again when it is cleared. -/
def serveFilled (standard : List (Metadata α)) (surroundings : Surroundings α) :
    Request α → Cataloguing α (Answer α)
  | .clear => do
    install standard surroundings
    return .done
  | request => serve standard surroundings request

/-- The answer to a request, and the catalog that it leaves. -/
def answer (serving : Request α → Cataloguing α (Answer α)) (c : Catalog α) (request : Request α) :
    Outcome (Answer α) × Catalog α :=
  (((serving request).run.run c).run []).1

/-- The catalog that requests leave, one after the other. -/
def after (serving : Request α → Cataloguing α (Answer α)) (c : Catalog α) (requests : List (Request α)) :
    Catalog α :=
  requests.foldl (fun c request => (answer serving c request).2) c

/-- The answer to a request after others. -/
def answerAfter (serving : Request α → Cataloguing α (Answer α)) (c : Catalog α) (before : List (Request α))
    (request : Request α) : Outcome (Answer α) :=
  (answer serving (after serving c before) request).1

/-- Answers that say the same. When plugins are listed by tags, only whether that fails is looked at and not
for which plugin it does first. -/
def Alike : Request α → Outcome (Answer α) → Outcome (Answer α) → Prop
  | .list _, o, o' => o.toOption = o'.toOption
  | _, o, o' => o = o'

/-- A request that does not register a plugin under the name of a published one. -/
def Request.Apart (surroundings : Surroundings α) (request : Request α) : Prop :=
  ∀ m, request = .register m → m.name ∉ (offered surroundings).map (·.name)

/-- A request that does not ask for a plugin of a name to be set or removed. -/
def Request.Spares (name : String) : Request α → Prop
  | .register m => m.name ≠ name
  | .unregister removed => removed ≠ name
  | .clear => False
  | _ => True

section Serve

variable {standard : List (Metadata α)} {surroundings : Surroundings α} {c d : Catalog α}
  {request : Request α}

/-- What a catalog that has been filled answers. -/
def reply (surroundings : Surroundings α) (c : Catalog α) : Request α → Outcome (Answer α)
  | .register _ | .clear => .ok .done
  | .unregister name | .has name => .ok (.flag (c.find? name).isSome)
  | .lookup name => (looked c name).map .plugin
  | .attacher name => (looked c name).map fun m => .attacher m.attacher
  | .list tags => (listed c tags).map .names
  | .discover => .ok (.count (offered surroundings).length)

/-- The catalog that a request leaves. -/
def next (standard : List (Metadata α)) (surroundings : Surroundings α) (c : Catalog α) :
    Request α → Catalog α
  | .register m => { c with plugins := insert m c.plugins }
  | .unregister name =>
    { filled standard surroundings c with
      plugins := (filled standard surroundings c).plugins.filter fun e => e.1 != name }
  | .discover => { c with plugins := insertAll (offered surroundings) c.plugins }
  | .clear => empty
  | _ => filled standard surroundings c

theorem leads_serve (h : stop? surroundings = none) (standard : List (Metadata α)) (c : Catalog α)
    (request : Request α) :
    Leads (serve standard surroundings request) c
      (reply surroundings (filled standard surroundings c) request)
      (next standard surroundings c request) := by
  cases request with
  | register m => exact .map (leads_register m c) fun _ => Answer.done
  | unregister name => exact .map (leads_unregister h standard name c) Answer.flag
  | lookup name => exact .map (leads_lookup h standard name c) Answer.plugin
  | attacher name => exact .map (leads_lookup h standard name c) fun m => Answer.attacher m.attacher
  | has name => exact .map (leads_has h standard name c) Answer.flag
  | list tags => exact .map (leads_list h standard tags c) Answer.names
  | discover => exact .map (leads_discover h c) Answer.count
  | clear => exact .map (leads_clear c) fun _ => Answer.done

/-- The first look at a catalog ends as looking for published plugins does. -/
theorem leads_serve_stop {f : Fault} (h : stop? surroundings = some f) (standard : List (Metadata α))
    (hc : c.initialized = false) (hregister : ∀ m, request ≠ .register m) (hclear : request ≠ .clear) :
    ∃ d, Leads (serve standard surroundings request) c (.error f) d := by
  obtain ⟨d, hfill⟩ := leads_fillOnce_stop standard h hc
  cases request with
  | register m => exact absurd rfl (hregister m)
  | clear => exact absurd rfl hclear
  | discover =>
    obtain ⟨d, hd⟩ := leads_discover_stop h c
    exact ⟨d, .map hd Answer.count⟩
  | _ => exact ⟨d, .bind_error (.bind_error hfill)⟩

theorem leads_registerAll (ms : List (Metadata α)) (c : Catalog α) :
    Leads (ms.forM register) c (.ok ()) { c with plugins := insertAll ms c.plugins } := by
  induction ms generalizing c with
  | nil => exact .pure _ _
  | cons m rest ih =>
    exact .bind_ok (leads_register m c) (ih { c with plugins := insert m c.plugins })

/-- A catalog that was filled when it was made. -/
def installed (standard : List (Metadata α)) (surroundings : Surroundings α) : Catalog α :=
  ⟨insertAll (offered surroundings) (insertAll standard []), true⟩

theorem leads_install (h : stop? surroundings = none) (standard : List (Metadata α)) (c : Catalog α) :
    Leads (install standard surroundings) c (.ok ()) (installed standard surroundings) :=
  .bind_ok (.update (fun _ => ⟨[], true⟩) c) (.bind_ok (leads_registerAll standard _)
    (.bind_ok (leads_discover h _) (.pure _ _)))

theorem leads_install_stop {f : Fault} (h : stop? surroundings = some f) (standard : List (Metadata α))
    (c : Catalog α) : ∃ d, Leads (install standard surroundings) c (.error f) d := by
  obtain ⟨d, hd⟩ := leads_discover_stop h ⟨insertAll standard [], true⟩
  exact ⟨d, .bind_ok (.update (fun _ => ⟨[], true⟩) c) (.bind_ok (leads_registerAll standard _)
    (.bind_error hd))⟩

/-! ### Catalogs that are filled sooner or later -/

/-- A catalog that has been filled, and that another one would be like if it were filled now. -/
structure Mirrors (standard : List (Metadata α)) (surroundings : Surroundings α) (c d : Catalog α) :
    Prop where
  initialized : d.initialized = true
  names : (c.plugins.map (·.1)).Nodup
  names' : (d.plugins.map (·.1)).Nodup
  same : ∀ name, (filled standard surroundings c).plugins.lookup name = d.plugins.lookup name

theorem names_filled (h : (c.plugins.map (·.1)).Nodup) :
    ((filled standard surroundings c).plugins.map (·.1)).Nodup := by
  unfold filled
  split
  · exact h
  · exact names_insertAll (names_addStandard standard h)

/-- A new catalog would be filled with what is installed in another one from the start. -/
theorem mirrors_installed (hnames : (standard.map (·.name)).Nodup) :
    Mirrors standard surroundings empty (installed standard surroundings) := by
  refine ⟨rfl, List.nodup_nil, names_insertAll (names_insertAll List.nodup_nil), fun name => ?_⟩
  rw [lookup_filled rfl, installed, lookup_insertAll, lookup_insertAll]
  rw [find?_reverse hnames, List.lookup_nil, Option.or_none]
  exact congrArg _ (Option.none_or)

section Mirrors

variable (h : Mirrors standard surroundings c d)
include h

theorem Mirrors.perm : (filled standard surroundings c).plugins.Perm d.plugins :=
  perm_of_lookup (names_filled h.names) h.names' h.same

theorem Mirrors.listed_names : (filled standard surroundings c).names = d.names :=
  sortTexts_perm (h.perm.map _)

theorem Mirrors.looked (name : String) :
    looked (filled standard surroundings c) name = Catalog.looked d name := by
  have hunknown : (filled standard surroundings c).unknown name = d.unknown name := by
    have hempty : (filled standard surroundings c).plugins.isEmpty = d.plugins.isEmpty := by
      rw [Bool.eq_iff_iff, List.isEmpty_iff, List.isEmpty_iff, ← List.length_eq_zero_iff,
        ← List.length_eq_zero_iff, h.perm.length_eq]
    rw [unknown, hempty, h.listed_names, unknown]
  unfold Catalog.looked Catalog.find?
  rw [h.same, hunknown]

theorem Mirrors.listed (tags : Value) :
    (listed (filled standard surroundings c) tags).toOption = (Catalog.listed d tags).toOption := by
  unfold Catalog.listed
  rw [h.listed_names]
  cases tags.isNone with
  | true => rfl
  | false =>
    rcases Outcome.filterM_perm (f := fun e : String × Metadata α => hasTag tags e.2) h.perm with
      ⟨r, r', hr, hr', hperm⟩ | ⟨e, e', he, he'⟩
    · rw [hr, hr']
      exact congrArg some (sortTexts_perm (hperm.map _))
    · rw [he, he']
      rfl

/-- Both catalogs answer alike. -/
theorem Mirrors.alike (request : Request α) :
    Alike request (reply surroundings (filled standard surroundings c) request)
      (reply surroundings d request) := by
  cases request with
  | lookup name => exact congrArg (Except.map Answer.plugin) (h.looked name)
  | attacher name =>
    exact congrArg (Except.map fun m : Metadata α => Answer.attacher m.attacher) (h.looked name)
  | unregister name | has name =>
    show Except.ok (Answer.flag _) = Except.ok (Answer.flag _)
    unfold Catalog.find?
    rw [h.same]
  | list tags =>
    show ((Catalog.listed _ tags).map Answer.names).toOption =
      ((Catalog.listed d tags).map Answer.names).toOption
    have hlisted := h.listed tags
    cases hc : Catalog.listed (filled standard surroundings c) tags <;> cases hd : Catalog.listed d tags <;>
      rw [hc, hd] at hlisted <;> simp_all [Except.toOption, Except.map]
  | _ => rfl

end Mirrors

theorem filled_isInitialized (standard : List (Metadata α)) (surroundings : Surroundings α) (c : Catalog α) :
    (filled standard surroundings c).initialized = true := by
  unfold filled
  split
  · assumption
  · rfl

/-- The catalog that a request leaves if it is filled from the start. -/
def nextFilled (standard : List (Metadata α)) (surroundings : Surroundings α) (d : Catalog α) :
    Request α → Catalog α
  | .clear => installed standard surroundings
  | request => next standard surroundings d request

theorem leads_serveFilled (h : stop? surroundings = none) (standard : List (Metadata α))
    (hd : d.initialized = true) (request : Request α) :
    Leads (serveFilled standard surroundings request) d (reply surroundings d request)
      (nextFilled standard surroundings d request) := by
  have hserve := leads_serve h standard d request
  rw [filled_initialized hd] at hserve
  cases request with
  | clear => exact .map (leads_install h standard d) fun _ => Answer.done
  | _ => exact hserve

theorem answer_serve (h : stop? surroundings = none) :
    answer (serve standard surroundings) c request =
      (reply surroundings (filled standard surroundings c) request, next standard surroundings c request) :=
  leads_serve h standard c request []

theorem answer_serveFilled (h : stop? surroundings = none) (hd : d.initialized = true) :
    answer (serveFilled standard surroundings) d request =
      (reply surroundings d request, nextFilled standard surroundings d request) :=
  leads_serveFilled h standard hd request []

theorem find?_offered {name : String} (h : name ∉ (offered surroundings).map (·.name)) :
    ((offered surroundings).reverse.find? fun m => m.name == name) = none := by
  rw [List.find?_eq_none]
  intro m hm heq
  exact h (List.mem_map.mpr ⟨m, List.mem_reverse.mp hm, by simpa using heq⟩)

/-- Under a name that is not published, a registered plugin is found, filled or not. -/
theorem lookup_filled_register {m : Metadata α} {name : String}
    (hname : m.name = name → name ∉ (offered surroundings).map (·.name)) :
    (filled standard surroundings (next standard surroundings c (.register m))).plugins.lookup name =
      if m.name = name then some m else (filled standard surroundings c).plugins.lookup name := by
  cases hc : c.initialized with
  | true =>
    rw [filled_initialized hc, filled_initialized (c := next standard surroundings c (.register m)) hc, next,
      lookup_insert]
  | false =>
    rw [lookup_filled hc, lookup_filled (c := next standard surroundings c (.register m)) hc, next,
      lookup_insert]
    split
    · rw [find?_offered (hname ‹_›)]
      rfl
    · rfl

theorem lookup_filled_discover (name : String) :
    (filled standard surroundings (next standard surroundings c .discover)).plugins.lookup name =
      ((offered surroundings).reverse.find? fun m => m.name == name).or
        ((filled standard surroundings c).plugins.lookup name) := by
  cases hc : c.initialized with
  | true =>
    rw [filled_initialized hc, filled_initialized (c := next standard surroundings c .discover) hc, next,
      lookup_insertAll]
  | false =>
    rw [lookup_filled hc, lookup_filled (c := next standard surroundings c .discover) hc, next,
      lookup_insertAll, Option.or_assoc]

theorem lookup_filled_unregister (removed name : String) :
    (filled standard surroundings (next standard surroundings c (.unregister removed))).plugins.lookup name =
      if removed = name then none else (filled standard surroundings c).plugins.lookup name := by
  rw [filled_initialized (c := next standard surroundings c (.unregister removed))
    (filled_isInitialized standard surroundings c), next, lookup_filter]

theorem filled_filled (standard : List (Metadata α)) (surroundings : Surroundings α) (c : Catalog α) :
    filled standard surroundings (filled standard surroundings c) = filled standard surroundings c :=
  filled_initialized (filled_isInitialized standard surroundings c)

/-- Whatever is asked of both, one catalog goes on to be what the other would be. -/
theorem Mirrors.next (hnames : (standard.map (·.name)).Nodup) (h : Mirrors standard surroundings c d)
    (hrequest : request.Apart surroundings) :
    Mirrors standard surroundings (next standard surroundings c request)
      (nextFilled standard surroundings d request) := by
  have hd : filled standard surroundings d = d := filled_initialized h.initialized
  -- After a look, the one catalog is filled, and what it would be if it were filled is what it is.
  have hlook : Mirrors standard surroundings (filled standard surroundings c)
      (filled standard surroundings d) := by
    rw [hd]
    exact ⟨h.initialized, names_filled h.names, h.names', by rw [filled_filled]; exact h.same⟩
  cases request with
  | register m =>
    refine ⟨h.initialized, names_insert h.names, names_insert h.names', fun name => ?_⟩
    rw [lookup_filled_register fun heq => heq ▸ hrequest m rfl, h.same]
    exact (lookup_insert m d.plugins name).symm
  | unregister removed =>
    refine ⟨filled_isInitialized _ _ _, ?_, ?_, fun name => ?_⟩
    · exact (names_filled h.names).sublist (List.filter_sublist.map _)
    · exact (names_filled h.names').sublist (List.filter_sublist.map _)
    · rw [lookup_filled_unregister, h.same, nextFilled, Catalog.next, lookup_filter, hd]
      nofun
  | discover =>
    refine ⟨h.initialized, names_insertAll h.names, names_insertAll h.names', fun name => ?_⟩
    rw [lookup_filled_discover, h.same]
    exact (lookup_insertAll _ d.plugins name).symm
  | clear => exact mirrors_installed hnames
  | _ => exact hlook

theorem Mirrors.after (hstop : stop? surroundings = none) (hnames : (standard.map (·.name)).Nodup)
    (requests : List (Request α)) (hrequests : ∀ r ∈ requests, r.Apart surroundings)
    (h : Mirrors standard surroundings c d) :
    Mirrors standard surroundings (after (serve standard surroundings) c requests)
      (after (serveFilled standard surroundings) d requests) := by
  induction requests generalizing c d with
  | nil => exact h
  | cons request rest ih =>
    obtain ⟨hrequest, hrest⟩ := List.forall_mem_cons.mp hrequests
    refine ih hrest ?_
    dsimp only
    rw [answer_serve hstop, answer_serveFilled hstop h.initialized]
    exact h.next hnames hrequest

/-- A request that spares a name leaves what would be found under it. -/
theorem lookup_filled_spared {name : String} (hspares : request.Spares name)
    (hdiscover : request = .discover → name ∉ (offered surroundings).map (·.name)) :
    (filled standard surroundings (Catalog.next standard surroundings c request)).plugins.lookup name =
      (filled standard surroundings c).plugins.lookup name := by
  cases request with
  | register m => rw [lookup_filled_register fun heq => absurd heq hspares, if_neg hspares]
  | unregister removed => rw [lookup_filled_unregister, if_neg hspares]
  | discover => rw [lookup_filled_discover, find?_offered (hdiscover rfl), Option.none_or]
  | clear => exact hspares.elim
  | _ =>
    show (filled standard surroundings (filled standard surroundings c)).plugins.lookup name = _
    rw [filled_filled]

theorem lookup_after_spared (standard : List (Metadata α)) (hstop : stop? surroundings = none)
    {name : String} (requests : List (Request α)) (hspares : ∀ r ∈ requests, r.Spares name)
    (hdiscover : .discover ∈ requests → name ∉ (offered surroundings).map (·.name)) :
    (filled standard surroundings (Catalog.after (serve standard surroundings) c requests)).plugins.lookup
        name =
      (filled standard surroundings c).plugins.lookup name := by
  induction requests generalizing c with
  | nil => rfl
  | cons request rest ih =>
    obtain ⟨hrequest, hrest⟩ := List.forall_mem_cons.mp hspares
    refine (ih hrest fun hmem => hdiscover (List.mem_cons_of_mem _ hmem)).trans ?_
    dsimp only
    rw [answer_serve hstop]
    exact lookup_filled_spared hrequest fun heq => hdiscover (heq ▸ List.mem_cons_self)

theorem after_append (serving : Request α → Cataloguing α (Answer α)) (c : Catalog α)
    (before more : List (Request α)) :
    Catalog.after serving c (before ++ more) = Catalog.after serving (Catalog.after serving c before) more :=
  List.foldl_append

/-- What is found after a request, and others that spare the name, is what would be found after the request. -/
theorem looked_after (standard : List (Metadata α)) (hstop : stop? surroundings = none) {name : String}
    (before : List (Request α)) (request : Request α) (more : List (Request α))
    (hspares : ∀ r ∈ more, r.Spares name)
    (hdiscover : .discover ∈ more → name ∉ (offered surroundings).map (·.name)) :
    (filled standard surroundings
        (Catalog.after (serve standard surroundings) c (before ++ request :: more))).find? name =
      (filled standard surroundings (Catalog.next standard surroundings
        (Catalog.after (serve standard surroundings) c before) request)).find? name := by
  have hsame := lookup_after_spared standard hstop
    (c := (answer (serve standard surroundings) (Catalog.after (serve standard surroundings) c before)
      request).2) more hspares hdiscover
  rw [after_append]
  refine hsame.trans ?_
  rw [answer_serve hstop]
  rfl

end Serve

/-- That a catalog is filled when it is first looked at cannot be told from its answers: unless a plugin is
registered under the name of a published one, they are those of a catalog in which the standard and then the
published plugins are installed at once and whenever it is cleared. So what was registered under the name of a
standard plugin before stays, and a standard plugin that was removed does not come back before the catalog is
cleared. If looking for published plugins ends with a fault, then the one catalog cannot be made, and the first
look at the other one ends so. -/
theorem filling_is_unobservable (read : FrontMatter.Reader) (surroundings : Surroundings Attacher) :
    let standard := Standard.pluginsWith read
    (∀ d, (((install standard surroundings).run.run empty).run []).1 = (.ok (), d) →
      (∀ before request, (∀ r ∈ before ++ [request], r.Apart surroundings) →
        Alike request (answerAfter (serve standard surroundings) empty before request)
          (answerAfter (serveFilled standard surroundings) d before request)) ∧
      (∀ before m more, m.name ∉ (offered surroundings).map (·.name) → (∀ r ∈ more, r.Spares m.name) →
        answerAfter (serve standard surroundings) empty (before ++ .register m :: more)
          (.lookup m.name) = .ok (.plugin m)) ∧
      (∀ before name more, (∀ r ∈ more, r.Spares name) →
        (.discover ∈ more → name ∉ (offered surroundings).map (·.name)) →
        answerAfter (serve standard surroundings) empty (before ++ .unregister name :: more)
          (.has name) = .ok (.flag false)) ∧
      ∀ before, ∀ m ∈ standard, ∀ more, m.name ∉ (offered surroundings).map (·.name) →
        (∀ r ∈ more, r.Spares m.name) →
        answerAfter (serve standard surroundings) empty (before ++ .clear :: more)
          (.lookup m.name) = .ok (.plugin m)) ∧
    ∀ f, (((install standard surroundings).run.run empty).run []).1.1 = .error f →
      ∀ c request, c.initialized = false → (∀ m, request ≠ .register m) → request ≠ .clear →
        (answer (serve standard surroundings) c request).1 = .error f := by
  intro standard
  have hnames : (standard.map (·.name)).Nodup :=
    show ["frontmatter", "remove-nodes", "text-replacer", "word-count"].Nodup by decide
  cases hstop : stop? surroundings with
  | some f =>
    obtain ⟨d, hd⟩ := leads_install_stop hstop standard empty
    refine ⟨fun d' hd' => ?_, fun f' hf' c request hc hregister hclear => ?_⟩
    · cases (hd []).symm.trans hd'
    · rw [hd []] at hf'
      obtain rfl := Except.error.inj hf'
      obtain ⟨e, he⟩ := leads_serve_stop hstop standard hc hregister hclear
      exact congrArg Prod.fst (he [])
  | none =>
    have hinstall := leads_install hstop standard empty []
    refine ⟨fun d hd => ?_, fun f hf => ?_⟩
    · obtain rfl : installed standard surroundings = d :=
        congrArg Prod.snd (hinstall.symm.trans hd)
      have hreply (before : List (Request Attacher)) (request : Request Attacher) :
          answerAfter (serve standard surroundings) empty before request =
            reply surroundings (filled standard surroundings
              (after (serve standard surroundings) empty before)) request := by
        rw [answerAfter, answer_serve hstop]
      refine ⟨fun before request hall => ?_, fun before m more hname hspares => ?_,
        fun before name more hspares hdiscover => ?_, fun before m hm more hname hspares => ?_⟩
      · -- The invariant holds of the two new catalogs, and every request keeps it.
        have hmirrors := Mirrors.after hstop hnames before
          (fun r hr => hall r (List.mem_append_left _ hr)) (mirrors_installed hnames)
        rw [hreply, answerAfter, answer_serveFilled hstop hmirrors.initialized]
        exact hmirrors.alike request
      · have hfound := (looked_after (c := empty) standard hstop before _ more hspares
          fun _ => hname).trans ((lookup_filled_register (m := m) fun _ => hname).trans (if_pos rfl))
        rw [hreply, reply, looked, hfound]
        rfl
      · have hfound := (looked_after (c := empty) standard hstop before _ more hspares
          hdiscover).trans ((lookup_filled_unregister name name).trans (if_pos rfl))
        rw [hreply, reply, hfound]
        rfl
      · have hempty : (filled standard surroundings empty).find? m.name = some m := by
          refine (lookup_filled rfl m.name).trans ?_
          rw [find?_offered hname, Option.none_or]
          exact find?_of_mem hnames hm
        have hfound := (looked_after (c := empty) standard hstop before .clear more
          hspares fun _ => hname).trans hempty
        rw [hreply, reply, looked, hfound]
        rfl
    · cases (congrArg Prod.fst hinstall).symm.trans hf

/-- A plugin that is registered under the name of a standard one stays when the catalog is first looked at,
and a standard plugin that was removed is gone, until the catalog is cleared; where looking for published
plugins asks to stop, the first look ends so. -/
theorem filling_is_unobservable_shadow :
    let standard := Standard.pluginsWith fun _ _ => .ok .none
    ∃ (shadow : Metadata Attacher) (published : List (Published Attacher)) (d : Catalog Attacher) (f : Fault),
      shadow.name = "frontmatter" ∧ (offered (.ok published)).map (·.name) = ["extra"] ∧
      (((install standard (.ok published)).run.run empty).run []).1 = (.ok (), d) ∧
      Alike (.list .none)
        (answerAfter (serve standard (.ok published)) empty [.register shadow] (.list .none))
        (answerAfter (serveFilled standard (.ok published)) d [.register shadow] (.list .none)) ∧
      answerAfter (serve standard (.ok published)) empty [.register shadow, .list .none]
        (.lookup shadow.name) = .ok (.plugin shadow) ∧
      answerAfter (serve standard (.ok published)) empty [.unregister "word-count", .discover]
        (.has "word-count") = .ok (.flag false) ∧
      answerAfter (serve standard (.ok published)) empty
        [.unregister "word-count", .clear, .discover] (.lookup "word-count") =
          .ok (.plugin Standard.countWordsPlugin) ∧
      (answer (serve standard (.error f)) empty (.has "word-count")).1 = .error f := by
  intro standard
  obtain ⟨shadow, hshadow⟩ : ∃ m : Metadata Attacher, m.name = "frontmatter" :=
    ⟨{ Standard.countWordsPlugin with name := "frontmatter" }, rfl⟩
  obtain ⟨extra, hextra⟩ : ∃ m : Metadata Attacher, m.name = "extra" :=
    ⟨{ Standard.countWordsPlugin with name := "extra" }, rfl⟩
  have hoffered : (offered (.ok [⟨"extra", .ok (some extra)⟩])).map (·.name) = ["extra"] :=
    congrArg (fun name => [name]) hextra
  have hinstall : (((install standard (.ok [⟨"extra", .ok (some extra)⟩])).run.run empty).run []).1 =
    (.ok (), installed standard (.ok [⟨"extra", .ok (some extra)⟩])) :=
    leads_install rfl standard empty []
  obtain ⟨halike, hregistered, hgone, hback⟩ :=
    (filling_is_unobservable _ (.ok [⟨"extra", .ok (some extra)⟩])).1 _ hinstall
  refine ⟨shadow, _, _, .raised "KeyboardInterrupt" [], hshadow, hoffered, hinstall,
    halike [.register shadow] (.list .none) ?_, hregistered [] shadow [.list .none] ?_ ?_,
    hgone [] "word-count" [.discover] ?_ ?_,
    hback [.unregister "word-count"] Standard.countWordsPlugin ?_ [.discover] ?_ ?_,
    (filling_is_unobservable _ _).2 _ rfl empty (.has "word-count") rfl nofun nofun⟩
  · rintro r hr m rfl
    simp only [List.cons_append, List.nil_append, List.mem_cons, Request.register.injEq, reduceCtorEq,
      List.not_mem_nil, or_false] at hr
    rw [hoffered, hr, hshadow]
    decide
  · rw [hoffered, hshadow]
    decide
  · exact List.forall_mem_singleton.mpr trivial
  · exact List.forall_mem_singleton.mpr trivial
  · intro _
    rw [hoffered]
    decide
  · simp [Standard.pluginsWith]
  · rw [hoffered]
    show "word-count" ∉ ["extra"]
    decide
  · exact List.forall_mem_singleton.mpr trivial

end Plugin.Catalog

end TextPipeline
