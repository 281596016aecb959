import TextPipeline.Plugin.Catalog

/-! What a catalog gives. Its plugins are those that were registered, the standard ones, and those that
other packages publish, so what holds of all of these holds of every plugin that is looked up. -/

namespace TextPipeline.Plugin.Catalog

variable {α β γ : Type}

/-- A property of all plugins of a catalog. -/
def All (P : Metadata α → Prop) (c : Catalog α) : Prop := ∀ e ∈ c.plugins, P e.2

/-- A property of all plugins that other packages publish. -/
def AllPublished (P : Metadata α → Prop) (surroundings : Surroundings α) : Prop :=
  ∀ published, surroundings = .ok published → ∀ p ∈ published, ∀ m, p.loaded = .ok (some m) → P m

/-- A computation goes on with what the one before it came to, and the catalog that it left. -/
theorem run_bind (x : Cataloguing α β) (f : β → Cataloguing α γ) (c : Catalog α) (records : List LogRecord) :
    ((x >>= f).run.run c).run records =
      match (x.run.run c).run records with
      | ((.ok b, d), more) => ((f b).run.run d).run more
      | ((.error e, d), more) => ((.error e, d), more) := by
  simp only [ExceptT.run_bind, StateT.run_bind]
  generalize (x.run.run c).run records = done
  obtain ⟨⟨o, d⟩, more⟩ := done
  cases o <;> rfl

/-- A computation that keeps a property of all plugins, and whose result has a property. -/
def Keeps (P : Metadata α → Prop) (Q : β → Prop) (x : Cataloguing α β) : Prop :=
  ∀ c records, All P c → All P ((x.run.run c).run records).1.2 ∧
    ∀ b, ((x.run.run c).run records).1.1 = .ok b → Q b

variable {P : Metadata α → Prop} {Q : β → Prop} {S : γ → Prop}

namespace Keeps

theorem pure {b : β} (hb : Q b) : Keeps P Q (pure b) := fun c records hc =>
  ⟨hc, fun b' h => by
    obtain rfl : b = b' := Except.ok.inj h
    exact hb⟩

theorem throw (f : Fault) : Keeps P Q (throw f : Cataloguing α β) := fun c records hc =>
  ⟨hc, fun b h => by cases h⟩

theorem bind {x : Cataloguing α β} {f : β → Cataloguing α γ} (hx : Keeps P Q x)
    (hf : ∀ b, Q b → Keeps P S (f b)) : Keeps P S (x >>= f) := fun c records hc => by
  obtain ⟨hall, hresult⟩ := hx c records hc
  rw [run_bind]
  generalize (x.run.run c).run records = done at hall hresult
  obtain ⟨⟨o, d⟩, more⟩ := done
  cases o with
  | error e => exact ⟨hall, fun b h => by cases h⟩
  | ok b => exact hf b (hresult b rfl) d more hall

theorem throw_bind (f : Fault) (g : β → Cataloguing α γ) : Keeps P S (MonadExcept.throw f >>= g) :=
  bind (Q := fun _ => False) (throw f) nofun

theorem get {f : Catalog α → Cataloguing α γ} (hf : ∀ c, All P c → Keeps P S (f c)) :
    Keeps P S (get >>= f) := fun c records hc => hf c hc c records hc

theorem update {f : Catalog α → Catalog α} (hf : ∀ c, All P c → All P (f c)) :
    Keeps P (fun _ => True) (modify f : Cataloguing α PUnit) := fun c _ hc =>
  ⟨hf c hc, fun _ _ => trivial⟩

theorem logged (level : Level) (text : String) :
    Keeps P (fun _ => True) (log level text : Cataloguing α Unit) := fun _ _ hc =>
  ⟨hc, fun _ _ => trivial⟩

theorem ite {c : Prop} [Decidable c] {x y : Cataloguing α β} (hx : Keeps P Q x) (hy : Keeps P Q y) :
    Keeps P Q (if c then x else y) := by
  split
  · exact hx
  · exact hy

theorem insert {m : Metadata α} (hm : P m) {c : Catalog α} (hc : All P c) :
    All P { c with plugins := Catalog.insert m c.plugins } := by
  have hinsert (plugins : List (String × Metadata α)) (h : ∀ e ∈ plugins, P e.2) :
      ∀ e ∈ Catalog.insert m plugins, P e.2 := by
    induction plugins with
    | nil => simpa [Catalog.insert] using hm
    | cons e plugins ih =>
      obtain ⟨he, hplugins⟩ := List.forall_mem_cons.mp h
      rw [Catalog.insert]
      split
      · exact List.forall_mem_cons.mpr ⟨hm, hplugins⟩
      · exact List.forall_mem_cons.mpr ⟨he, ih hplugins⟩
  exact hinsert c.plugins hc

theorem register {m : Metadata α} (hm : P m) : Keeps P (fun _ => True) (register m) := by
  have hset : Keeps P (fun _ => True) (do
      modify fun c => { c with plugins := Catalog.insert m c.plugins }
      log .debug ("Registered plugin: " ++ m.name) : Cataloguing α Unit) :=
    bind (update fun _ hc => insert hm hc) fun _ _ => logged _ _
  exact get fun c _ => ite (bind (logged _ _) fun _ _ => hset) hset

theorem discoverAll {published : List (Published α)}
    (h : ∀ p ∈ published, ∀ m, p.loaded = .ok (some m) → P m) (count : Nat) :
    Keeps P (fun _ => True) (discoverAll published count) := by
  induction published generalizing count with
  | nil => exact pure trivial
  | cons p rest ih =>
    obtain ⟨hp, hrest⟩ := List.forall_mem_cons.mp h
    unfold Catalog.discoverAll
    split
    · rename_i m hm
      exact bind (register (hp m hm)) fun _ _ => bind (logged _ _) fun _ _ => ih hrest _
    · exact bind (logged _ _) fun _ _ => ih hrest _
    · refine ite ?_ (throw_bind _ _)
      dsimp only
      split
      · exact bind (logged _ _) fun _ _ => ih hrest _
      · exact pure trivial

theorem tellEnded (ended : Option Fault) :
    Keeps P (fun _ => True) (tellEnded ended : Cataloguing α Unit) := by
  cases ended with
  | none => exact pure trivial
  | some f =>
    refine ite ?_ (throw_bind _ _)
    cases f.render with
    | error g => exact throw_bind g _
    | ok said => exact logged _ _

theorem discover {surroundings : Surroundings α} (h : AllPublished P surroundings) :
    Keeps P (fun _ => True) (discover surroundings) := by
  have hcount (found : Nat × Option Fault) : Keeps P (fun _ => True) (do
      Catalog.tellEnded found.2
      log .debug ("Discovered " ++ toString found.1 ++ " plugin(s) from entry points")
      return found.1 : Cataloguing α Nat) :=
    bind (tellEnded _) fun _ _ => bind (logged _ _) fun _ _ => pure trivial
  unfold Catalog.discover
  split
  · rename_i published
    exact bind (discoverAll (h published rfl) 0) fun found _ => hcount found
  · exact bind (pure (Q := fun _ => True) trivial) fun found _ => hcount found

/-- The standard plugins are added to those that are there. -/
theorem addStandard {standard : List (Metadata α)} (h : ∀ m ∈ standard, P m) {c : Catalog α}
    (hc : All P c) : All P (addStandard standard c) := by
  have hfold (plugins : List (String × Metadata α)) (hplugins : ∀ e ∈ plugins, P e.2) :
      ∀ e ∈ standard.foldl (fun (plugins : List (String × Metadata α)) m =>
        if (plugins.lookup m.name).isSome then plugins else plugins ++ [(m.name, m)]) plugins,
        P e.2 := by
    induction standard generalizing plugins with
    | nil => exact hplugins
    | cons m standard ih =>
      obtain ⟨hm, hstandard⟩ := List.forall_mem_cons.mp h
      refine ih hstandard _ ?_
      dsimp only
      split
      · exact hplugins
      · exact List.forall_mem_append.mpr ⟨hplugins, List.forall_mem_singleton.mpr hm⟩
  exact hfold c.plugins hc

theorem fillOnce {standard : List (Metadata α)} {surroundings : Surroundings α}
    (hstandard : ∀ m ∈ standard, P m) (hpublished : AllPublished P surroundings) :
    Keeps P (fun _ => True) (fillOnce standard surroundings) := by
  refine get fun c _ => ite (pure trivial) ?_
  exact bind (update fun c hc => addStandard hstandard (c := { c with initialized := true }) hc)
    fun _ _ => bind (discover hpublished) fun _ _ => pure trivial

/-- What is looked up is in the catalog. -/
theorem lookup {standard : List (Metadata α)} {surroundings : Surroundings α}
    (hstandard : ∀ m ∈ standard, P m) (hpublished : AllPublished P surroundings) (name : String) :
    Keeps P P (lookup standard surroundings name) := by
  refine bind (fillOnce hstandard hpublished) fun _ _ => get fun c hc => ?_
  split
  · rename_i m hm
    obtain ⟨before, after, hplugins, -⟩ := List.lookup_eq_some_iff.mp hm
    exact pure (hc (name, m) (by simp [hplugins]))
  · exact throw _

end Keeps

end TextPipeline.Plugin.Catalog
