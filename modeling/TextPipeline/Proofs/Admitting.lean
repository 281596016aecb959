import TextPipeline.Proofs.Filling
import TextPipeline.Proofs.Naming

/-! Using a plugin by its name when the catalog has nothing but standard plugins. The plugin is attached, or
refused before anything was changed; and a refusal says that the plugin was not attached, unless there is
nothing wrong with the options but that one of those which are not declared is no text and cannot be told of. -/

namespace TextPipeline

namespace Plugin

/-- Where nothing is published, what is found under a name is a plugin of the catalog, or the name is unknown. -/
theorem Catalog.lookup_cases {α : Type} (standard : List (Metadata α)) (name : String) (c : Catalog α) :
    (∃ m, (((lookup standard (.ok []) name).run.run c).run []).1.1 = .ok m) ∨
      ∃ d : Catalog α, (((lookup standard (.ok []) name).run.run c).run []).1.1 = .error (d.unknown name) := by
  rw [congrArg Prod.fst (leads_lookup rfl standard name c []), looked]
  split
  · exact .inl ⟨_, rfl⟩
  · exact .inr ⟨_, rfl⟩

namespace Metadata

variable {α : Type} {m : Metadata α} {options : Value} {given : Entries}

/-- Options that have nothing wrong with them but that there is one that is no text, so that it can be neither
declared nor told of. -/
def Untellable (m : Metadata α) (options : Value) : Prop :=
  ∃ given resolved, Gives options given ∧ resolveAll m.name given m.parameters given = .ok resolved ∧
    ∃ e ∈ given, ∀ s, e.1 ≠ .str s

/-- What is not declared can be told of if all options are texts. -/
theorem tells_ok_iff_texts (hdeclared : m.parameters ≠ []) :
    m.tells given = .ok () ↔ ∀ e ∈ given, ∃ s, e.1 = .str s := by
  rw [tells_ok_iff hdeclared]
  refine ⟨fun h e he => ?_, fun h e he => h e (List.mem_filter.mp he).1⟩
  cases hd : m.declares e.1 with
  | true => exact str_of_declares hd
  | false => exact h e (List.mem_filter.mpr ⟨he, by rw [hd]; rfl⟩)

theorem not_untellable_of_ok {resolved : Entries} (hdeclared : m.parameters ≠ [])
    (h : (m.resolveOptions options).result.1 = .ok resolved) : ¬m.Untellable options := by
  obtain ⟨given, hgiven, -, htells⟩ := resolveOptions_ok_iff.mp h
  rintro ⟨given', -, hgiven', -, e, he, hnot⟩
  obtain rfl := hgiven.unique hgiven'
  obtain ⟨s, hs⟩ := (tells_ok_iff_texts hdeclared).mp htells e he
  exact hnot s hs

/-- Options are refused because they violate what is said of them, or because they cannot be told of. -/
theorem resolveOptions_refuses (hdeclared : m.parameters ≠ []) (htotal : ∀ e ∈ m.parameters, e.2.Total)
    {f : Fault} (h : (m.resolveOptions options).result.1 = .error f) :
    Violation f ∧ ¬m.Untellable options ∨
      f.kind = "TypeError" ∧ m.Untellable options := by
  rcases resolveOptions_error htotal h with
    ⟨hviolation, hnot⟩ | ⟨hkind, given, resolved, hgiven, hall, htells⟩
  · exact .inl ⟨hviolation, fun ⟨given, resolved, hgiven, hall, _⟩ => hnot given resolved hgiven hall⟩
  · refine .inr ⟨hkind, given, resolved, hgiven, hall, ?_⟩
    have hnot : ¬∀ e ∈ given, ∃ s, e.1 = .str s := fun htexts => by
      cases htells.symm.trans ((tells_ok_iff_texts hdeclared).mpr htexts)
    push Not at hnot
    exact hnot

end Metadata

end Plugin

namespace Pipeline

open TextPipeline.Plugin TextPipeline.Standard
open TextPipeline.Pipeline.Action

variable {host : Host} {w : World} {name : String} {options : Value} {id : Nat} {f : Fault}

/-- A fault with a text is one for which a plugin is not attached. -/
theorem refusal_of_text {reason : String}
    (hkind : (f.isKind "KeyError" || f.isKind "ValidationError") = true)
    (hreason : (reasonOf f).result w = (.ok reason, w)) :
    ∃ message, w.refusal name f = .pluginAttach message (some name) (some f) := by
  refine ⟨.str ("Cannot attach plugin '" ++ name ++ "': " ++ reason), ?_⟩
  rw [World.refusal, if_pos hkind, cannotAttach, result_bind_ok hreason]
  rfl

theorem refusal_of_unknown (w : World) (d : Catalog Attacher) (name : String) :
    ∃ message, w.refusal name (d.unknown name) = .pluginAttach message (some name) (some (d.unknown name)) := by
  refine refusal_of_text ?_ rfl
  show ((Fault.ancestry 8 "KeyError").contains "KeyError" || _) = true
  rw [show (Fault.ancestry 8 "KeyError").contains "KeyError" = true by decide, Bool.true_or]

variable (w name) in
theorem refusal_of_violation (h : Metadata.Violation f) :
    ∃ message, w.refusal name f = .pluginAttach message (some name) (some f) := by
  have hkind : (f.isKind "KeyError" || f.isKind "ValidationError") = true := by
    rw [h.isKind, Bool.or_true]
  obtain ⟨message, parameter, origin, rfl⟩ := h
  exact refusal_of_text hkind rfl

/-- An error that a type is wrong is neither one that a key is missing nor one of what violates a rule. -/
theorem refusal_of_typeError (hkind : f.kind = "TypeError") : w.refusal name f = f := by
  refine if_neg ?_
  unfold Fault.isKind
  rw [hkind]
  decide

theorem result_useOn_refused {c : Catalog Attacher} {es : List Event}
    (h : (attacherOf host options (.named name)).result w = (.error f, { w with catalog := c, events := es }))
    (id : Nat) :
    ∃ v, (useOn host id (.leaf (.named name)) options).result w = (.error f, v) ∧
      v.processors = w.processors ∧ v.store = w.store := by
  refine ⟨{ w with catalog := c, events := es }, ?_, rfl, rfl⟩
  rw [useOn_leaf, attachItem_eq, result_bind_error h]

/-- A plugin whose options are taken is not attached to a processor of whose data no copy can be made. -/
theorem result_useOn_uncopied {m : Metadata Attacher} {q : Processor} {resolved : Entries}
    (hoffer : w.Offers host name m) (hresolve : (m.resolveOptions (w.display options)).result.1 = .ok resolved)
    (hq : w.processors[id]? = some q) (hvalid : (w.reveal q.data).validateData "data" = .ok ())
    (hcopies : ¬w.Copies q) :
    ∃ type v, (useOn host id (.leaf (.named name)) options).result w = (.error (notCopied type), v) ∧
      v.processors = w.processors ∧ v.store = w.store := by
  obtain ⟨c, es, hof⟩ := result_attacherOf_named hoffer options
  rw [hresolve] at hof
  have hattach : ∀ (a : Attacher) (given : Value) (n : String),
      ∃ type v, (attach host id a given n).result { w with catalog := c, events := es } =
        (.error (notCopied type), v) ∧ v.processors = w.processors ∧ v.store = w.store := by
    intro a given n
    have huncopied : ∃ type, (attach host id a given n).result { w with catalog := c, events := es } =
        (.error (notCopied type), ({ w with catalog := c, events := es } : World).attaching q n) :=
      attach_of_not_copies hq hvalid hcopies
    obtain ⟨type, hattach⟩ := huncopied
    exact ⟨type, _, hattach, rfl, rfl⟩
  rw [useOn_leaf, attachItem_eq, result_bind_ok hof]
  exact hattach _ _ _

/-- A plugin that is used by its name with a catalog of nothing but standard plugins, on a processor with valid
data: one attachment and one transformer are added, or nothing is changed and the fault says that the plugin
was not attached. Only options that have nothing wrong with them but that there is one that is no text, which
cannot be told of, end with an error that says that their type is wrong; and these always do. So do data of
which no copy can be made, when the plugin has been found and takes the options. -/
theorem use_adds_or_refuses {read : FrontMatter.Reader} (hstandard : host.standard = pluginsWith read)
    (hsurroundings : host.surroundings = .ok []) (hcatalog : w.catalog.All (· ∈ pluginsWith read))
    (hkeyed : w.Keyed options) (hvalid : w.Valid id) (name : String) :
    (∃ q t v, (useOn host id (.leaf (.named name)) options).result w = (.ok id, v) ∧
      w.processors[id]? = some q ∧ w.Added v id q t ∧
      ∀ m, w.Offers host name m → ¬m.Untellable (w.display options)) ∨
    ∃ f v, (useOn host id (.leaf (.named name)) options).result w = (.error f, v) ∧
      v.processors = w.processors ∧ v.store = w.store ∧
      ((∃ message origin, f = .pluginAttach message (some name) (some origin)) ∧
          (∀ m, w.Offers host name m → ¬m.Untellable (w.display options)) ∨
        (f.kind = "TypeError" ∧ ∃ m, w.Offers host name m ∧ m.Untellable (w.display options)) ∨
        (∃ type, f = notCopied type) ∧ (∃ m resolved, w.Offers host name m ∧
            (m.resolveOptions (w.display options)).result.1 = .ok resolved) ∧
          ∀ q, w.processors[id]? = some q → ¬w.Copies q) := by
  obtain ⟨data, hdata, hvalid⟩ := hvalid
  obtain ⟨q, hq, rfl⟩ := Option.map_eq_some_iff.mp hdata
  have hlooked := Catalog.lookup_cases (pluginsWith read) name w.catalog
  rw [← hstandard, ← hsurroundings] at hlooked
  rcases hlooked with ⟨m, hoffer⟩ | ⟨d, hunknown⟩
  · have honly (m' : Metadata Attacher) (hoffer' : w.Offers host name m') : m' = m :=
      Except.ok.inj (hoffer'.symm.trans hoffer)
    have hmem : m ∈ pluginsWith read := by
      refine (Catalog.Keeps.lookup (fun _ hm => ?_) ?_ name w.catalog [] hcatalog).2 m hoffer
      · rwa [hstandard] at hm
      · rintro published hpublished p hp
        cases hsurroundings.symm.trans hpublished
        cases hp
    obtain ⟨build, h⟩ := builds_of_mem_plugins hmem
    cases hresolve : (m.resolveOptions (w.display options)).result.1 with
    | ok resolved =>
      -- The attacher resolves the options once more, which cannot fail then.
      obtain ⟨t, -, hbuild⟩ := h.again hkeyed hresolve
      by_cases hcopies : w.Copies q
      · obtain ⟨v, huse, hadded⟩ := h.adds.result_useOn hoffer hq hvalid hcopies hresolve hbuild
        refine .inl ⟨q, t, v, huse, hq, hadded, fun m' hoffer' => ?_⟩
        rw [honly m' hoffer']
        exact Metadata.not_untellable_of_ok h.declares hresolve
      · obtain ⟨type, v, huse, hprocessors, hstore⟩ := result_useOn_uncopied hoffer hresolve hq hvalid hcopies
        refine .inr ⟨_, v, huse, hprocessors, hstore, .inr (.inr ⟨⟨type, rfl⟩, ⟨m, resolved, hoffer, hresolve⟩,
          fun q' hq' => ?_⟩)⟩
        obtain rfl := Option.some.inj (hq.symm.trans hq')
        exact hcopies
    | error f =>
      obtain ⟨c, es, hof⟩ := result_attacherOf_named hoffer options
      rw [hresolve] at hof
      obtain ⟨v, huse, hprocessors, hstore⟩ := result_useOn_refused hof id
      refine .inr ⟨_, v, huse, hprocessors, hstore, ?_⟩
      rcases Metadata.resolveOptions_refuses h.declares h.total hresolve with
        ⟨hviolation, hnot⟩ | ⟨hkind, huntellable⟩
      · obtain ⟨message, hmessage⟩ := refusal_of_violation w name hviolation
        refine .inl ⟨⟨message, f, hmessage⟩, fun m' hoffer' => ?_⟩
        rw [honly m' hoffer']
        exact hnot
      · rw [refusal_of_typeError hkind]
        exact .inr (.inl ⟨hkind, m, hoffer, huntellable⟩)
  · obtain ⟨c, es, hof⟩ := result_attacherOf_looked hunknown options
    obtain ⟨v, huse, hprocessors, hstore⟩ := result_useOn_refused hof id
    obtain ⟨message, hmessage⟩ := refusal_of_unknown w d name
    refine .inr ⟨_, v, huse, hprocessors, hstore, .inl ⟨⟨message, _, hmessage⟩, fun m hoffer => ?_⟩⟩
    cases hunknown.symm.trans hoffer

/-- The plugin for counting words is added to a processor without data. -/
theorem use_adds_words :
    let read : FrontMatter.Reader := fun _ _ => .ok .none
    let host := Host.nested .standard (pluginsWith read) (.ok []) 0
    ∃ (q : Processor) (t : Transformer) (v : World),
      (useOn host 0 (.leaf (.named "word-count")) .none).result { processors := [q] } = (.ok 0, v) ∧
        World.Added { processors := [q] } v 0 q t := by
  intro read host
  obtain ⟨q, hempty, hvalid⟩ : ∃ q : Processor, q.data = .dict [] ∧ World.Valid { processors := [q] } 0 :=
    ⟨⟨"p", by decide, .none, .none, .dict [], Registry.empty⟩, rfl, .dict [], rfl, rfl⟩
  have hoffer : World.Offers { processors := [q] } host "word-count" countWordsPlugin := rfl
  have hkeyed : World.Keyed { processors := [q] } .none := nofun
  have hstandard : host.standard = pluginsWith read := rfl
  have hcatalog : Catalog.All (· ∈ pluginsWith read) ({ processors := [q] } : World).catalog :=
    List.forall_mem_nil _
  rcases use_adds_or_refuses hstandard rfl hcatalog hkeyed hvalid "word-count" with
    ⟨q', t, v, huse, hq, hadded, -⟩ | ⟨f, v, huse, -⟩
  · obtain rfl : q = q' := Option.some.inj hq
    exact ⟨q, t, v, huse, hadded⟩
  · obtain ⟨data, hq, hdata⟩ := hvalid
    obtain rfl := Option.some.inj hq
    have hq : ({ processors := [q] } : World).processors[0]? = some q := rfl
    obtain ⟨u, hadds, -⟩ :=
      builds_countWords.result_useOn_named hoffer hkeyed hq hdata (World.copies_empty hempty) rfl
    cases huse.symm.trans hadds

/-- An option with a number for its name is nothing that the plugin for counting words has something against,
and yet the fault does not say that the plugin was not attached. -/
theorem use_refuses_number :
    let read : FrontMatter.Reader := fun _ _ => .ok .none
    let host := Host.nested .standard (pluginsWith read) (.ok []) 0
    ∃ (q : Processor) (f : Fault) (v : World),
      World.Valid { processors := [q] } 0 ∧ World.Keyed { processors := [q] } (.dict [(.int 1, .int 2)]) ∧
      (useOn host 0 (.leaf (.named "word-count")) (.dict [(.int 1, .int 2)])).result { processors := [q] } =
        (.error f, v) ∧
      f.kind = "TypeError" ∧ f.kind ≠ "PluginAttachError" := by
  intro read host
  obtain ⟨q, hvalid⟩ : ∃ q : Processor, World.Valid { processors := [q] } 0 :=
    ⟨⟨"p", by decide, .none, .none, .dict [], Registry.empty⟩, .dict [], rfl, rfl⟩
  have hkeyed : World.Keyed { processors := [q] } (.dict [(.int 1, .int 2)]) := by
    intro kind entries h
    obtain ⟨-, rfl⟩ := Value.mapping.inj h
    exact List.forall_mem_singleton.mpr rfl
  have hoffer : World.Offers { processors := [q] } host "word-count" countWordsPlugin := rfl
  have huntellable : countWordsPlugin.Untellable (.dict [(.int 1, .int 2)]) := by
    have hkey : Value.equals (.int 1) (.str "field") = false := by
      rw [Bool.eq_false_iff]
      intro h
      cases Value.equals_str_iff.mp h
    have hfield : Entries.get? [(.int 1, .int 2)] "field" = none := by
      simp [Entries.get?, Entries.find?, hkey]
    obtain ⟨resolved, hall⟩ : ∃ resolved, Metadata.resolveAll countWordsPlugin.name [(.int 1, .int 2)]
        countWordsPlugin.parameters [(.int 1, .int 2)] = .ok resolved := by
      refine Metadata.exists_resolveAll (List.forall_mem_singleton.mpr ?_) _ _
      rw [hfield]
      exact ⟨_, .byDefault rfl rfl rfl⟩
    refine ⟨_, resolved, .mapping .dict _, hall, _, List.mem_singleton_self _, fun s hs => ?_⟩
    cases hs
  obtain ⟨c, es, hof⟩ := result_attacherOf_named hoffer (.dict [(.int 1, .int 2)])
  rw [World.display_closed fun _ => rfl] at hof
  cases hresolve : (countWordsPlugin.resolveOptions (.dict [(.int 1, .int 2)])).result.1 with
  | ok resolved => exact absurd huntellable (Metadata.not_untellable_of_ok (by decide) hresolve)
  | error f =>
    rcases Metadata.resolveOptions_refuses (by decide) builds_countWords.total hresolve with
      ⟨-, hnot⟩ | ⟨hkind, -⟩
    · exact absurd huntellable hnot
    · rw [hresolve] at hof
      dsimp only at hof
      rw [refusal_of_typeError hkind] at hof
      obtain ⟨v, huse, -⟩ := result_useOn_refused hof 0
      exact ⟨q, f, v, hvalid, hkeyed, huse, hkind, by rw [hkind]; decide⟩

end Pipeline

end TextPipeline
