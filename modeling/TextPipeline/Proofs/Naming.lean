import TextPipeline.Proofs.Marking
import TextPipeline.Proofs.Resolving

/-! Plugins that are attached by their name or by their attacher. What is given for the options of a standard
plugin is looked at twice if the plugin is attached by its name: when the name is looked up, and by the
attacher, which gets what was given in the place of what was seen of it. Both times the same is seen of an
option that is taken, so both ways come to the same transformer. -/

namespace TextPipeline.Value

/-- A text, a truth value, or a sequence of texts. -/
inductive Spoken : Value → Prop
  | str (s : String) : Spoken (.str s)
  | bool (b : Bool) : Spoken (.bool b)
  | list (texts : List String) : Spoken (.list (texts.map .str))
  | tuple (texts : List String) : Spoken (.tuple (texts.map .str))

theorem closed_texts (texts : List String) : ∀ v ∈ texts.map Value.str, v.Closed := by
  intro v hv
  obtain ⟨s, -, rfl⟩ := List.mem_map.mp hv
  exact fun _ => rfl

theorem Spoken.closed {v : Value} (h : v.Spoken) : v.Closed := by
  cases h with
  | str s => exact fun _ => rfl
  | bool b => exact fun _ => rfl
  | list texts => exact closed_list.mpr (closed_texts texts)
  | tuple texts => exact closed_sequence.mpr (closed_texts texts)

section Reveal

variable {shown shown' : Handle → Value}

theorem revealList_eq_map (items : List Value) :
    revealList shown items = items.map fun v => v.revealWith shown := by
  induction items with
  | nil => rfl
  | cons v rest ih => rw [revealList, ih, List.map_cons]

theorem revealEntries_eq_map (entries : List (Value × Value)) :
    revealEntries shown entries = entries.map fun e => (e.1.revealWith shown, e.2.revealWith shown) := by
  induction entries with
  | nil => rfl
  | cons e rest ih => rw [revealEntries, ih, List.map_cons]

/-- What is seen as a text is this text, or refers to what is seen so. -/
theorem of_revealWith_str {v : Value} {s : String} (h : v.revealWith shown = .str s) :
    v = .str s ∨ ∃ handle, v = .handle handle ∧ shown handle = .str s := by
  cases v with
  | str t => exact .inl h
  | handle handle => exact .inr ⟨handle, rfl, h⟩
  | _ => cases h

/-- Where all that is seen as texts is seen so in another way, too, sequences of texts are. -/
theorem revealList_texts (hshown : ∀ handle s, shown handle = .str s → shown' handle = .str s)
    {items : List Value} {texts : List String} (h : revealList shown items = texts.map .str) :
    revealList shown' items = texts.map .str := by
  induction items generalizing texts with
  | nil => exact h
  | cons v rest ih =>
    cases texts with
    | nil => cases h
    | cons s texts =>
      obtain ⟨hv, hrest⟩ := List.cons.inj h
      rw [revealList, ih hrest, List.map_cons]
      rcases of_revealWith_str hv with rfl | ⟨handle, rfl, hs⟩
      · rfl
      · exact congrArg (· :: _) (hshown handle s hs)

theorem Spoken.revealWith_congr (hshown : ∀ handle, (shown handle).Spoken → shown' handle = shown handle)
    {v : Value} (h : (v.revealWith shown).Spoken) : v.revealWith shown' = v.revealWith shown := by
  have hstr (handle : Handle) (s : String) (hs : shown handle = .str s) : shown' handle = .str s := by
    rw [hshown handle (by rw [hs]; exact .str s), hs]
  cases v with
  | handle handle => exact hshown handle h
  | str | bool => rfl
  | list items =>
    rw [revealWith] at h ⊢
    generalize hitems : revealList shown items = seen at h
    cases h with
    | list texts => rw [revealWith, hitems, revealList_texts hstr hitems]
  | sequence kind items =>
    rw [revealWith] at h ⊢
    generalize hitems : revealList shown items = seen at h
    cases h with
    | tuple texts => rw [revealWith, hitems, revealList_texts hstr hitems]
  | _ => cases h

/-- What is seen of values that are shown as something else is not spoken. -/
theorem Spoken.of_revealWith (hshown : ∀ handle, ¬(shown handle).Spoken) {v : Value}
    (h : (v.revealWith shown).Spoken) : v.Spoken := by
  have hitem {v : Value} {s : String} (h : v.revealWith shown = .str s) : v = .str s := by
    rcases of_revealWith_str h with hv | ⟨handle, -, hs⟩
    · exact hv
    · exact absurd (hs ▸ .str s) (hshown handle)
  have hlist {items : List Value} {texts : List String} (h : revealList shown items = texts.map .str) :
      items = texts.map .str := by
    induction items generalizing texts with
    | nil => exact h
    | cons v rest ih =>
      cases texts with
      | nil => cases h
      | cons s texts =>
        obtain ⟨hv, hrest⟩ := List.cons.inj h
        rw [hitem hv, ih hrest, List.map_cons]
  cases v with
  | handle handle => exact absurd h (hshown handle)
  | str s => exact .str s
  | bool b => exact .bool b
  | list items =>
    rw [revealWith] at h
    generalize hitems : revealList shown items = seen at h
    cases h with
    | list texts => exact hlist hitems ▸ .list texts
  | sequence kind items =>
    rw [revealWith] at h
    generalize hitems : revealList shown items = seen at h
    cases h with
    | tuple texts => exact hlist hitems ▸ .tuple texts
  | _ => cases h

end Reveal

end TextPipeline.Value

namespace TextPipeline.Plugin.Parameter

/-- A parameter for a text, a truth value or a list of texts. -/
def Simple (p : Parameter) : Prop :=
  p.type = .str ∨ p.type = .bool ∨ p.type = .list ∧ p.elementType = some .str

variable {p : Parameter} {given v : Value}

theorem texts_of_strayElement {i : Nat} {items : List Value} (h : strayElement .str i items = none) :
    ∃ texts : List String, items = texts.map .str := by
  induction items generalizing i with
  | nil => exact ⟨[], rfl⟩
  | cons v rest ih =>
    rw [strayElement] at h
    cases v with
    | str s =>
      obtain ⟨texts, rfl⟩ := ih h
      exact ⟨s :: texts, rfl⟩
    | _ => cases h

/-- The elements of a list that a parameter has taken are of their type. -/
theorem checkElements_of_validate (h : p.validate given = .ok v) : p.checkElements v = .ok () := by
  obtain ⟨rfl, -, -⟩ := of_validate h
  unfold validate at h
  dsimp only at h
  split at h
  · obtain ⟨⟨⟩, helements, -⟩ := Outcome.of_bind_ok h
    exact helements
  · cases h

theorem coerce_of_ne (htype : p.type ≠ .list) (v : Value) : p.coerce v = v := by
  unfold coerce
  split
  · exact absurd ‹_› htype
  · rfl

theorem Simple.spoken (hp : p.Simple) (h : p.validate given = .ok v) : given.Spoken := by
  obtain ⟨hv, -, -⟩ := of_validate h
  rcases hp with htype | htype | ⟨htype, helement⟩
  · obtain ⟨s, rfl⟩ := of_validate_str htype h
    rw [coerce_of_ne (by rw [htype]; nofun)] at hv
    exact hv ▸ .str s
  · obtain ⟨b, rfl⟩ := of_validate_bool htype h
    rw [coerce_of_ne (by rw [htype]; nofun)] at hv
    exact hv ▸ .bool b
  · obtain ⟨items, rfl, hgiven⟩ := of_validate_list htype h
    have helements := checkElements_of_validate h
    unfold checkElements at helements
    obtain ⟨texts, rfl⟩ : ∃ texts : List String, items = texts.map .str := by
      refine texts_of_strayElement (i := 0) ?_
      simp only [htype, helement] at helements
      split at helements
      · cases helements
      · assumption
    rcases hgiven with rfl | rfl
    · exact .list texts
    · exact .tuple texts

/-- A default of which there is none is no matter. -/
theorem Coherent.of_isNone (h : p.default.isNone = true) : p.Coherent :=
  ⟨fun hdefault => absurd (hdefault.symm.trans h) Bool.false_ne_true,
    fun hdefault => absurd (hdefault.symm.trans h) Bool.false_ne_true⟩

theorem inspectList_texts (texts : List String) : ∃ said, Value.inspectList (texts.map .str) = .ok said := by
  induction texts with
  | nil => exact ⟨_, by rw [List.map_nil, Value.inspectList]⟩
  | cons s texts ih =>
    obtain ⟨said, hsaid⟩ := ih
    exact ⟨_, by rw [List.map_cons, Value.inspectList, Value.inspect, hsaid]; rfl⟩

/-- What a validator of texts, truth values or lists of texts is asked about has a text. -/
theorem Simple.total (hp : p.Simple) (hcopied : ∃ v, p.copied = .ok v) (hchoices : p.choices = .none)
    (hvalidator : ∀ accepts, p.validator = some accepts → ∀ v, ∃ b, accepts v = .ok b) : p.Total := by
  refine ⟨hcopied, hchoices, hvalidator, fun v haccepts helements => ?_⟩
  rcases hp with htype | htype | ⟨htype, helement⟩
  all_goals rw [htype] at haccepts
  · cases v with
    | str s => exact ⟨s, by rw [Value.render]⟩
    | _ => cases haccepts
  · cases v with
    | bool b => exact ⟨_, by unfold Value.render Value.inspect; rfl⟩
    | _ => cases haccepts
  · cases v with
    | list items =>
      unfold checkElements at helements
      obtain ⟨texts, rfl⟩ : ∃ texts : List String, items = texts.map .str := by
        refine texts_of_strayElement (i := 0) ?_
        simp only [htype, helement] at helements
        split at helements
        · cases helements
        · assumption
      obtain ⟨said, hsaid⟩ := inspectList_texts texts
      exact ⟨_, by unfold Value.render Value.inspect; rw [hsaid]; rfl⟩
    | _ => cases haccepts

end TextPipeline.Plugin.Parameter

namespace TextPipeline.Pipeline

open TextPipeline.Plugin

/-! ### What is seen of a value -/

/-- What is seen as a spoken value is seen so at a greater depth, too. -/
theorem Store.revealWithin_spoken (s : Store) (n : Nat) (v : Value) (h : (s.revealWithin n v).Spoken) :
    s.revealWithin (n + 1) v = s.revealWithin n v := by
  induction n generalizing v with
  | zero => exact h.closed _
  | succ n ih =>
    refine Value.Spoken.revealWith_congr (fun handle hseen => ?_) h
    cases hcontent : s.content? handle with
    | none => rfl
    | some c =>
      simp only [hcontent] at hseen
      exact ih c hseen

namespace World

variable {w : World} {n : Nat}

/-- A value as it is seen down to a depth. -/
def displayWithin (w : World) (n : Nat) (v : Value) : Value :=
  (w.store.revealWithin (n + 1) v).revealWith w.describe

theorem display_eq (w : World) (v : Value) : w.display v = w.displayWithin w.store.cells.length v := rfl

theorem displayWithin_mapping (w : World) (n : Nat) (kind : MappingKind) (entries : Entries) :
    w.displayWithin n (.mapping kind entries) =
      .mapping kind (entries.map fun e => (w.displayWithin n e.1, w.displayWithin n e.2)) := by
  simp only [displayWithin, Store.revealWithin, Value.revealWith, Value.revealEntries_eq_map, List.map_map,
    Function.comp_def]

theorem displayWithin_list (w : World) (n : Nat) (items : List Value) :
    w.displayWithin n (.list items) = .list (items.map (w.displayWithin n)) := by
  simp only [displayWithin, Store.revealWithin, Value.revealWith, Value.revealList_eq_map, List.map_map]
  rfl

theorem displayWithin_sequence (w : World) (n : Nat) (kind : SequenceKind) (items : List Value) :
    w.displayWithin n (.sequence kind items) = .sequence kind (items.map (w.displayWithin n)) := by
  simp only [displayWithin, Store.revealWithin, Value.revealWith, Value.revealList_eq_map, List.map_map]
  rfl

theorem displayWithin_handle {h : Handle} {c : Value} (hc : w.store.content? h = some c) (n : Nat) :
    w.displayWithin (n + 1) (.handle h) = w.displayWithin n c := by
  rw [displayWithin, Store.revealWithin, Value.revealWith, hc]
  rfl

theorem displayWithin_closed {v : Value} (h : v.Closed) (w : World) (n : Nat) : w.displayWithin n v = v := by
  have hreveal : w.store.revealWithin (n + 1) v = v := h _
  rw [displayWithin, hreveal, h]

/-- An option that is spoken is seen as it is one level deeper, too. -/
theorem displayWithin_spoken {v : Value} (h : (w.displayWithin n v).Spoken) :
    w.displayWithin (n + 1) v = w.displayWithin n v := by
  have hseen : (w.store.revealWithin (n + 1) v).Spoken := h.of_revealWith fun handle hshown => by
    cases handle <;> cases hshown
  rw [displayWithin, w.store.revealWithin_spoken _ _ hseen]
  rfl

/-- A key is seen as a text if it is one. -/
theorem displayWithin_key {key : Value} (hkey : key.isKey = true) {s : String} :
    w.displayWithin n key = .str s ↔ key = .str s := by
  refine ⟨fun h => ?_, fun h => by rw [h, displayWithin_closed fun _ => rfl]⟩
  rcases Value.of_revealWith_str h with h | ⟨_, -, hs⟩
  · rcases Value.of_revealWith_str h with h | ⟨handle, rfl, hs⟩
    · exact h
    · -- Nothing is kept of an object that can be a key.
      have hnone : w.store.content? handle = none := by
        cases handle with
        | node | list | dict => cases hkey
        | _ => rfl
      rw [hnone] at hs
      cases hs
  · cases ‹Handle› <;> cases hs

theorem get?_displayWithin {entries : Entries} (hkeys : ∀ e ∈ entries, e.1.isKey = true) (name : String) :
    Entries.get? (entries.map fun e => (w.displayWithin n e.1, w.displayWithin n e.2)) name =
      (Entries.get? entries name).map (w.displayWithin n) := by
  unfold Entries.get? Entries.find?
  induction entries with
  | nil => rfl
  | cons e rest ih =>
    obtain ⟨he, hrest⟩ := List.forall_mem_cons.mp hkeys
    have hsame : (w.displayWithin n e.1).equals (.str name) = e.1.equals (.str name) := by
      rw [Bool.eq_iff_iff, Value.equals_str_iff, Value.equals_str_iff, displayWithin_key he]
    rw [List.map_cons, List.find?_cons, List.find?_cons, hsame]
    cases e.1.equals (.str name) with
    | true => rfl
    | false => exact ih hrest

/-- The keys of options can be keys. -/
def Keyed (w : World) (options : Value) : Prop :=
  ∀ kind entries, w.store.content options = .mapping kind entries → ∀ e ∈ entries, e.1.isKey = true

/-- Options are seen through their entries. -/
theorem display_of_content {options : Value} {kind : MappingKind} {entries : Entries}
    (h : w.store.content options = .mapping kind entries) :
    ∃ n, (n = w.store.cells.length ∨ n + 1 = w.store.cells.length) ∧
      w.display options =
        .mapping kind (entries.map fun e => (w.displayWithin n e.1, w.displayWithin n e.2)) := by
  cases options with
  | handle handle =>
    cases hcontent : w.store.content? handle with
    | none =>
      rw [Store.content, hcontent] at h
      cases h
    | some c =>
      rw [Store.content, hcontent] at h
      obtain rfl : c = .mapping kind entries := h
      obtain ⟨i, -, hi⟩ := Option.bind_eq_some_iff.mp hcontent
      obtain ⟨n, hn⟩ : ∃ n, w.store.cells.length = n + 1 :=
        ⟨_, (Nat.succ_pred (Nat.ne_of_gt (Nat.zero_lt_of_lt (List.getElem?_eq_some_iff.mp hi).1))).symm⟩
      exact ⟨n, .inr hn.symm, by rw [display_eq, hn, displayWithin_handle hcontent, displayWithin_mapping]⟩
  | mapping kind' entries' =>
    obtain ⟨rfl, rfl⟩ := Value.mapping.inj h
    exact ⟨_, .inl rfl, by rw [display_eq, displayWithin_mapping]⟩
  | _ => cases h

end World


/-! ### Options that are looked at twice -/

section Kept

variable {w : World} {options : Value}

/-- What is given on for an option is taken as the value that was taken for it. -/
theorem World.validate_givenFor {p : Parameter} (hp : p.Simple) {kind : MappingKind} {entries : Entries}
    {key r v : Value} {n : Nat} (hn : n = w.store.cells.length ∨ n + 1 = w.store.cells.length)
    (hfind : entries.find? key = some r) (h : p.validate (w.displayWithin n r) = .ok v) :
    p.validate (w.display (givenFor (.mapping kind entries) key v)) = .ok v := by
  have hdeeper (x : Value) (hx : (w.displayWithin n x).Spoken) : w.display x = w.displayWithin n x := by
    rcases hn with rfl | hn
    · rfl
    · rw [display_eq, ← hn, displayWithin_spoken hx]
  have hspoken := hp.spoken h
  by_cases hlisted : ∃ items items', r = .tuple items ∧ v = .list items'
  · -- A fixed sequence was taken as a list, and the list of what was given is given on.
    obtain ⟨items, items', rfl, rfl⟩ := hlisted
    have hgiven : givenFor (.mapping kind entries) key (.list items') = .list items := by
      unfold givenFor
      dsimp only
      rw [hfind]
    have hitems : items' = items.map (w.displayWithin n) := by
      obtain ⟨hv, -, -⟩ := of_validate h
      rw [Value.tuple, displayWithin_sequence] at hv
      unfold Parameter.coerce at hv
      split at hv
      · rename_i heq
        obtain ⟨-, rfl⟩ := Value.sequence.inj heq
        exact Value.list.inj hv
      · cases hv
    have hlist : (w.displayWithin n (.list items)).Spoken := by
      rw [Value.tuple, displayWithin_sequence] at hspoken
      rw [displayWithin_list]
      generalize items.map (w.displayWithin n) = seen at hspoken
      cases hspoken with
      | tuple texts => exact .list texts
    rw [hgiven, hdeeper _ hlist, displayWithin_list, ← hitems]
    exact Parameter.validate_validated h
  · have hgiven : givenFor (.mapping kind entries) key v = r := by
      unfold givenFor
      dsimp only
      rw [hfind]
      split
      · rename_i heq
        exact absurd ⟨_, _, Option.some.inj heq, rfl⟩ hlisted
      · rename_i heq _
        exact (Option.some.inj heq).symm
      · cases ‹some r = none›
    rw [hgiven, hdeeper r hspoken, h]

/-- An option that is declared is resolved to the same from what is given on for it. -/
theorem World.resolves_givenFor {p : Parameter} (hp : p.Simple) (hcoherent : p.Coherent)
    (hkeyed : w.Keyed options) {given : Entries} (hgiven : Metadata.Gives (w.display options) given)
    {name : String} {o : Option Value} (h : p.Resolves (given.get? name) o) :
    p.Resolves (o.map fun v => w.display (givenFor (w.store.content options) (.str name) v)) o := by
  have hself {v : Value} (hv : p.validate v = .ok v) : p.validate (w.display v) = .ok v := by
    rw [World.display_closed (hp.spoken hv).closed, hv]
  by_cases hmapping : ∃ kind entries, w.store.content options = .mapping kind entries
  · obtain ⟨kind, entries, hcontent⟩ := hmapping
    obtain ⟨n, hn, hdisplay⟩ := World.display_of_content hcontent
    have hget : given.get? name = (Entries.get? entries name).map (w.displayWithin n) := by
      rw [hdisplay] at hgiven
      cases hgiven
      exact World.get?_displayWithin (hkeyed kind entries hcontent) name
    rw [hcontent]
    rw [hget] at h
    cases hfind : Entries.get? entries name with
    | none =>
      rw [hfind] at h
      have hsame (v : Value) : givenFor (.mapping kind entries) (.str name) v = v := by
        unfold givenFor
        dsimp only
        rw [show Entries.find? entries (.str name) = none from hfind]
      cases h with
      | byDefault _ hdefault hcopied =>
        rw [Option.map_some, hsame]
        exact .given (hself (hcoherent.validate_copied hdefault hcopied))
      | absent hrequired hnone => exact .absent hrequired hnone
    | some r =>
      rw [hfind] at h
      cases h with
      | given hv => exact .given (World.validate_givenFor hp hn hfind hv)
  · have hsame (v : Value) : givenFor (w.store.content options) (.str name) v = v := by
      unfold givenFor
      split
      · exact absurd ⟨_, _, ‹_›⟩ hmapping
      · rfl
    generalize given.get? name = asked at h
    cases h with
    | given hv =>
      rw [Option.map_some, hsame]
      exact .given (hself (Parameter.validate_validated hv))
    | byDefault _ hdefault hcopied =>
      rw [Option.map_some, hsame]
      exact .given (hself (hcoherent.validate_copied hdefault hcopied))
    | absent hrequired hnone => exact .absent hrequired hnone

/-- The options that are taken have names. -/
theorem texts_of_resolveOptions {α : Type} {m : Metadata α} (hdeclared : m.parameters ≠ [])
    {given : Value} {resolved : Entries} (h : (m.resolveOptions given).result.1 = .ok resolved) :
    ∀ e ∈ resolved, ∃ s, e.1 = .str s := by
  obtain ⟨entries, -, hall, htells⟩ := Metadata.resolveOptions_ok_iff.mp h
  intro e he
  cases hd : m.declares e.1 with
  | true => exact Metadata.str_of_declares hd
  | false =>
    have hmem : e ∈ m.undeclared entries := by
      rw [← Metadata.undeclared_resolveAll hall]
      exact List.mem_filter.mpr ⟨he, by rw [hd]; rfl⟩
    exact (Metadata.tells_ok_iff hdeclared).mp htells e hmem

/-- What is given on for options that were taken is taken again, as the same. -/
theorem World.resolveOptions_kept {α : Type} {m : Metadata α} (hm : m.Coherent)
    (hsimple : ∀ e ∈ m.parameters, e.2.Simple) (hdeclared : m.parameters ≠ []) (hkeyed : w.Keyed options)
    {resolved : Entries} (h : (m.resolveOptions (w.display options)).result.1 = .ok resolved) :
    ∃ again, (m.resolveOptions
        (w.display (.dict (keepGiven (w.store.content options) resolved)))).result.1 = .ok again ∧
      ∀ e ∈ m.parameters, again.get? e.1 = resolved.get? e.1 := by
  have htexts := texts_of_resolveOptions hdeclared h
  obtain ⟨given, hgiven, hall, htells⟩ := Metadata.resolveOptions_ok_iff.mp h
  have hkeys : ∀ e ∈ keepGiven (w.store.content options) resolved, ∃ s, e.1 = .str s := by
    intro e he
    rw [keepGiven_eq] at he
    obtain ⟨e', he', rfl⟩ := List.mem_map.mp he
    exact htexts e' he'
  rw [World.display_eq, Value.dict, World.displayWithin_mapping]
  refine Metadata.resolveOptions_alike hm.names htells (fun e he => ?_) ?_
  · rw [World.get?_displayWithin fun e he => by obtain ⟨s, hs⟩ := hkeys e he; rw [hs]; rfl,
      get?_keepGiven, Option.map_map]
    exact World.resolves_givenFor (hsimple e he) (hm.parameters e he) hkeyed hgiven
      (Metadata.resolves_resolveAll hm.names (fun _ _ hget => hget) hall e he)
  · rw [← Metadata.undeclared_resolveAll hall, Metadata.map_undeclared, Metadata.map_undeclared, keepGiven_eq,
      List.map_map, List.map_map]
    refine congrArg _ (List.map_congr_left fun e he => ?_)
    obtain ⟨s, hs⟩ := htexts e he
    exact (congrArg _ hs).trans ((World.displayWithin_closed (fun _ => rfl) _ _).trans hs.symm)

end Kept

/-! ### Plugins -/

/-- A plugin that adds the transformer that it makes of what its options are resolved to, of which only those
matter that it declares. -/
structure Builds (m : Metadata Attacher) (build : Value → Logged Transformer) : Prop where
  adds : Adds m.attacher build
  coherent : m.Coherent
  simple : ∀ e ∈ m.parameters, e.2.Simple
  total : ∀ e ∈ m.parameters, e.2.Total
  declares : m.parameters ≠ []
  resolves : ∃ make : Entries → Transformer,
    (∀ options, (build options).result.1 = (m.resolveOptions options).result.1.map make) ∧
      ∀ es es', (∀ e ∈ m.parameters, Entries.get? es e.1 = Entries.get? es' e.1) → make es = make es'

section Builds

variable {host : Host} {w v v' : World} {m : Metadata Attacher} {build : Value → Logged Transformer}
  {options : Value} {id : Nat}

/-- Whether options are taken by the attacher or when the name is looked up, the same is made of them. -/
theorem Builds.again (h : Builds m build) (hkeyed : w.Keyed options) {resolved : Entries}
    (hresolve : (m.resolveOptions (w.display options)).result.1 = .ok resolved) :
    ∃ t, (build (w.display options)).result.1 = .ok t ∧
      (build (w.display (.dict (keepGiven (w.store.content options) resolved)))).result.1 = .ok t := by
  obtain ⟨make, hbuild, hmake⟩ := h.resolves
  obtain ⟨again, hagain, hsame⟩ :=
    World.resolveOptions_kept h.coherent h.simple h.declares hkeyed hresolve
  refine ⟨make resolved, by rw [hbuild, hresolve]; rfl, ?_⟩
  rw [hbuild, hagain, hmake resolved again fun e he => (hsame e he).symm]
  rfl

section Use

variable {name : String} (h : Builds m build) (hoffer : w.Offers host name m) (hkeyed : w.Keyed options)
include h

/-- What the attacher of a plugin has added it made of the options that it was given. -/
theorem Builds.of_useOn_attacher {r : Nat}
    (huse : (useOn host id (.leaf (.attacher m.attacher)) options).result w = (.ok r, v)) :
    r = id ∧ ∃ q t, w.processors[id]? = some q ∧ (w.reveal q.data).validateData "data" = .ok () ∧
      w.Copies q ∧ (build (w.display options)).result.1 = .ok t ∧ w.Added v id q t := by
  rw [useOn_leaf] at huse
  exact h.adds.of_attach huse

/-- The attacher of a plugin adds what it makes of options that it takes. -/
theorem Builds.result_useOn_attacher (host : Host) {q : Processor} {t : Transformer}
    (hq : w.processors[id]? = some q) (hvalid : (w.reveal q.data).validateData "data" = .ok ())
    (hcopies : w.Copies q)
    (hbuild : (build (w.display options)).result.1 = .ok t) :
    ∃ v, (useOn host id (.leaf (.attacher m.attacher)) options).result w = (.ok id, v) ∧
      w.Added v id q t := by
  rw [useOn_leaf]
  exact h.adds.result_attach hbuild hq hvalid hcopies host _

include hoffer hkeyed

/-- What a plugin has added that was used by its name, its attacher makes of the same options. -/
theorem Builds.of_useOn_named {r : Nat}
    (huse : (useOn host id (.leaf (.named name)) options).result w = (.ok r, v)) :
    r = id ∧ ∃ q t, w.processors[id]? = some q ∧ (w.reveal q.data).validateData "data" = .ok () ∧
      w.Copies q ∧ (build (w.display options)).result.1 = .ok t ∧ w.Added v id q t := by
  obtain ⟨rfl, q, resolved, t, hq, hvalid, hcopies, hresolve, hbuild, hadded⟩ := h.adds.of_useOn hoffer huse
  obtain ⟨t', hfirst, hagain⟩ := h.again hkeyed hresolve
  obtain rfl := Except.ok.inj (hagain.symm.trans hbuild)
  exact ⟨rfl, q, t', hq, hvalid, hcopies, hfirst, hadded⟩

/-- A plugin that is used by its name adds what its attacher makes of the same options. -/
theorem Builds.result_useOn_named {q : Processor} {t : Transformer} (hq : w.processors[id]? = some q)
    (hvalid : (w.reveal q.data).validateData "data" = .ok ()) (hcopies : w.Copies q)
    (hbuild : (build (w.display options)).result.1 = .ok t) :
    ∃ v, (useOn host id (.leaf (.named name)) options).result w = (.ok id, v) ∧ w.Added v id q t := by
  obtain ⟨make, hmake, -⟩ := h.resolves
  cases hresolve : (m.resolveOptions (w.display options)).result.1 with
  | error f =>
    rw [hmake, hresolve] at hbuild
    cases hbuild
  | ok resolved =>
    obtain ⟨t', hfirst, hagain⟩ := h.again hkeyed hresolve
    obtain rfl := Except.ok.inj (hfirst.symm.trans hbuild)
    exact h.adds.result_useOn hoffer hq hvalid hcopies hresolve hagain

end Use

end Builds

theorem result_bind_pure {α β : Type} (x : Logged α) (f : α → β) :
    (x >>= fun a => pure (f a)).result.1 = x.result.1.map f := by
  obtain ⟨o, records, h⟩ : ∃ o records, x.result = (o, records) := ⟨_, _, rfl⟩
  cases o with
  | error e => rw [Logged.result_bind_error h, h]; rfl
  | ok a => rw [Logged.result_bind_ok h, h]; rfl

section Standard

open Standard

theorem builds_frontMatter (read : FrontMatter.Reader) :
    Builds (frontMatterPlugin read) (frontMatterFor read) where
  adds := adds_readingMatter read
  coherent := by
    have hnames : (frontMatterAbout.parameters.map (·.1)).Nodup := by decide
    refine ⟨hnames, List.forall_mem_cons.mpr ⟨.of_builtin nofun rfl ?_, List.forall_mem_cons.mpr
      ⟨.of_builtin nofun rfl (validate_bool rfl rfl nofun), List.forall_mem_singleton.mpr
        (.of_builtin nofun rfl (validate_str rfl rfl nofun))⟩⟩⟩
    refine validate_texts ["yaml", "toml"] rfl rfl rfl (.inl rfl) ?_
    rintro accepts ⟨⟩
    exact areFormats_names (show [FrontMatter.Format.yaml, .toml] ≠ [] by decide)
  simple := List.forall_mem_cons.mpr ⟨.inr (.inr ⟨rfl, rfl⟩), List.forall_mem_cons.mpr
    ⟨.inr (.inl rfl), List.forall_mem_singleton.mpr (.inl rfl)⟩⟩
  total := by
    refine List.forall_mem_cons.mpr ⟨Parameter.Simple.total (.inr (.inr ⟨rfl, rfl⟩)) ⟨_, rfl⟩ rfl ?_,
      List.forall_mem_cons.mpr ⟨Parameter.Simple.total (.inr (.inl rfl)) ⟨_, rfl⟩ rfl nofun,
        List.forall_mem_singleton.mpr (Parameter.Simple.total (.inl rfl) ⟨_, rfl⟩ rfl nofun)⟩⟩
    rintro accepts ⟨⟩ v
    cases v <;> exact ⟨_, rfl⟩
  declares := List.cons_ne_nil _ _
  resolves := by
    refine ⟨_, fun options => result_bind_pure _ _, fun es es' h => ?_⟩
    obtain ⟨hformats, h⟩ := List.forall_mem_cons.mp h
    obtain ⟨hstrict, h⟩ := List.forall_mem_cons.mp h
    obtain ⟨hkey, -⟩ := List.forall_mem_cons.mp h
    dsimp only at hformats hstrict hkey ⊢
    rw [hformats, hstrict, hkey]

theorem builds_removeNodes : Builds removeNodesPlugin removeNodesFor where
  adds := fun _ _ => rfl
  coherent := ⟨by decide, List.forall_mem_singleton.mpr (.of_isNone rfl)⟩
  simple := List.forall_mem_singleton.mpr (.inr (.inr ⟨rfl, rfl⟩))
  total := List.forall_mem_singleton.mpr
    (Parameter.Simple.total (.inr (.inr ⟨rfl, rfl⟩)) ⟨_, rfl⟩ rfl nofun)
  declares := by decide
  resolves := by
    refine ⟨_, fun options => result_bind_pure _ _, fun es es' h => ?_⟩
    have htypes := List.forall_mem_singleton.mp h
    dsimp only at htypes ⊢
    rw [htypes]

theorem builds_replaceText : Builds replaceTextPlugin replaceTextFor where
  adds := fun _ _ => rfl
  coherent := ⟨by decide, List.forall_mem_cons.mpr ⟨.of_isNone rfl,
    List.forall_mem_singleton.mpr (.of_isNone rfl)⟩⟩
  simple := List.forall_mem_cons.mpr ⟨.inl rfl, List.forall_mem_singleton.mpr (.inl rfl)⟩
  total := by
    refine List.forall_mem_cons.mpr ⟨Parameter.Simple.total (.inl rfl) ⟨_, rfl⟩ rfl ?_,
      List.forall_mem_singleton.mpr (Parameter.Simple.total (.inl rfl) ⟨_, rfl⟩ rfl nofun)⟩
    rintro accepts ⟨⟩ v
    exact ⟨_, rfl⟩
  declares := by decide
  resolves := by
    refine ⟨_, fun options => result_bind_pure _ _, fun es es' h => ?_⟩
    obtain ⟨hfind, h⟩ := List.forall_mem_cons.mp h
    have hreplace := List.forall_mem_singleton.mp h
    dsimp only at hfind hreplace ⊢
    unfold textOption
    rw [hfind, hreplace]

theorem builds_countWords : Builds countWordsPlugin countWordsFor where
  adds := fun _ _ => rfl
  coherent := by
    refine ⟨by decide, List.forall_mem_singleton.mpr (.of_builtin nofun rfl (validate_str rfl rfl ?_))⟩
    rintro accepts ⟨⟩
    rfl
  simple := List.forall_mem_singleton.mpr (.inl rfl)
  total := by
    refine List.forall_mem_singleton.mpr (Parameter.Simple.total (.inl rfl) ⟨_, rfl⟩ rfl ?_)
    rintro accepts ⟨⟩ v
    exact ⟨_, rfl⟩
  declares := by decide
  resolves := by
    refine ⟨_, fun options => result_bind_pure _ _, fun es es' h => ?_⟩
    have hfield := List.forall_mem_singleton.mp h
    dsimp only at hfield ⊢
    rw [hfield]

theorem builds_of_mem_plugins {read : FrontMatter.Reader} {m : Metadata Attacher}
    (hm : m ∈ pluginsWith read) : ∃ build, Builds m build := by
  simp only [pluginsWith, List.mem_cons, List.not_mem_nil, or_false] at hm
  rcases hm with rfl | rfl | rfl | rfl
  · exact ⟨_, builds_frontMatter read⟩
  · exact ⟨_, builds_removeNodes⟩
  · exact ⟨_, builds_replaceText⟩
  · exact ⟨_, builds_countWords⟩

end Standard

end TextPipeline.Pipeline
