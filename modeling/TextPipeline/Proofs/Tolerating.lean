import TextPipeline.Proofs.Naming

/-! Front matter that cannot be read, for a processor that is not strict. A block that its reader refuses, or
that is no mapping, is warned of once, and nothing else is changed; but a fault that is not one of the two with
which the readers say that a block is malformed ends the run. -/

namespace TextPipeline.Pipeline

open TextPipeline.Plugin

/-- A new processor of plain text uses a plugin by its name, with options that its attacher takes. -/
theorem Builds.result_processWith {host : Host} {w : World} {name : String} {m : Metadata Attacher}
    {build : Value → Logged Transformer} {options : Value} {t : Transformer} (h : Builds m build)
    (hoffer : w.Offers host name m) (hclosed : options.Closed) (hkeyed : w.Keyed options)
    (hbuild : (build options).result.1 = .ok t) (value settings : Value) :
    ∃ u, w.Readied u t ∧ (processWith host name options value settings).result w =
      (processOn host (.handle (.processor w.processors.length)) value settings none none).result u := by
  refine result_processWith_of_useOn (fun q hdata => ?_) value settings
  exact h.result_useOn_named (w := { w with processors := w.processors ++ [q] }) hoffer hkeyed
    List.getElem?_concat_length (by rw [hdata]; rfl) (World.copies_empty hdata)
    (by rw [World.display_closed hclosed, hbuild])

end TextPipeline.Pipeline

namespace TextPipeline.Standard

open TextPipeline.Tree TextPipeline.Pipeline TextPipeline.Plugin TextPipeline.FrontMatter

/-- Options that ask for formats and for a key, and not for strictness. -/
structure Lenient (options : Value) (given : Entries) (formats : List Format) (key : String) : Prop where
  closed : options.Closed
  gives : Metadata.Gives options given
  texts : ∀ e ∈ given, ∃ s, e.1 = .str s
  nonempty : formats ≠ []
  asks : Asks formats options
  strict : given.get? "strict" = none ∨ given.get? "strict" = some (.bool false)
  key : given.get? "key" = none ∧ key = "matter" ∨ given.get? "key" = some (.str key)

/-- What lenient options come to for each one that is declared. -/
def lenient (formats : List Format) (key : String) : String → Value
  | "formats" => .list (names formats)
  | "strict" => .bool false
  | _ => .str key

/-- Options that ask for formats say nothing of formats, or list them. -/
theorem Asks.get? {options : Value} {given : Entries} {formats : List Format} (h : Asks formats options)
    (hgives : Metadata.Gives options given) :
    given.get? "formats" = none ∧ names formats = standardFormats ∨
      ∃ v, given.get? "formats" = some v ∧ (v = .list (names formats) ∨ v = .tuple (names formats)) := by
  cases h with
  | absent hstandard =>
    cases hgives
    exact .inl ⟨rfl, hstandard⟩
  | silent hget hstandard =>
    cases hgives
    exact .inl ⟨hget, hstandard⟩
  | list hget =>
    cases hgives
    exact .inr ⟨_, hget, .inl rfl⟩
  | tuple hget =>
    cases hgives
    exact .inr ⟨_, hget, .inr rfl⟩

section Lenient

variable {options : Value} {given : Entries} {formats : List Format} {key : String}
  (h : Lenient options given formats key)
include h

theorem Lenient.keyed (w : World) : w.Keyed options := by
  intro kind entries hentries e he
  obtain ⟨s, hs⟩ : ∃ s, e.1 = .str s := by
    have hgives := h.gives
    cases hgives with
    | none => cases hentries
    | mapping =>
      obtain ⟨-, rfl⟩ := Value.mapping.inj hentries
      exact h.texts e he
  rw [hs]
  rfl

theorem Lenient.resolves (read : Reader) :
    ∀ e ∈ (frontMatterPlugin read).parameters, e.2.Resolves (given.get? e.1) (some (lenient formats key e.1)) := by
  refine List.forall_mem_cons.mpr ⟨?_, List.forall_mem_cons.mpr ⟨?_, List.forall_mem_singleton.mpr ?_⟩⟩
  · show Parameter.Resolves _ (given.get? "formats") (some (.list (names formats)))
    rcases h.asks.get? h.gives with ⟨hget, hstandard⟩ | ⟨v, hget, hv⟩
    · rw [hget, hstandard]
      exact .byDefault rfl rfl rfl
    · have hnames : names formats = (formats.map Format.name).map .str := (List.map_map ..).symm
      rw [hget]
      rw [hnames] at hv ⊢
      refine .given (validate_texts _ rfl rfl rfl hv ?_)
      rintro accepts ⟨⟩
      rw [← hnames]
      exact areFormats_names h.nonempty
  · show Parameter.Resolves _ (given.get? "strict") (some (.bool false))
    rcases h.strict with hget | hget
    · rw [hget]
      exact .byDefault rfl rfl rfl
    · rw [hget]
      exact .given (validate_bool rfl rfl nofun)
  · show Parameter.Resolves _ (given.get? "key") (some (.str key))
    rcases h.key with ⟨hget, hkey⟩ | hget
    · rw [hget, hkey]
      exact .byDefault rfl rfl rfl
    · rw [hget]
      exact .given (validate_str rfl rfl nofun)

/-- The options are taken, and ask for this transformer. -/
theorem Lenient.builds (read : Reader) :
    (frontMatterFor read options).result.1 = .ok (readingMatter read formats false key) := by
  obtain ⟨resolved, hall⟩ := Metadata.exists_resolveAll (fun e he => ⟨_, h.resolves read e he⟩)
    (frontMatterPlugin read).name given
  have hresolve : ((frontMatterPlugin read).resolveOptions options).result.1 = .ok resolved :=
    Metadata.resolveOptions_ok_iff.mpr ⟨given, h.gives, hall, (Metadata.tells_ok_iff (List.cons_ne_nil _ _)).mpr
      fun e he => h.texts e (List.mem_filter.mp he).1⟩
  have hnames : (frontMatterAbout.parameters.map (·.1)).Nodup := by decide
  have hget : ∀ e ∈ (frontMatterPlugin read).parameters, resolved.get? e.1 = some (lenient formats key e.1) :=
    fun e he => (Metadata.resolves_resolveAll hnames (fun _ _ hget => hget) hall e he).unique
      (h.resolves read e he)
  obtain ⟨hformats, hget⟩ := List.forall_mem_cons.mp hget
  obtain ⟨hstrict, hget⟩ := List.forall_mem_cons.mp hget
  have hkey := List.forall_mem_singleton.mp hget
  refine (result_bind_pure (frontMatterAbout.resolveOptions options) _).trans ?_
  have hresolve' : (frontMatterAbout.resolveOptions options).result.1 = .ok resolved := hresolve
  rw [hresolve']
  dsimp only [Except.map] at hformats hstrict hkey ⊢
  rw [hformats, hstrict, hkey]
  rfl

end Lenient

section Run

variable {read : Reader} {host : Host} {w : World} {settings options value : Value} {given : Entries}
  {formats : List Format} {key text : String} {id : Nat} {f : File}
  (h : Lenient options given formats key) (hhost : host.HasPlain)
  (hoffer : w.Offers host (frontMatterPlugin read).name (frontMatterPlugin read)) (hset : Verbatim settings)
  (hvalue : w.Gives value id f) (htext : f.text = .ok text)
include h hhost hoffer hset hvalue htext

/-- A fault of the reader that does not say that the block is malformed ends the run. -/
theorem Lenient.result_breaks {b : Block} {e : Fault} (hfind : find text (names formats) = .ok (some b))
    (hbreaks : b.Breaks read e) :
    ∃ v, (processWith host (frontMatterPlugin read).name options value settings).result w =
      (.error (v.surfaced e.chained), v) := by
  obtain ⟨u, hready, hrun⟩ := (builds_frontMatter read).result_processWith hoffer h.closed (h.keyed w)
    (h.builds read) value settings
  obtain ⟨vs, ss, position, hroot, hpieces⟩ := pieces_readTree settings text
  obtain ⟨fault, f', vs', hcomes, hsettles⟩ := comes_of_block hpieces read b false key f position
  rw [hrun]
  cases hcomes with
  | mapping hholds => exact absurd hholds (hbreaks.not_holds _)
  | warning _ hnot => exact absurd hbreaks (hnot e)
  | failure hstrict => cases hstrict
  | raised hraised =>
    obtain rfl := hbreaks.unique hraised
    exact hready.result_processOn_error hhost hset hvalue htext fun ns =>
      ⟨_, _, hsettles.makes hfind hroot htext ns⟩

/-- Front matter that cannot be read does not end the run of a processor that is not strict. If the reader of
the format refuses the block that was found, or the block is no mapping, then there is just one message more, a
warning, and neither the data of the file nor the tree have changed; if the block is a mapping or has no data,
or there is no block, then there is no message. Only a fault of the reader that does not say that the block is
malformed, or that says so and has no text, ends the run, and it always does. -/
theorem lenient_warns_once :
    ∃ found, find text (names formats) = .ok found ∧
      ((∀ b ∈ found, ∀ e, ¬b.Breaks read e) → ∃ v g tree,
        (processWith host (frontMatterPlugin read).name options value settings).result w =
          (.ok (.str text), v) ∧
        v.files[id]? = some g ∧ v.store.cells = w.store.cells ++ [tree] ∧
        ((∃ b ∈ found, ∀ matter, ¬b.Holds read matter) →
          (∃ d : Diagnostic, d.fatal = .bool false ∧ g.messages = f.messages ++ [d]) ∧ g.data = f.data ∧
            tree = readTree settings text) ∧
        ((∀ b ∈ found, ∃ matter, b.Holds read matter) → g.messages = f.messages)) ∧
      ∀ b ∈ found, ∀ e, b.Breaks read e → ∃ v,
        (processWith host (frontMatterPlugin read).name options value settings).result w =
          (.error (v.surfaced e.chained), v) := by
  obtain ⟨found, hfind⟩ := find_names text formats
  refine ⟨found, hfind, fun hnot => ?_, fun b hb e hbreaks => ?_⟩
  · obtain ⟨u, hready, hrun⟩ := (builds_frontMatter read).result_processWith hoffer h.closed (h.keyed w)
      (h.builds read) value settings
    obtain ⟨vs, ss, position, hroot, hpieces⟩ := pieces_readTree settings text
    cases found with
    | none =>
      obtain ⟨v, ns, hv, -, hcells, hfile⟩ := (settles_none hpieces f position).result_processOn hfind hroot
        hhost hset hready hvalue htext hpieces rfl
      refine ⟨v, _, _, hrun.trans hv, hfile, hcells, ?_, fun _ => rfl⟩
      rintro ⟨b, ⟨⟩, -⟩
    | some b =>
      obtain ⟨fault, f', vs', hcomes, hsettles⟩ := comes_of_block hpieces read b false key f position
      -- The text is written unless the transformer failed; the rest is what came of the block.
      have hdone (hnone : fault = none) := hsettles.result_processOn hfind hroot hhost hset hready hvalue htext
        hpieces hnone
      cases hcomes with
      | mapping hholds =>
        obtain ⟨v, ns, hv, -, hcells, hfile⟩ := hdone rfl
        refine ⟨v, _, _, hrun.trans hv, hfile, hcells, ?_, fun _ => rfl⟩
        rintro ⟨b, ⟨⟩, hspoilt⟩
        exact absurd hholds (hspoilt _)
      | @warning d hspoilt _ hfatal =>
        obtain ⟨v, ns, hv, -, hcells, hfile⟩ := hdone rfl
        refine ⟨v, _, _, hrun.trans hv, hfile, hcells, fun _ => ⟨⟨d, hfatal, rfl⟩, rfl, hroot.symm⟩,
          fun hall => ?_⟩
        obtain ⟨matter, hholds⟩ := hall b rfl
        exact absurd hholds (hspoilt matter)
      | failure hstrict => cases hstrict
      | raised hbreaks => exact absurd hbreaks (hnot b rfl _)
  · obtain rfl : found = some b := hb
    exact h.result_breaks hhost hoffer hset hvalue htext hfind hbreaks

end Run

theorem lenient_none : Lenient .none [] [.yaml, .toml] "matter" where
  closed := fun _ => rfl
  gives := .none
  texts := by simp
  nonempty := by decide
  asks := .absent rfl
  strict := .inl rfl
  key := .inl ⟨rfl, rfl⟩

/-- A number between the fences is no mapping. -/
theorem lenient_warns_once_number :
    let read : Reader := fun _ _ => .ok (.int 1)
    let host := Host.nested .standard (pluginsWith read) (.ok []) 0
    ∃ v g d, (processWith host "frontmatter" .none (.str "---\n1\n---\n") .none).result {} =
        (.ok (.str "---\n1\n---\n"), v) ∧
      v.files[0]? = some g ∧ g.messages = [d] ∧ d.fatal = .bool false ∧ g.data = [] := by
  intro read host
  have hhost : host.HasPlain := ⟨rfl, rfl⟩
  have hoffer : World.Offers {} host "frontmatter" (frontMatterPlugin read) := rfl
  obtain ⟨found, hfound, hlenient, -⟩ := lenient_warns_once lenient_none hhost hoffer verbatim_none
    (.text "---\n1\n---\n") rfl
  have hfind : find "---\n1\n---\n" (names [.yaml, .toml]) =
    .ok (some ⟨.yaml, "1\n", "---\n1\n---\n"⟩) := rfl
  obtain rfl := Except.ok.inj (hfound.symm.trans hfind)
  obtain ⟨u, g, tree, hrun, hfile, -, hwarned, -⟩ := hlenient fun b hb e hbreaks => by
    rcases hbreaks with ⟨⟨⟩, -⟩ | ⟨_, ⟨⟩, -⟩
  obtain ⟨⟨d, hfatal, hmessages⟩, hdata, -⟩ := hwarned ⟨_, rfl, by rintro matter (⟨⟨⟩, -⟩ | ⟨⟨⟩⟩)⟩
  exact ⟨u, g, d, hrun, hfile, hmessages, hfatal, hdata⟩

/-- A date in a month that there is not ends the run, with a fault of which nothing is said in the file. -/
theorem lenient_breaks_date :
    let wrong : Fault := .raised "ValueError" [.str "month must be in 1..12"]
    let read : Reader := fun _ raw => if raw = "2020-13-45\n" then .error wrong else .ok .none
    let host := Host.nested .standard (pluginsWith read) (.ok []) 0
    ∃ v, (processWith host "frontmatter" .none (.str "---\n2020-13-45\n---\n") .none).result {} =
      (.error wrong, v) := by
  intro wrong read host
  have hfind : find "---\n2020-13-45\n---\n" (names [.yaml, .toml]) =
    .ok (some ⟨.yaml, "2020-13-45\n", "---\n2020-13-45\n---\n"⟩) := rfl
  have hread : read .yaml "2020-13-45\n" = .error wrong := if_pos rfl
  have hbreaks : Block.Breaks read ⟨.yaml, "2020-13-45\n", "---\n2020-13-45\n---\n"⟩ wrong :=
    .inl ⟨hread, by unfold Block.SaysMalformed; decide⟩
  have hhost : host.HasPlain := ⟨rfl, rfl⟩
  have hoffer : World.Offers {} host "frontmatter" (frontMatterPlugin read) := rfl
  obtain ⟨v, hv⟩ := lenient_none.result_breaks hhost hoffer verbatim_none
    (.text "---\n2020-13-45\n---\n") rfl hfind hbreaks
  have hsaid : v.textOf (.error wrong.chained) = .ok "month must be in 1..12" := rfl
  rw [World.surfaced_eq hsaid] at hv
  exact ⟨v, hv⟩

end TextPipeline.Standard
