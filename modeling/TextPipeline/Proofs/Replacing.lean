import TextPipeline.Proofs.Options
import TextPipeline.Proofs.Placing
import TextPipeline.Proofs.Revising
import TextPipeline.Standard.Plugins

/-! Replacing text. The occurrences of a text that are replaced are the leftmost ones, each after the end of
the one before it. None of them touches a separator if the text neither has a line break in it nor starts
with padding, and so they can be replaced paragraph by paragraph. -/

namespace TextPipeline.Text

/-- A text with the leftmost occurrence of `find` replaced, then the leftmost one in what follows it, and
so on. -/
inductive Replaced (find new : List Char) : List Char → List Char → Prop
  | last {s : List Char} : ¬ find <:+: s → Replaced find new s s
  | first {before after out : List Char} :
    (∀ a b, a ++ find ++ b = before ++ find ++ after → before.length ≤ a.length) →
    Replaced find new after out → Replaced find new (before ++ find ++ after) (before ++ new ++ out)

variable {find new : List Char}

theorem Replaced.cons {c : Char} {s out : List Char} (h : Replaced find new s out)
    (hc : ¬ find <+: c :: s) : Replaced find new (c :: s) (c :: out) := by
  cases h with
  | last hnone => exact .last fun hinfix => (List.infix_cons_iff.mp hinfix).elim hc hnone
  | @first before after out hleft hrest =>
    show Replaced find new (c :: before ++ find ++ after) (c :: before ++ new ++ out)
    refine .first (fun a b hab => ?_) hrest
    cases a with
    | nil => exact absurd ⟨b, hab⟩ hc
    | cons d a =>
      obtain ⟨-, hab⟩ := List.cons.inj hab
      have := hleft a b hab
      simpa using this

theorem replaced_replaceFrom (hfind : find ≠ []) (skip : Nat) (s : List Char) :
    Replaced find new (s.drop skip) (replaceFrom find new skip s) := by
  have hnil : Replaced find new [] [] := .last fun h => hfind (List.infix_nil.mp h)
  -- The next `skip` characters belong to an occurrence that was already replaced.
  fun_induction replaceFrom find new skip s with
  | case1 skip => simpa using hnil
  | case2 skip c rest ih => simpa using ih
  | case3 c rest hprefix ih =>
    obtain ⟨after, hafter⟩ := List.isPrefixOf_iff_prefix.mp hprefix
    obtain ⟨d, find, rfl⟩ := List.exists_cons_of_ne_nil hfind
    obtain ⟨rfl, hrest⟩ := List.cons.inj hafter
    have hdrop : rest.drop ((d :: find).length - 1) = after := by
      rw [← hrest]
      simp
    rw [hdrop] at ih
    rw [List.drop_zero, ← hafter]
    show Replaced (d :: find) new ([] ++ (d :: find) ++ after) ([] ++ new ++ _)
    exact .first (fun _ _ _ => Nat.zero_le _) ih
  | case4 c rest hprefix ih =>
    exact ih.cons fun h => hprefix (List.isPrefixOf_iff_prefix.mpr h)

/-- There is one way to replace all occurrences. -/
theorem Replaced.unique {s out out' : List Char} (h : Replaced find new s out)
    (h' : Replaced find new s out') : out = out' := by
  induction h generalizing out' with
  | last hnone =>
    cases h' with
    | last => rfl
    | first => exact absurd ⟨_, _, rfl⟩ hnone
  | @first before after out hleft _ ih =>
    generalize hs : before ++ find ++ after = s at h'
    cases h' with
    | last hnone => exact absurd ⟨before, after, hs⟩ hnone
    | @first before' after' out' hleft' hrest =>
      have hlength : before.length = before'.length :=
        Nat.le_antisymm (hleft before' after' hs.symm) (hleft' before after hs)
      rw [List.append_assoc, List.append_assoc] at hs
      obtain ⟨rfl, hrests⟩ := List.append_inj hs hlength
      obtain rfl := List.append_cancel_left hrests
      rw [ih hrest]

theorem replace_eq (hfind : find ≠ []) (s : List Char) : replace find new s = replaceFrom find new 0 s := by
  rw [replace, if_neg (by simpa using hfind)]

theorem replaced_iff (hfind : find ≠ []) {s out : List Char} :
    Replaced find new s out ↔ out = replace find new s := by
  have h : Replaced find new s (replaceFrom find new 0 s) := replaced_replaceFrom hfind 0 s
  rw [replace_eq hfind]
  exact ⟨fun h' => h'.unique h, fun h' => h' ▸ h⟩

theorem prefix_of_append_cons {c : Char} (hc : c ∉ find) {s rest : List Char}
    (h : find <+: s ++ c :: rest) : find <+: s := by
  obtain ⟨after, hafter⟩ := h
  rcases List.append_eq_append_iff.mp hafter with ⟨mid, hs, -⟩ | ⟨mid, hs, hmid⟩
  · exact ⟨mid, hs.symm⟩
  · cases mid with
    | nil => exact ⟨[], by rw [hs]; simp⟩
    | cons d mid =>
      obtain ⟨rfl, -⟩ := List.cons.inj hmid
      exact absurd (by rw [hs]; simp) hc

/-- No occurrence goes over a character that the text sought does not have. -/
theorem replaceFrom_append {c : Char} (hc : c ∉ find) {skip : Nat} {s : List Char} (hskip : skip ≤ s.length)
    (rest : List Char) :
    replaceFrom find new skip (s ++ c :: rest) =
      replaceFrom find new skip s ++ replaceFrom find new 0 (c :: rest) := by
  fun_induction replaceFrom find new skip s with
  | case1 skip =>
    obtain rfl : skip = 0 := Nat.le_zero.mp hskip
    rfl
  | case2 skip d s ih =>
    rw [List.cons_append, replaceFrom, ih (Nat.le_of_succ_le_succ hskip)]
  | case3 d s hprefix ih =>
    have hfind := List.isPrefixOf_iff_prefix.mp hprefix
    have hlonger : find.isPrefixOf (d :: (s ++ c :: rest)) = true :=
      List.isPrefixOf_iff_prefix.mpr (hfind.trans ⟨c :: rest, rfl⟩)
    have hlength : find.length ≤ s.length + 1 := hfind.length_le
    rw [List.cons_append, replaceFrom, if_pos hlonger, ih (by omega), List.append_assoc]
  | case4 d s hprefix ih =>
    have hlonger : ¬ find.isPrefixOf (d :: (s ++ c :: rest)) = true := by
      intro h
      have hfind : find <+: (d :: s) ++ c :: rest := List.isPrefixOf_iff_prefix.mp h
      exact hprefix (List.isPrefixOf_iff_prefix.mpr (prefix_of_append_cons hc hfind))
    rw [List.cons_append, replaceFrom, if_neg hlonger, ih (Nat.zero_le _), List.cons_append]

/-- No occurrence starts among characters with which the text sought does not start. -/
theorem replaceFrom_skip {w : List Char} (hw : ∀ c ∈ w, find.head? ≠ some c) (hfind : find ≠ [])
    (rest : List Char) : replaceFrom find new 0 (w ++ rest) = w ++ replaceFrom find new 0 rest := by
  induction w with
  | nil => rfl
  | cons c w ih =>
    obtain ⟨hc, hw⟩ := List.forall_mem_cons.mp hw
    have hprefix : ¬ find.isPrefixOf (c :: (w ++ rest)) = true := by
      intro h
      obtain ⟨d, f, rfl⟩ := List.exists_cons_of_ne_nil hfind
      obtain ⟨after, hafter⟩ := List.isPrefixOf_iff_prefix.mp h
      exact hc (congrArg some (List.cons.inj hafter).1)
    rw [List.cons_append, replaceFrom, if_neg hprefix, ih hw, List.cons_append]

end TextPipeline.Text

namespace TextPipeline.Grammar.Plain

open TextPipeline.Text TextPipeline.Tree

/-- A text of which no occurrence touches a separator. -/
structure Contained (find : List Char) : Prop where
  line : '\n' ∉ find
  ret : '\r' ∉ find
  pad : ∀ c, isPad c = true → find.head? ≠ some c

def Chunk.replaced (find new : List Char) : Chunk → Chunk
  | .paragraph t => .paragraph (replace find new t)
  | .separator w => .separator w

/-- Text is replaced paragraph by paragraph. -/
theorem Scanned.replace_texts {find new : List Char} (hne : find ≠ []) (hfind : Contained find) {cs : List Chunk}
    (h : Scanned cs) : replace find new (texts cs) = texts (cs.map (Chunk.replaced find new)) := by
  rw [replace_eq hne]
  induction h with
  | nil => rfl
  | @separator w cs hsep _ _ _ ih =>
    -- A separator is of line ends and padding, and an occurrence starts with neither.
    have hw : ∀ c ∈ w, find.head? ≠ some c := by
      intro c hc hhead
      have hmem : c ∈ find := List.mem_of_mem_head? hhead
      rcases hsep.mem c hc with rfl | rfl | hpad
      · exact hfind.line hmem
      · exact hfind.ret hmem
      · exact hfind.pad c hpad hhead
    rw [texts_cons, List.map_cons, texts_cons, ← ih]
    exact replaceFrom_skip hw hne (texts cs)
  | @paragraph t cs _ _ hnext hcs ih =>
    rw [texts_cons, List.map_cons, texts_cons, ← ih]
    show replaceFrom find new 0 (t ++ texts cs) = replace find new t ++ _
    rw [replace_eq hne]
    cases hcs with
    | nil => simp [replaceFrom]
    | paragraph => exact absurd (hnext _ rfl) (by simp [Chunk.isSeparator])
    | separator hsep =>
      -- The separator starts with a line end, over which no occurrence goes.
      obtain ⟨c, w, rfl, hc⟩ := hsep.eq_cons
      have hmem : c ∉ find := by
        rcases hc with rfl | rfl
        · exact hfind.line
        · exact hfind.ret
      exact replaceFrom_append hmem (Nat.zero_le _) (w ++ texts _)

/-- The text of a root is that of the chunks for which its children stand. -/
theorem compile_root {cs : List Chunk} {vs : List Value} (h : List.Forall₂ StandsFor cs vs)
    (position : Value) :
    compile [] (.node (NodeOf.parent "root" vs position)) = .ok (String.ofList (texts cs)) := by
  rw [(literals_root readsLiterals_kept h position).compile, List.flatMap_map]
  simp [texts]

end TextPipeline.Grammar.Plain

namespace TextPipeline.Tree

open TextPipeline.Pipeline

/-- Trees that a change of literals turns into one another, whatever is kept elsewhere. -/
def Changes (g : Node → Outcome Value) (type : Option Value) (v v' : Value) : Prop :=
  ∃ k, ∀ shared : Handle → StateM Store Mapped, mapLiteralsWith shared g type v = pure ⟨v', k, none⟩

section Changes

variable {g : Node → Outcome Value} {type : Option Value}

theorem changes_literal {t s s' : String} {position : Value} {k : Nat}
    (hn : mapNode g type (NodeOf.literal t s position) = .ok (NodeOf.literal t s' position, k)) :
    Changes g type (.node (NodeOf.literal t s position)) (.node (NodeOf.literal t s' position)) := by
  refine ⟨k, fun shared => ?_⟩
  unfold NodeOf.literal at hn ⊢
  rw [mapLiteralsWith, hn]
  · rfl
  · simp
  · simp
  · simp

theorem changes_parent {vs vs' : List Value} (h : List.Forall₂ (Changes g type) vs vs') (t : String)
    (position : Value) :
    Changes g type (.node (NodeOf.parent t vs position)) (.node (NodeOf.parent t vs' position)) := by
  obtain ⟨k, hall⟩ : ∃ k, ∀ shared : Handle → StateM Store Mapped,
      mapLiteralsAll shared g type vs = pure (vs', k, none) := by
    induction h with
    | nil => exact ⟨0, fun shared => rfl⟩
    | cons hv _ ih =>
      obtain ⟨j, hv⟩ := hv
      obtain ⟨k, hvs⟩ := ih
      refine ⟨j + k, fun shared => ?_⟩
      rw [mapLiteralsAll, hv shared, pure_bind]
      dsimp only
      rw [hvs shared, pure_bind]
  refine ⟨0 + k, fun shared => ?_⟩
  rw [NodeOf.parent, mapLiteralsWith]
  show (mapLiteralsAll shared g type vs >>= fun _ => _) = _
  rw [hall shared, pure_bind]
  rfl

theorem Changes.closed {v v' : Value} (h : Changes g type v v') (hg : Closing g) (hv : v.Closed) :
    v'.Closed := by
  obtain ⟨k, hk⟩ := h
  obtain ⟨m, hm, -, hall⟩ : ∃ m : Mapped, m.tree.Closed ∧ m.tree.isNode = v.isNode ∧
      ∀ shared : Handle → StateM Store Mapped, mapLiteralsWith shared g type v = pure m :=
    mapLiteralsWith_closed hg v hv
  have hsame := (hk fun h => pure ⟨.handle h, 0, none⟩).symm.trans (hall _)
  have htree := congrArg (fun x : StateM Store Mapped => (x.run ⟨[]⟩).1.tree) hsame
  obtain rfl : v' = m.tree := htree
  exact hm

end Changes

end TextPipeline.Tree

namespace TextPipeline.Standard

open TextPipeline.Text TextPipeline.Tree TextPipeline.Grammar.Plain TextPipeline.Pipeline
open TextPipeline.Plugin TextPipeline.Settings

variable (find new : String)

theorem closing_replaceValue : Closing (replaceValue find new) := by
  intro n v _ hv shown
  unfold replaceValue at hv
  split at hv
  · obtain rfl := Except.ok.inj hv
    rfl
  · split at hv
    · cases hv
    · obtain rfl := Except.ok.inj hv
      rfl

theorem changes_text (s : String) (position : Value) :
    Changes (replaceValue find new) (some (.str "text")) (.node (NodeOf.literal "text" s position))
      (.node (NodeOf.literal "text" (replaceString find new s) position)) := by
  refine changes_literal (k := 1) ?_
  simp [mapNode, NodeOf.literal, NodeOf.isLiteral, Value.isNone, Value.equals_str, replaceValue]

theorem changes_whitespace (s : String) (position : Value) :
    Changes (replaceValue find new) (some (.str "text")) (.node (NodeOf.literal "whitespace" s position))
      (.node (NodeOf.literal "whitespace" s position)) := by
  refine changes_literal (k := 0) ?_
  simp [mapNode, NodeOf.literal, Value.equals_str]
  rfl

theorem changes_chunk {c : Chunk} {v : Value} (h : StandsFor c v) :
    ∃ v', Changes (replaceValue find new) (some (.str "text")) v v' ∧
      StandsFor (c.replaced find.toList new.toList) v' := by
  cases h with
  | separator w position => exact ⟨_, changes_whitespace .., .separator w position⟩
  | paragraph t position =>
    have h := changes_parent (.cons (changes_text find new (String.ofList t) position) .nil) "paragraph"
      position
    rw [replaceString, String.toList_ofList] at h
    exact ⟨_, h, .paragraph _ position⟩

/-- When a text can be replaced paragraph by paragraph: there are none, or no occurrence touches what stands
between them. -/
def Separable (settings : Value) : Prop := reads settings "paragraphs" = true → Contained find.toList

variable {find}

/-- The tree of a text becomes one of the text with the occurrences replaced. -/
theorem readTree_changes (hne : find ≠ "") {settings : Value} (hfind : Separable find settings)
    (text : String) :
    ∃ tree, Changes (replaceValue find new) (some (.str "text")) (readTree settings text) tree ∧
      compile [] tree = .ok (replaceString find new text) := by
  have hnil : find.toList ≠ [] := fun h => hne (String.toList_injective h)
  rw [readTree, Grammar.Plain.parse, childNodes]
  split
  · rename_i hparagraphs
    have hall {cs : List Chunk} {vs : List Value} (h : List.Forall₂ StandsFor cs vs) :
        ∃ vs', List.Forall₂ (Changes (replaceValue find new) (some (.str "text"))) vs vs' ∧
          List.Forall₂ StandsFor (cs.map (Chunk.replaced find.toList new.toList)) vs' := by
      induction h with
      | nil => exact ⟨[], .nil, .nil⟩
      | cons hv _ ih =>
        obtain ⟨v', hchanges, hstands⟩ := changes_chunk find new hv
        obtain ⟨vs', hall, hs⟩ := ih
        exact ⟨v' :: vs', .cons hchanges hall, .cons hstands hs⟩
    obtain ⟨vs', hchanges, hstands⟩ := hall (standsFor_chunkNodes _ 0 (chunks text.toList))
    refine ⟨_, changes_parent hchanges "root" _, ?_⟩
    rw [compile_root hstands, replaceString, ← texts_chunks text.toList,
      (scanned_chunks text.toList).replace_texts hnil (hfind hparagraphs), texts_chunks]
  · split
    · rename_i htext
      refine ⟨_, changes_parent .nil "root" _, ?_⟩
      rw [(literals_parent readsLiterals_kept .nil "root" _).compile, replaceString, replace_eq hnil,
        List.isEmpty_iff.mp htext]
      rfl
    · refine ⟨_, changes_parent (.cons (changes_text find new _ _) .nil) "root" _, ?_⟩
      rw [(literals_parent readsLiterals_kept
        (.cons (literals_literal readsLiterals_kept "text" _ _) .nil) "root" _).compile, String.ofList_toList]
      simp

/-- The transformer that replaces text. -/
def replacing (find new : String) : Transformer :=
  .mk "text_replacer.<locals>.replace_text" .plain fun _ _ => replaceTextActs find new

theorem adds_replacing : Adds replaceTextPlugin.attacher replaceTextFor := fun _ _ => rfl

/-- The options of the plugin. -/
def replaceOptions (find new : String) : Entries := [(.str "find", .str find), (.str "replace", .str new)]

theorem replaceOptions_closed (find new : String) : (Value.dict (replaceOptions find new)).Closed := by
  intro shown
  simp [replaceOptions, Value.revealWith, Value.revealEntries]

theorem get?_replaceOptions (find new : String) :
    (replaceOptions find new).get? "find" = some (.str find) ∧
      (replaceOptions find new).get? "replace" = some (.str new) := by
  constructor <;> simp [replaceOptions, Entries.get?, Entries.find?, Value.equals_str]

theorem resolveOptions_replace {α : Type} {m : Metadata α}
    (hm : m.parameters = replaceTextAbout.parameters) (hne : find ≠ "") :
    (m.resolveOptions (.dict (replaceOptions find new))).result = (.ok (replaceOptions find new), []) := by
  obtain ⟨hfind, hnew⟩ := get?_replaceOptions find new
  refine Metadata.result_resolveOptions ?_ ?_
  · rw [hm]
    refine List.forall_mem_cons.mpr ⟨⟨_, hfind, validate_str rfl rfl ?_⟩,
      List.forall_mem_singleton.mpr ⟨_, hnew, validate_str rfl rfl ?_⟩⟩
    · rintro accepts ⟨⟩
      simp [Value.truthy, hne]
    · rintro accepts ⟨⟩
  · rw [hm]
    simp [replaceOptions, replaceTextAbout, Value.among, Value.equals_str]

theorem replaceTextFor_options (hne : find ≠ "") :
    (replaceTextFor (.dict (replaceOptions find new))).result.1 = .ok (replacing find new) := by
  obtain ⟨hfind, hnew⟩ := get?_replaceOptions find new
  rw [replaceTextFor, Logged.result_bind_ok (resolveOptions_replace new rfl hne)]
  simp only [textOption, hfind, hnew]
  rfl

/-- The plugin replaces the occurrences of a text in a document, the leftmost ones that do not overlap. -/
theorem replaceText_replaces {host : Host} {w : World} {settings value : Value} {id : Nat} {f : File}
    {find new text : String} (hhost : host.HasPlain)
    (hoffer : w.Offers host replaceTextPlugin.name replaceTextPlugin) (hset : Verbatim settings)
    (hne : find ≠ "") (hfind : Separable find settings) (hvalue : w.Gives value id f)
    (htext : f.text = .ok text) :
    ∃ v out, (processWith host replaceTextPlugin.name (.dict (replaceOptions find new)) value settings).result
        w = (.ok (.str out), v) ∧ out = replaceString find new text ∧
      ∀ s, Replaced find.toList new.toList text.toList s ↔ s = out.toList := by
  have hkept : keepGiven (.dict (replaceOptions find new)) (replaceOptions find new) =
      replaceOptions find new := by
    simp [replaceOptions, keepGiven, Entries.find?, Value.equals_str]
  have hresolve := congrArg Prod.fst (resolveOptions_replace (m := replaceTextPlugin) new rfl hne)
  obtain ⟨u, hready, hrun⟩ := adds_replacing.result_processWith hoffer (replaceOptions_closed find new)
    hresolve (by rw [hkept]; exact replaceOptions_closed find new)
    (by rw [hkept]; exact replaceTextFor_options new hne) value settings
  obtain ⟨tree, hchanges, hcompile⟩ := readTree_changes new hne hfind text
  have hclosed := hchanges.closed (closing_replaceValue find new) (readTree_closed settings text)
  obtain ⟨k, hk⟩ := hchanges
  have hmakes (ns : List (Value × Entries)) : Makes (replacing find new) (readTree settings text)
      { f with namespaces := ns } none tree { f with namespaces := ns } :=
    ⟨rfl, .mapLiterals hk rfl (.nil _ _)⟩
  obtain ⟨v, -, hv, -⟩ := hready.result_processOn hhost hset hvalue htext hmakes hclosed hcompile
  have hnil : find.toList ≠ [] := fun h => hne (String.toList_injective h)
  refine ⟨v, _, hrun.trans hv, rfl, fun s => ?_⟩
  rw [replaced_iff hnil, replaceString, String.toList_ofList]

/-- The occurrences of a text that overlap, in two paragraphs. -/
theorem replaceText_replaces_paragraphs :
    let host := Host.nested .standard (pluginsWith fun _ _ => .ok .none) (.ok []) 0
    ∃ v out, (processWith host "text-replacer" (.dict (replaceOptions "aa" "b")) (.str "aaa\n\naa")
        (.dict [(.str "paragraphs", .bool true)])).result {} = (.ok (.str out), v) ∧
      out = replaceString "aa" "b" "aaa\n\naa" ∧
      ∀ s, Replaced "aa".toList "b".toList "aaa\n\naa".toList s ↔ s = out.toList := by
  intro host
  have hhost : host.HasPlain := ⟨rfl, rfl⟩
  have hoffer : World.Offers {} host "text-replacer" replaceTextPlugin := rfl
  refine replaceText_replaces hhost hoffer (verbatim_paragraphs true) (by decide) (fun _ => ?_) (.text _) rfl
  refine ⟨by decide, by decide, fun c hc hhead => ?_⟩
  obtain rfl : 'a' = c := Option.some.inj hhead
  cases hc

end TextPipeline.Standard
