import TextPipeline.Proofs.Options
import TextPipeline.Proofs.Placing
import TextPipeline.Proofs.Revising
import TextPipeline.Standard.Plugins

/-! Counting words. A blank ends a word whatever follows, so that texts with a blank between them have the
words of each of them, and so have paragraphs and separators, which are blank, where they meet. -/

namespace TextPipeline.Text

theorem pieces_eq_splitOnP {α : Type} (p : α → Bool) (s : List α) : pieces p s = s.splitOnP p := by
  induction s with
  | nil => exact List.splitOnP_nil.symm
  | cons a s ih =>
    rw [pieces, List.splitOnP_cons_eq_if_modifyHead, ih]
    split
    · rfl
    · cases hs : s.splitOnP p with
      | nil => exact absurd hs (List.splitOnP_ne_nil p s)
      | cons first others => rfl

/-- A blank belongs to no word, and no word goes over it. -/
theorem words_append_blank {c : Char} (hc : isBlank c = true) (x y : List Char) :
    words (x ++ c :: y) = words x ++ words y := by
  unfold words
  rw [pieces_eq_splitOnP, pieces_eq_splitOnP, pieces_eq_splitOnP, List.splitOnP_append_cons x y hc,
    List.filter_append]

@[simp] theorem words_nil : words [] = [] := rfl

theorem words_blanks {w : List Char} (hw : ∀ c ∈ w, isBlank c = true) (y : List Char) :
    words (w ++ y) = words y := by
  induction w with
  | nil => rfl
  | cons c w ih =>
    obtain ⟨hc, hw⟩ := List.forall_mem_cons.mp hw
    rw [List.cons_append, ← ih hw]
    exact words_append_blank hc [] (w ++ y)

theorem words_intercalate (ts : List (List Char)) :
    words ([' '].intercalate ts) = ts.flatMap words := by
  induction ts with
  | nil => rfl
  | cons t ts ih =>
    cases ts with
    | nil => simp
    | cons t' ts =>
      rw [List.intercalate_cons_cons, List.flatMap_cons, ← ih, List.append_assoc]
      exact words_append_blank rfl t _

end TextPipeline.Text

namespace TextPipeline.Grammar.Plain

open TextPipeline.Text TextPipeline.Tree TextPipeline.Pipeline

theorem IsSeparator.blank {s : List Char} (h : IsSeparator s) : ∀ c ∈ s, isBlank c = true := by
  intro c hc
  rcases h.mem c hc with rfl | rfl | hpad
  · rfl
  · rfl
  · simp only [isPad, Bool.or_eq_true, beq_iff_eq] at hpad
    rcases hpad with rfl | rfl <;> rfl

/-- No word goes from a chunk into the next, since one of the two is blank. -/
theorem Scanned.words_texts {cs : List Chunk} (h : Scanned cs) :
    words (texts cs) = cs.flatMap fun c => words c.text := by
  induction h with
  | nil => rfl
  | @separator w cs hsep _ _ _ ih =>
    have hw : words w = [] := by
      have := words_blanks hsep.blank []
      rwa [List.append_nil] at this
    rw [texts_cons, List.flatMap_cons, ← ih, Chunk.text, words_blanks hsep.blank, hw, List.nil_append]
  | @paragraph t cs _ _ hnext hcs ih =>
    rw [texts_cons, List.flatMap_cons, ← ih, Chunk.text]
    cases hcs with
    | nil => rw [texts_nil, List.append_nil, words_nil, List.append_nil]
    | paragraph => exact absurd (hnext _ rfl) (by simp [Chunk.isSeparator])
    | @separator w cs hsep =>
      -- The separator is not empty, and so there is a blank between the paragraph and what follows.
      obtain ⟨c, w, rfl, -⟩ := hsep.eq_cons
      obtain ⟨hc, hw⟩ := List.forall_mem_cons.mp hsep.blank
      rw [texts_cons, Chunk.text, List.cons_append, words_append_blank hc, words_blanks hw]
      exact congrArg (words t ++ ·) ((words_blanks hsep.blank _).trans rfl).symm

end TextPipeline.Grammar.Plain

namespace TextPipeline.Tree

open TextPipeline.Text TextPipeline.Grammar TextPipeline.Pipeline

/-- The number of words of a text. -/
def wordCount : Value → Nat
  | .str s => (words s.toList).length
  | _ => 0

/-- The nodes of a tree as a walk comes to them, and the texts of those that are literals. -/
structure Texts (tree : Value) (ns : List Node) (pieces : List String) : Prop where
  nodes : Tree.nodes tree = .ok ns
  literals : Literals literalValue tree pieces
  values : (ns.filter (·.isLiteral)).map (·.value) = pieces.map .str

/-- A walk goes through the children one after the other. -/
theorem texts_children {cs : List Value} (h : ∀ c ∈ cs, ∃ ns pieces, Texts c ns pieces) :
    ∃ (nss : List (List Node)) (pss : List (List String)),
      cs.mapM Tree.nodes = .ok nss ∧ cs.mapM (collect literalValue) = .ok (pss.map (·.map .str)) ∧
      (nss.flatten.filter (·.isLiteral)).map (·.value) = pss.flatten.map .str := by
  induction cs with
  | nil => exact ⟨[], [], rfl, rfl, rfl⟩
  | cons c cs ih =>
    obtain ⟨⟨ns, ps, hc⟩, hcs⟩ := List.forall_mem_cons.mp h
    obtain ⟨nss, pss, hnss, hpss, hvalues⟩ := ih hcs
    refine ⟨ns :: nss, ps :: pss, ?_, ?_, ?_⟩
    · rw [List.mapM_cons, hc.nodes, hnss]
      rfl
    · rw [List.mapM_cons, hc.literals.collected, hpss]
      rfl
    · rw [List.flatten_cons, List.flatten_cons, List.filter_append, List.map_append, List.map_append,
        hc.values, hvalues]

/-- A tree whose nodes have texts or no values can be walked, and all its literals are texts. -/
theorem Every.texts {tree : Value}
    (h : Every (fun n => n.value = .none ∨ ∃ s, n.value = .str s) tree) :
    ∃ ns pieces, Texts tree ns pieces := by
  induction h with
  | @node n cs hholds hn hcs ih =>
    obtain ⟨nss, pss, hnodes, hvalues, heq⟩ := texts_children ih
    have htree : IsTree (.node n) := (Every.node hholds hn hcs).isTree
    have hall : Tree.nodes (.node n) = .ok ([n] ++ nss.flatten) :=
      collect_node htree hholds.children rfl hnodes
    rcases hn with hn | ⟨s, hn⟩
    · have hliteral : n.isLiteral = false := by rw [NodeOf.isLiteral, hn]; rfl
      have hvalue : literalValue n = .ok [] := by rw [literalValue, hliteral]; rfl
      refine ⟨_, pss.flatten, hall, ⟨htree, ?_⟩, ?_⟩
      · rw [collect_node htree hholds.children hvalue hvalues, List.map_flatten]
        rfl
      · rw [List.singleton_append, List.filter_cons, hliteral, ← heq]
        rfl
    · have hliteral : n.isLiteral = true := by rw [NodeOf.isLiteral, hn]; rfl
      have hvalue : literalValue n = .ok [.str s] := by rw [literalValue, hliteral, hn]; rfl
      refine ⟨_, s :: pss.flatten, hall, ⟨htree, ?_⟩, ?_⟩
      · rw [collect_node htree hholds.children hvalue hvalues, List.map_cons, List.map_flatten]
        rfl
      · rw [List.singleton_append, List.filter_cons, hliteral, List.map_cons, ← heq, ← hn]
        rfl

/-- Words are counted literal by literal. -/
theorem Literals.countWords {tree : Value} {pieces : List String}
    (h : Literals literalValue tree pieces) :
    countWords tree = .ok (pieces.flatMap fun s => words s.toList).length := by
  rw [Tree.countWords, textOfAll, h.values]
  show (do return (words (← joinTexts " " (pieces.map .str)).toList).length) = _
  rw [joinTexts_str]
  show Except.ok (words (String.intercalate " " pieces).toList).length = _
  have hblank : " ".toList = [' '] := rfl
  rw [String.toList_intercalate, hblank, words_intercalate, List.flatMap_map]

theorem Every.countWords {tree : Value}
    (h : Every (fun n => n.value = .none ∨ ∃ s, n.value = .str s) tree) :
    ∃ ns, Tree.nodes tree = .ok ns ∧
      Tree.countWords tree = .ok ((ns.filter (·.isLiteral)).map fun n => wordCount n.value).sum := by
  obtain ⟨ns, pieces, htexts⟩ := h.texts
  refine ⟨ns, htexts.nodes, ?_⟩
  have hmap : ((ns.filter (·.isLiteral)).map fun n => wordCount n.value) =
      ((ns.filter (·.isLiteral)).map (·.value)).map wordCount := by
    rw [List.map_map]
    rfl
  rw [htexts.literals.countWords, hmap, htexts.values, List.map_map, List.length_flatMap]
  rfl

/-- The tree of a text has as many words as the text. -/
theorem countWords_readTree (settings : Value) (text : String) :
    countWords (readTree settings text) = .ok (words text.toList).length := by
  rw [readTree, (Plain.literals_parse readsLiterals_literalValue _ _ _).countWords]
  split
  · rw [List.flatMap_map]
    simp only [String.toList_ofList]
    rw [← (Plain.scanned_chunks text.toList).words_texts, Plain.texts_chunks]
  · split
    · rename_i htext
      rw [List.isEmpty_iff.mp htext]
      rfl
    · simp

end TextPipeline.Tree

namespace TextPipeline.Standard

open TextPipeline.Pipeline TextPipeline.Plugin TextPipeline.Settings TextPipeline.Text

/-- The transformer that counts words. -/
def counting (field : String) : Transformer :=
  .mk "word_count.<locals>.count_document_words" .plain fun _ _ => [.change (countWords (.str field))]

theorem adds_counting : Adds countWordsPlugin.attacher countWordsFor := fun _ _ => rfl

/-- The options of the plugin for a field, or for the one that it takes by itself. -/
def fieldOptions : Option String → Value
  | none => .none
  | some field => .dict [(.str "field", .str field)]

theorem fieldOptions_closed (field : Option String) : (fieldOptions field).Closed := by
  intro shown
  cases field <;> simp [fieldOptions, Value.revealWith, Value.revealEntries]

theorem resolveOptions_field {α : Type} {m : Metadata α} (hm : m.parameters = countWordsAbout.parameters)
    {field : String} (hfield : field ≠ "") :
    (m.resolveOptions (.dict [(.str "field", .str field)])).result =
      (.ok [(.str "field", .str field)], []) := by
  have hget : Entries.get? [(.str "field", .str field)] "field" = some (.str field) := by
    simp [Entries.get?, Entries.find?, Value.equals_str]
  refine Metadata.result_resolveOptions ?_ ?_
  · rw [hm]
    refine List.forall_mem_singleton.mpr ⟨_, hget, validate_str rfl rfl ?_⟩
    rintro accepts ⟨⟩
    simp [Value.truthy, hfield]
  · rw [hm]
    simp [countWordsAbout, Value.among, Value.equals_str]

/-- The plugin is given the field that its options name. -/
theorem resolveOptions_fieldOptions {field : Option String} (hfield : field ≠ some "") :
    field.getD "word_count" ≠ "" ∧ ∃ resolved,
      (countWordsPlugin.resolveOptions (fieldOptions field)).result.1 = .ok resolved ∧
      keepGiven (fieldOptions field) resolved = [(.str "field", .str (field.getD "word_count"))] := by
  cases field with
  | none => exact ⟨by decide, _, rfl, rfl⟩
  | some field =>
    have hne : field ≠ "" := fun h => hfield (congrArg some h)
    refine ⟨hne, _, congrArg Prod.fst (resolveOptions_field rfl hne), ?_⟩
    simp [fieldOptions, keepGiven, Entries.find?, Value.equals_str]

theorem countWordsFor_field {field : String} (hfield : field ≠ "") :
    (countWordsFor (.dict [(.str "field", .str field)])).result.1 = .ok (counting field) := by
  rw [countWordsFor, Logged.result_bind_ok (resolveOptions_field rfl hfield)]
  simp only [Entries.get?, Entries.find?, List.find?_cons, Value.equals_str, beq_self_eq_true]
  rfl

theorem makes_counting {settings : Value} {f : File} (text field : String) :
    Makes (counting field) (readTree settings text) f none (readTree settings text)
      { f with data := f.data.insert (.str field) (.nat (words text.toList).length) } := by
  obtain ⟨g, hg⟩ : ∃ g : File,
      g = { f with data := f.data.insert (.str field) (.nat (words text.toList).length) } := ⟨_, rfl⟩
  rw [← hg]
  have hchange (s : Sight) (hs : s.Clear) :
      countWords (.str field) s (readTree settings text) f = { tree := readTree settings text, file := g } := by
    rw [countWords, hs _ (readTree_closed settings text), Tree.countWords_readTree, hg]
  exact ⟨rfl, .change hchange rfl (.nil _ _)⟩

/-- The words of a tree are those of its literals, each on its own; and the plugin stores in the data of
the file, under its field, how many words the text has, and nothing else, and the text stays as it is. -/
theorem countWords_counts :
    (∀ tree, Tree.Every (fun n => n.value = .none ∨ ∃ s, n.value = .str s) tree →
      ∃ ns, Tree.nodes tree = .ok ns ∧ Tree.countWords tree =
        .ok ((ns.filter (·.isLiteral)).map fun n => Tree.wordCount n.value).sum) ∧
    ∀ {host : Host} {w : World} {settings value : Value} {field : Option String} {id : Nat} {f : File}
      {text : String}, host.HasPlain → w.Offers host countWordsPlugin.name countWordsPlugin →
      Verbatim settings → field ≠ some "" → w.Gives value id f → f.text = .ok text →
      ∃ v g, (processWith host countWordsPlugin.name (fieldOptions field) value settings).result w =
          (.ok (.str text), v) ∧ v.files[id]? = some g ∧ g.contents = .str text ∧
        g.data.get? (field.getD "word_count") = some (.nat (words text.toList).length) ∧
        g.data.erase (.str (field.getD "word_count")) = f.data.erase (.str (field.getD "word_count")) := by
  refine ⟨fun tree h => h.countWords, ?_⟩
  intro host w settings value field id f text hhost hoffer hset hfield hvalue htext
  obtain ⟨hne, resolved, hresolve, hkept⟩ := resolveOptions_fieldOptions hfield
  obtain ⟨name, hname⟩ : ∃ name, name = field.getD "word_count" := ⟨_, rfl⟩
  rw [← hname] at hne hkept ⊢
  obtain ⟨u, hready, hrun⟩ := adds_counting.result_processWith hoffer (fieldOptions_closed field) hresolve
    (by rw [hkept]; exact fieldOptions_closed (some name)) (by rw [hkept]; exact countWordsFor_field hne)
    value settings
  obtain ⟨g, hg⟩ : ∃ g : File,
      g = { f with data := f.data.insert (.str name) (.nat (words text.toList).length) } := ⟨_, rfl⟩
  have hmakes (ns : List (Value × Entries)) : Makes (counting name) (readTree settings text)
      { f with namespaces := ns } none (readTree settings text) { g with namespaces := ns } := by
    rw [hg]
    exact makes_counting text name
  obtain ⟨v, ns, hv, -, -, hfile⟩ := hready.result_processOn hhost hset hvalue htext hmakes
    (readTree_closed settings text) (compile_readTree settings text)
  rw [hrun]
  rw [hg] at hfile
  exact ⟨v, _, hv, hfile, rfl, Entries.find?_insert_self (Value.equals_str_iff.mpr rfl) _ _,
    Entries.erase_insert (Value.equals_str_iff.mpr rfl) _ _⟩

/-- Two paragraphs of which the plugin reads one text, and a tree with a word for each of two literals. -/
theorem countWords_counts_paragraphs :
    let host := Host.nested .standard (pluginsWith fun _ _ => .ok .none) (.ok []) 0
    (∃ ns, Tree.nodes (.node (NodeOf.parent "root" [.node (NodeOf.literal "text" "a" .none),
        .node (NodeOf.literal "text" "b" .none)] .none)) = .ok ns ∧
      Tree.countWords (.node (NodeOf.parent "root" [.node (NodeOf.literal "text" "a" .none),
        .node (NodeOf.literal "text" "b" .none)] .none)) =
        .ok ((ns.filter (·.isLiteral)).map fun n => Tree.wordCount n.value).sum) ∧
    ∃ v g, (processWith host "word-count" (fieldOptions (some "n"))
        (.str "a b\n\nc") (.dict [(.str "paragraphs", .bool true)])).result {} = (.ok (.str "a b\n\nc"), v) ∧
      v.files[0]? = some g ∧ g.contents = .str "a b\n\nc" ∧ g.data.get? "n" = some (.nat 3) ∧
      g.data.erase (.str "n") = [] := by
  intro host
  obtain ⟨htree, hplugin⟩ := countWords_counts
  have hhost : host.HasPlain := ⟨rfl, rfl⟩
  have hoffer : World.Offers {} host "word-count" countWordsPlugin := rfl
  have hfield : some "n" ≠ some "" := by decide
  refine ⟨htree _ (.node (.list _) (.inl rfl) ?_),
    hplugin hhost hoffer (verbatim_paragraphs true) hfield (.text "a b\n\nc") rfl⟩
  intro c hc
  simp only [List.mem_cons, List.not_mem_nil, or_false] at hc
  obtain rfl | rfl := hc <;> exact .node .absent (.inr ⟨_, rfl⟩) (by simp)

end TextPipeline.Standard
