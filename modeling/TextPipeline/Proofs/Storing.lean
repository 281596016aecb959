import TextPipeline.Proofs.Receiving
import TextPipeline.Proofs.Apart

/-! Where trees are stored. A file holds at most one tree for the processors of a name; storing a tree
changes what is held for that name and nothing else, and what does not store trees leaves all of them in
place. A stage that is not given a tree takes the one that is stored. -/

namespace TextPipeline

/-- Only a text equals a text. -/
theorem Value.equals_str_iff {v : Value} {s : String} : v.equals (.str s) = true ↔ v = .str s := by
  cases v <;> simp [equals, equalsWith, numberEquals, number?]

namespace Entries

theorem find?_insert_self {key : Value} (hkey : key.equals key = true) (value : Value) (entries : Entries) :
    (entries.insert key value).find? key = some value := by
  induction entries with
  | nil => simp [insert, find?, hkey]
  | cons e rest ih =>
    obtain ⟨k, v⟩ := e
    unfold insert
    cases hk : k.equals key with
    | true => simp [find?, hk]
    | false => simpa [find?, hk] using ih

theorem get?_put_ne {name other : String} (h : other ≠ name) (v : Value) (entries : Entries) :
    (entries.put other v).get? name = entries.get? name := by
  have hother : (Value.str other).equals (.str name) = false := by simpa [Value.equals_str] using h
  unfold put get?
  induction entries with
  | nil => simp [insert, find?, hother]
  | cons e rest ih =>
    obtain ⟨k, w⟩ := e
    unfold insert
    cases hk : k.equals (.str other) with
    | true =>
      obtain rfl := Value.equals_str_iff.mp hk
      simp [find?, hother]
    | false =>
      rw [find?] at ih ⊢
      rw [if_neg Bool.false_ne_true, find?, List.find?_cons, List.find?_cons]
      cases k.equals (.str name) with
      | true => rfl
      | false => exact ih

/-- A value that a key has already changes nothing. -/
theorem insert_of_find? {entries : Entries} {key v : Value} (h : entries.find? key = some v) :
    entries.insert key v = entries := by
  induction entries with
  | nil => cases h
  | cons e rest ih =>
    obtain ⟨k, w⟩ := e
    rw [find?, List.find?_cons] at h
    rw [insert]
    cases hk : k.equals key with
    | true =>
      rw [hk] at h
      obtain rfl : w = v := Option.some.inj h
      rfl
    | false =>
      rw [hk] at h
      rw [if_neg Bool.false_ne_true, ih h]

/-- A key that is set changes no other entry. -/
theorem erase_insert {key : Value} (hkey : key.equals key = true) (v : Value) (entries : Entries) :
    (entries.insert key v).erase key = entries.erase key := by
  induction entries with
  | nil => simp [insert, erase, hkey]
  | cons e rest ih =>
    obtain ⟨k, w⟩ := e
    unfold insert
    cases hk : k.equals key with
    | true => simp [erase, hk]
    | false => simpa [erase, hk] using ih

end Entries

namespace File

open TextPipeline.Pipeline

/-- The tree that is stored for processors of a name. -/
def treeOf (f : File) (name : String) : Option Value := (f.results (.str name)).find? treeKey

/-- A namespace has a name. -/
theorem openNamespace_named {f g : File} {name : String} (h : f.openNamespace (.str name) = .ok g) :
    name ≠ "" := by
  rintro rfl
  cases h

theorem openNamespace_str {name : String} (hn : name ≠ "") (f : File) : f.openNamespace (.str name) =
    .ok (if f.hasNamespace (.str name) then f
      else { f with namespaces := f.namespaces ++ [(.str name, [])] }) := by
  have htruthy : (Value.str name).truthy = true := by simp [Value.truthy, hn]
  have hopen : f.openNamespace (.str name) =
      if f.hasNamespace (.str name) then .ok f
      else .ok { f with namespaces := f.namespaces ++ [(.str name, [])] } := by
    unfold openNamespace
    rw [htruthy]
    rfl
  rw [hopen]
  split <;> rfl

/-- An empty namespace holds no tree. -/
theorem openNamespace_treeOf {f g : File} {name : String} (h : f.openNamespace (.str name) = .ok g)
    (other : String) : g.treeOf other = f.treeOf other := by
  rw [openNamespace_str (openNamespace_named h)] at h
  obtain rfl := Except.ok.inj h
  split
  · rfl
  · rw [treeOf, treeOf, results, results, List.find?_append]
    cases f.namespaces.find? fun e => e.1.equals (.str other) with
    | some e => rfl
    | none =>
      cases hs : Value.equals (.str name) (.str other) <;> simp [hs, Entries.find?]

/-- A namespace in which a tree is stored is there already. -/
theorem openNamespace_stored {f : File} {name : String} {tree : Value} (hn : name ≠ "")
    (h : f.treeOf name = some tree) : f.openNamespace (.str name) = .ok f := by
  rw [openNamespace_str hn, if_pos]
  rw [treeOf, results] at h
  cases he : f.namespaces.find? fun e => e.1.equals (.str name) with
  | none =>
    rw [he] at h
    cases h
  | some e =>
    have hequals := List.find?_some he
    exact List.any_eq_true.mpr ⟨e, List.mem_of_find?_eq_some he, hequals⟩

/-- The namespaces of a name, in which a tree is stored. -/
def placing (name : String) (tree : Value) (e : Value × Entries) : Value × Entries :=
  if e.1.equals (.str name) then (e.1, e.2.insert treeKey tree) else e

theorem placing_fst (name : String) (tree : Value) (e : Value × Entries) :
    (placing name tree e).1 = e.1 := by
  unfold placing
  split <;> rfl

/-- A tree is stored in a namespace that is open. -/
theorem store_named {f g : File} {name : String} {tree : Value}
    (h : f.store (.str name) treeKey tree = .ok g) : ∃ opened, f.openNamespace (.str name) = .ok opened ∧
      g = { opened with namespaces := opened.namespaces.map (placing name tree) } := by
  unfold store at h
  cases hopened : f.openNamespace (.str name) with
  | error e =>
    rw [hopened] at h
    cases h
  | ok opened =>
    rw [hopened] at h
    exact ⟨opened, rfl, (Except.ok.inj h).symm⟩

/-- A tree is stored for one name. -/
theorem store_treeOf {f g : File} {name : String} {tree : Value}
    (h : f.store (.str name) treeKey tree = .ok g) (other : String) :
    g.treeOf other = if other = name then some tree else f.treeOf other := by
  obtain ⟨opened, hopened, hg⟩ := store_named h
  have hkept := openNamespace_treeOf hopened
  have hfound : ∃ e, opened.namespaces.find? (fun e => e.1.equals (.str name)) = some e := by
    have hhas : ∃ e ∈ opened.namespaces, e.1.equals (.str name) = true := by
      rw [openNamespace_str (openNamespace_named hopened)] at hopened
      obtain rfl := Except.ok.inj hopened
      split
      · rename_i hhas
        simpa [hasNamespace] using hhas
      · exact ⟨(.str name, []), by simp, Value.equals_str_iff.mpr rfl⟩
    exact Option.isSome_iff_exists.mp (List.find?_isSome.mpr hhas)
  have hkeys : ((fun e : Value × Entries => e.1.equals (.str other)) ∘ placing name tree) =
      fun e => e.1.equals (.str other) := by
    funext e
    rw [Function.comp, placing_fst]
  rw [← hkept, hg, treeOf, treeOf, results, results, List.find?_map, hkeys]
  by_cases hother : other = name
  · subst hother
    obtain ⟨e, he⟩ := hfound
    have hequals := List.find?_some he
    rw [he, if_pos rfl]
    simp only [Option.map_some, Option.getD_some, placing, hequals, if_true]
    exact Entries.find?_insert_self (Value.equals_str_iff.mpr rfl) tree e.2
  · rw [if_neg hother]
    cases he : opened.namespaces.find? fun e => e.1.equals (.str other) with
    | none => rfl
    | some e =>
      have hfound := List.find?_some he
      have hequals : e.1 = .str other := Value.equals_str_iff.mp hfound
      have hne : e.1.equals (.str name) = false := by
        rw [hequals, Value.equals_str]
        simpa using hother
      simp [placing, hne]

/-- A report on a file changes no stored tree. -/
theorem report_treeOf {f g : File} {severity : Severity} {reason place origin : Value}
    {d : Diagnostic} (h : f.report severity reason place origin = .ok (g, d)) (name : String) :
    g.treeOf name = f.treeOf name := by
  unfold report at h
  cases hmake : DiagnosticOf.make reason place origin (fatality severity) f.path with
  | error e =>
    rw [hmake] at h
    cases h
  | ok made =>
    rw [hmake] at h
    obtain ⟨rfl, -⟩ := Prod.mk.inj (Except.ok.inj h)
    rfl

end File

namespace Pipeline

open TextPipeline.Plugin
open TextPipeline.Pipeline.Action

/-- The tree that is stored in a file for processors of a name. -/
def World.treeOf (w : World) (file : Nat) (name : String) : Option Value :=
  (w.files.getD file File.empty).treeOf name

/-- Whether an event tells of a step that is called, or of a tree that was come to. -/
def Event.ofTrees : Event → Bool
  | .called .. | .produced .. => true
  | _ => false

/-- Since an earlier world all stored trees have stayed in place. -/
structure World.Retains (w v : World) : Prop where
  files : w.files.length ≤ v.files.length
  trees : ∀ file < w.files.length, ∀ name, v.treeOf file name = w.treeOf file name
  events : ∃ es, v.events = w.events ++ es ∧ ∀ e ∈ es, e.ofTrees = false

theorem World.Apart.retains {w v : World} (h : w.Apart v) : w.Retains v where
  files := h.files ▸ Nat.le_refl _
  trees file _ name := by rw [treeOf, treeOf, h.files]
  events := by
    obtain ⟨es, he, hes⟩ := h.events
    refine ⟨es, he, fun e hmem => ?_⟩
    have hplugin := hes e hmem
    cases e <;> first | rfl | cases hplugin

instance : World.Temporal World.Retains where
  refl w := World.Apart.retains (World.Temporal.refl w)
  trans h h' := by
    obtain ⟨es, he, hes⟩ := h.events
    obtain ⟨fs, hf, hfs⟩ := h'.events
    refine ⟨Nat.le_trans h.files h'.files, fun file hlt name => ?_, es ++ fs,
      by rw [hf, he, List.append_assoc], fun e hmem => (List.mem_append.mp hmem).elim (hes e) (hfs e)⟩
    rw [h'.trees file (Nat.lt_of_lt_of_le hlt h.files), h.trees file hlt]

namespace World.Retains

variable {α : Type} {host : Host}

theorem of_apart {x : Action α} (h : Respects Apart x) : Respects Retains x :=
  h.mono fun _ _ => Apart.retains

theorem of_files {x : Action α} (h : ∀ w, (x.result w).2.events = w.events ∧
    w.files.length ≤ (x.result w).2.files.length ∧
    ∀ file < w.files.length, ∀ name, (x.result w).2.treeOf file name = w.treeOf file name) :
    Respects Retains x := fun w =>
  ⟨(h w).2.1, (h w).2.2, [], by rw [(h w).1, List.append_nil], by simp⟩

theorem tell {e : Event} (he : e.ofTrees = false) : Respects Retains (tell e) := fun w =>
  ⟨Nat.le_refl _, fun _ _ _ => rfl, [e], rfl, by simpa using he⟩

theorem lift (o : Outcome α) : Respects Retains (liftM o : Action α) := .of_reads fun _ => by rw [result_lift]

theorem withStore (x : StateM Store α) : Respects Retains (withStore x) :=
  of_files fun _ => ⟨rfl, Nat.le_refl _, fun _ _ _ => rfl⟩

theorem file (id : Nat) : Respects Retains (file id) := .of_reads fun _ => rfl

/-- A file is replaced by one in which the same trees are stored. -/
theorem setFile_at {w : World} {id : Nat} {f : File}
    (hf : ∀ name, f.treeOf name = w.treeOf id name) : w.Retains { w with files := w.files.set id f } where
  files := Nat.le_of_eq (List.length_set).symm
  trees file hlt name := by
    show ((w.files.set id f).getD file File.empty).treeOf name = _
    rw [List.getD_eq_getElem?_getD, List.getElem?_set]
    split
    · rename_i heq
      subst heq
      rw [if_pos hlt]
      exact hf name
    · rw [← List.getD_eq_getElem?_getD]
      rfl
  events := ⟨[], (List.append_nil _).symm, by simp⟩

theorem addFile (f : File) : Respects Retains (addFile f) := of_files fun w => by
  refine ⟨rfl, ?_, fun file hlt name => ?_⟩
  · show w.files.length ≤ (w.files ++ [f]).length
    simp
  · show ((w.files ++ [f]).getD file File.empty).treeOf name = _
    rw [List.getD_eq_getElem?_getD, List.getElem?_append_left hlt, ← List.getD_eq_getElem?_getD]
    rfl

theorem require (holds : Bool) (f : Fault) : Respects Retains (require holds f) :=
  .ite (.of_reads (.pure _)) (.of_reads (.throw _))

theorem shareValues (v : Value) : Respects Retains (shareValues v) := by
  unfold Action.shareValues
  split
  · exact .bind (.of_reads (.content _)) fun _ => .bind (withStore _) fun _ => .bind (withStore _) fun _ =>
      .of_reads (.pure _)
  · exact .of_reads (.pure _)

theorem toFile (v : Value) : Respects Retains (toFile v) := by
  unfold Action.toFile
  split
  · exact .of_reads (.pure _)
  · refine .bind (.of_reads (.content _)) fun c => ?_
    split
    · refine .bind (.mapM (fun e => ?_) _) fun _ => .bind (lift _) fun _ => addFile _
      exact .ite (.bind (shareValues _) fun _ => .of_reads (.pure _)) (.of_reads (.pure _))
    · exact .bind (lift _) fun _ => addFile _

theorem startTree (id : Nat) (name : String) (tree : Value) :
    Respects Retains (startTree id name tree) := by
  refine .ite (fun w => ?_) (.of_reads (.pure _))
  have hfile : (Action.file id).result w = (.ok (w.files.getD id File.empty), w) := rfl
  rw [storedTree, result_bind_ok hfile]
  cases hopen : (w.files.getD id File.empty).openNamespace (.str name) with
  | error f => exact Temporal.refl w
  | ok g =>
    have hopened : (liftM (Except.ok g : Outcome File) : Action File).result w = (.ok g, w) := rfl
    have hset : (setFile id g).result w = (.ok ⟨⟩, { w with files := w.files.set id g }) := rfl
    rw [result_bind_ok hopened, result_bind_ok hset]
    refine Temporal.trans (setFile_at (File.openNamespace_treeOf hopen)) (Respects.of_reads ?_ _)
    split
    · split
      · exact .pure _
      · exact .throw _
    · exact .throw _

theorem dataFor (parser : Grammar.Parser) (p : Nat) : Respects Retains (dataFor parser p) := by
  refine .bind (.of_reads (.processor p)) fun _ => .ite ?_ (.of_reads (.reveal _))
  exact .bind (.of_reads (.content _)) fun _ => .bind (withStore _) fun _ =>
    .bind (of_apart (.setData p _)) fun _ => .of_reads (.pure _)

theorem readWith (p : Nat) (parser : Value) (f : File) (settings : Value) :
    Respects Retains (readWith host p parser f settings) := by
  unfold Pipeline.readWith
  split
  · exact .bind (.of_reads (.reveal _)) fun _ => .bind (dataFor _ p) fun _ =>
      .bind (of_apart (.ofLogged _)) fun _ => .of_reads (.pure _)
  · exact .of_reads (.throw _)

theorem writeWith (compiler data tree settings : Value) :
    Respects Retains (writeWith host compiler data tree settings) := by
  unfold Pipeline.writeWith
  split
  · exact .get fun _ => .bind (.of_reads (.reveal _)) fun _ => .bind (.of_reads (.reveal _)) fun _ =>
      .bind (of_apart (.ofLogged _)) fun _ => .of_reads (.pure _)
  · exact .of_reads (.throw _)

theorem requireEndpoints (p : Nat) : Respects Retains (requireEndpoints p) :=
  .bind (.of_reads (.processor p)) fun _ => .bind (require _ _) fun _ => require _ _

/-- Writing a tree as text leaves all stored trees in place, whether it succeeds or not. -/
theorem stringify (p : Nat) (tree given settings : Value) :
    Respects Retains (stringify host p tree given settings) := by
  refine .bind (.of_reads (.processor p)) fun _ => .bind (require _ _) fun _ => .bind (toFile _) fun id =>
    .bind (startTree id _ _) fun _ => .bind (file id) fun _ => .bind (of_apart (Apart.log _ _ _)) fun _ =>
    .bind (writeWith _ _ _ _) fun _ => ?_
  split
  · exact .of_reads (.pure _)
  · exact .of_reads (.throw _)

theorem emit (watcher : Option Watcher) (p : Progress) : Respects Retains (emit watcher p) := by
  unfold Action.emit
  split
  · exact .of_reads (.pure _)
  · exact .bind (tell rfl) fun _ => of_apart (.ofLogged _)

theorem logFault (level : Level) (logger words : String) (f : Fault) :
    Respects Retains (logFault level logger words f) :=
  .bind (.of_reads (.ofOutcome _)) fun _ => tell rfl

theorem tellFailed (watcher : Option Watcher) (f : Fault) : Respects Retains (tellFailed watcher f) :=
  .bind (.of_reads (.textOf _)) fun _ => emit _ _

theorem complete (watcher : Option Watcher) (id : Nat) (text : Value) :
    Respects Retains (complete watcher id text) := fun w => by
  have hfile : (Action.file id).result w = (.ok (w.files.getD id File.empty), w) := rfl
  have hset (f : File) : (setFile id f).result w = (.ok ⟨⟩, { w with files := w.files.set id f }) := rfl
  rw [Pipeline.complete, result_bind_ok hfile]
  dsimp only
  rw [result_bind_ok (hset _)]
  refine Temporal.trans (setFile_at ?_) (emit watcher _ _)
  exact fun _ => rfl

end World.Retains

end Pipeline

end TextPipeline
