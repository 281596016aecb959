import Mathlib.Data.List.Nodup
import TextPipeline.Proofs.Walking
import TextPipeline.Tree.Record
import TextPipeline.Value.Copy

/-! Records and the trees that they describe. Every valid tree has a record, which describes the tree
again; what a record describes, if it describes anything, is a valid tree. Both are proved by induction
over trees of whose nodes the same is so. -/

namespace TextPipeline

namespace Value

theorem isNone_iff {v : Value} : v.isNone = true ↔ v = .none := by
  cases v <;> simp [isNone]

/-- The data variant: scalars, sequences of data, and mappings from texts to data. -/
inductive IsData : Value → Prop
  | none : IsData .none
  | bool (b : Bool) : IsData (.bool b)
  | int (n : Int) : IsData (.int n)
  | float (x : Float) : IsData (.float x)
  | str (s : String) : IsData (.str s)
  | list {items : List Value} : (∀ v ∈ items, IsData v) → IsData (.list items)
  | sequence {kind : SequenceKind} {items : List Value} : (∀ v ∈ items, IsData v) →
      IsData (.sequence kind items)
  | mapping {kind : MappingKind} {entries : List (Value × Value)} : (∀ e ∈ entries, ∃ s, e.1 = .str s) →
      (∀ e ∈ entries, IsData e.2) → IsData (.mapping kind entries)

theorem checkItems_ok {items : List Value} (h : ∀ v ∈ items, ∀ path, v.checkData path = .ok ())
    (path : String) (i : Nat) : checkItems path i items = .ok () := by
  induction items generalizing i with
  | nil => rfl
  | cons v items ih =>
    obtain ⟨hv, hitems⟩ := List.forall_mem_cons.mp h
    rw [checkItems, hv, ih hitems]
    rfl

theorem checkEntries_ok {entries : List (Value × Value)} (hkeys : ∀ e ∈ entries, ∃ s, e.1 = .str s)
    (h : ∀ e ∈ entries, ∀ path, e.2.checkData path = .ok ()) (path : String) :
    checkEntries path entries = .ok () := by
  induction entries with
  | nil => rfl
  | cons e entries ih =>
    obtain ⟨k, v⟩ := e
    obtain ⟨⟨s, hk⟩, hrestkeys⟩ := List.forall_mem_cons.mp hkeys
    obtain rfl : k = .str s := hk
    obtain ⟨hv, hentries⟩ := List.forall_mem_cons.mp h
    rw [checkEntries, hv, ih hrestkeys hentries]
    rfl

theorem IsData.checkData {v : Value} (h : IsData v) (path : String) : v.checkData path = .ok () := by
  induction h generalizing path with
  | none | bool | int | float | str => rfl
  | list _ ih | sequence _ ih => exact checkItems_ok ih path 0
  | mapping hkeys _ ih => exact checkEntries_ok hkeys ih path

mutual

theorem isData_of_checkData : (v : Value) → {path : String} → v.checkData path = .ok () → IsData v
  | .none, _, _ => .none
  | .bool b, _, _ => .bool b
  | .int n, _, _ => .int n
  | .float x, _, _ => .float x
  | .str s, _, _ => .str s
  | .list items, _, h => .list (isData_of_checkItems items h)
  | .sequence _ items, _, h => .sequence (isData_of_checkItems items h)
  | .mapping _ entries, _, h =>
    .mapping (fun e he => (isData_of_checkEntries entries h e he).1) fun e he =>
      (isData_of_checkEntries entries h e he).2

theorem isData_of_checkItems : (items : List Value) → {path : String} → {i : Nat} →
    checkItems path i items = .ok () → ∀ v ∈ items, IsData v
  | [], _, _, _ => by simp
  | v :: rest, _, _, h => by
    obtain ⟨_, hv, hrest⟩ := Outcome.of_bind_ok h
    exact List.forall_mem_cons.mpr ⟨isData_of_checkData v hv, isData_of_checkItems rest hrest⟩

theorem isData_of_checkEntries : (entries : List (Value × Value)) → {path : String} →
    checkEntries path entries = .ok () → ∀ e ∈ entries, (∃ s, e.1 = .str s) ∧ IsData e.2
  | [], _, _ => by simp
  | (.str key, v) :: rest, _, h => by
    obtain ⟨_, hv, hrest⟩ := Outcome.of_bind_ok h
    exact List.forall_mem_cons.mpr
      ⟨⟨⟨key, rfl⟩, isData_of_checkData v hv⟩, isData_of_checkEntries rest hrest⟩

end

/-- The path of a mapping matters for what is said of it only. -/
theorem validateData_iff {v : Value} {path : String} :
    v.validateData path = .ok () ↔ IsData v ∧ ∃ kind entries, v = .mapping kind entries := by
  constructor
  · intro h
    cases v with
    | mapping kind entries => exact ⟨isData_of_checkData (.mapping kind entries) h, kind, entries, rfl⟩
    | _ => cases h
  · rintro ⟨hdata, kind, entries, rfl⟩
    exact hdata.checkData path

theorem IsData.asDict {v : Value} (h : IsData v) : IsData v.asDict := by
  cases h with
  | mapping hkeys hentries => exact .mapping hkeys hentries
  | list h => exact .list h
  | sequence h => exact .sequence h
  | none => exact .none
  | bool b => exact .bool b
  | int n => exact .int n
  | float x => exact .float x
  | str s => exact .str s

theorem isNone_asDict (v : Value) : v.asDict.isNone = v.isNone := by
  cases v <;> rfl

theorem listEquals_self {items : List Value} (h : ∀ v ∈ items, equalsWith true v v = true) :
    listEquals true items items = true := by
  induction items with
  | nil => rw [listEquals]
  | cons v items ih =>
    obtain ⟨hv, hitems⟩ := List.forall_mem_cons.mp h
    simp [listEquals, hv, ih hitems]

theorem entriesWithin_self {entries others : List (Value × Value)} (hsub : ∀ e ∈ entries, e ∈ others)
    (h : ∀ e ∈ entries, equalsWith true e.1 e.1 = true ∧ equalsWith true e.2 e.2 = true) :
    entriesWithin true entries others = true := by
  induction entries with
  | nil => rw [entriesWithin]
  | cons e entries ih =>
    obtain ⟨⟨hk, hv⟩, hentries⟩ := List.forall_mem_cons.mp h
    obtain ⟨he, hrest⟩ := List.forall_mem_cons.mp hsub
    have hany : (others.any fun x => equalsWith true e.1 x.1 && equalsWith true e.2 x.2) = true :=
      List.any_eq_true.mpr ⟨e, he, by rw [hk, hv]; rfl⟩
    rw [entriesWithin, hany, ih hrest hentries]
    rfl

/-- Data equals itself. -/
theorem IsData.equals_self {v : Value} (h : IsData v) : equalsWith true v v = true := by
  induction h with
  | none | float | str => simp [equalsWith]
  | bool | int => simp [equalsWith, numberEquals, number?, Decimal.Binary.compare]
  | list _ ih | sequence _ ih => simp [equalsWith, listEquals_self ih]
  | mapping hkeys _ ih =>
    have hentries := entriesWithin_self (fun _ he => he) fun e he =>
      ⟨by obtain ⟨s, hs⟩ := hkeys e he; rw [hs]; simp [equalsWith], ih e he⟩
    simp [equalsWith, hentries]

theorem IsData.equals_asDict {v : Value} (h : IsData v) : equalsWith true v.asDict v = true := by
  cases h with
  | @mapping kind entries hkeys hentries =>
    have hself := (IsData.mapping hkeys hentries : IsData (.mapping kind entries)).equals_self
    simpa only [Value.asDict, equalsWith] using hself
  | none => exact IsData.none.equals_self
  | bool b => exact (IsData.bool b).equals_self
  | int n => exact (IsData.int n).equals_self
  | float x => exact (IsData.float x).equals_self
  | str s => exact (IsData.str s).equals_self
  | list h => exact (IsData.list h).equals_self
  | sequence h => exact (IsData.sequence h).equals_self

/-- What copying something comes to: the same again, or a fault of what in it has no copy. -/
def Copying {α : Type} (copied : Outcome α) (a : α) : Prop :=
  copied = .ok a ∨ ∃ type, copied = .error (notCopied type)

theorem Copying.bind {α β : Type} {x : Outcome α} {f : α → Outcome β} {a : α} {b : β}
    (h : Copying x a) (h' : Copying (f a) b) : Copying (x >>= f) b := by
  rcases h with rfl | ⟨type, rfl⟩
  · exact h'
  · exact .inr ⟨type, rfl⟩

theorem copying_duplicateList {items : List Value} (h : ∀ v ∈ items, Copying v.duplicate v) :
    Copying (duplicateList items) items := by
  induction items with
  | nil => exact .inl (by rw [duplicateList])
  | cons v items ih =>
    obtain ⟨hv, hitems⟩ := List.forall_mem_cons.mp h
    rw [duplicateList]
    exact hv.bind ((ih hitems).bind (.inl rfl))

theorem copying_duplicateEntries {entries : List (Value × Value)}
    (h : ∀ e ∈ entries, Copying e.1.duplicate e.1 ∧ Copying e.2.duplicate e.2) :
    Copying (duplicateEntries entries) entries := by
  induction entries with
  | nil => exact .inl (by rw [duplicateEntries])
  | cons e entries ih =>
    obtain ⟨⟨hkey, hvalue⟩, hentries⟩ := List.forall_mem_cons.mp h
    obtain ⟨k, v⟩ := e
    rw [duplicateEntries]
    exact hkey.bind (hvalue.bind ((ih hentries).bind (.inl rfl)))

theorem copying_str (s : String) : Copying (Value.str s).duplicate (.str s) :=
  .inl (by simp [duplicate])

/-- The copy of data is the same again. Only a collection of another type may have none. -/
theorem IsData.copying {v : Value} (h : IsData v) : Copying v.duplicate v := by
  induction h with
  | none | bool | int | float | str => exact .inl (by simp [duplicate])
  | list _ ih =>
    rw [duplicate]
    exact (copying_duplicateList ih).bind (.inl rfl)
  | @sequence kind items _ ih =>
    have hitems := copying_duplicateList ih
    cases kind with
    | tuple =>
      rw [duplicate]
      exact hitems.bind (.inl rfl)
    | other type =>
      rw [duplicate]
      cases type.copies with
      | true => exact hitems.bind (.inl rfl)
      | false => exact .inr ⟨type.name, rfl⟩
  | @mapping kind entries hkeys _ ih =>
    have hentries : Copying (duplicateEntries entries) entries := by
      refine copying_duplicateEntries fun e he => ⟨?_, ih e he⟩
      obtain ⟨s, hs⟩ := hkeys e he
      rw [hs]
      exact copying_str s
    cases kind with
    | dict =>
      rw [duplicate]
      exact hentries.bind (.inl rfl)
    | other type =>
      rw [duplicate]
      cases type.copies with
      | true => exact hentries.bind (.inl rfl)
      | false => exact .inr ⟨type.name, rfl⟩

/-- Whether a value can be copied. -/
def CanCopy (v : Value) : Prop := ∃ w, v.duplicate = .ok w

theorem CanCopy.none : CanCopy .none := ⟨.none, by simp [duplicate]⟩

end Value

namespace Tree

/-- The children that a node's field holds: those of a list or another sequence, and none if it is absent
or any other collection without elements. -/
inductive Holds : Value → List Value → Prop
  | absent : Holds .none []
  | list (cs : List Value) : Holds (.list cs) cs
  | sequence (kind : SequenceKind) (cs : List Value) : Holds (.sequence kind cs) cs
  | set : Holds (.set []) []
  | mapping (kind : MappingKind) : Holds (.mapping kind []) []
  | str : Holds (.str "") []
  | bytes : Holds (.bytes []) []

/-- Whether a value is a node of which `P` is true, and so are its children at every depth. -/
inductive Every (P : Node → Prop) : Value → Prop
  | node {n : Node} {cs : List Value} : Holds n.children cs → P n → (∀ c ∈ cs, Every P c) →
      Every P (.node n)

theorem Holds.unique {field : Value} {cs ds : List Value} (h : Holds field cs) (h' : Holds field ds) :
    cs = ds := by
  cases h <;> cases h' <;> rfl

theorem Holds.children {n : Node} {cs : List Value} (h : Holds n.children cs) : children n = .ok cs := by
  obtain ⟨t, c, v, d, p⟩ := n
  cases h <;> rfl

theorem Holds.of_iterate {field : Value} (h : field.iterate = .ok []) : Holds field [] := by
  cases field with
  | list items =>
    obtain rfl : items = [] := Except.ok.inj h
    exact .list []
  | sequence kind items =>
    obtain rfl : items = [] := Except.ok.inj h
    exact .sequence kind []
  | set items =>
    obtain rfl : items = [] := Except.ok.inj h
    exact .set
  | mapping kind entries =>
    obtain rfl : entries = [] := List.map_eq_nil_iff.mp (Except.ok.inj h)
    exact .mapping kind
  | str s =>
    have hs : s.toList = [] := List.map_eq_nil_iff.mp (Except.ok.inj h)
    obtain rfl : s = "" := String.toList_injective hs
    exact .str
  | bytes octets =>
    obtain rfl : octets = [] := List.map_eq_nil_iff.mp (Except.ok.inj h)
    exact .bytes
  | _ => cases h

theorem Every.mono {P Q : Node → Prop} (hPQ : ∀ n, P n → Q n) {tree : Value} (h : Every P tree) :
    Every Q tree := by
  induction h with
  | node hholds hP _ ih => exact .node hholds (hPQ _ hP) ih

theorem Every.and {P Q : Node → Prop} {tree : Value} (h : Every P tree) (h' : Every Q tree) :
    Every (fun n => P n ∧ Q n) tree := by
  induction h with
  | @node n cs hholds hP _ ih =>
    cases h' with
    | @node _ ds hholds' hQ hds =>
      obtain rfl := hholds.unique hholds'
      exact .node hholds ⟨hP, hQ⟩ fun c hc => ih c hc (hds c hc)

theorem areTrees_of_forall {cs : List Value} (h : ∀ c ∈ cs, IsTree c) : AreTrees cs := by
  induction cs with
  | nil => trivial
  | cons c cs ih =>
    obtain ⟨hc, hcs⟩ := List.forall_mem_cons.mp h
    exact ⟨hc, ih hcs⟩

theorem Every.isTree {P : Node → Prop} {tree : Value} (h : Every P tree) : IsTree tree := by
  induction h with
  | @node n cs hholds _ _ ih =>
    obtain ⟨t, c, v, d, p⟩ := n
    cases hholds with
    | list | sequence => exact areTrees_of_forall ih
    | absent | set | mapping | str | bytes => exact rfl

theorem Holds.preorder_eq {n : Node} {cs : List Value} (h : Holds n.children cs) (parent : Option Node)
    (index : Option Nat) :
    preorder parent index (.node n) = ⟨.node n, parent, index⟩ :: preorderAll n 0 cs := by
  obtain ⟨t, field, v, d, p⟩ := n
  cases h with
  | list | sequence => rw [preorder]
  | absent | set | mapping | str | bytes => simp [preorder, preorderAll]

theorem Holds.size_le {n : Node} {cs : List Value} (h : Holds n.children cs) :
    sizeAll cs + 1 ≤ size (.node n) := by
  obtain ⟨t, field, v, d, p⟩ := n
  cases h <;> simp [size, sizeAll]

/-- A node as a valid tree has it: with a type, at most one of children and a value, a text as its value
and a mapping as its data. -/
structure Sound (n : Node) : Prop where
  type : ∃ t, t ≠ "" ∧ n.type = .str t
  content : n.children = .none ∨ n.value = .none
  value : n.value = .none ∨ ∃ s, n.value = .str s
  data : n.data = .none ∨ ∃ kind entries, n.data = .mapping kind entries

theorem Sound.of_checked {path : String} {n : Node} (h : checkNode path n = .ok ())
    (hdata : checkNodeData path n = .ok ()) : Sound n := by
  unfold checkNode at h
  split at h
  · cases h
  · rename_i t ht htype
    split at h
    · cases h
    · rename_i hboth
      refine ⟨⟨t, ht, htype⟩, ?_, ?_, ?_⟩
      · simp only [Bool.and_eq_true, Bool.not_eq_true', not_and, Bool.not_eq_false, ← Value.isNone_iff] at hboth ⊢
        cases hc : n.children.isNone
        · exact .inr (hboth hc)
        · exact .inl rfl
      · split at h
        · rename_i hv
          exact .inl hv
        · rename_i s hv
          exact .inr ⟨s, hv⟩
        · cases h
      · unfold checkNodeData at hdata
        split at hdata
        · rename_i hd
          exact .inl (Value.isNone_iff.mp hd)
        · unfold Value.validateData at hdata
          split at hdata
          · rename_i kind entries hd
            exact .inr ⟨kind, entries, hd⟩
          · cases hdata
  · cases h

/-- A node as a valid tree has it, data included. -/
structure Checked (n : Node) : Prop extends Sound n where
  variant : Value.IsData n.data

theorem Checked.of_checks {path : String} {n : Node} (h : checkNode path n = .ok ())
    (hdata : checkNodeData path n = .ok ()) : Checked n := by
  refine ⟨.of_checked h hdata, ?_⟩
  unfold checkNodeData at hdata
  split at hdata
  · rename_i hnone
    rw [Value.isNone_iff.mp hnone]
    exact .none
  · exact (Value.validateData_iff.mp hdata).1

theorem Checked.checkNode {n : Node} (h : Checked n) (path : String) :
    Tree.checkNode path n = .ok () := by
  obtain ⟨type, children, value, data, position⟩ := n
  obtain ⟨⟨t, ht, htype⟩, hcontent, hvalue, -⟩ := h.toSound
  obtain rfl : type = .str t := htype
  have hboth : ¬(!children.isNone && !value.isNone) = true := by
    rcases hcontent with hc | hv
    · obtain rfl : children = .none := hc
      simp [Value.isNone]
    · obtain rfl : value = .none := hv
      simp [Value.isNone]
  unfold Tree.checkNode
  split
  · rename_i hempty
    exact absurd (Value.str.inj hempty) ht
  · rw [if_neg hboth]
    rcases hvalue with hv | ⟨s, hv⟩
    · obtain rfl : value = .none := hv
      rfl
    · obtain rfl : value = .str s := hv
      rfl
  · rename_i hstr
    exact absurd rfl (hstr t)

theorem Checked.checkNodeData {n : Node} (h : Checked n) (path : String) :
    Tree.checkNodeData path n = .ok () := by
  unfold Tree.checkNodeData
  split
  · rfl
  · rename_i hnone
    rcases h.data with hd | hentries
    · exact absurd (Value.isNone_iff.mpr hd) hnone
    · exact Value.validateData_iff.mpr ⟨h.variant, hentries⟩

theorem validateChildren_ok {path : String} {i : Nat} {cs : List Value}
    (h : validateChildren path i cs = .ok ()) : ∀ c ∈ cs, ∃ path, validate path c = .ok () := by
  induction cs generalizing i with
  | nil => simp
  | cons c cs ih =>
    obtain ⟨_, hc, hcs⟩ := Outcome.of_bind_ok h
    exact List.forall_mem_cons.mpr ⟨⟨_, hc⟩, ih hcs⟩

/-- What validating a node checks. -/
theorem validate_node_ok {path : String} {n : Node} (h : validate path (.node n) = .ok ()) :
    ∃ cs, Holds n.children cs ∧ Checked n ∧
      ∀ c ∈ cs, sizeOf c < sizeOf n ∧ ∃ path, validate path c = .ok () := by
  obtain ⟨t, c, v, d, p⟩ := n
  have hchecks {x : Outcome Unit} (hx : (do
      checkNode path ⟨t, c, v, d, p⟩
      checkNodeData path ⟨t, c, v, d, p⟩
      x) = .ok ()) : Checked ⟨t, c, v, d, p⟩ ∧ x = .ok () := by
    obtain ⟨_, hnode, hx⟩ := Outcome.of_bind_ok hx
    obtain ⟨_, hdata, hx⟩ := Outcome.of_bind_ok hx
    exact ⟨.of_checks hnode hdata, hx⟩
  have hsize {cs : List Value} (hcs : sizeOf cs < sizeOf c) {x : Value} (hx : x ∈ cs) :
      sizeOf x < sizeOf (⟨t, c, v, d, p⟩ : Node) := by
    have := List.sizeOf_lt_of_mem hx
    simp only [NodeOf.mk.sizeOf_spec]
    omega
  unfold validate at h
  split at h
  · rename_i hn
    cases hn
    obtain ⟨hchecked, hchildren⟩ := hchecks h
    exact ⟨_, .list _, hchecked, fun x hx =>
      ⟨hsize (by simp) hx, validateChildren_ok hchildren x hx⟩⟩
  · rename_i hn
    cases hn
    obtain ⟨hchecked, hchildren⟩ := hchecks h
    exact ⟨_, .sequence _ _, hchecked, fun x hx =>
      ⟨hsize (by simp only [Value.sequence.sizeOf_spec]; omega) hx, validateChildren_ok hchildren x hx⟩⟩
  · rename_i hn
    cases hn
    obtain ⟨hchecked, hrest⟩ := hchecks h
    refine ⟨[], ?_, hchecked, by simp⟩
    cases hnone : c.isNone with
    | true =>
      obtain rfl := Value.isNone_iff.mp hnone
      exact .absent
    | false =>
      rw [hnone] at hrest
      obtain ⟨items, hi, hrest⟩ := Outcome.of_bind_ok hrest
      cases items with
      | nil => exact .of_iterate hi
      | cons x xs => cases hrest
  · cases h

theorem every_checked {path : String} {tree : Value} (h : validate path tree = .ok ()) :
    Every Checked tree := by
  induction hsize : sizeOf tree using Nat.strongRecOn generalizing tree path with
  | ind size ih =>
    cases tree with
    | node n =>
      obtain ⟨cs, hholds, hchecked, hcs⟩ := validate_node_ok h
      refine .node hholds hchecked fun c hc => ?_
      obtain ⟨hlt, path', hc⟩ := hcs c hc
      refine ih (sizeOf c) ?_ hc rfl
      rw [← hsize, Value.node.sizeOf_spec]
      omega
    | _ => cases h

theorem Every.validate {tree : Value} (h : Every Checked tree) (path : String) :
    Tree.validate path tree = .ok () := by
  induction h generalizing path with
  | @node n cs hholds hn _ ih =>
    obtain ⟨t, c, v, d, p⟩ := n
    have hall (cs : List Value) (h : ∀ c ∈ cs, ∀ path, Tree.validate path c = .ok ()) (i : Nat) :
        validateChildren path i cs = .ok () := by
      induction cs generalizing i with
      | nil => rfl
      | cons c cs ih =>
        obtain ⟨hc, hcs⟩ := List.forall_mem_cons.mp h
        rw [validateChildren, hc, ih hcs]
        rfl
    have hnode := hn.checkNode path
    have hdata := hn.checkNodeData path
    cases hholds with
    | list | sequence =>
      rw [Tree.validate, hnode, hdata, hall cs ih 0]
      rfl
    | absent | set | mapping | str | bytes =>
      unfold Tree.validate
      rw [hnode, hdata]
      rfl

/-- A tree is valid if each of its nodes is. -/
theorem validate_iff {path : String} {tree : Value} :
    validate path tree = .ok () ↔ Every Checked tree :=
  ⟨every_checked, fun h => h.validate path⟩

section Records

/-- The fields of a record, without those that are absent. -/
def present (fields : List (String × Value)) : List (String × Value) :=
  fields.filter fun f => !f.2.isNone

theorem get?_fields (fields : List (String × Value)) (name : String) :
    Entries.get? (fields.map fun f => (.str f.1, f.2)) name =
      (fields.find? fun f => f.1 == name).map (·.2) := by
  have hequals : ((fun e : Value × Value => e.1.equals (.str name)) ∘
      fun f : String × Value => (.str f.1, f.2)) = fun f => f.1 == name := by
    funext f
    simp [Value.equals, Value.equalsWith]
  rw [Entries.get?, Entries.find?, List.find?_map, Option.map_map, hequals]
  rfl

/-- The value of a field of a record, absent if it was left out. -/
theorem get?_present {fields : List (String × Value)} (hnames : (fields.map (·.1)).Nodup)
    {name : String} {v : Value} (h : (name, v) ∈ fields) :
    Value.ofOption (Entries.get? ((present fields).map fun f => (.str f.1, f.2)) name) = v := by
  rw [get?_fields]
  have hfind {f : String × Value} (hf : f ∈ fields) (hname : f.1 = name) : f.2 = v := by
    have hsame : f = (name, v) := List.inj_on_of_nodup_map hnames hf h hname
    rw [hsame]
  cases hfound : (present fields).find? fun f => f.1 == name with
  | some f =>
    have hmem := List.mem_of_mem_filter (List.mem_of_find?_eq_some hfound)
    exact hfind hmem (by simpa using List.find?_some hfound)
  | none =>
    have habsent := List.find?_eq_none.mp hfound
    cases hv : v.isNone with
    | true => exact (Value.isNone_iff.mp hv).symm
    | false =>
      have hmem : (name, v) ∈ present fields := List.mem_filter.mpr ⟨h, by simp [hv]⟩
      simpa using habsent _ hmem

/-- The fields of the record of a node. -/
def nodeFields (type children value data position : Value) : List (String × Value) :=
  [("type", type), ("children", children), ("value", value), ("data", data), ("position", position)]

theorem nodup_nodeFields (type children value data position : Value) :
    ((nodeFields type children value data position).map (·.1)).Nodup := by
  show ["type", "children", "value", "data", "position"].Nodup
  decide

/-- The record of a position, absent if the position is. -/
def positionOf (position : Value) : Outcome Value :=
  if position.isNone then .ok .none else positionRecord position

theorem laterFields_eq {t : String} {value data position record : Value}
    (hdata : data = .none ∨ data.validateData (t ++ ".data") = .ok ())
    (hposition : positionOf position = .ok record) (hrecord : record.isNone = position.isNone) :
    laterFields (.str t) value data position =
      .ok (present [("value", value), ("data", data.asDict), ("position", record)]) := by
  have hplace : position.isNone = false → positionRecord position = .ok record := fun hnone => by
    rw [positionOf, hnone] at hposition
    exact hposition
  have hchecked : data.isNone = false → data.validateData (t ++ ".data") = .ok () := fun hnone => by
    rcases hdata with rfl | hdata
    · cases hnone
    · exact hdata
  have hrender : (Value.str t).render = .ok t := rfl
  have hdict := Value.isNone_asDict data
  cases hv : value.isNone <;> cases hd : data.isNone <;> cases hp : position.isNone <;>
    rw [hp] at hrecord <;> rw [hd] at hdict <;>
    simp [laterFields, present, hv, hd, hp, hdict, hrecord, hplace, hchecked, hrender, bind, Except.bind,
      pure, Except.pure]

/-- A point as a record can describe it: a line and a column from one, and an offset that is not below
zero if there is one. -/
structure Placeable (q : Point) : Prop where
  line : ∃ n : Int, 1 ≤ n ∧ q.line = .int n
  column : ∃ n : Int, 1 ≤ n ∧ q.column = .int n
  offset : q.offset = .none ∨ q.offset.isBelow 0 = .ok false

/-- A position of two such points, or none. -/
inductive Placed : Value → Prop
  | absent : Placed .none
  | span {start stop : Point} : Placeable start → Placeable stop → Placed (.span start stop)

theorem Placeable.make {q : Point} (h : Placeable q) :
    PointOf.make q.line q.column q.offset = .ok q := by
  obtain ⟨line, column, offset⟩ := q
  obtain ⟨⟨n, hn, rfl⟩, ⟨m, hm, rfl⟩, hoffset⟩ := h
  have hline : (Value.int n).isBelow 1 = .ok false := congrArg Except.ok (by simpa using hn)
  have hcolumn : (Value.int m).isBelow 1 = .ok false := congrArg Except.ok (by simpa using hm)
  dsimp only at hoffset
  unfold PointOf.make
  rcases hoffset with rfl | hoffset
  · rw [hline, hcolumn]
    rfl
  · rw [hline, hcolumn, hoffset]
    cases offset.isNone <;> rfl

/-- The record of a point describes it. -/
theorem Placeable.ofPointRecord {q : Point} (h : Placeable q) (path : String) :
    ofPointRecord path (pointRecord q) = .ok q := by
  have hmake := h.make
  obtain ⟨line, column, offset⟩ := q
  obtain ⟨⟨n, -, rfl⟩, ⟨m, -, rfl⟩, -⟩ := h
  obtain ⟨fields, hfields, hline, hcolumn, hfound⟩ : ∃ fields : List (String × Value),
      pointRecord ⟨.int n, .int m, offset⟩ = .record fields ∧
      (fields.find? fun f => f.1 == "line").map (·.2) = some (.int n) ∧
      (fields.find? fun f => f.1 == "column").map (·.2) = some (.int m) ∧
      Value.ofOption ((fields.find? fun f => f.1 == "offset").map (·.2)) = offset := by
    refine ⟨_, rfl, rfl, rfl, ?_⟩
    cases hnone : offset.isNone with
    | true => exact (Value.isNone_iff.mp hnone).symm
    | false => rfl
  rw [hfields, Value.record]
  unfold Tree.ofPointRecord
  simp only [get?_fields, hline, hcolumn, hfound, Value.toInteger, bind, Except.bind, hmake]

theorem Placed.positionOf {position : Value} (h : Placed position) :
    ∃ record, positionOf position = .ok record ∧ record.isNone = position.isNone ∧
      ∀ path, ofPositionRecord path record = .ok position := by
  cases h with
  | absent => exact ⟨.none, rfl, rfl, fun _ => rfl⟩
  | @span start stop hstart hstop =>
    refine ⟨_, rfl, rfl, fun path => ?_⟩
    have hfield {name : String} {q : Point} (hq : Placeable q)
        (hname : ([("start", pointRecord start), ("end", pointRecord stop)].find?
          fun f => f.1 == name).map (·.2) = some (pointRecord q)) :
        Tree.ofPointRecord (path ++ ".position." ++ name) (Value.ofOption (Entries.get?
          ([("start", pointRecord start), ("end", pointRecord stop)].map fun f => (.str f.1, f.2))
            name)) = .ok q := by
      rw [get?_fields, hname]
      exact hq.ofPointRecord _
    rw [Value.record, ofPositionRecord]
    dsimp only
    rw [hfield hstart rfl, hfield hstop rfl]
    rfl

theorem checkKeys_fields (path : String) {fields : List (String × Value)}
    (h : ∀ f ∈ fields, f.1 ∈ recordKeys) :
    checkKeys path (fields.map fun f => (.str f.1, f.2)) = .ok () := by
  have hnone : ((fields.map fun f => ((.str f.1, f.2) : Value × Value)).map (·.1)).filter
      (fun k => !k.among (recordKeys.map .str)) = [] := by
    refine List.filter_eq_nil_iff.mpr fun k hk => ?_
    obtain ⟨e, he, rfl⟩ := List.mem_map.mp hk
    obtain ⟨f, hf, rfl⟩ := List.mem_map.mp he
    have hamong : (Value.str f.1).among (recordKeys.map .str) = true :=
      List.any_eq_true.mpr ⟨.str f.1, List.mem_map_of_mem (h f hf), by
        simp [Value.equals, Value.equalsWith]⟩
    simp [hamong]
  rw [checkKeys, hnone]
  rfl

theorem ofChildrenField_ne {path key : String} (h : key ≠ "children") (v : Value)
    (rest : List (Value × Value)) :
    ofChildrenField path ((.str key, v) :: rest) = ofChildrenField path rest := by
  rw [ofChildrenField]
  · rintro items hkey
    exact h (Value.str.inj (Prod.mk.inj hkey).1)
  · rintro x hkey
    exact h (Value.str.inj (Prod.mk.inj hkey).1)

theorem ofChildrenField_absent (path : String) {fields : List (String × Value)}
    (h : ∀ f ∈ fields, f.1 ≠ "children") :
    ofChildrenField path (fields.map fun f => (.str f.1, f.2)) = .ok none := by
  induction fields with
  | nil => rfl
  | cons f fields ih =>
    obtain ⟨hf, hfields⟩ := List.forall_mem_cons.mp h
    rw [List.map_cons, ofChildrenField_ne hf, ih hfields]

/-- What a record holds of the children of a node, and the children that it describes. -/
inductive Describes (path : String) : Value → Option (List Value) → Prop
  | absent : Describes path .none none
  | list {items cs : List Value} : ofRecords path 0 items = .ok cs → Describes path (.list items) (some cs)

theorem mem_recordKeys {type children value data position : Value} {f : String × Value}
    (h : f ∈ present (nodeFields type children value data position)) : f.1 ∈ recordKeys := by
  have hmem := List.mem_of_mem_filter h
  simp only [nodeFields, List.mem_cons, List.not_mem_nil, or_false] at hmem
  rcases hmem with rfl | rfl | rfl | rfl | rfl <;> simp [recordKeys]

theorem ofChildrenField_nodeFields {path t : String} {children value data position : Value}
    {cs : Option (List Value)} (h : Describes path children cs) :
    ofChildrenField path ((present (nodeFields (.str t) children value data position)).map
      fun f => (.str f.1, f.2)) = .ok cs := by
  have hlater : ∀ f ∈ present [("value", value), ("data", data), ("position", position)],
      f.1 ≠ "children" := fun f hf => by
    have hmem := List.mem_of_mem_filter hf
    simp only [List.mem_cons, List.not_mem_nil, or_false] at hmem
    rcases hmem with rfl | rfl | rfl <;> simp
  cases h with
  | absent =>
    have hfields : present (nodeFields (.str t) .none value data position) =
        ("type", .str t) :: present [("value", value), ("data", data), ("position", position)] := rfl
    rw [hfields, List.map_cons, ofChildrenField_ne (by simp), ofChildrenField_absent path hlater]
  | @list items cs hcs =>
    have hfields : present (nodeFields (.str t) (.list items) value data position) =
        ("type", .str t) :: ("children", .list items) ::
          present [("value", value), ("data", data), ("position", position)] := rfl
    rw [hfields, List.map_cons, List.map_cons, ofChildrenField_ne (by simp), ofChildrenField, hcs]
    rfl

/-- The node that a record describes. -/
theorem ofRecord_nodeFields {path t : String} {children value data record position : Value}
    {cs : Option (List Value)} (ht : t ≠ "") (hchildren : Describes path children cs)
    (hcontent : cs = none ∨ value = .none) (hvalue : value = .none ∨ ∃ s, value = .str s)
    (hdata : data = .none ∨ ∃ entries, data = .dict entries ∧ data.validateData (path ++ ".data") = .ok ())
    (hposition : ofPositionRecord path record = .ok position) :
    ofRecord path (.record (present (nodeFields (.str t) children value data record))) =
      .ok (.node ⟨.str t, Value.ofOption (cs.map .list), value, data, position⟩) := by
  have hnames := nodup_nodeFields (.str t) children value data record
  have hgetvalue := get?_present hnames (show ("value", value) ∈ _ by simp [nodeFields])
  have hgetdata := get?_present hnames (show ("data", data) ∈ _ by simp [nodeFields])
  have hgetposition := get?_present hnames (show ("position", record) ∈ _ by simp [nodeFields])
  have htype : Entries.get? ((present (nodeFields (.str t) children value data record)).map
      fun f => (.str f.1, f.2)) "type" = some (.str t) := by
    rw [get?_fields]
    rfl
  have hdict : data.asDict = data := by
    rcases hdata with rfl | ⟨entries, rfl, -⟩ <;> rfl
  have hmake : NodeOf.make (.str t) (Value.ofOption (cs.map .list)) value data.asDict position =
      .ok ⟨.str t, Value.ofOption (cs.map .list), value, data, position⟩ := by
    rw [hdict]
    rcases hcontent with rfl | rfl <;> simp [NodeOf.make, ht, Value.ofOption, Value.isNone]
  have hfields : ofFields path ((present (nodeFields (.str t) children value data record)).map
      fun f => (.str f.1, f.2)) cs =
        .ok ⟨.str t, Value.ofOption (cs.map .list), value, data, position⟩ := by
    have hmade : (if data.isNone = true then
          NodeOf.make (.str t) (Value.ofOption (cs.map .list)) value data.asDict position
        else do
          data.validateData (path ++ ".data")
          NodeOf.make (.str t) (Value.ofOption (cs.map .list)) value data.asDict position) =
        .ok ⟨.str t, Value.ofOption (cs.map .list), value, data, position⟩ := by
      rcases hdata with rfl | ⟨-, -, hdata⟩
      · exact hmake
      · rw [hdata, hmake]
        cases data.isNone <;> rfl
    unfold ofFields
    simp only [hgetvalue, hgetdata, hgetposition, htype, hposition, Option.getD_some]
    rcases hvalue with rfl | ⟨s, rfl⟩
    all_goals
      dsimp only
      rw [pure_bind]
      simp only [bind, Except.bind] at hmade ⊢
      rw [hmade]
      rfl
  rw [Value.record, ofRecord, checkKeys_fields path fun f hf => mem_recordKeys hf,
    ofChildrenField_nodeFields hchildren]
  show (do return Value.node (← ofFields path _ cs)) = _
  rw [hfields]
  rfl

/-- A field with children as a list. -/
def listField (field : Value) (cs : List Value) : Value :=
  if field.isNone then .none else .list cs

/-- The record of a node whose children have records. -/
theorem toRecord_node {n : Node} {cs records : List Value} (hholds : Holds n.children cs)
    (hrecords : toRecords cs = .ok records) {t : String} (ht : n.type = .str t) {record : Value}
    (hlater : laterFields n.type n.value n.data n.position =
      .ok (present [("value", n.value), ("data", n.data.asDict), ("position", record)])) :
    toRecord (.node n) = .ok (.record (present
      (nodeFields (.str t) (listField n.children records) n.value n.data.asDict record))) := by
  obtain ⟨type, c, v, d, p⟩ := n
  obtain rfl : type = .str t := ht
  dsimp only at hlater hholds ⊢
  have hfields (x : Value) (hx : x.isNone = false) : present (nodeFields (.str t) x v d.asDict record) =
      ("type", .str t) :: ("children", x) ::
        present [("value", v), ("data", d.asDict), ("position", record)] := by
    have htype : (Value.str t).isNone = false := rfl
    simp [nodeFields, present, hx, htype]
  have hsome {x : Value} (hx : x.isNone = false) : listField x records = .list records := by
    rw [listField, hx]
    rfl
  cases hholds with
  | list =>
    rw [hsome rfl, hfields _ rfl, toRecord, hrecords, hlater]
    rfl
  | sequence =>
    rw [hsome rfl, hfields _ rfl, toRecord, hrecords, hlater]
    rfl
  | absent =>
    show (do return Value.record (("type", Value.str t) :: ([] ++ (← laterFields (.str t) v d p)))) = _
    rw [hlater]
    rfl
  | set | mapping | str | bytes =>
    obtain rfl : [] = records := Except.ok.inj hrecords
    rw [hsome rfl, hfields _ rfl]
    show (do return Value.record (("type", Value.str t) ::
      ([("children", Value.list [])] ++ (← laterFields (.str t) v d p)))) = _
    rw [hlater]
    rfl

/-- Records that are changed by `f` describe trees that are changed by `g`: texts and what is absent stay
as they are, and only the values of lists and records are changed. -/
structure Reading (f g : Value → Value) : Prop where
  absent : ∀ v, (f v).isNone = v.isNone
  str : ∀ s, f (.str s) = .str s
  list : ∀ items, f (.list items) = .list (items.map f)
  record : ∀ fields, f (.record fields) = .record (fields.map fun x => (x.1, f x.2))
  node : ∀ {n : Node} {cs : List Value}, Holds n.children cs → g (.node n) =
    .node { n with children := listField n.children (cs.map g), data := f n.data.asDict }

/-- A kind of values that records are of if their fields are. -/
structure Recorder (L : Value → Prop) : Prop where
  none : L .none
  str : ∀ s, L (.str s)
  list : ∀ {items}, (∀ v ∈ items, L v) → L (.list items)
  record : ∀ {fields : List (String × Value)}, (fields.map (·.1)).Nodup → (∀ x ∈ fields, L x.2) →
    L (.record fields)

/-- A node that a record can hold so that it is read back after a change by `f`. -/
structure Tellable (f : Value → Value) (L : Value → Prop) (n : Node) : Prop where
  sound : Sound n
  placed : Placed n.position
  kind : L n.data.asDict
  data : f n.data.asDict = .none ∨ ∃ entries, f n.data.asDict = .dict entries ∧
    ∀ path, (f n.data.asDict).validateData path = .ok ()
  told : n.data = .none ∨ ∀ path, n.data.validateData path = .ok ()
  position : ∀ record, positionOf n.position = .ok record → L record ∧ f record = record

/-- What there is to know of the record of a tree: what it is made of, and that it describes the tree. -/
structure Recorded (f g : Value → Value) (L : Value → Prop) (tree record : Value) : Prop where
  made : toRecord tree = .ok record
  kind : L record
  described : ∀ path, ofRecord path (f record) = .ok (g tree)
  mapping : ∃ entries, record = .dict entries

variable {f g : Value → Value} {L : Value → Prop}

theorem Reading.record_present (hf : Reading f g) (fields : List (String × Value)) :
    f (.record (present fields)) = .record (present (fields.map fun x => (x.1, f x.2))) := by
  have hpresent : present (fields.map fun x => (x.1, f x.2)) =
      (present fields).map fun x => (x.1, f x.2) := by
    simp only [present, List.filter_map]
    congr 1
    refine List.filter_congr fun x _ => ?_
    simp [hf.absent]
  rw [hpresent, hf.record]

theorem recorded_all {cs : List Value} (h : ∀ c ∈ cs, ∃ record, Recorded f g L c record) :
    ∃ records, toRecords cs = .ok records ∧ (∀ r ∈ records, L r) ∧
      ∀ path i, ofRecords path i (records.map f) = .ok (cs.map g) := by
  induction cs with
  | nil => exact ⟨[], rfl, by simp, fun _ _ => rfl⟩
  | cons c cs ih =>
    obtain ⟨⟨record, hrecord⟩, hcs⟩ := List.forall_mem_cons.mp h
    obtain ⟨records, hmade, hkind, hdescribed⟩ := ih hcs
    refine ⟨record :: records, ?_, List.forall_mem_cons.mpr ⟨hrecord.kind, hkind⟩, fun path i => ?_⟩
    · rw [toRecords, hrecord.made, hmade]
      rfl
    · rw [List.map_cons, ofRecords, hrecord.described, hdescribed]
      rfl

theorem Reading.none (hf : Reading f g) : f .none = .none := Value.isNone_iff.mp (hf.absent .none)

theorem Recorder.listField (hL : Recorder L) {children : Value} {records : List Value}
    (h : ∀ r ∈ records, L r) : L (listField children records) := by
  unfold Tree.listField
  split
  · exact hL.none
  · exact hL.list h

/-- The record of a node is of a kind that its fields are of. -/
theorem Recorder.node (hL : Recorder L) {type children value data position : Value} (ht : L type)
    (hc : L children) (hv : L value) (hd : L data) (hp : L position) :
    L (.record (present (nodeFields type children value data position))) := by
  have hnames : ((present (nodeFields type children value data position)).map (·.1)).Nodup :=
    (nodup_nodeFields _ _ _ _ _).sublist (List.filter_sublist.map _)
  refine hL.record hnames fun x hx => ?_
  have hall : ∀ x ∈ nodeFields type children value data position, L x.2 := by
    simp only [nodeFields, List.forall_mem_cons]
    exact ⟨ht, hc, hv, hd, hp, by simp⟩
  exact hall x (List.mem_of_mem_filter hx)

/-- The field of the children holds what the records of the children describe. -/
theorem Reading.describes (hf : Reading f g) (children : Value) {records cs : List Value} {path : String}
    (h : ofRecords path 0 (records.map f) = .ok (cs.map g)) :
    ∃ found, Describes path (f (listField children records)) found ∧
      Value.ofOption (found.map .list) = listField children (cs.map g) := by
  unfold Tree.listField
  cases children.isNone with
  | true =>
    refine ⟨Option.none, ?_, rfl⟩
    rw [if_pos rfl, hf.none]
    exact .absent
  | false =>
    refine ⟨some (cs.map g), ?_, rfl⟩
    rw [if_neg (by simp), hf.list]
    exact .list h

/-- Every tree of tellable nodes has a record that describes it. -/
theorem Every.recorded (hf : Reading f g) (hL : Recorder L) {tree : Value}
    (h : Every (Tellable f L) tree) : ∃ record, Recorded f g L tree record := by
  induction h with
  | @node n cs hholds hn _ ih =>
    obtain ⟨records, hrecords, hkinds, hdescribed⟩ := recorded_all ih
    obtain ⟨t, ht, htype⟩ := hn.sound.type
    obtain ⟨place, hplace, hnone, hread⟩ := hn.placed.positionOf
    obtain ⟨hplacekind, hsame⟩ := hn.position place hplace
    have hlater : laterFields n.type n.value n.data n.position =
        .ok (present [("value", n.value), ("data", n.data.asDict), ("position", place)]) :=
      htype ▸ laterFields_eq (hn.told.imp_right fun h => h _) hplace hnone
    obtain ⟨hvalue, hvalue'⟩ : L n.value ∧ f n.value = n.value := by
      rcases hn.sound.value with hv | ⟨s, hv⟩ <;> rw [hv]
      · exact ⟨hL.none, hf.none⟩
      · exact ⟨hL.str s, hf.str s⟩
    refine ⟨_, toRecord_node hholds hrecords htype hlater,
      hL.node (hL.str t) (hL.listField hkinds) hvalue hn.kind hplacekind, fun path => ?_, _, rfl⟩
    obtain ⟨found, hfound, hfield⟩ := hf.describes n.children (hdescribed path 0)
    have hcontent : found = none ∨ n.value = .none := by
      rcases hn.sound.content with hc | hv
      · have habsent : listField .none records = .none := rfl
        rw [hc, habsent, hf.none] at hfound
        cases hfound
        exact .inl rfl
      · exact .inr hv
    have hmapped : (nodeFields (.str t) (listField n.children records) n.value n.data.asDict place).map
        (fun x => (x.1, f x.2)) =
          nodeFields (.str t) (f (listField n.children records)) n.value (f n.data.asDict) place := by
      show nodeFields (f (.str t)) (f (listField n.children records)) (f n.value) (f n.data.asDict)
        (f place) = _
      rw [hf.str, hvalue', hsame]
    rw [hf.record_present, hmapped, hf.node hholds, ← hfield, htype]
    exact ofRecord_nodeFields ht hfound hcontent hn.sound.value
      (hn.data.imp_right fun ⟨entries, hentries, h⟩ => ⟨entries, hentries, h _⟩) (hread path)

end Records

mutual

/-- A tree with lists for the collections of its children and dictionaries for its data. -/
def relisted : Value → Value
  | .node ⟨t, .list cs, v, d, p⟩ => .node ⟨t, .list (relistedAll cs), v, d.asDict, p⟩
  | .node ⟨t, .sequence _ cs, v, d, p⟩ => .node ⟨t, .list (relistedAll cs), v, d.asDict, p⟩
  | .node ⟨t, .none, v, d, p⟩ => .node ⟨t, .none, v, d.asDict, p⟩
  | .node ⟨t, _, v, d, p⟩ => .node ⟨t, .list [], v, d.asDict, p⟩
  | v => v

/-- Several trees with lists for the collections of their children and dictionaries for their data. -/
def relistedAll : List Value → List Value
  | [] => []
  | c :: rest => relisted c :: relistedAll rest

end

theorem relistedAll_eq_map (cs : List Value) : relistedAll cs = cs.map relisted := by
  induction cs with
  | nil => rfl
  | cons c cs ih => rw [relistedAll, ih, List.map_cons]

theorem reading_plain : Reading id relisted where
  absent _ := rfl
  str _ := rfl
  list items := by rw [List.map_id]; rfl
  record fields := by
    show Value.record fields = .record (fields.map id)
    rw [List.map_id]
  node := by
    intro n cs h
    obtain ⟨t, c, v, d, p⟩ := n
    cases h with
    | list | sequence =>
      rw [relisted, relistedAll_eq_map]
      rfl
    | absent | set | mapping | str | bytes => rfl

theorem recorder_isData : Recorder Value.IsData where
  none := .none
  str := .str
  list := .list
  record := by
    intro fields _ h
    refine .mapping (fun e he => ?_) fun e he => ?_
    · obtain ⟨x, -, rfl⟩ := List.mem_map.mp he
      exact ⟨x.1, rfl⟩
    · obtain ⟨x, hx, rfl⟩ := List.mem_map.mp he
      exact h x hx

/-- Whether the children of a node are in a list, if it has any. -/
def InList (n : Node) : Prop :=
  n.children = .none ∨ ∃ cs, n.children = .list cs

/-- Whether the data of a node are in a dictionary, if it has any. -/
def InDict (n : Node) : Prop :=
  n.data = .none ∨ ∃ entries, n.data = .dict entries

theorem InDict.asDict {n : Node} (h : InDict n) : n.data.asDict = n.data := by
  rcases h with hd | ⟨entries, hd⟩ <;> rw [hd] <;> rfl

theorem InList.listField {n : Node} {cs : List Value} (h : InList n) (hholds : Holds n.children cs) :
    Tree.listField n.children cs = n.children := by
  obtain ⟨t, c, v, d, p⟩ := n
  rcases h with hc | ⟨ds, hc⟩
  · obtain rfl : c = .none := hc
    rfl
  · obtain rfl : c = .list ds := hc
    cases hholds
    rfl

theorem Every.relisted_eq {tree : Value} (h : Every (fun n => InList n ∧ InDict n) tree) :
    relisted tree = tree := by
  induction h with
  | @node n cs hholds hn _ ih =>
    have hmap : cs.map relisted = cs := List.map_congr_left ih |>.trans (List.map_id cs)
    rw [reading_plain.node hholds, hmap, hn.1.listField hholds, id, hn.2.asDict]

theorem Placeable.equals_self {q : Point} (h : Placeable q) :
    Value.equalsWith true (.point q) (.point q) = true := by
  obtain ⟨line, column, offset⟩ := q
  obtain ⟨⟨n, -, rfl⟩, ⟨m, -, rfl⟩, hoffset⟩ := h
  have hn := (Value.IsData.int n).equals_self
  have hm := (Value.IsData.int m).equals_self
  have ho : Value.equalsWith true offset offset = true := by
    rcases hoffset with rfl | hoffset
    · exact Value.IsData.none.equals_self
    · cases offset with
      | bool b => exact (Value.IsData.bool b).equals_self
      | int k => exact (Value.IsData.int k).equals_self
      | float x => exact (Value.IsData.float x).equals_self
      | _ => cases hoffset
  simp [Value.equalsWith, hn, hm, ho]

theorem Placed.equals_self {position : Value} (h : Placed position) :
    Value.equalsWith true position position = true := by
  cases h with
  | absent => exact Value.IsData.none.equals_self
  | @span start stop hstart hstop =>
    have hfirst := hstart.equals_self
    have hlast := hstop.equals_self
    obtain ⟨l, c, o⟩ := start
    obtain ⟨l', c', o'⟩ := stop
    simp only [Value.equalsWith] at hfirst hlast ⊢
    rw [hfirst, hlast]
    rfl

theorem relistedAll_equals {cs : List Value}
    (h : ∀ c ∈ cs, Value.equalsWith true (relisted c) c = true) :
    Value.listEquals true (cs.map relisted) cs = true := by
  induction cs with
  | nil => rw [List.map_nil, Value.listEquals]
  | cons c cs ih =>
    obtain ⟨hc, hcs⟩ := List.forall_mem_cons.mp h
    simp [Value.listEquals, hc, ih hcs]

/-- A valid tree with its children in lists equals the tree with its data in dictionaries. -/
theorem Every.relisted_equals {tree : Value}
    (h : Every (fun n => (Checked n ∧ Placed n.position) ∧ InList n) tree) :
    (relisted tree).equalsWith true tree = true := by
  induction h with
  | @node n cs hholds hn _ ih =>
    obtain ⟨⟨hchecked, hplaced⟩, hlist⟩ := hn
    obtain ⟨t, -, htype⟩ := hchecked.type
    have hchildren : Value.equalsWith true (Tree.listField n.children (cs.map relisted)) n.children =
        true := by
      rcases hlist with hc | ⟨ds, hc⟩
      · rw [hc]
        exact Value.IsData.none.equals_self
      · rw [hc] at hholds ⊢
        cases hholds
        have hall := relistedAll_equals ih
        simpa [Tree.listField, Value.isNone, Value.equalsWith] using hall
    have hvalue : Value.equalsWith true n.value n.value = true := by
      rcases hchecked.value with hv | ⟨s, hv⟩ <;> rw [hv]
      · exact Value.IsData.none.equals_self
      · exact (Value.IsData.str s).equals_self
    have hself := (Value.IsData.str t).equals_self
    rw [reading_plain.node hholds]
    simp [Value.equalsWith, htype, hself, hchildren, hvalue, hchecked.variant.equals_asDict,
      hplaced.equals_self]

theorem Placeable.of_make {n m : Int} {offset : Value} {q : Point}
    (h : PointOf.make (.int n) (.int m) offset = .ok q) : Placeable q := by
  have hbelow {k : Int} {below : Bool} (hk : (Value.int k).isBelow 1 = .ok below) :
      below = decide (k < 1) := (Except.ok.inj hk).symm
  unfold PointOf.make at h
  obtain ⟨above, hline, h⟩ := Outcome.of_bind_ok h
  obtain rfl := hbelow hline
  by_cases hn : n < 1
  · rw [decide_eq_true hn] at h
    obtain ⟨_, -, h⟩ := Outcome.of_bind_ok h
    cases h
  rw [decide_eq_false hn] at h
  obtain ⟨left, hcolumn, h⟩ := Outcome.of_bind_ok h
  obtain rfl := hbelow hcolumn
  by_cases hm : m < 1
  · rw [decide_eq_true hm] at h
    obtain ⟨_, -, h⟩ := Outcome.of_bind_ok h
    cases h
  rw [decide_eq_false hm] at h
  cases hnone : offset.isNone with
  | true =>
    rw [hnone] at h
    obtain rfl := Except.ok.inj h
    exact ⟨⟨n, by omega, rfl⟩, ⟨m, by omega, rfl⟩, .inl (Value.isNone_iff.mp hnone)⟩
  | false =>
    rw [hnone] at h
    change (offset.isBelow 0 >>= _) = _ at h
    obtain ⟨below, hoffset, h⟩ := Outcome.of_bind_ok h
    cases below with
    | true =>
      obtain ⟨_, -, h⟩ := Outcome.of_bind_ok h
      cases h
    | false =>
      obtain rfl := Except.ok.inj h
      exact ⟨⟨n, by omega, rfl⟩, ⟨m, by omega, rfl⟩, .inr hoffset⟩

theorem Placeable.of_record {path : String} {raw : Value} {q : Point}
    (h : Tree.ofPointRecord path raw = .ok q) : Placeable q := by
  unfold Tree.ofPointRecord at h
  split at h
  · split at h
    · dsimp only at h
      split at h
      · rename_i hmade
        obtain rfl := Except.ok.inj h
        obtain ⟨n, -, hmade⟩ := Outcome.of_bind_ok hmade
        obtain ⟨m, -, hmade⟩ := Outcome.of_bind_ok hmade
        exact .of_make hmade
      · split at h
        · obtain ⟨_, -, h⟩ := Outcome.of_bind_ok h
          cases h
        · cases h
    · cases h
  · cases h

theorem Placed.of_record {path : String} {raw position : Value}
    (h : ofPositionRecord path raw = .ok position) : Placed position := by
  unfold ofPositionRecord at h
  split at h
  · obtain rfl := Except.ok.inj h
    exact .absent
  · obtain ⟨start, hstart, h⟩ := Outcome.of_bind_ok h
    obtain ⟨stop, hstop, h⟩ := Outcome.of_bind_ok h
    obtain rfl := Except.ok.inj h
    exact .span (.of_record hstart) (.of_record hstop)
  · cases h

theorem NodeOf.of_make {type children value data position : Value} {n : Node}
    (h : NodeOf.make type children value data position = .ok n) :
    n = ⟨type, children, value, data, position⟩ ∧ (∃ t, t ≠ "" ∧ type = .str t) ∧
      (children = .none ∨ value = .none) := by
  unfold NodeOf.make at h
  split at h
  · rename_i t
    split at h
    · cases h
    · rename_i ht
      split at h
      · cases h
      · rename_i hboth
        obtain rfl := Except.ok.inj h
        refine ⟨rfl, ⟨t, by simpa using ht, rfl⟩, ?_⟩
        cases hc : children.isNone with
        | true => exact .inl (Value.isNone_iff.mp hc)
        | false =>
          rw [hc] at hboth
          exact .inr (Value.isNone_iff.mp (by simpa using hboth))
  · cases h

/-- The value that a field describes. -/
def textField (path : String) : Value → Outcome Value
  | .none => .ok .none
  | .str s => .ok (.str s)
  | _ => .error (badRecord path "value must be a string" none)

/-- The node of some parts, of which the data must be data. -/
def nodeOf (path : String) (type children value data position : Value) : Outcome Node := do
  unless data.isNone do data.validateData (path ++ ".data")
  NodeOf.make type children value data.asDict position

/-- A node that may fail to be made; what it lacks is reported of its record. -/
def reported (path : String) : Outcome Node → Outcome Node
  | .ok n => .ok n
  | .error f => do
    if f.isKind "ValidationError" then throw (badRecord path (← f.render) (some f)) else throw f

theorem ofFields_eq (path : String) (entries : Entries) (children : Option (List Value)) :
    ofFields path entries children = (do
      let value ← textField path (Value.ofOption (Entries.get? entries "value"))
      let position ← ofPositionRecord path (Value.ofOption (Entries.get? entries "position"))
      reported path (nodeOf path ((Entries.get? entries "type").getD (.str ""))
        (Value.ofOption (children.map .list)) value (Value.ofOption (Entries.get? entries "data"))
        position)) := by
  unfold ofFields
  dsimp only
  cases Value.ofOption (Entries.get? entries "value") <;> rfl

theorem checked_of_fields {path : String} {entries : Entries} {children : Option (List Value)} {n : Node}
    (h : ofFields path entries children = .ok n) :
    Checked n ∧ Placed n.position ∧ n.children = Value.ofOption (children.map .list) ∧ InDict n := by
  rw [ofFields_eq] at h
  obtain ⟨value, hvalue, h⟩ := Outcome.of_bind_ok h
  obtain ⟨position, hposition, h⟩ := Outcome.of_bind_ok h
  have htext : value = .none ∨ ∃ s, value = .str s := by
    unfold textField at hvalue
    split at hvalue
    · exact .inl (Except.ok.inj hvalue).symm
    · exact .inr ⟨_, (Except.ok.inj hvalue).symm⟩
    · cases hvalue
  generalize hdata : Value.ofOption (Entries.get? entries "data") = data at h
  unfold reported at h
  split at h
  · rename_i hmade
    obtain rfl := Except.ok.inj h
    unfold nodeOf at hmade
    cases hnone : data.isNone with
    | true =>
      rw [hnone] at hmade
      obtain ⟨rfl, htype, hcontent⟩ := NodeOf.of_make hmade
      obtain rfl := Value.isNone_iff.mp hnone
      exact ⟨⟨⟨htype, hcontent, htext, .inl rfl⟩, .none⟩, .of_record hposition, rfl, .inl rfl⟩
    | false =>
      rw [hnone] at hmade
      obtain ⟨_, hvalid, hmade⟩ := Outcome.of_bind_ok hmade
      obtain ⟨rfl, htype, hcontent⟩ := NodeOf.of_make hmade
      obtain ⟨hvariant, hentries⟩ := Value.validateData_iff.mp hvalid
      obtain ⟨kind, entries, rfl⟩ := hentries
      exact ⟨⟨⟨htype, hcontent, htext, .inr ⟨_, _, rfl⟩⟩, hvariant.asDict⟩, .of_record hposition, rfl,
        .inr ⟨entries, rfl⟩⟩
  · split at h
    · obtain ⟨_, -, h⟩ := Outcome.of_bind_ok h
      cases h
    · cases h

/-- A node that was described by a record. -/
structure Decoded (n : Node) : Prop where
  checked : Checked n
  placed : Placed n.position
  inList : InList n
  inDict : InDict n

theorem every_decoded_node {path : String} {entries : Entries} {children : Option (List Value)} {n : Node}
    (h : ofFields path entries children = .ok n)
    (hchildren : ∀ cs ∈ children, ∀ c ∈ cs, Every Decoded c) : Every Decoded (.node n) := by
  obtain ⟨hchecked, hplaced, hfield, hdict⟩ := checked_of_fields h
  cases children with
  | none =>
    have hnone : Holds n.children [] := hfield ▸ .absent
    exact .node hnone ⟨hchecked, hplaced, .inl hfield, hdict⟩ (by simp)
  | some cs =>
    exact .node (hfield ▸ .list cs) ⟨hchecked, hplaced, .inr ⟨cs, hfield⟩, hdict⟩ (hchildren cs rfl)

/-- The children of a record come from its field of that name, if it has one. -/
theorem ofChildrenField_cases (path : String) (entries : List (Value × Value)) :
    ofChildrenField path entries = .ok none ∨
      (∃ items, (.str "children", .list items) ∈ entries ∧
        ofChildrenField path entries = (do return some (← ofRecords path 0 items))) ∨
      ofChildrenField path entries = .error (badRecord path "children must be a list" none) := by
  induction entries with
  | nil => exact .inl rfl
  | cons e entries ih =>
    unfold ofChildrenField
    split
    · rename_i hnil
      cases hnil
    · rename_i items rest hcons
      obtain ⟨rfl, rfl⟩ := List.cons.inj hcons
      exact .inr (.inl ⟨items, List.mem_cons_self, rfl⟩)
    · exact .inr (.inr rfl)
    · rename_i hcons
      obtain ⟨rfl, rfl⟩ := List.cons.inj hcons
      rcases ih with h | ⟨items, hitems, h⟩ | h
      · exact .inl h
      · exact .inr (.inl ⟨items, List.mem_cons_of_mem _ hitems, h⟩)
      · exact .inr (.inr h)

theorem ofRecords_ok {path : String} {i : Nat} {items cs : List Value}
    (h : ofRecords path i items = .ok cs) :
    ∀ c ∈ cs, ∃ raw ∈ items, ∃ path, ofRecord path raw = .ok c := by
  induction items generalizing i cs with
  | nil =>
    obtain rfl := Except.ok.inj h
    simp
  | cons raw items ih =>
    rw [ofRecords] at h
    obtain ⟨first, hfirst, h⟩ := Outcome.of_bind_ok h
    obtain ⟨others, hothers, h⟩ := Outcome.of_bind_ok h
    obtain rfl := Except.ok.inj h
    intro c hc
    rcases List.mem_cons.mp hc with rfl | hc
    · exact ⟨raw, List.mem_cons_self, _, hfirst⟩
    · obtain ⟨raw', hraw', hdescribed⟩ := ih hothers c hc
      exact ⟨raw', List.mem_cons_of_mem _ hraw', hdescribed⟩

theorem sizeOf_child_lt {kind : MappingKind} {entries : List (Value × Value)} {items : List Value}
    {raw : Value} (hitems : (.str "children", .list items) ∈ entries) (hraw : raw ∈ items) :
    sizeOf raw < sizeOf (Value.mapping kind entries) := by
  have hbelow := List.sizeOf_lt_of_mem hitems
  have hlast := List.sizeOf_lt_of_mem hraw
  simp only [Prod.mk.sizeOf_spec, Value.list.sizeOf_spec, Value.mapping.sizeOf_spec] at hbelow ⊢
  omega

/-- What a record describes is a tree of such nodes. -/
theorem every_decoded {path : String} {raw tree : Value} (h : ofRecord path raw = .ok tree) :
    Every Decoded tree := by
  induction hsize : sizeOf raw using Nat.strongRecOn generalizing raw tree path with
  | ind size ih =>
    cases raw with
    | mapping kind entries =>
      rw [ofRecord] at h
      obtain ⟨_, -, h⟩ := Outcome.of_bind_ok h
      obtain ⟨children, hchildren, h⟩ := Outcome.of_bind_ok h
      obtain ⟨n, hn, h⟩ := Outcome.of_bind_ok h
      obtain rfl := Except.ok.inj h
      refine every_decoded_node hn fun cs hcs c hc => ?_
      obtain rfl : children = some cs := hcs
      rcases ofChildrenField_cases path entries with hnone | ⟨items, hitems, hsome⟩ | herror
      · cases hnone.symm.trans hchildren
      · obtain ⟨ds, hds, hsome⟩ := Outcome.of_bind_ok (hsome.symm.trans hchildren)
        obtain rfl : ds = cs := Option.some.inj (Except.ok.inj hsome)
        obtain ⟨raw, hraw, _, hdescribed⟩ := ofRecords_ok hds c hc
        exact ih (sizeOf raw) (hsize ▸ sizeOf_child_lt hitems hraw) hdescribed rfl
      · cases herror.symm.trans hchildren
    | _ => cases h

theorem Placeable.isData {q : Point} (h : Placeable q) : (pointRecord q).IsData := by
  obtain ⟨line, column, offset⟩ := q
  obtain ⟨⟨n, -, rfl⟩, ⟨m, -, rfl⟩, hoffset⟩ := h
  have hdata : offset.IsData := by
    rcases hoffset with rfl | hoffset
    · exact .none
    · cases offset with
      | bool b => exact .bool b
      | int n => exact .int n
      | float x => exact .float x
      | _ => cases hoffset
  unfold pointRecord
  split
  · exact recorder_isData.record (show ["line", "column"].Nodup by decide)
      (by simpa using ⟨.int n, .int m⟩)
  · exact recorder_isData.record (show ["line", "column", "offset"].Nodup by decide)
      (by simpa using ⟨.int n, .int m, hdata⟩)

theorem Placed.isData {position record : Value} (h : Placed position)
    (hrecord : Tree.positionOf position = .ok record) : record.IsData := by
  cases h with
  | absent =>
    obtain rfl : .none = record := Except.ok.inj hrecord
    exact .none
  | span hstart hstop =>
    obtain rfl := Except.ok.inj hrecord
    exact recorder_isData.record (show ["start", "end"].Nodup by decide)
      (by simpa using ⟨hstart.isData, hstop.isData⟩)

theorem Checked.tellable {n : Node} (h : Checked n) (hplaced : Placed n.position) :
    Tellable id Value.IsData n := by
  have htold : n.data = .none ∨ ∀ path, n.data.validateData path = .ok () :=
    h.data.imp_right fun hentries path => Value.validateData_iff.mpr ⟨h.variant, hentries⟩
  have hdata : n.data.asDict = .none ∨ ∃ entries, n.data.asDict = .dict entries ∧
      ∀ path, n.data.asDict.validateData path = .ok () := by
    rcases h.data with hd | ⟨kind, entries, hd⟩
    · exact .inl (by rw [hd]; rfl)
    · have hdict : n.data.asDict = .dict entries := by rw [hd]; rfl
      exact .inr ⟨entries, hdict, fun path =>
        Value.validateData_iff.mpr ⟨h.variant.asDict, .dict, entries, hdict⟩⟩
  exact ⟨h.toSound, hplaced, h.variant.asDict, hdata, htold, fun record hrecord =>
    ⟨hplaced.isData hrecord, rfl⟩⟩

theorem exists_record {path : String} {tree : Value} (hvalid : validate path tree = .ok ())
    (hplaced : Every (fun n => Placed n.position) tree) :
    ∃ record, toRecord tree = .ok record ∧ record.IsData ∧
      ∀ path, ofRecord path record = .ok (relisted tree) := by
  have htellable : Every (Tellable id Value.IsData) tree :=
    ((validate_iff.mp hvalid).and hplaced).mono fun n hn => hn.1.tellable hn.2
  obtain ⟨record, hrecord⟩ := htellable.recorded reading_plain recorder_isData
  exact ⟨record, hrecord.made, hrecord.kind, hrecord.described⟩

/-- A valid tree with places in its positions has a record, made of data, that describes it, with lists
for the collections of its children and dictionaries for its data: an equal tree, if the children are in
lists already. What a record describes is a valid tree, and so is the record of that tree described by
it. -/
theorem record_describes :
    (∀ {path : String} {tree : Value}, validate path tree = .ok () →
      Every (fun n => Placed n.position) tree →
        ∃ record, toRecord tree = .ok record ∧ record.IsData ∧
          (∀ path, ofRecord path record = .ok (relisted tree)) ∧
          (Every InList tree → (relisted tree).equalsWith true tree = true) ∧
          (Every (fun n => InList n ∧ InDict n) tree → relisted tree = tree)) ∧
    ∀ {path : String} {raw tree : Value}, ofRecord path raw = .ok tree →
      (∀ path, validate path tree = .ok ()) ∧
        ∃ record, toRecord tree = .ok record ∧ ∀ path, ofRecord path record = .ok tree := by
  refine ⟨fun {path tree} hvalid hplaced => ?_, fun {path raw tree} h => ?_⟩
  · obtain ⟨record, hmade, hdata, hdescribed⟩ := exists_record hvalid hplaced
    have hchecked := (validate_iff.mp hvalid).and hplaced
    exact ⟨record, hmade, hdata, hdescribed, fun hlist => (hchecked.and hlist).relisted_equals,
      Every.relisted_eq⟩
  · have hdecoded := every_decoded h
    have hvalid : ∀ path, validate path tree = .ok () :=
      (hdecoded.mono fun n hn => hn.checked).validate
    obtain ⟨record, hmade, -, hdescribed⟩ :=
      exists_record (hvalid path) (hdecoded.mono fun n hn => hn.placed)
    have hlisted : relisted tree = tree := (hdecoded.mono fun n hn => ⟨hn.inList, hn.inDict⟩).relisted_eq
    exact ⟨hvalid, record, hmade, fun path => hlisted ▸ hdescribed path⟩

/-- A node with a tuple in its data, and a record whose line is a text and whose column is a truth
value. -/
theorem record_describes_line :
    let tree : Value := .node ⟨.str "root", .list [], .none, .dict [(.str "k", .tuple [.int 1])],
      .span ⟨.int 1, .int 1, .none⟩ ⟨.int 2, .int 1, .int 3⟩⟩
    let place : Value := .record [("line", .str "7"), ("column", .bool true)]
    let raw : Value := .record
      [("type", .str "text"), ("position", .record [("start", place), ("end", place)])]
    (∃ record, toRecord tree = .ok record ∧ ofRecord "tree" record = .ok tree) ∧
      ∃ n record, ofRecord "tree" raw = .ok n ∧ validate "tree" n = .ok () ∧
        toRecord n = .ok record ∧ ofRecord "tree" record = .ok n := by
  intro tree place raw
  have hevery {P : Node → Prop} (h : P ⟨.str "root", .list [], .none,
      .dict [(.str "k", .tuple [.int 1])], .span ⟨.int 1, .int 1, .none⟩ ⟨.int 2, .int 1, .int 3⟩⟩) :
      Every P tree := .node (.list []) h (by simp)
  have hplaced : Placed (.span ⟨.int 1, .int 1, .none⟩ ⟨.int 2, .int 1, .int 3⟩) :=
    .span ⟨⟨1, by decide, rfl⟩, ⟨1, by decide, rfl⟩, .inl rfl⟩
      ⟨⟨2, by decide, rfl⟩, ⟨1, by decide, rfl⟩, .inr rfl⟩
  have hseven : (Value.str "7").toInteger = .ok 7 := by
    have hdigits : Decimal.integer? ['7'] = .ok 7 := rfl
    simp [Value.toInteger, Value.readInteger, hdigits]
  have hpoint (path : String) : ofPointRecord path place = .ok ⟨.int 7, .int 1, .none⟩ := by
    let fields : List (String × Value) := [("line", .str "7"), ("column", .bool true)]
    have hline : Entries.get? (fields.map fun f => (.str f.1, f.2)) "line" = some (.str "7") := by
      rw [get?_fields]; rfl
    have hcolumn : Entries.get? (fields.map fun f => (.str f.1, f.2)) "column" = some (.bool true) := by
      rw [get?_fields]; rfl
    have hoffset : Entries.get? (fields.map fun f => (.str f.1, f.2)) "offset" = none := by
      rw [get?_fields]; rfl
    show ofPointRecord path (.dict (fields.map fun f => (.str f.1, f.2))) = _
    unfold ofPointRecord
    simp only [hline, hcolumn, hoffset, hseven]
    rfl
  have hposition : ofPositionRecord "tree" (.record [("start", place), ("end", place)]) =
      .ok (.span ⟨.int 7, .int 1, .none⟩ ⟨.int 7, .int 1, .none⟩) := by
    let fields : List (String × Value) := [("start", place), ("end", place)]
    have hstart : Entries.get? (fields.map fun f => (.str f.1, f.2)) "start" = some place := by
      rw [get?_fields]; rfl
    have hstop : Entries.get? (fields.map fun f => (.str f.1, f.2)) "end" = some place := by
      rw [get?_fields]; rfl
    show ofPositionRecord "tree" (.dict (fields.map fun f => (.str f.1, f.2))) = _
    unfold ofPositionRecord
    simp only [hstart, hstop, Value.ofOption, hpoint]
    rfl
  have hfields : raw = .record (present (nodeFields (.str "text") .none .none .none
      (.record [("start", place), ("end", place)]))) := rfl
  have hraw := ofRecord_nodeFields (show "text" ≠ "" by decide) .absent (.inl rfl) (.inl rfl)
    (.inl rfl) hposition
  rw [← hfields] at hraw
  obtain ⟨record, hrecord, -, hdescribed, -, hlisted⟩ :=
    record_describes.1 (show validate "tree" tree = .ok () from rfl) (hevery hplaced)
  obtain ⟨hvalid, again, hagain, hback⟩ := record_describes.2 hraw
  refine ⟨⟨record, hrecord, ?_⟩, _, again, hraw, hvalid "tree", hagain, hback "tree"⟩
  rw [hdescribed, hlisted (hevery ⟨.inr ⟨[], rfl⟩, .inr ⟨_, rfl⟩⟩)]

/-- Children that are held in a tuple come back in a list, which no tuple equals. -/
theorem tuple_described_as_list :
    let leaf : Value := .node ⟨.str "text", .none, .str "a", .none, .none⟩
    let tree : Value := .node ⟨.str "root", .tuple [leaf], .none, .none, .none⟩
    validate "tree" tree = .ok () ∧ ∃ record back, toRecord tree = .ok record ∧
      ofRecord "tree" record = .ok back ∧ back.equalsWith true tree = false := by
  intro leaf tree
  obtain ⟨record, hrecord, -, hdescribed⟩ := exists_record
    (show validate "tree" tree = .ok () from rfl)
    (.node (.sequence .tuple [leaf]) .absent (by simpa using .node .absent .absent (by simp)))
  refine ⟨rfl, record, _, hrecord, hdescribed "tree", ?_⟩
  simp [tree, relisted, Value.equalsWith]

end Tree

end TextPipeline
