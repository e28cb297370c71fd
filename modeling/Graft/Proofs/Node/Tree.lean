import Graft.Proofs.Entries
import Graft.Proofs.Path.Walk

/-!
# Graft.Proofs.Node.Tree

Properties of whole trees, and what a walk makes of them.

`Node.Hereditary` says that a property of a tree is one of its parts: a container
has it if its children do and no key is repeated. That no mapping anywhere repeats a
key is such a property (`Node.hereditary_distinctKeys`), and so is that, together
with a condition on the scalars. A walk keeps every property of this kind, if what it
does at its end does (`Hereditary.visitFrom`), also where it creates nodes and where
it stops half-way.

A walk along one segment or more changes what is below the root, so a root that is
no null keeps its kind (`Node.kind_visitFrom`).
-/

namespace Graft
namespace Node

/-! ### Induction -/

/-- Induction over trees: a container has a property if all its children do. -/
@[elab_as_elim]
theorem treeInduction {motive : Node → Prop} (null : motive .null)
    (scalar : ∀ tag text, motive (.scalar tag text))
    (mapping : ∀ entries : Entries Node, (∀ e ∈ entries, motive e.2) → motive (.mapping entries))
    (sequence : ∀ items : List Node, (∀ v ∈ items, motive v) → motive (.sequence items)) :
    ∀ n, motive n
  | .null => null
  | .scalar tag text => scalar tag text
  | .mapping entries => mapping entries fun e he =>
      have hless : sizeOf e.2 < sizeOf (Node.mapping entries) :=
        Nat.lt_of_lt_of_le (Entries.sizeOf_value_lt he) (by simp)
      treeInduction null scalar mapping sequence e.2
  | .sequence items => sequence items fun v hv =>
      have hless : sizeOf v < sizeOf (Node.sequence items) :=
        Nat.lt_of_lt_of_le (List.sizeOf_lt_of_mem hv) (by simp)
      treeInduction null scalar mapping sequence v
termination_by n => sizeOf n
decreasing_by
  · exact hless
  · exact hless

/-! ### Properties of all parts -/

/-- A property that a container has if its children do and it repeats no key, and
that null and every string have. -/
structure Hereditary (P : Node → Prop) : Prop where
  /-- Null has it. -/
  null : P .null
  /-- Strings have it. -/
  string : ∀ s : String, P (.string s)
  /-- A mapping has it if it repeats no key and its values have it. -/
  mapping : ∀ entries : Entries Node,
    P (.mapping entries) ↔ (Entries.keys entries).Nodup ∧ ∀ e ∈ entries, P e.2
  /-- A sequence has it if its items have it. -/
  sequence : ∀ items : List Node, P (.sequence items) ↔ ∀ v ∈ items, P v

theorem distinctKeysEntries_iff (entries : Entries Node) :
    DistinctKeysEntries entries ↔ ∀ e ∈ entries, DistinctKeys e.2 := by
  induction entries with
  | nil => simp [DistinctKeysEntries]
  | cons e r ih => simp [DistinctKeysEntries, ih]

theorem distinctKeysItems_iff (items : List Node) :
    DistinctKeysItems items ↔ ∀ v ∈ items, DistinctKeys v := by
  induction items with
  | nil => simp [DistinctKeysItems]
  | cons v r ih => simp [DistinctKeysItems, ih]

/-- That no mapping repeats a key is a property of all parts. -/
theorem hereditary_distinctKeys : Hereditary DistinctKeys where
  null := by simp [DistinctKeys]
  string s := by simp [string, DistinctKeys]
  mapping entries := by rw [DistinctKeys, distinctKeysEntries_iff]; rfl
  sequence items := by rw [DistinctKeys, distinctKeysItems_iff]

namespace Hereditary

variable {P : Node → Prop} (hP : Hereditary P)
include hP

theorem empty (k : Kind) : P (Node.empty k) := by
  cases k with
  | null => exact hP.null
  | scalar => exact hP.string ""
  | mapping => exact (hP.mapping []).mpr ⟨List.nodup_nil, by simp⟩
  | sequence => exact (hP.sequence []).mpr (by simp)

/-! ### One segment -/

/-- Children have what their parent has. -/
theorem child {n c : Node} {s : Segment} (hn : P n) (hc : n.child? s = .ok (some c)) : P c := by
  rcases child?_cases hc with ⟨entries, name, rfl, rfl, hget⟩ |
    ⟨items, name, i, rfl, rfl, -, hget⟩ | ⟨items, key, value, rfl, rfl, hfind⟩
  · exact ((hP.mapping entries).mp hn).2 _ (Entries.mem_of_get? hget)
  · exact (hP.sequence items).mp hn _ (List.mem_of_getElem? hget)
  · exact (hP.sequence items).mp hn _ (List.mem_of_find?_eq_some hfind)

/-- A value inserted into a mapping. -/
theorem insert {entries : Entries Node} (hn : P (.mapping entries)) (key : String) {c : Node}
    (hc : P c) : P (.mapping (Entries.insert key c entries)) := by
  obtain ⟨hkeys, hvalues⟩ := (hP.mapping entries).mp hn
  refine (hP.mapping _).mpr ⟨Entries.nodup_keys_insert hkeys key c, fun e he => ?_⟩
  rcases Entries.mem_insert he with rfl | he
  · exact hc
  · exact hvalues e he

/-- An item put in place of another one. -/
theorem set {items : List Node} (hn : P (.sequence items)) (i : Nat) {c : Node} (hc : P c) :
    P (.sequence (items.set i c)) := by
  refine (hP.sequence _).mpr fun v hv => ?_
  rcases List.mem_or_eq_of_mem_set hv with hv | rfl
  · exact (hP.sequence items).mp hn v hv
  · exact hc

/-- An item put behind the others. -/
theorem concat {items : List Node} (hn : P (.sequence items)) {c : Node} (hc : P c) :
    P (.sequence (items ++ [c])) := by
  refine (hP.sequence _).mpr fun v hv => ?_
  rcases List.mem_append.mp hv with hv | hv
  · exact (hP.sequence items).mp hn v hv
  · rw [List.mem_singleton.mp hv]
    exact hc

theorem setChild {n c : Node} (hn : P n) (hc : P c) (s : Segment) : P (n.setChild s c) := by
  cases n with
  | null => cases s <;> exact hn
  | scalar tag text => cases s <;> exact hn
  | mapping entries =>
      cases s with
      | matcher key value => exact hn
      | field name => exact hP.insert hn name hc
  | sequence items =>
      cases s with
      | matcher key value => exact hP.set hn _ hc
      | field name =>
          simp only [Node.setChild]
          cases (Segment.field name).index? with
          | none => exact hn
          | some i => exact hP.set hn i hc

theorem opened {n : Node} (hn : P n) (s : Segment) : P (n.opened s) := by
  cases n with
  | null => exact hP.empty s.container
  | scalar tag text => exact hn
  | mapping entries => exact hn
  | sequence items => exact hn

/-- What is created on the way is empty, or a mapping of one string. -/
theorem created (s : Segment) (fill : Kind) : P (Node.created s fill) := by
  cases s with
  | field name => exact hP.empty fill
  | matcher key value =>
      refine (hP.mapping _).mpr ⟨by simp, fun e he => ?_⟩
      rw [List.mem_singleton.mp he]
      exact hP.string value

theorem prepared {n : Node} (hn : P n) (s : Segment) (fill : Kind) : P (n.prepared s fill) := by
  have hopen := hP.opened hn s
  rcases prepared_cases s fill n with hsame | ⟨entries, name, hopened, -, -, hnew⟩ |
    ⟨items, hopened, hnew⟩
  · rw [hsame]
    exact hopen
  · rw [hopened] at hopen
    rw [hnew]
    exact hP.insert hopen name (hP.empty fill)
  · rw [hopened] at hopen
    rw [hnew]
    exact hP.concat hopen (hP.created s fill)

theorem readied {n : Node} (hn : P n) (create : Option Kind) (s : Segment) (rest : List Segment) :
    P (n.readied create s rest) := by
  cases create with
  | none => exact hn
  | some leaf => exact hP.prepared hn s _

/-! ### Whole walks -/

/-- What is found in a tree has what the tree has. -/
theorem follow {segments : List Segment} {n c : Node} (hn : P n)
    (hc : n.follow segments = .ok (some c)) : P c := by
  induction segments generalizing n with
  | nil =>
      obtain rfl : n = c := by simpa using hc
      exact hn
  | cons s rest ih =>
      obtain ⟨d, hd, hrest⟩ := follow_cons_eq_some_iff.mp hc
      exact ih (hP.child hn hd) hrest

/-- A walk keeps the property, however it ends, if what it does to the node at its end
does. -/
theorem visitFrom {α : Type} {create : Option Kind} {f : Node → Node × α}
    {segments : List Segment} {n : Node}
    (hf : ∀ c, (Node.visitFrom create get segments n).2 = .reached c → P c → P (f c).1)
    (hn : P n) : P (Node.visitFrom create f segments n).1 := by
  induction segments generalizing n with
  | nil => exact hf n rfl hn
  | cons s rest ih =>
      have hready := hP.readied hn create s rest
      rcases fst_visitFrom_cons_cases create f s rest n with hstays | ⟨c, hc, hset⟩
      · rw [hstays]
        exact hready
      · rw [visitFrom_cons, hc] at hf
        rw [hset]
        exact hP.setChild hready (ih hf (hP.child hready hc)) s

end Hereditary

/-! ### The kind of the root -/

theorem kind_setChild (n : Node) (s : Segment) (c : Node) : (n.setChild s c).kind = n.kind := by
  cases n with
  | null => cases s <;> rfl
  | scalar tag text => cases s <;> rfl
  | mapping entries => cases s <;> rfl
  | sequence items =>
      cases s with
      | matcher key value => rfl
      | field name =>
          simp only [setChild]
          cases (Segment.field name).index? <;> rfl

theorem kind_prepared {n : Node} (hn : n.kind ≠ .null) (s : Segment) (fill : Kind) :
    (n.prepared s fill).kind = n.kind := by
  cases n with
  | null => exact absurd rfl hn
  | scalar tag text => cases s <;> rfl
  | mapping entries => cases s <;> rfl
  | sequence items =>
      cases s with
      | matcher key value => rfl
      | field name =>
          simp only [prepared, opened_sequence]
          cases (Segment.field name).index? <;> rfl

/-- A walk leaves its root of the kind that it has when the first step is prepared. -/
theorem kind_visitFrom_cons {α : Type} (create : Option Kind) (f : Node → Node × α) (s : Segment)
    (rest : List Segment) (n : Node) :
    (visitFrom create f (s :: rest) n).1.kind = (n.readied create s rest).kind := by
  rcases fst_visitFrom_cons_cases create f s rest n with hstays | ⟨c, -, hset⟩
  · rw [hstays]
  · rw [hset, kind_setChild]

/-- A walk that has somewhere to go keeps the kind of a root that is no null. -/
theorem kind_visitFrom {α : Type} {segments : List Segment} (hs : segments ≠ [])
    (create : Option Kind) (f : Node → Node × α) {n : Node} (hn : n.kind ≠ .null) :
    (visitFrom create f segments n).1.kind = n.kind := by
  cases segments with
  | nil => exact absurd rfl hs
  | cons s rest =>
      rw [kind_visitFrom_cons]
      cases create with
      | none => rfl
      | some leaf => exact kind_prepared hn s _

end Node
end Graft
