import Graft.Path.Visit

/-!
# Graft.Proofs.Path.Step

One step of a walk, as a lookup followed by an update.

`Node.modifyChild` finds a child and changes it in one go. Here the two halves are
separated: `Node.child?` finds the child, and `Node.setChild` puts another node in
its place (`modifyChild_eq`). All that is said about walks is then said about
these two:

* what a child is found by is one of three things (`child?_cases`);
* a child that was put in place is the one that is found (`child?_setChild`), as
  long as the segment still leads to it (`Segment.admits`);
* putting a child back in its own place changes nothing (`setChild_child`), and of
  two children put in one place the second counts (`setChild_setChild`);
* `Node.prepared` opens a null and creates at most one child, behind what is there
  (`prepared_cases`). It does nothing where there is a child already, and nothing more
  the second time (`prepared_of_some`, `prepared_prepared`);
* neither of them touches a field that the segment does not name.
-/

namespace Graft

/-! ### Changing one element -/

/-- The entry that is changed is the first of its key, the one that an insertion
replaces. -/
theorem Entries.modify_eq {α β : Type} (key : String) (g : α → α × β) (es : Entries α) :
    modify key g es = (get? key es).map fun v => (insert key (g v).1 es, (g v).2) := by
  induction es with
  | nil => rfl
  | cons e r ih =>
      obtain ⟨k, v⟩ := e
      by_cases h : k = key
      · simp [modify, get?, insert, h]
      · simp only [modify, get?, insert, h, if_false, ih]
        cases get? key r <;> rfl

theorem modifyAt_eq {α β : Type} (g : α → α × β) (i : Nat) (items : List α) :
    modifyAt g i items = items[i]?.map fun a => (items.set i (g a).1, (g a).2) := by
  induction items generalizing i with
  | nil => cases i <;> rfl
  | cons a r ih =>
      cases i with
      | zero => rfl
      | succ i =>
          simp only [modifyAt, ih, List.getElem?_cons_succ, List.set_cons_succ]
          cases r[i]? <;> rfl

theorem modifyFirst_eq {α β : Type} (p : α → Bool) (g : α → α × β) (items : List α) :
    modifyFirst p g items =
      (items.find? p).map fun a => (items.set (items.findIdx p) (g a).1, (g a).2) := by
  induction items with
  | nil => rfl
  | cons a r ih =>
      by_cases h : p a = true
      · simp [modifyFirst, List.findIdx_cons, h]
      · simp only [modifyFirst, h, ih, List.find?_cons, List.findIdx_cons]
        cases r.find? p <;> simp

/-- The first element that satisfies `p`, replaced by another one that does. -/
theorem find?_set_findIdx {α : Type} {p : α → Bool} {items : List α} {a b : α}
    (ha : items.find? p = some a) (hb : p b = true) :
    (items.set (items.findIdx p) b).find? p = some b := by
  induction items with
  | nil => cases ha
  | cons x r ih =>
      by_cases hx : p x = true
      · simp [List.findIdx_cons, hx, hb]
      · rw [List.find?_cons_of_neg hx] at ha
        simp [List.findIdx_cons, hx, ih ha]

/-- The first element that satisfies `p` stays where it is if it is replaced by another one
that does. -/
theorem findIdx_set_findIdx {α : Type} {p : α → Bool} {items : List α} {a : α}
    (ha : p a = true) : (items.set (items.findIdx p) a).findIdx p = items.findIdx p := by
  induction items with
  | nil => rfl
  | cons x r ih =>
      by_cases hx : p x = true
      · simp [List.findIdx_cons, hx, ha]
      · simp [List.findIdx_cons, hx, ih]

/-- An element put in its own place. -/
theorem set_of_getElem? {α : Type} {items : List α} {i : Nat} {a : α}
    (h : items[i]? = some a) : items.set i a = items := by
  obtain ⟨hi, rfl⟩ := List.getElem?_eq_some_iff.mp h
  exact List.set_getElem_self hi

/-- An entry's value put in its own place. -/
theorem Entries.insert_of_get? {α : Type} {key : String} {v : α} {es : Entries α}
    (h : get? key es = some v) : insert key v es = es := by
  induction es with
  | nil => cases h
  | cons e r ih =>
      obtain ⟨k, w⟩ := e
      by_cases hk : k = key
      · simp only [get?, hk, if_true, Option.some.injEq] at h
        simp [insert, hk, h]
      · simp only [get?, hk, if_false] at h
        simp [insert, hk, ih h]

/-- Of two insertions of one key the second counts. -/
theorem Entries.insert_insert_self {α : Type} (key : String) (v w : α) (es : Entries α) :
    insert key w (insert key v es) = insert key w es := by
  induction es with
  | nil => simp [insert]
  | cons e r ih =>
      obtain ⟨k, u⟩ := e
      by_cases hk : k = key
      · simp [insert, hk]
      · simp [insert, hk, ih]

/-! ### Putting a child in place -/

/-- Whether a segment leads to a node wherever it stands: a matcher asks for a
field of the node, and a field for nothing. -/
def Segment.admits : Segment → Node → Bool
  | .field _, _ => true
  | .matcher key value, c => c.hasField key value

namespace Node

/-- The node with `c` in the place of the child that a segment leads to. It is
meant for nodes that have this child. -/
def setChild (n : Node) (s : Segment) (c : Node) : Node :=
  match n, s with
  | .mapping entries, .field name => .mapping (Entries.insert name c entries)
  | .sequence items, .field _ =>
    match s.index? with
    | some i => .sequence (items.set i c)
    | none => .sequence items
  | .sequence items, .matcher key value =>
    .sequence (items.set (items.findIdx (hasField key value)) c)
  | n, _ => n

/-- Changing a child is finding it and putting the result in its place. -/
theorem modifyChild_eq {α : Type} (s : Segment) (g : Node → Node × Visit α) (n : Node) :
    n.modifyChild s g =
      match n.child? s with
      | .error o => (n, .stopped o)
      | .ok none => (n, .absent)
      | .ok (some c) => (n.setChild s (g c).1, (g c).2) := by
  cases n with
  | null => cases s <;> rfl
  | scalar tag text => cases s <;> rfl
  | mapping entries =>
      cases s with
      | matcher key value => rfl
      | field name =>
          simp only [modifyChild, child?, setChild, Entries.modify_eq]
          cases Entries.get? name entries <;> rfl
  | sequence items =>
      cases s with
      | field name =>
          simp only [modifyChild, child?, setChild, modifyAt_eq]
          cases (Segment.field name).index? with
          | none => rfl
          | some i => cases h : items[i]? <;> simp [h]
      | matcher key value =>
          simp only [modifyChild, child?, setChild, modifyFirst_eq]
          cases items.find? (hasField key value) <;> rfl

/-- A child is found under a key of a mapping, at a position of a sequence, or by a
matcher among the elements. -/
theorem child?_cases {n c : Node} {s : Segment} (h : n.child? s = .ok (some c)) :
    (∃ entries name, n = .mapping entries ∧ s = .field name ∧
        Entries.get? name entries = some c) ∨
      (∃ items name i, n = .sequence items ∧ s = .field name ∧
        (Segment.field name).index? = some i ∧ items[i]? = some c) ∨
      ∃ items key value, n = .sequence items ∧ s = .matcher key value ∧
        items.find? (hasField key value) = some c := by
  cases n with
  | null => cases h
  | scalar tag text => cases h
  | mapping entries =>
      cases s with
      | matcher key value => cases h
      | field name => exact .inl ⟨entries, name, rfl, rfl, by simpa [child?] using h⟩
  | sequence items =>
      cases s with
      | matcher key value =>
          exact .inr (.inr ⟨items, key, value, rfl, rfl, by simpa [child?] using h⟩)
      | field name =>
          cases hi : (Segment.field name).index? with
          | none => simp [child?, hi] at h
          | some i =>
              exact .inr (.inl ⟨items, name, i, rfl, rfl, hi, by simpa [child?, hi] using h⟩)

/-- The child that a segment leads to is one that it admits. -/
theorem admits_of_child {n c : Node} {s : Segment} (h : n.child? s = .ok (some c)) :
    s.admits c = true := by
  rcases child?_cases h with ⟨entries, name, rfl, rfl, -⟩ | ⟨items, name, i, rfl, rfl, -, -⟩ |
    ⟨items, key, value, rfl, rfl, hfind⟩
  · rfl
  · rfl
  · exact List.find?_some hfind

/-- The child put in place is the one found, if the segment still leads to it. -/
theorem child?_setChild {n c c' : Node} {s : Segment} (h : n.child? s = .ok (some c))
    (hc : s.admits c' = true) : (n.setChild s c').child? s = .ok (some c') := by
  rcases child?_cases h with ⟨entries, name, rfl, rfl, -⟩ | ⟨items, name, i, rfl, rfl, hi, hget⟩ |
    ⟨items, key, value, rfl, rfl, hfind⟩
  · simp [setChild, child?]
  · have hlt : i < items.length := (List.getElem?_eq_some_iff.mp hget).1
    simp [setChild, child?, hi, List.getElem?_set_self hlt]
  · have hset := find?_set_findIdx hfind hc
    simp only [setChild, child?, hset]

/-- A child put in its own place changes nothing. -/
theorem setChild_child {n c : Node} {s : Segment} (h : n.child? s = .ok (some c)) :
    n.setChild s c = n := by
  rcases child?_cases h with ⟨entries, name, rfl, rfl, hget⟩ |
    ⟨items, name, i, rfl, rfl, hi, hget⟩ | ⟨items, key, value, rfl, rfl, hfind⟩
  · rw [setChild, Entries.insert_of_get? hget]
  · simp only [setChild, hi, set_of_getElem? hget]
  · rw [List.find?_eq_getElem?_findIdx] at hfind
    rw [setChild, set_of_getElem? hfind]

/-- Of two children put in one place the second counts, if the segment leads to the first
one. -/
theorem setChild_setChild {s : Segment} {a : Node} (ha : s.admits a = true) (n b : Node) :
    (n.setChild s a).setChild s b = n.setChild s b := by
  cases n with
  | null => cases s <;> rfl
  | scalar tag text => cases s <;> rfl
  | mapping entries =>
      cases s with
      | matcher key value => rfl
      | field name => simp only [setChild, Entries.insert_insert_self]
  | sequence items =>
      cases s with
      | matcher key value =>
          have hstays : (items.set (items.findIdx (hasField key value)) a).findIdx
              (hasField key value) = items.findIdx (hasField key value) := findIdx_set_findIdx ha
          simp only [setChild, hstays, List.set_set]
      | field name =>
          simp only [setChild]
          cases (Segment.field name).index? with
          | none => rfl
          | some i => simp only [List.set_set]

/-- Only the field that a segment names is touched. -/
theorem field?_setChild_of_ne {s : Segment} {key : String} (h : s ≠ .field key) (n c : Node) :
    (n.setChild s c).field? key = n.field? key := by
  cases n with
  | null => cases s <;> rfl
  | scalar tag text => cases s <;> rfl
  | mapping entries =>
      cases s with
      | matcher _ _ => rfl
      | field name =>
          have hne : name ≠ key := fun he => h (he ▸ rfl)
          exact Entries.get?_insert_of_ne hne c entries
  | sequence items =>
      cases s with
      | matcher _ _ => rfl
      | field name =>
          simp only [setChild]
          cases (Segment.field name).index? <;> rfl

end Node

/-! ### Preparing a child -/

theorem Entries.ensure_of_get? {α : Type} {key : String} {v : α} {es : Entries α}
    (h : get? key es = some v) (w : α) : ensure key w es = es := by
  simp [ensure, contains, h]

/-- A field that was missing is there afterwards. -/
theorem Entries.ensure_ensure {α : Type} (key : String) (v w : α) (es : Entries α) :
    ensure key w (ensure key v es) = ensure key v es := by
  by_cases h : contains key es = true
  · simp [ensure, h]
  · rw [show ensure key v es = insert key v es by simp [ensure, h]]
    exact ensure_of_get? (get?_insert_self key v es) w

theorem ensureAt_of_getElem? {α : Type} {i : Nat} {a : α} {items : List α}
    (h : items[i]? = some a) (b : α) : ensureAt i b items = items := by
  have hi : i ≠ items.length := Nat.ne_of_lt (List.getElem?_eq_some_iff.mp h).1
  simp [ensureAt, hi]

/-- An item is appended at most once: the position right after the last has moved
on then. -/
theorem ensureAt_ensureAt {α : Type} (i : Nat) (a b : α) (items : List α) :
    ensureAt i b (ensureAt i a items) = ensureAt i a items := by
  by_cases h : i = items.length
  · simp [ensureAt, h]
  · simp [ensureAt, h]

theorem ensureMatch_of_find? {key value : String} {c : Node} {items : List Node}
    (h : items.find? (Node.hasField key value) = some c) : ensureMatch key value items = items := by
  have hany : items.any (Node.hasField key value) = true :=
    List.any_eq_true.mpr ⟨c, List.mem_of_find?_eq_some h, List.find?_some h⟩
  simp [ensureMatch, hany]

/-- The item that is appended for a matcher matches. -/
theorem hasField_new (key value : String) :
    Node.hasField key value (.mapping [(key, .string value)]) = true := by
  simp [Node.hasField, Node.fieldText?, Node.field?]

theorem ensureMatch_ensureMatch (key value : String) (items : List Node) :
    ensureMatch key value (ensureMatch key value items) = ensureMatch key value items := by
  by_cases h : items.any (Node.hasField key value) = true
  · simp [ensureMatch, h]
  · simp [ensureMatch, h, hasField_new]

namespace Node

@[simp] theorem opened_mapping (s : Segment) (entries : Entries Node) :
    opened s (.mapping entries) = .mapping entries := rfl

@[simp] theorem opened_sequence (s : Segment) (items : List Node) :
    opened s (.sequence items) = .sequence items := rfl

/-- Where there is a child already, nothing is prepared. -/
theorem prepared_of_some {n c : Node} {s : Segment} (h : n.child? s = .ok (some c))
    (fill : Kind) : n.prepared s fill = n := by
  rcases child?_cases h with ⟨entries, name, rfl, rfl, hget⟩ |
    ⟨items, name, i, rfl, rfl, hi, hget⟩ | ⟨items, key, value, rfl, rfl, hfind⟩
  · simp only [prepared, opened_mapping, Entries.ensure_of_get? hget]
  · simp only [prepared, opened_sequence, hi, ensureAt_of_getElem? hget]
  · simp only [prepared, opened_sequence, ensureMatch_of_find? hfind]

/-- A segment that cannot enter a node has nothing to prepare there. -/
theorem prepared_of_error {n : Node} {s : Segment} {o : Obstacle} (h : n.child? s = .error o)
    (fill : Kind) : n.prepared s fill = n := by
  cases n with
  | null => cases h
  | scalar tag text => cases s <;> rfl
  | mapping entries =>
      cases s with
      | matcher key value => rfl
      | field name => cases h
  | sequence items =>
      cases s with
      | matcher key value => cases h
      | field name =>
          cases hi : (Segment.field name).index? with
          | none => simp only [prepared, opened_sequence, hi]
          | some i => simp [child?, hi] at h

/-- A null is opened as a mapping or as a sequence; other nodes are opened
already. -/
theorem opened_cases (s : Segment) (n : Node) :
    n ≠ .null ∧ n.opened s = n ∨
      n = .null ∧ (n.opened s = .mapping [] ∨ n.opened s = .sequence []) := by
  cases n with
  | null =>
      refine Or.inr ⟨rfl, ?_⟩
      cases s with
      | matcher key value => exact Or.inr rfl
      | field name =>
          cases hi : (Segment.field name).index? with
          | none => exact Or.inl (by simp [opened, Segment.container, hi, empty])
          | some i => exact Or.inr (by simp [opened, Segment.container, hi, empty])
  | scalar tag text => exact Or.inl ⟨nofun, rfl⟩
  | mapping entries => exact Or.inl ⟨nofun, rfl⟩
  | sequence items => exact Or.inl ⟨nofun, rfl⟩

theorem opened_ne_null (s : Segment) (n : Node) : n.opened s ≠ .null := by
  rcases opened_cases s n with ⟨hne, h⟩ | ⟨-, h | h⟩
  · rwa [h]
  · rw [h]; nofun
  · rw [h]; nofun

theorem opened_of_ne_null {n : Node} (h : n ≠ .null) (s : Segment) : n.opened s = n := by
  rcases opened_cases s n with ⟨-, h'⟩ | ⟨h', -⟩
  · exact h'
  · exact absurd h' h

/-- Opening makes no field. -/
theorem field?_opened (s : Segment) (key : String) (n : Node) :
    (n.opened s).field? key = n.field? key := by
  rcases opened_cases s n with ⟨-, h⟩ | ⟨rfl, h | h⟩
  · rw [h]
  · rw [h]; rfl
  · rw [h]; rfl

/-- A child is prepared in the opened node. -/
theorem prepared_opened (s : Segment) (fill : Kind) (n : Node) :
    (n.opened s).prepared s fill = n.prepared s fill := by
  unfold prepared
  rw [opened_of_ne_null (opened_ne_null s n)]

/-- The child that is created for a segment. -/
def created (s : Segment) (fill : Kind) : Node :=
  match s with
  | .field _ => .empty fill
  | .matcher key value => .mapping [(key, .string value)]

/-- Preparing opens a node and creates at most one child, under a key that is missing or
behind the items. -/
theorem prepared_cases (s : Segment) (fill : Kind) (n : Node) :
    n.prepared s fill = n.opened s ∨
      (∃ entries name, n.opened s = .mapping entries ∧ s = .field name ∧
        Entries.get? name entries = none ∧
        n.prepared s fill = .mapping (Entries.insert name (.empty fill) entries)) ∨
      ∃ items, n.opened s = .sequence items ∧
        n.prepared s fill = .sequence (items ++ [created s fill]) := by
  rw [← prepared_opened]
  have hne := opened_ne_null s n
  cases h : n.opened s with
  | null => exact absurd h hne
  | scalar tag text => exact .inl (by cases s <;> rfl)
  | mapping entries =>
      cases s with
      | matcher key value => exact .inl rfl
      | field name =>
          cases hget : Entries.get? name entries with
          | some c =>
              refine .inl ?_
              simp only [prepared, opened_mapping, Entries.ensure_of_get? hget]
          | none =>
              refine .inr (.inl ⟨entries, name, rfl, rfl, hget, ?_⟩)
              simp [prepared, Entries.ensure, Entries.contains, hget]
  | sequence items =>
      cases s with
      | matcher key value =>
          simp only [prepared, opened_sequence, ensureMatch]
          split
          · exact .inl rfl
          · exact .inr (.inr ⟨items, rfl, rfl⟩)
      | field name =>
          simp only [prepared, opened_sequence]
          cases (Segment.field name).index? with
          | none => exact .inl rfl
          | some i =>
              simp only [ensureAt]
              split
              · exact .inr (.inr ⟨items, rfl, rfl⟩)
              · exact .inl rfl

/-- Preparing twice is preparing once, even for children of two kinds. -/
theorem prepared_prepared (s : Segment) (fill fill' : Kind) (n : Node) :
    (n.prepared s fill).prepared s fill' = n.prepared s fill := by
  rw [← prepared_opened s fill n]
  have hne := opened_ne_null s n
  cases h : n.opened s with
  | null => exact absurd h hne
  | scalar tag text => cases s <;> rfl
  | mapping entries =>
      cases s with
      | matcher key value => rfl
      | field name => simp only [prepared, opened_mapping, Entries.ensure_ensure]
  | sequence items =>
      cases s with
      | matcher key value => simp only [prepared, opened_sequence, ensureMatch_ensureMatch]
      | field name =>
          cases hi : (Segment.field name).index? with
          | none => simp only [prepared, opened_sequence, hi]
          | some i => simp only [prepared, opened_sequence, hi, ensureAt_ensureAt]

/-- Preparing a child leaves the other fields alone. -/
theorem field?_prepared_of_ne {s : Segment} {key : String} (h : s ≠ .field key) (fill : Kind)
    (n : Node) : (n.prepared s fill).field? key = n.field? key := by
  rw [← field?_opened s key n]
  rcases prepared_cases s fill n with hsame | ⟨entries, name, hopened, rfl, -, hnew⟩ |
    ⟨items, hopened, hnew⟩
  · rw [hsame]
  · have hname : name ≠ key := fun he => h (he ▸ rfl)
    rw [hopened, hnew]
    exact Entries.get?_insert_of_ne hname _ entries
  · rw [hopened, hnew]
    rfl

end Node
end Graft
