import Graft.Proofs.Path.Walk

/-!
# Graft.Proofs.Path.Place

Paths as places of a document: what is written at a place is read there
(`Node.lookup_visit`), and nowhere else (`Node.visit_apart`).

The first is about one path, walked along several times. Its matchers have to lead to the
same elements each time, which they do along steady segments
(`Node.visitFrom_visitFrom_of_reached`).

The second is about two paths of fields that part (`Segment.Apart`). What they share leads both
of them to one node, in which they go on to two children: under two keys or at two positions.
A step to one of them leaves the other (`Node.child?_setChild_of_beside`), also where it creates
(`Node.child?_prepared_of_beside`), because what is new stands behind what is there; and of two
children put in place it does not matter which was the first (`Node.setChild_comm`).
-/

namespace Graft
namespace Node

/-! ### One place -/

/-- **What was found or created is what is read there.** If a walk along steady segments
arrives at a node, be it one that creates or not, then a lookup finds this node in the
document it leaves, and walking there again creates nothing more, for a leaf of whatever
kind. A value put in place of the node is what a lookup finds then, and to put it there
with the first walk or with a second one makes no difference. -/
theorem lookup_visit {n c : Node} {p : Path} (hp : Segment.Steady p.segments)
    {create : Option Kind} (h : (n.visit create get p).2 = .ok (some c)) :
    let after := (n.visit create get p).1
    (after.lookup p = .ok (some c) ∧
        ∀ leaf, after.lookupOrCreate leaf p = (after, .ok (some c))) ∧
      ∀ w, (n.visit create (overwrite w) p).2 = .ok (some ()) ∧
        (n.visit create (overwrite w) p).1.lookup p = .ok (some w) ∧
        replace w p after = n.visit create (overwrite w) p := by
  intro after
  have hreached := visit_eq_some_iff.mp h
  have hagain {α : Type} (create' : Option Kind) (g : Node → Node × α) :
      after.visit create' g p = n.visit create g p := by
    have hwalks := visitFrom_visitFrom_of_reached hp hreached get create' g
    simp only [after, visit]
    rw [hwalks]
    rfl
  refine ⟨⟨?_, ?_⟩, ?_⟩
  · exact lookup_eq_ok_iff.mpr (follow_visitFrom hp hreached get)
  · intro leaf
    rw [lookupOrCreate, hagain (some leaf) get]
    exact Prod.ext rfl h
  · intro w
    refine ⟨?_, ?_, hagain none (overwrite w)⟩
    · rw [visit_eq_some_iff, visitFrom_outcome, hreached]
      rfl
    · exact lookup_eq_ok_iff.mpr (follow_visitFrom hp hreached (overwrite w))

/-- A matcher finds the element that was made for it also when a list was put into it. -/
theorem lookup_visit_made :
    let n : Node := .mapping [("images", .sequence [.null])]
    let p : Path :=
      ⟨"images.[name=web].tags", [.field "images", .matcher "name" "web", .field "tags"]⟩
    let after := (n.visit (some .scalar) get p).1
    ((n.visit (some .scalar) get p).2 = .ok (some (.string "")) ∧
        after.lookupOrCreate .mapping p = (after, .ok (some (.string "")))) ∧
      (n.visit (some .scalar) (overwrite (.sequence [.null])) p).1.lookup p =
        .ok (some (.sequence [.null])) := by
  intro n p after
  have hp : Segment.Steady p.segments := by decide
  have hmade : (n.visit (some .scalar) get p).2 = .ok (some (.string "")) := rfl
  obtain ⟨⟨-, hagain⟩, hwritten⟩ := lookup_visit hp hmade
  exact ⟨⟨hmade, hagain .mapping⟩, (hwritten _).2.1⟩

end Node

/-! ### Two places -/

namespace Segment

/-- Two segments that lead to two children wherever they meet one node: they are not the
same key, and not the same position either, which can be written in several ways. -/
structure Beside (s t : Segment) : Prop where
  /-- They are not the same. -/
  ne : s ≠ t
  /-- They are not the same position. -/
  index_ne : ∀ i, s.index? = some i → t.index? ≠ some i

namespace Beside

theorem symm {s t : Segment} (h : s.Beside t) : t.Beside s :=
  ⟨h.ne.symm, fun i ht hs => h.index_ne i hs ht⟩

/-- In a mapping they are two keys. -/
theorem key_ne {x y : String} (h : (field x).Beside (field y)) : x ≠ y := by
  rintro rfl
  exact h.ne rfl

/-- In a sequence they are two positions. -/
theorem position_ne {s t : Segment} (h : s.Beside t) {i j : Nat} (hs : s.index? = some i)
    (ht : t.index? = some j) : i ≠ j := by
  rintro rfl
  exact h.index_ne i hs ht

end Beside

/-- Two paths part: neither ends on the way that they share, and behind it they go on to two
places. -/
inductive Apart : List Segment → List Segment → Prop where
  /-- They go on to two places. -/
  | here {s t : Segment} (h : s.Beside t) (p q : List Segment) : Apart (s :: p) (t :: q)
  /-- They share a segment, and part behind it. -/
  | behind (s : Segment) {p q : List Segment} (h : Apart p q) : Apart (s :: p) (s :: q)

end Segment

/-- Insertions of two keys, one of which is there already, can change places. -/
theorem Entries.insert_comm {α : Type} {key other : String} (h : key ≠ other) {es : Entries α}
    {u : α} (hother : get? other es = some u) (v w : α) :
    insert other w (insert key v es) = insert key v (insert other w es) := by
  induction es with
  | nil => cases hother
  | cons e r ih =>
      obtain ⟨k, x⟩ := e
      by_cases hkey : k = key
      · simp [insert, hkey, h]
      · by_cases hk : k = other
        · simp [insert, hk, h.symm]
        · rw [get?_cons_of_ne hk] at hother
          simp [insert, hkey, hk, ih hother]

namespace Node

variable {α β : Type} {x y : String}

/-! ### One step -/

/-- A child put in one place leaves what is in the other. -/
theorem child?_setChild_of_beside (h : (Segment.field x).Beside (.field y)) (n c : Node) :
    (n.setChild (.field x) c).child? (.field y) = n.child? (.field y) := by
  cases n with
  | null => rfl
  | scalar tag text => rfl
  | mapping entries =>
      simp only [setChild, child?, Entries.get?_insert_of_ne h.key_ne]
  | sequence items =>
      cases hx : (Segment.field x).index? with
      | none => simp only [setChild, hx]
      | some i =>
          cases hy : (Segment.field y).index? with
          | none => simp only [setChild, child?, hx, hy]
          | some j =>
              simp only [setChild, child?, hx, hy, List.getElem?_set_ne (h.position_ne hx hy)]

/-- A child that is prepared in one place leaves the one that is in the other. -/
theorem child?_prepared_of_beside (h : (Segment.field x).Beside (.field y)) {n d : Node}
    (hd : n.child? (.field y) = .ok (some d)) (fill : Kind) :
    (n.prepared (.field x) fill).child? (.field y) = .ok (some d) := by
  have hn : n ≠ .null := by
    rintro rfl
    cases hd
  have hopened : n.opened (.field x) = n := opened_of_ne_null hn _
  rcases prepared_cases (.field x) fill n with hsame | ⟨entries, name, hentries, hname, -, hnew⟩ |
    ⟨items, hitems, hnew⟩
  · rw [hsame, hopened, hd]
  · obtain rfl : n = .mapping entries := hopened.symm.trans hentries
    obtain rfl : x = name := Segment.field.inj hname
    rw [hnew, child?, Entries.get?_insert_of_ne h.key_ne]
    exact hd
  · obtain rfl : n = .sequence items := hopened.symm.trans hitems
    cases hy : (Segment.field y).index? with
    | none => simp [child?, hy] at hd
    | some j =>
        have hitem : items[j]? = some d := by simpa [child?, hy] using hd
        have hj : j < items.length := (List.getElem?_eq_some_iff.mp hitem).1
        simp only [hnew, child?, hy, List.getElem?_append_left hj, hitem]

/-- Children put in two places, one of which has one already, can change places. -/
theorem setChild_comm (h : (Segment.field x).Beside (.field y)) {n d : Node}
    (hd : n.child? (.field y) = .ok (some d)) (a b : Node) :
    (n.setChild (.field x) a).setChild (.field y) b =
      (n.setChild (.field y) b).setChild (.field x) a := by
  cases n with
  | null => rfl
  | scalar tag text => rfl
  | mapping entries =>
      have hget : Entries.get? y entries = some d := by simpa [child?] using hd
      simp only [setChild, Entries.insert_comm h.key_ne hget]
  | sequence items =>
      cases hx : (Segment.field x).index? with
      | none => cases hy : (Segment.field y).index? <;> simp only [setChild, hx, hy]
      | some i =>
          cases hy : (Segment.field y).index? with
          | none => simp only [setChild, hx, hy]
          | some j =>
              simp only [setChild, hx, hy, List.set_comm _ _ (h.position_ne hx hy)]

/-- A walk to one child leaves the other, wherever it ends. -/
theorem child?_visitFrom_of_beside (h : (Segment.field x).Beside (.field y)) {n d : Node}
    (hd : n.child? (.field y) = .ok (some d)) (create : Option Kind) (f : Node → Node × α)
    (rest : List Segment) :
    (visitFrom create f (.field x :: rest) n).1.child? (.field y) = .ok (some d) := by
  have hready : (n.readied create (.field x) rest).child? (.field y) = .ok (some d) := by
    cases create with
    | none => exact hd
    | some leaf => exact child?_prepared_of_beside h hd _
  rcases fst_visitFrom_cons_cases create f (.field x) rest n with hstays | ⟨c, -, hset⟩
  · rw [hstays, hready]
  · rw [hset, child?_setChild_of_beside h, hready]

/-! ### Whole walks -/

variable {p q : List Segment}

/-- A walk along one path leaves what the other leads to, wherever it ends. -/
theorem follow_visitFrom_of_apart (h : Segment.Apart p q)
    (hp : ∀ s ∈ p, ∃ name, s = .field name) (hq : ∀ s ∈ q, ∃ name, s = .field name)
    (create : Option Kind) (f : Node → Node × α) {n d : Node} (hd : n.follow q = .ok (some d)) :
    (visitFrom create f p n).1.follow q = .ok (some d) := by
  induction h generalizing n with
  | @here s t h p q =>
      obtain ⟨x, rfl⟩ := hp s List.mem_cons_self
      obtain ⟨y, rfl⟩ := hq t List.mem_cons_self
      obtain ⟨e, he, hrest⟩ := follow_cons_eq_some_iff.mp hd
      exact follow_cons_eq_some_iff.mpr ⟨e, child?_visitFrom_of_beside h he create f p, hrest⟩
  | @behind s p q h ih =>
      obtain ⟨x, rfl⟩ := hp s List.mem_cons_self
      obtain ⟨e, he, hrest⟩ := follow_cons_eq_some_iff.mp hd
      rw [visitFrom_cons_of_some he]
      refine follow_cons_eq_some_iff.mpr ⟨_, child?_setChild he rfl, ?_⟩
      exact ih (fun t ht => hp t (List.mem_cons_of_mem _ ht))
        (fun t ht => hq t (List.mem_cons_of_mem _ ht)) hrest

/-- Of walks along two paths that both lead to a node, it does not matter which is the
first. -/
theorem visitFrom_comm (h : Segment.Apart p q) (hp : ∀ s ∈ p, ∃ name, s = .field name)
    (hq : ∀ s ∈ q, ∃ name, s = .field name) {n c d : Node} (hc : n.follow p = .ok (some c))
    (hd : n.follow q = .ok (some d)) (create create' : Option Kind) (f : Node → Node × α)
    (g : Node → Node × β) :
    (visitFrom create' g q (visitFrom create f p n).1).1 =
      (visitFrom create f p (visitFrom create' g q n).1).1 := by
  induction h generalizing n with
  | @here s t h p q =>
      obtain ⟨x, rfl⟩ := hp s List.mem_cons_self
      obtain ⟨y, rfl⟩ := hq t List.mem_cons_self
      obtain ⟨a, ha, -⟩ := follow_cons_eq_some_iff.mp hc
      obtain ⟨b, hb, -⟩ := follow_cons_eq_some_iff.mp hd
      -- each walk finds the child that it would have found as the first one
      have ha' := child?_visitFrom_of_beside h.symm ha create' g q
      have hb' := child?_visitFrom_of_beside h hb create f p
      rw [visitFrom_cons_of_some hb', visitFrom_cons_of_some ha', visitFrom_cons_of_some ha,
        visitFrom_cons_of_some hb]
      exact setChild_comm h hb _ _
  | @behind s p q h ih =>
      obtain ⟨x, rfl⟩ := hp s List.mem_cons_self
      obtain ⟨e, he, hcrest⟩ := follow_cons_eq_some_iff.mp hc
      obtain ⟨e', he', hdrest⟩ := follow_cons_eq_some_iff.mp hd
      obtain rfl : e = e' := Option.some.inj (Except.ok.inj (he.symm.trans he'))
      have hinner := ih (fun t ht => hp t (List.mem_cons_of_mem _ ht))
        (fun t ht => hq t (List.mem_cons_of_mem _ ht)) hcrest hdrest
      rw [visitFrom_cons_of_some he, visitFrom_cons_of_some he,
        visitFrom_cons_of_some (child?_setChild he rfl),
        visitFrom_cons_of_some (child?_setChild he rfl)]
      show (n.setChild (.field x) _).setChild (.field x) _ =
        (n.setChild (.field x) _).setChild (.field x) _
      rw [setChild_setChild rfl, setChild_setChild rfl, hinner]

/-- **Writes to two places do not disturb each other.** For two paths of fields that part, a
write at the first one, whether it creates and however it ends, leaves what a lookup finds at
the second one. If both are there, writing at both in either order makes the same document. -/
theorem visit_apart {p q : Path} (h : Segment.Apart p.segments q.segments)
    (hp : ∀ s ∈ p.segments, ∃ name, s = .field name)
    (hq : ∀ s ∈ q.segments, ∃ name, s = .field name) (n : Node) :
    (∀ d, n.lookup q = .ok (some d) → ∀ create a,
        (n.visit create (overwrite a) p).1.lookup q = .ok (some d)) ∧
      ∀ c d, n.lookup p = .ok (some c) → n.lookup q = .ok (some d) → ∀ create create' a b,
        ((n.visit create (overwrite a) p).1.visit create' (overwrite b) q).1 =
          ((n.visit create' (overwrite b) q).1.visit create (overwrite a) p).1 := by
  constructor
  · intro d hd create a
    have hfollow := lookup_eq_ok_iff.mp hd
    exact lookup_eq_ok_iff.mpr (follow_visitFrom_of_apart h hp hq create (overwrite a) hfollow)
  · intro c d hc hd create create' a b
    exact visitFrom_comm h hp hq (lookup_eq_ok_iff.mp hc) (lookup_eq_ok_iff.mp hd) create create'
      (overwrite a) (overwrite b)

/-- The first item can be written as `00`. It is not touched by a write to the second one, and
the two can be written in either order. -/
theorem visit_apart_items :
    let n : Node := .mapping [("args", .sequence [.string "a", .string "b"])]
    let p : Path := ⟨"args.1", [.field "args", .field "1"]⟩
    let q : Path := ⟨"args.00", [.field "args", .field "00"]⟩
    Segment.Apart p.segments q.segments ∧
      (n.visit (some .mapping) (overwrite .null) p).1.lookup q = .ok (some (.string "a")) ∧
      ((n.visit none (overwrite .null) p).1.visit none (overwrite (.string "c")) q).1 =
        ((n.visit none (overwrite (.string "c")) q).1.visit none (overwrite .null) p).1 := by
  intro n p q
  have hbeside : (Segment.field "1").Beside (.field "00") := by
    refine ⟨by decide, fun i hi => ?_⟩
    obtain rfl : 1 = i := Option.some.inj hi
    decide
  have happart : Segment.Apart p.segments q.segments := .behind _ (.here hbeside [] [])
  obtain ⟨hstays, hcomm⟩ := visit_apart happart (by simp [p]) (by simp [q]) n
  exact ⟨happart, hstays _ rfl _ _, hcomm _ _ rfl rfl _ _ _ _⟩

end Node
end Graft
