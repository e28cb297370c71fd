import Graft.Proofs.Node.Tree

/-!
# Graft.Proofs.Path.Growth

What a walk that creates leaves in a document, also where it ends half-way.

Every step of it adds a child, or a container in place of a null, and touches nothing
else: the document grows (`Node.GrowsTo`, `Node.growsTo_lookupOrCreate`). By itself it
leaves the document as it is wherever a lookup does not end in nothing
(`Node.visitFrom_eq_of_follow`). Where a lookup does, the walk has something to add at the
first segment without a child, with one exception: no position is created behind the end of
a sequence. So there, and only there, a walk into nothing leaves the document as it is
(`Node.visitFrom_get_eq_iff`).
-/

namespace Graft
namespace Node

/-! ### Growth -/

/-- The second node is the first one with nodes added: a null can have become anything, a
scalar is the same, and the entries of a mapping and the items of a sequence have grown
where they were, with others behind them. -/
inductive GrowsTo : Node → Node → Prop where
  | null (n : Node) : GrowsTo .null n
  | scalar (tag : ScalarTag) (text : String) : GrowsTo (.scalar tag text) (.scalar tag text)
  | mapping {es es' : Entries Node} (hkeys : Entries.keys es <+: Entries.keys es')
      (hvalues : ∀ (i : Nat) e e', es[i]? = some e → es'[i]? = some e' → GrowsTo e.2 e'.2) :
      GrowsTo (.mapping es) (.mapping es')
  | sequence {xs ys : List Node} (hlength : xs.length ≤ ys.length)
      (hitems : ∀ (i : Nat) x y, xs[i]? = some x → ys[i]? = some y → GrowsTo x y) :
      GrowsTo (.sequence xs) (.sequence ys)

namespace GrowsTo

theorem refl (n : Node) : GrowsTo n n := by
  induction n using treeInduction with
  | null => exact .null _
  | scalar tag text => exact .scalar tag text
  | mapping entries ih =>
      refine .mapping List.prefix_rfl fun i e e' he he' => ?_
      obtain rfl : e = e' := Option.some.inj (he.symm.trans he')
      exact ih e (List.mem_of_getElem? he)
  | sequence items ih =>
      refine .sequence (Nat.le_refl _) fun i x y hx hy => ?_
      obtain rfl : x = y := Option.some.inj (hx.symm.trans hy)
      exact ih x (List.mem_of_getElem? hx)

theorem trans {a b c : Node} (hab : GrowsTo a b) (hbc : GrowsTo b c) : GrowsTo a c := by
  induction hab generalizing c with
  | null _ => exact .null c
  | scalar tag text => exact hbc
  | @mapping es es' hkeys _ ih =>
      cases hbc with
      | @mapping _ es'' hkeys' hvalues' =>
          refine .mapping (hkeys.trans hkeys') fun i e e'' he he'' => ?_
          have hlength : es.length ≤ es'.length := by
            simpa [Entries.keys] using hkeys.length_le
          have hi : i < es.length := (List.getElem?_eq_some_iff.mp he).1
          have he' : es'[i]? = some es'[i] := List.getElem?_eq_getElem (by omega)
          exact ih i e _ he he' (hvalues' i _ e'' he' he'')
  | @sequence xs ys hlength _ ih =>
      cases hbc with
      | @sequence _ zs hlength' hitems' =>
          refine .sequence (Nat.le_trans hlength hlength') fun i x z hx hz => ?_
          have hi : i < xs.length := (List.getElem?_eq_some_iff.mp hx).1
          have hy : ys[i]? = some ys[i] := List.getElem?_eq_getElem (by omega)
          exact ih i x _ hx hy (hitems' i _ z hy hz)

/-! ### Growth of one container -/

theorem cons {e e' : String × Node} {es es' : Entries Node} (hkey : e.1 = e'.1)
    (hvalue : GrowsTo e.2 e'.2) (hrest : GrowsTo (.mapping es) (.mapping es')) :
    GrowsTo (.mapping (e :: es)) (.mapping (e' :: es')) := by
  cases hrest with
  | mapping hkeys hvalues =>
      refine .mapping ?_ fun i d d' hd hd' => ?_
      · rw [Entries.keys_cons, Entries.keys_cons, hkey]
        exact (List.prefix_cons_inj e'.1).mpr hkeys
      · cases i with
        | zero =>
            obtain rfl : e = d := by simpa using hd
            obtain rfl : e' = d' := by simpa using hd'
            exact hvalue
        | succ i => exact hvalues i d d' (by simpa using hd) (by simpa using hd')

/-- A value that replaces one that it has grown from, or that has a new key. -/
theorem insert {key : String} {c' : Node} {entries : Entries Node}
    (h : ∀ c, Entries.get? key entries = some c → GrowsTo c c') :
    GrowsTo (.mapping entries) (.mapping (Entries.insert key c' entries)) := by
  induction entries with
  | nil => exact .mapping List.nil_prefix fun i e e' he => by simp at he
  | cons e r ih =>
      obtain ⟨k, v⟩ := e
      by_cases hk : k = key
      · subst hk
        rw [Entries.insert, if_pos rfl]
        exact cons rfl (h v (Entries.get?_cons_self k v r)) (refl _)
      · rw [Entries.insert, if_neg hk]
        refine cons rfl (refl v) (ih fun c hc => h c ?_)
        rw [Entries.get?_cons_of_ne hk, hc]

theorem set {items : List Node} {i : Nat} {c c' : Node} (hc : items[i]? = some c)
    (h : GrowsTo c c') : GrowsTo (.sequence items) (.sequence (items.set i c')) := by
  refine .sequence (by simp) fun j x y hx hy => ?_
  by_cases hj : i = j
  · subst hj
    obtain rfl : c = x := Option.some.inj (hc.symm.trans hx)
    have hi : i < items.length := (List.getElem?_eq_some_iff.mp hc).1
    obtain rfl : c' = y := by simpa [hi] using hy
    exact h
  · rw [List.getElem?_set_ne hj, hx] at hy
    exact Option.some.inj hy ▸ refl x

theorem append (items more : List Node) : GrowsTo (.sequence items) (.sequence (items ++ more)) := by
  refine .sequence (by simp) fun i x y hx hy => ?_
  have hi : i < items.length := (List.getElem?_eq_some_iff.mp hx).1
  rw [List.getElem?_append_left hi, hx] at hy
  exact Option.some.inj hy ▸ refl x

/-! ### Growth along a walk -/

theorem setChild {n c c' : Node} {s : Segment} (hc : n.child? s = .ok (some c))
    (h : GrowsTo c c') : GrowsTo n (n.setChild s c') := by
  rcases child?_cases hc with ⟨entries, name, rfl, rfl, hget⟩ |
    ⟨items, name, i, rfl, rfl, hi, hget⟩ | ⟨items, key, value, rfl, rfl, hfind⟩
  · refine insert fun d hd => ?_
    obtain rfl : c = d := Option.some.inj (hget.symm.trans hd)
    exact h
  · simp only [Node.setChild, hi]
    exact set hget h
  · rw [List.find?_eq_getElem?_findIdx] at hfind
    exact set hfind h

theorem opened (s : Segment) (n : Node) : GrowsTo n (n.opened s) := by
  rcases opened_cases s n with ⟨-, h⟩ | ⟨rfl, -⟩
  · rw [h]
    exact refl n
  · exact .null _

/-- What is created on the way is added behind what is there. -/
theorem prepared (s : Segment) (fill : Kind) (n : Node) : GrowsTo n (n.prepared s fill) := by
  refine (opened s n).trans ?_
  rcases prepared_cases s fill n with hsame | ⟨entries, name, hopened, -, hget, hnew⟩ |
    ⟨items, hopened, hnew⟩
  · rw [hsame]
    exact refl _
  · rw [hopened, hnew]
    refine insert fun c hc => ?_
    rw [hget] at hc
    cases hc
  · rw [hopened, hnew]
    exact append items _

theorem readied (create : Option Kind) (s : Segment) (rest : List Segment) (n : Node) :
    GrowsTo n (n.readied create s rest) := by
  cases create with
  | none => exact refl n
  | some leaf => exact prepared s _ n

/-- A document grows along a walk, however it ends, if the node at its end does. -/
theorem visitFrom {α : Type} {f : Node → Node × α} (hf : ∀ c, GrowsTo c (f c).1)
    (create : Option Kind) (segments : List Segment) (n : Node) :
    GrowsTo n (Node.visitFrom create f segments n).1 := by
  induction segments generalizing n with
  | nil => exact hf n
  | cons s rest ih =>
      have hready := readied create s rest n
      rcases fst_visitFrom_cons_cases create f s rest n with hstays | ⟨c, hc, hset⟩
      · rw [hstays]
        exact hready
      · rw [hset]
        exact hready.trans (setChild hc (ih c))

/-! ### Looking at what has grown -/

/-- A child that a field leads to is there afterwards, grown itself. -/
theorem child {n n' c : Node} {name : String} (h : GrowsTo n n')
    (hc : n.child? (.field name) = .ok (some c)) :
    ∃ c', n'.child? (.field name) = .ok (some c') ∧ GrowsTo c c' := by
  cases h with
  | null n' => cases hc
  | scalar tag text => cases hc
  | @mapping es es' hkeys hvalues =>
      have hget : Entries.get? name es = some c := by simpa [child?] using hc
      obtain ⟨i, c', he, he', hget'⟩ := Entries.getElem?_of_get?_of_keys_prefix hkeys hget
      exact ⟨c', by simp only [child?, hget'], hvalues i _ _ he he'⟩
  | @sequence xs ys hlength hitems =>
      cases hi : (Segment.field name).index? with
      | none => simp [child?, hi] at hc
      | some i =>
          have hx : xs[i]? = some c := by simpa [child?, hi] using hc
          have hlt : i < xs.length := (List.getElem?_eq_some_iff.mp hx).1
          have hy : ys[i]? = some ys[i] := List.getElem?_eq_getElem (by omega)
          exact ⟨ys[i], by simp only [child?, hi, hy], hitems i c _ hx hy⟩

/-- What fields lead to is there afterwards, grown itself. -/
theorem follow {segments : List Segment} (hs : ∀ s ∈ segments, ∃ name, s = .field name)
    {n n' c : Node} (h : GrowsTo n n') (hc : n.follow segments = .ok (some c)) :
    ∃ c', n'.follow segments = .ok (some c') ∧ GrowsTo c c' := by
  induction segments generalizing n n' with
  | nil =>
      obtain rfl : n = c := by simpa using hc
      exact ⟨n', rfl, h⟩
  | cons s rest ih =>
      obtain ⟨name, rfl⟩ := hs s List.mem_cons_self
      obtain ⟨d, hd, hrest⟩ := follow_cons_eq_some_iff.mp hc
      obtain ⟨d', hd', hgrows⟩ := h.child hd
      rw [follow_cons, hd']
      exact ih (fun t ht => hs t (List.mem_cons_of_mem _ ht)) hgrows hrest

end GrowsTo

/-- **Creation only adds.** However a walk that creates ends, the document before it is
extended by the one after it: where there was no null, the same scalars, keys and items are
where they were, and what is new stands behind them. So what fields led to before, they lead
to afterwards, extended in the same way. -/
theorem growsTo_lookupOrCreate (n : Node) (leaf : Kind) (p : Path) :
    n.GrowsTo (n.lookupOrCreate leaf p).1 ∧
      ∀ q c, (∀ s ∈ q.segments, ∃ name, s = .field name) → n.lookup q = .ok (some c) →
        ∃ c', (n.lookupOrCreate leaf p).1.lookup q = .ok (some c') ∧ c.GrowsTo c' := by
  have hgrows : n.GrowsTo (n.lookupOrCreate leaf p).1 :=
    GrowsTo.visitFrom (fun c => .refl c) (some leaf) p.segments n
  refine ⟨hgrows, ?_⟩
  intro q c hq hc
  obtain ⟨c', hc', hsub⟩ := hgrows.follow hq (lookup_eq_ok_iff.mp hc)
  exact ⟨c', lookup_eq_ok_iff.mpr hc', hsub⟩

/-- A creation that finds no place for its last segment has made a mapping of the null on its
way. The item in front of the null is as it was. -/
theorem growsTo_lookupOrCreate_halfway :
    let n : Node := .mapping [("args", .sequence [.string "a", .null])]
    let p : Path := ⟨"args.1.x.3", [.field "args", .field "1", .field "x", .field "3"]⟩
    let q : Path := ⟨"args.0", [.field "args", .field "0"]⟩
    (n.lookupOrCreate .scalar p).2 = .ok none ∧ n.GrowsTo (n.lookupOrCreate .scalar p).1 ∧
      (n.lookupOrCreate .scalar p).1.lookup q = .ok (some (.string "a")) := by
  intro n p q
  have hq : ∀ s ∈ q.segments, ∃ name, s = .field name := by simp [q]
  obtain ⟨hgrows, hfields⟩ := growsTo_lookupOrCreate n .scalar p
  obtain ⟨c', hc', hsame⟩ := hfields q (.string "a") hq rfl
  refine ⟨rfl, hgrows, ?_⟩
  cases hsame
  exact hc'

/-! ### Where nothing is added -/

/-- The first segment without a child names a position behind the end of a sequence. -/
def EndsBefore (segments : List Segment) (n : Node) : Prop :=
  ∃ front s rest items i, segments = front ++ s :: rest ∧
    n.follow front = .ok (some (.sequence items)) ∧ s.index? = some i ∧ items.length < i

theorem child?_of_beyond {items : List Node} {s : Segment} {i : Nat} (hs : s.index? = some i)
    (hi : items.length < i) : (Node.sequence items).child? s = .ok none := by
  cases s with
  | matcher key value => cases hs
  | field name => simp [child?, hs, List.getElem?_eq_none (Nat.le_of_lt hi)]

theorem endsBefore_cons_of_some {n c : Node} {s : Segment} (hc : n.child? s = .ok (some c))
    (rest : List Segment) : EndsBefore (s :: rest) n ↔ EndsBefore rest c := by
  constructor
  · rintro ⟨front, t, tail, items, i, hsegments, hfollow, ht, hi⟩
    cases front with
    | nil =>
        obtain ⟨rfl, rfl⟩ := List.cons.inj hsegments
        obtain rfl : n = .sequence items := by simpa using hfollow
        rw [child?_of_beyond ht hi] at hc
        cases hc
    | cons u front =>
        obtain ⟨rfl, rfl⟩ := List.cons.inj hsegments
        rw [follow_cons, hc] at hfollow
        exact ⟨front, t, tail, items, i, rfl, hfollow, ht, hi⟩
  · rintro ⟨front, t, tail, items, i, rfl, hfollow, ht, hi⟩
    refine ⟨s :: front, t, tail, items, i, rfl, ?_, ht, hi⟩
    rw [follow_cons, hc]
    exact hfollow

theorem endsBefore_cons_of_none {n : Node} {s : Segment} (hc : n.child? s = .ok none)
    (rest : List Segment) :
    EndsBefore (s :: rest) n ↔
      ∃ items i, n = .sequence items ∧ s.index? = some i ∧ items.length < i := by
  constructor
  · rintro ⟨front, t, tail, items, i, hsegments, hfollow, ht, hi⟩
    cases front with
    | nil =>
        obtain ⟨rfl, rfl⟩ := List.cons.inj hsegments
        exact ⟨items, i, by simpa using hfollow, ht, hi⟩
    | cons u front =>
        obtain ⟨rfl, rfl⟩ := List.cons.inj hsegments
        rw [follow_cons, hc] at hfollow
        cases hfollow
  · rintro ⟨items, i, rfl, hs, hi⟩
    exact ⟨[], s, rest, items, i, rfl, rfl, hs, hi⟩

/-- Another child in the same place makes another node. -/
theorem setChild_injective {n c : Node} {s : Segment} (hc : n.child? s = .ok (some c)) {a b : Node}
    (h : n.setChild s a = n.setChild s b) : a = b := by
  rcases child?_cases hc with ⟨entries, name, rfl, rfl, -⟩ | ⟨items, name, i, rfl, rfl, hi, hget⟩ |
    ⟨items, key, value, rfl, rfl, hfind⟩
  · have hfield := congrArg (field? name) h
    simpa [setChild, field?] using hfield
  · have hlt : i < items.length := (List.getElem?_eq_some_iff.mp hget).1
    simp only [setChild, hi, sequence.injEq] at h
    have hitem := congrArg (·[i]?) h
    simpa [hlt] using hitem
  · rw [List.find?_eq_getElem?_findIdx] at hfind
    have hlt := (List.getElem?_eq_some_iff.mp hfind).1
    simp only [setChild, sequence.injEq] at h
    have hitem := congrArg (·[items.findIdx (hasField key value)]?) h
    simpa [hlt] using hitem

/-- The number of children of a node. -/
def width : Node → Nat
  | .mapping entries => entries.length
  | .sequence items => items.length
  | _ => 0

theorem width_setChild {n c : Node} {s : Segment} (hc : n.child? s = .ok (some c)) (c' : Node) :
    (n.setChild s c').width = n.width := by
  rcases child?_cases hc with ⟨entries, name, rfl, rfl, hget⟩ | ⟨items, name, i, rfl, rfl, hi, -⟩ |
    ⟨items, key, value, rfl, rfl, -⟩
  · have hmem : name ∈ Entries.keys entries := List.mem_map_of_mem (Entries.mem_of_get? hget)
    simp [setChild, width, Entries.length_insert, hmem]
  · simp [setChild, width, hi]
  · simp [setChild, width]

/-- A walk leaves its root with as many children as it has when the first step is
prepared. -/
theorem width_visitFrom_cons {α : Type} (create : Option Kind) (f : Node → Node × α) (s : Segment)
    (rest : List Segment) (n : Node) :
    (visitFrom create f (s :: rest) n).1.width = (n.readied create s rest).width := by
  rcases fst_visitFrom_cons_cases create f s rest n with hstays | ⟨c, hc, hset⟩
  · rw [hstays]
  · rw [hset, width_setChild hc]

theorem prepared_of_beyond {items : List Node} {s : Segment} {i : Nat} (hs : s.index? = some i)
    (hi : items.length < i) (fill : Kind) :
    (Node.sequence items).prepared s fill = .sequence items := by
  cases s with
  | matcher key value => cases hs
  | field name => simp [prepared, hs, ensureAt, Nat.ne_of_gt hi]

/-- Anywhere else a missing child is created, or a null makes room for it. -/
theorem shape_prepared_ne {n : Node} {s : Segment} (hc : n.child? s = .ok none)
    (hroom : ¬ ∃ items i, n = .sequence items ∧ s.index? = some i ∧ items.length < i)
    (fill : Kind) :
    (n.prepared s fill).kind ≠ n.kind ∨ (n.prepared s fill).width ≠ n.width := by
  cases n with
  | null =>
      left
      rw [← prepared_opened]
      have hne := opened_ne_null s .null
      have hkind : (opened s .null).kind ≠ .null := by
        cases h : opened s .null with
        | null => exact absurd h hne
        | _ => nofun
      rwa [kind_prepared hkind]
  | scalar tag text => cases s <;> cases hc
  | mapping entries =>
      cases s with
      | matcher key value => cases hc
      | field name =>
          right
          have hnew : Entries.get? name entries = none := by simpa [child?] using hc
          have hlength := Entries.length_insert name (empty fill) entries
          rw [if_neg (Entries.get?_eq_none_iff.mp hnew)] at hlength
          simp [prepared, width, Entries.ensure, Entries.contains, hnew, hlength]
  | sequence items =>
      right
      cases s with
      | matcher key value =>
          have hnone : items.any (hasField key value) = false := by
            simpa [child?, List.find?_eq_none] using hc
          simp [prepared, width, ensureMatch, hnone]
      | field name =>
          cases hi : (Segment.field name).index? with
          | none => simp [child?, hi] at hc
          | some i =>
              have hend : items.length ≤ i := by simpa [child?, hi] using hc
              have hlast : i = items.length := by
                by_contra hne
                exact hroom ⟨items, i, rfl, hi, by omega⟩
              simp [prepared, width, hi, ensureAt, hlast]

/-- Where a lookup finds nothing, a walk that creates leaves the document as it is if the
path ends behind the end of a sequence, and only then. -/
theorem visitFrom_get_eq_iff {segments : List Segment} {n : Node}
    (h : n.follow segments = .ok none) (leaf : Kind) :
    (visitFrom (some leaf) get segments n).1 = n ↔ EndsBefore segments n := by
  induction segments generalizing n with
  | nil => simp at h
  | cons s rest ih =>
      rw [follow_cons] at h
      cases hc : n.child? s with
      | error o => simp [hc] at h
      | ok c? =>
          cases c? with
          | none =>
              rw [endsBefore_cons_of_none hc]
              constructor
              · intro hsame
                by_contra hroom
                have hkind := kind_visitFrom_cons (some leaf) get s rest n
                have hwidth := width_visitFrom_cons (some leaf) get s rest n
                rw [hsame] at hkind hwidth
                rcases shape_prepared_ne hc hroom (fillKind leaf rest) with hne | hne
                · exact hne hkind.symm
                · exact hne hwidth.symm
              · rintro ⟨items, i, rfl, hs, hi⟩
                have hready : (Node.sequence items).readied (some leaf) s rest = .sequence items :=
                  prepared_of_beyond hs hi _
                rw [visitFrom_cons, hready, hc]
          | some c =>
              rw [hc] at h
              rw [endsBefore_cons_of_some hc, ← ih h, visitFrom_cons_of_some hc]
              constructor
              · intro hsame
                exact setChild_injective hc (hsame.trans (setChild_child hc).symm)
              · intro hsame
                show n.setChild s (visitFrom (some leaf) get rest c).1 = n
                rw [hsame, setChild_child hc]

/-- By itself, a walk changes the document where it creates, a lookup finds nothing, and
this is not for want of the elements in front of a position. -/
theorem visitFrom_get_ne_iff (create : Option Kind) (segments : List Segment) (n : Node) :
    (visitFrom create get segments n).1 ≠ n ↔
      create.isSome = true ∧ n.follow segments = .ok none ∧ ¬ EndsBefore segments n := by
  by_cases hnone : n.follow segments = .ok none
  · cases create with
    | none => simp [visitFrom_none_get]
    | some leaf => simp [visitFrom_get_eq_iff hnone, hnone]
  · rw [visitFrom_eq_of_follow hnone, visitFrom_none_get]
    simp [hnone]

end Node
end Graft
