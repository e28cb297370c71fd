import Graft.Proofs.Path.Walk

/-!
# Graft.Proofs.Path.Creation

How a walk that creates ends where a lookup finds nothing (`Node.lookupOrCreate_of_absent`).

Up to the first segment without a child such a walk meets what the document holds. From
there on it meets only what it has just made, and what that is can be read off the segments
in front: behind a matcher an element with one field, behind this field's own name its text,
and anywhere else an empty container for the segment that comes (`Node.made`). So it takes
two or three neighbouring segments to tell what stops the walk (`Node.block?`), no tree has
to be built for it, and the first such place decides how the walk ends.
-/

namespace Graft
namespace Node

/-! ### The first segment without a child -/

/-- A path ends for want of a child: the segments `front` lead to `m`, and `m` has no child
for the segment `s` behind them. -/
structure EndsAt (n : Node) (segments front : List Segment) (s : Segment) (rest : List Segment)
    (m : Node) : Prop where
  /-- The segment stands between those in front of it and the rest. -/
  split : segments = front ++ s :: rest
  /-- Those in front lead to `m`. -/
  met : n.follow front = .ok (some m)
  /-- There is nothing to go on to. -/
  missing : m.child? s = .ok none

/-- A lookup finds nothing exactly if some segment has no child. -/
theorem follow_eq_none_iff {segments : List Segment} {n : Node} :
    n.follow segments = .ok none ↔ ∃ front s rest m, EndsAt n segments front s rest m := by
  constructor
  · intro h
    induction segments generalizing n with
    | nil => simp at h
    | cons s rest ih =>
        rw [follow_cons] at h
        cases hc : n.child? s with
        | error o => simp [hc] at h
        | ok c? =>
            cases c? with
            | none => exact ⟨[], s, rest, n, rfl, rfl, hc⟩
            | some c =>
                rw [hc] at h
                obtain ⟨front, t, rest', m, rfl, hmet, hmissing⟩ := ih h
                refine ⟨s :: front, t, rest', m, rfl, ?_, hmissing⟩
                rw [follow_cons, hc]
                exact hmet
  · rintro ⟨front, s, rest, m, rfl, hmet, hmissing⟩
    rw [follow_append_of_some hmet, follow_cons, hmissing]

/-! ### One child created -/

/-- Whether a segment is a position and items are missing in front of it. A null has no
items. -/
def lacks (n : Node) (s : Segment) : Bool :=
  match n, s.index? with
  | .null, some i => 0 < i
  | .sequence items, some i => items.length < i
  | _, _ => false

end Node

theorem Entries.get?_ensure_of_none {α : Type} {key : String} {es : Entries α}
    (h : get? key es = none) (v : α) : get? key (ensure key v es) = some v := by
  simp [ensure, contains, h]

theorem getElem?_ensureAt_of_none {α : Type} {i : Nat} {items : List α} (h : items[i]? = none)
    (v : α) : (ensureAt i v items)[i]? = if items.length < i then none else some v := by
  have hend : items.length ≤ i := List.getElem?_eq_none_iff.mp h
  by_cases hlast : i = items.length
  · simp [ensureAt, hlast]
  · have hgap : items.length < i := by omega
    simp [ensureAt, hlast, hgap, hend]

theorem find?_ensureMatch_of_none {key value : String} {items : List Node}
    (h : items.find? (Node.hasField key value) = none) :
    (ensureMatch key value items).find? (Node.hasField key value) =
      some (.mapping [(key, .string value)]) := by
  have hany : items.any (Node.hasField key value) = false := by
    simpa [List.find?_eq_none] using h
  simp [ensureMatch, hany, h, hasField_new]

namespace Node

/-- A container that was made for a segment has no child for it yet. -/
theorem child?_empty_container (s : Segment) : (empty s.container).child? s = .ok none := by
  cases s with
  | matcher key value => rfl
  | field name =>
      cases hi : (Segment.field name).index? with
      | none => simp [Segment.container, hi, empty, child?]
      | some i => simp [Segment.container, hi, empty, child?]

/-- A container that was made for a segment is as empty as a null. -/
theorem lacks_empty_container (s : Segment) : (empty s.container).lacks s = Node.null.lacks s := by
  cases s with
  | matcher key value => rfl
  | field name =>
      cases hi : (Segment.field name).index? with
      | none => simp [Segment.container, hi, empty, lacks]
      | some i => simp [Segment.container, hi, empty, lacks]

theorem child?_prepared_mapping {entries : Entries Node} {s : Segment}
    (h : (Node.mapping entries).child? s = .ok none) (fill : Kind) :
    ((Node.mapping entries).prepared s fill).child? s =
      .ok (if (Node.mapping entries).lacks s then none else some (created s fill)) := by
  cases s with
  | matcher key value => cases h
  | field name =>
      have hnew : Entries.get? name entries = none := by simpa [child?] using h
      simp [prepared, child?, lacks, created, Entries.get?_ensure_of_none hnew]

theorem child?_prepared_sequence {items : List Node} {s : Segment}
    (h : (Node.sequence items).child? s = .ok none) (fill : Kind) :
    ((Node.sequence items).prepared s fill).child? s =
      .ok (if (Node.sequence items).lacks s then none else some (created s fill)) := by
  cases s with
  | matcher key value =>
      have hnone : items.find? (hasField key value) = none := by
        simpa only [child?, Except.ok.injEq] using h
      simp [prepared, child?, lacks, created, Segment.index?, find?_ensureMatch_of_none hnone]
  | field name =>
      cases hi : (Segment.field name).index? with
      | none => simp [child?, hi] at h
      | some i =>
          have hnone : items[i]? = none := by simpa only [child?, hi, Except.ok.injEq] using h
          simp [prepared, child?, lacks, created, hi, getElem?_ensureAt_of_none hnone]

/-- A missing child is there when it was prepared, unless items are missing in front of
it. -/
theorem child?_prepared_of_none {n : Node} {s : Segment} (h : n.child? s = .ok none)
    (fill : Kind) :
    (n.prepared s fill).child? s = .ok (if n.lacks s then none else some (created s fill)) := by
  cases n with
  | null =>
      -- the empty container that is opened has no child either, and is no null
      have hopened : (Node.null.opened s).child? s = .ok none := child?_empty_container s
      have hlacks : (Node.null.opened s).lacks s = Node.null.lacks s := lacks_empty_container s
      rw [← prepared_opened, ← hlacks]
      rcases opened_cases s .null with ⟨hne, -⟩ | ⟨-, hnew | hnew⟩
      · exact absurd rfl hne
      · rw [hnew] at hopened ⊢
        exact child?_prepared_mapping hopened fill
      · rw [hnew] at hopened ⊢
        exact child?_prepared_sequence hopened fill
  | scalar tag text => cases s <;> cases h
  | mapping entries => exact child?_prepared_mapping h fill
  | sequence items => exact child?_prepared_sequence h fill

/-- A walk that misses a child ends there for want of items, or goes on in the child that
is created. -/
theorem snd_visitFrom_of_missing {n : Node} {s : Segment} (h : n.child? s = .ok none)
    (leaf : Kind) (rest : List Segment) :
    (visitFrom (some leaf) get (s :: rest) n).2 =
      if n.lacks s then .absent
      else (visitFrom (some leaf) get rest (created s (fillKind leaf rest))).2 := by
  have hchild : (n.readied (some leaf) s rest).child? s =
      .ok (if n.lacks s then none else some (created s (fillKind leaf rest))) :=
    child?_prepared_of_none h _
  rw [visitFrom_cons, hchild]
  cases n.lacks s <;> rfl

/-- In a container that was made for its segment, a walk goes on as in a null. -/
theorem snd_visitFrom_container (leaf : Kind) (s : Segment) (rest : List Segment) :
    (visitFrom (some leaf) get (s :: rest) (empty s.container)).2 =
      if Node.null.lacks s then .absent
      else (visitFrom (some leaf) get rest (created s (fillKind leaf rest))).2 := by
  rw [snd_visitFrom_of_missing (child?_empty_container s), lacks_empty_container]

/-- In the element that was made for a matcher, a walk finds the text of the matcher's own
key, and creates any other field, whatever its name. -/
theorem snd_visitFrom_element (leaf : Kind) (key value name : String) (rest : List Segment) :
    (visitFrom (some leaf) get (.field name :: rest) (.mapping [(key, .string value)])).2 =
      (visitFrom (some leaf) get rest
        (if key = name then .string value else .empty (fillKind leaf rest))).2 := by
  by_cases hkey : key = name
  · have hthere : (Node.mapping [(key, .string value)]).child? (.field name) =
        .ok (some (.string value)) := by
      simp [child?, Entries.get?, hkey]
    rw [visitFrom_cons_of_some hthere, if_pos hkey]
  · have hmissing : (Node.mapping [(key, .string value)]).child? (.field name) = .ok none := by
      simp [child?, Entries.get?, hkey]
    rw [snd_visitFrom_of_missing hmissing, if_neg hkey]
    rfl

/-! ### What stops the walk -/

/-- The text that is in a field already because the field is a matcher's own, with this
matcher right in front. -/
def ownText? : Segment → List Segment → Option String
  | .field name, .matcher key value :: _ => if key = name then some value else none
  | _, _ => none

/-- What stops a walk that creates at the segment `t`. In front of it, `before` are the
segments from the first one without a child on, the nearest first, and `m` is the node that
has no child for this first one.

* At the first one, items can be missing in front of a position in `m`.
* Below a matcher's own field is a text, which no segment enters.
* Behind a matcher is an element, a mapping, which another matcher does not enter. Every
  field does, also one that is a number.
* Behind any other field is a container without items. -/
def block? (m : Node) (before : List Segment) (t : Segment) : Option (Visit Node) :=
  match before with
  | [] => if m.lacks t then some .absent else none
  | s :: earlier =>
    if (ownText? s earlier).isSome then some (.stopped ⟨t, .scalar⟩)
    else
      match s, t with
      | .matcher .., .matcher .. => some (.stopped ⟨t, .mapping⟩)
      | .matcher .., .field _ => none
      | .field _, _ => if Node.null.lacks t then some .absent else none

/-- The first of some segments that stops the walk, and how. -/
def firstBlock? (m : Node) (before : List Segment) : List Segment → Option (Visit Node)
  | [] => none
  | t :: after =>
    match block? m before t with
    | some v => some v
    | none => firstBlock? m (t :: before) after

/-- What has been made behind the segment `s`, with `earlier` in front of it, the nearest
first, and `after` to come. -/
def made (leaf : Kind) (s : Segment) (earlier after : List Segment) : Node :=
  match ownText? s earlier with
  | some text => .string text
  | none => created s (fillKind leaf after)

/-- Behind a segment for which a child was made, the next one stops the walk, or has a child
made for it as well. -/
theorem snd_visitFrom_made (m : Node) (leaf : Kind) (s : Segment) (earlier : List Segment)
    (t : Segment) (after : List Segment) :
    (visitFrom (some leaf) get (t :: after) (made leaf s earlier (t :: after))).2 =
      match block? m (s :: earlier) t with
      | some v => v
      | none => (visitFrom (some leaf) get after (made leaf t (s :: earlier) after)).2 := by
  cases hown : ownText? s earlier with
  | some text =>
      simp only [made, block?, hown, Option.isSome_some, if_true]
      cases t <;> rfl
  | none =>
      simp only [made, block?, hown, Option.isSome_none, Bool.false_eq_true, if_false]
      cases s with
      | field name =>
          have howner : ownText? t (.field name :: earlier) = none := by cases t <;> rfl
          rw [howner]
          refine (snd_visitFrom_container leaf t after).trans ?_
          cases Node.null.lacks t <;> rfl
      | matcher key value =>
          cases t with
          | matcher key' value' => rfl
          | field name =>
              refine (snd_visitFrom_element leaf key value name after).trans ?_
              simp only [ownText?]
              split <;> rfl

/-- From what was made behind a segment, the first block decides how the walk ends, and
without one it arrives. -/
theorem snd_visitFrom_made_of_firstBlock (m : Node) (leaf : Kind) (s : Segment)
    (earlier after : List Segment) :
    (∀ v, firstBlock? m (s :: earlier) after = some v →
        (visitFrom (some leaf) get after (made leaf s earlier after)).2 = v) ∧
      (firstBlock? m (s :: earlier) after = none →
        ∃ c, (visitFrom (some leaf) get after (made leaf s earlier after)).2 = .reached c) := by
  induction after generalizing s earlier with
  | nil => exact ⟨nofun, fun _ => ⟨_, rfl⟩⟩
  | cons t after ih =>
      rw [snd_visitFrom_made m, firstBlock?]
      cases block? m (s :: earlier) t with
      | some v => exact ⟨fun w hw => Option.some.inj hw, nofun⟩
      | none => exact ih t (s :: earlier)

/-- Where a segment has no child, the first block from there on decides how the walk ends,
and without one it arrives. -/
theorem snd_visitFrom_of_firstBlock {m : Node} {s : Segment} (h : m.child? s = .ok none)
    (leaf : Kind) (rest : List Segment) :
    (∀ v, firstBlock? m [] (s :: rest) = some v →
        (visitFrom (some leaf) get (s :: rest) m).2 = v) ∧
      (firstBlock? m [] (s :: rest) = none →
        ∃ c, (visitFrom (some leaf) get (s :: rest) m).2 = .reached c) := by
  rw [snd_visitFrom_of_missing h, firstBlock?, block?]
  cases m.lacks s with
  | true => exact ⟨fun w hw => Option.some.inj hw, nofun⟩
  | false =>
      have hmade : created s (fillKind leaf rest) = made leaf s [] rest := by cases s <;> rfl
      rw [hmade]
      exact snd_visitFrom_made_of_firstBlock m leaf s [] rest

/-- **How creation ends where there was nothing.** If a lookup finds nothing, then some
segment is the first without a child, and from it on the first segment that stops the walk
decides: the walk finds no place, or fails at this segment. If none stops it, it answers with
a node. -/
theorem lookupOrCreate_of_absent {n : Node} {p : Path} (h : n.lookup p = .ok none) (leaf : Kind) :
    (∃ front s rest m, EndsAt n p.segments front s rest m) ∧
      ∀ front s rest m, EndsAt n p.segments front s rest m →
        (∀ v, firstBlock? m [] (s :: rest) = some v →
          (n.lookupOrCreate leaf p).2 = Visit.toExcept p v) ∧
        (firstBlock? m [] (s :: rest) = none →
          ∃ c, (n.lookupOrCreate leaf p).2 = .ok (some c)) := by
  refine ⟨follow_eq_none_iff.mp (lookup_eq_ok_iff.mp h), ?_⟩
  intro front s rest m hend
  have hwalk : (visitFrom (some leaf) get p.segments n).2 =
      (visitFrom (some leaf) get (s :: rest) m).2 := by
    rw [hend.split, snd_visitFrom_append_of_some hend.met]
  obtain ⟨hblocked, hclear⟩ := snd_visitFrom_of_firstBlock hend.missing leaf rest
  constructor
  · intro v hv
    show Visit.toExcept p (visitFrom (some leaf) get p.segments n).2 = Visit.toExcept p v
    rw [hwalk, hblocked v hv]
  · intro hnone
    obtain ⟨c, hc⟩ := hclear hnone
    exact ⟨c, lookupOrCreate_eq_some_iff.mpr (hwalk.trans hc)⟩

/-- In the element that is made for a matcher, the matcher's own key has a text that cannot be
entered, and a number is a key, below which a sequence has its first item still to come. -/
theorem lookupOrCreate_of_absent_element :
    let n : Node := .mapping [("images", .null)]
    let tag : Path :=
      ⟨"images.[name=app].name.tag", [.field "images", .matcher "name" "app", .field "name",
        .field "tag"]⟩
    let port : Path :=
      ⟨"images.[name=app].0.1", [.field "images", .matcher "name" "app", .field "0", .field "1"]⟩
    (n.lookup tag = .ok none ∧
        (n.lookupOrCreate .scalar tag).2 = .error (.wrongKind tag.raw "tag" .scalar)) ∧
      n.lookup port = .ok none ∧ (n.lookupOrCreate .scalar port).2 = .ok none := by
  intro n tag port
  have htag : n.lookup tag = .ok none := rfl
  have hport : n.lookup port = .ok none := rfl
  have hendsTag : EndsAt n tag.segments [.field "images"] (.matcher "name" "app")
      [.field "name", .field "tag"] .null := ⟨rfl, rfl, rfl⟩
  have hendsPort : EndsAt n port.segments [.field "images"] (.matcher "name" "app")
      [.field "0", .field "1"] .null := ⟨rfl, rfl, rfl⟩
  exact ⟨⟨htag, ((lookupOrCreate_of_absent htag .scalar).2 _ _ _ _ hendsTag).1 _ rfl⟩, hport,
    ((lookupOrCreate_of_absent hport .scalar).2 _ _ _ _ hendsPort).1 _ rfl⟩

end Node
end Graft
