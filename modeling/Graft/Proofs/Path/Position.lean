import Graft.Proofs.Path.Agree
import Graft.Proofs.Path.Compose
import Graft.Proofs.Path.Creation

/-!
# Graft.Proofs.Path.Position

Field names of digits, as positions in sequences (`Node.walks_at_numeral`).

A field name of digits stands for a number of any size (`Segment.IsNumeral`). Below
`Segment.indexBound` the number is a position. A lookup finds the item there, or nothing; a walk
that creates goes on in this item or in a new one right behind the last, and finds nothing
further behind (`Node.enterItem`). Where there is no sequence yet, the walk builds one, if what
is missing is made for the segment behind it. An element that is made for a matcher is not, and
neither is the text of a matcher's own field (`Node.reached_of_absent`).

From the bound on, a numeral is the name of a field and nothing else. A lookup in a sequence
fails there, although no sequence has so many items, and what a walk builds for it is a mapping
(`Node.numeral_beyond_bound`).
-/

namespace Graft

/-! ### Numerals -/

namespace Segment

/-- A field name of digits that stands for the number `i`. Zeros may stand in front. -/
def IsNumeral (s : Segment) (i : Nat) : Prop :=
  ∃ name, s = .field name ∧ Decimal.isDigits name.toList = true ∧
    Decimal.readDigits 0 name.toList = i

namespace IsNumeral

variable {s : Segment} {i : Nat}

theorem index?_eq (h : s.IsNumeral i) : s.index? = if i < indexBound then some i else none := by
  obtain ⟨name, rfl, hdigits, rfl⟩ := h
  simp [index?, hdigits]

theorem index?_of_lt (h : s.IsNumeral i) (hi : i < indexBound) : s.index? = some i := by
  rw [h.index?_eq, if_pos hi]

theorem index?_of_le (h : s.IsNumeral i) (hi : indexBound ≤ i) : s.index? = none := by
  rw [h.index?_eq, if_neg (Nat.not_lt.mpr hi)]

/-- The container that is made for a numeral. -/
theorem container_eq (h : s.IsNumeral i) :
    s.container = if i < indexBound then .sequence else .mapping := by
  have hindex := h.index?_eq
  obtain ⟨name, rfl, -, -⟩ := h
  rw [container, hindex]
  split <;> rfl

end IsNumeral
end Segment

namespace Node

/-! ### In a container -/

/-- What a walk that creates makes of a sequence at a position, with the segments `rest` behind
it: it goes on in the item that is there, or in a new one right behind the last, or it leaves
the sequence alone. -/
def enterItem (leaf : Kind) (rest : List Segment) (items : List Node) (i : Nat) :
    Node × Visit Node :=
  match items[i]? with
  | some c =>
    let below := visitFrom (some leaf) get rest c
    (.sequence (items.set i below.1), below.2)
  | none =>
    if i = items.length then
      let below := visitFrom (some leaf) get rest (.empty (fillKind leaf rest))
      (.sequence (items ++ [below.1]), below.2)
    else (.sequence items, .absent)

/-- What a walk that creates makes of a mapping that was made for a field. -/
def enterNewField (leaf : Kind) (rest : List Segment) (name : String) : Node × Visit Node :=
  let below := visitFrom (some leaf) get rest (.empty (fillKind leaf rest))
  (.mapping [(name, below.1)], below.2)

/-- What a walk that creates builds for a numeral and the segments behind it, where there is
nothing yet. -/
def buildFor (leaf : Kind) (rest : List Segment) (s : Segment) (i : Nat) : Node × Visit Node :=
  if i < Segment.indexBound then enterItem leaf rest [] i else enterNewField leaf rest s.text

variable {s : Segment} {i : Nat}

theorem visitFrom_sequence (hs : s.IsNumeral i) (hi : i < Segment.indexBound) (leaf : Kind)
    (rest : List Segment) (items : List Node) :
    visitFrom (some leaf) get (s :: rest) (.sequence items) = enterItem leaf rest items i := by
  have hindex := hs.index?_of_lt hi
  obtain ⟨name, rfl, -, -⟩ := hs
  rw [visitFrom_cons]
  simp only [readied, prepared, opened_sequence, child?, setChild, hindex, enterItem]
  cases hitem : items[i]? with
  | some c => simp only [ensureAt_of_getElem? hitem, hitem]
  | none =>
      rw [getElem?_ensureAt_of_none hitem]
      have hend : items.length ≤ i := List.getElem?_eq_none_iff.mp hitem
      by_cases hlast : i = items.length
      · simp [ensureAt, hlast]
      · have hgap : items.length < i := by omega
        simp [ensureAt, hlast, hgap]

theorem visitFrom_emptyMapping (name : String) (leaf : Kind) (rest : List Segment) :
    visitFrom (some leaf) get (.field name :: rest) (.mapping []) =
      enterNewField leaf rest name := by
  rw [visitFrom_cons]
  simp [readied, prepared, child?, setChild, Entries.ensure, Entries.contains, Entries.insert,
    enterNewField]

/-- In the container that is made for a numeral, a walk builds what it builds where there is
nothing. -/
theorem visitFrom_container (hs : s.IsNumeral i) (leaf : Kind) (rest : List Segment) :
    visitFrom (some leaf) get (s :: rest) (.empty s.container) = buildFor leaf rest s i := by
  rw [hs.container_eq, buildFor]
  by_cases hi : i < Segment.indexBound
  · rw [if_pos hi, if_pos hi]
    exact visitFrom_sequence hs hi leaf rest []
  · rw [if_neg hi, if_neg hi]
    obtain ⟨name, rfl, -, -⟩ := hs
    exact visitFrom_emptyMapping name leaf rest

/-- A null is opened as the container that is made for the segment. -/
theorem visitFrom_null (s : Segment) (leaf : Kind) (rest : List Segment) :
    visitFrom (some leaf) get (s :: rest) .null =
      visitFrom (some leaf) get (s :: rest) (.empty s.container) := by
  have hready : (Node.null).readied (some leaf) s rest =
      (Node.empty s.container).readied (some leaf) s rest :=
    (prepared_opened s (fillKind leaf rest) .null).symm
  rw [visitFrom_cons, visitFrom_cons, hready]

/-! ### Where there was nothing -/

/-- What stops a walk is no place. -/
theorem block?_ne_reached (m : Node) (before : List Segment) (t : Segment) (c : Node) :
    block? m before t ≠ some (.reached c) := by
  cases before with
  | nil => simp [block?]
  | cons s earlier =>
      simp only [block?]
      split
      · simp
      · cases s <;> cases t <;> simp

/-- From what was made behind a segment, a walk arrives at what is made behind the last one. -/
theorem eq_made_of_reached {leaf : Kind} {s : Segment} {earlier after : List Segment} {c : Node}
    (h : (visitFrom (some leaf) get after (made leaf s earlier after)).2 = .reached c) :
    ∃ last before, last :: before = after.reverse ++ s :: earlier ∧
      c = made leaf last before [] := by
  induction after generalizing s earlier with
  | nil => exact ⟨s, earlier, rfl, (Visit.reached.inj h).symm⟩
  | cons t after ih =>
      rw [snd_visitFrom_made .null] at h
      cases hblock : block? .null (s :: earlier) t with
      | some v =>
          rw [hblock] at h
          exact absurd (hblock.trans (congrArg some h)) (block?_ne_reached _ _ _ c)
      | none =>
          rw [hblock] at h
          obtain ⟨last, before, hlast, hc⟩ := ih h
          exact ⟨last, before, by simpa using hlast, hc⟩

/-- What a walk arrives at where a lookup finds nothing was made for the leaf, unless the last
segments are a matcher or a matcher's own field. -/
theorem reached_of_absent {n c : Node} {front : List Segment} {leaf : Kind}
    (h : n.follow front = .ok none)
    (hc : (visitFrom (some leaf) get front n).2 = .reached c) :
    c = .empty leaf ∨
      (∃ before key value, front = before ++ [.matcher key value] ∧
        c = .mapping [(key, .string value)]) ∨
      ∃ before key value, front = before ++ [.matcher key value, .field key] ∧
        c = .string value := by
  obtain ⟨met, s, after, m, hend⟩ := follow_eq_none_iff.mp h
  rw [hend.split, snd_visitFrom_append_of_some hend.met, snd_visitFrom_of_missing hend.missing] at hc
  cases hlacks : m.lacks s with
  | true => simp [hlacks] at hc
  | false =>
      have hmade : created s (fillKind leaf after) = made leaf s [] after := by cases s <;> rfl
      rw [hlacks, if_neg Bool.false_ne_true, hmade] at hc
      obtain ⟨last, before, hlast, rfl⟩ := eq_made_of_reached hc
      have hsuffix : before.reverse ++ [last] = s :: after := by
        simpa using congrArg List.reverse hlast
      have hfront : front = met ++ before.reverse ++ [last] := by
        rw [hend.split, List.append_assoc, hsuffix]
      cases hown : ownText? last before with
      | none =>
          simp only [made, hown, fillKind]
          cases last with
          | field name => exact .inl rfl
          | matcher key value => exact .inr (.inl ⟨_, key, value, hfront, rfl⟩)
      | some text =>
          simp only [made, hown]
          unfold ownText? at hown
          split at hown
          · next name key value earlier =>
              split at hown
              · next hkey =>
                  subst hkey
                  obtain rfl := Option.some.inj hown
                  exact .inr (.inr ⟨met ++ earlier.reverse, key, value, by simp [hfront], rfl⟩)
              · cases hown
          · cases hown

/-! ### Behind other segments -/

/-- What a walk leaves and answers that goes along the segments `front` and on from there as
`below` says. -/
def goingOn (create : Option Kind) (front : List Segment) (p : Path) (n : Node)
    (below : Node × Visit Node) : Node × Except PathError (Option Node) :=
  ((visitFrom create (overwrite below.1) front n).1, Visit.toExcept p below.2)

section Behind

variable {p : Path} {front rest : List Segment} {n : Node}

/-- A walk along more segments than lead somewhere goes on from there. -/
theorem lookupOrCreate_of_met (hp : p.segments = front ++ s :: rest) {m : Node}
    (hm : n.follow front = .ok (some m)) (leaf : Kind) :
    n.lookupOrCreate leaf p =
      goingOn none front p n (visitFrom (some leaf) get (s :: rest) m) := by
  have hmet : n.follow front ≠ .ok none := by
    rw [hm]
    nofun
  have hwalk := visitFrom_append_cases (some leaf) get front (s :: rest) n
  simp only [visitFrom_of_follow_some hm, get] at hwalk
  simp only [lookupOrCreate, visit, hp, hwalk, goingOn, visitFrom_eq_of_follow hmet]

/-- Where the first segments lead nowhere, a walk ends before the next one, or goes on in a
container that it builds for it. What it makes for a matcher or finds in a matcher's own field
is no such container. -/
theorem lookupOrCreate_of_missing (hp : p.segments = front ++ s :: rest)
    (hmissing : n.follow front = .ok none) (leaf : Kind) :
    let first := visitFrom (some s.container) get front n
    match first.2 with
    | .stopped o => n.lookupOrCreate leaf p = (first.1, .error (o.error p))
    | .absent => n.lookupOrCreate leaf p = (first.1, .ok none)
    | .reached m =>
      (m = .empty s.container ∧
        n.lookupOrCreate leaf p =
          goingOn (some s.container) front p n
            (visitFrom (some leaf) get (s :: rest) (.empty s.container))) ∨
      (∃ before key value, front = before ++ [.matcher key value] ∧
        m = .mapping [(key, .string value)]) ∨
      ∃ before key value, front = before ++ [.matcher key value, .field key] ∧
        m = .string value := by
  intro first
  have hwalk := visitFrom_append_cases (some leaf) get front (s :: rest) n
  simp only [Option.map_some, fillKind] at hwalk
  cases hfirst : first.2 with
  | stopped o =>
      simp only [first] at hfirst
      simp only [lookupOrCreate, visit, hp, hwalk, hfirst, first, Visit.toExcept]
  | absent =>
      simp only [first] at hfirst
      simp only [lookupOrCreate, visit, hp, hwalk, hfirst, first, Visit.toExcept]
  | reached m =>
      refine (reached_of_absent hmissing hfirst).imp_left fun hm => ⟨hm, ?_⟩
      subst hm
      simp only [first] at hfirst
      simp only [lookupOrCreate, visit, hp, hwalk, hfirst, goingOn]

/-- Where a lookup does not end in nothing, a walk that creates answers as it does and leaves
the document alone. -/
theorem lookupOrCreate_eq_lookup (h : n.follow p.segments ≠ .ok none) (leaf : Kind) :
    n.lookupOrCreate leaf p = (n, n.lookup p) := by
  simp only [lookupOrCreate, visit, visitFrom_eq_of_follow h, visitFrom_none_get,
    Visit.toExcept_ofFound, lookup]

/-- A lookup finds the item at a numeral's position. -/
theorem lookup_item {i : Nat} (hs : s.IsNumeral i) (hi : i < Segment.indexBound)
    (hp : p.segments = front ++ s :: rest) {items : List Node}
    (hitems : n.follow front = .ok (some (.sequence items))) :
    n.lookup p =
      match items[i]? with
      | some c => (c.follow rest).mapError (·.error p)
      | none => .ok none := by
  have hindex := hs.index?_of_lt hi
  obtain ⟨name, rfl, -, -⟩ := hs
  rw [lookup, hp, follow_append_of_some hitems, follow_cons]
  simp only [child?, hindex]
  cases items[i]? <;> rfl

/-- A numeral beyond the bound stops a lookup in a sequence. -/
theorem lookup_of_beyond {i : Nat} (hs : s.IsNumeral i) (hi : Segment.indexBound ≤ i)
    (hp : p.segments = front ++ s :: rest) {items : List Node}
    (hitems : n.follow front = .ok (some (.sequence items))) :
    n.lookup p = .error (.wrongKind p.raw s.text .sequence) := by
  have hindex := hs.index?_of_le hi
  obtain ⟨name, rfl, -, -⟩ := hs
  rw [lookup, hp, follow_append_of_some hitems, follow_cons]
  simp only [child?, hindex]
  rfl

/-- **A numeral is a position of a sequence.** Let some segments of a path end in front of a
numeral.

If they lead to a sequence, then a lookup finds there the item at this position and goes on in
it, or nothing if there are not so many items; and a walk that creates goes on in this item, or
in one that it appends if the position is the one right behind the last, or leaves the sequence
alone.

If they lead to null or nowhere, then a walk that creates builds a sequence there and goes on in
it. It may end before, and what it makes for a matcher or finds in a matcher's own field is no
place for a sequence.

All this is so below the bound of positions. From there on a sequence stops the walk at the
numeral, and a mapping is built instead of a sequence. -/
theorem walks_at_numeral {i : Nat} (hs : s.IsNumeral i) (hp : p.segments = front ++ s :: rest) :
    (∀ items, n.follow front = .ok (some (.sequence items)) →
      if i < Segment.indexBound then
        n.lookup p =
            (match items[i]? with
            | some c => (c.follow rest).mapError (·.error p)
            | none => .ok none) ∧
          ∀ leaf, n.lookupOrCreate leaf p = goingOn none front p n (enterItem leaf rest items i)
      else
        n.lookup p = .error (.wrongKind p.raw s.text .sequence) ∧
          ∀ leaf, n.lookupOrCreate leaf p = (n, .error (.wrongKind p.raw s.text .sequence))) ∧
      (n.follow front = .ok (some .null) → ∀ leaf,
        n.lookupOrCreate leaf p = goingOn none front p n (buildFor leaf rest s i)) ∧
      (n.follow front = .ok none → ∀ leaf,
        let parent : Kind := if i < Segment.indexBound then .sequence else .mapping
        let first := visitFrom (some parent) get front n
        match first.2 with
        | .stopped o => n.lookupOrCreate leaf p = (first.1, .error (o.error p))
        | .absent => n.lookupOrCreate leaf p = (first.1, .ok none)
        | .reached m =>
          (m = .empty parent ∧
            n.lookupOrCreate leaf p =
              goingOn (some parent) front p n (buildFor leaf rest s i)) ∨
          (∃ before key value, front = before ++ [.matcher key value] ∧
            m = .mapping [(key, .string value)]) ∨
          ∃ before key value, front = before ++ [.matcher key value, .field key] ∧
            m = .string value) := by
  refine ⟨fun items hitems => ?_, fun hnull leaf => ?_, fun hmissing leaf => ?_⟩
  · split
    · next hi => exact ⟨lookup_item hs hi hp hitems, fun leaf => by
        rw [lookupOrCreate_of_met hp hitems, visitFrom_sequence hs hi]⟩
    · next hi =>
        have hlookup := lookup_of_beyond hs (Nat.not_lt.mp hi) hp hitems
        refine ⟨hlookup, fun leaf => ?_⟩
        have hfollow : n.follow p.segments ≠ .ok none := by
          rw [ne_eq, ← lookup_eq_ok_iff, hlookup]
          nofun
        rw [lookupOrCreate_eq_lookup hfollow, hlookup]
  · rw [lookupOrCreate_of_met hp hnull, visitFrom_null, visitFrom_container hs]
  · have hwalk := lookupOrCreate_of_missing hp hmissing leaf
    rwa [visitFrom_container hs, hs.container_eq] at hwalk

end Behind

/-- The second of the items that are missing can be written as `01`. It is not there, and is
appended behind the first one; in place of a null, and of nothing, a sequence is built that stays
without it. -/
theorem walks_at_numeral_padded :
    let p : Path := ⟨"args.01", [.field "args", .field "01"]⟩
    let one : Node := .mapping [("args", .sequence [.string "a"])]
    let unset : Node := .mapping [("args", .null)]
    (Segment.field "01").IsNumeral 1 ∧ p.segments = [.field "args"] ++ [.field "01"] ∧
      (one.lookup p = .ok none ∧
        one.lookupOrCreate .mapping p =
          (.mapping [("args", .sequence [.string "a", .mapping []])],
            .ok (some (.mapping [])))) ∧
      unset.lookupOrCreate .mapping p = (.mapping [("args", .sequence [])], .ok none) ∧
      (Node.mapping []).lookupOrCreate .mapping p =
        (.mapping [("args", .sequence [])], .ok none) := by
  intro p one unset
  have hs : (Segment.field "01").IsNumeral 1 := ⟨"01", rfl, rfl, rfl⟩
  have hp : p.segments = [.field "args"] ++ [.field "01"] := rfl
  obtain ⟨hlookup, hcreate⟩ := (walks_at_numeral (n := one) hs hp).1 [.string "a"] rfl
  have hnull := (walks_at_numeral (n := unset) hs hp).2.1 rfl .mapping
  have hmissing := (walks_at_numeral (n := .mapping []) hs hp).2.2 rfl .mapping
  refine ⟨hs, hp, ⟨hlookup, hcreate .mapping⟩, hnull, ?_⟩
  rcases hmissing with ⟨-, hbuilt⟩ | ⟨before, key, value, hmatcher, -⟩ |
    ⟨before, key, value, hmatcher, -⟩
  · exact hbuilt
  · have hsame := congrArg List.getLast? hmatcher
    simp at hsame
  · have hlength := congrArg List.length hmatcher
    simp at hlength

/-- The first number that is no position any more: there is no such item, but a lookup fails,
and what is built for it is a mapping. -/
theorem numeral_beyond_bound :
    let p : Path := ⟨"18446744073709551616", [.field "18446744073709551616"]⟩
    let n : Node := .sequence [.string "a"]
    Path.parse p.raw = .ok p ∧
      (Segment.field "18446744073709551616").IsNumeral 18446744073709551616 ∧
      n.lookup p = .error (.wrongKind p.raw "18446744073709551616" .sequence) ∧
      n.lookupOrCreate .scalar p =
        (n, .error (.wrongKind p.raw "18446744073709551616" .sequence)) ∧
      Node.null.lookupOrCreate .scalar p =
        (.mapping [("18446744073709551616", .string "")], .ok (some (.string ""))) := by
  exact ⟨rfl, ⟨_, rfl, rfl, rfl⟩, rfl, rfl, rfl⟩

end Node
end Graft
