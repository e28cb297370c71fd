import Graft.Proofs.Path.Step

/-!
# Graft.Proofs.Path.Walk

Whole walks: what `Node.visitFrom` leaves behind, and what a later walk along the
same segments makes of it.

Every proof here is an induction on the segments over one equation, `visitFrom_cons`,
which reduces a walk to the child of the node in front of it.

* A walk that creates nothing answers as `Node.follow` and by itself changes nothing
  (`visitFrom_none_get`), and where `Node.follow` does not end in nothing a walk that may
  create is no other (`visitFrom_eq_of_follow`).
* What its end does may be a walk along more segments, and then it is one walk along all
  of them (`follow_append`, `visitFrom_append`).
* It leaves the fields that its first segment does not name
  (`field?_visitFrom_of_ne`).
* Along steady segments it can be repeated: a second walk arrives where the first one
  did (`visitFrom_visitFrom_of_reached`), so what was put at the end is what is found
  there (`follow_visitFrom`), and one that does the same again changes nothing more,
  wherever the first one ended (`visitFrom_visitFrom`).

Steadiness is about matchers. The walk below a matcher must not change the field
that the matcher asks for, or the matcher would lead elsewhere the next time.
-/

namespace Graft

/-! ### Steady segments -/

namespace Segment

/-- Whether a walk along the segments behind this one leaves alone what this one
asks for. A matcher asks for a field of the element, so there has to be a next
segment, and another one than this field. -/
def Keeps : Segment → List Segment → Prop
  | .field _, _ => True
  | .matcher _ _, [] => False
  | .matcher key _, next :: _ => next ≠ .field key

/-- Every segment is kept by those behind it. -/
def Steady : List Segment → Prop
  | [] => True
  | s :: rest => s.Keeps rest ∧ Steady rest

instance (s : Segment) (rest : List Segment) : Decidable (s.Keeps rest) :=
  match s, rest with
  | .field _, _ => isTrue trivial
  | .matcher _ _, [] => isFalse id
  | .matcher key _, next :: _ => inferInstanceAs (Decidable (next ≠ .field key))

instance decidableSteady : (segments : List Segment) → Decidable (Steady segments)
  | [] => isTrue trivial
  | s :: rest =>
    have := decidableSteady rest
    inferInstanceAs (Decidable (s.Keeps rest ∧ Steady rest))

/-- Without matchers all segments are steady. -/
theorem steady_of_forall_field {segments : List Segment}
    (h : ∀ s ∈ segments, ∃ name, s = .field name) : Steady segments := by
  induction segments with
  | nil => exact trivial
  | cons s rest ih =>
      obtain ⟨name, rfl⟩ := h s List.mem_cons_self
      exact ⟨trivial, ih fun t ht => h t (List.mem_cons_of_mem _ ht)⟩

end Segment

/-! ### One segment -/

/-- An outcome with another answer. -/
def Visit.map {α β : Type} (g : α → β) : Visit α → Visit β
  | .reached a => .reached (g a)
  | .absent => .absent
  | .stopped o => .stopped o

/-- What became of a walk that at its end is another walk. -/
def Visit.join {α : Type} : Visit (Visit α) → Visit α
  | .reached v => v
  | .absent => .absent
  | .stopped o => .stopped o

/-- What became of a walk that does what a lookup does. -/
def Visit.ofFound {α : Type} : Except Obstacle (Option α) → Visit α
  | .ok (some a) => .reached a
  | .ok none => .absent
  | .error o => .stopped o

theorem Visit.map_ofFound {α β : Type} (g : α → β) (found : Except Obstacle (Option α)) :
    (ofFound found).map g = ofFound (found.map (Option.map g)) := by
  rcases found with o | _ | a <;> rfl

theorem Visit.ofFound_eq_reached_iff {α : Type} {found : Except Obstacle (Option α)} {a : α} :
    ofFound found = .reached a ↔ found = .ok (some a) := by
  rcases found with o | _ | b <;> simp [ofFound]

namespace Node

variable {α : Type} {create : Option Kind} {f : Node → Node × α}

/-- A lookup that finds a node enters a child and finds the node from there. -/
theorem follow_cons_eq_some_iff {s : Segment} {rest : List Segment} {n c : Node} :
    n.follow (s :: rest) = .ok (some c) ↔
      ∃ d, n.child? s = .ok (some d) ∧ d.follow rest = .ok (some c) := by
  rw [follow_cons]
  constructor
  · intro h
    cases hd : n.child? s with
    | error o => simp [hd] at h
    | ok d? =>
        cases d? with
        | none => simp [hd] at h
        | some d =>
            rw [hd] at h
            exact ⟨d, rfl, h⟩
  · rintro ⟨d, hd, h⟩
    rw [hd]
    exact h

/-- The node as a walk finds it in front of a segment: with a child prepared, if
the walk creates. -/
def readied (create : Option Kind) (s : Segment) (rest : List Segment) (n : Node) : Node :=
  match create with
  | none => n
  | some leaf => n.prepared s (fillKind leaf rest)

theorem readied_of_some {n c : Node} {s : Segment} (h : n.child? s = .ok (some c))
    (create : Option Kind) (rest : List Segment) : n.readied create s rest = n := by
  cases create with
  | none => rfl
  | some leaf => exact prepared_of_some h _

theorem readied_of_error {n : Node} {s : Segment} {o : Obstacle} (h : n.child? s = .error o)
    (create : Option Kind) (rest : List Segment) : n.readied create s rest = n := by
  cases create with
  | none => rfl
  | some leaf => exact prepared_of_error h _

@[simp] theorem readied_none (s : Segment) (rest : List Segment) (n : Node) :
    n.readied none s rest = n := rfl

theorem readied_readied (create : Option Kind) (s : Segment) (rest : List Segment) (n : Node) :
    (n.readied create s rest).readied create s rest = n.readied create s rest := by
  cases create with
  | none => rfl
  | some leaf => exact prepared_prepared s _ _ n

theorem field?_readied_of_ne {s : Segment} {key : String} (h : s ≠ .field key)
    (create : Option Kind) (rest : List Segment) (n : Node) :
    (n.readied create s rest).field? key = n.field? key := by
  cases create with
  | none => rfl
  | some leaf => exact field?_prepared_of_ne h _ n

/-- A walk is a step to a child and the walk on from there. -/
theorem visitFrom_cons (create : Option Kind) (f : Node → Node × α) (s : Segment)
    (rest : List Segment) (n : Node) :
    visitFrom create f (s :: rest) n =
      match (n.readied create s rest).child? s with
      | .error o => (n.readied create s rest, .stopped o)
      | .ok none => (n.readied create s rest, .absent)
      | .ok (some c) =>
        ((n.readied create s rest).setChild s (visitFrom create f rest c).1,
          (visitFrom create f rest c).2) := by
  cases create <;> exact modifyChild_eq s _ _

/-- Where there is a child, a walk goes on in it, and puts it back. -/
theorem visitFrom_cons_of_some {n c : Node} {s : Segment} (h : n.child? s = .ok (some c))
    (create : Option Kind) (f : Node → Node × α) (rest : List Segment) :
    visitFrom create f (s :: rest) n =
      (n.setChild s (visitFrom create f rest c).1, (visitFrom create f rest c).2) := by
  rw [visitFrom_cons, readied_of_some h, h]

/-- A step of a walk leaves the node as it is when the step was prepared, but for the child
that the walk went on in, if it did. -/
theorem fst_visitFrom_cons_cases (create : Option Kind) (f : Node → Node × α) (s : Segment)
    (rest : List Segment) (n : Node) :
    (visitFrom create f (s :: rest) n).1 = n.readied create s rest ∨
      ∃ c, (n.readied create s rest).child? s = .ok (some c) ∧
        (visitFrom create f (s :: rest) n).1 =
          (n.readied create s rest).setChild s (visitFrom create f rest c).1 := by
  rw [visitFrom_cons]
  cases (n.readied create s rest).child? s with
  | error o => exact .inl rfl
  | ok c? =>
      cases c? with
      | none => exact .inl rfl
      | some c => exact .inr ⟨c, rfl, rfl⟩

/-! ### Where a walk ends -/

/-- Where a walk ends does not depend on what is done there: the answer is that of
`f` at the node that a walk without a change reaches. -/
theorem visitFrom_outcome (create : Option Kind) (f : Node → Node × α)
    (segments : List Segment) (n : Node) :
    (visitFrom create f segments n).2 =
      (visitFrom create get segments n).2.map fun c => (f c).2 := by
  induction segments generalizing n with
  | nil => rfl
  | cons s rest ih =>
      rw [visitFrom_cons, visitFrom_cons]
      cases h : (n.readied create s rest).child? s with
      | error o => rfl
      | ok c? =>
          cases c? with
          | none => rfl
          | some c => exact ih c

/-- What a walk leaves depends on what is done at its end in the node there alone. -/
theorem fst_visitFrom_congr {β : Type} {g : Node → Node × β} {segments : List Segment} {n : Node}
    (h : ∀ c, (visitFrom create get segments n).2 = .reached c → (f c).1 = (g c).1) :
    (visitFrom create f segments n).1 = (visitFrom create g segments n).1 := by
  induction segments generalizing n with
  | nil => exact h n rfl
  | cons s rest ih =>
      rw [visitFrom_cons] at h
      rw [visitFrom_cons, visitFrom_cons]
      cases hc : (n.readied create s rest).child? s with
      | error o => rfl
      | ok c? =>
          cases c? with
          | none => rfl
          | some c =>
              rw [hc] at h
              simp only [ih h]

/-- A walk that neither creates nor changes anything is a lookup. -/
theorem visitFrom_none_get (segments : List Segment) (n : Node) :
    visitFrom none get segments n = (n, .ofFound (n.follow segments)) := by
  induction segments generalizing n with
  | nil => rfl
  | cons s rest ih =>
      rw [visitFrom_cons, readied_none, follow_cons]
      cases hc : n.child? s with
      | error o => rfl
      | ok c? =>
          cases c? with
          | none => rfl
          | some c => simp only [ih c, setChild_child hc]

/-- Where a lookup does not end in nothing, a walk that may create does not. -/
theorem visitFrom_eq_of_follow {segments : List Segment} {n : Node}
    (h : n.follow segments ≠ .ok none) (create : Option Kind) (f : Node → Node × α) :
    visitFrom create f segments n = visitFrom none f segments n := by
  induction segments generalizing n with
  | nil => rfl
  | cons s rest ih =>
      rw [follow_cons] at h
      cases hc : n.child? s with
      | error o => rw [visitFrom_cons, visitFrom_cons, readied_of_error hc, readied_none, hc]
      | ok c? =>
          cases c? with
          | none => exact absurd (by rw [hc]) h
          | some c =>
              rw [hc] at h
              rw [visitFrom_cons, visitFrom_cons, readied_of_some hc, readied_none, hc]
              simp only [ih h]

/-- A node that is found without creating anything is also where a walk ends that
may create. -/
theorem visitFrom_of_follow_some {segments : List Segment} {n c : Node}
    (h : n.follow segments = .ok (some c)) (create : Option Kind) (f : Node → Node × α) :
    (visitFrom create f segments n).2 = .reached (f c).2 := by
  have hfound : n.follow segments ≠ .ok none := by
    rw [h]
    nofun
  rw [visitFrom_eq_of_follow hfound, visitFrom_outcome, visitFrom_none_get, h]
  rfl

/-- Where there is nothing, a walk that does not create changes nothing. -/
theorem visitFrom_none_of_absent {segments : List Segment} {n : Node}
    (h : n.follow segments = .ok none) (f : Node → Node × α) :
    visitFrom none f segments n = (n, .absent) := by
  have hget : visitFrom none get segments n = (n, .absent) := by
    rw [visitFrom_none_get, h]
    rfl
  have hkept : ∀ c, (visitFrom none get segments n).2 = .reached c → (f c).1 = c := by
    intro c hc
    rw [hget] at hc
    cases hc
  refine Prod.ext ?_ ?_
  · rw [fst_visitFrom_congr (g := get) hkept, hget]
  · rw [visitFrom_outcome, hget]
    rfl

/-! ### Segments behind segments -/

/-- A lookup along more segments goes on from the node that the first ones lead to. -/
theorem follow_append (front rest : List Segment) (n : Node) :
    n.follow (front ++ rest) =
      match n.follow front with
      | .error o => .error o
      | .ok none => .ok none
      | .ok (some m) => m.follow rest := by
  induction front generalizing n with
  | nil => rfl
  | cons s front ih =>
      rw [List.cons_append, follow_cons, follow_cons]
      cases n.child? s with
      | error o => rfl
      | ok c? =>
          cases c? with
          | none => rfl
          | some c => exact ih c

/-- Behind segments that lead somewhere, a lookup goes on from there. -/
theorem follow_append_of_some {front : List Segment} {n m : Node}
    (h : n.follow front = .ok (some m)) (rest : List Segment) :
    n.follow (front ++ rest) = m.follow rest := by
  rw [follow_append, h]

/-- The child that is prepared in front of more segments is the one that is prepared where
the first of them is the leaf. -/
theorem readied_append (create : Option Kind) (s : Segment) (front rest : List Segment) (n : Node) :
    n.readied create s (front ++ rest) =
      n.readied (create.map fun leaf => fillKind leaf rest) s front := by
  cases create with
  | none => rfl
  | some leaf => cases front <;> rfl

/-- A walk along more segments is a walk along the first ones, with a leaf of the kind that
the others begin in, which at its end walks on along the others. -/
theorem visitFrom_append (create : Option Kind) (f : Node → Node × α)
    (front rest : List Segment) (n : Node) :
    let walk := visitFrom (create.map fun leaf => fillKind leaf rest)
      (visitFrom create f rest) front n
    visitFrom create f (front ++ rest) n = (walk.1, walk.2.join) := by
  induction front generalizing n with
  | nil => rfl
  | cons s front ih =>
      simp only [List.cons_append, visitFrom_cons, readied_append]
      cases (n.readied (create.map fun leaf => fillKind leaf rest) s front).child? s with
      | error o => rfl
      | ok c? =>
          cases c? with
          | none => rfl
          | some c => simp only [ih c]

/-- Behind segments that lead somewhere, a walk ends as one from there does. -/
theorem snd_visitFrom_append_of_some {front : List Segment} {n m : Node}
    (h : n.follow front = .ok (some m)) (create : Option Kind) (f : Node → Node × α)
    (rest : List Segment) :
    (visitFrom create f (front ++ rest) n).2 = (visitFrom create f rest m).2 := by
  rw [visitFrom_append, visitFrom_of_follow_some h]
  rfl

/-! ### What a walk leaves alone -/

/-- A walk leaves the fields that its first segment does not name. -/
theorem field?_visitFrom_of_ne {s : Segment} {key : String} (h : s ≠ .field key)
    (create : Option Kind) (f : Node → Node × α) (rest : List Segment) (n : Node) :
    (visitFrom create f (s :: rest) n).1.field? key = n.field? key := by
  have hready := field?_readied_of_ne h create rest n
  rcases fst_visitFrom_cons_cases create f s rest n with hstays | ⟨c, -, hset⟩
  · rw [hstays, hready]
  · rw [hset, field?_setChild_of_ne h, hready]

/-- A segment that is kept still leads to the child behind which the walk went
on. -/
theorem admits_visitFrom {s : Segment} {rest : List Segment} {c : Node} (hs : s.Keeps rest)
    (hc : s.admits c = true) (create : Option Kind) (f : Node → Node × α) :
    s.admits (visitFrom create f rest c).1 = true := by
  cases s with
  | field name => rfl
  | matcher key value =>
      cases rest with
      | nil => exact hs.elim
      | cons next rest =>
          have hfield := field?_visitFrom_of_ne hs create f rest c
          simpa only [Segment.admits, hasField, fieldText?, hfield] using hc

/-! ### Walking again -/

/-- Along steady segments, a second walk arrives where the first one did, whatever that did
there, so the two are one walk that does both. -/
theorem visitFrom_visitFrom_of_reached {β : Type} {segments : List Segment}
    (hs : Segment.Steady segments) {n c : Node}
    (h : (visitFrom create get segments n).2 = .reached c) (f : Node → Node × α)
    (create' : Option Kind) (g : Node → Node × β) :
    visitFrom create' g segments (visitFrom create f segments n).1 =
      visitFrom create (fun d => g (f d).1) segments n := by
  induction segments generalizing n with
  | nil => rfl
  | cons s rest ih =>
      rw [visitFrom_cons] at h
      rw [visitFrom_cons create f, visitFrom_cons create]
      cases hd : (n.readied create s rest).child? s with
      | error o => simp [hd] at h
      | ok d? =>
          cases d? with
          | none => simp [hd] at h
          | some d =>
              rw [hd] at h
              -- the second walk enters the child that the first one changed
              have hadmits := admits_visitFrom hs.1 (admits_of_child hd) create f
              simp only
              rw [visitFrom_cons_of_some (child?_setChild hd hadmits), setChild_setChild hadmits,
                ih hs.2 h]

/-- Along steady segments, what a walk made of the node at its end is what is found
there. -/
theorem follow_visitFrom {segments : List Segment} (hs : Segment.Steady segments) {n c : Node}
    (h : (visitFrom create get segments n).2 = .reached c) (f : Node → Node × α) :
    (visitFrom create f segments n).1.follow segments = .ok (some (f c).1) := by
  have htwice := visitFrom_visitFrom_of_reached hs h f none get
  have hfound := congrArg Prod.snd htwice
  rw [visitFrom_none_get, visitFrom_outcome create, h] at hfound
  exact Visit.ofFound_eq_reached_iff.mp hfound

/-- Along steady segments, a walk that would do the same again changes nothing
more. That covers a walk that ended early: what it created on the way is there
already, and it ends at the same place. -/
theorem visitFrom_visitFrom {segments : List Segment} (hs : Segment.Steady segments)
    (hf : ∀ c, f (f c).1 = f c) (n : Node) :
    visitFrom create f segments (visitFrom create f segments n).1 =
      visitFrom create f segments n := by
  induction segments generalizing n with
  | nil => simp only [visitFrom, hf]
  | cons s rest ih =>
      have hready := readied_readied create s rest n
      rw [visitFrom_cons create f s rest n]
      cases hc : (n.readied create s rest).child? s with
      | error o => rw [visitFrom_cons, hready, hc]
      | ok c? =>
          cases c? with
          | none => rw [visitFrom_cons, hready, hc]
          | some c =>
              have hadmits := admits_visitFrom hs.1 (admits_of_child hc) create f
              have hchild := child?_setChild hc hadmits
              -- the child is there now, so the second walk prepares nothing and enters it
              simp only
              rw [visitFrom_cons_of_some hchild, ih hs.2, setChild_child hchild]

/-! ### At a path -/

theorem lookup_eq_ok_iff {n : Node} {p : Path} {found : Option Node} :
    n.lookup p = .ok found ↔ n.follow p.segments = .ok found := by
  unfold lookup
  cases n.follow p.segments with
  | error o =>
      constructor
      · intro h; cases h
      · intro h; cases h
  | ok c =>
      constructor
      · intro h; cases h; rfl
      · intro h; cases h; rfl

/-- There is an answer if the walk arrived. -/
theorem visit_eq_some_iff {p : Path} {n : Node} {a : α} :
    (n.visit create f p).2 = .ok (some a) ↔ (visitFrom create f p.segments n).2 = .reached a := by
  simp only [visit]
  cases h : (visitFrom create f p.segments n).2 with
  | reached b => simp [Visit.toExcept]
  | absent => simp [Visit.toExcept]
  | stopped o => simp [Visit.toExcept]

/-- A node was found or created if the walk reached it. -/
theorem lookupOrCreate_eq_some_iff {leaf : Kind} {p : Path} {n c : Node} :
    (n.lookupOrCreate leaf p).2 = .ok (some c) ↔
      (visitFrom (some leaf) get p.segments n).2 = .reached c := visit_eq_some_iff

end Node
end Graft
