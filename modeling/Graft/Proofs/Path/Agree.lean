import Graft.Proofs.Path.Walk

/-!
# Graft.Proofs.Path.Agree

Lookups and walks agree on what there is (`Node.traversals_agree`).

A walk that creates nothing answers as a lookup and changes nothing unless it is told
to at its end (`Node.visitFrom_none_get`). A walk that may create does the same wherever
the lookup ends at a node or at an obstacle: in front of both there is a child for every
segment, and in front of an obstacle there is none to prepare
(`Node.visitFrom_eq_of_follow`). So the two can differ only where the lookup finds
nothing.
-/

namespace Graft

@[simp] theorem Node.Visit.toExcept_ofFound {α : Type} (p : Path)
    (found : Except Obstacle (Option α)) :
    toExcept p (.ofFound found) = found.mapError (·.error p) := by
  rcases found with o | _ | a <;> rfl

namespace Node

/-- **Lookups and walks agree.** A walk that does not create ends as the lookup does: what
it does at its end it does to the node found, the errors are the same, and it leaves the
document alone by itself. Unless the lookup finds nothing, a walk that may create, with
whatever kind for the leaf, is this same walk, so it reaches this node or fails with this
error, and by itself leaves the document alone too. -/
theorem traversals_agree (n : Node) (p : Path) :
    n.visit none get p = (n, n.lookup p) ∧
      (∀ {α : Type} (f : Node → Node × α),
        (n.visit none f p).2 = (n.lookup p).map (Option.map fun c => (f c).2)) ∧
      (n.lookup p ≠ .ok none → ∀ leaf : Kind,
        n.lookupOrCreate leaf p = (n, n.lookup p) ∧
          ∀ {α : Type} (f : Node → Node × α), n.visit (some leaf) f p = n.visit none f p) := by
  have hget : n.visit none get p = (n, n.lookup p) := by
    simp only [visit, visitFrom_none_get, Visit.toExcept_ofFound, lookup]
  refine ⟨hget, fun f => ?_, fun hfound leaf => ?_⟩
  · simp only [visit, visitFrom_outcome none f, visitFrom_none_get, Visit.map_ofFound,
      Visit.toExcept_ofFound, lookup]
    rcases n.follow p.segments with o | c? <;> rfl
  · have hfollow : n.follow p.segments ≠ .ok none := fun h => hfound (lookup_eq_ok_iff.mpr h)
    have hsame {α : Type} (f : Node → Node × α) : n.visit (some leaf) f p = n.visit none f p := by
      simp only [visit, visitFrom_eq_of_follow hfollow]
    exact ⟨(hsame get).trans hget, hsame⟩

/-- Below a matcher, the null that is found is reached as it is, and a walk into a text
stops there. -/
theorem traversals_agree_below_matcher :
    let n : Node := .mapping
      [("images", .sequence [.null, .mapping [("name", .string "app"), ("image", .null)]])]
    let image : Path :=
      ⟨"images.[name=app].image", [.field "images", .matcher "name" "app", .field "image"]⟩
    let tag : Path :=
      ⟨"images.[name=app].name.0", [.field "images", .matcher "name" "app", .field "name",
        .field "0"]⟩
    (n.lookup image ≠ .ok none ∧ n.lookupOrCreate .mapping image = (n, .ok (some .null))) ∧
      (n.lookup tag ≠ .ok none ∧
        n.lookupOrCreate .mapping tag = (n, .error (.wrongKind tag.raw "0" .scalar))) := by
  intro n image tag
  have himage : n.lookup image = .ok (some .null) := rfl
  have htag : n.lookup tag = .error (.wrongKind tag.raw "0" .scalar) := rfl
  have hfound : n.lookup image ≠ .ok none := by rw [himage]; nofun
  have hfails : n.lookup tag ≠ .ok none := by rw [htag]; nofun
  refine ⟨⟨hfound, ?_⟩, hfails, ?_⟩
  · rw [((traversals_agree n image).2.2 hfound .mapping).1, himage]
  · rw [((traversals_agree n tag).2.2 hfails .mapping).1, htag]

end Node
end Graft
