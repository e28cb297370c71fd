import Graft.Proofs.Path.Grammar
import Graft.Proofs.Path.Walk

/-!
# Graft.Proofs.Path.Compose

Two paths with a dot between them are one path, and going along it is going along the first
one and from its end along the second (`Path.walks_compose`).

A text is a path if it is valid segments with dots between them, so two paths with a dot
between them are one (`Path.Written.append`). A lookup then goes on from the node that the first
path leads to (`Node.follow_append`). So does a walk that creates (`Node.visitFrom_append`), but
what is created at the end of the first path has to be what the segment behind it is made for:
the first path is walked with this container for its leaf, and the leaf's own kind is for the
second. The errors name the path that was walked, and are otherwise the same
(`PathError.onPath`).
-/

namespace Graft

/-! ### Texts -/

namespace Path

theorem Written.append {front rest : List Segment} {p q : String} (hp : Written front p)
    (hq : Written rest q) : Written (front ++ rest) (p ++ "." ++ q) where
  ne_nil := by simp [hp.ne_nil]
  valid s hs := (List.mem_append.mp hs).elim (hp.valid s) (hq.valid s)
  text := by
    have hfront : front.map Segment.text ≠ [] := by simpa using hp.ne_nil
    have hrest : rest.map Segment.text ≠ [] := by simpa using hq.ne_nil
    rw [List.map_append, String.intercalate_append_of_ne_nil hfront hrest, hp.text, hq.text]

/-- Two paths with a dot between them are read as the segments of both. -/
theorem parse_append {p q : String} {front rest : Path} (hp : parse p = .ok front)
    (hq : parse q = .ok rest) :
    parse (p ++ "." ++ q) = .ok ⟨p ++ "." ++ q, front.segments ++ rest.segments⟩ :=
  parse_eq_ok_iff.mpr ⟨rfl, (parse_eq_ok_iff.mp hp).2.append (parse_eq_ok_iff.mp hq).2⟩

end Path

/-! ### Walks -/

/-- The error as it is on another path. -/
def PathError.onPath (raw : String) : PathError → PathError
  | .malformed _ fault => .malformed raw fault
  | .wrongKind _ segment found => .wrongKind raw segment found

namespace Node

/-- A walk along more segments ends with the first ones, or goes on from the node that these
lead to and leaves it as a walk from there does. -/
theorem visitFrom_append_cases {α : Type} (create : Option Kind) (f : Node → Node × α)
    (front rest : List Segment) (n : Node) :
    let leaf := create.map fun leaf => fillKind leaf rest
    let first := visitFrom leaf get front n
    visitFrom create f (front ++ rest) n =
      match first.2 with
      | .stopped o => (first.1, .stopped o)
      | .absent => (first.1, .absent)
      | .reached m =>
        let second := visitFrom create f rest m
        ((visitFrom leaf (overwrite second.1) front n).1, second.2) := by
  intro leaf first
  have houtcome := visitFrom_outcome leaf (visitFrom create f rest) front n
  rw [visitFrom_append, houtcome]
  refine Prod.ext ?_ ?_
  · cases hfirst : first.2 with
    | stopped o =>
        refine fst_visitFrom_congr fun c hc => ?_
        cases hfirst.symm.trans hc
    | absent =>
        refine fst_visitFrom_congr fun c hc => ?_
        cases hfirst.symm.trans hc
    | reached m =>
        refine fst_visitFrom_congr fun c hc => ?_
        obtain rfl : m = c := Visit.reached.inj (hfirst.symm.trans hc)
        rfl
  · show (first.2.map fun c => (visitFrom create f rest c).2).join = _
    cases first.2 <;> rfl

end Node

namespace Path

open Node

/-- **Paths compose.** Two paths with a dot between them are a path, of the segments of the
first one and those of the second. A lookup of it is a lookup of the first path and then, in the
node found, of the second. A walk that creates is such a walk along the first path, with the
container for the second's first segment as its leaf, and then, in the node it answers with,
along the second; so the document is the same also where the walk ends early. The errors are
the same but for the path they name. -/
theorem walks_compose {p q : String} {front rest : Path} (hp : parse p = .ok front)
    (hq : parse q = .ok rest) :
    let whole : Path := ⟨p ++ "." ++ q, front.segments ++ rest.segments⟩
    parse (p ++ "." ++ q) = .ok whole ∧
      ∃ s more, rest.segments = s :: more ∧ ∀ n : Node,
        (n.lookup whole =
          match n.lookup front with
          | .error e => .error (e.onPath whole.raw)
          | .ok none => .ok none
          | .ok (some m) => (m.lookup rest).mapError (·.onPath whole.raw)) ∧
        ∀ leaf,
          let first := n.lookupOrCreate s.container front
          n.lookupOrCreate leaf whole =
            match first.2 with
            | .error e => (first.1, .error (e.onPath whole.raw))
            | .ok none => (first.1, .ok none)
            | .ok (some m) =>
              let second := m.lookupOrCreate leaf rest
              ((n.visit (some s.container) (overwrite second.1) front).1,
                second.2.mapError (·.onPath whole.raw)) := by
  intro whole
  obtain ⟨s, more, hrest⟩ := List.exists_cons_of_ne_nil (segments_ne_nil hq)
  refine ⟨parse_append hp hq, s, more, hrest, fun n => ⟨?_, fun leaf => ?_⟩⟩
  · simp only [lookup, whole, follow_append]
    rcases n.follow front.segments with o | _ | m
    · rfl
    · rfl
    · show (m.follow rest.segments).mapError (·.error whole) =
        ((m.follow rest.segments).mapError (·.error rest)).mapError (·.onPath whole.raw)
      cases m.follow rest.segments <;> rfl
  · have hkind : fillKind leaf rest.segments = s.container := by rw [hrest]; rfl
    have hwalk := visitFrom_append_cases (some leaf) get front.segments rest.segments n
    simp only [Option.map_some, hkind] at hwalk
    simp only [lookupOrCreate, visit, whole, hwalk]
    cases (visitFrom (some s.container) get front.segments n).2 with
    | stopped o => rfl
    | absent => rfl
    | reached m =>
        simp only [Visit.toExcept]
        cases (visitFrom (some leaf) get rest.segments m).2 <;> rfl

/-- The first path creates an element, a mapping, whatever stands behind it. The second one
fails in the text of this element, and the error names the path of both. -/
theorem walks_compose_element :
    let front : Path := ⟨"images.[name=web]", [.field "images", .matcher "name" "web"]⟩
    let rest : Path := ⟨"name.0", [.field "name", .field "0"]⟩
    let whole : Path := ⟨"images.[name=web].name.0", front.segments ++ rest.segments⟩
    parse front.raw = .ok front ∧ parse rest.raw = .ok rest ∧ parse whole.raw = .ok whole ∧
      (Node.mapping [("images", .null)]).lookupOrCreate .scalar whole =
        (.mapping [("images", .sequence [.mapping [("name", .string "web")]])],
          .error (.wrongKind whole.raw "0" .scalar)) := by
  intro front rest whole
  have hfront : parse "images.[name=web]" =
      .ok ⟨"images.[name=web]", [.field "images", .matcher "name" "web"]⟩ := rfl
  have hrest : parse "name.0" = .ok ⟨"name.0", [.field "name", .field "0"]⟩ := rfl
  obtain ⟨hwhole, s, more, hs, hwalks⟩ := walks_compose hfront hrest
  obtain ⟨rfl, rfl⟩ := List.cons.inj hs
  exact ⟨hfront, hrest, hwhole, (hwalks _).2 .scalar⟩

end Path
end Graft
