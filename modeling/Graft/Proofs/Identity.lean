import Mathlib.Data.List.Infix
import Graft.Identity
import Graft.Proofs.Path.Walk

/-!
# Graft.Proofs.Identity

What of a document makes its identity, and which walks can change it.

The identity is read off the texts at four places (`Identity.of_eq`). A document without any
root field needs no case of its own: where there is nothing, the text is empty, and the empty
texts give the zero identity.

A walk changes the text at a place only if it ends there or further up
(`Node.textAt_visitFrom`), since what it creates on its way is empty. So an identity is changed
only by walks that end at one of the four places, or at the one node above two of them
(`Identity.of_visitFrom`).
-/

namespace Graft

namespace Node

/-- The text at the place that some keys lead to; empty if there is none. -/
def textAt : List String → Node → String
  | [], n => n.text?.getD ""
  | key :: rest, n => ((n.field? key).map (textAt rest)).getD ""

/-! ### What is created has no text -/

theorem textAt_empty (place : List String) (k : Kind) : textAt place (empty k) = "" := by
  cases k <;> cases place <;> rfl

theorem textAt_sequence (place : List String) (items : List Node) :
    textAt place (.sequence items) = "" := by
  cases place <;> rfl

theorem textAt_opened (place : List String) (s : Segment) (n : Node) :
    textAt place (n.opened s) = textAt place n := by
  rcases opened_cases s n with ⟨-, h⟩ | ⟨rfl, -⟩
  · rw [h]
  · exact (textAt_empty place s.container).trans (textAt_empty place .null).symm

/-- A child that is prepared has no text where there was none before. -/
theorem textAt_prepared (place : List String) (s : Segment) (fill : Kind) (n : Node) :
    textAt place (n.prepared s fill) = textAt place n := by
  rw [← textAt_opened place s n]
  rcases prepared_cases s fill n with hsame | ⟨entries, name, hopened, rfl, hget, hnew⟩ |
    ⟨items, hopened, hnew⟩
  · rw [hsame]
  · rw [hopened, hnew]
    cases place with
    | nil => rfl
    | cons key rest =>
        by_cases hkey : name = key
        · subst hkey
          simp [textAt, field?, hget, textAt_empty]
        · simp only [textAt, field?, Entries.get?_insert_of_ne hkey]
  · rw [hopened, hnew, textAt_sequence, textAt_sequence]

theorem textAt_readied (place : List String) (create : Option Kind) (s : Segment)
    (rest : List Segment) (n : Node) : textAt place (n.readied create s rest) = textAt place n := by
  cases create with
  | none => rfl
  | some leaf => exact textAt_prepared place s _ n

/-! ### Walks and texts -/

/-- A child that is put in place changes the texts in it alone. -/
theorem textAt_setChild {n c c' : Node} {s : Segment} (hc : n.child? s = .ok (some c))
    {place : List String}
    (h : ∀ key rest, s = .field key → place = key :: rest → textAt rest c' = textAt rest c) :
    textAt place (n.setChild s c') = textAt place n := by
  rcases child?_cases hc with ⟨entries, name, rfl, rfl, hget⟩ | ⟨items, name, i, rfl, rfl, hi, -⟩ |
    ⟨items, key, value, rfl, rfl, -⟩
  · cases place with
    | nil => rfl
    | cons key rest =>
        by_cases hkey : name = key
        · subst hkey
          simp [textAt, setChild, field?, hget, h name rest rfl rfl]
        · simp only [textAt, setChild, field?, Entries.get?_insert_of_ne hkey]
  · simp only [setChild, hi, textAt_sequence]
  · simp only [setChild, textAt_sequence]

/-- A walk leaves the text at a place, unless it ends there or further up. -/
theorem textAt_visitFrom {α : Type} {segments : List Segment} {place : List String}
    (h : ¬ segments <+: place.map .field) (create : Option Kind) (f : Node → Node × α)
    (n : Node) : textAt place (visitFrom create f segments n).1 = textAt place n := by
  induction segments generalizing place n with
  | nil => exact absurd List.nil_prefix h
  | cons s rest ih =>
      rw [← textAt_readied place create s rest n]
      rcases fst_visitFrom_cons_cases create f s rest n with hstays | ⟨c, hc, hset⟩
      · rw [hstays]
      · rw [hset]
        refine textAt_setChild hc ?_
        rintro key place rfl rfl
        exact ih (fun hrest => h ((List.prefix_cons_inj _).mpr hrest)) c

end Node

namespace Identity

/-! ### The four places -/

/-- The places whose texts are the identity of a document. -/
def places : List (List String) :=
  [["apiVersion"], ["kind"], ["metadata", "name"], ["metadata", "namespace"]]

theorem textAt_field (doc : Node) (key : String) :
    doc.textAt [key] = (doc.fieldText? key).getD "" := by
  cases h : doc.field? key <;> simp [Node.textAt, Node.fieldText?, h]

theorem textAt_metadata (doc : Node) (key : String) :
    doc.textAt ["metadata", key] = ((doc.field? "metadata").bind (·.fieldText? key)).getD "" := by
  cases h : doc.field? "metadata" with
  | none => simp [Node.textAt, h]
  | some m =>
      rw [Option.bind_some, ← textAt_field m key]
      simp [Node.textAt, h]

/-- A document is who the texts at the four places say. -/
theorem of_eq (doc : Node) :
    of doc =
      { group := (splitVersion (doc.textAt ["apiVersion"])).1
        version := (splitVersion (doc.textAt ["apiVersion"])).2
        kind := doc.textAt ["kind"]
        name := doc.textAt ["metadata", "name"]
        space := doc.textAt ["metadata", "namespace"] } := by
  simp only [textAt_field, textAt_metadata]
  unfold of
  split
  · cases doc.fieldText? "apiVersion" <;> rfl
  · next h =>
    -- without root fields all texts are empty
    simp only [rootFields, List.any_cons, List.any_nil, Bool.or_false, Bool.or_eq_true, not_or,
      Option.isNone_iff_eq_none, Bool.not_eq_true, Option.isSome_eq_false_iff] at h
    obtain ⟨hversion, hkind, hmetadata⟩ := h
    simp [Node.fieldText?, hversion, hkind, hmetadata, splitVersion]

/-- The paths that end at one of the places, or at the node above two of them. -/
def naming : List (List Segment) :=
  [[.field "apiVersion"], [.field "kind"], [.field "metadata"],
    [.field "metadata", .field "name"], [.field "metadata", .field "namespace"]]

theorem mem_naming_of_above {segments : List Segment} (hne : segments ≠ [])
    {place : List String} (hplace : place ∈ places) (h : segments <+: place.map .field) :
    segments ∈ naming := by
  have hinits : ∀ place ∈ places, ∀ t ∈ (place.map Segment.field).inits, t ≠ [] → t ∈ naming := by
    decide
  exact hinits place hplace segments ((List.mem_inits _ _).mpr h) hne

/-- A walk that has another path leaves a document who it was, wherever it ends and whatever
it does there. -/
theorem of_visitFrom {α : Type} {segments : List Segment} (hne : segments ≠ [])
    (h : segments ∉ naming) (create : Option Kind) (f : Node → Node × α) (n : Node) :
    of (Node.visitFrom create f segments n).1 = of n := by
  have hplace (place : List String) (hmem : place ∈ places) :
      (Node.visitFrom create f segments n).1.textAt place = n.textAt place :=
    Node.textAt_visitFrom (fun hprefix => h (mem_naming_of_above hne hmem hprefix)) create f n
  rw [of_eq, of_eq, hplace ["apiVersion"] (by simp [places]), hplace ["kind"] (by simp [places]),
    hplace ["metadata", "name"] (by simp [places]),
    hplace ["metadata", "namespace"] (by simp [places])]

end Identity
end Graft
