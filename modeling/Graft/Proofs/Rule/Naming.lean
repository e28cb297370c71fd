import Graft.Proofs.Identity
import Graft.Proofs.Rule.Invariant

/-!
# Graft.Proofs.Rule.Naming

Which writes can change who a document is: those at five paths (`Identity.of_writeAll`).

A write is a walk along its path, and what a walk leaves at its end, on its way there or where it
stops shows in the identity only if its path is one of the five (`Identity.of_visitFrom`). That a
pass of other writes leaves every document who it was is then a case of what relates documents
to what becomes of them (`Rule.applyAll_related`).
-/

namespace Graft
namespace Identity

variable {options : Option FieldOptions} {path : String}

/-- A write at another path leaves the document who it was, also if it fails. -/
theorem of_write (h : ∀ p, Path.parse path = .ok p → p.segments ∉ naming) (d : Draft) :
    of (d.write options path).1.doc = of d.doc := by
  rw [Draft.doc_write]
  cases hp : Path.parse path with
  | error e => rfl
  | ok p => exact of_visitFrom (Path.segments_ne_nil hp) (h p hp) _ _ d.doc

/-- At each of the five paths some value makes an empty mapping a document with an identity. -/
theorem exists_of_ne {segments : List Segment} (h : segments ∈ naming) :
    ∃ value : Node,
      of (Node.visitFrom (some value.kind) (Node.receive (some { create := true }) value) segments
        (.mapping [])).1 ≠ of (.mapping []) := by
  simp only [naming, List.mem_cons, List.not_mem_nil, or_false] at h
  obtain rfl | rfl | rfl | rfl | rfl := h
  · exact ⟨.string "v1", by decide⟩
  · exact ⟨.string "ConfigMap", by decide⟩
  · exact ⟨.mapping [("name", .string "cfg")], by decide⟩
  · exact ⟨.string "cfg", by decide⟩
  · exact ⟨.string "prod", by decide⟩

/-- **Only five paths can change who a document is.** A write at any other path, of whatever
value and under whatever options, leaves the identity of the document as it was and with it the
patterns that select it, whether the write is made, passed over, or fails half-way. At each of
the five some write changes an identity. So a pass all of whose writes are at other paths leaves
every document who it was, and later rules select the same ones. -/
theorem of_writeAll :
    (∀ path p, Path.parse path = .ok p →
      (p.segments ∉ naming → ∀ options (d : Draft),
        let after := (d.writeAll options [path]).1.doc
        of after = of d.doc ∧ ∀ pattern : Pattern, pattern.selects after = pattern.selects d.doc) ∧
      (p.segments ∈ naming →
        ∃ options, ∃ d : Draft, of (d.writeAll options [path]).1.doc ≠ of d.doc)) ∧
    ∀ rules : List Rule,
      (∀ r ∈ rules, ∀ targets ∈ r.targets, ∀ t ∈ targets, ∀ path ∈ t.withDefaultPaths.fieldPaths,
        ∀ p, Path.parse path = .ok p → p.segments ∉ naming) →
      ∀ docs : List Node,
        let after := (Rule.applyAll rules docs).state.docs
        after.map of = docs.map of ∧
          ∀ pattern : Pattern, after.map pattern.selects = docs.map pattern.selects := by
  refine ⟨fun path p hp => ⟨?_, ?_⟩, ?_⟩
  · intro hother options d after
    have hsame : of after = of d.doc := by
      simp only [after, Draft.writeAll_singleton]
      refine of_write (fun q hq => ?_) d
      obtain rfl : p = q := Except.ok.inj (hp.symm.trans hq)
      exact hother
    exact ⟨hsame, fun pattern => by simp only [Pattern.selects, hsame]⟩
  · intro hnaming
    obtain ⟨value, hne⟩ := exists_of_ne hnaming
    refine ⟨some { create := true }, ⟨.mapping [], value, 0⟩, ?_⟩
    rw [Draft.writeAll_singleton, Draft.doc_write, hp]
    exact hne
  · intro rules hother docs after
    have hrelated := Rule.applyAll_related (R := fun doc doc' => of doc = of doc') (fun _ => rfl)
      Eq.trans (fun r hr targets htargets t ht path hpath d =>
        (of_write (hother r hr targets htargets t ht path hpath) d).symm) docs
    have hsame : docs.map of = after.map of := by
      rw [← List.forall₂_eq_eq_eq, List.forall₂_map_left_iff, List.forall₂_map_right_iff]
      exact hrelated
    refine ⟨hsame.symm, fun pattern => ?_⟩
    have hselects := congrArg (List.map pattern.matchesId) hsame.symm
    rw [List.map_map, List.map_map] at hselects
    exact hselects

/-- A creation below the name makes a sequence of it before it fails, and the document still
has no name. A rule that writes images leaves the names of all documents, and fails at one of
them. -/
theorem of_writeAll_halfway :
    let d : Draft := ⟨.mapping [("metadata", .null)], .string "x", 0⟩
    let path := "metadata.name.[id=a].id.x"
    let step := d.writeAll (some { create := true }) [path]
    let rule : Rule :=
      { source := some Sample.image
        targets := some [{ select := some {}, fieldPaths := ["spec.images.0"]
                           options := some { create := true } }] }
    let docs := [Sample.configMap, Sample.deployment [], .mapping [("spec", .string "none")]]
    let pass := Rule.applyAll [rule] docs
    let made := Node.mapping [("id", .string "a")]
    (step = (⟨.mapping [("metadata", .mapping [("name", .sequence [made])])], d.value, 0⟩,
        some (.path (.wrongKind path "x" .scalar))) ∧ of step.1.doc = of d.doc) ∧
      pass.failure.isSome = true ∧ pass.state.docs.map of = docs.map of := by
  intro d path step rule docs pass made
  have hname : Path.parse "metadata.name.[id=a].id.x" = .ok ⟨"metadata.name.[id=a].id.x",
      [.field "metadata", .field "name", .matcher "id" "a", .field "id", .field "x"]⟩ := rfl
  have himages : Path.parse "spec.images.0" =
      .ok ⟨"spec.images.0", [.field "spec", .field "images", .field "0"]⟩ := rfl
  have hother : ∀ r ∈ [rule], ∀ targets ∈ r.targets, ∀ t ∈ targets,
      ∀ path ∈ t.withDefaultPaths.fieldPaths, ∀ p, Path.parse path = .ok p →
        p.segments ∉ naming := by
    intro r hr targets htargets t ht path hpath p hp
    obtain rfl : r = rule := by simpa using hr
    obtain rfl := Option.mem_some_iff.mp htargets
    obtain rfl := List.mem_singleton.mp ht
    obtain rfl : path = "spec.images.0" := by simpa [Target.withDefaultPaths] using hpath
    obtain rfl := Except.ok.inj (himages.symm.trans hp)
    decide
  obtain ⟨hwrite, hpass⟩ := of_writeAll
  refine ⟨⟨?_, ((hwrite path _ hname).1 (by decide) _ d).1⟩, by decide, (hpass _ hother docs).1⟩
  simp only [step, path, Draft.writeAll_singleton, Draft.write, hname]
  rfl

end Identity
end Graft
