import Graft.Proofs.Rule.Step

/-!
# Graft.Proofs.Rule.Frame

Documents that no target means are never touched (`Rule.applyAll_unselected`).

Targets are asked about the identity a document has at the moment, which earlier
targets may have changed. A document that every target skips keeps its identity
along with everything else, so it is skipped throughout: that it is still the same
document is the invariant, carried through documents, targets and rules, and it
holds wherever a failure ends the pass.
-/

namespace Graft

/-! ### Documents to look at -/

namespace Sample

/-- A document that names an image. -/
def configMap : Node :=
  .mapping
    [("kind", .string "ConfigMap"), ("metadata", .mapping [("name", .string "cfg")]),
      ("data", .mapping [("image", .string "app:2")])]

/-- A document that runs images. -/
def deployment (images : List Node) : Node :=
  .mapping
    [("kind", .string "Deployment"), ("metadata", .mapping [("name", .string "web")]),
      ("spec", .mapping [("images", .sequence images)])]

/-- The image that `configMap` names. -/
def image : Source := { pattern := .ofKind "ConfigMap", fieldPath := "data.image" }

end Sample

namespace Target

/-- A target that leaves a document out: what it selects is not this document, or
it rejects it. -/
def Skips (t : Target) (doc : Node) : Prop :=
  ∀ select ∈ t.select, t.accepts select (.of doc) = false

instance (t : Target) (doc : Node) : Decidable (t.Skips doc) :=
  inferInstanceAs (Decidable (∀ select ∈ t.select, t.accepts select (.of doc) = false))

/-! ### Naming the fields -/

@[simp] theorem options_withDefaultPaths (t : Target) :
    t.withDefaultPaths.options = t.options := by
  unfold withDefaultPaths
  split <;> rfl

@[simp] theorem accepts_withDefaultPaths (t : Target) : t.withDefaultPaths.accepts = t.accepts := by
  unfold withDefaultPaths
  split <;> rfl

theorem withDefaultPaths_of_ne {t : Target} (h : t.fieldPaths ≠ []) : t.withDefaultPaths = t := by
  simp [withDefaultPaths, h]

/-! ### A document that is skipped -/

theorem writeDocument_of_not_accepts {t : Target} {select : Pattern} {doc : Node}
    (h : t.accepts select (.of doc) = false) (c : Carrier) :
    t.writeDocument select c doc = ⟨doc, c, none⟩ := by
  simp [writeDocument, h]

variable {doc : Node} {j : Nat}

/-- A target keeps a document in place that it skips. -/
theorem getElem?_write {t : Target} (ht : t.Skips doc) {w : Writing}
    (hj : w.docs[j]? = some doc) : (write w t).state.docs[j]? = some doc := by
  rcases docs_write w t with hdocs | ⟨select, hselect, value, -, hdocs⟩
  · rwa [hdocs]
  · have hskip : t.withDefaultPaths.accepts select (.of doc) = false := by
      rw [accepts_withDefaultPaths]
      exact ht select hselect
    rw [hdocs]
    -- the document is passed over whatever value arrives at it
    refine Sweep.run_getElem?_of_fixed (fun c => ?_) hj _
    rw [writeDocument_of_not_accepts hskip]

theorem getElem?_writeAll {targets : List Target} (hts : ∀ t ∈ targets, t.Skips doc)
    {w : Writing} (hj : w.docs[j]? = some doc) :
    (writeAll targets w).state.docs[j]? = some doc :=
  Sweep.run_state_invariant (P := fun w : Writing => w.docs[j]? = some doc)
    (fun t ht _ hw => getElem?_write (hts t ht) hw) hj

end Target

namespace Rule

/-- A rule that leaves a document out with every target. -/
def Skips (r : Rule) (doc : Node) : Prop := ∀ targets ∈ r.targets, ∀ t ∈ targets, t.Skips doc

instance (r : Rule) (doc : Node) : Decidable (r.Skips doc) :=
  inferInstanceAs (Decidable (∀ targets ∈ r.targets, ∀ t ∈ targets, t.Skips doc))

variable {doc : Node} {j : Nat}

theorem getElem?_apply {r : Rule} (hr : r.Skips doc) {s : PassState}
    (hj : s.docs[j]? = some doc) : (apply s r).state.docs[j]? = some doc := by
  rcases docs_apply s r with hdocs | ⟨source, targets, rfl, value, -, hdocs⟩
  · rwa [hdocs]
  · rw [hdocs]
    exact Target.getElem?_writeAll (hr targets rfl) hj

/-- **Unselected documents are never touched.** A document that every target of
every rule leaves out, by the identity it has before the pass, is the same after the
pass, whether the pass succeeds or fails at any point, and whatever it does to the
other documents. -/
theorem applyAll_unselected {rules : List Rule} {docs : List Node} (hj : docs[j]? = some doc)
    (hrules : ∀ r ∈ rules, r.Skips doc) :
    (applyAll rules docs).state.docs[j]? = some doc :=
  Sweep.run_state_invariant (P := fun s : PassState => s.docs[j]? = some doc)
    (fun r hr _ hs => getElem?_apply (hrules r hr) hs) hj

/-- A pass that renames the deployment and then fails for want of a source leaves the
config map alone. -/
theorem applyAll_unselected_configMap :
    (applyAll
      [{ source := some { pattern := .ofKind "ConfigMap" }
         targets := some [{ select := some (.ofKind "Deployment")
                            options := some (.delimited "-" 1) }] },
        { source := some { pattern := .ofKind "Secret" }, targets := some [] }]
      [Sample.configMap, Sample.deployment []]).state.docs[0]? = some Sample.configMap :=
  applyAll_unselected rfl (by decide)

end Rule
end Graft
