import Graft.Proofs.Rule.Copy

/-!
# Graft.Proofs.Rule.Order

Where no target has a delimiter, the order of the documents does not matter
(`Rule.applyAll_arrange`).

The same rules are applied to the documents and to the documents in another order,
and the two passes are followed side by side. Their states correspond: the documents
are in this other order, and the values and the counts are equal. The source is
chosen by identities alone (`Pattern.select_perm`), and a target that copies
succeeds if every document takes the value and treats each by itself, so each step
ends alike on both sides.
-/

namespace Graft

/-! ### Another order -/

/-- The elements at the positions of a list, in the order of this list. -/
def arrange {α : Type} (order : List Nat) (xs : List α) : List α := order.filterMap (xs[·]?)

theorem map_arrange {α β : Type} (g : α → β) (order : List Nat) (xs : List α) :
    (arrange order xs).map g = arrange order (xs.map g) := by
  simp only [arrange, List.map_filterMap, List.getElem?_map]

/-- All positions in their own order. -/
theorem arrange_range {α : Type} (xs : List α) : arrange (List.range xs.length) xs = xs := by
  induction xs with
  | nil => rfl
  | cons a r ih =>
      simp only [arrange] at ih
      simp only [arrange, List.length_cons, List.range_succ_eq_map, List.filterMap_cons,
        List.filterMap_map, List.getElem?_cons_zero]
      exact congrArg (a :: ·) ih

/-- Documents in another order: `docs'` are `docs` at the positions of `order`, each
of which is named once. -/
structure Arranged {α : Type} (order : List Nat) (docs' docs : List α) : Prop where
  /-- Every position is named once. -/
  positions : order.Perm (List.range docs.length)
  /-- What stands at them. -/
  eq : docs' = arrange order docs

namespace Arranged

variable {α β : Type} {order : List Nat} {docs docs' : List α}

theorem perm (h : Arranged order docs' docs) : docs'.Perm docs := by
  have hfilter := h.positions.filterMap (docs[·]?)
  rw [h.eq]
  exact hfilter.trans (.of_eq (arrange_range docs))

theorem map (h : Arranged order docs' docs) (g : α → β) :
    Arranged order (docs'.map g) (docs.map g) where
  positions := by rw [List.length_map]; exact h.positions
  eq := by rw [h.eq, map_arrange]

end Arranged

/-! ### Two passes side by side -/

theorem Source.resolve_perm {docs docs' : List Node} (h : docs'.Perm docs) (source : Source) :
    source.resolve docs' = source.resolve docs := by
  simp only [resolve, Pattern.select_perm h]

/-- Writings that correspond: the documents are in another order. -/
structure Writing.Arranged (order : List Nat) (v w : Writing) : Prop where
  /-- The documents. -/
  docs : Graft.Arranged order v.docs w.docs
  /-- The value is the same. -/
  value : v.value = w.value
  /-- The count is the same. -/
  written : v.written = w.written

/-- States of a pass that correspond. -/
structure PassState.Arranged (order : List Nat) (s u : PassState) : Prop where
  /-- The documents. -/
  docs : Graft.Arranged order s.docs u.docs
  /-- The counts are the same. -/
  tally : s.tally = u.tally

/-- A target that copies ends alike in both orders. -/
theorem Target.write_agree {t : Target} (ht : t.Copies) {order : List Nat} {v w : Writing}
    (h : Writing.Arranged order v w) :
    Step.Agree (Writing.Arranged order) (write v t) (write w t) := by
  cases hselect : t.select with
  | none =>
      rw [write_of_select_none hselect, write_of_select_none hselect]
      exact .of_failure (Option.some_ne_none _) (Option.some_ne_none _)
  | some select =>
      -- both runs ask the same of the same documents, only in another order
      have hiff : (write v t).failure = none ↔ (write w t).failure = none := by
        rw [write_failure_iff ht hselect, write_failure_iff ht hselect, h.value]
        exact ⟨fun hok doc hdoc => hok doc (h.docs.perm.mem_iff.mpr hdoc),
          fun hok doc hdoc => hok doc (h.docs.perm.mem_iff.mp hdoc)⟩
      by_cases hok : (write v t).failure = none
      · have hv := write_of_copies ht hselect ((write_failure_iff ht hselect v).mp hok)
        have hw := write_of_copies ht hselect ((write_failure_iff ht hselect w).mp (hiff.mp hok))
        have hsum : (v.docs.map fun doc => (t.copyTo select w.value doc).state).sum =
            (w.docs.map fun doc => (t.copyTo select w.value doc).state).sum :=
          (h.docs.perm.map _).sum_nat
        rw [hv, hw, h.value, h.written, hsum]
        exact ⟨Iff.rfl, fun _ => rfl, fun _ => ⟨h.docs.map _, rfl, rfl⟩⟩
      · exact .of_failure hok fun hw => hok (hiff.mpr hw)

namespace Rule

/-- A rule none of whose targets has a delimiter. -/
def Copies (r : Rule) : Prop := ∀ targets ∈ r.targets, ∀ t ∈ targets, t.Copies

instance (r : Rule) : Decidable r.Copies :=
  inferInstanceAs (Decidable (∀ targets ∈ r.targets, ∀ t ∈ targets, t.Copies))

/-- A rule that copies ends alike in both orders. -/
theorem apply_agree {r : Rule} (hr : r.Copies) {order : List Nat} {s u : PassState}
    (h : PassState.Arranged order s u) :
    Step.Agree (PassState.Arranged order) (apply s r) (apply u r) := by
  rcases apply_cases s r with ⟨hs, hnone⟩ | ⟨source, targets, rfl, e, hvalue, hs⟩ |
    ⟨source, targets, rfl, value, hvalue, hs⟩
  · rw [hs, apply_of_incomplete hnone]
    exact .of_failure (Option.some_ne_none _) (Option.some_ne_none _)
  -- the source is the same in both orders, and so is its value
  all_goals rw [Source.resolve_perm h.docs.perm] at hvalue
  · rw [hs, apply_of_error hvalue]
    exact .of_failure (Option.some_ne_none _) (Option.some_ne_none _)
  · have hstart : Writing.Arranged order ⟨s.docs, value, s.tally.fields⟩
        ⟨u.docs, value, u.tally.fields⟩ := ⟨h.docs, rfl, by rw [h.tally]⟩
    have hwrite : Sweep.Agree (Writing.Arranged order)
        (Target.writeAll targets ⟨s.docs, value, s.tally.fields⟩)
        (Target.writeAll targets ⟨u.docs, value, u.tally.fields⟩) :=
      Sweep.run_agree (fun t ht _ _ => Target.write_agree (hr targets rfl t ht)) hstart
    rw [hs, apply_of_value hvalue]
    by_cases hok : (Target.writeAll targets ⟨s.docs, value, s.tally.fields⟩).failure = none
    · have hstate := hwrite.state hok
      simp only [hok, hwrite.failure.mp hok, hwrite.items hok]
      refine ⟨Iff.rfl, fun _ => rfl, fun _ => ⟨hstate.docs, ?_⟩⟩
      simp only [PassState.settle, PassState.succeed, PassState.afterWriting, hstate.written]
      rw [h.tally]
    · exact .of_failure hok fun hu => hok (hwrite.failure.mpr hu)

/-- **The order of the documents does not matter.** Where no target has a delimiter,
a pass over the documents in another order succeeds if and only if the pass over
them as they are does; and then it leaves the same documents in this other order,
the same rules and the same counts. -/
theorem applyAll_arrange {rules : List Rule} (hrules : ∀ r ∈ rules, r.Copies) {docs : List Node}
    {order : List Nat} (horder : order.Perm (List.range docs.length)) :
    let there := applyAll rules (arrange order docs)
    let here := applyAll rules docs
    (there.failure = none ↔ here.failure = none) ∧
      (here.failure = none →
        there.state.docs = arrange order here.state.docs ∧ there.items = here.items ∧
          there.state.tally = here.state.tally) := by
  have hstart : PassState.Arranged order { docs := arrange order docs } { docs := docs } :=
    ⟨⟨horder, rfl⟩, rfl⟩
  have hpass : Sweep.Agree (PassState.Arranged order) (applyAll rules (arrange order docs))
      (applyAll rules docs) :=
    Sweep.run_agree (fun r hr _ _ => apply_agree (hrules r hr)) hstart
  refine ⟨hpass.failure, fun hhere => ?_⟩
  have hthere := hpass.failure.mpr hhere
  have hstate := hpass.state hthere
  exact ⟨hstate.docs.eq, hpass.items hthere, hstate.tally⟩

/-- Two deployments and the config map behind them get the image as they do in the
order in which the config map comes first. -/
theorem applyAll_arrange_deployments :
    let rules : List Rule :=
      [{ source := some Sample.image
         targets := some [{ select := some (.ofKind "Deployment"), fieldPaths := ["spec.images.0"]
                            options := some { create := true } }] }]
    let docs := [Sample.configMap, Sample.deployment [], Sample.deployment [.string "app:1"]]
    (applyAll rules (arrange [1, 2, 0] docs)).failure = none ∧
      (applyAll rules (arrange [1, 2, 0] docs)).state.docs =
        arrange [1, 2, 0] (applyAll rules docs).state.docs := by
  intro rules docs
  have hhere : (applyAll rules docs).failure = none := by decide
  have hrules : ∀ r ∈ rules, r.Copies := by decide
  have horder : [1, 2, 0].Perm (List.range docs.length) := by decide
  have h := applyAll_arrange hrules horder
  exact ⟨h.1.mpr hhere, (h.2 hhere).1⟩

end Rule
end Graft
