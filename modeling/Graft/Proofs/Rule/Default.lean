import Graft.Proofs.Rule.Frame
import Graft.Proofs.Rule.Step

/-!
# Graft.Proofs.Rule.Default

Fields that a rule leaves to the default, and the rules that a pass leaves behind.

A pass names these fields in its rules where it uses them: in a source once its
document is found, and in a target that says what it selects, even if nothing is
written. A pass that fails leaves some of them unnamed. What the engine does is the
same with every such mix, because each of its steps is blind to the difference
(`Sweep.Fills`): a target by itself, hence the targets of a rule, hence a rule with
its source, hence the pass.
-/

namespace Graft

/-! ### Sources -/

theorem Source.resolve_withDefaultPath (source : Source) (docs : List Node) :
    source.withDefaultPath.resolve docs = (source.withDefaultPath, (source.resolve docs).2) := by
  simp only [resolve, pattern_withDefaultPath, withDefaultPath_withDefaultPath]
  cases source.pattern.select docs with
  | error e => rfl
  | ok doc => rfl

theorem Source.withDefaultPath_resolve (source : Source) (docs : List Node) :
    (source.resolve docs).1.withDefaultPath = source.withDefaultPath := by
  unfold resolve
  cases source.pattern.select docs with
  | error e => rfl
  | ok doc => exact withDefaultPath_withDefaultPath source

/-! ### Targets -/

namespace Target

@[simp] theorem select_withDefaultPaths (t : Target) : t.withDefaultPaths.select = t.select := by
  unfold withDefaultPaths
  split <;> rfl

@[simp] theorem withDefaultPaths_withDefaultPaths (t : Target) :
    t.withDefaultPaths.withDefaultPaths = t.withDefaultPaths := by
  refine withDefaultPaths_of_ne ?_
  by_cases h : t.fieldPaths = []
  · simp [withDefaultPaths, h]
  · simp [withDefaultPaths, h]

theorem fills_write (w : Writing) (t : Target) :
    Step.Fills withDefaultPaths t (write w t) (write w t.withDefaultPaths) := by
  have hidem := withDefaultPaths_withDefaultPaths t
  cases hselect : t.select with
  | none =>
      have hselect' : t.withDefaultPaths.select = none := by rw [select_withDefaultPaths, hselect]
      rw [write_of_select_none hselect, write_of_select_none hselect']
      exact ⟨rfl, rfl, rfl, rfl, nofun⟩
  | some select =>
      have hselect' : t.withDefaultPaths.select = some select := by
        rw [select_withDefaultPaths, hselect]
      cases hvalue : w.value with
      | none =>
          rw [write_of_value_none hselect hvalue, write_of_value_none hselect' hvalue, hidem]
          exact ⟨rfl, rfl, hidem, rfl, fun _ => rfl⟩
      | some value =>
          rw [write_of_value hselect hvalue, write_of_value hselect' hvalue, hidem]
          exact ⟨rfl, rfl, hidem, rfl, fun _ => rfl⟩

end Target

/-! ### Rules -/

namespace Rule

/-- The rule with the fields named that it leaves to the default. -/
def withDefaults (r : Rule) : Rule where
  source := r.source.map Source.withDefaultPath
  targets := r.targets.map (·.map Target.withDefaultPaths)

theorem fills_apply (s : PassState) (r : Rule) :
    Step.Fills withDefaults r (apply s r) (apply s r.withDefaults) := by
  rcases apply_cases s r with ⟨hstep, hnone⟩ | ⟨source, targets, rfl, e, hvalue, hstep⟩ |
    ⟨source, targets, rfl, value, hvalue, hstep⟩
  · have hnone' : r.withDefaults.source = none ∨ r.withDefaults.targets = none := by
      simpa [withDefaults] using hnone
    rw [hstep, apply_of_incomplete hnone']
    exact ⟨rfl, rfl, rfl, rfl, nofun⟩
  all_goals
    have hfull : withDefaults ⟨some source, some targets⟩ =
        ⟨some source.withDefaultPath, some (targets.map Target.withDefaultPaths)⟩ := rfl
    have hresolve := source.resolve_withDefaultPath s.docs
  · have hvalue' : (source.withDefaultPath.resolve s.docs).2 = .error e := by rw [hresolve, hvalue]
    rw [hstep, hfull, apply_of_error hvalue', hresolve]
    refine ⟨rfl, rfl, ?_, rfl, nofun⟩
    simp [withDefaults, source.withDefaultPath_resolve]
  · have hvalue' : (source.withDefaultPath.resolve s.docs).2 = .ok value := by rw [hresolve, hvalue]
    have hrun := Sweep.run_map_of_fills Target.fills_write ⟨s.docs, value, s.tally.fields⟩ targets
    have hleft := Sweep.map_items_run Target.fills_write ⟨s.docs, value, s.tally.fields⟩ targets
    rw [hstep, hfull, apply_of_value hvalue']
    refine ⟨?_, hrun.2, ?_, ?_, ?_⟩
    · simp only [Target.writeAll, hrun]
    · simp [withDefaults, Target.writeAll, hleft]
    · simp only [hfull, Source.withDefaultPath_withDefaultPath, Target.writeAll,
        Sweep.items_run_map Target.fills_write]
    · intro hok
      simp only [hfull, Target.writeAll, Sweep.items_run_of_ok Target.fills_write hok]

/-- **The fields that a pass has named do not matter to the next.** Rules as a pass
over some documents left them, be it that it failed half-way, do to any documents what
the rules did as they were before: the same documents, the same counts, and the same
failure if there is one. If the pass succeeded, they stay as they are from then on. -/
theorem applyAll_items (rules : List Rule) (docs : List Node) :
    let left := (applyAll rules docs).items
    (∀ docs', (applyAll left docs').state = (applyAll rules docs').state ∧
        (applyAll left docs').failure = (applyAll rules docs').failure) ∧
      ((applyAll rules docs).failure = none →
        ∀ docs', (applyAll left docs').items = left) := by
  intro left
  have hfull : left.map withDefaults = rules.map withDefaults :=
    Sweep.map_items_run fills_apply { docs := docs } rules
  constructor
  · intro docs'
    have hleft := Sweep.run_map_of_fills fills_apply { docs := docs' } left
    have hrules := Sweep.run_map_of_fills fills_apply { docs := docs' } rules
    rw [hfull] at hleft
    exact ⟨hleft.1.symm.trans hrules.1, hleft.2.symm.trans hrules.2⟩
  · intro hok docs'
    have hleft : left = rules.map withDefaults := Sweep.items_run_of_ok fills_apply hok
    rw [hleft]
    exact Sweep.items_run_map fills_apply { docs := docs' } rules

/-- Two rules leave a field to the default, one in a target and one in its source. A pass
names both. Without documents the rules then fail as they would have before, and stay as
they are. -/
theorem applyAll_items_named :
    let rules : List Rule :=
      [{ source := some { pattern := .ofKind "ConfigMap", fieldPath := "data.image" }
         targets := some [{ select := some (.ofKind "Deployment") }] },
        { source := some { pattern := .ofKind "Deployment" }
          targets := some [{ select := some (.ofKind "ConfigMap"), fieldPaths := ["data.owner"] }] }]
    let docs := [Sample.configMap, Sample.deployment []]
    let left := (applyAll rules docs).items
    (applyAll rules docs).failure = none ∧ left ≠ rules ∧
      (applyAll left []).failure = some (.noSource (.ofKind "ConfigMap")) ∧
      (applyAll left []).items = left := by
  intro rules docs left
  have hok : (applyAll rules docs).failure = none := by decide
  have hleft := applyAll_items rules docs
  refine ⟨hok, by decide, ?_, hleft.2 hok []⟩
  rw [(hleft.1 []).2]
  decide

end Rule
end Graft
