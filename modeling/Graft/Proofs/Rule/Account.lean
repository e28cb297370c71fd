import Graft.Proofs.Rule.Frame
import Graft.Proofs.Rule.Step

/-!
# Graft.Proofs.Rule.Account

A pass in parts, and what it counts.

The counts are only carried along: a rule does the same from any counts, and adds its
own to them (`Rule.apply_ahead`). So a pass through two lists of rules is a pass
through the first and, on the documents it leaves, a pass through the second by itself;
nothing but the documents goes from one rule to the next. A rule counts as one applied
or as one failed (`Rule.apply_tally`), and the rule that fails is the last to do
anything.
-/

namespace Graft

namespace Rule

/-! ### Applied and failed -/

/-- A rule counts as one applied or as one failed. -/
theorem apply_tally (s : PassState) (r : Rule) :
    (apply s r).state.tally.rules =
        s.tally.rules + (if (apply s r).failure = none then 1 else 0) ∧
      (apply s r).state.tally.errors =
        s.tally.errors + (if (apply s r).failure = none then 0 else 1) := by
  rcases apply_cases s r with ⟨hstep, -⟩ | ⟨source, targets, rfl, e, -, hstep⟩ |
    ⟨source, targets, rfl, value, -, hstep⟩
  · rw [hstep]
    exact ⟨rfl, rfl⟩
  · rw [hstep]
    exact ⟨rfl, rfl⟩
  · rw [hstep]
    cases (Target.writeAll targets ⟨s.docs, value, s.tally.fields⟩).failure with
    | none => exact ⟨rfl, rfl⟩
    | some e => exact ⟨rfl, rfl⟩

theorem tally_of_ok {rules : List Rule} {s : PassState}
    (hok : (Sweep.run apply s rules).failure = none) :
    (Sweep.run apply s rules).state.tally.rules = s.tally.rules + rules.length ∧
      (Sweep.run apply s rules).state.tally.errors = s.tally.errors := by
  induction rules generalizing s with
  | nil => exact ⟨rfl, rfl⟩
  | cons r rest ih =>
      obtain ⟨hrules, herrors⟩ := apply_tally s r
      rw [Sweep.run_cons] at hok ⊢
      cases hstep : (apply s r).failure with
      | some e => simp [hstep] at hok
      | none =>
          have hrest : (Sweep.run apply (apply s r).state rest).failure = none := by
            simpa [hstep] using hok
          obtain ⟨hrules', herrors'⟩ := ih hrest
          simp only [hstep, if_true] at hrules herrors
          simp only [Sweep.behind_state, hrules', herrors', hrules, herrors, List.length_cons]
          omega

/-! ### A pass in parts -/

/-- A pass through the rules from other counts: the same, with the counts added. -/
theorem run_ahead (t : Tally) (s : PassState) (rules : List Rule) :
    Sweep.run apply (s.ahead t) rules =
      ⟨(Sweep.run apply s rules).items, (Sweep.run apply s rules).state.ahead t,
        (Sweep.run apply s rules).failure⟩ :=
  Sweep.run_map_state (apply_ahead t) s rules

/-- A pass that fails does so at the rule with position `k`. -/
structure FailsAt (rules : List Rule) (docs : List Node) (k : Nat) (e : Failure) : Prop where
  /-- The rules before it succeed. -/
  before : (applyAll (rules.take k) docs).failure = none
  /-- It fails on what they leave. -/
  step : ∃ r, rules[k]? = some r ∧
    (apply (applyAll (rules.take k) docs).state r).failure = some e
  /-- The rules before it count as applied. -/
  applied : (applyAll rules docs).state.tally.rules = k
  /-- It counts as the one that failed. -/
  failed : (applyAll rules docs).state.tally.errors = 1
  /-- The rules behind it are as they were. -/
  rest : (applyAll rules docs).items.drop (k + 1) = rules.drop (k + 1)
  /-- The documents do not depend on these rules. -/
  docs : ∀ others : List Rule, others.take (k + 1) = rules.take (k + 1) →
    (applyAll others docs).state.docs = (applyAll rules docs).state.docs

theorem failsAt_of_failure {rules : List Rule} {docs : List Node} {e : Failure}
    (h : (applyAll rules docs).failure = some e) : ∃ k, FailsAt rules docs k e := by
  obtain ⟨k, r, hr, hok, hstep⟩ := Sweep.exists_of_failure h
  obtain ⟨-, hstate, -, hrest⟩ := Sweep.run_of_failure hr hok hstep
  obtain ⟨hrules, herrors⟩ := tally_of_ok hok
  obtain ⟨happlied, hfailed⟩ := apply_tally (applyAll (rules.take k) docs).state r
  have hk : k < rules.length := (List.getElem?_eq_some_iff.mp hr).1
  refine ⟨k, hok, ⟨r, hr, hstep⟩, ?_, ?_, hrest, ?_⟩
  · rw [applyAll, hstate]
    simp only [applyAll, hstep] at happlied
    simp [happlied, hrules, Nat.min_eq_left (Nat.le_of_lt hk)]
  · rw [applyAll, hstate]
    simp only [applyAll, hstep] at hfailed
    simp [hfailed, herrors]
  · intro others hothers
    -- the other rules are the same up to this one, so they meet the same documents
    have htake : others.take k = rules.take k := by
      simpa [List.take_take] using congrArg (List.take k) hothers
    have hr' : others[k]? = some r := by
      rw [← hr, ← List.getElem?_take_of_lt (Nat.lt_succ_self k), hothers,
        List.getElem?_take_of_lt (Nat.lt_succ_self k)]
    rw [← htake] at hok hstep
    obtain ⟨-, hstate', -, -⟩ := Sweep.run_of_failure hr' hok hstep
    rw [applyAll, applyAll, hstate', hstate, htake]

/-- **A pass through two lists of rules** ends with the first if this fails, the rules of
the second as they were. Otherwise it is the pass through the first and, on the documents
that this leaves, the pass through the second by itself, and it counts what the two count.

A pass that succeeds counts all its rules as applied and none as failed. One that fails
does so at some rule, counts the rules before it as applied and this one as failed, leaves
the rules behind it as they were and does not depend on them. -/
theorem applyAll_parts (docs : List Node) :
    (∀ front back : List Rule,
      let first := applyAll front docs
      let both := applyAll (front ++ back) docs
      (∀ e, first.failure = some e → both = ⟨first.items ++ back, first.state, some e⟩) ∧
        (first.failure = none →
          let second := applyAll back first.state.docs
          both =
            ⟨first.items ++ second.items,
              ⟨second.state.docs, first.state.tally + second.state.tally⟩, second.failure⟩)) ∧
      ∀ rules : List Rule,
        let pass := applyAll rules docs
        (pass.failure = none →
          pass.state.tally.rules = rules.length ∧ pass.state.tally.errors = 0) ∧
          ∀ e, pass.failure = some e → ∃ k, FailsAt rules docs k e := by
  refine ⟨fun front back => ⟨?_, ?_⟩, fun rules => ⟨?_, fun e => failsAt_of_failure⟩⟩
  · intro e hfail
    rw [applyAll, Sweep.run_append]
    simp only [applyAll] at hfail
    rw [hfail]
    rfl
  · intro hok second
    have hback := run_ahead (applyAll front docs).state.tally
      { docs := (applyAll front docs).state.docs } back
    have hstart : PassState.ahead (applyAll front docs).state.tally
        { docs := (applyAll front docs).state.docs } = (applyAll front docs).state := rfl
    rw [hstart] at hback
    rw [applyAll, Sweep.run_append]
    simp only [applyAll] at hok hback
    rw [hok]
    simp only [hback, Sweep.behind]
    rfl
  · intro hok
    simpa [applyAll] using tally_of_ok hok

/-- A rule that copies the image and one without a source, in both orders. Behind the
first, the second fails and leaves the image; in front of it, the image is not copied. -/
theorem applyAll_parts_image :
    let copy : Rule :=
      { source := some Sample.image
        targets := some [{ select := some (.ofKind "Deployment"), fieldPaths := ["spec.images.0"]
                           options := some { create := true } }] }
    let missing : Rule := { source := some { pattern := .ofKind "Secret" }, targets := some [] }
    let docs := [Sample.configMap, Sample.deployment []]
    let pass := applyAll ([copy] ++ [missing]) docs
    (applyAll [copy] docs).state.tally.rules = 1 ∧
      pass.state.docs = (applyAll [copy] docs).state.docs ∧
      pass.failure = some (.noSource (.ofKind "Secret")) ∧
      (∃ k, FailsAt ([copy] ++ [missing]) docs k (.noSource (.ofKind "Secret"))) ∧
      applyAll ([missing] ++ [copy]) docs =
        ⟨[missing, copy], ⟨docs, { errors := 1 }⟩, some (.noSource (.ofKind "Secret"))⟩ := by
  intro copy missing docs pass
  obtain ⟨hparts, hpass⟩ := applyAll_parts docs
  have hcopy : (applyAll [copy] docs).failure = none := by decide
  have hmissing : (applyAll [missing] docs).failure = some (.noSource (.ofKind "Secret")) := by
    decide
  have hboth := (hparts [copy] [missing]).2 hcopy
  have hfail : pass.failure = some (.noSource (.ofKind "Secret")) := by
    simp only [pass, hboth]
    decide
  refine ⟨((hpass [copy]).1 hcopy).1, ?_, hfail, (hpass _).2 _ hfail, ?_⟩
  · simp only [pass, hboth]
    rfl
  · rw [(hparts [missing] [copy]).1 _ hmissing]
    rfl

end Rule
end Graft
