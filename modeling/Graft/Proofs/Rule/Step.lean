import Graft.Proofs.Rule.Source
import Graft.Proofs.Sweep
import Graft.Rule.Pass

/-!
# Graft.Proofs.Rule.Step

What one target and one rule do, case by case.

A target without a selection fails; without a value it only has its fields named; and
otherwise it goes through the documents. A rule without a source or without targets
fails, and so does one whose value is refused; otherwise it goes through its targets,
and counts as applied or as failed by how that ends (`PassState.settle`).

Hence where the documents of a state come from (`Target.docs_write`, `Rule.docs_apply`),
which is all that an invariant of documents asks of a step.

The count of fields is only carried along. Everything from a path to a rule does the
same from any count and adds its own to it (`Draft.write_ahead` to `Rule.apply_ahead`).
-/

namespace Graft

/-! ### Paths -/

namespace Draft

/-- Writing at one path, as a step of a walk through paths. -/
def step (options : Option FieldOptions) (d : Draft) (path : String) : Step String Draft Failure :=
  ⟨path, (d.write options path).1, (d.write options path).2⟩

/-- Writing at some paths is a walk through them. -/
theorem writeAll_eq_run (options : Option FieldOptions) (d : Draft) (paths : List String) :
    d.writeAll options paths =
      ((Sweep.run (step options) d paths).state, (Sweep.run (step options) d paths).failure) := by
  induction paths generalizing d with
  | nil => rfl
  | cons path r ih =>
      rw [writeAll, Sweep.run_cons]
      simp only [step]
      rcases d.write options path with ⟨d', _ | e⟩
      · exact ih d'
      · rfl

/-- Writing at one path is all there is to do at a list of one. -/
theorem writeAll_singleton (options : Option FieldOptions) (d : Draft) (path : String) :
    d.writeAll options [path] = d.write options path := by
  rw [writeAll_eq_run, Sweep.run_singleton]
  rfl

/-- What every write keeps, all of them keep, wherever they end. -/
theorem writeAll_invariant {options : Option FieldOptions} {P : Draft → Prop}
    {paths : List String} (hstep : ∀ path ∈ paths, ∀ d : Draft, P d → P (d.write options path).1)
    {d : Draft} (hd : P d) : P (d.writeAll options paths).1 := by
  rw [writeAll_eq_run]
  exact Sweep.run_state_invariant (f := step options) hstep hd

end Draft

/-! ### Targets -/

namespace Target

variable {t : Target} {w : Writing}

theorem write_of_select_none (h : t.select = none) : write w t = ⟨t, w, some .missingSelect⟩ := by
  simp only [write, h]

theorem write_of_value_none {select : Pattern} (h : t.select = some select) (hw : w.value = none) :
    write w t = ⟨t.withDefaultPaths, w, none⟩ := by
  simp only [write, h, hw]

theorem write_of_value {select : Pattern} (h : t.select = some select) {value : Node}
    (hw : w.value = some value) :
    let s := Sweep.run (t.withDefaultPaths.writeDocument select) ⟨value, w.written⟩ w.docs
    write w t =
      ⟨t.withDefaultPaths, ⟨s.items, some s.state.value, s.state.written⟩, s.failure⟩ := by
  simp only [write, h, hw]

/-- The documents after a target are what they were, or what the target made of them one
by one. -/
theorem docs_write (w : Writing) (t : Target) :
    (write w t).state.docs = w.docs ∨
      ∃ select, t.select = some select ∧ ∃ value, w.value = some value ∧
        (write w t).state.docs =
          (Sweep.run (t.withDefaultPaths.writeDocument select) ⟨value, w.written⟩ w.docs).items := by
  cases hselect : t.select with
  | none =>
      rw [write_of_select_none hselect]
      exact .inl rfl
  | some select =>
      cases hvalue : w.value with
      | none =>
          rw [write_of_value_none hselect hvalue]
          exact .inl rfl
      | some value =>
          rw [write_of_value hselect hvalue]
          exact .inr ⟨select, rfl, value, rfl, rfl⟩

end Target

/-! ### Rules -/

/-- The state after a rule, by why it failed if it did. -/
def PassState.settle (s : PassState) : Option Failure → PassState
  | none => s.succeed
  | some _ => s.fail

@[simp] theorem PassState.docs_settle (s : PassState) (failure : Option Failure) :
    (s.settle failure).docs = s.docs := by
  cases failure <;> rfl

namespace Rule

variable {s : PassState} {source : Source} {targets : List Target}

theorem apply_of_incomplete {r : Rule} (h : r.source = none ∨ r.targets = none) :
    apply s r = ⟨r, s.fail, some .incompleteRule⟩ := by
  obtain ⟨source, targets⟩ := r
  cases source with
  | none => rfl
  | some source =>
      cases targets with
      | none => rfl
      | some targets => simp at h

theorem apply_of_error {e : Failure} (h : (source.resolve s.docs).2 = .error e) :
    apply s ⟨some source, some targets⟩ =
      ⟨⟨some (source.resolve s.docs).1, some targets⟩, s.fail, some e⟩ := by
  simp only [apply]
  rcases hresolve : source.resolve s.docs with ⟨source', result⟩
  obtain rfl : result = .error e := by rw [hresolve] at h; exact h
  rfl

theorem apply_of_value {value : Option Node} (h : (source.resolve s.docs).2 = .ok value) :
    let w := Target.writeAll targets ⟨s.docs, value, s.tally.fields⟩
    apply s ⟨some source, some targets⟩ =
      ⟨⟨some source.withDefaultPath, some w.items⟩, (s.afterWriting w.state).settle w.failure,
        w.failure⟩ := by
  have hfirst := Source.resolve_fst h
  simp only [apply]
  rcases hresolve : source.resolve s.docs with ⟨source', result⟩
  rw [hresolve] at h hfirst
  obtain rfl : result = .ok value := h
  obtain rfl : source' = source.withDefaultPath := hfirst
  simp only
  cases (Target.writeAll targets ⟨s.docs, value, s.tally.fields⟩).failure with
  | none => rfl
  | some e => rfl

/-- The three ways a rule can go: it is incomplete, its value is refused, or its targets
are gone through. -/
theorem apply_cases (s : PassState) (r : Rule) :
    apply s r = ⟨r, s.fail, some .incompleteRule⟩ ∧ (r.source = none ∨ r.targets = none) ∨
      (∃ source targets, r = ⟨some source, some targets⟩ ∧
        ∃ e, (source.resolve s.docs).2 = .error e ∧
          apply s r = ⟨⟨some (source.resolve s.docs).1, some targets⟩, s.fail, some e⟩) ∨
      ∃ source targets, r = ⟨some source, some targets⟩ ∧
        ∃ value, (source.resolve s.docs).2 = .ok value ∧
          let w := Target.writeAll targets ⟨s.docs, value, s.tally.fields⟩
          apply s r =
            ⟨⟨some source.withDefaultPath, some w.items⟩,
              (s.afterWriting w.state).settle w.failure, w.failure⟩ := by
  obtain ⟨source, targets⟩ := r
  cases source with
  | none => exact .inl ⟨rfl, .inl rfl⟩
  | some source =>
      cases targets with
      | none => exact .inl ⟨rfl, .inr rfl⟩
      | some targets =>
          cases h : (source.resolve s.docs).2 with
          | error e => exact .inr (.inl ⟨source, targets, rfl, e, h, apply_of_error h⟩)
          | ok value => exact .inr (.inr ⟨source, targets, rfl, value, h, apply_of_value h⟩)

/-- The documents after a rule are what they were, or what its targets made of them. -/
theorem docs_apply (s : PassState) (r : Rule) :
    (apply s r).state.docs = s.docs ∨
      ∃ source targets, r = ⟨some source, some targets⟩ ∧
        ∃ value, (source.resolve s.docs).2 = .ok value ∧
          (apply s r).state.docs =
            (Target.writeAll targets ⟨s.docs, value, s.tally.fields⟩).state.docs := by
  rcases apply_cases s r with ⟨hstep, -⟩ | ⟨source, targets, rfl, e, -, hstep⟩ |
    ⟨source, targets, rfl, value, hvalue, hstep⟩
  · rw [hstep]
    exact .inl rfl
  · rw [hstep]
    exact .inl rfl
  · rw [hstep, PassState.docs_settle]
    exact .inr ⟨source, targets, rfl, value, hvalue, rfl⟩

end Rule

/-! ### Counts are carried along -/

/-- Writes the same from a larger count of fields. -/
def Draft.ahead (k : Nat) (d : Draft) : Draft := { d with written := k + d.written }

def Carrier.ahead (k : Nat) (c : Carrier) : Carrier := { c with written := k + c.written }

def Writing.ahead (k : Nat) (w : Writing) : Writing := { w with written := k + w.written }

instance : Add Tally where
  add t u := ⟨t.rules + u.rules, t.fields + u.fields, t.errors + u.errors⟩

def PassState.ahead (t : Tally) (s : PassState) : PassState := { s with tally := t + s.tally }

theorem Draft.write_ahead (options : Option FieldOptions) (k : Nat) (d : Draft) (path : String) :
    (d.ahead k).write options path =
      ((d.write options path).1.ahead k, (d.write options path).2) := by
  simp only [write, ahead]
  cases Path.parse path with
  | error e => rfl
  | ok p =>
      simp only
      rcases d.doc.visit (FieldOptions.leaf options d.value) (Node.receive options d.value) p with
        ⟨doc, _ | _ | _ | value⟩
      · rfl
      · rfl
      · rfl
      · simp only [Nat.add_assoc]

theorem Draft.writeAll_ahead (options : Option FieldOptions) (k : Nat) (d : Draft)
    (paths : List String) :
    (d.ahead k).writeAll options paths =
      ((d.writeAll options paths).1.ahead k, (d.writeAll options paths).2) := by
  have hstep : ∀ (d : Draft) (path : String), step options (d.ahead k) path =
      ⟨path, (step options d path).state.ahead k, (step options d path).failure⟩ := by
    intro d path
    simp only [step, write_ahead]
  rw [writeAll_eq_run, writeAll_eq_run, Sweep.run_map_state hstep]

namespace Target

theorem writeDocument_ahead (t : Target) (select : Pattern) (k : Nat) (c : Carrier) (doc : Node) :
    t.writeDocument select (c.ahead k) doc =
      ⟨(t.writeDocument select c doc).item, (t.writeDocument select c doc).state.ahead k,
        (t.writeDocument select c doc).failure⟩ := by
  unfold writeDocument
  split
  · have hdraft := Draft.writeAll_ahead t.options k ⟨doc, c.value, c.written⟩ t.fieldPaths
    simp only [Draft.ahead] at hdraft
    simp only [Carrier.ahead, hdraft]
  · rfl

theorem write_ahead (k : Nat) (w : Writing) (t : Target) :
    write (w.ahead k) t =
      ⟨(write w t).item, (write w t).state.ahead k, (write w t).failure⟩ := by
  cases hselect : t.select with
  | none => simp only [write_of_select_none hselect]
  | some select =>
      cases hvalue : w.value with
      | none =>
          have hvalue' : (w.ahead k).value = none := hvalue
          rw [write_of_value_none hselect hvalue, write_of_value_none hselect hvalue']
      | some value =>
          have hvalue' : (w.ahead k).value = some value := hvalue
          have hrun := Sweep.run_map_state
            (writeDocument_ahead t.withDefaultPaths select k) ⟨value, w.written⟩ w.docs
          rw [write_of_value hselect hvalue, write_of_value hselect hvalue']
          simp only [Writing.ahead, Carrier.ahead] at hrun ⊢
          rw [hrun]

theorem writeAll_ahead (k : Nat) (w : Writing) (targets : List Target) :
    writeAll targets (w.ahead k) =
      ⟨(writeAll targets w).items, (writeAll targets w).state.ahead k,
        (writeAll targets w).failure⟩ :=
  Sweep.run_map_state (write_ahead k) w targets

end Target

namespace Rule

/-- A rule does the same from any counts, and adds its own to them. -/
theorem apply_ahead (t : Tally) (s : PassState) (r : Rule) :
    apply (s.ahead t) r =
      ⟨(apply s r).item, (apply s r).state.ahead t, (apply s r).failure⟩ := by
  rcases apply_cases s r with ⟨hstep, hnone⟩ | ⟨source, targets, rfl, e, hvalue, hstep⟩ |
    ⟨source, targets, rfl, value, hvalue, hstep⟩
  · rw [hstep, apply_of_incomplete hnone]
    rfl
  · have hvalue' : (source.resolve (s.ahead t).docs).2 = .error e := hvalue
    rw [hstep, apply_of_error hvalue']
    rfl
  · have hvalue' : (source.resolve (s.ahead t).docs).2 = .ok value := hvalue
    have hwrite := Target.writeAll_ahead t.fields ⟨s.docs, value, s.tally.fields⟩ targets
    have hstart : (⟨(s.ahead t).docs, value, (s.ahead t).tally.fields⟩ : Writing) =
        Writing.ahead t.fields ⟨s.docs, value, s.tally.fields⟩ := rfl
    rw [hstep, apply_of_value hvalue', hstart, hwrite]
    simp only [Step.mk.injEq, true_and, and_true]
    cases (Target.writeAll targets ⟨s.docs, value, s.tally.fields⟩).failure with
    | none => rfl
    | some e => rfl

end Rule

end Graft
