import Graft.Proofs.Node.Tree
import Graft.Proofs.Rule.Frame
import Graft.Proofs.Rule.Splice

/-!
# Graft.Proofs.Rule.Trace

The nodes that a rule writes over, and what its documents keep because of them.

A rule goes through its targets, a target through the documents and, in those that it
accepts, through its paths. Each of these walks comes to an item in some state
(`Sweep.Meets`), and at the end of a path there is the node that stands there at that
moment, created on the way if need be. `Rule.WritesOver` says which node that is and which
value is on its way to it. There the value is written (`Draft.write_of_writesOver`), and
it changes nowhere else (`Draft.value_write`).

So a hereditary property of the documents survives a rule if the value in the source has
it, and every value that is composed at such a node (`Rule.apply_keeps`). Apart from these
values a walk creates empty nodes and strings alone.
-/

namespace Graft

theorem Visit.map_eq_reached {α β : Type} {g : α → β} {v : Visit α} {b : β}
    (h : v.map g = .reached b) : ∃ a, v = .reached a ∧ g a = b := by
  cases v with
  | reached a => exact ⟨a, rfl, Visit.reached.inj h⟩
  | absent => cases h
  | stopped o => cases h

/-! ### Nodes that are written over -/

/-- Writing at a path comes to a node: the walk along the path finds it, or creates it. -/
def Draft.WritesOver (options : Option FieldOptions) (d : Draft) (path : String)
    (target : Node) : Prop :=
  ∃ p, Path.parse path = .ok p ∧
    (d.doc.visit (FieldOptions.leaf options d.value) Node.get p).2 = .ok (some target)

/-- A target comes to a node with a value: along one of its paths, in a document that it
accepts. Value and documents are as the nodes before have left them. -/
inductive Target.WritesOver (w : Writing) (t : Target) : Node → Node → Prop where
  | intro {select : Pattern} {start : Node} {c : Carrier} {doc : Node} {d : Draft}
      {path : String} {target : Node} (hselect : t.select = some select)
      (hstart : w.value = some start)
      (hdoc : Sweep.Meets (t.withDefaultPaths.writeDocument select) ⟨start, w.written⟩ w.docs
        c doc)
      (haccepts : t.accepts select (.of doc) = true)
      (hpath : Sweep.Meets (Draft.step t.options) ⟨doc, c.value, c.written⟩
        t.withDefaultPaths.fieldPaths d path)
      (hover : d.WritesOver t.options path target) : WritesOver w t d.value target

/-- A rule comes to a node with a value, at one of its targets. -/
inductive Rule.WritesOver (s : PassState) (r : Rule) : Target → Node → Node → Prop where
  | intro {source : Source} {targets : List Target} {start : Option Node} {w : Writing}
      {t : Target} {value target : Node} (hr : r = ⟨some source, some targets⟩)
      (hstart : (source.resolve s.docs).2 = .ok start)
      (ht : Sweep.Meets Target.write ⟨s.docs, start, s.tally.fields⟩ targets w t)
      (hover : t.WritesOver w value target) : WritesOver s r t value target

/-! ### One path -/

namespace Draft

/-- Writing at a path is a walk along it, if it is well-formed. -/
theorem doc_write (options : Option FieldOptions) (d : Draft) (path : String) :
    (d.write options path).1.doc =
      match Path.parse path with
      | .error _ => d.doc
      | .ok p =>
        (Node.visitFrom (FieldOptions.leaf options d.value) (Node.receive options d.value)
          p.segments d.doc).1 := by
  unfold write
  cases Path.parse path with
  | error e => rfl
  | ok p =>
      simp only [Node.visit]
      cases (Node.visitFrom (FieldOptions.leaf options d.value) (Node.receive options d.value)
          p.segments d.doc).2 with
      | absent => rfl
      | stopped o => rfl
      | reached a => cases a <;> rfl

/-- After writing at a path, the value is what it was, or what was composed for the node
there. -/
theorem value_write (options : Option FieldOptions) (d : Draft) (path : String) :
    (d.write options path).1.value = d.value ∨
      ∃ target, d.WritesOver options path target ∧
        Node.compose options d.value target = .ok (d.write options path).1.value := by
  unfold write
  cases hp : Path.parse path with
  | error e => exact .inl rfl
  | ok p =>
      have houtcome := Node.visitFrom_outcome (FieldOptions.leaf options d.value)
        (Node.receive options d.value) p.segments d.doc
      simp only [Node.visit]
      cases hvisit : (Node.visitFrom (FieldOptions.leaf options d.value)
          (Node.receive options d.value) p.segments d.doc).2 with
      | absent => exact .inl rfl
      | stopped o => exact .inl rfl
      | reached a =>
          rw [hvisit] at houtcome
          cases a with
          | error e => exact .inl rfl
          | ok v =>
              -- the walk ended at some target, and answered with what was composed there
              obtain ⟨target, hreached, hv⟩ := Visit.map_eq_reached houtcome.symm
              exact .inr ⟨target, ⟨p, hp, Node.visit_eq_some_iff.mpr hreached⟩,
                (Node.snd_receive _ _ _).symm.trans hv⟩

/-- What is composed for the node is written, and is the value from then on. -/
theorem write_of_writesOver {options : Option FieldOptions} {d : Draft} {path : String}
    {target v : Node} (hover : d.WritesOver options path target)
    (hv : Node.compose options d.value target = .ok v) :
    (d.write options path).2 = none ∧ (d.write options path).1.value = v ∧
      (d.write options path).1.written = d.written + 1 := by
  obtain ⟨p, hp, htarget⟩ := hover
  have houtcome : (d.doc.visit (FieldOptions.leaf options d.value)
      (Node.receive options d.value) p).2 = .ok (some (.ok v)) := by
    rw [Node.visit_eq_some_iff] at htarget ⊢
    rw [Node.visitFrom_outcome, htarget, Visit.map, Node.snd_receive, hv]
  rcases hvisit : d.doc.visit (FieldOptions.leaf options d.value)
    (Node.receive options d.value) p with ⟨doc, outcome⟩
  rw [hvisit] at houtcome
  obtain rfl : outcome = .ok (some (.ok v)) := houtcome
  have hwrite : d.write options path = (⟨doc, v, d.written + 1⟩, none) := by
    simp only [write, hp, hvisit]
  rw [hwrite]
  exact ⟨rfl, rfl, rfl⟩

end Draft

/-! ### Hereditary properties -/

section Keeps

variable {P : Node → Prop}

/-- A target becomes the composed value or stays. -/
theorem Node.receive_keeps {options : Option FieldOptions} {value target : Node}
    (hcomposed : ∀ v, Node.compose options value target = .ok v → P v) (htarget : P target) :
    P (Node.receive options value target).1 := by
  cases hcompose : Node.compose options value target with
  | error e =>
      rw [Node.receive_of_error hcompose]
      exact htarget
  | ok v =>
      rw [Node.receive_of_ok hcompose]
      exact hcomposed v hcompose

variable (hP : Node.Hereditary P)
include hP

namespace Draft

variable {options : Option FieldOptions} {d : Draft}

theorem write_keeps {path : String}
    (hcomposed : ∀ target v, d.WritesOver options path target →
      Node.compose options d.value target = .ok v → P v)
    (hdoc : P d.doc) (hvalue : P d.value) :
    P (d.write options path).1.doc ∧ P (d.write options path).1.value := by
  constructor
  · rw [doc_write]
    cases hp : Path.parse path with
    | error e => exact hdoc
    | ok p =>
        -- what the walk creates has the property anyway, so only its end is looked at
        refine hP.visitFrom (fun target htarget => Node.receive_keeps fun v hv => ?_) hdoc
        exact hcomposed target v ⟨p, hp, Node.visit_eq_some_iff.mpr htarget⟩ hv
  · rcases value_write options d path with hsame | ⟨target, hover, hcompose⟩
    · rwa [hsame]
    · exact hcomposed target _ hover hcompose

theorem writeAll_keeps {paths : List String}
    (hcomposed : ∀ e path target v, Sweep.Meets (step options) d paths e path →
      e.WritesOver options path target → P e.value →
        Node.compose options e.value target = .ok v → P v)
    (hdoc : P d.doc) (hvalue : P d.value) :
    P (d.writeAll options paths).1.doc ∧ P (d.writeAll options paths).1.value := by
  rw [writeAll_eq_run]
  refine Sweep.run_state_invariant_of_meets (P := fun e : Draft => P e.doc ∧ P e.value) ?_
    ⟨hdoc, hvalue⟩
  intro e path hmeets ⟨hdoc, hvalue⟩
  exact write_keeps hP (fun target v hover => hcomposed e path target v hmeets hover hvalue)
    hdoc hvalue

end Draft

namespace Target

theorem writeDocument_keeps {t : Target} {select : Pattern} {c : Carrier} {doc : Node}
    (hcomposed : t.accepts select (.of doc) = true → ∀ d path target v,
      Sweep.Meets (Draft.step t.options) ⟨doc, c.value, c.written⟩ t.fieldPaths d path →
        d.WritesOver t.options path target → P d.value →
          Node.compose t.options d.value target = .ok v → P v)
    (hvalue : P c.value) (hdoc : P doc) :
    P (t.writeDocument select c doc).state.value ∧ P (t.writeDocument select c doc).item := by
  unfold writeDocument
  split
  next haccepts =>
    exact (Draft.writeAll_keeps hP (d := ⟨doc, c.value, c.written⟩)
      (hcomposed haccepts) hdoc hvalue).symm
  next => exact ⟨hvalue, hdoc⟩

/-- The documents and the value on its way keep what they have under a target. -/
theorem write_keeps {w : Writing} {t : Target}
    (hcomposed : ∀ value target v, t.WritesOver w value target → P value →
      Node.compose t.options value target = .ok v → P v)
    (hdocs : ∀ doc ∈ w.docs, P doc) (hvalue : ∀ v ∈ w.value, P v) :
    (∀ doc ∈ (write w t).state.docs, P doc) ∧ ∀ v ∈ (write w t).state.value, P v := by
  cases hselect : t.select with
  | none =>
      rw [write_of_select_none hselect]
      exact ⟨hdocs, hvalue⟩
  | some select =>
      cases hstart : w.value with
      | none =>
          rw [write_of_value_none hselect hstart, hstart]
          exact ⟨hdocs, nofun⟩
      | some start =>
          -- a document can change the value for the next one, so both are kept together
          have hstep : ∀ c doc,
              Sweep.Meets (t.withDefaultPaths.writeDocument select) ⟨start, w.written⟩ w.docs
                c doc → P c.value → P doc →
              P (t.withDefaultPaths.writeDocument select c doc).state.value ∧
                P (t.withDefaultPaths.writeDocument select c doc).item := by
            intro c doc hmeets
            refine writeDocument_keeps hP ?_
            rw [accepts_withDefaultPaths, options_withDefaultPaths]
            intro haccepts d path target v hpath hover
            exact hcomposed d.value target v (.intro hselect hstart hmeets haccepts hpath hover)
          obtain ⟨hlast, hwritten⟩ :=
            Sweep.run_invariant_of_meets hstep (hvalue start hstart) hdocs
          rw [write_of_value hselect hstart]
          exact ⟨hwritten, fun v hv => Option.some.inj hv ▸ hlast⟩

end Target

/-- A rule keeps a property of the documents if the value that it reads has it and all
values that it composes. -/
theorem Rule.apply_keeps {s : PassState} {r : Rule}
    (hvalue : ∀ source targets v, r = ⟨some source, some targets⟩ →
      (source.resolve s.docs).2 = .ok (some v) → P v)
    (hcomposed : ∀ t value target v, r.WritesOver s t value target → P value →
      Node.compose t.options value target = .ok v → P v)
    (hdocs : ∀ doc ∈ s.docs, P doc) : ∀ doc ∈ (apply s r).state.docs, P doc := by
  rcases docs_apply s r with hsame | ⟨source, targets, rfl, start, hstart, hwritten⟩
  · rwa [hsame]
  · have hvalue : ∀ v ∈ start, P v := fun v hv =>
      hvalue source targets v rfl (hstart.trans (congrArg Except.ok hv))
    have hstep : ∀ w t, Sweep.Meets Target.write ⟨s.docs, start, s.tally.fields⟩ targets w t →
        (∀ doc ∈ w.docs, P doc) ∧ (∀ v ∈ w.value, P v) →
        (∀ doc ∈ (Target.write w t).state.docs, P doc) ∧
          ∀ v ∈ (Target.write w t).state.value, P v := by
      intro w t hmeets ⟨hdocs, hvalue⟩
      refine Target.write_keeps hP ?_ hdocs hvalue
      intro value target v hover
      exact hcomposed t value target v (.intro rfl hstart hmeets hover)
    have hkeep := Sweep.run_state_invariant_of_meets
      (P := fun w : Writing => (∀ doc ∈ w.docs, P doc) ∧ ∀ v ∈ w.value, P v)
      hstep ⟨hdocs, hvalue⟩
    rw [hwritten]
    exact hkeep.1

end Keeps

end Graft
