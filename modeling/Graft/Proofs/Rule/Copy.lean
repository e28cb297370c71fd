import Graft.Proofs.Path.Walk
import Graft.Proofs.Rule.Frame
import Graft.Proofs.Rule.Source

/-!
# Graft.Proofs.Rule.Copy

Targets without a delimiter. Nothing is spliced there, so the value that travels
along stays the source's, and what a target does to one document is a function of
this document and the value alone: `Target.copyTo`.

The engine is reduced to that function in three steps. The value stays and the number
of fields written is only carried along (`Target.writeDocument_count`); hence a target
copies into every document on its own (`Target.write_failure_iff`,
`Target.write_of_copies`); and a rule with one target succeeds if it has a value and
every document takes it (`Rule.apply_copy`, `Rule.copies_of_apply`).
-/

namespace Graft

/-! ### The value as it is -/

/-- A target whose options have no delimiter, so that the value is written as it
is. -/
def Target.Copies (t : Target) : Prop := ∀ o ∈ t.options, o.delimiter = ""

instance (t : Target) : Decidable t.Copies :=
  inferInstanceAs (Decidable (∀ o ∈ t.options, o.delimiter = ""))

/-- Whether the options of a target ask for missing fields to be created. -/
def Target.creates (t : Target) : Bool := t.options.any (·.create)

theorem Target.Copies.splitting {t : Target} (h : t.Copies) :
    FieldOptions.splitting t.options = none := by
  unfold FieldOptions.splitting
  cases ho : t.options with
  | none => rfl
  | some o => simp [h o (by simp [ho])]

/-- Options that create ask for a leaf of the value's kind. -/
theorem FieldOptions.leaf_eq (options : Option FieldOptions) (value : Node) :
    leaf options value = if options.any (·.create) then some value.kind else none := by
  cases options <;> rfl

theorem Target.leaf_of_creates {t : Target} (h : t.creates = true) (value : Node) :
    FieldOptions.leaf t.options value = some value.kind := by
  rw [FieldOptions.leaf_eq]
  exact if_pos h

theorem Target.leaf_of_not_creates {t : Target} (h : t.creates = false) (value : Node) :
    FieldOptions.leaf t.options value = none := by
  rw [FieldOptions.leaf_eq]
  exact if_neg (by simpa [creates] using h)

/-! ### One path -/

/-- The number of fields that a walk wrote. -/
def Visit.written {α : Type} : Visit α → Nat
  | .reached _ => 1
  | .absent => 0
  | .stopped _ => 0

/-- Why a walk along a path failed. -/
def Visit.failure? {α : Type} (p : Path) : Visit α → Option Failure
  | .reached _ => none
  | .absent => none
  | .stopped o => some (.path (o.error p))

namespace Node

/-- Puts a value in place of a node, and answers with the value. -/
def put (value : Node) : Node → Node × Except Failure Node := fun _ => (value, .ok value)

/-- Puts a value at a path of a document, and creates the place if the options say
so. -/
def putAt (options : Option FieldOptions) (value : Node) (p : Path) (doc : Node) :
    Node × Visit (Except Failure Node) :=
  visitFrom (FieldOptions.leaf options value) (put value) p.segments doc

/-- A walk that arrives answers with the value. -/
theorem eq_of_putAt_reached {options : Option FieldOptions} {value doc : Node} {p : Path}
    {a : Except Failure Node} (h : (putAt options value p doc).2 = .reached a) :
    a = .ok value := by
  rw [putAt, visitFrom_outcome] at h
  cases hget : (visitFrom (FieldOptions.leaf options value) get p.segments doc).2 with
  | reached c => rw [hget] at h; cases h; rfl
  | absent => rw [hget] at h; cases h
  | stopped o => rw [hget] at h; cases h

end Node

section Copying

variable {options : Option FieldOptions} (hopt : FieldOptions.splitting options = none)
include hopt

theorem Node.receive_eq_put (value : Node) : Node.receive options value = Node.put value := by
  funext target
  simp only [receive, compose_of_splitting_eq_none hopt, put]

namespace Draft

/-- Writing a value at a well-formed path is putting it there. -/
theorem write_of_parse {path : String} {p : Path} (hp : Path.parse path = .ok p)
    (doc value : Node) (n : Nat) :
    write options ⟨doc, value, n⟩ path =
      (⟨(Node.putAt options value p doc).1, value, n + (Node.putAt options value p doc).2.written⟩,
        (Node.putAt options value p doc).2.failure? p) := by
  have hvisit : doc.visit (FieldOptions.leaf options value) (Node.receive options value) p =
      ((Node.putAt options value p doc).1,
        Node.Visit.toExcept p (Node.putAt options value p doc).2) := by
    rw [Node.receive_eq_put hopt]
    rfl
  simp only [write, hp, hvisit]
  cases hw : (Node.putAt options value p doc).2 with
  | reached a =>
      obtain rfl := Node.eq_of_putAt_reached hw
      rfl
  | absent => rfl
  | stopped o => rfl

theorem value_write_of_copies (d : Draft) (path : String) :
    (d.write options path).1.value = d.value := by
  cases hp : Path.parse path with
  | error e => simp only [write, hp]
  | ok p =>
      obtain ⟨doc, value, n⟩ := d
      rw [write_of_parse hopt hp]

theorem value_writeAll_of_copies (d : Draft) (paths : List String) :
    (d.writeAll options paths).1.value = d.value := by
  refine writeAll_invariant (P := fun e : Draft => e.value = d.value) ?_ rfl
  intro path _ e he
  exact (value_write_of_copies hopt e path).trans he

end Draft

end Copying

/-! ### One document -/

namespace Target

theorem Copies.withDefaultPaths {t : Target} (h : t.Copies) : t.withDefaultPaths.Copies := by
  unfold Copies
  rw [options_withDefaultPaths]
  exact h

/-- What a target that copies does to one document: the document afterwards, the
number of fields written, and why it failed if it did. Without a value nothing is
done. -/
def copyTo (t : Target) (select : Pattern) (value : Option Node) (doc : Node) :
    Step Node Nat Failure :=
  match value with
  | none => ⟨doc, 0, none⟩
  | some v =>
    let s := t.withDefaultPaths.writeDocument select ⟨v, 0⟩ doc
    ⟨s.item, s.state.written, s.failure⟩

theorem writeDocument_count {t : Target} (ht : t.Copies) (select : Pattern) (v : Node) (n : Nat)
    (doc : Node) :
    t.writeDocument select ⟨v, n⟩ doc =
      ⟨(t.writeDocument select ⟨v, 0⟩ doc).item,
        ⟨v, n + (t.writeDocument select ⟨v, 0⟩ doc).state.written⟩,
        (t.writeDocument select ⟨v, 0⟩ doc).failure⟩ := by
  have hcount := t.writeDocument_ahead select n ⟨v, 0⟩ doc
  have hvalue : (t.writeDocument select ⟨v, 0⟩ doc).state.value = v := by
    unfold writeDocument
    split
    · exact Draft.value_writeAll_of_copies ht.splitting ⟨doc, v, 0⟩ t.fieldPaths
    · rfl
  simp only [Carrier.ahead, hvalue] at hcount
  exact hcount

/-- A document that the target does not mean stays. -/
theorem copyTo_of_not_accepts {t : Target} {select : Pattern} {doc : Node}
    (h : t.accepts select (.of doc) = false) (value : Option Node) :
    t.copyTo select value doc = ⟨doc, 0, none⟩ := by
  cases value with
  | none => rfl
  | some v =>
      have hskip : t.withDefaultPaths.accepts select (.of doc) = false := by
        rw [accepts_withDefaultPaths, h]
      simp only [copyTo, writeDocument_of_not_accepts hskip]

section OnePath

variable {t : Target} {select : Pattern} {path : String} {doc : Node}

/-- A path that is malformed shows in the first document that the target means. -/
theorem copyTo_of_malformed (hpaths : t.fieldPaths = [path])
    (hacc : t.accepts select (.of doc) = true) {e : PathError} (hp : Path.parse path = .error e)
    (v : Node) : t.copyTo select (some v) doc = ⟨doc, 0, some (.path e)⟩ := by
  have hne : t.fieldPaths ≠ [] := by simp [hpaths]
  simp [copyTo, withDefaultPaths_of_ne hne, writeDocument, hacc, hpaths, Draft.writeAll,
    Draft.write, hp]

/-- Copying to one path is putting the value there. -/
theorem copyTo_of_parse (ht : t.Copies) (hpaths : t.fieldPaths = [path])
    (hacc : t.accepts select (.of doc) = true) {p : Path} (hp : Path.parse path = .ok p)
    (v : Node) :
    t.copyTo select (some v) doc =
      ⟨(Node.putAt t.options v p doc).1, (Node.putAt t.options v p doc).2.written,
        (Node.putAt t.options v p doc).2.failure? p⟩ := by
  have hne : t.fieldPaths ≠ [] := by simp [hpaths]
  simp only [copyTo, withDefaultPaths_of_ne hne, writeDocument, hacc, hpaths, Draft.writeAll,
    Draft.write_of_parse ht.splitting hp, if_true, Nat.zero_add]
  cases (Node.putAt t.options v p doc).2.failure? p <;> rfl

end OnePath

/-! ### All documents -/

section Write

variable {t : Target} (ht : t.Copies) {select : Pattern} (hselect : t.select = some select)
include ht hselect

/-- A target that copies fails if it fails for some document. -/
theorem write_failure_iff (w : Writing) :
    (write w t).failure = none ↔ ∀ doc ∈ w.docs, (t.copyTo select w.value doc).failure = none := by
  cases hvalue : w.value with
  | none =>
      rw [write_of_value_none hselect hvalue]
      simp [copyTo]
  | some v =>
      rw [write_of_value hselect hvalue]
      exact Sweep.run_failure_counted
        (fun n doc => writeDocument_count ht.withDefaultPaths select v n doc) w.docs w.written

/-- A target that succeeds has copied into each document on its own. -/
theorem write_of_copies {w : Writing}
    (hok : ∀ doc ∈ w.docs, (t.copyTo select w.value doc).failure = none) :
    write w t =
      ⟨t.withDefaultPaths,
        ⟨w.docs.map fun doc => (t.copyTo select w.value doc).item, w.value,
          w.written + (w.docs.map fun doc => (t.copyTo select w.value doc).state).sum⟩,
        none⟩ := by
  obtain ⟨docs, value, n⟩ := w
  cases value with
  | none =>
      rw [write_of_value_none hselect rfl]
      simp [copyTo, List.map_const']
  | some v =>
      have hrun := Sweep.run_counted
        (fun n doc => writeDocument_count ht.withDefaultPaths select v n doc) hok n
      rw [write_of_value hselect rfl]
      simp only [hrun, copyTo]

end Write

end Target

/-! ### One rule -/

namespace Rule

variable {source : Source} {t : Target} {s : PassState}

/-- A rule with a value, whose one target copies it into every document. -/
theorem apply_copy (ht : t.Copies) {select : Pattern} (hselect : t.select = some select)
    {value : Option Node} (hvalue : (source.resolve s.docs).2 = .ok value)
    (hok : ∀ doc ∈ s.docs, (t.copyTo select value doc).failure = none) :
    apply s { source := some source, targets := some [t] } =
      ⟨{ source := some source.withDefaultPath, targets := some [t.withDefaultPaths] },
        { docs := s.docs.map fun doc => (t.copyTo select value doc).item
          tally :=
            { s.tally with
              rules := s.tally.rules + 1
              fields := s.tally.fields
                + (s.docs.map fun doc => (t.copyTo select value doc).state).sum } },
        none⟩ := by
  have hwrite := Target.write_of_copies ht hselect (w := ⟨s.docs, value, s.tally.fields⟩) hok
  rw [apply_of_value hvalue, Target.writeAll, Sweep.run_singleton, hwrite]
  rfl

/-- If a rule with one target that copies succeeds, then it has a value, and every
document takes it. -/
theorem copies_of_apply (ht : t.Copies)
    (h : (apply s { source := some source, targets := some [t] }).failure = none) :
    ∃ select value, t.select = some select ∧ (source.resolve s.docs).2 = .ok value ∧
      ∀ doc ∈ s.docs, (t.copyTo select value doc).failure = none := by
  cases hvalue : (source.resolve s.docs).2 with
  | error e =>
      rw [apply_of_error hvalue] at h
      cases h
  | ok value =>
      rw [apply_of_value hvalue, Target.writeAll, Sweep.run_singleton] at h
      cases hselect : t.select with
      | none =>
          rw [Target.write_of_select_none hselect] at h
          cases h
      | some select =>
          exact ⟨select, value, rfl, rfl, (Target.write_failure_iff ht hselect _).mp h⟩

/-- A pass of one rule is the rule. -/
theorem applyAll_singleton (r : Rule) (docs : List Node) :
    applyAll [r] docs =
      ⟨[(apply { docs := docs } r).item], (apply { docs := docs } r).state,
        (apply { docs := docs } r).failure⟩ :=
  Sweep.run_singleton apply _ r

end Rule
end Graft
