import Graft.Proofs.Path.Growth
import Graft.Proofs.Rule.Copy
import Graft.Proofs.Rule.Splice

/-!
# Graft.Proofs.Rule.Unwritten

What is left of a write that is not made, because it fails or because there is no place
for the value.

The value is what it was, and the document is what the walk to the place leaves by itself
(`Draft.write_of_unmade`). A walk that does not create leaves it alone. One that creates
fills in what is missing segment by segment, before it is known whether the rest of the
path can be entered and whether the place takes the value, and what it created stays. So
the document may have grown, but only where the path was absent and something of it could
be created (`Draft.writeAll_unmade`).
-/

namespace Graft

namespace Draft

variable {options : Option FieldOptions}

theorem write_of_malformed {path : String} {e : PathError} (hp : Path.parse path = .error e)
    (d : Draft) : d.write options path = (d, some (.path e)) := by
  simp only [write, hp]

/-- A write that is not made leaves what the walk to its place leaves. -/
theorem write_of_unmade {d : Draft} {path : String} {p : Path} (hp : Path.parse path = .ok p)
    (h : (d.write options path).2 ≠ none ∨ (d.write options path).1.written = d.written) :
    (d.write options path).1 =
      { d with doc := (Node.visitFrom (FieldOptions.leaf options d.value) Node.get
          p.segments d.doc).1 } := by
  have hunmade : ∀ v, (Node.visitFrom (FieldOptions.leaf options d.value)
      (Node.receive options d.value) p.segments d.doc).2 ≠ .reached (.ok v) := by
    intro v hv
    have hmade : (d.write options path).2 = none ∧
        (d.write options path).1.written = d.written + 1 := by
      unfold write
      simp only [hp, Node.visit, hv, Node.Visit.toExcept, and_self]
    rcases h with h | h
    · exact h hmade.1
    · omega
  have hstays : ∀ c, (Node.visitFrom (FieldOptions.leaf options d.value) Node.get
      p.segments d.doc).2 = .reached c → (Node.receive options d.value c).1 = c := by
    intro c hc
    cases hcompose : Node.compose options d.value c with
    | error e => rw [Node.receive_of_error hcompose]
    | ok v =>
        refine absurd ?_ (hunmade v)
        rw [Node.visitFrom_outcome, hc, Visit.map, Node.receive_of_ok hcompose]
  rw [← Node.fst_visitFrom_congr (g := Node.get) hstays]
  unfold write
  simp only [hp, Node.visit]
  cases hvisit : (Node.visitFrom (FieldOptions.leaf options d.value)
      (Node.receive options d.value) p.segments d.doc).2 with
  | absent => rfl
  | stopped o => rfl
  | reached a =>
      cases a with
      | error e => rfl
      | ok v => exact absurd hvisit (hunmade v)

/-- **What a write that is not made leaves.** If writing a value at one path fails, or
finds no place for the value, then the value is what it was. The document is what it was
too, unless the options create, a lookup of the path finds nothing, and this is not for
want of the elements in front of a position. There, and only there, the document has
changed: it is what creation alone makes of it at the path, with nothing removed or
altered but nulls that were filled in. -/
theorem writeAll_unmade {d d' : Draft} {path : String} {failure : Option Failure}
    (hrun : d.writeAll options [path] = (d', failure))
    (hunmade : failure ≠ none ∨ d'.written = d.written) :
    d'.value = d.value ∧
      (d'.doc ≠ d.doc ↔ options.any (·.create) = true ∧ ∃ p, Path.parse path = .ok p ∧
        d.doc.lookup p = .ok none ∧ ¬ d.doc.EndsBefore p.segments) ∧
      (d'.doc ≠ d.doc → d.doc.GrowsTo d'.doc ∧ ∃ p, Path.parse path = .ok p ∧
        d'.doc = (d.doc.lookupOrCreate d.value.kind p).1) := by
  rw [writeAll_singleton] at hrun
  cases hp : Path.parse path with
  | error e =>
      rw [write_of_malformed hp] at hrun
      obtain ⟨rfl, -⟩ := Prod.mk.inj hrun
      refine ⟨rfl, ⟨fun hne => absurd rfl hne, ?_⟩, fun hne => absurd rfl hne⟩
      rintro ⟨-, p, hp', -⟩
      cases hp'
  | ok p =>
      have hleft : (d.write options path).1 = _ :=
        write_of_unmade hp (by rw [hrun]; exact hunmade)
      rw [hrun] at hleft
      obtain rfl : d' = _ := hleft
      have hcreate : (FieldOptions.leaf options d.value).isSome = options.any (·.create) := by
        rw [FieldOptions.leaf_eq]
        cases options.any (·.create) <;> rfl
      have hchanged := Node.visitFrom_get_ne_iff (FieldOptions.leaf options d.value) p.segments
        d.doc
      rw [hcreate, ← Node.lookup_eq_ok_iff] at hchanged
      refine ⟨rfl, hchanged.trans ?_, fun hne => ⟨?_, p, rfl, ?_⟩⟩
      · constructor
        · rintro ⟨hcreates, hnone, hroom⟩
          exact ⟨hcreates, p, rfl, hnone, hroom⟩
        · rintro ⟨hcreates, q, hq, hnone, hroom⟩
          obtain rfl : p = q := Except.ok.inj hq
          exact ⟨hcreates, hnone, hroom⟩
      · exact Node.GrowsTo.visitFrom (fun c => .refl c) _ p.segments d.doc
      · obtain ⟨hcreates, -⟩ := hchanged.mp hne
        show (Node.visitFrom (FieldOptions.leaf options d.value) Node.get p.segments d.doc).1 = _
        rw [FieldOptions.leaf_eq, if_pos hcreates]
        rfl

/-- A mapping cannot be spliced into the element that was created for a matcher, which
stays behind the others. -/
theorem writeAll_unmade_matcher :
    let o : FieldOptions := { delimiter := ":", create := true }
    let d : Draft := ⟨Sample.deployment [.null], .mapping [], 0⟩
    let d' : Draft :=
      ⟨Sample.deployment [.null, .mapping [("name", .string "web")]], .mapping [], 0⟩
    d.writeAll (some o) ["spec.images.[name=web]"] = (d', some (.notText .mapping)) ∧
      d'.value = d.value ∧ d.doc.GrowsTo d'.doc := by
  intro o d d'
  have hrun : d.writeAll (some o) ["spec.images.[name=web]"] = (d', some (.notText .mapping)) := rfl
  obtain ⟨hvalue, -, hgrows⟩ := writeAll_unmade hrun (.inl nofun)
  have hne : d'.doc ≠ d.doc := by simp [d, d', Sample.deployment]
  exact ⟨hrun, hvalue, (hgrows hne).1⟩

/-- No place is made for a value behind the end of a sequence, but the sequence is made
for the position that has no element then. -/
theorem writeAll_leaves_sequence :
    let d : Draft := ⟨.mapping [], .string "v", 0⟩
    let d' : Draft := ⟨.mapping [("args", .sequence [])], .string "v", 0⟩
    d.writeAll (some { create := true }) ["args.1"] = (d', none) ∧ d'.written = d.written ∧
      d'.doc ≠ d.doc := by
  intro d d'
  exact ⟨rfl, rfl, by simp [d, d']⟩

end Draft
end Graft
