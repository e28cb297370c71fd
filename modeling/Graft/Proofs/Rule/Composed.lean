import Graft.Proofs.Node.RoundTrip
import Graft.Proofs.Rule.Invariant

/-!
# Graft.Proofs.Rule.Composed

What becomes of the documents of a pass when they are written and read again.

A scalar that was read keeps its text and its tag, wherever rules copy it. Only a
delimiter composes a text that need not be one that is written for a value of the tag: it
takes a piece of the text in a source, and puts the text on its way among the pieces of
what stands at a target (`Rule.Composes`). That every other scalar is kept is an invariant
of the pass, about all scalars of all documents together with the value on its way.
-/

namespace Graft

namespace Rule

/-- A scalar that a rule makes with a delimiter. -/
inductive Composes (s : PassState) (r : Rule) : ScalarTag → String → Prop where
  /-- The value of its source, which has a delimiter. -/
  | refined {source : Source} {targets : List Target} {tag : ScalarTag} {text : String}
      (hr : r = ⟨some source, some targets⟩)
      (hsplits : (FieldOptions.splitting source.options).isSome = true)
      (hvalue : (source.resolve s.docs).2 = .ok (some (.scalar tag text))) :
      Composes s r tag text
  /-- The value on its way, as it is composed for a node that it comes to at a target with a
  delimiter. -/
  | spliced {t : Target} {value target : Node} {tag : ScalarTag} {text : String}
      (hover : r.WritesOver s t value target)
      (hsplits : (FieldOptions.splitting t.options).isSome = true)
      (hvalue : Node.compose t.options value target = .ok (.scalar tag text)) :
      Composes s r tag text

/-- A scalar that some rule of a pass makes so, of the documents as the rules before it have
left them. -/
def Composed (rules : List Rule) (docs : List Node) (tag : ScalarTag) (text : String) : Prop :=
  ∃ s r, Sweep.Meets apply { docs := docs } rules s r ∧ r.Composes s tag text

section Invariant

variable {p : ScalarTag → String → Prop} (hstr : ∀ text, p .str text)
include hstr

/-- A text put into a scalar leaves its tag, or makes a string of null. -/
theorem scalars_withText {value : Node} (hvalue : value.isScalar = true) {text : String}
    (hp : ∀ tag, value.withText text = .scalar tag text → p tag text) :
    (value.withText text).ScalarsSatisfy p := by
  cases value with
  | null => exact Node.scalarsSatisfy_scalar (hstr text)
  | scalar tag old => exact Node.scalarsSatisfy_scalar (hp tag rfl)
  | mapping entries => cases hvalue
  | sequence items => cases hvalue

/-- One rule keeps the condition on all scalars, if it holds of those that it composes. -/
theorem apply_scalars {r : Rule} {s : PassState}
    (hp : ∀ tag text, r.Composes s tag text → p tag text)
    (hdocs : ∀ doc ∈ s.docs, doc.ScalarsSatisfy p) :
    ∀ doc ∈ (apply s r).state.docs, doc.ScalarsSatisfy p := by
  have hscalars := Node.hereditary_scalars hstr
  refine apply_keeps hscalars ?_ ?_ hdocs
  · intro source targets v hr hv
    obtain ⟨doc, hdoc, segments, found, hfound, rfl | ⟨hsplits, hscalar, text, rfl⟩⟩ :=
      Source.resolve_eq_some hv
    · exact hscalars.follow (hdocs doc hdoc) hfound
    · refine scalars_withText hstr hscalar fun tag htag => ?_
      exact hp tag text (.refined hr hsplits (htag ▸ hv))
  · intro t value target v hover hvalue hcompose
    rcases Node.compose_eq_ok hcompose with rfl | ⟨hsplits, hscalar, text, rfl⟩
    · exact hvalue
    · refine scalars_withText hstr hscalar fun tag htag => ?_
      exact hp tag text (.spliced hover hsplits (htag ▸ hcompose))

/-- A pass keeps it too, if it holds of all scalars that are composed. -/
theorem applyAll_scalars {rules : List Rule} {docs : List Node}
    (hp : ∀ tag text, Composed rules docs tag text → p tag text)
    (hdocs : ∀ doc ∈ docs, doc.ScalarsSatisfy p) :
    ∀ doc ∈ (applyAll rules docs).state.docs, doc.ScalarsSatisfy p := by
  refine Sweep.run_state_invariant_of_meets
    (P := fun s : PassState => ∀ doc ∈ s.docs, doc.ScalarsSatisfy p) ?_ hdocs
  intro s r hmeets hs
  exact apply_scalars hstr (fun tag text h => hp tag text ⟨s, r, hmeets, h⟩) hs

end Invariant

/-- **What was composed alone can change when it is written.** Documents that were read,
after a pass over them, are written and read again. Every scalar comes back as it
reads under its tag, with everything around it as it was. It keeps its text and its
tag, unless it is one that the pass composed. So if the composed scalars keep theirs, the
documents come back as they are. -/
theorem applyAll_reread {values : List Yaml}
    (hvalues : ∀ v ∈ values, ∀ n, v.HasNumber n → n.Valid) (rules : List Rule) :
    let docs := values.map Node.ofYaml
    ∀ doc ∈ (applyAll rules docs).state.docs,
      Node.ofYaml doc.toYaml = doc.mapScalars Node.reread ∧
      (∀ tag text, doc.HasScalar tag text →
        Node.reread tag text = .scalar tag text ∨ Composed rules docs tag text) ∧
      ((∀ tag text, Composed rules docs tag text → Node.reread tag text = .scalar tag text) →
        Node.ofYaml doc.toYaml = doc) := by
  intro docs doc hdoc
  have hread : ∀ doc ∈ docs, doc.ScalarsSatisfy fun tag text =>
      Node.reread tag text = .scalar tag text ∨ Composed rules docs tag text := by
    intro doc hdoc
    obtain ⟨v, hv, rfl⟩ := List.mem_map.mp hdoc
    have hkept := Node.scalarsSatisfy_ofYaml (hvalues v hv)
    exact ⟨hkept.keys, fun tag text h => .inl (hkept.scalars tag text h)⟩
  obtain ⟨hkeys, hscalars⟩ := applyAll_scalars (fun _ => .inl rfl) (fun _ _ => .inr) hread doc hdoc
  refine ⟨Node.ofYaml_toYaml hkeys, hscalars, fun hcomposed => ?_⟩
  rw [Node.ofYaml_toYaml hkeys]
  refine Node.mapScalars_eq_self fun tag text h => ?_
  rcases hscalars tag text h with hsame | hcompose
  · exact hsame
  · exact hcomposed tag text hcompose

end Rule

namespace Sample

/-- A document with the number of a release, a tag, and a field for a part of the number. -/
def release (tag : String) : Yaml :=
  .mapping
    [(.string "kind", .string "ConfigMap"), (.string "number", .number (.int 107)),
      (.string "tag", .string tag), (.string "minor", .string "")]

/-- The document with another tag and the field filled in. -/
def released (tag minor : Node) : Node :=
  .mapping
    [("kind", .string "ConfigMap"), ("number", .scalar .int "107"), ("tag", tag), ("minor", minor)]

/-- A rule that takes the number, or a part of it, for a field of its own and for a part
of the tag. -/
def number (part tag : Option FieldOptions) : Rule where
  source := some { pattern := .ofKind "ConfigMap", fieldPath := "number", options := part }
  targets := some
    [{ select := some (.ofKind "ConfigMap"), fieldPaths := ["minor"] },
      { select := some (.ofKind "ConfigMap"), fieldPaths := ["tag"], options := tag }]

/-- The rule for what stands behind the first zero of the number. It puts it behind the first
zero of the tag. -/
def behindZero : Rule := number (some (.delimited "0" 1)) (some (.delimited "0" 1))

end Sample

namespace Rule

/-- A pass of this rule composes two scalars, and no others: the part of the number, and the
tag with this part in it. -/
theorem composed_behindZero_iff {tag : ScalarTag} {text : String} :
    Composed [Sample.behindZero] [Node.ofYaml (Sample.release "20319")] tag text ↔
      tag = .int ∧ (text = "7" ∨ text = "207") := by
  constructor
  · intro ⟨s, r, hmeets, h⟩
    obtain ⟨rfl, rfl⟩ := Sweep.meets_singleton_iff.mp hmeets
    cases h with
    | refined hr hsplits hvalue =>
        cases hr
        cases hvalue
        exact ⟨rfl, .inl rfl⟩
    | spliced hover hsplits hvalue =>
        obtain ⟨hr, hstart, ht, hover⟩ := hover
        cases hr
        cases hstart
        obtain ⟨rfl, rfl⟩ | ⟨-, ht⟩ := Sweep.meets_cons_iff.mp ht
        · -- the first target has no delimiter
          cases hsplits
        · obtain ⟨rfl, rfl⟩ := Sweep.meets_singleton_iff.mp ht
          obtain ⟨hselect, hstart, hdoc, -, hpath, hover⟩ := hover
          cases hselect
          cases hstart
          obtain ⟨rfl, rfl⟩ := Sweep.meets_singleton_iff.mp hdoc
          obtain ⟨rfl, rfl⟩ := Sweep.meets_singleton_iff.mp hpath
          obtain ⟨p, hp, htarget⟩ := hover
          cases hp
          cases htarget
          cases hvalue
          exact ⟨rfl, .inr rfl⟩
  · intro htext
    obtain ⟨rfl, rfl | rfl⟩ := htext
    · exact ⟨_, _, .here, .refined rfl rfl rfl⟩
    · -- the second target comes to the tag, when the first one has written its field
      have hover : Draft.WritesOver (some (.delimited "0" 1))
          ⟨Sample.released (.string "20319") (.scalar .int "7"), .scalar .int "7", 1⟩ "tag"
          (.string "20319") := ⟨_, rfl, rfl⟩
      exact ⟨_, _, .here, .spliced
        (.intro rfl rfl (.later rfl .here) (.intro rfl rfl .here rfl .here hover)) rfl rfl⟩

/-- A number is put among the digits of a text, and both come back as they are, since they
still are written as numbers are. -/
theorem applyAll_reread_spliced :
    (∀ v ∈ [Sample.release "20319"], ∀ n, v.HasNumber n → n.Valid) ∧
      (applyAll [Sample.behindZero] [Node.ofYaml (Sample.release "20319")]).state.docs =
        [Sample.released (.scalar .int "207") (.scalar .int "7")] ∧
      ∀ doc ∈ (applyAll [Sample.behindZero] [Node.ofYaml (Sample.release "20319")]).state.docs,
        Node.ofYaml doc.toYaml = doc := by
  have hvalues : ∀ v ∈ [Sample.release "20319"], ∀ n, v.HasNumber n → n.Valid := by
    intro v hv n hn
    obtain rfl := List.mem_singleton.mp hv
    obtain _ | _ | ⟨he, hn⟩ := hn
    simp only [List.mem_cons, List.not_mem_nil, or_false] at he
    obtain rfl | rfl | rfl | rfl := he
    · cases hn
    · cases hn
      exact (by decide : Number.InRange 107)
    · cases hn
    · cases hn
  refine ⟨hvalues, rfl, fun doc hdoc => (applyAll_reread hvalues _ doc hdoc).2.2 ?_⟩
  intro tag text h
  obtain ⟨rfl, rfl | rfl⟩ := composed_behindZero_iff.mp h
  · rfl
  · rfl

/-- The part of a number that a rule takes is still tagged as an integer. Where it
stands by itself it comes back as one, without the zero in front. Where it was
spliced into a text it comes back as a string. -/
theorem reread_ne_of_number :
    let pass := applyAll [Sample.number (some (.delimited "1" 1)) (some (.delimited ":" 1))]
      [Node.ofYaml (Sample.release "app:1")]
    let doc := Sample.released (.scalar .int "app:07") (.scalar .int "07")
    pass.failure = none ∧ pass.state.docs = [doc] ∧
      Node.ofYaml doc.toYaml = Sample.released (.string "app:07") (.scalar .int "7") ∧
      Node.ofYaml doc.toYaml ≠ doc := by
  intro pass doc
  have hdoc : Node.ofYaml doc.toYaml = Sample.released (.string "app:07") (.scalar .int "7") := rfl
  refine ⟨by decide, rfl, hdoc, ?_⟩
  rw [hdoc]
  simp [doc, Sample.released, Node.string]

end Rule
end Graft
