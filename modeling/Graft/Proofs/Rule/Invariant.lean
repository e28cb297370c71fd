import Graft.Proofs.Node.Convert
import Graft.Proofs.Path.Grammar
import Graft.Proofs.Rule.Trace

/-!
# Graft.Proofs.Rule.Invariant

What a pass keeps of every document, however it ends.

A value in a source is a part of a document, and what is refined or composed of it has
another text at most (`Source.resolve_eq_some`, `Node.compose_eq_ok`). So a pass over
documents that repeat no key repeats none (`Rule.distinctKeys_applyAll`).

The other kind of invariant compares each document with what becomes of it: a pass relates
the two as its writes do (`Rule.applyAll_related`). Paths are never empty, so a walk stays below
the root, and a root that is no null keeps its kind (`Rule.forall₂_kind`).

Keys and roots together are `Rule.applyAll_wellFormed`.
-/

namespace Graft

/-! ### Keys -/

theorem Node.distinctKeys_withText {n : Node} (hn : n.DistinctKeys) (text : String) :
    (n.withText text).DistinctKeys := by
  cases n with
  | null => exact Node.hereditary_distinctKeys.string text
  | scalar tag old => simp [Node.withText, Node.DistinctKeys]
  | mapping entries => exact hn
  | sequence items => exact hn

/-- A composed value is the value, with another text if there is a delimiter. -/
theorem Node.compose_eq_ok {options : Option FieldOptions} {value target v : Node}
    (h : Node.compose options value target = .ok v) :
    v = value ∨ (FieldOptions.splitting options).isSome ∧ value.isScalar = true ∧
      ∃ text, v = value.withText text := by
  unfold Node.compose at h
  split at h
  · exact .inl (Except.ok.inj h).symm
  · next o ho =>
      split at h
      · cases h
      · split at h
        · cases h
        · next text htext =>
            refine .inr ⟨by rw [ho]; rfl, ?_, _, (Except.ok.inj h).symm⟩
            rw [← Node.isSome_text?, htext]
            rfl

/-- A refined value is the value, or a piece of its text if there is a delimiter. -/
theorem Node.refine_eq_ok {options : Option FieldOptions} {value v : Node}
    (h : Node.refine options value = .ok v) :
    v = value ∨ (FieldOptions.splitting options).isSome ∧ value.isScalar = true ∧
      ∃ text, v = value.withText text := by
  unfold Node.refine at h
  split at h
  · exact .inl (Except.ok.inj h).symm
  · next o ho =>
      split at h
      · cases h
      · next text htext =>
          split at h
          · refine .inr ⟨by rw [ho]; rfl, ?_, _, (Except.ok.inj h).symm⟩
            rw [← Node.isSome_text?, htext]
            rfl
          · cases h

/-- The value of a source is a part of a document, with another text if there is a
delimiter. -/
theorem Source.resolve_eq_some {source : Source} {docs : List Node} {v : Node}
    (h : (source.resolve docs).2 = .ok (some v)) :
    ∃ doc ∈ docs, ∃ segments found, doc.follow segments = .ok (some found) ∧
      (v = found ∨ (FieldOptions.splitting source.options).isSome ∧ found.isScalar = true ∧
        ∃ text, v = found.withText text) := by
  obtain ⟨doc, hselect, hvalue⟩ := Source.select_of_resolve h
  refine ⟨doc, Pattern.mem_of_select hselect, ?_⟩
  unfold Source.valueIn at hvalue
  split at hvalue
  · cases hvalue
  · next p hp =>
      split at hvalue
      · cases hvalue
      · cases hvalue
      · next found hfound =>
          refine ⟨p.segments, found, Node.lookup_eq_ok_iff.mp hfound, ?_⟩
          split at hvalue
          · exact .inl (Option.some.inj (Except.ok.inj hvalue)).symm
          · cases hrefine : found.refine source.withDefaultPath.options with
            | error e => rw [hrefine] at hvalue; cases hvalue
            | ok w =>
                rw [hrefine] at hvalue
                obtain rfl : w = v := Option.some.inj (Except.ok.inj hvalue)
                rw [Source.options_withDefaultPath] at hrefine
                exact Node.refine_eq_ok hrefine

theorem Node.distinctKeys_compose {options : Option FieldOptions} {value target v : Node}
    (hvalue : value.DistinctKeys) (h : Node.compose options value target = .ok v) :
    v.DistinctKeys := by
  rcases Node.compose_eq_ok h with rfl | ⟨-, -, text, rfl⟩
  · exact hvalue
  · exact Node.distinctKeys_withText hvalue text

theorem Source.distinctKeys_resolve {source : Source} {docs : List Node}
    (hdocs : ∀ doc ∈ docs, doc.DistinctKeys) {v : Node}
    (h : (source.resolve docs).2 = .ok (some v)) : v.DistinctKeys := by
  obtain ⟨doc, hdoc, segments, found, hfound, hv⟩ := Source.resolve_eq_some h
  have hkeys := Node.hereditary_distinctKeys.follow (hdocs doc hdoc) hfound
  rcases hv with rfl | ⟨-, -, text, rfl⟩
  · exact hkeys
  · exact Node.distinctKeys_withText hkeys text

namespace Rule

theorem distinctKeys_applyAll (rules : List Rule) {docs : List Node}
    (hdocs : ∀ doc ∈ docs, doc.DistinctKeys) :
    ∀ doc ∈ (applyAll rules docs).state.docs, doc.DistinctKeys :=
  Sweep.run_state_invariant (P := fun s : PassState => ∀ doc ∈ s.docs, doc.DistinctKeys)
    (fun _ _ _ hs => apply_keeps Node.hereditary_distinctKeys
      (fun _ _ _ _ hv => Source.distinctKeys_resolve hs hv)
      (fun _ _ _ _ _ hvalue hv => Node.distinctKeys_compose hvalue hv) hs) hdocs

end Rule

/-! ### Documents compared with what becomes of them -/

section Related

variable {R : Node → Node → Prop} (hrefl : ∀ doc, R doc doc)
  (htrans : ∀ {a b c}, R a b → R b c → R a c)
include hrefl htrans

/-- If every write relates a document to what it makes of it, so do several of them. -/
theorem Draft.writeAll_related {options : Option FieldOptions} {paths : List String}
    (hwrite : ∀ path ∈ paths, ∀ d : Draft, R d.doc (d.write options path).1.doc) (d : Draft) :
    R d.doc (d.writeAll options paths).1.doc := by
  refine writeAll_invariant (P := fun e : Draft => R d.doc e.doc) ?_ (hrefl d.doc)
  intro path hpath e he
  exact htrans he (hwrite path hpath e)

theorem Target.write_related {t : Target}
    (hwrite : ∀ path ∈ t.withDefaultPaths.fieldPaths, ∀ d : Draft,
      R d.doc (d.write t.options path).1.doc) (w : Writing) :
    List.Forall₂ R w.docs (write w t).state.docs := by
  have hsame : List.Forall₂ R w.docs w.docs := List.forall₂_same.mpr fun doc _ => hrefl doc
  rcases docs_write w t with hdocs | ⟨select, -, value, -, hdocs⟩
  · rwa [hdocs]
  · rw [hdocs]
    refine Sweep.run_forall₂ hrefl (fun c doc => ?_) _ _
    unfold writeDocument
    split
    · rw [options_withDefaultPaths]
      exact Draft.writeAll_related hrefl htrans hwrite ⟨doc, c.value, c.written⟩
    · exact hrefl doc

theorem Rule.apply_related {r : Rule}
    (hwrite : ∀ targets ∈ r.targets, ∀ t ∈ targets, ∀ path ∈ t.withDefaultPaths.fieldPaths,
      ∀ d : Draft, R d.doc (d.write t.options path).1.doc) (s : PassState) :
    List.Forall₂ R s.docs (apply s r).state.docs := by
  have hsame : List.Forall₂ R s.docs s.docs := List.forall₂_same.mpr fun doc _ => hrefl doc
  rcases docs_apply s r with hdocs | ⟨source, targets, rfl, value, -, hdocs⟩
  · rwa [hdocs]
  · rw [hdocs]
    exact Sweep.run_state_invariant (P := fun w : Writing => List.Forall₂ R s.docs w.docs)
      (fun t ht w hw =>
        Sweep.forall₂_trans (R := R) htrans hw
          (Target.write_related hrefl htrans (hwrite targets rfl t ht) w)) hsame

/-- What every write of a pass makes of the documents, the pass makes of them. -/
theorem Rule.applyAll_related {rules : List Rule}
    (hwrite : ∀ r ∈ rules, ∀ targets ∈ r.targets, ∀ t ∈ targets,
      ∀ path ∈ t.withDefaultPaths.fieldPaths, ∀ d : Draft,
        R d.doc (d.write t.options path).1.doc) (docs : List Node) :
    List.Forall₂ R docs (applyAll rules docs).state.docs :=
  Sweep.run_state_invariant (P := fun s : PassState => List.Forall₂ R docs s.docs)
    (fun r hr s hs =>
      Sweep.forall₂_trans (R := R) htrans hs (apply_related hrefl htrans (hwrite r hr) s))
    (List.forall₂_same.mpr fun doc _ => hrefl doc)

end Related

/-! ### Roots -/

/-- What a root may become: one that is no null keeps its kind. -/
def Node.KeepsKind (doc doc' : Node) : Prop := doc.kind ≠ .null → doc'.kind = doc.kind

namespace Node.KeepsKind

theorem refl (doc : Node) : KeepsKind doc doc := fun _ => rfl

theorem trans {a b c : Node} (hab : KeepsKind a b) (hbc : KeepsKind b c) : KeepsKind a c := by
  intro ha
  have hb := hab ha
  rw [hbc (by rwa [hb]), hb]

end Node.KeepsKind

theorem Draft.write_keepsKind (options : Option FieldOptions) (d : Draft) (path : String) :
    Node.KeepsKind d.doc (d.write options path).1.doc := by
  intro hkind
  rw [doc_write]
  cases hp : Path.parse path with
  | error e => rfl
  | ok p => exact Node.kind_visitFrom (Path.segments_ne_nil hp) _ _ hkind

namespace Rule

theorem forall₂_kind (rules : List Rule) (docs : List Node) :
    List.Forall₂ Node.KeepsKind docs (applyAll rules docs).state.docs :=
  applyAll_related .refl .trans
    (fun _ _ _ _ t _ path _ d => d.write_keepsKind t.options path) docs

/-- **A pass keeps documents well-formed.** Trees that were read repeat no key; a pass
over documents that repeat none leaves as many documents, none of which repeats one,
however it ends; and a root that was a mapping, a sequence or a scalar is one still, so
that it is not written as a null, which the reading of a stream would pass over. -/
theorem applyAll_wellFormed :
    (∀ v, (Node.ofYaml v).DistinctKeys) ∧ (∀ j, (Node.ofJson j).DistinctKeys) ∧
      ∀ (rules : List Rule) (docs : List Node), (∀ doc ∈ docs, doc.DistinctKeys) →
        let after := (applyAll rules docs).state.docs
        after.length = docs.length ∧
          ∀ (i : Nat) (doc : Node), docs[i]? = some doc →
            ∃ doc', after[i]? = some doc' ∧ doc'.DistinctKeys ∧
              (doc.kind ≠ .null → doc'.kind = doc.kind ∧ doc'.toYaml.isNull = false) := by
  refine ⟨Node.distinctKeys_ofYaml, Node.distinctKeys_ofJson, fun rules docs hdocs => ?_⟩
  have hkeys := distinctKeys_applyAll rules hdocs
  have hkinds := forall₂_kind rules docs
  refine ⟨hkinds.length_eq.symm, fun i doc hdoc => ?_⟩
  obtain ⟨hi, rfl⟩ := List.getElem?_eq_some_iff.mp hdoc
  have hi' : i < (applyAll rules docs).state.docs.length := hkinds.length_eq ▸ hi
  refine ⟨_, List.getElem?_eq_getElem hi', hkeys _ (List.getElem_mem hi'), fun hnull => ?_⟩
  have hkind : (applyAll rules docs).state.docs[i].kind = docs[i].kind := hkinds.get hi hi' hnull
  exact ⟨hkind, Node.isNull_toYaml (by rwa [hkind])⟩

/-- A pass that writes a mapping over the name of the config map, creates a path beside
it, and then fails on its way into a text. -/
theorem applyAll_wellFormed_halfway :
    let rules : List Rule :=
      [{ source := some { pattern := .ofKind "ConfigMap", fieldPath := "data" }
         targets := some
          [{ select := some {}, fieldPaths := ["metadata.name", "spec.new.0", "kind.x"]
             options := some { create := true } }] }]
    let docs := [Sample.configMap, Sample.deployment []]
    let after := (applyAll rules docs).state.docs
    (applyAll rules docs).failure.isSome = true ∧ after.length = 2 ∧
      ∃ doc', after[0]? = some doc' ∧ doc'.DistinctKeys ∧ doc'.kind = .mapping ∧
        doc'.toYaml.isNull = false := by
  intro rules docs after
  have hdocs : ∀ doc ∈ docs, doc.DistinctKeys := by
    simp [docs, Sample.configMap, Sample.deployment, Node.DistinctKeys, Node.DistinctKeysEntries,
      Node.DistinctKeysItems, Node.string]
  obtain ⟨hlength, hall⟩ := applyAll_wellFormed.2.2 rules docs hdocs
  obtain ⟨doc', hdoc', hkeys, hroot⟩ := hall 0 Sample.configMap rfl
  obtain ⟨hkind, hnull⟩ := hroot (by simp [Sample.configMap, Node.kind])
  exact ⟨by decide, hlength, doc', hdoc', hkeys, hkind, hnull⟩

end Rule
end Graft
