import Graft.Proofs.Identity
import Graft.Proofs.Rule.Copy

/-!
# Graft.Proofs.Rule.Effect

What a rule does that copies its value to one path of the documents one target
selects.

* `Rule.copy_effect`: the documents that the target does not mean stay; in the
  others the value is found at the path afterwards, if there was a place for it,
  and without creation they stay where there was none. The value is the one read
  before anything was written, also where the source document is itself a target.
* `Rule.applyAll_again`: applied a second time, such a rule changes nothing, if its
  path does not touch the identities and its source is no target.

Both are read off one document at a time (`Target.copyTo`), where copying is a walk
along the path that puts the value at the end.
-/

namespace Graft

/-! ### One document -/

/-- Along steady segments, putting the value there again changes nothing more. -/
theorem Node.putAt_putAt {p : Path} (hsteady : Segment.Steady p.segments)
    (options : Option FieldOptions) (value doc : Node) :
    putAt options value p (putAt options value p doc).1 = putAt options value p doc :=
  visitFrom_visitFrom hsteady (fun _ => rfl) doc

/-- A value put past the root fields leaves the document who it was. -/
theorem Identity.of_putAt {p : Path} {name : String}
    (hhead : p.segments.head? = some (.field name)) (hname : name ∉ rootFields)
    (options : Option FieldOptions) (value doc : Node) :
    of (Node.putAt options value p doc).1 = of doc := by
  obtain ⟨rest, hrest⟩ := List.head?_eq_some_iff.mp hhead
  have hother : p.segments ∉ naming := by
    intro hmem
    -- the first key of each of these paths is a root field
    have hroot : name = "apiVersion" ∨ name = "kind" ∨ name = "metadata" := by
      simp only [hrest, naming, List.mem_cons, List.cons.injEq, Segment.field.injEq] at hmem
      grind
    exact hname (by simpa [rootFields] using hroot)
  exact of_visitFrom (by simp [hrest]) hother _ _ doc

namespace Target

/-- Whether a document has a place for a value at a path, or gets one. -/
def HasPlace (t : Target) (value : Node) (p : Path) (doc : Node) : Prop :=
  (∃ found, doc.lookup p = .ok (some found)) ∨
    (t.creates = true ∧ ∃ found, (doc.lookupOrCreate value.kind p).2 = .ok (some found))

variable {t : Target} {select : Pattern} {path : String} {doc : Node}

/-- If a document that the target means takes the value, then the path is well
formed. -/
theorem exists_parse_of_copyTo (hpaths : t.fieldPaths = [path])
    (hacc : t.accepts select (.of doc) = true) {v : Node}
    (hok : (t.copyTo select (some v) doc).failure = none) : ∃ p, Path.parse path = .ok p := by
  cases hp : Path.parse path with
  | ok p => exact ⟨p, rfl⟩
  | error e =>
      rw [copyTo_of_malformed hpaths hacc hp] at hok
      cases hok

/-- Where there is a place for the value, it is found there afterwards. -/
theorem lookup_copyTo (ht : t.Copies) (hpaths : t.fieldPaths = [path])
    (hacc : t.accepts select (.of doc) = true) {p : Path} (hp : Path.parse path = .ok p)
    (hsteady : Segment.Steady p.segments) {v : Node} (hplace : t.HasPlace v p doc) :
    (t.copyTo select (some v) doc).item.lookup p = .ok (some v) := by
  rw [copyTo_of_parse ht hpaths hacc hp, Node.lookup_eq_ok_iff]
  rcases hplace with ⟨found, hfound⟩ | ⟨hcreates, found, hfound⟩
  · have hreached := Node.visitFrom_of_follow_some (Node.lookup_eq_ok_iff.mp hfound)
      (FieldOptions.leaf t.options v) Node.get
    exact Node.follow_visitFrom hsteady hreached (Node.put v)
  · have hreached := Node.lookupOrCreate_eq_some_iff.mp hfound
    rw [← leaf_of_creates hcreates] at hreached
    exact Node.follow_visitFrom hsteady hreached (Node.put v)

/-- Without creation, a document without the place stays. -/
theorem copyTo_of_absent (ht : t.Copies) (hpaths : t.fieldPaths = [path])
    (hacc : t.accepts select (.of doc) = true) {p : Path} (hp : Path.parse path = .ok p)
    (hcreates : t.creates = false) (habsent : doc.lookup p = .ok none) (v : Node) :
    (t.copyTo select (some v) doc).item = doc := by
  rw [copyTo_of_parse ht hpaths hacc hp]
  simp only [Node.putAt, leaf_of_not_creates hcreates,
    Node.visitFrom_none_of_absent (Node.lookup_eq_ok_iff.mp habsent)]

/-- Copying again changes nothing more and counts the same, and the document stays
who it was. The path has to be steady, so that the second walk goes where the first
one went, and to lead past the root fields, so that the target means the document as
before. -/
theorem copyTo_copyTo (ht : t.Copies) (hpaths : t.fieldPaths = [path])
    (hpath : ∀ p, Path.parse path = .ok p → Segment.Steady p.segments ∧
      ∃ name, p.segments.head? = some (.field name) ∧ name ∉ Identity.rootFields)
    (select : Pattern) (value : Option Node) (doc : Node) :
    Identity.of (t.copyTo select value doc).item = Identity.of doc ∧
      t.copyTo select value (t.copyTo select value doc).item = t.copyTo select value doc := by
  cases value with
  | none => exact ⟨rfl, rfl⟩
  | some v =>
      cases hacc : t.accepts select (.of doc) with
      | false =>
          rw [copyTo_of_not_accepts hacc]
          exact ⟨rfl, copyTo_of_not_accepts hacc _⟩
      | true =>
          cases hp : Path.parse path with
          | error e =>
              rw [copyTo_of_malformed hpaths hacc hp]
              exact ⟨rfl, copyTo_of_malformed hpaths hacc hp v⟩
          | ok p =>
              obtain ⟨hsteady, name, hhead, hname⟩ := hpath p hp
              -- the target means the document still, because it is who it was
              have hid := Identity.of_putAt hhead hname t.options v doc
              have hacc' : t.accepts select (.of (Node.putAt t.options v p doc).1) = true := by
                rw [hid, hacc]
              rw [copyTo_of_parse ht hpaths hacc hp]
              refine ⟨hid, ?_⟩
              rw [copyTo_of_parse ht hpaths hacc' hp, Node.putAt_putAt hsteady]

end Target

/-! ### All documents -/

namespace Rule

/-- **The effect of a copying rule.** Every document is treated by itself: one that
the target does not mean stays, one that has or gets the place holds the value
there, and one that neither has nor gets it stays. -/
theorem copy_effect {docs : List Node} {source : Source} {t : Target} {select : Pattern}
    {path : String} {v : Node} (hselect : t.select = some select) (ht : t.Copies)
    (hpaths : t.fieldPaths = [path])
    (hsteady : ∀ p, Path.parse path = .ok p → Segment.Steady p.segments)
    (hvalue : (source.resolve docs).2 = .ok (some v))
    (hok : (applyAll [{ source := some source, targets := some [t] }] docs).failure = none) :
    let after := (applyAll [{ source := some source, targets := some [t] }] docs).state.docs
    after.length = docs.length ∧
      ∀ (i : Nat) (doc : Node), docs[i]? = some doc →
        ∃ doc', after[i]? = some doc' ∧
          (t.accepts select (.of doc) = false → doc' = doc) ∧
          (t.accepts select (.of doc) = true →
            ∃ p, Path.parse path = .ok p ∧
              (t.HasPlace v p doc → doc'.lookup p = .ok (some v)) ∧
              (t.creates = false → doc.lookup p = .ok none → doc' = doc)) := by
  intro after
  rw [applyAll_singleton] at hok
  -- what the rule copied is the value that the documents had before it
  obtain ⟨select', value, hselect', hvalue', hcopies⟩ := copies_of_apply ht hok
  obtain rfl : select = select' := Option.some.inj (hselect.symm.trans hselect')
  obtain rfl : some v = value := Except.ok.inj (hvalue.symm.trans hvalue')
  have hafter : after = docs.map fun doc => (t.copyTo select (some v) doc).item := by
    simp only [after, applyAll_singleton, apply_copy ht hselect hvalue hcopies]
  refine ⟨by simp [hafter], fun i doc hdoc => ?_⟩
  refine ⟨(t.copyTo select (some v) doc).item, by simp [hafter, hdoc], fun hacc => ?_,
    fun hacc => ?_⟩
  · rw [Target.copyTo_of_not_accepts hacc]
  · have hdocok := hcopies doc (List.mem_of_getElem? hdoc)
    obtain ⟨p, hp⟩ := Target.exists_parse_of_copyTo hpaths hacc hdocok
    exact ⟨p, hp, Target.lookup_copyTo ht hpaths hacc hp (hsteady p hp),
      fun hcreates habsent => Target.copyTo_of_absent ht hpaths hacc hp hcreates habsent v⟩

/-- Every document gets the image, the config map that names it among them. There the
place is created; in the deployment it is the second element, which matches. -/
theorem copy_effect_images :
    let target : Target := { select := some {}, fieldPaths := ["spec.images.[name=app].image"]
                             options := some { create := true } }
    let docs := [Sample.configMap,
      Sample.deployment [.null, .mapping [("name", .string "app"), ("image", .null)]]]
    let after :=
      (applyAll [{ source := some Sample.image, targets := some [target] }] docs).state.docs
    ∃ p, Path.parse "spec.images.[name=app].image" = .ok p ∧
      (∃ doc, after[0]? = some doc ∧ doc.lookup p = .ok (some (.string "app:2"))) ∧
      ∃ doc, after[1]? = some doc ∧ doc.lookup p = .ok (some (.string "app:2")) := by
  intro target docs after
  have hparse : Path.parse "spec.images.[name=app].image" = .ok ⟨"spec.images.[name=app].image",
      [.field "spec", .field "images", .matcher "name" "app", .field "image"]⟩ := rfl
  have hsteady : ∀ p, Path.parse "spec.images.[name=app].image" = .ok p →
      Segment.Steady p.segments := by
    intro p hp
    obtain rfl := Except.ok.inj (hparse.symm.trans hp)
    decide
  have hvalue : (Sample.image.resolve docs).2 = .ok (some (.string "app:2")) := rfl
  have hok : (applyAll [{ source := some Sample.image, targets := some [target] }] docs).failure
      = none := by decide
  have hcopies : target.Copies := by decide
  have h := (copy_effect rfl hcopies rfl hsteady hvalue hok).2
  refine ⟨_, hparse, ?_, ?_⟩
  · obtain ⟨doc, hdoc, -, hplace⟩ := h 0 _ rfl
    obtain ⟨p, hp, hfound, -⟩ := hplace (by decide)
    obtain rfl := Except.ok.inj (hparse.symm.trans hp)
    exact ⟨doc, hdoc, hfound (.inr ⟨rfl, _, rfl⟩)⟩
  · obtain ⟨doc, hdoc, -, hplace⟩ := h 1 _ rfl
    obtain ⟨p, hp, hfound, -⟩ := hplace (by decide)
    obtain rfl := Except.ok.inj (hparse.symm.trans hp)
    exact ⟨doc, hdoc, hfound (.inl ⟨_, rfl⟩)⟩

/-- **Applying a copying rule again.** If the document of the source is no target
and the path consists of fields and does not start at a root field, then the rule as
it was left succeeds once more and leaves the documents as they are. -/
theorem applyAll_again {docs : List Node} {source : Source} {t : Target} {path : String}
    (ht : t.Copies) (hpaths : t.fieldPaths = [path])
    (hpath : ∀ p, Path.parse path = .ok p → (∀ s ∈ p.segments, ∃ name, s = .field name) ∧
      ∃ name, p.segments.head? = some (.field name) ∧ name ∉ Identity.rootFields)
    (hsource : ∀ doc, source.pattern.select docs = .ok doc → t.Skips doc)
    (hok : (applyAll [{ source := some source, targets := some [t] }] docs).failure = none) :
    let first := applyAll [{ source := some source, targets := some [t] }] docs
    let second := applyAll first.items first.state.docs
    second.failure = none ∧ second.state.docs = first.state.docs := by
  rw [applyAll_singleton] at hok
  obtain ⟨select, value, hselect, hvalue, hcopies⟩ := copies_of_apply ht hok
  have hcopy := Target.copyTo_copyTo ht hpaths
    (fun p hp => ⟨Segment.steady_of_forall_field (hpath p hp).1, (hpath p hp).2⟩) select value
  -- the source of the second pass is the same document, unchanged, so it has the same value
  obtain ⟨doc, hdoc, hin⟩ := Source.select_of_resolve hvalue
  have hstays : (t.copyTo select value doc).item = doc := by
    rw [Target.copyTo_of_not_accepts (hsource doc hdoc select hselect)]
  have hdoc' : source.withDefaultPath.pattern.select
      (docs.map fun doc => (t.copyTo select value doc).item) = .ok doc := by
    rw [Source.pattern_withDefaultPath, Pattern.select_map fun d _ => (hcopy d).1, hdoc]
    simp [Except.map, hstays]
  have hvalue' : (source.withDefaultPath.resolve
      (docs.map fun doc => (t.copyTo select value doc).item)).2 = .ok value := by
    rw [Source.resolve_of_select hdoc', Source.withDefaultPath_withDefaultPath]
    exact hin
  have hcopies' : ∀ d ∈ docs.map fun doc => (t.copyTo select value doc).item,
      (t.copyTo select value d).failure = none := by
    intro d hd
    obtain ⟨d, hmem, rfl⟩ := List.mem_map.mp hd
    rw [(hcopy d).2]
    exact hcopies d hmem
  have htarget : t.withDefaultPaths = t := Target.withDefaultPaths_of_ne (by simp [hpaths])
  simp only [applyAll_singleton, apply_copy ht hselect hvalue hcopies, htarget]
  rw [apply_copy (s := { docs := docs.map fun doc => (t.copyTo select value doc).item })
    ht hselect hvalue' hcopies']
  simp only [List.map_map, Function.comp_def, (hcopy _).2, and_self]

/-- Of two deployments one gets the image as its second, and the other only an empty
list, because the position behind a gap is not created. Neither changes again. -/
theorem applyAll_again_images :
    let target : Target := { select := some (.ofKind "Deployment"), fieldPaths := ["spec.images.1"]
                             options := some { create := true } }
    let docs := [Sample.configMap, Sample.deployment [.string "app:1"],
      .mapping [("kind", .string "Deployment"), ("spec", .null)]]
    let first := applyAll [{ source := some Sample.image, targets := some [target] }] docs
    let second := applyAll first.items first.state.docs
    second.failure = none ∧ second.state.docs = first.state.docs := by
  intro target docs first second
  have hparse : Path.parse "spec.images.1" =
      .ok ⟨"spec.images.1", [.field "spec", .field "images", .field "1"]⟩ := rfl
  have hok : first.failure = none := by decide
  have hcopies : target.Copies := by decide
  refine applyAll_again hcopies rfl (fun p hp => ?_) (fun doc hdoc => ?_) hok
  · obtain rfl := Except.ok.inj (hparse.symm.trans hp)
    exact ⟨by simp, "spec", rfl, by decide⟩
  · obtain rfl := Except.ok.inj ((rfl : _ = Except.ok Sample.configMap).symm.trans hdoc)
    decide

end Rule
end Graft
