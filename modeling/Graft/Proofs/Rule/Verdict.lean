import Graft.Proofs.Rule.Frame
import Graft.Proofs.Rule.Source
import Graft.Proofs.Rule.Splice

/-!
# Graft.Proofs.Rule.Verdict

What becomes of a rule that has no value to write.

`Source.Refused` says when a source is refused and why, in terms of the documents:
how many of them its pattern matches, whether its path is well-formed, what stands
in the way of it, and which pieces the text at its end has. These conditions exclude
each other, and one of them holds exactly when the engine fails to read a value
(`Source.refused_iff`). They say nothing of targets, so the verdict is the same
whatever the targets are, and it falls before anything is written.

A source whose field is absent is not refused (`Source.Absent`). The targets are
still walked through, but only asked whether they say what they select.

`Rule.applyAll_without_value` puts this in the middle of a pass.
-/

namespace Graft

namespace Source

/-- The path of a source, the default if it has none of its own. -/
def path (s : Source) : String := s.withDefaultPath.fieldPath

/-- The one document that a source selects, and its path. -/
structure Reads (s : Source) (docs : List Node) (doc : Node) (p : Path) : Prop where
  unique : docs.countP s.pattern.selects = 1
  mem : doc ∈ docs
  selects : s.pattern.selects doc = true
  parse : Path.parse s.path = .ok p

/-- Why a source is refused. -/
inductive Refused (s : Source) (docs : List Node) : Failure → Prop where
  | noSource (h : docs.countP s.pattern.selects = 0) : Refused s docs (.noSource s.pattern)
  | ambiguous (h : 2 ≤ docs.countP s.pattern.selects) :
      Refused s docs (.ambiguousSource s.pattern)
  | malformed {e : PathError} (h : docs.countP s.pattern.selects = 1)
      (hparse : Path.parse s.path = .error e) : Refused s docs (.path e)
  | obstructed {doc : Node} {p : Path} {e : PathError} (h : s.Reads docs doc p)
      (hlookup : doc.lookup p = .error e) : Refused s docs (.path e)
  | notText {doc value : Node} {p : Path} {o : FieldOptions} (h : s.Reads docs doc p)
      (hlookup : doc.lookup p = .ok (some value)) (hvalue : value.isNilOrEmpty = false)
      (hsplit : FieldOptions.splitting s.options = some o) (htext : value.text? = none) :
      Refused s docs (.notText value.kind)
  | noPiece {doc value : Node} {p : Path} {o : FieldOptions} {text : String}
      (h : s.Reads docs doc p) (hlookup : doc.lookup p = .ok (some value))
      (hvalue : value.isNilOrEmpty = false) (hsplit : FieldOptions.splitting s.options = some o)
      (htext : value.text? = some text)
      (hindex : o.index < 0 ∨ (Text.cut o.delimiter.toList text.toList).length ≤ o.index) :
      Refused s docs (.noPiece o.index text)

/-- A source whose field is absent from its document. -/
def Absent (s : Source) (docs : List Node) : Prop :=
  ∃ doc p, s.Reads docs doc p ∧ doc.lookup p = .ok none

variable {s : Source} {docs : List Node}

theorem select_of_reads {doc : Node} {p : Path} (h : s.Reads docs doc p) :
    s.pattern.select docs = .ok doc := by
  rcases s.pattern.select_cases docs with ⟨hnone, -⟩ | ⟨d, hd, hselects, -, hok⟩ | ⟨hmany, -⟩
  · rw [h.unique] at hnone; omega
  · -- both are the one document that matches
    obtain ⟨a, ha⟩ := List.length_eq_one_iff.mp
      ((List.countP_eq_length_filter).symm.trans h.unique)
    have hdoc : doc ∈ docs.filter s.pattern.selects := List.mem_filter.mpr ⟨h.mem, h.selects⟩
    have hd : d ∈ docs.filter s.pattern.selects := List.mem_filter.mpr ⟨hd, hselects⟩
    rw [ha, List.mem_singleton] at hdoc hd
    rw [hok, hd, hdoc]
  · rw [h.unique] at hmany; omega

/-- Of the one document and its path, the value is looked up and refined. -/
theorem resolve_of_reads {doc : Node} {p : Path} (h : s.Reads docs doc p) :
    (s.resolve docs).2 =
      match doc.lookup p with
      | .error e => .error (.path e)
      | .ok none => .ok none
      | .ok (some value) =>
        if value.isNilOrEmpty then .ok (some value) else (value.refine s.options).map some := by
  have hparse : Path.parse s.withDefaultPath.fieldPath = .ok p := h.parse
  rw [resolve_of_select (select_of_reads h)]
  cases hlookup : doc.lookup p with
  | error e => simp only [valueIn, hparse, hlookup]
  | ok value? =>
      cases value? with
      | none => simp only [valueIn, hparse, hlookup]
      | some value => simp only [valueIn, hparse, hlookup, options_withDefaultPath]

theorem refused_of_refine {doc value : Node} {p : Path} (h : s.Reads docs doc p)
    (hlookup : doc.lookup p = .ok (some value)) (hvalue : value.isNilOrEmpty = false) {e : Failure}
    (hrefine : value.refine s.options = .error e) : s.Refused docs e := by
  cases hsplit : FieldOptions.splitting s.options with
  | none =>
      rw [Node.refine_of_splitting_eq_none hsplit] at hrefine
      cases hrefine
  | some o =>
      cases htext : value.text? with
      | none =>
          rw [Node.refine_of_text?_eq_none hsplit htext] at hrefine
          obtain rfl := Except.error.inj hrefine
          exact .notText h hlookup hvalue hsplit htext
      | some text =>
          cases hpiece : pieceAt? o.index (Text.cut o.delimiter.toList text.toList) with
          | some piece => simp [Node.refine, hsplit, htext, hpiece] at hrefine
          | none =>
              have hindex := pieceAt?_eq_none_iff.mp hpiece
              rw [Node.refine_of_outside hsplit htext hindex] at hrefine
              obtain rfl := Except.error.inj hrefine
              exact .noPiece h hlookup hvalue hsplit htext hindex

theorem resolve_of_noSource (h : docs.countP s.pattern.selects = 0) :
    (s.resolve docs).2 = .error (.noSource s.pattern) := by
  rcases s.pattern.select_cases docs with ⟨-, herror⟩ | ⟨d, -, -, hone, -⟩ | ⟨hmany, -⟩
  · simp only [resolve, herror]
  · omega
  · omega

theorem resolve_of_ambiguous (h : 2 ≤ docs.countP s.pattern.selects) :
    (s.resolve docs).2 = .error (.ambiguousSource s.pattern) := by
  rcases s.pattern.select_cases docs with ⟨hnone, -⟩ | ⟨d, -, -, hone, -⟩ | ⟨-, herror⟩
  · omega
  · omega
  · simp only [resolve, herror]

theorem resolve_of_malformed {e : PathError} (h : docs.countP s.pattern.selects = 1)
    (hparse : Path.parse s.path = .error e) : (s.resolve docs).2 = .error (.path e) := by
  have hparse : Path.parse s.withDefaultPath.fieldPath = .error e := hparse
  rcases s.pattern.select_cases docs with ⟨hnone, -⟩ | ⟨d, -, -, -, hok⟩ | ⟨hmany, -⟩
  · omega
  · simp only [resolve_of_select hok, valueIn, hparse]
  · omega

/-- A source that has no one document or no path is refused before any value is looked
up. -/
theorem reads_or_refused (s : Source) (docs : List Node) :
    (∃ doc p, s.Reads docs doc p) ∨ ∃ e, s.Refused docs e ∧ (s.resolve docs).2 = .error e := by
  rcases s.pattern.select_cases docs with ⟨hnone, -⟩ | ⟨doc, hdoc, hselects, hone, -⟩ |
    ⟨hmany, -⟩
  · exact .inr ⟨_, .noSource hnone, resolve_of_noSource hnone⟩
  · cases hparse : Path.parse s.path with
    | error e => exact .inr ⟨_, .malformed hone hparse, resolve_of_malformed hone hparse⟩
    | ok p => exact .inl ⟨doc, p, hone, hdoc, hselects, hparse⟩
  · exact .inr ⟨_, .ambiguous hmany, resolve_of_ambiguous hmany⟩

theorem refused_of_reads {doc : Node} {p : Path} (h : s.Reads docs doc p) {e : Failure}
    (herror : (s.resolve docs).2 = .error e) : s.Refused docs e := by
  rw [resolve_of_reads h] at herror
  cases hlookup : doc.lookup p with
  | error e' =>
      simp only [hlookup, Except.error.injEq] at herror
      exact herror ▸ .obstructed h hlookup
  | ok value? =>
      cases value? with
      | none => simp [hlookup] at herror
      | some value =>
          cases hvalue : value.isNilOrEmpty with
          | true => simp [hlookup, hvalue] at herror
          | false =>
              cases hrefine : value.refine s.options with
              | ok v => simp [hlookup, hvalue, hrefine, Except.map] at herror
              | error e' =>
                  obtain rfl : e' = e := by
                    simpa [hlookup, hvalue, hrefine, Except.map] using herror
                  exact refused_of_refine h hlookup hvalue hrefine

/-- The engine fails to read a value exactly where the source is refused, and for the
same reason. -/
theorem refused_iff {e : Failure} : s.Refused docs e ↔ (s.resolve docs).2 = .error e := by
  constructor
  · intro h
    cases h with
    | noSource h => exact resolve_of_noSource h
    | ambiguous h => exact resolve_of_ambiguous h
    | malformed h hparse => exact resolve_of_malformed h hparse
    | obstructed h hlookup => rw [resolve_of_reads h, hlookup]
    | notText h hlookup hvalue hsplit htext =>
        rw [resolve_of_reads h, hlookup]
        simp [hvalue, Node.refine_of_text?_eq_none hsplit htext, Except.map]
    | noPiece h hlookup hvalue hsplit htext hindex =>
        rw [resolve_of_reads h, hlookup]
        simp [hvalue, Node.refine_of_outside hsplit htext hindex, Except.map]
  · intro h
    rcases reads_or_refused s docs with ⟨doc, p, hreads⟩ | ⟨e', hrefused, herror⟩
    · exact refused_of_reads hreads h
    · obtain rfl : e' = e := by simpa [herror] using h
      exact hrefused

theorem absent_iff : s.Absent docs ↔ (s.resolve docs).2 = .ok none := by
  constructor
  · rintro ⟨doc, p, hreads, hlookup⟩
    rw [resolve_of_reads hreads, hlookup]
  · intro h
    rcases reads_or_refused s docs with ⟨doc, p, hreads⟩ | ⟨e, -, herror⟩
    · refine ⟨doc, p, hreads, ?_⟩
      rw [resolve_of_reads hreads] at h
      split at h
      · cases h
      · assumption
      · -- a field that is there has a value, refined or not
        next value hlookup =>
          split at h
          · cases h
          · cases hrefine : value.refine s.options <;> simp [hrefine, Except.map] at h
    · rw [herror] at h; cases h

end Source

/-! ### One rule -/

namespace Target

/-- Without a value the targets are only asked what they select. -/
theorem write_of_absent {w : Writing} (hw : w.value = none) (t : Target) :
    (write w t).state = w ∧
      (write w t).failure = if t.select = none then some .missingSelect else none := by
  cases hselect : t.select with
  | none =>
      rw [write_of_select_none hselect]
      exact ⟨rfl, rfl⟩
  | some select =>
      rw [write_of_value_none hselect hw]
      exact ⟨rfl, rfl⟩

theorem writeAll_of_absent {w : Writing} (hw : w.value = none) (targets : List Target) :
    (writeAll targets w).state = w ∧
      (writeAll targets w).failure =
        if ∃ t ∈ targets, t.select = none then some .missingSelect else none := by
  unfold writeAll
  induction targets with
  | nil => simp
  | cons t r ih =>
      obtain ⟨hstate, hfailure⟩ := write_of_absent hw t
      rw [Sweep.run_cons, hfailure, hstate]
      by_cases hselect : t.select = none
      · simp [hselect]
      · simp only [hselect, if_false, Sweep.behind_state, Sweep.behind_failure]
        simpa [hselect] using ih

end Target

namespace Rule

/-- Why a rule fails before anything is written. -/
inductive Refused (r : Rule) (docs : List Node) : Failure → Prop where
  | incomplete (h : r.source = none ∨ r.targets = none) : Refused r docs .incompleteRule
  | source {s : Source} {e : Failure} (hsource : r.source = some s) (htargets : r.targets.isSome)
      (h : s.Refused docs e) : Refused r docs e

/-- The verdict does not look into the targets. -/
theorem Refused.targets {r : Rule} {docs : List Node} {e : Failure} (h : r.Refused docs e)
    (htargets : r.targets.isSome) (targets : List Target) :
    Refused { r with targets := some targets } docs e := by
  cases h with
  | incomplete h =>
      rcases h with hsource | hnone
      · exact .incomplete (.inl hsource)
      · rw [hnone] at htargets; cases htargets
  | source hsource _ h => exact .source hsource rfl h

theorem apply_of_refused {r : Rule} {s : PassState} {e : Failure} (h : r.Refused s.docs e) :
    (apply s r).failure = some e ∧ (apply s r).state.docs = s.docs ∧
      (apply s r).item.targets = r.targets := by
  cases h with
  | incomplete h =>
      rw [apply_of_incomplete h]
      exact ⟨rfl, rfl, rfl⟩
  | @source source e hsource htargets h =>
      obtain ⟨source?, targets?⟩ := r
      obtain rfl : source? = some source := hsource
      obtain ⟨targets, rfl⟩ := Option.isSome_iff_exists.mp htargets
      rw [apply_of_error (Source.refused_iff.mp h)]
      exact ⟨rfl, rfl, rfl⟩

theorem apply_of_absent {r : Rule} {s : PassState} {source : Source} {targets : List Target}
    (hsource : r.source = some source) (htargets : r.targets = some targets)
    (h : source.Absent s.docs) :
    (apply s r).state.docs = s.docs ∧
      (apply s r).failure =
        if ∃ t ∈ targets, t.select = none then some .missingSelect else none := by
  obtain ⟨source?, targets?⟩ := r
  obtain rfl : source? = some source := hsource
  obtain rfl : targets? = some targets := htargets
  obtain ⟨hstate, hfailure⟩ :=
    Target.writeAll_of_absent (w := ⟨s.docs, none, s.tally.fields⟩) rfl targets
  rw [apply_of_value (Source.absent_iff.mp h), hstate]
  exact ⟨PassState.docs_settle _ _, hfailure⟩

/-! ### A rule in a pass -/

variable {rules : List Rule} {docs : List Node} {k : Nat} {r : Rule}

/-- A pass that comes to a refused rule ends there. -/
theorem applyAll_of_refused (hr : rules[k]? = some r)
    (hok : (applyAll (rules.take k) docs).failure = none) {e : Failure}
    (h : r.Refused (applyAll (rules.take k) docs).state.docs e) :
    (applyAll rules docs).failure = some e ∧
      (applyAll rules docs).state.docs = (applyAll (rules.take k) docs).state.docs ∧
      (applyAll rules docs).items[k]?.map Rule.targets = some r.targets ∧
      (applyAll rules docs).items.drop (k + 1) = rules.drop (k + 1) := by
  obtain ⟨hfail, hstate, htargets⟩ := apply_of_refused h
  obtain ⟨hfailure, hlast, hitem, hrest⟩ := Sweep.run_of_failure hr hok hfail
  refine ⟨hfailure, ?_, ?_, hrest⟩
  · rw [applyAll, hlast]
    exact hstate
  · rw [applyAll, hitem]
    exact congrArg some htargets

/-- **A rule without a value writes nothing.** Let the rules before a rule succeed.

If the rule is refused, the pass fails for this reason, the documents are those that
the earlier rules left, and neither the targets of the rule nor the rules behind it
are touched; with other targets it fails for the same reason.

If the field of its source is absent, the rule does not change the documents
either. It fails exactly if some target does not say what it selects, and then the
pass ends there. -/
theorem applyAll_without_value (hr : rules[k]? = some r)
    (hok : (applyAll (rules.take k) docs).failure = none) :
    let before := (applyAll (rules.take k) docs).state.docs
    (∀ e, r.Refused before e →
      (applyAll rules docs).failure = some e ∧ (applyAll rules docs).state.docs = before ∧
      (applyAll rules docs).items[k]?.map Rule.targets = some r.targets ∧
      (applyAll rules docs).items.drop (k + 1) = rules.drop (k + 1) ∧
      (r.targets.isSome → ∀ targets,
        let others := rules.set k { r with targets := some targets }
        (applyAll others docs).failure = some e ∧ (applyAll others docs).state.docs = before)) ∧
    ∀ source targets, r.source = some source → r.targets = some targets → source.Absent before →
      (applyAll (rules.take (k + 1)) docs).state.docs = before ∧
      (applyAll (rules.take (k + 1)) docs).failure =
        (if ∃ t ∈ targets, t.select = none then some .missingSelect else none) ∧
      ((∃ t ∈ targets, t.select = none) →
        (applyAll rules docs).failure = some .missingSelect ∧
        (applyAll rules docs).state.docs = before ∧
        (applyAll rules docs).items.drop (k + 1) = rules.drop (k + 1)) := by
  intro before
  have hk : k < rules.length := (List.getElem?_eq_some_iff.mp hr).1
  constructor
  · intro e he
    obtain ⟨hfailure, hdocs, htargets, hrest⟩ := applyAll_of_refused hr hok he
    refine ⟨hfailure, hdocs, htargets, hrest, ?_⟩
    intro hsome targets others
    -- the rules before it are the same, so it meets the same documents
    have hfirst : others.take k = rules.take k := List.take_set_of_le (Nat.le_refl k)
    have hother : others[k]? = some { r with targets := some targets } :=
      List.getElem?_set_self hk
    rw [← hfirst] at hok
    obtain ⟨hfailure', hdocs', -⟩ := applyAll_of_refused hother hok
      (by rw [hfirst]; exact he.targets hsome targets)
    rw [hfirst] at hdocs'
    exact ⟨hfailure', hdocs'⟩
  · intro source targets hsource htargets habsent
    obtain ⟨hstep, hfail⟩ := apply_of_absent hsource htargets habsent
    refine ⟨?_, ?_, ?_⟩
    · rw [applyAll, Sweep.run_take_succ hr hok, Sweep.run_singleton]
      exact hstep
    · rw [applyAll, Sweep.run_take_succ hr hok, Sweep.run_singleton]
      exact hfail
    · intro hselect
      rw [if_pos hselect] at hfail
      obtain ⟨hfailure, hlast, -, hrest⟩ := Sweep.run_of_failure hr hok hfail
      refine ⟨hfailure, ?_, hrest⟩
      rw [applyAll, hlast]
      exact hstep

/-- After the image is copied, a rule whose field is absent leaves it at that, and so
does one whose document is missing, with which the pass fails. -/
theorem applyAll_without_value_missing :
    let target : Target :=
      { select := some (.ofKind "Deployment"), fieldPaths := ["spec.images.0"]
        options := some { create := true } }
    let rules : List Rule :=
      [{ source := some Sample.image, targets := some [target] },
        { source := some { Sample.image with fieldPath := "data.tag" }, targets := some [target] },
        { source := some { pattern := .ofKind "Secret" }, targets := some [target, {}] }]
    let docs := [Sample.configMap, Sample.deployment []]
    (applyAll rules docs).failure = some (.noSource (.ofKind "Secret")) ∧
      (applyAll rules docs).state.docs = (applyAll (rules.take 2) docs).state.docs ∧
      (applyAll (rules.take 2) docs).state.docs = (applyAll (rules.take 1) docs).state.docs := by
  intro target rules docs
  have hcopied : (applyAll (rules.take 1) docs).state.docs =
      [Sample.configMap, Sample.deployment [.string "app:2"]] := rfl
  have habsent : Source.Absent { Sample.image with fieldPath := "data.tag" }
      (applyAll (rules.take 1) docs).state.docs := by
    rw [hcopied]
    exact ⟨Sample.configMap, ⟨"data.tag", [.field "data", .field "tag"]⟩,
      ⟨by decide, List.mem_cons_self, by decide, by rfl⟩, rfl⟩
  have hsecond := (@applyAll_without_value rules docs 1 _ rfl (by decide)).2 _ _ rfl rfl habsent
  have hthird := (@applyAll_without_value rules docs 2 _ rfl (by decide)).1 _
    (.source rfl rfl (.noSource (by decide)))
  exact ⟨hthird.1, hthird.2.1, hsecond.1⟩

end Rule
end Graft
