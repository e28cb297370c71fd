import Graft.Rule.Source

/-!
# Graft.Proofs.Rule.Source

What the choice of the source document depends on.

The documents are searched up to the second match, and what the search answers is a
matter of all that match (`Pattern.selectFrom_eq`): of their number
(`Pattern.select_cases`), hence of the identities of the documents, and not of their
order (`Pattern.select_perm`) nor of anything else in them (`Pattern.select_map`).
-/

namespace Graft

/-- A search answers for the document found before it and for all further matches, also
for those behind the one that ends it. -/
theorem Pattern.selectFrom_eq (p : Pattern) (found : Option Node) (docs : List Node) :
    p.selectFrom found docs =
      match found.toList ++ docs.filter p.selects with
      | [] => .error (.noSource p)
      | [doc] => .ok doc
      | _ => .error (.ambiguousSource p) := by
  induction docs generalizing found with
  | nil => cases found <;> rfl
  | cons doc r ih =>
      simp only [selectFrom, List.filter_cons]
      cases p.selects doc with
      | false => exact ih found
      | true =>
          cases found with
          | none => exact ih (some doc)
          | some first => rfl

theorem Pattern.select_eq (p : Pattern) (docs : List Node) :
    p.select docs =
      match docs.filter p.selects with
      | [] => .error (.noSource p)
      | [doc] => .ok doc
      | _ => .error (.ambiguousSource p) :=
  p.selectFrom_eq none docs

/-- The choice fails without a match and with two or more, and is the match
otherwise. -/
theorem Pattern.select_cases (p : Pattern) (docs : List Node) :
    docs.countP p.selects = 0 ∧ p.select docs = .error (.noSource p) ∨
      (∃ doc ∈ docs, p.selects doc = true ∧ docs.countP p.selects = 1 ∧ p.select docs = .ok doc) ∨
      2 ≤ docs.countP p.selects ∧ p.select docs = .error (.ambiguousSource p) := by
  rw [List.countP_eq_length_filter, select_eq]
  cases hd : docs.filter p.selects with
  | nil => exact .inl ⟨rfl, rfl⟩
  | cons a r =>
      cases r with
      | nil =>
          have ha : a ∈ docs.filter p.selects := by simp [hd]
          obtain ⟨hmem, hmatch⟩ := List.mem_filter.mp ha
          exact .inr (.inl ⟨a, hmem, hmatch, rfl, rfl⟩)
      | cons b r => exact .inr (.inr ⟨by simp, rfl⟩)

theorem Pattern.mem_of_select {p : Pattern} {docs : List Node} {doc : Node}
    (h : p.select docs = .ok doc) : doc ∈ docs := by
  rcases p.select_cases docs with ⟨-, herror⟩ | ⟨d, hmem, -, -, hd⟩ | ⟨-, herror⟩
  · rw [herror] at h; cases h
  · rw [hd] at h
    exact Except.ok.inj h ▸ hmem
  · rw [herror] at h; cases h

/-- The documents in another order give the same source, or fail alike. -/
theorem Pattern.select_perm {docs docs' : List Node} (h : docs'.Perm docs) (p : Pattern) :
    p.select docs' = p.select docs := by
  -- whether none, one or more are selected is a matter of their number
  have hfilter : (docs'.filter p.selects).Perm (docs.filter p.selects) := h.filter _
  rw [select_eq, select_eq]
  cases hd : docs.filter p.selects with
  | nil =>
      rw [hd] at hfilter
      rw [hfilter.eq_nil]
  | cons a r =>
      rw [hd] at hfilter
      cases r with
      | nil => rw [hfilter.eq_singleton]
      | cons b r =>
          match hd' : docs'.filter p.selects, hfilter.length_eq with
          | _ :: _ :: _, _ => rfl

/-- Changes to the documents that keep who they are change the source with its
document, and nothing else. -/
theorem Pattern.select_map {docs : List Node} {g : Node → Node}
    (h : ∀ doc ∈ docs, Identity.of (g doc) = Identity.of doc) (p : Pattern) :
    p.select (docs.map g) = (p.select docs).map g := by
  have hfilter : (docs.map g).filter p.selects = (docs.filter p.selects).map g := by
    rw [List.filter_map]
    congr 1
    refine List.filter_congr fun doc hdoc => ?_
    simp only [Function.comp_apply, selects, h doc hdoc]
  rw [select_eq, select_eq, hfilter]
  match docs.filter p.selects with
  | [] => rfl
  | [_] => rfl
  | _ :: _ :: _ => rfl

namespace Source

/-- A field that was left to the default is named only once. -/
@[simp] theorem withDefaultPath_withDefaultPath (s : Source) :
    s.withDefaultPath.withDefaultPath = s.withDefaultPath := by
  by_cases h : s.fieldPath = ""
  · simp [withDefaultPath, h, defaultFieldPath]
  · simp [withDefaultPath, h]

@[simp] theorem pattern_withDefaultPath (s : Source) :
    s.withDefaultPath.pattern = s.pattern := by
  unfold withDefaultPath
  split <;> rfl

@[simp] theorem options_withDefaultPath (s : Source) :
    s.withDefaultPath.options = s.options := by
  unfold withDefaultPath
  split <;> rfl

theorem resolve_of_select {source : Source} {docs : List Node} {doc : Node}
    (h : source.pattern.select docs = .ok doc) :
    source.resolve docs = (source.withDefaultPath, source.withDefaultPath.valueIn doc) := by
  simp [resolve, h]

/-- A source that has a value has its document. -/
theorem select_of_resolve {source : Source} {docs : List Node} {value : Option Node}
    (h : (source.resolve docs).2 = .ok value) :
    ∃ doc, source.pattern.select docs = .ok doc ∧
      source.withDefaultPath.valueIn doc = .ok value := by
  unfold resolve at h
  cases hd : source.pattern.select docs with
  | error e => rw [hd] at h; cases h
  | ok doc => rw [hd] at h; exact ⟨doc, rfl, h⟩

theorem resolve_fst {source : Source} {docs : List Node} {value : Option Node}
    (h : (source.resolve docs).2 = .ok value) :
    (source.resolve docs).1 = source.withDefaultPath := by
  obtain ⟨doc, hdoc, -⟩ := select_of_resolve h
  rw [resolve_of_select hdoc]

end Source
end Graft
