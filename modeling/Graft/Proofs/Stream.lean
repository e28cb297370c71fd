import Mathlib.Algebra.GroupWithZero.Nat
import Mathlib.Data.List.Induction
import Graft.Proofs.Node.Tree
import Graft.Stream

/-!
# Graft.Proofs.Stream

Streams are accepted exactly within their limits (`Stream.ofDocuments_within`).

The nodes of a tree are the places that are reached by going from child to child, and
`Node.count` counts each of them once (`Node.exists_places`). Counting only as far as a limit,
onto what was counted before, ends at the limit or at the whole count, whichever is less
(`Node.countUpTo_eq`). So the early exits do not change which documents are refused
(`Node.reaches_eq`).

A stream is refused for the first document that offends (`Stream.offence?`). Positions are those
in the stream, with the documents that are passed over counted in.
-/

namespace Graft

namespace Node

/-! ### Children -/

/-- The children of a node, in order. -/
def children : Node → List Node
  | .mapping entries => entries.map (·.2)
  | .sequence items => items
  | _ => []

/-- Induction over trees where it does not matter of what kind a container is. -/
@[elab_as_elim]
theorem childrenInduction {motive : Node → Prop}
    (step : ∀ n, (∀ c ∈ n.children, motive c) → motive n) (n : Node) : motive n := by
  induction n using treeInduction with
  | null => exact step _ (by simp [children])
  | scalar tag text => exact step _ (by simp [children])
  | mapping entries ih =>
      refine step _ fun c hc => ?_
      obtain ⟨e, he, rfl⟩ := List.mem_map.mp hc
      exact ih e he
  | sequence items ih => exact step _ ih

/-! ### Counting -/

theorem countItems_eq (k : Nat) (items : List Node) :
    countItems k items = k + (items.map count).sum := by
  induction items generalizing k with
  | nil => rfl
  | cons v r ih => rw [countItems, ih, List.map_cons, List.sum_cons, Nat.add_assoc]

theorem countEntries_eq (k : Nat) (entries : Entries Node) :
    countEntries k entries = countItems k (entries.map (·.2)) := by
  induction entries generalizing k with
  | nil => rfl
  | cons e r ih => rw [countEntries, ih, List.map_cons, countItems]

/-- A tree has its root and the nodes of its children. -/
theorem count_eq (n : Node) : n.count = 1 + (n.children.map count).sum := by
  cases n with
  | null => rfl
  | scalar tag text => rfl
  | mapping entries => rw [count, countEntries_eq, countItems_eq]; rfl
  | sequence items => rw [count, countItems_eq]; rfl

theorem countEntriesUpTo_eq (limit seen : Nat) (entries : Entries Node) :
    countEntriesUpTo limit seen entries = countItemsUpTo limit seen (entries.map (·.2)) := by
  induction entries generalizing seen with
  | nil => rfl
  | cons e r ih => simp only [countEntriesUpTo, List.map_cons, countItemsUpTo, ih]

theorem countUpTo_cases (limit seen : Nat) (n : Node) :
    countUpTo limit seen n =
      if limit ≤ seen then seen else countItemsUpTo limit (seen + 1) n.children := by
  cases n with
  | null => rfl
  | scalar tag text => rfl
  | mapping entries => rw [countUpTo, countEntriesUpTo_eq]; rfl
  | sequence items => rfl

/-- Counting items up to a limit, if this is right for each of them. -/
theorem countItemsUpTo_eq {limit : Nat} {items : List Node}
    (h : ∀ v ∈ items, ∀ seen, countUpTo limit seen v = max seen (min (seen + v.count) limit))
    (seen : Nat) :
    countItemsUpTo limit seen items = max seen (min (seen + (items.map count).sum) limit) := by
  induction items generalizing seen with
  | nil =>
      simp only [countItemsUpTo, List.map_nil, List.sum_nil]
      omega
  | cons v r ih =>
      obtain ⟨hv, hr⟩ := List.forall_mem_cons.mp h
      simp only [countItemsUpTo, ih hr, hv, List.map_cons, List.sum_cons]
      split <;> omega

/-- A count that goes on from `seen` stops at the limit, unless the whole count is below it. -/
theorem countUpTo_eq (limit seen : Nat) (n : Node) :
    countUpTo limit seen n = max seen (min (seen + n.count) limit) := by
  induction n using childrenInduction generalizing seen with
  | step n ih =>
      rw [countUpTo_cases, countItemsUpTo_eq ih, count_eq]
      split <;> omega

/-- Counting up to the limit finds out whether the whole count reaches it. -/
theorem reaches_eq (limit : Nat) (n : Node) : n.reaches limit = decide (limit ≤ n.count) := by
  rw [reaches, countUpTo_eq]
  exact decide_eq_decide.mpr (by omega)

/-- A sequence of null and an empty sequence has three nodes. -/
example : (Node.sequence [.null, .sequence []]).reaches 3 = true ∧
    (Node.sequence [.null, .sequence []]).reaches 4 = false := by decide

/-! ### Places -/

/-- The node at a place, which is given by positions among children from the root on. -/
def descendant? (n : Node) : List Nat → Option Node
  | [] => some n
  | i :: r => n.children[i]?.bind (descendant? · r)

/-- A list of all places of a tree, none of them twice. -/
structure Places (n : Node) (places : List (List Nat)) : Prop where
  /-- No place is listed twice. -/
  nodup : places.Nodup
  /-- The places are the ones at which there is a node. -/
  mem_iff : ∀ p, p ∈ places ↔ (n.descendant? p).isSome

/-- The places below the root, given those of every child. -/
theorem exists_places_below {children : List Node}
    (h : ∀ c ∈ children, ∃ places, c.Places places ∧ places.length = c.count) :
    ∃ below : List (List Nat), below.Nodup ∧
      (∀ p, p ∈ below ↔ ∃ i c r, p = i :: r ∧ children[i]? = some c ∧ (c.descendant? r).isSome) ∧
      below.length = (children.map count).sum := by
  induction children using List.reverseRecOn with
  | nil => exact ⟨[], List.nodup_nil, by simp, rfl⟩
  | append_singleton front c ih =>
      obtain ⟨below, hnodup, hbelow, hlength⟩ :=
        ih fun d hd => h d (List.mem_append_left _ hd)
      obtain ⟨places, hplaces, hcount⟩ := h c (by simp)
      refine ⟨below ++ places.map (front.length :: ·), ?_, fun p => ?_, ?_⟩
      · refine List.nodup_append'.mpr ⟨hnodup, hplaces.nodup.map (List.cons_injective), ?_⟩
        intro p hp hlast
        obtain ⟨i, d, r, rfl, hd, -⟩ := (hbelow p).mp hp
        obtain ⟨q, -, hq⟩ := List.mem_map.mp hlast
        have hlt : i < front.length := (List.getElem?_eq_some_iff.mp hd).1
        have hi : front.length = i := (List.cons.inj hq).1
        omega
      · rw [List.mem_append, hbelow, List.mem_map]
        constructor
        · rintro (⟨i, d, r, rfl, hd, hr⟩ | ⟨r, hr, rfl⟩)
          · have hlt : i < front.length := (List.getElem?_eq_some_iff.mp hd).1
            exact ⟨i, d, r, rfl, by rw [List.getElem?_append_left hlt, hd], hr⟩
          · exact ⟨front.length, c, r, rfl, by simp, (hplaces.mem_iff r).mp hr⟩
        · rintro ⟨i, d, r, rfl, hd, hr⟩
          rcases Nat.lt_or_ge i front.length with hlt | hge
          · exact .inl ⟨i, d, r, rfl, by rwa [List.getElem?_append_left hlt] at hd, hr⟩
          · have hi : i = front.length := by
              have hlt := (List.getElem?_eq_some_iff.mp hd).1
              rw [List.length_append, List.length_singleton] at hlt
              omega
            subst hi
            obtain rfl : c = d := by simpa using hd
            exact .inr ⟨r, (hplaces.mem_iff r).mpr hr, rfl⟩
      · simp [hlength, hcount]

/-- Every node of a tree is counted, and none twice: there are as many as the tree has
places. -/
theorem exists_places (n : Node) : ∃ places, n.Places places ∧ places.length = n.count := by
  induction n using childrenInduction with
  | step n ih =>
      obtain ⟨below, hnodup, hbelow, hlength⟩ := exists_places_below ih
      refine ⟨[] :: below, ⟨List.nodup_cons.mpr ⟨fun hroot => ?_, hnodup⟩, fun p => ?_⟩, ?_⟩
      · obtain ⟨i, c, r, hp, -⟩ := (hbelow []).mp hroot
        cases hp
      · cases p with
        | nil => simp [descendant?]
        | cons i r =>
            rw [List.mem_cons, hbelow]
            cases hchild : n.children[i]? with
            | none => simp [descendant?, hchild]
            | some c => simp [descendant?, hchild]
      · rw [List.length_cons, hlength, count_eq, Nat.add_comm]

end Node

/-! ### Documents within a limit -/

namespace Stream

/-- The tree of a document, if it can be read and is not null. -/
def tree? : Option Yaml → Option Node
  | none => none
  | some v => if v.isNull then none else some (Node.ofYaml v)

/-- What a document at a position is refused for: that it cannot be read, or that it is not
null and the count of its nodes reaches the limit. -/
def offence? (limits : Limits) (origin : String) : Option Yaml × Nat → Option StreamError
  | (none, position) => some (.unreadable position origin)
  | (some v, position) =>
    if v.isNull = false ∧ limits.nodes ≤ (Node.ofYaml v).count then
      some (.tooComplex origin position limits.nodes)
    else none

/-- A document is in order if it is null, or a tree of fewer nodes than the limit. -/
theorem offence?_eq_none_iff {limits : Limits} {origin : String} {d : Option Yaml}
    {position : Nat} :
    offence? limits origin (d, position) = none ↔
      ∃ v, d = some v ∧ (v.isNull = true ∨ (Node.ofYaml v).count < limits.nodes) := by
  cases d with
  | none => simp [offence?]
  | some v =>
      simp only [offence?, ite_eq_right_iff, reduceCtorEq, imp_false, Option.some.injEq,
        exists_eq_left']
      cases v.isNull <;> simp

theorem findSome?_offence?_eq_none_iff (limits : Limits) (origin : String)
    (documents : List (Option Yaml)) :
    documents.zipIdx.findSome? (offence? limits origin) = none ↔
      ∀ d ∈ documents, ∃ v, d = some v ∧
        (v.isNull = true ∨ (Node.ofYaml v).count < limits.nodes) := by
  rw [List.findSome?_eq_none_iff]
  constructor
  · intro h d hd
    obtain ⟨i, hi⟩ := List.mem_iff_getElem?.mp hd
    exact offence?_eq_none_iff.mp (h (d, i) (List.mem_zipIdx_iff_getElem?.mpr hi))
  · rintro h ⟨d, i⟩ hd
    exact offence?_eq_none_iff.mpr (h d (List.fst_mem_of_mem_zipIdx hd))

/-- Collecting goes on to the first document that offends. -/
theorem collect_eq (limits : Limits) (origin : String) (position : Nat) (acc : List Node)
    (documents : List (Option Yaml)) :
    collect limits origin position acc documents =
      match (documents.zipIdx position).findSome? (offence? limits origin) with
      | some e => .error e
      | none => .ok (acc.reverse ++ documents.filterMap tree?) := by
  induction documents generalizing position acc with
  | nil => simp [collect]
  | cons d r ih =>
      cases d with
      | none => rfl
      | some v =>
          rw [collect, List.zipIdx_cons, List.findSome?_cons, offence?]
          cases hnull : v.isNull with
          | true => simp [ih, tree?, hnull]
          | false =>
              by_cases hmany : limits.nodes ≤ (Node.ofYaml v).count
              · simp [Node.reaches_eq, hmany]
              · simp [Node.reaches_eq, hmany, ih, tree?, hnull]

/-- A text that is too long is refused, whatever its documents are read as, and any other one
for the first of its documents that offends. -/
theorem ofDocuments_eq (limits : Limits) (origin text : String) (documents : List (Option Yaml)) :
    ofDocuments limits origin text documents =
      if limits.bytes < text.utf8ByteSize then .error (.tooLong origin limits.bytes)
      else
        match documents.zipIdx.findSome? (offence? limits origin) with
        | some e => .error e
        | none => .ok (documents.filterMap tree?) := by
  rw [ofDocuments, collect_eq, List.reverse_nil, List.nil_append]

theorem exists_ofDocuments_eq_ok_iff (limits : Limits) (origin text : String)
    (documents : List (Option Yaml)) :
    (∃ trees, ofDocuments limits origin text documents = .ok trees) ↔
      text.utf8ByteSize ≤ limits.bytes ∧ ∀ d ∈ documents, ∃ v, d = some v ∧
        (v.isNull = true ∨ (Node.ofYaml v).count < limits.nodes) := by
  rw [← findSome?_offence?_eq_none_iff limits origin documents, ofDocuments_eq]
  by_cases hlong : limits.bytes < text.utf8ByteSize
  · rw [if_pos hlong]
    constructor
    · rintro ⟨trees, htrees⟩
      cases htrees
    · rintro ⟨hshort, -⟩
      omega
  · rw [if_neg hlong]
    cases documents.zipIdx.findSome? (offence? limits origin) with
    | some e => simp
    | none => simpa using hlong

/-- **A stream is accepted exactly within its limits.** A text that is too long is refused
whatever its documents are read as. Any other one is refused for the first of its documents
that offends, at its position in the stream, and gives the trees of the documents that are not
null, in their order, if there is none.

So it is accepted if it is not too long and every document can be read and is null or has fewer
nodes than the limit. The nodes of a tree are one for each of its places, and counting them up to
the limit finds out whether they reach it. -/
theorem ofDocuments_within (limits : Limits) (origin text : String)
    (documents : List (Option Yaml)) :
    (ofDocuments limits origin text documents =
      if limits.bytes < text.utf8ByteSize then .error (.tooLong origin limits.bytes)
      else
        match documents.zipIdx.findSome? (offence? limits origin) with
        | some e => .error e
        | none => .ok (documents.filterMap tree?)) ∧
      ((∃ trees, ofDocuments limits origin text documents = .ok trees) ↔
        text.utf8ByteSize ≤ limits.bytes ∧ ∀ d ∈ documents, ∃ v, d = some v ∧
          (v.isNull = true ∨ (Node.ofYaml v).count < limits.nodes)) ∧
      (∀ n : Node, ∃ places, n.Places places ∧ places.length = n.count) ∧
      ∀ (limit : Nat) (n : Node), n.reaches limit = decide (limit ≤ n.count) := by
  refine ⟨ofDocuments_eq limits origin text documents, ?_, Node.exists_places, Node.reaches_eq⟩
  exact exists_ofDocuments_eq_ok_iff limits origin text documents

end Stream
end Graft
