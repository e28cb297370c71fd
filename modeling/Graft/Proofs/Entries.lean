import Mathlib.Data.List.Forall2
import Mathlib.Data.List.Induction
import Mathlib.Data.List.Nodup
import Mathlib.Data.List.Perm.Subperm
import Graft.Entries

/-!
# Graft.Proofs.Entries

Which keys and which values insertions leave, and what can stand behind them.

An insertion adds its key at the end if it is new and leaves the keys alone
otherwise (`Entries.keys_insert`), and it answers for its own key only
(`Entries.get?_insert`). So entries that begin without a repeated key and
grow by insertions never repeat one (`Entries.nodup_keys_insert`).

Entries that are built from pairs have the keys of the pairs, each where it came first
(`Entries.keys_ofPairs`), and of pairs with one key the last one counts
(`Entries.get?_ofPairs`), which together is `Entries.ofPairs_first_last`. Pairs that repeat no
key stay as they are (`Entries.ofPairs_of_nodup`), and of others fewer entries are left
(`Entries.length_ofPairs_lt`). Where no key is repeated, the order of the entries does not
matter (`Entries.get?_perm`).

Sorted insertion keeps ascending keys ascending (`Entries.ascending_insertSorted`), and
inserting pairs that ascend already is appending them
(`Entries.foldl_insertSorted_of_ascending`).
-/

namespace Graft
namespace Entries

variable {α β : Type}

@[simp] theorem keys_nil : keys ([] : Entries α) = [] := rfl

@[simp] theorem keys_cons (e : String × α) (es : Entries α) : keys (e :: es) = e.1 :: keys es := rfl

@[simp] theorem keys_append (es fs : Entries α) : keys (es ++ fs) = keys es ++ keys fs := by
  simp [keys]

/-- A key without a value is the key of no entry. -/
theorem get?_eq_none_iff {key : String} {es : Entries α} :
    get? key es = none ↔ key ∉ keys es := by
  induction es with
  | nil => simp
  | cons e r ih =>
      obtain ⟨k, v⟩ := e
      by_cases hk : k = key
      · simp [hk]
      · rw [get?_cons_of_ne hk, ih, keys_cons, List.mem_cons, not_or]
        exact ⟨fun h => ⟨Ne.symm hk, h⟩, fun h => h.2⟩

/-- Entries in front of others count first. -/
theorem get?_append (es fs : Entries α) (key : String) :
    get? key (es ++ fs) = (get? key es).or (get? key fs) := by
  induction es with
  | nil => rfl
  | cons e r ih =>
      obtain ⟨k, v⟩ := e
      by_cases hk : k = key
      · simp [hk]
      · rw [List.cons_append, get?_cons_of_ne hk, get?_cons_of_ne hk, ih]

/-- The value of a key is the value of the first entry with it. -/
theorem get?_eq_some_iff {key : String} {v : α} {es : Entries α} :
    get? key es = some v ↔ ∃ front back, es = front ++ (key, v) :: back ∧ key ∉ keys front := by
  constructor
  · intro h
    induction es with
    | nil => cases h
    | cons e r ih =>
        obtain ⟨k, w⟩ := e
        by_cases hk : k = key
        · subst hk
          obtain rfl : w = v := by simpa using h
          exact ⟨[], r, rfl, by simp⟩
        · rw [get?_cons_of_ne hk] at h
          obtain ⟨front, back, rfl, hfront⟩ := ih h
          exact ⟨(k, w) :: front, back, rfl, by simp [Ne.symm hk, hfront]⟩
  · intro h
    obtain ⟨front, back, rfl, hfront⟩ := h
    rw [get?_append, get?_eq_none_iff.mpr hfront, get?_cons_self, Option.none_or]

theorem mem_of_get? {key : String} {v : α} {es : Entries α} (h : get? key es = some v) :
    (key, v) ∈ es := by
  obtain ⟨front, back, rfl, -⟩ := get?_eq_some_iff.mp h
  simp

/-- What is done to all values is done to the value that is read. -/
theorem get?_map (f : α → β) (es : Entries α) (key : String) :
    get? key (es.map fun e => (e.1, f e.2)) = (get? key es).map f := by
  induction es with
  | nil => rfl
  | cons e r ih =>
      obtain ⟨k, v⟩ := e
      by_cases hk : k = key
      · simp [hk]
      · rw [List.map_cons, get?_cons_of_ne hk, get?_cons_of_ne hk, ih]

/-- Where the keys are those of more entries, a value has one at its position there. -/
theorem getElem?_of_get?_of_keys_prefix {key : String} {v : α} {es fs : Entries α}
    (hkeys : keys es <+: keys fs) (h : get? key es = some v) :
    ∃ (i : Nat) (w : α), es[i]? = some (key, v) ∧ fs[i]? = some (key, w) ∧ get? key fs = some w := by
  induction es generalizing fs with
  | nil => cases h
  | cons e r ih =>
      obtain ⟨k, u⟩ := e
      cases fs with
      | nil => simp at hkeys
      | cons f r' =>
          obtain ⟨k', w⟩ := f
          simp only [keys_cons, List.cons_prefix_cons] at hkeys
          obtain ⟨rfl, hrest⟩ := hkeys
          by_cases hk : k = key
          · subst hk
            obtain rfl : u = v := by simpa using h
            exact ⟨0, w, rfl, rfl, get?_cons_self k w r'⟩
          · rw [get?_cons_of_ne hk] at h
            obtain ⟨i, w', he, hf, hget⟩ := ih hrest h
            exact ⟨i + 1, w', he, hf, by rw [get?_cons_of_ne hk, hget]⟩

/-- A value is smaller than the entries it stands in, which recursions through
entries end by. -/
theorem sizeOf_value_lt {κ : Type} [SizeOf κ] [SizeOf α] {es : List (κ × α)} {e : κ × α}
    (h : e ∈ es) : sizeOf e.2 < sizeOf es := by
  have hvalue : sizeOf e.2 < sizeOf e := by
    cases e
    simp only [Prod.mk.sizeOf_spec]
    omega
  exact Nat.lt_trans hvalue (List.sizeOf_lt_of_mem h)

/-- An insertion of a new key appends. -/
theorem insert_of_notMem {key : String} {es : Entries α} (h : key ∉ keys es) (v : α) :
    insert key v es = es ++ [(key, v)] := by
  induction es with
  | nil => rfl
  | cons e r ih =>
      obtain ⟨k, w⟩ := e
      simp only [keys_cons, List.mem_cons, not_or] at h
      simp [insert, Ne.symm h.1, ih h.2]

/-- An insertion adds its key at the end, if it is new. -/
theorem keys_insert (key : String) (v : α) (es : Entries α) :
    keys (insert key v es) = if key ∈ keys es then keys es else keys es ++ [key] := by
  by_cases h : key ∈ keys es
  · rw [if_pos h]
    induction es with
    | nil => cases h
    | cons e r ih =>
        obtain ⟨k, w⟩ := e
        by_cases hk : k = key
        · simp [insert, hk]
        · have hr : key ∈ keys r := by simpa [Ne.symm hk] using h
          simp [insert, hk, ih hr]
  · rw [if_neg h, insert_of_notMem h]
    simp

/-- An insertion answers for its own key only. -/
theorem get?_insert (key other : String) (v : α) (es : Entries α) :
    get? other (insert key v es) = if other = key then some v else get? other es := by
  by_cases h : other = key
  · rw [if_pos h, h, get?_insert_self]
  · rw [if_neg h, get?_insert_of_ne (Ne.symm h)]

/-- An insertion makes one entry more if its key is new. -/
theorem length_insert (key : String) (v : α) (es : Entries α) :
    (insert key v es).length = if key ∈ keys es then es.length else es.length + 1 := by
  have hkeys := congrArg List.length (keys_insert key v es)
  by_cases h : key ∈ keys es
  · rw [if_pos h] at hkeys ⊢
    simpa [keys] using hkeys
  · rw [if_neg h] at hkeys ⊢
    simpa [keys] using hkeys

/-- Entries that do not repeat a key do not repeat one after an insertion. -/
theorem nodup_keys_insert {es : Entries α} (h : (keys es).Nodup) (key : String) (v : α) :
    (keys (insert key v es)).Nodup := by
  rw [keys_insert]
  split
  · exact h
  · next hnew => exact List.nodup_append'.mpr ⟨h, List.nodup_singleton key, by simpa using hnew⟩

/-- After an insertion, an entry is the new one or was there. -/
theorem mem_insert {key : String} {v : α} {es : Entries α} {e : String × α}
    (h : e ∈ insert key v es) : e = (key, v) ∨ e ∈ es := by
  induction es with
  | nil => exact .inl (by simpa [insert] using h)
  | cons d r ih =>
      obtain ⟨k, w⟩ := d
      by_cases hk : k = key
      · rcases List.mem_cons.mp (by simpa [insert, hk] using h) with he | he
        · exact .inl he
        · exact .inr (List.mem_cons_of_mem _ he)
      · rcases List.mem_cons.mp (by simpa [insert, hk] using h) with he | he
        · exact .inr (by simp [he])
        · exact (ih he).imp_right (List.mem_cons_of_mem _)

/-! ### Entries built from pairs -/

/-- The keys of pairs that were inserted, each where it came first. -/
theorem keys_ofPairs (pairs : List (String × α)) :
    keys (ofPairs pairs) = (keys pairs).eraseDups := by
  induction pairs using List.reverseRecOn with
  | nil => rfl
  | append_singleton r p ih =>
      rw [ofPairs_concat, keys_insert, ih, keys_append, List.eraseDups_append]
      by_cases hp : p.1 ∈ keys r
      · simp [hp, List.removeAll]
      · simp [hp, List.removeAll, List.eraseDups_cons]

theorem nodup_keys_ofPairs (pairs : List (String × α)) : (keys (ofPairs pairs)).Nodup := by
  induction pairs using List.reverseRecOn with
  | nil => exact List.nodup_nil
  | append_singleton r p ih =>
      rw [ofPairs_concat]
      exact nodup_keys_insert ih p.1 p.2

/-- Of pairs that were inserted the last one of a key counts. -/
theorem get?_ofPairs (pairs : List (String × α)) (key : String) :
    get? key (ofPairs pairs) = get? key pairs.reverse := by
  induction pairs using List.reverseRecOn with
  | nil => rfl
  | append_singleton r p ih =>
      obtain ⟨k, v⟩ := p
      rw [ofPairs_concat, List.reverse_concat]
      by_cases hk : k = key
      · subst hk
        rw [get?_insert_self, get?_cons_self]
      · rw [get?_insert_of_ne hk, get?_cons_of_ne hk, ih]

/-- A value is that of the last pair with its key. -/
theorem get?_ofPairs_eq_some_iff {pairs : List (String × α)} {key : String} {v : α} :
    get? key (ofPairs pairs) = some v ↔
      ∃ front back, pairs = front ++ (key, v) :: back ∧ key ∉ keys back := by
  rw [get?_ofPairs, get?_eq_some_iff]
  constructor
  · intro h
    obtain ⟨back, front, hpairs, hback⟩ := h
    refine ⟨front.reverse, back.reverse, ?_, by simpa [keys] using hback⟩
    simpa using congrArg List.reverse hpairs
  · intro h
    obtain ⟨front, back, rfl, hback⟩ := h
    exact ⟨back.reverse, front.reverse, by simp, by simpa [keys] using hback⟩

/-- Pairs that repeat no key are the entries that they make. -/
theorem ofPairs_of_nodup {pairs : List (String × α)} (h : (keys pairs).Nodup) :
    ofPairs pairs = pairs := by
  induction pairs using List.reverseRecOn with
  | nil => rfl
  | append_singleton r p ih =>
      rw [keys_append] at h
      obtain ⟨hr, -, hdisjoint⟩ := List.nodup_append'.mp h
      have hnew : p.1 ∉ keys r := fun hmem => hdisjoint hmem (by simp)
      rw [ofPairs_concat, ih hr, insert_of_notMem hnew]

/-- Of pairs that repeat a key fewer entries are left. -/
theorem length_ofPairs_lt {pairs : List (String × α)} (h : ¬ (keys pairs).Nodup) :
    (ofPairs pairs).length < pairs.length := by
  have hsubset : keys (ofPairs pairs) ⊆ keys pairs := by
    rw [keys_ofPairs]
    exact fun key hkey => List.mem_eraseDups.mp hkey
  have hsubperm := List.subperm_of_subset (nodup_keys_ofPairs pairs) hsubset
  by_contra hlength
  -- as many keys as pairs, none of them twice, are the keys of the pairs in another order
  have hperm := hsubperm.perm_of_length_le (by simpa [keys] using hlength)
  exact h (hperm.nodup_iff.mp (nodup_keys_ofPairs pairs))

/-- **Entries built from pairs keep first positions and last values.** Their keys are those of
the pairs, each once and where it came first. The value of a key is that of its last pair, and
a key that no pair has is absent.

An insertion into any entries answers for its own key with the new value, and for any other
key as before. The keys keep their order. A key that is new goes behind them, and only then
there is one entry more. -/
theorem ofPairs_first_last :
    (∀ pairs : List (String × α),
      keys (ofPairs pairs) = (keys pairs).eraseDups ∧ (keys (ofPairs pairs)).Nodup ∧
        (∀ key v, get? key (ofPairs pairs) = some v ↔
          ∃ front back, pairs = front ++ (key, v) :: back ∧ key ∉ keys back) ∧
        ∀ key, get? key (ofPairs pairs) = none ↔ key ∉ keys pairs) ∧
      ∀ (es : Entries α) (key : String) (v : α),
        (∀ other, get? other (insert key v es) =
          if other = key then some v else get? other es) ∧
        keys (insert key v es) = (if key ∈ keys es then keys es else keys es ++ [key]) ∧
        (insert key v es).length = if key ∈ keys es then es.length else es.length + 1 := by
  refine ⟨fun pairs => ⟨keys_ofPairs pairs, nodup_keys_ofPairs pairs, fun key v => ?_,
    fun key => ?_⟩, fun es key v => ⟨?_, keys_insert key v es, length_insert key v es⟩⟩
  · exact get?_ofPairs_eq_some_iff
  · rw [get?_eq_none_iff, keys_ofPairs, List.mem_eraseDups]
  · exact fun other => get?_insert key other v es

example : ofPairs [("b", 1), ("a", 2), ("b", 3)] = [("b", 3), ("a", 2)] := by decide

/-! ### Entries in another order, entries with other values -/

theorem keys_perm {es fs : Entries α} (h : es.Perm fs) : (keys es).Perm (keys fs) :=
  h.map Prod.fst

/-- Without repeated keys, the order of the entries does not matter. -/
theorem get?_perm {es fs : Entries α} (h : es.Perm fs) (hkeys : (keys es).Nodup) (key : String) :
    get? key es = get? key fs := by
  induction h with
  | nil => rfl
  | cons e _ ih =>
      rw [keys_cons, List.nodup_cons] at hkeys
      simp only [get?, ih hkeys.2]
  | swap e f r =>
      have hne : f.1 ≠ e.1 := fun heq => (List.nodup_cons.mp hkeys).1 (by simp [heq])
      by_cases he : e.1 = key
      · have hf : f.1 ≠ key := he ▸ hne
        simp only [get?, if_pos he, if_neg hf]
      · simp only [get?, if_neg he]
  | trans hfirst _ ihfirst ihsecond =>
      have hsecond := (keys_perm hfirst).nodup_iff.mp hkeys
      exact (ihfirst hkeys).trans (ihsecond hsecond)

/-- Entries under the same keys, their values related one by one. -/
theorem rel_get? {R : α → β → Prop} {es : Entries α} {fs : Entries β} (hkeys : keys es = keys fs)
    (hvalues : List.Forall₂ R (es.map (·.2)) (fs.map (·.2))) (key : String) :
    Option.Rel R (get? key es) (get? key fs) := by
  induction es generalizing fs with
  | nil =>
      obtain rfl : fs = [] := List.map_eq_nil_iff.mp hkeys.symm
      exact .none
  | cons e r ih =>
      obtain ⟨k, v⟩ := e
      cases fs with
      | nil => cases hkeys
      | cons f r' =>
          obtain ⟨k', w⟩ := f
          obtain ⟨hsame, hrest⟩ := List.cons.inj hkeys
          obtain rfl : k = k' := hsame
          obtain _ | ⟨hvalue, hvalues⟩ := hvalues
          by_cases hk : k = key
          · simp only [get?, if_pos hk]
            exact .some hvalue
          · simp only [get?, if_neg hk]
            exact ih hrest hvalues

/-! ### Ascending keys -/

/-- A sorted insertion of a key above all others appends. -/
theorem insertSorted_of_above {key : String} {es : Entries α} (h : ∀ k ∈ keys es, k < key)
    (v : α) : insertSorted key v es = es ++ [(key, v)] := by
  induction es with
  | nil => rfl
  | cons e r ih =>
      obtain ⟨k, w⟩ := e
      have hk : k < key := h k (by simp)
      have hne : k ≠ key := by
        rintro rfl
        exact String.lt_irrefl k hk
      rw [insertSorted, if_neg (String.lt_asymm hk), if_neg hne,
        ih fun k' hk' => h k' (List.mem_cons_of_mem _ hk'), List.cons_append]

/-- After a sorted insertion, an entry is the new one or was there. -/
theorem mem_insertSorted {key : String} {v : α} {es : Entries α} {e : String × α}
    (h : e ∈ insertSorted key v es) : e = (key, v) ∨ e ∈ es := by
  induction es with
  | nil => exact .inl (List.mem_singleton.mp h)
  | cons d r ih =>
      obtain ⟨k, w⟩ := d
      rw [insertSorted] at h
      split at h
      · exact List.mem_cons.mp h
      · split at h
        · exact (List.mem_cons.mp h).imp_right (List.mem_cons_of_mem _)
        · rcases List.mem_cons.mp h with rfl | hr
          · exact .inr List.mem_cons_self
          · exact (ih hr).imp_right (List.mem_cons_of_mem _)

/-- Ascending keys ascend after a sorted insertion. -/
theorem ascending_insertSorted {es : Entries α} (h : (keys es).Pairwise (· < ·)) (key : String)
    (v : α) : (keys (insertSorted key v es)).Pairwise (· < ·) := by
  induction es with
  | nil => exact List.pairwise_singleton _ _
  | cons d r ih =>
      obtain ⟨k, w⟩ := d
      obtain ⟨habove, hr⟩ := List.pairwise_cons.mp h
      rw [insertSorted]
      split
      · next hlt =>
        refine List.pairwise_cons.mpr ⟨fun k' hk' => ?_, h⟩
        rcases List.mem_cons.mp hk' with rfl | hk'
        · exact hlt
        · exact String.lt_trans hlt (habove k' hk')
      · next hge =>
        split
        · next heq => exact List.pairwise_cons.mpr ⟨heq ▸ habove, hr⟩
        · next hne =>
          refine List.pairwise_cons.mpr ⟨fun k' hk' => ?_, ih hr⟩
          obtain ⟨e, he, rfl⟩ := List.mem_map.mp hk'
          rcases mem_insertSorted he with rfl | he
          · exact Std.lt_of_le_of_ne (String.not_lt.mp hge) hne
          · exact habove e.1 (List.mem_map_of_mem he)

/-- Keys that ascend are not repeated. -/
theorem nodup_of_ascending {es : Entries α} (h : (keys es).Pairwise (· < ·)) :
    (keys es).Nodup := by
  refine List.Pairwise.imp ?_ h
  rintro k _ hlt rfl
  exact String.lt_irrefl k hlt

/-- Sorted insertions of pairs one after the other, whose keys ascend and are above all
that is there already, append them. -/
theorem foldl_insertSorted_of_ascending (f : β → α) (pairs : Entries β) (es : Entries α)
    (h : (keys es ++ keys pairs).Pairwise (· < ·)) :
    pairs.foldl (fun acc p => insertSorted p.1 (f p.2) acc) es =
      es ++ pairs.map fun p => (p.1, f p.2) := by
  induction pairs generalizing es with
  | nil => simp
  | cons p r ih =>
      have habove : ∀ k ∈ keys es, k < p.1 := fun k hk =>
        (List.pairwise_append.mp h).2.2 k hk p.1 (by simp)
      have hrest : (keys (es ++ [(p.1, f p.2)]) ++ keys r).Pairwise (· < ·) := by simpa using h
      rw [List.foldl_cons, insertSorted_of_above habove, ih _ hrest]
      simp

end Entries
end Graft
