/-!
# Graft.Entries

Insertion-ordered entries with string keys: the shape of a document's mappings.

* `get?` answers with the first entry of a key, and `insert` replaces the value
  of that entry in place or appends a new one, so entries built by `insert`
  alone never repeat a key.
* `ofPairs` builds entries from any list of pairs: a repeated key keeps its
  first position and its last value.
* `insertSorted` is the other order in use: keys ascending, as the members of a
  JSON object are kept.
-/

namespace Graft

/-- Entries with string keys, in order. -/
abbrev Entries (α : Type) := List (String × α)

namespace Entries

variable {α : Type}

/-! ### Reading -/

/-- The keys, in order. -/
def keys (es : Entries α) : List String := es.map (·.1)

/-- The value of the first entry with this key. -/
def get? (key : String) : Entries α → Option α
  | [] => none
  | (k, v) :: r => if k = key then some v else get? key r

/-- Whether some entry has this key. -/
def contains (key : String) (es : Entries α) : Bool := (get? key es).isSome

/-! ### Building -/

/-- Replaces the value of the first entry with this key, or appends an entry. -/
def insert (key : String) (value : α) : Entries α → Entries α
  | [] => [(key, value)]
  | (k, v) :: r => if k = key then (k, value) :: r else (k, v) :: insert key value r

/-- The entries of a list of pairs, inserted front to back. -/
def ofPairs (pairs : List (String × α)) : Entries α :=
  pairs.foldl (fun es p => insert p.1 p.2 es) []

/-- Inserts into entries whose keys ascend; an equal key is replaced. -/
def insertSorted (key : String) (value : α) : Entries α → Entries α
  | [] => [(key, value)]
  | (k, v) :: r =>
    if key < k then (key, value) :: (k, v) :: r
    else if k = key then (key, value) :: r
    else (k, v) :: insertSorted key value r

/-! ### Interface lemmas -/

@[simp] theorem get?_nil (key : String) : get? key ([] : Entries α) = none := rfl

@[simp] theorem get?_cons_self (key : String) (v : α) (r : Entries α) :
    get? key ((key, v) :: r) = some v := by simp [get?]

theorem get?_cons_of_ne {k key : String} (h : k ≠ key) (v : α) (r : Entries α) :
    get? key ((k, v) :: r) = get? key r := by simp [get?, h]

@[simp] theorem get?_insert_self (key : String) (v : α) (es : Entries α) :
    get? key (insert key v es) = some v := by
  fun_induction insert key v es with
  | case1 => simp
  | case2 => simp
  | case3 k w r h ih => rw [get?_cons_of_ne h, ih]

theorem get?_insert_of_ne {key other : String} (h : key ≠ other) (v : α) (es : Entries α) :
    get? other (insert key v es) = get? other es := by
  fun_induction insert key v es with
  | case1 => simp [get?, h]
  | case2 w r => simp [get?, h]
  | case3 k w r hk ih => simp only [get?, ih]

@[simp] theorem ofPairs_nil : ofPairs ([] : List (String × α)) = [] := rfl

/-- Building from a longer list inserts the last pair last. -/
theorem ofPairs_concat (pairs : List (String × α)) (p : String × α) :
    ofPairs (pairs ++ [p]) = insert p.1 p.2 (ofPairs pairs) := by
  simp [ofPairs, List.foldl_append]

end Entries
end Graft
