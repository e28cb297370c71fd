import Mathlib.Algebra.GroupWithZero.Nat
import Mathlib.Data.List.Forall2
import Graft.Sweep

/-!
# Graft.Proofs.Sweep

What a walk through a list keeps, from what one step keeps.

Rules, targets and documents are all gone through by `Sweep.run`, so each claim
about a pass is a fact about one step and one of the inductions below:

* the items that a walk comes to, each with the state it finds (`Meets`), and an invariant
  of the state (`run_state_invariant`), also together with one of the items, that the steps
  keep there (`run_invariant_of_meets`); what becomes of the items one by one
  (`run_forall₂`, `run_getElem?_of_fixed`); all of them also for walks that end early;
* a walk from the position of one item on (`run_of_take`), and the step at which a
  walk fails (`run_of_failure`, `exists_of_failure`);
* steps that do the same from a state seen through a map (`run_map_state`), and steps
  that fill in what their items leave out (`run_map_of_fills`, `items_run_of_ok`);
* steps whose only trace in the state is a count (`run_failure_counted`,
  `run_counted`): such a walk succeeds if every item does, in whatever order;
* two walks through the same list whose states correspond (`run_agree`).
-/

namespace Graft

/-- Two steps that end alike: both fail, or both leave the same item and states
that correspond. -/
structure Step.Agree {α σ ε : Type} (R : σ → σ → Prop) (x y : Step α σ ε) : Prop where
  /-- Both fail, or neither. -/
  failure : x.failure = none ↔ y.failure = none
  /-- The items after the steps. -/
  item : x.failure = none → x.item = y.item
  /-- The states after the steps. -/
  state : x.failure = none → R x.state y.state

/-- Of steps that both fail nothing more is asked. -/
theorem Step.Agree.of_failure {α σ ε : Type} {R : σ → σ → Prop} {x y : Step α σ ε}
    (hx : x.failure ≠ none) (hy : y.failure ≠ none) : Step.Agree R x y where
  failure := ⟨fun h => absurd h hx, fun h => absurd h hy⟩
  item h := absurd h hx
  state h := absurd h hx

/-- The steps for an item and for its full form `g a` do the same, and they leave the
item as it was or in full: in full if it was already or if they do not fail. -/
structure Step.Fills {α σ ε : Type} (g : α → α) (a : α) (x y : Step α σ ε) : Prop where
  state : y.state = x.state
  failure : y.failure = x.failure
  item : g x.item = g a
  full : y.item = g a
  done : x.failure = none → x.item = g a

namespace Sweep

variable {α σ ε : Type} {f : σ → α → Step α σ ε}

/-- Two walks that end alike. -/
structure Agree (R : σ → σ → Prop) (v w : Sweep α σ ε) : Prop where
  /-- Both fail, or neither. -/
  failure : v.failure = none ↔ w.failure = none
  /-- The items after the walks. -/
  items : v.failure = none → v.items = w.items
  /-- The states after the walks. -/
  state : v.failure = none → R v.state w.state

/-! ### The parts of a walk -/

@[simp] theorem behind_items (front : List α) (w : Sweep α σ ε) :
    (behind front w).items = front ++ w.items := rfl

@[simp] theorem behind_state (front : List α) (w : Sweep α σ ε) :
    (behind front w).state = w.state := rfl

@[simp] theorem behind_failure (front : List α) (w : Sweep α σ ε) :
    (behind front w).failure = w.failure := rfl

/-- A walk through one item is its step. -/
theorem run_singleton (f : σ → α → Step α σ ε) (s : σ) (a : α) :
    run f s [a] = ⟨[(f s a).item], (f s a).state, (f s a).failure⟩ := by
  rw [run_cons]
  cases h : (f s a).failure with
  | none => rfl
  | some e => rfl

/-! ### Invariants -/

/-- A walk comes to an item in a state: the steps before it succeed and lead there. -/
inductive Meets (f : σ → α → Step α σ ε) : σ → List α → σ → α → Prop where
  /-- It starts at the first item. -/
  | here {s : σ} {a : α} {r : List α} : Meets f s (a :: r) s a
  /-- It goes on behind an item if the step there succeeds. -/
  | later {s t : σ} {a b : α} {r : List α} (hok : (f s a).failure = none)
      (h : Meets f (f s a).state r t b) : Meets f s (a :: r) t b

theorem Meets.mem {s t : σ} {items : List α} {a : α} (h : Meets f s items t a) : a ∈ items := by
  induction h with
  | here => exact List.mem_cons_self
  | later _ _ ih => exact List.mem_cons_of_mem _ ih

theorem meets_cons_iff {s t : σ} {a b : α} {r : List α} :
    Meets f s (a :: r) t b ↔
      t = s ∧ b = a ∨ (f s a).failure = none ∧ Meets f (f s a).state r t b := by
  constructor
  · intro h
    cases h with
    | here => exact .inl ⟨rfl, rfl⟩
    | later hok h => exact .inr ⟨hok, h⟩
  · intro h
    obtain ⟨rfl, rfl⟩ | ⟨hok, h⟩ := h
    · exact .here
    · exact .later hok h

theorem meets_singleton_iff {s t : σ} {a b : α} : Meets f s [a] t b ↔ t = s ∧ b = a := by
  rw [meets_cons_iff, or_iff_left]
  intro h
  cases h.2

/-- What the steps at all items that a walk comes to keep of the state and of the item,
the walk keeps of the state and of all items, however it ends. -/
theorem run_invariant_of_meets {P : σ → Prop} {Q : α → Prop} {s : σ} {items : List α}
    (hstep : ∀ t a, Meets f s items t a → P t → Q a → P (f t a).state ∧ Q (f t a).item)
    (hs : P s) (hitems : ∀ a ∈ items, Q a) :
    P (run f s items).state ∧ ∀ a ∈ (run f s items).items, Q a := by
  induction items generalizing s with
  | nil => exact ⟨hs, by simp⟩
  | cons a r ih =>
      obtain ⟨ha, hrest⟩ := List.forall_mem_cons.mp hitems
      obtain ⟨hstate, hitem⟩ := hstep s a .here hs ha
      rw [run_cons]
      cases hfail : (f s a).failure with
      | some e => exact ⟨hstate, List.forall_mem_cons.mpr ⟨hitem, hrest⟩⟩
      | none =>
          obtain ⟨hlast, htail⟩ := ih (fun t b h => hstep t b (.later hfail h)) hstate hrest
          exact ⟨hlast, List.forall_mem_cons.mpr ⟨hitem, htail⟩⟩

/-- The same of the state alone. -/
theorem run_state_invariant_of_meets {P : σ → Prop} {s : σ} {items : List α}
    (hstep : ∀ t a, Meets f s items t a → P t → P (f t a).state) (hs : P s) :
    P (run f s items).state :=
  (run_invariant_of_meets (Q := fun _ => True)
    (fun t a h ht _ => ⟨hstep t a h ht, trivial⟩) hs fun _ _ => trivial).1

/-- What every step keeps of the state, the walk keeps. -/
theorem run_state_invariant {P : σ → Prop} {items : List α}
    (hstep : ∀ a ∈ items, ∀ s, P s → P (f s a).state) {s : σ} (hs : P s) :
    P (run f s items).state :=
  run_state_invariant_of_meets (fun t a h => hstep a h.mem t) hs

/-- An item that no step changes is where it was, however the walk ends. -/
theorem run_getElem?_of_fixed {a : α} (hfixed : ∀ s, (f s a).item = a) {items : List α} {i : Nat}
    (hi : items[i]? = some a) (s : σ) : (run f s items).items[i]? = some a := by
  induction items generalizing i s with
  | nil => simp at hi
  | cons b r ih =>
      rw [run_cons]
      cases i with
      | zero =>
          obtain rfl : b = a := by simpa using hi
          cases (f s b).failure <;> simp [hfixed]
      | succ i =>
          have hr : r[i]? = some a := by simpa using hi
          cases (f s b).failure with
          | some e => simpa using hr
          | none => simpa using ih hr _

theorem forall₂_trans {R : α → α → Prop} (htrans : ∀ {a b c}, R a b → R b c → R a c)
    {xs ys zs : List α} (hxy : List.Forall₂ R xs ys) (hyz : List.Forall₂ R ys zs) :
    List.Forall₂ R xs zs := by
  induction hxy generalizing zs with
  | nil => cases hyz; exact .nil
  | cons hab _ ih =>
      cases hyz with
      | cons hbc hrest => exact .cons (htrans hab hbc) (ih hrest)

/-- If every step relates its item to what it makes of it, so does the walk. The
items that it does not reach are related to themselves. -/
theorem run_forall₂ {R : α → α → Prop} (hrefl : ∀ a, R a a) (hstep : ∀ s a, R a (f s a).item)
    (s : σ) (items : List α) : List.Forall₂ R items (run f s items).items := by
  induction items generalizing s with
  | nil => exact .nil
  | cons a r ih =>
      rw [run_cons]
      cases (f s a).failure with
      | some e => exact .cons (hstep s a) (List.forall₂_same.mpr fun b _ => hrefl b)
      | none => exact .cons (hstep s a) (ih _)

/-! ### Positions -/

/-- A walk whose first steps succeed goes on from there. -/
theorem run_of_take {items : List α} {k : Nat} {a : α} (ha : items[k]? = some a) {s : σ}
    (hok : (run f s (items.take k)).failure = none) :
    run f s items =
      behind (run f s (items.take k)).items
        (run f (run f s (items.take k)).state (a :: items.drop (k + 1))) := by
  obtain ⟨hk, rfl⟩ := List.getElem?_eq_some_iff.mp ha
  have hsplit : items = items.take k ++ items[k] :: items.drop (k + 1) := by simp
  conv => lhs; rw [hsplit, run_append, hok]

theorem length_run (f : σ → α → Step α σ ε) (s : σ) (items : List α) :
    (run f s items).items.length = items.length :=
  (run_forall₂ (R := fun _ _ => True) (fun _ => trivial) (fun _ _ => trivial)
    s items).length_eq.symm

/-- A walk ends with the first step that fails, and leaves the items behind it. -/
theorem run_of_failure {items : List α} {k : Nat} {a : α} (ha : items[k]? = some a) {s : σ}
    (hok : (run f s (items.take k)).failure = none) {e : ε}
    (hfail : (f (run f s (items.take k)).state a).failure = some e) :
    (run f s items).failure = some e ∧
      (run f s items).state = (f (run f s (items.take k)).state a).state ∧
      (run f s items).items[k]? = some (f (run f s (items.take k)).state a).item ∧
      (run f s items).items.drop (k + 1) = items.drop (k + 1) := by
  have hk : k < items.length := (List.getElem?_eq_some_iff.mp ha).1
  have hlength : (run f s (items.take k)).items.length = k := by
    rw [length_run, List.length_take, Nat.min_eq_left (Nat.le_of_lt hk)]
  rw [run_of_take ha hok, run_cons, hfail]
  refine ⟨rfl, rfl, ?_, ?_⟩
  · rw [behind_items, List.getElem?_append_right (Nat.le_of_eq hlength), hlength, Nat.sub_self]
    rfl
  · rw [behind_items, List.drop_append, hlength, List.drop_eq_nil_of_le (by omega),
      Nat.add_sub_cancel_left]
    rfl

/-- The same of a walk that ends with the step. -/
theorem run_take_succ {items : List α} {k : Nat} {a : α} (ha : items[k]? = some a) {s : σ}
    (hok : (run f s (items.take k)).failure = none) :
    run f s (items.take (k + 1)) =
      behind (run f s (items.take k)).items (run f (run f s (items.take k)).state [a]) := by
  rw [List.take_add_one, ha, Option.toList_some, run_append, hok]

/-- A walk that fails does so at some step, and the steps before it succeed. -/
theorem exists_of_failure {items : List α} {s : σ} {e : ε} (h : (run f s items).failure = some e) :
    ∃ (k : Nat) (a : α), items[k]? = some a ∧ (run f s (items.take k)).failure = none ∧
      (f (run f s (items.take k)).state a).failure = some e := by
  induction items generalizing s with
  | nil => simp at h
  | cons a r ih =>
      rw [run_cons] at h
      cases hfail : (f s a).failure with
      | some e' =>
          obtain rfl : e' = e := by simpa [hfail] using h
          exact ⟨0, a, rfl, rfl, hfail⟩
      | none =>
          have hrest : (run f (f s a).state r).failure = some e := by simpa [hfail] using h
          obtain ⟨k, b, hb, hok, hstep⟩ := ih hrest
          refine ⟨k + 1, b, hb, ?_, ?_⟩
          · simp only [List.take_succ_cons, run_cons, hfail, behind_failure, hok]
          · simp only [List.take_succ_cons, run_cons, hfail, behind_state, hstep]

/-! ### States seen through a map -/

/-- If the steps from `φ s` are those from `s` with their states mapped, so is the walk. -/
theorem run_map_state {φ : σ → σ}
    (hf : ∀ s a, f (φ s) a = ⟨(f s a).item, φ (f s a).state, (f s a).failure⟩) (s : σ)
    (items : List α) :
    run f (φ s) items =
      ⟨(run f s items).items, φ (run f s items).state, (run f s items).failure⟩ := by
  induction items generalizing s with
  | nil => rfl
  | cons a r ih =>
      rw [run_cons, run_cons, hf]
      cases (f s a).failure with
      | some e => rfl
      | none => simp only [ih, behind]

/-! ### Steps that count

`ι n` is the state at the count `n`. What a step does to its item, whether it
fails and how much it counts are functions of the item alone, so the order of the
items does not show in the outcome. -/

section Counted

variable {ι : Nat → σ} {g : α → Step α Nat ε}

/-- The walk fails if some item does. -/
theorem run_failure_counted
    (hf : ∀ n a, f (ι n) a = ⟨(g a).item, ι (n + (g a).state), (g a).failure⟩)
    (items : List α) (n : Nat) :
    (run f (ι n) items).failure = none ↔ ∀ a ∈ items, (g a).failure = none := by
  induction items generalizing n with
  | nil => simp
  | cons a r ih =>
      rw [run_cons, hf]
      cases h : (g a).failure with
      | some e => simp [h]
      | none => simp [h, ih]

/-- A walk that succeeds changes each item on its own and adds up the counts. -/
theorem run_counted
    (hf : ∀ n a, f (ι n) a = ⟨(g a).item, ι (n + (g a).state), (g a).failure⟩)
    {items : List α} (hok : ∀ a ∈ items, (g a).failure = none) (n : Nat) :
    run f (ι n) items =
      ⟨items.map fun a => (g a).item, ι (n + (items.map fun a => (g a).state).sum), none⟩ := by
  induction items generalizing n with
  | nil => rfl
  | cons a r ih =>
      have ha : (g a).failure = none := hok a List.mem_cons_self
      have hr := ih (fun b hb => hok b (List.mem_cons_of_mem _ hb)) (n + (g a).state)
      rw [run_cons, hf]
      simp only [ha, hr, behind, List.map_cons, List.sum_cons, List.singleton_append]
      rw [Nat.add_assoc]

end Counted

/-! ### Items in full

What a step fills in is there for the next walk through the same items. -/

section Fills

variable {g : α → α} (hf : ∀ s a, Step.Fills g a (f s a) (f s (g a)))
include hf

/-- Filling in the items beforehand does not change what the walk does. -/
theorem run_map_of_fills (s : σ) (items : List α) :
    (run f s (items.map g)).state = (run f s items).state ∧
      (run f s (items.map g)).failure = (run f s items).failure := by
  induction items generalizing s with
  | nil => exact ⟨rfl, rfl⟩
  | cons a r ih =>
      rw [List.map_cons, run_cons, run_cons, (hf s a).failure, (hf s a).state]
      cases (f s a).failure with
      | some e => exact ⟨rfl, rfl⟩
      | none => exact ih (f s a).state

theorem map_items_run (s : σ) (items : List α) : (run f s items).items.map g = items.map g := by
  induction items generalizing s with
  | nil => rfl
  | cons a r ih =>
      rw [run_cons]
      cases (f s a).failure with
      | some e => simp [(hf s a).item]
      | none => simp [(hf s a).item, ih]

theorem items_run_map (s : σ) (items : List α) : (run f s (items.map g)).items = items.map g := by
  induction items generalizing s with
  | nil => rfl
  | cons a r ih =>
      rw [List.map_cons, run_cons]
      cases (f s (g a)).failure with
      | some e => simp [(hf s a).full]
      | none => simp [(hf s a).full, ih]

theorem items_run_of_ok {s : σ} {items : List α} (hok : (run f s items).failure = none) :
    (run f s items).items = items.map g := by
  induction items generalizing s with
  | nil => rfl
  | cons a r ih =>
      rw [run_cons] at hok ⊢
      cases hfail : (f s a).failure with
      | some e => simp [hfail] at hok
      | none =>
          have hrest : (run f (f s a).state r).failure = none := by simpa [hfail] using hok
          simp [(hf s a).done hfail, ih hrest]

end Fills

/-! ### Two walks -/

/-- Walks from corresponding states end alike if all their steps do. -/
theorem run_agree {R : σ → σ → Prop} {items : List α}
    (hstep : ∀ a ∈ items, ∀ s t, R s t → Step.Agree R (f s a) (f t a)) {s t : σ} (h : R s t) :
    Agree R (run f s items) (run f t items) := by
  induction items generalizing s t with
  | nil => exact ⟨Iff.rfl, fun _ => rfl, fun _ => h⟩
  | cons a r ih =>
      have hfirst := hstep a List.mem_cons_self s t h
      rw [run_cons, run_cons]
      cases hs : (f s a).failure with
      | some e =>
          cases ht : (f t a).failure with
          | some e' => exact ⟨by simp, nofun, nofun⟩
          | none => rw [hfirst.failure.mpr ht] at hs; cases hs
      | none =>
          rw [hfirst.failure.mp hs]
          have hrest := ih (fun b hb => hstep b (List.mem_cons_of_mem _ hb)) (hfirst.state hs)
          refine ⟨hrest.failure, fun hok => ?_, hrest.state⟩
          simp only [behind_items, hfirst.item hs, hrest.items hok]

end Sweep
end Graft
