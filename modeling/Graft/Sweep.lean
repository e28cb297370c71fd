/-!
# Graft.Sweep

Going through a list once, front to back, with a state: each step may change its
item and the state, and the first failure ends the walk. What was done up to then
stays, the failing step included, and the items behind it are left as they were.

Rules, targets, documents and fields are all gone through in this way.
-/

namespace Graft

/-- What one step did: its item, the state, and why it failed if it did. -/
structure Step (α σ ε : Type) where
  /-- The item after the step. -/
  item : α
  /-- The state after the step. -/
  state : σ
  /-- Why the step failed. -/
  failure : Option ε

/-- What a walk did. -/
structure Sweep (α σ ε : Type) where
  /-- The items after the walk. -/
  items : List α
  /-- The state after the walk. -/
  state : σ
  /-- Why the walk ended early. -/
  failure : Option ε

namespace Sweep

variable {α σ ε : Type}

/-- Walks on behind the items that are `done`, latest first. -/
def onto (f : σ → α → Step α σ ε) (done : List α) (s : σ) : List α → Sweep α σ ε
  | [] => ⟨done.reverse, s, none⟩
  | a :: r =>
    match f s a with
    | ⟨a, s, none⟩ => onto f (a :: done) s r
    | ⟨a, s, some e⟩ => ⟨done.reverse ++ a :: r, s, some e⟩

/-- Walks through a list. -/
def run (f : σ → α → Step α σ ε) (s : σ) (items : List α) : Sweep α σ ε := onto f [] s items

/-- Puts items in front of those of a walk. -/
def behind (front : List α) (w : Sweep α σ ε) : Sweep α σ ε :=
  { w with items := front ++ w.items }

/-! ### Interface lemmas -/

@[simp] theorem behind_nil (w : Sweep α σ ε) : behind [] w = w := rfl

@[simp] theorem behind_behind (xs ys : List α) (w : Sweep α σ ε) :
    behind xs (behind ys w) = behind (xs ++ ys) w := by simp [behind]

/-- What is done already only stands in front of what follows. -/
theorem onto_eq_behind (f : σ → α → Step α σ ε) (done : List α) (s : σ) (items : List α) :
    onto f done s items = behind done.reverse (onto f [] s items) := by
  induction items generalizing done s with
  | nil => simp [onto, behind]
  | cons a r ih =>
    simp only [onto]
    cases h : f s a with
    | mk a' s' failure =>
      cases failure with
      | none => simp only; rw [ih, ih [a']]; simp
      | some e => simp [behind]

@[simp] theorem run_nil (f : σ → α → Step α σ ε) (s : σ) : run f s [] = ⟨[], s, none⟩ := rfl

/-- A walk is its first step and, if that did not fail, the walk through the rest. -/
theorem run_cons (f : σ → α → Step α σ ε) (s : σ) (a : α) (r : List α) :
    run f s (a :: r) =
      match (f s a).failure with
      | none => behind [(f s a).item] (run f (f s a).state r)
      | some e => ⟨(f s a).item :: r, (f s a).state, some e⟩ := by
  simp only [run, onto]
  cases h : f s a with
  | mk a' s' failure =>
    cases failure with
    | none => simp only; rw [onto_eq_behind]; rfl
    | some e => rfl

/-- A walk through two lists is the walk through the first and, if that did not
fail, the walk through the second. -/
theorem run_append (f : σ → α → Step α σ ε) (s : σ) (xs ys : List α) :
    run f s (xs ++ ys) =
      match (run f s xs).failure with
      | none => behind (run f s xs).items (run f (run f s xs).state ys)
      | some e => ⟨(run f s xs).items ++ ys, (run f s xs).state, some e⟩ := by
  induction xs generalizing s with
  | nil => simp
  | cons a r ih =>
    simp only [List.cons_append, run_cons]
    cases h : (f s a).failure with
    | some e => rfl
    | none =>
      simp only [ih]
      cases hr : (run f (f s a).state r).failure <;> simp [behind, hr]

end Sweep
end Graft
