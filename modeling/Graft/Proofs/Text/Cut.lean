import Mathlib.Data.List.Infix
import Graft.Text.Cut

/-!
# Graft.Proofs.Text.Cut

The pieces of a text between the occurrences of a delimiter.

A text is empty, begins with the delimiter, or begins with a character at which no
delimiter begins. `Text.cut` has one equation for each (`cut_nil`, `cut_append_self`,
`cut_cons_of_no_delimiter`), and everything here is an induction over these three cases
(`Text.cutInduction`):

* the pieces joined by the delimiter are the text (`join_cut`), and none of them contains
  the delimiter (`not_infix_of_mem_cut`), so cutting them again does nothing
  (`cut_of_mem_cut`);
* a delimiter that does not overlap itself is found at every seam, so a text put together
  from others has the pieces of them all (`cut_append`, `cut_join`).
-/

namespace Graft
namespace Text

variable {d : List Char}

/-! ### The equations of a cut -/

theorem cutFrom_skip (d piece : List Char) (skip : Nat) (t : List Char) :
    cutFrom d piece skip t = cutFrom d piece 0 (t.drop skip) := by
  induction t generalizing skip with
  | nil => simp [cutFrom]
  | cons c r ih =>
      cases skip with
      | zero => rfl
      | succ skip => exact ih skip

/-- The text of an open piece only stands in front of the first piece. -/
theorem cutFrom_piece (d piece t : List Char) :
    cutFrom d piece 0 t = (cut d t).modifyHead (piece.reverse ++ ·) := by
  induction t generalizing piece with
  | nil => simp [cutFrom]
  | cons c r ih =>
      by_cases h : d.isPrefixOf (c :: r) = true
      · simp [cut, cutFrom, h]
      · rw [cut, cutFrom, cutFrom, if_neg h, if_neg h, ih (c :: piece), ih [c],
          List.modifyHead_modifyHead]
        congr 1
        funext p
        simp

/-- A delimiter at the front ends an empty piece. -/
theorem cut_append_self (hd : d ≠ []) (t : List Char) : cut d (d ++ t) = [] :: cut d t := by
  obtain ⟨c, r, rfl⟩ := List.exists_cons_of_ne_nil hd
  have hprefix : (c :: r).isPrefixOf (c :: (r ++ t)) = true :=
    List.isPrefixOf_iff_prefix.mpr (List.prefix_append (c :: r) t)
  rw [cut, List.cons_append, cutFrom, if_pos hprefix, cutFrom_skip]
  simp [cut]

/-- A character at which no delimiter begins belongs to the first piece. -/
theorem cut_cons_of_no_delimiter {c : Char} {r : List Char} (h : ¬ d <+: c :: r) :
    cut d (c :: r) = (cut d r).modifyHead (c :: ·) := by
  rw [← List.isPrefixOf_iff_prefix] at h
  rw [cut, cutFrom, if_neg h, cutFrom_piece]
  rfl

/-- Induction over the occurrences of a delimiter, from the left. -/
theorem cutInduction (hd : d ≠ []) {motive : List Char → Prop} (nil : motive [])
    (found : ∀ t, motive t → motive (d ++ t))
    (step : ∀ c r, ¬ d <+: c :: r → motive r → motive (c :: r)) (t : List Char) : motive t := by
  induction hn : t.length using Nat.strong_induction_on generalizing t with
  | _ n ih =>
    cases t with
    | nil => exact nil
    | cons c r =>
        by_cases h : d <+: c :: r
        · obtain ⟨t, ht⟩ := h
          have hlength : d.length + t.length = n := by
            rw [← hn, ← ht, List.length_append]
          have hpos := List.length_pos_of_ne_nil hd
          rw [← ht]
          exact found t (ih t.length (by omega) t rfl)
        · rw [List.length_cons] at hn
          exact step c r h (ih r.length (by omega) r rfl)

/-! ### The pieces of one text -/

/-- The pieces joined again are the text. -/
theorem join_cut (hd : d ≠ []) (t : List Char) : join d (cut d t) = t := by
  induction t using cutInduction hd with
  | nil => simp [join]
  | found t ih =>
      obtain ⟨p, ps, hcut⟩ := List.exists_cons_of_ne_nil (cut_ne_nil d t)
      rw [cut_append_self hd, hcut, join, List.intercalate_cons_cons, ← hcut]
      rw [join] at ih
      rw [ih, List.nil_append]
  | step c r h ih =>
      obtain ⟨p, ps, hcut⟩ := List.exists_cons_of_ne_nil (cut_ne_nil d r)
      rw [cut_cons_of_no_delimiter h, hcut, List.modifyHead_cons]
      rw [hcut] at ih
      cases ps with
      | nil => simpa [join] using ih
      | cons q ps => simpa [join, List.intercalate_cons_cons] using ih

theorem prefix_of_cut (hd : d ≠ []) {t p : List Char} {ps : List (List Char)}
    (h : cut d t = p :: ps) : p <+: t := by
  have hjoin := join_cut hd t
  rw [h] at hjoin
  cases ps with
  | nil =>
      rw [join, List.intercalate_singleton] at hjoin
      rw [hjoin]
  | cons q ps =>
      rw [join, List.intercalate_cons_cons, List.append_assoc] at hjoin
      exact ⟨_, hjoin⟩

/-- No piece contains the delimiter. -/
theorem not_infix_of_mem_cut (hd : d ≠ []) {t p : List Char} (hp : p ∈ cut d t) : ¬ d <:+: p := by
  induction t using cutInduction hd generalizing p with
  | nil =>
      obtain rfl : p = [] := by simpa using hp
      simpa using hd
  | found t ih =>
      rw [cut_append_self hd] at hp
      rcases List.mem_cons.mp hp with rfl | hp
      · simpa using hd
      · exact ih hp
  | step c r h ih =>
      obtain ⟨q, qs, hcut⟩ := List.exists_cons_of_ne_nil (cut_ne_nil d r)
      rw [cut_cons_of_no_delimiter h, hcut, List.modifyHead_cons] at hp
      rw [hcut] at ih
      rcases List.mem_cons.mp hp with rfl | hp
      · rw [List.infix_cons_iff]
        rintro (hfront | hinside)
        · -- the piece is the front of the text
          have hq : c :: q <+: c :: r := (List.prefix_cons_inj c).mpr (prefix_of_cut hd hcut)
          exact h (hfront.trans hq)
        · exact ih List.mem_cons_self hinside
      · exact ih (List.mem_cons_of_mem _ hp)

/-- A text without the delimiter is one piece. -/
theorem cut_of_not_infix (hd : d ≠ []) {t : List Char} (h : ¬ d <:+: t) : cut d t = [t] := by
  induction t using cutInduction hd with
  | nil => rfl
  | found t _ => exact absurd (List.prefix_append d t).isInfix h
  | step c r hfront ih =>
      have hr : ¬ d <:+: r := fun hinside => h (List.infix_cons_iff.mpr (.inr hinside))
      rw [cut_cons_of_no_delimiter hfront, ih hr, List.modifyHead_cons]

theorem cut_of_mem_cut (hd : d ≠ []) {t p : List Char} (hp : p ∈ cut d t) : cut d p = [p] :=
  cut_of_not_infix hd (not_infix_of_mem_cut hd hp)

/-! ### The pieces of texts put together -/

/-- A delimiter of which no front is also an end, so that it does not overlap itself. -/
def Unbordered (d : List Char) : Prop := ∀ p, p <+: d → p <:+ d → p = [] ∨ p = d

instance (d : List Char) : Decidable (Unbordered d) :=
  decidable_of_iff (∀ p ∈ d.inits, p <:+ d → p = [] ∨ p = d) (by simp [Unbordered])

/-- What begins in front of the delimiter at a seam ends in front of it. -/
theorem Unbordered.prefix_of_seam (hborder : Unbordered d) {a b : List Char} (ha : a ≠ [])
    (h : d <+: a ++ d ++ b) : d <+: a := by
  rw [List.append_assoc] at h
  by_cases hlength : d.length ≤ a.length
  · exact List.prefix_of_prefix_length_le h (List.prefix_append a _) hlength
  · exfalso
    -- otherwise `d` goes on behind `a` with a front of itself
    obtain ⟨p, rfl⟩ : a <+: d :=
      List.prefix_of_prefix_length_le (List.prefix_append a _) h (by omega)
    have hp : p <+: a ++ p :=
      List.prefix_of_prefix_length_le ((List.prefix_append_right_inj a).mp h)
        (List.prefix_append (a ++ p) b) (by simp)
    have hpos := List.length_pos_of_ne_nil ha
    rcases hborder p hp (List.suffix_append a p) with rfl | hsame
    · simp at hlength
    · have hlengths := congrArg List.length hsame
      rw [List.length_append] at hlengths
      omega

/-- At a seam the delimiter is found. -/
theorem cut_append (hd : d ≠ []) (hborder : Unbordered d) (a b : List Char) :
    cut d (a ++ d ++ b) = cut d a ++ cut d b := by
  induction a using cutInduction hd with
  | nil => exact cut_append_self hd b
  | found t ih =>
      rw [List.append_assoc, List.append_assoc, cut_append_self hd, ← List.append_assoc, ih,
        cut_append_self hd, List.cons_append]
  | step c r h ih =>
      obtain ⟨p, ps, hcut⟩ := List.exists_cons_of_ne_nil (cut_ne_nil d r)
      have hseam : ¬ d <+: c :: (r ++ d ++ b) := fun hfront =>
        h (hborder.prefix_of_seam (List.cons_ne_nil c r) hfront)
      rw [cut_cons_of_no_delimiter h, List.cons_append, List.cons_append,
        cut_cons_of_no_delimiter hseam, ih, hcut]
      rfl

/-- Texts joined by the delimiter have the pieces of them all. -/
theorem cut_join (hd : d ≠ []) (hborder : Unbordered d) {texts : List (List Char)}
    (hne : texts ≠ []) : cut d (join d texts) = texts.flatMap (cut d) := by
  induction texts with
  | nil => exact absurd rfl hne
  | cons t r ih =>
      cases r with
      | nil => simp [join]
      | cons u r =>
          rw [join, List.intercalate_cons_cons, cut_append hd hborder, List.flatMap_cons]
          exact congrArg _ (ih (List.cons_ne_nil u r))

/-! ### Texts -/

/-- The pieces of a text, as texts. -/
def pieces (d t : String) : List String := (cut d.toList t.toList).map String.ofList

theorem pieces_ne_nil (d t : String) : pieces d t ≠ [] := by
  simpa [pieces] using cut_ne_nil d.toList t.toList

theorem length_pieces (d t : String) : (pieces d t).length = (cut d.toList t.toList).length := by
  simp [pieces]

theorem intercalate_ofList (d : String) (texts : List (List Char)) :
    d.intercalate (texts.map String.ofList) = String.ofList (join d.toList texts) := by
  rw [← String.toList_inj, String.toList_intercalate, String.toList_ofList, List.map_map]
  simp [Function.comp_def, join]

theorem intercalate_pieces {d : String} (hd : d ≠ "") (t : String) :
    d.intercalate (pieces d t) = t := by
  have hne : d.toList ≠ [] := fun hnil => hd (String.toList_eq_nil_iff.mp hnil)
  rw [pieces, intercalate_ofList, join_cut hne, String.ofList_toList]

end Text
end Graft
