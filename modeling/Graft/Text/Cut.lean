/-!
# Graft.Text.Cut

Cutting a text at a delimiter and joining the pieces again.

`cut` takes the occurrences of the delimiter from the left, none overlapping the
one before, so `ababa` cut at `aba` is the empty piece and `ba`. There is always
at least one piece, and joining the pieces by the delimiter gives the text back.
-/

namespace Graft
namespace Text

/-- Cuts on from inside a piece: `piece` is its reversed text so far, and `skip`
the number of characters that still belong to the delimiter just found. -/
def cutFrom (d : List Char) (piece : List Char) : Nat → List Char → List (List Char)
  | _, [] => [piece.reverse]
  | skip + 1, _ :: r => cutFrom d piece skip r
  | 0, c :: r =>
    if d.isPrefixOf (c :: r) then piece.reverse :: cutFrom d [] (d.length - 1) r
    else cutFrom d (c :: piece) 0 r

/-- The pieces of a text between the occurrences of a non-empty delimiter. -/
def cut (d t : List Char) : List (List Char) := cutFrom d [] 0 t

/-- The pieces with the delimiter between them. -/
def join (d : List Char) (pieces : List (List Char)) : List Char := d.intercalate pieces

/-! ### Interface lemmas -/

theorem cutFrom_ne_nil (d piece : List Char) (skip : Nat) (t : List Char) :
    cutFrom d piece skip t ≠ [] := by
  fun_induction cutFrom d piece skip t <;> simp_all

theorem cut_ne_nil (d t : List Char) : cut d t ≠ [] := cutFrom_ne_nil d [] 0 t

@[simp] theorem cut_nil (d : List Char) : cut d [] = [[]] := rfl

end Text
end Graft
