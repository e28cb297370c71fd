import Graft.Proofs.Rule.Splice

/-!
# Graft.Proofs.Rule.Refine

What is taken out of a text, and what becomes of it when it is put back.

A source takes one piece of a text, at a position that has to be inside
(`Node.refine_of_piece_at`, `Node.refine_of_outside`). A target has a place for every position.
Inside, the one undoes the other: a piece spliced in where it was taken out gives the text again
(`Node.refine_pieces`). Cutting anew what was spliced needs a delimiter that does not overlap
itself (`Graft.Proofs.Rule.Splice`). Putting back does not, as the pieces of a text joined are
the text for every delimiter.
-/

namespace Graft

/-- No piece of a text contains the delimiter. -/
theorem Text.not_infix_of_mem_pieces {d t piece : String} (hd : d ≠ "")
    (h : piece ∈ Text.pieces d t) : ¬ d.toList <:+: piece.toList := by
  have hne : d.toList ≠ [] := fun hnil => hd (String.toList_eq_nil_iff.mp hnil)
  obtain ⟨chars, hchars, rfl⟩ := List.mem_map.mp h
  rw [String.toList_ofList]
  exact not_infix_of_mem_cut hne hchars

namespace Node

section Taking

variable {o : FieldOptions} (hd : o.delimiter ≠ "") {n : Node} {t : String}
include hd

theorem refine_of_piece_at (ht : n.text? = some t) {i : Nat} (hindex : o.index = i) {piece : String}
    (hpiece : (Text.pieces o.delimiter t)[i]? = some piece) :
    refine (some o) n = .ok (.scalar n.textTag piece) := by
  rw [Text.pieces, List.getElem?_map, Option.map_eq_some_iff] at hpiece
  obtain ⟨chars, hchars, rfl⟩ := hpiece
  simp only [refine, FieldOptions.splitting_of_ne hd, ht, hindex, pieceAt?_natCast, hchars,
    withText_eq ht]

/-- A piece spliced in at its own position gives the text back. -/
theorem receive_own_piece {target : Node} (ht : target.text? = some t) {i : Nat}
    (hindex : o.index = i) {piece : String}
    (hpiece : (Text.pieces o.delimiter t)[i]? = some piece) (tag : ScalarTag) :
    receive (some o) (.scalar tag piece) target = (.scalar tag t, .ok (.scalar tag t)) := by
  have hcompose := compose_of_text hd (show (scalar tag piece).text? = some piece from rfl) ht
  rw [spliceText_own hd hindex hpiece] at hcompose
  exact receive_of_ok hcompose

end Taking

/-- **A text is taken apart into pieces that fit back.** Whatever the delimiter, the text of a
scalar or of null has at least one piece, and the pieces joined by the delimiter are the text. A
source gets the pieces at their positions, each without the delimiter and under the tag of the
node, and at every other position fails with the position and the text. A piece spliced into a
target with the text, at the position it was taken from, gives the text again. From a mapping or
a sequence nothing is taken. -/
theorem refine_pieces {o : FieldOptions} (hd : o.delimiter ≠ "") (n : Node) :
    (∀ t, n.text? = some t →
      let pieces := Text.pieces o.delimiter t
      1 ≤ pieces.length ∧ o.delimiter.intercalate pieces = t ∧
      (∀ index : Int, ¬ (0 ≤ index ∧ index < pieces.length) →
        refine (some { o with index := index }) n = .error (.noPiece index t)) ∧
      ∀ (i : Nat) (piece : String), pieces[i]? = some piece →
        let taken := Node.scalar n.textTag piece
        let whole := Node.scalar n.textTag t
        refine (some { o with index := i }) n = .ok taken ∧
          ¬ o.delimiter.toList <:+: piece.toList ∧
          ∀ target : Node, target.text? = some t →
            receive (some { o with index := i }) taken target = (whole, .ok whole)) ∧
    (n.text? = none → ∀ index : Int,
      refine (some { o with index := index }) n = .error (.notText n.kind)) := by
  -- the delimiter stays the same at every position
  have hat (index : Int) : ({ o with index := index } : FieldOptions).delimiter ≠ "" := hd
  have hsplit (index : Int) := FieldOptions.splitting_of_ne (hat index)
  refine ⟨fun t ht => ?_, fun ht index => refine_of_text?_eq_none (hsplit index) ht⟩
  intro pieces
  refine ⟨?_, Text.intercalate_pieces hd t, ?_, ?_⟩
  · exact List.length_pos_of_ne_nil (Text.pieces_ne_nil o.delimiter t)
  · intro index houtside
    have hindex : index < 0 ∨ pieces.length ≤ index := by omega
    simp only [pieces, Text.length_pieces] at hindex
    exact refine_of_outside (hsplit index) ht hindex
  · intro i piece hpiece taken whole
    refine ⟨refine_of_piece_at (hat i) ht rfl hpiece, ?_, ?_⟩
    · exact Text.not_infix_of_mem_pieces hd (List.mem_of_getElem? hpiece)
    · intro target htarget
      exact receive_own_piece (hat i) htarget rfl hpiece n.textTag

/-- The delimiter is found twice, and not where it overlaps the first one. -/
theorem refine_pieces_overlapping :
    let options (index : Int) : Option FieldOptions := some { delimiter := "aba", index := index }
    let n : Node := .scalar .int "ababaXaba"
    let piece : Node := .scalar .int "baX"
    refine (options 1) n = .ok piece ∧
      receive (options 1) piece (.string "ababaXaba") = (n, .ok n) ∧
      refine (options 3) n = .error (.noPiece 3 "ababaXaba") ∧
      refine (options (-1)) n = .error (.noPiece (-1) "ababaXaba") ∧
      refine (options 0) (.sequence []) = .error (.notText .sequence) := by
  intro options n piece
  let o : FieldOptions := { delimiter := "aba" }
  have hd : o.delimiter ≠ "" := by decide
  have hpiece : (Text.pieces o.delimiter "ababaXaba")[1]? = some "baX" := by decide
  obtain ⟨-, -, houtside, hinside⟩ := (refine_pieces hd n).1 "ababaXaba" rfl
  obtain ⟨hrefine, -, hreceive⟩ := hinside 1 "baX" hpiece
  refine ⟨hrefine, hreceive (.string "ababaXaba") rfl, ?_, ?_, ?_⟩
  · exact houtside 3 (by decide)
  · exact houtside (-1) (by decide)
  · exact (refine_pieces hd (.sequence [])).2 rfl 0

end Node
end Graft
