import Graft.Rule
import Graft.Rule.Failure
import Graft.Text.Cut

/-!
# Graft.Rule.Splice

Delimited texts: taking one piece of a text, and putting a value among the pieces
of a text.

`refine` is the source's side. It answers with the piece at a position, which has
to exist. `compose` is the target's side. It answers with the value whose text is
the target's with the old text of the value put in; here a position outside the
pieces means the front or the end. Both keep the tag of the value, and without a
delimiter both leave the value as it is.
-/

namespace Graft

/-- The pieces with one more: in front for a negative position, at the end for a
position behind them, and in place of the piece at the position otherwise. -/
def placePiece (index : Int) (piece : List Char) (pieces : List (List Char)) :
    List (List Char) :=
  if index < 0 then piece :: pieces
  else if pieces.length ≤ index.toNat then pieces ++ [piece]
  else pieces.set index.toNat piece

/-- The piece at a position. -/
def pieceAt? (index : Int) (pieces : List (List Char)) : Option (List Char) :=
  if index < 0 then none else pieces[index.toNat]?

namespace Node

/-- The part of a value that the options ask for. -/
def refine (options : Option FieldOptions) (value : Node) : Except Failure Node :=
  match FieldOptions.splitting options with
  | none => .ok value
  | some o =>
    match value.text? with
    | none => .error (.notText value.kind)
    | some text =>
      match pieceAt? o.index (Text.cut o.delimiter.toList text.toList) with
      | some piece => .ok (value.withText (String.ofList piece))
      | none => .error (.noPiece o.index text)

/-- A text with another one put among its pieces. -/
def spliceText (o : FieldOptions) (current text : String) : String :=
  let d := o.delimiter.toList
  String.ofList (Text.join d (placePiece o.index text.toList (Text.cut d current.toList)))

/-- The value as it is written over a target. It is also the value from then on,
so that a later target sees the text composed for the ones before it. -/
def compose (options : Option FieldOptions) (value target : Node) : Except Failure Node :=
  match FieldOptions.splitting options with
  | none => .ok value
  | some o =>
    match target.text? with
    | none => .error (.notText target.kind)
    | some current =>
      match value.text? with
      | none => .error (.notText value.kind)
      | some text => .ok (value.withText (spliceText o current text))

/-! ### Interface lemmas -/

/-- Without a delimiter the whole value is taken. -/
theorem refine_of_splitting_eq_none {options : Option FieldOptions}
    (h : FieldOptions.splitting options = none) (value : Node) :
    refine options value = .ok value := by simp [refine, h]

/-- Without a delimiter the value itself is written. -/
theorem compose_of_splitting_eq_none {options : Option FieldOptions}
    (h : FieldOptions.splitting options = none) (value target : Node) :
    compose options value target = .ok value := by simp [compose, h]

end Node
end Graft
