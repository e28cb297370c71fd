import Graft.Proofs.Text.Cut
import Graft.Rule.Target

/-!
# Graft.Proofs.Rule.Splice

What splicing makes of the pieces of a text.

Splicing puts the whole text of the value among the pieces of the target and joins them
again. If the delimiter does not overlap itself, the text is then cut where it was joined,
and also where the value's text has delimiters of its own: the pieces of the value stand
among those of the target (`Text.cut_join_placePiece`). So one piece of the target is
edited, or one end of it (`Node.receive_spliced`), and a value that is one piece is found
again where it was put.

Without looking at the pieces again, splicing is plain for every delimiter: in front of all
pieces or behind them the value's text stands in front of the whole target or behind it
(`Node.spliceText_front`, `Node.spliceText_behind`), and a piece put back in its own place
leaves the text (`Node.spliceText_own`).
-/

namespace Graft

/-! ### Pieces among pieces -/

/-- Some pieces with others among them: in front for a negative position, at the end for a
position behind the pieces, and otherwise in place of the piece at the position. -/
def placePieces (index : Int) (others pieces : List (List Char)) : List (List Char) :=
  if index < 0 then others ++ pieces
  else if pieces.length ≤ index.toNat then pieces ++ others
  else pieces.take index.toNat ++ others ++ pieces.drop (index.toNat + 1)

/-- Where the first of the others stands then. -/
def placeOf (index : Int) (pieces : List (List Char)) : Int :=
  if index < 0 then 0 else if pieces.length ≤ index.toNat then pieces.length else index

theorem pieceAt?_natCast (i : Nat) (pieces : List (List Char)) :
    pieceAt? i pieces = pieces[i]? := by
  have hi : ¬ (i : Int) < 0 := by omega
  simp [pieceAt?, hi]

theorem pieceAt?_eq_none_iff {index : Int} {pieces : List (List Char)} :
    pieceAt? index pieces = none ↔ index < 0 ∨ pieces.length ≤ index := by
  unfold pieceAt?
  split
  · next h => exact iff_of_true rfl (.inl h)
  · next h => rw [List.getElem?_eq_none_iff]; omega

/-- One other piece is found where it was put. -/
theorem pieceAt?_placePieces (index : Int) (piece : List Char) (pieces : List (List Char)) :
    pieceAt? (placeOf index pieces) (placePieces index [piece] pieces) = some piece := by
  unfold placeOf placePieces
  split
  · rfl
  · next hindex =>
    split
    · rw [pieceAt?_natCast]
      simp
    · next hlt =>
      obtain ⟨i, rfl⟩ := Int.eq_ofNat_of_zero_le (by omega : 0 ≤ index)
      have hi : i < pieces.length := by simpa using hlt
      rw [pieceAt?_natCast, Int.toNat_natCast, List.append_assoc,
        List.getElem?_append_right (List.length_take_le i pieces)]
      simp [Nat.min_eq_left (Nat.le_of_lt hi)]

theorem placePiece_ne_nil (index : Int) (piece : List Char) {pieces : List (List Char)}
    (h : pieces ≠ []) : placePiece index piece pieces ≠ [] := by
  unfold placePiece
  split
  · exact List.cons_ne_nil _ _
  · split
    · simp
    · simpa using h

namespace Text

variable {d : List Char}

theorem flatMap_cut_of_mem (hd : d ≠ []) {t : List Char} {pieces : List (List Char)}
    (h : ∀ p ∈ pieces, p ∈ cut d t) : pieces.flatMap (cut d) = pieces := by
  calc pieces.flatMap (cut d) = pieces.flatMap fun p => [p] :=
        List.flatMap_congr fun p hp => cut_of_mem_cut hd (h p hp)
    _ = pieces := List.flatMap_singleton' pieces

/-- A text put among the pieces of another one brings its own pieces with it. -/
theorem cut_join_placePiece (hd : d ≠ []) (hborder : Unbordered d) (index : Int)
    (text t : List Char) :
    cut d (join d (placePiece index text (cut d t))) =
      placePieces index (cut d text) (cut d t) := by
  have hself {pieces : List (List Char)} (h : ∀ p ∈ pieces, p ∈ cut d t) :
      pieces.flatMap (cut d) = pieces := flatMap_cut_of_mem hd h
  rw [cut_join hd hborder (placePiece_ne_nil index text (cut_ne_nil d t))]
  unfold placePiece placePieces
  split
  · rw [List.flatMap_cons, hself fun p hp => hp]
  · split
    · rw [List.flatMap_append, hself fun p hp => hp, List.flatMap_singleton]
    · next hlt =>
      rw [List.set_eq_take_append_cons_drop, if_pos (Nat.lt_of_not_le hlt), List.flatMap_append,
        List.flatMap_cons, hself fun p hp => List.mem_of_mem_take hp,
        hself fun p hp => List.mem_of_mem_drop hp, List.append_assoc]

end Text

/-! ### Texts among the pieces of a text -/

namespace Node

variable {o : FieldOptions}

theorem spliceText_eq (o : FieldOptions) (t v : String) :
    spliceText o t v = o.delimiter.intercalate
      (if o.index < 0 then v :: Text.pieces o.delimiter t
        else if (Text.pieces o.delimiter t).length ≤ o.index.toNat then
          Text.pieces o.delimiter t ++ [v]
        else (Text.pieces o.delimiter t).set o.index.toNat v) := by
  have hv : [v] = [v.toList].map String.ofList := by simp
  rw [spliceText, ← Text.intercalate_ofList, placePiece, Text.length_pieces, Text.pieces]
  congr 1
  split
  · rw [List.map_cons, String.ofList_toList]
  · split
    · rw [List.map_append, ← hv]
    · rw [List.map_set, String.ofList_toList]

/-- In front of all pieces a text stands in front of the whole text, whether or not
the delimiter overlaps itself. -/
theorem spliceText_front (hd : o.delimiter ≠ "") (h : o.index < 0) (t v : String) :
    spliceText o t v = v ++ o.delimiter ++ t := by
  rw [spliceText_eq, if_pos h,
    String.intercalate_cons_of_ne_nil (Text.pieces_ne_nil o.delimiter t),
    Text.intercalate_pieces hd]

/-- Behind all pieces a text stands behind the whole text. -/
theorem spliceText_behind (hd : o.delimiter ≠ "") {t : String}
    (h : (Text.pieces o.delimiter t).length ≤ o.index) (v : String) :
    spliceText o t v = t ++ o.delimiter ++ v := by
  rw [spliceText_eq, if_neg (by omega), if_pos (by omega),
    String.intercalate_append_of_ne_nil (Text.pieces_ne_nil o.delimiter t) (List.cons_ne_nil v []),
    Text.intercalate_pieces hd, String.intercalate_singleton]

/-- A piece put back in its place leaves the text. -/
theorem spliceText_own (hd : o.delimiter ≠ "") {i : Nat} (h : o.index = i) {t piece : String}
    (hpiece : (Text.pieces o.delimiter t)[i]? = some piece) : spliceText o t piece = t := by
  obtain ⟨hi, rfl⟩ := List.getElem?_eq_some_iff.mp hpiece
  rw [spliceText_eq, if_neg (by omega), if_neg (by omega), h]
  show o.delimiter.intercalate ((Text.pieces o.delimiter t).set i _) = t
  rw [List.set_getElem_self, Text.intercalate_pieces hd]

end Node

/-! ### Values and targets -/

theorem FieldOptions.splitting_of_ne {o : FieldOptions} (h : o.delimiter ≠ "") :
    splitting (some o) = some o := by
  simp [splitting, h]

namespace Node

/-- The tag that the text of a node is written under; a null becomes a string. -/
def textTag : Node → ScalarTag
  | .scalar tag _ => tag
  | _ => .str

theorem withText_eq {n : Node} {old : String} (h : n.text? = some old) (text : String) :
    n.withText text = .scalar n.textTag text := by
  cases n with
  | null => rfl
  | scalar tag _ => rfl
  | mapping entries => cases h
  | sequence items => cases h

/-- A target that does not take the value stays. -/
theorem receive_of_error {options : Option FieldOptions} {value target : Node} {e : Failure}
    (h : compose options value target = .error e) :
    receive options value target = (target, .error e) := by
  simp only [receive, h]

theorem receive_of_ok {options : Option FieldOptions} {value target v : Node}
    (h : compose options value target = .ok v) : receive options value target = (v, .ok v) := by
  simp only [receive, h]

/-- A target answers with what was composed for it. -/
theorem snd_receive (options : Option FieldOptions) (value target : Node) :
    (receive options value target).2 = compose options value target := by
  cases h : compose options value target with
  | error e => rw [receive_of_error h]
  | ok v => rw [receive_of_ok h]

theorem compose_of_text {o : FieldOptions} (hd : o.delimiter ≠ "") {value target : Node}
    {v t : String} (hv : value.text? = some v) (ht : target.text? = some t) :
    compose (some o) value target = .ok (.scalar value.textTag (spliceText o t v)) := by
  simp only [compose, FieldOptions.splitting_of_ne hd, ht, hv, withText_eq hv]

section Splitting

variable {options : Option FieldOptions} {o : FieldOptions}
  (hsplit : FieldOptions.splitting options = some o)
include hsplit

theorem compose_of_text?_eq_none {target : Node} (ht : target.text? = none) (value : Node) :
    compose options value target = .error (.notText target.kind) := by
  simp only [compose, hsplit, ht]

theorem refine_of_text?_eq_none {value : Node} (hv : value.text? = none) :
    refine options value = .error (.notText value.kind) := by
  simp only [refine, hsplit, hv]

theorem refine_of_outside {value : Node} {v : String} (hv : value.text? = some v)
    (hindex : o.index < 0 ∨ (Text.cut o.delimiter.toList v.toList).length ≤ o.index) :
    refine options value = .error (.noPiece o.index v) := by
  simp only [refine, hsplit, hv, pieceAt?_eq_none_iff.mpr hindex]

end Splitting

theorem refine_of_piece {o : FieldOptions} (hd : o.delimiter ≠ "") {tag : ScalarTag}
    {text piece : String}
    (h : pieceAt? o.index (Text.cut o.delimiter.toList text.toList) = some piece.toList) :
    refine (some o) (.scalar tag text) = .ok (.scalar tag piece) := by
  simp only [refine, FieldOptions.splitting_of_ne hd, text?, h, withText, String.ofList_toList]

/-- **Splicing edits one piece.** With a delimiter that does not overlap itself, a value
with a text is always written over a target with a text, and both become one scalar with
the value's tag. Cut again, its text has the pieces of the target, with those of the value
in front of them, behind them or in place of one of them, as the position asks. So a value
without the delimiter in it is taken out again at the place where it was put. -/
theorem receive_spliced {o : FieldOptions} (hd : o.delimiter ≠ "")
    (hborder : Text.Unbordered o.delimiter.toList) {value target : Node} {v t : String}
    (hv : value.text? = some v) (ht : target.text? = some t) :
    let d := o.delimiter.toList
    let pieces := Text.cut d t.toList
    ∃ text,
      let written := Node.scalar value.textTag text
      let gives (index : Int) := ¬ d <:+: v.toList →
        refine (some { o with index := index }) written = .ok (.scalar value.textTag v)
      receive (some o) value target = (written, .ok written) ∧
        (o.index < 0 → Text.cut d text.toList = Text.cut d v.toList ++ pieces ∧ gives 0) ∧
        (pieces.length ≤ o.index →
          Text.cut d text.toList = pieces ++ Text.cut d v.toList ∧ gives pieces.length) ∧
        ∀ i : Nat, o.index = i → i < pieces.length →
          Text.cut d text.toList = pieces.take i ++ Text.cut d v.toList ++ pieces.drop (i + 1) ∧
            gives i := by
  intro d pieces
  have hne : d ≠ [] := fun hnil => hd (String.toList_eq_nil_iff.mp hnil)
  refine ⟨spliceText o t v, receive_of_ok (compose_of_text hd hv ht), ?_⟩
  have hcut : Text.cut d (spliceText o t v).toList =
      placePieces o.index (Text.cut d v.toList) pieces := by
    rw [spliceText, String.toList_ofList]
    exact Text.cut_join_placePiece hne hborder o.index v.toList t.toList
  have hgives (hfree : ¬ d <:+: v.toList) :
      refine (some { o with index := placeOf o.index pieces })
        (.scalar value.textTag (spliceText o t v)) = .ok (.scalar value.textTag v) := by
    have hpiece : pieceAt? (placeOf o.index pieces) (Text.cut d (spliceText o t v).toList) =
        some v.toList := by
      rw [hcut, Text.cut_of_not_infix hne hfree]
      exact pieceAt?_placePieces o.index v.toList pieces
    let placed : FieldOptions := { o with index := placeOf o.index pieces }
    exact refine_of_piece (o := placed) hd hpiece
  refine ⟨fun hindex => ?_, fun hindex => ?_, fun i hindex hi => ?_⟩
  · have hplace : placeOf o.index pieces = 0 := if_pos hindex
    rw [hplace] at hgives
    rw [hcut, placePieces, if_pos hindex]
    exact ⟨rfl, hgives⟩
  · have hnat : pieces.length ≤ o.index.toNat := by omega
    have hplace : placeOf o.index pieces = pieces.length := by
      rw [placeOf, if_neg (by omega), if_pos hnat]
    rw [hplace] at hgives
    rw [hcut, placePieces, if_neg (by omega), if_pos hnat]
    exact ⟨rfl, hgives⟩
  · have hnat : o.index.toNat = i := by omega
    have hplace : placeOf o.index pieces = i := by
      rw [placeOf, if_neg (by omega), if_neg (by omega), hindex]
    rw [hplace] at hgives
    rw [hcut, placePieces, if_neg (by omega), if_neg (by omega), hnat]
    exact ⟨rfl, hgives⟩

/-- A number in place of a piece that is itself the beginning of an arrow. It stands between two
arrows then, and is found there again. -/
theorem receive_spliced_arrows :
    let o : FieldOptions := { delimiter := "->", index := 1 }
    ∃ text,
      receive (some o) (.scalar .int "7") (.scalar .str "x->-->z") =
          (.scalar .int text, .ok (.scalar .int text)) ∧
        Text.cut "->".toList text.toList = ["x".toList, "7".toList, "z".toList] ∧
        refine (some o) (.scalar .int text) = .ok (.scalar .int "7") := by
  intro o
  have hv : (Node.scalar .int "7").text? = some "7" := rfl
  have ht : (Node.scalar .str "x->-->z").text? = some "x->-->z" := rfl
  obtain ⟨text, hreceive, -, -, hinside⟩ := receive_spliced (o := o) (by decide) (by decide) hv ht
  obtain ⟨hcut, hgives⟩ := hinside 1 rfl (by decide)
  exact ⟨text, hreceive, hcut.trans (by decide), hgives (by decide)⟩

end Node
end Graft
