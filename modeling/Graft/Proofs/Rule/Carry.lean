import Graft.Proofs.Rule.Trace

/-!
# Graft.Proofs.Rule.Carry

What becomes of a value that is spliced into many targets.

The value is on its way from target to target and takes their texts along. Targets without a
text stay and leave it as it is, so only the texts of the others count
(`Node.text?_carried`). In front of all pieces or behind them a text stands in front of the
whole target or behind it, so there the text of the value is the texts of the targets and its
own, joined by the delimiter (`Node.receiveAll_carried`). Whether the delimiter overlaps itself
does not matter for that, nor whether it is found in the value: what is cut is always a target,
and its pieces joined again are its text.

The value that a target of a rule leaves for the next one is such a value
(`Target.exists_carried_write`).
-/

namespace Graft
namespace Node

/-! ### Texts spliced one after the other -/

/-- A text after it was spliced into some texts in turn. -/
def spliceOver (o : FieldOptions) (v : String) (texts : List String) : String :=
  texts.foldl (fun text t => spliceText o t text) v

@[simp] theorem spliceOver_nil (o : FieldOptions) (v : String) : spliceOver o v [] = v := rfl

theorem spliceOver_concat (o : FieldOptions) (v : String) (texts : List String) (t : String) :
    spliceOver o v (texts ++ [t]) = spliceText o t (spliceOver o v texts) := by
  simp only [spliceOver, List.foldl_concat]

section Ends

variable {o : FieldOptions} (hd : o.delimiter ≠ "") (v : String)
include hd

/-- In front of all pieces every text goes to the end. -/
theorem spliceOver_front (h : o.index < 0) (texts : List String) :
    spliceOver o v texts = o.delimiter.intercalate (v :: texts) := by
  induction texts using List.reverseRecOn with
  | nil => rw [spliceOver_nil, String.intercalate_singleton]
  | append_singleton texts t ih =>
      rw [spliceOver_concat, ih, spliceText_front hd h, ← List.cons_append,
        String.intercalate_append_of_ne_nil (List.cons_ne_nil v texts) (List.cons_ne_nil t []),
        String.intercalate_singleton]

/-- Behind all pieces every text goes to the front. -/
theorem spliceOver_behind {texts : List String}
    (h : ∀ t ∈ texts, (Text.pieces o.delimiter t).length ≤ o.index) :
    spliceOver o v texts = o.delimiter.intercalate (texts.reverse ++ [v]) := by
  induction texts using List.reverseRecOn with
  | nil => rw [spliceOver_nil, List.reverse_nil, List.nil_append, String.intercalate_singleton]
  | append_singleton texts t ih =>
      have hbefore : ∀ u ∈ texts, (Text.pieces o.delimiter u).length ≤ o.index := fun u hu =>
        h u (List.mem_append_left [t] hu)
      have hlast : (Text.pieces o.delimiter t).length ≤ o.index := h t (by simp)
      have hne : texts.reverse ++ [v] ≠ [] := by simp
      rw [spliceOver_concat, ih hbefore, spliceText_behind hd hlast, List.reverse_concat,
        List.cons_append, String.intercalate_cons_of_ne_nil hne]

end Ends

/-! ### A value on its way -/

/-- A value written over one of its targets. If the target does not take it, the value stays. -/
def receiveStep (options : Option FieldOptions) (value target : Node) : Step Node Node Failure :=
  match receive options value target with
  | (target, .ok value) => ⟨target, value, none⟩
  | (target, .error e) => ⟨target, value, some e⟩

/-- A value after it was written over some targets in turn. -/
def carried (options : Option FieldOptions) (value : Node) (targets : List Node) : Node :=
  targets.foldl (fun value target => (receiveStep options value target).state) value

/-- A value written over some targets in turn, whether or not all of them take it. -/
def receiveAll (options : Option FieldOptions) : Node → List Node → List (Step Node Node Failure)
  | _, [] => []
  | value, target :: r =>
    let step := receiveStep options value target
    step :: receiveAll options step.state r

section Step

variable {options : Option FieldOptions} {value target : Node}

theorem receiveStep_of_error {e : Failure} (h : compose options value target = .error e) :
    receiveStep options value target = ⟨target, value, some e⟩ := by
  simp only [receiveStep, receive_of_error h]

theorem receiveStep_of_ok {v : Node} (h : compose options value target = .ok v) :
    receiveStep options value target = ⟨v, v, none⟩ := by
  simp only [receiveStep, receive_of_ok h]

theorem carried_append (options : Option FieldOptions) (value : Node) (before after : List Node) :
    carried options value (before ++ after) =
      carried options (carried options value before) after := by
  simp only [carried, List.foldl_append]

theorem carried_concat (options : Option FieldOptions) (value : Node) (targets : List Node)
    (target : Node) :
    carried options value (targets ++ [target]) =
      (receiveStep options (carried options value targets) target).state := by
  simp only [carried, List.foldl_concat]

/-- Each write is one of the value as the targets before have left it. -/
theorem getElem?_receiveAll (options : Option FieldOptions) (value : Node) (targets : List Node)
    (k : Nat) :
    (receiveAll options value targets)[k]? =
      targets[k]?.map (receiveStep options (carried options value (targets.take k))) := by
  induction targets generalizing value k with
  | nil => rfl
  | cons target r ih =>
      cases k with
      | zero => rfl
      | succ k => exact ih (receiveStep options value target).state k

theorem carried_take_succ {targets : List Node} {k : Nat} (h : targets[k]? = some target) :
    carried options value (targets.take (k + 1)) =
      (receiveStep options (carried options value (targets.take k)) target).state := by
  rw [List.take_add_one, h, Option.toList_some, carried_concat]

end Step

section Splicing

variable {o : FieldOptions} (hd : o.delimiter ≠ "")
include hd

/-- A target without a text, and the value at it, stay. -/
theorem receiveStep_container {target : Node} (ht : target.text? = none) (value : Node) :
    receiveStep (some o) value target = ⟨target, value, some (.notText target.kind)⟩ :=
  receiveStep_of_error (compose_of_text?_eq_none (FieldOptions.splitting_of_ne hd) ht value)

variable {value : Node} {v : String} (hv : value.text? = some v)
include hv

/-- On its way a value keeps its tag, and its text is spliced into those of its targets. -/
theorem text?_carried (targets : List Node) :
    (carried (some o) value targets).textTag = value.textTag ∧
      (carried (some o) value targets).text? =
        some (spliceOver o v (targets.filterMap text?)) := by
  induction targets using List.reverseRecOn with
  | nil => exact ⟨rfl, hv⟩
  | append_singleton targets target ih =>
      obtain ⟨htag, htext⟩ := ih
      rw [carried_concat, List.filterMap_append]
      cases ht : target.text? with
      | none =>
          rw [receiveStep_container hd ht, List.filterMap_cons_none ht, List.filterMap_nil,
            List.append_nil]
          exact ⟨htag, htext⟩
      | some t =>
          rw [receiveStep_of_ok (compose_of_text hd htext ht), List.filterMap_cons_some ht,
            List.filterMap_nil, spliceOver_concat]
          exact ⟨htag, rfl⟩

/-- A target with a text, and the value at it, become one scalar. -/
theorem receiveStep_carried {targets : List Node} {k : Nat} {target : Node}
    (hk : targets[k]? = some target) {t : String} (ht : target.text? = some t) :
    let written := Node.scalar value.textTag
      (spliceOver o v ((targets.take (k + 1)).filterMap text?))
    receiveStep (some o) (carried (some o) value (targets.take k)) target =
      ⟨written, written, none⟩ := by
  intro written
  obtain ⟨htag, htext⟩ := text?_carried hd hv (targets.take k)
  have hwritten : written = .scalar (carried (some o) value (targets.take k)).textTag
      (spliceText o t (spliceOver o v ((targets.take k).filterMap text?))) := by
    simp only [written]
    rw [htag, List.take_add_one, hk, Option.toList_some, List.filterMap_append,
      List.filterMap_cons_some ht, List.filterMap_nil, spliceOver_concat]
  rw [receiveStep_of_ok (compose_of_text hd htext ht), hwritten]

/-- **The closed form of a value on its way.** A value with a text is written over some targets
in turn, whether or not they take it, each time as the targets before have left it. A target
without a text does not take it: it stays, and so does the value. A target with a text and the
value at it become one scalar with the tag of the first value. If the position is in front of
all pieces, its text is that of the value and then those of the targets so far, joined by the
delimiter; if it is behind the pieces of each of these targets, their texts, the last one
first, and then that of the value. -/
theorem receiveAll_carried (targets : List Node) {k : Nat} {target : Node}
    (hk : targets[k]? = some target) :
    let texts := (targets.take (k + 1)).filterMap text?
    let written (parts : List String) := Node.scalar value.textTag (o.delimiter.intercalate parts)
    ∃ step, (receiveAll (some o) value targets)[k]? = some step ∧
      step.state = carried (some o) value (targets.take (k + 1)) ∧
      (target.isScalar = false →
        step.item = target ∧ step.state = carried (some o) value (targets.take k) ∧
          step.failure = some (.notText target.kind)) ∧
      (target.isScalar = true →
        (o.index < 0 → step = ⟨written (v :: texts), written (v :: texts), none⟩) ∧
        ((∀ t ∈ texts, (Text.pieces o.delimiter t).length ≤ o.index) →
          step = ⟨written (texts.reverse ++ [v]), written (texts.reverse ++ [v]), none⟩)) := by
  intro texts written
  refine ⟨receiveStep (some o) (carried (some o) value (targets.take k)) target, ?_,
    (carried_take_succ hk).symm, ?_, ?_⟩
  · rw [getElem?_receiveAll, hk, Option.map_some]
  · intro hcontainer
    have ht : target.text? = none := by
      rw [← Option.not_isSome_iff_eq_none, isSome_text?, hcontainer]
      exact Bool.false_ne_true
    rw [receiveStep_container hd ht]
    exact ⟨rfl, rfl, rfl⟩
  · intro hscalar
    rw [← isSome_text?] at hscalar
    obtain ⟨t, ht⟩ := Option.isSome_iff_exists.mp hscalar
    rw [receiveStep_carried hd hv hk ht]
    refine ⟨fun hindex => ?_, fun hindex => ?_⟩
    · rw [spliceOver_front hd v hindex]
    · rw [spliceOver_behind hd v hindex]

end Splicing

/-- A sequence stands between texts with a delimiter that overlaps itself. -/
theorem receiveAll_carried_overlapping :
    let value : Node := .scalar .float "v"
    let targets : List Node := [.scalar .int "aba", .sequence [], .null, .string "xababa"]
    let front : FieldOptions := { delimiter := "aba", index := -1 }
    let behind : FieldOptions := { delimiter := "aba", index := 2 }
    let first : Node := .scalar .float "vabaaba"
    let last : Node := .scalar .float "vabaabaabaabaxababa"
    let last' : Node := .scalar .float "xababaabaabaabaabav"
    (receiveAll (some front) value targets)[1]? =
        some ⟨.sequence [], first, some (.notText .sequence)⟩ ∧
      (receiveAll (some front) value targets)[3]? = some ⟨last, last, none⟩ ∧
      (receiveAll (some behind) value targets)[3]? = some ⟨last', last', none⟩ := by
  intro value targets front behind first last last'
  have hv : value.text? = some "v" := rfl
  have hsequence : targets[1]? = some (.sequence []) := rfl
  have hlast : targets[3]? = some (.string "xababa") := rfl
  obtain ⟨⟨item, state, failure⟩, hat, -, hstays, -⟩ :=
    receiveAll_carried (o := front) (by decide) hv targets hsequence
  obtain ⟨rfl, hstate, rfl⟩ := hstays rfl
  have hfirst : carried (some front) value (targets.take 1) = first := by cbv
  obtain rfl : state = first := hstate.trans hfirst
  refine ⟨hat, ?_, ?_⟩
  · obtain ⟨step, hat, -, -, htext⟩ :=
      receiveAll_carried (o := front) (by decide) hv targets hlast
    rw [hat, (htext rfl).1 (by decide)]
    rfl
  · obtain ⟨step, hat, -, -, htext⟩ :=
      receiveAll_carried (o := behind) (by decide) hv targets hlast
    rw [hat, (htext rfl).2 (by decide)]
    rfl

end Node

/-! ### The value of a target -/

/-- Fields of a document leave a value that is on its way over some nodes. -/
theorem Draft.exists_carried_writeAll (options : Option FieldOptions) (d : Draft)
    (paths : List String) :
    ∃ nodes, (d.writeAll options paths).1.value = Node.carried options d.value nodes := by
  refine writeAll_invariant
    (P := fun e : Draft => ∃ nodes, e.value = Node.carried options d.value nodes) ?_ ⟨[], rfl⟩
  rintro path - e ⟨before, hbefore⟩
  rcases value_write options e path with hsame | ⟨target, -, hcompose⟩
  · exact ⟨before, hsame.trans hbefore⟩
  · refine ⟨before ++ [target], ?_⟩
    rw [Node.carried_concat, ← hbefore, Node.receiveStep_of_ok hcompose]

theorem Target.exists_carried_writeDocument (t : Target) (select : Pattern) (c : Carrier)
    (doc : Node) :
    ∃ nodes, (t.writeDocument select c doc).state.value =
      Node.carried t.options c.value nodes := by
  unfold Target.writeDocument
  split
  · exact Draft.exists_carried_writeAll t.options ⟨doc, c.value, c.written⟩ t.fieldPaths
  · exact ⟨[], rfl⟩

/-- What a target leaves of the value, in however many documents it writes and wherever it
fails, is the value on its way over some nodes. -/
theorem Target.exists_carried_write {w : Writing} {value : Node} (hw : w.value = some value)
    (t : Target) :
    ∃ nodes, (t.write w).state.value = some (Node.carried t.options value nodes) := by
  cases hselect : t.select with
  | none =>
      rw [write_of_select_none hselect]
      exact ⟨[], hw⟩
  | some select =>
      have hstep : ∀ doc ∈ w.docs, ∀ c : Carrier,
          (∃ nodes, c.value = Node.carried t.options value nodes) →
            ∃ nodes, (t.withDefaultPaths.writeDocument select c doc).state.value =
              Node.carried t.options value nodes := by
        rintro doc - c ⟨before, hbefore⟩
        obtain ⟨after, hafter⟩ :=
          Target.exists_carried_writeDocument t.withDefaultPaths select c doc
        rw [options_withDefaultPaths, hbefore, ← Node.carried_append] at hafter
        exact ⟨before ++ after, hafter⟩
      obtain ⟨nodes, hnodes⟩ := Sweep.run_state_invariant
        (P := fun c : Carrier => ∃ nodes, c.value = Node.carried t.options value nodes)
        hstep (s := ⟨value, w.written⟩) ⟨[], rfl⟩
      rw [write_of_value hselect hw]
      exact ⟨nodes, congrArg some hnodes⟩

end Graft
