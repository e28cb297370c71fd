import Graft.Proofs.Node.Convert
import Graft.Proofs.Number.RoundTrip

/-!
# Graft.Proofs.Node.RoundTrip

Trees that are written as plain data and read again.

What comes back is the tree with every scalar read under its tag
(`Node.ofYaml_toYaml`). This leaves a scalar alone whose text is what is written for
some value of its tag, and the scalars of a tree that was itself read all are of this
kind (`Node.scalarsSatisfy_ofYaml`). Any other text becomes the text of its value, or a
string if it has none.
-/

namespace Graft

/-! ### Numbers of plain data -/

/-- A number that plain data holds. -/
def Number.Valid : Number → Prop
  | .int n => InRange n
  | .float x => x.Valid

namespace Node

/-! ### Scalars -/

/-- What a text reads as under a tag: the text that is written for its value, or a
string if it has no value. -/
def reread (tag : ScalarTag) (text : String) : Node :=
  match tag with
  | .str => .string text
  | .int =>
    match intOfText? text with
    | some n => .scalar .int (toString n)
    | none => .string text
  | .float =>
    match floatOfText? text with
    | some x => .scalar .float (x.text .yaml)
    | none => .string text
  | .bool =>
    match boolOfText? text with
    | some b => .scalar .bool (boolText b)
    | none => .string text

theorem ofYaml_scalarToYaml (tag : ScalarTag) (text : String) :
    ofYaml (scalarToYaml tag text) = reread tag text := by
  cases tag with
  | str => rfl
  | int =>
      simp only [scalarToYaml, reread]
      cases intOfText? text <;> rfl
  | float =>
      simp only [scalarToYaml, reread]
      cases floatOfText? text <;> rfl
  | bool =>
      simp only [scalarToYaml, reread]
      cases boolOfText? text <;> rfl

theorem intOfText?_toString {n : Int} (hn : Number.InRange n) :
    intOfText? (toString n) = some n := by
  simp only [intOfText?, Decimal.parseInt?_toString, if_pos hn]

/-- The words for infinities and for the NaN are not numerals. -/
theorem parse?_word : ∀ word ∈ [".inf", ".Inf", ".INF", "+.inf", "-.inf", "-.Inf", "-.INF", ".nan",
    ".NaN", ".NAN"], Decimal.parse? (Decimal.takeSign word.toList).2 = none := by
  decide

theorem floatOfText?_of_numeral {text : String} {s : Bool} {cs : List Char} {d : Decimal}
    (hsign : Decimal.takeSign text.toList = (s, cs)) (hd : Decimal.parse? cs = some d) :
    floatOfText? text = some (d.toBinary64 s) := by
  have hword : ∀ word ∈ [".inf", ".Inf", ".INF", "+.inf", "-.inf", "-.Inf", "-.INF", ".nan",
      ".NaN", ".NAN"], text ≠ word := by
    rintro word hword rfl
    have hnone := parse?_word text hword
    rw [hsign, hd] at hnone
    cases hnone
  simp only [List.forall_mem_cons, ne_eq] at hword
  simp [floatOfText?, hword, Binary64.parse?, hsign, hd]

theorem floatOfText?_text (layout : FloatLayout) {x : Binary64} (hx : x.Valid) :
    floatOfText? (x.text layout) = some x := by
  cases x with
  | nan => rfl
  | infinite s => cases s <;> rfl
  | finite s m e =>
      obtain ⟨cs, d, hsign, hd, hvalue⟩ := Binary64.numeral_of_text layout hx
      rw [floatOfText?_of_numeral hsign hd, hvalue]

/-- The text of a number reads as the number. -/
theorem reread_ofNumber {n : Number} (hn : n.Valid) {tag : ScalarTag} {text : String}
    (h : ofNumber .yaml n = .scalar tag text) : reread tag text = .scalar tag text := by
  cases n with
  | int n =>
      obtain ⟨rfl, rfl⟩ := Node.scalar.inj h
      simp only [reread, Number.text, intOfText?_toString hn]
  | float x =>
      obtain ⟨rfl, rfl⟩ := Node.scalar.inj h
      simp only [reread, Number.text, floatOfText?_text .yaml hn]

/-! ### Trees -/

mutual

/-- The tree with every scalar replaced. -/
def mapScalars (f : ScalarTag → String → Node) : Node → Node
  | .null => .null
  | .scalar tag text => f tag text
  | .mapping entries => .mapping (mapScalarsEntries f entries)
  | .sequence items => .sequence (mapScalarsItems f items)

/-- The items with every scalar replaced. -/
def mapScalarsItems (f : ScalarTag → String → Node) : List Node → List Node
  | [] => []
  | v :: r => mapScalars f v :: mapScalarsItems f r

/-- The entries with every scalar of their values replaced. -/
def mapScalarsEntries (f : ScalarTag → String → Node) : List (String × Node) → List (String × Node)
  | [] => []
  | (k, v) :: r => (k, mapScalars f v) :: mapScalarsEntries f r

end

/-- A scalar that a tree is or has among its parts. -/
inductive HasScalar (tag : ScalarTag) (text : String) : Node → Prop where
  | here : HasScalar tag text (.scalar tag text)
  | value {entries : Entries Node} {e : String × Node} (he : e ∈ entries)
      (h : HasScalar tag text e.2) : HasScalar tag text (.mapping entries)
  | item {items : List Node} {v : Node} (hv : v ∈ items) (h : HasScalar tag text v) :
      HasScalar tag text (.sequence items)

variable {f : ScalarTag → String → Node}

theorem mapScalarsItems_eq (items : List Node) :
    mapScalarsItems f items = items.map (mapScalars f) := by
  induction items with
  | nil => rfl
  | cons v r ih => simp only [mapScalarsItems, ih, List.map_cons]

theorem mapScalarsEntries_eq (entries : Entries Node) :
    mapScalarsEntries f entries = entries.map fun e => (e.1, e.2.mapScalars f) := by
  induction entries with
  | nil => rfl
  | cons e r ih => simp only [mapScalarsEntries, ih, List.map_cons]

/-- Replacing scalars that are not changed by it changes nothing. -/
theorem mapScalars_eq_self {n : Node}
    (h : ∀ tag text, n.HasScalar tag text → f tag text = .scalar tag text) :
    n.mapScalars f = n := by
  induction n using treeInduction with
  | null => rw [mapScalars]
  | scalar tag text => rw [mapScalars, h tag text .here]
  | mapping entries ih =>
      rw [mapScalars, mapScalarsEntries_eq]
      congr 1
      refine (List.map_congr_left fun e he => ?_).trans (List.map_id entries)
      rw [ih e he fun tag text hscalar => h tag text (.value he hscalar)]
      rfl
  | sequence items ih =>
      rw [mapScalars, mapScalarsItems_eq]
      congr 1
      refine (List.map_congr_left fun v hv => ?_).trans (List.map_id items)
      rw [ih v hv fun tag text hscalar => h tag text (.item hv hscalar)]
      rfl

/-- A tree that repeats no key and whose scalars all satisfy a condition. -/
structure ScalarsSatisfy (p : ScalarTag → String → Prop) (n : Node) : Prop where
  /-- No mapping repeats a key. -/
  keys : n.DistinctKeys
  /-- The scalars satisfy the condition. -/
  scalars : ∀ tag text, n.HasScalar tag text → p tag text

theorem scalarsSatisfy_scalar {p : ScalarTag → String → Prop} {tag : ScalarTag} {text : String}
    (h : p tag text) : ScalarsSatisfy p (.scalar tag text) where
  keys := by simp [DistinctKeys]
  scalars := by
    intro _ _ hhere
    cases hhere
    exact h

/-- That all scalars satisfy a condition which strings satisfy is a property of all parts. -/
theorem hereditary_scalars {p : ScalarTag → String → Prop} (hstr : ∀ text, p .str text) :
    Hereditary (ScalarsSatisfy p) where
  null := ⟨hereditary_distinctKeys.null, nofun⟩
  string s := scalarsSatisfy_scalar (hstr s)
  mapping entries := by
    constructor
    · intro h
      obtain ⟨hnodup, hkeys⟩ := (hereditary_distinctKeys.mapping entries).mp h.keys
      exact ⟨hnodup, fun e he => ⟨hkeys e he, fun tag text ht => h.scalars tag text (.value he ht)⟩⟩
    · intro ⟨hnodup, hvalues⟩
      have hkeys : (mapping entries).DistinctKeys :=
        (hereditary_distinctKeys.mapping entries).mpr ⟨hnodup, fun e he => (hvalues e he).keys⟩
      refine ⟨hkeys, fun tag text h => ?_⟩
      obtain _ | ⟨he, h⟩ := h
      exact (hvalues _ he).scalars tag text h
  sequence items := by
    constructor
    · intro h v hv
      exact ⟨(hereditary_distinctKeys.sequence items).mp h.keys v hv,
        fun tag text ht => h.scalars tag text (.item hv ht)⟩
    · intro hitems
      have hkeys : (sequence items).DistinctKeys :=
        (hereditary_distinctKeys.sequence items).mpr fun v hv => (hitems v hv).keys
      refine ⟨hkeys, fun tag text h => ?_⟩
      obtain _ | _ | ⟨hv, h⟩ := h
      exact (hitems _ hv).scalars tag text h

/-- **Writing and reading a tree** reads every scalar under its tag and leaves the rest
as it is. -/
theorem ofYaml_toYaml {n : Node} (hn : n.DistinctKeys) : ofYaml n.toYaml = n.mapScalars reread := by
  induction n using treeInduction with
  | null => rfl
  | scalar tag text => rw [toYaml, mapScalars, ofYaml_scalarToYaml]
  | mapping entries ih =>
      obtain ⟨hkeys, hvalues⟩ := (hereditary_distinctKeys.mapping entries).mp hn
      have htexts : (((entries.map fun e => (Yaml.string e.1, e.2.toYaml)).map (·.1)).map
          keyText).Nodup := by
        simpa [keyText, Entries.keys, Function.comp_def] using hkeys
      rw [toYaml_mapping, ofYaml_mapping_of_nodup htexts, mapScalars, mapScalarsEntries_eq,
        List.map_map]
      congr 1
      refine List.map_congr_left fun e he => ?_
      rw [Function.comp_apply, ih e he (hvalues e he)]
      rfl
  | sequence items ih =>
      have hitems := (hereditary_distinctKeys.sequence items).mp hn
      rw [toYaml_sequence, ofYaml_sequence, mapScalars, mapScalarsItems_eq, List.map_map]
      congr 1
      exact List.map_congr_left fun v hv => ih v hv (hitems v hv)

/-- The scalars of a tree that was read keep text and tag when they are read again. -/
theorem scalarsSatisfy_ofYaml {v : Yaml} (hv : ∀ n, v.HasNumber n → n.Valid) :
    ScalarsSatisfy (fun tag text => reread tag text = .scalar tag text) (ofYaml v) := by
  refine (hereditary_scalars fun _ => rfl).ofYaml ?_ ?_
  · intro b
    cases b with
    | false => exact scalarsSatisfy_scalar rfl
    | true => exact scalarsSatisfy_scalar rfl
  · intro n hn
    cases n with
    | int n => exact scalarsSatisfy_scalar (reread_ofNumber (hv _ hn) rfl)
    | float x => exact scalarsSatisfy_scalar (reread_ofNumber (hv _ hn) rfl)

/-- A tree that was read comes back as it is. -/
theorem ofYaml_toYaml_ofYaml {v : Yaml} (hv : ∀ n, v.HasNumber n → n.Valid) :
    ofYaml (ofYaml v).toYaml = ofYaml v := by
  rw [ofYaml_toYaml (distinctKeys_ofYaml v)]
  exact mapScalars_eq_self (scalarsSatisfy_ofYaml hv).scalars

theorem inRange_of_intOfText? {text : String} {n : Int} (h : intOfText? text = some n) :
    Number.InRange n := by
  unfold intOfText? at h
  split at h
  · split at h
    · next hrange => exact Option.some.inj h ▸ hrange
    · cases h
  · cases h

theorem valid_of_floatOfText? {text : String} {x : Binary64} (h : floatOfText? text = some x) :
    x.Valid := by
  unfold floatOfText? at h
  split at h
  · exact Option.some.inj h ▸ trivial
  · split at h
    · exact Option.some.inj h ▸ trivial
    · split at h
      · exact Option.some.inj h ▸ trivial
      · exact Binary64.valid_of_parse? h

theorem valid_of_hasNumber_scalarToYaml {tag : ScalarTag} {text : String} {k : Number}
    (h : (scalarToYaml tag text).HasNumber k) : k.Valid := by
  cases tag with
  | str => cases h
  | int =>
      simp only [scalarToYaml] at h
      cases hn : intOfText? text with
      | none => rw [hn] at h; cases h
      | some n =>
          rw [hn] at h
          cases h
          exact inRange_of_intOfText? hn
  | float =>
      simp only [scalarToYaml] at h
      cases hx : floatOfText? text with
      | none => rw [hx] at h; cases h
      | some x =>
          rw [hx] at h
          cases h
          exact valid_of_floatOfText? hx
  | bool =>
      simp only [scalarToYaml] at h
      cases hb : boolOfText? text with
      | none => rw [hb] at h; cases h
      | some b => rw [hb] at h; cases h

/-- What is written holds valid numbers only, whatever the texts of the tree are. -/
theorem valid_of_hasNumber_toYaml (n : Node) : ∀ k, n.toYaml.HasNumber k → k.Valid := by
  induction n using treeInduction with
  | null => nofun
  | scalar tag text =>
      intro k hk
      rw [toYaml] at hk
      exact valid_of_hasNumber_scalarToYaml hk
  | mapping entries ih =>
      intro k hk
      rw [toYaml_mapping] at hk
      obtain _ | _ | ⟨he, hk⟩ := hk
      obtain ⟨e, hmem, rfl⟩ := List.mem_map.mp he
      exact ih e hmem k hk
  | sequence items ih =>
      intro k hk
      rw [toYaml_sequence] at hk
      obtain _ | ⟨hv, hk⟩ := hk
      obtain ⟨v, hmem, rfl⟩ := List.mem_map.mp hv
      exact ih v hmem k hk

/-- **Only the first conversion can change a tree.** What comes back from it is
written and read as it is. -/
theorem ofYaml_toYaml_stable (n : Node) : ofYaml (ofYaml n.toYaml).toYaml = ofYaml n.toYaml :=
  ofYaml_toYaml_ofYaml (valid_of_hasNumber_toYaml n)

end Node
end Graft
