import Graft.Proofs.Node.RoundTrip

/-!
# Graft.Proofs.Node.Loaded

Plain data that comes back from a tree as it went in.

A JSON value as it is loaded (`Json.Loaded`) has the members of its objects in ascending
order, and its numbers are those that JSON holds. A YAML value that a tree carries as it is
(`Yaml.Carried`) has strings for keys, none of them twice, and no tag. Reading such a value
and writing the tree gives the value again (`Node.toJson_ofJson`, `Node.toYaml_ofYaml`):
the text of every scalar reads as its value, and the entries of a mapping are inserted
at the end, one by one, on the way in and on the way out.

Nothing else comes back: what a tree is written as is always of this kind
(`Json.loaded_iff`, `Yaml.carried_iff`).
-/

namespace Graft

/-! ### JSON values as they are loaded -/

namespace Json

/-- A number that a value is or has among its parts. -/
inductive HasNumber (n : Number) : Json → Prop where
  | here : HasNumber n (.number n)
  | item {items : List Json} {j : Json} (hj : j ∈ items) (h : HasNumber n j) :
      HasNumber n (.array items)
  | value {members : Entries Json} {e : String × Json} (he : e ∈ members)
      (h : HasNumber n e.2) : HasNumber n (.object members)

/-- Values as they are loaded: every object sorted by its keys, every integer one of 64
bits, signed or not, and every double finite. -/
structure Loaded (j : Json) : Prop where
  /-- The keys of every object ascend, and JSON text can hold every number. -/
  canonical : j.Canonical
  /-- Every number is one of plain data. -/
  numbers : ∀ n, j.HasNumber n → n.Valid

theorem ascending_iff (ks : List String) : Ascending ks ↔ ks.Pairwise (· < ·) := by
  induction ks with
  | nil => simp [Ascending]
  | cons k r ih => rw [Ascending, ih, List.pairwise_cons]

theorem canonicalItems_iff (items : List Json) :
    CanonicalItems items ↔ ∀ j ∈ items, j.Canonical := by
  induction items with
  | nil => simp [CanonicalItems]
  | cons j r ih => simp [CanonicalItems, ih]

theorem canonicalMembers_iff (members : Entries Json) :
    CanonicalMembers members ↔ ∀ e ∈ members, e.2.Canonical := by
  induction members with
  | nil => simp [CanonicalMembers]
  | cons e r ih => simp [CanonicalMembers, ih]

theorem loaded_null : null.Loaded := ⟨by simp [Canonical], nofun⟩

theorem loaded_bool (b : Bool) : (bool b).Loaded := ⟨by simp [Canonical], nofun⟩

theorem loaded_string (s : String) : (string s).Loaded := ⟨by simp [Canonical], nofun⟩

theorem loaded_number (n : Number) : (number n).Loaded ↔ Representable n ∧ n.Valid := by
  constructor
  · intro h
    exact ⟨by simpa only [Canonical] using h.canonical, h.numbers n .here⟩
  · intro ⟨hrep, hvalid⟩
    refine ⟨by simpa only [Canonical] using hrep, ?_⟩
    intro k hk
    cases hk
    exact hvalid

theorem loaded_array (items : List Json) : (array items).Loaded ↔ ∀ j ∈ items, j.Loaded := by
  constructor
  · intro h j hj
    have hitems := h.canonical
    rw [Canonical, canonicalItems_iff] at hitems
    exact ⟨hitems j hj, fun n hn => h.numbers n (.item hj hn)⟩
  · intro h
    refine ⟨?_, ?_⟩
    · rw [Canonical, canonicalItems_iff]
      exact fun j hj => (h j hj).canonical
    · intro n hn
      cases hn with
      | item hj hn => exact (h _ hj).numbers n hn

theorem loaded_object (members : Entries Json) :
    (object members).Loaded ↔
      (Entries.keys members).Pairwise (· < ·) ∧ ∀ e ∈ members, e.2.Loaded := by
  constructor
  · intro h
    have hmembers := h.canonical
    rw [Canonical, ascending_iff, canonicalMembers_iff] at hmembers
    refine ⟨hmembers.1, fun e he => ?_⟩
    exact ⟨hmembers.2 e he, fun n hn => h.numbers n (.value he hn)⟩
  · intro ⟨hkeys, hvalues⟩
    refine ⟨?_, ?_⟩
    · rw [Canonical, ascending_iff, canonicalMembers_iff]
      exact ⟨hkeys, fun e he => (hvalues e he).canonical⟩
    · intro n hn
      cases hn with
      | value he hn => exact (hvalues _ he).numbers n hn

end Json

/-! ### YAML values that a tree carries as they are -/

namespace Yaml

mutual

/-- Whether every key of a mapping anywhere in the value is a string. -/
def hasStringKeys : Yaml → Bool
  | .sequence items => stringKeysItems items
  | .mapping entries => stringKeysEntries entries
  | .tagged _ v => hasStringKeys v
  | _ => true

/-- Whether every key in the items is a string. -/
def stringKeysItems : List Yaml → Bool
  | [] => true
  | v :: r => hasStringKeys v && stringKeysItems r

/-- Whether the keys of the entries, and every key in their values, are strings. -/
def stringKeysEntries : List (Yaml × Yaml) → Bool
  | [] => true
  | (.string _, v) :: r => hasStringKeys v && stringKeysEntries r
  | _ :: _ => false

end

/-- Values as they are loaded: no mapping repeats a key, and every number is one of plain
data. -/
structure Loaded (v : Yaml) : Prop where
  /-- No mapping repeats a key. -/
  distinct : v.hasDistinctKeys = true
  /-- Every number is one of plain data. -/
  numbers : ∀ n, v.HasNumber n → n.Valid

/-- Loaded values whose keys are strings and that have no tag. -/
structure Carried (v : Yaml) : Prop extends Loaded v where
  /-- Every key is a string. -/
  stringKeys : v.hasStringKeys = true
  /-- There is no tag. -/
  noTag : v.hasTag = false

/-- An entry with a string for a key. -/
def member (e : String × Yaml) : Yaml × Yaml := (.string e.1, e.2)

theorem distinctKeysItems_iff (items : List Yaml) :
    distinctKeysItems items = true ↔ ∀ v ∈ items, v.hasDistinctKeys = true := by
  induction items with
  | nil => simp [distinctKeysItems]
  | cons v r ih => simp [distinctKeysItems, ih]

theorem hasTagItems_iff (items : List Yaml) :
    hasTagItems items = false ↔ ∀ v ∈ items, v.hasTag = false := by
  induction items with
  | nil => simp [hasTagItems]
  | cons v r ih => simp [hasTagItems, ih]

theorem stringKeysItems_iff (items : List Yaml) :
    stringKeysItems items = true ↔ ∀ v ∈ items, v.hasStringKeys = true := by
  induction items with
  | nil => simp [stringKeysItems]
  | cons v r ih => simp [stringKeysItems, ih]

theorem distinctKeysEntries_members (members : Entries Yaml) :
    distinctKeysEntries (members.map member) = true ↔
      ∀ e ∈ members, e.2.hasDistinctKeys = true := by
  induction members with
  | nil => simp [distinctKeysEntries]
  | cons e r ih => simp [distinctKeysEntries, member, hasDistinctKeys, ih]

theorem hasTagEntries_members (members : Entries Yaml) :
    hasTagEntries (members.map member) = false ↔ ∀ e ∈ members, e.2.hasTag = false := by
  induction members with
  | nil => simp [hasTagEntries]
  | cons e r ih => simp [hasTagEntries, member, hasTag, ih]

theorem stringKeysEntries_members (members : Entries Yaml) :
    stringKeysEntries (members.map member) = true ↔
      ∀ e ∈ members, e.2.hasStringKeys = true := by
  induction members with
  | nil => simp [stringKeysEntries]
  | cons e r ih => simp [stringKeysEntries, member, ih]

/-- Entries whose keys are strings come from entries with string keys. -/
theorem exists_members {entries : List (Yaml × Yaml)} (h : stringKeysEntries entries = true) :
    ∃ members : Entries Yaml, entries = members.map member := by
  induction entries with
  | nil => exact ⟨[], rfl⟩
  | cons e r ih =>
      obtain ⟨k, v⟩ := e
      cases k with
      | string s =>
          rw [stringKeysEntries, Bool.and_eq_true] at h
          obtain ⟨members, rfl⟩ := ih h.2
          exact ⟨(s, v) :: members, rfl⟩
      | null => cases h
      | bool b => cases h
      | number n => cases h
      | sequence items => cases h
      | mapping entries => cases h
      | tagged tag v => cases h

theorem distinct_members (members : Entries Yaml) :
    distinct ((members.map member).map (·.1)) = true ↔ (Entries.keys members).Nodup := by
  induction members with
  | nil => simp [distinct]
  | cons e r ih =>
      have hsame : ((r.map member).map (·.1)).any (same (member e).1) = true ↔
          e.1 ∈ Entries.keys r := by
        simp only [List.any_map, List.any_eq_true, Function.comp_apply, member, same, beq_iff_eq,
          Entries.keys, List.mem_map]
        exact exists_congr fun d => and_congr_right fun _ => eq_comm
      rw [List.map_cons, List.map_cons, distinct, Bool.and_eq_true, ih, Bool.not_eq_true',
        ← Bool.not_eq_true, hsame, Entries.keys_cons, List.nodup_cons]

theorem carried_null : null.Carried := ⟨⟨rfl, nofun⟩, rfl, rfl⟩

theorem carried_bool (b : Bool) : (bool b).Carried := ⟨⟨rfl, nofun⟩, rfl, rfl⟩

theorem carried_string (s : String) : (string s).Carried := ⟨⟨rfl, nofun⟩, rfl, rfl⟩

theorem carried_number (n : Number) : (number n).Carried ↔ n.Valid := by
  constructor
  · intro h
    exact h.numbers n .here
  · intro hvalid
    refine ⟨⟨rfl, ?_⟩, rfl, rfl⟩
    intro k hk
    cases hk
    exact hvalid

theorem carried_sequence (items : List Yaml) :
    (sequence items).Carried ↔ ∀ v ∈ items, v.Carried := by
  constructor
  · intro ⟨⟨hdistinct, hnumbers⟩, hkeys, htag⟩ v hv
    rw [hasDistinctKeys, distinctKeysItems_iff] at hdistinct
    rw [hasStringKeys, stringKeysItems_iff] at hkeys
    rw [hasTag, hasTagItems_iff] at htag
    exact ⟨⟨hdistinct v hv, fun n hn => hnumbers n (.item hv hn)⟩, hkeys v hv, htag v hv⟩
  · intro h
    refine ⟨⟨?_, ?_⟩, ?_, ?_⟩
    · rw [hasDistinctKeys, distinctKeysItems_iff]
      exact fun v hv => (h v hv).distinct
    · intro n hn
      cases hn with
      | item hv hn => exact (h _ hv).numbers n hn
    · rw [hasStringKeys, stringKeysItems_iff]
      exact fun v hv => (h v hv).stringKeys
    · rw [hasTag, hasTagItems_iff]
      exact fun v hv => (h v hv).noTag

theorem carried_members (members : Entries Yaml) :
    (mapping (members.map member)).Carried ↔
      (Entries.keys members).Nodup ∧ ∀ e ∈ members, e.2.Carried := by
  constructor
  · intro ⟨⟨hdistinct, hnumbers⟩, hkeys, htag⟩
    rw [hasDistinctKeys, Bool.and_eq_true, distinct_members,
      distinctKeysEntries_members] at hdistinct
    rw [hasStringKeys, stringKeysEntries_members] at hkeys
    rw [hasTag, hasTagEntries_members] at htag
    refine ⟨hdistinct.1, fun e he => ?_⟩
    have hmem : member e ∈ members.map member := List.mem_map_of_mem he
    exact ⟨⟨hdistinct.2 e he, fun n hn => hnumbers n (.value hmem hn)⟩, hkeys e he, htag e he⟩
  · intro ⟨hnodup, hvalues⟩
    refine ⟨⟨?_, ?_⟩, ?_, ?_⟩
    · rw [hasDistinctKeys, Bool.and_eq_true, distinct_members, distinctKeysEntries_members]
      exact ⟨hnodup, fun e he => (hvalues e he).distinct⟩
    · intro n hn
      cases hn with
      | value hmem hn =>
          obtain ⟨e, he, rfl⟩ := List.mem_map.mp hmem
          exact (hvalues e he).numbers n hn
    · rw [hasStringKeys, stringKeysEntries_members]
      exact fun e he => (hvalues e he).stringKeys
    · rw [hasTag, hasTagEntries_members]
      exact fun e he => (hvalues e he).noTag

end Yaml

namespace Node

/-! ### Scalars -/

theorem boolOfText?_boolText (b : Bool) : boolOfText? (boolText b) = some b := by
  cases b <;> rfl

theorem toYaml_ofNumber {n : Number} (hn : n.Valid) : (ofNumber .yaml n).toYaml = .number n := by
  cases n with
  | int n =>
      rw [ofNumber, toYaml, scalarToYaml, Number.text, intOfText?_toString hn]
      rfl
  | float x =>
      rw [ofNumber, toYaml, scalarToYaml, Number.text, floatOfText?_text .yaml hn]
      rfl

theorem finiteOfText?_text {x : Binary64} (hx : x.Valid) (hfinite : x.isFinite = true) :
    finiteOfText? (x.text .json) = some x := by
  rw [finiteOfText?, floatOfText?_text .json hx, Option.filter_some, if_pos hfinite]

theorem toJson_ofNumber {n : Number} (hn : n.Valid) (hrep : Json.Representable n) :
    (ofNumber .json n).toJson = .number n := by
  cases n with
  | int n =>
      rw [ofNumber, toJson, scalarToJson, Number.text, intOfText?_toString hn]
      rfl
  | float x =>
      rw [ofNumber, toJson, scalarToJson, Number.text, finiteOfText?_text hn hrep]
      rfl

/-! ### Values that come back -/

/-- A JSON value that was loaded comes back from its tree. -/
theorem toJson_ofJson {j : Json} (hj : j.Loaded) : (ofJson j).toJson = j := by
  induction j using Json.treeInduction with
  | null => rfl
  | bool b => simp [ofJson, toJson, scalarToJson, boolOfText?_boolText]
  | number n =>
      obtain ⟨hrep, hvalid⟩ := (Json.loaded_number n).mp hj
      rw [ofJson, toJson_ofNumber hvalid hrep]
  | string s => rfl
  | array items ih =>
      have hitems := (Json.loaded_array items).mp hj
      rw [ofJson_array, toJson_sequence, List.map_map]
      congr 1
      refine (List.map_congr_left fun j hmem => ?_).trans (List.map_id items)
      exact ih j hmem (hitems j hmem)
  | object members ih =>
      obtain ⟨hkeys, hvalues⟩ := (Json.loaded_object members).mp hj
      -- the members ascend, so both ways insert each of them behind the last one
      have hascend : (Entries.keys (members.map fun e => (e.1, ofJson e.2))).Pairwise (· < ·) := by
        simpa [Entries.keys, Function.comp_def] using hkeys
      rw [ofJson_object, Entries.ofPairs_of_nodup (Entries.nodup_of_ascending hascend),
        toJson_mapping, Entries.foldl_insertSorted_of_ascending _ _ [] hascend, List.nil_append,
        List.map_map]
      congr 1
      refine (List.map_congr_left fun e he => ?_).trans (List.map_id members)
      rw [Function.comp_apply, ih e he (hvalues e he)]
      rfl

/-- A YAML value with strings for keys and without tags comes back from its tree, its
keys in the same order. -/
theorem toYaml_ofYaml {v : Yaml} (hv : v.Carried) : (ofYaml v).toYaml = v := by
  induction v using Yaml.treeInduction with
  | null => rfl
  | bool b => simp [ofYaml, toYaml, scalarToYaml, boolOfText?_boolText]
  | number n => rw [ofYaml, toYaml_ofNumber ((Yaml.carried_number n).mp hv)]
  | string s => rfl
  | sequence items ih =>
      have hitems := (Yaml.carried_sequence items).mp hv
      rw [ofYaml_sequence, toYaml_sequence, List.map_map]
      congr 1
      refine (List.map_congr_left fun v hmem => ?_).trans (List.map_id items)
      exact ih v hmem (hitems v hmem)
  | mapping entries ih =>
      obtain ⟨members, rfl⟩ := Yaml.exists_members hv.stringKeys
      obtain ⟨hnodup, hvalues⟩ := (Yaml.carried_members members).mp hv
      have htexts : (((members.map Yaml.member).map (·.1)).map keyText).Nodup := by
        simpa [Yaml.member, keyText, Entries.keys, Function.comp_def] using hnodup
      rw [ofYaml_mapping_of_nodup htexts, toYaml_mapping, List.map_map, List.map_map]
      congr 1
      refine List.map_congr_left fun e he => ?_
      have hmem : Yaml.member e ∈ members.map Yaml.member := List.mem_map_of_mem he
      have hvalue : (ofYaml e.2).toYaml = e.2 := ih _ hmem (hvalues e he)
      exact congrArg (fun v => (Yaml.string e.1, v)) hvalue
  | tagged tag v ih => cases hv.noTag

/-- **A tree carries loaded data without loss.** A JSON value comes back as it was
loaded. So does a YAML value with strings for keys and without tags, its keys in the same
order. -/
theorem loaded_roundTrip :
    (∀ j : Json, j.Loaded → (ofJson j).toJson = j) ∧
      ∀ v : Yaml, v.Loaded → v.hasStringKeys = true → v.hasTag = false →
        (ofYaml v).toYaml = v := by
  constructor
  · intro j hj
    exact toJson_ofJson hj
  · intro v hv hkeys htag
    exact toYaml_ofYaml ⟨hv, hkeys, htag⟩

/-- The least and the greatest integer, a double, and texts that look like numbers, in
objects and arrays; keys that do not ascend and the NaN in YAML. -/
theorem loaded_roundTrip_nested :
    let half : Number := .float (.finite false (Nat.pow 2 52) (-53))
    let j : Json :=
      .object [("max", .number (.int Number.maxInt)),
        ("spec", .object [("cpu", .number half), ("on", .bool false)]),
        ("tags", .array [.string "8080", .null, .object []])]
    let v : Yaml :=
      .mapping [(.string "min", .number (.int Number.minInt)),
        (.string "a", .mapping [(.string "z", .number (.float .nan)), (.string "b", .bool true)]),
        (.string "", .sequence [.string "0.5", .number half])]
    (j.Loaded ∧ (ofJson j).toJson = j) ∧ v.Loaded ∧ (ofYaml v).toYaml = v := by
  intro half j v
  have hmax : Number.InRange Number.maxInt := by decide
  have hmin : Number.InRange Number.minInt := by decide
  have hhalf : half.Valid := by
    unfold half Number.Valid Binary64.Valid
    decide
  have hj : j.Loaded := by
    have hmax' : (Json.number (.int Number.maxInt)).Loaded :=
      (Json.loaded_number _).mpr ⟨hmax, hmax⟩
    have hhalf' : (Json.number half).Loaded := (Json.loaded_number _).mpr ⟨rfl, hhalf⟩
    have hkeys : ["max", "spec", "tags"].Pairwise (· < ·) ∧ ["cpu", "on"].Pairwise (· < ·) := by
      decide
    unfold j
    simp only [Json.loaded_object, Json.loaded_array, List.forall_mem_cons, Entries.keys_cons,
      Entries.keys_nil]
    exact ⟨hkeys.1, hmax', ⟨hkeys.2, hhalf', Json.loaded_bool false, List.forall_mem_nil _⟩,
      ⟨Json.loaded_string "8080", Json.loaded_null, ⟨.nil, List.forall_mem_nil _⟩,
        List.forall_mem_nil _⟩, List.forall_mem_nil _⟩
  have hv : v.Loaded := by
    refine ⟨by decide, fun n hn => ?_⟩
    unfold v at hn
    obtain _ | _ | ⟨he, hn⟩ := hn
    simp only [List.mem_cons, List.not_mem_nil, or_false] at he
    rcases he with rfl | rfl | rfl
    · cases hn
      exact hmin
    · obtain _ | _ | ⟨he, hn⟩ := hn
      simp only [List.mem_cons, List.not_mem_nil, or_false] at he
      rcases he with rfl | rfl
      · cases hn
        trivial
      · cases hn
    · obtain _ | ⟨he, hn⟩ := hn
      simp only [List.mem_cons, List.not_mem_nil, or_false] at he
      rcases he with rfl | rfl
      · cases hn
      · cases hn
        exact hhalf
  exact ⟨⟨hj, loaded_roundTrip.1 j hj⟩, hv, loaded_roundTrip.2 v hv rfl rfl⟩

/-! ### What trees are written as -/

theorem loaded_scalarToJson (tag : ScalarTag) (text : String) :
    (scalarToJson tag text).Loaded := by
  cases tag with
  | str => exact Json.loaded_string text
  | int =>
      simp only [scalarToJson]
      cases h : intOfText? text with
      | none => exact Json.loaded_string text
      | some n => exact (Json.loaded_number _).mpr ⟨inRange_of_intOfText? h, inRange_of_intOfText? h⟩
  | float =>
      simp only [scalarToJson]
      cases h : finiteOfText? text with
      | none => exact Json.loaded_string text
      | some x =>
          obtain ⟨htext, hfinite⟩ := Option.filter_eq_some_iff.mp h
          exact (Json.loaded_number _).mpr ⟨hfinite, valid_of_floatOfText? htext⟩
  | bool =>
      simp only [scalarToJson]
      cases boolOfText? text with
      | none => exact Json.loaded_string text
      | some b => exact Json.loaded_bool b

/-- A loaded value inserted by its key into an object that is loaded. -/
theorem loaded_insertSorted {members : Entries Json} (h : (Json.object members).Loaded)
    (key : String) {j : Json} (hj : j.Loaded) :
    (Json.object (Entries.insertSorted key j members)).Loaded := by
  obtain ⟨hkeys, hvalues⟩ := (Json.loaded_object members).mp h
  refine (Json.loaded_object _).mpr ⟨Entries.ascending_insertSorted hkeys key j, fun e he => ?_⟩
  rcases Entries.mem_insertSorted he with rfl | he
  · exact hj
  · exact hvalues e he

theorem loaded_toJson (n : Node) : n.toJson.Loaded := by
  induction n using treeInduction with
  | null => rw [toJson]; exact Json.loaded_null
  | scalar tag text => rw [toJson]; exact loaded_scalarToJson tag text
  | sequence items ih =>
      rw [toJson_sequence, Json.loaded_array]
      intro j hj
      obtain ⟨v, hv, rfl⟩ := List.mem_map.mp hj
      exact ih v hv
  | mapping entries ih =>
      rw [toJson_mapping]
      have hinsert : ∀ acc : Entries Json, (Json.object acc).Loaded →
          (Json.object (entries.foldl
            (fun acc e => Entries.insertSorted e.1 e.2.toJson acc) acc)).Loaded := by
        induction entries with
        | nil => exact fun acc hacc => hacc
        | cons e r ihr =>
            intro acc hacc
            have he : e.2.toJson.Loaded := ih e List.mem_cons_self
            exact ihr (fun d hd => ih d (List.mem_cons_of_mem _ hd)) _
              (loaded_insertSorted hacc e.1 he)
      exact hinsert [] ((Json.loaded_object []).mpr ⟨.nil, by simp⟩)

theorem carried_scalarToYaml (tag : ScalarTag) (text : String) :
    (scalarToYaml tag text).Carried := by
  cases tag with
  | str => exact Yaml.carried_string text
  | int =>
      simp only [scalarToYaml]
      cases h : intOfText? text with
      | none => exact Yaml.carried_string text
      | some n => exact (Yaml.carried_number _).mpr (inRange_of_intOfText? h)
  | float =>
      simp only [scalarToYaml]
      cases h : floatOfText? text with
      | none => exact Yaml.carried_string text
      | some x => exact (Yaml.carried_number _).mpr (valid_of_floatOfText? h)
  | bool =>
      simp only [scalarToYaml]
      cases boolOfText? text with
      | none => exact Yaml.carried_string text
      | some b => exact Yaml.carried_bool b

theorem carried_toYaml {n : Node} (hn : n.DistinctKeys) : n.toYaml.Carried := by
  induction n using treeInduction with
  | null => rw [toYaml]; exact Yaml.carried_null
  | scalar tag text => rw [toYaml]; exact carried_scalarToYaml tag text
  | sequence items ih =>
      have hitems := (hereditary_distinctKeys.sequence items).mp hn
      rw [toYaml_sequence, Yaml.carried_sequence]
      intro v hv
      obtain ⟨c, hc, rfl⟩ := List.mem_map.mp hv
      exact ih c hc (hitems c hc)
  | mapping entries ih =>
      obtain ⟨hkeys, hvalues⟩ := (hereditary_distinctKeys.mapping entries).mp hn
      have hmembers : (entries.map fun e => (Yaml.string e.1, e.2.toYaml)) =
          (entries.map fun e => (e.1, e.2.toYaml)).map Yaml.member := by
        rw [List.map_map]
        rfl
      rw [toYaml_mapping, hmembers, Yaml.carried_members]
      refine ⟨by simpa [Entries.keys, Function.comp_def] using hkeys, fun e he => ?_⟩
      obtain ⟨c, hc, rfl⟩ := List.mem_map.mp he
      exact ih c hc (hvalues c hc)

end Node

/-- The JSON values that trees are written as are the ones that are loaded. -/
theorem Json.loaded_iff (j : Json) : j.Loaded ↔ ∃ n : Node, n.toJson = j := by
  constructor
  · intro hj
    exact ⟨.ofJson j, Node.toJson_ofJson hj⟩
  · rintro ⟨n, rfl⟩
    exact Node.loaded_toJson n

/-- The YAML values that trees are written as are the loaded ones with strings for keys
and without tags. -/
theorem Yaml.carried_iff (v : Yaml) : v.Carried ↔ ∃ n : Node, n.DistinctKeys ∧ n.toYaml = v := by
  constructor
  · intro hv
    exact ⟨.ofYaml v, Node.distinctKeys_ofYaml v, Node.toYaml_ofYaml hv⟩
  · rintro ⟨n, hn, rfl⟩
    exact Node.carried_toYaml hn

end Graft
