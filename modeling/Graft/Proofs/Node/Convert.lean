import Graft.Node.Convert
import Graft.Proofs.Node.Tree

/-!
# Graft.Proofs.Node.Convert

The conversions between trees and plain data, by the equations of their containers.

The conversions walk through a container with what they have done so far in an
argument. Here each is an equation without that argument: items are converted one by
one, and a mapping is built from the pairs that its entries are converted to
(`ofYaml_mapping`, `ofJson_object`), sorted where JSON is written (`toJson_mapping`). Entries
whose keys have different texts are converted one by one as well (`ofYaml_mapping_of_nodup`).
Hence a tree that was read repeats no key anywhere, also where two keys become one text
(`distinctKeys_ofYaml`, `distinctKeys_ofJson`), and it has every hereditary property that
its scalars have (`Hereditary.ofYaml`).
-/

namespace Graft

/-! ### Induction -/

@[elab_as_elim]
theorem Yaml.treeInduction {motive : Yaml → Prop} (null : motive .null)
    (bool : ∀ b, motive (.bool b)) (number : ∀ n, motive (.number n))
    (string : ∀ s, motive (.string s))
    (sequence : ∀ items : List Yaml, (∀ v ∈ items, motive v) → motive (.sequence items))
    (mapping : ∀ entries : List (Yaml × Yaml), (∀ e ∈ entries, motive e.2) →
      motive (.mapping entries))
    (tagged : ∀ tag v, motive v → motive (.tagged tag v)) : ∀ v, motive v
  | .null => null
  | .bool b => bool b
  | .number n => number n
  | .string s => string s
  | .sequence items => sequence items fun v hv =>
      have hless : sizeOf v < sizeOf (Yaml.sequence items) :=
        Nat.lt_of_lt_of_le (List.sizeOf_lt_of_mem hv) (by simp)
      treeInduction null bool number string sequence mapping tagged v
  | .mapping entries => mapping entries fun e he =>
      have hless : sizeOf e.2 < sizeOf (Yaml.mapping entries) :=
        Nat.lt_of_lt_of_le (Entries.sizeOf_value_lt he) (by simp)
      treeInduction null bool number string sequence mapping tagged e.2
  | .tagged tag v => tagged tag v (treeInduction null bool number string sequence mapping tagged v)
termination_by v => sizeOf v
decreasing_by
  · exact hless
  · exact hless
  · simp only [Yaml.tagged.sizeOf_spec]; omega

/-- A number that is a value of some plain data or of one of its parts. -/
inductive Yaml.HasNumber (n : Number) : Yaml → Prop where
  | here : HasNumber n (.number n)
  | item {items : List Yaml} {v : Yaml} (hv : v ∈ items) (h : HasNumber n v) :
      HasNumber n (.sequence items)
  | value {entries : List (Yaml × Yaml)} {e : Yaml × Yaml} (he : e ∈ entries)
      (h : HasNumber n e.2) : HasNumber n (.mapping entries)
  | tagged {tag : String} {v : Yaml} (h : HasNumber n v) : HasNumber n (.tagged tag v)

@[elab_as_elim]
theorem Json.treeInduction {motive : Json → Prop} (null : motive .null)
    (bool : ∀ b, motive (.bool b)) (number : ∀ n, motive (.number n))
    (string : ∀ s, motive (.string s))
    (array : ∀ items : List Json, (∀ j ∈ items, motive j) → motive (.array items))
    (object : ∀ members : Entries Json, (∀ e ∈ members, motive e.2) → motive (.object members)) :
    ∀ j, motive j
  | .null => null
  | .bool b => bool b
  | .number n => number n
  | .string s => string s
  | .array items => array items fun j hj =>
      have hless : sizeOf j < sizeOf (Json.array items) :=
        Nat.lt_of_lt_of_le (List.sizeOf_lt_of_mem hj) (by simp)
      treeInduction null bool number string array object j
  | .object members => object members fun e he =>
      have hless : sizeOf e.2 < sizeOf (Json.object members) :=
        Nat.lt_of_lt_of_le (Entries.sizeOf_value_lt he) (by simp)
      treeInduction null bool number string array object e.2
termination_by j => sizeOf j
decreasing_by
  · exact hless
  · exact hless

namespace Node

/-! ### The equations of containers -/

theorem ofYamlItems_eq (acc : List Node) (items : List Yaml) :
    ofYamlItems acc items = acc.reverse ++ items.map ofYaml := by
  induction items generalizing acc with
  | nil => simp [ofYamlItems]
  | cons v r ih => simp [ofYamlItems, ih]

theorem ofYamlEntries_eq (pairs : Entries Node) (entries : List (Yaml × Yaml)) :
    ofYamlEntries (Entries.ofPairs pairs) entries =
      Entries.ofPairs (pairs ++ entries.map fun e => (keyText e.1, ofYaml e.2)) := by
  induction entries generalizing pairs with
  | nil => simp [ofYamlEntries]
  | cons e r ih =>
      rw [ofYamlEntries, ← Entries.ofPairs_concat pairs (keyText e.1, ofYaml e.2), ih]
      simp

theorem ofJsonItems_eq (acc : List Node) (items : List Json) :
    ofJsonItems acc items = acc.reverse ++ items.map ofJson := by
  induction items generalizing acc with
  | nil => simp [ofJsonItems]
  | cons j r ih => simp [ofJsonItems, ih]

theorem ofJsonMembers_eq (pairs : Entries Node) (members : Entries Json) :
    ofJsonMembers (Entries.ofPairs pairs) members =
      Entries.ofPairs (pairs ++ members.map fun e => (e.1, ofJson e.2)) := by
  induction members generalizing pairs with
  | nil => simp [ofJsonMembers]
  | cons e r ih =>
      rw [ofJsonMembers, ← Entries.ofPairs_concat pairs (e.1, ofJson e.2), ih]
      simp

theorem toYamlItems_eq (acc : List Yaml) (items : List Node) :
    toYamlItems acc items = acc.reverse ++ items.map toYaml := by
  induction items generalizing acc with
  | nil => simp [toYamlItems]
  | cons v r ih => simp [toYamlItems, ih]

theorem toYamlEntries_eq (acc : List (Yaml × Yaml)) (entries : Entries Node) :
    toYamlEntries acc entries = acc.reverse ++ entries.map fun e => (.string e.1, e.2.toYaml) := by
  induction entries generalizing acc with
  | nil => simp [toYamlEntries]
  | cons e r ih => simp [toYamlEntries, ih]

theorem toJsonItems_eq (acc : List Json) (items : List Node) :
    toJsonItems acc items = acc.reverse ++ items.map toJson := by
  induction items generalizing acc with
  | nil => simp [toJsonItems]
  | cons v r ih => simp [toJsonItems, ih]

theorem toJsonMembers_eq (acc : Entries Json) (entries : Entries Node) :
    toJsonMembers acc entries =
      entries.foldl (fun acc e => Entries.insertSorted e.1 e.2.toJson acc) acc := by
  induction entries generalizing acc with
  | nil => rfl
  | cons e r ih => simp only [toJsonMembers, ih, List.foldl_cons]

@[simp] theorem ofYaml_sequence (items : List Yaml) :
    ofYaml (.sequence items) = .sequence (items.map ofYaml) := by
  simp [ofYaml, ofYamlItems_eq]

theorem ofYaml_mapping (entries : List (Yaml × Yaml)) :
    ofYaml (.mapping entries) =
      .mapping (Entries.ofPairs (entries.map fun e => (keyText e.1, ofYaml e.2))) := by
  have hentries := ofYamlEntries_eq [] entries
  rw [Entries.ofPairs_nil, List.nil_append] at hentries
  rw [ofYaml, hentries]

theorem keys_texts (entries : List (Yaml × Yaml)) :
    Entries.keys (entries.map fun e => (keyText e.1, ofYaml e.2)) =
      (entries.map (·.1)).map keyText := by
  simp [Entries.keys, Function.comp_def]

/-- Entries whose keys have different texts are kept. -/
theorem ofYaml_mapping_of_nodup {entries : List (Yaml × Yaml)}
    (h : ((entries.map (·.1)).map keyText).Nodup) :
    ofYaml (.mapping entries) = .mapping (entries.map fun e => (keyText e.1, ofYaml e.2)) := by
  rw [← keys_texts] at h
  rw [ofYaml_mapping, Entries.ofPairs_of_nodup h]

@[simp] theorem ofJson_array (items : List Json) :
    ofJson (.array items) = .sequence (items.map ofJson) := by
  simp [ofJson, ofJsonItems_eq]

theorem ofJson_object (members : Entries Json) :
    ofJson (.object members) =
      .mapping (Entries.ofPairs (members.map fun e => (e.1, ofJson e.2))) := by
  have hmembers := ofJsonMembers_eq [] members
  rw [Entries.ofPairs_nil, List.nil_append] at hmembers
  rw [ofJson, hmembers]

@[simp] theorem toYaml_sequence (items : List Node) :
    toYaml (.sequence items) = .sequence (items.map toYaml) := by
  simp [toYaml, toYamlItems_eq]

@[simp] theorem toYaml_mapping (entries : Entries Node) :
    toYaml (.mapping entries) = .mapping (entries.map fun e => (.string e.1, e.2.toYaml)) := by
  simp [toYaml, toYamlEntries_eq]

@[simp] theorem toJson_sequence (items : List Node) :
    toJson (.sequence items) = .array (items.map toJson) := by
  simp [toJson, toJsonItems_eq]

theorem toJson_mapping (entries : Entries Node) :
    toJson (.mapping entries) =
      .object (entries.foldl (fun acc e => Entries.insertSorted e.1 e.2.toJson acc) []) := by
  rw [toJson, toJsonMembers_eq]

/-! ### Properties of trees that were read -/

/-- Entries built from pairs, which repeat no key. -/
theorem Hereditary.ofPairs {P : Node → Prop} (hP : Hereditary P) {pairs : List (String × Node)}
    (hpairs : ∀ p ∈ pairs, P p.2) : P (.mapping (Entries.ofPairs pairs)) := by
  induction pairs using List.reverseRecOn with
  | nil => exact hP.empty .mapping
  | append_singleton r p ih =>
      rw [Entries.ofPairs_concat]
      have hr : P (.mapping (Entries.ofPairs r)) :=
        ih fun q hq => hpairs q (List.mem_append_left _ hq)
      exact hP.insert hr p.1 (hpairs p (by simp))

theorem distinctKeys_ofNumber (layout : FloatLayout) (n : Number) :
    (ofNumber layout n).DistinctKeys := by
  cases n <;> simp [ofNumber, DistinctKeys]

/-- A tree read from YAML has every property of all parts that its scalars have. -/
theorem Hereditary.ofYaml {P : Node → Prop} (hP : Hereditary P)
    (hbool : ∀ b, P (.scalar .bool (boolText b))) {v : Yaml}
    (hnumber : ∀ n, v.HasNumber n → P (ofNumber .yaml n)) : P (Node.ofYaml v) := by
  induction v using Yaml.treeInduction with
  | null => exact hP.null
  | bool b => exact hbool b
  | number n => exact hnumber n .here
  | string s => exact hP.string s
  | sequence items ih =>
      rw [ofYaml_sequence, hP.sequence]
      intro n hn
      obtain ⟨v, hv, rfl⟩ := List.mem_map.mp hn
      exact ih v hv fun n hn => hnumber n (.item hv hn)
  | mapping entries ih =>
      rw [ofYaml_mapping]
      refine hP.ofPairs fun p hp => ?_
      obtain ⟨e, he, rfl⟩ := List.mem_map.mp hp
      exact ih e he fun n hn => hnumber n (.value he hn)
  | tagged tag v ih => exact ih fun n hn => hnumber n (.tagged hn)

/-- A tree read from YAML repeats no key, whatever texts its keys become. -/
theorem distinctKeys_ofYaml (v : Yaml) : (ofYaml v).DistinctKeys :=
  hereditary_distinctKeys.ofYaml (fun b => by simp [DistinctKeys])
    fun n _ => distinctKeys_ofNumber .yaml n

theorem distinctKeys_ofJson (j : Json) : (ofJson j).DistinctKeys := by
  induction j using Json.treeInduction with
  | null => simp [ofJson, DistinctKeys]
  | bool b => simp [ofJson, DistinctKeys]
  | number n => simpa only [ofJson] using distinctKeys_ofNumber .json n
  | string s => simpa only [ofJson] using hereditary_distinctKeys.string s
  | array items ih =>
      rw [ofJson_array, hereditary_distinctKeys.sequence]
      intro n hn
      obtain ⟨j, hj, rfl⟩ := List.mem_map.mp hn
      exact ih j hj
  | object members ih =>
      rw [ofJson_object]
      refine hereditary_distinctKeys.ofPairs fun p hp => ?_
      obtain ⟨e, he, rfl⟩ := List.mem_map.mp hp
      exact ih e he

/-- Nothing but null is written as the null that a stream passes over. -/
theorem isNull_toYaml {n : Node} (hn : n.kind ≠ .null) : n.toYaml.isNull = false := by
  rw [← Bool.not_eq_true, Yaml.isNull_iff]
  cases n with
  | null => exact absurd rfl hn
  | mapping entries => simp [Yaml.untagged]
  | sequence items => simp [Yaml.untagged]
  | scalar tag text =>
      rw [toYaml]
      cases tag with
      | str => nofun
      | int =>
          simp only [scalarToYaml]
          cases intOfText? text <;> nofun
      | float =>
          simp only [scalarToYaml]
          cases floatOfText? text <;> nofun
      | bool =>
          simp only [scalarToYaml]
          cases boolOfText? text <;> nofun

end Node
end Graft
