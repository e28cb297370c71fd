import Graft.Proofs.Node.Loaded
import Graft.Proofs.Rule.Members

/-!
# Graft.Proofs.Node.Keys

The entries of a YAML mapping in the tree, where they stand under the texts of their keys
(`Node.entries_kept`).

The text of a key that is no string says which key it was (`Node.keyOfText_keyText`), so such
keys never meet. A string can be the text of another key, as `"1"` is that of `1`. A mapping
without such a pair keeps all its entries (`Node.KeysApart`); any other loses some, since the
entry of the later key replaces that of the earlier one (`Node.entries_merged`).

Mappings are looked at where they stand in a value, and trees at the same place
(`Node.part?_ofYaml`).
-/

namespace Graft

open Yaml (Scalar)

namespace Node

/-! ### Texts of keys -/

/-- The key that a text stands for if it is that of no string: a number, a truth value or
else null. -/
def keyOfText (text : String) : Yaml :=
  match Decimal.parseInt? text.toList with
  | some n => .number (.int n)
  | none =>
    match floatOfText? text with
    | some x => .number (.float x)
    | none =>
      match boolOfText? text with
      | some b => .bool b
      | none => .null

/-- Any other scalar than a string is known by its text. -/
theorem keyOfText_keyText {k : Yaml} (hscalar : k.Scalar) (hstring : ∀ s, k ≠ .string s)
    (hvalid : ∀ n, k = .number n → n.Valid) : keyOfText (keyText k) = k := by
  cases k with
  | null => rfl
  | bool b => cases b <;> rfl
  | number n =>
      cases n with
      | int n => simp only [keyOfText, keyText, Number.text, Decimal.parseInt?_toString]
      | float x =>
          have hx : x.Valid := hvalid _ rfl
          simp only [keyOfText, keyText, Number.text, Binary64.parseInt?_text,
            floatOfText?_text .yaml hx]
  | string s => exact absurd rfl (hstring s)
  | sequence items => cases hscalar
  | mapping entries => cases hscalar
  | tagged tag v => cases hscalar

/-- Scalars other than strings are the same key if they have the same text. -/
theorem keyText_inj {k l : Yaml} (hk : k.Scalar) (hl : l.Scalar) (hks : ∀ s, k ≠ .string s)
    (hls : ∀ s, l ≠ .string s) (hkv : ∀ n, k = .number n → n.Valid)
    (hlv : ∀ n, l = .number n → n.Valid) (h : keyText k = keyText l) : k = l := by
  rw [← keyOfText_keyText hk hks hkv, h, keyOfText_keyText hl hls hlv]

/-- No string among the keys is the text of a key of another kind. -/
def KeysApart (keys : List Yaml) : Prop :=
  ∀ s, .string s ∈ keys → ∀ k ∈ keys, keyText k = s → k = .string s

end Node

theorem Number.sameNumber_self (n : Number) : n.sameNumber n = true := by
  cases n with
  | int n => exact beq_self_eq_true n
  | float x => simp [sameNumber, Binary64.sameNumber]

namespace Yaml

theorem same_self {k : Yaml} (hk : k.Scalar) : same k k = true := by
  cases k with
  | null => rfl
  | bool b => exact beq_self_eq_true b
  | number n => exact n.sameNumber_self
  | string s => exact beq_self_eq_true s
  | sequence items => cases hk
  | mapping entries => cases hk
  | tagged tag v => cases hk

theorem nodup_of_distinct {keys : List Yaml} (hscalar : ∀ k ∈ keys, k.Scalar)
    (h : distinct keys = true) : keys.Nodup := by
  induction keys with
  | nil => exact List.nodup_nil
  | cons k r ih =>
      obtain ⟨hk, hr⟩ := List.forall_mem_cons.mp hscalar
      rw [distinct, Bool.and_eq_true, Bool.not_eq_true', List.any_eq_false] at h
      exact List.nodup_cons.mpr ⟨fun hmem => h.1 k hmem (same_self hk), ih hr h.2⟩

end Yaml

namespace Node

/-- Keys that are different have different texts, apart from strings that are the texts of
other keys. -/
theorem nodup_keyText_iff {keys : List Yaml} (hscalar : ∀ k ∈ keys, k.Scalar)
    (hvalid : ∀ n, .number n ∈ keys → n.Valid) (hdistinct : Yaml.distinct keys = true) :
    (keys.map keyText).Nodup ↔ KeysApart keys := by
  constructor
  · intro h s hs k hk htext
    exact List.inj_on_of_nodup_map h hk hs htext
  · intro h
    refine List.Nodup.map_on ?_ (Yaml.nodup_of_distinct hscalar hdistinct)
    intro k hk l hl htext
    by_cases hks : ∃ s, k = .string s
    · obtain ⟨s, rfl⟩ := hks
      exact (h s hk l hl htext.symm).symm
    by_cases hls : ∃ s, l = .string s
    · obtain ⟨s, rfl⟩ := hls
      exact h s hl k hk htext
    · exact keyText_inj (hscalar k hk) (hscalar l hl) (not_exists.mp hks) (not_exists.mp hls)
        (fun n hn => hvalid n (hn ▸ hk)) (fun n hn => hvalid n (hn ▸ hl)) htext

/-- Where two keys have one text, there are fewer entries in the tree. -/
theorem ofYaml_mapping_shorter {entries : List (Yaml × Yaml)}
    (h : ¬ ((entries.map (·.1)).map keyText).Nodup) :
    ∃ merged, ofYaml (.mapping entries) = .mapping merged ∧ merged.length < entries.length := by
  rw [← keys_texts] at h
  refine ⟨_, ofYaml_mapping entries, ?_⟩
  simpa only [List.length_map] using Entries.length_ofPairs_lt h

end Node

/-! ### Places -/

/-- A way from a container to one of its parts. -/
inductive Branch where
  /-- To an item of a sequence. -/
  | item (i : Nat)
  /-- To the value of a mapping under the text of its key. -/
  | entry (key : String)

/-- The part of a tree at the end of a branch. -/
def Node.under? (n : Node) : Branch → Option Node
  | .item i => match n with
    | .sequence items => items[i]?
    | _ => none
  | .entry key => n.field? key

/-- The part of a tree at a place, which is given from the root on. -/
def Node.part? (n : Node) : List Branch → Option Node
  | [] => some n
  | b :: r => (n.under? b).bind (part? · r)

/-- The part of a value at the end of a branch. Of the entries whose keys have one text the
last one counts; tags do not. -/
def Yaml.under? (v : Yaml) (b : Branch) : Option Yaml :=
  match v.untagged, b with
  | .sequence items, .item i => items[i]?
  | .mapping entries, .entry key =>
    Entries.get? key (entries.map fun e => (Node.keyText e.1, e.2)).reverse
  | _, _ => none

/-- The part of a value at a place, which is given from the root on, as it is under its tags. -/
def Yaml.part? (v : Yaml) : List Branch → Option Yaml
  | [] => some v.untagged
  | b :: r => (v.under? b).bind (part? · r)

namespace Node

theorem under?_ofYaml (v : Yaml) (b : Branch) : (ofYaml v).under? b = (v.under? b).map ofYaml := by
  induction v using Yaml.treeInduction with
  | null => cases b <;> rfl
  | bool b' => cases b <;> rfl
  | number n => cases n <;> cases b <;> rfl
  | string s => cases b <;> rfl
  | sequence items _ =>
      rw [ofYaml_sequence]
      cases b with
      | item i => exact List.getElem?_map
      | entry key => rfl
  | mapping entries _ =>
      rw [ofYaml_mapping]
      cases b with
      | item i => rfl
      | entry key =>
          have hvalue := Entries.get?_map ofYaml
            (entries.map fun e => (keyText e.1, e.2)).reverse key
          rw [List.map_reverse, List.map_map] at hvalue
          rw [under?, field?, Entries.get?_ofPairs]
          exact hvalue
  | tagged tag v ih => exact ih

/-- Tags leave no trace in the tree. -/
theorem ofYaml_untagged (v : Yaml) : ofYaml v.untagged = ofYaml v := by
  induction v using Yaml.treeInduction with
  | tagged tag v ih => exact ih
  | _ => rfl

/-- The tree of a value has at each place the tree of what the value has there. -/
theorem part?_ofYaml (v : Yaml) (place : List Branch) :
    (ofYaml v).part? place = (v.part? place).map ofYaml := by
  induction place generalizing v with
  | nil =>
      rw [part?, Yaml.part?, Option.map_some, ofYaml_untagged]
  | cons b r ih =>
      rw [part?, Yaml.part?, under?_ofYaml]
      cases v.under? b with
      | none => rfl
      | some w => exact ih w

/-! ### Mappings in a value -/

/-- **A mapping keeps its entries where its keys are apart.** Wherever a mapping stands in a
value, itself or what is around it under tags or not, its keys being different scalars: if no
string among them is the text of another key, then the tree has at this place a mapping of the
same entries in the same order, each under the text of its key. Otherwise it has one of fewer
entries. -/
theorem entries_kept {v : Yaml} {place : List Branch} {entries : List (Yaml × Yaml)}
    (hplace : v.part? place = some (.mapping entries))
    (hscalar : ∀ k ∈ entries.map (·.1), k.Scalar)
    (hvalid : ∀ n, .number n ∈ entries.map (·.1) → n.Valid)
    (hdistinct : Yaml.distinct (entries.map (·.1)) = true) :
    (KeysApart (entries.map (·.1)) →
      (ofYaml v).part? place =
        some (.mapping (entries.map fun e => (keyText e.1, ofYaml e.2)))) ∧
      (¬ KeysApart (entries.map (·.1)) →
        ∃ merged, (ofYaml v).part? place = some (.mapping merged) ∧
          merged.length < entries.length) := by
  have htree : (ofYaml v).part? place = some (ofYaml (.mapping entries)) := by
    rw [part?_ofYaml, hplace]
    rfl
  rw [← nodup_keyText_iff hscalar hvalid hdistinct, htree]
  constructor
  · intro hnodup
    rw [ofYaml_mapping_of_nodup hnodup]
  · intro hrepeated
    obtain ⟨merged, hmerged, hlength⟩ := ofYaml_mapping_shorter hrepeated
    exact ⟨merged, congrArg some hmerged, hlength⟩

/-- Under an integer, a string that spells a truth value, null and the NaN all entries are
kept, in an item of a sequence that is the later of two values under one text. Root, sequence
and item have a tag each, and one of the values in the item has two. -/
theorem entries_kept_nested :
    let inner : List (Yaml × Yaml) :=
      [(.number (.int (-1)), .string "a"), (.string "true", .null),
        (.null, .tagged "set" (.tagged "flag" (.bool true))),
        (.number (.float .nan), .sequence []), (.string "", .mapping [])]
    let v : Yaml :=
      .tagged "all" (.mapping [(.string "2", .mapping inner),
        (.number (.int 2), .tagged "list" (.sequence [.null, .tagged "item" (.mapping inner)]))])
    let place : List Branch := [.entry "2", .item 1]
    v.part? place = some (.mapping inner) ∧ Yaml.distinct (inner.map (·.1)) = true ∧
      (ofYaml v).part? place =
        some (.mapping [("-1", .string "a"), ("true", .null), ("null", .scalar .bool "true"),
          (".nan", .sequence []), ("", .mapping [])]) := by
  intro inner v place
  have hscalar : ∀ k ∈ inner.map (·.1), k.Scalar := by
    simp [inner, Scalar]
  have hvalid : ∀ n, .number n ∈ inner.map (·.1) → n.Valid := by
    intro n hn
    obtain rfl | rfl : n = .int (-1) ∨ n = .float .nan := by simpa [inner] using hn
    · exact (by decide : Number.InRange (-1))
    · trivial
  have hapart : KeysApart (inner.map (·.1)) := by
    intro s hs k hk htext
    obtain rfl | rfl : s = "true" ∨ s = "" := by simpa [inner] using hs
    all_goals
      obtain rfl | rfl | rfl | rfl | rfl : k = .number (.int (-1)) ∨ k = .string "true" ∨
          k = .null ∨ k = .number (.float .nan) ∨ k = .string "" := by simpa [inner] using hk
      all_goals first | rfl | exact absurd htext (by decide)
  exact ⟨rfl, by decide, (entries_kept rfl hscalar hvalid (by decide)).1 hapart⟩

/-- A string and the integer that it spells are different keys of one value without tags, and
one entry is left of the two. -/
theorem entries_merged :
    let v : Yaml := .mapping [(.string "1", .string "a"), (.number (.int 1), .string "b")]
    v.hasTag = false ∧ v.hasDistinctKeys = true ∧ ofYaml v = .mapping [("1", .string "b")] := by
  exact ⟨rfl, by decide, rfl⟩

end Node
end Graft
