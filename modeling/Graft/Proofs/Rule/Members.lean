import Mathlib.Data.List.Forall2
import Graft.Rule.Data

/-!
# Graft.Proofs.Rule.Members

Which keys the records of a rule can have.

`Rule.Spelled` goes through a value as a rule is laid out and asks of each record
that all its keys name members of that record. It leaves open what is asked of
patterns: `Pattern.Spelled` asks it of them as well, `fun _ => True` nothing.

A value that is read as a rule is spelled so in every record but the patterns
(`Rule.ofYaml?_spelled`), and all through it if its patterns are (`Rule.spelled_iff`).
Patterns pass over the members they do not know, so a misspelt one leaves a wildcard
(`Rule.read_misspelt`).
-/

namespace Graft

/-! ### Layouts -/

namespace Yaml

/-- A value without parts, and so without keys. -/
def Scalar : Yaml → Prop
  | .mapping _ | .sequence _ | .tagged _ _ => False
  | _ => True

/-- A member of a record, with what is asked of its value. -/
structure Member where
  /-- The name. -/
  name : String
  /-- What is asked of the value. -/
  Allows : Yaml → Prop := Scalar

/-- A record of which every key names a member. A member can be given by its position
too, and without any keys the values stand in the order of the members. -/
def Record (members : List Member) : Yaml → Prop
  | .mapping entries => ∀ key value, (key, value) ∈ entries → ∃ (i : Nat) (m : Member),
      members[i]? = some m ∧ (key = .string m.name ∨ key = .number (.int i)) ∧ m.Allows value
  | .sequence items => ∀ (i : Nat) value, items[i]? = some value →
      ∃ m, members[i]? = some m ∧ m.Allows value
  | _ => False

/-- A value that stands for a member of a record. -/
def HasMember (i : Nat) (name : String) (value : Yaml) : Yaml → Prop
  | .mapping entries => (.string name, value) ∈ entries ∨ (.number (.int i), value) ∈ entries
  | .sequence items => items[i]? = some value
  | _ => False

/-- A sequence, with what is asked of its items. -/
def Each (P : Yaml → Prop) : Yaml → Prop
  | .sequence items => ∀ value ∈ items, P value
  | _ => False

/-- Null, or what is asked. -/
def Nullable (P : Yaml → Prop) (value : Yaml) : Prop := value = .null ∨ P value

end Yaml

open Yaml (Scalar Member Record HasMember Each Nullable)

/-- Patterns of which every key names a member. -/
def Pattern.Spelled : Yaml → Prop := Record (identityMembers.map ({ name := · }))

/-- Options of which every key names a member. -/
def FieldOptions.Spelled : Yaml → Prop :=
  Record [{ name := "delimiter" }, { name := "index" }, { name := "create" }]

/-- Sources of which every key names a member. -/
def Source.Spelled : Yaml → Prop :=
  Record (identityMembers.map ({ name := · }) ++
    [{ name := "fieldPath" }, ⟨"options", Nullable FieldOptions.Spelled⟩])

/-- Targets of which every key names a member, with what is asked of their patterns. -/
def Target.Spelled (pattern : Yaml → Prop) : Yaml → Prop :=
  Record [⟨"select", Nullable pattern⟩, ⟨"reject", Each pattern⟩, ⟨"fieldPaths", Each Scalar⟩,
    ⟨"options", Nullable FieldOptions.Spelled⟩]

/-- Rules of which every key at every level names a member, with what is asked of
their patterns. -/
def Rule.Spelled (pattern : Yaml → Prop) : Yaml → Prop :=
  Record [⟨"source", Nullable Source.Spelled⟩,
    ⟨"targets", Nullable (Each (Target.Spelled pattern))⟩]

/-- A value that stands for a pattern of a target. -/
def Target.HasPattern (pattern target : Yaml) : Prop :=
  HasMember 0 "select" pattern target ∧ pattern ≠ .null ∨
    ∃ items, HasMember 1 "reject" (.sequence items) target ∧ pattern ∈ items

/-- A value that stands for a pattern of some target of a rule. -/
def Rule.HasPattern (pattern rule : Yaml) : Prop :=
  ∃ targets, HasMember 1 "targets" (.sequence targets) rule ∧
    ∃ target ∈ targets, Target.HasPattern pattern target

/-! ### Records with other conditions -/

/-- What a record says of its members. -/
theorem allows_of_record {members : List Member} {value : Yaml} (h : Record members value)
    (hnames : (members.map (·.name)).Nodup) {i : Nat} {m : Member} (hm : members[i]? = some m)
    {v : Yaml} (hv : HasMember i m.name v value) : m.Allows v := by
  have hunique : ∀ {j m'}, members[j]? = some m' → i = j → m'.Allows v → m.Allows v := by
    rintro j m' hm' rfl hallows
    rw [hm] at hm'
    exact Option.some.inj hm' ▸ hallows
  cases value with
  | mapping entries =>
      simp only [Record] at h
      rcases hv with hmem | hmem
      · obtain ⟨j, m', hm', hkey | hkey, hallows⟩ := h _ _ hmem
        · -- only one member has this name
          have hlt : i < (members.map (·.name)).length := by
            rw [List.length_map]
            exact (List.getElem?_eq_some_iff.mp hm).1
          have hij : i = j := by
            refine (List.getElem?_inj hlt hnames).mp ?_
            rw [List.getElem?_map, List.getElem?_map, hm, hm']
            exact congrArg some (Yaml.string.inj hkey)
          exact hunique hm' hij hallows
        · cases hkey
      · obtain ⟨j, m', hm', hkey | hkey, hallows⟩ := h _ _ hmem
        · cases hkey
        · have hij : (i : Int) = j := Number.int.inj (Yaml.number.inj hkey)
          exact hunique hm' (by omega) hallows
  | sequence items =>
      simp only [Record] at h
      obtain ⟨m', hm', hallows⟩ := h i v hv
      exact hunique hm' rfl hallows
  | null => cases hv
  | bool b => cases hv
  | number n => cases hv
  | string s => cases hv
  | tagged tag w => cases hv

/-- Other conditions on the members that the values of a record meet too. -/
theorem record_mono {members members' : List Member} {value : Yaml} (h : Record members value)
    (hsame : ∀ (i : Nat) m, members[i]? = some m → ∃ m', members'[i]? = some m' ∧
      m'.name = m.name ∧ ∀ v, HasMember i m.name v value → m.Allows v → m'.Allows v) :
    Record members' value := by
  cases value with
  | mapping entries =>
      simp only [Record] at h ⊢
      intro key v hmem
      obtain ⟨i, m, hm, hkey, hallows⟩ := h key v hmem
      obtain ⟨m', hm', hname, himp⟩ := hsame i m hm
      refine ⟨i, m', hm', hname ▸ hkey, himp v ?_ hallows⟩
      rcases hkey with rfl | rfl
      · exact .inl hmem
      · exact .inr hmem
  | sequence items =>
      simp only [Record] at h ⊢
      intro i v hv
      obtain ⟨m, hm, hallows⟩ := h i v hv
      obtain ⟨m', hm', -, himp⟩ := hsame i m hm
      exact ⟨m', hm', himp v hv hallows⟩
  | null => cases h
  | bool b => cases h
  | number n => cases h
  | string s => cases h
  | tagged tag w => cases h

/-- Another condition on the items that those of a sequence meet too. -/
theorem each_mono {P Q : Yaml → Prop} {value : Yaml} (h : Each P value)
    (hPQ : ∀ items, value = .sequence items → ∀ v ∈ items, P v → Q v) : Each Q value := by
  cases value with
  | sequence items => exact fun v hv => hPQ items rfl v hv (h v hv)
  | _ => cases h

/-- What is asked of the patterns of a target is asked of each on its own. -/
theorem Target.spelled_iff {P : Yaml → Prop} {target : Yaml} :
    Target.Spelled P target ↔
      Target.Spelled (fun _ => True) target ∧ ∀ p, Target.HasPattern p target → P p := by
  constructor
  · intro h
    refine ⟨record_mono h fun i m hm => ?_, fun p hp => ?_⟩
    · match i with
      | 0 => exact Option.some.inj hm ▸ ⟨_, rfl, rfl, fun v _ _ => .inr trivial⟩
      | 1 =>
          exact Option.some.inj hm ▸
            ⟨_, rfl, rfl, fun v _ heach => each_mono heach fun _ _ _ _ _ => trivial⟩
      | 2 | 3 => exact Option.some.inj hm ▸ ⟨_, rfl, rfl, fun _ _ hallows => hallows⟩
    · rcases hp with ⟨hselect, hnull⟩ | ⟨items, hreject, hmem⟩
      · have hallows := allows_of_record h (by simp) (i := 0) rfl hselect
        exact hallows.resolve_left hnull
      · have hallows := allows_of_record h (by simp) (i := 1) rfl hreject
        exact hallows p hmem
  · rintro ⟨h, hpatterns⟩
    refine record_mono h fun i m hm => ?_
    match i with
    | 0 =>
        refine Option.some.inj hm ▸ ⟨_, rfl, rfl, fun v hselect _ => ?_⟩
        by_cases hnull : v = .null
        · exact .inl hnull
        · exact .inr (hpatterns v (.inl ⟨hselect, hnull⟩))
    | 1 =>
        refine Option.some.inj hm ▸ ⟨_, rfl, rfl, fun v hreject heach => each_mono heach ?_⟩
        rintro items rfl p hp -
        exact hpatterns p (.inr ⟨items, hreject, hp⟩)
    | 2 | 3 => exact Option.some.inj hm ▸ ⟨_, rfl, rfl, fun _ _ hallows => hallows⟩

theorem Rule.spelled_iff {P : Yaml → Prop} {rule : Yaml} :
    Rule.Spelled P rule ↔
      Rule.Spelled (fun _ => True) rule ∧ ∀ p, Rule.HasPattern p rule → P p := by
  constructor
  · intro h
    refine ⟨record_mono h fun i m hm => ?_, fun p hp => ?_⟩
    · match i with
      | 0 => exact Option.some.inj hm ▸ ⟨_, rfl, rfl, fun _ _ hallows => hallows⟩
      | 1 =>
          refine Option.some.inj hm ▸ ⟨_, rfl, rfl, fun v _ hallows => hallows.imp_right ?_⟩
          intro heach
          exact each_mono heach fun _ _ t _ ht => (Target.spelled_iff.mp ht).1
    · obtain ⟨targets, htargets, t, ht, hp⟩ := hp
      have hallows := allows_of_record h (by simp) (i := 1) rfl htargets
      rcases hallows with hnull | heach
      · cases hnull
      · exact (Target.spelled_iff.mp (heach t ht)).2 p hp
  · rintro ⟨h, hpatterns⟩
    refine record_mono h fun i m hm => ?_
    match i with
    | 0 => exact Option.some.inj hm ▸ ⟨_, rfl, rfl, fun _ _ hallows => hallows⟩
    | 1 =>
        refine Option.some.inj hm ▸ ⟨_, rfl, rfl, fun v htargets hallows => hallows.imp_right ?_⟩
        intro heach
        refine each_mono heach ?_
        rintro targets rfl t ht hspelled
        exact Target.spelled_iff.mpr
          ⟨hspelled, fun p hp => hpatterns p ⟨targets, htargets, t, ht, hp⟩⟩

/-! ### Keys -/

theorem MemberKey.eq_of_member {names : List String} {key : Yaml} {i : Nat}
    (h : MemberKey.of names key = .member i) :
    ∃ name, names[i]? = some name ∧ (key = .string name ∨ key = .number (.int i)) := by
  unfold MemberKey.of at h
  split at h
  · next s =>
      split at h
      · next j hj =>
          obtain rfl : j = i := MemberKey.member.inj h
          obtain ⟨hlt, hs, -⟩ := List.findIdx?_eq_some_iff_getElem.mp hj
          exact ⟨s, by rw [List.getElem?_eq_getElem hlt, beq_iff_eq.mp hs], .inl rfl⟩
      · cases h
  · next n =>
      split at h
      · cases h
      · next hn =>
          split at h
          · next hlt =>
              obtain rfl : n.toNat = i := MemberKey.member.inj h
              refine ⟨names[n.toNat], List.getElem?_eq_getElem hlt, .inr ?_⟩
              rw [Int.toNat_of_nonneg (by omega)]
          · cases h
  · cases h

theorem MemberKey.of_unknown {names : List String} {name : String} (h : name ∉ names) :
    MemberKey.of names (.string name) = .unknown := by
  have hnone : names.findIdx? (· == name) = none := by
    rw [List.findIdx?_eq_none_iff]
    intro other hother
    exact beq_false_of_ne fun heq => h (heq ▸ hother)
  simp only [MemberKey.of, hnone]

/-! ### Members -/

section Members

variable {names : List String} {isOpen : Bool} {entries : List (Yaml × Yaml)}
  {found found' : List (Option Yaml)}

/-- A member that is found stays as it was found. -/
theorem takeMembers_keeps (h : takeMembers names isOpen found entries = some found') {i : Nat}
    {value : Yaml} (hi : found[i]? = some (some value)) : found'[i]? = some (some value) := by
  induction entries generalizing found with
  | nil => exact Option.some.inj h ▸ hi
  | cons entry r ih =>
      obtain ⟨key, v⟩ := entry
      unfold takeMembers at h
      split at h
      · next j _ =>
          split at h
          · next hj =>
              -- the entry goes to a place that is free, so to another one
              have hne : j ≠ i := by
                rintro rfl
                rw [hj] at hi
                cases hi
              exact ih h (by rw [List.getElem?_set_ne hne]; exact hi)
          · cases h
      · split at h
        · exact ih h hi
        · cases h
      · cases h

/-- Where no other members are allowed, every entry is one of the members. -/
theorem takeMembers_mem (h : takeMembers names false found entries = some found')
    {key value : Yaml} (hmem : (key, value) ∈ entries) :
    ∃ i, MemberKey.of names key = .member i ∧ found'[i]? = some (some value) := by
  induction entries generalizing found with
  | nil => cases hmem
  | cons entry r ih =>
      obtain ⟨k, v⟩ := entry
      unfold takeMembers at h
      split at h
      · next j hk =>
          split at h
          · next hj =>
              rcases List.mem_cons.mp hmem with heq | hr
              · obtain ⟨rfl, rfl⟩ := Prod.mk.inj heq
                have hlt : j < found.length := (List.getElem?_eq_some_iff.mp hj).1
                exact ⟨j, hk, takeMembers_keeps h (List.getElem?_set_self hlt)⟩
              · exact ih h hr
          · cases h
      · cases h
      · cases h

/-- Where other members are allowed, they do not matter. -/
theorem takeMembers_of_unknown {key value : Yaml} (hkey : MemberKey.of names key = .unknown)
    {front rest : List (Yaml × Yaml)} :
    takeMembers names true found (front ++ (key, value) :: rest) =
      takeMembers names true found (front ++ rest) := by
  induction front generalizing found with
  | nil => simp [takeMembers, hkey]
  | cons entry r ih =>
      obtain ⟨k, v⟩ := entry
      simp only [List.cons_append, takeMembers]
      split
      · split
        · exact ih
        · rfl
      · exact ih
      · rfl

/-- The members of a record that allows no others are all there is in it. -/
theorem record_of_members? {members : List Member} {value : Yaml}
    (h : members? (members.map (·.name)) false value = some found)
    (hfound : List.Forall₂ (fun (m : Member) v? => ∀ v ∈ v?, m.Allows v) members found) :
    Record members value := by
  have hallows : ∀ {i : Nat} {m v}, members[i]? = some m → found[i]? = some (some v) →
      m.Allows v := by
    intro i m v hm hv
    obtain ⟨hlt, rfl⟩ := List.getElem?_eq_some_iff.mp hm
    obtain ⟨hlt', hv⟩ := List.getElem?_eq_some_iff.mp hv
    exact hfound.get hlt hlt' v hv
  cases value with
  | mapping entries =>
      simp only [Record]
      intro key v hmem
      obtain ⟨i, hkey, hi⟩ := takeMembers_mem h hmem
      obtain ⟨name, hname, hspelled⟩ := MemberKey.eq_of_member hkey
      rw [List.getElem?_map, Option.map_eq_some_iff] at hname
      obtain ⟨m, hm, rfl⟩ := hname
      exact ⟨i, m, hm, hspelled, hallows hm hi⟩
  | sequence items =>
      simp only [Record]
      intro i v hi
      simp only [members?] at h
      split at h
      · next hlength =>
          obtain ⟨hlt, rfl⟩ := List.getElem?_eq_some_iff.mp hi
          have hm : i < members.length := by rw [List.length_map] at hlength; omega
          refine ⟨members[i], List.getElem?_eq_getElem hm,
            hallows (List.getElem?_eq_getElem hm) ?_⟩
          rw [← Option.some.inj h, List.getElem?_append_left (by simpa using hlt)]
          simp [hlt]
      · cases h
  | null => cases h
  | bool b => cases h
  | number n => cases h
  | string s => cases h
  | tagged tag v => cases h

end Members

/-! ### Readers

What the readers of members make sure of. -/

section Readers

variable {α : Type} {read : Yaml → Option α} {P : Yaml → Prop} {found : Option Yaml}

theorem of_withDefault {default a : α} (h : withDefault default read found = some a)
    (hread : ∀ v a, read v = some a → P v) : ∀ v ∈ found, P v := by
  rintro v rfl
  exact hread v a h

theorem of_optional {a : Option α} (h : optional read found = some a)
    (hread : ∀ v a, read v = some a → P v) : ∀ v ∈ found, Nullable P v := by
  rintro v rfl
  cases v with
  | null => exact .inl rfl
  | _ =>
      obtain ⟨b, hb, -⟩ := Option.map_eq_some_iff.mp h
      exact .inr (hread _ b hb)

/-- The items of a list are read one by one, each for itself. -/
theorem readItems_eq_some_iff {acc as : List α} {items : List Yaml} :
    readItems read acc items = some as ↔
      ∃ bs, List.Forall₂ (fun v a => read v = some a) items bs ∧ as = acc.reverse ++ bs := by
  induction items generalizing acc with
  | nil => simp [readItems, eq_comm]
  | cons v r ih =>
      rw [readItems]
      cases hv : read v with
      | none => simp [List.forall₂_cons_left_iff, hv]
      | some a => simp [List.forall₂_cons_left_iff, hv, ih]

theorem mem_of_readItems {acc as : List α} {items : List Yaml}
    (h : readItems read acc items = some as) : ∀ v ∈ items, ∃ a, read v = some a := by
  obtain ⟨bs, hread, -⟩ := readItems_eq_some_iff.mp h
  clear h
  intro v hv
  induction hread with
  | nil => cases hv
  | cons hfirst _ ih =>
      rcases List.mem_cons.mp hv with rfl | hv
      · exact ⟨_, hfirst⟩
      · exact ih hv

theorem each_of_listOf {value : Yaml} {as : List α} (h : listOf read value = some as)
    (hread : ∀ v a, read v = some a → P v) : Each P value := by
  cases value with
  | sequence items =>
      intro v hv
      obtain ⟨a, ha⟩ := mem_of_readItems h v hv
      exact hread v a ha
  | _ => cases h

theorem scalar_of_stringOf (v : Yaml) (s : String) (h : stringOf v = some s) : Scalar v := by
  cases v <;> trivial

theorem scalar_of_boolOf (v : Yaml) (b : Bool) (h : boolOf v = some b) : Scalar v := by
  cases v <;> trivial

theorem scalar_of_intOf (v : Yaml) (n : Int) (h : intOf v = some n) : Scalar v := by
  cases v <;> trivial

end Readers

/-! ### Records -/

theorem FieldOptions.ofYaml?_spelled (value : Yaml) (o : FieldOptions)
    (h : FieldOptions.ofYaml? value = some o) : Spelled value := by
  obtain ⟨found, hfound, h⟩ := Option.bind_eq_some_iff.mp h
  refine record_of_members? hfound ?_
  split at h
  · simp only [Option.bind_eq_bind, Option.bind_eq_some_iff] at h
    obtain ⟨_, hdelimiter, _, hindex, _, hcreate, -⟩ := h
    exact .cons (of_withDefault hdelimiter scalar_of_stringOf)
      (.cons (of_withDefault hindex scalar_of_intOf)
        (.cons (of_withDefault hcreate scalar_of_boolOf) .nil))
  · cases h

theorem Source.ofYaml?_spelled (value : Yaml) (s : Source)
    (h : Source.ofYaml? value = some s) : Spelled value := by
  obtain ⟨found, hfound, h⟩ := Option.bind_eq_some_iff.mp h
  refine record_of_members? hfound ?_
  split at h
  · simp only [Option.bind_eq_bind, Option.bind_eq_some_iff] at h
    obtain ⟨_, hgroup, _, hversion, _, hkind, _, hname, _, hspace, _, hpath, _, hoptions, -⟩ := h
    have text {default a : String} {v? : Option Yaml}
        (h : withDefault default stringOf v? = some a) : ∀ v ∈ v?, Scalar v :=
      of_withDefault h scalar_of_stringOf
    exact .cons (text hgroup) (.cons (text hversion) (.cons (text hkind) (.cons (text hname)
      (.cons (text hspace) (.cons (text hpath)
        (.cons (of_optional hoptions FieldOptions.ofYaml?_spelled) .nil))))))
  · cases h

/-- Patterns allow members that they do not know, so nothing is asked of them. -/
theorem Target.ofYaml?_spelled (value : Yaml) (t : Target)
    (h : Target.ofYaml? value = some t) : Spelled (fun _ => True) value := by
  obtain ⟨found, hfound, h⟩ := Option.bind_eq_some_iff.mp h
  refine record_of_members? hfound ?_
  split at h
  · simp only [Option.bind_eq_bind, Option.bind_eq_some_iff] at h
    obtain ⟨_, hselect, _, hreject, _, hpaths, _, hoptions, -⟩ := h
    exact .cons (of_optional hselect fun _ _ _ => trivial)
      (.cons (of_withDefault hreject fun _ _ hread => each_of_listOf hread fun _ _ _ => trivial)
        (.cons (of_withDefault hpaths fun _ _ hread => each_of_listOf hread scalar_of_stringOf)
          (.cons (of_optional hoptions FieldOptions.ofYaml?_spelled) .nil)))
  · cases h

theorem Rule.ofYaml?_spelled (value : Yaml) (r : Rule)
    (h : Rule.ofYaml? value = some r) : Spelled (fun _ => True) value := by
  obtain ⟨found, hfound, h⟩ := Option.bind_eq_some_iff.mp h
  refine record_of_members? hfound ?_
  split at h
  · simp only [Option.bind_eq_bind, Option.bind_eq_some_iff] at h
    obtain ⟨_, hsource, _, htargets, -⟩ := h
    exact .cons (of_optional hsource Source.ofYaml?_spelled)
      (.cons (of_optional htargets fun _ _ hread => each_of_listOf hread Target.ofYaml?_spelled)
        .nil)
  · cases h

theorem Pattern.ofYaml?_of_unknown {name : String} (h : name ∉ identityMembers) (value : Yaml)
    (front rest : List (Yaml × Yaml)) :
    Pattern.ofYaml? (.mapping (front ++ (.string name, value) :: rest)) =
      Pattern.ofYaml? (.mapping (front ++ rest)) := by
  unfold Pattern.ofYaml?
  simp only [members?, takeMembers_of_unknown (MemberKey.of_unknown h)]

/-- **Which keys a rule can have.** In a value that is read as a rule, all keys at every
level name members if those of its patterns do, and in any case where there is no
pattern. A key names a member by its name, or by its position if the key is an integer
(`Yaml.Record`). A pattern is read as if the strings among its keys that are the name of
no member were not there. -/
theorem Rule.read_members {value : Yaml} {r : Rule} (h : Rule.ofYaml? value = some r) :
    Rule.Spelled (fun _ => True) value ∧
      (Rule.Spelled Pattern.Spelled value ↔ ∀ p, Rule.HasPattern p value → Pattern.Spelled p) ∧
      ∀ name ∉ identityMembers, ∀ v front rest,
        Pattern.ofYaml? (.mapping (front ++ (.string name, v) :: rest)) =
          Pattern.ofYaml? (.mapping (front ++ rest)) := by
  have hspelled := Rule.ofYaml?_spelled value r h
  refine ⟨hspelled, ?_, fun _ => Pattern.ofYaml?_of_unknown⟩
  rw [Rule.spelled_iff]
  exact and_iff_right hspelled

namespace Sample

/-- A rule as it is written, with a target that selects by what `key` names. -/
def selecting (key : String) : Yaml :=
  .mapping
    [(.string "source", .mapping [(.string "kind", .string "ConfigMap")]),
      (.string "targets",
        .sequence [.mapping [(.string "select", .mapping [(.string key, .string "Deployment")])]])]

end Sample

/-- A rule with a misspelt key in its pattern is read. All its other keys name members, and the
pattern is read as the empty one. -/
theorem Rule.read_members_selecting :
    Rule.Spelled (fun _ => True) (Sample.selecting "knd") ∧
      Pattern.ofYaml? (.mapping [(.string "knd", .string "Deployment")]) =
        Pattern.ofYaml? (.mapping []) := by
  have hread : Rule.ofYaml? (Sample.selecting "knd") =
      some { source := some { pattern := .ofKind "ConfigMap" }
             targets := some [{ select := some {} }] } := rfl
  obtain ⟨hspelled, -, hunknown⟩ := Rule.read_members hread
  exact ⟨hspelled, hunknown "knd" (by decide) (.string "Deployment") [] []⟩

/-- A misspelt member of a pattern widens the rule: where the kind of the target was
meant, all documents are selected. -/
theorem Rule.read_misspelt :
    Rule.ofYaml? (Sample.selecting "knd") =
        some { source := some { pattern := .ofKind "ConfigMap" }
               targets := some [{ select := some {} }] } ∧
      ¬ Rule.Spelled Pattern.Spelled (Sample.selecting "knd") := by
  refine ⟨rfl, fun h => ?_⟩
  have hpattern : Rule.HasPattern (.mapping [(.string "knd", .string "Deployment")])
      (Sample.selecting "knd") :=
    ⟨_, .inl (List.mem_cons_of_mem _ List.mem_cons_self), _, List.mem_cons_self,
      .inl ⟨.inl List.mem_cons_self, nofun⟩⟩
  have hspelled := (Rule.spelled_iff.mp h).2 _ hpattern
  simp only [Pattern.Spelled, Record] at hspelled
  obtain ⟨i, m, hm, hkey | hkey, -⟩ := hspelled _ _ List.mem_cons_self
  · -- the key is none of the members of a pattern
    obtain ⟨name, hname, rfl⟩ := List.mem_map.mp (List.mem_of_getElem? hm)
    obtain rfl : "knd" = name := Yaml.string.inj hkey
    exact absurd hname (by decide)
  · cases hkey

end Graft
