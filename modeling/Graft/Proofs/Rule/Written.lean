import Graft.Proofs.Node.Convert
import Graft.Rule.Data

/-!
# Graft.Proofs.Rule.Written

Rules survive being written and read.

A record is written as the members that are there, each under its name
(`givenMembers`). Read again, each of them is found in the place of its name, wherever
it stands in the object (`members?_of_reordered`): plain data may keep the members of
an object in another order than they were written in (`Json.Reordered`). So a record
comes back if each reader reads what is written of its member, and if the member that is
left out is the one that the default stands for. What is not left out is a member that is
there and empty, so a pattern of wildcards and no pattern stay apart.
-/

namespace Graft

/-! ### Reordered values -/

namespace Json

/-- The same value with the members of its objects in any order, at every depth. -/
inductive Reordered : Json → Json → Prop where
  | null : Reordered .null .null
  | bool (b : Bool) : Reordered (.bool b) (.bool b)
  | number (n : Number) : Reordered (.number n) (.number n)
  | string (s : String) : Reordered (.string s) (.string s)
  | array {items items' : List Json} (hitems : List.Forall₂ Reordered items items') :
      Reordered (.array items) (.array items')
  | object {members members' reordered : Entries Json} (hkeys : members.keys = members'.keys)
      (hvalues : List.Forall₂ Reordered (members.map (·.2)) (members'.map (·.2)))
      (hperm : members'.Perm reordered) : Reordered (.object members) (.object reordered)

theorem Reordered.refl (j : Json) : Reordered j j := by
  induction j using Json.treeInduction with
  | null => exact .null
  | bool b => exact .bool b
  | number n => exact .number n
  | string s => exact .string s
  | array items ih => exact .array (List.forall₂_same.mpr ih)
  | object members ih =>
      refine .object rfl (List.forall₂_same.mpr fun j hj => ?_) (List.Perm.refl members)
      obtain ⟨e, he, rfl⟩ := List.mem_map.mp hj
      exact ih e he

end Json

namespace Yaml

theorem ofJsonItems_eq (acc : List Yaml) (items : List Json) :
    ofJsonItems acc items = acc.reverse ++ items.map ofJson := by
  induction items generalizing acc with
  | nil => simp [ofJsonItems]
  | cons j r ih => simp [ofJsonItems, ih]

theorem ofJsonMembers_eq (acc : List (Yaml × Yaml)) (members : Entries Json) :
    ofJsonMembers acc members =
      acc.reverse ++ members.map fun e => (.string e.1, ofJson e.2) := by
  induction members generalizing acc with
  | nil => simp [ofJsonMembers]
  | cons e r ih => simp [ofJsonMembers, ih]

theorem ofJson_array (items : List Json) :
    ofJson (.array items) = .sequence (items.map ofJson) := by
  simp [ofJson, ofJsonItems_eq]

theorem ofJson_object (members : Entries Json) :
    ofJson (.object members) = .mapping (members.map fun e => (.string e.1, ofJson e.2)) := by
  simp [ofJson, ofJsonMembers_eq]

end Yaml

/-! ### Records -/

section Records

variable {names : List String} {values : List (Option Json)}

/-- The members that are there, each under its name. -/
def givenMembers : List String → List (Option Json) → Entries Json
  | name :: names, value :: values =>
    value.toList.map (fun j => (name, j)) ++ givenMembers names values
  | _, _ => []

theorem keys_givenMembers (names : List String) (values : List (Option Json)) :
    (Entries.keys (givenMembers names values)).Sublist names := by
  induction names generalizing values with
  | nil => simp [givenMembers]
  | cons name names ih =>
      cases values with
      | nil => simp [givenMembers]
      | cons value values =>
          cases value with
          | none => exact (ih values).cons name
          | some j => exact (ih values).cons_cons name

/-- Each member has the value given for it. -/
theorem get?_givenMembers (hnames : names.Nodup) (hlength : values.length = names.length) :
    names.map (Entries.get? · (givenMembers names values)) = values := by
  induction names generalizing values with
  | nil => exact (List.length_eq_zero_iff.mp hlength).symm
  | cons name names ih =>
      cases values with
      | nil => cases hlength
      | cons value values =>
          obtain ⟨hname, hnames⟩ := List.nodup_cons.mp hnames
          have hrest : names.map (Entries.get? · (givenMembers (name :: names) (value :: values))) =
              names.map (Entries.get? · (givenMembers names values)) := by
            refine List.map_congr_left fun other hother => ?_
            have hne : name ≠ other := fun heq => hname (heq ▸ hother)
            cases value with
            | none => rfl
            | some j => exact Entries.get?_cons_of_ne hne j _
          have hfirst : Entries.get? name (givenMembers (name :: names) (value :: values)) =
              value := by
            cases value with
            | none =>
                refine Entries.get?_eq_none_iff.mpr fun hmem => hname ?_
                exact (keys_givenMembers names values).subset hmem
            | some j => exact Entries.get?_cons_self name j _
          rw [List.map_cons, hfirst, hrest, ih hnames (Nat.succ.inj hlength)]

theorem MemberKey.of_mem {name : String} (h : name ∈ names) :
    MemberKey.of names (.string name) = .member (names.idxOf name) := by
  have hindex : names.findIdx? (· == name) = some (names.idxOf name) :=
    List.findIdx?_eq_some_iff_findIdx_eq.mpr ⟨List.idxOf_lt_length_iff.mpr h, rfl⟩
  simp only [MemberKey.of, hindex]

/-- Entries that name different members go each to the place of its name. -/
theorem takeMembers_of_nodup {α : Type} (isOpen : Bool) (write : α → Yaml) (hnames : names.Nodup)
    {es : Entries α} (hkeys : (Entries.keys es).Nodup) (hsub : Entries.keys es ⊆ names)
    (found : String → Option Yaml) (hfree : ∀ k ∈ Entries.keys es, found k = none) :
    takeMembers names isOpen (names.map found) (es.map fun e => (.string e.1, write e.2)) =
      some (names.map fun name => ((Entries.get? name es).map write).or (found name)) := by
  induction es generalizing found with
  | nil => rfl
  | cons e r ih =>
      obtain ⟨k, v⟩ := e
      obtain ⟨hk, hkeys⟩ := List.nodup_cons.mp hkeys
      obtain ⟨hmem, hsub⟩ := List.cons_subset.mp hsub
      obtain ⟨hplace, hfree⟩ := List.forall_mem_cons.mp hfree
      have hindex : (names.map found)[names.idxOf k]? = some none := by
        rw [List.getElem?_map, List.getElem?_idxOf hmem, Option.map_some, hplace]
      have hset : (names.map found).set (names.idxOf k) (some (write v)) =
          names.map (Function.update found k (some (write v))) := by
        rw [hnames.map_update, if_pos hmem]
      have hothers : ∀ other ∈ Entries.keys r,
          Function.update found k (some (write v)) other = none := by
        intro other hother
        have hne : other ≠ k := fun heq => hk (heq ▸ hother)
        rw [Function.update_of_ne hne, hfree other hother]
      rw [List.map_cons, takeMembers, MemberKey.of_mem hmem]
      simp only [hindex, hset]
      rw [ih hkeys hsub _ hothers]
      refine congrArg some (List.map_congr_left fun name _ => ?_)
      by_cases hname : name = k
      · subst hname
        have hnone : Entries.get? name r = none := Entries.get?_eq_none_iff.mpr hk
        simp [hnone]
      · rw [Function.update_of_ne hname, Entries.get?_cons_of_ne (Ne.symm hname)]

/-- The members of a record are found by their names, in whatever order they stand. -/
theorem members?_of_reordered (hnames : names.Nodup) (hlength : values.length = names.length)
    (isOpen : Bool) {j : Json} (h : (Json.object (givenMembers names values)).Reordered j) :
    ∃ found, List.Forall₂ (Option.Rel Json.Reordered) values found ∧
      members? names isOpen (.ofJson j) = some (found.map (Option.map Yaml.ofJson)) := by
  obtain _ | _ | _ | _ | _ | @⟨_, members', reordered, hkeys, hvalues, hperm⟩ := h
  have hsublist : (Entries.keys members').Sublist names := hkeys ▸ keys_givenMembers names values
  have hnodup : (Entries.keys members').Nodup := hsublist.nodup hnames
  have hperm_keys := Entries.keys_perm hperm
  refine ⟨names.map (Entries.get? · reordered), ?_, ?_⟩
  · rw [← get?_givenMembers hnames hlength, List.forall₂_map_left_iff, List.forall₂_map_right_iff,
      List.forall₂_same]
    intro name _
    rw [← Entries.get?_perm hperm hnodup]
    exact Entries.rel_get? hkeys hvalues name
  · have htake := takeMembers_of_nodup isOpen .ofJson hnames
      (hperm_keys.nodup_iff.mp hnodup) (List.Subset.trans hperm_keys.symm.subset hsublist.subset)
      (fun _ => none) fun _ _ => rfl
    simp only [Option.or_none] at htake
    rw [Yaml.ofJson_object, members?, htake, List.map_map]
    rfl

end Records

/-! ### Members -/

/-- Reading gives back what was written, in whatever order members stand. -/
def Recovers {α : Type} (read : Yaml → Option α) (j : Json) (a : α) : Prop :=
  ∀ j', j.Reordered j' → read (.ofJson j') = some a

section Members

variable {α : Type} {read : Yaml → Option α} {write : α → Json} {found : Option Json}

theorem recovers_string (s : String) : Recovers stringOf (.string s) s := by
  rintro _ ⟨⟩
  rfl

theorem recovers_bool (b : Bool) : Recovers boolOf (.bool b) b := by
  rintro _ ⟨⟩
  rfl

theorem recovers_int {n : Int} (h : -(Width.half64 : Int) ≤ n ∧ n < Width.half64) :
    Recovers intOf (.number (.int n)) n := by
  rintro _ ⟨⟩
  exact if_pos h

theorem readItems_of_reordered {as : List α} {items : List Json}
    (hitems : List.Forall₂ (fun a j => (write a).Reordered j) as items)
    (h : ∀ a ∈ as, Recovers read (write a) a) (acc : List α) :
    readItems read acc (items.map .ofJson) = some (acc.reverse ++ as) := by
  induction hitems generalizing acc with
  | nil => simp [readItems]
  | cons hj _ ih =>
      obtain ⟨ha, hrest⟩ := List.forall_mem_cons.mp h
      simp [readItems, ha _ hj, ih hrest]

theorem recovers_list {as : List α} (h : ∀ a ∈ as, Recovers read (write a) a) :
    Recovers (listOf read) (.array (as.map write)) as := by
  intro j hj
  obtain _ | _ | _ | _ | hitems := hj
  rw [Yaml.ofJson_array]
  exact readItems_of_reordered (List.forall₂_map_left_iff.mp hitems) h []

/-- What is written of a member that is left out if it is its default. -/
theorem withDefault_unless {c : Prop} [Decidable c] {default a : α} {j : Json}
    (hread : Recovers read j a) (hdefault : c → a = default)
    (hfound : Option.Rel Json.Reordered (if c then none else some j) found) :
    withDefault default read (found.map .ofJson) = some a := by
  by_cases hc : c
  · rw [if_pos hc] at hfound
    obtain _ | _ := hfound
    exact congrArg some (hdefault hc).symm
  · rw [if_neg hc] at hfound
    obtain ⟨hj⟩ := hfound
    exact hread _ hj

theorem withDefault_given {default a : α} {j : Json} (hread : Recovers read j a)
    (hfound : Option.Rel Json.Reordered (some j) found) :
    withDefault default read (found.map .ofJson) = some a := by
  obtain ⟨hj⟩ := hfound
  exact hread _ hj

theorem optional_of_some (hnull : read .null = none) {v : Yaml} {a : α} (h : read v = some a) :
    optional read (some v) = some (some a) := by
  cases v with
  | null =>
      rw [hnull] at h
      cases h
  | _ => exact congrArg (Option.map some) h

/-- A member that is there is not null, as its reader refuses null. -/
theorem optional_of_rel (hnull : read .null = none) {value : Option α}
    (hread : ∀ a ∈ value, Recovers read (write a) a)
    (hfound : Option.Rel Json.Reordered (value.map write) found) :
    optional read (found.map .ofJson) = some value := by
  cases value with
  | none =>
      obtain _ | _ := hfound
      rfl
  | some a =>
      obtain ⟨hj⟩ := hfound
      exact optional_of_some hnull (hread a rfl _ hj)

/-- What is written of a text. -/
def textValue (s : String) : Option Json := if s = "" then none else some (.string s)

/-- What is written of a list. -/
def listValue (write : α → Json) (as : List α) : Option Json :=
  if as.isEmpty then none else some (.array (as.map write))

theorem textMember_eq (name s : String) :
    textMember name s = (textValue s).toList.map fun j => (name, j) := by
  by_cases h : s = "" <;> simp [textMember, textValue, h]

theorem listMember_eq (name : String) (write : α → Json) (as : List α) :
    listMember name write as = (listValue write as).toList.map fun j => (name, j) := by
  cases as <;> simp [listMember, listValue]

theorem optionalMember_eq (name : String) (write : α → Json) (value : Option α) :
    optionalMember name write value = (value.map write).toList.map fun j => (name, j) := by
  cases value <;> rfl

theorem withDefault_text {s : String} (hfound : Option.Rel Json.Reordered (textValue s) found) :
    withDefault "" stringOf (found.map .ofJson) = some s :=
  withDefault_unless (recovers_string s) id hfound

theorem withDefault_list {as : List α} (hread : ∀ a ∈ as, Recovers read (write a) a)
    (hfound : Option.Rel Json.Reordered (listValue write as) found) :
    withDefault [] (listOf read) (found.map .ofJson) = some as :=
  withDefault_unless (recovers_list hread) List.isEmpty_iff.mp hfound

end Members

/-! ### Rules -/

/-- Options whose position fits into 64 bits with a sign. -/
def FieldOptions.Fits (o : FieldOptions) : Prop :=
  -(Width.half64 : Int) ≤ o.index ∧ o.index < Width.half64

def Source.Fits (s : Source) : Prop := ∀ o ∈ s.options, o.Fits

def Target.Fits (t : Target) : Prop := ∀ o ∈ t.options, o.Fits

/-- Rules in which every position fits into 64 bits with a sign. -/
def Rule.Fits (r : Rule) : Prop :=
  (∀ s ∈ r.source, s.Fits) ∧ ∀ ts ∈ r.targets, ∀ t ∈ ts, t.Fits

def RuleSet.Fits (s : RuleSet) : Prop := ∀ r ∈ s.rules, r.Fits

/-- What is written of a pattern, in the order of its members. -/
def Pattern.values (p : Pattern) : List (Option Json) :=
  [textValue p.group, textValue p.version, textValue p.kind, textValue p.name, textValue p.space]

theorem Pattern.recovers (p : Pattern) : Recovers ofYaml? p.toJson p := by
  intro j hj
  have hmembers : p.members = givenMembers identityMembers p.values := by
    simp [members, values, identityMembers, givenMembers, textMember_eq]
  rw [toJson, hmembers] at hj
  obtain ⟨found, hrel, hfound⟩ := members?_of_reordered (by decide) rfl true hj
  obtain _ | ⟨hgroup, _ | ⟨hversion, _ | ⟨hkind, _ | ⟨hname, _ | ⟨hspace, _ | _⟩⟩⟩⟩⟩ := hrel
  simp only [ofYaml?, hfound, List.map_cons, List.map_nil, Option.bind_eq_bind, Option.bind_some,
    withDefault_text hgroup, withDefault_text hversion, withDefault_text hkind,
    withDefault_text hname, withDefault_text hspace]
  rfl

/-- All members of an identity are written, and all are required. -/
theorem Identity.recovers (id : Identity) : Recovers ofYaml? id.toJson id := by
  intro j hj
  have hmembers : id.toJson = .object (givenMembers identityMembers
      [some (.string id.group), some (.string id.version), some (.string id.kind),
        some (.string id.name), some (.string id.space)]) := rfl
  rw [hmembers] at hj
  obtain ⟨found, hrel, hfound⟩ := members?_of_reordered (by decide) rfl true hj
  obtain _ | ⟨⟨hgroup⟩, _ | ⟨⟨hversion⟩, _ | ⟨⟨hkind⟩, _ | ⟨⟨hname⟩, _ | ⟨⟨hspace⟩, _ | _⟩⟩⟩⟩⟩ :=
    hrel
  simp only [ofYaml?, hfound, List.map_cons, List.map_nil, Option.map_some, Option.bind_eq_bind,
    Option.bind_some, recovers_string _ _ hgroup, recovers_string _ _ hversion,
    recovers_string _ _ hkind, recovers_string _ _ hname, recovers_string _ _ hspace]
  rfl

theorem FieldOptions.recovers {o : FieldOptions} (h : o.Fits) : Recovers ofYaml? o.toJson o := by
  intro j hj
  have hmembers : o.toJson = .object (givenMembers ["delimiter", "index", "create"]
      [textValue o.delimiter, some (.number (.int o.index)), some (.bool o.create)]) := by
    simp [toJson, givenMembers, textMember_eq]
  rw [hmembers] at hj
  obtain ⟨found, hrel, hfound⟩ := members?_of_reordered (by decide) rfl false hj
  obtain _ | ⟨hdelimiter, _ | ⟨hindex, _ | ⟨hcreate, _ | _⟩⟩⟩ := hrel
  simp only [ofYaml?, hfound, List.map_cons, List.map_nil, Option.bind_eq_bind, Option.bind_some,
    withDefault_text hdelimiter, withDefault_given (recovers_int h) hindex,
    withDefault_given (recovers_bool o.create) hcreate]
  rfl

theorem recovers_options {options : Option FieldOptions} (h : ∀ o ∈ options, o.Fits)
    {found : Option Json}
    (hfound : Option.Rel Json.Reordered (options.map FieldOptions.toJson) found) :
    optional FieldOptions.ofYaml? (found.map .ofJson) = some options :=
  optional_of_rel rfl (fun o ho => FieldOptions.recovers (h o ho)) hfound

theorem Source.recovers {s : Source} (h : s.Fits) : Recovers ofYaml? s.toJson s := by
  intro j hj
  have hmembers : s.toJson = .object (givenMembers sourceMembers (s.pattern.values ++
      [textValue s.fieldPath, s.options.map FieldOptions.toJson])) := by
    simp [toJson, Pattern.members, Pattern.values, sourceMembers, identityMembers, givenMembers,
      textMember_eq, optionalMember_eq]
  rw [hmembers] at hj
  obtain ⟨found, hrel, hfound⟩ := members?_of_reordered (by decide) rfl false hj
  obtain _ | ⟨hgroup, _ | ⟨hversion, _ | ⟨hkind, _ | ⟨hname, _ | ⟨hspace, _ | ⟨hpath,
    _ | ⟨hoptions, _ | _⟩⟩⟩⟩⟩⟩⟩ := hrel
  simp only [ofYaml?, hfound, List.map_cons, List.map_nil, Option.bind_eq_bind, Option.bind_some,
    withDefault_text hgroup, withDefault_text hversion, withDefault_text hkind,
    withDefault_text hname, withDefault_text hspace, withDefault_text hpath,
    recovers_options h hoptions]
  rfl

theorem Target.recovers {t : Target} (h : t.Fits) : Recovers ofYaml? t.toJson t := by
  intro j hj
  have hmembers : t.toJson = .object (givenMembers targetMembers
      [t.select.map Pattern.toJson, listValue Pattern.toJson t.reject,
        listValue Json.string t.fieldPaths, t.options.map FieldOptions.toJson]) := by
    simp [toJson, targetMembers, givenMembers, listMember_eq, optionalMember_eq]
  rw [hmembers] at hj
  obtain ⟨found, hrel, hfound⟩ := members?_of_reordered (by decide) rfl false hj
  obtain _ | ⟨hselect, _ | ⟨hreject, _ | ⟨hpaths, _ | ⟨hoptions, _ | _⟩⟩⟩⟩ := hrel
  simp only [ofYaml?, hfound, List.map_cons, List.map_nil, Option.bind_eq_bind, Option.bind_some,
    optional_of_rel rfl (fun p _ => p.recovers) hselect,
    withDefault_list (fun p _ => p.recovers) hreject,
    withDefault_list (fun s _ => recovers_string s) hpaths, recovers_options h hoptions]
  rfl

theorem Rule.recovers {r : Rule} (h : r.Fits) : Recovers ofYaml? r.toJson r := by
  intro j hj
  obtain ⟨hsources, htargets⟩ := h
  have hmembers : r.toJson = .object (givenMembers ruleMembers
      [r.source.map Source.toJson, r.targets.map fun ts => .array (ts.map Target.toJson)]) := by
    simp [toJson, ruleMembers, givenMembers, optionalMember_eq]
  rw [hmembers] at hj
  obtain ⟨found, hrel, hfound⟩ := members?_of_reordered (by decide) rfl false hj
  obtain _ | ⟨hsource, _ | ⟨htarget, _ | _⟩⟩ := hrel
  have htargetList : ∀ ts ∈ r.targets,
      Recovers (listOf Target.ofYaml?) (.array (ts.map Target.toJson)) ts :=
    fun ts hts => recovers_list fun t ht => Target.recovers (htargets ts hts t ht)
  simp only [ofYaml?, hfound, List.map_cons, List.map_nil, Option.bind_eq_bind, Option.bind_some,
    optional_of_rel rfl (fun s hs => Source.recovers (hsources s hs)) hsource,
    optional_of_rel rfl htargetList htarget]
  rfl

theorem RuleSet.recovers {s : RuleSet} (h : s.Fits) : Recovers ofYaml? s.toJson s := by
  intro j hj
  have hmembers : s.toJson =
      .object (givenMembers ["replacements"] [listValue Rule.toJson s.rules]) := by
    simp [toJson, givenMembers, listMember_eq]
  rw [hmembers] at hj
  obtain ⟨found, hrel, hfound⟩ := members?_of_reordered (by decide) rfl true hj
  obtain _ | ⟨hrules, _ | _⟩ := hrel
  simp only [ofYaml?, hfound, List.map_cons, List.map_nil, Option.bind_eq_bind, Option.bind_some,
    withDefault_list (fun r hr => Rule.recovers (h r hr)) hrules]
  rfl

/-- **Rules survive being written and read.** Patterns, identities, options, sources,
targets, rules and sets of rules are read from what is written of them, with every member
as it was: one that is absent, one that is there and empty, and one that is its default.
This holds in whatever order the members stand that were written, so also in the order in
which they were written. Positions are those of 64 bits with a sign. -/
theorem RuleSet.read_written :
    (∀ j : Json, j.Reordered j) ∧
      (∀ p : Pattern, Recovers Pattern.ofYaml? p.toJson p) ∧
      (∀ id : Identity, Recovers Identity.ofYaml? id.toJson id) ∧
      (∀ o : FieldOptions, o.Fits → Recovers FieldOptions.ofYaml? o.toJson o) ∧
      (∀ s : Source, s.Fits → Recovers Source.ofYaml? s.toJson s) ∧
      (∀ t : Target, t.Fits → Recovers Target.ofYaml? t.toJson t) ∧
      (∀ r : Rule, r.Fits → Recovers Rule.ofYaml? r.toJson r) ∧
      ∀ s : RuleSet, s.Fits → Recovers RuleSet.ofYaml? s.toJson s :=
  ⟨.refl, Pattern.recovers, Identity.recovers, fun _ => FieldOptions.recovers,
    fun _ => Source.recovers, fun _ => Target.recovers, fun _ => Rule.recovers,
    fun _ => RuleSet.recovers⟩

namespace Sample

/-- Rules with members that are absent and members that are there and empty. -/
def sparse : RuleSet :=
  { rules :=
      [{ source := some { options := some { delimiter := ":", index := -1 } }
         targets := some [{ select := some {} }, { fieldPaths := [""] }] },
        { targets := some [] }, {}] }

end Sample

/-- Rules that leave out most of their members come back, and so do options whose members
stand in another order than they were written in. -/
theorem RuleSet.read_written_sparse :
    RuleSet.ofYaml? (.ofJson Sample.sparse.toJson) = some Sample.sparse ∧
      FieldOptions.ofYaml? (.ofJson (.object [("create", .bool false), ("delimiter", .string ":"),
        ("index", .number (.int (-1)))])) = some (.delimited ":" (-1)) := by
  obtain ⟨hrefl, -, -, hoptions, -, -, -, hset⟩ := RuleSet.read_written
  have hfits : Sample.sparse.Fits := by
    simp [Fits, Rule.Fits, Source.Fits, Target.Fits, FieldOptions.Fits, Sample.sparse,
      Width.half64]
  have hoptionsFit : (FieldOptions.delimited ":" (-1)).Fits := by
    simp [FieldOptions.Fits, FieldOptions.delimited, Width.half64]
  refine ⟨hset Sample.sparse hfits _ (hrefl _), hoptions _ hoptionsFit _ ?_⟩
  -- written in the order of the members, read in the order of their names
  have hperm : ([("delimiter", .string ":"), ("index", .number (.int (-1)))] ++
      [("create", .bool false)] : Entries Json).Perm _ := List.perm_append_comm
  exact .object rfl (List.forall₂_same.mpr fun j _ => hrefl j) hperm

end Graft
