import Mathlib.Data.List.Forall2
import Graft.Config
import Graft.Proofs.Rule.Members

/-!
# Graft.Proofs.Config

The rules of a configuration, entry by entry and in their order (`Config.rules_flatten`).

A mapping among the entries stands for a file or for a rule, never for both, and for neither if
it mixes their keys (`Config.Stands`). If one of them stands for nothing, the configuration is
refused as a whole and no file is read. Otherwise each entry gives its rules, a file those of the
list it holds or else the one rule (`Config.Gives`), and the first entry that gives none is named
in the error.

Keys are names of members or their positions, so that there is a second way to write an entry
(`Config.rules_of_position`).
-/

namespace Graft
namespace Config

/-! ### What an entry is -/

/-- A key that names a member of a record. Its position does so too. -/
def Names (i : Nat) (name : String) (key : Yaml) : Prop :=
  key = .string name ∨ key = .number (.int i)

/-- What a mapping among the entries stands for: a file, if its one key names a path, or a rule,
if its keys name members of a rule and it is read as one. -/
inductive Stands : List (Yaml × Yaml) → Entry → Prop where
  | file {key : Yaml} {name : String} (hkey : Names 0 "path" key) :
      Stands [(key, .string name)] (.file name)
  | rule {mapping : List (Yaml × Yaml)} {r : Rule}
      (hkeys : ∀ e ∈ mapping, Names 0 "source" e.1 ∨ Names 1 "targets" e.1)
      (htag : (Yaml.mapping mapping).hasTag = false)
      (hread : Rule.ofYaml? (.mapping mapping) = some r) : Stands mapping (.rule r)

theorem memberKey_of_names {name : String} {key : Yaml} (h : Names 0 name key) :
    MemberKey.of [name] key = .member 0 := by
  rcases h with rfl | rfl
  · simp [MemberKey.of]
  · rfl

theorem names_of_memberKey {name : String} {key : Yaml} {i : Nat}
    (h : MemberKey.of [name] key = .member i) : i = 0 ∧ Names 0 name key := by
  obtain ⟨other, hother, hkey⟩ := MemberKey.eq_of_member h
  cases i with
  | zero =>
      obtain rfl : name = other := by simpa using hother
      exact ⟨rfl, hkey⟩
  | succ i => simp at hother

/-- A record of one member has one entry if the member is there. -/
theorem takeMembers_single_iff {name : String} {v : Yaml} {mapping : List (Yaml × Yaml)} :
    takeMembers [name] false [none] mapping = some [some v] ↔
      ∃ key, Names 0 name key ∧ mapping = [(key, v)] := by
  constructor
  · intro h
    cases mapping with
    | nil => simp [takeMembers] at h
    | cons e r =>
        obtain ⟨key, w⟩ := e
        -- every entry is the member at position 0, which can be there only once
        obtain ⟨i, hkey, hfound⟩ := takeMembers_mem h List.mem_cons_self
        obtain ⟨rfl, hname⟩ := names_of_memberKey hkey
        obtain rfl : v = w := by simpa using hfound
        cases r with
        | nil => exact ⟨key, hname, rfl⟩
        | cons d r =>
            obtain ⟨i, hkey', -⟩ :=
              takeMembers_mem h (List.mem_cons_of_mem _ (List.mem_cons_self (a := d)))
            obtain ⟨rfl, -⟩ := names_of_memberKey hkey'
            simp [takeMembers, hkey, hkey'] at h
  · rintro ⟨key, hname, rfl⟩
    simp [takeMembers, memberKey_of_names hname]

/-- A file is not a rule as well. -/
theorem ofYaml?_of_names {key : Yaml} {name : String} (hkey : Names 0 "path" key) :
    Rule.ofYaml? (.mapping [(key, .string name)]) = none := by
  rcases hkey with rfl | rfl <;> rfl

/-- A rule has no other keys than those of its members. -/
theorem names_of_ofYaml? {mapping : List (Yaml × Yaml)} {r : Rule}
    (h : Rule.ofYaml? (.mapping mapping) = some r) :
    ∀ e ∈ mapping, Names 0 "source" e.1 ∨ Names 1 "targets" e.1 := by
  intro e he
  have hspelled := Rule.ofYaml?_spelled _ r h
  simp only [Rule.Spelled, Yaml.Record] at hspelled
  obtain ⟨i, m, hm, hkey, -⟩ := hspelled e.1 e.2 he
  obtain _ | _ | i := i
  · obtain rfl := Option.some.inj hm
    exact .inl hkey
  · obtain rfl := Option.some.inj hm
    exact .inr hkey
  · simp at hm

/-- An entry is read as what it stands for. -/
theorem stands_iff {mapping : List (Yaml × Yaml)} {e : Entry} :
    (if (Yaml.mapping mapping).hasTag then none else Entry.ofYaml? (.mapping mapping)) = some e ↔
      Stands mapping e := by
  constructor
  · intro h
    split at h
    · cases h
    · next htag =>
        rw [Bool.not_eq_true] at htag
        unfold Entry.ofYaml? at h
        split at h
        · next name hfile =>
            obtain rfl := Option.some.inj h
            obtain ⟨key, hkey, rfl⟩ := takeMembers_single_iff.mp hfile
            exact .file hkey
        · obtain ⟨r, hread, rfl⟩ := Option.map_eq_some_iff.mp h
          exact .rule (names_of_ofYaml? hread) htag hread
  · intro h
    cases h with
    | @file key name hkey =>
        have htag : (Yaml.mapping [(key, .string name)]).hasTag = false := by
          rcases hkey with rfl | rfl <;> rfl
        have hfile : members? ["path"] false (.mapping [(key, .string name)]) =
            some [some (.string name)] :=
          takeMembers_single_iff.mpr ⟨key, hkey, rfl⟩
        simp [htag, Entry.ofYaml?, hfile]
    | rule hkeys htag hread =>
        rw [htag, if_neg Bool.false_ne_true]
        unfold Entry.ofYaml?
        split
        · next name hfile =>
            obtain ⟨key, hkey, rfl⟩ := takeMembers_single_iff.mp hfile
            rw [ofYaml?_of_names hkey] at hread
            cases hread
        · rw [hread]
          rfl

theorem stands_unique {mapping : List (Yaml × Yaml)} {e d : Entry} (he : Stands mapping e)
    (hd : Stands mapping d) : e = d :=
  Option.some.inj ((stands_iff.mpr he).symm.trans (stands_iff.mpr hd))

/-- A path stands alone. -/
theorem length_of_path {mapping : List (Yaml × Yaml)} {e : Entry} (h : Stands mapping e)
    (hpath : .string "path" ∈ mapping.map (·.1)) : mapping.length = 1 := by
  cases h with
  | file hkey => rfl
  | rule hkeys htag hread =>
      obtain ⟨⟨key, v⟩, he, rfl⟩ := List.mem_map.mp hpath
      rcases hkeys _ he with (hkey | hkey) | (hkey | hkey)
      · exact absurd (Yaml.string.inj hkey) (by decide)
      · cases hkey
      · exact absurd (Yaml.string.inj hkey) (by decide)
      · cases hkey

theorem entriesOfValues?_eq_some_iff {mappings : List (List (Yaml × Yaml))}
    {entries : List Entry} :
    entriesOfValues? (mappings.map .mapping) = some entries ↔
      List.Forall₂ Stands mappings entries := by
  simp only [entriesOfValues?, readItems_eq_some_iff, List.forall₂_map_left_iff, stands_iff,
    List.reverse_nil, List.nil_append, exists_eq_right']

/-! ### What an entry gives -/

/-- The value that the text of a file is read as. -/
def plainValue? (text : String) : Option Yaml := (Yaml.document? text).bind (·.untagged?)

theorem plainValue?_of_document {text : String} {d : Yaml.Document}
    (h : Yaml.document? text = some d) : plainValue? text = d.untagged? := by
  rw [plainValue?, h, Option.bind_some]

/-- The rules that a value holds: the list of them that it is, or else the one rule. -/
inductive Holds : Yaml → List Rule → Prop where
  | list {items : List Yaml} {rules : List Rule}
      (hread : List.Forall₂ (fun v r => Rule.ofYaml? v = some r) items rules) :
      Holds (.sequence items) rules
  | one {v : Yaml} {r : Rule}
      (hlist : ∀ items rules, v = .sequence items →
        ¬ List.Forall₂ (fun v r => Rule.ofYaml? v = some r) items rules)
      (hread : Rule.ofYaml? v = some r) : Holds v [r]

/-- The rules that an entry gives, where files have these texts. -/
inductive Gives (files : String → Option String) (directory : String) :
    Entry → List Rule → Prop where
  | rule (r : Rule) : Gives files directory (.rule r) [r]
  | file {name text : String} {v : Yaml} {rules : List Rule}
      (htext : files (File.join directory name) = some text) (hvalue : plainValue? text = some v)
      (hrules : Holds v rules) : Gives files directory (.file name) rules

/-- The error that names the entry at a position and its file. -/
def failure (files : String → Option String) (position : Nat) (name : String) : ConfigError :=
  match files name with
  | none => .unreadableFile position name
  | some _ => .malformedFile position name

theorem listOf_eq_some_iff {v : Yaml} {rules : List Rule} :
    listOf Rule.ofYaml? v = some rules ↔ ∃ items, v = .sequence items ∧
      List.Forall₂ (fun v r => Rule.ofYaml? v = some r) items rules := by
  cases v <;> simp [listOf, readItems_eq_some_iff]

theorem listOfYaml?_eq_some_iff {v : Yaml} {rules : List Rule} :
    Rule.listOfYaml? v = some rules ↔ Holds v rules := by
  unfold Rule.listOfYaml?
  cases hlist : listOf Rule.ofYaml? v with
  | some found =>
      obtain ⟨items, rfl, hread⟩ := listOf_eq_some_iff.mp hlist
      constructor
      · intro h
        obtain rfl := Option.some.inj h
        exact .list hread
      · intro h
        cases h with
        | list hread' => rw [← hlist, listOf_eq_some_iff.mpr ⟨items, rfl, hread'⟩]
        | one hnone _ => exact absurd hread (hnone items found rfl)
  | none =>
      have hnone : ∀ items rules, v = .sequence items →
          ¬ List.Forall₂ (fun v r => Rule.ofYaml? v = some r) items rules := by
        intro items rules hv hread
        rw [listOf_eq_some_iff.mpr ⟨items, hv, hread⟩] at hlist
        cases hlist
      constructor
      · intro h
        obtain ⟨r, hread, rfl⟩ := Option.map_eq_some_iff.mp h
        exact .one hnone hread
      · intro h
        cases h with
        | list hread => exact absurd hread (hnone _ _ rfl)
        | one _ hread => simp [hread]

theorem listOfText?_eq_some_iff {text : String} {rules : List Rule} :
    Rule.listOfText? text = some rules ↔ ∃ v, plainValue? text = some v ∧ Holds v rules := by
  have hvalue : Rule.listOfText? text = (plainValue? text).bind Rule.listOfYaml? :=
    (Option.bind_assoc _ _ _).symm
  simp only [hvalue, Option.bind_eq_some_iff, listOfYaml?_eq_some_iff]

/-! ### Going through the entries -/

section Loop

variable {m : Type → Type} [Monad m] [LawfulMonad m] {read : String → m (Option String)}
  {files : String → Option String} {directory : String}

/-- An entry that gives rules is read as they are. -/
theorem rulesOfEntry_of_gives (hfiles : ∀ name, read name = pure (files name)) {e : Entry}
    {rules : List Rule} (h : Gives files directory e rules) (position : Nat) :
    rulesOfEntry read directory position e = pure (.ok rules) := by
  cases h with
  | rule r => rfl
  | @file name text v _ htext hvalue hholds =>
      have hrules : Rule.listOfText? text = some rules :=
        listOfText?_eq_some_iff.mpr ⟨v, hvalue, hholds⟩
      simp [rulesOfEntry, hfiles, htext, hrules]

/-- An entry that gives no rules is a file, and named in the error. -/
theorem rulesOfEntry_of_not_gives (hfiles : ∀ name, read name = pure (files name)) {e : Entry}
    (h : ∀ rules, ¬ Gives files directory e rules) (position : Nat) :
    ∃ name, e = .file name ∧ rulesOfEntry read directory position e =
      pure (.error (failure files position (File.join directory name))) := by
  cases e with
  | rule r => exact absurd (.rule r) (h [r])
  | file name =>
      refine ⟨name, rfl, ?_⟩
      cases htext : files (File.join directory name) with
      | none => simp [rulesOfEntry, hfiles, htext, failure]
      | some text =>
          have hrules : Rule.listOfText? text = none := by
            refine Option.eq_none_iff_forall_ne_some.mpr fun rules hrules => ?_
            obtain ⟨v, hvalue, hholds⟩ := listOfText?_eq_some_iff.mp hrules
            exact h rules (.file htext hvalue hholds)
          simp [rulesOfEntry, hfiles, htext, hrules, failure]

/-- The rules of the first entries are put together in their order. -/
theorem rulesOfEntries_append (hfiles : ∀ name, read name = pure (files name))
    {front : List Entry} {lists : List (List Rule)}
    (h : List.Forall₂ (Gives files directory) front lists) (position : Nat) (acc : List Rule)
    (rest : List Entry) :
    rulesOfEntries read directory position acc (front ++ rest) =
      rulesOfEntries read directory (position + front.length) (acc ++ lists.flatten) rest := by
  induction h generalizing position acc with
  | nil => simp
  | @cons e rules front lists hfirst _ ih =>
      rw [List.cons_append, rulesOfEntries, rulesOfEntry_of_gives hfiles hfirst]
      simp only [pure_bind]
      rw [ih, List.length_cons, List.flatten_cons, List.append_assoc]
      congr 1
      omega

/-- The rules of a configuration whose entries all give some. -/
theorem rules_of_gives (hfiles : ∀ name, read name = pure (files name)) {text : String}
    {entries : List Entry} (hentries : entries? text = some entries) {lists : List (List Rule)}
    (h : List.Forall₂ (Gives files directory) entries lists) :
    rules read directory text = pure (.ok lists.flatten) := by
  have hloop := rulesOfEntries_append hfiles h 0 [] []
  rw [List.append_nil, List.nil_append] at hloop
  unfold rules
  rw [hentries]
  exact hloop

/-- A configuration with an entry that gives no rules, behind some that do. -/
theorem rules_of_not_gives (hfiles : ∀ name, read name = pure (files name)) {text : String}
    {front back : List Entry} {e : Entry} (hentries : entries? text = some (front ++ e :: back))
    {lists : List (List Rule)} (hfront : List.Forall₂ (Gives files directory) front lists)
    (h : ∀ given, ¬ Gives files directory e given) :
    ∃ name, e = .file name ∧ rules read directory text =
      pure (.error (failure files front.length (File.join directory name))) := by
  obtain ⟨name, hname, hfails⟩ := rulesOfEntry_of_not_gives hfiles h front.length
  refine ⟨name, hname, ?_⟩
  unfold rules
  rw [hentries]
  simp only [rulesOfEntries_append hfiles hfront, Nat.zero_add, rulesOfEntries, hfails, pure_bind]

end Loop

/-- **The rules of a configuration** whose entries are mappings. If some mapping stands for no
entry, the configuration is refused, whatever reading a file does. Otherwise the rules are those
that the entries give, in their order; or, if some entry gives none, the error names the
position of the first of them and its file.

A mapping stands for one entry at most. None has a path and another key. -/
theorem rules_flatten {text : String} {mappings : List (List (Yaml × Yaml))}
    (hvalues : valuesOfText? text = some (mappings.map .mapping)) :
    ((¬ ∃ entries, List.Forall₂ Stands mappings entries) →
      ∀ (m : Type → Type) [Monad m] (read : String → m (Option String)) (directory : String),
        rules read directory text = pure (.error .malformed)) ∧
      (∀ entries, List.Forall₂ Stands mappings entries →
        ∀ (m : Type → Type) [Monad m] [LawfulMonad m] (read : String → m (Option String))
          (files : String → Option String) (directory : String),
          (∀ name, read name = pure (files name)) →
          (∀ lists, List.Forall₂ (Gives files directory) entries lists →
            rules read directory text = pure (.ok lists.flatten)) ∧
          ∀ front e back lists, entries = front ++ e :: back →
            List.Forall₂ (Gives files directory) front lists →
            (∀ given, ¬ Gives files directory e given) →
            ∃ name, e = .file name ∧ rules read directory text =
              pure (.error (failure files front.length (File.join directory name)))) ∧
      (∀ mapping e d, Stands mapping e → Stands mapping d → e = d) ∧
      ∀ mapping e, Stands mapping e → .string "path" ∈ mapping.map (·.1) →
        mapping.length = 1 := by
  have hentries : ∀ entries, entries? text = some entries ↔
      List.Forall₂ Stands mappings entries := by
    intro entries
    rw [entries?, hvalues, Option.bind_some, entriesOfValues?_eq_some_iff]
  refine ⟨?_, ?_, fun _ _ _ => stands_unique, fun _ _ => length_of_path⟩
  · intro hnone m _ read directory
    have hrefused : entries? text = none := by
      refine Option.eq_none_iff_forall_ne_some.mpr fun entries h => hnone ⟨entries, ?_⟩
      exact (hentries entries).mp h
    unfold rules
    rw [hrefused]
  · intro entries hstands m _ _ read files directory hfiles
    have hread : entries? text = some entries := (hentries entries).mpr hstands
    refine ⟨fun lists hgives => rules_of_gives hfiles hread hgives, ?_⟩
    rintro front e back lists rfl hfront hnone
    exact rules_of_not_gives hfiles hread hfront hnone

end Config

namespace Sample

/-- A configuration of a file, a rule in place and another file. -/
def configuration : String := "replacements:\n- path: a\n- targets: []\n- path: b\n"

/-- Its entries. -/
def entryMappings : List (List (Yaml × Yaml)) :=
  [[(.string "path", .string "a")], [(.string "targets", .sequence [])],
    [(.string "path", .string "b")]]

/-- A list of two rules in the file of the first entry, and in that of the last one a rule that
is given by the values of its members. -/
def ruleFile (name : String) : Option String :=
  if name = "./a" then some "- targets: []\n- []\n"
  else if name = "./b" then some "[null, []]\n"
  else none

end Sample

namespace Config

/-- The rules of a list in a file, of a mapping and of a rule by itself in another file, one
after the other. Without the other file the error names its position and where it was looked
for. -/
theorem rules_flatten_files :
    valuesOfText? Sample.configuration = some (Sample.entryMappings.map .mapping) ∧
      rules (m := Id) Sample.ruleFile "." Sample.configuration =
        pure (.ok [{ targets := some [] }, {}, { targets := some [] }, { targets := some [] }]) ∧
      rules (m := Id) (fun name => if name = "./b" then none else Sample.ruleFile name) "."
        Sample.configuration = pure (.error (.unreadableFile 2 "./b")) := by
  have hvalues : valuesOfText? Sample.configuration =
      some (Sample.entryMappings.map .mapping) := rfl
  have hfirst : plainValue? "- targets: []\n- []\n" =
      some (.sequence [.mapping [(.string "targets", .sequence [])], .sequence []]) :=
    plainValue?_of_document (d := ⟨some (.sequence none
      [.mapping none [(.scalar none .plain "targets", .sequence none [])], .sequence none []]),
        [], [], 9⟩) rfl
  have hlast : plainValue? "[null, []]\n" = some (.sequence [.null, .sequence []]) :=
    plainValue?_of_document (d := ⟨some (.sequence none
      [.scalar none .plain "null", .sequence none []]), [], [], 5⟩) rfl
  have hstands : List.Forall₂ Stands Sample.entryMappings
      [.file "a", .rule { targets := some [] }, .file "b"] :=
    .cons (.file (.inl rfl)) (.cons (.rule (by simp [Names]) rfl rfl)
      (.cons (.file (.inl rfl)) .nil))
  have hlist : Holds (.sequence [.mapping [(.string "targets", .sequence [])], .sequence []])
      [{ targets := some [] }, {}] :=
    .list (.cons rfl (.cons rfl .nil))
  have hone : Holds (.sequence [.null, .sequence []]) [{ targets := some [] }] := by
    refine .one ?_ rfl
    intro items rules hitems hread
    obtain rfl := Yaml.sequence.inj hitems
    -- null is no rule, so the sequence is no list of rules
    obtain _ | ⟨hnull, -⟩ := hread
    cases hnull
  obtain ⟨-, hrules, -⟩ := rules_flatten hvalues
  refine ⟨hvalues, ?_, ?_⟩
  · obtain ⟨hloaded, -⟩ := hrules _ hstands Id Sample.ruleFile Sample.ruleFile "." fun _ => rfl
    exact hloaded [_, _, _] (.cons (.file (by decide) hfirst hlist)
      (.cons (.rule _) (.cons (.file (by decide) hlast hone) .nil)))
  · let files (name : String) : Option String :=
      if name = "./b" then none else Sample.ruleFile name
    have hmissing : files (File.join "." "b") = none := by decide
    have hnone : ∀ given, ¬ Gives files "." (.file "b") given := by
      rintro given (_ | ⟨htext, -, -⟩)
      rw [hmissing] at htext
      cases htext
    obtain ⟨-, hfails⟩ := hrules _ hstands Id files files "." fun _ => rfl
    obtain ⟨name, hname, herror⟩ := hfails [_, _] (.file "b") [] [_, _] rfl
      (.cons (.file (by decide) hfirst hlist) (.cons (.rule _) .nil)) hnone
    obtain rfl := Entry.file.inj hname
    rw [failure, hmissing] at herror
    exact herror

/-- An entry with an integer for its key is a file, as if it had a path. -/
theorem rules_of_position :
    valuesOfText? "replacements:\n- 0: a\n" =
        some [.mapping [(.number (.int 0), .string "a")]] ∧
      rules (m := Id) (fun _ => some "targets: []\n") "." "replacements:\n- 0: a\n" =
        pure (.ok [{ targets := some [] }]) := by
  have hvalues : valuesOfText? "replacements:\n- 0: a\n" =
      some [.mapping [(.number (.int 0), .string "a")]] := rfl
  have hplain : plainValue? "targets: []\n" =
      some (.mapping [(.string "targets", .sequence [])]) :=
    plainValue?_of_document (d := ⟨some (.mapping none
      [(.scalar none .plain "targets", .sequence none [])]), [], [], 5⟩) rfl
  have hentries : entries? "replacements:\n- 0: a\n" = some [.file "a"] := by
    unfold entries?
    rw [hvalues]
    rfl
  have hholds : Holds (.mapping [(.string "targets", .sequence [])]) [{ targets := some [] }] := by
    refine .one ?_ rfl
    intro items rules hitems
    cases hitems
  have hgives : Gives (fun _ => some "targets: []\n") "." (.file "a")
      [{ targets := some [] }] := .file rfl hplain hholds
  exact ⟨hvalues, rules_of_gives (fun _ => rfl) hentries (.cons hgives .nil)⟩

end Config
end Graft
