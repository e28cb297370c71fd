import Graft.Path

/-!
# Graft.Proofs.Path.Grammar

The texts that are paths, and the segments they are read as (`Path.parse_grammar`).

Reading is a scan with a flag for an open bracket and the text of the open segment.
What this text can be is said by `Path.Open`, and everything about the scan follows
from one lemma about one character (`parseFromWith_cons`): it ends the scan with a
fault, or is added to the open segment, or is the dot behind one. A segment that ends
is either a name or a matcher with both brackets. Hence what was read is valid and
gives the text again, and no segment ends in an open bracket.

The scan is taken with any reader for the texts of the segments
(`Path.parseFromWith`), so that what it asks this reader can be stated.
-/

namespace Graft

/-! ### One segment -/

namespace Segment

theorem toList_text_matcher (key value : String) :
    (Segment.matcher key value).text.toList =
      '[' :: ((key.toList ++ '=' :: value.toList) ++ [']']) := by
  simp [text]

/-- A bracketed text is read as a matcher from what is between the brackets. -/
theorem parse_bracketed (inner : List Char) :
    Segment.parse ('[' :: (inner ++ [']'])) = parseMatcher inner := by
  simp [Segment.parse]

theorem parse_name {c : Char} {cs : List Char} (hc : c ≠ '[') :
    Segment.parse (c :: cs) = .ok (.field (String.ofList (c :: cs))) := by
  unfold Segment.parse
  split
  · next heq => cases heq
  · next heq => exact absurd (List.cons.inj heq).1 hc
  · rfl

theorem parseMatcher_of_split {key value : List Char} (hkey : key ≠ [])
    (heq : ∀ c ∈ key, c ≠ '=') :
    parseMatcher (key ++ '=' :: value) =
      .ok (.matcher (String.ofList key) (String.ofList value)) := by
  have hpos : ∀ c ∈ key, decide (c ≠ '=') = true := by
    intro c hc
    simpa using heq c hc
  unfold parseMatcher
  rw [List.takeWhile_append_of_pos hpos, List.dropWhile_append_of_pos hpos]
  simp [hkey]

/-- What is read as a matcher has an equals sign, with a key in front of it. -/
theorem split_of_parseMatcher {inner : List Char} {s : Segment} (h : parseMatcher inner = .ok s) :
    ∃ key value, inner = key ++ '=' :: value ∧ key ≠ [] ∧ (∀ c ∈ key, c ≠ '=') ∧
      s = .matcher (String.ofList key) (String.ofList value) := by
  have hsplit : inner.takeWhile (· ≠ '=') ++ inner.dropWhile (· ≠ '=') = inner :=
    List.takeWhile_append_dropWhile
  have hfree : ∀ c ∈ inner.takeWhile (· ≠ '='), c ≠ '=' := by
    intro c hc
    simpa using List.all_eq_true.mp List.all_takeWhile c hc
  unfold parseMatcher at h
  simp only at h
  split at h
  · next value hvalue =>
      rw [hvalue] at hsplit
      split at h
      · cases h
      · next hne =>
          refine ⟨_, value, hsplit.symm, ?_, hfree, (Except.ok.inj h).symm⟩
          simpa using hne
  · cases h

theorem parseMatcher_ne_unterminated (inner : List Char) :
    parseMatcher inner ≠ .error .unterminatedBracket := by
  unfold parseMatcher
  simp only
  split
  · split <;> simp
  · simp

/-- The text of a valid segment is read as this segment. -/
theorem parse_text {s : Segment} (hs : s.Valid) : Segment.parse s.text.toList = .ok s := by
  cases s with
  | field name =>
      obtain ⟨hne, hfree⟩ := hs
      cases hcs : name.toList with
      | nil => exact absurd (String.toList_eq_nil_iff.mp hcs) hne
      | cons c cs =>
          have hc : c ≠ '[' := (hfree c (by rw [hcs]; exact List.mem_cons_self)).2.1
          rw [text, hcs, parse_name hc, ← hcs, String.ofList_toList]
  | matcher key value =>
      obtain ⟨hne, hkey, -⟩ := hs
      have hkey' : ∀ c ∈ key.toList, c ≠ '=' := fun c hc => (hkey c hc).1
      have hne' : key.toList ≠ [] := fun hnil => hne (String.toList_eq_nil_iff.mp hnil)
      rw [toList_text_matcher, parse_bracketed, parseMatcher_of_split hne' hkey',
        String.ofList_toList, String.ofList_toList]

end Segment

namespace Path

/-! ### The open segment -/

/-- What the text of the open segment can be, by whether a bracket is open. -/
inductive Open : Bool → List Char → Prop where
  | name {cs : List Char} (h : ∀ c ∈ cs, c ≠ '.' ∧ c ≠ '[' ∧ c ≠ ']') : Open false cs
  | bracket {inner : List Char} (h : ∀ c ∈ inner, c ≠ '[' ∧ c ≠ ']') : Open true ('[' :: inner)
  | closed {inner : List Char} (h : ∀ c ∈ inner, c ≠ '[' ∧ c ≠ ']') :
      Open false ('[' :: (inner ++ [']']))

theorem open_nil : Open false ([] : List Char).reverse := .name (by simp)

/-- A segment that is read is valid, and gives the text it was read from. -/
theorem Open.of_parse {cs : List Char} (hopen : Open false cs) {s : Segment}
    (h : Segment.parse cs = .ok s) : s.Valid ∧ s.text.toList = cs := by
  cases hopen with
  | name hfree =>
      cases cs with
      | nil => cases h
      | cons c r =>
          have hc : c ≠ '[' := (hfree c List.mem_cons_self).2.1
          rw [Segment.parse_name hc] at h
          obtain rfl := Except.ok.inj h
          refine ⟨⟨?_, ?_⟩, by rw [Segment.text, String.toList_ofList]⟩
          · rw [Ne, ← String.toList_eq_nil_iff, String.toList_ofList]
            exact List.cons_ne_nil c r
          · rw [String.toList_ofList]
            exact hfree
  | @closed inner hfree =>
      rw [Segment.parse_bracketed] at h
      obtain ⟨key, value, rfl, hne, heq, rfl⟩ := Segment.split_of_parseMatcher h
      have hkey : ∀ c ∈ key, c ≠ '[' ∧ c ≠ ']' := fun c hc => hfree c (by simp [hc])
      have hvalue : ∀ c ∈ value, c ≠ '[' ∧ c ≠ ']' := fun c hc => hfree c (by simp [hc])
      refine ⟨⟨?_, ?_, ?_⟩, ?_⟩
      · rw [Ne, ← String.toList_eq_nil_iff, String.toList_ofList]
        exact hne
      · rw [String.toList_ofList]
        exact fun c hc => ⟨heq c hc, hkey c hc⟩
      · rw [String.toList_ofList]
        exact hvalue
      · rw [Segment.toList_text_matcher, String.toList_ofList, String.toList_ofList]

/-- A segment that ends has no open bracket. -/
theorem Open.parse_ne_unterminated {cs : List Char} (hopen : Open false cs) :
    Segment.parse cs ≠ .error .unterminatedBracket := by
  cases hopen with
  | name hfree =>
      cases cs with
      | nil => simp [Segment.parse]
      | cons c r =>
          have hc : c ≠ '[' := (hfree c List.mem_cons_self).2.1
          rw [Segment.parse_name hc]
          simp
  | @closed inner hfree =>
      rw [Segment.parse_bracketed]
      exact Segment.parseMatcher_ne_unterminated inner

/-! ### The scan -/

/-- Reads on in a path as `parseFrom` does, with any reader for the texts of
segments. -/
def parseFromWith (read : List Char → Except PathFault Segment) (done : List Segment)
    (current : List Char) (inBracket : Bool) : List Char → Except PathFault (List Segment)
  | [] =>
    if inBracket then .error .unterminatedBracket
    else
      match read current.reverse with
      | .ok s => .ok (s :: done).reverse
      | .error fault => .error fault
  | c :: r =>
    if c = '[' then
      if inBracket then .error .nestedBracket
      else if current.isEmpty then parseFromWith read done ['['] true r
      else .error .bracketInsideName
    else if c = ']' then
      if inBracket then parseFromWith read done (']' :: current) false r
      else .error .unmatchedBracket
    else if c = '.' ∧ inBracket = false then
      match read current.reverse with
      | .ok s => parseFromWith read (s :: done) [] false r
      | .error fault => .error fault
    else if inBracket = false ∧ current.head? = some ']' then .error .afterBracket
    else parseFromWith read done (c :: current) inBracket r

theorem parseFromWith_parse (done : List Segment) (current : List Char) (inBracket : Bool)
    (cs : List Char) :
    parseFromWith Segment.parse done current inBracket cs =
      parseFrom done current inBracket cs := by
  induction cs generalizing done current inBracket with
  | nil => rfl
  | cons c r ih =>
      cases hparse : Segment.parse current.reverse with
      | ok s => simp only [parseFromWith, parseFrom, ih, hparse]
      | error fault => simp only [parseFromWith, parseFrom, ih, hparse]

/-- One character ends the scan with a fault, is added to the open segment, or is the
dot behind it. -/
theorem parseFromWith_cons {current : List Char} {inBracket : Bool}
    (hopen : Open inBracket current.reverse) (c : Char) (r : List Char) :
    (∃ fault, ∀ read done, parseFromWith read done current inBracket (c :: r) = .error fault) ∨
      (∃ inBracket', Open inBracket' (current.reverse ++ [c]) ∧ ∀ read done,
        parseFromWith read done current inBracket (c :: r) =
          parseFromWith read done (c :: current) inBracket' r) ∨
      (c = '.' ∧ inBracket = false ∧ ∀ read done,
        parseFromWith read done current inBracket (c :: r) =
          match read current.reverse with
          | .ok s => parseFromWith read (s :: done) [] false r
          | .error fault => .error fault) := by
  by_cases hopening : c = '['
  · subst hopening
    cases inBracket with
    | true => exact .inl ⟨.nestedBracket, fun read done => by simp [parseFromWith]⟩
    | false =>
        cases current with
        | nil =>
            refine .inr (.inl ⟨true, .bracket (by simp), ?_⟩)
            intro read done
            simp [parseFromWith]
        | cons d current =>
            exact .inl ⟨.bracketInsideName, fun read done => by simp [parseFromWith]⟩
  by_cases hclosing : c = ']'
  · subst hclosing
    cases inBracket with
    | false => exact .inl ⟨.unmatchedBracket, fun read done => by simp [parseFromWith]⟩
    | true =>
        refine .inr (.inl ⟨false, ?_, fun read done => by simp [parseFromWith]⟩)
        generalize current.reverse = cs at hopen
        cases hopen with
        | bracket hfree => exact .closed hfree
  by_cases hdot : c = '.' ∧ inBracket = false
  · refine .inr (.inr ⟨hdot.1, hdot.2, ?_⟩)
    intro read done
    simp only [parseFromWith, if_neg hopening, if_neg hclosing, if_pos hdot]
  by_cases hafter : inBracket = false ∧ current.head? = some ']'
  · refine .inl ⟨.afterBracket, ?_⟩
    intro read done
    simp only [parseFromWith, if_neg hopening, if_neg hclosing, if_neg hdot, if_pos hafter]
  -- an ordinary character goes into the name or the bracket that is open
  refine .inr (.inl ⟨inBracket, ?_, ?_⟩)
  · generalize hcs : current.reverse = cs at hopen
    cases hopen with
    | name hfree =>
        refine .name fun d hd => ?_
        rcases List.mem_append.mp hd with hd | hd
        · exact hfree d hd
        · rw [List.mem_singleton.mp hd]
          exact ⟨fun hc => hdot ⟨hc, rfl⟩, hopening, hclosing⟩
    | @bracket inner hfree =>
        rw [List.cons_append]
        refine .bracket fun d hd => ?_
        rcases List.mem_append.mp hd with hd | hd
        · exact hfree d hd
        · rw [List.mem_singleton.mp hd]
          exact ⟨hopening, hclosing⟩
    | @closed inner hfree =>
        -- behind a closed bracket only a dot may follow
        have hhead : current.head? = some ']' := by
          rw [← List.reverse_reverse current, hcs]
          simp
        exact absurd ⟨rfl, hhead⟩ hafter
  · intro read done
    simp only [parseFromWith, if_neg hopening, if_neg hclosing, if_neg hdot, if_neg hafter]

/-! ### Reading is sound -/

/-- The characters of some segments with dots between them. -/
def chars (segments : List Segment) : List Char :=
  ['.'].intercalate (segments.map fun s => s.text.toList)

theorem chars_cons (s : Segment) {rest : List Segment} (hrest : rest ≠ []) :
    chars (s :: rest) = s.text.toList ++ '.' :: chars rest := by
  obtain ⟨t, r, rfl⟩ := List.exists_cons_of_ne_nil hrest
  simp [chars, List.intercalate_cons_cons]

/-- What is read from an open segment on are valid segments, and these are written as
the open segment with the rest behind it. -/
theorem sound_of_parseFrom {current : List Char} {inBracket : Bool}
    (hopen : Open inBracket current.reverse) {done : List Segment} {cs : List Char}
    {segments : List Segment} (h : parseFrom done current inBracket cs = .ok segments) :
    ∃ rest, segments = done.reverse ++ rest ∧ rest ≠ [] ∧ (∀ s ∈ rest, s.Valid) ∧
      chars rest = current.reverse ++ cs := by
  induction cs generalizing done current inBracket with
  | nil =>
      rw [parseFrom] at h
      cases inBracket with
      | true => cases h
      | false =>
          cases hparse : Segment.parse current.reverse with
          | error fault => simp [hparse] at h
          | ok s =>
              obtain ⟨hvalid, htext⟩ := hopen.of_parse hparse
              refine ⟨[s], ?_, by simp, by simpa using hvalid, ?_⟩
              · simpa [hparse] using h.symm
              · simpa [chars] using htext
  | cons c r ih =>
      rw [← parseFromWith_parse] at h
      rcases parseFromWith_cons hopen c r with ⟨fault, hfault⟩ | ⟨inBracket', hopen', hstep⟩ |
        ⟨rfl, rfl, hstep⟩
      · rw [hfault] at h
        cases h
      · rw [hstep, parseFromWith_parse] at h
        have hpush : Open inBracket' (c :: current).reverse := by simpa using hopen'
        obtain ⟨rest, hsegments, hne, hvalid, hchars⟩ := ih hpush h
        exact ⟨rest, hsegments, hne, hvalid, by simpa using hchars⟩
      · rw [hstep] at h
        cases hparse : Segment.parse current.reverse with
        | error fault => simp [hparse] at h
        | ok s =>
            simp only [hparse, parseFromWith_parse] at h
            obtain ⟨hs, htext⟩ := hopen.of_parse hparse
            obtain ⟨rest, rfl, hne, hvalid, hchars⟩ := ih open_nil h
            refine ⟨s :: rest, by simp, by simp, by simpa using ⟨hs, hvalid⟩, ?_⟩
            rw [chars_cons s hne, htext, hchars]
            rfl

/-! ### Reading is complete -/

theorem parseFrom_name {cs : List Char} (hfree : ∀ c ∈ cs, c ≠ '.' ∧ c ≠ '[' ∧ c ≠ ']')
    (done : List Segment) (current : List Char) (hcurrent : current.head? ≠ some ']')
    (rest : List Char) :
    parseFrom done current false (cs ++ rest) =
      parseFrom done (cs.reverse ++ current) false rest := by
  induction cs generalizing current with
  | nil => rfl
  | cons c r ih =>
      obtain ⟨hdot, hopening, hclosing⟩ := hfree c List.mem_cons_self
      have hr := fun d hd => hfree d (List.mem_cons_of_mem c hd)
      rw [List.cons_append, parseFrom, if_neg hopening, if_neg hclosing, if_neg fun h => hdot h.1,
        if_neg fun h => hcurrent h.2, ih hr (c :: current) (by simpa using hclosing)]
      simp

theorem parseFrom_bracket {inner : List Char} (hfree : ∀ c ∈ inner, c ≠ '[' ∧ c ≠ ']')
    (done : List Segment) (current rest : List Char) :
    parseFrom done current true (inner ++ rest) =
      parseFrom done (inner.reverse ++ current) true rest := by
  induction inner generalizing current with
  | nil => rfl
  | cons c r ih =>
      obtain ⟨hopening, hclosing⟩ := hfree c List.mem_cons_self
      have hr := fun d hd => hfree d (List.mem_cons_of_mem c hd)
      rw [List.cons_append, parseFrom, if_neg hopening, if_neg hclosing, if_neg (by simp),
        if_neg (by simp), ih hr]
      simp

/-- The text of a valid segment becomes the text of the open segment. -/
theorem parseFrom_text {s : Segment} (hs : s.Valid) (done : List Segment) (rest : List Char) :
    parseFrom done [] false (s.text.toList ++ rest) =
      parseFrom done s.text.toList.reverse false rest := by
  cases s with
  | field name =>
      have h := parseFrom_name hs.2 done [] (by simp) rest
      simpa [Segment.text] using h
  | matcher key value =>
      obtain ⟨-, hkey, hvalue⟩ := hs
      have hinner : ∀ c ∈ key.toList ++ '=' :: value.toList, c ≠ '[' ∧ c ≠ ']' := by
        intro c hc
        rcases List.mem_append.mp hc with hc | hc
        · exact (hkey c hc).2
        · rcases List.mem_cons.mp hc with rfl | hc
          · decide
          · exact hvalue c hc
      have hopening : ∀ cs, parseFrom done [] false ('[' :: cs) = parseFrom done ['['] true cs := by
        intro cs
        simp [parseFrom]
      rw [Segment.toList_text_matcher, List.cons_append, List.append_assoc, hopening,
        parseFrom_bracket hinner]
      simp [parseFrom]

theorem parseFrom_chars {segments : List Segment} (hne : segments ≠ [])
    (hvalid : ∀ s ∈ segments, s.Valid) (done : List Segment) :
    parseFrom done [] false (chars segments) = .ok (done.reverse ++ segments) := by
  induction segments generalizing done with
  | nil => exact absurd rfl hne
  | cons s rest ih =>
      have hs : s.Valid := hvalid s List.mem_cons_self
      cases rest with
      | nil =>
          have h := parseFrom_text hs done []
          simp only [List.append_nil] at h
          have hchars : chars [s] = s.text.toList := by simp [chars]
          rw [hchars, h]
          simp [parseFrom, Segment.parse_text hs]
      | cons t r =>
          have hrest := ih (List.cons_ne_nil t r) fun u hu => hvalid u (List.mem_cons_of_mem s hu)
          rw [chars_cons s (List.cons_ne_nil t r), parseFrom_text hs]
          simp only [parseFrom, List.reverse_reverse, Segment.parse_text hs]
          simpa using hrest (s :: done)

/-! ### The grammar -/

/-- Segments that a text is written with: there are some, all are valid, and their
texts with dots between them are the text. -/
structure Written (segments : List Segment) (raw : String) : Prop where
  ne_nil : segments ≠ []
  valid : ∀ s ∈ segments, s.Valid
  text : ".".intercalate (segments.map Segment.text) = raw

theorem written_iff_chars {segments : List Segment} {raw : String} :
    Written segments raw ↔
      segments ≠ [] ∧ (∀ s ∈ segments, s.Valid) ∧ chars segments = raw.toList := by
  have htext : ".".intercalate (segments.map Segment.text) = raw ↔ chars segments = raw.toList := by
    rw [← String.toList_inj, String.toList_intercalate, List.map_map]
    rfl
  constructor
  · intro h
    exact ⟨h.ne_nil, h.valid, htext.mp h.text⟩
  · rintro ⟨hne, hvalid, hchars⟩
    exact ⟨hne, hvalid, htext.mpr hchars⟩

theorem parseFrom_eq_ok_iff (raw : String) (segments : List Segment) :
    parseFrom [] [] false raw.toList = .ok segments ↔ Written segments raw := by
  rw [written_iff_chars]
  constructor
  · intro h
    obtain ⟨rest, rfl, hne, hvalid, hchars⟩ := sound_of_parseFrom open_nil h
    exact ⟨hne, hvalid, hchars⟩
  · rintro ⟨hne, hvalid, hchars⟩
    rw [← hchars, parseFrom_chars hne hvalid]
    rfl

/-- A text is read as the segments that it is written with. -/
theorem parse_eq_ok_iff {raw : String} {p : Path} :
    parse raw = .ok p ↔ p.raw = raw ∧ Written p.segments raw := by
  obtain ⟨text, segments⟩ := p
  rw [← parseFrom_eq_ok_iff]
  unfold parse
  cases parseFrom [] [] false raw.toList with
  | ok read => simp [eq_comm]
  | error fault => simp

theorem segments_ne_nil {raw : String} {p : Path} (h : parse raw = .ok p) : p.segments ≠ [] :=
  (parse_eq_ok_iff.mp h).2.ne_nil

/-- A reader that differs only where a text is a bracket without an end is asked
nothing else. -/
theorem parseFromWith_congr {read : List Char → Except PathFault Segment}
    (hread : ∀ cs, Segment.parse cs ≠ .error .unterminatedBracket → read cs = Segment.parse cs)
    {current : List Char} {inBracket : Bool} (hopen : Open inBracket current.reverse)
    (done : List Segment) (cs : List Char) :
    parseFromWith read done current inBracket cs = parseFrom done current inBracket cs := by
  induction cs generalizing done current inBracket with
  | nil =>
      cases inBracket with
      | true => rfl
      | false =>
          have hask : read current.reverse = Segment.parse current.reverse :=
            hread _ hopen.parse_ne_unterminated
          cases hparse : Segment.parse current.reverse with
          | ok s => simp only [parseFromWith, parseFrom, hask, hparse]
          | error fault => simp only [parseFromWith, parseFrom, hask, hparse]
  | cons c r ih =>
      rw [← parseFromWith_parse]
      rcases parseFromWith_cons hopen c r with ⟨fault, hfault⟩ | ⟨inBracket', hopen', hstep⟩ |
        ⟨rfl, rfl, hstep⟩
      · rw [hfault, hfault]
      · have hpush : Open inBracket' (c :: current).reverse := by simpa using hopen'
        rw [hstep, hstep, ih hpush, parseFromWith_parse]
      · rw [hstep, hstep, hread _ hopen.parse_ne_unterminated]
        cases Segment.parse current.reverse with
        | error fault => rfl
        | ok s => simp only [ih open_nil, parseFromWith_parse]

/-- **Reading accepts the texts that valid segments are written as, and gives these
segments back.** Any other text is malformed, and the error carries it. No text of a
segment that the scan hands on is a bracket without an end: a reader of segments that
answers anything there reads every path alike. -/
theorem parse_grammar (raw : String) :
    (∀ segments, parse raw = .ok ⟨raw, segments⟩ ↔ Written segments raw) ∧
      ((∀ segments, ¬ Written segments raw) →
        ∃ fault, parse raw = .error (.malformed raw fault)) ∧
      ∀ read, (∀ cs, Segment.parse cs ≠ .error .unterminatedBracket → read cs = Segment.parse cs) →
        parseFromWith read [] [] false raw.toList = parseFrom [] [] false raw.toList := by
  refine ⟨?_, ?_, fun read hread => parseFromWith_congr hread open_nil [] raw.toList⟩
  · intro segments
    rw [← parseFrom_eq_ok_iff]
    unfold parse
    cases hparse : parseFrom [] [] false raw.toList with
    | ok read => simp
    | error fault => simp
  · intro hnone
    unfold parse
    cases hparse : parseFrom [] [] false raw.toList with
    | ok read => exact absurd ((parseFrom_eq_ok_iff raw read).mp hparse) (hnone read)
    | error fault => exact ⟨fault, rfl⟩

/-- A dot in a matcher does not divide it, and nothing but a dot follows one. A bracket
without an end is a fault of the scan, and not of a segment. -/
theorem parse_grammar_matcher :
    let read : List Char → Except PathFault Segment := fun cs =>
      match Segment.parse cs with
      | .error .unterminatedBracket => .ok (.field "")
      | answer => answer
    parse "containers.[name=my.app].image" =
        .ok ⟨"containers.[name=my.app].image",
          [.field "containers", .matcher "name" "my.app", .field "image"]⟩ ∧
      (∃ fault, parse "a.[x=y]z" = .error (.malformed "a.[x=y]z" fault)) ∧
      parseFromWith read [] [] false "a.[x=y".toList = .error .unterminatedBracket := by
  intro read
  refine ⟨((parse_grammar _).1 _).mpr ⟨by decide, ?_, by decide⟩, (parse_grammar _).2.1 ?_, ?_⟩
  · simp [Segment.Valid]
  · intro segments hwritten
    have hparse : parse "a.[x=y]z" = .error (.malformed "a.[x=y]z" .afterBracket) := rfl
    have hok := ((parse_grammar _).1 segments).mpr hwritten
    rw [hparse] at hok
    cases hok
  · have hread : ∀ cs, Segment.parse cs ≠ .error .unterminatedBracket →
        read cs = Segment.parse cs := by
      intro cs hcs
      -- the two differ in the one answer that is excluded
      simp only [read]
    exact (parse_grammar "a.[x=y").2.2 read hread

end Path
end Graft
