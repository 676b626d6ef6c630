import Mathlib.Logic.Function.Basic
import LogLayout.Proofs.Installation
import LogLayout.Proofs.Outcome
import LogLayout.Proofs.Runs
import LogLayout.Settings.Environment

/-!
# Names of levels in settings

A level is named in two places: where a caller asks for it, and in settings. Each takes the capitals
of the name and has tables of its own to look them up in. The tables agree
(`Settings.lookup_canonicalLevel`), but the first place leaves out the blanks at either end and the
second does not. Since no blank is a capital of anything but itself, and no name begins or ends with
a blank, this is the only difference (`Settings.readLevel_eq_ok_iff`).

`Settings.level_names_agree` says so of whole settings, wherever the name comes from: as the general
level and as the level of any target, a name is accepted exactly when it names a level without
blanks around it. What is stored then names the same level.
-/

namespace LogLayout

/-! ### Blanks around a name -/

namespace Text

/-- No blank stands at either end. -/
def Bare (cs : List Char) : Prop := Stops isBlank cs ∧ Stops isBlank cs.reverse

theorem strip_of_bare {cs : List Char} (h : Bare cs) : strip cs = cs := by
  have dropped {ds : List Char} (stops : Stops isBlank ds) : ds.dropWhile isBlank = ds :=
    dropWhile_append_of_stops (List.forall_mem_nil _) stops
  rw [strip, dropped h.1, dropped h.2, List.reverse_reverse]

theorem toUpper_of_isBlank {c : Char} (h : isBlank c = true) : c.toUpper = c := by
  refine dif_neg ?_
  rintro ⟨low, high⟩
  have low : 97 ≤ c.toNat := low
  have high : c.toNat ≤ 122 := high
  simp only [isBlank, Bool.or_eq_true, Bool.and_eq_true, decide_eq_true_eq, beq_iff_eq] at h
  omega

/-- A blank has no other capital form, and none of the letters with a special one is a blank. -/
theorem capital_of_isBlank {c : Char} (h : isBlank c = true) : capital c = [c] := by
  unfold capital
  split
  case h_11 => rw [toUpper_of_isBlank h]
  all_goals exact absurd h (by decide)

/-- Capitals have no blanks around them unless the text does. -/
theorem bare_of_capitals {cs : List Char} (h : Bare (capitals cs)) : Bare cs := by
  constructor
  · intro c hc
    obtain ⟨ds, rfl⟩ : ∃ ds, cs = c :: ds := List.head?_eq_some_iff.mp hc
    rw [Bool.eq_false_iff]
    intro blank
    rw [capitals, List.flatMap_cons, capital_of_isBlank blank] at h
    exact absurd blank (by simp [h.1 c rfl])
  · intro c hc
    obtain ⟨ds, rfl⟩ : ∃ ds, cs = ds ++ [c] := by
      obtain ⟨ds, hds⟩ := List.head?_eq_some_iff.mp hc
      exact ⟨ds.reverse, by rw [← List.reverse_reverse cs, hds, List.reverse_cons]⟩
    rw [Bool.eq_false_iff]
    intro blank
    rw [capitals, List.flatMap_append, List.flatMap_singleton, capital_of_isBlank blank] at h
    exact absurd blank (by simp [h.2 c (by simp)])

end Text

namespace Level

theorem bare_of_mem_names : ∀ entry ∈ names, Text.Bare entry.1.toList := by
  have ends : ∀ entry ∈ names, (entry.1.toList.head?.all fun c => !Text.isBlank c) = true ∧
      (entry.1.toList.reverse.head?.all fun c => !Text.isBlank c) = true := by
    decide
  intro entry mem
  have stops {cs : List Char} (h : (cs.head?.all fun c => !Text.isBlank c) = true) :
      Stops Text.isBlank cs := by
    intro c hc
    simpa [hc] using h
  exact ⟨stops (ends entry mem).1, stops (ends entry mem).2⟩

/-- Only a name without blanks around it stands for a level as it is. -/
theorem bare_of_lookup_upper {s : String} {l : Level}
    (h : names.lookup (Text.upper s) = some l) : Text.Bare s.toList := by
  obtain ⟨before, after, split, -⟩ := List.lookup_eq_some_iff.mp h
  have bare := bare_of_mem_names (Text.upper s, l) (by simp [split])
  exact Text.bare_of_capitals (by simpa [Text.upper] using bare)

theorem ofText?_of_bare {s : String} (h : Text.Bare s.toList) :
    ofText? s = names.lookup (Text.upper s) := by
  rw [ofText?, Text.strip_of_bare h, String.ofList_toList]

theorem ofDatum_text_eq_ok_iff {s : String} {l : Level} :
    ofDatum (.text s) = .ok l ↔ ofText? s = some l := by
  rw [ofDatum]
  cases ofText? s with
  | none => simp
  | some k => simp

end Level

namespace Settings

variable {s : String} {l : Level}

/-- The tables of settings and the table for callers agree: a name stands for the same level in
both, or in neither. -/
theorem lookup_canonicalLevel (s : String) :
    levelNames.lookup (canonicalLevel s) = Level.names.lookup (Text.upper s) := by
  have hostNames : Level.names =
    levelNames ++ [("WARNING", .warn), ("CRITICAL", .error), ("FATAL", .error)] := rfl
  have replaced : ∀ entry ∈ levelAliases,
      levelNames.lookup entry.2 = Level.names.lookup entry.1 := by
    decide +kernel
  rw [canonicalLevel]
  generalize Text.upper s = name
  cases found : levelAliases.lookup name with
  | some full =>
      obtain ⟨before, after, split, -⟩ := List.lookup_eq_some_iff.mp found
      exact replaced (name, full) (by simp [split])
  | none =>
      -- What callers may use beyond the names of levels are the names that settings replace.
      have other : List.lookup name
          [("WARNING", Level.warn), ("CRITICAL", .error), ("FATAL", .error)] = none := by
        simpa [levelAliases] using found
      rw [hostNames, List.lookup_append, other, Option.or_none, Option.getD_none]

theorem readLevel_text_eq_ok_iff :
    readLevel (.text s) = .ok l ↔ levelNames.lookup (canonicalLevel s) = some l := by
  rw [readLevel]
  cases levelNames.lookup (canonicalLevel s) with
  | none => simp
  | some k => simp

/-- A name is read in settings when it stands for a level on request and has no blanks around it. -/
theorem readLevel_eq_ok_iff :
    readLevel (.text s) = .ok l ↔ Level.ofDatum (.text s) = .ok l ∧ Text.Bare s.toList := by
  rw [readLevel_text_eq_ok_iff, lookup_canonicalLevel, Level.ofDatum_text_eq_ok_iff]
  constructor
  · intro named
    have bare := Level.bare_of_lookup_upper named
    exact ⟨(Level.ofText?_of_bare bare).trans named, bare⟩
  · rintro ⟨named, bare⟩
    exact (Level.ofText?_of_bare bare).symm.trans named

/-! ### Settings put together of their members -/

/-- The levels for single targets, from the member that holds them. -/
def readOverrides (given : String → Option Datum) : Checked (List (String × Level)) :=
  match given "targets" with
  | some d => readTargets d
  | none => .valid []

/-- Settings are read member by member. -/
theorem ofMembers_eq_valid_iff {given : String → Option Datum} {settings : Settings} :
    ofMembers given = .valid settings ↔
      member given "level" .info readLevel = .valid settings.level ∧
      member given "pattern" defaultPattern Datum.lenientText = .valid settings.pattern ∧
      member given "sigil" '$' readSigil = .valid settings.sigil ∧
      member given "output" .error readOutput = .valid settings.output ∧
      member given "utc" false Datum.lenientFlag = .valid settings.utc ∧
      readOverrides given = .valid settings.targets := by
  simp only [ofMembers, Checked.apply_eq_valid_iff, Checked.map_eq_valid_iff]
  constructor
  · rintro ⟨-, ⟨-, ⟨-, ⟨-, ⟨-, ⟨level, hlevel, rfl⟩, pattern, hpattern, rfl⟩, sigil, hsigil, rfl⟩,
      stream, hstream, rfl⟩, utc, hutc, rfl⟩, targets, htargets, rfl⟩
    exact ⟨hlevel, hpattern, hsigil, hstream, hutc, htargets⟩
  · rintro ⟨hlevel, hpattern, hsigil, hstream, hutc, htargets⟩
    exact ⟨_, ⟨_, ⟨_, ⟨_, ⟨_, ⟨_, hlevel, rfl⟩, _, hpattern, rfl⟩, _, hsigil, rfl⟩, _, hstream,
      rfl⟩, _, hutc, rfl⟩, _, htargets, rfl⟩

theorem exists_ofMembers_iff {given : String → Option Datum} :
    (∃ settings, ofMembers given = .valid settings) ↔
      (∃ l, member given "level" .info readLevel = .valid l) ∧
      (∃ p, member given "pattern" defaultPattern Datum.lenientText = .valid p) ∧
      (∃ c, member given "sigil" '$' readSigil = .valid c) ∧
      (∃ o, member given "output" .error readOutput = .valid o) ∧
      (∃ u, member given "utc" false Datum.lenientFlag = .valid u) ∧
      ∃ targets, readOverrides given = .valid targets := by
  simp only [ofMembers_eq_valid_iff]
  constructor
  · rintro ⟨settings, level, pattern, sigil, output, utc, targets⟩
    exact ⟨⟨_, level⟩, ⟨_, pattern⟩, ⟨_, sigil⟩, ⟨_, output⟩, ⟨_, utc⟩, _, targets⟩
  · rintro ⟨⟨l, level⟩, ⟨p, pattern⟩, ⟨c, sigil⟩, ⟨o, output⟩, ⟨u, utc⟩, targets, overrides⟩
    exact ⟨⟨l, p, c, o, u, targets⟩, level, pattern, sigil, output, utc, overrides⟩

variable {given : String → Option Datum} {d : Datum}

/-- Members are accepted when they are so without a level and the level can be read. -/
theorem exists_ofMembers_iff_of_level (h : given "level" = some d) :
    (∃ settings, ofMembers given = .valid settings) ↔
      (∃ l, readLevel d = .ok l) ∧
        ∃ others, ofMembers (Function.update given "level" none) = .valid others := by
  simp [exists_ofMembers_iff, member, readOverrides, h, Checked.at'_eq_valid_iff]

/-- Members are accepted when they are so without levels for single targets and these can be read.
-/
theorem exists_ofMembers_iff_of_targets (h : given "targets" = some d) :
    (∃ settings, ofMembers given = .valid settings) ↔
      (∃ others, ofMembers (Function.update given "targets" none) = .valid others) ∧
        ∃ targets, readTargets d = .valid targets := by
  simp [exists_ofMembers_iff, member, readOverrides, h, and_assoc]

theorem readEntries_eq_valid_iff {entries : List (Datum × Datum)}
    {targets : List (String × Level)} :
    readEntries entries = .valid targets ↔
      List.Forall₂ (fun e t => e.1.lenientText = .ok t.1 ∧ readLevel e.2 = .ok t.2)
        entries targets := by
  induction entries generalizing targets with
  | nil => simp [readEntries, eq_comm]
  | cons e entries ih =>
      simp only [readEntries, targetEntry, Checked.apply_eq_valid_iff, Checked.map_eq_valid_iff,
        Checked.at'_eq_valid_iff, List.forall₂_cons_left_iff, ih]
      constructor
      · rintro ⟨-, ⟨-, ⟨-, ⟨name, hname, rfl⟩, level, hlevel, rfl⟩, rfl⟩, rest, hrest, rfl⟩
        exact ⟨(name, level), rest, ⟨hname, hlevel⟩, hrest, rfl⟩
      · rintro ⟨⟨name, level⟩, rest, ⟨hname, hlevel⟩, hrest, rfl⟩
        exact ⟨_, ⟨_, ⟨_, ⟨name, hname, rfl⟩, level, hlevel, rfl⟩, rfl⟩, rest, hrest, rfl⟩

/-- A dictionary of levels is read when each of its entries is. -/
theorem exists_readTargets_iff {entries : List (Datum × Datum)} :
    (∃ targets, readTargets (.dictionary entries) = .valid targets) ↔
      ∀ e ∈ entries, (∃ name, e.1.lenientText = .ok name) ∧ ∃ l, readLevel e.2 = .ok l := by
  have each (e : Datum × Datum) :
      (∃ t : String × Level, e.1.lenientText = .ok t.1 ∧ readLevel e.2 = .ok t.2) ↔
        (∃ name, e.1.lenientText = .ok name) ∧ ∃ l, readLevel e.2 = .ok l := by
    constructor
    · rintro ⟨t, named, read⟩
      exact ⟨⟨t.1, named⟩, t.2, read⟩
    · rintro ⟨⟨name, named⟩, l, read⟩
      exact ⟨(name, l), named, read⟩
  simp only [← each, ← exists_forall₂_iff, ← readEntries_eq_valid_iff]
  simp [readTargets, Checked.map_eq_valid_iff]

variable {targets : List (String × Level)} {name name' : String} {l' : Level}

theorem mem_insertTarget_self : (name, l) ∈ insertTarget targets name l := by
  rw [insertTarget]
  split
  · next named =>
      obtain ⟨entry, mem, own⟩ := List.any_eq_true.mp named
      exact List.mem_map.mpr ⟨entry, mem, if_pos own⟩
  · exact List.mem_append_right _ (List.mem_singleton_self _)

theorem mem_insertTarget_of_ne (mem : (name, l) ∈ targets) (other : name' ≠ name) :
    (name, l) ∈ insertTarget targets name' l' := by
  rw [insertTarget]
  split
  · exact List.mem_map.mpr ⟨(name, l), mem, if_neg (by simpa using other.symm)⟩
  · exact List.mem_append_left _ mem

/-- A level stays under its target as long as the target is not named again. -/
theorem mem_foldl_insertTarget {entries : List (String × Level)} (mem : (name, l) ∈ targets)
    (later : ∀ entry ∈ entries, entry.1 ≠ name) :
    (name, l) ∈ entries.foldl (fun acc entry => insertTarget acc entry.1 entry.2) targets := by
  induction entries generalizing targets with
  | nil => exact mem
  | cons entry entries ih =>
      obtain ⟨other, later⟩ := List.forall_mem_cons.mp later
      exact ih (mem_insertTarget_of_ne mem other) later

/-- The level of an entry is stored under its key, unless the key is given once more. -/
theorem exists_mem_of_readTargets {before after : List (Datum × Datum)} {key value : Datum}
    (read : readTargets (.dictionary (before ++ (key, value) :: after)) = .valid targets)
    (hkey : key.lenientText = .ok name) (later : ∀ e ∈ after, e.1.lenientText ≠ .ok name) :
    ∃ l, readLevel value = .ok l ∧ (name, l) ∈ targets := by
  obtain ⟨found, hfound, rfl⟩ := Checked.map_eq_valid_iff.mp read
  obtain ⟨earlier, ⟨k, l⟩, rest, rfl, ⟨hk, hl⟩, behind⟩ :=
    exists_split_of_forall₂ (readEntries_eq_valid_iff.mp hfound)
  obtain rfl : name = k := Except.ok.inj (hkey.symm.trans hk)
  refine ⟨l, hl, ?_⟩
  rw [List.foldl_append, List.foldl_cons]
  refine mem_foldl_insertTarget mem_insertTarget_self fun entry mem same => ?_
  obtain ⟨e, he, named, -⟩ := exists_mem_of_forall₂ behind mem
  exact later e he (same ▸ named)

/-! ### Settings put together of their sources -/

/-- The data that an environment, and what is given directly, hold together for the members. -/
def gathered (env : Environment) (given : List (String × Datum)) :
    Except Fault (String → Option Datum) :=
  (environmentTargets env.normalize).map fun targets name =>
    let exported := if name = "targets" then targets
      else (env.normalize.lookup (variableStart ++ name)).map .text
    match exported, direct given name with
    | some lower, some upper => some (overlay lower upper)
    | exported, none => exported
    | none, some upper => some upper

/-- The settings that were read, or every complaint about them. -/
def answer : Checked Settings → Except Fault Settings
  | .valid s => .ok s
  | .invalid first rest => .error (.invalid first rest)

theorem ofSources_eq_answer {env : Environment} {given : List (String × Datum)}
    {members : String → Option Datum} (gives : gathered env given = .ok members) :
    ofSources env given = answer (ofMembers members) := by
  obtain ⟨targets, exported, rfl⟩ := Outcome.map_eq_ok_iff.mp gives
  simp only [ofSources, exported]
  rfl

theorem answer_eq_ok_iff {read : Checked Settings} {settings : Settings} :
    answer read = .ok settings ↔ read = .valid settings := by
  cases read with
  | valid s => simp [answer]
  | invalid first rest => simp [answer]

/-- Settings and callers agree on the names of levels. Let a text be what the sources give for the
general level, or for the level of a target. Settings that are accepted without it are accepted with
it exactly when it names a level on request and has no blanks around it, and then what is stored
names the same level. -/
theorem level_names_agree {env : Environment} {given : List (String × Datum)}
    {members : String → Option Datum} (gives : gathered env given = .ok members) (s : String) :
    (members "level" = some (.text s) →
      ((∃ settings, ofSources env given = .ok settings) ↔
        (∃ others, ofMembers (Function.update members "level" none) = .valid others) ∧
          (∃ l, Level.ofDatum (.text s) = .ok l) ∧ Text.Bare s.toList) ∧
      ∀ settings, ofSources env given = .ok settings →
        Level.ofDatum (.text settings.level.name) = Level.ofDatum (.text s)) ∧
    ∀ before key after,
      members "targets" = some (.dictionary (before ++ (key, .text s) :: after)) →
      ((∃ settings, ofSources env given = .ok settings) ↔
        (∃ others, ofMembers (Function.update members "targets"
            (some (.dictionary (before ++ after)))) = .valid others) ∧
          (∃ name, key.lenientText = .ok name) ∧
          (∃ l, Level.ofDatum (.text s) = .ok l) ∧ Text.Bare s.toList) ∧
      ∀ settings name, ofSources env given = .ok settings → key.lenientText = .ok name →
        (∀ e ∈ after, e.1.lenientText ≠ .ok name) →
        ∃ l, (∀ k, (name, k) ∈ settings.targets ↔ k = l) ∧
          Level.ofDatum (.text l.name) = Level.ofDatum (.text s) := by
  simp only [ofSources_eq_answer gives, answer_eq_ok_iff]
  refine ⟨fun isLevel => ⟨?_, ?_⟩, fun before key after areTargets => ⟨?_, ?_⟩⟩
  · rw [exists_ofMembers_iff_of_level isLevel, and_comm]
    simp only [readLevel_eq_ok_iff, exists_and_right]
  · intro settings h
    have read : readLevel (.text s) = .ok settings.level := by
      simpa [member, isLevel, Checked.at'_eq_valid_iff] using (ofMembers_eq_valid_iff.mp h).1
    rw [Level.ofDatum_name, (readLevel_eq_ok_iff.mp read).1]
  · have without : Function.update members "targets" (some (.dictionary (before ++ after)))
        "targets" = some (.dictionary (before ++ after)) := Function.update_self ..
    rw [exists_ofMembers_iff_of_targets areTargets, exists_ofMembers_iff_of_targets without,
      Function.update_idem, exists_readTargets_iff, exists_readTargets_iff]
    simp only [List.forall_mem_append, List.forall_mem_cons, readLevel_eq_ok_iff,
      exists_and_right]
    constructor
    · rintro ⟨others, earlier, ⟨named, level⟩, later⟩
      exact ⟨⟨others, earlier, later⟩, named, level⟩
    · rintro ⟨⟨others, earlier, later⟩, named, level⟩
      exact ⟨others, earlier, ⟨named, level⟩, later⟩
  · intro settings name h hkey later
    have read : readTargets (.dictionary (before ++ (key, .text s) :: after)) =
        .valid settings.targets := by
      simpa [readOverrides, areTargets] using (ofMembers_eq_valid_iff.mp h).2.2.2.2.2
    obtain ⟨l, named, stored⟩ := exists_mem_of_readTargets read hkey later
    have only (k : Level) (mem : (name, k) ∈ settings.targets) : k = l :=
      congrArg Prod.snd (List.inj_on_of_nodup_map (nodup_of_readTargets read) mem stored rfl)
    refine ⟨l, fun k => ⟨only k, fun same => same ▸ stored⟩, ?_⟩
    rw [Level.ofDatum_name, (readLevel_eq_ok_iff.mp named).1]

/-- The capitals of a word with a dotless letter make up a name. It is given by a variable for the
general level, and directly for the level of a target. -/
theorem level_names_agree_dotless :
    let env : Environment := [("PATTERNLOG_LEVEL", "ınfo")]
    let given : List (String × Datum) := [("targets", .dictionary
      [(.text "app.db", .text "ınfo"), (.text "app.web", .text "trace")])]
    ∃ settings, ofSources env given = .ok settings ∧
      Level.ofDatum (.text settings.level.name) = .ok .info ∧
      ∃ l, ("app.db", l) ∈ settings.targets ∧ Level.ofDatum (.text l.name) = .ok .info := by
  intro env given
  obtain ⟨members, gives⟩ : ∃ members, gathered env given = .ok members := ⟨_, rfl⟩
  have level : members "level" = some (.text "ınfo") := by
    obtain rfl := Except.ok.inj gives
    rfl
  have targets : members "targets" = some (.dictionary
      ([] ++ (.text "app.db", .text "ınfo") :: [(.text "app.web", .text "trace")])) := by
    obtain rfl := Except.ok.inj gives
    rfl
  have others : ∃ others, ofMembers (Function.update members "level" none) = .valid others := by
    obtain rfl := Except.ok.inj gives
    exact ⟨_, rfl⟩
  have named : Level.ofDatum (.text "ınfo") = .ok .info := rfl
  have bare : Text.Bare "ınfo".toList := Level.bare_of_lookup_upper (l := .info) rfl
  obtain ⟨⟨accepted, stored⟩, each⟩ := (level_names_agree gives "ınfo").imp_left fun h => h level
  obtain ⟨settings, h⟩ := accepted.mpr ⟨others, ⟨_, named⟩, bare⟩
  obtain ⟨l, only, same⟩ := (each [] _ _ targets).2 settings "app.db" h rfl (by decide)
  exact ⟨settings, h, (stored settings h).trans named, l, (only l).mpr rfl, same.trans named⟩

end Settings

end LogLayout
