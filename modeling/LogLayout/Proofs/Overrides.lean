import Mathlib.Data.List.Nodup
import LogLayout.Proofs.Complaint
import LogLayout.Proofs.Delivery
import LogLayout.Proofs.Pattern.Compilation
import LogLayout.Proofs.Target
import LogLayout.Session

/-!
# Levels for single targets

Settings have a general level and levels for single targets. `Settings.Asks` says which of them
counts for the events of a target: that of the longest target named by the settings under which it
lies. There is exactly one, since two targets of one length that cover a third are the same, and
settings that were validated name each target once (`Settings.validated_iff`).

`Session.configureFrom_follows_longest` says that the dispatcher of settings decides by this level
alone, whatever the order of the targets, and hands an enabled event to its stream once.
-/

namespace LogLayout

/-! ### Validated settings -/

namespace Settings

variable {s : Settings} {target name : String} {level level' : Level}
  {targets : List (String × Level)}

/-- The settings that can come out of reading members. -/
def Validated (s : Settings) : Prop := ∃ given, ofMembers given = .valid s

theorem nodup_insertTarget (h : (targets.map Prod.fst).Nodup) :
    ((insertTarget targets name level).map Prod.fst).Nodup :=
  nodup_names_put h

theorem insertTarget_of_not_mem (h : name ∉ targets.map Prod.fst) :
    insertTarget targets name level = targets ++ [(name, level)] := by
  rw [insertTarget, if_neg]
  simp only [List.any_eq_true, beq_iff_eq, not_exists, not_and]
  intro entry mem own
  exact h (own ▸ List.mem_map_of_mem mem)

theorem nodup_foldl_insertTarget (entries : List (String × Level))
    (h : (targets.map Prod.fst).Nodup) :
    ((entries.foldl (fun acc entry => insertTarget acc entry.1 entry.2) targets).map
      Prod.fst).Nodup := by
  induction entries generalizing targets with
  | nil => exact h
  | cons entry entries ih => exact ih (nodup_insertTarget h)

/-- Distinct targets are put down in their order. -/
theorem foldl_insertTarget (entries : List (String × Level))
    (h : ((targets ++ entries).map Prod.fst).Nodup) :
    entries.foldl (fun acc entry => insertTarget acc entry.1 entry.2) targets =
      targets ++ entries := by
  induction entries generalizing targets with
  | nil => simp
  | cons entry entries ih =>
      have fresh : entry.1 ∉ targets.map Prod.fst := by
        rw [List.map_append, List.nodup_append] at h
        intro mem
        exact h.2.2 _ mem _ (by simp) rfl
      rw [List.foldl_cons, insertTarget_of_not_mem fresh, ih (by simpa using h)]
      simp

theorem readEntries_names (targets : List (String × Level)) :
    readEntries (targets.map fun entry => (.text entry.1, .text entry.2.name)) =
      .valid targets := by
  induction targets with
  | nil => rfl
  | cons entry targets ih =>
      simp [readEntries, targetEntry, ih, readLevel_name, Checked.at', Checked.map, Checked.apply,
        Datum.lenientText]

/-- The members that settings are read from. -/
def members (s : Settings) : String → Option Datum
  | "level" => some (.text s.level.name)
  | "pattern" => some (.text s.pattern)
  | "sigil" => some (.text (String.ofList [s.sigil]))
  | "output" => some (.text s.output.name)
  | "utc" => some (.bool s.utc)
  | "targets" =>
    some (.dictionary (s.targets.map fun entry => (.text entry.1, .text entry.2.name)))
  | _ => none

theorem nodup_of_readTargets {d : Datum} (h : readTargets d = .valid targets) :
    (targets.map Prod.fst).Nodup := by
  cases d with
  | dictionary entries =>
      obtain ⟨found, -, rfl⟩ := Checked.map_eq_valid_iff.mp h
      exact nodup_foldl_insertTarget found (by simp)
  | _ => cases h

theorem ofMembers_members (h : (s.targets.map Prod.fst).Nodup) :
    ofMembers s.members = .valid s := by
  have targets : readTargets (.dictionary (s.targets.map fun entry =>
      (.text entry.1, .text entry.2.name))) = .valid s.targets := by
    simp only [readTargets, readEntries_names, Checked.map]
    rw [foldl_insertTarget _ (by simpa using h), List.nil_append]
  have sigil : readSigil (.text (String.ofList [s.sigil])) = .ok s.sigil := by
    simp only [readSigil, Datum.lenientText, String.toList_ofList]
  have output : readOutput (.text s.output.name) = .ok s.output := by
    cases s.output <;> rfl
  simp only [ofMembers, members, member, targets, readLevel_name, sigil, output, Checked.at',
    Checked.map, Checked.apply, Datum.lenientText, Datum.lenientFlag]

/-- Settings are validated exactly when they name each target once, in whatever order. -/
theorem validated_iff : s.Validated ↔ (s.targets.map Prod.fst).Nodup := by
  constructor
  · rintro ⟨given, h⟩
    simp only [ofMembers, Checked.apply_eq_valid_iff, Checked.map_eq_valid_iff] at h
    obtain ⟨-, ⟨-, ⟨-, ⟨-, ⟨-, ⟨level, -, rfl⟩, pattern, -, rfl⟩, sigil, -, rfl⟩, stream, -, rfl⟩,
      utc, -, rfl⟩, targets, htargets, rfl⟩ := h
    split at htargets
    · exact nodup_of_readTargets htargets
    · cases htargets
      exact List.nodup_nil
  · intro h
    exact ⟨s.members, ofMembers_members h⟩

/-! ### The level that counts -/

/-- The levels for single targets, the longest target first. -/
def longestFirst (s : Settings) : List (String × Level) :=
  s.targets.mergeSort fun x y => y.1.length ≤ x.1.length

theorem mem_longestFirst {entry : String × Level} : entry ∈ s.longestFirst ↔ entry ∈ s.targets :=
  List.mem_mergeSort

theorem pairwise_longestFirst (s : Settings) :
    s.longestFirst.Pairwise fun x y => y.1.length ≤ x.1.length := by
  have sorted : s.longestFirst.Pairwise fun x y => decide (y.1.length ≤ x.1.length) = true :=
    List.pairwise_mergeSort (by simp only [decide_eq_true_eq]; omega)
      (by simp only [Bool.or_eq_true, decide_eq_true_eq]; omega) s.targets
  simpa only [decide_eq_true_eq] using sorted

/-- The first entry of some kind is a longest one of that kind. -/
theorem longest_of_find? {test : String × Level → Bool} {entry : String × Level}
    (h : s.longestFirst.find? test = some entry) :
    test entry = true ∧ entry ∈ s.targets ∧
      ∀ other ∈ s.targets, test other = true → other.1.length ≤ entry.1.length := by
  obtain ⟨passes, before, behind, split, fails⟩ := List.find?_eq_some_iff_append.mp h
  refine ⟨passes, mem_longestFirst.mp (List.mem_of_find?_eq_some h), ?_⟩
  intro other mem passes'
  have sorted := s.pairwise_longestFirst
  rw [split, List.pairwise_append, List.pairwise_cons] at sorted
  obtain ⟨-, ⟨shorter, -⟩, -⟩ := sorted
  rw [← mem_longestFirst, split] at mem
  rcases List.mem_append.mp mem with mem | mem
  · exact absurd passes' (by simpa using fails other mem)
  · rcases List.mem_cons.mp mem with rfl | mem
    · exact Nat.le_refl _
    · exact shorter other mem

/-- The least level of the events of a target that settings ask for: that of the longest target
named by them under which it lies, and the general one if there is none. -/
inductive Asks (s : Settings) (target : String) : Level → Prop
  | override {name : String} {level : Level} (named : (name, level) ∈ s.targets)
      (covers : Target.covers name target = true)
      (longest : ∀ other ∈ s.targets, Target.covers other.1 target = true →
        other.1.length ≤ name.length) : Asks s target level
  | general (uncovered : ∀ other ∈ s.targets, Target.covers other.1 target = false) :
      Asks s target s.level

theorem Asks.unique (distinct : (s.targets.map Prod.fst).Nodup) (h : s.Asks target level)
    (h' : s.Asks target level') : level = level' := by
  cases h with
  | general uncovered =>
      cases h' with
      | general => rfl
      | override named covers => exact absurd covers (by simp [uncovered _ named])
  | override named covers longest =>
      cases h' with
      | general uncovered => exact absurd covers (by simp [uncovered _ named])
      | override named' covers' longest' =>
          have length := Nat.le_antisymm (longest' _ named covers) (longest _ named' covers')
          obtain rfl := Target.eq_of_covers covers covers' length
          exact congrArg Prod.snd (List.inj_on_of_nodup_map distinct named named' rfl)

/-- The settings with other levels for single targets. -/
def withTargets (s : Settings) (targets : List (String × Level)) : Settings :=
  { s with targets := targets }

/-- The order in which targets are named does not count. -/
theorem Asks.of_perm (perm : targets.Perm s.targets) (h : s.Asks target level) :
    (s.withTargets targets).Asks target level := by
  cases h with
  | general uncovered => exact .general fun other mem => uncovered other (perm.mem_iff.mp mem)
  | override named covers longest =>
      exact .override (perm.mem_iff.mpr named) covers fun other mem =>
        longest other (perm.mem_iff.mp mem)

end Settings

namespace Session

variable {s : Settings} {a : Appender} {p : Pattern} {d : Dispatcher} {target : String}

/-- The route for a target is always found, and it has the level that the settings ask for. -/
theorem exists_firstRoute (s : Settings) (a : Appender) (target : String) :
    ∃ r, Policy.firstRoute? (routesOf s a) target = some r ∧ r.appenders = [a] ∧
      s.Asks target r.level := by
  have routes : routesOf s a =
      s.longestFirst.map (fun entry => ⟨[a], entry.2, entry.1⟩) ++ [⟨[a], s.level, ""⟩] := rfl
  rw [Policy.firstRoute?, routes, List.find?_append, List.find?_map]
  cases found : s.longestFirst.find? ((fun r => r.covers target) ∘
      fun entry => (⟨[a], entry.2, entry.1⟩ : Route)) with
  | none =>
      refine ⟨⟨[a], s.level, ""⟩, rfl, rfl, .general ?_⟩
      intro other mem
      simpa [Route.covers] using
        List.find?_eq_none.mp found other (Settings.mem_longestFirst.mpr mem)
  | some entry =>
      obtain ⟨covers, mem, longest⟩ := Settings.longest_of_find? found
      exact ⟨⟨[a], entry.2, entry.1⟩, rfl, rfl, .override mem covers longest⟩

/-- The dispatcher of settings whose pattern is compiled. -/
def dispatcherFor (s : Settings) (p : Pattern) : Dispatcher :=
  ⟨.firstMatching (routesOf s ⟨p, sinkOf s.output⟩)⟩

theorem configureFrom_run (compiled : Pattern.compile (String.ofList [s.sigil]) s.pattern = .ok p)
    (session : Session) :
    (configureFrom s).run session =
      (.ok (dispatcherFor s p),
        { session with dispatcher := some (dispatcherFor s p), utc := s.utc }) := by
  have made : dispatcherOf s = .ok (dispatcherFor s p) := by
    rw [dispatcherOf, compiled]
    rfl
  rw [configureFrom, made]
  rfl

theorem enabled_dispatcherFor_iff (distinct : (s.targets.map Prod.fst).Nodup) {least : Level}
    (h : s.Asks target least) (level : Level) :
    (dispatcherFor s p).enabled level target = true ↔ least ≤ level := by
  obtain ⟨r, found, -, asks⟩ := exists_firstRoute s ⟨p, sinkOf s.output⟩ target
  obtain rfl := asks.unique distinct h
  simp [Dispatcher.enabled, dispatcherFor, Policy.enabled, found]

/-- Settings that differ in the order of their targets only have the same events enabled. -/
theorem enabled_withTargets (distinct : (s.targets.map Prod.fst).Nodup)
    {targets : List (String × Level)} (perm : targets.Perm s.targets) (level : Level)
    (target : String) :
    (dispatcherFor (s.withTargets targets) p).enabled level target =
      (dispatcherFor s p).enabled level target := by
  have distinct' : ((s.withTargets targets).targets.map Prod.fst).Nodup :=
    (perm.map Prod.fst).nodup_iff.mpr distinct
  obtain ⟨r, -, -, asks⟩ := exists_firstRoute s ⟨p, sinkOf s.output⟩ target
  rw [Bool.eq_iff_iff, enabled_dispatcherFor_iff distinct asks,
    enabled_dispatcherFor_iff distinct' (asks.of_perm perm)]

/-- An enabled event is meant for one appender, once. -/
theorem selected_dispatcherFor {e : Event}
    (h : (dispatcherFor s p).enabled e.level e.target = true) :
    (dispatcherFor s p).selected e = [⟨p, sinkOf s.output⟩] := by
  obtain ⟨r, found, sole, -⟩ := exists_firstRoute s ⟨p, sinkOf s.output⟩ e.target
  rw [Dispatcher.selected, if_pos h]
  simp only [Dispatcher.enabled, dispatcherFor, Policy.enabled, found, decide_eq_true_eq] at h
  simp only [dispatcherFor, Policy.appendersFor, found, if_pos h, sole]

/-- A dispatcher hands each enabled event to one appender, once: a stream takes its text, and an
event without a text is not written. A disabled event is never written. -/
structure SendsOnceTo (d : Dispatcher) (a : Appender) : Prop where
  disabled : ∀ e out, d.enabled e.level e.target = false → d.dispatch e out = (.ok 0, out)
  written : ∀ e out text terminator content, d.enabled e.level e.target = true →
    a.pattern.render e = .ok text → out.holds a.sink = .stream terminator content →
      ∃ x out', x.event = e ∧ x.appender = a ∧ d.dispatch e out = (.ok 1, out') ∧
        out.After [x] out'
  unwritable : ∀ e out cause, d.enabled e.level e.target = true →
    a.pattern.render e = .error cause → d.dispatch e out = (.error (.numeral cause), out)

theorem sendsOnceTo_of_selected
    (h : ∀ e, d.enabled e.level e.target = true → d.selected e = [a]) : SendsOnceTo d a := by
  refine ⟨?_, ?_, ?_⟩
  · intro e out disabled
    rw [Dispatcher.dispatch, if_neg (by simp [disabled])]
  · intro e out text terminator content enabled rendered stream
    have room : out.hasRoom [] a.sink = true := by
      rw [Outputs.hasRoom, stream]
      rfl
    obtain ⟨out', taken, after⟩ :=
      (Outputs.After.refl out).write_of_hasRoom (x := ⟨e, a, text, rendered⟩) room
    refine ⟨_, out', rfl, rfl, ?_, after⟩
    rw [Dispatcher.dispatch_eq, h e enabled, Dispatcher.deliver_of_taken rendered taken]
    rfl
  · intro e out cause enabled unwritable
    rw [Dispatcher.dispatch_eq, h e enabled, Dispatcher.deliver_of_no_text unwritable]

/-- The dispatcher of validated settings has an event enabled when it is at least as severe as the
settings ask for, hands it to the stream of the settings once, and does not depend on the order of
the targets. -/
theorem configureFrom_follows_longest (validated : s.Validated)
    (compiled : Pattern.compile (String.ofList [s.sigil]) s.pattern = .ok p) (session : Session) :
    ∃ d, (configureFrom s).run session =
        (.ok d, { session with dispatcher := some d, utc := s.utc }) ∧
      (∀ target, ∃! least, s.Asks target least) ∧
      (∀ target least, s.Asks target least →
        ∀ level, d.enabled level target = true ↔ least ≤ level) ∧
      SendsOnceTo d ⟨p, sinkOf s.output⟩ ∧
      ∀ targets, targets.Perm s.targets →
        ∃ d', (configureFrom (s.withTargets targets)).run session =
            (.ok d', { session with dispatcher := some d', utc := s.utc }) ∧
          (∀ level target, d'.enabled level target = d.enabled level target) ∧
          ∀ e out, d'.dispatch e out = d.dispatch e out := by
  have distinct := Settings.validated_iff.mp validated
  refine ⟨dispatcherFor s p, configureFrom_run compiled session, ?_, ?_, ?_, ?_⟩
  · intro target
    obtain ⟨r, -, -, asks⟩ := exists_firstRoute s ⟨p, sinkOf s.output⟩ target
    exact ⟨r.level, asks, fun other asks' => asks'.unique distinct asks⟩
  · intro target least asks
    exact enabled_dispatcherFor_iff distinct asks
  · exact sendsOnceTo_of_selected fun e => selected_dispatcherFor
  · intro targets perm
    have agree := fun level target => enabled_withTargets (p := p) distinct perm level target
    refine ⟨dispatcherFor (s.withTargets targets) p,
      configureFrom_run (s := s.withTargets targets) compiled session, agree, ?_⟩
    intro e out
    rw [Dispatcher.dispatch_eq, Dispatcher.dispatch_eq]
    cases enabled : (dispatcherFor s p).enabled e.level e.target with
    | true =>
        rw [selected_dispatcherFor enabled, selected_dispatcherFor ((agree _ _).trans enabled)]
        rfl
    | false =>
        rw [Dispatcher.selected, Dispatcher.selected, agree, enabled]
        rfl

/-- The settings of the runs below. -/
def fieldSettings (targets : List (String × Level)) : Settings :=
  { pattern := "$fields", targets := targets }

open Grammar in
theorem compile_fieldSettings (targets : List (String × Level)) :
    Pattern.compile (String.ofList [(fieldSettings targets).sigil])
      (fieldSettings targets).pattern = .ok ⟨[.token (.fields {})], "$fields"⟩ := by
  have admissible : isSigil '$' = true := by decide
  have bare : TokenText readable "fields".toList "fields" [] "".toList :=
    .bare (n := "fields".toList) (by decide) (stops_nil _) (by decide)
  have derives : Derives readable '$' "$fields".toList [.token "fields" []] :=
    .token (by decide) bare .nil
  have means : Piece.Means (.token "fields" []) (.token (.fields {})) :=
    .token (by decide +kernel) .nil rfl
  exact (Pattern.compile_eq_ok_iff_means admissible).mpr ⟨rfl, _, derives, .cons means .nil⟩

/-- An override of an override, and one for every target that competes with the general level. -/
theorem configureFrom_nested_overrides :
    ∃ s p d, Settings.Validated s ∧
      Pattern.compile (String.ofList [s.sigil]) s.pattern = .ok p ∧
      s.targets = [("app", .error), ("", .warn), ("app.db", .trace)] ∧
      ((configureFrom s).run {}).1 = .ok d ∧ d.enabled .trace "app.db.pool" = true ∧
      d.enabled .warn "app::web" = false ∧ d.enabled .info "application" = false := by
  let s := fieldSettings [("app", .error), ("", .warn), ("app.db", .trace)]
  have validated : s.Validated := Settings.validated_iff.mpr (by decide)
  obtain ⟨d, installed, -, decides, -⟩ :=
    configureFrom_follows_longest validated (compile_fieldSettings _) {}
  have nested : ("app.db", Level.trace) ∈ s.targets := by decide
  have outer : ("app", Level.error) ∈ s.targets := by decide
  have catchAll : ("", Level.warn) ∈ s.targets := by decide
  have pool : s.Asks "app.db.pool" .trace := .override nested (by decide) (by decide)
  have web : s.Asks "app::web" .error := .override outer (by decide) (by decide)
  have application : s.Asks "application" .warn := .override catchAll (by decide) (by decide)
  refine ⟨s, _, d, validated, compile_fieldSettings _, rfl, by rw [installed], ?_, ?_, ?_⟩
  · rw [decides _ _ pool]
    decide
  · rw [Bool.eq_false_iff, Ne, decides _ _ web]
    decide
  · rw [Bool.eq_false_iff, Ne, decides _ _ application]
    decide

/-- An enabled event is never written when it holds an integer of one digit more than can be
written. -/
theorem configureFrom_long_field_unwritten :
    ∃ (s : Settings) (d : Dispatcher) (e : Event), s.Validated ∧
      ((configureFrom s).run {}).1 = .ok d ∧ e.Accepted ∧
      d.enabled e.level e.target = true ∧ (d.dispatch e .initial).2.journal = [] := by
  obtain ⟨cause, unwritable⟩ := Pattern.render_ofInteger Numeral.not_writable_limit "$fields"
  generalize (10 : Int) ^ Numeral.digitLimit = n at unwritable
  let s := fieldSettings []
  let p : Pattern := ⟨[.token (.fields {})], "$fields"⟩
  let e := Event.ofInteger n
  have general : s.Asks e.target .info := .general (by simp [s, fieldSettings])
  have enabled : (dispatcherFor s p).enabled e.level e.target = true :=
    (enabled_dispatcherFor_iff (by decide) general e.level).mpr (Int.le_refl _)
  have installed : ((configureFrom s).run {}).1 = .ok (dispatcherFor s p) := by
    rw [configureFrom_run (compile_fieldSettings [])]
  refine ⟨s, dispatcherFor s p, e, Settings.validated_iff.mpr (by decide), installed,
    Event.accepted_ofInteger n, enabled, ?_⟩
  rw [Dispatcher.dispatch_eq, selected_dispatcherFor enabled,
    Dispatcher.deliver_of_no_text unwritable]
  rfl

end Session

end LogLayout
