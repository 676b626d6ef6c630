import LogLayout.Proofs.Overrides
import LogLayout.Proofs.Pattern.Breakage

/-!
# Which settings can be installed

Settings are validated when they are read, and looked at once more when they are installed. The two
do not ask for the same. Whatever level passes the validation has a name by which it is found again,
so looking the levels up by their names changes nothing (`Session.configureByName_eq`). But as a
sigil any single character passes, and as a pattern any text.

`Session.configureFrom_answers_iff` says what this comes to: validated settings are installed or
their pattern is reported on, unless their sigil cannot be one or a numeral of their pattern is too
long to be read. These two are the only other faults.
-/

namespace LogLayout

/-! ### Levels by their names -/

theorem Level.ofDatum_name (l : Level) : ofDatum (.text l.name) = .ok l := by
  have named : ofText? l.name = some l := by
    cases l <;> decide +kernel
  rw [ofDatum, named]

namespace Pattern

variable {sigil text : String}

/-- A sigil is refused before the text is looked at, and for no other reason than what it is. -/
theorem compile_eq_badSigil_iff {s : String} :
    compile sigil text = .error (.badSigil s) ↔ isSigilText sigil = false ∧ s = sigil := by
  rw [compile]
  split
  · next accepted =>
      rw [compileWith]
      cases scan sigil text with
      | error stop => cases stop <;> simp [accepted]
      | ok items => cases resolved : ofItems items <;> simp [accepted, resolved]
  · next refused => simp [Bool.eq_false_iff.mpr refused, eq_comm]

end Pattern

namespace Session

variable {s : Settings} {p : Pattern} {cause : CompileError} {session : Session}

/-- The routes of settings, whose levels are looked up by their names. -/
def routesByName (s : Settings) (a : Appender) : Except LevelFault (List Route) := do
  let overrides ← s.longestFirst.mapM fun entry => do
    return (⟨[a], ← Level.ofDatum (.text entry.2.name), entry.1⟩ : Route)
  return overrides ++ [⟨[a], ← Level.ofDatum (.text s.level.name), ""⟩]

/-- Installs the dispatcher of settings that keep the names of their levels. Each part of them is
checked anew. -/
def configureByName (s : Settings) : Action Dispatcher := do
  let pattern ← attempt .compile (Pattern.compile (String.ofList [s.sigil]) s.pattern)
  let routes ← attempt .level (routesByName s ⟨pattern, sinkOf s.output⟩)
  configure (.policy (.firstMatching routes)) s.utc

theorem routesByName_eq (s : Settings) (a : Appender) :
    routesByName s a = .ok (routesOf s a) := by
  have found : s.longestFirst.mapM (fun entry => do
      return (⟨[a], ← Level.ofDatum (.text entry.2.name), entry.1⟩ : Route)) =
        .ok (s.longestFirst.map fun entry => ⟨[a], entry.2, entry.1⟩) := by
    rw [Outcome.mapM_eq_ok_iff, List.forall₂_map_right_iff, List.forall₂_same]
    intro entry _
    rw [Level.ofDatum_name]
    rfl
  rw [routesByName, found, Level.ofDatum_name]
  rfl

/-- The names of levels are always found. -/
theorem configureByName_eq (s : Settings) : configureByName s = configureFrom s := by
  rw [configureByName, configureFrom, dispatcherOf]
  simp only [routesByName_eq]
  cases Pattern.compile (String.ofList [s.sigil]) s.pattern with
  | ok p => rfl
  | error cause => rfl

/-! ### What becomes of an installation -/

theorem configureFrom_run_of_error
    (failed : Pattern.compile (String.ofList [s.sigil]) s.pattern = .error cause)
    (session : Session) :
    (configureFrom s).run session = (.error (.compile cause), session) := by
  have made : dispatcherOf s = .error cause := by
    rw [dispatcherOf, failed]
    rfl
  rw [configureFrom, made]
  rfl

/-- Settings are installed; or there is a report on their pattern, and nothing is changed. -/
inductive Answered (s : Settings) (session : Session) : Prop
  | installed {d : Dispatcher} (run : (configureFrom s).run session =
      (.ok d, { session with dispatcher := some d, utc := s.utc })) : Answered s session
  | reported {report : ParseError} (run : (configureFrom s).run session =
      (.error (.compile (.rejected report)), session)) : Answered s session

/-- There is an answer unless the pattern is not compiled for a reason that is no report. -/
theorem answered_iff : Answered s session ↔
    ∀ cause, Pattern.compile (String.ofList [s.sigil]) s.pattern = .error cause →
      ∃ report, cause = .rejected report := by
  constructor
  · rintro (@⟨d, run⟩ | @⟨report, run⟩) cause failed
    · rw [configureFrom_run_of_error failed] at run
      cases (Prod.mk.inj run).1
    · rw [configureFrom_run_of_error failed] at run
      obtain ⟨same⟩ := (Prod.mk.inj run).1
      exact ⟨report, rfl⟩
  · intro reports
    cases compiled : Pattern.compile (String.ofList [s.sigil]) s.pattern with
    | ok p => exact .installed (configureFrom_run compiled session)
    | error cause =>
        obtain ⟨report, rfl⟩ := reports cause compiled
        exact .reported (configureFrom_run_of_error compiled session)

/-- Validation looks neither at what kind of character the sigil is nor at the pattern. -/
theorem validated_with (validated : s.Validated) (sigil : Char) (pattern : String) :
    { s with sigil := sigil, pattern := pattern }.Validated := by
  rw [Settings.validated_iff] at validated ⊢
  exact validated

theorem configureFrom_run_of_badSigil (refused : isSigil s.sigil = false) (session : Session) :
    (configureFrom s).run session =
      (.error (.compile (.badSigil (String.singleton s.sigil))), session) := by
  have noSigil : isSigilText (String.singleton s.sigil) = false := by
    simpa [isSigilText] using refused
  exact configureFrom_run_of_error (Pattern.compile_eq_badSigil_iff.mpr ⟨noSigil, rfl⟩) session

theorem configureFrom_run_of_long {k : Nat} (admissible : isSigil s.sigil = true)
    (long : Grammar.Breaks s.sigil 0 s.pattern.toList (.numeralTooLong k)) (session : Session) :
    (configureFrom s).run session = (.error (.compile (.numeralTooLong k)), session) :=
  configureFrom_run_of_error ((Pattern.compile_eq_numeralTooLong_iff admissible).mpr long) session

/-- Validated settings are installed, or their pattern is reported on, when their sigil can be one
and their pattern does not break off at a numeral that is too long. Else the installation fails for
just that reason. Nothing else goes wrong, not even when levels are looked up by their names; and
every character passes the validation as a sigil, and every text as a pattern. -/
theorem configureFrom_answers_iff (validated : s.Validated) (session : Session) :
    (Answered s session ↔ isSigil s.sigil = true ∧
      ∀ k, ¬ Grammar.Breaks s.sigil 0 s.pattern.toList (.numeralTooLong k)) ∧
    (isSigil s.sigil = false → (configureFrom s).run session =
      (.error (.compile (.badSigil (String.singleton s.sigil))), session)) ∧
    (∀ k, isSigil s.sigil = true →
      Grammar.Breaks s.sigil 0 s.pattern.toList (.numeralTooLong k) →
        (configureFrom s).run session = (.error (.compile (.numeralTooLong k)), session)) ∧
    configureByName s = configureFrom s ∧
    ∀ sigil pattern, { s with sigil := sigil, pattern := pattern }.Validated := by
  refine ⟨?_, fun refused => configureFrom_run_of_badSigil refused session,
    fun k admissible long => configureFrom_run_of_long admissible long session,
    configureByName_eq s, validated_with validated⟩
  rw [answered_iff]
  constructor
  · intro reports
    have admissible : isSigil s.sigil = true := by
      by_contra refused
      have noSigil : isSigilText (String.ofList [s.sigil]) = false := by
        simpa [isSigilText] using refused
      obtain ⟨report, other⟩ := reports _ (Pattern.compile_eq_badSigil_iff.mpr ⟨noSigil, rfl⟩)
      cases other
    refine ⟨admissible, fun k long => ?_⟩
    have failed := (Pattern.compile_eq_numeralTooLong_iff admissible).mpr long
    obtain ⟨report, other⟩ := reports _ failed
    cases other
  · rintro ⟨admissible, short⟩ cause failed
    cases cause with
    | rejected report => exact ⟨report, rfl⟩
    | numeralTooLong k =>
        exact absurd ((Pattern.compile_eq_numeralTooLong_iff admissible).mp failed) (short k)
    | badSigil sigil =>
        have refused := (Pattern.compile_eq_badSigil_iff.mp failed).1
        have accepted : isSigilText (String.ofList [s.sigil]) = true :=
          Pattern.isSigilText_singleton admissible
        rw [accepted] at refused
        cases refused

/-- Settings with overrides are installed. With an equals sign for a sigil they pass the validation
just as well, and are refused. -/
theorem configureFrom_answers_overrides :
    ∃ s : Settings, s.Validated ∧ s.targets = [("app.db", .trace), ("", .warn)] ∧
      Answered s {} ∧ { s with sigil := '=' }.Validated ∧
      (configureFrom { s with sigil := '=' }).run {} =
        (.error (.compile (.badSigil "=")), {}) := by
  let s := fieldSettings [("app.db", .trace), ("", .warn)]
  have validated : s.Validated := Settings.validated_iff.mpr (by decide)
  obtain ⟨answers, -, -, -, others⟩ := configureFrom_answers_iff validated {}
  have admissible : isSigil s.sigil = true := by decide
  have short : ∀ k, ¬ Grammar.Breaks s.sigil 0 s.pattern.toList (.numeralTooLong k) := by
    intro k long
    have failed := (Pattern.compile_eq_numeralTooLong_iff admissible).mpr long
    rw [String.singleton_eq_ofList, compile_fieldSettings] at failed
    cases failed
  obtain ⟨-, refuses, -⟩ := configureFrom_answers_iff (others '=' s.pattern) {}
  exact ⟨s, validated, rfl, answers.mpr ⟨admissible, short⟩, others '=' s.pattern,
    refuses (by decide)⟩

/-- Settings pass the validation, and their pattern is plain text. They are not installed, and there
is no report on the pattern either. -/
theorem configureFrom_unanswered :
    ∃ s : Settings, s.Validated ∧ s.sigil = '=' ∧ s.pattern = "ready" ∧ s.targets = [] ∧
      ∀ session, ¬ Answered s session := by
  let s : Settings := { pattern := "ready", sigil := '=' }
  refine ⟨s, Settings.validated_iff.mpr List.nodup_nil, rfl, rfl, rfl, fun session answered => ?_⟩
  have failed : Pattern.compile (String.ofList [s.sigil]) s.pattern = .error (.badSigil "=") :=
    Pattern.compile_eq_badSigil_iff.mpr ⟨by decide, rfl⟩
  obtain ⟨report, other⟩ := answered_iff.mp answered _ failed
  cases other

end Session

end LogLayout
