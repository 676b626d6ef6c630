import Mathlib.Data.List.Induction
import LogLayout.Proofs.Outcome
import LogLayout.Proofs.Session

/-!
# Which configuration is installed

The dispatcher and the zone of the clock are one thing: they are installed together and removed
together. `Attempts` says which calls of a program try to install a pair, and what that comes to: a
pair, or the fault for which there is none. Setting up is such a call, and so is the first use of a
logger or a handler that has no dispatcher of its own while none is installed. A call does to what
is installed just what its attempt says (`Attempts.installation_of_ok`,
`Attempts.perform_of_error`), and no other call but a reset does anything to it
(`installation_of_quiet`).

`installed_iff_setBy` puts this together for every row of calls: what is installed is the pair of
the last attempt that succeeded, unless it was removed since.
-/

namespace LogLayout.Session

/-! ### Calls and attempts -/

/-- The dispatcher that is installed and the zone of the clock. -/
def installation (s : Session) : Option Dispatcher × Bool := (s.dispatcher, s.utc)

/-- All that looking for a dispatcher may change. -/
def setup (s : Session) : (Option Dispatcher × Bool) × Option Settings :=
  (s.installation, s.settings)

/-- Installs the dispatcher of the settings given, or else of those of the environment. -/
def configureGiven : Option Settings → Action Dispatcher
  | some settings => configureFrom settings
  | none => do configureFrom (← readSettings)

/-- What a program does that its configuration has to do with. -/
inductive Call where
  | configure (c : Configuration) (utc : Bool)
  | configureFrom (given : Option Settings)
  | reset
  | enabled (l : Logger) (level : Datum)
  | log (l : Logger) (level : Datum) (message : String) (given : FieldSource) (site : CallSite)
  | emit (h : Handler) (r : Record)
  | setEnvironment (env : Environment)
  | forgetSettings

/-- The fault that an action ends in, if any, and the session behind it. -/
def ended {α : Type} (x : Action α) (s : Session) : Option Fault × Session :=
  (Outcome.error? (x.run s).1, (x.run s).2)

/-- The fault that a call ends in, if any, and the session behind it. -/
def Call.perform (s : Session) : Call → Option Fault × Session
  | configure c utc => ended (Session.configure c utc) s
  | configureFrom given => ended (configureGiven given) s
  | reset => ended Session.reset s
  | enabled l level => ended (Session.enabled l level) s
  | log l level message given site => ended (logAt l level message given site) s
  | emit h r => Session.emit h r s
  | setEnvironment env => (none, { s with environment := env })
  | forgetSettings => ended Session.forgetSettings s

/-- The session after a row of calls, whatever becomes of each. -/
def after (start : Session) (calls : List Call) : Session :=
  calls.foldl (fun s call => (call.perform s).2) start

/-- The pair that settings install, or why there is none. -/
def pairOf (settings : Settings) : Except Fault (Dispatcher × Bool) :=
  match dispatcherOf settings with
  | .ok d => .ok (d, settings.utc)
  | .error cause => .error (.compile cause)

/-- The settings that were read before, or else those of the environment. -/
def currentSettings (s : Session) : Except Fault Settings :=
  match s.settings with
  | some settings => .ok settings
  | none => (Settings.ofSources s.environment []).mapError .settings

/-- A call asks for a dispatcher, be it one of its own or the installed one. A call at no level does
not come so far, nor does a record of the library itself. -/
inductive Call.Asks : Option Dispatcher → Call → Prop
  | enabled (l : Logger) (level : Datum) : Asks l.dispatcher (.enabled l level)
  | log (l : Logger) {level : Datum} {v : Level} (known : Level.ofDatum level = .ok v)
      (message : String) (given : FieldSource) (site : CallSite) :
      Asks l.dispatcher (.log l level message given site)
  | emit (h : Handler) {r : Record} (foreign : r.isOwn = false) : Asks h.dispatcher (.emit h r)

/-- A call attempts to install a pair, and what that comes to. -/
inductive Attempts (s : Session) : Call → Except Fault (Dispatcher × Bool) → Prop
  | configure (c : Configuration) (utc : Bool) :
      Attempts s (.configure c utc) (c.dispatcher?.map fun d => (d, utc))
  | settings (given : Settings) : Attempts s (.configureFrom (some given)) (pairOf given)
  | environment : Attempts s (.configureFrom none) (s.currentSettings.bind pairOf)
  /-- Nothing is installed, and the call has no dispatcher of its own. -/
  | firstUse {call : Call} (asks : call.Asks none) (nothing : s.dispatcher = none) :
      Attempts s call (s.currentSettings.bind pairOf)

/-- A row of calls, begun with nothing installed, has set a pair: the last attempt that succeeded
set it, and there was no reset behind that; or there is none, and behind every attempt that
succeeded there was a reset. -/
inductive SetBy (start : Session) (calls : List Call) : Option Dispatcher × Bool → Prop
  | last {before behind : List Call} {call : Call} {d : Dispatcher} {utc : Bool}
      (split : calls = before ++ call :: behind)
      (attempt : Attempts (after start before) call (.ok (d, utc)))
      (kept : ∀ xs c ys, behind = xs ++ c :: ys →
        c ≠ .reset ∧ ∀ pair, ¬ Attempts (after start (before ++ call :: xs)) c (.ok pair)) :
      SetBy start calls (some d, utc)
  | nothing (removed : ∀ before call behind pair, calls = before ++ call :: behind →
      Attempts (after start before) call (.ok pair) → .reset ∈ behind) :
      SetBy start calls (none, false)

/-! ### What an attempt does -/

section Actions

variable {s : Session} {given : Settings} {fault : Fault}
  {pair : Except Fault (Dispatcher × Bool)} {x : Action Dispatcher}

/-- An action installs the pair that an attempt comes to; or it fails, and what is installed is
left as it was. -/
inductive CarriesOut (x : Action Dispatcher) (s : Session) :
    Except Fault (Dispatcher × Bool) → Prop
  | installed {d : Dispatcher} {utc : Bool} {s' : Session} (run : x.run s = (.ok d, s'))
      (pair : s'.installation = (some d, utc)) : CarriesOut x s (.ok (d, utc))
  | failed {fault : Fault} {s' : Session} (run : x.run s = (.error fault, s'))
      (same : s'.installation = s.installation) : CarriesOut x s (.error fault)

theorem CarriesOut.of_run {y : Action Dispatcher} {s' : Session} (h : CarriesOut x s' pair)
    (run : y.run s = x.run s') (same : s'.installation = s.installation) : CarriesOut y s pair := by
  cases h with
  | installed run' pair => exact .installed (run.trans run') pair
  | failed run' same' => exact .failed (run.trans run') (same'.trans same)

theorem carriesOut_configure (c : Configuration) (utc : Bool) (s : Session) :
    CarriesOut (configure c utc) s (c.dispatcher?.map fun d => (d, utc)) := by
  cases made : c.dispatcher? with
  | ok d => exact .installed (by rw [configure, made]; rfl) rfl
  | error fault => exact .failed (by rw [configure, made]; rfl) rfl

theorem carriesOut_configureFrom (given : Settings) (s : Session) :
    CarriesOut (configureFrom given) s (pairOf given) := by
  rw [pairOf]
  cases made : dispatcherOf given with
  | ok d => exact .installed (by rw [configureFrom, made]; rfl) rfl
  | error cause => exact .failed (by rw [configureFrom, made]; rfl) rfl

theorem readSettings_run_of_ok (h : s.currentSettings = .ok given) :
    readSettings.run s = (.ok given, { s with settings := some given }) := by
  rw [currentSettings] at h
  rw [readSettings, get_bind_run]
  cases known : s.settings with
  | some settings =>
      rw [known] at h
      obtain rfl := Except.ok.inj h
      change ((.ok settings, s) : Except Fault Settings × Session) =
        (.ok settings, { s with settings := some settings })
      rw [← known]
  | none =>
      rw [known] at h
      have read := Outcome.mapError_eq_ok_iff.mp h
      simp only
      rw [get_bind_run, attempt_bind_run_of_ok read]
      rfl

theorem readSettings_run_of_error (h : s.currentSettings = .error fault) :
    readSettings.run s = (.error fault, s) := by
  rw [currentSettings] at h
  rw [readSettings, get_bind_run]
  cases known : s.settings with
  | some settings =>
      rw [known] at h
      cases h
  | none =>
      rw [known] at h
      cases read : Settings.ofSources s.environment [] with
      | ok settings =>
          rw [read] at h
          cases h
      | error cause =>
          rw [read] at h
          obtain rfl := Except.error.inj h
          simp only
          rw [get_bind_run, attempt_bind_run_of_error read]

/-- Settings that are read but cannot be installed are kept all the same; the pair is not. -/
theorem carriesOut_environment (s : Session) :
    CarriesOut (configureGiven none) s (s.currentSettings.bind pairOf) := by
  cases h : s.currentSettings with
  | error fault => exact .failed (run_bind_of_error (readSettings_run_of_error h)) rfl
  | ok given =>
      have run := run_bind_of_ok (f := configureFrom) (readSettings_run_of_ok h)
      exact (carriesOut_configureFrom given _).of_run run rfl

theorem resolve_run_of_none (nothing : s.dispatcher = none) :
    resolve.run s = (configureGiven none).run s := by
  rw [resolve, get_bind_run, nothing]
  rfl

end Actions

/-! ### What a call does -/

section Calls

variable {s : Session} {call : Call} {own : Option Dispatcher} {fault : Fault}
  {d : Dispatcher} {utc : Bool}

theorem ended_of_error {α : Type} {x : Action α} {s' : Session} (h : x.run s = (.error fault, s')) :
    ended x s = (some fault, s') := by
  rw [ended, h]
  rfl

theorem emit_of_foreign {r : Record} (foreign : r.isOwn = false) (h : Handler) (s : Session) :
    emit h r s = ended (deliver h r) s := by
  rw [emit, if_neg (by simp [foreign]), ended]
  match (deliver h r).run s with
  | (.ok n, s') => rfl
  | (.error fault, s') => rfl

theorem logAt_run_of_known {l : Logger} {level : Datum} {v : Level}
    (known : Level.ofDatum level = .ok v) (message : String) (given : FieldSource)
    (site : CallSite) (s : Session) :
    (logAt l level message given site).run s = (log l v message given site).run s := by
  rw [logAt, known]
  rfl

/-- A call that asks for a dispatcher leaves the setup as it was when the dispatcher was found. -/
theorem Call.Asks.setup_eq (asks : call.Asks own) (s : Session) :
    (call.perform s).2.setup = ((resolveOr own).run s).2.setup := by
  have blind : ∀ (s : Session) outputs, setup { s with outputs := outputs } = setup s :=
    fun _ _ => rfl
  cases asks with
  | enabled l level =>
      exact part_run_bind (fun d => (keeps_attempt _ _).bind fun v => keeps_pure _) s
  | log l known message given site =>
      rw [perform, ended, logAt_run_of_known known]
      exact part_log blind _ _ _ _ _
  | emit h foreign =>
      rw [perform, emit_of_foreign foreign]
      exact part_run_bind (fun d => keeps_get.bind fun _ => (keeps_attempt _ _).bind fun e =>
        keeps_dispatch blind d e) s

/-- A call that finds no dispatcher fails for that reason. -/
theorem Call.Asks.perform_of_error (asks : call.Asks own) {s' : Session}
    (h : (resolveOr own).run s = (.error fault, s')) : call.perform s = (some fault, s') := by
  cases asks with
  | enabled l level => exact ended_of_error (run_bind_of_error h)
  | log l known message given site =>
      refine ended_of_error ?_
      rw [logAt_run_of_known known]
      exact run_bind_of_error h
  | emit handler foreign =>
      rw [perform, emit_of_foreign foreign]
      exact ended_of_error (run_bind_of_error h)

/-- A call with a dispatcher of its own, or while one is installed, leaves the setup alone. -/
theorem Call.Asks.setup_of_some (asks : call.Asks own) (h : own.or s.dispatcher = some d) :
    (call.perform s).2.setup = s.setup := by
  rw [asks.setup_eq, resolveOr_run_of_some h]

/-- A call that attempts to install a pair runs an action for it. What is installed is then left as
it is, and a fault of the action is that of the call. Setting up does nothing else. -/
theorem Attempts.exists_carriesOut {pair : Except Fault (Dispatcher × Bool)}
    (attempt : Attempts s call pair) :
    ∃ x, CarriesOut x s pair ∧ (call.perform s).2.installation = (x.run s).2.installation ∧
      (∀ fault s', x.run s = (.error fault, s') → call.perform s = (some fault, s')) ∧
      ((∀ own, ¬ call.Asks own) → call.perform s = ended x s) := by
  cases attempt with
  | configure c utc =>
      exact ⟨_, carriesOut_configure c utc s, rfl, fun _ _ => ended_of_error, fun _ => rfl⟩
  | settings given =>
      exact ⟨_, carriesOut_configureFrom given s, rfl, fun _ _ => ended_of_error, fun _ => rfl⟩
  | environment =>
      exact ⟨_, carriesOut_environment s, rfl, fun _ _ => ended_of_error, fun _ => rfl⟩
  | firstUse asks nothing =>
      have run : (resolveOr none).run s = (configureGiven none).run s := resolve_run_of_none nothing
      refine ⟨_, (carriesOut_environment s).of_run run rfl, congrArg Prod.fst (asks.setup_eq s),
        fun _ _ => asks.perform_of_error, fun explicit => absurd asks (explicit none)⟩

theorem Attempts.installation_of_ok (attempt : Attempts s call (.ok (d, utc))) :
    (call.perform s).2.installation = (some d, utc) := by
  obtain ⟨x, carriesOut, same, -, -⟩ := attempt.exists_carriesOut
  cases carriesOut with
  | installed run pair => rw [same, run, pair]

/-- Setting up succeeds when there is a pair. -/
theorem Attempts.perform_of_ok (attempt : Attempts s call (.ok (d, utc)))
    (explicit : ∀ own, ¬ call.Asks own) : (call.perform s).1 = none := by
  obtain ⟨x, carriesOut, -, -, only⟩ := attempt.exists_carriesOut
  cases carriesOut with
  | installed run pair =>
      rw [only explicit, ended, run]
      rfl

/-- An attempt that fails leaves what is installed as it was. -/
theorem Attempts.perform_of_error (attempt : Attempts s call (.error fault)) :
    (call.perform s).1 = some fault ∧ (call.perform s).2.installation = s.installation := by
  obtain ⟨x, carriesOut, -, fails, -⟩ := attempt.exists_carriesOut
  cases carriesOut with
  | failed run same =>
      rw [fails _ _ run]
      exact ⟨rfl, same⟩

theorem Call.not_asks_configure {c : Configuration} : ¬ Call.Asks own (.configure c utc) := nofun

theorem Call.not_asks_configureFrom {given : Option Settings} :
    ¬ Call.Asks own (.configureFrom given) := nofun

theorem Attempts.unique {pair pair' : Except Fault (Dispatcher × Bool)}
    (h : Attempts s call pair) (h' : Attempts s call pair') : pair = pair' := by
  cases h with
  | configure c utc =>
      cases h' with
      | configure => rfl
      | firstUse asks => exact absurd asks Call.not_asks_configure
  | settings given =>
      cases h' with
      | settings => rfl
      | firstUse asks => exact absurd asks Call.not_asks_configureFrom
  | environment =>
      cases h' with
      | environment => rfl
      | firstUse => rfl
  | firstUse asks nothing =>
      cases h' with
      | configure => exact absurd asks Call.not_asks_configure
      | settings => exact absurd asks Call.not_asks_configureFrom
      | environment => rfl
      | firstUse => rfl

theorem Call.Asks.installation_of_quiet (asks : call.Asks own)
    (quiet : ∀ pair, ¬ Attempts s call (.ok pair)) :
    (call.perform s).2.installation = s.installation := by
  cases h : own.or s.dispatcher with
  | some d => exact congrArg Prod.fst (asks.setup_of_some h)
  | none =>
      obtain ⟨rfl, nothing⟩ := Option.or_eq_none_iff.mp h
      have attempt := Attempts.firstUse asks nothing
      cases failed : s.currentSettings.bind pairOf with
      | ok pair => exact absurd (failed ▸ attempt) (quiet pair)
      | error fault =>
          rw [failed] at attempt
          exact attempt.perform_of_error.2

/-- No other call than a reset and an attempt that succeeds does anything to what is installed. -/
theorem installation_of_quiet (noReset : call ≠ .reset)
    (quiet : ∀ pair, ¬ Attempts s call (.ok pair)) :
    (call.perform s).2.installation = s.installation := by
  have refused {pair : Except Fault (Dispatcher × Bool)} (attempt : Attempts s call pair) :
      (call.perform s).2.installation = s.installation := by
    cases pair with
    | ok pair => exact absurd attempt (quiet pair)
    | error fault => exact attempt.perform_of_error.2
  cases call with
  | configure c utc => exact refused (.configure c utc)
  | configureFrom given =>
      cases given with
      | some given => exact refused (.settings given)
      | none => exact refused .environment
  | reset => exact absurd rfl noReset
  | enabled l level => exact Call.Asks.installation_of_quiet (.enabled l level) quiet
  | log l level message given site =>
      cases known : Level.ofDatum level with
      | ok v => exact Call.Asks.installation_of_quiet (.log l known message given site) quiet
      | error cause =>
          have run : (logAt l level message given site).run s = (.error (.level cause), s) := by
            rw [logAt, known]
            rfl
          rw [Call.perform, ended_of_error run]
  | emit h r =>
      cases foreign : r.isOwn with
      | false => exact Call.Asks.installation_of_quiet (.emit h foreign) quiet
      | true => rw [Call.perform, emit, if_pos foreign]
  | setEnvironment env => rfl
  | forgetSettings => rfl

end Calls

/-! ### Rows of calls -/

section Rows

variable {start : Session} {calls : List Call} {pair pair' : Option Dispatcher × Bool}

theorem after_concat (start : Session) (calls : List Call) (call : Call) :
    after start (calls ++ [call]) = (call.perform (after start calls)).2 := by
  rw [after, List.foldl_append]
  rfl

/-- Two calls of one row are the same, or else the one comes behind the other. -/
theorem split_cases {before before' behind behind' : List Call} {call call' : Call}
    (h : before ++ call :: behind = before' ++ call' :: behind') :
    (before = before' ∧ call = call' ∧ behind = behind') ∨
      (∃ xs, behind = xs ++ call' :: behind' ∧ before' = before ++ call :: xs) ∨
        ∃ xs, behind' = xs ++ call :: behind ∧ before = before' ++ call' :: xs := by
  obtain ⟨_ | ⟨x, xs⟩, longer, rest⟩ | ⟨_ | ⟨x, xs⟩, longer, rest⟩ := List.append_eq_append_iff.mp h
  · obtain ⟨rfl, rfl⟩ := List.cons.inj rest
    exact .inl ⟨by simpa using longer.symm, rfl, rfl⟩
  · obtain ⟨rfl, rfl⟩ := List.cons.inj rest
    exact .inr (.inl ⟨xs, rfl, longer⟩)
  · obtain ⟨rfl, rfl⟩ := List.cons.inj rest
    exact .inl ⟨by simpa using longer, rfl, rfl⟩
  · obtain ⟨rfl, rfl⟩ := List.cons.inj rest
    exact .inr (.inr ⟨xs, rfl, longer⟩)

/-- A call of a row that has got one more is the last one, or was in the row before. -/
theorem split_concat {before behind : List Call} {call last : Call}
    (h : calls ++ [last] = before ++ call :: behind) :
    (before = calls ∧ call = last ∧ behind = []) ∨
      ∃ xs, behind = xs ++ [last] ∧ calls = before ++ call :: xs := by
  obtain ⟨rfl, rfl, rfl⟩ | later | ⟨xs, impossible, -⟩ := split_cases h.symm
  · exact .inl ⟨rfl, rfl, rfl⟩
  · exact .inr later
  · simp at impossible

/-- A call that neither sets a pair nor removes it does not change which pair is set. -/
theorem SetBy.concat (h : SetBy start calls pair) {call : Call} (noReset : call ≠ .reset)
    (quiet : ∀ pair, ¬ Attempts (after start calls) call (.ok pair)) :
    SetBy start (calls ++ [call]) pair := by
  cases h with
  | @last before behind setter d utc split attempt kept =>
      subst split
      refine .last (List.append_assoc before (setter :: behind) [call]) attempt ?_
      intro xs c ys split
      obtain ⟨rfl, rfl, -⟩ | ⟨zs, -, earlier⟩ := split_concat split
      · exact ⟨noReset, quiet⟩
      · exact kept xs c zs earlier
  | nothing removed =>
      refine .nothing ?_
      intro before c behind p split attempt
      obtain ⟨rfl, rfl, -⟩ | ⟨xs, rfl, earlier⟩ := split_concat split
      · exact absurd attempt (quiet p)
      · exact List.mem_append_left _ (removed before c xs p earlier attempt)

/-- What a row of calls has set is what is installed. -/
theorem setBy_installation (nothing : start.installation = (none, false)) (calls : List Call) :
    SetBy start calls (after start calls).installation := by
  -- The row grows at its end; its last call sets a pair, removes it, or leaves it alone.
  induction calls using List.reverseRecOn with
  | nil =>
      change SetBy start [] start.installation
      rw [nothing]
      refine .nothing ?_
      intro before call behind p split
      simp at split
  | append_singleton calls call ih =>
      rw [after_concat]
      by_cases success : ∃ p, Attempts (after start calls) call (.ok p)
      · obtain ⟨⟨d, utc⟩, attempt⟩ := success
        rw [attempt.installation_of_ok]
        refine .last rfl attempt ?_
        intro xs c ys split
        simp at split
      have quiet : ∀ p, ¬ Attempts (after start calls) call (.ok p) := not_exists.mp success
      by_cases removes : call = .reset
      · subst removes
        refine .nothing ?_
        intro before c behind p split attempt
        obtain ⟨rfl, rfl, -⟩ | ⟨xs, rfl, -⟩ := split_concat split
        · exact absurd attempt (quiet p)
        · exact List.mem_append_right xs List.mem_cons_self
      · rw [installation_of_quiet removes quiet]
        exact ih.concat removes quiet

theorem SetBy.not_removed {before behind : List Call} {call : Call}
    (kept : ∀ xs c ys, behind = xs ++ c :: ys →
      c ≠ .reset ∧ ∀ pair, ¬ Attempts (after start (before ++ call :: xs)) c (.ok pair)) :
    .reset ∉ behind := by
  intro removed
  obtain ⟨xs, ys, split⟩ := List.append_of_mem removed
  exact (kept xs .reset ys split).1 rfl

theorem SetBy.unique (h : SetBy start calls pair) (h' : SetBy start calls pair') :
    pair = pair' := by
  cases h with
  | last split attempt kept =>
      cases h' with
      | last split' attempt' kept' =>
          -- Of two different calls, the later one would have replaced the pair of the other.
          obtain ⟨rfl, rfl, rfl⟩ | ⟨xs, rfl, rfl⟩ | ⟨xs, rfl, rfl⟩ :=
            split_cases (split.symm.trans split')
          · obtain ⟨rfl, rfl⟩ := Prod.mk.inj (Except.ok.inj (attempt.unique attempt'))
            rfl
          · exact absurd attempt' ((kept xs _ _ rfl).2 _)
          · exact absurd attempt ((kept' xs _ _ rfl).2 _)
      | nothing removed =>
          exact absurd (removed _ _ _ _ split attempt) (SetBy.not_removed kept)
  | nothing removed =>
      cases h' with
      | last split attempt kept =>
          exact absurd (removed _ _ _ _ split attempt) (SetBy.not_removed kept)
      | nothing => rfl

/-- After every row of calls, what is installed is the pair of the last attempt that succeeded
since the last reset, if any. An attempt that succeeds installs its pair; one that fails says why
and leaves what is installed as it was. A call that has a dispatcher of its own, or finds one
installed, does not set up anything. -/
theorem installed_iff_setBy (nothing : start.installation = (none, false)) (calls : List Call) :
    (∀ pair, (after start calls).installation = pair ↔ SetBy start calls pair) ∧
    ∀ call : Call,
      (∀ d utc, Attempts (after start calls) call (.ok (d, utc)) →
        (call.perform (after start calls)).2.installation = (some d, utc) ∧
        ((∀ own, ¬ call.Asks own) → (call.perform (after start calls)).1 = none)) ∧
      (∀ fault, Attempts (after start calls) call (.error fault) →
        (call.perform (after start calls)).1 = some fault ∧
        (call.perform (after start calls)).2.installation = (after start calls).installation) ∧
      ∀ own, call.Asks own → own ≠ none ∨ (after start calls).dispatcher ≠ none →
        (call.perform (after start calls)).2.setup = (after start calls).setup := by
  have isSet := setBy_installation nothing calls
  refine ⟨fun pair => ⟨?_, ?_⟩, fun call => ⟨?_, ?_, ?_⟩⟩
  · rintro rfl
    exact isSet
  · exact isSet.unique
  · intro d utc attempt
    exact ⟨attempt.installation_of_ok, attempt.perform_of_ok⟩
  · intro fault attempt
    exact attempt.perform_of_error
  · intro own asks provided
    cases found : own.or (after start calls).dispatcher with
    | some d => exact asks.setup_of_some found
    | none =>
        obtain ⟨noOwn, noneInstalled⟩ := Option.or_eq_none_iff.mp found
        exact absurd provided (not_or.mpr ⟨not_not.mpr noOwn, not_not.mpr noneInstalled⟩)

/-- Two appenders are set up with a reset between them, and then something that is no appender: the
second appender stays, along with the zone of its clock. -/
theorem installation_after_refusal :
    installation {} = (none, false) ∧
    (after {} [.configure (.appender ⟨⟨[.token .message], "$message"⟩, .standardOutput⟩) false,
        .reset, .configure (.appender ⟨⟨[.token .target], "$target"⟩, .standardError⟩) true,
        .configure (.other (.text "stderr")) false]).installation =
      (some ⟨.single ⟨⟨[.token .target], "$target"⟩, .standardError⟩⟩, true) := by
  refine ⟨rfl, ((installed_iff_setBy rfl _).1 _).mpr ?_⟩
  refine @SetBy.last _ _ [_, .reset] _ _ _ _ rfl (.configure (.appender _) _) ?_
  intro xs c ys split
  have refused : c = .configure (.other (.text "stderr")) false := by
    obtain ⟨-, same⟩ | ⟨-, impossible⟩ := List.singleton_eq_append_iff.mp split
    · exact (List.cons.inj same).1
    · cases impossible
  subst refused
  refine ⟨nofun, fun pair attempt => ?_⟩
  exact absurd (attempt.unique (.configure _ _)) nofun

end Rows

end LogLayout.Session
