import LogLayout.Session

/-!
# Sessions step by step

How the actions of a session run: what follows a success and what follows a fault, which parts of
the session an action leaves as they are (`Keeps`), and what entering and leaving a scope, a block
within a scope, a part of a task, and a call of a logger come to.
-/

namespace LogLayout

namespace Session

variable {α β γ : Type} {s s' : Session} {x : Action α} {f : α → Action β} {part : Session → γ}

theorem run_bind_of_ok {a : α} (h : x.run s = (.ok a, s')) : (x >>= f).run s = (f a).run s' := by
  change (match x.run s with | (r, s') => ExceptT.bindCont f r s') = _
  rw [h]
  rfl

theorem run_bind_of_error {fault : Fault} (h : x.run s = (.error fault, s')) :
    (x >>= f).run s = (.error fault, s') := by
  change (match x.run s with | (r, s') => ExceptT.bindCont f r s') = _
  rw [h]
  rfl

theorem get_bind_run (f : Session → Action β) (s : Session) : (get >>= f).run s = (f s).run s :=
  run_bind_of_ok rfl

/-- An action whose outcome is looked at does not fail. -/
theorem lift_run (x : Action α) (s : Session) :
    (ExceptT.lift x.run : Action (Except Fault α)).run s = (.ok (x.run s).1, (x.run s).2) := rfl

theorem attempt_bind_run_of_ok {ε : Type} {r : Except ε α} {a : α} (h : r = .ok a)
    (fault : ε → Fault) (f : α → Action β) (s : Session) :
    (attempt fault r >>= f).run s = (f a).run s := by
  rw [h]
  exact run_bind_of_ok rfl

theorem attempt_bind_run_of_error {ε : Type} {r : Except ε α} {cause : ε} (h : r = .error cause)
    (fault : ε → Fault) (f : α → Action β) (s : Session) :
    (attempt fault r >>= f).run s = (.error (fault cause), s) := by
  rw [h]
  exact run_bind_of_error rfl

/-- Whether it succeeds or fails, an action leaves a part of the session as it is. -/
def Keeps (part : Session → γ) (x : Action α) : Prop := ∀ s, part (x.run s).2 = part s

/-- What is done after an action does not count for a part of the session that it keeps. -/
theorem part_run_bind (next : ∀ a, Keeps part (f a)) (s : Session) :
    part ((x >>= f).run s).2 = part (x.run s).2 := by
  match h : x.run s with
  | (.ok a, s') => rw [run_bind_of_ok h, next a s']
  | (.error fault, s') => rw [run_bind_of_error h]

theorem Keeps.bind (first : Keeps part x) (next : ∀ a, Keeps part (f a)) :
    Keeps part (x >>= f) :=
  fun s => (part_run_bind next s).trans (first s)

theorem keeps_pure (a : α) : Keeps part (pure a) := fun _ => rfl

theorem keeps_get : Keeps part get := fun _ => rfl

theorem keeps_attempt {ε : Type} (fault : ε → Fault) (r : Except ε α) :
    Keeps part (attempt fault r) := by
  cases r <;> exact fun _ => rfl

/-- What events are logged within, and where they go. -/
def scene (s : Session) : SpanContext × Outputs := (s.spans, s.outputs)

theorem keeps_install (d : Dispatcher) (utc : Bool) : Keeps scene (install d utc) := fun _ => rfl

theorem keeps_readSettings : Keeps scene readSettings := by
  refine keeps_get.bind fun s => ?_
  cases s.settings with
  | some settings => exact keeps_pure settings
  | none =>
      exact keeps_get.bind fun s => (keeps_attempt _ _).bind fun settings => fun _ => rfl

theorem keeps_configureFrom (settings : Settings) : Keeps scene (configureFrom settings) :=
  (keeps_attempt _ _).bind fun d => keeps_install d settings.utc

/-- Looking for a dispatcher writes nothing and keeps the active spans. -/
theorem keeps_resolveOr (given : Option Dispatcher) : Keeps scene (resolveOr given) := by
  cases given with
  | some d => exact keeps_pure d
  | none =>
      refine keeps_get.bind fun s => ?_
      cases s.dispatcher with
      | some d => exact keeps_pure d
      | none => exact keeps_readSettings.bind keeps_configureFrom

/-- A dispatcher of one's own, or else the installed one, is found without further ado. -/
theorem resolveOr_run_of_some {own : Option Dispatcher} {d : Dispatcher}
    (h : own.or s.dispatcher = some d) : (resolveOr own).run s = (.ok d, s) := by
  cases own with
  | some e =>
      obtain rfl := Option.some.inj h
      rfl
  | none =>
      have installed : s.dispatcher = some d := h
      rw [resolveOr, resolve, get_bind_run, installed]
      rfl

theorem Keeps.spans (h : Keeps scene x) : Keeps Session.spans x :=
  fun s => congrArg Prod.fst (h s)

/-- Delivering an event keeps whatever does not depend on the outputs. -/
theorem keeps_dispatch (blind : ∀ s outputs, part { s with outputs := outputs } = part s)
    (d : Dispatcher) (e : Event) : Keeps part (dispatch d e) :=
  keeps_get.bind fun _ => .bind (fun s => blind s _) fun _ => keeps_attempt _ _

/-- Such a part is after a call of a logger as it was when the dispatcher had been found. -/
theorem part_log (blind : ∀ s outputs, part { s with outputs := outputs } = part s) (l : Logger)
    (level : Level) (message : String) (given : FieldSource) (site : CallSite) :
    part ((log l level message given site).run s).2 = part ((resolveOr l.dispatcher).run s).2 := by
  refine part_run_bind (fun d => ?_) s
  by_cases enabled : d.enabled level l.target = true
  · rw [if_pos enabled]
    exact (keeps_attempt _ _).bind fun fields => keeps_get.bind fun s =>
      (keeps_dispatch blind _ _).bind fun _ => keeps_pure ()
  · rw [if_neg enabled]
    exact keeps_pure ()

theorem keeps_log (l : Logger) (level : Level) (message : String) (given : FieldSource)
    (site : CallSite) : Keeps Session.spans (log l level message given site) :=
  fun s => (part_log (fun _ _ => rfl) l level message given site).trans
    ((keeps_resolveOr l.dispatcher).spans s)

/-- Logging keeps the active spans. -/
theorem keeps_logAt (l : Logger) (level : Datum) (message : String) (given : FieldSource)
    (site : CallSite) : Keeps Session.spans (logAt l level message given site) :=
  (keeps_attempt _ _).bind fun level => keeps_log l level message given site

/-! ### Scopes -/

section Scopes

variable {scope scope' : SpanScope} {c : SpanContext}

theorem enter_run_of_ok (h : scope.enter s.spans = .ok (scope', c)) :
    (enter scope).run s = (.ok scope', { s with spans := c }) := by
  rw [enter, get_bind_run, h]
  rfl

theorem leave_run :
    (leave scope).run s =
      (.ok (scope.leave s.spans).1, { s with spans := (scope.leave s.spans).2 }) := rfl

theorem leave_run_of_restore (remembers : scope.restore = some c) :
    (leave scope).run s = (.ok { scope with restore := none }, { s with spans := c }) := by
  rw [leave_run, SpanScope.leave, remembers]

/-- A block passes on the outcome of its body and brings back the spans that it found. -/
theorem block_run_of_enter (entered : (enter scope).run s = (.ok scope', s'))
    (remembers : scope'.restore = some s.spans) (body : Action α) :
    (block scope body).run s = ((body.run s').1, { (body.run s').2 with spans := s.spans }) := by
  rw [block, run_bind_of_ok entered, run_bind_of_ok (lift_run body s'),
    run_bind_of_ok (leave_run_of_restore remembers)]
  cases (body.run s').1 <;> rfl

/-- What a part of a task does to the active spans stays in the task. All else is as if the part had
been run with these spans. -/
theorem inTask_run (own : SpanContext) (part : Action α) (s : Session) :
    (inTask own part).run s =
      let (outcome, s') := part.run { s with spans := own }
      (outcome.map fun a => (a, s'.spans), { s' with spans := s.spans }) := by
  have switched : (modify fun s => { s with spans := own } : Action Unit).run s =
    (.ok (), { s with spans := own }) := rfl
  match ran : part.run { s with spans := own } with
  | (outcome, s') =>
      have observed := lift_run part { s with spans := own }
      rw [ran] at observed
      rw [inTask, get_bind_run, run_bind_of_ok switched, run_bind_of_ok observed, get_bind_run]
      cases outcome <;> rfl

end Scopes

/-! ### Calls of loggers -/

/-- The event of a call of a logger. -/
def eventFor (s : Session) (l : Logger) (level : Level) (message : String) (fields : List Field)
    (site : CallSite) : Event :=
  ⟨level, l.target, message, l.fields ++ fields, s.now, s.spans.arena, s.spans.innermost,
    some site.file, some site.line⟩

/-- A call of a logger comes to the point where it hands over its event. -/
structure Ready (s : Session) (l : Logger) (level : Level) (given : FieldSource) (d : Dispatcher)
    (fields : List Field) (s' : Session) : Prop where
  resolved : (resolveOr l.dispatcher).run s = (.ok d, s')
  enabled : d.enabled level l.target = true
  captured : Field.ofSource given = .ok fields

variable {l : Logger} {level : Level} {given : FieldSource} {d : Dispatcher} {fields : List Field}

theorem Ready.spans_eq (ready : Ready s l level given d fields s') : s'.spans = s.spans := by
  have kept := (keeps_resolveOr l.dispatcher).spans s
  rwa [ready.resolved] at kept

/-- The rest of a call that is ready is the dispatch of its event. -/
theorem log_run_of_ready (ready : Ready s l level given d fields s') (message : String)
    (site : CallSite) :
    (log l level message given site).run s =
      (do let _ ← dispatch d (s'.eventFor l level message fields site) : Action Unit).run s' := by
  rw [log, run_bind_of_ok ready.resolved, if_pos ready.enabled,
    attempt_bind_run_of_ok ready.captured, get_bind_run]
  rfl

/-- A call that does not get ready writes nothing. -/
theorem log_run_of_not_ready
    (notReady : ∀ d fields s', ¬ Ready s l level given d fields s') (message : String)
    (site : CallSite) : scene ((log l level message given site).run s).2 = scene s := by
  have kept := keeps_resolveOr l.dispatcher s
  match resolved : (resolveOr l.dispatcher).run s with
  | (.error fault, s') =>
      rw [resolved] at kept
      rw [log, run_bind_of_error resolved, kept]
  | (.ok d, s') =>
      rw [resolved] at kept
      rw [log, run_bind_of_ok resolved]
      by_cases enabled : d.enabled level l.target = true
      · rw [if_pos enabled]
        cases captured : Field.ofSource given with
        | error cause => exact kept
        | ok fields => exact absurd ⟨resolved, enabled, captured⟩ (notReady d fields s')
      · rw [if_neg enabled]
        exact kept

end Session

end LogLayout
