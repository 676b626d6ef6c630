import LogLayout.Logger
import LogLayout.Pattern.Compile
import LogLayout.Record
import LogLayout.Settings.Environment
import LogLayout.Span.Scope

/-!
# Sessions

What a program that logs shares between its parts: the installed dispatcher along with the zone of
its clock, the environment and the settings read from it, the active spans, and the outputs. An
action reads and changes these and may fail; what it did before it failed stays done. The dispatcher
and the zone are only ever replaced together, after everything that can fail has been done.
-/

namespace LogLayout

/-- The shared state of a program that logs. -/
structure Session where
  dispatcher : Option Dispatcher := none
  /-- Whether the clock is read in UTC. -/
  utc : Bool := false
  environment : Environment := []
  /-- The settings read last from the environment. -/
  settings : Option Settings := none
  spans : SpanContext := {}
  outputs : Outputs := .initial
  /-- The time that the clock shows. -/
  clock : Timestamp := ⟨1970, 1, 1, 0, 0, 0, 0, false⟩

namespace Session

/-- Why an action fails. -/
inductive Fault where
  /-- A thing from which no dispatcher can be made. -/
  | noDispatcher (kind : String)
  | compile (cause : CompileError)
  | settings (cause : Settings.Fault)
  | level (cause : LevelFault)
  | fields (cause : FieldFault)
  | span (cause : SpanFault)
  | template (cause : Template.Fault)
  | time (cause : TimeFault)
  | dispatch (cause : DispatchFault)

/-- The wording of a fault. -/
def Fault.message : Fault → String
  | noDispatcher kind =>
    "Cannot configure from " ++ kind ++ ": expected Dispatcher, RoutingPolicy or Appender"
  | compile cause => cause.message
  | settings cause => cause.message
  | level cause => cause.message
  | fields cause => cause.message
  | span cause => cause.message
  | template cause => cause.message
  | time cause => cause.message
  | dispatch cause => cause.message

def Fault.faultClass : Fault → FaultClass
  | noDispatcher _ => .kind
  | compile _ | settings _ => .value
  | level cause => cause.faultClass
  | fields cause => cause.faultClass
  | span cause => cause.faultClass
  | template cause => cause.faultClass
  | time cause => cause.faultClass
  | dispatch cause => cause.faultClass

/-- Something that a session can do. -/
abbrev Action (α : Type) := ExceptT Fault (StateM Session) α

/-- Fails with the fault that a computation ends in. -/
def attempt {α ε : Type} (fault : ε → Fault) (r : Except ε α) : Action α :=
  match r with
  | .ok a => pure a
  | .error e => throw (fault e)

/-! ### Configuration -/

/-- What a dispatcher can be made from. -/
inductive Configuration where
  | dispatcher (d : Dispatcher)
  | policy (p : Policy)
  | appender (a : Appender)
  | other (d : Datum)

/-- The dispatcher made from a configuration. A single appender gets every event. -/
def Configuration.dispatcher? : Configuration → Except Fault Dispatcher
  | dispatcher d => .ok d
  | policy p => .ok ⟨p⟩
  | appender a => .ok ⟨Policy.single a⟩
  | other d => .error (.noDispatcher d.kindName)

/-- Installs a dispatcher and the zone of the clock. -/
def install (d : Dispatcher) (utc : Bool) : Action Dispatcher := do
  modify fun s => { s with dispatcher := some d, utc := utc }
  return d

/-- Installs the dispatcher of a configuration. -/
def configure (c : Configuration) (utc : Bool) : Action Dispatcher := do
  install (← attempt id c.dispatcher?) utc

/-- The sink of a standard stream. -/
def sinkOf : StandardStream → SinkId
  | .error => .standardError
  | .output => .standardOutput

/-- The routes of settings: those for single targets, the longest target first, and then the one for
everything. -/
def routesOf (s : Settings) (a : Appender) : List Route :=
  let overrides := s.targets.mergeSort fun x y => y.1.length ≤ x.1.length
  overrides.map (fun (target, level) => ⟨[a], level, target⟩) ++ [⟨[a], s.level, ""⟩]

/-- The dispatcher of settings. -/
def dispatcherOf (s : Settings) : Except CompileError Dispatcher := do
  let pattern ← Pattern.compile (String.ofList [s.sigil]) s.pattern
  return ⟨.firstMatching (routesOf s ⟨pattern, sinkOf s.output⟩)⟩

/-- Installs the dispatcher of settings. -/
def configureFrom (s : Settings) : Action Dispatcher := do
  install (← attempt .compile (dispatcherOf s)) s.utc

/-- Removes the installed dispatcher. -/
def reset : Action Unit := modify fun s => { s with dispatcher := none, utc := false }

/-- The settings of the environment. They are read once and then kept. -/
def readSettings : Action Settings := do
  match (← get).settings with
  | some s => return s
  | none =>
    let s ← attempt .settings (Settings.ofSources (← get).environment [])
    modify fun session => { session with settings := some s }
    return s

/-- Forgets the settings, so that they are read anew. -/
def forgetSettings : Action Unit := modify fun s => { s with settings := none }

/-- The installed dispatcher; if there is none, that of the settings is installed. -/
def resolve : Action Dispatcher := do
  match (← get).dispatcher with
  | some d => return d
  | none => configureFrom (← readSettings)

/-- The dispatcher given, or the installed one. -/
def resolveOr : Option Dispatcher → Action Dispatcher
  | some d => pure d
  | none => resolve

/-- The time that the clock shows, in its zone. -/
def now (s : Session) : Timestamp := { s.clock with utc := s.utc }

/-! ### Spans -/

/-- Enters a scope. -/
def enter (scope : SpanScope) : Action SpanScope := do
  let (scope, spans) ← attempt .span (scope.enter (← get).spans)
  modify fun s => { s with spans := spans }
  return scope

/-- Leaves a scope. -/
def leave (scope : SpanScope) : Action SpanScope := do
  let (scope, spans) := scope.leave (← get).spans
  modify fun s => { s with spans := spans }
  return scope

/-- The scope of a span whose arguments are captured now. -/
def scopeOf (name : String) (args : FieldSource) : Action SpanScope :=
  attempt .fields (SpanScope.ofSource name args)

/-- Runs a body within a scope, which is left whether or not the body fails. -/
def block {α : Type} (scope : SpanScope) (body : Action α) : Action α := do
  let scope ← enter scope
  let outcome ← ExceptT.lift body.run
  let _ ← leave scope
  attempt id outcome

/-- The name of the span of a function: the one that is given, or that of the function if none is
given or an empty one. -/
def spanName (given : Option String) (function : String) : String :=
  match given with
  | none | some "" => function
  | some name => name

/-- Calls a function within a span of its own. The arguments of the span are captured anew in every
call. -/
def inSpan {α : Type} (given : Option String) (args : FieldSource) (function : String)
    (call : Action α) : Action α := do
  block (← scopeOf (spanName given function) args) call

/-- Runs a part of a task. Each task has active spans of its own: the part finds those that the part
before it has left, and when it is over, or fails, the active spans are again those of whoever ran
it. -/
def inTask {α : Type} (own : SpanContext) (part : Action α) : Action (α × SpanContext) := do
  let outer := (← get).spans
  modify fun s => { s with spans := own }
  let outcome ← ExceptT.lift part.run
  let own := (← get).spans
  modify fun s => { s with spans := outer }
  return (← attempt id outcome, own)

/-! ### Logging -/

/-- Delivers an event. -/
def dispatch (d : Dispatcher) (e : Event) : Action Nat := do
  let (r, outputs) := d.dispatch e (← get).outputs
  modify fun s => { s with outputs := outputs }
  attempt .dispatch r

/-- Where a call stands. -/
structure CallSite where
  file : String := ""
  line : Int := 0

/-- A logger with fields of its own. -/
def loggerOf (target : String) (fields : FieldSource) (dispatcher : Option Dispatcher) :
    Action Logger := do
  return ⟨target, ← attempt .fields (Field.ofSource fields), dispatcher⟩

/-- The logger with further fields. -/
def bind (l : Logger) (given : List (String × Datum)) : Action Logger :=
  attempt (fun cause => .fields (.numeral cause)) (l.bind given)

/-- Whether a logger's events of the level that a datum names are delivered. -/
def enabled (l : Logger) (level : Datum) : Action Bool := do
  let d ← resolveOr l.dispatcher
  return d.enabled (← attempt .level (Level.ofDatum level)) l.target

/-- Logs a message with fields at a level, within the active spans. The fields are captured only if
the event is enabled. -/
def log (l : Logger) (level : Level) (message : String) (given : FieldSource)
    (site : CallSite) : Action Unit := do
  let d ← resolveOr l.dispatcher
  if d.enabled level l.target then
    let fields ← attempt .fields (Field.ofSource given)
    let s ← get
    let _ ← dispatch d ⟨level, l.target, message, l.fields ++ fields, s.now, s.spans.arena,
      s.spans.innermost, some site.file, some site.line⟩

/-- Logs a message at the level that a datum names. -/
def logAt (l : Logger) (level : Datum) (message : String) (given : FieldSource)
    (site : CallSite) : Action Unit := do
  log l (← attempt .level (Level.ofDatum level)) message given site

/-! ### Host records -/

/-- Takes in the records of a host from a level on. -/
structure Handler where
  /-- The dispatcher to be used instead of the installed one. -/
  dispatcher : Option Dispatcher := none
  level : Int := 0
  /-- Whether times are shown in UTC. -/
  utc : Bool := false

/-- The event of a record, within the active spans. -/
def eventOf (r : Record) (utc : Bool) (spans : SpanContext) : Except Fault Event := do
  let message ← r.text.mapError .template
  let fields ← (Field.ofSource r.fields).mapError .fields
  let time ← (Timestamp.ofEpoch r.created utc).mapError .time
  return ⟨Level.ofNumber r.level, r.name, message, fields, time, spans.arena, spans.innermost,
    some r.file, some r.line⟩

/-- Delivers a record. -/
def deliver (h : Handler) (r : Record) : Action Nat := do
  let d ← resolveOr h.dispatcher
  dispatch d (← attempt id (eventOf r h.utc (← get).spans))

/-- Takes in a record. Those of the library itself are passed over. A fault does not reach the
host's call; it is the result. -/
def emit (h : Handler) (r : Record) (s : Session) : Option Fault × Session :=
  if r.isOwn then (none, s)
  else
    match (deliver h r).run s with
    | (.ok _, s) => (none, s)
    | (.error fault, s) => (some fault, s)

/-- Takes in a record from a host, which passes over those below the handler's level. -/
def handle (h : Handler) (r : Record) (s : Session) : Option Fault × Session :=
  if r.level < h.level then (none, s) else emit h r s

end Session

end LogLayout
