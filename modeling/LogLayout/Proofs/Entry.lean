import LogLayout.Proofs.Configuration
import LogLayout.Proofs.Dependence
import LogLayout.Proofs.Span.Stack

/-!
# Three ways in

An event comes to a dispatcher by a logger, by a handler that takes in the records of a host, or by
hand. The three build it on their own: the logger asks first whether it is enabled and takes the
time from the clock, the handler takes the time and the place from the record and keeps faults from
the host, and by hand everything is given.

`log_emit_dispatch_agree` says that nothing of this counts for what is written. As long as the
selected patterns show neither when nor where a call was made, the three leave the same session
behind, and the fault in which a delivery ends is the same for each of them.
-/

namespace LogLayout

/-! ### Events that were logged elsewhere -/

/-- Whether a token shows when or where a call was made. -/
def Token.showsOrigin : Token → Bool
  | datetime _ | file | line => true
  | _ => false

/-- Two events differ in nothing but when and where they were logged. -/
def Event.SameReport (e e' : Event) : Prop :=
  ∃ time file line, e' = { e with timestamp := time, file := file, line := line }

section Reports

variable {e e' : Event} {d : Dispatcher}

theorem Event.SameReport.agree (same : e.SameReport e') {t : Token}
    (blind : t.showsOrigin = false) : t.Agree e e' := by
  obtain ⟨time, file, line, rfl⟩ := same
  cases t with
  | datetime format => cases blind
  | file => cases blind
  | line => cases blind
  | span o => exact Frame.agree_self o.args e.spanChain
  | text value => trivial
  | _ => rfl

theorem Dispatcher.deliver_congr {appenders : List Appender}
    (h : ∀ a ∈ appenders, a.pattern.render e' = a.pattern.render e) (written : Nat)
    (out : Outputs) : deliver e' written out appenders = deliver e written out appenders := by
  induction appenders generalizing written out with
  | nil => rfl
  | cons a rest ih =>
      obtain ⟨first, others⟩ := List.forall_mem_cons.mp h
      simp only [deliver, first, ih others]

/-- Events of the same report are delivered alike where their origin is not shown. -/
theorem Dispatcher.dispatch_congr (same : e.SameReport e')
    (blind : ∀ a ∈ d.policy.appendersFor e.level e.target, ∀ t ∈ a.pattern.tokens,
      t.showsOrigin = false) (out : Outputs) : d.dispatch e' out = d.dispatch e out := by
  have texts : ∀ a ∈ d.policy.appendersFor e.level e.target,
      a.pattern.render e' = a.pattern.render e :=
    fun a mem => Pattern.render_eq_of_agree fun t shown => same.agree (blind a mem t shown)
  obtain ⟨time, file, line, rfl⟩ := same
  rw [dispatch, dispatch, deliver_congr texts]

end Reports

namespace Session

/-- The fault of an action for which no event can be built. -/
def Fault.ofEvent : EventFault → Fault
  | .level cause => level cause
  | .fields cause => fields cause
  | .span cause => span cause

/-- Builds an event within the active spans, and delivers it. -/
def dispatchWithin (d : Dispatcher) (details : Event.Details) : Action Nat := do
  let s ← get
  dispatch d (← attempt .ofEvent (Event.within details s.spans.arena s.spans.innermost))

/-- A record of a host reports the same as details do: it has their message as it stands and their
fields, and its level number is the given one. It does not come from the library itself. -/
structure Reports (r : Record) (n : Int) (details : Event.Details) : Prop where
  name : r.name = details.target
  message : r.message = .text details.message
  args : r.args = []
  level : r.level = n
  fields : r.fields = details.fields
  error : r.error = none
  foreign : r.isOwn = false

section Ways

variable {s : Session} {d : Dispatcher} {e e' : Event} {l : Logger} {h : Handler} {r : Record}
  {n : Int} {details : Event.Details} {cause : FieldFault} {fields : List Field}
  {time : Timestamp} {utc : Bool}

theorem dispatch_run (d : Dispatcher) (e : Event) (s : Session) :
    (dispatch d e).run s =
      ((d.dispatch e s.outputs).1.mapError .dispatch,
        { s with outputs := (d.dispatch e s.outputs).2 }) := by
  rw [dispatch, get_bind_run]
  match d.dispatch e s.outputs with
  | (.ok count, outputs) => rfl
  | (.error fault, outputs) => rfl

theorem dispatch_run_congr (same : d.dispatch e' s.outputs = d.dispatch e s.outputs) :
    (dispatch d e').run s = (dispatch d e).run s := by
  rw [dispatch_run, dispatch_run, same]

/-! ### By hand -/

/-- The event that details give within the active spans. -/
def eventOfDetails (s : Session) (n : Int) (details : Event.Details) (fields : List Field) :
    Event :=
  ⟨.ofNumber n, details.target, details.message, fields, details.timestamp, s.spans.arena,
    s.spans.innermost, details.file, details.line⟩

theorem dispatchWithin_run_of_ok (sound : s.spans.Sound)
    (levelled : details.level = .level (.ofNumber n))
    (captured : Field.ofSource details.fields = .ok fields) :
    (dispatchWithin d details).run s = (dispatch d (s.eventOfDetails n details fields)).run s := by
  have known : Level.ofDatum details.level = .ok (.ofNumber n) := by rw [levelled, Level.ofDatum]
  have built : Event.within details s.spans.arena s.spans.innermost =
      .ok (s.eventOfDetails n details fields) :=
    Event.within_eq_ok_iff.mpr ⟨_, known, fields, captured, sound, rfl⟩
  rw [dispatchWithin, get_bind_run, attempt_bind_run_of_ok built]

theorem dispatchWithin_run_of_error (levelled : details.level = .level (.ofNumber n))
    (refused : Field.ofSource details.fields = .error cause) :
    (dispatchWithin d details).run s = (.error (.fields cause), s) := by
  have failed : Event.within details s.spans.arena s.spans.innermost = .error (.fields cause) := by
    rw [Event.within, levelled, refused]
    rfl
  rw [dispatchWithin, get_bind_run, attempt_bind_run_of_error failed, Fault.ofEvent]

/-! ### By a logger -/

/-- A call of a logger that is ready delivers its event, and does not hand on to how many. -/
theorem log_run_eq_of_ready {level : Level} {given : FieldSource}
    (ready : Ready s l level given d fields s) (message : String) (site : CallSite) :
    (log l level message given site).run s =
      (((dispatch d (s.eventFor l level message fields site)).run s).1.map fun _ => (),
        ((dispatch d (s.eventFor l level message fields site)).run s).2) := by
  rw [log_run_of_ready ready]
  match delivered : (dispatch d (s.eventFor l level message fields site)).run s with
  | (.ok count, s') => exact run_bind_of_ok delivered
  | (.error fault, s') => exact run_bind_of_error delivered

theorem log_run_of_disabled {level : Level} (resolved : l.dispatcher.or s.dispatcher = some d)
    (disabled : d.enabled level l.target = false) (message : String) (given : FieldSource)
    (site : CallSite) : (log l level message given site).run s = (.ok (), s) := by
  rw [log, run_bind_of_ok (resolveOr_run_of_some resolved), disabled]
  rfl

theorem log_run_of_refused {level : Level} {given : FieldSource}
    (resolved : l.dispatcher.or s.dispatcher = some d) (enabled : d.enabled level l.target = true)
    (refused : Field.ofSource given = .error cause) (message : String) (site : CallSite) :
    (log l level message given site).run s = (.error (.fields cause), s) := by
  rw [log, run_bind_of_ok (resolveOr_run_of_some resolved), if_pos enabled,
    attempt_bind_run_of_error refused]

/-! ### By a record -/

theorem Reports.text_eq (reports : Reports r n details) : r.text = .ok details.message := by
  rw [Record.text, reports.message, reports.args, reports.error]
  rfl

theorem Reports.eventOf_eq (reports : Reports r n details)
    (captured : Field.ofSource details.fields = .ok fields)
    (told : Timestamp.ofEpoch r.created utc = .ok time) (c : SpanContext) :
    eventOf r utc c = .ok ⟨.ofNumber n, details.target, details.message, fields, time, c.arena,
      c.innermost, some r.file, some r.line⟩ := by
  rw [eventOf, reports.text_eq, reports.fields, captured, told, reports.level, reports.name]
  rfl

theorem Reports.eventOf_eq_error (reports : Reports r n details)
    (refused : Field.ofSource details.fields = .error cause) (c : SpanContext) :
    eventOf r utc c = .error (.fields cause) := by
  rw [eventOf, reports.text_eq, reports.fields, refused]
  rfl

theorem deliver_run_of_ok (resolved : h.dispatcher.or s.dispatcher = some d)
    (built : eventOf r h.utc s.spans = .ok e) :
    (deliver h r).run s = (dispatch d e).run s := by
  rw [deliver, run_bind_of_ok (resolveOr_run_of_some resolved), get_bind_run,
    attempt_bind_run_of_ok built]

theorem deliver_run_of_error {fault : Fault} (resolved : h.dispatcher.or s.dispatcher = some d)
    (failed : eventOf r h.utc s.spans = .error fault) :
    (deliver h r).run s = (.error fault, s) := by
  rw [deliver, run_bind_of_ok (resolveOr_run_of_some resolved), get_bind_run,
    attempt_bind_run_of_error failed, id]

/-! ### All three -/

/-- The selected appenders do not show when or where the details of a call were given. -/
def Blind (d : Dispatcher) (n : Int) (target : String) : Prop :=
  ∀ a ∈ d.policy.appendersFor (.ofNumber n) target, ∀ t ∈ a.pattern.tokens, t.showsOrigin = false

/-- Where its origin does not show, an event of the same report is delivered as the one by hand. -/
theorem dispatchWithin_run_eq (sound : s.spans.Sound)
    (levelled : details.level = .level (.ofNumber n)) (blind : Blind d n details.target)
    (captured : Field.ofSource details.fields = .ok fields)
    (same : (s.eventOfDetails n details fields).SameReport e) :
    (dispatchWithin d details).run s = (dispatch d e).run s := by
  rw [dispatchWithin_run_of_ok sound levelled captured]
  exact (dispatch_run_congr (Dispatcher.dispatch_congr same blind _)).symm

/-- A logger does what is done by hand, but does not look at the fields of an event that is not
enabled. -/
theorem log_run_eq_dispatchWithin (sound : s.spans.Sound) (plain : l.fields = [])
    (logs : l.dispatcher.or s.dispatcher = some d)
    (levelled : details.level = .level (.ofNumber n)) (target : l.target = details.target)
    (blind : Blind d n details.target) (site : CallSite) :
    (log l (.ofNumber n) details.message details.fields site).run s =
      (if d.enabled (.ofNumber n) l.target = true then
          ((dispatchWithin d details).run s).1.map fun _ => ()
        else .ok (),
        ((dispatchWithin d details).run s).2) := by
  by_cases enabled : d.enabled (.ofNumber n) l.target = true
  · rw [if_pos enabled]
    cases captured : Field.ofSource details.fields with
    | error cause =>
        rw [log_run_of_refused logs enabled captured, dispatchWithin_run_of_error levelled captured]
        rfl
    | ok fields =>
        have ready : Ready s l (.ofNumber n) details.fields d fields s :=
          ⟨resolveOr_run_of_some logs, enabled, captured⟩
        have same : (s.eventOfDetails n details fields).SameReport
            (s.eventFor l (.ofNumber n) details.message fields site) := by
          refine ⟨s.now, some site.file, some site.line, ?_⟩
          rw [eventFor, plain, target]
          rfl
        rw [log_run_eq_of_ready ready,
          dispatchWithin_run_eq sound levelled blind captured same]
  · rw [if_neg enabled, log_run_of_disabled logs (Bool.eq_false_iff.mpr enabled)]
    cases captured : Field.ofSource details.fields with
    | error cause => rw [dispatchWithin_run_of_error levelled captured]
    | ok fields =>
        have disabled : ¬ d.enabled (.ofNumber n) details.target = true := by rwa [← target]
        rw [dispatchWithin_run_of_ok sound levelled captured, dispatch_run, Dispatcher.dispatch,
          eventOfDetails, if_neg disabled]

/-- A handler does what is done by hand, and gives the fault back. -/
theorem emit_eq_dispatchWithin (sound : s.spans.Sound)
    (takes : h.dispatcher.or s.dispatcher = some d)
    (levelled : details.level = .level (.ofNumber n)) (blind : Blind d n details.target)
    (reports : Reports r n details) (told : ∃ time, Timestamp.ofEpoch r.created h.utc = .ok time) :
    emit h r s = ended (dispatchWithin d details) s := by
  obtain ⟨time, told⟩ := told
  rw [emit_of_foreign reports.foreign, ended, ended]
  cases captured : Field.ofSource details.fields with
  | error cause =>
      rw [dispatchWithin_run_of_error levelled captured,
        deliver_run_of_error takes (reports.eventOf_eq_error captured _)]
  | ok fields =>
      have same := dispatchWithin_run_eq (d := d) sound levelled blind captured
        ⟨time, some r.file, some r.line, rfl⟩
      rw [same, deliver_run_of_ok takes (reports.eventOf_eq captured told _)]
      rfl

/-- A call of a logger, a record of a host that reports the same, and the dispatch of the same
details by hand leave the same session behind, outputs and all, if the selected patterns do not show
when or where a call was made. A fault in which this ends is raised by the logger and by the
dispatch, and the handler gives it back. Only the logger does not look at the fields of an event
that is not enabled. -/
theorem log_emit_dispatch_agree (sound : s.spans.Sound) (plain : l.fields = [])
    (logs : l.dispatcher.or s.dispatcher = some d) (takes : h.dispatcher.or s.dispatcher = some d)
    (levelled : details.level = .level (.ofNumber n)) (target : l.target = details.target)
    (reports : Reports r n details) (told : ∃ time, Timestamp.ofEpoch r.created h.utc = .ok time)
    (blind : Blind d n details.target) (site : CallSite) :
    (logAt l (.int n) details.message details.fields site).run s =
        (if d.enabled (.ofNumber n) l.target = true then
            ((dispatchWithin d details).run s).1.map fun _ => ()
          else .ok (),
          ((dispatchWithin d details).run s).2) ∧
      emit h r s = ended (dispatchWithin d details) s := by
  have known : Level.ofDatum (.int n) = .ok (.ofNumber n) := by rw [Level.ofDatum]
  rw [logAt_run_of_known known]
  exact ⟨log_run_eq_dispatchWithin sound plain logs levelled target blind site,
    emit_eq_dispatchWithin sound takes levelled blind reports told⟩

end Ways

/-! ### A sink without room -/

namespace FullSink

/-- Three appenders, the second of which writes to a sink that has no room. -/
def dispatcher : Dispatcher :=
  let pattern : Pattern := ⟨[.token (.level {}), .literal " ", .token .target,
    .token (.span (SpanOptions.mk "<" ">" false "" "" none)), .literal ": ", .token .message,
    .literal " ", .token (.fields {})], ""⟩
  ⟨.allMatching [⟨[⟨pattern, .named "a"⟩, ⟨pattern, .named "b"⟩, ⟨pattern, .named "a"⟩], .info,
    "app"⟩]⟩

/-- The dispatcher is installed, and a span is active. -/
def session : Session where
  dispatcher := some dispatcher
  spans := SpanContext.within {} "request" []
  outputs := Outputs.initial.place (.named "a") (.memory [])

def details : Event.Details where
  level := .level .warn
  target := "app"
  message := "slow"
  fields := .datum (.dictionary [(.text "cached", .bool true)])
  timestamp := session.now

def record : Record where
  name := "app"
  message := .text "slow"
  level := 31
  fields := details.fields
  created := .zero false
  file := "app.c"
  line := 3

theorem exists_ofEpoch_created : ∃ time, Timestamp.ofEpoch record.created true = .ok time := by
  have found : Outcome.isOk (Timestamp.ofEpoch record.created true) = true := by decide +kernel
  match told : Timestamp.ofEpoch record.created true with
  | .ok time => exact ⟨time, rfl⟩
  | .error fault => exact absurd (told ▸ found) nofun

theorem blind : Blind dispatcher 31 "app" := by
  unfold Blind
  decide

/-- The first appender gets the text by each of the three ways, and the third does not. -/
theorem log_emit_dispatch_agree_full_sink :
    ∃ s', s'.outputs.journal = [(.named "a", "WARN app<request>: slow cached=true")] ∧
      (dispatchWithin dispatcher details).run session = (.error (.dispatch (.write {})), s') ∧
      (logAt { target := "app" } (.int 31) "slow" details.fields {}).run session =
        (.error (.dispatch (.write {})), s') ∧
      emit { utc := true } record session = (some (.dispatch (.write {})), s') := by
  have reports : Reports record 31 details := ⟨rfl, rfl, rfl, rfl, rfl, rfl, by decide⟩
  have run : ((dispatchWithin dispatcher details).run session).1 =
    .error (.dispatch (.write {})) := rfl
  obtain ⟨logged, emitted⟩ := log_emit_dispatch_agree (s := session) (l := { target := "app" })
    (h := { utc := true }) (SpanContext.sound_within _ _) rfl rfl rfl rfl rfl reports
    exists_ofEpoch_created blind {}
  refine ⟨((dispatchWithin dispatcher details).run session).2, rfl, Prod.ext run rfl, ?_, ?_⟩
  · refine logged.trans ?_
    rw [run]
    rfl
  · rw [emitted, ended, run]
    rfl

end FullSink

end Session

end LogLayout
