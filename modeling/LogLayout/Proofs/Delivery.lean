import LogLayout.Dispatch
import LogLayout.Proofs.Rendering

/-!
# What a dispatcher delivers

A delivery is an event that an appender got, along with its text by the appender's own pattern. A
log lists the deliveries of a run of calls in order, and `Outputs.After` says what the sinks hold
after a log: what they held at the start, followed by the texts that the log brings to each of them.
A call hands its event to the selected appenders up to the first one that misses it, since the event
has no text by its pattern or its sink has no room left after the deliveries so far (`Delivers`).

`Dispatcher.dispatchAll_delivers` says that every run of calls comes to such a log. So no delivery
is lost, made twice or moved, and a sink that no delivery went to is left alone.
-/

namespace LogLayout

/-- An event that an appender got. -/
structure Delivery where
  event : Event
  appender : Appender
  text : String
  /-- The text is the one by the appender's own pattern. -/
  rendered : appender.pattern.render event = .ok text

/-- The texts that deliveries bring to a sink, in order. -/
def textsTo (id : SinkId) (log : List Delivery) : List String :=
  (log.filter fun x => x.appender.sink = id).map Delivery.text

section Texts

variable {id : SinkId} {log : List Delivery} {x : Delivery}

@[simp] theorem textsTo_nil : textsTo id [] = [] := rfl

@[simp] theorem textsTo_append (further : List Delivery) :
    textsTo id (log ++ further) = textsTo id log ++ textsTo id further := by
  simp [textsTo]

theorem textsTo_own : textsTo x.appender.sink [x] = [x.text] := by
  simp [textsTo]

theorem textsTo_other (h : ∀ x ∈ log, x.appender.sink ≠ id) : textsTo id log = [] := by
  simpa [textsTo] using h

end Texts

/-! ### Sinks after deliveries -/

namespace Sink

/-- Whether a sink takes one more text after a number of others. -/
def hasRoomAfter (count : Nat) : Sink → Bool
  | limited room => count < room
  | _ => true

/-- What a sink holds after texts that it had room for. -/
def after (texts : List String) : Sink → Sink
  | memory lines => memory (lines ++ texts)
  | stream terminator content =>
    stream terminator (content ++ String.join (texts.map fun text => text ++ terminator))
  | limited room => limited (room - texts.length)

@[simp] theorem after_nil (s : Sink) : s.after [] = s := by
  cases s <;> simp [after]

/-- A text is taken when there is room after the texts before it. -/
theorem take_after (s : Sink) (texts : List String) (text : String) :
    (s.after texts).take text =
      if s.hasRoomAfter texts.length then .ok (s.after (texts ++ [text])) else .error {} := by
  cases s with
  | memory lines => simp [after, take, hasRoomAfter]
  | stream terminator content => simp [after, take, hasRoomAfter, String.append_assoc]
  | limited room =>
      simp only [after, hasRoomAfter, decide_eq_true_eq, List.length_append, List.length_singleton]
      split
      · next inside =>
          obtain ⟨left, hleft⟩ : ∃ left, room - texts.length = left + 1 :=
            Nat.exists_eq_add_one.mpr (by omega)
          rw [hleft, take]
          congr 2
          omega
      · next outside =>
          have none : room - texts.length = 0 := by omega
          rw [none, take]

end Sink

namespace Outputs

variable {start out : Outputs} {log : List Delivery} {id : SinkId}

/-- The outputs after the deliveries of a log. -/
structure After (start : Outputs) (log : List Delivery) (out : Outputs) : Prop where
  holds : ∀ id, out.holds id = (start.holds id).after (textsTo id log)
  journal : out.journal = start.journal ++ log.map fun x => (x.appender.sink, x.text)

/-- Whether a sink takes one more text after the deliveries of a log. -/
def hasRoom (start : Outputs) (log : List Delivery) (id : SinkId) : Bool :=
  (start.holds id).hasRoomAfter (textsTo id log).length

theorem After.refl (start : Outputs) : start.After [] start :=
  ⟨by simp, by simp⟩

/-- Further deliveries leave a sink alone that none of them goes to. -/
theorem After.holds_of_other {further : List Delivery} {out' : Outputs} (h : start.After log out)
    (h' : start.After (log ++ further) out') (other : ∀ x ∈ further, x.appender.sink ≠ id) :
    out'.holds id = out.holds id := by
  rw [h'.holds, h.holds, textsTo_append, textsTo_other other, List.append_nil]

theorem After.write_of_hasRoom (h : start.After log out) {x : Delivery}
    (room : start.hasRoom log x.appender.sink = true) :
    ∃ out', out.write x.appender.sink x.text = .ok out' ∧ start.After (log ++ [x]) out' := by
  have taken : (out.holds x.appender.sink).take x.text =
      .ok ((start.holds x.appender.sink).after (textsTo x.appender.sink log ++ [x.text])) := by
    rw [hasRoom] at room
    rw [h.holds, Sink.take_after, if_pos room]
  refine ⟨_, by rw [write, taken], ?_, ?_⟩
  · intro id
    rw [textsTo_append]
    by_cases own : id = x.appender.sink
    · subst own
      rw [textsTo_own]
      exact holds_place out x.appender.sink _
    · have other : ∀ y ∈ [x], y.appender.sink ≠ id := by simpa using Ne.symm own
      rw [textsTo_other other, List.append_nil, ← h.holds]
      exact holds_place_of_ne out _ own
  · simp [h.journal]

theorem After.write_of_full (h : start.After log out) (full : start.hasRoom log id = false)
    (text : String) : out.write id text = .error {} := by
  have refused : (out.holds id).take text = .error {} := by
    rw [h.holds, Sink.take_after, ← hasRoom, full]
    rfl
  rw [write, refused]

end Outputs

/-! ### One call -/

section Calls

variable {start out : Outputs} {log done : List Delivery} {e : Event} {a : Appender}
  {appenders : List Appender} {outcome : Except DispatchFault Nat}

/-- After the deliveries of a log, an appender does not get an event, and why. -/
inductive Misses (start : Outputs) (log : List Delivery) (e : Event) (a : Appender) :
    DispatchFault → Prop
  /-- The event has no text by the appender's pattern. -/
  | text {cause : Numeral.TooLong} (h : a.pattern.render e = .error cause) :
      Misses start log e a (.numeral cause)
  /-- The sink refuses the text. -/
  | write {text : String} {cause : WriteFault} (h : a.pattern.render e = .ok text)
      (full : start.hasRoom log a.sink = false) : Misses start log e a (.write cause)

/-- Deliveries of an event that follow a log, each to a sink that has room for it. -/
structure Fits (start : Outputs) (log : List Delivery) (e : Event) (done : List Delivery) :
    Prop where
  event : ∀ x ∈ done, x.event = e
  room : ∀ xs x ys, done = xs ++ x :: ys → start.hasRoom (log ++ xs) x.appender.sink = true

/-- The deliveries of a call that follows a log, and its outcome: every selected appender gets the
event, once for each time it is selected, and these are counted; or those before the first one that
misses it get it, and what went wrong there is the outcome. -/
inductive Delivers (start : Outputs) (log : List Delivery) (e : Event) (selected : List Appender) :
    List Delivery → Except DispatchFault Nat → Prop
  | all {done : List Delivery} (fits : Fits start log e done)
      (everyone : done.map Delivery.appender = selected) :
      Delivers start log e selected done (.ok done.length)
  | upTo {done : List Delivery} {a : Appender} {rest : List Appender} {fault : DispatchFault}
      (fits : Fits start log e done)
      (split : selected = done.map Delivery.appender ++ a :: rest)
      (misses : Misses start (log ++ done) e a fault) :
      Delivers start log e selected done (.error fault)

theorem Fits.nil : Fits start log e [] :=
  ⟨by simp, by simp⟩

theorem Fits.cons {x : Delivery} (event : x.event = e)
    (room : start.hasRoom log x.appender.sink = true) (h : Fits start (log ++ [x]) e done) :
    Fits start log e (x :: done) := by
  refine ⟨List.forall_mem_cons.mpr ⟨event, h.event⟩, ?_⟩
  intro xs y ys split
  cases xs with
  | nil =>
      obtain ⟨rfl, -⟩ := List.cons.inj split
      rw [List.append_nil]
      exact room
  | cons z xs =>
      obtain ⟨rfl, behind⟩ := List.cons.inj split
      have later := h.room xs y ys behind
      rwa [List.append_assoc] at later

/-- A delivery in front of those of a call. -/
theorem Delivers.cons {x : Delivery} (event : x.event = e)
    (room : start.hasRoom log x.appender.sink = true)
    (h : Delivers start (log ++ [x]) e appenders done outcome) :
    Delivers start log e (x.appender :: appenders) (x :: done) (outcome.map (· + 1)) := by
  cases h with
  | all fits everyone =>
      exact .all (fits.cons event room) (by rw [List.map_cons, everyone])
  | upTo fits split misses =>
      refine .upTo (fits.cons event room) (by rw [List.map_cons, split]; rfl) ?_
      rwa [List.append_assoc] at misses

namespace Dispatcher

variable {rest : List Appender} {written : Nat} {text : String}

theorem deliver_of_no_text {cause : Numeral.TooLong} (h : a.pattern.render e = .error cause) :
    deliver e written out (a :: rest) = (.error (.numeral cause), out) := by
  rw [deliver, h]

theorem deliver_of_refused {cause : WriteFault} (h : a.pattern.render e = .ok text)
    (refused : out.write a.sink text = .error cause) :
    deliver e written out (a :: rest) = (.error (.write cause), out) := by
  simp only [deliver, h, refused]

theorem deliver_of_taken {out' : Outputs} (h : a.pattern.render e = .ok text)
    (taken : out.write a.sink text = .ok out') :
    deliver e written out (a :: rest) = deliver e (written + 1) out' rest := by
  simp only [deliver, h, taken]

/-- Deliveries that were made already only add to the count. -/
theorem deliver_succ :
    deliver e (written + 1) out appenders =
      ((deliver e written out appenders).1.map (· + 1), (deliver e written out appenders).2) := by
  induction appenders generalizing out written with
  | nil => rfl
  | cons a rest ih =>
      cases hrender : a.pattern.render e with
      | error cause =>
          rw [deliver_of_no_text hrender, deliver_of_no_text hrender]
          rfl
      | ok text =>
          cases hwrite : out.write a.sink text with
          | error cause =>
              rw [deliver_of_refused hrender hwrite, deliver_of_refused hrender hwrite]
              rfl
          | ok out' => rw [deliver_of_taken hrender hwrite, deliver_of_taken hrender hwrite, ih]

theorem deliver_delivers (h : start.After log out) :
    ∃ done, Delivers start log e appenders done (deliver e 0 out appenders).1 ∧
      start.After (log ++ done) (deliver e 0 out appenders).2 := by
  -- The log grows by one delivery for each appender passed.
  induction appenders generalizing out log with
  | nil => exact ⟨[], .all .nil rfl, by rwa [List.append_nil]⟩
  | cons a rest ih =>
      cases hrender : a.pattern.render e with
      | error cause =>
          rw [deliver_of_no_text hrender]
          exact ⟨[], .upTo .nil rfl (.text hrender), by rwa [List.append_nil]⟩
      | ok text =>
          cases room : start.hasRoom log a.sink with
          | false =>
              rw [deliver_of_refused hrender (h.write_of_full room text)]
              refine ⟨[], .upTo .nil rfl ?_, by rwa [List.append_nil]⟩
              rw [List.append_nil]
              exact .write hrender room
          | true =>
              obtain ⟨out', taken, after⟩ := h.write_of_hasRoom (x := ⟨e, a, text, hrender⟩) room
              obtain ⟨done, delivers, finish⟩ := ih after
              rw [deliver_of_taken hrender taken, deliver_succ]
              refine ⟨_ :: done, delivers.cons rfl room, ?_⟩
              rwa [List.append_assoc] at finish

/-- The appenders that an event is meant for: those selected for it if it is enabled, else none. -/
def selected (d : Dispatcher) (e : Event) : List Appender :=
  if d.enabled e.level e.target then d.policy.appendersFor e.level e.target else []

theorem dispatch_eq (d : Dispatcher) : d.dispatch e out = deliver e 0 out (d.selected e) := by
  rw [dispatch, selected]
  split <;> rfl

/-! ### Runs of calls -/

/-- Dispatches events one after the other, whatever becomes of each. -/
def dispatchAll (d : Dispatcher) : List Event → Outputs → List (Except DispatchFault Nat) × Outputs
  | [], out => ([], out)
  | e :: events, out =>
    let (outcome, out) := d.dispatch e out
    let (outcomes, out) := d.dispatchAll events out
    (outcome :: outcomes, out)

/-- Calls that follow a log, with their outcomes, and the log that they end in. -/
inductive Logs (d : Dispatcher) (start : Outputs) :
    List Delivery → List Event → List (Except DispatchFault Nat) → List Delivery → Prop
  | nil {log : List Delivery} : Logs d start log [] [] log
  | cons {log done final : List Delivery} {e : Event} {events : List Event}
      {outcome : Except DispatchFault Nat} {outcomes : List (Except DispatchFault Nat)}
      (first : Delivers start log e (d.selected e) done outcome)
      (rest : Logs d start (log ++ done) events outcomes final) :
      Logs d start log (e :: events) (outcome :: outcomes) final

theorem dispatch_delivers (d : Dispatcher) (h : start.After log out) (e : Event) :
    ∃ done, Delivers start log e (d.selected e) done (d.dispatch e out).1 ∧
      start.After (log ++ done) (d.dispatch e out).2 := by
  rw [dispatch_eq]
  exact deliver_delivers h

theorem logs_dispatchAll (d : Dispatcher) (h : start.After log out) (events : List Event) :
    ∃ final, d.Logs start log events (d.dispatchAll events out).1 final ∧
      start.After final (d.dispatchAll events out).2 := by
  induction events generalizing out log with
  | nil => exact ⟨log, .nil, h⟩
  | cons e events ih =>
      obtain ⟨done, first, after⟩ := d.dispatch_delivers h e
      obtain ⟨final, rest, finish⟩ := ih after
      exact ⟨final, .cons first rest, finish⟩

/-- Every run of calls comes to a log: the sinks hold what they held at the start and then the texts
of its deliveries. One more call goes on with it and leaves alone each sink that it did not deliver
to. -/
theorem dispatchAll_delivers (d : Dispatcher) (start : Outputs) (events : List Event) :
    ∃ log, d.Logs start [] events (d.dispatchAll events start).1 log ∧
      start.After log (d.dispatchAll events start).2 ∧
      ∀ e out' outcome, d.dispatch e (d.dispatchAll events start).2 = (outcome, out') →
        ∃ done, Delivers start log e (d.selected e) done outcome ∧ start.After (log ++ done) out' ∧
          ∀ id, (∀ x ∈ done, x.appender.sink ≠ id) →
            out'.holds id = (d.dispatchAll events start).2.holds id := by
  obtain ⟨log, logs, after⟩ := d.logs_dispatchAll (.refl start) events
  refine ⟨log, logs, after, ?_⟩
  rintro e out' outcome h
  obtain ⟨done, delivers, finish⟩ := d.dispatch_delivers after e
  rw [h] at delivers finish
  exact ⟨done, delivers, finish, fun id other => after.holds_of_other finish other⟩

end Dispatcher

end Calls

/-! ### Events without a text -/

/-- An event whose only field is an integer. -/
def Event.ofInteger (n : Int) : Event where
  level := .info
  target := "app"
  fields := [⟨"n", .int n⟩]
  timestamp := ⟨2024, 1, 2, 3, 4, 5, 678, false⟩

theorem Event.accepted_ofInteger (n : Int) : (ofInteger n).Accepted := by
  have plain : FieldSource.Plain (.datum (.dictionary [(.text "n", .int n)])) := trivial
  have built : within ⟨.level .info, "app", "", .datum (.dictionary [(.text "n", .int n)]),
      ⟨2024, 1, 2, 3, 4, 5, 678, false⟩, none, none⟩ .empty none = .ok (ofInteger n) := rfl
  exact .intro plain .empty built

/-- A pattern that shows the fields has no text for an integer that cannot be written. -/
theorem Pattern.render_ofInteger {n : Int} (long : ¬ Numeral.Writable n) (source : String) :
    ∃ cause, render ⟨[.token (.fields {})], source⟩ (.ofInteger n) = .error cause := by
  cases h : Numeral.write n with
  | ok s => exact absurd (Numeral.exists_write_eq_ok_iff.mp ⟨s, h⟩) long
  | error cause =>
      refine ⟨cause, ?_⟩
      simp [render, Segment.render, Token.render, FieldsOptions.render, Field.renderAll,
        Field.render, Value.render, Event.ofInteger, h, bind, Except.bind]

/-- A selected appender does not get an event although no sink refuses a text: the appender before
it shows an integer of one digit more than can be written. -/
theorem dispatch_unreached_after_long_field :
    ∃ (e : Event) (first second : Appender) (start : Outputs),
      e.Accepted ∧ start.holds first.sink = .memory [] ∧ start.holds second.sink = .memory [] ∧
      second.pattern.render e = .ok "app" ∧
      (Dispatcher.mk (.fixed [first, second] true)).selected e = [first, second] ∧
      ((Dispatcher.mk (.fixed [first, second] true)).dispatch e start).2.holds second.sink =
        .memory [] := by
  obtain ⟨cause, unwritable⟩ := Pattern.render_ofInteger Numeral.not_writable_limit "$fields"
  generalize (10 : Int) ^ Numeral.digitLimit = n at unwritable
  let first : Appender := ⟨⟨[.token (.fields {})], "$fields"⟩, .named "a"⟩
  let second : Appender := ⟨⟨[.token .target], "$target"⟩, .named "b"⟩
  have rendered : second.pattern.render (.ofInteger n) = .ok "app" := by
    simp [second, Pattern.render, Segment.render, Token.render, Event.ofInteger, pure, Except.pure,
      bind, Except.bind]
  refine ⟨.ofInteger n, first, second, ⟨fun _ => .memory [], []⟩, Event.accepted_ofInteger n, rfl,
    rfl, rendered, rfl, ?_⟩
  have selected : (Dispatcher.mk (.fixed [first, second] true)).selected (.ofInteger n) =
    [first, second] := rfl
  rw [Dispatcher.dispatch_eq, selected, Dispatcher.deliver_of_no_text unwritable]

end LogLayout
