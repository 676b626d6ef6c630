import Mathlib.Logic.Function.Basic
import LogLayout.Proofs.Session
import LogLayout.Proofs.Span.Versions

/-!
# Open scopes and active spans

A program makes scopes, enters and leaves them, and logs in between. Here are its runs in one
context in which the scope entered last is left first, and no scope is entered while it is open; a
closed scope may be entered again, and it may be left again (`Program.Runs`). A block leaves its
scope at its end whether or not an exception ends it, and does so in the same way. So an exception
that leaves several blocks is a row of `leave` steps, and needs no step of its own.

`Program.Runs.spans_follow_scopes` says that at every moment of such a run the active spans are
those of the open scopes, each within the one entered before it, that events are logged within just
these spans, and that leaving the innermost scope brings back the context in which it was entered.
-/

namespace LogLayout

/-! ### Runs -/

/-- A scope that a program holds, and what it was made of. -/
structure Held where
  name : String
  args : FieldSource
  scope : SpanScope

/-- A program: the session, and the scopes that it holds under their identities. -/
structure Program (ι : Type) where
  session : Session
  scopes : ι → Option Held

/-- An open scope: what it was made of, and the context in which it was entered. -/
structure Opened (ι : Type) where
  id : ι
  name : String
  args : FieldSource
  before : SpanContext

/-- The frame of an open scope: it has the arguments given when the scope was made. -/
def Opened.Shows {ι : Type} (o : Opened ι) (f : Frame) : Prop :=
  f.name = o.name ∧ Field.ofSource o.args = .ok f.args

/-- The handle of the last of a number of frames. -/
def lastOf : Nat → Option Handle
  | 0 => none
  | n + 1 => some (.index n)

namespace Program

variable {ι : Type} [DecidableEq ι] {opened : List (Opened ι)} {o : Opened ι} {p : Program ι}
  {id : ι} {h : Held}

/-- No open scope has an identity. -/
def Closed (opened : List (Opened ι)) (id : ι) : Prop := ∀ o ∈ opened, o.id ≠ id

/-- The program after a step of its session in which a scope was made or changed. -/
def hold (p : Program ι) (session : Session) (id : ι) (h : Held) : Program ι :=
  ⟨session, Function.update p.scopes id (some h)⟩

/-- The runs of a program: how it is when certain scopes are open, that entered last first. -/
inductive Runs : List (Opened ι) → Program ι → Prop
  | start {session : Session} (noSpan : session.spans = {}) : Runs [] ⟨session, fun _ => none⟩
  | make {opened : List (Opened ι)} {p : Program ι} {id : ι} {name : String} {args : FieldSource}
      {scope : SpanScope} {session : Session} (run : Runs opened p) (closed : Closed opened id)
      (made : (Session.scopeOf name args).run p.session = (.ok scope, session)) :
      Runs opened (p.hold session id ⟨name, args, scope⟩)
  | enter {opened : List (Opened ι)} {p : Program ι} {id : ι} {h : Held} {scope : SpanScope}
      {session : Session} (run : Runs opened p) (held : p.scopes id = some h)
      (closed : Closed opened id)
      (entered : (Session.enter h.scope).run p.session = (.ok scope, session)) :
      Runs (⟨id, h.name, h.args, p.session.spans⟩ :: opened) (p.hold session id { h with scope })
  /-- The end of a block, also by an exception. -/
  | leave {opened : List (Opened ι)} {o : Opened ι} {p : Program ι} {h : Held} {scope : SpanScope}
      {session : Session} (run : Runs (o :: opened) p) (held : p.scopes o.id = some h)
      (left : (Session.leave h.scope).run p.session = (.ok scope, session)) :
      Runs opened (p.hold session o.id { h with scope })
  /-- One more leave of a closed scope. -/
  | leaveClosed {opened : List (Opened ι)} {p : Program ι} {id : ι} {h : Held} {scope : SpanScope}
      {session : Session} (run : Runs opened p) (held : p.scopes id = some h)
      (closed : Closed opened id)
      (left : (Session.leave h.scope).run p.session = (.ok scope, session)) :
      Runs opened (p.hold session id { h with scope })
  /-- A call of a logger, which may fail. -/
  | log {opened : List (Opened ι)} {p : Program ι} {outcome : Except Session.Fault Unit}
      {session : Session} (run : Runs opened p) (l : Logger) (level : Datum) (message : String)
      (given : FieldSource) (site : Session.CallSite)
      (logged : (Session.logAt l level message given site).run p.session = (outcome, session)) :
      Runs opened { p with session }
  /-- Anything else that does not touch the active spans: an exception that is raised or caught, a
  dispatcher that is installed, time that goes by. -/
  | other {opened : List (Opened ι)} {p : Program ι} {session : Session} (run : Runs opened p)
      (untouched : session.spans = p.session.spans) : Runs opened { p with session }

end Program

/-! ### The context of open scopes -/

/-- The context with one more span, which is within the innermost one. -/
def SpanContext.within (c : SpanContext) (name : String) (args : List Field) : SpanContext :=
  ⟨⟨⟨name, args, c.innermost⟩ :: c.arena.newestFirst⟩, some (.index c.arena.size)⟩

/-- The innermost span is one of the frames. -/
def SpanContext.Sound (c : SpanContext) : Prop :=
  ∀ h, c.innermost = some h → c.arena.contains h = true

namespace SpanContext

variable {c : SpanContext}

theorem sound_within (name : String) (args : List Field) : (c.within name args).Sound := by
  rintro h ⟨⟩
  rw [SpanArena.contains_iff]
  exact ⟨Int.natCast_nonneg _, Int.lt_succ _⟩

/-- A scope can be entered where the innermost span is one of the frames. -/
theorem Sound.enter_eq (sound : c.Sound) (scope : SpanScope) :
    scope.enter c = .ok (⟨scope.name, scope.args, some c, some (.index c.arena.size)⟩,
      c.within scope.name scope.args) := by
  rw [SpanScope.enter, (SpanArena.check_eq_ok_iff .parentOutside).mpr sound]
  rfl

end SpanContext

/-- A function with a span of its own runs within this span and those around it. Its outcome is
passed on, and the active spans are then what they were before the call. -/
theorem Session.inSpan_run {α : Type} {s : Session} {args : FieldSource} {fields : List Field}
    (sound : s.spans.Sound) (captured : Field.ofSource args = .ok fields) (given : Option String)
    (function : String) (call : Action α) :
    (inSpan given args function call).run s =
      let (outcome, s') := call.run
        { s with spans := s.spans.within (spanName given function) fields }
      (outcome, { s' with spans := s.spans }) := by
  have made : (scopeOf (spanName given function) args).run s =
      (.ok ⟨spanName given function, fields, none, none⟩, s) := by
    rw [scopeOf, SpanScope.ofSource, captured]
    rfl
  have entered := enter_run_of_ok (sound.enter_eq ⟨spanName given function, fields, none, none⟩)
  rw [inSpan, run_bind_of_ok made, block_run_of_enter entered rfl]
  rfl

/-- The context in which scopes are open that were entered one after the other. -/
inductive Stacked {ι : Type} : List (Opened ι) → SpanContext → Prop
  | none : Stacked [] {}
  | inner {opened : List (Opened ι)} {o : Opened ι} {args : List Field}
      (outer : Stacked opened o.before) (captured : Field.ofSource o.args = .ok args) :
      Stacked (o :: opened) (o.before.within o.name args)

namespace Stacked

variable {ι : Type} {opened : List (Opened ι)} {o : Opened ι} {c : SpanContext}

theorem shows (h : Stacked opened c) :
    List.Forall₂ Opened.Shows opened c.arena.newestFirst := by
  induction h with
  | none => exact .nil
  | inner _ captured ih => exact .cons ⟨rfl, captured⟩ ih

theorem outer (h : Stacked (o :: opened) c) : Stacked opened o.before := by
  cases h with
  | inner outer _ => exact outer

theorem size_eq (h : Stacked opened c) : c.arena.size = opened.length := h.shows.length_eq.symm

theorem innermost_eq (h : Stacked opened c) : c.innermost = lastOf opened.length := by
  cases h with
  | none => rfl
  | inner outer _ => rw [List.length_cons, ← outer.size_eq]; rfl

theorem parent_eq (h : Stacked opened c) :
    ∀ n f, c.arena.frames[n]? = some f → f.parent = lastOf n := by
  induction h with
  | none =>
      intro n f found
      simp [SpanArena.frames] at found
  | inner outer _ ih =>
      intro n f found
      rcases SpanArena.found_cons found with ⟨-, found⟩ | ⟨rfl, rfl⟩
      · exact ih n f found
      · rw [← SpanArena.size, outer.size_eq]
        exact outer.innermost_eq

/-- The chain of the innermost span is made of all the frames. -/
theorem chain_eq (h : Stacked opened c) : c.chain = c.arena.newestFirst := by
  induction h with
  | none => rfl
  | @inner _ o args outer _ ih =>
      -- The innermost frame is the newest one, and its parent is the innermost frame before it.
      change SpanArena.chainAmong (⟨o.name, args, o.before.innermost⟩ :: o.before.arena.newestFirst)
        o.before.arena.newestFirst.length = _
      rw [SpanArena.chainAmong_newest]
      exact congrArg _ ih

theorem sound (h : Stacked opened c) : c.Sound := by
  cases h with
  | none => simp [SpanContext.Sound]
  | inner _ _ => exact SpanContext.sound_within _ _

end Stacked

namespace Program

variable {ι : Type} {opened : List (Opened ι)} {o : Opened ι} {p : Program ι} {id : ι} {h : Held}
  {scope : SpanScope} {session : Session}

/-- The active spans are those of the open scopes. Each open scope remembers the context in which
it was entered, and a closed one remembers none. -/
structure Follows (opened : List (Opened ι)) (p : Program ι) : Prop where
  stacked : Stacked opened p.session.spans
  distinct : (opened.map Opened.id).Nodup
  remembers : ∀ o ∈ opened, ∃ h, p.scopes o.id = some h ∧ h.scope.restore = some o.before
  forgets : ∀ id h, p.scopes id = some h → Closed opened id → h.scope.restore = none
  captured : ∀ id h, p.scopes id = some h →
    h.scope.name = h.name ∧ Field.ofSource h.args = .ok h.scope.args

/-- To open or close one scope makes no difference to those with other identities. -/
theorem mem_cons_iff_of_id_ne {o' : Opened ι} (ne : o'.id ≠ o.id) :
    o' ∈ o :: opened ↔ o' ∈ opened := by
  rw [List.mem_cons, or_iff_right]
  rintro rfl
  exact ne rfl

/-- Leaving the innermost scope brings back the context in which it was entered. -/
theorem Follows.leave_eq (follows : Follows (o :: opened) p) (held : p.scopes o.id = some h) :
    (Session.leave h.scope).run p.session =
      (.ok { h.scope with restore := none }, { p.session with spans := o.before }) := by
  obtain ⟨h', held', remembers⟩ := follows.remembers o List.mem_cons_self
  obtain rfl := Option.some.inj (held.symm.trans held')
  exact Session.leave_run_of_restore remembers

/-! ### What holds at every moment -/

/-- How a call of a logger goes while scopes are open: it hands over one event, whose spans are
those of the open scopes, innermost first, or it writes nothing. -/
inductive Logged (opened : List (Opened ι)) (s : Session) (l : Logger) (level : Level)
    (message : String) (given : FieldSource) (site : Session.CallSite) :
    Except Session.Fault Unit × Session → Prop
  | handedOver {d : Dispatcher} {fields : List Field} {s' : Session}
      (ready : s.Ready l level given d fields s')
      (within : List.Forall₂ Opened.Shows opened
        (s'.eventFor l level message fields site).spanChain) :
      Logged opened s l level message given site ((do
        let _ ← Session.dispatch d (s'.eventFor l level message fields site)
        : Session.Action Unit).run s')
  | notReady {outcome : Except Session.Fault Unit} {s' : Session}
      (notReady : ∀ d fields s', ¬ s.Ready l level given d fields s')
      (quiet : s'.outputs = s.outputs) : Logged opened s l level message given site (outcome, s')

/-- The active spans are those of the open scopes. -/
structure SpansFollow (opened : List (Opened ι)) (p : Program ι) : Prop where
  /-- There is one frame for each open scope, in the order in which they were entered. -/
  frames : List.Forall₂ Opened.Shows opened.reverse p.session.spans.arena.frames
  /-- Each frame is within the one before it. -/
  parents : ∀ n f, p.session.spans.arena.frames[n]? = some f → f.parent = lastOf n
  innermost : p.session.spans.innermost = lastOf opened.length
  logs : ∀ l level message given site, Logged opened p.session l level message given site
    ((Session.log l level message given site).run p.session)
  /-- A block within a closed scope can be entered. It passes on the outcome of its body, and at its
  end, also by a fault, the active spans are what they were before. -/
  blocks : ∀ id h, p.scopes id = some h → Closed opened id → ∃ scope session,
    (Session.enter h.scope).run p.session = (.ok scope, session) ∧
      ∀ {α : Type} (body : Session.Action α), (Session.block h.scope body).run p.session =
        ((body.run session).1, { (body.run session).2 with spans := p.session.spans })
  /-- Leaving the innermost scope brings back the context in which it was entered. -/
  leaves : ∀ o outer, opened = o :: outer → ∃ h scope, p.scopes o.id = some h ∧
    (Session.leave h.scope).run p.session = (.ok scope, { p.session with spans := o.before })

theorem Follows.spansFollow (follows : Follows opened p) : SpansFollow opened p where
  frames := List.forall₂_reverse_iff.mpr follows.stacked.shows
  parents := follows.stacked.parent_eq
  innermost := follows.stacked.innermost_eq
  logs l level message given site := by
    by_cases ready : ∃ d fields s', p.session.Ready l level given d fields s'
    · obtain ⟨d, fields, s', ready⟩ := ready
      rw [Session.log_run_of_ready ready]
      refine .handedOver ready ?_
      change List.Forall₂ Opened.Shows opened s'.spans.chain
      rw [ready.spans_eq, follows.stacked.chain_eq]
      exact follows.stacked.shows
    · have notReady : ∀ d fields s', ¬ p.session.Ready l level given d fields s' :=
        fun d fields s' h => ready ⟨d, fields, s', h⟩
      have quiet := Session.log_run_of_not_ready notReady message site
      exact .notReady notReady (congrArg Prod.snd quiet)
  blocks id h _ _ := by
    have entered := Session.enter_run_of_ok (follows.stacked.sound.enter_eq h.scope)
    exact ⟨_, _, entered, Session.block_run_of_enter entered rfl⟩
  leaves := by
    rintro o outer rfl
    obtain ⟨h, held, -⟩ := follows.remembers o List.mem_cons_self
    exact ⟨h, _, held, follows.leave_eq held⟩

/-! ### What the steps of a run keep -/

theorem Follows.start (noSpan : session.spans = {}) :
    Follows ([] : List (Opened ι)) ⟨session, fun _ => none⟩ where
  stacked := noSpan ▸ .none
  distinct := .nil
  remembers := by simp
  forgets := by simp
  captured := by simp

/-- A step that keeps the active spans and the scopes. -/
theorem Follows.of_spans_eq (follows : Follows opened p) (same : session.spans = p.session.spans) :
    Follows opened { p with session } :=
  ⟨same ▸ follows.stacked, follows.distinct, follows.remembers, follows.forgets, follows.captured⟩

theorem Follows.log {outcome : Except Session.Fault Unit} (follows : Follows opened p) (l : Logger)
    (level : Datum) (message : String) (given : FieldSource) (site : Session.CallSite)
    (logged : (Session.logAt l level message given site).run p.session = (outcome, session)) :
    Follows opened { p with session } := by
  have kept := Session.keeps_logAt l level message given site p.session
  rw [logged] at kept
  exact follows.of_spans_eq kept

variable [DecidableEq ι]

theorem scopes_hold : (p.hold session id h).scopes id = some h := Function.update_self ..

theorem scopes_hold_of_ne {other : ι} (ne : other ≠ id) :
    (p.hold session id h).scopes other = p.scopes other := Function.update_of_ne ne ..

/-- A held scope is the one that was changed last, or it was held before. -/
theorem eq_or_held {other : ι} {h' : Held} (held : (p.hold session id h).scopes other = some h') :
    other = id ∧ h' = h ∨ other ≠ id ∧ p.scopes other = some h' := by
  by_cases own : other = id
  · subst own
    rw [scopes_hold] at held
    exact .inl ⟨rfl, (Option.some.inj held).symm⟩
  · rw [scopes_hold_of_ne own] at held
    exact .inr ⟨own, held⟩

/-- A step in which one scope is made, opened or closed, while all others stay as they are. -/
theorem Follows.hold {opened' : List (Opened ι)} (follows : Follows opened p)
    (stacked : Stacked opened' session.spans) (distinct : (opened'.map Opened.id).Nodup)
    (others : ∀ o : Opened ι, o.id ≠ id → (o ∈ opened' ↔ o ∈ opened))
    (remembers : ∀ o ∈ opened', o.id = id → h.scope.restore = some o.before)
    (forgets : Closed opened' id → h.scope.restore = none)
    (captured : h.scope.name = h.name ∧ Field.ofSource h.args = .ok h.scope.args) :
    Follows opened' (p.hold session id h) where
  stacked := stacked
  distinct := distinct
  -- What is known of the changed scope is given, and of the others it was known before.
  remembers o mem := by
    by_cases own : o.id = id
    · exact ⟨h, own ▸ scopes_hold, remembers o mem own⟩
    · rw [scopes_hold_of_ne own]
      exact follows.remembers o ((others o own).mp mem)
  forgets other h' held closed := by
    rcases eq_or_held held with ⟨rfl, rfl⟩ | ⟨ne, held⟩
    · exact forgets closed
    · refine follows.forgets other h' held fun o mem same => ?_
      exact closed o ((others o (same ▸ ne)).mpr mem) same
  captured other h' held := by
    rcases eq_or_held held with ⟨-, rfl⟩ | ⟨-, held⟩
    · exact captured
    · exact follows.captured other h' held

/-- A step in which a closed scope stays closed. -/
theorem Follows.hold_closed (follows : Follows opened p) (same : session.spans = p.session.spans)
    (closed : Closed opened id) (forgotten : h.scope.restore = none)
    (captured : h.scope.name = h.name ∧ Field.ofSource h.args = .ok h.scope.args) :
    Follows opened (p.hold session id h) :=
  follows.hold (same ▸ follows.stacked) follows.distinct (fun _ _ => .rfl)
    (fun o mem own => absurd own (closed o mem)) (fun _ => forgotten) captured

theorem Follows.make {name : String} {args : FieldSource} (follows : Follows opened p)
    (closed : Closed opened id)
    (made : (Session.scopeOf name args).run p.session = (.ok scope, session)) :
    Follows opened (p.hold session id ⟨name, args, scope⟩) := by
  cases captured : Field.ofSource args with
  | error cause =>
      rw [Session.scopeOf, SpanScope.ofSource, captured] at made
      cases made
  | ok fields =>
      rw [Session.scopeOf, SpanScope.ofSource, captured] at made
      cases made
      exact follows.hold_closed rfl closed rfl ⟨rfl, captured⟩

theorem Follows.enter (follows : Follows opened p) (held : p.scopes id = some h)
    (closed : Closed opened id)
    (entered : (Session.enter h.scope).run p.session = (.ok scope, session)) :
    Follows (⟨id, h.name, h.args, p.session.spans⟩ :: opened)
      (p.hold session id { h with scope }) := by
  obtain ⟨name, captured⟩ := follows.captured id h held
  rw [Session.enter_run_of_ok (follows.stacked.sound.enter_eq h.scope)] at entered
  cases entered
  refine follows.hold ?_ ?_ (fun o ne => mem_cons_iff_of_id_ne ne) ?_ ?_ ⟨name, captured⟩
  · rw [name]
    exact .inner (o := ⟨id, h.name, h.args, p.session.spans⟩) follows.stacked captured
  · refine List.nodup_cons.mpr ⟨?_, follows.distinct⟩
    intro mem
    obtain ⟨o, mem, same⟩ := List.mem_map.mp mem
    exact closed o mem same
  · intro o mem own
    rcases List.mem_cons.mp mem with rfl | mem
    · rfl
    · exact absurd own (closed o mem)
  · intro closed
    exact absurd rfl (closed _ List.mem_cons_self)

theorem Follows.leave (follows : Follows (o :: opened) p) (held : p.scopes o.id = some h)
    (left : (Session.leave h.scope).run p.session = (.ok scope, session)) :
    Follows opened (p.hold session o.id { h with scope }) := by
  obtain ⟨name, captured⟩ := follows.captured o.id h held
  obtain ⟨fresh, distinct⟩ := List.nodup_cons.mp follows.distinct
  rw [follows.leave_eq held] at left
  cases left
  refine follows.hold follows.stacked.outer distinct (fun o' ne => (mem_cons_iff_of_id_ne ne).symm)
    ?_ (fun _ => rfl) ⟨name, captured⟩
  intro o' mem own
  exact absurd (List.mem_map.mpr ⟨o', mem, own⟩) fresh

theorem Follows.leaveClosed (follows : Follows opened p) (held : p.scopes id = some h)
    (closed : Closed opened id)
    (left : (Session.leave h.scope).run p.session = (.ok scope, session)) :
    Follows opened (p.hold session id { h with scope }) := by
  have forgotten := follows.forgets id h held closed
  rw [Session.leave_run, SpanScope.leave, forgotten] at left
  cases left
  exact follows.hold_closed rfl closed forgotten (follows.captured id h held)

theorem Runs.follows (run : Runs opened p) : Follows opened p := by
  induction run with
  | start noSpan => exact .start noSpan
  | make _ closed made ih => exact ih.make closed made
  | enter _ held closed entered ih => exact ih.enter held closed entered
  | leave _ held left ih => exact ih.leave held left
  | leaveClosed _ held closed left ih => exact ih.leaveClosed held closed left
  | log _ l level message given site logged ih => exact ih.log l level message given site logged
  | other _ untouched ih => exact ih.of_spans_eq untouched

/-- At every moment of a run the active spans are those of the open scopes. -/
theorem Runs.spans_follow_scopes (run : Runs opened p) : SpansFollow opened p :=
  run.follows.spansFollow

/-- A scope within another one is entered, left twice, and entered again. -/
theorem Runs.spans_follow_entered_again :
    ∃ (opened : List (Opened Nat)) (p : Program Nat), Runs opened p ∧ SpansFollow opened p ∧
      p.session.spans.chain.map Frame.name = ["query", "request"] := by
  have request : (Session.scopeOf "request" (.datum .null)).run {} =
    (.ok ⟨"request", [], none, none⟩, {}) := rfl
  have query : (Session.scopeOf "query" (.datum (.dictionary [(.text "table", .text "users")]))).run
    {} = (.ok ⟨"query", [⟨"table", .text "users"⟩], none, none⟩, {}) := rfl
  have closed (id : Nat) : Closed ([] : List (Opened Nat)) id := by simp [Closed]
  have made := ((Runs.start rfl).make (closed 0) request).make (closed 1) query
  have outer := made.enter rfl (closed 0) rfl
  have apart : Closed [(⟨0, "request", .datum .null, {}⟩ : Opened Nat)] 1 := by simp [Closed]
  have left := (outer.enter rfl apart rfl).leave rfl rfl
  have again := (left.leaveClosed rfl apart rfl).enter rfl apart rfl
  exact ⟨_, _, again, again.spans_follow_scopes, rfl⟩

end Program

end LogLayout
