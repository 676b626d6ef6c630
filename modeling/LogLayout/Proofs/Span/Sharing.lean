import LogLayout.Proofs.Span.Stack

/-!
# Shared scopes

A scope can be shared by several blocks, and one of these may lie within another: a function that
calls itself within a scope that was made once enters this scope again while it is open. But a scope
remembers one context only, the one found by its last entry, and leaving it forgets that one.

So a block brings back the spans that it found exactly when its scope is not entered again in its
body. `SharedScopes.restores_iff_not_entered_again` says so of every block of every run. Where the
scope was entered again, the end of the block changes nothing, and its span stays active behind it,
until the end of a block around it that does bring back what it found.
-/

namespace LogLayout

variable {ι : Type} {id : ι}

/-- A context, and scopes that are shared under identities. -/
structure SharedScopes (ι : Type) where
  current : SpanContext
  scopes : ι → SpanScope

/-- What is done with a shared scope. -/
inductive ScopeCall (ι : Type) where
  | enter (id : ι)
  | leave (id : ι)

/-- Blocks one after the other. A block enters a scope, runs the blocks of its body and leaves the
scope. A block that an exception ends leaves it in the same way; what it did not get to is no part
of its body. -/
inductive Blocks (ι : Type) where
  | none
  | block (id : ι) (body rest : Blocks ι)

namespace Blocks

def calls : Blocks ι → List (ScopeCall ι)
  | none => []
  | block id body rest => .enter id :: (body.calls ++ .leave id :: rest.calls)

/-- One of the blocks enters its own scope again in its body. Blocks within others do not count. -/
def Leaks : Blocks ι → Prop
  | none => False
  | block id body rest => .enter id ∈ body.calls ∨ rest.Leaks

theorem enter_mem_calls_block {other : ι} {body rest : Blocks ι} :
    .enter other ∈ (block id body rest).calls ↔
      other = id ∨ .enter other ∈ body.calls ∨ .enter other ∈ rest.calls := by
  simp [calls]

end Blocks

namespace SharedScopes

/-- No span is active, and no scope has been entered yet. -/
def start (label : ι → String × List Field) : SharedScopes ι :=
  ⟨{}, fun id => ⟨(label id).1, (label id).2, none, none⟩⟩

/-- The active spans, and those that the scopes remember, have their innermost span among their
frames. -/
structure Sound (p : SharedScopes ι) : Prop where
  current : p.current.Sound
  remembered : ∀ id c, (p.scopes id).restore = some c → c.Sound

theorem sound_start (label : ι → String × List Field) : (start label).Sound :=
  ⟨by simp [start, SpanContext.Sound], by simp [start]⟩

variable [DecidableEq ι] {p q : SharedScopes ι} {blocks body : Blocks ι}

def enter (p : SharedScopes ι) (id : ι) : Except SpanFault (SharedScopes ι) := do
  let (scope, current) ← (p.scopes id).enter p.current
  return ⟨current, Function.update p.scopes id scope⟩

def leave (p : SharedScopes ι) (id : ι) : SharedScopes ι :=
  let (scope, current) := (p.scopes id).leave p.current
  ⟨current, Function.update p.scopes id scope⟩

def call (p : SharedScopes ι) : ScopeCall ι → Except SpanFault (SharedScopes ι)
  | .enter id => p.enter id
  | .leave id => .ok (p.leave id)

/-- Runs calls one after the other. -/
def run (p : SharedScopes ι) (calls : List (ScopeCall ι)) : Except SpanFault (SharedScopes ι) :=
  calls.foldlM call p

/-- What entering a scope makes of sound scopes. -/
def entered (p : SharedScopes ι) (id : ι) : SharedScopes ι :=
  ⟨p.current.within (p.scopes id).name (p.scopes id).args,
    Function.update p.scopes id { p.scopes id with
      restore := some p.current, handle := some (.index p.current.arena.size) }⟩

theorem run_cons (p : SharedScopes ι) (c : ScopeCall ι) (calls : List (ScopeCall ι)) :
    p.run (c :: calls) = (do (← p.call c).run calls) := List.foldlM_cons

theorem run_append (p : SharedScopes ι) (before behind : List (ScopeCall ι)) :
    p.run (before ++ behind) = (do (← p.run before).run behind) := List.foldlM_append

/-! ### Single calls -/

theorem leave_of_forgotten (forgotten : (p.scopes id).restore = none) : p.leave id = p := by
  simp [leave, SpanScope.leave, forgotten]

theorem leave_of_remembered {c : SpanContext} (remembers : (p.scopes id).restore = some c) :
    p.leave id = ⟨c, Function.update p.scopes id { p.scopes id with restore := none }⟩ := by
  simp [leave, SpanScope.leave, remembers]

theorem restore_leave (p : SharedScopes ι) (id : ι) : ((p.leave id).scopes id).restore = none := by
  cases remembers : (p.scopes id).restore with
  | none => rwa [leave_of_forgotten remembers]
  | some c => simp [leave_of_remembered remembers]

theorem scopes_leave_of_ne {other : ι} (ne : other ≠ id) :
    (p.leave id).scopes other = p.scopes other := Function.update_of_ne ne ..

theorem Sound.enter_eq (sound : p.Sound) (id : ι) : p.enter id = .ok (p.entered id) := by
  rw [enter, sound.current.enter_eq]
  rfl

theorem Sound.entered (sound : p.Sound) (id : ι) : (p.entered id).Sound where
  current := SpanContext.sound_within _ _
  remembered other c remembers := by
    by_cases own : other = id
    · subst own
      obtain rfl : p.current = c := by simpa [SharedScopes.entered] using remembers
      exact sound.current
    · refine sound.remembered other c ?_
      simpa [SharedScopes.entered, own] using remembers

theorem Sound.leave (sound : p.Sound) (id : ι) : (p.leave id).Sound := by
  cases remembers : (p.scopes id).restore with
  | none => rwa [leave_of_forgotten remembers]
  | some c =>
      rw [leave_of_remembered remembers]
      refine ⟨sound.remembered id c remembers, ?_⟩
      intro other c' h
      by_cases own : other = id
      · subst own
        simp at h
      · exact sound.remembered other c' (by simpa [own] using h)

/-- Calls in any order can be run. -/
theorem Sound.exists_run (sound : p.Sound) (calls : List (ScopeCall ι)) :
    ∃ q, p.run calls = .ok q ∧ q.Sound := by
  induction calls generalizing p with
  | nil => exact ⟨p, rfl, sound⟩
  | cons c calls ih =>
      cases c with
      | enter id =>
          obtain ⟨q, done, sound'⟩ := ih (sound.entered id)
          refine ⟨q, ?_, sound'⟩
          rw [run_cons, call, sound.enter_eq]
          exact done
      | leave id => exact ih (sound.leave id)

/-! ### Blocks -/

/-- What blocks do to the context and the scopes that they find. -/
structure Passes (blocks : Blocks ι) (p q : SharedScopes ι) : Prop where
  others : ∀ id, .enter id ∉ blocks.calls → q.scopes id = p.scopes id
  forgets : ∀ id, .enter id ∈ blocks.calls → (q.scopes id).restore = none
  brings_back : ¬ blocks.Leaks → q.current = p.current
  grows : p.current.arena.size ≤ q.current.arena.size
  leaks : blocks.Leaks → p.current.arena.size < q.current.arena.size

/-- A block brings back the context that it found if its scope was not entered again. If it was, the
inner block has made the scope forget what to bring back. -/
theorem Passes.current_leave (passes : Passes body (p.entered id) q) :
    (.enter id ∉ body.calls → (q.leave id).current = p.current) ∧
      (.enter id ∈ body.calls → (q.leave id).current = q.current) := by
  constructor
  · intro once
    have remembers : (q.scopes id).restore = some p.current := by
      rw [passes.others id once]
      simp [entered]
    rw [leave_of_remembered remembers]
  · intro again
    rw [leave_of_forgotten (passes.forgets id again)]

/-- At the end of the body the span of the block is still there. -/
theorem Passes.size_lt (passes : Passes body (p.entered id) q) :
    p.current.arena.size < q.current.arena.size := passes.grows

/-- What a block and the blocks behind it do, put together. -/
theorem Passes.block {rest : Blocks ι} {inside after : SharedScopes ι}
    (first : Passes body (p.entered id) inside) (others : Passes rest (inside.leave id) after) :
    Passes (.block id body rest) p after where
  others other absent := by
    simp only [Blocks.enter_mem_calls_block, not_or] at absent
    obtain ⟨ne, notInside, notBehind⟩ := absent
    rw [others.others other notBehind, scopes_leave_of_ne ne, first.others other notInside]
    exact Function.update_of_ne ne ..
  forgets other mem := by
    by_cases behind : .enter other ∈ rest.calls
    · exact others.forgets other behind
    · rw [others.others other behind]
      by_cases own : other = id
      · subst own
        exact restore_leave inside other
      · rw [scopes_leave_of_ne own]
        rw [Blocks.enter_mem_calls_block] at mem
        exact first.forgets other ((mem.resolve_left own).resolve_right behind)
  brings_back sealed := by
    obtain ⟨once, sealed⟩ := not_or.mp sealed
    rw [others.brings_back sealed, first.current_leave.1 once]
  grows := by
    by_cases again : .enter id ∈ body.calls
    · have more := others.grows
      rw [first.current_leave.2 again] at more
      exact Nat.le_trans (Nat.le_of_lt first.size_lt) more
    · exact first.current_leave.1 again ▸ others.grows
  leaks leaks := by
    by_cases again : .enter id ∈ body.calls
    · have more := others.grows
      rw [first.current_leave.2 again] at more
      exact Nat.lt_of_lt_of_le first.size_lt more
    · have more := others.leaks (leaks.resolve_left again)
      rwa [first.current_leave.1 again] at more

theorem Sound.run_blocks (sound : p.Sound) (blocks : Blocks ι) :
    ∃ q, p.run blocks.calls = .ok q ∧ q.Sound ∧ Passes blocks p q := by
  induction blocks generalizing p with
  | none =>
      exact ⟨p, rfl, sound, fun _ _ => rfl, by simp [Blocks.calls], fun _ => rfl, Nat.le_refl _,
        False.elim⟩
  | block id body rest ihBody ihRest =>
      obtain ⟨inside, runBody, soundInside, first⟩ := ihBody (sound.entered id)
      obtain ⟨after, runRest, soundAfter, others⟩ := ihRest (soundInside.leave id)
      refine ⟨after, ?_, soundAfter, first.block others⟩
      have entering : p.call (.enter id) = .ok (p.entered id) := sound.enter_eq id
      rw [Blocks.calls, run_cons, entering]
      change (p.entered id).run (body.calls ++ .leave id :: rest.calls) = .ok after
      rw [run_append, runBody]
      exact runRest

/-- Any block of a run brings back the spans that it found exactly when its scope is not entered
again in its body; otherwise its end changes nothing. When all blocks have ended, there is no active
span exactly when no outermost block entered its own scope again. -/
theorem restores_iff_not_entered_again (label : ι → String × List Field) :
    (∀ (before : List (ScopeCall ι)) (id : ι) (body : Blocks ι), ∃ found inside after,
      (start label).run before = .ok found ∧
        found.run (.enter id :: body.calls) = .ok inside ∧ inside.run [.leave id] = .ok after ∧
        (after.current = found.current ↔ .enter id ∉ body.calls) ∧
        (.enter id ∈ body.calls → after.current = inside.current)) ∧
      ∀ blocks : Blocks ι, ∃ last, (start label).run blocks.calls = .ok last ∧
        (last.current = {} ↔ ¬ blocks.Leaks) := by
  constructor
  · intro before id body
    obtain ⟨found, runBefore, sound⟩ := (sound_start label).exists_run before
    obtain ⟨inside, runBody, -, passes⟩ := (sound.entered id).run_blocks body
    have entering : found.call (.enter id) = .ok (found.entered id) := sound.enter_eq id
    refine ⟨found, inside, inside.leave id, runBefore, ?_, rfl, ⟨?_, passes.current_leave.1⟩,
      passes.current_leave.2⟩
    · rw [run_cons, entering]
      exact runBody
    · intro same again
      have more := passes.size_lt
      rw [← passes.current_leave.2 again, same] at more
      exact Nat.lt_irrefl _ more
  · intro blocks
    obtain ⟨last, done, -, passes⟩ := (sound_start label).run_blocks blocks
    refine ⟨last, done, ?_, passes.brings_back⟩
    intro empty leaks
    have more := passes.leaks leaks
    rw [empty] at more
    exact Nat.not_lt_zero _ more

/-- A scope that is entered again while it is open leaves a span behind when all blocks have
ended. -/
theorem span_outlives_blocks :
    ¬ ∀ (label : Unit → String × List Field) (blocks : Blocks Unit),
      ∃ last, (start label).run blocks.calls = .ok last ∧ last.current = {} := by
  intro always
  obtain ⟨last, done, empty⟩ :=
    always (fun _ => ("request", [])) (.block () (.block () .none .none) .none)
  obtain rfl := Except.ok.inj done
  exact absurd (congrArg (fun c => c.arena.size) empty) (by decide)

end SharedScopes

end LogLayout
