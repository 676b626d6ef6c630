import LogLayout.Span
import LogLayout.Proofs.Value

/-!
# Arenas that were pushed together

`push_eq_ok_iff` says all that a push does. What holds of every arena that pushing makes out of the
empty one follows from it by induction on the pushes: the parent of a frame is an older frame, so
that the walk from any frame outwards ends at a frame without parent (`chainAmong_ends`), and
arguments that were captured when they were pushed are captured in every frame.
-/

namespace LogLayout.SpanArena

variable {a a' : SpanArena} {name : String} {args : FieldSource} {parent : Option Handle}
  {handle : Handle} {fit : FieldSource → Prop}

/-- The arenas that pushing makes out of the empty one, of spans whose arguments are fit. -/
inductive Pushed (fit : FieldSource → Prop) : SpanArena → Prop
  | empty : Pushed fit .empty
  | push {a a' : SpanArena} {name : String} {args : FieldSource} {parent : Option Handle}
      {handle : Handle} (pushed : Pushed fit a) (fits : fit args)
      (h : a.push name args parent = .ok (a', handle)) : Pushed fit a'

/-- Among frames of which the newest comes first, each parent is an older frame. -/
def Rooted : List Frame → Prop
  | [] => True
  | f :: older =>
    (∀ p, f.parent = some p → 0 ≤ p.number ∧ p.number < older.length) ∧ Rooted older

theorem contains_iff : a.contains handle = true ↔ 0 ≤ handle.number ∧ handle.number < a.size := by
  simp [contains]

theorem check_eq_ok_iff (refusal : String → SpanFault) :
    a.check parent refusal = .ok () ↔ ∀ p, parent = some p → a.contains p = true := by
  cases parent with
  | none => simp [check]
  | some p =>
      simp only [check, Option.some.injEq, forall_eq']
      split
      · next inside => simp [inside]
      · next outside =>
          cases p.shown <;> simp [outside]

/-- A push that succeeds puts one frame on top, whose parent is in the arena. -/
theorem push_eq_ok_iff :
    a.push name args parent = .ok (a', handle) ↔
      (∀ p, parent = some p → a.contains p = true) ∧
        ∃ captured, Field.ofSource args = .ok captured ∧
          a.pushFrame name captured parent = (a', handle) := by
  rw [← check_eq_ok_iff .parentOutside]
  simp only [push, Outcome.bind_eq_ok_iff]
  constructor
  · rintro ⟨⟨⟩, inside, captured, hcaptured, h⟩
    exact ⟨inside, captured, Outcome.mapError_eq_ok_iff.mp hcaptured, Except.ok.inj h⟩
  · rintro ⟨inside, captured, hcaptured, h⟩
    exact ⟨(), inside, captured, Outcome.mapError_eq_ok_iff.mpr hcaptured, congrArg Except.ok h⟩

theorem Pushed.pushAll {spans : List (String × FieldSource)} (pushed : Pushed fit a)
    (fits : ∀ s ∈ spans, fit s.2) (h : a.pushAll parent spans = .ok a') : Pushed fit a' := by
  induction spans generalizing a parent with
  | nil => exact Except.ok.inj h ▸ pushed
  | cons s spans ih =>
      obtain ⟨hs, hspans⟩ := List.forall_mem_cons.mp fits
      obtain ⟨⟨next, handle⟩, hpush, h⟩ := Outcome.bind_eq_ok_iff.mp h
      exact ih (pushed.push hs hpush) hspans h

theorem pushed_nested {spans : List (String × FieldSource)} (fits : ∀ s ∈ spans, fit s.2)
    (h : nested spans = .ok a) : Pushed fit a :=
  Pushed.empty.pushAll fits h

theorem Pushed.rooted (pushed : Pushed fit a) : Rooted a.newestFirst := by
  induction pushed with
  | empty => trivial
  | push _ _ h ih =>
      obtain ⟨inside, captured, -, made⟩ := push_eq_ok_iff.mp h
      obtain ⟨rfl, -⟩ := Prod.mk.inj made
      refine ⟨?_, ih⟩
      intro p hp
      exact contains_iff.mp (inside p hp)

/-- Captured arguments stay captured. -/
theorem Pushed.isCaptured (pushed : Pushed FieldSource.Plain a) :
    ∀ f ∈ a.newestFirst, ∀ field ∈ f.args, field.value.isCaptured = true := by
  induction pushed with
  | empty =>
      intro f mem
      cases mem
  | push _ plain h ih =>
      obtain ⟨-, captured, hcaptured, made⟩ := push_eq_ok_iff.mp h
      obtain ⟨rfl, -⟩ := Prod.mk.inj made
      exact List.forall_mem_cons.mpr ⟨Field.isCaptured_of_ofSource plain hcaptured, ih⟩

/-! ### Walks -/

variable {frames : List Frame} {n : Nat}

theorem mem_of_mem_chainAmong {f : Frame} (h : f ∈ chainAmong frames n) : f ∈ frames := by
  induction frames generalizing n with
  | nil => exact h
  | cons g older ih =>
      rw [chainAmong] at h
      split at h
      · rcases List.mem_cons.mp h with rfl | h
        · exact List.mem_cons_self
        · split at h
          · cases h
          · exact List.mem_cons_of_mem g (ih h)
      · exact List.mem_cons_of_mem g (ih h)

/-- From any frame the walk outwards goes on until there is no parent. -/
theorem chainAmong_ends (rooted : Rooted frames) (h : n < frames.length) :
    ∃ root, (chainAmong frames n).getLast? = some root ∧ root.parent = none := by
  induction frames generalizing n with
  | nil => cases h
  | cons f older ih =>
      obtain ⟨inside, rooted⟩ := rooted
      rw [chainAmong]
      split
      · split
        · next noParent => exact ⟨f, rfl, noParent⟩
        · next p hp =>
            have bounds := inside p hp
            obtain ⟨root, last, noParent⟩ := ih rooted (n := p.number.toNat) (by omega)
            exact ⟨root, by rw [List.getLast?_cons, last]; rfl, noParent⟩
      · next other =>
          simp only [List.length_cons] at h
          exact ih rooted (by omega)

theorem chain_eq (inside : a.contains handle = true) :
    a.chain (some handle) = .ok (chainAmong a.newestFirst handle.number.toNat) := by
  simp [chain, locate, inside, Except.map]

end LogLayout.SpanArena
