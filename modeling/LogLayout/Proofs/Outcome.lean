import LogLayout.Outcome
import LogLayout.Proofs.Correspondence

/-!
# Taking outcomes apart

When an outcome that was mapped, continued or collected over a list is a value, and which one it is;
and the laws of going on from a value with a function that has effects.
-/

namespace LogLayout.Outcome

variable {α β ε : Type}

theorem map_eq_ok_iff {f : α → β} {x : Except ε α} {b : β} :
    x.map f = .ok b ↔ ∃ a, x = .ok a ∧ f a = b := by
  constructor
  · intro h
    cases x with
    | error e => cases h
    | ok a => exact ⟨a, rfl, Except.ok.inj h⟩
  · rintro ⟨a, rfl, rfl⟩
    rfl

theorem map_eq_error_iff {f : α → β} {x : Except ε α} {e : ε} :
    x.map f = .error e ↔ x = .error e := by
  cases x with
  | error e' => simp [Except.map]
  | ok a => simp [Except.map]

theorem bind_eq_ok_iff {f : α → Except ε β} {x : Except ε α} {b : β} :
    (do f (← x)) = .ok b ↔ ∃ a, x = .ok a ∧ f a = .ok b := by
  cases x with
  | error e => simp [bind, Except.bind]
  | ok a => simp [bind, Except.bind]

theorem exists_map_eq_ok_iff {f : α → β} {x : Except ε α} :
    (∃ b, x.map f = .ok b) ↔ ∃ a, x = .ok a := by
  cases x with
  | error e => simp [Except.map]
  | ok a => simp [Except.map]

theorem return_eq_ok_iff {g : α → β} {x : Except ε α} {b : β} :
    (do return g (← x)) = .ok b ↔ ∃ a, x = .ok a ∧ b = g a := by
  cases x with
  | error e => simp [bind, Except.bind]
  | ok a => simp [bind, Except.bind, pure, Except.pure, eq_comm]

/-- What is done with a value afterwards does not decide whether there is one. -/
theorem exists_return_eq_ok_iff {g : α → β} {x : Except ε α} :
    (∃ b, (do return g (← x)) = .ok b) ↔ ∃ a, x = .ok a := by
  cases x with
  | error e => simp [bind, Except.bind]
  | ok a => simp [bind, Except.bind, pure, Except.pure]

theorem error?_eq_some_iff {x : Except ε α} {e : ε} : error? x = some e ↔ x = .error e := by
  cases x with
  | error e' => simp [error?]
  | ok a => simp [error?]

/-- Where there is but one error, outcomes with the same values are equal. -/
theorem eq_of_eq_ok_iff [Subsingleton ε] {x y : Except ε α} (h : ∀ a, x = .ok a ↔ y = .ok a) :
    x = y := by
  cases x with
  | ok a => exact ((h a).mp rfl).symm
  | error e =>
      cases y with
      | ok a => exact (h a).mpr rfl
      | error e' => rw [Subsingleton.elim e e']

theorem mapError_eq_ok_iff {δ : Type} {f : ε → δ} {x : Except ε α} {a : α} :
    x.mapError f = .ok a ↔ x = .ok a := by
  cases x with
  | error e => simp [Except.mapError]
  | ok b => simp [Except.mapError]

/-- One value is collected for each item of a list, in order. -/
theorem mapM_eq_ok_iff {f : α → Except ε β} {as : List α} {bs : List β} :
    as.mapM f = .ok bs ↔ List.Forall₂ (fun a b => f a = .ok b) as bs := by
  induction as generalizing bs with
  | nil => simp [pure, Except.pure, eq_comm]
  | cons a as ih =>
      rw [List.mapM_cons, List.forall₂_cons_left_iff]
      simp only [bind_eq_ok_iff, ih]
      constructor
      · rintro ⟨b, hb, bs, hbs, h⟩
        exact ⟨b, bs, hb, hbs, (Except.ok.inj h).symm⟩
      · rintro ⟨b, bs, hb, hbs, rfl⟩
        exact ⟨b, hb, bs, hbs, rfl⟩

/-- Two computations that agree item by item on two lists collect the same, or fail alike. -/
theorem mapM_congr {γ : Type} {f : α → Except ε γ} {g : β → Except ε γ} {as : List α} {bs : List β}
    (h : List.Forall₂ (fun a b => f a = g b) as bs) : as.mapM f = bs.mapM g := by
  induction h with
  | nil => rfl
  | cons first _ ih => rw [List.mapM_cons, List.mapM_cons, first, ih]

/-- Values are collected over a list when there is one for each item. -/
theorem exists_mapM_eq_ok_iff {f : α → Except ε β} {as : List α} :
    (∃ bs, as.mapM f = .ok bs) ↔ ∀ a ∈ as, ∃ b, f a = .ok b := by
  simp only [mapM_eq_ok_iff, exists_forall₂_iff]

/-! ### Functions with effects -/

section Effects

variable {m : Type → Type} [Monad m] {γ : Type}

theorem flatMap_ok (f : α → m (Except ε β)) (a : α) : flatMap f (.ok a) = f a := rfl

theorem map_eq_flatMap (f : α → m β) :
    map (ε := ε) f = flatMap fun a => do return .ok (← f a) := by
  funext outcome
  cases outcome <;> rfl

variable [LawfulMonad m]

/-- A function without effects changes the value and nothing else. -/
theorem map_pure (g : α → β) :
    map (m := m) (ε := ε) (fun a => pure (g a)) = fun outcome => pure (outcome.map g) := by
  funext outcome
  cases outcome with
  | error e => rfl
  | ok a => exact pure_bind _ _

/-- To go on twice is to go on once, with a function that goes on itself. -/
theorem flatMap_flatMap (x : m (Except ε α)) (f : α → m (Except ε β)) (g : β → m (Except ε γ)) :
    x >>= flatMap f >>= flatMap g = x >>= flatMap fun a => f a >>= flatMap g := by
  rw [bind_assoc]
  congr 1
  funext outcome
  cases outcome with
  | error e => exact pure_bind _ _
  | ok a => rfl

end Effects

end LogLayout.Outcome
