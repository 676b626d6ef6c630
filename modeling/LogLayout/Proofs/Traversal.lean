import LogLayout.Proofs.Outcome

/-!
# Runs over lists

A run calls a function on the items of a list, one after the other, until an outcome is an error.
The function may act on a state, so an answer may depend on the calls before it, and to leave out a
call or to make one twice shows in the state. `noting` makes the calls themselves a part of it.

`FailFast` says what a run ought to come to, by where the first item is on which the function fails.
`traverse_is_failFast` says that it comes to this and to nothing else. The runs of functions that
act on no state are a case of it.
-/

namespace LogLayout

variable {α β ε σ : Type}

/-- A function that writes down each item on which it is called. -/
def noting (f : α → StateM σ (Except ε β)) (a : α) : StateM (List α × σ) (Except ε β) := do
  let (calls, s) ← get
  let (outcome, t) := (f a).run s
  set (calls ++ [a], t)
  return outcome

theorem run_noting (f : α → StateM σ (Except ε β)) (a : α) (calls : List α) (s : σ) :
    (noting f a).run (calls, s) = (((f a).run s).1, calls ++ [a], ((f a).run s).2) := rfl

/-- Called on each item of a list in turn, from a state on, a function gives these values and leaves
that state. -/
inductive GivesAll (f : α → StateM σ (Except ε β)) : σ → List α → List β → σ → Prop
  | nil {s : σ} : GivesAll f s [] [] s
  | cons {s t u : σ} {a : α} {b : β} {as : List α} {bs : List β}
      (first : (f a).run s = (.ok b, t)) (rest : GivesAll f t as bs u) :
      GivesAll f s (a :: as) (b :: bs) u

/-- What a run over a list ought to come to: on which items the function is called, the outcome and
the state that is left. It is called on all of them if it gives a value for each. Otherwise it is
called on those before the first one for which it does not, and on that one. -/
inductive FailFast (f : α → StateM σ (Except ε β)) (s : σ) (as : List α) :
    List α → Except ε (List β) → σ → Prop
  | ok {bs : List β} {t : σ} (all : GivesAll f s as bs t) : FailFast f s as as (.ok bs) t
  | error {before after : List α} {a : α} {bs : List β} {e : ε} {t u : σ}
      (split : as = before ++ a :: after) (fine : GivesAll f s before bs t)
      (fails : (f a).run t = (.error e, u)) : FailFast f s as (before ++ [a]) (.error e) u

section Effects

variable {m : Type → Type} [Monad m] [LawfulMonad m]

/-- A run goes on from the value for the first item with a run over the rest, and puts that value in
front of the others. -/
theorem traverse_cons (f : α → m (Except ε β)) (a : α) (as : List α) :
    traverse f (a :: as) =
      f a >>= Outcome.flatMap fun b => traverse f as >>= Outcome.map fun bs => pure (b :: bs) := by
  rw [traverse]
  congr 1
  funext first
  cases first with
  | error e => rfl
  | ok b =>
      refine congrArg (traverse f as >>= ·) ?_
      rw [Outcome.map_pure]
      funext rest
      cases rest <;> rfl

/-- A run over a list that is put together goes on from the values for the first part with a run
over the second, and puts the values together. -/
theorem traverse_append (f : α → m (Except ε β)) (as more : List α) :
    traverse f (as ++ more) =
      traverse f as >>= Outcome.flatMap fun bs =>
        traverse f more >>= Outcome.map fun cs => pure (bs ++ cs) := by
  induction as with
  | nil =>
      have same : Except.map ([] ++ ·) = (id : Except ε (List β) → _) := Except.map_id
      rw [traverse, pure_bind, Outcome.flatMap_ok, Outcome.map_pure, same]
      exact (bind_pure (traverse f more)).symm
  | cons a as ih =>
      simp only [List.cons_append, traverse_cons, ih, Outcome.map_eq_flatMap,
        Outcome.flatMap_flatMap, Outcome.flatMap_ok, pure_bind]

end Effects

variable {f : α → StateM σ (Except ε β)} {s t u : σ} {a : α} {b : β} {as more calls : List α}
  {bs : List β} {o : Except ε (List β)}

theorem run_traverse_of_error {e : ε} (first : (f a).run s = (.error e, t)) :
    (traverse f (a :: as)).run s = (.error e, t) := by
  rw [traverse, StateT.run_bind, first]
  rfl

theorem run_traverse_of_ok (first : (f a).run s = (.ok b, t))
    (rest : (traverse f as).run t = (o, u)) :
    (traverse f (a :: as)).run s = (o.map (b :: ·), u) := by
  rw [traverse, StateT.run_bind, first]
  change (traverse f as >>= _).run t = _
  rw [StateT.run_bind, rest]
  cases o <;> rfl

namespace GivesAll

theorem run_traverse (h : GivesAll f s as bs t) : (traverse f as).run s = (.ok bs, t) := by
  induction h with
  | nil => rfl
  | cons first _ ih => exact run_traverse_of_ok first ih

/-- Behind items for which there are values a run goes on from the state that they leave. -/
theorem run_traverse_append (h : GivesAll f s as bs t) (rest : (traverse f more).run t = (o, u)) :
    (traverse f (as ++ more)).run s = (o.map (bs ++ ·), u) := by
  simp only [traverse_append, Outcome.map_pure, StateT.run_bind, h.run_traverse]
  change (traverse f more >>= _).run t = _
  rw [StateT.run_bind, rest]
  rfl

/-- With the calls written down behind those before, the function gives the same values. -/
theorem noted (h : GivesAll f s as bs t) (seen : List α) :
    GivesAll (noting f) (seen, s) as bs (seen ++ as, t) := by
  induction h generalizing seen with
  | nil => simpa using GivesAll.nil
  | @cons s t u a b as bs first _ ih =>
      have called : (noting f a).run (seen, s) = (.ok b, seen ++ [a], t) := by
        rw [run_noting, first]
      rw [List.append_cons]
      exact .cons called (ih (seen ++ [a]))

end GivesAll

namespace FailFast

theorem run_traverse (h : FailFast f s as calls o t) : (traverse f as).run s = (o, t) := by
  cases h with
  | ok all => exact all.run_traverse
  | error split fine fails =>
      rw [split]
      exact fine.run_traverse_append (run_traverse_of_error fails)

theorem noted (h : FailFast f s as calls o t) (seen : List α) :
    FailFast (noting f) (seen, s) as calls o (seen ++ calls, t) := by
  cases h with
  | ok all => exact .ok (all.noted seen)
  | @error before after a bs e t u split fine fails =>
      refine .error split (fine.noted seen) ?_
      rw [run_noting, fails, List.append_assoc]

end FailFast

/-- There is always something for a run to come to: the function fails on the first item, or what
the run comes to is decided behind it. -/
theorem exists_failFast (f : α → StateM σ (Except ε β)) (s : σ) (as : List α) :
    ∃ calls o t, FailFast f s as calls o t := by
  induction as generalizing s with
  | nil => exact ⟨[], .ok [], s, .ok .nil⟩
  | cons a as ih =>
      obtain ⟨e | b, t, first⟩ : ∃ r t, (f a).run s = (r, t) := ⟨_, _, rfl⟩
      · exact ⟨[a], .error e, t, .error (List.nil_append (a :: as)).symm .nil first⟩
      · obtain ⟨calls, o, u, rest⟩ := ih t
        cases rest with
        | ok all => exact ⟨a :: as, _, u, .ok (.cons first all)⟩
        | @error before after a' _ e _ _ split fine fails =>
            have split : a :: as = (a :: before) ++ a' :: after := by rw [split, List.cons_append]
            exact ⟨_, .error e, u, .error split (.cons first fine) fails⟩

/-- What a run ought to come to is what it comes to. -/
theorem run_traverse_eq_iff :
    (traverse f as).run s = (o, t) ↔ ∃ calls, FailFast f s as calls o t := by
  constructor
  · intro h
    obtain ⟨calls, o', t', found⟩ := exists_failFast f s as
    obtain ⟨rfl, rfl⟩ := Prod.mk.inj (found.run_traverse.symm.trans h)
    exact ⟨calls, found⟩
  · rintro ⟨calls, found⟩
    exact found.run_traverse

/-- The calls that are written down in a run are the ones that it ought to make. -/
theorem run_traverse_noting_eq_iff :
    (traverse (noting f) as).run ([], s) = (o, calls, t) ↔ FailFast f s as calls o t := by
  constructor
  · intro h
    obtain ⟨calls', o', t', found⟩ := exists_failFast f s as
    obtain ⟨rfl, same⟩ := Prod.mk.inj ((found.noted []).run_traverse.symm.trans h)
    obtain ⟨rfl, rfl⟩ := Prod.mk.inj same
    exact found
  · intro found
    exact (found.noted []).run_traverse

/-- A run over a list fails fast and keeps the order. It gives the values for all items in order if
there is one for each, and otherwise the error of the first item on which the function fails. The
function is called on the items up to this one in order, once on each, and on no other item. A run
over a list that is put together is a run over the first part and, if there are values, one over the
second, with the values put together. -/
theorem traverse_is_failFast (f : α → StateM σ (Except ε β)) (s : σ) (as : List α) :
    (∀ calls o t, (traverse (noting f) as).run ([], s) = (o, calls, t) ↔
      FailFast f s as calls o t) ∧
    (∀ o t, (traverse f as).run s = (o, t) ↔ ∃ calls, FailFast f s as calls o t) ∧
    ∀ more, traverse f (as ++ more) = do
      match ← traverse f as with
      | .error e => return .error e
      | .ok bs => return (← traverse f more).map (bs ++ ·) := by
  refine ⟨fun _ _ _ => run_traverse_noting_eq_iff, fun _ _ => run_traverse_eq_iff, fun more => ?_⟩
  simp only [traverse_append, Outcome.map_pure]
  congr 1
  funext first
  cases first <;> rfl

/-! ### Functions without a state -/

/-- A function that does nothing but answer. -/
def stateless (g : α → Except ε β) (a : α) : StateM σ (Except ε β) := pure (g a)

section Stateless

variable {g : α → Except ε β}

theorem run_stateless : (stateless g a).run s = (g a, s) := rfl

/-- Such a function can be called on any state, and the run leaves it. -/
theorem run_traverse_stateless :
    (traverse (stateless g) as).run s = (Id.run (traverse (fun a => pure (g a)) as), s) := by
  induction as with
  | nil => rfl
  | cons a as ih =>
      cases answer : g a with
      | error e =>
          rw [run_traverse_of_error (by rw [run_stateless, answer])]
          simp [traverse, answer]
      | ok b =>
          rw [run_traverse_of_ok (by rw [run_stateless, answer]) ih]
          simp only [traverse, answer, Id.run_bind, Id.run_pure]
          cases Id.run (traverse (fun a => pure (g a)) as) <;> rfl

theorem givesAll_stateless_iff :
    GivesAll (stateless g) s as bs t ↔ List.Forall₂ (fun a b => g a = .ok b) as bs ∧ t = s := by
  constructor
  · intro h
    induction h with
    | nil => exact ⟨.nil, rfl⟩
    | cons first _ ih =>
        obtain ⟨answer, rfl⟩ := Prod.mk.inj first
        exact ⟨.cons answer ih.1, ih.2⟩
  · rintro ⟨h, rfl⟩
    induction h with
    | nil => exact .nil
    | cons answer _ ih => exact .cons (by rw [run_stateless, answer]) ih

theorem traverse_eq_iff_failFast :
    Id.run (traverse (fun a => pure (g a)) as) = o ↔
      ∃ calls, FailFast (stateless g) () as calls o () := by
  rw [← run_traverse_eq_iff, run_traverse_stateless]
  exact ⟨fun h => by rw [h], fun h => (Prod.mk.inj h).1⟩

end Stateless

namespace Outcome

variable {f : α → Except ε β} {as : List α} {bs : List β} {e : ε}

/-- A run over a list collects one value for each item, in order. -/
theorem traverse_eq_ok_iff :
    Id.run (traverse (fun a => pure (f a)) as) = .ok bs ↔
      List.Forall₂ (fun a b => f a = .ok b) as bs := by
  rw [traverse_eq_iff_failFast]
  constructor
  · rintro ⟨_, ⟨all⟩⟩
    exact (givesAll_stateless_iff.mp all).1
  · intro all
    exact ⟨as, .ok (givesAll_stateless_iff.mpr ⟨all, rfl⟩)⟩

/-- A run over a list stops at the first item on which the computation fails. -/
theorem traverse_eq_error_iff :
    Id.run (traverse (fun a => pure (f a)) as) = .error e ↔
      ∃ before a after, as = before ++ a :: after ∧ (∀ b ∈ before, ∃ c, f b = .ok c) ∧
        f a = .error e := by
  rw [traverse_eq_iff_failFast]
  constructor
  · rintro ⟨_, found⟩
    cases found with
    | error split fine fails =>
        obtain ⟨all, -⟩ := givesAll_stateless_iff.mp fine
        exact ⟨_, _, _, split, exists_forall₂_iff.mp ⟨_, all⟩, (Prod.mk.inj fails).1⟩
  · rintro ⟨before, a, after, split, fine, fails⟩
    obtain ⟨bs, all⟩ := exists_forall₂_iff.mpr fine
    have stops : (stateless f a).run () = (.error e, ()) := by rw [run_stateless, fails]
    exact ⟨_, .error split (givesAll_stateless_iff.mpr ⟨all, rfl⟩) stops⟩

/-- A run over a list stops at one of its items. -/
theorem exists_mem_of_traverse_eq_error {f : α → Except ε β} {as : List α} {e : ε}
    (h : Id.run (traverse (fun a => pure (f a)) as) = .error e) : ∃ a ∈ as, f a = .error e := by
  obtain ⟨before, a, after, rfl, -, ha⟩ := traverse_eq_error_iff.mp h
  exact ⟨a, by simp, ha⟩

/-- A run over a list succeeds when the computation succeeds on every item. -/
theorem exists_traverse_eq_ok_iff {f : α → Except ε β} {as : List α} :
    (∃ bs, Id.run (traverse (fun a => pure (f a)) as) = .ok bs) ↔ ∀ a ∈ as, ∃ b, f a = .ok b := by
  simp only [traverse_eq_ok_iff, exists_forall₂_iff]

end Outcome

end LogLayout
