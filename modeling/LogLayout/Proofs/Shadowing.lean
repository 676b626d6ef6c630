import LogLayout.Policy
import LogLayout.Proofs.Target

/-!
# Shadowed routes

Targets are nested: what a target covers, each target that covers it covers as well. Under the
policy of the first match this makes routes dead. A route is chosen for the events of some
target exactly when no earlier route covers its own target (`Policy.exists_findIdx_eq_iff`), and
`Policy.shadowed_route_is_dead` says that one that is never chosen can be left out.
-/

namespace LogLayout

namespace Policy

variable {routes later : List Route} {r : Route} {i j : Nat} {target : String}

/-- Two policies answer both questions alike, whatever the event. -/
def Alike (p q : Policy) : Prop :=
  ∀ level target, p.enabled level target = q.enabled level target ∧
    p.appendersFor level target = q.appendersFor level target

/-- The answers to an event depend on the first route for its target alone. -/
theorem alike_of_firstRoute? {routes' : List Route}
    (same : ∀ target, firstRoute? routes target = firstRoute? routes' target) :
    (firstMatching routes).Alike (firstMatching routes') := by
  intro level target
  simp only [enabled, appendersFor, same, and_self]

/-- Once a route covers a target, the routes behind it do not count. -/
theorem firstRoute?_append_of_mem (mem : r ∈ routes) (covers : r.covers target = true)
    (later : List Route) : firstRoute? (routes ++ later) target = firstRoute? routes target := by
  have found : (firstRoute? routes target).isSome = true := List.find?_isSome.mpr ⟨r, mem, covers⟩
  rw [firstRoute?, List.find?_append]
  exact Option.or_of_isSome found

/-! ### Routes that are never chosen -/

/-- A route behind one that covers its target is passed over: events that it could take have been
taken before. -/
theorem firstRoute?_eraseIdx (earlier : i < j) (within : j < routes.length)
    (shadows : Target.covers routes[i].target routes[j].target = true) (target : String) :
    firstRoute? (routes.eraseIdx j) target = firstRoute? routes target := by
  have split : routes = routes.take j ++ routes[j] :: routes.drop (j + 1) := by simp
  cases own : routes[j].covers target with
  | true =>
      have before : routes[i] ∈ routes.take j := List.mem_take_iff_getElem.mpr
        ⟨i, by omega, rfl⟩
      have covers : routes[i].covers target = true := Target.covers_trans shadows own
      calc firstRoute? (routes.eraseIdx j) target
          = firstRoute? (routes.take j ++ routes.drop (j + 1)) target := by
            rw [List.eraseIdx_eq_take_drop_succ]
        _ = firstRoute? (routes.take j) target := firstRoute?_append_of_mem before covers _
        _ = firstRoute? (routes.take j ++ routes[j] :: routes.drop (j + 1)) target :=
            (firstRoute?_append_of_mem before covers _).symm
        _ = firstRoute? routes target := by rw [← split]
  | false =>
      rw [List.eraseIdx_eq_take_drop_succ]
      conv_rhs => rw [split]
      simp only [firstRoute?, List.find?_append, List.find?_cons, own]

/-- A route is the first one for some target exactly when no earlier route covers its own. -/
theorem exists_findIdx_eq_iff (within : j < routes.length) :
    (∃ target, routes.findIdx (fun r => r.covers target) = j) ↔
      ∀ i (earlier : i < j), Target.covers routes[i].target routes[j].target = false := by
  simp only [List.findIdx_eq within]
  constructor
  · rintro ⟨target, own, others⟩ i earlier
    rw [Bool.eq_false_iff]
    intro shadows
    have covers : routes[i].covers target = true := Target.covers_trans shadows own
    exact absurd covers (by simp [others i earlier])
  · intro unshadowed
    exact ⟨routes[j].target, Target.covers_refl _, fun i earlier => unshadowed i earlier⟩

/-- Under the policy of the first match a route whose target lies under that of an earlier one can
be left out. Behind a route for everything, all routes can, or others can stand in their place. No
further route is idle: one that is not shadowed is the first for its own target. -/
theorem shadowed_route_is_dead (routes : List Route) :
    (∀ i j (earlier : i < j) (within : j < routes.length),
      Target.covers routes[i].target routes[j].target = true →
        (firstMatching (routes.eraseIdx j)).Alike (firstMatching routes)) ∧
    (∀ i (within : i < routes.length), routes[i].target = "" →
      ∀ later, (firstMatching (routes.take (i + 1) ++ later)).Alike (firstMatching routes)) ∧
    ∀ j (within : j < routes.length),
      (∃ target, routes.findIdx (fun r => r.covers target) = j) ↔
        ∀ i (earlier : i < j), Target.covers routes[i].target routes[j].target = false := by
  refine ⟨?_, ?_, fun j within => exists_findIdx_eq_iff within⟩
  · intro i j earlier within shadows
    exact alike_of_firstRoute? (firstRoute?_eraseIdx earlier within shadows)
  · intro i within everything later
    refine alike_of_firstRoute? fun target => ?_
    have mem : routes[i] ∈ routes.take (i + 1) := List.mem_take_iff_getElem.mpr ⟨i, by omega, rfl⟩
    have covers : routes[i].covers target = true := by
      rw [Route.covers, everything]
      exact Target.covers_empty target
    rw [firstRoute?_append_of_mem mem covers later,
      ← firstRoute?_append_of_mem mem covers (routes.drop (i + 1)), List.take_append_drop]

/-- A route for a pool below a target that has one already, and routes behind a catch-all. -/
theorem shadowed_route_is_dead_pool :
    ∃ (a b : Appender) (routes : List Route), a.sink ≠ b.sink ∧
      routes = [⟨[a], .warn, "app"⟩, ⟨[b], .trace, "app::db.pool"⟩, ⟨[b], .info, ""⟩,
        ⟨[a], .error, "web"⟩] ∧
      Target.covers "app" "app::db.pool" = true ∧
      (firstMatching (routes.eraseIdx 1)).Alike (firstMatching routes) ∧
      (firstMatching (routes.take 3 ++ [])).Alike (firstMatching routes) := by
  let a : Appender := ⟨⟨[.token .message], "$message"⟩, .standardOutput⟩
  let b : Appender := ⟨⟨[.token .target], "$target"⟩, .standardError⟩
  let routes : List Route := [⟨[a], .warn, "app"⟩, ⟨[b], .trace, "app::db.pool"⟩,
    ⟨[b], .info, ""⟩, ⟨[a], .error, "web"⟩]
  obtain ⟨dead, catchAll, -⟩ := shadowed_route_is_dead routes
  have shadows : Target.covers "app" "app::db.pool" = true := by decide
  exact ⟨a, b, routes, by decide, rfl, shadows, dead 0 1 (by decide) (by decide) shadows,
    catchAll 2 (by decide) rfl []⟩

end Policy

end LogLayout
