import Mathlib.Data.List.Flatten
import Mathlib.Data.List.Infix
import LogLayout.Dispatch

/-!
# Routing

A policy with routes is asked two questions about an event: whether it is enabled, and which
appenders get it. Both answers come from one list, the routes that the event is sent along
(`Policy.followed`), and this is made in two steps. The target alone decides which routes come into
question (`Policy.candidates`): all those that cover it, or the first of them. Of these the level
leaves those that it reaches.

So the two answers fit together and grow with the level (`Policy.enabled_coherent_monotone`), and
the policy of the first match is the policy of all matches, cut off behind the first route in
question (`Policy.firstMatching_refines_allMatching`).
-/

namespace LogLayout

/-! ### Levels in order -/

namespace Level

variable {l : Level} {m n : Int}

theorem number_ofNumber : (ofNumber n).number =
    if 40 ≤ n then 40 else if 30 ≤ n then 30 else if 20 ≤ n then 20 else if 10 ≤ n then 10
    else 5 := by
  simp only [ofNumber, ofReach, List.find?, number]
  grind [number]

/-- A number stands for the greatest level that it reaches. The least level needs no reaching. -/
theorem le_ofNumber_iff : l ≤ ofNumber n ↔ l = trace ∨ l.number ≤ n := by
  rw [le_def, number_ofNumber]
  cases l <;> grind [number]

theorem ofNumber_mono (h : m ≤ n) : ofNumber m ≤ ofNumber n := by
  have own : ofNumber m ≤ ofNumber m := Int.le_refl _
  rw [le_ofNumber_iff]
  rcases le_ofNumber_iff.mp own with least | reached
  · exact .inl least
  · exact .inr (Int.le_trans reached h)

end Level

namespace Policy

variable {p : Policy} {routes : List Route} {r : Route} {level level' : Level} {target : String}

/-- The routes that come into question for the events of a target, however severe these are. -/
def candidates (target : String) : Policy → List Route
  | allMatching routes => routes.filter fun r => r.covers target
  | firstMatching routes => (routes.filter fun r => r.covers target).take 1
  | fixed .. => []

/-- The routes along which the events of a level from a target are sent. -/
def followed (level : Level) (target : String) (p : Policy) : List Route :=
  (p.candidates target).filter fun r => r.level ≤ level

theorem mem_followed_iff :
    r ∈ p.followed level target ↔ r ∈ p.candidates target ∧ r.level ≤ level := by
  simp [followed]

theorem candidates_sublist (routed : p.routes? = some routes) :
    (p.candidates target).Sublist routes := by
  cases p with
  | allMatching own =>
      obtain rfl := Option.some.inj routed
      exact List.filter_sublist
  | firstMatching own =>
      obtain rfl := Option.some.inj routed
      exact (List.take_sublist 1 _).trans List.filter_sublist
  | fixed => cases routed

theorem candidates_firstMatching :
    (firstMatching routes).candidates target = (firstRoute? routes target).toList := by
  rw [candidates, List.take_one, List.head?_filter, firstRoute?]

/-- A more severe event is sent along the same routes, and maybe along others. -/
theorem followed_mono (p : Policy) (target : String) (h : level ≤ level') :
    (p.followed level target).Sublist (p.followed level' target) := by
  refine List.monotone_filter_right _ fun r reached => ?_
  rw [decide_eq_true_eq] at reached ⊢
  exact Int.le_trans reached h

/-! ### The two answers -/

/-- An event is enabled when there is a route for it. -/
theorem enabled_iff_followed (routed : p.routes? = some routes) :
    p.enabled level target = true ↔ p.followed level target ≠ [] := by
  cases p with
  | allMatching own => simp [enabled, followed, candidates, Route.takes]
  | firstMatching own =>
      rw [followed, candidates_firstMatching, enabled]
      cases firstRoute? own target with
      | none => simp
      | some r => simp
  | fixed => cases routed

/-- The appenders of an event are those of its routes, in order. -/
theorem appendersFor_eq (routed : p.routes? = some routes) :
    p.appendersFor level target = (p.followed level target).flatMap Route.appenders := by
  cases p with
  | allMatching own =>
      rw [appendersFor, followed, candidates, List.filter_filter]
      rfl
  | firstMatching own =>
      rw [followed, candidates_firstMatching, appendersFor]
      cases firstRoute? own target with
      | none => rfl
      | some r => by_cases reached : r.level ≤ level <;> simp [reached]
  | fixed => cases routed

theorem appendersFor_of_disabled (routed : p.routes? = some routes)
    (disabled : p.enabled level target = false) : p.appendersFor level target = [] := by
  have nowhere : p.followed level target = [] := by
    by_contra somewhere
    rw [(enabled_iff_followed routed).mpr somewhere] at disabled
    cases disabled
  rw [appendersFor_eq routed, nowhere, List.flatMap_nil]

/-- Where every route has appenders, an event is enabled just when there are appenders for it. -/
theorem enabled_iff_appendersFor (routed : p.routes? = some routes)
    (used : ∀ r ∈ routes, r.appenders ≠ []) :
    p.enabled level target = true ↔ p.appendersFor level target ≠ [] := by
  rw [enabled_iff_followed routed, appendersFor_eq routed, not_iff_not, List.flatMap_eq_nil_iff]
  constructor
  · intro nowhere
    simp [nowhere]
  · intro unused
    refine List.eq_nil_iff_forall_not_mem.mpr fun r sent => used r ?_ (unused r sent)
    exact (candidates_sublist routed).subset (mem_followed_iff.mp sent).1

theorem appendersFor_mono (routed : p.routes? = some routes) (h : level ≤ level') :
    (p.appendersFor level target).Sublist (p.appendersFor level' target) := by
  rw [appendersFor_eq routed, appendersFor_eq routed]
  exact (followed_mono p target h).flatMap Route.appenders

theorem enabled_mono (routed : p.routes? = some routes) (h : level ≤ level')
    (enabled : p.enabled level target = true) : p.enabled level' target = true := by
  rw [enabled_iff_followed routed] at enabled ⊢
  intro nowhere
  have fewer := followed_mono p target h
  rw [nowhere] at fewer
  exact enabled (List.sublist_nil.mp fewer)

/-- The question whether an event is enabled holds no delivery back. -/
theorem dispatch_eq_deliver (routed : p.routes? = some routes) (e : Event) (out : Outputs) :
    (Dispatcher.mk p).dispatch e out =
      Dispatcher.deliver e 0 out (p.appendersFor e.level e.target) := by
  rw [Dispatcher.dispatch, Dispatcher.enabled]
  cases enabled : p.enabled e.level e.target with
  | true => rfl
  | false =>
      rw [appendersFor_of_disabled routed enabled]
      rfl

/-- The two answers of a policy with routes fit together: there are no appenders for an event that
is not enabled, and an enabled one has some if every route has. Both only grow with the number of
the level: more severe events from a target get the same appenders in the same order, and maybe
others between them. -/
theorem enabled_coherent_monotone (routed : p.routes? = some routes) (target : String) :
    (∀ level, p.enabled level target = false → p.appendersFor level target = []) ∧
    ((∀ r ∈ routes, r.appenders ≠ []) →
      ∀ level, p.enabled level target = true ↔ p.appendersFor level target ≠ []) ∧
    (∀ (e : Event) (out : Outputs), e.target = target →
      (Dispatcher.mk p).dispatch e out =
        Dispatcher.deliver e 0 out (p.appendersFor e.level target)) ∧
    ∀ m n : Int, m ≤ n →
      (p.appendersFor (.ofNumber m) target).Sublist (p.appendersFor (.ofNumber n) target) ∧
      (p.enabled (.ofNumber m) target = true → p.enabled (.ofNumber n) target = true) := by
  refine ⟨fun level => appendersFor_of_disabled routed,
    fun used level => enabled_iff_appendersFor routed used, ?_, fun m n h => ⟨?_, ?_⟩⟩
  · rintro e out rfl
    exact dispatch_eq_deliver routed e out
  · exact appendersFor_mono routed (Level.ofNumber_mono h)
  · exact enabled_mono routed (Level.ofNumber_mono h)

/-- An override for one target, with an appender twice, and a route for everything. -/
theorem enabled_coherent_override :
    ∃ (a b : Appender) (p : Policy), a.sink ≠ b.sink ∧
      p.routes? = some [⟨[a, b, a], .warn, "app"⟩, ⟨[b], .trace, ""⟩] ∧
      p.enabled (.ofNumber 29) "app::web" = false ∧ p.appendersFor (.ofNumber 29) "app::web" = [] ∧
      p.enabled (.ofNumber 30) "app::web" = true ∧ p.appendersFor (.ofNumber 30) "app::web" ≠ [] ∧
      p.enabled (.ofNumber 50) "app::web" = true := by
  let a : Appender := ⟨⟨[.token .message], "$message"⟩, .standardOutput⟩
  let b : Appender := ⟨⟨[.token .target], "$target"⟩, .standardError⟩
  let p : Policy := .firstMatching [⟨[a, b, a], .warn, "app"⟩, ⟨[b], .trace, ""⟩]
  obtain ⟨disabled, used, -, mono⟩ := enabled_coherent_monotone (p := p) rfl "app::web"
  have below : p.enabled (.ofNumber 29) "app::web" = false := by decide
  have reached : p.enabled (.ofNumber 30) "app::web" = true := by decide
  have everyRoute : ∀ r ∈ [⟨[a, b, a], .warn, "app"⟩, ⟨[b], .trace, ""⟩],
      Route.appenders r ≠ [] := by simp
  exact ⟨a, b, p, by decide, rfl, below, disabled _ below, reached, (used everyRoute _).mp reached,
    (mono 30 50 (by decide)).2 reached⟩

/-! ### First matches and all matches -/

/-- The first match is the first of all matches. -/
theorem followed_prefix (routes : List Route) (level : Level) (target : String) :
    (firstMatching routes).followed level target <+: (allMatching routes).followed level target :=
  (List.take_prefix 1 _).filter _

theorem length_followed_le (routes : List Route) (level : Level) (target : String) :
    ((firstMatching routes).followed level target).length ≤ 1 :=
  (List.length_filter_le _ _).trans (List.length_take_le 1 _)

/-- Where no two routes come into question, the first one is all there is. -/
theorem followed_eq_of_sole (sole : routes.countP (fun r => r.covers target) ≤ 1)
    (level : Level) :
    (firstMatching routes).followed level target = (allMatching routes).followed level target := by
  rw [List.countP_eq_length_filter] at sole
  rw [followed, followed, candidates, candidates, List.take_of_length_le sole]

/-- The policy of the first match selects a beginning of what the policy of all matches selects, the
appenders of one route at most, and has no other events enabled. The two do not differ where no more
than one route covers the target. -/
theorem firstMatching_refines_allMatching (routes : List Route) (level : Level)
    (target : String) :
    (firstMatching routes).appendersFor level target <+:
      (allMatching routes).appendersFor level target ∧
    ((firstMatching routes).appendersFor level target = [] ∨
      ∃ r ∈ routes, r.takes level target = true ∧
        (firstMatching routes).appendersFor level target = r.appenders) ∧
    ((firstMatching routes).enabled level target = true →
      (allMatching routes).enabled level target = true) ∧
    (routes.countP (fun r => r.covers target) ≤ 1 →
      (firstMatching routes).appendersFor level target =
        (allMatching routes).appendersFor level target ∧
      (firstMatching routes).enabled level target = (allMatching routes).enabled level target) := by
  have first : (firstMatching routes).routes? = some routes := rfl
  have all : (allMatching routes).routes? = some routes := rfl
  have cut := followed_prefix routes level target
  rw [appendersFor_eq first, appendersFor_eq all]
  refine ⟨cut.flatMap _, ?_, ?_, ?_⟩
  · have single := length_followed_le routes level target
    match followed : (firstMatching routes).followed level target with
    | [] => exact .inl rfl
    | [r] =>
        have sent : r ∈ (allMatching routes).followed level target :=
          cut.subset (followed ▸ List.mem_singleton_self r)
        obtain ⟨covering, reached⟩ := mem_followed_iff.mp sent
        obtain ⟨mem, covers⟩ := List.mem_filter.mp covering
        refine .inr ⟨r, mem, by simp [Route.takes, reached, covers], by simp⟩
    | _ :: _ :: _ => simp [followed] at single
  · rw [enabled_iff_followed first, enabled_iff_followed all]
    intro somewhere nowhere
    rw [nowhere] at cut
    exact somewhere (List.prefix_nil.mp cut)
  · intro sole
    have same := followed_eq_of_sole sole level
    refine ⟨by rw [same], ?_⟩
    rw [Bool.eq_iff_iff, enabled_iff_followed first, enabled_iff_followed all, same]

end Policy

end LogLayout
