import LogLayout.Pattern.Render
import LogLayout.Proofs.Span

/-!
# What can be rendered

Events are built of captured fields and of spans whose arguments are captured, so nothing but an
integer can stand in the way of a text. `Pattern.exists_text_iff_writable` says so exactly: an event
that is accepted has a text by a pattern if and only if every integer that the pattern shows can be
written. The walk along the spans does not fail either: it ends at a span without parent.
-/

namespace LogLayout

open Numeral (Writable)

/-- The events that are accepted: their details give plain fields, and the spans of their arena were
pushed with plain arguments. -/
inductive Event.Accepted : Event → Prop
  | intro {d : Details} {arena : SpanArena} {span : Option Handle} {e : Event}
      (plain : d.fields.Plain) (pushed : arena.Pushed FieldSource.Plain)
      (h : within d arena span = .ok e) : Accepted e

/-- The integers of an event that a token shows. -/
def Token.integers (e : Event) : Token → List Int
  | fields _ => Field.integers e.fields
  | span o => if o.args then e.spanChain.flatMap fun f => Field.integers f.args else []
  | line => e.line.toList
  | _ => []

/-- The integers of an event that a pattern shows. -/
def Pattern.integers (p : Pattern) (e : Event) : List Int := p.tokens.flatMap (Token.integers e)

/-! ### Accepted events -/

namespace Event

variable {d : Details} {arena : SpanArena} {span : Option Handle} {e : Event}

/-- An event is built when its level is known, its fields can be captured and its innermost span is
in the arena. -/
theorem within_eq_ok_iff :
    within d arena span = .ok e ↔
      ∃ level, Level.ofDatum d.level = .ok level ∧
        ∃ fields, Field.ofSource d.fields = .ok fields ∧
          (∀ h, span = some h → arena.contains h = true) ∧
          e = ⟨level, d.target, d.message, fields, d.timestamp, arena, span, d.file, d.line⟩ := by
  simp only [within, Outcome.bind_eq_ok_iff, Outcome.mapError_eq_ok_iff, checked,
    ← SpanArena.check_eq_ok_iff .spanOutside]
  refine exists_congr fun level => and_congr_right fun _ => exists_congr fun fields =>
    and_congr_right fun _ => ?_
  cases arena.check span .spanOutside with
  | error cause => simp
  | ok u => simp [eq_comm]

/-- Events with a chain of spans of their own are accepted. -/
theorem accepted_of_create {spans : List (String × FieldSource)} (plain : d.fields.Plain)
    (plainArgs : ∀ s ∈ spans, s.2.Plain) (h : create d spans = .ok e) : Accepted e := by
  obtain ⟨arena, harena, h⟩ := Outcome.bind_eq_ok_iff.mp h
  have pushed := SpanArena.pushed_nested plainArgs (Outcome.mapError_eq_ok_iff.mp harena)
  exact .intro plain pushed h

theorem Accepted.fields_captured (h : Accepted e) : ∀ f ∈ e.fields, f.value.isCaptured = true := by
  cases h with
  | intro plain _ h =>
      obtain ⟨_, -, fields, hfields, -, rfl⟩ := within_eq_ok_iff.mp h
      exact Field.isCaptured_of_ofSource plain hfields

theorem Accepted.args_captured (h : Accepted e) :
    ∀ f ∈ e.spanChain, ∀ field ∈ f.args, field.value.isCaptured = true := by
  cases h with
  | @intro _ arena span _ _ pushed h =>
      obtain ⟨_, -, _, -, -, rfl⟩ := within_eq_ok_iff.mp h
      intro f mem
      rw [spanChain] at mem
      cases span with
      | none => cases mem
      | some p => exact pushed.isCaptured f (SpanArena.mem_of_mem_chainAmong mem)

/-- The spans of an accepted event are found, and the outermost has no parent. -/
theorem Accepted.chain_ends (h : Accepted e) :
    e.spans.chain e.span = .ok e.spanChain ∧
      ∀ root, e.spanChain.getLast? = some root → root.parent = none := by
  cases h with
  | @intro _ arena span _ _ pushed h =>
      obtain ⟨_, -, _, -, inside, rfl⟩ := within_eq_ok_iff.mp h
      cases span with
      | none => exact ⟨rfl, by simp [spanChain]⟩
      | some p =>
          refine ⟨SpanArena.chain_eq (inside p rfl), ?_⟩
          intro root last
          have bounds := SpanArena.contains_iff.mp (inside p rfl)
          rw [SpanArena.size] at bounds
          obtain ⟨root', last', noParent⟩ :=
            SpanArena.chainAmong_ends pushed.rooted (n := p.number.toNat) (by omega)
          rw [spanChain] at last
          exact Option.some.inj (last'.symm.trans last) ▸ noParent

end Event

/-! ### Texts -/

variable {e : Event}

theorem FieldsOptions.exists_render_eq_ok_iff {o : FieldsOptions} {fields : List Field}
    (captured : ∀ f ∈ fields, f.value.isCaptured = true) :
    (∃ s, o.render fields = .ok s) ↔ ∀ n ∈ Field.integers fields, Writable n := by
  rw [render]
  split
  · next none => simp [Field.integers, List.isEmpty_iff.mp none]
  · exact Outcome.exists_return_eq_ok_iff.trans (Field.exists_renderAll_eq_ok_iff captured)

theorem SpanOptions.exists_renderFrame_eq_ok_iff {o : SpanOptions} {f : Frame}
    (captured : ∀ field ∈ f.args, field.value.isCaptured = true) :
    (∃ s, o.renderFrame f = .ok s) ↔ (o.args = true → ∀ n ∈ Field.integers f.args, Writable n) := by
  rw [renderFrame]
  split
  · next shown =>
      simp only [shown, true_implies]
      rw [← Field.exists_renderAll_eq_ok_iff captured]
      exact Outcome.exists_return_eq_ok_iff.trans Outcome.exists_map_eq_ok_iff
  · next hidden =>
      simp only [hidden, Bool.false_eq_true, false_implies, iff_true]
      exact ⟨_, rfl⟩

/-- A token has a text exactly when each integer that it shows can be written. -/
theorem Token.exists_render_eq_ok_iff (accepted : e.Accepted) (t : Token) :
    (∃ s, t.render e = .ok s) ↔ ∀ n ∈ t.integers e, Writable n := by
  cases t with
  | level | datetime | target | message | text | file => simp [render, integers]
  | fields o => exact FieldsOptions.exists_render_eq_ok_iff accepted.fields_captured
  | line =>
      cases hline : e.line with
      | none => simp [render, integers, hline]
      | some n => simp [render, integers, hline, Numeral.exists_write_eq_ok_iff]
  | span o =>
      have frames : (∃ texts, e.spanChain.mapM o.renderFrame = .ok texts) ↔
          ∀ f ∈ e.spanChain, o.args = true → ∀ n ∈ Field.integers f.args, Writable n := by
        rw [Outcome.exists_mapM_eq_ok_iff]
        exact forall₂_congr fun f mem =>
          SpanOptions.exists_renderFrame_eq_ok_iff (accepted.args_captured f mem)
      rw [render]
      refine Outcome.exists_return_eq_ok_iff.trans (frames.trans ?_)
      cases hargs : o.args with
      | false => simp [integers, hargs]
      | true =>
          simp only [integers, hargs, if_true, true_implies, List.mem_flatMap]
          constructor
          · rintro h n ⟨f, mem, hn⟩
            exact h f mem n hn
          · intro h f mem n hn
            exact h n ⟨f, mem, hn⟩

namespace Pattern

/-- An accepted event has a text by a pattern exactly when each integer that the pattern shows can
be written. Its spans never stand in the way. -/
theorem exists_text_iff_writable (accepted : e.Accepted) (p : Pattern) :
    ((∃ s, p.render e = .ok s) ↔ ∀ n ∈ p.integers e, Writable n) ∧
      e.spans.chain e.span = .ok e.spanChain ∧
      ∀ root, e.spanChain.getLast? = some root → root.parent = none := by
  refine ⟨?_, accepted.chain_ends⟩
  have segments : (∃ texts, p.segments.mapM (Segment.render e) = .ok texts) ↔
      ∀ n ∈ p.integers e, Writable n := by
    rw [Outcome.exists_mapM_eq_ok_iff]
    simp only [integers, tokens, List.mem_flatMap, List.mem_filterMap]
    constructor
    · rintro h n ⟨t, ⟨s, mem, ht⟩, hn⟩
      cases s with
      | literal => cases ht
      | token =>
          obtain rfl := Option.some.inj ht
          exact (Token.exists_render_eq_ok_iff accepted _).mp (h _ mem) n hn
    · intro h s mem
      cases s with
      | literal text => exact ⟨text, rfl⟩
      | token t =>
          exact (Token.exists_render_eq_ok_iff accepted t).mpr fun n hn => h n ⟨t, ⟨_, mem, rfl⟩, hn⟩
  rw [render]
  exact Outcome.exists_return_eq_ok_iff.trans segments

/-- A span with an argument that is shown. -/
theorem render_span_with_argument :
    ∃ e : Event, e.Accepted ∧
      ∃ s, render ⟨[.token (.span (SpanOptions.mk "<" ">" true "(" ")" none))], ""⟩ e = .ok s := by
  have plain : FieldSource.Plain (.datum .null) := trivial
  have created : Event.create ⟨.level .info, "app", "", .datum .null,
      ⟨2024, 1, 2, 3, 4, 5, 678, false⟩, none, none⟩
      [("request", .datum (.dictionary [(.text "id", .int 7)]))] =
      .ok ⟨.info, "app", "", [], ⟨2024, 1, 2, 3, 4, 5, 678, false⟩,
        ⟨[⟨"request", [⟨"id", .int 7⟩], none⟩]⟩, some (.index 0), none, none⟩ := rfl
  have accepted := Event.accepted_of_create plain (by simp [FieldSource.Plain]) created
  refine ⟨_, accepted, (exists_text_iff_writable accepted _).1.mpr ?_⟩
  intro n mem
  have seven : n = 7 := by
    simpa [integers, tokens, Token.integers, Event.spanChain, SpanArena.chainAmong, Field.integers,
      Value.integers, Handle.number] using mem
  have ten : 10 ^ 1 ≤ 10 ^ Numeral.digitLimit := Nat.pow_le_pow_right (by decide) (by decide)
  rw [seven, Writable]
  exact Nat.lt_of_lt_of_le (by decide) ten

/-- A field with an integer of one digit more than can be written leaves an event without a text. -/
theorem no_render_of_long_field :
    ∃ e : Event,
      Event.within ⟨.level .info, "app", "",
        .datum (.dictionary [(.text "n", .int (10 ^ Numeral.digitLimit))]),
        ⟨2024, 1, 2, 3, 4, 5, 678, false⟩, none, none⟩ .empty none = .ok e ∧
      e.Accepted ∧ ¬ ∃ s, render ⟨[.token (.fields {})], "$fields"⟩ e = .ok s := by
  have power (k : Nat) : ((10 : Int) ^ k).natAbs = 10 ^ k := Int.natAbs_pow 10 k
  have long : ¬ Writable (10 ^ Numeral.digitLimit) := by
    rw [Writable, power]
    exact Nat.lt_irrefl _
  generalize (10 : Int) ^ Numeral.digitLimit = n at long
  have plain : FieldSource.Plain (.datum (.dictionary [(.text "n", .int n)])) := trivial
  have built : Event.within ⟨.level .info, "app", "", .datum (.dictionary [(.text "n", .int n)]),
      ⟨2024, 1, 2, 3, 4, 5, 678, false⟩, none, none⟩ .empty none =
      .ok ⟨.info, "app", "", [⟨"n", .int n⟩], ⟨2024, 1, 2, 3, 4, 5, 678, false⟩, .empty, none, none,
        none⟩ := rfl
  have accepted := Event.Accepted.intro plain .empty built
  refine ⟨_, built, accepted, ?_⟩
  rw [(exists_text_iff_writable accepted _).1]
  intro writable
  exact long (writable n (by simp [integers, tokens, Token.integers, Field.integers, Value.integers]))

end Pattern

end LogLayout
