import Mathlib.Logic.Relation
import LogLayout.Proofs.Span.Text

/-!
# What a text depends on

A pattern names what it shows, and nothing else of an event has a part in the text. Two events that
agree on what each token shows (`Token.Agree`) get the same text from it, or none for the same
reason, however their arenas are laid out and whichever handles their spans have. It takes two runs
of the renderer side by side: over the segments of the pattern, and within a span token over the two
chains frame by frame.

`Pattern.text_depends_on_shown` says this, and what becomes of it for the arguments of spans that no
token shows, for the fields of an event, and for frames that are pushed onto its arena.
-/

namespace LogLayout

/-! ### Agreement -/

/-- Two frames agree on their names, and on their arguments if these are shown. -/
structure Frame.Agree (shown : Bool) (f g : Frame) : Prop where
  name_eq : g.name = f.name
  args_eq : shown = true → g.args = f.args

/-- Two events agree on what a token shows. A span token shows the names of the chain, and the
arguments too if it has them on. -/
def Token.Agree (e e' : Event) : Token → Prop
  | level _ => e'.level = e.level
  | datetime _ => e'.timestamp = e.timestamp
  | target => e'.target = e.target
  | message => e'.message = e.message
  | fields _ => e'.fields = e.fields
  | span o => List.Forall₂ (Frame.Agree o.args) e.spanChain e'.spanChain
  | text _ => True
  | file => e'.file = e.file
  | line => e'.line = e.line

/-- Two events agree on what the tokens of a pattern show. -/
def Pattern.Agree (p : Pattern) (e e' : Event) : Prop := ∀ t ∈ p.tokens, t.Agree e e'

/-- Two frames are the same but for their arguments. -/
structure Frame.SameOutline (f g : Frame) : Prop where
  name_eq : g.name = f.name
  parent_eq : g.parent = f.parent

/-- A push leads from one arena to the other. -/
def SpanArena.PushesTo (a a' : SpanArena) : Prop :=
  ∃ name args parent handle, a.push name args parent = .ok (a', handle)

/-! ### Two runs side by side -/

variable {e e' : Event}

theorem Frame.agree_self (shown : Bool) (chain : List Frame) :
    List.Forall₂ (Frame.Agree shown) chain chain := by
  rw [List.forall₂_same]
  intro f _
  exact ⟨rfl, fun _ => rfl⟩

theorem SpanOptions.renderFrame_eq_of_agree {o : SpanOptions} {f g : Frame}
    (agree : f.Agree o.args g) : o.renderFrame g = o.renderFrame f := by
  rw [renderFrame, renderFrame, agree.name_eq]
  split
  · next shown => rw [agree.args_eq shown]
  · rfl

theorem Token.render_eq_of_agree {t : Token} (agree : t.Agree e e') : t.render e' = t.render e := by
  cases t with
  | level o => exact congrArg (fun l => Except.ok (o.render l)) agree
  | datetime format => exact congrArg (fun time => Except.ok (time.format format.text)) agree
  | target => exact congrArg Except.ok agree
  | message => exact congrArg Except.ok agree
  | fields o => exact congrArg o.render agree
  | span o =>
      have texts : e.spanChain.mapM o.renderFrame = e'.spanChain.mapM o.renderFrame :=
        Outcome.mapM_congr (agree.imp fun f g same => (o.renderFrame_eq_of_agree same).symm)
      rw [render, render, texts]
  | text value => rfl
  | file => exact congrArg (fun file => Except.ok (file.getD "")) agree
  | line =>
      have same : e'.line = e.line := agree
      rw [render, render, same]

/-- A pattern gives two events the same text if they agree on what its tokens show. -/
theorem Pattern.render_eq_of_agree {p : Pattern} (agree : p.Agree e e') :
    p.render e' = p.render e := by
  have texts : p.segments.mapM (Segment.render e') = p.segments.mapM (Segment.render e) := by
    apply Outcome.mapM_congr
    rw [List.forall₂_same]
    intro s mem
    cases s with
    | literal text => rfl
    | token t => exact Token.render_eq_of_agree (agree t (List.mem_filterMap.mpr ⟨_, mem, rfl⟩))
  rw [render, render, texts]

/-! ### Other arenas -/

namespace SpanArena

/-- Chains among frames of the same outline agree on the names. -/
theorem chainAmong_agree {frames frames' : List Frame}
    (same : List.Forall₂ Frame.SameOutline frames frames') (n : Nat) :
    List.Forall₂ (Frame.Agree false) (chainAmong frames n) (chainAmong frames' n) := by
  induction same generalizing n with
  | nil => exact .nil
  | @cons f g older older' outline same ih =>
      by_cases newest : n = older.length
      · subst newest
        have other : chainAmong (g :: older') older'.length = g :: chainFrom older' g.parent :=
          chainAmong_newest g
        rw [← same.length_eq, outline.parent_eq] at other
        rw [other, chainAmong_newest]
        refine .cons ⟨outline.name_eq, nofun⟩ ?_
        cases f.parent with
        | none => exact .nil
        | some p => exact ih p.number.toNat
      · rw [chainAmong, if_neg newest, chainAmong, if_neg (same.length_eq ▸ newest)]
        exact ih n

/-- Pushes leave the chain of a handle as it is. -/
theorem chainFrom_of_pushes {a a' : SpanArena} {start : Option Handle}
    (inside : ∀ h, start = some h → a.contains h = true)
    (pushes : Relation.ReflTransGen PushesTo a a') :
    (∀ h, start = some h → a'.contains h = true) ∧
      chainFrom a'.newestFirst start = chainFrom a.newestFirst start := by
  induction pushes with
  | refl => exact ⟨inside, rfl⟩
  | tail _ last ih =>
      obtain ⟨name, args, parent, handle, pushed⟩ := last
      obtain ⟨still, same⟩ := ih
      obtain ⟨-, captured, -, made⟩ := push_eq_ok_iff.mp pushed
      obtain ⟨rfl, -⟩ := Prod.mk.inj made
      refine ⟨fun h hs => contains_cons _ (still h hs), ?_⟩
      rw [← same]
      exact chainFrom_cons _ fun h hs => contains_iff.mp (still h hs)

end SpanArena

/-- Events that differ in nothing but their arenas agree if their chains do. -/
theorem Token.agree_of_spans {t : Token} {a' : SpanArena}
    (chains : ∀ o, t = .span o →
      List.Forall₂ (Frame.Agree o.args) e.spanChain { e with spans := a' }.spanChain) :
    t.Agree e { e with spans := a' } := by
  cases t with
  | span o => exact chains o rfl
  | text value => trivial
  | _ => rfl

/-- The text of an event depends on nothing but what the tokens of the pattern show: the attributes
that they name, the names of the spans in the chain, and the arguments where a span token has them
on. So the arguments of spans have no part in it unless a token has them on, fields have none unless
there is a token for them, and frames that are pushed onto the arena never have any. -/
theorem Pattern.text_depends_on_shown (p : Pattern) (e : Event) :
    (∀ e', p.Agree e e' → p.render e' = p.render e) ∧
      ((∀ o, Token.span o ∈ p.tokens → o.args = false) →
        ∀ a', List.Forall₂ Frame.SameOutline e.spans.newestFirst a'.newestFirst →
          p.render { e with spans := a' } = p.render e) ∧
      ((∀ o, Token.fields o ∉ p.tokens) →
        ∀ fields, p.render { e with fields := fields } = p.render e) ∧
      ((∀ h, e.span = some h → e.spans.contains h = true) →
        ∀ a', Relation.ReflTransGen SpanArena.PushesTo e.spans a' →
          p.render { e with spans := a' } = p.render e) := by
  refine ⟨fun e' => Pattern.render_eq_of_agree, ?_, ?_, ?_⟩
  · intro hidden a' outline
    apply Pattern.render_eq_of_agree
    intro t mem
    apply Token.agree_of_spans
    rintro o rfl
    rw [hidden o mem, Event.spanChain, Event.spanChain]
    cases e.span with
    | none => exact .nil
    | some h => exact SpanArena.chainAmong_agree outline _
  · intro absent fields
    apply Pattern.render_eq_of_agree
    intro t mem
    cases t with
    | fields o => exact absurd mem (absent o)
    | span o => exact Frame.agree_self o.args e.spanChain
    | text value => trivial
    | _ => rfl
  · intro inside a' pushes
    apply Pattern.render_eq_of_agree
    intro t mem
    apply Token.agree_of_spans
    intro o _
    have same : { e with spans := a' }.spanChain = e.spanChain := by
      rw [Event.spanChain_eq, Event.spanChain_eq]
      exact (SpanArena.chainFrom_of_pushes inside pushes).2
    rw [same]
    exact Frame.agree_self o.args e.spanChain

/-- Two spans by name, in an arena of their own and in one that holds a third span before them. -/
theorem Pattern.text_depends_on_shown_names :
    ∃ (p : Pattern) (e e' : Event), p.render e = .ok "queryrequest: done" ∧
      e'.span ≠ e.span ∧ e'.spans.size ≠ e.spans.size ∧ p.render e' = p.render e ∧
      (∃ a', a'.newestFirst.map Frame.args ≠ e.spans.newestFirst.map Frame.args ∧
        p.render { e with spans := a' } = p.render e) ∧
      p.render { e with fields := [⟨"rows", .int 3⟩] } = p.render e ∧
      ∃ a', SpanArena.PushesTo e.spans a' ∧ p.render { e with spans := a' } = p.render e := by
  let p : Pattern := ⟨[.token (.span {}), .literal ": ", .token .message], ""⟩
  let request : Frame := { name := "request" }
  let query (parent : Int) (args : List Field) : Frame := ⟨"query", args, some (.index parent)⟩
  let e : Event :=
    { level := .info, target := "app", message := "done",
      timestamp := ⟨2024, 1, 2, 3, 4, 5, 678, false⟩,
      spans := ⟨[query 0 [], request]⟩, span := some (.index 1) }
  let e' : Event :=
    { level := .error, target := "db", message := "done",
      timestamp := ⟨2025, 1, 2, 3, 4, 5, 678, false⟩,
      spans := ⟨[query 1 [⟨"ok", .bool true⟩], request, { name := "start" }]⟩,
      span := some (.index 2) }
  obtain ⟨shown, args, fields, pushes⟩ := text_depends_on_shown p e
  have chains : List.Forall₂ (Frame.Agree false) [query 0 [], request]
      [query 1 [⟨"ok", .bool true⟩], request] :=
    .cons ⟨rfl, nofun⟩ (.cons ⟨rfl, nofun⟩ .nil)
  have agree : p.Agree e e' := by
    intro t mem
    obtain rfl | rfl : t = .span {} ∨ t = .message := by simpa [p, tokens] using mem
    · exact chains
    · rfl
  have hidden : ∀ o, Token.span o ∈ p.tokens → o.args = false := by
    intro o mem
    obtain rfl : o = {} := by simpa [p, tokens] using mem
    rfl
  have outline : List.Forall₂ Frame.SameOutline e.spans.newestFirst
      [query 0 [⟨"ok", .bool true⟩], request] :=
    .cons ⟨rfl, rfl⟩ (.cons ⟨rfl, rfl⟩ .nil)
  have absent : ∀ o, Token.fields o ∉ p.tokens := by
    intro o
    simp [p, tokens]
  have inside : ∀ h, e.span = some h → e.spans.contains h = true := by
    rintro h ⟨⟩
    rfl
  have pushed : SpanArena.PushesTo e.spans ⟨[{ name := "other" }, query 0 [], request]⟩ :=
    ⟨"other", .ready [], none, .index 2, rfl⟩
  exact ⟨p, e, e', rfl, by decide, by decide, shown e' agree,
    ⟨⟨[query 0 [⟨"ok", .bool true⟩], request]⟩, by simp [e, query], args hidden _ outline⟩,
    fields absent _, ⟨_, pushed, pushes inside _ (.single pushed)⟩⟩

end LogLayout
