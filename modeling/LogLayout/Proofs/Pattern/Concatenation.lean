import LogLayout.Proofs.Pattern.Compilation
import LogLayout.Pattern.Render

/-!
# Patterns side by side

A text of the grammar keeps its meaning when another one is put behind it. The one thing that can
go wrong is at the seam: a token without parentheses at the end of the first text would go on with a
name character, or take a parenthesis, of the second. `compile_append` says that apart from this the
segments stand side by side, with a literal on both sides of the seam joined into one, and that the
texts rendered stand side by side.
-/

namespace LogLayout

/-- The segments of two patterns in a row. A literal at the end of the first and one at the start of
the second become one. -/
def Segment.join : List Segment → List Segment → List Segment
  | [], second => second
  | [.literal s], .literal t :: second => .literal (s ++ t) :: second
  | s :: first, second => s :: join first second

/-- Whether a character would go on with a token that is written without parentheses. -/
def extendsToken (c : Char) : Bool := isNameChar c || c == '('

theorem stops_extendsToken_iff {cs : List Char} :
    Stops extendsToken cs ↔ Stops isNameChar cs ∧ cs.head? ≠ some '(' := by
  cases cs with
  | nil => simp [Stops]
  | cons c cs => simp [Stops, extendsToken]

theorem Stops.of_append {p : Char → Bool} {cs r : List Char} (h : Stops p (cs ++ r)) :
    Stops p cs := by
  cases cs with
  | nil => exact stops_nil p
  | cons c cs => exact h

namespace Grammar

variable {fits : Nat → Prop} {σ : Char} {a b t r : List Char} {name : String}
  {os : List (String × Literal)} {pieces pieces' : List Piece}

/-- The pieces of two texts in a row. -/
def Piece.join : List Piece → List Piece → List Piece
  | [], second => second
  | [.literal s], .literal t :: second => .literal (s ++ t) :: second
  | p :: first, second => p :: join first second

/-- A text ends in a token without parentheses: in front of a sigil and a name stands a text of the
grammar. -/
def EndsInBareToken (fits : Nat → Prop) (σ : Char) (a : List Char) : Prop :=
  ∃ pre pieces n, a = pre ++ σ :: n ∧ Derives fits σ pre pieces ∧ Name n

@[simp] theorem Piece.join_token (pieces : List Piece) :
    Piece.join (.token name os :: pieces) pieces' = .token name os :: Piece.join pieces pieces' := by
  rw [Piece.join.eq_def]

theorem Piece.join_addChar (c : Char) (pieces : List Piece) :
    Piece.join (addChar c pieces) pieces' = addChar c (Piece.join pieces pieces') := by
  match pieces with
  | [] =>
      match pieces' with
      | [] => rfl
      | .literal s :: _ => simp [addChar, join]
      | .token .. :: _ => rfl
  | [.literal s] =>
      match pieces' with
      | [] => rfl
      | .literal t :: _ => simp [addChar, join, ← String.toList_inj]
      | .token .. :: _ => rfl
  | .literal s :: p :: pieces => rfl
  | .token name os :: pieces =>
      rw [join_token]
      rfl

/-- What a token takes of a text. It takes the same of every text that does not extend it, and only
a token without parentheses can be extended. -/
theorem TokenText.exists_taken (h : TokenText fits t name os r) :
    ∃ w, w ≠ [] ∧ t = w ++ r ∧ (Name w → Stops extendsToken r) ∧
      ∀ r', (Name w → Stops extendsToken r') → TokenText fits (w ++ r') name os r' := by
  cases h with
  | @bare n _ isName longest noList =>
      refine ⟨n, isName.ne_nil, rfl, ?_, ?_⟩
      · intro _
        exact stops_extendsToken_iff.mpr ⟨longest, noList⟩
      · intro r' stops
        obtain ⟨longest, noList⟩ := stops_extendsToken_iff.mp (stops isName)
        exact .bare isName longest noList
  | @listed n l _ _ isName list =>
      have noName : ¬ Name (n ++ '(' :: (l ++ [')'])) := by
        intro whole
        exact absurd (whole.isNameChar '(' (by simp)) (by decide)
      refine ⟨n ++ '(' :: (l ++ [')']), by simp, by simp, fun whole => absurd whole noName, ?_⟩
      intro r' _
      simpa using TokenText.listed (r := r') isName list

/-- A token and what is derived behind it, cut off at a place where a derivation can end. -/
theorem TokenText.derives_cut {pre s : List Char} (h : TokenText fits t name os (pre ++ s))
    (single : t.head? ≠ some σ) (rest : Derives fits σ pre pieces) :
    ∃ u, t = u ++ s ∧ Derives fits σ (σ :: u) (.token name os :: pieces) := by
  obtain ⟨w, nonempty, rfl, stops, again⟩ := h.exists_taken
  obtain ⟨c, w, rfl⟩ := List.exists_cons_of_ne_nil nonempty
  refine ⟨c :: w ++ pre, by simp, .token single (again pre ?_) rest⟩
  intro isName
  exact (stops isName).of_append

theorem EndsInBareToken.plain {c : Char} (other : c ≠ σ) (h : EndsInBareToken fits σ a) :
    EndsInBareToken fits σ (c :: a) := by
  obtain ⟨pre, pieces, n, rfl, derives, isName⟩ := h
  exact ⟨c :: pre, _, n, rfl, .plain other derives, isName⟩

theorem EndsInBareToken.doubled (h : EndsInBareToken fits σ a) :
    EndsInBareToken fits σ (σ :: σ :: a) := by
  obtain ⟨pre, pieces, n, rfl, derives, isName⟩ := h
  exact ⟨σ :: σ :: pre, _, n, rfl, .doubled derives, isName⟩

theorem EndsInBareToken.token (single : t.head? ≠ some σ) (text : TokenText fits t name os r)
    (h : EndsInBareToken fits σ r) : EndsInBareToken fits σ (σ :: t) := by
  obtain ⟨pre, pieces, n, rfl, derives, isName⟩ := h
  obtain ⟨u, rfl, derives⟩ := text.derives_cut single derives
  exact ⟨σ :: u, _, n, rfl, derives, isName⟩

/-- Two texts of the grammar in a row are one, unless the second extends a token at the end of the
first. The induction is on the first text: what it derives step by step is not changed by what
stands behind it. -/
theorem Derives.append (ha : Derives fits σ a pieces) (hb : Derives fits σ b pieces')
    (seam : EndsInBareToken fits σ a → Stops extendsToken b) :
    Derives fits σ (a ++ b) (Piece.join pieces pieces') := by
  induction ha with
  | nil => exact hb
  | doubled _ ih =>
      rw [Piece.join_addChar]
      exact .doubled (ih fun ends => seam ends.doubled)
  | plain other _ ih =>
      rw [Piece.join_addChar]
      exact .plain other (ih fun ends => seam (ends.plain other))
  | @token t r name os pieces single text rest ih =>
      have behind := ih fun ends => seam (ends.token single text)
      obtain ⟨w, nonempty, rfl, stops, again⟩ := text.exists_taken
      obtain ⟨c, w, rfl⟩ := List.exists_cons_of_ne_nil nonempty
      have unextended : Name (c :: w) → Stops extendsToken (r ++ b) := by
        intro isName
        cases r with
        | nil => exact seam ⟨[], [], c :: w, by simp, .nil, isName⟩
        | cons d r => exact stops isName
      rw [Piece.join_token, List.cons_append, List.append_assoc]
      exact .token single (again (r ++ b) unextended) behind

/-- Segments that pieces mean can be joined as the pieces are. -/
theorem means_join {segments segments' : List Segment}
    (h : List.Forall₂ Piece.Means pieces segments)
    (h' : List.Forall₂ Piece.Means pieces' segments') :
    List.Forall₂ Piece.Means (Piece.join pieces pieces') (Segment.join segments segments') := by
  induction h with
  | nil => exact h'
  | @cons p s pieces segments first rest ih =>
      cases first with
      | token named distinct valid =>
          rw [Piece.join_token, Segment.join.eq_def]
          exact .cons (.token named distinct valid) ih
      | literal s =>
          cases rest with
          | cons => exact .cons (.literal s) ih
          | nil =>
              cases h' with
              | nil => exact .cons (.literal s) .nil
              | cons next behind =>
                  cases next with
                  | literal t => exact .cons (.literal (s ++ t)) behind
                  | token named distinct valid =>
                      exact .cons (.literal s) (.cons (.token named distinct valid) behind)

end Grammar

open Grammar

namespace Pattern

variable {s : Segment} {segments segments' : List Segment} {source source' : String} {e : Event}

theorem render_nil : render ⟨[], source⟩ e = pure "" := rfl

theorem render_literal (text : String) : (Segment.literal text).render e = pure text := rfl

theorem render_cons :
    render ⟨s :: segments, source⟩ e =
      do return (← s.render e) ++ (← render ⟨segments, source⟩ e) := by
  simp only [render, List.mapM_cons, bind_assoc, pure_bind, String.join_cons]

/-- The text of joined segments is the text of the first ones, then that of the others. -/
theorem render_join :
    render ⟨Segment.join segments segments', source⟩ e =
      do return (← render ⟨segments, source'⟩ e) ++ (← render ⟨segments', source⟩ e) := by
  fun_induction Segment.join segments segments' with
  | case1 => simp only [render_nil, pure_bind, String.empty_append, bind_pure]
  | case2 =>
      simp only [render_cons, render_nil, render_literal, bind_assoc, pure_bind,
        String.append_empty, String.append_assoc]
  | case3 s segments segments' _ ih =>
      simp only [render_cons, ih, bind_assoc, pure_bind, String.append_assoc]

/-- Patterns compose. Unless the first text ends in a token without parentheses that the second one
would extend, the two in a row are compiled to the joined segments, and every event is rendered as
the two texts in a row. -/
theorem compile_append {σ : Char} (admissible : isSigil σ = true) {a b : String} {p q : Pattern}
    (ha : compile (String.singleton σ) a = .ok p) (hb : compile (String.singleton σ) b = .ok q)
    (seam : ¬ (EndsInBareToken readable σ a.toList ∧ b.toList.head?.any extendsToken = true)) :
    ∃ r, compile (String.singleton σ) (a ++ b) = .ok r ∧
      r.segments = Segment.join p.segments q.segments ∧
      ∀ e, r.render e = do return (← p.render e) ++ (← q.render e) := by
  obtain ⟨rfl, pieces, derives, means⟩ := (compile_eq_ok_iff_means admissible).mp ha
  obtain ⟨rfl, pieces', derives', means'⟩ := (compile_eq_ok_iff_means admissible).mp hb
  have unextended : EndsInBareToken readable σ p.source.toList →
      Stops extendsToken q.source.toList := by
    intro ends c hc
    rw [Bool.eq_false_iff]
    intro extends'
    exact seam ⟨ends, by simp [hc, extends']⟩
  have joined : Derives readable σ (p.source ++ q.source).toList (Piece.join pieces pieces') := by
    rw [String.toList_append]
    exact derives.append derives' unextended
  refine ⟨⟨Segment.join p.segments q.segments, p.source ++ q.source⟩, ?_, rfl, ?_⟩
  · exact (compile_eq_ok_iff_means admissible).mpr ⟨rfl, _, joined, means_join means means'⟩
  · intro e
    exact render_join

/-- A doubled sigil and a blank meet at the seam. -/
theorem compile_append_sigil_and_blank :
    isSigil '$' = true ∧ ∃ p q, compile (String.singleton '$') "$file $$" = .ok p ∧
      compile (String.singleton '$') " a" = .ok q ∧
      ¬ (EndsInBareToken readable '$' "$file $$".toList ∧
        " a".toList.head?.any extendsToken = true) ∧
      ∃ r, compile (String.singleton '$') ("$file $$" ++ " a") = .ok r ∧
        r.segments = [.token .file, .literal " $ a"] ∧
        ∀ e, r.render e = do return (← p.render e) ++ (← q.render e) := by
  have admissible : isSigil '$' = true := by decide
  have file : TokenText readable "file $$".toList "file" [] " $$".toList :=
    .bare (n := "file".toList) (by decide) (stops_cons (by decide)) (by decide)
  have first : Derives readable '$' "$file $$".toList [.token "file" [], .literal " $"] :=
    .token (by decide) file (.plain (by decide) (.doubled .nil))
  have second : Derives readable '$' " a".toList [.literal " a"] :=
    .plain (by decide) (.plain (by decide) .nil)
  have named : Piece.Means (.token "file" []) (.token .file) :=
    .token (by decide +kernel) .nil rfl
  have hp : compile (String.singleton '$') "$file $$" =
      .ok ⟨[.token .file, .literal " $"], "$file $$"⟩ :=
    (compile_eq_ok_iff_means admissible).mpr
      ⟨rfl, _, first, .cons named (.cons (.literal " $") .nil)⟩
  have hq : compile (String.singleton '$') " a" = .ok ⟨[.literal " a"], " a"⟩ :=
    (compile_eq_ok_iff_means admissible).mpr ⟨rfl, _, second, .cons (.literal " a") .nil⟩
  have seam : ¬ (EndsInBareToken readable '$' "$file $$".toList ∧
      " a".toList.head?.any extendsToken = true) := by
    rintro ⟨-, extended⟩
    exact absurd extended (by decide)
  obtain ⟨r, compiled, segments, rendered⟩ := compile_append admissible hp hq seam
  exact ⟨admissible, _, _, hp, hq, seam, r, compiled, segments.trans (by decide), rendered⟩

end Pattern

end LogLayout
