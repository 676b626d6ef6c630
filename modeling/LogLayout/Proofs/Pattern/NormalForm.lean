import LogLayout.Proofs.Pattern.Compilation
import Mathlib.Data.List.Chain

/-!
# What compiled patterns look like

Literal characters join into runs, so a compiled pattern has no empty literal and no two literals
side by side; and a written text cannot hold both quotes. `printable_of_compile` says that every
compiled pattern is `Printable`.
-/

namespace LogLayout

open Grammar

/-- The text of a literal segment. -/
def Segment.literal? : Segment → Option String
  | literal text => some text
  | token _ => none

/-- The text of a literal run. -/
def Grammar.Piece.literal? : Piece → Option String
  | .literal text => some text
  | .token _ _ => none

/-- No literal is empty, and of two neighbours at most one is a literal. Tokens count as none. -/
structure Separated (literals : List (Option String)) : Prop where
  nonempty : some "" ∉ literals
  apart : literals.IsChain fun a b => a = none ∨ b = none

theorem Separated.tail {literal? : Option String} {literals : List (Option String)}
    (h : Separated (literal? :: literals)) : Separated literals :=
  ⟨List.not_mem_of_not_mem_cons h.nonempty, (List.isChain_cons.mp h.apart).2⟩

/-- A text does not contain both quotes. -/
def Quotable (s : String) : Prop := ¬ ('\'' ∈ s.toList ∧ '"' ∈ s.toList)

/-- The patterns that have a text. -/
structure Printable (segments : List Segment) : Prop where
  separated : Separated (segments.map Segment.literal?)
  quotable : ∀ t, .token t ∈ segments → ∀ name s, (name, .text s) ∈ t.options → Quotable s

/-- A text that does not contain both quotes is one around which some quote can stand. -/
theorem quotable_iff_exists_quote {s : String} :
    Quotable s ↔ ∃ q, isQuote q = true ∧ q ∉ s.toList := by
  constructor
  · intro h
    by_cases single : '\'' ∈ s.toList
    · exact ⟨'"', by decide, fun double => h ⟨single, double⟩⟩
    · exact ⟨'\'', by decide, single⟩
  · rintro ⟨q, quote, free⟩ ⟨single, double⟩
    rcases isQuote_iff.mp quote with rfl | rfl
    · exact free single
    · exact free double

namespace Grammar

variable {fits : Nat → Prop} {σ : Char} {t : List Char} {pieces : List Piece}

/-- A literal character before pieces keeps literals apart. -/
theorem separated_addChar (c : Char) (h : Separated (pieces.map Piece.literal?)) :
    Separated ((Piece.addChar c pieces).map Piece.literal?) := by
  match pieces with
  | [] => exact ⟨by simp [Piece.addChar, Piece.literal?], .singleton _⟩
  | .literal s :: pieces =>
      obtain ⟨nonempty, apart⟩ := h
      obtain ⟨alone, apart⟩ := List.isChain_cons.mp apart
      refine ⟨?_, List.isChain_cons.mpr ⟨?_, apart⟩⟩
      · exact List.not_mem_cons_of_ne_of_not_mem (by simp [Piece.literal?])
          (List.not_mem_of_not_mem_cons nonempty)
      · intro next hnext
        exact .inr ((alone next hnext).resolve_left (by simp [Piece.literal?]))
  | .token name os :: pieces =>
      obtain ⟨nonempty, apart⟩ := h
      refine ⟨?_, List.isChain_cons.mpr ⟨?_, apart⟩⟩
      · exact List.not_mem_cons_of_ne_of_not_mem (by simp [Piece.literal?]) nonempty
      · simp [Piece.literal?]

theorem Derives.separated (h : Derives fits σ t pieces) :
    Separated (pieces.map Piece.literal?) := by
  induction h with
  | nil => exact ⟨by simp, .nil⟩
  | doubled _ ih => exact separated_addChar _ ih
  | plain _ _ ih => exact separated_addChar _ ih
  | token _ _ _ ih =>
      refine ⟨?_, List.isChain_cons.mpr ⟨?_, ih.apart⟩⟩
      · simpa [Piece.literal?] using ih.nonempty
      · simp [Piece.literal?]

/-- A written text lacks the quote around it. -/
theorem ValueText.quotable {v : List Char} {value : Literal} (h : ValueText fits v value)
    {s : String} (text : value.toDatum = .text s) : Quotable s := by
  cases h with
  | char quote inside =>
      obtain rfl := Datum.text.inj text
      exact quotable_iff_exists_quote.mpr ⟨_, quote, by simpa using inside.symm⟩
  | text quote inside =>
      obtain rfl := Datum.text.inj text
      exact quotable_iff_exists_quote.mpr ⟨_, quote, by simpa using inside⟩
  | numeral | negative | yes | no => cases text

theorem OptionText.quotable {cs : List Char} {o : String × Literal} (h : OptionText fits cs o)
    {s : String} (text : o.2.toDatum = .text s) : Quotable s := by
  cases h with
  | flag => cases text
  | assignment _ _ _ value => exact value.quotable text

theorem OptionRow.quotable {cs : List Char} {os : List (String × Literal)}
    (h : OptionRow fits cs os) : ∀ o ∈ os, ∀ s, o.2.toDatum = .text s → Quotable s := by
  induction h with
  | last _ option => simpa using fun s => option.quotable
  | more _ option _ _ ih => exact List.forall_mem_cons.mpr ⟨fun s => option.quotable, ih⟩

theorem TokenText.quotable {t r : List Char} {name : String} {os : List (String × Literal)}
    (h : TokenText fits t name os r) : ∀ o ∈ os, ∀ s, o.2.toDatum = .text s → Quotable s := by
  cases h with
  | bare => simp
  | listed _ list =>
      cases list with
      | empty => simp
      | options row => exact row.quotable

theorem Derives.quotable (h : Derives fits σ t pieces) {name : String}
    {os : List (String × Literal)} (mem : .token name os ∈ pieces) :
    ∀ o ∈ os, ∀ s, o.2.toDatum = .text s → Quotable s := by
  have tail {c : Char} {pieces : List Piece} (mem : .token name os ∈ Piece.addChar c pieces) :
      Piece.token name os ∈ pieces := by
    unfold Piece.addChar at mem
    split at mem <;> simpa using mem
  induction h with
  | nil => cases mem
  | doubled _ ih => exact ih (tail mem)
  | plain _ _ ih => exact ih (tail mem)
  | token _ text _ ih =>
      rcases List.mem_cons.mp mem with same | mem
      · obtain ⟨rfl, rfl⟩ := Piece.token.inj same
        exact text.quotable
      · exact ih mem

end Grammar

/-- The defaults can be written. -/
theorem Kind.quotable_of_mem_defaults {k : Kind} {name s : String}
    (h : (name, .text s) ∈ k.defaults) : Quotable s := by
  have plain : ∀ t ∈ ["", "<", "`", "%Y-%m-%d %H:%M:%S.%f"], '"' ∉ t.toList := by decide
  have listed : s ∈ ["", "<", "`", "%Y-%m-%d %H:%M:%S.%f"] := by
    cases k <;> simp [defaults] at h ⊢ <;> grind
  exact fun both => plain s listed both.2

namespace Grammar.Piece.Means

variable {p : Piece} {s : Segment}

theorem literal?_eq (h : p.Means s) : p.literal? = s.literal? := by
  cases h <;> rfl

/-- The texts among the options of a token are written, or they are defaults. -/
theorem quotable {name : String} {os : List (String × Literal)} {tok : Token}
    (h : Piece.Means (.token name os) (.token tok))
    (written : ∀ o ∈ os, ∀ s, o.2.toDatum = .text s → Quotable s) :
    ∀ name s, (name, .text s) ∈ tok.options → Quotable s := by
  cases h with
  | token named distinct valid =>
      intro name s mem
      have given := (Token.ofEntries_eq_valid_iff.mp valid).2.2 _ mem
      simp only [Kind.valueOf?, Datum.lookup?_map_text, Option.or_eq_some_iff,
        Option.map_eq_some_iff] at given
      rcases given with ⟨_, ⟨o, found, rfl⟩, text⟩ | ⟨-, isDefault⟩
      · exact written o (List.mem_of_find?_eq_some found) s (o.2.plain_toDatum ▸ text)
      · exact Kind.quotable_of_mem_defaults (Kind.default?_eq_some_iff.mp isDefault)

end Grammar.Piece.Means

theorem literals_eq_of_means {pieces : List Piece} {segments : List Segment}
    (h : List.Forall₂ Piece.Means pieces segments) :
    pieces.map Piece.literal? = segments.map Segment.literal? := by
  rw [← List.forall₂_eq_eq_eq, List.forall₂_map_left_iff, List.forall₂_map_right_iff]
  exact h.imp fun _ _ => Piece.Means.literal?_eq

namespace Pattern

/-- Every compiled pattern is printable. -/
theorem printable_of_compile {σ : Char} (admissible : isSigil σ = true) {text : String}
    {p : Pattern} (h : compile (String.singleton σ) text = .ok p) : Printable p.segments := by
  obtain ⟨-, pieces, derives, means⟩ := (compile_eq_ok_iff_means admissible).mp h
  refine ⟨literals_eq_of_means means ▸ derives.separated, ?_⟩
  intro t mem
  obtain ⟨piece, hpiece, hmeans⟩ := exists_mem_of_forall₂ means mem
  cases hmeans with
  | @token name os _ named distinct valid =>
      exact Piece.Means.quotable (.token named distinct valid) (derives.quotable hpiece)

end Pattern

end LogLayout
