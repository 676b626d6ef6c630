import LogLayout.Proofs.Numeral
import LogLayout.Proofs.Pattern.Abridgement
import LogLayout.Proofs.Pattern.NormalForm
import LogLayout.Pattern.Render

/-!
# Spelling patterns

A printable pattern has a text that is compiled to it: sigils of literals are doubled, and each
token is written with all the options that are set. So what can be compiled is exactly what is
printable. In particular, every text can be made into a pattern that renders as that text.
-/

namespace LogLayout

open Grammar

/-- A text with every sigil doubled. -/
def doubled (σ : Char) (cs : List Char) : List Char :=
  cs.flatMap fun c => if c = σ then [σ, σ] else [c]

/-- The texts of an option value: integers in decimal, truth values as words, and texts between a
quote that they do not contain. -/
inductive Datum.Spells : Datum → List Char → Prop
  | int (n : Int) : Spells (.int n) (Numeral.signed n)
  | bool (b : Bool) : Spells (.bool b) (if b then "true" else "false").toList
  | text {s : String} {q : Char} (quote : isQuote q = true) (free : q ∉ s.toList) :
      Spells (.text s) (q :: (s.toList ++ [q]))

/-- The text of an option: its name, an equals sign and its value. -/
def OptionSpells (o : String × Datum) (cs : List Char) : Prop :=
  ∃ v, o.2.Spells v ∧ cs = o.1.toList ++ '=' :: v

/-- The text of an option with blanks around it, as it stands between two commas. -/
inductive Grammar.PartText : List Char → String × Literal → Prop
  | intro {b s b' : List Char} {o : String × Literal} (before : Blanks b)
      (option : OptionText readable s o) (after : Blanks b') : PartText (b ++ (s ++ b')) o

/-- Whether there is a value. A width can be unset. -/
def Datum.isSet : Datum → Bool
  | null => false
  | _ => true

/-- The options of a token that are set. -/
def Token.setOptions (t : Token) : List (String × Datum) := t.options.filter fun o => o.2.isSet

/-- The texts that spell segments one after the other. -/
inductive Spells (σ : Char) : List Segment → List Char → Prop
  | nil : Spells σ [] []
  | literal (s : String) {segments : List Segment} {t : List Char} (rest : Spells σ segments t) :
      Spells σ (.literal s :: segments) (doubled σ s.toList ++ t)
  | token {tok : Token} {rows : List (List Char)} {segments : List Segment} {t : List Char}
      (options : List.Forall₂ OptionSpells tok.setOptions rows) (rest : Spells σ segments t) :
      Spells σ (.token tok :: segments)
        (σ :: (tok.kind.name.toList ++ '(' :: ([','].intercalate rows ++ ')' :: t)))

/-! ### Values and options -/

theorem Numeral.length_digits_le (n : Nat) : (digits n).length ≤ n + 1 := by
  fun_induction digits n with
  | case1 => simp
  | case2 n large ih =>
      simp only [List.length_append, List.length_singleton]
      omega

namespace Token

/-- An option of a token is a small number, a truth value or a text. Only a width is unset, and that
is its default. -/
theorem value_of_mem_options {t : Token} {o : String × Datum} (h : o ∈ t.options) :
    (o.2 = .null ∧ o ∈ t.kind.defaults) ∨ (∃ n : Nat, n ≤ maxLevelWidth ∧ o.2 = .int n) ∨
      (∃ b, o.2 = .bool b) ∨ ∃ s, o.2 = .text s := by
  cases t with
  | level w =>
      rw [options_level] at h
      rcases List.mem_pair.mp h with rfl | rfl
      · match w.width with
        | none => exact .inl ⟨rfl, .head _⟩
        | some n => exact .inr (.inl ⟨n, Nat.le_of_lt_succ n.isLt, rfl⟩)
      · exact .inr (.inr (.inr ⟨_, rfl⟩))
  | target | message | file | line => cases h
  | datetime | fields | span | text =>
      simp only [options, List.mem_cons, List.not_mem_nil, or_false] at h
      grind

end Token

/-- Kinds and options have names that can be read. -/
theorem Kind.name_name (k : Kind) : Name k.name.toList := by
  cases k <;> decide

theorem Kind.name_of_mem_optionNames {k : Kind} {name : String} (h : name ∈ k.optionNames) :
    Name name.toList := by
  have names : ∀ n ∈ k.optionNames, Name n.toList := by cases k <;> decide
  exact names name h

theorem Literal.toDatum_ofQuoted (cs : List Char) :
    (ofQuoted cs).toDatum = .text (String.ofList cs) := by
  unfold ofQuoted
  split <;> rfl

/-- There is a quote for every text that does not contain both. -/
theorem Datum.exists_spells_text {s : String} (quotable : Quotable s) : ∃ v, (text s).Spells v := by
  obtain ⟨q, quote, free⟩ := quotable_iff_exists_quote.mp quotable
  exact ⟨_, .text quote free⟩

namespace Grammar

variable {σ : Char} {t : List Char} {pieces : List Piece}

theorem exists_valueText_of_spells {d : Datum} {v : List Char} (h : d.Spells v)
    (short : ∀ n : Int, d = .int n → readable (Numeral.digits n.natAbs).length) :
    ∃ value : Literal, value.toDatum = d ∧ ValueText readable v value := by
  cases h with
  | int n =>
      have digits : Digits (Numeral.digits n.natAbs) :=
        ⟨Numeral.digits_ne_nil _, fun _ => Numeral.isDigit_of_mem_digits⟩
      unfold Numeral.signed
      split
      · next negative =>
          refine ⟨_, ?_, .negative digits (short n rfl)⟩
          simp only [Literal.toDatum, Numeral.ofDigits_digits, Datum.int.injEq]
          omega
      · next notNegative =>
          refine ⟨_, ?_, .numeral digits (short n rfl)⟩
          simp only [Literal.toDatum, Numeral.ofDigits_digits, Datum.int.injEq]
          omega
  | bool b =>
      cases b with
      | true => exact ⟨_, rfl, .yes⟩
      | false => exact ⟨_, rfl, .no⟩
  | @text s q quote free =>
      refine ⟨Literal.ofQuoted s.toList, ?_, Literal.valueText_ofQuoted quote free⟩
      rw [Literal.toDatum_ofQuoted, String.ofList_toList]

/-- Spelled options with names that can be read and integers that are short enough are read back. -/
theorem exists_written_of_spells {options : List (String × Datum)} {rows : List (List Char)}
    (fit : ∀ o ∈ options, Name o.1.toList ∧
      ∀ n : Int, o.2 = .int n → readable (Numeral.digits n.natAbs).length)
    (h : List.Forall₂ OptionSpells options rows) :
    ∃ written : List (String × Literal), written.map (fun w => (w.1, w.2.toDatum)) = options ∧
      List.Forall₂ (OptionText readable) rows written := by
  induction h with
  | nil => exact ⟨[], rfl, .nil⟩
  | @cons o row options rows spells _ ih =>
      obtain ⟨⟨name, short⟩, rest⟩ := List.forall_mem_cons.mp fit
      obtain ⟨v, spells, rfl⟩ := spells
      obtain ⟨value, same, text⟩ := exists_valueText_of_spells spells short
      obtain ⟨written, hwritten, texts⟩ := ih rest
      have first : OptionText readable (o.1.toList ++ '=' :: v) (o.1, value) := by
        simpa using OptionText.assignment name .nil .nil text
      exact ⟨(o.1, value) :: written, by rw [List.map_cons, same, hwritten], .cons first texts⟩

/-- Options with blanks around them and commas between them are a row. -/
theorem optionRow_intercalate {part : List Char} {parts : List (List Char)} {o : String × Literal}
    {os : List (String × Literal)} (first : PartText part o)
    (rest : List.Forall₂ PartText parts os) :
    OptionRow readable ([','].intercalate (part :: parts)) (o :: os) := by
  induction rest generalizing part o with
  | nil =>
      cases first with
      | intro before option after => simpa using OptionRow.last before option after
  | cons second _ ih =>
      cases first with
      | intro before option after =>
          rw [List.intercalate_cons_cons]
          simpa using OptionRow.more before option after (ih second)

/-- Options with commas between them are an option list. -/
theorem optionList_intercalate {rows : List (List Char)} {os : List (String × Literal)}
    (h : List.Forall₂ (OptionText readable) rows os) :
    OptionList readable ([','].intercalate rows) os := by
  have part {s : List Char} {o : String × Literal} (text : OptionText readable s o) :
      PartText s o := by
    simpa using PartText.intro .nil text .nil
  cases h with
  | nil => exact .empty .nil
  | cons first rest =>
      exact .options (optionRow_intercalate (part first) (rest.imp fun _ _ => part))

/-- A token begins with a name character, which is no sigil. -/
theorem TokenText.head?_ne {fits : Nat → Prop} {name : String} {os : List (String × Literal)}
    {r : List Char} (admissible : isSigil σ = true) (h : TokenText fits t name os r) :
    t.head? ≠ some σ := by
  have begins {n : List Char} (isName : Name n) (behind : List Char) :
      (n ++ behind).head? ≠ some σ := by
    obtain ⟨start, _⟩ := isName
    rintro ⟨⟩
    simp [isSigil, isNameChar_of_isNameStart start] at admissible
  cases h with
  | bare isName => exact begins isName _
  | listed isName => exact begins isName _

theorem Derives.doubled_append (h : Derives fits σ t pieces) (cs : List Char) :
    Derives fits σ (LogLayout.doubled σ cs ++ t) (cs.foldr Piece.addChar pieces) := by
  induction cs with
  | nil => exact h
  | cons c cs ih =>
      by_cases sigil : c = σ
      · subst sigil
        simpa [LogLayout.doubled] using ih.doubled
      · simpa [LogLayout.doubled, sigil] using ih.plain sigil

/-- The characters of a literal join into one run. -/
theorem foldr_addChar {cs : List Char} (nonempty : cs ≠ [])
    (alone : ∀ p ∈ pieces.head?, p.literal? = none) :
    cs.foldr Piece.addChar pieces = .literal (String.ofList cs) :: pieces := by
  induction cs with
  | nil => exact absurd rfl nonempty
  | cons c cs ih =>
      by_cases last : cs = []
      · subst last
        match pieces with
        | [] => rfl
        | .token .. :: _ => rfl
        | .literal s :: _ => simp [Piece.literal?] at alone
      · rw [List.foldr_cons, ih last]
        simp [Piece.addChar]

end Grammar

/-! ### Tokens -/

namespace Token

variable {t : Token}

/-- What is written for the options that are set stands for all options. -/
theorem abridges_of_setOptions {written : List (String × Literal)}
    (h : written.map (fun w => (w.1, w.2.toDatum)) = t.setOptions) :
    Abridges t.kind Literal.toDatum written t.options := by
  have unset : ∀ o ∈ t.options, o.2.isSet = false → o ∈ t.kind.defaults := by
    intro o ho
    rcases value_of_mem_options ho with ⟨-, isDefault⟩ | ⟨n, -, h⟩ | ⟨b, h⟩ | ⟨s, h⟩
    · exact fun _ => isDefault
    all_goals simp [h, Datum.isSet]
  unfold setOptions at h
  generalize t.options = options at h unset
  induction options generalizing written with
  | nil =>
      obtain rfl := List.map_eq_nil_iff.mp h
      exact .nil
  | cons o options ih =>
      obtain ⟨first, rest⟩ := List.forall_mem_cons.mp unset
      by_cases isSet : o.2.isSet = true
      · rw [List.filter_cons, if_pos isSet] at h
        obtain ⟨w, written, rfl, rfl, htail⟩ := List.map_eq_cons_iff.mp h
        exact .keep (ih htail rest)
      · rw [List.filter_cons, if_neg isSet] at h
        exact .drop (first (by simpa using isSet)) (ih h rest)

/-- Spelled options can be read as options. -/
theorem exists_written {rows : List (List Char)}
    (h : List.Forall₂ OptionSpells t.setOptions rows) :
    ∃ written : List (String × Literal), written.map (fun w => (w.1, w.2.toDatum)) = t.setOptions ∧
      List.Forall₂ (OptionText readable) rows written := by
  refine Grammar.exists_written_of_spells (fun o ho => ?_) h
  have mem : o ∈ t.options := List.mem_of_mem_filter ho
  constructor
  · refine Kind.name_of_mem_optionNames (k := t.kind) ?_
    rw [← t.map_fst_options]
    exact List.mem_map_of_mem mem
  · intro n hn
    rcases value_of_mem_options mem with ⟨h, -⟩ | ⟨m, small, h⟩ | ⟨b, h⟩ | ⟨s, h⟩
    · simp [hn] at h
    · obtain rfl := Datum.int.inj (hn.symm.trans h)
      have length := Numeral.length_digits_le m
      simp only [maxLevelWidth] at small
      simp only [readable, Numeral.digitLimit, Int.natAbs_natCast]
      omega
    · simp [hn] at h
    · simp [hn] at h

/-- A token has a spelling if none of its options contains both quotes. -/
theorem exists_optionSpells
    (quotable : ∀ name s, (name, .text s) ∈ t.options → Quotable s) :
    ∃ rows, List.Forall₂ OptionSpells t.setOptions rows := by
  rw [exists_forall₂_iff]
  intro o ho
  obtain ⟨mem, isSet⟩ := List.mem_filter.mp ho
  obtain ⟨name, d⟩ := o
  have spells : ∃ v, d.Spells v := by
    rcases value_of_mem_options mem with ⟨rfl, -⟩ | ⟨n, -, rfl⟩ | ⟨b, rfl⟩ | ⟨s, rfl⟩
    · cases isSet
    · exact ⟨_, .int n⟩
    · exact ⟨_, .bool b⟩
    · exact Datum.exists_spells_text (quotable name s mem)
  obtain ⟨v, hv⟩ := spells
  exact ⟨_, v, hv, rfl⟩

/-- A spelled token is a text of the grammar, and it means the token. -/
theorem exists_tokenText {rows : List (List Char)}
    (h : List.Forall₂ OptionSpells t.setOptions rows) (r : List Char) :
    ∃ written, TokenText readable
        (t.kind.name.toList ++ '(' :: ([','].intercalate rows ++ ')' :: r)) t.kind.name written r ∧
      Piece.Means (.token t.kind.name written) (.token t) := by
  obtain ⟨written, same, texts⟩ := exists_written h
  have abridges := abridges_of_setOptions same
  have text := TokenText.listed (r := r) t.kind.name_name (optionList_intercalate texts)
  rw [String.ofList_toList] at text
  refine ⟨written, text, .token t.kind.named_name ?_ ?_⟩
  · exact abridges.sublist.nodup (t.map_fst_options ▸ nodup_optionNames t.kind)
  · exact ofEntries_of_abridges Literal.plain_toDatum abridges

end Token

/-! ### Patterns -/

section Patterns

variable {σ : Char} {segments : List Segment} {t : List Char}

/-- What spells a pattern with separate literals is a text of the grammar. -/
theorem exists_derives_of_spells (admissible : isSigil σ = true) (h : Spells σ segments t)
    (separated : Separated (segments.map Segment.literal?)) :
    ∃ pieces, Derives readable σ t pieces ∧ List.Forall₂ Piece.Means pieces segments := by
  induction h with
  | nil => exact ⟨[], .nil, .nil⟩
  | @literal s segments t rest ih =>
      obtain ⟨pieces, derives, means⟩ := ih separated.tail
      have nonempty : s.toList ≠ [] := by
        intro empty
        obtain rfl := String.toList_eq_nil_iff.mp empty
        exact separated.nonempty List.mem_cons_self
      have alone : ∀ p ∈ pieces.head?, p.literal? = none := by
        intro p hp
        have next : p.literal? ∈ (segments.map Segment.literal?).head? := by
          rw [← literals_eq_of_means means, List.head?_map]
          exact Option.mem_map_of_mem _ hp
        have beside := (List.isChain_cons.mp separated.apart).1 _ next
        exact beside.resolve_left (by simp [Segment.literal?])
      have joined := derives.doubled_append s.toList
      rw [foldr_addChar nonempty alone, String.ofList_toList] at joined
      exact ⟨_, joined, .cons (.literal s) means⟩
  | @token tok rows segments t options rest ih =>
      obtain ⟨pieces, derives, means⟩ := ih separated.tail
      obtain ⟨written, text, meansToken⟩ := tok.exists_tokenText options t
      exact ⟨_, .token (text.head?_ne admissible) text derives, .cons meansToken means⟩

/-- Every printable pattern has a text that spells it. -/
theorem exists_spells (h : Printable segments) : ∃ t, Spells σ segments t := by
  have quotable := h.quotable
  clear h
  induction segments with
  | nil => exact ⟨[], .nil⟩
  | cons s segments ih =>
      obtain ⟨t, spells⟩ := ih fun t mem => quotable t (List.mem_cons_of_mem s mem)
      cases s with
      | literal s => exact ⟨_, .literal s spells⟩
      | token tok =>
          obtain ⟨rows, options⟩ := tok.exists_optionSpells (quotable tok List.mem_cons_self)
          exact ⟨_, .token options spells⟩

/-- A text that spells a printable pattern is compiled to it. -/
theorem compile_of_spells (admissible : isSigil σ = true) (printable : Printable segments)
    (h : Spells σ segments t) :
    Pattern.compile (String.singleton σ) (String.ofList t) = .ok ⟨segments, String.ofList t⟩ := by
  obtain ⟨pieces, derives, means⟩ := exists_derives_of_spells admissible h printable.separated
  refine (Pattern.compile_eq_ok_iff_means admissible).mpr ⟨rfl, pieces, ?_, means⟩
  rwa [String.toList_ofList]

/-- A text whose sigils are doubled is compiled to a pattern that renders as the text. -/
theorem render_doubled (admissible : isSigil σ = true) (s : String) :
    ∃ p, Pattern.compile (String.singleton σ) (String.ofList (doubled σ s.toList)) = .ok p ∧
      ∀ e, p.render e = .ok s := by
  by_cases empty : s = ""
  · subst empty
    have printable : Printable [] := ⟨⟨by simp, .nil⟩, by simp⟩
    exact ⟨_, compile_of_spells admissible printable .nil, fun _ => rfl⟩
  · have separated : Separated ([Segment.literal s].map Segment.literal?) :=
      ⟨by simpa [Segment.literal?, eq_comm] using empty, .singleton _⟩
    have printable : Printable [.literal s] := ⟨separated, by simp⟩
    have compiled := compile_of_spells admissible printable (.literal s .nil)
    rw [List.append_nil] at compiled
    refine ⟨_, compiled, fun e => ?_⟩
    simp [Pattern.render, Segment.render]

/-- What can be compiled is what is printable, whatever the sigil: the texts that spell a printable
pattern are compiled to it. Any text at all is rendered by the pattern with its sigils doubled. -/
theorem compile_image_eq_printable (admissible : isSigil σ = true) :
    ((∃ text p, Pattern.compile (String.singleton σ) text = .ok p ∧ p.segments = segments) ↔
        Printable segments) ∧
      (Printable segments → (∃ t, Spells σ segments t) ∧ ∀ t, Spells σ segments t →
        Pattern.compile (String.singleton σ) (String.ofList t) =
          .ok ⟨segments, String.ofList t⟩) ∧
      ∀ s : String, ∃ p,
        Pattern.compile (String.singleton σ) (String.ofList (doubled σ s.toList)) = .ok p ∧
          ∀ e, p.render e = .ok s := by
  refine ⟨⟨?_, ?_⟩, ?_, render_doubled admissible⟩
  · rintro ⟨text, p, compiled, rfl⟩
    exact Pattern.printable_of_compile admissible compiled
  · intro printable
    obtain ⟨t, spells⟩ := exists_spells (σ := σ) printable
    exact ⟨_, _, compile_of_spells admissible printable spells, rfl⟩
  · intro printable
    exact ⟨exists_spells printable, fun t => compile_of_spells admissible printable⟩

/-- A sigil in a literal and a quote in an option. -/
theorem compile_image_sigil_and_quote :
    isSigil '$' = true ∧ ∃ text p, Pattern.compile (String.singleton '$') text = .ok p ∧
      p.segments = [.literal "a$", .token (.text "it's")] := by
  have separated : Separated ([Segment.literal "a$", .token (.text "it's")].map Segment.literal?) :=
    ⟨by decide, .cons_cons (.inr rfl) (.singleton _)⟩
  have quotable : ∀ t, .token t ∈ [Segment.literal "a$", .token (.text "it's")] →
      ∀ name s, (name, .text s) ∈ t.options → Quotable s := by
    simp [Token.options, Quotable]
  exact ⟨by decide, (compile_image_eq_printable (by decide)).1.mpr ⟨separated, quotable⟩⟩

end Patterns

end LogLayout
