import LogLayout.Proofs.Runs
import LogLayout.Pattern.Compile

/-!
# The grammar of pattern texts

What a pattern text may look like, as rules over its characters alone: no rule knows positions, and
none searches ahead for the end of an option list. `Derives` relates a whole text to the pieces that
it spells. Literal characters join into runs, a doubled sigil is one literal sigil, and a token name
is as long as it can be, so a text spells at most one list of pieces.

The rules are stated for any bound on the digits of a numeral: `ValueText fits` admits a numeral of
`n` digits when `fits n` holds.
-/

namespace LogLayout

namespace Grammar

/-- A part of a pattern text, wherever it stands: a literal run, or a token with the names and the
values of its options. -/
inductive Piece where
  | literal (text : String)
  | token (name : String) (options : List (String × Literal))
  deriving DecidableEq, Repr

/-- Puts a literal character before pieces. It joins a literal run that comes next. -/
def Piece.addChar (c : Char) : List Piece → List Piece
  | .literal s :: pieces => .literal (String.ofList (c :: s.toList)) :: pieces
  | pieces => .literal (String.ofList [c]) :: pieces

/-- White space, possibly none. -/
def Blanks (cs : List Char) : Prop := ∀ c ∈ cs, Text.isBlank c = true

/-- A row of decimal digits, one at least. -/
structure Digits (cs : List Char) : Prop where
  ne_nil : cs ≠ []
  isDigit : ∀ c ∈ cs, c.isDigit = true

/-- A name: a letter or underscore, then letters, digits and underscores, all of them ASCII. -/
inductive Name : List Char → Prop
  | intro {c : Char} {cs : List Char} (start : isNameStart c = true)
      (more : ∀ d ∈ cs, isNameChar d = true) : Name (c :: cs)

/-- The texts of values. Between quotes there are no escapes, so a quoted text does not hold its
own quote; one character between quotes is a character, any other number of them a text. -/
inductive ValueText (fits : Nat → Prop) : List Char → Literal → Prop
  | numeral {ds : List Char} (digits : Digits ds) (short : fits ds.length) :
      ValueText fits ds (.integer (Numeral.ofDigits ds))
  | negative {ds : List Char} (digits : Digits ds) (short : fits ds.length) :
      ValueText fits ('-' :: ds) (.integer (-Numeral.ofDigits ds))
  | char {q c : Char} (quote : isQuote q = true) (inside : c ≠ q) :
      ValueText fits [q, c, q] (.char c)
  | text {q : Char} {cs : List Char} (quote : isQuote q = true) (inside : q ∉ cs)
      (many : cs.length ≠ 1) : ValueText fits (q :: (cs ++ [q])) (.text (String.ofList cs))
  | yes : ValueText fits "true".toList (.flag true)
  | no : ValueText fits "false".toList (.flag false)

/-- The texts of one option, without the blanks around it. A name alone is a flag that is set. -/
inductive OptionText (fits : Nat → Prop) : List Char → String × Literal → Prop
  | flag {n : List Char} (name : Name n) : OptionText fits n (String.ofList n, .flag true)
  | assignment {n b b' v : List Char} {value : Literal} (name : Name n) (before : Blanks b)
      (after : Blanks b') (text : ValueText fits v value) :
      OptionText fits (n ++ (b ++ '=' :: (b' ++ v))) (String.ofList n, value)

/-- The texts of one option or more, with a comma between any two of them. -/
inductive OptionRow (fits : Nat → Prop) : List Char → List (String × Literal) → Prop
  | last {b s b' : List Char} {o : String × Literal} (before : Blanks b)
      (option : OptionText fits s o) (after : Blanks b') : OptionRow fits (b ++ (s ++ b')) [o]
  | more {b s b' t : List Char} {o : String × Literal} {os : List (String × Literal)}
      (before : Blanks b) (option : OptionText fits s o) (after : Blanks b')
      (rest : OptionRow fits t os) : OptionRow fits (b ++ (s ++ (b' ++ ',' :: t))) (o :: os)

/-- The texts between the parentheses of an option list, which may be empty. Nothing but a blank, a
comma or the end of the list can follow a value, so no name character does. -/
inductive OptionList (fits : Nat → Prop) : List Char → List (String × Literal) → Prop
  | empty {b : List Char} (blanks : Blanks b) : OptionList fits b []
  | options {t : List Char} {os : List (String × Literal)} (row : OptionRow fits t os) :
      OptionList fits t os

/-- A text that begins, behind a sigil, with a token of the given name and options, and the text
that is left. The name is the longest there is; an option list must follow it at once. -/
inductive TokenText (fits : Nat → Prop) :
    List Char → String → List (String × Literal) → List Char → Prop
  | bare {n r : List Char} (name : Name n) (longest : Stops isNameChar r)
      (noList : r.head? ≠ some '(') : TokenText fits (n ++ r) (String.ofList n) [] r
  | listed {n l r : List Char} {os : List (String × Literal)} (name : Name n)
      (list : OptionList fits l os) :
      TokenText fits (n ++ '(' :: (l ++ ')' :: r)) (String.ofList n) os r

/-- A whole text spells a list of pieces. -/
inductive Derives (fits : Nat → Prop) (σ : Char) : List Char → List Piece → Prop
  | nil : Derives fits σ [] []
  | doubled {t : List Char} {pieces : List Piece} (rest : Derives fits σ t pieces) :
      Derives fits σ (σ :: σ :: t) (Piece.addChar σ pieces)
  | plain {c : Char} {t : List Char} {pieces : List Piece} (other : c ≠ σ)
      (rest : Derives fits σ t pieces) : Derives fits σ (c :: t) (Piece.addChar c pieces)
  | token {t r : List Char} {name : String} {os : List (String × Literal)} {pieces : List Piece}
      (single : t.head? ≠ some σ) (token : TokenText fits t name os r)
      (rest : Derives fits σ r pieces) : Derives fits σ (σ :: t) (.token name os :: pieces)

/-- Any number of digits. -/
def unbounded (_ : Nat) : Prop := True

/-- As many digits as can be read. -/
def readable (n : Nat) : Prop := n ≤ Numeral.digitLimit

/-! ### Character classes -/

theorem isQuote_iff {c : Char} : isQuote c = true ↔ c = '\'' ∨ c = '"' := by
  simp [isQuote]

theorem isNameChar_of_isDigit {c : Char} (h : c.isDigit = true) : isNameChar c = true := by
  simp [isNameChar, Char.isAlphanum, h]

/-- The places of the name characters among all characters: digits, capitals, the underscore and
small letters. -/
theorem toNat_of_isNameChar {c : Char} (h : isNameChar c = true) :
    (48 ≤ c.toNat ∧ c.toNat ≤ 57) ∨ (65 ≤ c.toNat ∧ c.toNat ≤ 122) := by
  delta isNameChar Char.isAlphanum Char.isAlpha Char.isUpper Char.isLower Char.isDigit at h
  simp only [Bool.or_eq_true, Bool.and_eq_true, decide_eq_true_eq, beq_iff_eq, ge_iff_le,
    UInt32.le_iff_toNat_le] at h
  change ((((65 ≤ c.toNat ∧ c.toNat ≤ 90) ∨ (97 ≤ c.toNat ∧ c.toNat ≤ 122)) ∨
    (48 ≤ c.toNat ∧ c.toNat ≤ 57))) ∨ c = '_' at h
  rcases h with h | rfl
  · omega
  · decide

theorem isQuote_of_isNameChar {c : Char} (h : isNameChar c = true) : isQuote c = false := by
  rw [Bool.eq_false_iff]
  intro hq
  rcases isQuote_iff.mp hq with rfl | rfl <;> revert h <;> decide

theorem isBlank_of_isNameChar {c : Char} (h : isNameChar c = true) : Text.isBlank c = false := by
  have bounds := toNat_of_isNameChar h
  simp only [Text.isBlank, Bool.or_eq_false_iff, Bool.and_eq_false_iff, decide_eq_false_iff_not,
    beq_eq_false_iff_ne]
  omega

theorem isQuote_of_isBlank {c : Char} (h : Text.isBlank c = true) : isQuote c = false := by
  rw [Bool.eq_false_iff]
  intro hq
  rcases isQuote_iff.mp hq with rfl | rfl <;> revert h <;> decide

/-! ### Runs -/

theorem Blanks.nil : Blanks [] := by simp [Blanks]

theorem Blanks.append {b b' : List Char} (h : Blanks b) (h' : Blanks b') : Blanks (b ++ b') := by
  intro c hc
  rcases List.mem_append.mp hc with hc | hc
  · exact h c hc
  · exact h' c hc

theorem Name.isNameChar {n : List Char} (h : Name n) : ∀ c ∈ n, isNameChar c = true := by
  cases h with
  | intro start more =>
      intro c hc
      rcases List.mem_cons.mp hc with rfl | hc
      · exact isNameChar_of_isNameStart start
      · exact more c hc

theorem Name.ne_nil {n : List Char} (h : Name n) : n ≠ [] := by
  cases h
  simp

theorem name_iff {n : List Char} :
    Name n ↔ n.head?.any isNameStart = true ∧ n.all isNameChar = true := by
  rw [List.all_eq_true]
  constructor
  · intro h
    refine ⟨?_, h.isNameChar⟩
    cases h with
    | intro start => exact start
  · rintro ⟨start, all⟩
    cases n with
    | nil => cases start
    | cons c cs => exact .intro start fun d hd => all d (List.mem_cons_of_mem c hd)

-- Written with Booleans: a bounded quantifier could be decided by going through all characters.
instance (n : List Char) : Decidable (Name n) := decidable_of_iff _ name_iff.symm

theorem digits_iff {ds : List Char} : Digits ds ↔ ds ≠ [] ∧ ds.all Char.isDigit = true := by
  rw [List.all_eq_true]
  exact ⟨fun h => ⟨h.ne_nil, h.isDigit⟩, fun h => ⟨h.1, h.2⟩⟩

instance (ds : List Char) : Decidable (Digits ds) := decidable_of_iff _ digits_iff.symm

/-- Blanks do not extend a name. -/
theorem Blanks.stops {b t : List Char} (h : Blanks b) (ht : Stops isNameChar t) :
    Stops isNameChar (b ++ t) := by
  cases b with
  | nil => exact ht
  | cons d b =>
      refine stops_cons ?_
      rw [Bool.eq_false_iff]
      intro hd
      exact absurd (h d List.mem_cons_self) (by simp [isBlank_of_isNameChar hd])

/-- Values and options begin with no blank. -/
theorem ValueText.stops_isBlank {v t : List Char} {value : Literal} (h : ValueText fits v value) :
    Stops Text.isBlank (v ++ t) := by
  have quoted : ∀ {q : Char}, isQuote q = true → Text.isBlank q = false := by
    intro q hq
    rcases isQuote_iff.mp hq with rfl | rfl <;> decide
  cases h with
  | numeral digits =>
      obtain ⟨d, ds, rfl⟩ := List.exists_cons_of_ne_nil digits.ne_nil
      have digit := digits.isDigit d List.mem_cons_self
      exact stops_cons (isBlank_of_isNameChar (isNameChar_of_isDigit digit))
  | negative => exact stops_cons (by decide)
  | char quote => exact stops_cons (quoted quote)
  | text quote => exact stops_cons (quoted quote)
  | yes => exact stops_cons (by decide)
  | no => exact stops_cons (by decide)

theorem OptionText.exists_cons {s : List Char} {o : String × Literal} (h : OptionText fits s o) :
    ∃ d r, s = d :: r ∧ Text.isBlank d = false := by
  have nonblank : ∀ {d : Char}, isNameStart d = true → Text.isBlank d = false :=
    fun start => isBlank_of_isNameChar (isNameChar_of_isNameStart start)
  cases h with
  | flag name =>
      cases name with
      | intro start => exact ⟨_, _, rfl, nonblank start⟩
  | assignment name =>
      cases name with
      | intro start => exact ⟨_, _, rfl, nonblank start⟩

theorem OptionText.stops_isBlank {s t : List Char} {o : String × Literal}
    (h : OptionText fits s o) : Stops Text.isBlank (s ++ t) := by
  obtain ⟨d, r, rfl, nonblank⟩ := h.exists_cons
  exact stops_cons nonblank

/-- A row of options is not all blank. -/
theorem OptionRow.not_blanks {t : List Char} {os : List (String × Literal)}
    (h : OptionRow fits t os) : ¬ Blanks t := by
  intro blanks
  cases h with
  | last _ option =>
      obtain ⟨d, r, rfl, nonblank⟩ := option.exists_cons
      exact absurd (blanks d (by simp)) (by simp [nonblank])
  | more _ option =>
      obtain ⟨d, r, rfl, nonblank⟩ := option.exists_cons
      exact absurd (blanks d (by simp)) (by simp [nonblank])

/-! ### Bounds on numerals -/

/-- Of the rows of digits in a text, those that one bound admits are admitted by another. -/
def Bounds (fits fits' : Nat → Prop) (t : List Char) : Prop :=
  ∀ ds, ds <:+: t → Digits ds → fits ds.length → fits' ds.length

variable {fits' : Nat → Prop}

theorem Bounds.of_infix {s t : List Char} (h : Bounds fits fits' t) (hs : s <:+: t) :
    Bounds fits fits' s :=
  fun ds hds => h ds (hds.trans hs)

theorem ValueText.of_bounds {v : List Char} {value : Literal} (h : ValueText fits v value)
    (bounds : Bounds fits fits' v) : ValueText fits' v value := by
  cases h with
  | numeral digits short => exact .numeral digits (bounds _ (List.infix_refl _) digits short)
  | negative digits short =>
      exact .negative digits (bounds _ (List.infix_cons (List.infix_refl _)) digits short)
  | char quote inside => exact .char quote inside
  | text quote inside many => exact .text quote inside many
  | yes => exact .yes
  | no => exact .no

theorem OptionText.of_bounds {s : List Char} {o : String × Literal} (h : OptionText fits s o)
    (bounds : Bounds fits fits' s) : OptionText fits' s o := by
  cases h with
  | flag name => exact .flag name
  | @assignment n b b' v _ name before after text =>
      have inside : v <:+: n ++ (b ++ '=' :: (b' ++ v)) := ⟨n ++ (b ++ '=' :: b'), [], by simp⟩
      exact .assignment name before after (text.of_bounds (bounds.of_infix inside))

theorem OptionRow.of_bounds {t : List Char} {os : List (String × Literal)}
    (h : OptionRow fits t os) (bounds : Bounds fits fits' t) : OptionRow fits' t os := by
  induction h with
  | @last b s b' _ before option after =>
      have inside : s <:+: b ++ (s ++ b') := ⟨b, b', by simp⟩
      exact .last before (option.of_bounds (bounds.of_infix inside)) after
  | @more b s b' t _ _ before option after _ ih =>
      have inside : s <:+: b ++ (s ++ (b' ++ ',' :: t)) := ⟨b, b' ++ ',' :: t, by simp⟩
      have behind : t <:+: b ++ (s ++ (b' ++ ',' :: t)) := ⟨b ++ (s ++ (b' ++ [','])), [], by simp⟩
      exact .more before (option.of_bounds (bounds.of_infix inside)) after
        (ih (bounds.of_infix behind))

theorem TokenText.of_bounds {t r : List Char} {name : String} {os : List (String × Literal)}
    (h : TokenText fits t name os r) (bounds : Bounds fits fits' t) :
    TokenText fits' t name os r := by
  cases h with
  | bare isName longest noList => exact .bare isName longest noList
  | @listed n l _ _ isName list =>
      have inside : l <:+: n ++ '(' :: (l ++ ')' :: r) := ⟨n ++ ['('], ')' :: r, by simp⟩
      cases list with
      | empty blanks => exact .listed isName (.empty blanks)
      | options row => exact .listed isName (.options (row.of_bounds (bounds.of_infix inside)))

/-- What is left behind a token is the end of its text. -/
theorem TokenText.suffix {t r : List Char} {name : String} {os : List (String × Literal)}
    (h : TokenText fits t name os r) : r <:+ t := by
  cases h with
  | bare => exact List.suffix_append _ _
  | @listed n l _ _ _ _ => exact ⟨n ++ '(' :: (l ++ [')']), by simp⟩

/-- A derivation goes through for another bound that admits the numerals of the text. -/
theorem Derives.of_bounds {σ : Char} {t : List Char} {pieces : List Piece}
    (h : Derives fits σ t pieces) (bounds : Bounds fits fits' t) : Derives fits' σ t pieces := by
  induction h with
  | nil => exact .nil
  | doubled _ ih =>
      exact .doubled (ih (bounds.of_infix (List.infix_cons (List.infix_cons (List.infix_refl _)))))
  | plain other _ ih =>
      exact .plain other (ih (bounds.of_infix (List.infix_cons (List.infix_refl _))))
  | token single text _ ih =>
      have ahead := bounds.of_infix (List.infix_cons (List.infix_refl _))
      exact .token single (text.of_bounds ahead) (ih (ahead.of_infix text.suffix.isInfix))

end Grammar

end LogLayout
