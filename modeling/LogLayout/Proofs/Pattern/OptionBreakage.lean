import LogLayout.Proofs.Pattern.OptionReading

/-!
# Where option lists break off

A reader of an option list stops at the first place where the grammar asks for something that does
not stand there: a name, a value, or the comma between two options. The relations here say what lies
before such a place and what stands at it, and they say so about the characters alone.
`readAll_eq_error_iff` ties them to the reader in both directions: it stops exactly where the list
breaks off, for that reason and with that position.
-/

namespace LogLayout

theorem stops_iff_any {p : Char → Bool} {cs : List Char} : Stops p cs ↔ cs.head?.any p = false :=
  (Option.any_eq_false _ _).symm

namespace Grammar

/-- The sign of a numeral: a minus sign or nothing. -/
def Sign (s : List Char) : Prop := s = [] ∨ s = ['-']

/-- A text that stands at a place begins with no value that can be read: nothing that could begin a
value stands there, a letter or underscore follows a numeral, a word is neither `true` nor `false`,
or a numeral is too long to be read. -/
inductive NoValue (place : Nat) : List Char → ScanStop → Prop
  | missing {t : List Char} (noQuote : Stops isQuote t) (noDigit : Stops Char.isDigit t)
      (noNumeral : ∀ r, t = '-' :: r → Stops Char.isDigit r) (noWord : Stops isNameStart t) :
      NoValue place t (.rejected ⟨.missingOptionValue, place⟩)
  | malformed {s ds r : List Char} {c : Char} (sign : Sign s) (digits : Digits ds)
      (letter : isNameStart c = true) :
      NoValue place (s ++ (ds ++ c :: r)) (.rejected ⟨.malformedInteger, place⟩)
  | word {w r : List Char} (name : Name w) (longest : Stops isNameChar r)
      (noFlag : ¬ (w = "true".toList ∨ w = "false".toList)) :
      NoValue place (w ++ r) (.rejected ⟨.unquotedValue (String.ofList w), place⟩)
  | long {s ds r : List Char} (sign : Sign s) (digits : Digits ds) (long : ¬ readable ds.length)
      (longest : Stops isNameChar r) :
      NoValue place (s ++ (ds ++ r)) (.numeralTooLong ds.length)

/-- Options with a comma behind each of them. -/
inductive Begun : List Char → List (String × Literal) → Prop
  | nil : Begun [] []
  | snoc {t b s b' : List Char} {o : String × Literal} {os : List (String × Literal)}
      (begun : Begun t os) (before : Blanks b) (option : OptionText readable s o)
      (after : Blanks b') : Begun (t ++ (b ++ (s ++ (b' ++ [',']))))  (os ++ [o])

/-- Behind a text that holds the given options the name of an option is due. -/
inductive NameDue : List Char → List (String × Literal) → Prop
  | intro {t b : List Char} {os : List (String × Literal)} (begun : Begun t os)
      (blanks : Blanks b) : NameDue (t ++ b) os

/-- Behind a text a value is due: a name and an equals sign were read last. -/
inductive ValueDue : List Char → Prop
  | intro {p n b b' : List Char} {os : List (String × Literal)} (due : NameDue p os)
      (name : Name n) (before : Blanks b) (after : Blanks b') :
      ValueDue (p ++ (n ++ (b ++ '=' :: b')))

/-- A text ends behind an option, whatever the text is that follows: the option does not go on
there. A quoted value is over with its quote. -/
inductive OptionDone : List Char → List Char → Prop
  | flag {p n b r : List Char} {os : List (String × Literal)} (due : NameDue p os) (name : Name n)
      (blanks : Blanks b) (longest : Stops isNameChar (b ++ r)) (noValue : r.head? ≠ some '=') :
      OptionDone (p ++ (n ++ b)) r
  | value {p v b r : List Char} {value : Literal} (due : ValueDue p)
      (text : ValueText readable v value) (blanks : Blanks b)
      (longest : Stops isNameChar (b ++ r) ∨ v.head?.any isQuote = true) :
      OptionDone (p ++ (v ++ b)) r

/-- An option list breaks off at a place: what is due behind the first part is not what the second
part, which begins with no blank, begins with. A list that is empty has no options to name. -/
inductive OptionsBreak (place : Nat) : List Char → List Char → ScanStop → Prop
  | name {d r : List Char} {os : List (String × Literal)} (due : NameDue d os)
      (firm : Stops Text.isBlank r) (noName : Stops isNameStart r) (needed : os ≠ [] ∨ r ≠ []) :
      OptionsBreak place d r (.rejected ⟨.missingOptionName, place⟩)
  | value {d r : List Char} {stop : ScanStop} (due : ValueDue d) (firm : Stops Text.isBlank r)
      (none : NoValue place r stop) : OptionsBreak place d r stop
  | separator {d r : List Char} (done : OptionDone d r) (firm : Stops Text.isBlank r)
      (noComma : r.head? ≠ some ',') (more : r ≠ []) :
      OptionsBreak place d r (.rejected ⟨.missingSeparator, place⟩)

/-! ### Small facts -/

theorem isNameStart_of_isNameChar {c : Char} (h : isNameChar c = true)
    (noDigit : c.isDigit = false) : isNameStart c = true := by
  simpa [isNameStart, isNameChar, Char.isAlphanum, noDigit] using h

theorem isDigit_of_isNameStart {c : Char} (h : isNameStart c = true) : c.isDigit = false := by
  delta isNameStart Char.isAlpha Char.isUpper Char.isLower at h
  delta Char.isDigit
  simp only [Bool.or_eq_true, Bool.and_eq_true, decide_eq_true_eq, beq_iff_eq, ge_iff_le,
    UInt32.le_iff_toNat_le, Bool.and_eq_false_iff, decide_eq_false_iff_not] at h ⊢
  change ((65 ≤ c.toNat ∧ c.toNat ≤ 90) ∨ (97 ≤ c.toNat ∧ c.toNat ≤ 122)) ∨ c = '_' at h
  change ¬ 48 ≤ c.toNat ∨ ¬ c.toNat ≤ 57
  rcases h with h | rfl
  · omega
  · decide

theorem Name.stops_isBlank {n t : List Char} (h : Name n) : Stops Text.isBlank (n ++ t) := by
  cases h with
  | intro start => exact stops_cons (isBlank_of_isNameChar (isNameChar_of_isNameStart start))

theorem ValueText.ne_nil {fits : Nat → Prop} {v : List Char} {value : Literal}
    (h : ValueText fits v value) : v ≠ [] := by
  cases h with
  | numeral digits => exact digits.ne_nil
  | negative | char | text | yes | no => simp

end Grammar

open Grammar

theorem Cursor.name?_eq_none_iff {c : Cursor} : c.name? = none ↔ Stops isNameStart c.rest := by
  rw [stops_iff_any, Cursor.name?]
  split
  · next starts => simp [starts]
  · next h => simpa using h

namespace Literal

theorem noValue_of_readNumeral {place : Nat} {negative : Bool} {s : List Char} {c : Cursor}
    {stop : ScanStop} (h : readNumeral place negative c = .error stop) (sign : Sign s)
    (starts : c.rest.head?.any Char.isDigit = true) : NoValue place (s ++ c.rest) stop := by
  obtain ⟨ds, digits, passes, noDigit, whole⟩ := c.exists_digits starts
  simp only [readNumeral, whole] at h
  rw [passes.rest]
  split at h
  · next extended =>
      obtain rfl := Except.error.inj h
      obtain ⟨d, hd, nameChar⟩ := (Option.any_eq_true _ _).mp extended
      obtain ⟨r, hr⟩ := List.head?_eq_some_iff.mp hd
      rw [hr]
      exact .malformed sign digits (isNameStart_of_isNameChar nameChar (noDigit d hd))
  · next longest =>
      split at h
      · next long =>
          obtain rfl := Except.error.inj h
          refine .long sign digits (Nat.not_le.mpr long) (stops_iff_any.mpr (by simpa using longest))
      · cases h

theorem noValue_of_readWord {c : Cursor} {stop : ScanStop} (h : readWord c = .error stop)
    (noQuote : Stops isQuote c.rest) (noDigit : Stops Char.isDigit c.rest)
    (noNumeral : ∀ r, c.rest = '-' :: r → Stops Char.isDigit r) :
    NoValue c.offset c.rest stop := by
  unfold readWord at h
  split at h
  · next word next hname =>
      obtain ⟨w, name, rfl, passes, longest⟩ := Cursor.passes_of_name? hname
      split at h
      · cases h
      · next noTrue =>
          split at h
          · cases h
          · next noFalse =>
              obtain rfl := Except.error.inj h
              rw [passes.rest]
              refine .word name longest ?_
              rintro (rfl | rfl)
              · exact noTrue rfl
              · exact noFalse rfl
  · next none =>
      obtain rfl := Except.error.inj h
      exact .missing noQuote noDigit noNumeral (Cursor.name?_eq_none_iff.mp none)

/-- Where no value was read, none can be. -/
theorem noValue_of_read {c : Cursor} {stop : ScanStop} (h : read c = .error stop) :
    NoValue c.offset c.rest stop := by
  unfold read at h
  split at h
  · next first after hrest =>
      split at h
      · cases h
      · next noQuote =>
          split at h
          · next digit => exact noValue_of_readNumeral h (.inl rfl) (by rw [hrest]; exact digit)
          · next noDigit =>
              split at h
              · next minus =>
                  obtain ⟨rfl, starts⟩ :=
                    Bool.and_eq_true_iff.mp minus |>.imp_left of_decide_eq_true
                  have behind : (c.advance 1).rest = after := by simp [Cursor.advance, hrest]
                  have none := noValue_of_readNumeral (s := ['-']) h (.inr rfl) (behind ▸ starts)
                  rw [behind] at none
                  exact hrest ▸ none
              · next noMinus =>
                  refine noValue_of_readWord h ?_ ?_ ?_
                  · exact hrest ▸ stops_cons (by simpa using noQuote)
                  · exact hrest ▸ stops_cons (by simpa using noDigit)
                  · intro r hr
                    obtain ⟨rfl, rfl⟩ := List.cons.inj (hrest.symm.trans hr)
                    exact stops_iff_any.mpr (by simpa using noMinus)
  · next hrest =>
      refine noValue_of_readWord h ?_ ?_ (by simp [hrest])
      · exact hrest ▸ stops_nil isQuote
      · exact hrest ▸ stops_nil Char.isDigit

/-- A value that was read does not go on as a name, unless it ends with a quote. -/
theorem stops_of_read {c next : Cursor} {v : Literal} (h : read c = .ok (v, next)) :
    Stops isNameChar next.rest ∨ c.rest.head?.any isQuote = true := by
  have numeral {place : Nat} {negative : Bool} {c : Cursor}
      (h : readNumeral place negative c = .ok (v, next)) : Stops isNameChar next.rest := by
    simp only [readNumeral] at h
    split at h
    · cases h
    · next longest =>
        split at h
        · cases h
        · obtain ⟨-, rfl⟩ := Prod.mk.inj (Except.ok.inj h)
          exact stops_iff_any.mpr (by simpa using longest)
  have word {c : Cursor} (h : readWord c = .ok (v, next)) : Stops isNameChar next.rest := by
    unfold readWord at h
    split at h
    · next hname =>
        obtain ⟨-, -, -, -, longest⟩ := Cursor.passes_of_name? hname
        split at h
        · obtain ⟨-, rfl⟩ := Prod.mk.inj (Except.ok.inj h)
          exact longest
        · split at h
          · obtain ⟨-, rfl⟩ := Prod.mk.inj (Except.ok.inj h)
            exact longest
          · cases h
    · cases h
  unfold read at h
  split at h
  · next first after hrest =>
      split at h
      · next quote => exact .inr (by rw [hrest]; exact quote)
      · split at h
        · exact .inl (numeral h)
        · split at h
          · exact .inl (numeral h)
          · exact .inl (word h)
  · exact .inl (word h)

end Literal

namespace WrittenOption

/-- Reading an option at a place where a name is due stops where the list breaks off. -/
theorem break_of_read {start c : Cursor} {p : List Char} {os : List (String × Literal)}
    {stop : ScanStop} (due : NameDue p os) (passes : start.Passes p c)
    (firm : Stops Text.isBlank c.rest) (needed : os ≠ [] ∨ c.rest ≠ [])
    (h : read c = .error stop) :
    ∃ d next, start.Passes d next ∧ OptionsBreak next.offset d next.rest stop := by
  simp only [read] at h
  split at h
  · next none =>
      obtain rfl := Except.error.inj h
      exact ⟨p, c, passes, .name due firm (Cursor.name?_eq_none_iff.mp none) needed⟩
  · next name afterName hname =>
      obtain ⟨n, isName, rfl, toName, -⟩ := Cursor.passes_of_name? hname
      obtain ⟨b, blanks, toSign, -⟩ := afterName.passes_skipBlanks
      split at h
      · next hsign =>
          obtain ⟨t, hrest⟩ := List.head?_eq_some_iff.mp hsign
          split at h
          · next hvalue =>
              obtain rfl := Except.error.inj h
              obtain ⟨b', blanks', toValue, firm⟩ :=
                (afterName.skipBlanks.advance 1).passes_skipBlanks
              have toPlace := passes.trans (toName.trans (toSign.trans (toValue.cons hrest)))
              exact ⟨_, _, toPlace, .value (.intro due isName blanks blanks') firm
                (Literal.noValue_of_read hvalue)⟩
          · cases h
      · cases h

/-- Behind an option that was read, and the blanks behind it, the option is over. -/
theorem done_of_read {start c behind : Cursor} {p : List Char} {os : List (String × Literal)}
    {o : WrittenOption} (due : NameDue p os) (passes : start.Passes p c)
    (h : read c = .ok (o, behind)) (enclosed : Enclosed c.rest) :
    ∃ d, start.Passes d behind.skipBlanks ∧ OptionDone d behind.skipBlanks.rest := by
  simp only [read] at h
  split at h
  · cases h
  · next name afterName hname =>
      obtain ⟨n, isName, rfl, toName, longest⟩ := Cursor.passes_of_name? hname
      obtain ⟨b, blanks, toSign, stops⟩ := afterName.passes_skipBlanks
      have sign := toSign.enclosed (toName.enclosed enclosed isName.inert) (.of_blanks blanks)
      split at h
      · next hsign =>
          obtain ⟨t, hrest⟩ := List.head?_eq_some_iff.mp hsign
          split at h
          · cases h
          · next value afterValue hvalue =>
              obtain ⟨-, rfl⟩ := Prod.mk.inj (Except.ok.inj h)
              obtain ⟨b', blanks', toValue, -⟩ := (afterName.skipBlanks.advance 1).passes_skipBlanks
              have passes' := toValue.cons hrest
              have inert : Inert ('=' :: b') := (Inert.of_blanks blanks').cons (by decide)
              obtain ⟨v, text, pastValue, -⟩ :=
                Literal.passes_of_read hvalue (passes'.enclosed sign inert)
              obtain ⟨b'', blanks'', toEnd, -⟩ := afterValue.passes_skipBlanks
              have toPlace := passes.trans (toName.trans (toSign.trans passes'))
              refine ⟨_, toPlace.trans (pastValue.trans toEnd),
                .value (.intro due isName blanks blanks') text blanks'' ?_⟩
              rw [← toEnd.rest]
              refine (Literal.stops_of_read hvalue).imp_right fun quote => ?_
              obtain ⟨q, t', rfl⟩ := List.exists_cons_of_ne_nil text.ne_nil
              rw [pastValue.rest] at quote
              exact quote
      · next noSign =>
          obtain ⟨-, rfl⟩ := Prod.mk.inj (Except.ok.inj h)
          have same : afterName.skipBlanks.skipBlanks = afterName.skipBlanks :=
            Cursor.skipBlanks_of_passes (.refl _) .nil stops
          rw [same]
          refine ⟨_, passes.trans (toName.trans toSign), .flag due isName blanks ?_ noSign⟩
          rw [← toSign.rest]
          exact longest

/-- Reading a row of options, of which some were read before, stops where the list breaks off. The
induction is on the rounds; each round adds an option and its comma to what lies before. -/
theorem break_of_readSome {start c : Cursor} {p : List Char} {os : List (String × Literal)}
    {stop : ScanStop} (begun : Begun p os) (passes : start.Passes p c)
    (needed : os ≠ [] ∨ c.skipBlanks.rest ≠ []) (enclosed : Enclosed c.rest)
    (h : readSome c = .error stop) :
    ∃ d next, start.Passes d next ∧ OptionsBreak next.offset d next.rest stop := by
  fun_induction readSome c generalizing p os with
  | case1 c stop' hread =>
      obtain rfl := Except.error.inj h
      obtain ⟨b, blanks, toStart, firm⟩ := c.passes_skipBlanks
      exact break_of_read (.intro begun blanks) (passes.trans toStart) firm needed hread
  | case2 => cases h
  | case3 c option behind hread atComma t hcomma =>
      rename_i ih
      obtain ⟨b, s, b', before, text, after, round, rest, -⟩ := passes_round hread enclosed
      have comma : atComma.Passes [','] (atComma.advance 1) := .cons hcomma (.refl _)
      have more : readSome (atComma.advance 1) = .error stop := by
        cases hmore : readSome (atComma.advance 1) with
        | error stop' => rw [hmore] at h; exact h
        | ok options => rw [hmore] at h; cases h
      have toNext := passes.trans (round.trans comma)
      simp only [List.append_assoc] at toNext
      exact ih (.snoc begun before text after) toNext (.inl (by simp))
        (enclosed_past_comma hcomma rest) more
  | case4 c option behind hread next noEnd =>
      rename_i noComma
      obtain rfl := Except.error.inj h
      obtain ⟨b, blanks, toStart, -⟩ := c.passes_skipBlanks
      have start' := toStart.enclosed enclosed (.of_blanks blanks)
      obtain ⟨d, toPlace, done⟩ :=
        done_of_read (.intro begun blanks) (passes.trans toStart) hread start'
      obtain ⟨-, -, -, firm⟩ := behind.passes_skipBlanks
      have noComma : behind.skipBlanks.rest.head? ≠ some ',' := by
        intro hd
        obtain ⟨r, hr⟩ := List.head?_eq_some_iff.mp hd
        exact noComma r hr
      exact ⟨d, _, toPlace, .separator done firm noComma noEnd⟩

/-- Reading an option list stops only where it breaks off. -/
theorem break_of_readAll {c : Cursor} {stop : ScanStop} (enclosed : Enclosed c.rest)
    (h : readAll c = .error stop) :
    ∃ d next, c.Passes d next ∧ OptionsBreak next.offset d next.rest stop := by
  rw [readAll, readSome_skipBlanks] at h
  split at h
  · cases h
  · next some =>
      exact break_of_readSome .nil (.refl c) (.inr (by simpa using some)) enclosed h

end WrittenOption

/-! ### Breaks stop the readers -/

namespace Literal

theorem readNumeral_of_malformed {place : Nat} {negative : Bool} {c next : Cursor}
    {ds r : List Char} {l : Char} (h : c.Passes ds next) (digits : Digits ds)
    (hrest : next.rest = l :: r) (letter : isNameStart l = true) :
    readNumeral place negative c = .error (.rejected ⟨.malformedInteger, place⟩) := by
  have whole : c.rest.takeWhile Char.isDigit = ds := by
    rw [h.rest, hrest]
    exact takeWhile_append_of_stops digits.isDigit (stops_cons (isDigit_of_isNameStart letter))
  have extended : next.rest.head?.any isNameChar = true := by
    rw [hrest]
    exact isNameChar_of_isNameStart letter
  simp only [readNumeral, whole, h.advance_eq, extended, if_true]

theorem readNumeral_of_long {place : Nat} {negative : Bool} {c next : Cursor} {ds : List Char}
    (h : c.Passes ds next) (digits : Digits ds) (long : ¬ readable ds.length)
    (stops : Stops isNameChar next.rest) :
    readNumeral place negative c = .error (.numeralTooLong ds.length) := by
  have whole : c.rest.takeWhile Char.isDigit = ds := by
    rw [h.rest, takeWhile_append_of_stops digits.isDigit (stops.of_imp isNameChar_of_isDigit)]
  have exceeds : Numeral.digitLimit < ds.length := Nat.not_le.mp long
  simp only [readNumeral, whole, h.advance_eq, stops_iff_any.mp stops, if_pos exceeds,
    Bool.false_eq_true, if_false]

/-- A sign and digits are read as a numeral. -/
theorem read_of_sign {c middle next : Cursor} {s ds : List Char} (sign : Sign s)
    (toDigits : c.Passes s middle) (digits : Digits ds) (past : middle.Passes ds next) :
    ∃ negative, read c = readNumeral c.offset negative middle := by
  obtain ⟨d, ds, rfl⟩ := List.exists_cons_of_ne_nil digits.ne_nil
  have digit := digits.isDigit d List.mem_cons_self
  rcases sign with rfl | rfl
  · obtain rfl : middle = c := by simpa [Cursor.advance] using toDigits.advance_eq.symm
    have noQuote := isQuote_of_isNameChar (isNameChar_of_isDigit digit)
    refine ⟨false, ?_⟩
    simp only [read, past.rest, List.cons_append, noQuote, digit, if_true, Bool.false_eq_true,
      if_false]
  · have behind : c.advance 1 = middle := toDigits.advance_eq
    have noQuote : isQuote '-' = false := by decide
    have noDigit : '-'.isDigit = false := by decide
    refine ⟨true, ?_⟩
    simp only [read, toDigits.rest, past.rest, List.cons_append, List.nil_append, noQuote, noDigit,
      Bool.false_eq_true, if_false, List.head?_cons, Option.any_some, digit, decide_true,
      Bool.and_true, if_true, behind]

theorem read_of_noMark {c : Cursor} (noQuote : Stops isQuote c.rest)
    (noDigit : Stops Char.isDigit c.rest)
    (noNumeral : ∀ r, c.rest = '-' :: r → Stops Char.isDigit r) : read c = readWord c := by
  match hrest : c.rest with
  | [] => rw [read, hrest]
  | first :: after =>
      have quote : isQuote first = false := noQuote first (by rw [hrest]; rfl)
      have digit : first.isDigit = false := noDigit first (by rw [hrest]; rfl)
      have minus : (decide (first = '-') && after.head?.any Char.isDigit) = false := by
        by_cases hm : first = '-'
        · subst hm
          simpa using stops_iff_any.mp (noNumeral after hrest)
        · simp [hm]
      simp only [read, hrest, quote, digit, minus, Bool.false_eq_true, if_false]

/-- Where no value can be read, none is. -/
theorem read_of_noValue {c : Cursor} {stop : ScanStop} (h : NoValue c.offset c.rest stop) :
    read c = .error stop := by
  generalize hr : c.rest = rest at h
  cases h with
  | missing noQuote noDigit noNumeral noWord =>
      subst hr
      rw [read_of_noMark noQuote noDigit noNumeral, readWord, Cursor.name?_eq_none_iff.mpr noWord]
  | @malformed s ds r l sign digits letter =>
      have passes : c.Passes (s ++ ds) ⟨c.offset + (s ++ ds).length, l :: r⟩ :=
        ⟨by simpa using hr, rfl⟩
      obtain ⟨middle, toDigits, past⟩ := passes.exists_between
      obtain ⟨negative, hread⟩ := read_of_sign sign toDigits digits past
      rw [hread, readNumeral_of_malformed past digits rfl letter]
  | @word w r name longest noFlag =>
      have passes : c.Passes w ⟨c.offset + w.length, r⟩ := ⟨hr, rfl⟩
      have isWord : read c = readWord c := by
        cases name with
        | @intro d ds start =>
            have nameChar := isNameChar_of_isNameStart start
            have noMinus : d ≠ '-' := by
              rintro rfl
              exact absurd start (by decide)
            refine read_of_noMark ?_ ?_ ?_
            · exact hr ▸ stops_cons (isQuote_of_isNameChar nameChar)
            · exact hr ▸ stops_cons (isDigit_of_isNameStart start)
            · intro r' hr'
              exact absurd (List.cons.inj (hr.symm.trans hr')).1 noMinus
      obtain ⟨noTrue, noFalse⟩ := not_or.mp noFlag
      have notTrue : String.ofList w ≠ "true" := by
        intro same
        exact noTrue (by rw [← same, String.toList_ofList])
      have notFalse : String.ofList w ≠ "false" := by
        intro same
        exact noFalse (by rw [← same, String.toList_ofList])
      rw [isWord, readWord, Cursor.name?_of_passes passes name longest]
      simp only [if_neg notTrue, if_neg notFalse]
  | @long s ds r sign digits long longest =>
      have passes : c.Passes (s ++ ds) ⟨c.offset + (s ++ ds).length, r⟩ :=
        ⟨by simpa using hr, rfl⟩
      obtain ⟨middle, toDigits, past⟩ := passes.exists_between
      obtain ⟨negative, hread⟩ := read_of_sign sign toDigits digits past
      rw [hread, readNumeral_of_long past digits long longest]

/-- Reading passes over a value that does not go on as a name, or that ends with a quote. -/
theorem read_of_closed {c next : Cursor} {t : List Char} {v : Literal} (h : c.Passes t next)
    (text : ValueText readable t v)
    (closed : Stops isNameChar next.rest ∨ t.head?.any isQuote = true) :
    read c = .ok (v, next) := by
  rcases closed with stops | quoted
  · exact read_of_passes h text stops
  · cases text with
    | numeral digits =>
        obtain ⟨d, ds, rfl⟩ := List.exists_cons_of_ne_nil digits.ne_nil
        have digit := digits.isDigit d List.mem_cons_self
        have noQuote := isQuote_of_isNameChar (isNameChar_of_isDigit digit)
        exact absurd quoted (by simp [noQuote])
    | negative => exact absurd quoted (by simp [isQuote])
    | @char q d quote inside =>
        have passes : c.Passes (q :: ([d] ++ [q])) next := h
        exact read_quoted passes quote (by simpa using inside.symm)
    | text quote inside many => rw [read_quoted h quote inside, ofQuoted_of_length many]
    | yes => exact absurd quoted (by decide)
    | no => exact absurd quoted (by decide)

end Literal

namespace WrittenOption

theorem readSome_of_stop {c : Cursor} {stop : ScanStop} (h : read c.skipBlanks = .error stop) :
    readSome c = .error stop := by
  rw [readSome]
  split
  · next hread =>
      rw [h] at hread
      obtain rfl := Except.error.inj hread
      rfl
  · next hread =>
      rw [h] at hread
      cases hread

/-- The reader gets past options that are followed by commas, so it stops where it would stop
behind them. -/
theorem readSome_of_begun {c next : Cursor} {t : List Char} {os : List (String × Literal)}
    {stop : ScanStop} (begun : Begun t os) (h : c.Passes t next)
    (stops : readSome next = .error stop) : readSome c = .error stop := by
  induction begun generalizing next with
  | nil =>
      obtain rfl : next = c := by simpa [Cursor.advance] using h.advance_eq.symm
      exact stops
  | @snoc t b s b' o os begun before option after ih =>
      obtain ⟨middle, past, round⟩ := h.exists_between
      have round : middle.Passes ((b ++ (s ++ b')) ++ [',']) next := by simpa using round
      obtain ⟨atComma, round, comma⟩ := round.exists_between
      have ends : Ends atComma.rest := .inr (by rw [comma.rest]; rfl)
      obtain ⟨option, behind, hread, skip, -⟩ :=
        exists_read_of_passes round before option after ends
      refine ih past ?_
      rw [readSome_of_read hread skip, comma.rest]
      have toNext : atComma.advance 1 = next := comma.advance_eq
      simp only [List.cons_append, List.nil_append, toNext, stops]
      rfl

/-- The reader stops where the reading of an option stops. -/
theorem readSome_of_due {c next : Cursor} {d : List Char} {os : List (String × Literal)}
    {stop : ScanStop} (due : NameDue d os) (h : c.Passes d next)
    (firm : Stops Text.isBlank next.rest) (stops : read next = .error stop) :
    readSome c = .error stop := by
  cases due with
  | intro begun blanks =>
      obtain ⟨middle, past, skip⟩ := h.exists_between
      have same : middle.skipBlanks = next := Cursor.skipBlanks_of_passes skip blanks firm
      exact readSome_of_begun begun past (readSome_of_stop (same ▸ stops))

/-- The reader stops behind an option that neither a comma nor the end follows. -/
theorem readSome_of_done {c middle behind next : Cursor} {d : List Char}
    {os : List (String × Literal)} {option : WrittenOption} (due : NameDue d os)
    (h : c.Passes d middle) (firm : Stops Text.isBlank middle.rest)
    (hread : read middle = .ok (option, behind)) (skip : behind.skipBlanks = next)
    (noComma : next.rest.head? ≠ some ',') (more : next.rest ≠ []) :
    readSome c = .error (.rejected ⟨.missingSeparator, next.offset⟩) := by
  cases due with
  | intro begun blanks =>
      obtain ⟨start, past, toMiddle⟩ := h.exists_between
      have same : start.skipBlanks = middle := Cursor.skipBlanks_of_passes toMiddle blanks firm
      refine readSome_of_begun begun past ?_
      rw [readSome_of_read (same ▸ hread) skip]
      obtain ⟨x, r, hr⟩ := List.exists_cons_of_ne_nil more
      have other : x ≠ ',' := by
        rintro rfl
        exact noComma (by rw [hr]; rfl)
      rw [hr]
      split
      · next hnil => cases hnil
      · next hcomma => exact absurd (List.cons.inj hcomma).1 other
      · rfl

/-- Behind a name and an equals sign an option has the value that is read there. -/
theorem read_of_name {c next : Cursor} {n b b' : List Char}
    (h : c.Passes (n ++ (b ++ '=' :: b')) next) (name : Name n) (before : Blanks b)
    (after : Blanks b') (firm : Stops Text.isBlank next.rest) :
    read c = match Literal.read next with
      | .error stop => .error stop
      | .ok (value, afterValue) => .ok (⟨String.ofList n, value, c.offset⟩, afterValue) := by
  obtain ⟨afterName, hname, h⟩ := h.exists_between
  obtain ⟨atSign, hbefore, h⟩ := h.exists_between
  have noName : Stops isNameChar afterName.rest := by
    rw [hbefore.rest, h.rest]
    exact before.stops (stops_cons (by decide))
  have noBlank : Stops Text.isBlank atSign.rest := by
    rw [h.rest]
    exact stops_cons (by decide)
  have toSign : afterName.skipBlanks = atSign :=
    Cursor.skipBlanks_of_passes hbefore before noBlank
  have toValue : (atSign.advance 1).skipBlanks = next :=
    Cursor.skipBlanks_of_passes h.tail after firm
  have signed : atSign.rest.head? = some '=' := by
    rw [h.rest]
    rfl
  rw [read, Cursor.name?_of_passes hname name noName]
  cases hvalue : Literal.read next <;> simp only [toSign, if_pos signed, toValue, hvalue]

/-- An option that is over is read, up to where it ends. -/
theorem exists_read_of_done {c next : Cursor} {d : List Char} (done : OptionDone d next.rest)
    (h : c.Passes d next) (firm : Stops Text.isBlank next.rest) :
    ∃ p os middle option behind, NameDue p os ∧ c.Passes p middle ∧
      Stops Text.isBlank middle.rest ∧ read middle = .ok (option, behind) ∧
      behind.skipBlanks = next := by
  generalize hr : next.rest = r at done
  cases done with
  | @flag p n b r os due name blanks longest noValue =>
      obtain ⟨middle, past, h⟩ := h.exists_between
      obtain ⟨afterName, hname, toNext⟩ := h.exists_between
      have skip : afterName.skipBlanks = next := Cursor.skipBlanks_of_passes toNext blanks firm
      have noName : Stops isNameChar afterName.rest := by
        rw [toNext.rest, hr]
        exact longest
      refine ⟨p, os, middle, ⟨String.ofList n, .flag true, middle.offset⟩, next, due, past, ?_, ?_,
        Cursor.skipBlanks_of_passes (.refl next) .nil firm⟩
      · rw [hname.rest]
        exact name.stops_isBlank
      · rw [← hr] at noValue
        simp only [read, Cursor.name?_of_passes hname name noName, skip, if_neg noValue]
  | @value p v b r value due text blanks longest =>
      cases due with
      | @intro p n b₁ b₂ os due name before after =>
          simp only [List.append_assoc, List.cons_append] at h
          obtain ⟨middle, past, h⟩ := h.exists_between
          have h : middle.Passes ((n ++ (b₁ ++ '=' :: b₂)) ++ (v ++ b)) next := by simpa using h
          obtain ⟨atValue, toValue, h⟩ := h.exists_between
          obtain ⟨afterValue, pastValue, toNext⟩ := h.exists_between
          have hvalue : Literal.read atValue = .ok (value, afterValue) :=
            Literal.read_of_closed pastValue text (by rw [toNext.rest, hr]; exact longest)
          have noBlank : Stops Text.isBlank atValue.rest := pastValue.rest ▸ text.stops_isBlank
          refine ⟨p, os, middle, ⟨String.ofList n, value, middle.offset⟩, afterValue, due, past, ?_,
            ?_, Cursor.skipBlanks_of_passes toNext blanks firm⟩
          · rw [toValue.rest, List.append_assoc]
            exact name.stops_isBlank
          · rw [read_of_name toValue name before after noBlank, hvalue]

/-- Where an option list breaks off, reading it stops. -/
theorem readSome_of_break {c next : Cursor} {d : List Char} {stop : ScanStop}
    (h : c.Passes d next) (breaks : OptionsBreak next.offset d next.rest stop) :
    readSome c = .error stop := by
  generalize hr : next.rest = r at breaks
  cases breaks with
  | name due firm noName needed =>
      refine readSome_of_due due h (hr ▸ firm) ?_
      rw [read, Cursor.name?_eq_none_iff.mpr (hr ▸ noName)]
  | value due firm none =>
      cases due with
      | @intro p n b b' os due name before after =>
          obtain ⟨middle, past, h⟩ := h.exists_between
          refine readSome_of_due due past ?_ ?_
          · rw [h.rest, List.append_assoc]
            exact name.stops_isBlank
          · rw [read_of_name h name before after (hr ▸ firm),
              Literal.read_of_noValue (hr ▸ none)]
  | separator done firm noComma more =>
      subst hr
      obtain ⟨p, os, middle, option, behind, due, past, firm', hread, skip⟩ :=
        exists_read_of_done done h firm
      exact readSome_of_done due past firm' hread skip noComma more

/-- A list that breaks off is not all blank. -/
theorem not_blanks_of_break {place : Nat} {d r : List Char} {stop : ScanStop}
    (breaks : OptionsBreak place d r stop) : ¬ Blanks (d ++ r) := by
  intro blanks
  have solid {x : Char} (mem : x ∈ d ++ r) (firm : Text.isBlank x = false) : False :=
    absurd (blanks x mem) (by simp [firm])
  have firmHead (firm : Stops Text.isBlank r) (more : r ≠ []) : False := by
    obtain ⟨x, r, rfl⟩ := List.exists_cons_of_ne_nil more
    exact solid (by simp) (firm x rfl)
  cases breaks with
  | name due firm noName needed =>
      refine needed.elim (fun options => ?_) (firmHead firm)
      cases due with
      | intro begun =>
          cases begun with
          | nil => exact options rfl
          | snoc => exact solid (x := ',') (by simp) (by decide)
  | value due =>
      cases due with
      | intro => exact solid (x := '=') (by simp) (by decide)
  | separator done firm noComma more => exact firmHead firm more

/-- Reading an option list stops exactly where the list breaks off. -/
theorem readAll_eq_error_iff {c : Cursor} {stop : ScanStop} (enclosed : Enclosed c.rest) :
    readAll c = .error stop ↔
      ∃ d next, c.Passes d next ∧ OptionsBreak next.offset d next.rest stop := by
  constructor
  · exact break_of_readAll enclosed
  · rintro ⟨d, next, h, breaks⟩
    have some : c.skipBlanks.rest ≠ [] := by
      intro none
      obtain ⟨b, blanks, skip, -⟩ := c.passes_skipBlanks
      refine not_blanks_of_break breaks ?_
      rw [← h.rest, skip.rest, none, List.append_nil]
      exact blanks
    rw [readAll, readSome_skipBlanks, if_neg (by simpa using some)]
    exact readSome_of_break h breaks

end WrittenOption

end LogLayout
