import LogLayout.Proofs.Pattern.Enclosure
import Mathlib.Data.List.TakeWhile

/-!
# Reading option lists

The readers of an option list agree with the grammar in both directions. `Cursor.Passes` says what
lies between two places; each reader has one lemma that it passes over every text of its rule, and
one that what it passed over is such a text. A numeral longer than can be read stops a reader, so
the rules are those with `readable` numerals.

The readers work on the text in front of the closing parenthesis. Soundness needs that text to be
enclosed, which is what makes the closing quote of a value exist.
-/

namespace LogLayout

open Grammar

namespace Cursor

/-- Between two places lie the given characters. -/
structure Passes (c : Cursor) (cs : List Char) (next : Cursor) : Prop where
  rest : c.rest = cs ++ next.rest
  offset : next.offset = c.offset + cs.length

theorem Passes.refl (c : Cursor) : c.Passes [] c := ⟨rfl, rfl⟩

theorem Passes.trans {c d e : Cursor} {cs ds : List Char} (h : c.Passes cs d)
    (h' : d.Passes ds e) : c.Passes (cs ++ ds) e := by
  refine ⟨?_, ?_⟩
  · rw [h.rest, h'.rest, List.append_assoc]
  · rw [h'.offset, h.offset, List.length_append, Nat.add_assoc]

/-- The place behind the characters is determined by their number. -/
theorem Passes.advance_eq {c next : Cursor} {cs : List Char} (h : c.Passes cs next) :
    c.advance cs.length = next := by
  obtain ⟨offset, rest⟩ := next
  obtain ⟨hrest, hoffset⟩ := h
  simp_all [Cursor.advance]

/-- From every place on there is a longest run of a class; behind it the class does not go on. -/
theorem exists_run (p : Char → Bool) (c : Cursor) :
    ∃ cs, c.Passes cs (c.advance cs.length) ∧ (∀ d ∈ cs, p d = true) ∧
      Stops p (c.advance cs.length).rest ∧ c.rest.takeWhile p = cs := by
  have split : c.rest = c.rest.takeWhile p ++ c.rest.dropWhile p :=
    List.takeWhile_append_dropWhile.symm
  have behind : (c.advance (c.rest.takeWhile p).length).rest = c.rest.dropWhile p :=
    (congrArg (List.drop (c.rest.takeWhile p).length) split).trans List.drop_left
  refine ⟨c.rest.takeWhile p, ⟨by rw [behind, ← split], rfl⟩,
    fun d hd => List.mem_takeWhile_imp hd, ?_, rfl⟩
  intro d hd
  have stop := List.head?_dropWhile_not p c.rest
  rw [behind] at hd
  rw [hd] at stop
  exact stop

/-- Where a digit stands, a longest row of digits begins. -/
theorem exists_digits {c : Cursor} (starts : c.rest.head?.any Char.isDigit = true) :
    ∃ ds, Digits ds ∧ c.Passes ds (c.advance ds.length) ∧
      Stops Char.isDigit (c.advance ds.length).rest ∧ c.rest.takeWhile Char.isDigit = ds := by
  obtain ⟨ds, passes, chars, noDigit, whole⟩ := c.exists_run Char.isDigit
  have ne_nil : ds ≠ [] := by
    obtain ⟨d, hd, digit⟩ := (Option.any_eq_true _ _).mp starts
    obtain ⟨more, hrest⟩ := List.head?_eq_some_iff.mp hd
    rw [hrest, List.takeWhile_cons_of_pos digit] at whole
    simp [← whole]
  exact ⟨ds, ⟨ne_nil, chars⟩, passes, noDigit, whole⟩

/-- There is a place between any two stretches of what is passed. -/
theorem Passes.exists_between {c next : Cursor} {cs ds : List Char} (h : c.Passes (cs ++ ds) next) :
    ∃ d, c.Passes cs d ∧ d.Passes ds next := by
  have behind : (c.advance cs.length).rest = ds ++ next.rest := by
    simp [advance, h.rest]
  refine ⟨c.advance cs.length, ⟨?_, rfl⟩, ⟨behind, ?_⟩⟩
  · rw [behind, h.rest, List.append_assoc]
  · rw [h.offset, List.length_append, advance, Nat.add_assoc]

/-- One character on, the rest of the characters lie ahead. -/
theorem Passes.tail {c next : Cursor} {d : Char} {cs : List Char} (h : c.Passes (d :: cs) next) :
    (c.advance 1).Passes cs next := by
  refine ⟨?_, ?_⟩
  · simp [advance, h.rest]
  · simp only [advance, h.offset, List.length_cons]
    omega

theorem Passes.cons {c next : Cursor} {d : Char} {after cs : List Char}
    (hrest : c.rest = d :: after) (h : (c.advance 1).Passes cs next) : c.Passes (d :: cs) next := by
  have ahead := h.rest
  have offset := h.offset
  simp only [advance, hrest, List.drop_succ_cons, List.drop_zero] at ahead offset
  refine ⟨by rw [hrest, ahead, List.cons_append], ?_⟩
  rw [offset, List.length_cons]
  omega

theorem Passes.enclosed {c next : Cursor} {cs : List Char} (h : c.Passes cs next)
    (enclosed : Enclosed c.rest) (inert : Inert cs) : Enclosed next.rest :=
  (h.rest ▸ enclosed).of_append fun d hd => (inert d hd).1

theorem skipBlanks_of_passes {c next : Cursor} {b : List Char} (h : c.Passes b next)
    (blanks : Blanks b) (stops : Stops Text.isBlank next.rest) : c.skipBlanks = next := by
  rw [skipBlanks, h.rest, takeWhile_append_of_stops blanks stops, h.advance_eq]

/-- What is skipped is blank, and no blank is left in front. -/
theorem passes_skipBlanks (c : Cursor) :
    ∃ b, Blanks b ∧ c.Passes b c.skipBlanks ∧ Stops Text.isBlank c.skipBlanks.rest := by
  obtain ⟨b, passes, blanks, stops, -⟩ := c.exists_run Text.isBlank
  have same := skipBlanks_of_passes passes blanks stops
  exact ⟨b, blanks, same ▸ passes, same ▸ stops⟩

theorem name?_of_passes {c next : Cursor} {n : List Char} (h : c.Passes n next) (name : Name n)
    (stops : Stops isNameChar next.rest) : c.name? = some (String.ofList n, next) := by
  have whole : c.rest.takeWhile isNameChar = n := by
    rw [h.rest, takeWhile_append_of_stops name.isNameChar stops]
  have starts : c.rest.head?.any isNameStart = true := by
    rw [h.rest]
    cases name with
    | intro start => exact start
  simp only [name?, whole, starts, if_true, h.advance_eq]

/-- A name that was read is one, and it is the longest at its place. -/
theorem passes_of_name? {c next : Cursor} {name : String} (h : c.name? = some (name, next)) :
    ∃ n, Name n ∧ name = String.ofList n ∧ c.Passes n next ∧ Stops isNameChar next.rest := by
  obtain ⟨n, passes, chars, stops, whole⟩ := c.exists_run isNameChar
  simp only [name?, whole] at h
  split at h
  · next starts =>
      obtain ⟨rfl, rfl⟩ := Prod.mk.inj (Option.some.inj h)
      refine ⟨n, ?_, rfl, passes, stops⟩
      obtain ⟨d, hd, start⟩ := (Option.any_eq_true _ _).mp starts
      obtain ⟨more, hrest⟩ := List.head?_eq_some_iff.mp hd
      rw [hrest, List.takeWhile_cons_of_pos (isNameChar_of_isNameStart start)] at whole
      subst whole
      exact .intro start fun e he => chars e (List.mem_cons_of_mem d he)
  · cases h

end Cursor

namespace Literal

theorem readNumeral_of_passes {valueAt : Nat} {negative : Bool} {c next : Cursor}
    {ds : List Char} (h : c.Passes ds next) (digits : Digits ds) (short : readable ds.length)
    (stops : Stops isNameChar next.rest) :
    readNumeral valueAt negative c = .ok (ofDigits negative ds, next) := by
  have whole : c.rest.takeWhile Char.isDigit = ds := by
    rw [h.rest, takeWhile_append_of_stops digits.isDigit (stops.of_imp isNameChar_of_isDigit)]
  have unextended : next.rest.head?.any isNameChar = false := (Option.any_eq_false _ _).mpr stops
  have fits : ¬ Numeral.digitLimit < ds.length := Nat.not_lt.mpr short
  simp only [readNumeral, whole, h.advance_eq, unextended, if_neg fits, Bool.false_eq_true,
    if_false]

/-- The digits of a numeral that was read are few enough. -/
theorem passes_of_readNumeral {valueAt : Nat} {negative : Bool} {c next : Cursor} {v : Literal}
    (h : readNumeral valueAt negative c = .ok (v, next))
    (starts : c.rest.head?.any Char.isDigit = true) :
    ∃ ds, Digits ds ∧ readable ds.length ∧ v = ofDigits negative ds ∧ c.Passes ds next := by
  obtain ⟨ds, digits, passes, -, whole⟩ := c.exists_digits starts
  simp only [readNumeral, whole] at h
  split at h
  · cases h
  · split at h
    · cases h
    · next fits =>
        obtain ⟨rfl, rfl⟩ := Prod.mk.inj (Except.ok.inj h)
        exact ⟨ds, digits, Nat.not_lt.mp fits, rfl, passes⟩

theorem ofQuoted_of_length {cs : List Char} (h : cs.length ≠ 1) :
    ofQuoted cs = .text (String.ofList cs) := by
  unfold ofQuoted
  split
  · exact absurd rfl h
  · rfl

/-- A quoted text is read up to the next quote of its kind. -/
theorem read_quoted {c next : Cursor} {q : Char} {cs : List Char}
    (h : c.Passes (q :: (cs ++ [q])) next) (quote : isQuote q = true) (inside : q ∉ cs) :
    read c = .ok (ofQuoted cs, next) := by
  have hrest : c.rest = q :: (cs ++ q :: next.rest) := by simp [h.rest]
  have content : (cs ++ q :: next.rest).takeWhile (· ≠ q) = cs := by
    refine takeWhile_append_of_stops (fun d hd => ?_) (stops_cons (by simp))
    simp only [decide_eq_true_eq]
    rintro rfl
    exact inside hd
  have length : (q :: (cs ++ [q])).length = cs.length + 2 := by simp
  simp only [read, hrest, quote, if_true, content, ← length, h.advance_eq]

/-- The two words are the only names that are read as values. -/
theorem readWord_of_passes {c next : Cursor} {t : List Char} (h : c.Passes t next)
    (name : Name t) (stops : Stops isNameChar next.rest) (b : Bool)
    (word : String.ofList t = toString b) : readWord c = .ok (.flag b, next) := by
  rw [readWord, Cursor.name?_of_passes h name stops, word]
  cases b <;> rfl

/-- Reading passes over every text of a value that no name character follows. -/
theorem read_of_passes {c next : Cursor} {t : List Char} {v : Literal} (h : c.Passes t next)
    (text : ValueText readable t v) (stops : Stops isNameChar next.rest) :
    read c = .ok (v, next) := by
  cases text with
  | numeral digits short =>
      cases t with
      | nil => exact absurd rfl digits.ne_nil
      | cons d ds =>
          have digit := digits.isDigit d List.mem_cons_self
          have noQuote := isQuote_of_isNameChar (isNameChar_of_isDigit digit)
          have hread : readNumeral c.offset false c = .ok (ofDigits false (d :: ds), next) :=
            readNumeral_of_passes h digits short stops
          simp only [read, h.rest, List.cons_append, noQuote, digit, if_true, Bool.false_eq_true,
            if_false, hread]
          rfl
  | negative digits short =>
      have hread : readNumeral c.offset true (c.advance 1) = .ok (ofDigits true _, next) :=
        readNumeral_of_passes h.tail digits short stops
      obtain ⟨d, ds, rfl⟩ := List.exists_cons_of_ne_nil digits.ne_nil
      have digit := digits.isDigit d List.mem_cons_self
      have noQuote : isQuote '-' = false := by decide
      have noDigit : '-'.isDigit = false := by decide
      simp only [read, h.rest, List.cons_append, noQuote, noDigit, if_true, Bool.false_eq_true,
        if_false, List.head?_cons, Option.any_some, digit, decide_true, Bool.and_true, hread]
      rfl
  | @char q d quote inside =>
      have passes : c.Passes (q :: ([d] ++ [q])) next := h
      exact read_quoted passes quote (by simpa using inside.symm)
  | text quote inside many =>
      rw [read_quoted h quote inside, ofQuoted_of_length many]
  | yes =>
      rw [read, h.rest]
      exact readWord_of_passes h (by decide) stops true rfl
  | no =>
      rw [read, h.rest]
      exact readWord_of_passes h (by decide) stops false rfl

/-- The value of a quoted text is a character or a text, by its length. -/
theorem valueText_ofQuoted {q : Char} {cs : List Char} (quote : isQuote q = true)
    (inside : q ∉ cs) : ValueText readable (q :: (cs ++ [q])) (ofQuoted cs) := by
  by_cases one : cs.length = 1
  · obtain ⟨d, rfl⟩ := List.length_eq_one_iff.mp one
    exact .char quote (by rintro rfl; exact inside List.mem_cons_self)
  · rw [ofQuoted_of_length one]
    exact .text quote inside one

theorem passes_of_readWord {c next : Cursor} {v : Literal} (h : readWord c = .ok (v, next)) :
    ∃ t, ValueText readable t v ∧ c.Passes t next ∧ Inert t := by
  unfold readWord at h
  split at h
  · next word afterWord hname =>
      obtain ⟨t, name, rfl, passes, -⟩ := Cursor.passes_of_name? hname
      split at h
      · next hword =>
          obtain ⟨rfl, rfl⟩ := Prod.mk.inj (Except.ok.inj h)
          obtain rfl : t = "true".toList := by rw [← hword, String.toList_ofList]
          exact ⟨_, .yes, passes, name.inert⟩
      · split at h
        · next hword =>
            obtain ⟨rfl, rfl⟩ := Prod.mk.inj (Except.ok.inj h)
            obtain rfl : t = "false".toList := by rw [← hword, String.toList_ofList]
            exact ⟨_, .no, passes, name.inert⟩
        · cases h
  · cases h

/-- In an enclosed text, what was read as a value is one, and what is left is enclosed. -/
theorem passes_of_read {c next : Cursor} {v : Literal} (h : read c = .ok (v, next))
    (enclosed : Enclosed c.rest) :
    ∃ t, ValueText readable t v ∧ c.Passes t next ∧ Enclosed next.rest := by
  have word : readWord c = .ok (v, next) →
      ∃ t, ValueText readable t v ∧ c.Passes t next ∧ Enclosed next.rest := by
    intro hword
    obtain ⟨t, text, passes, inert⟩ := passes_of_readWord hword
    exact ⟨t, text, passes, passes.enclosed enclosed inert⟩
  have hvalue := h
  unfold read at h
  split at h
  · next first after hrest =>
      split at h
      · next quote =>
          -- The closing quote is the one that enclosure provides, not the end of the text.
          obtain ⟨cs, r, rfl, inside, rest⟩ := (hrest ▸ enclosed).exists_closing quote
          have passes : c.Passes (first :: (cs ++ [first])) (c.advance (cs.length + 2)) := by
            refine ⟨?_, ?_⟩ <;> simp [Cursor.advance, hrest]
          rw [read_quoted passes quote inside] at hvalue
          obtain ⟨rfl, rfl⟩ := Prod.mk.inj (Except.ok.inj hvalue)
          refine ⟨_, valueText_ofQuoted quote inside, passes, ?_⟩
          simpa [Cursor.advance, hrest] using rest
      · split at h
        · next digit =>
            obtain ⟨ds, digits, short, rfl, passes⟩ :=
              passes_of_readNumeral h (by rw [hrest]; exact digit)
            exact ⟨ds, .numeral digits short, passes, passes.enclosed enclosed digits.inert⟩
        · split at h
          · next minus =>
              obtain ⟨rfl, starts⟩ := Bool.and_eq_true_iff.mp minus |>.imp_left of_decide_eq_true
              have behind : (c.advance 1).rest = after := by simp [Cursor.advance, hrest]
              obtain ⟨ds, digits, short, rfl, passes⟩ :=
                passes_of_readNumeral h (by rw [behind]; exact starts)
              exact ⟨'-' :: ds, .negative digits short, passes.cons hrest,
                (passes.cons hrest).enclosed enclosed (digits.inert.cons (by decide))⟩
          · exact word h
  · exact word h

end Literal

namespace WrittenOption

/-- An option without its position. -/
def entry (o : WrittenOption) : String × Literal := (o.name, o.value)

/-- What may follow an option and the blanks behind it: a comma or the end. -/
def Ends (t : List Char) : Prop := t = [] ∨ t.head? = some ','

theorem Ends.stops {p : Char → Bool} {t : List Char} (h : Ends t) (comma : p ',' = false) :
    Stops p t := by
  rcases h with rfl | h
  · exact stops_nil p
  · obtain ⟨r, rfl⟩ := List.head?_eq_some_iff.mp h
    exact stops_cons comma

/-- Reading passes over every text of an option, and over no more than the blanks behind it. -/
theorem read_of_passes {c middle next : Cursor} {s b : List Char} {o : String × Literal}
    (h : c.Passes s middle) (h' : middle.Passes b next) (text : OptionText readable s o)
    (blanks : Blanks b) (ends : Ends next.rest) :
    ∃ behind, read c = .ok (⟨o.1, o.2, c.offset⟩, behind) ∧ behind.skipBlanks = next := by
  have noBlank : Stops Text.isBlank next.rest := ends.stops (by decide)
  have skip : middle.skipBlanks = next := Cursor.skipBlanks_of_passes h' blanks noBlank
  have stops : Stops isNameChar middle.rest := h'.rest ▸ blanks.stops (ends.stops (by decide))
  cases text with
  | flag name =>
      have noValue : next.rest.head? ≠ some '=' := by
        intro hd
        exact absurd (ends.stops (p := (· == '=')) (by decide) '=' hd) (by decide)
      refine ⟨next, ?_, Cursor.skipBlanks_of_passes (.refl next) (by simp [Blanks]) noBlank⟩
      simp only [read, Cursor.name?_of_passes h name stops, skip, if_neg noValue]
  | @assignment n b b' v value name before after text =>
      obtain ⟨afterName, hname, h⟩ := h.exists_between
      obtain ⟨atSign, hbefore, h⟩ := h.exists_between
      obtain ⟨atValue, hafter, hvalue⟩ := h.tail.exists_between
      have sign : Stops Text.isBlank atSign.rest := by
        rw [h.rest]
        exact stops_cons (by decide)
      have noName : Stops isNameChar afterName.rest := by
        rw [hbefore.rest, h.rest]
        exact before.stops (stops_cons (by decide))
      have toSign : afterName.skipBlanks = atSign :=
        Cursor.skipBlanks_of_passes hbefore before sign
      have toValue : (atSign.advance 1).skipBlanks = atValue :=
        Cursor.skipBlanks_of_passes hafter after (hvalue.rest ▸ text.stops_isBlank)
      have signed : atSign.rest.head? = some '=' := by
        rw [h.rest]
        rfl
      refine ⟨middle, ?_, skip⟩
      simp only [read, Cursor.name?_of_passes hname name noName, toSign, if_pos signed, toValue,
        Literal.read_of_passes hvalue text stops]

/-- In an enclosed text, what was read as an option is one, perhaps with blanks behind it. -/
theorem passes_of_read {c next : Cursor} {o : WrittenOption} (h : read c = .ok (o, next))
    (enclosed : Enclosed c.rest) :
    ∃ s b, OptionText readable s o.entry ∧ Blanks b ∧ c.Passes (s ++ b) next ∧
      Enclosed next.rest := by
  simp only [read] at h
  split at h
  · cases h
  · next name afterName hname =>
      obtain ⟨n, isName, rfl, toName, -⟩ := Cursor.passes_of_name? hname
      obtain ⟨b, blanks, toSign, -⟩ := afterName.passes_skipBlanks
      have sign := toSign.enclosed (toName.enclosed enclosed isName.inert) (.of_blanks blanks)
      split at h
      · next hsign =>
          obtain ⟨t, hrest⟩ := List.head?_eq_some_iff.mp hsign
          split at h
          · cases h
          · next value afterValue hvalue =>
              obtain ⟨rfl, rfl⟩ := Prod.mk.inj (Except.ok.inj h)
              obtain ⟨b', blanks', toValue, -⟩ := (afterName.skipBlanks.advance 1).passes_skipBlanks
              have passes := (toValue.cons hrest)
              have inert : Inert ('=' :: b') := (Inert.of_blanks blanks').cons (by decide)
              obtain ⟨v, text, pastValue, rest⟩ :=
                Literal.passes_of_read hvalue (passes.enclosed sign inert)
              refine ⟨_, [], .assignment isName blanks blanks' text, by simp [Blanks], ?_, rest⟩
              simpa using toName.trans (toSign.trans (passes.trans pastValue))
      · obtain ⟨rfl, rfl⟩ := Prod.mk.inj (Except.ok.inj h)
        exact ⟨n, b, .flag isName, blanks, toName.trans toSign, sign⟩

/-- One round of a row: the option that was read, and then what the character behind it asks for. -/
theorem readSome_of_read {c behind next : Cursor} {option : WrittenOption}
    (h : read c.skipBlanks = .ok (option, behind)) (skip : behind.skipBlanks = next) :
    readSome c = match next.rest with
      | [] => .ok [option]
      | ',' :: _ => (readSome (next.advance 1)).map (option :: ·)
      | _ => .error (.rejected ⟨.missingSeparator, next.offset⟩) := by
  rw [readSome]
  split
  · next hstop =>
      rw [h] at hstop
      cases hstop
  · next hread =>
      rw [h] at hread
      obtain ⟨rfl, rfl⟩ := Prod.mk.inj (Except.ok.inj hread)
      subst skip
      rfl

/-- The round that reads an option of a row, blanks on both sides of it included. -/
theorem exists_read_of_passes {c next : Cursor} {b s b' : List Char} {o : String × Literal}
    (h : c.Passes (b ++ (s ++ b')) next) (before : Blanks b) (text : OptionText readable s o)
    (after : Blanks b') (ends : Ends next.rest) :
    ∃ option behind, read c.skipBlanks = .ok (option, behind) ∧ behind.skipBlanks = next ∧
      option.entry = o := by
  obtain ⟨start, toStart, h⟩ := h.exists_between
  obtain ⟨middle, past, h⟩ := h.exists_between
  have atStart : c.skipBlanks = start :=
    Cursor.skipBlanks_of_passes toStart before (past.rest ▸ text.stops_isBlank)
  obtain ⟨behind, hread, skip⟩ := read_of_passes past h text after ends
  exact ⟨_, behind, atStart ▸ hread, skip, rfl⟩

/-- Reading a row of options passes over every text of one, up to its end. -/
theorem readSome_of_row {c next : Cursor} {t : List Char} {os : List (String × Literal)}
    (h : c.Passes t next) (row : OptionRow readable t os) (atEnd : next.rest = []) :
    ∃ options, readSome c = .ok options ∧ options.map entry = os := by
  induction row generalizing c with
  | last before text after =>
      obtain ⟨option, behind, hread, skip, rfl⟩ :=
        exists_read_of_passes h before text after (.inl atEnd)
      refine ⟨[option], ?_, rfl⟩
      rw [readSome_of_read hread skip, atEnd]
  | @more b s b' t o os before text after rest ih =>
      have h : c.Passes ((b ++ (s ++ b')) ++ ',' :: t) next := by simpa using h
      obtain ⟨atComma, h, h'⟩ := h.exists_between
      have comma : atComma.rest = ',' :: (t ++ next.rest) := h'.rest
      obtain ⟨option, behind, hread, skip, rfl⟩ :=
        exists_read_of_passes h before text after (.inr (by rw [comma]; rfl))
      obtain ⟨options, hoptions, rfl⟩ := ih h'.tail
      refine ⟨option :: options, ?_, rfl⟩
      rw [readSome_of_read hread skip, comma]
      simp only [hoptions]
      rfl

theorem position_of_read {c next : Cursor} {o : WrittenOption} (h : read c = .ok (o, next)) :
    o.position = c.offset := by
  simp only [read] at h
  split at h
  · cases h
  · split at h
    · split at h
      · cases h
      · obtain ⟨rfl, -⟩ := Prod.mk.inj (Except.ok.inj h)
        rfl
    · obtain ⟨rfl, -⟩ := Prod.mk.inj (Except.ok.inj h)
      rfl

/-- A round of a row passes over one option and the blanks on both sides of it. -/
theorem passes_round {c behind : Cursor} {option : WrittenOption}
    (h : read c.skipBlanks = .ok (option, behind)) (enclosed : Enclosed c.rest) :
    ∃ b s b', Blanks b ∧ OptionText readable s option.entry ∧ Blanks b' ∧
      c.Passes (b ++ (s ++ b')) behind.skipBlanks ∧ Enclosed behind.skipBlanks.rest ∧
      option.position = c.offset + b.length := by
  obtain ⟨b, before, toStart, -⟩ := c.passes_skipBlanks
  have start := toStart.enclosed enclosed (.of_blanks before)
  obtain ⟨s, b', text, after, past, rest⟩ := passes_of_read h start
  obtain ⟨b'', after', toEnd, -⟩ := behind.passes_skipBlanks
  refine ⟨b, s, b' ++ b'', before, text, after.append after', ?_,
    toEnd.enclosed rest (.of_blanks after'), (position_of_read h).trans toStart.offset⟩
  simpa using toStart.trans (past.trans toEnd)

/-- Behind the comma after an option the text is still enclosed. -/
theorem enclosed_past_comma {c : Cursor} {t : List Char} (comma : c.rest = ',' :: t)
    (enclosed : Enclosed c.rest) : Enclosed (c.advance 1).rest := by
  have passes : c.Passes [','] (c.advance 1) := .cons comma (.refl _)
  exact passes.enclosed enclosed (by decide)

/-- What was read as a row of options is one. The induction is on the rounds, each of which leaves
an enclosed text to the next. -/
theorem row_of_readSome {c : Cursor} {options : List WrittenOption}
    (h : readSome c = .ok options) (enclosed : Enclosed c.rest) :
    OptionRow readable c.rest (options.map entry) := by
  fun_induction readSome c generalizing options with
  | case1 c stop hread => cases h
  | case2 c option behind hread atEnd =>
      rename_i hend
      obtain rfl := Except.ok.inj h
      obtain ⟨b, s, b', before, text, after, passes, -⟩ := passes_round hread enclosed
      rw [passes.rest, hend, List.append_nil]
      exact .last before text after
  | case3 c option behind hread atComma t hcomma =>
      rename_i ih
      obtain ⟨b, s, b', before, text, after, passes, rest, -⟩ := passes_round hread enclosed
      cases hmore : readSome (atComma.advance 1) with
      | error stop =>
          rw [hmore] at h
          cases h
      | ok more =>
          rw [hmore] at h
          obtain rfl := Except.ok.inj h
          have tail : (atComma.advance 1).rest = t := by simp [Cursor.advance, hcomma]
          have row := ih hmore (enclosed_past_comma hcomma rest)
          rw [tail] at row
          rw [passes.rest, hcomma]
          simpa using OptionRow.more before text after row
  | case4 => cases h

theorem readSome_skipBlanks (c : Cursor) : readSome c.skipBlanks = readSome c := by
  have same : c.skipBlanks.skipBlanks = c.skipBlanks := by
    obtain ⟨b, -, -, stops⟩ := c.passes_skipBlanks
    exact Cursor.skipBlanks_of_passes (.refl _) (by simp [Blanks]) stops
  rw [readSome, readSome.eq_def c, same]

/-- Reading an option list succeeds exactly on the texts of one, with its options. -/
theorem readAll_eq_ok_iff {c : Cursor} {os : List (String × Literal)} (enclosed : Enclosed c.rest) :
    (∃ options, readAll c = .ok options ∧ options.map entry = os) ↔
      OptionList readable c.rest os := by
  obtain ⟨b, blanks, passes, stops⟩ := c.passes_skipBlanks
  rw [readAll, readSome_skipBlanks]
  constructor
  · rintro ⟨options, h, rfl⟩
    split at h
    · next empty =>
        obtain rfl := Except.ok.inj h
        rw [passes.rest, List.isEmpty_iff.mp empty, List.append_nil]
        exact .empty blanks
    · exact .options (row_of_readSome h enclosed)
  · intro list
    cases list with
    | empty all =>
        have none : c.skipBlanks.rest = [] := by
          cases hr : c.skipBlanks.rest with
          | nil => rfl
          | cons d r =>
              have blank := all d (by simp [passes.rest, hr])
              exact absurd blank (by simp [stops d (by simp [hr])])
        exact ⟨[], by simp [none], rfl⟩
    | options row =>
        have some : c.skipBlanks.rest ≠ [] := by
          intro none
          rw [passes.rest, none, List.append_nil] at row
          exact row.not_blanks blanks
        have toEnd : c.Passes c.rest ⟨c.offset + c.rest.length, []⟩ := ⟨by simp, rfl⟩
        rw [if_neg (by simpa using some)]
        exact readSome_of_row toEnd row rfl

end WrittenOption

end LogLayout
