import Mathlib.Order.Bounds.Defs
import LogLayout.Proofs.Outcome
import LogLayout.Proofs.Pattern.Extent
import LogLayout.Proofs.Pattern.OptionBreakage

/-!
# Reading no further than the parenthesis

Where an option list ends is found by one pass over the text, and its options are read by another,
which knows the place of the end but not which quotes are open. Both are in the same state wherever
the reader stands: `Extent.Clear` says that what it has behind it since the start is enclosed, and
what it has ahead of it up to the end is so too. Each part of the reader keeps this, and does what
the reader does that sees nothing but the text before the end.

`Extent.reads_between_parentheses` draws the conclusions: the reader in place looks at nothing from
the end on, finds each closing quote before it, stops there when all is well, and gives what the
text up to the end determines.
-/

namespace LogLayout

open Grammar

/-! ### Open quotes -/

/-- The quote that stands open after one more character. -/
def quoteAfter : Option Char → Char → Option Char
  | none, c => if isQuote c then some c else none
  | some q, c => if c = q then none else some q

/-- The quote that stands open behind a text. -/
def openQuote (cs : List Char) : Option Char := cs.foldl quoteAfter none

section OpenQuote

variable {q c : Char} {s t : List Char}

theorem foldl_quoteAfter_of_not_mem (h : q ∉ s) : s.foldl quoteAfter (some q) = some q := by
  induction s with
  | nil => rfl
  | cons c s ih =>
      obtain ⟨hc, hs⟩ := not_or.mp (mt List.mem_cons.mpr h)
      rw [List.foldl_cons, quoteAfter, if_neg (Ne.symm hc), ih hs]

theorem openQuote_plain (h : isQuote c = false) (t : List Char) :
    openQuote (c :: t) = openQuote t := by
  simp [openQuote, quoteAfter, h]

theorem openQuote_of_open (quote : isQuote q = true) (h : q ∉ s) :
    openQuote (q :: s) = some q := by
  simp [openQuote, quoteAfter, quote, foldl_quoteAfter_of_not_mem h]

theorem openQuote_quoted (quote : isQuote q = true) (h : q ∉ s) (t : List Char) :
    openQuote (q :: (s ++ q :: t)) = openQuote t := by
  simp [openQuote, quoteAfter, quote, foldl_quoteAfter_of_not_mem h]

/-- Behind an enclosed text no quote stands open. -/
theorem Grammar.Enclosed.openQuote_eq (h : Enclosed t) : openQuote t = none := by
  induction h with
  | nil => rfl
  | plain noQuote _ _ ih => rw [openQuote_plain noQuote, ih]
  | quoted quote inside _ ih => rw [openQuote_quoted quote inside, ih]

/-- At each closing parenthesis in an enclosed text a quote stands open. -/
theorem Grammar.Enclosed.openQuote_ne_none (h : Enclosed (s ++ ')' :: t)) :
    openQuote s ≠ none := by
  generalize whole : s ++ ')' :: t = u at h
  induction h generalizing s with
  | nil => simp at whole
  | @plain c u noQuote noEnd _ ih =>
      cases s with
      | nil => exact absurd (List.cons.inj whole).1.symm noEnd
      | cons d s =>
          rw [List.cons_append] at whole
          obtain ⟨rfl, behind⟩ := List.cons.inj whole
          rw [openQuote_plain noQuote]
          exact ih behind
  | @quoted q inner u quote inside _ ih =>
      cases s with
      | nil =>
          obtain ⟨rfl, -⟩ := List.cons.inj whole
          exact absurd quote (by decide)
      | cons d s =>
          rw [List.cons_append] at whole
          obtain ⟨rfl, behind⟩ := List.cons.inj whole
          by_cases closed : d ∈ s
          · obtain ⟨inner', s, rfl, inside'⟩ := List.eq_append_cons_of_mem closed
            -- Both ways to cut the text end the quoted stretch at the first quote of its kind.
            have apart {cs : List Char} (h : d ∉ cs) : ∀ c ∈ cs, decide (c ≠ d) = true := by
              intro c mem
              rw [decide_eq_true_eq]
              rintro rfl
              exact h mem
            rw [List.append_assoc, List.cons_append] at behind
            obtain ⟨rfl, rest⟩ := append_inj_of_stops (apart inside') (apart inside)
              (stops_cons (by simp)) (stops_cons (by simp)) behind
            rw [openQuote_quoted quote inside']
            exact ih (List.cons.inj rest).2
          · rw [openQuote_of_open quote closed]
            exact Option.some_ne_none d

end OpenQuote

namespace Extent

variable {x : Extent} {start pos stop : Nat} {c next : Cursor} {d : Char} {cs s r t : List Char}

/-! ### Slices -/

theorem slice_append {middle : Nat} (h : pos ≤ middle) (h' : middle ≤ stop) :
    x.slice pos middle ++ x.slice middle stop = x.slice pos stop := by
  have lengths : stop - pos = (middle - pos) + (stop - middle) := by omega
  have place : middle = pos + (middle - pos) := by omega
  rw [slice, slice, slice, lengths, List.take_add, List.drop_drop, ← place]

/-- The parts of a slice are slices. -/
theorem slice_of_append (h : x.slice pos stop = s ++ r) :
    x.slice pos (pos + s.length) = s ∧ x.slice (pos + s.length) stop = r := by
  have length : s.length ≤ stop - pos := by
    have whole := congrArg List.length h
    have short := List.length_take_le (stop - pos) (x.text.drop pos)
    rw [slice, List.length_append] at whole
    omega
  constructor
  · have first := congrArg (List.take s.length) h
    rw [List.take_left, slice, List.take_take, Nat.min_eq_left length] at first
    rw [slice, Nat.add_sub_cancel_left, first]
  · have behind := congrArg (List.drop s.length) h
    rw [List.drop_left, slice, List.drop_take, List.drop_drop, ← Nat.sub_add_eq] at behind
    exact behind

/-- A slice that is not empty begins with the character at its place. -/
theorem of_slice_eq_cons (h : x.slice pos stop = d :: t) :
    pos < stop ∧ x.text[pos]? = some d ∧ x.slice (pos + 1) stop = t := by
  have before : pos < stop := by
    by_contra outside
    rw [slice, Nat.sub_eq_zero_of_le (Nat.not_lt.mp outside), List.take_zero] at h
    cases h
  have first := congrArg List.head? h
  rw [slice, List.head?_take, if_neg (by omega), List.head?_drop] at first
  have cut : x.slice pos stop = [d] ++ t := h
  exact ⟨before, first, (slice_of_append cut).2⟩

/-! ### Places where the states agree -/

/-- What a reader may do: look before the end, stand no further on than there and outside quotes,
and take what lies between two quotes of one kind before the end. -/
def Allows (x : Extent) (start : Nat) : Act → Prop
  | .looks place => place < x.close
  | .stands place => place ≤ x.close ∧ openQuote (x.slice start place) = none
  | .quotes opening closing =>
    opening < closing ∧ closing < x.close ∧ x.text[closing]? = x.text[opening]?

/-- A place between the start of an option list and its end, with what lies ahead of it up to the
end. Since both sides are enclosed, no quote stands open there, and none of the closing parentheses
ahead is the end. -/
structure Clear (x : Extent) (start : Nat) (c : Cursor) : Prop where
  bound : x.close ≤ x.text.length
  rest : c.rest = x.slice c.offset x.close
  from_start : start ≤ c.offset
  to_close : c.offset ≤ x.close
  passed : Enclosed (x.slice start c.offset)
  ahead : Enclosed c.rest

namespace Clear

variable (h : x.Clear start c)
include h

theorem length_rest : c.offset + c.rest.length = x.close := by
  have bound := h.bound
  have to_close := h.to_close
  rw [h.rest, slice, List.length_take, List.length_drop]
  omega

theorem offset_eq (atEnd : c.rest = []) : c.offset = x.close := by
  have length := h.length_rest
  rw [atEnd, List.length_nil] at length
  exact length

/-- Ahead of a place before the end stands the character at this place. -/
theorem getElem? (hrest : c.rest = d :: t) : c.offset < x.close ∧ x.text[c.offset]? = some d := by
  obtain ⟨before, found, -⟩ := of_slice_eq_cons (h.rest.symm.trans hrest)
  exact ⟨before, found⟩

/-- What is passed is a slice of the text, and so is what lies ahead. -/
theorem slice_of_passes (passes : c.Passes cs next) :
    x.slice c.offset next.offset = cs ∧ next.rest = x.slice next.offset x.close ∧
      next.offset ≤ x.close := by
  obtain ⟨first, behind⟩ := slice_of_append (h.rest.symm.trans passes.rest)
  have offset := passes.offset
  have length := h.length_rest
  rw [← offset] at first behind
  rw [passes.rest, List.length_append] at length
  exact ⟨first, behind.symm, by omega⟩

/-- Past an enclosed stretch the states agree again if what lies ahead is enclosed. -/
theorem of_passes (passes : c.Passes cs next) (stretch : Enclosed cs)
    (ahead : Enclosed next.rest) : x.Clear start next := by
  obtain ⟨passed, rest, to_close⟩ := h.slice_of_passes passes
  have from_start := h.from_start
  have offset := passes.offset
  have further : Enclosed (x.slice start c.offset ++ x.slice c.offset next.offset) :=
    h.passed.append (passed ▸ stretch)
  rw [slice_append from_start (by omega)] at further
  exact ⟨h.bound, rest, by omega, to_close, further, ahead⟩

/-- One character that is no quote is passed. -/
theorem step (hrest : c.rest = d :: t) (noQuote : isQuote d = false) :
    x.Clear start (c.advance 1) ∧ (c.advance 1).rest = t := by
  have behind : (c.advance 1).rest = t := by simp [Cursor.advance, hrest]
  have passes : c.Passes [d] (c.advance 1) := ⟨by simp [hrest, behind], rfl⟩
  rcases enclosed_cons_iff.mp (hrest ▸ h.ahead) with ⟨_, noEnd, ahead⟩ | ⟨quote, _⟩
  · exact ⟨h.of_passes passes (.plain noQuote noEnd .nil) (behind.symm ▸ ahead), behind⟩
  · exact absurd quote (by simp [noQuote])

/-- Behind an option that was read the states agree. -/
theorem of_read {o : WrittenOption} (done : WrittenOption.read c = .ok (o, next)) :
    x.Clear start next := by
  obtain ⟨s, b, text, blanks, passes, ahead⟩ := WrittenOption.passes_of_read done h.ahead
  exact h.of_passes passes (text.enclosed.append (Inert.of_blanks blanks).enclosed) ahead

theorem allows : x.Allows start (.stands c.offset) := ⟨h.to_close, h.passed.openQuote_eq⟩

end Clear

/-! ### The parts of the reader -/

/-- The outcome of a part that sees the text before the end alone, with the place behind what it
read. -/
def placed {β : Type} (o : Except ScanStop (β × Cursor)) : Except Halt (β × Nat) :=
  (o.map fun r => (r.1, r.2.offset)).mapError .stop

/-- The outcome of a reader of all that lies before the end. -/
def ended {β : Type} (x : Extent) (o : Except ScanStop β) : Except Halt (β × Nat) :=
  (o.map fun b => (b, x.close)).mapError .stop

/-- The search for a quote that stands before the end does not go further. -/
theorem find_of_slice {q : Char} (h : x.slice pos x.close = s ++ q :: r) (inside : q ∉ s) :
    (x.find q pos).Ends (x.Allows start) (.ok (pos + s.length)) := by
  induction s generalizing pos with
  | nil =>
      obtain ⟨before, found, -⟩ := of_slice_eq_cons h
      obtain ⟨within, first⟩ := List.getElem?_eq_some_iff.mp found
      rw [find, dif_pos within, if_pos first]
      exact .act before (.pure pos)
  | cons d s ih =>
      obtain ⟨before, found, behind⟩ := of_slice_eq_cons h
      obtain ⟨within, first⟩ := List.getElem?_eq_some_iff.mp found
      obtain ⟨other, inside⟩ := not_or.mp (mt List.mem_cons.mpr inside)
      have length : pos + (d :: s).length = pos + 1 + s.length := by
        rw [List.length_cons]
        omega
      rw [find, dif_pos within, first, if_neg (Ne.symm other), length]
      exact .act before (ih behind inside)

namespace Clear

variable {p : Char → Bool} {missing : Fault} (h : x.Clear start c)
include h

theorem peek : (x.peek c.offset).Ends (x.Allows start) (.ok c.rest.head?) := by
  rw [Extent.peek]
  cases hrest : c.rest with
  | nil =>
      rw [if_neg (Nat.not_lt.mpr (Nat.le_of_eq (h.offset_eq hrest).symm))]
      exact .pure none
  | cons d t =>
      obtain ⟨before, found⟩ := h.getElem? hrest
      rw [if_pos before, found]
      exact .act before (.pure (some d))

/-- A run of a class without quotes is passed character by character. -/
theorem skip (noQuote : ∀ {d}, p d = true → isQuote d = false) :
    (x.skip p c.offset).Ends (x.Allows start) (.ok (c.offset + (c.rest.takeWhile p).length)) := by
  induction hrest : c.rest generalizing c with
  | nil =>
      rw [Extent.skip, if_neg (Nat.not_lt.mpr (Nat.le_of_eq (h.offset_eq hrest).symm))]
      exact .pure c.offset
  | cons d t ih =>
      obtain ⟨before, found⟩ := h.getElem? hrest
      rw [Extent.skip, if_pos before, found]
      apply Reading.Ends.act before
      cases member : p d with
      | false =>
          have other : ¬ p d = true := by simp [member]
          rw [Option.any_some, if_neg other, List.takeWhile_cons_of_neg other]
          exact .pure c.offset
      | true =>
          obtain ⟨further, behind⟩ := h.step hrest (noQuote member)
          have length : c.offset + (d :: t.takeWhile p).length =
              c.offset + 1 + (t.takeWhile p).length := by
            rw [List.length_cons]
            omega
          rw [Option.any_some, if_pos member, List.takeWhile_cons_of_pos member, length]
          exact .act further.allows (ih further behind)

theorem skipBlanks :
    (x.skip Text.isBlank c.offset).Ends (x.Allows start) (.ok c.skipBlanks.offset) ∧
      x.Clear start c.skipBlanks := by
  obtain ⟨b, blanks, passes, -⟩ := c.passes_skipBlanks
  have inert := Inert.of_blanks blanks
  exact ⟨h.skip isQuote_of_isBlank,
    h.of_passes passes inert.enclosed (passes.enclosed h.ahead inert)⟩

theorem name_of_some {n : String} (found : c.name? = some (n, next)) :
    (x.name missing c.offset).Ends (x.Allows start) (.ok (n, next.offset)) ∧
      x.Clear start next := by
  obtain ⟨cs, name, rfl, passes, stops⟩ := Cursor.passes_of_name? found
  have whole : c.rest.takeWhile isNameChar = cs := by
    rw [passes.rest, takeWhile_append_of_stops name.isNameChar stops]
  have starts : c.rest.head?.any isNameStart = true := by
    rw [passes.rest]
    cases name with
    | intro start => exact start
  have skipped := h.skip isQuote_of_isNameChar
  rw [whole, ← passes.offset] at skipped
  refine ⟨.bind h.peek ?_,
    h.of_passes passes name.inert.enclosed (passes.enclosed h.ahead name.inert)⟩
  rw [if_pos starts]
  apply Reading.Ends.bind skipped
  rw [(h.slice_of_passes passes).1]
  exact .pure (String.ofList cs, next.offset)

theorem name_of_none (absent : c.name? = none) :
    (x.name missing c.offset).Ends (x.Allows start)
      (.error (.stop (.rejected ⟨missing, c.offset⟩))) := by
  have stops := stops_iff_any.mp (Cursor.name?_eq_none_iff.mp absent)
  apply Reading.Ends.bind h.peek
  rw [stops, if_neg Bool.false_ne_true]
  exact Reading.ends_halt

/-- The closing quote of a value is the one that enclosure provides, which stands before the end. -/
theorem quoted (hrest : c.rest = d :: t) (quote : isQuote d = true) :
    (x.quoted d c.offset).Ends (x.Allows start) (placed (Literal.read c)) := by
  obtain ⟨cs, r, rfl, inside, ahead⟩ := (hrest ▸ h.ahead).exists_closing quote
  have passes : c.Passes (d :: (cs ++ [d])) (c.advance (cs.length + 2)) := by
    refine ⟨?_, ?_⟩ <;> simp [Cursor.advance, hrest]
  have behind : (c.advance (cs.length + 2)).rest = r := by simp [Cursor.advance, hrest]
  have clear := h.of_passes passes (.quoted quote inside .nil) (behind.symm ▸ ahead)
  obtain ⟨-, opens, content⟩ := of_slice_eq_cons (h.rest.symm.trans hrest)
  obtain ⟨within, closing⟩ := slice_of_append content
  obtain ⟨before, closes, -⟩ := of_slice_eq_cons closing
  have past : c.offset + 1 + cs.length + 1 = (c.advance (cs.length + 2)).offset := by
    show c.offset + 1 + cs.length + 1 = c.offset + (cs.length + 2)
    omega
  have taken : x.Allows start (.quotes c.offset (c.offset + 1 + cs.length)) :=
    ⟨by omega, before, closes.trans opens.symm⟩
  rw [Literal.read_quoted passes quote inside]
  refine .bind (find_of_slice content inside) (.act taken ?_)
  rw [within, past]
  exact .act clear.allows (.pure _)

/-- The digits of an integer begin at its place, or behind the minus sign that stands there. -/
theorem numeral {negative : Bool} {digitsAt : Cursor} (hrest : c.rest = d :: t)
    (noQuote : isQuote d = false) (begins : digitsAt = if negative then c.advance 1 else c)
    (digit : negative = false → d.isDigit = true) :
    (x.numeral negative c.offset).Ends (x.Allows start)
      (placed (Literal.readNumeral c.offset negative digitsAt)) := by
  obtain ⟨second, behind⟩ := h.step hrest noQuote
  have clear : x.Clear start digitsAt := by
    rw [begins]
    split
    · exact second
    · exact h
  have place : (if negative then c.offset + 1 else c.offset) = digitsAt.offset := by
    rw [begins]
    cases negative <;> rfl
  obtain ⟨ds, passes, digits, -, whole⟩ := digitsAt.exists_run Char.isDigit
  have inert : Inert ds := .of_isNameChar fun e mem => isNameChar_of_isDigit (digits e mem)
  have next := clear.of_passes passes inert.enclosed (passes.enclosed clear.ahead inert)
  have skipped : (x.skip Char.isDigit (c.offset + 1)).Ends (x.Allows start)
      (.ok (digitsAt.advance ds.length).offset) := by
    have run := second.skip fun digit => isQuote_of_isNameChar (isNameChar_of_isDigit digit)
    suffices same : (c.advance 1).offset + ((c.advance 1).rest.takeWhile Char.isDigit).length =
        (digitsAt.advance ds.length).offset from same ▸ run
    cases negative with
    | true =>
        obtain rfl : digitsAt = c.advance 1 := begins
        rw [whole]
        rfl
    | false =>
        obtain rfl : digitsAt = c := begins
        rw [hrest, List.takeWhile_cons_of_pos (digit rfl)] at whole
        rw [behind, ← whole, List.length_cons]
        show digitsAt.offset + 1 + _ = digitsAt.offset + (_ + 1)
        omega
  refine .act second.allows (.bind skipped (.bind next.peek ?_))
  simp only [Literal.readNumeral, whole]
  split
  · exact Reading.ends_halt
  · rw [place, (clear.slice_of_passes passes).1, integer]
    split
    · exact .bind_of_error Reading.ends_halt
    · exact .bind (.pure _) (.pure _)

theorem word : (x.word c.offset).Ends (x.Allows start) (placed (Literal.readWord c)) := by
  rw [Literal.readWord]
  cases found : c.name? with
  | none => exact .bind_of_error (h.name_of_none found)
  | some r =>
      apply Reading.Ends.bind (h.name_of_some found).1
      dsimp only
      split
      · exact .pure _
      · split
        · exact .pure _
        · exact Reading.ends_halt

theorem value : (x.value c.offset).Ends (x.Allows start) (placed (Literal.read c)) := by
  apply Reading.Ends.bind h.peek
  cases hrest : c.rest with
  | nil =>
      have absent : c.name? = none := by simp [Cursor.name?, hrest]
      rw [Literal.read, hrest, Literal.readWord, absent]
      exact Reading.ends_halt
  | cons d t =>
      dsimp only [List.head?_cons]
      cases quote : isQuote d with
      | true =>
          rw [if_pos rfl]
          exact h.quoted hrest quote
      | false =>
          obtain ⟨second, behind⟩ := h.step hrest quote
          simp only [Literal.read, hrest, quote, Bool.false_eq_true, if_false]
          cases digit : d.isDigit with
          | true => exact h.numeral hrest quote rfl fun _ => digit
          | false =>
              simp only [Bool.false_eq_true, if_false]
              by_cases minus : d = '-'
              · subst minus
                have follows := second.peek
                rw [behind] at follows
                rw [if_pos rfl]
                apply Reading.Ends.bind follows
                simp only [decide_true, Bool.true_and]
                split
                · exact h.numeral hrest quote rfl fun plus => by cases plus
                · have absent : c.name? = none := by
                    rw [Cursor.name?, hrest]
                    rfl
                  rw [Literal.readWord, absent]
                  exact Reading.ends_halt
              · rw [if_neg minus]
                simpa [minus] using h.word

/-- An option is read in place as it is read from the text before the end, with the blanks on both
sides of it. -/
theorem option : (x.option c.offset).Ends (x.Allows start)
    (placed ((WrittenOption.read c.skipBlanks).map fun r => (r.1, r.2.skipBlanks))) := by
  obtain ⟨toName, atName⟩ := h.skipBlanks
  apply Reading.Ends.bind toName
  rw [WrittenOption.read]
  cases found : c.skipBlanks.name? with
  | none => exact .bind_of_error (atName.name_of_none found)
  | some r =>
      obtain ⟨n, afterName⟩ := r
      obtain ⟨named, pastName⟩ := atName.name_of_some found
      obtain ⟨toSign, atSign⟩ := pastName.skipBlanks
      refine .bind named (.bind toSign (.bind atSign.peek ?_))
      dsimp only
      by_cases sign : afterName.skipBlanks.rest.head? = some '='
      · obtain ⟨t, hrest⟩ := List.head?_eq_some_iff.mp sign
        obtain ⟨pastSign, -⟩ := atSign.step hrest (by decide)
        obtain ⟨toValue, atValue⟩ := pastSign.skipBlanks
        rw [if_pos sign, if_pos sign]
        refine .act pastSign.allows (.bind toValue ?_)
        have valued := atValue.value
        cases hvalue : Literal.read (afterName.skipBlanks.advance 1).skipBlanks with
        | error stop =>
            rw [hvalue] at valued
            exact .bind_of_error valued
        | ok r =>
            rw [hvalue] at valued
            obtain ⟨v, text, passes, ahead⟩ := Literal.passes_of_read hvalue atValue.ahead
            have pastValue := atValue.of_passes passes text.enclosed ahead
            exact .bind valued (.bind pastValue.skipBlanks.1 (.pure _))
      · rw [if_neg sign, if_neg sign]
        exact .bind atSign.skipBlanks.1 (.pure _)

/-- Both readers read the same options, by induction on what lies ahead: after a round of both they
are at the same place in the same state. -/
theorem row : (x.row c.offset).Ends (x.Allows start) (x.ended (WrittenOption.readSome c)) := by
  induction hn : c.rest.length using Nat.strongRecOn generalizing c with
  | ind n ih =>
      have round := h.option
      rw [Extent.row]
      cases hread : WrittenOption.read c.skipBlanks with
      | error stop =>
          rw [hread] at round
          rw [WrittenOption.readSome_of_stop hread]
          exact .andThen_of_error round
      | ok r =>
          obtain ⟨o, behind⟩ := r
          rw [hread] at round
          have atNext := (h.skipBlanks.2.of_read hread).skipBlanks.2
          rw [WrittenOption.readSome_of_read hread rfl]
          apply Reading.Ends.andThen round
          dsimp only
          cases hrest : behind.skipBlanks.rest with
          | nil =>
              rw [atNext.offset_eq hrest, if_neg (Nat.lt_irrefl _)]
              exact .pure _
          | cons d t =>
              have peeked := atNext.peek
              rw [hrest] at peeked
              rw [if_pos (atNext.getElem? hrest).1]
              apply Reading.Ends.bind peeked
              by_cases comma : d = ','
              · subst comma
                obtain ⟨further, hfurther⟩ := atNext.step hrest (by decide)
                have shorter : (behind.skipBlanks.advance 1).rest.length < n := by
                  have pastOption := WrittenOption.length_of_read hread
                  have pastBlanks := c.length_skipBlanks_le
                  have pastBlanks' := behind.length_skipBlanks_le
                  rw [hrest, List.length_cons] at pastBlanks'
                  rw [hfurther]
                  omega
                have others := ih _ shorter further rfl
                rw [if_pos List.head?_cons]
                apply Reading.Ends.act further.allows
                cases hrow : WrittenOption.readSome (behind.skipBlanks.advance 1) with
                | error stop =>
                    rw [hrow] at others
                    exact .bind_of_error others
                | ok options =>
                    rw [hrow] at others
                    exact .bind others (.pure _)
              · rw [if_neg (by simpa using comma)]
                split
                · next none => cases none
                · next same => exact absurd (List.cons.inj same).1 comma
                · exact Reading.ends_halt

theorem read : (x.read c.offset).Ends (x.Allows start) (x.ended (WrittenOption.readAll c)) := by
  obtain ⟨skipped, atStart⟩ := h.skipBlanks
  apply Reading.Ends.bind skipped
  rw [WrittenOption.readAll]
  cases hrest : c.skipBlanks.rest with
  | nil =>
      rw [atStart.offset_eq hrest, if_pos (Nat.le_refl _)]
      exact .pure _
  | cons d t =>
      rw [if_neg (Nat.not_le.mpr (atStart.getElem? hrest).1)]
      exact atStart.row

end Clear

/-! ### From parenthesis to parenthesis -/

/-- At a place behind the start of an option list stands a closing parenthesis outside quotes. -/
def ClosesAt (x : Extent) (start place : Nat) : Prop :=
  start ≤ place ∧ x.text[place]? = some ')' ∧ openQuote (x.slice start place) = none

section Closed

variable {sigilAt openAt : Nat} {inside after : List Char}
  (closes : x.close = openAt + 1 + inside.length)
  (found : splitOptions sigilAt none (openAt + 1) (x.text.drop (openAt + 1)) = .ok (inside, after))
include closes found

/-- At the beginning of an option list whose end was found the states agree. -/
theorem clear_of_splitOptions : x.Clear (openAt + 1) ⟨openAt + 1, inside⟩ := by
  obtain ⟨enclosed, whole⟩ := splitOptions_eq_ok_iff.mp found
  have length := congrArg List.length whole
  rw [List.length_drop, List.length_append, List.length_cons] at length
  have rest : inside = x.slice (openAt + 1) x.close := by
    rw [slice, whole, closes, Nat.add_sub_cancel_left, List.take_left]
  have passed : Enclosed (x.slice (openAt + 1) (openAt + 1)) := by
    rw [slice, Nat.sub_self, List.take_zero]
    exact .nil
  exact ⟨by omega, rest, Nat.le_refl _, closes ▸ Nat.le_add_right _ _, passed, enclosed⟩

/-- The end that was found is the first closing parenthesis outside quotes. -/
theorem isLeast_closesAt : IsLeast {place | x.ClosesAt (openAt + 1) place} x.close := by
  obtain ⟨enclosed, whole⟩ := splitOptions_eq_ok_iff.mp found
  have character (n : Nat) : x.text[openAt + 1 + n]? = (inside ++ ')' :: after)[n]? := by
    rw [← whole, List.getElem?_drop]
  constructor
  · refine ⟨by omega, ?_, ?_⟩
    · rw [closes, character, List.getElem?_append_right (Nat.le_refl _), Nat.sub_self]
      rfl
    · rw [← (clear_of_splitOptions closes found).rest]
      exact enclosed.openQuote_eq
  · rintro place ⟨behind, parenthesis, outside⟩
    by_contra before
    obtain ⟨n, rfl⟩ := Nat.exists_eq_add_of_le behind
    have short : n < inside.length := by omega
    rw [character, List.getElem?_append_left short] at parenthesis
    obtain ⟨_, there⟩ := List.getElem?_eq_some_iff.mp parenthesis
    have split : inside = inside.take n ++ ')' :: inside.drop (n + 1) := by
      rw [← there, ← List.drop_eq_getElem_cons short, List.take_append_drop]
    rw [slice, whole, Nat.add_sub_cancel_left, List.take_append_of_le_length (by omega)] at outside
    exact (split ▸ enclosed).openQuote_ne_none outside

/-- A text that is the same up to the end, the end included, has the same end. -/
theorem splitOptions_of_take_eq {text' : List Char}
    (same : text'.take (x.close + 1) = x.text.take (x.close + 1)) :
    ∃ after', splitOptions sigilAt none (openAt + 1) (text'.drop (openAt + 1)) =
      .ok (inside, after') := by
  obtain ⟨enclosed, whole⟩ := splitOptions_eq_ok_iff.mp found
  have length : openAt + 1 + inside.length + 1 - (openAt + 1) = inside.length + 1 := by omega
  have cut : (text'.drop (openAt + 1)).take (inside.length + 1) = inside ++ [')'] := by
    have both := congrArg (List.drop (openAt + 1)) same
    rw [List.drop_take, List.drop_take, whole, closes, length] at both
    rw [both, List.take_append, List.take_of_length_le (Nat.le_succ _), Nat.add_sub_cancel_left]
    rfl
  have whole' := List.take_append_drop (inside.length + 1) (text'.drop (openAt + 1))
  rw [cut, List.append_assoc] at whole'
  exact ⟨_, splitOptions_eq_ok_iff.mpr ⟨enclosed, whole'.symm⟩⟩

end Closed

/-- Where the end of an option list was found, its options are read in place as they are read from
the text that was cut out. The end is the first closing parenthesis outside quotes; the reader looks
at nothing from there on, stands outside quotes wherever it moves, finds the closing quote of each
value before the end, and stops at the end when all is well. What comes out is the same for every
text that is the same up to the end. -/
theorem reads_between_parentheses (x : Extent) {sigilAt openAt : Nat} {inside after : List Char}
    (closes : x.close = openAt + 1 + inside.length)
    (found : splitOptions sigilAt none (openAt + 1) (x.text.drop (openAt + 1)) =
      .ok (inside, after)) :
    IsLeast {place | x.ClosesAt (openAt + 1) place} x.close ∧
    (∀ a ∈ (x.read (openAt + 1)).acts, x.Allows (openAt + 1) a) ∧
    (x.read (openAt + 1)).outcome = x.ended (WrittenOption.readAll ⟨openAt + 1, inside⟩) ∧
    (x.read (openAt + 1)).outcome ≠ .error .noQuote ∧
    (∀ options last, (x.read (openAt + 1)).outcome = .ok (options, last) → last = x.close) ∧
    ∀ text', text'.take (x.close + 1) = x.text.take (x.close + 1) →
      (∃ after', splitOptions sigilAt none (openAt + 1) (text'.drop (openAt + 1)) =
        .ok (inside, after')) ∧
      (read ⟨text', x.close⟩ (openAt + 1)).outcome = (x.read (openAt + 1)).outcome := by
  obtain ⟨acts, outcome⟩ := (clear_of_splitOptions closes found).read
  refine ⟨isLeast_closesAt closes found, acts, outcome, ?_, ?_, ?_⟩
  · intro lost
    rw [outcome, ended] at lost
    cases hread : WrittenOption.readAll ⟨openAt + 1, inside⟩ with
    | error stop | ok options =>
        rw [hread] at lost
        cases lost
  · intro options last done
    rw [outcome, ended, Outcome.mapError_eq_ok_iff, Outcome.map_eq_ok_iff] at done
    obtain ⟨_, -, same⟩ := done
    exact (Prod.mk.inj same).2.symm
  · intro text' same
    obtain ⟨after', found'⟩ := splitOptions_of_take_eq closes found same
    have clear' := clear_of_splitOptions (x := ⟨text', x.close⟩) closes found'
    exact ⟨⟨after', found'⟩, clear'.read.outcome.trans outcome.symm⟩

/-- A closing parenthesis inside a quoted value, and a quote of the same kind behind the list. -/
theorem reads_between_parentheses_quoted :
    ∃ x : Extent, x.text = "$m(a=\"x)y\",b) \"".toList ∧
      splitOptions 0 none 3 (x.text.drop 3) = .ok ("a=\"x)y\",b".toList, " \"".toList) ∧
      IsLeast {place | x.ClosesAt 3 place} 12 ∧ .quotes 5 9 ∈ (x.read 3).acts ∧
      (∀ a ∈ (x.read 3).acts, x.Allows 3 a) ∧
      (x.read 3).outcome = .ok ([⟨"a", .text "x)y", 3⟩, ⟨"b", .flag true, 11⟩], 12) ∧
      (read ⟨"$m(a=\"x)y\",b)".toList, 12⟩ 3).outcome = (x.read 3).outcome := by
  let x : Extent := ⟨"$m(a=\"x)y\",b) \"".toList, 12⟩
  have found : splitOptions 0 none (2 + 1) (x.text.drop (2 + 1)) =
      .ok ("a=\"x)y\",b".toList, " \"".toList) := by decide +kernel
  have options : WrittenOption.readAll ⟨2 + 1, "a=\"x)y\",b".toList⟩ =
      .ok [⟨"a", .text "x)y", 3⟩, ⟨"b", .flag true, 11⟩] := by decide +kernel
  obtain ⟨least, acts, outcome, -, -, stable⟩ := x.reads_between_parentheses (by decide) found
  rw [options] at outcome
  obtain ⟨-, same⟩ := stable "$m(a=\"x)y\",b)".toList (by decide +kernel)
  exact ⟨x, rfl, found, least, by decide +kernel, acts, outcome, same⟩

end Extent

end LogLayout
