import LogLayout.Proofs.Pattern.Breakage
import LogLayout.Proofs.Pattern.Precedence
import LogLayout.Proofs.Traversal

/-!
# Reports tell the truth

A report on a rejected text names a class of faults, a wording and a position. `HasDefect` says,
about the characters of a text alone, what it is for a text to have a given fault at a given
position: what lies before the position follows the grammar, and what stands there is at fault.
`compile_report_is_true` says that every report is on such a defect, within the text.

Positions in the semantic faults come from the scan. That a scanned token, and each of its options,
stands at the position noted for it is proved along the rounds of the readers.
-/

namespace LogLayout

namespace Grammar

variable {σ : Char}

/-- In a text an option begins at a place. It is part of the option list of a token with the given
name, behind the given options of that list. -/
inductive OptionBegins (σ : Char) (text : List Char) :
    Nat → String → List (String × Literal) → String × Literal → Prop
  | intro {place : Nat} {n d s b r : List Char} {earlier : List (String × Literal)}
      {o : String × Literal} (begins : TokenBegins σ 0 text place (n ++ '(' :: (d ++ (s ++ (b ++ r)))))
      (name : Name n) (due : NameDue d earlier) (option : OptionText readable s o)
      (blanks : Blanks b) (ends : r.head? = some ',' ∨ r.head? = some ')') :
      OptionBegins σ text (place + n.length + 2 + d.length) (String.ofList n) earlier o

/-- A text has a fault at a position: a token is malformed there, or its sigil stands there and the
token is at fault as a whole, or an option begins there that is at fault. -/
inductive HasDefect (σ : Char) (text : List Char) : Fault → Nat → Prop
  | malformed {fault : Fault} {position : Nat}
      (breaks : Breaks σ 0 text (.rejected ⟨fault, position⟩)) : HasDefect σ text fault position
  | unknownKind {place : Nat} {t r : List Char} {name : String} {os : List (String × Literal)}
      (begins : TokenBegins σ 0 text place t) (token : TokenText readable t name os r)
      (unknown : ∀ k : Kind, ¬ k.Named name) : HasDefect σ text (.unknownKind name) place
  | missingValue {place : Nat} {t r : List Char} {name : String} {os : List (String × Literal)}
      (begins : TokenBegins σ 0 text place t) (token : TokenText readable t name os r)
      (named : Kind.text.Named name) (absent : ∀ o ∈ os, o.1 ≠ "value") :
      HasDefect σ text (.missingOption "value" .text) place
  | duplicate {place : Nat} {name : String} {k : Kind} {earlier : List (String × Literal)}
      {o : String × Literal} (begins : OptionBegins σ text place name earlier o)
      (named : k.Named name) (again : o.1 ∈ earlier.map Prod.fst) :
      HasDefect σ text (.duplicateOption o.1 k) place
  | unknownOption {place : Nat} {name : String} {k : Kind} {earlier : List (String × Literal)}
      {o : String × Literal} (begins : OptionBegins σ text place name earlier o)
      (named : k.Named name) (unknown : o.1 ∉ k.optionNames) :
      HasDefect σ text (.unknownOption o.1 k) place
  | refused {place : Nat} {name : String} {k : Kind} {rule : Rule}
      {earlier : List (String × Literal)} {o : String × Literal}
      (begins : OptionBegins σ text place name earlier o) (named : k.Named name)
      (known : (o.1, rule) ∈ k.rules) (refused : ¬ rule.Admits o.2.toDatum) :
      HasDefect σ text (.invalidOption o.1 k (rule.reason o.2.toDatum)) place

/-! ### Positions lie within the text -/

theorem TokenBegins.length_eq {offset place : Nat} {text t : List Char}
    (h : TokenBegins σ offset text place t) : offset + text.length = place + 1 + t.length := by
  cases h with
  | intro =>
      simp only [List.length_append, List.length_cons]
      omega

theorem NoValue.position_eq {place : Nat} {t : List Char} {r : Rejection}
    (h : NoValue place t (.rejected r)) : r.position = place := by
  cases h <;> rfl

theorem OptionsBreak.position_eq {place : Nat} {d r : List Char} {rejection : Rejection}
    (h : OptionsBreak place d r (.rejected rejection)) : rejection.position = place := by
  cases h with
  | name => rfl
  | value _ _ none => exact none.position_eq
  | separator => rfl

theorem TokenBreak.position_le {place : Nat} {t : List Char} {r : Rejection}
    (h : TokenBreak σ place t (.rejected r)) : r.position ≤ place + t.length := by
  cases h with
  | name => exact Nat.le_add_right _ _
  | unclosed _ unclosed =>
      cases unclosed with
      | parenthesis => exact Nat.le_add_right _ _
      | quote =>
          simp only [List.length_append, List.length_cons]
          omega
  | options _ _ breaks =>
      rw [breaks.position_eq]
      simp only [List.length_append, List.length_cons]
      omega

theorem HasDefect.position_lt {text : List Char} {fault : Fault} {position : Nat}
    (h : HasDefect σ text fault position) : position < text.length := by
  have sigil {place : Nat} {t : List Char} (begins : TokenBegins σ 0 text place t) :
      place < text.length := by
    have length := begins.length_eq
    omega
  have option {place : Nat} {name : String} {earlier : List (String × Literal)}
      {o : String × Literal} (begins : OptionBegins σ text place name earlier o) :
      place < text.length := by
    cases begins with
    | intro begins _ _ _ _ ends =>
        have length := begins.length_eq
        have some : ∀ {r : List Char}, r.head? = some ',' ∨ r.head? = some ')' → 0 < r.length := by
          rintro (_ | _) (h | h) <;> simp_all
        have := some ends
        simp only [List.length_append, List.length_cons] at length
        omega
  cases h with
  | malformed breaks =>
      obtain ⟨begins, breaks⟩ := breaks
      have length := begins.length_eq
      have le := breaks.position_le
      simp only at le
      omega
  | unknownKind begins => exact sigil begins
  | missingValue begins => exact sigil begins
  | duplicate begins => exact option begins
  | unknownOption begins => exact option begins
  | refused begins => exact option begins

end Grammar

open Grammar

/-! ### Scanned options stand where they say -/

namespace WrittenOption

/-- Each option of a row that was read, of which some options were read before, stands at its
position. The induction is on the rounds; what lies before an option grows by one round. -/
theorem place_of_readSome {start c : Cursor} {p : List Char} {os : List (String × Literal)}
    {options earlier later : List WrittenOption} {o : WrittenOption} (begun : Begun p os)
    (passes : start.Passes p c) (enclosed : Enclosed c.rest) (h : readSome c = .ok options)
    (given : options = earlier ++ o :: later) :
    ∃ d s b next, start.Passes (d ++ (s ++ b)) next ∧ NameDue d (os ++ earlier.map entry) ∧
      OptionText readable s o.entry ∧ Blanks b ∧ Ends next.rest ∧
      o.position = start.offset + d.length := by
  fun_induction readSome c generalizing p os options earlier with
  | case1 => cases h
  | case2 c option behind hread atEnd =>
      rename_i hend
      obtain rfl := Except.ok.inj h
      obtain ⟨rfl, rfl, rfl⟩ : earlier = [] ∧ o = option ∧ later = [] := by
        cases earlier <;> simp_all
      obtain ⟨b, s, b', before, text, after, round, -, position⟩ := passes_round hread enclosed
      refine ⟨p ++ b, s, b', _, ?_, ?_, text, after, .inl hend, ?_⟩
      · simpa using passes.trans round
      · simpa using NameDue.intro begun before
      · rw [position, passes.offset, List.length_append]
        omega
  | case3 c option behind hread atComma t hcomma =>
      rename_i ih
      obtain ⟨more, hmore, rfl⟩ := Outcome.map_eq_ok_iff.mp h
      obtain ⟨b, s, b', before, text, after, round, rest, position⟩ := passes_round hread enclosed
      cases earlier with
      | nil =>
          obtain ⟨rfl, -⟩ := List.cons.inj given
          refine ⟨p ++ b, s, b', _, ?_, ?_, text, after, .inr (by rw [hcomma]; rfl), ?_⟩
          · simpa using passes.trans round
          · simpa using NameDue.intro begun before
          · rw [position, passes.offset, List.length_append]
            omega
      | cons first earlier =>
          obtain ⟨rfl, rfl⟩ := List.cons.inj given
          have comma : atComma.Passes [','] (atComma.advance 1) := .cons hcomma (.refl _)
          have toNext := passes.trans (round.trans comma)
          simp only [List.append_assoc] at toNext
          have found := ih (.snoc begun before text after) toNext
            (enclosed_past_comma hcomma rest) hmore rfl
          simpa using found
  | case4 => cases h

theorem place_of_readAll {c : Cursor} {options earlier later : List WrittenOption}
    {o : WrittenOption} (enclosed : Enclosed c.rest) (h : readAll c = .ok options)
    (given : options = earlier ++ o :: later) :
    ∃ d s b next, c.Passes (d ++ (s ++ b)) next ∧ NameDue d (earlier.map entry) ∧
      OptionText readable s o.entry ∧ Blanks b ∧ Ends next.rest ∧
      o.position = c.offset + d.length := by
  rw [readAll, readSome_skipBlanks] at h
  split at h
  · obtain rfl := Except.ok.inj h
    simp at given
  · exact place_of_readSome .nil (.refl c) enclosed h given

end WrittenOption

namespace WrittenToken

variable {σ : Char} {place : Nat} {t text : List Char} {next : Cursor} {tok : WrittenToken}

theorem position_of_read (h : read [σ] ⟨place, σ :: t⟩ = .ok (tok, next)) :
    tok.position = place := by
  cases readAs_of_read h <;> rfl

/-- Each option of a token that was read begins at its position. -/
theorem optionBegins_of_read (begins : TokenBegins σ 0 text place t)
    (h : read [σ] ⟨place, σ :: t⟩ = .ok (tok, next)) {earlier later : List WrittenOption}
    {o : WrittenOption} (given : tok.options = earlier ++ o :: later) :
    OptionBegins σ text o.position tok.name (earlier.map WrittenOption.entry) o.entry := by
  cases readAs_of_read h with
  | bare => simp at given
  | @listed n l r options name enclosed list =>
      obtain ⟨d, s, b, next, past, due, option, blanks, ends, position⟩ :=
        WrittenOption.place_of_readAll enclosed list given
      obtain rfl : l = d ++ (s ++ b) ++ next.rest := past.rest
      have ends : (next.rest ++ ')' :: r).head? = some ',' ∨
          (next.rest ++ ')' :: r).head? = some ')' := by
        rcases ends with none | comma
        · exact .inr (by rw [none]; rfl)
        · exact .inl (by rw [List.head?_append, comma]; rfl)
      simp only [List.append_assoc] at begins
      rw [position]
      exact .intro begins name due option blanks ends

end WrittenToken

/-- A token among items with a character put before them is a token among the items. -/
theorem Item.addChar_eq_append_token {c : Char} {items before after : List Item}
    {tok : WrittenToken} (h : addChar c items = before ++ .token tok :: after) :
    ∃ before', items = before' ++ .token tok :: after ∧ before = addChar c before' := by
  cases before with
  | nil =>
      cases items with
      | nil => simp [addChar] at h
      | cons item items => cases item <;> simp [addChar] at h
  | cons first before =>
      cases items with
      | nil => simp [addChar] at h
      | cons item items =>
          cases item with
          | literal s =>
              obtain ⟨rfl, rfl⟩ := List.cons.inj h
              exact ⟨.literal s :: before, rfl, rfl⟩
          | token t =>
              obtain ⟨rfl, rest⟩ := List.cons.inj h
              refine ⟨before, rest, ?_⟩
              cases before with
              | nil => rfl
              | cons second before =>
                  obtain ⟨rfl, -⟩ := List.cons.inj rest
                  rfl

/-- Each scanned token was read behind a text of the grammar that spells the items before it. The
induction is along the scan: what a step takes is put before the text in front of the token. -/
theorem cut_of_scanFrom {σ : Char} {offset : Nat} {t : List Char} {items before after : List Item}
    {tok : WrittenToken} (h : scanFrom [σ] ⟨offset, t⟩ = .ok items)
    (given : items = before ++ .token tok :: after) :
    ∃ pre u next, t = pre ++ σ :: u ∧ Derives readable σ pre (before.map Item.piece) ∧
      u.head? ≠ some σ ∧ WrittenToken.read [σ] ⟨offset + pre.length, σ :: u⟩ = .ok (tok, next) := by
  induction offset, t using scan_induction (σ := σ) generalizing items before with
  | nil offset =>
      rw [scanFrom_nil] at h
      obtain rfl := Except.ok.inj h
      simp at given
  | @plain offset c t other ih =>
      rw [scanFrom_plain other] at h
      obtain ⟨items, hitems, rfl⟩ := Outcome.map_eq_ok_iff.mp h
      obtain ⟨before, rfl, rfl⟩ := Item.addChar_eq_append_token given
      obtain ⟨pre, u, next, rfl, derives, single, hread⟩ := ih hitems rfl
      rw [Item.map_piece_addChar]
      refine ⟨c :: pre, u, next, rfl, .plain other derives, single, ?_⟩
      have same : offset + (c :: pre).length = offset + 1 + pre.length := by
        simp only [List.length_cons]
        omega
      rwa [same]
  | @doubled offset t ih =>
      rw [scanFrom_doubled] at h
      obtain ⟨items, hitems, rfl⟩ := Outcome.map_eq_ok_iff.mp h
      obtain ⟨before, rfl, rfl⟩ := Item.addChar_eq_append_token given
      obtain ⟨pre, u, next, rfl, derives, single, hread⟩ := ih hitems rfl
      rw [Item.map_piece_addChar]
      refine ⟨σ :: σ :: pre, u, next, rfl, .doubled derives, single, ?_⟩
      have same : offset + (σ :: σ :: pre).length = offset + 2 + pre.length := by
        simp only [List.length_cons]
        omega
      rwa [same]
  | @token offset t single ih =>
      rw [scanFrom_token single] at h
      split at h
      · cases h
      · next first behind hfirst =>
          obtain ⟨items, hitems, rfl⟩ := Outcome.map_eq_ok_iff.mp h
          cases before with
          | nil =>
              obtain ⟨same, -⟩ := List.cons.inj given
              obtain rfl := Item.token.inj same
              exact ⟨[], t, behind, rfl, .nil, single, hfirst⟩
          | cons item before =>
              obtain ⟨rfl, rfl⟩ := List.cons.inj given
              obtain ⟨pre, u, next, rest, derives, single', hread⟩ := ih hfirst hitems rfl
              have text := WrittenToken.text_of_read hfirst
              obtain ⟨w, rfl, place⟩ := WrittenToken.taken_of_read hfirst
              rw [rest] at text ⊢
              obtain ⟨v, hv, derives⟩ := text.derives_cut (rest ▸ single) derives
              have taken : v = w ++ pre := by
                rw [← List.append_assoc] at hv
                exact (List.append_cancel_right hv).symm
              subst taken
              refine ⟨σ :: (w ++ pre), u, next, by simp, derives, single', ?_⟩
              have same : offset + (σ :: (w ++ pre)).length = behind.offset + pre.length := by
                simp only [place, List.length_cons, List.length_append]
                omega
              rw [same]
              exact hread

/-- Each scanned token was read at a place where a token begins. -/
theorem begins_of_scanFrom {σ : Char} {offset : Nat} {t : List Char} {items : List Item}
    {tok : WrittenToken} (h : scanFrom [σ] ⟨offset, t⟩ = .ok items) (mem : .token tok ∈ items) :
    ∃ place u next, TokenBegins σ offset t place u ∧
      WrittenToken.read [σ] ⟨place, σ :: u⟩ = .ok (tok, next) := by
  obtain ⟨before, after, given⟩ := List.append_of_mem mem
  obtain ⟨pre, u, next, rfl, derives, single, hread⟩ := cut_of_scanFrom h given
  exact ⟨_, u, next, .intro derives single, hread⟩

/-- A fault of a token that was read is a defect of the text. -/
theorem hasDefect_of_faulty {σ : Char} {place : Nat} {t text : List Char} {next : Cursor}
    {tok : WrittenToken} {fault : Fault} {position : Nat} (begins : TokenBegins σ 0 text place t)
    (h : WrittenToken.read [σ] ⟨place, σ :: t⟩ = .ok (tok, next))
    (faulty : tok.Faulty fault position) : HasDefect σ text fault position := by
  have token : TokenText readable t tok.name (tok.options.map WrittenOption.entry) next.rest :=
    WrittenToken.text_of_read h
  have atSigil : tok.position = place := WrittenToken.position_of_read h
  cases faulty with
  | unknownKind unknown => exact atSigil ▸ .unknownKind begins token unknown
  | missingValue named absent =>
      refine atSigil ▸ .missingValue begins token named ?_
      intro o mem
      obtain ⟨w, hw, rfl⟩ := List.mem_map.mp mem
      exact absent w hw
  | duplicate named given again =>
      refine .duplicate (WrittenToken.optionBegins_of_read begins h given) named ?_
      rw [List.map_map]
      exact again
  | unknownOption named mem unknown =>
      obtain ⟨earlier, later, given⟩ := List.append_of_mem mem
      exact .unknownOption (WrittenToken.optionBegins_of_read begins h given) named unknown
  | refused named mem known refused =>
      obtain ⟨earlier, later, given⟩ := List.append_of_mem mem
      exact .refused (WrittenToken.optionBegins_of_read begins h given) named known refused

namespace Pattern

variable {σ : Char} {text : String}

/-- Every report on a text is true: it repeats the text, its position lies within it, and the text
has the fault that the report words and classifies at that position. -/
theorem compile_report_is_true (admissible : isSigil σ = true) {e : ParseError}
    (h : compile (String.singleton σ) text = .error (.rejected e)) :
    e.pattern = text ∧ e.position < text.length ∧
      ∃ fault : Fault, e.code = fault.code ∧ e.message = fault.message ∧
        HasDefect σ text.toList fault e.position := by
  have accepted := isSigilText_singleton admissible
  obtain ⟨r, rfl, found⟩ := (compile_eq_rejected_iff accepted).mp h
  have defect : HasDefect σ text.toList r.fault r.position := by
    rcases found with stopped | ⟨items, scanned, unresolved⟩
    · exact .malformed ((scan_eq_error_iff admissible).mp stopped)
    · obtain ⟨i, mem, hi⟩ := Outcome.exists_mem_of_traverse_eq_error unresolved
      cases i with
      | literal s => cases hi
      | token tok =>
          have sigil : (String.singleton σ).toList = [σ] := by simp
          rw [scan, sigil] at scanned
          obtain ⟨place, u, next, begins, hread⟩ := begins_of_scanFrom scanned mem
          have faulty := WrittenToken.faulty_of_resolve (Outcome.map_eq_error_iff.mp hi)
          exact hasDefect_of_faulty begins hread faulty
  have within : r.position < text.length := String.length_toList ▸ defect.position_lt
  exact ⟨rfl, within, r.fault, rfl, rfl, defect⟩

/-- A quote that stands open is reported on where it stands. -/
theorem compile_report_open_quote :
    isSigil '$' = true ∧
      ∃ e : ParseError, e = ⟨.unterminatedQuote, "unterminated quoted value", 6, "a$b(c='"⟩ ∧
        compile (String.singleton '$') "a$b(c='" = .error (.rejected e) ∧
        e.pattern = "a$b(c='" ∧ e.position < "a$b(c='".length ∧
        ∃ fault : Fault, e.code = fault.code ∧ e.message = fault.message ∧
          HasDefect '$' "a$b(c='".toList fault e.position := by
  have admissible : isSigil '$' = true := by decide
  have unclosed : Unclosed 1 4 ("c=".toList ++ '\'' :: []) ⟨.missingQuote, 6⟩ :=
    .quote (Inert.enclosed (by decide)) (by decide) (by simp)
  have begins : TokenBegins '$' 0 (['a'] ++ '$' :: "b(c='".toList) 1 "b(c='".toList :=
    .intro (.plain (by decide) .nil) (by decide)
  have breaks : Breaks '$' 0 "a$b(c='".toList (.rejected ⟨.missingQuote, 6⟩) :=
    ⟨begins, .unclosed (n := ['b']) (by decide) unclosed⟩
  have reported := (compile_eq_rejected_iff (isSigilText_singleton admissible)).mpr
    ⟨_, rfl, .inl ((scan_eq_error_iff admissible).mpr breaks)⟩
  exact ⟨admissible, _, rfl, reported, compile_report_is_true admissible reported⟩

end Pattern

end LogLayout
