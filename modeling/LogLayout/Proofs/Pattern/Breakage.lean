import LogLayout.Proofs.Pattern.Concatenation
import LogLayout.Proofs.Pattern.OptionBreakage

/-!
# Where scans break off

A scan stops at the first token that does not follow the grammar. Before its sigil lies a text of
the grammar, and behind the sigil no name begins, or an option list that has no end, or one that
breaks off. `scan_eq_error_iff` says that a scan stops exactly at such a place, for that reason and
with that position.

A text therefore is compiled, or reported on, or has a numeral that is too long to be read where a
value is due; only that last case leaves `compile` without an answer, and
`compile_eq_numeralTooLong_iff` says which texts these are.
-/

namespace LogLayout

namespace Grammar

variable {σ : Char}

/-- Behind a sigil that stands at a place no token of the grammar begins. -/
inductive TokenBreak (σ : Char) (place : Nat) : List Char → ScanStop → Prop
  | name {t : List Char} (noName : Stops isNameStart t) :
      TokenBreak σ place t (.rejected ⟨.missingTokenName (String.singleton σ), place⟩)
  | unclosed {n l : List Char} {r : Rejection} (name : Name n)
      (unclosed : Unclosed place (place + n.length + 2) l r) :
      TokenBreak σ place (n ++ '(' :: l) (.rejected r)
  | options {n d b r : List Char} {stop : ScanStop} (name : Name n) (enclosed : Enclosed (d ++ b))
      (breaks : OptionsBreak (place + n.length + 2 + d.length) d b stop) :
      TokenBreak σ place (n ++ '(' :: (d ++ b ++ ')' :: r)) stop

/-- In a text that stands at some offset a sigil begins a token: a text of the grammar lies before
it, and it is not doubled. The indices are the text, the place of the sigil and what is behind it.
-/
inductive TokenBegins (σ : Char) (offset : Nat) : List Char → Nat → List Char → Prop
  | intro {before t : List Char} {pieces : List Piece} (derives : Derives readable σ before pieces)
      (single : t.head? ≠ some σ) :
      TokenBegins σ offset (before ++ σ :: t) (offset + before.length) t

/-- A text that stands at some offset breaks off: it begins a token that is none. -/
inductive Breaks (σ : Char) (offset : Nat) (text : List Char) (stop : ScanStop) : Prop
  | intro {place : Nat} {t : List Char} (begins : TokenBegins σ offset text place t)
      (breaks : TokenBreak σ place t stop)

/-! ### Places of tokens -/

section Begins

variable {offset place : Nat} {c : Char} {t u : List Char}

theorem TokenBegins.plain (h : TokenBegins σ (offset + 1) t place u) (other : c ≠ σ) :
    TokenBegins σ offset (c :: t) place u := by
  cases h with
  | @intro before _ _ derives single =>
      have same : offset + 1 + before.length = offset + (c :: before).length := by
        simp only [List.length_cons]
        omega
      rw [same]
      exact .intro (.plain other derives) single

theorem TokenBegins.doubled (h : TokenBegins σ (offset + 2) t place u) :
    TokenBegins σ offset (σ :: σ :: t) place u := by
  cases h with
  | @intro before _ _ derives single =>
      have same : offset + 2 + before.length = offset + (σ :: σ :: before).length := by
        simp only [List.length_cons]
        omega
      rw [same]
      exact .intro (.doubled derives) single

/-- Behind a token of the grammar a further token begins where it begins in what is left. -/
theorem TokenBegins.behind {w r : List Char} {name : String} {os : List (String × Literal)}
    (h : TokenBegins σ (offset + 1 + w.length) r place u) (single : (w ++ r).head? ≠ some σ)
    (token : TokenText readable (w ++ r) name os r) :
    TokenBegins σ offset (σ :: (w ++ r)) place u := by
  cases h with
  | @intro before _ _ derives single' =>
      obtain ⟨v, hv, derives'⟩ := token.derives_cut single derives
      have taken : v = w ++ before := by
        rw [← List.append_assoc] at hv
        exact (List.append_cancel_right hv).symm
      subst taken
      have same : offset + 1 + w.length + before.length = offset + (σ :: (w ++ before)).length := by
        simp only [List.length_cons, List.length_append]
        omega
      rw [same, ← List.append_assoc]
      exact .intro derives' single'

end Begins

end Grammar

open Grammar

variable {σ : Char}

/-! ### Tokens -/

namespace WrittenToken

variable {place : Nat} {t : List Char}

theorem break_of_read {stop : ScanStop} (h : read [σ] ⟨place, σ :: t⟩ = .error stop) :
    TokenBreak σ place t stop := by
  have behind : (Cursor.mk place (σ :: t)).advance 1 = ⟨place + 1, t⟩ := rfl
  rw [read, behind] at h
  split at h
  · next noName =>
      obtain rfl := Except.error.inj h
      exact .name (Cursor.name?_eq_none_iff.mp noName)
  · next name afterName hname =>
      obtain ⟨n, isName, rfl, passes, -⟩ := Cursor.passes_of_name? hname
      have ahead : t = n ++ afterName.rest := passes.rest
      have offset : afterName.offset + 1 = place + n.length + 2 := by
        simp only [passes.offset]
        omega
      split at h
      · next list hlist =>
          rw [offset] at h
          rw [ahead, hlist]
          split at h
          · next hsplit =>
              obtain rfl := Except.error.inj h
              exact .unclosed isName (splitOptions_eq_error_iff.mp hsplit)
          · next inside after hsplit =>
              obtain ⟨enclosed, rfl⟩ := splitOptions_eq_ok_iff.mp hsplit
              split at h
              · next hoptions =>
                  obtain rfl := Except.error.inj h
                  obtain ⟨d, next, toPlace, breaks⟩ :=
                    (WrittenOption.readAll_eq_error_iff enclosed).mp hoptions
                  obtain rfl : inside = d ++ next.rest := toPlace.rest
                  rw [toPlace.offset] at breaks
                  exact .options isName enclosed breaks
              · cases h
      · cases h

theorem read_of_break {stop : ScanStop} (h : TokenBreak σ place t stop) :
    read [σ] ⟨place, σ :: t⟩ = .error stop := by
  have named {n l : List Char} (name : Name n) :
      ((Cursor.mk place (σ :: (n ++ '(' :: l))).advance 1).name? =
        some (String.ofList n, ⟨place + 1 + n.length, '(' :: l⟩) :=
    Cursor.name?_of_passes ⟨rfl, rfl⟩ name (stops_cons (by decide))
  have offset (n : List Char) : place + 1 + n.length + 1 = place + n.length + 2 := by omega
  cases h with
  | name noName =>
      have none : ((Cursor.mk place (σ :: t)).advance 1).name? = none :=
        Cursor.name?_eq_none_iff.mpr noName
      rw [read, none]
      rfl
  | unclosed name unclosed =>
      simp only [read, named name, offset, splitOptions_of_unclosed unclosed]
  | @options n d b r _ name enclosed breaks =>
      have stops : WrittenOption.readAll ⟨place + n.length + 2, d ++ b⟩ = .error stop :=
        (WrittenOption.readAll_eq_error_iff enclosed).mpr ⟨d, ⟨_, b⟩, ⟨rfl, rfl⟩, breaks⟩
      simp only [read, named name, offset, splitOptions_of_enclosed enclosed, stops]

/-- Reading a token stops exactly where no token of the grammar begins. -/
theorem read_eq_error_iff {stop : ScanStop} :
    read [σ] ⟨place, σ :: t⟩ = .error stop ↔ TokenBreak σ place t stop :=
  ⟨break_of_read, read_of_break⟩

/-- What a token took of a text lies directly in front of what is left. -/
theorem taken_of_read {sigil : List Char} {next : Cursor} {tok : WrittenToken}
    (h : read sigil ⟨place, σ :: t⟩ = .ok (tok, next)) :
    ∃ w, t = w ++ next.rest ∧ next.offset = place + 1 + w.length := by
  cases readAs_of_read h with
  | @bare n r => exact ⟨n, rfl, rfl⟩
  | @listed n l r =>
      refine ⟨n ++ '(' :: (l ++ [')']), by simp, ?_⟩
      simp only [List.length_append, List.length_cons, List.length_nil]
      omega

end WrittenToken

/-! ### Scans -/

/-- A scan stops only where the text breaks off. What a step takes is put before the text of the
grammar that lies before the place. -/
theorem breaks_of_scanFrom {offset : Nat} {t : List Char} {stop : ScanStop}
    (h : scanFrom [σ] ⟨offset, t⟩ = .error stop) : Breaks σ offset t stop := by
  induction offset, t using scan_induction (σ := σ) with
  | nil offset =>
      rw [scanFrom_nil] at h
      cases h
  | @plain offset c t other ih =>
      rw [scanFrom_plain other] at h
      obtain ⟨begins, breaks⟩ := ih (Outcome.map_eq_error_iff.mp h)
      exact ⟨begins.plain other, breaks⟩
  | @doubled offset t ih =>
      rw [scanFrom_doubled] at h
      obtain ⟨begins, breaks⟩ := ih (Outcome.map_eq_error_iff.mp h)
      exact ⟨begins.doubled, breaks⟩
  | @token offset t single ih =>
      rw [scanFrom_token single] at h
      split at h
      · next hread =>
          obtain rfl := Except.error.inj h
          exact ⟨.intro .nil single, WrittenToken.read_eq_error_iff.mp hread⟩
      · next tok next hread =>
          obtain ⟨begins, breaks⟩ := ih hread (Outcome.map_eq_error_iff.mp h)
          have text := WrittenToken.text_of_read hread
          obtain ⟨w, rfl, place⟩ := WrittenToken.taken_of_read hread
          exact ⟨(place ▸ begins).behind single text, breaks⟩

/-- A sigil does not go on with a token without parentheses. -/
theorem extendsToken_of_isSigil (h : isSigil σ = true) : extendsToken σ = false := by
  simp only [isSigil, Bool.and_eq_true, Bool.not_eq_true'] at h
  have noParenthesis : σ ≠ '(' := by
    rintro rfl
    exact absurd h.2 (by decide)
  simp [extendsToken, h.1.1, noParenthesis]

theorem Item.addChar_append_token (c : Char) (items after : List Item) (tok : WrittenToken) :
    addChar c (items ++ .token tok :: after) = addChar c items ++ .token tok :: after := by
  cases items with
  | nil => rfl
  | cons item items => cases item <;> rfl

/-- A character does not join what is scanned from the sigil of a token on. -/
theorem Item.map_addChar_append {c : Char} {items : List Item} {offset : Nat} {t : List Char}
    (single : t.head? ≠ some σ) :
    ((scanFrom [σ] ⟨offset, σ :: t⟩).map (items ++ ·)).map (addChar c) =
      (scanFrom [σ] ⟨offset, σ :: t⟩).map (addChar c items ++ ·) := by
  rw [scanFrom_token single]
  cases WrittenToken.read [σ] ⟨offset, σ :: t⟩ with
  | error stop => rfl
  | ok result =>
      dsimp only
      cases scanFrom [σ] result.2 with
      | error stop => rfl
      | ok after => simp [Except.map, addChar_append_token]

/-- A scan gets past every text of the grammar that ends in front of the sigil of a token, and goes
on with that token. -/
theorem scanFrom_append (admissible : isSigil σ = true) (offset : Nat) {before t : List Char}
    {pieces : List Piece} (derives : Derives readable σ before pieces)
    (single : t.head? ≠ some σ) :
    ∃ items, items.map Item.piece = pieces ∧
      scanFrom [σ] ⟨offset, before ++ σ :: t⟩ =
        (scanFrom [σ] ⟨offset + before.length, σ :: t⟩).map (items ++ ·) := by
  induction derives generalizing offset with
  | nil =>
      refine ⟨[], rfl, ?_⟩
      cases h : scanFrom [σ] ⟨offset, σ :: t⟩ <;> simp [h, Except.map]
  | @doubled before _ _ ih =>
      obtain ⟨items, rfl, goesOn⟩ := ih (offset + 2)
      have same : offset + (σ :: σ :: before).length = offset + 2 + before.length := by
        simp only [List.length_cons]
        omega
      refine ⟨Item.addChar σ items, Item.map_piece_addChar σ items, ?_⟩
      rw [List.cons_append, List.cons_append, scanFrom_doubled, goesOn, same,
        Item.map_addChar_append single]
  | @plain c before _ other _ ih =>
      obtain ⟨items, rfl, goesOn⟩ := ih (offset + 1)
      have same : offset + (c :: before).length = offset + 1 + before.length := by
        simp only [List.length_cons]
        omega
      refine ⟨Item.addChar c items, Item.map_piece_addChar c items, ?_⟩
      rw [List.cons_append, scanFrom_plain other, goesOn, same, Item.map_addChar_append single]
  | @token u r name os pieces single' text _ ih =>
      obtain ⟨w, nonempty, rfl, stops, again⟩ := text.exists_taken
      obtain ⟨c, w, rfl⟩ := List.exists_cons_of_ne_nil nonempty
      have unextended : Name (c :: w) → Stops extendsToken (r ++ σ :: t) := by
        intro isName
        cases r with
        | nil => exact stops_cons (extendsToken_of_isSigil admissible)
        | cons d r => exact stops isName
      obtain ⟨options, next, hread, rfl, hnext⟩ :=
        WrittenToken.read_of_text [σ] σ offset (again (r ++ σ :: t) unextended)
      obtain ⟨v, hv, place⟩ := WrittenToken.taken_of_read hread
      obtain rfl : v = c :: w := by
        rw [hnext] at hv
        exact (List.append_cancel_right hv).symm
      have same : offset + (σ :: (c :: w ++ r)).length = next.offset + r.length := by
        simp only [place, List.length_cons, List.length_append]
        omega
      obtain ⟨items, rfl, goesOn⟩ := ih next.offset
      have behind : next = ⟨next.offset, r ++ σ :: t⟩ := by rw [← hnext]
      have single : (c :: w ++ (r ++ σ :: t)).head? ≠ some σ := single'
      refine ⟨.token ⟨name, offset, options⟩ :: items, rfl, ?_⟩
      rw [List.cons_append, List.append_assoc, scanFrom_token single, hread, same]
      dsimp only
      rw [behind, goesOn]
      cases scanFrom [σ] ⟨next.offset + r.length, σ :: t⟩ <;> rfl

/-- A text of the grammar, a token behind it, and then anything: this spells the pieces of the text,
the token, and what is spelled behind the token. -/
theorem derives_append_token_iff (admissible : isSigil σ = true) {before t r : List Char}
    {pieces all : List Piece} {name : String} {os : List (String × Literal)}
    (derives : Derives readable σ before pieces) (single : t.head? ≠ some σ)
    (text : TokenText readable t name os r) :
    Derives readable σ (before ++ σ :: t) all ↔
      ∃ rest, all = pieces ++ .token name os :: rest ∧ Derives readable σ r rest := by
  obtain ⟨items, rfl, goesOn⟩ := scanFrom_append admissible 0 derives single
  obtain ⟨options, next, hread, rfl, rfl⟩ :=
    WrittenToken.read_of_text [σ] σ (0 + before.length) text
  rw [scanFrom_token single, hread] at goesOn
  dsimp only at goesOn
  constructor
  · intro h
    obtain ⟨found, hfound, rfl⟩ := scanFrom_of_derives h 0
    obtain ⟨behind, hbehind, rfl⟩ := Outcome.map_eq_ok_iff.mp (goesOn.symm.trans hfound)
    obtain ⟨after, hafter, rfl⟩ := Outcome.map_eq_ok_iff.mp hbehind
    exact ⟨after.map Item.piece, by simp [Item.piece], derives_of_scanFrom hafter⟩
  · rintro ⟨rest, rfl, h⟩
    obtain ⟨after, hafter, rfl⟩ := scanFrom_of_derives h next.offset
    rw [hafter] at goesOn
    simpa [Item.piece] using derives_of_scanFrom goesOn

/-- A scan stops at a token that is none, whatever text of the grammar lies before it. -/
theorem scanFrom_of_break (admissible : isSigil σ = true) {offset : Nat} {before t : List Char}
    {pieces : List Piece} {stop : ScanStop} (derives : Derives readable σ before pieces)
    (single : t.head? ≠ some σ) (breaks : TokenBreak σ (offset + before.length) t stop) :
    scanFrom [σ] ⟨offset, before ++ σ :: t⟩ = .error stop := by
  obtain ⟨items, -, goesOn⟩ := scanFrom_append admissible offset derives single
  rw [goesOn, scanFrom_token single, WrittenToken.read_eq_error_iff.mpr breaks]
  rfl

/-- A scan with an admissible sigil stops exactly where the text breaks off. -/
theorem scan_eq_error_iff (admissible : isSigil σ = true) {text : String} {stop : ScanStop} :
    scan (String.singleton σ) text = .error stop ↔ Breaks σ 0 text.toList stop := by
  have sigil : (String.singleton σ).toList = [σ] := by simp
  rw [scan, sigil]
  constructor
  · exact breaks_of_scanFrom
  · rintro ⟨begins, breaks⟩
    generalize ht : text.toList = whole at begins
    cases begins with
    | intro derives single => exact scanFrom_of_break admissible derives single breaks

namespace Pattern

variable {text : String}

/-- A report is on a fault at which the scan stopped, or on the first fault among the meanings of
what was scanned. -/
theorem compile_eq_rejected_iff {sigil : String} (accepted : isSigilText sigil = true)
    {e : ParseError} :
    compile sigil text = .error (.rejected e) ↔
      ∃ r, r.report text = e ∧ (scan sigil text = .error (.rejected r) ∨
        ∃ items, scan sigil text = .ok items ∧ ofItems items = .error r) := by
  rw [compile, if_pos accepted, compileWith]
  cases scan sigil text with
  | error stop => cases stop <;> simp [and_comm]
  | ok items => cases resolved : ofItems items <;> simp [resolved, and_comm]

/-- A text is left without an answer exactly when it breaks off at a numeral that is too long. -/
theorem compile_eq_numeralTooLong_iff (admissible : isSigil σ = true) {k : Nat} :
    compile (String.singleton σ) text = .error (.numeralTooLong k) ↔
      Breaks σ 0 text.toList (.numeralTooLong k) := by
  rw [← scan_eq_error_iff admissible, compile, if_pos (isSigilText_singleton admissible),
    compileWith]
  cases scan (String.singleton σ) text with
  | error stop => cases stop <;> simp
  | ok items => cases resolved : ofItems items <;> simp [resolved]

/-- With an admissible sigil the answer on a text is a pattern or a report, unless the text breaks
off at a numeral that is too long to be read. -/
theorem compile_answers_iff (admissible : isSigil σ = true) :
    ((∃ p, compile (String.singleton σ) text = .ok p) ∨
        ∃ report, compile (String.singleton σ) text = .error (.rejected report)) ↔
      ∀ k, ¬ Breaks σ 0 text.toList (.numeralTooLong k) := by
  simp only [← compile_eq_numeralTooLong_iff admissible]
  have noBadSigil : ∀ s, compile (String.singleton σ) text ≠ .error (.badSigil s) := by
    intro s
    rw [compile, if_pos (isSigilText_singleton admissible), compileWith]
    cases scan (String.singleton σ) text with
    | error stop => cases stop <;> simp
    | ok items => cases resolved : ofItems items <;> simp [resolved]
  constructor
  · rintro (⟨p, hp⟩ | ⟨report, hr⟩) k
    · simp [hp]
    · simp [hr]
  · intro answered
    cases h : compile (String.singleton σ) text with
    | ok p => exact .inl ⟨p, rfl⟩
    | error e =>
        cases e with
        | badSigil s => exact absurd h (noBadSigil s)
        | numeralTooLong k => exact absurd h (answered k)
        | rejected report => exact .inr ⟨report, rfl⟩

/-- A sigil alone is reported on, so it does not break off at a numeral. -/
theorem compile_answers_sigil_alone :
    isSigil '$' = true ∧
      ((∃ p, compile (String.singleton '$') "$" = .ok p) ∨
        ∃ report, compile (String.singleton '$') "$" = .error (.rejected report)) ∧
      ∀ k, ¬ Breaks '$' 0 "$".toList (.numeralTooLong k) := by
  have admissible : isSigil '$' = true := by decide
  have breaks : Breaks '$' 0 "$".toList (.rejected ⟨.missingTokenName (String.singleton '$'), 0⟩) :=
    ⟨.intro .nil (by simp), .name (stops_nil _)⟩
  have reported := (compile_eq_rejected_iff (isSigilText_singleton admissible)).mpr
    ⟨_, rfl, .inl ((scan_eq_error_iff admissible).mpr breaks)⟩
  exact ⟨admissible, .inr ⟨_, reported⟩, (compile_answers_iff admissible).mp (.inr ⟨_, reported⟩)⟩

/-- A width of one digit more than can be read leaves a text without an answer. -/
theorem compile_unanswered :
    isSigil '$' = true ∧
      compile (String.singleton '$') (String.ofList ("$level(width=".toList ++
        (List.replicate (Numeral.digitLimit + 1) '1' ++ [')']))) =
          .error (.numeralTooLong (Numeral.digitLimit + 1)) := by
  have admissible : isSigil '$' = true := by decide
  refine ⟨admissible, ?_⟩
  have count : (List.replicate (Numeral.digitLimit + 1) '1').length = Numeral.digitLimit + 1 :=
    List.length_replicate
  have digits : Digits (List.replicate (Numeral.digitLimit + 1) '1') :=
    ⟨by simp, fun d hd => List.eq_of_mem_replicate hd ▸ by decide⟩
  have long : ¬ readable (List.replicate (Numeral.digitLimit + 1) '1').length := by
    simp [readable]
  generalize List.replicate (Numeral.digitLimit + 1) '1' = ds at digits long count
  have inert : Inert "width=".toList := by decide
  have due : ValueDue "width=".toList :=
    .intro (n := "width".toList) (.intro .nil .nil) (by decide) .nil .nil
  have breaks : OptionsBreak 13 "width=".toList ds (.numeralTooLong ds.length) := by
    refine .value due ?_ ?_
    · obtain ⟨d, ds, rfl⟩ := List.exists_cons_of_ne_nil digits.ne_nil
      have digit := digits.isDigit d List.mem_cons_self
      exact stops_cons (isBlank_of_isNameChar (isNameChar_of_isDigit digit))
    · have none : NoValue 13 ([] ++ (ds ++ [])) _ := .long (.inl rfl) digits long (stops_nil _)
      rwa [List.nil_append, List.append_nil] at none
  have token : TokenBreak '$' 0 ("level".toList ++ '(' :: ("width=".toList ++ ds ++ [')'])) _ :=
    .options (by decide) (inert.enclosed_append digits.inert.enclosed) breaks
  have begins : TokenBegins '$' 0 ([] ++ '$' :: _) 0
      ("level".toList ++ '(' :: ("width=".toList ++ ds ++ [')'])) :=
    .intro .nil (by simp)
  have text : (String.ofList ("$level(width=".toList ++ (ds ++ [')']))).toList =
      '$' :: ("level".toList ++ '(' :: ("width=".toList ++ ds ++ [')'])) := by
    simp
  rw [← count, compile_eq_numeralTooLong_iff admissible, text]
  exact ⟨begins, token⟩

end Pattern

end LogLayout
