import LogLayout.Proofs.Pattern.OptionBreakage
import LogLayout.Proofs.Pattern.Scanning
import Mathlib.Logic.Equiv.Basic

/-!
# Another sigil

Which character is the sigil does not matter to the scanner. If the sigil and another admissible
character change places throughout a text, the text is scanned with that other character as it was
before: the same tokens and options at the same positions, with the two characters exchanged in
literals and in quoted values, or a stop at the same position.

The characters that have a meaning of their own to the scanner are its marks (`isMark`). A renaming
that keeps to `Renames` leaves them alone and takes one sigil to the other. Every reader commutes
with such a renaming of the text in front of it; there is one lemma for each of them, named after
the reader, and the induction along the scan puts them together in `scanFrom_rename`.
-/

namespace LogLayout

/-- A character that has a meaning to the scanner, whatever the sigil. -/
def isMark (c : Char) : Bool :=
  isNameChar c || isQuote c || Text.isBlank c || ['(', ')', ',', '=', '-'].contains c

/-- A renaming of characters that takes one sigil to another. It keeps the marks, and no other
character becomes one of them or the sigil. -/
structure Renames (σ τ : Char) (f : Char → Char) : Prop where
  fixed : ∀ c, isMark c = true → f c = c
  other : ∀ c, isMark c = false → isMark (f c) = false
  sigil : ∀ c, f c = τ ↔ c = σ

/-! ### Renamed results -/

/-- A value with its characters renamed. -/
def Literal.rename (f : Char → Char) : Literal → Literal
  | text s => .text (s.map f)
  | char c => .char (f c)
  | integer n => .integer n
  | flag b => .flag b

def WrittenOption.rename (f : Char → Char) (o : WrittenOption) : WrittenOption :=
  { o with value := o.value.rename f }

/-- A token with the characters of its values renamed. Names and positions stay. -/
def WrittenToken.rename (f : Char → Char) (t : WrittenToken) : WrittenToken :=
  { t with options := t.options.map (WrittenOption.rename f) }

def Item.rename (f : Char → Char) : Item → Item
  | literal s => .literal (s.map f)
  | token t => .token (t.rename f)

/-- The same place in the renamed text. -/
def Cursor.rename (f : Char → Char) (c : Cursor) : Cursor := ⟨c.offset, c.rest.map f⟩

/-- Two scans stop alike: for reasons of one class at one position, or at numerals of one length. -/
inductive StopsAlike : ScanStop → ScanStop → Prop
  | rejected {r r' : Rejection} (code : r.fault.code = r'.fault.code)
      (position : r.position = r'.position) : StopsAlike (.rejected r) (.rejected r')
  | numeralTooLong (k : Nat) : StopsAlike (.numeralTooLong k) (.numeralTooLong k)

/-- Two scans turn out alike: the second gives what the first gives, renamed, or they stop alike. -/
inductive OutcomesAlike {α : Type} (rename : α → α) : Except ScanStop α → Except ScanStop α → Prop
  | value (a : α) : OutcomesAlike rename (.ok a) (.ok (rename a))
  | stop {stop stop' : ScanStop} (alike : StopsAlike stop stop') :
      OutcomesAlike rename (.error stop) (.error stop')

theorem StopsAlike.refl (stop : ScanStop) : StopsAlike stop stop := by
  cases stop with
  | rejected r => exact .rejected rfl rfl
  | numeralTooLong k => exact .numeralTooLong k

namespace OutcomesAlike

variable {α β : Type} {rename : α → α} {rename' : β → β} {x y : Except ScanStop α}

theorem map {g g' : α → β} (h : OutcomesAlike rename x y)
    (commutes : ∀ a, g' (rename a) = rename' (g a)) :
    OutcomesAlike rename' (x.map g) (y.map g') := by
  cases h with
  | value a =>
      change OutcomesAlike rename' (.ok (g a)) (.ok (g' (rename a)))
      rw [commutes]
      exact .value (g a)
  | stop alike => exact .stop alike

end OutcomesAlike

section Fields

variable (f : Char → Char)

@[simp] theorem Cursor.rename_offset (c : Cursor) : (c.rename f).offset = c.offset := rfl

@[simp] theorem Cursor.rename_rest (c : Cursor) : (c.rename f).rest = c.rest.map f := rfl

@[simp] theorem Cursor.rename_advance (c : Cursor) (n : Nat) :
    (c.rename f).advance n = (c.advance n).rename f := by
  simp [advance, rename, List.map_drop]

theorem map_ofList (cs : List Char) : (String.ofList cs).map f = String.ofList (cs.map f) := by
  rw [← String.toList_inj, String.toList_map, String.toList_ofList, String.toList_ofList]

theorem Literal.ofQuoted_map (cs : List Char) : ofQuoted (cs.map f) = (ofQuoted cs).rename f := by
  by_cases one : cs.length = 1
  · obtain ⟨c, rfl⟩ := List.length_eq_one_iff.mp one
    rfl
  · have many : (cs.map f).length ≠ 1 := by rwa [List.length_map]
    rw [ofQuoted_of_length one, ofQuoted_of_length many, rename, map_ofList]

theorem Item.map_rename_addChar (c : Char) (items : List Item) :
    (addChar c items).map (Item.rename f) = addChar (f c) (items.map (Item.rename f)) := by
  cases items with
  | nil => simp only [addChar, List.map_cons, List.map_nil, rename, map_ofList]
  | cons item items =>
      cases item with
      | literal s => simp only [addChar, List.map_cons, rename, map_ofList, String.toList_map]
      | token t => simp only [addChar, List.map_cons, List.map_nil, rename, map_ofList]

end Fields

/-! ### Marks -/

theorem isMark_of_isNameChar {c : Char} (h : isNameChar c = true) : isMark c = true := by
  simp [isMark, h]

theorem isMark_of_isQuote {c : Char} (h : isQuote c = true) : isMark c = true := by
  simp [isMark, h]

theorem isMark_of_isBlank {c : Char} (h : Text.isBlank c = true) : isMark c = true := by
  simp [isMark, h]

theorem isMark_of_isDigit {c : Char} (h : c.isDigit = true) : isMark c = true :=
  isMark_of_isNameChar (Grammar.isNameChar_of_isDigit h)

theorem isMark_of_isNameStart {c : Char} (h : isNameStart c = true) : isMark c = true :=
  isMark_of_isNameChar (isNameChar_of_isNameStart h)

namespace Renames

variable {σ τ : Char} {f : Char → Char} {p : Char → Bool} {d : Char} {cs : List Char}

/-- A class of marks is kept. -/
theorem class_eq (h : Renames σ τ f) (marks : ∀ {c}, p c = true → isMark c = true) (c : Char) :
    p (f c) = p c := by
  by_cases mark : isMark c = true
  · rw [h.fixed c mark]
  · have noMark := h.other c (Bool.eq_false_iff.mpr mark)
    have before : p c = false := Bool.eq_false_iff.mpr fun hc => mark (marks hc)
    have after : p (f c) = false := Bool.eq_false_iff.mpr fun hc => by simp [marks hc] at noMark
    rw [before, after]

/-- A mark is found where it was. -/
theorem eq_mark_iff (h : Renames σ τ f) (mark : isMark d = true) (c : Char) : f c = d ↔ c = d := by
  have same := h.class_eq (p := (· == d)) (fun hc => beq_iff_eq.mp hc ▸ mark) c
  rw [← beq_iff_eq, same, beq_iff_eq]

theorem takeWhile_map (h : ∀ c, p (f c) = p c) (cs : List Char) :
    (cs.map f).takeWhile p = (cs.takeWhile p).map f := by
  rw [List.takeWhile_map]
  congr 1
  exact congrArg (List.takeWhile · cs) (funext h)

theorem map_eq_self (h : Renames σ τ f) (marks : ∀ c ∈ cs, isMark c = true) : cs.map f = cs :=
  (List.map_congr_left fun c hc => h.fixed c (marks c hc)).trans (List.map_id cs)

/-- A run of a class of marks is kept. -/
theorem run_eq (h : Renames σ τ f) (marks : ∀ {c}, p c = true → isMark c = true)
    (cs : List Char) : (cs.map f).takeWhile p = cs.takeWhile p := by
  rw [takeWhile_map (h.class_eq marks)]
  exact h.map_eq_self fun c hc => marks (List.mem_takeWhile_imp hc)

theorem head?_any (h : Renames σ τ f) (marks : ∀ {c}, p c = true → isMark c = true)
    (cs : List Char) : (cs.map f).head?.any p = cs.head?.any p := by
  cases cs with
  | nil => rfl
  | cons c cs => exact h.class_eq marks c

theorem head?_eq_mark_iff (h : Renames σ τ f) (mark : isMark d = true) (cs : List Char) :
    (cs.map f).head? = some d ↔ cs.head? = some d := by
  cases cs with
  | nil => simp
  | cons c cs => simpa using h.eq_mark_iff mark c

end Renames

section Readers

variable {σ τ : Char} {f : Char → Char}

/-! ### Names and values -/

theorem Cursor.skipBlanks_rename (h : Renames σ τ f) (c : Cursor) :
    (c.rename f).skipBlanks = c.skipBlanks.rename f := by
  simp [skipBlanks, h.run_eq isMark_of_isBlank]

theorem Cursor.name?_rename (h : Renames σ τ f) (c : Cursor) :
    (c.rename f).name? = c.name?.map fun r => (r.1, r.2.rename f) := by
  simp only [name?, rename_rest, h.run_eq isMark_of_isNameChar, h.head?_any isMark_of_isNameStart,
    rename_advance]
  split <;> rfl

theorem Literal.readNumeral_rename (h : Renames σ τ f) (valueAt : Nat) (negative : Bool)
    (c : Cursor) :
    readNumeral valueAt negative (c.rename f) =
      (readNumeral valueAt negative c).map fun r => (r.1.rename f, r.2.rename f) := by
  simp only [readNumeral, Cursor.rename_rest, h.run_eq isMark_of_isDigit, Cursor.rename_advance,
    h.head?_any isMark_of_isNameChar]
  split
  · rfl
  · split <;> rfl

theorem Literal.readWord_rename (h : Renames σ τ f) (c : Cursor) :
    readWord (c.rename f) = (readWord c).map fun r => (r.1.rename f, r.2.rename f) := by
  rw [readWord, readWord, c.name?_rename h]
  cases c.name? with
  | none => rfl
  | some r =>
      simp only [Option.map_some]
      split
      · rfl
      · split <;> rfl

theorem Literal.read_rename (h : Renames σ τ f) (c : Cursor) :
    read (c.rename f) = (read c).map fun r => (r.1.rename f, r.2.rename f) := by
  obtain ⟨offset, rest⟩ := c
  cases rest with
  | nil => exact readWord_rename h ⟨offset, []⟩
  | cons first after =>
      have quoteKept : isQuote (f first) = isQuote first := h.class_eq isMark_of_isQuote first
      have digitKept : (f first).isDigit = first.isDigit := h.class_eq isMark_of_isDigit first
      have minusKept : f first = '-' ↔ first = '-' := h.eq_mark_iff (by decide) first
      have digitBehind : (after.map f).head?.any Char.isDigit = after.head?.any Char.isDigit :=
        h.head?_any isMark_of_isDigit after
      have whole : Cursor.rename f ⟨offset, first :: after⟩ = ⟨offset, f first :: after.map f⟩ := rfl
      rw [read, read, whole]
      simp only [quoteKept, digitKept, minusKept, digitBehind]
      rw [← whole]
      split
      · next quote =>
          have kept : f first = first := h.fixed first (isMark_of_isQuote quote)
          have content : (after.map f).takeWhile (· ≠ f first) =
              (after.takeWhile (· ≠ first)).map f := by
            rw [kept]
            refine Renames.takeWhile_map (fun d => ?_) after
            simp only [ne_eq, h.eq_mark_iff (isMark_of_isQuote quote)]
          rw [content, ofQuoted_map, List.length_map, Cursor.rename_advance]
          rfl
      · split
        · exact readNumeral_rename h offset false ⟨offset, first :: after⟩
        · split
          · rw [Cursor.rename_advance]
            exact readNumeral_rename h offset true _
          · exact readWord_rename h ⟨offset, first :: after⟩

/-! ### Option lists -/

namespace WrittenOption

theorem read_rename (h : Renames σ τ f) (c : Cursor) :
    read (c.rename f) = (read c).map fun r => (r.1.rename f, r.2.rename f) := by
  rw [read, read, c.name?_rename h]
  cases c.name? with
  | none => rfl
  | some r =>
      obtain ⟨name, afterName⟩ := r
      have sign : (afterName.skipBlanks.rest.map f).head? = some '=' ↔
          afterName.skipBlanks.rest.head? = some '=' := h.head?_eq_mark_iff (by decide) _
      simp only [Option.map_some, Cursor.skipBlanks_rename h, Cursor.rename_rest, sign,
        Cursor.rename_advance, Literal.read_rename h]
      split
      · cases Literal.read (afterName.skipBlanks.advance 1).skipBlanks <;> rfl
      · rfl

theorem readSome_rename (h : Renames σ τ f) (c : Cursor) :
    readSome (c.rename f) = (readSome c).map (List.map (rename f)) := by
  have first (c : Cursor) : read (c.rename f).skipBlanks =
      (read c.skipBlanks).map fun r => (r.1.rename f, r.2.rename f) := by
    rw [Cursor.skipBlanks_rename h, read_rename h]
  have round {c behind : Cursor} {option : WrittenOption}
      (hread : read c.skipBlanks = .ok (option, behind)) :=
    readSome_of_read ((first c).trans (congrArg _ hread)) (Cursor.skipBlanks_rename h behind)
  fun_induction readSome c with
  | case1 c stop hread => exact readSome_of_stop ((first c).trans (congrArg _ hread))
  | case2 c option behind hread next atEnd =>
      rw [round hread, Cursor.rename_rest, atEnd]
      rfl
  | case3 c option behind hread next more comma ih =>
      have kept : f ',' = ',' := h.fixed ',' (by decide)
      rw [round hread, Cursor.rename_rest, comma, List.map_cons, kept]
      dsimp only
      rw [Cursor.rename_advance, ih]
      cases readSome (next.advance 1) <;> rfl
  | case4 c option behind hread next noEnd noComma =>
      rw [round hread, Cursor.rename_rest]
      split
      · next atEnd => exact absurd (List.map_eq_nil_iff.mp atEnd) noEnd
      · next more comma =>
          have isComma := (h.head?_eq_mark_iff (d := ',') (by decide) _).mp (by rw [comma]; rfl)
          obtain ⟨tail, given⟩ := List.head?_eq_some_iff.mp isComma
          exact absurd given (noComma tail)
      · rfl

theorem readAll_rename (h : Renames σ τ f) (c : Cursor) :
    readAll (c.rename f) = (readAll c).map (List.map (rename f)) := by
  rw [readAll, readAll, Cursor.skipBlanks_rename h, readSome_rename h]
  simp only [Cursor.rename_rest, List.isEmpty_map]
  split <;> rfl

end WrittenOption

/-! ### Tokens and scans -/

theorem opening?_rename (h : Renames σ τ f) (c : Char) (position : Nat) :
    opening? (f c) position = opening? c position := by
  rw [opening?, opening?, h.class_eq isMark_of_isQuote c]
  split
  · next quote => rw [h.fixed c (isMark_of_isQuote quote)]
  · rfl

/-- The end of an option list is found where it was. What stands open is a quote throughout. -/
theorem splitOptions_rename (h : Renames σ τ f) (sigilAt : Nat) {open? : Option (Char × Nat)}
    (quoted : ∀ q ∈ open?, isQuote q.1 = true) (offset : Nat) (t : List Char) :
    splitOptions sigilAt open? offset (t.map f) =
      (splitOptions sigilAt open? offset t).map fun r => (r.1.map f, r.2.map f) := by
  induction t generalizing open? offset with
  | nil =>
      cases open? with
      | none => rfl
      | some q => rfl
  | cons c t ih =>
      cases open? with
      | some q =>
          obtain ⟨quote, quoteAt⟩ := q
          have isQuote := quoted _ rfl
          have closes : f c = quote ↔ c = quote := h.eq_mark_iff (isMark_of_isQuote isQuote) c
          have still : ∀ q ∈ (if c = quote then none else some (quote, quoteAt)),
              LogLayout.isQuote q.1 = true := by
            split
            · simp
            · exact quoted
          rw [List.map_cons, splitOptions, splitOptions]
          simp only [closes, ih still]
          cases splitOptions sigilAt _ (offset + 1) t <;> rfl
      | none =>
          have closes : f c = ')' ↔ c = ')' := h.eq_mark_iff (by decide) c
          have opened : ∀ q ∈ opening? c offset, isQuote q.1 = true := by
            intro q hq
            unfold opening? at hq
            split at hq
            · next quote => exact Option.some.inj hq ▸ quote
            · cases hq
          rw [List.map_cons, splitOptions, splitOptions]
          simp only [closes, opening?_rename h, ih opened]
          split
          · rfl
          · cases splitOptions sigilAt (opening? c offset) (offset + 1) t <;> rfl

/-- Reading a token turns out alike. A missing name is the one reason to stop that knows the sigil,
and it is of one class whatever the sigil. -/
theorem WrittenToken.read_rename (h : Renames σ τ f) (c : Cursor) :
    OutcomesAlike (fun r => (r.1.rename f, r.2.rename f)) (read [σ] c) (read [τ] (c.rename f)) := by
  rw [read, read, Cursor.rename_advance, Cursor.name?_rename h]
  cases (c.advance 1).name? with
  | none => exact .stop (.rejected rfl rfl)
  | some r =>
      obtain ⟨name, next⟩ := r
      dsimp only [Option.map_some]
      rw [Cursor.rename_rest]
      split
      · next list hlist =>
          have kept : f '(' = '(' := h.fixed '(' (by decide)
          rw [hlist, List.map_cons, kept]
          have noQuote : ∀ q ∈ (none : Option (Char × Nat)), isQuote q.1 = true := by simp
          simp only [Cursor.rename_offset, splitOptions_rename h c.offset noQuote]
          cases splitOptions c.offset none (next.offset + 1) list with
          | error rejection => exact .stop (.refl _)
          | ok result =>
              obtain ⟨inside, after⟩ := result
              have options := WrittenOption.readAll_rename h ⟨next.offset + 1, inside⟩
              simp only [Except.map, Cursor.rename] at options ⊢
              rw [options]
              cases WrittenOption.readAll ⟨next.offset + 1, inside⟩ with
              | error stop => exact .stop (.refl _)
              | ok options =>
                  rw [List.length_map]
                  exact .value ((⟨name, c.offset, options⟩, _) : WrittenToken × Cursor)
      · next noList =>
          have noList' (list : List Char) : next.rest.map f ≠ '(' :: list := by
            intro given
            have opens := (h.head?_eq_mark_iff (d := '(') (by decide) _).mp (by rw [given]; rfl)
            obtain ⟨tail, given⟩ := List.head?_eq_some_iff.mp opens
            exact noList tail given
          split
          · next list hlist => exact absurd hlist (noList' list)
          · exact .value ((⟨name, c.offset, []⟩, next) : WrittenToken × Cursor)

/-- What is scanned from a place on, with the sigil renamed along with the text. The induction is
along the scan. -/
theorem scanFrom_rename (h : Renames σ τ f) (offset : Nat) (t : List Char) :
    OutcomesAlike (List.map (Item.rename f)) (scanFrom [σ] ⟨offset, t⟩)
      (scanFrom [τ] ⟨offset, t.map f⟩) := by
  have sigil : f σ = τ := (h.sigil σ).mpr rfl
  induction offset, t using scan_induction (σ := σ) with
  | nil offset =>
      rw [List.map_nil, scanFrom_nil, scanFrom_nil]
      exact .value []
  | @plain offset c t other ih =>
      have other' : f c ≠ τ := fun same => other ((h.sigil c).mp same)
      rw [List.map_cons, scanFrom_plain other, scanFrom_plain other']
      exact ih.map fun items => (Item.map_rename_addChar f c items).symm
  | @doubled offset t ih =>
      rw [List.map_cons, List.map_cons, sigil, scanFrom_doubled, scanFrom_doubled]
      refine ih.map fun items => ?_
      rw [Item.map_rename_addChar, sigil]
  | @token offset t single ih =>
      have single' : (t.map f).head? ≠ some τ := by
        cases t with
        | nil => simp
        | cons c t => simpa [h.sigil c] using single
      have read := WrittenToken.read_rename h ⟨offset, σ :: t⟩
      rw [Cursor.rename, List.map_cons, sigil] at read
      rw [List.map_cons, sigil, scanFrom_token single, scanFrom_token single']
      generalize hread : WrittenToken.read [σ] ⟨offset, σ :: t⟩ = found at read
      generalize WrittenToken.read [τ] ⟨offset, τ :: t.map f⟩ = found' at read
      cases read with
      | value r =>
          obtain ⟨tok, next⟩ := r
          exact (ih hread).map fun items => rfl
      | stop alike => exact .stop alike

end Readers

/-- To exchange two admissible sigils is a renaming that takes one to the other, unless one of them
is a blank or a minus sign. -/
theorem renames_swap {s u : Char} (admissible : isSigil s = true) (admissible' : isSigil u = true)
    (plain : Text.isBlank s = false ∧ s ≠ '-') (plain' : Text.isBlank u = false ∧ u ≠ '-') :
    Renames s u (Equiv.swap s u) := by
  have noMark {c : Char} (admissible : isSigil c = true)
      (plain : Text.isBlank c = false ∧ c ≠ '-') : isMark c = false := by
    simp only [isSigil, Bool.and_eq_true, Bool.not_eq_true', List.contains_eq_mem,
      decide_eq_false_iff_not] at admissible
    obtain ⟨⟨noName, noQuote⟩, noPart⟩ := admissible
    simp only [isMark, noName, noQuote, plain.1, Bool.false_or, List.contains_eq_mem,
      decide_eq_false_iff_not]
    simp only [List.mem_cons, List.not_mem_nil, or_false, not_or] at noPart ⊢
    exact ⟨noPart.1, noPart.2.1, noPart.2.2.1, noPart.2.2.2.1, plain.2⟩
  have s_noMark := noMark admissible plain
  have u_noMark := noMark admissible' plain'
  refine ⟨fun c mark => ?_, fun c mark => ?_, fun c => ?_⟩
  · refine Equiv.swap_apply_of_ne_of_ne ?_ ?_
    · rintro rfl
      simp [mark] at s_noMark
    · rintro rfl
      simp [mark] at u_noMark
  · by_cases first : c = s
    · rwa [first, Equiv.swap_apply_left]
    · by_cases second : c = u
      · rwa [second, Equiv.swap_apply_right]
      · rwa [Equiv.swap_apply_of_ne_of_ne first second]
  · rw [Equiv.swap_apply_eq_iff, Equiv.swap_apply_right]

/-- The choice of the sigil does not matter to the scanner: with two sigils exchanged throughout a
text, the text is scanned with the one as it was with the other. -/
theorem scan_swap {s u : Char} (admissible : isSigil s = true) (admissible' : isSigil u = true)
    (plain : Text.isBlank s = false ∧ s ≠ '-') (plain' : Text.isBlank u = false ∧ u ≠ '-')
    (text : String) :
    OutcomesAlike (List.map (Item.rename (Equiv.swap s u))) (scan (String.singleton s) text)
      (scan (String.singleton u) (text.map (Equiv.swap s u))) := by
  have sigil (c : Char) : (String.singleton c).toList = [c] := by simp
  rw [scan, scan, sigil, sigil, String.toList_map]
  exact scanFrom_rename (renames_swap admissible admissible' plain plain') 0 text.toList

/-- The other sigil in a literal and between quotes. -/
theorem scan_swap_dollar_percent :
    isSigil '$' = true ∧ isSigil '%' = true ∧
      (Text.isBlank '$' = false ∧ '$' ≠ '-') ∧ (Text.isBlank '%' = false ∧ '%' ≠ '-') ∧
      OutcomesAlike (List.map (Item.rename (Equiv.swap '$' '%')))
        (scan (String.singleton '$') "5% $a(b='%$')")
        (scan (String.singleton '%') ("5% $a(b='%$')".map (Equiv.swap '$' '%'))) := by
  have dollar : isSigil '$' = true := by decide
  have percent : isSigil '%' = true := by decide
  exact ⟨dollar, percent, by decide, by decide, scan_swap dollar percent (by decide) (by decide) _⟩

end LogLayout
