import LogLayout.Proofs.Numeral
import LogLayout.Proofs.Runs
import LogLayout.Json.Lexeme
import LogLayout.Json.Writer

/-!
# The lexemes of written JSON

What is written for a JSON value is read as the lexemes of the value. The statement for a part of a
text is `ReadsAs`: the part is read the same way whatever follows it, unless what follows could go
on with a number. Such parts can be put one after the other.
-/

namespace LogLayout.Json

open Lexeme (readAll)

/-- A character that can go on with a number. -/
def continuesNumber (c : Char) : Bool := c.isDigit || c == '.' || c == 'e' || c == 'E'

/-- A text is read as a row of lexemes, whatever follows it but the rest of a number. -/
def ReadsAs (d : Dialect) (cs : List Char) (lexemes : List Lexeme) : Prop :=
  ∀ rest, Stops continuesNumber rest →
    readAll d (cs ++ rest) = (readAll d rest).map (lexemes ++ ·)

/-! ### Texts -/

theorem readText_plain {c : Char} {rest : List Char} (noQuote : c ≠ '"') (noEscape : c ≠ '\\')
    (noControl : ¬ c.toNat < 32) :
    readText (c :: rest) = (readText rest).map fun (cs, after) => (c :: cs, after) := by
  rw [readText]
  · simp [noEscape, noControl]
  · exact noQuote
  all_goals
    intros
    exact noEscape ‹_›

theorem readText_control {n : Nat} (h : n < 32) (rest : List Char) :
    readText ('\\' :: 'u' :: (Numeral.hex 4 n ++ rest)) =
      (readText rest).map fun (cs, after) => (Char.ofNat n :: cs, after) := by
  have unit : ∀ n, n < 32 →
      unit? (Numeral.hexDigit (n / 16 / 16 / 16)) (Numeral.hexDigit (n / 16 / 16))
        (Numeral.hexDigit (n / 16)) (Numeral.hexDigit n) = some n := by
    decide
  have high : isHighSurrogate n = false := by simp [isHighSurrogate]; omega
  have low : isLowSurrogate n = false := by simp [isLowSurrogate]; omega
  simp [Numeral.hex, readText, unit n h, high, low]

/-- Reading undoes the escape of a character. -/
theorem readText_escape (c : Char) (rest : List Char) :
    readText (escape c ++ rest) = (readText rest).map fun (cs, after) => (c :: cs, after) := by
  rw [escape]
  split
  · next h =>
      simp only [Bool.or_eq_true, decide_eq_true_eq] at h
      rcases h with rfl | rfl <;> simp [readText, simpleEscape?]
  repeat
    split
    · next h => simp [h, readText, simpleEscape?]
  split
  · next control =>
      have := readText_control control rest
      rw [Char.ofNat_toNat] at this
      exact this
  · next special _ _ _ _ _ noControl =>
      simp only [Bool.or_eq_true, decide_eq_true_eq, not_or] at special
      exact readText_plain special.1 special.2 noControl

theorem readText_flatMap_escape (cs rest : List Char) :
    readText (cs.flatMap escape ++ '"' :: rest) = some (cs, rest) := by
  induction cs with
  | nil => simp [readText]
  | cons c cs ih => simp [readText_escape, ih]

/-! ### Numbers -/

/-- The digits of a number are a whole part: they begin with a zero only if that is all. -/
theorem readWhole_digits (n : Nat) {rest : List Char} (stops : Stops Char.isDigit rest) :
    readWhole (Numeral.digits n ++ rest) = some (Numeral.digits n, rest) := by
  by_cases zero : n = 0
  · subst zero
    have digits : Numeral.digits 0 = ['0'] := by simp [Numeral.digits, Numeral.digit]
    simp [digits, readWhole]
  · obtain ⟨d, ds, hd⟩ := List.exists_cons_of_ne_nil (Numeral.digits_ne_nil n)
    have nonzero := Numeral.head?_digits_ne_zero zero
    have digits : ∀ c ∈ d :: ds, c.isDigit = true :=
      fun c hc => Numeral.isDigit_of_mem_digits (hd ▸ hc)
    rw [hd] at nonzero ⊢
    unfold readWhole
    split
    · next heq =>
        obtain rfl := (List.cons.inj heq).1
        exact absurd rfl nonzero
    · rw [takeWhile_append_of_stops digits stops, dropWhile_append_of_stops digits stops]
      rfl

theorem stops_isDigit {rest : List Char} (h : Stops continuesNumber rest) :
    Stops Char.isDigit rest :=
  h.of_imp fun digit => by simp [continuesNumber, digit]

/-- An integer is read up to its last digit. -/
theorem readNumber_digits (d : Dialect) (negative : Bool) (n : Nat) {rest : List Char}
    (stops : Stops continuesNumber rest) :
    readNumber d negative (Numeral.digits n ++ rest) =
      (ofInteger d negative (Numeral.digits n)).map fun j => (j, rest) := by
  have fraction : readFraction rest = some ([], rest) := by
    unfold readFraction
    split
    · exact absurd (stops _ rfl) (by decide)
    · rfl
  have exponent : readExponent rest = some (none, rest) := by
    unfold readExponent
    split
    · next e _ =>
        have no := stops e rfl
        simp only [continuesNumber, Bool.or_eq_false_iff, beq_eq_false_iff_ne] at no
        simp [no]
    · rfl
  have whole := readWhole_digits n (stops_isDigit stops)
  cases h : ofInteger d negative (Numeral.digits n) <;>
    simp [readNumber, whole, fraction, exponent, h]

/-- The integers that a document keeps as integers. -/
def Fits64 (n : Int) : Prop := -(Nat.pow 2 63 : Int) ≤ n ∧ n < Nat.pow 2 64

theorem ofInteger_digits {n : Int} (h : Fits64 n) :
    ofInteger .strict (decide (n < 0)) (Numeral.digits n.natAbs) = some (.int n) := by
  have value : (if n < 0 then -(n.natAbs : Int) else n.natAbs) = n := by
    split <;> omega
  simp only [ofInteger, Dialect.strict, Numeral.ofDigits_digits, decide_eq_true_eq, value, h.1,
    h.2, Bool.false_eq_true, if_false, decide_true, Bool.and_self, if_true]

/-! ### Lexemes -/

theorem isSpace_of_isDigit {c : Char} (h : c.isDigit = true) : isSpace c = false := by
  rw [Bool.eq_false_iff]
  intro hs
  simp only [isSpace, Bool.or_eq_true, beq_iff_eq] at hs
  rcases hs with ((rfl | rfl) | rfl) | rfl <;> revert h <;> decide

namespace Lexeme

variable {d : Dialect}

/-- A lexeme in front of a text that begins with no space. -/
theorem readAll_of_read {cs rest : List Char} {lexeme : Lexeme} (noSpace : Stops isSpace cs)
    (h : read d cs = some (lexeme, rest)) :
    readAll d cs = (readAll d rest).map (lexeme :: ·) := by
  cases cs with
  | nil => cases h
  | cons c more =>
      have skip : (c :: more).dropWhile isSpace = c :: more :=
        List.dropWhile_cons_of_neg (by simp [noSpace c rfl])
      rw [readAll]
      split
      · next heq => simp [skip] at heq
      · next heq =>
          obtain ⟨rfl, rfl⟩ := List.cons.inj (skip.symm.trans heq)
          split
          · next hread => simp [h] at hread
          · next hread =>
              obtain ⟨rfl, rfl⟩ := Prod.mk.inj (Option.some.inj (h.symm.trans hread))
              rfl

theorem read_digits {n : Nat} {rest : List Char} (stops : Stops continuesNumber rest) :
    read d (Numeral.digits n ++ rest) =
      (ofInteger d false (Numeral.digits n)).map fun j => (scalar j, rest) := by
  obtain ⟨c, cs, hd, digit⟩ := Numeral.exists_digits_eq_cons n
  have number := readNumber_digits d false n stops
  rw [hd, List.cons_append] at number
  rw [hd, List.cons_append, read, if_pos digit, number, Option.map_map]
  · rfl
  all_goals
    rintro rfl
    exact absurd digit (by decide)

theorem read_minus_digits {n : Nat} {rest : List Char} (stops : Stops continuesNumber rest) :
    read d ('-' :: (Numeral.digits n ++ rest)) =
      (ofInteger d true (Numeral.digits n)).map fun j => (scalar j, rest) := by
  obtain ⟨c, cs, hd, digit⟩ := Numeral.exists_digits_eq_cons n
  have number := readNumber_digits d true n stops
  rw [hd, List.cons_append] at number
  simp [hd, read, digit, number, Function.comp_def]

end Lexeme

/-! ### Parts of a text -/

namespace ReadsAs

variable {d : Dialect}

theorem nil : ReadsAs d [] [] := by
  intro rest _
  simp

theorem append {cs cs' : List Char} {ls ls' : List Lexeme} (h : ReadsAs d cs ls)
    (h' : ReadsAs d cs' ls') (mark : Stops continuesNumber cs') :
    ReadsAs d (cs ++ cs') (ls ++ ls') := by
  intro rest stops
  rw [List.append_assoc, h _ (mark.append stops), h' _ stops, Option.map_map]
  simp [Function.comp_def]

/-- A mark is read the same way whatever follows it. -/
theorem cons {c : Char} {cs : List Char} {lexeme : Lexeme} {ls : List Lexeme}
    (noSpace : isSpace c = false) (read : ∀ rest, Lexeme.read d (c :: rest) = some (lexeme, rest))
    (h : ReadsAs d cs ls) : ReadsAs d (c :: cs) (lexeme :: ls) := by
  intro rest stops
  rw [List.cons_append, Lexeme.readAll_of_read (stops_cons noSpace) (read _), h rest stops,
    Option.map_map]
  rfl

/-- A text that is one lexeme. -/
theorem single {c : Char} {cs : List Char} {lexeme : Lexeme} (noSpace : isSpace c = false)
    (read : ∀ rest, Stops continuesNumber rest →
      Lexeme.read d (c :: (cs ++ rest)) = some (lexeme, rest)) :
    ReadsAs d (c :: cs) [lexeme] := by
  intro rest stops
  exact Lexeme.readAll_of_read (stops_cons noSpace) (read rest stops)

theorem writeText (s : String) : ReadsAs d (writeText s) [.text s] := by
  refine single (by decide) fun rest _ => ?_
  simp [Lexeme.read, readText_flatMap_escape]

theorem null : ReadsAs d "null".toList [.scalar .null] := by
  change ReadsAs d ('n' :: ['u', 'l', 'l']) _
  refine single (by decide) fun rest _ => ?_
  simp [Lexeme.read, readWord, words, afterWord?, String.length]

theorem bool (b : Bool) : ReadsAs d (if b then "true" else "false").toList [.scalar (.bool b)] := by
  cases b with
  | true =>
      change ReadsAs d ('t' :: ['r', 'u', 'e']) _
      refine single (by decide) fun rest _ => ?_
      simp [Lexeme.read, readWord, words, afterWord?, String.length]
  | false =>
      change ReadsAs d ('f' :: ['a', 'l', 's', 'e']) _
      refine single (by decide) fun rest _ => ?_
      simp [Lexeme.read, readWord, words, afterWord?, String.length]

theorem signed {n : Int} (h : Fits64 n) :
    ReadsAs .strict (Numeral.signed n) [.scalar (.int n)] := by
  have digits := ofInteger_digits h
  unfold Numeral.signed
  split
  · next negative =>
      refine single (by decide) fun rest stops => ?_
      simp only [negative, decide_true] at digits
      rw [Lexeme.read_minus_digits stops, digits]
      rfl
  · next notNegative =>
      obtain ⟨c, cs, hd, digit⟩ := Numeral.exists_digits_eq_cons n.natAbs
      simp only [notNegative, decide_false] at digits
      rw [hd]
      refine single (isSpace_of_isDigit digit) fun rest stops => ?_
      rw [← List.cons_append, ← hd, Lexeme.read_digits stops, digits]
      rfl

/-- Parts with commas between them. -/
theorem commas {α : Type} {write : α → List Char} {lexemes : α → List Lexeme} {l : List α}
    (h : ∀ a ∈ l, ReadsAs d (write a) (lexemes a)) :
    ReadsAs d (Json.commas (l.map write)) ([.comma].intercalate (l.map lexemes)) := by
  induction l with
  | nil => exact nil
  | cons a l ih =>
      obtain ⟨ha, hl⟩ := List.forall_mem_cons.mp h
      cases l with
      | nil => simpa [Json.commas] using ha
      | cons b l =>
          have rest := cons (c := ',') (by decide) (fun _ => rfl) (ih hl)
          exact ha.append rest (stops_cons (by decide))

end ReadsAs

end LogLayout.Json
