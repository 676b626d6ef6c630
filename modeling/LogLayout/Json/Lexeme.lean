import LogLayout.Json

/-!
# JSON lexemes

The parts of a JSON text: brackets, separators, and the values without parts. White space may stand
before each of them. Two dialects are read: the strict one, and a wider one that also has words for
the numbers that are not finite.
-/

namespace LogLayout.Json

/-- What a reader accepts where JSON readers differ. -/
structure Dialect where
  /-- Integers of any size stay integers; otherwise those beyond 64 bits become floating-point. -/
  wideIntegers : Bool
  /-- There are words for infinities and for what is not a number, and a number too large is an
  infinity; otherwise these are faults. -/
  nonFinite : Bool
  /-- How deep lists and objects may lie within each other. -/
  maxDepth : Nat

/-- The dialect of documents. -/
def Dialect.strict : Dialect := ⟨false, false, 1024⟩

/-- The dialect of settings. -/
def Dialect.wide : Dialect := ⟨true, true, 100000⟩

/-- A part of a JSON text. -/
inductive Lexeme where
  | openList
  | closeList
  | openObject
  | closeObject
  | comma
  | colon
  | text (s : String)
  /-- A value that is no text and has no parts. -/
  | scalar (j : Json)

def isSpace (c : Char) : Bool := c == ' ' || c == '\t' || c == '\n' || c == '\r'

/-- The character that an escape of one letter stands for. -/
def simpleEscape? : Char → Option Char
  | '"' => some '"'
  | '\\' => some '\\'
  | '/' => some '/'
  | 'b' => some '\x08'
  | 'f' => some '\x0c'
  | 'n' => some '\n'
  | 'r' => some '\r'
  | 't' => some '\t'
  | _ => none

/-- The number of four hexadecimal digits. -/
def unit? (a b c d : Char) : Option Nat := do
  let a ← Numeral.hexValue? a
  let b ← Numeral.hexValue? b
  let c ← Numeral.hexValue? c
  let d ← Numeral.hexValue? d
  return ((a * 16 + b) * 16 + c) * 16 + d

def isHighSurrogate (u : Nat) : Bool := 0xD800 ≤ u && u < 0xDC00

def isLowSurrogate (u : Nat) : Bool := 0xDC00 ≤ u && u < 0xE000

/-- The character of a pair of surrogates. -/
def pairChar (high low : Nat) : Char :=
  Char.ofNat (0x10000 + (high - 0xD800) * 0x400 + (low - 0xDC00))

/-- The characters of a text up to its closing quote, and what follows the quote. Escaped surrogates
have to come in pairs, and control characters have to be escaped. -/
def readText : List Char → Option (List Char × List Char)
  | [] => none
  | '"' :: rest => some ([], rest)
  | '\\' :: 'u' :: a :: b :: c :: d :: rest =>
    match unit? a b c d with
    | none => none
    | some u =>
      if isHighSurrogate u then
        match rest with
        | '\\' :: 'u' :: e :: f :: g :: h :: more =>
          match unit? e f g h with
          | none => none
          | some v =>
            if isLowSurrogate v then
              (readText more).map fun (cs, after) => (pairChar u v :: cs, after)
            else none
        | _ => none
      else if isLowSurrogate u then none
      else (readText rest).map fun (cs, after) => (Char.ofNat u :: cs, after)
  | '\\' :: e :: rest =>
    match simpleEscape? e with
    | none => none
    | some c => (readText rest).map fun (cs, after) => (c :: cs, after)
  | c :: rest =>
    if c.toNat < 32 || c = '\\' then none
    else (readText rest).map fun (cs, after) => (c :: cs, after)

/-- The digits of a whole part: a zero alone, or digits that begin with no zero. -/
def readWhole (cs : List Char) : Option (List Char × List Char) :=
  match cs with
  | '0' :: rest => some (['0'], rest)
  | _ =>
    let ds := cs.takeWhile Char.isDigit
    if ds.isEmpty then none else some (ds, cs.dropWhile Char.isDigit)

/-- The digits behind a mark, one at least. -/
def readDigits (cs : List Char) : Option (List Char × List Char) :=
  let ds := cs.takeWhile Char.isDigit
  if ds.isEmpty then none else some (ds, cs.dropWhile Char.isDigit)

/-- The fraction behind a whole part; without a point it is empty. -/
def readFraction : List Char → Option (List Char × List Char)
  | '.' :: rest => readDigits rest
  | cs => some ([], cs)

/-- Whether an exponent has a minus sign, and what follows its sign; a plus sign may stand there,
too. -/
def splitSign : List Char → Bool × List Char
  | '-' :: rest => (true, rest)
  | '+' :: rest => (false, rest)
  | cs => (false, cs)

/-- The exponent at the end of a number, if there is one. -/
def readExponent : List Char → Option (Option Int × List Char)
  | e :: rest =>
    if e = 'e' || e = 'E' then
      (readDigits (splitSign rest).2).map fun (ds, after) =>
        let n : Int := Numeral.ofDigits ds
        (some (if (splitSign rest).1 then -n else n), after)
    else some (none, e :: rest)
  | [] => some (none, [])

/-- The integer of a numeral in a dialect. -/
def ofInteger (d : Dialect) (negative : Bool) (ds : List Char) : Option Json :=
  let n : Int := if negative then -Numeral.ofDigits ds else Numeral.ofDigits ds
  if d.wideIntegers then
    if Numeral.digitLimit < ds.length then none else some (int n)
  else if -(Nat.pow 2 63 : Int) ≤ n && n < Nat.pow 2 64 then some (int n)
  else finite (Binary64.ofInt n)
where
  /-- A number that is finite. -/
  finite (x : Binary64) : Option Json := if x.isFinite then some (float x) else none

/-- The number at the start of a text whose sign has been read. -/
def readNumber (d : Dialect) (negative : Bool) (cs : List Char) : Option (Json × List Char) := do
  let (whole, rest) ← readWhole cs
  let (fraction, rest) ← readFraction rest
  let (exponent, rest) ← readExponent rest
  if fraction.isEmpty && exponent.isNone then
    return (← ofInteger d negative whole, rest)
  else
    let x := Binary64.ofDecimal negative (Numeral.ofDigits (whole ++ fraction))
      (exponent.getD 0 - fraction.length)
    if x.isFinite || d.nonFinite then return (float x, rest) else none

/-- What follows a word at the start of a text. -/
def afterWord? (word : String) (cs : List Char) : Option (List Char) :=
  if word.toList.isPrefixOf cs then some (cs.drop word.length) else none

/-- The words of a dialect, each with what it stands for. -/
def words (d : Dialect) : List (String × Json) :=
  [("true", bool true), ("false", bool false), ("null", null)] ++
    if d.nonFinite then
      [("NaN", float .nan), ("Infinity", float (.infinity false)),
        ("-Infinity", float (.infinity true))]
    else []

/-- The word at the start of a text. -/
def readWord (d : Dialect) (cs : List Char) : Option (Json × List Char) :=
  (words d).findSome? fun (word, j) => (afterWord? word cs).map fun rest => (j, rest)

/-- A text takes at least its closing quote. -/
theorem length_of_readText {cs text after : List Char} (h : readText cs = some (text, after)) :
    after.length < cs.length := by
  fun_induction readText cs generalizing text after with
  | case1 | case3 | case4 | case6 | case7 | case8 | case10 | case12 => cases h
  | case2 =>
    obtain ⟨-, rfl⟩ := Prod.mk.inj (Option.some.inj h)
    exact Nat.lt_succ_self _
  | case5 _ _ _ _ _ _ _ _ _ _ _ _ _ _ _ ih | case9 _ _ _ _ _ _ _ _ _ ih
  | case11 _ _ _ _ _ ih | case13 _ _ _ _ _ _ ih =>
    obtain ⟨⟨tail, rest⟩, hread, heq⟩ := Option.map_eq_some_iff.1 h
    obtain ⟨-, rfl⟩ := Prod.mk.inj heq
    have := ih hread
    simp only [List.length_cons]
    omega

theorem length_of_readWhole {cs ds rest : List Char} (h : readWhole cs = some (ds, rest)) :
    rest.length < cs.length := by
  unfold readWhole at h
  split at h
  · obtain ⟨-, rfl⟩ := Prod.mk.inj (Option.some.inj h)
    exact Nat.lt_succ_self _
  · simp only at h
    split at h
    · cases h
    · next hds =>
      obtain ⟨-, rfl⟩ := Prod.mk.inj (Option.some.inj h)
      have hsplit : (cs.takeWhile Char.isDigit ++ cs.dropWhile Char.isDigit).length = cs.length :=
        congrArg List.length List.takeWhile_append_dropWhile
      have hpos := List.length_pos_iff.2 (mt List.isEmpty_iff.2 hds)
      simp only [List.length_append] at hsplit
      omega

theorem length_of_readDigits {cs ds rest : List Char} (h : readDigits cs = some (ds, rest)) :
    rest.length ≤ cs.length := by
  simp only [readDigits] at h
  split at h
  · cases h
  · obtain ⟨-, rfl⟩ := Prod.mk.inj (Option.some.inj h)
    exact (List.dropWhile_suffix _).length_le

theorem length_of_readFraction {cs ds rest : List Char} (h : readFraction cs = some (ds, rest)) :
    rest.length ≤ cs.length := by
  unfold readFraction at h
  split at h
  · exact Nat.le_succ_of_le (length_of_readDigits h)
  · obtain ⟨-, rfl⟩ := Prod.mk.inj (Option.some.inj h)
    exact Nat.le_refl _

theorem length_of_splitSign (cs : List Char) : (splitSign cs).2.length ≤ cs.length := by
  unfold splitSign
  split
  · exact Nat.le_succ _
  · exact Nat.le_succ _
  · exact Nat.le_refl _

theorem length_of_readExponent {cs rest : List Char} {e : Option Int}
    (h : readExponent cs = some (e, rest)) : rest.length ≤ cs.length := by
  unfold readExponent at h
  split at h
  · split at h
    · next e rest _ =>
      obtain ⟨⟨ds, after⟩, hdigits, heq⟩ := Option.map_eq_some_iff.1 h
      obtain ⟨-, rfl⟩ := Prod.mk.inj heq
      exact Nat.le_succ_of_le
        (Nat.le_trans (length_of_readDigits hdigits) (length_of_splitSign rest))
    · obtain ⟨-, rfl⟩ := Prod.mk.inj (Option.some.inj h)
      exact Nat.le_refl _
  · obtain ⟨-, rfl⟩ := Prod.mk.inj (Option.some.inj h)
    exact Nat.le_refl _

/-- A number takes at least one digit. -/
theorem length_of_readNumber {d : Dialect} {negative : Bool} {cs rest : List Char} {j : Json}
    (h : readNumber d negative cs = some (j, rest)) : rest.length < cs.length := by
  simp only [readNumber, Option.bind_eq_bind, Option.bind_eq_some_iff] at h
  obtain ⟨⟨whole, afterWhole⟩, hwhole, ⟨fraction, afterFraction⟩, hfraction,
    ⟨exponent, afterExponent⟩, hexponent, h⟩ := h
  have h1 := length_of_readWhole hwhole
  have h2 := length_of_readFraction hfraction
  have h3 := length_of_readExponent hexponent
  have hrest : afterExponent = rest := by
    split at h
    · obtain ⟨x, -, heq⟩ := Option.bind_eq_some_iff.1 h
      exact (Prod.mk.inj (Option.some.inj heq)).2
    · split at h
      · exact (Prod.mk.inj (Option.some.inj h)).2
      · cases h
  subst hrest
  simp only at h2 h3
  omega

theorem length_pos_of_mem_words {d : Dialect} {entry : String × Json} (h : entry ∈ words d) :
    0 < entry.1.length := by
  have all : ∀ entry ∈ words d, 0 < entry.1.length := by
    cases hd : d.nonFinite <;> simp only [words, hd] <;> decide +kernel
  exact all entry h

/-- A word takes at least one character. -/
theorem length_of_readWord {d : Dialect} {c : Char} {cs rest : List Char} {j : Json}
    (h : readWord d (c :: cs) = some (j, rest)) : rest.length < (c :: cs).length := by
  obtain ⟨⟨word, value⟩, hmem, hword⟩ := List.exists_of_findSome?_eq_some h
  obtain ⟨after, hafter, heq⟩ := Option.map_eq_some_iff.1 hword
  obtain ⟨-, rfl⟩ := Prod.mk.inj heq
  have hpos := length_pos_of_mem_words hmem
  unfold afterWord? at hafter
  split at hafter
  · obtain rfl := Option.some.inj hafter
    simp only [List.length_drop, List.length_cons] at hpos ⊢
    omega
  · cases hafter

namespace Lexeme

/-- The lexeme at the start of a text, and what follows it. -/
def read (d : Dialect) (cs : List Char) : Option (Lexeme × List Char) :=
  match cs with
  | [] => none
  | '[' :: rest => some (openList, rest)
  | ']' :: rest => some (closeList, rest)
  | '\x7b' :: rest => some (openObject, rest)
  | '\x7d' :: rest => some (closeObject, rest)
  | ',' :: rest => some (comma, rest)
  | ':' :: rest => some (colon, rest)
  | '"' :: rest => (readText rest).map fun (s, after) => (text (String.ofList s), after)
  | c :: rest =>
    let found :=
      if c.isDigit then readNumber d false cs
      else if c = '-' && rest.head?.any Char.isDigit then readNumber d true rest
      else readWord d cs
    found.map fun (j, after) => (scalar j, after)

/-- Reading a lexeme shortens what is left. -/
theorem length_of_read {d : Dialect} {cs rest : List Char} {lexeme : Lexeme}
    (h : read d cs = some (lexeme, rest)) : rest.length < cs.length := by
  unfold read at h
  split at h
  · cases h
  case h_8 after =>
    obtain ⟨⟨s, tail⟩, htext, heq⟩ := Option.map_eq_some_iff.1 h
    obtain ⟨-, rfl⟩ := Prod.mk.inj heq
    exact Nat.lt_succ_of_lt (length_of_readText htext)
  case h_9 c more _ _ _ _ _ _ _ =>
    obtain ⟨⟨j, tail⟩, hfound, heq⟩ := Option.map_eq_some_iff.1 h
    obtain ⟨-, rfl⟩ := Prod.mk.inj heq
    split at hfound
    · exact length_of_readNumber hfound
    · split at hfound
      · exact Nat.lt_succ_of_lt (length_of_readNumber hfound)
      · exact length_of_readWord hfound
  all_goals
    obtain ⟨-, rfl⟩ := Prod.mk.inj (Option.some.inj h)
    exact Nat.lt_succ_self _

/-- The lexemes of a text, or nothing if some part of it is none. -/
def readAll (d : Dialect) (cs : List Char) : Option (List Lexeme) :=
  match _hskip : cs.dropWhile isSpace with
  | [] => some []
  | c :: more =>
    match _hread : read d (c :: more) with
    | none => none
    | some (lexeme, rest) => (readAll d rest).map (lexeme :: ·)
termination_by cs.length
decreasing_by
  have hread := length_of_read _hread
  have hskip := congrArg List.length _hskip
  have hle := (List.dropWhile_suffix isSpace (l := cs)).length_le
  omega

end Lexeme

end LogLayout.Json
