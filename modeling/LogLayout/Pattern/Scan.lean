import LogLayout.Pattern.Fault
import LogLayout.Text.Blank

/-!
# Scanning pattern texts

A pattern text is split into literal runs and token expressions. A token is a sigil and a name,
optionally with a list of options in parentheses; a doubled sigil is literal. Values are integers,
quoted texts and the words `true` and `false`. Nothing is decided here about which names mean
something. The scan goes from left to right and stops at the first fault.
-/

namespace LogLayout

/-- An option value as it is written. A quoted text of one character is a character. -/
inductive Literal where
  | integer (n : Int)
  | text (s : String)
  | char (c : Char)
  | flag (b : Bool)
  deriving DecidableEq, Repr

/-- An option as it is written, and the position of its name. -/
structure WrittenOption where
  name : String
  value : Literal
  position : Nat
  deriving DecidableEq, Repr

/-- A token as it is written, and the position of its sigil. -/
structure WrittenToken where
  name : String
  position : Nat
  options : List WrittenOption := []
  deriving DecidableEq, Repr

/-- A part of a scanned text. -/
inductive Item where
  | literal (text : String)
  | token (t : WrittenToken)
  deriving DecidableEq, Repr

/-- Why a scan stops before the end: a fault of the text, or a numeral that is too long to read. -/
inductive ScanStop where
  | rejected (r : Rejection)
  | numeralTooLong (digits : Nat)
  deriving DecidableEq, Repr

/-- Letters and the underscore begin a name; only ASCII counts. -/
def isNameStart (c : Char) : Bool := c.isAlpha || c == '_'

/-- Letters, digits and the underscore continue a name; only ASCII counts. -/
def isNameChar (c : Char) : Bool := c.isAlphanum || c == '_'

/-- The two quotes of option values. -/
def isQuote (c : Char) : Bool := c == '\'' || c == '"'

theorem isNameChar_of_isNameStart {c : Char} (h : isNameStart c = true) : isNameChar c = true := by
  simp only [isNameStart, isNameChar, Char.isAlphanum, Bool.or_eq_true] at h ⊢
  exact h.imp_left Or.inl

/-- A place in a text: how many characters lie before it, and the characters from it on. -/
structure Cursor where
  offset : Nat
  rest : List Char
  deriving DecidableEq, Repr

namespace Cursor

/-- The place some characters further on. -/
def advance (c : Cursor) (n : Nat) : Cursor := ⟨c.offset + n, c.rest.drop n⟩

/-- The first place from here on that is no blank. -/
def skipBlanks (c : Cursor) : Cursor := c.advance (c.rest.takeWhile Text.isBlank).length

@[simp] theorem length_advance (c : Cursor) (n : Nat) :
    (c.advance n).rest.length = c.rest.length - n := by
  simp [advance]

theorem length_skipBlanks_le (c : Cursor) : c.skipBlanks.rest.length ≤ c.rest.length := by
  simp [skipBlanks]

/-- The longest name that starts here, and the place after it. -/
def name? (c : Cursor) : Option (String × Cursor) :=
  let name := c.rest.takeWhile isNameChar
  if c.rest.head?.any isNameStart then some (String.ofList name, c.advance name.length) else none

theorem length_of_name? {c next : Cursor} {name : String} (h : c.name? = some (name, next)) :
    next.rest.length < c.rest.length := by
  unfold name? at h
  match hc : c.rest with
  | [] => simp [hc] at h
  | first :: more =>
    simp only [hc, List.head?_cons, Option.any_some] at h
    split at h
    · next hstart =>
      obtain ⟨-, rfl⟩ := Prod.mk.inj (Option.some.inj h)
      rw [length_advance, hc, List.takeWhile_cons_of_pos (isNameChar_of_isNameStart hstart)]
      simp only [List.length_cons]
      omega
    · cases h

end Cursor

namespace Literal

/-- The value of a quoted text. -/
def ofQuoted : List Char → Literal
  | [c] => .char c
  | cs => .text (String.ofList cs)

/-- The integer of a row of digits, negative after a minus sign. -/
def ofDigits (negative : Bool) (ds : List Char) : Literal :=
  .integer (if negative then -Numeral.ofDigits ds else Numeral.ofDigits ds)

/-- Reads the digits at a place as the value that starts at `valueAt`. A name character must not
follow them. -/
def readNumeral (valueAt : Nat) (negative : Bool) (c : Cursor) :
    Except ScanStop (Literal × Cursor) :=
  let ds := c.rest.takeWhile Char.isDigit
  let next := c.advance ds.length
  if next.rest.head?.any isNameChar then .error (.rejected ⟨.malformedInteger, valueAt⟩)
  else if Numeral.digitLimit < ds.length then .error (.numeralTooLong ds.length)
  else .ok (ofDigits negative ds, next)

/-- Reads the bare word at a place, which can only be `true` or `false`. -/
def readWord (c : Cursor) : Except ScanStop (Literal × Cursor) :=
  match c.name? with
  | some (word, next) =>
    if word = "true" then .ok (.flag true, next)
    else if word = "false" then .ok (.flag false, next)
    else .error (.rejected ⟨.unquotedValue word, c.offset⟩)
  | none => .error (.rejected ⟨.missingOptionValue, c.offset⟩)

/-- Reads the option value at a place. -/
def read (c : Cursor) : Except ScanStop (Literal × Cursor) :=
  match c.rest with
  | first :: after =>
    if isQuote first then
      let content := after.takeWhile (· ≠ first)
      .ok (ofQuoted content, c.advance (content.length + 2))
    else if first.isDigit then readNumeral c.offset false c
    else if first = '-' && after.head?.any Char.isDigit then
      readNumeral c.offset true (c.advance 1)
    else readWord c
  | [] => readWord c

theorem length_of_readNumeral {valueAt : Nat} {c next : Cursor} {negative : Bool} {v : Literal}
    (h : readNumeral valueAt negative c = .ok (v, next)) : next.rest.length ≤ c.rest.length := by
  simp only [readNumeral] at h
  split at h
  · cases h
  · split at h
    · cases h
    · obtain ⟨-, rfl⟩ := Prod.mk.inj (Except.ok.inj h)
      simp

theorem length_of_readWord {c next : Cursor} {v : Literal} (h : readWord c = .ok (v, next)) :
    next.rest.length ≤ c.rest.length := by
  unfold readWord at h
  split at h
  · next hname =>
    have := Cursor.length_of_name? hname
    split at h
    · obtain ⟨-, rfl⟩ := Prod.mk.inj (Except.ok.inj h)
      omega
    · split at h
      · obtain ⟨-, rfl⟩ := Prod.mk.inj (Except.ok.inj h)
        omega
      · cases h
  · cases h

/-- Reading a value does not lengthen what is left. -/
theorem length_of_read {c next : Cursor} {v : Literal} (h : read c = .ok (v, next)) :
    next.rest.length ≤ c.rest.length := by
  unfold read at h
  split at h
  · split at h
    · obtain ⟨-, rfl⟩ := Prod.mk.inj (Except.ok.inj h)
      simp
    · split at h
      · exact length_of_readNumeral h
      · split at h
        · have := length_of_readNumeral h
          simp only [Cursor.length_advance] at this
          omega
        · exact length_of_readWord h
  · exact length_of_readWord h

end Literal

namespace WrittenOption

/-- Reads the option at a place: a name, and a value after an equals sign. A name alone is a flag
that is set. The place after a name alone is that of the first non-blank behind it. -/
def read (c : Cursor) : Except ScanStop (WrittenOption × Cursor) :=
  match c.name? with
  | none => .error (.rejected ⟨.missingOptionName, c.offset⟩)
  | some (name, afterName) =>
    let next := afterName.skipBlanks
    if next.rest.head? = some '=' then
      match Literal.read (next.advance 1).skipBlanks with
      | .error stop => .error stop
      | .ok (value, afterValue) => .ok (⟨name, value, c.offset⟩, afterValue)
    else .ok (⟨name, .flag true, c.offset⟩, next)

/-- Reading an option shortens what is left. -/
theorem length_of_read {c next : Cursor} {o : WrittenOption} (h : read c = .ok (o, next)) :
    next.rest.length < c.rest.length := by
  simp only [read] at h
  split at h
  · cases h
  · next name afterName hname =>
    have hlt := Cursor.length_of_name? hname
    have hle := afterName.length_skipBlanks_le
    split at h
    · split at h
      · cases h
      · next hread =>
        obtain ⟨-, rfl⟩ := Prod.mk.inj (Except.ok.inj h)
        have h1 := Literal.length_of_read hread
        have h2 := (afterName.skipBlanks.advance 1).length_skipBlanks_le
        simp at h2
        omega
    · obtain ⟨-, rfl⟩ := Prod.mk.inj (Except.ok.inj h)
      omega

/-- Reads options from a place to the end, one at least, with commas between them. -/
def readSome (c : Cursor) : Except ScanStop (List WrittenOption) :=
  match _hread : read c.skipBlanks with
  | .error stop => .error stop
  | .ok (option, afterOption) =>
    let next := afterOption.skipBlanks
    match next.rest with
    | [] => .ok [option]
    | ',' :: _ => (readSome (next.advance 1)).map (option :: ·)
    | _ => .error (.rejected ⟨.missingSeparator, next.offset⟩)
termination_by c.rest.length
decreasing_by
  have h1 := length_of_read _hread
  have h2 := c.length_skipBlanks_le
  have h3 := afterOption.length_skipBlanks_le
  simp
  omega

/-- Reads an option list, whose text lies from a place to the end. It may be empty. -/
def readAll (c : Cursor) : Except ScanStop (List WrittenOption) :=
  if c.skipBlanks.rest.isEmpty then .ok [] else readSome c.skipBlanks

end WrittenOption

/-- The quote that a character at a position opens, if it is one. -/
def opening? (c : Char) (position : Nat) : Option (Char × Nat) :=
  if isQuote c then some (c, position) else none

/-- The text up to the parenthesis that closes an option list, and the text behind that
parenthesis. A parenthesis between quotes does not count; `open?` is the quote that stands open and
its position. -/
def splitOptions (sigilAt : Nat) (open? : Option (Char × Nat)) (offset : Nat) :
    List Char → Except Rejection (List Char × List Char)
  | [] =>
    match open? with
    | some (_, quoteAt) => .error ⟨.missingQuote, quoteAt⟩
    | none => .error ⟨.missingParenthesis, sigilAt⟩
  | c :: rest =>
    match open? with
    | some (quote, _) =>
      match splitOptions sigilAt (if c = quote then none else open?) (offset + 1) rest with
      | .error rejection => .error rejection
      | .ok (inside, after) => .ok (c :: inside, after)
    | none =>
      if c = ')' then .ok ([], rest)
      else
        match splitOptions sigilAt (opening? c offset) (offset + 1) rest with
        | .error rejection => .error rejection
        | .ok (inside, after) => .ok (c :: inside, after)

theorem splitOptions_eq {sigilAt offset : Nat} {open? : Option (Char × Nat)}
    {text inside after : List Char}
    (h : splitOptions sigilAt open? offset text = .ok (inside, after)) :
    text = inside ++ ')' :: after := by
  fun_induction splitOptions sigilAt open? offset text generalizing inside with
  | case1 | case2 | case6 => cases h
  | case3 _ _ _ _ _ _ hs =>
    rw [hs] at h
    cases h
  | case4 _ _ _ _ _ _ _ hs ih =>
    rw [hs] at h
    obtain ⟨rfl, rfl⟩ := Prod.mk.inj (Except.ok.inj h)
    simp [ih hs]
  | case5 =>
    obtain ⟨rfl, rfl⟩ := Prod.mk.inj (Except.ok.inj h)
    rfl
  | case7 _ _ _ _ _ _ hs ih =>
    obtain ⟨rfl, rfl⟩ := Prod.mk.inj (Except.ok.inj h)
    simp [ih hs]

namespace WrittenToken

/-- Reads the token whose sigil stands at a place. The name follows the sigil's first character
directly, an opening parenthesis follows the name directly. -/
def read (sigil : List Char) (c : Cursor) : Except ScanStop (WrittenToken × Cursor) :=
  match (c.advance 1).name? with
  | none => .error (.rejected ⟨.missingTokenName (String.ofList sigil), c.offset⟩)
  | some (name, next) =>
    match next.rest with
    | '(' :: list =>
      match splitOptions c.offset none (next.offset + 1) list with
      | .error rejection => .error (.rejected rejection)
      | .ok (inside, after) =>
        match WrittenOption.readAll ⟨next.offset + 1, inside⟩ with
        | .error stop => .error stop
        | .ok options => .ok (⟨name, c.offset, options⟩, ⟨next.offset + inside.length + 2, after⟩)
    | _ => .ok (⟨name, c.offset, []⟩, next)

/-- Reading a token shortens what is left. -/
theorem length_of_read {sigil : List Char} {c next : Cursor} {t : WrittenToken}
    (h : read sigil c = .ok (t, next)) : next.rest.length < c.rest.length := by
  unfold read at h
  split at h
  · cases h
  · next name afterName hname =>
    have hlt := Cursor.length_of_name? hname
    simp only [Cursor.length_advance] at hlt
    split at h
    · next list hlist =>
      split at h
      · cases h
      · next inside after hsplit =>
        split at h
        · cases h
        · obtain ⟨-, rfl⟩ := Prod.mk.inj (Except.ok.inj h)
          have heq := congrArg List.length (splitOptions_eq hsplit)
          have hlen := congrArg List.length hlist
          simp only [List.length_append, List.length_cons] at heq hlen
          simp only
          omega
    · obtain ⟨-, rfl⟩ := Prod.mk.inj (Except.ok.inj h)
      omega

end WrittenToken

/-- The literal text from a place on up to the next token, and the place of that token's sigil. Of
two sigils in a row the second is literal and the first is dropped. -/
def literalRun (sigil : List Char) (offset : Nat) : List Char → List Char × Option Cursor
  | [] => ([], none)
  | c :: rest =>
    if sigil.isPrefixOf (c :: rest) then
      if sigil.isPrefixOf rest then
        match rest with
        | [] => (sigil, none)
        | _ :: more =>
          let (run, next) := literalRun sigil (offset + 2) more
          (sigil ++ run, next)
      else ([], some ⟨offset, c :: rest⟩)
    else
      let (run, next) := literalRun sigil (offset + 1) rest
      (c :: run, next)

/-- The next token lies within the text. -/
theorem length_of_literalRun {sigil : List Char} {offset : Nat} {text : List Char} {next : Cursor}
    (h : (literalRun sigil offset text).2 = some next) : next.rest.length ≤ text.length := by
  fun_induction literalRun sigil offset text with
  | case1 => simp at h
  | case2 => simp at h
  | case3 => simp_all; omega
  | case4 =>
    simp only [Option.some.injEq] at h
    subst h
    simp
  | case5 => simp_all; omega

/-- The literal item of a run, if the run is not empty. -/
def Item.ofRun (run : List Char) : List Item :=
  if run.isEmpty then [] else [.literal (String.ofList run)]

/-- Scans from a place to the end. -/
def scanFrom (sigil : List Char) (c : Cursor) : Except ScanStop (List Item) :=
  match _hrun : (literalRun sigil c.offset c.rest).2 with
  | none => .ok (Item.ofRun (literalRun sigil c.offset c.rest).1)
  | some tokenAt =>
    match _hread : WrittenToken.read sigil tokenAt with
    | .error stop => .error stop
    | .ok (t, next) =>
      (scanFrom sigil next).map fun items =>
        Item.ofRun (literalRun sigil c.offset c.rest).1 ++ .token t :: items
termination_by c.rest.length
decreasing_by
  have h1 := length_of_literalRun _hrun
  have h2 := WrittenToken.length_of_read _hread
  omega

/-- The items of a pattern text. -/
def scan (sigil : String) (text : String) : Except ScanStop (List Item) :=
  scanFrom sigil.toList ⟨0, text.toList⟩

end LogLayout
