import LogLayout.Binary64.Layout
import LogLayout.Datum.Display
import LogLayout.FaultClass
import LogLayout.Word

/-!
# Message templates

A message can be a template with directives, each of which stands for one argument: a percent sign,
perhaps a name in parentheses, flags, a width, a precision, and a letter that says how the argument
is shown. Named arguments come from a dictionary, others from a row, of which none may be left over.
A template is first split into its pieces and then filled from left to right, so that of several
faults the leftmost is reported.
-/

namespace LogLayout.Template

open Numeral (TooLong)

/-- A width or a precision. -/
inductive Count where
  | absent
  | fixed (n : Nat)
  /-- It is the next argument. -/
  | argument
  | tooBig
  deriving DecidableEq, Repr

/-- A placeholder for an argument. -/
structure Directive where
  /-- The name of the argument. -/
  key : Option String := none
  flags : List Char := []
  width : Count := .absent
  precision : Count := .absent
  /-- The letter at the end, unless the template ends before it. -/
  conversion : Option Char := none
  /-- The position of the letter in the template. -/
  place : Nat := 0
  deriving DecidableEq, Repr

/-- A part of a template. -/
inductive Piece where
  | char (c : Char)
  | directive (d : Directive)
  /-- A name without its closing parenthesis. -/
  | openKey
  deriving DecidableEq, Repr

/-- A name up to its closing parenthesis, and what follows; parentheses inside come in pairs. -/
def readKey (depth : Nat) : List Char → Option (List Char × List Char)
  | [] => none
  | c :: rest =>
    if c = ')' && depth = 0 then some ([], rest)
    else
      let depth := if c = '(' then depth + 1 else if c = ')' then depth - 1 else depth
      (readKey depth rest).map fun (key, after) => (c :: key, after)

/-- A count at the start of a text, and what follows; it may not exceed the given limit. -/
def readCount (limit : Nat) (default : Count) : List Char → Count × List Char
  | '*' :: rest => (.argument, rest)
  | cs =>
    let ds := cs.takeWhile Char.isDigit
    let n := Numeral.ofDigits ds
    if ds.isEmpty then (default, cs)
    else (if limit < n then .tooBig else .fixed n, cs.dropWhile Char.isDigit)

def isFlag (c : Char) : Bool := ['-', '+', ' ', '#', '0'].contains c

/-- A length in front of the letter has no meaning. -/
def dropLength : List Char → List Char
  | c :: rest => if c = 'h' || c = 'l' || c = 'L' then rest else c :: rest
  | [] => []

/-- The precision behind a point; without a point it is absent. -/
def readPrecision : List Char → Count × List Char
  | '.' :: rest => readCount (Nat.pow 2 31 - 1) (.fixed 0) rest
  | cs => (.absent, cs)

/-- The directive behind its name, and what follows it, in a template of `total` characters. -/
def readDirective (total : Nat) (key : Option String) (cs : List Char) : Directive × List Char :=
  let flags := cs.takeWhile isFlag
  let (width, afterWidth) := readCount (Nat.pow 2 63 - 1) .absent (cs.dropWhile isFlag)
  let (precision, afterPrecision) := readPrecision afterWidth
  let rest := dropLength afterPrecision
  (⟨key, flags, width, precision, rest.head?, total - rest.length⟩, rest.drop 1)

theorem length_of_readKey {depth : Nat} {cs key after : List Char}
    (h : readKey depth cs = some (key, after)) : after.length < cs.length := by
  induction cs generalizing depth key with
  | nil => cases h
  | cons c rest ih =>
    simp only [readKey] at h
    split at h
    · obtain ⟨-, rfl⟩ := Prod.mk.inj (Option.some.inj h)
      exact Nat.lt_succ_self _
    · obtain ⟨⟨inner, tail⟩, hread, heq⟩ := Option.map_eq_some_iff.1 h
      obtain ⟨-, rfl⟩ := Prod.mk.inj heq
      exact Nat.lt_succ_of_lt (ih hread)

theorem length_of_readCount (limit : Nat) (default : Count) (cs : List Char) :
    (readCount limit default cs).2.length ≤ cs.length := by
  unfold readCount
  split
  · exact Nat.le_succ _
  · simp only
    split
    · exact Nat.le_refl _
    · exact (List.dropWhile_suffix _).length_le

theorem length_of_readPrecision (cs : List Char) : (readPrecision cs).2.length ≤ cs.length := by
  unfold readPrecision
  split
  · exact Nat.le_succ_of_le (length_of_readCount _ _ _)
  · exact Nat.le_refl _

theorem length_of_dropLength (cs : List Char) : (dropLength cs).length ≤ cs.length := by
  unfold dropLength
  split
  · split
    · exact Nat.le_succ _
    · exact Nat.le_refl _
  · exact Nat.le_refl _

/-- Reading a directive does not lengthen what is left. -/
theorem length_of_readDirective (total : Nat) (key : Option String) (cs : List Char) :
    (readDirective total key cs).2.length ≤ cs.length := by
  have h1 : (cs.dropWhile isFlag).length ≤ cs.length := (List.dropWhile_suffix _).length_le
  have h2 := length_of_readCount (Nat.pow 2 63 - 1) .absent (cs.dropWhile isFlag)
  have h3 := length_of_readPrecision
    (readCount (Nat.pow 2 63 - 1) .absent (cs.dropWhile isFlag)).2
  have h4 := length_of_dropLength
    (readPrecision (readCount (Nat.pow 2 63 - 1) .absent (cs.dropWhile isFlag)).2).2
  simp only [readDirective, List.length_drop]
  omega

/-- The pieces of the rest of a template of `total` characters. Two percent signs in a row are
one. -/
def pieces (total : Nat) (cs : List Char) : List Piece :=
  match cs with
  | [] => []
  | '%' :: '%' :: rest => .char '%' :: pieces total rest
  | '%' :: '(' :: more =>
    match _hkey : readKey 0 more with
    | none => [.openKey]
    | some (key, after) =>
      let read := readDirective total (some (String.ofList key)) after
      .directive read.1 :: pieces total read.2
  | '%' :: more =>
    let read := readDirective total none more
    .directive read.1 :: pieces total read.2
  | c :: rest => .char c :: pieces total rest
termination_by cs.length
decreasing_by
  · simp only [List.length_cons]
    omega
  · have h1 := length_of_readDirective total (some (String.ofList key)) after
    have h2 := length_of_readKey _hkey
    simp only [List.length_cons]
    omega
  · have h := length_of_readDirective total none more
    simp only [List.length_cons]
    omega
  · exact Nat.lt_succ_self _

/-- Why a template cannot be filled. -/
inductive Fault where
  | notEnough
  | leftOver
  | needsDictionary
  | openKey
  | incomplete
  | missingKey (key : String)
  | countNotInteger
  | widthTooBig
  | precisionTooBig
  /-- A width from an argument beyond the machine's range. -/
  | widthBeyondRange
  /-- A precision from an argument beyond the machine's range. -/
  | precisionBeyondRange
  /-- A precision of an integer that is too large for its digits. -/
  | precisionTooLarge
  /-- A column is too wide for the memory. -/
  | noMemory
  | notReal (conversion : Char) (kind : String)
  | notInteger (conversion : Char) (kind : String)
  | notFloat (kind : String)
  | notCharacter
  | characterRange
  | infiniteInteger
  | undefinedInteger
  | tooLargeForFloat
  | unsupported (conversion : Char) (place : Nat)
  | numeral (cause : TooLong)
  deriving DecidableEq, Repr

def Fault.message : Fault → String
  | notEnough => "not enough arguments for format string"
  | leftOver => "not all arguments converted during string formatting"
  | needsDictionary => "format requires a mapping"
  | openKey => "incomplete format key"
  | incomplete => "incomplete format"
  | missingKey key => Text.quoted key
  | countNotInteger => "* wants int"
  | widthTooBig => "width too big"
  | precisionTooBig => "precision too big"
  | widthBeyondRange => "Python int too large to convert to C ssize_t"
  | precisionBeyondRange => "Python int too large to convert to C int"
  | precisionTooLarge => "precision too large"
  | noMemory => ""
  | notReal c kind =>
    String.ofList ['%', c] ++ " format: a real number is required, not " ++ kind
  | notInteger c kind => String.ofList ['%', c] ++ " format: an integer is required, not " ++ kind
  | notFloat kind => "must be real number, not " ++ kind
  | notCharacter => "%c requires int or char"
  | characterRange => "%c arg not in range(0x110000)"
  | infiniteInteger => "cannot convert float infinity to integer"
  | undefinedInteger => "cannot convert float NaN to integer"
  | tooLargeForFloat => "int too large to convert to float"
  | unsupported c place =>
    let shown := if 31 ≤ c.toNat && c.toNat ≤ 126 then c else '?'
    "unsupported format character '" ++ String.ofList [shown] ++ "' (0x" ++
      String.ofList (Numeral.inBase 16 c.toNat) ++ ") at index " ++
      String.ofList (Numeral.digits place)
  | numeral cause => cause.message

def Fault.faultClass : Fault → FaultClass
  | notEnough | leftOver | needsDictionary | countNotInteger | notReal .. | notInteger ..
  | notFloat _ | notCharacter => .kind
  | missingKey _ => .key
  | widthBeyondRange | precisionBeyondRange | precisionTooLarge | characterRange
  | infiniteInteger | tooLargeForFloat => .overflow
  | noMemory => .memory
  | openKey | incomplete | widthTooBig | precisionTooBig | undefinedInteger | unsupported ..
  | numeral _ => .value

/-- Where arguments come from. -/
inductive Supply where
  /-- The arguments of a row that are not used yet. -/
  | row (args : List Datum)
  /-- A single argument, for one use. -/
  | single (d : Datum)
  | nothing

/-- The next argument. -/
def Supply.next : Supply → Except Fault (Datum × Supply)
  | row (d :: rest) => .ok (d, row rest)
  | single d => .ok (d, nothing)
  | row [] | nothing => .error .notEnough

/-- A number as it is laid out: its sign, a mark of its base, and its digits. -/
structure Numerals where
  negative : Bool
  mark : List Char := []
  digits : List Char

def blanks (n : Nat) : List Char := List.replicate n ' '

/-- A text in its column. -/
def column (left : Bool) (width : Nat) (cs : List Char) : List Char :=
  if left then cs ++ blanks (width - cs.length) else blanks (width - cs.length) ++ cs

/-- A number in its column. With the zero flag the zeros stand between the sign and the digits. -/
def Numerals.layout (n : Numerals) (flags : List Char) (left : Bool) (width : Nat) : List Char :=
  let sign := if n.negative then ['-']
    else if flags.contains '+' then ['+']
    else if flags.contains ' ' then [' ']
    else []
  let front := sign ++ n.mark
  let zeros := if flags.contains '0' && !left then width - (front ++ n.digits).length else 0
  column left width (front ++ List.replicate zeros '0' ++ n.digits)

/-- The integer that an argument stands for, cut off at the point if it has a fraction. -/
def integerOf (conversion : Char) (d : Datum) : Except Fault Int :=
  match d with
  | .float x =>
    match x.truncate? with
    | some n => .ok n
    | none => .error (if x.isNaN then .undefinedInteger else .infiniteInteger)
  | d =>
    match d.integer? with
    | some n => .ok n
    | none => .error (.notReal conversion d.kindName)

/-- Lets a number of characters through that there is memory for. -/
def roomFor (n : Nat) : Except Fault Unit :=
  if n ≤ Word.longestRun then .ok () else .error .noMemory

/-- The least number of digits of an integer; it leaves room for a sign and the mark of a base in a
word of 32 bits. -/
def leastDigits (precision : Option Nat) : Except Fault Nat := do
  let n := precision.getD 0
  if !Word.holds 32 (n + 3) then .error .precisionTooLarge
  roomFor n
  return n

/-- An integer in decimal. -/
def decimal (conversion : Char) (precision : Option Nat) (d : Datum) : Except Fault Numerals := do
  let n ← integerOf conversion d
  let least ← leastDigits precision
  match Numeral.write n with
  | .error cause => .error (.numeral cause)
  | .ok _ => .ok ⟨n < 0, [], Numeral.padded least n.natAbs⟩

/-- An integer in base eight or sixteen, with the mark of the base if that is asked for. -/
def based (conversion : Char) (alternate : Bool) (precision : Option Nat) (d : Datum) :
    Except Fault Numerals :=
  match d.integer? with
  | none => .error (.notInteger conversion d.kindName)
  | some n => do
    let least ← leastDigits precision
    let ds := Numeral.inBase (if conversion = 'o' then 8 else 16) n.natAbs
    let ds := List.replicate (least - ds.length) '0' ++ ds
    return ⟨n < 0, if alternate then ['0', conversion] else [],
      if conversion = 'X' then ds.map Char.toUpper else ds⟩

/-- The floating-point number that an argument stands for. -/
def floatOf (d : Datum) : Except Fault Binary64 :=
  match d with
  | .float x => .ok x
  | d =>
    match d.integer? with
    | none => .error (.notFloat d.kindName)
    | some n =>
      let x := Binary64.ofInt n
      if x.isFinite then .ok x else .error .tooLargeForFloat

/-- The places behind the first digit. That digit is counted along with them in a word of 32 bits;
without room for it there are no places. -/
def placesBehindFirst (places : Nat) : Nat := if Word.holds 32 (places + 1) then places else 0

/-- The digits of a positive floating-point number, or zero, by the letter of its directive. -/
def floatDigits (small : Char) (alternate : Bool) (places m : Nat) (q : Int) :
    Except Fault (List Char) := do
  if small = 'g' then
    if alternate then roomFor places
    return Binary64.generalMagnitude alternate 'e' places m q
  else
    let places := if small = 'e' then placesBehindFirst places else places
    roomFor places
    return if small = 'e' then Binary64.exponentMagnitude alternate 'e' places m q
      else Binary64.fixedMagnitude alternate places m q

/-- A floating-point number, six places unless a precision is given. -/
def floating (conversion : Char) (alternate : Bool) (precision : Option Nat) (d : Datum) :
    Except Fault Numerals := do
  let x ← floatOf d
  let plain : Numerals ← match x.meaning with
    | .notANumber => .ok ⟨false, [], "nan".toList⟩
    | .infinite negative => .ok ⟨negative, [], "inf".toList⟩
    | .finite negative m q =>
      (floatDigits conversion.toLower alternate (precision.getD 6) m q).map fun ds =>
        ⟨negative, [], ds⟩
  let capitals : Numerals := { plain with digits := plain.digits.map Char.toUpper }
  return if conversion.isUpper then capitals else plain

/-- The character that an argument stands for. -/
def character (d : Datum) : Except Fault (List Char) :=
  match d with
  | .text s =>
    match s.toList with
    | [c] => .ok [c]
    | _ => .error .notCharacter
  | d =>
    match d.integer? with
    | none => .error .notCharacter
    | some n =>
      if 0 ≤ n && n < 0x110000 then .ok [Char.ofNat n.toNat] else .error .characterRange

/-- Lifts the refusal to show an argument. -/
def shownOrFault (r : Except TooLong String) : Except Fault (List Char) :=
  match r with
  | .ok s => .ok s.toList
  | .error cause => .error (.numeral cause)

/-- The text of an argument by the letter of its directive. -/
def convert (conversion : Char) (place : Nat) (flags : List Char) (left : Bool) (width : Nat)
    (precision : Option Nat) (d : Datum) : Except Fault (List Char) :=
  let alternate := flags.contains '#'
  let cut (cs : List Char) := match precision with
    | some n => cs.take n
    | none => cs
  if conversion = 's' then return column left width (cut (← shownOrFault d.display))
  else if conversion = 'r' then return column left width (cut (← shownOrFault d.shown))
  else if conversion = 'a' then
    return column left width (cut (← shownOrFault (d.shown.map Text.asciiOnly)))
  else if conversion = 'c' then return column left width (← character d)
  else if ['d', 'i', 'u'].contains conversion then
    return (← decimal conversion precision d).layout flags left width
  else if ['o', 'x', 'X'].contains conversion then
    return (← based conversion alternate precision d).layout flags left width
  else if ['e', 'E', 'f', 'F', 'g', 'G'].contains conversion then
    return (← floating conversion alternate precision d).layout flags left width
  else .error (.unsupported conversion place)

/-- A count that is an argument: an integer of so many bits, its sign included. -/
def countArgument (bits : Nat) (beyond : Fault) (supply : Supply) :
    Except Fault (Int × Supply) := do
  let (d, supply) ← supply.next
  match d.integer? with
  | some n =>
    if Word.holds bits n then return (n, supply) else .error beyond
  | none => .error .countNotInteger

/-- The number of characters that a width stands for. The least word of 64 bits has no absolute
value; it stands for none. -/
def columnWidth (width : Int) : Nat := if Word.holds 64 (-width) then width.natAbs else 0

/-- The text of a directive, and the arguments left. A negative width means its absolute value on
the left side of the column, a negative precision means zero. Whether there is memory for a column
shows when the argument has been converted. -/
def Directive.fill (d : Directive) (dictionary : Option (List (Datum × Datum))) (supply : Supply) :
    Except Fault (List Char × Supply) := do
  let supply ← match d.key, dictionary with
    | none, _ => .ok supply
    | some _, none => .error .needsDictionary
    | some key, some entries =>
      match Datum.lookup? entries (.text key) with
      | some value => .ok (.single value)
      | none => .error (.missingKey key)
  let (width, supply) ← match d.width with
    | .absent => .ok ((0 : Int), supply)
    | .fixed n => .ok ((n : Int), supply)
    | .argument => countArgument 64 .widthBeyondRange supply
    | .tooBig => .error .widthTooBig
  let (precision, supply) ← match d.precision with
    | .absent => .ok (none, supply)
    | .fixed n => .ok (some n, supply)
    | .argument => do
      let (n, supply) ← countArgument 32 .precisionBeyondRange supply
      .ok (some n.toNat, supply)
    | .tooBig => .error .precisionTooBig
  match d.conversion with
  | none => .error .incomplete
  | some conversion =>
    let (value, supply) ← supply.next
    let left := d.flags.contains '-' || width < 0
    let size := columnWidth width
    let within := if size ≤ Word.longestRun then size else 0
    let shown ← convert conversion d.place d.flags left within precision value
    roomFor size
    return (shown, supply)

/-- The text of pieces that are filled one after the other. -/
def fillPieces (dictionary : Option (List (Datum × Datum))) (supply : Supply) :
    List Piece → Except Fault (List Char)
  | [] =>
    match supply with
    | .row (_ :: _) => .error .leftOver
    | _ => .ok []
  | .char c :: rest => do return c :: (← fillPieces dictionary supply rest)
  | .openKey :: _ => .error (if dictionary.isNone then .needsDictionary else .openKey)
  | .directive d :: rest => do
    let (cs, supply) ← d.fill dictionary supply
    return cs ++ (← fillPieces dictionary supply rest)

/-- The text of a template with its arguments. A single dictionary that is not empty gives the named
arguments. -/
def fill (template : String) (args : List Datum) : Except Fault String :=
  let ps := pieces template.length template.toList
  let filled := match args with
    | [.dictionary (entry :: entries)] =>
      fillPieces (some (entry :: entries)) (.single (.dictionary (entry :: entries))) ps
    | args => fillPieces none (.row args) ps
  filled.map String.ofList

end LogLayout.Template
