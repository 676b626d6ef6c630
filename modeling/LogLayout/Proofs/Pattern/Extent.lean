import LogLayout.Pattern.Scan

/-!
# Reading option lists in place

An option list can be read in the text in which it stands, up to the place of the parenthesis that
closes it, without being cut out first. `Extent.read` does so character by character. Before it
looks at a character it makes sure that the place lies before the end, but for one case: the quote
that closes a value is searched for in all of the text.

A `Reading` records what is done on the way. That reading goes forward (`Extent.ensures_option`) is
what makes the loop over the options end.
-/

namespace LogLayout

/-! ### Recorded readings -/

/-- What a reader does with a text. -/
inductive Act where
  /-- It looks at the character at a place. -/
  | looks (place : Nat)
  /-- It moves on to a place. -/
  | stands (place : Nat)
  /-- It takes what lies between two quotes as a value. -/
  | quotes (opening closing : Nat)
  deriving DecidableEq, Repr

/-- Why a reader does not come to an end: the text is at fault, or a quote that it relies on is not
found. -/
inductive Halt where
  | stop (cause : ScanStop)
  | noQuote
  deriving DecidableEq, Repr

/-- What a reader does, one act after the other, and what comes out. -/
structure Reading (α : Type) where
  acts : List Act
  outcome : Except Halt α

namespace Reading

variable {α β : Type}

/-- Goes on with the value that came out, which is known to have done so. -/
def andThen (r : Reading α) (f : (a : α) → r.outcome = .ok a → Reading β) : Reading β :=
  match h : r.outcome with
  | .error halt => ⟨r.acts, .error halt⟩
  | .ok a => ⟨r.acts ++ (f a h).acts, (f a h).outcome⟩

instance : Monad Reading where
  pure a := ⟨[], .ok a⟩
  bind r f := r.andThen fun a _ => f a

/-- Does one thing. -/
def act (a : Act) : Reading Unit := ⟨[a], .ok ()⟩

/-- Does nothing more. -/
def halt (h : Halt) : Reading α := ⟨[], .error h⟩

/-- Refuses the text for what is at a place. -/
def reject (fault : Fault) (place : Nat) : Reading α := halt (.stop (.rejected ⟨fault, place⟩))

/-- Whatever comes out satisfies a condition. -/
def Ensures (r : Reading α) (post : α → Prop) : Prop := ∀ a, r.outcome = .ok a → post a

/-- All acts of a reading are good, and this is what comes out. -/
structure Ends (r : Reading α) (good : Act → Prop) (o : Except Halt α) : Prop where
  acts : ∀ a ∈ r.acts, good a
  outcome : r.outcome = o

variable {r : Reading α} {f : α → Reading β} {a : α} {mid : α → Prop} {post : β → Prop}
  {good : Act → Prop} {o : Except Halt β} {h : Halt}

theorem Ensures.pure {b : β} (holds : post b) : (Pure.pure b : Reading β).Ensures post := by
  intro b' out
  obtain rfl := Except.ok.inj out
  exact holds

theorem Ensures.bind (first : r.Ensures mid) (rest : ∀ a, mid a → (f a).Ensures post) :
    (r >>= f).Ensures post := by
  intro b out
  change (r.andThen fun a _ => f a).outcome = .ok b at out
  rw [andThen] at out
  split at out
  · cases out
  · next a found => exact rest a (first a found) b out

theorem Ensures.act {a : Act} {k : Unit → Reading β} (rest : (k ()).Ensures post) :
    (Reading.act a >>= k).Ensures post := rest

theorem Ensures.of_any : r.Ensures fun _ => True := fun _ _ => trivial

theorem ensures_halt : (halt h : Reading β).Ensures post := by
  intro b out
  cases out

theorem Ends.pure (b : β) : (Pure.pure b : Reading β).Ends good (.ok b) where
  acts a mem := by cases mem
  outcome := rfl

theorem Ends.andThen {g : (a : α) → r.outcome = .ok a → Reading β} (first : r.Ends good (.ok a))
    (rest : (g a first.outcome).Ends good o) : (r.andThen g).Ends good o := by
  have out := first.outcome
  rw [Reading.andThen]
  split
  · next stopped =>
      rw [stopped] at out
      cases out
  · next b found =>
      obtain rfl := Except.ok.inj (found.symm.trans out)
      exact ⟨List.forall_mem_append.mpr ⟨first.acts, rest.acts⟩, rest.outcome⟩

theorem Ends.andThen_of_error {g : (a : α) → r.outcome = .ok a → Reading β}
    (first : r.Ends good (.error h)) : (r.andThen g).Ends good (.error h) := by
  have out := first.outcome
  rw [Reading.andThen]
  split
  · next stopped =>
      obtain rfl := Except.error.inj (stopped.symm.trans out)
      exact ⟨first.acts, rfl⟩
  · next b found =>
      rw [found] at out
      cases out

theorem Ends.bind (first : r.Ends good (.ok a)) (rest : (f a).Ends good o) :
    (r >>= f).Ends good o :=
  first.andThen rest

theorem Ends.bind_of_error (first : r.Ends good (.error h)) : (r >>= f).Ends good (.error h) :=
  first.andThen_of_error

theorem Ends.act {a : Act} {k : Unit → Reading β} (fine : good a) (rest : (k ()).Ends good o) :
    (Reading.act a >>= k).Ends good o where
  acts := List.forall_mem_cons.mpr ⟨fine, rest.acts⟩
  outcome := rest.outcome

theorem ends_halt : (halt h : Reading β).Ends good (.error h) where
  acts a mem := by cases mem
  outcome := rfl

end Reading

/-! ### The reader -/

/-- A text and the place where an option list in it ends. -/
structure Extent where
  text : List Char
  close : Nat

namespace Extent

open Reading

variable (x : Extent)

/-- The characters between two places. -/
def slice (start stop : Nat) : List Char := (x.text.drop start).take (stop - start)

/-- The character at a place, if it lies before the end. -/
def peek (pos : Nat) : Reading (Option Char) :=
  if pos < x.close then do
    act (.looks pos)
    return x.text[pos]?
  else return none

/-- Goes on over characters of a class. -/
def skip (p : Char → Bool) (pos : Nat) : Reading Nat :=
  if pos < x.close then do
    act (.looks pos)
    if x.text[pos]?.any p then
      act (.stands (pos + 1))
      skip p (pos + 1)
    else return pos
  else return pos
termination_by x.close - pos

/-- The place of the next quote of a kind. The search goes on to the end of the text. -/
def find (quote : Char) (pos : Nat) : Reading Nat :=
  if _h : pos < x.text.length then do
    act (.looks pos)
    if x.text[pos] = quote then return pos
    else find quote (pos + 1)
  else halt .noQuote
termination_by x.text.length - pos

/-- The name at a place, and the place behind it. -/
def name (missing : Fault) (pos : Nat) : Reading (String × Nat) := do
  if (← x.peek pos).any isNameStart then
    let next ← x.skip isNameChar pos
    return (String.ofList (x.slice pos next), next)
  else reject missing pos

/-- The text between the quote at a place and the next one of its kind. -/
def quoted (quote : Char) (pos : Nat) : Reading (Literal × Nat) := do
  let closing ← x.find quote (pos + 1)
  act (.quotes pos closing)
  act (.stands (closing + 1))
  return (Literal.ofQuoted (x.slice (pos + 1) closing), closing + 1)

/-- The integer of a row of digits. -/
def integer (negative : Bool) (ds : List Char) : Reading Literal :=
  if Numeral.digitLimit < ds.length then halt (.stop (.numeralTooLong ds.length))
  else return Literal.ofDigits negative ds

/-- The integer at a place where its first digit stands, or a minus sign in front of it. -/
def numeral (negative : Bool) (pos : Nat) : Reading (Literal × Nat) := do
  act (.stands (pos + 1))
  let next ← x.skip Char.isDigit (pos + 1)
  if (← x.peek next).any isNameChar then reject .malformedInteger pos
  else
    let n ← integer negative (x.slice (if negative then pos + 1 else pos) next)
    return (n, next)

/-- The word at a place, which can only be `true` or `false`. -/
def word (pos : Nat) : Reading (Literal × Nat) := do
  let (word, next) ← x.name .missingOptionValue pos
  if word = "true" then return (.flag true, next)
  else if word = "false" then return (.flag false, next)
  else reject (.unquotedValue word) pos

/-- The value at a place. -/
def value (pos : Nat) : Reading (Literal × Nat) := do
  match ← x.peek pos with
  | none => reject .missingOptionValue pos
  | some first =>
    if isQuote first then x.quoted first pos
    else if first.isDigit then x.numeral false pos
    else if first = '-' then
      if (← x.peek (pos + 1)).any Char.isDigit then x.numeral true pos
      else reject .missingOptionValue pos
    else x.word pos

/-- The next option from a place on, and the place behind it and the blanks that follow it. -/
def option (pos : Nat) : Reading (WrittenOption × Nat) := do
  let nameAt ← x.skip Text.isBlank pos
  let (name, afterName) ← x.name .missingOptionName nameAt
  let sign ← x.skip Text.isBlank afterName
  if (← x.peek sign) = some '=' then
    act (.stands (sign + 1))
    let valueAt ← x.skip Text.isBlank (sign + 1)
    let (value, afterValue) ← x.value valueAt
    return (⟨name, value, nameAt⟩, ← x.skip Text.isBlank afterValue)
  else return (⟨name, .flag true, nameAt⟩, ← x.skip Text.isBlank sign)

section Forward

variable {x : Extent} {p : Char → Bool} {quote : Char} {missing : Fault} {negative : Bool}
  {pos : Nat}

theorem ensures_skip : (x.skip p pos).Ensures (pos ≤ ·) := by
  fun_induction x.skip p pos with
  | case1 pos before ih =>
      apply Ensures.act
      split
      · apply Ensures.act
        intro next out
        exact Nat.le_of_succ_le (ih next out)
      · exact .pure (Nat.le_refl pos)
  | case2 pos => exact .pure (Nat.le_refl pos)

theorem ensures_find : (x.find quote pos).Ensures (pos ≤ ·) := by
  fun_induction x.find quote pos with
  | case1 pos before ih =>
      apply Ensures.act
      split
      · exact .pure (Nat.le_refl pos)
      · intro next out
        exact Nat.le_of_succ_le (ih next out)
  | case2 pos => exact ensures_halt

theorem ensures_name : (x.name missing pos).Ensures (pos ≤ ·.2) := by
  refine .bind .of_any fun first _ => ?_
  split
  · exact .bind ensures_skip fun next le => .pure le
  · exact ensures_halt

theorem ensures_quoted : (x.quoted quote pos).Ensures (pos ≤ ·.2) := by
  refine .bind ensures_find fun closing le => .act (.act (.pure ?_))
  show pos ≤ closing + 1
  omega

theorem ensures_numeral : (x.numeral negative pos).Ensures (pos ≤ ·.2) := by
  refine .act (.bind ensures_skip fun next le => .bind .of_any fun behind _ => ?_)
  split
  · exact ensures_halt
  · exact .bind .of_any fun n _ => .pure (Nat.le_of_succ_le le)

theorem ensures_word : (x.word pos).Ensures (pos ≤ ·.2) := by
  refine .bind ensures_name fun r le => ?_
  dsimp only
  split
  · exact .pure le
  · split
    · exact .pure le
    · exact ensures_halt

theorem ensures_value : (x.value pos).Ensures (pos ≤ ·.2) := by
  refine .bind .of_any fun found _ => ?_
  split
  · exact ensures_halt
  · split
    · exact ensures_quoted
    · split
      · exact ensures_numeral
      · split
        · refine .bind .of_any fun second _ => ?_
          split
          · exact ensures_numeral
          · exact ensures_halt
        · exact ensures_word

/-- Reading an option goes forward. -/
theorem ensures_option : (x.option pos).Ensures (pos ≤ ·.2) := by
  refine .bind ensures_skip fun nameAt toName => .bind ensures_name fun r pastName =>
    .bind ensures_skip fun sign toSign => .bind .of_any fun found _ => ?_
  have before : pos ≤ sign := Nat.le_trans toName (Nat.le_trans pastName toSign)
  split
  · refine .act (.bind ensures_skip fun valueAt toValue => .bind ensures_value fun r' pastValue =>
      .bind ensures_skip fun next toNext => .pure ?_)
    show pos ≤ next
    omega
  · exact .bind ensures_skip fun next toNext => .pure (Nat.le_trans before toNext)

end Forward

/-- Options up to the end, one at least, with commas between them. -/
def row (x : Extent) (pos : Nat) : Reading (List WrittenOption × Nat) :=
  (x.option pos).andThen fun r _h =>
    if r.2 < x.close then do
      if (← x.peek r.2) = some ',' then
        act (.stands (r.2 + 1))
        let (options, last) ← row x (r.2 + 1)
        return (r.1 :: options, last)
      else reject .missingSeparator r.2
    else return ([r.1], r.2)
termination_by x.close - pos
decreasing_by
  have forward := ensures_option r _h
  omega

/-- The option list from a place up to the end, which may be empty, and the place where it ends. -/
def read (pos : Nat) : Reading (List WrittenOption × Nat) := do
  let start ← x.skip Text.isBlank pos
  if x.close ≤ start then return ([], start)
  else x.row start

end Extent

end LogLayout
