import LogLayout.Datum.Display
import LogLayout.Proofs.Json.Lexing
import LogLayout.Proofs.Outcome
import LogLayout.Json.Reader

/-!
# Values that were read

What is known of a value that came out of a document: its integers have 64 bits and no object has a
name twice (`Decoded`). Both are kept by every step of the reader: the lexemes bring scalars of this
kind, and a member that is put into an object takes the place of one of its name. Every such value
can be shown, since no integer in it is too long.
-/

namespace LogLayout.Json

/-- The values that come out of reading. -/
inductive Decoded : Json → Prop
  | null : Decoded .null
  | bool (b : Bool) : Decoded (.bool b)
  | int {n : Int} (fits : Fits64 n) : Decoded (.int n)
  | float (x : Binary64) : Decoded (.float x)
  | text (s : String) : Decoded (.text s)
  | list {items : List Json} (each : ∀ j ∈ items, Decoded j) : Decoded (.list items)
  | object {members : List (String × Json)} (distinct : (members.map Prod.fst).Nodup)
      (each : ∀ m ∈ members, Decoded m.2) : Decoded (.object members)

/-! ### Lexemes -/

theorem decoded_of_ofInteger {negative : Bool} {ds : List Char} {j : Json}
    (h : ofInteger .strict negative ds = some j) : Decoded j := by
  simp only [ofInteger, Dialect.strict, Bool.false_eq_true, if_false] at h
  generalize (if negative = true then -(Numeral.ofDigits ds : Int) else Numeral.ofDigits ds) = n
    at h
  split at h
  · next fits =>
      obtain rfl := Option.some.inj h
      exact .int (by simpa [Fits64] using fits)
  · rw [ofInteger.finite] at h
    split at h
    · obtain rfl := Option.some.inj h
      exact .float _
    · cases h

theorem decoded_of_readNumber {negative : Bool} {cs rest : List Char} {j : Json}
    (h : readNumber .strict negative cs = some (j, rest)) : Decoded j := by
  simp only [readNumber, Option.bind_eq_bind, Option.bind_eq_some_iff] at h
  obtain ⟨⟨whole, afterWhole⟩, -, ⟨fraction, afterFraction⟩, -, ⟨exponent, after⟩, -, h⟩ := h
  split at h
  · obtain ⟨number, found, same⟩ := Option.bind_eq_some_iff.mp h
    obtain ⟨rfl, -⟩ := Prod.mk.inj (Option.some.inj same)
    exact decoded_of_ofInteger found
  · split at h
    · obtain ⟨rfl, -⟩ := Prod.mk.inj (Option.some.inj h)
      exact .float _
    · cases h

theorem decoded_of_readWord {cs rest : List Char} {j : Json}
    (h : readWord .strict cs = some (j, rest)) : Decoded j := by
  obtain ⟨⟨word, value⟩, mem, found⟩ := List.exists_of_findSome?_eq_some h
  obtain ⟨after, -, same⟩ := Option.map_eq_some_iff.mp found
  obtain ⟨rfl, -⟩ := Prod.mk.inj same
  simp only [words, Dialect.strict, Bool.false_eq_true, if_false, List.append_nil, List.mem_cons,
    Prod.mk.injEq, List.not_mem_nil, or_false] at mem
  obtain ⟨-, rfl⟩ | ⟨-, rfl⟩ | ⟨-, rfl⟩ := mem
  · exact .bool true
  · exact .bool false
  · exact .null

/-- A lexeme that is a value is one that was read. -/
def Lexeme.Sound (l : Lexeme) : Prop := ∀ j, l = .scalar j → Decoded j

theorem Lexeme.sound_of_read {cs rest : List Char} {l : Lexeme}
    (h : read .strict cs = some (l, rest)) : l.Sound := by
  rintro j rfl
  unfold read at h
  split at h
  case h_9 =>
    obtain ⟨⟨j', after⟩, found, same⟩ := Option.map_eq_some_iff.mp h
    obtain ⟨heq, -⟩ := Prod.mk.inj same
    obtain rfl := Lexeme.scalar.inj heq
    split at found
    · exact decoded_of_readNumber found
    · split at found
      · exact decoded_of_readNumber found
      · exact decoded_of_readWord found
  all_goals simp at h

theorem Lexeme.sound_of_readAll {cs : List Char} {ls : List Lexeme}
    (h : readAll .strict cs = some ls) : ∀ l ∈ ls, l.Sound := by
  fun_induction readAll .strict cs generalizing ls with
  | case1 =>
      obtain rfl := Option.some.inj h
      simp
  | case2 => cases h
  | case3 cs c more skip l rest hread ih =>
      obtain ⟨ls', hrest, rfl⟩ := Option.map_eq_some_iff.mp h
      exact List.forall_mem_cons.mpr ⟨sound_of_read hread, ih hrest⟩

/-! ### The reader -/

theorem nodup_insert {members : List (String × Json)} {name : String} {value : Json}
    (h : (members.map Prod.fst).Nodup) : ((insert members name value).map Prod.fst).Nodup :=
  nodup_names_put h

theorem mem_insert {members : List (String × Json)} {name : String} {value : Json}
    {m : String × Json} (h : m ∈ insert members name value) : m ∈ members ∨ m = (name, value) := by
  rw [insert] at h
  split at h
  · obtain ⟨m', mem, rfl⟩ := List.mem_map.mp h
    split
    · exact .inr rfl
    · exact .inl mem
  · simpa using h

/-- What a list or an object that is still open holds was read. -/
def Open.Decoded : Open → Prop
  | list items => ∀ j ∈ items, Json.Decoded j
  | object members _ => (members.map Prod.fst).Nodup ∧ ∀ m ∈ members, Json.Decoded m.2

namespace Reader

/-- All that a reader has taken in was read. -/
structure Decoded (r : Reader) : Prop where
  stack : ∀ o ∈ r.stack, o.Decoded
  result : ∀ j, r.result = some j → Json.Decoded j

variable {r r' : Reader} {j : Json} {d : Dialect} {l : Lexeme}

theorem Decoded.uncons {o : Open} {rest : List Open} (h : r.Decoded) (stack : r.stack = o :: rest) :
    o.Decoded ∧ Decoded ⟨rest, .value, none⟩ := by
  have each := h.stack
  rw [stack, List.forall_mem_cons] at each
  exact ⟨each.1, each.2, nofun⟩

theorem Decoded.complete (h : r.Decoded) (hj : Json.Decoded j) (done : r.complete j = some r') :
    r'.Decoded := by
  obtain ⟨stack, expected, result⟩ := r
  match stack with
  | [] =>
      obtain rfl := Option.some.inj done
      refine ⟨nofun, ?_⟩
      rintro j' ⟨⟩
      exact hj
  | .list items :: rest =>
      obtain rfl := Option.some.inj done
      obtain ⟨each, below⟩ := h.uncons rfl
      have items : ∀ j' ∈ j :: items, Json.Decoded j' := List.forall_mem_cons.mpr ⟨hj, each⟩
      exact ⟨List.forall_mem_cons.mpr ⟨items, below.stack⟩, nofun⟩
  | .object members (some name) :: rest =>
      obtain rfl := Option.some.inj done
      obtain ⟨⟨distinct, each⟩, below⟩ := h.uncons rfl
      have members : ∀ m ∈ insert members name j, Json.Decoded m.2 := by
        intro m mem
        obtain mem | rfl := mem_insert mem
        · exact each m mem
        · exact hj
      exact ⟨List.forall_mem_cons.mpr ⟨⟨nodup_insert distinct, members⟩, below.stack⟩, nofun⟩
  | .object _ none :: _ => cases done

theorem Decoded.start {o : Open} {expected : Expected} (h : r.Decoded) (ho : o.Decoded)
    (done : r.start d o expected = some r') : r'.Decoded := by
  rw [Reader.start] at done
  split at done
  · obtain rfl := Option.some.inj done
    exact ⟨List.forall_mem_cons.mpr ⟨ho, h.stack⟩, nofun⟩
  · cases done

/-- Every step of a reader keeps to what was read. -/
theorem Decoded.step (h : r.Decoded) (hl : l.Sound) (done : r.step d l = some r') :
    r'.Decoded := by
  cases l with
  | openList =>
      have empty : (Open.list []).Decoded := nofun
      exact h.start empty done
  | openObject =>
      have empty : (Open.object [] none).Decoded := ⟨List.nodup_nil, nofun⟩
      exact h.start empty done
  | closeList =>
      simp only [Reader.step] at done
      split at done
      · next items rest stack =>
          split at done
          · obtain ⟨each, below⟩ := h.uncons stack
            exact below.complete (.list fun j mem => each j (List.mem_reverse.mp mem)) done
          · cases done
      · cases done
  | closeObject =>
      simp only [Reader.step] at done
      split at done
      · next members rest stack =>
          split at done
          · obtain ⟨⟨distinct, each⟩, below⟩ := h.uncons stack
            exact below.complete (.object distinct each) done
          · cases done
      · cases done
  | comma =>
      simp only [Reader.step] at done
      split at done
      · split at done
        · obtain rfl := Option.some.inj done
          exact ⟨h.stack, h.result⟩
        · obtain rfl := Option.some.inj done
          exact ⟨h.stack, h.result⟩
        · cases done
      · cases done
  | colon =>
      simp only [Reader.step] at done
      split at done
      · obtain rfl := Option.some.inj done
        exact ⟨h.stack, h.result⟩
      · cases done
  | text s =>
      simp only [Reader.step] at done
      split at done
      · split at done
        · next members rest stack =>
            obtain rfl := Option.some.inj done
            obtain ⟨opened, below⟩ := h.uncons stack
            exact ⟨List.forall_mem_cons.mpr ⟨opened, below.stack⟩, nofun⟩
        · cases done
      · split at done
        · exact h.complete (.text s) done
        · cases done
  | scalar j =>
      rw [Reader.step] at done
      split at done
      · exact h.complete (hl j rfl) done
      · cases done

theorem Decoded.run {ls : List Lexeme} (h : r.Decoded) (hls : ∀ l ∈ ls, l.Sound)
    (done : r.run d ls = some r') : r'.Decoded := by
  induction ls generalizing r with
  | nil =>
      obtain rfl := Option.some.inj done
      exact h
  | cons l ls ih =>
      obtain ⟨hl, hls⟩ := List.forall_mem_cons.mp hls
      rw [Reader.run] at done
      cases next : r.step d l with
      | none => simp [next] at done
      | some r'' =>
          rw [next] at done
          exact ih (h.step hl next) hls done

end Reader

/-- What is read of a document is such a value. -/
theorem decoded_of_read {text : String} {j : Json} (h : read .strict text = some j) :
    Decoded j := by
  simp only [read, Option.bind_eq_bind, Option.bind_eq_some_iff] at h
  obtain ⟨ls, lexed, r, run, result⟩ := h
  have start : Reader.Decoded {} := ⟨nofun, nofun⟩
  exact (start.run (Lexeme.sound_of_readAll lexed) run).result j result

/-! ### As data -/

theorem toEntries_eq (members : List (String × Json)) :
    toEntries members = members.map fun m => (.text m.1, m.2.toDatum) := by
  induction members with
  | nil => rfl
  | cons m members ih => simp [toEntries, ih]

theorem toData_eq (items : List Json) : toData items = items.map toDatum := by
  induction items with
  | nil => rfl
  | cons j items ih => simp [toData, ih]

theorem Fits64.writable {n : Int} (h : Fits64 n) : Numeral.Writable n := by
  have words : n.natAbs < 10 ^ 20 := by
    obtain ⟨least, most⟩ := h
    have below : (Nat.pow 2 63 : Int) < 10 ^ 20 := by decide
    have above : (Nat.pow 2 64 : Int) < 10 ^ 20 := by decide
    omega
  exact Nat.lt_of_lt_of_le words (Nat.pow_le_pow_right (by decide) (by decide))

theorem exists_shownAll {ds : List Datum} (each : ∀ d ∈ ds, ∃ s, d.shown = .ok s) :
    ∃ texts, Datum.shownAll ds = .ok texts := by
  induction ds with
  | nil => exact ⟨[], rfl⟩
  | cons d ds ih =>
      obtain ⟨⟨s, hs⟩, others⟩ := List.forall_mem_cons.mp each
      obtain ⟨texts, htexts⟩ := ih others
      exact ⟨s :: texts, by rw [Datum.shownAll, hs, htexts]; rfl⟩

theorem exists_shownEntries {members : List (String × Json)}
    (each : ∀ m ∈ members, ∃ s, m.2.toDatum.shown = .ok s) :
    ∃ texts, Datum.shownEntries (toEntries members) = .ok texts := by
  induction members with
  | nil => exact ⟨[], rfl⟩
  | cons m members ih =>
      obtain ⟨⟨s, hs⟩, others⟩ := List.forall_mem_cons.mp each
      obtain ⟨texts, htexts⟩ := ih others
      refine ⟨(Text.quoted m.1 ++ ": " ++ s) :: texts, ?_⟩
      rw [toEntries, Datum.shownEntries, Datum.shown, hs, htexts]
      rfl

/-- A value that was read can be shown. -/
theorem Decoded.exists_shown {j : Json} (h : Decoded j) : ∃ s, j.toDatum.shown = .ok s := by
  induction h with
  | null => exact ⟨_, rfl⟩
  | bool b => exact ⟨_, rfl⟩
  | int fits => exact Numeral.exists_write_eq_ok_iff.mpr fits.writable
  | float x => exact ⟨_, rfl⟩
  | text s => exact ⟨_, rfl⟩
  | list each ih =>
      rw [toDatum, Datum.shown, toData_eq]
      exact Outcome.exists_return_eq_ok_iff.mpr (exists_shownAll (by simpa using ih))
  | object distinct each ih =>
      rw [toDatum, Datum.shown]
      exact Outcome.exists_return_eq_ok_iff.mpr (exists_shownEntries ih)

theorem Decoded.exists_display {j : Json} (h : Decoded j) : ∃ s, j.toDatum.display = .ok s := by
  cases j with
  | text s => exact ⟨s, rfl⟩
  | _ => exact h.exists_shown

end LogLayout.Json
