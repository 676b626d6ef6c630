/-!
# Runs of characters

Readers take the longest run of a class of characters. What they take is known when the text behind
the run does not begin with the class.
-/

namespace LogLayout

/-- A text does not begin with a character of a class. -/
def Stops (p : Char → Bool) (cs : List Char) : Prop := ∀ c, cs.head? = some c → p c = false

theorem stops_nil (p : Char → Bool) : Stops p [] := by
  intro c hc
  cases hc

theorem stops_cons {p : Char → Bool} {c : Char} {cs : List Char} (h : p c = false) :
    Stops p (c :: cs) := by
  intro d hd
  obtain rfl := Option.some.inj hd
  exact h

theorem Stops.append {p : Char → Bool} {cs r : List Char} (h : Stops p cs) (hr : Stops p r) :
    Stops p (cs ++ r) := by
  cases cs with
  | nil => exact hr
  | cons c cs => exact h

/-- A text that does not go on with a class does not go on with a part of it. -/
theorem Stops.of_imp {p q : Char → Bool} {cs : List Char} (h : Stops p cs)
    (imp : ∀ {c : Char}, q c = true → p c = true) : Stops q cs := by
  intro c hc
  rw [Bool.eq_false_iff]
  intro hq
  exact absurd (imp hq) (by simp [h c hc])

/-- A run of a class that is followed by nothing of the class is taken as a whole. -/
theorem takeWhile_append_of_stops {p : Char → Bool} {cs r : List Char}
    (h : ∀ c ∈ cs, p c = true) (hr : Stops p r) : (cs ++ r).takeWhile p = cs := by
  rw [List.takeWhile_append_of_pos h]
  cases r with
  | nil => simp
  | cons c r => simp [hr c rfl]

theorem dropWhile_append_of_stops {p : Char → Bool} {cs r : List Char}
    (h : ∀ c ∈ cs, p c = true) (hr : Stops p r) : (cs ++ r).dropWhile p = r := by
  rw [List.dropWhile_append_of_pos h]
  cases r with
  | nil => simp
  | cons c r => simp [hr c rfl]

/-- Where two runs of a class end within one text, they are the same. -/
theorem append_inj_of_stops {p : Char → Bool} {cs cs' r r' : List Char}
    (h : ∀ c ∈ cs, p c = true) (h' : ∀ c ∈ cs', p c = true) (hr : Stops p r) (hr' : Stops p r')
    (same : cs ++ r = cs' ++ r') : cs = cs' ∧ r = r' := by
  have run := congrArg (List.takeWhile p) same
  rw [takeWhile_append_of_stops h hr, takeWhile_append_of_stops h' hr'] at run
  subst run
  exact ⟨rfl, List.append_cancel_left same⟩

end LogLayout
