import LogLayout.Proofs.Pattern.Grammar

/-!
# The extent of an option list

An option list ends at the first closing parenthesis outside quotes, and it is found before any
option is read. `splitOptions_eq_ok_iff` says that the text in front of it is `Enclosed`: every
quote in it is closed, and outside quotes it holds no closing parenthesis. `OptionList.enclosed`
says that every option list of the grammar is such a text, so looking for the end first never cuts
one short. `splitOptions_eq_error_iff` says which texts have no such end.
-/

namespace LogLayout

namespace Grammar

variable {fits : Nat → Prop}

/-- No character of a text is a quote or a closing parenthesis. -/
def Inert (cs : List Char) : Prop := ∀ c ∈ cs, isQuote c = false ∧ c ≠ ')'

instance (cs : List Char) : Decidable (Inert cs) :=
  decidable_of_iff (cs.all (fun c => !isQuote c && c != ')') = true) (by simp [Inert])

/-- Every quote in a text is closed, and outside quotes there is no closing parenthesis. -/
inductive Enclosed : List Char → Prop
  | nil : Enclosed []
  | plain {c : Char} {t : List Char} (noQuote : isQuote c = false) (noEnd : c ≠ ')')
      (rest : Enclosed t) : Enclosed (c :: t)
  | quoted {q : Char} {s t : List Char} (quote : isQuote q = true) (inside : q ∉ s)
      (rest : Enclosed t) : Enclosed (q :: (s ++ q :: t))

/-- An option list does not end: every quote in what follows is closed and there is no closing
parenthesis, or a quote stands open from some place on. -/
inductive Unclosed (sigilAt offset : Nat) : List Char → Rejection → Prop
  | parenthesis {l : List Char} (enclosed : Enclosed l) :
      Unclosed sigilAt offset l ⟨.missingParenthesis, sigilAt⟩
  | quote {l r : List Char} {q : Char} (enclosed : Enclosed l) (quote : isQuote q = true)
      (unclosed : q ∉ r) : Unclosed sigilAt offset (l ++ q :: r) ⟨.missingQuote, offset + l.length⟩

theorem Inert.of_isNameChar {cs : List Char} (h : ∀ c ∈ cs, isNameChar c = true) : Inert cs := by
  intro c hc
  refine ⟨isQuote_of_isNameChar (h c hc), ?_⟩
  rintro rfl
  exact absurd (h _ hc) (by decide)

theorem Inert.of_blanks {b : List Char} (h : Blanks b) : Inert b := by
  intro c hc
  refine ⟨isQuote_of_isBlank (h c hc), ?_⟩
  rintro rfl
  exact absurd (h _ hc) (by decide)

theorem Name.inert {n : List Char} (h : Name n) : Inert n := .of_isNameChar h.isNameChar

theorem Digits.inert {ds : List Char} (h : Digits ds) : Inert ds :=
  .of_isNameChar fun c hc => isNameChar_of_isDigit (h.isDigit c hc)

theorem Inert.cons {c : Char} {cs : List Char} (h : isQuote c = false ∧ c ≠ ')')
    (hcs : Inert cs) : Inert (c :: cs) := by
  intro d hd
  rcases List.mem_cons.mp hd with rfl | hd
  · exact h
  · exact hcs d hd

theorem Inert.enclosed_append {cs t : List Char} (h : Inert cs) (ht : Enclosed t) :
    Enclosed (cs ++ t) := by
  induction cs with
  | nil => exact ht
  | cons c cs ih =>
      obtain ⟨noQuote, noEnd⟩ := h c List.mem_cons_self
      exact .plain noQuote noEnd (ih fun d hd => h d (List.mem_cons_of_mem c hd))

theorem Inert.enclosed {cs : List Char} (h : Inert cs) : Enclosed cs := by
  have := h.enclosed_append .nil
  rwa [List.append_nil] at this

theorem Enclosed.append {s t : List Char} (hs : Enclosed s) (ht : Enclosed t) :
    Enclosed (s ++ t) := by
  induction hs with
  | nil => exact ht
  | plain noQuote noEnd _ ih => exact .plain noQuote noEnd ih
  | quoted quote inside _ ih =>
      rw [List.cons_append, List.append_assoc, List.cons_append]
      exact .quoted quote inside ih

/-- What an enclosed text begins with: a character that means nothing here, or a quoted stretch. -/
theorem enclosed_cons_iff {c : Char} {t : List Char} :
    Enclosed (c :: t) ↔ isQuote c = false ∧ c ≠ ')' ∧ Enclosed t ∨
      isQuote c = true ∧ ∃ s r, t = s ++ c :: r ∧ c ∉ s ∧ Enclosed r := by
  constructor
  · intro h
    generalize hu : c :: t = u at h
    cases h with
    | nil => cases hu
    | plain noQuote noEnd rest =>
        obtain ⟨rfl, rfl⟩ := List.cons.inj hu
        exact .inl ⟨noQuote, noEnd, rest⟩
    | quoted quote inside rest =>
        obtain ⟨rfl, rfl⟩ := List.cons.inj hu
        exact .inr ⟨quote, _, _, rfl, inside, rest⟩
  · rintro (⟨noQuote, noEnd, rest⟩ | ⟨quote, s, r, rfl, inside, rest⟩)
    · exact .plain noQuote noEnd rest
    · exact .quoted quote inside rest

/-- Behind characters that are no quotes the text is still enclosed. -/
theorem Enclosed.of_append {cs t : List Char} (h : Enclosed (cs ++ t))
    (hcs : ∀ c ∈ cs, isQuote c = false) : Enclosed t := by
  induction cs with
  | nil => exact h
  | cons c cs ih =>
      rcases enclosed_cons_iff.mp h with ⟨_, _, rest⟩ | ⟨quote, _⟩
      · exact ih rest fun d hd => hcs d (List.mem_cons_of_mem c hd)
      · exact absurd quote (by simp [hcs c List.mem_cons_self])

/-- A quote that is opened in an enclosed text is closed in it. -/
theorem Enclosed.exists_closing {q : Char} {t : List Char} (h : Enclosed (q :: t))
    (hq : isQuote q = true) : ∃ s r, t = s ++ q :: r ∧ q ∉ s ∧ Enclosed r := by
  rcases enclosed_cons_iff.mp h with ⟨noQuote, _⟩ | ⟨_, closing⟩
  · exact absurd hq (by simp [noQuote])
  · exact closing

/-- Every text is enclosed, or it has a closing parenthesis or an open quote behind a part that is
enclosed. -/
theorem enclosed_or_ends (t : List Char) :
    Enclosed t ∨ (∃ l r, Enclosed l ∧ t = l ++ ')' :: r) ∨
      ∃ l q r, Enclosed l ∧ isQuote q = true ∧ q ∉ r ∧ t = l ++ q :: r := by
  induction hn : t.length using Nat.strongRecOn generalizing t with
  | ind n ih =>
      cases t with
      | nil => exact .inl .nil
      | cons c t =>
          -- What is enclosed up to here, put before what is known of the text behind it.
          have extend {l s : List Char} (enclosed : Enclosed l) (whole : c :: t = l ++ s)
              (shorter : s.length < n) :
              Enclosed (c :: t) ∨ (∃ l r, Enclosed l ∧ c :: t = l ++ ')' :: r) ∨
                ∃ l q r, Enclosed l ∧ isQuote q = true ∧ q ∉ r ∧ c :: t = l ++ q :: r := by
            rw [whole]
            rcases ih _ shorter s rfl with all | ⟨l', r, first, rfl⟩ | ⟨l', q, r, first, quote⟩
            · exact .inl (enclosed.append all)
            · exact .inr (.inl ⟨l ++ l', r, enclosed.append first, by simp⟩)
            · obtain ⟨quote, unclosed, rfl⟩ := quote
              exact .inr (.inr ⟨l ++ l', q, r, enclosed.append first, quote, unclosed, by simp⟩)
          by_cases noEnd : c = ')'
          · exact .inr (.inl ⟨[], t, .nil, by rw [noEnd, List.nil_append]⟩)
          · cases hq : isQuote c with
            | false => exact extend (.plain hq noEnd .nil) (s := t) rfl (by simp [← hn])
            | true =>
                by_cases mem : c ∈ t
                · obtain ⟨s, r, rfl, inside⟩ := List.eq_append_cons_of_mem mem
                  refine extend (.quoted hq inside .nil) (s := r) (by simp) ?_
                  simp only [← hn, List.length_cons, List.length_append]
                  omega
                · exact .inr (.inr ⟨[], c, t, .nil, hq, mem, rfl⟩)

theorem ValueText.enclosed {v : List Char} {value : Literal} (h : ValueText fits v value) :
    Enclosed v := by
  cases h with
  | numeral digits => exact digits.inert.enclosed
  | negative digits => exact (digits.inert.cons (by decide)).enclosed
  | @char q c quote inside =>
      have closed : Enclosed (q :: ([c] ++ q :: [])) :=
        .quoted quote (by simpa using inside.symm) .nil
      exact closed
  | text quote inside => exact .quoted quote inside .nil
  | yes => exact Inert.enclosed (by decide)
  | no => exact Inert.enclosed (by decide)

theorem OptionText.enclosed {s : List Char} {o : String × Literal} (h : OptionText fits s o) :
    Enclosed s := by
  cases h with
  | flag name => exact name.inert.enclosed
  | assignment name before after text =>
      exact name.inert.enclosed_append ((Inert.of_blanks before).enclosed_append
        (.plain (by decide) (by decide) ((Inert.of_blanks after).enclosed_append text.enclosed)))

theorem OptionRow.enclosed {t : List Char} {os : List (String × Literal)}
    (h : OptionRow fits t os) : Enclosed t := by
  induction h with
  | last before option after =>
      exact (Inert.of_blanks before).enclosed_append
        (option.enclosed.append (Inert.of_blanks after).enclosed)
  | more before option after _ ih =>
      exact (Inert.of_blanks before).enclosed_append (option.enclosed.append
        ((Inert.of_blanks after).enclosed_append (.plain (by decide) (by decide) ih)))

theorem OptionList.enclosed {t : List Char} {os : List (String × Literal)}
    (h : OptionList fits t os) : Enclosed t := by
  cases h with
  | empty blanks => exact (Inert.of_blanks blanks).enclosed
  | options row => exact row.enclosed

end Grammar

open Grammar

/-- Inside quotes everything up to the next quote of the kind is passed over. -/
theorem splitOptions_quoted {sigilAt quoteAt offset : Nat} {q : Char} {s t : List Char}
    (hs : q ∉ s) :
    splitOptions sigilAt (some (q, quoteAt)) offset (s ++ q :: t) =
      (splitOptions sigilAt none (offset + s.length + 1) t).map
        fun r => (s ++ q :: r.1, r.2) := by
  induction s generalizing offset with
  | nil =>
      simp only [List.nil_append, splitOptions, if_true, List.length_nil, Nat.add_zero]
      cases splitOptions sigilAt none (offset + 1) t <;> rfl
  | cons c s ih =>
      obtain ⟨hc, hs⟩ := not_or.mp (mt List.mem_cons.mpr hs)
      simp only [List.cons_append, splitOptions, if_neg (Ne.symm hc), ih hs, List.length_cons]
      rw [show offset + 1 + s.length + 1 = offset + (s.length + 1) + 1 by omega]
      cases splitOptions sigilAt none (offset + (s.length + 1) + 1) t <;> rfl

/-- Past an enclosed text the list is still open and no quote is. -/
theorem splitOptions_append {sigilAt offset : Nat} {l t : List Char} (h : Enclosed l) :
    splitOptions sigilAt none offset (l ++ t) =
      (splitOptions sigilAt none (offset + l.length) t).map fun r => (l ++ r.1, r.2) := by
  induction h generalizing offset with
  | nil =>
      simp only [List.nil_append, List.length_nil, Nat.add_zero]
      cases splitOptions sigilAt none offset t <;> rfl
  | @plain c l noQuote noEnd _ ih =>
      simp only [List.cons_append, splitOptions, if_neg noEnd, opening?, noQuote, Bool.false_eq_true,
        if_false, ih, List.length_cons]
      rw [show offset + 1 + l.length = offset + (l.length + 1) by omega]
      cases splitOptions sigilAt none (offset + (l.length + 1)) t <;> rfl
  | @quoted q s l quote inside _ ih =>
      have noEnd : q ≠ ')' := by
        rintro rfl
        exact absurd quote (by decide)
      simp only [List.cons_append, List.append_assoc, splitOptions, if_neg noEnd, opening?, quote,
        if_true, splitOptions_quoted inside, ih, List.length_cons, List.length_append]
      rw [show offset + 1 + s.length + 1 + l.length = offset + (s.length + (l.length + 1) + 1) by
        omega]
      cases splitOptions sigilAt none (offset + (s.length + (l.length + 1) + 1)) t <;> rfl

theorem splitOptions_of_enclosed {sigilAt offset : Nat} {inside after : List Char}
    (h : Enclosed inside) :
    splitOptions sigilAt none offset (inside ++ ')' :: after) = .ok (inside, after) := by
  rw [splitOptions_append h, splitOptions, if_pos rfl]
  simp [Except.map]

/-- A text that is enclosed once the quote that stands open, if any, has been closed in it. -/
def EnclosedFrom : Option (Char × Nat) → List Char → Prop
  | none, inside => Enclosed inside
  | some (q, _), inside => ∃ s r, inside = s ++ q :: r ∧ q ∉ s ∧ Enclosed r

theorem enclosedFrom_of_splitOptions {sigilAt offset : Nat} {open? : Option (Char × Nat)}
    {text inside after : List Char}
    (h : splitOptions sigilAt open? offset text = .ok (inside, after)) :
    EnclosedFrom open? inside := by
  fun_induction splitOptions sigilAt open? offset text generalizing inside with
  | case1 | case2 | case6 => cases h
  | case3 _ _ _ _ _ _ hs =>
      rw [hs] at h
      cases h
  | case4 offset c rest q quoteAt inside' after' hs ih =>
      rw [hs] at h
      obtain ⟨rfl, rfl⟩ := Prod.mk.inj (Except.ok.inj h)
      have behind := ih hs
      by_cases hc : c = q
      · rw [if_pos hc] at behind
        exact ⟨[], inside', by rw [hc, List.nil_append], List.not_mem_nil, behind⟩
      · rw [if_neg hc] at behind
        obtain ⟨s, r, rfl, inside, rest⟩ := behind
        exact ⟨c :: s, r, rfl, by simp [Ne.symm hc, inside], rest⟩
  | case5 =>
      obtain ⟨rfl, rfl⟩ := Prod.mk.inj (Except.ok.inj h)
      exact .nil
  | case7 offset c rest noEnd inside' after' hs ih =>
      obtain ⟨rfl, rfl⟩ := Prod.mk.inj (Except.ok.inj h)
      have behind := ih hs
      cases hq : isQuote c with
      | false =>
          rw [opening?, hq] at behind
          exact .plain hq noEnd behind
      | true =>
          rw [opening?, hq] at behind
          obtain ⟨s, r, rfl, inside, rest⟩ := behind
          exact .quoted hq inside rest

/-- The closing parenthesis of an option list is the first one outside quotes, and every quote
before it is closed before it. -/
theorem splitOptions_eq_ok_iff {sigilAt offset : Nat} {text inside after : List Char} :
    splitOptions sigilAt none offset text = .ok (inside, after) ↔
      Enclosed inside ∧ text = inside ++ ')' :: after := by
  constructor
  · intro h
    exact ⟨enclosedFrom_of_splitOptions h, splitOptions_eq h⟩
  · rintro ⟨enclosed, rfl⟩
    exact splitOptions_of_enclosed enclosed

theorem splitOptions_of_open {sigilAt quoteAt offset : Nat} {q : Char} {r : List Char}
    (h : q ∉ r) :
    splitOptions sigilAt (some (q, quoteAt)) offset r = .error ⟨.missingQuote, quoteAt⟩ := by
  induction r generalizing offset with
  | nil => rfl
  | cons c r ih =>
      obtain ⟨hc, hr⟩ := not_or.mp (mt List.mem_cons.mpr h)
      simp only [splitOptions, if_neg (Ne.symm hc), ih hr]

theorem splitOptions_of_unclosed {sigilAt offset : Nat} {t : List Char} {rejection : Rejection}
    (h : Unclosed sigilAt offset t rejection) :
    splitOptions sigilAt none offset t = .error rejection := by
  cases h with
  | parenthesis enclosed =>
      rw [← List.append_nil t, splitOptions_append enclosed]
      rfl
  | @quote l r q enclosed quote unclosed =>
      have noEnd : q ≠ ')' := by
        rintro rfl
        exact absurd quote (by decide)
      rw [splitOptions_append enclosed, splitOptions, if_neg noEnd]
      simp only [opening?, quote, if_true, splitOptions_of_open unclosed]
      rfl

/-- No end is found for an option list exactly when it has none. -/
theorem splitOptions_eq_error_iff {sigilAt offset : Nat} {t : List Char} {rejection : Rejection} :
    splitOptions sigilAt none offset t = .error rejection ↔
      Unclosed sigilAt offset t rejection := by
  constructor
  · intro h
    have found {rejection' : Rejection} (unclosed : Unclosed sigilAt offset t rejection') :
        Unclosed sigilAt offset t rejection := by
      rw [splitOptions_of_unclosed unclosed] at h
      exact Except.error.inj h ▸ unclosed
    rcases enclosed_or_ends t with all | ⟨l, r, enclosed, rfl⟩ | ⟨l, q, r, enclosed, ends⟩
    · exact found (.parenthesis all)
    · rw [splitOptions_of_enclosed enclosed] at h
      cases h
    · obtain ⟨quote, unclosed, rfl⟩ := ends
      exact found (.quote enclosed quote unclosed)
  · exact splitOptions_of_unclosed

end LogLayout
