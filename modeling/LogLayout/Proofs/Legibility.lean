import LogLayout.Proofs.Runs
import LogLayout.Proofs.Value

/-!
# Rendered fields can be told apart

The text of a row of fields holds no lengths and escapes nothing, and yet it can be read in one way
only, as long as no name holds an equals sign and no text holds the quote. Its first character tells
which kind of value a text is; where a value ends is told by the closing quote or bracket, or for a
numeral by the first character that is not a digit.

So what has to be shown of a value is a little more than that its text belongs to it alone: the
text must also be found in front of whatever follows it (`ToldApart`). This passes from the items of
a row to the row (`eq_of_row_append_eq`), hence to nested values and to fields, and the result is
`Field.renderAll_tells_apart`.
-/

namespace LogLayout

open Numeral (Writable)

/-! ### Things with different texts -/

/-- Two things are told apart by their texts, whatever follows these. Only a digit cannot follow, as
it would prolong a numeral. -/
def ToldApart {α ε : Type} (render : α → Except ε String) (a b : α) : Prop :=
  ∀ {s t : String} {r r' : List Char}, render a = .ok s → render b = .ok t →
    Stops Char.isDigit r → Stops Char.isDigit r' → s.toList ++ r = t.toList ++ r' → a = b ∧ r = r'

namespace Numeral

theorem toList_of_write {n : Int} {s : String} (h : write n = .ok s) : s.toList = signed n := by
  rw [write] at h
  split at h
  · cases h
  · obtain rfl := Except.ok.inj h
    rw [String.toList_ofList]

/-- A numeral begins with a minus sign or a digit. -/
theorem exists_signed_eq_cons (n : Int) :
    ∃ c cs, signed n = c :: cs ∧ (c = '-' ∨ c.isDigit = true) := by
  rw [signed]
  split
  · exact ⟨_, _, rfl, .inl rfl⟩
  · obtain ⟨d, ds, hd, digit⟩ := exists_digits_eq_cons n.natAbs
    exact ⟨d, ds, hd, .inr digit⟩

theorem digits_append_inj {n m : Nat} {r r' : List Char} (hr : Stops Char.isDigit r)
    (hr' : Stops Char.isDigit r') (same : digits n ++ r = digits m ++ r') : n = m ∧ r = r' := by
  obtain ⟨digits_eq, rest_eq⟩ := append_inj_of_stops (fun _ => isDigit_of_mem_digits)
    (fun _ => isDigit_of_mem_digits) hr hr' same
  exact ⟨by rw [← ofDigits_digits n, digits_eq, ofDigits_digits], rest_eq⟩

theorem digits_append_ne_minus {n : Nat} {r r' : List Char} : digits n ++ r ≠ '-' :: r' := by
  obtain ⟨d, ds, hd, digit⟩ := exists_digits_eq_cons n
  rw [hd, List.cons_append]
  intro same
  obtain rfl := (List.cons.inj same).1
  exact absurd digit (by decide)

/-- Integers are told apart by their numerals. -/
theorem toldApart_write (n m : Int) : ToldApart write n m := by
  intro s t r r' hs ht hr hr' same
  rw [toList_of_write hs, toList_of_write ht, signed, signed] at same
  split at same <;> split at same
  · next negative negative' =>
      obtain ⟨abs_eq, rest_eq⟩ := digits_append_inj hr hr' (List.cons.inj same).2
      exact ⟨by omega, rest_eq⟩
  · exact absurd same.symm digits_append_ne_minus
  · exact absurd same digits_append_ne_minus
  · next natural natural' =>
      obtain ⟨abs_eq, rest_eq⟩ := digits_append_inj hr hr' same
      exact ⟨by omega, rest_eq⟩

end Numeral

/-- Where a text is closed by a character that it does not hold, its end can be told. -/
theorem delimited_inj {d : Char} {s t : String} {r r' : List Char} (hs : d ∉ s.toList)
    (ht : d ∉ t.toList) (same : s.toList ++ d :: r = t.toList ++ d :: r') : s = t ∧ r = r' := by
  have other {cs : List Char} (h : d ∉ cs) : ∀ c ∈ cs, (c != d) = true :=
    fun c hc => bne_iff_ne.mpr fun eq => h (eq ▸ hc)
  obtain ⟨text_eq, rest_eq⟩ := append_inj_of_stops (other hs) (other ht)
    (stops_cons (by simp)) (stops_cons (by simp)) same
  exact ⟨String.toList_inj.mp text_eq, (List.cons.inj rest_eq).2⟩

/-! ### Rows -/

section Row

variable {α ε : Type} {render : α → Except ε String} {as bs : List α} {ss ts : List String}
  {r r' : List Char}

/-- The texts of a row, each behind a comma. -/
def afterCommas (ss : List String) : List Char := ss.flatMap fun s => ',' :: s.toList

theorem toList_intercalate_cons (s : String) (ss : List String) :
    (",".intercalate (s :: ss)).toList = s.toList ++ afterCommas ss := by
  induction ss generalizing s with
  | nil => simp [afterCommas]
  | cons t ss ih =>
      rw [String.intercalate_cons_cons, String.toList_append, ih]
      simp [afterCommas]

theorem stops_afterCommas_append (h : Stops Char.isDigit r) :
    Stops Char.isDigit (afterCommas ss ++ r) := by
  cases ss with
  | nil => exact h
  | cons s ss => exact stops_cons (by decide)

/-- What stands behind a row closes it: it goes on neither with a comma nor with a digit. -/
structure RowEnd (Closes : List Char → Prop) : Prop where
  noComma : ∀ r, ¬ Closes (',' :: r)
  stops : ∀ {r}, Closes r → Stops Char.isDigit r

variable {Closes : List Char → Prop}

/-- Items that are told apart one by one are so as further items of a row. -/
theorem eq_of_afterCommas_append_eq (ending : RowEnd Closes)
    (each : ∀ a ∈ as, ∀ b ∈ bs, ToldApart render a b)
    (ha : List.Forall₂ (fun a s => render a = .ok s) as ss)
    (hb : List.Forall₂ (fun b t => render b = .ok t) bs ts) (hr : Closes r) (hr' : Closes r')
    (same : afterCommas ss ++ r = afterCommas ts ++ r') : as = bs ∧ r = r' := by
  induction ha generalizing bs ts with
  | nil =>
      cases hb with
      | nil => exact ⟨rfl, same⟩
      | cons _ _ =>
          obtain rfl : r = ',' :: _ := same
          exact absurd hr (ending.noComma _)
  | @cons a s as ss first _ ih =>
      cases hb with
      | nil =>
          obtain rfl : r' = ',' :: _ := same.symm
          exact absurd hr' (ending.noComma _)
      | @cons b t bs ts first' rest' =>
          have behind : s.toList ++ (afterCommas ss ++ r) = t.toList ++ (afterCommas ts ++ r') := by
            simpa [afterCommas] using same
          obtain ⟨rfl, same⟩ := each a List.mem_cons_self b List.mem_cons_self first first'
            (stops_afterCommas_append (ending.stops hr))
            (stops_afterCommas_append (ending.stops hr')) behind
          have others : ∀ a ∈ as, ∀ b ∈ bs, ToldApart render a b := fun a ha b hb =>
            each a (List.mem_cons_of_mem _ ha) b (List.mem_cons_of_mem _ hb)
          obtain ⟨rfl, rest_eq⟩ := ih others rest' same
          exact ⟨rfl, rest_eq⟩

/-- Items that are told apart one by one, and from the end of a row, are so as the items of a row.
-/
theorem eq_of_row_append_eq (ending : RowEnd Closes)
    (each : ∀ a ∈ as, ∀ b ∈ bs, ToldApart render a b)
    (opens : ∀ a ∈ as, ∀ s r, render a = .ok s → ¬ Closes (s.toList ++ r))
    (opens' : ∀ b ∈ bs, ∀ t r, render b = .ok t → ¬ Closes (t.toList ++ r))
    (ha : List.Forall₂ (fun a s => render a = .ok s) as ss)
    (hb : List.Forall₂ (fun b t => render b = .ok t) bs ts) (hr : Closes r) (hr' : Closes r')
    (same : (",".intercalate ss).toList ++ r = (",".intercalate ts).toList ++ r') :
    as = bs ∧ r = r' := by
  cases ha with
  | nil =>
      cases hb with
      | nil => exact ⟨rfl, by simpa using same⟩
      | @cons b t bs ts first' _ =>
          rw [toList_intercalate_cons, List.append_assoc] at same
          obtain rfl : r = t.toList ++ (afterCommas ts ++ r') := by simpa using same
          exact absurd hr (opens' b List.mem_cons_self t _ first')
  | @cons a s as ss first rest =>
      cases hb with
      | nil =>
          rw [toList_intercalate_cons, List.append_assoc] at same
          obtain rfl : r' = s.toList ++ (afterCommas ss ++ r) := by simpa using same.symm
          exact absurd hr' (opens a List.mem_cons_self s _ first)
      | @cons b t bs ts first' rest' =>
          -- With a comma in front of it, the first item is one more of the further ones.
          refine eq_of_afterCommas_append_eq ending each (.cons first rest) (.cons first' rest')
            hr hr' ?_
          rw [toList_intercalate_cons, toList_intercalate_cons] at same
          simpa [afterCommas] using same

end Row

/-! ### Values -/

/-- A character that can stand around text: no other value begins with it, and no row ends with it.
A comma will do. -/
def IsQuoteMark (q : Char) : Prop := q.isAlphanum = false ∧ q ∉ ['-', '[', ']']

instance (q : Char) : Decidable (IsQuoteMark q) := inferInstanceAs (Decidable (_ ∧ _))

theorem IsQuoteMark.ne {q c : Char} (mark : IsQuoteMark q)
    (h : c.isAlphanum = true ∨ c ∈ ['-', '[', ']']) : c ≠ q := by
  rintro rfl
  rcases h with letter | other
  · exact absurd letter (by simp [mark.1])
  · exact mark.2 other

namespace Value

/-- The values that can be read off their texts: truth values, integers that can be written, texts
without the quote, and sequences of such values. -/
inductive Legible (q : Char) : Value → Prop
  | bool (b : Bool) : Legible q (.bool b)
  | int {n : Int} (short : Writable n) : Legible q (.int n)
  | text {s : String} (unquoted : q ∉ s.toList) : Legible q (.text s)
  | seq {items : List Value} (each : ∀ v ∈ items, Legible q v) : Legible q (.seq items)

/-- The kinds of values that begin differently. -/
inductive Opening where
  | word
  | numeral
  | quote
  | bracket

/-- The kind that a first character belongs to. -/
def Opening.ofFirst (q c : Char) : Opening :=
  if c = q then quote else if c = '[' then bracket
  else if c = '-' || c.isDigit then numeral else word

/-- The kind that a value belongs to. -/
def opening : Value → Opening
  | text _ => .quote
  | seq _ => .bracket
  | int _ => .numeral
  | _ => .word

variable {q : Char} {v w : Value} {s t : String}

theorem renderAll_eq_ok_iff {quote : String} {vs : List Value} {texts : List String} :
    renderAll quote vs = .ok texts ↔
      List.Forall₂ (fun v s => v.render quote = .ok s) vs texts := by
  have run : renderAll quote vs = vs.mapM (render quote) := by
    induction vs with
    | nil => rfl
    | cons v vs ih => rw [renderAll, List.mapM_cons, ih]
  rw [run, Outcome.mapM_eq_ok_iff]

theorem render_seq_eq_ok_iff {quote : String} {items : List Value} :
    (seq items).render quote = .ok s ↔ ∃ texts,
      List.Forall₂ (fun v s => v.render quote = .ok s) items texts ∧
        s = "[" ++ ",".intercalate texts ++ "]" := by
  rw [render, Outcome.return_eq_ok_iff]
  simp only [renderAll_eq_ok_iff]

theorem Legible.exists_render (h : v.Legible q) (quote : String) :
    ∃ s, v.render quote = .ok s := by
  induction h with
  | bool b => exact ⟨_, rfl⟩
  | int short => exact Numeral.exists_write_eq_ok_iff.mpr short
  | text _ => exact ⟨_, rfl⟩
  | seq _ ih =>
      obtain ⟨texts, written⟩ := exists_forall₂_iff.mpr ih
      exact ⟨_, render_seq_eq_ok_iff.mpr ⟨texts, written, rfl⟩⟩

/-- The text of a legible value begins with a character of its kind, which is no closing bracket. -/
theorem Legible.first_char (h : v.Legible q) (mark : IsQuoteMark q)
    (hs : v.render (String.singleton q) = .ok s) :
    ∃ c cs, s.toList = c :: cs ∧ c ≠ ']' ∧ Opening.ofFirst q c = v.opening := by
  cases h with
  | bool b =>
      obtain rfl := Except.ok.inj hs
      cases b with
      | false =>
          have apart : 'f' ≠ q := mark.ne (by decide)
          exact ⟨'f', _, rfl, by decide, by simp [Opening.ofFirst, opening, apart]⟩
      | true =>
          have apart : 't' ≠ q := mark.ne (by decide)
          exact ⟨'t', _, rfl, by decide, by simp [Opening.ofFirst, opening, apart]⟩
  | @int n _ =>
      obtain ⟨c, cs, hc, rfl | digit⟩ := Numeral.exists_signed_eq_cons n
      · have apart : '-' ≠ q := mark.ne (by decide)
        exact ⟨'-', cs, (Numeral.toList_of_write hs).trans hc, by decide,
          by simp [Opening.ofFirst, opening, apart]⟩
      · have apart : c ≠ q := mark.ne (.inl (by simp [Char.isAlphanum, digit]))
        have noBracket : c ≠ '[' ∧ c ≠ ']' := by
          constructor <;> rintro rfl <;> exact absurd digit (by decide)
        exact ⟨c, cs, (Numeral.toList_of_write hs).trans hc, noBracket.2,
          by simp [Opening.ofFirst, opening, apart, noBracket.1, digit]⟩
  | @text s _ =>
      obtain rfl := Except.ok.inj hs
      have apart : ']' ≠ q := mark.ne (by decide)
      exact ⟨q, s.toList ++ [q], by simp, apart.symm, by simp [Opening.ofFirst, opening]⟩
  | seq _ =>
      obtain ⟨texts, -, rfl⟩ := render_seq_eq_ok_iff.mp hs
      have apart : '[' ≠ q := mark.ne (by decide)
      exact ⟨'[', (",".intercalate texts ++ "]").toList, by simp, by decide,
        by simp [Opening.ofFirst, opening, apart]⟩

/-- Values of which the texts stand at the front of the same text are of one kind. -/
theorem Legible.opening_eq (hv : v.Legible q) (hw : w.Legible q) (mark : IsQuoteMark q)
    (hs : v.render (String.singleton q) = .ok s) (ht : w.render (String.singleton q) = .ok t)
    {r r' : List Char} (same : s.toList ++ r = t.toList ++ r') : v.opening = w.opening := by
  obtain ⟨c, cs, hc, -, first⟩ := hv.first_char mark hs
  obtain ⟨d, ds, hd, -, first'⟩ := hw.first_char mark ht
  rw [hc, hd] at same
  obtain rfl := (List.cons.inj same).1
  rw [← first, first']

/-- No item of a sequence begins with the bracket that closes it. -/
theorem Legible.not_closes (h : v.Legible q) (mark : IsQuoteMark q) (r : List Char)
    (hs : v.render (String.singleton q) = .ok s) : ¬ (s.toList ++ r).head? = some ']' := by
  obtain ⟨c, cs, hc, other, -⟩ := h.first_char mark hs
  rw [hc]
  exact fun closing => other (Option.some.inj closing)

/-- What follows the items of a sequence: its closing bracket. -/
theorem rowEnd_bracket : RowEnd fun r => r.head? = some ']' where
  noComma r h := by cases h
  stops {r} h := by
    intro c hc
    obtain rfl := Option.some.inj (h.symm.trans hc)
    decide

/-- Legible values are told apart by their texts. The induction is on the first of them, the second
one being of the same kind. -/
theorem Legible.toldApart (mark : IsQuoteMark q) (hv : v.Legible q) (hw : w.Legible q) :
    ToldApart (Value.render (String.singleton q)) v w := by
  intro s t r r' hs ht hr hr' same
  induction hv generalizing w s t r r' with
  | bool b =>
      have kind := Legible.opening_eq (.bool b) hw mark hs ht same
      cases hw with
      | bool c =>
          obtain rfl := Except.ok.inj hs
          obtain rfl := Except.ok.inj ht
          match b, c, same with
          | false, false, same => exact ⟨rfl, List.append_cancel_left same⟩
          | true, true, same => exact ⟨rfl, List.append_cancel_left same⟩
          | false, true, same => cases (List.cons.inj same).1
          | true, false, same => cases (List.cons.inj same).1
      | _ => cases kind
  | @int n short =>
      have kind := Legible.opening_eq (.int short) hw mark hs ht same
      cases hw with
      | @int m _ =>
          obtain ⟨rfl, rest_eq⟩ := Numeral.toldApart_write n m hs ht hr hr' same
          exact ⟨rfl, rest_eq⟩
      | _ => cases kind
  | @text s unquoted =>
      have kind := Legible.opening_eq (.text unquoted) hw mark hs ht same
      cases hw with
      | @text t unquoted' =>
          obtain rfl := Except.ok.inj hs
          obtain rfl := Except.ok.inj ht
          obtain ⟨rfl, rest_eq⟩ := delimited_inj unquoted unquoted' (by simpa using same)
          exact ⟨rfl, rest_eq⟩
      | _ => cases kind
  | @seq items each ih =>
      have kind := Legible.opening_eq (.seq each) hw mark hs ht same
      cases hw with
      | @seq items' each' =>
          obtain ⟨texts, written, rfl⟩ := render_seq_eq_ok_iff.mp hs
          obtain ⟨texts', written', rfl⟩ := render_seq_eq_ok_iff.mp ht
          have row : (",".intercalate texts).toList ++ ']' :: r =
              (",".intercalate texts').toList ++ ']' :: r' := by
            simpa using same
          have told : ∀ v ∈ items, ∀ w ∈ items',
              ToldApart (Value.render (String.singleton q)) v w :=
            fun v mem w mem' _ _ _ _ => ih v mem (each' w mem')
          obtain ⟨rfl, rest_eq⟩ := eq_of_row_append_eq rowEnd_bracket told
            (fun v mem _ r => (each v mem).not_closes mark r)
            (fun w mem _ r => (each' w mem).not_closes mark r) written written' rfl rfl row
          exact ⟨rfl, (List.cons.inj rest_eq).2⟩
      | _ => cases kind

end Value

/-! ### Fields -/

namespace Field

/-- A field that can be read off its text: the name ends at the first equals sign. -/
structure Legible (q : Char) (f : Field) : Prop where
  name : '=' ∉ f.name.toList
  value : f.value.Legible q

variable {q : Char} {f g : Field} {s t : String}

theorem toList_of_render {quote : String} (hs : f.render quote = .ok s) :
    ∃ v, f.value.render quote = .ok v ∧ s.toList = f.name.toList ++ '=' :: v.toList := by
  obtain ⟨v, hv, rfl⟩ := Outcome.return_eq_ok_iff.mp hs
  exact ⟨v, hv, by simp⟩

/-- Legible fields are told apart by their texts. -/
theorem Legible.toldApart (mark : IsQuoteMark q) (hf : f.Legible q) (hg : g.Legible q) :
    ToldApart (Field.render (String.singleton q)) f g := by
  intro s t r r' hs ht hr hr' same
  obtain ⟨v, hv, hs⟩ := toList_of_render hs
  obtain ⟨w, hw, ht⟩ := toList_of_render ht
  rw [hs, ht, List.append_assoc, List.append_assoc] at same
  obtain ⟨name_eq, behind⟩ := delimited_inj hf.name hg.name same
  obtain ⟨value_eq, rest_eq⟩ := hf.value.toldApart mark hg.value hv hw hr hr' behind
  cases f
  cases g
  subst name_eq value_eq
  exact ⟨rfl, rest_eq⟩

/-- What follows a row of fields: nothing. -/
theorem rowEnd_nil : RowEnd fun r => r = [] where
  noComma _ h := by cases h
  stops h := h ▸ stops_nil _

theorem render_append_ne_nil {quote : String} (r : List Char) (hs : f.render quote = .ok s) :
    ¬ s.toList ++ r = [] := by
  obtain ⟨v, -, hs⟩ := toList_of_render hs
  simp [hs]

theorem renderAll_eq_ok_iff_forall₂ {quote : String} {fs : List Field} :
    renderAll quote fs = .ok s ↔ ∃ texts,
      List.Forall₂ (fun f s => f.render quote = .ok s) fs texts ∧ s = ",".intercalate texts := by
  rw [renderAll, Outcome.return_eq_ok_iff]
  simp only [Outcome.mapM_eq_ok_iff]

/-- A row of legible fields has a text, and the text belongs to no other such row. -/
theorem renderAll_tells_apart {fs gs : List Field} (mark : IsQuoteMark q)
    (hfs : ∀ f ∈ fs, f.Legible q) (hgs : ∀ g ∈ gs, g.Legible q) :
    (∃ s, renderAll (String.singleton q) fs = .ok s) ∧
      (renderAll (String.singleton q) fs = renderAll (String.singleton q) gs → fs = gs) := by
  have each : ∀ f ∈ fs, ∃ s, f.render (String.singleton q) = .ok s := fun f mem =>
    Outcome.exists_return_eq_ok_iff.mpr ((hfs f mem).value.exists_render _)
  obtain ⟨texts, written⟩ := exists_forall₂_iff.mpr each
  have text := renderAll_eq_ok_iff_forall₂.mpr ⟨texts, written, rfl⟩
  refine ⟨⟨_, text⟩, fun same => ?_⟩
  obtain ⟨texts', written', texts_eq⟩ := renderAll_eq_ok_iff_forall₂.mp (same.symm.trans text)
  exact (eq_of_row_append_eq rowEnd_nil
    (fun f mem g mem' => (hfs f mem).toldApart mark (hgs g mem'))
    (fun _ _ _ r => render_append_ne_nil r) (fun _ _ _ r => render_append_ne_nil r)
    written written' rfl rfl (by rw [texts_eq])).1

/-- Between grave accents, a text of one digit is told apart from the digit, beside a sequence that
holds an empty one, a negative integer and the brackets and commas of a text. -/
theorem renderAll_tells_apart_digit :
    let list : Value := .seq [.int (-7), .seq [], .seq [.bool true], .text "],["]
    let quoted : List Field := [⟨"a", .text "1"⟩, ⟨"b,c", list⟩]
    let bare : List Field := [⟨"a", .int 1⟩, ⟨"b,c", list⟩]
    (∃ s, renderAll (String.singleton defaultQuote) quoted = .ok s) ∧
      renderAll (String.singleton defaultQuote) quoted ≠
        renderAll (String.singleton defaultQuote) bare := by
  intro list quoted bare
  have mark : IsQuoteMark defaultQuote := by decide
  have digits {n : Int} (small : n.natAbs < 10) : Writable n :=
    Nat.lt_of_lt_of_le small (Nat.le_self_pow (by decide) 10)
  have legible : list.Legible defaultQuote := by
    refine .seq ?_
    simp only [List.forall_mem_cons]
    exact ⟨.int (digits (by decide)), .seq (by simp), .seq (by simp [Value.Legible.bool]),
      .text (by decide), by simp⟩
  have first : ∀ f ∈ quoted, f.Legible defaultQuote := by
    simp only [quoted, List.forall_mem_cons]
    exact ⟨⟨by decide, .text (by decide)⟩, ⟨by decide, legible⟩, by simp⟩
  have second : ∀ f ∈ bare, f.Legible defaultQuote := by
    simp only [bare, List.forall_mem_cons]
    exact ⟨⟨by decide, .int (digits (by decide))⟩, ⟨by decide, legible⟩, by simp⟩
  obtain ⟨text, apart⟩ := renderAll_tells_apart mark first second
  refine ⟨text, fun same => ?_⟩
  have rows : quoted = bare := apart same
  simp [quoted, bare] at rows

end Field

end LogLayout
