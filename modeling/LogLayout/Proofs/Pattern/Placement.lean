import LogLayout.Proofs.Pattern.Confinement
import LogLayout.Proofs.Pattern.Reports

/-!
# Where tokens and options stand

A scan notes where the sigil of each token stands, and where the name of each of its options does.
`WrittenToken.Stands` says about the characters of a text alone what it is for a token to stand
where it says and to end at a place: the sigil and the name are there, and the options of a list
have their names inside the parentheses, outside quotes and in order, each behind a comma or the
opening parenthesis.

What is read as a token stands in the text up to the place where the scan goes on, so the tokens of
a scan are `LaidOut` one behind the other. `scan_positions_are_faithful` draws the conclusions for a
whole text.
-/

namespace LogLayout

/-! ### Names and the signs in front of them -/

namespace Grammar

variable {d : List Char} {os : List (String × Literal)}

/-- A whole name stands at a place of a text: no name character follows it. -/
inductive NameAt (text : List Char) (place : Nat) : String → Prop
  | intro {n rest : List Char} (here : text.drop place = n ++ rest) (name : Name n)
      (longest : Stops isNameChar rest) : NameAt text place (String.ofList n)

/-- An option begins with its name. Where the option ends a name could end, too. -/
theorem OptionText.exists_name {fits : Nat → Prop} {s : List Char} {o : String × Literal}
    (h : OptionText fits s o) :
    ∃ n r, s = n ++ r ∧ Name n ∧ o.1 = String.ofList n ∧
      ∀ t, Stops isNameChar t → Stops isNameChar (r ++ t) := by
  cases h with
  | flag name => exact ⟨s, [], by simp, name, rfl, fun t stops => stops⟩
  | @assignment n b b' v _ name before after text =>
      refine ⟨n, b ++ '=' :: (b' ++ v), rfl, name, rfl, fun t _ => ?_⟩
      rw [List.append_assoc]
      exact before.stops (stops_cons (by decide))

theorem Begun.enclosed (h : Begun d os) : Enclosed d := by
  induction h with
  | nil => exact .nil
  | snoc _ before option after ih =>
      exact ih.append ((Inert.of_blanks before).enclosed_append (option.enclosed.append
        ((Inert.of_blanks after).enclosed_append (Inert.enclosed (by decide)))))

theorem NameDue.enclosed (h : NameDue d os) : Enclosed d := by
  cases h with
  | intro begun blanks => exact begun.enclosed.append (Inert.of_blanks blanks).enclosed

/-- Where a name is due there is nothing but blanks behind the parenthesis that opens the list, or
behind a comma. -/
theorem NameDue.exists_sign (h : NameDue d os) :
    ∃ u c b, '(' :: d = u ++ c :: b ∧ c = (if u.length = 0 then '(' else ',') ∧ Blanks b := by
  cases h with
  | @intro _ b _ begun blanks =>
      cases begun with
      | nil => exact ⟨[], '(', b, rfl, rfl, blanks⟩
      | @snoc t b₁ s b₂ _ _ =>
          exact ⟨'(' :: (t ++ (b₁ ++ (s ++ b₂))), ',', b, by simp, rfl, blanks⟩

end Grammar

open Grammar

/-! ### Tokens that stand in a text -/

/-- In the list that is opened at a place the name of an option stands where the option says: inside
the parentheses and outside quotes, with nothing but blanks between it and the parenthesis that
opens the list, or a comma behind that. -/
structure Extent.Holds (x : Extent) (openAt : Nat) (o : WrittenOption) : Prop where
  name : NameAt x.text o.position o.name
  behind : openAt < o.position
  before : o.position + o.name.length ≤ x.close
  unquoted : openQuote (x.slice (openAt + 1) o.position) = none
  sign : ∃ sign, openAt ≤ sign ∧ sign < o.position ∧
    x.text[sign]? = some (if sign = openAt then '(' else ',') ∧
    Blanks (x.slice (sign + 1) o.position)

namespace WrittenToken

/-- The place behind the name of a token. -/
def nameEnd (tok : WrittenToken) : Nat := tok.position + 1 + tok.name.length

/-- A token ends at a place of a text. It ends with its name where no list is opened, and has no
options then. Otherwise it ends with the first closing parenthesis outside quotes, and its options
are in the list, in order. -/
inductive EndsAt (text : List Char) (tok : WrittenToken) : Nat → Prop
  | name (noList : text[tok.nameEnd]? ≠ some '(') (none : tok.options = []) :
      EndsAt text tok tok.nameEnd
  | list {close : Nat} (opens : text[tok.nameEnd]? = some '(')
      (closes : IsLeast {place | Extent.ClosesAt ⟨text, close⟩ (tok.nameEnd + 1) place} close)
      (holds : ∀ o ∈ tok.options, Extent.Holds ⟨text, close⟩ tok.nameEnd o)
      (ordered : (tok.options.map WrittenOption.position).Pairwise (· < ·)) :
      EndsAt text tok (close + 1)

/-- A token stands in a text where it says, and ends at a place. -/
structure Stands (σ : Char) (text : List Char) (tok : WrittenToken) (stop : Nat) : Prop where
  sigil : text[tok.position]? = some σ
  name : NameAt text (tok.position + 1) tok.name
  ends : tok.EndsAt text stop

/-- The position of a token and those of its options. -/
def positions (tok : WrittenToken) : List Nat :=
  tok.position :: tok.options.map WrittenOption.position

variable {σ : Char} {text : List Char} {tok : WrittenToken} {stop : Nat}

/-- The positions of a token ascend from its own, and lie before its end. -/
theorem Stands.positions (h : tok.Stands σ text stop) :
    tok.positions.Pairwise (· < ·) ∧
      ∀ position ∈ tok.positions, tok.position ≤ position ∧ position < stop := by
  have ahead : tok.position < tok.nameEnd := by
    rw [nameEnd]
    omega
  cases h.ends with
  | name _ none =>
      rw [WrittenToken.positions, none]
      refine ⟨List.pairwise_singleton _ _, fun position mem => ?_⟩
      obtain rfl := List.mem_singleton.mp mem
      exact ⟨Nat.le_refl _, ahead⟩
  | @list close _ closes holds ordered =>
      have inside : ∀ position ∈ tok.options.map WrittenOption.position,
          tok.position < position ∧ position < close + 1 := by
        intro position mem
        obtain ⟨o, given, rfl⟩ := List.mem_map.mp mem
        have behind := (holds o given).behind
        have before := (holds o given).before
        dsimp only at before
        omega
      refine ⟨List.pairwise_cons.mpr ⟨fun position mem => (inside position mem).1, ordered⟩, ?_⟩
      intro position mem
      rcases List.mem_cons.mp mem with rfl | mem
      · have least : tok.nameEnd + 1 ≤ close := closes.1.1
        omega
      · exact (inside position mem).imp_left Nat.le_of_lt

end WrittenToken

/-! ### What is read stands in the text -/

namespace WrittenOption

/-- The options of a row stand in order, from the place on where the row begins. A round of the
reader goes past one option, and the next round begins behind it. -/
theorem positions_of_readSome {c : Cursor} {options : List WrittenOption}
    (h : readSome c = .ok options) (enclosed : Enclosed c.rest) :
    (options.map position).Pairwise (· < ·) ∧ ∀ o ∈ options, c.offset ≤ o.position := by
  fun_induction readSome c generalizing options with
  | case1 => cases h
  | case2 c option behind hread =>
      obtain rfl := Except.ok.inj h
      obtain ⟨b, _, _, -, -, -, -, -, place⟩ := passes_round hread enclosed
      refine ⟨List.pairwise_singleton _ _, fun o mem => ?_⟩
      obtain rfl := List.mem_singleton.mp mem
      omega
  | case3 c option behind hread atComma t hcomma =>
      rename_i ih
      obtain ⟨more, hmore, rfl⟩ := Outcome.map_eq_ok_iff.mp h
      obtain ⟨b, s, b', -, -, -, round, rest, place⟩ := passes_round hread enclosed
      obtain ⟨ordered, least⟩ := ih hmore (enclosed_past_comma hcomma rest)
      have past : option.position < atComma.offset + 1 := by
        have offset : atComma.offset = _ := round.offset
        rw [List.length_append] at offset
        omega
      constructor
      · refine List.pairwise_cons.mpr ⟨fun position mem => ?_, ordered⟩
        obtain ⟨o, given, rfl⟩ := List.mem_map.mp mem
        exact Nat.lt_of_lt_of_le past (least o given)
      · intro o mem
        rcases List.mem_cons.mp mem with rfl | mem
        · omega
        · have further : atComma.offset + 1 ≤ o.position := least o mem
          omega
  | case4 => cases h

theorem positions_of_readAll {c : Cursor} {options : List WrittenOption}
    (h : readAll c = .ok options) (enclosed : Enclosed c.rest) :
    (options.map position).Pairwise (· < ·) := by
  rw [readAll, readSome_skipBlanks] at h
  split at h
  · obtain rfl := Except.ok.inj h
    exact .nil
  · exact (positions_of_readSome h enclosed).1

end WrittenOption

namespace Extent

variable {x : Extent}

/-- The stretch of a text that lies behind another one is a slice of it. -/
theorem slice_of_text {u s v : List Char} {start stop : Nat} (text : x.text = u ++ (s ++ v))
    (starts : start = u.length) (stops : stop = start + s.length) : x.slice start stop = s := by
  rw [slice, text, starts, List.drop_left, stops, starts, Nat.add_sub_cancel_left, List.take_left]

/-- An option that is written where a name is due stands in its list. -/
theorem holds_of_nameDue {pre d s b rest after : List Char} {os : List (String × Literal)}
    {o : WrittenOption} (text : x.text = pre ++ '(' :: (d ++ (s ++ (b ++ (rest ++ ')' :: after)))))
    (close : x.close = pre.length + 1 + (d ++ (s ++ (b ++ rest))).length) (due : NameDue d os)
    (option : OptionText readable s o.entry) (blanks : Blanks b) (ends : WrittenOption.Ends rest)
    (position : o.position = pre.length + 1 + d.length) : x.Holds pre.length o := by
  obtain ⟨n, r, rfl, isName, named, stops⟩ := option.exists_name
  have named : o.name = String.ofList n := named
  obtain ⟨u, c, b', signed, sort, blanks'⟩ := due.exists_sign
  have long : d.length + 1 = u.length + (b'.length + 1) := by
    simpa using congrArg List.length signed
  let behind := b ++ (rest ++ ')' :: after)
  have toName : x.text = (pre ++ '(' :: d) ++ (n ++ (r ++ behind)) := by
    simp [text, behind]
  have toSign : x.text = (pre ++ u) ++ c :: (b' ++ (n ++ (r ++ behind))) := by
    simp [toName, signed]
  constructor
  case name =>
    have place : o.position = (pre ++ '(' :: d).length := by
      rw [position, List.length_append, List.length_cons]
      omega
    have longest : Stops isNameChar (rest ++ ')' :: after) :=
      (ends.stops (by decide)).append (stops_cons (by decide))
    rw [named]
    refine .intro ?_ isName (stops _ (blanks.stops longest))
    rw [toName, place, List.drop_left]
  case behind => omega
  case before =>
    rw [named, String.length_ofList, position, close]
    simp only [List.length_append]
    omega
  case unquoted =>
    have passed : x.slice (pre.length + 1) o.position = d := by
      refine slice_of_text (u := pre ++ ['(']) (v := n ++ (r ++ behind)) ?_ (by simp) position
      simp [toName]
    rw [passed]
    exact due.enclosed.openQuote_eq
  case sign =>
    refine ⟨(pre ++ u).length, ?_, ?_, ?_, ?_⟩
    · simp
    · rw [List.length_append]
      omega
    · rw [toSign, ← List.head?_drop, List.drop_left, sort]
      simp
    · have between : x.slice ((pre ++ u).length + 1) o.position = b' := by
        refine slice_of_text (u := pre ++ u ++ [c]) (v := n ++ (r ++ behind)) ?_ ?_ ?_
        · simp [toSign]
        · simp only [List.length_append, List.length_singleton]
        · rw [List.length_append]
          omega
      rw [between]
      exact blanks'

end Extent

namespace WrittenToken

variable {σ : Char} {pre n l r t : List Char} {options : List WrittenOption} {next : Cursor}
  {tok : WrittenToken}

theorem nameEnd_eq : nameEnd ⟨String.ofList n, pre.length, options⟩ = (pre ++ σ :: n).length := by
  simp only [nameEnd, String.length_ofList, List.length_append, List.length_cons]
  omega

/-- A token with a list ends with the parenthesis that closes the list. -/
theorem endsAt_of_list (enclosed : Enclosed l)
    (list : WrittenOption.readAll ⟨pre.length + n.length + 2, l⟩ = .ok options) :
    EndsAt (pre ++ σ :: (n ++ '(' :: (l ++ ')' :: r))) ⟨String.ofList n, pre.length, options⟩
      (pre.length + n.length + l.length + 3) := by
  have openAt : nameEnd ⟨String.ofList n, pre.length, options⟩ = (pre ++ σ :: n).length :=
    nameEnd_eq
  have start : pre.length + n.length + 2 = (pre ++ σ :: n).length + 1 := by
    simp only [List.length_append, List.length_cons]
    omega
  have stop : pre.length + n.length + l.length + 3 = (pre ++ σ :: n).length + 1 + l.length + 1 := by
    omega
  let x : Extent :=
    ⟨pre ++ σ :: (n ++ '(' :: (l ++ ')' :: r)), (pre ++ σ :: n).length + 1 + l.length⟩
  have text : x.text = (pre ++ σ :: n) ++ '(' :: (l ++ ')' :: r) := by simp [x]
  have found : splitOptions pre.length none ((pre ++ σ :: n).length + 1)
      (x.text.drop ((pre ++ σ :: n).length + 1)) = .ok (l, r) := by
    refine splitOptions_eq_ok_iff.mpr ⟨enclosed, ?_⟩
    rw [text, ← List.drop_drop, List.drop_left]
    rfl
  rw [stop]
  change EndsAt x.text _ (x.close + 1)
  refine .list ?opens ?closes ?holds ?ordered
  case opens =>
    rw [openAt, text, ← List.head?_drop, List.drop_left]
    rfl
  case closes =>
    rw [openAt]
    exact Extent.isLeast_closesAt rfl found
  case holds =>
    intro o given
    obtain ⟨earlier, later, given⟩ := List.append_of_mem given
    obtain ⟨d, s, b, next, past, due, option, blanks, ends, position⟩ :=
      WrittenOption.place_of_readAll enclosed list given
    have inside : l = d ++ (s ++ (b ++ next.rest)) := by
      rw [← List.append_assoc s, ← List.append_assoc d]
      exact past.rest
    have whole : x.text =
        (pre ++ σ :: n) ++ '(' :: (d ++ (s ++ (b ++ (next.rest ++ ')' :: r)))) := by
      simp [text, inside]
    rw [openAt]
    refine Extent.holds_of_nameDue whole ?_ due option blanks ends ?_
    · rw [← inside]
    · rw [position, start]
  case ordered => exact WrittenOption.positions_of_readAll list enclosed

/-- What is read as a token stands in the text, up to the place where reading goes on. -/
theorem stands_of_read (h : read [σ] ⟨pre.length, σ :: t⟩ = .ok (tok, next)) :
    tok.Stands σ (pre ++ σ :: t) next.offset := by
  have sigil : (pre ++ σ :: t)[pre.length]? = some σ := by simp
  have named {n r : List Char} (name : Name n) (longest : Stops isNameChar r) :
      NameAt (pre ++ σ :: (n ++ r)) (pre.length + 1) (String.ofList n) := by
    refine .intro ?_ name longest
    rw [← List.drop_drop, List.drop_left]
    rfl
  cases readAs_of_read h with
  | @bare n r name longest noList =>
      have stop : nameEnd ⟨String.ofList n, pre.length, []⟩ = (pre ++ σ :: n).length := nameEnd_eq
      have behind : (pre ++ σ :: (n ++ r))[(pre ++ σ :: n).length]? = r.head? := by
        rw [← List.cons_append, ← List.append_assoc, ← List.head?_drop, List.drop_left]
      refine ⟨sigil, named name longest, ?_⟩
      have offset : pre.length + 1 + n.length = nameEnd ⟨String.ofList n, pre.length, []⟩ := by
        rw [nameEnd, String.length_ofList]
      rw [offset]
      refine .name ?_ rfl
      rwa [stop, behind]
  | listed name enclosed list =>
      exact ⟨sigil, named name (stops_cons (by decide)), endsAt_of_list enclosed list⟩

end WrittenToken

/-! ### Scans -/

/-- Tokens stand one behind the other in a text, from a place on. -/
inductive LaidOut (σ : Char) (text : List Char) : Nat → List Item → Prop
  | nil {start : Nat} : LaidOut σ text start []
  | literal {start : Nat} {s : String} {items : List Item} (rest : LaidOut σ text start items) :
      LaidOut σ text start (.literal s :: items)
  | token {start stop : Nat} {tok : WrittenToken} {items : List Item}
      (behind : start ≤ tok.position) (stands : tok.Stands σ text stop)
      (rest : LaidOut σ text stop items) : LaidOut σ text start (.token tok :: items)

/-- The positions that an item notes. -/
def Item.positions : Item → List Nat
  | .literal _ => []
  | .token tok => tok.positions

namespace LaidOut

variable {σ : Char} {text : List Char} {start start' : Nat} {items before after : List Item}
  {tok : WrittenToken}

theorem mono (h : LaidOut σ text start items) (le : start' ≤ start) :
    LaidOut σ text start' items := by
  induction h with
  | nil => exact .nil
  | literal _ ih => exact .literal (ih le)
  | token behind stands rest => exact .token (Nat.le_trans le behind) stands rest

theorem addChar (c : Char) (h : LaidOut σ text start items) :
    LaidOut σ text start (Item.addChar c items) := by
  cases h with
  | nil => exact .literal .nil
  | literal rest => exact .literal rest
  | token behind stands rest => exact .literal (.token behind stands rest)

/-- The positions ascend over all items: those of a token lie before its end, and those of the items
behind it do not. -/
theorem positions (h : LaidOut σ text start items) :
    (items.flatMap Item.positions).Pairwise (· < ·) ∧
      ∀ position ∈ items.flatMap Item.positions, start ≤ position := by
  induction h with
  | nil => exact ⟨.nil, by simp⟩
  | literal _ ih => exact ih
  | @token start stop tok items behind stands _ ih =>
      obtain ⟨ordered, least⟩ := ih
      obtain ⟨own, bounds⟩ := stands.positions
      rw [List.flatMap_cons]
      constructor
      · refine List.pairwise_append.mpr ⟨own, ordered, fun p mem p' mem' => ?_⟩
        exact Nat.lt_of_lt_of_le (bounds p mem).2 (least p' mem')
      · intro p mem
        rcases List.mem_append.mp mem with mem | mem
        · exact Nat.le_trans behind (bounds p mem).1
        · have past := (bounds tok.position List.mem_cons_self).2
          have further := least p mem
          omega

/-- A token ends before everything behind it. -/
theorem of_split (h : LaidOut σ text start (before ++ .token tok :: after)) :
    ∃ stop, tok.Stands σ text stop ∧ LaidOut σ text stop after := by
  induction before generalizing start with
  | nil =>
      cases h with
      | token _ stands rest => exact ⟨_, stands, rest⟩
  | cons item before ih =>
      cases h with
      | literal rest => exact ih rest
      | token _ _ rest => exact ih rest

end LaidOut

/-- What a text scans to is laid out in it. The induction is along the scan: what a step takes is
put behind the text before it. -/
theorem laidOut_of_scanFrom {σ : Char} {offset : Nat} {pre t : List Char} {items : List Item}
    (place : offset = pre.length) (h : scanFrom [σ] ⟨offset, t⟩ = .ok items) :
    LaidOut σ (pre ++ t) offset items := by
  induction offset, t using scan_induction (σ := σ) generalizing pre items with
  | nil offset =>
      rw [scanFrom_nil] at h
      obtain rfl := Except.ok.inj h
      exact .nil
  | @plain offset c t other ih =>
      rw [scanFrom_plain other] at h
      obtain ⟨items, hitems, rfl⟩ := Outcome.map_eq_ok_iff.mp h
      have behind : offset + 1 = (pre ++ [c]).length := by simp [place]
      have rest := ih behind hitems
      rw [← List.append_cons] at rest
      exact (rest.mono (Nat.le_succ _)).addChar c
  | @doubled offset t ih =>
      rw [scanFrom_doubled] at h
      obtain ⟨items, hitems, rfl⟩ := Outcome.map_eq_ok_iff.mp h
      have behind : offset + 2 = (pre ++ [σ, σ]).length := by simp [place]
      have rest := ih behind hitems
      rw [List.append_assoc] at rest
      exact (rest.mono (Nat.le_add_right _ 2)).addChar σ
  | @token offset t single ih =>
      rw [scanFrom_token single] at h
      split at h
      · cases h
      · next tok next hread =>
          obtain ⟨items, hitems, rfl⟩ := Outcome.map_eq_ok_iff.mp h
          obtain ⟨w, rfl, offset_eq⟩ := WrittenToken.taken_of_read hread
          have behind : next.offset = (pre ++ σ :: w).length := by
            rw [offset_eq, place, List.length_append, List.length_cons]
            omega
          have rest := ih hread behind hitems
          rw [List.append_assoc, List.cons_append] at rest
          subst place
          have position := WrittenToken.position_of_read hread
          exact .token (Nat.le_of_eq position.symm) (WrittenToken.stands_of_read hread) rest

/-- The positions that a scan notes are faithful. Each token stands in the text where it says, with
its options inside its parentheses, and ends before the next one begins; and the positions of all
tokens and options ascend in the order of the items. -/
theorem scan_positions_are_faithful {σ : Char} {text : String} {items : List Item}
    (scanned : scan (String.singleton σ) text = .ok items) :
    (∀ before tok after, items = before ++ .token tok :: after →
      ∃ stop, tok.Stands σ text.toList stop ∧
        ∀ later, .token later ∈ after → stop ≤ later.position) ∧
    (items.flatMap Item.positions).Pairwise (· < ·) := by
  have sigil : (String.singleton σ).toList = [σ] := by simp
  rw [scan, sigil] at scanned
  have laid : LaidOut σ ([] ++ text.toList) 0 items := laidOut_of_scanFrom rfl scanned
  refine ⟨?_, laid.positions.1⟩
  rintro before tok after rfl
  obtain ⟨stop, stands, rest⟩ := laid.of_split
  refine ⟨stop, stands, fun later mem => rest.positions.2 _ ?_⟩
  exact List.mem_flatMap.mpr ⟨_, mem, List.mem_cons_self⟩

/-- A doubled sigil in front of a token, and a comma, a parenthesis and a sigil between quotes. -/
theorem scan_positions_are_faithful_quoted_signs :
    ∃ items, scan (String.singleton '$') "$$$m( x=',)$' , y)$n" = .ok items ∧
      items = [.literal "$", .token ⟨"m", 2, [⟨"x", .text ",)$", 6⟩, ⟨"y", .flag true, 16⟩]⟩,
        .token ⟨"n", 18, []⟩] ∧
      (∀ before tok after, items = before ++ .token tok :: after →
        ∃ stop, tok.Stands '$' "$$$m( x=',)$' , y)$n".toList stop ∧
          ∀ later, .token later ∈ after → stop ≤ later.position) ∧
      (items.flatMap Item.positions).Pairwise (· < ·) := by
  have scanned : scan (String.singleton '$') "$$$m( x=',)$' , y)$n" = .ok [.literal "$",
      .token ⟨"m", 2, [⟨"x", .text ",)$", 6⟩, ⟨"y", .flag true, 16⟩]⟩,
      .token ⟨"n", 18, []⟩] := by decide +kernel
  exact ⟨_, scanned, rfl, scan_positions_are_faithful scanned⟩

end LogLayout
