import LogLayout.Proofs.Pattern.OptionReading
import LogLayout.Proofs.Outcome

/-!
# Scanning follows the grammar

A scan goes character by character: a literal character or a doubled sigil is put before what the
rest of the text scans to, and a single sigil begins a token. These step equations hide the search
for the next sigil, and every fact about scans is proved by induction over them.

Main statement: `scan_eq_ok_iff_derives`, a scan succeeds exactly on the texts of the grammar, and
its items are what the grammar derives.
-/

namespace LogLayout

open Grammar

namespace Item

/-- Puts a literal character before items. It joins a literal item that comes next. -/
def addChar (c : Char) : List Item → List Item
  | .literal s :: items => .literal (String.ofList (c :: s.toList)) :: items
  | items => .literal (String.ofList [c]) :: items

/-- An item without positions. -/
def piece : Item → Piece
  | .literal s => .literal s
  | .token t => .token t.name (t.options.map WrittenOption.entry)

theorem map_piece_addChar (c : Char) (items : List Item) :
    (addChar c items).map piece = Piece.addChar c (items.map piece) := by
  cases items with
  | nil => rfl
  | cons item items => cases item <;> rfl

@[simp] theorem addChar_ofRun (c : Char) (run : List Char) :
    addChar c (ofRun run) = ofRun (c :: run) := by
  cases run <;> simp [ofRun, addChar]

@[simp] theorem addChar_ofRun_token (c : Char) (run : List Char) (t : WrittenToken)
    (items : List Item) :
    addChar c (ofRun run ++ .token t :: items) = ofRun (c :: run) ++ .token t :: items := by
  cases run <;> simp [ofRun, addChar]

end Item

namespace WrittenToken

/-- Reading passes over every text of a token. -/
theorem read_of_text (sigil : List Char) (σ : Char) (offset : Nat) {t r : List Char}
    {name : String} {os : List (String × Literal)} (text : TokenText readable t name os r) :
    ∃ options next, read sigil ⟨offset, σ :: t⟩ = .ok (⟨name, offset, options⟩, next) ∧
      options.map WrittenOption.entry = os ∧ next.rest = r := by
  cases text with
  | @bare n _ isName longest noList =>
      have passes : ((⟨offset, σ :: (n ++ r)⟩ : Cursor).advance 1).Passes n
          ⟨offset + 1 + n.length, r⟩ := ⟨rfl, rfl⟩
      refine ⟨[], ⟨offset + 1 + n.length, r⟩, ?_, rfl, rfl⟩
      simp only [read, Cursor.name?_of_passes passes isName longest]
      cases r with
      | nil => rfl
      | cons d r =>
          have noParenthesis : d ≠ '(' := by
            rintro rfl
            exact noList rfl
          split
          · next hlist => exact absurd (List.cons.inj hlist).1 noParenthesis
          · rfl
  | @listed n l _ _ isName list =>
      have passes : ((⟨offset, σ :: (n ++ '(' :: (l ++ ')' :: r))⟩ : Cursor).advance 1).Passes n
          ⟨offset + 1 + n.length, '(' :: (l ++ ')' :: r)⟩ := ⟨rfl, rfl⟩
      have enclosed : Enclosed l := list.enclosed
      obtain ⟨options, hoptions, rfl⟩ := (WrittenOption.readAll_eq_ok_iff
        (c := ⟨offset + 1 + n.length + 1, l⟩) enclosed).mpr list
      refine ⟨options, ⟨offset + 1 + n.length + l.length + 2, r⟩, ?_, rfl, rfl⟩
      simp only [read, Cursor.name?_of_passes passes isName (stops_cons (by decide)),
        splitOptions_of_enclosed enclosed, hoptions]

/-- All that reading a token can come to: a name alone, or a name and a list of options whose text,
up to the closing parenthesis, is enclosed and was read. -/
inductive ReadAs (place : Nat) : List Char → WrittenToken → Cursor → Prop
  | bare {n r : List Char} (name : Name n) (longest : Stops isNameChar r)
      (noList : r.head? ≠ some '(') :
      ReadAs place (n ++ r) ⟨String.ofList n, place, []⟩ ⟨place + 1 + n.length, r⟩
  | listed {n l r : List Char} {options : List WrittenOption} (name : Name n)
      (enclosed : Enclosed l)
      (list : WrittenOption.readAll ⟨place + n.length + 2, l⟩ = .ok options) :
      ReadAs place (n ++ '(' :: (l ++ ')' :: r)) ⟨String.ofList n, place, options⟩
        ⟨place + n.length + l.length + 3, r⟩

theorem readAs_of_read {sigil : List Char} {σ : Char} {place : Nat} {t : List Char} {next : Cursor}
    {tok : WrittenToken} (h : read sigil ⟨place, σ :: t⟩ = .ok (tok, next)) :
    ReadAs place t tok next := by
  have behind : (Cursor.mk place (σ :: t)).advance 1 = ⟨place + 1, t⟩ := rfl
  rw [read, behind] at h
  split at h
  · cases h
  · next name afterName hname =>
      obtain ⟨n, isName, rfl, passes, longest⟩ := Cursor.passes_of_name? hname
      obtain ⟨offset, rest⟩ := afterName
      obtain rfl : t = n ++ rest := passes.rest
      obtain rfl : offset = place + 1 + n.length := passes.offset
      split at h
      · next list hlist =>
          obtain rfl : rest = '(' :: list := hlist
          split at h
          · cases h
          · next inside after hsplit =>
              obtain ⟨enclosed, rfl⟩ := splitOptions_eq_ok_iff.mp hsplit
              split at h
              · cases h
              · next options hoptions =>
                  obtain ⟨rfl, rfl⟩ := Prod.mk.inj (Except.ok.inj h)
                  have start : place + 1 + n.length + 1 = place + n.length + 2 := by omega
                  have finish : place + 1 + n.length + inside.length + 2 =
                      place + n.length + inside.length + 3 := by omega
                  rw [start] at hoptions
                  rw [finish]
                  exact .listed isName enclosed hoptions
      · next noList =>
          obtain ⟨rfl, rfl⟩ := Prod.mk.inj (Except.ok.inj h)
          refine .bare isName longest fun hd => ?_
          obtain ⟨r, hr⟩ := List.head?_eq_some_iff.mp hd
          exact noList r hr

/-- What was read as a token is one. -/
theorem text_of_read {sigil : List Char} {σ : Char} {place : Nat} {t : List Char} {next : Cursor}
    {tok : WrittenToken} (h : read sigil ⟨place, σ :: t⟩ = .ok (tok, next)) :
    TokenText readable t tok.name (tok.options.map WrittenOption.entry) next.rest := by
  cases readAs_of_read h with
  | bare name longest noList => exact .bare name longest noList
  | listed name enclosed list =>
      exact .listed name ((WrittenOption.readAll_eq_ok_iff enclosed).mp ⟨_, list, rfl⟩)

end WrittenToken

/-! ### Steps of a scan -/

section Steps

variable {σ c : Char} {offset : Nat} {t : List Char}

theorem literalRun_plain (other : c ≠ σ) :
    literalRun [σ] offset (c :: t) =
      (c :: (literalRun [σ] (offset + 1) t).1, (literalRun [σ] (offset + 1) t).2) := by
  rw [literalRun.eq_def]
  simp [List.isPrefixOf, Ne.symm other]

theorem literalRun_doubled :
    literalRun [σ] offset (σ :: σ :: t) =
      (σ :: (literalRun [σ] (offset + 2) t).1, (literalRun [σ] (offset + 2) t).2) := by
  rw [literalRun.eq_def]
  simp [List.isPrefixOf]

theorem literalRun_token (single : t.head? ≠ some σ) :
    literalRun [σ] offset (σ :: t) = ([], some ⟨offset, σ :: t⟩) := by
  cases t with
  | nil =>
      rw [literalRun.eq_def]
      simp [List.isPrefixOf]
  | cons d t =>
      have other : σ ≠ d := by
        rintro rfl
        exact single rfl
      rw [literalRun.eq_def]
      simp [List.isPrefixOf, other]

/-- The scan behind a literal run, of which the place of the next token is known. -/
def scanAfter (sigil : List Char) : List Char × Option Cursor → Except ScanStop (List Item)
  | (run, none) => .ok (Item.ofRun run)
  | (run, some tokenAt) =>
    match WrittenToken.read sigil tokenAt with
    | .error stop => .error stop
    | .ok (tok, next) =>
      (scanFrom sigil next).map fun items => Item.ofRun run ++ .token tok :: items

theorem scanFrom_eq (sigil : List Char) (c : Cursor) :
    scanFrom sigil c = scanAfter sigil (literalRun sigil c.offset c.rest) := by
  rw [scanFrom]
  rcases literalRun sigil c.offset c.rest with ⟨run, next?⟩
  cases next? with
  | none => rfl
  | some tokenAt =>
      simp only [scanAfter]
      split
      · next hread => simp only [hread]
      · next hread => simp only [hread]

theorem scanAfter_cons (sigil run : List Char) (next? : Option Cursor) :
    scanAfter sigil (c :: run, next?) =
      (scanAfter sigil (run, next?)).map (Item.addChar c) := by
  cases next? with
  | none => simp [scanAfter, Except.map]
  | some tokenAt =>
      simp only [scanAfter]
      cases WrittenToken.read sigil tokenAt with
      | error stop => rfl
      | ok result =>
          simp only
          cases scanFrom sigil result.2 with
          | error stop => rfl
          | ok items => simp [Except.map]

theorem scanFrom_nil : scanFrom [σ] ⟨offset, []⟩ = .ok [] := by
  rw [scanFrom_eq]
  rfl

theorem scanFrom_plain (other : c ≠ σ) :
    scanFrom [σ] ⟨offset, c :: t⟩ = (scanFrom [σ] ⟨offset + 1, t⟩).map (Item.addChar c) := by
  rw [scanFrom_eq, scanFrom_eq, literalRun_plain other, scanAfter_cons]

theorem scanFrom_doubled :
    scanFrom [σ] ⟨offset, σ :: σ :: t⟩ = (scanFrom [σ] ⟨offset + 2, t⟩).map (Item.addChar σ) := by
  rw [scanFrom_eq, scanFrom_eq, literalRun_doubled, scanAfter_cons]

theorem scanFrom_token (single : t.head? ≠ some σ) :
    scanFrom [σ] ⟨offset, σ :: t⟩ =
      match WrittenToken.read [σ] ⟨offset, σ :: t⟩ with
      | .error stop => .error stop
      | .ok (tok, next) => (scanFrom [σ] next).map (.token tok :: ·) := by
  rw [scanFrom_eq, literalRun_token single]
  rfl

/-- Induction along a scan. A step takes one character, a doubled sigil or a whole token, and what
it leaves is shorter. -/
@[elab_as_elim]
theorem scan_induction {motive : Nat → List Char → Prop} (nil : ∀ offset, motive offset [])
    (plain : ∀ {offset c t}, c ≠ σ → motive (offset + 1) t → motive offset (c :: t))
    (doubled : ∀ {offset t}, motive (offset + 2) t → motive offset (σ :: σ :: t))
    (token : ∀ {offset t}, t.head? ≠ some σ →
      (∀ {tok next}, WrittenToken.read [σ] ⟨offset, σ :: t⟩ = .ok (tok, next) →
        motive next.offset next.rest) → motive offset (σ :: t))
    (offset : Nat) (t : List Char) : motive offset t := by
  induction hn : t.length using Nat.strongRecOn generalizing t offset with
  | ind n ih =>
      cases t with
      | nil => exact nil offset
      | cons c t =>
          by_cases hc : c = σ
          · subst hc
            by_cases hd : t.head? = some c
            · obtain ⟨u, rfl⟩ := List.head?_eq_some_iff.mp hd
              have shorter : u.length < n := by
                simp only [List.length_cons] at hn
                omega
              exact doubled (ih _ shorter _ _ rfl)
            · refine token hd fun hread => ?_
              exact ih _ (hn ▸ WrittenToken.length_of_read hread) _ _ rfl
          · exact plain hc (ih _ (by simp [← hn]) _ _ rfl)

end Steps

/-- A text of the grammar is scanned, wherever it stands, and scans to what it spells. -/
theorem scanFrom_of_derives {σ : Char} {t : List Char} {pieces : List Piece}
    (h : Derives readable σ t pieces) (offset : Nat) :
    ∃ items, scanFrom [σ] ⟨offset, t⟩ = .ok items ∧ items.map Item.piece = pieces := by
  induction h generalizing offset with
  | nil => exact ⟨[], scanFrom_nil, rfl⟩
  | doubled _ ih =>
      obtain ⟨items, hitems, rfl⟩ := ih (offset + 2)
      refine ⟨Item.addChar σ items, ?_, Item.map_piece_addChar σ items⟩
      rw [scanFrom_doubled, hitems]
      rfl
  | @plain c _ _ other _ ih =>
      obtain ⟨items, hitems, rfl⟩ := ih (offset + 1)
      refine ⟨Item.addChar c items, ?_, Item.map_piece_addChar c items⟩
      rw [scanFrom_plain other, hitems]
      rfl
  | @token t r name os pieces single text _ ih =>
      obtain ⟨options, next, hread, rfl, hnext⟩ := WrittenToken.read_of_text [σ] σ offset text
      obtain ⟨items, hitems, rfl⟩ := ih next.offset
      refine ⟨.token ⟨name, offset, options⟩ :: items, ?_, rfl⟩
      rw [scanFrom_token single, hread]
      simp only [← hnext] at hitems
      simp only [hitems]
      rfl

/-- What scans is a text of the grammar: each step of the scan is one of its rules. -/
theorem derives_of_scanFrom {σ : Char} {offset : Nat} {t : List Char} {items : List Item}
    (h : scanFrom [σ] ⟨offset, t⟩ = .ok items) :
    Derives readable σ t (items.map Item.piece) := by
  induction offset, t using scan_induction (σ := σ) generalizing items with
  | nil offset =>
      rw [scanFrom_nil] at h
      obtain rfl := Except.ok.inj h
      exact .nil
  | @plain offset c t other ih =>
      rw [scanFrom_plain other] at h
      obtain ⟨items, hitems, rfl⟩ := Outcome.map_eq_ok_iff.mp h
      rw [Item.map_piece_addChar]
      exact .plain other (ih hitems)
  | @doubled offset t ih =>
      rw [scanFrom_doubled] at h
      obtain ⟨items, hitems, rfl⟩ := Outcome.map_eq_ok_iff.mp h
      rw [Item.map_piece_addChar]
      exact .doubled (ih hitems)
  | @token offset t single ih =>
      rw [scanFrom_token single] at h
      split at h
      · cases h
      · next tok next hread =>
          obtain ⟨items, hitems, rfl⟩ := Outcome.map_eq_ok_iff.mp h
          exact .token single (WrittenToken.text_of_read hread) (ih hread hitems)

/-- A scan with a sigil of one character succeeds exactly on the texts of the grammar whose numerals
can be read, and its items are what such a text spells. -/
theorem scan_eq_ok_iff {σ : Char} {text : String} {pieces : List Piece} :
    (∃ items, scan (String.singleton σ) text = .ok items ∧ items.map Item.piece = pieces) ↔
      Derives readable σ text.toList pieces := by
  have sigil : (String.singleton σ).toList = [σ] := by simp
  simp only [scan, sigil]
  constructor
  · rintro ⟨items, h, rfl⟩
    exact derives_of_scanFrom h
  · intro h
    exact scanFrom_of_derives h 0

/-- In a text without a row of more than `Numeral.digitLimit` digits every numeral can be read, so
there a scan succeeds exactly on the texts of the grammar with numerals of any length. -/
theorem scan_eq_ok_iff_derives {σ : Char} {text : String}
    (few : ∀ ds, ds <:+: text.toList → (∀ d ∈ ds, d.isDigit = true) →
      ds.length ≤ Numeral.digitLimit) (pieces : List Piece) :
    (∃ items, scan (String.singleton σ) text = .ok items ∧ items.map Item.piece = pieces) ↔
      Derives unbounded σ text.toList pieces := by
  rw [scan_eq_ok_iff]
  constructor
  · intro h
    exact h.of_bounds fun _ _ _ _ => trivial
  · intro h
    exact h.of_bounds fun ds inside digits _ => few ds inside digits.isDigit

/-- A doubled sigil, a token whose quoted value holds a parenthesis, blanks around a minus sign. -/
theorem scan_doubled_sigil_quoted_parenthesis :
    (∀ ds, ds <:+: "$$$a(x=')' , y= -07)b".toList → (∀ d ∈ ds, d.isDigit = true) →
      ds.length ≤ Numeral.digitLimit) ∧
    ∃ items, scan (String.singleton '$') "$$$a(x=')' , y= -07)b" = .ok items ∧
      items.map Item.piece = [.literal "$", .token "a" [("x", .char ')'), ("y", .integer (-7))],
        .literal "b"] := by
  have few : ∀ ds, ds <:+: "$$$a(x=')' , y= -07)b".toList → (∀ d ∈ ds, d.isDigit = true) →
      ds.length ≤ Numeral.digitLimit :=
    fun ds inside _ => Nat.le_trans inside.length_le (by decide)
  have one : Blanks [' '] := by simp [Blanks]; decide
  have name : ∀ {d : Char}, isNameStart d = true → Name [d] :=
    fun start => .intro start (by simp)
  have seven : Digits ['0', '7'] := by decide
  have first : OptionText unbounded "x=')'".toList ("x", .char ')') :=
    .assignment (name rfl) .nil .nil (.char (by decide) (by decide))
  have second : OptionText unbounded "y= -07".toList ("y", .integer (-7)) :=
    .assignment (name rfl) .nil one (.negative seven trivial)
  have row : OptionRow unbounded "x=')' , y= -07".toList _ :=
    .more .nil first one (.last one second .nil)
  have token : TokenText unbounded "a(x=')' , y= -07)b".toList "a" _ ['b'] :=
    .listed (name rfl) (.options row)
  exact ⟨few, (scan_eq_ok_iff_derives few _).mpr
    (.doubled (.token (by decide) token (.plain (by decide) .nil)))⟩

end LogLayout
