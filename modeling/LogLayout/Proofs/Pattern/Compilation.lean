import LogLayout.Proofs.Traversal
import LogLayout.Proofs.Pattern.Scanning
import LogLayout.Proofs.Pattern.Vocabulary

/-!
# The meaning of scanned items

A pattern is compiled exactly when every token that was scanned follows a kind: it has the kind's
name in any letter case, it repeats no option, each of its options is of the kind and keeps to the
kind's rule, and none is missing. Each segment then says what its item says, with the defaults for
the options that are not written. One token that follows no kind leaves nothing of the pattern.
-/

namespace LogLayout

open Grammar

/-- A name is that of a kind when it differs from it in letter case only. -/
def Kind.Named (k : Kind) (name : String) : Prop := name.toList.map Char.toLower = k.name.toList

instance (k : Kind) (name : String) : Decidable (k.Named name) :=
  inferInstanceAs (Decidable (_ = _))

/-- A written token keeps to the vocabulary of a kind. -/
structure WrittenToken.Follows (t : WrittenToken) (k : Kind) : Prop where
  named : k.Named t.name
  distinct : (t.options.map (·.name)).Nodup
  admitted : ∀ o ∈ t.options, k.Admits o.name o.value.toDatum
  complete : k = .text → ∃ o ∈ t.options, o.name = "value"

/-- The options that a written token gives to a kind: those written, and the defaults of those that
are not. -/
inductive WrittenToken.Gives (t : WrittenToken) (k : Kind) : String × Datum → Prop
  | written {o : WrittenOption} (mem : o ∈ t.options) : Gives t k (o.name, o.value.toDatum)
  | byDefault {o : String × Datum} (absent : ∀ w ∈ t.options, w.name ≠ o.1)
      (mem : o ∈ k.defaults) : Gives t k o

/-- What a scanned item stands for. -/
inductive Item.Denotes : Item → Segment → Prop
  | literal (text : String) : Denotes (.literal text) (.literal text)
  | token {t : WrittenToken} {tok : Token} (named : tok.kind.Named t.name)
      (options : ∀ o ∈ tok.options, t.Gives tok.kind o) : Denotes (.token t) (.token tok)

/-- What a piece of a pattern text stands for. -/
inductive Grammar.Piece.Means : Piece → Segment → Prop
  | literal (text : String) : Means (.literal text) (.literal text)
  | token {name : String} {os : List (String × Literal)} {tok : Token}
      (named : tok.kind.Named name) (distinct : (os.map Prod.fst).Nodup)
      (valid : Token.ofEntries tok.kind (os.map fun o => (.text o.1, o.2.toDatum)) = .valid tok) :
      Means (.token name os) (.token tok)

/-! ### Names of kinds -/

namespace Kind

theorem named_name (k : Kind) : k.Named k.name := by
  cases k <;> decide +kernel

theorem ofName?_eq_some_iff {k : Kind} {name : String} : ofName? name = some k ↔ k.Named name := by
  constructor
  · intro h
    have same := List.find?_some h
    simp only [Text.sameName, beq_iff_eq] at same
    exact same.symm.trans (named_name k)
  · intro h
    rw [← ofName?_name k]
    have lower : name.toList.map Char.toLower = k.name.toList.map Char.toLower :=
      h.trans (named_name k).symm
    simp only [ofName?, Text.sameName, lower]

end Kind

/-! ### Written options as a dictionary -/

theorem Literal.plain_toDatum (v : Literal) : v.toDatum.plain = v.toDatum := by
  cases v <;> rfl

namespace WrittenToken

variable {t : WrittenToken} {k : Kind}

theorem duplicate?_eq_none_iff {seen : List String} {options : List WrittenOption} :
    duplicate? seen options = none ↔
      (∀ o ∈ options, o.name ∉ seen) ∧ (options.map (·.name)).Nodup := by
  induction options generalizing seen with
  | nil => simp [duplicate?]
  | cons o options ih =>
      simp only [duplicate?, List.forall_mem_cons, List.map_cons, List.nodup_cons]
      split
      · next again => simp [List.contains_iff_mem.mp again]
      · next fresh =>
          have unseen : o.name ∉ seen := fun h => fresh (List.contains_iff_mem.mpr h)
          simp only [ih, List.mem_cons, not_or, List.mem_map, not_exists, not_and]
          constructor
          · rintro ⟨apart, distinct⟩
            exact ⟨⟨unseen, fun a ha => (apart a ha).2⟩, fun a ha => (apart a ha).1, distinct⟩
          · rintro ⟨⟨-, unseen⟩, apart, distinct⟩
            exact ⟨fun a ha => ⟨apart a ha, unseen a ha⟩, distinct⟩

theorem resolve_eq_ok_iff {tok : Token} :
    t.resolve = .ok tok ↔
      tok.kind.Named t.name ∧ (t.options.map (·.name)).Nodup ∧
        Token.ofEntries tok.kind t.entries = .valid tok := by
  have distinct : duplicate? [] t.options = none ↔ (t.options.map (·.name)).Nodup := by
    simp [duplicate?_eq_none_iff]
  rw [← Kind.ofName?_eq_some_iff, ← distinct]
  rw [resolve]
  split
  · next unknown => simp [unknown]
  · next k known =>
      split
      · next again => simp [again]
      · next once =>
          have read : (∀ u, Token.ofEntries k t.entries = .valid u → u.kind = k) :=
            fun u valid => (Token.ofEntries_eq_valid_iff.mp valid).1
          simp only [known, once, true_and, Option.some.injEq]
          constructor
          · intro h
            split at h
            · next valid =>
                obtain rfl := Except.ok.inj h
                obtain rfl := read _ valid
                exact ⟨rfl, valid⟩
            · cases h
          · rintro ⟨rfl, valid⟩
            simp [valid]

/-- Options have the names and the values that they have without their positions. -/
theorem map_fst_entry (t : WrittenToken) :
    (t.options.map WrittenOption.entry).map Prod.fst = t.options.map (·.name) := by
  rw [List.map_map]
  rfl

theorem entries_eq (t : WrittenToken) :
    t.entries =
      (t.options.map WrittenOption.entry).map fun o => (.text o.1, o.2.toDatum) := by
  rw [List.map_map]
  rfl

theorem lookup?_entries_eq_some_iff (distinct : (t.options.map (·.name)).Nodup) {name : String}
    {d : Datum} :
    Datum.lookup? t.entries (.text name) = some d ↔
      ∃ o ∈ t.options, o.name = name ∧ o.value.toDatum = d := by
  simp [entries, Datum.lookup?_map_text, find?_name_eq_some_iff distinct, and_assoc]

theorem lookup?_entries_eq_none_iff {name : String} :
    Datum.lookup? t.entries (.text name) = none ↔ ∀ o ∈ t.options, o.name ≠ name := by
  rw [entries, Datum.lookup?_map_text, Option.map_eq_none_iff, List.find?_eq_none]
  simp only [beq_iff_eq, eq_comm (a := name), ne_eq]

theorem valueOf?_entries_eq_some_iff (distinct : (t.options.map (·.name)).Nodup)
    {o : String × Datum} : k.valueOf? t.entries o.1 = some o.2 ↔ t.Gives k o := by
  simp only [Kind.valueOf?, Option.or_eq_some_iff, Option.map_eq_some_iff, Option.map_eq_none_iff,
    lookup?_entries_eq_some_iff distinct, lookup?_entries_eq_none_iff, Kind.default?_eq_some_iff]
  constructor
  · rintro (⟨d, ⟨w, hw, hname, rfl⟩, hd⟩ | ⟨absent, mem⟩)
    · obtain rfl : o = (w.name, w.value.toDatum) :=
        Prod.ext hname.symm (hd.symm.trans w.value.plain_toDatum)
      exact .written hw
    · exact .byDefault absent mem
  · rintro (hw | ⟨absent, mem⟩)
    · exact .inl ⟨_, ⟨_, hw, rfl, rfl⟩, Literal.plain_toDatum _⟩
    · exact .inr ⟨absent, mem⟩

/-- A written token means a token with the options that it gives. -/
theorem denotes_of_resolve {tok : Token} (h : t.resolve = .ok tok) :
    Item.Denotes (.token t) (.token tok) := by
  obtain ⟨named, distinct, valid⟩ := resolve_eq_ok_iff.mp h
  obtain ⟨-, -, given⟩ := Token.ofEntries_eq_valid_iff.mp valid
  exact .token named fun o ho => (valueOf?_entries_eq_some_iff distinct).mp (given o ho)

/-- A written token follows a kind of its name when its options are distinct and the kind allows
them. -/
theorem follows_iff :
    t.Follows k ↔ k.Named t.name ∧ (t.options.map (·.name)).Nodup ∧
      k.Allows (t.options.map fun o => (o.name, o.value.toDatum)) := by
  constructor
  · rintro ⟨named, distinct, admitted, complete⟩
    exact ⟨named, distinct, by simpa using admitted, by simpa using complete⟩
  · rintro ⟨named, distinct, admitted, complete⟩
    exact ⟨named, distinct, by simpa using admitted, by simpa using complete⟩

/-- A written token has a meaning exactly when it follows a kind. -/
theorem exists_resolve_eq_ok_iff : (∃ tok, t.resolve = .ok tok) ↔ ∃ k, t.Follows k := by
  have entries : t.entries =
      (t.options.map fun o => (o.name, o.value.toDatum)).map fun o => (.text o.1, o.2) := by
    rw [List.map_map]
    rfl
  have names : (t.options.map fun o => (o.name, o.value.toDatum)).map Prod.fst =
      t.options.map (·.name) := by
    rw [List.map_map]
    rfl
  constructor
  · rintro ⟨tok, h⟩
    obtain ⟨named, distinct, valid⟩ := resolve_eq_ok_iff.mp h
    rw [entries] at valid
    have allows := (Token.exists_ofEntries_eq_valid_iff_allows (names ▸ distinct)).mp ⟨tok, valid⟩
    exact ⟨tok.kind, follows_iff.mpr ⟨named, distinct, allows⟩⟩
  · rintro ⟨k, follows⟩
    obtain ⟨named, distinct, allows⟩ := follows_iff.mp follows
    obtain ⟨tok, htok⟩ :=
      (Token.exists_ofEntries_eq_valid_iff_allows (names ▸ distinct)).mpr allows
    rw [← entries] at htok
    obtain rfl := (Token.ofEntries_eq_valid_iff.mp htok).1
    exact ⟨tok, resolve_eq_ok_iff.mpr ⟨named, distinct, htok⟩⟩

end WrittenToken

/-! ### Items and patterns -/

namespace Item

/-- The meaning of an item is what it denotes. -/
theorem denotes_of_resolve {i : Item} {s : Segment} (h : i.resolve = .ok s) : i.Denotes s := by
  cases i with
  | literal text =>
      obtain rfl := Except.ok.inj h
      exact .literal text
  | token t =>
      obtain ⟨tok, htok, rfl⟩ := Outcome.map_eq_ok_iff.mp h
      exact WrittenToken.denotes_of_resolve htok

/-- The meaning of an item does not depend on positions. -/
theorem resolve_eq_ok_iff_means {i : Item} {s : Segment} :
    i.resolve = .ok s ↔ Piece.Means i.piece s := by
  cases i with
  | literal text =>
      constructor
      · intro h
        obtain rfl := Except.ok.inj h
        exact .literal text
      · intro h
        cases h with
        | literal => rfl
  | token t =>
      constructor
      · intro h
        obtain ⟨tok, htok, rfl⟩ := Outcome.map_eq_ok_iff.mp h
        obtain ⟨named, distinct, valid⟩ := WrittenToken.resolve_eq_ok_iff.mp htok
        rw [← t.map_fst_entry] at distinct
        rw [t.entries_eq] at valid
        exact .token named distinct valid
      · intro h
        cases h with
        | @token _ _ tok named distinct valid =>
            rw [t.map_fst_entry] at distinct
            rw [← t.entries_eq] at valid
            have resolved := WrittenToken.resolve_eq_ok_iff.mpr ⟨named, distinct, valid⟩
            exact Outcome.map_eq_ok_iff.mpr ⟨tok, resolved, rfl⟩

theorem exists_resolve_eq_ok_iff {i : Item} :
    (∃ s, i.resolve = .ok s) ↔ ∀ t, i = .token t → ∃ k, t.Follows k := by
  cases i with
  | literal text => simp [resolve]
  | token t =>
      simp only [resolve, Outcome.map_eq_ok_iff, token.injEq, forall_eq',
        ← WrittenToken.exists_resolve_eq_ok_iff]
      constructor
      · rintro ⟨_, tok, h, rfl⟩
        exact ⟨tok, h⟩
      · rintro ⟨tok, h⟩
        exact ⟨_, tok, h, rfl⟩

end Item

namespace Pattern

variable {sigil text : String} {items : List Item}

theorem isSigilText_singleton {σ : Char} (admissible : isSigil σ = true) :
    isSigilText (String.singleton σ) = true := by
  simpa [isSigilText] using admissible

/-- With a sigil that is accepted and a text that scans, compiling is giving the items a meaning. -/
theorem compile_of_scan (admissible : isSigilText sigil = true)
    (scanned : scan sigil text = .ok items) :
    compile sigil text =
      match ofItems items with
      | .error r => .error (.rejected (r.report text))
      | .ok segments => .ok ⟨segments, text⟩ := by
  cases resolved : ofItems items <;> simp [compile, admissible, compileWith, scanned, resolved]

theorem compile_eq_ok_iff (admissible : isSigilText sigil = true)
    (scanned : scan sigil text = .ok items) {p : Pattern} :
    compile sigil text = .ok p ↔
      List.Forall₂ (fun i s => i.resolve = .ok s) items p.segments ∧ p.source = text := by
  obtain ⟨segments, source⟩ := p
  rw [compile_of_scan admissible scanned, ← Outcome.traverse_eq_ok_iff, ← ofItems]
  cases ofItems items with
  | error r => simp
  | ok found => simp [eq_comm]

/-- What scans is compiled exactly when every token follows a kind; then each segment is what its
item denotes. Otherwise there is a report and no pattern. -/
theorem compile_ok_iff_follows (admissible : isSigilText sigil = true)
    (scanned : scan sigil text = .ok items) :
    ((∃ p, compile sigil text = .ok p) ↔ ∀ t, .token t ∈ items → ∃ k, t.Follows k) ∧
      (∀ p, compile sigil text = .ok p →
        p.source = text ∧ List.Forall₂ Item.Denotes items p.segments) ∧
      ((¬ ∀ t, .token t ∈ items → ∃ k, t.Follows k) →
        ∃ report, compile sigil text = .error (.rejected report)) := by
  have resolved : (∃ segments, ofItems items = .ok segments) ↔
      ∀ t, .token t ∈ items → ∃ k, t.Follows k := by
    rw [ofItems, Outcome.exists_traverse_eq_ok_iff]
    simp only [Item.exists_resolve_eq_ok_iff]
    exact ⟨fun h t mem => h _ mem t rfl, fun h i mem t ht => h t (ht ▸ mem)⟩
  refine ⟨?_, ?_, ?_⟩
  · rw [← resolved, compile_of_scan admissible scanned]
    cases ofItems items <;> simp
  · intro p hp
    obtain ⟨meanings, source⟩ := (compile_eq_ok_iff admissible scanned).mp hp
    exact ⟨source, meanings.imp fun _ _ => Item.denotes_of_resolve⟩
  · intro notAll
    rw [compile_of_scan admissible scanned]
    cases h : ofItems items with
    | error r => exact ⟨_, rfl⟩
    | ok segments => exact absurd (resolved.mp ⟨segments, h⟩) notAll

/-- What a text is compiled to depends on the pieces that it spells, and on nothing else. -/
theorem compile_eq_ok_iff_means {σ : Char} (admissible : isSigil σ = true) {p : Pattern} :
    compile (String.singleton σ) text = .ok p ↔
      p.source = text ∧ ∃ pieces, Derives readable σ text.toList pieces ∧
        List.Forall₂ Piece.Means pieces p.segments := by
  have accepted := isSigilText_singleton admissible
  constructor
  · intro h
    cases scanned : scan (String.singleton σ) text with
    | error stop => cases stop <;> simp [compile, accepted, compileWith, scanned] at h
    | ok items =>
        obtain ⟨meanings, source⟩ := (compile_eq_ok_iff accepted scanned).mp h
        refine ⟨source, _, scan_eq_ok_iff.mp ⟨items, scanned, rfl⟩, ?_⟩
        rw [List.forall₂_map_left_iff]
        exact meanings.imp fun _ _ => Item.resolve_eq_ok_iff_means.mp
  · rintro ⟨source, pieces, derives, means⟩
    obtain ⟨items, scanned, rfl⟩ := scan_eq_ok_iff.mpr derives
    rw [List.forall₂_map_left_iff] at means
    refine (compile_eq_ok_iff accepted scanned).mpr ⟨?_, source⟩
    exact means.imp fun _ _ => Item.resolve_eq_ok_iff_means.mpr

/-- A name in another letter case and an option at its bound. -/
theorem compile_level_greatest_width :
    isSigilText "$" = true ∧ ∃ items p, scan "$" "$Level(width=1024)b" = .ok items ∧
      compile "$" "$Level(width=1024)b" = .ok p ∧ List.Forall₂ Item.Denotes items p.segments := by
  have digits : Digits "1024".toList := by decide
  have short : readable "1024".toList.length := by simp [readable, Numeral.digitLimit]
  have width : OptionText readable "width=1024".toList ("width", .integer 1024) :=
    .assignment (n := "width".toList) (by decide) .nil .nil (.numeral digits short)
  have token : TokenText readable "Level(width=1024)b".toList "Level" _ ['b'] :=
    .listed (n := "Level".toList) (by decide) (.options (.last .nil width .nil))
  have derives : Derives readable '$' "$Level(width=1024)b".toList _ :=
    .token (by decide) token (.plain (by decide) .nil)
  obtain ⟨items, scanned, pieces⟩ := scan_eq_ok_iff.mpr derives
  have follows : ∀ t, .token t ∈ items → ∃ k, t.Follows k := by
    intro t mem
    have piece := List.mem_map_of_mem (f := Item.piece) mem
    simp only [pieces, Piece.addChar, Item.piece, List.mem_cons, Piece.token.injEq, reduceCtorEq,
      List.not_mem_nil, or_false] at piece
    obtain ⟨name, options⟩ := piece
    obtain ⟨o, only, entry⟩ := List.map_eq_singleton_iff.mp options
    obtain ⟨isWidth, value⟩ := Prod.mk.inj entry
    have admits : Kind.level.Admits "width" (.int 1024) :=
      ⟨.width, List.mem_cons_self, by simp [Rule.Admits, maxLevelWidth]⟩
    refine ⟨.level, name ▸ by decide +kernel, by simp [only], ?_, by simp⟩
    simpa [only, isWidth, value, Literal.toDatum] using admits
  have compiled := compile_ok_iff_follows rfl scanned
  obtain ⟨p, hp⟩ := compiled.1.mpr follows
  exact ⟨rfl, items, p, scanned, hp, (compiled.2.1 p hp).2⟩

end Pattern

end LogLayout
