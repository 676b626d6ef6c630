import LogLayout.Pattern.Document
import LogLayout.Proofs.Pattern.Spelling

/-!
# One judgement on tokens

A token gets into a pattern in two ways: it is written in a pattern text, or it is a segment of a
document. The text is scanned, its values are typed by the way they are written, and repeated
options are looked for; the document hands over a dictionary. Either way it is the name and the
options that are judged (`Token.judge`), so the same tokens are accepted, and the others are refused
with the same class of fault and in the same words, also where more than one thing is wrong.

`Pattern.compile_agrees_with_document` says this for every spelling of a token. A text knows where a
fault is and a document which segment has it; that is the only difference.
-/

namespace LogLayout

open Grammar

/-! ### Names with options -/

/-- The values that can be written as options: integers of not too many digits, truth values, and
texts that do not contain both quotes. -/
inductive Datum.Expressible : Datum → Prop
  | int {n : Int} (short : Numeral.Writable n) : Expressible (.int n)
  | bool (b : Bool) : Expressible (.bool b)
  | text {s : String} (quotable : Quotable s) : Expressible (.text s)

/-- Options with distinct names, all of which can be written. -/
structure ExpressibleOptions (options : List (String × Datum)) : Prop where
  distinct : (options.map Prod.fst).Nodup
  name : ∀ o ∈ options, Name o.1.toList
  value : ∀ o ∈ options, o.2.Expressible

/-- The texts of a token behind its sigil. The options are those given, in their order; blanks, the
choice of quotes and leading zeros are free, and so is a flag without a value that is set. -/
def SpellsToken (name : String) (options : List (String × Datum)) (t : List Char) : Prop :=
  ∃ written : List (String × Literal), TokenText readable t name written [] ∧
    written.map (fun w => (w.1, w.2.toDatum)) = options

namespace Token

/-- Options as a dictionary. -/
def dictionaryOf (options : List (String × Datum)) : Entries :=
  options.map fun o => (.text o.1, o.2)

/-- A token as a segment of a document. -/
def segmentOf (name : String) (options : List (String × Datum)) : Datum :=
  .dictionary [(.text "token", .text name), (.text "options", .dictionary (dictionaryOf options))]

/-- A document of one token. It may also say which text the pattern comes from. -/
def documentOf (source : Option String) (name : String) (options : List (String × Datum)) : Datum :=
  .dictionary ((source.map fun s => (.text "source", .text s)).toList ++
    [(.text "segments", .list [segmentOf name options])])

/-- The token of a name and options, or what is wrong with them. -/
def judge (name : String) (options : List (String × Datum)) : Except Fault Token :=
  match Kind.ofName? name with
  | none => .error (.unknownKind name)
  | some kind =>
    match ofEntries kind (dictionaryOf options) with
    | .valid token => .ok token
    | .invalid complaint _ => .error (.ofComplaint kind complaint)

end Token

/-- A text and a document are judged alike: they give equal patterns, or both are refused with the
same class of fault and the same message. -/
inductive JudgedAlike : Except CompileError Pattern → Except DocumentError Pattern → Prop
  | accepted {p q : Pattern} (same : p.same q = true) : JudgedAlike (.ok p) (.ok q)
  | refused {report : ParseError} {r : Rejection} (code : report.code = r.fault.code)
      (message : report.message = r.fault.message) :
      JudgedAlike (.error (.rejected report)) (.error (.rejected r))

variable {σ : Char} {name : String} {options : List (String × Datum)} {t : List Char}

/-! ### Spelled tokens -/

/-- Every token with options that can be written has a text. -/
theorem exists_spellsToken (isName : Name name.toList) (expressible : ExpressibleOptions options) :
    ∃ t, SpellsToken name options t := by
  have rows : ∃ rows, List.Forall₂ OptionSpells options rows := by
    refine exists_forall₂_iff.mpr ?_
    rintro ⟨option, d⟩ ho
    have value : d.Expressible := expressible.value _ ho
    have spells : ∃ v, d.Spells v := by
      cases value with
      | int => exact ⟨_, .int _⟩
      | bool b => exact ⟨_, .bool b⟩
      | text quotable => exact Datum.exists_spells_text quotable
    obtain ⟨v, hv⟩ := spells
    exact ⟨_, v, hv, rfl⟩
  obtain ⟨rows, spelled⟩ := rows
  have fit : ∀ o ∈ options, Name o.1.toList ∧
      ∀ n : Int, o.2 = .int n → readable (Numeral.digits n.natAbs).length := by
    intro o ho
    refine ⟨expressible.name o ho, fun n hn => ?_⟩
    have value := expressible.value o ho
    rw [hn] at value
    cases value with
    | int short => exact (Numeral.length_digits_le_iff (by decide)).mpr short
  obtain ⟨written, same, texts⟩ := exists_written_of_spells fit spelled
  have text := TokenText.listed (r := []) isName (optionList_intercalate texts)
  rw [String.ofList_toList] at text
  exact ⟨_, written, text, same⟩

/-- What a spelled token is scanned to. -/
theorem SpellsToken.exists_scan (admissible : isSigil σ = true) (h : SpellsToken name options t) :
    ∃ w : WrittenToken, scan (String.singleton σ) (String.ofList (σ :: t)) = .ok [.token w] ∧
      w.name = name ∧
      (w.options.map WrittenOption.entry).map (fun o => (o.1, o.2.toDatum)) = options := by
  obtain ⟨written, text, rfl⟩ := h
  have derives : Derives readable σ (String.ofList (σ :: t)).toList [.token name written] := by
    rw [String.toList_ofList]
    exact .token (text.head?_ne admissible) text .nil
  obtain ⟨items, scanned, pieces⟩ := scan_eq_ok_iff.mpr derives
  obtain ⟨item, rfl, piece⟩ := List.map_eq_singleton_iff.mp pieces
  cases item with
  | literal => cases piece
  | token w =>
      obtain ⟨sameName, sameOptions⟩ := Piece.token.inj piece
      exact ⟨w, scanned, sameName, by rw [sameOptions]⟩

/-! ### Both readers judge the same -/

/-- The meaning of a written token with distinct options is judged by its name and options. -/
theorem WrittenToken.resolve_judges {w : WrittenToken} (named : w.name = name)
    (given : (w.options.map WrittenOption.entry).map (fun o => (o.1, o.2.toDatum)) = options)
    (distinct : (options.map Prod.fst).Nodup) :
    w.resolve.mapError Rejection.fault = Token.judge name options := by
  have entries : w.entries = Token.dictionaryOf options := by
    simp only [w.entries_eq, Token.dictionaryOf, ← given, List.map_map]
    rfl
  have names : options.map Prod.fst = w.options.map (·.name) := by
    rw [← w.map_fst_entry, ← given, List.map_map]
    rfl
  have once : duplicate? [] w.options = none :=
    duplicate?_eq_none_iff.mpr ⟨by simp, names ▸ distinct⟩
  rw [resolve, Token.judge, named, once, entries]
  cases Kind.ofName? name with
  | none => rfl
  | some kind =>
      dsimp only
      cases Token.ofEntries kind (Token.dictionaryOf options) <;> rfl

theorem Pattern.ofItems_token (w : WrittenToken) :
    ofItems [.token w] = w.resolve.map fun token => [.token token] := by
  cases meaning : w.resolve <;> simp [ofItems, traverse, Item.resolve, meaning, Except.map]

/-- A text that is one token is judged by its name and options. -/
theorem Pattern.compile_judges (admissible : isSigil σ = true) (h : SpellsToken name options t)
    (distinct : (options.map Prod.fst).Nodup) :
    ∃ position, compile (String.singleton σ) (String.ofList (σ :: t)) =
      match Token.judge name options with
      | .ok token => .ok ⟨[.token token], String.ofList (σ :: t)⟩
      | .error fault =>
        .error (.rejected (Rejection.report ⟨fault, position⟩ (String.ofList (σ :: t)))) := by
  obtain ⟨w, scanned, named, given⟩ := h.exists_scan admissible
  have judged := WrittenToken.resolve_judges named given distinct
  rw [compile_of_scan (isSigilText_singleton admissible) scanned, ofItems_token, ← judged]
  cases w.resolve with
  | error r => exact ⟨r.position, rfl⟩
  | ok token => exact ⟨0, rfl⟩

/-- A segment for a token is judged by its name and options. -/
theorem Segment.ofDatum_judges (index : Nat) (name : String) (options : List (String × Datum)) :
    ofDatum index (Token.segmentOf name options) =
      match Token.judge name options with
      | .ok tok => .ok (.token tok)
      | .error fault => .error (.rejected ⟨fault, index⟩) := by
  have given : (if (Datum.dictionary (Token.dictionaryOf options)).isTruthy
      then .dictionary (Token.dictionaryOf options) else .dictionary []) =
        Datum.dictionary (Token.dictionaryOf options) := by
    cases options <;> rfl
  rw [Token.judge]
  cases known : Kind.ofName? name with
  | none => simp [ofDatum, Token.segmentOf, Datum.lookup?, Datum.equals, known]
  | some kind =>
      cases read : Token.ofEntries kind (Token.dictionaryOf options) <;>
        simp [ofDatum, Token.segmentOf, Datum.lookup?, Datum.equals, known, given, Token.ofDatum,
          read]

/-- So is a document of one token. -/
theorem Pattern.ofDatum_judges (source : Option String) (name : String)
    (options : List (String × Datum)) :
    ofDatum (Token.documentOf source name options) =
      match Token.judge name options with
      | .ok tok => .ok ⟨[.token tok], source.getD ""⟩
      | .error fault => .error (.rejected ⟨fault, 0⟩) := by
  have read : ofDatum (Token.documentOf source name options) = do
      return ⟨← Segment.ofData 0 [Token.segmentOf name options], source.getD ""⟩ := by
    cases source <;>
      simp [ofDatum, Token.documentOf, Datum.lookup?, Datum.equals, Datum.display, pure,
        Except.pure]
  rw [read, Segment.ofData, Segment.ofDatum_judges]
  cases Token.judge name options <;> rfl

/-- A token that is written in a text and the same token in a document are judged alike, whatever
the sigil and however the options are written. There is such a text. -/
theorem Pattern.compile_agrees_with_document (admissible : isSigil σ = true)
    (isName : Name name.toList) (expressible : ExpressibleOptions options) :
    (∃ t, SpellsToken name options t) ∧
      ∀ t, SpellsToken name options t → ∀ source,
        JudgedAlike (compile (String.singleton σ) (String.ofList (σ :: t)))
          (ofDatum (Token.documentOf source name options)) := by
  refine ⟨exists_spellsToken isName expressible, fun t spells source => ?_⟩
  obtain ⟨position, compiled⟩ := compile_judges admissible spells expressible.distinct
  rw [compiled, ofDatum_judges]
  cases Token.judge name options with
  | ok token => exact .accepted (by simp [same])
  | error fault => exact .refused rfl rfl

/-- A column that is too wide and an option that does not exist: the width is reported. -/
theorem Pattern.compile_agrees_with_document_width_and_stranger :
    SpellsToken "level" [("color", .bool true), ("width", .int 2000)]
        "level(color, width=2000)".toList ∧
      JudgedAlike
        (compile (String.singleton '%') (String.ofList "%level(color, width=2000)".toList))
        (ofDatum (Token.documentOf none "level" [("color", .bool true), ("width", .int 2000)])) ∧
      Token.judge "level" [("color", .bool true), ("width", .int 2000)] =
        .error (.invalidOption "width" .level (.above 1024)) := by
  have short : readable "2000".toList.length := by simp [readable, Numeral.digitLimit]
  have few : Numeral.Writable 2000 :=
    (Numeral.length_digits_le_iff (by decide)).mp (by simp [Numeral.digits, Numeral.digitLimit])
  have color : OptionText readable "color".toList ("color", .flag true) :=
    .flag (n := "color".toList) (by decide)
  have width : OptionText readable "width=2000".toList ("width", .integer 2000) :=
    .assignment (n := "width".toList) (by decide) .nil .nil (.numeral (by decide) short)
  have blank : Blanks [' '] := by simp [Blanks, Text.isBlank]
  have row : OptionRow readable "color, width=2000".toList
      [("color", .flag true), ("width", .integer 2000)] :=
    .more .nil color .nil (.last blank width .nil)
  have spells : SpellsToken "level" [("color", .bool true), ("width", .int 2000)]
      "level(color, width=2000)".toList :=
    ⟨_, .listed (n := "level".toList) (by decide) (.options row), rfl⟩
  have names : ∀ o ∈ [("color", Datum.bool true), ("width", Datum.int 2000)], Name o.1.toList :=
    List.forall_mem_cons.mpr ⟨by decide, List.forall_mem_singleton.mpr (by decide)⟩
  have values : ∀ o ∈ [("color", Datum.bool true), ("width", Datum.int 2000)], o.2.Expressible :=
    List.forall_mem_cons.mpr ⟨.bool true, List.forall_mem_singleton.mpr (.int few)⟩
  have admissible : isSigil '%' = true := by decide
  have isName : Name "level".toList := by decide
  have agrees := compile_agrees_with_document admissible isName ⟨by decide, names, values⟩
  exact ⟨spells, agrees.2 _ spells none, rfl⟩

end LogLayout
