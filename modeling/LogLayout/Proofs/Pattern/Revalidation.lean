import LogLayout.Proofs.Pattern.Compilation
import LogLayout.Proofs.Pattern.Loading

/-!
# Options are validated anew

A document is not trusted: the options of each token in it are held against the vocabulary of the
token's kind when it is loaded. They may be left out or be nothing, which will do for every kind but
the one that needs a value; they may be an object of options that the kind allows; other values do
not stand for options.

`Pattern.loading_revalidates_options` says this for every token segment of a document that was read.
It leaves open what becomes of values that count as false: false itself, zero, the empty text and
the empty list.
-/

namespace LogLayout

/-- A value that is no object and does not count as false. -/
inductive Json.NoOptions : Json → Prop
  | bool : NoOptions (.bool true)
  | int {n : Int} (h : n ≠ 0) : NoOptions (.int n)
  | float {x : Binary64} (h : x.toInt? ≠ some 0) : NoOptions (.float x)
  | text {s : String} (h : s ≠ "") : NoOptions (.text s)
  | list {items : List Json} (h : items ≠ []) : NoOptions (.list items)

/-- The members of an object as options by name. -/
def Json.optionsOf (members : List (String × Json)) : List (String × Datum) :=
  members.map fun m => (m.1, m.2.toDatum)

/-- A segment for a token: it has no text, and it names the token. -/
structure Segment.Tokenlike (members : List (String × Json)) (name : String) : Prop where
  noText : ∀ s, ("text", .text s) ∉ members
  token : ("token", .text name) ∈ members

/-! ### One token segment -/

namespace Segment

variable {entries : Token.Entries} {members : List (String × Json)} {name : String} {index : Nat}

/-- The datum from which the options of a token segment are read. -/
def givenOptions (entries : Token.Entries) : Datum :=
  let options := (Datum.lookup? entries (.text "options")).getD .null
  if options.isTruthy then options else .dictionary []

theorem exists_ofDatum_eq_ok_iff
    (noText : ∀ s, Datum.lookup? entries (.text "text") ≠ some (.text s))
    (token : Datum.lookup? entries (.text "token") = some (.text name)) :
    (∃ s, ofDatum index (.dictionary entries) = .ok s) ↔
      ∃ kind : Kind, kind.Named name ∧
        ∃ t, Token.ofDatum kind (givenOptions entries) = .valid t := by
  simp only [ofDatum, ← Kind.ofName?_eq_some_iff]
  split
  · next text => exact absurd text (noText _)
  · next named _ =>
      obtain rfl := Datum.text.inj (Option.some.inj (token.symm.trans named))
      rw [givenOptions]
      split
      · next unknown => simp [unknown]
      · next kind known =>
          simp only [known, Option.some.injEq, exists_eq_left']
          split
          · next t valid => exact ⟨fun _ => ⟨t, valid⟩, fun _ => ⟨_, rfl⟩⟩
          · next invalid => simp [invalid]
  · next other => exact absurd token (other _)

/-- A token segment is accepted when its token is a kind that can be read from its options. -/
theorem Tokenlike.accepted_iff (h : Tokenlike members name)
    (distinct : (members.map Prod.fst).Nodup) :
    (Json.object members).Accepted ↔ ∃ kind : Kind, kind.Named name ∧
      ∃ t, Token.ofDatum kind (givenOptions (Json.toEntries members)) = .valid t := by
  rw [Segment.accepted_iff, Json.toDatum]
  refine exists_ofDatum_eq_ok_iff ?_ (Json.lookup_of_mem distinct h.token)
  intro s found
  obtain ⟨value, mem, found'⟩ | ⟨-, none⟩ := Json.lookup_cases "text" distinct
  · rw [found'] at found
    cases value with
    | text s' => exact h.noText s' mem
    | _ => cases found
  · rw [none] at found
    cases found

end Segment

/-! ### Kinds and options -/

namespace Token

variable {kind : Kind} {members : List (String × Json)}

/-- Without options there is a token of every kind that needs no value. -/
theorem exists_ofDatum_nil_iff :
    (∃ t, ofDatum kind (.dictionary []) = .valid t) ↔ kind ≠ .text := by
  have allows : (∃ t, ofEntries kind [] = .valid t) ↔ kind.Allows [] :=
    @exists_ofEntries_eq_valid_iff_allows kind [] List.nodup_nil
  rw [ofDatum, allows]
  constructor
  · intro h isText
    obtain ⟨o, mem, -⟩ := h.complete isText
    cases mem
  · exact fun noText => ⟨List.forall_mem_nil _, fun isText => absurd isText noText⟩

theorem exists_ofDatum_object_iff (distinct : (members.map Prod.fst).Nodup) :
    (∃ t, ofDatum kind (Json.object members).toDatum = .valid t) ↔
      kind.Allows (Json.optionsOf members) := by
  have entries : Json.toEntries members =
      (Json.optionsOf members).map fun o => (.text o.1, o.2) := by
    rw [Json.toEntries_eq, Json.optionsOf, List.map_map]
    rfl
  have names : (Json.optionsOf members).map Prod.fst = members.map Prod.fst := by
    rw [Json.optionsOf, List.map_map]
    rfl
  rw [Json.toDatum, ofDatum, entries]
  exact exists_ofEntries_eq_valid_iff_allows (names ▸ distinct)

end Token

namespace Segment

variable {members options : List (String × Json)} {value : Json}

theorem givenOptions_of_absent (absent : ∀ m ∈ members, m.1 ≠ "options") :
    givenOptions (Json.toEntries members) = .dictionary [] := by
  rw [givenOptions, Json.lookup_of_absent absent]
  rfl

theorem givenOptions_of_null (distinct : (members.map Prod.fst).Nodup)
    (null : ("options", .null) ∈ members) :
    givenOptions (Json.toEntries members) = .dictionary [] := by
  rw [givenOptions, Json.lookup_of_mem distinct null]
  rfl

theorem givenOptions_of_object (distinct : (members.map Prod.fst).Nodup)
    (given : ("options", .object options) ∈ members) :
    givenOptions (Json.toEntries members) = (Json.object options).toDatum := by
  rw [givenOptions, Json.lookup_of_mem distinct given]
  cases options <;> rfl

theorem isTruthy_of_noOptions (h : value.NoOptions) : value.toDatum.isTruthy = true := by
  cases h with
  | bool => rfl
  | int h => simpa [Json.toDatum, Datum.isTruthy] using h
  | float h => simpa [Json.toDatum, Datum.isTruthy] using h
  | text h => simpa [Json.toDatum, Datum.isTruthy] using h
  | list h => simpa [Json.toDatum, Json.toData_eq, Datum.isTruthy] using h

theorem givenOptions_of_noOptions (distinct : (members.map Prod.fst).Nodup)
    (given : ("options", value) ∈ members) (h : value.NoOptions) :
    givenOptions (Json.toEntries members) = value.toDatum := by
  rw [givenOptions, Json.lookup_of_mem distinct given, Option.getD_some,
    if_pos (isTruthy_of_noOptions h)]

end Segment

theorem Token.ofDatum_ne_valid_of_noOptions {value : Json} (h : value.NoOptions) (kind : Kind)
    (t : Token) : ofDatum kind value.toDatum ≠ .valid t := by
  cases h <;> nofun

/-! ### Documents -/

namespace Pattern

variable {j : Json} {outcome : Except DocumentError Pattern} {items : List Json}
  {members : List (String × Json)} {name : String}

/-- The options of a token segment are validated when its document is loaded. Without options, or
with nothing in their place, it is accepted when its name is that of a kind which needs no value;
with an object, when its name is that of a kind which allows the members of the object. It is not
accepted with another value that does not count as false. If it is not accepted, the document is
rejected. -/
theorem loading_revalidates_options (loaded : Loaded j outcome) (lists : j.Lists items)
    (mem : .object members ∈ items) (segment : Segment.Tokenlike members name) :
    ((∀ m ∈ members, m.1 ≠ "options") ∨ ("options", .null) ∈ members →
      ((Json.object members).Accepted ↔ ∃ kind : Kind, kind.Named name ∧ kind ≠ .text)) ∧
    (∀ options, ("options", .object options) ∈ members →
      ((Json.object members).Accepted ↔
        ∃ kind : Kind, kind.Named name ∧ kind.Allows (Json.optionsOf options))) ∧
    (∀ value, ("options", value) ∈ members → value.NoOptions →
      ¬ (Json.object members).Accepted) ∧
    (¬ (Json.object members).Accepted → ∃ r, outcome = .error (.rejected r)) := by
  have decoded := decoded_of_lists loaded.decoded lists _ mem
  obtain ⟨distinct, each⟩ : (members.map Prod.fst).Nodup ∧ ∀ m ∈ members, m.2.Decoded := by
    cases decoded with
    | object distinct each => exact ⟨distinct, each⟩
  rw [segment.accepted_iff distinct]
  refine ⟨?_, ?_, ?_, ?_⟩
  · intro nothing
    have given : Segment.givenOptions (Json.toEntries members) = .dictionary [] :=
      nothing.elim Segment.givenOptions_of_absent (Segment.givenOptions_of_null distinct)
    simp only [given, Token.exists_ofDatum_nil_iff]
  · intro options given
    have names : (options.map Prod.fst).Nodup := by
      cases each _ given with
      | object names => exact names
    simp only [Segment.givenOptions_of_object distinct given,
      Token.exists_ofDatum_object_iff names]
  · rintro value given noOptions ⟨kind, -, t, valid⟩
    rw [Segment.givenOptions_of_noOptions distinct given noOptions] at valid
    exact Token.ofDatum_ne_valid_of_noOptions noOptions kind t valid
  · rw [← segment.accepted_iff distinct]
    exact loaded.rejected_of_not_accepted lists mem

/-- A level in a column of five, and a target with a list in the place of its options. -/
def listForOptions : List Json :=
  [.object [("token", .text "Level"), ("options", .object [("width", .int 5)])],
    .object [("token", .text "target"), ("options", .list [.int 0])]]

/-- The level is accepted, the target is not, and so the document is rejected. -/
theorem load_listForOptions :
    (Json.object [("token", .text "Level"), ("options", .object [("width", .int 5)])]).Accepted ∧
      ∃ r, load (String.ofList (Json.object [("segments", .list listForOptions)]).write) =
        .error (.rejected r) := by
  have width : Json.Stable (1020 + 1) (.object [("width", .int 5)]) :=
    .object (by simp) (by simpa using Json.Stable.int ⟨by decide, by decide⟩)
  have zero : Json.Stable (1020 + 1) (.list [.int 0]) :=
    .list (by simpa using Json.Stable.int ⟨by decide, by decide⟩)
  have each : ∀ j ∈ listForOptions, Json.Stable (1020 + 2) j := by
    simp only [listForOptions, List.forall_mem_cons, List.not_mem_nil, false_implies,
      implies_true, and_true]
    exact ⟨.object (by simp) (by simpa [Json.Stable.text] using width),
      .object (by simp) (by simpa [Json.Stable.text] using zero)⟩
  have loaded := Loaded.text (Json.read_write (stable_segments each))
  have lists : (Json.object [("segments", .list listForOptions)]).Lists listForOptions :=
    .given List.mem_cons_self
  have namesLevel : Segment.Tokenlike [("token", .text "Level"),
      ("options", .object [("width", .int 5)])] "Level" := ⟨by simp, by simp⟩
  have namesTarget : Segment.Tokenlike [("token", .text "target"),
      ("options", .list [.int 0])] "target" := ⟨by simp, by simp⟩
  have level := loading_revalidates_options loaded lists List.mem_cons_self namesLevel
  have target := loading_revalidates_options loaded lists
    (List.mem_cons_of_mem _ List.mem_cons_self) namesTarget
  have admits : Kind.level.Admits "width" (.int 5) :=
    ⟨.width, List.mem_cons_self, by simp [Rule.Admits, maxLevelWidth]⟩
  have allows : Kind.level.Allows (Json.optionsOf [("width", .int 5)]) :=
    ⟨by simpa [Json.optionsOf, Json.toDatum] using admits, by simp⟩
  refine ⟨(level.2.1 _ (by simp)).mpr ⟨.level, by decide, allows⟩, target.2.2.2 ?_⟩
  exact target.2.2.1 (.list [.int 0]) (by simp) (.list (by simp))

/-- A token that needs a value is not accepted without options, although its name is that of a kind;
and a level is accepted although there is a zero in the place of its options. -/
theorem load_text_token_without_options :
    Segment.Tokenlike [("token", .text "text")] "text" ∧ Kind.text.Named "text" ∧
      ¬ (Json.object [("token", .text "text")]).Accepted ∧
      load (String.ofList (Json.object [("token", .text "text")]).alone.write) =
        .error (.rejected ⟨.missingOption "value" .text, 0⟩) ∧
      load (String.ofList
          (Json.object [("token", .text "level"), ("options", .int 0)]).alone.write) =
        .ok ⟨[.token (.level {})], ""⟩ := by
  have text : Segment.ofDatum 0 (Json.object [("token", .text "text")]).toDatum =
      .error (.rejected ⟨.missingOption "value" .text, 0⟩) := rfl
  have level : Segment.ofDatum 0 (Json.object [("token", .text "level"),
      ("options", .int 0)]).toDatum = .ok (.token (.level {})) := rfl
  have stable {item : Json} (h : Json.Stable (1021 + 1) item) : Json.Stable (1021 + 3) item.alone :=
    stable_segments (by simpa using h)
  have zero : Json.Stable 1021 (.int 0) := .int ⟨by decide, by decide⟩
  refine ⟨⟨by simp, by simp⟩, by decide, Segment.not_accepted_of_error text, ?_, ?_⟩
  · rw [load, Json.read_write (stable (.object (by simp) (by simp [Json.Stable.text])))]
    exact (Segment.ofDatum_alone _).trans (by rw [text]; rfl)
  · rw [load, Json.read_write (stable (.object (by simp) (by simp [Json.Stable.text, zero])))]
    exact (Segment.ofDatum_alone _).trans (by rw [level]; rfl)

end Pattern

end LogLayout
