import LogLayout.Proofs.Complaint
import LogLayout.Proofs.Correspondence
import LogLayout.Pattern.Options
import Mathlib.Logic.Basic

/-!
# The vocabulary of token options

Which options the kinds have, what values these may have and what their defaults are, as tables. A
dictionary of options makes a token exactly when it keeps to the tables
(`exists_ofEntries_eq_valid_iff`), and then the token has for every option the value given for it,
or else the default (`ofEntries_eq_valid_iff`).
-/

namespace LogLayout

/-- What an option of some name may be. -/
inductive Rule where
  | width
  | alignment
  | format
  | quote
  | flag
  | text
  deriving DecidableEq, Repr

namespace Rule

/-- The data that a rule admits. A width may also be missing, or a level in place of its number. -/
def Admits : Rule → Datum → Prop
  | width, .null => True
  | width, .int n => 0 ≤ n ∧ n ≤ maxLevelWidth
  | width, .level l => 0 ≤ l.number ∧ l.number ≤ maxLevelWidth
  | alignment, .text s => s = "<" ∨ s = ">"
  | format, .text s => s ≠ ""
  | quote, .text s => s.length ≤ 1
  | flag, .bool _ => True
  | text, .text _ => True
  | _, _ => False

end Rule

namespace Kind

/-- The options of a kind, each with its rule. -/
def rules : Kind → List (String × Rule)
  | level => [("width", .width), ("alignment", .alignment)]
  | datetime => [("fmt", .format)]
  | fields => [("prefix", .text), ("suffix", .text), ("quote", .quote)]
  | span =>
    [("prefix", .text), ("suffix", .text), ("args", .flag), ("args_prefix", .text),
      ("args_suffix", .text), ("quote", .quote)]
  | text => [("value", .text)]
  | target | message | file | line => []

/-- The defaults of a kind's options. The value of a text token has none. -/
def defaults : Kind → List (String × Datum)
  | level => [("width", .null), ("alignment", .text "<")]
  | datetime => [("fmt", .text "%Y-%m-%d %H:%M:%S.%f")]
  | fields => [("prefix", .text ""), ("suffix", .text ""), ("quote", .text "`")]
  | span =>
    [("prefix", .text ""), ("suffix", .text ""), ("args", .bool false), ("args_prefix", .text ""),
      ("args_suffix", .text ""), ("quote", .text "`")]
  | text | target | message | file | line => []

/-- A kind admits an option of the given name and value. -/
def Admits (k : Kind) (name : String) (d : Datum) : Prop :=
  ∃ rule, (name, rule) ∈ k.rules ∧ rule.Admits d

/-- Options by name keep to the vocabulary of a kind: the kind admits each of them, and the value of
a text token is among them. -/
structure Allows (k : Kind) (options : List (String × Datum)) : Prop where
  admitted : ∀ o ∈ options, k.Admits o.1 o.2
  complete : k = .text → ∃ o ∈ options, o.1 = "value"

/-- The default of an option. -/
def default? (k : Kind) (name : String) : Option Datum :=
  (k.defaults.find? fun o => name == o.1).map Prod.snd

theorem default?_eq_some_iff {k : Kind} {name : String} {d : Datum} :
    k.default? name = some d ↔ (name, d) ∈ k.defaults := by
  have distinct : (k.defaults.map Prod.fst).Nodup := by cases k <;> decide
  rw [default?, Option.map_eq_some_iff]
  simp only [find?_name_eq_some_iff distinct]
  constructor
  · rintro ⟨o, ⟨mem, rfl⟩, rfl⟩
    exact mem
  · intro mem
    exact ⟨_, ⟨mem, rfl⟩, rfl⟩

theorem map_fst_rules (k : Kind) : k.rules.map Prod.fst = k.optionNames := by
  cases k <;> rfl

/-- An option has one rule. -/
theorem rule_unique {k : Kind} {name : String} {r r' : Rule} (h : (name, r) ∈ k.rules)
    (h' : (name, r') ∈ k.rules) : r = r' := by
  have distinct : (k.rules.map Prod.fst).Nodup := by cases k <;> decide
  have first := (find?_name_eq_some_iff distinct).mpr ⟨h, rfl⟩
  rw [(find?_name_eq_some_iff distinct).mpr ⟨h', rfl⟩] at first
  exact (Prod.mk.inj (Option.some.inj first)).2.symm

/-- Every default keeps to the rule of its option. -/
theorem admits_of_mem_defaults {k : Kind} {o : String × Datum} (h : o ∈ k.defaults) :
    k.Admits o.1 o.2 := by
  have short : Rule.quote.Admits (.text "`") := (by decide : "`".length ≤ 1)
  cases k <;> simp only [defaults, List.mem_cons, List.not_mem_nil, or_false] at h
  case level =>
    obtain rfl | rfl := h
    · exact ⟨.width, by simp [rules], trivial⟩
    · exact ⟨.alignment, by simp [rules], .inl rfl⟩
  case datetime =>
    subst h
    exact ⟨.format, by simp [rules], by simp [Rule.Admits]⟩
  case fields =>
    obtain rfl | rfl | rfl := h
    · exact ⟨.text, by simp [rules], trivial⟩
    · exact ⟨.text, by simp [rules], trivial⟩
    · exact ⟨.quote, by simp [rules], short⟩
  case span =>
    obtain rfl | rfl | rfl | rfl | rfl | rfl := h
    · exact ⟨.text, by simp [rules], trivial⟩
    · exact ⟨.text, by simp [rules], trivial⟩
    · exact ⟨.flag, by simp [rules], trivial⟩
    · exact ⟨.text, by simp [rules], trivial⟩
    · exact ⟨.text, by simp [rules], trivial⟩
    · exact ⟨.quote, by simp [rules], short⟩

end Kind

namespace Datum

theorem equals_text (s t : String) : equals (.text s) (.text t) = (s == t) := by
  simp [equals]

/-- Among members whose keys are texts, a text is looked up by name. -/
theorem lookup?_map_text {α : Type} {name : α → String} {value : α → Datum} {l : List α}
    {s : String} :
    lookup? (l.map fun a => (.text (name a), value a)) (.text s) =
      (l.find? fun a => s == name a).map value := by
  simp [lookup?, List.find?_map, Function.comp_def, equals_text]

/-- The datum with a level replaced by its number. -/
def plain : Datum → Datum
  | level l => int l.number
  | d => d

/-- A reader undoes a way to write values as data, and reads nothing else. -/
structure Decodes {α : Type} (read : Datum → Except Reason α) (write : α → Datum) : Prop where
  plain_write : ∀ a, (write a).plain = write a
  read_eq_ok_iff : ∀ {d a}, read d = .ok a ↔ d.plain = write a

theorem Decodes.injective {α : Type} {read : Datum → Except Reason α} {write : α → Datum}
    (h : Decodes read write) : Function.Injective write := by
  intro a b hab
  have hb : read (write a) = .ok b := h.read_eq_ok_iff.mpr (hab ▸ h.plain_write b)
  rw [h.read_eq_ok_iff.mpr (h.plain_write a)] at hb
  exact Except.ok.inj hb

/-- The datum of a width. -/
def ofWidth : Option (Fin (maxLevelWidth + 1)) → Datum
  | none => .null
  | some w => .int w.val

theorem decodes_readText : Decodes readText text where
  plain_write _ := rfl
  read_eq_ok_iff {d a} := by
    cases d <;> simp [readText, plain]

theorem decodes_readFlag : Decodes readFlag bool where
  plain_write _ := rfl
  read_eq_ok_iff {d a} := by
    cases d <;> simp [readFlag, plain]

theorem decodes_readTimeFormat : Decodes readTimeFormat (fun f => text f.text) where
  plain_write _ := rfl
  read_eq_ok_iff {d f} := by
    cases d with
    | text s =>
        simp only [readTimeFormat, plain, text.injEq]
        split
        · next h => simpa [h] using f.nonempty.symm
        · next h =>
            rw [Except.ok.injEq, TimeFormat.mk.injEq]
    | _ => simp [readTimeFormat, plain]

theorem decodes_readQuote : Decodes readQuote (fun q => text (Token.quoteText q)) where
  plain_write _ := rfl
  read_eq_ok_iff {d q} := by
    cases d with
    | text s =>
        simp only [readQuote, plain, text.injEq, ← String.toList_inj]
        split
        · next h => cases q <;> simp [h, Token.quoteText]
        · next c h => cases q <;> simp [h, Token.quoteText]
        · next none one =>
            cases q with
            | none => simpa [Token.quoteText] using none
            | some c => simpa [Token.quoteText] using one c
    | _ => simp [readQuote, plain]

theorem decodes_readAlignment : Decodes readAlignment (fun a => text a.sign) where
  plain_write _ := rfl
  read_eq_ok_iff {d a} := by
    cases d with
    | text s =>
        simp only [readAlignment, plain, text.injEq]
        split
        · next h => cases a <;> simp [h, Alignment.sign]
        · next notLeft =>
            split
            · next h => cases a <;> simp [h, Alignment.sign]
            · next notRight => cases a <;> simp [notLeft, notRight]
    | _ => simp [readAlignment, plain]

/-- A number is a width exactly when it lies between zero and the greatest width. -/
theorem ofWidth_eq_int_iff {n : Int} {w : Option (Fin (maxLevelWidth + 1))} :
    int n = ofWidth w ↔ ∃ h : 0 ≤ n ∧ n ≤ maxLevelWidth, w = some ⟨n.toNat, by omega⟩ := by
  cases w with
  | none => simp [ofWidth]
  | some w =>
      simp only [ofWidth, int.injEq, Option.some.injEq, Fin.ext_iff]
      constructor
      · intro h
        exact ⟨by omega, by omega⟩
      · rintro ⟨bounds, h⟩
        omega

theorem decodes_readWidth : Decodes readWidth ofWidth where
  plain_write w := by cases w <;> rfl
  read_eq_ok_iff {d w} := by
    have within (n : Int) : readWidth (int n) = .ok w ↔ int n = ofWidth w := by
      rw [ofWidth_eq_int_iff]
      simp only [readWidth]
      split
      · next negative =>
          simp only [reduceCtorEq, false_iff, not_exists]
          intro bounds
          omega
      · next notNegative =>
          split
          · next h =>
              have bounds : 0 ≤ n ∧ n ≤ maxLevelWidth := by omega
              simp [bounds, eq_comm]
          · next large =>
              simp only [reduceCtorEq, false_iff, not_exists]
              intro bounds
              omega
    cases d with
    | int n => exact within n
    | level l => exact within l.number
    | _ => cases w <;> simp [readWidth, plain, ofWidth]

end Datum

/-- The value of an option by a dictionary: the one given there, or else the default. -/
def Kind.valueOf? (k : Kind) (entries : Token.Entries) (name : String) : Option Datum :=
  ((Datum.lookup? entries (.text name)).map Datum.plain).or (k.default? name)

namespace Rule

variable {d : Datum}

theorem admits_text_iff : text.Admits d ↔ ∃ s, d.readText = .ok s := by
  cases d <;> simp [Admits, Datum.readText]

theorem admits_flag_iff : flag.Admits d ↔ ∃ b, d.readFlag = .ok b := by
  cases d <;> simp [Admits, Datum.readFlag]

theorem admits_format_iff : format.Admits d ↔ ∃ f, d.readTimeFormat = .ok f := by
  simp only [Datum.decodes_readTimeFormat.read_eq_ok_iff]
  cases d with
  | text s => exact ⟨fun h => ⟨⟨s, h⟩, rfl⟩, fun ⟨f, h⟩ => Datum.text.inj h ▸ f.nonempty⟩
  | _ => simp [Admits, Datum.plain]

theorem admits_quote_iff : quote.Admits d ↔ ∃ q, d.readQuote = .ok q := by
  simp only [Datum.decodes_readQuote.read_eq_ok_iff]
  cases d with
  | text s =>
      simp only [Admits, Datum.plain, Datum.text.injEq]
      constructor
      · intro h
        match hs : s.toList with
        | [] => exact ⟨none, String.toList_inj.mp hs⟩
        | [c] => exact ⟨some c, by simpa [Token.quoteText] using congrArg String.ofList hs⟩
        | _ :: _ :: _ => simp [← String.length_toList, hs] at h
      · rintro ⟨q, rfl⟩
        cases q <;> simp [Token.quoteText]
  | _ => simp [Admits, Datum.plain]

theorem admits_alignment_iff : alignment.Admits d ↔ ∃ a, d.readAlignment = .ok a := by
  simp only [Datum.decodes_readAlignment.read_eq_ok_iff]
  cases d with
  | text s =>
      simp only [Admits, Datum.plain, Datum.text.injEq]
      constructor
      · rintro (rfl | rfl)
        · exact ⟨.left, rfl⟩
        · exact ⟨.right, rfl⟩
      · rintro ⟨a, rfl⟩
        cases a <;> simp [Alignment.sign]
  | _ => simp [Admits, Datum.plain]

theorem admits_width_iff : width.Admits d ↔ ∃ w, d.readWidth = .ok w := by
  simp only [Datum.decodes_readWidth.read_eq_ok_iff]
  cases d with
  | null => exact ⟨fun _ => ⟨none, rfl⟩, fun _ => trivial⟩
  | int n => simp [Admits, Datum.plain, Datum.ofWidth_eq_int_iff, exists_comm]
  | level l => simp [Admits, Datum.plain, Datum.ofWidth_eq_int_iff, exists_comm]
  | _ =>
    simp only [Admits, Datum.plain, false_iff, not_exists]
    rintro (_ | _) <;> simp [Datum.ofWidth]

end Rule

namespace Token

variable {kind : Kind} {entries : Entries} {t : Token}

/-- All keys are options of the kind. -/
theorem strangers_eq_nil_iff :
    strangers kind entries = [] ↔
      ∀ e ∈ entries, ∃ name ∈ kind.optionNames, e.1 = .text name := by
  simp only [strangers, List.filterMap_eq_nil_iff]
  refine forall_congr' fun e => forall_congr' fun _ => ?_
  obtain ⟨key, d⟩ := e
  cases key <;> simp

theorem kind_of_readKnown (h : readKnown kind entries = .valid t) : t.kind = kind := by
  cases kind <;> simp only [readKnown, Checked.map_eq_valid_iff, Checked.valid.injEq] at h
  case target | message | file | line => exact h ▸ rfl
  all_goals
    obtain ⟨_, -, rfl⟩ := h
    rfl

theorem options_level (o : LevelOptions) :
    (level o).options =
      [("width", Datum.ofWidth o.width), ("alignment", .text o.alignment.sign)] := by
  simp only [options]
  cases o.width <;> rfl

section Members

variable {k : Kind} {name : String} {α : Type} {default a : α} {read : Datum → Except Reason α}
  {write : α → Datum}

theorem member_eq_valid_iff (decodes : Datum.Decodes read write)
    (byDefault : k.default? name = some (write default)) :
    Checked.member entries name default read = .valid a ↔
      k.valueOf? entries name = some (write a) := by
  rw [Checked.member_eq_valid_iff, Kind.valueOf?, byDefault]
  cases Datum.lookup? entries (.text name) with
  | some d => simp [decodes.read_eq_ok_iff]
  | none => simp [decodes.injective.eq_iff]

theorem required_eq_valid_iff (decodes : Datum.Decodes read write)
    (noDefault : k.default? name = none) :
    Checked.required entries name read = .valid a ↔
      k.valueOf? entries name = some (write a) := by
  rw [Checked.required_eq_valid_iff, Kind.valueOf?, noDefault]
  cases Datum.lookup? entries (.text name) with
  | some d => simp [decodes.read_eq_ok_iff]
  | none => simp

end Members

theorem readLevelOptions_eq_valid_iff {o : LevelOptions} :
    readLevelOptions entries = .valid o ↔
      ∀ p ∈ (level o).options, Kind.level.valueOf? entries p.1 = some p.2 := by
  have width (w) : Checked.member entries "width" none Datum.readWidth = .valid w ↔ _ :=
    member_eq_valid_iff Datum.decodes_readWidth (k := .level) rfl
  have alignment (a) :
      Checked.member entries "alignment" .left Datum.readAlignment = .valid a ↔ _ :=
    member_eq_valid_iff Datum.decodes_readAlignment (k := .level) rfl
  simp only [readLevelOptions, Checked.map_eq_valid_iff, Checked.apply_eq_valid_iff, width,
    alignment, options_level, List.forall_mem_cons, List.not_mem_nil, false_implies, implies_true,
    and_true]
  constructor
  · rintro ⟨_, ⟨w, hw, rfl⟩, a, ha, rfl⟩
    exact ⟨hw, ha⟩
  · rintro ⟨hw, ha⟩
    exact ⟨_, ⟨o.width, hw, rfl⟩, o.alignment, ha, rfl⟩

theorem readFieldsOptions_eq_valid_iff {o : FieldsOptions} :
    readFieldsOptions entries = .valid o ↔
      ∀ p ∈ (fields o).options, Kind.fields.valueOf? entries p.1 = some p.2 := by
  have opening (s) : Checked.member entries "prefix" "" Datum.readText = .valid s ↔ _ :=
    member_eq_valid_iff Datum.decodes_readText (k := .fields) rfl
  have closing (s) : Checked.member entries "suffix" "" Datum.readText = .valid s ↔ _ :=
    member_eq_valid_iff Datum.decodes_readText (k := .fields) rfl
  have quote (q) :
      Checked.member entries "quote" (some defaultQuote) Datum.readQuote = .valid q ↔ _ :=
    member_eq_valid_iff Datum.decodes_readQuote (k := .fields) rfl
  simp only [readFieldsOptions, Checked.map_eq_valid_iff, Checked.apply_eq_valid_iff, opening,
    closing, quote, options, List.forall_mem_cons, List.not_mem_nil, false_implies, implies_true,
    and_true]
  constructor
  · rintro ⟨_, ⟨_, ⟨_, ho, rfl⟩, _, hc, rfl⟩, _, hq, rfl⟩
    exact ⟨ho, hc, hq⟩
  · rintro ⟨ho, hc, hq⟩
    exact ⟨_, ⟨_, ⟨_, ho, rfl⟩, _, hc, rfl⟩, _, hq, rfl⟩

theorem readSpanOptions_eq_valid_iff {o : SpanOptions} :
    readSpanOptions entries = .valid o ↔
      ∀ p ∈ (span o).options, Kind.span.valueOf? entries p.1 = some p.2 := by
  have opening (s) : Checked.member entries "prefix" "" Datum.readText = .valid s ↔ _ :=
    member_eq_valid_iff Datum.decodes_readText (k := .span) rfl
  have closing (s) : Checked.member entries "suffix" "" Datum.readText = .valid s ↔ _ :=
    member_eq_valid_iff Datum.decodes_readText (k := .span) rfl
  have args (b) : Checked.member entries "args" false Datum.readFlag = .valid b ↔ _ :=
    member_eq_valid_iff Datum.decodes_readFlag (k := .span) rfl
  have argsOpening (s) : Checked.member entries "args_prefix" "" Datum.readText = .valid s ↔ _ :=
    member_eq_valid_iff Datum.decodes_readText (k := .span) rfl
  have argsClosing (s) : Checked.member entries "args_suffix" "" Datum.readText = .valid s ↔ _ :=
    member_eq_valid_iff Datum.decodes_readText (k := .span) rfl
  have quote (q) :
      Checked.member entries "quote" (some defaultQuote) Datum.readQuote = .valid q ↔ _ :=
    member_eq_valid_iff Datum.decodes_readQuote (k := .span) rfl
  simp only [readSpanOptions, Checked.map_eq_valid_iff, Checked.apply_eq_valid_iff, opening,
    closing, args, argsOpening, argsClosing, quote, options, List.forall_mem_cons,
    List.not_mem_nil, false_implies, implies_true, and_true]
  constructor
  · rintro ⟨_, ⟨_, ⟨_, ⟨_, ⟨_, ⟨_, ho, rfl⟩, _, hc, rfl⟩, _, ha, rfl⟩, _, hao, rfl⟩, _, hac, rfl⟩,
      _, hq, rfl⟩
    exact ⟨ho, hc, ha, hao, hac, hq⟩
  · rintro ⟨ho, hc, ha, hao, hac, hq⟩
    exact ⟨_, ⟨_, ⟨_, ⟨_, ⟨_, ⟨_, ho, rfl⟩, _, hc, rfl⟩, _, ha, rfl⟩, _, hao, rfl⟩, _, hac, rfl⟩,
      _, hq, rfl⟩

theorem readKnown_kind_eq_valid_iff :
    readKnown t.kind entries = .valid t ↔
      ∀ o ∈ t.options, t.kind.valueOf? entries o.1 = some o.2 := by
  cases t with
  | level o => simp [readKnown, Checked.map_eq_valid_iff, kind, readLevelOptions_eq_valid_iff]
  | fields o => simp [readKnown, Checked.map_eq_valid_iff, kind, readFieldsOptions_eq_valid_iff]
  | span o => simp [readKnown, Checked.map_eq_valid_iff, kind, readSpanOptions_eq_valid_iff]
  | datetime f =>
      have format : Checked.member entries "fmt" .standard Datum.readTimeFormat = .valid f ↔ _ :=
        member_eq_valid_iff Datum.decodes_readTimeFormat (k := .datetime) rfl
      simp [readKnown, Checked.map_eq_valid_iff, kind, format, options]
  | text s =>
      have value : Checked.required entries "value" Datum.readText = .valid s ↔ _ :=
        required_eq_valid_iff Datum.decodes_readText (k := .text) rfl
      simp [readKnown, Checked.map_eq_valid_iff, kind, value, options]
  | target | message | file | line => simp [readKnown, options, kind]

/-- The token that a dictionary makes has for every option the value given for it, or else the
default; nothing else is given. -/
theorem ofEntries_eq_valid_iff :
    ofEntries kind entries = .valid t ↔
      t.kind = kind ∧ strangers kind entries = [] ∧
        ∀ o ∈ t.options, kind.valueOf? entries o.1 = some o.2 := by
  rw [ofEntries, Checked.butFor_eq_valid_iff]
  constructor
  · rintro ⟨known, noStranger⟩
    obtain rfl := kind_of_readKnown known
    exact ⟨rfl, noStranger, readKnown_kind_eq_valid_iff.mp known⟩
  · rintro ⟨rfl, noStranger, given⟩
    exact ⟨readKnown_kind_eq_valid_iff.mpr given, noStranger⟩

/-- The options of a kind can be read exactly when each of those given keeps to its rule, and the
value of a text token is given. -/
theorem complaints_readKnown_eq_nil_iff :
    (readKnown kind entries).complaints = [] ↔
      (∀ r ∈ kind.rules, ∀ d, Datum.lookup? entries (.text r.1) = some d → r.2.Admits d) ∧
        (kind = .text → Datum.lookup? entries (.text "value") ≠ none) := by
  cases kind <;>
    simp [readKnown, readLevelOptions, readFieldsOptions, readSpanOptions, Kind.rules,
      Checked.complaints_valid, Checked.complaints_member_eq_nil_iff,
      Checked.complaints_required_eq_nil_iff, Rule.admits_text_iff, Rule.admits_flag_iff,
      Rule.admits_format_iff, Rule.admits_quote_iff, Rule.admits_alignment_iff,
      Rule.admits_width_iff]

/-- A dictionary makes a token exactly when it keeps to the vocabulary of the kind. -/
theorem exists_ofEntries_eq_valid_iff :
    (∃ t, ofEntries kind entries = .valid t) ↔
      strangers kind entries = [] ∧
        (∀ r ∈ kind.rules, ∀ d, Datum.lookup? entries (.text r.1) = some d → r.2.Admits d) ∧
        (kind = .text → Datum.lookup? entries (.text "value") ≠ none) := by
  rw [← Checked.complaints_eq_nil_iff, complaints_ofEntries, List.append_eq_nil_iff,
    complaints_readKnown_eq_nil_iff, and_comm]

/-- Options with distinct names make a token exactly when the kind allows them. -/
theorem exists_ofEntries_eq_valid_iff_allows {options : List (String × Datum)}
    (distinct : (options.map Prod.fst).Nodup) :
    (∃ t, ofEntries kind (options.map fun o => (.text o.1, o.2)) = .valid t) ↔
      kind.Allows options := by
  have given {name : String} {d : Datum} :
      Datum.lookup? (options.map fun o => (.text o.1, o.2)) (.text name) = some d ↔
        (name, d) ∈ options := by
    rw [Datum.lookup?_map_text, Option.map_eq_some_iff]
    simp only [find?_name_eq_some_iff distinct]
    constructor
    · rintro ⟨o, ⟨mem, rfl⟩, rfl⟩
      exact mem
    · intro mem
      exact ⟨_, ⟨mem, rfl⟩, rfl⟩
  have absent {name : String} :
      Datum.lookup? (options.map fun o => (.text o.1, o.2)) (.text name) = none ↔
        ∀ o ∈ options, o.1 ≠ name := by
    rw [Datum.lookup?_map_text, Option.map_eq_none_iff, List.find?_eq_none]
    simp only [beq_iff_eq, eq_comm (a := name), ne_eq]
  have known : strangers kind (options.map fun o => (.text o.1, o.2)) = [] ↔
      ∀ o ∈ options, o.1 ∈ kind.optionNames := by
    rw [strangers_eq_nil_iff, List.forall_mem_map]
    simp
  rw [exists_ofEntries_eq_valid_iff, known]
  constructor
  · rintro ⟨ofKind, admitted, complete⟩
    refine ⟨fun o mem => ?_, fun isText => ?_⟩
    · have name := ofKind o mem
      rw [← Kind.map_fst_rules] at name
      obtain ⟨⟨_, rule⟩, ruleMem, rfl⟩ := List.mem_map.mp name
      exact ⟨rule, ruleMem, admitted _ ruleMem _ (given.mpr mem)⟩
    · refine Classical.byContradiction fun none => complete isText (absent.mpr ?_)
      intro o mem name
      exact none ⟨o, mem, name⟩
  · rintro ⟨admitted, complete⟩
    refine ⟨fun o mem => ?_, ?_, fun isText none => ?_⟩
    · obtain ⟨rule, ruleMem, -⟩ := admitted o mem
      rw [← Kind.map_fst_rules]
      exact List.mem_map_of_mem ruleMem
    · rintro ⟨name, rule⟩ ruleMem d found
      obtain ⟨rule', ruleMem', admits⟩ := admitted _ (given.mp found)
      exact Kind.rule_unique ruleMem ruleMem' ▸ admits
    · obtain ⟨o, mem, name⟩ := complete isText
      exact absent.mp none o mem name

end Token

end LogLayout
