import LogLayout.Proofs.Pattern.Compilation

/-!
# Why tokens are refused

A token that scans may still mean nothing: its name is that of no kind, an option is given twice or
is unknown to the kind, a value is refused, or the value of a text token is missing. `Faulty` says
what it is for a token to have a fault at a position, which is that of the option it is about, or
that of the sigil.

The complaints of the option readers are known exactly and in order: one for each declared option
that there is an objection to (`complaints_readKnown`), and then one for each stranger
(`complaints_ofEntries`).
-/

namespace LogLayout

/-- Why a rule refuses a datum that it does not admit. -/
def Rule.reason : Rule → Datum → Reason
  | width, .int n => if n < 0 then .below 0 else .above maxLevelWidth
  | width, .level l => if l.number < 0 then .below 0 else .above maxLevelWidth
  | width, _ => .notInteger
  | alignment, _ => .noneOf ["<", ">"]
  | format, .text _ => .tooShort 1
  | quote, .text _ => .tooLong 1
  | flag, _ => .notFlag
  | format, _ => .notText
  | quote, _ => .notText
  | text, _ => .notText

/-- A reader refuses what a rule does not admit, and nothing else, for the rule's reason. -/
def Rule.Governs {α : Type} (rule : Rule) (read : Datum → Except Reason α) : Prop :=
  ∀ d reason, read d = .error reason ↔ ¬ rule.Admits d ∧ reason = rule.reason d

/-- A written token has a fault, at a position. -/
inductive WrittenToken.Faulty (t : WrittenToken) : Fault → Nat → Prop
  | unknownKind (unknown : ∀ k : Kind, ¬ k.Named t.name) : Faulty t (.unknownKind t.name) t.position
  | missingValue (named : Kind.text.Named t.name) (absent : ∀ o ∈ t.options, o.name ≠ "value") :
      Faulty t (.missingOption "value" .text) t.position
  | duplicate {k : Kind} {o : WrittenOption} {earlier later : List WrittenOption}
      (named : k.Named t.name) (given : t.options = earlier ++ o :: later)
      (again : o.name ∈ earlier.map (·.name)) : Faulty t (.duplicateOption o.name k) o.position
  | unknownOption {k : Kind} {o : WrittenOption} (named : k.Named t.name) (mem : o ∈ t.options)
      (unknown : o.name ∉ k.optionNames) : Faulty t (.unknownOption o.name k) o.position
  | refused {k : Kind} {o : WrittenOption} {rule : Rule} (named : k.Named t.name)
      (mem : o ∈ t.options) (known : (o.name, rule) ∈ k.rules)
      (refused : ¬ rule.Admits o.value.toDatum) :
      Faulty t (.invalidOption o.name k (rule.reason o.value.toDatum)) o.position

/-! ### Reasons -/

namespace Rule

theorem governs_readText : text.Governs Datum.readText := by
  intro d reason
  cases d <;> simp [Datum.readText, Admits, Rule.reason, eq_comm]

theorem governs_readFlag : flag.Governs Datum.readFlag := by
  intro d reason
  cases d <;> simp [Datum.readFlag, Admits, Rule.reason, eq_comm]

theorem governs_readTimeFormat : format.Governs Datum.readTimeFormat := by
  intro d reason
  cases d with
  | text s => by_cases h : s = "" <;> simp [Datum.readTimeFormat, Admits, Rule.reason, h, eq_comm]
  | _ => simp [Datum.readTimeFormat, Admits, Rule.reason, eq_comm]

theorem governs_readQuote : quote.Governs Datum.readQuote := by
  intro d reason
  rw [admits_quote_iff]
  cases d with
  | text s =>
      simp only [Datum.readQuote, Rule.reason]
      split <;> simp [eq_comm]
  | _ => simp [Datum.readQuote, Rule.reason, eq_comm]

theorem governs_readAlignment : alignment.Governs Datum.readAlignment := by
  intro d reason
  rw [admits_alignment_iff]
  cases d with
  | text s =>
      simp only [Datum.readAlignment, Rule.reason]
      split
      · simp
      · split <;> simp [Alignment.sign, eq_comm]
  | _ => simp [Datum.readAlignment, Rule.reason, Alignment.sign, eq_comm]

theorem governs_readWidth : width.Governs Datum.readWidth := by
  intro d reason
  rw [admits_width_iff]
  cases d with
  | int n =>
      simp only [Datum.readWidth, Rule.reason]
      split
      · simp [eq_comm]
      · split <;> simp [eq_comm]
  | level l =>
      simp only [Datum.readWidth, Rule.reason]
      split
      · simp [eq_comm]
      · split <;> simp [eq_comm]
  | _ => simp [Datum.readWidth, Rule.reason, eq_comm]

end Rule

/-! ### Complaints in order -/

/-- Why a rule refuses a datum, if it does. -/
def Rule.refusal? : Rule → Datum → Option Reason
  | width, d => Outcome.error? d.readWidth
  | alignment, d => Outcome.error? d.readAlignment
  | format, d => Outcome.error? d.readTimeFormat
  | quote, d => Outcome.error? d.readQuote
  | flag, d => Outcome.error? d.readFlag
  | text, d => Outcome.error? d.readText

theorem Rule.refusal?_eq_some_iff {rule : Rule} {d : Datum} {reason : Reason} :
    rule.refusal? d = some reason ↔ ¬ rule.Admits d ∧ reason = rule.reason d := by
  cases rule with
  | width => exact Outcome.error?_eq_some_iff.trans (governs_readWidth d reason)
  | alignment => exact Outcome.error?_eq_some_iff.trans (governs_readAlignment d reason)
  | format => exact Outcome.error?_eq_some_iff.trans (governs_readTimeFormat d reason)
  | quote => exact Outcome.error?_eq_some_iff.trans (governs_readQuote d reason)
  | flag => exact Outcome.error?_eq_some_iff.trans (governs_readFlag d reason)
  | text => exact Outcome.error?_eq_some_iff.trans (governs_readText d reason)

namespace Token

variable {k : Kind} {entries : Entries} {c : Complaint}

/-- The complaint about a declared option of a kind: that its value is refused, or, in a text token,
that it is missing. -/
def objection? (k : Kind) (entries : Entries) (r : String × Rule) : Option Complaint :=
  match Datum.lookup? entries (.text r.1) with
  | some d => (r.2.refusal? d).map (Complaint.mk [r.1])
  | none => if k = .text then some ⟨[r.1], .absent⟩ else none

theorem complaints_at' {α : Type} (path : List String) (x : Except Reason α) :
    (Checked.at' path x).complaints = ((Outcome.error? x).map (Complaint.mk path)).toList := by
  cases x <;> rfl

theorem complaints_member {α : Type} {name : String} {default : α}
    {read : Datum → Except Reason α} (rule : Rule)
    (reads : ∀ d, rule.refusal? d = Outcome.error? (read d)) (optional : k ≠ .text) :
    (Checked.member entries name default read).complaints =
      (objection? k entries (name, rule)).toList := by
  rw [Checked.member, objection?]
  cases Datum.lookup? entries (.text name) with
  | none => simp [optional]
  | some d => simp [complaints_at', reads]

theorem complaints_required {α : Type} {name : String} {read : Datum → Except Reason α}
    (rule : Rule) (reads : ∀ d, rule.refusal? d = Outcome.error? (read d)) :
    (Checked.required entries name read).complaints =
      (objection? .text entries (name, rule)).toList := by
  rw [Checked.required, objection?]
  cases Datum.lookup? entries (.text name) with
  | none => rfl
  | some d => simp [complaints_at', reads]

/-- Declared options are complained about in the order of their declaration. -/
theorem complaints_readKnown (k : Kind) (entries : Entries) :
    (readKnown k entries).complaints = k.rules.filterMap (objection? k entries) := by
  rw [List.filterMap_eq_flatMap_toList]
  cases k with
  | level =>
      simp [readKnown, readLevelOptions, Kind.rules,
        complaints_member (k := .level) .width (fun _ => rfl) (by decide),
        complaints_member (k := .level) .alignment (fun _ => rfl) (by decide)]
  | datetime =>
      simp [readKnown, Kind.rules,
        complaints_member (k := .datetime) .format (fun _ => rfl) (by decide)]
  | fields =>
      simp [readKnown, readFieldsOptions, Kind.rules,
        complaints_member (k := .fields) .text (fun _ => rfl) (by decide),
        complaints_member (k := .fields) .quote (fun _ => rfl) (by decide)]
  | span =>
      simp [readKnown, readSpanOptions, Kind.rules,
        complaints_member (k := .span) .text (fun _ => rfl) (by decide),
        complaints_member (k := .span) .flag (fun _ => rfl) (by decide),
        complaints_member (k := .span) .quote (fun _ => rfl) (by decide)]
  | text => simp [readKnown, Kind.rules, complaints_required .text (fun _ => rfl)]
  | target | message | file | line => rfl

theorem objection?_eq_some_iff {r : String × Rule} :
    objection? k entries r = some c ↔
      (∃ d, Datum.lookup? entries (.text r.1) = some d ∧ ¬ r.2.Admits d ∧
        c = ⟨[r.1], r.2.reason d⟩) ∨
      k = .text ∧ Datum.lookup? entries (.text r.1) = none ∧ c = ⟨[r.1], .absent⟩ := by
  rw [objection?]
  cases Datum.lookup? entries (.text r.1) with
  | some d =>
      simp only [Option.map_eq_some_iff, Rule.refusal?_eq_some_iff, and_assoc,
        exists_and_left, exists_eq_left, Option.some.injEq, exists_eq_left', reduceCtorEq,
        false_and, and_false, or_false]
      exact and_congr_right fun _ => eq_comm
  | none => simp [eq_comm]

end Token

/-- A refused value is reported as an invalid option. -/
theorem Fault.ofComplaint_reason (k : Kind) (name : String) (rule : Rule) (d : Datum) :
    Fault.ofComplaint k ⟨[name], rule.reason d⟩ = .invalidOption name k (rule.reason d) := by
  cases rule <;> cases d <;> simp only [Rule.reason]
  all_goals first
    | rfl
    | split <;> rfl

namespace WrittenToken

variable {t : WrittenToken}

/-- The option that is found to be given twice is the first whose name was given before. -/
theorem duplicate?_eq_some_iff {seen : List String} {options : List WrittenOption}
    {o : WrittenOption} :
    duplicate? seen options = some o ↔
      ∃ earlier later, options = earlier ++ o :: later ∧ (earlier.map (·.name)).Nodup ∧
        (∀ p ∈ earlier, p.name ∉ seen) ∧ (o.name ∈ seen ∨ o.name ∈ earlier.map (·.name)) := by
  induction options generalizing seen with
  | nil => simp [duplicate?]
  | cons p options ih =>
      rw [duplicate?]
      split
      · next again =>
          have seenBefore := List.contains_iff_mem.mp again
          constructor
          · intro h
            obtain rfl := Option.some.inj h
            exact ⟨[], options, rfl, List.nodup_nil, by simp, .inl seenBefore⟩
          · rintro ⟨earlier, later, split, -, fresh, -⟩
            cases earlier with
            | nil => rw [(List.cons.inj split).1]
            | cons q earlier =>
                obtain ⟨rfl, -⟩ := List.cons.inj split
                exact absurd seenBefore (fresh p List.mem_cons_self)
      · next fresh =>
          have unseen : p.name ∉ seen := fun h => fresh (List.contains_iff_mem.mpr h)
          rw [ih]
          constructor
          · rintro ⟨earlier, later, rfl, distinct, apart, again⟩
            refine ⟨p :: earlier, later, rfl, List.nodup_cons.mpr ⟨?_, distinct⟩, ?_, ?_⟩
            · intro mem
              obtain ⟨q, hq, same⟩ := List.mem_map.mp mem
              exact apart q hq (same ▸ List.mem_cons_self)
            · exact List.forall_mem_cons.mpr
                ⟨unseen, fun q hq seen => apart q hq (List.mem_cons_of_mem _ seen)⟩
            · simp only [List.mem_cons, List.map_cons] at again ⊢
              tauto
          · rintro ⟨earlier, later, split, distinct, apart, again⟩
            cases earlier with
            | nil =>
                obtain ⟨rfl, -⟩ := List.cons.inj split
                exact absurd (again.resolve_right (by simp)) unseen
            | cons q earlier =>
                obtain ⟨rfl, rfl⟩ := List.cons.inj split
                obtain ⟨other, distinct⟩ := List.nodup_cons.mp distinct
                obtain ⟨-, apart⟩ := List.forall_mem_cons.mp apart
                refine ⟨earlier, later, rfl, distinct, ?_, ?_⟩
                · intro r hr seen
                  rcases List.mem_cons.mp seen with same | seen
                  · exact other (List.mem_map.mpr ⟨r, hr, same⟩)
                  · exact apart r hr seen
                · simp only [List.mem_cons, List.map_cons] at again ⊢
                  tauto

/-- With distinct names the position of an option is found by its name. -/
theorem positionOf_name (distinct : (t.options.map (·.name)).Nodup) {o : WrittenOption}
    (mem : o ∈ t.options) : t.positionOf o.name = o.position := by
  have found : (t.options.find? fun p => p.name == o.name) = some o := by
    have found := (find?_name_eq_some_iff distinct).mpr ⟨mem, rfl⟩
    simpa only [BEq.comm] using found
  simp [positionOf, found]

theorem positionOf_absent {name : String} (absent : ∀ o ∈ t.options, o.name ≠ name) :
    t.positionOf name = t.position := by
  have none : (t.options.find? fun p => p.name == name) = none := by
    simpa using absent
  simp [positionOf, none]

end WrittenToken

end LogLayout
