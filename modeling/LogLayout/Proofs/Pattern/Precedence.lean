import LogLayout.Proofs.Pattern.Refusal

/-!
# Which fault of a token comes first

A token can have any number of faults, and it is refused for one of them. An unknown kind comes
before an option given twice, that before what is wrong with a declared option, in the order of
declaration, and unknown options come last. Within each of these classes it is the first one.

`FirstFault` states this order, and `WrittenToken.resolve_eq_error_iff` says that a token is refused
for that fault, at its position. In particular the token really has the fault (`faulty_of_resolve`).
-/

namespace LogLayout

theorem Checked.head?_complaints_eq_some_iff {α : Type} {c : Checked α} {first : Complaint} :
    c.complaints.head? = some first ↔ ∃ rest, c = .invalid first rest := by
  cases c <;> simp [complaints]

namespace Token

variable {k : Kind} {entries : Entries}

/-- The first complaint about a dictionary of options: the first one about a declared option, or
else the first one about a stranger. -/
theorem ofEntries_eq_invalid_iff {first : Complaint} :
    (∃ rest, ofEntries k entries = .invalid first rest) ↔
      k.rules.findSome? (objection? k entries) = some first ∨
        k.rules.findSome? (objection? k entries) = none ∧
          (strangers k entries).head? = some first := by
  rw [← Checked.head?_complaints_eq_some_iff, complaints_ofEntries, complaints_readKnown,
    List.head?_append, List.head?_filterMap, Option.or_eq_some_iff]

end Token

namespace WrittenToken

variable {t : WrittenToken} {k : Kind}

/-- A written token is at fault in a declared option of a kind: the option has a value that its rule
refuses, or it is that of a text token, which is required, and is missing. -/
inductive OptionFault (t : WrittenToken) (k : Kind) : String × Rule → Fault → Nat → Prop
  | refused {o : WrittenOption} {rule : Rule} (mem : o ∈ t.options)
      (refused : ¬ rule.Admits o.value.toDatum) :
      OptionFault t k (o.name, rule) (.invalidOption o.name k (rule.reason o.value.toDatum))
        o.position
  | missing {name : String} {rule : Rule} (isText : k = .text)
      (absent : ∀ o ∈ t.options, o.name ≠ name) :
      OptionFault t k (name, rule) (.missingOption name k) t.position

/-- The fault of a written token that comes first, and its position: that the name is that of no
kind; else that an option is given twice, of several such options the first; else the fault of a
declared option, of several the one declared first; else the first option that is unknown. -/
inductive FirstFault (t : WrittenToken) : Fault → Nat → Prop
  | unknownKind (unknown : ∀ k : Kind, ¬ k.Named t.name) :
      FirstFault t (.unknownKind t.name) t.position
  | duplicate {k : Kind} {o : WrittenOption} {earlier later : List WrittenOption}
      (named : k.Named t.name) (given : t.options = earlier ++ o :: later)
      (distinct : (earlier.map (·.name)).Nodup) (again : o.name ∈ earlier.map (·.name)) :
      FirstFault t (.duplicateOption o.name k) o.position
  | declared {k : Kind} {r : String × Rule} {before after : List (String × Rule)} {fault : Fault}
      {position : Nat} (named : k.Named t.name) (distinct : (t.options.map (·.name)).Nodup)
      (order : k.rules = before ++ r :: after)
      (fine : ∀ r' ∈ before, ∀ fault' position', ¬ t.OptionFault k r' fault' position')
      (faulty : t.OptionFault k r fault position) : FirstFault t fault position
  | unknownOption {k : Kind} {o : WrittenOption} {earlier later : List WrittenOption}
      (named : k.Named t.name) (distinct : (t.options.map (·.name)).Nodup)
      (fine : ∀ r ∈ k.rules, ∀ fault position, ¬ t.OptionFault k r fault position)
      (given : t.options = earlier ++ o :: later) (known : ∀ p ∈ earlier, p.name ∈ k.optionNames)
      (unknown : o.name ∉ k.optionNames) : FirstFault t (.unknownOption o.name k) o.position

/-- A declared option is at fault when there is an objection to it, and the fault is where the
option of that name is. -/
theorem optionFault_iff (distinct : (t.options.map (·.name)).Nodup) {r : String × Rule}
    {fault : Fault} {position : Nat} :
    t.OptionFault k r fault position ↔
      ∃ c, Token.objection? k t.entries r = some c ∧ fault = .ofComplaint k c ∧
        position = t.positionOf (c.path.headD "") := by
  simp only [Token.objection?_eq_some_iff]
  constructor
  · intro faulty
    cases faulty with
    | @refused o rule mem refused =>
        have given := (lookup?_entries_eq_some_iff distinct).mpr ⟨o, mem, rfl, rfl⟩
        refine ⟨_, .inl ⟨_, given, refused, rfl⟩, ?_, (positionOf_name distinct mem).symm⟩
        rw [Fault.ofComplaint_reason]
    | @missing name rule isText absent =>
        have none := lookup?_entries_eq_none_iff.mpr absent
        exact ⟨_, .inr ⟨isText, none, rfl⟩, rfl, (positionOf_absent absent).symm⟩
  · obtain ⟨name, rule⟩ := r
    rintro ⟨c, ⟨d, given, refused, rfl⟩ | ⟨isText, none, rfl⟩, rfl, rfl⟩
    · obtain ⟨o, mem, rfl, rfl⟩ := (lookup?_entries_eq_some_iff distinct).mp given
      rw [Fault.ofComplaint_reason]
      exact positionOf_name distinct mem ▸ .refused mem refused
    · have absent := lookup?_entries_eq_none_iff.mp none
      exact positionOf_absent absent ▸ .missing isText absent

theorem objection?_eq_none_iff (distinct : (t.options.map (·.name)).Nodup) {r : String × Rule} :
    Token.objection? k t.entries r = none ↔
      ∀ fault position, ¬ t.OptionFault k r fault position := by
  constructor
  · intro none fault position faulty
    obtain ⟨c, objection, -⟩ := (optionFault_iff distinct).mp faulty
    rw [none] at objection
    cases objection
  · intro fine
    cases objection : Token.objection? k t.entries r with
    | none => rfl
    | some c =>
        have faulty := (optionFault_iff distinct).mpr ⟨c, objection, rfl, rfl⟩
        exact absurd faulty (fine _ _)

/-- The first stranger among the written options. -/
theorem head?_strangers_eq_some_iff {c : Complaint} :
    (Token.strangers k t.entries).head? = some c ↔
      ∃ earlier o later, t.options = earlier ++ o :: later ∧
        (o.name ∉ k.optionNames ∧ ⟨[o.name], .unexpected⟩ = c) ∧
          ∀ p ∈ earlier, p.name ∈ k.optionNames := by
  rw [Token.strangers, List.head?_filterMap, entries, List.findSome?_map,
    List.findSome?_eq_some_iff]
  simp

theorem firstFault_of_resolve {r : Rejection} (h : t.resolve = .error r) :
    t.FirstFault r.fault r.position := by
  rw [resolve] at h
  split at h
  · next unknown =>
      obtain rfl := Except.error.inj h
      refine .unknownKind fun k named => ?_
      rw [Kind.ofName?_eq_some_iff.mpr named] at unknown
      cases unknown
  · next k known =>
      have named := Kind.ofName?_eq_some_iff.mp known
      split at h
      · next o again =>
          obtain rfl := Except.error.inj h
          obtain ⟨earlier, later, given, distinct, -, found⟩ := duplicate?_eq_some_iff.mp again
          exact .duplicate named given distinct (found.resolve_left (by simp))
      · next once =>
          have distinct := (duplicate?_eq_none_iff.mp once).2
          split at h
          · cases h
          · next complaint rest invalid =>
              obtain rfl := Except.error.inj h
              rcases Token.ofEntries_eq_invalid_iff.mp ⟨rest, invalid⟩ with found | ⟨none, found⟩
              · obtain ⟨before, r, after, order, objection, fine⟩ :=
                  List.findSome?_eq_some_iff.mp found
                exact .declared named distinct order
                  (fun r' mem => (objection?_eq_none_iff distinct).mp (fine r' mem))
                  ((optionFault_iff distinct).mpr ⟨complaint, objection, rfl, rfl⟩)
              · obtain ⟨earlier, o, later, given, ⟨unknown, rfl⟩, known⟩ :=
                  head?_strangers_eq_some_iff.mp found
                have mem : o ∈ t.options := by simp [given]
                have fine := List.findSome?_eq_none_iff.mp none
                exact positionOf_name distinct mem ▸ .unknownOption named distinct
                  (fun r' mem => (objection?_eq_none_iff distinct).mp (fine r' mem)) given known
                  unknown

/-- The fault that comes first is a fault. -/
theorem FirstFault.faulty {fault : Fault} {position : Nat} (h : t.FirstFault fault position) :
    t.Faulty fault position := by
  cases h with
  | unknownKind unknown => exact .unknownKind unknown
  | duplicate named given _ again => exact .duplicate named given again
  | @declared k r _ _ _ _ named _ order _ faulty =>
      have known : r ∈ k.rules := by simp [order]
      cases faulty with
      | refused mem refused => exact .refused named mem known refused
      | @missing name rule isText absent =>
          subst isText
          obtain rfl : name = "value" := by
            simp only [Kind.rules, List.mem_singleton, Prod.mk.injEq] at known
            exact known.1
          exact .missingValue named absent
  | unknownOption named _ _ given _ unknown =>
      exact .unknownOption named (by simp [given]) unknown

/-- The fault for which a written token has no meaning is a fault of it, and it is where the
rejection says. -/
theorem faulty_of_resolve {r : Rejection} (h : t.resolve = .error r) :
    t.Faulty r.fault r.position :=
  (firstFault_of_resolve h).faulty

theorem resolve_of_firstFault {fault : Fault} {position : Nat} (h : t.FirstFault fault position) :
    t.resolve = .error ⟨fault, position⟩ := by
  -- Options with distinct names are judged by the first complaint about them.
  have judged {k : Kind} (named : k.Named t.name) (distinct : (t.options.map (·.name)).Nodup)
      {c : Complaint} (first : ∃ rest, Token.ofEntries k t.entries = .invalid c rest) :
      t.resolve = .error ⟨.ofComplaint k c, t.positionOf (c.path.headD "")⟩ := by
    have once : duplicate? [] t.options = none := duplicate?_eq_none_iff.mpr ⟨by simp, distinct⟩
    obtain ⟨rest, invalid⟩ := first
    simp only [resolve, Kind.ofName?_eq_some_iff.mpr named, once, invalid]
  cases h with
  | unknownKind unknown =>
      have none : Kind.ofName? t.name = none := by
        refine Option.eq_none_iff_forall_ne_some.mpr fun k known => ?_
        exact unknown k (Kind.ofName?_eq_some_iff.mp known)
      simp only [resolve, none]
  | duplicate named given distinct again =>
      have found : duplicate? [] t.options = some _ :=
        duplicate?_eq_some_iff.mpr ⟨_, _, given, distinct, by simp, .inr again⟩
      simp only [resolve, Kind.ofName?_eq_some_iff.mpr named, found]
  | declared named distinct order fine faulty =>
      obtain ⟨c, objection, rfl, rfl⟩ := (optionFault_iff distinct).mp faulty
      refine judged named distinct (Token.ofEntries_eq_invalid_iff.mpr (.inl ?_))
      exact List.findSome?_eq_some_iff.mpr ⟨_, _, _, order, objection,
        fun r' mem => (objection?_eq_none_iff distinct).mpr (fine r' mem)⟩
  | @unknownOption k o _ _ named distinct fine given known unknown =>
      have mem : o ∈ t.options := by simp [given]
      have none := List.findSome?_eq_none_iff.mpr
        fun r mem => (objection?_eq_none_iff distinct).mpr (fine r mem)
      have found := head?_strangers_eq_some_iff.mpr ⟨_, _, _, given, ⟨unknown, rfl⟩, known⟩
      rw [← positionOf_name distinct mem]
      exact judged named distinct (Token.ofEntries_eq_invalid_iff.mpr (.inr ⟨none, found⟩))

/-- The fault for which a written token has no meaning is the one that comes first. -/
theorem resolve_eq_error_iff {r : Rejection} :
    t.resolve = .error r ↔ t.FirstFault r.fault r.position :=
  ⟨firstFault_of_resolve, resolve_of_firstFault⟩

end WrittenToken

end LogLayout
