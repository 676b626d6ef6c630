import LogLayout.Proofs.Pattern.Judgement
import LogLayout.Proofs.Pattern.Precedence

/-!
# The order of options

The options of a token can be written in any order. Of several options given twice the order decides
which one is reported, and so it does of several unknown ones; but that there is one does not depend
on it, so the class of the fault does not either. What is wrong with a declared option is found in
the order of declaration, and there the message is the same too.

`Reorders.firstFault` carries the fault of a token over to its reordering, one case for each class
of faults; `Pattern.compile_reorders` compares the answers on the texts.
-/

namespace LogLayout

open Grammar

/-- Two faults are of one class, and if they concern the value of a declared option, or that it is
missing, they have the same message. -/
structure Fault.Alike (fault fault' : Fault) : Prop where
  code : fault.code = fault'.code
  message : fault.code = .invalidOption ∨ fault.code = .missingOption →
    fault.message = fault'.message

/-- Two texts are answered alike: with equal patterns, or with reports of one class, which say the
same about declared options. -/
inductive AnsweredAlike : Except CompileError Pattern → Except CompileError Pattern → Prop
  | accepted {p q : Pattern} (same : p.same q = true) : AnsweredAlike (.ok p) (.ok q)
  | refused {e e' : ParseError} (code : e.code = e'.code)
      (message : e.code = .invalidOption ∨ e.code = .missingOption → e.message = e'.message) :
      AnsweredAlike (.error (.rejected e)) (.error (.rejected e'))

/-- The names and values of the options, in the order in which they are written. -/
def WrittenToken.given (t : WrittenToken) : List (String × Datum) :=
  t.options.map fun o => (o.name, o.value.toDatum)

/-- Two written tokens have one name and, in some order, the same options. -/
structure WrittenToken.Reorders (t t' : WrittenToken) : Prop where
  name : t.name = t'.name
  given : t.given.Perm t'.given

theorem Fault.Alike.refl (fault : Fault) : fault.Alike fault := ⟨rfl, fun _ => rfl⟩

namespace WrittenToken.Reorders

variable {t t' : WrittenToken} {k : Kind}

theorem symm (h : t.Reorders t') : t'.Reorders t := ⟨h.name.symm, h.given.symm⟩

/-- Each option is an option of the other token, at some position. -/
theorem exists_mem (h : t.Reorders t') {o : WrittenOption} (mem : o ∈ t.options) :
    ∃ o' ∈ t'.options, o'.name = o.name ∧ o'.value.toDatum = o.value.toDatum := by
  have given : (o.name, o.value.toDatum) ∈ t'.given :=
    h.given.mem_iff.mp (List.mem_map_of_mem mem)
  obtain ⟨o', mem', same⟩ := List.mem_map.mp given
  obtain ⟨name, value⟩ := Prod.mk.inj same
  exact ⟨o', mem', name, value⟩

theorem distinct (h : t.Reorders t') (distinct : (t.options.map (·.name)).Nodup) :
    (t'.options.map (·.name)).Nodup := by
  have names (u : WrittenToken) : u.given.map Prod.fst = u.options.map (·.name) := by
    rw [WrittenToken.given, List.map_map]
    rfl
  have perm := h.given.map Prod.fst
  rw [names, names] at perm
  exact perm.nodup_iff.mp distinct

theorem absent (h : t.Reorders t') {name : String} (absent : ∀ o ∈ t.options, o.name ≠ name) :
    ∀ o ∈ t'.options, o.name ≠ name := by
  intro o mem same
  obtain ⟨o', mem', name, -⟩ := h.symm.exists_mem mem
  exact absent o' mem' (name.trans same)

theorem gives (h : t.Reorders t') {o : String × Datum} (gives : t.Gives k o) : t'.Gives k o := by
  cases gives with
  | written mem =>
      obtain ⟨o', mem', name, value⟩ := h.exists_mem mem
      rw [← name, ← value]
      exact .written mem'
  | byDefault absent mem => exact .byDefault (h.absent absent) mem

/-- The meaning of a token is that of its reordering. -/
theorem resolve_eq_ok (h : t.Reorders t') {tok : Token} (meaning : t.resolve = .ok tok) :
    t'.resolve = .ok tok := by
  obtain ⟨named, distinct, valid⟩ := resolve_eq_ok_iff.mp meaning
  obtain ⟨-, known, values⟩ := Token.ofEntries_eq_valid_iff.mp valid
  have distinct' := h.distinct distinct
  refine resolve_eq_ok_iff.mpr ⟨h.name ▸ named, distinct', ?_⟩
  refine Token.ofEntries_eq_valid_iff.mpr ⟨rfl, ?_, ?_⟩
  · rw [Token.strangers_eq_nil_iff] at known ⊢
    intro e mem
    obtain ⟨o, ho, rfl⟩ := List.mem_map.mp mem
    obtain ⟨o', ho', name, -⟩ := h.symm.exists_mem ho
    have entry := known (.text o'.name, o'.value.toDatum) (List.mem_map_of_mem ho')
    rwa [name] at entry
  · intro o mem
    have gives := (valueOf?_entries_eq_some_iff distinct).mp (values o mem)
    exact (valueOf?_entries_eq_some_iff distinct').mpr (h.gives gives)

/-- What is wrong with a declared option does not depend on the order. -/
theorem optionFault (h : t.Reorders t') {r : String × Rule} {fault : Fault} {position : Nat}
    (faulty : t.OptionFault k r fault position) : ∃ position', t'.OptionFault k r fault position' := by
  cases faulty with
  | refused mem refused =>
      obtain ⟨o', mem', name, value⟩ := h.exists_mem mem
      rw [← value] at refused
      rw [← name, ← value]
      exact ⟨_, .refused mem' refused⟩
  | missing isText absent => exact ⟨_, .missing isText (h.absent absent)⟩

theorem fine (h : t.Reorders t') {r : String × Rule}
    (fine : ∀ fault position, ¬ t.OptionFault k r fault position) :
    ∀ fault position, ¬ t'.OptionFault k r fault position := by
  intro fault position faulty
  obtain ⟨position', faulty'⟩ := h.symm.optionFault faulty
  exact fine fault position' faulty'

/-- If an option is given twice, one is found to be in every order. -/
theorem exists_duplicate (h : t.Reorders t') (named : k.Named t.name)
    (again : ¬ (t.options.map (·.name)).Nodup) :
    ∃ name position, t'.FirstFault (.duplicateOption name k) position := by
  have again' : ¬ (t'.options.map (·.name)).Nodup := fun distinct => again (h.symm.distinct distinct)
  cases found : duplicate? [] t'.options with
  | none => exact absurd (duplicate?_eq_none_iff.mp found).2 again'
  | some o =>
      obtain ⟨earlier, later, given, distinct, -, repeated⟩ := duplicate?_eq_some_iff.mp found
      exact ⟨_, _, .duplicate (h.name ▸ named) given distinct (repeated.resolve_left (by simp))⟩

/-- If nothing else is wrong and an option is unknown, one is found to be in every order. -/
theorem exists_unknownOption (h : t.Reorders t') (named : k.Named t.name)
    (distinct : (t.options.map (·.name)).Nodup)
    (fine : ∀ r ∈ k.rules, ∀ fault position, ¬ t.OptionFault k r fault position)
    {o : WrittenOption} (mem : o ∈ t.options) (unknown : o.name ∉ k.optionNames) :
    ∃ name position, t'.FirstFault (.unknownOption name k) position := by
  obtain ⟨o', mem', name, -⟩ := h.exists_mem mem
  have stranger : (t'.options.find? fun p => p.name ∉ k.optionNames).isSome := by
    rw [List.find?_isSome]
    exact ⟨o', mem', by simpa [name] using unknown⟩
  obtain ⟨p, found⟩ := Option.isSome_iff_exists.mp stranger
  obtain ⟨unknown', earlier, later, given, known⟩ := List.find?_eq_some_iff_append.mp found
  refine ⟨p.name, p.position, .unknownOption (h.name ▸ named) (h.distinct distinct)
    (fun r hr => h.fine (fine r hr)) given ?_ (by simpa using unknown')⟩
  intro q hq
  simpa using known q hq

/-- The fault of a token is alike to that of its reordering. -/
theorem firstFault (h : t.Reorders t') {fault : Fault} {position : Nat}
    (first : t.FirstFault fault position) :
    ∃ fault' position', t'.FirstFault fault' position' ∧ fault.Alike fault' := by
  cases first with
  | unknownKind unknown =>
      rw [h.name] at unknown ⊢
      exact ⟨_, _, .unknownKind unknown, .refl _⟩
  | duplicate named given distinct again =>
      have repeated : ¬ (t.options.map (·.name)).Nodup := by
        rw [given, List.map_append, List.map_cons]
        intro distinct
        exact (List.nodup_append.mp distinct).2.2 _ again _ List.mem_cons_self rfl
      obtain ⟨name, position', first'⟩ := h.exists_duplicate named repeated
      exact ⟨_, position', first', ⟨rfl, by simp [Fault.code]⟩⟩
  | declared named distinct order fine faulty =>
      obtain ⟨position', faulty'⟩ := h.optionFault faulty
      exact ⟨fault, position', .declared (h.name ▸ named) (h.distinct distinct) order
        (fun r hr => h.fine (fine r hr)) faulty', .refl _⟩
  | unknownOption named distinct fine given known unknown =>
      obtain ⟨name, position', first'⟩ :=
        h.exists_unknownOption named distinct fine (by simp [given]) unknown
      exact ⟨_, position', first', ⟨rfl, by simp [Fault.code]⟩⟩

end WrittenToken.Reorders

namespace Grammar

theorem OptionRow.exists_optionText {fits : Nat → Prop} {t : List Char}
    {os : List (String × Literal)} (row : OptionRow fits t os) :
    ∀ o ∈ os, ∃ s, OptionText fits s o := by
  induction row with
  | last _ option => exact List.forall_mem_singleton.mpr ⟨_, option⟩
  | more _ option _ _ ih => exact List.forall_mem_cons.mpr ⟨⟨_, option⟩, ih⟩

/-- The options of a token can be written in any order. -/
theorem TokenText.exists_reordered {t r : List Char} {name : String}
    {os os' : List (String × Literal)} (text : TokenText readable t name os r)
    (perm : os.Perm os') : ∃ t', TokenText readable t' name os' r := by
  cases text with
  | bare isName longest noList =>
      obtain rfl := List.nil_perm.mp perm
      exact ⟨_, .bare isName longest noList⟩
  | listed isName list =>
      have texts : ∀ o ∈ os', ∃ s, OptionText readable s o := by
        intro o mem
        cases list with
        | empty => simp [List.nil_perm.mp perm] at mem
        | options row => exact row.exists_optionText o (perm.mem_iff.mpr mem)
      obtain ⟨rows, written⟩ := exists_forall₂_iff.mpr texts
      exact ⟨_, .listed isName (optionList_intercalate written.flip)⟩

end Grammar

namespace Pattern

variable {σ : Char} {name : String} {os os' : List (String × Literal)} {t : List Char}

theorem answeredAlike_of_reorders {w w' : WrittenToken} {text text' : String}
    (admissible : isSigil σ = true) (h : w.Reorders w')
    (scanned : scan (String.singleton σ) text = .ok [.token w])
    (scanned' : scan (String.singleton σ) text' = .ok [.token w']) :
    AnsweredAlike (compile (String.singleton σ) text) (compile (String.singleton σ) text') := by
  have accepted := isSigilText_singleton admissible
  rw [compile_of_scan accepted scanned, compile_of_scan accepted scanned', ofItems_token,
    ofItems_token]
  cases meaning : w.resolve with
  | ok tok =>
      rw [h.resolve_eq_ok meaning]
      exact .accepted (by simp [same])
  | error r =>
      obtain ⟨fault', position', first', alike⟩ :=
        h.firstFault (WrittenToken.resolve_eq_error_iff.mp meaning)
      have meaning' : w'.resolve = .error ⟨fault', position'⟩ :=
        WrittenToken.resolve_eq_error_iff.mpr first'
      rw [meaning']
      exact .refused alike.code alike.message

/-- A token expression is answered alike however its options are ordered, and all orders can be
written. -/
theorem compile_reorders (admissible : isSigil σ = true) (text : TokenText readable t name os [])
    (perm : os.Perm os') :
    (∃ t', TokenText readable t' name os' []) ∧
      ∀ t', TokenText readable t' name os' [] →
        AnsweredAlike (compile (String.singleton σ) (String.ofList (σ :: t)))
          (compile (String.singleton σ) (String.ofList (σ :: t'))) := by
  refine ⟨text.exists_reordered perm, fun t' text' => ?_⟩
  obtain ⟨w, scanned, rfl, given⟩ := SpellsToken.exists_scan admissible ⟨os, text, rfl⟩
  obtain ⟨w', scanned', name', given'⟩ := SpellsToken.exists_scan admissible ⟨os', text', rfl⟩
  rw [List.map_map] at given given'
  have reorders : w.Reorders w' := by
    refine ⟨name'.symm, ?_⟩
    have sameOptions := perm.map fun o => (o.1, o.2.toDatum)
    rwa [← given, ← given'] at sameOptions
  exact answeredAlike_of_reorders admissible reorders scanned scanned'

/-- An alignment that is refused, with an unknown option behind it or before it. -/
theorem compile_reorders_alignment_and_stranger :
    isSigil '$' = true ∧
      TokenText readable "level(alignment='x',hue)".toList "level"
        [("alignment", .char 'x'), ("hue", .flag true)] [] ∧
      AnsweredAlike
        (compile (String.singleton '$') (String.ofList "$level(alignment='x',hue)".toList))
        (compile (String.singleton '$') (String.ofList "$level( hue ,alignment=\"x\")".toList)) := by
  have admissible : isSigil '$' = true := by decide
  have name : Name "level".toList := by decide
  have hue : OptionText readable "hue".toList ("hue", .flag true) :=
    .flag (n := "hue".toList) (by decide)
  have single : OptionText readable "alignment='x'".toList ("alignment", .char 'x') :=
    .assignment (n := "alignment".toList) (by decide) .nil .nil
      (.char (q := '\'') (by decide) (by decide))
  have double : OptionText readable "alignment=\"x\"".toList ("alignment", .char 'x') :=
    .assignment (n := "alignment".toList) (by decide) .nil .nil
      (.char (q := '"') (by decide) (by decide))
  have blank : Blanks [' '] := by simp [Blanks, Text.isBlank]
  have row : OptionRow readable "alignment='x',hue".toList
      [("alignment", .char 'x'), ("hue", .flag true)] :=
    .more .nil single .nil (.last .nil hue .nil)
  have row' : OptionRow readable " hue ,alignment=\"x\"".toList
      [("hue", .flag true), ("alignment", .char 'x')] :=
    .more blank hue blank (.last .nil double .nil)
  have text : TokenText readable "level(alignment='x',hue)".toList "level" _ [] :=
    .listed name (.options row)
  have text' : TokenText readable "level( hue ,alignment=\"x\")".toList "level" _ [] :=
    .listed name (.options row')
  exact ⟨admissible, text, (compile_reorders admissible text (.swap _ _ [])).2 _ text'⟩

end Pattern

end LogLayout
