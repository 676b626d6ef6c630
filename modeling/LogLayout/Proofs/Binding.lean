import LogLayout.Proofs.Dictionary
import LogLayout.Proofs.Session
import LogLayout.Proofs.Value

/-!
# Bound loggers are ordered dictionaries

A logger that was made with fields, and derived from by binding and unbinding, carries the ordered
dictionary that comes from the same operations, each value captured (`Logger.Carries`). Binding
updates the dictionary, and succeeds if the values given can be captured; unbinding takes names out
of it. A value that is replaced later has to be captured nonetheless. So to bind twice is to bind
once what the two have together, unless the first has a value that cannot be captured and the second
puts others in the place of all of these.
-/

namespace LogLayout

open Numeral (TooLong Writable)

instance : Subsingleton TooLong := ⟨fun _ _ => rfl⟩

namespace Dictionary

/-- The dictionary as a source of fields. -/
def source (d : Dictionary Datum) : FieldSource :=
  .datum (.dictionary (d.entries.map fun x => (.text x.1, x.2)))

/-- Each value can be captured. -/
def Capturable (d : Dictionary Datum) : Prop := ∀ x ∈ d.entries, ∃ v, Value.capture x.2 = .ok v

/-- Fields have the names of a dictionary, in its order, and its values as they are captured. -/
structure ShownBy (d : Dictionary Datum) (fields : List Field) : Prop where
  names : fields.map Field.name = d.names
  values : ∀ f ∈ fields, ∃ x, (f.name, x) ∈ d.entries ∧ Value.capture x = .ok f.value

variable {d a b : Dictionary Datum} {fields further : List Field}

theorem ShownBy.nodup (h : d.ShownBy fields) : (fields.map Field.name).Nodup := h.names ▸ d.distinct

theorem ShownBy.unique (h : d.ShownBy fields) (h' : d.ShownBy further) : fields = further := by
  refine eq_of_names_eq (h.names.trans h'.names.symm) h'.nodup fun f mem => ?_
  have named : f.name ∈ further.map Field.name := by
    rw [h'.names, ← h.names]
    exact List.mem_map_of_mem mem
  obtain ⟨g, mem', same⟩ := List.mem_map.mp named
  obtain ⟨x, hx, captured⟩ := h.values f mem
  obtain ⟨y, hy, captured'⟩ := h'.values g mem'
  rw [same] at hy
  obtain rfl := d.eq_of_mem hx hy
  have value := Except.ok.inj (captured.symm.trans captured')
  have equal : f = g := by
    cases f
    cases g
    congr
    exact same.symm
  exact equal ▸ mem'

theorem ShownBy.capturable (h : d.ShownBy fields) : d.Capturable := by
  rintro ⟨name, x⟩ mem
  have named : name ∈ fields.map Field.name := h.names ▸ mem_names_of_mem mem
  obtain ⟨f, hf, rfl⟩ := List.mem_map.mp named
  obtain ⟨y, hy, captured⟩ := h.values f hf
  exact ⟨f.value, d.eq_of_mem hy mem ▸ captured⟩

/-- Entry by entry, the fields have the names and capture the values. -/
theorem shownBy_of_forall₂
    (each : List.Forall₂ (fun x f => Field.Captures (.text x.1) x.2 f) d.entries fields) :
    d.ShownBy fields where
  names := by
    rw [Dictionary.names]
    generalize d.entries = entries at each
    induction each with
    | nil => rfl
    | cons first _ ih => rw [List.map_cons, List.map_cons, ih, Except.ok.inj first.name_eq]
  values f mem := by
    obtain ⟨⟨name, x⟩, hx, captures⟩ := exists_mem_of_forall₂ each mem
    obtain rfl : name = f.name := Except.ok.inj captures.name_eq
    exact ⟨x, hx, captures.value_eq⟩

theorem Capturable.exists_forall₂ (h : d.Capturable) :
    ∃ fields, List.Forall₂ (fun x f => Field.Captures (.text x.1) x.2 f) d.entries fields := by
  refine exists_forall₂_iff.mpr fun x mem => ?_
  obtain ⟨v, captured⟩ := h x mem
  exact ⟨⟨x.1, v⟩, rfl, captured⟩

theorem shownBy_iff_forall₂ : d.ShownBy fields ↔
    List.Forall₂ (fun x f => Field.Captures (.text x.1) x.2 f) d.entries fields := by
  constructor
  · intro h
    obtain ⟨made, each⟩ := h.capturable.exists_forall₂
    exact h.unique (shownBy_of_forall₂ each) ▸ each
  · exact shownBy_of_forall₂

theorem exists_shownBy_iff : (∃ fields, d.ShownBy fields) ↔ d.Capturable := by
  constructor
  · rintro ⟨fields, h⟩
    exact h.capturable
  · intro h
    obtain ⟨fields, each⟩ := h.exists_forall₂
    exact ⟨fields, shownBy_of_forall₂ each⟩

/-- The fields made of a dictionary show it. -/
theorem ofSource_eq_ok_iff : Field.ofSource d.source = .ok fields ↔ d.ShownBy fields := by
  rw [source, Field.ofSource_dictionary, Outcome.mapM_eq_ok_iff, List.forall₂_map_left_iff,
    shownBy_iff_forall₂]
  simp only [Field.ofData_eq_ok_iff]

/-- The fields that are captured to be bound show their dictionary as well. -/
theorem mapM_capture_eq_ok_iff :
    (d.entries.mapM fun (name, x) => do return (⟨name, ← Value.capture x⟩ : Field)) = .ok fields ↔
      d.ShownBy fields := by
  have each (x : String × Datum) (f : Field) :
      (do return (⟨x.1, ← Value.capture x.2⟩ : Field) : Except TooLong Field) = .ok f ↔
        f.Captures (.text x.1) x.2 := by
    rw [Outcome.return_eq_ok_iff]
    constructor
    · rintro ⟨v, hv, rfl⟩
      exact ⟨rfl, hv⟩
    · rintro ⟨shown, captured⟩
      have name : x.1 = f.name := Except.ok.inj shown
      exact ⟨f.value, captured, by rw [name]⟩
  rw [shownBy_iff_forall₂, Outcome.mapM_eq_ok_iff]
  simp only [each]

theorem capturable_update_iff (h : d.Capturable) : (d.update a).Capturable ↔ a.Capturable := by
  constructor
  · intro both x mem
    exact both x (mem_update_iff.mpr (.inl mem))
  · intro new x mem
    rcases mem_update_iff.mp mem with mem | ⟨mem, -⟩
    · exact new x mem
    · exact h x mem

theorem ShownBy.without (h : d.ShownBy fields) (gone : List String) :
    (d.without gone).ShownBy (fields.filter fun f => !gone.contains f.name) where
  names := by
    rw [names_without, ← h.names, List.filter_map]
    congr 1
    refine List.filter_congr fun f _ => ?_
    simp
  values f mem := by
    obtain ⟨mem, kept⟩ := List.mem_filter.mp mem
    obtain ⟨x, hx, captured⟩ := h.values f mem
    exact ⟨x, mem_without_iff.mpr ⟨hx, by simpa using kept⟩, captured⟩

end Dictionary

/-- A dictionary is captured as the text that shows it, for which an integer in it can be too
long. -/
theorem Value.capture_dictionary_of_not_writable {n : Int} (key : String)
    (unwritable : ¬ Writable n) :
    Value.capture (.dictionary [(.text key, .int n)]) = .error {} := by
  have refused : Numeral.write n = .error {} := by
    cases written : Numeral.write n with
    | ok s => exact absurd (Numeral.exists_write_eq_ok_iff.mp ⟨s, written⟩) unwritable
    | error cause => rfl
  simp [Value.capture, Datum.shown, Datum.shownEntries, refused, Bind.bind, Except.bind]

namespace Logger

/-! ### Putting fields -/

section Put

variable {fields further : List Field} {f : Field} {name : String} {value : Value}

theorem names_putField : (putField fields name value).map Field.name =
    if name ∈ fields.map Field.name then fields.map Field.name
    else fields.map Field.name ++ [name] := by
  have present : (fields.any fun f => f.name == name) = true ↔ name ∈ fields.map Field.name := by
    simp
  rw [putField]
  by_cases old : name ∈ fields.map Field.name
  · rw [if_pos (present.mpr old), if_pos old, List.map_map]
    refine List.map_congr_left fun f _ => ?_
    by_cases own : f.name = name <;> simp [own]
  · rw [if_neg (mt present.mp old), if_neg old]
    simp

theorem mem_putField : f ∈ putField fields name value ↔
    f = ⟨name, value⟩ ∨ f ∈ fields ∧ f.name ≠ name := by
  rw [putField]
  split
  · next present =>
      obtain ⟨g, mem, own⟩ := List.any_eq_true.mp present
      rw [List.mem_map]
      constructor
      · rintro ⟨h, hmem, rfl⟩
        by_cases named : h.name = name
        · exact .inl (by simp [named])
        · exact .inr (by simpa [named] using hmem)
      · rintro (rfl | ⟨hmem, other⟩)
        · exact ⟨g, mem, by rw [if_pos own]⟩
        · exact ⟨f, hmem, by simp [other]⟩
  · next absent =>
      have fresh : ∀ g ∈ fields, g.name ≠ name := by simpa using absent
      rw [List.mem_append, List.mem_singleton]
      constructor
      · rintro (mem | rfl)
        · exact .inr ⟨mem, fresh f mem⟩
        · exact .inl rfl
      · rintro (rfl | ⟨mem, -⟩)
        · exact .inr rfl
        · exact .inl mem

/-- Fields keep their places, and those with new names come behind them. -/
theorem names_putFields (distinct : (further.map Field.name).Nodup) :
    (putFields fields further).map Field.name =
      fields.map Field.name ++
        (further.map Field.name).filter (· ∉ fields.map Field.name) := by
  -- The induction is on what is put, while the fields that it is put to grow.
  induction further generalizing fields with
  | nil => simp [putFields]
  | cons f further ih =>
      obtain ⟨fresh, distinct⟩ := List.nodup_cons.mp distinct
      rw [putFields, List.foldl_cons, ← putFields, ih distinct, names_putField, List.map_cons]
      by_cases old : f.name ∈ fields.map Field.name
      · rw [if_pos old, List.filter_cons_of_neg (by simpa using old)]
      · rw [if_neg old, List.filter_cons_of_pos (by simpa using old), List.append_assoc,
          List.singleton_append]
        congr 2
        -- The fields have one more name now, but none of the names still to come is that one.
        refine List.filter_congr fun name mem => ?_
        have apart : name ≠ f.name := by
          rintro rfl
          exact fresh mem
        simp [apart]

theorem mem_putFields (distinct : (further.map Field.name).Nodup) :
    f ∈ putFields fields further ↔
      f ∈ further ∨ f ∈ fields ∧ f.name ∉ further.map Field.name := by
  induction further generalizing fields with
  | nil => simp [putFields]
  | cons g further ih =>
      obtain ⟨fresh, distinct⟩ := List.nodup_cons.mp distinct
      rw [putFields, List.foldl_cons, ← putFields, ih distinct, mem_putField, List.map_cons]
      constructor
      · rintro (mem | ⟨rfl | ⟨mem, apart⟩, kept⟩)
        · exact .inl (List.mem_cons_of_mem g mem)
        · exact .inl List.mem_cons_self
        · exact .inr ⟨mem, List.not_mem_cons_of_ne_of_not_mem apart kept⟩
      · rintro (mem | ⟨mem, kept⟩)
        · rcases List.mem_cons.mp mem with rfl | mem
          · exact .inr ⟨.inl rfl, fresh⟩
          · exact .inl mem
        · exact .inr ⟨.inr ⟨mem, List.ne_of_not_mem_cons kept⟩, List.not_mem_of_not_mem_cons kept⟩

/-- Fields with distinct names are put one behind the other. -/
theorem putFields_nil (distinct : (fields.map Field.name).Nodup) :
    putFields [] fields = fields := by
  refine eq_of_names_eq ?_ distinct fun f mem => ?_
  · rw [names_putFields distinct]
    simp
  · simpa [mem_putFields distinct] using mem

end Put

/-- Putting fields shows the update. -/
theorem shownBy_putFields {d a : Dictionary Datum} {fields further : List Field}
    (h : d.ShownBy fields) (new : a.ShownBy further) :
    (d.update a).ShownBy (putFields fields further) where
  names := by rw [names_putFields new.nodup, Dictionary.names_update, h.names, new.names]
  values f mem := by
    rcases (mem_putFields new.nodup).mp mem with mem | ⟨mem, kept⟩
    · obtain ⟨x, hx, captured⟩ := new.values f mem
      exact ⟨x, Dictionary.mem_update_iff.mpr (.inl hx), captured⟩
    · obtain ⟨x, hx, captured⟩ := h.values f mem
      rw [new.names] at kept
      exact ⟨x, Dictionary.mem_update_iff.mpr (.inr ⟨hx, kept⟩), captured⟩

/-! ### What a logger carries -/

/-- A logger speaks for a target by way of a dispatcher, and its fields are those of a
dictionary. -/
structure Carries (l : Logger) (target : String) (dispatcher : Option Dispatcher)
    (d : Dictionary Datum) : Prop where
  target_eq : l.target = target
  dispatcher_eq : l.dispatcher = dispatcher
  shown : d.ShownBy l.fields

section Carries

variable {l l' : Logger} {target : String} {dispatcher : Option Dispatcher}
  {d a b : Dictionary Datum} {s s' : Session}

theorem Carries.unique (h : l.Carries target dispatcher d) (h' : l'.Carries target dispatcher d) :
    l = l' := by
  obtain ⟨rfl, rfl, shown⟩ := h
  obtain ⟨target, dispatcher, shown'⟩ := h'
  cases l
  cases l'
  congr
  · exact target.symm
  · exact shown.unique shown'
  · exact dispatcher.symm

theorem exists_carries_iff (target : String) (dispatcher : Option Dispatcher) :
    (∃ l : Logger, l.Carries target dispatcher d) ↔ d.Capturable := by
  rw [← Dictionary.exists_shownBy_iff]
  constructor
  · rintro ⟨l, h⟩
    exact ⟨l.fields, h.shown⟩
  · rintro ⟨fields, h⟩
    exact ⟨⟨target, fields, dispatcher⟩, rfl, rfl, h⟩

/-- A logger that is made with fields carries them. -/
theorem loggerOf_run_eq_ok_iff :
    (Session.loggerOf target d.source dispatcher).run s = (.ok l, s') ↔
      l.Carries target dispatcher d ∧ s' = s := by
  constructor
  · intro made
    cases captured : Field.ofSource d.source with
    | error cause =>
        rw [Session.loggerOf, Session.attempt_bind_run_of_error captured] at made
        cases made
    | ok fields =>
        rw [Session.loggerOf, Session.attempt_bind_run_of_ok captured] at made
        cases made
        exact ⟨⟨rfl, rfl, Dictionary.ofSource_eq_ok_iff.mp captured⟩, rfl⟩
  · rintro ⟨⟨rfl, rfl, shown⟩, rfl⟩
    rw [Session.loggerOf,
      Session.attempt_bind_run_of_ok (Dictionary.ofSource_eq_ok_iff.mpr shown)]
    rfl

/-- A logger to whose fields those of a dictionary are put carries the update. -/
theorem Carries.put {further : List Field} (h : l.Carries target dispatcher d)
    (new : a.ShownBy further) :
    (⟨l.target, putFields (putFields [] l.fields) further, l.dispatcher⟩ : Logger).Carries
      target dispatcher (d.update a) where
  target_eq := h.target_eq
  dispatcher_eq := h.dispatcher_eq
  shown := by
    rw [putFields_nil h.shown.nodup]
    exact shownBy_putFields h.shown new

/-- Binding updates the dictionary. -/
theorem Carries.bind_eq_ok_iff (h : l.Carries target dispatcher d) :
    l.bind a.entries = .ok l' ↔ l'.Carries target dispatcher (d.update a) := by
  rw [bind, Outcome.return_eq_ok_iff]
  constructor
  · rintro ⟨further, made, rfl⟩
    exact h.put (Dictionary.mapM_capture_eq_ok_iff.mp made)
  · intro h'
    -- What carries the update tells that the values of `a` can be captured, for they are in it.
    have able := (Dictionary.capturable_update_iff h.shown.capturable).mp h'.shown.capturable
    obtain ⟨further, new⟩ := Dictionary.exists_shownBy_iff.mpr able
    exact ⟨further, Dictionary.mapM_capture_eq_ok_iff.mpr new, h'.unique (h.put new)⟩

theorem Carries.exists_bind_eq_ok_iff (h : l.Carries target dispatcher d) :
    (∃ l', l.bind a.entries = .ok l') ↔ a.Capturable := by
  rw [← Dictionary.capturable_update_iff h.shown.capturable,
    ← exists_carries_iff target dispatcher]
  simp only [h.bind_eq_ok_iff]

/-- Unbinding takes names out of the dictionary. -/
theorem Carries.unbind (h : l.Carries target dispatcher d) (gone : List String) :
    (l.unbind gone).Carries target dispatcher (d.without gone) :=
  ⟨h.target_eq, h.dispatcher_eq, h.shown.without gone⟩

theorem Carries.bind_bind_eq_ok_iff (h : l.Carries target dispatcher d) :
    (do (← l.bind a.entries).bind b.entries) = .ok l' ↔
      a.Capturable ∧ l'.Carries target dispatcher (d.update (a.update b)) := by
  rw [Outcome.bind_eq_ok_iff, ← Dictionary.update_update, ← h.exists_bind_eq_ok_iff]
  constructor
  · rintro ⟨m, first, second⟩
    have middle := h.bind_eq_ok_iff.mp first
    exact ⟨⟨m, first⟩, middle.bind_eq_ok_iff.mp second⟩
  · rintro ⟨⟨m, first⟩, carries⟩
    have middle := h.bind_eq_ok_iff.mp first
    exact ⟨m, first, middle.bind_eq_ok_iff.mpr carries⟩

/-- To bind twice and to bind once differ only if a value of the first that cannot be captured is
replaced by the second. -/
theorem Carries.bind_bind_eq_iff (h : l.Carries target dispatcher d) :
    (do (← l.bind a.entries).bind b.entries) = l.bind (a.update b).entries ↔
      a.Capturable ∨ ¬ (a.update b).Capturable := by
  constructor
  · intro equal
    by_cases able : (a.update b).Capturable
    · obtain ⟨l', once⟩ := h.exists_bind_eq_ok_iff.mpr able
      exact .inl (h.bind_bind_eq_ok_iff.mp (equal.trans once)).1
    · exact .inr able
  · intro able
    refine Outcome.eq_of_eq_ok_iff fun l' => ?_
    rw [h.bind_bind_eq_ok_iff, h.bind_eq_ok_iff, and_iff_right_iff_imp]
    intro h'
    -- There is a result, so the two together can be captured, and the hypothesis is about `a`.
    have both := (Dictionary.capturable_update_iff h.shown.capturable).mp h'.shown.capturable
    exact able.resolve_right (not_not_intro both)

theorem unbind_unbind (l : Logger) (gone gone' : List String) :
    (l.unbind gone).unbind gone' = l.unbind (gone ++ gone') := by
  simp only [unbind, List.filter_filter]
  congr 1
  refine List.filter_congr fun f _ => ?_
  simp [Bool.and_comm]

end Carries

/-! ### Operations one after the other -/

/-- A way to derive a logger from another one. -/
inductive Operation where
  | bind (given : Dictionary Datum)
  | unbind (gone : List String)

namespace Operation

def onLogger : Operation → Logger → Except TooLong Logger
  | bind given, l => l.bind given.entries
  | unbind gone, l => .ok (l.unbind gone)

def onDictionary : Operation → Dictionary Datum → Dictionary Datum
  | bind given, d => d.update given
  | unbind gone, d => d.without gone

/-- What is bound can be captured. -/
def Capturable : Operation → Prop
  | bind given => given.Capturable
  | unbind _ => True

end Operation

/-- The logger derived by operations one after the other. -/
def derive (l : Logger) (ops : List Operation) : Except TooLong Logger :=
  ops.foldlM (fun l o => o.onLogger l) l

section Derive

variable {l l' : Logger} {target : String} {dispatcher : Option Dispatcher}
  {d : Dictionary Datum} {o : Operation} {ops : List Operation}

theorem derive_cons : l.derive (o :: ops) = (do (← o.onLogger l).derive ops) := rfl

theorem derive_concat : l.derive (ops ++ [o]) = (do o.onLogger (← l.derive ops)) := by
  simp [derive, List.foldlM_append]

theorem Carries.onLogger (h : l.Carries target dispatcher d) (done : o.onLogger l = .ok l') :
    l'.Carries target dispatcher (o.onDictionary d) := by
  cases o with
  | bind given => exact h.bind_eq_ok_iff.mp done
  | unbind gone =>
      obtain rfl := Except.ok.inj done
      exact h.unbind gone

theorem Carries.exists_onLogger_eq_ok_iff (h : l.Carries target dispatcher d) :
    (∃ l', o.onLogger l = .ok l') ↔ o.Capturable := by
  cases o with
  | bind given => exact h.exists_bind_eq_ok_iff
  | unbind gone => exact iff_of_true ⟨_, rfl⟩ trivial

/-- The dictionary goes through the operations along with the logger. -/
theorem Carries.derive (h : l.Carries target dispatcher d) (done : l.derive ops = .ok l') :
    l'.Carries target dispatcher (ops.foldl (fun d o => o.onDictionary d) d) := by
  induction ops generalizing l d with
  | nil =>
      obtain rfl := Except.ok.inj done
      exact h
  | cons o ops ih =>
      obtain ⟨m, first, rest⟩ := Outcome.bind_eq_ok_iff.mp (derive_cons ▸ done)
      exact ih (h.onLogger first) rest

theorem Carries.exists_derive_eq_ok_iff (h : l.Carries target dispatcher d) :
    (∃ l', l.derive ops = .ok l') ↔ ∀ o ∈ ops, o.Capturable := by
  induction ops generalizing l d with
  | nil => exact iff_of_true ⟨l, rfl⟩ (by simp)
  | cons o ops ih =>
      rw [List.forall_mem_cons, ← h.exists_onLogger_eq_ok_iff]
      simp only [derive_cons, Outcome.bind_eq_ok_iff]
      constructor
      · rintro ⟨l', m, first, rest⟩
        exact ⟨⟨m, first⟩, (ih (h.onLogger first)).mp ⟨l', rest⟩⟩
      · rintro ⟨⟨m, first⟩, able⟩
        obtain ⟨l', rest⟩ := (ih (h.onLogger first)).mpr able
        exact ⟨l', m, first, rest⟩

end Derive

/-! ### Loggers side by side -/

/-- An operation on one of several loggers. -/
structure Derivation where
  version : Nat
  operation : Operation

/-- The loggers after an operation on one of them: if it succeeds, there is one more. -/
def afterDerivation (loggers : List Logger) (c : Derivation) : List Logger :=
  match loggers[c.version]? with
  | none => loggers
  | some l =>
    match c.operation.onLogger l with
    | .ok l' => loggers ++ [l']
    | .error _ => loggers

/-- The loggers that derivations make, one after the other, out of a first one. -/
def descendants (l : Logger) (cs : List Derivation) : List Logger := cs.foldl afterDerivation [l]

section Descendants

variable {root : Logger} {loggers : List Logger} {c : Derivation}

theorem afterDerivation_cases (loggers : List Logger) (c : Derivation) :
    afterDerivation loggers c = loggers ∨ ∃ l ∈ loggers, ∃ l',
      c.operation.onLogger l = .ok l' ∧ afterDerivation loggers c = loggers ++ [l'] := by
  rw [afterDerivation]
  split
  · exact .inl rfl
  · next l found =>
      split
      · next l' done => exact .inr ⟨l, List.mem_of_getElem? found, l', done, rfl⟩
      · exact .inl rfl

theorem prefix_foldl_afterDerivation (loggers : List Logger) (cs : List Derivation) :
    loggers <+: cs.foldl afterDerivation loggers := by
  induction cs generalizing loggers with
  | nil => exact List.prefix_rfl
  | cons c cs ih =>
      refine .trans ?_ (ih (afterDerivation loggers c))
      rcases afterDerivation_cases loggers c with same | ⟨_, -, l', -, more⟩
      · exact ⟨[], by rw [List.append_nil, same]⟩
      · exact ⟨[l'], more.symm⟩

/-- Loggers stay as they are when others are derived from them. -/
theorem descendants_prefix (root : Logger) (cs more : List Derivation) :
    root.descendants cs <+: root.descendants (cs ++ more) := by
  rw [descendants, descendants, List.foldl_append]
  exact prefix_foldl_afterDerivation _ more

theorem derived_afterDerivation (h : ∀ l ∈ loggers, ∃ ops, root.derive ops = .ok l) :
    ∀ l ∈ afterDerivation loggers c, ∃ ops, root.derive ops = .ok l := by
  rcases afterDerivation_cases loggers c with same | ⟨l, mem, l', done, more⟩
  · rwa [same]
  · rw [more, List.forall_mem_append, List.forall_mem_singleton]
    obtain ⟨ops, derived⟩ := h l mem
    refine ⟨h, ops ++ [c.operation], ?_⟩
    rw [derive_concat, derived]
    exact done

theorem exists_derive_of_mem_descendants (root : Logger) (cs : List Derivation) :
    ∀ l ∈ root.descendants cs, ∃ ops, root.derive ops = .ok l := by
  rw [descendants]
  have start : ∀ l ∈ [root], ∃ ops, root.derive ops = .ok l :=
    List.forall_mem_singleton.mpr ⟨[], rfl⟩
  generalize [root] = loggers at start
  induction cs generalizing loggers with
  | nil => exact start
  | cons c cs ih => exact ih _ (derived_afterDerivation start)

end Descendants

/-! ### What holds of every derived logger -/

/-- How a call of a logger goes that carries a dictionary: it hands over one event, which has the
bound fields and behind them those of the call, or it writes nothing. -/
inductive Logged (l : Logger) (d : Dictionary Datum) (s : Session) (level : Level)
    (message : String) (call : Dictionary Datum) (site : Session.CallSite) :
    Except Session.Fault Unit × Session → Prop
  | handedOver {receiver : Dispatcher} {own given : List Field} {s' : Session}
      (ready : s.Ready l level call.source receiver given s')
      (own_shown : d.ShownBy own) (given_shown : call.ShownBy given)
      (fields : (s'.eventFor l level message given site).fields = own ++ given) :
      Logged l d s level message call site ((do
        let _ ← Session.dispatch receiver (s'.eventFor l level message given site)
        : Session.Action Unit).run s')
  | notReady {outcome : Except Session.Fault Unit} {s' : Session}
      (notReady : ∀ receiver given s', ¬ s.Ready l level call.source receiver given s')
      (quiet : s'.outputs = s.outputs) : Logged l d s level message call site (outcome, s')

/-- A logger behaves as a dictionary. -/
structure Follows (l : Logger) (target : String) (dispatcher : Option Dispatcher)
    (d : Dictionary Datum) : Prop where
  carries : l.Carries target dispatcher d
  distinct : (l.fields.map Field.name).Nodup
  /-- Bound names keep their places, and the new ones come behind them as they are given. -/
  bind_names : ∀ (a : Dictionary Datum) l', l.bind a.entries = .ok l' → l'.fields.map Field.name =
    l.fields.map Field.name ++ a.names.filter (· ∉ l.fields.map Field.name)
  /-- A name that is unbound and bound again comes last. -/
  bind_unbind_names : ∀ name x l', (l.unbind [name]).bind [(name, x)] = .ok l' →
    l'.fields.map Field.name = (l.fields.map Field.name).filter (· ≠ name) ++ [name]
  /-- To bind twice is to bind once, unless a value of the first cannot be captured and those of the
  two together can. -/
  bind_bind : ∀ a b : Dictionary Datum,
    (do (← l.bind a.entries).bind b.entries) = l.bind (a.update b).entries ↔
      a.Capturable ∨ ¬ (a.update b).Capturable
  unbind_unbind : ∀ gone gone', (l.unbind gone).unbind gone' = l.unbind (gone ++ gone')
  logs : ∀ s level message call site, Logged l d s level message call site
    ((Session.log l level message (Dictionary.source call) site).run s)

section Follows

variable {l : Logger} {target : String} {dispatcher : Option Dispatcher} {d : Dictionary Datum}

theorem Carries.logged (h : l.Carries target dispatcher d) (s : Session) (level : Level)
    (message : String) (call : Dictionary Datum) (site : Session.CallSite) :
    Logged l d s level message call site
      ((Session.log l level message call.source site).run s) := by
  by_cases ready : ∃ receiver given s', s.Ready l level call.source receiver given s'
  · obtain ⟨receiver, given, s', ready⟩ := ready
    rw [Session.log_run_of_ready ready]
    exact .handedOver ready h.shown (Dictionary.ofSource_eq_ok_iff.mp ready.captured) rfl
  · have notReady : ∀ receiver given s', ¬ s.Ready l level call.source receiver given s' :=
      fun receiver given s' h => ready ⟨receiver, given, s', h⟩
    have quiet := Session.log_run_of_not_ready notReady message site
    exact .notReady notReady (congrArg Prod.snd quiet)

theorem Carries.follows (h : l.Carries target dispatcher d) : l.Follows target dispatcher d where
  carries := h
  distinct := h.shown.nodup
  bind_names a l' bound := by
    have carries := h.bind_eq_ok_iff.mp bound
    rw [carries.shown.names, Dictionary.names_update, h.shown.names]
  bind_unbind_names name x l' bound := by
    have again : l'.Carries target dispatcher
        ((d.without [name]).update ⟨[(name, x)], List.nodup_singleton name⟩) :=
      (h.unbind [name]).bind_eq_ok_iff.mp bound
    rw [again.shown.names, Dictionary.names_update_without rfl, h.shown.names]
  bind_bind _ _ := h.bind_bind_eq_iff
  unbind_unbind := l.unbind_unbind
  logs := h.logged

end Follows

/-- Making a logger succeeds if its fields can be captured, and deriving one from it if what is
bound can. Every logger so derived behaves as the dictionary which the same operations give, for the
target and the dispatcher of the first one; and whatever is derived, the loggers that there are stay
as they are. -/
theorem bindings_follow_dictionary (target : String) (given : Dictionary Datum)
    (dispatcher : Option Dispatcher) (session : Session) :
    ((∃ root, (Session.loggerOf target given.source dispatcher).run session =
      (.ok root, session)) ↔ given.Capturable) ∧
    ∀ root session',
      (Session.loggerOf target given.source dispatcher).run session = (.ok root, session') →
        (∀ ops, (∃ l, root.derive ops = .ok l) ↔ ∀ o ∈ ops, o.Capturable) ∧
        (∀ ops l, root.derive ops = .ok l →
          l.Follows target dispatcher (ops.foldl (fun d o => o.onDictionary d) given)) ∧
        ∀ cs, (∀ l ∈ root.descendants cs, ∃ ops, root.derive ops = .ok l) ∧
          ∀ more, root.descendants cs <+: root.descendants (cs ++ more) := by
  constructor
  · simp only [loggerOf_run_eq_ok_iff, and_true]
    exact exists_carries_iff target dispatcher
  · intro root session' made
    obtain ⟨carries, -⟩ := loggerOf_run_eq_ok_iff.mp made
    refine ⟨fun ops => carries.exists_derive_eq_ok_iff, ?_, ?_⟩
    · intro ops l done
      exact (carries.derive done).follows
    · intro cs
      exact ⟨exists_derive_of_mem_descendants root cs, descendants_prefix root cs⟩

/-- A name keeps its place when it is bound again, and loses it when it was unbound before. -/
theorem bindings_follow_service :
    ∃ root l, (Session.loggerOf "app"
        (Dictionary.source ⟨[("service", .text "users")], by simp⟩) none).run {} = (.ok root, {}) ∧
      root.derive [.bind ⟨[("a", .int 1), ("b", .int 2)], by simp⟩, .unbind ["a"],
        .bind ⟨[("b", .int 3), ("a", .int 4)], by simp⟩] = .ok l ∧
      l.Follows "app" none
        ⟨[("service", .text "users"), ("b", .int 3), ("a", .int 4)], by simp⟩ ∧
      l.fields = [⟨"service", .text "users"⟩, ⟨"b", .int 3⟩, ⟨"a", .int 4⟩] := by
  have made : (Session.loggerOf "app" (Dictionary.source ⟨[("service", .text "users")], by simp⟩)
    none).run {} = (.ok ⟨"app", [⟨"service", .text "users"⟩], none⟩, {}) := rfl
  have derived : (⟨"app", [⟨"service", .text "users"⟩], none⟩ : Logger).derive
      [.bind ⟨[("a", .int 1), ("b", .int 2)], by simp⟩, .unbind ["a"],
        .bind ⟨[("b", .int 3), ("a", .int 4)], by simp⟩] =
    .ok ⟨"app", [⟨"service", .text "users"⟩, ⟨"b", .int 3⟩, ⟨"a", .int 4⟩], none⟩ := rfl
  have follows := ((bindings_follow_dictionary "app" _ none {}).2 _ _ made).2.1 _ _ derived
  exact ⟨_, _, made, derived, follows, rfl⟩

/-- A value that cannot be captured cannot be bound. -/
theorem bind_eq_error {x : Datum} {name : String} {cause : TooLong}
    (refused : Value.capture x = .error cause) (l : Logger) :
    l.bind [(name, x)] = .error cause := by
  simp [bind, refused, Bind.bind, Except.bind]

/-- A value that is replaced has to be captured nonetheless. -/
theorem bind_bind_of_long_value :
    ∃ (root : Logger) (a b : Dictionary Datum),
      (Session.loggerOf "app" (Dictionary.source ⟨[], .nil⟩) none).run {} = (.ok root, {}) ∧
      a.entries = [("x", .dictionary [(.text "k", .int (10 ^ Numeral.digitLimit))])] ∧
      b.entries = [("x", .int 1)] ∧
      (do (← root.bind a.entries).bind b.entries) = .error {} ∧
      root.bind (a.update b).entries = .ok ⟨"app", [⟨"x", .int 1⟩], none⟩ := by
  have refused := Value.capture_dictionary_of_not_writable "k" Numeral.not_writable_limit
  refine ⟨⟨"app", [], none⟩, ⟨[("x", _)], List.nodup_singleton "x"⟩,
    ⟨[("x", .int 1)], List.nodup_singleton "x"⟩, rfl, rfl, rfl, ?_, rfl⟩
  rw [bind_eq_error refused]
  rfl

end Logger

end LogLayout
