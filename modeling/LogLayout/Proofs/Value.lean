import LogLayout.Value.Capture
import LogLayout.Value.Render
import LogLayout.Proofs.Numeral
import LogLayout.Proofs.Outcome

/-!
# Captured values can be written

Capturing a datum gives a value that holds nothing foreign, at any depth. Of such a value only the
integers can fail to be written, so it has a text exactly when each of its integers has one
(`Value.exists_render_eq_ok_iff`); the same holds for rows of fields. Which fields a source holds is
said by `FieldSource.Holds`: one for each element, in order.
-/

namespace LogLayout

open Numeral (Writable)

namespace Value

mutual

/-- The integers that a value holds, at any depth. -/
def integers : Value → List Int
  | int n => [n]
  | seq items => allIntegers items
  | _ => []

def allIntegers : List Value → List Int
  | [] => []
  | v :: rest => integers v ++ allIntegers rest

end

mutual

theorem isCaptured_of_capture : {d : Datum} → {v : Value} → capture d = .ok v → v.isCaptured = true
  | .bool _, _, h | .int _, _, h | .level _, _, h | .float _, _, h | .text _, _, h
  | .foreign _, _, h => by
      obtain rfl := Except.ok.inj h
      rfl
  | .null, _, h | .bytes _, _, h | .dictionary _, _, h => by
      rw [capture, Outcome.bind_eq_ok_iff] at h
      obtain ⟨_, -, h⟩ := h
      obtain rfl := Except.ok.inj h
      rfl
  | .list items, _, h | .tuple items, _, h => by
      rw [capture, Outcome.bind_eq_ok_iff] at h
      obtain ⟨vs, hvs, h⟩ := h
      obtain rfl := Except.ok.inj h
      exact areCaptured_of_captureAll hvs

theorem areCaptured_of_captureAll :
    {ds : List Datum} → {vs : List Value} → captureAll ds = .ok vs → areCaptured vs = true
  | [], _, h => by
      obtain rfl := Except.ok.inj h
      rfl
  | d :: ds, _, h => by
      rw [captureAll, Outcome.bind_eq_ok_iff] at h
      obtain ⟨first, hfirst, h⟩ := h
      obtain ⟨rest, hrest, h⟩ := Outcome.bind_eq_ok_iff.mp h
      obtain rfl := Except.ok.inj h
      simp [areCaptured, isCaptured_of_capture hfirst, areCaptured_of_captureAll hrest]

end

variable {quote : String}

mutual

/-- A captured value has a text exactly when each of its integers has one. -/
theorem exists_render_eq_ok_iff :
    {v : Value} → v.isCaptured = true →
      ((∃ s, v.render quote = .ok s) ↔ ∀ n ∈ v.integers, Writable n)
  | .bool _, _ | .float _, _ | .text _, _ => by simp [render, integers]
  | .int n, _ => by simp [render, integers, Numeral.exists_write_eq_ok_iff]
  | .seq items, captured => by
      rw [integers, ← exists_renderAll_eq_ok_iff captured, render]
      exact Outcome.exists_return_eq_ok_iff
  | .foreign _, captured => by cases captured

theorem exists_renderAll_eq_ok_iff :
    {vs : List Value} → areCaptured vs = true →
      ((∃ texts, renderAll quote vs = .ok texts) ↔ ∀ n ∈ allIntegers vs, Writable n)
  | [], _ => by simp [renderAll, allIntegers]
  | v :: vs, captured => by
      obtain ⟨first, rest⟩ := Bool.and_eq_true_iff.mp captured
      rw [allIntegers, List.forall_mem_append, ← exists_render_eq_ok_iff first,
        ← exists_renderAll_eq_ok_iff rest]
      simp only [renderAll, Outcome.bind_eq_ok_iff]
      constructor
      · rintro ⟨_, s, hs, texts, htexts, -⟩
        exact ⟨⟨s, hs⟩, texts, htexts⟩
      · rintro ⟨⟨s, hs⟩, texts, htexts⟩
        exact ⟨_, s, hs, texts, htexts, rfl⟩

end

end Value

/-- A source of fields that captures what it is given. Fields that are ready have to be captured
already. -/
def FieldSource.Plain : FieldSource → Prop
  | .ready fields => ∀ f ∈ fields, f.value.isCaptured = true
  | _ => True

/-- A field shows a name and captures a value. -/
structure Field.Captures (name value : Datum) (f : Field) : Prop where
  name_eq : name.display = .ok f.name
  value_eq : Value.capture value = .ok f.value

/-- A field shows the first item of an element and captures the second. -/
def Field.CapturesPair (element : Datum) (f : Field) : Prop :=
  ∃ name value, item element 0 = .ok name ∧ item element 1 = .ok value ∧ f.Captures name value

/-- The fields that a source holds: one for each element, in the order of the elements. -/
inductive FieldSource.Holds : FieldSource → List Field → Prop
  | ready (fields : List Field) : Holds (.ready fields) fields
  | stream {items : List Datum} {fields : List Field}
      (each : List.Forall₂ Field.CapturesPair items fields) : Holds (.stream items) fields
  | nothing {d : Datum} (falsy : d.isTruthy = false) : Holds (.datum d) []
  | dictionary {entries : List (Datum × Datum)} {fields : List Field}
      (each : List.Forall₂ (fun e f => Field.Captures e.1 e.2 f) entries fields) :
      Holds (.datum (.dictionary entries)) fields
  | collection {d : Datum} {items : List Datum} {fields : List Field}
      (elements : Field.elements d = .ok items)
      (each : List.Forall₂ Field.CapturesPair items fields) : Holds (.datum d) fields

namespace Field

variable {f : Field} {fields : List Field}

theorem ofData_eq_ok_iff {name value : Datum} :
    ofData name value = .ok f ↔ f.Captures name value := by
  simp only [ofData, shownOr, Outcome.bind_eq_ok_iff, Outcome.mapError_eq_ok_iff]
  constructor
  · rintro ⟨shown, hshown, v, hv, made⟩
    obtain rfl := Except.ok.inj made
    exact ⟨hshown, hv⟩
  · rintro ⟨shown, captured⟩
    exact ⟨f.name, shown, f.value, captured, rfl⟩

theorem ofPair_eq_ok_iff {element : Datum} : ofPair element = .ok f ↔ CapturesPair element f := by
  simp only [ofPair, shownOr, Outcome.bind_eq_ok_iff, Outcome.mapError_eq_ok_iff]
  constructor
  · rintro ⟨name, hname, shown, hshown, value, hvalue, v, hv, made⟩
    obtain rfl := Except.ok.inj made
    exact ⟨name, value, hname, hvalue, hshown, hv⟩
  · rintro ⟨name, value, hname, hvalue, shown, captured⟩
    exact ⟨name, hname, f.name, shown, value, hvalue, f.value, captured, rfl⟩

/-- A collection that counts as false has no elements. -/
theorem eq_nil_of_elements {d : Datum} {items : List Datum} (falsy : d.isTruthy = false)
    (h : elements d = .ok items) : items = [] := by
  cases d with
  | list _ | tuple _ | text _ | bytes _ =>
      obtain rfl := Except.ok.inj h
      simpa [Datum.isTruthy] using falsy
  | _ => cases h

theorem ofSource_dictionary (entries : List (Datum × Datum)) :
    ofSource (.datum (.dictionary entries)) = entries.mapM fun e => ofData e.1 e.2 := by
  cases entries <;> rfl

theorem ofSource_collection {d : Datum} {items : List Datum} (h : elements d = .ok items) :
    ofSource (.datum d) = items.mapM ofPair := by
  cases truthy : d.isTruthy with
  | false =>
      obtain rfl := eq_nil_of_elements truthy h
      simp [ofSource, truthy, pure, Except.pure]
  | true =>
      cases d with
      | dictionary => cases h
      | _ => simp [ofSource, truthy, h, bind, Except.bind]

/-- Fields are made of a source exactly when it holds them. -/
theorem ofSource_eq_ok_iff {source : FieldSource} :
    ofSource source = .ok fields ↔ source.Holds fields := by
  have pairs {items : List Datum} :
      items.mapM ofPair = .ok fields ↔ List.Forall₂ CapturesPair items fields := by
    simp only [Outcome.mapM_eq_ok_iff, ofPair_eq_ok_iff]
  constructor
  · intro h
    cases source with
    | ready ready =>
        obtain rfl := Except.ok.inj h
        exact .ready ready
    | stream items => exact .stream (pairs.mp h)
    | datum d =>
        unfold ofSource at h
        dsimp only at h
        split at h
        · next falsy =>
            obtain rfl := Except.ok.inj h
            exact .nothing (by simpa using falsy)
        · split at h
          · simp only [Outcome.mapM_eq_ok_iff, ofData_eq_ok_iff] at h
            exact .dictionary h
          · obtain ⟨items, elements, h⟩ := Outcome.bind_eq_ok_iff.mp h
            exact .collection elements (pairs.mp h)
  · intro h
    cases h with
    | ready => rfl
    | stream each => exact pairs.mpr each
    | nothing falsy => simp [ofSource, falsy]
    | dictionary each =>
        rw [ofSource_dictionary, Outcome.mapM_eq_ok_iff]
        exact each.imp fun _ _ => ofData_eq_ok_iff.mpr
    | collection elements each =>
        rw [ofSource_collection elements]
        exact pairs.mpr each

/-- The fields of a plain source are captured. -/
theorem isCaptured_of_ofSource {source : FieldSource} (plain : source.Plain)
    (h : ofSource source = .ok fields) : ∀ f ∈ fields, f.value.isCaptured = true := by
  intro f mem
  cases ofSource_eq_ok_iff.mp h with
  | ready => exact plain f mem
  | nothing => cases mem
  | dictionary each =>
      obtain ⟨_, -, captures⟩ := exists_mem_of_forall₂ each mem
      exact Value.isCaptured_of_capture captures.value_eq
  | stream each | collection _ each =>
      obtain ⟨_, -, _, _, -, -, captures⟩ := exists_mem_of_forall₂ each mem
      exact Value.isCaptured_of_capture captures.value_eq

/-- The integers that a row of fields holds. -/
def integers (fields : List Field) : List Int := fields.flatMap fun f => f.value.integers

/-- A row of captured fields has a text exactly when each of its integers has one. -/
theorem exists_renderAll_eq_ok_iff {quote : String} {fields : List Field}
    (captured : ∀ f ∈ fields, f.value.isCaptured = true) :
    (∃ s, renderAll quote fields = .ok s) ↔ ∀ n ∈ integers fields, Writable n := by
  have each : ∀ f ∈ fields,
      ((∃ s, f.render quote = .ok s) ↔ ∀ n ∈ f.value.integers, Writable n) := by
    intro f mem
    exact Outcome.exists_return_eq_ok_iff.trans (Value.exists_render_eq_ok_iff (captured f mem))
  have all : (∃ texts, fields.mapM (render quote) = .ok texts) ↔
      ∀ n ∈ integers fields, Writable n := by
    rw [Outcome.exists_mapM_eq_ok_iff]
    simp only [integers, List.mem_flatMap]
    constructor
    · rintro h n ⟨f, mem, hn⟩
      exact (each f mem).mp (h f mem) n hn
    · intro h f mem
      exact (each f mem).mpr fun n hn => h n ⟨f, mem, hn⟩
  exact Outcome.exists_return_eq_ok_iff.trans all

end Field

end LogLayout
