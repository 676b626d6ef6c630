import Mathlib.Logic.Relation
import LogLayout.Proofs.Value

/-!
# Capturing brings data to a normal form

A captured value is, as a datum, a tree of tuples over plain truth values, integers, floating-point
numbers and texts (`Datum.IsPlain`). Lists and tuples are taken apart down to what is neither; of
that, what is no scalar has to be shown, and only there can capturing fail.

`Value.capture_normalizes` says that capturing what was captured gives it back, that a datum is in
normal form exactly when it is captured as itself, and that lists and tuples may take each other's
place at any depth. The text of a captured value is written without showing anything.
-/

namespace LogLayout

open Numeral (TooLong)

namespace Datum

/-- Tuples, nested to any depth, over plain scalars. -/
inductive IsPlain : Datum → Prop
  | bool (b : Bool) : IsPlain (.bool b)
  | int (n : Int) : IsPlain (.int n)
  | float (x : Binary64) : IsPlain (.float x)
  | text (s : String) : IsPlain (.text s)
  | tuple {items : List Datum} (each : ∀ d ∈ items, IsPlain d) : IsPlain (.tuple items)

/-- A list becomes the tuple of its items: the datum itself, or one inside its lists and tuples. -/
inductive Recast : Datum → Datum → Prop
  | here (items : List Datum) : Recast (.list items) (.tuple items)
  | inList {d d' : Datum} (before after : List Datum) (inner : Recast d d') :
      Recast (.list (before ++ d :: after)) (.list (before ++ d' :: after))
  | inTuple {d d' : Datum} (before after : List Datum) (inner : Recast d d') :
      Recast (.tuple (before ++ d :: after)) (.tuple (before ++ d' :: after))

mutual

/-- What the lists and tuples of a datum are made of that is no scalar, and so has to be shown. -/
def showings : Datum → List Datum
  | list items => allShowings items
  | tuple items => allShowings items
  | null => [null]
  | bytes content => [bytes content]
  | dictionary entries => [dictionary entries]
  | foreign shown => [foreign shown]
  | _ => []

def allShowings : List Datum → List Datum
  | [] => []
  | d :: rest => showings d ++ allShowings rest

end

end Datum

namespace Value

variable {d d' : Datum} {v : Value}

theorem toData_eq_map (vs : List Value) : toData vs = vs.map toDatum := by
  induction vs with
  | nil => rfl
  | cons v vs ih => rw [toData, ih, List.map_cons]

theorem attachAll_eq_map (ds : List Datum) : attachAll ds = ds.map attach := by
  induction ds with
  | nil => rfl
  | cons d ds ih => rw [attachAll, ih, List.map_cons]

theorem captureAll_eq_mapM (ds : List Datum) : captureAll ds = ds.mapM capture := by
  induction ds with
  | nil => rfl
  | cons d ds ih => rw [captureAll, ih, List.mapM_cons]

theorem areCaptured_iff {vs : List Value} :
    areCaptured vs = true ↔ ∀ v ∈ vs, v.isCaptured = true := by
  induction vs with
  | nil => simp [areCaptured]
  | cons v vs ih => rw [areCaptured, Bool.and_eq_true, ih, List.forall_mem_cons]

/-- What holds of the scalars, and of a sequence when it holds of its items, holds of each captured
value. -/
@[elab_as_elim]
theorem captured_induction {P : (v : Value) → v.isCaptured = true → Prop}
    (bool : ∀ b, P (.bool b) rfl) (int : ∀ n, P (.int n) rfl) (float : ∀ x, P (.float x) rfl)
    (text : ∀ s, P (.text s) rfl)
    (seq : ∀ items captured, (∀ v mem, P v (areCaptured_iff.mp captured v mem)) →
      P (.seq items) captured) : (v : Value) → (captured : v.isCaptured = true) → P v captured
  | .bool b, _ => bool b
  | .int n, _ => int n
  | .float x, _ => float x
  | .text s, _ => text s
  | .seq items, captured =>
      seq items captured fun v mem => captured_induction bool int float text seq v
        (areCaptured_iff.mp captured v mem)
  | .foreign _, captured => by cases captured

/-! ### The normal form -/

theorem isPlain_toDatum (captured : v.isCaptured = true) : v.toDatum.IsPlain := by
  induction v, captured using captured_induction with
  | bool b => exact .bool b
  | int n => exact .int n
  | float x => exact .float x
  | text s => exact .text s
  | seq items _ ih =>
      rw [toDatum, toData_eq_map]
      exact .tuple (List.forall_mem_map.mpr ih)

/-- A captured value is captured as it is. -/
theorem capture_toDatum (captured : v.isCaptured = true) : capture v.toDatum = .ok v := by
  induction v, captured using captured_induction with
  | bool | int | float | text => rfl
  | seq items _ ih =>
      have each : captureAll (items.map toDatum) = .ok items := by
        rw [captureAll_eq_mapM, Outcome.mapM_eq_ok_iff, List.forall₂_map_left_iff]
        exact List.forall₂_same.mpr ih
      rw [toDatum, toData_eq_map, capture, each]
      rfl

/-- A captured value is the same when it is attached without being captured again. -/
theorem attach_toDatum (captured : v.isCaptured = true) : attach v.toDatum = v := by
  induction v, captured using captured_induction with
  | bool | int | float | text => rfl
  | seq items _ ih =>
      have each : items.map (attach ∘ toDatum) = items :=
        (List.map_congr_left ih).trans (List.map_id' items)
      rw [toDatum, toData_eq_map, attach, attachAll_eq_map, List.map_map, each]

/-- In normal form are the captured values, read as data. -/
theorem exists_toDatum_of_isPlain (plain : d.IsPlain) :
    ∃ v : Value, v.isCaptured = true ∧ v.toDatum = d := by
  induction plain with
  | bool b => exact ⟨.bool b, rfl, rfl⟩
  | int n => exact ⟨.int n, rfl, rfl⟩
  | float x => exact ⟨.float x, rfl, rfl⟩
  | text s => exact ⟨.text s, rfl, rfl⟩
  | @tuple items _ ih =>
      obtain ⟨vs, related⟩ := exists_forall₂_iff.mpr ih
      have captured : ∀ v ∈ vs, v.isCaptured = true := by
        intro v mem
        obtain ⟨_, -, captured, -⟩ := exists_mem_of_forall₂ related mem
        exact captured
      have same : items = vs.map toDatum := by
        rw [← List.forall₂_eq_eq_eq, List.forall₂_map_right_iff]
        exact related.imp fun _ _ both => both.2.symm
      exact ⟨.seq vs, areCaptured_iff.mpr captured, by rw [toDatum, toData_eq_map, same]⟩

/-- A datum is in normal form exactly when it is captured as itself. -/
theorem isPlain_iff : d.IsPlain ↔ ∃ v, capture d = .ok v ∧ v.toDatum = d := by
  constructor
  · intro plain
    obtain ⟨v, captured, rfl⟩ := exists_toDatum_of_isPlain plain
    exact ⟨v, capture_toDatum captured, rfl⟩
  · rintro ⟨v, h, rfl⟩
    exact isPlain_toDatum (isCaptured_of_capture h)

/-! ### Lists and tuples in each other's place -/

/-- An item of a row can be replaced by one that is captured alike. -/
theorem captureAll_replace (same : capture d = capture d') (before after : List Datum) :
    captureAll (before ++ d :: after) = captureAll (before ++ d' :: after) := by
  simp only [captureAll_eq_mapM, List.mapM_append, List.mapM_cons, same]

theorem capture_eq_of_recast (h : d.Recast d') : capture d = capture d' := by
  induction h with
  | here items => rw [capture, capture]
  | inList before after _ ih | inTuple before after _ ih =>
      rw [capture, capture, captureAll_replace ih]

/-- Lists become tuples and tuples lists, at any places and any number of times. -/
theorem capture_eq_of_eqvGen (h : Relation.EqvGen Datum.Recast d d') : capture d = capture d' := by
  induction h with
  | rel _ _ step => exact capture_eq_of_recast step
  | refl => rfl
  | symm _ _ _ ih => exact ih.symm
  | trans _ _ _ _ _ first second => exact first.trans second

/-! ### When there is a captured value -/

mutual

/-- A datum is captured exactly when there is a text for all that has to be shown. -/
theorem exists_capture_eq_ok_iff : (d : Datum) →
    ((∃ v, capture d = .ok v) ↔ ∀ e ∈ d.showings, ∃ s, e.shown = .ok s)
  | .bool _ | .int _ | .level _ | .float _ | .text _ => by simp [capture, Datum.showings]
  | .foreign s => by simp [capture, Datum.showings, Datum.shown]
  | .null | .bytes _ | .dictionary _ => by
      rw [capture, Outcome.exists_return_eq_ok_iff, Datum.showings, List.forall_mem_singleton]
  | .list items | .tuple items => by
      rw [capture, Outcome.exists_return_eq_ok_iff, Datum.showings]
      exact exists_captureAll_eq_ok_iff items

theorem exists_captureAll_eq_ok_iff : (ds : List Datum) →
    ((∃ vs, captureAll ds = .ok vs) ↔ ∀ e ∈ Datum.allShowings ds, ∃ s, e.shown = .ok s)
  | [] => by simp [captureAll, Datum.allShowings]
  | d :: ds => by
      rw [Datum.allShowings, List.forall_mem_append, ← exists_capture_eq_ok_iff d,
        ← exists_captureAll_eq_ok_iff ds]
      simp only [captureAll, Outcome.bind_eq_ok_iff]
      constructor
      · rintro ⟨_, v, hv, vs, hvs, -⟩
        exact ⟨⟨v, hv⟩, vs, hvs⟩
      · rintro ⟨⟨v, hv⟩, vs, hvs⟩
        exact ⟨_, v, hv, vs, hvs, rfl⟩

end

/-! ### The last resort of writing -/

section Fallback

variable (fallback : Datum → Except TooLong String) (quote : String)

mutual

/-- The text of a value, with the way to write what is foreign left open. -/
def renderBy : Value → Except TooLong String
  | .text s => .ok (quote ++ s ++ quote)
  | .bool b => .ok (if b then "true" else "false")
  | .int n => Numeral.write n
  | .float x => .ok x.defaultText
  | .seq items => do return "[" ++ ",".intercalate (← renderAllBy items) ++ "]"
  | .foreign source => fallback source

def renderAllBy : List Value → Except TooLong (List String)
  | [] => .ok []
  | v :: rest => do
    let first ← renderBy v
    return first :: (← renderAllBy rest)

end

mutual

/-- A value is rendered by showing what is foreign in it. -/
theorem renderBy_shown : (v : Value) → renderBy Datum.shown quote v = v.render quote
  | .bool _ | .int _ | .float _ | .text _ | .foreign _ => rfl
  | .seq items => by rw [renderBy, render, renderAllBy_shown items]

theorem renderAllBy_shown :
    (vs : List Value) → renderAllBy Datum.shown quote vs = renderAll quote vs
  | [] => rfl
  | v :: vs => by rw [renderAllBy, renderAll, renderBy_shown v, renderAllBy_shown vs]

end

theorem renderAllBy_eq_mapM (vs : List Value) :
    renderAllBy fallback quote vs = vs.mapM (renderBy fallback quote) := by
  induction vs with
  | nil => rfl
  | cons v vs ih => rw [renderAllBy, ih, List.mapM_cons]

/-- The text of a captured value does not depend on how foreign data would be written. -/
theorem renderBy_of_isCaptured (captured : v.isCaptured = true) :
    renderBy fallback quote v = v.render quote := by
  rw [← renderBy_shown]
  induction v, captured using captured_induction with
  | bool | int | float | text => rfl
  | seq items _ ih =>
      have each : items.mapM (renderBy fallback quote) =
          items.mapM (renderBy Datum.shown quote) :=
        Outcome.mapM_congr (List.forall₂_same.mpr ih)
      rw [renderBy, renderBy, renderAllBy_eq_mapM, renderAllBy_eq_mapM, each]

end Fallback

/-- Capturing brings a datum, whenever all that has to be shown has a text, to a normal form: tuples
over plain scalars, which are captured as they are. What is in normal form is so captured and
nothing else is, lists and tuples make no difference at any depth, and writing a captured value
never comes to what would be done with something foreign. -/
theorem capture_normalizes (d : Datum) :
    ((∃ v, capture d = .ok v) ↔ ∀ e ∈ d.showings, ∃ s, e.shown = .ok s) ∧
    (∀ v, capture d = .ok v →
      v.isCaptured = true ∧ v.toDatum.IsPlain ∧ capture v.toDatum = .ok v ∧
      attach v.toDatum = v ∧
      ∀ fallback quote, renderBy fallback quote v = v.render quote) ∧
    (d.IsPlain ↔ ∃ v, capture d = .ok v ∧ v.toDatum = d) ∧
    ∀ d', Relation.EqvGen Datum.Recast d d' → capture d' = capture d := by
  refine ⟨exists_capture_eq_ok_iff d, ?_, isPlain_iff, ?_⟩
  · intro v h
    have captured := isCaptured_of_capture h
    refine ⟨captured, isPlain_toDatum captured, capture_toDatum captured,
      attach_toDatum captured, ?_⟩
    intro fallback quote
    exact renderBy_of_isCaptured fallback quote captured
  · intro d' related
    exact (capture_eq_of_eqvGen related).symm

/-- A level, a dictionary and nothing, in a list inside a tuple, or in a tuple inside a list. -/
theorem capture_normalizes_nested :
    ∃ d d' v, d = .tuple [.level .info, .list [.text "a", .dictionary [(.text "k", .bool true)]],
        .null] ∧
      d' = .list [.level .info, .tuple [.text "a", .dictionary [(.text "k", .bool true)]],
        .null] ∧
      v = .seq [.int Level.info.number, .seq [.text "a", .text "\x7b'k': True\x7d"], .text "None"] ∧
      capture d = .ok v ∧ capture d' = .ok v ∧ capture v.toDatum = .ok v ∧
      renderBy (fun _ => .ok "?") "'" v = v.render "'" := by
  let pair : List Datum := [.text "a", .dictionary [(.text "k", .bool true)]]
  let d : Datum := .tuple [.level .info, .list pair, .null]
  let d' : Datum := .list [.level .info, .tuple pair, .null]
  let shown : Value := .text "\x7b'k': True\x7d"
  have captured :
      capture d = .ok (.seq [.int Level.info.number, .seq [.text "a", shown], .text "None"]) := rfl
  have inside : Datum.Recast d (.tuple [.level .info, .tuple pair, .null]) :=
    .inTuple [.level .info] [.null] (.here pair)
  have outside : Datum.Recast d' (.tuple [.level .info, .tuple pair, .null]) := .here _
  have related : Relation.EqvGen Datum.Recast d d' :=
    .trans _ _ _ (.rel _ _ inside) (.symm _ _ (.rel _ _ outside))
  obtain ⟨-, normal, -, alike⟩ := capture_normalizes d
  obtain ⟨-, -, again, -, written⟩ := normal _ captured
  exact ⟨d, d', _, rfl, rfl, rfl, captured, (alike d' related).trans captured, again, written _ _⟩

end Value

end LogLayout
