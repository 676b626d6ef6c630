import Mathlib.Order.Bounds.Basic
import LogLayout.Proofs.Pattern.Storage

/-!
# Loading documents segment by segment

Whether a segment of a document is accepted, and what is wrong with it, does not depend on where it
stands or on the segments around it. So a document is accepted when each of its segments makes an
accepted document of its own, and its pattern has the segments of these. Otherwise the first segment
that does not is at fault, and the fault is the one of its own document.

`Pattern.loading_is_compositional` says this for every document that was read from a text or from
bytes. Nothing but a rejection can come of such a document: every part of it can be shown.
-/

namespace LogLayout

/-- An error about the segment with the given number, instead of another one. -/
def DocumentError.moveTo (index : Nat) : DocumentError → DocumentError
  | rejected r => rejected ⟨r.fault, index⟩
  | numeral cause => numeral cause

/-- The document of a single segment. -/
def Json.alone (item : Json) : Json := .object [("segments", .list [item])]

/-- The segments that a document lists. An object that does not speak of segments has none. -/
inductive Json.Lists : Json → List Json → Prop
  | given {members : List (String × Json)} {items : List Json}
      (h : ("segments", .list items) ∈ members) : Lists (.object members) items
  | absent {members : List (String × Json)} (h : ∀ m ∈ members, m.1 ≠ "segments") :
      Lists (.object members) []

/-- Loading a text, or bytes, from which a value was decoded, and what comes of it. -/
inductive Pattern.Loaded (j : Json) : Except DocumentError Pattern → Prop
  | text {text : String} (read : Json.read .strict text = some j) : Loaded j (load text)
  | bytes {content : List UInt8} {text : String} (decoded : Datum.utf8? content = some text)
      (read : Json.read .strict text = some j) : Loaded j (loadBytes content)

/-- A segment is accepted as a document of its own. -/
def Json.Accepted (item : Json) : Prop := ∃ p, Pattern.ofDatum item.alone.toDatum = .ok p

/-! ### One segment -/

namespace Segment

variable {d : Datum} {s : Segment} {index : Nat} {item : Json}

/-- The place of a segment has no part in its judgement. -/
theorem ofDatum_eq_moveTo (index : Nat) (d : Datum) :
    ofDatum index d = (ofDatum 0 d).mapError (.moveTo index) := by
  cases d with
  | dictionary entries =>
      simp only [ofDatum]
      split
      · rfl
      · split
        · rfl
        · split <;> rfl
      · split <;> rfl
  | _ =>
    simp only [ofDatum]
    split <;> rfl

theorem ofDatum_eq_ok_iff : ofDatum index d = .ok s ↔ ofDatum 0 d = .ok s := by
  rw [ofDatum_eq_moveTo, Outcome.mapError_eq_ok_iff]

/-- A segment that can be shown is accepted, or else it is rejected. -/
theorem ofDatum_answers {shown : String} (h : d.shown = .ok shown) :
    (∃ s, ofDatum 0 d = .ok s) ∨ ∃ fault, ofDatum 0 d = .error (.rejected ⟨fault, 0⟩) := by
  cases d with
  | dictionary entries =>
      simp only [ofDatum, h]
      split
      · exact .inl ⟨_, rfl⟩
      · split
        · exact .inr ⟨_, rfl⟩
        · split
          · exact .inl ⟨_, rfl⟩
          · exact .inr ⟨_, rfl⟩
      · exact .inr ⟨_, rfl⟩
  | _ =>
    simp only [ofDatum, h]
    exact .inr ⟨_, rfl⟩

theorem ofDatum_alone (item : Json) :
    Pattern.ofDatum item.alone.toDatum = (ofDatum 0 item.toDatum).map fun s => ⟨[s], ""⟩ := by
  have listed : (Datum.lookup? (Json.toEntries [("segments", .list [item])]) (.text "segments")) =
      some (.list [item.toDatum]) := by
    simp [Datum.lookup?_toEntries, Json.toDatum, Json.toData]
  have noSource : (Datum.lookup? (Json.toEntries [("segments", .list [item])]) (.text "source")) =
      none := by
    simp [Datum.lookup?_toEntries]
  rw [Json.alone, Json.toDatum, Pattern.ofDatum]
  simp only [listed, noSource, Option.getD_some, Option.getD_none, ofData]
  cases ofDatum 0 item.toDatum with
  | ok s => rfl
  | error e => rfl

theorem accepted_iff : item.Accepted ↔ ∃ s, ofDatum 0 item.toDatum = .ok s := by
  rw [Json.Accepted, ofDatum_alone]
  exact Outcome.exists_map_eq_ok_iff

end Segment

/-! ### A row of segments -/

/-- How a row of segments from some number on is judged: each of them is accepted, or those before
the first one that is not, and this one is at fault. -/
inductive Segment.Judged (index : Nat) (items : List Json) :
    Except DocumentError (List Segment) → Prop
  | all {segments : List Segment}
      (each : List.Forall₂ (fun item s => Segment.ofDatum 0 item.toDatum = .ok s) items segments) :
      Judged index items (.ok segments)
  | upTo {before after : List Json} {item : Json} {fault : Fault}
      (split : items = before ++ item :: after) (accepted : ∀ i ∈ before, i.Accepted)
      (rejected : Segment.ofDatum 0 item.toDatum = .error (.rejected ⟨fault, 0⟩)) :
      Judged index items (.error (.rejected ⟨fault, index + before.length⟩))

namespace Segment

variable {index : Nat} {items : List Json} {item : Json} {s : Segment}
  {outcome : Except DocumentError (List Segment)}

theorem Judged.cons (h : Judged (index + 1) items outcome)
    (accepted : ofDatum 0 item.toDatum = .ok s) :
    Judged index (item :: items) (outcome.map (s :: ·)) := by
  cases h with
  | all each => exact .all (.cons accepted each)
  | @upTo before after first fault split others rejected =>
      have place : index + 1 + before.length = index + (item :: before).length := by
        rw [List.length_cons]
        omega
      rw [place]
      refine .upTo (by rw [split]; rfl) (List.forall_mem_cons.mpr ⟨?_, others⟩) rejected
      exact accepted_iff.mpr ⟨s, accepted⟩

theorem judged_ofData (decoded : ∀ item ∈ items, item.Decoded) :
    Judged index items (ofData index (items.map Json.toDatum)) := by
  induction items generalizing index with
  | nil => exact .all .nil
  | cons item items ih =>
      obtain ⟨first, others⟩ := List.forall_mem_cons.mp decoded
      obtain ⟨shown, hshown⟩ := first.exists_shown
      rw [List.map_cons, ofData]
      obtain ⟨s, accepted⟩ | ⟨fault, rejected⟩ := ofDatum_answers hshown
      · rw [ofDatum_eq_ok_iff.mpr accepted]
        exact (ih others).cons accepted
      · rw [ofDatum_eq_moveTo, rejected]
        exact @Judged.upTo index _ [] _ _ _ rfl (List.forall_mem_nil _) rejected

theorem accepted_of_forall₂ {segments : List Segment}
    (each : List.Forall₂ (fun item s => ofDatum 0 item.toDatum = .ok s) items segments) :
    ∀ item ∈ items, item.Accepted :=
  fun item mem => accepted_iff.mpr (exists_forall₂_iff.mp ⟨segments, each⟩ item mem)

theorem not_accepted_of_error {e : DocumentError} (h : ofDatum 0 item.toDatum = .error e) :
    ¬ item.Accepted := by
  rw [accepted_iff, h]
  exact nofun

/-- The first segment that is not accepted has the count of those before it as its number. -/
theorem isLeast_not_accepted {before after : List Json} (split : items = before ++ item :: after)
    (accepted : ∀ i ∈ before, i.Accepted) (rejected : ¬ item.Accepted) :
    IsLeast {i | ∃ item, items[i]? = some item ∧ ¬ item.Accepted} before.length := by
  subst split
  refine ⟨⟨item, by simp, rejected⟩, ?_⟩
  rintro i ⟨other, found, notAccepted⟩
  by_contra inside
  rw [List.getElem?_append_left (Nat.not_le.mp inside)] at found
  exact notAccepted (accepted other (List.mem_of_getElem? found))

end Segment

/-! ### Members by name -/

namespace Json

variable {members : List (String × Json)} {name : String} {value : Json}

theorem lookup_of_mem (distinct : (members.map Prod.fst).Nodup) (mem : (name, value) ∈ members) :
    Datum.lookup? (toEntries members) (.text name) = some value.toDatum := by
  rw [Datum.lookup?_toEntries, (find?_name_eq_some_iff distinct).mpr ⟨mem, rfl⟩]
  rfl

theorem lookup_of_absent (absent : ∀ m ∈ members, m.1 ≠ name) :
    Datum.lookup? (toEntries members) (.text name) = none := by
  rw [Datum.lookup?_toEntries, List.find?_eq_none.mpr]
  · rfl
  · intro m mem
    simpa using (absent m mem).symm

theorem lookup_cases (name : String) (distinct : (members.map Prod.fst).Nodup) :
    (∃ value, (name, value) ∈ members ∧
        Datum.lookup? (toEntries members) (.text name) = some value.toDatum) ∨
      (∀ m ∈ members, m.1 ≠ name) ∧ Datum.lookup? (toEntries members) (.text name) = none := by
  by_cases present : ∃ m ∈ members, m.1 = name
  · obtain ⟨⟨_, value⟩, mem, rfl⟩ := present
    exact .inl ⟨value, mem, lookup_of_mem distinct mem⟩
  · have absent : ∀ m ∈ members, m.1 ≠ name := fun m mem same => present ⟨m, mem, same⟩
    exact .inr ⟨absent, lookup_of_absent absent⟩

end Json

/-! ### Documents -/

namespace Pattern

variable {j : Json} {items : List Json} {outcome : Except DocumentError Pattern}

theorem Loaded.decoded (h : Loaded j outcome) : j.Decoded := by
  cases h with
  | text read => exact Json.decoded_of_read read
  | bytes decoded read => exact Json.decoded_of_read read

theorem Loaded.eq_ofDatum (h : Loaded j outcome) : outcome = ofDatum j.toDatum := by
  cases h with
  | text read => rw [load, read]
  | bytes decoded read => simp only [loadBytes, decoded, load, read]

/-- The source of a document that was read can be told. -/
theorem exists_source {members : List (String × Json)} (decoded : (Json.object members).Decoded) :
    ∃ source, ((Datum.lookup? (Json.toEntries members) (.text "source")).getD (.text "")).display =
      .ok source := by
  cases decoded with
  | object distinct each =>
      obtain ⟨value, mem, found⟩ | ⟨-, none⟩ := Json.lookup_cases "source" distinct
      · rw [found]
        exact (each _ mem).exists_display
      · rw [none]
        exact ⟨"", rfl⟩

theorem ofDatum_of_lists (decoded : j.Decoded) (lists : j.Lists items) :
    ∃ source, ofDatum j.toDatum =
      (Segment.ofData 0 (items.map Json.toDatum)).map fun segments => ⟨segments, source⟩ := by
  cases lists with
  | given mem =>
      obtain ⟨source, told⟩ := exists_source decoded
      refine ⟨source, ?_⟩
      cases decoded with
      | object distinct each =>
          rw [Json.toDatum, ofDatum]
          simp only [Json.lookup_of_mem distinct mem, Option.getD_some, Json.toDatum,
            Json.toData_eq, told]
          cases Segment.ofData 0 (items.map Json.toDatum) <;> rfl
  | absent absent =>
      obtain ⟨source, told⟩ := exists_source decoded
      refine ⟨source, ?_⟩
      rw [Json.toDatum, ofDatum]
      simp only [Json.lookup_of_absent absent, Option.getD_none, told]
      rfl

theorem ofDatum_of_not_lists (decoded : j.Decoded) (lists : ∀ items, ¬ j.Lists items) :
    ofDatum j.toDatum = .error (.rejected ⟨.notADocument, 0⟩) := by
  cases decoded with
  | object distinct each =>
      rw [Json.toDatum, ofDatum]
      obtain ⟨value, mem, found⟩ | ⟨absent, -⟩ := Json.lookup_cases "segments" distinct
      · simp only [found, Option.getD_some]
        cases value with
        | list items => exact absurd (.given mem) (lists items)
        | _ => rfl
      · exact absurd (.absent absent) (lists [])
  | _ => rfl

/-- The items of a document that was read were read. -/
theorem decoded_of_lists (decoded : j.Decoded) (lists : j.Lists items) :
    ∀ item ∈ items, item.Decoded := by
  cases lists with
  | given mem =>
      cases decoded with
      | object distinct each =>
          cases each _ mem with
          | list each => exact each
  | absent => nofun

/-- What comes of a document is what comes of its segments. -/
theorem Loaded.exists_judged (loaded : Loaded j outcome) (lists : j.Lists items) :
    ∃ row source, Segment.Judged 0 items row ∧
      outcome = row.map fun segments => ⟨segments, source⟩ := by
  have decoded := loaded.decoded
  obtain ⟨source, read⟩ := ofDatum_of_lists decoded lists
  refine ⟨_, source, Segment.judged_ofData (decoded_of_lists decoded lists), ?_⟩
  rw [loaded.eq_ofDatum, read]

/-- One segment that is not accepted alone is enough for a document to be rejected. -/
theorem Loaded.rejected_of_not_accepted (loaded : Loaded j outcome) (lists : j.Lists items)
    {item : Json} (mem : item ∈ items) (notAccepted : ¬ item.Accepted) :
    ∃ r, outcome = .error (.rejected r) := by
  obtain ⟨row, source, judged, rfl⟩ := loaded.exists_judged lists
  cases judged with
  | all each => exact absurd (Segment.accepted_of_forall₂ each item mem) notAccepted
  | upTo => exact ⟨_, rfl⟩

/-- A document is accepted exactly when each of its segments is accepted alone, and then its
segments are theirs, in order. Otherwise the first segment that is not accepted alone is at fault,
for the same reason; nothing else can happen. What lists no segments is no document. -/
theorem loading_is_compositional (loaded : Loaded j outcome) :
    (∀ items, j.Lists items →
      ((∀ item ∈ items, item.Accepted) → ∃ p, outcome = .ok p ∧
        List.Forall₂ (fun item s => ∃ source, ofDatum item.alone.toDatum = .ok ⟨[s], source⟩)
          items p.segments) ∧
      ((∃ item ∈ items, ¬ item.Accepted) → ∃ fault index item,
        outcome = .error (.rejected ⟨fault, index⟩) ∧
        IsLeast {i | ∃ item, items[i]? = some item ∧ ¬ item.Accepted} index ∧
        items[index]? = some item ∧
        ofDatum item.alone.toDatum = .error (.rejected ⟨fault, 0⟩))) ∧
    ((∀ items, ¬ j.Lists items) → ∃ fault, outcome = .error (.rejected ⟨fault, 0⟩) ∧
      fault.code = .invalidSyntax) := by
  refine ⟨?_, fun notListed => ?_⟩
  · intro items lists
    obtain ⟨row, source, judged, rfl⟩ := loaded.exists_judged lists
    cases judged with
    | @all segments each =>
        refine ⟨fun _ => ⟨⟨segments, source⟩, rfl, ?_⟩, ?_⟩
        · refine each.imp fun item s accepted => ⟨"", ?_⟩
          rw [Segment.ofDatum_alone, accepted]
          rfl
        · rintro ⟨item, mem, notAccepted⟩
          exact absurd (Segment.accepted_of_forall₂ each item mem) notAccepted
    | @upTo before after item fault split accepted rejected =>
        have notAccepted := Segment.not_accepted_of_error rejected
        have mem : item ∈ items := split ▸ List.mem_append_right _ List.mem_cons_self
        refine ⟨fun all => absurd (all item mem) notAccepted, fun _ => ?_⟩
        refine ⟨fault, before.length, item, by rw [Nat.zero_add]; rfl,
          Segment.isLeast_not_accepted split accepted notAccepted, by simp [split], ?_⟩
        rw [Segment.ofDatum_alone, rejected]
        rfl
  · rw [loaded.eq_ofDatum, ofDatum_of_not_lists loaded.decoded notListed]
    exact ⟨_, rfl, rfl⟩

/-- A document of stable segments is stable. -/
theorem stable_segments {n : Nat} (each : ∀ item ∈ items, Json.Stable n item) :
    Json.Stable (n + 2) (.object [("segments", .list items)]) :=
  .object (by simp) (by simpa using .list each)

/-- A literal, a token whose kind is misspelt, and something that is no segment. -/
def misspelt : List Json :=
  [.object [("text", .text "at ")], .object [("token", .text "levle")], .null]

/-- The second segment is reported, although the third is at fault as well. -/
theorem load_misspelt :
    load (String.ofList (Json.object [("segments", .list misspelt)]).write) =
      .error (.rejected ⟨.unknownKind "levle", 1⟩) := by
  have literal : Segment.ofDatum 0 (Json.object [("text", .text "at ")]).toDatum =
      .ok (.literal "at ") := rfl
  have token : Segment.ofDatum 0 (Json.object [("token", .text "levle")]).toDatum =
      .error (.rejected ⟨.unknownKind "levle", 0⟩) := rfl
  have notAccepted := Segment.not_accepted_of_error token
  have each : ∀ j ∈ misspelt, Json.Stable (1021 + 1) j := by
    simp only [misspelt, List.forall_mem_cons, List.not_mem_nil, false_implies, implies_true,
      and_true]
    exact ⟨.object (by simp) (by simp [Json.Stable.text]),
      .object (by simp) (by simp [Json.Stable.text]), .null⟩
  have listed : (Json.object [("segments", .list misspelt)]).Lists misspelt :=
    .given List.mem_cons_self
  have read := Json.read_write (stable_segments each)
  obtain ⟨fault, index, item, loaded, least, place, alone⟩ :=
    ((loading_is_compositional (.text read)).1 misspelt listed).2
      ⟨_, List.mem_cons_of_mem _ List.mem_cons_self, notAccepted⟩
  have second : IsLeast {i | ∃ item, misspelt[i]? = some item ∧ ¬ item.Accepted} 1 :=
    @Segment.isLeast_not_accepted _ _ [_] _ rfl
      (by simpa using Segment.accepted_iff.mpr ⟨_, literal⟩) notAccepted
  obtain rfl := least.unique second
  obtain rfl := Option.some.inj place
  rw [Segment.ofDatum_alone, token] at alone
  obtain ⟨rfl, -⟩ := Rejection.mk.inj (DocumentError.rejected.inj (Except.error.inj alone))
  exact loaded

end Pattern

end LogLayout
