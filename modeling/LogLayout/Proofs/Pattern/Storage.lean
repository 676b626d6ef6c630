import LogLayout.Proofs.Json.Decoding
import LogLayout.Proofs.Json.RoundTrip
import LogLayout.Proofs.Pattern.Abridgement
import LogLayout.Pattern.Document
import LogLayout.Pattern.Render

/-!
# Storing patterns

Whatever a pattern is made of, its document is read as the pattern again, from data, from text and
from bytes. Two patterns have the same document exactly when their segments and their sources are
the same.
-/

namespace LogLayout

namespace Json

theorem plain_toDatum (j : Json) : j.toDatum.plain = j.toDatum := by
  cases j <;> rfl

end Json

namespace Token

/-- An option is written, or it has its default and is left out. -/
theorem abridges_changed {α : Type} [DecidableEq α] {k : Kind} {name : String} {value default : α}
    {write : α → Json} {d : Datum} (datum : (write value).toDatum = d)
    (isDefault : k.default? name = some (write default).toDatum) :
    Abridges k Json.toDatum (changed name value default write) [(name, d)] := by
  subst datum
  rw [changed]
  split
  · next same => exact .drop (Kind.default?_eq_some_iff.mp (same ▸ isDefault)) .nil
  · exact .keep .nil

/-- The options that differ from their defaults stand for all options. -/
theorem abridges_changedOptions (t : Token) :
    Abridges t.kind Json.toDatum t.changedOptions t.options := by
  cases t with
  | level o =>
      rw [options_level]
      refine .append (abridges_changed ?_ rfl) (abridges_changed rfl rfl)
      cases o.width <;> rfl
  | datetime format =>
      rw [changedOptions, options]
      exact abridges_changed rfl rfl
  | fields o =>
      exact .append (.append (abridges_changed rfl rfl) (abridges_changed rfl rfl))
        (abridges_changed rfl rfl)
  | span o =>
      exact .append (.append (.append (.append (.append (abridges_changed rfl rfl)
        (abridges_changed rfl rfl)) (abridges_changed rfl rfl)) (abridges_changed rfl rfl))
        (abridges_changed rfl rfl)) (abridges_changed rfl rfl)
  | text value => exact .keep .nil
  | target | message | file | line => exact .nil

/-- A token is read from the options that differ from their defaults. -/
theorem ofDatum_changedOptions (t : Token) :
    ofDatum t.kind (.dictionary (Json.toEntries t.changedOptions)) = .valid t := by
  rw [ofDatum, Json.toEntries_eq]
  exact ofEntries_of_abridges Json.plain_toDatum (abridges_changedOptions t)

end Token

theorem Datum.lookup?_toEntries {members : List (String × Json)} {name : String} :
    lookup? (Json.toEntries members) (.text name) =
      (members.find? fun m => name == m.1).map fun m => m.2.toDatum := by
  rw [Json.toEntries_eq, lookup?_map_text]

/-- A segment is read from its document, wherever it stands. -/
theorem Segment.ofDatum_toJson (index : Nat) (s : Segment) :
    ofDatum index s.toJson.toDatum = .ok s := by
  cases s with
  | literal text =>
      simp [toJson, Json.toDatum, ofDatum, Datum.lookup?_toEntries]
  | token t =>
      have given : (if (Datum.dictionary (Json.toEntries t.changedOptions)).isTruthy
          then .dictionary (Json.toEntries t.changedOptions) else .dictionary []) =
            Datum.dictionary (Json.toEntries t.changedOptions) := by
        cases t.changedOptions <;> simp [Json.toEntries, Datum.isTruthy]
      simp [toJson, Json.toDatum, ofDatum, Datum.lookup?_toEntries, Kind.ofName?_name, given,
        t.ofDatum_changedOptions]

theorem Segment.ofData_toJson (index : Nat) (segments : List Segment) :
    ofData index (segments.map fun s => s.toJson.toDatum) = .ok segments := by
  induction segments generalizing index with
  | nil => rfl
  | cons s segments ih =>
      simp only [List.map_cons, ofData, ofDatum_toJson, ih]
      rfl

/-! ### Documents as texts -/

namespace Token

variable {n : Nat}

theorem stable_changed {α : Type} [DecidableEq α] {name : String} {value default : α}
    {write : α → Json} (h : Json.Stable n (write value)) :
    ∀ m ∈ changed name value default write, Json.Stable n m.2 := by
  rw [changed]
  split
  · simp
  · simpa using h

/-- The options of a document are texts, truth values and small integers. -/
theorem stable_changedOptions (t : Token) : ∀ m ∈ t.changedOptions, Json.Stable n m.2 := by
  cases t with
  | level o =>
      simp only [changedOptions, List.forall_mem_append]
      refine ⟨stable_changed ?_, stable_changed (.text _)⟩
      match o.width with
      | none => exact .null
      | some ⟨w, small⟩ =>
          have bound : w < 1025 := small
          have least : -(Nat.pow 2 63 : Int) ≤ 0 := by decide
          have most : (1025 : Int) ≤ Nat.pow 2 64 := by decide
          have fits : Json.Fits64 (w : Int) := ⟨by omega, by omega⟩
          exact .int fits
  | datetime format =>
      rw [changedOptions]
      exact stable_changed (.text _)
  | fields o =>
      simp only [changedOptions, List.forall_mem_append]
      exact ⟨⟨stable_changed (.text _), stable_changed (.text _)⟩, stable_changed (.text _)⟩
  | span o =>
      simp only [changedOptions, List.forall_mem_append]
      exact ⟨⟨⟨⟨⟨stable_changed (.text _), stable_changed (.text _)⟩, stable_changed (.bool _)⟩,
        stable_changed (.text _)⟩, stable_changed (.text _)⟩, stable_changed (.text _)⟩
  | text value => simpa [changedOptions] using .text value
  | target | message | file | line => simp [changedOptions]

end Token

theorem Segment.stable_toJson (s : Segment) (n : Nat) : Json.Stable (n + 2) s.toJson := by
  cases s with
  | literal text =>
      refine .object (by simp) ?_
      simp [Json.Stable.text]
  | token t =>
      have distinct : (t.changedOptions.map Prod.fst).Nodup :=
        t.abridges_changedOptions.sublist.nodup (t.map_fst_options ▸ Token.nodup_optionNames t.kind)
      have options : Json.Stable (n + 1) (.object t.changedOptions) :=
        .object distinct t.stable_changedOptions
      refine .object (by simp) ?_
      simp [Json.Stable.text, options]

namespace Pattern

/-- A document is nested at most four deep. -/
theorem stable_toJson (p : Pattern) (n : Nat) : Json.Stable (n + 4) p.toJson := by
  have segments : Json.Stable (n + 3) (.list (p.segments.map Segment.toJson)) := by
    refine .list fun j hj => ?_
    obtain ⟨s, -, rfl⟩ := List.mem_map.mp hj
    exact s.stable_toJson n
  refine .object (by simp) ?_
  simp [Json.Stable.text, segments]

theorem ofDatum_toJson (p : Pattern) : ofDatum p.toJson.toDatum = .ok p := by
  have segments := Segment.ofData_toJson 0 p.segments
  simp [toJson, Json.toDatum, ofDatum, Datum.lookup?_toEntries, Json.toData_eq, Function.comp_def,
    segments, Datum.display, bind, Except.bind]

theorem load_dump (p : Pattern) : load p.dump = .ok p := by
  rw [load, dump, Json.read_write (p.stable_toJson 1020)]
  exact p.ofDatum_toJson

theorem loadBytes_utf8 (text : String) : loadBytes text.toUTF8.data.toList = load text := by
  have decoded : Datum.utf8? text.toUTF8.data.toList = some text :=
    dif_pos text.isValidUTF8
  rw [loadBytes, decoded]

theorem same_iff {p q : Pattern} : p.same q = true ↔ p.segments = q.segments := by
  simp [same]

/-- Texts of documents are equal when the patterns are the same and come from the same text. -/
theorem dump_eq_dump_iff {p q : Pattern} :
    p.dump = q.dump ↔ p.same q = true ∧ p.source = q.source := by
  rw [same_iff]
  constructor
  · intro h
    have read := q.load_dump
    rw [← h, p.load_dump] at read
    obtain rfl := Except.ok.inj read
    exact ⟨rfl, rfl⟩
  · rintro ⟨segments, source⟩
    rw [dump, dump, toJson, toJson, segments, source]

/-- A pattern can be stored as data, as text and as bytes: it is read as it was, so it renders every
event as before, and its text is that of no other pattern. -/
theorem stored_pattern_is_read_back (p : Pattern) :
    ofDatum p.toJson.toDatum = .ok p ∧ load p.dump = .ok p ∧
      loadBytes p.dump.toUTF8.data.toList = .ok p ∧
      (∀ q, load p.dump = .ok q → ∀ e, q.render e = p.render e) ∧
      ∀ q, p.dump = q.dump ↔ p.same q = true ∧ p.source = q.source := by
  refine ⟨p.ofDatum_toJson, p.load_dump, ?_, ?_, fun q => dump_eq_dump_iff⟩
  · rw [loadBytes_utf8, load_dump]
  · intro q h e
    rw [load_dump] at h
    rw [Except.ok.inj h]

end Pattern

end LogLayout
