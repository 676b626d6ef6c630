import LogLayout.Proofs.Rendering
import LogLayout.Proofs.Span.Text
import LogLayout.Span.Scope

/-!
# Pairs and the fields made of them

Pairs of a name and a value come in several shapes: as a list, as a tuple, as a stream that can be
read once, and, if their names are distinct texts, as a dictionary (`FieldSource.Gives`). Whatever
the shape, each pair gives one field and the order is kept, in an event and in a span, up to the
text that a token writes between its brackets. A row can hold fields that are ready as well, and
every source is read as such a row (`Field.ofSource_eq_ofRow`).

`FieldSource.order_is_kept` says all of this, and that fields which were made once stay what they
are when they are handed over again.
-/

namespace LogLayout

/-! ### Shapes -/

/-- A name and a value, as they are handed over. -/
abbrev Pair := Datum × Datum

/-- An element whose first two items are those of a pair. -/
def Pair.At (p : Pair) (element : Datum) : Prop :=
  Field.item element 0 = .ok p.1 ∧ Field.item element 1 = .ok p.2

/-- The shapes in which pairs are given. -/
inductive FieldSource.Gives : List Pair → FieldSource → Prop
  | nothing : Gives [] (.datum .null)
  | list {pairs : List Pair} {items : List Datum} (each : List.Forall₂ Pair.At pairs items) :
      Gives pairs (.datum (.list items))
  | tuple {pairs : List Pair} {items : List Datum} (each : List.Forall₂ Pair.At pairs items) :
      Gives pairs (.datum (.tuple items))
  | stream {pairs : List Pair} {items : List Datum} (each : List.Forall₂ Pair.At pairs items) :
      Gives pairs (.stream items)
  | dictionary {named : List (String × Datum)} (distinct : (named.map Prod.fst).Nodup) :
      Gives (named.map fun x => (.text x.1, x.2))
        (.datum (Datum.ofEntries (named.map fun x => (.text x.1, x.2))))

/-- There is a text for the name of each pair and a captured value for the other half. -/
def Pair.Capturable (p : Pair) : Prop :=
  (∃ name, p.1.display = .ok name) ∧ ∃ v, Value.capture p.2 = .ok v

/-- The fields of pairs: one for each of them, in their order. -/
def Field.ShowPairs (pairs : List Pair) (fields : List Field) : Prop :=
  List.Forall₂ (fun p f => Field.Captures p.1 p.2 f) pairs fields

namespace Datum

variable {named : List (String × Datum)}

/-- Under a text that is no key yet an entry comes to the end. -/
theorem insertEntry_of_not_mem {name : String} (value : Datum)
    (fresh : name ∉ named.map Prod.fst) :
    insertEntry (named.map fun x => (.text x.1, x.2)) (.text name) value =
      named.map (fun x => (.text x.1, x.2)) ++ [(.text name, value)] := by
  rw [insertEntry, if_neg]
  simp only [List.any_eq_true, List.mem_map, not_exists, not_and]
  rintro _ ⟨x, mem, rfl⟩ same
  rw [equals, beq_iff_eq] at same
  exact fresh (same ▸ List.mem_map_of_mem mem)

theorem foldl_insertEntry (before named : List (String × Datum))
    (h : ((before ++ named).map Prod.fst).Nodup) :
    (named.map fun x => (Datum.text x.1, x.2)).foldl
        (fun acc entry => insertEntry acc entry.1 entry.2)
        (before.map fun x => (.text x.1, x.2)) =
      (before ++ named).map fun x => (.text x.1, x.2) := by
  induction named generalizing before with
  | nil => simp
  | cons x named ih =>
      have fresh : x.1 ∉ before.map Prod.fst := by
        rw [List.map_append, List.nodup_append] at h
        intro mem
        exact h.2.2 _ mem _ (by simp) rfl
      have next : ((before ++ [x] ++ named).map Prod.fst).Nodup := by simpa using h
      rw [List.map_cons, List.foldl_cons, insertEntry_of_not_mem x.2 fresh]
      simpa using ih (before ++ [x]) next

/-- A dictionary has the entries that it was made of when their keys are distinct texts. -/
theorem ofEntries_of_nodup (distinct : (named.map Prod.fst).Nodup) :
    ofEntries (named.map fun x => (.text x.1, x.2)) =
      .dictionary (named.map fun x => (.text x.1, x.2)) := by
  have all := foldl_insertEntry [] named (by simpa using distinct)
  rw [ofEntries]
  exact congrArg Datum.dictionary all

end Datum

namespace Field

variable {pairs : List Pair} {fields : List Field} {source : FieldSource}

theorem ofPair_eq_ofData {p : Pair} {element : Datum} (h : p.At element) :
    ofPair element = ofData p.1 p.2 := by
  rw [ofPair, h.1, h.2]
  rfl

/-- All shapes of pairs are read pair by pair. -/
theorem ofSource_of_gives (h : source.Gives pairs) :
    ofSource source = pairs.mapM fun p => ofData p.1 p.2 := by
  have each {items : List Datum} (h : List.Forall₂ Pair.At pairs items) :
      items.mapM ofPair = pairs.mapM fun p => ofData p.1 p.2 :=
    (Outcome.mapM_congr (h.imp fun _ _ items => (ofPair_eq_ofData items).symm)).symm
  cases h with
  | nothing => rfl
  | list h => exact (ofSource_collection rfl).trans (each h)
  | tuple h => exact (ofSource_collection rfl).trans (each h)
  | stream h => exact each h
  | dictionary distinct => rw [Datum.ofEntries_of_nodup distinct, ofSource_dictionary]

theorem ofSource_eq_ok_iff_showPairs (h : source.Gives pairs) :
    ofSource source = .ok fields ↔ ShowPairs pairs fields := by
  rw [ofSource_of_gives h, Outcome.mapM_eq_ok_iff]
  simp only [ofData_eq_ok_iff]
  rfl

theorem exists_ofSource_eq_ok_iff (h : source.Gives pairs) :
    (∃ fields, ofSource source = .ok fields) ↔ ∀ p ∈ pairs, p.Capturable := by
  rw [ofSource_of_gives h, Outcome.exists_mapM_eq_ok_iff]
  refine forall₂_congr fun p _ => ?_
  simp only [ofData_eq_ok_iff]
  constructor
  · rintro ⟨f, captures⟩
    exact ⟨⟨_, captures.name_eq⟩, _, captures.value_eq⟩
  · rintro ⟨⟨name, hname⟩, v, hv⟩
    exact ⟨⟨name, v⟩, hname, hv⟩

/-! ### Rows that hold ready fields -/

/-- An element of a row: a field that is ready, or a datum to make one of. -/
inductive Element where
  | ready (f : Field)
  | pair (d : Datum)

def ofElement : Element → Except FieldFault Field
  | .ready f => .ok f
  | .pair d => ofPair d

/-- The fields of a row, in which ready fields and others may stand side by side. -/
def ofRow (row : List Element) : Except FieldFault (List Field) := row.mapM ofElement

/-- Ready fields stay what they are. -/
theorem ofRow_ready (fields : List Field) : ofRow (fields.map .ready) = .ok fields := by
  rw [ofRow, Outcome.mapM_eq_ok_iff, List.forall₂_map_left_iff]
  exact List.forall₂_same.mpr fun _ _ => rfl

theorem ofRow_pair (items : List Datum) : ofRow (items.map .pair) = items.mapM ofPair := by
  refine Outcome.mapM_congr ?_
  rw [List.forall₂_map_left_iff]
  exact List.forall₂_same.mpr fun _ _ => rfl

theorem ofRow_map_pair (found : Except FieldFault (List Datum)) :
    (do (← found).mapM ofPair) = (do ofRow (← found.map fun items => items.map .pair)) := by
  cases found with
  | error fault => rfl
  | ok items => exact (ofRow_pair items).symm

end Field

/-- The row of elements that a source is read as. -/
def FieldSource.row : FieldSource → Except FieldFault (List Field.Element)
  | .ready fields => .ok (fields.map .ready)
  | .stream items => .ok (items.map .pair)
  | .datum (.dictionary entries) => .ok (entries.map fun e => .pair (.tuple [e.1, e.2]))
  | .datum d =>
    if d.isTruthy then (Field.elements d).map fun items => items.map .pair
    else .ok []

/-- Every source is read as its row. -/
theorem Field.ofSource_eq_ofRow (source : FieldSource) :
    ofSource source = (do ofRow (← source.row)) := by
  cases source with
  | ready fields => exact (ofRow_ready fields).symm
  | stream items => exact (ofRow_pair items).symm
  | datum d =>
      cases d with
      | dictionary entries =>
          have each : entries.mapM (fun e => ofData e.1 e.2) =
              ofRow (entries.map fun e => .pair (.tuple [e.1, e.2])) := by
            refine Outcome.mapM_congr ?_
            rw [List.forall₂_map_right_iff]
            exact List.forall₂_same.mpr fun e _ => (ofPair_eq_ofData ⟨rfl, rfl⟩).symm
          rw [ofSource_dictionary, each]
          rfl
      | _ =>
          simp only [ofSource, FieldSource.row, Bool.not_eq_true']
          split
          · next falsy => rw [falsy]; rfl
          · next truthy =>
              rw [Bool.not_eq_false] at truthy
              rw [if_pos truthy]
              exact ofRow_map_pair _

/-! ### From the pairs to the text -/

namespace Field

variable {pairs : List Pair} {fields : List Field} {quote s : String}

/-- The text of a pair: its name, an equals sign and its captured value. -/
def WritesPair (quote : String) (p : Pair) (s : String) : Prop :=
  ∃ name value written, p.1.display = .ok name ∧ Value.capture p.2 = .ok value ∧
    value.render quote = .ok written ∧ s = name ++ "=" ++ written

/-- The text of pairs: that of each one, in their order, between commas. -/
def WritesPairs (quote : String) (pairs : List Pair) (s : String) : Prop :=
  ∃ texts, List.Forall₂ (WritesPair quote) pairs texts ∧ s = ",".intercalate texts

theorem Captures.writes_iff {p : Pair} {f : Field} (h : f.Captures p.1 p.2) :
    (∃ v, f.value.render quote = .ok v ∧ s = f.name ++ "=" ++ v) ↔ WritesPair quote p s := by
  constructor
  · rintro ⟨v, written, rfl⟩
    exact ⟨f.name, f.value, v, h.name_eq, h.value_eq, written, rfl⟩
  · rintro ⟨name, value, v, hname, hvalue, written, rfl⟩
    obtain rfl := Except.ok.inj (hname.symm.trans h.name_eq)
    obtain rfl := Except.ok.inj (hvalue.symm.trans h.value_eq)
    exact ⟨v, written, rfl⟩

/-- What is written of fields are the pairs that they show. -/
theorem ShowPairs.renderAll_eq_ok_iff (h : ShowPairs pairs fields) :
    renderAll quote fields = .ok s ↔ WritesPairs quote pairs s := by
  rw [Field.renderAll_eq_ok_iff, Writes, WritesPairs]
  refine exists_congr fun texts => and_congr_left fun _ => ?_
  exact forall₂_iff_of_forall₂ h fun _ _ _ captures => captures.writes_iff

end Field

namespace FieldsOptions

variable {pairs : List Pair} {fields : List Field} {s : String}

/-- The text of a fields token: nothing if there are no pairs, or else all of them between the
brackets. -/
inductive Writes (o : FieldsOptions) (pairs : List Pair) : String → Prop
  | nothing (none : pairs = []) : Writes o pairs ""
  | between {inside : String} (some : pairs ≠ [])
      (text : Field.WritesPairs (Token.quoteText o.quote) pairs inside) :
      Writes o pairs (o.opening ++ inside ++ o.closing)

theorem render_eq_ok_iff {o : FieldsOptions} (h : Field.ShowPairs pairs fields) :
    o.render fields = .ok s ↔ o.Writes pairs s := by
  cases h with
  | nil =>
      constructor
      · intro written
        obtain rfl := Except.ok.inj written
        exact .nothing rfl
      · rintro (_ | ⟨some, -⟩)
        · rfl
        · exact absurd rfl some
  | @cons p f pairs fields first rest =>
      have all : Field.ShowPairs (p :: pairs) (f :: fields) := .cons first rest
      rw [render, if_neg (by simp), Outcome.return_eq_ok_iff]
      simp only [all.renderAll_eq_ok_iff]
      constructor
      · rintro ⟨inside, text, rfl⟩
        exact .between (by simp) text
      · rintro (none | ⟨-, text⟩)
        · cases none
        · exact ⟨_, text, rfl⟩

end FieldsOptions

/-! ### Events and spans -/

/-- The fields of an event show pairs, and so does the text of each fields token. -/
structure Event.ShowsPairs (pairs : List Pair) (e : Event) : Prop where
  fields : Field.ShowPairs pairs e.fields
  text : ∀ o s, (Token.fields o).render e = .ok s ↔ o.Writes pairs s

/-- A span is given by its name and a source of these pairs. -/
def SpanGives (span : String × List Pair) (given : String × FieldSource) : Prop :=
  given.1 = span.1 ∧ given.2.Gives span.2

/-- A frame has this name, and its arguments show these pairs, as does its text wherever arguments
are asked for. -/
structure Frame.ShowsPairs (span : String × List Pair) (f : Frame) : Prop where
  name : f.name = span.1
  args : Field.ShowPairs span.2 f.args
  text : ∀ o : SpanOptions, o.args = true → ∀ s, o.renderFrame f = .ok s ↔
    ∃ inside, Field.WritesPairs (Token.quoteText o.quote) span.2 inside ∧
      s = o.opening ++ span.1 ++ (o.argsOpening ++ inside ++ o.argsClosing) ++ o.closing

/-- The frame of captured arguments shows the pairs that they were made of. -/
theorem Frame.showsPairs {args : FieldSource} {pairs : List Pair} {captured : List Field}
    (gives : args.Gives pairs) (h : Field.ofSource args = .ok captured) (name : String)
    (parent : Option Handle) : Frame.ShowsPairs (name, pairs) ⟨name, captured, parent⟩ := by
  have shown := (Field.ofSource_eq_ok_iff_showPairs gives).mp h
  refine ⟨rfl, shown, fun o on s => ?_⟩
  rw [SpanOptions.renderFrame, if_pos on, Outcome.return_eq_ok_iff]
  simp only [Outcome.map_eq_ok_iff, shown.renderAll_eq_ok_iff]
  constructor
  · rintro ⟨_, ⟨inside, text, rfl⟩, rfl⟩
    exact ⟨inside, text, rfl⟩
  · rintro ⟨inside, text, rfl⟩
    exact ⟨_, ⟨inside, text, rfl⟩, rfl⟩

namespace SpanArena

variable {a a' : SpanArena} {name : String} {args : FieldSource} {parent : Option Handle}
  {handle : Handle} {pairs : List Pair}

theorem frames_pushFrame (a : SpanArena) (name : String) (args : List Field)
    (parent : Option Handle) :
    (a.pushFrame name args parent).1.frames = a.frames ++ [⟨name, args, parent⟩] := by
  simp [pushFrame, frames]

/-- A push adds one frame, and its arguments show the pairs. -/
theorem exists_frame_of_push (gives : args.Gives pairs)
    (h : a.push name args parent = .ok (a', handle)) :
    ∃ f : Frame, a'.frames = a.frames ++ [f] ∧ f.ShowsPairs (name, pairs) := by
  obtain ⟨-, captured, hcaptured, made⟩ := push_eq_ok_iff.mp h
  obtain ⟨rfl, -⟩ := Prod.mk.inj made
  exact ⟨_, a.frames_pushFrame name captured parent, Frame.showsPairs gives hcaptured name parent⟩

/-- Pushing spans adds one frame for each of them, in their order. -/
theorem exists_frames_of_pushAll {spans : List (String × List Pair)}
    {given : List (String × FieldSource)} (gives : List.Forall₂ SpanGives spans given)
    (h : a.pushAll parent given = .ok a') :
    ∃ added, a'.frames = a.frames ++ added ∧ List.Forall₂ Frame.ShowsPairs spans added := by
  induction gives generalizing a parent with
  | nil =>
      obtain rfl := Except.ok.inj h
      exact ⟨[], by simp, .nil⟩
  | @cons span g spans given first _ ih =>
      obtain ⟨name, pairs⟩ := span
      obtain ⟨_, source⟩ := g
      obtain ⟨rfl, gives⟩ := first
      obtain ⟨⟨next, handle⟩, pushed, h⟩ := Outcome.bind_eq_ok_iff.mp h
      obtain ⟨f, frames, shows⟩ := exists_frame_of_push gives pushed
      obtain ⟨added, frames', shown⟩ := ih h
      exact ⟨f :: added, by rw [frames', frames, List.append_assoc]; rfl, .cons shows shown⟩

end SpanArena

namespace SpanScope

theorem exists_frame_of_enter {name : String} {args : FieldSource} {pairs : List Pair}
    {scope scope' : SpanScope} {c c' : SpanContext} (gives : args.Gives pairs)
    (made : ofSource name args = .ok scope) (entered : scope.enter c = .ok (scope', c')) :
    ∃ f : Frame, c'.arena.frames = c.arena.frames ++ [f] ∧ f.ShowsPairs (name, pairs) := by
  obtain ⟨captured, hcaptured, rfl⟩ := Outcome.return_eq_ok_iff.mp made
  rw [enter] at entered
  split at entered
  · cases entered
  · obtain ⟨-, rfl⟩ := Prod.mk.inj (Except.ok.inj entered)
    exact ⟨_, c.arena.frames_pushFrame name captured c.innermost,
      Frame.showsPairs gives hcaptured name c.innermost⟩

end SpanScope

namespace Event

variable {d : Details} {arena : SpanArena} {span : Option Handle} {e : Event} {pairs : List Pair}

theorem showsPairs_of_within (gives : d.fields.Gives pairs) (h : within d arena span = .ok e) :
    e.ShowsPairs pairs ∧ e.spans = arena := by
  obtain ⟨level, -, fields, captured, -, rfl⟩ := within_eq_ok_iff.mp h
  have shown := (Field.ofSource_eq_ok_iff_showPairs gives).mp captured
  exact ⟨⟨shown, fun o s => FieldsOptions.render_eq_ok_iff shown⟩, rfl⟩

theorem showsPairs_of_create {spans : List (String × List Pair)}
    {given : List (String × FieldSource)} (gives : d.fields.Gives pairs)
    (givesArgs : List.Forall₂ SpanGives spans given) (h : create d given = .ok e) :
    e.ShowsPairs pairs ∧ List.Forall₂ Frame.ShowsPairs spans e.spans.frames := by
  obtain ⟨arena, nested, built⟩ := Outcome.bind_eq_ok_iff.mp h
  obtain ⟨shows, rfl⟩ := showsPairs_of_within gives built
  obtain ⟨added, frames, shown⟩ :=
    SpanArena.exists_frames_of_pushAll givesArgs (Outcome.mapError_eq_ok_iff.mp nested)
  have all : e.spans.frames = added := frames
  exact ⟨shows, all ▸ shown⟩

end Event

/-- Whatever the shape in which pairs are given, they are captured one by one and in their order, as
far as there are texts for their names and values. Fields that were made stay what they are. Events
and spans keep the pairs, and the text of a token lists them between its brackets. -/
theorem FieldSource.order_is_kept :
    (∀ pairs source, source.Gives pairs →
      (∀ fields, Field.ofSource source = .ok fields ↔ Field.ShowPairs pairs fields) ∧
      ((∃ fields, Field.ofSource source = .ok fields) ↔ ∀ p ∈ pairs, p.Capturable) ∧
      ∀ source', source'.Gives pairs → Field.ofSource source' = Field.ofSource source) ∧
    (∀ source, Field.ofSource source = (do Field.ofRow (← source.row))) ∧
    (∀ row, (do Field.ofRow ((← Field.ofRow row).map .ready)) = Field.ofRow row) ∧
    (∀ source, (do Field.ofSource (.ready (← Field.ofSource source))) = Field.ofSource source) ∧
    (∀ (d : Event.Details) arena span pairs e, d.fields.Gives pairs →
      Event.within d arena span = .ok e → e.ShowsPairs pairs) ∧
    (∀ (d : Event.Details) given pairs spans e, d.fields.Gives pairs →
      List.Forall₂ SpanGives spans given → Event.create d given = .ok e →
        e.ShowsPairs pairs ∧ List.Forall₂ Frame.ShowsPairs spans e.spans.frames) ∧
    (∀ (a : SpanArena) name args parent pairs a' handle, args.Gives pairs →
      a.push name args parent = .ok (a', handle) →
        ∃ f : Frame, a'.frames = a.frames ++ [f] ∧ f.ShowsPairs (name, pairs)) ∧
    ∀ name args pairs (scope : SpanScope) c scope' c', args.Gives pairs →
      SpanScope.ofSource name args = .ok scope → scope.enter c = .ok (scope', c') →
        ∃ f : Frame, c'.arena.frames = c.arena.frames ++ [f] ∧ f.ShowsPairs (name, pairs) := by
  refine ⟨?_, Field.ofSource_eq_ofRow, ?_, ?_, ?_, ?_, ?_, ?_⟩
  · intro pairs source gives
    refine ⟨fun fields => Field.ofSource_eq_ok_iff_showPairs gives,
      Field.exists_ofSource_eq_ok_iff gives, fun source' gives' => ?_⟩
    rw [Field.ofSource_of_gives gives, Field.ofSource_of_gives gives']
  · intro row
    cases Field.ofRow row with
    | error fault => rfl
    | ok fields => exact Field.ofRow_ready fields
  · intro source
    cases Field.ofSource source with
    | error fault => rfl
    | ok fields => rfl
  · intro d arena span pairs e gives h
    exact (Event.showsPairs_of_within gives h).1
  · intro d given pairs spans e gives givesArgs h
    exact Event.showsPairs_of_create gives givesArgs h
  · intro a name args parent pairs a' handle gives h
    exact SpanArena.exists_frame_of_push gives h
  · intro name args pairs scope c scope' c' gives made entered
    exact SpanScope.exists_frame_of_enter gives made entered

/-- One name twice, in a stream of pairs of different kinds: the event has the fields that the tuple
of these pairs gives as well, and so has a span that is entered. -/
theorem FieldSource.order_is_kept_repeated_name :
    ∃ items pairs args e, items = [.tuple [.text "b", .bool true],
        .list [.text "a", .list [.text "x"]], .tuple [.text "b", .null]] ∧
      pairs = [(.text "b", .bool true), (.text "a", .list [.text "x"]), (.text "b", .null)] ∧
      args = [(.text "ok", .bool true), (.text "late", .bool false)] ∧
      Field.ofSource (.datum (.tuple items)) = .ok e.fields ∧
      Event.create ⟨.level .info, "app", "", .stream items, ⟨2024, 1, 2, 3, 4, 5, 678, false⟩,
        none, none⟩ [("request", .datum (Datum.ofEntries args))] = .ok e ∧
      (Token.fields ⟨"(", ")", none⟩).render e = .ok "(b=true,a=[x],b=None)" ∧
      List.Forall₂ Frame.ShowsPairs [("request", args)] e.spans.frames ∧
      ∃ (scope scope' : SpanScope) (c : SpanContext) (f : Frame),
        SpanScope.ofSource "query" (.datum (.list items)) = .ok scope ∧
        scope.enter ⟨e.spans, e.span⟩ = .ok (scope', c) ∧
        c.arena.frames = e.spans.frames ++ [f] ∧ f.ShowsPairs ("query", pairs) := by
  let items : List Datum := [.tuple [.text "b", .bool true],
    .list [.text "a", .list [.text "x"]], .tuple [.text "b", .null]]
  let pairs : List Pair :=
    [(.text "b", .bool true), (.text "a", .list [.text "x"]), (.text "b", .null)]
  let args : List Pair := [(.text "ok", .bool true), (.text "late", .bool false)]
  let o : FieldsOptions := ⟨"(", ")", none⟩
  let fields : List Field := [⟨"b", .bool true⟩, ⟨"a", .seq [.text "x"]⟩, ⟨"b", .text "None"⟩]
  let request : Frame := ⟨"request", [⟨"ok", .bool true⟩, ⟨"late", .bool false⟩], none⟩
  let e : Event := ⟨.info, "app", "", fields, ⟨2024, 1, 2, 3, 4, 5, 678, false⟩, ⟨[request]⟩,
    some (.index 0), none, none⟩
  have each : List.Forall₂ Pair.At pairs items :=
    .cons ⟨rfl, rfl⟩ (.cons ⟨rfl, rfl⟩ (.cons ⟨rfl, rfl⟩ .nil))
  have given : FieldSource.Gives args (.datum (Datum.ofEntries args)) :=
    @FieldSource.Gives.dictionary [("ok", .bool true), ("late", .bool false)] (by decide)
  have around : List.Forall₂ SpanGives [("request", args)]
      [("request", .datum (Datum.ofEntries args))] := .cons ⟨rfl, given⟩ .nil
  have created : Event.create ⟨.level .info, "app", "", .stream items,
      ⟨2024, 1, 2, 3, 4, 5, 678, false⟩, none, none⟩
      [("request", .datum (Datum.ofEntries args))] = .ok e := rfl
  have texts : Field.WritesPairs (Token.quoteText o.quote) pairs "b=true,a=[x],b=None" :=
    ⟨["b=true", "a=[x]", "b=None"],
      .cons ⟨"b", .bool true, "true", rfl, rfl, rfl, rfl⟩
        (.cons ⟨"a", .seq [.text "x"], "[x]", rfl, rfl, rfl, rfl⟩
          (.cons ⟨"b", .text "None", "None", rfl, rfl, rfl, rfl⟩ .nil)), rfl⟩
  obtain ⟨shapes, -, -, -, -, creates, -, enters⟩ := order_is_kept
  obtain ⟨shows, frames⟩ := creates _ _ _ _ e (.stream each) around created
  have asTuple : Field.ofSource (.datum (.tuple items)) = .ok e.fields :=
    ((shapes pairs _ (.tuple each)).1 e.fields).mpr shows.fields
  have text : (Token.fields o).render e = .ok "(b=true,a=[x],b=None)" :=
    (shows.text o _).mpr (.between (by simp [pairs]) texts)
  obtain ⟨f, added, query⟩ := enters "query" (.datum (.list items)) pairs
    ⟨"query", fields, none, none⟩ ⟨e.spans, e.span⟩ _ _ (.list each) rfl rfl
  exact ⟨items, pairs, args, e, rfl, rfl, rfl, asTuple, created, text, frames, _, _, _, f, rfl, rfl,
    added, query⟩

end LogLayout
