import LogLayout.Proofs.Pattern.Reports

/-!
# Which fault is reported

A text can have any number of faults, and one of them is reported. A scan that stops comes before
every fault of a meaning, wherever that is. If the text scans, the leftmost token without a meaning
is the one, and within it the fault that comes first.

`Pattern.compile_reports_first` relates the report on a text to the text before the token that it is
on: that text scans, or is even compiled.
-/

namespace LogLayout

open Grammar

/-- The text before a position. -/
def textBefore (text : String) (position : Nat) : String := String.ofList (text.toList.take position)

/-- Where a report on a text comes from: the token that it belongs to, and what is known of the text
before that token. -/
inductive ReportOrigin (σ : Char) (text : String) (e : ParseError) : Prop
  /-- The scan stopped at a token. The text before the token scans. -/
  | scan {r : Rejection} {place : Nat} {t : List Char} (report : r.report text = e)
      (stopped : scan (String.singleton σ) text = .error (.rejected r))
      (begins : TokenBegins σ 0 text.toList place t) (breaks : TokenBreak σ place t (.rejected r))
      (before : ∃ items, LogLayout.scan (String.singleton σ) (textBefore text place) = .ok items)
  /-- The whole text scans, and a token has no meaning. All tokens before it have one, so the text
  before it is compiled. -/
  | meaning {r : Rejection} {before after : List Item} {tok : WrittenToken} {t : List Char}
      (report : r.report text = e)
      (scanned : LogLayout.scan (String.singleton σ) text = .ok (before ++ .token tok :: after))
      (begins : TokenBegins σ 0 text.toList tok.position t)
      (first : tok.FirstFault r.fault r.position)
      (earlier : ∀ u, .token u ∈ before → ∃ k, u.Follows k)
      (compiled : ∃ p, Pattern.compile (String.singleton σ) (textBefore text tok.position) = .ok p)

theorem textBefore_append {pre rest : List Char} {text : String} (h : text.toList = pre ++ rest) :
    textBefore text pre.length = String.ofList pre := by
  rw [textBefore, h, List.take_left]

namespace Pattern

variable {σ : Char} {text : String} {e : ParseError}

theorem origin_of_stopped (admissible : isSigil σ = true) {r : Rejection}
    (stopped : scan (String.singleton σ) text = .error (.rejected r)) :
    ReportOrigin σ text (r.report text) := by
  have breaks := (scan_eq_error_iff admissible).mp stopped
  cases breaks with
  | @intro place t begins breaks =>
      refine .scan rfl stopped begins breaks ?_
      generalize ht : text.toList = whole at begins
      cases begins with
      | @intro before _ pieces derives single =>
          have derives : Derives readable σ (String.ofList before).toList pieces := by
            rwa [String.toList_ofList]
          obtain ⟨items, scanned, -⟩ := scan_eq_ok_iff.mpr derives
          rw [Nat.zero_add, textBefore_append ht]
          exact ⟨items, scanned⟩

theorem origin_of_unresolved (admissible : isSigil σ = true) {r : Rejection} {items : List Item}
    (scanned : scan (String.singleton σ) text = .ok items) (unresolved : ofItems items = .error r) :
    ReportOrigin σ text (r.report text) := by
  obtain ⟨before, i, after, rfl, fine, hi⟩ := Outcome.traverse_eq_error_iff.mp unresolved
  cases i with
  | literal s => cases hi
  | token tok =>
      have sigil : (String.singleton σ).toList = [σ] := by simp
      have read := scanned
      rw [scan, sigil] at read
      obtain ⟨pre, u, next, whole, derives, single, hread⟩ := cut_of_scanFrom read rfl
      have place : tok.position = 0 + pre.length := WrittenToken.position_of_read hread
      have begins : TokenBegins σ 0 text.toList tok.position u := by
        rw [whole, place]
        exact .intro derives single
      refine .meaning rfl scanned begins
        (WrittenToken.resolve_eq_error_iff.mp (Outcome.map_eq_error_iff.mp hi)) ?_ ?_
      · intro u mem
        exact Item.exists_resolve_eq_ok_iff.mp (fine _ mem) u rfl
      · obtain ⟨segments, meanings⟩ := exists_forall₂_iff.mpr fine
        have derives : Derives readable σ (String.ofList pre).toList (before.map Item.piece) := by
          rwa [String.toList_ofList]
        have means : List.Forall₂ Piece.Means (before.map Item.piece) segments := by
          rw [List.forall₂_map_left_iff]
          exact meanings.imp fun _ _ => Item.resolve_eq_ok_iff_means.mp
        have compiled := (compile_eq_ok_iff_means (p := ⟨segments, String.ofList pre⟩)
          admissible).mpr ⟨rfl, _, derives, means⟩
        rw [place, Nat.zero_add, textBefore_append whole]
        exact ⟨_, compiled⟩

/-- The fault that is reported on is determined. A scan that stops comes before every fault of a
meaning, wherever that is; then the leftmost token without a meaning is the one, and within it the
fault that comes first. -/
theorem compile_reports_first (admissible : isSigil σ = true) :
    (compile (String.singleton σ) text = .error (.rejected e) ↔ ReportOrigin σ text e) ∧
      ∀ r, Breaks σ 0 text.toList (.rejected r) →
        compile (String.singleton σ) text = .error (.rejected (r.report text)) := by
  have accepted := isSigilText_singleton admissible
  refine ⟨⟨?_, ?_⟩, ?_⟩
  · intro h
    obtain ⟨r, rfl, stopped | ⟨items, scanned, unresolved⟩⟩ :=
      (compile_eq_rejected_iff accepted).mp h
    · exact origin_of_stopped admissible stopped
    · exact origin_of_unresolved admissible scanned unresolved
  · intro origin
    refine (compile_eq_rejected_iff accepted).mpr ?_
    cases origin with
    | @scan r _ _ report stopped => exact ⟨r, report, .inl stopped⟩
    | @meaning r before after tok _ report scanned _ first earlier =>
        refine ⟨r, report, .inr ⟨_, scanned, Outcome.traverse_eq_error_iff.mpr ?_⟩⟩
        have resolved := WrittenToken.resolve_eq_error_iff.mpr first
        refine ⟨before, .token tok, after, rfl, ?_, Outcome.map_eq_error_iff.mpr resolved⟩
        intro i mem
        refine Item.exists_resolve_eq_ok_iff.mpr ?_
        rintro t rfl
        exact earlier t mem
  · intro r breaks
    exact (compile_eq_rejected_iff accepted).mpr
      ⟨r, rfl, .inl ((scan_eq_error_iff admissible).mpr breaks)⟩

/-- A list that has no end is reported on, although a token of an unknown kind stands before it. -/
theorem compile_reports_first_open_list :
    isSigil '$' = true ∧
      Breaks '$' 0 "$nope $level(".toList (.rejected ⟨.missingParenthesis, 6⟩) ∧
      compile (String.singleton '$') "$nope $level(" = .error (.rejected
        ⟨.unterminatedToken, "missing closing parenthesis", 6, "$nope $level("⟩) ∧
      ReportOrigin '$' "$nope $level("
        ⟨.unterminatedToken, "missing closing parenthesis", 6, "$nope $level("⟩ := by
  have admissible : isSigil '$' = true := by decide
  have nope : TokenText readable "nope ".toList "nope" [] " ".toList :=
    .bare (n := "nope".toList) (by decide) (stops_cons (by decide)) (by decide)
  have before : Derives readable '$' "$nope ".toList [.token "nope" [], .literal " "] :=
    .token (by decide) nope (.plain (by decide) .nil)
  have begins : TokenBegins '$' 0 "$nope $level(".toList 6 "level(".toList :=
    .intro before (by decide)
  have token : TokenBreak '$' 6 "level(".toList (.rejected ⟨.missingParenthesis, 6⟩) :=
    .unclosed (n := "level".toList) (by decide) (.parenthesis .nil)
  have breaks : Breaks '$' 0 "$nope $level(".toList (.rejected ⟨.missingParenthesis, 6⟩) :=
    ⟨begins, token⟩
  have reported := (compile_reports_first (e := ⟨.unterminatedToken, "missing closing parenthesis",
    6, "$nope $level("⟩) admissible).2 _ breaks
  exact ⟨admissible, breaks, reported, (compile_reports_first admissible).1.mp reported⟩

end Pattern

end LogLayout
