import Mathlib.Data.List.DropRight
import LogLayout.Pattern.Report
import LogLayout.Proofs.Pattern.Reports

/-!
# Reports point at a place

A report is displayed with the line of its text that holds its position and a caret below that
line. `LineAround` says what this line is, and there is only one (`LineAround.unique`). A line break
belongs to the line that it ends, so the caret may stand one place behind a line.

It does not for the reports of a compilation. Whatever they are on, their position is that of a
sigil or of a character that is no blank (`Pattern.marked_of_compile`): a fault is looked for at
sigils, at the beginnings of options, and behind blanks that were skipped. The main statement,
`ParseError.display_is_aligned`, puts both together.
-/

namespace LogLayout

/-! ### Lines -/

/-- A text has a line that holds a position: between two line breaks, or between a line break and an
end of the text. -/
structure LineAround (text : List Char) (position : Nat) (pre line post : List Char) : Prop where
  text_eq : text = pre ++ (line ++ post)
  unbroken : '\n' ∉ line
  begins : pre = [] ∨ pre.getLast? = some '\n'
  ends : post = [] ∨ post.head? = some '\n'
  start_le : pre.length ≤ position
  le_end : position ≤ pre.length + line.length

namespace LineAround

variable {text pre line post pre' line' post' : List Char} {position : Nat} {c : Char}

theorem stops (h : LineAround text position pre line post) : Stops (· ≠ '\n') post := by
  intro c first
  rcases h.ends with rfl | broken
  · cases first
  · obtain rfl := Option.some.inj (first.symm.trans broken)
    decide

theorem inside (h : LineAround text position pre line post) :
    ∀ c ∈ line, decide (c ≠ '\n') = true := by
  intro c mem
  rw [decide_eq_true_eq]
  rintro rfl
  exact h.unbroken mem

/-- No line that holds a position starts behind another one: the line break in front of it would
lie in the other line. -/
theorem start_le_start (h : LineAround text position pre line post)
    (h' : LineAround text position pre' line' post') : pre'.length ≤ pre.length := by
  by_contra later
  rw [Nat.not_le] at later
  obtain ⟨u, rfl⟩ : pre <+: pre' := List.prefix_of_prefix_length_le
    ⟨_, h.text_eq.symm⟩ ⟨_, h'.text_eq.symm⟩ (Nat.le_of_lt later)
  have between : line ++ post = u ++ (line' ++ post') := by
    refine (List.append_right_inj pre).mp ?_
    rw [← h.text_eq, h'.text_eq, List.append_assoc]
  have short : u.length ≤ line.length := by
    have start := h'.start_le
    have fin := h.le_end
    rw [List.length_append] at start
    omega
  have prior : u <+: line := List.prefix_of_prefix_length_le
    ⟨_, between.symm⟩ (List.prefix_append line post) short
  have nonempty : u ≠ [] := by
    rintro rfl
    simp at later
  have broken : u.getLast? = some '\n' := by
    rcases h'.begins with none | last
    · exact absurd (List.append_eq_nil_iff.mp none).2 nonempty
    · rwa [List.getLast?_append_of_ne_nil _ nonempty] at last
  exact h.unbroken (prior.subset (List.mem_of_getLast? broken))

/-- There is one line that holds a position. -/
theorem unique (h : LineAround text position pre line post)
    (h' : LineAround text position pre' line' post') :
    pre = pre' ∧ line = line' ∧ post = post' := by
  have start : pre.length = pre'.length :=
    Nat.le_antisymm (h'.start_le_start h) (h.start_le_start h')
  obtain ⟨rfl, rest⟩ := List.append_inj (h.text_eq.symm.trans h'.text_eq) start
  exact ⟨rfl, append_inj_of_stops h.inside h'.inside h.stops h'.stops rest⟩

/-- A position with a character other than a line break lies within its line. -/
theorem getElem?_line (h : LineAround text position pre line post)
    (found : text[position]? = some c) (other : c ≠ '\n') :
    position < pre.length + line.length ∧ (line)[position - pre.length]? = some c := by
  have start := h.start_le
  have fin := h.le_end
  rw [h.text_eq, List.getElem?_append_right start] at found
  have before : position - pre.length < line.length := by
    by_contra behind
    have atEnd : position - pre.length = line.length := by omega
    rw [List.getElem?_append_right (by omega), atEnd, Nat.sub_self, ← List.head?_eq_getElem?]
      at found
    rcases h.ends with rfl | broken
    · cases found
    · exact other (Option.some.inj (found.symm.trans broken))
  rw [List.getElem?_append_left before] at found
  exact ⟨by omega, found⟩

end LineAround

namespace ParseError

variable {e : ParseError}

/-- The line of a report is the one that holds its position. -/
theorem exists_lineAround (within : e.position ≤ e.pattern.length) :
    ∃ pre post, LineAround e.pattern.toList e.position pre e.line post ∧
      pre.length = e.lineStart := by
  rw [← String.length_toList] at within
  let before := e.pattern.toList.take e.position
  let behind := e.pattern.toList.drop e.position
  let pre := before.rdropWhile (· ≠ '\n')
  let own := before.rtakeWhile (· ≠ '\n')
  have split : pre ++ own = before := List.rdropWhile_append_rtakeWhile
  have size : before.length = e.position := List.length_take_of_le within
  have start : pre.length = e.lineStart := by
    have lengths := congrArg List.length split
    have same : own.length = (before.reverse.takeWhile (· ≠ '\n')).length := List.length_reverse
    rw [List.length_append] at lengths
    change _ = before.length - (before.reverse.takeWhile (· ≠ '\n')).length
    omega
  have line : e.line = own ++ behind.takeWhile (· ≠ '\n') := by
    change before.drop e.lineStart ++ _ = _
    rw [← start, ← split, List.drop_left]
  refine ⟨pre, behind.dropWhile (· ≠ '\n'), ?_, start⟩
  constructor
  case text_eq =>
    rw [line, List.append_assoc, List.takeWhile_append_dropWhile, ← List.append_assoc, split,
      List.take_append_drop]
  case unbroken =>
    rw [line, List.mem_append]
    rintro (mem | mem)
    · simpa using List.mem_rtakeWhile_imp mem
    · simpa using List.mem_takeWhile_imp mem
  case begins =>
    by_cases none : pre = []
    · exact .inl none
    · have broken := List.rdropWhile_last_not (· ≠ '\n') before none
      rw [decide_eq_true_eq, not_not] at broken
      exact .inr (by rw [List.getLast?_eq_some_getLast none, broken])
  case ends =>
    cases rest : behind.dropWhile (· ≠ '\n') with
    | nil => exact .inl rfl
    | cons c r =>
        have broken := List.head?_dropWhile_not (· ≠ '\n') behind
        rw [rest] at broken
        exact .inr (by simpa using broken)
  case start_le =>
    rw [start]
    exact e.lineStart_le
  case le_end =>
    have lengths := congrArg List.length split
    rw [List.length_append] at lengths
    rw [line, List.length_append]
    omega

/-- A report is displayed with the line that holds its position: the head, the line below it behind
two blanks, and below that the caret, behind two blanks and one for each character of the line in
front of the position. As one counts, the column is one more than these. -/
structure Displays (e : ParseError) (pre line post : List Char) : Prop where
  around : LineAround e.pattern.toList e.position pre line post
  column_eq : e.column - 1 = e.position - pre.length
  format_eq : e.format = e.head ++ "\n  " ++ String.ofList line ++ "\n  " ++
    String.ofList (List.replicate (e.column - 1) ' ') ++ "^"
  /-- There is always room for a run of this many blanks. -/
  formatted_eq : e.column - 1 ≤ Word.longestRun → e.formatted = .ok e.format

theorem exists_displays (nonempty : e.pattern ≠ "") (within : e.position ≤ e.pattern.length) :
    ∃ pre line post, e.Displays pre line post := by
  obtain ⟨pre, post, around, start⟩ := exists_lineAround within
  refine ⟨pre, e.line, post, around, ?_, ?_, formatted_of_indent_le⟩
  · rw [start]
    rfl
  · have shown : e.pattern.isEmpty = false := by simpa using nonempty
    rw [format, shown]
    rfl

end ParseError

/-! ### Places of reports -/

namespace Grammar

/-- At a place of a text there is something to be seen: a sigil, or another character that is no
blank. -/
inductive Marked (σ : Char) : List Char → Nat → Prop
  | intro {pre rest : List Char} {c : Char} (visible : c = σ ∨ Text.isBlank c = false) :
      Marked σ (pre ++ c :: rest) pre.length

variable {σ c : Char} {place position : Nat} {text t u v : List Char}

theorem Marked.exists_getElem? (h : Marked σ text position) (noBreak : σ ≠ '\n') :
    ∃ c, text[position]? = some c ∧ c ≠ '\n' := by
  cases h with
  | @intro pre rest c visible =>
      refine ⟨c, by simp, ?_⟩
      rintro rfl
      rcases visible with same | firm
      · exact noBreak same.symm
      · cases firm

theorem TokenBegins.marked (h : TokenBegins σ 0 text place t) : Marked σ text place := by
  cases h with
  | intro =>
      rw [Nat.zero_add]
      exact .intro (.inl rfl)

/-- What stands behind the sigil of a token stands behind it in the text. -/
theorem TokenBegins.marked_behind (h : TokenBegins σ 0 text place (u ++ c :: v))
    (firm : Text.isBlank c = false) : Marked σ text (place + 1 + u.length) := by
  generalize ht : u ++ c :: v = t at h
  cases h with
  | @intro before =>
      subst ht
      have marked : Marked σ ((before ++ σ :: u) ++ c :: v) (before ++ σ :: u).length :=
        .intro (.inr firm)
      have place : (before ++ σ :: u).length = 0 + before.length + 1 + u.length := by
        simp only [List.length_append, List.length_cons]
        omega
      rwa [place, List.append_assoc, List.cons_append] at marked

theorem OptionsBreak.firm {d r : List Char} {stop : ScanStop} (h : OptionsBreak place d r stop) :
    Stops Text.isBlank r := by
  cases h with
  | name _ firm | value _ firm | separator _ firm => exact firm

theorem OptionBegins.marked {name : String} {earlier : List (String × Literal)}
    {o : String × Literal} (h : OptionBegins σ text place name earlier o) :
    Marked σ text place := by
  cases h with
  | @intro place n d s b r _ _ begins _ _ option =>
      obtain ⟨c, s, rfl, firm⟩ := option.exists_cons
      have behind : n ++ '(' :: (d ++ (c :: s ++ (b ++ r))) =
          (n ++ '(' :: d) ++ c :: (s ++ (b ++ r)) := by simp
      have marked := (behind ▸ begins).marked_behind firm
      have same : place + 1 + (n ++ '(' :: d).length = place + n.length + 2 + d.length := by
        simp only [List.length_append, List.length_cons]
        omega
      rwa [same] at marked

/-- A text breaks off at something to be seen: at a sigil, at a quote that stands open, or in an
option list behind all blanks. -/
theorem Breaks.marked {r : Rejection} (h : Breaks σ 0 text (.rejected r)) :
    Marked σ text r.position := by
  obtain ⟨begins, breaks⟩ := h
  cases breaks with
  | name => exact begins.marked
  | @unclosed n l _ _ unclosed =>
      cases unclosed with
      | parenthesis => exact begins.marked
      | @quote l rest q _ quote =>
          have firm : Text.isBlank q = false := by
            rcases isQuote_iff.mp quote with rfl | rfl <;> decide
          have behind : n ++ '(' :: (l ++ q :: rest) = (n ++ '(' :: l) ++ q :: rest := by simp
          have marked := (behind ▸ begins).marked_behind firm
          simp only [List.length_append, List.length_cons] at marked
          convert marked using 1
          dsimp only
          omega
  | @options n d b rest _ _ _ breaks =>
      rw [breaks.position_eq]
      obtain ⟨c, v, tail, firm⟩ : ∃ c v, b ++ ')' :: rest = c :: v ∧ Text.isBlank c = false := by
        cases b with
        | nil => exact ⟨_, _, rfl, by decide⟩
        | cons c b => exact ⟨c, _, rfl, breaks.firm c rfl⟩
      have behind : n ++ '(' :: (d ++ b ++ ')' :: rest) = (n ++ '(' :: d) ++ c :: v := by
        simp [tail]
      have marked := (behind ▸ begins).marked_behind firm
      simp only [List.length_append, List.length_cons] at marked
      convert marked using 1
      omega

end Grammar

open Grammar

namespace WrittenToken

variable {σ : Char} {text : List Char} {items : List Item} {tok : WrittenToken}

/-- In a text that scans there is something to be seen where a token is and where its options
are. -/
theorem marked_of_scanFrom (h : scanFrom [σ] ⟨0, text⟩ = .ok items) (mem : .token tok ∈ items) :
    Marked σ text tok.position ∧ ∀ o ∈ tok.options, Marked σ text o.position := by
  obtain ⟨place, u, next, begins, hread⟩ := begins_of_scanFrom h mem
  constructor
  · rw [position_of_read hread]
    exact begins.marked
  · intro o given
    obtain ⟨earlier, later, given⟩ := List.append_of_mem given
    exact (optionBegins_of_read begins hread given).marked

/-- The fault of a token is where the token is, or where one of its options is. -/
theorem Faulty.position_cases {fault : Fault} {position : Nat} (h : tok.Faulty fault position) :
    position = tok.position ∨ ∃ o ∈ tok.options, position = o.position := by
  cases h with
  | unknownKind | missingValue => exact .inl rfl
  | duplicate _ given => exact .inr ⟨_, by rw [given]; simp, rfl⟩
  | unknownOption _ mem | refused _ mem => exact .inr ⟨_, mem, rfl⟩

end WrittenToken

namespace Pattern

variable {sigil text : String} {e : ParseError}

theorem exists_isSigil_of_isSigilText (h : isSigilText sigil = true) :
    ∃ σ, sigil = String.singleton σ ∧ isSigil σ = true := by
  rw [isSigilText] at h
  split at h
  · next σ single =>
      exact ⟨σ, by rw [← String.ofList_toList (s := sigil), single, String.singleton_eq_ofList], h⟩
  · cases h

/-- A text is reported on at something to be seen. -/
theorem marked_of_compile (h : compile sigil text = .error (.rejected e)) :
    e.pattern = text ∧ ∃ σ, sigil = String.singleton σ ∧ Marked σ text.toList e.position := by
  have accepted : isSigilText sigil = true := by
    by_contra refused
    rw [compile, if_neg refused] at h
    cases h
  obtain ⟨σ, rfl, admissible⟩ := exists_isSigil_of_isSigilText accepted
  obtain ⟨r, rfl, stopped | ⟨items, scanned, unresolved⟩⟩ := (compile_eq_rejected_iff accepted).mp h
  · exact ⟨rfl, σ, rfl, ((scan_eq_error_iff admissible).mp stopped).marked⟩
  · refine ⟨rfl, σ, rfl, ?_⟩
    obtain ⟨item, mem, failed⟩ := Outcome.exists_mem_of_traverse_eq_error unresolved
    cases item with
    | literal s => cases failed
    | token tok =>
        have faulty := WrittenToken.faulty_of_resolve (Outcome.map_eq_error_iff.mp failed)
        rw [scan, show (String.singleton σ).toList = [σ] by simp] at scanned
        obtain ⟨own, options⟩ := WrittenToken.marked_of_scanFrom scanned mem
        change Marked σ text.toList r.position
        rcases faulty.position_cases with atSigil | ⟨o, given, atOption⟩
        · rw [atSigil]
          exact own
        · rw [atOption]
          exact options o given

end Pattern

namespace ParseError

/-- The display of a report on a text is aligned: it shows the one line that holds the position, and
a caret below it. If the report comes from a compilation and the sigil is no line break, the caret
stands below a character of this line, the one that is at the position. -/
theorem display_is_aligned (e : ParseError) :
    (e.pattern ≠ "" → e.position ≤ e.pattern.length →
      ∃ pre line post, e.Displays pre line post ∧
        ∀ pre' line' post', LineAround e.pattern.toList e.position pre' line' post' →
          pre = pre' ∧ line = line' ∧ post = post') ∧
    ∀ sigil text, sigil ≠ "\n" → Pattern.compile sigil text = .error (.rejected e) →
      e.pattern = text ∧ ∃ pre line post, e.Displays pre line post ∧
        e.position < pre.length + line.length ∧
        ∃ c, (line)[e.column - 1]? = some c ∧ text.toList[e.position]? = some c := by
  constructor
  · intro nonempty within
    obtain ⟨pre, line, post, displays⟩ := exists_displays nonempty within
    exact ⟨pre, line, post, displays, fun _ _ _ around => displays.around.unique around⟩
  · intro sigil text noBreak rejected
    obtain ⟨rfl, σ, rfl, marked⟩ := Pattern.marked_of_compile rejected
    have other : σ ≠ '\n' := by
      rintro rfl
      exact noBreak rfl
    obtain ⟨c, found, visible⟩ := marked.exists_getElem? other
    have within : e.position < e.pattern.toList.length :=
      (List.getElem?_eq_some_iff.mp found).1
    have nonempty : e.pattern ≠ "" := by
      intro none
      simp [none] at within
    rw [String.length_toList] at within
    obtain ⟨pre, line, post, displays⟩ := exists_displays nonempty (Nat.le_of_lt within)
    obtain ⟨inLine, atCaret⟩ := displays.around.getElem?_line found visible
    rw [← displays.column_eq] at atCaret
    exact ⟨rfl, pre, line, post, displays, inLine, c, atCaret, found⟩

/-- An option list that is left open in the middle line of three. -/
theorem display_is_aligned_open_list :
    ∃ e : ParseError, e = ⟨.unterminatedToken, "missing closing parenthesis", 2, "a\n$b(\nc"⟩ ∧
      e.pattern ≠ "" ∧ e.position ≤ e.pattern.length ∧
      (∃ pre line post, e.Displays pre line post) ∧ "$" ≠ "\n" ∧
      Pattern.compile "$" "a\n$b(\nc" = .error (.rejected e) ∧
      ∃ pre line post, e.Displays pre line post ∧ e.position < pre.length + line.length := by
  have admissible : isSigil '$' = true := by decide
  have begins : TokenBegins '$' 0 (['a', '\n'] ++ '$' :: "b(\nc".toList) 2 "b(\nc".toList :=
    .intro (.plain (by decide) (.plain (by decide) .nil)) (by decide)
  have breaks : Breaks '$' 0 "a\n$b(\nc".toList (.rejected ⟨.missingParenthesis, 2⟩) :=
    ⟨begins, .unclosed (n := ['b']) (by decide) (.parenthesis (Inert.enclosed (by decide)))⟩
  have reported := (Pattern.compile_eq_rejected_iff
    (Pattern.isSigilText_singleton admissible)).mpr
      ⟨_, rfl, .inl ((scan_eq_error_iff admissible).mpr breaks)⟩
  obtain ⟨shows, aligned⟩ := display_is_aligned
    ⟨.unterminatedToken, "missing closing parenthesis", 2, "a\n$b(\nc"⟩
  obtain ⟨pre, line, post, displays, -⟩ := shows (by decide) (by decide)
  obtain ⟨-, pre', line', post', displays', inLine, -⟩ := aligned "$" _ (by decide) reported
  exact ⟨_, rfl, by decide, by decide, ⟨pre, line, post, displays⟩, by decide, reported,
    pre', line', post', displays', inLine⟩

end ParseError

end LogLayout
