import LogLayout.Proofs.Pattern.Breakage
import LogLayout.Proofs.Pattern.Spelling
import Mathlib.Logic.Relation

/-!
# Layout and spelling of tokens

One token can be written in many ways: its name in any letter case, blanks wherever two parts of its
option list meet, either quote around a value that contains neither, zeros in front of an integer, a
flag that is set with a value or without, and an option that has its default or is not given at all.
A token without options may still have a list.

`Reworded` rewrites one token of a text in one of these ways. The relations below it are rules over
characters, as those of the grammar are, and each has one lemma that says which options the two
texts spell: the same ones (`OptionRespelled.exists_optionText`), or the same but for a default
(`PartsReworded.exists_options`). Rewriting one token does not change what the scan finds before it
and behind it, so `Pattern.compile_reworded` follows for any number of rewritings.
-/

namespace LogLayout

namespace Grammar

/-- A value, and the same or another spelling of it. -/
inductive ValueRespelled : List Char → List Char → Prop
  | same {v : List Char} {value : Literal} (text : ValueText readable v value) : ValueRespelled v v
  | requoted {p q : Char} {s : List Char} (quote : isQuote p = true) (quote' : isQuote q = true)
      (inside : p ∉ s) (inside' : q ∉ s) : ValueRespelled (p :: (s ++ [p])) (q :: (s ++ [q]))
  | zeros {s ds : List Char} {k : Nat} (sign : Sign s) (digits : Digits ds)
      (short : readable (k + ds.length)) :
      ValueRespelled (s ++ ds) (s ++ (List.replicate k '0' ++ ds))

/-- An option, and another spelling of it with other blanks. -/
inductive OptionRespelled : List Char → List Char → Prop
  | flag {n : List Char} (name : Name n) : OptionRespelled n n
  | assignment {n b b' c c' v v' : List Char} (name : Name n) (before : Blanks b)
      (after : Blanks b') (before' : Blanks c) (after' : Blanks c') (value : ValueRespelled v v') :
      OptionRespelled (n ++ (b ++ '=' :: (b' ++ v))) (n ++ (c ++ '=' :: (c' ++ v')))
  | valued {n b b' : List Char} (name : Name n) (before : Blanks b) (after : Blanks b') :
      OptionRespelled n (n ++ (b ++ '=' :: (b' ++ "true".toList)))
  | bared {n b b' : List Char} (name : Name n) (before : Blanks b) (after : Blanks b') :
      OptionRespelled (n ++ (b ++ '=' :: (b' ++ "true".toList))) n

/-- An option list consists of parts, with a comma between any two of them; without parts it is
blank. -/
inductive Consists : List Char → List (List Char) → Prop
  | empty {b : List Char} (blanks : Blanks b) : Consists b []
  | parts {part : List Char} {parts : List (List Char)} :
      Consists ([','].intercalate (part :: parts)) (part :: parts)

/-- The parts of the option list of a token with the given name, before and after one of them was
respelled, or an option that is not given was added with its default, or one that has its default
was dropped. -/
inductive PartsReworded (name : String) : List (List Char) → List (List Char) → Prop
  | same {parts : List (List Char)} {os : List (String × Literal)}
      (given : List.Forall₂ PartText parts os) : PartsReworded name parts parts
  | respelled {before after : List (List Char)} {os os' : List (String × Literal)}
      {b s b' c s' c' : List Char} (earlier : List.Forall₂ PartText before os)
      (later : List.Forall₂ PartText after os') (blanks : Blanks b ∧ Blanks b')
      (blanks' : Blanks c ∧ Blanks c') (option : OptionRespelled s s') :
      PartsReworded name (before ++ (b ++ (s ++ b')) :: after) (before ++ (c ++ (s' ++ c')) :: after)
  | added {k : Kind} {before after : List (List Char)} {os os' : List (String × Literal)}
      {part : List Char} {o : String × Literal} (named : k.Named name)
      (earlier : List.Forall₂ PartText before os) (later : List.Forall₂ PartText after os')
      (text : PartText part o) (isDefault : (o.1, o.2.toDatum) ∈ k.defaults)
      (absent : o.1 ∉ (os ++ os').map Prod.fst) :
      PartsReworded name (before ++ after) (before ++ part :: after)
  | dropped {k : Kind} {before after : List (List Char)} {os os' : List (String × Literal)}
      {part : List Char} {o : String × Literal} (named : k.Named name)
      (earlier : List.Forall₂ PartText before os) (later : List.Forall₂ PartText after os')
      (text : PartText part o) (isDefault : (o.1, o.2.toDatum) ∈ k.defaults) :
      PartsReworded name (before ++ part :: after) (before ++ after)

/-- The text behind a sigil, before and after the token with which it begins was reworded: its name
in another letter case, with an option list where it had none, or with another option list. -/
inductive TokenReworded : List Char → List Char → Prop
  | letterCase {n m t r : List Char} {os : List (String × Literal)}
      (token : TokenText readable (n ++ t) (String.ofList n) os r)
      (same : m.map Char.toLower = n.map Char.toLower) : TokenReworded (n ++ t) (m ++ t)
  | opened {n l r : List Char} {parts : List (List Char)} (name : Name n)
      (longest : Stops isNameChar r) (noList : r.head? ≠ some '(') (list : Consists l parts)
      (reworded : PartsReworded (String.ofList n) [] parts) :
      TokenReworded (n ++ r) (n ++ '(' :: (l ++ ')' :: r))
  | relisted {n l l' r : List Char} {parts parts' : List (List Char)} (name : Name n)
      (list : Consists l parts) (list' : Consists l' parts')
      (reworded : PartsReworded (String.ofList n) parts parts') :
      TokenReworded (n ++ '(' :: (l ++ ')' :: r)) (n ++ '(' :: (l' ++ ')' :: r))

/-- A text before and after one of its tokens was reworded: in front of the sigil lies a text of the
grammar. -/
inductive Reworded (σ : Char) : String → String → Prop
  | intro {before t t' : List Char} {pieces : List Piece} (derives : Derives readable σ before pieces)
      (token : TokenReworded t t') :
      Reworded σ (String.ofList (before ++ σ :: t)) (String.ofList (before ++ σ :: t'))

/-! ### Letter case -/

/-- Only ASCII letters have another case. -/
theorem toLower_of_not_ascii {c : Char} (h : 128 ≤ c.toNat) : c.toLower = c := by
  have noCapital : ¬ (c.val ≥ 'A'.val ∧ c.val ≤ 'Z'.val) := by
    rintro ⟨-, below⟩
    have below : c.toNat ≤ 90 := UInt32.le_iff_toNat_le.mp below
    omega
  exact dif_neg noCapital

theorem apply_toLower {p : Char → Bool}
    (ascii : ∀ n, n < 128 → p (Char.ofNat n).toLower = p (Char.ofNat n)) (c : Char) :
    p c.toLower = p c := by
  by_cases small : c.toNat < 128
  · simpa using ascii c.toNat small
  · rw [toLower_of_not_ascii (Nat.not_lt.mp small)]

theorem isNameStart_toLower (c : Char) : isNameStart c.toLower = isNameStart c :=
  apply_toLower (by decide) c

theorem isNameChar_toLower (c : Char) : isNameChar c.toLower = isNameChar c :=
  apply_toLower (by decide) c

/-- Letter case does not decide whether a row of characters is a name. -/
theorem name_map_toLower_iff {n : List Char} : Name (n.map Char.toLower) ↔ Name n := by
  have start : (n.map Char.toLower).head?.any isNameStart = n.head?.any isNameStart := by
    cases n <;> simp [isNameStart_toLower]
  have more : (n.map Char.toLower).all isNameChar = n.all isNameChar := by
    simp only [List.all_map, Function.comp_def, isNameChar_toLower]
  rw [name_iff, name_iff, start, more]

theorem Name.of_map_toLower {n n' : List Char} (name : Name n)
    (same : n'.map Char.toLower = n.map Char.toLower) : Name n' := by
  rw [← name_map_toLower_iff, same]
  exact name_map_toLower_iff.mpr name

/-! ### Values and options -/

theorem Digits.zeros_append {ds : List Char} (digits : Digits ds) (k : Nat) :
    Digits (List.replicate k '0' ++ ds) := by
  refine ⟨by simp [digits.ne_nil], fun d hd => ?_⟩
  rcases List.mem_append.mp hd with hd | hd
  · rw [List.eq_of_mem_replicate hd]
    decide
  · exact digits.isDigit d hd

/-- Two spellings of a value have the same value. -/
theorem ValueRespelled.exists_valueText {v v' : List Char} (h : ValueRespelled v v') :
    ∃ value, ValueText readable v value ∧ ValueText readable v' value := by
  cases h with
  | same text => exact ⟨_, text, text⟩
  | requoted quote quote' inside inside' =>
      exact ⟨_, Literal.valueText_ofQuoted quote inside, Literal.valueText_ofQuoted quote' inside'⟩
  | @zeros s ds k sign digits short =>
      have digits' := digits.zeros_append k
      have short' : readable (List.replicate k '0' ++ ds).length := by simpa using short
      have short : readable ds.length := Nat.le_trans (Nat.le_add_left _ _) short
      have same := Numeral.ofDigits_replicate_zero_append k ds
      rcases sign with rfl | rfl
      · exact ⟨_, .numeral digits short, same ▸ .numeral digits' short'⟩
      · exact ⟨_, .negative digits short, same ▸ .negative digits' short'⟩

/-- Two spellings of an option are of the same option. -/
theorem OptionRespelled.exists_optionText {s s' : List Char} (h : OptionRespelled s s') :
    ∃ o, OptionText readable s o ∧ OptionText readable s' o := by
  cases h with
  | flag name => exact ⟨_, .flag name, .flag name⟩
  | assignment name before after before' after' value =>
      obtain ⟨value, text, text'⟩ := value.exists_valueText
      exact ⟨_, .assignment name before after text, .assignment name before' after' text'⟩
  | valued name before after => exact ⟨_, .flag name, .assignment name before after .yes⟩
  | bared name before after => exact ⟨_, .assignment name before after .yes, .flag name⟩

/-- Parts that are options make up an option list. -/
theorem Consists.optionList {l : List Char} {parts : List (List Char)}
    {os : List (String × Literal)} (list : Consists l parts)
    (given : List.Forall₂ PartText parts os) : OptionList readable l os := by
  cases list with
  | empty blanks =>
      cases given
      exact .empty blanks
  | parts =>
      cases given with
      | cons first rest => exact .options (optionRow_intercalate first rest)

/-! ### Defaults -/

theorem Piece.means_token_iff {k : Kind} {name : String} {os : List (String × Literal)}
    {s : Segment} (named : k.Named name) :
    Piece.Means (.token name os) s ↔ ∃ tok, s = .token tok ∧ (os.map Prod.fst).Nodup ∧
      Token.ofEntries k (os.map fun o => (.text o.1, o.2.toDatum)) = .valid tok := by
  constructor
  · intro means
    cases means with
    | @token _ _ tok named' distinct valid =>
        have same := Kind.ofName?_eq_some_iff.mpr named'
        rw [Kind.ofName?_eq_some_iff.mpr named] at same
        obtain rfl := Option.some.inj same
        exact ⟨tok, rfl, distinct, valid⟩
  · rintro ⟨tok, rfl, distinct, valid⟩
    obtain rfl := (Token.ofEntries_eq_valid_iff.mp valid).1
    exact .token named distinct valid

/-- An option that is not given has its default, and so it has if it is given with its default. -/
theorem Piece.means_insert_default_iff {k : Kind} {name : String}
    {before after : List (String × Literal)} {o : String × Literal} {s : Segment}
    (named : k.Named name) (isDefault : (o.1, o.2.toDatum) ∈ k.defaults)
    (absent : o.1 ∉ (before ++ after).map Prod.fst) :
    Piece.Means (.token name (before ++ o :: after)) s ↔
      Piece.Means (.token name (before ++ after)) s := by
  have distinct : ((before ++ o :: after).map Prod.fst).Nodup ↔
      ((before ++ after).map Prod.fst).Nodup := by
    rw [List.map_append, List.map_cons, List.nodup_middle, List.nodup_cons, ← List.map_append]
    exact and_iff_right absent
  have known : o.1 ∈ k.optionNames := by
    obtain ⟨rule, mem, -⟩ := Kind.admits_of_mem_defaults isDefault
    rw [← Kind.map_fst_rules]
    exact List.mem_map_of_mem mem
  have valueOf (option : String) :
      k.valueOf? ((before ++ o :: after).map fun o => (.text o.1, o.2.toDatum)) option =
        k.valueOf? ((before ++ after).map fun o => (.text o.1, o.2.toDatum)) option := by
    rw [Kind.valueOf?, Kind.valueOf?, Datum.lookup?_map_text, Datum.lookup?_map_text,
      List.find?_append, List.find?_append, List.find?_cons]
    by_cases own : option = o.1
    · subst own
      have none (w : String × Literal) (mem : w ∈ before ++ after) : ¬ (o.1 == w.1) = true :=
        fun same => absent (beq_iff_eq.mp same ▸ List.mem_map_of_mem mem)
      have noneBefore := List.find?_eq_none.mpr fun w hw => none w (List.mem_append_left _ hw)
      have noneAfter := List.find?_eq_none.mpr fun w hw => none w (List.mem_append_right _ hw)
      simp [noneBefore, noneAfter, Kind.default?_eq_some_iff.mpr isDefault,
        Literal.plain_toDatum]
    · have other : (option == o.1) = false := beq_eq_false_iff_ne.mpr own
      simp only [other]
  rw [means_token_iff named, means_token_iff named]
  simp only [distinct, Token.ofEntries_eq_valid_iff, valueOf, Token.strangers_eq_nil_iff,
    List.forall_mem_map, List.forall_mem_append, List.forall_mem_cons, Datum.text.injEq,
    exists_eq_right', known, true_and]

/-! ### Tokens -/

/-- Before and after a rewording a list spells options of the same meaning. -/
theorem PartsReworded.exists_options {name : String} {parts parts' : List (List Char)}
    (h : PartsReworded name parts parts') :
    ∃ os os', List.Forall₂ PartText parts os ∧ List.Forall₂ PartText parts' os' ∧
      ∀ s, Piece.Means (.token name os) s → Piece.Means (.token name os') s := by
  cases h with
  | same given => exact ⟨_, _, given, given, fun _ means => means⟩
  | respelled earlier later blanks blanks' option =>
      obtain ⟨o, text, text'⟩ := option.exists_optionText
      exact ⟨_, _, List.rel_append earlier (.cons (.intro blanks.1 text blanks.2) later),
        List.rel_append earlier (.cons (.intro blanks'.1 text' blanks'.2) later),
        fun _ means => means⟩
  | added named earlier later text isDefault absent =>
      exact ⟨_, _, List.rel_append earlier later, List.rel_append earlier (.cons text later),
        fun _ means => (Piece.means_insert_default_iff named isDefault absent).mpr means⟩
  | @dropped k _ _ os os' _ o named earlier later text isDefault =>
      refine ⟨_, _, List.rel_append earlier (.cons text later), List.rel_append earlier later, ?_⟩
      intro s means
      -- Options of a token that has a meaning are distinct, so no other part gives this one.
      have absent : o.1 ∉ (os ++ os').map Prod.fst := by
        obtain ⟨-, -, distinct, -⟩ := (Piece.means_token_iff named).mp means
        rw [List.map_append, List.map_cons, List.nodup_middle, List.nodup_cons,
          ← List.map_append] at distinct
        exact distinct.1
      exact (Piece.means_insert_default_iff named isDefault absent).mp means

/-- Letter case does not count in the name of a token. -/
theorem Piece.Means.letterCase {n n' : List Char} {os : List (String × Literal)} {s : Segment}
    (means : Piece.Means (.token (String.ofList n) os) s)
    (same : n'.map Char.toLower = n.map Char.toLower) :
    Piece.Means (.token (String.ofList n') os) s := by
  cases means with
  | token named distinct valid =>
      refine .token ?_ distinct valid
      simpa [Kind.Named, same] using named

theorem TokenText.letterCase {n n' t r : List Char} {os : List (String × Literal)}
    (token : TokenText readable (n ++ t) (String.ofList n) os r)
    (same : n'.map Char.toLower = n.map Char.toLower) :
    TokenText readable (n' ++ t) (String.ofList n') os r := by
  generalize whole : n ++ t = u at token
  generalize ofName : String.ofList n = name at token
  cases token with
  | bare isName longest noList =>
      obtain rfl := String.ofList_injective ofName
      obtain rfl := List.append_cancel_left whole
      exact .bare (isName.of_map_toLower same) longest noList
  | listed isName list =>
      obtain rfl := String.ofList_injective ofName
      obtain rfl := List.append_cancel_left whole
      exact .listed (isName.of_map_toLower same) list

/-- Before and after a rewording there is a token, with the same text behind it and the same
meaning. -/
theorem TokenReworded.exists_tokenText {t t' : List Char} (h : TokenReworded t t') :
    ∃ name os name' os' r, TokenText readable t name os r ∧ TokenText readable t' name' os' r ∧
      ∀ s, Piece.Means (.token name os) s → Piece.Means (.token name' os') s := by
  cases h with
  | letterCase token same =>
      exact ⟨_, _, _, _, _, token, token.letterCase same, fun _ means => means.letterCase same⟩
  | opened name longest noList list reworded =>
      obtain ⟨os, os', none, given, meaning⟩ := reworded.exists_options
      cases none
      exact ⟨_, _, _, _, _, .bare name longest noList, .listed name (list.optionList given),
        meaning⟩
  | relisted name list list' reworded =>
      obtain ⟨os, os', given, given', meaning⟩ := reworded.exists_options
      exact ⟨_, _, _, _, _, .listed name (list.optionList given),
        .listed name (list'.optionList given'), meaning⟩

end Grammar

open Grammar

/-! ### Texts -/

namespace Pattern

variable {σ : Char} {text text' : String} {p : Pattern}

/-- A text with one token reworded is compiled to the same segments. -/
theorem compile_of_reworded (admissible : isSigil σ = true) {segments : List Segment}
    (h : Reworded σ text text')
    (compiled : compile (String.singleton σ) text = .ok ⟨segments, text⟩) :
    compile (String.singleton σ) text' = .ok ⟨segments, text'⟩ := by
  cases h with
  | @intro before t t' pieces derives token =>
      obtain ⟨name, os, name', os', r, token, token', meaning⟩ := token.exists_tokenText
      obtain ⟨-, all, whole, means⟩ := (compile_eq_ok_iff_means admissible).mp compiled
      rw [String.toList_ofList] at whole
      obtain ⟨rest, rfl, behind⟩ :=
        (derives_append_token_iff admissible derives (token.head?_ne admissible) token).mp whole
      have whole' : Derives readable σ (before ++ σ :: t') (pieces ++ .token name' os' :: rest) :=
        (derives_append_token_iff admissible derives (token'.head?_ne admissible) token').mpr
          ⟨rest, rfl, behind⟩
      refine (compile_eq_ok_iff_means admissible).mpr ⟨rfl, _, ?_, forall₂_replace meaning means⟩
      rwa [String.toList_ofList]

/-- However the tokens of a text are reworded, it is compiled to an equal pattern. -/
theorem compile_reworded (admissible : isSigil σ = true)
    (reworded : Relation.ReflTransGen (Reworded σ) text text')
    (compiled : compile (String.singleton σ) text = .ok p) :
    ∃ q, compile (String.singleton σ) text' = .ok q ∧ p.same q = true := by
  have segments : compile (String.singleton σ) text' = .ok ⟨p.segments, text'⟩ := by
    induction reworded with
    | refl =>
        obtain ⟨source, -⟩ := (compile_eq_ok_iff_means admissible).mp compiled
        rw [compiled, ← source]
    | tail _ step ih => exact compile_of_reworded admissible step ih
  exact ⟨_, segments, by simp [same]⟩

/-- Another letter case, the other quotes with blanks, and a quote that is the default. -/
theorem compile_reworded_fields :
    isSigil '$' = true ∧
      Relation.ReflTransGen (Reworded '$') (String.ofList "$fields(prefix='x')".toList)
        (String.ofList "$Fields( prefix=\"x\",quote='`')".toList) ∧
      ∃ p q,
        compile (String.singleton '$') (String.ofList "$fields(prefix='x')".toList) = .ok p ∧
        compile (String.singleton '$') (String.ofList "$Fields( prefix=\"x\",quote='`')".toList) =
          .ok q ∧ p.same q = true := by
  have admissible : isSigil '$' = true := by decide
  have blank : Blanks [' '] := by simp [Blanks, Text.isBlank]
  have single : OptionText readable "prefix='x'".toList ("prefix", .char 'x') :=
    .assignment (n := "prefix".toList) (by decide) .nil .nil
      (.char (q := '\'') (by decide) (by decide))
  have double : OptionText readable "prefix=\"x\"".toList ("prefix", .char 'x') :=
    .assignment (n := "prefix".toList) (by decide) .nil .nil
      (.char (q := '"') (by decide) (by decide))
  have quote : OptionText readable "quote='`'".toList ("quote", .char '`') :=
    .assignment (n := "quote".toList) (by decide) .nil .nil
      (.char (q := '\'') (by decide) (by decide))
  have token : TokenText readable "fields(prefix='x')".toList "fields" _ [] :=
    .listed (n := "fields".toList) (by decide) (.options (.last .nil single .nil))
  have respelled : OptionRespelled "prefix='x'".toList "prefix=\"x\"".toList :=
    .assignment (n := "prefix".toList) (by decide) .nil .nil .nil .nil
      (.requoted (p := '\'') (q := '"') (s := ['x']) (by decide) (by decide) (by decide)
        (by decide))
  have first : TokenReworded "fields(prefix='x')".toList "Fields(prefix='x')".toList :=
    .letterCase (n := "fields".toList) (m := "Fields".toList) token (by decide)
  have second : TokenReworded "Fields(prefix='x')".toList "Fields( prefix=\"x\")".toList :=
    .relisted (n := "Fields".toList) (by decide) .parts .parts
      (.respelled .nil .nil ⟨.nil, .nil⟩ ⟨blank, .nil⟩ respelled)
  have third : TokenReworded "Fields( prefix=\"x\")".toList
      "Fields( prefix=\"x\",quote='`')".toList :=
    .relisted (n := "Fields".toList) (by decide) .parts .parts
      (.added (k := .fields) (by decide)
        (.cons (.intro blank double .nil) .nil) .nil (.intro .nil quote .nil)
        (.tail _ (.tail _ (.head _))) (by decide))
  have reworded : Relation.ReflTransGen (Reworded '$') (String.ofList "$fields(prefix='x')".toList)
      (String.ofList "$Fields( prefix=\"x\",quote='`')".toList) :=
    ((Relation.ReflTransGen.single (.intro .nil first)).tail (.intro .nil second)).tail
      (.intro .nil third)
  have means : Piece.Means (.token "fields" [("prefix", .char 'x')])
      (.token (.fields ⟨"x", "", some '`'⟩)) :=
    .token (by decide) (by decide) rfl
  have compiled : compile (String.singleton '$') (String.ofList "$fields(prefix='x')".toList) =
      .ok ⟨[.token (.fields ⟨"x", "", some '`'⟩)],
        String.ofList "$fields(prefix='x')".toList⟩ := by
    refine (compile_eq_ok_iff_means admissible).mpr ⟨rfl, _, ?_, .cons means .nil⟩
    rw [String.toList_ofList]
    exact .token (by decide) token .nil
  obtain ⟨q, compiled', same⟩ := compile_reworded admissible reworded compiled
  exact ⟨admissible, reworded, _, q, compiled, compiled', same⟩

end Pattern

end LogLayout
