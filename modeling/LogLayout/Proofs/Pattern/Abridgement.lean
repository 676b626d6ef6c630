import LogLayout.Proofs.Pattern.Vocabulary

/-!
# Options without defaults

Writers of tokens leave out options that have their defaults. `Abridges` says that members list the
options of a token in this way, and `ofEntries_of_abridges` that whoever reads the members gets the
token back, whichever defaults were left out.
-/

namespace LogLayout

/-- Members list the options of a kind in order; options at their default may be missing. The
function gives the datum that a member has as its value. -/
inductive Abridges {α : Type} (k : Kind) (value : α → Datum) :
    List (String × α) → List (String × Datum) → Prop
  | nil : Abridges k value [] []
  | keep {name : String} {a : α} {members : List (String × α)} {options : List (String × Datum)}
      (rest : Abridges k value members options) :
      Abridges k value ((name, a) :: members) ((name, value a) :: options)
  | drop {o : String × Datum} {members : List (String × α)} {options : List (String × Datum)}
      (isDefault : o ∈ k.defaults) (rest : Abridges k value members options) :
      Abridges k value members (o :: options)

namespace Abridges

variable {α : Type} {k : Kind} {value : α → Datum} {members members' : List (String × α)}
  {options options' : List (String × Datum)}

theorem append (h : Abridges k value members options) (h' : Abridges k value members' options') :
    Abridges k value (members ++ members') (options ++ options') := by
  induction h with
  | nil => exact h'
  | keep _ ih => exact .keep ih
  | drop isDefault _ ih => exact .drop isDefault ih

theorem sublist (h : Abridges k value members options) :
    (members.map Prod.fst).Sublist (options.map Prod.fst) := by
  induction h with
  | nil => exact List.Sublist.refl _
  | keep _ ih => exact ih.cons_cons _
  | drop _ _ ih => exact ih.cons _

/-- An option is listed, or it is a default and its name is not. -/
theorem mem_or_default (h : Abridges k value members options)
    (distinct : (options.map Prod.fst).Nodup) {o : String × Datum} (mem : o ∈ options) :
    (∃ m ∈ members, m.1 = o.1 ∧ value m.2 = o.2) ∨
      o ∈ k.defaults ∧ o.1 ∉ members.map Prod.fst := by
  induction h with
  | nil => cases mem
  | @keep name a members options rest ih =>
      obtain ⟨fresh, distinct⟩ := List.nodup_cons.mp distinct
      rcases List.mem_cons.mp mem with rfl | inside
      · exact .inl ⟨_, List.mem_cons_self, rfl, rfl⟩
      · rcases ih distinct inside with ⟨m, hm, same⟩ | ⟨isDefault, absent⟩
        · exact .inl ⟨m, List.mem_cons_of_mem _ hm, same⟩
        · refine .inr ⟨isDefault, ?_⟩
          have other : o.1 ≠ name := by
            rintro rfl
            have listed := List.mem_map_of_mem (f := Prod.fst) inside
            exact fresh listed
          simp only [List.map_cons, List.mem_cons, other, absent, or_self, not_false_eq_true]
  | @drop o' members options isDefault rest ih =>
      obtain ⟨fresh, distinct⟩ := List.nodup_cons.mp distinct
      rcases List.mem_cons.mp mem with rfl | mem
      · exact .inr ⟨isDefault, fun listed => fresh (rest.sublist.subset listed)⟩
      · exact ih distinct mem

end Abridges

namespace Token

/-- A token has all the options of its kind. -/
theorem map_fst_options (t : Token) : t.options.map Prod.fst = t.kind.optionNames := by
  cases t <;> rfl

theorem nodup_optionNames (k : Kind) : k.optionNames.Nodup := by
  cases k <;> decide

variable {α : Type} {value : α → Datum} {members : List (String × α)} {t : Token}

/-- Members that list the options of a token make the token. -/
theorem ofEntries_of_abridges (plain : ∀ a, (value a).plain = value a)
    (h : Abridges t.kind value members t.options) :
    ofEntries t.kind (members.map fun m => (.text m.1, value m.2)) = .valid t := by
  have distinct : (t.options.map Prod.fst).Nodup := t.map_fst_options ▸ nodup_optionNames t.kind
  have distinctMembers : (members.map Prod.fst).Nodup := h.sublist.nodup distinct
  refine ofEntries_eq_valid_iff.mpr ⟨rfl, strangers_eq_nil_iff.mpr ?_, ?_⟩
  · intro e he
    obtain ⟨m, hm, rfl⟩ := List.mem_map.mp he
    refine ⟨m.1, ?_, rfl⟩
    rw [← t.map_fst_options]
    exact h.sublist.subset (List.mem_map_of_mem hm)
  · intro o ho
    rw [Kind.valueOf?, Datum.lookup?_map_text]
    rcases h.mem_or_default distinct ho with ⟨m, hm, name, same⟩ | ⟨isDefault, absent⟩
    · rw [(find?_name_eq_some_iff distinctMembers).mpr ⟨hm, name⟩]
      simp [plain, ← same]
    · have none : members.find? (fun m => o.1 == m.1) = none := by
        rw [List.find?_eq_none]
        intro m hm same
        exact absent (beq_iff_eq.mp same ▸ List.mem_map_of_mem hm)
      rw [none]
      simpa using Kind.default?_eq_some_iff.mpr isDefault

end Token

end LogLayout
