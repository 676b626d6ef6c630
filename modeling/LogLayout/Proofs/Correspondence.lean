import Mathlib.Data.List.Forall2
import Mathlib.Data.List.Nodup

/-!
# Lists item by item

Lists whose items correspond to each other, and lists of entries with distinct names.
-/

namespace LogLayout

/-- An entry put in the place of one of its name, or else at the end, keeps the names distinct. -/
theorem nodup_names_put {α : Type} {entries : List (String × α)} {name : String} {value : α}
    (h : (entries.map Prod.fst).Nodup) :
    ((if entries.any fun entry => entry.1 == name then
        entries.map fun entry => if entry.1 == name then (name, value) else entry
      else entries ++ [(name, value)]).map Prod.fst).Nodup := by
  split
  · have names : (entries.map fun entry => if entry.1 == name then (name, value) else entry).map
        Prod.fst = entries.map Prod.fst := by
      rw [List.map_map]
      refine List.map_congr_left fun entry _ => ?_
      by_cases own : entry.1 = name <;> simp [own]
    rwa [names]
  · next other =>
      simp only [List.any_eq_true, beq_iff_eq, not_exists, not_and] at other
      have fresh : name ∉ entries.map Prod.fst := by
        simpa using fun l mem => other (name, l) mem rfl
      simpa [List.concat_eq_append] using h.concat fresh

/-- Of items with distinct names, the first that has a name is the only one. -/
theorem find?_name_eq_some_iff {α : Type} {name : α → String} {l : List α} {s : String}
    {a : α} (distinct : (l.map name).Nodup) :
    (l.find? fun a => s == name a) = some a ↔ a ∈ l ∧ name a = s := by
  induction l with
  | nil => simp
  | cons b l ih =>
      obtain ⟨fresh, distinct⟩ := List.nodup_cons.mp distinct
      have apart : ∀ c ∈ l, name c ≠ name b := by
        intro c hc heq
        exact fresh (heq ▸ List.mem_map_of_mem hc)
      rw [List.find?_cons, List.mem_cons]
      by_cases hb : s = name b
      · subst hb
        simp only [beq_self_eq_true, Option.some.injEq]
        constructor
        · rintro rfl
          exact ⟨.inl rfl, rfl⟩
        · rintro ⟨rfl | ha, same⟩
          · rfl
          · exact absurd same (apart a ha)
      · simp only [beq_false_of_ne hb, ih distinct]
        constructor
        · rintro ⟨ha, rfl⟩
          exact ⟨.inr ha, rfl⟩
        · rintro ⟨rfl | ha, rfl⟩
          · exact absurd rfl hb
          · exact ⟨ha, rfl⟩

/-- Lists of which the names are the same and distinct are equal if each item of the one is in the
other. -/
theorem eq_of_names_eq {α : Type} {name : α → String} {l m : List α}
    (same : l.map name = m.map name) (distinct : (m.map name).Nodup) (within : l ⊆ m) : l = m := by
  refine List.ext_getElem (by simpa using congrArg List.length same) fun i hl hm => ?_
  have named : name l[i] = name m[i] := by
    have at_i := List.getElem_of_eq same (i := i) (by simpa using hl)
    simpa using at_i
  exact List.inj_on_of_nodup_map distinct (within (List.getElem_mem hl)) (List.getElem_mem hm) named

variable {α β : Type} {R : α → β → Prop} {as : List α} {bs : List β}

/-- A list has a corresponding one when each of its items has a counterpart. -/
theorem exists_forall₂_iff : (∃ bs, List.Forall₂ R as bs) ↔ ∀ a ∈ as, ∃ b, R a b := by
  induction as with
  | nil => simp
  | cons a as ih =>
      rw [List.forall_mem_cons, ← ih]
      simp only [List.forall₂_cons_left_iff]
      constructor
      · rintro ⟨_, b, bs, hb, hbs, rfl⟩
        exact ⟨⟨b, hb⟩, bs, hbs⟩
      · rintro ⟨⟨b, hb⟩, bs, hbs⟩
        exact ⟨b :: bs, b, bs, hb, hbs, rfl⟩

/-- What is said item by item of a corresponding list can be said of the list itself. -/
theorem forall₂_iff_of_forall₂ {γ : Type} {S : β → γ → Prop} {T : α → γ → Prop} {cs : List γ}
    (h : List.Forall₂ R as bs) (same : ∀ a b c, R a b → (S b c ↔ T a c)) :
    List.Forall₂ S bs cs ↔ List.Forall₂ T as cs := by
  induction h generalizing cs with
  | nil => simp
  | cons related _ ih =>
      rw [List.forall₂_cons_left_iff, List.forall₂_cons_left_iff]
      simp only [same _ _ _ related, ih]

/-- An item can be replaced by one that corresponds to all that it corresponds to. -/
theorem forall₂_replace {a a' : α} {cs : List α} (related : ∀ b, R a b → R a' b)
    (h : List.Forall₂ R (as ++ a :: cs) bs) : List.Forall₂ R (as ++ a' :: cs) bs := by
  induction as generalizing bs with
  | nil =>
      obtain ⟨b, bs, first, rest, rfl⟩ := List.forall₂_cons_left_iff.mp h
      exact .cons (related b first) rest
  | cons c as ih =>
      obtain ⟨b, bs, first, rest, rfl⟩ := List.forall₂_cons_left_iff.mp h
      exact .cons first (ih rest)

/-- Each item of a list is the counterpart of an item of the list that it corresponds to. -/
theorem exists_mem_of_forall₂ {b : β} (h : List.Forall₂ R as bs) (mem : b ∈ bs) :
    ∃ a ∈ as, R a b := by
  induction h with
  | nil => cases mem
  | cons hab _ ih =>
      rcases List.mem_cons.mp mem with rfl | mem
      · exact ⟨_, List.mem_cons_self, hab⟩
      · obtain ⟨a, ha, related⟩ := ih mem
        exact ⟨a, List.mem_cons_of_mem _ ha, related⟩

/-- An item inside a list has its counterpart inside the other. -/
theorem exists_split_of_forall₂ {a : α} {cs : List α} (h : List.Forall₂ R (as ++ a :: cs) bs) :
    ∃ before b after, bs = before ++ b :: after ∧ R a b ∧ List.Forall₂ R cs after := by
  induction as generalizing bs with
  | nil =>
      obtain ⟨b, after, related, rest, rfl⟩ := List.forall₂_cons_left_iff.mp h
      exact ⟨[], b, after, rfl, related, rest⟩
  | cons c as ih =>
      obtain ⟨d, bs, -, rest, rfl⟩ := List.forall₂_cons_left_iff.mp h
      obtain ⟨before, b, after, rfl, related, behind⟩ := ih rest
      exact ⟨d :: before, b, after, rfl, related, behind⟩

end LogLayout
