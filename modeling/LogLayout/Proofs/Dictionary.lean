import LogLayout.Proofs.Correspondence

/-!
# Ordered dictionaries

A dictionary has one entry for each of its names, in the order in which the names were put in. To
update it with another one gives a name that it has a new value in its old place, and puts the new
names behind the old ones, in the order of the other dictionary. A dictionary is known by its names
in their order and by which values they have (`ext_of_names_eq`), and that is all that is said of an
update and of a removal here.
-/

namespace LogLayout

/-- Entries with distinct names. -/
structure Dictionary (α : Type) where
  entries : List (String × α)
  distinct : (entries.map Prod.fst).Nodup

namespace Dictionary

variable {α : Type} {d e f : Dictionary α} {name : String} {a b : α}

def names (d : Dictionary α) : List String := d.entries.map Prod.fst

/-- The value of a name. -/
def get? (d : Dictionary α) (name : String) : Option α :=
  (d.entries.find? fun x => name == x.1).map Prod.snd

theorem mem_names_of_mem (mem : (name, a) ∈ d.entries) : name ∈ d.names :=
  List.mem_map_of_mem mem

theorem exists_mem_of_mem_names (named : name ∈ d.names) : ∃ a, (name, a) ∈ d.entries := by
  obtain ⟨⟨_, a⟩, mem, rfl⟩ := List.mem_map.mp named
  exact ⟨a, mem⟩

theorem eq_of_mem (first : (name, a) ∈ d.entries) (second : (name, b) ∈ d.entries) : a = b := by
  have same := List.inj_on_of_nodup_map d.distinct first second rfl
  exact congrArg Prod.snd same

theorem get?_eq_some_iff : d.get? name = some a ↔ (name, a) ∈ d.entries := by
  simp only [get?, Option.map_eq_some_iff, find?_name_eq_some_iff d.distinct, Prod.exists]
  constructor
  · rintro ⟨_, _, ⟨mem, rfl⟩, rfl⟩
    exact mem
  · intro mem
    exact ⟨name, a, ⟨mem, rfl⟩, rfl⟩

theorem get?_eq_none_iff : d.get? name = none ↔ name ∉ d.names := by
  rw [Option.eq_none_iff_forall_ne_some]
  constructor
  · intro none mem
    obtain ⟨a, mem⟩ := exists_mem_of_mem_names mem
    exact none a (get?_eq_some_iff.mpr mem)
  · intro fresh a found
    exact fresh (mem_names_of_mem (get?_eq_some_iff.mp found))

theorem ext_of_names_eq (same : d.names = e.names) (within : d.entries ⊆ e.entries) : d = e := by
  have entries := eq_of_names_eq same e.distinct within
  cases d
  cases e
  congr

/-! ### Updates -/

/-- The names of an update: the old ones, and behind them those that are new. -/
theorem map_fst_update (d e : Dictionary α) :
    (d.entries.map (fun x => (x.1, (e.get? x.1).getD x.2)) ++
      e.entries.filter fun x => x.1 ∉ d.names).map Prod.fst =
      d.names ++ e.names.filter (· ∉ d.names) := by
  rw [List.map_append, List.map_map, names, names, List.filter_map]
  rfl

/-- The dictionary with the values of another one. -/
def update (d e : Dictionary α) : Dictionary α where
  entries := d.entries.map (fun x => (x.1, (e.get? x.1).getD x.2)) ++
    e.entries.filter fun x => x.1 ∉ d.names
  distinct := by
    rw [map_fst_update]
    refine List.nodup_append.mpr ⟨d.distinct, e.distinct.filter _, ?_⟩
    rintro name old _ new rfl
    exact absurd old (by simpa using (List.mem_filter.mp new).2)

theorem names_update (d e : Dictionary α) :
    (d.update e).names = d.names ++ e.names.filter (· ∉ d.names) := map_fst_update d e

theorem mem_names_update_iff : name ∈ (d.update e).names ↔ name ∈ d.names ∨ name ∈ e.names := by
  rw [names_update, List.mem_append, List.mem_filter]
  by_cases old : name ∈ d.names <;> simp [old]

/-- A name has its new value if it has one, and else the old one. -/
theorem mem_update_iff : (name, a) ∈ (d.update e).entries ↔
    (name, a) ∈ e.entries ∨ (name, a) ∈ d.entries ∧ name ∉ e.names := by
  simp only [update, List.mem_append, List.mem_map, List.mem_filter, decide_eq_true_eq]
  constructor
  · rintro (⟨⟨n, old⟩, mem, same⟩ | ⟨mem, -⟩)
    · obtain ⟨rfl, rfl⟩ := Prod.mk.inj same
      cases found : e.get? n with
      | some new => exact .inl (get?_eq_some_iff.mp found)
      | none => exact .inr ⟨mem, get?_eq_none_iff.mp found⟩
    · exact .inl mem
  · rintro (mem | ⟨mem, kept⟩)
    · by_cases old : name ∈ d.names
      · obtain ⟨b, hb⟩ := exists_mem_of_mem_names old
        exact .inl ⟨(name, b), hb, by simp [get?_eq_some_iff.mpr mem]⟩
      · exact .inr ⟨mem, old⟩
    · exact .inl ⟨(name, a), mem, by simp [get?_eq_none_iff.mpr kept]⟩

example : ((⟨[("a", 1), ("b", 2)], by decide⟩ : Dictionary Nat).update
    ⟨[("c", 3), ("a", 4)], by decide⟩).entries = [("a", 4), ("b", 2), ("c", 3)] := by decide

/-- Two updates one after the other are one with the second put onto the first. -/
theorem update_update (d e f : Dictionary α) : (d.update e).update f = d.update (e.update f) := by
  apply ext_of_names_eq
  · simp only [names_update, List.append_assoc, List.filter_append, List.filter_filter]
    congr 2
    refine List.filter_congr fun name _ => ?_
    by_cases old : name ∈ d.names <;> simp [old]
  · rintro ⟨name, a⟩ mem
    simp only [mem_update_iff, mem_names_update_iff] at mem ⊢
    tauto

/-! ### Removals -/

/-- The dictionary without certain names. -/
def without (d : Dictionary α) (gone : List String) : Dictionary α where
  entries := d.entries.filter fun x => x.1 ∉ gone
  distinct := d.distinct.sublist (List.filter_sublist.map _)

theorem names_without (d : Dictionary α) (gone : List String) :
    (d.without gone).names = d.names.filter (· ∉ gone) := by
  rw [names, names, List.filter_map]
  rfl

theorem mem_without_iff {gone : List String} :
    (name, a) ∈ (d.without gone).entries ↔ (name, a) ∈ d.entries ∧ name ∉ gone := by
  simp [without]

/-- A name that is removed and then put in anew comes last. -/
theorem names_update_without (new : e.names = [name]) :
    ((d.without [name]).update e).names = d.names.filter (· ≠ name) ++ [name] := by
  simp [names_update, names_without, new]

end Dictionary

end LogLayout
