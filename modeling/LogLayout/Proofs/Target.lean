import Mathlib.Data.List.Infix
import LogLayout.Target

/-!
# Nested targets

What a target covers is the target with a rest that is empty or starts at a boundary
(`Target.covers_iff`); the empty target covers everything. A boundary stands where one of them ends,
and what follows it further on does not matter, so targets are nested like boxes
(`Target.covers_trans`).

`Target.nesting_is_partial_order` says that they are ordered by this, with the empty target outside
of all others, and that over one target there is at most one of each length.
-/

namespace LogLayout.Target

variable {outer outer' middle inner : String}

theorem startsAtBoundary_iff {cs : List Char} :
    startsAtBoundary cs = true ↔ ['.'] <+: cs ∨ [':', ':'] <+: cs := by
  simp only [startsAtBoundary, Bool.or_eq_true, List.isPrefixOf_iff_prefix]

theorem startsAtBoundary_append {cs : List Char} (h : startsAtBoundary cs = true)
    (r : List Char) : startsAtBoundary (cs ++ r) = true := by
  rw [startsAtBoundary_iff] at h ⊢
  exact h.imp (fun dot => dot.trans (List.prefix_append _ _))
    fun colons => colons.trans (List.prefix_append _ _)

/-- What a target covers consists of the target and a rest, which is empty or starts at a boundary.
The empty target covers everything. -/
theorem covers_iff : covers outer inner = true ↔
    outer = "" ∨ ∃ rest, inner.toList = outer.toList ++ rest ∧
      (rest = [] ∨ startsAtBoundary rest = true) := by
  simp only [covers, coversChars, Bool.or_eq_true, Bool.and_eq_true, List.isEmpty_iff,
    String.toList_eq_nil_iff, beq_iff_eq, List.isPrefixOf_iff_prefix, or_assoc]
  refine or_congr_right ⟨?_, ?_⟩
  · rintro (same | ⟨⟨rest, split⟩, boundary⟩)
    · exact ⟨[], by simp [same], .inl rfl⟩
    · rw [← split, List.drop_left] at boundary
      exact ⟨rest, split.symm, .inr boundary⟩
  · rintro ⟨rest, split, rfl | boundary⟩
    · exact .inl (by simp [split])
    · exact .inr ⟨⟨rest, split.symm⟩, by rwa [split, List.drop_left]⟩

theorem covers_refl (target : String) : covers target target = true :=
  covers_iff.mpr (.inr ⟨[], by simp, .inl rfl⟩)

theorem covers_empty (target : String) : covers "" target = true :=
  covers_iff.mpr (.inl rfl)

/-- Targets are nested. -/
theorem covers_trans (h : covers outer middle = true) (h' : covers middle inner = true) :
    covers outer inner = true := by
  rw [covers_iff] at h h' ⊢
  rcases h with everything | ⟨rest, split, ends⟩
  · exact .inl everything
  rcases h' with rfl | ⟨rest', split', ends'⟩
  · obtain ⟨none, -⟩ := List.append_eq_nil_iff.mp (split.symm.trans String.toList_empty)
    exact .inl (String.toList_eq_nil_iff.mp none)
  · refine .inr ⟨rest ++ rest', by rw [split', split, List.append_assoc], ?_⟩
    rcases ends with rfl | boundary
    · exact ends'
    · exact .inr (startsAtBoundary_append boundary rest')

theorem isPrefix_of_covers (h : covers outer inner = true) : outer.toList <+: inner.toList := by
  rcases covers_iff.mp h with rfl | ⟨rest, split, -⟩
  · exact List.nil_prefix
  · exact ⟨rest, split.symm⟩

/-- Over one target there is at most one of each length. -/
theorem eq_of_covers (h : covers outer inner = true) (h' : covers outer' inner = true)
    (same : outer.length = outer'.length) : outer = outer' := by
  have beginning : outer.toList <+: outer'.toList :=
    List.prefix_of_prefix_length_le (isPrefix_of_covers h) (isPrefix_of_covers h')
      (Nat.le_of_eq same)
  exact String.toList_inj.mp (beginning.eq_of_length same)

/-- Two targets that cover one another are beginnings of one another, so they have one length. -/
theorem covers_antisymm (h : covers outer inner = true) (h' : covers inner outer = true) :
    outer = inner := by
  have le : outer.length ≤ inner.length := (isPrefix_of_covers h).length_le
  have ge : inner.length ≤ outer.length := (isPrefix_of_covers h').length_le
  exact eq_of_covers h (covers_refl inner) (Nat.le_antisymm le ge)

/-- Targets are partially ordered by what they cover, the empty one covers all of them, and over one
target there is at most one of each length. -/
theorem nesting_is_partial_order :
    (∀ target, covers target target = true) ∧
    (∀ outer middle inner, covers outer middle = true → covers middle inner = true →
      covers outer inner = true) ∧
    (∀ outer inner, covers outer inner = true → covers inner outer = true → outer = inner) ∧
    (∀ target, covers "" target = true) ∧
    ∀ outer outer' inner, covers outer inner = true → covers outer' inner = true →
      outer.length = outer'.length → outer = outer' := by
  refine ⟨covers_refl, ?_, ?_, covers_empty, ?_⟩
  · intro outer middle inner h h'
    exact covers_trans h h'
  · intro outer inner h h'
    exact covers_antisymm h h'
  · intro outer outer' inner h h' same
    exact eq_of_covers h h' same

/-- With both kinds of boundary: a pool lies under its database and so under the application, and
not the other way round. Of all targets with seven characters, only that of the database covers it.
-/
theorem nesting_is_partial_order_pool :
    covers "app" "app::db" = true ∧ covers "app::db" "app::db.pool" = true ∧
      covers "app" "app::db.pool" = true ∧ covers "app::db.pool" "app" = false ∧
      ∀ other, covers other "app::db.pool" = true → other.length = 7 → other = "app::db" := by
  obtain ⟨-, trans, antisymm, -, unique⟩ := nesting_is_partial_order
  have database : covers "app" "app::db" = true := by decide
  have pool : covers "app::db" "app::db.pool" = true := by decide
  have below : covers "app" "app::db.pool" = true := trans _ _ _ database pool
  refine ⟨database, pool, below, ?_, ?_⟩
  · rw [Bool.eq_false_iff]
    intro above
    exact absurd (antisymm _ _ below above) (by decide)
  · intro other covers seven
    exact unique _ _ _ covers pool seven

/-- In a run of colons boundaries overlap: two targets can lie over a third one and neither of them
over the other. -/
example : covers "a" "a:::b" = true ∧ covers "a:" "a:::b" = true ∧
    covers "a" "a:" = false ∧ covers "a:" "a" = false := by
  decide

end LogLayout.Target
