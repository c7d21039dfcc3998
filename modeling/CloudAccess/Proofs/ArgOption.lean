import CloudAccess.ArgOption

/-!
# The order of options

Options are ordered by label and then by value.  The order is total and tells
any two options apart, so that the sorted options of a result depend only on
which options it has and how often (`ResultSet.sorted_eq_of_perm`).
-/

namespace CloudAccess

namespace ArgOption

variable {a b : ArgOption}

theorem le_iff :
    le a b = true ↔ a.label < b.label ∨ a.label = b.label ∧
    a.value ≤ b.value := by
  simp [le]

theorem le_trans (a b c : ArgOption) (hab : le a b = true)
    (hbc : le b c = true) : le a c = true := by
  rw [le_iff] at hab hbc ⊢
  rcases hab with hab | ⟨hab, hvab⟩ <;> rcases hbc with hbc | ⟨hbc, hvbc⟩
  · exact .inl (String.lt_trans hab hbc)
  · exact .inl (hbc ▸ hab)
  · exact .inl (hab ▸ hbc)
  · exact .inr ⟨hab.trans hbc, String.le_trans hvab hvbc⟩

theorem le_total (a b : ArgOption) : (le a b || le b a) = true := by
  rw [Bool.or_eq_true, le_iff, le_iff]
  by_cases hab : a.label < b.label
  · exact .inl (.inl hab)
  by_cases hba : b.label < a.label
  · exact .inr (.inl hba)
  have hlabel : a.label = b.label :=
    String.le_antisymm (String.not_lt.1 hba) (String.not_lt.1 hab)
  rcases String.le_total a.value b.value with hv | hv
  · exact .inl (.inr ⟨hlabel, hv⟩)
  · exact .inr (.inr ⟨hlabel.symm, hv⟩)

theorem le_antisymm (hab : le a b = true) (hba : le b a = true) : a = b := by
  rw [le_iff] at hab hba
  rcases hab with hab | ⟨hlabel, hab⟩
  · rcases hba with hba | ⟨hsame, _⟩
    · exact absurd hba (String.lt_asymm hab)
    · exact absurd hsame.symm (String.ne_of_lt hab)
  · rcases hba with hba | ⟨_, hba⟩
    · exact absurd hlabel.symm (String.ne_of_lt hba)
    · obtain ⟨label, value⟩ := a
      obtain rfl := hlabel
      obtain rfl := String.le_antisymm hab hba
      rfl

end ArgOption

namespace ResultSet

/-- The options of a set in their order follow one another. -/
theorem pairwise_sorted (s : ResultSet) :
    s.sorted.Pairwise (ArgOption.le · ·) := by
  unfold sorted
  exact List.pairwise_mergeSort ArgOption.le_trans ArgOption.le_total s.options

/-- Sets with the same options have the same list of options in their
order. -/
theorem sorted_eq_of_perm {s t : ResultSet} (h : s.options.Perm t.options) :
    s.sorted = t.sorted := by
  have hperm : s.sorted.Perm t.sorted :=
    s.sorted_perm.trans (h.trans t.sorted_perm.symm)
  exact hperm.eq_of_pairwise (fun _ _ _ _ => ArgOption.le_antisymm)
    s.pairwise_sorted t.pairwise_sorted

end ResultSet

end CloudAccess
