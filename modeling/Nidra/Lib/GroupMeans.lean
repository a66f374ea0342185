import Nidra.Lib.Groups
import Nidra.Lib.Quantiles

/-
  This file defines the mean over the groups of a list of the
  means over each, and proves that it is what a weighted mean
  over the list comes to when every element counts by how
  rare its group is.

  Main declarations:
    * `groupMean`
    * `sum_div_count`
    * `weightedMean_eq_groupMean`
-/

section GroupMeans

variable {ρ κ 𝕜 : Type}
variable [DecidableEq κ]
variable [Field 𝕜]

/- The mean over the groups of the mean over each. -/
def groupMean
    (key : ρ → κ)
    (value : ρ → 𝕜)
    (rows : List ρ) : 𝕜 :=
  average
    ((groupsBy key rows).map
      (fun group => average (group.2.map value)))

theorem count_map_eq_length_filter
    (key : ρ → κ)
    (rows : List ρ)
    (k : κ) :
    (rows.map key).count k =
      (rows.filter (fun a => key a = k)).length := by
  rw [List.count_eq_countP, List.countP_map,
    List.countP_eq_length_filter]
  congr 1

/- A value over the size of its group adds up to the means. -/
theorem sum_div_count
    (key : ρ → κ)
    (value : ρ → 𝕜)
    (rows : List ρ) :
    (rows.map
        (fun a =>
          value a /
            (((rows.map key).count (key a) : ℕ) : 𝕜))).sum =
      ((groupsBy key rows).map
        (fun group => average (group.2.map value))).sum := by
  rw [← sum_groupsBy key]
  congr 1
  apply List.map_congr_left
  rintro ⟨k, group⟩ hMem
  rcases mem_groupsBy.mp hMem with ⟨_, rfl⟩
  dsimp only
  have hSame :
      (rows.filter (fun a => key a = k)).map
          (fun a =>
            value a /
              (((rows.map key).count (key a) : ℕ) : 𝕜)) =
        ((rows.filter (fun a => key a = k)).map value).map
          (fun x =>
            x *
              ((rows.filter
                (fun a => key a = k)).length : 𝕜)⁻¹) := by
    rw [List.map_map]
    apply List.map_congr_left
    intro a hA
    have hKey : key a = k := by
      simpa using (List.mem_filter.mp hA).2
    rw [hKey, count_map_eq_length_filter, div_eq_mul_inv]
    rfl
  rw [hSame, List.sum_map_mul_right, List.map_id']
  unfold average
  rw [List.length_map, div_eq_mul_inv]

variable [LinearOrder 𝕜] [IsStrictOrderedRing 𝕜]

/- Then every group adds up to one. -/
theorem sum_one_div_count
    (key : ρ → κ)
    (rows : List ρ) :
    (rows.map
        (fun a =>
          1 / (((rows.map key).count (key a) : ℕ) : 𝕜))).sum =
      ((groupsBy key rows).length : 𝕜) := by
  have hOnes :
      ((groupsBy key rows).map
          (fun group =>
            average (group.2.map (fun _ => (1 : 𝕜))))) =
        (groupsBy key rows).map (fun _ => 1) := by
    apply List.map_congr_left
    intro group hMem
    have hSome : group.2 ≠ [] := groupsBy_ne_nil hMem
    have hLength : (group.2.length : 𝕜) ≠ 0 :=
      Nat.cast_ne_zero.mpr
        (List.length_pos_iff.mpr hSome).ne'
    unfold average
    simp [hLength]
  rw [sum_div_count key (fun _ => (1 : 𝕜)), hOnes]
  simp

/-
  The weighted mean is the mean of the groups' means when each
  element counts by how rare its group is.
-/
theorem weightedMean_eq_groupMean
    (key : ρ → κ)
    (value : ρ → 𝕜)
    (rows : List ρ) :
    (rows.map
          (fun a =>
            value a /
              (((rows.map key).count (key a) : ℕ) : 𝕜))).sum /
        (rows.map
          (fun a =>
            1 /
              (((rows.map key).count (key a) : ℕ) : 𝕜))).sum =
      groupMean key value rows := by
  rw [sum_div_count, sum_one_div_count]
  unfold groupMean average
  rw [List.length_map]

theorem groupMean_one
    (key : ρ → κ)
    {rows : List ρ}
    (hRows : rows ≠ []) :
    groupMean key (fun _ => (1 : 𝕜)) rows = 1 := by
  have hGroups : groupsBy key rows ≠ [] := by
    rcases List.exists_mem_of_ne_nil rows hRows with ⟨a, hA⟩
    exact
      List.ne_nil_of_mem
        (mem_groupsBy.mpr ⟨⟨a, hA, rfl⟩, rfl⟩)
  have hLength : ((groupsBy key rows).length : 𝕜) ≠ 0 :=
    Nat.cast_ne_zero.mpr
      (List.length_pos_iff.mpr hGroups).ne'
  rw [← weightedMean_eq_groupMean, sum_one_div_count]
  exact div_self hLength

end GroupMeans
