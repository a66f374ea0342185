import Mathlib
import Nidra.Lib.Numerals

/-
  This file defines the classes into which a key sorts the
  members of a list, and the entropy of their sizes. Whether
  two such entropies are equal is an equation between natural
  numbers.

  Key definitions include:
    * `classSize`, `classProduct`
    * `classEntropy`

  Main declarations:
    * `classEntropy_eq_iff`
    * `classEntropy_eq_iff_finer`
    * `neg_sum_eq_classEntropy`
-/

variable {α β γ : Type}

------------------------------------------------------------
-- Sizes
------------------------------------------------------------

section Sizes

variable [DecidableEq β] [DecidableEq γ]

/- How many members have the key of a given one. -/
def classSize
    (key : α → β)
    (l : List α)
    (x : α) : ℕ :=
  l.countP (fun y => key y = key x)

/- The product of the sizes, one factor for each member. -/
def classProduct
    (key : α → β)
    (l : List α) : ℕ :=
  (l.map (classSize key l)).prod

theorem classSize_pos
    (key : α → β)
    {l : List α}
    {x : α}
    (hMem : x ∈ l) :
    0 < classSize key l x := by
  unfold classSize
  rw [List.countP_pos_iff]
  exact ⟨x, hMem, by simp⟩

theorem classProduct_pos
    (key : α → β)
    (l : List α) :
    0 < classProduct key l := by
  apply List.prod_pos
  intro size hSize
  rcases List.mem_map.mp hSize with ⟨x, hMem, rfl⟩
  exact classSize_pos key hMem

/- A finer key has smaller classes. -/
theorem classSize_le
    {key : α → β}
    {key' : α → γ}
    (hFiner : ∀ x y, key x = key y → key' x = key' y)
    (l : List α)
    (x : α) :
    classSize key l x ≤ classSize key' l x := by
  apply List.countP_mono_left
  intro y _ hKey
  rw [decide_eq_true_eq] at hKey ⊢
  exact hFiner y x hKey

/- Factors that are below others have another product. -/
theorem List.prod_map_eq_iff_of_le
    {f g : α → ℕ}
    {l : List α}
    (hPos : ∀ x ∈ l, 0 < f x)
    (hLe : ∀ x ∈ l, f x ≤ g x) :
    (l.map f).prod = (l.map g).prod ↔
      ∀ x ∈ l, f x = g x := by
  induction l with
  | nil => simp
  | cons a l ih =>
      rcases List.forall_mem_cons.mp hPos with ⟨hA, hPos⟩
      rcases List.forall_mem_cons.mp hLe with ⟨hLeA, hLe⟩
      have hRest :
          (l.map f).prod ≤ (l.map g).prod :=
        List.prod_map_le_prod_map₀ f g
          (fun x _ => Nat.zero_le _) hLe
      have hRestPos : 0 < (l.map f).prod := by
        apply List.prod_pos
        intro size hSize
        rcases List.mem_map.mp hSize with ⟨x, hMem, rfl⟩
        exact hPos x hMem
      rw [List.map_cons, List.map_cons, List.prod_cons,
        List.prod_cons, List.forall_mem_cons, ← ih hPos hLe]
      constructor
      · intro hEq
        have hFirst : f a = g a := by
          by_contra hNe
          have hLess :=
            Nat.mul_lt_mul_of_lt_of_le
              (lt_of_le_of_ne hLeA hNe) hRest
              (hRestPos.trans_le hRest)
          omega
        rw [hFirst] at hEq
        exact
          ⟨hFirst,
            Nat.eq_of_mul_eq_mul_left (hFirst ▸ hA) hEq⟩
      · rintro ⟨hFirst, hProd⟩
        rw [hFirst, hProd]

/- Classes that are not merged keep the product. -/
theorem classProduct_eq_iff
    {key : α → β}
    {key' : α → γ}
    (hFiner : ∀ x y, key x = key y → key' x = key' y)
    (l : List α) :
    classProduct key l = classProduct key' l ↔
      ∀ x ∈ l, ∀ y ∈ l, key' x = key' y → key x = key y := by
  unfold classProduct
  rw [List.prod_map_eq_iff_of_le
    (fun x hMem => classSize_pos key hMem)
    (fun x _ => classSize_le hFiner l x)]
  constructor
  · intro hSizes x hX y hY hKey
    by_contra hNe
    -- The other member is counted in the larger class only.
    have hLess :
        classSize key l y < classSize key' l y := by
      unfold classSize
      have hSplit :=
        List.countP_eq_countP_filter_add l
          (fun z => decide (key' z = key' y))
          (fun z => decide (key z = key y))
      have hBoth :
          (l.filter (fun z => decide (key z = key y))).countP
              (fun z => decide (key' z = key' y)) =
            l.countP (fun z => decide (key z = key y)) := by
        rw [List.countP_filter]
        apply List.countP_congr
        intro z _
        simp only [Bool.and_eq_true, decide_eq_true_eq]
        exact
          ⟨fun hTwo => hTwo.2,
            fun hOne => ⟨hFiner z y hOne, hOne⟩⟩
      have hOther :
          0 < (l.filter
            (fun z => !decide (key z = key y))).countP
              (fun z => decide (key' z = key' y)) := by
        rw [List.countP_pos_iff]
        refine ⟨x, List.mem_filter.mpr ⟨hX, ?_⟩, ?_⟩
        · simpa using hNe
        · simpa using hKey
      omega
    exact absurd (hSizes y hY) hLess.ne
  · intro hSeparate x hX
    apply List.countP_congr
    intro y hY
    simp only [decide_eq_true_eq]
    exact ⟨hFiner y x, hSeparate y hY x hX⟩

end Sizes

------------------------------------------------------------
-- Entropy
------------------------------------------------------------

section Entropy

variable [DecidableEq β] [DecidableEq γ]

/- Entropy of the sizes of the classes, in nats. -/
noncomputable def classEntropy
    (key : α → β)
    (l : List α) : ℝ :=
  Real.log l.length -
    Real.log (classProduct key l) / l.length

@[simp] theorem classEntropy_nil
    (key : α → β) :
    classEntropy key ([] : List α) = 0 := by
  simp [classEntropy]

/- Keys that sort the same have the same entropy. -/
theorem classEntropy_congr
    {key : α → β}
    {key' : α → γ}
    (hSame : ∀ x y, key x = key y ↔ key' x = key' y)
    (l : List α) :
    classEntropy key l = classEntropy key' l := by
  unfold classEntropy classProduct classSize
  simp only [hSame]

/- The classes of images are those of the members. -/
theorem classEntropy_map
    {δ : Type}
    (key : α → β)
    (f : δ → α)
    (l : List δ) :
    classEntropy key (l.map f) =
      classEntropy (fun x => key (f x)) l := by
  unfold classEntropy classProduct classSize
  simp only [List.length_map, List.map_map, List.countP_map,
    Function.comp_def]

/- Members of one class have no entropy. -/
theorem classEntropy_of_one
    {key : α → β}
    {l : List α}
    (hOne : ∀ x ∈ l, ∀ y ∈ l, key x = key y) :
    classEntropy key l = 0 := by
  cases l with
  | nil => exact classEntropy_nil key
  | cons a l =>
      have hSizes :
          (a :: l).map (classSize key (a :: l)) =
            List.replicate (a :: l).length
              (a :: l).length := by
        rw [List.eq_replicate_iff]
        refine ⟨by simp, ?_⟩
        intro size hSize
        rcases List.mem_map.mp hSize with ⟨x, hX, rfl⟩
        apply List.countP_eq_length.mpr
        intro y hY
        simpa using hOne y hY x hX
      have hLength : ((a :: l).length : ℝ) ≠ 0 := by
        simp only [List.length_cons, Nat.cast_add,
          Nat.cast_one]
        positivity
      unfold classEntropy classProduct
      rw [hSizes, List.prod_replicate, Nat.cast_pow,
        Real.log_pow, mul_div_cancel_left₀ _ hLength, sub_self]

/-
  Two entropies are equal when the products and the numbers
  of the members satisfy an equation.
-/
theorem classEntropy_eq_iff
    {key : α → β}
    {key' : α → γ}
    {l l' : List α}
    (hSome : l ≠ [])
    (hSome' : l' ≠ []) :
    classEntropy key l = classEntropy key' l' ↔
      l.length ^ (l.length * l'.length) *
          classProduct key' l' ^ l.length =
        l'.length ^ (l.length * l'.length) *
          classProduct key l ^ l'.length := by
  have hN : 0 < l.length := List.length_pos_of_ne_nil hSome
  have hN' : 0 < l'.length := List.length_pos_of_ne_nil hSome'
  have hP := classProduct_pos key l
  have hP' := classProduct_pos key' l'
  have hReal : (0 : ℝ) < l.length := by exact_mod_cast hN
  have hReal' : (0 : ℝ) < l'.length := by exact_mod_cast hN'
  have hLogs :
      classEntropy key l = classEntropy key' l' ↔
        Real.log
            ((l.length ^ (l.length * l'.length) *
              classProduct key' l' ^ l.length : ℕ) : ℝ) =
          Real.log
            ((l'.length ^ (l.length * l'.length) *
              classProduct key l ^ l'.length : ℕ) : ℝ) := by
    push_cast
    rw [Real.log_mul (by positivity) (by positivity),
      Real.log_mul (by positivity) (by positivity),
      Real.log_pow, Real.log_pow, Real.log_pow, Real.log_pow]
    unfold classEntropy
    push_cast
    rw [sub_eq_sub_iff_add_eq_add, ← mul_left_inj' hReal.ne',
      ← mul_left_inj' hReal'.ne']
    have hLeft :
        (Real.log l.length +
              Real.log (classProduct key' l') / l'.length) *
            l.length * l'.length =
          l.length * l'.length * Real.log l.length +
            l.length * Real.log (classProduct key' l') := by
      field_simp
    have hRight :
        (Real.log l'.length +
              Real.log (classProduct key l) / l.length) *
            l.length * l'.length =
          l.length * l'.length * Real.log l'.length +
            l'.length * Real.log (classProduct key l) := by
      field_simp
    rw [hLeft, hRight]
  rw [hLogs]
  constructor
  · intro hLog
    have hEq :=
      Real.log_injOn_pos
        (Set.mem_Ioi.mpr (by positivity))
        (Set.mem_Ioi.mpr (by positivity)) hLog
    exact_mod_cast hEq
  · intro hEq
    rw [hEq]

/- A coarser key has the same entropy if it merges nothing. -/
theorem classEntropy_eq_iff_finer
    {key : α → β}
    {key' : α → γ}
    (hFiner : ∀ x y, key x = key y → key' x = key' y)
    (l : List α) :
    classEntropy key l = classEntropy key' l ↔
      ∀ x ∈ l, ∀ y ∈ l, key' x = key' y → key x = key y := by
  rcases eq_or_ne l [] with rfl | hSome
  · simp
  · have hN : 0 < l.length := List.length_pos_of_ne_nil hSome
    rw [← classProduct_eq_iff hFiner,
      classEntropy_eq_iff hSome hSome]
    constructor
    · intro hEq
      have hPow :=
        Nat.eq_of_mul_eq_mul_left (by positivity) hEq
      exact (Nat.pow_left_injective hN.ne' hPow).symm
    · intro hEq
      rw [hEq]

/- A sum over the keys, each as often as it occurs. -/
theorem sum_countP_mul
    {key : α → β}
    {l : List α}
    {keys : List β}
    (hNodup : keys.Nodup)
    (hKeys : ∀ x ∈ l, key x ∈ keys)
    (f : β → ℝ) :
    (keys.map
        (fun k =>
          (l.countP (fun x => key x = k) : ℝ) * f k)).sum =
      (l.map (fun x => f (key x))).sum := by
  induction l with
  | nil => simp
  | cons a l ih =>
      rcases List.forall_mem_cons.mp hKeys with ⟨hA, hRest⟩
      have hOne :
          (keys.map
              (fun k => if key a = k then f k else 0)).sum =
            f (key a) := by
        rw [← List.sum_toFinset _ hNodup,
          Finset.sum_ite_eq, if_pos (List.mem_toFinset.mpr hA)]
      have hSplit :
          (keys.map
              (fun k =>
                ((a :: l).countP (fun x => key x = k) : ℝ) *
                  f k)).sum =
            (keys.map
                (fun k =>
                  (l.countP (fun x => key x = k) : ℝ) *
                    f k)).sum +
              (keys.map
                (fun k => if key a = k then f k else 0)).sum := by
        rw [← List.sum_map_add]
        congr 1
        apply List.map_congr_left
        intro k _
        rw [List.countP_cons]
        by_cases hKey : key a = k
        · simp [hKey, add_mul]
        · simp [hKey]
      rw [hSplit, ih hRest, hOne, List.map_cons, List.sum_cons,
        add_comm]

/- Terms that are zero may be left out of a sum. -/
theorem List.sum_map_filter_of_zero
    {p : α → Bool}
    {f : α → ℝ}
    {l : List α}
    (hZero : ∀ x ∈ l, p x = false → f x = 0) :
    ((l.filter p).map f).sum = (l.map f).sum := by
  induction l with
  | nil => rfl
  | cons a l ih =>
      rcases List.forall_mem_cons.mp hZero with ⟨hA, hRest⟩
      cases hP : p a with
      | true =>
          simp [List.filter_cons_of_pos hP, ih hRest]
      | false =>
          rw [List.filter_cons_of_neg (by simp [hP]),
            List.map_cons, List.sum_cons, hA hP, zero_add,
            ih hRest]

/- The positive ones among the counts make up the list. -/
theorem sum_filter_counts
    {key : α → β}
    {l : List α}
    {keys : List β}
    (hNodup : keys.Nodup)
    (hKeys : ∀ x ∈ l, key x ∈ keys) :
    ((keys.map
        (fun k =>
          (l.countP (fun x => key x = k) : ℝ))).filter
      (fun c => decide (0 < c))).sum =
      l.length := by
  have hAll := sum_countP_mul hNodup hKeys (fun _ => 1)
  have hFilter :=
    List.sum_map_filter_of_zero
      (p := fun c => decide (0 < c)) (f := fun c : ℝ => c)
      (l := keys.map
        (fun k => (l.countP (fun x => key x = k) : ℝ)))
      (by
        intro c hC hNot
        rcases List.mem_map.mp hC with ⟨k, _, rfl⟩
        simpa using hNot)
  rw [List.map_id', List.map_id'] at hFilter
  rw [hFilter]
  simpa using hAll

theorem log_prod_natCast
    {sizes : List ℕ}
    (hPos : ∀ size ∈ sizes, 0 < size) :
    Real.log (sizes.prod : ℕ) =
      (sizes.map (fun (size : ℕ) => Real.log size)).sum := by
  induction sizes with
  | nil => simp
  | cons size sizes ih =>
      rcases List.forall_mem_cons.mp hPos with ⟨hFirst, hRest⟩
      have hProd : 0 < sizes.prod := List.prod_pos hRest
      rw [List.prod_cons, Nat.cast_mul,
        Real.log_mul (by positivity) (by positivity), ih hRest,
        List.map_cons, List.sum_cons]

private theorem sum_map_sub_div
    (f : α → ℝ)
    (a b : ℝ)
    (l : List α) :
    (l.map (fun x => (f x - a) / b)).sum =
      ((l.map f).sum - l.length * a) / b := by
  induction l with
  | nil => simp
  | cons x l ih =>
      rw [List.map_cons, List.sum_cons, ih, List.map_cons,
        List.sum_cons, List.length_cons]
      push_cast
      ring

/- The entropy of the positive ones among the counts. -/
theorem neg_sum_eq_classEntropy
    {key : α → β}
    {l : List α}
    {keys : List β}
    (hNodup : keys.Nodup)
    (hKeys : ∀ x ∈ l, key x ∈ keys) :
    -(((keys.map
          (fun k =>
            (l.countP (fun x => key x = k) : ℝ))).filter
        (fun c => decide (0 < c))).map
          (fun c =>
            c / l.length * Real.log (c / l.length))).sum =
      classEntropy key l := by
  rcases eq_or_ne l [] with rfl | hSome
  · simp
  · have hN : 0 < l.length := List.length_pos_of_ne_nil hSome
    have hLength : (l.length : ℝ) ≠ 0 := by positivity
    rw [List.sum_map_filter_of_zero
      (by
        intro c hC hNot
        rcases List.mem_map.mp hC with ⟨k, _, rfl⟩
        have hZero : l.countP (fun x => key x = k) = 0 := by
          simpa using hNot
        simp [hZero]),
      List.map_map]
    have hTerms :
        keys.map
            ((fun c : ℝ =>
                c / l.length * Real.log (c / l.length)) ∘
              fun k => (l.countP (fun x => key x = k) : ℝ)) =
          keys.map
            (fun k =>
              (l.countP (fun x => key x = k) : ℝ) *
                ((Real.log (l.countP (fun x => key x = k)) -
                  Real.log l.length) / l.length)) := by
      apply List.map_congr_left
      intro k _
      rcases Nat.eq_zero_or_pos
          (l.countP (fun x => key x = k)) with hZero | hCount
      · simp [hZero]
      · simp only [Function.comp_apply]
        rw [Real.log_div (by positivity) hLength]
        ring
    have hLog :
        Real.log (classProduct key l) =
          (l.map
            (fun x =>
              Real.log (classSize key l x : ℝ))).sum := by
      unfold classProduct
      rw [log_prod_natCast, List.map_map]
      · rfl
      · intro size hSize
        rcases List.mem_map.mp hSize with ⟨x, hX, rfl⟩
        exact classSize_pos key hX
    rw [hTerms, sum_countP_mul hNodup hKeys]
    unfold classEntropy
    rw [hLog]
    have hSum :
        (l.map
            (fun x =>
              (Real.log
                    (l.countP (fun y => key y = key x)) -
                  Real.log l.length) /
                l.length)).sum =
          ((l.map
              (fun x =>
                Real.log (classSize key l x : ℝ))).sum -
            l.length * Real.log l.length) / l.length := by
      exact sum_map_sub_div _ _ _ l
    rw [hSum]
    field_simp
    ring

end Entropy
