import Nidra.Parity.PacketStats

/-
  This file states when the packet features that are served
  are those of training. Six are always the same. Training
  sorts window sizes and payloads into 16 bins before it
  takes their entropy, interpolates the 95th percentile, and
  counts packets without a TCP length with their frame.

  Key definitions include:
    * `bin`, `Separate`, `OneRank`
    * `MixedMatch`, `PayloadsMatch`, `PacketsMatch`
    * `PacketParity`

  Main declarations:
    * `packetParity_iff`
-/

namespace Nidra

namespace Parity

open Features Training

set_option linter.unusedSectionVars false

------------------------------------------------------------
-- The condition
------------------------------------------------------------

/-
  The bin of a size, of 16 bins of equal width between the
  smallest and the largest one.
-/
def bin
    (l : List ℕ)
    (size : ℕ) : ℕ :=
  let lo := l.min?.getD 0
  let hi := l.max?.getD 0
  min ((size - lo) * 16 / (hi - lo)) 15

/- No two different sizes share a bin. -/
def Separate (l : List ℕ) : Prop :=
  ∀ x ∈ l, ∀ y ∈ l, bin l x = bin l y → x = y

/- The rank of the value that 95 of 100 do not exceed. -/
def nearestRank (n : ℕ) : ℕ :=
  (19 * n + 19) / 20 - 1

/- The rank from which the percentile is interpolated. -/
def rankBelow (n : ℕ) : ℕ :=
  19 * (n - 1) / 20

/- How far it lies beyond that rank, in twentieths. -/
def twentieths (n : ℕ) : ℕ :=
  19 * (n - 1) % 20

/- The percentile falls on a rank, or between equals. -/
def OneRank (l : List ℕ) : Prop :=
  l.length % 20 = 1 ∨
    ranked l (rankBelow l.length + 1) =
      ranked l (rankBelow l.length)

/-
  The TCP lengths among all lengths: the frames have their
  mean and their mean square, both percentiles are one, and
  so are the entropies of both classifications.
-/
structure MixedMatch (tcp frames lens : List ℕ) : Prop where
  mean :
    frames.length * tcp.sum = tcp.length * frames.sum
  meanSquare :
    frames.length * (tcp.map (fun x => x ^ 2)).sum =
      tcp.length * (frames.map (fun x => x ^ 2)).sum
  rank :
    20 * ranked tcp (nearestRank tcp.length) =
      (20 - twentieths lens.length) *
          ranked lens (rankBelow lens.length) +
        twentieths lens.length *
          ranked lens (rankBelow lens.length + 1)
  sizes :
    tcp.length ^ (tcp.length * lens.length) *
        classProduct (bin lens) lens ^ tcp.length =
      lens.length ^ (tcp.length * lens.length) *
        classProduct (fun x => x) tcp ^ lens.length

/- The payloads of both sides have the same statistics. -/
def PayloadsMatch (packets : List Packet) : Prop :=
  let tcp := tcpLens packets
  let frames := frameLens packets
  (frames = [] ∧ Separate tcp ∧ OneRank tcp) ∨
    (tcp = [] ∧ ∀ frameLen ∈ frames, frameLen = 0) ∨
    (tcp ≠ [] ∧ frames ≠ [] ∧
      MixedMatch tcp frames (payloadLens packets))

def PacketsMatch (packets : List Packet) : Prop :=
  Separate (windowSizes packets) ∧ PayloadsMatch packets

/- All eleven features are the same. -/
def PacketParity
    (tenantId jobId host : String)
    (windowTs : ℤ)
    (packets : List Packet) : Prop :=
  ∀ name,
    servedStats (𝕜 := ℝ) tenantId jobId host packets name =
      trainedStats host windowTs packets name

------------------------------------------------------------
-- Entropies
------------------------------------------------------------

/- Both sides take the entropy of counts alike. -/
theorem trained_shannonEntropy
    (counts : List ℝ) :
    Training.shannonEntropy counts =
      Features.shannonEntropy counts := by
  unfold Training.shannonEntropy Features.shannonEntropy
  simp only
  by_cases hNone : counts.filter (fun c => decide (0 < c)) = []
  · rw [hNone]
    simp
  · have hPos :
        0 < (counts.filter (fun c => decide (0 < c))).sum := by
      apply List.sum_pos _ _ hNone
      intro c hC
      simpa using (List.mem_filter.mp hC).2
    rw [if_neg hNone, if_neg (not_le.mpr hPos), List.map_map]
    rfl

/- The entropy of a distribution of sizes. -/
theorem shannonEntropy_of_sizes
    {t : Tally ℤ ℝ}
    {l : List ℕ}
    (hCount :
      ∀ size,
        t.count size =
          ((l.map (fun (x : ℕ) => (x : ℤ))).count size : ℝ)) :
    Features.shannonEntropy t.values =
      classEntropy (fun x => x) l := by
  rw [shannonEntropy_of_counts hCount, classEntropy_map]
  exact classEntropy_congr (fun x y => Int.natCast_inj) l

/- The smallest number is that of the smallest size. -/
theorem min?_numbers
    (l : List ℕ) :
    (numbers l : List ℝ).min?.getD 0 =
      ((l.min?.getD 0 : ℕ) : ℝ) := by
  cases l with
  | nil => simp [numbers]
  | cons a l =>
      unfold numbers
      rw [List.map_cons, List.min?_cons', List.min?_cons',
        Option.getD_some, Option.getD_some]
      induction l generalizing a with
      | nil => rfl
      | cons b l ih =>
          rw [List.map_cons, List.foldl_cons, List.foldl_cons,
            ← ih, Nat.cast_min]

theorem max?_numbers
    (l : List ℕ) :
    (numbers l : List ℝ).max?.getD 0 =
      ((l.max?.getD 0 : ℕ) : ℝ) := by
  cases l with
  | nil => simp [numbers]
  | cons a l =>
      unfold numbers
      rw [List.map_cons, List.max?_cons', List.max?_cons',
        Option.getD_some, Option.getD_some]
      induction l generalizing a with
      | nil => rfl
      | cons b l ih =>
          rw [List.map_cons, List.foldl_cons, List.foldl_cons,
            ← ih, Nat.cast_max]

/- A bin of real numbers is one of natural numbers. -/
theorem binOf_natCast
    {lo hi : ℕ}
    (hRange : lo ≤ hi)
    (size : ℕ) :
    binOf 16 (lo : ℝ) (hi : ℝ) (size : ℝ) =
      min ((size - lo) * 16 / (hi - lo)) 15 := by
  unfold binOf
  congr 1
  rcases Nat.le_total lo size with hSize | hBelow
  · have hCast :
        ((size : ℝ) - lo) * (16 : ℕ) / ((hi : ℝ) - lo) =
          (((size - lo) * 16 : ℕ) : ℝ) /
            ((hi - lo : ℕ) : ℝ) := by
      push_cast [hSize, hRange]
      rfl
    rw [hCast, Nat.floor_div_eq_div]
  · have hSize : (size : ℝ) ≤ lo := by exact_mod_cast hBelow
    have hWidth : (lo : ℝ) ≤ hi := by exact_mod_cast hRange
    have hNumerator :
        ((size : ℝ) - lo) * (16 : ℕ) ≤ 0 := by
      push_cast
      linarith
    rw [Nat.floor_of_nonpos
        (div_nonpos_of_nonpos_of_nonneg hNumerator
          (sub_nonneg.mpr hWidth)),
      Nat.sub_eq_zero_of_le hBelow, zero_mul, Nat.zero_div]

theorem smallest_le_largest
    {l : List ℕ}
    (hSome : l ≠ []) :
    l.min?.getD 0 ≤ l.max?.getD 0 := by
  rcases List.exists_mem_of_ne_nil l hSome with ⟨x, hX⟩
  exact
    (List.min?_getD_le_of_mem hX).trans
      (List.le_max?_getD_of_mem hX)

/- Training takes the entropy over the bins. -/
theorem binEntropy_eq
    {column : Series ℝ}
    {l : List ℕ}
    (hPresent : column.present = numbers l) :
    binEntropy column = classEntropy (bin l) l := by
  unfold binEntropy
  simp only [hPresent]
  split
  · next hNone =>
      rw [numbers, List.map_eq_nil_iff] at hNone
      rw [hNone, classEntropy_nil]
  · next hSome =>
    rw [numbers, List.map_eq_nil_iff] at hSome
    split
    · next hOne =>
        rcases List.length_eq_one_iff.mp hOne with ⟨a, hA⟩
        symm
        apply classEntropy_of_one
        have hSame : ∀ x ∈ l, (x : ℝ) = a := by
          intro x hX
          have hMem : (x : ℝ) ∈ (numbers l : List ℝ) :=
            List.mem_map.mpr ⟨x, hX, rfl⟩
          rw [← List.mem_eraseDups, hA] at hMem
          simpa using hMem
        intro x hX y hY
        have hEq : (x : ℝ) = y :=
          (hSame x hX).trans (hSame y hY).symm
        rw [Nat.cast_inj.mp hEq]
    · have hBins :
          ((histogram 16 (numbers l : List ℝ)).map
              (fun (c : ℕ) => (c : ℝ))) =
            (List.range 16).map
              (fun k =>
                ((numbers l : List ℝ).countP
                  (fun v =>
                    binOf 16
                      ((numbers l : List ℝ).min?.getD 0)
                      ((numbers l : List ℝ).max?.getD 0) v =
                        k) : ℝ)) := by
        unfold histogram
        rw [List.map_map]
        rfl
      have hCasts :
          ∀ sizes : List ℕ,
            (sizes >>= fun c => pure (c : ℝ)) =
              sizes.map (fun (c : ℕ) => (c : ℝ)) := by
        intro sizes
        exact List.map_eq_flatMap.symm
      rw [trained_shannonEntropy, List.map_id', hCasts, hBins,
        shannonEntropy_countP List.nodup_range]
      · rw [min?_numbers, max?_numbers]
        unfold numbers
        rw [classEntropy_map]
        simp only [binOf_natCast (smallest_le_largest hSome)]
        rfl
      · intro v _
        rw [List.mem_range]
        unfold binOf
        omega

------------------------------------------------------------
-- Percentiles
------------------------------------------------------------

/- The ranks of numbers are those of the sizes. -/
theorem ranked_numbers
    (l : List ℕ)
    (rank : ℕ) :
    ranked (numbers l : List ℝ) rank =
      ((ranked l rank : ℕ) : ℝ) := by
  have hPerm :
      (numbers l : List ℝ).Perm
        (numbers (l.insertionSort (· ≤ ·))) :=
    (List.perm_insertionSort (· ≤ ·) l).symm.map _
  have hSorted :
      (numbers (l.insertionSort (· ≤ ·)) :
        List ℝ).Pairwise (· ≤ ·) := by
    unfold numbers
    rw [List.pairwise_map]
    refine (List.pairwise_insertionSort (· ≤ ·) l).imp ?_
    intro x y hLe
    exact_mod_cast hLe
  rw [ranked_of_sorted hPerm hSorted, length_numbers,
    List.length_insertionSort, ranked]
  unfold numbers
  rw [List.getD_eq_getElem?_getD, List.getD_eq_getElem?_getD,
    List.getElem?_map]
  cases (l.insertionSort (· ≤ ·))[min rank (l.length - 1)]? with
  | none => simp
  | some x => rfl

theorem ceil_share
    (n : ℕ) :
    ⌈(95 / 100 : ℝ) * n⌉₊ = (19 * n + 19) / 20 := by
  apply le_antisymm
  · rw [Nat.ceil_le]
    have hNat : 19 * n ≤ 20 * ((19 * n + 19) / 20) := by omega
    have hReal :
        (19 : ℝ) * n ≤ 20 * (((19 * n + 19) / 20 : ℕ) : ℝ) := by
      exact_mod_cast hNat
    linarith
  · by_contra hLess
    rw [not_le] at hLess
    have hCeil := Nat.le_ceil ((95 / 100 : ℝ) * n)
    have hNat :
        20 * ⌈(95 / 100 : ℝ) * n⌉₊ < 19 * n := by omega
    have hReal :
        (20 : ℝ) * (⌈(95 / 100 : ℝ) * n⌉₊ : ℕ) < 19 * n := by
      exact_mod_cast hNat
    linarith

/- The percentile that is served. -/
theorem percentile_of_sizes
    {t : Tally ℤ ℝ}
    {l : List ℕ}
    (hCount :
      ∀ size,
        t.count size =
          ((l.map (fun (x : ℕ) => (x : ℤ))).count size : ℝ)) :
    percentile (numericBuckets t) (95 / 100) =
      ((ranked l (nearestRank l.length) : ℕ) : ℝ) := by
  have hInts :
      (numbers l : List ℝ) =
        (l.map (fun (x : ℕ) => (x : ℤ))).map
          (fun (k : ℤ) => (k : ℝ)) := by
    simp [numbers]
  have hCounts :
      ((numericBuckets t).filter
          (fun e => decide (0 < e.2))).Perm
        ((numbers l : List ℝ).dedup.map
          (fun v => (v, ((numbers l).count v : ℝ)))) := by
    have hPositive := Tally.positive_perm hCount
    have hMapped :=
      hPositive.map (fun e => ((e.1 : ℝ), e.2))
    unfold numericBuckets
    rw [List.filter_map]
    refine hMapped.trans (List.Perm.of_eq ?_)
    rw [hInts,
      List.dedup_map_of_injective Int.cast_injective,
      List.map_map, List.map_map]
    apply List.map_congr_left
    intro k _
    simp only [Function.comp_apply]
    rw [List.count_map_of_injective _ _ Int.cast_injective]
  rw [percentile_of_counts hCounts (by norm_num)
    (by norm_num), length_numbers, ceil_share, ranked_numbers]
  rfl

/- The percentile that training interpolates. -/
theorem quantile_numbers
    {l : List ℕ}
    (hSome : l ≠ []) :
    20 * quantile (95 / 100) (numbers l : List ℝ) =
      (((20 - twentieths l.length) *
            ranked l (rankBelow l.length) +
          twentieths l.length *
            ranked l (rankBelow l.length + 1) : ℕ) : ℝ) := by
  have hN : 1 ≤ l.length := List.length_pos_of_ne_nil hSome
  have hSteps :
      20 * rankBelow l.length + twentieths l.length =
        19 * (l.length - 1) :=
    Nat.div_add_mod _ _
  have hTwentieths : twentieths l.length < 20 :=
    Nat.mod_lt _ (by decide)
  have hPosition :
      (95 / 100 : ℝ) * ((l.length : ℝ) - 1) =
        ((19 * (l.length - 1) : ℕ) : ℝ) / ((20 : ℕ) : ℝ) := by
    push_cast [hN]
    ring
  have hFloor :
      ⌊((19 * (l.length - 1) : ℕ) : ℝ) / ((20 : ℕ) : ℝ)⌋₊ =
        rankBelow l.length :=
    Nat.floor_div_eq_div _ _
  have hBeyond :
      ((19 * (l.length - 1) : ℕ) : ℝ) / ((20 : ℕ) : ℝ) =
        (rankBelow l.length : ℝ) +
          (twentieths l.length : ℝ) / 20 := by
    rw [← hSteps]
    push_cast
    ring
  unfold quantile interpolate
  rw [length_numbers, hPosition]
  simp only [hFloor, ranked_numbers]
  rw [hBeyond]
  push_cast [hTwentieths.le]
  ring

/- Where the nearest rank lies. -/
theorem nearestRank_cases
    {n : ℕ}
    (hN : 1 ≤ n) :
    (n % 20 = 1 ∧ nearestRank n = rankBelow n ∧
        twentieths n = 0) ∨
      (n % 20 ≠ 1 ∧ nearestRank n = rankBelow n ∧
        0 < twentieths n) ∨
      (n % 20 ≠ 1 ∧ nearestRank n = rankBelow n + 1) := by
  unfold nearestRank rankBelow twentieths
  omega

/- Between two ranks the percentile is one of their values. -/
theorem rank_eq_iff_oneRank
    {l : List ℕ}
    (hSome : l ≠ []) :
    20 * ranked l (nearestRank l.length) =
        (20 - twentieths l.length) *
            ranked l (rankBelow l.length) +
          twentieths l.length *
            ranked l (rankBelow l.length + 1) ↔
      OneRank l := by
  have hN : 1 ≤ l.length := List.length_pos_of_ne_nil hSome
  have hTwentieths : twentieths l.length < 20 :=
    Nat.mod_lt _ (by decide)
  rcases Nat.exists_eq_add_of_lt hTwentieths with ⟨left, hLeft⟩
  have hSub : 20 - twentieths l.length = left + 1 := by omega
  unfold OneRank
  rw [hSub]
  rcases nearestRank_cases hN with ⟨hOne, hRank, hZero⟩ |
    ⟨hOne, hRank, hPos⟩ | ⟨hOne, hRank⟩
  · -- The percentile falls on a rank.
    have hTwenty : left + 1 = 20 := by omega
    rw [hRank, hZero, hTwenty]
    simp [hOne]
  · rw [hRank]
    simp only [hOne, false_or]
    generalize ranked l (rankBelow l.length) = low
    generalize ranked l (rankBelow l.length + 1) = high
    have hTwenty : left + 1 + twentieths l.length = 20 := by
      omega
    rw [← hTwenty, add_mul, add_left_cancel_iff,
      Nat.mul_right_inj hPos.ne']
    exact eq_comm
  · rw [hRank]
    simp only [hOne, false_or]
    generalize ranked l (rankBelow l.length) = low
    generalize ranked l (rankBelow l.length + 1) = high
    have hTwenty : left + 1 + twentieths l.length = 20 := by
      omega
    rw [← hTwenty, add_mul, add_right_cancel_iff,
      Nat.mul_right_inj (by omega)]

/- The 95th percentiles are one and the same. -/
theorem p95_eq_iff
    (tcp : List ℕ)
    {lens : List ℕ}
    (hSome : lens ≠ []) :
    ((ranked tcp (nearestRank tcp.length) : ℕ) : ℝ) =
        quantile (95 / 100) (numbers lens : List ℝ) ↔
      20 * ranked tcp (nearestRank tcp.length) =
        (20 - twentieths lens.length) *
            ranked lens (rankBelow lens.length) +
          twentieths lens.length *
            ranked lens (rankBelow lens.length + 1) := by
  have hQuantile := quantile_numbers hSome
  constructor
  · intro hEq
    rw [← hEq] at hQuantile
    exact_mod_cast hQuantile
  · intro hEq
    rw [← hEq] at hQuantile
    push_cast at hQuantile
    linarith

------------------------------------------------------------
-- Payloads
------------------------------------------------------------

section Payloads

variable (packets : List Packet)

/- The lengths are the TCP lengths and the frames. -/
theorem sum_payloadLens
    (f : ℕ → ℕ) :
    ((payloadLens packets).map f).sum =
      ((tcpLens packets).map f).sum +
        ((frameLens packets).map f).sum := by
  induction packets with
  | nil => rfl
  | cons p packets ih =>
      unfold payloadLens tcpLens frameLens at ih ⊢
      rw [List.map_cons, List.map_cons, List.sum_cons, ih]
      cases hLen : p.tcpLen with
      | none =>
          rw [List.filterMap_cons_none hLen,
            List.filterMap_cons_some (b := p.frameLen)
              (by simp [hLen])]
          simp only [Option.getD_none, List.map_cons,
            List.sum_cons]
          omega
      | some len =>
          rw [List.filterMap_cons_some hLen,
            List.filterMap_cons_none (by simp [hLen])]
          simp only [Option.getD_some, List.map_cons,
            List.sum_cons]
          omega

theorem length_payloadLens :
    (payloadLens packets).length =
      (tcpLens packets).length + (frameLens packets).length := by
  have hOnes := sum_payloadLens packets (fun _ => 1)
  simpa using hOnes

/- Without a bare frame the lengths are the TCP lengths. -/
theorem payloadLens_eq_tcpLens
    (hFrames : frameLens packets = []) :
    payloadLens packets = tcpLens packets := by
  induction packets with
  | nil => rfl
  | cons p packets ih =>
      unfold payloadLens tcpLens frameLens at *
      cases hLen : p.tcpLen with
      | none =>
          rw [List.filterMap_cons_some (b := p.frameLen)
            (by simp [hLen])] at hFrames
          cases hFrames
      | some len =>
          rw [List.filterMap_cons_none
            (by simp [hLen])] at hFrames
          rw [List.filterMap_cons_some hLen, List.map_cons,
            ih hFrames, hLen, Option.getD_some]

theorem mem_payloadLens
    {len : ℕ}
    (hMem : len ∈ payloadLens packets) :
    len ∈ tcpLens packets ∨ len ∈ frameLens packets := by
  rcases List.mem_map.mp hMem with ⟨p, hP, rfl⟩
  cases hLen : p.tcpLen with
  | none =>
      exact
        Or.inr
          (List.mem_filterMap.mpr ⟨p, hP, by simp [hLen]⟩)
  | some len =>
      exact Or.inl (List.mem_filterMap.mpr ⟨p, hP, hLen⟩)

theorem mem_payloadLens_of_frame
    {len : ℕ}
    (hMem : len ∈ frameLens packets) :
    len ∈ payloadLens packets := by
  rcases List.mem_filterMap.mp hMem with ⟨p, hP, hLen⟩
  refine List.mem_map.mpr ⟨p, hP, ?_⟩
  split at hLen
  · next hNone =>
      cases hLen
      rw [hNone, Option.getD_none]
  · cases hLen

/- The four statistics of the payload are the same. -/
structure SamePayload (tcp lens : List ℕ) : Prop where
  mean :
    average (numbers tcp : List ℝ) = average (numbers lens)
  var :
    Series.populationVariance (numbers tcp : List ℝ) =
      Series.populationVariance (numbers lens)
  p95 :
    ((ranked tcp (nearestRank tcp.length) : ℕ) : ℝ) =
      quantile (95 / 100) (numbers lens : List ℝ)
  entropy :
    classEntropy (fun x => x) tcp =
      classEntropy (bin lens) lens

/- With TCP packets only. -/
theorem samePayload_self_iff
    (tcp : List ℕ) :
    SamePayload tcp tcp ↔ Separate tcp ∧ OneRank tcp := by
  have hEntropy :
      classEntropy (fun x => x) tcp =
          classEntropy (bin tcp) tcp ↔
        Separate tcp :=
    classEntropy_eq_iff_finer
      (fun x y hEq => by rw [hEq]) tcp
  have hRank :
      ((ranked tcp (nearestRank tcp.length) : ℕ) : ℝ) =
          quantile (95 / 100) (numbers tcp : List ℝ) ↔
        OneRank tcp := by
    rcases eq_or_ne tcp [] with rfl | hSome
    · simp [OneRank, ranked, quantile, interpolate, numbers]
    · rw [p95_eq_iff tcp hSome, rank_eq_iff_oneRank hSome]
  constructor
  · intro hSame
    exact ⟨hEntropy.mp hSame.entropy, hRank.mp hSame.p95⟩
  · rintro ⟨hSeparate, hOne⟩
    exact
      { mean := rfl
        var := rfl
        p95 := hRank.mpr hOne
        entropy := hEntropy.mpr hSeparate }

/- Without TCP packets. -/
theorem samePayload_nil_iff
    {lens : List ℕ}
    (hSome : lens ≠ []) :
    SamePayload [] lens ↔ ∀ len ∈ lens, len = 0 := by
  have hLength : (lens.length : ℝ) ≠ 0 := by
    exact_mod_cast (List.length_pos_of_ne_nil hSome).ne'
  constructor
  · intro hSame
    have hMean := hSame.mean
    unfold average at hMean
    rw [length_numbers, length_numbers, sum_numbers,
      sum_numbers, List.sum_nil, Nat.cast_zero, zero_div,
      eq_comm, div_eq_zero_iff, or_iff_left hLength] at hMean
    have hSum : lens.sum = 0 := by exact_mod_cast hMean
    exact List.sum_eq_zero_iff.mp hSum
  · intro hZero
    have hSum : lens.sum = 0 :=
      List.sum_eq_zero_iff.mpr hZero
    have hSquares : (lens.map (fun x => x ^ 2)).sum = 0 := by
      apply List.sum_eq_zero_iff.mpr
      intro square hSquare
      rcases List.mem_map.mp hSquare with ⟨x, hX, rfl⟩
      rw [hZero x hX]
      rfl
    have hRanked : ∀ rank, ranked lens rank = 0 :=
      fun rank => hZero _ (ranked_mem hSome rank)
    refine
      { mean := ?_
        var := ?_
        p95 := ?_
        entropy := ?_ }
    · simp [average, sum_numbers, hSum]
    · rw [Series.populationVariance_eq,
        Series.populationVariance_eq, sum_sq_numbers,
        sum_sq_numbers, sum_numbers, sum_numbers, hSum,
        hSquares]
      simp
    · rw [p95_eq_iff [] hSome]
      have hNone : ∀ rank, ranked ([] : List ℕ) rank = 0 := by
        simp [ranked]
      simp only [hRanked, hNone, mul_zero, add_zero]
    · symm
      rw [classEntropy_nil]
      apply classEntropy_of_one
      intro x hX y hY
      rw [hZero x hX, hZero y hY]

/- A ratio of a part is that of the whole. -/
theorem ratio_eq_iff
    {n m : ℕ}
    (hN : 0 < n)
    (a b : ℕ) :
    (a : ℝ) / n = ((a + b : ℕ) : ℝ) / ((n + m : ℕ) : ℝ) ↔
      m * a = n * b := by
  rw [div_eq_div_iff (by positivity) (by positivity)]
  constructor
  · intro hEq
    have hNat : a * (n + m) = (a + b) * n := by
      exact_mod_cast hEq
    linarith
  · intro hEq
    have hNat : a * (n + m) = (a + b) * n := by linarith
    exact_mod_cast hNat

/- With packets of both kinds. -/
theorem samePayload_mixed_iff
    {tcp frames lens : List ℕ}
    (hTcp : tcp ≠ [])
    (hSum :
      ∀ f : ℕ → ℕ,
        (lens.map f).sum =
          (tcp.map f).sum + (frames.map f).sum) :
    SamePayload tcp lens ↔ MixedMatch tcp frames lens := by
  have hN : 0 < tcp.length := List.length_pos_of_ne_nil hTcp
  have hLength : lens.length = tcp.length + frames.length := by
    simpa using hSum (fun _ => 1)
  have hLens : lens ≠ [] := by
    intro hNil
    rw [hNil, List.length_nil] at hLength
    omega
  have hTotal : lens.sum = tcp.sum + frames.sum := by
    simpa using hSum (fun x => x)
  have hMean :
      average (numbers tcp : List ℝ) =
          average (numbers lens) ↔
        frames.length * tcp.sum =
          tcp.length * frames.sum := by
    unfold average
    rw [length_numbers, length_numbers, sum_numbers,
      sum_numbers, hLength, hTotal]
    exact ratio_eq_iff hN _ _
  have hSquare :
      (((tcp.map (fun x => x ^ 2)).sum : ℕ) : ℝ) /
            tcp.length =
          (((lens.map (fun x => x ^ 2)).sum : ℕ) : ℝ) /
            lens.length ↔
        frames.length * (tcp.map (fun x => x ^ 2)).sum =
          tcp.length * (frames.map (fun x => x ^ 2)).sum := by
    rw [hLength, hSum]
    exact ratio_eq_iff hN _ _
  -- Of one mean, the variances tell the mean squares apart.
  have hVar
      (hSame :
        average (numbers tcp : List ℝ) =
          average (numbers lens)) :
      Series.populationVariance (numbers tcp : List ℝ) =
          Series.populationVariance (numbers lens) ↔
        frames.length * (tcp.map (fun x => x ^ 2)).sum =
          tcp.length *
            (frames.map (fun x => x ^ 2)).sum := by
    unfold average at hSame
    rw [Series.populationVariance_eq,
      Series.populationVariance_eq, hSame, sub_left_inj,
      sum_sq_numbers, sum_sq_numbers, length_numbers,
      length_numbers]
    exact hSquare
  constructor
  · intro hSame
    exact
      { mean := hMean.mp hSame.mean
        meanSquare := (hVar hSame.mean).mp hSame.var
        rank := (p95_eq_iff tcp hLens).mp hSame.p95
        sizes :=
          (classEntropy_eq_iff hTcp hLens).mp hSame.entropy }
  · intro hMatch
    have hSame := hMean.mpr hMatch.mean
    exact
      { mean := hSame
        var := (hVar hSame).mpr hMatch.meanSquare
        p95 := (p95_eq_iff tcp hLens).mpr hMatch.rank
        entropy :=
          (classEntropy_eq_iff hTcp hLens).mpr hMatch.sizes }

/- The payloads of packets match or not. -/
theorem samePayload_iff :
    SamePayload (tcpLens packets) (payloadLens packets) ↔
      PayloadsMatch packets := by
  unfold PayloadsMatch
  simp only
  by_cases hFrames : frameLens packets = []
  · rw [payloadLens_eq_tcpLens packets hFrames,
      samePayload_self_iff]
    simp only [hFrames, true_and, List.not_mem_nil,
      false_imp_iff, implies_true, and_true, ne_eq,
      not_true_eq_false, false_and, and_false, or_false]
    constructor
    · exact Or.inl
    · rintro (hMatch | hNone)
      · exact hMatch
      · rw [hNone]
        refine ⟨?_, Or.inr rfl⟩
        intro len hLen
        exact absurd hLen List.not_mem_nil
  · have hLens : payloadLens packets ≠ [] := by
      intro hNil
      have hLength := length_payloadLens packets
      rw [hNil, List.length_nil] at hLength
      have hPos := List.length_pos_of_ne_nil hFrames
      omega
    by_cases hTcp : tcpLens packets = []
    · rw [hTcp, samePayload_nil_iff hLens]
      simp only [hFrames, false_and, true_and, ne_eq,
        not_true_eq_false, or_false, false_or]
      constructor
      · intro hZero frameLen hMem
        exact
          hZero frameLen (mem_payloadLens_of_frame packets hMem)
      · intro hZero len hMem
        rcases mem_payloadLens packets hMem with hNone | hFrame
        · rw [hTcp] at hNone
          cases hNone
        · exact hZero len hFrame
    · rw [samePayload_mixed_iff hTcp
        (sum_payloadLens packets)]
      simp only [hFrames, hTcp, false_and, ne_eq,
        not_false_eq_true, true_and, false_or]

end Payloads

------------------------------------------------------------
-- All features
------------------------------------------------------------

section All

variable (tenantId jobId host : String)
variable (windowTs : ℤ)
variable (packets : List Packet)

/- What is served, from the numbers. -/
structure ServedFrom
    (features : PacketFeature → ℝ)
    (packets : List Packet) : Prop where
  ttlMean :
    features .ttlMean = average (numbers (ttls packets))
  ttlVar :
    features .ttlVar =
      Series.populationVariance (numbers (ttls packets))
  tcpWindowMean :
    features .tcpWindowMean =
      average (numbers (windowSizes packets))
  tcpWindowEntropy :
    features .tcpWindowEntropy =
      classEntropy (fun x => x) (windowSizes packets)
  fragFlagRate :
    features .fragFlagRate =
      (packets.map (fun p => (indicator p.frag : ℝ))).sum /
        packets.length
  payloadSizeMean :
    features .payloadSizeMean =
      average (numbers (tcpLens packets))
  payloadSizeVar :
    features .payloadSizeVar =
      Series.populationVariance (numbers (tcpLens packets))
  payloadSizeP95 :
    features .payloadSizeP95 =
      ((ranked (tcpLens packets)
        (nearestRank (tcpLens packets).length) : ℕ) : ℝ)
  payloadSizeEntropy :
    features .payloadSizeEntropy =
      classEntropy (fun x => x) (tcpLens packets)
  retransCount :
    features .retransCount =
      (packets.map
        (fun p => (indicator p.retransmission : ℝ))).sum
  retransRate :
    features .retransRate =
      (packets.map
          (fun p => (indicator p.retransmission : ℝ))).sum /
        packets.length

theorem servedFrom_servedStats :
    ServedFrom
      (servedStats tenantId jobId host packets) packets := by
  have hHash :=
    hashOf_packetHash (𝕜 := ℝ) tenantId jobId host packets
  refine
    { ttlMean := ?_
      ttlVar := ?_
      tcpWindowMean := ?_
      tcpWindowEntropy := ?_
      fragFlagRate := ?_
      payloadSizeMean := ?_
      payloadSizeVar := ?_
      payloadSizeP95 := ?_
      payloadSizeEntropy := ?_
      retransCount := ?_
      retransRate := ?_ }
  · simp only [servedStats, packetFeatures, get_fromHash]
    rw [hHash.ttlSum, hHash.nTtl, safeDiv_sum]
  · simp only [servedStats, packetFeatures, get_fromHash]
    rw [hHash.ttlSum, hHash.ttlSq, hHash.nTtl, variance_sums]
  · simp only [servedStats, packetFeatures, get_fromHash]
    rw [hHash.tcpWindowSum, hHash.nTcpWindow, safeDiv_sum]
  · apply shannonEntropy_of_sizes
    intro size
    rw [count_tcpWindow_fromHash, hHash.tcpWindow]
  · simp only [servedStats, packetFeatures, get_fromHash,
      Features.safeDiv, divOrZero_eq_div]
    rw [hHash.fragCount, hHash.nPackets]
  · simp only [servedStats, packetFeatures, get_fromHash]
    rw [hHash.payloadSum, hHash.nPayload, safeDiv_sum]
  · simp only [servedStats, packetFeatures, get_fromHash]
    rw [hHash.payloadSum, hHash.payloadSq, hHash.nPayload,
      variance_sums]
  · apply percentile_of_sizes
    intro size
    rw [count_payload_fromHash, hHash.payload]
  · apply shannonEntropy_of_sizes
    intro size
    rw [count_payload_fromHash, hHash.payload]
  · simp only [servedStats, packetFeatures, get_fromHash]
    exact hHash.retransCount
  · simp only [servedStats, packetFeatures, get_fromHash,
      Features.safeDiv, divOrZero_eq_div]
    rw [hHash.retransCount, hHash.nPackets]

theorem trained_tcpWindowEntropy :
    trainedStats (𝕜 := ℝ) host windowTs packets
        .tcpWindowEntropy =
      classEntropy (bin (windowSizes packets))
        (windowSizes packets) := by
  rw [trainedStats_eq]
  exact binEntropy_eq (present_tcpWindow host windowTs packets)

theorem trained_payloadSizeEntropy :
    trainedStats (𝕜 := ℝ) host windowTs packets
        .payloadSizeEntropy =
      classEntropy (bin (payloadLens packets))
        (payloadLens packets) := by
  rw [trainedStats_eq]
  exact binEntropy_eq (present_payload host windowTs packets)

/-
  The packet features are the same exactly when the packets
  meet the condition.
-/
theorem packetParity_iff :
    PacketParity tenantId jobId host windowTs packets ↔
      PacketsMatch packets := by
  have hServed :=
    servedFrom_servedStats tenantId jobId host packets
  have hTrained :=
    trainedFrom_trainedStats (𝕜 := ℝ) host windowTs packets
  have hWindows :
      classEntropy (fun x => x) (windowSizes packets) =
          classEntropy (bin (windowSizes packets))
            (windowSizes packets) ↔
        Separate (windowSizes packets) :=
    classEntropy_eq_iff_finer (fun x y hEq => by rw [hEq]) _
  unfold PacketsMatch
  rw [← samePayload_iff, ← hWindows]
  constructor
  · intro hParity
    refine
      ⟨?_,
        { mean := ?_
          var := ?_
          p95 := ?_
          entropy := ?_ }⟩
    · rw [← hServed.tcpWindowEntropy, hParity,
        trained_tcpWindowEntropy]
    · rw [← hServed.payloadSizeMean, hParity,
        hTrained.payloadSizeMean]
    · rw [← hServed.payloadSizeVar, hParity,
        hTrained.payloadSizeVar]
    · rw [← hServed.payloadSizeP95, hParity,
        hTrained.payloadSizeP95]
    · rw [← hServed.payloadSizeEntropy, hParity,
        trained_payloadSizeEntropy]
  · rintro ⟨hEntropy, hSame⟩ name
    cases name with
    | ttlMean => rw [hServed.ttlMean, hTrained.ttlMean]
    | ttlVar => rw [hServed.ttlVar, hTrained.ttlVar]
    | tcpWindowMean =>
        rw [hServed.tcpWindowMean, hTrained.tcpWindowMean]
    | tcpWindowEntropy =>
        rw [hServed.tcpWindowEntropy, hEntropy,
          trained_tcpWindowEntropy]
    | fragFlagRate =>
        rw [hServed.fragFlagRate, hTrained.fragFlagRate]
    | payloadSizeMean =>
        rw [hServed.payloadSizeMean, hSame.mean,
          hTrained.payloadSizeMean]
    | payloadSizeVar =>
        rw [hServed.payloadSizeVar, hSame.var,
          hTrained.payloadSizeVar]
    | payloadSizeP95 =>
        rw [hServed.payloadSizeP95, hSame.p95,
          hTrained.payloadSizeP95]
    | payloadSizeEntropy =>
        rw [hServed.payloadSizeEntropy, hSame.entropy,
          trained_payloadSizeEntropy]
    | retransCount =>
        rw [hServed.retransCount, hTrained.retransCount]
    | retransRate =>
        rw [hServed.retransRate, hTrained.retransRate]

------------------------------------------------------------
-- A packet without a TCP length
------------------------------------------------------------

/- One datagram with a frame of sixty bytes. -/
def datagram : Packet where
  time := 90
  dstIp := "x"
  srcPort := some 5353
  dstPort := some 53
  protocol := some 17
  ttl := some 64
  tcpWindow := none
  frameLen := 60
  tcpLen := none
  tcpFlags := none
  frag := false
  retransmission := false

/- Training counts its frame as payload; it is not served. -/
theorem not_packetParity_datagram :
    ¬ PacketParity "t" "j" "host" 90 [datagram] := by
  intro hParity
  have hServed :=
    servedFrom_servedStats "t" "j" "host" [datagram]
  have hTrained :=
    trainedFrom_trainedStats (𝕜 := ℝ) "host" 90 [datagram]
  have hMean := hParity .payloadSizeMean
  rw [hServed.payloadSizeMean, hTrained.payloadSizeMean] at hMean
  have hTcp : tcpLens [datagram] = [] := rfl
  have hAll : payloadLens [datagram] = [60] := rfl
  rw [hTcp, hAll] at hMean
  norm_num [average, numbers] at hMean

end All

end Parity

end Nidra
