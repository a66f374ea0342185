import Nidra.Features.AnyOrder
import Nidra.Lib.Classes
import Nidra.Lib.Series

/-
  This file states what is read off the value-count
  distributions of a window: when a distribution counts the
  members of a list, its entropy is that of the list, and its
  percentile is the member of the nearest rank. It also says
  what each event adds to which field.

  Key definitions include:
    * `packetAdds`, `flowAdds`

  Main declarations:
    * `shannonEntropy_of_counts`
    * `percentile_of_counts`
    * `variance_eq_populationVariance`
    * `count_eventIncrements`, `count_flowEvent`
-/

namespace Nidra

namespace Features

set_option linter.unusedSectionVars false

------------------------------------------------------------
-- Entropy
------------------------------------------------------------

/- Only the counts above zero matter. -/
theorem shannonEntropy_filter
    {𝕜 : Type}
    [Field 𝕜]
    [LinearOrder 𝕜]
    [ExpLog 𝕜]
    (counts : List 𝕜) :
    shannonEntropy
        (counts.filter (fun c => decide (0 < c))) =
      shannonEntropy counts := by
  unfold shannonEntropy
  simp only [List.filter_filter, Bool.and_self]

/- The entropy of the counts of some keys. -/
theorem shannonEntropy_countP
    {α β : Type}
    [DecidableEq β]
    {key : α → β}
    {l : List α}
    {keys : List β}
    (hNodup : keys.Nodup)
    (hKeys : ∀ x ∈ l, key x ∈ keys) :
    shannonEntropy
        (keys.map
          (fun k => (l.countP (fun x => key x = k) : ℝ))) =
      classEntropy key l := by
  unfold shannonEntropy
  simp only [sum_filter_counts hNodup hKeys]
  rcases eq_or_ne l [] with rfl | hSome
  · simp
  · have hN : 0 < l.length := List.length_pos_of_ne_nil hSome
    have hReal : ¬ (l.length : ℝ) ≤ 0 := by
      rw [not_le]
      exact_mod_cast hN
    rw [if_neg hReal]
    exact neg_sum_eq_classEntropy hNodup hKeys

/- The entropy of a distribution that counts a list. -/
theorem shannonEntropy_of_counts
    {κ : Type}
    [DecidableEq κ]
    {t : Tally κ ℝ}
    {l : List κ}
    (hCount : ∀ k, t.count k = (l.count k : ℝ)) :
    shannonEntropy t.values =
      classEntropy (fun x => x) l := by
  have hValues :
      t.values.filter (fun c => decide (0 < c)) =
        (t.toList.filter
          (fun e => decide (0 < e.2))).map Prod.snd := by
    unfold Tally.values Tally.toList
    rw [List.filter_map, List.filter_map, List.map_map]
    rfl
  rw [← shannonEntropy_filter, hValues,
    shannonEntropy_perm
      ((Tally.positive_perm hCount).map Prod.snd),
    List.map_map]
  have hCounts :
      (Prod.snd ∘ fun k => (k, (l.count k : ℝ))) =
        fun k => (l.countP (fun x => x = k) : ℝ) := by
    funext k
    simp only [Function.comp_apply, Nat.cast_inj]
    exact List.countP_congr (by simp)
  rw [hCounts]
  exact
    shannonEntropy_countP l.nodup_dedup
      (fun x hX => List.mem_dedup.mpr hX)

------------------------------------------------------------
-- Nearest rank
------------------------------------------------------------

section Rank

variable {𝕜 : Type}
variable [Field 𝕜] [LinearOrder 𝕜] [IsStrictOrderedRing 𝕜]
variable [FloorRing 𝕜]

/- The scan stops at the member whose rank is the target. -/
theorem percentileScan_replicate
    {values : List 𝕜}
    {count : 𝕜 → ℕ}
    {seen target last : 𝕜}
    (hAfter : seen < target)
    (hWithin :
      target ≤
        seen + ((values.map count).sum : ℕ)) :
    percentileScan target seen
        (values.map (fun v => (v, (count v : 𝕜)))) last =
      (values.flatMap
        (fun v => List.replicate (count v) v)).getD
          (⌈target - seen⌉₊ - 1) 0 := by
  induction values generalizing seen last with
  | nil =>
      simp only [List.map_nil, List.sum_nil, Nat.cast_zero,
        add_zero] at hWithin
      exact absurd hAfter (not_lt.mpr hWithin)
  | cons v values ih =>
      have hSome : 0 < ⌈target - seen⌉₊ :=
        Nat.ceil_pos.mpr (sub_pos.mpr hAfter)
      rw [List.map_cons, percentileScan, List.flatMap_cons]
      by_cases hHere : target ≤ seen + (count v : 𝕜)
      · have hRank : ⌈target - seen⌉₊ ≤ count v := by
          rw [Nat.ceil_le]
          linarith
        rw [if_pos hHere,
          List.getD_append _ _ _ _ (by simp; omega)]
        rw [List.getD_replicate _ (by omega)]
      · rw [if_neg hHere]
        rw [not_le] at hHere
        have hCeil :
            ⌈target - (seen + (count v : 𝕜))⌉₊ =
              ⌈target - seen⌉₊ - count v := by
          rw [← sub_sub, Nat.ceil_sub_natCast]
        have hMore :
            0 < ⌈target - (seen + (count v : 𝕜))⌉₊ :=
          Nat.ceil_pos.mpr (sub_pos.mpr hHere)
        rw [ih hHere, hCeil,
          List.getD_append_right _ _ _ _ (by simp; omega)]
        · congr 1
          rw [List.length_replicate]
          omega
        · rw [List.map_cons, List.sum_cons] at hWithin
          push_cast at hWithin ⊢
          linarith

/- A sorted list is its distinct members, each repeated. -/
theorem flatMap_replicate_sorted
    (l : List 𝕜) :
    (l.dedup.insertionSort (· ≤ ·)).flatMap
        (fun v => List.replicate (l.count v) v) =
      l.insertionSort (· ≤ ·) := by
  have hDedup :
      (l.dedup.insertionSort (· ≤ ·)).Perm l.dedup :=
    List.perm_insertionSort _ _
  have hPerm :
      ((l.dedup.insertionSort (· ≤ ·)).flatMap
          (fun v => List.replicate (l.count v) v)).Perm l := by
    rw [List.perm_iff_count]
    intro x
    rw [List.count_flatMap,
      (hDedup.map (List.count x ∘ fun v =>
        List.replicate (l.count v) v)).sum_eq]
    have hCounts :
        (List.count x ∘ fun v =>
            List.replicate (l.count v) v) =
          fun v => if x = v then l.count v else 0 := by
      funext v
      rw [Function.comp_apply, List.count_replicate]
      by_cases hEq : x = v
      · simp [hEq]
      · simp [hEq, Ne.symm hEq]
    rw [hCounts, ← List.sum_toFinset _ l.nodup_dedup,
      Finset.sum_ite_eq]
    split
    · rfl
    · next hAbsent =>
        rw [List.mem_toFinset, List.mem_dedup] at hAbsent
        exact (List.count_eq_zero.mpr hAbsent).symm
  have hSorted :
      ((l.dedup.insertionSort (· ≤ ·)).flatMap
        (fun v =>
          List.replicate (l.count v) v)).Pairwise (· ≤ ·) := by
    rw [List.pairwise_flatMap]
    constructor
    · intro v _
      exact List.pairwise_replicate.mpr (Or.inr (le_refl v))
    · refine
        (List.pairwise_insertionSort (· ≤ ·) l.dedup).imp ?_
      intro v v' hLe x hX y hY
      rw [List.eq_of_mem_replicate hX,
        List.eq_of_mem_replicate hY]
      exact hLe
  exact
    (hPerm.trans
      (List.perm_insertionSort (· ≤ ·) l).symm).eq_of_pairwise'
        hSorted (List.pairwise_insertionSort (· ≤ ·) l)

/- The percentile of a distribution that counts a list. -/
theorem percentile_of_counts
    {counts : List (𝕜 × 𝕜)}
    {l : List 𝕜}
    (hCounts :
      (counts.filter (fun e => decide (0 < e.2))).Perm
        (l.dedup.map (fun v => (v, (l.count v : 𝕜)))))
    {q : 𝕜}
    (hPos : 0 < q)
    (hOne : q ≤ 1) :
    percentile counts q =
      ranked l (⌈q * l.length⌉₊ - 1) := by
  let values := l.dedup.insertionSort (· ≤ ·)
  have hValues : values.Perm l.dedup :=
    List.perm_insertionSort _ _
  have hSorted :
      (values.map (fun v => (v, (l.count v : 𝕜)))).Pairwise
        (fun a b => pairLe a b = true) := by
    rw [List.pairwise_map]
    have hBoth :=
      (List.pairwise_insertionSort (· ≤ ·) l.dedup).and
        (hValues.nodup_iff.mpr l.nodup_dedup)
    refine hBoth.imp ?_
    rintro v v' ⟨hLe, hNe⟩
    simp only [pairLe, decide_eq_true_eq]
    exact Or.inl (lt_of_le_of_ne hLe hNe)
  have hPairs :
      (counts.filter (fun e => decide (0 < e.2))).mergeSort
          pairLe =
        values.map (fun v => (v, (l.count v : 𝕜))) :=
    ((List.mergeSort_perm _ _).trans
      (hCounts.trans (hValues.map _).symm)).eq_of_pairwise
        (fun a b _ _ hFirst hSecond =>
          pairLe_antisymm hFirst hSecond)
        (List.pairwise_mergeSort pairLe_trans pairLe_total _)
        hSorted
  have hCount :
      (values.map l.count).sum = l.length := by
    rw [(hValues.map _).sum_eq]
    exact List.sum_map_count_dedup_eq_length l
  have hTotal :
      ((values.map (fun v => (v, (l.count v : 𝕜)))).map
          Prod.snd).sum =
        (l.length : 𝕜) := by
    rw [List.map_map, ← hCount, Nat.cast_list_sum,
      List.map_map]
    rfl
  unfold percentile
  simp only [hPairs, hTotal]
  rcases eq_or_ne l [] with rfl | hSome
  · simp [ranked]
  · have hN : 0 < l.length := List.length_pos_of_ne_nil hSome
    have hField : (0 : 𝕜) < l.length := by exact_mod_cast hN
    have hNotEmpty : values ≠ [] := by
      intro hNil
      have hLength := hValues.length_eq
      rw [hNil, List.length_nil] at hLength
      have hDedup :=
        List.length_eq_zero_iff.mp hLength.symm
      exact hSome ((List.dedup_eq_nil l).mp hDedup)
    have hTarget : q * l.length ≤ (l.length : 𝕜) := by
      nlinarith
    rw [if_neg (by
      rw [not_or, not_le, List.map_eq_nil_iff]
      exact ⟨hNotEmpty, hField⟩)]
    rw [percentileScan_replicate (mul_pos hPos hField)
      (by rw [hCount, zero_add]; exact hTarget)]
    have hRank : ⌈q * l.length⌉₊ ≤ l.length :=
      Nat.ceil_le.mpr hTarget
    rw [flatMap_replicate_sorted, sub_zero, ranked,
      min_eq_left (by omega)]

end Rank

------------------------------------------------------------
-- Running sums
------------------------------------------------------------

section Sums

variable {𝕜 : Type}
variable [Field 𝕜] [LinearOrder 𝕜]

/- The ratio of a running sum is the mean. -/
theorem safeDiv_eq_average (values : List 𝕜) :
    safeDiv values.sum (values.length : 𝕜) =
      average values := by
  simp [safeDiv, average]

/- The variance of running sums is that of the values. -/
theorem variance_eq_populationVariance
    [IsStrictOrderedRing 𝕜]
    (values : List 𝕜) :
    variance values.sum (values.map (fun x => x ^ 2)).sum
        (values.length : 𝕜) =
      Series.populationVariance values := by
  unfold variance
  rw [← Series.populationVariance_eq,
    max_eq_right (Series.populationVariance_nonneg _)]
  split
  · next hNone =>
      have hLength : values.length = 0 := by
        exact_mod_cast le_antisymm hNone (Nat.cast_nonneg _)
      rw [Series.populationVariance_of_length_le_one
        (by omega)]
  · rfl

end Sums

------------------------------------------------------------
-- What events add
------------------------------------------------------------

section Adds

variable {𝕜 : Type}
variable [Field 𝕜] [LinearOrder 𝕜] [FloorRing 𝕜]

/- An amount for a field, and nothing for the others. -/
def only
    (field : WindowField 𝕜)
    (amount : 𝕜)
    (k : WindowField 𝕜) : 𝕜 :=
  if k = field then amount else 0

theorem count_bump_only
    (inc : Tally (WindowField 𝕜) 𝕜)
    (field k : WindowField 𝕜)
    (amount : 𝕜) :
    (inc.bump field amount).count k =
      inc.count k + only field amount k := by
  unfold only
  rw [Tally.count_bump]
  by_cases hKey : k = field
  · simp [hKey]
  · simp [hKey]

/- What the addresses of an event add, and nothing else. -/
def envelope
    (event : RawEvent 𝕜) : Tally (WindowField 𝕜) 𝕜 :=
  let inc := Tally.empty
  let inc :=
    if event.dstIp = "" then inc
    else inc.bump (.dstIp event.dstIp) 1
  match event.dstPort with
  | none => inc
  | some port => inc.bump (.dstPort port) 1

/- A field that is not of the envelope. -/
def Measured : WindowField 𝕜 → Prop
  | .dstIp _ => False
  | .dstPort _ => False
  | _ => True

theorem count_envelope
    (event : RawEvent 𝕜)
    {k : WindowField 𝕜}
    (hMeasured : Measured k) :
    (envelope event).count k = 0 := by
  have hIp : ∀ ip, k ≠ .dstIp ip := by
    rintro ip rfl
    exact hMeasured
  have hPort : ∀ port, k ≠ .dstPort port := by
    rintro port rfl
    exact hMeasured
  have hDstIp :
      (if event.dstIp = "" then
          (Tally.empty : Tally (WindowField 𝕜) 𝕜)
        else Tally.empty.bump (.dstIp event.dstIp) 1).count k =
        0 := by
    split
    · exact Tally.count_empty k
    · rw [Tally.count_bump, if_neg (hIp _), Tally.count_empty]
  unfold envelope
  cases event.dstPort with
  | none => exact hDstIp
  | some port =>
      dsimp only
      rw [Tally.count_bump, if_neg (hPort port), hDstIp]

------------------------------------------------------------
-- What packets add
------------------------------------------------------------

/- What a measurement adds if it is present. -/
def ifPresent
    {α : Type}
    (value : Option α)
    (f : α → 𝕜) : 𝕜 :=
  (value.map f).getD 0

@[simp] theorem ifPresent_zero
    {α : Type}
    (value : Option α) :
    ifPresent value (fun _ => (0 : 𝕜)) = 0 := by
  cases value <;> rfl

theorem count_bumpPresent
    {inc : Tally (WindowField 𝕜) 𝕜}
    {value : Option 𝕜}
    {f : 𝕜 → Tally (WindowField 𝕜) 𝕜 →
      Tally (WindowField 𝕜) 𝕜}
    {k : WindowField 𝕜}
    {amount : 𝕜 → 𝕜}
    (hF :
      ∀ x inc, (f x inc).count k = inc.count k + amount x) :
    (bumpPresent inc value f).count k =
      inc.count k + ifPresent value amount := by
  cases value with
  | none => simp [bumpPresent, ifPresent]
  | some x => exact hF x inc

/- Flags are bumped under scalars of their own. -/
theorem count_foldl_flags
    {flags : List TcpFlag}
    {step :
      Tally (WindowField 𝕜) 𝕜 → TcpFlag →
        Tally (WindowField 𝕜) 𝕜}
    (hStep :
      ∀ inc flag, step inc flag = inc ∨
        ∃ amount,
          step inc flag = inc.bump (.scalar (.flag flag)) amount)
    {k : WindowField 𝕜}
    (hFlag : ∀ flag, k ≠ .scalar (.flag flag))
    (inc : Tally (WindowField 𝕜) 𝕜) :
    (flags.foldl step inc).count k = inc.count k := by
  induction flags generalizing inc with
  | nil => rfl
  | cons flag flags ih =>
      rw [List.foldl_cons, ih]
      rcases hStep inc flag with hSame | ⟨amount, hBump⟩
      · rw [hSame]
      · rw [hBump, Tally.count_bump, if_neg (hFlag flag)]

/- What the measurements of a packet add to a field. -/
def packetAdds
    (fields : PacketField → Option 𝕜)
    (k : WindowField 𝕜) : 𝕜 :=
  only (.scalar .nPackets) 1 k +
    only (.scalar .pktCount) 1 k +
    only (.scalar .bytesUp) ((fields .frameLen).getD 0) k +
    ifPresent (fields .ttl) (fun ttl =>
      only (.scalar .nTtl) 1 k +
        only (.scalar .ttlSum) ttl k +
        only (.scalar .ttlSq) (ttl * ttl) k) +
    ifPresent (fields .tcpWindow) (fun window =>
      only (.scalar .nTcpWindow) 1 k +
        only (.scalar .tcpWindowSum) window k +
        only (.tcpWindow (truncate window)) 1 k) +
    (if (fields .frag).getD 0 = 0 then 0
      else only (.scalar .fragCount) 1 k) +
    ifPresent (fields .tcpLen) (fun payload =>
      only (.scalar .nPayload) 1 k +
        only (.scalar .payloadSum) payload k +
        only (.scalar .payloadSq) (payload * payload) k +
        only (.payload (truncate payload)) 1 k) +
    (if (fields .retransmission).getD 0 = 0 then 0
      else only (.scalar .retransCount) 1 k)

theorem count_packetIncrements
    (inc : Tally (WindowField 𝕜) 𝕜)
    (fields : PacketField → Option 𝕜)
    {k : WindowField 𝕜}
    (hFlag : ∀ flag, k ≠ .scalar (.flag flag)) :
    (packetIncrements inc fields).count k =
      inc.count k + packetAdds fields k := by
  have hOptional :
      ∀ (keep : Prop) [Decidable keep]
        (inc : Tally (WindowField 𝕜) 𝕜) (name : Counter),
        (if keep then inc
            else inc.bump (.scalar name) 1).count k =
          inc.count k +
            if keep then 0 else only (.scalar name) 1 k := by
    intro keep _ inc name
    split
    · rw [add_zero]
    · exact count_bump_only inc (.scalar name) k 1
  have hTtl :
      ∀ (ttl : 𝕜) (inc : Tally (WindowField 𝕜) 𝕜),
        (((inc.bump (.scalar .nTtl) 1).bump
              (.scalar .ttlSum) ttl).bump
            (.scalar .ttlSq) (ttl * ttl)).count k =
          inc.count k +
            (only (.scalar .nTtl) 1 k +
              only (.scalar .ttlSum) ttl k +
              only (.scalar .ttlSq) (ttl * ttl) k) := by
    intro ttl inc
    simp only [count_bump_only, add_assoc]
  have hWindow :
      ∀ (window : 𝕜) (inc : Tally (WindowField 𝕜) 𝕜),
        (((inc.bump (.scalar .nTcpWindow) 1).bump
              (.scalar .tcpWindowSum) window).bump
            (.tcpWindow (truncate window)) 1).count k =
          inc.count k +
            (only (.scalar .nTcpWindow) 1 k +
              only (.scalar .tcpWindowSum) window k +
              only (.tcpWindow (truncate window)) 1 k) := by
    intro window inc
    simp only [count_bump_only, add_assoc]
  have hPayload :
      ∀ (payload : 𝕜) (inc : Tally (WindowField 𝕜) 𝕜),
        ((((inc.bump (.scalar .nPayload) 1).bump
                (.scalar .payloadSum) payload).bump
              (.scalar .payloadSq) (payload * payload)).bump
            (.payload (truncate payload)) 1).count k =
          inc.count k +
            (only (.scalar .nPayload) 1 k +
              only (.scalar .payloadSum) payload k +
              only (.scalar .payloadSq)
                (payload * payload) k +
              only (.payload (truncate payload)) 1 k) := by
    intro payload inc
    simp only [count_bump_only, add_assoc]
  unfold packetIncrements packetAdds
  simp only
  rw [hOptional, count_bumpPresent hPayload, hOptional,
    count_bumpPresent hWindow, count_bumpPresent hTtl,
    count_bump_only, count_foldl_flags _ hFlag,
    count_bump_only, count_bump_only]
  · simp only [add_assoc]
  · intro inc flag
    split
    · exact Or.inl rfl
    · exact Or.inr ⟨_, rfl⟩

/- A field that is no flag and not of the envelope. -/
def Plain : WindowField 𝕜 → Prop
  | .scalar (.flag _) => False
  | .dstIp _ => False
  | .dstPort _ => False
  | _ => True

/- What a packet event adds to a plain field. -/
theorem count_eventIncrements
    {event : RawEvent 𝕜}
    {fields : PacketField → Option 𝕜}
    (hPacket : event.measurements = .packet fields)
    {k : WindowField 𝕜}
    (hPlain : Plain k) :
    (eventIncrements event).count k = packetAdds fields k := by
  have hFlag : ∀ flag, k ≠ .scalar (.flag flag) := by
    rintro flag rfl
    exact hPlain
  have hMeasured : Measured k := by
    cases k with
    | scalar name => exact trivial
    | dstIp ip => exact hPlain
    | dstPort port => exact hPlain
    | tcpWindow size => exact trivial
    | payload size => exact trivial
    | flowIatMax value => exact trivial
  have hEvent :
      eventIncrements event =
        packetIncrements (envelope event) fields := by
    unfold eventIncrements
    rw [hPacket]
    rfl
  rw [hEvent, count_packetIncrements _ _ hFlag,
    count_envelope event hMeasured, zero_add]

------------------------------------------------------------
-- What flows add
------------------------------------------------------------

/- What the measurements of a flow add to a field. -/
def flowAdds
    (fields : FlowField → 𝕜)
    (k : WindowField 𝕜) : 𝕜 :=
  let packets := fields .pktsFwd + fields .pktsBwd
  only (.scalar .nFlows) 1 k +
    only (.scalar .pktCount) packets k +
    only (.scalar .flowPkts) packets k +
    (TcpFlag.all.map (fun flag =>
      only (.scalar (.flag flag))
        (fields (.flagCount flag)) k)).sum +
    only (.scalar .bytesUp) (fields .bytesFwd) k +
    only (.scalar .bytesDown) (fields .bytesBwd) k +
    only (.scalar .durSum) (fields .duration) k +
    only (.scalar .durSq)
      (fields .duration * fields .duration) k +
    only (.scalar .iatSum) (fields .iatMean) k +
    only (.scalar .iatSq)
      (fields .iatMean * fields .iatMean) k +
    only (.flowIatMax (roundTo 6 (fields .iatMax))) 1 k

/- A flag that was not seen is not counted, and adds nothing. -/
theorem count_foldl_flagCounts
    (amount : TcpFlag → 𝕜)
    (k : WindowField 𝕜)
    (flags : List TcpFlag)
    (inc : Tally (WindowField 𝕜) 𝕜) :
    (flags.foldl
        (fun inc flag =>
          if amount flag = 0 then inc
          else inc.bump (.scalar (.flag flag)) (amount flag))
        inc).count k =
      inc.count k +
        (flags.map (fun flag =>
          only (.scalar (.flag flag)) (amount flag) k)).sum := by
  induction flags generalizing inc with
  | nil => simp
  | cons flag flags ih =>
      rw [List.foldl_cons, ih, List.map_cons, List.sum_cons,
        ← add_assoc]
      congr 1
      split
      · next hNone => simp [only, hNone]
      · exact count_bump_only _ _ _ _

/- What a flow event adds to a field of no envelope. -/
theorem count_flowEvent
    {event : RawEvent 𝕜}
    {fields : FlowField → 𝕜}
    (hFlow :
      event.measurements = .flow (fun f => some (fields f)))
    {k : WindowField 𝕜}
    (hMeasured : Measured k) :
    (eventIncrements event).count k = flowAdds fields k := by
  have hEvent :
      eventIncrements event =
        flowIncrements (envelope event)
          (fun f => some (fields f)) := by
    unfold eventIncrements
    rw [hFlow]
    rfl
  rw [hEvent]
  unfold flowIncrements flowAdds
  simp only [Option.getD_some, count_bump_only,
    count_foldl_flagCounts, count_envelope event hMeasured,
    zero_add]

------------------------------------------------------------
-- What a hash holds
------------------------------------------------------------

/- A window's scalars are the fields of its hash. -/
theorem get_fromHash
    (hash : Tally (WindowField 𝕜) 𝕜)
    (name : Counter) :
    (WindowAccumulator.fromHash hash).get name =
      hash.count (.scalar name) := by
  have hLookup :=
    WindowAccumulator.lookup_fromHash hash (.scalar name)
  unfold WindowAccumulator.get
  rw [Tally.count_eq_lookup, Tally.count_eq_lookup, ← hLookup]
  rfl

theorem count_tcpWindow_fromHash
    (hash : Tally (WindowField 𝕜) 𝕜)
    (size : ℤ) :
    (WindowAccumulator.fromHash hash).tcpWindow.count size =
      hash.count (.tcpWindow size) := by
  have hLookup :=
    WindowAccumulator.lookup_fromHash hash (.tcpWindow size)
  rw [Tally.count_eq_lookup, Tally.count_eq_lookup, ← hLookup]
  rfl

theorem count_payload_fromHash
    (hash : Tally (WindowField 𝕜) 𝕜)
    (size : ℤ) :
    (WindowAccumulator.fromHash hash).payload.count size =
      hash.count (.payload size) := by
  have hLookup :=
    WindowAccumulator.lookup_fromHash hash (.payload size)
  rw [Tally.count_eq_lookup, Tally.count_eq_lookup, ← hLookup]
  rfl

theorem count_flowIatMax_fromHash
    (hash : Tally (WindowField 𝕜) 𝕜)
    (value : 𝕜) :
    (WindowAccumulator.fromHash hash).flowIatMax.count value =
      hash.count (.flowIatMax value) := by
  have hLookup :=
    WindowAccumulator.lookup_fromHash hash (.flowIatMax value)
  rw [Tally.count_eq_lookup, Tally.count_eq_lookup, ← hLookup]
  rfl

end Adds

end Features

end Nidra
