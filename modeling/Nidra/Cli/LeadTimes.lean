import Nidra.Cli.Forecast
import Nidra.Evaluation.EpisodeMetrics

/-
  This file proves when the lead-time report of the forecast
  command is the benchmark's: the command takes the earliest
  run of alerts in all of the host's history, the benchmark
  the earliest one in the run-up of the onset.

  Key definitions include:
    * `AlertSeries`
    * `scoredOrigins`
    * `EntriesAgree`, `ReportsAgree`
    * `InSpan`
    * `FirstRunInSpan`

  Main declarations:
    * `preOnsetRows_scoredOrigins`
    * `entriesAgree_iff`
    * `reportsAgree_iff`
-/

namespace Nidra

namespace Cli

open Data
open Evaluation

------------------------------------------------------------
-- The Same Origins in Both
------------------------------------------------------------

/- The alerts of a table's origins, each origin once. -/
structure AlertSeries where
  alerts : List Alert
  distinct :
    (alerts.map (fun a => (a.hostId, a.originTs))).Nodup

/- The pre-onset span of the benchmark, in minutes. -/
def preOnsetMinutes : ℕ := 30

/- An alert as a row of the evaluation set. -/
def scoredOrigin
    (table : List StateRow)
    (windowSeconds : ℤ)
    (a : Alert) : ScoredOrigin :=
  let geo :=
    episodeGeometry table windowSeconds mergeGapWindows
      a.hostId a.originTs
  { hostId := a.hostId
    originTs := a.originTs
    episodeKey := geo.key
    insideEpisode := geo.inside
    score := if a.above then 1 else 0 }

def scoredOrigins
    (table : List StateRow)
    (windowSeconds : ℤ)
    (alerts : List Alert) : List ScoredOrigin :=
  alerts.map (scoredOrigin table windowSeconds)

/- The two reports say the same of one episode. -/
def EntriesAgree
    (entry : LeadTimeEntry)
    (row : EpisodeReport) : Prop :=
  entry.warnedBeforeOnset.getD false = row.warnedPreOnset ∧
    entry.leadTimeS = row.leadTimeS

instance EntriesAgree.decidable
    (entry : LeadTimeEntry)
    (row : EpisodeReport) :
    Decidable (EntriesAgree entry row) :=
  inferInstanceAs (Decidable (_ ∧ _))

/-
  The two reports say the same of every episode that both
  report.
-/
def ReportsAgree
    (table : List StateRow)
    (windowSeconds : ℤ)
    (m : ℕ)
    (alerts : List Alert) : Prop :=
  ∀ entry ∈
      (leadTimeReport table alerts windowSeconds m).episodes,
    ∀ row ∈
        (perEpisodeReport
          (scoredOrigins table windowSeconds alerts) 1 m
          preOnsetMinutes).episodes,
      row.episode.hostId = entry.hostId →
        row.episode.startTs = entry.onsetTs →
          EntriesAgree entry row

------------------------------------------------------------
-- The Condition
------------------------------------------------------------

/-
  The window lies in the run-up of the episode, and within
  the pre-onset span.
-/
def InSpan
    (table : List StateRow)
    (windowSeconds : ℤ)
    (ep : MergedEpisode)
    (t : ℤ) : Prop :=
  InRunUp
      (hostEpisodes table windowSeconds mergeGapWindows
        ep.hostId) ep t ∧
    ep.startTs - preOnsetMinutes * 60 ≤ t

instance InSpan.decidable
    (table : List StateRow)
    (windowSeconds : ℤ)
    (ep : MergedEpisode)
    (t : ℤ) :
    Decidable (InSpan table windowSeconds ep t) := by
  unfold InSpan InRunUp
  infer_instance

/-
  The earliest `m` consecutive alerts of the host that are
  complete by the end of the episode, if there are any, all
  lie in its span.
-/
def FirstRunInSpan
    (table : List StateRow)
    (windowSeconds : ℤ)
    (m : ℕ)
    (alerts : List Alert)
    (ep : MergedEpisode) : Prop :=
  ∀ i,
    IsFirstRun m Alert.above
        (fun a => a.originTs ≤ ep.endTs)
        (hostAlerts alerts ep.hostId) i →
      ∀ k < m, ∀ a ∈ (hostAlerts alerts ep.hostId)[i + k]?,
        InSpan table windowSeconds ep a.originTs

/- Some origin lies in the episode, or in its run-up. -/
def Reported
    (table : List StateRow)
    (windowSeconds : ℤ)
    (alerts : List Alert)
    (ep : MergedEpisode) : Prop :=
  ∃ a ∈ alerts,
    a.hostId = ep.hostId ∧
      (episodeGeometry table windowSeconds mergeGapWindows
        a.hostId a.originTs).key = some ep.episodeKey

------------------------------------------------------------
-- The Rows of the Benchmark
------------------------------------------------------------

section Benchmark

variable {table : List StateRow}
variable {windowSeconds : ℤ}
variable {alerts : List Alert}
variable {ep : MergedEpisode}

def inSpan
    (table : List StateRow)
    (windowSeconds : ℤ)
    (ep : MergedEpisode)
    (a : Alert) : Bool :=
  InSpan table windowSeconds ep a.originTs

/- The host's alerts in the span, as the benchmark sees them. -/
def spanAlerts
    (table : List StateRow)
    (windowSeconds : ℤ)
    (alerts : List Alert)
    (ep : MergedEpisode) : List Alert :=
  (hostAlerts alerts ep.hostId).filter
    (inSpan table windowSeconds ep)

/-
  The pre-onset rows of the benchmark are the host's alerts
  in the span.
-/
theorem preOnsetRows_scoredOrigins
    (hEp :
      ep ∈ mergeEpisodes table windowSeconds mergeGapWindows) :
    preOnsetRows (scoredOrigins table windowSeconds alerts)
        ep.episodeKey preOnsetMinutes =
      (spanAlerts table windowSeconds alerts ep).map
        (scoredOrigin table windowSeconds) := by
  unfold preOnsetRows episodeRows scoredOrigins spanAlerts
    hostAlerts
  rw [List.filter_map, sortByKey_map, List.filter_map]
  congr 1
  have hSame :
      (fun a : Alert =>
          (scoredOrigin table windowSeconds a).originTs) =
        Alert.originTs := rfl
  rw [hSame, ← sortByKey_filter, ← sortByKey_filter,
    List.filter_filter, List.filter_filter]
  apply List.filter_congr
  intro a _
  rw [Bool.eq_iff_iff]
  simp only [Function.comp_apply, Bool.and_eq_true,
    ScoredOrigin.isPreOnset, inSpan, decide_eq_true_iff]
  constructor
  · rintro ⟨⟨hBefore, hLate⟩, hKey, hHost⟩
    have hSameHost : a.hostId = ep.hostId := hHost
    have hRunUp := episodeGeometry_key hEp hBefore
    rw [← hSameHost] at hRunUp
    exact ⟨⟨hSameHost ▸ hRunUp.mp hKey, hLate⟩, hSameHost⟩
  · rintro ⟨⟨hRunUp, hLate⟩, hHost⟩
    have hKey := (episodeGeometry_key hEp hRunUp.1).mpr hRunUp
    rw [← hHost] at hKey
    exact ⟨⟨hRunUp.1, hLate⟩, hKey, hHost⟩

/- The host's alerts come at distinct, growing times. -/
theorem hostAlerts_sorted
    (hDistinct :
      (alerts.map (fun a => (a.hostId, a.originTs))).Nodup)
    (hostId : String) :
    (hostAlerts alerts hostId).Pairwise
      (fun a b => a.originTs < b.originTs) := by
  apply sortByKey_pairwise_lt
  have hPairs :
      alerts.Pairwise
        (fun a b =>
          (a.hostId, a.originTs) ≠ (b.hostId, b.originTs)) :=
    List.pairwise_map.mp hDistinct
  have hHost :
      (alerts.filter (fun a => a.hostId = hostId)).Pairwise
        (fun a b => a.originTs ≠ b.originTs) := by
    refine (hPairs.filter _).imp_of_mem ?_
    intro a b hA hB hNe hTs
    have hHostA := of_decide_eq_true (List.mem_filter.mp hA).2
    have hHostB := of_decide_eq_true (List.mem_filter.mp hB).2
    exact hNe (by rw [hHostA, hHostB, hTs])
  exact List.pairwise_map.mpr hHost

variable (table windowSeconds ep) in
/- The span of an episode is a stretch of the alerts. -/
theorem exists_span_in_origins
    (hDistinct :
      (alerts.map (fun a => (a.hostId, a.originTs))).Nodup) :
    ∃ before after,
      hostAlerts alerts ep.hostId =
        before ++ spanAlerts table windowSeconds alerts ep ++
          after := by
  have hSorted := hostAlerts_sorted hDistinct ep.hostId
  apply exists_infix_filter
  intro a b c hSub hA hC
  have hOrder := hSorted.sublist hSub
  have hAB : a.originTs < b.originTs :=
    List.rel_of_pairwise_cons hOrder (by simp)
  have hBC : b.originTs < c.originTs :=
    List.rel_of_pairwise_cons hOrder.tail (by simp)
  rw [inSpan, decide_eq_true_iff] at hA hC ⊢
  rcases hA with ⟨⟨_, hRunUp⟩, hLate⟩
  rcases hC with ⟨⟨hBefore, hRunUpC⟩, _⟩
  refine ⟨⟨by omega, ?_⟩, by omega⟩
  intro e hE
  rcases hRunUp e hE with ⟨hOut, hNone⟩
  rcases hRunUpC e hE with ⟨hOutC, _⟩
  unfold Episode.Contains at hOut hOutC ⊢
  constructor
  · rintro ⟨hStart, hEnd⟩
    by_cases hAfter : a.originTs < e.startTs
    · exact hNone ⟨hAfter, by omega⟩
    · exact hOut ⟨by omega, by omega⟩
  · rintro ⟨hAfter, hLt⟩
    exact hNone ⟨by omega, hLt⟩

end Benchmark

------------------------------------------------------------
-- One Episode
------------------------------------------------------------

section OneEpisode

variable {table : List StateRow}
variable {windowSeconds : ℤ}
variable {m : ℕ}
variable {alerts : List Alert}
variable {ep : MergedEpisode}

/- Distinct times tell the places of the alerts. -/
theorem place_of_time
    {l : List Alert}
    (hSorted :
      l.Pairwise (fun a b => a.originTs < b.originTs))
    {i j : ℕ}
    {a b : Alert}
    (hI : l[i]? = some a)
    (hJ : l[j]? = some b)
    (hTs : a.originTs = b.originTs) :
    i = j := by
  rcases List.getElem?_eq_some_iff.mp hI with ⟨hLtI, rfl⟩
  rcases List.getElem?_eq_some_iff.mp hJ with ⟨hLtJ, rfl⟩
  rw [List.pairwise_iff_getElem] at hSorted
  rcases lt_trichotomy i j with hLt | hEq | hGt
  · have hBefore := hSorted i j hLtI hLtJ hLt
    omega
  · exact hEq
  · have hBefore := hSorted j i hLtJ hLtI hGt
    omega

/- The alerts of a stretch, as alerts of the whole. -/
theorem getElem?_span
    {whole before span after : List Alert}
    (hSplit : whole = before ++ span ++ after)
    {k : ℕ}
    {a : Alert}
    (hAt : span[k]? = some a) :
    whole[before.length + k]? = some a := by
  rcases List.getElem?_eq_some_iff.mp hAt with ⟨hLt, _⟩
  rw [hSplit, List.append_assoc,
    List.getElem?_append_right (Nat.le_add_right _ _),
    Nat.add_sub_cancel_left,
    List.getElem?_append_left hLt]
  exact hAt

/- A run in a stretch is a run of the whole. -/
theorem isRun_of_span
    {before span after : List Alert}
    (hSplit :
      hostAlerts alerts ep.hostId = before ++ span ++ after)
    (hEnds : ∀ a ∈ span, a.originTs ≤ ep.endTs)
    (hM : 0 < m)
    {j : ℕ}
    (hRun : IsRun m Alert.above (fun _ => true) span j) :
    IsRun m Alert.above (fun a => a.originTs ≤ ep.endTs)
      (hostAlerts alerts ep.hostId) (before.length + j) := by
  rcases hRun with ⟨hHits, ⟨a, hLast, _⟩⟩
  refine ⟨?_, ⟨a, ?_, ?_⟩⟩
  · intro k hK
    rcases hHits k hK with ⟨b, hB, hAbove⟩
    refine ⟨b, ?_, hAbove⟩
    rw [Nat.add_assoc]
    exact getElem?_span hSplit hB
  · have hPlace :
        before.length + j + m - 1 =
          before.length + (j + m - 1) := by
      omega
    rw [hPlace]
    exact getElem?_span hSplit hLast
  · exact decide_eq_true
      (hEnds a (List.mem_of_getElem? hLast))

/- A run of the whole that lies in the stretch is one of it. -/
theorem isRun_span_of
    {before span after : List Alert}
    (hSplit :
      hostAlerts alerts ep.hostId = before ++ span ++ after)
    (hM : 0 < m)
    {i j : ℕ}
    (hPlace : i = before.length + j)
    (hFits : j + m ≤ span.length)
    (hRun :
      IsRun m Alert.above (fun a => a.originTs ≤ ep.endTs)
        (hostAlerts alerts ep.hostId) i) :
    IsRun m Alert.above (fun _ => true) span j := by
  have hAt :
      ∀ k < span.length,
        span[k]? =
          (hostAlerts alerts ep.hostId)[before.length + k]? := by
    intro k hK
    rw [hSplit, List.append_assoc,
      List.getElem?_append_right (Nat.le_add_right _ _),
      Nat.add_sub_cancel_left,
      List.getElem?_append_left hK]
  subst hPlace
  rcases hRun with ⟨hHits, ⟨a, hLast, _⟩⟩
  refine ⟨?_, ⟨a, ?_, rfl⟩⟩
  · intro k hK
    rcases hHits k hK with ⟨b, hB, hAbove⟩
    refine ⟨b, ?_, hAbove⟩
    rw [hAt (j + k) (by omega), ← Nat.add_assoc]
    exact hB
  · rw [hAt (j + m - 1) (by omega)]
    have hSame :
        before.length + (j + m - 1) =
          before.length + j + m - 1 := by
      omega
    rw [hSame]
    exact hLast

/- Alerts in the span stand in its stretch. -/
theorem span_bounds
    {before after : List Alert}
    (hSplit :
      hostAlerts alerts ep.hostId =
        before ++ spanAlerts table windowSeconds alerts ep ++
          after)
    {n : ℕ}
    {a : Alert}
    (hAt : (hostAlerts alerts ep.hostId)[n]? = some a)
    (hIn : InSpan table windowSeconds ep a.originTs) :
    before.length ≤ n ∧
      n < before.length +
        (spanAlerts table windowSeconds alerts ep).length := by
  have hLengths :=
    congrArg
      (fun l => (l.filter (inSpan table windowSeconds ep)).length)
      hSplit
  have hSelf :
      (spanAlerts table windowSeconds alerts ep).filter
          (inSpan table windowSeconds ep) =
        spanAlerts table windowSeconds alerts ep := by
    unfold spanAlerts
    rw [List.filter_filter]
    simp only [Bool.and_self]
  have hSpan :
      (hostAlerts alerts ep.hostId).filter
          (inSpan table windowSeconds ep) =
        spanAlerts table windowSeconds alerts ep := rfl
  simp only [List.filter_append, hSelf, hSpan,
    List.length_append] at hLengths
  -- Nothing before or after the stretch is in the span.
  have hNoneBefore :
      (before.filter
        (inSpan table windowSeconds ep)).length = 0 := by
    omega
  have hNoneAfter :
      (after.filter
        (inSpan table windowSeconds ep)).length = 0 := by
    omega
  have hBefore :=
    List.filter_eq_nil_iff.mp
      (List.length_eq_zero_iff.mp hNoneBefore)
  have hAfter :=
    List.filter_eq_nil_iff.mp
      (List.length_eq_zero_iff.mp hNoneAfter)
  rw [hSplit] at hAt
  constructor
  · by_contra hEarly
    rw [List.append_assoc,
      List.getElem?_append_left (by omega)] at hAt
    exact hBefore a (List.mem_of_getElem? hAt)
      (decide_eq_true hIn)
  · by_contra hLate
    rw [List.getElem?_append_right (by simp; omega)] at hAt
    exact hAfter a (List.mem_of_getElem? hAt)
      (decide_eq_true hIn)

/- The benchmark's run, in terms of the host's alerts. -/
theorem firstHitRun_preOnset
    (hEp :
      ep ∈ mergeEpisodes table windowSeconds mergeGapWindows)
    (m : ℕ) :
    firstHitRun
        (preOnsetRows
          (scoredOrigins table windowSeconds alerts)
          ep.episodeKey preOnsetMinutes) 1 m =
      ((firstRun m Alert.above (fun _ => true)
          (spanAlerts table windowSeconds alerts ep)).bind
        (fun j =>
          (spanAlerts table windowSeconds alerts ep)[j]?)).map
        (scoredOrigin table windowSeconds) := by
  have hHit :
      (fun a : Alert =>
          decide
            (1 ≤ (scoredOrigin table windowSeconds a).score)) =
        Alert.above := by
    funext a
    cases hAbove : a.above with
    | true => simp [scoredOrigin, hAbove]
    | false => simp [scoredOrigin, hAbove]
  unfold firstHitRun
  rw [preOnsetRows_scoredOrigins hEp]
  unfold firstRun
  rw [firstRunFrom_map, hHit]
  cases firstRunFrom m Alert.above (fun _ => true) 0 0
    (spanAlerts table windowSeconds alerts ep) with
  | none => rfl
  | some j => simp

theorem start_le_end_of_merged
    (hEp :
      ep ∈ mergeEpisodes table windowSeconds mergeGapWindows) :
    ep.startTs ≤ ep.endTs :=
  ((attackRuns_inOrder table ep.hostId).mergeNear _).proper _
    (exists_merged_of_mem (mem_hostEpisodes.mpr ⟨hEp, rfl⟩))

/-
  For one episode the reports agree exactly when the earliest
  run of alerts that the command finds lies in the span.
-/
theorem entriesAgree_iff
    (hDistinct :
      (alerts.map (fun a => (a.hostId, a.originTs))).Nodup)
    (hM : 0 < m)
    (hEp :
      ep ∈ mergeEpisodes table windowSeconds mergeGapWindows) :
    EntriesAgree (leadTimeEntry alerts m ep)
        (episodeReport
          (scoredOrigins table windowSeconds alerts) 1 m
          preOnsetMinutes ep.episodeKey) ↔
      FirstRunInSpan table windowSeconds m alerts ep := by
  rcases exists_span_in_origins table windowSeconds ep hDistinct
    with ⟨before, after, hSplit⟩
  have hSorted := hostAlerts_sorted hDistinct ep.hostId
  have hEnds :
      ∀ a ∈ spanAlerts table windowSeconds alerts ep,
        a.originTs ≤ ep.endTs := by
    intro a hA
    have hIn := of_decide_eq_true (List.mem_filter.mp hA).2
    exact hIn.1.1.le.trans (start_le_end_of_merged hEp)
  unfold EntriesAgree episodeReport leadTimeEntry firstAlert
  simp only [firstHitRun_preOnset hEp]
  cases hFirst :
      firstRun m Alert.above
        (fun a => a.originTs ≤ ep.endTs)
        (hostAlerts alerts ep.hostId) with
  | none =>
      -- Without a run in the history there is none in the span.
      have hNone := (firstRun_eq_none_iff hM).mp hFirst
      have hSpan :
          firstRun m Alert.above (fun _ => true)
            (spanAlerts table windowSeconds alerts ep) =
              none := by
        rw [firstRun_eq_none_iff hM]
        intro j hRun
        exact hNone _ (isRun_of_span hSplit hEnds hM hRun)
      rw [hSpan]
      constructor
      · intro _ i hRun
        exact absurd hRun.1 (hNone i)
      · intro _
        exact ⟨rfl, rfl⟩
  | some i =>
      have hRun := (firstRun_eq_some_iff hM).mp hFirst
      rcases hRun.1.1 0 hM with ⟨a, hAt, _⟩
      rw [Nat.add_zero] at hAt
      simp only [Option.bind_eq_bind, Option.bind_some, hAt,
        Option.map_some, Option.getD_some]
      constructor
      · rintro ⟨_, hLead⟩ i' hRun' k hK b hB
        have hSame : i' = i := by
          have hOther := (firstRun_eq_some_iff hM).mpr hRun'
          rw [hFirst, Option.some.injEq] at hOther
          exact hOther.symm
        subst hSame
        -- The benchmark's run begins at the same alert.
        have hFound :
            ∃ j c,
              firstRun m Alert.above (fun _ => true)
                  (spanAlerts table windowSeconds alerts ep) =
                some j ∧
              (spanAlerts table windowSeconds alerts ep)[j]? =
                some c ∧
              c.originTs = a.originTs := by
          cases hBench :
              firstRun m Alert.above (fun _ => true)
                (spanAlerts table windowSeconds alerts ep) with
          | none => simp [hBench] at hLead
          | some j =>
              cases hC :
                  (spanAlerts table windowSeconds alerts
                    ep)[j]? with
              | none => simp [hBench, hC] at hLead
              | some c =>
                  refine ⟨j, c, rfl, hC, ?_⟩
                  simp only [hBench, Option.bind_some, hC,
                    Option.map_some, Option.some.injEq,
                    scoredOrigin,
                    MergedEpisode.episodeKey] at hLead
                  omega
        rcases hFound with ⟨j, c, hBench, hC, hTs⟩
        have hBenchRun :=
          ((firstRun_eq_some_iff hM).mp hBench).1
        have hPlace : i' = before.length + j :=
          place_of_time hSorted hAt (getElem?_span hSplit hC)
            hTs.symm
        rcases hBenchRun.1 k hK with ⟨c', hC', _⟩
        have hOther := getElem?_span hSplit hC'
        rw [← Nat.add_assoc, ← hPlace, hB,
          Option.some.injEq] at hOther
        rw [hOther]
        exact of_decide_eq_true
          (List.mem_filter.mp (List.mem_of_getElem? hC')).2
      · intro hSpan
        have hInAll := hSpan i hRun
        have hIn : InSpan table windowSeconds ep a.originTs :=
          hInAll 0 hM a (by rwa [Nat.add_zero])
        rcases hRun.1.1 (m - 1) (by omega) with
          ⟨last, hLast, _⟩
        have hFirstBounds := span_bounds hSplit hAt hIn
        have hLastBounds :=
          span_bounds hSplit hLast
            (hInAll (m - 1) (by omega) last hLast)
        -- The run lies in the stretch, and is its first.
        have hPlace : i = before.length + (i - before.length) := by
          omega
        have hBench :
            firstRun m Alert.above (fun _ => true)
                (spanAlerts table windowSeconds alerts ep) =
              some (i - before.length) := by
          rw [firstRun_eq_some_iff hM]
          refine ⟨isRun_span_of hSplit hM hPlace (by omega)
            hRun.1, ?_⟩
          intro j hJ hEarlier
          exact hRun.2 (before.length + j) (by omega)
            (isRun_of_span hSplit hEnds hM hEarlier)
        have hSame :
            (spanAlerts table windowSeconds alerts
                ep)[i - before.length]? = some a := by
          have hSome :
              (spanAlerts table windowSeconds alerts
                ep)[i - before.length]?.isSome := by
            rw [isSome_getElem?]
            omega
          rcases Option.isSome_iff_exists.mp hSome with
            ⟨b, hB⟩
          have hWhole := getElem?_span hSplit hB
          rw [← hPlace, hAt, Option.some.injEq] at hWhole
          rw [hB, hWhole]
        rw [hBench, Option.bind_some, hSame]
        exact ⟨decide_eq_true hIn.1.1, rfl⟩

end OneEpisode

------------------------------------------------------------
-- The Reports
------------------------------------------------------------

/- The benchmark reports the episodes some origin is keyed to. -/
theorem mem_episodes_iff
    {table : List StateRow}
    {windowSeconds : ℤ}
    {alerts : List Alert}
    {threshold : ℚ}
    {m minutes : ℕ}
    {row : EpisodeReport} :
    row ∈ (perEpisodeReport
        (scoredOrigins table windowSeconds alerts) threshold m
        minutes).episodes ↔
      ∃ key,
        (∃ a ∈ alerts,
          a.hostId = key.hostId ∧
            (episodeGeometry table windowSeconds
              mergeGapWindows a.hostId a.originTs).key =
                some key) ∧
        row =
          episodeReport
            (scoredOrigins table windowSeconds alerts)
            threshold m minutes key := by
  have hRows :
      ∀ key,
        (episodeRows (scoredOrigins table windowSeconds alerts)
            key).isEmpty = false ↔
          ∃ a ∈ alerts,
            a.hostId = key.hostId ∧
              (episodeGeometry table windowSeconds
                mergeGapWindows a.hostId a.originTs).key =
                  some key := by
    intro key
    rw [List.isEmpty_eq_false_iff_exists_mem]
    unfold episodeRows scoredOrigins
    simp only [mem_sortByKey, List.mem_filter, List.mem_map,
      decide_eq_true_iff]
    constructor
    · rintro ⟨r, ⟨a, hA, rfl⟩, hKey, hHost⟩
      exact ⟨a, hA, hHost, hKey⟩
    · rintro ⟨a, hA, hHost, hKey⟩
      exact ⟨_, ⟨a, hA, rfl⟩, hKey, hHost⟩
  unfold perEpisodeReport
  simp only [List.mem_map, List.mem_filter, Bool.not_eq_true',
    hRows]
  constructor
  · rintro ⟨key, ⟨_, hReported⟩, rfl⟩
    exact ⟨key, hReported, rfl⟩
  · rintro ⟨key, hReported, rfl⟩
    refine ⟨key, ⟨?_, hReported⟩, rfl⟩
    rcases hReported with ⟨a, hA, _, hKey⟩
    unfold reportedKeys
    rw [mem_sortByKey, List.mem_eraseDups, List.mem_filterMap]
    exact ⟨_, List.mem_map_of_mem hA, hKey⟩

/-
  The command's lead-time report is the benchmark's exactly
  when, for every episode that the benchmark reports, the
  earliest run of alerts complete by its end lies in its
  span.
-/
theorem reportsAgree_iff
    (table : List StateRow)
    (windowSeconds : ℤ)
    (m : ℕ+)
    (series : AlertSeries) :
    ReportsAgree table windowSeconds m series.alerts ↔
      ∀ ep ∈ mergeEpisodes table windowSeconds mergeGapWindows,
        Reported table windowSeconds series.alerts ep →
          FirstRunInSpan table windowSeconds m series.alerts
            ep := by
  have hM : 0 < (m : ℕ) := m.pos
  constructor
  · intro hAgree ep hEp hReported
    rw [← entriesAgree_iff series.distinct hM hEp]
    apply hAgree _ (List.mem_map_of_mem hEp) _ _ rfl rfl
    rw [mem_episodes_iff]
    exact ⟨ep.episodeKey, hReported, rfl⟩
  · intro hSpans entry hEntry row hRow hHost hStart
    rcases List.mem_map.mp hEntry with ⟨ep, hEp, rfl⟩
    rcases mem_episodes_iff.mp hRow with
      ⟨key, hReported, rfl⟩
    have hKey : key = ep.episodeKey := by
      cases key with
      | mk hostId startTs =>
          have hHosts : hostId = ep.hostId := hHost
          have hStarts : startTs = ep.startTs := hStart
          rw [hHosts, hStarts]
          rfl
    subst hKey
    rw [entriesAgree_iff series.distinct hM hEp]
    exact hSpans ep hEp hReported

/-
  An hour of one host that is attacked in its last minute.
-/
def quietHour : List StateRow :=
  (List.range 61).map
    (fun i =>
      silentRow "10.0.0.1" (60 * i)
        (if i = 60 then .c2 else .benign))

/- Alerts in the minutes 5 and 6, and in the last two before. -/
def earlyAlerts : AlertSeries :=
  { alerts :=
      (List.range 61).map
        (fun i =>
          { hostId := "10.0.0.1"
            originTs := 60 * i
            above := i = 5 ∨ i = 6 ∨ i = 58 ∨ i = 59 })
    distinct := by decide +kernel }

instance ReportsAgree.decidable
    (table : List StateRow)
    (windowSeconds : ℤ)
    (m : ℕ)
    (alerts : List Alert) :
    Decidable (ReportsAgree table windowSeconds m alerts) :=
  inferInstanceAs (Decidable (∀ entry ∈ _, ∀ row ∈ _, _))

/-
  The command reports a lead time of 55 minutes, from the
  alerts that the benchmark does not count.
-/
theorem not_reportsAgree_earlyAlerts :
    ¬ ReportsAgree quietHour 60 2 earlyAlerts.alerts := by
  decide +kernel

end Cli

end Nidra
