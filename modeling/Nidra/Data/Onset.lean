import Nidra.Data.Audit
import Nidra.Lib.Folds

/-
  This file defines where an origin lies relative to the
  merged episodes of its host: inside one or not, the minutes
  to the next onset, and the episode that it is keyed to.

  Key definitions include:
    * `EpisodeKey`
    * `OriginGeometry`, `episodeGeometry`
    * `onsetTargets`

  Main declarations:
    * `episodeGeometry_inside`
    * `episodeGeometry_within`
    * `episodeGeometry_key`
-/

namespace Nidra

namespace Data

def defaultOnsetHorizonsMin : List ℚ :=
  [1, 3, 5, 10, 15, 30]

def defaultMergeGapWindows : ℤ := 5

/- The name of an episode: its host and its start. -/
structure EpisodeKey where
  hostId : String
  startTs : ℤ
deriving DecidableEq, Repr

def EpisodeKey.render (key : EpisodeKey) : String :=
  key.hostId ++ "@" ++ toString key.startTs

def MergedEpisode.episodeKey (ep : MergedEpisode) : EpisodeKey :=
  { hostId := ep.hostId
    startTs := ep.startTs }

------------------------------------------------------------
-- Geometry of an Origin
------------------------------------------------------------

/-
  What is known of an origin. No minutes stand for infinity,
  no key for the empty one.
-/
structure OriginGeometry where
  inside : Bool
  minutesToOnset : Option ℚ
  key : Option EpisodeKey
deriving DecidableEq

namespace OriginGeometry

def initial : OriginGeometry :=
  { inside := false
    minutesToOnset := none
    key := none }

/- An origin inside an episode is keyed to it. -/
def enter
    (t : ℤ)
    (geo : OriginGeometry)
    (ep : MergedEpisode) : OriginGeometry :=
  if ep.startTs ≤ t ∧ t ≤ ep.endTs then
    { geo with
      inside := true
      key := some ep.episodeKey }
  else geo

/-
  A nearer onset is remembered; the origin is keyed to it
  when it lies in no episode so far.
-/
def approach
    (t : ℤ)
    (geo : OriginGeometry)
    (ep : MergedEpisode) : OriginGeometry :=
  let d : ℚ := (ep.startTs - t : ℤ) / 60
  if 0 < d ∧ geo.minutesToOnset.all (fun m => d < m) then
    { geo with
      minutesToOnset := some d
      key :=
        if geo.inside then geo.key else some ep.episodeKey }
  else geo

def visit
    (t : ℤ)
    (geo : OriginGeometry)
    (ep : MergedEpisode) : OriginGeometry :=
  (geo.enter t ep).approach t ep

end OriginGeometry

/- The episodes of the host are visited in their order. -/
def episodeGeometry
    (table : List StateRow)
    (windowSeconds mergeGapWindows : ℤ)
    (hostId : String)
    (t : ℤ) : OriginGeometry :=
  ((sortByKey (fun ep => ep.key)
      (mergeEpisodes table windowSeconds
        mergeGapWindows)).filter
    (fun ep => ep.hostId = hostId)).foldl
      (OriginGeometry.visit t) .initial

/-
  Whether an onset follows within each horizon, for an origin
  outside every episode.
-/
def onsetTargets
    (geo : OriginGeometry)
    (horizonsMin : List ℚ) : List ℕ :=
  horizonsMin.map
    (fun h =>
      if !geo.inside ∧ geo.minutesToOnset.any (fun m => m ≤ h)
      then 1 else 0)

------------------------------------------------------------
-- The Visit
------------------------------------------------------------

namespace OriginGeometry

@[simp] theorem approach_inside
    (t : ℤ)
    (geo : OriginGeometry)
    (ep : MergedEpisode) :
    (geo.approach t ep).inside = geo.inside := by
  unfold approach
  dsimp only
  split
  · rfl
  · rfl

@[simp] theorem enter_minutesToOnset
    (t : ℤ)
    (geo : OriginGeometry)
    (ep : MergedEpisode) :
    (geo.enter t ep).minutesToOnset = geo.minutesToOnset := by
  unfold enter
  split
  · rfl
  · rfl

theorem visit_inside
    (t : ℤ)
    (geo : OriginGeometry)
    (ep : MergedEpisode) :
    (geo.visit t ep).inside = true ↔
      ep.Contains t ∨ geo.inside = true := by
  rw [visit, approach_inside, enter]
  split
  · next hIn => exact ⟨fun _ => Or.inl hIn, fun _ => rfl⟩
  · next hOut =>
      constructor
      · exact Or.inr
      · rintro (hIn | hOld)
        · exact absurd hIn hOut
        · exact hOld

/- An onset lies within a span of minutes after the origin. -/
def Within
    (t : ℤ)
    (minutes : ℚ)
    (ep : MergedEpisode) : Prop :=
  t < ep.startTs ∧ ((ep.startTs - t : ℤ) : ℚ) / 60 ≤ minutes

theorem visit_within
    (t : ℤ)
    (minutes : ℚ)
    (geo : OriginGeometry)
    (ep : MergedEpisode) :
    (∃ m ∈ (geo.visit t ep).minutesToOnset, m ≤ minutes) ↔
      Within t minutes ep ∨
        ∃ m ∈ geo.minutesToOnset, m ≤ minutes := by
  have hPos :
      0 < ((ep.startTs - t : ℤ) : ℚ) / 60 ↔
        t < ep.startTs := by
    rw [lt_div_iff₀ (by norm_num), zero_mul, Int.cast_pos,
      sub_pos]
  unfold visit approach
  simp only [enter_minutesToOnset, hPos]
  split
  · next hNear =>
      rcases hNear with ⟨hAfter, hLess⟩
      simp only [Option.mem_some_iff, exists_eq_left', Within,
        hAfter, true_and]
      constructor
      · exact Or.inl
      · rintro (hLe | ⟨m, hM, hLe⟩)
        · exact hLe
        · cases hMin : geo.minutesToOnset with
          | none =>
              rw [hMin] at hM
              exact absurd hM (Option.not_mem_none m)
          | some n =>
              rw [hMin] at hM hLess
              rw [Option.mem_some_iff] at hM
              subst hM
              have hLt : ((ep.startTs - t : ℤ) : ℚ) / 60 < n :=
                by simpa using hLess
              exact hLt.le.trans hLe
  · next hFar =>
      rw [enter_minutesToOnset]
      constructor
      · exact Or.inr
      · rintro (⟨hAfter, hLe⟩ | hOld)
        · -- The onset remembered before is not later.
          cases hMin : geo.minutesToOnset with
          | none =>
              rw [hMin] at hFar
              exact absurd ⟨hAfter, rfl⟩ hFar
          | some n =>
              rw [hMin] at hFar
              refine ⟨n, rfl, ?_⟩
              by_contra hGt
              apply hFar
              refine ⟨hAfter, ?_⟩
              have hLt :
                  ((ep.startTs - t : ℤ) : ℚ) / 60 < n :=
                lt_of_le_of_lt hLe (lt_of_not_ge hGt)
              simpa using hLt
        · exact hOld

end OriginGeometry

------------------------------------------------------------
-- The Episodes of the Host
------------------------------------------------------------

section HostEpisodes

variable {table : List StateRow}
variable {windowSeconds mergeGapWindows : ℤ}
variable {hostId : String}

/- The episodes visited are the host's. -/
theorem mem_visited
    {ep : MergedEpisode} :
    ep ∈ (sortByKey (fun ep => ep.key)
        (mergeEpisodes table windowSeconds
          mergeGapWindows)).filter
        (fun ep => ep.hostId = hostId) ↔
      ep ∈ hostEpisodes table windowSeconds mergeGapWindows
        hostId := by
  rw [mem_hostEpisodes, List.mem_filter, mem_sortByKey,
    decide_eq_true_iff]

/- They are visited in the order of their starts. -/
theorem visited_pairwise
    (table : List StateRow)
    (windowSeconds mergeGapWindows : ℤ)
    (hostId : String) :
    ((sortByKey (fun ep => ep.key)
        (mergeEpisodes table windowSeconds
          mergeGapWindows)).filter
        (fun ep => ep.hostId = hostId)).Pairwise
      (fun a b => a.startTs ≤ b.startTs) := by
  refine ((sortByKey_pairwise _ _).filter _).imp_of_mem ?_
  intro a b hA hB hKey
  have hHostA := of_decide_eq_true (List.mem_filter.mp hA).2
  have hHostB := of_decide_eq_true (List.mem_filter.mp hB).2
  rcases Prod.Lex.toLex_le_toLex.mp hKey with hLt | hTs
  · have hHosts : a.hostId < b.hostId := hLt
    rw [hHostA, hHostB] at hHosts
    exact absurd hHosts (lt_irrefl _)
  · exact hTs.2

/- Inside means in a merged episode of the host. -/
theorem episodeGeometry_inside
    (t : ℤ) :
    (episodeGeometry table windowSeconds mergeGapWindows
        hostId t).inside = true ↔
      ∃ ep ∈ hostEpisodes table windowSeconds
          mergeGapWindows hostId,
        ep.Contains t := by
  unfold episodeGeometry
  rw [List.foldl_iff_exists
    (fun geo : OriginGeometry => geo.inside = true)
    (OriginGeometry.visit_inside t)]
  simp only [mem_visited]
  simp [OriginGeometry.initial]

/- Minutes are within a span when some onset is. -/
theorem episodeGeometry_within
    (t : ℤ)
    (minutes : ℚ) :
    (∃ m ∈ (episodeGeometry table windowSeconds
        mergeGapWindows hostId t).minutesToOnset,
        m ≤ minutes) ↔
      ∃ ep ∈ hostEpisodes table windowSeconds
          mergeGapWindows hostId,
        OriginGeometry.Within t minutes ep := by
  unfold episodeGeometry
  rw [List.foldl_iff_exists
    (fun geo : OriginGeometry =>
      ∃ m ∈ geo.minutesToOnset, m ≤ minutes)
    (OriginGeometry.visit_within t minutes)]
  simp only [mem_visited]
  simp [OriginGeometry.initial]

end HostEpisodes

------------------------------------------------------------
-- Keys
------------------------------------------------------------

namespace OriginGeometry

/-
  An origin that lies in an episode is keyed to one that it
  lies in, wherever the visits have got to.
-/
def KeyedInside
    (t : ℤ)
    (episodes : List MergedEpisode)
    (geo : OriginGeometry) : Prop :=
  geo.inside = true →
    ∃ ep ∈ episodes,
      ep.Contains t ∧ geo.key = some ep.episodeKey

theorem keyedInside_visit
    {t : ℤ}
    {episodes : List MergedEpisode}
    {geo : OriginGeometry}
    {ep : MergedEpisode}
    (hGeo : geo.KeyedInside t episodes)
    (hMem : ep ∈ episodes) :
    (geo.visit t ep).KeyedInside t episodes := by
  have hEnter : (geo.enter t ep).KeyedInside t episodes := by
    unfold enter
    split
    · next hIn => exact fun _ => ⟨ep, hMem, hIn, rfl⟩
    · exact hGeo
  unfold visit approach
  dsimp only
  split
  · intro hInside
    have hWas : (geo.enter t ep).inside = true := hInside
    rcases hEnter hWas with ⟨ep', hMem', hIn, hKey⟩
    exact ⟨ep', hMem', hIn, by simp [hWas, hKey]⟩
  · exact hEnter

theorem keyedInside_foldl
    {t : ℤ}
    {episodes l : List MergedEpisode}
    (hSub : ∀ ep ∈ l, ep ∈ episodes)
    {geo : OriginGeometry}
    (hGeo : geo.KeyedInside t episodes) :
    (l.foldl (OriginGeometry.visit t) geo).KeyedInside t
      episodes := by
  induction l generalizing geo with
  | nil => exact hGeo
  | cons ep rest ih =>
      exact ih (fun e hE => hSub e (List.mem_cons_of_mem _ hE))
        (keyedInside_visit hGeo (hSub ep (by simp)))

/- What an origin outside all episodes knows of the next. -/
def facing
    (t : ℤ)
    (ep : MergedEpisode) : OriginGeometry :=
  { inside := false
    minutesToOnset := some ((ep.startTs - t : ℤ) / 60)
    key := some ep.episodeKey }

theorem visit_initial_of_before
    {t : ℤ}
    {ep : MergedEpisode}
    (hBefore : t < ep.startTs) :
    initial.visit t ep = facing t ep := by
  have hPos : 0 < ((ep.startTs - t : ℤ) : ℚ) / 60 := by
    have hDiff : (0 : ℚ) < ((ep.startTs - t : ℤ) : ℚ) := by
      rw [Int.cast_pos]
      omega
    positivity
  have hOut : ¬ (ep.startTs ≤ t ∧ t ≤ ep.endTs) := by
    omega
  unfold visit enter approach facing
  rw [if_neg hOut]
  simp only [initial, Option.all_none, and_true]
  rw [if_pos hPos]
  rfl

/- An episode that neither holds nor follows is passed by. -/
theorem visit_eq_self
    {t : ℤ}
    {geo : OriginGeometry}
    {ep : MergedEpisode}
    (hOut : ¬ ep.Contains t)
    (hFar :
      t < ep.startTs →
        ∃ m ∈ geo.minutesToOnset,
          m ≤ ((ep.startTs - t : ℤ) : ℚ) / 60) :
    geo.visit t ep = geo := by
  unfold Episode.Contains at hOut
  unfold visit enter approach
  rw [if_neg hOut]
  dsimp only
  apply if_neg
  rintro ⟨hPos, hLess⟩
  have hBefore : t < ep.startTs := by
    have hDiff : (0 : ℚ) < ((ep.startTs - t : ℤ) : ℚ) := by
      by_contra hLe
      exact absurd hPos
        (not_lt_of_ge
          (div_nonpos_of_nonpos_of_nonneg
            (le_of_not_gt hLe) (by norm_num)))
    rw [Int.cast_pos] at hDiff
    omega
  rcases hFar hBefore with ⟨m, hM, hLe⟩
  rw [Option.mem_def] at hM
  rw [hM] at hLess
  have hLt : ((ep.startTs - t : ℤ) : ℚ) / 60 < m := by
    simpa using hLess
  exact absurd hLe (not_le_of_gt hLt)

theorem foldl_facing
    {t : ℤ}
    {ep : MergedEpisode}
    {l : List MergedEpisode}
    (hOut : ∀ e ∈ l, ¬ e.Contains t)
    (hLater : ∀ e ∈ l, ep.startTs ≤ e.startTs) :
    l.foldl (OriginGeometry.visit t) (facing t ep) =
      facing t ep := by
  induction l with
  | nil => rfl
  | cons e rest ih =>
      have hSelf : (facing t ep).visit t e = facing t ep := by
        apply visit_eq_self (hOut e (by simp))
        intro _
        refine ⟨_, rfl, ?_⟩
        have hLe := hLater e (by simp)
        have hCast :
            ((ep.startTs - t : ℤ) : ℚ) ≤
              ((e.startTs - t : ℤ) : ℚ) := by
          rw [Int.cast_le]
          omega
        exact div_le_div_of_nonneg_right hCast (by norm_num)
      rw [List.foldl_cons, hSelf]
      exact ih (fun x hX => hOut x (by simp [hX]))
        (fun x hX => hLater x (by simp [hX]))

/-
  Outside all episodes, what is known is the first episode
  that begins later.
-/
theorem foldl_outside
    {t : ℤ}
    {l : List MergedEpisode}
    (hOut : ∀ e ∈ l, ¬ e.Contains t)
    (hSorted :
      l.Pairwise (fun a b => a.startTs ≤ b.startTs)) :
    l.foldl (OriginGeometry.visit t) initial =
      ((l.find? (fun e => t < e.startTs)).map
        (facing t)).getD initial := by
  induction l with
  | nil => rfl
  | cons e rest ih =>
      have hOutRest : ∀ x ∈ rest, ¬ x.Contains t :=
        fun x hX => hOut x (by simp [hX])
      rw [List.foldl_cons]
      by_cases hBefore : t < e.startTs
      · have hFound :
            (e :: rest).find? (fun e => t < e.startTs) =
              some e := by
          simp [hBefore]
        rw [visit_initial_of_before hBefore, hFound]
        exact foldl_facing hOutRest
          (fun x hX => List.rel_of_pairwise_cons hSorted hX)
      · have hSelf : initial.visit t e = initial :=
          visit_eq_self (hOut e (by simp))
            (fun hLt => absurd hLt hBefore)
        have hSkip :
            (e :: rest).find? (fun e => t < e.startTs) =
              rest.find? (fun e => t < e.startTs) := by
          simp [hBefore]
        rw [hSelf, hSkip]
        exact ih hOutRest hSorted.tail

/- The first episode that begins later begins the earliest. -/
theorem find?_earliest
    {t : ℤ}
    {l : List MergedEpisode}
    (hSorted :
      l.Pairwise (fun a b => a.startTs ≤ b.startTs))
    {first : MergedEpisode}
    (hFirst :
      l.find? (fun e => t < e.startTs) = some first) :
    ∀ e ∈ l, t < e.startTs → first.startTs ≤ e.startTs := by
  intro e hE hBefore
  rcases List.find?_eq_some_iff_append.mp hFirst with
    ⟨_, before, after, rfl, hNone⟩
  rcases List.mem_append.mp hE with hEarly | hLate
  · have hNot := hNone e hEarly
    simp [hBefore] at hNot
  · rcases List.mem_cons.mp hLate with rfl | hAfter
    · exact le_rfl
    · exact List.rel_of_pairwise_cons
        (List.pairwise_append.mp hSorted).2.1 hAfter

theorem foldl_key_iff
    {t : ℤ}
    {l : List MergedEpisode}
    (hSorted :
      l.Pairwise (fun a b => a.startTs ≤ b.startTs))
    {ep : MergedEpisode}
    (hHost : ∀ e ∈ l, e.hostId = ep.hostId)
    (hIn : ep ∈ l)
    (hBefore : t < ep.startTs) :
    (l.foldl (OriginGeometry.visit t) initial).key =
        some ep.episodeKey ↔
      ∀ e ∈ l,
        ¬ e.Contains t ∧
          ¬ (t < e.startTs ∧ e.startTs < ep.startTs) := by
  by_cases hOut : ∀ e ∈ l, ¬ e.Contains t
  · rw [foldl_outside hOut hSorted]
    cases hFirst : l.find? (fun e => t < e.startTs) with
    | none =>
        have hNone := List.find?_eq_none.mp hFirst ep hIn
        simp [hBefore] at hNone
    | some first =>
        have hEarliest := find?_earliest hSorted hFirst
        have hMem := List.mem_of_find?_eq_some hFirst
        have hAfter : t < first.startTs := by
          simpa using List.find?_some hFirst
        simp only [Option.map_some, Option.getD_some, facing,
          Option.some.injEq]
        constructor
        · intro hKey e hE
          have hStart : first.startTs = ep.startTs :=
            congrArg EpisodeKey.startTs hKey
          refine ⟨hOut e hE, ?_⟩
          rintro ⟨hLater, hLt⟩
          have hLe := hEarliest e hE hLater
          omega
        · intro hNone
          have hLe := hEarliest ep hIn hBefore
          have hNot := (hNone first hMem).2
          have hStart : first.startTs = ep.startTs := by
            omega
          simp [MergedEpisode.episodeKey, hHost first hMem,
            hStart]
  · push Not at hOut
    rcases hOut with ⟨e, hE, hContains⟩
    have hInside :
        (l.foldl (OriginGeometry.visit t) initial).inside =
          true := by
      rw [List.foldl_iff_exists
        (fun geo : OriginGeometry => geo.inside = true)
        (OriginGeometry.visit_inside t)]
      exact Or.inl ⟨e, hE, hContains⟩
    have hInitial : initial.KeyedInside t l := by
      intro hWas
      exact Bool.noConfusion hWas
    rcases keyedInside_foldl (fun _ hMem => hMem) hInitial
      hInside with ⟨e', hE', hContains', hKey⟩
    constructor
    · intro hSame
      rw [hKey, Option.some.injEq] at hSame
      have hStart : e'.startTs = ep.startTs :=
        congrArg EpisodeKey.startTs hSame
      have hLe := hContains'.1
      omega
    · intro hNone
      exact absurd hContains (hNone e hE).1

end OriginGeometry

/-
  An origin lies in the run-up of an episode: before it, in
  no episode of the host, and with no other onset between.
-/
def InRunUp
    (episodes : List MergedEpisode)
    (ep : MergedEpisode)
    (t : ℤ) : Prop :=
  t < ep.startTs ∧
    ∀ e ∈ episodes,
      ¬ e.Contains t ∧
        ¬ (t < e.startTs ∧ e.startTs < ep.startTs)

/- Before its onset, an episode's key marks its run-up. -/
theorem episodeGeometry_key
    {table : List StateRow}
    {windowSeconds mergeGapWindows : ℤ}
    {ep : MergedEpisode}
    (hEp : ep ∈ mergeEpisodes table windowSeconds mergeGapWindows)
    {t : ℤ}
    (hBefore : t < ep.startTs) :
    (episodeGeometry table windowSeconds mergeGapWindows
        ep.hostId t).key = some ep.episodeKey ↔
      InRunUp
        (hostEpisodes table windowSeconds mergeGapWindows
          ep.hostId) ep t := by
  unfold episodeGeometry InRunUp
  have hMemIff :
      ∀ e, e ∈ (sortByKey (fun ep => ep.key)
          (mergeEpisodes table windowSeconds
            mergeGapWindows)).filter
          (fun e => e.hostId = ep.hostId) ↔
        e ∈ hostEpisodes table windowSeconds
          mergeGapWindows ep.hostId :=
    fun e => mem_visited
  have hHost :
      ∀ e ∈ (sortByKey (fun ep => ep.key)
          (mergeEpisodes table windowSeconds
            mergeGapWindows)).filter
          (fun e => e.hostId = ep.hostId),
        e.hostId = ep.hostId :=
    fun e hE => of_decide_eq_true (List.mem_filter.mp hE).2
  have hIn :=
    (hMemIff ep).mpr (mem_hostEpisodes.mpr ⟨hEp, rfl⟩)
  rw [OriginGeometry.foldl_key_iff
    (visited_pairwise table windowSeconds mergeGapWindows
      ep.hostId) hHost hIn hBefore]
  simp only [hMemIff, hBefore, true_and]

end Data

end Nidra
