import Nidra.Data.Onset

/-
  This file defines the geometry of many origins, computed in
  one pass over the episodes, and proves what it says of each:
  whether the origin lies in an episode of its host, how far
  the next onset is, and which episode it is keyed to.

  Key definitions include:
    * `episodeGeometries`
    * `NextOnset`
    * `GeometrySpec`

  Main declarations:
    * `hostEpisodes_pairwise_lt`
    * `episodeGeometries_eq`
    * `episodeGeometries_spec`
-/

namespace Nidra

namespace Data

------------------------------------------------------------
-- All Origins at Once
------------------------------------------------------------

/- One episode is compared with every origin of its host. -/
def sweepEpisode
    (origins : List (String × ℤ))
    (geos : List OriginGeometry)
    (ep : MergedEpisode) : List OriginGeometry :=
  List.zipWith
    (fun origin geo =>
      if ep.hostId = origin.1 then geo.visit origin.2 ep
      else geo)
    origins geos

/- The episodes are swept by host and in start order. -/
def episodeGeometries
    (table : List StateRow)
    (windowSeconds mergeGapWindows : ℤ)
    (origins : List (String × ℤ)) : List OriginGeometry :=
  (sortByKey (fun ep => ep.key)
    (mergeEpisodes table windowSeconds
      mergeGapWindows)).foldl
    (sweepEpisode origins)
    (origins.map (fun _ => .initial))

/- The sweep treats every origin on its own. -/
theorem episodeGeometries_eq
    (table : List StateRow)
    (windowSeconds mergeGapWindows : ℤ)
    (origins : List (String × ℤ)) :
    episodeGeometries table windowSeconds mergeGapWindows
        origins =
      origins.map (fun origin =>
        episodeGeometry table windowSeconds mergeGapWindows
          origin.1 origin.2) := by
  have hSweep :=
    List.foldl_zipWith
      (fun (origin : String × ℤ) (geo : OriginGeometry)
          (ep : MergedEpisode) =>
        if ep.hostId = origin.1 then geo.visit origin.2 ep
        else geo)
      (fun _ => .initial) origins
      (sortByKey (fun ep => ep.key)
        (mergeEpisodes table windowSeconds mergeGapWindows))
  refine hSweep.trans ?_
  apply List.map_congr_left
  intro origin _
  unfold episodeGeometry
  rw [List.foldl_filter]
  simp only [decide_eq_true_eq]

------------------------------------------------------------
-- What the Geometry Says
------------------------------------------------------------

/- The least start of an episode after a time. -/
def NextOnset
    (episodes : List MergedEpisode)
    (t : ℤ)
    (start : ℤ) : Prop :=
  IsLeast {s | t < s ∧ ∃ ep ∈ episodes, ep.startTs = s} start

/-
  The three outputs for an origin, against the episodes of its
  host. No minutes stand for infinity, no key for the empty
  one.
-/
structure GeometrySpec
    (episodes : List MergedEpisode)
    (t : ℤ)
    (geo : OriginGeometry) : Prop where
  inside_iff :
    geo.inside = true ↔ ∃ ep ∈ episodes, ep.Contains t
  onset :
    ∀ start, NextOnset episodes t start →
      geo.minutesToOnset =
        some (((start - t : ℤ) : ℚ) / 60)
  infinite :
    (∀ ep ∈ episodes, ep.startTs ≤ t) →
      geo.minutesToOnset = none
  keyInside :
    ∀ ep ∈ episodes, ep.Contains t →
      geo.key = some ep.episodeKey
  keyNext :
    (∀ ep ∈ episodes, ¬ ep.Contains t) →
      ∀ ep ∈ episodes, NextOnset episodes t ep.startTs →
        geo.key = some ep.episodeKey
  keyNone :
    (∀ ep ∈ episodes, ¬ ep.Contains t) →
      (∀ ep ∈ episodes, ep.startTs ≤ t) →
        geo.key = none

section HostEpisodes

variable {table : List StateRow}
variable {windowSeconds : ℤ}
variable {mergeGapWindows : ℕ}
variable {hostId : String}

/- The episodes of one host do not touch each other. -/
theorem hostEpisodes_pairwise_lt
    (table : List StateRow)
    (windowSeconds : ℤ)
    (mergeGapWindows : ℕ)
    (hostId : String) :
    (hostEpisodes table windowSeconds mergeGapWindows
        hostId).Pairwise
      (fun a b => a.endTs < b.startTs) := by
  rw [hostEpisodes_eq, List.pairwise_map]
  apply mergeNear_strict_of_refl _ ?_
    (attackRuns_inOrder table hostId)
  intro e
  unfold NearInTime
  rw [sub_self, Int.zero_ediv]
  omega

/- No time lies in two episodes of the host. -/
theorem eq_of_contains
    {ep ep' : MergedEpisode}
    (hEp :
      ep ∈ hostEpisodes table windowSeconds mergeGapWindows
        hostId)
    (hEp' :
      ep' ∈ hostEpisodes table windowSeconds mergeGapWindows
        hostId)
    {t : ℤ}
    (hIn : ep.Contains t)
    (hIn' : ep'.Contains t) :
    ep = ep' := by
  have hSymm :
      Std.Symm
        (fun a b : MergedEpisode =>
          a.endTs < b.startTs ∨ b.endTs < a.startTs) :=
    ⟨fun a b => Or.symm⟩
  have hEither :=
    (hostEpisodes_pairwise_lt table windowSeconds mergeGapWindows
      hostId).imp
      (fun {a b} hBefore =>
        Or.inl (b := b.endTs < a.startTs) hBefore)
  by_contra hNe
  rcases hEither.forall hEp hEp' hNe with hBefore | hBefore
  · exact absurd (hIn'.1.trans hIn.2) (not_le_of_gt hBefore)
  · exact absurd (hIn.1.trans hIn'.2) (not_le_of_gt hBefore)

end HostEpisodes

------------------------------------------------------------
-- The Outputs
------------------------------------------------------------

section Outputs

variable {table : List StateRow}
variable {windowSeconds : ℤ}
variable {mergeGapWindows : ℕ}
variable {hostId : String}
variable {t : ℤ}

/- The minutes are the distance to the next onset. -/
theorem episodeGeometry_onset
    {start : ℤ}
    (hNext :
      NextOnset
        (hostEpisodes table windowSeconds mergeGapWindows
          hostId) t start) :
    (episodeGeometry table windowSeconds mergeGapWindows hostId
        t).minutesToOnset =
      some (((start - t : ℤ) : ℚ) / 60) := by
  rcases hNext.1 with ⟨hAfter, ep, hEp, hStart⟩
  rcases (episodeGeometry_within t
      (((start - t : ℤ) : ℚ) / 60)).mpr
      ⟨ep, hEp, hStart ▸ hAfter, by rw [hStart]⟩ with
    ⟨m, hM, hLe⟩
  rcases (episodeGeometry_within t m).mp ⟨m, hM, le_rfl⟩ with
    ⟨ep', hEp', hAfter', hNear⟩
  have hFirst : start ≤ ep'.startTs :=
    hNext.2 ⟨hAfter', ep', hEp', rfl⟩
  have hCast :
      ((start - t : ℤ) : ℚ) ≤ ((ep'.startTs - t : ℤ) : ℚ) := by
    rw [Int.cast_le]
    omega
  have hSame : m = ((start - t : ℤ) : ℚ) / 60 :=
    le_antisymm hLe
      ((div_le_div_of_nonneg_right hCast (by norm_num)).trans
        hNear)
  rw [← hSame]
  exact hM

theorem episodeGeometry_infinite
    (hNone :
      ∀ ep ∈ hostEpisodes table windowSeconds mergeGapWindows
          hostId,
        ep.startTs ≤ t) :
    (episodeGeometry table windowSeconds mergeGapWindows hostId
        t).minutesToOnset = none := by
  cases hIs :
      (episodeGeometry table windowSeconds mergeGapWindows
        hostId t).minutesToOnset with
  | none => rfl
  | some m =>
      rcases (episodeGeometry_within t m).mp
          ⟨m, hIs, le_rfl⟩ with ⟨ep, hEp, hAfter, _⟩
      exact absurd hAfter (not_lt_of_ge (hNone ep hEp))

/- An origin inside an episode is keyed to it. -/
theorem episodeGeometry_keyInside
    {ep : MergedEpisode}
    (hEp :
      ep ∈ hostEpisodes table windowSeconds mergeGapWindows
        hostId)
    (hIn : ep.Contains t) :
    (episodeGeometry table windowSeconds mergeGapWindows hostId
        t).key = some ep.episodeKey := by
  have hInside :=
    (episodeGeometry_inside t).mpr ⟨ep, hEp, hIn⟩
  have hInitial :
      ∀ episodes,
        OriginGeometry.initial.KeyedInside t episodes := by
    intro episodes hWas
    exact Bool.noConfusion hWas
  rcases OriginGeometry.keyedInside_foldl
      (fun _ hMem => hMem) (hInitial _) hInside with
    ⟨ep', hEp', hIn', hKey⟩
  rw [eq_of_contains hEp (mem_visited.mp hEp') hIn hIn']
  exact hKey

/- An origin before an episode is keyed to the next one. -/
theorem episodeGeometry_keyNext
    (hOutside :
      ∀ ep ∈ hostEpisodes table windowSeconds mergeGapWindows
          hostId,
        ¬ ep.Contains t)
    {ep : MergedEpisode}
    (hEp :
      ep ∈ hostEpisodes table windowSeconds mergeGapWindows
        hostId)
    (hNext :
      NextOnset
        (hostEpisodes table windowSeconds mergeGapWindows
          hostId) t ep.startTs) :
    (episodeGeometry table windowSeconds mergeGapWindows hostId
        t).key = some ep.episodeKey := by
  rcases mem_hostEpisodes.mp hEp with ⟨hMem, hHost⟩
  subst hHost
  rw [episodeGeometry_key hMem hNext.1.1]
  refine ⟨hNext.1.1, ?_⟩
  intro e hE
  refine ⟨hOutside e hE, ?_⟩
  rintro ⟨hAfter, hBefore⟩
  exact absurd (hNext.2 ⟨hAfter, e, hE, rfl⟩)
    (not_le_of_gt hBefore)

/- After all episodes there is no key. -/
theorem episodeGeometry_keyNone
    (hOutside :
      ∀ ep ∈ hostEpisodes table windowSeconds mergeGapWindows
          hostId,
        ¬ ep.Contains t)
    (hNone :
      ∀ ep ∈ hostEpisodes table windowSeconds mergeGapWindows
          hostId,
        ep.startTs ≤ t) :
    (episodeGeometry table windowSeconds mergeGapWindows hostId
        t).key = none := by
  unfold episodeGeometry
  rw [OriginGeometry.foldl_outside
    (fun e hE => hOutside e (mem_visited.mp hE))
    (visited_pairwise _ _ _ _)]
  have hFind :
      ((sortByKey (fun ep => ep.key)
          (mergeEpisodes table windowSeconds
            mergeGapWindows)).filter
          (fun ep => ep.hostId = hostId)).find?
        (fun e => t < e.startTs) = none := by
    apply List.find?_eq_none.mpr
    intro e hE
    rw [decide_eq_true_iff, not_lt]
    exact hNone e (mem_visited.mp hE)
  rw [hFind]
  rfl

end Outputs

/-
  The geometry of every origin is right about the episodes of
  its host, which do not touch each other.
-/
theorem episodeGeometries_spec
    (table : List StateRow)
    (windowSeconds : ℤ)
    (mergeGapWindows : ℕ)
    (origins : List (String × ℤ)) :
    (∀ hostId,
      (hostEpisodes table windowSeconds mergeGapWindows
          hostId).Pairwise
        (fun a b => a.endTs < b.startTs)) ∧
      List.Forall₂
        (fun origin geo =>
          GeometrySpec
            (hostEpisodes table windowSeconds mergeGapWindows
              origin.1) origin.2 geo)
        origins
        (episodeGeometries table windowSeconds mergeGapWindows
          origins) := by
  refine ⟨hostEpisodes_pairwise_lt table windowSeconds
    mergeGapWindows, ?_⟩
  rw [episodeGeometries_eq, List.forall₂_map_right_iff,
    List.forall₂_same]
  intro origin _
  exact
    { inside_iff := episodeGeometry_inside origin.2
      onset := fun _ => episodeGeometry_onset
      infinite := episodeGeometry_infinite
      keyInside := fun _ => episodeGeometry_keyInside
      keyNext := fun hOutside _ =>
        episodeGeometry_keyNext hOutside
      keyNone := episodeGeometry_keyNone }

end Data

end Nidra
