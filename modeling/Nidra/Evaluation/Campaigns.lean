import Nidra.Common.Schemas
import Nidra.Data.Audit
import Nidra.Data.Labels
import Nidra.Lib.Fallible
import Nidra.Lib.TimedRun

/-
  This file defines the stage-transition lead of a campaign,
  how long before its completing phase the host was flagged,
  and proves that scores which are missing never create a
  flag and never make one earlier.

  Key definitions include:
    * `EpisodeSpan`, `groupCampaigns`
    * `completingPhase`
    * `ScoredWindow`, `scoreCampaign`
    * `campaignLeadReport`

  Main declarations:
    * `scoreCampaign_flag_mono`
    * `campaignLeadReport_flagged_mono`
-/

namespace Nidra

namespace Evaluation

open Data

------------------------------------------------------------
-- Campaigns
------------------------------------------------------------

/- A merged episode with its most advanced stage. -/
structure EpisodeSpan where
  host : String
  onsetTs : ℤ
  endTs : ℤ
  stage : Stage
deriving DecidableEq, Repr

/- The rows that an episode spans. -/
def rowsInside
    (table : List StateRow)
    (ep : MergedEpisode) : List StateRow :=
  table.filter
    (fun row =>
      row.hostId = ep.hostId ∧ ep.startTs ≤ row.windowTs ∧
        row.windowTs ≤ ep.endTs)

def episodeSpans
    (table : List StateRow)
    (windowSeconds mergeGapWindows : ℤ) : List EpisodeSpan :=
  (mergeEpisodes table windowSeconds mergeGapWindows).map
    (fun ep =>
      { host := ep.hostId
        onsetTs := ep.startTs
        endTs := ep.endTs
        stage :=
          (((rowsInside table ep).map
            StateRow.stageLabel).argmax
              Stage.severity).getD .benign })

/- The next episode continues the campaign or begins one. -/
def chainEpisode
    (maxGapMinutes : ℤ)
    (chained : List (List EpisodeSpan) × List EpisodeSpan)
    (e : EpisodeSpan) :
    List (List EpisodeSpan) × List EpisodeSpan :=
  match chained.2.getLast? with
  | some latest =>
      if maxGapMinutes * 60 < e.onsetTs - latest.endTs then
        (chained.1 ++ [chained.2], [e])
      else (chained.1, chained.2 ++ [e])
  | none => (chained.1, chained.2 ++ [e])

def chainCampaigns
    (maxGapMinutes : ℤ)
    (episodes : List EpisodeSpan) :
    List (List EpisodeSpan) :=
  let chained :=
    episodes.foldl (chainEpisode maxGapMinutes) ([], [])
  chained.1 ++ [chained.2]

/- Chain each host's episodes over the short gaps. -/
def groupCampaigns
    (episodes : List EpisodeSpan)
    (maxGapMinutes : ℤ) : List (List EpisodeSpan) :=
  (sortByKey id (episodes.map EpisodeSpan.host).eraseDups).flatMap
    (fun host =>
      chainCampaigns maxGapMinutes
        (sortByKey EpisodeSpan.onsetTs
          (episodes.filter (fun e => e.host = host))))

inductive CampaignError where
  | stages (labels : List String)
  | noEpisodes
deriving DecidableEq, Repr

/-
  The first episode of the most advanced stage, or the last
  episode when the stage never changes.
-/
def completingPhase
    (campaign : List EpisodeSpan) :
    Except CampaignError EpisodeSpan :=
  if campaign.any (fun e => e.stage = .benign) then
    .error (.stages (campaign.map (fun e => e.stage.label)))
  else
    let ordered := sortByKey EpisodeSpan.onsetTs campaign
    let completing :=
      if (ordered.map EpisodeSpan.stage).eraseDups.length = 1
      then ordered.getLast?
      else
        ((ordered.map EpisodeSpan.stage).argmax
          Stage.severity).bind
          (fun top => ordered.find? (fun e => e.stage = top))
    match completing with
    | some done => .ok done
    | none => .error .noEpisodes

------------------------------------------------------------
-- Scores of a Campaign
------------------------------------------------------------

/- A scored window of a host. -/
structure ScoredWindow where
  hostId : String
  originTs : ℤ
  score : ℚ
deriving DecidableEq, Repr

/- The windows in the order of time, as they are scored. -/
def chronological
    (rows : List ScoredWindow) : List ScoredWindow :=
  sortByKey ScoredWindow.originTs rows

/- The windows of the completing phase. -/
def insideCompletion
    (done : EpisodeSpan)
    (rows : List ScoredWindow) : List ScoredWindow :=
  rows.filter
    (fun row =>
      done.onsetTs ≤ row.originTs ∧
        row.originTs ≤ done.endTs)

structure CampaignRow where
  host : String
  campaignOnsetTs : ℤ
  phases : List EpisodeSpan
  completingOnsetTs : ℤ
  completingStage : Stage
  expectedWindowsBeforeCompletion : ℤ
  scoredWindowsBeforeCompletion : ℕ
  maxScoreBeforeCompletion : Option ℚ
  flaggedBeforeCompletion : Bool
  flagTs : Option ℤ
  flagBeforeCampaignOnset : Bool
  stageTransitionLeadS : Option ℤ
  completingPhaseDetected : Bool
  completingPhaseLatencyMin : Option ℚ

/- How scores are turned into flags. -/
structure FlagRule where
  threshold : ℚ
  windowSeconds : ℤ
  m : ℕ
  preOnsetMinutes : ℤ

namespace FlagRule

variable (rule : FlagRule)

/- The time where the first run of hits begins. -/
def flagAt (rows : List ScoredWindow) : Option ℤ :=
  firstTimedRunAt ScoredWindow.originTs
    (fun row => rule.threshold ≤ row.score)
    rule.windowSeconds rule.m rows

/- The windows from the run-up to the completing onset. -/
def beforeCompletion
    (onset completing : ℤ)
    (rows : List ScoredWindow) : List ScoredWindow :=
  rows.filter
    (fun row =>
      onset - rule.preOnsetMinutes * 60 ≤ row.originTs ∧
        row.originTs < completing)

def campaignRow
    (first : EpisodeSpan)
    (campaign : List EpisodeSpan)
    (done : EpisodeSpan)
    (rows : List ScoredWindow) : CampaignRow :=
  let onset := first.onsetTs
  let before := rule.beforeCompletion onset done.onsetTs rows
  let flagTs := rule.flagAt before
  let runIn := rule.flagAt (insideCompletion done rows)
  { host := first.host
    campaignOnsetTs := onset
    phases := campaign
    completingOnsetTs := done.onsetTs
    completingStage := done.stage
    expectedWindowsBeforeCompletion :=
      (done.onsetTs - (onset - rule.preOnsetMinutes * 60)).fdiv
        rule.windowSeconds
    scoredWindowsBeforeCompletion := before.length
    maxScoreBeforeCompletion :=
      (before.map ScoredWindow.score).max?
    flaggedBeforeCompletion := flagTs.isSome
    flagTs := flagTs
    flagBeforeCampaignOnset := flagTs.any (fun t => t < onset)
    stageTransitionLeadS :=
      flagTs.map (fun t => done.onsetTs - t)
    completingPhaseDetected := runIn.isSome
    completingPhaseLatencyMin :=
      runIn.map
        (fun t => ((t - done.onsetTs : ℤ) : ℚ) / 60) }

/- One campaign against the scored windows of its host. -/
def scoreCampaign
    (campaign : List EpisodeSpan)
    (rows : List ScoredWindow) :
    Except CampaignError CampaignRow :=
  match campaign with
  | [] => .error .noEpisodes
  | first :: rest => do
      let done ← completingPhase (first :: rest)
      return rule.campaignRow first (first :: rest) done rows

end FlagRule

structure CampaignLeadReport where
  threshold : ℚ
  mConsecutive : ℕ
  maxGapMinutes : ℤ
  preOnsetMinutes : ℤ
  nCampaignsScored : ℕ
  nSingleEpisodeCampaigns : ℕ
  nFlaggedBeforeCompletion : ℕ
  stageTransitionLeadS : List ℤ
  campaigns : List CampaignRow

/- The scored windows of a campaign's host, in time order. -/
def hostSequence
    (campaign : List EpisodeSpan)
    (rows : List ScoredWindow) : List ScoredWindow :=
  chronological
    (rows.filter
      (fun row => campaign.head?.map EpisodeSpan.host =
        some row.hostId))

def scoredCampaigns
    (episodes : List EpisodeSpan)
    (maxGapMinutes : ℤ) : List (List EpisodeSpan) :=
  (groupCampaigns episodes maxGapMinutes).filter
    (fun campaign => 1 < campaign.length)

/- A campaign of one episode is counted and not scored. -/
def campaignLeadReport
    (rule : FlagRule)
    (maxGapMinutes : ℤ)
    (episodes : List EpisodeSpan)
    (rows : List ScoredWindow) :
    Except CampaignError CampaignLeadReport := do
  let campaigns := groupCampaigns episodes maxGapMinutes
  let scored := scoredCampaigns episodes maxGapMinutes
  let reported ←
    scored.mapM
      (fun campaign =>
        rule.scoreCampaign campaign
          (hostSequence campaign rows))
  return {
    threshold := rule.threshold
    mConsecutive := rule.m
    maxGapMinutes := maxGapMinutes
    preOnsetMinutes := rule.preOnsetMinutes
    nCampaignsScored := reported.length
    nSingleEpisodeCampaigns :=
      campaigns.length - scored.length
    nFlaggedBeforeCompletion :=
      (reported.filter
        CampaignRow.flaggedBeforeCompletion).length
    stageTransitionLeadS :=
      reported.filterMap CampaignRow.stageTransitionLeadS
    campaigns := reported }

------------------------------------------------------------
-- Missing Scores
------------------------------------------------------------

/- Sorted by distinct times, the windows follow in time. -/
theorem chronological_pairwise
    {rows : List ScoredWindow}
    (hDistinct : (rows.map ScoredWindow.originTs).Nodup) :
    (chronological rows).Pairwise
      (fun a b => a.originTs < b.originTs) :=
  sortByKey_pairwise_lt hDistinct

/- A row that is reported is the row of the phases found. -/
theorem FlagRule.scoreCampaign_eq_ok_iff
    {rule : FlagRule}
    {campaign : List EpisodeSpan}
    {rows : List ScoredWindow}
    {row : CampaignRow} :
    rule.scoreCampaign campaign rows = .ok row ↔
      ∃ first rest done,
        campaign = first :: rest ∧
          completingPhase campaign = .ok done ∧
          rule.campaignRow first campaign done rows = row := by
  cases campaign with
  | nil => simp [scoreCampaign]
  | cons first rest =>
      rw [scoreCampaign, Except.bind_eq_ok_iff]
      constructor
      · rintro ⟨done, hDone, hRow⟩
        exact ⟨first, rest, done, rfl, hDone,
          Except.ok.inj hRow⟩
      · rintro ⟨first', rest', done, hEq, hDone, hRow⟩
        cases hEq
        exact ⟨done, hDone, congrArg Except.ok hRow⟩

/-
  The time of a flag, on the windows before completion that
  were kept and on all of them.
-/
theorem FlagRule.flagAt_beforeCompletion_mono
    {rule : FlagRule}
    (hWindow : 0 < rule.windowSeconds)
    (hM : 0 < rule.m)
    {rows kept : List ScoredWindow}
    (hSub : kept.Sublist rows)
    (hDistinct : (rows.map ScoredWindow.originTs).Nodup)
    (hAligned :
      OnGrid ScoredWindow.originTs rule.windowSeconds rows)
    {onset completing t : ℤ}
    (hFlag :
      rule.flagAt
          (rule.beforeCompletion onset completing
            (chronological kept)) = some t) :
    ∃ u,
      rule.flagAt
          (rule.beforeCompletion onset completing
            (chronological rows)) = some u ∧
        u ≤ t := by
  have hKept : (kept.map ScoredWindow.originTs).Nodup :=
    hDistinct.sublist (hSub.map _)
  apply firstTimedRun_mono hWindow hM ?_
    ((chronological_pairwise hKept).filter _)
    ((chronological_pairwise hDistinct).filter _) ?_ hFlag
  · intro row hRow
    rcases List.mem_filter.mp hRow with ⟨hMem, hIn⟩
    refine List.mem_filter.mpr ⟨?_, hIn⟩
    exact mem_sortByKey.mpr
      (hSub.subset (mem_sortByKey.mp hMem))
  · intro a hA b hB
    exact hAligned
      a (mem_sortByKey.mp (List.mem_of_mem_filter hA))
      b (mem_sortByKey.mp (List.mem_of_mem_filter hB))

theorem FlagRule.flagged_mono
    {rule : FlagRule}
    (hWindow : 0 < rule.windowSeconds)
    (hM : 0 < rule.m)
    {rows kept : List ScoredWindow}
    (hSub : kept.Sublist rows)
    (hDistinct : (rows.map ScoredWindow.originTs).Nodup)
    (hAligned :
      OnGrid ScoredWindow.originTs rule.windowSeconds rows)
    {campaign : List EpisodeSpan}
    {part : CampaignRow}
    (hPart :
      rule.scoreCampaign campaign (chronological kept) =
        .ok part) :
    ∃ whole,
      rule.scoreCampaign campaign (chronological rows) =
          .ok whole ∧
        ∀ t, part.flagTs = some t →
          ∃ u, whole.flagTs = some u ∧ u ≤ t := by
  rcases scoreCampaign_eq_ok_iff.mp hPart with
    ⟨first, rest, done, hCampaign, hDone, rfl⟩
  refine ⟨_,
    scoreCampaign_eq_ok_iff.mpr
      ⟨first, rest, done, hCampaign, hDone, rfl⟩, ?_⟩
  intro t hT
  exact flagAt_beforeCompletion_mono hWindow hM hSub hDistinct
    hAligned hT

/- A row is flagged when it has the time of a flag. -/
theorem FlagRule.flagged_iff
    {rule : FlagRule}
    {campaign : List EpisodeSpan}
    {rows : List ScoredWindow}
    {row : CampaignRow}
    (hRow : rule.scoreCampaign campaign rows = .ok row) :
    row.flaggedBeforeCompletion = true ↔
      ∃ t, row.flagTs = some t := by
  rcases scoreCampaign_eq_ok_iff.mp hRow with
    ⟨first, rest, done, _, _, rfl⟩
  exact Option.isSome_iff_exists

/-
  If the kept windows flag a campaign before its completion,
  then all windows flag it, and not later.
-/
theorem scoreCampaign_flag_mono
    (rule : FlagRule)
    (hWindow : 0 < rule.windowSeconds)
    (hM : 0 < rule.m)
    (campaign : List EpisodeSpan)
    (rows kept : List ScoredWindow)
    (hSub : kept.Sublist rows)
    (hDistinct : (rows.map ScoredWindow.originTs).Nodup)
    (hAligned :
      OnGrid ScoredWindow.originTs rule.windowSeconds rows)
    (part : CampaignRow)
    (hPart :
      rule.scoreCampaign campaign (chronological kept) =
        .ok part)
    (hFlagged : part.flaggedBeforeCompletion = true) :
    ∃ whole t u,
      rule.scoreCampaign campaign (chronological rows) =
          .ok whole ∧
        whole.flaggedBeforeCompletion = true ∧
        part.flagTs = some t ∧
        whole.flagTs = some u ∧
        u ≤ t := by
  rcases (FlagRule.flagged_iff hPart).mp hFlagged with ⟨t, hT⟩
  rcases FlagRule.flagged_mono hWindow hM hSub hDistinct hAligned
    hPart with ⟨whole, hWhole, hFlag⟩
  rcases hFlag t hT with ⟨u, hU, hLe⟩
  exact ⟨whole, t, u, hWhole,
    (FlagRule.flagged_iff hWhole).mpr ⟨u, hU⟩, hT, hU, hLe⟩

/- A host with two phases whose scores rise in the first. -/
def twoPhases : List EpisodeSpan :=
  [⟨"a", 0, 300, .lateral⟩, ⟨"a", 2700, 5100, .lateral⟩]

def risingScores : List ScoredWindow :=
  [⟨"a", 600, 9 / 10⟩, ⟨"a", 660, 9 / 10⟩, ⟨"a", 720, 9 / 10⟩]

def pairRule : FlagRule :=
  { threshold := 1 / 2
    windowSeconds := 60
    m := 2
    preOnsetMinutes := 30 }

/- Without the first score the flag comes a window later. -/
theorem scoreCampaign_flag_mono_rising :
    ∃ whole t u,
      pairRule.scoreCampaign twoPhases
          (chronological risingScores) = .ok whole ∧
        whole.flaggedBeforeCompletion = true ∧
        (pairRule.campaignRow ⟨"a", 0, 300, .lateral⟩ twoPhases
          ⟨"a", 2700, 5100, .lateral⟩
          (chronological risingScores.tail)).flagTs = some t ∧
        whole.flagTs = some u ∧
        u ≤ t :=
  scoreCampaign_flag_mono pairRule (by decide) (by decide)
    twoPhases risingScores risingScores.tail
    (List.tail_sublist _) (by decide) (by decide) _
    (FlagRule.scoreCampaign_eq_ok_iff.mpr
      ⟨_, _, ⟨"a", 2700, 5100, .lateral⟩, rfl,
        by decide +kernel, rfl⟩)
    (by decide +kernel)

/-
  Over a whole report, scores that are missing never raise the
  number of campaigns that count as flagged in time.
-/
theorem campaignLeadReport_flagged_mono
    {rule : FlagRule}
    (hWindow : 0 < rule.windowSeconds)
    (hM : 0 < rule.m)
    {maxGapMinutes : ℤ}
    {episodes : List EpisodeSpan}
    {rows kept : List ScoredWindow}
    (hSub : kept.Sublist rows)
    (hDistinct :
      ∀ host,
        ((rows.filter (fun row => host = some row.hostId)).map
          ScoredWindow.originTs).Nodup)
    (hAligned :
      OnGrid ScoredWindow.originTs rule.windowSeconds rows)
    {part : CampaignLeadReport}
    (hPart :
      campaignLeadReport rule maxGapMinutes episodes kept =
        .ok part) :
    ∃ whole,
      campaignLeadReport rule maxGapMinutes episodes rows =
          .ok whole ∧
        part.nFlaggedBeforeCompletion ≤
          whole.nFlaggedBeforeCompletion := by
  unfold campaignLeadReport at hPart ⊢
  dsimp only at hPart ⊢
  rcases Except.bind_eq_ok_iff.mp hPart with
    ⟨reported, hReported, hPart⟩
  have hBoth :=
    List.exists_mapM_forall₂
      (g := fun campaign =>
        rule.scoreCampaign campaign (hostSequence campaign rows))
      (R := fun a b =>
        a.flaggedBeforeCompletion = true →
          b.flaggedBeforeCompletion = true)
      (by
        intro campaign _ a hA
        rcases FlagRule.flagged_mono hWindow hM
          (hSub.filter _) (hDistinct _)
          (fun b hB c hC =>
            hAligned b (List.mem_of_mem_filter hB)
              c (List.mem_of_mem_filter hC))
          hA with ⟨b, hB, hFlag⟩
        refine ⟨b, hB, ?_⟩
        intro hIs
        rcases (FlagRule.flagged_iff hA).mp hIs with ⟨t, hT⟩
        rcases hFlag t hT with ⟨u, hU, _⟩
        exact (FlagRule.flagged_iff hB).mpr ⟨u, hU⟩)
      hReported
  rcases hBoth with ⟨others, hOthers, hRelated⟩
  rw [hOthers]
  refine ⟨_, rfl, ?_⟩
  cases hPart
  exact List.length_filter_le_of_forall₂ hRelated

/- Windows of a host with a lateral phase and a later one. -/
def phasedTable : List StateRow :=
  [silentRow "a" 600 .lateral, silentRow "a" 660 .benign,
    silentRow "a" 2700 .c2, silentRow "a" 2760 .c2]

/- Without the first score its campaign still is flagged. -/
theorem campaignLeadReport_flagged_mono_phased :
    ∃ part whole,
      campaignLeadReport pairRule 60
          (episodeSpans phasedTable 60 5)
          risingScores.tail = .ok part ∧
        part.nFlaggedBeforeCompletion = 1 ∧
        campaignLeadReport pairRule 60
          (episodeSpans phasedTable 60 5)
          risingScores = .ok whole ∧
        part.nFlaggedBeforeCompletion ≤
          whole.nFlaggedBeforeCompletion := by
  have hCount :
      (campaignLeadReport pairRule 60
          (episodeSpans phasedTable 60 5)
          risingScores.tail).toOption.map
        CampaignLeadReport.nFlaggedBeforeCompletion =
          some 1 := by
    decide +kernel
  have hTimes :
      (risingScores.map ScoredWindow.originTs).Nodup := by
    decide
  cases hPart :
      campaignLeadReport pairRule 60
        (episodeSpans phasedTable 60 5)
        risingScores.tail with
  | error error =>
      rw [hPart] at hCount
      cases hCount
  | ok part =>
      rw [hPart] at hCount
      rcases campaignLeadReport_flagged_mono (by decide)
          (by decide) (List.tail_sublist _)
          (fun host =>
            hTimes.sublist (List.filter_sublist.map _))
          (by decide) hPart with
        ⟨whole, hWhole, hLe⟩
      exact
        ⟨part, whole, rfl, Option.some.inj hCount, hWhole,
          hLe⟩

end Evaluation

end Nidra
