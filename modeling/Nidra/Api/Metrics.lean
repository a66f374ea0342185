import Nidra.Lib.LastRun

/-
  This file defines the backlog monitor of the API, which
  watches the pending counts of the streams, and proves that
  it reports a stream exactly while its count has risen for
  long enough.

  Key definitions include:
    * `Streak`, `BacklogMonitor`, `Sample`
    * `Streak.observe`, `BacklogMonitor.observe`
    * `history`, `GrowingExactly`
    * `WarnsApart`, `ClearedByPause`

  Main declarations:
    * `observed_observe`
    * `Tracked.next`
    * `backlogMonitor_spec`
-/

namespace Nidra

namespace Api

variable {τ : Type}

------------------------------------------------------------
-- The monitor
------------------------------------------------------------

/-
  The current run of strictly increasing pending counts of a
  consumer group.
-/
structure Streak (τ : Type) where
  startedAt : τ
  lastValue : ℤ
  warnedAt : Option τ

/- The threshold, and the streak of every group seen. -/
structure BacklogMonitor (τ : Type) where
  warnAfterS : τ
  streaks : AList (fun _ : String => Streak τ)

/- The pending counts of one poll, and its time. -/
structure Sample (τ : Type) where
  lag : AList (fun _ : String => ℤ)
  now : τ

/- A monitor that has seen no sample. -/
def BacklogMonitor.start
    (warnAfterS : τ) : BacklogMonitor τ :=
  { warnAfterS := warnAfterS
    streaks := ∅ }

/- Groups over the warning threshold, by name. -/
def BacklogMonitor.growing
    (m : BacklogMonitor τ) : List String :=
  ((m.streaks.entries.filter
      (fun e => e.2.warnedAt.isSome)).map
    Sigma.fst).mergeSort (fun a b => decide (a ≤ b))

section Observe

variable [AddCommGroup τ] [LinearOrder τ]

/-
  One count of one group: its streak from here on, and
  whether the group warns.
-/
def Streak.observe
    (warnAfterS now : τ)
    (value : ℤ) :
    Option (Streak τ) → Streak τ × Bool
  | none =>
      ({ startedAt := now
         lastValue := value
         warnedAt := none }, false)
  | some streak =>
      if value ≤ streak.lastValue then
        ({ startedAt := now
           lastValue := value
           warnedAt := none }, false)
      else
        let streak := { streak with lastValue := value }
        if now - streak.startedAt < warnAfterS then
          (streak, false)
        else if
            streak.warnedAt.any
              (fun warnedAt =>
                decide (now - warnedAt < warnAfterS)) then
          -- Already warning: once per interval.
          (streak, false)
        else ({ streak with warnedAt := some now }, true)

/- One count of a sample, with the groups that have warned. -/
def BacklogMonitor.observeCount
    (now : τ)
    (acc : BacklogMonitor τ × List String)
    (count : Σ _ : String, ℤ) :
    BacklogMonitor τ × List String :=
  let m := acc.1
  let observed :=
    Streak.observe m.warnAfterS now count.2
      (m.streaks.lookup count.1)
  ({ m with
      streaks := m.streaks.insert count.1 observed.1 },
    if observed.2 then acc.2 ++ [count.1] else acc.2)

/-
  Fold one sample in; with the groups that warned on this
  sample.
-/
def BacklogMonitor.observe
    (m : BacklogMonitor τ)
    (sample : Sample τ) :
    BacklogMonitor τ × List String :=
  sample.lag.entries.foldl
    (BacklogMonitor.observeCount sample.now) (m, [])

/- The monitor after some samples. -/
def BacklogMonitor.after
    (m : BacklogMonitor τ)
    (samples : List (Sample τ)) : BacklogMonitor τ :=
  samples.foldl (fun m sample => (m.observe sample).1) m

end Observe

------------------------------------------------------------
-- What a monitor is for
------------------------------------------------------------

/- A count of one group at a time. -/
structure Reading (τ : Type) where
  time : τ
  value : ℤ

/- The counts of a group in the samples that have it. -/
def history
    (stream : String)
    (samples : List (Sample τ)) : List (Reading τ) :=
  samples.filterMap (fun sample =>
    (sample.lag.lookup stream).map (fun value =>
      { time := sample.now
        value := value }))

def Rises (a b : Reading τ) : Prop :=
  a.value < b.value

instance : DecidableRel (Rises (τ := τ)) :=
  fun a b => inferInstanceAs (Decidable (a.value < b.value))

section Spec

variable [AddCommGroup τ] [LinearOrder τ]
variable (warnAfterS : τ)
variable (samples : List (Sample τ))
variable (stream : String)

/-
  A group is reported exactly when the run that its counts
  end with lasts for the threshold, from its first sample to
  this one.
-/
def GrowingExactly : Prop :=
  stream ∈
      ((BacklogMonitor.start warnAfterS).after
        samples).growing ↔
    ∃ run first last,
      (history stream samples).IsLastRun Rises run ∧
        run.head? = some first ∧ run.getLast? = some last ∧
        warnAfterS ≤ last.time - first.time

/- The group warns on a sample that follows some others. -/
def WarnsOn
    (before : List (Sample τ))
    (sample : Sample τ) : Prop :=
  stream ∈
    (((BacklogMonitor.start warnAfterS).after
      before).observe sample).2

/- Two warnings of one run are as far apart as that. -/
def WarnsApart : Prop :=
  ∀ before between later sample sample',
    samples =
        before ++ sample :: (between ++ sample' :: later) →
      (history stream
          (sample :: (between ++ [sample']))).IsChain Rises →
        WarnsOn warnAfterS stream before sample →
          WarnsOn warnAfterS stream
              (before ++ sample :: between) sample' →
            warnAfterS ≤ sample'.now - sample.now

/- A count that does not rise clears the group. -/
def ClearedByPause : Prop :=
  ∀ before sample value,
    samples = before ++ [sample] →
      sample.lag.lookup stream = some value →
        (∀ last ∈ (history stream before).getLast?,
          value ≤ last.value) →
            stream ∉
              ((BacklogMonitor.start warnAfterS).after
                samples).growing

end Spec

------------------------------------------------------------
-- One group
------------------------------------------------------------

/- The groups that are reported. -/
theorem mem_growing
    (m : BacklogMonitor τ)
    (stream : String) :
    stream ∈ m.growing ↔
      ∃ streak ∈ m.streaks.lookup stream,
        streak.warnedAt.isSome := by
  unfold BacklogMonitor.growing
  rw [List.mem_mergeSort, List.mem_map]
  constructor
  · rintro ⟨⟨key, streak⟩, hMem, rfl⟩
    rcases List.mem_filter.mp hMem with ⟨hEntry, hWarned⟩
    exact ⟨streak, AList.mem_lookup_iff.mpr hEntry, hWarned⟩
  · rintro ⟨streak, hLookup, hWarned⟩
    refine ⟨⟨stream, streak⟩, ?_, rfl⟩
    exact
      List.mem_filter.mpr
        ⟨AList.mem_lookup_iff.mp hLookup, hWarned⟩

section Groups

variable [AddCommGroup τ] [LinearOrder τ]

/- What the counts of a sample do to one group. -/
structure Observed
    (warnAfterS now : τ)
    (stream : String)
    (counts : List (Σ _ : String, ℤ))
    (m m' : BacklogMonitor τ)
    (warned warned' : List String) : Prop where
  threshold : m'.warnAfterS = m.warnAfterS
  streak :
    m'.streaks.lookup stream =
      match counts.dlookup stream with
      | none => m.streaks.lookup stream
      | some value =>
          some
            (Streak.observe warnAfterS now value
              (m.streaks.lookup stream)).1
  warned :
    stream ∈ warned' ↔
      stream ∈ warned ∨
        ∃ value ∈ counts.dlookup stream,
          (Streak.observe warnAfterS now value
            (m.streaks.lookup stream)).2 = true

/- A count warns of its own group only. -/
theorem mem_observeCount
    (now : τ)
    (m : BacklogMonitor τ)
    (warned : List String)
    (key : String)
    (value : ℤ)
    (stream : String) :
    stream ∈
        (BacklogMonitor.observeCount now (m, warned)
          ⟨key, value⟩).2 ↔
      stream ∈ warned ∨
        stream = key ∧
          (Streak.observe m.warnAfterS now value
            (m.streaks.lookup key)).2 = true := by
  simp only [BacklogMonitor.observeCount]
  split
  · rename_i hWarns
    simp [hWarns]
  · rename_i hQuiet
    simp [hQuiet]

/-
  The counts are folded in one by one, and each group has one
  at most.
-/
theorem observed_foldl
    (now : τ)
    (stream : String)
    {counts : List (Σ _ : String, ℤ)}
    (hNodup : counts.NodupKeys)
    (m : BacklogMonitor τ)
    (warned : List String) :
    Observed m.warnAfterS now stream counts m
      (counts.foldl (BacklogMonitor.observeCount now)
        (m, warned)).1
      warned
      (counts.foldl (BacklogMonitor.observeCount now)
        (m, warned)).2 := by
  induction counts generalizing m warned with
  | nil =>
      refine
        { threshold := rfl
          streak := rfl
          warned := ?_ }
      simp
  | cons count counts ih =>
      rcases count with ⟨key, value⟩
      rcases List.nodupKeys_cons.mp hNodup with
        ⟨hFresh, hRest⟩
      have hStep :=
        ih hRest
          (BacklogMonitor.observeCount now (m, warned)
            ⟨key, value⟩).1
          (BacklogMonitor.observeCount now (m, warned)
            ⟨key, value⟩).2
      rw [List.foldl_cons]
      by_cases hKey : key = stream
      · subst hKey
        have hNone : counts.dlookup key = none :=
          List.dlookup_eq_none.mpr hFresh
        have hSome :
            (⟨key, value⟩ :: counts : List (Σ _ : String, ℤ)
              ).dlookup key = some value :=
          List.dlookup_cons_eq counts key value
        refine
          { threshold := hStep.threshold
            streak := ?_
            warned := ?_ }
        · rw [hStep.streak, hNone, hSome]
          exact AList.lookup_insert _
        · rw [hStep.warned, hNone, hSome, mem_observeCount]
          simp
      · have hOther :
            (⟨key, value⟩ :: counts : List (Σ _ : String, ℤ)
              ).dlookup stream = counts.dlookup stream :=
          List.dlookup_cons_ne counts ⟨key, value⟩
            (Ne.symm hKey)
        have hSame :
            (BacklogMonitor.observeCount now (m, warned)
              ⟨key, value⟩).1.streaks.lookup stream =
                m.streaks.lookup stream :=
          AList.lookup_insert_ne (Ne.symm hKey)
        refine
          { threshold := hStep.threshold
            streak := ?_
            warned := ?_ }
        · rw [hStep.streak, hOther, hSame]
          rfl
        · rw [hStep.warned, hOther, hSame, mem_observeCount]
          simp [Ne.symm hKey]
          rfl

/- A sample does to a group what its count does. -/
theorem observed_observe
    (m : BacklogMonitor τ)
    (sample : Sample τ)
    (stream : String) :
    Observed m.warnAfterS sample.now stream
      sample.lag.entries m (m.observe sample).1 []
      (m.observe sample).2 :=
  observed_foldl sample.now stream sample.lag.nodupKeys m []

/- The threshold never changes. -/
@[simp] theorem warnAfterS_after
    (m : BacklogMonitor τ)
    (samples : List (Sample τ)) :
    (m.after samples).warnAfterS = m.warnAfterS := by
  induction samples generalizing m with
  | nil => rfl
  | cons sample samples ih =>
      have hRest := ih (m.observe sample).1
      exact hRest.trans (observed_observe m sample "").threshold

theorem after_concat
    (m : BacklogMonitor τ)
    (samples : List (Sample τ))
    (sample : Sample τ) :
    m.after (samples ++ [sample]) =
      ((m.after samples).observe sample).1 := by
  simp [BacklogMonitor.after]

end Groups

@[simp] theorem history_append
    (stream : String)
    (samples later : List (Sample τ)) :
    history stream (samples ++ later) =
      history stream samples ++ history stream later :=
  List.filterMap_append

theorem history_of_some
    {stream : String}
    {sample : Sample τ}
    {value : ℤ}
    (hValue : sample.lag.lookup stream = some value) :
    history stream [sample] =
      [{ time := sample.now
         value := value }] := by
  simp [history, hValue]

theorem history_of_none
    {stream : String}
    {sample : Sample τ}
    (hNone : sample.lag.lookup stream = none) :
    history stream [sample] = [] := by
  simp [history, hNone]

/- The times of a group are among those of the samples. -/
theorem time_mem_history
    {stream : String}
    {samples : List (Sample τ)}
    {reading : Reading τ}
    (hMem : reading ∈ history stream samples) :
    ∃ sample ∈ samples, sample.now = reading.time := by
  rcases List.mem_filterMap.mp hMem with
    ⟨sample, hSample, hReading⟩
  rcases Option.map_eq_some_iff.mp hReading with
    ⟨value, _, rfl⟩
  exact ⟨sample, hSample, rfl⟩

------------------------------------------------------------
-- The streak of a group
------------------------------------------------------------

section Tracking

variable [AddCommGroup τ] [LinearOrder τ]

/-
  A streak stands for the run that the counts end with: when
  it began, its last count, and whether it has lasted for the
  threshold.
-/
structure Tracked
    (warnAfterS : τ)
    (readings run : List (Reading τ))
    (first last : Reading τ)
    (streak : Streak τ) : Prop where
  isRun : readings.IsLastRun Rises run
  firstEq : run.head? = some first
  lastEq : readings.getLast? = some last
  startedAt : streak.startedAt = first.time
  lastValue : streak.lastValue = last.value
  warned :
    streak.warnedAt.isSome ↔
      warnAfterS ≤ last.time - first.time

variable {warnAfterS : τ}

/- A count that does not rise begins a streak. -/
theorem Tracked.restart
    (hThreshold : 0 < warnAfterS)
    {readings : List (Reading τ)}
    {reading : Reading τ}
    (hPause :
      ∀ last ∈ readings.getLast?,
        reading.value ≤ last.value) :
    Tracked warnAfterS (readings ++ [reading]) [reading]
      reading reading
      { startedAt := reading.time
        lastValue := reading.value
        warnedAt := none } := by
  refine
    { isRun := ?_
      firstEq := rfl
      lastEq := List.getLast?_concat
      startedAt := rfl
      lastValue := rfl
      warned := ?_ }
  · apply List.IsLastRun.restart
    intro last hLast hRises
    exact absurd hRises (not_lt.mpr (hPause last hLast))
  · rw [sub_self]
    simp [not_le.mpr hThreshold]

variable [IsOrderedAddMonoid τ]

/- A count that rises carries the streak on. -/
theorem Tracked.extend
    {readings run : List (Reading τ)}
    {first last reading : Reading τ}
    {streak : Streak τ}
    (hTracked :
      Tracked warnAfterS readings run first last streak)
    (hTime : last.time ≤ reading.time)
    (hRises : Rises last reading) :
    Tracked warnAfterS (readings ++ [reading])
      (run ++ [reading]) first reading
      (Streak.observe warnAfterS reading.time reading.value
        (some streak)).1 := by
  have hRun := hTracked.isRun.extend hTracked.lastEq hRises
  have hHead : (run ++ [reading]).head? = some first := by
    rw [List.head?_append, hTracked.firstEq]
    rfl
  have hNotPause : ¬ reading.value ≤ streak.lastValue := by
    rw [hTracked.lastValue]
    exact not_le.mpr hRises
  have hStarted := hTracked.startedAt
  simp only [Streak.observe, if_neg hNotPause]
  by_cases hShort :
      reading.time - streak.startedAt < warnAfterS
  · rw [if_pos hShort]
    rw [hStarted] at hShort
    refine
      { isRun := hRun
        firstEq := hHead
        lastEq := List.getLast?_concat
        startedAt := hStarted
        lastValue := rfl
        warned := ?_ }
    -- A run that is too short now was too short before.
    have hBefore : ¬ warnAfterS ≤ last.time - first.time := by
      apply not_le.mpr
      exact lt_of_le_of_lt (sub_le_sub_right hTime _) hShort
    exact
      iff_of_false
        (fun hSome => hBefore (hTracked.warned.mp hSome))
        (not_le.mpr hShort)
  · rw [if_neg hShort]
    rw [hStarted, not_lt] at hShort
    split
    · rename_i hRecent
      refine
        { isRun := hRun
          firstEq := hHead
          lastEq := List.getLast?_concat
          startedAt := hStarted
          lastValue := rfl
          warned := ?_ }
      have hSome : streak.warnedAt.isSome := by
        cases hWarned : streak.warnedAt with
        | none =>
            rw [hWarned] at hRecent
            cases hRecent
        | some warnedAt => rfl
      exact iff_of_true hSome hShort
    · exact
        { isRun := hRun
          firstEq := hHead
          lastEq := List.getLast?_concat
          startedAt := hStarted
          lastValue := rfl
          warned := iff_of_true rfl hShort }

/- One more count of a group, whether it rises or not. -/
theorem Tracked.next
    (hThreshold : 0 < warnAfterS)
    {readings run : List (Reading τ)}
    {first last reading : Reading τ}
    {streak : Streak τ}
    (hTracked :
      Tracked warnAfterS readings run first last streak)
    (hTime : last.time ≤ reading.time) :
    ∃ run' first',
      Tracked warnAfterS (readings ++ [reading]) run' first'
        reading
        (Streak.observe warnAfterS reading.time reading.value
          (some streak)).1 := by
  by_cases hRises : Rises last reading
  · exact
      ⟨run ++ [reading], first,
        hTracked.extend hTime hRises⟩
  · have hPause : reading.value ≤ last.value :=
      not_lt.mp hRises
    have hRestart :
        (Streak.observe warnAfterS reading.time reading.value
          (some streak)).1 =
            { startedAt := reading.time
              lastValue := reading.value
              warnedAt := none } := by
      rw [← hTracked.lastValue] at hPause
      simp only [Streak.observe, if_pos hPause]
    rw [hRestart]
    refine
      ⟨[reading], reading, Tracked.restart hThreshold ?_⟩
    intro last' hLast'
    rw [hTracked.lastEq] at hLast'
    cases hLast'
    exact hPause

end Tracking

------------------------------------------------------------
-- Every run
------------------------------------------------------------

section Runs

variable [AddCommGroup τ] [LinearOrder τ]
variable [IsOrderedAddMonoid τ]
variable {warnAfterS : τ}
variable {stream : String}

/- The streak of a group after some samples. -/
def Follows
    (warnAfterS : τ)
    (stream : String)
    (samples : List (Sample τ)) : Prop :=
  let streak? :=
    ((BacklogMonitor.start warnAfterS).after
      samples).streaks.lookup stream
  (history stream samples = [] ∧ streak? = none) ∨
    ∃ streak run first last,
      streak? = some streak ∧
        Tracked warnAfterS (history stream samples) run first
          last streak

theorem follows_concat
    (hThreshold : 0 < warnAfterS)
    {samples : List (Sample τ)}
    {sample : Sample τ}
    (hTimes :
      ∀ earlier ∈ samples, earlier.now ≤ sample.now)
    (hFollows : Follows warnAfterS stream samples) :
    Follows warnAfterS stream (samples ++ [sample]) := by
  have hObserved :=
    observed_observe
      ((BacklogMonitor.start warnAfterS).after samples) sample
      stream
  have hStreak := hObserved.streak
  rw [warnAfterS_after, ← after_concat] at hStreak
  unfold Follows
  rw [history_append]
  cases hCount : sample.lag.lookup stream with
  | none =>
      have hNone :
          sample.lag.entries.dlookup stream = none := hCount
      rw [hNone] at hStreak
      rw [history_of_none hCount, List.append_nil, hStreak]
      exact hFollows
  | some value =>
      have hSome :
          sample.lag.entries.dlookup stream = some value :=
        hCount
      rw [hSome] at hStreak
      rw [history_of_some hCount, hStreak]
      right
      rcases hFollows with
        ⟨hEmpty, hNone⟩ |
          ⟨streak, run, first, last, hLookup, hTracked⟩
      · rw [hEmpty, hNone]
        refine
          ⟨_, _, _, _, rfl, Tracked.restart hThreshold ?_⟩
        intro last hLast
        cases hLast
      · rw [hLookup]
        let reading : Reading τ :=
          { time := sample.now
            value := value }
        have hTime : last.time ≤ reading.time := by
          rcases time_mem_history
              (List.mem_of_mem_getLast? hTracked.lastEq) with
            ⟨earlier, hEarlier, hNow⟩
          rw [← hNow]
          exact hTimes earlier hEarlier
        rcases hTracked.next hThreshold hTime with
          ⟨run', first', hNext⟩
        exact ⟨_, run', first', _, rfl, hNext⟩

theorem follows_after
    (hThreshold : 0 < warnAfterS)
    {samples : List (Sample τ)}
    (hTimes :
      samples.Pairwise (fun s s' => s.now ≤ s'.now)) :
    Follows warnAfterS stream samples := by
  induction samples using List.reverseRecOn with
  | nil => exact Or.inl ⟨rfl, rfl⟩
  | append_singleton samples sample ih =>
      rcases List.pairwise_append.mp hTimes with
        ⟨hBefore, _, hLater⟩
      apply follows_concat hThreshold
      · intro earlier hEarlier
        exact
          hLater earlier hEarlier sample
            (List.mem_singleton.mpr rfl)
      · exact ih hBefore

omit [IsOrderedAddMonoid τ] in
/- A group is reported while its run has lasted. -/
theorem growingExactly_of_follows
    {samples : List (Sample τ)}
    (hFollows : Follows warnAfterS stream samples) :
    GrowingExactly warnAfterS samples stream := by
  unfold GrowingExactly
  rw [mem_growing]
  rcases hFollows with
    ⟨hEmpty, hNone⟩ |
      ⟨streak, run, first, last, hLookup, hTracked⟩
  · rw [hNone, hEmpty]
    refine iff_of_false ?_ ?_
    · rintro ⟨streak, hStreak, _⟩
      cases hStreak
    · rintro ⟨run, first, last, hRun, hFirst, _⟩
      rw [List.suffix_nil.mp hRun.suffix] at hFirst
      cases hFirst
  · rw [hLookup]
    constructor
    · rintro ⟨streak', hStreak, hWarned⟩
      cases hStreak
      refine
        ⟨run, first, last, hTracked.isRun, hTracked.firstEq,
          ?_, hTracked.warned.mp hWarned⟩
      rw [hTracked.isRun.getLast?_eq]
      exact hTracked.lastEq
    · rintro ⟨run', first', last', hRun, hFirst, hLast, hLong⟩
      have hSame := hTracked.isRun.unique hRun
      subst hSame
      rw [hTracked.firstEq] at hFirst
      rw [hRun.getLast?_eq, hTracked.lastEq] at hLast
      cases hFirst
      cases hLast
      exact ⟨streak, rfl, hTracked.warned.mpr hLong⟩

omit [IsOrderedAddMonoid τ] in
/- What a count that does not rise leaves is not reported. -/
theorem clearedByPause_of_follows
    {samples : List (Sample τ)}
    (hFollows :
      ∀ before, before <+: samples →
        Follows warnAfterS stream before) :
    ClearedByPause warnAfterS samples stream := by
  rintro before sample value rfl hCount hPause hGrowing
  rcases (mem_growing _ _).mp hGrowing with
    ⟨streak', hStreak', hWarned⟩
  have hStreak :=
    (observed_observe
      ((BacklogMonitor.start warnAfterS).after before) sample
      stream).streak
  have hSome :
      sample.lag.entries.dlookup stream = some value := hCount
  rw [warnAfterS_after, ← after_concat, hStreak', hSome]
    at hStreak
  cases Option.some.inj hStreak
  have hCleared :
      (Streak.observe warnAfterS sample.now value
        (((BacklogMonitor.start warnAfterS).after
          before).streaks.lookup stream)).1.warnedAt =
            none := by
    rcases hFollows before (List.prefix_append _ _) with
      ⟨_, hNone⟩ |
        ⟨streak, run, first, last, hLookup, hTracked⟩
    · rw [hNone]
      rfl
    · rw [hLookup]
      have hNotRising : value ≤ streak.lastValue := by
        rw [hTracked.lastValue]
        exact hPause last hTracked.lastEq
      simp only [Streak.observe, if_pos hNotRising]
  rw [show (BacklogMonitor.start warnAfterS).warnAfterS =
    warnAfterS from rfl, hCleared] at hWarned
  cases hWarned

omit [IsOrderedAddMonoid τ] in
/- A count that warns goes on with a streak that is due. -/
theorem observe_warns
    {now : τ}
    {value : ℤ}
    {streak? : Option (Streak τ)}
    (hWarns :
      (Streak.observe warnAfterS now value streak?).2 =
        true) :
    ∃ streak,
      streak? = some streak ∧
        (∀ warnedAt ∈ streak.warnedAt,
          warnAfterS ≤ now - warnedAt) ∧
        (Streak.observe warnAfterS now value streak?).1 =
          { streak with
            lastValue := value
            warnedAt := some now } := by
  cases streak? with
  | none => cases hWarns
  | some streak =>
      refine ⟨streak, rfl, ?_⟩
      simp only [Streak.observe] at hWarns ⊢
      split at hWarns
      · cases hWarns
      · rename_i hRises
        rw [if_neg hRises]
        split at hWarns
        · cases hWarns
        · rename_i hLong
          rw [if_neg hLong]
          split at hWarns
          · cases hWarns
          · rename_i hDue
            rw [if_neg hDue]
            refine ⟨?_, rfl⟩
            intro warnedAt hWarned
            rw [hWarned] at hDue
            simpa using hDue

omit [IsOrderedAddMonoid τ] in
/- A count that rises does not forget the last warning. -/
theorem observe_rises
    (threshold now : τ)
    {value : ℤ}
    {streak : Streak τ}
    (hRises : streak.lastValue < value) :
    let next :=
      (Streak.observe threshold now value (some streak)).1
    next.lastValue = value ∧
      (next.warnedAt = streak.warnedAt ∨
        next.warnedAt = some now) := by
  intro next
  simp only [next, Streak.observe, if_neg (not_le.mpr hRises)]
  split
  · exact ⟨rfl, Or.inl rfl⟩
  · split
    · exact ⟨rfl, Or.inl rfl⟩
    · exact ⟨rfl, Or.inr rfl⟩

/- The group has warned since a time, and its last count. -/
def WarnedSince
    (m : BacklogMonitor τ)
    (stream : String)
    (since : τ)
    (value : ℤ) : Prop :=
  ∃ streak ∈ m.streaks.lookup stream,
    streak.lastValue = value ∧
      ∃ warnedAt ∈ streak.warnedAt, since ≤ warnedAt

omit [IsOrderedAddMonoid τ] in
/- A run that goes on has warned since then. -/
theorem warnedSince_after
    {m : BacklogMonitor τ}
    {since : τ}
    {reading : Reading τ}
    (hWarned : WarnedSince m stream since reading.value)
    {samples : List (Sample τ)}
    (hTimes : ∀ sample ∈ samples, since ≤ sample.now)
    (hChain :
      (reading :: history stream samples).IsChain Rises) :
    ∃ last,
      (reading :: history stream samples).getLast? =
          some last ∧
        WarnedSince (m.after samples) stream since
          last.value := by
  induction samples using List.reverseRecOn with
  | nil => exact ⟨reading, rfl, hWarned⟩
  | append_singleton samples sample ih =>
      rw [history_append, ← List.cons_append] at hChain ⊢
      rcases List.isChain_append.mp hChain with
        ⟨hBefore, _, hJoin⟩
      rcases ih
          (fun s hMem =>
            hTimes s (List.mem_append_left _ hMem))
          hBefore with
        ⟨last, hLast, streak, hStreak, hValue, warnedAt,
          hAt, hSince⟩
      have hObserved :=
        (observed_observe (m.after samples) sample
          stream).streak
      rw [← after_concat] at hObserved
      cases hCount : sample.lag.lookup stream with
      | none =>
          have hNone :
              sample.lag.entries.dlookup stream = none :=
            hCount
          rw [hNone] at hObserved
          rw [history_of_none hCount, List.append_nil]
          refine
            ⟨last, hLast, streak, ?_, hValue, warnedAt, hAt,
              hSince⟩
          rw [hObserved]
          exact hStreak
      | some value =>
          have hSome :
              sample.lag.entries.dlookup stream =
                some value := hCount
          rw [hSome, Option.mem_def.mp hStreak] at hObserved
          rw [history_of_some hCount] at hJoin ⊢
          have hRises :=
            hJoin last hLast
              { time := sample.now
                value := value } rfl
          have hRises' : streak.lastValue < value := by
            rw [hValue]
            exact hRises
          rcases observe_rises (m.after samples).warnAfterS
              sample.now hRises' with
            ⟨hNext, hKept | hNow⟩
          · exact
              ⟨_, List.getLast?_concat, _, hObserved, hNext,
                warnedAt, by rw [hKept]; exact hAt, hSince⟩
          · refine
              ⟨_, List.getLast?_concat, _, hObserved, hNext,
                sample.now, hNow, ?_⟩
            exact
              hTimes sample
                (List.mem_append_right _
                  (List.mem_singleton.mpr rfl))

/- Two warnings of a run are apart by the threshold. -/
theorem warnsApart_of_pairwise
    {samples : List (Sample τ)}
    (hTimes :
      samples.Pairwise (fun s s' => s.now ≤ s'.now)) :
    WarnsApart warnAfterS samples stream := by
  rintro before between later sample sample' rfl hChain
    hFirst hSecond
  rcases List.pairwise_append.mp hTimes with ⟨_, hAfter, _⟩
  rcases List.pairwise_cons.mp hAfter with ⟨hSince, _⟩
  let m := (BacklogMonitor.start warnAfterS).after before
  -- The first warning is remembered with its count.
  have hObserved := observed_observe m sample stream
  rcases hObserved.warned.mp hFirst with
    hNone | ⟨value, hCount, hWarns⟩
  · cases hNone
  rcases observe_warns hWarns with
    ⟨streak, hLookup, _, hWarned⟩
  have hStreak := hObserved.streak
  rw [Option.mem_def.mp hCount] at hStreak
  dsimp only at hStreak
  rw [hWarned, ← after_concat] at hStreak
  have hReading := history_of_some hCount
  have hSplit :
      history stream (sample :: (between ++ [sample'])) =
        { time := sample.now
          value := value } ::
          (history stream between ++
            history stream [sample']) := by
    rw [← List.singleton_append, history_append, hReading,
      history_append]
    rfl
  rw [hSplit, ← List.cons_append] at hChain
  rcases List.isChain_append.mp hChain with
    ⟨hRun, _, hJoin⟩
  have hRemembered :
      WarnedSince
        ((BacklogMonitor.start warnAfterS).after
          (before ++ [sample]))
        stream sample.now value :=
    ⟨_, hStreak, rfl, sample.now, rfl, le_refl _⟩
  rcases warnedSince_after hRemembered
      (fun s hMem =>
        hSince s (List.mem_append_left _ hMem)) hRun with
    ⟨last, _, streak', hLookup', _, warnedAt, hAt, hLe⟩
  -- The second one is due after it.
  have hAll :
      ((BacklogMonitor.start warnAfterS).after
          (before ++ [sample])).after between =
        (BacklogMonitor.start warnAfterS).after
          (before ++ sample :: between) := by
    simp [BacklogMonitor.after]
  rw [hAll] at hLookup'
  have hObserved' :=
    observed_observe
      ((BacklogMonitor.start warnAfterS).after
        (before ++ sample :: between)) sample' stream
  rcases hObserved'.warned.mp hSecond with
    hNone | ⟨value', _, hWarns'⟩
  · cases hNone
  rcases observe_warns hWarns' with
    ⟨streak₂, hLookup₂, hDue, _⟩
  rw [Option.mem_def.mp hLookup'] at hLookup₂
  cases hLookup₂
  have hApart := hDue warnedAt hAt
  rw [warnAfterS_after] at hApart
  exact hApart.trans (sub_le_sub_left hLe sample'.now)

/-
  A group is reported exactly while its counts have risen for
  the threshold, warnings of one run are as far apart, and a
  count that does not rise clears the group.
-/
theorem backlogMonitor_spec
    (hThreshold : 0 < warnAfterS)
    {samples : List (Sample τ)}
    (hTimes :
      samples.Pairwise (fun s s' => s.now ≤ s'.now))
    (stream : String) :
    GrowingExactly warnAfterS samples stream ∧
      WarnsApart warnAfterS samples stream ∧
        ClearedByPause warnAfterS samples stream := by
  refine ⟨?_, ?_, ?_⟩
  · exact
      growingExactly_of_follows
        (follows_after hThreshold hTimes)
  · exact warnsApart_of_pairwise hTimes
  · apply clearedByPause_of_follows
    intro before hPrefix
    exact
      follows_after hThreshold
        (hTimes.sublist hPrefix.sublist)

/- Half a minute of growth, on counts 1, 2 and 4. -/
theorem backlogMonitor_spec_halfMinute :
    let lag : ℤ → AList (fun _ : String => ℤ) :=
      fun value => AList.singleton "raw_events" value
    let samples : List (Sample ℚ) :=
      [{ lag := lag 1
         now := 0 },
        { lag := lag 2
          now := 15 },
        { lag := lag 4
          now := 30 }]
    GrowingExactly 30 samples "raw_events" ∧
      WarnsApart 30 samples "raw_events" ∧
        ClearedByPause 30 samples "raw_events" := by
  intro lag samples
  apply backlogMonitor_spec
  · norm_num
  · norm_num [samples]

end Runs

end Api

end Nidra
