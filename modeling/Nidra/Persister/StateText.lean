import Nidra.Lib.PyFloat
import Nidra.Lib.PyJson
import Nidra.Lib.PyTime
import Nidra.Lib.PyUuid
import Nidra.Lib.TtlStore
import Nidra.Persister.Episodes

/-
  This file defines how the state of a host is kept in Redis,
  as a hash whose fields are texts, and proves that what was
  written last is what is read, whatever was written before.
  The worker is defined over hashes whose fields are values;
  these texts stand for such a hash through any writes.

  Key definitions include:
    * `StoredEpisode`, `StoredState`
    * `HashField`, `HashFields`
    * `mapping`, `writeState`, `writeStates`, `readState`
    * `StoredState.plain`, `Encodes`

  Main declarations:
    * `readFields_overwrite`
    * `readState_writeStates`
    * `Encodes.overwrite`, `Encodes.read`
    * `readFields_overwrites`
-/

namespace Nidra

namespace Persister

namespace StateText

------------------------------------------------------------
-- What is stored
------------------------------------------------------------

/- The running aggregate of an episode that is open. -/
structure StoredEpisode where
  id : Uuid
  startedAt : UtcTime
  peakRisk : PyFloat
  stages : List String
  firstAlertAt : Option UtcTime
  above : ℤ
  below : ℤ
deriving DecidableEq

/- Everything that is remembered about one host. -/
structure StoredState where
  lastTs : Option UtcTime := none
  episode : Option StoredEpisode := none
deriving DecidableEq

/- The fields of a hash. -/
inductive HashField where
  | lastTs
  | id
  | startedAt
  | peakRisk
  | stages
  | firstAlertAt
  | above
  | below
deriving DecidableEq

def HashField.text : HashField → String
  | .lastTs => "last_ts"
  | .id => "id"
  | .startedAt => "started_at"
  | .peakRisk => "peak_risk"
  | .stages => "stages"
  | .firstAlertAt => "first_alert_at"
  | .above => "above"
  | .below => "below"

def hashFields : List HashField :=
  [.lastTs, .id, .startedAt, .peakRisk, .stages,
    .firstAlertAt, .above, .below]

/- The fields of an open aggregate. -/
def openFields : List HashField :=
  [.id, .startedAt, .peakRisk, .stages, .firstAlertAt,
    .above, .below]

/- The texts of a hash, where it has the field. -/
abbrev HashFields :=
  HashField → Option String

namespace HashFields

def hdel
    (names : List HashField)
    (fields : HashFields) : HashFields :=
  fun name => if name ∈ names then none else fields name

def hset
    (fields mapping : HashFields) : HashFields :=
  fun name => (mapping name).or (fields name)

/- A hash without fields is no key. -/
def isEmpty (fields : HashFields) : Bool :=
  hashFields.all (fun name => (fields name).isNone)

end HashFields

/- The hashes of all hosts, by the text of their keys. -/
abbrev HashStore :=
  TtlStore ℚ String HashFields

def hashTtlS : ℚ := 24 * 3600

def hashKey (tenantId hostId : String) : String :=
  "ep:" ++ tenantId ++ ":" ++ hostId

------------------------------------------------------------
-- Writing
------------------------------------------------------------

/- The text that `repr` gives for a float. -/
variable (floatRepr : PyFloat → String)

/-
  The fields that are set. A counter with too many digits for
  a text raises.
-/
def mapping (state : StoredState) : Option HashFields :=
  match state.episode with
  | none =>
      some (fun name =>
        match name with
        | .lastTs => state.lastTs.map UtcTime.isoformat
        | _ => none)
  | some episode => do
      let above ← PyText.strInt episode.above
      let below ← PyText.strInt episode.below
      return fun name =>
        match name with
        | .lastTs => state.lastTs.map UtcTime.isoformat
        | .id => some episode.id.str
        | .startedAt => some episode.startedAt.isoformat
        | .peakRisk => some (floatRepr episode.peakRisk)
        | .stages => some (PyJson.dumps episode.stages)
        | .firstAlertAt =>
            episode.firstAlertAt.map UtcTime.isoformat
        | .above => some above
        | .below => some below

/- The fields that are left of what was there. -/
def kept
    (state : StoredState)
    (fields : HashFields) : HashFields :=
  match state.episode with
  | none => fields.hdel openFields
  | some episode =>
      match episode.firstAlertAt with
      | none => fields.hdel [.firstAlertAt]
      | some _ => fields

/- The fields after a write over those that were there. -/
def overwrite
    (state : StoredState)
    (fields : HashFields) : Option HashFields :=
  (mapping floatRepr state).map
    (fun mapping => (kept state fields).hset mapping)

/- Write a state, and renew the key. -/
def writeState
    (store : HashStore)
    (nowS : ℚ)
    (key : String)
    (state : StoredState) : Option HashStore := do
  let fields ←
    overwrite floatRepr state
      ((store.get nowS key).getD (fun _ => none))
  if fields.isEmpty then return store.delete key
  else return store.renew nowS hashTtlS key fields

/- A state, and when it is written. -/
structure StateWrite where
  nowS : ℚ
  state : StoredState

/- Write states to one key, one after the other. -/
def writeStates
    (key : String)
    (store : HashStore)
    (writes : List StateWrite) : Option HashStore :=
  writes.foldlM
    (fun store write =>
      writeState floatRepr store write.nowS key write.state)
    store

------------------------------------------------------------
-- Reading
------------------------------------------------------------

/- The time of a text; an empty text is none. -/
def optionalTime : Option String → Option (Option UtcTime)
  | none => some none
  | some text =>
      if text = "" then some none
      else (UtcTime.ofText text).map some

/-
  The state of the fields. A field of an open aggregate that
  is missing raises, and so does a text that cannot be read.
-/
def readFields (fields : HashFields) : Option StoredState := do
  let lastTs ← optionalTime (fields .lastTs)
  match fields .id with
  | none => return { lastTs := lastTs }
  | some id => do
      let id ← Uuid.ofText id
      let startedAt ← fields .startedAt >>= UtcTime.ofText
      let peakRisk ← fields .peakRisk >>= PyFloat.ofText
      let stages ← fields .stages >>= PyJson.loads
      let firstAlertAt ← optionalTime (fields .firstAlertAt)
      let above ← fields .above >>= PyText.intDecimal
      let below ← fields .below >>= PyText.intDecimal
      return {
        lastTs := lastTs
        episode :=
          some
            { id := id
              startedAt := startedAt
              peakRisk := peakRisk
              stages := stages
              firstAlertAt := firstAlertAt
              above := above
              below := below } }

/- The state of a host; without a hash nothing happened. -/
def readState
    (store : HashStore)
    (nowS : ℚ)
    (key : String) : Option StoredState :=
  match store.get nowS key with
  | none => some {}
  | some fields =>
      if fields.isEmpty then some {} else readFields fields

------------------------------------------------------------
-- Reading what was written
------------------------------------------------------------

/- A time that was written, if any was, is read back. -/
theorem optionalTime_isoformat (t : Option UtcTime) :
    optionalTime (t.map UtcTime.isoformat) = some t := by
  cases t with
  | none => rfl
  | some t =>
      have hText : t.isoformat ≠ "" := by
        intro hEmpty
        have hRead := UtcTime.ofText_isoformat t
        rw [hEmpty] at hRead
        have hNone : UtcTime.ofText "" = none := by
          decide +kernel
        rw [hNone] at hRead
        cases hRead
      simp only [Option.map_some, optionalTime, if_neg hText,
        UtcTime.ofText_isoformat]

/-
  Over whatever fields, a state that was written is read
  back.
-/
theorem readFields_overwrite
    {state : StoredState}
    (hLast : state.lastTs.isSome)
    (hRepr :
      ∀ episode ∈ state.episode,
        PyFloat.ofText (floatRepr episode.peakRisk) =
          some episode.peakRisk)
    {fields written : HashFields}
    (hWritten :
      overwrite floatRepr state fields = some written) :
    readFields written = some state := by
  rcases state with ⟨last, episode⟩
  rcases Option.isSome_iff_exists.mp hLast with ⟨lastTs, hTs⟩
  dsimp only at hTs
  subst hTs
  have hLastRead := optionalTime_isoformat (some lastTs)
  cases episode with
  | none =>
      cases hWritten
      unfold readFields
      simp only [HashFields.hset, HashFields.hdel, kept,
        Option.map_some, Option.some_or, Option.none_or]
        at hLastRead ⊢
      rw [hLastRead]
      rfl
  | some episode =>
      rw [overwrite, Option.map_eq_some_iff] at hWritten
      rcases hWritten with ⟨set, hSet, rfl⟩
      rw [mapping] at hSet
      simp only [Option.bind_eq_bind, Option.bind_eq_some_iff]
        at hSet
      rcases hSet with ⟨above, hAbove, below, hBelow, hSet⟩
      cases hSet
      have hAlertRead :=
        optionalTime_isoformat episode.firstAlertAt
      have hAlert :
          ((episode.firstAlertAt.map UtcTime.isoformat).or
              (kept
                { lastTs := some lastTs
                  episode := some episode }
                fields .firstAlertAt)) =
            episode.firstAlertAt.map UtcTime.isoformat := by
        cases hFirst : episode.firstAlertAt with
        | none => simp [kept, hFirst, HashFields.hdel]
        | some alertAt => rfl
      unfold readFields
      simp only [HashFields.hset, Option.map_some,
        Option.some_or, Option.bind_eq_bind, Option.bind_some]
        at hLastRead ⊢
      rw [hLastRead, hAlert, hAlertRead, Uuid.ofText_str,
        UtcTime.ofText_isoformat, hRepr episode rfl,
        PyJson.loads_dumps, PyText.intDecimal_strInt hAbove,
        PyText.intDecimal_strInt hBelow]
      rfl

/- A hash that a state was written to has a field. -/
theorem isEmpty_overwrite
    {state : StoredState}
    (hLast : state.lastTs.isSome)
    {fields written : HashFields}
    (hWritten :
      overwrite floatRepr state fields = some written) :
    written.isEmpty = false := by
  have hField : (written .lastTs).isNone = false := by
    rcases state with ⟨last, episode⟩
    rcases Option.isSome_iff_exists.mp hLast with ⟨lastTs, hTs⟩
    dsimp only at hTs
    subst hTs
    cases episode with
    | none =>
        cases hWritten
        rfl
    | some episode =>
        rw [overwrite, Option.map_eq_some_iff] at hWritten
        rcases hWritten with ⟨set, hSet, rfl⟩
        rw [mapping] at hSet
        simp only [Option.bind_eq_bind,
          Option.bind_eq_some_iff] at hSet
        rcases hSet with ⟨above, _, below, _, hSet⟩
        cases hSet
        rfl
  unfold HashFields.isEmpty
  rw [List.all_eq_false]
  refine ⟨.lastTs, by decide, ?_⟩
  rw [hField]
  exact Bool.false_ne_true

/-
  After any states, the last one is read until the key has
  expired, whatever the store was before.
-/
theorem readState_writeStates
    {store written : HashStore}
    {tenantId hostId : String}
    {writes : List StateWrite}
    {last : StateWrite}
    (hLast : last.state.lastTs.isSome)
    (hRepr :
      ∀ episode ∈ last.state.episode,
        PyFloat.ofText (floatRepr episode.peakRisk) =
          some episode.peakRisk)
    (hWritten :
      writeStates floatRepr (hashKey tenantId hostId) store
          (writes ++ [last]) =
        some written)
    (nowS : ℚ) :
    readState written nowS (hashKey tenantId hostId) =
      if nowS < last.nowS + hashTtlS then some last.state
      else some {} := by
  unfold writeStates at hWritten
  rw [List.foldlM_append, Option.bind_eq_bind,
    Option.bind_eq_some_iff] at hWritten
  rcases hWritten with ⟨before, _, hWrite⟩
  simp only [List.foldlM_cons, List.foldlM_nil,
    Option.bind_eq_bind, Option.pure_def, writeState,
    Option.bind_eq_some_iff] at hWrite
  rcases hWrite with
    ⟨after, ⟨fields, hFields, hStored⟩, hSame⟩
  cases hSame
  rw [isEmpty_overwrite floatRepr hLast hFields] at hStored
  cases hStored
  unfold readState
  rw [TtlStore.get_renew_self]
  split_ifs with hAlive
  · dsimp only
    rw [isEmpty_overwrite floatRepr hLast hFields]
    exact
      readFields_overwrite floatRepr hLast hRepr hFields
  · rfl

/- An alert, and then an episode that has none. -/
theorem readState_writeStates_noAlert :
    let time : UtcTime :=
      ⟨{ year := 2026
         month := 2
         day := 28
         hour := 9
         minute := 5
         second := 0
         microsecond := 250000 }, by decide +kernel⟩
    let episode : StoredEpisode :=
      { id := 7
        startedAt := time
        peakRisk := .finite (3 / 4)
        stages := ["recon", "c2 \"beacon\""]
        firstAlertAt := some time
        above := 3
        below := 0 }
    let last : StateWrite :=
      { nowS := 60
        state :=
          { lastTs := some time
            episode := some { episode with firstAlertAt := none } } }
    (writeStates (fun _ => "0.75") (hashKey "acme" "10.0.0.1")
        TtlStore.empty
        [{ nowS := 0
           state :=
            { lastTs := some time
              episode := some episode } }, last]).map
        (fun store =>
          readState store 100 (hashKey "acme" "10.0.0.1")) =
      some (some last.state) := by
  intro time episode last
  have hSome :
      (writeStates (fun _ => "0.75")
        (hashKey "acme" "10.0.0.1") TtlStore.empty
        ([{ nowS := 0
            state :=
              { lastTs := some time
                episode := some episode } }] ++
          [last])).isSome = true := by
    decide +kernel
  rcases Option.isSome_iff_exists.mp hSome with
    ⟨written, hWritten⟩
  have hRepr :
      ∀ e ∈ last.state.episode,
        PyFloat.ofText "0.75" = some e.peakRisk := by
    intro e hMem
    cases hMem
    decide +kernel
  have hRead :=
    readState_writeStates (fun _ => "0.75") rfl hRepr hWritten
      100
  rw [List.singleton_append] at hWritten
  rw [hWritten, Option.map_some, hRead]
  exact congrArg some (if_pos (by decide +kernel))

------------------------------------------------------------
-- The hash of the worker
------------------------------------------------------------

section Plain

variable {𝕜 : Type}

-- Times and risks as the numbers that the worker compares.
variable (seconds : UtcTime → ℚ)
variable (risk : PyFloat → 𝕜)

def StoredEpisode.plain
    (episode : StoredEpisode) : OpenEpisode 𝕜 :=
  { id := episode.id
    startedAt := seconds episode.startedAt
    peakRisk := risk episode.peakRisk
    stages := episode.stages
    firstAlertAt := episode.firstAlertAt.map seconds
    above := episode.above
    below := episode.below }

def StoredState.plain
    (state : StoredState) : HostEpisodeState 𝕜 :=
  { lastTs := state.lastTs.map seconds
    episode :=
      state.episode.map (StoredEpisode.plain seconds risk) }

/- A text stands for a value, or both are missing. -/
def StandsFor
    {β γ : Type}
    (ofText : String → Option β)
    (plain : β → γ)
    (text : Option String)
    (value : Option γ) : Prop :=
  match text with
  | none => value = none
  | some text =>
      ∃ b, ofText text = some b ∧ value = some (plain b)

/- The texts of a hash stand for the fields of the worker's. -/
structure Encodes
    (fields : HashFields)
    (hash : EpisodeHash 𝕜) : Prop where
  lastTs :
    StandsFor UtcTime.ofText seconds (fields .lastTs)
      hash.lastTs
  id : StandsFor Uuid.ofText Fin.val (fields .id) hash.id
  startedAt :
    StandsFor UtcTime.ofText seconds (fields .startedAt)
      hash.startedAt
  peakRisk :
    StandsFor PyFloat.ofText risk (fields .peakRisk)
      hash.peakRisk
  stages :
    StandsFor PyJson.loads (fun stages => stages)
      (fields .stages) hash.stages
  firstAlertAt :
    StandsFor UtcTime.ofText seconds (fields .firstAlertAt)
      hash.firstAlertAt
  above :
    StandsFor PyText.intDecimal (fun n => n) (fields .above)
      hash.above
  below :
    StandsFor PyText.intDecimal (fun n => n) (fields .below)
      hash.below

/- A time over a time that was there. -/
theorem standsFor_time
    {text : Option String}
    {value : Option ℚ}
    (hFormer : StandsFor UtcTime.ofText seconds text value)
    (t : Option UtcTime) :
    StandsFor UtcTime.ofText seconds
      ((t.map UtcTime.isoformat).or text)
      ((t.map seconds).or value) := by
  cases t with
  | none => exact hFormer
  | some t => exact ⟨t, UtcTime.ofText_isoformat t, rfl⟩

variable {seconds risk}

/- A write keeps the texts and the values together. -/
theorem Encodes.overwrite
    {fields written : HashFields}
    {hash : EpisodeHash 𝕜}
    (hEncodes : Encodes seconds risk fields hash)
    {state : StoredState}
    (hRepr :
      ∀ episode ∈ state.episode,
        PyFloat.ofText (floatRepr episode.peakRisk) =
          some episode.peakRisk)
    (hWritten :
      overwrite floatRepr state fields = some written) :
    Encodes seconds risk written
      (hash.write (state.plain seconds risk)) := by
  rcases state with ⟨last, episode⟩
  have hLast :=
    standsFor_time seconds hEncodes.lastTs last
  cases episode with
  | none =>
      cases hWritten
      exact
        { lastTs := hLast
          id := rfl
          startedAt := rfl
          peakRisk := rfl
          stages := rfl
          firstAlertAt := rfl
          above := rfl
          below := rfl }
  | some episode =>
      rw [StateText.overwrite, Option.map_eq_some_iff]
        at hWritten
      rcases hWritten with ⟨set, hSet, rfl⟩
      rw [mapping] at hSet
      simp only [Option.bind_eq_bind, Option.bind_eq_some_iff]
        at hSet
      rcases hSet with ⟨above, hAbove, below, hBelow, hSet⟩
      cases hSet
      have hPeak := hRepr episode rfl
      have hAboveRead := PyText.intDecimal_strInt hAbove
      have hBelowRead := PyText.intDecimal_strInt hBelow
      rcases episode with
        ⟨id, startedAt, peak, stages, alert, aboveN, belowN⟩
      cases alert with
      | none =>
          exact
            { lastTs := hLast
              id := ⟨id, Uuid.ofText_str id, rfl⟩
              startedAt :=
                ⟨startedAt, UtcTime.ofText_isoformat _, rfl⟩
              peakRisk := ⟨peak, hPeak, rfl⟩
              stages :=
                ⟨stages, PyJson.loads_dumps stages, rfl⟩
              firstAlertAt := rfl
              above := ⟨aboveN, hAboveRead, rfl⟩
              below := ⟨belowN, hBelowRead, rfl⟩ }
      | some alertAt =>
          exact
            { lastTs := hLast
              id := ⟨id, Uuid.ofText_str id, rfl⟩
              startedAt :=
                ⟨startedAt, UtcTime.ofText_isoformat _, rfl⟩
              peakRisk := ⟨peak, hPeak, rfl⟩
              stages :=
                ⟨stages, PyJson.loads_dumps stages, rfl⟩
              firstAlertAt :=
                ⟨alertAt, UtcTime.ofText_isoformat _, rfl⟩
              above := ⟨aboveN, hAboveRead, rfl⟩
              below := ⟨belowN, hBelowRead, rfl⟩ }

/- A field that is needed, as a text and as a value. -/
theorem StandsFor.bind_eq
    {β γ : Type}
    {ofText : String → Option β}
    {plain : β → γ}
    {text : Option String}
    {value : Option γ}
    (hStands : StandsFor ofText plain text value) :
    (text >>= ofText).map plain = value := by
  cases text with
  | none => exact Eq.symm hStands
  | some text =>
      rcases hStands with ⟨b, hText, rfl⟩
      change (ofText text).map plain = some (plain b)
      rw [hText]
      rfl

/- A time that may be missing, as a text and as a value. -/
theorem StandsFor.optionalTime_eq
    {text : Option String}
    {value : Option ℚ}
    (hStands : StandsFor UtcTime.ofText seconds text value) :
    ∃ t, optionalTime text = some t ∧
      t.map seconds = value := by
  cases text with
  | none => exact ⟨none, rfl, Eq.symm hStands⟩
  | some text =>
      rcases hStands with ⟨t, hText, rfl⟩
      refine ⟨some t, ?_, rfl⟩
      have hSome : text ≠ "" := by
        intro hEmpty
        rw [hEmpty] at hText
        have hNone : UtcTime.ofText "" = none := by
          decide +kernel
        rw [hNone] at hText
        cases hText
      rw [optionalTime, if_neg hSome, hText]
      rfl

/- What is read of the texts is what is read of the values. -/
theorem Encodes.read
    {fields : HashFields}
    {hash : EpisodeHash 𝕜}
    (hEncodes : Encodes seconds risk fields hash) :
    (readFields fields).map (StoredState.plain seconds risk) =
      hash.read := by
  rcases hEncodes.lastTs.optionalTime_eq with
    ⟨last, hLast, hLastValue⟩
  rcases hEncodes.firstAlertAt.optionalTime_eq with
    ⟨alert, hAlert, hAlertValue⟩
  unfold readFields EpisodeHash.read
  rw [hLast, hAlert, ← hLastValue, ← hAlertValue,
    ← hEncodes.startedAt.bind_eq, ← hEncodes.peakRisk.bind_eq,
    ← hEncodes.stages.bind_eq, ← hEncodes.above.bind_eq,
    ← hEncodes.below.bind_eq]
  have hId := hEncodes.id
  cases hText : fields .id with
  | none =>
      rw [hText] at hId
      rw [show hash.id = none from hId]
      rfl
  | some text =>
      rw [hText] at hId
      rcases hId with ⟨id, hRead, hValue⟩
      rw [hValue]
      simp only [Option.bind_eq_bind, Option.bind_some, hRead]
      cases (fields .startedAt).bind UtcTime.ofText with
      | none => rfl
      | some startedAt =>
          cases (fields .peakRisk).bind PyFloat.ofText with
          | none => rfl
          | some peakRisk =>
              cases (fields .stages).bind PyJson.loads with
              | none => rfl
              | some stages =>
                  cases (fields .above).bind
                      PyText.intDecimal with
                  | none => rfl
                  | some above =>
                      cases (fields .below).bind
                          PyText.intDecimal with
                      | none => rfl
                      | some below => rfl

/-
  After any writes to a key that was not there, the worker
  reads of its hash what the texts say.
-/
theorem readFields_overwrites
    {writes : List StoredState}
    (hRepr :
      ∀ state ∈ writes, ∀ episode ∈ state.episode,
        PyFloat.ofText (floatRepr episode.peakRisk) =
          some episode.peakRisk)
    {written : HashFields}
    (hWritten :
      writes.foldlM
          (fun fields state =>
            StateText.overwrite floatRepr state fields)
          (fun _ => none) =
        some written) :
    (readFields written).map
        (StoredState.plain seconds risk) =
      (writes.foldl
        (fun hash state =>
          hash.write (state.plain seconds risk))
        ({} : EpisodeHash 𝕜)).read := by
  have hFrom :
      ∀ (fields : HashFields) (hash : EpisodeHash 𝕜),
        Encodes seconds risk fields hash →
          writes.foldlM
              (fun fields state =>
                StateText.overwrite floatRepr state fields)
              fields =
            some written →
          Encodes seconds risk written
            (writes.foldl
              (fun hash state =>
                hash.write (state.plain seconds risk))
              hash) := by
    clear hWritten
    induction writes with
    | nil =>
        intro fields hash hEncodes hSame
        cases hSame
        exact hEncodes
    | cons state writes ih =>
        rw [List.forall_mem_cons] at hRepr
        intro fields hash hEncodes hWritten
        rw [List.foldlM_cons, Option.bind_eq_bind,
          Option.bind_eq_some_iff] at hWritten
        rcases hWritten with ⟨next, hNext, hRest⟩
        exact
          ih hRepr.2 next _
            (hEncodes.overwrite floatRepr hRepr.1 hNext) hRest
  have hNothing :
      Encodes seconds risk (fun _ => none)
        ({} : EpisodeHash 𝕜) :=
    { lastTs := rfl
      id := rfl
      startedAt := rfl
      peakRisk := rfl
      stages := rfl
      firstAlertAt := rfl
      above := rfl
      below := rfl }
  exact (hFrom _ _ hNothing hWritten).read

end Plain

end StateText

end Persister

end Nidra
