import Nidra.Api.StreamKept
import Nidra.Lib.Folds
import Nidra.Lib.History
import Nidra.Lib.Replays

/-
  This file says what becomes of every frame that is offered
  to a socket. A queue with two ends and one hand is the
  abstract account of it; each step of a socket is a list of
  actions on that queue, and the account holds of the log of
  every socket in every run of the fan-out. It says last when
  no acknowledgement is dropped.

  Key definitions include:
    * `Line`, `Acts`
    * `Account`, `FansOut`
    * `Socket.sparesAck`, `SparesAcks`

  Main declarations:
    * `replays_step`
    * `account_concat`
    * `keepsAcks_step`
    * `fansOut_iff`
-/

namespace Nidra

namespace Api

namespace Stream

------------------------------------------------------------
-- Logs
------------------------------------------------------------

def Action.offered? : Action → Option Frame
  | .offered frame => some frame
  | _ => none

def Action.taken? : Action → Option Frame
  | .taken frame => some frame
  | _ => none

def Action.dropped? : Action → Option Frame
  | .dropped frame _ => some frame
  | _ => none

/- A frame leaves the queue as it is taken or dropped. -/
def Action.removed? : Action → Option Frame
  | .taken frame => some frame
  | .dropped frame _ => some frame
  | _ => none

def Action.drained? : Action → Option Frame
  | .drained frame _ _ => some frame
  | _ => none

def Action.filter? : Action → Option HostFilter
  | .filtered hosts => some hosts
  | _ => none

def offeredFrames (log : List Action) : List Frame :=
  log.filterMap Action.offered?

def takenFrames (log : List Action) : List Frame :=
  log.filterMap Action.taken?

def droppedFrames (log : List Action) : List Frame :=
  log.filterMap Action.dropped?

def removedFrames (log : List Action) : List Frame :=
  log.filterMap Action.removed?

def drainedFrames (log : List Action) : List Frame :=
  log.filterMap Action.drained?

def filters (log : List Action) : List HostFilter :=
  log.filterMap Action.filter?

/- The filter that was set last. -/
def inForce (log : List Action) : HostFilter :=
  (filters log).getLast?.getD none

section Longer

variable (log : List Action)
variable (action : Action)

@[simp] theorem offeredFrames_concat :
    offeredFrames (log ++ [action]) =
      offeredFrames log ++ action.offered?.toList :=
  List.filterMap_concat _ _ _

@[simp] theorem takenFrames_concat :
    takenFrames (log ++ [action]) =
      takenFrames log ++ action.taken?.toList :=
  List.filterMap_concat _ _ _

@[simp] theorem droppedFrames_concat :
    droppedFrames (log ++ [action]) =
      droppedFrames log ++ action.dropped?.toList :=
  List.filterMap_concat _ _ _

@[simp] theorem removedFrames_concat :
    removedFrames (log ++ [action]) =
      removedFrames log ++ action.removed?.toList :=
  List.filterMap_concat _ _ _

@[simp] theorem drainedFrames_concat :
    drainedFrames (log ++ [action]) =
      drainedFrames log ++ action.drained?.toList :=
  List.filterMap_concat _ _ _

@[simp] theorem filters_concat :
    filters (log ++ [action]) =
      filters log ++ action.filter?.toList :=
  List.filterMap_concat _ _ _

/- What leaves the queue is taken or dropped. -/
theorem length_removedFrames :
    (removedFrames log).length =
      (takenFrames log).length + (droppedFrames log).length := by
  induction log using List.reverseRecOn with
  | nil => rfl
  | append_singleton log action ih =>
      rw [removedFrames_concat, takenFrames_concat,
        droppedFrames_concat]
      simp only [List.length_append, ih]
      cases action with
      | filtered hosts => rfl
      | offered frame => rfl
      | drained frame hosts sent => rfl
      | taken frame =>
          simp only [Action.removed?, Action.taken?,
            Action.dropped?, Option.toList_some,
            Option.toList_none, List.length_singleton,
            List.length_nil]
          omega
      | dropped frame queue =>
          simp only [Action.removed?, Action.taken?,
            Action.dropped?, Option.toList_some,
            Option.toList_none, List.length_singleton,
            List.length_nil]
          omega

theorem takenFrames_sublist :
    (takenFrames log).Sublist (removedFrames log) := by
  induction log using List.reverseRecOn with
  | nil => exact List.Sublist.slnil
  | append_singleton log action ih =>
      rw [removedFrames_concat, takenFrames_concat]
      apply ih.append
      cases action with
      | filtered hosts => exact List.Sublist.refl _
      | offered frame => exact List.Sublist.refl _
      | drained frame hosts sent => exact List.Sublist.refl _
      | taken frame => exact List.Sublist.refl _
      | dropped frame queue => exact List.nil_sublist _

end Longer

------------------------------------------------------------
-- One line of frames
------------------------------------------------------------

/-
  The frames that wait, the ones that were taken and are not
  served yet, and the filter that serves them.
-/
structure Line where
  queue : List Frame
  inHand : List Frame
  hosts : HostFilter

/-
  A frame joins at the end of a queue with room, is dropped
  at the front of a full one, is taken there by an empty
  hand, and is served by the filter in force.
-/
inductive Acts
    (maxSize : ℕ) : Line → Action → Line → Prop where
  | filtered
      (queue inHand : List Frame)
      (hosts hosts' : HostFilter) :
      Acts maxSize ⟨queue, inHand, hosts⟩
        (.filtered hosts') ⟨queue, inHand, hosts'⟩
  | offered
      (queue inHand : List Frame)
      (hosts : HostFilter)
      (frame : Frame)
      (hRoom : isFull maxSize queue = false) :
      Acts maxSize ⟨queue, inHand, hosts⟩
        (.offered frame) ⟨queue ++ [frame], inHand, hosts⟩
  | dropped
      (rest inHand : List Frame)
      (hosts : HostFilter)
      (frame : Frame)
      (hFull : isFull maxSize (frame :: rest) = true) :
      Acts maxSize ⟨frame :: rest, inHand, hosts⟩
        (.dropped frame (frame :: rest))
        ⟨rest, inHand, hosts⟩
  | taken
      (rest : List Frame)
      (hosts : HostFilter)
      (frame : Frame) :
      Acts maxSize ⟨frame :: rest, [], hosts⟩
        (.taken frame) ⟨rest, [frame], hosts⟩
  | drained
      (queue : List Frame)
      (hosts : HostFilter)
      (frame : Frame) :
      Acts maxSize ⟨queue, [frame], hosts⟩
        (.drained frame hosts (wants hosts frame.hostId))
        ⟨queue, [], hosts⟩

/-
  How an action fits after those before it: what is dropped
  is the oldest frame of the queue at its full size, and what
  is drained is sent if the filter in force wants it.
-/
def Fits
    (maxSize : ℕ)
    (before : List Action) : Action → Prop
  | .dropped frame queue =>
      offeredFrames before = removedFrames before ++ queue ∧
        queue.length = maxSize ∧
          queue.head? = some frame
  | .drained frame hosts sent =>
      hosts = inForce before ∧
        sent = wants hosts frame.hostId
  | _ => True

/-
  What a log accounts for: the frames were offered in the
  order in which they leave, the queue is within its size,
  and each action fits.
-/
structure Account
    (maxSize : ℕ)
    (log : List Action)
    (line : Line) : Prop where
  ordered :
    offeredFrames log = removedFrames log ++ line.queue
  served :
    takenFrames log = drainedFrames log ++ line.inHand
  bounded : line.queue.length ≤ maxSize
  hosts : line.hosts = inForce log
  fits : log.EachAfter (Fits maxSize)

theorem isFull_eq_true_iff
    {maxSize : ℕ}
    (hPos : 0 < maxSize)
    {queue : List Frame} :
    isFull maxSize queue = true ↔ maxSize ≤ queue.length := by
  unfold isFull
  rw [decide_eq_true hPos, Bool.true_and, decide_eq_true_iff]

/- One action more is accounted for. -/
theorem account_concat
    {maxSize : ℕ}
    (hPos : 0 < maxSize)
    (log : List Action)
    (line : Line)
    (action : Action)
    (line' : Line)
    (hAccount : Account maxSize log line)
    (hActs : Acts maxSize line action line') :
    Account maxSize (log ++ [action]) line' := by
  have hOrdered := hAccount.ordered
  have hServed := hAccount.served
  have hBounded := hAccount.bounded
  have hHosts := hAccount.hosts
  constructor
  · rw [offeredFrames_concat, removedFrames_concat]
    cases hActs with
    | filtered =>
        simpa [Action.offered?, Action.removed?] using hOrdered
    | offered queue inHand hosts frame hRoom =>
        simp [Action.offered?, Action.removed?, hOrdered]
    | dropped rest inHand hosts frame hFull =>
        simpa [Action.offered?, Action.removed?] using hOrdered
    | taken rest hosts frame =>
        simpa [Action.offered?, Action.removed?] using hOrdered
    | drained queue hosts frame =>
        simpa [Action.offered?, Action.removed?] using hOrdered
  · rw [takenFrames_concat, drainedFrames_concat]
    cases hActs with
    | filtered =>
        simpa [Action.taken?, Action.drained?] using hServed
    | offered queue inHand hosts frame hRoom =>
        simpa [Action.taken?, Action.drained?] using hServed
    | dropped rest inHand hosts frame hFull =>
        simpa [Action.taken?, Action.drained?] using hServed
    | taken rest hosts frame =>
        simpa [Action.taken?, Action.drained?] using hServed
    | drained queue hosts frame =>
        simpa [Action.taken?, Action.drained?] using hServed
  · cases hActs with
    | filtered => exact hBounded
    | offered queue inHand hosts frame hRoom =>
        rw [← Bool.not_eq_true, isFull_eq_true_iff hPos]
          at hRoom
        rw [List.length_append, List.length_singleton]
        omega
    | dropped rest inHand hosts frame hFull =>
        exact (Nat.le_succ rest.length).trans hBounded
    | taken rest hosts frame =>
        exact (Nat.le_succ rest.length).trans hBounded
    | drained queue hosts frame => exact hBounded
  · unfold inForce at hHosts ⊢
    rw [filters_concat]
    cases hActs with
    | filtered => simp [Action.filter?]
    | offered queue inHand hosts frame hRoom =>
        simpa [Action.filter?] using hHosts
    | dropped rest inHand hosts frame hFull =>
        simpa [Action.filter?] using hHosts
    | taken rest hosts frame =>
        simpa [Action.filter?] using hHosts
    | drained queue hosts frame =>
        simpa [Action.filter?] using hHosts
  · apply List.eachAfter_concat hAccount.fits
    cases hActs with
    | filtered => trivial
    | offered => trivial
    | taken => trivial
    | dropped rest inHand hosts frame hFull =>
        rw [isFull_eq_true_iff hPos] at hFull
        exact
          ⟨hAccount.ordered, hBounded.antisymm hFull, rfl⟩
    | drained queue hosts frame =>
        exact ⟨hAccount.hosts, rfl⟩

------------------------------------------------------------
-- Steps of a socket
------------------------------------------------------------

def Getter.inHand : Getter → List Frame
  | .idle => []
  | .waiting => []
  | .holding frame => [frame]

def Socket.line (s : Socket) : Line :=
  { queue := s.sub.queue
    inHand := s.getter.inHand
    hosts := s.sub.hosts }

/- Room is made by one drop after the other. -/
theorem replays_makeRoom
    (maxSize : ℕ)
    (inHand : List Frame)
    (hosts : HostFilter)
    (queue : List Frame) :
    Replays (Acts maxSize) ⟨queue, inHand, hosts⟩
      ((makeRoom maxSize queue).2.map
        (fun d => Action.dropped d.1 d.2))
      ⟨(makeRoom maxSize queue).1, inHand, hosts⟩ := by
  induction queue with
  | nil => exact Replays.nil
  | cons frame rest ih =>
      unfold makeRoom
      split
      · rename_i hFull
        exact
          Replays.cons
            (Acts.dropped rest inHand hosts frame hFull) ih
      · exact Replays.nil

theorem isFull_makeRoom
    (maxSize : ℕ)
    (queue : List Frame) :
    isFull maxSize (makeRoom maxSize queue).1 = false := by
  induction queue with
  | nil =>
      unfold makeRoom isFull
      rw [List.length_nil, Bool.and_eq_false_iff]
      rcases Nat.eq_zero_or_pos maxSize with hZero | hPos
      · exact Or.inl (decide_eq_false (by omega))
      · exact Or.inr (decide_eq_false (Nat.not_le.mpr hPos))
  | cons frame rest ih =>
      unfold makeRoom
      split
      · exact ih
      · rename_i hRoom
        exact Bool.eq_false_of_not_eq_true hRoom

theorem replays_offer
    (s : Socket)
    (frame : Frame) :
    Replays (Acts s.sub.maxSize) s.line (s.offer frame).2
      (s.offer frame).1.line := by
  apply
    Replays.concat
      (replays_makeRoom s.sub.maxSize s.getter.inHand
        s.sub.hosts s.sub.queue)
  exact Acts.offered _ _ _ _ (isFull_makeRoom _ _)

section Steps

variable (repr : Json → PyStr)
variable (depth maxMissedPongs : ℕ)

theorem replays_receiveMessage
    (s : Socket)
    (message : List (PyStr × Json)) :
    Replays (Acts s.sub.maxSize) s.line
      (s.receiveMessage repr message).2
      (s.receiveMessage repr message).1.line := by
  rcases receiveMessage_cases repr s message with
    ⟨_, _, hStepped⟩ | ⟨_, _, hosts, hStepped⟩ |
      ⟨_, _, missed, hStepped⟩
  · rw [hStepped]
    exact Replays.nil
  · rw [hStepped]
    exact
      Replays.cons (Acts.filtered _ _ _ _)
        (replays_offer
          { s with sub := { s.sub with hosts := hosts } } _)
  · rw [hStepped]
    exact Replays.nil

/- Every step of a socket acts on its line of frames. -/
theorem replays_step
    (s : Socket)
    (event : SocketEvent) :
    let stepped := s.step repr depth maxMissedPongs event
    Replays (Acts s.sub.maxSize) s.line stepped.2
      stepped.1.line := by
  intro stepped
  unfold stepped
  cases event with
  | broadcast tenantId hostId bytes =>
      unfold Socket.step Socket.broadcast
      dsimp only
      split
      · exact replays_offer _ _
      · exact Replays.nil
  | text chars =>
      unfold Socket.step Socket.receive
      dsimp only
      split
      · split
        · exact Replays.nil
        · exact Replays.nil
        · exact Replays.nil
        · exact replays_receiveMessage repr s _
        · exact Replays.nil
      · exact Replays.nil
  | disconnect =>
      unfold Socket.step Socket.disconnect
      dsimp only
      split
      · exact Replays.nil
      · exact Replays.nil
  | get =>
      unfold Socket.step Socket.get
      dsimp only
      split
      · rename_i frame rest hOpen hGetter hQueue
        unfold Socket.line
        rw [hGetter, hQueue]
        exact Replays.single (Acts.taken rest _ frame)
      · exact Replays.nil
  | serve =>
      unfold Socket.step Socket.serve
      dsimp only
      split
      · exact Replays.nil
      · split
        · exact Replays.nil
        · split
          · exact Replays.nil
          · exact Replays.nil
          · rename_i frame hGetter
            unfold Socket.line
            rw [hGetter]
            have hDrained :=
              @Acts.drained s.sub.maxSize s.sub.queue
                s.sub.hosts frame
            split
            · rename_i hWants
              rw [hWants] at hDrained
              exact Replays.single hDrained
            · rename_i hWants
              rw [Bool.eq_false_of_not_eq_true hWants]
                at hDrained
              exact Replays.single hDrained
  | sendEnds succeeds =>
      unfold Socket.step Socket.sendEnds
      dsimp only
      split
      · split
        · unfold Socket.line
          dsimp only
          cases hGetter : s.getter with
          | idle => exact Replays.nil
          | waiting => exact Replays.nil
          | holding frame => exact Replays.nil
        · exact Replays.nil
      · exact Replays.nil
  | quiet =>
      unfold Socket.step Socket.heartbeat
      dsimp only
      split
      · split
        · exact Replays.nil
        · exact Replays.nil
      · exact Replays.nil

------------------------------------------------------------
-- What a step offers and drops
------------------------------------------------------------

def forecastFrame
    (hostId : PyStr)
    (bytes : List UInt8) : Frame :=
  { hostId := some hostId
    payload := .forecast bytes }

/- A frame that the server made for this socket. -/
def Frame.isControl (frame : Frame) : Bool :=
  frame.hostId.isNone

/- A text that sets the filter of a socket. -/
def setsFilter (chars : String) : Bool :=
  match Json.loads depth chars with
  | .ok (.object message) => setsFilterBy message
  | _ => false

/- Whether an event offers a frame to a socket. -/
def Socket.isOffered
    (s : Socket) : SocketEvent → Bool
  | .broadcast tenantId _ _ =>
      s.isOpen && decide (s.sub.tenantId = tenantId)
  | .text chars =>
      s.isOpen && s.receiving && setsFilter depth chars
  | _ => false

/- An event that touches neither the queue nor the filter. -/
def NoneOffered (actions : List Action) : Prop :=
  offeredFrames actions = [] ∧ droppedFrames actions = [] ∧
    filters actions = []

theorem noneOffered_nil : NoneOffered [] :=
  ⟨rfl, rfl, rfl⟩

/- What does not offer a frame keeps the rest as it was. -/
structure Untouched
    (s : Socket)
    (stepped : Socket × List Action) : Prop where
  none : NoneOffered stepped.2
  tenantId : stepped.1.sub.tenantId = s.sub.tenantId
  maxSize : stepped.1.sub.maxSize = s.sub.maxSize
  dropped : stepped.1.sub.dropped = s.sub.dropped

/-
  An event offers a forecast of the tenant, offers what
  acknowledges a filter, or offers nothing.
-/
theorem step_cases
    (s : Socket)
    (event : SocketEvent) :
    let stepped := s.step repr depth maxMissedPongs event
    (s.isOffered depth event = true ∧
        ∃ hostId bytes,
          event =
              .broadcast s.sub.tenantId hostId bytes ∧
            stepped =
              s.offer (forecastFrame hostId bytes)) ∨
      (s.isOffered depth event = true ∧
        Acknowledges s stepped) ∨
      (s.isOffered depth event = false ∧
        Untouched s stepped) := by
  intro stepped
  unfold stepped
  have hNothing : Untouched s (s, []) :=
    { none := noneOffered_nil
      tenantId := rfl
      maxSize := rfl
      dropped := rfl }
  cases event with
  | broadcast tenantId hostId bytes =>
      unfold Socket.step Socket.broadcast Socket.isOffered
      dsimp only
      split
      · rename_i hOffered
        left
        refine ⟨hOffered, hostId, bytes, ?_, rfl⟩
        rw [Bool.and_eq_true, decide_eq_true_iff] at hOffered
        rw [hOffered.2]
      · rename_i hNot
        right
        right
        exact ⟨Bool.eq_false_of_not_eq_true hNot, hNothing⟩
  | text chars =>
      right
      change
        (_ ∧ Acknowledges s (s.receive repr depth chars)) ∨
          (_ ∧ Untouched s (s.receive repr depth chars))
      unfold Socket.receive Socket.isOffered setsFilter
      dsimp only
      cases hRuns : s.isOpen && s.receiving with
      | false => exact Or.inr ⟨rfl, hNothing⟩
      | true =>
          rw [Bool.true_and, if_pos rfl]
          cases Json.loads depth chars with
          | error error =>
              cases error with
              | decode => exact Or.inr ⟨rfl, hNothing⟩
              | recursion =>
                  exact
                    Or.inr
                      ⟨rfl, noneOffered_nil, rfl, rfl, rfl⟩
              | digits =>
                  exact
                    Or.inr
                      ⟨rfl, noneOffered_nil, rfl, rfl, rfl⟩
          | ok value =>
              cases value with
              | object message =>
                  rcases receiveMessage_cases repr s message
                    with
                    ⟨_, hNot, hStepped⟩ |
                      ⟨_, hSets, hStepped⟩ |
                      ⟨_, hNot, missed, hStepped⟩
                  · refine Or.inr ⟨hNot, ?_⟩
                    dsimp only
                    rw [hStepped]
                    exact ⟨noneOffered_nil, rfl, rfl, rfl⟩
                  · exact Or.inl ⟨hSets, hStepped⟩
                  · refine Or.inr ⟨hNot, ?_⟩
                    dsimp only
                    rw [hStepped]
                    exact ⟨noneOffered_nil, rfl, rfl, rfl⟩
              | null => exact Or.inr ⟨rfl, hNothing⟩
              | bool b => exact Or.inr ⟨rfl, hNothing⟩
              | int n => exact Or.inr ⟨rfl, hNothing⟩
              | float x => exact Or.inr ⟨rfl, hNothing⟩
              | str text => exact Or.inr ⟨rfl, hNothing⟩
              | array items => exact Or.inr ⟨rfl, hNothing⟩
  | disconnect =>
      refine Or.inr (Or.inr ⟨rfl, ?_⟩)
      unfold Socket.step Socket.disconnect
      dsimp only
      split
      · exact ⟨noneOffered_nil, rfl, rfl, rfl⟩
      · exact hNothing
  | get =>
      refine Or.inr (Or.inr ⟨rfl, ?_⟩)
      unfold Socket.step Socket.get
      dsimp only
      split
      · exact ⟨⟨rfl, rfl, rfl⟩, rfl, rfl, rfl⟩
      · exact hNothing
  | serve =>
      refine Or.inr (Or.inr ⟨rfl, ?_⟩)
      unfold Socket.step Socket.serve
      dsimp only
      split
      · exact hNothing
      · split
        · exact ⟨noneOffered_nil, rfl, rfl, rfl⟩
        · split
          · exact hNothing
          · exact hNothing
          · split
            · exact ⟨⟨rfl, rfl, rfl⟩, rfl, rfl, rfl⟩
            · exact ⟨⟨rfl, rfl, rfl⟩, rfl, rfl, rfl⟩
  | sendEnds succeeds =>
      refine Or.inr (Or.inr ⟨rfl, ?_⟩)
      unfold Socket.step Socket.sendEnds
      dsimp only
      split
      · split
        · exact ⟨noneOffered_nil, rfl, rfl, rfl⟩
        · exact ⟨noneOffered_nil, rfl, rfl, rfl⟩
      · exact hNothing
  | quiet =>
      refine Or.inr (Or.inr ⟨rfl, ?_⟩)
      unfold Socket.step Socket.heartbeat
      dsimp only
      split
      · split
        · exact ⟨noneOffered_nil, rfl, rfl, rfl⟩
        · exact ⟨noneOffered_nil, rfl, rfl, rfl⟩
      · exact hNothing

end Steps

------------------------------------------------------------
-- An offer
------------------------------------------------------------

theorem offeredFrames_append (log more : List Action) :
    offeredFrames (log ++ more) =
      offeredFrames log ++ offeredFrames more :=
  List.filterMap_append

theorem droppedFrames_append (log more : List Action) :
    droppedFrames (log ++ more) =
      droppedFrames log ++ droppedFrames more :=
  List.filterMap_append

theorem filters_append (log more : List Action) :
    filters (log ++ more) = filters log ++ filters more :=
  List.filterMap_append

section Offers

variable (s : Socket)
variable (frame : Frame)

theorem offeredFrames_offer :
    offeredFrames (s.offer frame).2 = [frame] := by
  unfold Socket.offer
  rw [offeredFrames_concat]
  simp [offeredFrames, Action.offered?, List.filterMap_map,
    Function.comp_def]

theorem filters_offer : filters (s.offer frame).2 = [] := by
  unfold Socket.offer
  rw [filters_concat]
  simp [filters, Action.filter?, List.filterMap_map,
    Function.comp_def]

theorem droppedFrames_offer :
    droppedFrames (s.offer frame).2 =
      (makeRoom s.sub.maxSize s.sub.queue).2.map Prod.fst := by
  unfold Socket.offer Subscription.offer
  rw [droppedFrames_concat]
  simp [droppedFrames, Action.dropped?, List.filterMap_map,
    Function.comp_def]

/- Dropped frames are counted. -/
theorem dropped_offer :
    (s.offer frame).1.sub.dropped =
      s.sub.dropped +
        (droppedFrames (s.offer frame).2).length := by
  rw [droppedFrames_offer, List.length_map]
  rfl

theorem makeRoom_of_room
    {maxSize : ℕ}
    {queue : List Frame}
    (hRoom : isFull maxSize queue = false) :
    makeRoom maxSize queue = (queue, []) := by
  cases queue with
  | nil => rfl
  | cons head rest =>
      unfold makeRoom
      rw [hRoom, if_neg Bool.false_ne_true]

/- A queue within its size drops at most its oldest frame. -/
theorem droppedFrames_offer_of_bounded
    (hPos : 0 < s.sub.maxSize)
    (hBounded : s.sub.queue.length ≤ s.sub.maxSize) :
    droppedFrames (s.offer frame).2 =
      if isFull s.sub.maxSize s.sub.queue then
        s.sub.queue.head?.toList
      else [] := by
  rw [droppedFrames_offer]
  cases hQueue : s.sub.queue with
  | nil =>
      rw [makeRoom]
      simp
  | cons oldest rest =>
      cases hFull : isFull s.sub.maxSize (oldest :: rest) with
      | false => rw [makeRoom_of_room hFull]; rfl
      | true =>
          have hRoom :
              isFull s.sub.maxSize rest = false := by
            rw [hQueue, List.length_cons] at hBounded
            rw [← Bool.not_eq_true, isFull_eq_true_iff hPos]
            omega
          unfold makeRoom
          rw [hFull, if_pos rfl, makeRoom_of_room hRoom]
          rfl

end Offers

------------------------------------------------------------
-- The log of one socket
------------------------------------------------------------

/-
  What is kept of a socket of the fan-out: its log accounts
  for its line of frames, and what was offered was broadcast
  for its tenant or acknowledges one of its own filters.
-/
structure Balanced
    (queueSize : ℕ)
    (broadcasts : List Broadcast)
    (w : Watched) : Prop where
  account : Account queueSize w.log w.socket.line
  size : w.socket.sub.maxSize = queueSize
  counted :
    w.socket.sub.dropped = (droppedFrames w.log).length
  begun : filters w.log ≠ []
  acknowledged :
    (offeredFrames w.log).filter Frame.isControl =
      (filters w.log).tail.map acknowledgement
  forecasts :
    ∀ frame ∈ offeredFrames w.log,
      frame.isControl = false →
        ∃ b ∈ broadcasts,
          b.tenantId = w.socket.sub.tenantId ∧
            frame = forecastFrame b.hostId b.bytes

/- No frame that the server made was dropped. -/
def KeepsAcks (log : List Action) : Prop :=
  ∀ frame ∈ droppedFrames log, frame.isControl = false

theorem keepsAcks_append (log more : List Action) :
    KeepsAcks (log ++ more) ↔
      KeepsAcks log ∧ KeepsAcks more := by
  unfold KeepsAcks
  rw [droppedFrames_append]
  exact List.forall_mem_append

/-
  Whether an event leaves the acknowledgements of a socket
  alone: no frame is offered to a full queue whose oldest
  frame is one.
-/
def Socket.sparesAck
    (depth : ℕ)
    (s : Socket)
    (event : SocketEvent) : Bool :=
  !(s.isOffered depth event &&
    isFull s.sub.maxSize s.sub.queue &&
      s.sub.queue.head?.any Frame.isControl)

/- An offer drops an acknowledgement if the oldest is one. -/
theorem keepsAcks_offer
    {s : Socket}
    (hPos : 0 < s.sub.maxSize)
    (hBounded : s.sub.queue.length ≤ s.sub.maxSize)
    (frame : Frame) :
    KeepsAcks (s.offer frame).2 ↔
      (isFull s.sub.maxSize s.sub.queue &&
        s.sub.queue.head?.any Frame.isControl) = false := by
  unfold KeepsAcks
  rw [droppedFrames_offer_of_bounded s frame hPos hBounded]
  cases isFull s.sub.maxSize s.sub.queue with
  | false => simp
  | true =>
      cases s.sub.queue with
      | nil => simp
      | cons oldest rest => simp

section Logs

variable (repr : Json → PyStr)
variable (depth maxMissedPongs : ℕ)

theorem keepsAcks_step
    {s : Socket}
    (hPos : 0 < s.sub.maxSize)
    (hBounded : s.sub.queue.length ≤ s.sub.maxSize)
    (event : SocketEvent) :
    KeepsAcks (s.step repr depth maxMissedPongs event).2 ↔
      s.sparesAck depth event = true := by
  unfold Socket.sparesAck
  rw [Bool.not_eq_true', Bool.and_assoc]
  rcases step_cases repr depth maxMissedPongs s event with
    ⟨hOffered, hostId, bytes, _, hStepped⟩ |
      ⟨hOffered, hosts, hStepped⟩ | ⟨hOffered, hSame⟩
  · rw [hStepped, hOffered, Bool.true_and]
    exact keepsAcks_offer hPos hBounded _
  · rw [hStepped, hOffered, Bool.true_and]
    exact
      keepsAcks_offer
        (s :=
          { s with sub := { s.sub with hosts := hosts } })
        hPos hBounded _
  · rw [hOffered, Bool.false_and]
    refine iff_of_true ?_ rfl
    unfold KeepsAcks
    rw [hSame.none.2.1]
    exact List.forall_mem_nil _

/- What a step adds to the log of a socket. -/
structure Adds
    (broadcasts : List Broadcast)
    (s : Socket)
    (stepped : Socket × List Action) : Prop where
  tenantId : stepped.1.sub.tenantId = s.sub.tenantId
  maxSize : stepped.1.sub.maxSize = s.sub.maxSize
  counted :
    stepped.1.sub.dropped =
      s.sub.dropped + (droppedFrames stepped.2).length
  acknowledged :
    (offeredFrames stepped.2).filter Frame.isControl =
      (filters stepped.2).map acknowledgement
  forecasts :
    ∀ frame ∈ offeredFrames stepped.2,
      frame.isControl = false →
        ∃ b ∈ broadcasts,
          b.tenantId = s.sub.tenantId ∧
            frame = forecastFrame b.hostId b.bytes

/- The forecasts that an event brings are among the fanned. -/
def Heard
    (broadcasts : List Broadcast)
    (event : SocketEvent) : Prop :=
  ∀ tenantId hostId bytes,
    event = .broadcast tenantId hostId bytes →
      { tenantId := tenantId
        hostId := hostId
        bytes := bytes } ∈ broadcasts

theorem adds_step
    (s : Socket)
    {broadcasts : List Broadcast}
    {event : SocketEvent}
    (hHeard : Heard broadcasts event) :
    Adds broadcasts s
      (s.step repr depth maxMissedPongs event) := by
  rcases step_cases repr depth maxMissedPongs s event with
    ⟨_, hostId, bytes, hEvent, hStepped⟩ |
      ⟨_, hosts, hStepped⟩ | ⟨_, hSame⟩
  · rw [hStepped]
    refine
      { tenantId := rfl
        maxSize := rfl
        counted := dropped_offer s _
        acknowledged := ?_
        forecasts := ?_ }
    · rw [offeredFrames_offer, filters_offer]
      rfl
    · intro frame hOffered _
      rw [offeredFrames_offer, List.mem_singleton] at hOffered
      exact ⟨_, hHeard _ _ _ hEvent, rfl, hOffered⟩
  · rw [hStepped]
    let filtered : Socket :=
      { s with sub := { s.sub with hosts := hosts } }
    have hFrames :
        offeredFrames
            (.filtered hosts ::
              (filtered.offer (acknowledgement hosts)).2) =
          [acknowledgement hosts] :=
      offeredFrames_offer filtered _
    refine
      { tenantId := rfl
        maxSize := rfl
        counted := dropped_offer filtered _
        acknowledged := ?_
        forecasts := ?_ }
    · dsimp only
      rw [hFrames]
      have hFilters :
          filters
              (.filtered hosts ::
                (filtered.offer (acknowledgement hosts)).2) =
            [hosts] :=
        congrArg (List.cons hosts)
          (filters_offer filtered (acknowledgement hosts))
      rw [hFilters]
      rfl
    · intro frame hOffered hForecast
      dsimp only at hOffered
      rw [hFrames, List.mem_singleton] at hOffered
      rw [hOffered] at hForecast
      cases hForecast
  · rcases hSame.none with ⟨hOffered, hDropped, hFilters⟩
    refine
      { tenantId := hSame.tenantId
        maxSize := hSame.maxSize
        counted := ?_
        acknowledged := ?_
        forecasts := ?_ }
    · rw [hSame.dropped, hDropped]
      rfl
    · rw [hOffered, hFilters]
      rfl
    · rw [hOffered]
      exact List.forall_mem_nil _

/- A step of a socket is accounted for. -/
theorem balanced_step
    {queueSize : ℕ}
    (hPos : 0 < queueSize)
    {broadcasts broadcasts' : List Broadcast}
    (hMore : ∀ b ∈ broadcasts, b ∈ broadcasts')
    {w : Watched}
    (hBalanced : Balanced queueSize broadcasts w)
    {event : SocketEvent}
    (hHeard : Heard broadcasts' event) :
    Balanced queueSize broadcasts'
      (w.step repr depth maxMissedPongs event) := by
  have hAdds :=
    adds_step repr depth maxMissedPongs w.socket hHeard
  have hReplays :=
    replays_step repr depth maxMissedPongs w.socket event
  rw [hBalanced.size] at hReplays
  have hBegun := hBalanced.begun
  unfold Watched.step
  refine
    { account := ?_
      size := hAdds.maxSize.trans hBalanced.size
      counted := ?_
      begun := ?_
      acknowledged := ?_
      forecasts := ?_ }
  · exact
      hReplays.invariant (Account queueSize)
        (account_concat hPos) hBalanced.account
  · dsimp only
    rw [hAdds.counted, droppedFrames_append,
      List.length_append, hBalanced.counted]
  · dsimp only
    rw [filters_append]
    exact List.append_ne_nil_of_left_ne_nil hBegun _
  · dsimp only
    rw [offeredFrames_append, filters_append,
      List.filter_append, List.tail_append_of_ne_nil hBegun,
      List.map_append, hBalanced.acknowledged,
      hAdds.acknowledged]
  · intro frame hOffered hForecast
    dsimp only at hOffered ⊢
    rw [hAdds.tenantId]
    rw [offeredFrames_append, List.mem_append] at hOffered
    rcases hOffered with hBefore | hNow
    · rcases hBalanced.forecasts frame hBefore hForecast with
        ⟨b, hMem, hOwn⟩
      exact ⟨b, hMore b hMem, hOwn⟩
    · exact hAdds.forecasts frame hNow hForecast

end Logs

/- A socket that was just opened. -/
theorem balanced_opened
    (queueSize : ℕ)
    (broadcasts : List Broadcast)
    (tenantId : String)
    (hosts : Option (List PyStr)) :
    Balanced queueSize broadcasts
      { socket := Socket.opened queueSize tenantId hosts
        log := [.filtered (selectHosts hosts)] } :=
  { account :=
      { ordered := rfl
        served := rfl
        bounded := Nat.zero_le queueSize
        hosts := rfl
        fits :=
          List.eachAfter_concat List.eachAfter_nil trivial }
    size := rfl
    counted := rfl
    begun := List.cons_ne_nil _ _
    acknowledged := rfl
    forecasts := List.forall_mem_nil _ }

------------------------------------------------------------
-- Every run of the fan-out
------------------------------------------------------------

/-
  The fan-out as one socket sees it: its queue is within its
  size and holds its own frames; they leave it in the order
  in which they were offered, each taken or dropped; a drop
  is of the oldest frame of a full queue and of no
  acknowledgement, and what is sent passes the filter.
-/
structure FansOut
    (queueSize : ℕ)
    (broadcasts : List Broadcast)
    (w : Watched) : Prop where
  bounded : w.socket.sub.queue.length ≤ queueSize
  own :
    ∀ frame ∈ w.socket.sub.queue,
      (∃ b ∈ broadcasts,
          b.tenantId = w.socket.sub.tenantId ∧
            frame = forecastFrame b.hostId b.bytes) ∨
        ∃ hosts ∈ (filters w.log).tail,
          frame = acknowledgement hosts
  ordered :
    offeredFrames w.log =
      removedFrames w.log ++ w.socket.sub.queue
  inOrder :
    (takenFrames w.log).Sublist (offeredFrames w.log)
  served :
    takenFrames w.log =
      drainedFrames w.log ++ w.socket.getter.inHand
  conserved :
    (offeredFrames w.log).length =
      (takenFrames w.log).length + w.socket.sub.dropped +
        w.socket.sub.queue.length
  fits : w.log.EachAfter (Fits queueSize)
  keepsAcks : KeepsAcks w.log

theorem Balanced.own
    {queueSize : ℕ}
    {broadcasts : List Broadcast}
    {w : Watched}
    (hBalanced : Balanced queueSize broadcasts w)
    {frame : Frame}
    (hOffered : frame ∈ offeredFrames w.log) :
    (∃ b ∈ broadcasts,
        b.tenantId = w.socket.sub.tenantId ∧
          frame = forecastFrame b.hostId b.bytes) ∨
      ∃ hosts ∈ (filters w.log).tail,
        frame = acknowledgement hosts := by
  cases hControl : frame.isControl with
  | false =>
      exact Or.inl (hBalanced.forecasts frame hOffered hControl)
  | true =>
      right
      have hMem :
          frame ∈
            (offeredFrames w.log).filter Frame.isControl :=
        List.mem_filter.mpr ⟨hOffered, hControl⟩
      rw [hBalanced.acknowledged, List.mem_map] at hMem
      rcases hMem with ⟨hosts, hSet, hFrame⟩
      exact ⟨hosts, hSet, hFrame.symm⟩

/-
  All of it holds of a socket that is accounted for, if no
  acknowledgement was dropped.
-/
theorem Balanced.fansOut_iff_keepsAcks
    {queueSize : ℕ}
    {broadcasts : List Broadcast}
    {w : Watched}
    (hBalanced : Balanced queueSize broadcasts w) :
    FansOut queueSize broadcasts w ↔ KeepsAcks w.log := by
  have hOrdered := hBalanced.account.ordered
  constructor
  · intro hFansOut
    exact hFansOut.keepsAcks
  · intro hKeeps
    refine
      { bounded := hBalanced.account.bounded
        own := ?_
        ordered := hOrdered
        inOrder := ?_
        served := hBalanced.account.served
        conserved := ?_
        fits := hBalanced.account.fits
        keepsAcks := hKeeps }
    · intro frame hQueued
      apply hBalanced.own
      rw [hOrdered]
      exact List.mem_append_right _ hQueued
    · rw [hOrdered]
      exact
        (takenFrames_sublist w.log).trans
          (List.sublist_append_left _ _)
    · rw [hOrdered, List.length_append,
        length_removedFrames, hBalanced.counted]
      rfl

section Runs

variable (repr : Json → PyStr)
variable (depth maxMissedPongs : ℕ)

/- The fan-out of a process, with every socket accounted for. -/
structure ManagerBalanced
    (queueSize : ℕ)
    (m : Manager) : Prop where
  size : m.queueSize = queueSize
  balanced :
    ∀ w ∈ m.sockets, Balanced queueSize m.broadcasts w

theorem OwnEvent.heard
    (broadcasts : List Broadcast)
    (event : OwnEvent) :
    Heard broadcasts event.event := by
  intro tenantId hostId bytes hEvent
  cases event <;> cases hEvent

theorem managerBalanced_step
    {queueSize : ℕ}
    (hPos : 0 < queueSize)
    {m : Manager}
    (hBalanced : ManagerBalanced queueSize m)
    (event : Event) :
    ManagerBalanced queueSize
      (m.step repr depth maxMissedPongs event) := by
  refine { size := ?_, balanced := ?_ }
  · cases event <;> exact hBalanced.size
  · cases event with
    | subscribe tenantId hosts =>
        intro w hMem
        rcases List.mem_append.mp hMem with hOld | hNew
        · exact hBalanced.balanced w hOld
        · rw [List.mem_singleton.mp hNew, hBalanced.size]
          exact balanced_opened _ _ _ _
    | broadcast forecast =>
        intro w hMem
        rcases List.mem_map.mp hMem with ⟨w', hOld, rfl⟩
        apply
          balanced_step repr depth maxMissedPongs hPos
            (fun b hB => List.mem_append_left _ hB)
            (hBalanced.balanced w' hOld)
        intro tenantId hostId bytes hEvent
        cases hEvent
        exact List.mem_append_right _ List.mem_cons_self
    | socket index event =>
        apply
          List.forall_mem_modify_of_forall _
            hBalanced.balanced
        intro w hW
        exact
          balanced_step repr depth maxMissedPongs hPos
            (fun b hB => hB) hW (event.heard _)

/-
  Whether an event leaves the acknowledgements of all sockets
  alone.
-/
def SparesAcks (m : Manager) : Event → Prop
  | .subscribe _ _ => True
  | .broadcast forecast =>
      ∀ w ∈ m.sockets,
        w.socket.sparesAck depth
          (.broadcast forecast.tenantId forecast.hostId
            forecast.bytes) = true
  | .socket index event =>
      ∀ w ∈ m.sockets[index]?,
        w.socket.sparesAck depth event.event = true

instance SparesAcks.decidable
    (m : Manager)
    (event : Event) :
    Decidable (SparesAcks depth m event) :=
  match event with
  | .subscribe _ _ => isTrue trivial
  | .broadcast _ => inferInstanceAs (Decidable (∀ _ ∈ _, _))
  | .socket index event =>
      match hW : m.sockets[index]? with
      | none =>
          isTrue (fun w hMem => by rw [hW] at hMem; cases hMem)
      | some w =>
          decidable_of_iff
            (w.socket.sparesAck depth event.event = true)
            (by simp [SparesAcks, hW])

/- A step keeps all acknowledgements if it spares them. -/
theorem keepsAcks_managerStep
    {queueSize : ℕ}
    (hPos : 0 < queueSize)
    {m : Manager}
    (hBalanced : ManagerBalanced queueSize m)
    (event : Event) :
    (∀ w ∈ (m.step repr depth maxMissedPongs event).sockets,
        KeepsAcks w.log) ↔
      (∀ w ∈ m.sockets, KeepsAcks w.log) ∧
        SparesAcks depth m event := by
  have hStep :
      ∀ w ∈ m.sockets, ∀ event,
        KeepsAcks
            (w.step repr depth maxMissedPongs event).log ↔
          KeepsAcks w.log ∧
            w.socket.sparesAck depth event = true := by
    intro w hMem event
    have hW := hBalanced.balanced w hMem
    have hSize := hW.size
    have hBounded := hW.account.bounded
    subst hSize
    unfold Watched.step
    rw [keepsAcks_append,
      keepsAcks_step repr depth maxMissedPongs hPos hBounded]
  cases event with
  | subscribe tenantId hosts =>
      unfold SparesAcks
      rw [and_true]
      constructor
      · intro hAll w hMem
        exact hAll w (List.mem_append_left _ hMem)
      · intro hAll w hMem
        rcases List.mem_append.mp hMem with hOld | hNew
        · exact hAll w hOld
        · rw [List.mem_singleton.mp hNew]
          exact List.forall_mem_nil _
  | broadcast forecast =>
      unfold SparesAcks
      rw [← forall₂_and]
      constructor
      · intro hAll w hMem
        apply (hStep w hMem _).mp
        exact hAll _ (List.mem_map_of_mem hMem)
      · intro hAll w hMem
        rcases List.mem_map.mp hMem with ⟨w', hOld, rfl⟩
        exact (hStep w' hOld _).mpr (hAll w' hOld)
  | socket index event =>
      exact
        List.forall_mem_modify
          (fun w hMem => hStep w hMem event.event) index

/-
  In every run of the fan-out every socket is served as it
  should be, exactly if no frame is ever offered to a full
  queue whose oldest frame is an acknowledgement.
-/
theorem fansOut_iff
    {queueSize : ℕ}
    (hPos : 0 < queueSize)
    (events : List Event) :
    let m :=
      events.foldl (Manager.step repr depth maxMissedPongs)
        (Manager.start queueSize)
    (∀ w ∈ m.sockets, FansOut queueSize m.broadcasts w) ↔
      AllAlong (Manager.step repr depth maxMissedPongs)
        (SparesAcks depth) (Manager.start queueSize)
        events := by
  intro m
  have hStart :
      ManagerBalanced queueSize (Manager.start queueSize) :=
    { size := rfl
      balanced := List.forall_mem_nil _ }
  have hStep :
      ∀ m event, ManagerBalanced queueSize m →
        ManagerBalanced queueSize
            (m.step repr depth maxMissedPongs event) ∧
          ((∀ w ∈
              (m.step repr depth maxMissedPongs
                event).sockets,
              KeepsAcks w.log) ↔
            (∀ w ∈ m.sockets, KeepsAcks w.log) ∧
              SparesAcks depth m event) :=
    fun m event hBalanced =>
      ⟨managerBalanced_step repr depth maxMissedPongs hPos
          hBalanced event,
        keepsAcks_managerStep repr depth maxMissedPongs hPos
          hBalanced event⟩
  have hBalanced : ManagerBalanced queueSize m :=
    List.foldlRecOn events _ hStart
      (fun m hM event _ => (hStep m event hM).1)
  have hKept :=
    AllAlong.iff_of_step (ManagerBalanced queueSize)
      (fun m => ∀ w ∈ m.sockets, KeepsAcks w.log) hStep
      events hStart
  have hFansOut :
      (∀ w ∈ m.sockets, FansOut queueSize m.broadcasts w) ↔
        ∀ w ∈ m.sockets, KeepsAcks w.log :=
    forall₂_congr
      (fun w hMem =>
        (hBalanced.balanced w hMem).fansOut_iff_keepsAcks)
  rw [hFansOut, hKept]
  exact and_iff_right (List.forall_mem_nil _)

end Runs

------------------------------------------------------------
-- Two runs
------------------------------------------------------------

/- A client that sets a filter, and a forecast for it. -/
def filteredRun : List Event :=
  [.subscribe "t" none,
    .socket 0
      (.text "\x7b\"type\": \"filter\", \"hosts\": [\"a\"]\x7d"),
    .broadcast
      { tenantId := "t"
        hostId := PyStr.of "a"
        bytes := [1] },
    .socket 0 .get, .socket 0 .serve]

theorem fansOut_iff_filteredRun :
    let m :=
      filteredRun.foldl (Manager.step noRepr 900 2)
        (Manager.start 2)
    (∀ w ∈ m.sockets, FansOut 2 m.broadcasts w) ↔
      AllAlong (Manager.step noRepr 900 2) (SparesAcks 900)
        (Manager.start 2) filteredRun :=
  fansOut_iff noRepr 900 2 Nat.zero_lt_two filteredRun

/- With room for one frame the forecast takes its place. -/
theorem not_fansOut_filteredRun :
    let m :=
      filteredRun.foldl (Manager.step noRepr 900 2)
        (Manager.start 1)
    ¬ ∀ w ∈ m.sockets, FansOut 1 m.broadcasts w := by
  intro m hAll
  have hKeeps : ∀ w ∈ m.sockets, KeepsAcks w.log :=
    fun w hMem => (hAll w hMem).keepsAcks
  revert hKeeps
  unfold KeepsAcks
  decide +kernel

end Stream

end Api

end Nidra
