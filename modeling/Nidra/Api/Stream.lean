import Nidra.Lib.Folds
import Nidra.Lib.JsonLoads

/-
  This file defines the live forecast stream of the API: a
  subscription with its tenant, its filter and its bounded
  queue; the two tasks of a socket, one that receives what
  the client sends and one that sends what is queued; and the
  fan-out of forecasts to all sockets of a tenant.

  Key definitions include:
    * `Frame`, `Subscription`
    * `Subscription.setHosts`, `Subscription.offer`
    * `Socket`, `SocketEvent`, `Action`
    * `Socket.receive`, `Socket.serve`, `Socket.step`
    * `Manager`, `Event`, `Manager.step`
-/

namespace Nidra

namespace Api

namespace Stream

------------------------------------------------------------
-- Subscriptions
------------------------------------------------------------

def filterMessage : PyStr := PyStr.of "filter"

def pongMessage : PyStr := PyStr.of "pong"

/-
  The bytes of a forecast as they were published, or a
  control frame of the server, which is written as JSON.
-/
inductive Payload where
  | forecast (bytes : List UInt8)
  | control (kind : PyStr) (hosts : List PyStr)
deriving DecidableEq

/- What is queued; a control frame is about no host. -/
structure Frame where
  hostId : Option PyStr
  payload : Payload
deriving DecidableEq

/- A filter of hosts; none is every host of the tenant. -/
abbrev HostFilter :=
  Option (Finset PyStr)

/- One socket's view of the fan-out. -/
structure Subscription where
  tenantId : String
  maxSize : ℕ
  queue : List Frame
  hosts : HostFilter
  dropped : ℕ

/- Whether a filter lets a frame through. -/
def wants
    (hosts : HostFilter)
    (hostId : Option PyStr) : Bool :=
  match hostId, hosts with
  | none, _ => true
  | some _, none => true
  | some host, some hosts => decide (host ∈ hosts)

/- An empty filter is no filter. -/
def selectHosts (selected : Option (List PyStr)) : HostFilter :=
  (selected.map List.toFinset).filter (fun hosts => hosts ≠ ∅)

/-
  A queue is full at its size; a size of zero is no bound.
-/
def isFull
    (maxSize : ℕ)
    (queue : List Frame) : Bool :=
  0 < maxSize && maxSize ≤ queue.length

/- Drop the oldest entries of a queue while it is full. -/
def makeRoom
    (maxSize : ℕ) :
    List Frame → List Frame × List (Frame × List Frame)
  | [] => ([], [])
  | frame :: rest =>
      if isFull maxSize (frame :: rest) then
        let room := makeRoom maxSize rest
        (room.1, (frame, frame :: rest) :: room.2)
      else (frame :: rest, [])

/-
  Enqueue a frame, with what was dropped for it and the queue
  that each was dropped from.
-/
def Subscription.offer
    (sub : Subscription)
    (frame : Frame) :
    Subscription × List (Frame × List Frame) :=
  let room := makeRoom sub.maxSize sub.queue
  ({ sub with
      queue := room.1 ++ [frame]
      dropped := sub.dropped + room.2.length }, room.2)

section Client

-- What `str` makes of a value that is no text.
variable (repr : Json → PyStr)

def strOf : Json → PyStr
  | .str s => s
  | value => repr value

/-
  The texts of the hosts that a client names: the parts of
  what can be iterated over. A number or a boolean raises.
-/
def hostTexts : Json → Option (Option (List PyStr))
  | .null => some none
  | .bool _ => none
  | .int _ => none
  | .float _ => none
  | .str s => some (some (s.map (fun c => [c])))
  | .array items => some (some (items.map (strOf repr)))
  | .object entries => some (some (entries.map Prod.fst))

/- Replace the host filter; none when this raises. -/
def Subscription.setHosts
    (sub : Subscription)
    (hosts : Option Json) : Option Subscription :=
  (hostTexts repr (hosts.getD .null)).map (fun selected =>
    { sub with hosts := selectHosts selected })

end Client

/- The hosts of a filter, sorted; no filter has none. -/
def sortedHosts (hosts : HostFilter) : List PyStr :=
  (hosts.getD ∅).sort (· ≤ ·)

/- What acknowledges a filter. -/
def acknowledgement (hosts : HostFilter) : Frame :=
  { hostId := none
    payload := .control filterMessage (sortedHosts hosts) }

------------------------------------------------------------
-- Sockets
------------------------------------------------------------

/-
  The task that takes a frame off the queue: not there, at
  work, or done with a frame that is not served yet.
-/
inductive Getter where
  | idle
  | waiting
  | holding (frame : Frame)
deriving DecidableEq

/-
  A socket: whether its receiving task runs, whether its
  sending task awaits a send, that of a close frame at last,
  and whether it is served at all. Pings are counted until a
  pong answers.
-/
structure Socket where
  sub : Subscription
  missed : ℕ
  receiving : Bool
  getter : Getter
  sending : Bool
  closing : Bool
  isOpen : Bool

/-
  What is done to a frame, with the queue or the filter at
  that time; or that the filter is set.
-/
inductive Action where
  | filtered (hosts : HostFilter)
  | offered (frame : Frame)
  | dropped (frame : Frame) (queue : List Frame)
  | taken (frame : Frame)
  | drained (frame : Frame) (hosts : HostFilter) (sent : Bool)

/-
  What can happen to a socket: a forecast of some tenant is
  broadcast; a text of the client arrives, or the client
  disconnects; the getter takes a frame; the sending task
  wakes, its send ends, or nothing happens for an interval.
-/
inductive SocketEvent where
  | broadcast
      (tenantId : String)
      (hostId : PyStr)
      (bytes : List UInt8)
  | text (chars : String)
  | disconnect
  | get
  | serve
  | sendEnds (succeeds : Bool)
  | quiet

def Socket.opened
    (maxSize : ℕ)
    (tenantId : String)
    (hosts : Option (List PyStr)) : Socket :=
  { sub :=
      { tenantId := tenantId
        maxSize := maxSize
        queue := []
        hosts := selectHosts hosts
        dropped := 0 }
    missed := 0
    receiving := true
    getter := .waiting
    sending := false
    closing := false
    isOpen := true }

/- The subscription with one more frame, and what was done. -/
def Socket.offer
    (s : Socket)
    (frame : Frame) : Socket × List Action :=
  let offered := s.sub.offer frame
  ({ s with sub := offered.1 },
    offered.2.map (fun d => Action.dropped d.1 d.2) ++
      [.offered frame])

def Socket.broadcast
    (s : Socket)
    (tenantId : String)
    (hostId : PyStr)
    (bytes : List UInt8) : Socket × List Action :=
  if s.isOpen && decide (s.sub.tenantId = tenantId) then
    s.offer
      { hostId := some hostId
        payload := .forecast bytes }
  else (s, [])

/- The receiving task ends, by a return or an exception. -/
def Socket.endReceiving (s : Socket) : Socket × List Action :=
  ({ s with receiving := false }, [])

/- No task of the socket is left. -/
def Socket.close (s : Socket) : Socket × List Action :=
  ({ s with isOpen := false }, [])

section Steps

variable (repr : Json → PyStr)
-- Levels of nesting that the stack has room for.
variable (depth : ℕ)
variable (maxMissedPongs : ℕ)

/- A message that is a JSON object. -/
def Socket.receiveMessage
    (s : Socket)
    (message : List (PyStr × Json)) : Socket × List Action :=
  match Json.get? message (PyStr.of "type") with
  | some (.str kind) =>
      if kind = pongMessage then ({ s with missed := 0 }, [])
      else if kind = filterMessage then
        match s.sub.setHosts repr
            (Json.get? message (PyStr.of "hosts")) with
        | none => s.endReceiving
        | some sub =>
            let acknowledged :=
              ({ s with sub := sub } : Socket).offer
                (acknowledgement sub.hosts)
            (acknowledged.1,
              .filtered sub.hosts :: acknowledged.2)
      else (s, [])
  | _ => (s, [])

/-
  A text of the client. What is no JSON is ignored; too deep
  nesting is a runtime error, like a closed socket; and too
  many digits are an error of another kind.
-/
def Socket.receive
    (s : Socket)
    (chars : String) : Socket × List Action :=
  if s.isOpen && s.receiving then
    match Json.loads depth chars with
    | .error .decode => (s, [])
    | .error .recursion => s.endReceiving
    | .error .digits => s.endReceiving
    | .ok (.object message) => s.receiveMessage repr message
    | .ok _ => (s, [])
  else (s, [])

def Socket.disconnect (s : Socket) : Socket × List Action :=
  if s.isOpen && s.receiving then s.endReceiving else (s, [])

/- The getter takes the oldest frame. -/
def Socket.get (s : Socket) : Socket × List Action :=
  match s.isOpen, s.getter, s.sub.queue with
  | true, .waiting, frame :: rest =>
      ({ s with
          sub := { s.sub with queue := rest }
          getter := .holding frame }, [.taken frame])
  | _, _, _ => (s, [])

/-
  The sending task wakes: the socket is closed if nothing is
  received any more, or else the frame that the getter holds
  is sent, if it is wanted.
-/
def Socket.serve (s : Socket) : Socket × List Action :=
  if !s.isOpen || s.sending then (s, [])
  else if !s.receiving then s.close
  else
    match s.getter with
    | .idle => (s, [])
    | .waiting => (s, [])
    | .holding frame =>
        if wants s.sub.hosts frame.hostId then
          ({ s with
              getter := .idle
              sending := true },
            [.drained frame s.sub.hosts true])
        else
          ({ s with getter := .waiting },
            [.drained frame s.sub.hosts false])

/-
  A send ends; after one that failed, or that of a close
  frame, the socket is closed.
-/
def Socket.sendEnds
    (s : Socket)
    (succeeds : Bool) : Socket × List Action :=
  if s.isOpen && s.sending then
    if succeeds && !s.closing then
      ({ s with
          sending := false
          getter :=
            match s.getter with
            | .idle => .waiting
            | getter => getter }, [])
    else s.close
  else (s, [])

/- Whether the sending task has waited for an interval. -/
def Socket.isQuiet (s : Socket) : Bool :=
  s.isOpen && !s.sending && s.receiving &&
    decide (s.getter = .waiting)

/-
  A ping, or a close frame for a client that answers none.
  Until that is sent, the subscription stays.
-/
def Socket.heartbeat (s : Socket) : Socket × List Action :=
  if s.isQuiet then
    if maxMissedPongs ≤ s.missed then
      ({ s with
          sending := true
          closing := true }, [])
    else
      ({ s with
          missed := s.missed + 1
          sending := true }, [])
  else (s, [])

def Socket.step
    (s : Socket) : SocketEvent → Socket × List Action
  | .broadcast tenantId hostId bytes =>
      s.broadcast tenantId hostId bytes
  | .text chars => s.receive repr depth chars
  | .disconnect => s.disconnect
  | .get => s.get
  | .serve => s.serve
  | .sendEnds succeeds => s.sendEnds succeeds
  | .quiet => s.heartbeat maxMissedPongs

------------------------------------------------------------
-- The fan-out
------------------------------------------------------------

/- A socket with everything that was done on it. -/
structure Watched where
  socket : Socket
  log : List Action

def Watched.step
    (w : Watched)
    (event : SocketEvent) : Watched :=
  let stepped := w.socket.step repr depth maxMissedPongs event
  { socket := stepped.1
    log := w.log ++ stepped.2 }

/- A forecast that was fanned out. -/
structure Broadcast where
  tenantId : String
  hostId : PyStr
  bytes : List UInt8
deriving DecidableEq

/- All sockets that were opened, and what was fanned out. -/
structure Manager where
  queueSize : ℕ
  sockets : List Watched
  broadcasts : List Broadcast

def Manager.start (queueSize : ℕ) : Manager :=
  { queueSize := queueSize
    sockets := []
    broadcasts := [] }

/- What the client and the tasks of one socket do. -/
inductive OwnEvent where
  | text (chars : String)
  | disconnect
  | get
  | serve
  | sendEnds (succeeds : Bool)
  | quiet

def OwnEvent.event : OwnEvent → SocketEvent
  | .text chars => .text chars
  | .disconnect => .disconnect
  | .get => .get
  | .serve => .serve
  | .sendEnds succeeds => .sendEnds succeeds
  | .quiet => .quiet

inductive Event where
  | subscribe
      (tenantId : String)
      (hosts : Option (List PyStr))
  | broadcast (forecast : Broadcast)
  | socket (index : ℕ) (event : OwnEvent)

/- Each forecast is offered to every socket of its tenant. -/
def Manager.broadcast
    (m : Manager)
    (forecast : Broadcast) : Manager :=
  { m with
    sockets :=
      m.sockets.map (fun w =>
        w.step repr depth maxMissedPongs
          (.broadcast forecast.tenantId forecast.hostId
            forecast.bytes))
    broadcasts := m.broadcasts ++ [forecast] }

def Manager.subscribe
    (m : Manager)
    (tenantId : String)
    (hosts : Option (List PyStr)) : Manager :=
  { m with
    sockets :=
      m.sockets ++
        [{ socket :=
            Socket.opened m.queueSize tenantId hosts
           log := [.filtered (selectHosts hosts)] }] }

def Manager.step
    (m : Manager) : Event → Manager
  | .subscribe tenantId hosts => m.subscribe tenantId hosts
  | .broadcast forecast =>
      m.broadcast repr depth maxMissedPongs forecast
  | .socket index event =>
      { m with
        sockets :=
          m.sockets.modify index (fun w =>
            w.step repr depth maxMissedPongs event.event) }

end Steps

end Stream

end Api

end Nidra
