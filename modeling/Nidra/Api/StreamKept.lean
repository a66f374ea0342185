import Nidra.Api.Stream

/-
  This file says which texts of a client end its stream: the
  receiving task goes on after every other one, and the
  socket is served until the client disconnects.

  Key definitions include:
    * `endsReceiving`
    * `ClientStays`, `Kept`

  Main declarations:
    * `receiveMessage_cases`
    * `kept_step`
    * `serve_closes`
    * `streamKept_iff`
-/

namespace Nidra

namespace Api

namespace Stream

------------------------------------------------------------
-- Texts
------------------------------------------------------------

/- Hosts that cannot be iterated over. -/
def refusesHosts : Option Json → Bool
  | some (.bool _) => true
  | some (.int _) => true
  | some (.float _) => true
  | _ => false

/- A filter message with such hosts. -/
def endsOnMessage (message : List (PyStr × Json)) : Bool :=
  match Json.get? message (PyStr.of "type") with
  | some (.str kind) =>
      decide (kind = filterMessage) &&
        refusesHosts (Json.get? message (PyStr.of "hosts"))
  | _ => false

/- A message that sets the filter of a socket. -/
def setsFilterBy (message : List (PyStr × Json)) : Bool :=
  match Json.get? message (PyStr.of "type") with
  | some (.str kind) =>
      decide (kind = filterMessage) &&
        !refusesHosts (Json.get? message (PyStr.of "hosts"))
  | _ => false

/-
  A text that is nested too deeply, that has an integer with
  too many digits, or that is a filter message whose hosts
  are a number or a boolean.
-/
def endsReceiving
    (depth : ℕ)
    (chars : String) : Bool :=
  match Json.loads depth chars with
  | .error .decode => false
  | .error .recursion => true
  | .error .digits => true
  | .ok (.object message) => endsOnMessage message
  | .ok _ => false

theorem pong_ne_filter : pongMessage ≠ filterMessage := by
  decide +kernel

section Texts

variable (repr : Json → PyStr)
variable (depth : ℕ)

theorem setHosts_eq_none_iff
    (sub : Subscription)
    (hosts : Option Json) :
    sub.setHosts repr hosts = none ↔
      refusesHosts hosts = true := by
  unfold Subscription.setHosts
  cases hosts with
  | none => simp [hostTexts, refusesHosts]
  | some value =>
      cases value <;> simp [hostTexts, refusesHosts]

/- A filter that is set is acknowledged. -/
def Acknowledges
    (s : Socket)
    (stepped : Socket × List Action) : Prop :=
  ∃ hosts,
    let filtered : Socket :=
      { s with sub := { s.sub with hosts := hosts } }
    let offered := filtered.offer (acknowledgement hosts)
    stepped = (offered.1, .filtered hosts :: offered.2)

/-
  A message ends receiving, sets the filter, or does neither
  and at most answers a ping.
-/
theorem receiveMessage_cases
    (s : Socket)
    (message : List (PyStr × Json)) :
    let stepped := s.receiveMessage repr message
    (endsOnMessage message = true ∧
        setsFilterBy message = false ∧
          stepped = s.endReceiving) ∨
      (endsOnMessage message = false ∧
        setsFilterBy message = true ∧
          Acknowledges s stepped) ∨
      (endsOnMessage message = false ∧
        setsFilterBy message = false ∧
          ∃ missed,
            stepped = ({ s with missed := missed }, [])) := by
  intro stepped
  unfold stepped Socket.receiveMessage endsOnMessage
    setsFilterBy
  have hNeither :
      ∃ missed,
        ((s, []) : Socket × List Action) =
          ({ s with missed := missed }, []) :=
    ⟨s.missed, rfl⟩
  cases hType : Json.get? message (PyStr.of "type") with
  | none => exact Or.inr (Or.inr ⟨rfl, rfl, hNeither⟩)
  | some value =>
      cases value with
      | str kind =>
          dsimp only
          by_cases hPong : kind = pongMessage
          · have hNotFilter : kind ≠ filterMessage := by
              rw [hPong]
              exact pong_ne_filter
            rw [if_pos hPong, decide_eq_false hNotFilter,
              Bool.false_and, Bool.false_and]
            exact Or.inr (Or.inr ⟨rfl, rfl, 0, rfl⟩)
          · rw [if_neg hPong]
            by_cases hFilter : kind = filterMessage
            · rw [if_pos hFilter, decide_eq_true hFilter,
                Bool.true_and, Bool.true_and]
              cases hHosts :
                  s.sub.setHosts repr
                    (Json.get? message (PyStr.of "hosts"))
                with
              | none =>
                  rw [(setHosts_eq_none_iff repr _ _).mp
                    hHosts]
                  exact Or.inl ⟨rfl, rfl, rfl⟩
              | some sub =>
                  have hTaken :
                      refusesHosts
                          (Json.get? message
                            (PyStr.of "hosts")) = false := by
                    rw [← Bool.not_eq_true,
                      ← setHosts_eq_none_iff repr s.sub,
                      hHosts]
                    exact Option.some_ne_none sub
                  rw [hTaken]
                  obtain ⟨selected, hSelected, rfl⟩ :=
                    Option.map_eq_some_iff.mp hHosts
                  exact
                    Or.inr
                      (Or.inl
                        ⟨rfl, rfl,
                          selectHosts selected, rfl⟩)
            · rw [if_neg hFilter, decide_eq_false hFilter,
                Bool.false_and, Bool.false_and]
              exact Or.inr (Or.inr ⟨rfl, rfl, hNeither⟩)
      | null => exact Or.inr (Or.inr ⟨rfl, rfl, hNeither⟩)
      | bool b => exact Or.inr (Or.inr ⟨rfl, rfl, hNeither⟩)
      | int n => exact Or.inr (Or.inr ⟨rfl, rfl, hNeither⟩)
      | float x => exact Or.inr (Or.inr ⟨rfl, rfl, hNeither⟩)
      | array items =>
          exact Or.inr (Or.inr ⟨rfl, rfl, hNeither⟩)
      | object entries =>
          exact Or.inr (Or.inr ⟨rfl, rfl, hNeither⟩)

/- A message leaves the receiving task running or ends it. -/
theorem receiveMessage_tasks
    (s : Socket)
    (message : List (PyStr × Json)) :
    let left := (s.receiveMessage repr message).1
    left.isOpen = s.isOpen ∧
      left.receiving =
        (s.receiving && !endsOnMessage message) ∧
      left.closing = s.closing := by
  intro left
  unfold left
  rcases receiveMessage_cases repr s message with
    ⟨hEnds, _, hLeft⟩ | ⟨hEnds, _, hosts, hLeft⟩ |
      ⟨hEnds, _, missed, hLeft⟩
  · rw [hEnds, hLeft, Bool.not_true, Bool.and_false]
    exact ⟨rfl, rfl, rfl⟩
  · rw [hEnds, hLeft, Bool.not_false, Bool.and_true]
    exact ⟨rfl, rfl, rfl⟩
  · rw [hEnds, hLeft, Bool.not_false, Bool.and_true]
    exact ⟨rfl, rfl, rfl⟩

/- After a text, the receiving task runs unless it ends it. -/
theorem receive_tasks
    {s : Socket}
    (hOpen : s.isOpen = true)
    (hReceiving : s.receiving = true)
    (chars : String) :
    let left := (s.receive repr depth chars).1
    left.isOpen = true ∧
      left.receiving = !endsReceiving depth chars ∧
      left.closing = s.closing := by
  intro left
  unfold left Socket.receive endsReceiving
  rw [hOpen, hReceiving, Bool.and_self, if_pos rfl]
  cases Json.loads depth chars with
  | error error =>
      cases error with
      | decode => exact ⟨hOpen, hReceiving, rfl⟩
      | recursion => exact ⟨hOpen, rfl, rfl⟩
      | digits => exact ⟨hOpen, rfl, rfl⟩
  | ok value =>
      cases value with
      | object message =>
          have hTasks := receiveMessage_tasks repr s message
          rw [hOpen, hReceiving, Bool.true_and] at hTasks
          exact hTasks
      | null => exact ⟨hOpen, hReceiving, rfl⟩
      | bool b => exact ⟨hOpen, hReceiving, rfl⟩
      | int n => exact ⟨hOpen, hReceiving, rfl⟩
      | float x => exact ⟨hOpen, hReceiving, rfl⟩
      | str text => exact ⟨hOpen, hReceiving, rfl⟩
      | array items => exact ⟨hOpen, hReceiving, rfl⟩

end Texts

------------------------------------------------------------
-- Every run
------------------------------------------------------------

section Runs

variable (repr : Json → PyStr)
variable (depth maxMissedPongs : ℕ)

/- The stream goes on, and is not about to be closed. -/
def Kept (s : Socket) : Prop :=
  s.isOpen = true ∧ s.receiving = true ∧ s.closing = false

/-
  The client does not disconnect, sends to it succeed, and it
  answers pings in time.
-/
def ClientStays (s : Socket) : SocketEvent → Prop
  | .disconnect => False
  | .sendEnds succeeds => succeeds = true
  | .quiet => s.isQuiet = true → s.missed < maxMissedPongs
  | .broadcast _ _ _ => True
  | .text _ => True
  | .get => True
  | .serve => True

instance
    (s : Socket)
    (event : SocketEvent) :
    Decidable (ClientStays maxMissedPongs s event) :=
  match event with
  | .disconnect => inferInstanceAs (Decidable False)
  | .sendEnds succeeds =>
      inferInstanceAs (Decidable (succeeds = true))
  | .quiet => inferInstanceAs (Decidable (_ → _))
  | .broadcast _ _ _ => inferInstanceAs (Decidable True)
  | .text _ => inferInstanceAs (Decidable True)
  | .get => inferInstanceAs (Decidable True)
  | .serve => inferInstanceAs (Decidable True)

def Socket.next
    (s : Socket)
    (event : SocketEvent) : Socket :=
  (s.step repr depth maxMissedPongs event).1

/- One event ends the stream only if it is such a text. -/
theorem kept_step
    {s : Socket}
    (hKept : Kept s)
    {event : SocketEvent}
    (hStays : ClientStays maxMissedPongs s event) :
    Kept (s.next repr depth maxMissedPongs event) ↔
      ∀ chars, event = .text chars →
        endsReceiving depth chars = false := by
  rcases hKept with ⟨hOpen, hReceiving, hClosing⟩
  cases event with
  | text chars =>
      have hTasks :=
        receive_tasks repr depth hOpen hReceiving chars
      unfold Kept Socket.next Socket.step
      dsimp only
      rw [hTasks.1, hTasks.2.1, hTasks.2.2]
      constructor
      · rintro ⟨_, hGoesOn, _⟩ chars' hText
        cases hText
        simpa using hGoesOn
      · intro hHarmless
        exact
          ⟨rfl, by rw [hHarmless chars rfl]; rfl, hClosing⟩
  | broadcast tenantId hostId bytes =>
      refine iff_of_true ?_ (fun chars hText => nomatch hText)
      change Kept (s.broadcast tenantId hostId bytes).1
      unfold Socket.broadcast
      split
      · exact ⟨hOpen, hReceiving, hClosing⟩
      · exact ⟨hOpen, hReceiving, hClosing⟩
  | disconnect => exact absurd hStays not_false
  | get =>
      refine iff_of_true ?_ (fun chars hText => nomatch hText)
      change Kept s.get.1
      unfold Socket.get
      split
      · exact ⟨hOpen, hReceiving, hClosing⟩
      · exact ⟨hOpen, hReceiving, hClosing⟩
  | serve =>
      refine iff_of_true ?_ (fun chars hText => nomatch hText)
      change Kept s.serve.1
      unfold Socket.serve
      rw [hReceiving, Bool.not_true]
      split
      · exact ⟨hOpen, hReceiving, hClosing⟩
      · rw [if_neg Bool.false_ne_true]
        split
        · exact ⟨hOpen, hReceiving, hClosing⟩
        · exact ⟨hOpen, hReceiving, hClosing⟩
        · split
          · exact ⟨hOpen, rfl, hClosing⟩
          · exact ⟨hOpen, rfl, hClosing⟩
  | sendEnds succeeds =>
      refine iff_of_true ?_ (fun chars hText => nomatch hText)
      change Kept (s.sendEnds succeeds).1
      unfold Socket.sendEnds
      have hGoesOn : (succeeds && !s.closing) = true := by
        rw [show succeeds = true from hStays, hClosing]
        rfl
      rw [if_pos hGoesOn]
      split
      · exact ⟨hOpen, hReceiving, hClosing⟩
      · exact ⟨hOpen, hReceiving, hClosing⟩
  | quiet =>
      refine iff_of_true ?_ (fun chars hText => nomatch hText)
      change Kept (s.heartbeat maxMissedPongs).1
      unfold Socket.heartbeat
      split
      · rename_i hQuiet
        rw [if_neg (not_le.mpr (hStays hQuiet))]
        exact ⟨hOpen, hReceiving, hClosing⟩
      · exact ⟨hOpen, hReceiving, hClosing⟩

/- A receiving task that has ended does not start again. -/
theorem receiving_next
    {s : Socket}
    (hEnded : s.receiving = false)
    (event : SocketEvent) :
    (s.next repr depth maxMissedPongs event).receiving =
      false := by
  cases event with
  | text chars =>
      change (s.receive repr depth chars).1.receiving = false
      unfold Socket.receive
      rw [hEnded, Bool.and_false, if_neg Bool.false_ne_true]
      exact hEnded
  | disconnect =>
      change s.disconnect.1.receiving = false
      unfold Socket.disconnect
      rw [hEnded, Bool.and_false, if_neg Bool.false_ne_true]
      exact hEnded
  | broadcast tenantId hostId bytes =>
      change
        (s.broadcast tenantId hostId bytes).1.receiving =
          false
      unfold Socket.broadcast
      split
      · exact hEnded
      · exact hEnded
  | get =>
      change s.get.1.receiving = false
      unfold Socket.get
      split
      · exact hEnded
      · exact hEnded
  | serve =>
      change s.serve.1.receiving = false
      unfold Socket.serve
      split
      · exact hEnded
      · rw [hEnded, Bool.not_false, if_pos rfl]
        exact hEnded
  | sendEnds succeeds =>
      change (s.sendEnds succeeds).1.receiving = false
      unfold Socket.sendEnds
      split
      · split
        · exact hEnded
        · exact hEnded
      · exact hEnded
  | quiet =>
      change (s.heartbeat maxMissedPongs).1.receiving = false
      unfold Socket.heartbeat
      split
      · split
        · exact hEnded
        · exact hEnded
      · exact hEnded

theorem receiving_run
    {s : Socket}
    (hEnded : s.receiving = false)
    (events : List SocketEvent) :
    (events.foldl (Socket.next repr depth maxMissedPongs)
      s).receiving = false := by
  induction events generalizing s with
  | nil => exact hEnded
  | cons event events ih =>
      exact
        ih (receiving_next repr depth maxMissedPongs hEnded
          event)

/-
  Once nothing is received, the sending task closes the
  socket when it wakes.
-/
theorem serve_closes
    {s : Socket}
    (hEnded : s.receiving = false)
    (hIdle : s.sending = false) :
    s.serve.1.isOpen = false := by
  unfold Socket.serve
  rw [hEnded, hIdle, Bool.or_false, Bool.not_false]
  cases hOpen : s.isOpen with
  | false =>
      rw [Bool.not_false, if_pos rfl]
      exact hOpen
  | true =>
      rw [Bool.not_true, if_neg Bool.false_ne_true, if_pos rfl]
      rfl

/-
  While the client stays, its stream goes on exactly as long
  as no text ends it.
-/
theorem kept_run
    {s : Socket}
    (hKept : Kept s)
    {events : List SocketEvent}
    (hStays :
      AllAlong (Socket.next repr depth maxMissedPongs)
        (ClientStays maxMissedPongs) s events) :
    Kept
        (events.foldl
          (Socket.next repr depth maxMissedPongs) s) ↔
      ∀ chars, .text chars ∈ events →
        endsReceiving depth chars = false := by
  induction events generalizing s with
  | nil =>
      refine iff_of_true hKept ?_
      intro chars hMem
      cases hMem
  | cons event events ih =>
      rcases hStays with ⟨hFirst, hRest⟩
      have hStep :=
        kept_step repr depth maxMissedPongs hKept hFirst
      rw [List.foldl_cons]
      by_cases hNext :
          Kept (s.next repr depth maxMissedPongs event)
      · rw [ih hNext hRest]
        have hHarmless := hStep.mp hNext
        constructor
        · intro hLater chars hMem
          rcases List.mem_cons.mp hMem with hNow | hIn
          · exact hHarmless chars hNow.symm
          · exact hLater chars hIn
        · intro hAll chars hIn
          exact hAll chars (List.mem_cons_of_mem _ hIn)
      · have hHarmful :
            ¬ ∀ chars, event = .text chars →
              endsReceiving depth chars = false :=
          fun hNow => hNext (hStep.mpr hNow)
        push Not at hHarmful
        rcases hHarmful with ⟨chars, rfl, hEnds⟩
        have hEnded :
            (s.next repr depth maxMissedPongs
              (.text chars)).receiving = false := by
          have hTasks :=
            receive_tasks repr depth hKept.1 hKept.2.1 chars
          have hReceiving := hTasks.2.1
          rw [Bool.eq_true_of_not_eq_false hEnds] at hReceiving
          exact hReceiving
        have hLast :=
          receiving_run repr depth maxMissedPongs hEnded events
        refine iff_of_false ?_ ?_
        · intro hKeptStill
          rw [hKeptStill.2.1] at hLast
          cases hLast
        · intro hAll
          exact hEnds (hAll chars List.mem_cons_self)

/-
  From the opening of a socket on, its stream goes on exactly
  if none of the texts of its client ends it.
-/
theorem streamKept_iff
    (maxSize : ℕ)
    (tenantId : String)
    (hosts : Option (List PyStr))
    (events : List SocketEvent)
    (hStays :
      AllAlong (Socket.next repr depth maxMissedPongs)
        (ClientStays maxMissedPongs)
        (Socket.opened maxSize tenantId hosts) events) :
    Kept
        (events.foldl
          (Socket.next repr depth maxMissedPongs)
          (Socket.opened maxSize tenantId hosts)) ↔
      ∀ chars, .text chars ∈ events →
        endsReceiving depth chars = false :=
  kept_run repr depth maxMissedPongs ⟨rfl, rfl, rfl⟩ hStays

end Runs

------------------------------------------------------------
-- Two clients
------------------------------------------------------------

def noRepr : Json → PyStr :=
  fun _ => []

/- A filter for one host, some other text, and a filter. -/
def patient : List SocketEvent :=
  [.text "\x7b\"type\": \"filter\", \"hosts\": [\"a\"]\x7d",
    .text "hello", .get, .serve, .sendEnds true]

theorem streamKept_iff_patient :
    Kept
        (patient.foldl (Socket.next noRepr 900 2)
          (Socket.opened 4 "t" none)) ↔
      ∀ chars, .text chars ∈ patient →
        endsReceiving 900 chars = false := by
  apply streamKept_iff
  decide +kernel

/- A filter whose hosts are a number. -/
def numbered : List SocketEvent :=
  [.text "\x7b\"type\": \"filter\", \"hosts\": 5\x7d", .serve]

/- The client stays, and its socket is closed. -/
theorem not_kept_numbered :
    AllAlong (Socket.next noRepr 900 2) (ClientStays 2)
        (Socket.opened 4 "t" none) numbered ∧
      ¬ Kept
        (numbered.foldl (Socket.next noRepr 900 2)
          (Socket.opened 4 "t" none)) ∧
      (numbered.foldl (Socket.next noRepr 900 2)
        (Socket.opened 4 "t" none)).isOpen = false := by
  refine ⟨by decide +kernel, ?_, by decide +kernel⟩
  intro hKept
  have hReceiving := hKept.2.1
  revert hReceiving
  decide +kernel

end Stream

end Api

end Nidra
