import Mathlib
import Nidra.Lib.Numerals

/-
  This file defines how the API stores an upload: the chunks
  are written to a file while their size is checked, the
  first bytes are kept to tell what they are, and whatever is
  rejected leaves no file behind. Any read or write may
  raise.

  Key definitions include:
    * `Raised`, `Files`, `Upload`
    * `jobKindFor`
    * `receive`, `storeUpload`, `cleanup`
    * `acceptUpload`
    * `AllOrNothing`

  Main declarations:
    * `Receiving.next`
    * `receive_ok`
    * `storeUpload_of_ne`, `storeUpload_of_faultless`
    * `upload_allOrNothing`
-/

namespace Nidra

namespace Api

abbrev Bytes :=
  List UInt8

------------------------------------------------------------
-- Files
------------------------------------------------------------

structure Path where
  parent : String
  name : String
deriving DecidableEq

/- The files that there are, with their contents. -/
abbrev Files :=
  Path → Option Bytes

def Files.put
    (files : Files)
    (path : Path)
    (content : Bytes) : Files :=
  Function.update files path (some content)

/- Remove a file, which may be missing. -/
def Files.unlink
    (files : Files)
    (path : Path) : Files :=
  Function.update files path none

/- Write at the end of a file that is open. -/
def Files.append
    (files : Files)
    (path : Path)
    (content : Bytes) : Files :=
  files.put path ((files path).getD [] ++ content)

------------------------------------------------------------
-- What may be raised
------------------------------------------------------------

/-
  An answer to the client, with its status; or any other
  exception, a cancellation too.
-/
inductive Raised where
  | http (status : ℕ) (detail : String)
  | other (name : String)
deriving DecidableEq

def badRequest : ℕ := 400

def entityTooLarge : ℕ := 413

def unsupportedMediaType : ℕ := 415

------------------------------------------------------------
-- Content
------------------------------------------------------------

inductive JobKind where
  | pcap
  | csv
deriving DecidableEq

/- The beginnings of a capture, of either byte order. -/
def pcapMagics : List Bytes :=
  [[0xd4, 0xc3, 0xb2, 0xa1], [0xa1, 0xb2, 0xc3, 0xd4],
    [0x0a, 0x0d, 0x0d, 0x0a]]

/- How much of a file is looked at. -/
def sniffBytes : ℕ := 4096

/- Printable ASCII, tab and the line terminators. -/
def printable (byte : UInt8) : Bool :=
  (0x20 ≤ byte && byte < 0x7f) || byte = 0x09 ||
    byte = 0x0d || byte = 0x0a

/- Whether the first line is printable and not empty. -/
def looksLikeText (head : Bytes) : Bool :=
  let firstLine := head.takeWhile (fun byte => byte ≠ 0x0a)
  firstLine ≠ [] && firstLine.all printable

/- The parser for an extension, if the content bears it out. -/
def jobKindFor
    (head : Bytes)
    (ext : String) : Except Raised JobKind :=
  if ext = ".pcap" ∨ ext = ".pcapng" then
    if head.take 4 ∈ pcapMagics then .ok .pcap
    else
      .error
        (.http unsupportedMediaType
          (ext ++ " content does not start with a pcap " ++
            "or pcapng magic number"))
  else if looksLikeText head then .ok .csv
  else
    .error
      (.http unsupportedMediaType
        ("csv content is not text; its first line " ++
          "contains non-printable bytes"))

------------------------------------------------------------
-- An upload
------------------------------------------------------------

/- One read of the upload; an empty chunk is its end. -/
inductive Read where
  | chunk (bytes : Bytes)
  | raises (error : Raised)

/-
  One write to the file. A write that raises may leave any
  bytes in it.
-/
inductive Write where
  | succeeds
  | raises (error : Raised) (leaves : Bytes)

/-
  How the reads and the writes of an upload turn out, in
  their order. After the last one the upload is at its end.
-/
structure Upload where
  creation : Write
  transfers : List (Read × Write)
  close : Write

/- The bytes that are read before the end of an upload. -/
def contentOf : List (Read × Write) → Bytes
  | [] => []
  | (.raises _, _) :: _ => []
  | (.chunk [], _) :: _ => []
  | (.chunk (byte :: bytes), _) :: rest =>
      (byte :: bytes) ++ contentOf rest

def Upload.content (upload : Upload) : Bytes :=
  contentOf upload.transfers

section Store

variable (destination : Path)
variable (capBytes : ℤ)

/- The head that was sniffed, and how much was written. -/
structure Received where
  head : Bytes
  written : ℕ

def tooLarge : Raised :=
  .http entityTooLarge
    ("upload exceeds the " ++
      toString (Int.fdiv capBytes (1024 * 1024)) ++
      " MB limit")

/- What a chunk within the cap makes of them. -/
def Received.next
    (received : Received)
    (chunk : Bytes) : Received :=
  { head :=
      if received.head.length < sniffBytes then
        received.head ++
          chunk.take (sniffBytes - received.head.length)
      else received.head
    written := received.written + chunk.length }

/- The loop over the chunks of an upload. -/
def receive :
    List (Read × Write) → Received → Files →
      Except Raised Received × Files
  | [], received, files => (.ok received, files)
  | (.raises error, _) :: _, _, files => (.error error, files)
  | (.chunk [], _) :: _, received, files =>
      (.ok received, files)
  | (.chunk (byte :: bytes), write) :: rest, received,
      files =>
      let chunk := byte :: bytes
      let next := received.next chunk
      if capBytes < next.written then
        (.error (tooLarge capBytes), files)
      else
        match write with
        | .raises error leaves =>
            (.error error, files.put destination leaves)
        | .succeeds =>
            receive rest next (files.append destination chunk)

/- Closing the file, which may raise over what was raised. -/
def closeFile
    (close : Write)
    (left : Except Raised Received × Files) :
    Except Raised Received × Files :=
  match close with
  | .succeeds => left
  | .raises error leaves =>
      (.error error, left.2.put destination leaves)

/- The statement that opens, fills and closes the file. -/
def writeFile
    (upload : Upload)
    (files : Files) : Except Raised Received × Files :=
  match upload.creation with
  | .raises error leaves =>
      (.error error, files.put destination leaves)
  | .succeeds =>
      closeFile destination upload.close
        (receive destination capBytes upload.transfers
          { head := []
            written := 0 }
          (files.put destination []))

/- Stream the upload to a file, and return its head. -/
def storeUpload
    (upload : Upload)
    (files : Files) : Except Raised Bytes × Files :=
  match writeFile destination capBytes upload files with
  | (.error error, files) =>
      (.error error, files.unlink destination)
  | (.ok received, files) =>
      if received.written = 0 then
        (.error (.http badRequest "uploaded file is empty"),
          files.unlink destination)
      else (.ok received.head, files)

/- Remove the files of a directory. -/
def cleanup
    (directory : String)
    (files : Files) : Files :=
  fun path =>
    if path.parent = directory then none else files path

/-
  Store an upload and tell what it is. An answer to the
  client cleans up before it is given.
-/
def acceptUpload
    (ext : String)
    (upload : Upload)
    (files : Files) : Except Raised JobKind × Files :=
  let stored := storeUpload destination capBytes upload files
  let outcome := stored.1.bind (fun head => jobKindFor head ext)
  match outcome with
  | .error (.http status detail) =>
      (.error (.http status detail),
        cleanup destination.parent stored.2)
  | .error (.other name) => (.error (.other name), stored.2)
  | .ok kind => (.ok kind, stored.2)

------------------------------------------------------------
-- All or nothing
------------------------------------------------------------

/-
  What an upload that is stored leaves, and that one that
  raises, or is of another kind than its extension says,
  leaves nothing.
-/
structure AllOrNothing
    (upload : Upload)
    (files : Files) : Prop where
  stored :
    ∀ head files',
      storeUpload destination capBytes upload files =
          (.ok head, files') →
        files' destination = some upload.content ∧
          upload.content ≠ [] ∧
          (upload.content.length : ℤ) ≤ capBytes ∧
          head = upload.content.take sniffBytes
  raised :
    ∀ error files',
      storeUpload destination capBytes upload files =
          (.error error, files') →
        files' destination = none
  mismatch :
    ∀ ext error files',
      acceptUpload destination capBytes ext upload files =
          (.error error, files') →
        files' destination = none

------------------------------------------------------------
-- The loop
------------------------------------------------------------

/- What the loop has received, and the file it has filled. -/
structure Receiving
    (content : Bytes)
    (received : Received)
    (files : Files) : Prop where
  file : files destination = some content
  head : received.head = content.take sniffBytes
  written : received.written = content.length

variable {destination} {capBytes}

/- A chunk extends the head up to its length. -/
theorem Receiving.next
    {content chunk : Bytes}
    {received : Received}
    {files : Files}
    (hReceiving :
      Receiving destination content received files) :
    Receiving destination (content ++ chunk)
      (received.next chunk)
      (files.append destination chunk) := by
  have hHead := hReceiving.head
  refine
    { file := ?_
      head := ?_
      written := ?_ }
  · unfold Files.append Files.put
    rw [Function.update_self, hReceiving.file]
    rfl
  · unfold Received.next
    rw [hHead, List.take_append, List.length_take]
    by_cases hShort : content.length < sniffBytes
    · have hMin :
          min sniffBytes content.length = content.length :=
        min_eq_right hShort.le
      rw [hMin, if_pos hShort]
    · have hMin :
          min sniffBytes content.length = sniffBytes :=
        min_eq_left (not_lt.mp hShort)
      have hFull : sniffBytes - content.length = 0 := by
        omega
      rw [hMin, if_neg (lt_irrefl _), hFull, List.take_zero,
        List.append_nil]
  · rw [List.length_append, ← hReceiving.written]
    rfl

/- One turn of the loop. -/
theorem receive_chunk
    (byte : UInt8)
    (bytes : Bytes)
    (write : Write)
    (rest : List (Read × Write))
    (received : Received)
    (files : Files) :
    receive destination capBytes
        ((.chunk (byte :: bytes), write) :: rest) received
        files =
      if capBytes < (received.next (byte :: bytes)).written
      then (.error (tooLarge capBytes), files)
      else
        match write with
        | .raises error leaves =>
            (.error error, files.put destination leaves)
        | .succeeds =>
            receive destination capBytes rest
              (received.next (byte :: bytes))
              (files.append destination (byte :: bytes)) :=
  rfl

/-
  The loop ends with all chunks in the file, and after any of
  them what was written is within the cap.
-/
theorem receive_ok
    {transfers : List (Read × Write)}
    {content : Bytes}
    {received result : Received}
    {files files' : Files}
    (hReceiving :
      Receiving destination content received files)
    (hWithin :
      content ≠ [] → (content.length : ℤ) ≤ capBytes)
    (hOk :
      receive destination capBytes transfers received files =
        (.ok result, files')) :
    Receiving destination (content ++ contentOf transfers)
        result files' ∧
      (content ++ contentOf transfers ≠ [] →
        ((content ++ contentOf transfers).length : ℤ) ≤
          capBytes) := by
  induction transfers generalizing content received files with
  | nil =>
      cases hOk
      rw [contentOf, List.append_nil]
      exact ⟨hReceiving, hWithin⟩
  | cons transfer rest ih =>
      rcases transfer with ⟨read, write⟩
      cases read with
      | raises error => cases hOk
      | chunk bytes =>
          cases bytes with
          | nil =>
              cases hOk
              rw [contentOf, List.append_nil]
              exact ⟨hReceiving, hWithin⟩
          | cons byte bytes =>
              rw [receive_chunk] at hOk
              split at hOk
              · cases hOk
              · rename_i hFits
                cases write with
                | raises error leaves => cases hOk
                | succeeds =>
                    have hNext :
                        Receiving destination
                          (content ++ byte :: bytes) _ _ :=
                      hReceiving.next
                    rw [hNext.written, not_lt] at hFits
                    have hRest :=
                      ih hNext (fun _ => hFits) hOk
                    rw [contentOf, ← List.append_assoc]
                    exact hRest

/- Only a loop without a failure ends the file in order. -/
theorem writeFile_ok
    {upload : Upload}
    {result : Received}
    {files files' : Files}
    (hOk :
      writeFile destination capBytes upload files =
        (.ok result, files')) :
    receive destination capBytes upload.transfers
        { head := []
          written := 0 }
        (files.put destination []) = (.ok result, files') := by
  unfold writeFile at hOk
  cases hCreation : upload.creation with
  | raises error leaves =>
      rw [hCreation] at hOk
      cases hOk
  | succeeds =>
      rw [hCreation] at hOk
      dsimp only at hOk
      unfold closeFile at hOk
      cases hClose : upload.close with
      | raises error leaves =>
          rw [hClose] at hOk
          cases hOk
      | succeeds =>
          rw [hClose] at hOk
          exact hOk

/- What is in the file that was opened, filled and closed. -/
theorem receiving_of_writeFile
    {upload : Upload}
    {result : Received}
    {files files' : Files}
    (hOk :
      writeFile destination capBytes upload files =
        (.ok result, files')) :
    Receiving destination upload.content result files' ∧
      (upload.content ≠ [] →
        (upload.content.length : ℤ) ≤ capBytes) := by
  have hStart :
      Receiving destination []
        { head := []
          written := 0 }
        (files.put destination []) :=
    { file := Function.update_self _ _ _
      head := rfl
      written := rfl }
  have hReceive := writeFile_ok hOk
  exact
    receive_ok hStart (fun hNe => absurd rfl hNe) hReceive

------------------------------------------------------------
-- Other files
------------------------------------------------------------

theorem put_of_ne
    {files : Files}
    {content : Bytes}
    {path : Path}
    (hNe : path ≠ destination) :
    files.put destination content path = files path :=
  Function.update_of_ne hNe _ _

/- The loop writes to its own file. -/
theorem receive_of_ne
    (transfers : List (Read × Write))
    (received : Received)
    (files : Files)
    {path : Path}
    (hNe : path ≠ destination) :
    (receive destination capBytes transfers received
      files).2 path = files path := by
  induction transfers generalizing received files with
  | nil => rfl
  | cons transfer rest ih =>
      rcases transfer with ⟨read, write⟩
      cases read with
      | raises error => rfl
      | chunk bytes =>
          cases bytes with
          | nil => rfl
          | cons byte bytes =>
              rw [receive_chunk]
              split
              · rfl
              · cases write with
                | raises error leaves => exact put_of_ne hNe
                | succeeds =>
                    exact (ih _ _).trans (put_of_ne hNe)

/- An upload touches no file but its own. -/
theorem storeUpload_of_ne
    (upload : Upload)
    (files : Files)
    {path : Path}
    (hNe : path ≠ destination) :
    (storeUpload destination capBytes upload files).2 path =
      files path := by
  have hFilled :
      (writeFile destination capBytes upload files).2 path =
        files path := by
    unfold writeFile closeFile
    cases upload.creation with
    | raises error leaves => exact put_of_ne hNe
    | succeeds =>
        have hLoop :
            (receive destination capBytes upload.transfers
              { head := []
                written := 0 }
              (files.put destination [])).2 path =
                files path :=
          (receive_of_ne _ _ _ hNe).trans (put_of_ne hNe)
        cases upload.close with
        | succeeds => exact hLoop
        | raises error leaves =>
            exact (put_of_ne hNe).trans hLoop
  rw [← hFilled]
  unfold storeUpload
  split
  · rename_i error left hWritten
    rw [hWritten]
    exact Function.update_of_ne hNe _ _
  · rename_i received left hWritten
    rw [hWritten]
    split
    · exact Function.update_of_ne hNe _ _
    · rfl

------------------------------------------------------------
-- The whole of an upload
------------------------------------------------------------

theorem unlink_destination
    (files : Files)
    (path : Path) :
    files.unlink path path = none :=
  Function.update_self _ _ _

/- An upload that is stored is in its file, all of it. -/
theorem storeUpload_ok
    {upload : Upload}
    {head : Bytes}
    {files files' : Files}
    (hOk :
      storeUpload destination capBytes upload files =
        (.ok head, files')) :
    files' destination = some upload.content ∧
      upload.content ≠ [] ∧
      (upload.content.length : ℤ) ≤ capBytes ∧
      head = upload.content.take sniffBytes := by
  unfold storeUpload at hOk
  split at hOk
  · cases hOk
  · rename_i received filled hWritten
    split at hOk
    · cases hOk
    · rename_i hSome
      cases hOk
      rcases receiving_of_writeFile hWritten with
        ⟨hReceiving, hWithin⟩
      have hNe : upload.content ≠ [] := by
        intro hEmpty
        rw [hReceiving.written, hEmpty] at hSome
        exact hSome rfl
      exact
        ⟨hReceiving.file, hNe, hWithin hNe, hReceiving.head⟩

/- An upload that raises leaves no file. -/
theorem storeUpload_error
    {upload : Upload}
    {error : Raised}
    {files files' : Files}
    (hError :
      storeUpload destination capBytes upload files =
        (.error error, files')) :
    files' destination = none := by
  unfold storeUpload at hError
  split at hError
  · cases hError
    exact unlink_destination _ destination
  · split at hError
    · cases hError
      exact unlink_destination _ destination
    · cases hError

/- The uploads of which no read and no write raises. -/
structure Upload.Faultless (upload : Upload) : Prop where
  creation : upload.creation = .succeeds
  transfers :
    ∀ transfer ∈ upload.transfers,
      ∃ bytes, transfer = (.chunk bytes, .succeeds)
  close : upload.close = .succeeds

/- The loop goes on to the end of the upload. -/
theorem receive_of_faultless
    {transfers : List (Read × Write)}
    (hTransfers :
      ∀ transfer ∈ transfers,
        ∃ bytes, transfer = (.chunk bytes, .succeeds))
    (received : Received)
    (files : Files)
    (hFits :
      ((received.written + (contentOf transfers).length : ℕ) :
        ℤ) ≤ capBytes) :
    ∃ result files',
      receive destination capBytes transfers received files =
        (.ok result, files') := by
  induction transfers generalizing received files with
  | nil => exact ⟨received, files, rfl⟩
  | cons transfer rest ih =>
      rcases hTransfers transfer List.mem_cons_self with
        ⟨bytes, rfl⟩
      cases bytes with
      | nil => exact ⟨received, files, rfl⟩
      | cons byte bytes =>
          rw [contentOf, List.length_append] at hFits
          have hWritten :
              (received.next (byte :: bytes)).written =
                received.written + (byte :: bytes).length :=
            rfl
          have hNext :
              ¬ capBytes <
                (received.next (byte :: bytes)).written := by
            rw [hWritten]
            omega
          rw [receive_chunk, if_neg hNext]
          apply ih
          · intro other hMem
            exact
              hTransfers other (List.mem_cons_of_mem _ hMem)
          · rw [hWritten]
            omega

/-
  Such an upload is stored if it is not empty and within the
  cap.
-/
theorem storeUpload_of_faultless
    {upload : Upload}
    (hFaultless : upload.Faultless)
    (hNe : upload.content ≠ [])
    (hFits : (upload.content.length : ℤ) ≤ capBytes)
    (files : Files) :
    ∃ files',
      storeUpload destination capBytes upload files =
        (.ok (upload.content.take sniffBytes), files') := by
  have hReceived :
      ∃ result files',
        receive destination capBytes upload.transfers
            { head := []
              written := 0 }
            (files.put destination []) =
          (.ok result, files') := by
    apply receive_of_faultless hFaultless.transfers
    rw [Nat.zero_add]
    exact hFits
  rcases hReceived with ⟨result, files', hReceive⟩
  have hWritten :
      writeFile destination capBytes upload files =
        (.ok result, files') := by
    unfold writeFile
    rw [hFaultless.creation]
    dsimp only
    rw [hReceive, hFaultless.close]
    rfl
  have hReceiving := (receiving_of_writeFile hWritten).1
  have hSome : result.written ≠ 0 := by
    rw [hReceiving.written]
    exact fun hZero => hNe (List.length_eq_zero_iff.mp hZero)
  refine ⟨files', ?_⟩
  unfold storeUpload
  rw [hWritten]
  dsimp only
  rw [if_neg hSome, hReceiving.head]

/- Neither does one whose content is of another kind. -/
theorem acceptUpload_error
    {ext : String}
    {upload : Upload}
    {error : Raised}
    {files files' : Files}
    (hError :
      acceptUpload destination capBytes ext upload files =
        (.error error, files')) :
    files' destination = none := by
  unfold acceptUpload at hError
  dsimp only at hError
  split at hError
  · cases hError
    exact if_pos rfl
  · rename_i name hOutcome
    cases hError
    cases hStored :
        storeUpload destination capBytes upload files with
    | mk result left =>
        rw [hStored] at hOutcome
        cases result with
        | error error => exact storeUpload_error hStored
        | ok head =>
            -- A mismatch is answered to the client.
            exfalso
            change jobKindFor head ext = _ at hOutcome
            unfold jobKindFor at hOutcome
            split at hOutcome
            · split at hOutcome <;> cases hOutcome
            · split at hOutcome <;> cases hOutcome
  · cases hError

/-
  However an upload is divided, and whatever read or write
  raises, all of it is stored or none of it.
-/
theorem upload_allOrNothing
    (destination : Path)
    (capBytes : ℤ)
    (upload : Upload)
    (files : Files) :
    AllOrNothing destination capBytes upload files :=
  { stored := fun _ _ hOk => storeUpload_ok hOk
    raised := fun _ _ hError => storeUpload_error hError
    mismatch := fun _ _ _ hError =>
      acceptUpload_error hError }

end Store

end Api

end Nidra
