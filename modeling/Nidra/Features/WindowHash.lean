import Nidra.Features.Compute

/-
  This file states what is read back from the hash of a
  window. Its fields are running scalars and the buckets of
  five distributions, all in one space of texts in which a
  separator may also occur inside a bucket.

  Key definitions include:
    * `WindowAccumulator.lookup`
    * `distField`, `splitField`
    * `TextAccumulator`, `TextAccumulator.fromHash`
    * `WindowField.text`, `textHash`

  Main declarations:
    * `WindowAccumulator.lookup_fromHash`
    * `TextAccumulator.held_fromHash`
    * `TextAccumulator.held_textHash`
-/

namespace Nidra

namespace Features

variable {𝕜 : Type}

------------------------------------------------------------
-- The accumulator of a hash
------------------------------------------------------------

namespace WindowAccumulator

section Typed

variable [DecidableEq 𝕜]

/- What an accumulator holds for a field of a hash. -/
def lookup
    (acc : WindowAccumulator 𝕜) :
    WindowField 𝕜 → Option 𝕜
  | .scalar name => acc.scalars.lookup name
  | .dstIp ip => acc.dstIp.lookup ip
  | .dstPort port => acc.dstPort.lookup port
  | .tcpWindow size => acc.tcpWindow.lookup size
  | .payload size => acc.payload.lookup size
  | .flowIatMax value => acc.flowIatMax.lookup value

theorem lookup_setField
    (acc : WindowAccumulator 𝕜)
    (field field' : WindowField 𝕜)
    (value : 𝕜) :
    (acc.setField field value).lookup field' =
      if field' = field then some value
      else acc.lookup field' := by
  cases field <;> cases field' <;>
    simp [setField, lookup]

/- An accumulator holds what its hash has. -/
theorem lookup_fromHash
    (mapping : Tally (WindowField 𝕜) 𝕜)
    (field : WindowField 𝕜) :
    (fromHash mapping).lookup field = mapping.lookup field := by
  have hEmpty : (empty (𝕜 := 𝕜)).lookup field = none := by
    cases field <;> exact Tally.lookup_empty _
  have hAll :=
    Tally.read_foldl_toList setField lookup
      (fun acc field value field' =>
        lookup_setField acc field field' value)
      mapping empty field
  rw [hEmpty, Option.or_none] at hAll
  exact hAll

end Typed

end WindowAccumulator

------------------------------------------------------------
-- Fields as texts
------------------------------------------------------------

/- The names of the distributions. -/
def distPrefixes : List String :=
  ["di", "dp", "tw", "ps", "fx"]

/- The field of one bucket of a distribution. -/
def distField (dist bucket : String) : String :=
  dist ++ ":" ++ bucket

/- Split a field at its first separator. -/
def splitField (field : String) : Option (String × String) :=
  let chars := field.toList
  match chars.dropWhile (fun c => c ≠ ':') with
  | [] => none
  | _ :: bucket =>
      some
        (String.ofList (chars.takeWhile (fun c => c ≠ ':')),
          String.ofList bucket)

/- The distribution and the bucket that a field stands for. -/
def bucketOf (field : String) : Option (String × String) :=
  match splitField field with
  | none => none
  | some (dist, bucket) =>
      if dist ∈ distPrefixes then some (dist, bucket) else none

/- The name of a distribution has no separator in it. -/
theorem splitField_distField
    {dist : String}
    (hDist : ':' ∉ dist.toList)
    (bucket : String) :
    splitField (distField dist bucket) =
      some (dist, bucket) := by
  have hChars :
      (distField dist bucket).toList =
        dist.toList ++ ':' :: bucket.toList := by
    simp [distField]
  have hKeep :
      ∀ c ∈ dist.toList, decide (c ≠ ':') = true := by
    intro c hC
    rw [decide_eq_true_eq]
    rintro rfl
    exact hDist hC
  unfold splitField
  simp only
  rw [hChars, List.dropWhile_append_of_pos hKeep,
    List.takeWhile_append_of_pos hKeep]
  simp

theorem bucketOf_distField
    {dist : String}
    (hDist : dist ∈ distPrefixes)
    (bucket : String) :
    bucketOf (distField dist bucket) = some (dist, bucket) := by
  have hSeparator :
      ∀ name ∈ distPrefixes, ':' ∉ name.toList := by
    decide
  unfold bucketOf
  rw [splitField_distField (hSeparator dist hDist)]
  exact if_pos hDist

/- A field that is split is put together again. -/
theorem distField_of_bucketOf
    {field dist bucket : String}
    (hBucket : bucketOf field = some (dist, bucket)) :
    dist ∈ distPrefixes ∧ field = distField dist bucket := by
  unfold bucketOf at hBucket
  split at hBucket
  · cases hBucket
  · next _ dist' bucket' hSplit =>
      split at hBucket
      · next hDist =>
          cases hBucket
          refine ⟨hDist, ?_⟩
          unfold splitField at hSplit
          simp only at hSplit
          split at hSplit
          · cases hSplit
          · next _ c rest hDrop =>
              cases hSplit
              have hFirst :
                  c = ':' := by
                have hHead :=
                  List.head?_dropWhile_not
                    (fun c => decide (c ≠ ':')) field.toList
                rw [hDrop] at hHead
                simpa using hHead
              subst hFirst
              have hJoin :=
                List.takeWhile_append_dropWhile
                  (p := fun c => decide (c ≠ ':'))
                  (l := field.toList)
              rw [hDrop] at hJoin
              apply String.toList_injective
              simp only [distField, String.toList_append,
                String.toList_ofList]
              rw [List.append_assoc]
              exact hJoin.symm
      · cases hBucket

------------------------------------------------------------
-- The accumulator of a hash of texts
------------------------------------------------------------

/- The scalars and the distributions of a hash of texts. -/
structure TextAccumulator (𝕜 : Type) where
  scalars : Tally String 𝕜
  dists : String → Tally String 𝕜

namespace TextAccumulator

def empty : TextAccumulator 𝕜 :=
  { scalars := .empty
    dists := fun _ => .empty }

/- Sort one field of a hash under its distribution. -/
def setField
    (acc : TextAccumulator 𝕜)
    (field : String)
    (value : 𝕜) : TextAccumulator 𝕜 :=
  match bucketOf field with
  | some (dist, bucket) =>
      { acc with
        dists :=
          Function.update acc.dists dist
            ((acc.dists dist).set bucket value) }
  | none =>
      { acc with scalars := acc.scalars.set field value }

/- Rebuild the accumulator from the window's hash. -/
def fromHash
    (mapping : Tally String 𝕜) : TextAccumulator 𝕜 :=
  mapping.toList.foldl
    (fun acc e => acc.setField e.1 e.2) empty

/- What an accumulator holds for a field of a hash. -/
def held
    (acc : TextAccumulator 𝕜)
    (field : String) : Option 𝕜 :=
  match bucketOf field with
  | some (dist, bucket) => (acc.dists dist).lookup bucket
  | none => acc.scalars.lookup field

theorem held_setField
    (acc : TextAccumulator 𝕜)
    (field field' : String)
    (value : 𝕜) :
    (acc.setField field value).held field' =
      if field' = field then some value
      else acc.held field' := by
  unfold setField held
  cases hField : bucketOf field with
  | none =>
      cases hField' : bucketOf field' with
      | none => exact Tally.lookup_set _ _ _ _
      | some at' =>
          have hNe : field' ≠ field := by
            rintro rfl
            rw [hField] at hField'
            cases hField'
          simp only [if_neg hNe]
  | some pair =>
      rcases pair with ⟨dist, bucket⟩
      cases hField' : bucketOf field' with
      | none =>
          have hNe : field' ≠ field := by
            rintro rfl
            rw [hField] at hField'
            cases hField'
          simp only [if_neg hNe]
      | some pair' =>
          rcases pair' with ⟨dist', bucket'⟩
          have hText := (distField_of_bucketOf hField).2
          have hText' := (distField_of_bucketOf hField').2
          have hSame :
              field' = field ↔
                dist' = dist ∧ bucket' = bucket := by
            constructor
            · rintro rfl
              rw [hField] at hField'
              cases hField'
              exact ⟨rfl, rfl⟩
            · rintro ⟨rfl, rfl⟩
              rw [hText, hText']
          simp only [hSame]
          by_cases hDist : dist' = dist
          · subst hDist
            simp
          · simp [hDist]

/- An accumulator holds what its hash has. -/
theorem held_fromHash
    (mapping : Tally String 𝕜)
    (field : String) :
    (fromHash mapping).held field = mapping.lookup field := by
  have hEmpty : (empty (𝕜 := 𝕜)).held field = none := by
    unfold held
    split
    · exact Tally.lookup_empty _
    · exact Tally.lookup_empty _
  have hAll :=
    Tally.read_foldl_toList setField held
      (fun acc field value field' =>
        held_setField acc field field' value)
      mapping empty field
  rw [hEmpty, Option.or_none] at hAll
  exact hAll

/- A distribution has what its fields have. -/
theorem lookup_dists_fromHash
    (mapping : Tally String 𝕜)
    {dist : String}
    (hDist : dist ∈ distPrefixes)
    (bucket : String) :
    ((fromHash mapping).dists dist).lookup bucket =
      mapping.lookup (distField dist bucket) := by
  have hHeld := held_fromHash mapping (distField dist bucket)
  unfold held at hHeld
  rw [bucketOf_distField hDist] at hHeld
  exact hHeld

/- The scalars have the fields of no distribution. -/
theorem lookup_scalars_fromHash
    (mapping : Tally String 𝕜)
    {name : String}
    (hName : bucketOf name = none) :
    (fromHash mapping).scalars.lookup name =
      mapping.lookup name := by
  have hHeld := held_fromHash mapping name
  unfold held at hHeld
  rw [hName] at hHeld
  exact hHeld

end TextAccumulator

------------------------------------------------------------
-- Typed fields as texts
------------------------------------------------------------

/- The name of a running scalar. -/
def Counter.text : Counter → String
  | .nFlows => "n_flows"
  | .pktCount => "pkt_count"
  | .flowPkts => "flow_pkts"
  | .flag .syn => "syn"
  | .flag .ack => "ack"
  | .flag .rst => "rst"
  | .flag .fin => "fin"
  | .flag .psh => "psh"
  | .flag .urg => "urg"
  | .bytesUp => "bytes_up"
  | .bytesDown => "bytes_down"
  | .durSum => "dur_sum"
  | .durSq => "dur_sq"
  | .iatSum => "iat_sum"
  | .iatSq => "iat_sq"
  | .nPackets => "n_packets"
  | .nTtl => "n_ttl"
  | .ttlSum => "ttl_sum"
  | .ttlSq => "ttl_sq"
  | .nTcpWindow => "n_tcp_window"
  | .tcpWindowSum => "tcp_window_sum"
  | .fragCount => "frag_count"
  | .nPayload => "n_payload"
  | .payloadSum => "payload_sum"
  | .payloadSq => "payload_sq"
  | .retransCount => "retrans_count"

/- Every running scalar, in the order above. -/
def Counter.all : List Counter :=
  [.nFlows, .pktCount, .flowPkts, .flag .syn, .flag .ack,
    .flag .rst, .flag .fin, .flag .psh, .flag .urg, .bytesUp,
    .bytesDown, .durSum, .durSq, .iatSum, .iatSq, .nPackets,
    .nTtl, .ttlSum, .ttlSq, .nTcpWindow, .tcpWindowSum,
    .fragCount, .nPayload, .payloadSum, .payloadSq,
    .retransCount]

theorem Counter.mem_all
    (name : Counter) :
    name ∈ Counter.all := by
  cases name with
  | flag flag => cases flag <;> decide
  | _ => decide

/- Scalars have names of their own, and no separator. -/
theorem Counter.text_injective :
    Function.Injective Counter.text := by
  have hAll :
      ∀ a ∈ Counter.all, ∀ b ∈ Counter.all,
        a.text = b.text → a = b := by
    decide +kernel
  exact fun a b hEq => hAll a a.mem_all b b.mem_all hEq

theorem Counter.bucketOf_text
    (name : Counter) :
    bucketOf name.text = none := by
  have hAll :
      ∀ a ∈ Counter.all, bucketOf a.text = none := by
    decide +kernel
  exact hAll name name.mem_all

/- The text of a field; `str` writes a number. -/
def WindowField.text
    (str : 𝕜 → String) : WindowField 𝕜 → String
  | .scalar name => name.text
  | .dstIp ip => distField "di" ip
  | .dstPort port => distField "dp" port.repr
  | .tcpWindow size => distField "tw" size.repr
  | .payload size => distField "ps" size.repr
  | .flowIatMax value => distField "fx" (str value)

/- The distribution and the bucket of a field. -/
def WindowField.bucket
    (str : 𝕜 → String) :
    WindowField 𝕜 → Option (String × String)
  | .scalar _ => none
  | .dstIp ip => some ("di", ip)
  | .dstPort port => some ("dp", port.repr)
  | .tcpWindow size => some ("tw", size.repr)
  | .payload size => some ("ps", size.repr)
  | .flowIatMax value => some ("fx", str value)

theorem WindowField.bucketOf_text
    (str : 𝕜 → String)
    (field : WindowField 𝕜) :
    bucketOf (field.text str) = field.bucket str := by
  cases field with
  | scalar name => exact name.bucketOf_text
  | dstIp _ => exact bucketOf_distField (by decide) _
  | dstPort _ => exact bucketOf_distField (by decide) _
  | tcpWindow _ => exact bucketOf_distField (by decide) _
  | payload _ => exact bucketOf_distField (by decide) _
  | flowIatMax _ => exact bucketOf_distField (by decide) _

/- Different fields have different texts. -/
theorem WindowField.text_injective
    {str : 𝕜 → String}
    (hStr : Function.Injective str) :
    Function.Injective (WindowField.text str) := by
  intro field field' hText
  have hBucket := congrArg bucketOf hText
  rw [bucketOf_text, bucketOf_text] at hBucket
  cases field <;> cases field' <;>
    simp_all [bucket, Int.repr_inj, hStr.eq_iff]
  exact Counter.text_injective hText

section TextHash

variable [DecidableEq 𝕜]

/- The hash of texts that a typed hash stands for. -/
def textHash
    (str : 𝕜 → String)
    (hash : Tally (WindowField 𝕜) 𝕜) : Tally String 𝕜 :=
  hash.toList.foldl
    (fun acc e => acc.set (e.1.text str) e.2) .empty

theorem lookup_textHash
    {str : 𝕜 → String}
    (hStr : Function.Injective str)
    (hash : Tally (WindowField 𝕜) 𝕜)
    (field : WindowField 𝕜) :
    (textHash str hash).lookup (field.text str) =
      hash.lookup field := by
  have hAll :=
    Tally.read_foldl_toList
      (fun (acc : Tally String 𝕜) field value =>
        acc.set (WindowField.text str field) value)
      (fun acc field =>
        acc.lookup (WindowField.text str field))
      (fun acc field value field' => by
        simp only [Tally.lookup_set,
          (WindowField.text_injective hStr).eq_iff])
      hash .empty field
  simpa [textHash] using hAll

/-
  The accumulator of the texts holds for each field what the
  typed accumulator holds.
-/
theorem TextAccumulator.held_textHash
    {str : 𝕜 → String}
    (hStr : Function.Injective str)
    (hash : Tally (WindowField 𝕜) 𝕜)
    (field : WindowField 𝕜) :
    (fromHash (textHash str hash)).held (field.text str) =
      (WindowAccumulator.fromHash hash).lookup field := by
  rw [held_fromHash, lookup_textHash hStr,
    WindowAccumulator.lookup_fromHash]

end TextHash

end Features

end Nidra
