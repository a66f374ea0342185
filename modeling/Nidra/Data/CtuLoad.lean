import Nidra.Lib.NumericColumn
import Nidra.Lib.PyText
import Nidra.Lib.RowWise

/-
  This file defines how the loader of a botnet capture keeps
  the flows of the monitored network: the source addresses of
  a chunk are split into their parts and compared with some
  networks, all at once.

  Key definitions include:
    * `Network`
    * `inAnyCidr`, `hostFilter`
    * `insideAlone`, `PlainParts`, `AddressesAlike`

  Main declarations:
    * `rowWise_inAnyCidr_iff`
    * `hostFilter_eq_filter`
-/

namespace Nidra

namespace Data

------------------------------------------------------------
-- Networks
------------------------------------------------------------

/-
  An IPv4 network: its first address as a number, and the
  bits of an address that are left to its hosts.
-/
structure Network where
  networkAddress : ℕ
  hostBits : ℕ
  bits_le : hostBits ≤ 32

def Network.broadcastAddress (net : Network) : ℕ :=
  net.networkAddress + 2 ^ net.hostBits - 1

------------------------------------------------------------
-- A column of addresses
------------------------------------------------------------

section Membership

-- How the texts of the parts are read as numbers is given.
variable (reader : NumericReader)

/- The dot-separated parts of an address; none if missing. -/
def octets (ip : Option String) : List String :=
  match ip with
  | none => []
  | some text => PyText.splitOn '.' text

/-
  The columns that the addresses are split into. An address
  with fewer parts is missing the others.
-/
def width (ips : List (Option String)) : ℕ :=
  (ips.map (fun ip => (octets ip).length)).foldr max 0

def partCell
    (ip : Option String)
    (i : ℕ) : Reading :=
  reader.cell (octets ip)[i]?

/- The type of the numbers of a column of parts. -/
def partKind
    (ips : List (Option String))
    (i : ℕ) : NumberKind :=
  kindOf (ips.map (fun ip => partCell reader ip i))

variable (kinds : ℕ → NumberKind)

def part
    (ip : Option String)
    (i : ℕ) : Option Number :=
  (partCell reader ip i).number (kinds i)

/-
  The number of an address, if all of its parts are one, in
  columns of some types.
-/
def packed (ip : Option String) : Option Number := do
  let a ← part reader kinds ip 0
  let b ← part reader kinds ip 1
  let c ← part reader kinds ip 2
  let d ← part reader kinds ip 3
  return (((a.scale 24).add (b.scale 16)).add
    (c.scale 8)).add d

/- Whether an address has a number in one of the networks. -/
def insideAny
    (networks : List Network)
    (ip : Option String) : Bool :=
  (packed reader kinds ip).any (fun address =>
    networks.any (fun net =>
      address.between net.networkAddress
        net.broadcastAddress))

/-
  Whether the addresses of a column are in one of the
  networks. A column that does not split into four has none
  that is.
-/
def inAnyCidr
    (networks : List Network)
    (ips : List (Option String)) : List Bool :=
  if width ips = 4 then
    ips.map (insideAny reader (partKind reader ips) networks)
  else ips.map (fun _ => false)

/-
  The rows of a chunk whose source is in the networks, and
  how many are not. No networks are no filter.
-/
def hostFilter
    {ρ : Type}
    (networks : Option (List Network))
    (srcAddr : ρ → String)
    (chunk : List ρ) : List ρ × ℕ :=
  match networks with
  | none => (chunk, 0)
  | some [] => (chunk, 0)
  | some networks =>
      let internal :=
        inAnyCidr reader networks
          (chunk.map (fun row => some (srcAddr row)))
      (((chunk.zip internal).filter Prod.snd).map Prod.fst,
        internal.countP (fun inside => !inside))

------------------------------------------------------------
-- One address
------------------------------------------------------------

variable {reader} {kinds}

/- An address with fewer parts than four is in no network. -/
theorem packed_eq_none
    {ip : Option String}
    (hShort : (octets ip).length < 4) :
    packed reader kinds ip = none := by
  have hLast : part reader kinds ip 3 = none := by
    unfold part partCell
    rw [List.getElem?_eq_none (by omega)]
    rfl
  unfold packed
  rw [hLast]
  cases part reader kinds ip 0 <;>
    cases part reader kinds ip 1 <;>
      cases part reader kinds ip 2 <;> rfl

theorem insideAny_eq_false
    {networks : List Network}
    {ip : Option String}
    (hShort : (octets ip).length < 4) :
    insideAny reader kinds networks ip = false := by
  unfold insideAny
  rw [packed_eq_none hShort]
  rfl

variable (reader)

/- An address by itself: it has to have four parts. -/
def insideAlone
    (networks : List Network)
    (ip : Option String) : Bool :=
  decide ((octets ip).length = 4) &&
    insideAny reader (partKind reader [ip]) networks ip

theorem alone_inAnyCidr
    (networks : List Network)
    (ip : Option String) :
    alone
        (fun ips => some (inAnyCidr reader networks ips))
        ip =
      some (insideAlone reader networks ip) := by
  have hWidth : width [ip] = (octets ip).length := by
    simp [width]
  unfold alone inAnyCidr insideAlone
  dsimp only
  rw [hWidth]
  by_cases hFour : (octets ip).length = 4
  · simp [hFour]
  · simp [hFour]

theorem mapM_alone_inAnyCidr
    (networks : List Network)
    (ips : List (Option String)) :
    ips.mapM
        (alone
          (fun ips =>
            some (inAnyCidr reader networks ips))) =
      some (ips.map (insideAlone reader networks)) := by
  have hSame :=
    mapM_congr_of_mem
      (fun ip (_ : ip ∈ ips) =>
        alone_inAnyCidr reader networks ip)
  rw [hSame]
  exact List.mapM_pure

------------------------------------------------------------
-- An address of short integers
------------------------------------------------------------

/-
  An address whose parts are integers of at most 28 bits. The
  types of its columns do not matter for its number.
-/
def PlainParts (ip : Option String) : Prop :=
  ∀ i < 4, (partCell reader ip i).IsShort 28

variable {reader}

/- A part that is a short integer, in any column. -/
theorem PlainParts.part_eq
    {ip : Option String}
    (hPlain : PlainParts reader ip)
    {i : ℕ}
    (hI : i < 4) :
    ∃ value : ℤ, |value| < 2 ^ 28 ∧
      ∀ ips, ip ∈ ips →
        ∃ number,
          part reader (partKind reader ips) ip i =
              some number ∧
            number.IsInt value := by
  have hShort := hPlain i hI
  cases hCell : partCell reader ip i with
  | missing forcesFloat =>
      rw [hCell] at hShort
      exact hShort.elim
  | int value asFloat =>
      rw [hCell] at hShort
      refine ⟨value, hShort.1, ?_⟩
      intro ips hMem
      unfold part
      rw [hCell]
      have hColumn :
          Reading.int value asFloat ∈
            ips.map (fun ip => partCell reader ip i) := by
        rw [← hCell]
        exact List.mem_map_of_mem hMem
      exact
        Reading.isInt_number hColumn (by decide) hShort
  | float value =>
      rw [hCell] at hShort
      exact hShort.elim

theorem PlainParts.packed_eq
    {ip : Option String}
    (hPlain : PlainParts reader ip) :
    ∃ value : ℤ, ∀ ips, ip ∈ ips →
      ∃ number,
        packed reader (partKind reader ips) ip =
            some number ∧
          number.IsInt value := by
  rcases hPlain.part_eq (by decide : 0 < 4) with
    ⟨a, hAbsA, hPartA⟩
  rcases hPlain.part_eq (by decide : 1 < 4) with
    ⟨b, hAbsB, hPartB⟩
  rcases hPlain.part_eq (by decide : 2 < 4) with
    ⟨c, hAbsC, hPartC⟩
  rcases hPlain.part_eq (by decide : 3 < 4) with
    ⟨d, hAbsD, hPartD⟩
  rw [abs_lt] at hAbsA hAbsB hAbsC hAbsD
  refine
    ⟨a * 2 ^ 24 + b * 2 ^ 16 + c * 2 ^ 8 + d, ?_⟩
  intro ips hMem
  rcases hPartA ips hMem with ⟨x, hX, hIntX⟩
  rcases hPartB ips hMem with ⟨y, hY, hIntY⟩
  rcases hPartC ips hMem with ⟨z, hZ, hIntZ⟩
  rcases hPartD ips hMem with ⟨w, hW, hIntW⟩
  refine
    ⟨(((x.scale 24).add (y.scale 16)).add
      (z.scale 8)).add w, ?_, ?_⟩
  · unfold packed
    rw [hX, hY, hZ, hW]
    rfl
  · have hIntA : (x.scale 24).IsInt (a * 2 ^ 24) :=
      hIntX.scale (by decide) (by rw [abs_lt]; omega)
    have hIntB : (y.scale 16).IsInt (b * 2 ^ 16) :=
      hIntY.scale (by decide) (by rw [abs_lt]; omega)
    have hIntC : (z.scale 8).IsInt (c * 2 ^ 8) :=
      hIntZ.scale (by decide) (by rw [abs_lt]; omega)
    have hIntAB :=
      hIntA.add hIntB (by rw [abs_lt]; omega)
        (by rw [abs_lt]; omega) (by rw [abs_lt]; omega)
    have hIntABC :=
      hIntAB.add hIntC (by rw [abs_lt]; omega)
        (by rw [abs_lt]; omega) (by rw [abs_lt]; omega)
    exact
      hIntABC.add hIntW (by rw [abs_lt]; omega)
        (by rw [abs_lt]; omega) (by rw [abs_lt]; omega)

/- Such an address is inside in every column, or in none. -/
theorem PlainParts.insideAny_eq
    {ip : Option String}
    (hPlain : PlainParts reader ip)
    (networks : List Network)
    {ips : List (Option String)}
    (hMem : ip ∈ ips) :
    insideAny reader (partKind reader ips) networks ip =
      insideAny reader (partKind reader [ip]) networks ip := by
  rcases hPlain.packed_eq with ⟨value, hPacked⟩
  rcases hPacked ips hMem with ⟨x, hX, hIntX⟩
  rcases hPacked [ip] (List.mem_singleton.mpr rfl) with
    ⟨y, hY, hIntY⟩
  unfold insideAny
  rw [hX, hY, Option.any_some, Option.any_some]
  congr 1
  funext net
  rw [hIntX.between, hIntY.between]

variable (reader)

------------------------------------------------------------
-- Any column
------------------------------------------------------------

theorem length_octets_le_width
    {ips : List (Option String)}
    {ip : Option String}
    (hMem : ip ∈ ips) :
    (octets ip).length ≤ width ips := by
  unfold width
  induction ips with
  | nil => cases hMem
  | cons first ips ih =>
      rw [List.map_cons, List.foldr_cons]
      rcases List.mem_cons.mp hMem with rfl | hRest
      · exact le_max_left _ _
      · exact (ih hRest).trans (le_max_right _ _)

/- Some address has as many parts as there are columns. -/
theorem exists_length_octets_eq
    {ips : List (Option String)}
    (hWide : 0 < width ips) :
    ∃ ip ∈ ips, (octets ip).length = width ips := by
  unfold width at hWide ⊢
  induction ips with
  | nil => cases hWide
  | cons first ips ih =>
      rw [List.map_cons, List.foldr_cons] at hWide ⊢
      rcases le_total
          ((ips.map (fun ip => (octets ip).length)).foldr
            max 0)
          (octets first).length with hLe | hLe
      · rw [max_eq_left hLe]
        exact ⟨first, List.mem_cons_self, rfl⟩
      · rw [max_eq_right hLe] at hWide ⊢
        rcases ih hWide with ⟨ip, hMem, hLength⟩
        exact ⟨ip, List.mem_cons_of_mem _ hMem, hLength⟩

/-
  Either no address has more than four parts, and the types
  of the columns do not take one of other parts than short
  integers into a network or out of it; or some address does,
  and none of four parts is in a network.
-/
def AddressesAlike
    (networks : List Network)
    (ips : List (Option String)) : Prop :=
  ((∀ ip ∈ ips, (octets ip).length ≤ 4) ∧
      ∀ ip ∈ ips,
        (octets ip).length = 4 → ¬ PlainParts reader ip →
          insideAny reader (partKind reader ips) networks ip =
            insideAny reader (partKind reader [ip]) networks
              ip) ∨
    ((∃ ip ∈ ips, 4 < (octets ip).length) ∧
      ∀ ip ∈ ips,
        (octets ip).length = 4 →
          insideAny reader (partKind reader [ip]) networks
            ip = false)

/- When addresses are compared as if each were alone. -/
theorem rowWise_inAnyCidr_iff
    (networks : List Network)
    (ips : List (Option String)) :
    RowWise
        (fun ips => some (inAnyCidr reader networks ips))
        ips ↔
      AddressesAlike reader networks ips := by
  unfold RowWise
  rw [mapM_alone_inAnyCidr, Option.some_inj]
  unfold inAnyCidr insideAlone AddressesAlike
  by_cases hLe : ∀ ip ∈ ips, (octets ip).length ≤ 4
  · have hNotMore :
        ¬ ∃ ip ∈ ips, 4 < (octets ip).length := by
      push Not
      exact hLe
    rw [and_iff_right hLe, or_iff_left (fun h => hNotMore h.1)]
    by_cases hWidth : width ips = 4
    · rw [if_pos hWidth, List.map_inj_left]
      constructor
      · intro hRows ip hMem hFour _
        simpa [hFour] using hRows ip hMem
      · intro hTypes ip hMem
        by_cases hFour : (octets ip).length = 4
        · rw [decide_eq_true hFour, Bool.true_and]
          by_cases hPlain : PlainParts reader ip
          · exact hPlain.insideAny_eq networks hMem
          · exact hTypes ip hMem hFour hPlain
        · have hShort : (octets ip).length < 4 :=
            lt_of_le_of_ne (hLe ip hMem) hFour
          rw [insideAny_eq_false hShort,
            insideAny_eq_false hShort, Bool.and_false]
    · -- No address has four parts.
      have hNone : ∀ ip ∈ ips, (octets ip).length ≠ 4 := by
        intro ip hMem hFour
        have hMore := length_octets_le_width hMem
        have hWide : 0 < width ips := by omega
        rcases exists_length_octets_eq hWide with
          ⟨wide, hWideMem, hLength⟩
        have hBound := hLe wide hWideMem
        omega
      rw [if_neg hWidth, List.map_inj_left]
      constructor
      · intro _ ip hMem hFour
        exact absurd hFour (hNone ip hMem)
      · intro _ ip hMem
        simp [hNone ip hMem]
  · have hMore : ∃ ip ∈ ips, 4 < (octets ip).length := by
      push Not at hLe
      exact hLe
    have hWidth : width ips ≠ 4 := by
      rcases hMore with ⟨ip, hMem, hLength⟩
      have hBound := length_octets_le_width hMem
      omega
    rw [and_iff_right hMore, or_iff_right (fun h => hLe h.1),
      if_neg hWidth, List.map_inj_left]
    constructor
    · intro hNone ip hMem hFour
      simpa [hFour] using hNone ip hMem
    · intro hNone ip hMem
      by_cases hFour : (octets ip).length = 4
      · simp [hNone ip hMem hFour]
      · simp [hFour]

/- Keeping the rows at which a column of booleans is true. -/
theorem map_fst_filter_zip_map
    {ρ : Type}
    (p : ρ → Bool)
    (rows : List ρ) :
    ((rows.zip (rows.map p)).filter Prod.snd).map Prod.fst =
      rows.filter p := by
  induction rows with
  | nil => rfl
  | cons row rows ih =>
      rw [List.map_cons, List.zip_cons_cons]
      cases hKept : p row with
      | false => simpa [hKept] using ih
      | true => simpa [hKept] using ih

/-
  On such a chunk the loader keeps a flow for its own source
  address, and counts the others.
-/
theorem hostFilter_eq_filter
    {ρ : Type}
    (networks : List Network)
    (srcAddr : ρ → String)
    (chunk : List ρ)
    (hSome : networks ≠ [])
    (hAlike :
      AddressesAlike reader networks
        (chunk.map (fun row => some (srcAddr row)))) :
    let inside := fun row =>
      insideAlone reader networks (some (srcAddr row))
    hostFilter reader (some networks) srcAddr chunk =
      (chunk.filter inside,
        chunk.countP (fun row => !inside row)) := by
  intro inside
  have hRows :=
    (rowWise_inAnyCidr_iff reader networks _).mpr hAlike
  unfold RowWise at hRows
  rw [mapM_alone_inAnyCidr, Option.some_inj, List.map_map]
    at hRows
  cases networks with
  | nil => exact absurd rfl hSome
  | cons net networks =>
      unfold hostFilter
      dsimp only
      rw [hRows]
      refine Prod.ext ?_ ?_
      · exact map_fst_filter_zip_map inside chunk
      · rw [List.countP_map]
        rfl

end Membership

end Data

end Nidra
