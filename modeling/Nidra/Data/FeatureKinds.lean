import Nidra.Lib.Numeric
import Nidra.Schema

/-
  This file defines the variance-stabilizing part of each
  feature's transform and its inverse.

  Key definitions include:
    * `Kind`, `featureTransforms`
    * `ElementaryFunctions`
    * `applyKind`, `invertKind`

  Main declarations:
    * `invertKind_applyKind`
-/

namespace Nidra

namespace Data

------------------------------------------------------------
-- Kinds
------------------------------------------------------------

inductive Kind where
  | log1p
  | asinh
  | zscore
  | unitRange
  | drop
deriving DecidableEq, Repr

/- The name of a kind in files and messages. -/
def Kind.label : Kind → String
  | .log1p => "log1p"
  | .asinh => "asinh"
  | .zscore => "zscore"
  | .unitRange => "unit"
  | .drop => "drop"

def validKinds : List Kind :=
  [.log1p, .asinh, .zscore, .unitRange, .drop]

def flowTransforms : FlowFeature → Kind
  | .synRatio => .unitRange
  | .ackRatio => .unitRange
  | .rstRatio => .unitRange
  | .finRatio => .unitRange
  | .pshRatio => .unitRange
  | .urgRatio => .unitRange
  | .bytesTotal => .log1p
  | .bytesUpDownRatio => .log1p
  | .pktsPerFlowMean => .log1p
  | .flowDurationMean => .log1p
  | .flowDurationVar => .log1p
  | .iatMean => .log1p
  | .iatVar => .log1p
  | .iatMax => .log1p
  | .activeFlowCount => .log1p

def packetTransforms : PacketFeature → Kind
  | .ttlMean => .zscore
  | .ttlVar => .log1p
  | .tcpWindowMean => .log1p
  | .tcpWindowEntropy => .zscore
  | .fragFlagRate => .unitRange
  | .payloadSizeMean => .log1p
  | .payloadSizeVar => .log1p
  | .payloadSizeP95 => .log1p
  | .payloadSizeEntropy => .zscore
  | .retransCount => .log1p
  | .retransRate => .unitRange

def graphTransforms : GraphFeature → Kind
  | .outDegree => .log1p
  | .inDegree => .log1p
  | .dstIpEntropy => .zscore
  | .dstPortEntropy => .zscore
  | .newPeerCount => .log1p
  | .neighbourRiskFraction => .unitRange
  | .localClusteringCoeff => .unitRange
  | .reciprocity => .unitRange

/- Signed deltas and slopes of counts are heavy-tailed. -/
def deltaTransforms : DynamicSource → Kind
  | .synRatio => .unitRange
  | .dstPortEntropy => .zscore
  | .outDegree => .asinh
  | .newPeerCount => .asinh
  | .iatVar => .asinh
  | .retransRate => .unitRange

def featureTransforms : Feature → Kind
  | .flow name => flowTransforms name
  | .packet name => packetTransforms name
  | .graph name => graphTransforms name
  | .delta of => deltaTransforms of
  | .slope3 of => deltaTransforms of.source
  | .isActive => .unitRange

------------------------------------------------------------
-- The Transforms
------------------------------------------------------------

/- The functions that the transforms are made of. -/
class ElementaryFunctions (𝕜 : Type) where
  log1p : 𝕜 → 𝕜
  expm1 : 𝕜 → 𝕜
  asinh : 𝕜 → 𝕜
  sinh : 𝕜 → 𝕜
  sqrt : 𝕜 → 𝕜

noncomputable instance : ElementaryFunctions ℝ where
  log1p := fun x => Real.log (1 + x)
  expm1 := fun x => Real.exp x - 1
  asinh := Real.arsinh
  sinh := Real.sinh
  sqrt := Real.sqrt

section Transforms

variable {𝕜 : Type}
variable [Field 𝕜] [LinearOrder 𝕜] [ElementaryFunctions 𝕜]

/- The ceiling on a value before it is exponentiated back. -/
def logInverseCeil : 𝕜 := 25

def applyKind
    (kind : Kind)
    (x : 𝕜) : 𝕜 :=
  match kind with
  | .log1p => ElementaryFunctions.log1p (max x 0)
  | .asinh => ElementaryFunctions.asinh x
  | .zscore => x
  | .unitRange => x
  | .drop => x

def invertKind
    (kind : Kind)
    (z : 𝕜) : 𝕜 :=
  match kind with
  | .log1p => ElementaryFunctions.expm1 (min z logInverseCeil)
  | .asinh =>
      ElementaryFunctions.sinh
        (min (max z (-logInverseCeil)) logInverseCeil)
  | .zscore => z
  | .unitRange => z
  | .drop => z

end Transforms

/- A raw value that the transform of its kind keeps apart. -/
def Invertible
    (kind : Kind)
    (x : ℝ) : Prop :=
  match kind with
  | .log1p =>
      0 ≤ x ∧ applyKind .log1p x ≤ (logInverseCeil : ℝ)
  | .asinh => |applyKind .asinh x| ≤ (logInverseCeil : ℝ)
  | .zscore => True
  | .unitRange => True
  | .drop => True

/- Below the ceiling the inverse undoes the transform. -/
theorem invertKind_applyKind
    {kind : Kind}
    {x : ℝ}
    (hInvertible : Invertible kind x) :
    invertKind kind (applyKind kind x) = x := by
  cases kind with
  | log1p =>
      rcases hInvertible with ⟨hNonneg, hCeil⟩
      have hPos : 0 < 1 + x := by linarith
      rw [invertKind, min_eq_left hCeil, applyKind,
        max_eq_left hNonneg]
      change Real.exp (Real.log (1 + x)) - 1 = x
      rw [Real.exp_log hPos]
      ring
  | asinh =>
      rcases abs_le.mp hInvertible with ⟨hLow, hHigh⟩
      rw [invertKind, max_eq_left hLow, min_eq_left hHigh]
      exact Real.sinh_arsinh x
  | zscore => rfl
  | unitRange => rfl
  | drop => rfl

end Data

end Nidra
