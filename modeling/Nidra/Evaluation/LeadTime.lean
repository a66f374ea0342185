import Mathlib
import Nidra.Lib.Numerals

/-
  This file defines the lead time of an attack episode: how
  long before its onset the first sustained warning began.

  Key definitions include:
    * `leadTimeForEpisode`
-/

namespace Nidra

namespace Evaluation

variable {𝕜 : Type}
variable [LinearOrder 𝕜]

/-
  The scan from an index on, with the number of crossings
  right before it. It ends at the onset.
-/
def leadTimeFrom
    (riskCurve : List (ℤ × 𝕜))
    (onsetTs : ℤ)
    (threshold : 𝕜)
    (m : ℕ) :
    ℕ → ℕ → List (ℤ × 𝕜) → Option ℤ
  | _, _, [] => none
  | i, run, (ts, p) :: rest =>
      if onsetTs ≤ ts then none
      else
        let run := if threshold ≤ p then run + 1 else 0
        if m ≤ run then
          (riskCurve[i + 1 - m]?).map
            (fun crossing => onsetTs - crossing.1)
        else
          leadTimeFrom riskCurve onsetTs threshold m (i + 1)
            run rest

/- Seconds from the first sustained warning to the onset. -/
def leadTimeForEpisode
    (riskCurve : List (ℤ × 𝕜))
    (onsetTs : ℤ)
    (threshold : 𝕜)
    (m : ℕ) : Option ℤ :=
  leadTimeFrom riskCurve onsetTs threshold m 0 0 riskCurve

end Evaluation

end Nidra
