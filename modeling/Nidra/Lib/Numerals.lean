import Mathlib

/-
  This file names the instances by which numerals and sorted
  sets of texts are read, so that a definition that uses them
  is one term, whichever module it stands in.
-/

------------------------------------------------------------
-- Numerals
------------------------------------------------------------

instance atLeastTwo_two : Nat.AtLeastTwo 2 := inferInstance

instance atLeastTwo_three : Nat.AtLeastTwo 3 := inferInstance

instance atLeastTwo_four : Nat.AtLeastTwo 4 := inferInstance

instance atLeastTwo_five : Nat.AtLeastTwo 5 := inferInstance

instance atLeastTwo_six : Nat.AtLeastTwo 6 := inferInstance

instance atLeastTwo_ten : Nat.AtLeastTwo 10 := inferInstance

instance atLeastTwo_ninetyFive : Nat.AtLeastTwo 95 :=
  inferInstance

instance atLeastTwo_hundred : Nat.AtLeastTwo 100 :=
  inferInstance

instance atLeastTwo_thousand : Nat.AtLeastTwo 1000 :=
  inferInstance

instance neZero_one : NeZero 1 := inferInstance

/- Numbers of 128 bits have a zero. -/
instance neZero_word : NeZero (2 ^ 128) := inferInstance

------------------------------------------------------------
-- Texts
------------------------------------------------------------

instance text_isTrans :
    IsTrans String (fun a b => a ≤ b) :=
  inferInstance

instance text_antisymm :
    Std.Antisymm (fun a b : String => a ≤ b) :=
  inferInstance
