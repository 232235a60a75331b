/-
# `RigExec.Time` — frame times

A `UsdTimeCode` wraps a `double`.  The background scheduler, the warm index and
the frame cache only ever key by finite times, and all they ask of one is its
order and, for the neighbours of a playhead, the rounded sum `playhead ± n`.
So a finite time is an element of a linear order with that sum
(`FrameTime.offset`), and the other values a time code can take are named.
-/
import Mathlib.Order.Defs.LinearOrder
import Mathlib.Data.Int.Order.Basic

namespace RigExec

/-- A `UsdTimeCode`: the default time, a number that is not finite, or a finite number. -/
inductive TimeCode (Time : Type) where
  | default
  | nonFinite
  | numeric (value : Time)
deriving DecidableEq

/-- `time.IsNumeric() && std::isfinite(time.GetValue())`, with the value. -/
def TimeCode.usable {Time : Type} : TimeCode Time → Option Time
  | .numeric value => some value
  | _ => none

/-- Finite `double` frame times: their order, and `playhead + n` as the rounded sum gives it. -/
class FrameTime (Time : Type) extends LinearOrder Time where
  offset : Time → Int → TimeCode Time

/-- Integral frames, on which the rounded sum is exact. -/
instance : FrameTime Int where
  offset playhead n := .numeric (playhead + n)

end RigExec
