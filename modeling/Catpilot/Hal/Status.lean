/-!
# Results of the peripheral drivers

`HAL_StatusTypeDef`, and the error numbers that the drivers of the peripherals return
themselves. A result is an `int`; here they are all non-negative.
-/

namespace Catpilot

/-- `HAL_StatusTypeDef`. -/
inductive HalStatus where
  | ok
  | error
  | busy
  | timeout
  deriving DecidableEq, Repr

/-- The status as an `int`. -/
def HalStatus.value : HalStatus → Nat
  | ok => 0
  | error => 1
  | busy => 2
  | timeout => 3

/-- The error numbers, as in the C library. -/
def rvEnxio : Nat := 6
def rvEbusy : Nat := 16
def rvEinval : Nat := 22
def rvEtimedout : Nat := 116

end Catpilot
