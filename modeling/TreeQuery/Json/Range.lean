/-! The range of numbers. A number is in range when its value, computed in 64-bit floating
point from its leading digits, is finite. The computation is exact integer arithmetic: round
the digits to 53 bits, round the power of ten to 53 bits, multiply and round again. -/
namespace TreeQuery.Json

def digitValue (c : Char) : Nat := c.toNat - 48

/-- Read on in decimal while the value stays below `bound`; the first digit that would reach it
and all digits after it are left over. -/
def absorb (bound : Nat) : Nat → List Char → Nat × List Char
  | value,[] => (value,[])
  | value,d :: digits =>
    let next := value * 10 + digitValue d
    if next < bound then absorb bound next digits else (value,d :: digits)

/-- Round to 53 significant bits, a tie to the even neighbour. -/
def round53 (n : Nat) : Nat :=
  if n < Nat.pow 2 53 then n
  else
    let unit := Nat.pow 2 (n.log2 - 52)
    let quotient := n / unit
    let remainder := n % unit
    if unit < 2 * remainder || (2 * remainder == unit && quotient % 2 == 1) then (quotient + 1) * unit
    else quotient * unit

/-- The digits of a number as a significand below `2 ^ 64` with a power of ten. Digits of the
whole part that do not fit raise the power; digits of the fraction that do not fit are
dropped. -/
def significand (whole fraction : List Char) : Nat × Int :=
  let (value,spilled) := absorb (Nat.pow 2 64) 0 whole
  let (value,dropped) := absorb (Nat.pow 2 64) value fraction
  (value,(spilled.length : Int) - ((fraction.length : Int) - dropped.length))

/-- The first number that is too great for 64-bit floating point. -/
def rangeLimit : Nat := Nat.pow 2 1024

/-- Whether `value * 10 ^ power` exceeds the range: the power exceeds 308, or the rounded
product reaches the limit. -/
def exceedsRange (value : Nat) (power : Int) : Bool :=
  value != 0 && (308 < power ||
    (0 ≤ power && rangeLimit ≤ round53 (round53 value * round53 (Nat.pow 10 power.toNat))))

end TreeQuery.Json
