/-! # Numbers

A number is the exact value of a finite 64-bit binary floating-point word: an integer of at most
53 bits times a power of two not below `2 ^ -1074`. Every result is the nearest such value, a tie
going to the even neighbour.

* `ofNat_of_le`: counting is exact up to `countLimit`.
* `pred_ofNat`: so is counting down from there. -/

namespace Transact

/-- A finite number, given by its exact value; there is one zero. -/
structure Number where
  value : Rat
deriving DecidableEq, Inhabited

namespace Number

/-! ## Rounding -/

/-- The power `2 ^ k`, for an exponent of either sign. -/
def twoPow (k : Int) : Rat := (2 : Rat) ^ k

/-- The exponent of the largest power of two that is not above the positive `q`. -/
def binaryExponent (q : Rat) : Int :=
  let k : Int := (q.num.natAbs.log2 : Int) - (q.den.log2 : Int)
  if twoPow k ≤ q then k else k - 1

/-- The integer nearest to `q`; a half goes to the even neighbour. -/
def nearestInt (q : Rat) : Int :=
  let low := q.floor
  let rest := q - low
  if rest < 1 / 2 then low
  else if 1 / 2 < rest then low + 1
  else if low % 2 = 0 then low else low + 1

/-- The distance between neighbouring numbers around the positive `q`. -/
def spacing (q : Rat) : Rat := twoPow (max (binaryExponent q - 52) (-1074))

/-- The bound up to which every integer is a number: `2 ^ 53`. -/
def countLimit : Nat := 0x20000000000000

/-- The number nearest to `q`. **Integers within `countLimit`** are numbers themselves. -/
def ofRat (q : Rat) : Number :=
  if q.den = 1 ∧ q.num.natAbs ≤ countLimit then ⟨q⟩
  else
    let size := if q < 0 then -q else q
    let step := spacing size
    let nearest := nearestInt (size / step) * step
    ⟨if q < 0 then -nearest else nearest⟩

/-- The least value that is too large for a number: half a spacing beyond the largest one. -/
def overflow : Rat := twoPow 1024 - twoPow 970

/-! ## Integers -/

/-- A natural number, exact up to `countLimit`. -/
def ofNat (n : Nat) : Number := ofRat n

/-- The number of a thing that is counted in memory. There are never more than `countLimit`, and none is
rounded. -/
def ofIndex (n : Nat) : Number := ⟨n⟩

/-- Whether a number is whole. -/
def isInteger (n : Number) : Bool := n.value.den = 1

/-- The natural number with this value, if there is one. -/
def toNat? (n : Number) : Option Nat :=
  if n.isInteger ∧ 0 ≤ n.value then some n.value.num.toNat else none

/-- The number nearest to one less. -/
def pred (n : Number) : Number := ofRat (n.value - 1)

theorem toNat?_ofIndex (n : Nat) : (ofIndex n).toNat? = some n :=
  if_pos ⟨rfl, Rat.natCast_nonneg⟩

theorem ofNat_of_le {n : Nat} (h : n ≤ countLimit) : ofNat n = ⟨n⟩ :=
  if_pos ⟨rfl, h⟩

theorem pred_ofNat {n : Nat} (h : n + 1 ≤ countLimit) : pred (ofNat (n + 1)) = ofNat n := by
  have e : (((n + 1 : Nat) : Rat) - 1) = n := by
    rw [Rat.natCast_add]
    exact Rat.add_sub_cancel
  rw [ofNat_of_le h, pred, e, ofNat]

/-! ## Comparison -/

/-- Whether one number is below another. -/
def lt (a b : Number) : Bool := a.value < b.value

/-- Whether a number is below zero. -/
def isNegative (n : Number) : Bool := n.value < 0

end Number

end Transact
