import Transact.Number.Basic

/-! # The text of a number

A number is written with the fewest significant digits that read back as that number; of several
such texts with the one nearest to it, and of two equally near ones with the one whose last digit
is even. Values from `10 ^ -6` up to `10 ^ 21` are written positionally, all others with an
exponent that always carries its sign: `1e+21`, `1e-7`.

* `text_ofNat`: a count is written as its decimal digits. -/

namespace Transact.Number

/-! ## Shortest digits -/

/-- The power `10 ^ k`, for an exponent of either sign. -/
def tenPow (k : Int) : Rat := (10 : Rat) ^ k

/-- The number `k` with `10 ^ (k - 1) ≤ q < 10 ^ k`, for a positive `q`. The first guess, from the
binary exponent and `log 2 ≈ 0.30103`, is at most one off. -/
def decimalPoint (q : Rat) : Int :=
  let guess := binaryExponent q * 30103 / 100000 + 1
  if tenPow guess ≤ q then guess + 1
  else if q < tenPow (guess - 1) then guess - 1
  else guess

/-- **A decimal** `digits * 10 ^ exponent`. -/
structure Decimal where
  digits : Nat
  exponent : Int
deriving DecidableEq

/-- The number that a decimal stands for. -/
def Decimal.value (d : Decimal) : Rat := d.digits * tenPow d.exponent

/-- Whether the multiple below `q` is preferred to the one above: it is nearer, or **as near and
even**. -/
def prefersLow (q : Rat) (low high : Decimal) : Bool :=
  let below := q - low.value
  let above := high.value - q
  below < above || (below = above && low.digits % 2 = 0)

/-- Of the two multiples of `10 ^ exponent` around `q`, the preferred one that rounds to `q`. -/
def onGrid (q : Rat) (exponent : Int) : Option Decimal :=
  let low : Decimal := ⟨(q / tenPow exponent).floor.toNat, exponent⟩
  let high : Decimal := ⟨low.digits + 1, exponent⟩
  let back (d : Decimal) : Bool := (ofRat d.value).value = q
  if back low && (!back high || prefersLow q low high) then some low
  else if back high then some high
  else none

/-- The shortest decimal that rounds to the positive number `q`; 17 digits always suffice. -/
def shortest (q : Rat) : Decimal :=
  let point := decimalPoint q
  let grid (count : Nat) : Option Decimal := onGrid q (point - (count + 1 : Nat))
  ((List.range 17).findSome? grid).getD ⟨0, 0⟩

/-! ## Layout -/

/-- The digits without the zeros at their end. -/
def significant (digits : List Char) : List Char :=
  (digits.reverse.dropWhile (· = '0')).reverse

/-- Writes the digits of `0.digits * 10 ^ point`. -/
def layout (digits : List Char) (point : Int) : List Char :=
  let zeros (count : Int) : List Char := List.replicate count.toNat '0'
  let count : Int := digits.length
  if count ≤ point ∧ point ≤ 21 then digits ++ zeros (point - count)
  else if 0 < point ∧ point ≤ 21 then
    digits.take point.toNat ++ '.' :: digits.drop point.toNat
  else if -6 < point ∧ point ≤ 0 then '0' :: '.' :: zeros (-point) ++ digits
  else
    let power := point - 1
    let sign := if power < 0 then '-' else '+'
    let exponent := 'e' :: sign :: power.natAbs.repr.toList
    match digits with
    | [] => exponent
    | [d] => d :: exponent
    | d :: rest => d :: '.' :: rest ++ exponent

/-- The text of a positive number. -/
def positiveText (q : Rat) : String :=
  let d := shortest q
  let digits := d.digits.repr.toList
  .ofList (layout (significant digits) (digits.length + d.exponent))

/-- The text of a number. **Integers within `countLimit`** need all their digits. -/
def text (n : Number) : String :=
  if n.value.den = 1 ∧ n.value.num.natAbs ≤ countLimit then
    if n.value.num < 0 then s!"-{n.value.num.natAbs.repr}" else n.value.num.natAbs.repr
  else if n.value < 0 then s!"-{positiveText (-n.value)}"
  else positiveText n.value

instance : ToString Number := ⟨text⟩

theorem text_ofNat {n : Nat} (h : n ≤ countLimit) : (ofNat n).text = n.repr := by
  rw [ofNat_of_le h, text, if_pos ⟨rfl, h⟩]
  exact if_neg (Int.not_lt.2 (Int.natCast_nonneg n))

end Transact.Number
