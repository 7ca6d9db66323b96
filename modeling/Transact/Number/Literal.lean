import Transact.Number.Basic
import Transact.Text.Blank

/-! # Reading a number

The literals accepted where a number is typed: decimal digits with an optional sign, fraction and
exponent, and unsigned hexadecimal, octal and binary digits after `0x`, `0o` and `0b`. Blank
characters around the literal are ignored, and blank text alone stands for zero. -/

namespace Transact.Number

/-! ## Digits -/

/-- What a digit is worth, letters included. -/
def digitValue (c : Char) : Nat :=
  if c.isDigit then c.toNat - '0'.toNat else c.toLower.toNat - 'a'.toNat + 10

/-- Whether this is a digit in a base. -/
def isDigitIn (base : Nat) (c : Char) : Bool :=
  (c.isDigit || ('a' ≤ c.toLower && c.toLower ≤ 'f')) && digitValue c < base

/-- The number with these digits in a base. -/
def ofDigits (base : Nat) (digits : List Char) : Nat :=
  digits.foldl (fun n c => n * base + digitValue c) 0

/-- The value of a nonempty run of digits that takes up the whole text. -/
def digits? (base : Nat) (cs : List Char) : Option Nat :=
  if !cs.isEmpty && cs.all (isDigitIn base) then some (ofDigits base cs) else none

/-! ## Literals -/

/-- The number nearest to `q`, unless `q` is too large. -/
def ofRat? (q : Rat) : Option Number :=
  if q < overflow ∧ -q < overflow then some (ofRat q) else none

/-- The number nearest to `digits * 10 ^ exponent`. Sizes far outside the range of numbers are
told apart by the count of digits, so that no huge power is computed. -/
def ofScientific? (digits : Nat) (exponent : Int) : Option Number :=
  let size := digits.repr.length + exponent
  if digits = 0 ∨ size < -400 then some (ofNat 0)
  else if 400 < size then none
  else ofRat? (digits * (10 : Rat) ^ exponent)

/-- A whole number with an optional sign, as it stands after the exponent mark. -/
def signed? : List Char → Option Int
  | '+' :: cs => (digits? 10 cs).map (Int.ofNat ·)
  | '-' :: cs => (digits? 10 cs).map (-Int.ofNat ·)
  | cs => (digits? 10 cs).map (Int.ofNat ·)

/-- Digits with an optional fraction and exponent; at least one digit before the exponent. -/
def decimal? (cs : List Char) : Option Number :=
  let whole := cs.takeWhile Char.isDigit
  let (fraction, rest) := match cs.dropWhile Char.isDigit with
    | '.' :: r => (r.takeWhile Char.isDigit, r.dropWhile Char.isDigit)
    | r => ([], r)
  let exponent := match rest with
    | [] => some 0
    | c :: r => if c = 'e' ∨ c = 'E' then signed? r else none
  if whole.isEmpty && fraction.isEmpty then none
  else exponent.bind fun e => ofScientific? (ofDigits 10 (whole ++ fraction)) (e - fraction.length)

/-- Reads a literal; none if the text is no literal or its value is too large. -/
def read? (text : String) : Option Number :=
  match Text.trim text.toList with
  | [] => some (ofNat 0)
  | '+' :: cs => decimal? cs
  | '-' :: cs => (decimal? cs).map fun n => ⟨-n.value⟩
  | '0' :: mark :: cs =>
    if mark = 'x' ∨ mark = 'X' then (digits? 16 cs).bind (ofRat? ·)
    else if mark = 'o' ∨ mark = 'O' then (digits? 8 cs).bind (ofRat? ·)
    else if mark = 'b' ∨ mark = 'B' then (digits? 2 cs).bind (ofRat? ·)
    else decimal? ('0' :: mark :: cs)
  | cs => decimal? cs

end Transact.Number
