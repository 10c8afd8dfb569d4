/-
  Values of numeric literals. An integer must fit in 64 bits with a sign; a double is the binary64
  number nearest to the decimal that is written, and of two equally near ones the even one.
-/

namespace DartAnalysis

namespace Literal

/-- The value of a digit in any base up to 16. -/
def digit? (c : Char) : Option Nat :=
  if c.isDigit then some (c.toNat - '0'.toNat)
  else if 'a' ≤ c && c ≤ 'f' then some (c.toNat - 'a'.toNat + 10)
  else if 'A' ≤ c && c ≤ 'F' then some (c.toNat - 'A'.toNat + 10)
  else none

/-- The number that digits write in a base; nothing if there is no digit or one that the base does
    not have. -/
def natural? (base : Nat) (ds : List Char) : Option Nat :=
  if ds = [] then none
  else ds.foldlM (fun n c => (digit? c).bind fun d =>
    if d < base then some (n * base + d) else none) 0

/-- The largest integer that a literal can denote. -/
def maxInteger : Nat := 0x7fffffffffffffff

/-- The value of an integer literal, decimal or hexadecimal, if it fits. -/
def integer? (lexeme : String) : Option Nat :=
  let value? := match lexeme.toList with
    | '0' :: 'x' :: ds | '0' :: 'X' :: ds => natural? 16 ds
    | ds => natural? 10 ds
  value?.filter (· ≤ maxInteger)

/-! ## Doubles -/

/-- Division with the quotient rounded to the nearest number, a half to the even one. -/
def roundDiv (num den : Nat) : Nat :=
  let q := num / den
  let r := num % den
  if 2 * r < den then q
  else if den < 2 * r then q + 1
  else if q % 2 = 0 then q else q + 1

/-- The bits of positive infinity. -/
def infinityBits : Nat := 0x7ff0000000000000

/-- The bits of the value that is not a number. -/
def notANumberBits : Nat := 0x7ff8000000000000

/-- The greatest power of two that does not exceed a positive quotient, as its exponent. -/
def log2Quotient (num den : Nat) : Int :=
  let guess : Int := (num.log2 : Int) - den.log2
  let fits : Bool :=
    if 0 ≤ guess then decide (den <<< guess.toNat ≤ num)
    else decide (den ≤ num <<< (-guess).toNat)
  if fits then guess else guess - 1

/-- The binary64 number nearest to a quotient, as its bits. The significand has 53 bits, fewer only
    where the exponent can go no lower. -/
def quotientBits (num den : Nat) : Nat :=
  if num = 0 then 0
  else
    let exponent := max (log2Quotient num den - 52) (-1074)
    let significand :=
      if 0 ≤ exponent then roundDiv num (den <<< exponent.toNat)
      else roundDiv (num <<< (-exponent).toNat) den
    min (((exponent + 1074).toNat <<< 52) + significand) infinityBits

/-- The binary64 number nearest to `digits` times a power of ten, as its bits. Beyond the range of
    the format only zero and infinity are left. -/
def decimalBits (digits : Nat) (exponent : Int) : Nat :=
  let magnitude := exponent + (Nat.toDigits 10 digits).length
  if digits = 0 || magnitude < -400 then 0
  else if 400 < magnitude then infinityBits
  else if 0 ≤ exponent then quotientBits (digits * Nat.pow 10 exponent.toNat) 1
  else quotientBits digits (Nat.pow 10 (-exponent).toNat)

/-- The exponent after its mark, with an optional sign; without digits there is none. -/
def exponent? : List Char → Option Int
  | '-' :: ds => (natural? 10 ds).map fun n => -(n : Int)
  | '+' :: ds => (natural? 10 ds).map Int.ofNat
  | ds => (natural? 10 ds).map Int.ofNat

/-- The bits of a double literal; one whose exponent has no digits is not a number. -/
def doubleBits (lexeme : String) : Nat :=
  let isMark (c : Char) : Bool := c == 'e' || c == 'E'
  let (mantissa, tail) := lexeme.toList.span (!isMark ·)
  let (whole, point) := mantissa.span (· ≠ '.')
  let fraction := point.drop 1
  let exponent : Option Int := match tail with
    | [] => some 0
    | _ :: ds => exponent? ds
  match natural? 10 (whole ++ fraction), exponent with
  | some digits, some e => decimalBits digits (e - fraction.length)
  | _, _ => notANumberBits

end Literal

end DartAnalysis
