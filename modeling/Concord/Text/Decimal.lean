import Concord.Text.Digits

/-!
Decimals of binary fractions. `Dyadic.shortest` is the decimal with the fewest digits that still
reads back as the same number, and of those the nearest; it is found on the coarsest decimal grid
that has a point among the reals which round to the number. `numberText` writes it without an
exponent, and `readNumber` reads decimals.
-/

namespace Concord.Text

/-- The number `significand * 2 ^ exponent`. If `atEdge`, the next smaller number is only half as
far away as the next greater one. -/
structure Dyadic where
  significand : Nat
  exponent : Int
  atEdge : Bool

/-- The number `digits * 10 ^ exponent`. -/
structure Decimal where
  digits : Nat
  exponent : Int

namespace Dyadic

/-- A decimal point of the grid `10 ^ p` that rounds to the number. Of two such points the nearer
is taken, and the greater at equal distance. -/
def onGrid? (x : Dyadic) (p : Int) : Option Decimal :=
  let unit := Nat.pow 10 p.toNat * Nat.pow 2 (2 - x.exponent).toNat
  let quarter := Nat.pow 2 (x.exponent - 2).toNat * Nat.pow 10 (-p).toNat
  let middle := 4 * x.significand * quarter
  let low := middle - (if x.atEdge then 1 else 2) * quarter
  let high := middle + 2 * quarter
  let roundsHere := fun d =>
    if x.significand % 2 = 0 then decide (low ≤ d * unit ∧ d * unit ≤ high)
    else decide (low < d * unit ∧ d * unit < high)
  let below := middle / unit
  let above := below + 1
  if roundsHere below && roundsHere above then
    if middle - below * unit < above * unit - middle then some ⟨below, p⟩ else some ⟨above, p⟩
  else if roundsHere below then some ⟨below, p⟩
  else if roundsHere above then some ⟨above, p⟩
  else none

/-- Every finite 64-bit number has a decimal on one of the grids from `10 ^ 309` to `10 ^ -344`. -/
def shortest (x : Dyadic) : Decimal :=
  ((List.range 654).findSome? fun (i : Nat) => x.onGrid? (309 - (i : Int))).getD ⟨0, 0⟩

/-- The leading bit of a significand, which is not stored. -/
def hiddenBit : Nat := 0x10000000000000

/-- The absolute value of a finite number. -/
def ofFloat (f : Float) : Dyadic :=
  let bits := f.toBits.toNat
  let power := bits / hiddenBit % 0x800
  let fraction := bits % hiddenBit
  if power = 0 then ⟨fraction, -1074, false⟩
  else ⟨hiddenBit + fraction, Int.ofNat power - 1075, decide (fraction = 0 ∧ power > 1)⟩

end Dyadic

namespace Decimal

/-- All digits in their places, with a point only if there are places behind it. -/
def positional (d : Decimal) : String :=
  let digits := (toString d.digits).toList
  if 0 ≤ d.exponent then
    String.ofList (digits ++ List.replicate d.exponent.toNat '0')
  else
    let places := (-d.exponent).toNat
    if places < digits.length then
      String.ofList (digits.take (digits.length - places) ++ '.' :: digits.drop (digits.length - places))
    else String.ofList ('0' :: '.' :: List.replicate (places - digits.length) '0' ++ digits)

end Decimal

def numberText (f : Float) : String :=
  if f.isNaN then "NaN"
  else
    let sign := if f.toBits.toNat / 0x8000000000000000 = 1 then "-" else ""
    if f.isInf then sign ++ "inf"
    else if f == 0 then sign ++ "0"
    else sign ++ (Dyadic.ofFloat f).shortest.positional

inductive NumberError where
  | empty
  | malformed
deriving DecidableEq

def NumberError.message : NumberError → String
  | .empty => "cannot parse float from empty string"
  | .malformed => "invalid float literal"

/-- The nearest number to `digits * 10 ^ exponent`. Far beyond the range, the answer is decided
without computing the power. -/
def nearest (digits : Nat) (exponent : Int) : Float :=
  let size := (toString digits).length
  if digits = 0 then 0
  else if exponent + size > 400 then Float.ofBits 0x7FF0000000000000
  else if exponent + size < -400 then 0
  else Float.ofScientific digits (exponent < 0) exponent.natAbs

/-- The exponent behind the mark, with an optional sign; no mark means zero. -/
def readExponent? : List Char → Option Int
  | [] => some 0
  | mark :: rest =>
    if mark = 'e' ∨ mark = 'E' then
      match rest with
      | '-' :: ds => (readDigits? 10 ds).map fun n => -(n : Int)
      | '+' :: ds => (readDigits? 10 ds).map fun n => (n : Int)
      | ds => (readDigits? 10 ds).map fun n => (n : Int)
    else none

/-- Digits with an optional point among or beside them, and an optional exponent. -/
def readMagnitude? (cs : List Char) : Option Float :=
  let whole := cs.takeWhile Char.isDigit
  let rest := cs.dropWhile Char.isDigit
  let (places, tail) :=
    match rest with
    | '.' :: after => (after.takeWhile Char.isDigit, after.dropWhile Char.isDigit)
    | _ => ([], rest)
  match readDigits? 10 (whole ++ places), readExponent? tail with
  | some n, some e => some (nearest n (e - places.length))
  | _, _ => none

def readUnsigned? (cs : List Char) : Option Float :=
  let lower := String.ofList (cs.map Char.toLower)
  if lower = "nan" then some (Float.ofBits 0x7FF8000000000000)
  else if lower = "inf" ∨ lower = "infinity" then some (Float.ofBits 0x7FF0000000000000)
  else readMagnitude? cs

/-- Reads a number with an optional sign, or one of the words for infinity and for no number. -/
def readNumber (s : String) : Except NumberError Float :=
  let value? :=
    match s.toList with
    | '-' :: cs => (readUnsigned? cs).map Float.neg
    | '+' :: cs => readUnsigned? cs
    | cs => readUnsigned? cs
  if s.isEmpty then .error .empty
  else
    match value? with
    | some f => .ok f
    | none => .error .malformed

end Concord.Text
