import Concord.Text.Digits

/-!
Integers in decimal, within a range. The digits are read from the left, so of a digit that is none
and a number that leaves the range the one further left is the error.
-/

namespace Concord.Text

inductive IntegerError where
  | empty
  | noDigit
  | tooLarge
  | tooSmall
deriving DecidableEq

def IntegerError.message : IntegerError → String
  | .empty => "cannot parse integer from empty string"
  | .noDigit => "invalid digit found in string"
  | .tooLarge => "number too large to fit in target type"
  | .tooSmall => "number too small to fit in target type"

/-- Reads the digits behind `n`, as long as the number is at most `limit`. -/
def readUpTo (limit : Nat) (beyond : IntegerError) (n : Nat) : List Char → Except IntegerError Nat
  | [] => .ok n
  | c :: rest =>
    match digitValue? 10 c with
    | none => .error .noDigit
    | some d =>
      if n * 10 + d ≤ limit then readUpTo limit beyond (n * 10 + d) rest else .error beyond

/-- Reads a number up to `limit`, with an optional plus sign. -/
def readNat (limit : Nat) (s : String) : Except IntegerError Nat :=
  match s.toList with
  | [] => .error .empty
  | ['+'] => .error .noDigit
  | '+' :: cs => readUpTo limit .tooLarge 0 cs
  | cs => readUpTo limit .tooLarge 0 cs

/-- Reads a number from `-limit - 1` to `limit`, with an optional sign. -/
def readInt (limit : Nat) (s : String) : Except IntegerError Int :=
  match s.toList with
  | ['-'] => .error .noDigit
  | '-' :: cs => (readUpTo (limit + 1) .tooSmall 0 cs).map fun n => -(n : Int)
  | _ => (readNat limit s).map Int.ofNat

end Concord.Text
