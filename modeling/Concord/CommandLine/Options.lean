import Concord.Text.Decimal
import Concord.Text.Integer

/-!
The options that a member is started with: settings, which take a value, and flags, which do not.
-/

namespace Concord.CommandLine

inductive Setting where
  | hostFile
  | count
  | dropRate
  | delay
  | hostName
deriving DecidableEq

inductive Flag where
  | unmonitored
  | verbose
  | veryVerbose
  | help
deriving DecidableEq

namespace Setting

def all : List Setting := [.hostFile, .count, .dropRate, .delay, .hostName]

def name : Setting → String
  | .hostFile => "hostfile"
  | .count => "count"
  | .dropRate => "drop-rate"
  | .delay => "delay"
  | .hostName => "hostname"

def valueName : Setting → String
  | .hostFile => "HOSTFILE"
  | .count => "COUNT"
  | .dropRate => "DROP_RATE"
  | .delay => "DELAY"
  | .hostName => "HOSTNAME"

/-- The setting as it is shown in help and errors. -/
def text (s : Setting) : String := "--" ++ s.name ++ " <" ++ s.valueName ++ ">"

def ofName? (name : String) : Option Setting := all.find? fun s => s.name = name

end Setting

namespace Flag

def all : List Flag := [.unmonitored, .verbose, .veryVerbose, .help]

def name : Flag → String
  | .unmonitored => "no-failure-detector"
  | .verbose => "verbose"
  | .veryVerbose => "very-verbose"
  | .help => "help"

/-- The one letter that stands for a flag. -/
def letter? : Flag → Option Char
  | .verbose => some 'v'
  | .help => some 'h'
  | _ => none

def text (f : Flag) : String := "--" ++ f.name

def ofName? (name : String) : Option Flag := all.find? fun f => f.name = name

def ofLetter? (c : Char) : Option Flag := all.find? fun f => f.letter? = some c

end Flag

/-- Values given on the command line; the host file must be given. -/
structure Options where
  hostFile : Option String
  count : UInt32
  dropRate : Float
  delayMillis : UInt64
  hostName : Option String
  flags : List Flag

def Options.initial : Options := ⟨none, 0, 0, 0, none, []⟩

/-- Why a value is refused. -/
inductive ValueError where
  | missing
  | integer (e : Text.IntegerError)
  | number (e : Text.NumberError)
  | outOfRange (given : Int) (greatest : Nat)

def ValueError.message : ValueError → String
  | .missing => "a value is required"
  | .integer e => e.message
  | .number e => e.message
  | .outOfRange given greatest => toString given ++ " is not in 0..=" ++ toString greatest

/-- Reads a count: any 64-bit integer is a number, and then it has to be in range. -/
def readCount (s : String) : Except ValueError UInt32 :=
  match Text.readInt 0x7FFFFFFFFFFFFFFF s with
  | .error e => .error (.integer e)
  | .ok n =>
    if 0 ≤ n ∧ n.toNat < UInt32.size then .ok n.toNat.toUInt32
    else .error (.outOfRange n (UInt32.size - 1))

def readDelay (s : String) : Except ValueError UInt64 :=
  match Text.readNat (UInt64.size - 1) s with
  | .error e => .error (.integer e)
  | .ok n => .ok n.toUInt64

def readRate (s : String) : Except ValueError Float :=
  match Text.readNumber s with
  | .error e => .error (.number e)
  | .ok f => .ok f

/-- Sets the value of a setting. A path cannot be empty. -/
def Options.store (o : Options) (s : Setting) (value : String) : Except ValueError Options :=
  match s with
  | .hostFile => if value.isEmpty then .error .missing else .ok { o with hostFile := some value }
  | .count => (readCount value).map fun count => { o with count }
  | .dropRate => (readRate value).map fun dropRate => { o with dropRate }
  | .delay => (readDelay value).map fun delayMillis => { o with delayMillis }
  | .hostName => .ok { o with hostName := some value }

end Concord.CommandLine
