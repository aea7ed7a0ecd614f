/-!
What a terminal would show of a text: its control sequences taken out. A sequence starts with an
escape character and ends by its own rule, or early at a cancelling character or at the next escape
character. Outside strings, white space that is a control interrupts it: text is shown up to the
next control, and then the sequence goes on.
-/

namespace Concord.Text.Terminal

/-- What the characters read last belong to. -/
inductive Sequence where
  /-- No sequence. -/
  | none
  /-- An escape character. -/
  | escape
  /-- A short sequence that has begun and is not over. -/
  | short
  | control
  /-- A command to the system around the terminal. -/
  | command
  /-- The head of a device string, before its parameters, within them or after them. -/
  | head | parameters | intermediates
  /-- The body of a device string, or a string without meaning. -/
  | string
deriving DecidableEq

def isControl (c : Char) : Bool := c < ' '

/-- White space that is a control. -/
def isLayout (c : Char) : Bool := c = '\t' || c = '\n' || c = '\x0c' || c = '\r'

/-- Strings end at this byte, also where it is part of a character of several bytes. -/
def stringEnd : UInt8 := 0x9C

def endsString (c : Char) : Bool := (String.utf8EncodeChar c).contains stringEnd

/-- What begins after an escape character. -/
def afterEscape (c : Char) : Sequence :=
  if c = '[' then .control
  else if c = ']' then .command
  else if c = 'P' then .head
  else if c = 'X' ∨ c = '^' ∨ c = '_' then .string
  else if ' ' ≤ c ∧ c ≤ '/' then .short
  else if '0' ≤ c ∧ c ≤ '~' then .none
  else .escape

def afterHead (c : Char) : Sequence :=
  if ' ' ≤ c ∧ c ≤ '/' then .intermediates
  else if '0' ≤ c ∧ c ≤ '?' then .parameters
  else if '@' ≤ c ∧ c ≤ '~' then .string
  else .head

def afterParameters (c : Char) : Sequence :=
  if ' ' ≤ c ∧ c ≤ '/' then .intermediates
  else if '<' ≤ c ∧ c ≤ '~' then .string
  else .parameters

/-- What the next character belongs to within a sequence, if it does not end it early. -/
def Sequence.next (s : Sequence) (c : Char) : Sequence :=
  match s with
  | .none => .none
  | .escape => afterEscape c
  | .short => if '0' ≤ c ∧ c ≤ '~' then .none else .short
  | .control => if '@' ≤ c ∧ c ≤ '~' then .none else .control
  | .command => if c = '\x07' then .none else .command
  | .head => afterHead c
  | .parameters => afterParameters c
  | .intermediates => if '0' ≤ c ∧ c ≤ '~' then .string else .intermediates
  | .string => if endsString c then .none else .string

def Sequence.isString : Sequence → Bool
  | .command | .head | .parameters | .intermediates | .string => true
  | _ => false

def isText (c : Char) : Bool := !isControl c && c ≠ '\x7f'

def isAscii (c : Char) : Bool := c ≤ '\x7f'

/-- How far the reading of a text is. -/
structure Reading where
  sequence : Sequence
  interrupted : Bool

namespace Reading

def start : Reading := ⟨.none, false⟩

/-- Whether a character is shown that stands in an interruption. Beyond ASCII a character also ends
the sequence. -/
def resume (r : Reading) (c : Char) : Bool × Reading :=
  if !isAscii c then (true, start)
  else if isText c || isLayout c then (true, r)
  else (false, { r with interrupted := false })

/-- Whether a character is shown, and the reading after it. -/
def read (r : Reading) (c : Char) : Bool × Reading :=
  if c = '\x1b' then (false, ⟨.escape, false⟩)
  else if c = '\x18' ∨ c = '\x1a' then (false, start)
  else if r.interrupted then r.resume c
  else if isLayout c ∧ !r.sequence.isString then (true, { r with interrupted := true })
  else (r.sequence = .none ∧ isText c, ⟨r.sequence.next c, false⟩)

/-- The characters that are shown. -/
def shown (r : Reading) : List Char → List Char
  | [] => []
  | c :: rest =>
    let (isShown, r) := r.read c
    if isShown then c :: r.shown rest else r.shown rest

end Reading

end Terminal

/-- The text without control sequences and without controls other than white space. -/
def shown (s : String) : String := String.ofList (Terminal.Reading.start.shown s.toList)

end Concord.Text
