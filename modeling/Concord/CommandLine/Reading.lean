import Concord.CommandLine.Usage

/-!
The command line is read token by token. A value in a token of its own is looked at only when the
next option comes or the line ends, so what is wrong with it is reported after an argument that
fits nowhere, but before anything that the next option brings. A token that starts with a dash,
and is more than the dash, is never a value.
-/

namespace Concord.CommandLine

/-- A setting whose value is still to be looked at, or still to come. -/
structure Reading.Pending where
  setting : Setting
  value : Option String

structure Reading where
  options : Options
  /-- The settings whose value was looked at. -/
  given : List Setting
  pending : Option Reading.Pending
  /-- No options come after a double dash. -/
  closed : Bool

/-- What ends the reading early. -/
inductive Stop where
  | help
  | misuse (m : Misuse)

namespace Reading

def start : Reading := ⟨.initial, [], none, false⟩

/-- Looks at the value of a setting. -/
def assign (r : Reading) (s : Setting) : Option String → Except Stop Reading
  | none => .error (.misuse (.noValue s))
  | some value =>
    if s ∈ r.given then .error (.misuse (.repeatedSetting s))
    else
      match r.options.store s value with
      | .ok options => .ok { r with options, given := s :: r.given }
      | .error .missing => .error (.misuse (.noValue s))
      | .error e => .error (.misuse (.badValue s value e))

/-- Looks at the value that is pending, if any. -/
def resolve (r : Reading) : Except Stop Reading :=
  match r.pending with
  | none => .ok r
  | some p => { r with pending := none }.assign p.setting p.value

def raise (r : Reading) (f : Flag) : Except Stop Reading := do
  let r ← r.resolve
  if f = .help then .error .help
  else if f ∈ r.options.flags then .error (.misuse (.repeatedFlag f))
  else .ok { r with options := { r.options with flags := f :: r.options.flags } }

/-- An option by its name, with the value attached to it. -/
def readLong (r : Reading) (name : String) (attached : Option String) : Except Stop Reading :=
  match Setting.ofName? name, Flag.ofName? name, attached with
  | some s, _, some value => do (← r.resolve).assign s (some value)
  | some s, _, none => do
    let r ← r.resolve
    return { r with pending := some ⟨s, none⟩ }
  | none, some f, none => r.raise f
  | none, some f, some value => .error (.misuse (.unneededValue f value))
  | none, none, _ => .error (.misuse (.unexpected ("--" ++ name)))

/-- Flags by their letters, in one token. -/
def readLetters (r : Reading) : List Char → Except Stop Reading
  | [] => .ok r
  | c :: rest =>
    match Flag.ofLetter? c with
    | some f => do (← r.raise f).readLetters rest
    | none => .error (.misuse (.unexpected (String.ofList ['-', c])))

/-- A token that is no option: the value that a setting waits for, or out of place. -/
def readValue (r : Reading) (token : String) : Except Stop Reading :=
  match r.pending with
  | some ⟨s, none⟩ => .ok { r with pending := some ⟨s, some token⟩ }
  | _ => .error (.misuse (.unexpected token))

def readToken (r : Reading) (token : String) : Except Stop Reading :=
  if r.closed then .error (.misuse (.unexpected token))
  else
    match token.toList with
    | ['-', '-'] => .ok { r with closed := true }
    | '-' :: '-' :: cs =>
      let name := String.ofList (cs.takeWhile (· ≠ '='))
      match cs.dropWhile (· ≠ '=') with
      | [] => r.readLong name none
      | _ :: value => r.readLong name (some (String.ofList value))
    | '-' :: c :: cs => r.readLetters (c :: cs)
    | _ => r.readValue token

end Reading

/-- Reads a whole command line. -/
def read (tokens : List String) : Except Stop Options := do
  let r ← tokens.foldlM Reading.readToken .start
  let r ← r.resolve
  if r.options.hostFile.isSome then .ok r.options else .error (.misuse .noHostFile)

end Concord.CommandLine
