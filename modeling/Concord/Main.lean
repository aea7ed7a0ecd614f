import Concord.CommandLine.Launch

/-!
The program that starts a member: it reads its options, checks its settings and finds its group.
-/

namespace Concord.CommandLine

/-- The codes of the system come negated. -/
def fault (e : IO.Error) : FileFault :=
  match e with
  | .noFileOrDirectory .. => .missing
  | .inappropriateType _ code _ => if 0 - code = 20 then .notFolder else .isFolder
  | .invalidArgument _ code _ => if 0 - code = 36 then .nameTooLong else .other (toString e)
  | _ => .other (toString e)

def readFile (path : String) : IO (Except FileFault Bytes) := do
  if path.contains '\x00' then return .error .nulInPath
  try
    let content ← IO.FS.readBinFile path
    return .ok content.toList
  catch e => return .error (fault e)

/-- Hosts are found by their literal addresses. -/
def findHost (name : String) : Except String Host :=
  match Host.read? name with
  | some host => .ok host
  | none => .error "no literal address"

def pathIn (tokens : List String) : String :=
  match read tokens with
  | .ok o => o.hostFile.getD ""
  | .error _ => ""

end Concord.CommandLine

open Concord Concord.CommandLine in
def main (tokens : List String) : IO UInt32 := do
  let hostName ← IO.getEnv "HOSTNAME"
  let content ← CommandLine.readFile (pathIn tokens)
  match CommandLine.run ⟨hostName, fun _ => content, findHost⟩ tokens with
  | .ok group =>
    IO.println ("joins as " ++ group.self.label ++ " of " ++ toString group.size)
    return 0
  | .error ending =>
    IO.print ending.output
    IO.eprint ending.complaint
    return ending.code
