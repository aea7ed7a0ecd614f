import Concord.CommandLine.Reading
import Concord.Group.Basic
import Concord.Group.HostFile
import Concord.Settings

/-!
What happens from the command line to the group that a member joins, and every way to end before:
help, misuse of the options, and settings, host files or names that do not fit.
-/

namespace Concord.CommandLine

/-- What the process finds around it. -/
structure Surroundings where
  /-- The name of this machine in the environment. -/
  hostName : Option String
  readFile : String → Except FileFault Bytes
  findHost : String → Except String Host

inductive LaunchError where
  | noHostName
  | settings (e : SettingsError)
  | hostList (e : HostListError)
  | group (e : GroupError)

def LaunchError.message : LaunchError → String
  | .noHostName => "no --hostname given and HOSTNAME is not set"
  | .settings e => e.message
  | .hostList e => e.message
  | .group e => e.message

def Options.settings (o : Options) : Settings := .withFaults o.dropRate (.ofMillis o.delayMillis.toNat)

/-- The group to join, or the first thing that stands against it. -/
def launch (around : Surroundings) (o : Options) : Except LaunchError Group :=
  match o.hostName <|> around.hostName with
  | none => .error .noHostName
  | some own =>
    let path := o.hostFile.getD ""
    match o.settings.check, HostList.ofFile path (around.readFile path) with
    | .error e, _ => .error (.settings e)
    | .ok (), .error e => .error (.hostList e)
    | .ok (), .ok hosts =>
      match Group.resolve around.findHost hosts own o.settings.multicastPort with
      | .error e => .error (.group e)
      | .ok group => .ok group

/-- How the process ends before it takes part: its exit code and what it prints. -/
structure Ending where
  code : UInt32
  output : String
  complaint : String

/-- Either the group that the process joins, or how it ends. -/
def run (around : Surroundings) (tokens : List String) : Except Ending Group :=
  match read tokens with
  | .error .help => .error ⟨0, help, ""⟩
  | .error (.misuse m) => .error ⟨2, "", m.message⟩
  | .ok o =>
    match launch around o with
    | .error e => .error ⟨1, "", "Error: " ++ e.message ++ "\n"⟩
    | .ok group => .ok group

end Concord.CommandLine
