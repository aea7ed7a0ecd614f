import Concord.CommandLine.Options
import Concord.Text.Terminal

/-!
What is said about the options: the help text, and the message for every misuse.
-/

namespace Concord.CommandLine

inductive Misuse where
  | unexpected (argument : String)
  | unneededValue (flag : Flag) (value : String)
  | noValue (setting : Setting)
  | badValue (setting : Setting) (value : String) (e : ValueError)
  | repeatedSetting (setting : Setting)
  | repeatedFlag (flag : Flag)
  | noHostFile

namespace Misuse

/-- The first line of the message. What the user wrote appears in it as a terminal would show it. -/
def headline : Misuse → String
  | .unexpected argument => "unexpected argument '" ++ Text.shown argument ++ "' found"
  | .unneededValue flag value =>
    "unexpected value '" ++ Text.shown value ++ "' for '" ++ flag.text
      ++ "' found; no more were expected"
  | .noValue setting => "a value is required for '" ++ setting.text ++ "' but none was supplied"
  | .badValue setting value e =>
    "invalid value '" ++ Text.shown value ++ "' for '" ++ setting.text ++ "': " ++ e.message
  | .repeatedSetting setting =>
    "the argument '" ++ setting.text ++ "' cannot be used multiple times"
  | .repeatedFlag flag => "the argument '" ++ flag.text ++ "' cannot be used multiple times"
  | .noHostFile => "the following required arguments were not provided:"

/-- Lines that go on from the first. -/
def details : Misuse → List String
  | .noHostFile => ["  " ++ Setting.hostFile.text]
  | _ => []

end Misuse

def usage : String := "Usage: multicast-node [OPTIONS] " ++ Setting.hostFile.text

def Misuse.message (m : Misuse) : String :=
  "\n".intercalate
    (("error: " ++ m.headline) :: m.details ++ ["", usage, "", "For more information, try '--help'.", ""])

/-- An option and what the help says about it. -/
structure HelpEntry where
  letter : Option Char
  option : String
  about : String

def Setting.about : Setting → String
  | .hostFile => "file with one hostname per line, defining the group and every peer's id"
  | .count => "number of messages to multicast, with payloads 1..=count [default: 0]"
  | .dropRate => "probability of dropping an incoming record [default: 0]"
  | .delay => "delay in milliseconds applied to some Ack / SeqAck replies [default: 0]"
  | .hostName =>
    "this process' name in the hostfile, defaults to the HOSTNAME environment variable"

def Flag.about : Flag → String
  | .help => "Print help"
  | _ => ""

def helpEntries : List HelpEntry :=
  Setting.all.map (fun s => ⟨none, s.text, s.about⟩)
    ++ Flag.all.map (fun f => ⟨f.letter?, f.text, f.about⟩)

def HelpEntry.line (width : Nat) (e : HelpEntry) : String :=
  let letter :=
    match e.letter with
    | some c => "-" ++ String.singleton c ++ ", "
    | none => "    "
  let gap := String.ofList (List.replicate (width - e.option.length) ' ')
  "  " ++ letter ++ e.option ++ gap ++ "  " ++ e.about ++ "\n"

/-- All options, with what is said about them in one column. -/
def help : String :=
  let width := (helpEntries.map fun e => e.option.length).foldl max 0
  usage ++ "\n\nOptions:\n" ++ String.join (helpEntries.map (HelpEntry.line width))

end Concord.CommandLine
