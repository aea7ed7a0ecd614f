import Concord.Group.HostList
import Concord.Record.Word

/-!
The list of hosts as a file that a path leads to from the working folder. A path is walked step by
step, and every step but the first needs a folder to stand in. Of the folders above the working
folder nothing is known but that they are folders.
-/

namespace Concord

inductive FileFault where
  | missing
  | isFolder
  | notFolder
  | nulInPath
  | nameTooLong
  | notText
  | other (reason : String)
deriving DecidableEq

def FileFault.message : FileFault → String
  | .missing => "No such file or directory (os error 2)"
  | .isFolder => "Is a directory (os error 21)"
  | .notFolder => "Not a directory (os error 20)"
  | .nameTooLong => "File name too long (os error 36)"
  | .nulInPath => "file name contained an unexpected NUL byte"
  | .notText => "stream did not contain valid UTF-8"
  | .other reason => reason

inductive FolderEntry where
  | file (content : Bytes)
  | folder

/-- Where a walk stands. -/
inductive Place where
  /-- At or below the working folder, with the names that lead there, the last one first. -/
  | below (names : List String)
  | above
deriving DecidableEq

/-- The working folder: all that is at places below it. -/
structure Folder where
  entries : List (List String × FolderEntry)

namespace Folder

def entryAt? (f : Folder) : Place → Option FolderEntry
  | .above | .below [] => some .folder
  | .below names => (f.entries.find? (·.1 = names)).map Prod.snd

def longestName : Nat := 255

def longestPath : Nat := 4095

/-- Goes from a folder to its parent. -/
def up : Place → Place
  | .below (_ :: names) => .below names
  | _ => .above

/-- Goes to a name in a folder, whether or not there is anything of that name. -/
def down (place : Place) (name : String) : Except FileFault Place :=
  if longestName < name.utf8ByteSize then .error .nameTooLong
  else
    match place with
    | .below names => .ok (.below (name :: names))
    | .above => .error .missing

/-- Goes one step; an empty step and a dot stay. -/
def step (f : Folder) (place : Place) (name : String) : Except FileFault Place :=
  match f.entryAt? place with
  | none => .error .missing
  | some (.file _) => .error .notFolder
  | some .folder =>
    if name = "" ∨ name = "." then .ok place
    else if name = ".." then .ok (up place)
    else down place name

/-- The place that a path leads to. A path that begins with a slash begins above. -/
def walk (f : Folder) (path : String) : Except FileFault Place :=
  if path.contains '\x00' then .error .nulInPath
  else if path.isEmpty then .error .missing
  else if longestPath < path.utf8ByteSize then .error .nameTooLong
  else
    let start := if path.startsWith "/" then .above else .below []
    ((Text.cutAt '/' path.toList).map String.ofList).foldlM f.step start

/-- The content of a file. -/
def read (f : Folder) (path : String) : Except FileFault Bytes := do
  match f.entryAt? (← f.walk path) with
  | none => .error .missing
  | some .folder => .error .isFolder
  | some (.file content) => .ok content

/-- The folder after a file was written, in place of the one that was there. -/
def write (f : Folder) (path : String) (content : Bytes) : Except FileFault Folder := do
  match ← f.walk path with
  | .above | .below [] => .error .isFolder
  | .below names =>
    match f.entryAt? (.below names) with
    | some .folder => .error .isFolder
    | _ => .ok ⟨(names, .file content) :: f.entries.filter (·.1 ≠ names)⟩

end Folder

namespace HostList

def textOf (content : Bytes) : Except FileFault String :=
  match String.fromUTF8? ⟨content.toArray⟩ with
  | some text => .ok text
  | none => .error .notText

/-- The hosts in a file, given what reading the file answered. -/
def ofFile (path : String) (content : Except FileFault Bytes) :
    Except HostListError (List String) :=
  match content.bind textOf with
  | .ok text => parse text
  | .error fault => .error (.unreadable path fault.message)

end HostList

end Concord
