import Concord.Text.Blank
import Concord.Text.Digits
import Concord.Text.Quoted

/-!
The list of hosts that defines a group: one name a line, without the white space around it. Blank
lines and repeated names do not count, so ranks follow the first appearance of each name.
-/

namespace Concord

inductive HostListError where
  | tooFew (found : Nat)
  | unreadable (path : String) (reason : String)
deriving DecidableEq

def HostListError.message : HostListError → String
  | .tooFew found => "hostfile must contain at least 2 distinct hosts, found " ++ toString found
  | .unreadable path reason => "cannot read hostfile " ++ Text.quoted path ++ ": " ++ reason

namespace HostList

/-- Keeps the first occurrence of every entry. -/
def firstOccurrences {α : Type} [DecidableEq α] : List α → List α
  | [] => []
  | a :: rest => a :: (firstOccurrences rest).filter (· ≠ a)

/-- The trimmed lines that are not blank. -/
def lines (content : List Char) : List (List Char) :=
  ((Text.cutAt '\n' content).map Text.trim).filter (· ≠ [])

def names (content : String) : List String :=
  (firstOccurrences (lines content.toList)).map String.ofList

def parse (content : String) : Except HostListError (List String) :=
  let found := names content
  if found.length < 2 then .error (.tooFew found.length) else .ok found

end HostList

end Concord
