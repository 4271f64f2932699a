import ParseRecovery.Diagnostic

/-!
Listeners that keep what they are told. Mailboxes are numbered in the order in which they were made;
a session can have several, and several sessions can share one.
-/

namespace ParseRecovery

/-- The diagnostics that a listener has been told of, in order. -/
structure Mailbox where
  diagnostics : List Diagnostic := []
deriving DecidableEq, Inhabited

namespace Mailbox

def size (m : Mailbox) : Nat :=
  m.diagnostics.length

def isEmpty (m : Mailbox) : Bool :=
  m.diagnostics.isEmpty

def messages (m : Mailbox) : List String :=
  m.diagnostics.map Diagnostic.message

def codes (m : Mailbox) : List String :=
  m.diagnostics.map Diagnostic.code

def deliver (m : Mailbox) (news : List Diagnostic) : Mailbox :=
  ⟨m.diagnostics ++ news⟩

end Mailbox

abbrev Mailboxes := Array Mailbox

namespace Mailboxes

/-- A new mailbox, under the next number. -/
def create (boxes : Mailboxes) : Mailboxes :=
  boxes.push {}

def clear (boxes : Mailboxes) (box : Nat) : Mailboxes :=
  boxes.modify box fun _ => {}

/-- Tell listeners the news. A listener that is registered twice is told twice. -/
def broadcast (boxes : Mailboxes) (listeners : List Nat) (news : List Diagnostic) : Mailboxes :=
  listeners.foldl (fun boxes box => boxes.modify box fun m => m.deliver news) boxes

end Mailboxes

end ParseRecovery
