import Steward.Host.Basic

/-!
# The background scope

Patrols, cancellable sleepers and scopes that callers asked for live under the background scope, in
a row. What leaves the row is replaced by the last of it. Cancelling the background scope reaches
the last of the row first and then the others in their order; after that nothing joins or leaves.
-/

namespace Steward.Host

/-- Whether shutdown began. -/
def isShuttingDown (h : Host) : Bool := h.isCancelled .background

/-- A row without a member, whose place the last one takes. -/
def vacate (id : Nat) (row : List Nat) : List Nat :=
  match row.getLast? with
  | none => []
  | some last =>
    if row.contains id then
      (row.map fun member => if member = id then last else member).dropLast
    else row

/-- Open a scope under the background scope. -/
def openScope (h : Host) : Nat × Host :=
  let (id, numbered) := h.fresh
  (id, if h.isShuttingDown then numbered else { numbered with dependents := h.dependents ++ [id] })

/-- Close a scope under the background scope. -/
def closeScope (h : Host) (id : Nat) : Host :=
  if h.isShuttingDown then h else { h with dependents := vacate id h.dependents }

/-- A new scope that ends with the background tasks. -/
def childScope (h : Host) : Scope × Host :=
  let (id, opened) := h.openScope
  (.child 0 id, opened)

/-- Let go of a scope that was asked for. -/
def releaseScope (h : Host) : Scope → Host
  | .child 0 id => h.closeScope id
  | _ => h

/-- A list with its last element moved to the front. -/
def lastFirst {α : Type} (items : List α) : List α :=
  match items.getLast? with
  | none => []
  | some last => last :: items.dropLast

/-- The tasks that shutdown ends, in the order in which they learn of it. -/
def cancellableTasks (h : Host) : List Task :=
  lastFirst (h.dependents.filterMap fun id =>
    h.tasks.find? fun task => task.id = id && task.isCancellable)

/-- End the tasks whose scope was cancelled. -/
def endCancelled (h : Host) : Host :=
  if h.isShuttingDown then
    let events := h.cancellableTasks.filterMap fun task =>
      match task.work with
      | .patrol patrol => some (Event.patrolStopped patrol)
      | _ => none
    { h with tasks := h.tasks.filter fun task => !task.isCancellable }.emitAll events
  else h

end Steward.Host
