import Steward.Host.Sessions

/-!
# The idle sweep

A sweep removes every session that showed no sign of life for longer than the policy allows.
-/

namespace Steward.Host

/-- The sessions that are idle for longer than the policy allows. -/
def idleSessions (h : Host) : List String :=
  (h.sessions.filter fun _ session =>
    h.policies.session.idleTimeout < h.now.since (.ofMillis session.lastActivity)).names

/-- Remove sessions one after the other: those whose removal succeeded, and the host after it. -/
def removeSessions (h : Host) : List String → List String × Host
  | [] => ([], h)
  | id :: rest =>
    match h.removeSession id with
    | (.ok (), left) =>
      let (removed, final) := left.removeSessions rest
      (id :: removed, final)
    | (.error _, left) => left.removeSessions rest

/-- One idle sweep: the sessions that were removed. -/
def sweep (h : Host) : List String × Host :=
  match h.removeSessions h.idleSessions with
  | ([], left) => ([], left)
  | (removed, left) =>
    (removed, left.emit (.swept removed.length h.policies.session.idleTimeout.seconds))

end Steward.Host
