import Steward.Host.Users

/-!
# The system monitor

A monitor cycle measures the process, attributes what it uses evenly to the users, and flags those
who showed no sign of life for too long.
-/

namespace Steward.Host

/-- How long ago a user last showed a sign of life. -/
def idleTime (h : Host) (user : User) : Span := .ofMillis (h.stamp - user.lastActivity)

/-- The names of the users who are idle for longer than the policy allows. -/
def idleUsers (h : Host) : List String :=
  (h.users.filter fun _ user => h.policies.system.maxInactiveTime < h.idleTime user).names

/-- Attribute an even part of a measurement to every user. -/
def spreadUsage (h : Host) (sample : Sample) : Host :=
  let share := max h.users.size 1
  { h with
    users := h.users.map fun user =>
      { user with
        estimatedCpu := sample.processCpu / .ofNat share
        estimatedMemory := sample.processMemory / share } }

/-- The worker slots taken by the registered users. -/
def workersInUse (h : Host) : Nat := total (h.users.values.map User.workers)

/-- One pass of the system monitor. -/
def monitorCycle (h : Host) : Except Fault Sample × Host :=
  match h.sampler.measure with
  | .error fault => (.error fault, h)
  | .ok sample =>
    let idle := h.idleUsers
    let flagged := idle.filter fun name => !h.inactive.contains name
    let limit := h.policies.system.maxInactiveTime.seconds
    let after := { h.spreadUsage sample with inactive := idle, lastSample := some sample }
    (.ok sample,
      (after.emitAll (flagged.map fun name => .userInactive name limit)).emit
        (.sampled h.users.size h.workersInUse sample))

end Steward.Host
