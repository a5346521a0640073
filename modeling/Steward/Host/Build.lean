import Steward.Host.Basic

/-!
# Building a host

A host starts empty. The memory floors of a full population are added up first, as a word. When
nothing else is said about the machine, its clock has run for a second.
-/

namespace Steward.Host

/-- The memory floors of a full population, unless a word cannot hold them. -/
def floorTotal? (p : SystemPolicy) : Option Nat :=
  if p.minMemory * p.maxUsers ≤ wordMax then some (p.minMemory * p.maxUsers) else none

/-- A host without users. -/
def empty (policies : Policies) (sampler : Sampler) (timers : Bool) (clockEnd : Span) : Host :=
  { policies, totalMemory := sampler.sample.totalMemory, timers, clockEnd, sampler }

/-- Build a host; the memory of the machine is measured now and never again. -/
def build (policies : Policies) (sampler : Sampler) (timers : Bool)
    (clockEnd : Span := .clockEnd (.ofSeconds 1)) : Except Overflow Host :=
  let host := empty policies sampler timers clockEnd
  let system := policies.system
  match floorTotal? system with
  | none => .error .product
  | some floorTotal =>
    let warned :=
      if host.memoryPool < floorTotal then
        host.emit (.memoryOvercommitted host.memoryPool floorTotal)
      else host
    .ok (warned.emit (.systemReady host.totalMemory host.memoryPool system.cpuPool system.maxUsers))

/-- Build a host from the policies of settings. -/
def assemble (policies : Policies) (sampler : Sampler) (timers : Bool)
    (clockEnd : Span := .clockEnd (.ofSeconds 1)) : Except Overflow Host :=
  (build policies sampler timers clockEnd).map fun host =>
    host.emit (.stackAssembled policies.system.maxUsers host.memoryPool policies.session.maxPerUser
      policies.session.maxPerAddress)

end Steward.Host
