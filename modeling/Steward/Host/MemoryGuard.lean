import Steward.Host.Runs

/-!
# The memory guard

While the process uses more memory than the pool holds, each cycle of the guard ends the run that
was started first.
-/

namespace Steward.Host

/-- Whether one run was started before another; of two at the same time, the one recorded first. -/
def startedBefore (a b : Run) : Bool :=
  a.startedAt < b.startedAt || (a.startedAt = b.startedAt && a.id < b.id)

/-- The entry of the run that was started first. -/
def oldestRun? (h : Host) : Option (String × Run) :=
  h.runs.entries.foldl
    (fun oldest entry =>
      match oldest with
      | none => some entry
      | some found => if startedBefore entry.2 found.2 then some entry else some found)
    none

/-- One pass of the memory guard: the user whose run was ended, if one was. -/
def guardCycle (h : Host) : Except Fault (Option String) × Host :=
  match h.sampler.measure with
  | .error fault => (.error fault, h)
  | .ok sample =>
    if sample.processMemory ≤ h.memoryPool then (.ok none, h)
    else
      match h.oldestRun? with
      | none => (.ok none, h.emit (.memoryOverIdle sample.processMemory h.memoryPool))
      | some (user, run) =>
        let warned := h.emit (.evicting user run.program sample.processMemory h.memoryPool)
        (.ok (some user), warned.endRun user run .memoryPressure)

end Steward.Host
