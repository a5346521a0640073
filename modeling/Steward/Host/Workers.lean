import Steward.Host.Users

/-!
# Worker slots

A user may hold as many worker slots as the allowance says. A slot given back after its owner was
registered anew does not count against the new registration.
-/

namespace Steward.Host

/-- Take one of a user's worker slots. -/
def acquireWorker (h : Host) (name : String) : Except Fault Permit × Host :=
  reportUnknown "acquire_worker" name <|
    match h.user? name with
    | .error fault => (.error fault, h)
    | .ok user =>
      if user.workers < user.allowance.maxWorkers then
        let permit : Permit := ⟨h.nextId, name, user.registration⟩
        let busy := { user with workers := user.workers + 1, lastActivity := h.stamp }
        (.ok permit, { h with
          users := h.users.insert name busy
          permits := permit :: h.permits
          nextId := h.nextId + 1 })
      else
        (.error (.limit .workers (.ofNat (user.workers + 1)) (.ofNat user.allowance.maxWorkers)), h)

/-- Give a worker slot back. -/
def releaseWorker (h : Host) (permit : Permit) : Host :=
  if h.permits.contains permit then
    let users :=
      match h.users.find? permit.user with
      | some user =>
        if user.registration = permit.registration then
          h.users.insert permit.user { user with workers := user.workers - 1 }
        else h.users
      | none => h.users
    { h with users, permits := h.permits.erase permit }
  else h

end Steward.Host
