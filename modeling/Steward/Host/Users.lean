import Steward.Host.Basic

/-!
# Registered users

Registration, the even shares of the current population, usage estimates and signs of life.
-/

namespace Steward.Host

/-- The user of a name. -/
def user? (h : Host) (name : String) : Except Fault User :=
  match h.users.find? name with
  | some user => .ok user
  | none => .error (.unknownUser name)

/-- The allowance of each user of a population. -/
def shareOf (h : Host) (population : Nat) : Allowance :=
  .fairShare h.policies.system h.totalMemory population

/-- Give every user the share of the current population. -/
def reshare (h : Host) : Host :=
  { h with
    users := h.users.map fun user => { user with allowance := h.shareOf h.users.size } }

/-- Whether a name is registered. -/
def isRegistered (h : Host) (name : String) : Bool := h.users.contains name

/-- The number of registered users. -/
def population (h : Host) : Nat := h.users.size

/-- Register a user, while there is room, and share the pools anew. -/
def registerUser (h : Host) (name : String) : Except Fault Unit × Host :=
  if h.users.contains name then (.error (.alreadyRegistered name), h)
  else if h.policies.system.maxUsers ≤ h.users.size then
    (.error (.capacity "concurrent users" h.policies.system.maxUsers), h)
  else
    let user : User :=
      { registration := h.nextId, allowance := h.shareOf 1, lastActivity := h.stamp }
    let joined := { h with users := h.users.insert name user, nextId := h.nextId + 1 }.reshare
    (.ok (), joined.emit (.userRegistered name joined.users.size))

/-- Take a user out: cancel the registration's scope, share the pools anew, forget the flag. -/
def removeUser (h : Host) (name : String) (user : User) : Host :=
  let left := { h.cancel user.scope with users := h.users.erase name }.reshare
  { left with inactive := left.inactive.filter (· ≠ name) }

/-- Unregister a user. The user's run stays, in a cancelled scope. -/
def unregisterUser (h : Host) (name : String) : Except Fault Unit × Host :=
  reportUnknown "unregister_user" name <|
    match h.user? name with
    | .ok user =>
      let left := h.removeUser name user
      (.ok (), left.emit (.userUnregistered name left.users.size))
    | .error fault => (.error fault, h)

/-- The scope of a user's registration. -/
def userScope (h : Host) (name : String) : Except Fault Scope × Host :=
  reportUnknown "user_context" name ((h.user? name).map User.scope, h)

/-- The current allowance of a user. -/
def userAllowance (h : Host) (name : String) : Except Fault Allowance × Host :=
  reportUnknown "user_limits" name ((h.user? name).map User.allowance, h)

/-- Note a sign of life of a user. -/
def touch (h : Host) (name : String) : Except Fault Unit × Host :=
  reportUnknown "touch" name <|
    match h.user? name with
    | .ok user =>
      (.ok (), { h with users := h.users.insert name { user with lastActivity := h.stamp } })
    | .error fault => (.error fault, h)

/-- Set a user's usage estimate, until the next monitor cycle replaces it. -/
def recordUsage (h : Host) (name : String) (cpu : Binary64) (memory : Nat) :
    Except Fault Unit × Host :=
  reportUnknown "record_usage" name <|
    match h.user? name with
    | .ok user =>
      (.ok (), { h with
        users := h.users.insert name { user with estimatedCpu := cpu, estimatedMemory := memory } })
    | .error fault => (.error fault, h)

/-- The allowance that a user's estimates exceed, CPU first. -/
def usageFault? (user : User) : Option Fault :=
  if user.allowance.maxCpu.lt user.estimatedCpu then
    some (.limit .cpu user.estimatedCpu user.allowance.maxCpu)
  else if user.allowance.maxMemory < user.estimatedMemory then
    some (.limit .memory (.ofNat user.estimatedMemory) (.ofNat user.allowance.maxMemory))
  else none

/-- Compare a user's estimates with the allowance. -/
def checkUsage (h : Host) (name : String) : Except Fault Unit × Host :=
  reportUnknown "check_resource_usage" name <|
    match h.user? name with
    | .ok user =>
      match usageFault? user with
      | none => (.ok (), h)
      | some fault => (.error fault, h.emit (.usageOverLimit name fault))
    | .error fault => (.error fault, h)

end Steward.Host
