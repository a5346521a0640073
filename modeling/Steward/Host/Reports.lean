import Steward.Host.Monitor
import Steward.Host.Sessions

/-!
# Reports of a host

Snapshots for operators, sorted by name.
-/

namespace Steward.Host

/-- A user in a report. -/
def userReport (h : Host) (name : String) (user : User) : UserReport where
  username := name
  maxCpu := user.allowance.maxCpu
  maxMemory := user.allowance.maxMemory
  estimatedCpu := user.estimatedCpu
  estimatedMemory := user.estimatedMemory
  workers := user.workers
  idleSeconds := (h.idleTime user).seconds

/-- The population and the pools, with a given number of runs. -/
def systemReport (h : Host) (runs : Nat) : SystemReport where
  maxUsers := h.policies.system.maxUsers
  processMemory := (h.lastSample.map Sample.processMemory).getD 0
  totalMemory := h.totalMemory
  availableMemory := h.memoryPool
  availableCpu := h.policies.system.cpuPool
  runs := runs
  inactive := h.inactive
  users := h.users.entries.map fun (name, user) => h.userReport name user
  sampled := h.lastSample.isSome

/-- The population and the pools, with the current number of runs. -/
def report (h : Host) : SystemReport := h.systemReport h.runs.size

/-- A session in a report. -/
def sessionLine (h : Host) (id : String) (s : Session) : SessionLine where
  session := id
  username := s.username
  address := s.address
  windowMessages := s.windowMessages
  windowBytes := s.windowBytes
  totalMessages := s.totalMessages
  totalBytes := s.totalBytes
  connections := s.connections
  idleSeconds := (h.now.since (.ofMillis s.lastActivity)).seconds

/-- All sessions and their ceilings. -/
def sessionReport (h : Host) : SessionReport where
  maxPerUser := h.policies.session.maxPerUser
  maxPerAddress := h.policies.session.maxPerAddress
  maxMessages := h.policies.session.maxMessages
  maxBytes := h.policies.session.maxBytes
  sessions := h.sessions.entries.map fun (id, session) => h.sessionLine id session

/-- Report the state of the host as an event. -/
def reportStatus (h : Host) : Host := h.emit (.status h.report h.sessionReport)

end Steward.Host
