import Steward.Host.Runs

/-!
# Sessions

A user is registered by the first session and unregistered with the last one. Each session counts
its messages and bytes in windows that begin where the session began; passing a ceiling is reported,
and leaves the session in place.
-/

namespace Steward

namespace Session

/-- Move a session into the window of the current time, whole windows at a time, and start counting
anew if that is a later one. -/
def roll (s : Session) (now window : Span) : Session :=
  let elapsed := now.since s.windowStart
  if elapsed < window then s
  else
    let windows := min (elapsed.nanos / max window.nanos 1) halfWordMax
    { s with
      windowStart := ⟨s.windowStart.nanos + window.nanos * windows⟩
      windowMessages := 0
      windowBytes := 0 }

/-- The ceiling that one more message of a size would pass, the number of messages first. -/
def rateFault? (s : Session) (policy : SessionPolicy) (size : Nat) : Option Fault :=
  let messages := s.windowMessages + 1
  let bytes := saturatingAdd s.windowBytes size
  if policy.maxMessages < messages then
    some (.limit .messages (.ofNat messages) (.ofNat policy.maxMessages))
  else if policy.maxBytes < bytes then
    some (.limit .bandwidth (.ofNat bytes) (.ofNat policy.maxBytes))
  else none

/-- A session after a message of a size. -/
def count (s : Session) (size : Nat) : Session :=
  { s with
    windowMessages := s.windowMessages + 1
    windowBytes := saturatingAdd s.windowBytes size
    totalMessages := s.totalMessages + 1
    totalBytes := saturatingAdd s.totalBytes size }

end Session

namespace Host

/-- Whether a session exists. -/
def hasSession (h : Host) (id : String) : Bool := h.sessions.contains id

/-- The number of sessions that pass a test. -/
def sessionCount (h : Host) (test : Session → Bool) : Nat := h.sessions.values.countP test

/-- Note that the transport of a session connected again. -/
def refreshSession (h : Host) (id user : String) (session : Session) : Host :=
  let connections := min (session.connections + 1) halfWordMax
  { h with
    sessions := h.sessions.insert id { session with connections, lastActivity := h.clock } }.emit
    (.sessionRefreshed id user connections)

/-- Record a new session of a user who has been registered just now or before. -/
def openSession (h : Host) (id user address : String) (first : Bool) : Host :=
  let session : Session :=
    { username := user, address, windowStart := h.now, lastActivity := h.clock }
  let opened := { h with sessions := h.sessions.insert id session }
  (if first then opened else opened.emit (.userKnown user)).emit
    (.sessionRegistered id user address opened.sessions.size)

/-- Register a session. A known session is refreshed; a new one has to fit the caps of its user and
its address, and registers its user. -/
def registerSession (h : Host) (id user address : String) : Except Fault Unit × Host :=
  match h.sessions.find? id with
  | some session => (.ok (), h.refreshSession id user session)
  | none =>
    let policy := h.policies.session
    let ofUser := h.sessionCount fun s => s.username = user
    let ofAddress := h.sessionCount fun s => s.address = address
    if policy.maxPerUser ≤ ofUser then
      (.error (.capacity ("sessions for user " ++ user) policy.maxPerUser),
        h.emit (.userCapReached id user ofUser))
    else if policy.maxPerAddress ≤ ofAddress then
      (.error (.capacity ("sessions for ip " ++ address) policy.maxPerAddress),
        h.emit (.addressCapReached id address ofAddress))
    else
      match h.registerUser user with
      | (.ok (), joined) => (.ok (), joined.openSession id user address true)
      | (.error (.alreadyRegistered _), same) => (.ok (), same.openSession id user address false)
      | (.error fault, same) => (.error fault, same.emit (.registrationRejected id user fault))

/-- Remove a session and end the owner's run; the owner is unregistered with the last session. -/
def removeSession (h : Host) (id : String) : Except Fault Unit × Host :=
  match h.sessions.find? id with
  | none => (.error (.unknownSession id), h)
  | some session =>
    let user := session.username
    let removed := { h with sessions := h.sessions.erase id }
    let (stopped, idle) := removed.stopIfRunning user .requested
    let last := idle.sessionCount (fun s => s.username = user) = 0
    let (result, left) := if last then idle.retireUser user else (.ok (), idle)
    (result, left.emit (.sessionUnregistered id user stopped last))

/-- Unregister a session. -/
def unregisterSession (h : Host) (id : String) : Except Fault Unit × Host :=
  reportUnknown "unregister_session" id (h.removeSession id)

/-- Count a message of a session, unless it would pass a rate ceiling: the owner of the session. -/
def countMessage (h : Host) (id : String) (size : Nat) : Except Fault String × Host :=
  match h.sessions.find? id with
  | none => (.error (.unknownSession id), h)
  | some session =>
    let policy := h.policies.session
    let current := { session.roll h.now policy.window with lastActivity := h.clock }
    match current.rateFault? policy size with
    | some fault => (.error fault, { h with sessions := h.sessions.insert id current })
    | none =>
      (.ok current.username, { h with sessions := h.sessions.insert id (current.count size) })

/-- Check a message of a session before it is processed; an accepted one is a sign of life of the
session's owner. -/
def checkSession (h : Host) (id : String) (size : Nat) : Except Fault Unit × Host :=
  reportUnknown "check_session_limits" id <|
    match h.countMessage id size with
    | (.ok user, counted) =>
      match counted.touch user with
      | (.ok (), touched) => (.ok (), touched)
      | (.error fault, touched) => (.ok (), touched.emit (.ownerMissing id fault))
    | (.error fault, rolled) =>
      (.error fault, if fault.isLimitExceeded then rolled.emit (.rateExceeded id fault) else rolled)

end Host

end Steward
