import Steward.Proofs.Histories
import Steward.Proofs.WindowRolls

/-!
# Rate windows

A session keeps the start of one window and two counters. They amount to cutting the time since the
session was opened into windows of equal length and counting the accepted messages of each window
apart, however long no message comes and whatever else happens in between.
-/

namespace Steward

/-- A message that was accepted. -/
structure Message where
  time : Span
  size : Nat

/-- Whether a point of time lies in a window, counted from the opening of a session. -/
def inWindow (created window : Span) (k : Nat) (time : Span) : Bool :=
  created.nanos + window.nanos * k ≤ time.nanos &&
    time.nanos < created.nanos + window.nanos * (k + 1)

/-- The messages of a window. -/
def messagesIn (created window : Span) (k : Nat) (messages : List Message) : List Message :=
  messages.filter fun message => inWindow created window k message.time

/-- The bytes of some messages. -/
def bytesOf (messages : List Message) : Nat := total (messages.map Message.size)

section Windows

variable {created window time : Span} {j k : Nat} {messages : List Message} {message : Message}

/-- A window begins where the one before it ends. -/
theorem inWindow_iff : inWindow created window k time = true ↔
    created.nanos + window.nanos * k ≤ time.nanos ∧
      time.nanos < created.nanos + window.nanos * k + window.nanos := by
  rw [inWindow, Bool.and_eq_true, decide_eq_true_iff, decide_eq_true_iff, Nat.mul_succ]
  omega

/-- Windows do not overlap. -/
theorem inWindow_unique (hj : inWindow created window j time = true)
    (hk : inWindow created window k time = true) : j = k := by
  rw [inWindow_iff] at hj hk
  rcases Nat.lt_trichotomy j k with hlt | heq | hgt
  · have hle : window.nanos * (j + 1) ≤ window.nanos * k := Nat.mul_le_mul_left _ hlt
    rw [Nat.mul_succ] at hle
    omega
  · exact heq
  · have hle : window.nanos * (k + 1) ≤ window.nanos * j := Nat.mul_le_mul_left _ hgt
    rw [Nat.mul_succ] at hle
    omega

/-- A window that is ahead of all messages is empty. -/
theorem messagesIn_eq_nil
    (hpast : ∀ message ∈ messages, message.time.nanos < created.nanos + window.nanos * k) :
    messagesIn created window k messages = [] := by
  refine List.filter_eq_nil_iff.2 fun message hmem hwithin => ?_
  have hbefore := hpast message hmem
  rw [inWindow_iff] at hwithin
  omega

/-- One more message of a window. -/
theorem messagesIn_append (hwithin : inWindow created window k message.time = true) :
    messagesIn created window k (messages ++ [message]) =
      messagesIn created window k messages ++ [message] := by
  rw [messagesIn, List.filter_append, messagesIn]
  simp [hwithin]

/-- One more message of another window. -/
theorem messagesIn_append_of_ne (hwithin : inWindow created window k message.time = true)
    (hne : j ≠ k) :
    messagesIn created window j (messages ++ [message]) = messagesIn created window j messages := by
  have houtside : inWindow created window j message.time = false :=
    Bool.eq_false_iff.2 fun hj => hne (inWindow_unique hj hwithin)
  rw [messagesIn, List.filter_append, messagesIn]
  simp [houtside]

/-- One more message adds its bytes. -/
theorem bytesOf_append (messages : List Message) (message : Message) :
    bytesOf (messages ++ [message]) = bytesOf messages + message.size := by
  induction messages with
  | nil => simp [bytesOf, total]
  | cons head rest ih =>
    simp only [bytesOf, List.cons_append, List.map_cons, total] at ih ⊢
    omega

end Windows

/-! ## What a session keeps of its messages -/

/-- What a session keeps of its messages: its window and three counters. -/
def Session.meter (s : Session) : Span × Nat × Nat × Nat :=
  (s.windowStart, s.windowMessages, s.windowBytes, s.totalMessages)

/-- A session that counts in one window what was accepted in it, while no window passes a
ceiling. -/
structure Session.Meters (policy : SessionPolicy) (created now : Span) (accepted : List Message)
    (k : Nat) (s : Session) : Prop where
  begins : s.windowStart.nanos = created.nanos + policy.window.nanos * k
  begun : s.windowStart.nanos ≤ now.nanos
  past : ∀ message ∈ accepted,
    message.time.nanos < created.nanos + policy.window.nanos * (k + 1)
  messages : s.windowMessages = (messagesIn created policy.window k accepted).length
  bytes : s.windowBytes = bytesOf (messagesIn created policy.window k accepted)
  fewMessages : ∀ j, (messagesIn created policy.window j accepted).length ≤ policy.maxMessages
  fewBytes : ∀ j, bytesOf (messagesIn created policy.window j accepted) ≤ policy.maxBytes
  all : s.totalMessages = accepted.length

namespace Session.Meters

variable {policy : SessionPolicy} {created now : Span} {accepted : List Message} {k : Nat}
  {s : Session}

/-- Only the meter matters, and time may pass. -/
theorem congr {later : Span} {t : Session} (hm : s.Meters policy created now accepted k)
    (hlater : now.nanos ≤ later.nanos) (hmeter : t.meter = s.meter) :
    t.Meters policy created later accepted k := by
  simp only [Session.meter, Prod.mk.injEq] at hmeter
  obtain ⟨hstart, hmessages, hbytes, htotal⟩ := hmeter
  constructor
  · rw [hstart, hm.begins]
  · rw [hstart]
    exact hm.begun.trans hlater
  · exact hm.past
  · rw [hmessages, hm.messages]
  · rw [hbytes, hm.bytes]
  · exact hm.fewMessages
  · exact hm.fewBytes
  · rw [htotal, hm.all]

/-- A session may be moved to the start of a later window, in which nothing was accepted yet. -/
theorem skip {k' : Nat} (hm : s.Meters policy created now accepted k) (hlater : k < k')
    (hbegun : created.nanos + policy.window.nanos * k' ≤ now.nanos) :
    Session.Meters policy created now accepted k'
      { s with
        windowStart := ⟨created.nanos + policy.window.nanos * k'⟩
        windowMessages := 0
        windowBytes := 0 } := by
  have hle : policy.window.nanos * (k + 1) ≤ policy.window.nanos * k' :=
    Nat.mul_le_mul_left _ hlater
  have hbefore : ∀ message ∈ accepted,
      message.time.nanos < created.nanos + policy.window.nanos * k' := by
    intro message hmem
    have hpast := hm.past message hmem
    omega
  have hempty := messagesIn_eq_nil hbefore
  constructor
  · rfl
  · exact hbegun
  · intro message hmem
    have hpast := hbefore message hmem
    rw [Nat.mul_succ]
    omega
  · rw [hempty]
    rfl
  · rw [hempty]
    rfl
  · exact hm.fewMessages
  · exact hm.fewBytes
  · exact hm.all

/-- Rolling moves a session into the window of the present. -/
theorem roll (hwindow : 0 < policy.window.nanos)
    (hm : s.Meters policy created now accepted k)
    (hrange : now.nanos - created.nanos < (halfWordMax + 1) * policy.window.nanos) :
    ∃ k', (s.roll now policy.window).Meters policy created now accepted k' ∧
      inWindow created policy.window k' now = true := by
  have hbegins := hm.begins
  have hbegun := hm.begun
  -- The windows that have passed are few enough for the start to be moved by all of them.
  have hfew : (now.since s.windowStart).nanos / policy.window.nanos ≤ halfWordMax := by
    have helapsed : (now.since s.windowStart).nanos ≤ now.nanos - created.nanos :=
      Nat.sub_le_sub_left (by omega) _
    exact Nat.lt_succ_iff.1 ((Nat.div_lt_iff_lt_mul hwindow).2 (lt_of_le_of_lt helapsed hrange))
  have hreach := s.windowsPassed_mul_le now policy.window
  have hwithin := lt_windowStart_roll hwindow hfew
  rw [roll_eq_moved hwindow] at hwithin ⊢
  rw [windowStart_moved] at hwithin
  generalize s.windowsPassed now policy.window = passed at hreach hwithin ⊢
  have hstart : created.nanos + policy.window.nanos * (k + passed) =
      s.windowStart.nanos + policy.window.nanos * passed := by
    rw [hbegins, Nat.mul_add]
    omega
  refine ⟨k + passed, ?_, inWindow_iff.2 (by omega)⟩
  unfold moved
  split_ifs with hnone
  · rwa [hnone, Nat.add_zero]
  · have hlater : k < k + passed := by omega
    have hskipped := hm.skip hlater (by omega)
    rwa [hstart] at hskipped

/-- What a session says about one more message is about the messages of its window. -/
theorem rateFault?_eq (hm : s.Meters policy created now accepted k)
    (hbytes : policy.maxBytes < wordMax) (size : Nat) :
    let within := messagesIn created policy.window k accepted
    s.rateFault? policy size =
      if policy.maxMessages < within.length + 1 then
        some (.limit .messages (.ofNat (within.length + 1)) (.ofNat policy.maxMessages))
      else if policy.maxBytes < bytesOf within + size then
        some (.limit .bandwidth (.ofNat (saturatingAdd (bytesOf within) size))
          (.ofNat policy.maxBytes))
      else none := by
  have hsaturated (bytes : Nat) : policy.maxBytes < saturatingAdd bytes size ↔
      policy.maxBytes < bytes + size := by
    rw [saturatingAdd]
    omega
  simp only [Session.rateFault?, hm.messages, hm.bytes, hsaturated]

/-- A message that fits is counted in the present window. -/
theorem count {size : Nat} (hm : s.Meters policy created now accepted k)
    (hbytes : policy.maxBytes < wordMax) (hwithin : inWindow created policy.window k now = true)
    (hfits : s.rateFault? policy size = none) :
    (s.count size).Meters policy created now (accepted ++ [⟨now, size⟩]) k := by
  have hverdict := hm.rateFault?_eq hbytes size
  rw [hfits] at hverdict
  dsimp only at hverdict
  split_ifs at hverdict with hmany hmuch
  have happend : messagesIn created policy.window k (accepted ++ [⟨now, size⟩]) =
      messagesIn created policy.window k accepted ++ [⟨now, size⟩] := messagesIn_append hwithin
  constructor
  · exact hm.begins
  · exact hm.begun
  · intro message hmem
    rcases List.mem_append.1 hmem with hold | hnew
    · exact hm.past message hold
    · rw [List.mem_singleton] at hnew
      subst hnew
      have hnow := inWindow_iff.1 hwithin
      rw [Nat.mul_succ]
      dsimp only
      omega
  · rw [happend, List.length_append, ← hm.messages]
    rfl
  · rw [happend, bytesOf_append, ← hm.bytes]
    have hfit := hm.bytes
    simp only [Session.count, saturatingAdd]
    omega
  · intro j
    by_cases hj : j = k
    · rw [hj, happend, List.length_append, List.length_singleton]
      omega
    · rw [messagesIn_append_of_ne hwithin hj]
      exact hm.fewMessages j
  · intro j
    by_cases hj : j = k
    · rw [hj, happend, bytesOf_append]
      dsimp only
      omega
    · rw [messagesIn_append_of_ne hwithin hj]
      exact hm.fewBytes j
  · have htotal := hm.all
    simp only [Session.count, List.length_append, List.length_singleton]
    omega

end Session.Meters

/-- A session in the window of the present, when a message comes. -/
def Session.present (s : Session) (h : Host) : Session :=
  { s.roll h.now h.policies.session.window with lastActivity := h.clock }

namespace Host

/-! ## Checks of messages -/

section Checking

variable {h : Host} {id : String} {size : Nat}

/-- What a check answers and does to the sessions is what counting the message does. -/
theorem checkSession_eq (h : Host) (id : String) (size : Nat) :
    (h.checkSession id size).1 = (h.countMessage id size).1.map (fun _ => ()) ∧
      (h.checkSession id size).2.sessions = (h.countMessage id size).2.sessions ∧
      (h.checkSession id size).2.policies = (h.countMessage id size).2.policies ∧
      (h.checkSession id size).2.clock = (h.countMessage id size).2.clock := by
  unfold checkSession
  rcases h.countMessage id size with ⟨fault | user, counted⟩
  · have hreport (g : Host) (hquiet : Quiet counted g) :
        let outcome :=
          reportUnknown "check_session_limits" id ((.error fault : Except Fault Unit), g)
        outcome.1 = .error fault ∧ outcome.2.sessions = counted.sessions ∧
          outcome.2.policies = counted.policies ∧ outcome.2.clock = counted.clock := by
      have hboth := hquiet.trans (quiet_reportUnknown "check_session_limits" id
        ((.error fault : Except Fault Unit), g))
      exact ⟨rfl, hboth.sessions, hboth.policies, hboth.clock⟩
    dsimp only
    split_ifs
    · exact hreport _ (quiet_emit _ _)
    · exact hreport _ (.refl _)
  · obtain ⟨users, journal, htouch⟩ := counted.touch_eq user
    dsimp only
    rcases hsign : counted.touch user with ⟨fault | value, touched⟩ <;>
      rw [hsign] at htouch <;> subst htouch
    · exact ⟨rfl, rfl, rfl, rfl⟩
    · exact ⟨rfl, rfl, rfl, rfl⟩

variable {session : Session}

/-- A message of a known session is counted in the present window, unless it would pass a
ceiling. -/
theorem countMessage_of_find? (hfound : h.sessions.find? id = some session) :
    h.countMessage id size =
      match (session.present h).rateFault? h.policies.session size with
      | some fault =>
        (.error fault, { h with sessions := h.sessions.insert id (session.present h) })
      | none => (.ok (session.present h).username,
          { h with sessions := h.sessions.insert id ((session.present h).count size) }) := by
  unfold countMessage
  rw [hfound]
  rfl

end Checking

/-- The message of a session that an action brings, if it is accepted. -/
def acceptedBy (id : String) (h : Host) : Action → List Message
  | .checkSession session size =>
    if session = id ∧ (h.checkSession session size).1 = .ok () then [⟨h.now, size⟩] else []
  | _ => []

/-- The messages of a session that were accepted in the course of some actions. -/
def accepted (id : String) (h : Host) : List Action → List Message
  | [] => []
  | action :: rest => h.acceptedBy id action ++ (h.perform action).accepted id rest

/-- Only a check of a session brings it a message. -/
theorem acceptedBy_eq_nil {id : String} {action : Action} (h : Host)
    (haction : ∀ size, action ≠ .checkSession id size) : h.acceptedBy id action = [] := by
  cases action with
  | checkSession session size =>
    refine if_neg fun hboth => ?_
    rw [hboth.1] at haction
    exact haction size rfl
  | _ => rfl

/-- A host in which a session, if it is there, meters the messages that were accepted. -/
structure IsMetered (policy : SessionPolicy) (created : Span) (accepted : List Message)
    (id : String) (h : Host) : Prop where
  policy_eq : h.policies.session = policy
  meters : ∀ session, h.sessions.find? id = some session →
    ∃ k, session.Meters policy created h.now accepted k

/-- A new session counts nothing yet, in a window that begins now. -/
theorem registerSession_of_new {h : Host} {id user address : String}
    (hnew : h.hasSession id = false) (hsuccess : (h.registerSession id user address).1 = .ok ()) :
    (h.registerSession id user address).2.sessions.find? id =
      some { username := user, address, windowStart := h.now, lastActivity := h.clock } := by
  have hfound : h.sessions.find? id = none := Table.contains_eq_false.1 hnew
  have hopen (g : Host) (hclock : g.clock = h.clock) (first : Bool) :
      (g.openSession id user address first).sessions.find? id =
        some { username := user, address, windowStart := h.now, lastActivity := h.clock } := by
    rw [now, ← hclock]
    cases first <;> exact Table.find?_insert_self ..
  have hjoin : Changes (· ≠ .ticked) h (h.registerUser user).2 := changes_registerUser (by simp)
  have hclock := hjoin.clock_eq (by simp)
  unfold registerSession at hsuccess ⊢
  rw [hfound] at hsuccess ⊢
  dsimp only at hsuccess ⊢
  split_ifs at hsuccess ⊢
  rcases hregister : h.registerUser user with ⟨result, joined⟩
  rw [hregister] at hsuccess hclock
  split at hsuccess
  · next heq =>
    cases heq
    exact hopen joined hclock true
  · next heq =>
    cases heq
    exact hopen joined hclock false
  · cases hsuccess

section Metering

variable {policy : SessionPolicy} {created : Span} {messages : List Message} {id : String}
  {h g : Host}

/-- Where a session is neither opened nor checked, its meter stays. -/
theorem Change.meter_eq {effect : Effect} (hchange : Change effect h g)
    (hopened : effect ≠ .opened id) (hchecked : effect ≠ .checked id) {session : Session}
    (hfound : g.sessions.find? id = some session) :
    ∃ old, h.sessions.find? id = some old ∧ session.meter = old.meter := by
  have hsame (heq : g.sessions = h.sessions) :
      ∃ old, h.sessions.find? id = some old ∧ session.meter = old.meter :=
    ⟨session, heq ▸ hfound, rfl⟩
  cases hchange with
  | @opened _ other =>
    have hother : id ≠ other := fun heq => hopened (heq ▸ rfl)
    rw [Table.find?_insert_of_ne _ _ hother] at hfound
    exact ⟨session, hfound, rfl⟩
  | @checked _ other =>
    have hother : id ≠ other := fun heq => hchecked (heq ▸ rfl)
    rw [Table.find?_insert_of_ne _ _ hother] at hfound
    exact ⟨session, hfound, rfl⟩
  | @refreshed _ other old hknown =>
    rw [Table.find?_insert] at hfound
    split_ifs at hfound with hother
    · cases hfound
      exact ⟨old, hother ▸ hknown, rfl⟩
    · exact ⟨session, hfound, rfl⟩
  | closed =>
    rw [Table.find?_erase] at hfound
    split_ifs at hfound
    exact ⟨session, hfound, rfl⟩
  | released => exact hsame (by simp only [releaseWorker]; split_ifs <;> rfl)
  | left => exact hsame (by simp [removeUser, reshare])
  | ended => exact hsame (by simp)
  | cancelled => exact hsame (by simp)
  | _ => exact hsame rfl

/-- The clock of a host as a span grows with the clock. -/
theorem now_le (hclock : h.clock ≤ g.clock) : h.now.nanos ≤ g.now.nanos :=
  Nat.mul_le_mul_left _ hclock

namespace IsMetered

/-- Changes that neither open nor check a session keep it metered. -/
theorem changes {may : Effect → Prop} (hm : h.IsMetered policy created messages id)
    (hchanges : Changes may h g) (hopened : ¬may (.opened id)) (hchecked : ¬may (.checked id)) :
    g.IsMetered policy created messages id := by
  refine hchanges.preserves (p := IsMetered policy created messages id) ?_ ?_ hm
  · intro a b hquiet ha
    refine ⟨by rw [hquiet.policies, ha.policy_eq], fun session hfound => ?_⟩
    rw [hquiet.sessions] at hfound
    obtain ⟨k, hk⟩ := ha.meters session hfound
    exact ⟨k, hk.congr (now_le hquiet.clock.ge) rfl⟩
  · intro effect a b heffect hchange ha
    refine ⟨by rw [hchange.sameBuild.policies, ha.policy_eq], fun session hfound => ?_⟩
    have hopens : effect ≠ .opened id := fun heq => hopened (heq ▸ heffect)
    have hchecks : effect ≠ .checked id := fun heq => hchecked (heq ▸ heffect)
    obtain ⟨old, hold, hmeter⟩ := hchange.meter_eq hopens hchecks hfound
    obtain ⟨k, hk⟩ := ha.meters old hold
    have hlater := (Changes.single heffect hchange).clock_le
    exact ⟨k, hk.congr (now_le hlater) hmeter⟩

/-- A host is metered again when the session that was put in place of the old one meters. -/
theorem replaced {k : Nat} {updated : Session} {after : List Message}
    (hm : h.IsMetered policy created messages id)
    (hmeters : updated.Meters policy created h.now after k)
    (hsessions : g.sessions = h.sessions.insert id updated) (hpolicies : g.policies = h.policies)
    (hclock : g.clock = h.clock) : g.IsMetered policy created after id := by
  refine ⟨by rw [hpolicies, hm.policy_eq], fun session hfound => ?_⟩
  rw [hsessions, Table.find?_insert_self] at hfound
  cases hfound
  exact ⟨k, hmeters.congr (now_le hclock.ge) rfl⟩

/-- A check is decided by the window of the present, and an accepted message is metered there. -/
theorem check (hm : h.IsMetered policy created messages id) (hknown : h.hasSession id = true)
    (hwindow : 0 < policy.window.nanos) (hbytes : policy.maxBytes < wordMax)
    (hrange : h.now.nanos - created.nanos < (halfWordMax + 1) * policy.window.nanos) (size : Nat) :
    ∃ k, inWindow created policy.window k h.now = true ∧
      let within := messagesIn created policy.window k messages
      ((h.checkSession id size).1 =
        if policy.maxMessages < within.length + 1 then
          .error (.limit .messages (.ofNat (within.length + 1)) (.ofNat policy.maxMessages))
        else if policy.maxBytes < bytesOf within + size then
          .error (.limit .bandwidth (.ofNat (saturatingAdd (bytesOf within) size))
            (.ofNat policy.maxBytes))
        else .ok ()) ∧
      (h.checkSession id size).2.IsMetered policy created
        (messages ++ h.acceptedBy id (.checkSession id size)) id := by
  obtain ⟨session, hfound⟩ := Table.contains_iff.1 hknown
  obtain ⟨_, hold⟩ := hm.meters session hfound
  obtain ⟨k, hrolled, hwithin⟩ := hold.roll hwindow hrange
  have hmeters : (session.present h).Meters policy created h.now messages k := by
    rw [Session.present, hm.policy_eq]
    exact hrolled.congr le_rfl rfl
  obtain ⟨hanswer, hsessions, hpolicies, hclock⟩ := h.checkSession_eq id size
  rw [countMessage_of_find? hfound, hm.policy_eq] at hanswer hsessions hpolicies hclock
  have hverdict := hmeters.rateFault?_eq hbytes size
  refine ⟨k, hwithin, ?_⟩
  cases hfault : (session.present h).rateFault? policy size with
  | some fault =>
    rw [hfault] at hanswer hsessions hpolicies hclock hverdict
    have hrefused : (h.checkSession id size).1 = .error fault := hanswer
    have hnothing : h.acceptedBy id (.checkSession id size) = [] := by
      simp [acceptedBy, hrefused]
    rw [hrefused, hnothing, List.append_nil]
    constructor
    · dsimp only at hverdict ⊢
      split_ifs at hverdict ⊢ <;> cases hverdict <;> rfl
    · exact hm.replaced hmeters hsessions hpolicies hclock
  | none =>
    have hcounted := hmeters.count hbytes hwithin hfault
    rw [hfault] at hanswer hsessions hpolicies hclock hverdict
    have haccepted : (h.checkSession id size).1 = .ok () := hanswer
    have hmessage : h.acceptedBy id (.checkSession id size) = [⟨h.now, size⟩] := by
      simp [acceptedBy, haccepted]
    rw [haccepted, hmessage]
    constructor
    · dsimp only at hverdict ⊢
      split_ifs at hverdict ⊢
      rfl
    · exact hm.replaced hcounted hsessions hpolicies hclock

/-- Whatever is done but a check of the session leaves it metered, as long as it is there. -/
theorem perform {action : Action} (hm : h.IsMetered policy created messages id)
    (hknown : h.hasSession id = true) (hserved : h.served ≤ h.clock)
    (haction : ∀ size, action ≠ .checkSession id size) :
    (h.perform action).IsMetered policy created messages id := by
  have hchecked : ¬action.causes (.checked id) := fun ⟨size, heq⟩ => haction size heq
  by_cases hopens : action.causes (.opened id)
  · -- A session that is there is not opened but refreshed.
    obtain ⟨user, address, rfl⟩ := hopens
    obtain ⟨session, hfound⟩ := Table.contains_iff.1 hknown
    have hrefreshed : Changes (· = .refreshed id) h (h.refreshSession id user session) :=
      changes_refreshSession (by rfl) hfound user
    have hsame : h.perform (.registerSession id user address) =
        h.refreshSession id user session := by
      simp only [Host.perform, registerSession, hfound]
    rw [hsame]
    exact hm.changes hrefreshed (by simp) (by simp)
  · exact hm.changes (h.perform_changes action hserved) hopens hchecked

/-- Over any history in which the session stays, it meters what is accepted. -/
theorem performAll {actions : List Action} (hm : h.IsMetered policy created messages id)
    (hkept : Throughout (fun g => g.hasSession id = true) h actions) (hserved : h.served ≤ h.clock)
    (hwindow : 0 < policy.window.nanos) (hbytes : policy.maxBytes < wordMax)
    (hrange : (h.performAll actions).now.nanos - created.nanos <
      (halfWordMax + 1) * policy.window.nanos) :
    (h.performAll actions).IsMetered policy created (messages ++ h.accepted id actions) id ∧
      (h.performAll actions).hasSession id = true := by
  induction actions generalizing h messages with
  | nil =>
    rw [accepted, List.append_nil]
    exact ⟨hm, hkept⟩
  | cons action rest ih =>
    have hstep := h.perform_changes action hserved
    have hlater := (h.performAll_changes (action :: rest) hserved).clock_le
    have hnow : h.now.nanos - created.nanos < (halfWordMax + 1) * policy.window.nanos :=
      lt_of_le_of_lt (Nat.sub_le_sub_right (now_le hlater) _) hrange
    have hnext : (h.perform action).IsMetered policy created
        (messages ++ h.acceptedBy id action) id := by
      by_cases hchecks : ∃ size, action = .checkSession id size
      · obtain ⟨size, rfl⟩ := hchecks
        obtain ⟨_, _, -, hmetered⟩ := hm.check hkept.1 hwindow hbytes hnow size
        exact hmetered
      · have hother : ∀ size, action ≠ .checkSession id size := fun size heq => hchecks ⟨size, heq⟩
        rw [h.acceptedBy_eq_nil hother, List.append_nil]
        exact hm.perform hkept.1 hserved hother
    have hrest := ih hnext hkept.2 (hstep.served_le hserved) hrange
    rw [List.append_assoc] at hrest
    exact hrest

/-- A session that was just opened has accepted nothing. -/
theorem opened {user address : String} (hnew : h.hasSession id = false)
    (hsuccess : (h.registerSession id user address).1 = .ok ()) :
    (h.registerSession id user address).2.IsMetered h.policies.session h.now [] id := by
  have hchanges : Changes (· ≠ .ticked) h (h.registerSession id user address).2 :=
    changes_registerSession (by simp) (by simp) (by simp) address
  have hclock := hchanges.clock_eq (by simp)
  refine ⟨by rw [hchanges.policies_eq], fun session hfound => ⟨0, ?_⟩⟩
  rw [registerSession_of_new hnew hsuccess] at hfound
  cases hfound
  constructor
  · exact (Nat.add_zero _).symm
  · exact now_le hclock.ge
  · intro message hmem
    cases hmem
  · rfl
  · rfl
  · exact fun _ => Nat.zero_le _
  · exact fun _ => Nat.zero_le _
  · rfl

end IsMetered

end Metering

/-! ## Windows have begun -/

/-- A host in which no session waits for its window to begin. -/
def WindowsBegun (h : Host) : Prop :=
  ∀ id session, h.sessions.find? id = some session → session.windowStart ≤ h.now

namespace WindowsBegun

variable {h g : Host}

/-- Changes other than checks leave no window in the future. -/
theorem changes {may : Effect → Prop} (hb : h.WindowsBegun) (hchanges : Changes may h g)
    (hchecked : ∀ id, ¬may (.checked id)) : g.WindowsBegun := by
  refine hchanges.preserves (p := WindowsBegun) ?_ ?_ hb
  · intro a b hquiet ha id session hfound
    rw [hquiet.sessions] at hfound
    rw [now, hquiet.clock]
    exact ha id session hfound
  · intro effect a b heffect hchange ha id session hfound
    have hlater : a.now.nanos ≤ b.now.nanos := now_le (Changes.single heffect hchange).clock_le
    have hchecks : effect ≠ .checked id := fun heq => hchecked id (heq ▸ heffect)
    by_cases hopens : effect = .opened id
    · subst hopens
      cases hchange
      rw [Table.find?_insert_self] at hfound
      cases hfound
      exact hlater
    · obtain ⟨old, hold, hmeter⟩ := hchange.meter_eq hopens hchecks hfound
      have hstart : session.windowStart = old.windowStart := (Prod.mk.inj hmeter).1
      rw [hstart]
      exact (ha id old hold).trans hlater

/-- A check moves a window only up to the present. -/
theorem check (hb : h.WindowsBegun) (id : String) (size : Nat) :
    (h.checkSession id size).2.WindowsBegun := by
  obtain ⟨-, hsessions, -, hclock⟩ := h.checkSession_eq id size
  intro other session hfound
  rw [hsessions] at hfound
  rw [now, hclock]
  cases hknown : h.sessions.find? id with
  | none =>
    have hnothing : (h.countMessage id size).2 = h := by
      unfold countMessage
      rw [hknown]
    rw [hnothing] at hfound ⊢
    exact hb other session hfound
  | some old =>
    obtain ⟨updated, hstart, hcounted⟩ : ∃ updated : Session,
        updated.windowStart = (old.present h).windowStart ∧
          (h.countMessage id size).2 = { h with sessions := h.sessions.insert id updated } := by
      rw [countMessage_of_find? hknown]
      cases (old.present h).rateFault? h.policies.session size with
      | some fault => exact ⟨old.present h, rfl, rfl⟩
      | none => exact ⟨(old.present h).count size, rfl, rfl⟩
    rw [hcounted] at hfound ⊢
    rw [Table.find?_insert] at hfound
    split_ifs at hfound
    · cases hfound
      rw [hstart]
      exact Session.windowStart_roll_le (hb id old hknown)
    · exact hb other session hfound

/-- Whatever is done, no window is left in the future. -/
theorem performAll {actions : List Action} (hb : h.WindowsBegun) (hserved : h.served ≤ h.clock) :
    (h.performAll actions).WindowsBegun := by
  induction actions generalizing h with
  | nil => exact hb
  | cons action rest ih =>
    have hstep := h.perform_changes action hserved
    refine ih ?_ (hstep.served_le hserved)
    by_cases hchecks : ∃ id size, action = .checkSession id size
    · obtain ⟨id, size, rfl⟩ := hchecks
      exact hb.check id size
    · refine hb.changes hstep ?_
      rintro id ⟨size, heq⟩
      exact hchecks ⟨id, size, heq⟩

end WindowsBegun

/-- In a reachable host no session waits for its window to begin. -/
theorem IsReachable.windowsBegun {h : Host} (hreach : h.IsReachable) : h.WindowsBegun := by
  obtain ⟨policies, sampler, timers, start, actions, hbuilt, rfl⟩ := hreach
  have hnone : start.WindowsBegun := by
    intro id session hfound
    rw [hbuilt.quiet.sessions] at hfound
    cases hfound
  exact hnone.performAll (hbuilt.quiet.served le_rfl)

/-- As long as words and the clock hold the present, they hold every roll of a session. -/
theorem IsReachable.roll_in_words {h : Host} (hreach : h.IsReachable)
    (hwords : h.now.seconds ≤ wordMax) (hclock : h.now < h.clockEnd) {id : String}
    {session : Session} (hfound : h.sessions.find? id = some session) :
    session.rollInWords? h.now h.policies.session.window h.clockEnd =
      some (session.roll h.now h.policies.session.window) :=
  Session.rollInWords?_eq (hreach.windowsBegun id session hfound) hwords hclock

/-! ## Rate ceilings -/

/-- Rate ceilings hold in windows of equal length that begin where the session began. A message is
accepted exactly if it fits both ceilings together with what was accepted before in its window;
refused messages use up nothing. -/
theorem rate_windows_exact {h₀ : Host} (hreach : h₀.IsReachable) (id user address : String)
    (hnew : h₀.hasSession id = false) (hsuccess : (h₀.registerSession id user address).1 = .ok ())
    (actions : List Action)
    (hkept : Throughout (fun g => g.hasSession id = true) (h₀.registerSession id user address).2
      actions)
    (hwindow : 0 < h₀.policies.session.window.nanos)
    (hbytes : h₀.policies.session.maxBytes < wordMax)
    (hrange : ((h₀.registerSession id user address).2.performAll actions).now.nanos -
      h₀.now.nanos < (halfWordMax + 1) * h₀.policies.session.window.nanos) :
    let policy := h₀.policies.session
    let opened := (h₀.registerSession id user address).2
    let h := opened.performAll actions
    let accepted := opened.accepted id actions
    (∃ k, inWindow h₀.now policy.window k h.now = true ∧
      let within := messagesIn h₀.now policy.window k accepted
      ∀ size, (h.checkSession id size).1 =
        if policy.maxMessages < within.length + 1 then
          .error (.limit .messages (.ofNat (within.length + 1)) (.ofNat policy.maxMessages))
        else if policy.maxBytes < bytesOf within + size then
          .error (.limit .bandwidth (.ofNat (saturatingAdd (bytesOf within) size))
            (.ofNat policy.maxBytes))
        else .ok ()) ∧
      (∀ k, (messagesIn h₀.now policy.window k accepted).length ≤ policy.maxMessages ∧
        bytesOf (messagesIn h₀.now policy.window k accepted) ≤ policy.maxBytes) ∧
      ∃ session, h.sessions.find? id = some session ∧
        session.totalMessages = accepted.length := by
  have hopened :
      (h₀.registerSession id user address).2.IsMetered h₀.policies.session h₀.now [] id :=
    .opened hnew hsuccess
  have hserved := ((hreach.performAll [.registerSession id user address]).served_le)
  obtain ⟨hm, hknown⟩ := hopened.performAll hkept hserved hwindow hbytes hrange
  rw [List.nil_append] at hm
  obtain ⟨session, hfound⟩ := Table.contains_iff.1 hknown
  obtain ⟨k, hmeters⟩ := hm.meters session hfound
  refine ⟨?_, fun j => ⟨hmeters.fewMessages j, hmeters.fewBytes j⟩, session, hfound, hmeters.all⟩
  obtain ⟨k, hwithin, -, -⟩ := hm.check hknown hwindow hbytes hrange 0
  refine ⟨k, hwithin, fun size => ?_⟩
  obtain ⟨j, hpresent, hanswer, -⟩ := hm.check hknown hwindow hbytes hrange size
  rw [inWindow_unique hwithin hpresent]
  exact hanswer

/-- One message in a first window, and one that is too long in the next. -/
theorem rate_windows_of_two_checks :
    ∃ start, IsBuilt {} ⟨⟨100, 0, 2048, 0⟩, none⟩ true start ∧
      let opened := (start.registerSession "desk" "ana" "10.0.0.1").2
      let actions : List Action :=
        [.checkSession "desk" 100, .advance 60000, .checkSession "desk" 20000]
      let accepted := opened.accepted "desk" actions
      (∀ k, bytesOf (messagesIn start.now (.ofSeconds 60) k accepted) ≤ 10240) ∧
        ∃ session, (opened.performAll actions).sessions.find? "desk" = some session ∧
          session.totalMessages = accepted.length := by
  refine ⟨_, .of_build rfl, ?_⟩
  have hbuilt : IsBuilt {} ⟨⟨100, 0, 2048, 0⟩, none⟩ true _ := .of_build rfl
  have hreach : IsReachable _ := ⟨_, _, _, _, [], hbuilt, rfl⟩
  obtain ⟨-, hceilings, hall⟩ := rate_windows_exact hreach "desk" "ana" "10.0.0.1" rfl rfl
    [.checkSession "desk" 100, .advance 60000, .checkSession "desk" 20000]
    ⟨rfl, rfl, rfl, rfl⟩ (by decide) (by decide) (by decide)
  exact ⟨fun k => (hceilings k).2, hall⟩

end Host

end Steward
