import Steward.Proofs.SessionOwners

/-!
# The journal as a ledger

Who reads the journal line by line can keep a ledger of the users, sessions and runs that are there:
some lines add an entry, others strike one out, and all the rest are notes. A ledger takes no line
that adds what is there already or strikes out what is not there. What happens to a host is told by
events when reading them leads from the ledger of the host before to that of the host after.
-/

namespace Steward

namespace Table

variable {α : Type}

/-- A table with a new entry, unless the name is taken. -/
def add? (t : Table α) (name : String) (value : α) : Option (Table α) :=
  if t.contains name then none else some (t.insert name value)

/-- A table without one of its entries, unless the name is not there. -/
def strike? (t : Table α) (name : String) : Option (Table α) :=
  if t.contains name then some (t.erase name) else none

/-- A name that is not there can be added. -/
theorem add?_of_find? {t : Table α} {name : String} (hnew : t.find? name = none) (value : α) :
    t.add? name value = some (t.insert name value) := by
  simp [add?, contains_eq_false.2 hnew]

/-- What is added was not there. -/
theorem of_add? {t u : Table α} {name : String} {value : α} (hadd : t.add? name value = some u) :
    t.find? name = none ∧ u = t.insert name value := by
  unfold add? at hadd
  split_ifs at hadd with hknown
  exact ⟨contains_eq_false.1 (Bool.eq_false_iff.2 hknown), (Option.some.inj hadd).symm⟩

/-- What is struck out was there. -/
theorem of_strike? {t u : Table α} {name : String} (hstrike : t.strike? name = some u) :
    (∃ value, t.find? name = some value) ∧ u = t.erase name := by
  unfold strike? at hstrike
  split_ifs at hstrike with hknown
  exact ⟨contains_iff.1 hknown, (Option.some.inj hstrike).symm⟩

/-- A name that is there can be struck out. -/
theorem strike?_of_find? {t : Table α} {name : String} {value : α}
    (hfound : t.find? name = some value) : t.strike? name = some (t.erase name) := by
  simp [strike?, contains_iff.2 ⟨value, hfound⟩]

end Table

/-- What a reader of the journal knows to be there. -/
structure Ledger where
  users : Table Unit
  /-- The owner and the address of each session. -/
  sessions : Table (String × String)
  /-- The program that each user runs. -/
  runs : Table String

namespace Ledger

/-- The ledger without entries. -/
def empty : Ledger := ⟨.empty, .empty, .empty⟩

/-- A ledger after a line of the journal, by the message of the line and the texts that it names,
unless the line contradicts the ledger. -/
def read (l : Ledger) (message : String) (fields : List (String × Datum)) : Option Ledger :=
  let named (key : String) : Option String := (fields.lookup key).bind Datum.text?
  if message = "User registered" then do
    let users ← l.users.add? (← named "username") ()
    some { l with users }
  else if message = "User unregistered" then do
    let users ← l.users.strike? (← named "username")
    some { l with users }
  else if message = "Session registered" then do
    let owner := (← named "username", ← named "ip_address")
    let sessions ← l.sessions.add? (← named "session_id") owner
    some { l with sessions }
  else if message = "Session unregistered" then do
    let sessions ← l.sessions.strike? (← named "session_id")
    some { l with sessions }
  else if message = "Program started" then do
    let runs ← l.runs.add? (← named "username") (← named "program")
    some { l with runs }
  else if message = "Program stopped" ∨ message = "Program force-stopped" then do
    let runs ← l.runs.strike? (← named "username")
    some { l with runs }
  else some l

/-- A ledger after an event. -/
def tell (l : Ledger) (event : Event) : Option Ledger := l.read event.message event.fields

/-- A ledger after some events in order. -/
def replay (l : Ledger) : List Event → Option Ledger
  | [] => some l
  | event :: rest => (l.tell event).bind fun next => next.replay rest

variable (l : Ledger)

/-- A registration adds the user. -/
theorem tell_userRegistered (user : String) (population : Nat) :
    l.tell (.userRegistered user population) =
      (l.users.add? user ()).map fun users => { l with users } := by
  simp [tell, read, Event.message, Event.fields, Datum.text?, Option.map_eq_bind]

/-- A departure strikes the user out. -/
theorem tell_userUnregistered (user : String) (population : Nat) :
    l.tell (.userUnregistered user population) =
      (l.users.strike? user).map fun users => { l with users } := by
  simp [tell, read, Event.message, Event.fields, Datum.text?, Option.map_eq_bind]

/-- A new session is added with its owner and address. -/
theorem tell_sessionRegistered (id user address : String) (count : Nat) :
    l.tell (.sessionRegistered id user address count) =
      (l.sessions.add? id (user, address)).map fun sessions => { l with sessions } := by
  simp [tell, read, Event.message, Event.fields, List.lookup_cons, Datum.text?, Option.map_eq_bind]

/-- A session that is removed is struck out. -/
theorem tell_sessionUnregistered (id user : String) (stopped last : Bool) :
    l.tell (.sessionUnregistered id user stopped last) =
      (l.sessions.strike? id).map fun sessions => { l with sessions } := by
  simp [tell, read, Event.message, Event.fields, Datum.text?, Option.map_eq_bind]

/-- A program that is started is added as the run of its user. -/
theorem tell_programStarted (user program : String) (limit : Nat) :
    l.tell (.programStarted user program limit) =
      (l.runs.add? user program).map fun runs => { l with runs } := by
  simp [tell, read, Event.message, Event.fields, List.lookup_cons, Datum.text?, Option.map_eq_bind]

/-- A program that ended, by force or not, is struck out. -/
theorem tell_programStopped (user program : String) (reason : StopReason)
    (elapsed commands loops : Nat) :
    l.tell (.programStopped user program reason elapsed commands loops) =
      (l.runs.strike? user).map fun runs => { l with runs } := by
  cases hforced : reason.isForced <;>
    simp [tell, read, Event.message, Event.fields, Datum.text?, Option.map_eq_bind,
      hforced]

/-- A note changes no entry. -/
theorem tell_note {event : Event} (hnote : event.isNote = true) : l.tell event = some l := by
  have htitle (patrol : Patrol) (ending : String) (hending : ending ∈ [" started", " cycle failed",
      " stopped"]) (fields : List (String × Datum)) :
      l.read (patrol.title ++ ending) fields = some l := by
    simp only [List.mem_cons, List.not_mem_nil, or_false] at hending
    rcases hending with rfl | rfl | rfl <;> cases patrol <;> simp [read, Patrol.title]
  cases event with
  | userRegistered | userUnregistered | sessionRegistered | sessionUnregistered | programStarted
  | programStopped => cases hnote
  | patrolStarted patrol period => exact htitle patrol _ (by simp) _
  | patrolFailed patrol fault => exact htitle patrol _ (by simp) _
  | patrolStopped patrol => exact htitle patrol _ (by simp) _
  | _ => simp [tell, read, Event.message]

/-- Events in a row are read one row after the other. -/
theorem replay_append (events more : List Event) :
    l.replay (events ++ more) = (l.replay events).bind fun next => next.replay more := by
  induction events generalizing l with
  | nil => rfl
  | cons event rest ih =>
    simp only [List.cons_append, replay, Option.bind_assoc]
    exact congrArg (l.tell event).bind (funext fun next => ih next)

/-- Notes change no entry. -/
theorem replay_notes {events : List Event} (hnotes : ∀ event ∈ events, event.isNote = true) :
    l.replay events = some l := by
  induction events with
  | nil => rfl
  | cons event rest ih =>
    rw [replay, l.tell_note (hnotes event List.mem_cons_self), Option.bind_some]
    exact ih fun other hmem => hnotes other (List.mem_cons_of_mem _ hmem)

end Ledger

/-! ## Starts and ends -/

/-- How often some events tell that a program of a user was started. -/
def startsOf (user : String) (events : List Event) : Nat :=
  events.countP fun event =>
    match event with
    | .programStarted name .. => name = user
    | _ => false

/-- How often some events tell that a program of a user ended. -/
def stopsOf (user : String) (events : List Event) : Nat :=
  events.countP fun event =>
    match event with
    | .programStopped name .. => name = user
    | _ => false

/-- The order of events does not matter for how often a program was started. -/
theorem startsOf_reverse (user : String) (events : List Event) :
    startsOf user events.reverse = startsOf user events := List.countP_reverse

/-- The order of events does not matter for how often a program ended. -/
theorem stopsOf_reverse (user : String) (events : List Event) :
    stopsOf user events.reverse = stopsOf user events := List.countP_reverse

namespace Ledger

/-- How many programs of a user a ledger knows to run, none or one. -/
def running (l : Ledger) (user : String) : Nat := if l.runs.contains user then 1 else 0

/-- One more event is counted on top of the others. -/
theorem startsOf_cons (user : String) (event : Event) (events : List Event) :
    startsOf user (event :: events) = startsOf user [event] + startsOf user events := by
  rw [← List.singleton_append, startsOf, List.countP_append]
  rfl

/-- One more event is counted on top of the others. -/
theorem stopsOf_cons (user : String) (event : Event) (events : List Event) :
    stopsOf user (event :: events) = stopsOf user [event] + stopsOf user events := by
  rw [← List.singleton_append, stopsOf, List.countP_append]
  rfl

/-- A start adds one to the programs that run, and an end takes one away. -/
theorem running_tell {l next : Ledger} {event : Event} (htell : l.tell event = some next)
    (user : String) :
    startsOf user [event] + l.running user = stopsOf user [event] + next.running user := by
  have hother (hruns : next.runs.find? user = l.runs.find? user)
      (hstarts : startsOf user [event] = 0) (hstops : stopsOf user [event] = 0) :
      startsOf user [event] + l.running user = stopsOf user [event] + next.running user := by
    have hcontains : next.runs.contains user = l.runs.contains user := by
      rw [Table.contains, hruns, Table.contains]
    rw [hstarts, hstops, running, running, hcontains]
  cases event with
  | programStarted name program limit =>
    rw [tell_programStarted] at htell
    obtain ⟨runs, hadd, rfl⟩ := Option.map_eq_some_iff.1 htell
    obtain ⟨hnew, rfl⟩ := Table.of_add? hadd
    by_cases hname : user = name
    · subst hname
      simp [startsOf, stopsOf, running, Table.contains, hnew]
    · exact hother (Table.find?_insert_of_ne _ _ hname) (by simp [startsOf, Ne.symm hname]) rfl
  | programStopped name program reason elapsed commands loops =>
    rw [tell_programStopped] at htell
    obtain ⟨runs, hstrike, rfl⟩ := Option.map_eq_some_iff.1 htell
    obtain ⟨⟨value, hfound⟩, rfl⟩ := Table.of_strike? hstrike
    by_cases hname : user = name
    · subst hname
      simp [startsOf, stopsOf, running, Table.contains, hfound]
    · exact hother (Table.find?_erase_of_ne _ hname) rfl (by simp [stopsOf, Ne.symm hname])
  | userRegistered name population =>
    rw [tell_userRegistered] at htell
    obtain ⟨users, -, rfl⟩ := Option.map_eq_some_iff.1 htell
    exact hother rfl rfl rfl
  | userUnregistered name population =>
    rw [tell_userUnregistered] at htell
    obtain ⟨users, -, rfl⟩ := Option.map_eq_some_iff.1 htell
    exact hother rfl rfl rfl
  | sessionRegistered id name address count =>
    rw [tell_sessionRegistered] at htell
    obtain ⟨sessions, -, rfl⟩ := Option.map_eq_some_iff.1 htell
    exact hother rfl rfl rfl
  | sessionUnregistered id name stopped last =>
    rw [tell_sessionUnregistered] at htell
    obtain ⟨sessions, -, rfl⟩ := Option.map_eq_some_iff.1 htell
    exact hother rfl rfl rfl
  | _ =>
    rw [tell_note l rfl] at htell
    cases htell
    exact hother rfl rfl rfl

/-- Who is told to run something now was told so once more often than to have ended. -/
theorem running_replay {l last : Ledger} {events : List Event}
    (hreplay : l.replay events = some last) (user : String) :
    startsOf user events + l.running user = stopsOf user events + last.running user := by
  induction events generalizing l with
  | nil =>
    cases hreplay
    rfl
  | cons event rest ih =>
    obtain ⟨next, htell, hrest⟩ := Option.bind_eq_some_iff.1 hreplay
    have hfirst := running_tell htell user
    have hlater := ih hrest
    rw [startsOf_cons, stopsOf_cons]
    omega

end Ledger

end Steward
