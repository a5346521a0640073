import Steward.Proofs.FairShares
import Steward.Proofs.Histories

/-!
# Trails

On the way from one host to another only two things matter for the flags of idle users: the surveys
of monitor cycles that measured the process, and the departures of users. A trail lists them in
order, each survey with the host that it found. Whatever is done to a host leaves a trail, also when
it is done by tasks while time passes, and nothing but surveys reports that users are idle.
-/

namespace Steward

/-- What matters for the flags of idle users. -/
inductive Mark where
  /-- A monitor cycle measured the process of a host. -/
  | survey (found : Host)
  /-- A user was taken out. -/
  | departure (user : String)

/-- Whether an action neither surveys the users nor takes one out. -/
def Action.keepsFlags : Action → Bool
  | .unregisterUser _ | .retireUser _ | .unregisterSession _ => false
  | action => !action.patrols

namespace Host

/-- What was reported by monitor cycles, newest first. -/
def surveyed (h : Host) : List Event := h.journal.filter Event.isSurvey

/-- What was done between two hosts is neither a survey nor a departure. -/
structure Unmarked (h g : Host) : Prop where
  changes : Changes Effect.keepsFlags h g
  surveyed : g.surveyed = h.surveyed

/-- What was done between two hosts, with its surveys and departures in order. -/
inductive Trail (h : Host) : List Mark → Host → Prop
  | refl : Trail h [] h
  | unmarked {marks : List Mark} {k g : Host} (htrail : Trail h marks k) (hnext : Unmarked k g) :
      Trail h marks g
  | departed {marks : List Mark} {k : Host} {name : String} {user : User}
      (htrail : Trail h marks k) (hfound : k.users.find? name = some user) :
      Trail h (marks ++ [.departure name]) (k.removeUser name user)
  | surveyed {marks : List Mark} {k : Host} {sample : Sample} (htrail : Trail h marks k)
      (hsample : k.sampler.measure = .ok sample) :
      Trail h (marks ++ [.survey k]) k.monitorCycle.2

/-- Whether there is a trail from one host to another. -/
def Leads (h g : Host) : Prop := ∃ marks, Trail h marks g

variable {h g k : Host}

/-! ## Reports of other things -/

section Reports

variable (h : Host)

/-- What a monitor cycle does not report does not count among its reports. -/
theorem surveyed_emit {event : Event} (hother : event.isSurvey = false) :
    (h.emit event).surveyed = h.surveyed := by
  simp [surveyed, emit, hother]

/-- A report about an unknown name is none of a monitor cycle. -/
theorem surveyed_reportUnknown {α : Type} (operation key : String)
    (outcome : Except Fault α × Host) :
    (reportUnknown operation key outcome).2.surveyed = outcome.2.surveyed := by
  obtain ⟨fault | value, after⟩ := outcome
  · simp only [reportUnknown]
    split_ifs
    · exact after.surveyed_emit rfl
    · rfl
  · rfl

/-- Nothing is reported by a cancellation. -/
theorem surveyed_cancel (scope : Scope) : (h.cancel scope).surveyed = h.surveyed := by
  simp [surveyed]

theorem surveyed_registerUser (name : String) :
    (h.registerUser name).2.surveyed = h.surveyed := by
  unfold registerUser
  split_ifs <;> rfl

theorem surveyed_touch (name : String) : (h.touch name).2.surveyed = h.surveyed := by
  refine (surveyed_reportUnknown _ _ _).trans ?_
  cases h.user? name <;> rfl

theorem surveyed_recordUsage (name : String) (cpu : Binary64) (memory : Nat) :
    (h.recordUsage name cpu memory).2.surveyed = h.surveyed := by
  refine (surveyed_reportUnknown _ _ _).trans ?_
  cases h.user? name <;> rfl

theorem surveyed_checkUsage (name : String) : (h.checkUsage name).2.surveyed = h.surveyed := by
  refine (surveyed_reportUnknown _ _ _).trans ?_
  cases h.user? name with
  | error fault => rfl
  | ok user =>
    cases hfault : usageFault? user with
    | none => simp only [hfault]
    | some fault =>
      simp only [hfault]
      exact h.surveyed_emit rfl

theorem surveyed_acquireWorker (name : String) :
    (h.acquireWorker name).2.surveyed = h.surveyed := by
  refine (surveyed_reportUnknown _ _ _).trans ?_
  cases h.user? name with
  | error fault => rfl
  | ok user => dsimp only; split_ifs <;> rfl

theorem surveyed_releaseWorker (permit : Permit) :
    (h.releaseWorker permit).surveyed = h.surveyed := by
  unfold releaseWorker
  split <;> rfl

theorem surveyed_endRun (name : String) (run : Run) (reason : StopReason) :
    (h.endRun name run reason).surveyed = h.surveyed :=
  (surveyed_emit _ rfl).trans (surveyed_cancel _ _)

theorem surveyed_stopIfRunning (name : String) (reason : StopReason) :
    (h.stopIfRunning name reason).2.surveyed = h.surveyed := by
  unfold stopIfRunning
  cases h.run? name with
  | none => rfl
  | some run => exact h.surveyed_endRun name run reason

theorem surveyed_stop (name : String) : (h.stop name).2.surveyed = h.surveyed := by
  refine (surveyed_reportUnknown _ _ _).trans ?_
  have hstopped := h.surveyed_stopIfRunning name .requested
  rcases hstop : h.stopIfRunning name .requested with ⟨_ | _, stopped⟩ <;>
    simpa [hstop] using hstopped

theorem surveyed_launch (name : String) (run : Run) :
    (h.launch name run).2.surveyed = h.surveyed := by
  unfold launch watchDeadline
  cases h.run? name with
  | some other => rfl
  | none => dsimp only; split_ifs <;> rfl

theorem surveyed_start (name program : String) :
    (h.start name program).2.surveyed = h.surveyed := by
  unfold start
  cases h.user? name with
  | error fault => exact surveyed_reportUnknown _ _ (_, h)
  | ok owner =>
    have htouch := h.surveyed_touch name
    dsimp only
    split
    · exact htouch
    · exact (surveyed_launch _ _ _).trans htouch

theorem surveyed_check (name : String) (statement : Statement) :
    (h.check name statement).2.surveyed = h.surveyed := by
  unfold check
  cases h.run? name with
  | none => exact surveyed_reportUnknown _ _ (_, h)
  | some run =>
    simp only [countStatement]
    split_ifs
    · exact surveyed_endRun _ _ _ _
    · exact surveyed_endRun _ _ _ _
    · exact surveyed_endRun _ _ _ _
    · exact surveyed_touch _ _
    · exact surveyed_endRun _ _ _ _
    · exact surveyed_touch _ _

theorem surveyed_registerSession (id user address : String) :
    (h.registerSession id user address).2.surveyed = h.surveyed := by
  unfold registerSession
  have hjoin := h.surveyed_registerUser user
  have hopen (joined : Host) (first : Bool) :
      (joined.openSession id user address first).surveyed = joined.surveyed := by
    cases first <;> rfl
  cases h.sessions.find? id with
  | some session => rfl
  | none =>
    dsimp only
    split_ifs
    · rfl
    · rfl
    · rcases hregister : h.registerUser user with ⟨result, joined⟩
      rw [hregister] at hjoin
      split
      · next heq => cases heq; exact (hopen _ _).trans hjoin
      · next heq => cases heq; exact (hopen _ _).trans hjoin
      · next heq => cases heq; exact (surveyed_emit _ rfl).trans hjoin

theorem surveyed_checkSession (id : String) (size : Nat) :
    (h.checkSession id size).2.surveyed = h.surveyed := by
  refine (surveyed_reportUnknown _ _ _).trans ?_
  have hcount : (h.countMessage id size).2.surveyed = h.surveyed := by
    unfold countMessage
    cases h.sessions.find? id with
    | none => rfl
    | some session => dsimp only; split <;> rfl
  rcases hcheck : h.countMessage id size with ⟨fault | user, counted⟩ <;> rw [hcheck] at hcount
  · dsimp only
    split_ifs
    · exact (surveyed_emit _ rfl).trans hcount
    · exact hcount
  · have htouch := counted.surveyed_touch user
    dsimp only
    rcases hsign : counted.touch user with ⟨fault | value, touched⟩ <;> rw [hsign] at htouch
    · exact (surveyed_emit _ rfl).trans (htouch.trans hcount)
    · exact htouch.trans hcount

end Reports

/-! ## Steps without a mark -/

/-- One thing after another. -/
protected theorem Unmarked.trans (hg : Unmarked h g) (hk : Unmarked g k) : Unmarked h k :=
  ⟨hg.changes.trans hk.changes, hk.surveyed.trans hg.surveyed⟩

/-- A change that keeps the flags leaves no mark, when nothing is reported. -/
theorem Unmarked.of_change {effect : Effect} (hchange : Change effect h g)
    (hkeeps : effect.keepsFlags) (hjournal : g.journal = h.journal) : Unmarked h g where
  changes := .single hkeeps hchange
  surveyed := by rw [Host.surveyed, hjournal, Host.surveyed]

/-- A report of something else than a survey leaves no mark. -/
theorem unmarked_emit (h : Host) {event : Event} (hother : event.isSurvey = false) :
    Unmarked h (h.emit event) :=
  ⟨.quiet (h.quiet_emit event), h.surveyed_emit hother⟩

/-- A report about an unknown name leaves no mark. -/
theorem unmarked_reportUnknown {α : Type} (operation key : String)
    (outcome : Except Fault α × Host) :
    Unmarked outcome.2 (reportUnknown operation key outcome).2 :=
  ⟨.quiet (quiet_reportUnknown _ _ _), surveyed_reportUnknown _ _ _⟩

/-- What is calm leaves no mark. -/
theorem Calm.unmarked (hcalm : Calm h g) : Unmarked h g where
  changes := .quiet hcalm.toQuiet
  surveyed := by
    obtain ⟨events, hjournal, hremarks⟩ := hcalm.remarks
    have hnone : events.filter Event.isSurvey = [] := by
      refine List.filter_eq_nil_iff.2 fun event hmem => ?_
      rw [Event.isSurvey_of_isRemark (hremarks event hmem)]
      exact Bool.false_ne_true
    rw [Host.surveyed, hjournal, List.filter_append, hnone]
    rfl

/-- The end of a run leaves no mark. -/
theorem unmarked_endRun {name : String} {run : Run} (hfound : h.runs.find? name = some run)
    (reason : StopReason) : Unmarked h (h.endRun name run reason) :=
  ⟨changes_endRun trivial hfound run rfl reason, h.surveyed_endRun name run reason⟩

/-- Ending a run, if there is one, leaves no mark. -/
theorem unmarked_stopIfRunning (h : Host) (name : String) (reason : StopReason) :
    Unmarked h (h.stopIfRunning name reason).2 :=
  ⟨changes_stopIfRunning trivial reason, h.surveyed_stopIfRunning name reason⟩

namespace Leads

/-- Nothing happened. -/
protected theorem refl (h : Host) : Leads h h := ⟨[], .refl⟩

/-- What leaves no mark leaves a trail. -/
theorem of_unmarked (hg : Unmarked h g) : Leads h g := ⟨[], .unmarked .refl hg⟩

end Leads

/-- One trail after another. -/
theorem Trail.append {marks more : List Mark} (hg : Trail h marks g) (hk : Trail g more k) :
    Trail h (marks ++ more) k := by
  induction hk with
  | refl => rwa [List.append_nil]
  | unmarked _ hnext ih => exact ih.unmarked hnext
  | departed _ hfound ih =>
    rw [← List.append_assoc]
    exact ih.departed hfound
  | surveyed _ hsample ih =>
    rw [← List.append_assoc]
    exact ih.surveyed hsample

/-- One trail after another. -/
protected theorem Leads.trans (hg : Leads h g) (hk : Leads g k) : Leads h k := by
  obtain ⟨marks, hmarks⟩ := hg
  obtain ⟨more, hmore⟩ := hk
  exact ⟨marks ++ more, hmarks.append hmore⟩

/-! ## What leaves marks -/

/-- A monitor cycle is a survey, or it fails. -/
theorem leads_monitorCycle (h : Host) : Leads h h.monitorCycle.2 := by
  cases hmeasure : h.sampler.measure with
  | ok sample => exact ⟨_, .surveyed .refl hmeasure⟩
  | error fault =>
    have hfailed : h.monitorCycle = (.error fault, h) := by simp [monitorCycle, hmeasure]
    rw [hfailed]
    exact .refl h

/-- Unregistration is a departure, when the name is known. -/
theorem leads_unregisterUser (h : Host) (name : String) : Leads h (h.unregisterUser name).2 := by
  cases hfound : h.users.find? name with
  | none =>
    have hmissing := user?_eq_error.2 ⟨hfound, rfl⟩
    refine .of_unmarked ⟨.quiet (quiet_unregisterUser hfound), ?_⟩
    simp only [unregisterUser, hmissing]
    exact surveyed_reportUnknown _ _ (_, h)
  | some user =>
    rw [unregisterUser_of_find? hfound]
    exact ⟨_, (Trail.refl.departed hfound).unmarked (unmarked_emit _ rfl)⟩

/-- The end of a run and the departure of its owner. -/
theorem leads_retireUser (h : Host) (name : String) : Leads h (h.retireUser name).2 :=
  (Leads.of_unmarked (h.unmarked_stopIfRunning name _)).trans (leads_unregisterUser _ name)

/-- With the last session its owner departs. -/
theorem leads_removeSession (h : Host) (id : String) : Leads h (h.removeSession id).2 := by
  unfold removeSession
  cases hfound : h.sessions.find? id with
  | none => exact .refl h
  | some session =>
    have hclosed : Unmarked h { h with sessions := h.sessions.erase id } :=
      .of_change (.closed hfound) trivial rfl
    have hstopped : Leads h ({ h with sessions := h.sessions.erase id }.stopIfRunning
        session.username .requested).2 :=
      .of_unmarked (hclosed.trans (unmarked_stopIfRunning _ _ _))
    dsimp only
    split_ifs
    · exact (hstopped.trans (leads_retireUser _ _)).trans (.of_unmarked (unmarked_emit _ rfl))
    · exact hstopped.trans (.of_unmarked (unmarked_emit _ rfl))

/-- What a single task does leaves a trail. -/
theorem firing_leads : Firing Leads where
  refl := .refl
  trans hg hk := hg.trans hk
  noted h _ hremark := .of_unmarked (h.calm_emit hremark).unmarked
  evicted hfound := .of_unmarked (unmarked_endRun hfound _)
  surveyed := leads_monitorCycle
  removed := leads_removeSession
  calm hcalm := .of_unmarked hcalm.unmarked
  watched {h task} _ _ huntracked := by
    have hdropped : Leads h (h.dropTask task.id) := .of_unmarked (h.calm_dropTask task.id).unmarked
    obtain ⟨user, id, scope, -, ⟨run, hfound, -, -, hfire⟩ | ⟨-, hfire⟩⟩ :=
      fire_cases (h := h) huntracked
    · have hkept : (h.dropTask task.id).runs.find? user = some run := hfound
      rw [hfire]
      exact hdropped.trans (.of_unmarked (unmarked_endRun hkept _))
    · rw [hfire]
      exact hdropped

/-- What happens while time passes leaves a trail. -/
theorem timing_leads : Timing Leads :=
  firing_leads.timing fun hle => .of_unmarked (.of_change (.ticked hle) trivial rfl)

/-- What an action without a mark causes keeps the flags. -/
theorem keepsFlags_of_causes {action : Action} (hkeeps : action.keepsFlags = true)
    {effect : Effect} (hcauses : action.causes effect) : effect.keepsFlags := by
  cases effect with
  | surveyed => cases action <;> simp_all [Action.keepsFlags, Action.causes]
  | left user => cases action <;> simp_all [Action.keepsFlags, Action.causes]
  | _ => trivial

/-- An action without a mark reports nothing as a survey does. -/
theorem surveyed_perform (h : Host) {action : Action} (hkeeps : action.keepsFlags = true) :
    (h.perform action).surveyed = h.surveyed := by
  cases action with
  | registerUser user => exact h.surveyed_registerUser user
  | userScope user => exact surveyed_reportUnknown _ _ (_, h)
  | userAllowance user => exact surveyed_reportUnknown _ _ (_, h)
  | touch user => exact h.surveyed_touch user
  | recordUsage user cpu memory => exact h.surveyed_recordUsage user cpu memory
  | checkUsage user => exact h.surveyed_checkUsage user
  | acquireWorker user => exact h.surveyed_acquireWorker user
  | releaseWorker permit => exact h.surveyed_releaseWorker permit
  | setSampler sampler => rfl
  | start user program => exact h.surveyed_start user program
  | check user statement => exact h.surveyed_check user statement
  | stop user => exact h.surveyed_stop user
  | stopIfRunning user => exact h.surveyed_stopIfRunning user .requested
  | registerSession session user address => exact h.surveyed_registerSession session user address
  | checkSession session size => exact h.surveyed_checkSession session size
  | cancelScope scope =>
    simp only [perform]
    split_ifs
    · exact h.surveyed_cancel scope
    · rfl
  | childScope => exact h.calm_openScope.unmarked.surveyed
  | releaseScope scope =>
    simp only [perform, releaseScope]
    split
    · exact (h.calm_closeScope _).unmarked.surveyed
    · rfl
  | jump millis => rfl
  | reportStatus => exact h.surveyed_emit rfl
  | _ => cases hkeeps

/-- An action that neither surveys the users nor takes one out leaves no mark. -/
theorem unmarked_perform (h : Host) {action : Action} (hkeeps : action.keepsFlags = true)
    (hserved : h.served ≤ h.clock) : Unmarked h (h.perform action) where
  changes := (h.perform_changes action hserved).mono fun _ => keepsFlags_of_causes hkeeps
  surveyed := h.surveyed_perform hkeeps

/-- Whatever is done to a host leaves a trail. -/
theorem leads_perform (h : Host) (action : Action) (hserved : h.served ≤ h.clock) :
    Leads h (h.perform action) := by
  by_cases hkeeps : action.keepsFlags = true
  · exact .of_unmarked (h.unmarked_perform hkeeps hserved)
  · cases action with
    | unregisterUser user => exact h.leads_unregisterUser user
    | retireUser user => exact h.leads_retireUser user
    | monitorCycle => exact h.leads_monitorCycle
    | guardCycle => exact firing_leads.guardCycle h
    | unregisterSession session =>
      exact (h.leads_removeSession session).trans (.of_unmarked (unmarked_reportUnknown _ _ _))
    | sweep => exact firing_leads.sweep h
    | spawnPatrols => exact firing_leads.spawnPatrols timing_leads h
    | spawnSleeper millis cancellable =>
      exact firing_leads.spawnSleeper timing_leads h millis cancellable
    | shutdown millis =>
      refine timing_leads.shutdown (fun g => ?_) h millis hserved
      exact .of_unmarked (.of_change (.cancelled (.inr rfl)) trivial (by simp))
    | advance millis => exact timing_leads.advance h millis
    | sleep millis => exact timing_leads.sleep h millis
    | _ => exact absurd rfl hkeeps

/-- Whatever is done to a host, one after the other, leaves a trail. -/
theorem leads_performAll (h : Host) (actions : List Action) (hserved : h.served ≤ h.clock) :
    Leads h (h.performAll actions) := by
  induction actions generalizing h with
  | nil => exact .refl h
  | cons action rest ih =>
    have hnext := (h.perform_changes action hserved).served_le hserved
    exact (h.leads_perform action hserved).trans (ih _ hnext)

end Host

end Steward
