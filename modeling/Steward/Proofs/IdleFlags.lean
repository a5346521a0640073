import Steward.Proofs.OpenScopes
import Steward.Proofs.Trails
import Mathlib.Data.List.Induction

/-!
# Idle flags

The flags of idle users are replaced by every survey and lose a user who departs, and nothing else
touches them. So the flags of a host are told by the trail that led to it: flagged is whom the last
survey found away and who did not depart since. A survey reports those whom it flags and who were
not flagged before.
-/

namespace Steward

namespace Host

/-- Whether a user has shown no sign of life for longer than the policy allows. -/
def IsAway (h : Host) (name : String) : Prop :=
  ∃ user, h.users.find? name = some user ∧
    h.policies.system.maxInactiveTime < .ofMillis (h.stamp - user.lastActivity)

/-- What a survey reports: who is flagged anew, and then what was measured. -/
def surveyEvents (h : Host) : List Event :=
  (h.idleUsers.filter fun name => !h.inactive.contains name).map
      (fun name => .userInactive name h.policies.system.maxInactiveTime.seconds) ++
    [.sampled h.users.size h.workersInUse h.sampler.sample]

/-- Whether a survey reports that a user is idle. -/
def Announces (h : Host) (name : String) : Prop :=
  ∃ seconds, .userInactive name seconds ∈ h.surveyEvents

/-- What a survey does: it flags who is away, reports who was not flagged before, and keeps
estimates and the measurement. -/
structure Surveys (h g : Host) : Prop where
  flagged : ∀ name, name ∈ g.inactive ↔ h.IsAway name
  announced : ∀ name, h.Announces name ↔ name ∈ g.inactive ∧ name ∉ h.inactive
  journal : g.journal = h.surveyEvents.reverse ++ h.journal
  users : ∃ cpu memory, g.users = h.users.map fun user =>
    { user with estimatedCpu := cpu, estimatedMemory := memory }
  rest : g = { h with
    users := g.users, inactive := g.inactive, lastSample := g.lastSample, journal := g.journal }

end Host

namespace Mark

/-- The flags after a mark. -/
def flag (flags : List String) : Mark → List String
  | .survey found => found.idleUsers
  | .departure name => flags.filter (· ≠ name)

/-- What is reported at a mark. -/
def events : Mark → List Event
  | .survey found => found.surveyEvents
  | .departure _ => []

end Mark

/-- Whether the last survey among some marks found a user away who did not depart since. -/
def FlaggedBy (marks : List Mark) (name : String) : Prop :=
  ∃ earlier found later, marks = earlier ++ .survey found :: later ∧
    (∀ other, .survey other ∉ later) ∧ .departure name ∉ later ∧ found.IsAway name

/-- A row that goes on after one of its items ends with its own last item. -/
theorem append_cons_eq_concat {α : Type} {before after items : List α} {item last : α}
    (heq : before ++ item :: after = items ++ [last]) :
    (after = [] ∧ before = items ∧ item = last) ∨
      ∃ rest, after = rest ++ [last] ∧ items = before ++ item :: rest := by
  rcases List.eq_nil_or_concat' after with rfl | ⟨rest, final, rfl⟩
  · obtain ⟨rfl, hlast⟩ := List.append_inj' heq rfl
    cases hlast
    exact .inl ⟨rfl, rfl, rfl⟩
  · rw [← List.cons_append, ← List.append_assoc] at heq
    obtain ⟨rfl, hlast⟩ := List.append_inj' heq rfl
    cases hlast
    exact .inr ⟨rest, rfl, rfl⟩

namespace Host

variable {h g k : Host} {marks : List Mark} {name : String}

/-! ## One survey -/

/-- The idle users are those who are away. -/
theorem mem_idleUsers : name ∈ h.idleUsers ↔ h.IsAway name := by
  rw [idleUsers, Table.mem_names, Table.contains_iff]
  simp only [Table.find?_filter, Option.filter_eq_some_iff, decide_eq_true_eq]
  rfl

/-- The idle users are listed in increasing order. -/
theorem sorted_idleUsers (h : Host) : h.idleUsers.Pairwise (· < ·) :=
  List.pairwise_map.2 (Table.sorted _)

/-- Events in order come before those that were reported already. -/
theorem emitAll_eq (h : Host) (events : List Event) :
    h.emitAll events = { h with journal := events.reverse ++ h.journal } := by
  induction events generalizing h with
  | nil => rfl
  | cons event rest ih =>
    rw [emitAll, List.foldl_cons, ← emitAll, ih]
    simp [emit]

/-- What a monitor cycle leaves when it measured the process. -/
theorem monitorCycle_eq {sample : Sample} (hsample : h.sampler.measure = .ok sample) :
    h.monitorCycle = (.ok sample, { h.spreadUsage sample with
      inactive := h.idleUsers, lastSample := some sample
      journal := h.surveyEvents.reverse ++ h.journal }) := by
  have hmeasured : h.sampler.sample = sample := by
    unfold Sampler.measure at hsample
    split at hsample
    · cases hsample
    · cases hsample
      rfl
  simp only [monitorCycle, hsample]
  rw [emit_emitAll, emitAll_eq, surveyEvents, hmeasured]
  rfl

/-- A monitor cycle that measures the process is a survey. -/
theorem surveys_monitorCycle {sample : Sample} (hsample : h.sampler.measure = .ok sample) :
    Surveys h h.monitorCycle.2 := by
  rw [monitorCycle_eq hsample]
  refine ⟨fun name => mem_idleUsers, fun name => ?_, rfl, ⟨_, _, rfl⟩, rfl⟩
  simp [Announces, surveyEvents]

/-! ## The flags along a trail -/

/-- The flags at the end of a trail are those at its beginning, changed by its marks. -/
theorem Trail.inactive_eq (htrail : Trail h marks g) :
    g.inactive = marks.foldl Mark.flag h.inactive := by
  induction htrail with
  | refl => rfl
  | @unmarked marks k g _ hnext ih =>
    rw [← ih]
    refine hnext.changes.preserves (p := fun other => other.inactive = k.inactive) ?_ ?_ rfl
    · exact fun hquiet heq => hquiet.inactive.trans heq
    · exact fun hkeeps hchange heq => (hchange.inactive_eq hkeeps).trans heq
  | departed _ _ ih =>
    rw [List.foldl_append, ← ih]
    simp [Mark.flag, removeUser, reshare]
  | surveyed _ hsample ih =>
    rw [List.foldl_append, monitorCycle_eq hsample]
    rfl

/-- What monitor cycles reported at the end of a trail is what they had reported before it and then
what they report at its marks. -/
theorem Trail.surveyed_eq (htrail : Trail h marks g) :
    g.surveyed = (marks.flatMap Mark.events).reverse ++ h.surveyed := by
  induction htrail with
  | refl => rfl
  | unmarked _ hnext ih => rw [hnext.surveyed, ih]
  | departed _ _ ih =>
    rw [List.flatMap_append, List.reverse_append, List.append_assoc, ← ih]
    simp [Host.surveyed, Mark.events, removeUser, reshare]
  | @surveyed marks k sample _ hsample ih =>
    have hall : k.surveyEvents.reverse.filter Event.isSurvey = k.surveyEvents.reverse := by
      refine List.filter_eq_self.2 fun event hmem => ?_
      rw [List.mem_reverse, surveyEvents, List.mem_append] at hmem
      rcases hmem with hmem | hmem
      · obtain ⟨name, -, rfl⟩ := List.mem_map.1 hmem
        rfl
      · rw [List.mem_singleton.1 hmem]
        rfl
    rw [List.flatMap_append, List.reverse_append, List.append_assoc, ← ih, monitorCycle_eq hsample,
      Host.surveyed, List.filter_append, hall]
    simp [Mark.events, Host.surveyed]

/-- Who does not depart on a trail stays registered. -/
theorem Trail.isRegistered (htrail : Trail h marks g) (hknown : h.isRegistered name = true)
    (hstays : .departure name ∉ marks) : g.isRegistered name = true := by
  induction htrail with
  | refl => exact hknown
  | unmarked _ hnext ih =>
    refine hnext.changes.preserves (p := fun other => other.isRegistered name = true) ?_ ?_
      (ih hstays)
    · intro a b hquiet hbefore
      rwa [Host.isRegistered, hquiet.users]
    · intro effect a b hkeeps hchange hbefore
      obtain ⟨id, hid⟩ := isRegistered_iff.1 hbefore
      refine isRegistered_iff.2 ⟨id, hchange.registration?_kept hid ?_⟩
      rintro rfl
      exact hkeeps
  | @departed marks k other user _ hfound ih =>
    have hbefore := ih fun hmem => hstays (List.mem_append_left _ hmem)
    obtain ⟨id, hid⟩ := isRegistered_iff.1 hbefore
    refine isRegistered_iff.2 ⟨id, (Change.left hfound).registration?_kept hid ?_⟩
    intro heq
    cases heq
    exact hstays (by simp)
  | surveyed _ hsample ih =>
    have hbefore := ih fun hmem => hstays (List.mem_append_left _ hmem)
    rw [monitorCycle_eq hsample]
    simpa [Host.isRegistered, spreadUsage] using hbefore

/-- A survey on a trail was made on a host on the way. -/
theorem Trail.split {before after : List Mark} {found : Host}
    (htrail : Trail h (before ++ .survey found :: after) g) :
    Trail h before found ∧ (∃ sample, found.sampler.measure = .ok sample) ∧
      Trail found.monitorCycle.2 after g := by
  generalize hmarks : before ++ .survey found :: after = marks at htrail
  induction htrail generalizing after with
  | refl => simp at hmarks
  | unmarked _ hnext ih =>
    obtain ⟨hbefore, hmeasured, hafter⟩ := ih hmarks
    exact ⟨hbefore, hmeasured, hafter.unmarked hnext⟩
  | departed _ hfound ih =>
    rcases append_cons_eq_concat hmarks with ⟨-, -, hmark⟩ | ⟨rest, rfl, hearlier⟩
    · cases hmark
    · obtain ⟨hbefore, hmeasured, hafter⟩ := ih hearlier.symm
      exact ⟨hbefore, hmeasured, hafter.departed hfound⟩
  | surveyed htrail hsample ih =>
    rcases append_cons_eq_concat hmarks with ⟨rfl, rfl, hmark⟩ | ⟨rest, rfl, hearlier⟩
    · cases hmark
      exact ⟨htrail, ⟨_, hsample⟩, .refl⟩
    · obtain ⟨hbefore, hmeasured, hafter⟩ := ih hearlier.symm
      exact ⟨hbefore, hmeasured, hafter.surveyed hsample⟩

end Host

/-! ## Flags from marks -/

section Flags

variable {marks : List Mark} {flags : List String} {name : String}

/-- After a survey those are flagged whom it found away. -/
theorem flaggedBy_survey {found : Host} :
    FlaggedBy (marks ++ [.survey found]) name ↔ found.IsAway name := by
  constructor
  · rintro ⟨earlier, last, later, hmarks, hnone, -, haway⟩
    rcases append_cons_eq_concat hmarks.symm with ⟨-, -, hmark⟩ | ⟨rest, rfl, -⟩
    · cases hmark
      exact haway
    · exact absurd (by simp) (hnone found)
  · exact fun haway => ⟨marks, found, [], rfl, by simp, by simp, haway⟩

/-- After a departure the others are flagged who were before. -/
theorem flaggedBy_departure {other : String} :
    FlaggedBy (marks ++ [.departure other]) name ↔ FlaggedBy marks name ∧ name ≠ other := by
  constructor
  · rintro ⟨earlier, last, later, hmarks, hnone, hstays, haway⟩
    rcases append_cons_eq_concat hmarks.symm with ⟨-, -, hmark⟩ | ⟨rest, rfl, rfl⟩
    · cases hmark
    · simp only [List.mem_append, not_or] at hnone hstays
      refine ⟨⟨earlier, last, rest, rfl, fun survey => (hnone survey).1, hstays.1, haway⟩, ?_⟩
      rintro rfl
      simp at hstays
  · rintro ⟨⟨earlier, last, later, rfl, hnone, hstays, haway⟩, hne⟩
    refine ⟨earlier, last, later ++ [.departure other], by simp, fun survey => ?_, ?_, haway⟩
    · simpa using hnone survey
    · simpa [hne] using hstays

/-- From no flags at all, those are flagged at the end whom the marks tell. -/
theorem mem_foldl_flag : name ∈ marks.foldl Mark.flag [] ↔ FlaggedBy marks name := by
  induction marks using List.reverseRecOn with
  | nil => simp [FlaggedBy]
  | append_singleton marks mark ih =>
    rw [List.foldl_append]
    cases mark with
    | survey found => exact Host.mem_idleUsers.trans flaggedBy_survey.symm
    | departure other =>
      rw [flaggedBy_departure, ← ih]
      simp [Mark.flag]

/-- The flags stay in increasing order. -/
theorem sorted_foldl_flag (hflags : flags.Pairwise (· < ·)) :
    (marks.foldl Mark.flag flags).Pairwise (· < ·) := by
  induction marks generalizing flags with
  | nil => exact hflags
  | cons mark rest ih =>
    refine ih ?_
    cases mark with
    | survey found => exact found.sorted_idleUsers
    | departure other => exact hflags.filter _

/-- A flag stays while its user does not depart and every survey finds the user away. -/
theorem mem_foldl_flag_of_away (hmem : name ∈ flags) (hstays : .departure name ∉ marks)
    (haway : ∀ found, .survey found ∈ marks → found.IsAway name) :
    name ∈ marks.foldl Mark.flag flags := by
  induction marks generalizing flags with
  | nil => exact hmem
  | cons mark rest ih =>
    refine ih ?_ (fun hlater => hstays (List.mem_cons_of_mem _ hlater)) fun found hlater =>
      haway found (List.mem_cons_of_mem _ hlater)
    cases mark with
    | survey found => exact Host.mem_idleUsers.2 (haway found List.mem_cons_self)
    | departure other =>
      have hne : name ≠ other := by
        rintro rfl
        exact hstays List.mem_cons_self
      simpa [Mark.flag, hne] using hmem

end Flags

/-! ## Idle flags -/

namespace Host

variable {h g : Host} {marks : List Mark} {name : String}

/-- Who is away is registered. -/
theorem IsAway.isRegistered (haway : h.IsAway name) : h.isRegistered name = true := by
  obtain ⟨user, hfound, -⟩ := haway
  exact Table.contains_iff.2 ⟨user, hfound⟩

/-- What leaves no mark leaves the flags. -/
theorem Unmarked.inactive_eq (hnext : Unmarked h g) : g.inactive = h.inactive :=
  (Trail.refl.unmarked hnext).inactive_eq

/-- Between two reports that a user is idle, a survey finds the user back or the user departs. -/
theorem Trail.announced_apart {earlier between later : List Mark} {found next : Host}
    (htrail : Trail h (earlier ++ .survey found :: between ++ .survey next :: later) g)
    (hfirst : found.Announces name) (hagain : next.Announces name) :
    (∃ other, .survey other ∈ between ∧ other.isRegistered name = true ∧ ¬other.IsAway name) ∨
      .departure name ∈ between := by
  obtain ⟨hbefore, ⟨again, hmeasured⟩, -⟩ := htrail.split
  obtain ⟨-, ⟨first, hfound⟩, hpath⟩ := hbefore.split
  have hsurvey := surveys_monitorCycle hfound
  have hflagged := ((hsurvey.announced name).1 hfirst).1
  have hnew := (((surveys_monitorCycle hmeasured).announced name).1 hagain).2
  have hknown : found.monitorCycle.2.isRegistered name = true := by
    have haway := ((hsurvey.flagged name).1 hflagged).isRegistered
    obtain ⟨cpu, memory, husers⟩ := hsurvey.users
    rwa [Host.isRegistered, husers, Table.contains_map]
  -- Without either of the two the flag would have stayed until the second report.
  by_contra hneither
  obtain ⟨hback, hstays⟩ := not_or.1 hneither
  refine hnew ?_
  rw [hpath.inactive_eq]
  refine mem_foldl_flag_of_away hflagged hstays fun other hmem => ?_
  obtain ⟨before, after, rfl⟩ := List.append_of_mem hmem
  obtain ⟨hway, -, -⟩ := hpath.split
  have hthere := hway.isRegistered hknown fun hleft => hstays (List.mem_append_left _ hleft)
  by_contra hreturned
  exact hback ⟨other, hmem, hthere, hreturned⟩

/-- A host that was just built flags nobody and has reported no survey. -/
theorem IsBuilt.unflagged {policies : Policies} {sampler : Sampler} {timers : Bool} {start : Host}
    (hbuilt : IsBuilt policies sampler timers start) :
    start.inactive = [] ∧ start.surveyed = [] := by
  refine ⟨hbuilt.quiet.inactive, ?_⟩
  obtain ⟨clockEnd, events, rfl, hremarks⟩ := hbuilt.eq_emitAll
  exact ((empty policies sampler timers clockEnd).calm_emitAll hremarks).unmarked.surveyed

/-- Whatever is done to a host that was just built, there is a trail of its surveys and departures,
and along any such trail: the flagged users are listed in increasing order and are those whom the
last survey found away and who did not depart since, all of them registered. A user who registers is
not flagged. The surveys on the trail flag who is away, report who was not flagged before, and leave
users, allowances, runs and sessions alone; all such reports in the journal are theirs. Between two
reports of one user a survey finds the user back or the user departs. A monitor cycle that fails
does nothing. -/
theorem idle_flags_exact {policies : Policies} {sampler : Sampler} {timers : Bool} {start : Host}
    (hbuilt : IsBuilt policies sampler timers start) (actions : List Action) :
    let h := start.performAll actions
    (∃ marks, Trail start marks h) ∧
      (∀ fault, h.sampler.measure = .error fault → h.monitorCycle = (.error fault, h)) ∧
      (∀ name, h.isRegistered name = false →
        name ∉ (h.registerUser name).2.inactive ∧
        ∀ id address, name ∉ (h.registerSession id name address).2.inactive) ∧
      ∀ marks, Trail start marks h →
        h.inactive.Pairwise (· < ·) ∧
        (∀ name, name ∈ h.inactive ↔ FlaggedBy marks name) ∧
        (∀ name ∈ h.inactive, h.isRegistered name = true) ∧
        (∀ found, .survey found ∈ marks → Surveys found found.monitorCycle.2) ∧
        h.surveyed = (marks.flatMap Mark.events).reverse ∧
        ∀ earlier found between next later name,
          marks = earlier ++ .survey found :: between ++ .survey next :: later →
          found.Announces name → next.Announces name →
          (∃ other, .survey other ∈ between ∧ other.isRegistered name = true ∧
              ¬other.IsAway name) ∨
            .departure name ∈ between := by
  intro h
  obtain ⟨hunflagged, hsilent⟩ := hbuilt.unflagged
  have hserved : start.served ≤ start.clock := hbuilt.quiet.served le_rfl
  have hreach := hbuilt.isReachable actions
  have hknown (name : String) (hmem : name ∈ h.inactive) : h.isRegistered name = true :=
    hreach.sharesFairly.flagged name hmem
  refine ⟨start.leads_performAll actions hserved, fun fault hfault => ?_, fun name hmissing => ?_,
    fun marks htrail => ⟨?_, fun name => ?_, hknown, fun found hmem => ?_, ?_, ?_⟩⟩
  · simp [monitorCycle, hfault]
  · have hunknown : name ∉ h.inactive := fun hmem => by
      rw [hknown name hmem] at hmissing
      cases hmissing
    have hkept (action : Action) (hkeeps : action.keepsFlags = true) :
        name ∉ (h.perform action).inactive := by
      rwa [(h.unmarked_perform hkeeps hreach.served_le).inactive_eq]
    exact ⟨hkept (.registerUser name) rfl, fun id address =>
      hkept (.registerSession id name address) rfl⟩
  · rw [htrail.inactive_eq, hunflagged]
    exact sorted_foldl_flag .nil
  · rw [htrail.inactive_eq, hunflagged]
    exact mem_foldl_flag
  · obtain ⟨before, after, rfl⟩ := List.append_of_mem hmem
    obtain ⟨-, ⟨sample, hsample⟩, -⟩ := htrail.split
    exact surveys_monitorCycle hsample
  · rw [htrail.surveyed_eq, hsilent, List.append_nil]
  · rintro earlier found between next later name rfl
    exact htrail.announced_apart

/-- Who was silent for too long is flagged, and who gave a sign of life in time is not. -/
theorem idle_flags_exact_of_two_users :
    ∃ start, IsBuilt {} ⟨⟨100, 0, 2048, 0⟩, none⟩ true start ∧
      ∃ marks, Trail start marks (start.performAll
          [.registerUser "ana", .registerUser "bo", .jump 1900000, .touch "bo", .monitorCycle]) ∧
        FlaggedBy marks "ana" ∧ ¬FlaggedBy marks "bo" := by
  refine ⟨_, .of_build rfl, ?_⟩
  have hbuilt : IsBuilt {} ⟨⟨100, 0, 2048, 0⟩, none⟩ true _ := .of_build rfl
  obtain ⟨⟨marks, htrail⟩, -, -, hall⟩ := idle_flags_exact hbuilt
    [.registerUser "ana", .registerUser "bo", .jump 1900000, .touch "bo", .monitorCycle]
  obtain ⟨-, hflagged, -⟩ := hall marks htrail
  refine ⟨marks, htrail, (hflagged "ana").1 ?_, fun hbo => ?_⟩
  · decide
  · exact absurd ((hflagged "bo").2 hbo) (by decide)

end Host

end Steward
