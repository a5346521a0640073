import Steward.Host.Sessions
import Mathlib.Order.MinMax
import Mathlib.Tactic.SplitIfs

/-!
# Rolling windows

A session's window is moved by the whole windows that have passed, but by no more of them than a
half word counts. So it never begins in the future, words and clocks can hold it on the way, and it
makes no difference whether it is moved at once or in stages.
-/

namespace Steward

namespace Span

variable {length : Span} {count : Nat}

/-- A span several times, as words have it: seconds and nanoseconds are multiplied apart, and the
whole seconds among the nanoseconds are carried. None if a word cannot hold one of them. -/
def times? (length : Span) (count : Nat) : Option Span :=
  let seconds := length.seconds * count
  let nanos := length.subsecond * count
  if seconds ≤ wordMax ∧ nanos ≤ wordMax then ofParts? seconds nanos else none

/-- Seconds and nanoseconds that are multiplied apart make up the product. -/
theorem mul_parts (length : Span) (count : Nat) :
    nanosPerSecond * (length.seconds * count) + length.subsecond * count =
      length.nanos * count := by
  rw [← Nat.mul_assoc, ← Nat.add_mul, seconds, subsecond, Nat.div_add_mod]

/-- A word can hold the nanoseconds below a second as often as a half word counts. -/
theorem subsecond_mul_le (hcount : count ≤ halfWordMax) :
    length.subsecond * count ≤ wordMax := by
  have hsubsecond : length.subsecond ≤ nanosPerSecond := (Nat.mod_lt _ (by decide)).le
  calc length.subsecond * count ≤ nanosPerSecond * halfWordMax := Nat.mul_le_mul hsubsecond hcount
    _ ≤ wordMax := by decide

/-- A product whose seconds fit a word is exact. -/
theorem times?_eq_some (hcount : count ≤ halfWordMax)
    (hfits : length.nanos * count / nanosPerSecond ≤ wordMax) :
    length.times? count = some ⟨length.nanos * count⟩ := by
  have hcarried : length.seconds * count + length.subsecond * count / nanosPerSecond ≤ wordMax := by
    rwa [← mul_parts, Nat.mul_add_div (by decide)] at hfits
  have hseconds : length.seconds * count ≤ wordMax := (Nat.le_add_right _ _).trans hcarried
  unfold times? ofParts?
  dsimp only
  rw [if_pos ⟨hseconds, subsecond_mul_le hcount⟩, if_pos hcarried, mul_parts]

/-- The longest span cannot be doubled. -/
example : (ofSeconds wordMax).times? 2 = none := by
  decide

end Span

namespace Session

variable {s : Session} {earlier now window : Span} {j k : Nat}

/-- The whole windows from the start of a session's window to a point of time, as far as a half
word counts. -/
def windowsPassed (s : Session) (now window : Span) : Nat :=
  min ((now.since s.windowStart).nanos / max window.nanos 1) halfWordMax

/-- A session that counts anew in a window some windows later. -/
def restart (s : Session) (window : Span) (windows : Nat) : Session :=
  { s with
    windowStart := ⟨s.windowStart.nanos + window.nanos * windows⟩
    windowMessages := 0
    windowBytes := 0 }

/-- Move a session into the window of the current time, as words and a clock that ends at a point do
it. None if they cannot hold the way that the start of the window goes, or the point where it
arrives. -/
def rollInWords? (s : Session) (now window clockEnd : Span) : Option Session :=
  if now.since s.windowStart < window then some s
  else
    (window.times? (s.windowsPassed now window)).bind fun way =>
      (s.windowStart.after? way clockEnd).map fun start =>
        { s with windowStart := start, windowMessages := 0, windowBytes := 0 }

/-! ## Rolling once -/

/-- Within its window a session stays as it is. -/
theorem roll_of_lt (hwithin : now.since s.windowStart < window) : s.roll now window = s :=
  if_pos hwithin

/-- Past its window a session counts anew in a later one. -/
theorem roll_of_not_lt (hpast : ¬now.since s.windowStart < window) :
    s.roll now window = s.restart window (s.windowsPassed now window) :=
  if_neg hpast

/-- A roll keeps a session within its window, and past it all but the window, which counts anew. -/
theorem roll_cases (s : Session) (now window : Span) :
    now.since s.windowStart < window ∧ s.roll now window = s ∨
      window ≤ now.since s.windowStart ∧ s.roll now window =
        { s with
          windowStart := (s.roll now window).windowStart
          windowMessages := 0
          windowBytes := 0 } := by
  by_cases hwithin : now.since s.windowStart < window
  · exact .inl ⟨hwithin, roll_of_lt hwithin⟩
  · refine .inr ⟨Nat.le_of_not_lt hwithin, ?_⟩
    rw [roll_of_not_lt hwithin]
    rfl

/-- The windows that passed lie before the present. -/
theorem windowsPassed_mul_le (s : Session) (now window : Span) :
    window.nanos * s.windowsPassed now window ≤ now.nanos - s.windowStart.nanos := by
  have hfew : s.windowsPassed now window ≤
      (now.nanos - s.windowStart.nanos) / max window.nanos 1 := Nat.min_le_left _ _
  calc window.nanos * s.windowsPassed now window ≤
        max window.nanos 1 * ((now.nanos - s.windowStart.nanos) / max window.nanos 1) :=
        Nat.mul_le_mul (Nat.le_max_left _ _) hfew
    _ ≤ now.nanos - s.windowStart.nanos := Nat.mul_div_le _ _

/-- The start of the window is moved by whole windows, no more than have passed. -/
theorem windowStart_roll (s : Session) (now window : Span) :
    ∃ windows ≤ s.windowsPassed now window,
      (s.roll now window).windowStart.nanos = s.windowStart.nanos + window.nanos * windows := by
  by_cases hwithin : now.since s.windowStart < window
  · exact ⟨0, Nat.zero_le _, by rw [roll_of_lt hwithin]; rfl⟩
  · exact ⟨_, le_rfl, by rw [roll_of_not_lt hwithin]; rfl⟩

/-- A window that has begun is not moved into the future. -/
theorem windowStart_roll_le (hbegun : s.windowStart ≤ now) :
    (s.roll now window).windowStart ≤ now := by
  have hstart : s.windowStart.nanos ≤ now.nanos := hbegun
  have hreach := s.windowsPassed_mul_le now window
  obtain ⟨windows, hwindows, hmoved⟩ := s.windowStart_roll now window
  have hway : window.nanos * windows ≤ window.nanos * s.windowsPassed now window :=
    Nat.mul_le_mul_left _ hwindows
  show (s.roll now window).windowStart.nanos ≤ now.nanos
  omega

/-- Words and the clock can hold all there is to a roll, if they can hold the present. -/
theorem rollInWords?_eq {clockEnd : Span} (hbegun : s.windowStart ≤ now)
    (hwords : now.seconds ≤ wordMax) (hclock : now < clockEnd) :
    s.rollInWords? now window clockEnd = some (s.roll now window) := by
  have hstart : s.windowStart.nanos ≤ now.nanos := hbegun
  have hend : now.nanos < clockEnd.nanos := hclock
  unfold rollInWords?
  split_ifs with hwithin
  · rw [roll_of_lt hwithin]
  · have hreach := s.windowsPassed_mul_le now window
    have hseconds : window.nanos * s.windowsPassed now window / Span.nanosPerSecond ≤ wordMax :=
      calc window.nanos * s.windowsPassed now window / Span.nanosPerSecond ≤ now.seconds :=
            Nat.div_le_div_right (by omega)
        _ ≤ wordMax := hwords
    have hway : window.times? (s.windowsPassed now window) =
        some ⟨window.nanos * s.windowsPassed now window⟩ :=
      Span.times?_eq_some (Nat.min_le_right _ _) hseconds
    have harrival : s.windowStart.after? ⟨window.nanos * s.windowsPassed now window⟩ clockEnd =
        some ⟨s.windowStart.nanos + window.nanos * s.windowsPassed now window⟩ :=
      if_pos (by dsimp only; omega)
    rw [hway, Option.bind_some, harrival, roll_of_not_lt hwithin]
    rfl

/-! ## Rolling in stages -/

/-- A session that was moved by some windows, maybe by none. -/
def moved (s : Session) (window : Span) (windows : Nat) : Session :=
  if windows = 0 then s else s.restart window windows

/-- Moves add up. -/
theorem moved_moved : (s.moved window j).moved window k = s.moved window (j + k) := by
  unfold moved
  by_cases hj : j = 0
  · simp [hj]
  · by_cases hk : k = 0
    · simp [hj, hk]
    · simp [hj, hk, restart, Nat.mul_add, Nat.add_assoc]

/-- The start of a window that was moved. -/
theorem windowStart_moved :
    (s.moved window k).windowStart.nanos = s.windowStart.nanos + window.nanos * k := by
  unfold moved
  split_ifs with hk
  · simp [hk]
  · rfl

section Stages

variable (hwindow : 0 < window.nanos)

include hwindow

/-- No window has passed exactly as long as a session is within its window. -/
theorem windowsPassed_eq_zero_iff :
    s.windowsPassed now window = 0 ↔ now.since s.windowStart < window := by
  have hquotient : (now.since s.windowStart).nanos / window.nanos = 0 ↔
      (now.since s.windowStart).nanos < window.nanos := Nat.div_eq_zero_iff_lt hwindow
  have hcounts : 0 < halfWordMax := by decide
  show _ ↔ (now.since s.windowStart).nanos < window.nanos
  rw [← hquotient, windowsPassed, Nat.max_eq_left hwindow]
  omega

/-- Rolling moves a session by the windows that passed. -/
theorem roll_eq_moved : s.roll now window = s.moved window (s.windowsPassed now window) := by
  unfold moved
  split_ifs with hnone
  · exact roll_of_lt ((windowsPassed_eq_zero_iff hwindow).1 hnone)
  · exact roll_of_not_lt fun hwithin => hnone ((windowsPassed_eq_zero_iff hwindow).2 hwithin)

variable (hfew : (now.since s.windowStart).nanos / window.nanos ≤ halfWordMax)

include hfew

/-- All windows that passed are counted if they are few enough. -/
theorem windowsPassed_eq :
    s.windowsPassed now window = (now.nanos - s.windowStart.nanos) / window.nanos := by
  rw [windowsPassed, Nat.max_eq_left hwindow]
  exact Nat.min_eq_left hfew

/-- The present lies within the window that a session is rolled into. -/
theorem lt_windowStart_roll :
    now.nanos < (s.roll now window).windowStart.nanos + window.nanos := by
  have hrest : now.nanos - s.windowStart.nanos <
      window.nanos * ((now.nanos - s.windowStart.nanos) / window.nanos) + window.nanos :=
    Nat.lt_mul_div_succ _ hwindow
  rw [roll_eq_moved hwindow, windowStart_moved, windowsPassed_eq hwindow hfew]
  omega

/-- After a move, the windows that it went by have not passed any more. -/
theorem windowsPassed_moved :
    (s.moved window k).windowsPassed now window = s.windowsPassed now window - k := by
  have hquotient : (now.nanos - (s.moved window k).windowStart.nanos) / window.nanos =
      (now.nanos - s.windowStart.nanos) / window.nanos - k := by
    rw [windowStart_moved, Nat.sub_add_eq, Nat.sub_mul_div]
  have hfewer : (now.since (s.moved window k).windowStart).nanos / window.nanos ≤ halfWordMax :=
    (Nat.le_of_eq hquotient).trans ((Nat.sub_le _ _).trans hfew)
  rw [windowsPassed_eq hwindow hfewer, windowsPassed_eq hwindow hfew, hquotient]

/-- A roll on the way makes no difference. -/
theorem roll_roll (hle : earlier ≤ now) :
    (s.roll earlier window).roll now window = s.roll now window := by
  have hbefore : earlier.nanos - s.windowStart.nanos ≤ now.nanos - s.windowStart.nanos :=
    Nat.sub_le_sub_right hle _
  have hstage : s.windowsPassed earlier window ≤ s.windowsPassed now window :=
    min_le_min_right _ (Nat.div_le_div_right hbefore)
  calc (s.roll earlier window).roll now window =
        (s.moved window (s.windowsPassed earlier window)).moved window
          (s.windowsPassed now window - s.windowsPassed earlier window) := by
        rw [roll_eq_moved hwindow, roll_eq_moved hwindow, windowsPassed_moved hwindow hfew]
    _ = s.moved window (s.windowsPassed now window) := by
        rw [moved_moved, Nat.add_sub_cancel' hstage]
    _ = s.roll now window := (roll_eq_moved hwindow).symm

end Stages

/-! ## Rolling is safe -/

/-- A session whose window has begun can be rolled safely, whatever the length of its windows.
Neither words nor a clock overflow on the way to a time that they can hold. The window is moved by
whole windows and not into the future; its counters are kept within the window and zero past it. If
a half word counts the windows that passed, the new window is that of the present, and an earlier
roll would have made no difference. -/
theorem roll_safe (s : Session) (now window : Span) (hbegun : s.windowStart ≤ now) :
    (now.seconds ≤ wordMax → ∀ clockEnd, now < clockEnd →
        s.rollInWords? now window clockEnd = some (s.roll now window)) ∧
      (s.roll now window).windowStart ≤ now ∧
      (∃ windows, (s.roll now window).windowStart.nanos =
        s.windowStart.nanos + window.nanos * windows) ∧
      (if now.since s.windowStart < window then s.roll now window = s
        else s.roll now window =
          { s with
            windowStart := (s.roll now window).windowStart
            windowMessages := 0
            windowBytes := 0 }) ∧
      (0 < window.nanos → (now.since s.windowStart).nanos / window.nanos ≤ halfWordMax →
        now.nanos < (s.roll now window).windowStart.nanos + window.nanos ∧
          ∀ earlier ≤ now, (s.roll earlier window).roll now window = s.roll now window) := by
  refine ⟨fun hwords _ hclock => rollInWords?_eq hbegun hwords hclock, windowStart_roll_le hbegun,
    ?_, ?_, ?_⟩
  · obtain ⟨windows, -, hmoved⟩ := s.windowStart_roll now window
    exact ⟨windows, hmoved⟩
  · split_ifs with hwithin
    · exact roll_of_lt hwithin
    · exact ((s.roll_cases now window).resolve_left fun hkept => hwithin hkept.1).2
  · intro hwindow hfew
    exact ⟨lt_windowStart_roll hwindow hfew, fun earlier => roll_roll hwindow hfew⟩

/-- A session with windows of a minute, three of which have passed. -/
theorem roll_safe_of_minutes :
    let s : Session :=
      { username := "ana", address := "10.0.0.1", windowStart := .ofSeconds 10, windowMessages := 3,
        lastActivity := 10000 }
    let rolled : Session := { s with windowStart := .ofSeconds 190, windowMessages := 0 }
    s.rollInWords? (.ofSeconds 200) (.ofSeconds 60) (.clockEnd (.ofSeconds 3600)) = some rolled ∧
      (s.roll (.ofSeconds 80) (.ofSeconds 60)).roll (.ofSeconds 200) (.ofSeconds 60) = rolled := by
  intro s rolled
  obtain ⟨hwords, -, -, -, hstages⟩ := roll_safe s (.ofSeconds 200) (.ofSeconds 60) (by decide)
  obtain ⟨-, hsame⟩ := hstages (by decide) (by decide)
  have hrolled : s.roll (.ofSeconds 200) (.ofSeconds 60) = rolled := by decide
  rw [hrolled] at hwords hsame
  exact ⟨hwords (by decide) _ (by decide), hsame (.ofSeconds 80) (by decide)⟩

/-- Of windows of a nanosecond, a roll goes by no more than a half word counts. -/
example :
    let s : Session :=
      { username := "ana", address := "10.0.0.1", windowStart := ⟨0⟩, lastActivity := 0 }
    (s.roll (.ofSeconds 5) ⟨1⟩).windowStart = ⟨halfWordMax⟩ := by
  decide

end Session

end Steward
