import Steward.Fault
import Steward.Proofs.DecimalText

/-!
# Classes of faults

A front end sees of a fault only its message. Whatever names and texts are spliced into it, the
message still tells the class of the fault: messages of most classes begin with different words, and
a passed deadline, which begins like a passed ceiling, ends like none.
-/

namespace Steward

/-- All ceilings. -/
def LimitKind.all : List LimitKind :=
  [.commands, .loops, .cpu, .memory, .messages, .bandwidth, .workers]

/-- The classes of faults; each ceiling that can be passed is a class of its own. -/
inductive FaultClass where
  | capacity
  | limit (kind : LimitKind)
  | alreadyRunning
  | alreadyRegistered
  | notFound
  | timeout
  | io
  | configuration
  | internal
  deriving DecidableEq, Repr

namespace FaultClass

/-- All classes. -/
def all : List FaultClass :=
  [.capacity, .alreadyRunning, .alreadyRegistered, .notFound, .timeout, .io, .configuration,
    .internal] ++ LimitKind.all.map .limit

/-- There are no other classes. -/
theorem mem_all (c : FaultClass) : c ∈ all := by
  cases c with
  | limit kind => cases kind <;> decide
  | _ => decide

/-- The words that every message of a class begins with. -/
def opening : FaultClass → String
  | .capacity => "capacity reached: "
  | .limit kind => kind.category ++ ": " ++ kind.label ++ " "
  | .alreadyRunning => "program already running for user "
  | .alreadyRegistered => "user "
  | .notFound => "Not found: "
  | .timeout => "execution limit exceeded: "
  | .io => "I/O error: "
  | .configuration => "Configuration error: "
  | .internal => "Internal error: "

/-- No opening is the beginning of another, but for that of a passed deadline. -/
theorem opening_apart_all : ∀ c ∈ all, ∀ d ∈ all, c.opening.toList <+: d.opening.toList →
    c = d ∨ c = .timeout ∧ d ∈ LimitKind.all.map .limit := by
  decide +kernel

/-- Only the opening of a passed deadline is also the beginning of others, which are those of passed
ceilings. -/
theorem opening_apart {c d : FaultClass} (hbegins : c.opening.toList <+: d.opening.toList) :
    c = d ∨ c = .timeout ∧ ∃ kind, d = .limit kind := by
  rcases opening_apart_all c c.mem_all d d.mem_all hbegins with heq | ⟨htimeout, hlimit⟩
  · exact .inl heq
  · obtain ⟨kind, -, rfl⟩ := List.mem_map.1 hlimit
    exact .inr ⟨htimeout, kind, rfl⟩

end FaultClass

namespace Fault

variable {f g : Fault}

/-- The class of a fault. -/
def toClass : Fault → FaultClass
  | .capacity .. => .capacity
  | .limit kind .. => .limit kind
  | .alreadyRunning _ => .alreadyRunning
  | .alreadyRegistered _ => .alreadyRegistered
  | .notFound _ => .notFound
  | .timeout .. => .timeout
  | .io _ => .io
  | .configuration .. => .configuration
  | .internal _ => .internal

/-- A message begins with the opening of its class. -/
theorem opening_isPrefix (f : Fault) : f.toClass.opening.toList <+: f.message.toList := by
  have hleft (a b : String) : a.toList <+: (a ++ b).toList := by
    rw [String.toList_append]
    exact List.prefix_append _ _
  -- Each message is the opening with some texts appended, one after the other.
  cases f with
  | capacity resource bound =>
    exact (hleft _ _).trans ((hleft _ _).trans ((hleft _ _).trans (hleft _ _)))
  | timeout user bound =>
    exact (hleft _ _).trans ((hleft _ _).trans ((hleft _ _).trans (hleft _ _)))
  | limit kind current bound => exact (hleft _ _).trans ((hleft _ _).trans (hleft _ _))
  | alreadyRegistered user => exact (hleft _ _).trans (hleft _ _)
  | _ => exact hleft _ _

/-- A message about a passed deadline ends with the unit of its seconds. -/
theorem getLast?_of_timeout (hclass : f.toClass = .timeout) :
    f.message.toList.getLast? = some 's' := by
  have hunit (text : String) : (text ++ "s").toList.getLast? = some 's' := by
    rw [String.toList_append, String.toList_ofList, List.getLast?_concat]
  cases f with
  | timeout user bound => exact hunit _
  | _ => cases hclass

/-- A message about a passed ceiling ends with a number, and no number is written with that unit. -/
theorem getLast?_of_limit {kind : LimitKind} (hclass : f.toClass = .limit kind) :
    f.message.toList.getLast? ≠ some 's' := by
  have hnumber (text : String) (x : Binary64) :
      (text ++ " > " ++ x.text).toList.getLast? ≠ some 's' := by
    have hforeign : 's' ∉ x.chars .message :=
      fun hmem => absurd (Binary64.mem_chars hmem) (by decide)
    rw [String.toList_append, Binary64.text, String.toList_ofList, List.getLast?_append]
    cases hlast : (x.chars .message).getLast? with
    | some c =>
      rintro ⟨⟩
      exact hforeign (List.mem_of_getLast? hlast)
    | none =>
      rw [String.toList_append, String.toList_ofList, List.getLast?_append]
      simp
  cases f with
  | limit _ current bound => exact hnumber _ bound
  | _ => cases hclass

/-! ## The message tells the class -/

/-- A passed deadline reads like no passed ceiling. -/
theorem message_ne_of_timeout {kind : LimitKind} (hf : f.toClass = .timeout)
    (hg : g.toClass = .limit kind) : f.message ≠ g.message := by
  intro hsame
  have hend := getLast?_of_timeout hf
  rw [hsame] at hend
  exact getLast?_of_limit hg hend

/-- Faults that read alike are of one class. -/
theorem toClass_eq_of_message (hsame : f.message = g.message) : f.toClass = g.toClass := by
  have hf := f.opening_isPrefix
  rw [hsame] at hf
  rcases List.prefix_or_prefix_of_prefix hf g.opening_isPrefix with hbegins | hbegins
  · rcases FaultClass.opening_apart hbegins with heq | ⟨htimeout, kind, hlimit⟩
    · exact heq
    · exact absurd hsame (message_ne_of_timeout htimeout hlimit)
  · rcases FaultClass.opening_apart hbegins with heq | ⟨htimeout, kind, hlimit⟩
    · exact heq.symm
    · exact absurd hsame.symm (message_ne_of_timeout htimeout hlimit)

/-! ## What is asked of faults -/

theorem isCapacity_iff : f.isCapacity = true ↔ f.toClass = .capacity := by
  cases f <;> simp [isCapacity, toClass]

theorem isLimitExceeded_iff :
    f.isLimitExceeded = true ↔ f.toClass = .timeout ∨ ∃ kind, f.toClass = .limit kind := by
  cases f <;> simp [isLimitExceeded, toClass]

theorem isNotFound_iff : f.isNotFound = true ↔ f.toClass = .notFound := by
  cases f <;> simp [isNotFound, toClass]

theorem limitKind?_eq_some_iff {kind : LimitKind} :
    f.limitKind? = some kind ↔ f.toClass = .limit kind := by
  cases f <;> simp [limitKind?, toClass]

/-- Whatever texts, numbers and spans faults are made of, those with the same message are of the
same class, and all that is asked of faults is answered alike. -/
theorem message_tells_class (hsame : f.message = g.message) :
    f.toClass = g.toClass ∧ f.isCapacity = g.isCapacity ∧ f.isLimitExceeded = g.isLimitExceeded ∧
      f.isNotFound = g.isNotFound ∧ f.limitKind? = g.limitKind? := by
  have hclass := toClass_eq_of_message hsame
  refine ⟨hclass, ?_, ?_, ?_, ?_⟩
  · rw [Bool.eq_iff_iff, isCapacity_iff, isCapacity_iff, hclass]
  · rw [Bool.eq_iff_iff, isLimitExceeded_iff, isLimitExceeded_iff, hclass]
  · rw [Bool.eq_iff_iff, isNotFound_iff, isNotFound_iff, hclass]
  · ext kind
    rw [limitKind?_eq_some_iff, limitKind?_eq_some_iff, hclass]

/-- Two deadlines that are told in the same whole seconds, of a user whose name reads like a passed
ceiling. -/
theorem message_tells_class_of_timeouts :
    let user := "commands 5 > 4"
    let f : Fault := .timeout user (.ofSeconds 1)
    let g : Fault := .timeout user ⟨1500000000⟩
    f ≠ g ∧ f.message = g.message ∧ f.toClass = g.toClass ∧ f.limitKind? = g.limitKind? := by
  intro user f g
  have hsame : f.message = g.message := rfl
  obtain ⟨hclass, -, -, -, hkind⟩ := message_tells_class hsame
  exact ⟨by decide, hsame, hclass, hkind⟩

end Fault

end Steward
