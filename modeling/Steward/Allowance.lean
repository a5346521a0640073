import Steward.Policy

/-!
# Allowances

An allowance is what one registered user may take of the host. The pools are split evenly among the
users, and the policy's floors hold whatever the population.
-/

namespace Steward

/-- What one registered user may take of the host. -/
structure Allowance where
  maxCpu : Binary64
  maxMemory : Nat
  maxWorkers : Nat
  maxExecutionTime : Span
  maxFileSize : Nat
  maxFiles : Nat
  deriving DecidableEq

namespace Allowance

/-- Steps in one percent of CPU; shares are whole numbers of steps. -/
def stepsPerPercent : Binary64 := 1000000

/-- An even share of the CPU pool, rounded down to a whole step and raised to the floor. -/
def cpuShare (p : SystemPolicy) (users : Nat) : Binary64 :=
  let steps := (p.cpuPool * stepsPerPercent).floorUpTo wordMax / users
  (.ofNat steps / stepsPerPercent : Binary64).max p.minCpu

/-- An even share of the memory pool, rounded down and raised to the floor. -/
def memoryShare (p : SystemPolicy) (hostMemory users : Nat) : Nat :=
  max (p.memoryPool hostMemory / users) p.minMemory

/-- The allowance of each of some users; an empty host counts as one user. -/
def fairShare (p : SystemPolicy) (hostMemory users : Nat) : Allowance where
  maxCpu := cpuShare p (max users 1)
  maxMemory := memoryShare p hostMemory (max users 1)
  maxWorkers := p.maxWorkers
  maxExecutionTime := p.maxExecutionTime
  maxFileSize := p.maxFileSize
  maxFiles := p.maxFiles

/-- An allowance of nothing. -/
def none : Allowance := ⟨0, 0, 0, ⟨0⟩, 0, 0⟩

/-- The fields in the order in which they are written. -/
def fields : List (Field Allowance) :=
  [Form.number.field "max_cpu_percent" maxCpu fun a l => { l with maxCpu := a },
    Form.word.field "max_memory_mb" maxMemory fun a l => { l with maxMemory := a },
    Form.word.field "max_workers" maxWorkers fun a l => { l with maxWorkers := a },
    Form.span.field "max_execution_time" maxExecutionTime
      fun a l => { l with maxExecutionTime := a },
    Form.word.field "max_file_size_bytes" maxFileSize fun a l => { l with maxFileSize := a },
    Form.word.field "max_total_files" maxFiles fun a l => { l with maxFiles := a }]

/-- Allowances are written and read with all their fields. -/
def form : Form Allowance := Record.form ⟨false, false⟩ fields none

end Allowance

end Steward
