import Steward.Main
import Steward.Host.Reports
import Steward.Host.Workers
import Steward.Proofs.Lookup
import Steward.Proofs.Actions
import Steward.Proofs.Changes
import Steward.Proofs.Operations
import Steward.Proofs.WaitingTasks
import Steward.Proofs.Enrolment
import Steward.Proofs.Histories
import Steward.Proofs.SessionOwners
import Steward.Proofs.FairShares
import Steward.Proofs.WindowRolls
import Steward.Proofs.RateWindows
import Steward.Proofs.RunOwners
import Steward.Proofs.RunAccounting
import Steward.Proofs.OpenScopes
import Steward.Proofs.Lifetimes
import Steward.Proofs.Journal
import Steward.Proofs.Chronicle
import Steward.Proofs.CompleteJournal
import Steward.Proofs.TaskQueue
import Steward.Proofs.Deadlines
import Steward.Proofs.Lapses
import Steward.Proofs.Slices
import Steward.Proofs.Deeds
import Steward.Proofs.Bystanders
import Steward.Proofs.Interference
import Steward.Proofs.WorkerSlots
import Steward.Proofs.LiveRuns
import Steward.Proofs.Patrols
import Steward.Proofs.Acceptance
import Steward.Proofs.Overflows
import Steward.Proofs.Rounding
import Steward.Proofs.CpuShares
import Steward.Proofs.FailedAttempts
import Steward.Proofs.Reconnects
import Steward.Proofs.IdleSweeps
import Steward.Proofs.SessionRemovals
import Steward.Proofs.Evictions
import Steward.Proofs.Trails
import Steward.Proofs.IdleFlags
import Steward.Proofs.SignsOfLife
import Steward.Proofs.DecimalText
import Steward.Proofs.FaultClasses
import Steward.Proofs.QuotedText
import Steward.Proofs.ScalarText
import Steward.Proofs.PrintedDocuments
import Steward.Proofs.LayeredRecords
import Steward.Proofs.SettingsText
import Steward.Proofs.SavedSettings
import Steward.Proofs.Retirement
import Steward.Proofs.UnknownNames
import Steward.Proofs.Attribution
import Steward.Proofs.DistinctKeys
import Steward.Proofs.Precedence
import Steward.Proofs.Sections
