import SoftTimer.Clock
import SoftTimer.Decimal
import SoftTimer.Event
import SoftTimer.Machine
import SoftTimer.Outline
import SoftTimer.Refusal
import SoftTimer.Region
import SoftTimer.Request
import SoftTimer.Session.Report
import SoftTimer.Session.Run
import SoftTimer.Session.Step
import SoftTimer.System.Basic
import SoftTimer.System.Command
import SoftTimer.System.Pass
import SoftTimer.System.Query
import SoftTimer.Table
import SoftTimer.Timeout
import SoftTimer.Timer
import SoftTimer.TimerList
import SoftTimer.Timespec.Arithmetic
import SoftTimer.Timespec.Basic
import SoftTimer.Timespec.Duration
import SoftTimer.Timespec.Text
import SoftTimer.Word
import SoftTimer.Proofs.Threaded
import SoftTimer.Proofs.Parts
import SoftTimer.Proofs.Sound
import SoftTimer.Proofs.Command
import SoftTimer.Proofs.Course
import SoftTimer.Proofs.Pass
import SoftTimer.Proofs.Moment
import SoftTimer.Proofs.Reachable
import SoftTimer.Proofs.Turns
import SoftTimer.Proofs.Dispatch
import SoftTimer.Proofs.History
import SoftTimer.Proofs.Tickets
import SoftTimer.Proofs.Expiry
import SoftTimer.Proofs.Cancellation
import SoftTimer.Proofs.Binding
import SoftTimer.Proofs.Walk
import SoftTimer.Proofs.Regions
import SoftTimer.Proofs.Discipline
import SoftTimer.Proofs.Reentrancy
import SoftTimer.Proofs.Ownership
import SoftTimer.Proofs.Isolation
import SoftTimer.Proofs.Insertion
import SoftTimer.Proofs.Order
import SoftTimer.Proofs.Arrivals
import SoftTimer.Proofs.ClosedLoop
import SoftTimer.Proofs.Recast
import SoftTimer.Proofs.Replay
import SoftTimer.Proofs.Unobserved
import SoftTimer.Proofs.Integers
import SoftTimer.Proofs.Record
import SoftTimer.Proofs.Traffic
import SoftTimer.Proofs.Schedule
import SoftTimer.Proofs.Grouping
import SoftTimer.Proofs.Reversal
import SoftTimer.Proofs.Units
import SoftTimer.Proofs.Readings
import SoftTimer.Proofs.Sums
import SoftTimer.Proofs.Numerals
import SoftTimer.Proofs.Tallies
import SoftTimer.Proofs.RegionWords
import SoftTimer.Proofs.Balance
import SoftTimer.Proofs.Sequence
import SoftTimer.Proofs.Loops
import SoftTimer.Proofs.Collection
import SoftTimer.Proofs.Journal
