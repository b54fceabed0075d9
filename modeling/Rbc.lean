import Rbc.Dcp2.RoundTrip
import Rbc.Dcp2.InputSafety
import Rbc.Dcp2.Acceptance
import Rbc.Dcp2.Corruption
import Rbc.Dcp2.Framing
import Rbc.Dcp2.Stream
import Rbc.Dcp2.Lifetime
import Rbc.Time.Deadline
import Rbc.Time.Units
import Rbc.Time.Factories
import Rbc.Time.Overflow
import Rbc.Time.UnitOrder
import Rbc.Time.TimespecRoundTrip
import Rbc.Time.Steps
import Rbc.Time.AnyOrder
import Rbc.Utils.TextRoundTrip
import Rbc.Utils.Scan
import Rbc.Utils.Numbers
import Rbc.Utils.CheckedParsing
import Rbc.Utils.Swap
import Rbc.Sync.ConditionMutex
import Rbc.Sync.WakeUp
import Rbc.Sync.Results
import Rbc.Sync.AwaitErrors
import Rbc.Sync.TimedWait
import Rbc.Sync.Rest
import Rbc.Sync.StartArgument
import Rbc.Sync.Win32Wait
import Rbc.Sync.SleepUntil
import Rbc.Sync.Semaphore
import Rbc.Sync.Permits
import Rbc.Sync.ThreadLifetime
import Rbc.Sync.RepeatedDestroy
import Rbc.Sync.FailedDestroy
import Rbc.Sync.LockGuard
import Rbc.Sync.SharedMutex
import Rbc.Containers.Ownership
import Rbc.Containers.Capacity
import Rbc.Containers.ValueSemantics
import Rbc.Containers.AllocationFailure
import Rbc.Containers.Comparison
import Rbc.Core.Version
import Rbc.Core.ErrorText
import Rbc.Core.AssertHandler
import Rbc.Core.ByteOrder
