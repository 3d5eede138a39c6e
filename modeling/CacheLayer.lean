import CacheLayer.Config.Environment
import CacheLayer.Machine
import CacheLayer.Transform.Standard
import CacheLayer.Proofs.Client.Coding
import CacheLayer.Proofs.Strategy.Call
import CacheLayer.Proofs.Strategy.Smooth
import CacheLayer.Proofs.Strategy.Effect
import CacheLayer.Proofs.Strategy.Transparent
import CacheLayer.Proofs.WriteBehind.History
import CacheLayer.Proofs.WriteBehind.Interplay
import CacheLayer.Proofs.WriteBehind.Slots
import CacheLayer.Proofs.WriteBehind.Ledger
import CacheLayer.Proofs.WriteBehind.Gate
import CacheLayer.Proofs.WriteBehind.Sound
import CacheLayer.Proofs.WriteBehind.Step
import CacheLayer.Proofs.Program.Along
import CacheLayer.Proofs.WriteBehind.Walk
import CacheLayer.Proofs.WriteBehind.Play
import CacheLayer.Proofs.WriteBehind.Convergence
import CacheLayer.Proofs.WriteBehind.Custody
import CacheLayer.Proofs.WriteBehind.Closing
import CacheLayer.Proofs.WriteBehind.Cached
import CacheLayer.Proofs.WriteBehind.Heed
import CacheLayer.Proofs.WriteBehind.Agreement
import CacheLayer.Proofs.WriteBehind.Progress
import CacheLayer.Proofs.Store.Batch
import CacheLayer.Proofs.Store.Expiry
import CacheLayer.Proofs.Store.Deadline
import CacheLayer.Proofs.Store.Lifetime
import CacheLayer.Proofs.Strategy.Turnout
import CacheLayer.Proofs.Strategy.Current
import CacheLayer.Proofs.Strategy.Reading
import CacheLayer.Proofs.Service.GetOrLoad
import CacheLayer.Proofs.Store.Walk
import CacheLayer.Proofs.Glob.Language
import CacheLayer.Proofs.Client.Pipeline
import CacheLayer.Proofs.Client.Request
import CacheLayer.Proofs.Client.Bare
import CacheLayer.Proofs.Client.Numbers
import CacheLayer.Proofs.Client.Misses
import CacheLayer.Proofs.Envelope.Layout
import CacheLayer.Proofs.Store.Filled
import CacheLayer.Proofs.Client.Failure
import CacheLayer.Proofs.Client.Scan
import CacheLayer.Proofs.Store.Deletion
import CacheLayer.Proofs.Invalidation.Target
import CacheLayer.Proofs.Invalidation.Cascade
import CacheLayer.Proofs.Store.Member
import CacheLayer.Proofs.Invalidation.Tag
import CacheLayer.Proofs.Invalidation.Membership
import CacheLayer.Proofs.Invalidation.Mirror
import CacheLayer.Proofs.Invalidation.Restart
import CacheLayer.Proofs.Program.Course
import CacheLayer.Proofs.Program.Dialogue
import CacheLayer.Proofs.Program.Gathering
import CacheLayer.Proofs.Program.Guard
import CacheLayer.Proofs.Reload.Vetting
import CacheLayer.Proofs.Reload.Loads
import CacheLayer.Proofs.Reload.Attempts
import CacheLayer.Proofs.Reload.Memory
import CacheLayer.Proofs.Reload.Loop
import CacheLayer.Proofs.Reload.Scheduler
import CacheLayer.Proofs.Reload.Progress
import CacheLayer.Proofs.Reload.Checked
import CacheLayer.Proofs.Reload.Fates
import CacheLayer.Proofs.Reload.Batch
import CacheLayer.Proofs.Reload.Chunking
import CacheLayer.Proofs.Reload.Full
import CacheLayer.Proofs.Reload.Lifecycle
import CacheLayer.Proofs.Registry
import CacheLayer.Proofs.Strategy.Requests
import CacheLayer.Proofs.Strategy.Traffic
import CacheLayer.Proofs.Strategy.Counting
import CacheLayer.Proofs.Strategy.Balance
import CacheLayer.Proofs.WarmUp.Flag
import CacheLayer.Proofs.WarmUp.Once
import CacheLayer.Proofs.WarmUp.Failure
import CacheLayer.Proofs.WarmUp.Chunk
import CacheLayer.Proofs.WarmUp.Filling
import CacheLayer.Proofs.WarmUp.Supply
import CacheLayer.Proofs.WarmUp.Confluence
import CacheLayer.Proofs.Store.Container
import CacheLayer.Proofs.Store.Ranges
import CacheLayer.Proofs.Store.Collections
import CacheLayer.Proofs.Store.Counter
import CacheLayer.Proofs.Client.Pattern
import CacheLayer.Proofs.Client.Counter
import CacheLayer.Proofs.Client.Swap
import CacheLayer.Proofs.Program.Retry
import CacheLayer.Proofs.Service.Budget
import CacheLayer.Proofs.Invalidation.Deletion
import CacheLayer.Proofs.Invalidation.Faults
import CacheLayer.Proofs.Stats
import CacheLayer.Proofs.Text.Split
import CacheLayer.Proofs.Config.Variable
import CacheLayer.Proofs.Config.Environment
import CacheLayer.Proofs.Json.Reread
import CacheLayer.Proofs.Datum.Reread
import CacheLayer.Proofs.Text.Timestamp
import CacheLayer.Proofs.Invalidation.Event
import CacheLayer.Proofs.Invalidation.Log
import CacheLayer.Proofs.Invalidation.Sweep
import CacheLayer.Proofs.Invalidation.History
