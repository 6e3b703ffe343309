import EventTracking.Session.Run
import EventTracking.Proofs.Async.Crowd
import EventTracking.Proofs.Session.Delivery
import EventTracking.Proofs.Queue.Draining
import EventTracking.Proofs.Async.Sole
import EventTracking.Proofs.Queue.View
import EventTracking.Proofs.Queue.Fifo
import EventTracking.Proofs.Handoff.Forwarding
import EventTracking.Proofs.Handoff.Tasks
import EventTracking.Proofs.Family.Tasks
import EventTracking.Proofs.Family.Link
import EventTracking.Proofs.Family.Flow
import EventTracking.Proofs.Family.Waiting
import EventTracking.Proofs.Before
import EventTracking.Proofs.Family.Delivering
import EventTracking.Proofs.Family.Order
import EventTracking.Proofs.Family.Founding
import EventTracking.Proofs.Async.Abandon
import EventTracking.Proofs.Queue.GivingUp
import EventTracking.Proofs.Queue.Retention
import EventTracking.Proofs.Async.Latch
import EventTracking.Proofs.Queue.Exclusion
import EventTracking.Proofs.Json.Scalars
import EventTracking.Proofs.Event.ReadBack
import EventTracking.Proofs.Json.Sound
import EventTracking.Proofs.Event.Made
import EventTracking.Proofs.Event.Finalized
import EventTracking.Proofs.Async.Alone
import EventTracking.Proofs.Disk
import EventTracking.Proofs.Queue.FileText
import EventTracking.Proofs.Queue.Filing
import EventTracking.Proofs.Queue.Refinement
import EventTracking.Proofs.Async.Ending
import EventTracking.Proofs.Transport.Accounting
import EventTracking.Proofs.Transport.Usability
import EventTracking.Proofs.Transport.Retrying
import EventTracking.Proofs.Session.Heeding
import EventTracking.Proofs.Transport.BackingOff
import EventTracking.Proofs.Context.Ancestry
import EventTracking.Proofs.Session.Jobs
import EventTracking.Proofs.Queue.Crew
import EventTracking.Proofs.Session.Turns
import EventTracking.Proofs.Session.Commands
import EventTracking.Proofs.Queue.Lifecycle
import EventTracking.Proofs.Queue.Rejection
import EventTracking.Proofs.Tracker.Registry
import EventTracking.Proofs.Context.Equality
import EventTracking.Proofs.Tracker.Sharing
import EventTracking.Proofs.Handoff.Waking
import EventTracking.Proofs.Handoff.Loss
import EventTracking.Proofs.Context.Value
import EventTracking.Proofs.Event.Value
import EventTracking.Proofs.Event.Wire
import EventTracking.Proofs.Queue.Departure
import EventTracking.Proofs.Context.Removal
import EventTracking.Proofs.Async.Gathering
import EventTracking.Proofs.Transport.Switching
import EventTracking.Proofs.Async.Settling
import EventTracking.Proofs.Queue.Solitude
import EventTracking.Proofs.Queue.Flushing
import EventTracking.Proofs.Queue.Emptiness
import EventTracking.Proofs.Session.Reporting
import EventTracking.Proofs.Context.Collisions
import EventTracking.Proofs.Context.Labels
import EventTracking.Proofs.Context.PublicContent
import EventTracking.Proofs.Tracker.Scoping
import EventTracking.Proofs.Taxonomy.Rules
import EventTracking.Proofs.Tracker.PluginOrder
import EventTracking.Proofs.Tracker.Observing
import EventTracking.Proofs.Async.Joining
import EventTracking.Proofs.Async.Finishing
import EventTracking.Proofs.Queue.Fleet
import EventTracking.Proofs.Queue.Returning
import EventTracking.Proofs.Queue.Together
import EventTracking.Proofs.Queue.Tally
import EventTracking.Proofs.Queue.Concluding
import EventTracking.Proofs.Tracker.FlushingAll
import EventTracking.Proofs.Plugin.Names
import EventTracking.Proofs.Retry.Deciding
import EventTracking.Proofs.Waiting.Clock

