import NodeInventory.Api.Cluster
import NodeInventory.Api.Records
import NodeInventory.Fleet.Connection
import NodeInventory.Proofs.Contract
import NodeInventory.Proofs.Footprint
import NodeInventory.Proofs.Writers.Room
import NodeInventory.Record.Definition
import NodeInventory.Redis.Client
import NodeInventory.Schedule.Bounded
import NodeInventory.Settings
import NodeInventory.Simulation.Scheduling
import NodeInventory.Simulation.Session
import NodeInventory.Proofs.Writers.LostUpdate
import NodeInventory.Proofs.Interleaving
import NodeInventory.Proofs.Lock.System
import NodeInventory.Proofs.Lock.Protocol
import NodeInventory.Proofs.Lock.Lapse
import NodeInventory.Proofs.Lock.Exclusion
import NodeInventory.Proofs.Json.RoundTrip
import NodeInventory.Proofs.Inevitable
import NodeInventory.Proofs.Pass.Scene
import NodeInventory.Proofs.Dict
import NodeInventory.Proofs.Snapshot
import NodeInventory.Proofs.Pass.Care
import NodeInventory.Proofs.Pass.Upkeep
import NodeInventory.Proofs.Pass.Chores
import NodeInventory.Proofs.Pass.Sweep
import NodeInventory.Proofs.Task
import NodeInventory.Proofs.Pass.Enumeration
import NodeInventory.Proofs.Pass.Drain
import NodeInventory.Proofs.Pass.Convergence
import NodeInventory.Proofs.Writers.Testimony
import NodeInventory.Proofs.Writers.Success
import NodeInventory.Proofs.Writers.Truth
import NodeInventory.Proofs.Writers.Hall
import NodeInventory.Proofs.Writers.Healing
import NodeInventory.Proofs.Mirror.Crew
import NodeInventory.Proofs.Mirror.Repair
import NodeInventory.Proofs.Turns
import NodeInventory.Proofs.Indifference.Telling
import NodeInventory.Proofs.Indifference.Programs
import NodeInventory.Proofs.Indifference.Courses
import NodeInventory.Proofs.Queue.Office
import NodeInventory.Proofs.Queue.Conservation
import NodeInventory.Proofs.Bound
import NodeInventory.Proofs.Collection.Removal
import NodeInventory.Proofs.Collection.Safety
import NodeInventory.Proofs.Custody.Chores
import NodeInventory.Proofs.Custody.Order
import NodeInventory.Proofs.Text
import NodeInventory.Proofs.Quantity.Numeral
import NodeInventory.Proofs.Quantity.Scaling
import NodeInventory.Proofs.Quantity.Exactness
import NodeInventory.Proofs.Quantity.RoundTrip
import NodeInventory.Calculation
import NodeInventory.Proofs.Quantity.Arithmetic
import NodeInventory.Proofs.Quantity.Overflow
import NodeInventory.Proofs.Play
import NodeInventory.Proofs.Retry.Rounds
import NodeInventory.Proofs.Retry.Bound
import NodeInventory.Proofs.Writers.Contention
import NodeInventory.Proofs.Writers.Alone
import NodeInventory.Proofs.Accounting.Amounts
import NodeInventory.Proofs.Accounting.Exactness
import NodeInventory.Proofs.Accounting.Registry
import NodeInventory.Proofs.Failure
import NodeInventory.Proofs.Tour.System
import NodeInventory.Proofs.Tour.Reading
import NodeInventory.Proofs.Tour.Naming
import NodeInventory.Proofs.Tour.Enumeration
import NodeInventory.Proofs.Tour.Batch
import NodeInventory.Proofs.Tour.Logs
import NodeInventory.Proofs.Tour.Beat
import NodeInventory.Proofs.Tour.Removal
import NodeInventory.Proofs.Tour.Sweep
import NodeInventory.Proofs.Tour.Hazard
import NodeInventory.Proofs.Tour.Isolation
import NodeInventory.Proofs.Schedule.Greedy
import NodeInventory.Proofs.Schedule.Permits
import NodeInventory.Proofs.Schedule.Roster
import NodeInventory.Proofs.Schedule.Policy
import NodeInventory.Proofs.Schedule.Signal
import NodeInventory.Proofs.Lock.Discipline
import NodeInventory.Proofs.Envelope
import NodeInventory.Proofs.Json.Fields
import NodeInventory.Proofs.Record.Timestamp
import NodeInventory.Proofs.Record.RoundTrip
import NodeInventory.Proofs.Exchange
import NodeInventory.Proofs.Lookup.Selectors
import NodeInventory.Proofs.Lookup.Resolution
import NodeInventory.Proofs.Enqueueing
import NodeInventory.Proofs.Taxonomy
import NodeInventory.Proofs.Settings.Pairs
import NodeInventory.Proofs.Settings.Acceptance
import NodeInventory.Proofs.Metrics.Balance
import NodeInventory.Proofs.Metrics.Errands
import NodeInventory.Proofs.Metrics.Agreement
