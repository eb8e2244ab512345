import HiveForum.Engagement.Encoding
import HiveForum.Postgres.Migration
import HiveForum.Postgres.Store
import HiveForum.Program.Interleaving
import HiveForum.Service.Config
import HiveForum.Simulation.Rehearsal
import HiveForum.Simulation.Script
import HiveForum.Sql.Database
import HiveForum.Proofs.Program.Contract
import HiveForum.Proofs.Program.Ending
import HiveForum.Proofs.Forum.Environment
import HiveForum.Proofs.Forum.Sound
import HiveForum.Proofs.Forum.Advance
import HiveForum.Proofs.Forum.Conduct
import HiveForum.Proofs.Engagement.Transition
import HiveForum.Proofs.Forum.Operations
import HiveForum.Proofs.Forum.Run
import HiveForum.Proofs.Engagement.Counters
import HiveForum.Proofs.Program.Trace
import HiveForum.Proofs.Engagement.Version
import HiveForum.Proofs.Engagement.Atomicity
import HiveForum.Proofs.Deletion.Pruning
import HiveForum.Proofs.Forum.Answers
import HiveForum.Proofs.Deletion.Enumeration
import HiveForum.Proofs.Deletion.Cascade
import HiveForum.Proofs.Deletion.Removal
import HiveForum.Proofs.Deletion.Resumption
import HiveForum.Proofs.Browse.Filling
import HiveForum.Proofs.Browse.Pages
import HiveForum.Proofs.Browse.Partition
import HiveForum.Proofs.Forum.Lineage
import HiveForum.Proofs.Browse.Stability
import HiveForum.Proofs.Isolation.Confinement
import HiveForum.Proofs.Isolation.Operations
import HiveForum.Proofs.Isolation.Oversight
import HiveForum.Proofs.Isolation.Alignment
import HiveForum.Proofs.Isolation.Integrity
import HiveForum.Proofs.Isolation.Likeness
import HiveForum.Proofs.Program.Execution
import HiveForum.Proofs.Program.Bound
import HiveForum.Proofs.Forum.Hosts
import HiveForum.Proofs.Forum.Plain
import HiveForum.Proofs.Forum.Bounds
import HiveForum.Proofs.Isolation.Confidentiality
import HiveForum.Proofs.Forum.Caution
import HiveForum.Proofs.Forum.Failure
import HiveForum.Proofs.Forum.Alone
import HiveForum.Proofs.Store.Census
import HiveForum.Proofs.Deletion.Reckoning
import HiveForum.Proofs.Program.Protocol
import HiveForum.Proofs.Forum.Asking
import HiveForum.Proofs.Forum.Commenting
import HiveForum.Proofs.Forum.Discussion
import HiveForum.Proofs.Deletion.Lateness
import HiveForum.Proofs.Deletion.Survey
import HiveForum.Proofs.Deletion.Orphans
import HiveForum.Proofs.Forum.Turns
import HiveForum.Proofs.Forum.Issuing
import HiveForum.Proofs.Deletion.Clearing
import HiveForum.Proofs.Forum.WellFormed
import HiveForum.Proofs.Engagement.Writes
import HiveForum.Proofs.Isolation.Rights
import HiveForum.Proofs.Postgres.Reading
import HiveForum.Proofs.Postgres.Holding
import HiveForum.Proofs.Postgres.Executing
import HiveForum.Proofs.Postgres.Recording
import HiveForum.Proofs.Postgres.Committing
import HiveForum.Proofs.Browse.Walking
import HiveForum.Proofs.Postgres.Listing
import HiveForum.Proofs.Postgres.Transacting
import HiveForum.Proofs.Browse.Cursors
import HiveForum.Proofs.Browse.Binding
import HiveForum.Proofs.Deletion.Nesting
import HiveForum.Proofs.Deletion.Circling
import HiveForum.Proofs.Forum.Company
import HiveForum.Proofs.Program.Clock
import HiveForum.Proofs.Forum.Lasting
import HiveForum.Proofs.Forum.Deadlines
import HiveForum.Proofs.Browse.Showing
import HiveForum.Proofs.Forum.Dating
import HiveForum.Proofs.Browse.Chronology
import HiveForum.Proofs.Forum.Activity
import HiveForum.Proofs.Forum.Undisturbed
import HiveForum.Proofs.Browse.Aggregates
import HiveForum.Proofs.Program.Sequencing
import HiveForum.Proofs.Forum.Serving
import HiveForum.Proofs.Engagement.Handling
import HiveForum.Proofs.Engagement.Visits
import HiveForum.Proofs.Engagement.Blankness
import HiveForum.Proofs.Engagement.Tallying
import HiveForum.Proofs.Engagement.Independence
import HiveForum.Proofs.Schedule.Moves
import HiveForum.Proofs.Schedule.Slots
import HiveForum.Proofs.Schedule.Joining
import HiveForum.Proofs.Deletion.Ladder
import HiveForum.Proofs.Program.Journals
import HiveForum.Proofs.Forum.Announcing
import HiveForum.Proofs.Forum.Delivery
import HiveForum.Proofs.Postgres.Kinds
import HiveForum.Proofs.Postgres.Keeping
import HiveForum.Proofs.Schedule.Delays
import HiveForum.Proofs.Text.Digits
import HiveForum.Proofs.Text.Identifiers
import HiveForum.Proofs.Json.Literals
import HiveForum.Proofs.Json.Reading
import HiveForum.Proofs.Json.Stored
import HiveForum.Proofs.Text.Blanks
import HiveForum.Proofs.Service.Seeding
import HiveForum.Proofs.Service.Values
import HiveForum.Proofs.Service.Accepting
import HiveForum.Proofs.Deletion.Sweep
