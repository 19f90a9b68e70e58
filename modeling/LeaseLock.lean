import LeaseLock.Consul.Adapter
import LeaseLock.Etcd.Adapter
import LeaseLock.Memory.Store
import LeaseLock.Mongo.Adapter
import LeaseLock.Permissive
import LeaseLock.Proofs.Locker.Calls
import LeaseLock.Proofs.Memory.Exclusion
import LeaseLock.Proofs.Remote.Renewal
import LeaseLock.Redis.Setup
import LeaseLock.Rehearsal
import LeaseLock.Session
import LeaseLock.Sql.Setup
import LeaseLock.Proofs.Memory.Leases
import LeaseLock.Proofs.Redis.Database
import LeaseLock.Proofs.Redis.Dialogues
import LeaseLock.Proofs.Redis.Traffic
import LeaseLock.Proofs.Locker.AtRest
import LeaseLock.Proofs.World.Pace
import LeaseLock.Proofs.Memory.Upkeep
import LeaseLock.Proofs.Memory.Healthy
import LeaseLock.Proofs.Memory.Losses
import LeaseLock.Proofs.Sql.Rows
import LeaseLock.Proofs.Sql.Traffic
import LeaseLock.Proofs.Remote.Network
import LeaseLock.Proofs.Remote.Journal
import LeaseLock.Proofs.Remote.Transcript
import LeaseLock.Proofs.Remote.Register
import LeaseLock.Proofs.Mongo.Evaluation
import LeaseLock.Proofs.Mongo.Updates
import LeaseLock.Proofs.Mongo.Database
import LeaseLock.Proofs.Mongo.Dialogues
import LeaseLock.Proofs.Mongo.Traffic
import LeaseLock.Proofs.Etcd.Dialogues
import LeaseLock.Proofs.Etcd.Store
import LeaseLock.Proofs.Etcd.Traffic
import LeaseLock.Proofs.Consul.Store
import LeaseLock.Proofs.Consul.Dialogues
import LeaseLock.Proofs.Consul.Traffic
import LeaseLock.Proofs.Sql.Acquisitions
import LeaseLock.Proofs.Redis.Lock
import LeaseLock.Proofs.Redis.Agreement
import LeaseLock.Proofs.Locker.Cadence
import LeaseLock.Proofs.Locker.Phases
import LeaseLock.Proofs.Locker.Health
import LeaseLock.Proofs.Remote.Courses
import LeaseLock.Proofs.Consul.Attempts
import LeaseLock.Proofs.Etcd.Attempts
import LeaseLock.Proofs.Etcd.Refreshes
import LeaseLock.Proofs.Remote.Contention
import LeaseLock.Proofs.Url.Percent
import LeaseLock.Proofs.Url.Directory
import LeaseLock.Proofs.Url.Literal
import LeaseLock.Proofs.Consul.Keys
import LeaseLock.Proofs.Remote.Custody
import LeaseLock.Proofs.Protection
import LeaseLock.Proofs.Mongo.Takings
import LeaseLock.Proofs.Locker.Status
import LeaseLock.Proofs.Locker.Persistence
import LeaseLock.Proofs.Locker.Naps
import LeaseLock.Proofs.Locker.Ranges
import LeaseLock.Proofs.Locker.Line
import LeaseLock.Proofs.Locker.Dropping
import LeaseLock.Proofs.Json.Grammar
import LeaseLock.Proofs.Json.Values
import LeaseLock.Proofs.Text.Decimal
import LeaseLock.Proofs.Consul.Entries
import LeaseLock.Proofs.Text.Base64
import LeaseLock.Proofs.Consul.Owners
import LeaseLock.Proofs.Sql.Lexis
import LeaseLock.Proofs.Sql.Binds
import LeaseLock.Proofs.Sql.Disturbances
import LeaseLock.Proofs.Sql.Undoing
import LeaseLock.Proofs.Refusals
import LeaseLock.Proofs.Options
import LeaseLock.Proofs.Lifetimes
