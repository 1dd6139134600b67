import PgRouter.Auth.AuthQuery
import PgRouter.Auth.Markers
import PgRouter.Auth.Passwords
import PgRouter.Auth.Selection
import PgRouter.Backend.PreparedNames
import PgRouter.Cancel.Routing
import PgRouter.Cancel.Uniqueness
import PgRouter.Client.Affinity.Runs
import PgRouter.Client.Draining
import PgRouter.Client.Drains
import PgRouter.Client.Fence
import PgRouter.Client.Handover
import PgRouter.Client.Inflight
import PgRouter.Client.Loops
import PgRouter.Client.Meanings
import PgRouter.Client.Replay
import PgRouter.Client.SessionMode
import PgRouter.Client.Sticky
import PgRouter.Client.Tenants
import PgRouter.Net.Addresses
import PgRouter.Net.Preamble
import PgRouter.Pool.Cap
import PgRouter.Pool.Conservation
import PgRouter.Pool.Lifetimes
import PgRouter.Pool.Limits
import PgRouter.Pool.Reload
import PgRouter.Pool.Shutdown
import PgRouter.Pool.Wakeups
import PgRouter.Replicas.Candidates
import PgRouter.Replicas.Picking
import PgRouter.Replicas.Spoiling
import PgRouter.Sql.Pins
import PgRouter.Sql.Recursion
import PgRouter.Sql.Redaction
import PgRouter.Sql.Replaying
import PgRouter.Sql.Tracking
import PgRouter.Wire.ClientFraming
import PgRouter.Wire.DrainSplice
import PgRouter.Wire.Extraction
import PgRouter.Wire.RawStreams
import PgRouter.Wiring.Dialing
import PgRouter.Wiring.Upstreams
