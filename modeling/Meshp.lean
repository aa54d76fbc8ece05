import Meshp.Session.Enforced
import Meshp.Relay.Run
import Meshp.Session.Converge
import Meshp.Session.FilterDelta
import Meshp.Health.Decline
import Meshp.Health.Recovery
import Meshp.Routeprobe.Pinned
import Meshp.Routeprobe.Queue
import Meshp.Session.Concurrent
import Meshp.Wgplan.Endpoint
import Meshp.Api.Tenancy
import Meshp.Ipam.Occupancy
import Meshp.Egress.Excluded
import Meshp.Dns.Labels
import Meshp.Dns.Message
import Meshp.Wglink.Policyroute
import Meshp.Tunnel.Locking
import Meshp.Prefixmap.Last
import Meshp.Session.Contested
import Meshp.Store.LockOrder
import Meshp.Wgplan.Lookup
import Meshp.Api.Tokens
import Meshp.Accounts.Owners
import Meshp.Accounts.Throttle
import Meshp.Nftables.Stable
import Meshp.Session.Withdrawal
import Meshp.Tunnel.Honoured
import Meshp.Tunnel.Leaving
import Meshp.Agent.Interfaces
import Meshp.Agent.Supervision
import Meshp.Session.Relaying
import Meshp.Session.Revocation
import Meshp.Enroll.Redemptions
import Meshp.Tunnel.Contest
import Meshp.Challenge.Verify
import Meshp.Enroll.Exhaustion
import Meshp.Api.Faults
