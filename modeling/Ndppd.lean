import Ndppd.Accepted
import Ndppd.Accounts.Exact
import Ndppd.Accounts.Lines
import Ndppd.Addr.Masks
import Ndppd.Addr.Print
import Ndppd.Alloc.Provided
import Ndppd.Backoff
import Ndppd.Bookkeeping
import Ndppd.Cap
import Ndppd.Capture
import Ndppd.Convergence
import Ndppd.Filter
import Ndppd.GivingUp
import Ndppd.Membership
import Ndppd.Parse.Bounds
import Ndppd.Records
import Ndppd.RoundTrip
import Ndppd.Rt.Addrs
import Ndppd.Rt.Mirror
import Ndppd.Seed
import Ndppd.Session.Buckets
import Ndppd.Session.Runs
import Ndppd.Subscribers
import Ndppd.Unique
import Ndppd.Wire
import Ndppd.Lib.Framing
import Ndppd.Netlink
import Ndppd.Netlink.Datagrams
import Ndppd.Netlink.Routes
import Ndppd.MainLoop
import Ndppd.MainLoop.Fresh
import Ndppd.Daemon.Objects
import Ndppd.Hearing
import Ndppd.MainLoop.Reconverge
import Ndppd.Responsive
import Ndppd.Lib.Descriptors
import Ndppd.Pidfile
import Ndppd.Pidfile.Exclusion
import Ndppd.Lib.Credentials
import Ndppd.Privileges
import Ndppd.Autowire.Requests
