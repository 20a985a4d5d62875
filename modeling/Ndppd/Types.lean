import Ndppd.Addr
import Ndppd.Lib.Intrusive

/-!
# The data model

The objects of the daemon (`ndppd.h`) and its global variables.

Objects are named by identifiers, which stand for their addresses. A pointer
is an optional identifier; an identifier is used for one object only.

* Proxies and rules (`Config`) are built when the configuration is read and
  get their interfaces at start-up; later, they are only read.
* The interface objects (`Net`) are in one list, from their creation until
  they are freed. That list, like those of routes, own addresses and
  subscribers, is a `List` of its elements.
* The sessions (`Store`) are each in two hash tables at once, of lists linked
  through the fields `next` and `next_r` of the sessions. These are
  `Intrusive.Table`s: they are modelled pointer by pointer.

The kernel is known by its answers (`Kernel`), which may differ at every call.
What the daemon does to the outside — the packets it sends, the requests it
makes to the kernel — goes to a log, the newest entry first.
-/

namespace Ndppd

open Intrusive

abbrev SessionId := ℕ
abbrev IfaceId := ℕ
abbrev ProxyId := ℕ
abbrev RuleId := ℕ

/-- The bytes of an interface name, without the final NUL. -/
abbrev IfName := List U8

/-- `nd_state_t`. -/
inductive State
  | incomplete
  | valid
  | stale
  | invalid
  deriving DecidableEq, Repr

/-- `nd_mode_t`. -/
inductive Mode
  | unknown
  | static
  | iface
  | auto
  deriving DecidableEq, Repr

/-! ## Configuration -/

/-- The global settings (`nd_conf_*`), with their defaults; times are in
    milliseconds. The seed of the hash is drawn once. -/
structure Conf where
  byteOrder : ByteOrder
  hashSeed : U32
  invalidTtl : ℤ := 10000
  validTtl : ℤ := 30000
  staleTtl : ℤ := 30000
  retransLimit : ℤ := 3
  retransTime : ℤ := 1000
  keepalive : Bool := false

/-- `nd_rule_t`. -/
structure Rule where
  proxy : ProxyId
  ifname : IfName := []
  target : LlAddr := 0
  addr : Addr := 0
  pflen : ℕ := 0
  rewriteTgt : Addr := 0
  rewritePflen : ℕ := 0
  iface : Option IfaceId := none
  autowire : Bool := false
  table : ℕ := 0
  mode : Mode := .unknown

/-- `nd_proxy_t`. -/
structure Proxy where
  ifname : IfName := []
  target : LlAddr := 0
  iface : Option IfaceId := none
  rules : List RuleId := []
  router : Bool := false
  promiscuous : Bool := false

/-- The proxies (`ndL_proxies`) and their rules. A rule is in the list of one
    proxy, once, and points back to it: `nd_rule_create` links it so. -/
structure Config where
  proxies : List ProxyId
  proxy : ProxyId → Proxy
  rule : RuleId → Rule
  /-- The proxy and the rule that will be created next. -/
  freshProxy : ProxyId
  freshRule : RuleId
  proxies_lt : ∀ p ∈ proxies, p < freshProxy
  proxies_nodup : proxies.Nodup
  rules_lt : ∀ p, ∀ r ∈ (proxy p).rules, r < freshRule
  rules_nodup : ∀ p, (proxy p).rules.Nodup
  linked : ∀ p, ∀ r ∈ (proxy p).rules, (rule r).proxy = p

/-! ## Interfaces -/

/-- `nd_iface_t`. -/
structure Iface where
  refcount : ℤ := 0
  name : IfName := []
  lladdr : LlAddr := 0
  index : ℕ := 0
  up : Bool := false
  adminUp : Bool := false
  proxy : Option ProxyId := none
  promiscuous : Bool := false

/-- The interface objects: those of the list `ndL_first_iface`, and the one
    that will be created next. -/
structure Net where
  ifaces : List IfaceId
  iface : IfaceId → Iface
  fresh : IfaceId

/-- No interface object. -/
def Net.empty : Net where
  ifaces := []
  iface _ := {}
  fresh := 0

/-! ## Routes and addresses -/

/-- `nd_rt_route_t`. -/
structure Route where
  dst : Addr
  oif : ℕ
  pflen : ℕ
  table : ℕ
  owned : Bool := false
  deriving DecidableEq

/-- What a route is for. -/
structure RouteKey where
  dst : Addr
  pflen : ℕ
  table : ℕ
  deriving DecidableEq

/-- `nd_rt_addr_t`. -/
structure RtAddr where
  iif : ℕ
  addr : Addr
  pflen : ℕ
  deriving DecidableEq

/-- What the daemon knows of the kernel's routes (`ndL_routes`) and addresses
    (`ndL_addrs`). -/
structure Rt where
  routes : List Route := []
  addrs : List RtAddr := []

/-! ## The kernel -/

/-- `errno` after a name lookup. -/
inductive Errno
  | ok
  | enodev
  | other
  deriving DecidableEq, Repr

/-- What tells a frame from the others that an interface sends: a solicitation for `tgt`, or an
    advertisement of `tgt` to `dst`. -/
inductive Outgoing
  | ns (tgt : Addr)
  | na (dst : Addr) (dstLl : LlAddr) (tgt : Addr)
  deriving DecidableEq

/-- The answers of the kernel to the system calls of the daemon. -/
structure Kernel where
  /-- `if_nametoindex`: the index, `0` on failure, and `errno`. -/
  ifNametoindex : IfName → ℕ × Errno
  /-- `if_indextoname`. -/
  ifIndextoname : ℕ → Option IfName
  /-- The `SIOCGIFHWADDR` request. -/
  hwaddr : IfName → Option LlAddr
  /-- The `SIOCGIFFLAGS` request: whether `IFF_UP` is set. -/
  flags : IfName → Option Bool
  /-- Whether `PACKET_ADD_MEMBERSHIP` succeeds, given the index and whether the
      mode is `PACKET_MR_PROMISC`. -/
  addMembership : ℕ → Bool → Bool
  /-- Whether a route request is accepted, given its destination, prefix length,
      interface and table. -/
  addRoute : Addr → ℕ → ℕ → ℕ → Bool
  /-- Whether the removal of a route is accepted. -/
  removeRoute : Addr → ℕ → ℕ → Bool
  /-- Whether `sendmsg` takes a frame for the interface with an index. -/
  sendmsg : ℕ → Outgoing → Bool

/-! ## Sessions -/

/-- `nd_sub_t`. -/
structure Sub where
  addr : Addr
  lladdr : LlAddr
  deriving DecidableEq

/-- `nd_session_t`, without the pointers to the next sessions in its two lists. -/
structure Session where
  rule : RuleId
  tgt : Addr
  tgtR : Addr
  onsCount : ℤ := 0
  onsTime : ℤ := 0
  insTime : ℤ := 0
  stateTime : ℤ
  state : State := .incomplete
  iface : Option IfaceId := none
  subs : List Sub := []
  autowired : Bool := false

/-- `ND_SESSION_MAX_SUBS`. -/
def ndSessionMaxSubs : ℕ := 32

/-- `ND_SESSION_MAX`. -/
def ndSessionMax : ℕ := 4096

/-- `NDPPD_SESSION_BUCKETS`. -/
abbrev ndppdSessionBuckets : ℕ := 64

/-- `NDL_BUCKET`. -/
def ndlBucket (c : Conf) (a : Addr) : Fin ndppdSessionBuckets :=
  Fin.ofNat _ (ndAddrHash c.byteOrder c.hashSeed a).toNat

/-- The sessions: the objects that are allocated, the tables `ndL_sessions` and
    `ndL_sessions_r`, `ndL_session_count`, and the next identifier. -/
structure Store where
  session : SessionId → Option Session
  sessions : Table (Fin ndppdSessionBuckets) SessionId
  sessionsR : Table (Fin ndppdSessionBuckets) SessionId
  count : ℤ
  fresh : SessionId

/-- No session. -/
def Store.empty : Store where
  session _ := none
  sessions := .empty
  sessionsR := .empty
  count := 0
  fresh := 0

/-- Writes the session `i`. -/
def Store.set (st : Store) (i : SessionId) (s : Session) : Store :=
  { st with session := Function.update st.session i (some s) }

/-! ## The log -/

/-- What the daemon does to the outside, and the solicitations it receives.
    `who` is the session it acts for; a packet is not sent (`sent`) on an
    interface which is not up, or if the kernel does not take it. -/
inductive Act
  | ns (who : SessionId) (iface : Option IfaceId) (tgt : Addr) (sent : Bool)
  | na (who : SessionId) (iface : Option IfaceId) (dst : Addr) (dstLl : LlAddr) (tgt : Addr)
      (tgtLl : LlAddr) (router : Bool) (sent : Bool)
  | addRoute (who : SessionId) (dst : Addr) (pflen oif table : ℕ) (accepted : Bool)
  | removeRoute (who : Option SessionId) (dst : Addr) (pflen table : ℕ) (accepted : Bool)
  | addMembership (index : ℕ) (promiscuous : Bool) (accepted : Bool)
  | dropMembership (index : ℕ) (promiscuous : Bool)
  | rxNs (iface : IfaceId) (src tgt : Addr) (srcLl : Option LlAddr)
  deriving DecidableEq

/-- An entry of the log: an act and its time. -/
structure Entry where
  time : ℤ
  act : Act
  deriving DecidableEq

/-- The interfaces and the log: what the interface layer writes. -/
structure World where
  net : Net
  log : List Entry

/-! ## The daemon -/

/-- What a call of the session layer reads only: the answers of the kernel, the
    configuration, the routes and addresses, and `nd_current_time`. -/
structure Env where
  kernel : Kernel
  conf : Conf
  cfg : Config
  rt : Rt
  now : ℤ

/-- What a call of the session layer may write. -/
structure Mem where
  store : Store
  world : World

/-- Adds an act to the log. -/
def World.emit (w : World) (e : Env) (a : Act) : World := { w with log := ⟨e.now, a⟩ :: w.log }

@[simp] theorem World.emit_net (w : World) (e : Env) (a : Act) : (w.emit e a).net = w.net := rfl

@[simp] theorem World.emit_log (w : World) (e : Env) (a : Act) :
    (w.emit e a).log = ⟨e.now, a⟩ :: w.log := rfl

@[simp] theorem Store.set_session_self (st : Store) (i : SessionId) (s : Session) :
    (st.set i s).session i = some s := Function.update_self ..

theorem Store.set_session_of_ne (st : Store) {i j : SessionId} (s : Session) (h : j ≠ i) :
    (st.set i s).session j = st.session j := Function.update_of_ne h ..

theorem Store.set_self (st : Store) {i : SessionId} {s : Session} (h : st.session i = some s) :
    st.set i s = st := by
  rw [Store.set, ← h, Function.update_eq_self]

end Ndppd
