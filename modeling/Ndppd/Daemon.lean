import Ndppd.Proxy

/-!
# The daemon

The daemon as a transition system. A state (`Daemon`) is that of all its global
variables; an event is something the main loop runs, at some time, with the
answers the kernel gives to it: a packet, a tick, a pass over the interfaces, a
change of the routes or addresses. A run is any sequence of events, at any
times.

Packets come after the checks on their headers: a solicitation or an
advertisement is the bytes of its ICMPv6 message.
-/

namespace Ndppd

/-! ## Packets -/

/-- The sixteen bytes at the offset `o`. -/
def addrAt (b : List U8) (o : ℕ) : Addr :=
  ((b.drop o).take 16).foldl (fun a x => a <<< 8 ||| x.setWidth 128) 0

/-- The six bytes at the offset `o`. -/
def lladdrAt (b : List U8) (o : ℕ) : LlAddr :=
  ((b.drop o).take 6).foldl (fun a x => a <<< 8 ||| x.setWidth 48) 0

/-- `sizeof(struct nd_neighbor_solicit)`, and `sizeof(struct nd_neighbor_advert)`. -/
def ndHeaderSize : ℕ := 24

/-- The loop over the options of a solicitation, in at most `n` rounds: the
    source link-layer address they give, if any, or `none` if the solicitation
    is discarded. -/
def nsOptions : ℕ → List U8 → Option LlAddr → Option (Option LlAddr)
  | 0, _, srcLl => some srcLl
  | n + 1, opts, srcLl =>
    if opts.length < 8 then some srcLl
    else
      let type := opts.getD 0 0
      let len := (opts.getD 1 0).toNat
      if len = 0 then none
      else if len * 8 > opts.length then some srcLl
      else nsOptions n (opts.drop (len * 8))
        (if type = 1 ∧ len = 1 then some (lladdrAt opts 2) else srcLl)

/-- The target and the source link-layer address `ndL_handle_ns` reads in a
    solicitation, or `none` if it drops it. -/
def parseNs (bo : ByteOrder) (src : Addr) (icmp : List U8) (ethSrc : LlAddr) :
    Option (Addr × Option LlAddr) :=
  if icmp.length < ndHeaderSize then none
  else
    let tgt := addrAt icmp 8
    if ndAddrIsMulticast tgt then none
    else if ndAddrIsUnspecified bo src then some (tgt, none)
    else
      let opts := icmp.drop ndHeaderSize
      -- A solicitation without the option comes from the Ethernet source.
      (nsOptions opts.length opts none).map fun srcLl => (tgt, some (srcLl.getD ethSrc))

def ndLHandleNs (e : Env) (f : IfaceId) (src : Addr) (icmp : List U8) (ethSrc : LlAddr)
    (m : Mem) : Mem :=
  match (m.world.net.iface f).proxy with
  | none => m
  | some p =>
    match parseNs e.conf.byteOrder src icmp ethSrc with
    | none => m
    | some (tgt, srcLl) =>
      ndProxyHandleNs e p src tgt srcLl
        { m with world := m.world.emit e (.rxNs f src tgt srcLl) }

/-- The target of an advertisement, or `none` if it is too short. -/
def naTarget (icmp : List U8) : Option Addr :=
  if icmp.length < ndHeaderSize then none else some (addrAt icmp 8)

def ndLHandleNa (e : Env) (f : IfaceId) (icmp : List U8) (m : Mem) : Mem :=
  match naTarget icmp with
  | none => m
  | some tgt =>
    match ndSessionFindR e tgt f m.store with
    | none => m
    | some i => m.withSession i (ndSessionHandleNa e i)

/-! ## Interfaces -/

/-- Writes the interface object `i`. -/
def Mem.setIface (m : Mem) (i : IfaceId) (f : Iface) : Mem :=
  { m with world := { m.world with net := m.world.net.set i f } }

/-- Adds an act to the log. -/
def Mem.emit (m : Mem) (e : Env) (a : Act) : Mem := { m with world := m.world.emit e a }

/-- `nd_iface_rebind_all`, for an interface that is absent. -/
def rebindAbsent (e : Env) (i : IfaceId) (m : Mem) : Mem :=
  let f := m.world.net.iface i
  if f.up then
    ndSessionIfaceChanged e i false (m.setIface i { f with up := false, adminUp := false })
  else m

/-- `nd_iface_rebind_all`, for an interface that is up with the same index: the
    kernel flushes its routes when it goes down, and refuses new ones. -/
def rebindSame (e : Env) (i : IfaceId) (adminUp : Bool) (m : Mem) : Mem :=
  let f := m.world.net.iface i
  let m := if adminUp != f.adminUp then ndSessionIfaceChanged e i adminUp m else m
  m.setIface i { m.world.net.iface i with adminUp := adminUp }

/-- `nd_iface_rebind_all`, for an interface that appeared with the index `cur`. -/
def rebindNew (e : Env) (i : IfaceId) (cur : ℕ) (adminUp : Bool) (m : Mem) : Mem :=
  let f := m.world.net.iface i
  let accepted := e.kernel.addMembership cur f.promiscuous
  let m := m.emit e (.addMembership cur f.promiscuous accepted)
  if accepted then
    let m := if f.index ≠ 0 ∧ f.index ≠ cur then m.emit e (.dropMembership f.index f.promiscuous)
      else m
    let m := if f.up then ndSessionIfaceChanged e i false m else m
    let m := m.setIface i { m.world.net.iface i with index := cur, up := true }
    let m := if adminUp then ndSessionIfaceChanged e i true m else m
    m.setIface i { m.world.net.iface i with adminUp := adminUp }
  else m

/-- `nd_iface_rebind_all`, for one object. -/
def rebindIface (e : Env) (m : Mem) (i : IfaceId) : Mem :=
  let f := m.world.net.iface i
  let (cur, errno) := e.kernel.ifNametoindex f.name
  if cur = 0 then
    -- The lookup itself may have failed, which does not mean that it is absent.
    if errno = .ok ∨ errno = .enodev then rebindAbsent e i m else m
  else
    let m := m.setIface i { f with lladdr := (e.kernel.hwaddr f.name).getD f.lladdr }
    let adminUp := (e.kernel.flags f.name).getD false
    if cur = f.index ∧ f.up then rebindSame e i adminUp m else rebindNew e i cur adminUp m

def ndIfaceRebindAll (e : Env) (m : Mem) : Mem :=
  m.world.net.ifaces.foldl (rebindIface e) m

/-! ## Runs -/

/-- The state of the daemon. -/
structure Daemon where
  conf : Conf
  cfg : Config
  rt : Rt
  now : ℤ
  mem : Mem

/-- What the main loop runs. -/
inductive Action
  /-- `nd_proxy_handle_ns`, whatever its arguments. -/
  | ns (p : ProxyId) (src tgt : Addr) (srcLl : Option LlAddr)
  /-- A solicitation received on an interface. -/
  | rxNs (f : IfaceId) (src : Addr) (icmp : List U8) (ethSrc : LlAddr)
  /-- An advertisement received on an interface. -/
  | rxNa (f : IfaceId) (icmp : List U8)
  /-- `nd_session_update_all`. -/
  | tick
  /-- `nd_iface_rebind_all`. -/
  | rebind
  /-- `nd_rt_remove_owned_routes`. -/
  | removeOwnedRoutes
  | newRoute (route : Route)
  | deleteRoute (route : Route)
  | newAddr (addr : RtAddr)
  | deleteAddr (addr : RtAddr)

/-- An action, its time, and the answers of the kernel during it. -/
structure Event where
  time : ℤ
  kernel : Kernel
  action : Action

namespace Daemon

/-- What the calls during an event read. -/
def env (d : Daemon) (ev : Event) : Env where
  kernel := ev.kernel
  conf := d.conf
  cfg := d.cfg
  rt := d.rt
  now := ev.time

/-- What an action does to what the session layer writes. -/
def stepMem (e : Env) (a : Action) (m : Mem) : Mem :=
  match a with
  | .ns p src tgt srcLl => ndProxyHandleNs e p src tgt srcLl m
  | .rxNs f src icmp ethSrc => ndLHandleNs e f src icmp ethSrc m
  | .rxNa f icmp => ndLHandleNa e f icmp m
  | .tick => ndSessionUpdateAll e m
  | .rebind => ndIfaceRebindAll e m
  | .removeOwnedRoutes => { m with world := ndRtRemoveOwnedRoutes e m.world }
  | _ => m

/-- What an action does to the routes and addresses. -/
def stepRt (bo : ByteOrder) (a : Action) (rt : Rt) : Rt :=
  match a with
  | .newRoute route => { rt with routes := ndLNewRoute bo route rt.routes }
  | .deleteRoute route => { rt with routes := ndLDeleteRoute bo route rt.routes }
  | .newAddr addr => { rt with addrs := ndLNewAddr bo addr rt.addrs }
  | .deleteAddr addr => { rt with addrs := ndLDeleteAddr bo addr rt.addrs }
  | _ => rt

/-- The state after an event. -/
def step (d : Daemon) (ev : Event) : Daemon where
  conf := d.conf
  cfg := d.cfg
  rt := stepRt d.conf.byteOrder ev.action d.rt
  now := ev.time
  mem := stepMem (d.env ev) ev.action d.mem

/-- The state after a run. -/
def run (d : Daemon) (es : List Event) : Daemon := es.foldl step d

/-- The daemon before any session, with the interfaces opened at start-up. -/
def init (conf : Conf) (cfg : Config) (world : World) : Daemon where
  conf := conf
  cfg := cfg
  rt := {}
  now := 0
  mem := { store := .empty, world := world }

/-- The daemon after start-up, if it succeeds. -/
def start (e : Env) (c : Config) : Option Daemon :=
  (ndProxyStartup e c { net := .empty, log := [] }).map fun cw => init e.conf cw.1 cw.2

end Daemon

/-! ## A small network

For examples: a host with three interfaces, whose kernel accepts everything, and
two proxies, on the first two interfaces, with the same rule each. -/

namespace Small

/-- The interface `n` has the name `[n]` and the index `n`. -/
def kernel : Kernel where
  ifNametoindex
    | [1] => (1, .ok)
    | [2] => (2, .ok)
    | [3] => (3, .ok)
    | _ => (0, .enodev)
  ifIndextoname n := some [BitVec.ofNat 8 n]
  hwaddr _ := some 0x020000000001
  flags _ := some true
  addMembership _ _ := true
  addRoute _ _ _ _ := true
  removeRoute _ _ _ := true
  sendmsg _ _ := true

/-- The interface of this name is not there. -/
def kernelWithout (name : IfName) : Kernel :=
  { kernel with ifNametoindex := fun name' =>
      if name' = name then (0, .enodev) else kernel.ifNametoindex name' }

def conf : Conf where
  byteOrder := .little
  hashSeed := 0

/-- Adds a proxy with one rule. -/
def addProxy (ifname : IfName) (rule : Rule → Rule) (c : Config) : Config :=
  (ndProxyCreate c ifname).elim c fun pc =>
    let (r, c) := ndRuleCreate pc.2 pc.1
    c.setRule r (rule (c.rule r))

/-- Two proxies with the same rule. -/
def config (rule : Rule → Rule) : Config :=
  addProxy [2] rule (addProxy [1] rule .empty)

/-- The daemon of this network after start-up. -/
def daemon (rule : Rule → Rule) : Daemon :=
  (Daemon.start { kernel, conf, cfg := config rule, rt := {}, now := 0 } (config rule)).getD
    (.init conf .empty { net := .empty, log := [] })

/-- A rule for all targets, which are answered for. -/
def staticRule (rule : Rule) : Rule := { rule with mode := .static }

/-- A rule for all targets, which are looked for on the third interface. -/
def ifaceRule (rule : Rule) : Rule := { rule with mode := .iface, ifname := [3] }

/-- A solicitation, or an advertisement, for the target `::x`. -/
def message (x : U8) : List U8 := List.replicate 23 0 ++ [x]

/-- An event in which the kernel accepts everything. -/
def event (time : ℤ) (action : Action) : Event := { time, kernel, action }

end Small

end Ndppd
