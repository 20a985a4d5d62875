import Mathlib.Algebra.Ring.Int.Defs
import Ndppd.Iface
import Ndppd.Rt

/-!
# Sessions

The sessions of the daemon (`session.c`): one per target and proxy, kept in two
hash tables, by target (`ndL_sessions`) and by rewritten target
(`ndL_sessions_r`).

A session goes through the states of `State`. It is created, or looked up, for
an incoming solicitation (`ndSessionHandleNs`), made valid by an advertisement
(`ndSessionHandleNa`), and moved by its timers (`ndSessionUpdate`), which end
up deleting it. Calls on one session are given the session and return it; only
creation, deletion and the loops over all sessions use the store.
-/

namespace Ndppd

open Intrusive

/-- The rule of a session. -/
def Env.ruleOf (e : Env) (s : Session) : Rule := e.cfg.rule s.rule

/-- The proxy of a session. -/
def Env.proxyOf (e : Env) (s : Session) : Proxy := e.cfg.proxy (e.ruleOf s).proxy

def ndLUp (e : Env) (i : SessionId) (s : Session) (w : World) : Session × World :=
  match s.iface with
  | some f =>
    if (w.net.iface f).up && !s.autowired && (e.ruleOf s).autowire then
      ({ s with autowired := true },
        (ndRtAddRoute e i s.tgt 128 (w.net.iface f).index (e.ruleOf s).table w).2)
    else (s, w)
  | none => (s, w)

def ndLDown (e : Env) (i : SessionId) (s : Session) (w : World) : Session × World :=
  if s.iface.isSome && s.autowired then
    ({ s with autowired := false }, (ndRtRemoveRoute e (some i) s.tgt 128 (e.ruleOf s).table w).2)
  else (s, w)

/-! ## Solicitations -/

/-- The link-layer address the advertisements of a session carry, if the rule
    has one. -/
def tgtLl (e : Env) (s : Session) : Option LlAddr :=
  if !ndLladdrIsUnspecified (e.ruleOf s).target then some (e.ruleOf s).target else none

/-- `ff02::1`. -/
def allnodes : Addr := 0xff020000000000000000000000000001

/-- `33:33:00:00:00:01`. -/
def allnodesLl : LlAddr := 0x333300000001

/-- The answer to a solicitation for a valid session: to its source, or to all
    nodes if it has no source or no link-layer address. -/
def answerNs (e : Env) (i : SessionId) (src : Addr) (srcLl : Option LlAddr) (s : Session)
    (w : World) : World :=
  let proxy := e.proxyOf s
  match srcLl with
  | none => ndIfaceSendNa e i proxy.iface allnodes allnodesLl s.tgt (tgtLl e s) proxy.router w
  | some ll =>
    if ndAddrIsUnspecified e.conf.byteOrder src then
      ndIfaceSendNa e i proxy.iface allnodes allnodesLl s.tgt (tgtLl e s) proxy.router w
    else ndIfaceSendNa e i proxy.iface src ll s.tgt (tgtLl e s) proxy.router w

/-- The subscribers after queueing `(src, ll)`, unless it is already queued;
    `none` if the list is full. -/
def queueSub (bo : ByteOrder) (src : Addr) (ll : LlAddr) (subs : List Sub) : Option (List Sub) :=
  if subs.any fun sub => ndAddrEq bo sub.addr src && ndLladdrEq sub.lladdr ll then some subs
  else if subs.length ≥ ndSessionMaxSubs then none
  else some (⟨src, ll⟩ :: subs)

/-- The index of the interface of the proxy of a rule. -/
def proxyIndex (e : Env) (rule : Rule) (w : World) : ℕ :=
  (e.cfg.proxy rule.proxy).iface.elim 0 fun f => (w.net.iface f).index

/-- The interface the routing table gives for the target of an `auto` rule, opened. -/
def openRoute (e : Env) (rule : Rule) (tgt : Addr) (w : World) : Option IfaceId × World :=
  match ndRtFindRoute e.conf.byteOrder e.rt tgt rule.table with
  | none => (none, w)
  | some route =>
    if route.oif = proxyIndex e rule w then (none, w) else ndIfaceOpen e none route.oif false w

/-- An invalid session without an interface had no route when it was created:
    looks for one again, and starts probing if there is one now. -/
def recheckRoute (e : Env) (i : SessionId) (s : Session) (w : World) : Session × World :=
  if s.state = .invalid ∧ s.iface = none ∧ (e.ruleOf s).mode = .auto then
    match openRoute e (e.ruleOf s) s.tgt w with
    | (none, w) => (s, w)
    | (some f, w) =>
      ({ s with iface := some f, state := .incomplete, stateTime := e.now, onsCount := 1,
                onsTime := e.now },
        ndIfaceSendNs e i (some f) s.tgtR w)
  else (s, w)

/-- A solicitation for a stale session triggers a probe, if none was sent recently. -/
def probeStale (e : Env) (i : SessionId) (s : Session) (w : World) : Session × World :=
  if s.state = .stale ∧ s.iface.isSome ∧ e.now - s.onsTime ≥ e.conf.retransTime then
    ({ s with onsCount := if s.onsCount = 0 then 1 else s.onsCount, onsTime := e.now },
      ndIfaceSendNs e i s.iface s.tgtR w)
  else (s, w)

def ndSessionHandleNs (e : Env) (i : SessionId) (src : Addr) (srcLl : Option LlAddr) (s : Session)
    (w : World) : Session × World :=
  let s := { s with insTime := e.now }
  if s.state = .valid then (s, answerNs e i src srcLl s w)
  else
    -- Reachability cannot be confirmed yet: the subscriber is queued.
    match srcLl with
    | none => (s, w)
    | some ll =>
      match queueSub e.conf.byteOrder src ll s.subs with
      | none => (s, w)
      | some subs =>
        let (s, w) := recheckRoute e i { s with subs := subs } w
        probeStale e i s w

/-! ## Advertisements -/

/-- The advertisements to the subscribers of a session. -/
def sendSubs (e : Env) (i : SessionId) (s : Session) (w : World) : World :=
  s.subs.foldl (fun w sub => ndIfaceSendNa e i (e.proxyOf s).iface sub.addr sub.lladdr s.tgt
    (tgtLl e s) (e.proxyOf s).router w) w

def ndSessionHandleNa (e : Env) (i : SessionId) (s : Session) (w : World) : Session × World :=
  if s.state = .valid then ({ s with stateTime := e.now }, w)
  else
    let w := sendSubs e i s w
    let (s, w) := ndLUp e i { s with subs := [] } w
    ({ s with state := .valid, stateTime := e.now }, w)

/-! ## Creation -/

/-- Whether the target of a rule is an own address of the interface of the rule. -/
def ownAddr (e : Env) (rule : Rule) (tgtR : Addr) (w : World) : Bool :=
  rule.iface.any fun f => (w.net.iface f).up &&
    ndRtIsLocalAddr e.conf.byteOrder e.rt (w.net.iface f).index tgtR

/-- Sends the first probe of a new session. -/
def firstProbe (e : Env) (i : SessionId) (f : IfaceId) (s : Session) (w : World) :
    Session × World :=
  ({ s with iface := some f, state := .incomplete, onsCount := 1, onsTime := e.now },
    ndIfaceSendNs e i (some f) s.tgtR w)

/-- The state of a new session, by the mode of its rule. -/
def startSession (e : Env) (i : SessionId) (s : Session) (w : World) : Session × World :=
  let rule := e.ruleOf s
  if rule.mode = .auto then
    match openRoute e rule s.tgt w with
    | (none, w) => ({ s with state := .invalid }, w)
    | (some f, w) => firstProbe e i f s w
  else if rule.mode = .iface ∧ ownAddr e rule s.tgtR w then ({ s with state := .valid }, w)
  else
    match rule.iface with
    | some f => firstProbe e i f s { w with net := w.net.addRef f }
    | none => (if rule.mode = .static then { s with state := .valid } else s, w)

/-- A session as it is allocated. -/
def newSession (e : Env) (r : RuleId) (tgt : Addr) : Session :=
  let rule := e.cfg.rule r
  { rule := r
    stateTime := e.now
    tgt := tgt
    tgtR := ndAddrCombine e.conf.byteOrder rule.rewriteTgt tgt rule.rewritePflen }

/-- Links a new session in front of its two lists. -/
def Store.link (st : Store) (c : Conf) (s : Session) : Store where
  session := Function.update st.session st.fresh (some s)
  sessions := st.sessions.prepend (ndlBucket c s.tgt) st.fresh
  sessionsR := st.sessionsR.prepend (ndlBucket c s.tgtR) st.fresh
  count := st.count + 1
  fresh := st.fresh + 1

@[simp] theorem Store.link_session_self (st : Store) (c : Conf) (s : Session) :
    (st.link c s).session st.fresh = some s := Function.update_self ..

theorem Store.link_session_of_ne (st : Store) (c : Conf) (s : Session) {j : SessionId}
    (h : j ≠ st.fresh) : (st.link c s).session j = st.session j := Function.update_of_ne h ..

def ndSessionCreate (e : Env) (r : RuleId) (tgt : Addr) (m : Mem) : Option SessionId × Mem :=
  if m.store.count ≥ ndSessionMax then (none, m)
  else
    let i := m.store.fresh
    let s := newSession e r tgt
    let st := m.store.link e.conf s
    let (s, w) := startSession e i s m.world
    (some i, { store := st.set i s, world := w })

/-! ## Timers -/

/-- The delay before the next probe of a stale session. -/
def staleDelay (c : Conf) (onsCount : ℤ) : ℤ :=
  let shift := min (onsCount.tdiv 3) 16
  if onsCount ≠ 0 ∧ c.retransLimit > 0 ∧ onsCount.tmod c.retransLimit = 0 then
    c.retransTime * 2 ^ shift.toNat
  else c.retransTime

/-- `nd_session_update`, up to the store: the session afterwards, or `none` if
    it is deleted. -/
def updateSession (e : Env) (i : SessionId) (s : Session) (w : World) : Option Session × World :=
  match s.state with
  | .incomplete =>
    if s.iface.any fun f => !(w.net.iface f).up then
      -- The interface is waiting: nothing could be sent, so hold the counter.
      if e.now - s.stateTime < e.conf.invalidTtl then (some { s with onsTime := e.now }, w)
      else (some { s with state := .invalid, stateTime := e.now }, w)
    else if e.now - s.onsTime < e.conf.retransTime then (some s, w)
    else if s.onsCount + 1 > e.conf.retransLimit then
      (some { s with onsCount := s.onsCount + 1, state := .invalid, stateTime := e.now }, w)
    else (some { s with onsCount := s.onsCount + 1 }, ndIfaceSendNs e i s.iface s.tgtR w)
  | .invalid =>
    if e.now - s.stateTime < e.conf.invalidTtl then (some s, w)
    else
      let (s, w) := ndLDown e i s w
      (none, s.iface.elim w fun f => ndIfaceClose e f w)
  | .valid =>
    if e.now - s.stateTime < e.conf.validTtl then (some s, w)
    else if s.iface = none then
      -- Nothing to probe: a static rule, or an own address, which is checked again.
      if (e.ruleOf s).mode = .static ∨ ownAddr e (e.ruleOf s) s.tgtR w then
        (some { s with stateTime := e.now }, w)
      else (some { s with state := .invalid, stateTime := e.now }, w)
    else
      let s := { s with state := .stale, stateTime := e.now, onsTime := e.now }
      if e.conf.keepalive ∨ e.now - s.insTime < e.conf.validTtl then
        (some { s with onsCount := 1 }, ndIfaceSendNs e i s.iface s.tgtR w)
      else (some { s with onsCount := 0 }, w)
  | .stale =>
    if e.now - s.stateTime ≥ e.conf.staleTtl then
      (some { s with state := .invalid, stateTime := e.now }, w)
    else if ¬e.conf.keepalive ∧ e.now - s.insTime > e.conf.validTtl then (some s, w)
    else if e.now - s.onsTime < staleDelay e.conf s.onsCount then (some s, w)
    else (some { s with onsCount := s.onsCount + 1, onsTime := e.now },
      ndIfaceSendNs e i s.iface s.tgtR w)

/-- Unlinks a session from its two lists and frees it. -/
def Store.unlink (st : Store) (c : Conf) (i : SessionId) (s : Session) : Store :=
  { st with
    session := Function.update st.session i none
    sessions := st.sessions.delete st.fresh (ndlBucket c s.tgt) i
    sessionsR := st.sessionsR.delete st.fresh (ndlBucket c s.tgtR) i
    count := st.count - 1 }

@[simp] theorem Store.unlink_session_self (st : Store) (c : Conf) (i : SessionId) (s : Session) :
    (st.unlink c i s).session i = none := Function.update_self ..

theorem Store.unlink_session_of_ne (st : Store) (c : Conf) {i j : SessionId} (s : Session)
    (h : j ≠ i) : (st.unlink c i s).session j = st.session j := Function.update_of_ne h ..

def ndSessionUpdate (e : Env) (i : SessionId) (m : Mem) : Mem :=
  match m.store.session i with
  | none => m
  | some s =>
    match updateSession e i s m.world with
    | (some s', w) => { store := m.store.set i s', world := w }
    | (none, w) => { store := m.store.unlink e.conf i s, world := w }

/-! ## The tables -/

/-- Runs a call on the session `i`. -/
def Mem.withSession (m : Mem) (i : SessionId) (f : Session → World → Session × World) : Mem :=
  match m.store.session i with
  | none => m
  | some s =>
    let (s, w) := f s m.world
    { store := m.store.set i s, world := w }

def ndSessionFind (e : Env) (tgt : Addr) (p : ProxyId) (st : Store) : Option SessionId :=
  search st.sessions.next (fun i => (st.session i).any fun s =>
    (e.ruleOf s).proxy == p && ndAddrEq e.conf.byteOrder s.tgt tgt) st.fresh
    (st.sessions.head (ndlBucket e.conf tgt))

def ndSessionFindR (e : Env) (tgt : Addr) (f : IfaceId) (st : Store) : Option SessionId :=
  search st.sessionsR.next (fun i => (st.session i).any fun s =>
    s.iface == some f && ndAddrEq e.conf.byteOrder s.tgtR tgt) st.fresh
    (st.sessionsR.head (ndlBucket e.conf tgt))

/-- What `nd_session_iface_changed` does to a session. -/
def ifaceChanged (e : Env) (f : IfaceId) (up : Bool) (i : SessionId) (s : Session) (w : World) :
    Session × World :=
  if s.iface ≠ some f then (s, w)
  else if !up then ({ s with autowired := false }, w)
  else if s.state = .valid then ndLUp e i s w
  else (s, w)

/-- One list of `nd_session_iface_changed`. -/
def ifaceChangedBucket (e : Env) (f : IfaceId) (up : Bool) (m : Mem)
    (b : Fin ndppdSessionBuckets) : Mem :=
  foreach (fun m => m.store.sessions.next)
    (fun i m => m.withSession i (ifaceChanged e f up i)) m.store.fresh (m.store.sessions.head b) m

def ndSessionIfaceChanged (e : Env) (f : IfaceId) (up : Bool) (m : Mem) : Mem :=
  (List.finRange ndppdSessionBuckets).foldl (ifaceChangedBucket e f up) m

/-- One list of `nd_session_update_all`. -/
def updateBucket (e : Env) (m : Mem) (b : Fin ndppdSessionBuckets) : Mem :=
  foreachS (fun m => m.store.sessions.next) (ndSessionUpdate e) m.store.fresh
    (m.store.sessions.head b) ((m.store.sessions.head b).bind m.store.sessions.next) m

def ndSessionUpdateAll (e : Env) (m : Mem) : Mem :=
  (List.finRange ndppdSessionBuckets).foldl (updateBucket e) m

end Ndppd
