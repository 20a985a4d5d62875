import Ndppd.Capture
import Ndppd.Daemon.Objects
import Ndppd.Membership

/-!
# What the daemon hears

The daemon with the interfaces of its host and the memberships of its packet socket, as one system
(`Station`): interfaces are created and deleted at any time, between any two events of the daemon.

* `Station.run_hears`: after every pass, a proxy whose interface exists has it up with its index,
  the socket is a member of it, and what is received there is for an object of this interface. A
  proxy whose interface does not exist waits for it.
* `Station.run_exit`: at exit, the daemon gives back every membership that is left. The process
  that has started it gives back none.

As before, both are for runs in which the calls on interfaces that exist succeed
(`Station.Lawful`), and an index is given to a new interface only when no object has it, other than
objects of the same name which wait (`Station.Careful`).
-/

namespace Ndppd

open Guarded Relation

/-! ## The host -/

/-- The daemon, the interfaces of the kernel, and the packet socket. -/
structure Station where
  daemon : Daemon
  links : Links
  socket : Socket

/-- An interface is created or deleted, or the daemon runs an event. -/
inductive StationEvent
  | create (n : IfName) (x : ℕ)
  | delete (n : IfName)
  | run (ev : Event)

namespace Station

/-- The host after the start-up of the daemon. -/
def start (d : Daemon) (links : Links) : Station where
  daemon := d
  links := links
  socket := Socket.empty.replay d.mem.world.memberships

/-- The state after an event. -/
def step (s : Station) : StationEvent → Station
  | .create n x => { s with links := s.links.create n x }
  | .delete n =>
    { s with links := s.links.delete n, socket := s.socket.forget (s.links.index n) }
  | .run ev =>
    let d := s.daemon.step ev
    { s with
      daemon := d
      socket := s.socket.replay (s.daemon.mem.world.membershipsSince d.mem.world) }

/-- The state after some events. -/
def run (s : Station) (evs : List StationEvent) : Station := evs.foldl step s

/-- Every call of the daemon on an interface which exists succeeds. -/
def Lawful (s : Station) : StationEvent → Prop
  | .run ev => ev.kernel.Serves s.links
  | _ => True

/-- An index is given to a new interface only when no object has it, other than
    objects of this name which wait. -/
def Careful (s : Station) : StationEvent → Prop
  | .create n x => ∀ i ∈ s.daemon.mem.world.net.ifaces,
      (s.daemon.mem.world.net.iface i).index = x →
      (s.daemon.mem.world.net.iface i).up = false ∧ (s.daemon.mem.world.net.iface i).name = n
  | _ => True

end Station

/-! ## Calls -/

variable {e : Env} {l : Links} {w w' : World} {s : Socket} {f : IfaceId} {c : Config}
  {cw : Config × World} {d : Daemon}

theorem NetCall.joined (h : NetCall e w w') (hk : e.kernel.Serves l) (hj : Joined l w.net s) :
    ∃ acts, w'.memberships = acts ++ w.memberships ∧ Joined l w'.net (s.replay acts) := by
  cases h with
  | other hnet hsame => exact ⟨[], hsame, hnet ▸ hj⟩
  | opened index acts hacts hcase _ => exact ⟨acts, hacts, hj.opened hk hcase⟩
  | shared f hf => exact ⟨[], rfl, hj.set_same hf rfl rfl fun _ _ => rfl⟩
  | closed f acts hf hacts hcase => exact ⟨acts, hacts, hj.closed hf hcase⟩

theorem NetCalls.joined (h : NetCalls e w w') (hk : e.kernel.Serves l) (hj : Joined l w.net s) :
    ∃ acts, w'.memberships = acts ++ w.memberships ∧ Joined l w'.net (s.replay acts) := by
  induction h with
  | refl => exact ⟨[], rfl, hj⟩
  | tail _ hcall ih =>
    obtain ⟨acts, hacts, hj⟩ := ih
    obtain ⟨acts', hacts', hj'⟩ := hcall.joined hk hj
    refine ⟨acts' ++ acts, by rw [hacts', hacts, List.append_assoc], ?_⟩
    rw [Socket.replay_append]
    exact hj'

/-- In an event, the memberships change as the objects do. -/
theorem stepMem_joined {a : Action} {m : Mem} (hk : e.kernel.Serves l) (hok : e.Ok m.store)
    (hlist : ∀ p, ∀ r ∈ (e.cfg.proxy p).rules, p ∈ e.cfg.proxies) (hc : m.Counted e.cfg)
    (hj : Joined l m.world.net s) :
    ∃ acts, (Daemon.stepMem e a m).world.memberships = acts ++ m.world.memberships ∧
      Joined l (Daemon.stepMem e a m).world.net (s.replay acts) := by
  by_cases ha : a = .rebind
  · subst ha
    exact hj.rebindAll hk rfl
  · exact (stepMem_netCalls ha hok hlist hc).joined hk hj

/-! ## Start-up -/

/-- Without objects, there is no membership, whatever interfaces there are. -/
theorem joined_empty (l : Links) : Joined l .empty .empty where
  lt_fresh := by simp [Net.empty]
  nodup := List.nodup_nil
  owner := by simp [Net.empty]
  held := by simp [Socket.empty, Net.holders, Net.empty]
  dead := by simp [Socket.empty]

/-- After start-up, the memberships are those of the objects. -/
theorem ndProxyStartup_joined (hk : e.kernel.Serves l)
    (h : ndProxyStartup e c { net := .empty, log := [] } = some cw) :
    Joined l cw.2.net (Socket.empty.replay cw.2.memberships) := by
  refine ndProxyStartup_world (I := fun w => Joined l w.net (Socket.empty.replay w.memberships))
    ?_ ?_ (joined_empty l) h
  · intro name promiscuous w f w' ho hj
    obtain ⟨acts, hacts, hcase⟩ := openCase e (some name) 0 promiscuous w
    rw [ho] at hacts hcase
    rw [hacts, Socket.replay_append]
    exact hj.opened hk hcase
  · exact fun w f p hf hj => hj.set_same hf rfl rfl fun _ _ => rfl

/-- After start-up, the object of a proxy has the name of its interface. -/
theorem ndProxyStartup_name (hk : e.kernel.Serves l)
    (h : ndProxyStartup e c { net := .empty, log := [] } = some cw) {p : ProxyId}
    (hp : p ∈ cw.1.proxies) : ∃ f, (cw.1.proxy p).iface = some f ∧ f ∈ cw.2.net.ifaces ∧
      (cw.2.net.iface f).name = (cw.1.proxy p).ifname := by
  have hopened := Opened.startup h
  rw [hopened.opens.proxies] at hp
  obtain ⟨f, hf, hmem, href⟩ := hopened.iface p hp
  obtain ⟨o, hproxy, -⟩ := hopened.opens.proxy p
  refine ⟨f, hf, hmem, ?_⟩
  have hname : e.kernel.referent (cw.2.net.iface f).name = e.kernel.referent (c.proxy p).ifname :=
    (hopened.served.name f hmem).trans href
  rw [hproxy]
  unfold Kernel.referent at hname
  split_ifs at hname with h0 h0' h0'
  · exact Referent.absent.inj hname
  · have hindex := Referent.link.inj hname
    rw [hk.index_eq, hk.index_eq] at hindex
    rw [hk.index_eq] at h0
    exact l.index_injective hindex h0

/-! ## Passes -/

/-- After a pass, the objects that are up are those whose interfaces exist. -/
theorem Kernel.Serves.rebound_up {k : Kernel} (h : k.Serves l) (g : Iface) :
    (k.rebound g).up = true ↔ l.index g.name ≠ 0 := by
  refine ⟨fun hup => h.index_eq g.name ▸ ((h.settles g).index_eq hup).1, fun h0 => ?_⟩
  have haccepted := h.membership g.name g.promiscuous h0
  rw [← h.index_eq] at h0 haccepted
  unfold Kernel.rebound
  dsimp only
  rw [if_neg h0]
  split_ifs with hsame
  · exact hsame.2
  · rfl

/-! ## Runs -/

namespace Station

variable {st : Station} {ev : StationEvent} {evs : List StationEvent}

/-- What holds of the host all the time. -/
structure Sane (d : Daemon) (st : Station) : Prop where
  reached : ∃ es, st.daemon = d.run es
  sound : st.daemon.mem.world.net.Sound
  joined : Joined st.links st.daemon.mem.world.net st.socket
  persists : d.mem.world.net.Persists st.daemon.mem.world.net

theorem sane_start (hk : e.kernel.Serves l) (h : Daemon.start e c = some d) :
    Sane d (start d l) := by
  have hsound := Daemon.start_sound h
  obtain ⟨cw, hcw, rfl⟩ := Option.map_eq_some_iff.1 h
  exact ⟨⟨[], rfl⟩, hsound, ndProxyStartup_joined hk hcw, .refl _⟩

theorem Sane.step (hparsed : c.Parsed) (hstart : Daemon.start e c = some d) (h : Sane d st)
    (hl : st.Lawful ev) (hc : st.Careful ev) : Sane d (st.step ev) := by
  cases ev with
  | create n x => exact ⟨h.reached, h.sound, h.joined.create hc, h.persists⟩
  | delete n => exact ⟨h.reached, h.sound, h.joined.delete n, h.persists⟩
  | run ev =>
    obtain ⟨es, hes⟩ := h.reached
    obtain ⟨hok, hcount, hlist⟩ := Daemon.run_counted hparsed hstart es ev
    rw [← hes] at hok hcount
    have hcfg : (st.daemon.env ev).cfg = d.cfg := by rw [hes, Daemon.env_cfg, Daemon.run_cfg]
    rw [← hcfg] at hcount hlist
    obtain ⟨acts, hacts, hj⟩ := stepMem_joined (e := st.daemon.env ev) (a := ev.action) hl hok hlist
      hcount h.joined
    obtain ⟨hsound, hpersists⟩ := stepMem_persists (a := ev.action) hok hlist hcount h.sound
    refine ⟨⟨es ++ [ev], ?_⟩, hsound, ?_, h.persists.trans hpersists⟩
    · rw [Daemon.run_concat, ← hes]
      rfl
    · rw [← World.membershipsSince_eq hacts] at hj
      exact hj

theorem run_concat (st : Station) (evs : List StationEvent) (ev : StationEvent) :
    st.run (evs ++ [ev]) = (st.run evs).step ev := List.foldl_concat ..

theorem run_sane (hparsed : c.Parsed) (hstart : Daemon.start e c = some d)
    (hk : e.kernel.Serves l)
    (h : All step (fun s ev => s.Lawful ev ∧ s.Careful ev) (start d l) evs) :
    Sane d ((start d l).run evs) :=
  h.invariant (I := Sane d) (sane_start hk hstart) fun _ _ hs hev =>
    hs.step hparsed hstart hev.1 hev.2

/-- The objects after a pass. -/
theorem Sane.rebind {t : ℤ} {k : Kernel} (h : Sane d st) (hk : k.Serves st.links)
    (h' : Sane d (st.step (.run ⟨t, k, .rebind⟩))) {n : Net}
    (hn : (st.step (.run ⟨t, k, .rebind⟩)).daemon.mem.world.net = n) (hf : f ∈ n.ifaces) :
    ((n.iface f).up = true ↔ st.links.index (n.iface f).name ≠ 0) ∧
    (st.links.index (n.iface f).name ≠ 0 →
      (n.iface f).index = st.links.index (n.iface f).name ∧
      1 ≤ (st.step (.run ⟨t, k, .rebind⟩)).socket ⟨(n.iface f).index, (n.iface f).promiscuous⟩ ∧
      ∃ g, n.receiver (n.iface f).index = some g ∧ (n.iface g).name = (n.iface f).name) := by
  have hjoined := h'.joined
  rw [hn] at hjoined
  obtain ⟨hifaces, -, hdone⟩ := ndIfaceRebindAll_net (st.daemon.env ⟨t, k, .rebind⟩)
    st.daemon.mem h.sound.nodup
  have hnet : (ndIfaceRebindAll (st.daemon.env ⟨t, k, .rebind⟩) st.daemon.mem).world.net = n := hn
  rw [hnet] at hifaces hdone
  have hobj := hdone f (hifaces ▸ hf)
  have hname : (n.iface f).name = (st.daemon.mem.world.net.iface f).name := by
    rw [hobj]
    exact Kernel.rebound_name ..
  have hup : (n.iface f).up = true ↔ st.links.index (n.iface f).name ≠ 0 := by
    rw [hname, hobj]
    exact hk.rebound_up _
  refine ⟨hup, fun h0 => ?_⟩
  have hindex : (n.iface f).index = st.links.index (n.iface f).name := by
    have hsettled := ((hk.settles (st.daemon.mem.world.net.iface f)).index_eq (hobj ▸ hup.2 h0)).2
    rw [hk.index_eq, ← hname] at hsettled
    exact (congrArg Iface.index hobj).trans hsettled
  refine ⟨hindex, hjoined.one_le hf (hup.2 h0) ⟨hindex ▸ h0, _, hindex.symm⟩, ?_⟩
  -- Whoever receives there is for the interface with this index.
  cases hg : n.receiver (n.iface f).index with
  | none =>
    have hnone := List.find?_eq_none.1 hg f hf
    exact absurd hnone (by simp [hup.2 h0])
  | some g =>
    have hfound := List.find?_some hg
    rw [Bool.and_eq_true, beq_iff_eq] at hfound
    refine ⟨g, rfl, ?_⟩
    refine (hjoined.owner g (List.mem_of_find?_eq_some hg) (n.iface f).name ?_ ?_).symm
    · rw [hfound.2, hindex]
      exact h0
    · rw [hfound.2]
      exact hindex.symm

/-- The object of a proxy is there, and has the name of its interface. -/
theorem Sane.proxy (hparsed : c.Parsed) (hstart : Daemon.start e c = some d)
    (hk : e.kernel.Serves l) (h : Sane d st) {p : ProxyId} (hp : p ∈ d.cfg.proxies) :
    ∃ f, (d.cfg.proxy p).iface = some f ∧ f ∈ st.daemon.mem.world.net.ifaces ∧
      (st.daemon.mem.world.net.iface f).name = (d.cfg.proxy p).ifname := by
  obtain ⟨f, hf, hfresh, hname⟩ : ∃ f, (d.cfg.proxy p).iface = some f ∧
      f < d.mem.world.net.fresh ∧ (d.mem.world.net.iface f).name = (d.cfg.proxy p).ifname := by
    have hsound := Daemon.start_sound hstart
    obtain ⟨cw, hcw, rfl⟩ := Option.map_eq_some_iff.1 hstart
    obtain ⟨f, hf, hmem, hname⟩ := ndProxyStartup_name hk hcw hp
    exact ⟨f, hf, hsound.lt_fresh f hmem, hname⟩
  have hmem : f ∈ st.daemon.mem.world.net.ifaces := by
    obtain ⟨es, hes⟩ := h.reached
    obtain ⟨hok, hcount, -⟩ := Daemon.run_counted hparsed hstart es ⟨0, e.kernel, .tick⟩
    rw [← hes] at hok hcount
    exact (hcount.exact.mem_iff f).2 ((totalRefs_pos_iff hok.before).2 (.inl ⟨p, hp, hf⟩))
  exact ⟨f, hf, hmem, (h.persists.object f hfresh hmem).2.1.trans hname⟩

/-- After every pass of a run in which the calls succeed and indexes are not reused too early, the
    proxies whose interfaces exist are those whose objects are up. Such an object has the index of
    its interface, the socket is a member of it, and what is received there is for an object of
    this interface. -/
theorem run_hears (hparsed : c.Parsed) (hstart : Daemon.start e c = some d) (hk : e.kernel.Serves l)
    (t : ℤ) (k : Kernel)
    (h : All step (fun s ev => s.Lawful ev ∧ s.Careful ev) (start d l)
      (evs ++ [.run ⟨t, k, .rebind⟩])) :
    let st := (start d l).run (evs ++ [.run ⟨t, k, .rebind⟩])
    let n := st.daemon.mem.world.net
    ∀ p ∈ d.cfg.proxies, ∃ f, (d.cfg.proxy p).iface = some f ∧
      ((n.iface f).up = true ↔ st.links.index (d.cfg.proxy p).ifname ≠ 0) ∧
      (st.links.index (d.cfg.proxy p).ifname ≠ 0 →
        (n.iface f).index = st.links.index (d.cfg.proxy p).ifname ∧
        1 ≤ st.socket ⟨(n.iface f).index, (n.iface f).promiscuous⟩ ∧
        ∃ g, n.receiver (n.iface f).index = some g ∧
          (n.iface g).name = (d.cfg.proxy p).ifname) := by
  intro st n p hp
  have hafter := run_sane hparsed hstart hk h
  rw [all_concat] at h
  have hbefore := run_sane hparsed hstart hk h.1
  obtain ⟨f, hf, hmem, hname⟩ := hafter.proxy hparsed hstart hk hp
  have hstep : st = ((start d l).run evs).step (.run ⟨t, k, .rebind⟩) := run_concat ..
  have hlinks : st.links = ((start d l).run evs).links := by rw [hstep]; rfl
  rw [run_concat] at hafter
  have hpass := hbefore.rebind h.2.1 hafter (n := n) (by rw [← hstep]) hmem
  rw [← hstep, hname, ← hlinks] at hpass
  exact ⟨f, hf, hpass⟩

end Station

/-! ## Exit -/

/-- `nd_iface_close`, with the flag `nd_iface_no_restore_flags`. -/
def ndIfaceCloseFlags (noRestoreFlags : Bool) (e : Env) (i : IfaceId) (w : World) : World :=
  let f := w.net.iface i
  let w := { w with net := w.net.set i { f with refcount := f.refcount - 1 } }
  if f.refcount - 1 > 0 then w
  else
    let w := if f.up && !noRestoreFlags then w.emit e (.dropMembership f.index f.promiscuous) else w
    { w with net := { w.net with ifaces := w.net.ifaces.erase i } }

/-- The flag is only set at exit. -/
theorem ndIfaceCloseFlags_false : ndIfaceCloseFlags false = ndIfaceClose := by
  funext e i w
  simp [ndIfaceCloseFlags, ndIfaceClose]

/-- A round of `nd_iface_cleanup`: the counters do not matter any more. -/
def cleanupIface (noRestoreFlags : Bool) (e : Env) (w : World) (i : IfaceId) : World :=
  ndIfaceCloseFlags noRestoreFlags e i
    { w with net := w.net.set i { w.net.iface i with refcount := 1 } }

/-- `nd_iface_cleanup`. -/
def ndIfaceCleanup (noRestoreFlags : Bool) (e : Env) (w : World) : World :=
  w.net.ifaces.foldl (cleanupIface noRestoreFlags e) w

/-- The object is freed. -/
theorem cleanupIface_net (b : Bool) (e : Env) (w : World) (i : IfaceId) :
    (cleanupIface b e w i).net.ifaces = w.net.ifaces.erase i ∧
    (cleanupIface b e w i).net.fresh = w.net.fresh ∧
    (∀ j ≠ i, (cleanupIface b e w i).net.iface j = w.net.iface j) ∧
    (cleanupIface b e w i).memberships = (if (w.net.iface i).up && !b then
      [.dropMembership (w.net.iface i).index (w.net.iface i).promiscuous] else []) ++
        w.memberships := by
  unfold cleanupIface ndIfaceCloseFlags
  simp only [Net.set_iface_self]
  rw [if_neg (by decide)]
  refine ⟨by split_ifs <;> rfl, by split_ifs <;> rfl, fun j hj => ?_, ?_⟩
  · split_ifs
    · exact ((w.net.set i _).set_iface_of_ne _ hj).trans (w.net.set_iface_of_ne _ hj)
    · exact ((w.net.set i _).set_iface_of_ne _ hj).trans (w.net.set_iface_of_ne _ hj)
  · split_ifs
    · exact World.memberships_emit _ e rfl
    · rfl

/-- The loop frees all objects, and with each of them its membership goes. -/
theorem foldl_cleanupIface_joined (e : Env) (ids : List IfaceId) (w : World) (s : Socket)
    (hids : w.net.ifaces = ids) (hj : Joined l w.net s) :
    ∃ acts, (ids.foldl (cleanupIface false e) w).memberships = acts ++ w.memberships ∧
      (ids.foldl (cleanupIface false e) w).net.ifaces = [] ∧
      Joined l (ids.foldl (cleanupIface false e) w).net (s.replay acts) := by
  induction ids generalizing w s with
  | nil => exact ⟨[], rfl, hids, hj⟩
  | cons i ids ih =>
    have hi : i ∈ w.net.ifaces := hids ▸ List.mem_cons_self
    obtain ⟨hifaces, hfresh, hother, hmemberships⟩ := cleanupIface_net false e w i
    obtain ⟨acts, hacts, hj'⟩ : ∃ acts,
        (cleanupIface false e w i).memberships = acts ++ w.memberships ∧
          Joined l (cleanupIface false e w i).net (s.replay acts) := by
      refine ⟨_, hmemberships, ?_⟩
      cases hup : (w.net.iface i).up with
      | true => exact hj.closed hi (.left _ hup hifaces hfresh hother)
      | false => exact hj.closed hi (.freed _ hup hifaces hfresh hother)
    have hrest : (cleanupIface false e w i).net.ifaces = ids := by
      rw [hifaces, hids, List.erase_cons_head]
    obtain ⟨acts', hacts', hnil, hj''⟩ := ih _ _ hrest hj'
    refine ⟨acts' ++ acts, by rw [List.foldl_cons, hacts', hacts, List.append_assoc], hnil, ?_⟩
    rw [Socket.replay_append]
    exact hj''

/-- With the flag, no membership is given up. -/
theorem cleanup_noRestoreFlags (e : Env) (w : World) :
    (ndIfaceCleanup true e w).memberships = w.memberships :=
  List.foldlRecOn (motive := fun w' : World => w'.memberships = w.memberships) _ _ rfl
    fun w' hw' i _ => by
      have hround := (cleanupIface_net true e w' i).2.2.2
      rw [Bool.not_true, Bool.and_false, if_neg Bool.false_ne_true, List.nil_append, hw'] at hround
      exact hround

namespace Station

/-- The memberships after the exit of a process that has the socket open. -/
def exit (noRestoreFlags : Bool) (ev : Event) (st : Station) : Socket :=
  st.socket.replay (st.daemon.mem.world.membershipsSince
    (ndIfaceCleanup noRestoreFlags (st.daemon.env ev) st.daemon.mem.world))

/-- Whenever the daemon exits in such a run, it gives back all memberships of the socket. The
    process that has started it, and which has the socket open, too, leaves all of them. -/
theorem run_exit {evs : List StationEvent} (hparsed : c.Parsed) (hstart : Daemon.start e c = some d)
    (hk : e.kernel.Serves l)
    (h : All step (fun s ev => s.Lawful ev ∧ s.Careful ev) (start d l) evs) (ev : Event) :
    ((start d l).run evs).exit false ev = Socket.empty ∧
      ((start d l).run evs).exit true ev = ((start d l).run evs).socket := by
  have hsane := run_sane hparsed hstart hk h
  generalize (start d l).run evs = st at hsane
  constructor
  · obtain ⟨acts, hacts, hnil, hj⟩ := foldl_cleanupIface_joined (st.daemon.env ev) _ _ _ rfl
      hsane.joined
    rw [exit, ndIfaceCleanup, World.membershipsSince_eq hacts]
    funext k
    by_cases hx : st.links.Has k.index
    · rw [hj.held k hx, Net.holders, hnil]
      rfl
    · exact hj.dead k hx
  · have hsame := cleanup_noRestoreFlags (st.daemon.env ev) st.daemon.mem.world
    rw [← List.nil_append st.daemon.mem.world.memberships] at hsame
    rw [exit, World.membershipsSince_eq hsame]
    rfl

end Station

/-! ## The small network -/

namespace Small

/-- The three interfaces of the small network. -/
def wired : Links := ((Links.empty.create [1] 1).create [2] 2).create [3] 3

def wiredEnv : Env :=
  { kernel := kernelOf wired, conf, cfg := config ifaceRule, rt := {}, now := 0 }

def wiredDaemon : Daemon :=
  (Daemon.start wiredEnv (config ifaceRule)).getD (.init conf .empty { net := .empty, log := [] })

theorem start_wired : Daemon.start wiredEnv (config ifaceRule) = some wiredDaemon := by
  have h : (Daemon.start wiredEnv (config ifaceRule)).isSome := by decide +kernel
  rw [wiredDaemon, ← Option.some_get h, Option.getD_some]

/-- The interface of the first proxy is deleted, and created again with another index. -/
def renumbered : Links := (wired.delete [1]).create [1] 7

def renumbering : List StationEvent :=
  [.delete [1], .run ⟨1, kernelOf (wired.delete [1]), .rebind⟩, .create [1] 7]

theorem renumbering_all :
    All Station.step (fun s ev => s.Lawful ev ∧ s.Careful ev) (.start wiredDaemon wired)
      (renumbering ++ [.run ⟨2, kernelOf renumbered, .rebind⟩]) :=
  ⟨⟨trivial, trivial⟩, ⟨serves _, trivial⟩, ⟨trivial, by unfold Station.Careful; decide +kernel⟩,
    ⟨serves _, trivial⟩, trivial⟩

/-- It is up with the new index, and heard. -/
theorem renumbering_hears :
    let st := (Station.start wiredDaemon wired).run
      (renumbering ++ [.run ⟨2, kernelOf renumbered, .rebind⟩])
    let n := st.daemon.mem.world.net
    st.links.index [1] = 7 ∧
    ∀ p ∈ wiredDaemon.cfg.proxies, ∃ f, (wiredDaemon.cfg.proxy p).iface = some f ∧
      ((n.iface f).up = true ↔ st.links.index (wiredDaemon.cfg.proxy p).ifname ≠ 0) ∧
      (st.links.index (wiredDaemon.cfg.proxy p).ifname ≠ 0 →
        (n.iface f).index = st.links.index (wiredDaemon.cfg.proxy p).ifname ∧
        1 ≤ st.socket ⟨(n.iface f).index, (n.iface f).promiscuous⟩ ∧
        ∃ g, n.receiver (n.iface f).index = some g ∧
          (n.iface g).name = (wiredDaemon.cfg.proxy p).ifname) :=
  ⟨by decide +kernel, Station.run_hears parsed start_wired (serves wired) 2 _ renumbering_all⟩

/-- The memberships of both indexes are gone after the exit. -/
theorem renumbering_exit :
    let st := (Station.start wiredDaemon wired).run
      (renumbering ++ [.run ⟨2, kernelOf renumbered, .rebind⟩])
    st.socket ⟨7, false⟩ = 1 ∧ st.exit false (event 3 .tick) = Socket.empty ∧
      st.exit true (event 3 .tick) = st.socket :=
  ⟨by decide +kernel, Station.run_exit parsed start_wired (serves wired) renumbering_all
    (event 3 .tick)⟩

end Small

end Ndppd
