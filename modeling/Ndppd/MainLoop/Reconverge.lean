import Ndppd.Hearing
import Ndppd.MainLoop.Fresh

/-!
# The daemon catches up with its interfaces

The kernel may drop the messages about changes of the interfaces. The main loop does not rely on
them: it makes a pass over the interfaces when the last one is more than five seconds ago. So
when the interfaces have not changed for longer than that, and the calls about them succeed, all
objects are as the kernel has them, and so they stay (`Loop.run_reconverges`). Only of an object
that has been opened since the pass it is not known yet whether its interface is administratively
up.
-/

namespace Ndppd

open Relation

variable {e : Env} {k : Kernel} {g : Iface} {w w' : World} {a : Action} {m : Mem} {c : Config}
  {d : Daemon}

/-! ## Objects -/

/-- The object is as the kernel has its interface. If no pass has seen it, then it is taken for
    administratively down. -/
structure Kernel.InLine (k : Kernel) (seen : Prop) (g : Iface) : Prop where
  absent : (k.ifNametoindex g.name).1 = 0 → g.up = false ∧ g.adminUp = false
  present : (k.ifNametoindex g.name).1 ≠ 0 → g.up = true ∧
    g.index = (k.ifNametoindex g.name).1 ∧ k.hwaddr g.name = some g.lladdr
  admin : (k.ifNametoindex g.name).1 ≠ 0 →
    k.flags g.name = some g.adminUp ∨ ¬seen ∧ g.adminUp = false

/-- The calls on interfaces succeed, and a name that is found for an index has this index. -/
structure Kernel.Consistent (k : Kernel) : Prop where
  succeeds : ∀ g, k.Succeeds g
  name : ∀ x n, k.ifIndextoname x = some n → (k.ifNametoindex n).1 = x

theorem Kernel.Consistent.of_resolve (h : k.Consistent) {index x : ℕ} {n : IfName}
    (hr : k.resolve none index = some (n, x)) : (k.ifNametoindex n).1 = x ∧ x ≠ 0 := by
  unfold Kernel.resolve at hr
  dsimp only at hr
  split_ifs at hr with h0
  obtain ⟨m, hm, hmn⟩ := Option.map_eq_some_iff.1 hr
  obtain ⟨rfl, rfl⟩ := Prod.mk.inj hmn
  exact ⟨h.name index m hm, h0⟩

/-- All objects are as the kernel has their interfaces. -/
def Net.InLine (k : Kernel) (seen : List IfaceId) (n : Net) : Prop :=
  ∀ f ∈ n.ifaces, k.InLine (f ∈ seen) (n.iface f)

theorem Kernel.Agrees.inLine {g' : Iface} (h : k.Agrees g g') (p : Prop) : k.InLine p g' := by
  have hpresent (h0 : (k.ifNametoindex g'.name).1 ≠ 0) := h.present (h.name ▸ h0)
  rw [← h.name] at hpresent
  refine ⟨fun h0 => h.absent (h.name ▸ h0), fun h0 => ?_, fun h0 => .inl (hpresent h0).2.2.2⟩
  obtain ⟨hup, hindex, hlladdr, -⟩ := hpresent h0
  exact ⟨hup, hindex, hlladdr⟩

/-- The counter of an object does not matter. -/
theorem Kernel.InLine.refcount {p : Prop} (h : k.InLine p g) (x : ℤ) :
    k.InLine p { g with refcount := x } :=
  ⟨h.absent, h.present, h.admin⟩

variable {seen : List IfaceId}

theorem Net.InLine.set {n : Net} (h : n.InLine k seen) {f : IfaceId}
    (hg : f ∈ n.ifaces → k.InLine (f ∈ seen) g) : (n.set f g).InLine k seen := by
  intro j hj
  by_cases hjf : j = f
  · subst hjf
    rw [Net.set_iface_self]
    exact hg hj
  · rw [n.set_iface_of_ne g hjf]
    exact h j hj

theorem Net.InLine.erase {n n' : Net} (h : n.InLine k seen) (hn : n.ifaces.Nodup) {f : IfaceId}
    (hifaces : n'.ifaces = n.ifaces.erase f) (hother : ∀ j ≠ f, n'.iface j = n.iface j) :
    n'.InLine k seen := by
  intro j hj
  rw [hifaces, hn.mem_erase_iff] at hj
  rw [hother j hj.1]
  exact h j hj.2

/-- A call keeps the objects in line. -/
theorem NetCall.inLine (h : NetCall e w w') (hk : e.kernel.Consistent) (hn : w.net.Sound)
    (hseen : ∀ f ∈ seen, f < w.net.fresh) (hl : w.net.InLine e.kernel seen) :
    w'.net.InLine e.kernel seen := by
  cases h with
  | other hnet _ =>
    rw [hnet]
    exact hl
  | opened index acts _ hcase hnew =>
    generalize w'.net = n' at hcase hnew
    cases hcase with
    | failed => exact hl
    | refused => exact hl
    | shared j hj => exact hl.set fun hj => (hl j hj).refcount _
    | waiting m hm => exact absurd hm (by simp)
    | created m x lladdr hr _ _ =>
      intro f hf
      by_cases hold : f ∈ w.net.ifaces
      · have hobj (g : Iface) : (w.net.alloc g).iface f = w.net.iface f :=
          Function.update_of_ne (hn.lt_fresh f hold).ne ..
        rw [hobj]
        exact hl f hold
      · obtain rfl := (List.mem_cons.1 hf).resolve_right hold
        have hlladdr := hnew _ hf hold
        have hobj (g : Iface) : (w.net.alloc g).iface w.net.fresh = g := Function.update_self ..
        rw [hobj] at hlladdr ⊢
        obtain ⟨hx, h0⟩ := hk.of_resolve hr
        exact ⟨fun h0' => absurd (hx.symm.trans h0') h0, fun _ => ⟨rfl, hx.symm, hlladdr⟩,
          fun _ => .inr ⟨fun hmem => (hseen _ hmem).false, rfl⟩⟩
  | shared f hf => exact hl.set fun hf => (hl f hf).refcount _
  | closed f acts hf _ hcase =>
    generalize w'.net = n' at hcase
    cases hcase with
    | kept => exact hl.set fun hf => (hl f hf).refcount _
    | left n' _ hifaces _ hother => exact hl.erase hn.nodup hifaces hother
    | freed n' _ hifaces _ hother => exact hl.erase hn.nodup hifaces hother

theorem NetCalls.inLine (h : NetCalls e w w') (hk : e.kernel.Consistent) (hn : w.net.Sound)
    (hseen : ∀ f ∈ seen, f < w.net.fresh) (hl : w.net.InLine e.kernel seen) :
    w'.net.InLine e.kernel seen := by
  induction h with
  | refl => exact hl
  | tail hcalls hcall ih =>
    obtain ⟨hn', hpersists⟩ := NetCalls.persists hcalls hn
    exact hcall.inLine hk hn' (fun f hf => (hseen f hf).trans_le hpersists.fresh_le) ih

/-- A pass brings all objects in line. -/
theorem rebindAll_inLine (hk : e.kernel.Consistent) (hn : m.world.net.Sound)
    (seen : List IfaceId) : (ndIfaceRebindAll e m).world.net.InLine e.kernel seen := by
  obtain ⟨hifaces, -, hiface⟩ := ndIfaceRebindAll_net e m hn.nodup
  intro f hf
  rw [hifaces] at hf
  rw [hiface f hf]
  exact (Kernel.agrees_rebound (hk.succeeds _) (hn.waiting f hf)).inLine _

/-! ## The main loop -/

namespace Loop

variable {l l' : Loop} {kernel : Kernel} {t : ℤ} {rounds : List Round}

/-- The last pass of the loop has been made after the events `es`. If the kernel has answered in
    the same way since a time before it, then the objects are in line. -/
structure Passed (d : Daemon) (l : Loop) (es : List Event) : Prop where
  event : ∃ ev es', l.events = es ++ ev :: es' ∧ ev.action = .rebind ∧ ev.time = l.lastIfaceCheck
  lt_fresh : ∀ f ∈ (d.run es).mem.world.net.ifaces, f < l.daemon.mem.world.net.fresh
  inLine : ∀ t k, k.Consistent → (∀ ev ∈ l.events, t ≤ ev.time → ev.kernel = k) →
    t ≤ l.lastIfaceCheck → l.daemon.mem.world.net.InLine k (d.run es).mem.world.net.ifaces

/-- What the loop keeps. -/
structure Caught (d : Daemon) (l : Loop) : Prop where
  follows : Follows d l
  sound : l.daemon.mem.world.net.Sound
  last_le : l.lastIfaceCheck ≤ l.now
  passed : 0 < l.lastIfaceCheck → ∃ es, Passed d l es

namespace Caught

theorem of_eq (h : Caught d l) (hd : l'.daemon = l.daemon) (he : l'.events = l.events)
    (hnow : l.now ≤ l'.now) (hlast : l'.lastIfaceCheck = l.lastIfaceCheck) : Caught d l' where
  follows := h.follows.of_eq hd he
  sound := hd ▸ h.sound
  last_le := hlast ▸ h.last_le.trans hnow
  passed := by
    rw [hlast]
    intro hpos
    obtain ⟨es, hevent, hfresh, hinLine⟩ := h.passed hpos
    exact ⟨es, by rw [he, hlast]; exact hevent, by rw [hd]; exact hfresh,
      by rw [hd, he, hlast]; exact hinLine⟩

theorem exec (hparsed : c.Parsed) (hstart : Daemon.start e c = some d) (h : Caught d l) :
    Caught d (l.exec kernel a) := by
  obtain ⟨hok, hcount, hlist⟩ := Daemon.run_counted hparsed hstart l.events ⟨l.now, kernel, a⟩
  rw [← h.follows] at hok hcount
  have hcfg : (l.daemon.env ⟨l.now, kernel, a⟩).cfg = d.cfg := by
    rw [h.follows, Daemon.env_cfg, Daemon.run_cfg]
  rw [← hcfg] at hcount hlist
  obtain ⟨hsound, hpersists⟩ := stepMem_persists hok hlist hcount h.sound (a := a)
  refine ⟨h.follows.exec kernel a, hsound, h.last_le, fun hpos => ?_⟩
  obtain ⟨es, ⟨ev, es', hes, hev⟩, hfresh, hinLine⟩ := h.passed hpos
  refine ⟨es, ⟨ev, es' ++ [⟨l.now, kernel, a⟩], ?_, hev⟩,
    fun f hf => (hfresh f hf).trans_le hpersists.fresh_le, fun t k hk hstable hlast => ?_⟩
  · rw [exec_events, hes, List.append_assoc, List.cons_append]
  · rw [exec_events, List.forall_mem_append] at hstable
    -- The kernel answers as before during the action, too.
    have hkernel : kernel = k :=
      List.forall_mem_singleton.1 hstable.2 (hlast.trans h.last_le)
    subst hkernel
    have hl := hinLine t kernel hk hstable.1 hlast
    by_cases ha : a = .rebind
    · subst ha
      exact rebindAll_inLine hk h.sound _
    · exact (stepMem_netCalls ha hok hlist hcount).inLine hk h.sound hfresh hl

/-- A pass of the loop. -/
theorem rebind (hparsed : c.Parsed) (hstart : Daemon.start e c = some d) (h : Caught d l) :
    Caught d { l.exec kernel .rebind with lastIfaceCheck := l.now } := by
  have hexec : Caught d (l.exec kernel .rebind) := h.exec hparsed hstart
  refine ⟨hexec.follows.of_eq rfl rfl, hexec.sound, le_rfl, fun _ => ⟨l.events, ?_, ?_, ?_⟩⟩
  · exact ⟨⟨l.now, kernel, .rebind⟩, [], exec_events .., rfl, rfl⟩
  · rw [← h.follows]
    obtain ⟨hifaces, -⟩ := ndIfaceRebindAll_net (l.daemon.env ⟨l.now, kernel, .rebind⟩)
      l.daemon.mem h.sound.nodup
    exact fun f hf => hexec.sound.lt_fresh f (hifaces.symm ▸ hf)
  · intro t k hk hstable hlast
    have hstable : ∀ ev ∈ (l.exec kernel .rebind).events, t ≤ ev.time → ev.kernel = k := hstable
    rw [exec_events, List.forall_mem_append] at hstable
    obtain rfl : kernel = k := List.forall_mem_singleton.1 hstable.2 hlast
    exact rebindAll_inLine hk h.sound _

theorem prepare (hparsed : c.Parsed) (hstart : Daemon.start e c = some d) (h : Caught d l)
    (kernel : ℕ → Kernel) : Caught d (l.prepare kernel) := by
  refine prepare_induction ?_ ?_ ?_ ?_ ?_ h
  · exact fun _ _ _ hl => hl.of_eq rfl rfl le_rfl rfl
  · exact fun _ _ hl => hl.of_eq rfl (by simp [events]) le_rfl rfl
  · exact fun _ hl => hl.exec hparsed hstart
  · exact fun _ hl => (hl.exec hparsed hstart).of_eq rfl rfl le_rfl rfl
  · exact fun _ hl => hl.rebind hparsed hstart

theorem ndIoPoll (hparsed : c.Parsed) (hstart : Daemon.start e c = some d) (h : Caught d l)
    (inputs : List Input) : Caught d (l.ndIoPoll inputs) :=
  ndIoPoll_induction (fun _ _ _ _ hl => hl.exec hparsed hstart)
    (fun _ hl => hl.of_eq rfl (by simp [events]) le_rfl rfl) h inputs

end Caught

theorem caught_start (hstart : Daemon.start e c = some d) (ht : 0 ≤ t) : Caught d (start d t) :=
  ⟨rfl, Daemon.start_sound hstart, ht, fun hpos => absurd hpos (lt_irrefl 0)⟩

theorem ndIoPoll_lastIfaceCheck (l : Loop) (inputs : List Input) :
    (l.ndIoPoll inputs).lastIfaceCheck = l.lastIfaceCheck :=
  ndIoPoll_induction (I := fun l' => l'.lastIfaceCheck = l.lastIfaceCheck) (fun _ _ _ _ h => h)
    (fun _ h => h) rfl inputs

/-- Whatever has happened to the interfaces and to the messages about them: while the loop handles
    what it has received, if the kernel has answered in the same way for more than five seconds,
    and the calls about interfaces succeed, then there has been a pass meanwhile, and every object
    is as the kernel has its interface. Whether the interface is administratively up is known of
    all objects that there were at the pass. -/
theorem run_reconverges (hparsed : c.Parsed) (hstart : Daemon.start e c = some d) (t : ℤ)
    (rounds : List Round) (l : Loop) (ht : 0 ≤ t) (htimely : Timely t rounds)
    (h : (start d t).run rounds = .ok l) (kernel : ℕ → Kernel) (inputs : List Input) (k : Kernel)
    (hk : k.Consistent) (since : ℤ) (hsince : 0 < since)
    (hstable : ∀ ev ∈ ((l.prepare kernel).ndIoPoll inputs).events, since ≤ ev.time → ev.kernel = k)
    (hlong : since + 5000 < l.now) :
    ∃ es ev es', ((l.prepare kernel).ndIoPoll inputs).events = es ++ ev :: es' ∧
      ev.action = .rebind ∧ since ≤ ev.time ∧
      ((l.prepare kernel).ndIoPoll inputs).daemon.mem.world.net.InLine k
        (d.run es).mem.world.net.ifaces := by
  have hcaught : Caught d l := by
    refine run_timely (caught_start hstart ht) ?_ htimely h
    intro l r inputs hle hl
    have hprep := hl.prepare hparsed hstart r.kernel
    refine (hprep.ndIoPoll hparsed hstart inputs).of_eq rfl rfl ?_ rfl
    simpa using hle
  have hlast : since ≤ ((l.prepare kernel).ndIoPoll inputs).lastIfaceCheck := by
    have hlast := l.prepare_lastIfaceCheck kernel
    rw [prepare_now] at hlast
    rw [ndIoPoll_lastIfaceCheck]
    omega
  obtain ⟨es, ⟨ev, es', hes, hrebind, htime⟩, -, hinLine⟩ :=
    ((hcaught.prepare hparsed hstart kernel).ndIoPoll hparsed hstart inputs).passed
      (hsince.trans_le hlast)
  exact ⟨es, ev, es', hes, hrebind, htime ▸ hlast, hinLine since k hk hstable hlast⟩

end Loop

/-! ## The small network -/

namespace Small

theorem consistent (l : Links) : (kernelOf l).Consistent where
  succeeds g := by
    unfold Kernel.Succeeds
    by_cases h0 : l.index g.name = 0
    · simp [kernelOf, h0]
    · simpa [kernelOf, h0] using fun _ => Links.name_isSome h0
  name _ _ h := Links.index_of_name h

/-- A round without anything to read, on the host with three interfaces. -/
def wiredIdle (clock : ℤ) : Round := { idle clock with kernel := fun _ => kernelOf wired }

/-- What the loop does until 7 s. -/
theorem wiredIdle_run : ∃ l, (Loop.start wiredDaemon 1000).run [wiredIdle 7000] = .ok l ∧
    l.now = 7000 ∧ ((l.prepare fun _ => kernelOf wired).ndIoPoll []).events =
      [⟨1000, kernelOf wired, .tick⟩, ⟨7000, kernelOf wired, .removeOwnedRoutes⟩,
        ⟨7000, kernelOf wired, .tick⟩, ⟨7000, kernelOf wired, .rebind⟩] :=
  ⟨_, rfl, rfl, rfl⟩

theorem wiredIdle_reconverges :
    0 ≤ (1000 : ℤ) ∧ Timely 1000 [wiredIdle 7000] ∧ (kernelOf wired).Consistent ∧ 0 < (1500 : ℤ) ∧
    ∃ l, (Loop.start wiredDaemon 1000).run [wiredIdle 7000] = .ok l ∧
      (∀ ev ∈ ((l.prepare fun _ => kernelOf wired).ndIoPoll []).events, 1500 ≤ ev.time →
        ev.kernel = kernelOf wired) ∧ 1500 + 5000 < l.now ∧
      ∃ es ev es', ((l.prepare fun _ => kernelOf wired).ndIoPoll []).events = es ++ ev :: es' ∧
        ev.action = .rebind ∧ 1500 ≤ ev.time ∧
        ((l.prepare fun _ => kernelOf wired).ndIoPoll []).daemon.mem.world.net.InLine
          (kernelOf wired) (wiredDaemon.run es).mem.world.net.ifaces := by
  obtain ⟨l, hl, hnow, hevents⟩ := wiredIdle_run
  have hstable : ∀ ev ∈ ((l.prepare fun _ => kernelOf wired).ndIoPoll []).events,
      1500 ≤ ev.time → ev.kernel = kernelOf wired := by
    rw [hevents]
    simp
  have htimely : Timely 1000 [wiredIdle 7000] := by simp [Timely, wiredIdle, idle]
  have hlong : 1500 + 5000 < l.now := by rw [hnow]; decide
  exact ⟨by decide, htimely, consistent wired, by decide, l, hl, hstable, hlong,
    Loop.run_reconverges parsed start_wired 1000 [wiredIdle 7000] l (by decide) htimely hl
      (fun _ => kernelOf wired) [] (kernelOf wired) (consistent wired) 1500 (by decide) hstable
      hlong⟩

end Small

end Ndppd
