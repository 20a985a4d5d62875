import Ndppd.Autowire.Requests

/-!
# Autowired routes

Whether the routes the autowired sessions rely on are there. They need not be: the
flag belongs to a session, but the route is shared by all sessions with the same
target and table, and the first one that is deleted removes it (`Small.route_removed`).

`Host.run_wired` says what has to be excluded, before each event (`Host.Spares`): a
route that the kernel does not accept; sessions that share a route and are on
different interfaces, or one of which is deleted; the purge of a route that a session
relies on; and interfaces that go away and come back without being seen by a pass.
Until a pass sees it, a route may be lost (`Host.Safe`); the pass then asks for it
again.

The condition can be evaluated on a run (`Host.runCheck`).
-/

namespace Ndppd

open Journal

variable {e : Env} {c : Config} {i : SessionId} {s : Session} {new : List Entry}
  {K : IfaceId → Prop} {f : IfaceId}

/-- A removal that changes the routes has been accepted, and is that of its key. -/
theorem Entry.write_removeRoute {t : ℤ} {who : Option SessionId} {dst : Addr} {pflen table : ℕ}
    {accepted : Bool} {k : RouteKey} {v : Slot}
    (hv : Entry.write ⟨t, .removeRoute who dst pflen table accepted⟩ = some (k, v)) :
    accepted = true ∧ (⟨dst, pflen, table⟩ : RouteKey) = k := by
  cases accepted with
  | false => exact absurd hv (by simp [Entry.write])
  | true => exact ⟨rfl, (Prod.mk.inj (Option.some.inj hv)).1⟩

/-! ## The host -/

namespace Host

variable {h : Host} {ev : Event} {x : HostEvent} {xs : List HostEvent}

/-- The autowired sessions have an interface which is up, and the kernel has their
    routes via this interface, or has lost them. -/
def Safe (h : Host) : Prop :=
  ∀ i s, h.daemon.mem.store.session i = some s → s.autowired = true →
    ∃ f, s.iface = some f ∧ (h.daemon.mem.world.net.iface f).up = true ∧
      (h.fib (h.key s) = .via (h.index f) ∨ h.fib (h.key s) = .flushed)

/-- The sessions are autowired by their rules. -/
def Ruled (h : Host) : Prop :=
  ∀ i s, h.daemon.mem.store.session i = some s → s.autowired = true →
    (h.daemon.cfg.rule s.rule).autowire = true

/-- The requests of an event: those that are followed, and where they come from. -/
structure Follows (h : Host) (ev : Event) (new : List Entry) (K : IfaceId → Prop) : Prop where
  tracks : Tracks h.daemon.cfg h.daemon.mem (h.daemon.step ev).mem new K
  origin : ∀ en ∈ new, Origin h.daemon ev (h.daemon.step ev).mem en.act

namespace Follows

variable (hf : h.Follows ev new K) (hrule : h.Ruled)
  (hs : (h.step (.daemon ev)).daemon.mem.store.session i = some s) (hauto : s.autowired = true)

include hf hrule hs hauto

/-- Before the event, a session that is autowired after it is on its interface; or there is
    a session that asks for the same route, via the index of its interface. -/
theorem wirable : ∃ f s₀ f₀, s.iface = some f ∧ h.Wirable s₀ f₀ ∧ h.key s₀ = h.key s ∧
    (h.step (.daemon ev)).index f₀ = (h.step (.daemon ev)).index f ∧
    ((∃ f₁ n, h.daemon.askIndex ev f₁ = some n) ∨
      h.daemon.mem.store.session i = some s₀ ∧ s₀.autowired = true) := by
  obtain ⟨f, hiface, -, hkept | ⟨t, who, accepted, hmem⟩⟩ := hf.tracks.wired i s hs hauto
  · obtain ⟨-, -, s₀, hs₀, hauto₀, hf₀, hk⟩ := hkept
    refine ⟨f, s₀, f, hiface, ⟨⟨i, hs₀⟩, hf₀, hrule i s₀ hs₀ hauto₀⟩, ?_, rfl,
      .inr ⟨hs₀, hauto₀⟩⟩
    rw [Host.key, Host.key, hk.tgt, hk.rule]
  · have horigin := hf.origin _ hmem
    dsimp only at horigin
    generalize hx : Act.addRoute .. = x at horigin
    cases horigin with
    | @asked i₀ s₀ f₀ n hs₀ hf₀ hwire hask hidx =>
      obtain ⟨-, htgt, -, hn, htable, -⟩ := Act.addRoute.inj hx
      refine ⟨f, s₀, f₀, hiface, ⟨⟨i₀, hs₀⟩, hf₀, hwire⟩, ?_, hidx.trans hn.symm,
        .inl ⟨f₀, n, hask⟩⟩
      rw [Host.key, Host.key, htgt, htable]
      rfl
    | deleted => exact absurd hx (by simp)
    | purged => exact absurd hx (by simp)

/-- The requests of the event do not remove or replace the route of the session. -/
theorem write_eq (hsafe : h.Safe) (hok : (h.daemon.env ev).Ok h.daemon.mem.store)
    (hspares : h.Spares ev) {en : Entry} (hen : en ∈ new) {v : Slot}
    (hv : en.write = some (h.key s, v)) :
    ∃ f, s.iface = some f ∧ v = .via ((h.step (.daemon ev)).index f) := by
  obtain ⟨f, s₀, f₀, hiface, hwirable, hkey, hindex, hbefore⟩ := hf.wirable hrule hs hauto
  refine ⟨f, hiface, ?_⟩
  -- Outside of advertisements and passes, the session was there before, and autowired.
  have hthere : (∀ f₁, h.daemon.askIndex ev f₁ = none) →
      h.daemon.mem.store.session i = some s₀ ∧ h.Autowired s₀ f₀ := by
    intro hno
    obtain ⟨f₁, n, hask⟩ | ⟨hs₀, hauto₀⟩ := hbefore
    · exact absurd (hask.symm.trans (hno f₁)) (by simp)
    · exact ⟨hs₀, ⟨i, hs₀⟩, hauto₀, hwirable.2.1⟩
  have horigin := hf.origin en hen
  obtain ⟨t, act⟩ := en
  dsimp only at horigin
  cases horigin with
  | @asked i₁ s₁ f₁ n hs₁ hf₁ hwire hask hidx =>
    have hw₁ : h.Wirable s₁ f₁ := ⟨⟨i₁, hs₁⟩, hf₁, hwire⟩
    have hacc : (h.daemon.env ev).kernel.addRoute s₁.tgt 128 n
        ((h.daemon.env ev).ruleOf s₁).table = true := hspares.granted s₁ f₁ n hw₁ hask
    rw [Env.addRouteAct, hacc] at hv
    obtain ⟨hkey₁, rfl⟩ := Prod.mk.inj (Option.some.inj hv)
    have hkey₁ : h.key s₁ = h.key s₀ := hkey₁.trans hkey.symm
    obtain rfl := hspares.agreed s₁ s₀ f₁ f₀ n hw₁ hwirable hkey₁ hask
    exact congrArg Slot.via (hidx.symm.trans hindex)
  | @deleted i₁ s₁ htick hs₁ hauto₁ hexp hgone =>
    obtain ⟨hs₀, hauto₀⟩ := hthere fun f₁ => by rw [Daemon.askIndex, htick]
    obtain ⟨hacc, hkey₁⟩ := Entry.write_removeRoute hv
    have hkey₁ : h.key s₁ = h.key s₀ := hkey₁.trans hkey.symm
    -- The session would be deleted, too.
    obtain ⟨f₁, hf₁, -⟩ := hsafe i₁ s₁ hs₁ hauto₁
    have hexp₀ := hspares.kept htick s₁ s₀ f₁ f₀ ⟨⟨i₁, hs₁⟩, hauto₁, hf₁⟩ hauto₀ hkey₁ hexp hacc
    have hnone := (tick_eq_none_iff hok hs₀).2 hexp₀
    rw [Host.step, Daemon.step_mem, htick, Daemon.stepMem, hnone] at hs
    exact absurd hs (by simp)
  | @purged route hpurge hmem howned =>
    obtain ⟨-, hauto₀⟩ := hthere fun f₁ => by rw [Daemon.askIndex, hpurge]
    obtain ⟨hacc, hkey₁⟩ := Entry.write_removeRoute hv
    exact absurd (hkey.trans hkey₁.symm)
      (hspares.unowned hpurge route hmem howned hacc s₀ f₀ hauto₀)

end Follows

/-- The route that a session asks for in the event is accepted. -/
theorem Follows.accepted (hf : h.Follows ev new K) (hspares : h.Spares ev) {t : ℤ}
    {who : SessionId} {dst : Addr} {pflen oif table : ℕ} {accepted : Bool}
    (hmem : ⟨t, .addRoute who dst pflen oif table accepted⟩ ∈ new) : accepted = true := by
  have horigin := hf.origin _ hmem
  dsimp only at horigin
  generalize hx : Act.addRoute .. = x at horigin
  cases horigin with
  | @asked i₀ s₀ f₀ n hs₀ hf₀ hwire hask =>
    rw [(Act.addRoute.inj hx).2.2.2.2.2]
    exact hspares.granted s₀ f₀ n ⟨⟨i₀, hs₀⟩, hf₀, hwire⟩ hask
  | deleted => exact absurd hx (by simp)
  | purged => exact absurd hx (by simp)

/-- A session that is autowired after an event has its route; or the kernel had
    lost it before, and the session has been autowired since. -/
theorem step_cases (hsafe : h.Safe) (hrule : h.Ruled)
    (hok : (h.daemon.env ev).Ok h.daemon.mem.store) (hfollows : h.Follows ev new K)
    (hspares : h.Spares ev)
    (hs : (h.step (.daemon ev)).daemon.mem.store.session i = some s) (hauto : s.autowired = true) :
    ∃ f, s.iface = some f ∧ ((h.step (.daemon ev)).daemon.mem.world.net.iface f).up = true ∧
      ((h.step (.daemon ev)).fib (h.key s) = .via ((h.step (.daemon ev)).index f) ∨
        (h.step (.daemon ev)).fib (h.key s) = .flushed ∧ h.fib (h.key s) = .flushed ∧
          Kept h.daemon.mem (h.daemon.step ev).mem K i s f) := by
  obtain ⟨f, hf, hup, hcase⟩ := hfollows.tracks.wired i s hs hauto
  have hfib : (h.step (.daemon ev)).fib = replay Entry.write new h.fib := by
    rw [Host.step, World.requestsSince_eq hfollows.tracks.requests]
  have hagree : ∀ en ∈ new, ∀ v, en.write = some (h.key s, v) →
      v = .via ((h.step (.daemon ev)).index f) := by
    intro en hen v hv
    obtain ⟨g, hg, hvia⟩ := hfollows.write_eq hrule hs hauto hsafe hok hspares hen hv
    rwa [Option.some.inj (hf.symm.trans hg)]
  refine ⟨f, hf, hup, ?_⟩
  rw [hfib]
  rcases hcase with hkept | ⟨t, who, accepted, hmem⟩
  · have hkept' := hkept
    obtain ⟨-, hindex, s₀, hs₀, hauto₀, hf₀, hk⟩ := hkept
    obtain ⟨f', hf', -, hfib₀⟩ := hsafe i s₀ hs₀ hauto₀
    obtain rfl : f' = f := Option.some.inj (hf'.symm.trans hf₀)
    have hkey : h.key s₀ = h.key s := by rw [Host.key, Host.key, hk.tgt, hk.rule]
    rw [hkey] at hfib₀
    rcases replay_eq_or (t := h.fib) hagree with hold | hnew
    · rw [hold]
      rcases hfib₀ with hvia | hflushed
      · exact .inl (hvia.trans (congrArg Slot.via hindex.symm))
      · exact .inr ⟨hflushed, hflushed, hkept'⟩
    · exact .inl hnew
  · -- The request for this session is accepted.
    have hacc := hfollows.accepted hspares hmem
    exact .inl (replay_of_mem hagree hmem (by rw [hacc]; rfl))

theorem Safe.flush (hsafe : h.Safe) (n : ℕ) : (h.step (.flush n)).Safe := by
  intro i s hs hauto
  obtain ⟨f, hf, hup, hfib⟩ := hsafe i s hs hauto
  refine ⟨f, hf, hup, ?_⟩
  change h.fib.flush n (h.key s) = .via (h.index f) ∨ h.fib.flush n (h.key s) = .flushed
  unfold Fib.flush
  split_ifs
  · exact .inr rfl
  · exact hfib

/-- An event is followed through its moves. -/
theorem follows (hsafe : h.Safe) (hok : (h.daemon.env ev).Ok h.daemon.mem.store)
    (hc : h.daemon.mem.Counted h.daemon.cfg)
    (hlist : ∀ p, ∀ r ∈ (h.daemon.cfg.proxy p).rules, p ∈ h.daemon.cfg.proxies) :
    ∃ new, h.Follows ev new fun f =>
      ev.action = .rebind → f ∈ h.daemon.mem.world.net.ifaces →
        ¬ev.kernel.Notices (h.daemon.mem.world.net.iface f) := by
  have h₀ : Tracks h.daemon.cfg h.daemon.mem h.daemon.mem [] fun _ => True :=
    .refl fun i s hs hauto => by
      obtain ⟨f, hf, hup, -⟩ := hsafe i s hs hauto
      exact ⟨f, hf, hup⟩
  have htracks : ∃ new, Tracks h.daemon.cfg h.daemon.mem (h.daemon.step ev).mem new fun f =>
      ev.action = .rebind → f ∈ h.daemon.mem.world.net.ifaces →
        ¬ev.kernel.Notices (h.daemon.mem.world.net.iface f) := by
    rw [Daemon.step_mem]
    by_cases ha : ev.action = .rebind
    · obtain ⟨new, ht⟩ := rebindAll_tracks (e := h.daemon.env ev) hok hc.exact.nodup h₀
      rw [ha]
      exact ⟨new, ht.weaken fun f hf => .inl fun _ => hf⟩
    · obtain ⟨new, ht⟩ := stepMem_tracks (e := h.daemon.env ev) ha hok hc hlist h₀
      exact ⟨new, ht.weaken fun f _ => .inl fun hr => absurd hr ha⟩
  obtain ⟨new, ht⟩ := htracks
  obtain ⟨new', hnew, horigin⟩ := Daemon.step_origin hok
  obtain rfl := List.append_cancel_right (ht.requests.symm.trans hnew)
  exact ⟨new, ht, horigin⟩

/-- The routes are there or lost after the event; after a pass whose queries
    succeed, they are there. -/
theorem Safe.daemon (hsafe : h.Safe) (hrule : h.Ruled)
    (hok : (h.daemon.env ev).Ok h.daemon.mem.store) (hc : h.daemon.mem.Counted h.daemon.cfg)
    (hlist : ∀ p, ∀ r ∈ (h.daemon.cfg.proxy p).rules, p ∈ h.daemon.cfg.proxies)
    (hspares : h.Spares ev) : (h.step (.daemon ev)).Safe ∧
      (h.daemon.Completes ev → (h.step (.daemon ev)).Wired) := by
  obtain ⟨new, hfollows⟩ := follows hsafe hok hc hlist
  refine ⟨fun i s hs hauto => ?_, fun hcomp i s hs hauto => ?_⟩
  · obtain ⟨f, hf, hup, hcase⟩ := step_cases hsafe hrule hok hfollows hspares hs hauto
    exact ⟨f, hf, hup, hcase.imp_right fun hflushed => hflushed.1⟩
  · obtain ⟨f, hf, -, hvia | ⟨-, hlost, hkept⟩⟩ :=
      step_cases hsafe hrule hok hfollows hspares hs hauto
    · exact ⟨f, hf, hvia⟩
    · -- The pass has seen that the route was lost, and has left the session alone.
      obtain ⟨hunseen, -, s₀, hs₀, hauto₀, hf₀, hk⟩ := hkept
      refine absurd (hspares.noticed hcomp s₀ f ⟨⟨i, hs₀⟩, hauto₀, hf₀⟩ ?_)
        (hunseen hcomp.1 (hc.mem_ifaces hok.before hs₀ hf₀))
      rw [Host.key, ← hk.tgt, ← hk.rule]
      exact hlost

/-! ### Runs -/

theorem run_concat (h : Host) (xs : List HostEvent) (x : HostEvent) :
    h.run (xs ++ [x]) = (h.run xs).step x := List.foldl_concat ..

theorem runMeets_concat (h : Host) (xs : List HostEvent) (x : HostEvent) :
    h.RunMeets (xs ++ [x]) ↔ h.RunMeets xs ∧ (h.run xs).Meets x := by
  induction xs generalizing h with
  | nil => simp [RunMeets, run]
  | cons y xs ih =>
    rw [List.cons_append, RunMeets, RunMeets, ih, and_assoc]
    rfl

/-- The daemon runs on its own events. -/
theorem exists_run_daemon (h : Host) (xs : List HostEvent) :
    ∃ es, (h.run xs).daemon = h.daemon.run es := by
  induction xs using List.reverseRecOn with
  | nil => exact ⟨[], rfl⟩
  | append_singleton xs x ih =>
    obtain ⟨es, hes⟩ := ih
    rw [run_concat]
    cases x with
    | daemon ev =>
      refine ⟨es ++ [ev], ?_⟩
      rw [Daemon.run_concat, ← hes]
      rfl
    | flush n => exact ⟨es, hes⟩

section Runs

variable {d : Daemon} {fib : Fib}

/-- What the daemon keeps in every state reached. -/
theorem run_counted (hc : c.Parsed) (hd : Daemon.start e c = some d) (fib : Fib)
    (xs : List HostEvent) (ev : Event) : let h := run { daemon := d, fib } xs
    (h.daemon.env ev).Ok h.daemon.mem.store ∧ h.daemon.mem.Counted h.daemon.cfg ∧
      ∀ p, ∀ r ∈ (h.daemon.cfg.proxy p).rules, p ∈ h.daemon.cfg.proxies := by
  obtain ⟨es, hes⟩ := exists_run_daemon { daemon := d, fib } xs
  dsimp only
  rw [hes, Daemon.run_cfg]
  exact Daemon.run_counted hc hd es ev

theorem run_ruled (hd : Daemon.start e c = some d) (fib : Fib) (xs : List HostEvent) :
    (run { daemon := d, fib } xs).Ruled := by
  obtain ⟨es, hes⟩ := exists_run_daemon { daemon := d, fib } xs
  obtain ⟨cw, -, rfl⟩ := Option.map_eq_some_iff.1 hd
  rw [Ruled, hes, Daemon.run_cfg, Daemon.init_cfg]
  refine Daemon.run_sessions
    (P := fun s => s.autowired = true → (cw.1.rule s.rule).autowire = true) ?_ es
  intro e i w a o s' w' _ hcfg hchange
  rw [← hcfg]
  exact hchange.autowire

theorem run_safe (hc : c.Parsed) (hd : Daemon.start e c = some d)
    (hmeets : RunMeets { daemon := d, fib } xs) : (run { daemon := d, fib } xs).Safe := by
  induction xs using List.reverseRecOn with
  | nil =>
    obtain ⟨cw, -, rfl⟩ := Option.map_eq_some_iff.1 hd
    exact fun i s hs => absurd hs (by simp [run, Daemon.init, Store.empty])
  | append_singleton xs x ih =>
    rw [runMeets_concat] at hmeets
    have hsafe := ih hmeets.1
    rw [run_concat]
    cases x with
    | daemon ev =>
      obtain ⟨hok, hcount, hlist⟩ := run_counted hc hd fib xs ev
      exact (hsafe.daemon (run_ruled hd fib xs) hok hcount hlist hmeets.2).1
    | flush n => exact hsafe.flush n

/-- In every run whose events all meet the condition, after a pass over the
    interfaces whose queries succeed, the routes of the autowired sessions are
    there. -/
theorem run_wired (hc : c.Parsed) (hd : Daemon.start e c = some d) {ev : Event}
    (hmeets : RunMeets { daemon := d, fib } (xs ++ [.daemon ev]))
    (hcomp : (run { daemon := d, fib } xs).daemon.Completes ev) :
    (run { daemon := d, fib } (xs ++ [.daemon ev])).Wired := by
  rw [runMeets_concat] at hmeets
  obtain ⟨hok, hcount, hlist⟩ := run_counted hc hd fib xs ev
  rw [run_concat]
  exact ((run_safe hc hd hmeets.1).daemon (run_ruled hd fib xs) hok hcount hlist hmeets.2).2 hcomp

end Runs

end Host

/-! ## Evaluating the condition -/

instance (k : Kernel) (g : Iface) : Decidable (k.Notices g) := by
  unfold Kernel.Notices
  dsimp only
  infer_instance

instance (s : Session) (conf : Conf) (now : ℤ) : Decidable (s.Expires conf now) := by
  unfold Session.Expires
  infer_instance

namespace Host

variable {h : Host} {x : HostEvent} {xs : List HostEvent} {d : Daemon} {fib : Fib}

/-- The sessions that have an interface. -/
def links (h : Host) : List (Session × IfaceId) :=
  (List.range h.daemon.mem.store.fresh).filterMap fun i =>
    (h.daemon.mem.store.session i).bind fun s => s.iface.map fun f => (s, f)

/-- Those of them that are autowired. -/
def wires (h : Host) : List (Session × IfaceId) := h.links.filter fun sf => sf.1.autowired

/-- Those of them that are to be autowired. -/
def wirables (h : Host) : List (Session × IfaceId) :=
  h.links.filter fun sf => (h.daemon.cfg.rule sf.1.rule).autowire

section

variable (hb : Before h.daemon.mem.store.fresh h.daemon.mem.store.session)

include hb

theorem mem_links (hs : h.daemon.mem.store.session i = some s) (hf : s.iface = some f) :
    (s, f) ∈ h.links := by
  refine List.mem_filterMap.2 ⟨i, List.mem_range.2 (hb i s hs), ?_⟩
  rw [hs, Option.bind_some, hf, Option.map_some]

theorem mem_wires (hs : h.Autowired s f) : (s, f) ∈ h.wires := by
  obtain ⟨⟨i, hi⟩, hauto, hf⟩ := hs
  exact List.mem_filter.2 ⟨mem_links hb hi hf, hauto⟩

theorem mem_wirables (hs : h.Wirable s f) : (s, f) ∈ h.wirables := by
  obtain ⟨⟨i, hi⟩, hf, hwire⟩ := hs
  exact List.mem_filter.2 ⟨mem_links hb hi hf, hwire⟩

end

/-- Whether the event meets the condition. -/
def check (h : Host) : HostEvent → Bool
  | .daemon ev =>
    (h.wirables.all fun sf => (h.daemon.askIndex ev sf.2).all fun n =>
      ev.kernel.addRoute sf.1.tgt 128 n (h.key sf.1).table &&
        h.wirables.all fun tg => decide (h.key sf.1 = h.key tg.1 → sf.2 = tg.2)) &&
    match ev.action with
    | .tick => h.wires.all fun sf => h.wires.all fun tg => decide (h.key sf.1 = h.key tg.1 →
        sf.1.Expires h.daemon.conf ev.time →
        ev.kernel.removeRoute sf.1.tgt 128 (h.key sf.1).table = true →
          tg.1.Expires h.daemon.conf ev.time)
    | .removeOwnedRoutes => h.daemon.rt.routes.all fun route => h.wires.all fun sf =>
        decide (route.owned = true →
          ev.kernel.removeRoute route.dst route.pflen route.table = true →
            h.key sf.1 ≠ ⟨route.dst, route.pflen, route.table⟩)
    | .rebind => h.wires.all fun sf => decide (h.fib (h.key sf.1) = .flushed →
        ev.kernel.Notices (h.daemon.mem.world.net.iface sf.2))
    | _ => true
  | .flush _ => true

/-- Whether all events of the run meet the condition. -/
def runCheck : Host → List HostEvent → Bool
  | _, [] => true
  | h, x :: xs => h.check x && (h.step x).runCheck xs

theorem meets_of_check (hb : Before h.daemon.mem.store.fresh h.daemon.mem.store.session)
    (hx : h.check x = true) : h.Meets x := by
  cases x with
  | flush n => exact trivial
  | daemon ev =>
    obtain ⟨hask, hrest⟩ := Bool.and_eq_true_iff.1 hx
    -- What is checked for a route that may be asked for.
    have hasked : ∀ s f n, h.Wirable s f → h.daemon.askIndex ev f = some n →
        ev.kernel.addRoute s.tgt 128 n (h.key s).table = true ∧
          ∀ t g, h.Wirable t g → h.key s = h.key t → f = g := by
      intro s f n hs hn
      have h₁ := List.all_eq_true.1 hask _ (mem_wirables hb hs)
      dsimp only at h₁
      rw [hn, Option.all_some, Bool.and_eq_true, List.all_eq_true] at h₁
      exact ⟨h₁.1, fun t g ht => of_decide_eq_true (h₁.2 _ (mem_wirables hb ht))⟩
    refine ⟨fun s f n hs hn => (hasked s f n hs hn).1,
      fun s t f g n hs ht hkey hn => (hasked s f n hs hn).2 t g ht hkey, ?_, ?_, ?_⟩
    · intro ha s t f g hs ht
      rw [ha] at hrest
      exact of_decide_eq_true
        (List.all_eq_true.1 (List.all_eq_true.1 hrest _ (mem_wires hb hs)) _ (mem_wires hb ht))
    · intro ha route hroute howned hacc s f hs
      rw [ha] at hrest
      exact of_decide_eq_true (List.all_eq_true.1 (List.all_eq_true.1 hrest route hroute) _
        (mem_wires hb hs)) howned hacc
    · intro hcomp s f hs hlost
      rw [hcomp.1] at hrest
      exact of_decide_eq_true (List.all_eq_true.1 hrest _ (mem_wires hb hs)) hlost

theorem runMeets_of_runCheck (hc : c.Parsed) (hd : Daemon.start e c = some d)
    (hxs : runCheck { daemon := d, fib } xs = true) : RunMeets { daemon := d, fib } xs := by
  have hb : ∀ pre, Before (run { daemon := d, fib } pre).daemon.mem.store.fresh
      (run { daemon := d, fib } pre).daemon.mem.store.session := fun pre =>
    (run_counted hc hd fib pre ⟨0, e.kernel, .tick⟩).1.before
  -- From any point of the run on.
  have hfrom : ∀ xs pre, runCheck (run { daemon := d, fib } pre) xs = true →
      RunMeets (run { daemon := d, fib } pre) xs := by
    intro xs
    induction xs with
    | nil => exact fun _ _ => trivial
    | cons x xs ih =>
      intro pre hcheck
      obtain ⟨hx, hxs⟩ := Bool.and_eq_true_iff.1 hcheck
      rw [← run_concat] at hxs
      rw [RunMeets, ← run_concat]
      exact ⟨meets_of_check (hb pre) hx, ih (pre ++ [x]) hxs⟩
  exact hfrom xs [] hxs

end Host

/-! ## The small network -/

namespace Small

/-- A rule for all targets, which are looked for on the third interface and
    autowired in the main table. -/
def wireRule (rule : Rule) : Rule :=
  { rule with mode := .iface, ifname := [3], autowire := true, table := 254 }

theorem parsed_wire : (config wireRule).Parsed := by
  have hc : (config wireRule).Closed := config_closed fun _ => rfl
  exact hc.parsed (by decide +kernel)

theorem start_wire :
    Daemon.start { kernel, conf, cfg := config wireRule, rt := {}, now := 0 } (config wireRule) =
      some (daemon wireRule) :=
  start_of_isSome (by decide +kernel)

theorem completes_rebind (d : Daemon) (t : ℤ) : d.Completes (event t .rebind) := by
  refine ⟨rfl, fun f _ => ?_⟩
  change kernel.Succeeds _
  unfold Kernel.Succeeds kernel
  dsimp only
  split <;> simp

/-- The daemon with autowired rules, on a kernel without routes. -/
def host : Host where
  daemon := daemon wireRule
  fib _ := .absent

/-- The third interface goes down, which a pass sees; then it is up again. -/
def flap : List HostEvent :=
  [.daemon (event 0 .rebind), .daemon (event 10 (.rxNs 2 5 (message 7) 9)),
    .daemon (event 20 (.rxNa 1 (message 7))), .flush 3,
    .daemon { time := 30, kernel := { kernel with flags := fun name => some (name != [3]) },
              action := .rebind }]

theorem wired_flap :
    (host.run (flap ++ [.daemon (event 40 .rebind)])).wires.length = 1 ∧
      (host.run (flap ++ [.daemon (event 40 .rebind)])).Wired := by
  refine ⟨by decide +kernel, Host.run_wired parsed_wire start_wire ?_ (completes_rebind _ _)⟩
  exact Host.runMeets_of_runCheck parsed_wire start_wire (by decide +kernel)

/-- Both proxies have a session for the same target. The older one is not asked
    for any more, and deleted; the other one is still there. -/
def sharing : List HostEvent :=
  [.daemon (event 0 (.rxNs 2 5 (message 7) 9)), .daemon (event 10 (.rxNa 1 (message 7))),
    .daemon (event 20000 (.rxNs 0 5 (message 7) 9)), .daemon (event 20010 (.rxNa 1 (message 7))),
    .daemon (event 30010 .tick), .daemon (event 60010 .tick), .daemon (event 70010 .tick)]

/-- The session that is deleted takes the route away from the other one. -/
theorem route_removed : (host.run sharing).daemon.Completes (event 70020 .rebind) ∧
    ¬(host.run (sharing ++ [.daemon (event 70020 .rebind)])).Wired := by
  refine ⟨completes_rebind _ _, fun hwired => ?_⟩
  have hlost : ((host.run (sharing ++ [.daemon (event 70020 .rebind)])).daemon.mem.store.session
      1).any (fun s => s.autowired &&
        (host.run (sharing ++ [.daemon (event 70020 .rebind)])).fib
          ((host.run (sharing ++ [.daemon (event 70020 .rebind)])).key s) == .absent) = true := by
    decide +kernel
  obtain ⟨s, hs, hlost⟩ := (Option.any_eq_true ..).1 hlost
  rw [Bool.and_eq_true, beq_iff_eq] at hlost
  obtain ⟨f, -, hvia⟩ := hwired 1 s hs hlost.1
  exact absurd (hlost.2.symm.trans hvia) (by simp)

end Small

end Ndppd