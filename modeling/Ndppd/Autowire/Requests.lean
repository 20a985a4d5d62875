import Ndppd.Autowire.Passes

/-!
# Where the requests come from

Every request about a route is made because of something that was there before the
event (`Origin`). A route is asked for by a session of an interface on which an
advertisement was received, or which a pass has found, via the index that the kernel
has for it. A route is removed by a session whose timer has run out, or by
`nd_rt_remove_owned_routes`.

So what is to be expected of the requests of an event can be said before it
(`Daemon.step_origin`).
-/

namespace Ndppd

variable {e : Env} {i : SessionId} {s s' : Session} {w w' : World} {m₀ m m' : Mem} {f : IfaceId}
  {d : Daemon} {ev : Event} {a : Action} {x : Act}

/-- Where a request comes from: what there was before the event, which leads to `m'`. -/
inductive Origin (d : Daemon) (ev : Event) (m' : Mem) : Act → Prop
  /-- A session asks for its route. -/
  | asked {i : SessionId} {s : Session} {f : IfaceId} {n : ℕ} :
      d.mem.store.session i = some s → s.iface = some f →
      (d.cfg.rule s.rule).autowire = true → d.askIndex ev f = some n →
      (m'.world.net.iface f).index = n → Origin d ev m' ((d.env ev).addRouteAct i s n)
  /-- A session which is autowired is deleted. -/
  | deleted {i : SessionId} {s : Session} : ev.action = .tick →
      d.mem.store.session i = some s → s.autowired = true → s.Expires d.conf ev.time →
      m'.store.session i = none → Origin d ev m' ((d.env ev).removeRouteAct i s)
  /-- A route is one of the daemon's own. -/
  | purged {route : Route} : ev.action = .removeOwnedRoutes → route ∈ d.rt.routes →
      route.owned = true → Origin d ev m' (.removeRoute none route.dst route.pflen route.table
        (ev.kernel.removeRoute route.dst route.pflen route.table))

/-! ## Passes over the interfaces -/

/-- The index that the kernel has for an object of `m`. -/
def Env.current (e : Env) (m : Mem) (f : IfaceId) : ℕ :=
  (e.kernel.ifNametoindex (m.world.net.iface f).name).1

/-- A session of `m₀` asks for its route, via the index that the kernel has for its interface.
    The object has this index in `m`. -/
def AsksFor (e : Env) (m₀ m : Mem) (x : Act) : Prop :=
  ∃ i s f, m₀.store.session i = some s ∧ s.iface = some f ∧ (e.ruleOf s).autowire = true ∧
    e.current m₀ f ≠ 0 ∧ (m.world.net.iface f).index = e.current m₀ f ∧
    x = e.addRouteAct i s (e.current m₀ f)

/-- What has happened from `m₀` to `m`, in a pass over the interfaces. -/
structure Asks (e : Env) (m₀ m : Mem) : Prop where
  name : ∀ f, (m.world.net.iface f).name = (m₀.world.net.iface f).name
  session : ∀ i s, m.store.session i = some s →
    ∃ s₀, m₀.store.session i = some s₀ ∧ s₀.SameKey s ∧ s.iface = s₀.iface
  requests : ∃ new, m.world.requests = new ++ m₀.world.requests ∧
    ∀ en ∈ new, AsksFor e m₀ m en.act

/-- A session that is told about its interface asks for its route, if anything. -/
theorem ifaceChanged_requests (e : Env) (f : IfaceId) (up : Bool) (i : SessionId) (s : Session)
    (w : World) : (ifaceChanged e f up i s w).2.requests = w.requests ∨
      up = true ∧ s.iface = some f ∧ (e.ruleOf s).autowire = true ∧
        (ifaceChanged e f up i s w).2.requests =
          ⟨e.now, e.addRouteAct i s (w.net.iface f).index⟩ :: w.requests := by
  unfold ifaceChanged
  split_ifs with hf hup hv
  · exact .inl rfl
  · exact .inl rfl
  · rw [not_not] at hf
    rcases ndLUp_cases e i s w with ⟨h, -⟩ | ⟨g, hg, -, -, hwire, h⟩
    · rw [h]
      exact .inl rfl
    · obtain rfl := Option.some.inj (hf.symm.trans hg)
      rw [h]
      exact .inr ⟨by simpa using hup, hf, hwire, rfl⟩
  · exact .inl rfl

namespace Asks

theorem refl (e : Env) (m : Mem) : Asks e m m :=
  ⟨fun _ => rfl, fun _ s hs => ⟨s, hs, .refl s, rfl⟩, [], rfl, by simp⟩

/-- An object is written: it gets the index that the kernel has for it, or none. -/
theorem setIface (h : Asks e m₀ m) (f : IfaceId) (g : Iface)
    (hname : g.name = (m.world.net.iface f).name)
    (hindex : g.index = (m.world.net.iface f).index ∨ g.index = e.current m₀ f) :
    Asks e m₀ (m.setIface f g) := by
  have hself : (m.setIface f g).world.net.iface f = g := m.world.net.set_iface_self f g
  have hne : ∀ f', f' ≠ f → (m.setIface f g).world.net.iface f' = m.world.net.iface f' :=
    fun f' hf' => m.world.net.set_iface_of_ne g hf'
  refine ⟨fun f' => ?_, h.session, ?_⟩
  · by_cases hf' : f' = f
    · subst hf'
      rw [hself, hname, h.name]
    · rw [hne f' hf', h.name]
  · obtain ⟨new, hnew, hfor⟩ := h.requests
    refine ⟨new, hnew, fun en hen => ?_⟩
    obtain ⟨i, s, f', hs, hf', hwire, hcur, hidx, hx⟩ := hfor en hen
    refine ⟨i, s, f', hs, hf', hwire, hcur, ?_, hx⟩
    by_cases heq : f' = f
    · subst heq
      rw [hself]
      exact hindex.elim (fun hsame => hsame.trans hidx) id
    · rw [hne f' heq]
      exact hidx

theorem emit (h : Asks e m₀ m) (hx : x.isRequest = false) : Asks e m₀ (m.emit e x) := by
  refine ⟨h.name, h.session, ?_⟩
  obtain ⟨new, hnew, hfor⟩ := h.requests
  exact ⟨new, (emit_requests m.world e hx).trans hnew, hfor⟩

/-- A session is told about its interface; it may ask for its route if the object has the index
    that the kernel has for it. -/
theorem told (h : Asks e m₀ m) {up : Bool} (hup : up = true →
      (m.world.net.iface f).index = e.current m₀ f ∧ e.current m₀ f ≠ 0) (i : SessionId) :
    Asks e m₀ (m.withSession i (ifaceChanged e f up i)) := by
  cases hs : m.store.session i with
  | none => rwa [m.withSession_none _ hs]
  | some s =>
    rw [m.withSession_eq _ hs]
    obtain ⟨s₀, hs₀, hkey, hiface⟩ := h.session i s hs
    have hnet := ifaceChanged_net e f up i s m.world
    refine ⟨fun g => (congrArg (fun n => (Net.iface n g).name) hnet).trans (h.name g),
      fun j t ht => ?_, ?_⟩
    · by_cases hj : j = i
      · subst hj
        obtain rfl := Option.some.inj ((Store.set_session_self ..).symm.trans ht)
        obtain ⟨b, hb⟩ := ifaceChanged_fst e f up j s m.world
        refine ⟨s₀, hs₀, hkey.trans (ifaceChanged_sameKey ..), ?_⟩
        rw [hb]
        exact hiface
      · exact h.session j t ((Store.set_session_of_ne _ _ hj).symm.trans ht)
    · obtain ⟨new, hnew, hfor⟩ := h.requests
      have hold : ∀ en ∈ new, AsksFor e m₀
          ⟨m.store.set i (ifaceChanged e f up i s m.world).1,
            (ifaceChanged e f up i s m.world).2⟩ en.act := by
        intro en hen
        unfold AsksFor
        rw [hnet]
        exact hfor en hen
      rcases ifaceChanged_requests e f up i s m.world with hreq | ⟨rfl, hf, hwire, hreq⟩
      · exact ⟨new, hreq.trans hnew, hold⟩
      · obtain ⟨hidx, hcur⟩ := hup rfl
        refine ⟨_ :: new, by rw [hreq, hnew]; rfl, List.forall_mem_cons.2 ⟨?_, hold⟩⟩
        refine ⟨i, s₀, f, hs₀, hiface.symm.trans hf, ?_, hcur, ?_, ?_⟩
        · rw [Env.ruleOf, ← hkey.rule]
          exact hwire
        · rw [hnet]
          exact hidx
        · rw [hidx, Env.addRouteAct, Env.ruleOf, hkey.tgt, hkey.rule]
          rfl

/-- The sessions are told about the interface `f`. -/
theorem changed (h : Asks e m₀ m) {up : Bool} (hup : up = true →
      (m.world.net.iface f).index = e.current m₀ f ∧ e.current m₀ f ≠ 0) :
    Asks e m₀ (ndSessionIfaceChanged e f up m) := by
  -- The interfaces do not change.
  let Q : Mem → Prop := fun m' => m'.world.net = m.world.net ∧ Asks e m₀ m'
  have hsession : ∀ i m', Q m' → Q (m'.withSession i (ifaceChanged e f up i)) := by
    rintro i m' ⟨hnet, hm'⟩
    refine ⟨?_, hm'.told (by rw [hnet]; exact hup) i⟩
    cases hs : m'.store.session i with
    | none => rw [m'.withSession_none _ hs, hnet]
    | some s =>
      rw [m'.withSession_eq _ hs]
      exact (ifaceChanged_net e f up i s m'.world).trans hnet
  have hall : Q (ndSessionIfaceChanged e f up m) := by
    unfold ndSessionIfaceChanged
    refine List.foldlRecOn (motive := Q) _ _ ⟨rfl, h⟩ fun m' hm' b _ => ?_
    unfold ifaceChangedBucket
    exact Intrusive.foreach_invariant hsession _ _ hm'
  exact hall.2

theorem ite {p : Prop} [Decidable p] (h : Asks e m₀ m) (h' : Asks e m₀ m → Asks e m₀ m') :
    Asks e m₀ (if p then m' else m) := by
  split_ifs
  exacts [h' h, h]

theorem rebindAbsent (h : Asks e m₀ m) (f : IfaceId) : Asks e m₀ (rebindAbsent e f m) := by
  let g : Iface := { m.world.net.iface f with up := false, adminUp := false }
  have hset : Asks e m₀ (m.setIface f g) := h.setIface f g rfl (.inl rfl)
  unfold Ndppd.rebindAbsent
  exact h.ite fun _ => hset.changed fun hup => absurd hup (by simp)

/-- An object that has the index which the kernel has for it. -/
theorem rebindSame (h : Asks e m₀ m) (adminUp : Bool)
    (hidx : (m.world.net.iface f).index = e.current m₀ f) (hcur : e.current m₀ f ≠ 0) :
    Asks e m₀ (rebindSame e f adminUp m) := by
  unfold Ndppd.rebindSame
  exact (h.ite fun h => h.changed fun _ => ⟨hidx, hcur⟩).setIface f _ rfl (.inl rfl)

/-- An object that gets this index. -/
theorem bindNew (h : Asks e m₀ m) (adminUp : Bool) (hcur : e.current m₀ f ≠ 0) :
    Asks e m₀ (bindNew e f (e.current m₀ f) adminUp m) := by
  let g : Iface := { m.world.net.iface f with index := e.current m₀ f, up := true }
  have hbound : Asks e m₀ (m.setIface f g) := h.setIface f g rfl (.inr rfl)
  have hself : (m.setIface f g).world.net.iface f = g := m.world.net.set_iface_self f g
  unfold Ndppd.bindNew
  refine (hbound.ite fun h => h.changed fun _ => ⟨?_, hcur⟩).setIface f _ rfl (.inl rfl)
  rw [hself]

theorem rebindNew (h : Asks e m₀ m) (adminUp : Bool) (hcur : e.current m₀ f ≠ 0) :
    Asks e m₀ (rebindNew e f (e.current m₀ f) adminUp m) := by
  have hjoin : Asks e m₀ (m.emit e (joinAct e f (e.current m₀ f) m)) := h.emit rfl
  cases hacc : e.kernel.addMembership (e.current m₀ f) (m.world.net.iface f).promiscuous with
  | false =>
    rw [rebindNew_refused hacc]
    exact hjoin
  | true =>
    have hleave : Asks e m₀ (leaveOld e f (e.current m₀ f) m) := hjoin.ite fun h => h.emit rfl
    rw [rebindNew_accepted hacc]
    exact (hleave.ite fun h => h.changed fun hup => absurd hup (by simp)).bindNew adminUp hcur

/-- One object of a pass. -/
theorem rebindIface (h : Asks e m₀ m) (f : IfaceId) : Asks e m₀ (rebindIface e m f) := by
  have hcur : (e.kernel.ifNametoindex (m.world.net.iface f).name).1 = e.current m₀ f := by
    rw [h.name, Env.current]
  -- The address is written first.
  let g : Iface := { m.world.net.iface f with
    lladdr := (e.kernel.hwaddr (m.world.net.iface f).name).getD (m.world.net.iface f).lladdr }
  have hset : Asks e m₀ (m.setIface f g) := h.setIface f g rfl (.inl rfl)
  have hself : (m.setIface f g).world.net.iface f = g := m.world.net.set_iface_self f g
  unfold Ndppd.rebindIface
  dsimp only
  rw [hcur]
  split_ifs with h0 herr hsame
  · exact h.rebindAbsent f
  · exact h
  · refine hset.rebindSame _ ?_ h0
    rw [hself]
    exact hsame.1.symm
  · exact hset.rebindNew _ h0

theorem rebindAll (e : Env) (m : Mem) : Asks e m (ndIfaceRebindAll e m) :=
  List.foldlRecOn (motive := Asks e m) _ _ (refl e m) fun _ h f _ => h.rebindIface f

end Asks

/-! ## Advertisements -/

theorem NaCase.asks (h : NaCase e i s w s' w') : w'.requests = w.requests ∨
    ∃ f, s.iface = some f ∧ (w.net.iface f).up = true ∧ (e.ruleOf s).autowire = true ∧
      w'.requests = ⟨e.now, e.addRouteAct i s (w.net.iface f).index⟩ :: w.requests := by
  cases h with
  | refreshed => exact .inl rfl
  | validated b w' _ hup =>
    have hcases := ndLUp_cases e i { s with subs := [] } (sendSubs e i s w)
    rw [hup] at hcases
    rcases hcases with ⟨heq, -⟩ | ⟨f, hf, hlink, -, hwire, heq⟩
    · obtain rfl : w' = sendSubs e i s w := (Prod.ext_iff.1 heq).2
      exact .inl (sendSubs_requests ..)
    · rw [sendSubs_net] at hlink heq
      obtain rfl := (Prod.ext_iff.1 heq).2
      refine .inr ⟨f, hf, hlink, hwire, ?_⟩
      rw [← sendSubs_requests e i s w]
      rfl

/-! ## Ticks -/

/-- What has happened from `m₀` to `m`, in a tick. -/
structure Drops (e : Env) (m₀ m : Mem) : Prop where
  session : ∀ i s, m.store.session i = some s →
    ∃ s₀, m₀.store.session i = some s₀ ∧ s₀.SameKey s ∧ s.autowired = s₀.autowired
  requests : ∃ new, m.world.requests = new ++ m₀.world.requests ∧ ∀ en ∈ new,
    ∃ i s₀, m₀.store.session i = some s₀ ∧ s₀.autowired = true ∧ m.store.session i = none ∧
      en.act = e.removeRouteAct i s₀

theorem Drops.refl (e : Env) (m : Mem) : Drops e m m :=
  ⟨fun _ s hs => ⟨s, hs, .refl s, rfl⟩, [], rfl, by simp⟩

theorem Drops.update (h : Drops e m₀ m) (hs : m.store.session i = some s) {o : Option Session}
    {st' : Store} (hu : UpdateCase e i s m.world o w') (hw : m.store.Writes e i o st') :
    Drops e m₀ { store := st', world := w' } := by
  obtain ⟨s₀, hs₀, hkey, hauto⟩ := h.session i s hs
  obtain ⟨new, hnew, hdrops⟩ := h.requests
  -- A session that was deleted before is another one.
  have hold : ∀ en ∈ new, ∃ j s₁, m₀.store.session j = some s₁ ∧ s₁.autowired = true ∧
      st'.session j = none ∧ en.act = e.removeRouteAct j s₁ := by
    intro en hen
    obtain ⟨j, s₁, hs₁, hauto₁, hnone, hx⟩ := hdrops en hen
    refine ⟨j, s₁, hs₁, hauto₁, ?_, hx⟩
    have hj : j ≠ i := by
      rintro rfl
      exact absurd (hs.symm.trans hnone) (by simp)
    exact (hw.of_ne hj).trans hnone
  refine ⟨fun j t ht => ?_, ?_⟩
  · by_cases hj : j = i
    · subst hj
      obtain rfl : o = some t := hw.self.symm.trans ht
      exact ⟨s₀, hs₀, hkey.trans hu.sameKey, hu.autowired_eq.trans hauto⟩
    · exact h.session j t ((hw.of_ne hj).symm.trans ht)
  · cases o with
    | some s' => exact ⟨new, hu.requests_eq.trans hnew, hold⟩
    | none =>
      have hreq := hu.requests_deleted
      refine ⟨_, hreq.trans (by rw [hnew, List.append_assoc]), fun en hen => ?_⟩
      rcases List.mem_append.1 hen with hen | hen
      · split_ifs at hen with hwired
        · rw [List.mem_singleton] at hen
          rw [Bool.and_eq_true] at hwired
          refine ⟨i, s₀, hs₀, hauto.symm.trans hwired.2, hw.self, ?_⟩
          rw [hen, Env.removeRouteAct, Env.ruleOf, hkey.tgt, hkey.rule]
          rfl
        · exact absurd hen List.not_mem_nil
      · exact hold en hen

theorem Move.drops (hm : Move e .tick m m') (h : Drops e m₀ m) : Drops e m₀ m' := by
  cases hm with
  | session i o o' st' w' ho hc hw =>
    cases hc with
    | created hsol => cases hsol
    | solicited hsol => cases hsol
    | updated hu => exact h.update ho hu hw
    | deleted hu => exact h.update ho hu hw
  | world w' he =>
    cases he with
    | ignored hsol => cases hsol

/-- A tick deletes the sessions which have waited for long enough. -/
theorem tick_eq_none_iff (hok : e.Ok m.store) (hs : m.store.session i = some s) :
    (ndSessionUpdateAll e m).store.session i = none ↔ s.Expires e.conf e.now := by
  rw [tick_session hok, hs, Option.bind_some]
  constructor
  · intro hnone
    have hcase := updateCase e i s m.world
    rw [hnone] at hcase
    generalize (updateSession e i s m.world).2 = w' at hcase
    cases hcase with
    | deleted hinv hlate => exact ⟨hinv, hlate⟩
  · rintro ⟨hinv, hlate⟩
    simp only [updateSession, hinv, if_neg (not_lt.2 hlate)]

/-! ## Events -/

/-- A move that asks for nothing. -/
theorem Move.requests_eq_of_solicits (hm : Move e a m m')
    (ha : (∃ p src tgt srcLl, a = .ns p src tgt srcLl) ∨
      ∃ f src icmp ethSrc, a = .rxNs f src icmp ethSrc) :
    m'.world.requests = m.world.requests := by
  cases hm with
  | session i o o' st' w' ho hc hw =>
    cases hc with
    | created hsol _ hstart hns =>
      exact (hns.requests_eq.trans hstart.requests_eq).trans hsol.requests_eq
    | solicited hsol hns => exact hns.requests_eq.trans hsol.requests_eq
    | advertised | updated | deleted | forgotten | rewired => simp at ha
  | world w' he =>
    cases he with
    | ignored hsol => exact hsol.requests_eq
    | rebound | joined | left | purged => simp at ha

namespace Daemon

/-- Every request of the event comes from what there was before it. -/
def Explained (d : Daemon) (ev : Event) : Prop :=
  ∃ new, (d.step ev).mem.world.requests = new ++ d.mem.world.requests ∧
    ∀ en ∈ new, Origin d ev (d.step ev).mem en.act

/-- An event without a request. -/
theorem explained_of_eq (h : (d.step ev).mem.world.requests = d.mem.world.requests) :
    d.Explained ev := ⟨[], h, by simp⟩

/-- A solicitation asks for no route: only an advertisement does. -/
theorem step_requests_of_solicits (hok : (d.env ev).Ok d.mem.store) (hloop : ¬ev.action.IsLoop)
    (ha : (∃ p src tgt srcLl, ev.action = .ns p src tgt srcLl) ∨
      ∃ f src icmp ethSrc, ev.action = .rxNs f src icmp ethSrc) :
    (d.step ev).mem.world.requests = d.mem.world.requests := by
  have hmove := stepMem_move hok hloop
  rw [← step_mem] at hmove
  generalize (d.step ev).mem = m' at hmove
  cases hmove with
  | refl => rfl
  | single hm => exact hm.requests_eq_of_solicits ha

/-- The session that an advertisement is for may ask for its route. -/
theorem explained_rxNa {icmp : List U8} (hok : (d.env ev).Ok d.mem.store)
    (ha : ev.action = .rxNa f icmp) : d.Explained ev := by
  have hmove := stepMem_move (a := ev.action) hok (by rw [ha]; exact id)
  have hnone : (d.step ev).mem.world.requests = d.mem.world.requests → d.Explained ev :=
    explained_of_eq
  unfold Explained at hnone ⊢
  rw [← step_mem, ha] at hmove
  generalize (d.step ev).mem = m' at hmove hnone ⊢
  cases hmove with
  | refl => exact hnone rfl
  | single hm =>
    cases hm with
    | session i o o' st' w' ho hc hw =>
      generalize hact : Action.rxNa f icmp = b at hc
      cases hc with
      | created hsol => cases hsol <;> cases hact
      | solicited hsol => cases hsol <;> cases hact
      | advertised _ hiface hna =>
        cases hact
        rcases hna.asks with hreq | ⟨g, hg, hup, hwire, hreq⟩
        · exact hnone hreq
        · obtain rfl := Option.some.inj (hiface.symm.trans hg)
          refine ⟨[_], hreq, List.forall_mem_singleton.2 (.asked ho hg hwire ?_ ?_)⟩
          · rw [askIndex, ha]
            exact if_pos ⟨rfl, hup⟩
          · rw [hna.net_eq]
      | updated | deleted | forgotten | rewired => cases hact
    | world w' he =>
      cases he with
      | ignored hsol => exact hnone hsol.requests_eq

/-- In a tick, the routes of the sessions that are deleted are removed. -/
theorem explained_tick (hok : (d.env ev).Ok d.mem.store) (ha : ev.action = .tick) :
    d.Explained ev := by
  have hdrops : Drops (d.env ev) d.mem (d.step ev).mem := by
    rw [step_mem, ha]
    exact stepMem_induction (Q := Drops (d.env ev) d.mem) hok (.refl _ _)
      fun _ _ _ _ hm h => hm.drops h
  obtain ⟨new, hnew, hfor⟩ := hdrops.requests
  refine ⟨new, hnew, fun en hen => ?_⟩
  obtain ⟨i, s, hs, hauto, hgone, hx⟩ := hfor en hen
  rw [hx]
  refine .deleted ha hs hauto ((tick_eq_none_iff hok hs).1 ?_) hgone
  rw [step_mem, ha, stepMem] at hgone
  exact hgone

/-- In a pass, the sessions of the interfaces that it has found ask for their routes. -/
theorem explained_rebind (ha : ev.action = .rebind) : d.Explained ev := by
  have hpass : (d.step ev).mem = ndIfaceRebindAll (d.env ev) d.mem := by
    rw [step_mem, ha, stepMem]
  obtain ⟨new, hnew, hfor⟩ := (Asks.rebindAll (d.env ev) d.mem).requests
  rw [← hpass] at hnew hfor
  refine ⟨new, hnew, fun en hen => ?_⟩
  obtain ⟨i, s, f, hs, hf, hwire, hcur, hidx, hx⟩ := hfor en hen
  rw [hx]
  refine .asked hs hf hwire ?_ hidx
  rw [askIndex, ha]
  exact if_pos hcur

/-- `nd_rt_remove_owned_routes` removes the routes that the daemon has as its own. -/
theorem explained_removeOwnedRoutes (hok : (d.env ev).Ok d.mem.store)
    (ha : ev.action = .removeOwnedRoutes) : d.Explained ev := by
  -- The origin of such a request does not depend on the state that the event leads to.
  have hstep : ∀ m' : Mem, ∃ new, (d.step ev).mem.world.requests = new ++ d.mem.world.requests ∧
      ∀ en ∈ new, Origin d ev m' en.act := by
    intro m'
    rw [step_mem, ha]
    refine stepMem_induction (Q := fun m => ∃ new, m.world.requests =
      new ++ d.mem.world.requests ∧ ∀ en ∈ new, Origin d ev m' en.act) hok ⟨[], rfl, by simp⟩ ?_
    rintro m₁ m₂ - - hm ⟨new, hnew, hfor⟩
    cases hm with
    | session i o o' st' w' ho hc hw =>
      cases hc with
      | created hsol => cases hsol
      | solicited hsol => cases hsol
    | world w' he =>
      cases he with
      | ignored hsol => cases hsol
      | purged route hmem howned =>
        exact ⟨⟨ev.time, _⟩ :: new, congrArg (List.cons _) hnew,
          List.forall_mem_cons.2 ⟨.purged ha hmem howned, hfor⟩⟩
  exact hstep (d.step ev).mem

/-- Every request of an event comes from what there was before it. -/
theorem step_origin (hok : (d.env ev).Ok d.mem.store) : d.Explained ev := by
  cases ha : ev.action with
  | ns p src tgt srcLl =>
    have hloop : ¬ev.action.IsLoop := by rw [ha]; exact id
    exact explained_of_eq (step_requests_of_solicits hok hloop (.inl ⟨p, src, tgt, srcLl, ha⟩))
  | rxNs f src icmp ethSrc =>
    have hloop : ¬ev.action.IsLoop := by rw [ha]; exact id
    exact explained_of_eq (step_requests_of_solicits hok hloop (.inr ⟨f, src, icmp, ethSrc, ha⟩))
  | rxNa f icmp => exact explained_rxNa hok ha
  | tick => exact explained_tick hok ha
  | rebind => exact explained_rebind ha
  | removeOwnedRoutes => exact explained_removeOwnedRoutes hok ha
  | newRoute => exact explained_of_eq (by rw [step_mem, ha]; rfl)
  | deleteRoute => exact explained_of_eq (by rw [step_mem, ha]; rfl)
  | newAddr => exact explained_of_eq (by rw [step_mem, ha]; rfl)
  | deleteAddr => exact explained_of_eq (by rw [step_mem, ha]; rfl)

end Daemon

end Ndppd
