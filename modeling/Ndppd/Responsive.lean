import Ndppd.GivingUp
import Ndppd.Subscribers

/-!
# Targets that respond

The daemon together with a target which responds: whenever a session is probed, the target
advertises itself on the interface of the session within `δ`. With `keepalive`, and if `δ` is
less than `retrans_time` and `stale_ttl`, the two keep the session going. The session is never
given up, whatever else happens, and is not valid for `δ` at most at a time; so a node that
solicits the target is answered within `δ` (`Daemon.run_responsive`).

The argument follows the last probe. A session that is not valid was probed when it ceased to be
(`Daemon.Attends`), and no advertisement has come since; so it is not late yet.

Three conditions are not about the target. The clock does not go back. The interface stays up and
the kernel takes the probes, or nothing is sent; for the answers, this is so of the interface of
the proxy (`Daemon.Delivers`). And no younger session awaits the same advertisement: it would be
the only one to see it.
-/

namespace Ndppd

variable {e : Env} {i : SessionId} {src : Addr} {srcLl : Option LlAddr} {s s' : Session}
  {w w' : World} {a : Action} {m m' : Mem} {o o' : Option Session} {f : IfaceId} {x : Addr}

/-! ## One session in an event -/

/-- Nothing happens to the session `i` from `m` to `m'`, except to its route. -/
structure Mem.Leaves (i : SessionId) (m m' : Mem) : Prop where
  session : ∃ b, m'.store.session i = (m.store.session i).map fun s => { s with autowired := b }
  probeTimes : m'.world.probeTimes i = m.world.probeTimes i

theorem Mem.Leaves.of_eq (hs : m'.store.session i = m.store.session i)
    (hp : m'.world.probeTimes i = m.world.probeTimes i) : m.Leaves i m' := by
  refine ⟨?_, hp⟩
  rw [hs]
  cases m.store.session i with
  | none => exact ⟨false, rfl⟩
  | some s => exact ⟨s.autowired, rfl⟩

theorem Mem.Leaves.trans {m'' : Mem} (h : m.Leaves i m') (h' : m'.Leaves i m'') :
    m.Leaves i m'' := by
  obtain ⟨b, hb⟩ := h.session
  obtain ⟨b', hb'⟩ := h'.session
  refine ⟨⟨b', ?_⟩, h'.probeTimes.trans h.probeTimes⟩
  rw [hb', hb, Option.map_map]
  rfl

/-- A move is a change of the session, or has nothing to do with it. -/
theorem Move.leaves_or (h : Move e a m m') (i : SessionId) : m.Leaves i m' ∨
    Change e i m.world a (m.store.session i) (m'.store.session i) m'.world := by
  cases h with
  | session j o o' st' w' ho hc hw =>
    by_cases hij : i = j
    · subst hij
      right
      rw [ho]
      dsimp only
      rw [hw.self]
      exact hc
    · exact .inl (.of_eq (hw.of_ne hij) (hc.probeTimes_of_ne hij))
  | world w' he => exact .inl (.of_eq rfl (he.probeTimes i))

/-- A pass over the interfaces changes nothing of a session but its route. -/
theorem Change.leaves (h : Change e i w a (m.store.session i) (m'.store.session i) m'.world)
    (hw : w.probeTimes i = m.world.probeTimes i) (ha : a.IsLoop) (htick : a ≠ .tick) :
    m.Leaves i m' := by
  generalize ho : m.store.session i = o at h
  generalize ho' : m'.store.session i = o' at h
  generalize hw' : m'.world = w' at h
  cases h with
  | created hsol => exact absurd ha hsol.not_isLoop
  | solicited hsol => exact absurd ha hsol.not_isLoop
  | advertised => exact absurd ha id
  | updated => exact absurd rfl htick
  | deleted => exact absurd rfl htick
  | forgotten =>
    refine ⟨⟨false, ?_⟩, ?_⟩
    · rw [ho, ho', Option.map_some]
    · rw [hw', hw]
  | @rewired s =>
    obtain ⟨b, hb⟩ := ndLUp_fst e i s w
    refine ⟨⟨b, ?_⟩, ?_⟩
    · rw [ho, ho', Option.map_some, hb]
    · rw [hw', probeTimes_of_packets (packets_ndLUp ..), hw]

/-- What an event does to the session `i`: nothing, except to its route, or one change. -/
theorem stepMem_leaves_or (hok : e.Ok m.store) (i : SessionId) :
    m.Leaves i (Daemon.stepMem e a m) ∨
      ∃ w', Change e i m.world a (m.store.session i)
          ((Daemon.stepMem e a m).store.session i) w' ∧
        (Daemon.stepMem e a m).world.probeTimes i = w'.probeTimes i ∧
        w'.SameLinks (Daemon.stepMem e a m).world := by
  by_cases htick : a = .tick
  · subst htick
    cases hs : m.store.session i with
    | none =>
      -- There is nothing to update.
      left
      refine (stepMem_induction (Q := fun m' => m'.store.session i = none ∧ m.Leaves i m') hok
        ⟨hs, .of_eq rfl rfl⟩ fun m₁ m₂ _ _ hmove h => ?_).2
      rcases hmove.leaves_or i with h' | h'
      · obtain ⟨b, hb⟩ := h'.session
        exact ⟨by rw [hb, h.1]; rfl, h.2.trans h'⟩
      · rw [h.1] at h'
        generalize m₂.store.session i = o at h'
        cases h' with
        | created hsol => exact absurd trivial hsol.not_isLoop
    | some s =>
      right
      have hcase := updateCase e i s m.world
      have hsession : (Daemon.stepMem e .tick m).store.session i =
          (updateSession e i s m.world).1 := by
        rw [Daemon.stepMem, tick_session hok, hs, Option.bind_some]
      refine ⟨(updateSession e i s m.world).2, ?_, tick_probeTimes hok hs, ?_⟩
      · rw [hsession]
        generalize (updateSession e i s m.world).1 = o at hcase
        cases o with
        | none => exact .deleted hcase
        | some s' => exact .updated hcase
      · intro f
        rw [(tick_sameLinks hok f).1, (tick_sameLinks hok f).2]
        exact ⟨(hcase.sameLinks f).1.symm, (hcase.sameLinks f).2.symm⟩
  by_cases hloop : a.IsLoop
  · left
    refine stepMem_induction (Q := m.Leaves i) hok (.of_eq rfl rfl) fun m₁ m₂ _ _ hmove h => ?_
    rcases hmove.leaves_or i with h' | h'
    · exact h.trans h'
    · exact h.trans (h'.leaves rfl hloop htick)
  · have hmove := stepMem_move hok hloop
    generalize Daemon.stepMem e a m = m' at hmove
    cases hmove with
    | refl => exact .inl (.of_eq rfl rfl)
    | single hmove =>
      exact (hmove.leaves_or i).imp id fun h => ⟨_, h, rfl, .refl _⟩

/-! ## What the calls keep -/

/-- `s'` is in the state of `s`, since the same time, and on the same interface. -/
structure Session.Lasts (s s' : Session) : Prop where
  sameKey : s.SameKey s'
  iface : s'.iface = s.iface
  state : s'.state = s.state
  stateTime : s.state ≠ .valid → s'.stateTime = s.stateTime
  onsTime : s.state = .incomplete → s'.onsTime = s.onsTime

theorem Session.Lasts.awaits (h : s.Lasts s') (hs : s.Awaits f x) : s'.Awaits f x :=
  ⟨h.iface.trans hs.1, h.sameKey.tgtR.trans hs.2⟩

/-- `s` begins to be looked for at the time `t`. -/
structure Session.BeginsAt (s : Session) (t : ℤ) : Prop where
  state : s.state = .incomplete
  stateTime : s.stateTime = t
  onsTime : s.onsTime = t

/-- A session is left in its state by a solicitation, unless it gets an interface by it. -/
theorem NsCase.lasts_or (h : NsCase e i src srcLl s w s' w') :
    s.Lasts s' ∨ s.state = .invalid ∧ s.iface = none ∧ s'.BeginsAt e.now := by
  cases h with
  | answered => exact .inl ⟨⟨rfl, rfl, rfl⟩, rfl, rfl, fun _ => rfl, fun _ => rfl⟩
  | dropped => exact .inl ⟨⟨rfl, rfl, rfl⟩, rfl, rfl, fun _ => rfl, fun _ => rfl⟩
  | queued => exact .inl ⟨⟨rfl, rfl, rfl⟩, rfl, rfl, fun _ => rfl, fun _ => rfl⟩
  | resumed _ _ _ _ hs hf => exact .inr ⟨hs, hf, ⟨rfl, rfl, rfl⟩⟩
  | probed _ _ hs =>
    exact .inl ⟨⟨rfl, rfl, rfl⟩, rfl, rfl, fun _ => rfl,
      fun h => absurd (hs.symm.trans h) (by simp)⟩

theorem StartCase.begins (h : StartCase e i s w s' w') (hs : s.iface = none)
    (ht : s.stateTime = e.now) : s'.iface = none ∨ s'.BeginsAt e.now := by
  cases h with
  | unrouted => exact .inl hs
  | routed => exact .inr ⟨rfl, ht, rfl⟩
  | own => exact .inl hs
  | probed => exact .inr ⟨rfl, ht, rfl⟩
  | static => exact .inl hs
  | stuck => exact .inl hs

/-- A session whose timers have not run out for long is kept by them, on an interface that is up:
    if it ceases to be valid, it is probed. -/
theorem UpdateCase.lasts_or {δ : ℤ} (h : UpdateCase e i s w o w') (hf : s.iface = some f)
    (hup : (w.net.iface f).up = true) (hkeep : e.conf.keepalive = true)
    (hretrans : δ < e.conf.retransTime) (hstale : δ < e.conf.staleTtl)
    (hs : s.state = .valid ∨ (s.state = .stale ∨ s.state = .incomplete ∧ s.onsTime = s.stateTime) ∧
      e.now ≤ s.stateTime + δ) :
    ∃ s', o = some s' ∧ (s.Lasts s' ∨ s.SameKey s' ∧ s'.iface = s.iface ∧ s'.state = .stale ∧
      s'.stateTime = e.now ∧ w' = ndIfaceSendNs e i s.iface s.tgtR w) := by
  have hwait : ¬s.Waiting w := by
    rintro ⟨g, hg, hdown⟩
    obtain rfl : f = g := Option.some.inj (hf.symm.trans hg)
    exact absurd (hup.symm.trans hdown) (by simp)
  have hinc : s.state = .incomplete → e.now - s.onsTime ≤ δ := by
    intro hinc
    rcases hs with hv | ⟨hst | ⟨-, hons⟩, hle⟩
    · exact absurd (hinc.symm.trans hv) (by simp)
    · exact absurd (hinc.symm.trans hst) (by simp)
    · omega
  have hnotInvalid : s.state ≠ .invalid := by
    intro hinv
    rcases hs with hv | ⟨hst | ⟨hinc, -⟩, -⟩
    · exact absurd (hinv.symm.trans hv) (by simp)
    · exact absurd (hinv.symm.trans hst) (by simp)
    · exact absurd (hinv.symm.trans hinc) (by simp)
  cases h with
  | idle => exact ⟨s, rfl, .inl ⟨.refl s, rfl, rfl, fun _ => rfl, fun _ => rfl⟩⟩
  | held _ hw => exact absurd hw hwait
  | released _ hw => exact absurd hw hwait
  | gaveUp hi _ hlate =>
    have := hinc hi
    omega
  | retransmitted hi _ hlate =>
    have := hinc hi
    omega
  | deleted hi => exact absurd hi hnotInvalid
  | renewed _ _ hnone => exact absurd (hf.symm.trans hnone) (by simp)
  | disowned _ _ hnone => exact absurd (hf.symm.trans hnone) (by simp)
  | staleProbed => exact ⟨_, rfl, .inr ⟨⟨rfl, rfl, rfl⟩, rfl, rfl, rfl, rfl⟩⟩
  | staleQuiet _ _ _ hquiet => exact absurd (.inl hkeep) hquiet
  | expired hst hlate =>
    rcases hs with hv | ⟨-, hle⟩
    · exact absurd (hst.symm.trans hv) (by simp)
    · omega
  | reprobed hst =>
    refine ⟨_, rfl, .inl ⟨⟨rfl, rfl, rfl⟩, rfl, rfl, fun _ => rfl, fun h => ?_⟩⟩
    exact absurd (hst.symm.trans h) (by simp)

/-- The same, for any change but by an advertisement for the session. -/
theorem Change.lasts_or {δ : ℤ} (h : Change e i w a (some s) o w') (hf : s.iface = some f)
    (hup : (w.net.iface f).up = true) (hkeep : e.conf.keepalive = true)
    (hretrans : δ < e.conf.retransTime) (hstale : δ < e.conf.staleTtl)
    (hs : s.state = .valid ∨ (s.state = .stale ∨ s.state = .incomplete ∧ s.onsTime = s.stateTime) ∧
      e.now ≤ s.stateTime + δ)
    (hna : ∀ icmp, a = .rxNa f icmp → naTarget icmp ≠ some s.tgtR) :
    ∃ s', o = some s' ∧ (s.Lasts s' ∨ s.SameKey s' ∧ s'.iface = s.iface ∧ s'.state = .stale ∧
      s'.stateTime = e.now ∧ w' = ndIfaceSendNs e i s.iface s.tgtR w) := by
  cases h with
  | solicited _ hns =>
    rcases hns.lasts_or with hl | ⟨-, hnone, -⟩
    · exact ⟨_, rfl, .inl hl⟩
    · exact absurd (hf.symm.trans hnone) (by simp)
  | advertised ht hg =>
    obtain rfl := Option.some.inj (hg.symm.trans hf)
    exact absurd ht (hna _ rfl)
  | updated hu => exact hu.lasts_or hf hup hkeep hretrans hstale hs
  | deleted hu => exact hu.lasts_or hf hup hkeep hretrans hstale hs
  | forgotten => exact ⟨_, rfl, .inl ⟨⟨rfl, rfl, rfl⟩, rfl, rfl, fun _ => rfl, fun _ => rfl⟩⟩
  | rewired =>
    obtain ⟨b, hb⟩ := ndLUp_fst e i s w
    refine ⟨_, rfl, .inl ?_⟩
    rw [hb]
    exact ⟨⟨rfl, rfl, rfl⟩, rfl, rfl, fun _ => rfl, fun _ => rfl⟩

theorem Change.sameKey (h : Change e i w a (some s) (some s') w') : s.SameKey s' := by
  cases h with
  | solicited _ hns => exact hns.sameKey
  | advertised _ _ hna => exact hna.sameKey
  | updated hu => exact hu.sameKey
  | forgotten => exact ⟨rfl, rfl, rfl⟩
  | rewired =>
    obtain ⟨b, hb⟩ := ndLUp_fst e i s w
    rw [hb]
    exact ⟨rfl, rfl, rfl⟩

/-- A session that gets an interface begins to be looked for. -/
theorem Change.beginsAt (h : Change e i w a o (some s') w') (hf : s'.iface = some f)
    (ho : ∀ s, o = some s → s.iface ≠ some f) :
    s'.BeginsAt e.now ∧ ∀ s, o = some s → s.state ≠ .incomplete := by
  cases h with
  | created _ _ hstart hns =>
    refine ⟨?_, by simp⟩
    rcases hns.lasts_or with hl | ⟨-, -, hb⟩
    · rcases hstart.begins rfl rfl with hnone | hb
      · exact absurd (hf.symm.trans (hl.iface.trans hnone)) (by simp)
      · have hne := hb.state.trans_ne (by simp : State.incomplete ≠ .valid)
        exact ⟨hl.state.trans hb.state, (hl.stateTime hne).trans hb.stateTime,
          (hl.onsTime hb.state).trans hb.onsTime⟩
    · exact hb
  | @solicited _ _ _ s _ _ _ _ hns =>
    rcases hns.lasts_or with hl | ⟨hs, -, hb⟩
    · exact absurd (hl.iface.symm.trans hf) (ho s rfl)
    · refine ⟨hb, fun t ht => ?_⟩
      obtain rfl : s = t := Option.some.inj ht
      exact hs.trans_ne (by simp)
  | @advertised _ _ s _ _ _ _ hna =>
    refine absurd ?_ (ho s rfl)
    cases hna <;> exact hf
  | @updated s _ _ hu =>
    refine absurd ?_ (ho s rfl)
    cases hu <;> exact hf
  | @forgotten s => exact absurd hf (ho s rfl)
  | @rewired s =>
    obtain ⟨b, hb⟩ := ndLUp_fst e i s w
    rw [hb] at hf
    exact absurd hf (ho s rfl)

theorem NsCase.world_of_valid (h : NsCase e i src srcLl s w s' w') (hs : s.state = .valid) :
    w' = answerNs e i src srcLl s w := by
  cases h with
  | answered => rfl
  | dropped hn => exact absurd hs hn
  | queued _ _ _ hn => exact absurd hs hn
  | resumed _ _ _ _ hn => exact absurd (hn.symm.trans hs) (by simp)
  | probed _ _ hn => exact absurd (hn.symm.trans hs) (by simp)

/-- A source that solicits a session which is valid is answered. -/
theorem ProxyNsCase.packets_of_valid {p : ProxyId} {tgt : Addr} {ll : LlAddr}
    (h : ProxyNsCase e p src tgt (some ll) m m') (hok : e.Ok m.store) (hsrc : src ≠ 0)
    (hs : m'.store.session i = some s) (ht : s.tgt = tgt) (hp : (e.ruleOf s).proxy = p)
    (hf : s.iface ≠ none) (hv : s.state = .valid) :
    m'.world.packets = ⟨e.now, naAct e i s m.world src ll⟩ :: m.world.packets := by
  have hto : answerTo e.conf.byteOrder src (some ll) = (src, ll) := by
    rw [answerTo, if_neg (by rwa [ndAddrIsUnspecified_iff])]
  have hunique : ∀ j t, m'.store.session j = some t → t.tgt = tgt → (e.ruleOf t).proxy = p →
      i = j := fun j t hj htj hpj =>
    (h.ok hok).unique i j s t hs hj (ht.trans htj.symm) (hp.trans hpj.symm)
  cases h with
  | ignored _ hfind => exact absurd hp (of_ndSessionFind_eq_none hok hfind i s hs ht)
  | found j t t' w' hj htj hpj hns =>
    obtain rfl := hunique j t' (Store.set_session_self ..) (hns.sameKey.tgt.trans htj)
      (by rw [Env.ruleOf, hns.sameKey.rule]; exact hpj)
    obtain rfl : t' = s := Option.some.inj ((Store.set_session_self ..).symm.trans hs)
    dsimp only
    rw [hns.world_of_valid (hns.valid hv).1, packets_answerNs, hto, naAct_congr hns.sameKey]
  | created r t t' w w' hfind hr _ hstart hns =>
    have hkey := hstart.sameKey.trans hns.sameKey
    obtain rfl := hunique _ t' (Store.set_session_self ..) hkey.tgt
      (by rw [Env.ruleOf, hkey.rule]; exact e.cfg.linked p r (of_findRule_eq_some hr).1)
    obtain rfl : t' = s := Option.some.inj ((Store.set_session_self ..).symm.trans hs)
    -- A session that is valid from the beginning has no interface.
    refine absurd ?_ hf
    obtain ⟨hvt, rfl⟩ := hns.valid hv
    rcases hstart.begins rfl rfl with hnone | hb
    · exact hnone
    · exact absurd (hvt.symm.trans hb.state) (by simp)

theorem ndLHandleNs_packets_of_valid {g : IfaceId} {icmp : List U8} {ethSrc ll : LlAddr}
    {p : ProxyId} (hok : e.Ok m.store) (hp : (m.world.net.iface g).proxy = some p)
    (hparse : parseNs e.conf.byteOrder src icmp ethSrc = some (s.tgt, some ll))
    (hs : (ndLHandleNs e g src icmp ethSrc m).store.session i = some s)
    (hproxy : (e.ruleOf s).proxy = p) (hf : s.iface ≠ none) (hv : s.state = .valid) :
    ∃ rx, (ndLHandleNs e g src icmp ethSrc m).world.packets =
      [⟨e.now, naAct e i s m.world src ll⟩, rx] ++ m.world.packets := by
  have hsrc : src ≠ 0 := fun h => absurd ((srcLl_of_parseNs hparse).2 h) (by simp)
  simp only [ndLHandleNs, hp, hparse] at hs ⊢
  have hcase := proxyNsCase e p src s.tgt (some ll)
    { m with world := m.world.emit e (.rxNs g src s.tgt (some ll)) }
  refine ⟨⟨e.now, .rxNs g src s.tgt (some ll)⟩, ?_⟩
  rw [hcase.packets_of_valid hok hsrc hs rfl hproxy hf hv, World.packets_emit]
  rfl

/-! ## Sessions that are attended -/

/-- The event is an advertisement of `x` that is received on `f`. -/
def Event.Tells (ev : Event) (f : IfaceId) (x : Addr) : Prop :=
  ∃ icmp, ev.action = .rxNa f icmp ∧ naTarget icmp = some x

namespace Daemon

variable {d : Daemon} {es : List Event} {ev : Event} {δ : ℤ}

/-- The session `i` is probed in the event. -/
def Probes (d : Daemon) (ev : Event) (i : SessionId) : Prop :=
  (d.step ev).mem.world.probeTimes i = ev.time :: d.mem.world.probeTimes i

/-- In the run, the session `i` was probed at the time `t`, and there has not been an answer
    since. -/
def Unanswered (d : Daemon) (es : List Event) (i : SessionId) (f : IfaceId) (x : Addr) (t : ℤ) :
    Prop :=
  ∃ es₁ ev es₂, es = es₁ ++ ev :: es₂ ∧ ev.time = t ∧ (d.run es₁).Probes ev i ∧
    ∀ na ∈ es₂, ¬na.Tells f x

/-- The session is valid, or it was probed when it ceased to be, or began, and has not been
    answered since. -/
def Attends (d : Daemon) (es : List Event) (i : SessionId) (f : IfaceId) (x : Addr)
    (s : Session) : Prop :=
  s.state = .valid ∨ (s.state = .stale ∨ s.state = .incomplete ∧ s.onsTime = s.stateTime) ∧
    d.Unanswered es i f x s.stateTime

/-- The target `x` of the session `i` responds on the interface `f`: an advertisement comes
    within `δ` of each probe, and is for that session. -/
structure Responsive (d : Daemon) (es : List Event) (i : SessionId) (f : IfaceId) (x : Addr)
    (δ : ℤ) : Prop where
  clocked : Clocked es
  up : ∀ l, l <+: es → ∀ s, (d.run l).mem.store.session i = some s → s.iface = some f →
    ((d.run l).mem.world.net.iface f).up = true
  taken : ∀ ev ∈ es, ∀ n, ev.kernel.sendmsg n (.ns x) = true
  newest : ∀ l, l <+: es → ∀ j s, (d.run l).mem.store.session j = some s → s.Awaits f x → j ≤ i
  answered : ∀ es₁ ev es₂ late, es₁ ++ ev :: es₂ ++ [late] <+: es → (d.run es₁).Probes ev i →
    ev.time + δ < late.time → ∃ na ∈ es₂, na.Tells f x

theorem Responsive.of_prefix {l : List Event} (h : d.Responsive es i f x δ) (hl : l <+: es) :
    d.Responsive l i f x δ where
  clocked := h.clocked.sublist hl.sublist
  up l' hl' := h.up l' (hl'.trans hl)
  taken ev hev := h.taken ev (hl.subset hev)
  newest l' hl' := h.newest l' (hl'.trans hl)
  answered es₁ ev es₂ late hl' := h.answered es₁ ev es₂ late (hl'.trans hl)

theorem Unanswered.append {t : ℤ} {l : List Event} (h : d.Unanswered es i f x t)
    (hl : ∀ ev ∈ l, ¬ev.Tells f x) : d.Unanswered (es ++ l) i f x t := by
  obtain ⟨es₁, ev, es₂, rfl, ht, hp, hno⟩ := h
  refine ⟨es₁, ev, es₂ ++ l, by simp, ht, hp, fun na hna => ?_⟩
  rcases List.mem_append.1 hna with hna | hna
  · exact hno na hna
  · exact hl na hna

theorem Unanswered.of_probes (h : (d.run es).Probes ev i) :
    d.Unanswered (es ++ [ev]) i f x ev.time :=
  ⟨es, ev, [], rfl, rfl, h, by simp⟩

/-- While there has not been an answer, it is not late. -/
theorem Unanswered.le {t : ℤ} (h : d.Unanswered es i f x t)
    (hresp : d.Responsive (es ++ [ev]) i f x δ) : ev.time ≤ t + δ := by
  obtain ⟨es₁, ev', es₂, rfl, rfl, hp, hno⟩ := h
  by_contra hlate
  obtain ⟨na, hna, htells⟩ := hresp.answered es₁ ev' es₂ ev (by simp) hp (not_le.1 hlate)
  exact hno na hna htells

/-! ## Events -/

/-- The state after the run, when the event comes. -/
theorem run_env (d : Daemon) (es : List Event) (ev : Event) :
    ((d.run es).env ev).conf = d.conf ∧ ((d.run es).env ev).cfg = d.cfg := by
  rw [env_conf, env_cfg, run_conf, run_cfg]
  exact ⟨rfl, rfl⟩

/-- An advertisement of the target reaches the session. -/
theorem Responsive.advertises (h : d.Responsive (es ++ [ev]) i f x δ)
    (hok : ((d.run es).env ev).Ok (d.run es).mem.store) (htells : ev.Tells f x)
    (hs : (d.run es).mem.store.session i = some s) (hawaits : s.Awaits f x) :
    (d.run es).Advertises ev i := by
  obtain ⟨icmp, hrx, ht⟩ := htells
  refine ⟨f, icmp, x, hrx, ht, ?_⟩
  cases hfind : ndSessionFindR ((d.run es).env ev) x f (d.run es).mem.store with
  | none => exact absurd hawaits (of_ndSessionFindR_eq_none hok hfind i s hs)
  | some j =>
    obtain ⟨t, hj, hawaits'⟩ := of_ndSessionFindR_eq_some hfind
    have hle := le_of_ndSessionFindR hok hfind hs hawaits
    have hge := h.newest es (List.prefix_append ..) j t hj hawaits'
    rw [le_antisymm hge hle]

theorem Advertises.session (h : d.Advertises ev i) (hs : d.mem.store.session i = some s) :
    ∃ s' w', (d.step ev).mem.store.session i = some s' ∧
      NaCase (d.env ev) i s d.mem.world s' w' := by
  obtain ⟨g, icmp, tgt, hrx, ht, hfind⟩ := h
  refine ⟨_, _, ?_, naCase (d.env ev) i s d.mem.world⟩
  rw [step_mem, hrx, stepMem]
  simp only [ndLHandleNa, ht, hfind, d.mem.withSession_eq _ hs]
  exact Store.set_session_self ..

/-- The session is valid after an advertisement of the target. -/
theorem Responsive.tells (h : d.Responsive (es ++ [ev]) i f x δ)
    (hok : ((d.run es).env ev).Ok (d.run es).mem.store) (htells : ev.Tells f x)
    (hs : (d.run es).mem.store.session i = some s) (hawaits : s.Awaits f x) :
    ∃ s', (d.run (es ++ [ev])).mem.store.session i = some s' ∧ s'.Awaits f x ∧
      s'.state = .valid := by
  obtain ⟨s', w', hs', hna⟩ := (h.advertises hok htells hs hawaits).session hs
  rw [run_concat]
  refine ⟨s', hs', ⟨?_, hna.sameKey.tgtR.trans hawaits.2⟩, hna.valid⟩
  cases hna <;> exact hawaits.1

theorem Attends.lasts (h : d.Attends es i f x s) (hl : s.Lasts s') (hev : ¬ev.Tells f x) :
    d.Attends (es ++ [ev]) i f x s' := by
  rcases h with hv | ⟨hstate, hprobed⟩
  · exact .inl (hl.state.trans hv)
  · have hne : s.state ≠ .valid := by
      rcases hstate with hst | ⟨hinc, -⟩
      · exact hst.trans_ne (by simp)
      · exact hinc.trans_ne (by simp)
    refine .inr ⟨?_, by rw [hl.stateTime hne]; exact hprobed.append (by simpa using hev)⟩
    rcases hstate with hst | ⟨hinc, hons⟩
    · exact .inl (hl.state.trans hst)
    · exact .inr ⟨hl.state.trans hinc, by rw [hl.onsTime hinc, hl.stateTime hne, hons]⟩

/-- The session is kept by everything else. -/
theorem Responsive.keeps (h : d.Responsive (es ++ [ev]) i f x δ)
    (hok : ((d.run es).env ev).Ok (d.run es).mem.store) (hkeep : d.conf.keepalive = true)
    (hretrans : δ < d.conf.retransTime) (hstale : δ < d.conf.staleTtl) (hev : ¬ev.Tells f x)
    (hs : (d.run es).mem.store.session i = some s) (hawaits : s.Awaits f x)
    (hattends : d.Attends es i f x s) :
    ∃ s', (d.run (es ++ [ev])).mem.store.session i = some s' ∧ s'.Awaits f x ∧
      d.Attends (es ++ [ev]) i f x s' := by
  have hup := h.up es (List.prefix_append ..) s hs hawaits.1
  have hstate : s.state = .valid ∨ (s.state = .stale ∨ s.state = .incomplete ∧
      s.onsTime = s.stateTime) ∧ ev.time ≤ s.stateTime + δ :=
    hattends.imp id fun hat => ⟨hat.1, hat.2.le h⟩
  obtain ⟨hconf, -⟩ := d.run_env es ev
  rw [run_concat, step_mem]
  rcases stepMem_leaves_or (a := ev.action) hok i with hleaves | ⟨w', hc, hp, -⟩
  · obtain ⟨b, hb⟩ := hleaves.session
    rw [hs, Option.map_some] at hb
    have hl : s.Lasts { s with autowired := b } :=
      ⟨⟨rfl, rfl, rfl⟩, rfl, rfl, fun _ => rfl, fun _ => rfl⟩
    exact ⟨_, hb, hawaits, hattends.lasts hl hev⟩
  · rw [hs] at hc
    obtain ⟨s', hs', hl | ⟨hkey, hiface, hst, htime, hw'⟩⟩ := hc.lasts_or hawaits.1 hup
      (hconf ▸ hkeep) (hconf ▸ hretrans) (hconf ▸ hstale) hstate
      fun icmp ha ht => hev ⟨icmp, ha, ht.trans (congrArg some hawaits.2)⟩
    · exact ⟨s', hs', hl.awaits hawaits, hattends.lasts hl hev⟩
    · -- The session ceases to be valid, and is probed.
      refine ⟨s', hs', ⟨hiface.trans hawaits.1, hkey.tgtR.trans hawaits.2⟩,
        .inr ⟨.inl hst, ?_⟩⟩
      rw [htime]
      refine .of_probes ?_
      have hsent : ndLSendIcmp6 ((d.run es).env ev) (d.run es).mem.world s.iface
          (.ns s.tgtR) = true := by
        rw [hawaits.2]
        exact ndLSendIcmp6_iff.2 ⟨f, hawaits.1, hup, h.taken ev (by simp) _⟩
      rw [Probes, step_mem, hp, hw', probeTimes_sendNs, if_pos ⟨rfl, hsent⟩]
      rfl

/-- A session that gets the interface `f` is probed. -/
theorem Responsive.begins (h : d.Responsive (es ++ [ev]) i f x δ)
    (hok : ((d.run es).env ev).Ok (d.run es).mem.store) (hcfg : d.cfg.Started)
    (hs : ∀ s, (d.run es).mem.store.session i = some s → ¬s.Awaits f x)
    (hs' : (d.run (es ++ [ev])).mem.store.session i = some s') (hawaits : s'.Awaits f x) :
    d.Attends (es ++ [ev]) i f x s' := by
  have hup := h.up (es ++ [ev]) List.prefix_rfl s' hs' hawaits.1
  obtain ⟨-, hcfg'⟩ := d.run_env es ev
  rw [run_concat, step_mem] at hs' hup
  rcases stepMem_leaves_or (a := ev.action) hok i with hleaves | ⟨w', hc, hp, hlinks⟩
  · obtain ⟨b, hb⟩ := hleaves.session
    rw [hs', eq_comm, Option.map_eq_some_iff] at hb
    obtain ⟨s, hs₀, rfl⟩ := hb
    exact absurd hawaits (hs s hs₀)
  · rw [hs'] at hc
    have hnone : ∀ s, (d.run es).mem.store.session i = some s → s.iface ≠ some f := by
      intro s hs₀ hf
      rw [hs₀] at hc
      exact hs s hs₀ ⟨hf, hc.sameKey.tgtR.symm.trans hawaits.2⟩
    obtain ⟨hbegins, hnot⟩ := hc.beginsAt hawaits.1 hnone
    obtain ⟨-, g, hbegun⟩ := hc.begun (hcfg' ▸ hcfg) hnot hbegins.state
    obtain rfl : g = f := Option.some.inj (hbegun.iface.symm.trans hawaits.1)
    refine .inr ⟨.inr ⟨hbegins.state, hbegins.onsTime.trans hbegins.stateTime.symm⟩, ?_⟩
    rw [hbegins.stateTime]
    refine .of_probes ?_
    have hsent : ndLSendIcmp6 ((d.run es).env ev) w' (some g) (.ns s'.tgtR) = true := by
      rw [hawaits.2]
      exact ndLSendIcmp6_iff.2 ⟨g, rfl, (hlinks g).1.symm.trans hup, h.taken ev (by simp) _⟩
    rw [Probes, step_mem, hp, hbegun.probeTimes, if_pos hsent]
    rfl

/-! ## Runs -/

section

variable {conf : Conf} {cfg : Config} {l l' : List Event}
  (hcfg : cfg.Started) (hkeep : conf.keepalive = true) (hretrans : δ < conf.retransTime)
  (hstale : δ < conf.staleTtl)

include hcfg hkeep hretrans hstale

/-- The session is attended in every state of the run. -/
theorem Responsive.attends (h : (init conf cfg w).Responsive es i f x δ) :
    ∀ s, ((init conf cfg w).run es).mem.store.session i = some s → s.Awaits f x →
      (init conf cfg w).Attends es i f x s := by
  induction es using List.reverseRecOn with
  | nil => exact fun s hs => absurd hs (by simp [run, init, Store.empty])
  | append_singleton es ev ih =>
    intro s' hs' hawaits'
    have hok := run_ok conf cfg w es ev
    have hbefore := ih (h.of_prefix (List.prefix_append ..))
    by_cases hs : ∃ s, ((init conf cfg w).run es).mem.store.session i = some s ∧ s.Awaits f x
    · obtain ⟨s, hs, hawaits⟩ := hs
      by_cases htells : ev.Tells f x
      · obtain ⟨t, ht, -, hv⟩ := h.tells hok htells hs hawaits
        obtain rfl : t = s' := Option.some.inj (ht.symm.trans hs')
        exact .inl hv
      · obtain ⟨t, ht, -, hat⟩ := h.keeps hok hkeep hretrans hstale htells hs hawaits
          (hbefore s hs hawaits)
        obtain rfl : t = s' := Option.some.inj (ht.symm.trans hs')
        exact hat
    · exact h.begins hok hcfg (fun s hs₀ ha => hs ⟨s, hs₀, ha⟩) hs' hawaits'

/-- A session that awaits the target does so until the end of the run. -/
theorem Responsive.persists (h : (init conf cfg w).Responsive es i f x δ) (hl : l ++ l' <+: es)
    (hs : ((init conf cfg w).run l).mem.store.session i = some s) (hawaits : s.Awaits f x) :
    ∃ s', ((init conf cfg w).run (l ++ l')).mem.store.session i = some s' ∧ s'.Awaits f x := by
  induction l' using List.reverseRecOn with
  | nil =>
    rw [List.append_nil]
    exact ⟨s, hs, hawaits⟩
  | append_singleton l' ev ih =>
    rw [← List.append_assoc] at hl ⊢
    obtain ⟨t, ht, hawaits'⟩ := ih ((List.prefix_append ..).trans hl)
    have hresp := h.of_prefix hl
    have hok := run_ok conf cfg w (l ++ l') ev
    by_cases htells : ev.Tells f x
    · obtain ⟨s', hs', ha, -⟩ := hresp.tells hok htells ht hawaits'
      exact ⟨s', hs', ha⟩
    · have hat := (hresp.of_prefix (List.prefix_append ..)).attends hcfg hkeep hretrans hstale t ht
        hawaits'
      obtain ⟨s', hs', ha, -⟩ := hresp.keeps hok hkeep hretrans hstale htells ht hawaits' hat
      exact ⟨s', hs', ha⟩

/-- An advertisement for the session is one of the target. -/
theorem Responsive.unadvertised (h : (init conf cfg w).Responsive es i f x δ) (hl : l ++ l' <+: es)
    (hs : ((init conf cfg w).run l).mem.store.session i = some s) (hawaits : s.Awaits f x)
    (hno : ∀ ev ∈ l', ¬ev.Tells f x) : ((init conf cfg w).run l).Unadvertised l' i := by
  rintro l₁ ev l₂ rfl ⟨g, icmp, tgt, hrx, ht, hfind⟩
  obtain ⟨t, hst, hg, rfl⟩ := of_ndSessionFindR_eq_some hfind
  have hl₁ : l ++ l₁ <+: es := by
    refine List.IsPrefix.trans ?_ hl
    rw [← List.append_assoc]
    exact List.prefix_append ..
  obtain ⟨t', ht', hawaits'⟩ := h.persists hcfg hkeep hretrans hstale hl₁ hs hawaits
  rw [run, run, ← List.foldl_append, ← run] at hst
  obtain rfl : t = t' := Option.some.inj (hst.symm.trans ht')
  obtain rfl : g = f := Option.some.inj (hg.symm.trans hawaits'.1)
  exact hno ev (by simp) ⟨icmp, hrx, ht.trans (congrArg some hawaits'.2)⟩

end

/-- In the run, the advertisements of `tgt` to `sub` on the interface `f` are sent: the interface
    is there, and the kernel takes them. -/
def Delivers (d : Daemon) (es : List Event) (f : Option IfaceId) (sub : Sub) (tgt : Addr) : Prop :=
  ∀ l ev, l ++ [ev] <+: es →
    (d.run l).mem.world.Transmits ev.kernel f (.na sub.addr sub.lladdr tgt)

/-- After the events `l`, during the events `l'` and from the time `t` to the time `t'`, an
    advertisement of the target of `s` to `sub` by the session `i` is sent on the interface `f`. -/
def Answers (d : Daemon) (l l' : List Event) (i : SessionId) (f : Option IfaceId) (s : Session)
    (sub : Sub) (t t' : ℤ) : Prop :=
  ∃ l₁ ev l₂, l' = l₁ ++ ev :: l₂ ∧ t ≤ ev.time ∧ ev.time ≤ t' ∧
    ∃ new, (d.run (l ++ l₁ ++ [ev])).mem.world.packets =
        new ++ (d.run (l ++ l₁)).mem.world.packets ∧
      ∃ act, act.IsAnswer i f sub s.tgt ∧ ⟨ev.time, act⟩ ∈ new

/-- An advertisement of the session that is delivered is sent. -/
theorem Delivers.isAnswer {sub : Sub} {l : List Event}
    (h : d.Delivers es (d.cfg.proxy (d.cfg.rule s.rule).proxy).iface sub s.tgt)
    (hl : l ++ [ev] <+: es) (hkey : s.SameKey s') :
    (naAct ((d.run l).env ev) i s' (d.run l).mem.world sub.addr sub.lladdr).IsAnswer i
      (d.cfg.proxy (d.cfg.rule s.rule).proxy).iface sub s.tgt := by
  obtain ⟨-, hcfg⟩ := d.run_env l ev
  have hf : (((d.run l).env ev).proxyOf s').iface =
      (d.cfg.proxy (d.cfg.rule s.rule).proxy).iface := by
    rw [Env.proxyOf, Env.ruleOf, hkey.rule, hcfg]
  refine naAct_isAnswer_iff.2 ⟨⟨rfl, hf, rfl, hkey.tgt⟩, ?_⟩
  rw [hf, hkey.tgt]
  exact h l ev hl

theorem exists_first {l : List Event} (h : ∃ ev ∈ l, ev.Tells f x) :
    ∃ l₁ ev l₂, l = l₁ ++ ev :: l₂ ∧ ev.Tells f x ∧ ∀ ev' ∈ l₁, ¬ev'.Tells f x := by
  classical
  have hsome : (l.find? fun ev => decide (ev.Tells f x)).isSome := by
    simpa [List.find?_isSome] using h
  obtain ⟨ev, hev⟩ := Option.isSome_iff_exists.1 hsome
  obtain ⟨htells, l₁, l₂, hl, hno⟩ := List.find?_eq_some_iff_append.1 hev
  exact ⟨l₁, ev, l₂, hl, by simpa using htells, by simpa using hno⟩

section

variable {conf : Conf} {cfg : Config} {l l' : List Event} {late : Event} {sub : Sub}

/-- Who waits for the session is answered within `δ`. -/
theorem Responsive.answers (hcfg : cfg.Started) (hkeep : conf.keepalive = true)
    (hretrans : δ < conf.retransTime) (hstale : δ < conf.staleTtl)
    (h : (init conf cfg w).Responsive es i f x δ) (hl : l ++ [ev] ++ l' ++ [late] <+: es)
    (hs : ((init conf cfg w).run (l ++ [ev])).mem.store.session i = some s)
    (hawaits : s.Awaits f x) (hv : s.state ≠ .valid) (hsub : sub ∈ s.subs)
    (hlate : ev.time + δ < late.time)
    (hdeliv : (init conf cfg w).Delivers es (cfg.proxy (cfg.rule s.rule).proxy).iface sub s.tgt) :
    (init conf cfg w).Answers (l ++ [ev]) l' i (cfg.proxy (cfg.rule s.rule).proxy).iface s sub
      ev.time (ev.time + δ) := by
  have hl' : l ++ [ev] ++ l' <+: es := (List.prefix_append ..).trans hl
  have hev : l ++ [ev] <+: es := (List.prefix_append ..).trans hl'
  have hle : ∀ ev' ∈ l ++ [ev], ev'.time ≤ ev.time := by
    intro ev' hev'
    rcases List.mem_append.1 hev' with hev' | hev'
    · exact (List.pairwise_append.1 (h.of_prefix hev).clocked).2.2 ev' hev' ev (by simp)
    · rw [List.mem_singleton.1 hev']
  -- The session was probed at `s.stateTime`, which is not after `ev`, and not answered since.
  rcases (h.of_prefix hev).attends hcfg hkeep hretrans hstale s hs hawaits with hv' | ⟨-, hprobed⟩
  · exact absurd hv' hv
  have hprobed' := hprobed
  obtain ⟨es₁, ev', es₂, hes, htime, hp, hno⟩ := hprobed
  have hstate : s.stateTime ≤ ev.time := by
    rw [← htime]
    exact hle ev' (by rw [hes]; simp)
  have hcut : es₁ ++ ev' :: (es₂ ++ l') ++ [late] <+: es := by
    rw [hes] at hl
    simpa using hl
  obtain ⟨na, hna, htells⟩ := h.answered es₁ ev' (es₂ ++ l') late hcut hp (by omega)
  have hmem : na ∈ l' := (List.mem_append.1 hna).resolve_left fun hna => hno na hna htells
  -- The first answer in `l'` is not late.
  obtain ⟨l₁, na, l₂, rfl, htells, hfirst⟩ := exists_first ⟨na, hmem, htells⟩
  have hl₁ : l ++ [ev] ++ l₁ ++ [na] <+: es := by
    refine List.IsPrefix.trans ?_ hl'
    exact ⟨l₂, by simp⟩
  have hresp := h.of_prefix hl₁
  have hsoon : na.time ≤ s.stateTime + δ := (hprobed'.append hfirst).le hresp
  have hafter : ev.time ≤ na.time :=
    (List.pairwise_append.1 hresp.clocked).2.2 ev (by simp) na (by simp)
  have hl₁' : l ++ [ev] ++ l₁ <+: es := (List.prefix_append ..).trans hl₁
  obtain ⟨t, ht, hawaits'⟩ := h.persists hcfg hkeep hretrans hstale hl₁' hs hawaits
  have hwaits := (run_waits conf cfg w (l ++ [ev]) hs hv hsub l₁
    (h.unadvertised hcfg hkeep hretrans hstale hl₁' hs hawaits hfirst)).1.waits t ht
  have hadv := hresp.advertises (run_ok conf cfg w (l ++ [ev] ++ l₁) na) htells ht hawaits'
  have hpackets := hadv.packets ht hwaits.not_valid
  rw [← run_concat] at hpackets
  exact ⟨l₁, na, l₂, rfl, hafter, by omega, _, hpackets, _, hdeliv.isAnswer hl₁ hwaits.sameKey,
    mem_subEntries.2 ⟨sub, hwaits.mem, rfl⟩⟩

/-- If the target `x` of the session `i` responds within `δ`, the session is never given up: once
    it awaits the target it does so ever after, and is valid but for `δ` at most at a time. A node
    that solicits the session is sent an answer within `δ`, unless too many of them wait or the
    interface of the proxy does not deliver it. -/
theorem run_responsive (conf : Conf) (cfg : Config) (w : World) (hcfg : cfg.Started)
    (hkeep : conf.keepalive = true) (hδ : 0 ≤ δ) (hretrans : δ < conf.retransTime)
    (hstale : δ < conf.staleTtl) (h : (init conf cfg w).Responsive es i f x δ) :
    let d := init conf cfg w
    (∀ l l', l ++ l' <+: es → ∀ s, (d.run l).mem.store.session i = some s → s.Awaits f x →
      ∃ s', (d.run (l ++ l')).mem.store.session i = some s' ∧ s'.Awaits f x ∧
        (s'.state = .valid ∨ (s'.state = .stale ∨ s'.state = .incomplete) ∧
          ∀ ev, l ++ l' ++ [ev] <+: es → ev.time ≤ s'.stateTime + δ)) ∧
    ∀ l ev l' late, l ++ [ev] ++ l' ++ [late] <+: es → ev.time + δ < late.time →
      ∀ g src icmp ethSrc p ll s, ev.action = .rxNs g src icmp ethSrc →
      ((d.run l).mem.world.net.iface g).proxy = some p →
      parseNs conf.byteOrder src icmp ethSrc = some (s.tgt, some ll) →
      (d.run (l ++ [ev])).mem.store.session i = some s → (cfg.rule s.rule).proxy = p →
      s.Awaits f x → s.subs.length < ndSessionMaxSubs →
      d.Delivers es (cfg.proxy p).iface ⟨src, ll⟩ s.tgt →
      d.Answers l ([ev] ++ l') i (cfg.proxy p).iface s ⟨src, ll⟩ ev.time (ev.time + δ) := by
  refine ⟨fun l l' hl s hs hawaits => ?_, ?_⟩
  · obtain ⟨s', hs', hawaits'⟩ := h.persists hcfg hkeep hretrans hstale hl hs hawaits
    refine ⟨s', hs', hawaits', ?_⟩
    refine ((h.of_prefix hl).attends hcfg hkeep hretrans hstale s' hs' hawaits').imp id ?_
    rintro ⟨hstate, hprobed⟩
    exact ⟨hstate.imp id And.left, fun ev hev => hprobed.le (h.of_prefix hev)⟩
  · intro l ev l' late hl hlate g src icmp ethSrc p ll s ha hp hparse hs hproxy hawaits hlen hdeliv
    subst hproxy
    have hok := run_ok conf cfg w l ev
    obtain ⟨hconf, hcfg'⟩ := (init conf cfg w).run_env l ev
    rw [init_conf] at hconf
    rw [init_cfg] at hcfg'
    have hrule : (((init conf cfg w).run l).env ev).ruleOf s = cfg.rule s.rule := by
      rw [Env.ruleOf, hcfg']
    by_cases hv : s.state = .valid
    · -- The answer is immediate.
      have hl' : l ++ [ev] <+: es := by
        refine List.IsPrefix.trans ?_ hl
        exact ⟨l' ++ [late], by simp⟩
      rw [run_concat, step_mem, ha] at hs
      obtain ⟨rx, hpackets⟩ := ndLHandleNs_packets_of_valid hok hp (by rw [hconf]; exact hparse) hs
        (congrArg Rule.proxy hrule) (by simp [hawaits.1]) hv
      refine ⟨[], ev, l', rfl, le_rfl, by omega, [_, rx], ?_, _, hdeliv.isAnswer hl' (.refl s),
        List.mem_cons_self⟩
      rw [List.append_nil, run_concat, step_mem, ha]
      exact hpackets
    · have hsub : ⟨src, ll⟩ ∈ s.subs := by
        rw [run_concat, step_mem, ha] at hs
        have hqueued := ndLHandleNs_mem_subs hok hp (hconf ▸ hparse) hs rfl
          (congrArg Rule.proxy hrule) hv
        exact hqueued.resolve_right (not_le.2 hlen)
      obtain ⟨l₁, na, l₂, rfl, hge, hle, hsent⟩ :=
        h.answers hcfg hkeep hretrans hstale hl hs hawaits hv hsub hlate hdeliv
      refine ⟨ev :: l₁, na, l₂, by simp, hge, hle, ?_⟩
      simpa using hsent

end

end Daemon

namespace Small

/-- The configuration, with `keepalive`. -/
def attentive : Conf := { conf with keepalive := true }

/-- The daemon of the small network, with `keepalive`. -/
def attentiveDaemon : Daemon :=
  .init attentive (daemon ifaceRule).cfg (daemon ifaceRule).mem.world

/-- A node solicits the target, the target advertises itself, and time goes by. -/
def visited : List Event :=
  [event 0 (.rxNs 2 1 (message 9) 3), event 20 (.rxNa 1 (message 9)), event 1000 .tick]

theorem visited_answered (es₁ : List Event) (ev : Event) (es₂ : List Event) (late : Event)
    (h : es₁ ++ ev :: es₂ ++ [late] <+: visited)
    (hp : (attentiveDaemon.run es₁).Probes ev 0) (hlate : ev.time + 50 < late.time) :
    ∃ na ∈ es₂, na.Tells 1 9 := by
  have hna : (event 20 (.rxNa 1 (message 9))).Tells 1 9 := ⟨message 9, rfl, by decide +kernel⟩
  obtain ⟨es₃, h⟩ := h
  rcases es₁ with _ | ⟨e₀, _ | ⟨e₁, es₁⟩⟩
  · rcases es₂ with _ | ⟨e₁, es₂⟩
    · -- The advertisement itself is not late.
      simp only [visited, List.nil_append, List.cons_append, List.cons.injEq] at h
      obtain ⟨rfl, rfl, -⟩ := h
      exact absurd hlate (by decide)
    · simp only [visited, List.nil_append, List.cons_append, List.cons.injEq] at h
      obtain ⟨-, rfl, -⟩ := h
      exact ⟨_, List.mem_cons_self, hna⟩
  · -- The advertisement is no probe.
    simp only [visited, List.nil_append, List.cons_append, List.cons.injEq] at h
    obtain ⟨rfl, rfl, -⟩ := h
    exact absurd hp (by unfold Daemon.Probes; decide +kernel)
  · have hlen := congrArg List.length h
    simp [visited] at hlen
    omega

theorem visited_responsive : attentiveDaemon.Responsive visited 0 1 9 50 := by
  have hup : ∀ l ∈ visited.inits,
      ((attentiveDaemon.run l).mem.world.net.iface 1).up = true := by decide +kernel
  have hfresh : ∀ l ∈ visited.inits, (attentiveDaemon.run l).mem.store.fresh ≤ 1 := by
    decide +kernel
  refine ⟨by simp [Daemon.Clocked, visited, event], fun l hl _ _ _ => ?_, ?_, ?_,
    visited_answered⟩
  · exact hup l ((List.mem_inits ..).2 hl)
  · simp [visited, event, kernel]
  · intro l hl j s hs _
    have hlt := (Daemon.run_wellFormed attentive (daemon ifaceRule).cfg
      (daemon ifaceRule).mem.world l).before j s hs
    exact Nat.le_of_lt_succ (hlt.trans_le (hfresh l ((List.mem_inits ..).2 hl)))

/-- The interface of the proxy is there all the time. -/
theorem visited_delivers (tgt : Addr) :
    attentiveDaemon.Delivers visited (some 2) ⟨1, 3⟩ tgt := by
  have hup : ∀ l ∈ visited.inits,
      ((attentiveDaemon.run l).mem.world.net.iface 2).up = true := by decide +kernel
  intro l ev hl
  have hev : ev ∈ visited := hl.subset (by simp)
  refine ⟨2, rfl, hup l ((List.mem_inits ..).2 ((List.prefix_append ..).trans hl)), ?_⟩
  simp only [visited, List.mem_cons, List.not_mem_nil, or_false] at hev
  rcases hev with rfl | rfl | rfl <;> rfl

/-- The node is answered within 50 ms. -/
theorem visited_answers : attentiveDaemon.Responsive visited 0 1 9 50 ∧
    attentiveDaemon.Delivers visited (some 2) ⟨1, 3⟩ 9 ∧
    ∃ s, (attentiveDaemon.run (visited.take 1)).mem.store.session 0 = some s ∧
      attentiveDaemon.Answers [] (visited.take 2) 0 (some 2) s ⟨1, 3⟩ 0 50 := by
  obtain ⟨-, hanswers⟩ := Daemon.run_responsive attentive _ _ started rfl (by decide) (by decide)
    (by decide) visited_responsive
  have hsession : (((attentiveDaemon.run (visited.take 1)).mem.store.session 0).any fun s =>
      decide (s.tgt = 9 ∧ (attentiveDaemon.cfg.rule s.rule).proxy = 0 ∧ s.Awaits 1 9 ∧
        s.subs.length < ndSessionMaxSubs)) = true := by decide +kernel
  obtain ⟨s, hs, hdec⟩ := (Option.any_eq_true ..).1 hsession
  obtain ⟨htgt, hproxy, hawaits, hlen⟩ := of_decide_eq_true hdec
  have hparse : parseNs attentive.byteOrder 1 (message 9) 3 = some (s.tgt, some 3) := by
    rw [htgt]
    decide +kernel
  have hiface : (attentiveDaemon.cfg.proxy 0).iface = some 2 := by decide +kernel
  have hanswer := hanswers [] (event 0 (.rxNs 2 1 (message 9) 3))
    [event 20 (.rxNa 1 (message 9))] (event 1000 .tick) List.prefix_rfl (by decide) 2 1 (message 9)
    3 0 3 s rfl (by decide +kernel) hparse hs hproxy hawaits hlen
    (hiface ▸ visited_delivers s.tgt)
  exact ⟨visited_responsive, visited_delivers 9, s, hs, hiface ▸ hanswer⟩

end Small

end Ndppd
