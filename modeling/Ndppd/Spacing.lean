import Ndppd.Daemon.Links
import Ndppd.Startup
import Mathlib.Algebra.Order.Ring.Int

/-!
# The time between probes

A session probes its target with solicitations, which should be `retrans_time`
apart. They are if the clock does not go back and the timer of the probes starts
again with each of them, which is so in all states but `incomplete`: there, the
second probe leaves `ons_time` as it is, and every tick after it sends another
one, until there have been `retrans_limit` of them (`Probing.burst`).

* `Daemon.spaced_iff`: the probes of every session are `retrans_time` apart in
  every run if and only if `retrans_limit` allows for two probes only, or
  `retrans_time` is not positive.
-/

namespace Ndppd

variable {e : Env} {i j : SessionId} {src : Addr} {srcLl : Option LlAddr} {s s' : Session}
  {w w' : World} {a : Action} {m m' : Mem}

/-- The time of a solicitation that is sent for the session `i`. -/
def Entry.probeTime (i : SessionId) (en : Entry) : Option ℤ :=
  match en.act with
  | .ns who _ _ sent => if who = i ∧ sent then some en.time else none
  | _ => none

/-- The times of the solicitations sent for the session `i`, the newest first. -/
def World.probeTimes (w : World) (i : SessionId) : List ℤ :=
  w.packets.filterMap (Entry.probeTime i)

/-- Consecutive times, the newest first, are at least `d` apart. -/
def Spaced (d : ℤ) (l : List ℤ) : Prop := l.IsChain fun new old => d ≤ new - old

instance (d : ℤ) (l : List ℤ) : Decidable (Spaced d l) :=
  inferInstanceAs (Decidable (l.IsChain _))

/-! ## Probes in the moves -/

theorem probeTimes_of_packets (h : w'.packets = w.packets) (i : SessionId) :
    w'.probeTimes i = w.probeTimes i := by
  rw [World.probeTimes, h, World.probeTimes]

theorem probeTimes_of_append {l : List Entry} (h : w'.packets = l ++ w.packets)
    (hl : ∀ en ∈ l, en.probeTime i = none) : w'.probeTimes i = w.probeTimes i := by
  rw [World.probeTimes, h, List.filterMap_append, List.filterMap_eq_nil_iff.2 hl,
    List.nil_append, World.probeTimes]

theorem probeTimes_sendNs (e : Env) (i j : SessionId) (f : Option IfaceId) (tgt : Addr)
    (w : World) : (ndIfaceSendNs e i f tgt w).probeTimes j =
      if i = j ∧ ndLSendIcmp6 e w f (.ns tgt) then e.now :: w.probeTimes j else w.probeTimes j := by
  rw [World.probeTimes, packets_ndIfaceSendNs, List.filterMap_cons, Entry.probeTime]
  dsimp only
  split_ifs <;> rfl

theorem probeTimes_sendNs_of_ne (h : j ≠ i) (f : Option IfaceId) (tgt : Addr) :
    (ndIfaceSendNs e i f tgt w).probeTimes j = w.probeTimes j := by
  rw [probeTimes_sendNs, if_neg fun hij => h hij.1.symm]

theorem probeTimes_of_adds (h : w.Adds (fun en => en.act.isRxNs = true) w') (i : SessionId) :
    w'.probeTimes i = w.probeTimes i := by
  obtain ⟨new, hw, hnew⟩ := h
  refine probeTimes_of_append hw fun en hen => ?_
  obtain ⟨_, act⟩ := en
  cases act <;> first | rfl | exact absurd (hnew _ hen) (by simp [Act.isRxNs])

theorem Solicits.probeTimes {p : ProxyId} {tgt : Addr} {w₀ : World}
    (h : Solicits e w a p src tgt srcLl w₀) (i : SessionId) : w₀.probeTimes i = w.probeTimes i :=
  probeTimes_of_adds h.adds i

theorem Effect.probeTimes (h : Effect e w a w') (i : SessionId) :
    w'.probeTimes i = w.probeTimes i :=
  probeTimes_of_adds h.adds i

theorem NaCase.probeTimes (h : NaCase e i s w s' w') (j : SessionId) :
    w'.probeTimes j = w.probeTimes j := by
  rcases h.packets with ⟨-, hw⟩ | hw
  · exact probeTimes_of_packets hw j
  · refine probeTimes_of_append hw fun en hen => ?_
    obtain ⟨sub, -, rfl⟩ := mem_subEntries.1 hen
    rfl

theorem probeTimes_answerNs (e : Env) (i : SessionId) (src : Addr) (srcLl : Option LlAddr)
    (s : Session) (w : World) (j : SessionId) :
    (answerNs e i src srcLl s w).probeTimes j = w.probeTimes j := by
  refine probeTimes_of_append (l := [_]) (packets_answerNs e i src srcLl s w) ?_
  simp [Entry.probeTime, naAct]

/-- What is sent for a session is not sent for another one. -/
theorem UpdateCase.probeTimes_of_ne {o : Option Session} (h : UpdateCase e i s w o w')
    (hj : j ≠ i) : w'.probeTimes j = w.probeTimes j := by
  rcases h.packets with hw | hw
  · exact probeTimes_of_packets hw j
  · refine probeTimes_of_append (l := [_]) hw ?_
    simp [Entry.probeTime, Ne.symm hj]

theorem NsCase.probeTimes_of_ne (h : NsCase e i src srcLl s w s' w') (hj : j ≠ i) :
    w'.probeTimes j = w.probeTimes j := by
  cases h with
  | answered => exact probeTimes_answerNs ..
  | dropped => rfl
  | queued _ _ _ _ _ _ hw =>
    rcases hw with rfl | ho
    · rfl
    · exact probeTimes_of_packets (packets_of_openRoute ho) j
  | resumed _ _ _ _ _ _ _ _ _ ho =>
    rw [probeTimes_sendNs_of_ne hj]
    exact probeTimes_of_packets (packets_of_openRoute ho) j
  | probed => exact probeTimes_sendNs_of_ne hj ..

theorem StartCase.probeTimes_of_ne (h : StartCase e i s w s' w') (hj : j ≠ i) :
    w'.probeTimes j = w.probeTimes j := by
  cases h with
  | unrouted _ _ ho => exact probeTimes_of_packets (packets_of_openRoute ho) j
  | routed _ _ _ ho =>
    exact (probeTimes_sendNs_of_ne hj ..).trans
      (probeTimes_of_packets (packets_of_openRoute ho) j)
  | own => rfl
  | probed => exact probeTimes_sendNs_of_ne hj ..
  | static => rfl
  | stuck => rfl

theorem Change.probeTimes_of_ne {o o' : Option Session} (h : Change e i w a o o' w')
    (hj : j ≠ i) : w'.probeTimes j = w.probeTimes j := by
  cases h with
  | created hsol _ hstart hns =>
    rw [hns.probeTimes_of_ne hj, hstart.probeTimes_of_ne hj, hsol.probeTimes]
  | solicited hsol hns => rw [hns.probeTimes_of_ne hj, hsol.probeTimes]
  | advertised _ _ hna => exact hna.probeTimes j
  | updated hu => exact hu.probeTimes_of_ne hj
  | deleted hu => exact hu.probeTimes_of_ne hj
  | forgotten => rfl
  | rewired => exact probeTimes_of_packets (packets_ndLUp ..) j

/-! ## The timer of the probes -/

/-- The times of the probes of a session, at the time `now`. -/
structure Paced (c : Conf) (now : ℤ) (l : List ℤ) : Prop where
  spaced : Spaced c.retransTime l
  le_now : ∀ x ∈ l, x ≤ now

/-- The timers of the session tell when it was last probed. -/
structure Session.Timed (s : Session) (l : List ℤ) : Prop where
  iface : s.iface = none → l = []
  incomplete : s.state = .incomplete →
    1 ≤ s.onsCount ∧ (s.onsCount = 1 → ∀ x ∈ l, x ≤ s.onsTime)
  valid : s.state = .valid → ∀ x ∈ l, x ≤ s.stateTime
  stale : s.state = .stale → ∀ x ∈ l, x ≤ s.onsTime

variable {c : Conf} {now : ℤ} {l : List ℤ}

theorem Paced.nil (c : Conf) (now : ℤ) : Paced c now [] := ⟨.nil, by simp⟩

theorem Paced.mono {now' : ℤ} (h : Paced c now l) (hle : now ≤ now') : Paced c now' l :=
  ⟨h.spaced, fun x hx => (h.le_now x hx).trans hle⟩

theorem Paced.cons (h : Paced c now l) (hl : ∀ x ∈ l, c.retransTime ≤ now - x) :
    Paced c now (now :: l) := by
  refine ⟨?_, by simpa using h.le_now⟩
  cases l with
  | nil => exact .singleton now
  | cons x l => exact .cons_cons (hl x List.mem_cons_self) h.spaced

/-- A probe may be sent when the previous ones are old enough. -/
theorem Paced.sendNs (h : Paced e.conf e.now (w.probeTimes i))
    (hl : ∀ x ∈ w.probeTimes i, e.conf.retransTime ≤ e.now - x) (f : Option IfaceId) (tgt : Addr) :
    Paced e.conf e.now ((ndIfaceSendNs e i f tgt w).probeTimes i) := by
  rw [probeTimes_sendNs]
  split_ifs
  · exact h.cons hl
  · exact h

/-- The first probe may be sent at any time. -/
theorem Paced.firstNs (e : Env) (h : w.probeTimes i = []) (f : Option IfaceId) (tgt : Addr) :
    Paced e.conf e.now ((ndIfaceSendNs e i f tgt w).probeTimes i) := by
  have hp : Paced e.conf e.now (w.probeTimes i) := by
    rw [h]
    exact .nil ..
  exact hp.sendNs (by simp [h]) f tgt

/-- The delay of a stale session is at least `retrans_time`. -/
theorem le_staleDelay (c : Conf) (h : 0 ≤ c.retransTime) (k : ℤ) :
    c.retransTime ≤ staleDelay c k := by
  unfold staleDelay
  dsimp only
  split_ifs
  · exact le_mul_of_one_le_right h (one_le_pow₀ (by decide))
  · exact le_rfl

theorem probeTimes_sendNs_none (e : Env) (i : SessionId) (tgt : Addr) (w : World)
    (j : SessionId) : (ndIfaceSendNs e i none tgt w).probeTimes j = w.probeTimes j := by
  rw [probeTimes_sendNs]
  exact if_neg fun h => absurd h.2 (by simp [ndLSendIcmp6])

theorem Session.Timed.nil (h : s.state = .incomplete → 1 ≤ s.onsCount) : s.Timed [] :=
  ⟨fun _ => rfl, fun hs => ⟨h hs, by simp⟩, by simp, by simp⟩

/-- Nothing is said of the probes of an invalid session, if it has an interface. -/
theorem Session.Timed.of_invalid (hs : s.state = .invalid) (h : s.iface = none → l = []) :
    s.Timed l :=
  ⟨h, by simp [hs], by simp [hs], by simp [hs]⟩

theorem NsCase.paced (h : NsCase e i src srcLl s w s' w')
    (hp : Paced e.conf e.now (w.probeTimes i)) (ht : s.Timed (w.probeTimes i)) :
    Paced e.conf e.now (w'.probeTimes i) ∧ s'.Timed (w'.probeTimes i) := by
  cases h with
  | answered =>
    rw [probeTimes_answerNs]
    exact ⟨hp, ht.iface, ht.incomplete, ht.valid, ht.stale⟩
  | dropped => exact ⟨hp, ht.iface, ht.incomplete, ht.valid, ht.stale⟩
  | queued _ _ w' _ _ _ hw =>
    have hw' : w'.probeTimes i = w.probeTimes i := by
      rcases hw with rfl | ho
      · rfl
      · exact probeTimes_of_packets (packets_of_openRoute ho) i
    rw [hw']
    exact ⟨hp, ht.iface, ht.incomplete, ht.valid, ht.stale⟩
  | resumed _ _ f w' _ hf _ _ _ ho =>
    -- The session had no interface: it was never probed.
    have hw' : w'.probeTimes i = [] :=
      (probeTimes_of_packets (packets_of_openRoute ho) i).trans (ht.iface hf)
    have hp' := Paced.firstNs e hw' (some f) s.tgtR
    exact ⟨hp', by simp, fun _ => ⟨le_rfl, fun _ => hp'.le_now⟩, by simp, by simp⟩
  | probed _ _ hs hf hdue =>
    have hp' := hp.sendNs (fun x hx => by have := ht.stale hs x hx; omega) s.iface s.tgtR
    refine ⟨hp', fun hn => ?_, fun hs' => ?_, fun hs' => ?_, fun _ => hp'.le_now⟩
    · exact absurd hn (Option.isSome_iff_ne_none.1 hf)
    · exact absurd (hs.symm.trans hs') (by simp)
    · exact absurd (hs.symm.trans hs') (by simp)

theorem NaCase.paced (h : NaCase e i s w s' w') (hp : Paced e.conf e.now (w.probeTimes i))
    (ht : s.Timed (w.probeTimes i)) :
    Paced e.conf e.now (w'.probeTimes i) ∧ s'.Timed (w'.probeTimes i) := by
  rw [h.probeTimes]
  cases h with
  | refreshed hv =>
    exact ⟨hp, ht.iface, ht.incomplete, fun _ => hp.le_now, ht.stale⟩
  | validated => exact ⟨hp, ht.iface, by simp, fun _ => hp.le_now, by simp⟩

/-- A new session is probed at once, or has no interface. -/
theorem StartCase.paced (h : StartCase e i s w s' w') (hl : w.probeTimes i = [])
    (hiface : (e.ruleOf s).mode ≠ .auto → (e.ruleOf s).mode ≠ .static →
      (e.ruleOf s).iface ≠ none) :
    Paced e.conf e.now (w'.probeTimes i) ∧ s'.Timed (w'.probeTimes i) := by
  have hfirst : ∀ f w₀, w₀.probeTimes i = [] →
      Paced e.conf e.now ((firstProbe e i f s w₀).2.probeTimes i) ∧
        (firstProbe e i f s w₀).1.Timed ((firstProbe e i f s w₀).2.probeTimes i) := by
    intro f w₀ hw₀
    have hp := Paced.firstNs e hw₀ (some f) s.tgtR
    exact ⟨hp, by simp [firstProbe], fun _ => ⟨le_rfl, fun _ => hp.le_now⟩, by simp [firstProbe],
      by simp [firstProbe]⟩
  cases h with
  | unrouted w' _ ho =>
    rw [probeTimes_of_packets (packets_of_openRoute ho) i, hl]
    exact ⟨.nil .., .nil (by simp)⟩
  | routed f w₀ _ ho =>
    exact hfirst f w₀ ((probeTimes_of_packets (packets_of_openRoute ho) i).trans hl)
  | own =>
    rw [hl]
    exact ⟨.nil .., .nil (by simp)⟩
  | probed f => exact hfirst f _ hl
  | static =>
    rw [hl]
    exact ⟨.nil .., .nil (by simp)⟩
  | stuck hauto hstatic hnone => exact absurd hnone (hiface hauto hstatic)

/-- Either a session is probed twice at most before it is given up, or the probes
    need not be apart. -/
def Conf.Slow (c : Conf) : Prop := c.retransLimit ≤ 2 ∨ c.retransTime ≤ 0

theorem UpdateCase.paced {o : Option Session} (h : UpdateCase e i s w o w')
    (httl : e.conf.retransTime ≤ e.conf.validTtl) (hslow : e.conf.Slow)
    (hp : Paced e.conf e.now (w.probeTimes i)) (ht : s.Timed (w.probeTimes i)) :
    Paced e.conf e.now (w'.probeTimes i) ∧ ∀ s', o = some s' → s'.Timed (w'.probeTimes i) := by
  -- Without an interface, nothing is sent.
  have hnone : s.iface = none → (ndIfaceSendNs e i s.iface s.tgtR w).probeTimes i = [] := by
    intro hf
    rw [hf, probeTimes_sendNs_none, ht.iface hf]
  cases h with
  | idle => exact ⟨hp, by rintro _ ⟨⟩; exact ht⟩
  | held hs =>
    refine ⟨hp, ?_⟩
    rintro _ ⟨⟩
    exact ⟨ht.iface, fun _ => ⟨(ht.incomplete hs).1, fun _ => hp.le_now⟩, by simp [hs],
      by simp [hs]⟩
  | released => exact ⟨hp, by rintro _ ⟨⟩; exact .of_invalid rfl ht.iface⟩
  | gaveUp => exact ⟨hp, by rintro _ ⟨⟩; exact .of_invalid rfl ht.iface⟩
  | retransmitted hs _ hdue hlimit =>
    -- Only the second probe comes from here: the timer is that of the first one.
    obtain ⟨hpos, hone⟩ := ht.incomplete hs
    have hl : ∀ x ∈ w.probeTimes i, e.conf.retransTime ≤ e.now - x := by
      intro x hx
      rcases hslow with hslow | hslow
      · have := hone (by omega) x hx
        omega
      · have := hp.le_now x hx
        omega
    refine ⟨hp.sendNs hl s.iface s.tgtR, ?_⟩
    rintro _ ⟨⟩
    exact ⟨hnone, fun _ => ⟨by dsimp only; omega, fun h => by dsimp only at h; omega⟩, by simp [hs],
      by simp [hs]⟩
  | deleted =>
    rw [probeTimes_of_packets (packets_close e i s w) i]
    exact ⟨hp, by simp⟩
  | renewed hs =>
    refine ⟨hp, ?_⟩
    rintro _ ⟨⟩
    exact ⟨ht.iface, by simp [hs], fun _ => hp.le_now, by simp [hs]⟩
  | disowned => exact ⟨hp, by rintro _ ⟨⟩; exact .of_invalid rfl ht.iface⟩
  | staleProbed hs hdue hf =>
    have hp' := hp.sendNs (fun x hx => by have := ht.valid hs x hx; omega) s.iface s.tgtR
    refine ⟨hp', ?_⟩
    rintro _ ⟨⟩
    exact ⟨fun hn => absurd hn hf, by simp, by simp, fun _ => hp'.le_now⟩
  | staleQuiet hs _ hf =>
    refine ⟨hp, ?_⟩
    rintro _ ⟨⟩
    exact ⟨fun hn => absurd hn hf, by simp, by simp, fun _ => hp.le_now⟩
  | expired => exact ⟨hp, by rintro _ ⟨⟩; exact .of_invalid rfl ht.iface⟩
  | reprobed hs _ _ hdelay =>
    have hl : ∀ x ∈ w.probeTimes i, e.conf.retransTime ≤ e.now - x := by
      intro x hx
      by_cases hrt : 0 ≤ e.conf.retransTime
      · have := le_staleDelay e.conf hrt s.onsCount
        have := ht.stale hs x hx
        omega
      · have := hp.le_now x hx
        omega
    have hp' := hp.sendNs hl s.iface s.tgtR
    refine ⟨hp', ?_⟩
    rintro _ ⟨⟩
    exact ⟨hnone, by simp [hs], by simp [hs], fun _ => hp'.le_now⟩

theorem Change.paced {o o' : Option Session} (h : Change e i w a o o' w') (hcfg : e.cfg.Started)
    (httl : e.conf.retransTime ≤ e.conf.validTtl) (hslow : e.conf.Slow)
    (hp : Paced e.conf e.now (w.probeTimes i)) (hnone : o = none → w.probeTimes i = [])
    (ht : ∀ s, o = some s → s.Timed (w.probeTimes i)) :
    Paced e.conf e.now (w'.probeTimes i) ∧ ∀ s', o' = some s' → s'.Timed (w'.probeTimes i) := by
  cases h with
  | created hsol hr hstart hns =>
    have hmem := (of_findRule_eq_some hr).1
    obtain ⟨hp₁, ht₁⟩ := hstart.paced ((hsol.probeTimes i).trans (hnone rfl))
      (hcfg.iface_ne_none hmem)
    obtain ⟨hp₂, ht₂⟩ := hns.paced hp₁ ht₁
    exact ⟨hp₂, by rintro _ ⟨⟩; exact ht₂⟩
  | @solicited _ _ _ s _ _ _ hsol hns =>
    rw [← hsol.probeTimes i] at hp ht
    obtain ⟨hp', ht'⟩ := hns.paced hp (ht s rfl)
    exact ⟨hp', by rintro _ ⟨⟩; exact ht'⟩
  | @advertised _ _ s _ _ _ _ hna =>
    obtain ⟨hp', ht'⟩ := hna.paced hp (ht s rfl)
    exact ⟨hp', by rintro _ ⟨⟩; exact ht'⟩
  | @updated s _ _ hu => exact hu.paced httl hslow hp (ht s rfl)
  | @deleted s _ hu => exact hu.paced httl hslow hp (ht s rfl)
  | @forgotten s =>
    refine ⟨hp, ?_⟩
    rintro _ ⟨⟩
    have := ht s rfl
    exact ⟨this.iface, this.incomplete, this.valid, this.stale⟩
  | @rewired s =>
    obtain ⟨b, hb⟩ := ndLUp_fst e i s w
    rw [probeTimes_of_packets (packets_ndLUp e i s w) i, hb]
    refine ⟨hp, ?_⟩
    rintro _ ⟨⟩
    have := ht s rfl
    exact ⟨this.iface, this.incomplete, this.valid, this.stale⟩

/-- Every session is probed in time, and tells when it was probed. -/
structure Mem.Paced (c : Conf) (now : ℤ) (m : Mem) : Prop where
  paced : ∀ i, Ndppd.Paced c now (m.world.probeTimes i)
  fresh : ∀ i, m.store.fresh ≤ i → m.world.probeTimes i = []
  timed : ∀ i s, m.store.session i = some s → s.Timed (m.world.probeTimes i)

theorem Move.paced (h : Move e a m m') (hcfg : e.cfg.Started)
    (httl : e.conf.retransTime ≤ e.conf.validTtl) (hslow : e.conf.Slow)
    (hm : m.Paced e.conf e.now) : m'.Paced e.conf e.now := by
  cases h with
  | session i o o' st' w' ho hc hw =>
    obtain ⟨hp, ht⟩ := hc.paced hcfg httl hslow (hm.paced i)
      (fun hnone => hm.fresh i (hw.eq_fresh (ho.trans hnone)).ge)
      (fun s hs => hm.timed i s (ho.trans hs))
    have hother : ∀ j, j ≠ i → w'.probeTimes j = m.world.probeTimes j := fun j =>
      hc.probeTimes_of_ne
    refine ⟨fun j => ?_, fun j hj => ?_, fun j s hs => ?_⟩
    · by_cases hji : j = i
      · exact hji ▸ hp
      · exact (hother j hji).symm ▸ hm.paced j
    · rw [hother j fun hji => Nat.not_le.2 hw.lt_fresh (hji ▸ hj)]
      exact hm.fresh j (Nat.le_trans hw.fresh_le hj)
    · by_cases hji : j = i
      · subst hji
        exact ht s (hw.self.symm.trans hs)
      · rw [hw.of_ne hji] at hs
        exact (hother j hji).symm ▸ hm.timed j s hs
  | world w' he =>
    refine ⟨fun i => ?_, fun i hi => ?_, fun i s hs => ?_⟩
    · exact (he.probeTimes i).symm ▸ hm.paced i
    · exact (he.probeTimes i).trans (hm.fresh i hi)
    · exact (he.probeTimes i).symm ▸ hm.timed i s hs

/-- In a run whose clock does not go back, the probes are apart, if the second one
    of a new session is the last one. -/
theorem Daemon.run_spaced {cfg : Config} {w : World} (hcfg : cfg.Started)
    (hw : w.packets = []) (httl : c.retransTime ≤ c.validTtl) (hslow : c.Slow) {es : List Event}
    (hes : Clocked es) (i : SessionId) :
    Spaced c.retransTime (((init c cfg w).run es).mem.world.probeTimes i) := by
  obtain ⟨t, ht⟩ := exists_time_le es
  have hnil : ∀ i, (init c cfg w).mem.world.probeTimes i = [] := by
    intro i
    change w.packets.filterMap _ = []
    rw [hw, List.filterMap_nil]
  have hrun := run_clocked (P := Mem.Paced c)
    (fun t => ⟨fun i => hnil i ▸ .nil c t, fun i _ => hnil i, fun i s hs => by
      simp [init, Store.empty] at hs⟩)
    (fun t t' m hle hm => ⟨fun i => (hm.paced i).mono hle, hm.fresh, hm.timed⟩)
    (fun e a m m' hconf hcfg' _ hmove hm => by
      subst hconf
      exact hmove.paced (hcfg' ▸ hcfg) httl hslow hm) hes ht
  exact (hrun.paced i).spaced

/-! ## Ticks -/

/-- What an update sends depends on which interfaces are up only. -/
theorem updateSession_probeTimes (h : w.SameLinks w')
    (hw : w'.probeTimes i = w.probeTimes i) :
    (updateSession e i s w').2.probeTimes i = (updateSession e i s w).2.probeTimes i := by
  have hsend : (ndIfaceSendNs e i s.iface s.tgtR w').probeTimes i =
      (ndIfaceSendNs e i s.iface s.tgtR w).probeTimes i := by
    rw [probeTimes_sendNs, probeTimes_sendNs, hw, ndLSendIcmp6_congr h]
  unfold updateSession
  rw [waiting_congr h]
  simp only [ownAddr_congr h]
  split
  · split_ifs
    exacts [hw, hw, hw, hw, hsend]
  · split_ifs
    · exact hw
    · dsimp only
      rw [ndLDown_iface, ndLDown_iface, probeTimes_of_packets (packets_close e i s w') i,
        probeTimes_of_packets (packets_close e i s w) i]
      exact hw
  · split_ifs
    exacts [hw, hw, hw, hsend, hw]
  · split_ifs
    exacts [hw, hw, hw, hsend]

theorem ndSessionUpdate_probeTimes_of_ne (e : Env) (m : Mem) (h : j ≠ i) :
    (ndSessionUpdate e i m).world.probeTimes j = m.world.probeTimes j := by
  rcases ndSessionUpdate_cases e m i with ⟨-, hm⟩ | ⟨s, s', w, -, hc, hm⟩ | ⟨s, w, -, hc, hm⟩
  · rw [hm]
  · rw [hm]
    exact hc.probeTimes_of_ne h
  · rw [hm]
    exact hc.probeTimes_of_ne h

theorem foldl_update_probeTimes {l : List SessionId} (hl : l.Nodup)
    (hs : m.store.session i = some s) :
    (l.foldl (fun m i => ndSessionUpdate e i m) m).world.probeTimes i =
      if i ∈ l then (updateSession e i s m.world).2.probeTimes i else m.world.probeTimes i := by
  have hother : ∀ (l : List SessionId) (m : Mem), i ∉ l →
      (l.foldl (fun m i => ndSessionUpdate e i m) m).world.probeTimes i = m.world.probeTimes i := by
    intro l
    induction l with
    | nil => exact fun _ _ => rfl
    | cons j l ih =>
      intro m hi
      obtain ⟨hij, hi⟩ := not_or.1 (List.mem_cons.not.1 hi)
      rw [List.foldl_cons, ih _ hi, ndSessionUpdate_probeTimes_of_ne e m hij]
  induction l generalizing m with
  | nil => rfl
  | cons j l ih =>
    obtain ⟨hj, hl⟩ := List.nodup_cons.1 hl
    rw [List.foldl_cons]
    by_cases hij : i = j
    · subst hij
      rw [hother l _ hj, if_pos List.mem_cons_self, ndSessionUpdate_world, hs]
      rfl
    · rw [ih hl ((ndSessionUpdate_session_of_ne e m hij).trans hs),
        updateSession_probeTimes (ndSessionUpdate_sameLinks e j m)
          (ndSessionUpdate_probeTimes_of_ne e m hij), ndSessionUpdate_probeTimes_of_ne e m hij]
      simp only [List.mem_cons, hij, false_or]

/-- A tick sends for a session what its update sends. -/
theorem tick_probeTimes (h : e.Ok m.store) (hs : m.store.session i = some s) :
    (Daemon.stepMem e .tick m).world.probeTimes i =
      (updateSession e i s m.world).2.probeTimes i := by
  rw [Daemon.stepMem, ndSessionUpdateAll_eq h, foldl_update_probeTimes (nodup_order h) hs, if_pos]
  rw [mem_order h, hs]
  rfl

/-! ## Bursts -/

/-- The session `i` is being looked for, on an interface which is up: it was
    probed `k` times, and its timer started at `t`. -/
def Probing (m : Mem) (i : SessionId) (t k : ℤ) : Prop :=
  ∃ s f, m.store.session i = some s ∧ s.state = .incomplete ∧ s.iface = some f ∧
    (m.world.net.iface f).up = true ∧ s.onsTime = t ∧ s.onsCount = k

/-- When its timer has run out, a session is probed, if the kernel takes the
    solicitation. The timer does not start again. -/
theorem Probing.tick {t k : ℤ} (h : Probing m i t k) (hok : e.Ok m.store)
    (hsend : ∀ n msg, e.kernel.sendmsg n msg = true)
    (hdue : t + e.conf.retransTime ≤ e.now) (hlimit : k + 1 ≤ e.conf.retransLimit) :
    Probing (Daemon.stepMem e .tick m) i t (k + 1) ∧
      (Daemon.stepMem e .tick m).world.probeTimes i = e.now :: m.world.probeTimes i := by
  obtain ⟨s, f, hs, hinc, hf, hup, rfl, rfl⟩ := h
  have hupdate : updateSession e i s m.world =
      (some { s with onsCount := s.onsCount + 1 }, ndIfaceSendNs e i s.iface s.tgtR m.world) := by
    unfold updateSession
    rw [hinc]
    dsimp only
    rw [hf, Option.any_some, hup, if_neg (by simp), if_neg (by omega), if_neg (by omega)]
  constructor
  · refine ⟨{ s with onsCount := s.onsCount + 1 }, f, ?_, hinc, hf, ?_, rfl, rfl⟩
    · rw [Daemon.stepMem, tick_session hok, hs, Option.bind_some, hupdate]
    · exact ((tick_sameLinks hok f).1).trans hup
  · rw [tick_probeTimes hok hs, hupdate, probeTimes_sendNs, if_pos]
    exact ⟨rfl, ndLSendIcmp6_iff.2 ⟨f, hf, hup, hsend _ _⟩⟩

/-- Ticks at the given times. -/
def ticks (k : Kernel) (times : List ℤ) : List Event :=
  times.map fun t => { time := t, kernel := k, action := .tick }

/-- Once the timer of a session has run out, the session is probed at every tick,
    up to `retrans_limit`. -/
theorem Probing.burst {cfg : Config} {t k : ℤ} (es : List Event) (kernel : Kernel)
    (hsend : ∀ n msg, kernel.sendmsg n msg = true) (times : List ℤ)
    (h : Probing ((Daemon.init c cfg w).run es).mem i t k)
    (htimes : ∀ x ∈ times, t + c.retransTime ≤ x) (hlimit : k + times.length ≤ c.retransLimit) :
    ((Daemon.init c cfg w).run (es ++ ticks kernel times)).mem.world.probeTimes i =
      times.reverse ++ ((Daemon.init c cfg w).run es).mem.world.probeTimes i := by
  induction times generalizing es k with
  | nil => rw [ticks, List.map_nil, List.append_nil, List.reverse_nil, List.nil_append]
  | cons x times ih =>
    let ev : Event := { time := x, kernel := kernel, action := .tick }
    rw [List.length_cons] at hlimit
    have hok := Daemon.run_ok c cfg w es ev
    obtain ⟨hnext, hsent⟩ := h.tick hok hsend (by simpa using htimes x List.mem_cons_self)
      (by rw [Daemon.env_conf, Daemon.run_conf, Daemon.init_conf]; push_cast at hlimit; omega)
    have hstep : ((Daemon.init c cfg w).run (es ++ [ev])).mem =
        Daemon.stepMem (((Daemon.init c cfg w).run es).env ev) .tick
          ((Daemon.init c cfg w).run es).mem := by
      rw [Daemon.run_concat, Daemon.step_mem]
    have hrest := ih (es ++ [ev]) (hstep ▸ hnext)
      (fun y hy => htimes y (List.mem_cons_of_mem x hy)) (by push_cast at hlimit; omega)
    have hticks : es ++ ticks kernel (x :: times) = es ++ [ev] ++ ticks kernel times :=
      List.append_cons ..
    rw [hticks, hrest, hstep, hsent, List.reverse_cons, List.append_assoc]
    rfl

/-- A session for a target that is looked for on an interface. -/
theorem probing_of_created {p : ProxyId} {tgt : Addr} {r : RuleId} {f : IfaceId}
    (hnone : ∀ i s, m.store.session i ≠ some s) (hcount : m.store.count < ndSessionMax)
    (hr : e.findRule p tgt = some r) (hmode : (e.cfg.rule r).mode = .iface)
    (hf : (e.cfg.rule r).iface = some f) (hup : (m.world.net.iface f).up = true)
    (haddrs : e.rt.addrs = []) :
    Probing (ndProxyHandleNs e p src tgt srcLl m) m.store.fresh e.now 1 := by
  have hcase := proxyNsCase e p src tgt srcLl m
  generalize ndProxyHandleNs e p src tgt srcLl m = m' at hcase
  cases hcase with
  | ignored h => exact absurd (h r hr) (not_le.2 hcount)
  | found i s _ _ hs => exact absurd hs (hnone i s)
  | created r' s s' w w' _ hr' _ hstart hns =>
    obtain rfl : r = r' := Option.some.inj (hr.symm.trans hr')
    have hmode' : (e.ruleOf (newSession e r tgt)).mode = .iface := hmode
    have hf' : (e.ruleOf (newSession e r tgt)).iface = some f := hf
    -- The session is probed on the interface of the rule.
    obtain ⟨rfl, hs, hw⟩ : s = (firstProbe e m.store.fresh f (newSession e r tgt) m.world).1 ∧
        s.state = .incomplete ∧ w.net = m.world.net.addRef f := by
      cases hstart with
      | unrouted _ hauto => exact absurd (hmode'.symm.trans hauto) (by simp)
      | routed _ _ hauto => exact absurd (hmode'.symm.trans hauto) (by simp)
      | own _ hown =>
        rw [ownAddr, hf', Option.any_some, Bool.and_eq_true, ndRtIsLocalAddr, haddrs] at hown
        exact absurd hown.2 (by simp)
      | probed g _ _ hg =>
        obtain rfl := Option.some.inj (hf'.symm.trans hg)
        exact ⟨rfl, rfl, rfl⟩
      | static hstatic => exact absurd (hmode'.symm.trans hstatic) (by simp)
      | stuck _ _ hn => exact absurd (hf'.symm.trans hn) (by simp)
    have hup' : (w.net.iface f).up = true := by
      rw [hw, Net.addRef, Net.set_iface_self]
      exact hup
    rw [Probing]
    simp only [Store.set_session_self, Option.some.injEq, exists_and_left]
    refine ⟨s', rfl, ?_⟩
    cases hns with
    | answered hv => exact absurd (hs.symm.trans hv) (by simp)
    | dropped => exact ⟨rfl, f, rfl, hup', rfl, rfl⟩
    | queued _ _ w' _ _ _ hw' =>
      refine ⟨rfl, f, rfl, ?_, rfl, rfl⟩
      rcases hw' with rfl | ho
      · exact hup'
      · rw [net_of_openRoute_none ho]
        exact hup'
    | resumed _ _ _ _ hi => exact absurd (hs.symm.trans hi) (by simp)
    | probed _ _ hst => exact absurd (hs.symm.trans hst) (by simp)

/-- In the small network, a solicitation starts the probes of a session, whatever
    the settings. -/
theorem Small.probing (c : Conf) :
    Probing ((Daemon.init c (daemon ifaceRule).cfg (daemon ifaceRule).mem.world).run
      [event 0 (.ns 0 1 2 (some 3))]).mem 0 0 1 := by
  have hrules : ((daemon ifaceRule).cfg.proxy 0).rules = [0] := by decide +kernel
  have hpflen : ((daemon ifaceRule).cfg.rule 0).pflen = 0 := by decide +kernel
  refine probing_of_created (r := 0) (f := 1) (fun i s h => ?_) ?_ ?_ ?_ ?_ ?_ rfl
  · exact absurd h (by simp [Daemon.init, Store.empty])
  · change (0 : ℤ) < ndSessionMax
    decide
  · change ((daemon ifaceRule).cfg.proxy 0).rules.find? (fun r => ndAddrMatch c.byteOrder
      ((daemon ifaceRule).cfg.rule r).addr 2 ((daemon ifaceRule).cfg.rule r).pflen) = some 0
    rw [hrules]
    simp [hpflen, ndAddrMatch]
  · change ((daemon ifaceRule).cfg.rule 0).mode = .iface
    decide +kernel
  · change ((daemon ifaceRule).cfg.rule 0).iface = some 1
    decide +kernel
  · change ((daemon ifaceRule).mem.world.net.iface 1).up = true
    decide +kernel

/-- The probes of every session are `retrans_time` apart, in every run after
    start-up whose clock does not go back, if and only if the second probe of a new
    session is the last one, or `retrans_time` is not positive. -/
theorem Daemon.spaced_iff (c : Conf) (httl : c.retransTime ≤ c.validTtl) :
    (∀ e cfg d, e.conf = c → cfg.Parsed → start e cfg = some d → ∀ es, Clocked es →
      ∀ i, Spaced c.retransTime ((d.run es).mem.world.probeTimes i)) ↔
        c.retransLimit ≤ 2 ∨ c.retransTime ≤ 0 := by
  constructor
  · intro h
    by_contra hfast
    rw [not_or, not_le, not_le] at hfast
    -- A solicitation, and two ticks at the time when the timer runs out.
    have hclock : Clocked ([Small.event 0 (.ns 0 1 2 (some 3))] ++
        ticks Small.kernel [c.retransTime, c.retransTime]) := by
      simp [Clocked, ticks, Small.event, hfast.2.le]
    have hspaced := h _ _ _ rfl Small.parsed (Small.start_eq c) _ hclock 0
    rw [(Small.probing c).burst _ _ (fun _ _ => rfl) _ (by simp) (by simp; omega)] at hspaced
    have hgap : c.retransTime ≤ c.retransTime - c.retransTime :=
      (List.isChain_cons_cons.1 hspaced).1
    omega
  · rintro hslow e cfg d rfl hparsed h es hes i
    obtain ⟨cw, hcw, rfl⟩ := Option.map_eq_some_iff.1 h
    exact run_spaced (started_of_ndProxyStartup hparsed hcw) (ndProxyStartup_packets hcw) httl
      hslow hes i

/-- A solicitation, and two ticks as the main loop makes them, with the default
    settings: three probes, the last two of them 101 milliseconds apart. -/
theorem Small.burst_not_spaced :
    conf.retransTime ≤ conf.validTtl ∧
    Daemon.Clocked [event 0 (.rxNs 2 1 (message 2) 3), event 1000 .tick, event 1101 .tick] ∧
    ((daemon ifaceRule).run [event 0 (.rxNs 2 1 (message 2) 3), event 1000 .tick,
      event 1101 .tick]).mem.world.probeTimes 0 = [1101, 1000, 0] ∧
    ¬Spaced conf.retransTime (((daemon ifaceRule).run [event 0 (.rxNs 2 1 (message 2) 3),
      event 1000 .tick, event 1101 .tick]).mem.world.probeTimes 0) := by
  refine ⟨by decide, by simp [Daemon.Clocked, event], by decide +kernel, by decide +kernel⟩

/-- With two probes for a new session, they are apart. -/
theorem Small.two_spaced :
    Spaced 1000 (((Daemon.init { conf with retransLimit := 2 } (daemon ifaceRule).cfg
      (daemon ifaceRule).mem.world).run [event 0 (.rxNs 2 1 (message 2) 3), event 1000 .tick,
        event 1101 .tick]).mem.world.probeTimes 0) :=
  (Daemon.spaced_iff { conf with retransLimit := 2 } (by decide)).2 (.inl (by decide)) _ _ _ rfl
    parsed (start_eq _) _ (by simp [Daemon.Clocked, event]) 0

end Ndppd
