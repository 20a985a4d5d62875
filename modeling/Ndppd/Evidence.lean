import Ndppd.Daemon.Links

/-!
# Evidence of reachability

The daemon answers for a target when it knows that the target is there. A valid
session was confirmed when its timer last started (`Daemon.Confirms`): its rule
is static, or an advertisement of the target came in on its interface, or the
target was an own address of the interface of its rule.

* `tick_confirmed`: after a tick, the evidence is not older than `valid_ttl`;
  and an advertisement is only sent for a valid session.
-/

namespace Ndppd

variable {e : Env} {i : SessionId} {src : Addr} {srcLl : Option LlAddr} {s s' : Session}
  {w w' : World} {a : Action} {m m' : Mem}

/-! ## How sessions are valid -/

/-- A solicitation does not make a session valid. -/
theorem NsCase.valid (h : NsCase e i src srcLl s w s' w') (hv : s'.state = .valid) :
    s.state = .valid ∧ s' = { s with insTime := e.now } := by
  cases h with
  | answered hs => exact ⟨hs, rfl⟩
  | dropped hs => exact absurd hv hs
  | queued _ _ _ hs => exact absurd hv hs
  | resumed => exact absurd hv (by simp)
  | probed _ _ hs => exact absurd (hs.symm.trans hv) (by simp)

theorem NsCase.of_valid (h : NsCase e i src srcLl s w s' w') (hs : s.state = .valid) :
    s'.state = .valid := by
  cases h with
  | answered => exact hs
  | dropped hn => exact absurd hs hn
  | queued _ _ _ hn => exact absurd hs hn
  | resumed _ _ _ _ hn => exact absurd (hn.symm.trans hs) (by simp)
  | probed _ _ hn => exact absurd (hn.symm.trans hs) (by simp)

theorem NaCase.valid (h : NaCase e i s w s' w') : s'.state = .valid := by
  cases h with
  | refreshed hs => exact hs
  | validated => rfl

theorem NaCase.stateTime (h : NaCase e i s w s' w') : s'.stateTime = e.now := by
  cases h <;> rfl

/-- A new session is valid if its rule is static or its target an own address. -/
theorem StartCase.valid (h : StartCase e i s w s' w') (hs : s.state ≠ .valid)
    (hv : s'.state = .valid) : s' = { s with state := .valid } ∧ w' = w ∧
      ((e.ruleOf s).mode = .static ∨
        (e.ruleOf s).mode = .iface ∧ ownAddr e (e.ruleOf s) s.tgtR w = true) := by
  cases h with
  | unrouted => exact absurd hv (by simp)
  | routed => exact absurd hv (by simp [firstProbe])
  | own hm ho => exact ⟨rfl, rfl, .inr ⟨hm, ho⟩⟩
  | probed => exact absurd hv (by simp [firstProbe])
  | static hm => exact ⟨rfl, rfl, .inl hm⟩
  | stuck => exact absurd hv hs

/-- The timers do not make a session valid. -/
theorem UpdateCase.valid (h : UpdateCase e i s w (some s') w') (hv : s'.state = .valid) :
    s.state = .valid ∧ ((s' = s ∧ e.now - s.stateTime < e.conf.validTtl) ∨
      (s' = { s with stateTime := e.now } ∧ s.iface = none ∧
        ((e.ruleOf s).mode = .static ∨ ownAddr e (e.ruleOf s) s.tgtR w = true))) := by
  cases h with
  | idle _ _ hidle => exact ⟨hv, .inl ⟨rfl, hidle hv⟩⟩
  | renewed hs _ hf hown => exact ⟨hs, .inr ⟨rfl, hf, hown⟩⟩
  | held hs => exact absurd (hs.symm.trans hv) (by simp)
  | released => exact absurd hv (by simp)
  | gaveUp => exact absurd hv (by simp)
  | retransmitted hs => exact absurd (hs.symm.trans hv) (by simp)
  | disowned => exact absurd hv (by simp)
  | staleProbed => exact absurd hv (by simp)
  | staleQuiet => exact absurd hv (by simp)
  | expired => exact absurd hv (by simp)
  | reprobed hs => exact absurd (hs.symm.trans hv) (by simp)

/-! ## Evidence -/

/-- The event, in the state it finds, is evidence that the target of the session
    can be reached: its rule is static; or the event is an advertisement of its
    target on its interface; or the target is an own address. -/
def Daemon.Confirms (d : Daemon) (ev : Event) (s : Session) : Prop :=
  ((d.cfg.rule s.rule).mode = .static ∧ s.iface = none) ∨
  (∃ f icmp, s.iface = some f ∧ ev.action = .rxNa f icmp ∧ naTarget icmp = some s.tgtR) ∨
  (s.iface = none ∧ (d.cfg.rule s.rule).mode = .iface ∧
    ∃ f, (d.cfg.rule s.rule).iface = some f ∧ (d.mem.world.net.iface f).up = true ∧
      ndRtIsLocalAddr d.conf.byteOrder d.rt (d.mem.world.net.iface f).index s.tgtR = true)

/-- An event of the run confirmed the session when its timer started. -/
def Daemon.Confirmed (d : Daemon) (es : List Event) (s : Session) : Prop :=
  ∃ pre ev post, es = pre ++ ev :: post ∧ ev.time = s.stateTime ∧ (d.run pre).Confirms ev s

theorem Daemon.Confirms.congr {d : Daemon} {ev : Event} (h : d.Confirms ev s) (hk : s.SameKey s')
    (hf : s'.iface = s.iface) : d.Confirms ev s' := by
  unfold Confirms
  rw [hk.rule, hk.tgtR, hf]
  exact h

theorem Daemon.Confirmed.congr {d : Daemon} {es : List Event} (h : d.Confirmed es s)
    (hk : s.SameKey s') (hf : s'.iface = s.iface) (ht : s'.stateTime = s.stateTime) :
    d.Confirmed es s' := by
  obtain ⟨pre, ev, post, hes, htime, hc⟩ := h
  exact ⟨pre, ev, post, hes, ht ▸ htime, hc.congr hk hf⟩

theorem Daemon.Confirmed.concat {d : Daemon} {es : List Event} (h : d.Confirmed es s) (ev : Event) :
    d.Confirmed (es ++ [ev]) s := by
  obtain ⟨pre, ev', post, rfl, htime, hc⟩ := h
  exact ⟨pre, ev', post ++ [ev], by simp, htime, hc⟩

/-- The last event confirms the session. -/
theorem Daemon.Confirms.confirmed {d : Daemon} {es : List Event} {ev : Event}
    (h : (d.run es).Confirms ev s) (ht : s.stateTime = ev.time) : d.Confirmed (es ++ [ev]) s :=
  ⟨es, ev, [], rfl, ht.symm, h⟩

theorem Daemon.confirms_of_ownAddr {d : Daemon} {ev : Event} (hf : s.iface = none)
    (hm : (d.cfg.rule s.rule).mode = .iface)
    (ho : ownAddr (d.env ev) (d.cfg.rule s.rule) s.tgtR d.mem.world = true) : d.Confirms ev s := by
  rw [ownAddr, Option.any_eq_true] at ho
  obtain ⟨f, hrf, hup⟩ := ho
  rw [Bool.and_eq_true] at hup
  exact .inr (.inr ⟨hf, hm, f, hrf, hup.1, hup.2⟩)

/-- What a change of a valid session does to its evidence. -/
theorem Change.confirmed {d : Daemon} {es : List Event} {ev : Event} {o : Option Session}
    (h : Change ((d.run es).env ev) i w ev.action o (some s') w')
    (hlinks : ev.action ≠ .rebind → (d.run es).mem.world.SameLinks w)
    (ho : ∀ s, o = some s → s.state = .valid → d.Confirmed (es ++ [ev]) s)
    (hv : s'.state = .valid) : d.Confirmed (es ++ [ev]) s' := by
  generalize ha : ev.action = a at h hlinks
  cases h with
  | created hsol hr hstart hns =>
    obtain ⟨hvs, rfl⟩ := hns.valid hv
    obtain ⟨rfl, -, hown⟩ := hstart.valid (by simp [newSession]) hvs
    refine Daemon.Confirms.confirmed ?_ rfl
    rcases hown with hm | ⟨hm, hown⟩
    · exact .inl ⟨hm, rfl⟩
    · refine Daemon.confirms_of_ownAddr rfl hm ?_
      have hne : a ≠ .rebind := by rintro rfl; cases hsol
      rw [← ownAddr_congr ((hlinks hne).trans (.of_net_eq hsol.net_eq))]
      exact hown
  | solicited hsol hns =>
    obtain ⟨hvs, rfl⟩ := hns.valid hv
    exact (ho _ rfl hvs).congr hns.sameKey rfl rfl
  | advertised htgt hf hna =>
    refine Daemon.Confirms.confirmed (.inr (.inl ⟨_, _, ?_, ha, ?_⟩)) hna.stateTime
    · rw [hna.iface, hf]
    · rw [hna.sameKey.tgtR, htgt]
  | @updated s _ _ hu =>
    obtain ⟨hvs, ⟨rfl, -⟩ | ⟨rfl, hf, hown⟩⟩ := hu.valid hv
    · exact ho _ rfl hvs
    · refine Daemon.Confirms.confirmed ?_ rfl
      rcases hown with hm | hown
      · exact .inl ⟨hm, hf⟩
      · rw [ownAddr_congr (hlinks (by simp))] at hown
        -- It was confirmed before, without an interface.
        obtain ⟨pre, ev', post, -, -, hc⟩ := ho s rfl hvs
        rcases hc with ⟨hm, -⟩ | ⟨f, icmp, hf', -⟩ | ⟨-, hm, -⟩
        · exact .inl ⟨by simpa using hm, hf⟩
        · exact absurd (hf.symm.trans hf') (by simp)
        · exact Daemon.confirms_of_ownAddr hf (by simpa using hm) hown
  | forgotten => exact (ho _ rfl hv).congr ⟨rfl, rfl, rfl⟩ rfl rfl
  | @rewired s hvs =>
    obtain ⟨b, hb⟩ := ndLUp_fst ((d.run es).env ev) i s w
    rw [hb]
    exact (ho s rfl hvs).congr ⟨rfl, rfl, rfl⟩ rfl rfl

/-- In every state reached, the valid sessions are confirmed. -/
theorem Daemon.run_confirmed (conf : Conf) (cfg : Config) (w : World) (es : List Event) :
    ∀ i s, ((init conf cfg w).run es).mem.store.session i = some s → s.state = .valid →
      (init conf cfg w).Confirmed es s := by
  refine run_history (P := fun es m => ∀ i s, m.store.session i = some s → s.state = .valid →
    (init conf cfg w).Confirmed es s) ?_ ?_ ?_ es
  · exact fun i s hs => absurd hs (by simp [init, Store.empty])
  · exact fun es ev m h i s hs hv => (h i s hs hv).concat ev
  · intro es ev m m' hok hlinks hm h
    exact hm.forall_session h fun i o s' w' hc ho hv => hc.confirmed hlinks ho hv

/-! ## Advertisements are for valid sessions -/

/-- The session an advertisement is sent for. -/
def Act.naOf : Act → Option SessionId
  | .na i .. => some i
  | _ => none

/-- The entry is not an advertisement. -/
def Entry.NotNa (en : Entry) : Prop := en.act.naOf = none

theorem Entry.notNa_of_isRxNs {en : Entry} (h : en.act.isRxNs = true) : en.NotNa := by
  obtain ⟨_, act⟩ := en
  cases act <;> first | rfl | exact absurd h (by simp [Act.isRxNs])

theorem UpdateCase.notNa {o : Option Session} (h : UpdateCase e i s w o w') :
    w.Adds Entry.NotNa w' := by
  rcases h.packets with hp | hp
  · exact .of_eq hp
  · exact .of_cons hp rfl

theorem Solicits.notNa {p : ProxyId} {tgt : Addr} {w₀ : World}
    (h : Solicits e w a p src tgt srcLl w₀) : w.Adds Entry.NotNa w₀ :=
  h.adds.mono fun _ => Entry.notNa_of_isRxNs

theorem StartCase.notNa (h : StartCase e i s w s' w') : w.Adds Entry.NotNa w' := by
  cases h with
  | unrouted _ _ ho => exact .of_eq (packets_of_openRoute ho)
  | routed f _ _ ho => exact .of_cons (packets_sendNs_of_openRoute ho ..) rfl
  | own => exact .of_eq rfl
  | probed => exact .of_cons (packets_ndIfaceSendNs ..) rfl
  | static => exact .of_eq rfl
  | stuck => exact .of_eq rfl

/-- A solicitation is answered if the session is valid. -/
theorem NsCase.adds (h : NsCase e i src srcLl s w s' w') :
    w.Adds (fun en => ∀ j, en.act.naOf = some j → j = i ∧ s.state = .valid) w' := by
  cases h with
  | answered hs =>
    refine .of_cons (packets_answerNs ..) fun j hj => ⟨?_, hs⟩
    exact (Option.some.inj hj).symm
  | dropped => exact .of_eq rfl
  | queued _ _ w' _ _ _ hw =>
    rcases hw with rfl | ho
    · exact .of_eq rfl
    · exact .of_eq (packets_of_openRoute ho)
  | resumed _ _ _ _ _ _ _ _ _ ho =>
    exact .of_cons (packets_sendNs_of_openRoute ho ..) fun j hj => absurd hj (by simp [Act.naOf])
  | probed => exact .of_cons (packets_ndIfaceSendNs ..) fun j hj => absurd hj (by simp [Act.naOf])

/-- An advertisement is answered to the subscribers of the session. -/
theorem NaCase.adds (h : NaCase e i s w s' w') :
    w.Adds (fun en => ∀ j, en.act.naOf = some j → j = i) w' := by
  rcases h.packets with ⟨-, hp⟩ | hp
  · exact .of_eq hp
  · refine ⟨_, hp, fun en hen j hj => ?_⟩
    obtain ⟨sub, -, rfl⟩ := mem_subEntries.1 hen
    exact (Option.some.inj hj).symm

/-- In a move with the action `a`, the session `i`, which was `o` before, is
    valid after it as `s'`. It was valid before, or it is created valid, or it
    is made valid by its advertisement. -/
def ValidBy (a : Action) (o : Option Session) (s' : Session) : Prop :=
  s'.state = .valid ∧ ((∃ s, o = some s ∧ s.state = .valid) ∨ o = none ∨
    ∃ f icmp, a = .rxNa f icmp ∧ s'.iface = some f ∧ naTarget icmp = some s'.tgtR)

/-- An advertisement is sent for the session that changes, which is valid. -/
theorem Change.adds {o o' : Option Session} (h : Change e i w a o o' w') :
    w.Adds (fun en => ∀ j, en.act.naOf = some j → j = i ∧ ∃ s', o' = some s' ∧ ValidBy a o s')
      w' := by
  have hnot : ∀ (o o' : Option Session) (en : Entry), en.NotNa → ∀ j, en.act.naOf = some j →
      j = i ∧ ∃ s', o' = some s' ∧ ValidBy a o s' :=
    fun o o' en hen j hj => absurd (hen.symm.trans hj) (by simp)
  cases h with
  | created hsol _ hstart hns =>
    refine ((hsol.notNa.trans hstart.notNa).mono (hnot _ _)).trans (hns.adds.mono ?_)
    intro en hen j hj
    obtain ⟨rfl, hv⟩ := hen j hj
    exact ⟨rfl, _, rfl, hns.of_valid hv, .inr (.inl rfl)⟩
  | solicited hsol hns =>
    refine (hsol.notNa.mono (hnot _ _)).trans (hns.adds.mono ?_)
    intro en hen j hj
    obtain ⟨rfl, hv⟩ := hen j hj
    exact ⟨rfl, _, rfl, hns.of_valid hv, .inl ⟨_, rfl, hv⟩⟩
  | advertised htgt hf hna =>
    refine hna.adds.mono fun en hen j hj => ⟨hen j hj, _, rfl, hna.valid, .inr (.inr ?_)⟩
    exact ⟨_, _, rfl, hna.iface.trans hf, by rw [hna.sameKey.tgtR, htgt]⟩
  | updated hu => exact hu.notNa.mono (hnot _ _)
  | deleted hu => exact hu.notNa.mono (hnot _ _)
  | forgotten => exact .of_eq rfl
  | rewired => exact .of_eq (packets_ndLUp ..)

theorem Effect.notNa (h : Effect e w a w') : w.Adds Entry.NotNa w' :=
  h.adds.mono fun _ => Entry.notNa_of_isRxNs

/-- The loops of the daemon send no advertisement. -/
theorem Move.notNa_of_isLoop (h : Move e a m m') (ha : a.IsLoop) :
    m.world.Adds Entry.NotNa m'.world := by
  cases h with
  | session i o o' st' w' _ hc _ =>
    cases hc with
    | created hsol => cases hsol <;> exact absurd ha id
    | solicited hsol => cases hsol <;> exact absurd ha id
    | advertised => exact absurd ha id
    | updated hu => exact hu.notNa
    | deleted hu => exact hu.notNa
    | forgotten => exact .of_eq rfl
    | rewired => exact .of_eq (packets_ndLUp ..)
  | world w' he => exact he.notNa

/-- In an event, advertisements are sent for valid sessions. -/
theorem stepMem_adds (hok : e.Ok m.store) : m.world.Adds
    (fun en => ∀ i, en.act.naOf = some i → ∃ s', (Daemon.stepMem e a m).store.session i = some s' ∧
      ValidBy a (m.store.session i) s') (Daemon.stepMem e a m).world := by
  by_cases ha : a.IsLoop
  · have hnot : m.world.Adds Entry.NotNa (Daemon.stepMem e a m).world :=
      stepMem_induction (Q := fun m' => m.world.Adds Entry.NotNa m'.world) hok (.of_eq rfl)
        fun m₁ m₂ _ _ hm h => h.trans (hm.notNa_of_isLoop ha)
    exact hnot.mono fun en hen i hi => absurd (hen.symm.trans hi) (by simp)
  · have hm := stepMem_move hok ha
    generalize Daemon.stepMem e a m = m' at hm
    cases hm with
    | refl => exact .of_eq rfl
    | single hm =>
      cases hm with
      | session i o o' st' w' ho hc hw =>
        refine hc.adds.mono fun en hen j hj => ?_
        obtain ⟨rfl, s', rfl, hv⟩ := hen j hj
        exact ⟨s', hw.self, ho ▸ hv⟩
      | world w' he => exact he.notNa.mono fun en hen i hi => absurd (hen.symm.trans hi) (by simp)

/-! ## After a tick -/

/-- After a tick at the time `t`, every valid session was confirmed less than
    `valid_ttl` ago, when its timer last started. In every event of a run, the
    advertisements sent are for sessions that are valid: they were so before
    it, or are created so by it, or it is the advertisement that makes them so. -/
theorem Daemon.tick_confirmed (conf : Conf) (cfg : Config) (w : World) (es : List Event)
    (httl : 0 < conf.validTtl) :
    (∀ t kernel i s,
      ((init conf cfg w).run (es ++ [⟨t, kernel, .tick⟩])).mem.store.session i = some s →
      s.state = .valid → t - s.stateTime < conf.validTtl ∧
        ∃ pre ev post, es ++ [⟨t, kernel, .tick⟩] = pre ++ ev :: post ∧ ev.time = s.stateTime ∧
          ((init conf cfg w).run pre).Confirms ev s) ∧
    ∀ ev, let d := (init conf cfg w).run es
      ∃ new, (d.step ev).mem.world.packets = new ++ d.mem.world.packets ∧
        ∀ en ∈ new, ∀ i, en.act.naOf = some i → ∃ s', (d.step ev).mem.store.session i = some s' ∧
          s'.state = .valid ∧
          ((∃ s, d.mem.store.session i = some s ∧ s.state = .valid) ∨
            d.mem.store.session i = none ∨
            ∃ f icmp, ev.action = .rxNa f icmp ∧ s'.iface = some f ∧
              naTarget icmp = some s'.tgtR) := by
  refine ⟨fun t kernel i s hs hv => ⟨?_, run_confirmed conf cfg w _ i s hs hv⟩, fun ev => ?_⟩
  · have hok := run_ok conf cfg w es ⟨t, kernel, .tick⟩
    rw [run_concat, step_mem] at hs
    dsimp only at hs
    obtain ⟨s₀, w', -, hu⟩ := tick_updateCase hok hs
    obtain ⟨-, ⟨rfl, hlt⟩ | ⟨rfl, -⟩⟩ := hu.valid hv
    · simpa using hlt
    · simpa using httl
  · exact stepMem_adds (run_ok conf cfg w es ev)

/-- A static session of the small network, after a tick. -/
theorem Daemon.tick_confirmed_static :
    0 < Small.conf.validTtl ∧ ∃ s, ((init Small.conf (Small.daemon Small.staticRule).cfg
        (Small.daemon Small.staticRule).mem.world).run
          ([Small.event 0 (.ns 0 1 2 (some 3))] ++ [⟨10, Small.kernel, .tick⟩])).mem.store.session
            0 = some s ∧ s.state = .valid ∧ 10 - s.stateTime < Small.conf.validTtl := by
  have httl : 0 < Small.conf.validTtl := by decide
  have hs : (((init Small.conf (Small.daemon Small.staticRule).cfg
      (Small.daemon Small.staticRule).mem.world).run
        ([Small.event 0 (.ns 0 1 2 (some 3))] ++ [⟨10, Small.kernel, .tick⟩])).mem.store.session
          0).any (fun s => s.state = .valid) = true := by decide +kernel
  obtain ⟨s, hs, hv⟩ := (Option.any_eq_true _ _).1 hs
  have hv := of_decide_eq_true hv
  exact ⟨httl, s, hs, hv, ((tick_confirmed Small.conf _ _ _ httl).1 10 Small.kernel 0 s hs hv).1⟩

end Ndppd
