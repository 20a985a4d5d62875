import Ndppd.Evidence
import Ndppd.Startup

/-!
# Probes have an interface

`nd_iface_send_ns` and `nd_iface_send_na` dereference the interface they are
given. After start-up, a session that is probed has an interface, and so has
the proxy of each session: neither is called without one (`Daemon.run_onIface`).
-/

namespace Ndppd

variable {e : Env} {i : SessionId} {src : Addr} {srcLl : Option LlAddr} {s s' : Session}
  {w w' : World} {a : Action} {m m' : Mem}

/-- A session that may be probed has an interface. -/
def Session.Probeable (s : Session) : Prop :=
  s.state = .incomplete ∨ s.state = .stale → s.iface.isSome

/-- The packet, if it is sent by the daemon, is sent on some interface. -/
def Entry.OnIface (en : Entry) : Prop :=
  match en.act with
  | .ns _ f .. => f.isSome
  | .na _ f .. => f.isSome
  | _ => True

/-! ## The transitions -/

/-- A session that is probed after a solicitation has an interface. -/
theorem NsCase.probeable (h : NsCase e i src srcLl s w s' w') (hs : s.Probeable) :
    s'.Probeable := by
  cases h with
  | resumed => exact fun _ => rfl
  | _ => exact hs

/-- A new session that is not probed is valid or invalid. -/
theorem StartCase.probeable (h : StartCase e i s w s' w') (hiface : (e.ruleOf s).mode ≠ .auto →
    (e.ruleOf s).mode ≠ .static → (e.ruleOf s).iface ≠ none) : s'.Probeable := by
  cases h with
  | unrouted => rintro (h | h) <;> cases h
  | routed => exact fun _ => rfl
  | own => rintro (h | h) <;> cases h
  | probed => exact fun _ => rfl
  | static => rintro (h | h) <;> cases h
  | stuck hauto hstatic hnone => exact absurd hnone (hiface hauto hstatic)

/-- A session that goes stale had an interface before. -/
theorem UpdateCase.probeable (h : UpdateCase e i s w (some s') w') (hs : s.Probeable) :
    s'.Probeable := by
  cases h with
  | idle => exact hs
  | held => exact hs
  | retransmitted => exact hs
  | renewed hv => exact hs
  | staleProbed _ _ hf => exact fun _ => Option.isSome_iff_ne_none.2 hf
  | staleQuiet _ _ hf => exact fun _ => Option.isSome_iff_ne_none.2 hf
  | reprobed => exact hs
  | _ => rintro (h | h) <;> cases h

/-- No change makes a session that is probed without an interface. -/
theorem Change.probeable {o : Option Session} (h : Change e i w a o (some s') w')
    (hcfg : e.cfg.Started) (ho : ∀ s, o = some s → s.Probeable) : s'.Probeable := by
  cases h with
  | created _ hr hstart hns =>
    obtain ⟨hmem, -⟩ := of_findRule_eq_some hr
    exact hns.probeable (hstart.probeable (hcfg.iface_ne_none hmem))
  | solicited _ hns => exact hns.probeable (ho _ rfl)
  | advertised _ _ hna =>
    rintro (h | h)
    · exact absurd (h.symm.trans hna.valid) (by simp)
    · exact absurd (h.symm.trans hna.valid) (by simp)
  | updated hu => exact hu.probeable (ho _ rfl)
  | forgotten => exact (ho _ rfl :)
  | @rewired s hv =>
    obtain ⟨b, hb⟩ := ndLUp_fst e i s w
    rw [hb]
    exact (ho _ rfl :)

/-! ## The packets -/

/-- Answers are sent on the interface of the proxy, and probes on that of the session. -/
theorem NsCase.onIface (h : NsCase e i src srcLl s w s' w')
    (hproxy : (e.proxyOf s).iface.isSome) : w.Adds Entry.OnIface w' := by
  cases h with
  | answered => exact .of_cons (packets_answerNs ..) hproxy
  | dropped => exact .of_eq rfl
  | queued _ _ w' _ _ _ hw =>
    rcases hw with rfl | ho
    · exact .of_eq rfl
    · exact .of_eq (packets_of_openRoute ho)
  | resumed _ _ _ _ _ _ _ _ _ ho => exact .of_cons (packets_sendNs_of_openRoute ho ..) rfl
  | probed _ _ _ hf => exact .of_cons (packets_ndIfaceSendNs ..) hf

theorem NaCase.onIface (h : NaCase e i s w s' w') (hproxy : (e.proxyOf s).iface.isSome) :
    w.Adds Entry.OnIface w' := by
  rcases h.packets with ⟨-, hp⟩ | hp
  · exact .of_eq hp
  · refine ⟨_, hp, fun en hen => ?_⟩
    obtain ⟨sub, -, rfl⟩ := mem_subEntries.1 hen
    exact hproxy

theorem StartCase.onIface (h : StartCase e i s w s' w') : w.Adds Entry.OnIface w' := by
  cases h with
  | unrouted _ _ ho => exact .of_eq (packets_of_openRoute ho)
  | routed f _ _ ho => exact .of_cons (packets_sendNs_of_openRoute ho ..) rfl
  | probed => exact .of_cons (packets_ndIfaceSendNs ..) rfl
  | _ => exact .of_eq rfl

/-- The probes are sent on the interface of the session. -/
theorem UpdateCase.onIface {o : Option Session} (h : UpdateCase e i s w o w')
    (hs : s.Probeable) : w.Adds Entry.OnIface w' := by
  cases h with
  | retransmitted hi => exact .of_cons (packets_ndIfaceSendNs ..) (hs (.inl hi))
  | staleProbed _ _ hf =>
    exact .of_cons (packets_ndIfaceSendNs ..) (Option.isSome_iff_ne_none.2 hf)
  | reprobed hst => exact .of_cons (packets_ndIfaceSendNs ..) (hs (.inr hst))
  | deleted => exact .of_eq (packets_close e i s w)
  | _ => exact .of_eq rfl

/-- The proxy of a session has an interface. -/
theorem Config.Started.proxyOf_iface {c : Conf} (hcfg : e.cfg.Started)
    (hs : s.Matched c e.cfg) : (e.proxyOf s).iface.isSome :=
  hcfg.proxy_iface _ _ hs.mem_rules

theorem Entry.onIface_of_isRxNs {en : Entry} (h : en.act.isRxNs = true) : en.OnIface := by
  obtain ⟨_, act⟩ := en
  cases act <;> trivial

theorem Solicits.onIface {p : ProxyId} {tgt : Addr} {w₀ : World}
    (h : Solicits e w a p src tgt srcLl w₀) : w.Adds Entry.OnIface w₀ :=
  h.adds.mono fun _ => Entry.onIface_of_isRxNs

/-- Whatever changes a session, its packets have an interface to be sent on. -/
theorem Change.onIface {o o' : Option Session} (h : Change e i w a o o' w')
    (hcfg : e.cfg.Started) (ho : ∀ s, o = some s → s.Probeable ∧ s.Matched e.conf e.cfg) :
    w.Adds Entry.OnIface w' := by
  cases h with
  | created hsol hr hstart hns =>
    have hm := (newSession_matched hr).congr hstart.sameKey
    exact (hsol.onIface.trans hstart.onIface).trans (hns.onIface (hcfg.proxyOf_iface hm))
  | solicited hsol hns =>
    exact hsol.onIface.trans (hns.onIface (hcfg.proxyOf_iface (ho _ rfl).2))
  | advertised _ _ hna => exact hna.onIface (hcfg.proxyOf_iface (ho _ rfl).2)
  | updated hu => exact hu.onIface (ho _ rfl).1
  | deleted hu => exact hu.onIface (ho _ rfl).1
  | forgotten => exact .of_eq rfl
  | rewired => exact .of_eq (packets_ndLUp ..)

theorem Effect.onIface (h : Effect e w a w') : w.Adds Entry.OnIface w' :=
  h.adds.mono fun _ => Entry.onIface_of_isRxNs

/-! ## Runs -/

/-- In every run, a session that is probed has an interface. -/
theorem Daemon.run_probeable {conf : Conf} {cfg : Config} {w : World} (hcfg : cfg.Started)
    (es : List Event) :
    ∀ i s, ((init conf cfg w).run es).mem.store.session i = some s → s.Probeable :=
  run_sessions (fun _ _ _ _ _ _ _ _ hcfg' hc ho => hc.probeable (hcfg' ▸ hcfg) ho) es

/-- After start-up, in every state reached, the sessions that may be probed have
    an interface, and the daemon has sent its packets on an interface. -/
theorem Daemon.run_onIface (conf : Conf) (cfg : Config) (w : World) (es : List Event)
    (hcfg : cfg.Started) :
    (∀ i s, ((init conf cfg w).run es).mem.store.session i = some s →
      s.state = .incomplete ∨ s.state = .stale → s.iface.isSome) ∧
    ∃ new, ((init conf cfg w).run es).mem.world.packets = new ++ w.packets ∧
      ∀ en ∈ new, (∀ i f tgt sent, en.act = .ns i f tgt sent → f.isSome) ∧
        ∀ i f dst dstLl tgt tgtLl router sent, en.act = .na i f dst dstLl tgt tgtLl router sent →
          f.isSome := by
  let P (m : Mem) : Prop := (∀ i s, m.store.session i = some s → s.Probeable) ∧
    w.Adds Entry.OnIface m.world
  have hrun : P ((init conf cfg w).run es).mem := by
    refine run_induction ⟨fun i s hs => absurd hs (by simp [init, Store.empty]), .of_eq rfl⟩ ?_ es
    rintro e a m m' rfl rfl hok hm ⟨hs, hon⟩
    refine ⟨hm.forall_session hs fun i o s' w' hc ho => hc.probeable hcfg ho, hon.trans ?_⟩
    cases hm with
    | session i o o' st' w' ho hc _ =>
      exact hc.onIface hcfg fun s ho' => ⟨hs i s (ho.trans ho'), hok.matched i s (ho.trans ho')⟩
    | world w' he => exact he.onIface
  obtain ⟨hs, new, hnew, hon⟩ := hrun
  refine ⟨hs, new, hnew, fun en hen => ⟨?_, ?_⟩⟩
  · intro i f tgt sent h
    have := hon en hen
    rw [Entry.OnIface, h] at this
    exact this
  · intro i f dst dstLl tgt tgtLl router sent h
    have := hon en hen
    rw [Entry.OnIface, h] at this
    exact this

/-- The small network, with rules in the mode `iface`, starts. -/
theorem Small.started : (daemon ifaceRule).cfg.Started := by
  have hfresh : (daemon ifaceRule).cfg.freshRule = 2 := by decide +kernel
  have hall : ∀ r < 2, let c := (daemon ifaceRule).cfg
      (c.rule r).mode ≠ .unknown ∧ (c.proxy (c.rule r).proxy).iface.isSome = true ∧
        ((c.rule r).iface.isSome = true ↔ (c.rule r).mode = .iface) := by
    decide +kernel
  have hrule : ∀ p, ∀ r ∈ ((daemon ifaceRule).cfg.proxy p).rules,
      r < 2 ∧ ((daemon ifaceRule).cfg.rule r).proxy = p := fun p r hr =>
    ⟨hfresh ▸ (daemon ifaceRule).cfg.rules_lt p r hr, (daemon ifaceRule).cfg.linked p r hr⟩
  constructor
  · intro p r hr
    exact (hall r (hrule p r hr).1).1
  · intro p r hr
    obtain ⟨hlt, rfl⟩ := hrule p r hr
    exact (hall r hlt).2.1
  · intro p r hr
    exact (hall r (hrule p r hr).1).2.2

/-- A session of the small network is probed, on the third interface. -/
theorem Daemon.run_onIface_small :
    (Small.daemon Small.ifaceRule).cfg.Started ∧
    ((init Small.conf (Small.daemon Small.ifaceRule).cfg
      (Small.daemon Small.ifaceRule).mem.world).run
        [Small.event 0 (.ns 0 1 2 (some 3))]).mem.world.packets.map Entry.act =
      [.ns 0 (some 1) 2 true] ∧
    ∀ i s, ((init Small.conf (Small.daemon Small.ifaceRule).cfg
      (Small.daemon Small.ifaceRule).mem.world).run
        [Small.event 0 (.ns 0 1 2 (some 3))]).mem.store.session i = some s →
      s.state = .incomplete ∨ s.state = .stale → s.iface.isSome :=
  ⟨Small.started, by decide +kernel, (run_onIface _ _ _ _ Small.started).1⟩

end Ndppd
