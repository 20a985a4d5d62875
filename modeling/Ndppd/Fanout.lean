import Ndppd.Evidence

/-!
# Advertisements and their sessions

Several sessions may wait for the same advertisement: those of two proxies for
one target, or of two targets that are rewritten to the same one. An
advertisement should reach all of them, and their subscribers (`FansOut`).
`nd_session_find_r` returns one session, the newest one, so it reaches the others
only if they have nothing to learn from it. And the subscribers of the session that
is found are dropped whether they can be answered or not (`Daemon.fansOut_iff`).
-/

namespace Ndppd

variable {e : Env} {st : Store} {m m' : Mem} {i j : SessionId} {f : IfaceId} {tgt : Addr}
  {s s' : Session} {w w' : World} {a : Action}

/-- The lookup by rewritten target finds the newest session. -/
theorem le_of_ndSessionFindR (hst : e.Ok st) (h : ndSessionFindR e tgt f st = some i)
    (hs : st.session j = some s) (ha : s.Awaits f tgt) : j ≤ i := by
  rw [ndSessionFindR_eq hst, List.find?_eq_some_iff_append] at h
  obtain ⟨-, newer, older, hl, hnewer⟩ := h
  have hj : j ∈ st.bucketR (ndlBucket e.conf tgt) :=
    (hst.byTgtR.mem_iff _ j).2 ⟨s, hs, by rw [ha.2]⟩
  have hsorted : (st.bucketR (ndlBucket e.conf tgt)).Pairwise (· > ·) := hst.byTgtR.sorted _
  rw [hl] at hj hsorted
  rcases List.mem_append.1 hj with hj | hj
  · exact absurd (hnewer j hj) (by simp [hs, ha])
  · rcases List.mem_cons.1 hj with rfl | hj
    · exact le_rfl
    · exact (List.rel_of_pairwise_cons (List.pairwise_append.1 hsorted).2.1 hj).le

/-! ## Valid sessions have no subscribers -/

theorem NaCase.subs (h : NaCase e i s w s' w') (hs : s.state = .valid → s.subs = []) :
    s'.subs = [] := by
  cases h with
  | refreshed hv => exact hs hv
  | validated => rfl

theorem Change.subs_of_valid {o : Option Session} (h : Change e i w a o (some s') w')
    (ho : ∀ s, o = some s → s.state = .valid → s.subs = []) (hv : s'.state = .valid) :
    s'.subs = [] := by
  cases h with
  | created _ _ hstart hns =>
    obtain ⟨hvs, rfl⟩ := hns.valid hv
    obtain ⟨rfl, -⟩ := hstart.valid (by simp [newSession]) hvs
    rfl
  | solicited _ hns =>
    obtain ⟨hvs, rfl⟩ := hns.valid hv
    exact (ho _ rfl hvs :)
  | advertised _ _ hna => exact hna.subs (ho _ rfl)
  | updated hu =>
    obtain ⟨hvs, ⟨rfl, -⟩ | ⟨rfl, -⟩⟩ := hu.valid hv
    · exact (ho _ rfl hvs :)
    · exact (ho _ rfl hvs :)
  | forgotten => exact (ho _ rfl hv :)
  | @rewired s hvs =>
    obtain ⟨b, hb⟩ := ndLUp_fst e i s w
    rw [hb]
    exact (ho _ rfl hvs :)

theorem Daemon.run_subs_of_valid (conf : Conf) (cfg : Config) (w : World) (es : List Event) :
    ∀ i s, ((init conf cfg w).run es).mem.store.session i = some s → s.state = .valid →
      s.subs = [] :=
  run_sessions (P := fun s => s.state = .valid → s.subs = [])
    (fun _ _ _ _ _ _ _ _ _ hc ho hv => hc.subs_of_valid ho hv) es

/-! ## Reaching all sessions -/

/-- What an advertisement for `tgt` on the interface `f` should do: the sessions
    that await it become valid, their subscribers are answered, and no other
    session changes. -/
structure FansOut (e : Env) (f : IfaceId) (tgt : Addr) (m m' : Mem) : Prop where
  validated : ∀ i s, m.store.session i = some s → s.Awaits f tgt →
    ∃ s', m'.store.session i = some s' ∧ s'.state = .valid ∧ s'.stateTime = e.now ∧ s'.subs = []
  answered : ∃ new, m'.world.packets = new ++ m.world.packets ∧
    ∀ i s, m.store.session i = some s → s.Awaits f tgt → ∀ sub ∈ s.subs, ∃ act,
      act.IsAnswer i (e.proxyOf s).iface sub s.tgt ∧ ⟨e.now, act⟩ ∈ new
  frame : ∀ i, (∀ s, m.store.session i = some s → ¬s.Awaits f tgt) →
    m'.store.session i = m.store.session i

/-- The session that is found becomes valid, and the others do not change. -/
theorem ndLHandleNa_cases (h : e.Ok m.store) {icmp : List U8} (ht : naTarget icmp = some tgt) :
    (ndLHandleNa e f icmp m = m ∧ ∀ i s, m.store.session i = some s → ¬s.Awaits f tgt) ∨
      ∃ i s s' w', m.store.session i = some s ∧ s.Awaits f tgt ∧
        (∀ j t, m.store.session j = some t → t.Awaits f tgt → j ≤ i) ∧
        NaCase e i s m.world s' w' ∧
        ndLHandleNa e f icmp m = { store := m.store.set i s', world := w' } := by
  cases hi : ndSessionFindR e tgt f m.store with
  | none => exact .inl ⟨by simp only [ndLHandleNa, ht, hi], of_ndSessionFindR_eq_none h hi⟩
  | some i =>
    obtain ⟨s, hs, ha⟩ := of_ndSessionFindR_eq_some hi
    refine .inr ⟨i, s, _, _, hs, ha, fun j t => le_of_ndSessionFindR h hi, naCase e i s m.world, ?_⟩
    simp only [ndLHandleNa, ht, hi, m.withSession_eq _ hs]

/-- The sessions that await an advertisement, except for the newest one, have nothing to learn
    from it. -/
def Mem.Learned (m : Mem) (now : ℤ) (f : IfaceId) (tgt : Addr) : Prop :=
  ∀ i j s t, m.store.session i = some s → m.store.session j = some t → s.Awaits f tgt →
    t.Awaits f tgt → i < j → s.state = .valid ∧ s.stateTime = now

/-- The subscribers of the sessions that await an advertisement can be answered: the interfaces
    of the proxies are there, and the kernel takes the answers. -/
def Mem.Answerable (m : Mem) (cfg : Config) (k : Kernel) (f : IfaceId) (tgt : Addr) : Prop :=
  ∀ i s, m.store.session i = some s → s.Awaits f tgt → ∀ sub ∈ s.subs,
    m.world.Transmits k (cfg.proxy (cfg.rule s.rule).proxy).iface
      (.na sub.addr sub.lladdr s.tgt)

/-- An older session does not change. -/
theorem FansOut.learned {st : Store} (h : FansOut e f tgt m { store := st.set j s', world := w' })
    (hst : st = m.store)
    (hmax : ∀ i s, m.store.session i = some s → s.Awaits f tgt → i ≤ j) :
    m.Learned e.now f tgt := by
  subst hst
  intro i i' s t hs ht ha hat hi
  have hij : i ≠ j := (hi.trans_le (hmax i' t ht hat)).ne
  obtain ⟨s'', hs'', hv, htime, -⟩ := h.validated i s hs ha
  have hss' : m.store.session i = some s'' := (m.store.set_session_of_ne s' hij).symm.trans hs''
  obtain rfl : s = s'' := Option.some.inj (hs.symm.trans hss')
  exact ⟨hv, htime⟩

/-- The advertisements to the subscribers of a session answer those of them who can be. -/
theorem exists_isAnswer_iff {sub : Sub} (hsub : sub ∈ s.subs) :
    (∃ act, act.IsAnswer i (e.proxyOf s).iface sub s.tgt ∧ ⟨e.now, act⟩ ∈ subEntries e i s w) ↔
      w.Transmits e.kernel (e.proxyOf s).iface (.na sub.addr sub.lladdr s.tgt) := by
  constructor
  · rintro ⟨act, hact, hmem⟩
    obtain ⟨sub', -, heq⟩ := mem_subEntries.1 hmem
    rw [(Entry.mk.inj heq).2, naAct_isAnswer_iff] at hact
    obtain ⟨⟨-, -, rfl, -⟩, htransmits⟩ := hact
    exact htransmits
  · exact fun h => ⟨_, naAct_isAnswer_iff.2 ⟨⟨rfl, rfl, rfl, rfl⟩, h⟩,
      mem_subEntries.2 ⟨sub, hsub, rfl⟩⟩

section Newest

variable {k : SessionId} {u u' : Session}
  (hsubs : ∀ i s, m.store.session i = some s → s.state = .valid → s.subs = [])
  (hu : m.store.session k = some u) (hau : u.Awaits f tgt)
  (hmax : ∀ i s, m.store.session i = some s → s.Awaits f tgt → i ≤ k)

include hsubs hu hau hmax

/-- Where the others have nothing to learn, they have no subscribers. -/
theorem Mem.Learned.of_ne (hold : m.Learned e.now f tgt) (hs : m.store.session i = some s)
    (ha : s.Awaits f tgt) (hik : i ≠ k) :
    s.state = .valid ∧ s.stateTime = e.now ∧ s.subs = [] := by
  obtain ⟨hv, htime⟩ := hold i k s u hs hu ha hau (lt_of_le_of_ne (hmax i s hs ha) hik)
  exact ⟨hv, htime, hsubs i s hs hv⟩

/-- So a subscriber is one of the newest session, which is not valid. -/
theorem Mem.Learned.eq_of_mem (hold : m.Learned e.now f tgt) (hs : m.store.session i = some s)
    (ha : s.Awaits f tgt) {sub : Sub} (hsub : sub ∈ s.subs) :
    (i = k ∧ s = u) ∧ u.state ≠ .valid := by
  obtain rfl : i = k := by
    by_contra hik
    rw [(hold.of_ne hsubs hu hau hmax hs ha hik).2.2] at hsub
    exact absurd hsub List.not_mem_nil
  obtain rfl : s = u := Option.some.inj (hs.symm.trans hu)
  refine ⟨⟨rfl, rfl⟩, fun hv => ?_⟩
  rw [hsubs i s hs hv] at hsub
  exact absurd hsub List.not_mem_nil

/-- The subscribers are those of the newest session, so that they were answerable if all of
    them have been answered. -/
theorem FansOut.answerable (hna : NaCase e k u m.world u' w')
    (hf : FansOut e f tgt m { store := m.store.set k u', world := w' }) :
    m.Answerable e.cfg e.kernel f tgt := by
  intro i s hs ha sub hsub
  obtain ⟨⟨rfl, rfl⟩, hv⟩ := (hf.learned rfl hmax).eq_of_mem hsubs hu hau hmax hs ha hsub
  obtain ⟨new, hp, hnew⟩ := hf.answered
  have hp' := hna.packets.resolve_left fun h => hv h.1
  obtain rfl := List.append_cancel_right (hp.symm.trans hp')
  exact (exists_isAnswer_iff hsub).1 (hnew i s hs ha sub hsub)

/-- The newest session becomes valid and its subscribers are answered, and there is nothing to
    do for the others. -/
theorem NaCase.fansOut (hna : NaCase e k u m.world u' w') (hold : m.Learned e.now f tgt)
    (hanswerable : m.Answerable e.cfg e.kernel f tgt) :
    FansOut e f tgt m { store := m.store.set k u', world := w' } := by
  have hanswered : ∀ new, (u.state = .valid ∨ new = subEntries e k u m.world) →
      ∀ i s, m.store.session i = some s → s.Awaits f tgt → ∀ sub ∈ s.subs, ∃ act,
        act.IsAnswer i (e.proxyOf s).iface sub s.tgt ∧ ⟨e.now, act⟩ ∈ new := by
    intro new hnew i s hs ha sub hsub
    obtain ⟨⟨rfl, rfl⟩, hv⟩ := hold.eq_of_mem hsubs hu hau hmax hs ha hsub
    rw [hnew.resolve_left hv]
    exact (exists_isAnswer_iff hsub).2 (hanswerable i s hs ha sub hsub)
  refine ⟨fun i s hs ha => ?_, ?_, fun i hi => ?_⟩
  · by_cases hik : i = k
    · subst hik
      exact ⟨u', m.store.set_session_self i u', hna.valid, hna.stateTime, hna.subs (hsubs i u hu)⟩
    · exact ⟨s, (m.store.set_session_of_ne u' hik).trans hs,
        hold.of_ne hsubs hu hau hmax hs ha hik⟩
  · rcases hna.packets with ⟨hv, hp⟩ | hp
    · exact ⟨[], hp, hanswered [] (.inl hv)⟩
    · exact ⟨_, hp, hanswered _ (.inr rfl)⟩
  · have hik : i ≠ k := by rintro rfl; exact hi u hu hau
    exact m.store.set_session_of_ne u' hik

end Newest

/-- An advertisement reaches all the sessions that await it and their subscribers if and only if
    all the sessions except for the newest one are valid already, with a timer that started at
    the same time, and the subscribers can be answered. -/
theorem fansOut_ndLHandleNa_iff (h : e.Ok m.store)
    (hsubs : ∀ i s, m.store.session i = some s → s.state = .valid → s.subs = []) {icmp : List U8}
    (ht : naTarget icmp = some tgt) : FansOut e f tgt m (ndLHandleNa e f icmp m) ↔
      m.Learned e.now f tgt ∧ m.Answerable e.cfg e.kernel f tgt := by
  rcases ndLHandleNa_cases (f := f) h ht with ⟨hm, hnone⟩ | ⟨k, u, u', w', hu, hau, hmax, hna, hm⟩
  · -- No session awaits it, and nothing happens.
    rw [hm]
    refine iff_of_true ⟨?_, ⟨[], rfl, ?_⟩, fun i _ => rfl⟩ ⟨?_, ?_⟩
    · exact fun i s hs ha => absurd ha (hnone i s hs)
    · exact fun i s hs ha => absurd ha (hnone i s hs)
    · exact fun i j s t hs _ ha => absurd ha (hnone i s hs)
    · exact fun i s hs ha => absurd ha (hnone i s hs)
  · rw [hm]
    constructor
    · exact fun hf => ⟨hf.learned rfl hmax, hf.answerable hsubs hu hau hmax hna⟩
    · exact fun hcond => hna.fansOut hsubs hu hau hmax hcond.1 hcond.2

/-- In every state reached, an advertisement reaches all the sessions that await
    it and their subscribers if and only if all the sessions except for the newest one
    are valid already, with a timer that started at the same time, and the subscribers
    can be answered on the interfaces of the proxies. -/
theorem Daemon.fansOut_iff (conf : Conf) (cfg : Config) (w : World) (es : List Event) (time : ℤ)
    (kernel : Kernel) (f : IfaceId) (icmp : List U8) (tgt : Addr)
    (ht : naTarget icmp = some tgt) :
    let d := (init conf cfg w).run es
    let ev : Event := ⟨time, kernel, .rxNa f icmp⟩
    FansOut (d.env ev) f tgt d.mem (d.step ev).mem ↔
      d.mem.Learned time f tgt ∧ d.mem.Answerable cfg kernel f tgt := by
  intro d ev
  have hcfg : (d.env ev).cfg = cfg := by rw [env_cfg, run_cfg, init_cfg]
  have hiff := fansOut_ndLHandleNa_iff (f := f) (run_ok conf cfg w es ev)
    (run_subs_of_valid conf cfg w es) ht
  rw [step_mem, stepMem]
  rwa [hcfg] at hiff

namespace Small

/-- The target `::9` is asked for on both sides: there are two sessions, which
    probe the third interface. -/
def asked : Daemon :=
  (daemon ifaceRule).run [event 0 (.rxNs 2 1 (message 9) 3), event 5 (.rxNs 0 4 (message 9) 5)]

/-- The target answers: the session of the first proxy is still incomplete, and
    its subscriber still waits. -/
theorem asked_not_fansOut :
    ¬FansOut (asked.env (event 20 (.rxNa 1 (message 9)))) 1 9 asked.mem
      (asked.step (event 20 (.rxNa 1 (message 9)))).mem := by
  intro h
  have hbefore : (asked.mem.store.session 0).any (fun s => s.Awaits 1 9) = true := by
    decide +kernel
  have hafter : ((asked.step (event 20 (.rxNa 1 (message 9)))).mem.store.session 0).any
      (fun s => s.state = .incomplete ∧ s.subs = [⟨1, 3⟩]) = true := by
    decide +kernel
  obtain ⟨s, hs, ha⟩ := (Option.any_eq_true _ _).1 hbefore
  obtain ⟨s', hs', hi⟩ := (Option.any_eq_true _ _).1 hafter
  obtain ⟨s'', hs'', hv, -⟩ := h.validated 0 s hs (of_decide_eq_true ha)
  obtain rfl : s' = s'' := Option.some.inj (hs'.symm.trans hs'')
  exact absurd ((of_decide_eq_true hi).1.symm.trans hv) (by simp)

/-- The target is asked for on one side. -/
def askedOnce : List Event := [event 0 (.rxNs 2 1 (message 9) 3)]

/-- There is one session, which the advertisement reaches. -/
theorem askedOnce_fansOut :
    naTarget (message 9) = some 9 ∧
    ((Daemon.init conf (daemon ifaceRule).cfg (daemon ifaceRule).mem.world).run
      askedOnce).mem.store.fresh = 1 ∧
    FansOut
      (((Daemon.init conf (daemon ifaceRule).cfg (daemon ifaceRule).mem.world).run askedOnce).env
        ⟨20, kernel, .rxNa 1 (message 9)⟩) 1 9
      ((Daemon.init conf (daemon ifaceRule).cfg (daemon ifaceRule).mem.world).run askedOnce).mem
      (((Daemon.init conf (daemon ifaceRule).cfg (daemon ifaceRule).mem.world).run askedOnce).step
        ⟨20, kernel, .rxNa 1 (message 9)⟩).mem := by
  have ht : naTarget (message 9) = some 9 := by decide +kernel
  have hfresh : ((Daemon.init conf (daemon ifaceRule).cfg (daemon ifaceRule).mem.world).run
      askedOnce).mem.store.fresh = 1 := by decide +kernel
  refine ⟨ht, hfresh, (Daemon.fansOut_iff conf _ _ askedOnce 20 kernel 1 (message 9) 9 ht).2
    ⟨fun i j s t _ ht _ _ hij => ?_, fun i s hs _ sub _ => ?_⟩⟩
  · have hj := (Daemon.run_wellFormed conf _ _ askedOnce).before j t ht
    rw [hfresh] at hj
    exact absurd (Nat.lt_of_lt_of_le hij (Nat.le_of_lt_succ hj)) (Nat.not_lt_zero i)
  · have hi := (Daemon.run_wellFormed conf _ _ askedOnce).before i s hs
    rw [hfresh, Nat.lt_one_iff] at hi
    subst hi
    -- The session is one of the first proxy, whose interface is the third one opened.
    have hproxy : (((Daemon.init conf (daemon ifaceRule).cfg (daemon ifaceRule).mem.world).run
        askedOnce).mem.store.session 0).any (fun s => ((daemon ifaceRule).cfg.proxy
          ((daemon ifaceRule).cfg.rule s.rule).proxy).iface = some 2) = true := by decide +kernel
    rw [hs, Option.any_some] at hproxy
    exact ⟨2, of_decide_eq_true hproxy, by decide +kernel, rfl⟩

end Small

end Ndppd
