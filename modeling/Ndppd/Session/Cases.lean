import Ndppd.Proxy

/-!
# What a call does to a session

The transitions of a session, said once: for each call of the session layer on
a session, the cases of its result, with what holds in each of them. The other
modules reason on these cases, not on the code.

* `NsCase`: an incoming solicitation (`ndSessionHandleNs`);
* `NaCase`: an advertisement (`ndSessionHandleNa`);
* `StartCase`: creation (`startSession`);
* `UpdateCase`: the timers (`updateSession`);
* `ifaceChanged_cases`: a change of the interface of the session.

None of them changes the rule or the targets of the session (`Session.SameKey`).
-/

namespace Ndppd

/-- `s` and `s'` have the same rule and targets. -/
structure Session.SameKey (s s' : Session) : Prop where
  rule : s'.rule = s.rule
  tgt : s'.tgt = s.tgt
  tgtR : s'.tgtR = s.tgtR

theorem Session.SameKey.refl (s : Session) : s.SameKey s := ⟨rfl, rfl, rfl⟩

theorem Session.SameKey.trans {s s' s'' : Session} (h : s.SameKey s') (h' : s'.SameKey s'') :
    s.SameKey s'' :=
  ⟨h'.rule.trans h.rule, h'.tgt.trans h.tgt, h'.tgtR.trans h.tgtR⟩

variable {e : Env} {i : SessionId} {src : Addr} {srcLl : Option LlAddr} {s s' : Session}
  {w w' : World}

/-! ## Solicitations -/

/-- The result of `ndSessionHandleNs`. -/
inductive NsCase (e : Env) (i : SessionId) (src : Addr) (srcLl : Option LlAddr) (s : Session)
    (w : World) : Session → World → Prop
  /-- The session is valid: the solicitation is answered. -/
  | answered : s.state = .valid →
      NsCase e i src srcLl s w { s with insTime := e.now } (answerNs e i src srcLl s w)
  /-- There is nobody to answer to later, or there are too many already. -/
  | dropped : s.state ≠ .valid →
      (∀ ll, srcLl = some ll → queueSub e.conf.byteOrder src ll s.subs = none) →
      NsCase e i src srcLl s w { s with insTime := e.now } w
  /-- The source is queued. (An interface may have failed to open.) -/
  | queued (ll : LlAddr) (subs : List Sub) (w' : World) : s.state ≠ .valid → srcLl = some ll →
      queueSub e.conf.byteOrder src ll s.subs = some subs →
      (w' = w ∨ openRoute e (e.ruleOf s) s.tgt w = (none, w')) →
      NsCase e i src srcLl s w { s with insTime := e.now, subs := subs } w'
  /-- The source is queued, and there is a route now: the session starts over. -/
  | resumed (ll : LlAddr) (subs : List Sub) (f : IfaceId) (w' : World) : s.state = .invalid →
      s.iface = none → (e.ruleOf s).mode = .auto → srcLl = some ll →
      queueSub e.conf.byteOrder src ll s.subs = some subs →
      openRoute e (e.ruleOf s) s.tgt w = (some f, w') →
      NsCase e i src srcLl s w
        { s with insTime := e.now, subs := subs, iface := some f, state := .incomplete,
                 stateTime := e.now, onsCount := 1, onsTime := e.now }
        (ndIfaceSendNs e i (some f) s.tgtR w')
  /-- The source is queued, and the session, which is stale, is probed. -/
  | probed (ll : LlAddr) (subs : List Sub) : s.state = .stale → s.iface.isSome →
      e.now - s.onsTime ≥ e.conf.retransTime → srcLl = some ll →
      queueSub e.conf.byteOrder src ll s.subs = some subs →
      NsCase e i src srcLl s w
        { s with insTime := e.now, subs := subs, onsTime := e.now,
                 onsCount := if s.onsCount = 0 then 1 else s.onsCount }
        (ndIfaceSendNs e i s.iface s.tgtR w)

/-- There is still no route: the session stays without an interface. -/
theorem recheckRoute_closed
    (h : s.state = .invalid ∧ s.iface = none ∧ (e.ruleOf s).mode = .auto)
    (ho : openRoute e (e.ruleOf s) s.tgt w = (none, w')) : recheckRoute e i s w = (s, w') := by
  simp only [recheckRoute, if_pos h, ho]

/-- There is a route by now: its interface is opened, and the session is probed. -/
theorem recheckRoute_opened {f : IfaceId}
    (h : s.state = .invalid ∧ s.iface = none ∧ (e.ruleOf s).mode = .auto)
    (ho : openRoute e (e.ruleOf s) s.tgt w = (some f, w')) : recheckRoute e i s w =
      ({ s with iface := some f, state := .incomplete, stateTime := e.now, onsCount := 1,
                onsTime := e.now }, ndIfaceSendNs e i (some f) s.tgtR w') := by
  simp only [recheckRoute, if_pos h, ho]

theorem probeStale_of_not
    (h : ¬(s.state = .stale ∧ s.iface.isSome ∧ e.now - s.onsTime ≥ e.conf.retransTime)) :
    probeStale e i s w = (s, w) :=
  if_neg h

/-- A stale session is probed again once the interval is over. -/
theorem probeStale_of
    (h : s.state = .stale ∧ s.iface.isSome ∧ e.now - s.onsTime ≥ e.conf.retransTime) :
    probeStale e i s w =
      ({ s with onsCount := if s.onsCount = 0 then 1 else s.onsCount, onsTime := e.now },
        ndIfaceSendNs e i s.iface s.tgtR w) :=
  if_pos h

/-- A solicitation for a session does one of these things. -/
theorem nsCase (e : Env) (i : SessionId) (src : Addr) (srcLl : Option LlAddr) (s : Session)
    (w : World) :
    NsCase e i src srcLl s w (ndSessionHandleNs e i src srcLl s w).1
      (ndSessionHandleNs e i src srcLl s w).2 := by
  by_cases hv : s.state = .valid
  · rw [show ndSessionHandleNs e i src srcLl s w =
      ({ s with insTime := e.now }, answerNs e i src srcLl s w) from if_pos hv]
    exact .answered hv
  cases srcLl with
  | none =>
    rw [show ndSessionHandleNs e i src none s w = ({ s with insTime := e.now }, w) from if_neg hv]
    exact .dropped hv fun _ h => absurd h (by simp)
  | some ll =>
    cases hq : queueSub e.conf.byteOrder src ll s.subs with
    | none =>
      rw [show ndSessionHandleNs e i src (some ll) s w = ({ s with insTime := e.now }, w) by
        rw [ndSessionHandleNs, if_neg hv]; simp only [hq]]
      exact .dropped hv fun _ h => by rw [← Option.some.inj h]; exact hq
    | some subs =>
      let q : Session := { s with insTime := e.now, subs := subs }
      rw [show ndSessionHandleNs e i src (some ll) s w = probeStale e i
          (recheckRoute e i q w).1 (recheckRoute e i q w).2 by
        rw [ndSessionHandleNs, if_neg hv]; simp only [hq, q]]
      by_cases hr : s.state = .invalid ∧ s.iface = none ∧ (e.ruleOf s).mode = .auto
      · -- The route is checked again; a session that starts over is not stale.
        obtain ⟨o, w', ho⟩ : ∃ o w', openRoute e (e.ruleOf s) s.tgt w = (o, w') := ⟨_, _, rfl⟩
        cases o with
        | none =>
          rw [recheckRoute_closed (s := q) hr ho,
            probeStale_of_not (s := q) fun h => by simp [q, hr.1] at h]
          exact .queued ll subs w' hv rfl hq (.inr ho)
        | some f =>
          rw [recheckRoute_opened (s := q) hr ho, probeStale_of_not fun h => by simp at h]
          exact .resumed ll subs f w' hr.1 hr.2.1 hr.2.2 rfl hq ho
      · rw [show recheckRoute e i q w = (q, w) from if_neg hr]
        by_cases hp : s.state = .stale ∧ s.iface.isSome ∧ e.now - s.onsTime ≥ e.conf.retransTime
        · rw [probeStale_of (s := q) hp]
          exact .probed ll subs hp.1 hp.2.1 hp.2.2 rfl hq
        · rw [probeStale_of_not (s := q) hp]
          exact .queued ll subs w hv rfl hq (.inl rfl)

/-- None of them changes what the session is found by. -/
theorem NsCase.sameKey (h : NsCase e i src srcLl s w s' w') : s.SameKey s' := by
  cases h <;> exact ⟨rfl, rfl, rfl⟩

/-! ## Advertisements -/

/-- The result of `ndSessionHandleNa`. -/
inductive NaCase (e : Env) (i : SessionId) (s : Session) (w : World) : Session → World → Prop
  /-- The session is valid: its timer starts again. -/
  | refreshed : s.state = .valid → NaCase e i s w { s with stateTime := e.now } w
  /-- The subscribers are answered, and the session becomes valid. -/
  | validated (b : Bool) (w' : World) : s.state ≠ .valid →
      ndLUp e i { s with subs := [] } (sendSubs e i s w) =
        ({ s with subs := [], autowired := b }, w') →
      NaCase e i s w { s with subs := [], autowired := b, state := .valid, stateTime := e.now } w'

/-- `ndLUp` only sets the flag of the session. -/
theorem ndLUp_fst (e : Env) (i : SessionId) (s : Session) (w : World) :
    ∃ b, (ndLUp e i s w).1 = { s with autowired := b } := by
  rw [ndLUp]
  split
  · split
    exacts [⟨true, rfl⟩, ⟨s.autowired, rfl⟩]
  · exact ⟨s.autowired, rfl⟩

/-- An advertisement for a session does one of these things. -/
theorem naCase (e : Env) (i : SessionId) (s : Session) (w : World) :
    NaCase e i s w (ndSessionHandleNa e i s w).1 (ndSessionHandleNa e i s w).2 := by
  by_cases hv : s.state = .valid
  · rw [show ndSessionHandleNa e i s w = ({ s with stateTime := e.now }, w) from if_pos hv]
    exact .refreshed hv
  · obtain ⟨b, hb⟩ := ndLUp_fst e i { s with subs := [] } (sendSubs e i s w)
    have hup : ndLUp e i { s with subs := [] } (sendSubs e i s w) =
        ({ s with subs := [], autowired := b },
          (ndLUp e i { s with subs := [] } (sendSubs e i s w)).2) := Prod.ext hb rfl
    have := NaCase.validated b _ hv hup
    rw [ndSessionHandleNa, if_neg hv]
    dsimp only
    rw [hb]
    exact this

theorem NaCase.sameKey (h : NaCase e i s w s' w') : s.SameKey s' := by
  cases h <;> exact ⟨rfl, rfl, rfl⟩

/-! ## Creation -/

/-- The result of `startSession`. -/
inductive StartCase (e : Env) (i : SessionId) (s : Session) (w : World) : Session → World → Prop
  /-- There is no route to the target, or its interface does not open. -/
  | unrouted (w' : World) : (e.ruleOf s).mode = .auto →
      openRoute e (e.ruleOf s) s.tgt w = (none, w') →
      StartCase e i s w { s with state := .invalid } w'
  /-- There is a route to the target, which is probed. -/
  | routed (f : IfaceId) (w' : World) : (e.ruleOf s).mode = .auto →
      openRoute e (e.ruleOf s) s.tgt w = (some f, w') →
      StartCase e i s w (firstProbe e i f s w').1 (firstProbe e i f s w').2
  /-- The target is an own address. -/
  | own : (e.ruleOf s).mode = .iface → ownAddr e (e.ruleOf s) s.tgtR w →
      StartCase e i s w { s with state := .valid } w
  /-- The target is probed on the interface of the rule. -/
  | probed (f : IfaceId) : (e.ruleOf s).mode ≠ .auto →
      ¬((e.ruleOf s).mode = .iface ∧ ownAddr e (e.ruleOf s) s.tgtR w) →
      (e.ruleOf s).iface = some f →
      StartCase e i s w (firstProbe e i f s { w with net := w.net.addRef f }).1
        (firstProbe e i f s { w with net := w.net.addRef f }).2
  /-- A static rule. -/
  | static : (e.ruleOf s).mode = .static → (e.ruleOf s).iface = none →
      StartCase e i s w { s with state := .valid } w
  /-- A rule which names no interface and is neither static nor automatic. -/
  | stuck : (e.ruleOf s).mode ≠ .auto → (e.ruleOf s).mode ≠ .static → (e.ruleOf s).iface = none →
      StartCase e i s w s w

/-- A session that has been created starts in one of these ways. -/
theorem startCase (e : Env) (i : SessionId) (s : Session) (w : World) :
    StartCase e i s w (startSession e i s w).1 (startSession e i s w).2 := by
  by_cases ha : (e.ruleOf s).mode = .auto
  · obtain ⟨o, w', ho⟩ : ∃ o w', openRoute e (e.ruleOf s) s.tgt w = (o, w') := ⟨_, _, rfl⟩
    cases o with
    | none =>
      rw [show startSession e i s w = ({ s with state := .invalid }, w') by
        simp only [startSession, ha, if_true, ho]]
      exact .unrouted w' ha ho
    | some f =>
      rw [show startSession e i s w = firstProbe e i f s w' by
        simp only [startSession, ha, if_true, ho]]
      exact .routed f w' ha ho
  by_cases ho : (e.ruleOf s).mode = .iface ∧ ownAddr e (e.ruleOf s) s.tgtR w
  · rw [show startSession e i s w = ({ s with state := .valid }, w) by
      simp only [startSession, if_neg ha, if_pos ho]]
    exact .own ho.1 ho.2
  cases hf : (e.ruleOf s).iface with
  | some f =>
    rw [show startSession e i s w = firstProbe e i f s { w with net := w.net.addRef f } by
      simp only [startSession, if_neg ha, if_neg ho, hf]]
    exact .probed f ha ho hf
  | none =>
    by_cases hs : (e.ruleOf s).mode = .static
    · rw [show startSession e i s w = ({ s with state := .valid }, w) by
        simp only [startSession, if_neg ha, if_neg ho, hf, if_pos hs]]
      exact .static hs hf
    · rw [show startSession e i s w = (s, w) by
        simp only [startSession, if_neg ha, if_neg ho, hf, if_neg hs]]
      exact .stuck ha hs hf

theorem StartCase.sameKey (h : StartCase e i s w s' w') : s.SameKey s' := by
  cases h <;> exact ⟨rfl, rfl, rfl⟩

/-! ## Timers -/

/-- The interface of a session is waiting: it is absent from the kernel. -/
def Session.Waiting (s : Session) (w : World) : Prop :=
  ∃ f, s.iface = some f ∧ (w.net.iface f).up = false

/-- The result of `updateSession`. -/
inductive UpdateCase (e : Env) (i : SessionId) (s : Session) (w : World) :
    Option Session → World → Prop
  /-- No timer has run out. -/
  | idle : (s.state = .incomplete → ¬s.Waiting w ∧ e.now - s.onsTime < e.conf.retransTime) →
      (s.state = .invalid → e.now - s.stateTime < e.conf.invalidTtl) →
      (s.state = .valid → e.now - s.stateTime < e.conf.validTtl) →
      (s.state = .stale → e.now - s.stateTime < e.conf.staleTtl) → UpdateCase e i s w (some s) w
  /-- The interface is waiting: the probes are held. -/
  | held : s.state = .incomplete → s.Waiting w → e.now - s.stateTime < e.conf.invalidTtl →
      UpdateCase e i s w (some { s with onsTime := e.now }) w
  /-- The interface has been waiting for too long. -/
  | released : s.state = .incomplete → s.Waiting w → e.conf.invalidTtl ≤ e.now - s.stateTime →
      UpdateCase e i s w (some { s with state := .invalid, stateTime := e.now }) w
  /-- The target does not answer the probes. -/
  | gaveUp : s.state = .incomplete → ¬s.Waiting w → e.conf.retransTime ≤ e.now - s.onsTime →
      e.conf.retransLimit < s.onsCount + 1 →
      UpdateCase e i s w
        (some { s with onsCount := s.onsCount + 1, state := .invalid, stateTime := e.now }) w
  /-- The probe is sent again. -/
  | retransmitted : s.state = .incomplete → ¬s.Waiting w → e.conf.retransTime ≤ e.now - s.onsTime →
      s.onsCount + 1 ≤ e.conf.retransLimit →
      UpdateCase e i s w (some { s with onsCount := s.onsCount + 1 })
        (ndIfaceSendNs e i s.iface s.tgtR w)
  /-- The session is deleted. -/
  | deleted : s.state = .invalid → e.conf.invalidTtl ≤ e.now - s.stateTime →
      UpdateCase e i s w none (s.iface.elim (ndLDown e i s w).2 fun f =>
        ndIfaceClose e f (ndLDown e i s w).2)
  /-- There is nothing to probe, and the target is still answered for. -/
  | renewed : s.state = .valid → e.conf.validTtl ≤ e.now - s.stateTime → s.iface = none →
      ((e.ruleOf s).mode = .static ∨ ownAddr e (e.ruleOf s) s.tgtR w) →
      UpdateCase e i s w (some { s with stateTime := e.now }) w
  /-- There is nothing to probe, and the address is not an own one any more. -/
  | disowned : s.state = .valid → e.conf.validTtl ≤ e.now - s.stateTime → s.iface = none →
      ¬((e.ruleOf s).mode = .static ∨ ownAddr e (e.ruleOf s) s.tgtR w) →
      UpdateCase e i s w (some { s with state := .invalid, stateTime := e.now }) w
  /-- The session has been valid for too long: it is probed. -/
  | staleProbed : s.state = .valid → e.conf.validTtl ≤ e.now - s.stateTime → s.iface ≠ none →
      (e.conf.keepalive ∨ e.now - s.insTime < e.conf.validTtl) →
      UpdateCase e i s w
        (some { s with state := .stale, stateTime := e.now, onsTime := e.now, onsCount := 1 })
        (ndIfaceSendNs e i s.iface s.tgtR w)
  /-- The session has been valid for too long; nobody asks for it. -/
  | staleQuiet : s.state = .valid → e.conf.validTtl ≤ e.now - s.stateTime → s.iface ≠ none →
      ¬(e.conf.keepalive ∨ e.now - s.insTime < e.conf.validTtl) →
      UpdateCase e i s w
        (some { s with state := .stale, stateTime := e.now, onsTime := e.now, onsCount := 0 }) w
  /-- The session has been stale for too long. -/
  | expired : s.state = .stale → e.conf.staleTtl ≤ e.now - s.stateTime →
      UpdateCase e i s w (some { s with state := .invalid, stateTime := e.now }) w
  /-- The session is stale, and probed again. -/
  | reprobed : s.state = .stale → e.now - s.stateTime < e.conf.staleTtl →
      (e.conf.keepalive ∨ e.now - s.insTime ≤ e.conf.validTtl) →
      staleDelay e.conf s.onsCount ≤ e.now - s.onsTime →
      UpdateCase e i s w (some { s with onsCount := s.onsCount + 1, onsTime := e.now })
        (ndIfaceSendNs e i s.iface s.tgtR w)

theorem waiting_iff {s : Session} {w : World} :
    (s.iface.any fun f => !(w.net.iface f).up) = true ↔ s.Waiting w := by
  simp [Session.Waiting, Option.any_eq_true]

theorem ndLDown_iface (e : Env) (i : SessionId) (s : Session) (w : World) :
    (ndLDown e i s w).1.iface = s.iface := by
  rw [ndLDown]
  split <;> rfl

/-- An update of a session does one of these things. -/
theorem updateCase (e : Env) (i : SessionId) (s : Session) (w : World) :
    UpdateCase e i s w (updateSession e i s w).1 (updateSession e i s w).2 := by
  unfold updateSession
  split
  · next hs =>
    have hw := @waiting_iff s w
    split_ifs with h₁ h₂ h₃ h₄
    · exact .held hs (hw.1 h₁) h₂
    · exact .released hs (hw.1 h₁) (not_lt.1 h₂)
    · exact .idle (fun _ => ⟨fun h => h₁ (hw.2 h), h₃⟩) (by simp [hs]) (by simp [hs]) (by simp [hs])
    · exact .gaveUp hs (fun h => h₁ (hw.2 h)) (not_lt.1 h₃) h₄
    · exact .retransmitted hs (fun h => h₁ (hw.2 h)) (not_lt.1 h₃) (not_lt.1 h₄)
  · next hs =>
    split_ifs with h₁
    · exact .idle (by simp [hs]) (fun _ => h₁) (by simp [hs]) (by simp [hs])
    · dsimp only
      rw [ndLDown_iface]
      exact .deleted hs (not_lt.1 h₁)
  · next hs =>
    dsimp only
    split_ifs with h₁ h₂ h₃ h₄
    · exact .idle (by simp [hs]) (by simp [hs]) (fun _ => h₁) (by simp [hs])
    · exact .renewed hs (not_lt.1 h₁) h₂ h₃
    · exact .disowned hs (not_lt.1 h₁) h₂ h₃
    · exact .staleProbed hs (not_lt.1 h₁) h₂ h₄
    · exact .staleQuiet hs (not_lt.1 h₁) h₂ h₄
  · next hs =>
    split_ifs with h₁ h₂ h₃
    · exact .expired hs h₁
    · exact .idle (by simp [hs]) (by simp [hs]) (by simp [hs]) (fun _ => not_le.1 h₁)
    · exact .idle (by simp [hs]) (by simp [hs]) (by simp [hs]) (fun _ => not_le.1 h₁)
    · refine .reprobed hs (not_le.1 h₁) ?_ (not_lt.1 h₃)
      rw [not_and_or, not_not, not_lt] at h₂
      exact h₂

/-- A session that is kept by an update is found by the same key. -/
theorem UpdateCase.sameKey (h : UpdateCase e i s w (some s') w') : s.SameKey s' := by
  cases h <;> exact ⟨rfl, rfl, rfl⟩

/-! ## Interfaces -/

/-- A change of an interface only concerns the flag of a session. -/
theorem ifaceChanged_fst (e : Env) (f : IfaceId) (up : Bool) (i : SessionId) (s : Session)
    (w : World) : ∃ b, (ifaceChanged e f up i s w).1 = { s with autowired := b } := by
  rw [ifaceChanged]
  split_ifs
  · exact ⟨s.autowired, rfl⟩
  · exact ⟨false, rfl⟩
  · exact ndLUp_fst e i s w
  · exact ⟨s.autowired, rfl⟩

/-- So is one that is told of a change of an interface. -/
theorem ifaceChanged_sameKey (e : Env) (f : IfaceId) (up : Bool) (i : SessionId) (s : Session)
    (w : World) : s.SameKey (ifaceChanged e f up i s w).1 := by
  obtain ⟨b, hb⟩ := ifaceChanged_fst e f up i s w
  rw [hb]
  exact ⟨rfl, rfl, rfl⟩

end Ndppd
