import Ndppd.Probes
import Mathlib.Order.Defs.LinearOrder

/-!
# The life of a session

Without advertisements, a session only goes down: from valid to stale, from
stale to invalid, from invalid to deleted. An invalid session without an
interface may start over once, when a route to its target appears. Solicitations
neither raise a session nor start its timer again, so that they do not keep it
alive; only a valid session without an interface is renewed in place, as long as
its rule is static or its target an own address.

* `Situation`: the situations of a session, in this order;
* `Daemon.run_descends`: every event that is not an advertisement for the session
  takes it down, or leaves it and its timer as they are.
-/

namespace Ndppd

variable {e : Env} {i : SessionId} {src : Addr} {srcLl : Option LlAddr} {s s' : Session}
  {w w' : World} {a : Action} {m m' : Mem} {o : Option Session}

/-- The situations of a session, the last one first. -/
inductive Situation
  | deleted
  | invalidWithIface
  | incomplete
  | invalidWithoutIface
  | stale
  | valid
  deriving DecidableEq, Repr

namespace Situation

def rank : Situation → ℕ
  | deleted => 0
  | invalidWithIface => 1
  | incomplete => 2
  | invalidWithoutIface => 3
  | stale => 4
  | valid => 5

theorem rank_injective : Function.Injective rank := by
  intro a b h
  cases a <;> cases b <;> first | rfl | exact absurd h (by decide)

instance : LinearOrder Situation := LinearOrder.lift' rank rank_injective

end Situation

/-- The situation of a session; one that does not exist is deleted. -/
def situation : Option Session → Situation
  | none => .deleted
  | some s =>
    match s.state with
    | .incomplete => .incomplete
    | .valid => .valid
    | .stale => .stale
    | .invalid => if s.iface = none then .invalidWithoutIface else .invalidWithIface

theorem situation_eq_valid : situation o = .valid ↔ ∃ s, o = some s ∧ s.state = .valid := by
  cases o with
  | none => simp [situation]
  | some s =>
    unfold situation
    cases hs : s.state with
    | invalid => by_cases hf : s.iface = none <;> simp [hs, hf]
    | _ => simp [hs]

/-- `s` and `s'` are in the same situation, with the same timer. -/
structure Session.SameTimer (s s' : Session) : Prop where
  state : s'.state = s.state
  iface : s'.iface = s.iface
  stateTime : s'.stateTime = s.stateTime

namespace Session.SameTimer

theorem refl (s : Session) : s.SameTimer s := ⟨rfl, rfl, rfl⟩

theorem trans {s'' : Session} (h : s.SameTimer s') (h' : s'.SameTimer s'') : s.SameTimer s'' :=
  ⟨h'.state.trans h.state, h'.iface.trans h.iface, h'.stateTime.trans h.stateTime⟩

theorem situation_eq (h : s.SameTimer s') : situation (some s') = situation (some s) := by
  unfold situation
  dsimp only
  rw [h.state, h.iface]

end Session.SameTimer

/-- The session goes down, or keeps its timer. -/
def Session.Falls (s s' : Session) : Prop :=
  situation (some s') < situation (some s) ∨ s.SameTimer s'

theorem Session.Falls.trans {s'' : Session} (h : s.Falls s') (h' : s'.Falls s'') : s.Falls s'' := by
  rcases h with h | h
  · rcases h' with h' | h'
    · exact .inl (h'.trans h)
    · exact .inl (h'.situation_eq ▸ h)
  · rcases h' with h' | h'
    · exact .inl (h.situation_eq ▸ h')
    · exact .inr (h.trans h')

/-- A valid session without an interface, renewed in place: its rule is static, or
    its target an own address. -/
structure Session.Renewed (e : Env) (w : World) (s s' : Session) : Prop where
  valid : s.state = .valid
  iface : s.iface = none
  own : (e.ruleOf s).mode = .static ∨ ownAddr e (e.ruleOf s) s.tgtR w = true
  eq : s' = { s with stateTime := e.now }

/-! ## The transitions -/

/-- A solicitation does not start the timer of a session again, except when the
    session, without an interface until then, gets one. -/
theorem NsCase.falls (h : NsCase e i src srcLl s w s' w') : s.Falls s' := by
  cases h with
  | resumed _ _ _ _ hs hf =>
    left
    simp only [situation, hs, hf, if_true]
    decide
  | _ => exact .inr ⟨rfl, rfl, rfl⟩

/-- The timers of a session take it down, or renew it. -/
theorem UpdateCase.falls (h : UpdateCase e i s w o w') (hp : s.Probeable) :
    situation o < situation (some s) ∨ ∃ s', o = some s' ∧ (s.SameTimer s' ∨ s.Renewed e w s') := by
  cases h with
  | idle => exact .inr ⟨s, rfl, .inl (.refl s)⟩
  | held => exact .inr ⟨_, rfl, .inl ⟨rfl, rfl, rfl⟩⟩
  | released hs =>
    left
    have hf := Option.isSome_iff_ne_none.1 (hp (.inl hs))
    simp only [situation, hs, if_neg hf]
    decide
  | gaveUp hs =>
    left
    have hf := Option.isSome_iff_ne_none.1 (hp (.inl hs))
    simp only [situation, hs, if_neg hf]
    decide
  | retransmitted => exact .inr ⟨_, rfl, .inl ⟨rfl, rfl, rfl⟩⟩
  | deleted hs =>
    left
    simp only [situation, hs]
    split <;> decide
  | renewed hs _ hf hown => exact .inr ⟨_, rfl, .inr ⟨hs, hf, hown, rfl⟩⟩
  | disowned hs _ hf =>
    left
    simp only [situation, hs, hf, if_true]
    decide
  | staleProbed hs =>
    left
    simp only [situation, hs]
    decide
  | staleQuiet hs =>
    left
    simp only [situation, hs]
    decide
  | expired hs =>
    left
    simp only [situation, hs]
    split <;> decide
  | reprobed => exact .inr ⟨_, rfl, .inl ⟨rfl, rfl, rfl⟩⟩

/-- Apart from ticks and advertisements, an event only takes a session down. -/
theorem Change.falls (h : Change e i w a (some s) o w') (ha : a ≠ .tick)
    (hna : ∀ f icmp, a ≠ .rxNa f icmp) : ∃ s', o = some s' ∧ s.Falls s' := by
  cases h with
  | solicited _ hns => exact ⟨_, rfl, hns.falls⟩
  | advertised => exact absurd rfl (hna _ _)
  | updated => exact absurd rfl ha
  | deleted => exact absurd rfl ha
  | forgotten => exact ⟨_, rfl, .inr ⟨rfl, rfl, rfl⟩⟩
  | rewired =>
    obtain ⟨b, hb⟩ := ndLUp_fst e i s w
    rw [hb]
    exact ⟨_, rfl, .inr ⟨rfl, rfl, rfl⟩⟩

/-- A deleted session stays deleted: its identifier is not used again. -/
theorem Move.session_none (h : Move e a m m') (hn : m.store.session i = none ∧ i < m.store.fresh) :
    m'.store.session i = none ∧ i < m'.store.fresh := by
  cases h with
  | session j o o' st' w' _ _ hw =>
    have hij : i ≠ j := by
      rintro rfl
      exact Nat.lt_irrefl _ (hw.eq_fresh hn.1 ▸ hn.2)
    exact ⟨(hw.of_ne hij).trans hn.1, Nat.lt_of_lt_of_le hn.2 hw.fresh_le⟩
  | world => exact hn

/-! ## Events -/

/-- The event is an advertisement, and it is handled by the session `i`. -/
def Daemon.Advertises (d : Daemon) (ev : Event) (i : SessionId) : Prop :=
  ∃ f icmp tgt, ev.action = .rxNa f icmp ∧ naTarget icmp = some tgt ∧
    ndSessionFindR (d.env ev) tgt f d.mem.store = some i

theorem ndLHandleNa_session {f : IfaceId} {icmp : List U8}
    (h : ∀ tgt, naTarget icmp = some tgt → ndSessionFindR e tgt f m.store ≠ some i) :
    (ndLHandleNa e f icmp m).store.session i = m.store.session i := by
  unfold ndLHandleNa
  split
  · rfl
  · next tgt ht =>
    split
    · rfl
    · next j hj =>
      refine m.withSession_session_of_ne _ fun hij => ?_
      rw [hij] at h
      exact h tgt ht hj

/-- An event takes a session down, or leaves its timer as it is, or renews it. -/
def Daemon.Lowers (d : Daemon) (ev : Event) (s : Session) (o : Option Session) : Prop :=
  situation o < situation (some s) ∨ ∃ s', o = some s' ∧
    (s.SameTimer s' ∨ ev.action = .tick ∧ s.Renewed (d.env ev) d.mem.world s')

theorem Daemon.step_lowers {d : Daemon} {ev : Event} (hok : (d.env ev).Ok d.mem.store)
    (hs : d.mem.store.session i = some s) (hp : s.Probeable) (hna : ¬d.Advertises ev i) :
    d.Lowers ev s ((d.step ev).mem.store.session i) := by
  rw [step_mem]
  by_cases htick : ev.action = .tick
  · rw [htick, stepMem, tick_session hok, hs, Option.bind_some]
    rcases (updateCase (d.env ev) i s d.mem.world).falls hp with h | ⟨s', hs', h⟩
    · exact .inl h
    · exact .inr ⟨s', hs', h.imp id fun h => ⟨htick, h⟩⟩
  by_cases hrx : ∃ f icmp, ev.action = .rxNa f icmp
  · obtain ⟨f, icmp, hrx⟩ := hrx
    rw [hrx, stepMem, ndLHandleNa_session fun tgt ht hi => hna ⟨f, icmp, tgt, hrx, ht, hi⟩, hs]
    exact .inr ⟨s, rfl, .inl (.refl s)⟩
  · -- The moves of the other events take the session down, one after the other.
    have hfalls : ∃ s', (stepMem (d.env ev) ev.action d.mem).store.session i = some s' ∧
        s.Falls s' := by
      refine stepMem_induction (Q := fun m => ∃ s', m.store.session i = some s' ∧ s.Falls s') hok
        ⟨s, hs, .inr (.refl s)⟩ ?_
      rintro m₁ m₂ - - hm ⟨s₁, hs₁, h₁⟩
      cases hm with
      | session j o o' st' w' ho hc hw =>
        by_cases hij : i = j
        · subst hij
          obtain rfl : o = some s₁ := ho.symm.trans hs₁
          obtain ⟨s₂, rfl, h₂⟩ := hc.falls htick fun f icmp h => hrx ⟨f, icmp, h⟩
          exact ⟨s₂, hw.self, h₁.trans h₂⟩
        · exact ⟨s₁, (hw.of_ne hij).trans hs₁, h₁⟩
      | world => exact ⟨s₁, hs₁, h₁⟩
    obtain ⟨s', hs', h⟩ := hfalls
    rw [hs']
    exact h.imp id fun h => ⟨s', rfl, .inl h⟩

theorem Daemon.step_none {d : Daemon} {ev : Event} (hok : (d.env ev).Ok d.mem.store)
    (hn : d.mem.store.session i = none ∧ i < d.mem.store.fresh) :
    (d.step ev).mem.store.session i = none ∧ i < (d.step ev).mem.store.fresh := by
  rw [step_mem]
  exact stepMem_induction (Q := fun m => m.store.session i = none ∧ i < m.store.fresh) hok hn
    fun _ _ _ _ hm => hm.session_none

/-! ## Runs -/

/-- After a run, the session `s` is `o`: it has not gone up, and if it has not gone
    down, its timer is the same, unless it has no interface and is valid. -/
structure Lowered (s : Session) (o : Option Session) : Prop where
  le : situation o ≤ situation (some s)
  same : situation o = situation (some s) → ∃ s', o = some s' ∧ s'.iface = s.iface ∧
    (s'.stateTime = s.stateTime ∨ s.state = .valid ∧ s.iface = none)

theorem Lowered.refl (s : Session) : Lowered s (some s) :=
  ⟨le_rfl, fun _ => ⟨s, rfl, rfl, .inl rfl⟩⟩

theorem Lowered.of_lt (h : situation o < situation (some s)) : Lowered s o :=
  ⟨h.le, fun heq => absurd heq h.ne⟩

theorem Lowered.step {d : Daemon} {ev : Event} {s₁ : Session} (h : Lowered s (some s₁))
    (hstep : d.Lowers ev s₁ o) : Lowered s o := by
  rcases hstep with hlt | ⟨s₂, rfl, hsame | ⟨-, hrenew⟩⟩
  · exact .of_lt (hlt.trans_le h.le)
  · refine ⟨hsame.situation_eq ▸ h.le, fun heq => ?_⟩
    obtain ⟨_, ⟨⟩, hf, ht⟩ := h.same (hsame.situation_eq ▸ heq)
    exact ⟨s₂, rfl, hsame.iface.trans hf, ht.imp hsame.stateTime.trans id⟩
  · have heq₁ : situation (some s₂) = situation (some s₁) := by
      rw [hrenew.eq]
      rfl
    refine ⟨heq₁ ▸ h.le, fun heq => ?_⟩
    rw [heq₁] at heq
    obtain ⟨_, ⟨⟩, hf, -⟩ := h.same heq
    have hv : situation (some s) = .valid :=
      heq.symm.trans (situation_eq_valid.2 ⟨s₁, rfl, hrenew.valid⟩)
    obtain ⟨_, ⟨⟩, hv⟩ := situation_eq_valid.1 hv
    refine ⟨s₂, rfl, ?_, .inr ⟨hv, hf.symm.trans hrenew.iface⟩⟩
    rw [hrenew.eq]
    exact hf

/-- No event of the run is an advertisement which the session `i` handles. -/
def Daemon.Unadvertised (d : Daemon) (es : List Event) (i : SessionId) : Prop :=
  ∀ es₁ ev es₂, es = es₁ ++ ev :: es₂ → ¬(d.run es₁).Advertises ev i

theorem Daemon.step_lt_fresh {d : Daemon} {ev : Event} (hok : (d.env ev).Ok d.mem.store)
    (hi : i < d.mem.store.fresh) : i < (d.step ev).mem.store.fresh := by
  rw [step_mem]
  refine stepMem_induction (Q := fun m => i < m.store.fresh) hok hi fun m₁ m₂ _ _ hm h => ?_
  cases hm with
  | session _ _ _ _ _ _ _ hw => exact Nat.lt_of_lt_of_le h hw.fresh_le
  | world => exact h

theorem situation_none_lt (s : Session) : situation none < situation (some s) := by
  unfold situation
  dsimp only
  split
  · decide
  · decide
  · decide
  · split_ifs <;> decide

/-- Without advertisements for it, a session only goes down. -/
theorem Daemon.run_lowered {conf : Conf} {cfg : Config} {w : World} (hcfg : cfg.Started)
    (es : List Event) (hs : ((init conf cfg w).run es).mem.store.session i = some s)
    (es' : List Event) (hna : ((init conf cfg w).run es).Unadvertised es' i) :
    Lowered s ((((init conf cfg w).run es).run es').mem.store.session i) := by
  have hrun : ∀ l, ((init conf cfg w).run es).run l = (init conf cfg w).run (es ++ l) := fun l =>
    (List.foldl_append ..).symm
  -- The identifier stays one that has been used.
  have hall : i < (((init conf cfg w).run es).run es').mem.store.fresh ∧
      Lowered s ((((init conf cfg w).run es).run es').mem.store.session i) := by
    induction es' using List.reverseRecOn with
    | nil => exact ⟨(run_wellFormed conf cfg w es).before i s hs, hs ▸ .refl s⟩
    | append_singleton l ev ih =>
      obtain ⟨hi, hl⟩ := ih fun es₁ ev' es₂ h => hna es₁ ev' (es₂ ++ [ev]) (by simp [h])
      have hev := hna l ev [] rfl
      rw [run_concat]
      rw [hrun] at hi hl hev ⊢
      have hok := run_ok conf cfg w (es ++ l) ev
      refine ⟨step_lt_fresh hok hi, ?_⟩
      cases ho : ((init conf cfg w).run (es ++ l)).mem.store.session i with
      | none =>
        rw [(step_none hok ⟨ho, hi⟩).1]
        exact .of_lt (situation_none_lt s)
      | some s₁ =>
        rw [ho] at hl
        exact hl.step (step_lowers hok ho (run_probeable hcfg _ i s₁ ho) hev)
  exact hall.2

/-! ## Ticks -/

/-- After an update, a session that has been waiting for an end is younger than
    the timer that ends it. -/
structure Session.Bounded (e : Env) (w : World) (s : Session) : Prop where
  invalid : s.state = .invalid → e.now - s.stateTime < e.conf.invalidTtl
  waiting : s.state = .incomplete → s.Waiting w → e.now - s.stateTime < e.conf.invalidTtl
  stale : s.state = .stale → e.now - s.stateTime < e.conf.staleTtl

theorem UpdateCase.bounded (h : UpdateCase e i s w (some s') w') (hinv : 0 < e.conf.invalidTtl)
    (hstale : 0 < e.conf.staleTtl) : s'.Bounded e w := by
  have hnow : ∀ ttl, 0 < ttl → e.now - e.now < ttl := fun ttl h => by omega
  cases h with
  | idle hinc hi _ hst => exact ⟨hi, fun h hw => absurd hw (hinc h).1, hst⟩
  | held hs _ hlt => exact ⟨by simp [hs], fun _ _ => hlt, by simp [hs]⟩
  | released => exact ⟨fun _ => hnow _ hinv, by simp, by simp⟩
  | gaveUp => exact ⟨fun _ => hnow _ hinv, by simp, by simp⟩
  | retransmitted hs hw => exact ⟨by simp [hs], fun _ h => absurd h hw, by simp [hs]⟩
  | renewed hs => exact ⟨by simp [hs], by simp [hs], by simp [hs]⟩
  | disowned => exact ⟨fun _ => hnow _ hinv, by simp, by simp⟩
  | staleProbed => exact ⟨by simp, by simp, fun _ => hnow _ hstale⟩
  | staleQuiet => exact ⟨by simp, by simp, fun _ => hnow _ hstale⟩
  | expired => exact ⟨fun _ => hnow _ hinv, by simp, by simp⟩
  | reprobed hs hlt => exact ⟨by simp [hs], by simp [hs], fun _ => hlt⟩

theorem tick_bounded (h : e.Ok m.store) (hinv : 0 < e.conf.invalidTtl)
    (hstale : 0 < e.conf.staleTtl)
    (hs : (Daemon.stepMem e .tick m).store.session i = some s) :
    s.Bounded e (Daemon.stepMem e .tick m).world := by
  obtain ⟨_, _, -, hu⟩ := tick_updateCase h hs
  have hb := hu.bounded hinv hstale
  refine ⟨hb.invalid, fun hinc hw => hb.waiting hinc ?_, hb.stale⟩
  obtain ⟨f, hf, hup⟩ := hw
  exact ⟨f, hf, (tick_sameLinks h f).1 ▸ hup⟩

/-- In every state reached after start-up: an event which is not an advertisement
    for the session takes the session down, or leaves its timer as it is, or renews
    it; a run without advertisements for it does not take it up; and after a tick,
    no session is older than the timer that ends it. -/
theorem Daemon.run_descends {c : Config} {d : Daemon} (hc : c.Parsed) (h : start e c = some d)
    (hinv : 0 < e.conf.invalidTtl) (hstale : 0 < e.conf.staleTtl) (es : List Event) :
    (∀ i s, (d.run es).mem.store.session i = some s →
      (∀ ev, ¬(d.run es).Advertises ev i →
        (d.run es).Lowers ev s (((d.run es).step ev).mem.store.session i)) ∧
      ∀ es', (d.run es).Unadvertised es' i →
        Lowered s (((d.run es).run es').mem.store.session i)) ∧
    ∀ ev, ev.action = .tick → ∀ i s, ((d.run es).step ev).mem.store.session i = some s →
      s.Bounded ((d.run es).env ev) ((d.run es).step ev).mem.world := by
  obtain ⟨cw, hcw, rfl⟩ := Option.map_eq_some_iff.1 h
  have hcfg := started_of_ndProxyStartup hc hcw
  refine ⟨fun i s hs => ⟨fun ev hna => ?_, fun es' hna => ?_⟩, fun ev hev i s hs => ?_⟩
  · exact step_lowers (run_ok e.conf cw.1 cw.2 es ev) hs (run_probeable hcfg es i s hs) hna
  · exact run_lowered hcfg es hs es' hna
  · rw [step_mem, hev] at hs ⊢
    exact tick_bounded (run_ok e.conf cw.1 cw.2 es ev) (by simpa using hinv)
      (by simpa using hstale) hs

/-- In the small network, the session for a target that does not answer is deleted
    ten seconds after it is given up, although it is asked for again. -/
theorem Daemon.run_descends_small :
    (((Small.daemon Small.ifaceRule).run [Small.event 0 (.ns 0 1 2 (some 3))]).mem.store.session
      0).isSome = true ∧
    (((Small.daemon Small.ifaceRule).run [Small.event 0 (.ns 0 1 2 (some 3)),
      Small.event 1000 .tick, Small.event 1001 .tick, Small.event 1002 .tick,
      Small.event 9000 (.ns 0 1 2 (some 3)), Small.event 11002 .tick]).mem.store.session
      0).isNone = true ∧
    ∀ s, ((Small.daemon Small.ifaceRule).run
        [Small.event 0 (.ns 0 1 2 (some 3))]).mem.store.session 0 = some s →
      ∀ time kernel, ((Small.daemon Small.ifaceRule).run
        [Small.event 0 (.ns 0 1 2 (some 3))]).Lowers ⟨time, kernel, .tick⟩ s
          ((((Small.daemon Small.ifaceRule).run [Small.event 0 (.ns 0 1 2 (some 3))]).step
            ⟨time, kernel, .tick⟩).mem.store.session 0) := by
  refine ⟨by decide +kernel, by decide +kernel, fun s hs time kernel => ?_⟩
  refine ((run_descends Small.parsed Small.start_daemon (by decide) (by decide) _).1 0 s
    hs).1 _ ?_
  rintro ⟨f, icmp, tgt, ha, -⟩
  exact absurd ha (by simp)

end Ndppd
