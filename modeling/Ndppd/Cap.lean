import Ndppd.Expiry

/-!
# The cap on sessions

At most `ND_SESSION_MAX` sessions exist at a time; at the cap, a solicitation for
a new target is dropped. If the sessions then end by themselves, the cap is not
reached for ever: they do, except for those that the timers renew.

* `Daemon.cap_settles`: after ticks that last `Conf.settleTime`, the daemon is at
  the cap if and only if it was before, with sessions that the timers renew only;
* `Small.starved`: a static rule for more targets than the cap makes that happen.
-/

namespace Ndppd

variable {e : Env} {i : SessionId} {s : Session} {c : Conf} {cfg : Config} {st st' : Store}
  {m : Mem}

/-! ## The counter -/

/-- A store with fewer sessions has a smaller counter, or the same sessions. -/
theorem Store.WellFormed.count_mono (h : st.WellFormed c cfg) (h' : st'.WellFormed c cfg)
    (hsub : ∀ i, (st'.session i).isSome → (st.session i).isSome) :
    st'.count ≤ st.count ∧
      (st'.count = st.count → ∀ i, (st.session i).isSome → (st'.session i).isSome) := by
  have hsubperm : st'.live.Subperm st.live :=
    (List.nodup_range.filter _).subperm fun i hi =>
      (Store.mem_live h.before).2 (hsub i ((Store.mem_live h'.before).1 hi))
  rw [h.count_eq, h'.count_eq]
  refine ⟨Int.ofNat_le.2 hsubperm.length_le, fun heq i hi => ?_⟩
  have hperm := hsubperm.perm_of_length_le (Int.ofNat.inj heq).ge
  rw [← Store.mem_live h'.before, hperm.mem_iff, Store.mem_live h.before]
  exact hi

/-- A solicitation for a target without a session gets one below the cap. -/
theorem created_iff {p : ProxyId} {src tgt : Addr} {srcLl : Option LlAddr} {r : RuleId}
    (hr : e.findRule p tgt = some r)
    (hnone : ∀ i s, m.store.session i = some s → s.tgt = tgt → (e.ruleOf s).proxy ≠ p) :
    (∃ i s, (ndProxyHandleNs e p src tgt srcLl m).store.session i = some s ∧ s.tgt = tgt ∧
      s.rule = r) ↔ m.store.count < ndSessionMax := by
  have hcase := proxyNsCase e p src tgt srcLl m
  generalize ndProxyHandleNs e p src tgt srcLl m = m' at hcase
  cases hcase with
  | ignored hfull =>
    refine iff_of_false ?_ (not_lt.2 (hfull r hr))
    rintro ⟨i, s, hs, ht, rfl⟩
    exact hnone i s hs ht (e.cfg.linked p s.rule (of_findRule_eq_some hr).1)
  | found i s _ _ hs ht hp => exact absurd hp (hnone i s hs ht)
  | created r' s s' w w' _ hr' hcount hstart hns =>
    obtain rfl : r = r' := Option.some.inj (hr.symm.trans hr')
    have hkey := hstart.sameKey.trans hns.sameKey
    exact iff_of_true ⟨_, s', Store.set_session_self .., hkey.tgt, hkey.rule⟩ hcount

/-- A solicitation for a new target of a static rule: the session is valid. -/
theorem created_static {p : ProxyId} {tgt : Addr} {r : RuleId} (src : Addr)
    (srcLl : Option LlAddr) (hr : e.findRule p tgt = some r) (hmode : (e.cfg.rule r).mode = .static)
    (hf : (e.cfg.rule r).iface = none) (hcount : m.store.count < ndSessionMax)
    (hnone : ∀ i s, m.store.session i = some s → s.tgt ≠ tgt) :
    (ndProxyHandleNs e p src tgt srcLl m).store.count = m.store.count + 1 ∧
    ∀ i s, (ndProxyHandleNs e p src tgt srcLl m).store.session i = some s →
      m.store.session i = some s ∨
        s.state = .valid ∧ s.iface = none ∧ s.rule = r ∧ s.tgt = tgt := by
  have hcase := proxyNsCase e p src tgt srcLl m
  generalize ndProxyHandleNs e p src tgt srcLl m = m' at hcase
  cases hcase with
  | ignored hfull => exact absurd hcount (not_lt.2 (hfull r hr))
  | found i s _ _ hs ht => exact absurd ht (hnone i s hs)
  | created r' s s' w w' _ hr' _ hstart hns =>
    obtain rfl : r = r' := Option.some.inj (hr.symm.trans hr')
    have hmode' : (e.ruleOf (newSession e r tgt)).mode = .static := hmode
    have hf' : (e.ruleOf (newSession e r tgt)).iface = none := hf
    obtain rfl : s = { newSession e r tgt with state := .valid } := by
      cases hstart with
      | unrouted _ hauto => exact absurd (hmode'.symm.trans hauto) (by simp)
      | routed _ _ hauto => exact absurd (hmode'.symm.trans hauto) (by simp)
      | own hiface => exact absurd (hmode'.symm.trans hiface) (by simp)
      | probed f _ _ hsome => exact absurd (hf'.symm.trans hsome) (by simp)
      | static => rfl
      | stuck _ hstatic => exact absurd hmode' hstatic
    obtain rfl : s' = { newSession e r tgt with state := .valid, insTime := e.now } := by
      cases hns with
      | answered => rfl
      | dropped hv => exact absurd rfl hv
      | queued _ _ _ hv => exact absurd rfl hv
      | resumed _ _ _ _ hi => exact absurd hi (by simp)
      | probed _ _ hst => exact absurd hst (by simp)
    refine ⟨rfl, fun i t ht => ?_⟩
    by_cases hi : i = m.store.fresh
    · subst hi
      rw [Store.set_session_self] at ht
      obtain rfl := Option.some.inj ht
      exact .inr ⟨rfl, rfl, rfl, rfl⟩
    · rw [Store.set_session_of_ne _ _ hi, Store.link_session_of_ne _ _ _ hi] at ht
      exact .inl ht

/-! ## Reaching the cap -/

namespace Daemon

variable {conf : Conf} {w : World} {ev : Event} {l : List Event} {t t' : ℤ}

/-- After ticks that last long enough, with a clock that does not go back, the
    sessions that are left are those that the timers renew. The daemon is below the
    cap unless it was at the cap before them with such sessions only, and below the
    cap, a solicitation for a new target gets a session. -/
theorem cap_settles {c : Config} {d : Daemon} (hc : c.Parsed) (hconf : e.conf.Parsed)
    (h : start e c = some d) (es : List Event) (hes : Clocked es)
    (ht : ∀ ev' ∈ es, ev'.time ≤ ev.time) (hev : ev.action = .tick) (hl : Ticks ev.time l t')
    (hlong : e.conf.settleTime ≤ t' - ev.time) :
    (∀ i, ((d.run (es ++ ev :: l)).mem.store.session i).isSome ↔ (d.run es).KeepsAt i) ∧
    ((d.run (es ++ ev :: l)).mem.store.count < ndSessionMax ↔
      ¬((d.run es).mem.store.count = ndSessionMax ∧
        ∀ i, ((d.run es).mem.store.session i).isSome → (d.run es).KeepsAt i)) ∧
    ∀ time kernel p src tgt srcLl r,
      let next : Event := ⟨time, kernel, .ns p src tgt srcLl⟩
      ((d.run (es ++ ev :: l)).env next).findRule p tgt = some r →
      (∀ i s, (d.run (es ++ ev :: l)).mem.store.session i = some s → s.tgt = tgt →
        (d.cfg.rule s.rule).proxy ≠ p) →
      ((∃ i s, ((d.run (es ++ ev :: l)).step next).mem.store.session i = some s ∧ s.tgt = tgt ∧
        s.rule = r) ↔ (d.run (es ++ ev :: l)).mem.store.count < ndSessionMax) := by
  obtain ⟨cw, hcw, rfl⟩ := Option.map_eq_some_iff.1 h
  have hleft := settled_iff (w := cw.2) (started_of_ndProxyStartup hc hcw) hconf hes ht hev hl hlong
  have hwf := run_wellFormed e.conf cw.1 cw.2 es
  have hwf' := run_wellFormed e.conf cw.1 cw.2 (es ++ ev :: l)
  obtain ⟨hle, heq⟩ := hwf.count_mono hwf' fun i hi => by
    obtain ⟨s, hs, -⟩ := (hleft i).1 hi
    rw [hs]
    rfl
  refine ⟨hleft, ?_, ?_⟩
  · rw [← not_le, not_iff_not]
    constructor
    · intro hfull
      have hmax : ((init e.conf cw.1 cw.2).run es).mem.store.count = ndSessionMax :=
        le_antisymm hwf.count_le (hfull.trans hle)
      refine ⟨hmax, fun i hi => (hleft i).1 (heq (le_antisymm hle ?_) i hi)⟩
      rw [hmax]
      exact hfull
    · rintro ⟨hmax, hall⟩
      rw [← hmax]
      exact (hwf'.count_mono hwf fun i hi => (hleft i).2 (hall i hi)).1
  · intro time kernel p src tgt srcLl r next hr hnone
    rw [step_mem, stepMem]
    exact created_iff hr fun i s hs hst => by simpa [Env.ruleOf] using hnone i s hs hst

/-- Ticks do not create sessions. -/
theorem ticks_keeps {es : List Event} (hl : Ticks t l t') :
    ((init conf cfg w).run es).mem.store.Keeps ((init conf cfg w).run (es ++ l)).mem.store := by
  induction hl generalizing es with
  | nil =>
    rw [List.append_nil]
    exact .refl _
  | @cons t t' ev l hev _ _ _ ih =>
    rw [List.append_cons]
    refine .trans ?_ ih
    rw [run_concat, step_mem, hev, stepMem]
    exact ndSessionUpdateAll_keeps (run_ok conf cfg w es ev)

/-- Ticks do not delete the sessions that are renewed: if there are none but these,
    the counter stays as it is. -/
theorem ticks_count {es : List Event} (hl : Ticks t l t')
    (hall : ∀ i, (((init conf cfg w).run es).mem.store.session i).isSome →
      ((init conf cfg w).run es).KeepsAt i) :
    ((init conf cfg w).run (es ++ l)).mem.store.count =
      ((init conf cfg w).run es).mem.store.count := by
  have hwf := run_wellFormed conf cfg w es
  have hwf' := run_wellFormed conf cfg w (es ++ l)
  refine le_antisymm (hwf.count_mono hwf' fun i hi => ?_).1 (hwf'.count_mono hwf fun i hi => ?_).1
  · obtain ⟨s', hs'⟩ := Option.isSome_iff_exists.1 hi
    obtain ⟨s, hs, -⟩ := ticks_keeps hl i s' hs'
    rw [hs]
    rfl
  · obtain ⟨s, hs, -⟩ := (keepsAt_run hl).2 (hall i hi)
    rw [hs]
    rfl

end Daemon

namespace Small

open Daemon

theorem daemon_eq (rule : Rule → Rule) :
    daemon rule = .init conf (daemon rule).cfg (daemon rule).mem.world := by
  unfold daemon Daemon.start
  cases ndProxyStartup _ (config rule) _ with
  | none => rfl
  | some cw => rfl

theorem conf_parsed : conf.Parsed := by
  constructor <;> decide

/-- A tick every second, after `t`. -/
def everySecond (t : ℤ) : ℕ → List Event
  | 0 => []
  | n + 1 => event (t + 1000) .tick :: everySecond (t + 1000) n

theorem ticks_everySecond (t : ℤ) (n : ℕ) : Ticks t (everySecond t n) (t + 1000 * n) := by
  induction n generalizing t with
  | zero =>
    rw [show t + 1000 * ((0 : ℕ) : ℤ) = t by omega]
    exact .nil t
  | succ n ih =>
    have hn : t + 1000 * ((n + 1 : ℕ) : ℤ) = t + 1000 + 1000 * n := by
      push_cast
      omega
    rw [hn]
    exact .cons rfl (Int.le_add_of_nonneg_right (by decide)) le_rfl (ih (t + 1000))

/-- A session that does not answer is gone after a minute and a half. -/
theorem cap_settles_small :
    ((daemon ifaceRule).run [event 0 (.ns 0 1 2 (some 3))]).mem.store.count = 1 ∧
    ((daemon ifaceRule).run ([event 0 (.ns 0 1 2 (some 3))] ++
      event 0 .tick :: everySecond 0 86)).mem.store.count < ndSessionMax := by
  have hcount : ((daemon ifaceRule).run [event 0 (.ns 0 1 2 (some 3))]).mem.store.count = 1 := by
    decide +kernel
  refine ⟨hcount, (cap_settles parsed conf_parsed start_daemon [event 0 (.ns 0 1 2 (some 3))]
    (List.pairwise_singleton ..) (by simp [event]) rfl (ticks_everySecond 0 86) ?_).2.1.2 ?_⟩
  · decide
  · rw [hcount]
    exact fun h => absurd h.1 (by decide)

/-- Solicitations for `n` targets. -/
def flood (n : ℕ) : List Event :=
  (List.range n).map fun k => event 0 (.ns 0 1 (BitVec.ofNat 128 k) (some 3))

theorem static_findRule (ev : Event) (es : List Event) (tgt : Addr) :
    (((daemon staticRule).run es).env ev).findRule 0 tgt = some 0 ∧
      (((daemon staticRule).run es).env ev).findRule 1 tgt = some 1 := by
  have hrules : ((daemon staticRule).cfg.proxy 0).rules = [0] ∧
      ((daemon staticRule).cfg.proxy 1).rules = [1] := by decide +kernel
  have hpflen : ((daemon staticRule).cfg.rule 0).pflen = 0 ∧
      ((daemon staticRule).cfg.rule 1).pflen = 0 := by decide +kernel
  simp [Env.findRule, hrules, hpflen, ndAddrMatch]

/-- Each target of a static rule gets a session, which is valid. -/
theorem flooded {n : ℕ} (hn : n ≤ ndSessionMax) :
    ((daemon staticRule).run (flood n)).mem.store.count = n ∧
    ∀ i s, ((daemon staticRule).run (flood n)).mem.store.session i = some s →
      s.state = .valid ∧ s.iface = none ∧ s.rule = 0 ∧ ∃ k < n, s.tgt = BitVec.ofNat 128 k := by
  have hrule : ((daemon staticRule).cfg.rule 0).mode = .static ∧
      ((daemon staticRule).cfg.rule 0).iface = none := by decide +kernel
  induction n with
  | zero =>
    have hstore : ((daemon staticRule).run (flood 0)).mem.store = .empty := by
      rw [daemon_eq]
      rfl
    rw [hstore]
    exact ⟨rfl, fun i s hs => absurd hs (by simp [Store.empty])⟩
  | succ n ih =>
    obtain ⟨hcount, hold⟩ := ih (Nat.le_of_succ_le hn)
    let ev := event 0 (.ns 0 1 (BitVec.ofNat 128 n) (some 3))
    have hmem : ((daemon staticRule).run (flood (n + 1))).mem =
        ndProxyHandleNs (((daemon staticRule).run (flood n)).env ev) 0 1 (BitVec.ofNat 128 n)
          (some 3) ((daemon staticRule).run (flood n)).mem := by
      rw [flood, List.range_succ, List.map_append, List.map_singleton, run_concat, step_mem]
      rfl
    have hnew : ∀ i s, ((daemon staticRule).run (flood n)).mem.store.session i = some s →
        s.tgt ≠ BitVec.ofNat 128 n := by
      intro i s hs ht
      obtain ⟨-, -, -, k, hk, hsk⟩ := hold i s hs
      have := congrArg BitVec.toNat (hsk.symm.trans ht)
      rw [BitVec.toNat_ofNat, BitVec.toNat_ofNat] at this
      rw [ndSessionMax] at hn
      omega
    obtain ⟨hnext, hall⟩ := created_static 1 (some 3) (static_findRule ev (flood n) _).1
      (by simpa using hrule.1) (by simpa using hrule.2) (by rw [hcount]; exact Int.ofNat_lt.2 hn)
      hnew
    rw [hmem]
    refine ⟨by rw [hnext, hcount]; omega, fun i s hs => ?_⟩
    rcases hall i s hs with hs | ⟨hv, hf, hr, ht⟩
    · obtain ⟨hv, hf, hr, k, hk, ht⟩ := hold i s hs
      exact ⟨hv, hf, hr, k, Nat.lt_succ_of_lt hk, ht⟩
    · exact ⟨hv, hf, hr, n, Nat.lt_succ_self n, ht⟩

/-- After the flood, and a tick every second for `n` seconds, the daemon is still at
    the cap, and no target of the other proxy gets a session. -/
def Starved (n : ℕ) : Prop :=
  let d := (daemon staticRule).run (flood ndSessionMax ++ event 0 .tick :: everySecond 0 n)
  Ticks 0 (everySecond 0 n) (1000 * n) ∧ d.mem.store.count = ndSessionMax ∧
    ∀ tgt, (d.env (event (1000 * n) (.ns 1 1 tgt (some 3)))).findRule 1 tgt = some 1 ∧
      ¬∃ i s, (d.step (event (1000 * n) (.ns 1 1 tgt (some 3)))).mem.store.session i = some s ∧
        s.tgt = tgt ∧ s.rule = 1

/-- This lasts however long there are ticks. -/
theorem starved_of_ticks (n : ℕ) : Starved n := by
  unfold Starved
  dsimp only
  have hticks : Ticks 0 (everySecond 0 n) (1000 * n) := by
    simpa using ticks_everySecond 0 n
  have hall : Ticks 0 (event 0 .tick :: everySecond 0 n) (1000 * n) :=
    .cons rfl le_rfl (by decide) hticks
  obtain ⟨hcount, hsessions⟩ := flooded (le_refl ndSessionMax)
  have hrule : ((daemon staticRule).cfg.rule 0).mode = .static ∧
      ((daemon staticRule).cfg.rule 0).proxy = 0 := by decide +kernel
  have hkeeps : ∀ i, (((daemon staticRule).run (flood ndSessionMax)).mem.store.session i).isSome →
      ((daemon staticRule).run (flood ndSessionMax)).KeepsAt i := by
    intro i hi
    obtain ⟨s, hs⟩ := Option.isSome_iff_exists.1 hi
    obtain ⟨hv, hf, hr, -⟩ := hsessions i s hs
    refine ⟨s, hs, hv, hf, .inl ?_⟩
    rw [run_cfg, hr]
    exact hrule.1
  -- From here on, which events made the sessions does not matter.
  generalize flood ndSessionMax = es at hcount hsessions hkeeps ⊢
  have hend : ((daemon staticRule).run (es ++ event 0 .tick :: everySecond 0 n)).mem.store.count =
      ndSessionMax := by
    rw [daemon_eq] at hkeeps hcount ⊢
    rw [ticks_count hall hkeeps, hcount]
  have hfirst : ∀ i s, ((daemon staticRule).run
      (es ++ event 0 .tick :: everySecond 0 n)).mem.store.session i = some s → s.rule = 0 := by
    intro i s hs
    rw [daemon_eq] at hs hsessions
    obtain ⟨s₀, hs₀, hkey⟩ := ticks_keeps hall i s hs
    rw [hkey.rule]
    exact (hsessions i s₀ hs₀).2.2.1
  refine ⟨hticks, hend, fun tgt => ⟨(static_findRule _ _ tgt).2, ?_⟩⟩
  change ¬∃ i s, (ndProxyHandleNs _ 1 1 tgt (some 3) _).store.session i = some s ∧ _
  rw [created_iff (static_findRule _ _ tgt).2 ?_, hend]
  · exact lt_irrefl _
  · intro i s hs _
    rw [Env.ruleOf, hfirst i s hs, env_cfg, run_cfg, hrule.2]
    decide

/-- The sessions would have ended by then. -/
theorem starved : conf.settleTime ≤ 1000 * 86 ∧ Starved 86 := ⟨by decide, starved_of_ticks 86⟩

end Small

end Ndppd
