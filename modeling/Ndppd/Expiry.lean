import Ndppd.Descent
import Ndppd.Evidence

/-!
# How long sessions last

If nothing but ticks happens, and a tick at least every second, a session ends
after a time that depends on the settings only (`Conf.settleTime`), unless it is
one that the timers renew: valid, without an interface, with a static rule or an
own address as its target (`Daemon.Keeps`).

* `Session.deadline`: a time at which the session will be deleted, given the time
  of the last tick. No tick makes it later (`UpdateCase.deadline_le`).
* `Daemon.settled_iff`: after that time, the sessions that are left are those the
  timers renew.
-/

namespace Ndppd

variable {e : Env} {i : SessionId} {src : Addr} {srcLl : Option LlAddr} {s s' : Session}
  {w w' : World} {a : Action} {m m' : Mem} {o : Option Session} {t : ℤ}

/-- The ranges of the settings (`conf.c`); `stale_ttl` cannot be set. -/
structure Conf.Parsed (c : Conf) : Prop where
  invalidTtl : 1000 ≤ c.invalidTtl ∧ c.invalidTtl ≤ 3600000
  validTtl : 10000 ≤ c.validTtl ∧ c.validTtl ≤ 3600000
  staleTtl : c.staleTtl = 30000
  retransLimit : 0 ≤ c.retransLimit ∧ c.retransLimit ≤ 10
  retransTime : 0 ≤ c.retransTime ∧ c.retransTime ≤ 60000

/-! ## Timers are in the past -/

/-- The timers of the session started before `t`. -/
structure Session.Past (t : ℤ) (s : Session) : Prop where
  stateTime : s.stateTime ≤ t
  onsTime : s.state = .incomplete → s.onsTime ≤ t
  onsCount : s.state = .incomplete → 0 ≤ s.onsCount

theorem Session.Past.mono {t' : ℤ} (h : s.Past t) (hle : t ≤ t') : s.Past t' :=
  ⟨h.stateTime.trans hle, fun hs => (h.onsTime hs).trans hle, h.onsCount⟩

/-- A session that is not incomplete. -/
theorem Session.Past.of_ne (ht : s.stateTime ≤ t) (hs : s.state ≠ .incomplete) : s.Past t :=
  ⟨ht, fun h => absurd h hs, fun h => absurd h hs⟩

theorem NsCase.past (h : NsCase e i src srcLl s w s' w') (hs : s.Past e.now) : s'.Past e.now := by
  cases h with
  | resumed => exact ⟨le_rfl, fun _ => le_rfl, fun _ => by simp⟩
  | probed _ _ hst => exact .of_ne hs.stateTime (by simp [hst])
  | _ => exact ⟨hs.stateTime, hs.onsTime, hs.onsCount⟩

theorem StartCase.past (h : StartCase e i s w s' w') (hs : s.stateTime = e.now)
    (hiface : (e.ruleOf s).mode ≠ .auto → (e.ruleOf s).mode ≠ .static →
      (e.ruleOf s).iface ≠ none) : s'.Past e.now := by
  cases h with
  | unrouted => exact .of_ne hs.le (by simp)
  | routed => exact ⟨hs.le, fun _ => le_rfl, fun _ => by simp [firstProbe]⟩
  | own => exact .of_ne hs.le (by simp)
  | probed => exact ⟨hs.le, fun _ => le_rfl, fun _ => by simp [firstProbe]⟩
  | static => exact .of_ne hs.le (by simp)
  | stuck hauto hstatic hnone => exact absurd hnone (hiface hauto hstatic)

theorem UpdateCase.past (h : UpdateCase e i s w (some s') w') (hs : s.Past e.now) :
    s'.Past e.now := by
  cases h with
  | idle => exact hs
  | held hi => exact ⟨hs.stateTime, fun _ => le_rfl, fun _ => hs.onsCount hi⟩
  | released => exact .of_ne le_rfl (by simp)
  | gaveUp => exact .of_ne le_rfl (by simp)
  | retransmitted hi =>
    exact ⟨hs.stateTime, fun _ => hs.onsTime hi, fun _ => Int.le_add_one (hs.onsCount hi)⟩
  | renewed hv => exact .of_ne le_rfl (by simp [hv])
  | disowned => exact .of_ne le_rfl (by simp)
  | staleProbed => exact .of_ne le_rfl (by simp)
  | staleQuiet => exact .of_ne le_rfl (by simp)
  | expired => exact .of_ne le_rfl (by simp)
  | reprobed hst => exact .of_ne hs.stateTime (by simp [hst])

theorem Change.past (h : Change e i w a o (some s') w') (hcfg : e.cfg.Started)
    (ho : ∀ s, o = some s → s.Past e.now) : s'.Past e.now := by
  cases h with
  | created _ hr hstart hns =>
    have hmem := (of_findRule_eq_some hr).1
    exact hns.past (hstart.past rfl (hcfg.iface_ne_none hmem))
  | solicited _ hns => exact hns.past (ho _ rfl)
  | advertised _ _ hna => exact .of_ne hna.stateTime.le (by simp [hna.valid])
  | updated hu => exact hu.past (ho _ rfl)
  | @forgotten s =>
    have hs := ho s rfl
    exact ⟨hs.stateTime, hs.onsTime, hs.onsCount⟩
  | @rewired s =>
    obtain ⟨b, hb⟩ := ndLUp_fst e i s w
    have hs := ho s rfl
    rw [hb]
    exact ⟨hs.stateTime, hs.onsTime, hs.onsCount⟩

/-- In a run whose clock does not go back, the timers started in the past. -/
theorem Daemon.run_past {conf : Conf} {cfg : Config} (hcfg : cfg.Started) {es : List Event}
    (hes : Clocked es) (ht : ∀ ev ∈ es, ev.time ≤ t) :
    ∀ i s, ((init conf cfg w).run es).mem.store.session i = some s → s.Past t :=
  run_clocked (P := fun t m => ∀ i s, m.store.session i = some s → s.Past t)
    (fun _ i s hs => absurd hs (by simp [init, Store.empty]))
    (fun _ _ _ hle h i s hs => (h i s hs).mono hle)
    (fun _ _ _ _ _ hcfg' _ hm h => hm.forall_session h fun _ _ _ _ hc =>
      hc.past (hcfg' ▸ hcfg)) hes ht

/-! ## Deadlines -/

/-- If the last tick was at `t` and there is one every second, the session is
    deleted by this time. An incomplete session is probed at every tick from some
    time on, until it is given up. -/
def Session.deadline (c : Conf) (t : ℤ) (s : Session) : ℤ :=
  match s.state with
  | .invalid => s.stateTime + c.invalidTtl
  | .stale => s.stateTime + c.staleTtl + 1000 + c.invalidTtl
  | .valid => s.stateTime + c.validTtl + 1000 + c.staleTtl + 1000 + c.invalidTtl
  | .incomplete => max t (max (s.stateTime + c.invalidTtl) s.onsTime + c.retransTime) +
      1000 * (max 0 (c.retransLimit - s.onsCount) + 1) + c.invalidTtl

/-- The time after which a session that the timers do not renew is deleted. -/
def Conf.settleTime (c : Conf) : ℤ :=
  c.validTtl + c.staleTtl + 2 * c.invalidTtl + c.retransTime + 1000 * (c.retransLimit + 2)

/-- After a tick at `t`, no timer has run out. -/
structure Session.Fresh (c : Conf) (t : ℤ) (s : Session) : Prop where
  invalid : s.state = .invalid → t - s.stateTime < c.invalidTtl
  stale : s.state = .stale → t - s.stateTime < c.staleTtl
  valid : s.state = .valid → t - s.stateTime < c.validTtl

theorem UpdateCase.fresh (h : UpdateCase e i s w (some s') w') (hc : e.conf.Parsed) :
    s'.Fresh e.conf e.now := by
  obtain ⟨⟨hinv, -⟩, ⟨hvalid, -⟩, hstale, -, -⟩ := hc
  have hb := h.bounded (by omega) (by omega)
  refine ⟨hb.invalid, hb.stale, fun hv => ?_⟩
  rcases h.valid hv with ⟨-, ⟨rfl, hlt⟩ | ⟨rfl, -⟩⟩
  · exact hlt
  · dsimp only
    omega

/-- The session is one that the timers renew. -/
def Session.Kept (e : Env) (w : World) (s : Session) : Prop :=
  s.state = .valid ∧ s.iface = none ∧
    ((e.ruleOf s).mode = .static ∨ ownAddr e (e.ruleOf s) s.tgtR w = true)

/-- A tick does not make the deadline of a session later, if the previous one was
    less than a second ago. -/
theorem UpdateCase.deadline_le (h : UpdateCase e i s w (some s') w') (hc : e.conf.Parsed)
    (hkept : ¬s.Kept e w) (hfresh : s.Fresh e.conf t) (hle : t ≤ e.now) (hge : e.now ≤ t + 1000) :
    s'.deadline e.conf e.now ≤ s.deadline e.conf t := by
  obtain ⟨⟨hinv, -⟩, ⟨hvalid, -⟩, hstale, -, ⟨hrt, -⟩⟩ := hc
  cases h with
  | idle hinc =>
    unfold Session.deadline
    cases hs : s.state with
    | incomplete =>
      have := (hinc hs).2
      dsimp only
      omega
    | _ => exact le_rfl
  | held hs _ hlt =>
    simp only [Session.deadline, hs]
    omega
  | released hs =>
    simp only [Session.deadline, hs]
    omega
  | gaveUp hs =>
    simp only [Session.deadline, hs]
    omega
  | retransmitted hs _ _ hlimit =>
    simp only [Session.deadline, hs]
    omega
  | renewed hs _ hf hown => exact absurd ⟨hs, hf, hown⟩ hkept
  | disowned hs =>
    have := hfresh.valid hs
    simp only [Session.deadline, hs]
    omega
  | staleProbed hs =>
    have := hfresh.valid hs
    simp only [Session.deadline, hs]
    omega
  | staleQuiet hs =>
    have := hfresh.valid hs
    simp only [Session.deadline, hs]
    omega
  | expired hs =>
    have := hfresh.stale hs
    simp only [Session.deadline, hs]
    omega
  | reprobed hs =>
    simp only [Session.deadline, hs]
    exact le_rfl

theorem Session.Fresh.lt_deadline {c : Conf} (h : s.Fresh c t) (hc : c.Parsed) :
    t < s.deadline c t := by
  obtain ⟨⟨hinv, -⟩, ⟨hvalid, -⟩, hstale, -, -⟩ := hc
  unfold Session.deadline
  cases hs : s.state with
  | incomplete =>
    dsimp only
    omega
  | invalid =>
    have := h.invalid hs
    dsimp only
    omega
  | stale =>
    have := h.stale hs
    dsimp only
    omega
  | valid =>
    have := h.valid hs
    dsimp only
    omega

theorem Session.Past.deadline_le {c : Conf} (h : s.Past t) (hc : c.Parsed) :
    s.deadline c t ≤ t + c.settleTime := by
  obtain ⟨⟨hinv, -⟩, ⟨hvalid, -⟩, hstale, ⟨hlimit, -⟩, ⟨hrt, -⟩⟩ := hc
  have hst := h.stateTime
  unfold Session.deadline Conf.settleTime
  cases hs : s.state with
  | incomplete =>
    have hons := h.onsTime hs
    have hcount := h.onsCount hs
    dsimp only
    omega
  | _ =>
    dsimp only
    omega

/-- The timers renew the sessions that they renew, and no others become such. -/
theorem UpdateCase.kept_iff (h : UpdateCase e i s w o w') :
    (∃ s', o = some s' ∧ s'.Kept e w) ↔ s.Kept e w := by
  constructor
  · rintro ⟨s', rfl, hv, hf, hown⟩
    rcases h.valid hv with ⟨hs, ⟨rfl, -⟩ | ⟨rfl, hnone, hown'⟩⟩
    · exact ⟨hv, hf, hown⟩
    · exact ⟨hs, hnone, hown'⟩
  · rintro ⟨hv, hf, hown⟩
    cases h with
    | idle => exact ⟨s, rfl, hv, hf, hown⟩
    | renewed => exact ⟨_, rfl, hv, hf, hown⟩
    | disowned _ _ _ hnot => exact absurd hown hnot
    | staleProbed _ _ hne => exact absurd hf hne
    | staleQuiet _ _ hne => exact absurd hf hne
    | held hs => exact absurd (hs.symm.trans hv) (by simp)
    | released hs => exact absurd (hs.symm.trans hv) (by simp)
    | gaveUp hs => exact absurd (hs.symm.trans hv) (by simp)
    | retransmitted hs => exact absurd (hs.symm.trans hv) (by simp)
    | deleted hs => exact absurd (hs.symm.trans hv) (by simp)
    | expired hs => exact absurd (hs.symm.trans hv) (by simp)
    | reprobed hs => exact absurd (hs.symm.trans hv) (by simp)

/-! ## Ticks -/

namespace Daemon

variable {d : Daemon} {ev : Event} {conf : Conf} {cfg : Config} {l : List Event} {t' : ℤ}

/-- The session is one that the timers renew: it is valid and has no interface, and
    its rule is static, or its target is an own address of the interface of its
    rule, which is up. -/
def Keeps (d : Daemon) (s : Session) : Prop :=
  s.state = .valid ∧ s.iface = none ∧ ((d.cfg.rule s.rule).mode = .static ∨
    ∃ f, (d.cfg.rule s.rule).iface = some f ∧ (d.mem.world.net.iface f).up = true ∧
      ndRtIsLocalAddr d.conf.byteOrder d.rt (d.mem.world.net.iface f).index s.tgtR = true)

theorem keeps_iff (d : Daemon) (ev : Event) : d.Keeps s ↔ s.Kept (d.env ev) d.mem.world := by
  unfold Keeps Session.Kept ownAddr
  rw [Option.any_eq_true]
  simp only [Bool.and_eq_true]
  rfl

/-- Ticks do not change what sessions are renewed for. -/
theorem keeps_step (hev : ev.action = .tick) (hok : (d.env ev).Ok d.mem.store) :
    (d.step ev).Keeps s ↔ d.Keeps s := by
  have hlinks := tick_sameLinks hok
  rw [← hev, ← step_mem] at hlinks
  have hrt : (d.step ev).rt = d.rt := by
    change stepRt d.conf.byteOrder ev.action d.rt = d.rt
    rw [hev]
    rfl
  unfold Keeps
  rw [hrt]
  simp only [(hlinks _).1, (hlinks _).2]
  rfl

/-- The session `i` is there, and the timers renew it. -/
def KeepsAt (d : Daemon) (i : SessionId) : Prop :=
  ∃ s, d.mem.store.session i = some s ∧ d.Keeps s

theorem step_tick_session (hev : ev.action = .tick) (hok : (d.env ev).Ok d.mem.store)
    (i : SessionId) : (d.step ev).mem.store.session i =
      (d.mem.store.session i).bind fun s => (updateSession (d.env ev) i s d.mem.world).1 := by
  rw [step_mem, hev, stepMem, tick_session hok]

theorem keepsAt_step (hev : ev.action = .tick) (hok : (d.env ev).Ok d.mem.store) :
    (d.step ev).KeepsAt i ↔ d.KeepsAt i := by
  unfold KeepsAt
  simp only [keeps_step hev hok, keeps_iff d ev]
  rw [step_tick_session hev hok]
  cases d.mem.store.session i with
  | none => simp
  | some s =>
    simp only [Option.bind_some, Option.some.injEq, exists_eq_left']
    exact (updateCase (d.env ev) i s d.mem.world).kept_iff

/-- After a tick at `t`, the sessions that are not renewed have deadlines before `b`. -/
structure Settling (d : Daemon) (t b : ℤ) : Prop where
  fresh : ∀ i s, d.mem.store.session i = some s → s.Fresh d.conf t
  deadline : ∀ i s, d.mem.store.session i = some s → d.Keeps s ∨ s.deadline d.conf t ≤ b

theorem Settling.step {b : ℤ} (h : d.Settling t b) (hc : d.conf.Parsed) (hev : ev.action = .tick)
    (hok : (d.env ev).Ok d.mem.store) (hle : t ≤ ev.time) (hge : ev.time ≤ t + 1000) :
    (d.step ev).Settling ev.time b := by
  have hcase : ∀ i s', (d.step ev).mem.store.session i = some s' → ∃ s w',
      d.mem.store.session i = some s ∧ UpdateCase (d.env ev) i s d.mem.world (some s') w' := by
    intro i s' hs'
    rw [step_mem, hev] at hs'
    exact tick_updateCase hok hs'
  constructor
  · intro i s' hs'
    obtain ⟨s, w', -, hu⟩ := hcase i s' hs'
    exact hu.fresh hc
  · intro i s' hs'
    obtain ⟨s, w', hs, hu⟩ := hcase i s' hs'
    rw [keeps_step hev hok, keeps_iff d ev]
    by_cases hkept : s.Kept (d.env ev) d.mem.world
    · obtain ⟨_, ⟨⟩, hkept'⟩ := hu.kept_iff.2 hkept
      exact .inl hkept'
    · right
      have hold := (h.deadline i s hs).resolve_left fun hk => hkept ((keeps_iff d ev).1 hk)
      exact (hu.deadline_le hc hkept (h.fresh i s hs) hle hge).trans hold

/-- The events are ticks, each of them at most a second after the one before; the
    last tick before them is at `t`, and the last one of them at `t'`. -/
inductive Ticks : ℤ → List Event → ℤ → Prop
  | nil (t : ℤ) : Ticks t [] t
  | cons {t t' : ℤ} {ev : Event} {l : List Event} : ev.action = .tick → t ≤ ev.time →
      ev.time ≤ t + 1000 → Ticks ev.time l t' → Ticks t (ev :: l) t'

theorem Settling.run {b : ℤ} {es : List Event} (hl : Ticks t l t') (hc : conf.Parsed)
    (h : ((init conf cfg w).run es).Settling t b) :
    ((init conf cfg w).run (es ++ l)).Settling t' b := by
  induction hl generalizing es with
  | nil => rwa [List.append_nil]
  | @cons t t' ev l hev hle hge _ ih =>
    rw [List.append_cons]
    refine ih ?_
    rw [run_concat]
    exact h.step (by simpa using hc) hev (run_ok conf cfg w es ev) hle hge

theorem keepsAt_run {es : List Event} (hl : Ticks t l t') :
    ((init conf cfg w).run (es ++ l)).KeepsAt i ↔ ((init conf cfg w).run es).KeepsAt i := by
  induction hl generalizing es with
  | nil => rw [List.append_nil]
  | @cons t t' ev l hev _ _ _ ih =>
    rw [List.append_cons, ih, run_concat, keepsAt_step hev (run_ok conf cfg w es ev)]

/-- After ticks that last long enough, the sessions that are left are those that the
    timers renew. -/
theorem settled_iff {es : List Event} (hcfg : cfg.Started) (hc : conf.Parsed)
    (hes : Clocked es) (ht : ∀ ev' ∈ es, ev'.time ≤ ev.time) (hev : ev.action = .tick)
    (hl : Ticks ev.time l t') (hlong : conf.settleTime ≤ t' - ev.time) (i : SessionId) :
    (((init conf cfg w).run (es ++ ev :: l)).mem.store.session i).isSome ↔
      ((init conf cfg w).run es).KeepsAt i := by
  have hok := run_ok conf cfg w es ev
  -- The first tick puts the deadlines of the sessions before the end.
  have hfirst : ((init conf cfg w).run (es ++ [ev])).Settling ev.time
      (ev.time + conf.settleTime) := by
    have hupdate : ∀ i s', ((init conf cfg w).run (es ++ [ev])).mem.store.session i = some s' →
        s'.Fresh conf ev.time ∧ s'.Past ev.time := by
      intro i s' hs'
      rw [run_concat, step_mem, hev] at hs'
      obtain ⟨s, w', hs, hu⟩ := tick_updateCase hok hs'
      have hfresh := hu.fresh (by simpa using hc)
      rw [env_conf, run_conf, init_conf] at hfresh
      exact ⟨hfresh, hu.past (run_past hcfg hes ht i s hs)⟩
    constructor
    · intro i s hs
      rw [run_conf, init_conf]
      exact (hupdate i s hs).1
    · intro i s hs
      rw [run_conf, init_conf]
      exact .inr ((hupdate i s hs).2.deadline_le hc)
  rw [List.append_cons]
  have hend := hfirst.run hl hc
  rw [← keepsAt_step hev hok, ← run_concat, ← keepsAt_run hl]
  constructor
  · intro hsome
    obtain ⟨s, hs⟩ := Option.isSome_iff_exists.1 hsome
    refine ⟨s, hs, (hend.deadline i s hs).resolve_right fun hdead => ?_⟩
    have hlt := (hend.fresh i s hs).lt_deadline (by simpa using hc)
    omega
  · rintro ⟨s, hs, -⟩
    rw [hs]
    rfl

end Daemon

end Ndppd
