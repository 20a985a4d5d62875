import Ndppd.Probes
import Ndppd.Spacing

/-!
# Giving a target up

A session is looked for (`Mem.Looking`) until its target answers, or has been asked
for `retrans_limit` times. `ons_count` counts the probes: it starts at one with the
session, and the timer increments it when it sends another one. While the interface
is absent, the timer waits, and does not count.

The probes are counted whether they are sent or not. The first one is not sent if the
interface of the session is absent, and none is sent that the kernel does not take,
as when the interface has gone and no pass has noticed it yet. The target is then
given up after fewer probes (`Daemon.run_givesUp_iff`).
-/

namespace Ndppd

variable {e : Env} {i : SessionId} {src : Addr} {srcLl : Option LlAddr} {s s' : Session}
  {w w' : World} {a : Action} {m m' : Mem} {o : Option Session} {k : ℤ} {l : List ℤ}

/-- The target of the session `i` is being looked for. -/
def Mem.Looking (m : Mem) (i : SessionId) : Prop :=
  ∃ s, m.store.session i = some s ∧ s.state = .incomplete

/-- The session `i` is being looked for: `k` probes are counted, and it was sent
    those of the times `l`. -/
def Mem.Counts (m : Mem) (i : SessionId) (k : ℤ) (l : List ℤ) : Prop :=
  ∃ s, m.store.session i = some s ∧ s.state = .incomplete ∧ s.onsCount = k ∧
    m.world.probeTimes i = l

/-- A tick probes the session on the interface `f`, which is there: the timer has run out,
    and fewer than `retrans_limit` probes are counted. -/
structure Session.Due (s : Session) (e : Env) (w : World) (f : IfaceId) : Prop where
  incomplete : s.state = .incomplete
  iface : s.iface = some f
  up : (w.net.iface f).up = true
  timer : e.conf.retransTime ≤ e.now - s.onsTime
  limit : s.onsCount + 1 ≤ e.conf.retransLimit

/-- The kernel takes the probe of the session `i` in a tick, if there is one. -/
def Mem.Takes (m : Mem) (e : Env) (i : SessionId) : Prop :=
  ∀ s f, m.store.session i = some s → s.Due e m.world f →
    e.kernel.sendmsg (m.world.net.iface f).index (.ns s.tgtR) = true

/-! ## While it is looked for -/

theorem NsCase.keepsCount (h : NsCase e i src srcLl s w s' w') (hs : s.state = .incomplete) :
    s'.state = .incomplete ∧ s'.onsCount = s.onsCount ∧ s'.iface = s.iface ∧ w'.net = w.net ∧
      w'.probeTimes i = w.probeTimes i := by
  cases h with
  | answered hv => exact absurd (hs.symm.trans hv) (by simp)
  | dropped => exact ⟨hs, rfl, rfl, rfl, rfl⟩
  | queued _ _ _ _ _ _ hw =>
    rcases hw with rfl | ho
    · exact ⟨hs, rfl, rfl, rfl, rfl⟩
    · exact ⟨hs, rfl, rfl, net_of_openRoute_none ho,
        probeTimes_of_packets (packets_of_openRoute ho) i⟩
  | resumed _ _ _ _ hi => exact absurd (hs.symm.trans hi) (by simp)
  | probed _ _ hst => exact absurd (hs.symm.trans hst) (by simp)

/-- Only the timers and advertisements change what is counted. -/
theorem Change.keepsCount {o' : Option Session} (h : Change e i w a (some s) o' w')
    (hs : s.state = .incomplete) (ha : a ≠ .tick) :
    ∃ s', o' = some s' ∧ (s'.state = .incomplete ∧ s'.onsCount = s.onsCount ∧
      w'.probeTimes i = w.probeTimes i ∨ s'.state = .valid ∧ ¬a.IsLoop) := by
  cases h with
  | solicited hsol hns =>
    obtain ⟨hs', hk, -, -, hl⟩ := hns.keepsCount hs
    exact ⟨_, rfl, .inl ⟨hs', hk, hl.trans (hsol.probeTimes i)⟩⟩
  | advertised _ _ hna => exact ⟨_, rfl, .inr ⟨hna.valid, id⟩⟩
  | updated => exact absurd rfl ha
  | deleted => exact absurd rfl ha
  | forgotten => exact ⟨_, rfl, .inl ⟨hs, rfl, rfl⟩⟩
  | rewired hv => exact absurd (hs.symm.trans hv) (by simp)

theorem Move.keepsCount (h : Move e a m m') (ha : a ≠ .tick) (hm : m.Counts i k l) :
    m'.Counts i k l ∨ ¬m'.Looking i ∧ ¬a.IsLoop := by
  obtain ⟨s, hs, hinc, hk, hl⟩ := hm
  cases h with
  | session j o o' st' w' ho hc hw =>
    by_cases hij : i = j
    · subst hij
      obtain rfl : o = some s := ho.symm.trans hs
      obtain ⟨s', rfl, ⟨hinc', hk', hl'⟩ | ⟨hv, hloop⟩⟩ := hc.keepsCount hinc ha
      · exact .inl ⟨s', hw.self, hinc', hk'.trans hk, hl'.trans hl⟩
      · refine .inr ⟨?_, hloop⟩
        rintro ⟨t, ht, hinc'⟩
        obtain rfl : s' = t := Option.some.inj (hw.self.symm.trans ht)
        exact absurd (hv.symm.trans hinc') (by simp)
    · exact .inl ⟨s, (hw.of_ne hij).trans hs, hinc, hk, (hc.probeTimes_of_ne hij).trans hl⟩
  | world w' he => exact .inl ⟨s, hs, hinc, hk, (he.probeTimes i).trans hl⟩

/-- An event other than a tick after which the session is still being looked for has
    not changed what is counted. -/
theorem stepMem_counts (hok : e.Ok m.store) (ha : a ≠ .tick) (hm : m.Counts i k l)
    (hafter : (Daemon.stepMem e a m).Looking i) : (Daemon.stepMem e a m).Counts i k l := by
  by_cases hloop : a.IsLoop
  · refine stepMem_induction (Q := fun m => m.Counts i k l) hok hm fun m₁ m₂ _ _ hmove h => ?_
    exact (hmove.keepsCount ha h).resolve_right fun h => h.2 hloop
  · have hmove := stepMem_move hok hloop
    generalize Daemon.stepMem e a m = m' at hmove hafter
    cases hmove with
    | refl => exact hm
    | single hmove => exact (hmove.keepsCount ha hm).resolve_right fun h => h.1 hafter

/-- A tick counts one more probe and sends it, if the kernel takes it, or neither. -/
theorem tick_counts (hok : e.Ok m.store) (hprobe : ∀ s, m.store.session i = some s → s.Probeable)
    (hm : m.Counts i k l) (hafter : (Daemon.stepMem e .tick m).Looking i) :
    m.Takes e i ∧ (Daemon.stepMem e .tick m).Counts i k l ∨
      k + 1 ≤ e.conf.retransLimit ∧
        (m.Takes e i ∧ (Daemon.stepMem e .tick m).Counts i (k + 1) (e.now :: l) ∨
          ¬m.Takes e i ∧ (Daemon.stepMem e .tick m).Counts i (k + 1) l) := by
  obtain ⟨s, hs, hinc, rfl, rfl⟩ := hm
  obtain ⟨s', hs', hinc'⟩ := hafter
  have htimes := tick_probeTimes hok hs
  have hu := hs'
  rw [Daemon.stepMem, tick_session hok, hs, Option.bind_some] at hu
  have hcase := updateCase e i s m.world
  rw [hu] at hcase
  -- A probe that is due is one of this session.
  have hnot : (∀ f, ¬s.Due e m.world f) → m.Takes e i := fun hdue t f ht h =>
    absurd h (Option.some.inj (hs.symm.trans ht) ▸ hdue f)
  generalize (updateSession e i s m.world).2 = w' at hcase htimes
  cases hcase with
  | idle hidle =>
    refine .inl ⟨hnot fun f hdue => ?_, s, hs', hinc, rfl, htimes⟩
    exact absurd hdue.timer (not_le.2 (hidle hinc).2)
  | held _ hwait =>
    refine .inl ⟨hnot fun f hdue => ?_, _, hs', hinc, rfl, htimes⟩
    obtain ⟨g, hg, hdown⟩ := hwait
    obtain rfl : f = g := Option.some.inj (hdue.iface.symm.trans hg)
    exact absurd (hdue.up.symm.trans hdown) (by simp)
  | retransmitted _ hup htimer hlimit =>
    -- The interface is there: the probe is due.
    obtain ⟨f, hf⟩ := Option.isSome_iff_exists.1 (hprobe s hs (.inl hinc))
    have hup' : (m.world.net.iface f).up = true := by
      by_contra hdown
      exact hup ⟨f, hf, Bool.eq_false_iff.2 hdown⟩
    have hdue : s.Due e m.world f := ⟨hinc, hf, hup', htimer, hlimit⟩
    rw [probeTimes_sendNs] at htimes
    refine .inr ⟨hlimit, ?_⟩
    by_cases htake : m.Takes e i
    · rw [if_pos ⟨rfl, ndLSendIcmp6_iff.2 ⟨f, hf, hup', htake s f hs hdue⟩⟩] at htimes
      exact .inl ⟨htake, _, hs', hinc, rfl, htimes⟩
    · refine .inr ⟨htake, _, hs', hinc, rfl, htimes.trans (if_neg fun hsent => htake ?_)⟩
      intro t g ht hdue'
      obtain ⟨g', hg', -, hsend⟩ := ndLSendIcmp6_iff.1 hsent.2
      obtain rfl : s = t := Option.some.inj (hs.symm.trans ht)
      obtain rfl : g = g' := Option.some.inj (hdue'.iface.symm.trans hg')
      exact hsend
  | renewed hv => exact absurd (hinc.symm.trans hv) (by simp)
  | reprobed hst => exact absurd (hinc.symm.trans hst) (by simp)
  | released => exact absurd hinc' (by simp)
  | gaveUp => exact absurd hinc' (by simp)
  | disowned => exact absurd hinc' (by simp)
  | staleProbed => exact absurd hinc' (by simp)
  | staleQuiet => exact absurd hinc' (by simp)
  | expired => exact absurd hinc' (by simp)

/-! ## How it begins -/

/-- The session `i`, which was probed at the times `l` before, begins to be looked
    for on the interface `f`: the first probe is counted, and it is sent if the
    interface is up and the kernel takes it. -/
structure Begun (e : Env) (i : SessionId) (l : List ℤ) (f : IfaceId) (s : Session) (w : World) :
    Prop where
  incomplete : s.state = .incomplete
  onsCount : s.onsCount = 1
  iface : s.iface = some f
  probeTimes : w.probeTimes i =
    if ndLSendIcmp6 e w (some f) (.ns s.tgtR) then e.now :: l else l

theorem Begun.sendNs {f : IfaceId} (hs : s.state = .incomplete) (hk : s.onsCount = 1)
    (hf : s.iface = some f) :
    Begun e i (w.probeTimes i) f s (ndIfaceSendNs e i (some f) s.tgtR w) where
  incomplete := hs
  onsCount := hk
  iface := hf
  probeTimes := by
    rw [probeTimes_sendNs]
    simp only [true_and]
    rfl

theorem StartCase.begun (h : StartCase e i s w s' w') (hs' : s'.state = .incomplete)
    (hiface : (e.ruleOf s).mode ≠ .auto → (e.ruleOf s).mode ≠ .static →
      (e.ruleOf s).iface ≠ none) : ∃ f, Begun e i (w.probeTimes i) f s' w' := by
  cases h with
  | unrouted => exact absurd hs' (by simp)
  | routed f w' _ ho =>
    rw [← probeTimes_of_packets (packets_of_openRoute ho) i]
    exact ⟨f, .sendNs rfl rfl rfl⟩
  | own => exact absurd hs' (by simp)
  | probed f =>
    exact ⟨f, Begun.sendNs (w := { w with net := w.net.addRef f }) rfl rfl rfl⟩
  | static => exact absurd hs' (by simp)
  | stuck hauto hstatic hnone => exact absurd hnone (hiface hauto hstatic)

/-- Otherwise, nothing is sent. -/
theorem StartCase.probeTimes_of_state (h : StartCase e i s w s' w')
    (hs' : s'.state ≠ .incomplete) : w'.probeTimes i = w.probeTimes i := by
  cases h with
  | unrouted _ _ ho => exact probeTimes_of_packets (packets_of_openRoute ho) i
  | routed => exact absurd rfl hs'
  | own => rfl
  | probed => exact absurd rfl hs'
  | static => rfl
  | stuck => rfl

theorem NsCase.begun (h : NsCase e i src srcLl s w s' w') (hs : s.state ≠ .incomplete)
    (hs' : s'.state = .incomplete) : ∃ f, Begun e i (w.probeTimes i) f s' w' := by
  cases h with
  | answered => exact absurd hs' hs
  | dropped => exact absurd hs' hs
  | queued => exact absurd hs' hs
  | resumed _ _ f w' _ _ _ _ _ ho =>
    rw [← probeTimes_of_packets (packets_of_openRoute ho) i]
    exact ⟨f, .sendNs rfl rfl rfl⟩
  | probed => exact absurd hs' hs

theorem Begun.handleNs {f : IfaceId} (h : Begun e i l f s w)
    (hns : NsCase e i src srcLl s w s' w') : Begun e i l f s' w' := by
  obtain ⟨hs', hk, hf, hnet, hl⟩ := hns.keepsCount h.incomplete
  refine ⟨hs', hk.trans h.onsCount, hf.trans h.iface, ?_⟩
  rw [hl, hns.sameKey.tgtR, ndLSendIcmp6_congr (.of_net_eq hnet)]
  exact h.probeTimes

theorem Solicits.not_isLoop {p : ProxyId} {tgt : Addr} {w₀ : World}
    (h : Solicits e w a p src tgt srcLl w₀) : ¬a.IsLoop := by
  cases h <;> exact id

/-- A session begins to be looked for when it is solicited. -/
theorem Change.begun (h : Change e i w a o (some s') w') (hcfg : e.cfg.Started)
    (ho : ∀ s, o = some s → s.state ≠ .incomplete) (hs' : s'.state = .incomplete) :
    ¬a.IsLoop ∧ ∃ f, Begun e i (w.probeTimes i) f s' w' := by
  cases h with
  | @created _ _ _ _ _ _ s _ _ _ _ hsol hr hstart hns =>
    refine ⟨hsol.not_isLoop, ?_⟩
    have hmem := (of_findRule_eq_some hr).1
    rw [← hsol.probeTimes i]
    by_cases hs : s.state = .incomplete
    · obtain ⟨f, hf⟩ := hstart.begun hs (hcfg.iface_ne_none hmem)
      exact ⟨f, hf.handleNs hns⟩
    · rw [← hstart.probeTimes_of_state hs]
      exact hns.begun hs hs'
  | @solicited _ _ _ s _ _ _ hsol hns =>
    refine ⟨hsol.not_isLoop, ?_⟩
    rw [← hsol.probeTimes i]
    exact hns.begun (ho s rfl) hs'
  | advertised _ _ hna => exact absurd (hs'.symm.trans hna.valid) (by simp)
  | @updated s _ _ hu =>
    have hs := ho s rfl
    cases hu with
    | idle => exact absurd hs' hs
    | held hinc => exact absurd hinc hs
    | retransmitted hinc => exact absurd hinc hs
    | renewed hv => exact absurd hs' hs
    | reprobed hst => exact absurd hs' hs
    | _ => exact absurd hs' (by simp)
  | @forgotten s => exact absurd hs' (ho s rfl)
  | @rewired s hv =>
    obtain ⟨b, hb⟩ := ndLUp_fst e i s w
    rw [hb] at hs'
    exact absurd hs' (ho s rfl)

theorem stepMem_begun (hok : e.Ok m.store) (hcfg : e.cfg.Started) (hbefore : ¬m.Looking i)
    (hafter : (Daemon.stepMem e a m).Looking i) :
    ∃ s f, (Daemon.stepMem e a m).store.session i = some s ∧
      Begun e i (m.world.probeTimes i) f s (Daemon.stepMem e a m).world := by
  have hmoves : ∀ m₁ m₂ : Mem, Move e a m₁ m₂ → ¬m₁.Looking i → m₂.Looking i → ¬a.IsLoop ∧
      ∃ s f, m₂.store.session i = some s ∧ Begun e i (m₁.world.probeTimes i) f s m₂.world := by
    rintro m₁ m₂ hmove hno ⟨s', hs', hinc⟩
    cases hmove with
    | session j o o' st' w' ho hc hw =>
      by_cases hij : i = j
      · subst hij
        obtain rfl : o' = some s' := hw.self.symm.trans hs'
        obtain ⟨hloop, f, hf⟩ := hc.begun hcfg (fun s hs h => hno ⟨s, ho.trans hs, h⟩) hinc
        exact ⟨hloop, s', f, hs', hf⟩
      · exact absurd ⟨s', (hw.of_ne hij).symm.trans hs', hinc⟩ hno
    | world => exact absurd ⟨s', hs', hinc⟩ hno
  by_cases hloop : a.IsLoop
  · refine absurd hafter ?_
    refine stepMem_induction (Q := fun m => ¬m.Looking i) hok hbefore fun m₁ m₂ _ _ hmove h h' => ?_
    exact (hmoves m₁ m₂ hmove h h').1 hloop
  · have hmove := stepMem_move hok hloop
    generalize Daemon.stepMem e a m = m' at hmove hafter
    cases hmove with
    | refl => exact absurd hafter hbefore
    | single hmove => exact (hmoves m m' hmove hbefore hafter).2

/-! ## Runs -/

/-- The target of the session `i` is not looked for in the state `d`; it is after the
    event `ev`, and then after each of the events `es`. -/
structure Daemon.Episode (d : Daemon) (ev : Event) (es : List Event) (i : SessionId) : Prop where
  before : ¬d.mem.Looking i
  during : ∀ l, l <+: es → (d.run (ev :: l)).mem.Looking i

/-- In the event `ev`, a tick, the target of the session `i` is given up. Its interface
    is not absent: the session has not been waiting for it for too long. -/
def Daemon.GivesUp (d : Daemon) (ev : Event) (i : SessionId) : Prop :=
  ev.action = .tick ∧ ∃ s s', d.mem.store.session i = some s ∧ s.state = .incomplete ∧
    ¬s.Waiting d.mem.world ∧ (d.step ev).mem.store.session i = some s' ∧ s'.state = .invalid

/-- The number of solicitations that were sent for the session `i`. -/
def Daemon.probes (d : Daemon) (i : SessionId) : ℤ := (d.mem.world.probeTimes i).length

/-- The interface of the session `i` is up, and the kernel takes a probe of its target there. -/
def Mem.Present (m : Mem) (k : Kernel) (i : SessionId) : Prop :=
  ∃ s, m.store.session i = some s ∧ m.world.Transmits k s.iface (.ns s.tgtR)

/-- The kernel takes the probe of the session `i` in the event `ev`, if it is a tick. -/
def Daemon.Takes (d : Daemon) (ev : Event) (i : SessionId) : Prop :=
  ev.action = .tick → d.mem.Takes (d.env ev) i

variable {d : Daemon} {ev : Event}

/-- The target is given up when `retrans_limit` probes are counted. -/
theorem Daemon.GivesUp.counts (h : d.GivesUp ev i) (hok : (d.env ev).Ok d.mem.store)
    (hm : d.mem.Counts i k l) :
    d.conf.retransLimit ≤ k ∧ (d.step ev).mem.world.probeTimes i = l := by
  obtain ⟨htick, s, s', hs, hinc, hup, hs', hinv⟩ := h
  obtain ⟨t, ht, -, rfl, rfl⟩ := hm
  obtain rfl : s = t := Option.some.inj (hs.symm.trans ht)
  rw [step_mem, htick] at hs' ⊢
  rw [tick_probeTimes hok hs]
  rw [stepMem, tick_session hok, hs, Option.bind_some] at hs'
  have hcase := updateCase (d.env ev) i s d.mem.world
  rw [hs'] at hcase
  generalize (updateSession (d.env ev) i s d.mem.world).2 = w' at hcase ⊢
  cases hcase with
  | idle => exact absurd (hinc.symm.trans hinv) (by simp)
  | held => exact absurd (hinc.symm.trans hinv) (by simp)
  | released _ hwait => exact absurd hwait hup
  | gaveUp _ _ _ hlimit => exact ⟨Int.lt_add_one_iff.1 hlimit, rfl⟩
  | retransmitted => exact absurd (hinc.symm.trans hinv) (by simp)
  | disowned hv => exact absurd (hinc.symm.trans hv) (by simp)
  | expired hst => exact absurd (hinc.symm.trans hst) (by simp)
  | renewed hv => exact absurd (hinc.symm.trans hv) (by simp)
  | staleProbed => exact absurd hinv (by simp)
  | staleQuiet => exact absurd hinv (by simp)
  | reprobed hst => exact absurd (hinc.symm.trans hst) (by simp)

/-- The session `i` is being looked for, and `n` more probes were sent for it than are
    counted. -/
def Daemon.Ahead (d : Daemon) (i : SessionId) (n : ℤ) : Prop :=
  ∃ k l, d.mem.Counts i k l ∧ k ≤ d.conf.retransLimit ∧ (l.length : ℤ) = n + k

/-- A probe that is not taken is counted only. -/
theorem Daemon.Ahead.step {n : ℤ} (h : d.Ahead i n) (hok : (d.env ev).Ok d.mem.store)
    (hprobe : ∀ s, d.mem.store.session i = some s → s.Probeable)
    (hafter : (d.step ev).mem.Looking i) :
    d.Takes ev i ∧ (d.step ev).Ahead i n ∨ ¬d.Takes ev i ∧ (d.step ev).Ahead i (n - 1) := by
  obtain ⟨k, l, hm, hk, hl⟩ := h
  rw [step_mem] at hafter
  by_cases htick : ev.action = .tick
  · rw [htick] at hafter
    have hstep : (d.step ev).mem = stepMem (d.env ev) .tick d.mem := by rw [step_mem, htick]
    rcases tick_counts hok hprobe hm hafter with ⟨ht, hm'⟩ | ⟨hk', ⟨ht, hm'⟩ | ⟨ht, hm'⟩⟩
    · exact .inl ⟨fun _ => ht, k, l, hstep ▸ hm', hk, hl⟩
    · refine .inl ⟨fun _ => ht, k + 1, _, hstep ▸ hm', hk', ?_⟩
      rw [List.length_cons]
      push_cast
      omega
    · exact .inr ⟨fun h => ht (h htick), k + 1, _, hstep ▸ hm', hk', by omega⟩
  · exact .inl ⟨fun h => absurd h htick, k, l, stepMem_counts hok htick hm hafter, hk, hl⟩

/-- The probes of the session `i` in the events `es` are taken. -/
def Daemon.TakesAll (d : Daemon) (es : List Event) (i : SessionId) : Prop :=
  ∀ es₁ ev es₂, es = es₁ ++ ev :: es₂ → (d.run es₁).Takes ev i

theorem Daemon.takesAll_concat {es : List Event} :
    d.TakesAll (es ++ [ev]) i ↔ d.TakesAll es i ∧ (d.run es).Takes ev i := by
  constructor
  · intro h
    refine ⟨fun es₁ ev' es₂ heq => h es₁ ev' (es₂ ++ [ev]) (by simp [heq]), h es ev [] rfl⟩
  · rintro ⟨h, hlast⟩ es₁ ev' es₂ heq
    rcases List.eq_nil_or_concat es₂ with rfl | ⟨l, x, rfl⟩
    · obtain ⟨rfl, hev⟩ := List.append_inj' heq rfl
      exact List.singleton_inj.1 hev ▸ hlast
    · rw [List.concat_eq_append, ← List.cons_append, ← List.append_assoc] at heq
      exact h es₁ ev' l (List.append_inj' heq rfl).1

/-- The probes that are sent fall behind those that are counted with the first one that is not
    taken, and do not catch up. -/
theorem Daemon.Ahead.run {conf : Conf} {cfg : Config} {es₀ : List Event} {n : ℤ}
    (hcfg : cfg.Started) (h : ((init conf cfg w).run es₀).Ahead i n) (es : List Event)
    (hes : ∀ l, l <+: es → ((init conf cfg w).run (es₀ ++ l)).mem.Looking i) :
    ∃ n' ≤ n, ((init conf cfg w).run (es₀ ++ es)).Ahead i n' ∧
      (n' = n ↔ ((init conf cfg w).run es₀).TakesAll es i) := by
  induction es using List.reverseRecOn with
  | nil =>
    rw [List.append_nil]
    exact ⟨n, le_rfl, h, iff_of_true rfl fun es₁ ev es₂ heq => absurd heq (by simp)⟩
  | append_singleton es ev ih =>
    obtain ⟨n', hle, hbefore, hiff⟩ := ih fun l hl => hes l (hl.trans (List.prefix_append ..))
    have hafter := hes (es ++ [ev]) List.prefix_rfl
    rw [← List.append_assoc, run_concat] at hafter ⊢
    have hrun : ((init conf cfg w).run es₀).run es = (init conf cfg w).run (es₀ ++ es) :=
      (List.foldl_append ..).symm
    rw [takesAll_concat, ← hiff, hrun]
    rcases hbefore.step (run_ok conf cfg w (es₀ ++ es) ev) (run_probeable hcfg _ i) hafter with
      ⟨ht, hnext⟩ | ⟨ht, hnext⟩
    · exact ⟨n', hle, hnext, (and_iff_left ht).symm⟩
    · refine ⟨n' - 1, by omega, hnext, iff_of_false (by omega) fun h => ht h.2⟩

/-- The session begins one probe behind if the first one is not sent. -/
theorem Daemon.Episode.ahead {es : List Event} (h : d.Episode ev es i)
    (hok : (d.env ev).Ok d.mem.store) (hcfg : d.cfg.Started) (hlimit : 1 ≤ d.conf.retransLimit) :
    ∃ n, (d.step ev).Ahead i n ∧ (n = d.probes i ∧ (d.step ev).mem.Present ev.kernel i ∨
      n = d.probes i - 1 ∧ ¬(d.step ev).mem.Present ev.kernel i) := by
  have hafter : (d.step ev).mem.Looking i := h.during [] (List.nil_prefix ..)
  rw [step_mem] at hafter
  obtain ⟨s, f, hs, hb⟩ := stepMem_begun hok hcfg h.before hafter
  rw [← step_mem] at hs hb
  have hl := hb.probeTimes
  by_cases hsent : ndLSendIcmp6 (d.env ev) (d.step ev).mem.world (some f) (.ns s.tgtR) = true
  · rw [if_pos hsent] at hl
    refine ⟨d.probes i, ⟨1, _, ⟨s, hs, hb.incomplete, hb.onsCount, hl⟩, hlimit, ?_⟩,
      .inl ⟨rfl, s, hs, hb.iface ▸ ndLSendIcmp6_iff.1 hsent⟩⟩
    rw [List.length_cons]
    push_cast
    rfl
  · rw [if_neg hsent] at hl
    refine ⟨d.probes i - 1, ⟨1, _, ⟨s, hs, hb.incomplete, hb.onsCount, hl⟩, hlimit, ?_⟩,
      .inr ⟨rfl, ?_⟩⟩
    · rw [sub_add_cancel]
      rfl
    · rintro ⟨t, ht, htransmits⟩
      obtain rfl : s = t := Option.some.inj (hs.symm.trans ht)
      exact hsent (ndLSendIcmp6_iff.2 (hb.iface ▸ htransmits))

/-- The target of a session is given up after `retrans_limit` probes, sent while it was
    looked for, if and only if the interface of the session was up when it began to be
    looked for, and the kernel has taken the first probe and those of the ticks. -/
theorem Daemon.run_givesUp_iff (conf : Conf) (cfg : Config) (w : World) (hcfg : cfg.Started)
    (hlimit : 1 ≤ conf.retransLimit) (es₀ es : List Event) (ev ev' : Event) (i : SessionId) :
    let d := (init conf cfg w).run es₀
    d.Episode ev es i → (d.run (ev :: es)).GivesUp ev' i →
      ((d.run (ev :: es ++ [ev'])).probes i - d.probes i = conf.retransLimit ↔
        (d.step ev).mem.Present ev.kernel i ∧ (d.step ev).TakesAll es i) := by
  intro d hep hgive
  have hconf : d.conf = conf := by simp [d]
  have hrun : ∀ l, d.run (ev :: l) = (init conf cfg w).run (es₀ ++ [ev] ++ l) := by
    intro l
    rw [List.append_assoc, List.singleton_append]
    exact (List.foldl_append ..).symm
  obtain ⟨n, hn, hfirst⟩ := hep.ahead (run_ok conf cfg w es₀ ev) (by simpa [d] using hcfg)
    (by rw [hconf]; exact hlimit)
  rw [← run_concat] at hn
  obtain ⟨n', hle, hend, htakes⟩ := hn.run hcfg es fun l hl => hrun l ▸ hep.during l hl
  rw [← hrun es] at hend
  rw [run_concat] at htakes
  obtain ⟨k, l, hm, hk, hl⟩ := hend
  have hok : ((d.run (ev :: es)).env ev').Ok (d.run (ev :: es)).mem.store := by
    rw [hrun]
    exact run_ok conf cfg w _ ev'
  obtain ⟨hge, hlast⟩ := hgive.counts hok hm
  rw [run_conf, hconf] at hk hge
  have hprobes : (d.run (ev :: es ++ [ev'])).probes i = n' + k := by
    rw [run_concat, probes, hlast]
    exact hl
  rw [hprobes, ← htakes]
  rcases hfirst with ⟨rfl, hup⟩ | ⟨rfl, hdown⟩
  · rw [and_iff_right hup]
    omega
  · exact iff_of_false (by omega) fun h => hdown h.1

/-! ## The small network -/

instance (m : Mem) (i : SessionId) : Decidable (m.Looking i) :=
  decidable_of_iff ((m.store.session i).map Session.state = some .incomplete)
    Option.map_eq_some_iff

theorem Daemon.episode_of {es : List Event} (hbefore : ¬d.mem.Looking i)
    (hduring : ∀ l ∈ es.inits, (d.run (ev :: l)).mem.Looking i) : d.Episode ev es i :=
  ⟨hbefore, fun l hl => hduring l (List.mem_inits l es |>.2 hl)⟩

theorem Daemon.takesAll_of {es : List Event}
    (h : ∀ ev ∈ es, ∀ n msg, ev.kernel.sendmsg n msg = true) : d.TakesAll es i := by
  rintro es₁ ev es₂ rfl - s f - -
  exact h ev (by simp) _ _

theorem Daemon.givesUp_of (htick : ev.action = .tick)
    (hs : ((d.mem.store.session i).any fun s => decide (s.state = .incomplete) &&
      !s.iface.any fun f => !(d.mem.world.net.iface f).up) = true)
    (hs' : (((d.step ev).mem.store.session i).any fun s => decide (s.state = .invalid)) = true) :
    d.GivesUp ev i := by
  obtain ⟨s, hs, hinc⟩ := (Option.any_eq_true ..).1 hs
  obtain ⟨s', hs', hinv⟩ := (Option.any_eq_true ..).1 hs'
  rw [Bool.and_eq_true, Bool.not_eq_true', decide_eq_true_iff] at hinc
  refine ⟨htick, s, s', hs, hinc.1, fun hwait => ?_, hs', of_decide_eq_true hinv⟩
  exact Bool.false_ne_true (hinc.2.symm.trans (waiting_iff.2 hwait))

namespace Small

/-- The daemon, started, after a pass that finds the interfaces which the kernel `k`
    has. -/
def found (k : Kernel) : Daemon :=
  (Daemon.init conf (daemon ifaceRule).cfg (daemon ifaceRule).mem.world).run
    [{ time := 0, kernel := k, action := .rebind }]

/-- Another pass, while the target is looked for, and two ticks. -/
def looked : List Event := [event 20 .rebind, event 1010 .tick, event 1111 .tick]

/-- When the third interface is absent at first, the target is given up after two
    probes instead of three. -/
theorem absent_givesUp : 1 ≤ conf.retransLimit ∧
    (found (kernelWithout [3])).Episode (event 10 (.rxNs 2 1 (message 9) 3)) looked 0 ∧
    ((found (kernelWithout [3])).run (event 10 (.rxNs 2 1 (message 9) 3) :: looked)).GivesUp
      (event 1212 .tick) 0 ∧
    ((found (kernelWithout [3])).run (event 10 (.rxNs 2 1 (message 9) 3) :: looked ++
      [event 1212 .tick])).probes 0 - (found (kernelWithout [3])).probes 0 = 2 ∧
    conf.retransLimit = 3 := by
  refine ⟨by decide, Daemon.episode_of (by decide +kernel) (by decide +kernel),
    Daemon.givesUp_of rfl (by decide +kernel) (by decide +kernel), by decide +kernel, rfl⟩

/-- When it is there and the kernel takes the probes, the target is given up after three. -/
theorem present_givesUp :
    ((found kernel).step (event 10 (.rxNs 2 1 (message 9) 3))).mem.Present kernel 0 ∧
    ((found kernel).step (event 10 (.rxNs 2 1 (message 9) 3))).TakesAll looked 0 ∧
    ((found kernel).run (event 10 (.rxNs 2 1 (message 9) 3) :: looked ++
      [event 1212 .tick])).probes 0 - (found kernel).probes 0 = conf.retransLimit := by
  have hep : (found kernel).Episode (event 10 (.rxNs 2 1 (message 9) 3)) looked 0 :=
    Daemon.episode_of (by decide +kernel) (by decide +kernel)
  have hgive : ((found kernel).run (event 10 (.rxNs 2 1 (message 9) 3) :: looked)).GivesUp
      (event 1212 .tick) 0 :=
    Daemon.givesUp_of rfl (by decide +kernel) (by decide +kernel)
  have hup : ((found kernel).step (event 10 (.rxNs 2 1 (message 9) 3))).mem.Present kernel 0 := by
    have hany : (((found kernel).step (event 10 (.rxNs 2 1 (message 9) 3))).mem.store.session
        0).any (fun s => decide (s.iface = some 1)) = true := by decide +kernel
    obtain ⟨s, hs, hf⟩ := (Option.any_eq_true ..).1 hany
    exact ⟨s, hs, 1, of_decide_eq_true hf, by decide +kernel, rfl⟩
  have htake : ((found kernel).step (event 10 (.rxNs 2 1 (message 9) 3))).TakesAll looked 0 := by
    refine Daemon.takesAll_of fun ev hev n msg => ?_
    simp only [looked, List.mem_cons, List.not_mem_nil, or_false] at hev
    rcases hev with rfl | rfl | rfl <;> rfl
  exact ⟨hup, htake, (Daemon.run_givesUp_iff conf _ _ started (by decide) _ _ _ _ 0 hep hgive).2
    ⟨hup, htake⟩⟩

/-- The interface that is probed has gone, and no pass has noticed it. -/
def kernelDeaf : Kernel := { kernel with sendmsg := fun _ _ => false }

-- The probes of the ticks are lost on it: one of three is sent.
example : ((found kernel).run [event 10 (.rxNs 2 1 (message 9) 3),
    { time := 1010, kernel := kernelDeaf, action := .tick },
    { time := 1111, kernel := kernelDeaf, action := .tick }, event 1212 .tick]).probes 0 = 1 := by
  decide +kernel

end Small

end Ndppd
