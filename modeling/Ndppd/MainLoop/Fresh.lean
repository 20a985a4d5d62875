import Ndppd.Evidence
import Ndppd.MainLoop
import Ndppd.Wire

/-!
# How old the evidence is

The daemon answers for a target because of some evidence, and when the evidence gets old it asks
again. Only a tick looks at the age of a session, and ticks are as rare as the rounds of the loop;
but whatever is received in a round is handled at the time of the round, at most 100 ms after
a tick. So the daemon never answers because of evidence that is older than `valid_ttl` and 100 ms,
on its own clock, however long the rounds are (`Loop.run_answers`), as long as that clock does not
go back.
-/

namespace Ndppd

/-! ## Sessions -/

variable {e : Env} {a : Action} {m : Mem} {i : SessionId} {s s' : Session} {w w' : World}

/-- A session that is valid after a change was so before, and its timer goes on, or it has been
    started. -/
theorem Change.stateTime {o : Option Session} (h : Change e i w a o (some s') w')
    (hv : s'.state = .valid) :
    (∃ s, o = some s ∧ s.state = .valid ∧ s'.stateTime = s.stateTime) ∨ s'.stateTime = e.now := by
  cases h with
  | created _ _ hstart hns =>
    obtain ⟨hvs, rfl⟩ := hns.valid hv
    obtain ⟨rfl, -⟩ := hstart.valid (by simp [newSession]) hvs
    exact .inr rfl
  | solicited _ hns =>
    obtain ⟨hvs, rfl⟩ := hns.valid hv
    exact .inl ⟨_, rfl, hvs, rfl⟩
  | advertised _ _ hna => exact .inr hna.stateTime
  | updated hu =>
    obtain ⟨hvs, ⟨rfl, -⟩ | ⟨rfl, -⟩⟩ := hu.valid hv
    · exact .inl ⟨_, rfl, hvs, rfl⟩
    · exact .inr rfl
  | forgotten => exact .inl ⟨_, rfl, hv, rfl⟩
  | @rewired s hvs =>
    obtain ⟨b, hb⟩ := ndLUp_fst e i s w
    exact .inl ⟨s, rfl, hvs, by rw [hb]⟩

/-- The same, for an action. -/
theorem stepMem_stateTime (hok : e.Ok m.store)
    (hs' : (Daemon.stepMem e a m).store.session i = some s') (hv : s'.state = .valid) :
    (∃ s, m.store.session i = some s ∧ s.state = .valid ∧ s'.stateTime = s.stateTime) ∨
      s'.stateTime = e.now := by
  refine stepMem_induction (Q := fun m' => ∀ i s', m'.store.session i = some s' →
    s'.state = .valid → (∃ s, m.store.session i = some s ∧ s.state = .valid ∧
      s'.stateTime = s.stateTime) ∨ s'.stateTime = e.now) hok ?_ ?_ i s' hs' hv
  · exact fun i s hs hv => .inl ⟨s, hs, hv, rfl⟩
  · intro m₁ m₂ _ _ hm hQ j s' hs' hv
    cases hm with
    | session i o o' st' w' ho hc hw =>
      by_cases hj : j = i
      · subst hj
        obtain rfl : o' = some s' := hw.self.symm.trans hs'
        rcases hc.stateTime hv with ⟨s, rfl, hvs, htime⟩ | htime
        · rw [htime]
          exact hQ j s ho hvs
        · exact .inr htime
      · exact hQ j s' ((hw.of_ne hj).symm.trans hs') hv
    | world w' _ => exact hQ j s' hs' hv

/-- The loops of the daemon send no advertisement. -/
theorem stepMem_notNa (hok : e.Ok m.store) (ha : a.IsLoop) :
    m.world.Adds Entry.NotNa (Daemon.stepMem e a m).world :=
  stepMem_induction (Q := fun m' => m.world.Adds Entry.NotNa m'.world) hok (.of_eq rfl)
    fun _ _ _ _ hm h => h.trans (hm.notNa_of_isLoop ha)

/-! ## Rounds -/

/-- The clock does not go back in the rounds, from the time `t`. -/
def Timely (t : ℤ) (rounds : List Round) : Prop := (t :: rounds.map Round.clock).Pairwise (· ≤ ·)

namespace Loop

variable {l l' : Loop} {kernel : Kernel} {d : Daemon} {t : ℤ} {rounds : List Round}

/-- Invariants of the loops whose clock does not go back. -/
theorem run_timely {I : Loop → Prop} (h₀ : I l)
    (hround : ∀ (l : Loop) (r : Round) inputs, l.now ≤ r.clock → I l →
      I { (l.prepare r.kernel).ndIoPoll inputs with now := r.clock })
    (htimely : Timely l.now rounds) (h : l.run rounds = .ok l') : I l' := by
  refine (run_induction (I := fun rs l => Timely l.now rs ∧ I l) ⟨htimely, h₀⟩ ?_ h).2
  rintro l r rs inputs ⟨htimely, hl⟩
  obtain ⟨hle, hrest⟩ := List.pairwise_cons.1 htimely
  exact ⟨hrest, hround l r inputs (hle _ List.mem_cons_self) hl⟩

/-- What happens in the event `ev`, after the events `pre`, is fresh: its advertisements are
    for sessions that have been confirmed less than `valid_ttl` and 100 ms ago. -/
def FreshAt (d : Daemon) (pre : List Event) (ev : Event) : Prop :=
  (d.run pre).mem.world.Adds (fun en => ∀ i, en.act.naOf = some i →
    ∃ s, (d.run (pre ++ [ev])).mem.store.session i = some s ∧ s.state = .valid ∧
      ev.time - s.stateTime < d.conf.validTtl + 100 ∧ d.Confirmed (pre ++ [ev]) s)
    (d.run (pre ++ [ev])).mem.world

/-- What the loop keeps: at the last tick, the valid sessions of today that were there had been
    confirmed less than `valid_ttl` ago. -/
structure Fresh (d : Daemon) (l : Loop) : Prop where
  follows : Follows d l
  last_le : l.lastSessionUpdate ≤ l.now
  valid : ∀ i s, l.daemon.mem.store.session i = some s → s.state = .valid →
    l.lastSessionUpdate - s.stateTime < d.conf.validTtl
  answers : ∀ pre ev post, l.events = pre ++ ev :: post → FreshAt d pre ev

namespace Fresh

theorem of_eq (h : Fresh d l) (hd : l'.daemon = l.daemon) (he : l'.events = l.events)
    (hnow : l.now ≤ l'.now) (hlast : l'.lastSessionUpdate = l.lastSessionUpdate) : Fresh d l' where
  follows := h.follows.of_eq hd he
  last_le := hlast ▸ h.last_le.trans hnow
  valid := by rw [hd, hlast]; exact h.valid
  answers := by rw [he]; exact h.answers

variable {conf : Conf} {cfg : Config} {w : World}

/-- The valid sessions after an action. -/
theorem exec_valid (h : Fresh (.init conf cfg w) l) (httl : 0 < conf.validTtl) :
    ∀ i s, (l.exec kernel a).daemon.mem.store.session i = some s → s.state = .valid →
      l.lastSessionUpdate - s.stateTime < conf.validTtl := by
  intro i s' hs' hv
  have hok := Daemon.run_ok conf cfg w l.events ⟨l.now, kernel, a⟩
  rw [← h.follows] at hok
  rcases stepMem_stateTime hok hs' hv with ⟨s, hs, hvs, htime⟩ | htime
  · rw [htime]
    exact h.valid i s hs hvs
  · have hlast := h.last_le
    rw [htime, Daemon.env_now]
    dsimp only
    omega

/-- The advertisements of an action. Those of the handlers come at most 100 ms after a tick. -/
theorem exec_freshAt (h : Fresh (.init conf cfg w) l) (httl : 0 < conf.validTtl)
    (ha : l.now - l.lastSessionUpdate ≤ 100 ∨ a.IsLoop) :
    FreshAt (.init conf cfg w) l.events ⟨l.now, kernel, a⟩ := by
  have hok := Daemon.run_ok conf cfg w l.events ⟨l.now, kernel, a⟩
  rw [FreshAt, Daemon.run_concat]
  rcases ha with hlast | ha
  · refine (stepMem_adds hok).mono fun en hen i hi => ?_
    obtain ⟨s, hs, hv, -⟩ := hen i hi
    have hconfirmed := Daemon.run_confirmed conf cfg w (l.events ++ [⟨l.now, kernel, a⟩]) i s
    rw [Daemon.run_concat] at hconfirmed
    refine ⟨s, hs, hv, ?_, hconfirmed hs hv⟩
    have hexec := h.follows.exec kernel a
    rw [Follows, exec_events, Daemon.run_concat] at hexec
    have hvalid := h.exec_valid httl i s (by rw [hexec]; exact hs) hv
    dsimp only [Daemon.init_conf]
    omega
  · exact (stepMem_notNa hok ha).mono fun en hen i hi => absurd (hen.symm.trans hi) (by simp)

theorem exec_answers (h : Fresh (.init conf cfg w) l) (httl : 0 < conf.validTtl)
    (ha : l.now - l.lastSessionUpdate ≤ 100 ∨ a.IsLoop) :
    ∀ pre ev post, (l.exec kernel a).events = pre ++ ev :: post →
      FreshAt (.init conf cfg w) pre ev := by
  intro pre ev post heq
  rw [exec_events] at heq
  rcases List.eq_nil_or_concat post with rfl | ⟨post, last, rfl⟩
  · obtain ⟨rfl, hev⟩ := List.append_inj' heq rfl
    obtain rfl := List.singleton_inj.1 hev
    exact h.exec_freshAt httl ha
  · rw [List.concat_eq_append, ← List.cons_append, ← List.append_assoc] at heq
    exact h.answers pre ev post (List.append_inj' heq rfl).1

theorem exec (h : Fresh (.init conf cfg w) l) (httl : 0 < conf.validTtl)
    (ha : l.now - l.lastSessionUpdate ≤ 100 ∨ a.IsLoop) :
    Fresh (.init conf cfg w) (l.exec kernel a) where
  follows := h.follows.exec kernel a
  last_le := h.last_le
  valid := h.exec_valid httl
  answers := h.exec_answers httl ha

/-- A tick looks at the age of every session. -/
theorem tick (h : Fresh (.init conf cfg w) l) (httl : 0 < conf.validTtl) :
    Fresh (.init conf cfg w) { l.exec kernel .tick with lastSessionUpdate := l.now } where
  follows := (h.follows.exec kernel .tick).of_eq rfl rfl
  last_le := le_rfl
  valid i s hs hv := by
    have hok := Daemon.run_ok conf cfg w l.events ⟨l.now, kernel, .tick⟩
    rw [← h.follows] at hok
    dsimp only at hs
    rw [exec_mem] at hs
    obtain ⟨s₀, w', -, hu⟩ := tick_updateCase hok hs
    have hconf : l.daemon.conf = conf := by rw [h.follows, Daemon.run_conf, Daemon.init_conf]
    obtain ⟨-, ⟨rfl, hlt⟩ | ⟨rfl, -⟩⟩ := hu.valid hv
    · simpa [hconf] using hlt
    · simpa using httl
  answers := h.exec_answers httl (.inr trivial)

theorem prepare (h : Fresh (.init conf cfg w) l) (httl : 0 < conf.validTtl) (kernel : ℕ → Kernel) :
    Fresh (.init conf cfg w) (l.prepare kernel) := by
  refine prepare_induction ?_ ?_ ?_ ?_ ?_ h
  · exact fun _ _ _ hl => hl.of_eq rfl rfl le_rfl rfl
  · exact fun _ _ hl => hl.of_eq rfl (by simp [events]) le_rfl rfl
  · exact fun _ hl => hl.exec (a := .removeOwnedRoutes) httl (.inr trivial)
  · exact fun _ hl => hl.tick httl
  · exact fun _ hl => (hl.exec (a := .rebind) httl (.inr trivial)).of_eq rfl rfl le_rfl rfl

/-- The handlers run at the time of the round, so that the last tick stays recent. -/
theorem ndIoPoll (h : Fresh (.init conf cfg w) l) (httl : 0 < conf.validTtl)
    (hlast : l.now - l.lastSessionUpdate ≤ 100) (inputs : List Input) :
    Fresh (.init conf cfg w) (l.ndIoPoll inputs) := by
  refine (ndIoPoll_induction (I := fun l => Fresh (.init conf cfg w) l ∧
    l.now - l.lastSessionUpdate ≤ 100) ?_ ?_ ⟨h, hlast⟩ inputs).1
  · exact fun l kernel a _ hl => ⟨hl.1.exec httl (.inl hl.2), hl.2⟩
  · exact fun l hl => ⟨hl.1.of_eq rfl (by simp [events]) le_rfl rfl, hl.2⟩

end Fresh

/-- In every run of the loop whose clock does not go back, the daemon sends advertisements only
    for sessions that are valid, and for which there has been evidence less than `valid_ttl`
    and 100 ms ago, on the clock of the loop. -/
theorem run_answers (conf : Conf) (cfg : Config) (w : World) (t : ℤ) (rounds : List Round)
    (l : Loop) (httl : 0 < conf.validTtl) (ht : 0 ≤ t) (htimely : Timely t rounds)
    (h : (start (.init conf cfg w) t).run rounds = .ok l) :
    ∀ pre ev post, l.events = pre ++ ev :: post →
      ∃ new, ((Daemon.init conf cfg w).run (pre ++ [ev])).mem.world.packets =
          new ++ ((Daemon.init conf cfg w).run pre).mem.world.packets ∧
        ∀ en ∈ new, ∀ i, en.act.naOf = some i →
          ∃ s, ((Daemon.init conf cfg w).run (pre ++ [ev])).mem.store.session i = some s ∧
            s.state = .valid ∧ ev.time - s.stateTime < conf.validTtl + 100 ∧
            (Daemon.init conf cfg w).Confirmed (pre ++ [ev]) s := by
  have hstart : Fresh (.init conf cfg w) (start (.init conf cfg w) t) :=
    { follows := rfl
      last_le := ht
      valid := fun i s hs =>
        absurd hs (by simp [start, ndRtQueryRoutes, query, Daemon.init, Store.empty])
      answers := fun pre ev post heq =>
        absurd heq (by simp [start, ndRtQueryRoutes, query, events]) }
  refine (run_timely hstart ?_ htimely h).answers
  intro l r inputs hle hl
  have hprep := hl.prepare httl r.kernel
  refine (hprep.ndIoPoll httl (l.prepare_lastSessionUpdate r.kernel) inputs).of_eq rfl rfl ?_ rfl
  simpa using hle

end Loop

/-! ## The small network -/

namespace Small

/-- A solicitation for `::2` comes in. -/
def solicitedAt (clock : ℤ) : Round where
  stop := false
  kernel := fun _ => kernel
  inputs := some [.frame kernel 1 ((ndIfaceSendNsFrame sender 2).getD [])]
  clock := clock

/-- It is answered, because the rule is static. -/
theorem solicitedAt_answers :
    0 < conf.validTtl ∧ 0 ≤ (1000 : ℤ) ∧ Timely 1000 [solicitedAt 1050] ∧
    ∃ l, (Loop.start (daemon staticRule) 1000).run [solicitedAt 1050] = .ok l ∧
      (l.daemon.mem.world.packets.filterMap fun en => en.act.naOf) = [0] ∧
      ∀ pre ev post, l.events = pre ++ ev :: post →
        ∃ new, ((daemon staticRule).run (pre ++ [ev])).mem.world.packets =
            new ++ ((daemon staticRule).run pre).mem.world.packets ∧
          ∀ en ∈ new, ∀ i, en.act.naOf = some i →
            ∃ s, ((daemon staticRule).run (pre ++ [ev])).mem.store.session i = some s ∧
              s.state = .valid ∧ ev.time - s.stateTime < conf.validTtl + 100 ∧
              (daemon staticRule).Confirmed (pre ++ [ev]) s :=
  ⟨by decide, by decide, by simp [Timely, solicitedAt], _, rfl, by decide +kernel,
    Loop.run_answers conf _ _ 1000 [solicitedAt 1050] _ (by decide) (by decide)
      (by simp [Timely, solicitedAt]) rfl⟩

end Small

end Ndppd
