import Mathlib.Algebra.Order.Ring.Int
import Mathlib.Order.Bounds.Basic
import Mathlib.Tactic.Ring
import Ndppd.Daemon
import Ndppd.Session.Cases

/-!
# The back-off of stale sessions

A stale session is probed again and again by its timers. By the documentation, the time
between two probes doubles every `retrans_limit` probes, up to a cap (`BacksOff`).

The times between the probes of an episode (`StaleEpisode`) are those of `staleDelay`, from
the number of probes that are counted when the session becomes stale. `nd_session_update`
doubles the delay every three probes, whatever the limit is, and only waits for it after
each `retrans_limit` probes: it goes back to `retrans_time` in between. `backsOff_iff` says
which episodes are too short to show it.
-/

namespace Ndppd

variable {e : Env} {i : SessionId} {s s' : Session} {w w' : World} {c : Conf} {first : ℤ}
  {waits : List ℤ}

/-! ## Waiting times -/

/-- The timers send a probe for a session. -/
def TimerProbes (e : Env) (i : SessionId) (s : Session) (w : World) : Prop :=
  (updateSession e i s w).2 = ndIfaceSendNs e i s.iface s.tgtR w

/-- The least time since the last probe at which the timers would send the next one. -/
def IsWait (e : Env) (i : SessionId) (s : Session) (w : World) (d : ℤ) : Prop :=
  IsLeast {x | TimerProbes { e with now := s.onsTime + x } i s w} d

theorem ne_ndIfaceSendNs (e : Env) (i : SessionId) (f : Option IfaceId) (tgt : Addr) (w : World) :
    w ≠ ndIfaceSendNs e i f tgt w := fun h => by
  have hlen := congrArg (fun w : World => w.log.length) h
  simp [ndIfaceSendNs] at hlen

/-- A stale session is probed if it has not expired, somebody asks for it, and it was not
    probed for the delay. -/
theorem timerProbes_iff (hs : s.state = .stale) :
    TimerProbes e i s w ↔ e.now - s.stateTime < e.conf.staleTtl ∧
      (e.conf.keepalive ∨ e.now - s.insTime ≤ e.conf.validTtl) ∧
      staleDelay e.conf s.onsCount ≤ e.now - s.onsTime := by
  have hne := ne_ndIfaceSendNs e i s.iface s.tgtR w
  rw [TimerProbes, updateSession, hs]
  dsimp only
  split_ifs with hexp hquiet hearly
  · exact iff_of_false hne fun h => absurd h.1 (not_lt.2 hexp)
  · refine iff_of_false hne fun h => ?_
    exact h.2.1.elim hquiet.1 fun h => absurd h (not_le.2 hquiet.2)
  · exact iff_of_false hne fun h => absurd h.2.2 (not_le.2 hearly)
  · refine iff_of_true rfl ⟨not_le.1 hexp, ?_, not_lt.1 hearly⟩
    rwa [not_and_or, not_not, not_lt] at hquiet

/-- The time that passes at least before a probe is the delay. -/
theorem TimerProbes.isWait (hs : s.state = .stale) (h : TimerProbes e i s w) :
    IsWait e i s w (staleDelay e.conf s.onsCount) := by
  rw [timerProbes_iff hs] at h
  constructor
  · -- The delay had passed before the probe, when the session had not expired either.
    refine (timerProbes_iff hs).2 ⟨?_, h.2.1.imp_right fun _ => ?_, ?_⟩ <;> dsimp only <;> omega
  · intro x hx
    have hdelay := ((timerProbes_iff hs).1 hx).2.2
    dsimp only at hdelay
    omega

/-! ## Episodes -/

/-- What happens to a session while it is stale: it has become so with `first` probes
    counted, and the timers had to wait for `waits` before the probes they sent. -/
inductive StaleEpisode (c : Conf) (i : SessionId) (first : ℤ) : Session → List ℤ → Prop
  /-- The timers make a valid session stale. -/
  | entered {e : Env} {s s' : Session} {w w' : World} : e.conf = c → s.state = .valid →
      updateSession e i s w = (some s', w') → s'.state = .stale → s'.onsCount = first →
      StaleEpisode c i first s' []
  /-- The timers send no probe. -/
  | waited {e : Env} {s s' : Session} {w w' : World} {waits : List ℤ} : e.conf = c →
      StaleEpisode c i first s waits → ¬TimerProbes e i s w →
      updateSession e i s w = (some s', w') → s'.state = .stale → StaleEpisode c i first s' waits
  /-- The timers send a probe. -/
  | probed {e : Env} {s s' : Session} {w w' : World} {waits : List ℤ} {d : ℤ} : e.conf = c →
      StaleEpisode c i first s waits → TimerProbes e i s w → IsWait e i s w d →
      updateSession e i s w = (some s', w') → s'.state = .stale →
      StaleEpisode c i first s' (waits ++ [d])
  /-- A solicitation comes, and triggers no probe. -/
  | solicited {e : Env} {src : Addr} {srcLl : Option LlAddr} {s s' : Session} {w : World}
      {waits : List ℤ} : e.conf = c → StaleEpisode c i first s waits →
      ndSessionHandleNs e i src srcLl s w = (s', w) → StaleEpisode c i first s' waits
  /-- An interface went away or came back. -/
  | rebound {e : Env} {f : IfaceId} {up : Bool} {s : Session} {w : World} {waits : List ℤ} :
      StaleEpisode c i first s waits →
      StaleEpisode c i first (ifaceChanged e f up i s w).1 waits

/-- The delays that follow each other. -/
def staleDelays (c : Conf) (first : ℤ) (n : ℕ) : List ℤ :=
  (List.range n).map fun k : ℕ => staleDelay c (first + k)

/-- A session becomes stale with one probe, or with none. -/
theorem first_eq (hv : s.state = .valid) (hu : updateSession e i s w = (some s', w'))
    (hs' : s'.state = .stale) : s'.onsCount = 0 ∨ s'.onsCount = 1 := by
  have hcase := updateCase e i s w
  rw [hu] at hcase
  cases hcase with
  | staleProbed => exact .inr rfl
  | staleQuiet => exact .inl rfl
  | idle => exact absurd (hv.symm.trans hs') (by simp)
  | renewed => exact absurd (hv.symm.trans hs') (by simp)
  | held hs => exact absurd (hv.symm.trans hs) (by simp)
  | retransmitted hs => exact absurd (hv.symm.trans hs) (by simp)
  | reprobed hs => exact absurd (hv.symm.trans hs) (by simp)
  | released => exact absurd hs' (by simp)
  | gaveUp => exact absurd hs' (by simp)
  | disowned => exact absurd hs' (by simp)
  | expired => exact absurd hs' (by simp)

/-- What the timers do to a session that stays stale: they send a probe and count it, or
    they leave it as it is. -/
theorem stays_stale (hs : s.state = .stale) (hu : updateSession e i s w = (some s', w'))
    (hs' : s'.state = .stale) :
    TimerProbes e i s w ∧ s'.onsCount = s.onsCount + 1 ∨ ¬TimerProbes e i s w ∧ s' = s := by
  have hprobes : TimerProbes e i s w ↔ w' = ndIfaceSendNs e i s.iface s.tgtR w := by
    rw [TimerProbes, hu]
  have hcase := updateCase e i s w
  rw [hu] at hcase
  rw [hprobes]
  cases hcase with
  | idle => exact .inr ⟨ne_ndIfaceSendNs e i s.iface s.tgtR _, rfl⟩
  | reprobed => exact .inl ⟨rfl, rfl⟩
  | expired => exact absurd hs' (by simp)
  | held hinc => exact absurd (hs.symm.trans hinc) (by simp)
  | released hinc => exact absurd (hs.symm.trans hinc) (by simp)
  | gaveUp hinc => exact absurd (hs.symm.trans hinc) (by simp)
  | retransmitted hinc => exact absurd (hs.symm.trans hinc) (by simp)
  | renewed hv => exact absurd (hs.symm.trans hv) (by simp)
  | disowned hv => exact absurd (hs.symm.trans hv) (by simp)
  | staleProbed hv => exact absurd (hs.symm.trans hv) (by simp)
  | staleQuiet hv => exact absurd (hs.symm.trans hv) (by simp)

/-- A solicitation that triggers no probe leaves the count as it is. -/
theorem solicited_stale {src : Addr} {srcLl : Option LlAddr} (hs : s.state = .stale)
    (hns : ndSessionHandleNs e i src srcLl s w = (s', w)) :
    s'.state = .stale ∧ s'.onsCount = s.onsCount := by
  obtain ⟨w', hw, hcase⟩ : ∃ w', w' = w ∧ NsCase e i src srcLl s w s' w' := by
    have hcase := nsCase e i src srcLl s w
    rw [hns] at hcase
    exact ⟨w, rfl, hcase⟩
  cases hcase with
  | dropped => exact ⟨hs, rfl⟩
  | queued => exact ⟨hs, rfl⟩
  | answered hv => exact absurd (hs.symm.trans hv) (by simp)
  | resumed _ _ _ _ hinv => exact absurd (hs.symm.trans hinv) (by simp)
  | probed => exact absurd hw.symm (ne_ndIfaceSendNs _ _ _ _ _)

/-- The waits of an episode are the delays, one after the other. -/
theorem StaleEpisode.waits_eq (h : StaleEpisode c i first s waits) :
    s.state = .stale ∧ (first = 0 ∨ first = 1) ∧ s.onsCount = first + waits.length ∧
      waits = staleDelays c first waits.length := by
  induction h with
  | entered hc hv hu hs' hfirst =>
    exact ⟨hs', hfirst ▸ first_eq hv hu hs', by simpa using hfirst, rfl⟩
  | waited hc _ hno hu hs' ih =>
    obtain ⟨hprobe, -⟩ | ⟨-, rfl⟩ := stays_stale ih.1 hu hs'
    · exact absurd hprobe hno
    · exact ih
  | @probed e s s' w w' waits d hc _ hprobe hwait hu hs' ih =>
    obtain ⟨hs, hfirst, hcount, hwaits⟩ := ih
    obtain ⟨-, hnext⟩ | ⟨hno, -⟩ := stays_stale hs hu hs'
    · refine ⟨hs', hfirst, ?_, ?_⟩
      · rw [hnext, hcount, List.length_append, List.length_singleton]
        push_cast
        ring
      · rw [hwait.unique (hprobe.isWait hs), hc, hcount, List.length_append, List.length_singleton,
          staleDelays, List.range_succ, List.map_append, ← staleDelays, ← hwaits]
        rfl
    · exact absurd hprobe hno
  | solicited hc _ hns ih =>
    obtain ⟨hs, hfirst, hcount, hwaits⟩ := ih
    obtain ⟨hs', hcount'⟩ := solicited_stale hs hns
    exact ⟨hs', hfirst, hcount'.trans hcount, hwaits⟩
  | @rebound e f up s w waits _ ih =>
    obtain ⟨b, hb⟩ := ifaceChanged_fst e f up i s w
    rw [hb]
    exact ih

/-! ## The documented back-off -/

/-- What the documentation says of the waits: they do not decrease, and they double every
    `limit` probes, up to `2 ^ cap` times the first one. (The probes may be counted from
    any one on.) -/
structure BacksOff (time : ℤ) (limit cap : ℕ) (waits : List ℤ) : Prop where
  mono : waits.Pairwise (· ≤ ·)
  doubles : ∃ phase, ∀ k < waits.length,
    waits[k]? = some (time * 2 ^ min ((phase + k) / limit) cap)

variable {limit cap n f : ℕ}

/-- The number of doublings of the delay after `k` probes. -/
def doublings (limit k : ℕ) : ℕ := if k ≠ 0 ∧ k % limit = 0 then min (k / 3) 16 else 0

/-- The delay after `k` probes. -/
theorem staleDelay_natCast (hlimit : c.retransLimit = limit) (hpos : 1 ≤ limit) (k : ℕ) :
    staleDelay c k = c.retransTime * 2 ^ doublings limit k := by
  have hdiv : ((k : ℤ).tdiv 3) = (k / 3 : ℕ) := rfl
  have hmod : (k : ℤ).tmod limit = (k % limit : ℕ) := rfl
  have hshift : (min ((k / 3 : ℕ) : ℤ) 16).toNat = min (k / 3) 16 := by omega
  have hcond : ((k : ℤ) ≠ 0 ∧ c.retransLimit > 0 ∧ (k : ℤ).tmod c.retransLimit = 0) ↔
      k ≠ 0 ∧ k % limit = 0 := by
    rw [hlimit, hmod]
    omega
  rw [staleDelay, doublings, hdiv, hshift, if_congr hcond rfl rfl]
  split_ifs
  · rfl
  · rw [pow_zero, mul_one]

theorem getElem?_staleDelays (hlimit : c.retransLimit = limit) (hpos : 1 ≤ limit) {k : ℕ}
    (hk : k < n) :
    (staleDelays c f n)[k]? = some (c.retransTime * 2 ^ doublings limit (f + k)) := by
  rw [staleDelays, List.getElem?_map, List.getElem?_range hk, Option.map_some, ← Nat.cast_add,
    staleDelay_natCast hlimit hpos]

theorem length_staleDelays (c : Conf) (first : ℤ) (n : ℕ) :
    (staleDelays c first n).length = n := by
  rw [staleDelays, List.length_map, List.length_range]

/-- Waits that double do not decrease. -/
theorem backsOff_of_doubles {time : ℤ} (p : ℕ) (htime : 0 < time)
    (h : ∀ k < waits.length, waits[k]? = some (time * 2 ^ min ((p + k) / limit) cap)) :
    BacksOff time limit cap waits := by
  refine ⟨List.pairwise_iff_getElem.2 fun j k hj hk hjk => ?_, p, h⟩
  have hwait (k : ℕ) (hk : k < waits.length) :
      waits[k] = time * 2 ^ min ((p + k) / limit) cap := by
    have hk' := h k hk
    rwa [List.getElem?_eq_getElem hk, Option.some_inj] at hk'
  have hexp : min ((p + j) / limit) cap ≤ min ((p + k) / limit) cap :=
    min_le_min_right _ (Nat.div_le_div_right (by omega))
  rw [hwait j hj, hwait k hk]
  exact mul_le_mul_of_nonneg_left (pow_le_pow_right₀ (by decide) hexp) htime.le

theorem doublings_of_lt {k : ℕ} (h : k < limit) : doublings limit k = 0 := by
  rw [doublings, Nat.mod_eq_of_lt h]
  exact if_neg (by omega)

theorem doublings_self (hpos : 1 ≤ limit) : doublings limit limit = min (limit / 3) 16 := by
  rw [doublings, Nat.mod_self]
  exact if_pos (by omega)

theorem doublings_succ_self (hlimit : 2 ≤ limit) : doublings limit (limit + 1) = 0 := by
  rw [doublings, Nat.add_mod_left, Nat.mod_eq_of_lt hlimit]
  exact if_neg (by omega)

/-- An episode with `n` waits, before which `first` probes were counted, ends before a wait
    that is not as documented. -/
def EndsEarly (limit first n : ℕ) : Prop :=
  if limit ≤ 2 then n ≤ limit else if limit ≤ 5 then first + n ≤ limit + 1 else first + n ≤ limit

instance (limit first n : ℕ) : Decidable (EndsEarly limit first n) :=
  inferInstanceAs (Decidable (if limit ≤ 2 then n ≤ limit
    else if limit ≤ 5 then first + n ≤ limit + 1 else first + n ≤ limit))

/-- The delays follow a doubling of every `limit` probes only as long as it has not begun,
    but for limits for which a third is one. -/
theorem doublings_iff (hpos : 1 ≤ limit) (hcap : 1 ≤ cap) (hf : f = 0 ∨ f = 1) :
    (∃ phase, ∀ k < n, doublings limit (f + k) = min ((phase + k) / limit) cap) ↔
      EndsEarly limit f n := by
  rw [EndsEarly]
  by_cases h2 : limit ≤ 2
  · rw [if_pos h2]
    have hzero : ∀ k ≤ limit, doublings limit (f + k) = 0 := by
      intro k hk
      rw [doublings]
      obtain rfl | rfl : limit = 1 ∨ limit = 2 := by omega
      all_goals
        split_ifs
        · omega
        · rfl
    constructor
    · rintro ⟨phase, h⟩
      by_contra hn
      have hstart := h 0 (by omega)
      have hnext := h limit (by omega)
      rw [hzero 0 (by omega), Nat.add_zero] at hstart
      rw [hzero limit (le_refl _), Nat.add_div_right _ hpos] at hnext
      omega
    · intro hn
      refine ⟨0, fun k hk => ?_⟩
      rw [hzero k (by omega), Nat.zero_add, Nat.div_eq_of_lt (by omega), Nat.zero_min]
  rw [if_neg h2]
  have hself := doublings_self hpos
  by_cases h5 : limit ≤ 5
  · rw [if_pos h5]
    have hone : min (limit / 3) 16 = 1 := by omega
    rw [hone] at hself
    constructor
    · rintro ⟨phase, h⟩
      by_contra hn
      -- The delay goes back after the doubling.
      have hup := h (limit - f) (by omega)
      have hdown := h (limit + 1 - f) (by omega)
      rw [show f + (limit - f) = limit by omega, hself] at hup
      rw [show f + (limit + 1 - f) = limit + 1 by omega, doublings_succ_self (by omega)] at hdown
      have hle : (phase + (limit - f)) / limit ≤ (phase + (limit + 1 - f)) / limit :=
        Nat.div_le_div_right (by omega)
      omega
    · intro hn
      refine ⟨f, fun k hk => ?_⟩
      by_cases hlt : f + k < limit
      · rw [doublings_of_lt hlt, Nat.div_eq_of_lt hlt, Nat.zero_min]
      · rw [show f + k = limit by omega, hself, Nat.div_self hpos]
        omega
  · rw [if_neg h5]
    constructor
    · rintro ⟨phase, h⟩
      by_contra hn
      -- The delay is multiplied by four, or more.
      have hlow := h (limit - 1 - f) (by omega)
      have hup := h (limit - f) (by omega)
      rw [show f + (limit - 1 - f) = limit - 1 by omega, doublings_of_lt (by omega)] at hlow
      rw [show f + (limit - f) = limit by omega, hself] at hup
      have hle : (phase + (limit - f)) / limit ≤ (phase + (limit - 1 - f)) / limit + 1 := by
        rw [← Nat.add_div_right _ hpos]
        exact Nat.div_le_div_right (by omega)
      omega
    · intro hn
      refine ⟨0, fun k hk => ?_⟩
      rw [doublings_of_lt (by omega), Nat.zero_add, Nat.div_eq_of_lt (by omega), Nat.zero_min]

theorem backsOff_staleDelays_iff (hlimit : c.retransLimit = limit) (hpos : 1 ≤ limit)
    (htime : 0 < c.retransTime) (hcap : 1 ≤ cap) (hf : f = 0 ∨ f = 1) :
    BacksOff c.retransTime limit cap (staleDelays c f n) ↔ EndsEarly limit f n := by
  rw [← doublings_iff hpos hcap hf]
  have hpow {a b : ℕ} : c.retransTime * 2 ^ a = c.retransTime * 2 ^ b ↔ a = b := by
    rw [mul_right_inj' htime.ne', pow_right_inj₀ (by decide) (by decide)]
  constructor
  · rintro ⟨-, phase, h⟩
    refine ⟨phase, fun k hk => ?_⟩
    have hk' := h k (by rwa [length_staleDelays])
    rwa [getElem?_staleDelays hlimit hpos hk, Option.some_inj, hpow] at hk'
  · rintro ⟨phase, h⟩
    refine backsOff_of_doubles phase htime fun k hk => ?_
    rw [length_staleDelays] at hk
    rw [getElem?_staleDelays hlimit hpos hk, Option.some_inj, hpow]
    exact h k hk

/-- The waits of an episode are those of the documentation only if the episode ends early. -/
theorem backsOff_iff (hlimit : 1 ≤ c.retransLimit) (htime : 0 < c.retransTime) (hcap : 1 ≤ cap)
    (h : StaleEpisode c i first s waits) :
    BacksOff c.retransTime c.retransLimit.toNat cap waits ↔
      EndsEarly c.retransLimit.toNat first.toNat waits.length := by
  obtain ⟨-, hfirst, -, hwaits⟩ := h.waits_eq
  have hcast : first = first.toNat := by omega
  have hf : first.toNat = 0 ∨ first.toNat = 1 := by omega
  rw [← backsOff_staleDelays_iff (c := c) (by omega) (by omega) htime hcap hf, ← hcast, ← hwaits]

/-! ## A small episode -/

/-- The timers send one more probe. -/
theorem StaleEpisode.next (h : StaleEpisode c i first s waits) (hc : e.conf = c)
    (hprobe : TimerProbes e i s w) :
    StaleEpisode c i first { s with onsCount := s.onsCount + 1, onsTime := e.now }
      (waits ++ [staleDelay c s.onsCount]) := by
  have hs := h.waits_eq.1
  have hwait := hprobe.isWait hs
  rw [hc] at hwait
  have hup := (timerProbes_iff hs).1 hprobe
  have hquiet : ¬(¬e.conf.keepalive ∧ e.now - s.insTime > e.conf.validTtl) := by
    rw [not_and_or, not_not, not_lt]
    exact hup.2.1
  have hu : updateSession e i s w = (some { s with onsCount := s.onsCount + 1, onsTime := e.now },
      ndIfaceSendNs e i s.iface s.tgtR w) := by
    rw [updateSession, hs]
    dsimp only
    rw [if_neg (not_le.2 hup.1), if_neg hquiet, if_neg (not_lt.2 hup.2.2)]
  exact .probed hc h hprobe hwait hu hs

namespace Small

/-- The default settings, with `keepalive`. -/
def keepalive : Conf := { conf with keepalive := true }

/-- What the calls at a time read. -/
def keepaliveAt (now : ℤ) : Env where
  kernel := kernel
  conf := keepalive
  cfg := .empty
  rt := {}
  now := now

/-- A session that has been valid for as long as it may be. -/
def valid : Session where
  rule := 0
  tgt := 0
  tgtR := 0
  stateTime := 0
  state := .valid
  iface := some 0

/-- The session since it is stale: the number of probes that are counted, and the time of
    the last one. -/
def staleAt (onsCount onsTime : ℤ) : Session :=
  { valid with state := .stale, stateTime := 30000, onsCount := onsCount, onsTime := onsTime }

theorem staleAt_probes (now : ℤ) {onsCount onsTime : ℤ} (hexp : now - 30000 < 30000)
    (hdelay : staleDelay keepalive onsCount ≤ now - onsTime) :
    TimerProbes (keepaliveAt now) 0 (staleAt onsCount onsTime) { net := .empty, log := [] } :=
  (timerProbes_iff rfl).2 ⟨hexp, .inl rfl, hdelay⟩

/-- It is probed when one, two and four seconds have passed. -/
theorem threeWaits : StaleEpisode keepalive 0 1 (staleAt 4 34000) [1000, 1000, 2000] := by
  have h₀ : StaleEpisode keepalive 0 1 (staleAt 1 30000) [] :=
    .entered (e := keepaliveAt 30000) (s := valid) (w := { net := .empty, log := [] }) rfl rfl rfl
      rfl rfl
  have h₁ := h₀.next rfl (staleAt_probes 31000 (by decide) (by decide))
  have h₂ := h₁.next rfl (staleAt_probes 32000 (by decide) (by decide))
  exact h₂.next rfl (staleAt_probes 34000 (by decide) (by decide))

/-- Up to there, the waits are as documented. -/
theorem threeWaits_backsOff : 1 ≤ keepalive.retransLimit ∧ 0 < keepalive.retransTime ∧
    StaleEpisode keepalive 0 1 (staleAt 4 34000) [1000, 1000, 2000] ∧
    BacksOff 1000 3 16 [1000, 1000, 2000] :=
  ⟨by decide, by decide, threeWaits,
    (backsOff_iff (by decide) (by decide) (by decide) threeWaits).2 (by decide)⟩

/-- The next wait is shorter again. -/
theorem fourWaits_not_backsOff :
    StaleEpisode keepalive 0 1 (staleAt 5 35000) [1000, 1000, 2000, 1000] ∧
      ∀ cap, ¬BacksOff 1000 3 cap [1000, 1000, 2000, 1000] :=
  ⟨threeWaits.next rfl (staleAt_probes 35000 (by decide) (by decide)),
    fun _ h => absurd h.mono (by decide)⟩

end Small

end Ndppd
