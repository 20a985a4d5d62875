import Ndppd.Session.Cases

/-!
# The store of sessions

The two tables, the counter and the sessions themselves stay in step
(`Store.WellFormed`): each session that is allocated is once in each table, in
the list of its target (`Indexes`), the counter counts the sessions and stays
within its bound, and there is one session per target and proxy. Writing,
linking and unlinking a session keep this.
-/

namespace Ndppd

open Intrusive

/-! ## Indexes -/

/-- The lists of a table, followed for at most `n` sessions. -/
def buckets (n : ℕ) (t : Table (Fin ndppdSessionBuckets) SessionId)
    (b : Fin ndppdSessionBuckets) : List SessionId :=
  walk t.next n (t.head b)

/-- The table `t` holds each session once, in the list of its key, the newest
    session first. -/
structure Indexes (c : Conf) (key : Session → Addr) (n : ℕ) (session : SessionId → Option Session)
    (t : Table (Fin ndppdSessionBuckets) SessionId) : Prop where
  holds : t.Holds (buckets n t)
  mem_iff : ∀ b i, i ∈ buckets n t b ↔ ∃ s, session i = some s ∧ ndlBucket c (key s) = b
  sorted : ∀ b, (buckets n t b).Pairwise (· > ·)

/-- All sessions were allocated before `n`. -/
def Before (n : ℕ) (session : SessionId → Option Session) : Prop :=
  ∀ i s, session i = some s → i < n

namespace Indexes

variable {c : Conf} {key : Session → Addr} {n : ℕ} {session : SessionId → Option Session}
  {t : Table (Fin ndppdSessionBuckets) SessionId} {i : SessionId} {s s' : Session}

theorem lt_of_mem (h : Indexes c key n session t) (hn : Before n session)
    {b : Fin ndppdSessionBuckets} (hi : i ∈ buckets n t b) : i < n :=
  let ⟨s, hs, _⟩ := (h.mem_iff b i).1 hi
  hn i s hs

theorem length_le (h : Indexes c key n session t) (hn : Before n session)
    (b : Fin ndppdSessionBuckets) : (buckets n t b).length ≤ n :=
  length_le_of_lt (h.holds.chain b).nodup fun _ hi => h.lt_of_mem hn hi

/-- The lists of a table are found by following it far enough. -/
theorem buckets_eq {L : Fin ndppdSessionBuckets → List SessionId} (h : t.Holds L)
    (hn : ∀ b, ∀ i ∈ L b, i < n) : buckets n t = L :=
  funext fun b => (h.chain b).walk_eq (length_le_of_lt (h.chain b).nodup (hn b))

theorem of_holds {L : Fin ndppdSessionBuckets → List SessionId} (h : t.Holds L)
    (hL : ∀ b i, i ∈ L b ↔ ∃ s, session i = some s ∧ ndlBucket c (key s) = b)
    (hs : ∀ b, (L b).Pairwise (· > ·)) (hn : Before n session) : Indexes c key n session t := by
  have hb : buckets n t = L := buckets_eq h fun b i hi =>
    let ⟨s, hs, _⟩ := (hL b i).1 hi
    hn i s hs
  exact ⟨hb ▸ h, hb ▸ hL, hb ▸ hs⟩

theorem empty (c : Conf) (key : Session → Addr) : Indexes c key 0 (fun _ => none) .empty :=
  of_holds Table.holds_empty (by simp) (by simp) (by simp [Before])

/-- Writing a session with the same key. -/
theorem set (h : Indexes c key n session t) (hs : session i = some s) (hk : key s' = key s) :
    Indexes c key n (Function.update session i (some s')) t where
  holds := h.holds
  mem_iff b j := by
    rw [h.mem_iff]
    by_cases hj : j = i
    · subst hj
      simp [hs, hk]
    · rw [Function.update_of_ne hj]
  sorted := h.sorted

/-- Linking a new session. -/
theorem link (h : Indexes c key n session t) (hn : Before n session) (s : Session) :
    Indexes c key (n + 1) (Function.update session n (some s))
      (t.prepend (ndlBucket c (key s)) n) := by
  have hnew : ∀ b, n ∉ buckets n t b := fun b hi => Nat.lt_irrefl n (h.lt_of_mem hn hi)
  refine of_holds (h.holds.prepend hnew) (fun b i => ?_) (fun b => ?_) (fun i s' hs' => ?_)
  · by_cases hi : i = n
    · subst hi
      by_cases hb : b = ndlBucket c (key s)
      · subst hb; simp
      · simp [Function.update_of_ne hb, hnew b, Ne.symm hb]
    · rw [Function.update_of_ne hi, ← h.mem_iff b i]
      by_cases hb : b = ndlBucket c (key s)
      · subst hb; simp [hi]
      · rw [Function.update_of_ne hb]
  · by_cases hb : b = ndlBucket c (key s)
    · subst hb
      rw [Function.update_self, List.pairwise_cons]
      exact ⟨fun i hi => h.lt_of_mem hn hi, h.sorted _⟩
    · rw [Function.update_of_ne hb]
      exact h.sorted b
  · by_cases hi : i = n
    · exact hi ▸ Nat.lt_succ_self n
    · rw [Function.update_of_ne hi] at hs'
      exact Nat.lt_succ_of_lt (hn i s' hs')

/-- The lists after unlinking a session. -/
theorem buckets_delete (h : Indexes c key n session t) (hn : Before n session)
    (hs : session i = some s) : buckets n (t.delete n (ndlBucket c (key s)) i) =
      Function.update (buckets n t) (ndlBucket c (key s))
        ((buckets n t (ndlBucket c (key s))).erase i) := by
  have hi : i ∈ buckets n t (ndlBucket c (key s)) := (h.mem_iff _ i).2 ⟨s, hs, rfl⟩
  refine buckets_eq (h.holds.delete hi (h.length_le hn _)) fun b j hj => ?_
  by_cases hb : b = ndlBucket c (key s)
  · subst hb
    rw [Function.update_self] at hj
    exact h.lt_of_mem hn (List.mem_of_mem_erase hj)
  · rw [Function.update_of_ne hb] at hj
    exact h.lt_of_mem hn hj

/-- Unlinking a session. -/
theorem unlink (h : Indexes c key n session t) (hn : Before n session) (hs : session i = some s) :
    Indexes c key n (Function.update session i none) (t.delete n (ndlBucket c (key s)) i) := by
  have hi : i ∈ buckets n t (ndlBucket c (key s)) := (h.mem_iff _ i).2 ⟨s, hs, rfl⟩
  refine of_holds (h.holds.delete hi (h.length_le hn _)) (fun b j => ?_) (fun b => ?_)
    (fun j s' hs' => ?_)
  · by_cases hj : j = i
    · subst hj
      by_cases hb : b = ndlBucket c (key s)
      · subst hb
        simpa using (h.holds.chain _).nodup.not_mem_erase
      · rw [Function.update_of_ne hb, Function.update_self]
        simpa using fun hj => hb (h.holds.disjoint hj hi)
    · rw [Function.update_of_ne hj, ← h.mem_iff b j]
      by_cases hb : b = ndlBucket c (key s)
      · subst hb
        rw [Function.update_self, List.mem_erase_of_ne hj]
      · rw [Function.update_of_ne hb]
  · by_cases hb : b = ndlBucket c (key s)
    · subst hb
      rw [Function.update_self]
      exact (h.sorted _).sublist List.erase_sublist
    · rw [Function.update_of_ne hb]
      exact h.sorted b
  · by_cases hj : j = i
    · subst hj; simp at hs'
    · rw [Function.update_of_ne hj] at hs'
      exact hn j s' hs'

end Indexes

/-! ## Keys -/

section Keeps

variable {st st' st'' : Store} {i : SessionId} {s s' : Session}

/-- Each session of `st'` is one of `st`, with the same rule and targets. -/
def Store.Keeps (st st' : Store) : Prop :=
  ∀ j t', st'.session j = some t' → ∃ t, st.session j = some t ∧ t.SameKey t'

theorem Store.Keeps.refl (st : Store) : st.Keeps st := fun _ t ht => ⟨t, ht, .refl t⟩

theorem Store.Keeps.trans (h : st.Keeps st') (h' : st'.Keeps st'') : st.Keeps st'' := by
  intro j t'' ht''
  obtain ⟨t', ht', hk'⟩ := h' j t'' ht''
  obtain ⟨t, ht, hk⟩ := h j t' ht'
  exact ⟨t, ht, hk.trans hk'⟩

theorem Store.keeps_set (hs : st.session i = some s) (hk : s.SameKey s') :
    st.Keeps (st.set i s') := by
  intro j t ht
  by_cases hj : j = i
  · subst hj
    rw [Store.set_session_self] at ht
    exact ⟨s, hs, Option.some.inj ht ▸ hk⟩
  · rw [st.set_session_of_ne s' hj] at ht
    exact ⟨t, ht, .refl t⟩

theorem Store.keeps_unlink (st : Store) (c : Conf) (i : SessionId) (s : Session) :
    st.Keeps (st.unlink c i s) := by
  intro j t ht
  by_cases hj : j = i
  · subst hj
    simp at ht
  · rw [st.unlink_session_of_ne c s hj] at ht
    exact ⟨t, ht, .refl t⟩

end Keeps

/-! ## Well-formed stores -/

/-- The sessions that are allocated. -/
def Store.live (st : Store) : List SessionId :=
  (List.range st.fresh).filter fun i => (st.session i).isSome

/-- The target of a session matches its rule, which is a rule of its proxy, and
    is rewritten by it. -/
structure Session.Matched (c : Conf) (cfg : Config) (s : Session) : Prop where
  mem_rules : s.rule ∈ (cfg.proxy (cfg.rule s.rule).proxy).rules
  addr_match : ndAddrMatch c.byteOrder (cfg.rule s.rule).addr s.tgt (cfg.rule s.rule).pflen = true
  tgtR_eq : s.tgtR = ndAddrCombine c.byteOrder (cfg.rule s.rule).rewriteTgt s.tgt
    (cfg.rule s.rule).rewritePflen

/-- The invariant of the store. -/
structure Store.WellFormed (c : Conf) (cfg : Config) (st : Store) : Prop where
  before : Before st.fresh st.session
  byTgt : Indexes c Session.tgt st.fresh st.session st.sessions
  byTgtR : Indexes c Session.tgtR st.fresh st.session st.sessionsR
  count_eq : st.count = st.live.length
  count_le : st.count ≤ ndSessionMax
  unique : ∀ i j s t, st.session i = some s → st.session j = some t → s.tgt = t.tgt →
    (cfg.rule s.rule).proxy = (cfg.rule t.rule).proxy → i = j
  matched : ∀ i s, st.session i = some s → s.Matched c cfg

variable {e : Env} {c : Conf} {cfg : Config} {st : Store} {m : Mem} {i : SessionId}
  {s s' : Session}

theorem Store.mem_live (h : Before st.fresh st.session) :
    i ∈ st.live ↔ (st.session i).isSome := by
  rw [Store.live, List.mem_filter, List.mem_range]
  refine ⟨fun hi => hi.2, fun hi => ⟨?_, hi⟩⟩
  obtain ⟨s, hs⟩ := Option.isSome_iff_exists.1 hi
  exact h i s hs

theorem Session.Matched.congr (h : s.Matched c cfg) (hk : s.SameKey s') : s'.Matched c cfg := by
  obtain ⟨hr, ht, htr⟩ := hk
  constructor
  · rw [hr]; exact h.mem_rules
  · rw [hr, ht]; exact h.addr_match
  · rw [hr, ht, htr]; exact h.tgtR_eq

namespace Store.WellFormed

theorem empty (c : Conf) (cfg : Config) : Store.empty.WellFormed c cfg where
  before := by simp [Before, Store.empty]
  byTgt := Indexes.empty c _
  byTgtR := Indexes.empty c _
  count_eq := by simp [Store.empty, Store.live]
  count_le := by simp [Store.empty]
  unique := by simp [Store.empty]
  matched := by simp [Store.empty]

/-- Writing a session with the same rule and targets. -/
theorem set (h : st.WellFormed c cfg) (hs : st.session i = some s) (hk : s.SameKey s') :
    (st.set i s').WellFormed c cfg := by
  have hold := Store.keeps_set hs hk
  constructor
  · intro j t ht
    obtain ⟨t₀, ht₀, -⟩ := hold j t ht
    exact h.before j t₀ ht₀
  · exact h.byTgt.set hs hk.tgt
  · exact h.byTgtR.set hs hk.tgtR
  · have : (st.set i s').live = st.live := by
      refine List.filter_congr fun j _ => ?_
      by_cases hj : j = i
      · subst hj; simp [hs]
      · rw [st.set_session_of_ne s' hj]
    rw [this]
    exact h.count_eq
  · exact h.count_le
  · intro j k t u ht hu htu hp
    obtain ⟨t₀, ht₀, hkt⟩ := hold j t ht
    obtain ⟨u₀, hu₀, hku⟩ := hold k u hu
    refine h.unique j k t₀ u₀ ht₀ hu₀ ?_ ?_
    · rw [← hkt.tgt, ← hku.tgt, htu]
    · rw [← hkt.rule, ← hku.rule, hp]
  · intro j t ht
    obtain ⟨t₀, ht₀, hkt⟩ := hold j t ht
    exact (h.matched j t₀ ht₀).congr hkt

/-- Linking a session for a new target and proxy. -/
theorem link (h : st.WellFormed c cfg) (hcount : st.count < ndSessionMax) (hm : s.Matched c cfg)
    (hnew : ∀ j t, st.session j = some t → t.tgt = s.tgt →
      (cfg.rule t.rule).proxy ≠ (cfg.rule s.rule).proxy) : (st.link c s).WellFormed c cfg := by
  have hold : ∀ j t, (st.link c s).session j = some t →
      (j = st.fresh ∧ t = s) ∨ (j ≠ st.fresh ∧ st.session j = some t) := by
    intro j t ht
    by_cases hj : j = st.fresh
    · subst hj
      rw [Store.link_session_self] at ht
      exact .inl ⟨rfl, (Option.some.inj ht).symm⟩
    · rw [st.link_session_of_ne c s hj] at ht
      exact .inr ⟨hj, ht⟩
  constructor
  · intro j t ht
    rcases hold j t ht with ⟨rfl, -⟩ | ⟨-, ht⟩
    · exact Nat.lt_succ_self _
    · exact Nat.lt_succ_of_lt (h.before j t ht)
  · exact h.byTgt.link h.before s
  · exact h.byTgtR.link h.before s
  · have hlive : (st.link c s).live = st.live ++ [st.fresh] := by
      rw [Store.live, show (st.link c s).fresh = st.fresh + 1 from rfl, List.range_succ,
        List.filter_append]
      congr 1
      · refine List.filter_congr fun j hj => ?_
        rw [st.link_session_of_ne c s (Nat.ne_of_lt (List.mem_range.1 hj))]
      · simp
    rw [hlive, List.length_append, show (st.link c s).count = st.count + 1 from rfl, h.count_eq]
    simp
  · exact Int.add_one_le_of_lt hcount
  · intro j k t u ht hu htu hp
    rcases hold j t ht with ⟨rfl, rfl⟩ | ⟨-, ht'⟩ <;>
      rcases hold k u hu with ⟨rfl, rfl⟩ | ⟨-, hu'⟩
    · rfl
    · exact absurd hp.symm (hnew k u hu' htu.symm)
    · exact absurd hp (hnew j t ht' htu)
    · exact h.unique j k t u ht' hu' htu hp
  · intro j t ht
    rcases hold j t ht with ⟨-, rfl⟩ | ⟨-, ht⟩
    · exact hm
    · exact h.matched j t ht

/-- Unlinking a session. -/
theorem unlink (h : st.WellFormed c cfg) (hs : st.session i = some s) :
    (st.unlink c i s).WellFormed c cfg := by
  have hold : ∀ j t, (st.unlink c i s).session j = some t → j ≠ i ∧ st.session j = some t := by
    intro j t ht
    by_cases hj : j = i
    · subst hj
      simp at ht
    · rw [st.unlink_session_of_ne c s hj] at ht
      exact ⟨hj, ht⟩
  have hlive : (st.unlink c i s).live = st.live.erase i := by
    rw [Store.live, Store.live, (List.nodup_range.filter _).erase_eq_filter, List.filter_filter]
    refine List.filter_congr fun j _ => ?_
    by_cases hj : j = i
    · subst hj; simp
    · rw [st.unlink_session_of_ne c s hj]
      simp [hj]
  have hi : i ∈ st.live := (Store.mem_live h.before).2 (by simp [hs])
  have hcount : (st.unlink c i s).count = st.count - 1 := rfl
  constructor
  · exact fun j t ht => h.before j t (hold j t ht).2
  · exact h.byTgt.unlink h.before hs
  · exact h.byTgtR.unlink h.before hs
  · have hpos := List.length_pos_of_mem hi
    rw [hlive, List.length_erase_of_mem hi, hcount, h.count_eq]
    omega
  · have := h.count_le
    omega
  · exact fun j k t u ht hu => h.unique j k t u (hold j t ht).2 (hold k u hu).2
  · exact fun j t ht => h.matched j t (hold j t ht).2

end Store.WellFormed

end Ndppd
