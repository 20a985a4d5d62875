import Ndppd.Session.Loops

/-!
# Runs of the session layer

The session layer by itself: any sequence of its calls, at any times, from an
empty store. Between two calls, anything may happen outside of it: the
interface objects, the routes and addresses and the answers of the kernel are
given anew for each call.

In every state reached, the two tables and the counter are in step, and each
session comes from a solicitation (`sessionRun_consistent`).
-/

namespace Ndppd

open Intrusive

variable {conf : Conf} {cfg : Config}

/-- The calls of the session layer. -/
inductive Op
  | handleNs (p : ProxyId) (src tgt : Addr) (srcLl : Option LlAddr)
  | handleNa (i : SessionId)
  | ifaceChanged (f : IfaceId) (up : Bool)
  | updateAll

/-- Makes a call. -/
def Op.exec (e : Env) (m : Mem) : Op → Mem
  | .handleNs p src tgt srcLl => ndProxyHandleNs e p src tgt srcLl m
  | .handleNa i => m.withSession i (ndSessionHandleNa e i)
  | .ifaceChanged f up => ndSessionIfaceChanged e f up m
  | .updateAll => ndSessionUpdateAll e m

/-- The interfaces are changed. -/
def Mem.withNet (m : Mem) (net : Net) : Mem := { m with world := { m.world with net := net } }

/-- A call, and what is outside of the session layer when it is made. -/
structure Call where
  kernel : Kernel
  rt : Rt
  net : Net
  now : ℤ
  op : Op

/-- What a call reads. -/
def Call.env (conf : Conf) (cfg : Config) (c : Call) : Env where
  kernel := c.kernel
  conf := conf
  cfg := cfg
  rt := c.rt
  now := c.now

/-- The state after a call. -/
def Call.exec (conf : Conf) (cfg : Config) (m : Mem) (c : Call) : Mem :=
  c.op.exec (c.env conf cfg) (m.withNet c.net)

/-- The state after some calls. -/
def sessionRun (conf : Conf) (cfg : Config) (cs : List Call) : Mem :=
  cs.foldl (Call.exec conf cfg) { store := .empty, world := { net := .empty, log := [] } }

theorem sessionRun_concat (cs : List Call) (c : Call) :
    sessionRun conf cfg (cs ++ [c]) = Call.exec conf cfg (sessionRun conf cfg cs) c := by
  rw [sessionRun, List.foldl_concat]
  rfl

theorem Op.exec_ok {e : Env} {m : Mem} (h : e.Ok m.store) (op : Op) :
    e.Ok (op.exec e m).store := by
  cases op with
  | handleNs p src tgt srcLl => exact (proxyNsCase e p src tgt srcLl m).ok h
  | handleNa i => exact Mem.withSession_ok h fun s w => (naCase e i s w).sameKey
  | ifaceChanged f up => exact ndSessionIfaceChanged_ok f up h
  | updateAll => exact ndSessionUpdateAll_ok h

/-- The invariant of the store holds in every state reached. -/
theorem sessionRun_ok (conf : Conf) (cfg : Config) (cs : List Call) :
    (sessionRun conf cfg cs).store.WellFormed conf cfg :=
  List.foldlRecOn (motive := fun m : Mem => m.store.WellFormed conf cfg) cs _ (.empty conf cfg)
    fun m h c _ => Op.exec_ok (e := c.env conf cfg) (m := m.withNet c.net) h c.op

/-! ## Where sessions come from -/

/-- The call `op` is a solicitation for the target of `s`, on the proxy `p`, of
    which its rule is a rule. -/
def Session.From (cfg : Config) (s : Session) (p : ProxyId) (op : Op) : Prop :=
  (∃ src srcLl, op = .handleNs p src s.tgt srcLl) ∧ s.rule ∈ (cfg.proxy p).rules

/-- A call keeps the sessions there are, except for the one a solicitation creates. -/
theorem Op.exec_origin {e : Env} {m : Mem} (h : e.Ok m.store) (op : Op) {i : SessionId}
    {s' : Session} (hs' : (op.exec e m).store.session i = some s') :
    (∃ s, m.store.session i = some s ∧ s.SameKey s') ∨ ∃ p, s'.From e.cfg p op := by
  cases op with
  | handleNs p src tgt srcLl =>
    have hcase : ProxyNsCase e p src tgt srcLl m _ := proxyNsCase e p src tgt srcLl m
    rw [Op.exec] at hs'
    generalize ndProxyHandleNs e p src tgt srcLl m = m' at hcase hs'
    cases hcase with
    | ignored => exact .inl (Store.Keeps.refl _ i s' hs')
    | found j s q w' hs _ _ hns => exact .inl (Store.keeps_set hs hns.sameKey i s' hs')
    | created r s q w w' hf hr hc hstart hns =>
      by_cases hi : i = m.store.fresh
      · -- The new session.
        subst hi
        obtain rfl : q = s' := Option.some.inj ((Store.set_session_self ..).symm.trans hs')
        have hk := hstart.sameKey.trans hns.sameKey
        refine .inr ⟨p, ⟨src, srcLl, ?_⟩, ?_⟩
        · rw [hk.tgt]
          rfl
        · rw [hk.rule]
          exact (of_findRule_eq_some hr).1
      · rw [Store.set_session_of_ne _ _ hi, Store.link_session_of_ne _ _ _ hi] at hs'
        exact .inl (Store.Keeps.refl _ i s' hs')
  | handleNa j =>
    exact .inl (m.withSession_keeps (fun s w => (naCase e j s w).sameKey) i s' hs')
  | ifaceChanged f up =>
    rw [Op.exec] at hs'
    exact .inl (ndSessionIfaceChanged_keeps f up h i s' hs')
  | updateAll =>
    rw [Op.exec] at hs'
    exact .inl (ndSessionUpdateAll_keeps h i s' hs')

theorem sessionRun_origin (cs : List Call) {i : SessionId} {s : Session}
    (hs : (sessionRun conf cfg cs).store.session i = some s) :
    ∃ c ∈ cs, ∃ p, s.From cfg p c.op := by
  induction cs using List.reverseRecOn generalizing s with
  | nil => exact absurd hs (by simp [sessionRun, Store.empty])
  | append_singleton cs c ih =>
    rw [sessionRun_concat] at hs
    have hok := sessionRun_ok conf cfg cs
    rcases Op.exec_origin (e := c.env conf cfg) (m := (sessionRun conf cfg cs).withNet c.net)
      hok c.op hs with ⟨s₀, hs₀, hk⟩ | ⟨p, hp⟩
    · obtain ⟨c', hc', p, ⟨src, srcLl, hop⟩, hr⟩ := ih hs₀
      refine ⟨c', List.mem_append_left _ hc', p, ⟨src, srcLl, ?_⟩, ?_⟩
      · rw [hop, hk.tgt]
      · rw [hk.rule]
        exact hr
    · exact ⟨c, List.mem_append_right _ List.mem_cons_self, p, hp⟩

/-! ## The tables -/

theorem Indexes.count_eq {key : Session → Addr} {n : ℕ} {session : SessionId → Option Session}
    {t : Table (Fin ndppdSessionBuckets) SessionId} (h : Indexes conf key n session t)
    {i : SessionId} {s : Session} (hs : session i = some s) (b : Fin ndppdSessionBuckets) :
    (buckets n t b).count i = if b = ndlBucket conf (key s) then 1 else 0 := by
  split_ifs with hb
  · exact List.count_eq_one_of_mem (h.holds.chain b).nodup ((h.mem_iff b i).2 ⟨s, hs, hb.symm⟩)
  · rw [List.count_eq_zero, h.mem_iff]
    rintro ⟨t, ht, hb'⟩
    rw [Option.some.inj (hs.symm.trans ht)] at hb
    exact hb hb'.symm

theorem Indexes.exists_mem_iff {key : Session → Addr} {n : ℕ}
    {session : SessionId → Option Session} {t : Table (Fin ndppdSessionBuckets) SessionId}
    (h : Indexes conf key n session t) (i : SessionId) :
    (∃ b, i ∈ buckets n t b) ↔ (session i).isSome := by
  constructor
  · rintro ⟨b, hb⟩
    obtain ⟨s, hs, -⟩ := (h.mem_iff b i).1 hb
    rw [hs]
    rfl
  · intro hi
    obtain ⟨s, hs⟩ := Option.isSome_iff_exists.1 hi
    exact ⟨_, (h.mem_iff _ i).2 ⟨s, hs, rfl⟩⟩

/-- In every state the session layer reaches,

    * the lists of both tables end, and the tables hold the same sessions: those
      that are allocated;
    * a session is once in the list of its target in the first table, once in
      that of its rewritten target in the second one, and in no other list;
    * the counter is the number of sessions, and at most `ND_SESSION_MAX`;
    * there is one session per target and proxy;
    * a session comes from a solicitation for its target; its rule is a rule of
      the proxy the solicitation came in on, matches the target, and rewrites it. -/
theorem sessionRun_consistent (conf : Conf) (cfg : Config) (cs : List Call) :
    let st := (sessionRun conf cfg cs).store
    (∀ b, Chain st.sessions.next (st.sessions.head b) (st.bucket b) ∧
      Chain st.sessionsR.next (st.sessionsR.head b) (st.bucketR b)) ∧
    (∀ i, ((∃ b, i ∈ st.bucket b) ↔ (st.session i).isSome) ∧
      ((∃ b, i ∈ st.bucketR b) ↔ (st.session i).isSome)) ∧
    (∀ i s, st.session i = some s →
      (∀ b, (st.bucket b).count i = if b = ndlBucket conf s.tgt then 1 else 0) ∧
      (∀ b, (st.bucketR b).count i = if b = ndlBucket conf s.tgtR then 1 else 0)) ∧
    (∃ l : List SessionId, l.Nodup ∧ (∀ i, i ∈ l ↔ (st.session i).isSome) ∧
      st.count = l.length ∧ st.count ≤ ndSessionMax) ∧
    (∀ i j s t, st.session i = some s → st.session j = some t → s.tgt = t.tgt →
      (cfg.rule s.rule).proxy = (cfg.rule t.rule).proxy → i = j) ∧
    ∀ i s, st.session i = some s → ∃ c ∈ cs, ∃ p src srcLl, c.op = .handleNs p src s.tgt srcLl ∧
      s.rule ∈ (cfg.proxy p).rules ∧ (cfg.rule s.rule).proxy = p ∧
      ndAddrMatch conf.byteOrder (cfg.rule s.rule).addr s.tgt (cfg.rule s.rule).pflen = true ∧
      s.tgtR = ndAddrCombine conf.byteOrder (cfg.rule s.rule).rewriteTgt s.tgt
        (cfg.rule s.rule).rewritePflen := by
  intro st
  have h : st.WellFormed conf cfg := sessionRun_ok conf cfg cs
  refine ⟨?_, ?_, ?_, ?_, h.unique, ?_⟩
  · exact fun b => ⟨h.byTgt.holds.chain b, h.byTgtR.holds.chain b⟩
  · exact fun i => ⟨h.byTgt.exists_mem_iff i, h.byTgtR.exists_mem_iff i⟩
  · exact fun i s hs => ⟨h.byTgt.count_eq hs, h.byTgtR.count_eq hs⟩
  · exact ⟨st.live, List.nodup_range.filter _, fun i => Store.mem_live h.before, h.count_eq,
      h.count_le⟩
  · intro i s hs
    obtain ⟨c, hc, p, ⟨src, srcLl, hop⟩, hr⟩ := sessionRun_origin cs hs
    have hm := h.matched i s hs
    exact ⟨c, hc, p, src, srcLl, hop, hr, cfg.linked p _ hr, hm.addr_match, hm.tgtR_eq⟩

end Ndppd
