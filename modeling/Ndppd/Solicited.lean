import Ndppd.Daemon.Links
import Ndppd.Lib.Ledger
import Ndppd.Startup
import Mathlib.Algebra.BigOperators.Group.Finset.Basic

/-!
# Advertisements are solicited

Every advertisement the daemon sends answers a solicitation it received before:
on the same interface, for the same target, from the node the advertisement goes
to. No solicitation is answered twice (`Daemon.run_solicited`).

An answer is immediate, or it waits as a subscriber of a session. The
solicitations received are thus the inputs of a ledger, the advertisements its
outputs, and the subscribers what is still owed: for each interface, target and
destination (`Key`), the advertisements and subscribers together are at most as
many as the solicitations (`Mem.Balanced`).

The interface of a solicitation is that of the proxy which answers, as an
interface object points back to a proxy of which it is the interface
(`Net.Bound`).
-/

namespace Ndppd

open Ledger

variable {e : Env} {i : SessionId} {src : Addr} {srcLl : Option LlAddr} {s s' : Session}
  {w w' : World} {a : Action} {m m' : Mem} {c : Config} {n n' : Net} {f : IfaceId} {p : ProxyId}

/-! ## Interfaces and proxies -/

/-- An object that points to a proxy is the interface of this proxy. -/
def Net.Bound (c : Config) (n : Net) : Prop :=
  ∀ f p, (n.iface f).proxy = some p → (c.proxy p).iface = some f

theorem Net.Bound.keeps (h : n.Bound c)
    (hk : ∀ f p, (n'.iface f).proxy = some p → (n.iface f).proxy = some p) : n'.Bound c :=
  fun f p hp => h f p (hk f p hp)

/-- No move gives a proxy to an object. -/
theorem Move.keeps_proxy (h : Move e a m m') (f : IfaceId) (p : ProxyId)
    (hp : (m'.world.net.iface f).proxy = some p) : (m.world.net.iface f).proxy = some p := by
  cases h with
  | session _ _ _ _ _ _ hc _ => exact hc.keeps.proxy f p hp
  | world _ he =>
    cases he with
    | ignored hsol => exact hsol.net_eq ▸ hp
    | rebound g h hg =>
      change ((m.world.net.set g h).iface f).proxy = some p at hp
      by_cases hf : f = g
      · subst hf
        rwa [Net.set_iface_self, hg.proxy] at hp
      · rwa [m.world.net.set_iface_of_ne h hf] at hp
    | joined => exact hp
    | left => exact hp
    | purged => exact hp

/-! ### Start-up -/

section Startup

variable {cw cw' : Config × World} {l : List ProxyId} {r : RuleId}

/-- The objects point to the proxies in `l` only. -/
structure BoundTo (l : List ProxyId) (cw : Config × World) : Prop where
  bound : cw.2.net.Bound cw.1
  mem : ∀ f p, (cw.2.net.iface f).proxy = some p → p ∈ l

theorem BoundTo.rule (h : BoundTo l cw) (hr : openRule e cw r = some cw') : BoundTo l cw' := by
  rcases openRule_cases hr with ⟨-, rfl⟩ | ⟨-, f, w', ho, rfl⟩
  · exact h
  · have hk := (Net.Keeps.takes (takes_of_ndIfaceOpen ho)).proxy
    exact ⟨h.bound.keeps hk, fun f p hp => h.mem f p (hk f p hp)⟩

/-- The interface of a proxy which no object points to. -/
theorem BoundTo.bind (h : BoundTo l (c, w)) (hp : p ∉ l) (f : IfaceId) :
    BoundTo (l ++ [p]) (bindProxy c p f w) := by
  have hold : ∀ g q, g ≠ f → ((bindProxy c p f w).2.net.iface g).proxy = some q →
      (w.net.iface g).proxy = some q := by
    intro g q hg hq
    rwa [bindProxy, w.net.set_iface_of_ne _ hg] at hq
  have hnew : ∀ q, ((bindProxy c p f w).2.net.iface f).proxy = some q → q = p := by
    intro q hq
    rw [bindProxy, Net.set_iface_self] at hq
    exact (Option.some.inj hq).symm
  constructor
  · intro g q hq
    by_cases hg : g = f
    · subst hg
      rw [hnew q hq, bindProxy, Config.setProxy_proxy_self]
    · have hq := hold g q hg hq
      have hne : q ≠ p := fun hqp => hp (hqp ▸ h.mem g q hq)
      rw [bindProxy, c.setProxy_proxy_of_ne _ hne]
      exact h.bound g q hq
  · intro g q hq
    by_cases hg : g = f
    · subst hg
      exact List.mem_append_right l (List.mem_singleton.2 (hnew q hq))
    · exact List.mem_append_left [p] (h.mem g q (hold g q hg hq))

theorem BoundTo.proxy (h : BoundTo l cw) (hp : p ∉ l) (ho : openProxy e cw p = some cw') :
    BoundTo (l ++ [p]) cw' := by
  obtain ⟨f, w', ho, hrules⟩ := openProxy_cases ho
  have hk := (Net.Keeps.takes (takes_of_ndIfaceOpen ho)).proxy
  have h' : BoundTo l (cw.1, w') := ⟨h.bound.keeps hk, fun f p hp => h.mem f p (hk f p hp)⟩
  refine foldlM_induction (P := fun _ => BoundTo (l ++ [p])) hrules (h'.bind hp f) ?_
  exact fun _ _ _ _ _ h₁ h₂ => h₁.rule h₂

/-- After start-up, an object that points to a proxy is its interface. -/
theorem ndProxyStartup_bound (hw : ∀ f, (w.net.iface f).proxy = none)
    (h : ndProxyStartup e c w = some cw') : cw'.2.net.Bound cw'.1 := by
  unfold ndProxyStartup at h
  split_ifs at h
  have h₀ : BoundTo [] (c, w) :=
    ⟨fun f p hp => absurd ((hw f).symm.trans hp) (by simp),
      fun f p hp => absurd ((hw f).symm.trans hp) (by simp)⟩
  refine (foldlM_induction (P := BoundTo) h h₀ ?_).bound
  intro l p cw₁ cw₂ hpre h₁ h₂
  -- A proxy is in the list once.
  have hnodup := hpre.sublist.nodup c.proxies_nodup
  exact h₁.proxy (fun hp => (List.nodup_append.1 hnodup).2.2 p hp p (by simp) rfl) h₂

end Startup

/-! ## Keys -/

/-- What an advertisement and the solicitation it answers have in common: the
    interface, the target, and whom the advertisement goes to. -/
structure Key where
  iface : Option IfaceId
  tgt : Addr
  dst : Addr
  dstLl : LlAddr
  deriving DecidableEq

/-- The answer a solicitation asks for. -/
def rxKey (f : IfaceId) (src tgt : Addr) (srcLl : Option LlAddr) : Key :=
  match srcLl with
  | none => ⟨some f, tgt, allnodes, allnodesLl⟩
  | some ll => ⟨some f, tgt, src, ll⟩

/-- The key of an advertisement. -/
def Entry.naKey (en : Entry) : Option Key :=
  match en.act with
  | .na _ f dst dstLl tgt .. => some ⟨f, tgt, dst, dstLl⟩
  | _ => none

/-- The key of a solicitation received. -/
def Entry.nsKey (en : Entry) : Option Key :=
  match en.act with
  | .rxNs f src tgt srcLl => some (rxKey f src tgt srcLl)
  | _ => none

/-- The advertisements the subscribers of a session wait for. -/
def subKeys (c : Config) (s : Session) : List Key :=
  s.subs.map fun sub => ⟨(c.proxy (c.rule s.rule).proxy).iface, s.tgt, sub.addr, sub.lladdr⟩

/-- The advertisements that are waited for, if there is a session. -/
def keysOf (c : Config) (o : Option Session) : List Key := o.elim [] (subKeys c)

theorem subKeys_congr (hk : s.SameKey s') (hs : s'.subs = s.subs) : subKeys c s' = subKeys c s := by
  rw [subKeys, subKeys, hk.rule, hk.tgt, hs]

theorem rxKey_answerTo {tgt : Addr} (bo : ByteOrder) (f : IfaceId) (h : srcLl = none ↔ src = 0) :
    rxKey f src tgt srcLl =
      ⟨some f, tgt, (answerTo bo src srcLl).1, (answerTo bo src srcLl).2⟩ := by
  cases srcLl with
  | none => rfl
  | some ll =>
    have hsrc : ndAddrIsUnspecified bo src = false :=
      Bool.eq_false_iff.2 fun hu => absurd (h.2 ((ndAddrIsUnspecified_iff bo).1 hu)) (by simp)
    simp [rxKey, answerTo, hsrc]

/-- A solicitation without a source link-layer address has no source. -/
theorem srcLl_of_parseNs {bo : ByteOrder} {icmp : List U8} {ethSrc : LlAddr} {tgt : Addr}
    (h : parseNs bo src icmp ethSrc = some (tgt, srcLl)) : srcLl = none ↔ src = 0 := by
  unfold parseNs at h
  dsimp only at h
  split_ifs at h with _ _ hu
  · rw [Option.some.injEq, Prod.mk.injEq] at h
    exact iff_of_true h.2.symm ((ndAddrIsUnspecified_iff bo).1 hu)
  · obtain ⟨o, -, ho⟩ := Option.map_eq_some_iff.1 h
    rw [Prod.mk.injEq] at ho
    refine iff_of_false ?_ fun hsrc => hu ((ndAddrIsUnspecified_iff bo).2 hsrc)
    rw [← ho.2]
    simp

/-! ## What a transition pays -/

/-- The advertisements sent and those that are waited for afterwards are among
    those that were waited for and those the solicitations `credit` ask for. -/
def Pays (c : Config) (credit : List Key) (o o' : Option Session) (w w' : World) : Prop :=
  ∃ new, w'.packets = new ++ w.packets ∧ (∀ en ∈ new, en.nsKey = none) ∧
    ∀ k, (new.filterMap Entry.naKey).count k + (keysOf c o').count k ≤
      (keysOf c o).count k + credit.count k

namespace Pays

variable {credit credit' : List Key} {o o' o'' : Option Session} {w'' : World}

/-- Packets that are no advertisements. -/
theorem of_adds (h : w.Adds (fun en => en.nsKey = none ∧ en.naKey = none) w')
    (hk : ∀ k, (keysOf c o').count k ≤ (keysOf c o).count k + credit.count k) :
    Pays c credit o o' w w' := by
  obtain ⟨new, hw, hnew⟩ := h
  refine ⟨new, hw, fun en hen => (hnew en hen).1, fun k => ?_⟩
  rw [List.filterMap_eq_nil_iff.2 fun en hen => (hnew en hen).2, List.count_nil, Nat.zero_add]
  exact hk k

theorem of_keys_eq (h : w.Adds (fun en => en.nsKey = none ∧ en.naKey = none) w')
    (hk : keysOf c o' = keysOf c o) : Pays c credit o o' w w' :=
  of_adds h fun k => by rw [hk]; exact Nat.le_add_right ..

theorem trans (h : Pays c credit o o' w w') (h' : Pays c credit' o' o'' w' w'') :
    Pays c (credit ++ credit') o o'' w w'' := by
  obtain ⟨new, hw, hns, hk⟩ := h
  obtain ⟨new', hw', hns', hk'⟩ := h'
  refine ⟨new' ++ new, by rw [hw', hw, List.append_assoc], fun en hen => ?_, fun k => ?_⟩
  · rcases List.mem_append.1 hen with hen | hen
    exacts [hns' en hen, hns en hen]
  · have hk := hk k
    have hk' := hk' k
    rw [List.filterMap_append, List.count_append, List.count_append]
    omega

end Pays

theorem count_queueSub {bo : ByteOrder} {ll : LlAddr} {subs subs' : List Sub} (g : Sub → Key)
    (h : queueSub bo src ll subs = some subs') (k : Key) :
    (subs'.map g).count k ≤ (subs.map g).count k + [g ⟨src, ll⟩].count k := by
  unfold queueSub at h
  split_ifs at h
  · rw [← Option.some.inj h]
    exact Nat.le_add_right ..
  · rw [← Option.some.inj h, List.map_cons, ← List.singleton_append, List.count_append,
      Nat.add_comm]

/-- A solicitation is answered, or its source is queued. -/
theorem NsCase.pays (h : NsCase e i src srcLl s w s' w') (hf : (e.proxyOf s).iface = some f)
    (hsrc : srcLl = none ↔ src = 0) :
    Pays e.cfg [rxKey f src s.tgt srcLl] (some s) (some s') w w' := by
  have hqueue : ∀ {ll subs t}, srcLl = some ll → s.SameKey t → t.subs = subs →
      queueSub e.conf.byteOrder src ll s.subs = some subs → ∀ k,
      (keysOf e.cfg (some t)).count k ≤
        (keysOf e.cfg (some s)).count k + [rxKey f src s.tgt srcLl].count k := by
    intro ll subs t hll hkey ht hq k
    have hcount := count_queueSub
      (fun sub => ⟨(e.proxyOf s).iface, s.tgt, sub.addr, sub.lladdr⟩) hq k
    rw [hll, rxKey, ← hf]
    change (subKeys e.cfg t).count k ≤ _
    rw [subKeys, hkey.rule, hkey.tgt, ht]
    exact hcount
  cases h with
  | answered =>
    refine ⟨[_], packets_answerNs .., by simp [Entry.nsKey, naAct], fun k => ?_⟩
    rw [rxKey_answerTo e.conf.byteOrder f hsrc, ← hf]
    exact (Nat.add_comm ..).le
  | dropped => exact .of_keys_eq (.of_eq rfl) rfl
  | queued ll subs w' _ hll hq hw =>
    refine .of_adds (.of_eq ?_) (hqueue hll ⟨rfl, rfl, rfl⟩ rfl hq)
    rcases hw with rfl | hw
    exacts [rfl, packets_of_openRoute hw]
  | resumed ll subs _ _ _ _ _ hll hq ho =>
    exact .of_adds (.of_cons (packets_sendNs_of_openRoute ho ..) ⟨rfl, rfl⟩)
      (hqueue hll ⟨rfl, rfl, rfl⟩ rfl hq)
  | probed ll subs _ _ _ hll hq =>
    exact .of_adds (.of_cons (packets_ndIfaceSendNs ..) ⟨rfl, rfl⟩)
      (hqueue hll ⟨rfl, rfl, rfl⟩ rfl hq)

theorem filterMap_subEntries :
    (subEntries e i s w).filterMap Entry.naKey = (subKeys e.cfg s).reverse := by
  rw [subEntries, List.filterMap_reverse, List.filterMap_map, subKeys, ← List.filterMap_eq_map]
  rfl

/-- The subscribers are answered. -/
theorem NaCase.pays (h : NaCase e i s w s' w') : Pays e.cfg [] (some s) (some s') w w' := by
  have hpackets := h.packets
  cases h with
  | refreshed => exact .of_keys_eq (.of_eq rfl) rfl
  | validated b w' hv =>
    obtain ⟨hv', -⟩ | hp := hpackets
    · exact absurd hv' hv
    · refine ⟨_, hp, fun en hen => ?_, fun k => ?_⟩
      · obtain ⟨sub, -, rfl⟩ := mem_subEntries.1 hen
        rfl
      · rw [filterMap_subEntries, List.count_reverse]
        exact Nat.le_refl _

theorem StartCase.pays (h : StartCase e i s w s' w') (hs : s.subs = []) :
    Pays e.cfg [] none (some s') w w' := by
  have hkeys : ∀ t : Session, t.subs = s.subs → keysOf e.cfg (some t) = keysOf e.cfg none := by
    intro t ht
    change subKeys e.cfg t = []
    rw [subKeys, ht, hs, List.map_nil]
  cases h with
  | unrouted _ _ ho => exact .of_keys_eq (.of_eq (packets_of_openRoute ho)) (hkeys _ rfl)
  | routed f _ _ ho =>
    exact .of_keys_eq (.of_cons (packets_sendNs_of_openRoute ho ..) ⟨rfl, rfl⟩) (hkeys _ rfl)
  | own => exact .of_keys_eq (.of_eq rfl) (hkeys _ rfl)
  | probed => exact .of_keys_eq (.of_cons (packets_ndIfaceSendNs ..) ⟨rfl, rfl⟩) (hkeys _ rfl)
  | static => exact .of_keys_eq (.of_eq rfl) (hkeys _ rfl)
  | stuck => exact .of_keys_eq (.of_eq rfl) (hkeys _ rfl)

theorem UpdateCase.subs_eq (h : UpdateCase e i s w (some s') w') : s'.subs = s.subs := by
  cases h <;> rfl

/-- The timers send no advertisement; a session that is deleted forgets its subscribers. -/
theorem UpdateCase.pays {o : Option Session} (h : UpdateCase e i s w o w') :
    Pays e.cfg [] (some s) o w w' := by
  have hadds : w.Adds (fun en => en.nsKey = none ∧ en.naKey = none) w' := by
    rcases h.packets with hp | hp
    · exact .of_eq hp
    · exact .of_cons hp ⟨rfl, rfl⟩
  cases o with
  | none => exact .of_adds hadds fun k => Nat.zero_le _
  | some s' => exact .of_keys_eq hadds (subKeys_congr h.sameKey h.subs_eq)

/-- The solicitation a move receives, if any, and what it asks for. -/
inductive Receives (e : Env) (w : World) : List Key → World → Prop
  | nothing : Receives e w [] w
  | solicitation (f : IfaceId) (src tgt : Addr) (srcLl : Option LlAddr) (w₀ : World) :
      (srcLl = none ↔ src = 0) → w₀.packets = ⟨e.now, .rxNs f src tgt srcLl⟩ :: w.packets →
      Receives e w [rxKey f src tgt srcLl] w₀

/-- The action does not call `nd_proxy_handle_ns` directly. -/
def Action.Received (a : Action) : Prop := ∀ p src tgt srcLl, a ≠ .ns p src tgt srcLl

/-- A solicitation comes in on the interface of its proxy. -/
theorem Solicits.receives {tgt : Addr} {w₀ : World} (h : Solicits e w a p src tgt srcLl w₀)
    (ha : a.Received) (hb : w.net.Bound e.cfg) : ∃ f, (e.cfg.proxy p).iface = some f ∧
      (srcLl = none ↔ src = 0) ∧ Receives e w [rxKey f src tgt srcLl] w₀ := by
  cases h with
  | direct => exact absurd rfl (ha _ _ _ _)
  | received f _ icmp ethSrc p _ _ hp ht =>
    have hsrc := srcLl_of_parseNs ht
    exact ⟨f, hb f p hp, hsrc, .solicitation f src tgt srcLl _ hsrc (w.packets_emit e _)⟩

/-- A change pays out of what it receives, and of what was waited for. -/
theorem Change.pays {o o' : Option Session} (h : Change e i w a o o' w') (ha : a.Received)
    (hb : w.net.Bound e.cfg) :
    ∃ credit w₀, Receives e w credit w₀ ∧ Pays e.cfg credit o o' w₀ w' := by
  cases h with
  | @created _ p src tgt srcLl r s _ _ _ _ hsol hr hstart hns =>
    obtain ⟨f, hf, hsrc, hrx⟩ := hsol.receives ha hb
    have hproxy := e.cfg.linked _ _ (of_findRule_eq_some hr).1
    have hkey := hstart.sameKey
    refine ⟨_, _, hrx, (hstart.pays rfl).trans ?_⟩
    have htgt : s.tgt = tgt := hkey.tgt
    rw [← htgt]
    refine hns.pays ?_ hsrc
    rw [Env.proxyOf, Env.ruleOf, hkey.rule]
    exact (congrArg (fun p => (e.cfg.proxy p).iface) hproxy).trans hf
  | solicited hsol hns =>
    obtain ⟨f, hf, hsrc, hrx⟩ := hsol.receives ha hb
    exact ⟨_, _, hrx, hns.pays hf hsrc⟩
  | advertised _ _ hna => exact ⟨[], w, .nothing, hna.pays⟩
  | updated hu => exact ⟨[], w, .nothing, hu.pays⟩
  | deleted hu => exact ⟨[], w, .nothing, hu.pays⟩
  | forgotten => exact ⟨[], w, .nothing, .of_keys_eq (.of_eq rfl) rfl⟩
  | @rewired s =>
    refine ⟨[], w, .nothing, .of_keys_eq (.of_eq (packets_ndLUp ..)) ?_⟩
    obtain ⟨b, hb⟩ := ndLUp_fst e i s w
    rw [hb]
    rfl

theorem Effect.receives (h : Effect e w a w') (ha : a.Received) (hb : w.net.Bound e.cfg) :
    ∃ credit w₀, Receives e w credit w₀ ∧ w'.packets = w₀.packets := by
  cases h with
  | ignored hsol =>
    obtain ⟨f, -, -, hrx⟩ := hsol.receives ha hb
    exact ⟨_, _, hrx, rfl⟩
  | rebound => exact ⟨[], w, .nothing, rfl⟩
  | joined => exact ⟨[], w, .nothing, w.packets_emit e _⟩
  | left => exact ⟨[], w, .nothing, w.packets_emit e _⟩
  | purged => exact ⟨[], w, .nothing, w.packets_emit e _⟩

/-! ## The ledger -/

/-- The number of subscribers that wait for an advertisement `k`. -/
def Store.pending (st : Store) (c : Config) (k : Key) : ℕ :=
  ∑ i ∈ Finset.range st.fresh, (keysOf c (st.session i)).count k

theorem Store.Writes.pending {st st' : Store} {o : Option Session} (h : st.Writes e i o st')
    (hb : Before st.fresh st.session) (c : Config) (k : Key) :
    st'.pending c k + (keysOf c (st.session i)).count k =
      st.pending c k + (keysOf c o).count k := by
  -- Both sums run over the same identifiers.
  have hst : st.pending c k = ∑ j ∈ Finset.range st'.fresh, (keysOf c (st.session j)).count k := by
    refine Finset.sum_subset (Finset.range_mono h.fresh_le) fun j _ hj => ?_
    have hnone : st.session j = none := Option.eq_none_iff_forall_ne_some.2 fun s hs =>
      hj (Finset.mem_range.2 (hb j s hs))
    rw [hnone]
    rfl
  have hi := Finset.mem_range.2 h.lt_fresh
  have hrest : ∑ j ∈ (Finset.range st'.fresh).erase i, (keysOf c (st'.session j)).count k =
      ∑ j ∈ (Finset.range st'.fresh).erase i, (keysOf c (st.session j)).count k :=
    Finset.sum_congr rfl fun j hj => by rw [h.of_ne (Finset.ne_of_mem_erase hj)]
  rw [hst, Store.pending, ← Finset.add_sum_erase _ _ hi, ← Finset.add_sum_erase _ _ hi, hrest,
    h.self]
  omega

/-- A solicitation has a source link-layer address, or no source. -/
def Entry.Sourced (en : Entry) : Prop :=
  ∀ f src tgt srcLl, en.act = .rxNs f src tgt srcLl → (srcLl = none ↔ src = 0)

/-- The advertisements, and the subscribers that wait for one, are covered by the
    solicitations received before. -/
structure Balanced (ps : List Entry) (pending : Key → ℕ) : Prop where
  solvent : Solvent Entry.naKey Entry.nsKey ps
  covered : ∀ k, (ps.filterMap Entry.naKey).count k + pending k ≤
    (ps.filterMap Entry.nsKey).count k
  sourced : ∀ en ∈ ps, en.Sourced

namespace Balanced

variable {pending pending' : Key → ℕ} {credit : List Key} {w₀ : World}

theorem receives (h : Balanced w.packets pending) (hrx : Receives e w credit w₀) :
    Balanced w₀.packets fun k => pending k + credit.count k := by
  cases hrx with
  | nothing => exact h
  | solicitation f src tgt srcLl w₀ hsrc hw =>
    rw [hw]
    refine ⟨h.solvent.input rfl, fun k => ?_, fun en hen => ?_⟩
    · have hkey : Entry.nsKey ⟨e.now, .rxNs f src tgt srcLl⟩ = some (rxKey f src tgt srcLl) := rfl
      rw [List.filterMap_cons_none rfl, List.filterMap_cons_some hkey]
      simp only [List.count_cons, List.count_nil]
      have := h.covered k
      omega
    · rcases List.mem_cons.1 hen with rfl | hen
      · intro f' src' tgt' srcLl' hact
        obtain ⟨-, rfl, -, rfl⟩ := Act.rxNs.inj hact
        exact hsrc
      · exact h.sourced en hen

/-- What is sent was waited for. -/
theorem pays (h : Balanced w.packets pending) {new : List Entry}
    (hw : w'.packets = new ++ w.packets) (hns : ∀ en ∈ new, en.nsKey = none)
    (hk : ∀ k, (new.filterMap Entry.naKey).count k + pending' k ≤ pending k) :
    Balanced w'.packets pending' := by
  have hcount : ∀ k, ((new ++ w.packets).filterMap Entry.naKey).count k + pending' k ≤
      (w.packets.filterMap Entry.nsKey).count k := by
    intro k
    rw [List.filterMap_append, List.count_append]
    have := h.covered k
    have := hk k
    omega
  rw [hw]
  refine ⟨h.solvent.append hns ?_, fun k => ?_, fun en hen => ?_⟩
  · exact List.subperm_iff_count.2 fun k => (Nat.le_add_right ..).trans (hcount k)
  · rw [List.filterMap_append (f := Entry.nsKey), List.filterMap_eq_nil_iff.2 hns]
    exact hcount k
  · rcases List.mem_append.1 hen with hen | hen
    · intro f src tgt srcLl hact
      exact absurd (hns en hen) (by simp [Entry.nsKey, hact])
    · exact h.sourced en hen

end Balanced

/-- The ledger of the daemon is balanced. -/
structure Mem.Balanced (c : Config) (m : Mem) : Prop where
  bound : m.world.net.Bound c
  balanced : Ndppd.Balanced m.world.packets (m.store.pending c)

theorem Move.balanced (hm : Move e a m m') (hok : e.Ok m.store) (ha : a.Received)
    (h : m.Balanced e.cfg) : m'.Balanced e.cfg := by
  refine ⟨h.bound.keeps hm.keeps_proxy, ?_⟩
  cases hm with
  | session i o o' st' w' ho hc hw =>
    obtain ⟨credit, w₀, hrx, new, hw', hns, hk⟩ := hc.pays ha h.bound
    refine (h.balanced.receives hrx).pays hw' hns fun k => ?_
    have hpending := hw.pending hok.before e.cfg k
    rw [ho] at hpending
    have := hk k
    change _ + st'.pending e.cfg k ≤ _
    omega
  | world w' he =>
    obtain ⟨credit, w₀, hrx, hw'⟩ := he.receives ha h.bound
    have hnew : w'.packets = [] ++ w₀.packets := hw'
    refine (h.balanced.receives hrx).pays hnew (by simp) fun k => ?_
    exact (Nat.zero_add _).trans_le (Nat.le_add_right ..)

namespace Daemon

variable {d : Daemon} {es : List Event}

theorem start_balanced (hd : start e c = some d) : d.mem.Balanced d.cfg := by
  obtain ⟨cw, hcw, rfl⟩ := Option.map_eq_some_iff.1 hd
  have hpackets : cw.2.packets = [] := ndProxyStartup_packets hcw
  refine ⟨ndProxyStartup_bound (fun _ => rfl) hcw, ?_⟩
  change Balanced cw.2.packets _
  rw [hpackets]
  exact ⟨.nil, fun _ => Nat.le_refl 0, by simp⟩

/-- The ledger is balanced in every state reached. -/
theorem run_balanced (hd : start e c = some d) (hes : ∀ ev ∈ es, ev.action.Received) :
    (d.run es).mem.Balanced d.cfg := by
  have h₀ := start_balanced hd
  obtain ⟨cw, -, rfl⟩ := Option.map_eq_some_iff.1 hd
  refine run_history (P := fun es m => (∀ ev ∈ es, ev.action.Received) → m.Balanced cw.1)
    (fun _ => h₀) ?_ ?_ es hes
  · exact fun es ev m h hes => h fun ev' hev' => hes ev' (List.mem_append_left _ hev')
  · intro es ev m m' hok _ hm h hes
    have hbal := hm.balanced hok (hes ev (by simp))
    rw [env_cfg, run_cfg] at hbal
    exact hbal (h hes)

end Daemon

/-! ## Answers -/

/-- The destination of an advertisement. -/
def Act.naDst : Act → Option Addr
  | .na _ _ dst .. => some dst
  | _ => none

/-- The advertisement answers the solicitation: it goes out on the interface the
    solicitation came in on, for its target, to its source, or to all nodes if it
    has none. -/
inductive Act.Answers : Act → Act → Prop
  | source (who : SessionId) (f : IfaceId) (src tgt : Addr) (ll tgtLl : LlAddr)
      (router sent : Bool) : src ≠ 0 →
      Answers (.na who (some f) src ll tgt tgtLl router sent) (.rxNs f src tgt (some ll))
  | allNodes (who : SessionId) (f : IfaceId) (tgt : Addr) (tgtLl : LlAddr) (router sent : Bool) :
      Answers (.na who (some f) allnodes allnodesLl tgt tgtLl router sent) (.rxNs f 0 tgt none)

theorem Act.Answers.naDst_ne {x y : Act} (h : x.Answers y) : x.naDst ≠ some 0 := by
  cases h with
  | source _ _ _ _ _ _ _ _ hsrc => exact fun h => hsrc (Option.some.inj h)
  | allNodes =>
    have hne : allnodes ≠ 0 := by decide
    exact fun h => hne (Option.some.inj h)

theorem naKey_isSome (x : Entry) : x.naKey.isSome = x.act.naDst.isSome := by
  obtain ⟨_, act⟩ := x
  cases act <;> rfl

theorem nsKey_isSome (x : Entry) : x.nsKey.isSome = x.act.isRxNs := by
  obtain ⟨_, act⟩ := x
  cases act <;> rfl

/-- An advertisement and a solicitation with the same key. -/
theorem answers_of_key {x y : Entry} {k : Key} (hx : x.naKey = some k) (hy : y.nsKey = some k)
    (hs : y.Sourced) : x.act.Answers y.act := by
  obtain ⟨_, _ | ⟨who, f, dst, dstLl, tgt, tgtLl, router, sent⟩ | _ | _ | _ | _ | _⟩ := x <;>
    simp only [Entry.naKey, Option.some.injEq, reduceCtorEq] at hx
  obtain ⟨_, _ | _ | _ | _ | _ | _ | ⟨f', src, tgt', srcLl⟩⟩ := y <;>
    simp only [Entry.nsKey, Option.some.injEq, reduceCtorEq] at hy
  have hsrc := hs f' src tgt' srcLl rfl
  subst hx
  cases srcLl with
  | none =>
    obtain ⟨rfl, rfl, rfl, rfl⟩ := Key.mk.inj hy
    rw [hsrc.1 rfl]
    exact .allNodes who f' tgt' tgtLl router sent
  | some ll =>
    obtain ⟨rfl, rfl, rfl, rfl⟩ := Key.mk.inj hy
    exact .source who f' src tgt' ll tgtLl router sent fun h => absurd (hsrc.2 h) (by simp)

/-- The advertisements among the packets are solicited. -/
structure Solicited (ps : List Entry) : Prop where
  /-- Each advertisement answers a solicitation received before, and no two of them
      the same one. -/
  injection : ∃ φ : ℕ → ℕ,
    (∀ n na, entry ps n = some na → na.act.naDst.isSome →
      φ n < n ∧ ∃ ns, entry ps (φ n) = some ns ∧ na.act.Answers ns.act) ∧
    ∀ n n' na na', entry ps n = some na → entry ps n' = some na' → na.act.naDst.isSome →
      na'.act.naDst.isSome → φ n = φ n' → n = n'
  /-- No advertisement goes to `::`. -/
  specified : ∀ na ∈ ps, na.act.naDst ≠ some 0
  /-- There are at most as many advertisements as solicitations. -/
  count_le : (ps.countP fun na => na.act.naDst.isSome) ≤ ps.countP fun ns => ns.act.isRxNs

theorem Balanced.solicited {ps : List Entry} {pending : Key → ℕ} (h : Balanced ps pending) :
    Solicited ps := by
  have hdisj : ∀ x : Entry, x.naKey = none ∨ x.nsKey = none := by
    rintro ⟨_, _ | _ | _ | _ | _ | _ | _⟩
    all_goals first | exact .inl rfl | exact .inr rfl
  obtain ⟨φ, hφ⟩ := h.solvent.exists_matching hdisj
  have hanswer : ∀ n na, entry ps n = some na → na.act.naDst.isSome →
      φ n < n ∧ ∃ ns, entry ps (φ n) = some ns ∧ na.act.Answers ns.act := by
    intro n na hn hna
    rw [← naKey_isSome] at hna
    obtain ⟨k, hk⟩ := Option.isSome_iff_exists.1 hna
    obtain ⟨hlt, ns, hns, hk'⟩ := hφ.input n na k hn hk
    exact ⟨hlt, ns, hns, answers_of_key hk hk' (h.sourced ns (mem_of_entry hns))⟩
  refine ⟨⟨φ, hanswer, fun n n' na na' hn hn' hna hna' => ?_⟩, fun na hna hdst => ?_, ?_⟩
  · rw [← naKey_isSome] at hna hna'
    exact hφ.injective n n' na na' hn hn' hna hna'
  · obtain ⟨n, hn⟩ := exists_entry hna
    obtain ⟨-, ns, -, hans⟩ := hanswer n na hn (by rw [hdst]; rfl)
    exact hans.naDst_ne hdst
  · have hlen := h.solvent.length_le
    simpa only [List.length_filterMap_eq_countP, naKey_isSome, nsKey_isSome] using hlen

/-- In every run fed through the interfaces, the advertisements are solicited. -/
theorem Daemon.run_solicited {d : Daemon} (hd : Daemon.start e c = some d) {es : List Event}
    (hes : ∀ ev ∈ es, ev.action.Received) : Solicited (d.run es).mem.world.packets :=
  (run_balanced hd hes).balanced.solicited

/-- A solicitation that waits for an advertisement, and one that does not. -/
theorem Daemon.run_solicited_small :
    let es := [Small.event 0 (.rxNs 2 5 (Small.message 7) 9),
      Small.event 10 (.rxNa 1 (Small.message 7)), Small.event 20 (.rxNs 2 0 (Small.message 7) 9)]
    (((Small.daemon Small.ifaceRule).run es).mem.world.packets.filterMap (·.act.naDst)) =
        [allnodes, 5] ∧
      Solicited ((Small.daemon Small.ifaceRule).run es).mem.world.packets := by
  refine ⟨by decide +kernel, Daemon.run_solicited Small.start_daemon fun ev hev => ?_⟩
  simp only [List.mem_cons, List.not_mem_nil, or_false] at hev
  rcases hev with rfl | rfl | rfl <;> exact fun _ _ _ _ h => Action.noConfusion h

end Ndppd
