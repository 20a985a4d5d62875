import Ndppd.Descent
import Ndppd.Fanout
import Ndppd.Solicited

/-!
# Subscribers

The sources that wait for an answer of a session. The queue of a session has no
repetitions and is bounded, and a valid session has none (`Session.Queue`).
Whoever solicits a session that is not valid is queued, unless the queue is full.

A subscriber waits until the session handles an advertisement, or is deleted:
timers, interfaces and other solicitations neither answer it nor drop it
(`Session.Waits`). The advertisement is then passed on to it, once, if the interface
of the proxy transmits it. If not, the subscriber is dropped all the same
(`Daemon.run_subscribers`).
-/

namespace Ndppd

variable {e : Env} {i : SessionId} {src : Addr} {srcLl : Option LlAddr} {s s' : Session}
  {w w' : World} {a : Action} {m m' : Mem} {o o' : Option Session} {sub : Sub} {bo : ByteOrder}
  {ll : LlAddr} {subs subs' : List Sub}

/-! ## The queue -/

theorem any_sub_iff : (subs.any fun sub => ndAddrEq bo sub.addr src && ndLladdrEq sub.lladdr ll) =
    true ↔ ⟨src, ll⟩ ∈ subs := by
  rw [List.any_eq_true]
  constructor
  · rintro ⟨⟨addr, lladdr⟩, hsub, heq⟩
    rw [Bool.and_eq_true, ndAddrEq_iff, ndLladdrEq, beq_iff_eq] at heq
    obtain ⟨rfl, rfl⟩ := heq
    exact hsub
  · intro hsub
    refine ⟨_, hsub, ?_⟩
    rw [Bool.and_eq_true, ndAddrEq_iff, ndLladdrEq, beq_iff_eq]
    exact ⟨rfl, rfl⟩

/-- A source is queued at most once, while there is room for it. -/
theorem of_queueSub_eq_some (h : queueSub bo src ll subs = some subs') :
    ⟨src, ll⟩ ∈ subs ∧ subs' = subs ∨
      ⟨src, ll⟩ ∉ subs ∧ subs.length < ndSessionMaxSubs ∧ subs' = ⟨src, ll⟩ :: subs := by
  unfold queueSub at h
  split_ifs at h with hany hfull
  · exact .inl ⟨any_sub_iff.1 hany, (Option.some.inj h).symm⟩
  · exact .inr ⟨mt any_sub_iff.2 hany, Nat.lt_of_not_le hfull, (Option.some.inj h).symm⟩

theorem of_queueSub_eq_none (h : queueSub bo src ll subs = none) :
    ndSessionMaxSubs ≤ subs.length := by
  unfold queueSub at h
  split_ifs at h with _ hfull
  exact hfull

theorem mem_of_queueSub (h : queueSub bo src ll subs = some subs') : ⟨src, ll⟩ ∈ subs' := by
  rcases of_queueSub_eq_some h with ⟨hmem, rfl⟩ | ⟨-, -, rfl⟩
  · exact hmem
  · exact List.mem_cons_self

theorem subset_of_queueSub (h : queueSub bo src ll subs = some subs') : subs ⊆ subs' := by
  rcases of_queueSub_eq_some h with ⟨-, rfl⟩ | ⟨-, -, rfl⟩
  · exact List.Subset.refl _
  · exact List.subset_cons_self ..

/-- The subscribers of a session. -/
structure Session.Queue (s : Session) : Prop where
  nodup : s.subs.Nodup
  length_le : s.subs.length ≤ ndSessionMaxSubs
  of_valid : s.state = .valid → s.subs = []

/-- What a solicitation does to the queue. -/
theorem NsCase.subs_cases (h : NsCase e i src srcLl s w s' w') : s'.subs = s.subs ∨
    ∃ ll, srcLl = some ll ∧ queueSub e.conf.byteOrder src ll s.subs = some s'.subs := by
  cases h with
  | answered => exact .inl rfl
  | dropped => exact .inl rfl
  | queued ll _ _ _ hll hq => exact .inr ⟨ll, hll, hq⟩
  | resumed ll _ _ _ _ _ _ hll hq => exact .inr ⟨ll, hll, hq⟩
  | probed ll _ _ _ _ hll hq => exact .inr ⟨ll, hll, hq⟩

/-- The source of a solicitation is queued, unless the queue is full. -/
theorem NsCase.mem_subs (h : NsCase e i src (some ll) s w s' w') (hv : s'.state ≠ .valid) :
    ⟨src, ll⟩ ∈ s'.subs ∨ ndSessionMaxSubs ≤ s'.subs.length := by
  cases h with
  | answered hs => exact absurd hs hv
  | dropped _ hq => exact .inr (of_queueSub_eq_none (hq ll rfl))
  | queued _ _ _ _ hll hq =>
    cases hll
    exact .inl (mem_of_queueSub hq)
  | resumed _ _ _ _ _ _ _ hll hq =>
    cases hll
    exact .inl (mem_of_queueSub hq)
  | probed _ _ _ _ _ hll hq =>
    cases hll
    exact .inl (mem_of_queueSub hq)

theorem StartCase.subs_eq (h : StartCase e i s w s' w') : s'.subs = s.subs := by
  cases h <;> rfl

/-- The queue of a session that may not exist yet. -/
def queueOf (o : Option Session) : List Sub := o.elim [] Session.subs

theorem Solicits.src_ne {p : ProxyId} {tgt : Addr} {w₀ : World}
    (h : Solicits e w a p src tgt (some ll) w₀) (ha : a.Received) : src ≠ 0 := by
  cases h with
  | direct => exact absurd rfl (ha _ _ _ _)
  | received _ _ _ _ _ _ _ _ ht => exact fun hsrc => absurd ((srcLl_of_parseNs ht).2 hsrc) (by simp)

/-- What a change does to the queue. -/
theorem Change.subs_cases (h : Change e i w a o (some s') w') :
    s'.subs = [] ∨ s'.subs = queueOf o ∨ ∃ src ll, (a.Received → src ≠ 0) ∧
      queueSub e.conf.byteOrder src ll (queueOf o) = some s'.subs := by
  cases h with
  | created hsol _ hstart hns =>
    rcases hns.subs_cases with hsubs | ⟨ll, rfl, hq⟩
    · exact .inl (hsubs.trans hstart.subs_eq)
    · rw [hstart.subs_eq] at hq
      exact .inr (.inr ⟨_, ll, hsol.src_ne, hq⟩)
  | solicited hsol hns =>
    rcases hns.subs_cases with hsubs | ⟨ll, rfl, hq⟩
    · exact .inr (.inl hsubs)
    · exact .inr (.inr ⟨_, ll, hsol.src_ne, hq⟩)
  | advertised _ _ hna =>
    cases hna with
    | refreshed => exact .inr (.inl rfl)
    | validated => exact .inl rfl
  | updated hu => exact .inr (.inl hu.subs_eq)
  | forgotten => exact .inr (.inl rfl)
  | @rewired s =>
    obtain ⟨b, hb⟩ := ndLUp_fst e i s w
    rw [hb]
    exact .inr (.inl rfl)

theorem Change.queue (h : Change e i w a o (some s') w') (ho : ∀ s, o = some s → s.Queue) :
    s'.Queue := by
  have hold : (queueOf o).Nodup ∧ (queueOf o).length ≤ ndSessionMaxSubs := by
    cases o with
    | none => exact ⟨List.nodup_nil, Nat.zero_le _⟩
    | some s => exact ⟨(ho s rfl).nodup, (ho s rfl).length_le⟩
  have hnew : s'.subs.Nodup ∧ s'.subs.length ≤ ndSessionMaxSubs := by
    rcases h.subs_cases with hsubs | hsubs | ⟨src, ll, -, hq⟩
    · rw [hsubs]
      exact ⟨List.nodup_nil, Nat.zero_le _⟩
    · rw [hsubs]
      exact hold
    · rcases of_queueSub_eq_some hq with ⟨-, hsubs⟩ | ⟨hmem, hlt, hsubs⟩
      · rw [hsubs]
        exact hold
      · rw [hsubs]
        exact ⟨List.nodup_cons.2 ⟨hmem, hold.1⟩, hlt⟩
  exact ⟨hnew.1, hnew.2, h.subs_of_valid fun s hs => (ho s hs).of_valid⟩

theorem Daemon.run_queue (conf : Conf) (cfg : Config) (w : World) (es : List Event) :
    ∀ i s, ((init conf cfg w).run es).mem.store.session i = some s → s.Queue :=
  run_sessions (P := Session.Queue) (fun _ _ _ _ _ _ _ _ _ hc ho => hc.queue ho) es

/-- A solicitation that is received and queued has a source. -/
theorem Change.specified (h : Change e i w a o (some s') w') (ha : a.Received)
    (ho : ∀ s, o = some s → ∀ sub ∈ s.subs, sub.addr ≠ 0) : ∀ sub ∈ s'.subs, sub.addr ≠ 0 := by
  have hold : ∀ sub ∈ queueOf o, sub.addr ≠ 0 := by
    cases o with
    | none => exact fun sub hsub => absurd hsub List.not_mem_nil
    | some s => exact ho s rfl
  rcases h.subs_cases with hsubs | hsubs | ⟨src, ll, hsrc, hq⟩
  · rw [hsubs]
    exact fun sub hsub => absurd hsub List.not_mem_nil
  · rw [hsubs]
    exact hold
  · rcases of_queueSub_eq_some hq with ⟨-, hsubs⟩ | ⟨-, -, hsubs⟩
    · rw [hsubs]
      exact hold
    · rw [hsubs]
      exact List.forall_mem_cons.2 ⟨hsrc ha, hold⟩

theorem Daemon.run_specified (conf : Conf) (cfg : Config) (w : World) (es : List Event) :
    (∀ ev ∈ es, ev.action.Received) → ∀ i s,
      ((init conf cfg w).run es).mem.store.session i = some s → ∀ sub ∈ s.subs, sub.addr ≠ 0 := by
  refine run_history (P := fun es m => (∀ ev ∈ es, ev.action.Received) →
    ∀ i s, m.store.session i = some s → ∀ sub ∈ s.subs, sub.addr ≠ 0) ?_ ?_ ?_ es
  · exact fun _ i s hs => absurd hs (by simp [init, Store.empty])
  · exact fun es ev m h hes => h fun ev' hev' => hes ev' (List.mem_append_left _ hev')
  · intro es ev m m' _ _ hm h hes
    have ha : ev.action.Received := hes ev (List.mem_append_right _ List.mem_cons_self)
    exact hm.forall_session (h hes) fun i o s' w' hc ho => hc.specified ha ho

/-! ## Waiting -/

/-- The session `s` is now `s'`, where `sub` is still waiting. -/
structure Session.Waits (sub : Sub) (s s' : Session) : Prop where
  sameKey : s.SameKey s'
  not_valid : s'.state ≠ .valid
  mem : sub ∈ s'.subs

theorem NsCase.subset (h : NsCase e i src srcLl s w s' w') : s.subs ⊆ s'.subs := by
  rcases h.subs_cases with hsubs | ⟨ll, -, hq⟩
  · rw [hsubs]
    exact List.Subset.refl _
  · exact subset_of_queueSub hq

/-- A change which is no advertisement drops no subscriber. -/
theorem Change.waits (h : Change e i w a (some s) (some s') w')
    (hna : ∀ f icmp, a ≠ .rxNa f icmp) (hv : s.state ≠ .valid) (hsub : sub ∈ s.subs) :
    s.Waits sub s' := by
  cases h with
  | solicited _ hns => exact ⟨hns.sameKey, fun hv' => hv (hns.valid hv').1, hns.subset hsub⟩
  | advertised => exact absurd rfl (hna _ _)
  | updated hu => exact ⟨hu.sameKey, fun hv' => hv (hu.valid hv').1, hu.subs_eq ▸ hsub⟩
  | forgotten => exact ⟨⟨rfl, rfl, rfl⟩, hv, hsub⟩
  | rewired hv' => exact absurd hv' hv

/-- In every later state, the session is deleted, or `sub` waits for it. -/
structure Mem.Waits (i : SessionId) (sub : Sub) (s : Session) (m : Mem) : Prop where
  used : i < m.store.fresh
  waits : ∀ s', m.store.session i = some s' → s.Waits sub s'

theorem Move.waits (h : Move e a m m') (hna : ∀ f icmp, a ≠ .rxNa f icmp)
    (hm : m.Waits i sub s) : m'.Waits i sub s := by
  cases h with
  | session j o o' st' w' ho hc hw =>
    refine ⟨Nat.lt_of_lt_of_le hm.used hw.fresh_le, fun s' hs' => ?_⟩
    by_cases hij : i = j
    · subst hij
      obtain rfl : o' = some s' := hw.self.symm.trans hs'
      cases o with
      | none => exact absurd (hw.eq_fresh ho) hm.used.ne
      | some s₁ =>
        have h₁ := hm.waits s₁ ho
        have h₂ := hc.waits hna h₁.not_valid h₁.mem
        exact ⟨h₁.sameKey.trans h₂.sameKey, h₂.not_valid, h₂.mem⟩
    · exact hm.waits s' ((hw.of_ne hij).symm.trans hs')
  | world => exact ⟨hm.used, hm.waits⟩

/-- The entry is an advertisement of the session `i` that was sent to the subscriber `sub`. -/
def Entry.isNaTo (i : SessionId) (sub : Sub) (en : Entry) : Bool :=
  match en.act with
  | .na who _ dst dstLl _ _ _ sent => sent && who == i && decide (⟨dst, dstLl⟩ = sub)
  | _ => false

/-- The advertisements of the session `i` that were sent to the subscriber `sub`. -/
def Daemon.nasTo (d : Daemon) (i : SessionId) (sub : Sub) : List Entry :=
  d.mem.world.packets.filter (Entry.isNaTo i sub)

theorem Entry.naOf_of_isNaTo {en : Entry} (h : en.isNaTo i sub = true) :
    en.act.naOf = some i := by
  obtain ⟨_, act⟩ := en
  cases act with
  | na who =>
    rw [isNaTo, Bool.and_eq_true, Bool.and_eq_true, beq_iff_eq] at h
    rw [Act.naOf, h.1.2]
  | _ => exact absurd h (by simp [isNaTo])

/-- An event which is not an advertisement for it leaves a subscriber waiting. -/
theorem Daemon.step_waits {d : Daemon} {ev : Event} (hok : (d.env ev).Ok d.mem.store)
    (hm : d.mem.Waits i sub s) (hna : ¬d.Advertises ev i) :
    (d.step ev).mem.Waits i sub s ∧ (d.step ev).nasTo i sub = d.nasTo i sub := by
  have hwaits : (d.step ev).mem.Waits i sub s := by
    by_cases hrx : ∃ f icmp, ev.action = .rxNa f icmp
    · obtain ⟨f, icmp, hrx⟩ := hrx
      refine ⟨step_lt_fresh hok hm.used, fun s' hs' => hm.waits s' ?_⟩
      rw [step_mem, hrx, stepMem, ndLHandleNa_session] at hs'
      · exact hs'
      · exact fun tgt ht hi => hna ⟨f, icmp, tgt, hrx, ht, hi⟩
    · rw [step_mem]
      exact stepMem_induction (Q := Mem.Waits i sub s) hok hm
        fun m₁ m₂ _ _ hm' => hm'.waits fun f icmp h => hrx ⟨f, icmp, h⟩
  refine ⟨hwaits, ?_⟩
  -- Advertisements are for sessions that are valid after the event.
  obtain ⟨new, hp, hnew⟩ := stepMem_adds (a := ev.action) hok
  rw [← step_mem] at hp hnew
  rw [nasTo, hp, List.filter_append, nasTo, List.filter_eq_nil_iff.2, List.nil_append]
  intro en hen hto
  obtain ⟨s', hs', hv⟩ := hnew en hen i (Entry.naOf_of_isNaTo hto)
  exact (hwaits.waits s' hs').not_valid hv.1

/-! ## The answer -/

theorem naAct_congr (hk : s.SameKey s') (dst : Addr) (dstLl : LlAddr) :
    naAct e i s' w dst dstLl = naAct e i s w dst dstLl := by
  unfold naAct tgtLl Env.proxyOf Env.ruleOf
  rw [hk.rule, hk.tgt]

theorem isNaTo_naAct {sub' : Sub} {t : ℤ} :
    Entry.isNaTo i sub ⟨t, naAct e i s w sub'.addr sub'.lladdr⟩ = true ↔
      sub' = sub ∧ w.Transmits e.kernel (e.proxyOf s).iface (.na sub'.addr sub'.lladdr s.tgt) := by
  rw [← ndLSendIcmp6_iff, Entry.isNaTo]
  simp only [naAct, beq_self_eq_true, Bool.and_true, Bool.and_eq_true, decide_eq_true_iff]
  exact and_comm

/-- A subscriber is sent one of the advertisements, if it is transmitted, -/
theorem filter_subEntries (hn : s.subs.Nodup) (hsub : sub ∈ s.subs)
    (h : w.Transmits e.kernel (e.proxyOf s).iface (.na sub.addr sub.lladdr s.tgt)) :
    (subEntries e i s w).filter (Entry.isNaTo i sub) =
      [⟨e.now, naAct e i s w sub.addr sub.lladdr⟩] := by
  have hto : (Entry.isNaTo i sub ∘ fun sub' : Sub =>
      (⟨e.now, naAct e i s w sub'.addr sub'.lladdr⟩ : Entry)) =
        fun sub' => decide (sub' = sub) := by
    funext sub'
    rw [Function.comp_apply, Bool.eq_iff_iff, isNaTo_naAct, decide_eq_true_iff]
    exact and_iff_left_of_imp fun heq => heq ▸ h
  rw [subEntries, List.filter_reverse, List.filter_map, hto, List.filter_eq,
    List.count_eq_one_of_mem hn hsub]
  rfl

/-- and none of them if not. -/
theorem filter_subEntries_eq_nil
    (h : ¬w.Transmits e.kernel (e.proxyOf s).iface (.na sub.addr sub.lladdr s.tgt)) :
    (subEntries e i s w).filter (Entry.isNaTo i sub) = [] := by
  rw [List.filter_eq_nil_iff]
  intro en hen hto
  obtain ⟨sub', -, rfl⟩ := mem_subEntries.1 hen
  obtain ⟨rfl, htransmits⟩ := isNaTo_naAct.1 hto
  exact h htransmits

/-- What an advertisement sends for a session which is not valid. -/
theorem Daemon.Advertises.packets {d : Daemon} {ev : Event} (h : d.Advertises ev i)
    (hs : d.mem.store.session i = some s) (hv : s.state ≠ .valid) :
    (d.step ev).mem.world.packets =
      subEntries (d.env ev) i s d.mem.world ++ d.mem.world.packets := by
  obtain ⟨f, icmp, tgt, hrx, ht, hi⟩ := h
  rw [step_mem, hrx, stepMem]
  simp only [ndLHandleNa, ht, hi, d.mem.withSession_eq _ hs]
  rcases (naCase (d.env ev) i s d.mem.world).packets with ⟨hv', -⟩ | hp
  · exact absurd hv' hv
  · exact hp

theorem Daemon.Advertises.nasTo {d : Daemon} {ev : Event} (h : d.Advertises ev i)
    (hs : d.mem.store.session i = some s) (hv : s.state ≠ .valid) (hn : s.subs.Nodup)
    (hsub : sub ∈ s.subs) :
    let transmits := d.mem.world.Transmits ev.kernel ((d.env ev).proxyOf s).iface
      (.na sub.addr sub.lladdr s.tgt)
    (transmits → (d.step ev).nasTo i sub =
      ⟨ev.time, naAct (d.env ev) i s d.mem.world sub.addr sub.lladdr⟩ :: d.nasTo i sub) ∧
    (¬transmits → (d.step ev).nasTo i sub = d.nasTo i sub) := by
  intro transmits
  rw [Daemon.nasTo, h.packets hs hv, List.filter_append]
  constructor
  · intro ht
    rw [filter_subEntries hn hsub ht]
    rfl
  · intro ht
    rw [filter_subEntries_eq_nil ht]
    rfl

/-! ## Runs -/

theorem Daemon.run_waits (conf : Conf) (cfg : Config) (w : World) (es : List Event)
    (hs : ((init conf cfg w).run es).mem.store.session i = some s) (hv : s.state ≠ .valid)
    (hsub : sub ∈ s.subs) (es' : List Event)
    (hna : ((init conf cfg w).run es).Unadvertised es' i) :
    ((init conf cfg w).run (es ++ es')).mem.Waits i sub s ∧
      ((init conf cfg w).run (es ++ es')).nasTo i sub = ((init conf cfg w).run es).nasTo i sub := by
  induction es' using List.reverseRecOn with
  | nil =>
    rw [List.append_nil]
    refine ⟨⟨(run_wellFormed conf cfg w es).before i s hs, fun s' hs' => ?_⟩, rfl⟩
    obtain rfl : s = s' := Option.some.inj (hs.symm.trans hs')
    exact ⟨.refl s, hv, hsub⟩
  | append_singleton l ev ih =>
    obtain ⟨hm, hnas⟩ := ih fun es₁ ev' es₂ h => hna es₁ ev' (es₂ ++ [ev]) (by simp [h])
    have hev := hna l ev [] rfl
    rw [run, run, ← List.foldl_append] at hev
    rw [← List.append_assoc, run_concat]
    obtain ⟨hm', hnas'⟩ := step_waits (run_ok conf cfg w (es ++ l) ev) hm hev
    exact ⟨hm', hnas'.trans hnas⟩

/-- A source that solicits a session which is not valid is one of its subscribers
    then, unless there are too many. -/
theorem ProxyNsCase.mem_subs {p : ProxyId} {tgt : Addr}
    (h : ProxyNsCase e p src tgt (some ll) m m') (hok : e.Ok m.store)
    (hs : m'.store.session i = some s) (ht : s.tgt = tgt) (hp : (e.ruleOf s).proxy = p)
    (hv : s.state ≠ .valid) : ⟨src, ll⟩ ∈ s.subs ∨ ndSessionMaxSubs ≤ s.subs.length := by
  -- The session that is solicited is the one of the target and the proxy.
  have hunique : ∀ j t, m'.store.session j = some t → t.tgt = tgt → (e.ruleOf t).proxy = p →
      t = s := by
    intro j t hj htj hpj
    obtain rfl := (h.ok hok).unique i j s t hs hj (ht.trans htj.symm) (hp.trans hpj.symm)
    exact Option.some.inj (hj.symm.trans hs)
  cases h with
  | ignored _ hf => exact absurd hp (of_ndSessionFind_eq_none hok hf i s hs ht)
  | found j t t' w' hj htj hpj hns =>
    obtain rfl := hunique j t' (Store.set_session_self ..) (hns.sameKey.tgt.trans htj)
      (by rw [Env.ruleOf, hns.sameKey.rule]; exact hpj)
    exact hns.mem_subs hv
  | created r t t' w w' _ hr _ hstart hns =>
    have hkey := hstart.sameKey.trans hns.sameKey
    obtain rfl := hunique _ t' (Store.set_session_self ..) hkey.tgt
      (by rw [Env.ruleOf, hkey.rule]; exact e.cfg.linked p r (of_findRule_eq_some hr).1)
    exact hns.mem_subs hv

theorem ndLHandleNs_mem_subs {f : IfaceId} {icmp : List U8} {ethSrc : LlAddr} {p : ProxyId}
    {tgt : Addr} (hok : e.Ok m.store) (hp : (m.world.net.iface f).proxy = some p)
    (hparse : parseNs e.conf.byteOrder src icmp ethSrc = some (tgt, some ll))
    (hs : (ndLHandleNs e f src icmp ethSrc m).store.session i = some s) (ht : s.tgt = tgt)
    (hproxy : (e.ruleOf s).proxy = p) (hv : s.state ≠ .valid) :
    ⟨src, ll⟩ ∈ s.subs ∨ ndSessionMaxSubs ≤ s.subs.length := by
  simp only [ndLHandleNs, hp, hparse] at hs
  have hcase := proxyNsCase e p src tgt (some ll)
    { m with world := m.world.emit e (.rxNs f src tgt (some ll)) }
  exact hcase.mem_subs hok hs ht hproxy hv

/-- In every state of a run where solicitations are received from the network, the
    queues are as they should be. A source that solicits a session which is not
    valid is queued, unless the queue is full. Every subscriber of a session is
    sent nothing until the session handles an advertisement. It is then sent one
    advertisement of the target of the session, if the interface of the proxy is there
    and the kernel takes it, and nothing if not. -/
theorem Daemon.run_subscribers (conf : Conf) (cfg : Config) (w : World) {es : List Event}
    (hes : ∀ ev ∈ es, ev.action.Received) : let d := (init conf cfg w).run es
    (∀ i s, d.mem.store.session i = some s → s.Queue ∧ ∀ sub ∈ s.subs, sub.addr ≠ 0) ∧
    (∀ ev f src icmp ethSrc p tgt ll, ev.action = .rxNs f src icmp ethSrc →
      (d.mem.world.net.iface f).proxy = some p →
      parseNs conf.byteOrder src icmp ethSrc = some (tgt, some ll) →
      ∀ i s, (d.step ev).mem.store.session i = some s → s.tgt = tgt →
        (cfg.rule s.rule).proxy = p → s.state ≠ .valid →
        ⟨src, ll⟩ ∈ s.subs ∨ s.subs.length = ndSessionMaxSubs) ∧
    ∀ i s sub, d.mem.store.session i = some s → sub ∈ s.subs →
      ∀ es' ev, d.Unadvertised es' i → (d.run es').Advertises ev i →
        let f := (cfg.proxy (cfg.rule s.rule).proxy).iface
        let answer := Outgoing.na sub.addr sub.lladdr s.tgt
        (d.run es').nasTo i sub = d.nasTo i sub ∧
        ((d.run es').mem.world.Transmits ev.kernel f answer →
          ∃ act, act.IsAnswer i f sub s.tgt ∧
            (d.run (es' ++ [ev])).nasTo i sub = ⟨ev.time, act⟩ :: d.nasTo i sub) ∧
        (¬(d.run es').mem.world.Transmits ev.kernel f answer →
          (d.run (es' ++ [ev])).nasTo i sub = d.nasTo i sub) := by
  have hqueue := run_queue conf cfg w es
  refine ⟨fun i s hs => ⟨hqueue i s hs, run_specified conf cfg w es hes i s hs⟩,
    fun ev f src icmp ethSrc p tgt ll ha hp hparse i s hs ht hproxy hv => ?_,
    fun i s sub hs hsub es' ev hna hadv => ?_⟩
  · have hlen : s.subs.length ≤ ndSessionMaxSubs :=
      (run_queue conf cfg w (es ++ [ev]) i s (by rw [run_concat]; exact hs)).length_le
    rw [step_mem, ha] at hs
    have hmem := ndLHandleNs_mem_subs (run_ok conf cfg w es ev) hp
      (by rw [env_conf, run_conf]; exact hparse) hs ht
      (by rw [Env.ruleOf, env_cfg, run_cfg]; exact hproxy) hv
    exact hmem.imp id hlen.antisymm
  · have hv : s.state ≠ .valid := fun hv => by
      rw [(hqueue i s hs).of_valid hv] at hsub
      exact absurd hsub List.not_mem_nil
    obtain ⟨hwaits, hnas⟩ := run_waits conf cfg w es hs hv hsub es' hna
    rw [run, List.foldl_append, ← run, ← run] at hwaits hnas
    obtain ⟨_, _, _, -, -, hfind⟩ := id hadv
    obtain ⟨s', hs', -⟩ := of_ndSessionFindR_eq_some hfind
    have hw := hwaits.waits s' hs'
    have hn : s'.subs.Nodup := (run_queue conf cfg w (es ++ es') i s'
      (by rw [run, List.foldl_append]; exact hs')).nodup
    obtain ⟨hsent, hlost⟩ := hadv.nasTo hs' hw.not_valid hn hw.mem
    -- The session is on the same proxy as before, and for the same target.
    have hf : (((((init conf cfg w).run es).run es').env ev).proxyOf s').iface =
        (cfg.proxy (cfg.rule s.rule).proxy).iface := by
      rw [Env.proxyOf, Env.ruleOf, hw.sameKey.rule, env_cfg, run_cfg, run_cfg, init_cfg]
    rw [run_concat]
    rw [hf, hw.sameKey.tgt, hnas] at hsent hlost
    refine ⟨hnas, fun h => ⟨_, naAct_isAnswer_iff.2 ⟨⟨rfl, hf, rfl, hw.sameKey.tgt⟩, ?_⟩,
      hsent h⟩, hlost⟩
    rw [hf, hw.sameKey.tgt]
    exact h

theorem unadvertised_of_ne {d : Daemon} {es : List Event}
    (h : ∀ ev ∈ es, ∀ f icmp, ev.action ≠ .rxNa f icmp) : d.Unadvertised es i := by
  rintro es₁ ev es₂ rfl ⟨f, icmp, -, hrx, -⟩
  exact h ev (by simp) f icmp hrx

namespace Small

/-- Two nodes ask for the target, one of them twice. -/
def askedByTwo : List Event :=
  [event 0 (.rxNs 2 1 (message 9) 3), event 10 (.rxNs 2 4 (message 9) 5),
    event 20 (.rxNs 2 1 (message 9) 3)]

theorem askedByTwo_received : ∀ ev ∈ askedByTwo, ev.action.Received := by
  simp [askedByTwo, event, Action.Received]

/-- One second later, the target answers, and the first node is sent the answer. -/
theorem askedByTwo_subscribers :
    let d := (Daemon.init conf (daemon ifaceRule).cfg (daemon ifaceRule).mem.world).run askedByTwo
    (∀ ev ∈ askedByTwo, ev.action.Received) ∧ d.nasTo 0 ⟨1, 3⟩ = [] ∧
    (∃ s, d.mem.store.session 0 = some s ∧ s.Queue ∧ s.subs = [⟨4, 5⟩, ⟨1, 3⟩] ∧
      ∃ act, act.IsAnswer 0 (some 2) ⟨1, 3⟩ 9 ∧
        (d.run [event 1000 .tick, event 1020 (.rxNa 1 (message 9))]).nasTo 0 ⟨1, 3⟩ =
          [⟨1020, act⟩]) := by
  intro d
  obtain ⟨hqueue, -, hanswer⟩ := Daemon.run_subscribers conf (daemon ifaceRule).cfg
    (daemon ifaceRule).mem.world askedByTwo_received
  have hnone : d.nasTo 0 ⟨1, 3⟩ = [] := by decide +kernel
  have hsession : ((d.mem.store.session 0).any fun s => decide (s.subs = [⟨4, 5⟩, ⟨1, 3⟩] ∧
      s.tgt = 9 ∧ ((daemon ifaceRule).cfg.proxy
        ((daemon ifaceRule).cfg.rule s.rule).proxy).iface = some 2)) = true := by decide +kernel
  obtain ⟨s, hs, hdec⟩ := (Option.any_eq_true ..).1 hsession
  obtain ⟨hsubs, htgt, hproxy⟩ := of_decide_eq_true hdec
  have hna : d.Unadvertised [event 1000 .tick] 0 := unadvertised_of_ne (by simp [event])
  have hadv : (d.run [event 1000 .tick]).Advertises (event 1020 (.rxNa 1 (message 9))) 0 :=
    ⟨1, message 9, 9, rfl, by decide +kernel, by decide +kernel⟩
  obtain ⟨-, hsent, -⟩ := hanswer 0 s ⟨1, 3⟩ hs (by simp [hsubs]) _ _ hna hadv
  obtain ⟨act, hact, hone⟩ := hsent ⟨2, hproxy, by decide +kernel, rfl⟩
  rw [htgt, hproxy] at hact
  exact ⟨askedByTwo_received, hnone, s, hs, (hqueue 0 s hs).1, hsubs, act, hact,
    hone.trans (congrArg _ hnone)⟩

/-- A pass finds that the interface of the first proxy has gone. -/
def gone : List Event := [{ time := 10, kernel := kernelWithout [1], action := .rebind }]

/-- The target answers. -/
def goneAnswer : Event :=
  { time := 20, kernel := kernelWithout [1], action := .rxNa 1 (message 9) }

/-- A node asks for the target, and the interface of the proxy goes away before the target
    answers: the node is sent nothing, and is not waiting any more. -/
theorem gone_dropped :
    let d := (Daemon.init conf (daemon ifaceRule).cfg (daemon ifaceRule).mem.world).run askedOnce
    (∀ ev ∈ askedOnce, ev.action.Received) ∧
    (∃ s, d.mem.store.session 0 = some s ∧ ⟨1, 3⟩ ∈ s.subs) ∧
    d.Unadvertised gone 0 ∧ (d.run gone).Advertises goneAnswer 0 ∧
    (d.run (gone ++ [goneAnswer])).nasTo 0 ⟨1, 3⟩ = [] ∧
    ∃ s, (d.run (gone ++ [goneAnswer])).mem.store.session 0 = some s ∧ s.state = .valid ∧
      s.subs = [] := by
  intro d
  have hbefore : ((d.mem.store.session 0).any fun s => decide (⟨1, 3⟩ ∈ s.subs)) = true := by
    decide +kernel
  have hafter : (((d.run (gone ++ [goneAnswer])).mem.store.session 0).any fun s =>
      decide (s.state = .valid ∧ s.subs = [])) = true := by decide +kernel
  obtain ⟨s, hs, hsub⟩ := (Option.any_eq_true ..).1 hbefore
  obtain ⟨s', hs', hv⟩ := (Option.any_eq_true ..).1 hafter
  refine ⟨by simp [askedOnce, event, Action.Received], ⟨s, hs, of_decide_eq_true hsub⟩,
    unadvertised_of_ne (by simp [gone]), ⟨1, message 9, 9, rfl, by decide +kernel,
      by decide +kernel⟩, by decide +kernel, s', hs', of_decide_eq_true hv⟩

end Small

end Ndppd
