import Ndppd.Session.Store

/-!
# Calls on the store

Over a well-formed store (`Env.Ok`), the lookups find what is in it, and the
calls of the session layer keep it well formed. The loops over the tables run
once on each session (`ndSessionUpdateAll_eq`, `ndSessionIfaceChanged_eq`): they
are folds along `Store.order`, and the pointers are not needed any more.
-/

namespace Ndppd

open Intrusive

variable {e : Env} {st : Store} {m : Mem} {i : SessionId} {s s' : Session} {tgt : Addr}
  {p : ProxyId} {f : IfaceId} {b : Fin ndppdSessionBuckets}

/-- The store of `e` is well formed. -/
abbrev Env.Ok (e : Env) (st : Store) : Prop := st.WellFormed e.conf e.cfg

/-- A list of the first table. -/
def Store.bucket (st : Store) (b : Fin ndppdSessionBuckets) : List SessionId :=
  buckets st.fresh st.sessions b

/-- A list of the second table. -/
def Store.bucketR (st : Store) (b : Fin ndppdSessionBuckets) : List SessionId :=
  buckets st.fresh st.sessionsR b

/-! ## Lookups -/

/-- What is found has the target, and a rule of the proxy. -/
theorem of_ndSessionFind_eq_some (h : ndSessionFind e tgt p st = some i) :
    ∃ s, st.session i = some s ∧ s.tgt = tgt ∧ (e.ruleOf s).proxy = p := by
  have := of_search_eq_some h
  rw [Option.any_eq_true] at this
  obtain ⟨s, hs, hp⟩ := this
  rw [Bool.and_eq_true, beq_iff_eq, ndAddrEq_iff] at hp
  exact ⟨s, hs, hp.2, hp.1⟩

/-- If nothing is found, there is none: the bucket of the target is the place to look. -/
theorem of_ndSessionFind_eq_none (hst : e.Ok st) (h : ndSessionFind e tgt p st = none) :
    ∀ i s, st.session i = some s → s.tgt = tgt → (e.ruleOf s).proxy ≠ p := by
  intro i s hs ht hp
  rw [ndSessionFind, (hst.byTgt.holds.chain _).search_eq _ (hst.byTgt.length_le hst.before _),
    List.find?_eq_none] at h
  have := h i ((hst.byTgt.mem_iff _ i).2 ⟨s, hs, by rw [ht]⟩)
  simp [hs, hp, ndAddrEq_iff, ht] at this

/-- A session waits for an advertisement for `tgt` on the interface `f`. -/
def Session.Awaits (s : Session) (f : IfaceId) (tgt : Addr) : Prop :=
  s.iface = some f ∧ s.tgtR = tgt

instance (s : Session) (f : IfaceId) (tgt : Addr) : Decidable (s.Awaits f tgt) :=
  inferInstanceAs (Decidable (_ ∧ _))

/-- The lookup by rewritten target finds the first session of the list. -/
theorem ndSessionFindR_eq (hst : e.Ok st) : ndSessionFindR e tgt f st =
    (st.bucketR (ndlBucket e.conf tgt)).find? fun i =>
      (st.session i).any fun s => s.Awaits f tgt := by
  rw [ndSessionFindR, (hst.byTgtR.holds.chain _).search_eq _ (hst.byTgtR.length_le hst.before _)]
  refine congrArg (fun p => List.find? p _) (funext fun i => ?_)
  refine congrArg (fun p => Option.any p _) (funext fun s => ?_)
  rw [Bool.eq_iff_iff, Bool.and_eq_true, beq_iff_eq, ndAddrEq_iff, decide_eq_true_iff,
    Session.Awaits]

theorem of_ndSessionFindR_eq_some (h : ndSessionFindR e tgt f st = some i) :
    ∃ s, st.session i = some s ∧ s.Awaits f tgt := by
  have := of_search_eq_some h
  rw [Option.any_eq_true] at this
  obtain ⟨s, hs, hp⟩ := this
  rw [Bool.and_eq_true, beq_iff_eq, ndAddrEq_iff] at hp
  exact ⟨s, hs, hp⟩

/-- If nothing is found by the rewritten target, no session awaits it. -/
theorem of_ndSessionFindR_eq_none (hst : e.Ok st) (h : ndSessionFindR e tgt f st = none) :
    ∀ i s, st.session i = some s → ¬s.Awaits f tgt := by
  intro i s hs ha
  rw [ndSessionFindR_eq hst, List.find?_eq_none] at h
  have := h i ((hst.byTgtR.mem_iff _ i).2 ⟨s, hs, by rw [ha.2]⟩)
  simp [hs, ha] at this

/-! ## Calls on one session -/

/-- A call on a session leaves the other ones alone. -/
theorem Mem.withSession_session_of_ne (m : Mem) (g : Session → World → Session × World)
    {j : SessionId} (h : j ≠ i) : (m.withSession i g).store.session j = m.store.session j := by
  unfold Mem.withSession
  split
  · rfl
  · exact m.store.set_session_of_ne _ h

theorem Mem.withSession_eq (g : Session → World → Session × World)
    (hs : m.store.session i = some s) :
    m.withSession i g = { store := m.store.set i (g s m.world).1, world := (g s m.world).2 } := by
  rw [Mem.withSession, hs]

theorem Mem.withSession_none (g : Session → World → Session × World)
    (hs : m.store.session i = none) : m.withSession i g = m := by
  rw [Mem.withSession, hs]

/-- A function that keeps the keys keeps the tables. -/
theorem Mem.withSession_ok (h : e.Ok m.store) {g : Session → World → Session × World}
    (hg : ∀ (s : Session) (w : World), s.SameKey (g s w).1) : e.Ok (m.withSession i g).store := by
  cases hs : m.store.session i with
  | none => rw [m.withSession_none g hs]; exact h
  | some s => rw [m.withSession_eq g hs]; exact h.set hs (hg s _)

/-- The other sessions are as before. -/
theorem Mem.withSession_keeps (m : Mem) {g : Session → World → Session × World}
    (hg : ∀ (s : Session) (w : World), s.SameKey (g s w).1) :
    m.store.Keeps (m.withSession i g).store := by
  cases hs : m.store.session i with
  | none => rw [m.withSession_none g hs]; exact .refl _
  | some s => rw [m.withSession_eq g hs]; exact Store.keeps_set hs (hg s _)

theorem Mem.withSession_sessions (m : Mem) (g : Session → World → Session × World) :
    (m.withSession i g).store.sessions = m.store.sessions := by
  unfold Mem.withSession
  split <;> rfl

theorem Mem.withSession_bucket (m : Mem) (g : Session → World → Session × World) :
    (m.withSession i g).store.bucket = m.store.bucket := by
  unfold Mem.withSession
  split <;> rfl

/-! ## Solicitations -/

/-- A rule that is found is one of the proxy, and its prefix matches. -/
theorem of_findRule_eq_some {r : RuleId} (h : e.findRule p tgt = some r) :
    r ∈ (e.cfg.proxy p).rules ∧
      ndAddrMatch e.conf.byteOrder (e.cfg.rule r).addr tgt (e.cfg.rule r).pflen = true := by
  unfold Env.findRule at h
  exact ⟨List.mem_of_find?_eq_some h, by simpa using List.find?_some h⟩

/-- The session for a new target, of a rule of the proxy it matches. -/
theorem newSession_matched {r : RuleId} (h : e.findRule p tgt = some r) :
    (newSession e r tgt).Matched e.conf e.cfg where
  mem_rules := by
    have hr := (of_findRule_eq_some h).1
    rw [show (newSession e r tgt).rule = r from rfl, e.cfg.linked p r hr]
    exact hr
  addr_match := (of_findRule_eq_some h).2
  tgtR_eq := rfl

/-- What creation does: nothing, if there are too many sessions, or a session
    in its first state. -/
theorem ndSessionCreate_cases (e : Env) (r : RuleId) (tgt : Addr) (m : Mem) :
    (m.store.count ≥ ndSessionMax ∧ ndSessionCreate e r tgt m = (none, m)) ∨
      (m.store.count < ndSessionMax ∧ ∃ s w,
        StartCase e m.store.fresh (newSession e r tgt) m.world s w ∧
        ndSessionCreate e r tgt m = (some m.store.fresh,
          { store := (m.store.link e.conf (newSession e r tgt)).set m.store.fresh s
            world := w })) := by
  by_cases hc : m.store.count ≥ ndSessionMax
  · exact .inl ⟨hc, if_pos hc⟩
  · exact .inr ⟨not_le.1 hc, _, _, startCase e _ _ _, if_neg hc⟩

/-- The cases of a solicitation: it is ignored, it is for a session, or it
    creates one. -/
inductive ProxyNsCase (e : Env) (p : ProxyId) (src tgt : Addr) (srcLl : Option LlAddr) (m : Mem) :
    Mem → Prop
  /-- No rule matches, or there are too many sessions. -/
  | ignored : (∀ r, e.findRule p tgt = some r → m.store.count ≥ ndSessionMax) →
      ndSessionFind e tgt p m.store = none → ProxyNsCase e p src tgt srcLl m m
  | found (i : SessionId) (s s' : Session) (w' : World) : m.store.session i = some s →
      s.tgt = tgt → (e.ruleOf s).proxy = p → NsCase e i src srcLl s m.world s' w' →
      ProxyNsCase e p src tgt srcLl m { store := m.store.set i s', world := w' }
  | created (r : RuleId) (s s' : Session) (w w' : World) :
      ndSessionFind e tgt p m.store = none → e.findRule p tgt = some r →
      m.store.count < ndSessionMax →
      StartCase e m.store.fresh (newSession e r tgt) m.world s w →
      NsCase e m.store.fresh src srcLl s w s' w' →
      ProxyNsCase e p src tgt srcLl m
        { store := (m.store.link e.conf (newSession e r tgt)).set m.store.fresh s', world := w' }

theorem Store.set_set (st : Store) (i : SessionId) (s s' : Session) :
    (st.set i s).set i s' = st.set i s' := by
  simp only [Store.set, Function.update_idem]

/-- A solicitation at a proxy is for a session, creates one, or does nothing. -/
theorem proxyNsCase (e : Env) (p : ProxyId) (src tgt : Addr) (srcLl : Option LlAddr) (m : Mem) :
    ProxyNsCase e p src tgt srcLl m (ndProxyHandleNs e p src tgt srcLl m) := by
  unfold ndProxyHandleNs
  cases hf : ndSessionFind e tgt p m.store with
  | some i =>
    obtain ⟨s, hs, ht, hp⟩ := of_ndSessionFind_eq_some hf
    dsimp only
    rw [m.withSession_eq _ hs]
    exact .found i s _ _ hs ht hp (nsCase e i src srcLl s m.world)
  | none =>
    cases hr : e.findRule p tgt with
    | none => exact .ignored (fun r h => absurd (hr.symm.trans h) (by simp)) hf
    | some r =>
      dsimp only
      rcases ndSessionCreate_cases e r tgt m with ⟨hc, h⟩ | ⟨hc, s, w, hstart, h⟩
      · rw [h]
        exact .ignored (fun _ _ => hc) hf
      · rw [h]
        dsimp only
        rw [Mem.withSession_eq _ (Store.set_session_self ..), Store.set_set]
        exact .created r s _ w _ hf hr hc hstart (nsCase e _ src srcLl s w)

/-- In each case the tables are in order afterwards. -/
theorem ProxyNsCase.ok {src : Addr} {srcLl : Option LlAddr} {m' : Mem}
    (hm : ProxyNsCase e p src tgt srcLl m m') (h : e.Ok m.store) : e.Ok m'.store := by
  cases hm with
  | ignored => exact h
  | found i s s' w' hs _ _ hns => exact h.set hs hns.sameKey
  | created r s s' w w' hf hr hc hstart hns =>
    have hlink := h.link hc (newSession_matched hr) fun j t ht htgt => by
      have := of_ndSessionFind_eq_none h hf j t ht htgt
      rwa [show (e.cfg.rule (newSession e r tgt).rule).proxy = p from
        e.cfg.linked p r (of_findRule_eq_some hr).1]
    exact hlink.set (Store.link_session_self ..) (hstart.sameKey.trans hns.sameKey)

/-! ## Timers -/

/-- What an update does to the store: it writes the session, or unlinks it. -/
theorem ndSessionUpdate_cases (e : Env) (m : Mem) (i : SessionId) :
    (m.store.session i = none ∧ ndSessionUpdate e i m = m) ∨
    (∃ s s' w, m.store.session i = some s ∧ UpdateCase e i s m.world (some s') w ∧
      ndSessionUpdate e i m = { store := m.store.set i s', world := w }) ∨
    (∃ s w, m.store.session i = some s ∧ UpdateCase e i s m.world none w ∧
      ndSessionUpdate e i m = { store := m.store.unlink e.conf i s, world := w }) := by
  cases hs : m.store.session i with
  | none => exact .inl ⟨rfl, by rw [ndSessionUpdate, hs]⟩
  | some s =>
    obtain ⟨o, w, ho⟩ : ∃ o w, updateSession e i s m.world = (o, w) := ⟨_, _, rfl⟩
    have hcase := updateCase e i s m.world
    rw [ho] at hcase
    cases o with
    | some s' =>
      exact .inr (.inl ⟨s, s', w, rfl, hcase, by rw [ndSessionUpdate, hs]; simp only [ho]⟩)
    | none => exact .inr (.inr ⟨s, w, rfl, hcase, by rw [ndSessionUpdate, hs]; simp only [ho]⟩)

/-- An update may remove its session, and keeps the tables. -/
theorem ndSessionUpdate_ok (h : e.Ok m.store) (i : SessionId) :
    e.Ok (ndSessionUpdate e i m).store := by
  rcases ndSessionUpdate_cases e m i with ⟨-, hm⟩ | ⟨s, s', w, hs, hc, hm⟩ | ⟨s, w, hs, -, hm⟩
  · rw [hm]; exact h
  · rw [hm]; exact h.set hs hc.sameKey
  · rw [hm]; exact h.unlink hs

theorem ndSessionUpdate_keeps (e : Env) (m : Mem) (i : SessionId) :
    m.store.Keeps (ndSessionUpdate e i m).store := by
  rcases ndSessionUpdate_cases e m i with ⟨-, hm⟩ | ⟨s, s', w, hs, hc, hm⟩ | ⟨s, w, hs, -, hm⟩
  · rw [hm]; exact .refl _
  · rw [hm]; exact Store.keeps_set hs hc.sameKey
  · rw [hm]; exact m.store.keeps_unlink e.conf i s

/-- An update leaves the other sessions alone. -/
theorem ndSessionUpdate_session_of_ne (e : Env) (m : Mem) {i j : SessionId} (h : j ≠ i) :
    (ndSessionUpdate e i m).store.session j = m.store.session j := by
  rcases ndSessionUpdate_cases e m i with ⟨-, hm⟩ | ⟨s, s', w, -, -, hm⟩ | ⟨s, w, -, -, hm⟩
  · rw [hm]
  · rw [hm]; exact m.store.set_session_of_ne s' h
  · rw [hm]; exact m.store.unlink_session_of_ne _ s h

/-- The lists after an update: the session stays where it is, or is taken out. -/
theorem ndSessionUpdate_bucket (h : e.Ok m.store) (i : SessionId) (b : Fin ndppdSessionBuckets) :
    (ndSessionUpdate e i m).store.bucket b = m.store.bucket b ∨
      (ndSessionUpdate e i m).store.bucket b = (m.store.bucket b).erase i := by
  rcases ndSessionUpdate_cases e m i with ⟨-, hm⟩ | ⟨s, s', w, -, -, hm⟩ | ⟨s, w, hs, -, hm⟩
  · exact .inl (by rw [hm])
  · exact .inl (by rw [hm]; rfl)
  · rw [hm]
    have := congrFun (h.byTgt.buckets_delete h.before hs) b
    by_cases hb : b = ndlBucket e.conf s.tgt
    · subst hb
      exact .inr (this.trans (Function.update_self ..))
    · exact .inl (this.trans (Function.update_of_ne hb ..))

theorem foldl_update_ok (h : e.Ok m.store) (l : List SessionId) :
    e.Ok (l.foldl (fun m i => ndSessionUpdate e i m) m).store :=
  List.foldlRecOn (motive := fun m : Mem => e.Ok m.store) l _ h
    fun _ hm i _ => ndSessionUpdate_ok hm i

/-- A list whose sessions are not updated does not change. -/
theorem foldl_update_bucket (h : e.Ok m.store) {l : List SessionId}
    (hl : ∀ i ∈ l, i ∉ m.store.bucket b) :
    (l.foldl (fun m i => ndSessionUpdate e i m) m).store.bucket b = m.store.bucket b := by
  induction l generalizing m with
  | nil => rfl
  | cons i l ih =>
    have hb : (ndSessionUpdate e i m).store.bucket b = m.store.bucket b := by
      rcases ndSessionUpdate_bucket h i b with hb | hb
      · exact hb
      · rw [hb, List.erase_of_not_mem (hl i List.mem_cons_self)]
    rw [List.foldl_cons, ih (ndSessionUpdate_ok h i) fun j hj => ?_, hb]
    rw [hb]
    exact hl j (List.mem_cons_of_mem _ hj)

/-- The loop over a list updates the sessions that were in it, once each,
    although it deletes some of them on its way. -/
theorem updateBucket_eq (h : e.Ok m.store) (b : Fin ndppdSessionBuckets) :
    updateBucket e m b = (m.store.bucket b).foldl (fun m i => ndSessionUpdate e i m) m := by
  -- Before the rounds on `l`, it is the end of the list.
  let P (m : Mem) (l : List SessionId) : Prop := e.Ok m.store ∧ ∃ l₀, m.store.bucket b = l₀ ++ l
  have hchain : ∀ m l, P m l → Chain m.store.sessions.next l.head? l := by
    rintro m l ⟨h, l₀, hl⟩
    have hc : Chain m.store.sessions.next (m.store.sessions.head b) (m.store.bucket b) :=
      h.byTgt.holds.chain b
    rw [hl] at hc
    exact hc.suffix
  have hbody : ∀ m i l, P m (i :: l) → P (ndSessionUpdate e i m) l := by
    rintro m i l ⟨h, l₀, hl⟩
    refine ⟨ndSessionUpdate_ok h i, ?_⟩
    rcases ndSessionUpdate_bucket h i b with hb | hb
    · exact ⟨l₀ ++ [i], by rw [hb, hl]; simp⟩
    · have hnd : (l₀ ++ i :: l).Nodup := hl ▸ (h.byTgt.holds.chain b).nodup
      have hi : i ∉ l₀ := fun hi => (List.disjoint_of_nodup_append hnd hi) List.mem_cons_self
      exact ⟨l₀, by rw [hb, hl, List.erase_append_right _ hi, List.erase_cons_head]⟩
  have hhead : m.store.sessions.head b = (m.store.bucket b).head? :=
    (h.byTgt.holds.chain b).head_eq
  rw [updateBucket, hhead]
  exact foreachS_eq_foldl hchain hbody ⟨h, [], rfl⟩ (h.byTgt.length_le h.before b)

/-- The order in which the loops visit the sessions. -/
def Store.order (st : Store) : List SessionId :=
  (List.finRange ndppdSessionBuckets).flatMap st.bucket

/-- The order of a pass is that of the sessions there are. -/
theorem mem_order (h : e.Ok st) : i ∈ st.order ↔ (st.session i).isSome := by
  rw [Store.order, List.mem_flatMap]
  constructor
  · rintro ⟨b, -, hi⟩
    obtain ⟨s, hs, -⟩ := (h.byTgt.mem_iff b i).1 hi
    rw [hs]
    rfl
  · intro hi
    obtain ⟨s, hs⟩ := Option.isSome_iff_exists.1 hi
    exact ⟨_, List.mem_finRange _, (h.byTgt.mem_iff _ i).2 ⟨s, hs, rfl⟩⟩

/-- No session is updated twice in a pass. -/
theorem nodup_order (h : e.Ok st) : st.order.Nodup := by
  rw [Store.order, List.nodup_flatMap]
  refine ⟨fun b _ => (h.byTgt.holds.chain b).nodup, ?_⟩
  exact (List.nodup_finRange _).imp fun hne i hi hi' => hne (h.byTgt.holds.disjoint hi hi')

/-- A session that is removed is in the bucket at hand, so the other buckets are as they were. -/
theorem foldl_updateBucket_eq (h : e.Ok m.store) {bs : List (Fin ndppdSessionBuckets)}
    (hbs : bs.Nodup) : bs.foldl (updateBucket e) m =
      (bs.flatMap m.store.bucket).foldl (fun m i => ndSessionUpdate e i m) m := by
  induction bs generalizing m with
  | nil => rfl
  | cons b bs ih =>
    obtain ⟨hb, hbs⟩ := List.nodup_cons.1 hbs
    rw [List.foldl_cons, updateBucket_eq h b, ih (foldl_update_ok h _) hbs, List.flatMap_cons,
      List.foldl_append]
    -- The sessions of the other lists are not updated in this one.
    refine congrArg (List.foldl _ _) (List.flatMap_congr fun b' hb' => ?_)
    refine foldl_update_bucket h fun i hi hi' => hb ?_
    rw [h.byTgt.holds.disjoint hi hi']
    exact hb'

/-- `nd_session_update_all` updates each session once. -/
theorem ndSessionUpdateAll_eq (h : e.Ok m.store) :
    ndSessionUpdateAll e m = m.store.order.foldl (fun m i => ndSessionUpdate e i m) m :=
  foldl_updateBucket_eq h (List.nodup_finRange _)

/-- A pass over all sessions keeps the tables. -/
theorem ndSessionUpdateAll_ok (h : e.Ok m.store) : e.Ok (ndSessionUpdateAll e m).store := by
  rw [ndSessionUpdateAll_eq h]
  exact foldl_update_ok h _

theorem ndSessionUpdateAll_keeps (h : e.Ok m.store) :
    m.store.Keeps (ndSessionUpdateAll e m).store := by
  rw [ndSessionUpdateAll_eq h]
  exact List.foldlRecOn (motive := fun m' : Mem => m.store.Keeps m'.store) _ _ (.refl _)
    fun m' hm i _ => hm.trans (ndSessionUpdate_keeps e m' i)

/-! ## Interfaces -/

section IfaceChanged

variable (f : IfaceId) (up : Bool)

theorem foldl_ifaceChanged_ok (h : e.Ok m.store) (l : List SessionId) :
    e.Ok (l.foldl (fun m i => m.withSession i (ifaceChanged e f up i)) m).store :=
  List.foldlRecOn (motive := fun m : Mem => e.Ok m.store) l _ h fun _ hm i _ =>
    Mem.withSession_ok hm fun s w => ifaceChanged_sameKey e f up i s w

theorem foldl_ifaceChanged_bucket (l : List SessionId) :
    (l.foldl (fun m i => m.withSession i (ifaceChanged e f up i)) m).store.bucket =
      m.store.bucket :=
  List.foldlRecOn (motive := fun m' : Mem => m'.store.bucket = m.store.bucket) l _ rfl
    fun m' hm _ _ => (m'.withSession_bucket _).trans hm

/-- A change of an interface does not unlink a session: the bucket is walked to its end. -/
theorem ifaceChangedBucket_eq (h : e.Ok m.store) (b : Fin ndppdSessionBuckets) :
    ifaceChangedBucket e f up m b =
      (m.store.bucket b).foldl (fun m i => m.withSession i (ifaceChanged e f up i)) m := by
  -- The tables do not change.
  let P (m' : Mem) (l : List SessionId) : Prop :=
    m'.store.sessions = m.store.sessions ∧ Chain m.store.sessions.next l.head? l
  have hhead : m.store.sessions.head b = (m.store.bucket b).head? :=
    (h.byTgt.holds.chain b).head_eq
  rw [ifaceChangedBucket, hhead]
  refine foreach_eq_foldl (P := P) ?_ ?_ ?_ ⟨rfl, ?_⟩ (h.byTgt.length_le h.before b)
  · rintro m' l ⟨hm, hl⟩
    rw [hm]
    exact hl
  · rintro m' i l ⟨hm, hl⟩
    exact ⟨(m'.withSession_sessions _).trans hm, hl.2.head_eq ▸ hl.2⟩
  · rintro m' i l -
    rw [m'.withSession_sessions]
  · exact hhead ▸ h.byTgt.holds.chain b

theorem foldl_ifaceChangedBucket_eq (h : e.Ok m.store) (bs : List (Fin ndppdSessionBuckets)) :
    bs.foldl (ifaceChangedBucket e f up) m = (bs.flatMap m.store.bucket).foldl
      (fun m i => m.withSession i (ifaceChanged e f up i)) m := by
  induction bs generalizing m with
  | nil => rfl
  | cons b bs ih =>
    rw [List.foldl_cons, ifaceChangedBucket_eq f up h, ih (foldl_ifaceChanged_ok f up h _),
      foldl_ifaceChanged_bucket, List.flatMap_cons, List.foldl_append]

/-- `nd_session_iface_changed` runs once on each session. -/
theorem ndSessionIfaceChanged_eq (h : e.Ok m.store) : ndSessionIfaceChanged e f up m =
    m.store.order.foldl (fun m i => m.withSession i (ifaceChanged e f up i)) m :=
  foldl_ifaceChangedBucket_eq f up h _

theorem ndSessionIfaceChanged_ok (h : e.Ok m.store) :
    e.Ok (ndSessionIfaceChanged e f up m).store := by
  rw [ndSessionIfaceChanged_eq f up h]
  exact foldl_ifaceChanged_ok f up h _

theorem ndSessionIfaceChanged_keeps (h : e.Ok m.store) :
    m.store.Keeps (ndSessionIfaceChanged e f up m).store := by
  rw [ndSessionIfaceChanged_eq f up h]
  exact List.foldlRecOn (motive := fun m' : Mem => m.store.Keeps m'.store) _ _ (.refl _)
    fun m' hm i _ => hm.trans (m'.withSession_keeps fun s w => ifaceChanged_sameKey e f up i s w)

end IfaceChanged

end Ndppd
