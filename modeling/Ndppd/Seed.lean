import Ndppd.Fanout
import Ndppd.Seed.Alike

/-!
# The seed of the hash

The tables of sessions are hashed with a seed that is drawn at start-up. It
decides on the list a session is in, and so on the order in which the loops visit
the sessions, but not on what the daemon does: with two seeds, the same events
lead to the same sessions and make the same entries (`Daemon.run_seeds`).

The reason is that the tables stand for the list of the sessions, in the order of
their creation (`ndSessionFind_iff`, `ndSessionFindR_eq_live`,
`ndSessionUpdateAll_live`).
-/

namespace Ndppd

variable {e : Env} {seed : U32} {st : Store} {m m' : Mem} {i : SessionId} {f : IfaceId} {tgt : Addr}
  {p : ProxyId}

/-! ## The list of sessions -/

/-- The lookup finds the session for the target and the proxy: there is only one. -/
theorem ndSessionFind_iff (h : e.Ok st) : ndSessionFind e tgt p st = some i ↔
    ∃ s, st.session i = some s ∧ s.tgt = tgt ∧ (e.ruleOf s).proxy = p := by
  refine ⟨of_ndSessionFind_eq_some, fun ⟨s, hs, ht, hp⟩ => ?_⟩
  cases hfind : ndSessionFind e tgt p st with
  | none => exact absurd hp (of_ndSessionFind_eq_none h hfind i s hs ht)
  | some j =>
    obtain ⟨t, htj, ht', hp'⟩ := of_ndSessionFind_eq_some hfind
    exact congrArg some (h.unique j i t s htj hs (ht'.trans ht.symm) (hp'.trans hp.symm))

/-- The lookup by rewritten target finds the newest session that awaits it. -/
theorem ndSessionFindR_iff (h : e.Ok st) : ndSessionFindR e tgt f st = some i ↔
    (∃ s, st.session i = some s ∧ s.Awaits f tgt) ∧
      ∀ j t, st.session j = some t → t.Awaits f tgt → j ≤ i := by
  refine ⟨fun hi => ⟨of_ndSessionFindR_eq_some hi, fun j t => le_of_ndSessionFindR h hi⟩, ?_⟩
  rintro ⟨⟨s, hs, ha⟩, hmax⟩
  cases hfind : ndSessionFindR e tgt f st with
  | none => exact absurd ha (of_ndSessionFindR_eq_none h hfind i s hs)
  | some j =>
    obtain ⟨t, htj, ht⟩ := of_ndSessionFindR_eq_some hfind
    exact congrArg some (le_antisymm (hmax j t htj ht) (le_of_ndSessionFindR h hfind hs ha))

/-- The lookup by rewritten target is a search through the sessions, the newest first. -/
theorem ndSessionFindR_eq_live (h : e.Ok st) : ndSessionFindR e tgt f st =
    st.live.reverse.find? fun i => (st.session i).any fun s => s.Awaits f tgt := by
  refine (Option.ext fun i => ?_).symm
  rw [ndSessionFindR_iff h, List.find?_eq_some_iff_append]
  have hsorted : st.live.reverse.Pairwise (· > ·) :=
    List.pairwise_reverse.2 (List.pairwise_lt_range.filter _)
  have hmem : ∀ j t, st.session j = some t → j ∈ st.live.reverse := fun j t ht =>
    List.mem_reverse.2 ((Store.mem_live h.before).2 (by rw [ht]; rfl))
  have hawaits : ∀ j, ((st.session j).any fun s => s.Awaits f tgt) = true ↔
      ∃ t, st.session j = some t ∧ t.Awaits f tgt := fun j => by
    simp only [Option.any_eq_true, decide_eq_true_eq]
  constructor
  · rintro ⟨hi, newer, older, hl, hnewer⟩
    refine ⟨(hawaits i).1 hi, fun j t ht ha => ?_⟩
    have hj := hmem j t ht
    rw [hl] at hj hsorted
    rcases List.mem_append.1 hj with hj | hj
    · exact absurd (hnewer j hj) (by rw [(hawaits j).2 ⟨t, ht, ha⟩]; simp)
    · rcases List.mem_cons.1 hj with rfl | hj
      · exact le_rfl
      · exact (List.rel_of_pairwise_cons (List.pairwise_append.1 hsorted).2.1 hj).le
  · rintro ⟨⟨s, hs, ha⟩, hmax⟩
    obtain ⟨newer, older, hl⟩ := List.append_of_mem (hmem i s hs)
    refine ⟨(hawaits i).2 ⟨s, hs, ha⟩, newer, older, hl, fun j hj => ?_⟩
    rw [hl] at hsorted
    have hji : j > i := (List.pairwise_append.1 hsorted).2.2 j hj i List.mem_cons_self
    rw [Bool.not_eq_true', ← Bool.not_eq_true, hawaits]
    exact fun ⟨t, ht, hat⟩ => absurd (hmax j t ht hat) (not_le.2 hji)

/-- A tick updates each session once, in the order of their creation or another one. -/
theorem ndSessionUpdateAll_live (h : e.Ok m.store) :
    (m.store.live.foldl (fun m i => ndSessionUpdate e i m) m).Alike (ndSessionUpdateAll e m) := by
  rw [ndSessionUpdateAll_eq h]
  have hnd : m.store.live.Nodup := List.nodup_range.filter _
  exact foldl_update_alike e e.conf.hashSeed hnd (Store.order_perm_live h).symm (.refl m)

/-! ## Two seeds -/

/-- Alike states of two daemons, whose seeds differ. -/
structure Twins (e : Env) (seed : U32) (m m' : Mem) : Prop where
  alike : m.Alike m'
  ok : e.Ok m.store
  ok' : (e.reseed seed).Ok m'.store

namespace Twins

/-- The lookup finds the same session, though in another list. -/
theorem find_eq (h : Twins e seed m m') (tgt : Addr) (p : ProxyId) :
    ndSessionFind (e.reseed seed) tgt p m'.store = ndSessionFind e tgt p m.store := by
  ext i
  rw [ndSessionFind_iff h.ok, ndSessionFind_iff h.ok', h.alike.session]
  rfl

/-- So does the lookup by rewritten target: the newest session does not depend on the lists. -/
theorem findR_eq (h : Twins e seed m m') (tgt : Addr) (f : IfaceId) :
    ndSessionFindR (e.reseed seed) tgt f m'.store = ndSessionFindR e tgt f m.store := by
  ext i
  rw [ndSessionFindR_iff h.ok, ndSessionFindR_iff h.ok', h.alike.session]

/-- The limit on the number of sessions is reached at the same time. -/
theorem count_eq (h : Twins e seed m m') : m'.store.count = m.store.count := by
  rw [h.ok.count_eq, h.ok'.count_eq, Store.live, Store.live, h.alike.session, h.alike.fresh]

/-- What is not about the tables of sessions may be replaced, by something alike. -/
theorem withWorld (h : Twins e seed m m') {w w' : World} (hw : w.Alike w') :
    Twins e seed { m with world := w } { m' with world := w' } :=
  ⟨⟨h.alike.session, h.alike.fresh, hw⟩, h.ok, h.ok'⟩

theorem emit (h : Twins e seed m m') (a : Act) :
    Twins e seed (m.emit e a) (m'.emit (e.reseed seed) a) := h.withWorld (h.alike.world.emit e a)

theorem setIface (h : Twins e seed m m') (i : IfaceId) (g : Iface) :
    Twins e seed (m.setIface i g) (m'.setIface i g) :=
  h.withWorld ⟨by rw [h.alike.world.net], h.alike.world.log⟩

/-! ### Packets -/

/-- The same session is created, or none: its number is not drawn from the tables. -/
theorem ndSessionCreate (h : Twins e seed m m') (r : RuleId) (tgt : Addr) :
    (Ndppd.ndSessionCreate (e.reseed seed) r tgt m').1 = (Ndppd.ndSessionCreate e r tgt m).1 ∧
      (Ndppd.ndSessionCreate e r tgt m).2.Alike
        (Ndppd.ndSessionCreate (e.reseed seed) r tgt m').2 := by
  rw [Ndppd.ndSessionCreate, Ndppd.ndSessionCreate, h.count_eq, h.alike.fresh]
  split_ifs with hc
  · exact ⟨rfl, h.alike⟩
  · obtain ⟨hs, hw⟩ := (framed_startSession e m.store.fresh (newSession e r tgt)).alike
      h.alike.world
    have hseed : startSession (e.reseed seed) m.store.fresh (newSession (e.reseed seed) r tgt)
        m'.world = startSession e m.store.fresh (newSession e r tgt) m'.world := rfl
    dsimp only
    rw [hseed, hs]
    exact ⟨rfl, (h.alike.link e.conf _ (newSession e r tgt) h.alike.world).set _ _ hw⟩

/-- A solicitation is handed to the same session, or creates the same one. -/
theorem ndProxyHandleNs (h : Twins e seed m m') (p : ProxyId) (src tgt : Addr)
    (srcLl : Option LlAddr) : (Ndppd.ndProxyHandleNs e p src tgt srcLl m).Alike
      (Ndppd.ndProxyHandleNs (e.reseed seed) p src tgt srcLl m') := by
  have hns := fun i s => framed_ndSessionHandleNs e i src srcLl s
  rw [Ndppd.ndProxyHandleNs, Ndppd.ndProxyHandleNs, h.find_eq]
  cases Ndppd.ndSessionFind e tgt p m.store with
  | some i => exact h.alike.withSession i (hns i)
  | none =>
    rw [show (e.reseed seed).findRule p tgt = e.findRule p tgt from rfl]
    cases e.findRule p tgt with
    | none => exact h.alike
    | some r =>
      obtain ⟨hi, halike⟩ := h.ndSessionCreate r tgt
      obtain ⟨o, m₁, ho⟩ : ∃ o m₁, Ndppd.ndSessionCreate e r tgt m = (o, m₁) := ⟨_, _, rfl⟩
      obtain ⟨o', m₁', ho'⟩ : ∃ o m₁, Ndppd.ndSessionCreate (e.reseed seed) r tgt m' = (o, m₁) :=
        ⟨_, _, rfl⟩
      rw [ho, ho'] at hi halike
      obtain rfl : o' = o := hi
      dsimp only
      rw [ho, ho']
      cases o' with
      | none => exact halike
      | some i => exact halike.withSession i (hns i)

/-- A solicitation that is received has the same effect. -/
theorem ndLHandleNs (h : Twins e seed m m') (f : IfaceId) (src : Addr) (icmp : List U8)
    (ethSrc : LlAddr) : (Ndppd.ndLHandleNs e f src icmp ethSrc m).Alike
      (Ndppd.ndLHandleNs (e.reseed seed) f src icmp ethSrc m') := by
  rw [Ndppd.ndLHandleNs, Ndppd.ndLHandleNs, h.alike.world.net]
  cases (m.world.net.iface f).proxy with
  | none => exact h.alike
  | some p =>
    rw [show (e.reseed seed).conf.byteOrder = e.conf.byteOrder from rfl]
    cases parseNs e.conf.byteOrder src icmp ethSrc with
    | none => exact h.alike
    | some q => exact (h.emit (.rxNs f src q.1 q.2)).ndProxyHandleNs p src q.1 q.2

/-- An advertisement reaches the same session. -/
theorem ndLHandleNa (h : Twins e seed m m') (f : IfaceId) (icmp : List U8) :
    (Ndppd.ndLHandleNa e f icmp m).Alike (Ndppd.ndLHandleNa (e.reseed seed) f icmp m') := by
  rw [Ndppd.ndLHandleNa, Ndppd.ndLHandleNa]
  cases naTarget icmp with
  | none => exact h.alike
  | some tgt =>
    dsimp only
    rw [h.findR_eq]
    cases ndSessionFindR e tgt f m.store with
    | none => exact h.alike
    | some i => exact h.alike.withSession i fun s => framed_ndSessionHandleNa e i s

/-! ### Loops -/

/-- The sessions are updated in another order. Each of them is updated once, and what it does
    depends on the interfaces only. -/
theorem updateAll (h : Twins e seed m m') :
    (ndSessionUpdateAll e m).Alike (ndSessionUpdateAll (e.reseed seed) m') := by
  rw [ndSessionUpdateAll_eq h.ok, ndSessionUpdateAll_eq h.ok']
  exact foldl_update_alike e seed (nodup_order h.ok)
    (Store.order_perm h.ok h.ok' h.alike.session) h.alike

/-- A change of an interface is told to the same sessions, in another order. -/
theorem ndSessionIfaceChanged (h : Twins e seed m m') (f : IfaceId) (up : Bool) :
    Twins e seed (Ndppd.ndSessionIfaceChanged e f up m)
      (Ndppd.ndSessionIfaceChanged (e.reseed seed) f up m') := by
  refine ⟨?_, ndSessionIfaceChanged_ok f up h.ok, ndSessionIfaceChanged_ok f up h.ok'⟩
  rw [ndSessionIfaceChanged_eq f up h.ok, ndSessionIfaceChanged_eq f up h.ok']
  exact foldl_ifaceChanged_alike e f up (nodup_order h.ok)
    (Store.order_perm h.ok h.ok' h.alike.session) h.alike

theorem rebindAbsent (h : Twins e seed m m') (i : IfaceId) :
    Twins e seed (Ndppd.rebindAbsent e i m) (Ndppd.rebindAbsent (e.reseed seed) i m') := by
  rw [Ndppd.rebindAbsent, Ndppd.rebindAbsent, h.alike.world.net]
  split_ifs
  · exact (h.setIface i _).ndSessionIfaceChanged i false
  · exact h

theorem rebindSame (h : Twins e seed m m') (i : IfaceId) (adminUp : Bool) :
    Twins e seed (Ndppd.rebindSame e i adminUp m)
      (Ndppd.rebindSame (e.reseed seed) i adminUp m') := by
  rw [Ndppd.rebindSame, Ndppd.rebindSame, h.alike.world.net]
  dsimp only
  split_ifs
  · have h := h.ndSessionIfaceChanged i adminUp
    rw [h.alike.world.net]
    exact h.setIface i _
  · rw [h.alike.world.net]
    exact h.setIface i _

theorem rebindNew (h : Twins e seed m m') (i : IfaceId) (cur : ℕ) (adminUp : Bool) :
    Twins e seed (Ndppd.rebindNew e i cur adminUp m)
      (Ndppd.rebindNew (e.reseed seed) i cur adminUp m') := by
  have hset : ∀ {m m'} (g : Iface → Iface), Twins e seed m m' →
      Twins e seed (m.setIface i (g (m.world.net.iface i)))
        (m'.setIface i (g (m'.world.net.iface i))) := by
    intro m m' g h
    rw [h.alike.world.net]
    exact h.setIface i _
  have hlost : ∀ {m m'} (f : Iface), Twins e seed m m' →
      Twins e seed (if f.up then Ndppd.ndSessionIfaceChanged e i false m else m)
        (if f.up then Ndppd.ndSessionIfaceChanged (e.reseed seed) i false m' else m') := by
    intro m m' f h
    split_ifs
    · exact h.ndSessionIfaceChanged i false
    · exact h
  have hback : ∀ {m m'}, Twins e seed m m' →
      Twins e seed (if adminUp then Ndppd.ndSessionIfaceChanged e i true m else m)
        (if adminUp then Ndppd.ndSessionIfaceChanged (e.reseed seed) i true m' else m') := by
    intro m m' h
    split_ifs
    · exact h.ndSessionIfaceChanged i true
    · exact h
  have hleft : ∀ {m m'} (f : Iface), Twins e seed m m' →
      Twins e seed
        (if f.index ≠ 0 ∧ f.index ≠ cur then m.emit e (.dropMembership f.index f.promiscuous)
          else m)
        (if f.index ≠ 0 ∧ f.index ≠ cur then
          m'.emit (e.reseed seed) (.dropMembership f.index f.promiscuous) else m') := by
    intro m m' f h
    split_ifs
    · exact h.emit _
    · exact h
  rw [Ndppd.rebindNew, Ndppd.rebindNew, h.alike.world.net,
    show (e.reseed seed).kernel = e.kernel from rfl]
  dsimp only
  by_cases hacc : e.kernel.addMembership cur (m.world.net.iface i).promiscuous = true
  · rw [if_pos hacc, if_pos hacc]
    exact hset (fun g => { g with adminUp := adminUp }) (hback
      (hset (fun g => { g with index := cur, up := true }) (hlost _ (hleft _ (h.emit _)))))
  · rw [if_neg hacc, if_neg hacc]
    exact h.emit _

/-- One object of a pass, in each of its cases. -/
theorem rebindIface (h : Twins e seed m m') (i : IfaceId) :
    Twins e seed (Ndppd.rebindIface e m i) (Ndppd.rebindIface (e.reseed seed) m' i) := by
  rw [Ndppd.rebindIface, Ndppd.rebindIface, h.alike.world.net,
    show (e.reseed seed).kernel = e.kernel from rfl]
  dsimp only
  split_ifs
  · exact h.rebindAbsent i
  · exact h
  · exact (h.setIface i _).rebindSame i _
  · exact (h.setIface i _).rebindNew i _ _

/-- A pass over the interfaces visits the objects in the order of their list, which is the same. -/
theorem ndIfaceRebindAll (h : Twins e seed m m') :
    Twins e seed (Ndppd.ndIfaceRebindAll e m) (Ndppd.ndIfaceRebindAll (e.reseed seed) m') := by
  rw [Ndppd.ndIfaceRebindAll, Ndppd.ndIfaceRebindAll, h.alike.world.net]
  exact Reorder.foldl_congr (R := Twins e seed) (fun _ _ i h => h.rebindIface i) h _

/-- The routes that are removed at exit are those of the daemon, whatever the seed. -/
theorem ndRtRemoveOwnedRoutes {w w' : World} (h : w.Alike w') :
    (Ndppd.ndRtRemoveOwnedRoutes e w).Alike (Ndppd.ndRtRemoveOwnedRoutes (e.reseed seed) w') := by
  refine Reorder.foldl_congr (R := World.Alike) (fun w w' route h => ?_) h _
  split_ifs
  · exact h.emit e _
  · exact h

/-! ### Events -/

/-- What one event does, call by call. -/
theorem stepMem (h : Twins e seed m m') (a : Action) :
    Twins e seed (Daemon.stepMem e a m) (Daemon.stepMem (e.reseed seed) a m') := by
  refine ⟨?_, (stepMem_moves h.ok).ok, (stepMem_moves h.ok').ok⟩
  cases a with
  | ns p src tgt srcLl => exact h.ndProxyHandleNs p src tgt srcLl
  | rxNs f src icmp ethSrc => exact h.ndLHandleNs f src icmp ethSrc
  | rxNa f icmp => exact h.ndLHandleNa f icmp
  | tick => exact h.updateAll
  | rebind => exact h.ndIfaceRebindAll.alike
  | removeOwnedRoutes => exact (h.withWorld (ndRtRemoveOwnedRoutes h.alike.world)).alike
  | newRoute => exact h.alike
  | deleteRoute => exact h.alike
  | newAddr => exact h.alike
  | deleteAddr => exact h.alike

end Twins

/-! ## What an event adds -/

variable {a : Action} {s s' : Session} {w w' : World}

/-- A call that does not read the log keeps what is in it. -/
theorem Framed.log_suffix {α : Type} {g : World → α × World} (hg : Framed g) (w : World) :
    w.log <:+ (g w).2.log := by
  rw [hg.eq w]
  exact List.suffix_append ..

theorem FramedUnit.log_suffix {g : World → World} (hg : FramedUnit g) (w : World) :
    w.log <:+ (g w).log := by
  rw [show g w = (g ⟨w.net, []⟩).under w.log from hg ⟨w.net, []⟩ w.log]
  exact List.suffix_append ..

theorem openRoute_log_suffix {rule : Rule} {o : Option IfaceId}
    (h : openRoute e rule tgt w = (o, w')) : w.log <:+ w'.log := by
  have := (framed_openRoute e rule tgt).log_suffix w
  rwa [h] at this

theorem Solicits.log_suffix {src : Addr} {srcLl : Option LlAddr}
    (h : Solicits e w a p src tgt srcLl w') : w.log <:+ w'.log := by
  cases h with
  | direct => exact List.suffix_refl _
  | received => exact List.suffix_cons ..

theorem StartCase.log_suffix (h : StartCase e i s w s' w') : w.log <:+ w'.log := by
  cases h with
  | unrouted w' _ ho => exact openRoute_log_suffix ho
  | routed f w' _ ho => exact (openRoute_log_suffix ho).trans (List.suffix_cons ..)
  | probed => exact List.suffix_cons ..
  | _ => exact List.suffix_refl _

theorem NsCase.log_suffix {src : Addr} {srcLl : Option LlAddr}
    (h : NsCase e i src srcLl s w s' w') : w.log <:+ w'.log := by
  cases h with
  | answered => exact (framed_answerNs e i src srcLl s).log_suffix w
  | dropped => exact List.suffix_refl _
  | queued ll subs w' _ _ _ ho =>
    rcases ho with rfl | ho
    · exact List.suffix_refl _
    · exact openRoute_log_suffix ho
  | resumed ll subs f w' _ _ _ _ _ ho =>
    exact (openRoute_log_suffix ho).trans (List.suffix_cons ..)
  | probed => exact List.suffix_cons ..

theorem NaCase.log_suffix (h : NaCase e i s w s' w') : w.log <:+ w'.log := by
  cases h with
  | refreshed => exact List.suffix_refl _
  | validated b w' _ hup =>
    have := (framed_ndLUp e i { s with subs := [] }).log_suffix (sendSubs e i s w)
    rw [hup] at this
    exact ((framed_sendSubs e i s).log_suffix w).trans this

theorem UpdateCase.log_suffix {o : Option Session} (h : UpdateCase e i s w o w') :
    w.log <:+ w'.log := by
  cases h with
  | deleted =>
    have hdown := (framed_ndLDown e i s).log_suffix w
    cases s.iface with
    | none => exact hdown
    | some f => exact hdown.trans ((framed_ndIfaceClose e f).log_suffix _)
  | _ => first | exact List.suffix_refl _ | exact List.suffix_cons ..

theorem Change.log_suffix {o o' : Option Session} (h : Change e i w a o o' w') :
    w.log <:+ w'.log := by
  cases h with
  | created hsol _ hstart hns =>
    exact (hsol.log_suffix.trans hstart.log_suffix).trans hns.log_suffix
  | solicited hsol hns => exact hsol.log_suffix.trans hns.log_suffix
  | advertised _ _ hna => exact hna.log_suffix
  | updated hu => exact hu.log_suffix
  | deleted hu => exact hu.log_suffix
  | forgotten => exact List.suffix_refl _
  | @rewired s _ => exact (framed_ndLUp e i s).log_suffix w

/-- No move takes an entry from the log. -/
theorem Move.log_suffix (h : Move e a m m') : m.world.log <:+ m'.world.log := by
  cases h with
  | session i o o' st' w' _ hc _ => exact hc.log_suffix
  | world w' he =>
    cases he with
    | ignored hsol => exact hsol.log_suffix
    | rebound => exact List.suffix_refl _
    | joined => exact List.suffix_cons ..
    | left => exact List.suffix_cons ..
    | purged => exact List.suffix_cons ..

theorem stepMem_log_suffix (h : e.Ok m.store) :
    m.world.log <:+ (Daemon.stepMem e a m).world.log :=
  stepMem_induction (Q := fun m' => m.world.log <:+ m'.world.log) h (List.suffix_refl _)
    fun _ _ _ _ hm hQ => hQ.trans hm.log_suffix

/-- An event deletes sessions from the list, and creates them at its end. -/
theorem stepMem_live (h : e.Ok m.store) : ∃ new, (Daemon.stepMem e a m).store.live =
    (m.store.live.filter fun i => ((Daemon.stepMem e a m).store.session i).isSome) ++ new := by
  let Q (m' : Mem) : Prop := m.store.fresh ≤ m'.store.fresh ∧
    ∀ i < m.store.fresh, (m'.store.session i).isSome → (m.store.session i).isSome
  obtain ⟨hfresh, hold⟩ : Q (Daemon.stepMem e a m) := by
    refine stepMem_induction h ⟨le_rfl, fun _ _ => id⟩ fun m₁ m₂ _ _ hm hQ => ?_
    cases hm with
    | world => exact hQ
    | session i o o' st' w' ho hc hw =>
      refine ⟨hQ.1.trans hw.fresh_le, fun j hj hsome => ?_⟩
      by_cases hji : j = i
      · subst hji
        refine hQ.2 j hj ?_
        -- The identifier was in use: a new one would be `fresh`.
        cases hs : m₁.store.session j with
        | some s => rfl
        | none => exact absurd (hw.eq_fresh hs) (hj.trans_le hQ.1).ne
      · rw [hw.of_ne hji] at hsome
        exact hQ.2 j hj hsome
  obtain ⟨n, hn⟩ := Nat.exists_eq_add_of_le hfresh
  refine ⟨((List.range n).map (m.store.fresh + ·)).filter fun i =>
    ((Daemon.stepMem e a m).store.session i).isSome, ?_⟩
  rw [Store.live, hn, List.range_add, List.filter_append, Store.live, List.filter_filter]
  refine congrArg (· ++ _) (List.filter_congr fun i hi => ?_)
  have := hold i (List.mem_range.1 hi)
  grind

/-! ## Runs -/

/-- The tables stand for the list of the sessions, in the order of their creation. -/
structure Listed (e : Env) (m : Mem) : Prop where
  find : ∀ tgt p i, ndSessionFind e tgt p m.store = some i ↔
    ∃ s, m.store.session i = some s ∧ s.tgt = tgt ∧ (e.ruleOf s).proxy = p
  findR : ∀ tgt f, ndSessionFindR e tgt f m.store =
    m.store.live.reverse.find? fun i => (m.store.session i).any fun s => s.Awaits f tgt
  updateAll :
    (m.store.live.foldl (fun m i => ndSessionUpdate e i m) m).Alike (ndSessionUpdateAll e m)
  mem_live : ∀ i, i ∈ m.store.live ↔ (m.store.session i).isSome
  step : ∀ a, ∃ new, (Daemon.stepMem e a m).store.live =
    (m.store.live.filter fun i => ((Daemon.stepMem e a m).store.session i).isSome) ++ new

/-- Every sound state is such, whatever the seed. -/
theorem listed (h : e.Ok m.store) : Listed e m where
  find _ _ _ := ndSessionFind_iff h
  findR _ _ := ndSessionFindR_eq_live h
  updateAll := ndSessionUpdateAll_live h
  mem_live _ := Store.mem_live h.before
  step _ := stepMem_live h

namespace Daemon

variable (conf : Conf) (seed seed' : U32) (cfg : Config) (w : World)

/-- The runs of the two daemons, from their start: they hold the same routes and addresses, and
    their states are alike. -/
theorem run_alike (es : List Event) :
    ((init { conf with hashSeed := seed' } cfg w).run es).rt =
      ((init { conf with hashSeed := seed } cfg w).run es).rt ∧
    ((init { conf with hashSeed := seed } cfg w).run es).mem.Alike
      ((init { conf with hashSeed := seed' } cfg w).run es).mem := by
  induction es using List.reverseRecOn with
  | nil => exact ⟨rfl, .refl _⟩
  | append_singleton es ev ih =>
    obtain ⟨hrt, halike⟩ := ih
    have hok := run_ok { conf with hashSeed := seed } cfg w es ev
    have hok' := run_ok { conf with hashSeed := seed' } cfg w es ev
    have henv : ((init { conf with hashSeed := seed' } cfg w).run es).env ev =
        (((init { conf with hashSeed := seed } cfg w).run es).env ev).reseed seed' := by
      simp [env, Env.reseed, hrt]
    rw [henv] at hok'
    rw [run_concat, run_concat, step_mem, step_mem, henv]
    refine ⟨?_, (Twins.stepMem ⟨halike, hok, hok'⟩ ev.action).alike⟩
    simp [step, hrt]

/-- With two seeds, a run of the same events reaches the same sessions, and each
    event makes the same entries, in some order: the tables stand for the list of
    the sessions. -/
theorem run_seeds (es : List Event) (ev : Event) :
    let d := (init { conf with hashSeed := seed } cfg w).run es
    let d' := (init { conf with hashSeed := seed' } cfg w).run es
    d'.mem.store.session = d.mem.store.session ∧ d'.mem.world.net = d.mem.world.net ∧
    (∃ new new', (d.step ev).mem.world.log = new ++ d.mem.world.log ∧
      (d'.step ev).mem.world.log = new' ++ d'.mem.world.log ∧ new'.Perm new) ∧
    Listed (d.env ev) d.mem := by
  intro d d'
  have hok : (d.env ev).Ok d.mem.store := run_ok _ cfg w es ev
  have hok' : (d'.env ev).Ok d'.mem.store := run_ok _ cfg w es ev
  have halike : d.mem.Alike d'.mem := (run_alike conf seed seed' cfg w es).2
  have hstep : (d.step ev).mem.Alike (d'.step ev).mem := by
    have := (run_alike conf seed seed' cfg w (es ++ [ev])).2
    rwa [run_concat, run_concat] at this
  obtain ⟨new, hnew⟩ := stepMem_log_suffix (a := ev.action) hok
  obtain ⟨new', hnew'⟩ := stepMem_log_suffix (a := ev.action) hok'
  refine ⟨halike.session, halike.world.net, ⟨new, new', hnew.symm, hnew'.symm, ?_⟩, listed hok⟩
  -- What is added is all there is, but for the same entries.
  have hlog : (new' ++ d'.mem.world.log).Perm (new ++ d.mem.world.log) := by
    rw [hnew, hnew']
    exact hstep.world.log
  exact (List.perm_append_right_iff _).1
    (((List.Perm.append_left new' halike.world.log).symm).trans hlog)

end Daemon

end Ndppd
