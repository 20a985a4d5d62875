import Ndppd.Daemon.Links
import Ndppd.Lib.Reorder
import Ndppd.Seed.Framed

/-!
# Sessions in any order

Two states are *alike* if they have the same sessions and interfaces, and made
the same entries, in whatever order (`Mem.Alike`). Updating two sessions in
either order gives alike states (`ndSessionUpdate_swap`): a session reads
neither the other ones nor the log, and the interfaces two sessions give up can
be closed in either order. So the loops over the sessions may visit them in any
order (`ndSessionUpdateAll_alike`, `ndSessionIfaceChanged_alike`).
-/

namespace Ndppd

/-- The same interfaces and the same entries. -/
structure World.Alike (w w' : World) : Prop where
  net : w'.net = w.net
  log : w'.log.Perm w.log

/-- The same sessions, interfaces and entries. -/
structure Mem.Alike (m m' : Mem) : Prop where
  session : m'.store.session = m.store.session
  fresh : m'.store.fresh = m.store.fresh
  world : m.world.Alike m'.world

theorem World.Alike.refl (w : World) : w.Alike w := ⟨rfl, .refl _⟩

theorem World.Alike.trans {w w' w'' : World} (h : w.Alike w') (h' : w'.Alike w'') : w.Alike w'' :=
  ⟨h'.net.trans h.net, h'.log.trans h.log⟩

theorem Mem.Alike.refl (m : Mem) : m.Alike m := ⟨rfl, rfl, .refl _⟩

theorem Mem.Alike.trans {m m' m'' : Mem} (h : m.Alike m') (h' : m'.Alike m'') : m.Alike m'' :=
  ⟨h'.session.trans h.session, h'.fresh.trans h.fresh, h.world.trans h'.world⟩

variable {e : Env} {m m' : Mem} {i j : SessionId} {s t : Session} {w w' : World}

/-- An entry is added to both logs. -/
theorem World.Alike.emit (h : w.Alike w') (e : Env) (a : Act) :
    (w.emit e a).Alike (w'.emit e a) := ⟨h.net, h.log.cons _⟩

/-! ## Calls on a session -/

/-- What a call does, from what it does with an empty log. -/
theorem Framed.eq {α : Type} {g : World → α × World} (hg : Framed g) (w : World) :
    g w = ((g ⟨w.net, []⟩).1, (g ⟨w.net, []⟩).2.under w.log) := hg ⟨w.net, []⟩ w.log

/-- A call which does not read the log does the same from alike worlds. -/
theorem Framed.alike {α : Type} {g : World → α × World} (hg : Framed g) (h : w.Alike w') :
    (g w').1 = (g w).1 ∧ (g w).2.Alike (g w').2 := by
  rw [hg.eq w, hg.eq w', h.net]
  exact ⟨rfl, rfl, h.log.append_left _⟩

theorem Mem.Alike.set (h : m.Alike m') (i : SessionId) (s : Session) (hw : w.Alike w') :
    Mem.Alike ⟨m.store.set i s, w⟩ ⟨m'.store.set i s, w'⟩ where
  session := by rw [Store.set, Store.set, h.session]
  fresh := h.fresh
  world := hw

/-- Two stores free a session, wherever it is in their tables. -/
theorem Mem.Alike.unlink (h : m.Alike m') (c c' : Conf) (i : SessionId) (s : Session)
    (hw : w.Alike w') : Mem.Alike ⟨m.store.unlink c i s, w⟩ ⟨m'.store.unlink c' i s, w'⟩ where
  session := by rw [Store.unlink, Store.unlink, h.session]
  fresh := h.fresh
  world := hw

/-- Two stores allocate a session. -/
theorem Mem.Alike.link (h : m.Alike m') (c c' : Conf) (s : Session)
    (hw : w.Alike w') : Mem.Alike ⟨m.store.link c s, w⟩ ⟨m'.store.link c' s, w'⟩ where
  session := by rw [Store.link, Store.link, h.session, h.fresh]
  fresh := by rw [Store.link, Store.link, h.fresh]
  world := hw

/-- A function that does not read the log does the same to both. -/
theorem Mem.Alike.withSession (h : m.Alike m') (i : SessionId)
    {g : Session → World → Session × World} (hg : ∀ s, Framed (g s)) :
    (m.withSession i g).Alike (m'.withSession i g) := by
  cases hs : m.store.session i with
  | none =>
    rw [m.withSession_none g hs, m'.withSession_none g (h.session ▸ hs)]
    exact h
  | some s =>
    rw [m.withSession_eq g hs, m'.withSession_eq g (h.session ▸ hs)]
    obtain ⟨hs', hw⟩ := (hg s).alike h.world
    rw [hs']
    exact h.set i _ hw

/-- Another seed: `ndL_hash_seed` is read by the hash only. -/
def Env.reseed (e : Env) (seed : U32) : Env :=
  { e with conf := { e.conf with hashSeed := seed } }

/-- An update does not depend on the seed. -/
theorem Mem.Alike.update (h : m.Alike m') (e : Env) (seed : U32) (i : SessionId) :
    (ndSessionUpdate e i m).Alike (ndSessionUpdate (e.reseed seed) i m') := by
  rw [ndSessionUpdate, ndSessionUpdate, h.session]
  cases hs : m.store.session i with
  | none => exact h
  | some s =>
    obtain ⟨ho', hw⟩ := (framed_updateSession e i s).alike h.world
    obtain ⟨o, w, ho⟩ : ∃ o w, updateSession e i s m.world = (o, w) := ⟨_, _, rfl⟩
    obtain ⟨o', w', ho''⟩ : ∃ o w, updateSession e i s m'.world = (o, w) := ⟨_, _, rfl⟩
    have hseed : updateSession (e.reseed seed) i s m'.world = (o', w') := ho''
    rw [ho, ho''] at hw ho'
    obtain rfl : o' = o := ho'
    dsimp only
    rw [ho, hseed]
    cases o' with
    | some s' => exact h.set i s' hw
    | none => exact h.unlink _ _ i s hw

/-! ## Two updates -/

theorem Net.close_ifaces (n : Net) (f : IfaceId) : (n.close f).ifaces =
    if (n.iface f).refcount - 1 > 0 then n.ifaces else n.ifaces.erase f := rfl

theorem Net.close_iface (n : Net) (f : IfaceId) : (n.close f).iface =
    Function.update n.iface f { n.iface f with refcount := (n.iface f).refcount - 1 } := rfl

theorem Net.close_iface_of_ne (n : Net) {f g : IfaceId} (h : g ≠ f) :
    (n.close f).iface g = n.iface g := n.set_iface_of_ne _ h

/-- Two objects can be closed in either order. -/
theorem Net.close_comm (n : Net) (f g : IfaceId) : (n.close f).close g = (n.close g).close f := by
  by_cases h : g = f
  · rw [h]
  · have hifaces : ((n.close f).close g).ifaces = ((n.close g).close f).ifaces := by
      simp only [Net.close_ifaces, n.close_iface_of_ne h, n.close_iface_of_ne (Ne.symm h)]
      split_ifs <;> simp only [List.erase_comm]
    have hiface : ((n.close f).close g).iface = ((n.close g).close f).iface := by
      rw [Net.close_iface, n.close_iface_of_ne h, Net.close_iface (n.close g),
        n.close_iface_of_ne (Ne.symm h), Net.close_iface, Net.close_iface]
      exact (Function.update_comm h ..).symm
    exact Net.mk.injEq .. ▸ ⟨hifaces, hiface, rfl⟩

/-- What is logged when an object is closed does not depend on the other objects. -/
theorem closeEntries_close (e : Env) (n : Net) {f g : IfaceId} (h : g ≠ f) :
    closeEntries e (n.close f) g = closeEntries e n g := by
  rw [closeEntries, n.close_iface_of_ne h, closeEntries]

/-- What an update does to the world: it adds entries, and may close an object. -/
def World.touch (w : World) (e : Env) (new : List Entry) : Option IfaceId → World
  | none => { w with log := new ++ w.log }
  | some f => { net := w.net.close f, log := closeEntries e w.net f ++ (new ++ w.log) }

theorem World.touch_close (w : World) (e : Env) (new : List Entry) (f : IfaceId) :
    ndIfaceClose e f { w with log := new ++ w.log } = w.touch e new (some f) :=
  ndIfaceClose_eq ..

/-- Two such changes may be made in either order, up to the order of the log. -/
theorem World.touch_swap (w : World) (e : Env) (new new' : List Entry) (o o' : Option IfaceId) :
    ((w.touch e new o).touch e new' o').Alike ((w.touch e new' o').touch e new o) := by
  cases o with
  | none =>
    cases o' with
    | none => exact ⟨rfl, List.perm_append_comm_assoc ..⟩
    | some g => exact ⟨rfl, (List.perm_append_comm_assoc ..).trans
        ((List.perm_append_comm_assoc ..).append_left _)⟩
  | some f =>
    cases o' with
    | none => exact ⟨rfl, ((List.perm_append_comm_assoc ..).append_left _).trans
        (List.perm_append_comm_assoc ..)⟩
    | some g =>
      refine ⟨w.net.close_comm g f, ?_⟩
      refine List.perm_iff_count.2 fun en => ?_
      by_cases h : g = f
      · simp only [World.touch, h, List.count_append]
        omega
      · simp only [World.touch, closeEntries_close e _ h, closeEntries_close e _ (Ne.symm h),
          List.count_append]
        omega

/-- What a call does to the world depends only on which interfaces are up, and
    how they are bound. -/
def Touches {α : Type} (e : Env) (w : World) (g : World → α × World) : Prop :=
  ∃ new o, ∀ w', w.SameLinks w' → (g w').2 = w'.touch e new o

/-- A choice that depends on the links is made in the same way. -/
theorem touches_ite {α : Type} {g g' : World → α × World} {c : World → Prop}
    [∀ w, Decidable (c w)] (hc : ∀ w', w.SameLinks w' → (c w' ↔ c w)) (hg : Touches e w g)
    (hg' : Touches e w g') : Touches e w fun w' => if c w' then g w' else g' w' := by
  by_cases hcw : c w
  · obtain ⟨new, o, h⟩ := hg
    refine ⟨new, o, fun w' hw => ?_⟩
    dsimp only
    rw [if_pos ((hc w' hw).2 hcw), h w' hw]
  · obtain ⟨new, o, h⟩ := hg'
    refine ⟨new, o, fun w' hw => ?_⟩
    dsimp only
    rw [if_neg (mt (hc w' hw).1 hcw), h w' hw]

theorem touches_keep {α : Type} (e : Env) (w : World) (a : α) : Touches e w fun w' => (a, w') :=
  ⟨[], none, fun _ _ => rfl⟩

theorem touches_ndIfaceSendNs {α : Type} (e : Env) (i : SessionId) (f : Option IfaceId)
    (tgt : Addr) (w : World) (a : α) : Touches e w fun w' => (a, ndIfaceSendNs e i f tgt w') := by
  refine ⟨[⟨e.now, .ns i f tgt (ndLSendIcmp6 e w f (.ns tgt))⟩], none, fun w' h => ?_⟩
  dsimp only
  rw [ndIfaceSendNs, ndLSendIcmp6_congr h]
  rfl

/-- The end of a session: its route is removed, and its interface closed. -/
theorem touches_delete {α : Type} (e : Env) (i : SessionId) (s : Session) (w : World) (a : α) :
    Touches e w fun w' => (a, (ndLDown e i s w').1.iface.elim (ndLDown e i s w').2 fun f =>
      ndIfaceClose e f (ndLDown e i s w').2) := by
  by_cases hdown : (s.iface.isSome && s.autowired) = true
  · let new : List Entry := [⟨e.now, .removeRoute (some i) s.tgt 128 (e.ruleOf s).table
      (e.kernel.removeRoute s.tgt 128 (e.ruleOf s).table)⟩]
    refine ⟨new, s.iface, fun w' _ => ?_⟩
    simp only [ndLDown, if_pos hdown]
    cases s.iface with
    | none => rfl
    | some f => exact w'.touch_close e new f
  · refine ⟨[], s.iface, fun w' _ => ?_⟩
    simp only [ndLDown, if_neg hdown]
    cases s.iface with
    | none => rfl
    | some f => exact w'.touch_close e [] f

/-- An update of a session, in each of its branches. -/
theorem touches_updateSession (e : Env) (i : SessionId) (s : Session) (w : World) :
    Touches e w fun w' => updateSession e i s w' := by
  have hsame : ∀ c : Prop, ∀ w', w.SameLinks w' → (c ↔ c) := fun _ _ _ => .rfl
  simp only [updateSession]
  cases s.state with
  | incomplete =>
    refine touches_ite (fun w' h => by rw [waiting_congr h]) ?_ ?_
    · exact touches_ite (hsame _) (touches_keep ..) (touches_keep ..)
    · exact touches_ite (hsame _) (touches_keep ..)
        (touches_ite (hsame _) (touches_keep ..) (touches_ndIfaceSendNs ..))
  | invalid => exact touches_ite (hsame _) (touches_keep ..) (touches_delete ..)
  | valid =>
    refine touches_ite (hsame _) (touches_keep ..) (touches_ite (hsame _) ?_ ?_)
    · exact touches_ite (fun w' h => by rw [ownAddr_congr h]) (touches_keep ..) (touches_keep ..)
    · exact touches_ite (hsame _) (touches_ndIfaceSendNs ..) (touches_keep ..)
  | stale =>
    exact touches_ite (hsame _) (touches_keep ..) (touches_ite (hsame _) (touches_keep ..)
      (touches_ite (hsame _) (touches_keep ..) (touches_ndIfaceSendNs ..)))

theorem updateSession_sameLinks (e : Env) (i : SessionId) (s : Session) (w : World) :
    w.SameLinks (updateSession e i s w).2 := (updateCase e i s w).sameLinks

/-- Two updates in either order. -/
theorem updateSession_swap (e : Env) (i j : SessionId) (s t : Session) (w : World) :
    (updateSession e j t (updateSession e i s w).2).2.Alike
      (updateSession e i s (updateSession e j t w).2).2 := by
  obtain ⟨new, o, h⟩ := touches_updateSession e i s w
  obtain ⟨new', o', h'⟩ := touches_updateSession e j t w
  dsimp only at h h'
  rw [h' _ (updateSession_sameLinks e i s w), h _ (updateSession_sameLinks e j t w),
    h w (.refl w), h' w (.refl w)]
  exact w.touch_swap e new new' o o'

theorem ndSessionUpdate_fresh (e : Env) (i : SessionId) (m : Mem) :
    (ndSessionUpdate e i m).store.fresh = m.store.fresh := by
  rw [ndSessionUpdate]
  split
  · rfl
  · split <;> rfl

/-- Two sessions may be updated in either order. -/
theorem ndSessionUpdate_swap (e : Env) (m : Mem) (h : i ≠ j) :
    (ndSessionUpdate e j (ndSessionUpdate e i m)).Alike
      (ndSessionUpdate e i (ndSessionUpdate e j m)) where
  session := by
    funext k
    by_cases hi : k = i
    · subst hi
      rw [ndSessionUpdate_session_self, ndSessionUpdate_session_of_ne e m h,
        ndSessionUpdate_session_of_ne e _ h, ndSessionUpdate_session_self]
      simp only [updateSession_congr (ndSessionUpdate_sameLinks e j m)]
    · rw [ndSessionUpdate_session_of_ne e _ hi]
      by_cases hj : k = j
      · subst hj
        rw [ndSessionUpdate_session_self, ndSessionUpdate_session_self,
          ndSessionUpdate_session_of_ne e m hi]
        simp only [updateSession_congr (ndSessionUpdate_sameLinks e i m)]
      · rw [ndSessionUpdate_session_of_ne e _ hj, ndSessionUpdate_session_of_ne e _ hj,
          ndSessionUpdate_session_of_ne e _ hi]
  fresh := by simp only [ndSessionUpdate_fresh]
  world := by
    rw [ndSessionUpdate_world, ndSessionUpdate_session_of_ne e m (Ne.symm h),
      ndSessionUpdate_world, ndSessionUpdate_world, ndSessionUpdate_session_of_ne e m h,
      ndSessionUpdate_world]
    cases m.store.session i with
    | none => exact .refl _
    | some s =>
      cases m.store.session j with
      | none => exact .refl _
      | some t => exact updateSession_swap e i j s t m.world

/-! ## Two sessions of an interface -/

/-- Two calls which only add to the log, on two sessions. -/
theorem Mem.withSession_swap (m : Mem) {g g' : Session → World → Session × World}
    (hg : ∀ s, Framed (g s)) (hg' : ∀ s, Framed (g' s)) (hnet : ∀ s w, (g s w).2.net = w.net)
    (hnet' : ∀ s w, (g' s w).2.net = w.net) (h : i ≠ j) :
    ((m.withSession i g).withSession j g').Alike ((m.withSession j g').withSession i g) := by
  cases hi : m.store.session i with
  | none =>
    rw [m.withSession_none g hi, Mem.withSession_none g]
    · exact .refl _
    · rw [m.withSession_session_of_ne g' h, hi]
  | some s =>
    cases hj : m.store.session j with
    | none =>
      rw [m.withSession_none g' hj, Mem.withSession_none g']
      · exact .refl _
      · rw [m.withSession_session_of_ne g (Ne.symm h), hj]
    | some t =>
      rw [Mem.withSession_eq (s := t) g', Mem.withSession_eq (s := s) g (m := m.withSession j g'),
        m.withSession_eq g hi, m.withSession_eq g' hj]
      · dsimp only
        rw [(hg' t).eq (g s m.world).2, (hg s).eq (g' t m.world).2, hnet, hnet', (hg s).eq m.world,
          (hg' t).eq m.world]
        refine ⟨Function.update_comm (Ne.symm h) .., rfl, ?_, ?_⟩
        · exact (hnet s ⟨m.world.net, []⟩).trans (hnet' t ⟨m.world.net, []⟩).symm
        · exact List.perm_append_comm_assoc ..
      · rw [m.withSession_session_of_ne g' h, hi]
      · rw [m.withSession_session_of_ne g (Ne.symm h), hj]

/-! ## Loops -/

/-- The loops of two stores with the same sessions visit the same ones. -/
theorem Store.order_perm {e' : Env} {st st' : Store} (h : e.Ok st) (h' : e'.Ok st')
    (hsession : st'.session = st.session) : st.order.Perm st'.order := by
  refine (List.perm_ext_iff_of_nodup (nodup_order h) (nodup_order h')).2 fun i => ?_
  rw [mem_order h, mem_order h', hsession]

/-- The loops visit the sessions which are allocated. -/
theorem Store.order_perm_live {st : Store} (h : e.Ok st) : st.order.Perm st.live := by
  refine (List.perm_ext_iff_of_nodup (nodup_order h) (List.nodup_range.filter _)).2 fun i => ?_
  rw [mem_order h, ← Store.mem_live h.before, Store.live]

/-- A pass may visit the sessions in any order. -/
theorem foldl_update_alike (e : Env) (seed : U32) {l l' : List SessionId} (hl : l.Nodup)
    (hperm : l.Perm l') (h : m.Alike m') : (l.foldl (fun m i => ndSessionUpdate e i m) m).Alike
      (l'.foldl (fun m i => ndSessionUpdate (e.reseed seed) i m) m') :=
  (Reorder.foldl_reorder (R := Mem.Alike) .refl (fun _ _ _ => .trans)
    (fun _ _ i h => h.update e e.conf.hashSeed i)
    (fun m _ _ hij => ndSessionUpdate_swap e m hij) hperm hl m).trans
    (Reorder.foldl_congr (R := Mem.Alike) (fun _ _ i h => h.update e seed i) h l')

/-- So may a pass that tells them of a change of an interface. -/
theorem foldl_ifaceChanged_alike (e : Env) (f : IfaceId) (up : Bool) {l l' : List SessionId}
    (hl : l.Nodup) (hperm : l.Perm l') (h : m.Alike m') :
    (l.foldl (fun m i => m.withSession i (ifaceChanged e f up i)) m).Alike
      (l'.foldl (fun m i => m.withSession i (ifaceChanged e f up i)) m') := by
  have hop : ∀ m m' i, Mem.Alike m m' → Mem.Alike (m.withSession i (ifaceChanged e f up i))
      (m'.withSession i (ifaceChanged e f up i)) := fun _ _ i h =>
    h.withSession i fun s => framed_ifaceChanged e f up i s
  refine (Reorder.foldl_reorder (R := Mem.Alike) .refl (fun _ _ _ => .trans) hop
    (fun m i j hij => ?_) hperm hl m).trans (Reorder.foldl_congr (R := Mem.Alike) hop h l')
  exact m.withSession_swap (fun s => framed_ifaceChanged e f up i s)
    (fun s => framed_ifaceChanged e f up j s) (ifaceChanged_net e f up i)
    (ifaceChanged_net e f up j) hij

end Ndppd
