import Ndppd.Daemon
import Ndppd.Session.Loops

/-!
# Moves

The daemon as its sessions see it. An event is a sequence of *moves*, each of
which changes one session (`Change`) or something outside of the sessions
(`Effect`). Of the store, only the map from identifiers to sessions is left,
and which identifiers are new (`Store.Writes`).

`stepMem_moves` says that the daemon does nothing else. An invariant of its runs
follows from what a move keeps (`Daemon.run_induction`), and a property of the
events so far from what a move adds to it (`Daemon.run_history`).
-/

namespace Ndppd

open Relation

/-- The action gives a solicitation to `nd_proxy_handle_ns`. One that is received
    on an interface is logged first. -/
inductive Solicits (e : Env) (w : World) :
    Action → ProxyId → Addr → Addr → Option LlAddr → World → Prop
  | direct (p : ProxyId) (src tgt : Addr) (srcLl : Option LlAddr) :
      Solicits e w (.ns p src tgt srcLl) p src tgt srcLl w
  | received (f : IfaceId) (src : Addr) (icmp : List U8) (ethSrc : LlAddr) (p : ProxyId)
      (tgt : Addr) (srcLl : Option LlAddr) : (w.net.iface f).proxy = some p →
      parseNs e.conf.byteOrder src icmp ethSrc = some (tgt, srcLl) →
      Solicits e w (.rxNs f src icmp ethSrc) p src tgt srcLl (w.emit e (.rxNs f src tgt srcLl))

/-- The transitions of the session `i`: there is none before it is created, and
    none after it is deleted. -/
inductive Change (e : Env) (i : SessionId) (w : World) :
    Action → Option Session → Option Session → World → Prop
  | created {a : Action} {p : ProxyId} {src tgt : Addr} {srcLl : Option LlAddr} {r : RuleId}
      {s s' : Session} {w₀ w₁ w' : World} : Solicits e w a p src tgt srcLl w₀ →
      e.findRule p tgt = some r → StartCase e i (newSession e r tgt) w₀ s w₁ →
      NsCase e i src srcLl s w₁ s' w' → Change e i w a none (some s') w'
  | solicited {a : Action} {src : Addr} {srcLl : Option LlAddr} {s s' : Session}
      {w₀ w' : World} : Solicits e w a (e.ruleOf s).proxy src s.tgt srcLl w₀ →
      NsCase e i src srcLl s w₀ s' w' → Change e i w a (some s) (some s') w'
  | advertised {f : IfaceId} {icmp : List U8} {s s' : Session} {w' : World} :
      naTarget icmp = some s.tgtR → s.iface = some f → NaCase e i s w s' w' →
      Change e i w (.rxNa f icmp) (some s) (some s') w'
  | updated {s s' : Session} {w' : World} : UpdateCase e i s w (some s') w' →
      Change e i w .tick (some s) (some s') w'
  | deleted {s : Session} {w' : World} : UpdateCase e i s w none w' →
      Change e i w .tick (some s) none w'
  /-- The interface of the session went away. -/
  | forgotten {s : Session} : s.iface.isSome →
      Change e i w .rebind (some s) (some { s with autowired := false }) w
  /-- The interface of the session came back. -/
  | rewired {s : Session} : s.state = .valid →
      Change e i w .rebind (some s) (some (ndLUp e i s w).1) (ndLUp e i s w).2

/-- `f` and `g` are the same object: it may have been bound in between. -/
structure Iface.SameObject (f g : Iface) : Prop where
  name : g.name = f.name
  refcount : g.refcount = f.refcount
  proxy : g.proxy = f.proxy
  promiscuous : g.promiscuous = f.promiscuous

/-- What happens outside of the sessions. -/
inductive Effect (e : Env) (w : World) : Action → World → Prop
  /-- A solicitation which is for no session and creates none. -/
  | ignored {a : Action} {p : ProxyId} {src tgt : Addr} {srcLl : Option LlAddr} {w₀ : World} :
      Solicits e w a p src tgt srcLl w₀ → Effect e w a w₀
  | rebound (f : IfaceId) (g : Iface) : (w.net.iface f).SameObject g →
      Effect e w .rebind { w with net := w.net.set f g }
  | joined (index : ℕ) (promiscuous accepted : Bool) :
      Effect e w .rebind (w.emit e (.addMembership index promiscuous accepted))
  | left (index : ℕ) (promiscuous : Bool) :
      Effect e w .rebind (w.emit e (.dropMembership index promiscuous))
  | purged (route : Route) : route ∈ e.rt.routes → route.owned = true →
      Effect e w .removeOwnedRoutes
        (ndRtRemoveRoute e none route.dst route.pflen route.table w).2

/-- The session `i` becomes `o`, and the other ones stay as they are. -/
structure Store.Writes (e : Env) (st : Store) (i : SessionId) (o : Option Session) (st' : Store) :
    Prop where
  session_eq : st'.session = Function.update st.session i o
  ok : e.Ok st'
  fresh_le : st.fresh ≤ st'.fresh
  lt_fresh : i < st'.fresh
  /-- An identifier is used for one session only. -/
  eq_fresh : st.session i = none → i = st.fresh

/-- A move of the daemon. -/
inductive Move (e : Env) (a : Action) (m : Mem) : Mem → Prop
  | session (i : SessionId) (o o' : Option Session) (st' : Store) (w' : World) :
      m.store.session i = o → Change e i m.world a o o' w' → m.store.Writes e i o' st' →
      Move e a m { store := st', world := w' }
  | world (w' : World) : Effect e m.world a w' → Move e a m { m with world := w' }

variable {e : Env} {a : Action} {m m' : Mem} {i : SessionId} {s s' : Session} {w w' : World}

/-- A move keeps the tables of sessions in order. -/
theorem Move.ok (h : Move e a m m') (hok : e.Ok m.store) : e.Ok m'.store := by
  cases h with
  | session i o o' st' w' _ _ hw => exact hw.ok
  | world w' _ => exact hok

/-- A session is written without a change of its key. -/
theorem Store.Writes.set (h : e.Ok m.store) (hs : m.store.session i = some s)
    (hk : s.SameKey s') : m.store.Writes e i (some s') (m.store.set i s') where
  session_eq := rfl
  ok := h.set hs hk
  fresh_le := le_rfl
  lt_fresh := h.before i s hs
  eq_fresh hn := absurd (hs.symm.trans hn) (by simp)

/-- A session is removed, from all the lists that it is in. -/
theorem Store.Writes.unlink (h : e.Ok m.store) (hs : m.store.session i = some s) :
    m.store.Writes e i none (m.store.unlink e.conf i s) where
  session_eq := rfl
  ok := h.unlink hs
  fresh_le := le_rfl
  lt_fresh := h.before i s hs
  eq_fresh hn := absurd (hs.symm.trans hn) (by simp)

/-! ## Packets -/

/-- A solicitation is one move. -/
theorem move_handleNs (h : e.Ok m.store) {p : ProxyId} {src tgt : Addr} {srcLl : Option LlAddr}
    {w₀ : World} (hsol : Solicits e m.world a p src tgt srcLl w₀) :
    Move e a m (ndProxyHandleNs e p src tgt srcLl { m with world := w₀ }) := by
  have hcase := proxyNsCase e p src tgt srcLl { m with world := w₀ }
  have hok := hcase.ok h
  generalize ndProxyHandleNs e p src tgt srcLl { m with world := w₀ } = m' at hcase hok
  cases hcase with
  | ignored => exact .world w₀ (.ignored hsol)
  | found i s s' w' hs ht hp hns =>
    subst ht hp
    exact .session i _ _ _ w' hs (.solicited hsol hns) (.set h hs hns.sameKey)
  | created r s s' w w' _ hr _ hstart hns =>
    have hnone : m.store.session m.store.fresh = none := by
      rw [Option.eq_none_iff_forall_ne_some]
      exact fun t ht => Nat.lt_irrefl _ (h.before _ t ht)
    refine .session m.store.fresh _ _ _ w' hnone (.created hsol hr hstart hns) ?_
    exact ⟨Function.update_idem .., hok, Nat.le_succ _, Nat.lt_succ_self _, fun _ => rfl⟩

/-- An advertisement is a move of its session, or nothing. -/
theorem move_handleNa (h : e.Ok m.store) (f : IfaceId) (icmp : List U8) :
    ReflGen (Move e (.rxNa f icmp)) m (ndLHandleNa e f icmp m) := by
  unfold ndLHandleNa
  cases htgt : naTarget icmp with
  | none => exact .refl
  | some tgt =>
    dsimp only
    cases hi : ndSessionFindR e tgt f m.store with
    | none => exact .refl
    | some i =>
      obtain ⟨s, hs, hf, ht⟩ := of_ndSessionFindR_eq_some hi
      dsimp only
      rw [m.withSession_eq _ hs]
      have hna := naCase e i s m.world
      exact .single (.session i _ _ _ _ hs (.advertised (by rw [htgt, ht]) hf hna)
        (.set h hs hna.sameKey))

/-! ## Loops -/

/-- An update is a move of its session, or nothing. -/
theorem move_update (h : e.Ok m.store) (i : SessionId) :
    ReflGen (Move e .tick) m (ndSessionUpdate e i m) := by
  rcases ndSessionUpdate_cases e m i with ⟨-, hm⟩ | ⟨s, s', w, hs, hc, hm⟩ | ⟨s, w, hs, hc, hm⟩
  · rw [hm]
  · rw [hm]
    exact .single (.session i _ _ _ w hs (.updated hc) (.set h hs hc.sameKey))
  · rw [hm]
    exact .single (.session i _ _ _ w hs (.deleted hc) (.unlink h hs))

/-- A session is told of a change of an interface by a move. -/
theorem move_ifaceChanged (h : e.Ok m.store) (f : IfaceId) (up : Bool) (i : SessionId) :
    ReflGen (Move e .rebind) m (m.withSession i (ifaceChanged e f up i)) := by
  cases hs : m.store.session i with
  | none => rw [m.withSession_none _ hs]
  | some s =>
    have hw := Store.Writes.set h hs (ifaceChanged_sameKey e f up i s m.world)
    rw [m.withSession_eq _ hs]
    by_cases hf : s.iface = some f
    · cases up with
      | false =>
        rw [show ifaceChanged e f false i s m.world = ({ s with autowired := false }, m.world) by
          simp [ifaceChanged, hf]] at hw ⊢
        exact .single (.session i _ _ _ _ hs (.forgotten (by simp [hf])) hw)
      | true =>
        by_cases hv : s.state = .valid
        · rw [show ifaceChanged e f true i s m.world = ndLUp e i s m.world by
            simp [ifaceChanged, hf, hv]] at hw ⊢
          exact .single (.session i _ _ _ _ hs (.rewired hv) hw)
        · rw [show ifaceChanged e f true i s m.world = (s, m.world) by
            simp [ifaceChanged, hf, hv], m.store.set_self hs]
    · rw [show ifaceChanged e f up i s m.world = (s, m.world) by simp [ifaceChanged, hf],
        m.store.set_self hs]

/-- Some moves lead from `m₀` to `m`. -/
structure Reach (e : Env) (a : Action) (m₀ m : Mem) : Prop where
  moves : ReflTransGen (Move e a) m₀ m
  ok : e.Ok m.store

namespace Reach

variable {m₀ : Mem}

theorem refl (h : e.Ok m.store) : Reach e a m m := ⟨.refl, h⟩

theorem move (h : Reach e a m₀ m) (hm : Move e a m m') : Reach e a m₀ m' :=
  ⟨h.moves.tail hm, hm.ok h.ok⟩

/-- A move, or nothing. -/
theorem moveGen (h : Reach e a m₀ m) (hm : ReflGen (Move e a) m m') : Reach e a m₀ m' := by
  cases hm with
  | refl => exact h
  | single hm => exact h.move hm

/-- The moves of a loop are those of its rounds. -/
theorem foldl {α : Type*} {body : Mem → α → Mem}
    (h : Reach e a m₀ m) (hbody : ∀ m x, Reach e a m₀ m → Reach e a m₀ (body m x)) (l : List α) :
    Reach e a m₀ (l.foldl body m) :=
  List.foldlRecOn (motive := Reach e a m₀) l _ h fun m hm x _ => hbody m x hm

theorem ite {c : Prop} [Decidable c] (h : Reach e a m₀ m)
    (hm : Reach e a m₀ m → Reach e a m₀ m') : Reach e a m₀ (if c then m' else m) := by
  split_ifs
  exacts [hm h, h]

/-- A pass over the sessions, in its order. -/
theorem updateAll (h : Reach e .tick m₀ m) : Reach e .tick m₀ (ndSessionUpdateAll e m) := by
  rw [ndSessionUpdateAll_eq h.ok]
  exact h.foldl (fun m i hm => hm.moveGen (move_update hm.ok i)) _

theorem ifaceChanged (h : Reach e .rebind m₀ m) (f : IfaceId) (up : Bool) :
    Reach e .rebind m₀ (ndSessionIfaceChanged e f up m) := by
  rw [ndSessionIfaceChanged_eq f up h.ok]
  exact h.foldl (fun m i hm => hm.moveGen (move_ifaceChanged hm.ok f up i)) _

/-! ## Interfaces -/

theorem setIface (h : Reach e .rebind m₀ m) (f : IfaceId) {g : Iface}
    (hg : (m.world.net.iface f).SameObject g) : Reach e .rebind m₀ (m.setIface f g) :=
  h.move (.world _ (.rebound f g hg))

/-- The interface is gone: its object goes down, with its sessions. -/
theorem rebindAbsent (h : Reach e .rebind m₀ m) (f : IfaceId) :
    Reach e .rebind m₀ (rebindAbsent e f m) := by
  refine h.ite fun h => ?_
  refine Reach.ifaceChanged (h.setIface f ?_) f false
  exact ⟨rfl, rfl, rfl, rfl⟩

/-- The interface is the same one: it may be up or down by now. -/
theorem rebindSame (h : Reach e .rebind m₀ m) (f : IfaceId) (adminUp : Bool) :
    Reach e .rebind m₀ (rebindSame e f adminUp m) := by
  refine setIface (h.ite fun h => h.ifaceChanged f adminUp) f ?_
  exact ⟨rfl, rfl, rfl, rfl⟩

/-- The interface has appeared, and the object is bound to it. -/
theorem rebindNew (h : Reach e .rebind m₀ m) (f : IfaceId) (cur : ℕ) (adminUp : Bool) :
    Reach e .rebind m₀ (rebindNew e f cur adminUp m) := by
  unfold Ndppd.rebindNew
  dsimp only
  have hjoin := h.move (.world _ (.joined cur (m.world.net.iface f).promiscuous
    (e.kernel.addMembership cur (m.world.net.iface f).promiscuous)))
  split
  · -- The steps of the function, from the last one to the first one.
    refine setIface (ite ?_ fun h => h.ifaceChanged f true) f ⟨rfl, rfl, rfl, rfl⟩
    refine setIface (ite ?_ fun h => h.ifaceChanged f false) f ⟨rfl, rfl, rfl, rfl⟩
    exact hjoin.ite fun h => h.move (.world _ (.left ..))
  · exact hjoin

theorem rebindIface (h : Reach e .rebind m₀ m) (f : IfaceId) :
    Reach e .rebind m₀ (rebindIface e m f) := by
  unfold Ndppd.rebindIface
  dsimp only
  split_ifs
  · exact h.rebindAbsent f
  · exact h
  · refine rebindSame (h.setIface f ?_) f _
    exact ⟨rfl, rfl, rfl, rfl⟩
  · refine rebindNew (h.setIface f ?_) f _ _
    exact ⟨rfl, rfl, rfl, rfl⟩

/-- A pass over the interfaces, object by object. -/
theorem rebindAll (h : Reach e .rebind m₀ m) : Reach e .rebind m₀ (ndIfaceRebindAll e m) :=
  h.foldl (fun _ f hm => hm.rebindIface f) _

theorem removeOwnedRoutes (h : Reach e .removeOwnedRoutes m₀ m) :
    Reach e .removeOwnedRoutes m₀ { m with world := ndRtRemoveOwnedRoutes e m.world } := by
  -- The loop, on any part of the list of routes.
  have hloop : ∀ l ⊆ e.rt.routes, Reach e .removeOwnedRoutes m₀ { m with
      world := l.foldl (fun w route => if route.owned then
        (ndRtRemoveRoute e none route.dst route.pflen route.table w).2 else w) m.world } := by
    intro l
    induction l using List.reverseRecOn with
    | nil => exact fun _ => h
    | append_singleton l route ih =>
      intro hl
      have hr := ih fun r hr => hl (List.mem_append_left _ hr)
      rw [List.foldl_concat]
      split
      · next ho =>
        exact hr.move (.world _ (.purged route (hl (by simp)) ho))
      · exact hr
  exact hloop _ (List.Subset.refl _)

end Reach

/-! ## Events -/

/-- The actions that are loops. -/
def Action.IsLoop : Action → Prop
  | .tick | .rebind | .removeOwnedRoutes => True
  | _ => False

/-- An action that is not a loop is at most one move. -/
theorem stepMem_move (h : e.Ok m.store) (ha : ¬a.IsLoop) :
    ReflGen (Move e a) m (Daemon.stepMem e a m) := by
  cases a with
  | ns p src tgt srcLl => exact .single (move_handleNs h (.direct p src tgt srcLl))
  | rxNs f src icmp ethSrc =>
    rw [Daemon.stepMem, ndLHandleNs]
    cases hp : (m.world.net.iface f).proxy with
    | none => exact .refl
    | some p =>
      dsimp only
      cases ht : parseNs e.conf.byteOrder src icmp ethSrc with
      | none => exact .refl
      | some x => exact .single (move_handleNs h (.received f src icmp ethSrc p x.1 x.2 hp ht))
  | rxNa f icmp => exact move_handleNa h f icmp
  | tick => exact absurd trivial ha
  | rebind => exact absurd trivial ha
  | removeOwnedRoutes => exact absurd trivial ha
  | newRoute _ => exact .refl
  | deleteRoute _ => exact .refl
  | newAddr _ => exact .refl
  | deleteAddr _ => exact .refl

/-- An action is a sequence of moves. -/
theorem stepMem_moves (h : e.Ok m.store) : Reach e a m (Daemon.stepMem e a m) := by
  by_cases ha : a.IsLoop
  · cases a with
    | tick => exact (Reach.refl h).updateAll
    | rebind => exact (Reach.refl h).rebindAll
    | removeOwnedRoutes => exact (Reach.refl h).removeOwnedRoutes
    | _ => exact absurd ha id
  · exact (Reach.refl h).moveGen (stepMem_move h ha)

/-- The interfaces are up or waiting, and bound, as they were. -/
def World.SameLinks (w w' : World) : Prop :=
  ∀ f, (w'.net.iface f).up = (w.net.iface f).up ∧ (w'.net.iface f).index = (w.net.iface f).index

theorem World.SameLinks.refl (w : World) : w.SameLinks w := fun _ => ⟨rfl, rfl⟩

theorem World.SameLinks.trans {w'' : World} (h : w.SameLinks w') (h' : w'.SameLinks w'') :
    w.SameLinks w'' :=
  fun f => ⟨(h' f).1.trans (h f).1, (h' f).2.trans (h f).2⟩

theorem World.SameLinks.of_net_eq (h : w'.net = w.net) : w.SameLinks w' := by
  rw [SameLinks, h]
  exact fun f => ⟨rfl, rfl⟩

/-- What is sent depends on the links only. -/
theorem ndLSendIcmp6_congr (h : w.SameLinks w') (f : Option IfaceId) (msg : Outgoing) :
    ndLSendIcmp6 e w' f msg = ndLSendIcmp6 e w f msg := by
  cases f with
  | none => rfl
  | some f => rw [ndLSendIcmp6, ndLSendIcmp6, Option.any_some, Option.any_some, (h f).1, (h f).2]

theorem ndLDown_net (e : Env) (i : SessionId) (s : Session) (w : World) :
    (ndLDown e i s w).2.net = w.net := by
  unfold ndLDown
  split_ifs <;> rfl

/-- An object that is closed keeps its binding. -/
theorem ndIfaceClose_sameLinks (e : Env) (f : IfaceId) (w : World) :
    w.SameLinks (ndIfaceClose e f w) := by
  intro g
  have hg : (ndIfaceClose e f w).net.iface g =
      Function.update w.net.iface f { w.net.iface f with refcount := (w.net.iface f).refcount - 1 }
        g := by
    unfold ndIfaceClose
    dsimp only
    split_ifs <;> rfl
  by_cases hgf : g = f
  · subst hgf
    rw [hg, Function.update_self]
    exact ⟨rfl, rfl⟩
  · rw [hg, Function.update_of_ne hgf]
    exact ⟨rfl, rfl⟩

/-- An update does not touch the links. -/
theorem UpdateCase.sameLinks {o : Option Session} (h : UpdateCase e i s w o w') :
    w.SameLinks w' := by
  cases h with
  | deleted =>
    have hdown := World.SameLinks.of_net_eq (ndLDown_net e i s w)
    cases s.iface with
    | none => exact hdown
    | some f => exact hdown.trans (ndIfaceClose_sameLinks e f _)
  | _ => exact .refl w

/-- The interfaces change only when they are bound again, or opened. -/
theorem Move.sameLinks (h : Move e a m m') (ha : a.IsLoop) (hr : a ≠ .rebind) :
    m.world.SameLinks m'.world := by
  cases h with
  | session i o o' st' w' _ hc _ =>
    cases hc with
    | created hsol => cases hsol <;> exact absurd ha id
    | solicited hsol => cases hsol <;> exact absurd ha id
    | advertised => exact absurd ha id
    | updated hu => exact hu.sameLinks
    | deleted hu => exact hu.sameLinks
    | forgotten => exact absurd rfl hr
    | rewired => exact absurd rfl hr
  | world w' he =>
    cases he with
    | ignored hsol => cases hsol <;> exact absurd ha id
    | purged => exact .refl _
    | _ => exact absurd rfl hr

/-- What holds before an action and is kept by its moves holds after it. Until
    a move, the interfaces do not change, except in a pass over them. -/
theorem stepMem_induction {Q : Mem → Prop} (h : e.Ok m.store) (h₀ : Q m)
    (hmove : ∀ m₁ m₂, e.Ok m₁.store → (a ≠ .rebind → m.world.SameLinks m₁.world) →
      Move e a m₁ m₂ → Q m₁ → Q m₂) : Q (Daemon.stepMem e a m) := by
  by_cases ha : a.IsLoop
  · have hall : ∀ m₁, ReflTransGen (Move e a) m m₁ →
        e.Ok m₁.store ∧ (a ≠ .rebind → m.world.SameLinks m₁.world) ∧ Q m₁ := by
      intro m₁ hm₁
      induction hm₁ with
      | refl => exact ⟨h, fun _ => .refl _, h₀⟩
      | tail _ hm ih =>
        obtain ⟨hok, hlinks, hQ⟩ := ih
        exact ⟨hm.ok hok, fun hr => (hlinks hr).trans (hm.sameLinks ha hr),
          hmove _ _ hok hlinks hm hQ⟩
    exact (hall _ (stepMem_moves h).moves).2.2
  · have hm := stepMem_move h ha
    generalize Daemon.stepMem e a m = m' at hm
    cases hm with
    | refl => exact h₀
    | single hm => exact hmove _ _ h (fun _ => .refl _) hm h₀

end Ndppd
