import Ndppd.Daemon.Packets

/-!
# Interface objects in the moves

What the calls on a session do to the interface objects. Opening an interface
fails and changes nothing, or takes a reference to an object (`Net.Takes`); the
other calls leave the objects as they are, except when a session is deleted,
which closes its interface. All of them keep the objects there are, but for their
counters (`Net.Keeps`): only the passes over the interfaces change those.
-/

namespace Ndppd

open Intrusive

variable {e : Env} {f : IfaceId} {w w' : World} {i : SessionId} {s s' : Session} {a : Action}
  {src : Addr} {srcLl : Option LlAddr}

/-! ## Opening an interface -/

/-- Opening the object `f`: it is shared, or created. -/
def Net.Takes (n : Net) (f : IfaceId) (n' : Net) : Prop :=
  (f ∈ n.ifaces ∧ n' = n.addRef f) ∨
    ∃ g : Iface, g.refcount = 1 ∧ g.proxy = none ∧ f = n.fresh ∧ n' = n.alloc g

/-- Opening an interface fails and changes nothing, or takes a reference. -/
theorem ndIfaceOpenAt_takes (e : Env) (name : IfName) (index : ℕ) (promiscuous : Bool)
    (w : World) : ((ndIfaceOpenAt e name index promiscuous w).1 = none ∧
        (ndIfaceOpenAt e name index promiscuous w).2.net = w.net) ∨
      ∃ f, (ndIfaceOpenAt e name index promiscuous w).1 = some f ∧
        w.net.Takes f (ndIfaceOpenAt e name index promiscuous w).2.net := by
  unfold ndIfaceOpenAt
  split
  · next i hi => exact .inr ⟨i, rfl, .inl ⟨List.mem_of_find?_eq_some hi, rfl⟩⟩
  · split
    · next i hi => exact .inr ⟨i, rfl, .inl ⟨List.mem_of_find?_eq_some hi, rfl⟩⟩
    · split
      · exact .inl ⟨rfl, rfl⟩
      · dsimp only
        split
        · exact .inr ⟨_, rfl, .inr ⟨_, rfl, rfl, rfl, rfl⟩⟩
        · exact .inl ⟨rfl, rfl⟩

/-- The same by name or by index: the lookups that come first fail, or find an object. -/
theorem ndIfaceOpen_takes (e : Env) (name : Option IfName) (index : ℕ) (promiscuous : Bool)
    (w : World) : ((ndIfaceOpen e name index promiscuous w).1 = none ∧
        (ndIfaceOpen e name index promiscuous w).2.net = w.net) ∨
      ∃ f, (ndIfaceOpen e name index promiscuous w).1 = some f ∧
        w.net.Takes f (ndIfaceOpen e name index promiscuous w).2.net := by
  unfold ndIfaceOpen
  split
  · dsimp only
    split_ifs
    · split
      · next i hi => exact .inr ⟨i, rfl, .inl ⟨List.mem_of_find?_eq_some hi, rfl⟩⟩
      · exact .inr ⟨_, rfl, .inr ⟨_, rfl, rfl, rfl, rfl⟩⟩
    · exact .inl ⟨rfl, rfl⟩
    · exact .inl ⟨rfl, rfl⟩
    · exact ndIfaceOpenAt_takes ..
  · split_ifs
    · exact .inl ⟨rfl, rfl⟩
    · split
      · exact .inl ⟨rfl, rfl⟩
      · exact ndIfaceOpenAt_takes ..

/-- What is returned is the object whose reference was taken. -/
theorem takes_of_ndIfaceOpen {name : Option IfName} {index : ℕ} {promiscuous : Bool}
    (h : ndIfaceOpen e name index promiscuous w = (some f, w')) : w.net.Takes f w'.net := by
  rcases ndIfaceOpen_takes e name index promiscuous w with ⟨hn, -⟩ | ⟨g, hg, ht⟩
  · rw [h] at hn
    exact absurd hn (by simp)
  · rw [h] at hg ht
    exact Option.some.inj hg ▸ ht

/-- A rule that follows the routes opens the interface of the route. -/
theorem takes_of_openRoute {rule : Rule} {tgt : Addr}
    (h : openRoute e rule tgt w = (some f, w')) : w.net.Takes f w'.net := by
  unfold openRoute at h
  split at h
  · exact absurd (congrArg Prod.fst h) (by simp)
  · split_ifs at h
    · exact absurd (congrArg Prod.fst h) (by simp)
    · exact takes_of_ndIfaceOpen h

/-- Without a route, or if its interface cannot be opened, nothing has been taken. -/
theorem net_of_openRoute_none {rule : Rule} {tgt : Addr}
    (h : openRoute e rule tgt w = (none, w')) : w'.net = w.net := by
  unfold openRoute at h
  split at h
  · exact congrArg World.net (Prod.ext_iff.1 h).2.symm
  · split_ifs at h
    · exact congrArg World.net (Prod.ext_iff.1 h).2.symm
    · next route _ _ =>
      rcases ndIfaceOpen_takes e none route.oif false w with ⟨-, hn⟩ | ⟨g, hg, -⟩
      · rw [h] at hn
        exact hn
      · rw [h] at hg
        exact absurd hg (by simp)

/-! ## Calls on a session -/

/-- A solicitation that is received touches no interface object before it is handled. -/
theorem Solicits.net_eq {p : ProxyId} {tgt : Addr} {w₀ : World}
    (h : Solicits e w a p src tgt srcLl w₀) : w₀.net = w.net := by
  cases h <;> rfl

theorem ndLUp_net (e : Env) (i : SessionId) (s : Session) (w : World) :
    (ndLUp e i s w).2.net = w.net := by
  unfold ndLUp
  cases s.iface with
  | none => rfl
  | some f =>
    dsimp only
    split_ifs <;> rfl

theorem answerNs_net (e : Env) (i : SessionId) (src : Addr) (srcLl : Option LlAddr) (s : Session)
    (w : World) : (answerNs e i src srcLl s w).net = w.net := by
  unfold answerNs
  cases srcLl with
  | none => rfl
  | some ll =>
    dsimp only
    split_ifs <;> rfl

/-- An advertisement is answered on the interfaces there are. -/
theorem NaCase.net_eq (h : NaCase e i s w s' w') : w'.net = w.net := by
  cases h with
  | refreshed => rfl
  | validated b w' _ hup =>
    rw [← sendSubs_net e i s w, ← ndLUp_net e i { s with subs := [] } (sendSubs e i s w), hup]

/-- It does not change the interface of the session. -/
theorem NaCase.iface (h : NaCase e i s w s' w') : s'.iface = s.iface := by
  cases h <;> rfl

/-- A solicitation may open an interface, if the session has none. -/
theorem NsCase.net_cases (h : NsCase e i src srcLl s w s' w') :
    (s'.iface = s.iface ∧ w'.net = w.net) ∨
      (s.iface = none ∧ ∃ f, s'.iface = some f ∧ w.net.Takes f w'.net) := by
  cases h with
  | answered => exact .inl ⟨rfl, answerNs_net ..⟩
  | dropped => exact .inl ⟨rfl, rfl⟩
  | queued _ _ w' _ _ _ hw =>
    rcases hw with rfl | ho
    · exact .inl ⟨rfl, rfl⟩
    · exact .inl ⟨rfl, net_of_openRoute_none ho⟩
  | resumed _ _ f w' _ hf _ _ _ ho => exact .inr ⟨hf, f, rfl, (takes_of_openRoute ho :)⟩
  | probed => exact .inl ⟨rfl, rfl⟩

/-- A new session has no interface, or takes a reference to it. The interface of
    its rule is in the list. -/
theorem StartCase.net_cases (h : StartCase e i s w s' w') (hs : s.iface = none)
    (hrule : ∀ f, (e.ruleOf s).iface = some f → f ∈ w.net.ifaces) :
    (s'.iface = none ∧ w'.net = w.net) ∨ ∃ f, s'.iface = some f ∧ w.net.Takes f w'.net := by
  cases h with
  | unrouted _ _ ho => exact .inl ⟨hs, net_of_openRoute_none ho⟩
  | routed f w' _ ho => exact .inr ⟨f, rfl, (takes_of_openRoute ho :)⟩
  | own => exact .inl ⟨hs, rfl⟩
  | probed f _ _ hf => exact .inr ⟨f, rfl, .inl ⟨hrule f hf, rfl⟩⟩
  | static => exact .inl ⟨hs, rfl⟩
  | stuck => exact .inl ⟨hs, rfl⟩

/-- A session that is kept keeps its interface. -/
theorem UpdateCase.net_eq (h : UpdateCase e i s w (some s') w') :
    s'.iface = s.iface ∧ w'.net = w.net := by
  cases h <;> exact ⟨rfl, rfl⟩

/-- A session that is deleted closes its interface, if it has one. -/
theorem UpdateCase.net_deleted (h : UpdateCase e i s w none w') :
    (s.iface = none ∧ w'.net = w.net) ∨
      ∃ f w₀, s.iface = some f ∧ w₀.net = w.net ∧ w' = ndIfaceClose e f w₀ := by
  cases h with
  | deleted =>
    cases hf : s.iface with
    | none => exact .inl ⟨rfl, ndLDown_net ..⟩
    | some f => exact .inr ⟨f, _, rfl, ndLDown_net e i s w, rfl⟩

/-! ## Changes of an interface -/

/-- A change of an interface makes a session go up or down. The interface stays open. -/
theorem ifaceChanged_net (e : Env) (f : IfaceId) (up : Bool) (i : SessionId) (s : Session)
    (w : World) : (ifaceChanged e f up i s w).2.net = w.net := by
  unfold ifaceChanged
  split_ifs
  · rfl
  · rfl
  · exact ndLUp_net ..
  · rfl

/-- What the calls on each session keep of the world. (The tables may be anything.) -/
theorem ndSessionIfaceChanged_world {I : World → Prop} (e : Env) (f : IfaceId) (up : Bool)
    (m : Mem) (hI : ∀ i s w, I w → I (ifaceChanged e f up i s w).2) (hm : I m.world) :
    I (ndSessionIfaceChanged e f up m).world := by
  refine List.foldlRecOn (motive := fun m : Mem => I m.world) _ _ hm fun m hm b _ => ?_
  refine foreach_invariant (I := fun m : Mem => I m.world) (fun i m hm => ?_) _ _ hm
  cases hs : m.store.session i with
  | none => rwa [m.withSession_none _ hs]
  | some s =>
    rw [m.withSession_eq _ hs]
    exact hI i s m.world hm

theorem ndSessionIfaceChanged_net (e : Env) (f : IfaceId) (up : Bool) (m : Mem) :
    (ndSessionIfaceChanged e f up m).world.net = m.world.net :=
  ndSessionIfaceChanged_world (I := fun w => w.net = m.world.net) e f up m
    (fun i s w hw => (ifaceChanged_net e f up i s w).trans hw) rfl

/-! ## Objects are kept -/

/-- The objects of `n` are bound as they were, and no object gets a proxy. -/
structure Net.Keeps (n n' : Net) : Prop where
  fresh_le : n.fresh ≤ n'.fresh
  up : ∀ f < n.fresh, (n'.iface f).up = (n.iface f).up
  index : ∀ f < n.fresh, (n'.iface f).index = (n.iface f).index
  proxy : ∀ f p, (n'.iface f).proxy = some p → (n.iface f).proxy = some p

namespace Net.Keeps

variable {n n' n'' : Net}

theorem of_eq (h : n' = n) : n.Keeps n' :=
  h ▸ ⟨le_rfl, fun _ _ => rfl, fun _ _ => rfl, fun _ _ => id⟩

/-- Step after step, the objects keep all but their counters. -/
theorem trans (h : n.Keeps n') (h' : n'.Keeps n'') : n.Keeps n'' where
  fresh_le := h.fresh_le.trans h'.fresh_le
  up f hf := (h'.up f (hf.trans_le h.fresh_le)).trans (h.up f hf)
  index f hf := (h'.index f (hf.trans_le h.fresh_le)).trans (h.index f hf)
  proxy f p hp := h.proxy f p (h'.proxy f p hp)

/-- Only the counter of an object changes. -/
theorem of_refcount {x : ℤ} (hfresh : n'.fresh = n.fresh)
    (h : n'.iface = Function.update n.iface f { n.iface f with refcount := x }) : n.Keeps n' := by
  have hsame : ∀ g, (n'.iface g).up = (n.iface g).up ∧ (n'.iface g).index = (n.iface g).index ∧
      (n'.iface g).proxy = (n.iface g).proxy := by
    intro g
    rw [h]
    by_cases hg : g = f
    · subst hg
      rw [Function.update_self]
      exact ⟨rfl, rfl, rfl⟩
    · rw [Function.update_of_ne hg]
      exact ⟨rfl, rfl, rfl⟩
  exact ⟨hfresh.ge, fun g _ => (hsame g).1, fun g _ => (hsame g).2.1,
    fun g p hp => (hsame g).2.2.symm.trans hp⟩

theorem addRef (n : Net) (f : IfaceId) : n.Keeps (n.addRef f) := of_refcount rfl rfl

/-- Opening an interface changes a counter, or adds an object. -/
theorem takes (h : n.Takes f n') : n.Keeps n' := by
  rcases h with ⟨-, rfl⟩ | ⟨g, -, hg, rfl, rfl⟩
  · exact addRef n f
  · have hold : ∀ f < n.fresh, (n.alloc g).iface f = n.iface f := fun f hf =>
      Function.update_of_ne hf.ne ..
    refine ⟨Nat.le_succ _, fun f hf => by rw [hold f hf], fun f hf => by rw [hold f hf], ?_⟩
    intro f p hp
    change (Function.update n.iface n.fresh g f).proxy = some p at hp
    by_cases hf : f = n.fresh
    · rw [hf, Function.update_self, hg] at hp
      exact absurd hp (by simp)
    · rwa [Function.update_of_ne hf] at hp

/-- Closing an interface changes a counter, or takes the object off the list. -/
theorem close (e : Env) (f : IfaceId) (w : World) : w.net.Keeps (ndIfaceClose e f w).net := by
  unfold ndIfaceClose
  dsimp only
  split_ifs
  · exact of_refcount rfl rfl
  · exact of_refcount rfl rfl
  · exact of_refcount rfl rfl

end Net.Keeps

/-- A solicitation for a session may look for another route, which closes and opens interfaces. -/
theorem NsCase.keeps (h : NsCase e i src srcLl s w s' w') : w.net.Keeps w'.net := by
  rcases h.net_cases with ⟨-, hw⟩ | ⟨-, f, -, ht⟩
  · exact .of_eq hw
  · exact .takes ht

theorem StartCase.keeps (h : StartCase e i s w s' w') : w.net.Keeps w'.net := by
  cases h with
  | unrouted _ _ ho => exact .of_eq (net_of_openRoute_none ho)
  | routed f w' _ ho => exact (Net.Keeps.takes (takes_of_openRoute ho) :)
  | own => exact .of_eq rfl
  | probed f => exact .addRef _ f
  | static => exact .of_eq rfl
  | stuck => exact .of_eq rfl

theorem UpdateCase.keeps {o : Option Session} (h : UpdateCase e i s w o w') :
    w.net.Keeps w'.net := by
  cases o with
  | some s' => exact .of_eq h.net_eq.2
  | none =>
    rcases h.net_deleted with ⟨-, hw⟩ | ⟨f, w₀, -, hw, rfl⟩
    · exact .of_eq hw
    · exact hw ▸ .close e f w₀

/-- No call on a session changes more of the objects than their counters. -/
theorem Change.keeps {o o' : Option Session} (h : Change e i w a o o' w') :
    w.net.Keeps w'.net := by
  cases h with
  | created hsol _ hstart hns =>
    exact ((Net.Keeps.of_eq hsol.net_eq).trans hstart.keeps).trans hns.keeps
  | solicited hsol hns => exact (Net.Keeps.of_eq hsol.net_eq).trans hns.keeps
  | advertised _ _ hna => exact .of_eq hna.net_eq
  | updated hu => exact hu.keeps
  | deleted hu => exact hu.keeps
  | forgotten => exact .of_eq rfl
  | rewired => exact .of_eq (ndLUp_net ..)

end Ndppd
