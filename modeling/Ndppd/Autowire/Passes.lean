import Ndppd.Autowire.Tracks

/-!
# Passes over the interfaces

The autowired sessions in a pass of `nd_iface_rebind_all`. When the pass sees that
an interface has lost its routes (`Kernel.Notices`), its sessions are not autowired
any more, or their routes are asked for again: a session is left alone only if the
pass has not seen this (`rebindAll_tracks`).

Before an object gets another index, no session is autowired on it
(`Tracks.cleared`).
-/

namespace Ndppd

variable {e : Env} {c : Config} {i : SessionId} {s s' : Session} {w w' : World} {a : Action}
  {m₀ m m' : Mem} {new : List Entry} {K K' : IfaceId → Prop} {f : IfaceId}

/-- No session is autowired on the interface `f`. -/
def Unwired (m : Mem) (f : IfaceId) : Prop :=
  ∀ i s, m.store.session i = some s → s.iface = some f → s.autowired = false

/-- What happens to a session when the interface `f` goes away. -/
def Session.forget (f : IfaceId) (s : Session) : Session :=
  if s.iface = some f then { s with autowired := false } else s

theorem Session.forget_iface (f : IfaceId) (s : Session) : (s.forget f).iface = s.iface := by
  unfold Session.forget
  split_ifs <;> rfl

theorem ifaceChanged_false (e : Env) (f : IfaceId) (i : SessionId) (s : Session) (w : World) :
    ifaceChanged e f false i s w = (s.forget f, w) := by
  by_cases hf : s.iface = some f
  · simp [ifaceChanged, Session.forget, hf]
  · simp [ifaceChanged, Session.forget, hf]

theorem withSession_forget (e : Env) (f : IfaceId) (j : SessionId) (m : Mem) :
    (m.withSession j (ifaceChanged e f false j)).world = m.world ∧
      (m.withSession j (ifaceChanged e f false j)).store.session j =
        (m.store.session j).map (Session.forget f) := by
  cases hs : m.store.session j with
  | none =>
    rw [m.withSession_none _ hs, hs]
    exact ⟨rfl, rfl⟩
  | some s =>
    rw [m.withSession_eq _ hs, ifaceChanged_false]
    exact ⟨rfl, m.store.set_session_self ..⟩

/-- What a change of an interface does to a session depends on the interfaces only. -/
theorem ifaceChanged_congr (up : Bool) (h : w'.net = w.net) :
    (ifaceChanged e f up i s w').1 = (ifaceChanged e f up i s w).1 := by
  have hup : (ndLUp e i s w').1 = (ndLUp e i s w).1 := by
    unfold ndLUp
    rw [h]
    cases s.iface with
    | none => rfl
    | some g =>
      dsimp only
      split_ifs <;> rfl
  unfold ifaceChanged
  split_ifs
  · rfl
  · rfl
  · exact hup
  · rfl

/-- A change of an interface is seen by each session once. -/
theorem ndSessionIfaceChanged_session (h : e.Ok m.store) (f : IfaceId) (up : Bool)
    (i : SessionId) : (ndSessionIfaceChanged e f up m).store.session i =
      (m.store.session i).map fun s => (ifaceChanged e f up i s m.world).1 := by
  -- Over a part of the list, without repetitions.
  have hloop : ∀ (l : List SessionId) (m' : Mem), l.Nodup → m'.world.net = m.world.net → ∀ i,
      (l.foldl (fun m i => m.withSession i (ifaceChanged e f up i)) m').store.session i =
        if i ∈ l then (m'.store.session i).map fun s => (ifaceChanged e f up i s m.world).1
        else m'.store.session i := by
    intro l
    induction l with
    | nil => exact fun m' _ _ i => by simp
    | cons j l ih =>
      intro m' hl hnet i
      obtain ⟨hj, hl⟩ := List.nodup_cons.1 hl
      obtain ⟨hnet', hself⟩ : (m'.withSession j (ifaceChanged e f up j)).world.net =
          m.world.net ∧ (m'.withSession j (ifaceChanged e f up j)).store.session j =
            (m'.store.session j).map fun s => (ifaceChanged e f up j s m.world).1 := by
        cases hs : m'.store.session j with
        | none =>
          rw [m'.withSession_none _ hs, hs]
          exact ⟨hnet, rfl⟩
        | some s =>
          rw [m'.withSession_eq _ hs]
          refine ⟨(ifaceChanged_net ..).trans hnet, ?_⟩
          rw [m'.store.set_session_self, ifaceChanged_congr up hnet]
          rfl
      rw [List.foldl_cons, ih _ hl hnet' i]
      by_cases hi : i = j
      · subst hi
        rw [if_neg hj, if_pos List.mem_cons_self, hself]
      · simp only [m'.withSession_session_of_ne _ hi, List.mem_cons, hi, false_or]
  rw [ndSessionIfaceChanged_eq f up h, hloop _ m (nodup_order h) rfl i]
  split_ifs with hi
  · rfl
  · rw [mem_order h, Bool.not_eq_true, Option.isSome_eq_false_iff, Option.isNone_iff_eq_none] at hi
    rw [hi]
    rfl

/-- When the interface `f` goes away, its sessions are not autowired any more. -/
theorem ndSessionIfaceChanged_false (h : e.Ok m.store) (f : IfaceId) :
    (ndSessionIfaceChanged e f false m).world = m.world ∧ ∀ i,
      (ndSessionIfaceChanged e f false m).store.session i =
        (m.store.session i).map (Session.forget f) := by
  refine ⟨ndSessionIfaceChanged_world (I := fun w => w = m.world) e f false m
    (fun i s w hw => ?_) rfl, fun i => ?_⟩
  · rw [ifaceChanged_false]
    exact hw
  · rw [ndSessionIfaceChanged_session h f false i]
    exact congrArg (fun g => Option.map g _) (funext fun s => by rw [ifaceChanged_false])

/-! ### The steps of `rebindNew` -/

/-- The membership on the new index. -/
def joinAct (e : Env) (f : IfaceId) (cur : ℕ) (m : Mem) : Act :=
  .addMembership cur (m.world.net.iface f).promiscuous
    (e.kernel.addMembership cur (m.world.net.iface f).promiscuous)

/-- The membership moves to the new index. -/
def leaveOld (e : Env) (f : IfaceId) (cur : ℕ) (m : Mem) : Mem :=
  let g := m.world.net.iface f
  let m := m.emit e (joinAct e f cur m)
  if g.index ≠ 0 ∧ g.index ≠ cur then m.emit e (.dropMembership g.index g.promiscuous) else m

/-- The object gets its new index. -/
def bindNew (e : Env) (f : IfaceId) (cur : ℕ) (adminUp : Bool) (m : Mem) : Mem :=
  let m := m.setIface f { m.world.net.iface f with index := cur, up := true }
  let m := if adminUp then ndSessionIfaceChanged e f true m else m
  m.setIface f { m.world.net.iface f with adminUp := adminUp }

theorem rebindNew_refused {cur : ℕ} {adminUp : Bool}
    (h : e.kernel.addMembership cur (m.world.net.iface f).promiscuous = false) :
    rebindNew e f cur adminUp m = m.emit e (joinAct e f cur m) := by
  have hne : ¬e.kernel.addMembership cur (m.world.net.iface f).promiscuous = true := by simp [h]
  exact if_neg hne

theorem rebindNew_accepted {cur : ℕ} {adminUp : Bool}
    (h : e.kernel.addMembership cur (m.world.net.iface f).promiscuous = true) :
    rebindNew e f cur adminUp m = bindNew e f cur adminUp
      (if (m.world.net.iface f).up then ndSessionIfaceChanged e f false (leaveOld e f cur m)
        else leaveOld e f cur m) :=
  if_pos h

namespace Tracks

/-- A session is autowired on an interface which is up. -/
theorem unwired (h : Tracks c m₀ m new K) (hf : (m.world.net.iface f).up = false) :
    Unwired m f := by
  intro i s hs hsf
  by_contra hauto
  obtain ⟨g, hg, hup, -⟩ := h.wired i s hs (Bool.not_eq_false _ ▸ hauto)
  obtain rfl : g = f := Option.some.inj (hg.symm.trans hsf)
  exact absurd (hup.symm.trans hf) (by simp)

theorem weaken (h : Tracks c m₀ m new K) (hK : ∀ f, K f → K' f ∨ Unwired m f) :
    Tracks c m₀ m new K' := by
  refine ⟨h.requests, fun i s hs hauto => ?_⟩
  obtain ⟨f, hf, hup, hcase⟩ := h.wired i s hs hauto
  refine ⟨f, hf, hup, hcase.imp_left fun ⟨hKf, hkept⟩ => ⟨?_, hkept⟩⟩
  exact (hK f hKf).resolve_right fun hun => absurd (hauto.symm.trans (hun i s hs hf)) (by simp)

/-- An interface on which no session is autowired does not count. -/
theorem except (h : Tracks c m₀ m new K) (hun : Unwired m f) :
    Tracks c m₀ m new fun g => K g ∧ g ≠ f := by
  refine h.weaken fun g hK => ?_
  by_cases hg : g = f
  · rw [hg]
    exact .inr hun
  · exact .inl ⟨hK, hg⟩

theorem of_except {P : Prop} (h : Tracks c m₀ m new fun g => K g ∧ g ≠ f) :
    Tracks c m₀ m new fun g => K g ∧ (g = f → P) :=
  h.weaken fun _ hg => .inl ⟨hg.1, fun hgf => absurd hgf hg.2⟩

/-- The world changes, but for the interfaces of the autowired sessions. -/
theorem world (h : Tracks c m₀ m new K) (hreq : w'.requests = m.world.requests)
    (hnet : ∀ f, ¬Unwired m f → (w'.net.iface f).up = (m.world.net.iface f).up ∧
      (w'.net.iface f).index = (m.world.net.iface f).index) :
    Tracks c m₀ { m with world := w' } new K := by
  refine h.step [] hreq (fun _ => id) fun i s hs hauto => .inl ?_
  obtain ⟨f, hf, -⟩ := h.wired i s hs hauto
  have hwired : ¬Unwired m f := fun hun => absurd (hauto.symm.trans (hun i s hs hf)) (by simp)
  exact ⟨s, f, hs, hauto, hf, hf, .refl s, hnet f hwired⟩

/-- An object is written: one on which no session is autowired, or without its
    index and whether it is up. -/
theorem setIface (h : Tracks c m₀ m new K) (f : IfaceId) {g : Iface}
    (hg : Unwired m f ∨ g.up = (m.world.net.iface f).up ∧ g.index = (m.world.net.iface f).index) :
    Tracks c m₀ (m.setIface f g) new K := by
  refine h.world rfl fun f' hf' => ?_
  by_cases hff : f' = f
  · subst hff
    dsimp only
    rw [Net.set_iface_self]
    exact hg.resolve_left hf'
  · dsimp only
    rw [m.world.net.set_iface_of_ne g hff]
    exact ⟨rfl, rfl⟩

theorem emit (h : Tracks c m₀ m new K) {x : Act} (hx : x.isRequest = false) :
    Tracks c m₀ (m.emit e x) new K :=
  h.world (emit_requests m.world e hx) fun _ _ => ⟨rfl, rfl⟩

/-- The interface `f` goes away; it may have been written just before. -/
theorem forget (h : Tracks c m₀ m new K) (m₁ : Mem) (hok : e.Ok m₁.store)
    (hstore : m₁.store = m.store) (hreq : m₁.world.requests = m.world.requests)
    (hnet : ∀ g, g ≠ f → m₁.world.net.iface g = m.world.net.iface g) :
    Tracks c m₀ (ndSessionIfaceChanged e f false m₁) new (fun g => K g ∧ g ≠ f) ∧
      Unwired (ndSessionIfaceChanged e f false m₁) f := by
  obtain ⟨hworld, hsess⟩ := ndSessionIfaceChanged_false hok f
  rw [hstore] at hsess
  have hun : Unwired (ndSessionIfaceChanged e f false m₁) f := by
    intro i s hs hf
    rw [hsess, Option.map_eq_some_iff] at hs
    obtain ⟨s₁, -, rfl⟩ := hs
    rw [Session.forget_iface] at hf
    rw [Session.forget, if_pos hf]
  have hreq' : (ndSessionIfaceChanged e f false m₁).world.requests = m.world.requests := by
    rw [hworld]
    exact hreq
  refine ⟨except ?_ hun, hun⟩
  refine h.step [] hreq' (fun _ => id) fun i s hs hauto => .inl ?_
  rw [hsess, Option.map_eq_some_iff] at hs
  obtain ⟨s₁, hs₁, rfl⟩ := hs
  have hf : s₁.iface ≠ some f := by
    intro hf
    rw [Session.forget, if_pos hf] at hauto
    exact absurd hauto (by simp)
  have hkeep : s₁.forget f = s₁ := if_neg hf
  rw [hkeep] at hauto ⊢
  obtain ⟨g, hg, -⟩ := h.wired i s₁ hs₁ hauto
  have hgf : g ≠ f := fun hgf => hf (hgf ▸ hg)
  refine ⟨s₁, g, hs₁, hauto, hg, hg, .refl s₁, ?_⟩
  rw [hworld, hnet g hgf]
  exact ⟨rfl, rfl⟩

/-- The interface `f` comes back. -/
theorem rewire (h : Tracks e.cfg m₀ m new K) (hok : e.Ok m.store) (f : IfaceId) :
    ∃ new', Tracks e.cfg m₀ (ndSessionIfaceChanged e f true m) new' K := by
  rw [ndSessionIfaceChanged_eq f true hok]
  refine (List.foldlRecOn (motive := fun m' : Mem =>
    e.Ok m'.store ∧ ∃ new', Tracks e.cfg m₀ m' new' K) _ _ ⟨hok, new, h⟩ ?_).2
  rintro m' ⟨hok', new', h'⟩ i -
  refine ⟨Mem.withSession_ok hok' fun s w => ifaceChanged_sameKey e f true i s w, ?_⟩
  cases hs : m'.store.session i with
  | none =>
    rw [m'.withSession_none _ hs]
    exact ⟨new', h'⟩
  | some s =>
    rw [m'.withSession_eq _ hs]
    by_cases hcond : s.iface = some f ∧ s.state = .valid
    · have hup : ifaceChanged e f true i s m'.world = ndLUp e i s m'.world := by
        simp [ifaceChanged, hcond.1, hcond.2]
      rw [hup]
      have hkey : s.SameKey (ndLUp e i s m'.world).1 := by
        obtain ⟨b, hb⟩ := ndLUp_fst e i s m'.world
        rw [hb]
        exact ⟨rfl, rfl, rfl⟩
      refine h'.change hs (.rewired hcond.2) (.set hok' hs hkey) fun j s' f' _ _ => ?_
      rw [ndLUp_net]
      exact ⟨rfl, rfl⟩
    · have hnone : ifaceChanged e f true i s m'.world = (s, m'.world) := by
        rw [not_and_or] at hcond
        rcases hcond with hf | hv
        · simp [ifaceChanged, hf]
        · simp [ifaceChanged, hv]
      rw [hnone, m'.store.set_self hs]
      exact ⟨new', h'⟩

/-- An interface that is absent. -/
theorem rebindAbsent (h : Tracks c m₀ m new K) (hok : e.Ok m.store) (f : IfaceId) :
    Tracks c m₀ (rebindAbsent e f m) new fun g => K g ∧ g ≠ f := by
  unfold Ndppd.rebindAbsent
  dsimp only
  split_ifs with hup
  · exact And.left (h.forget (m.setIface f _) hok rfl rfl
      fun g hg => m.world.net.set_iface_of_ne _ hg)
  · exact h.except (h.unwired (Bool.not_eq_true _ ▸ hup))

/-- An interface with the same index. -/
theorem rebindSame (h : Tracks e.cfg m₀ m new K) (hok : e.Ok m.store) (f : IfaceId)
    (adminUp : Bool) : ∃ new', Tracks e.cfg m₀ (rebindSame e f adminUp m) new' fun g =>
      K g ∧ (g = f → ¬(adminUp = false ∧ (m.world.net.iface f).adminUp = true)) := by
  have hset : ∀ {m' : Mem} {new' : List Entry} {K' : IfaceId → Prop},
      Tracks e.cfg m₀ m' new' K' → Tracks e.cfg m₀ (m'.setIface f
        { m'.world.net.iface f with adminUp := adminUp }) new' K' :=
    fun h' => h'.setIface f (.inr ⟨rfl, rfl⟩)
  unfold Ndppd.rebindSame
  dsimp only
  by_cases hdown : adminUp = false ∧ (m.world.net.iface f).adminUp = true
  · obtain ⟨rfl, hadmin⟩ := hdown
    rw [if_pos (by simp [hadmin])]
    have hforget := (h.forget (f := f) m hok rfl rfl fun _ _ => rfl).1
    exact ⟨new, hset hforget.of_except⟩
  · have hK : ∀ {m' : Mem} {new' : List Entry}, Tracks e.cfg m₀ m' new' K →
        Tracks e.cfg m₀ m' new' fun g =>
          K g ∧ (g = f → ¬(adminUp = false ∧ (m.world.net.iface f).adminUp = true)) :=
      fun h' => h'.weaken fun g hg => .inl ⟨hg, fun _ => hdown⟩
    split_ifs with hne
    · -- The flag changes, and the interface is not down: it is up.
      have hup : adminUp = true := by
        cases adminUp with
        | true => rfl
        | false => exact absurd ⟨rfl, by simpa using hne⟩ hdown
      rw [hup] at hset hK ⊢
      obtain ⟨new', h'⟩ := h.rewire hok f
      exact ⟨new', hset (hK h')⟩
    · exact ⟨new, hset (hK h)⟩

/-- Before an interface gets another index, no session is autowired on it. -/
theorem cleared (h : Tracks c m₀ m new K) (hok : e.Ok m.store) {up : Bool}
    (hup : (m.world.net.iface f).up = up) :
    let m' := if up then ndSessionIfaceChanged e f false m else m
    e.Ok m'.store ∧ Tracks c m₀ m' new (fun g => K g ∧ g ≠ f) ∧ Unwired m' f := by
  cases up with
  | true => exact ⟨ndSessionIfaceChanged_ok f false hok, h.forget m hok rfl rfl fun _ _ => rfl⟩
  | false =>
    exact ⟨hok, h.except (h.unwired hup), h.unwired hup⟩

theorem bindNew (h : Tracks e.cfg m₀ m new K) (hok : e.Ok m.store) (hun : Unwired m f) (cur : ℕ)
    (adminUp : Bool) : ∃ new', Tracks e.cfg m₀ (bindNew e f cur adminUp m) new' K := by
  have hbind : Tracks e.cfg m₀ (m.setIface f
      { m.world.net.iface f with index := cur, up := true }) new K := h.setIface f (.inl hun)
  obtain ⟨new', h'⟩ : ∃ new', Tracks e.cfg m₀ (if adminUp then ndSessionIfaceChanged e f true
      (m.setIface f { m.world.net.iface f with index := cur, up := true }) else
      m.setIface f { m.world.net.iface f with index := cur, up := true }) new' K := by
    split_ifs
    · exact hbind.rewire hok f
    · exact ⟨new, hbind⟩
  exact ⟨new', h'.setIface f (.inr ⟨rfl, rfl⟩)⟩

/-- An interface with a new index. -/
theorem rebindNew (h : Tracks e.cfg m₀ m new K) (hok : e.Ok m.store) (f : IfaceId) (cur : ℕ)
    (adminUp : Bool) : ∃ new', Tracks e.cfg m₀ (rebindNew e f cur adminUp m) new' fun g => K g ∧
      (g = f → e.kernel.addMembership cur (m.world.net.iface f).promiscuous = false) := by
  have hjoin := h.emit (e := e) (x := joinAct e f cur m) rfl
  cases hacc : e.kernel.addMembership cur (m.world.net.iface f).promiscuous with
  | false =>
    refine ⟨new, ?_⟩
    rw [rebindNew_refused hacc]
    exact hjoin.weaken fun g hK => .inl ⟨hK, fun _ => rfl⟩
  | true =>
    have hleave : Tracks e.cfg m₀ (leaveOld e f cur m) new K := by
      unfold leaveOld
      dsimp only
      split_ifs
      · exact hjoin.emit rfl
      · exact hjoin
    obtain ⟨hokₗ, hupₗ⟩ : e.Ok (leaveOld e f cur m).store ∧
        ((leaveOld e f cur m).world.net.iface f).up = (m.world.net.iface f).up := by
      unfold leaveOld
      dsimp only
      split_ifs
      · exact ⟨hok, rfl⟩
      · exact ⟨hok, rfl⟩
    obtain ⟨hok₂, h₂, hun⟩ := hleave.cleared hokₗ hupₗ
    rw [rebindNew_accepted hacc]
    exact h₂.of_except.bindNew hok₂ hun cur adminUp

/-- One object of a pass: its sessions are left alone only if the pass has not seen
    that it lost its routes. -/
theorem rebindIface (h : Tracks e.cfg m₀ m new K) (hok : e.Ok m.store) (f : IfaceId) :
    ∃ new', Tracks e.cfg m₀ (rebindIface e m f) new' fun g =>
      K g ∧ (g = f → ¬e.kernel.Notices (m.world.net.iface f)) := by
  obtain ⟨cur, errno, hcur⟩ : ∃ cur errno,
    e.kernel.ifNametoindex (m.world.net.iface f).name = (cur, errno) := ⟨_, _, rfl⟩
  -- The address is written first.
  let g₁ : Iface := { m.world.net.iface f with
    lladdr := (e.kernel.hwaddr (m.world.net.iface f).name).getD (m.world.net.iface f).lladdr }
  have hself : (m.setIface f g₁).world.net.iface f = g₁ := m.world.net.set_iface_self f g₁
  have h₁ : ∀ {K' : IfaceId → Prop}, Tracks e.cfg m₀ m new K' →
      Tracks e.cfg m₀ (m.setIface f g₁) new K' := fun h' => h'.setIface f (.inr ⟨rfl, rfl⟩)
  unfold Ndppd.rebindIface Kernel.Notices
  simp only [hcur]
  split_ifs with h0 herr hsame hindex hindex
  · exact ⟨new, (h.rebindAbsent hok f).of_except⟩
  · exact ⟨new, h.weaken fun g hg => .inl ⟨hg, fun _ => herr⟩⟩
  · have h₂ := (h₁ h).rebindSame hok f ((e.kernel.flags (m.world.net.iface f).name).getD false)
    rw [hself] at h₂
    exact h₂
  · exact absurd hsame.1 hindex
  · -- The interface was waiting: no session is autowired on it.
    have hdown : (m.world.net.iface f).up = false :=
      Bool.eq_false_iff.2 fun hup => hsame ⟨hindex, hup⟩
    obtain ⟨new', h₂⟩ := (h₁ (h.except (h.unwired hdown))).rebindNew hok f cur
      ((e.kernel.flags (m.world.net.iface f).name).getD false)
    exact ⟨new', h₂.weaken fun g hg => .inl ⟨hg.1.1, fun hgf => absurd hgf hg.1.2⟩⟩
  · obtain ⟨new', h₂⟩ := (h₁ h).rebindNew hok f cur
      ((e.kernel.flags (m.world.net.iface f).name).getD false)
    rw [hself] at h₂
    refine ⟨new', h₂.weaken fun g hg => .inl ⟨hg.1, fun hgf hmem => ?_⟩⟩
    exact absurd (hmem.symm.trans (hg.2 hgf)) (by simp)

end Tracks

/-! ### Other objects -/

/-- What the steps of a pass on the object `f` keep is kept by the pass on it. -/
theorem rebindIface_rule {R : Mem → Prop} (hset : ∀ m g, R m → R (m.setIface f g))
    (hemit : ∀ m x, R m → R (m.emit e x))
    (hchanged : ∀ m up, R m → R (ndSessionIfaceChanged e f up m)) (h : R m) :
    R (rebindIface e m f) := by
  have hite : ∀ (p : Prop) [Decidable p] (m m' : Mem), R m → (R m → R m') →
      R (if p then m' else m) := by
    intro p _ m m' h h'
    split_ifs
    exacts [h' h, h]
  unfold rebindIface
  dsimp only
  split_ifs
  · exact hite _ _ _ h fun h => hchanged _ false (hset _ _ h)
  · exact h
  · exact hset _ _ (hite _ _ _ (hset _ _ h) fun h => hchanged _ _ h)
  · unfold rebindNew
    dsimp only
    split
    · refine hset _ _ (hite _ _ _ ?_ fun h => hchanged _ true h)
      refine hset _ _ (hite _ _ _ ?_ fun h => hchanged _ false h)
      exact hite _ _ _ (hemit _ _ (hset _ _ h)) fun h => hemit _ _ h
    · exact hemit _ _ (hset _ _ h)

/-- Between `m` and `m'`, no object changes but `f`. -/
structure Frame (e : Env) (f : IfaceId) (m m' : Mem) : Prop where
  ok : e.Ok m'.store
  iface_eq : ∀ g, g ≠ f → m'.world.net.iface g = m.world.net.iface g

namespace Frame

theorem refl (h : e.Ok m.store) (f : IfaceId) : Frame e f m m := ⟨h, fun _ _ => rfl⟩

theorem setIface (h : Frame e f m m') (g : Iface) : Frame e f m (m'.setIface f g) :=
  ⟨h.ok, fun g' hg' => (m'.world.net.set_iface_of_ne g hg').trans (h.iface_eq g' hg')⟩

theorem emit (h : Frame e f m m') (x : Act) : Frame e f m (m'.emit e x) := ⟨h.ok, h.iface_eq⟩

theorem ifaceChanged (h : Frame e f m m') (up : Bool) :
    Frame e f m (ndSessionIfaceChanged e f up m') := by
  refine ⟨ndSessionIfaceChanged_ok f up h.ok, fun g hg => ?_⟩
  rw [ndSessionIfaceChanged_net]
  exact h.iface_eq g hg

theorem rebindIface (h : e.Ok m.store) (f : IfaceId) : Frame e f m (rebindIface e m f) :=
  rebindIface_rule (fun _ g h => h.setIface g) (fun _ x h => h.emit x)
    (fun _ up h => h.ifaceChanged up) (refl h f)

end Frame

/-- A pass over the interfaces. -/
theorem rebindAll_tracks (hok : e.Ok m.store) (hnodup : m.world.net.ifaces.Nodup)
    (h₀ : Tracks e.cfg m m [] fun _ => True) :
    ∃ new, Tracks e.cfg m (ndIfaceRebindAll e m) new fun f =>
      f ∈ m.world.net.ifaces → ¬e.kernel.Notices (m.world.net.iface f) := by
  -- After the objects of `l`, the other ones are as before the pass.
  have hloop : ∀ l, l <+: m.world.net.ifaces → e.Ok (l.foldl (rebindIface e) m).store ∧
      (∀ f ∉ l, (l.foldl (rebindIface e) m).world.net.iface f = m.world.net.iface f) ∧
      ∃ new, Tracks e.cfg m (l.foldl (rebindIface e) m) new fun f =>
        f ∈ l → ¬e.kernel.Notices (m.world.net.iface f) := by
    intro l
    induction l using List.reverseRecOn with
    | nil => exact fun _ => ⟨hok, fun _ _ => rfl, [], h₀.weaken fun f _ => .inl (by simp)⟩
    | append_singleton l f ih =>
      intro hl
      obtain ⟨hok₁, hrest, new, h₁⟩ := ih ((List.prefix_append l [f]).trans hl)
      have hf : f ∉ l := fun hf => by
        have := List.nodup_append.1 (hl.sublist.nodup hnodup)
        exact this.2.2 f hf f (List.mem_singleton_self f) rfl
      have hframe := Frame.rebindIface hok₁ f
      obtain ⟨new', h₂⟩ := h₁.rebindIface hok₁ f
      rw [List.foldl_concat]
      refine ⟨hframe.ok, fun g hg => ?_, new', h₂.weaken fun g hg => .inl fun hmem => ?_⟩
      · rw [List.mem_append, List.mem_singleton, not_or] at hg
        exact (hframe.iface_eq g hg.2).trans (hrest g hg.1)
      · rcases List.mem_append.1 hmem with hmem | hmem
        · exact hg.1 hmem
        · rw [List.mem_singleton] at hmem
          rw [hmem, ← hrest f hf]
          exact hg.2 hmem
  exact (hloop _ (List.prefix_refl _)).2.2

end Ndppd
