import Ndppd.Autowire
import Ndppd.Autowire.Books

/-!
# Autowire bookkeeping

The flag `autowired` of the sessions, the requests for their routes, and the
interfaces, over all runs (`Daemon.run_bookkeeping`).

* A session that is autowired has a rule that says so, and an interface which is
  up; a valid session with such a rule, on an interface which was up in the last
  pass as well, is autowired (`Settled`).
* Between two requests for the route of a session, its interface went away; each
  of them has the index of this interface.
* When a session is deleted, the removal of its route is asked for once, if the
  route was asked for since its interface last went away, and at no other time
  (`dueRemovals`).
-/

namespace Ndppd

variable {e : Env} {c : Config} {a : Action} {i j : SessionId} {s s' : Session} {f g : IfaceId}
  {t : Traced} {m m' : Mem} {w w' : World} {o o' : Option Session}

/-! ## Books after an event -/

theorem Booked.step (h : Booked e.cfg t) (hok : e.Ok t.mem.store) (hc : t.mem.Counted e.cfg)
    (hlist : ∀ p, ∀ r ∈ (e.cfg.proxy p).rules, p ∈ e.cfg.proxies) :
    Booked e.cfg (t.step e a) := by
  by_cases ha : a = .rebind
  · subst ha
    exact (Booked.rebindAll ⟨hok, h⟩).2
  · have hkept : Traced.KeptBy e a fun t => Booked e.cfg t ∧ t.mem.Counted e.cfg := by
      refine ⟨fun t m hok hm ⟨h, hc⟩ => ?_, fun _ _ hr => absurd hr ha⟩
      refine ⟨h.move hm ha fun j s f hs hf => ?_, hm.counted rfl hok hlist hc⟩
      exact hc.lt_fresh f (hc.mem_ifaces hok.before hs hf)
    exact (hkept.step hok ⟨h, hc⟩).1

/-! ## Valid sessions -/

/-- The valid sessions on the interface `f`, whose rules say so, are autowired. -/
def WiredOn (c : Config) (m : Mem) (f : IfaceId) : Prop :=
  ∀ i s, m.store.session i = some s → s.state = .valid → (c.rule s.rule).autowire = true →
    s.iface = some f → s.autowired = true

/-- The valid sessions whose rules say so are autowired, if their interface is up
    and was so in the last pass. -/
def Settled (c : Config) (m : Mem) : Prop :=
  ∀ f, (m.world.net.iface f).up = true → (m.world.net.iface f).adminUp = true → WiredOn c m f

theorem Net.addRef_adminUp (n : Net) (f g : IfaceId) :
    ((n.addRef f).iface g).adminUp = (n.iface g).adminUp := by
  by_cases hgf : g = f
  · subst hgf
    rw [Net.addRef, Net.set_iface_self]
  · rw [Net.addRef, Net.set_iface_of_ne _ _ hgf]

theorem Net.Takes.adminUp_eq {n n' : Net} (h : n.Takes f n') (hg : g < n.fresh) :
    (n'.iface g).adminUp = (n.iface g).adminUp := by
  rcases h with ⟨-, rfl⟩ | ⟨x, -, -, -, rfl⟩
  · exact n.addRef_adminUp f g
  · exact congrArg Iface.adminUp (Function.update_of_ne hg.ne ..)

theorem ndIfaceClose_adminUp (e : Env) (f g : IfaceId) (w : World) :
    ((ndIfaceClose e f w).net.iface g).adminUp = (w.net.iface g).adminUp := by
  have hg : (ndIfaceClose e f w).net.iface g =
      (w.net.set f { w.net.iface f with refcount := (w.net.iface f).refcount - 1 }).iface g := by
    unfold ndIfaceClose
    dsimp only
    split_ifs <;> rfl
  rw [hg]
  by_cases hgf : g = f
  · subst hgf
    rw [Net.set_iface_self]
  · rw [Net.set_iface_of_ne _ _ hgf]

theorem StartCase.adminUp_eq (h : StartCase e i s w s' w') (hg : g < w.net.fresh) :
    (w'.net.iface g).adminUp = (w.net.iface g).adminUp := by
  cases h with
  | unrouted _ _ ho => rw [net_of_openRoute_none ho]
  | routed f w' _ ho => exact ((takes_of_openRoute ho).adminUp_eq hg :)
  | own => rfl
  | probed f => exact w.net.addRef_adminUp f g
  | static => rfl
  | stuck => rfl

theorem NsCase.adminUp_eq {src : Addr} {srcLl : Option LlAddr}
    (h : NsCase e i src srcLl s w s' w') (hg : g < w.net.fresh) :
    (w'.net.iface g).adminUp = (w.net.iface g).adminUp := by
  rcases h.net_cases with ⟨-, hw⟩ | ⟨-, f, -, ht⟩
  · rw [hw]
  · exact ht.adminUp_eq hg

/-- The calls on a session do not change what the last pass found. -/
theorem Change.adminUp_eq (h : Change e i w a o o' w') (hg : g < w.net.fresh) :
    (w'.net.iface g).adminUp = (w.net.iface g).adminUp := by
  cases h with
  | created hsol _ hstart hns =>
    have hg₀ := hsol.net_eq.symm ▸ hg
    rw [hns.adminUp_eq (hg₀.trans_le hstart.keeps.fresh_le), hstart.adminUp_eq hg₀, hsol.net_eq]
  | solicited hsol hns => rw [hns.adminUp_eq (hsol.net_eq.symm ▸ hg), hsol.net_eq]
  | advertised _ _ hna => rw [hna.net_eq]
  | updated hu => rw [hu.net_eq.2]
  | deleted hu =>
    rcases hu.net_deleted with ⟨-, hw⟩ | ⟨f, w₀, -, hw, rfl⟩
    · rw [hw]
    · rw [ndIfaceClose_adminUp, hw]
  | forgotten => rfl
  | rewired => rw [ndLUp_net]

/-- A session that is valid as it is created has no interface. -/
theorem Change.iface_of_created (h : Change e i w a none (some s') w')
    (hs' : s'.state = .valid) : s'.iface = none := by
  cases h with
  | created _ _ hstart hns =>
    cases hns with
    | answered hv =>
      cases hstart with
      | own => rfl
      | static => rfl
      | unrouted => exact absurd hv (by simp)
      | routed => exact absurd hv (by simp [firstProbe])
      | probed => exact absurd hv (by simp [firstProbe])
      | stuck => exact absurd hv (by simp [newSession])
    | dropped hv => exact absurd hs' hv
    | queued _ _ _ hv => exact absurd hs' hv
    | resumed => exact absurd hs' (by simp)
    | probed _ _ hv => exact absurd (hv.symm.trans hs') (by simp)

/-- A session that is valid after a call, on an interface which is up, is autowired
    if its rule says so, or it was valid before and as autowired as now. -/
theorem Change.wired_of_valid (h : Change e i w a o (some s') w') (ha : a ≠ .rebind)
    (hv : s'.state = .valid) (hrule : (e.cfg.rule s'.rule).autowire = true)
    (hf : s'.iface = some f) (hup : (w'.net.iface f).up = true) : s'.autowired = true ∨
      ∃ s, o = some s ∧ s.state = .valid ∧ s.rule = s'.rule ∧ s.iface = some f ∧
        s'.autowired = s.autowired := by
  cases h with
  | created hsol hr hstart hns =>
    exact absurd ((Change.created hsol hr hstart hns).iface_of_created hv) (by simp [hf])
  | solicited hsol hns =>
    cases hns with
    | answered hs => exact .inr ⟨_, rfl, hs, rfl, hf, rfl⟩
    | dropped hs => exact absurd hv hs
    | queued _ _ _ hs => exact absurd hv hs
    | resumed => exact absurd hv (by simp)
    | probed _ _ hs => exact absurd (hs.symm.trans hv) (by simp)
  | @advertised _ _ s _ _ _ _ hna =>
    cases hna with
    | refreshed hs => exact .inr ⟨s, rfl, hs, rfl, hf, rfl⟩
    | validated b w' _ hb =>
      have hnet := ndLUp_net e i { s with subs := [] } (sendSubs e i s w)
      have hcases := ndLUp_cases e i { s with subs := [] } (sendSubs e i s w)
      rw [hb] at hnet hcases
      rcases hcases with ⟨hsame, hauto⟩ | ⟨_, _, _, _, _, hadd⟩
      · have hb' : b = s.autowired := congrArg (fun x => x.1.autowired) hsame
        exact .inl (hb'.trans (hauto f hf (hnet ▸ hup) hrule))
      · exact .inl (congrArg (fun x => x.1.autowired) hadd)
  | @updated s _ _ hu =>
    have hs : s.state = .valid := by
      cases hu with
      | idle => exact hv
      | renewed hs => exact hs
      | held hs => exact absurd (hs.symm.trans hv) (by simp)
      | retransmitted hs => exact absurd (hs.symm.trans hv) (by simp)
      | reprobed hs => exact absurd (hs.symm.trans hv) (by simp)
      | _ => exact absurd hv (by simp)
    exact .inr ⟨s, rfl, hs, hu.sameKey.rule.symm, hu.net_eq.1.symm.trans hf, hu.autowired_eq⟩
  | forgotten => exact absurd rfl ha
  | rewired => exact absurd rfl ha

/-- A move of the daemon, except in a pass over the interfaces. -/
theorem Settled.move (h : Settled e.cfg m) (hm : Move e a m m') (ha : a ≠ .rebind)
    (hlt : ∀ j s f, m.store.session j = some s → s.iface = some f → f < m.world.net.fresh) :
    Settled e.cfg m' := by
  cases hm with
  | session i o o' st' w' ho hc hw =>
    intro f hup hadmin j s' hs' hv hrule hf
    have hbefore : ∀ s, m.store.session j = some s → s.state = .valid → s.rule = s'.rule →
        s.iface = some f → s.autowired = true := by
      intro s hs hvs hrules hfs
      have hltf := hlt j s f hs hfs
      refine h f ?_ ?_ j s hs hvs (hrules ▸ hrule) hfs
      · exact (hc.keeps.up f hltf).symm.trans hup
      · exact (hc.adminUp_eq hltf).symm.trans hadmin
    by_cases hj : j = i
    · subst hj
      obtain rfl : o' = some s' := hw.self.symm.trans hs'
      rcases hc.wired_of_valid ha hv hrule hf hup with hauto | ⟨s, hs, hvs, hrules, hfs, hauto⟩
      · exact hauto
      · exact hauto.trans (hbefore s (ho.trans hs) hvs hrules hfs)
    · exact hbefore s' ((hw.of_ne hj).symm.trans hs') hv rfl hf
  | world w' he =>
    have hnet : w'.net = m.world.net := by
      cases he with
      | ignored hsol => exact hsol.net_eq
      | purged => rfl
      | rebound => exact absurd rfl ha
      | joined => exact absurd rfl ha
      | left => exact absurd rfl ha
    intro f hup hadmin
    exact h f (hnet ▸ hup) (hnet ▸ hadmin)

/-! ### Passes over the interfaces -/

theorem ifaceChanged_of_ne {up : Bool} (h : s.iface ≠ some f) :
    ifaceChanged e f up i s w = (s, w) :=
  if_pos h

theorem ifaceChanged_iface (e : Env) (f : IfaceId) (up : Bool) (i : SessionId) (s : Session)
    (w : World) : (ifaceChanged e f up i s w).1.iface = s.iface := by
  obtain ⟨b, hb⟩ := ndLUp_fst e i s w
  unfold ifaceChanged
  split_ifs
  · rfl
  · rfl
  · rw [hb]
  · rfl

/-- The sessions on other interfaces are left alone. -/
theorem WiredOn.changed (h : WiredOn c m g) (hok : e.Ok m.store) (hg : g ≠ f) (up : Bool) :
    WiredOn c (ndSessionIfaceChanged e f up m) g := by
  intro i s' hs' hv hrule hf
  rw [ndSessionIfaceChanged_session hok, Option.map_eq_some_iff] at hs'
  obtain ⟨s, hs, rfl⟩ := hs'
  have hne : s.iface ≠ some f := by
    rw [ifaceChanged_iface] at hf
    rw [hf]
    exact fun h => hg (Option.some.inj h)
  rw [ifaceChanged_of_ne hne] at hv hrule hf ⊢
  exact h i s hs hv hrule hf

/-- When the interface `f` comes back, its valid sessions are autowired. -/
theorem wiredOn_of_changed (hok : e.Ok m.store) (hup : (m.world.net.iface f).up = true) :
    WiredOn e.cfg (ndSessionIfaceChanged e f true m) f := by
  intro i s' hs' hv hrule hf
  rw [ndSessionIfaceChanged_session hok, Option.map_eq_some_iff] at hs'
  obtain ⟨s, -, rfl⟩ := hs'
  rw [ifaceChanged_iface] at hf
  have hstate : s.state = .valid := by
    by_contra hne
    simp [ifaceChanged, hf, hne] at hv
  have heq : ifaceChanged e f true i s m.world = ndLUp e i s m.world := by
    simp [ifaceChanged, hf, hstate]
  rw [heq] at hrule ⊢
  rcases ndLUp_cases e i s m.world with ⟨hsame, hauto⟩ | ⟨_, _, _, _, _, hadd⟩
  · rw [hsame] at hrule ⊢
    exact hauto f hf hup hrule
  · rw [hadd]

theorem wiredOn_rebindIface_of_ne (hok : e.Ok m.store) (hg : g ≠ f) (h : WiredOn c m g) :
    WiredOn c (rebindIface e m f) g :=
  And.right <| rebindIface_rule (R := fun m' => e.Ok m'.store ∧ WiredOn c m' g)
    (fun _ _ h => h) (fun _ _ h => h)
    (fun _ up h => ⟨ndSessionIfaceChanged_ok f up h.1, h.2.changed h.1 hg up⟩) ⟨hok, h⟩

theorem wiredOn_setIface (x : Iface) : WiredOn c (m.setIface f x) g ↔ WiredOn c m g := Iff.rfl

/-- The sessions are told that the object is bound before `admin_up` is written. -/
theorem wiredOn_bindNew (hok : e.Ok m.store) (cur : ℕ) :
    WiredOn e.cfg (bindNew e f cur true m) f := by
  unfold bindNew
  dsimp only
  rw [if_pos rfl, wiredOn_setIface]
  refine wiredOn_of_changed hok ?_
  rw [Mem.setIface, Net.set_iface_self]

theorem leaveOld_store (e : Env) (f : IfaceId) (cur : ℕ) (m : Mem) :
    (leaveOld e f cur m).store = m.store := by
  unfold leaveOld
  dsimp only
  split_ifs <;> rfl

theorem bindNew_iface (e : Env) (f : IfaceId) (cur : ℕ) (adminUp : Bool) (m : Mem) :
    ((bindNew e f cur adminUp m).world.net.iface f).adminUp = adminUp :=
  congrArg Iface.adminUp (Net.set_iface_self ..)

theorem wiredOn_rebindSame (hok : e.Ok m.store) {adminUp : Bool}
    (hup : (m.world.net.iface f).up = true)
    (h : (m.world.net.iface f).adminUp = true → WiredOn e.cfg m f) (hadmin : adminUp = true) :
    WiredOn e.cfg (rebindSame e f adminUp m) f := by
  subst hadmin
  unfold rebindSame
  dsimp only
  rw [wiredOn_setIface]
  split_ifs with hne
  · exact wiredOn_of_changed hok hup
  · exact h (by simpa using hne)

theorem wiredOn_rebindIface_self (hok : e.Ok m.store)
    (h : (m.world.net.iface f).up = true → (m.world.net.iface f).adminUp = true →
      WiredOn e.cfg m f)
    (hup : ((rebindIface e m f).world.net.iface f).up = true)
    (hadmin : ((rebindIface e m f).world.net.iface f).adminUp = true) :
    WiredOn e.cfg (rebindIface e m f) f := by
  -- The address is written first.
  let g : Iface := { m.world.net.iface f with
    lladdr := (e.kernel.hwaddr (m.world.net.iface f).name).getD (m.world.net.iface f).lladdr }
  have hself : (m.setIface f g).world.net.iface f = g := m.world.net.set_iface_self f g
  revert hup hadmin
  unfold rebindIface
  dsimp only
  split_ifs with h0 herr hsame
  · unfold rebindAbsent
    dsimp only
    split_ifs with hlink
    · intro hup
      rw [ndSessionIfaceChanged_net, Mem.setIface, Net.set_iface_self] at hup
      exact absurd hup (by simp)
    · exact h
  · exact h
  · intro hup hadmin
    refine wiredOn_rebindSame (m := m.setIface f g) hok ?_ (fun hold => ?_) ?_
    · rw [hself]
      exact hsame.2
    · rw [hself] at hold
      exact h hsame.2 hold
    · exact (congrArg Iface.adminUp (Net.set_iface_self ..)).symm.trans hadmin
  · intro hup hadmin
    cases hacc : e.kernel.addMembership (e.kernel.ifNametoindex (m.world.net.iface f).name).1
      ((m.setIface f g).world.net.iface f).promiscuous with
    | false =>
      rw [rebindNew_refused hacc] at hup hadmin ⊢
      change ((m.setIface f g).world.net.iface f).up = true at hup
      change ((m.setIface f g).world.net.iface f).adminUp = true at hadmin
      rw [hself] at hup hadmin
      exact h hup hadmin
    | true =>
      rw [rebindNew_accepted hacc] at hadmin ⊢
      rw [bindNew_iface] at hadmin
      rw [hadmin]
      refine wiredOn_bindNew ?_ _
      have hleave := leaveOld_store e f (e.kernel.ifNametoindex (m.world.net.iface f).name).1
        (m.setIface f g)
      split_ifs
      · exact ndSessionIfaceChanged_ok f false (hleave.symm ▸ hok)
      · exact hleave.symm ▸ hok

/-- A pass over the interfaces. -/
theorem Settled.rebindAll (h : Settled e.cfg m) (hok : e.Ok m.store) :
    Settled e.cfg (ndIfaceRebindAll e m) := by
  refine (List.foldlRecOn (motive := fun m' : Mem => e.Ok m'.store ∧ Settled e.cfg m') _ _
    ⟨hok, h⟩ ?_).2
  rintro m' ⟨hok', h'⟩ f -
  refine ⟨(Frame.rebindIface hok' f).ok, fun g hup hadmin => ?_⟩
  by_cases hg : g = f
  · subst hg
    exact wiredOn_rebindIface_self hok' (h' g) hup hadmin
  · have hnet := (Frame.rebindIface hok' f).iface_eq g hg
    rw [hnet] at hup hadmin
    exact (wiredOn_rebindIface_of_ne hok' hg (h' g hup hadmin))

theorem Settled.step (h : Settled e.cfg m) (hok : e.Ok m.store) (hc : m.Counted e.cfg)
    (hlist : ∀ p, ∀ r ∈ (e.cfg.proxy p).rules, p ∈ e.cfg.proxies) :
    Settled e.cfg (Daemon.stepMem e a m) := by
  by_cases ha : a = .rebind
  · subst ha
    exact h.rebindAll hok
  · refine (stepMem_induction (Q := fun m => m.Counted e.cfg ∧ Settled e.cfg m) hok ⟨hc, h⟩ ?_).2
    rintro m₁ m₂ hok₁ - hm ⟨hc₁, h₁⟩
    refine ⟨hm.counted rfl hok₁ hlist hc₁, h₁.move hm ha fun j s f hs hf => ?_⟩
    exact hc₁.lt_fresh f (hc₁.mem_ifaces hok₁.before hs hf)

/-! ## Removals -/

/-- The removals a session asks for as it becomes `o'`: one when it is deleted, if
    it is autowired. -/
def owedRemovals (o o' : Option Session) : ℕ :=
  match o, o' with
  | some s, none => if s.iface.isSome && s.autowired then 1 else 0
  | _, _ => 0

/-- The removals of the route of the session `i` that are due as it becomes `o'`,
    after the notes `ns`: one when it is deleted, if its route was asked for since
    its interface last went away. -/
def dueRemovals (ns : List Note) (i : SessionId) (o o' : Option Session) : ℕ :=
  match o, o' with
  | some s, none => if s.iface.any fun f => addedSince i f ns then 1 else 0
  | _, _ => 0

theorem owedRemovals_some (o : Option Session) (s' : Session) :
    owedRemovals o (some s') = 0 := by
  cases o <;> rfl

/-- Nothing is owed as long as the session is there. -/
theorem owedRemovals_trans (o : Option Session) (s s' : Session) :
    owedRemovals o (some s') = owedRemovals o (some s) + owedRemovals (some s) (some s') := by
  rw [owedRemovals_some, owedRemovals_some, owedRemovals_some]

theorem Session.Booked.due_eq (h : s.Booked c t i) (o' : Option Session) :
    dueRemovals t.notes i (some s) o' = owedRemovals (some s) o' := by
  cases o' with
  | some s' => rfl
  | none =>
    cases hf : s.iface with
    | none => simp [dueRemovals, owedRemovals, hf]
    | some f => simp [dueRemovals, owedRemovals, hf, h.flag f hf]

/-- After the call that leads to `m`, a request for the session `i` is noted, or
    nothing; `k` of it is the removal of its route. -/
def Traced.Notes (t : Traced) (m : Mem) (i : SessionId) (k : ℕ) : Prop :=
  ∃ new : Option Note, (t.after m).notes = new.toList ++ t.notes ∧
    (∀ n, new = some n → n.About i) ∧ new.toList.count (.removed i) = k

theorem Traced.Notes.of_eq (h : m.world.requests = t.mem.world.requests) : t.Notes m i 0 :=
  ⟨none, after_notes_of_eq h, fun _ hn => absurd hn (by simp), rfl⟩

/-- `ndL_up` adds a route, if anything. -/
theorem Traced.Notes.up {st' : Store} (h : w.requests = t.mem.world.requests) :
    t.Notes { store := st', world := (ndLUp e i s w).2 } i 0 := by
  rcases ndLUp_cases e i s w with ⟨hup, -⟩ | ⟨f, -, -, -, -, hup⟩
  · rw [hup]
    exact .of_eq h
  · have hcons : (ndLUp e i s w).2.requests =
        ⟨e.now, e.addRouteAct i s (w.net.iface f).index⟩ :: t.mem.world.requests := by
      rw [hup, ← h]
      rfl
    refine ⟨_, t.after_notes_cons { store := st', world := _ } hcons, fun n hn => ?_, ?_⟩
    · rw [← Option.some.inj hn]
      rfl
    · exact List.count_eq_zero.2 (by simp [Mem.note])

/-- What a call on the session `i` notes. -/
theorem Change.notes {st' : Store} (h : Change e i t.mem.world a o o' w') :
    t.Notes { store := st', world := w' } i (owedRemovals o o') := by
  cases h with
  | created hsol _ hstart hns =>
    exact .of_eq ((hns.requests_eq.trans hstart.requests_eq).trans hsol.requests_eq)
  | solicited hsol hns => exact .of_eq (hns.requests_eq.trans hsol.requests_eq)
  | @advertised _ _ s _ _ _ _ hna =>
    cases hna with
    | refreshed => exact .of_eq rfl
    | validated b w' _ hb =>
      obtain rfl : w' = (ndLUp e i { s with subs := [] } (sendSubs e i s t.mem.world)).2 := by
        rw [hb]
      exact .up (sendSubs_requests ..)
  | updated hu => exact .of_eq hu.requests_eq
  | @deleted s _ hu =>
    refine ⟨_, hu.notes_deleted, fun n hn => ?_, ?_⟩
    · split_ifs at hn
      rw [← Option.some.inj hn]
      rfl
    · rw [owedRemovals]
      cases s.iface.isSome && s.autowired with
      | true => simp
      | false => rfl
  | forgotten => exact .of_eq rfl
  | rewired => exact .up rfl

/-- Since `o`, the session `i` has been updated only, in a tick, or is still there. -/
def Since (a : Action) (o o' : Option Session) : Prop :=
  (a = .tick → ∀ s', o' = some s' → ∃ s, o = some s ∧ s'.autowired = s.autowired ∧
    s'.iface = s.iface) ∧
  (a ≠ .tick → o.isSome → o'.isSome)

theorem Since.refl (a : Action) (o : Option Session) : Since a o o :=
  ⟨fun _ s' hs' => ⟨s', hs', rfl, rfl⟩, fun _ => id⟩

/-- A call on the session leaves what is owed at the end of the event as it is. -/
theorem Since.change {o₀ : Option Session} (h : Since a o₀ o) (hc : Change e i w a o o' w') :
    Since a o₀ o' ∧ owedRemovals o₀ o' = owedRemovals o₀ o + owedRemovals o o' := by
  cases hc with
  | created hsol =>
    have ha : a ≠ .tick := by cases hsol <;> simp
    have hnone : o₀ = none := by
      cases o₀ with
      | none => rfl
      | some s₀ => exact absurd (h.2 ha rfl) (by simp)
    subst hnone
    exact ⟨⟨fun ht => absurd ht ha, fun _ hs => absurd hs (by simp)⟩, rfl⟩
  | solicited hsol hns =>
    have ha : a ≠ .tick := by cases hsol <;> simp
    exact ⟨⟨fun ht => absurd ht ha, fun _ _ => rfl⟩, owedRemovals_trans ..⟩
  | advertised =>
    exact ⟨⟨fun ht => absurd ht (by simp), fun _ _ => rfl⟩, owedRemovals_trans ..⟩
  | updated hu =>
    refine ⟨⟨fun _ s' hs' => ?_, fun ha => absurd rfl ha⟩, owedRemovals_trans ..⟩
    obtain ⟨s₀, hs₀, hauto, hiface⟩ := h.1 rfl _ rfl
    obtain rfl := Option.some.inj hs'
    exact ⟨s₀, hs₀, hu.autowired_eq.trans hauto, hu.net_eq.1.trans hiface⟩
  | deleted hu =>
    refine ⟨⟨fun _ s' hs' => absurd hs' (by simp), fun ha => absurd rfl ha⟩, ?_⟩
    obtain ⟨s₀, rfl, hauto, hiface⟩ := h.1 rfl _ rfl
    rw [owedRemovals_some, owedRemovals, owedRemovals, hauto, hiface, Nat.zero_add]
  | forgotten =>
    exact ⟨⟨fun ht => absurd ht (by simp), fun _ _ => rfl⟩, owedRemovals_trans ..⟩
  | rewired =>
    exact ⟨⟨fun ht => absurd ht (by simp), fun _ _ => rfl⟩, owedRemovals_trans ..⟩

/-- The removals of the route of the session `i` are those which are owed. -/
theorem removals_keptBy (e : Env) (a : Action) (i : SessionId) (o₀ : Option Session) (k : ℕ) :
    Traced.KeptBy e a fun t => Since a o₀ (t.mem.store.session i) ∧
      t.notes.count (.removed i) = k + owedRemovals o₀ (t.mem.store.session i) where
  lost t f _ h := by
    refine ⟨h.1, ?_⟩
    rw [List.count_cons_of_ne (by simp)]
    exact h.2
  move t m _ hm := by
    rintro ⟨hsince, hcount⟩
    cases hm with
    | session j o o' st' w' ho hc hw =>
      have hn : t.Notes { store := st', world := w' } j (owedRemovals o o') := hc.notes
      obtain ⟨new, hnotes, habout, hnew⟩ := hn
      rw [hnotes, List.count_append, hcount]
      by_cases hj : j = i
      · subst hj
        obtain ⟨hsince', howed⟩ := Since.change (ho ▸ hsince) hc
        have hself : (t.after { store := st', world := w' }).mem.store.session j = o' := hw.self
        rw [hself, hnew, howed, ho]
        exact ⟨hsince', by omega⟩
      · have hother : (t.after { store := st', world := w' }).mem.store.session i =
            t.mem.store.session i := hw.of_ne (Ne.symm hj)
        have hzero : new.toList.count (.removed i) = 0 := by
          refine List.count_eq_zero.2 fun hmem => hj ?_
          exact (habout _ (Option.mem_toList.1 hmem)).symm
        rw [hother, hzero, Nat.zero_add]
        exact ⟨hsince, rfl⟩
    | world w' he =>
      refine ⟨hsince, ?_⟩
      rw [he.notes_eq]
      exact hcount

/-! ## Runs -/

theorem Daemon.run_booked {d : Daemon} (hc : c.Parsed) (h : start e c = some d)
    (es : List Event) : Booked d.cfg (d.traced es) ∧ Settled d.cfg (d.run es).mem := by
  induction es using List.reverseRecOn with
  | nil =>
    obtain ⟨cw, -, rfl⟩ := Option.map_eq_some_iff.1 h
    refine ⟨⟨fun i s hs => ?_, fun i oif via hadd => ?_, trivial⟩, fun f _ _ i s hs => ?_⟩
    · exact absurd hs (by simp [traced, run, init, Store.empty])
    · exact absurd hadd (by simp [traced, history])
    · exact absurd hs (by simp [run, init, Store.empty])
  | append_singleton es ev ih =>
    obtain ⟨hok, hcount, hlist⟩ := run_counted hc h es ev
    have hcfg : ((d.run es).env ev).cfg = d.cfg := by simp
    rw [← hcfg] at ih hcount hlist ⊢
    rw [traced_concat, run_concat, step_mem]
    exact ⟨ih.1.step hok hcount hlist, ih.2.step hok hcount hlist⟩

/-- In every state reached: a session that is autowired has a rule that says so and
    an interface which is up, and a valid session is autowired if its rule says so
    and its interface is up and was so in the last pass. Of the notes on the run:
    each route is asked for with the index of the interface of its session; between
    two requests for the same session, this interface went away; and in the next
    event, the removal of the route of a session is asked for once if it is deleted
    and has asked for its route since its interface last went away, and not at all
    otherwise. -/
theorem Daemon.run_bookkeeping {d : Daemon} (hc : c.Parsed) (h : start e c = some d)
    (es : List Event) :
    (∀ i s, (d.run es).mem.store.session i = some s → s.autowired = true →
      (d.cfg.rule s.rule).autowire = true ∧
        ∃ f, s.iface = some f ∧ ((d.run es).mem.world.net.iface f).up = true) ∧
    (∀ i s f, (d.run es).mem.store.session i = some s → s.state = .valid →
      (d.cfg.rule s.rule).autowire = true → s.iface = some f →
      ((d.run es).mem.world.net.iface f).up = true →
      ((d.run es).mem.world.net.iface f).adminUp = true → s.autowired = true) ∧
    (∀ i oif via, .added i oif via ∈ d.history es → ∃ f, via = some (f, oif)) ∧
    (∀ new mid old i oif via oif' via', d.history es =
        new ++ .added i oif via :: (mid ++ .added i oif' via' :: old) →
      ∃ f, via = some (f, oif) ∧ via' = some (f, oif') ∧ .lost f ∈ mid) ∧
    ∀ ev i, (d.history (es ++ [ev])).count (.removed i) = (d.history es).count (.removed i) +
      dueRemovals (d.history es) i ((d.run es).mem.store.session i)
        ((d.run (es ++ [ev])).mem.store.session i) := by
  obtain ⟨hbooked, hsettled⟩ := run_booked hc h es
  refine ⟨fun i s hs => (hbooked.session i s hs).wired, fun i s f hs hv hrule hf hup hadmin =>
    hsettled f hup hadmin i s hs hv hrule hf, fun i oif via hadd => ?_, ?_, fun ev i => ?_⟩
  · obtain ⟨new, old, hsplit⟩ := List.append_of_mem hadd
    have hfit : Fit (d.history es) := hbooked.fit
    rw [hsplit] at hfit
    obtain ⟨f, hvia, -⟩ := hfit.append.1
    exact ⟨f, hvia⟩
  · intro new mid old i oif via oif' via' hsplit
    have hfit : Fit (d.history es) := hbooked.fit
    rw [hsplit] at hfit
    obtain ⟨f, hvia, hsince, hlinks⟩ := hfit.append.1
    exact ⟨f, hvia, hlinks oif' via' (by simp), lost_of_addedSince hsince⟩
  · obtain ⟨hok, -, -⟩ := run_counted hc h es ev
    have hcount := ((removals_keptBy _ ev.action i ((d.run es).mem.store.session i)
      ((d.history es).count (.removed i))).step (t := d.traced es) hok ⟨.refl _ _, ?_⟩).2
    · rw [← traced_concat] at hcount
      refine hcount.trans (congrArg _ ?_)
      cases hs : (d.run es).mem.store.session i with
      | none => rfl
      | some s => exact ((hbooked.session i s hs).due_eq _).symm
    · have hnone : owedRemovals ((d.run es).mem.store.session i)
          ((d.run es).mem.store.session i) = 0 := by
        cases (d.run es).mem.store.session i <;> rfl
      exact (congrArg ((d.history es).count (.removed i) + ·) hnone).symm

/-! ## The small network -/

namespace Small

/-- The third interface goes down after an advertisement, and comes back; the
    session is not asked for any more, and deleted. -/
def comeback : List Event :=
  [event 0 .rebind, event 10 (.rxNs 2 5 (message 7) 9), event 20 (.rxNa 1 (message 7)),
    { time := 30, kernel := { kernel with flags := fun name => some (name != [3]) },
      action := .rebind },
    event 40 .rebind, event 30040 .tick, event 60040 .tick]

/-- The route is asked for twice, and the interface went away in between; then its
    removal is asked for, once. -/
theorem books_comeback :
    (daemon wireRule).history (comeback ++ [event 70040 .tick]) =
      [.removed 0, .added 0 3 (some (1, 3)), .lost 1, .added 0 3 (some (1, 3))] ∧
    (.lost 1 : Note) ∈ [Note.lost 1] ∧
    ((daemon wireRule).history (comeback ++ [event 70040 .tick])).count (.removed 0) =
      ((daemon wireRule).history comeback).count (.removed 0) + 1 := by
  have hhist : (daemon wireRule).history comeback =
      [.added 0 3 (some (1, 3)), .lost 1, .added 0 3 (some (1, 3))] := by decide +kernel
  obtain ⟨-, -, -, hlost, hremoved⟩ := Daemon.run_bookkeeping parsed_wire start_wire comeback
  refine ⟨by decide +kernel, ?_, ?_⟩
  · obtain ⟨f, hvia, -, hmem⟩ := hlost [] [.lost 1] [] 0 3 (some (1, 3)) 3 (some (1, 3)) hhist
    obtain rfl : 1 = f := congrArg Prod.fst (Option.some.inj hvia)
    exact hmem
  · rw [hremoved]
    refine congrArg _ ?_
    decide +kernel

end Small

end Ndppd
