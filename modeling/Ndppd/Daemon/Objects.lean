import Ndppd.Convergence
import Ndppd.References

/-!
# The interface layer in the runs

What the daemon does to the interface objects and to the memberships of its packet socket in an
event, other than a pass over the interfaces: a sequence of calls (`NetCall`), each of which opens
an interface by its index, shares an object that is in the list, or closes one. What the calls keep
is kept by the runs of the daemon, then (`stepMem_netCalls`).
-/

namespace Ndppd

open Relation

variable {e : Env} {i : SessionId} {src : Addr} {srcLl : Option LlAddr} {s s' : Session}
  {o o' : Option Session} {w w' : World} {a : Action} {m m' : Mem} {f : IfaceId}

/-! ## Calls -/

/-- A call of the session layer, on the objects and the memberships. -/
inductive NetCall (e : Env) (w : World) : World → Prop
  /-- It is not about interfaces. -/
  | other {w' : World} : w'.net = w.net → w'.memberships = w.memberships → NetCall e w w'
  /-- An object that is created has the address of its interface. -/
  | opened {w' : World} (index : ℕ) (acts : List Act) : w'.memberships = acts ++ w.memberships →
      OpenCase e none index false w.net w'.net acts →
      (∀ f ∈ w'.net.ifaces, f ∉ w.net.ifaces →
        e.kernel.hwaddr (w'.net.iface f).name = some (w'.net.iface f).lladdr) → NetCall e w w'
  | shared (f : IfaceId) : f ∈ w.net.ifaces → NetCall e w { w with net := w.net.addRef f }
  | closed {w' : World} (f : IfaceId) (acts : List Act) : f ∈ w.net.ifaces →
      w'.memberships = acts ++ w.memberships → CloseCase f w.net w'.net acts → NetCall e w w'

/-- Some calls. -/
def NetCalls (e : Env) : World → World → Prop := ReflTransGen (NetCall e)

/-! ## What is not about interfaces -/

/-- Other acts are not seen among the memberships. -/
theorem World.memberships_emit_of_not (w : World) (e : Env) {a : Act}
    (ha : a.isMembership = false) : (w.emit e a).memberships = w.memberships := by
  simp [World.memberships, ha]

/-- To log something else is a call that is not about interfaces. -/
theorem NetCall.emit (w : World) (e : Env) {a : Act} (ha : a.isMembership = false) :
    NetCall e w (w.emit e a) := .other rfl (w.memberships_emit_of_not e ha)

theorem Solicits.netCall {p : ProxyId} {tgt : Addr} {w₀ : World}
    (h : Solicits e w a p src tgt srcLl w₀) : NetCall e w w₀ := by
  cases h with
  | direct => exact .other rfl rfl
  | received => exact .emit w e rfl

/-- A session that goes up may add a route, which is no membership. -/
theorem netCall_ndLUp (e : Env) (i : SessionId) (s : Session) (w : World) :
    NetCall e w (ndLUp e i s w).2 := by
  unfold ndLUp
  split
  · split_ifs
    · exact .emit w e rfl
    · exact .other rfl rfl
  · exact .other rfl rfl

theorem netCall_ndLDown (e : Env) (i : SessionId) (s : Session) (w : World) :
    NetCall e w (ndLDown e i s w).2 := by
  unfold ndLDown
  split_ifs
  · exact .emit w e rfl
  · exact .other rfl rfl

/-- Nor is an answer, to one host or to all of them. -/
theorem netCall_answerNs (e : Env) (i : SessionId) (src : Addr) (srcLl : Option LlAddr)
    (s : Session) (w : World) : NetCall e w (answerNs e i src srcLl s w) := by
  unfold answerNs
  cases srcLl with
  | none => exact .emit w e rfl
  | some ll =>
    dsimp only
    split_ifs
    · exact .emit w e rfl
    · exact .emit w e rfl

/-- The answers to the subscribers are such calls, one after the other. -/
theorem netCalls_sendSubs (e : Env) (i : SessionId) (s : Session) (w : World) :
    NetCalls e w (sendSubs e i s w) :=
  List.foldlRecOn (motive := fun w' => NetCalls e w w') _ _ .refl fun w' h _ _ =>
    h.tail (.emit w' e rfl)

/-! ## Opening and closing -/

/-- An object that is created gets its address from the kernel when it is opened. -/
theorem ndIfaceOpenAt_hwaddr (e : Env) (name : IfName) (index : ℕ) (promiscuous : Bool)
    (w : World) : ∀ f ∈ (ndIfaceOpenAt e name index promiscuous w).2.net.ifaces,
      f ∉ w.net.ifaces →
      e.kernel.hwaddr ((ndIfaceOpenAt e name index promiscuous w).2.net.iface f).name =
        some ((ndIfaceOpenAt e name index promiscuous w).2.net.iface f).lladdr := by
  unfold ndIfaceOpenAt
  split
  · exact fun f hf hnew => absurd hf hnew
  · split
    · exact fun f hf hnew => absurd hf hnew
    · split
      · exact fun f hf hnew => absurd hf hnew
      · next lladdr hlladdr =>
        dsimp only
        split_ifs
        · intro f hf hnew
          obtain rfl := (List.mem_cons.1 hf).resolve_right hnew
          have hobj (g : Iface) : (w.net.alloc g).iface w.net.fresh = g := Function.update_self ..
          rw [World.emit_net, hobj]
          exact hlladdr
        · exact fun f hf hnew => absurd hf hnew

/-- The same for an index, which is what the session layer opens. -/
theorem ndIfaceOpen_hwaddr (e : Env) (index : ℕ) (promiscuous : Bool) (w : World) :
    ∀ f ∈ (ndIfaceOpen e none index promiscuous w).2.net.ifaces, f ∉ w.net.ifaces →
      e.kernel.hwaddr ((ndIfaceOpen e none index promiscuous w).2.net.iface f).name =
        some ((ndIfaceOpen e none index promiscuous w).2.net.iface f).lladdr := by
  unfold ndIfaceOpen
  dsimp only
  split_ifs
  · exact fun f hf hnew => absurd hf hnew
  · split
    · exact fun f hf hnew => absurd hf hnew
    · exact ndIfaceOpenAt_hwaddr e _ index promiscuous w

/-- Opening the interface of a route: at most one call, by the index of the route. -/
theorem netCall_openRoute (e : Env) (rule : Rule) (tgt : Addr) (w : World) :
    NetCall e w (openRoute e rule tgt w).2 := by
  unfold openRoute
  split
  · exact .other rfl rfl
  · next route _ =>
    split_ifs
    · exact .other rfl rfl
    · obtain ⟨acts, hacts, hcase⟩ := openCase e none route.oif false w
      exact .opened route.oif acts hacts hcase (ndIfaceOpen_hwaddr e _ false w)

theorem netCall_of_openRoute {rule : Rule} {tgt : Addr} {o : Option IfaceId}
    (h : openRoute e rule tgt w = (o, w')) : NetCall e w w' := by
  have hcall := netCall_openRoute e rule tgt w
  rwa [h] at hcall

/-- Closing an object that is in the list. -/
theorem netCall_ndIfaceClose (e : Env) (w : World) (hf : f ∈ w.net.ifaces) :
    NetCall e w (ndIfaceClose e f w) := by
  obtain ⟨acts, hacts, hcase⟩ := closeCase e f w
  exact .closed f acts hf hacts hcase

/-! ## Sessions -/

/-- A solicitation: the answer, or another look at the route. -/
theorem NsCase.netCalls (h : NsCase e i src srcLl s w s' w') : NetCalls e w w' := by
  cases h with
  | answered => exact .single (netCall_answerNs ..)
  | dropped => exact .refl
  | queued _ _ w' _ _ _ hw =>
    rcases hw with rfl | ho
    · exact .refl
    · exact .single (netCall_of_openRoute ho)
  | resumed _ _ f w' _ _ _ _ _ ho =>
    exact .tail (.single (netCall_of_openRoute ho)) (.emit w' e rfl)
  | probed => exact .single (.emit w e rfl)

/-- An advertisement: answers only. -/
theorem NaCase.netCalls (h : NaCase e i s w s' w') : NetCalls e w w' := by
  cases h with
  | refreshed => exact .refl
  | validated b w' _ hup =>
    have hcall := netCall_ndLUp e i { s with subs := [] } (sendSubs e i s w)
    rw [hup] at hcall
    exact (netCalls_sendSubs e i s w).tail hcall

/-- The start of a session shares the interface of its rule, or opens that of the route. -/
theorem StartCase.netCalls (h : StartCase e i s w s' w')
    (hrule : ∀ f, (e.ruleOf s).iface = some f → f ∈ w.net.ifaces) : NetCalls e w w' := by
  cases h with
  | unrouted _ _ ho => exact .single (netCall_of_openRoute ho)
  | routed f w' _ ho => exact .tail (.single (netCall_of_openRoute ho)) (.emit w' e rfl)
  | own => exact .refl
  | probed f _ _ hf => exact .tail (.single (.shared f (hrule f hf))) (.emit _ e rfl)
  | static => exact .refl
  | stuck => exact .refl

/-- The update of a session closes its interface if it deletes the session. -/
theorem UpdateCase.netCalls (h : UpdateCase e i s w o w')
    (hf : ∀ f, s.iface = some f → f ∈ w.net.ifaces) : NetCalls e w w' := by
  cases h with
  | retransmitted => exact .single (.emit w e rfl)
  | staleProbed => exact .single (.emit w e rfl)
  | reprobed => exact .single (.emit w e rfl)
  | deleted =>
    have hdown := netCall_ndLDown e i s w
    cases hs : s.iface with
    | none => exact .single hdown
    | some f =>
      refine .tail (.single hdown) (netCall_ndIfaceClose e _ ?_)
      rw [ndLDown_net]
      exact hf f hs
  | _ => exact .refl

/-- All that is called on a session is a sequence of calls, if the interfaces of the session and
    of the rules are in the list. -/
theorem Change.netCalls (h : Change e i w a o o' w')
    (ho : ∀ f, ifaceOf o = some f → f ∈ w.net.ifaces)
    (hrule : ∀ p, ∀ r ∈ (e.cfg.proxy p).rules, ∀ f, (e.cfg.rule r).iface = some f →
      f ∈ w.net.ifaces) : NetCalls e w w' := by
  cases h with
  | @created _ p src tgt srcLl r s s' w₀ w₁ w' hsol hr hstart hns =>
    have hstart := hstart.netCalls fun f hf => by
      rw [hsol.net_eq]
      exact hrule p r (of_findRule_eq_some hr).1 f hf
    exact (ReflTransGen.single hsol.netCall).trans (hstart.trans hns.netCalls)
  | solicited hsol hns => exact (ReflTransGen.single hsol.netCall).trans hns.netCalls
  | advertised _ _ hna => exact hna.netCalls
  | updated hu => exact hu.netCalls ho
  | deleted hu => exact hu.netCalls ho
  | forgotten => exact .refl
  | rewired => exact .single (netCall_ndLUp ..)

/-! ## Events -/

/-- A move that is not of a pass. -/
theorem Move.netCalls (h : Move e a m m') (ha : a ≠ .rebind) (hok : e.Ok m.store)
    (hlist : ∀ p, ∀ r ∈ (e.cfg.proxy p).rules, p ∈ e.cfg.proxies) (hc : m.Counted e.cfg) :
    NetCalls e m.world m'.world := by
  have hmem : ∀ f, Refers e.cfg m.store f → f ∈ m.world.net.ifaces := fun f hf =>
    (hc.exact.mem_iff f).2 ((totalRefs_pos_iff hok.before).2 hf)
  cases h with
  | session i o o' st' w' ho hchange hw =>
    refine hchange.netCalls (fun f hf => ?_) fun p r hr f hf => ?_
    · obtain ⟨s, hs, hsf⟩ := ifaceOf_eq_some.1 hf
      exact hmem f (.inr (.inr ⟨i, s, ho.trans hs, hsf⟩))
    · exact hmem f (.inr (.inl ⟨r, Config.mem_ruleIds (hlist p r hr) hr, hf⟩))
  | world w' he =>
    cases he with
    | ignored hsol => exact .single hsol.netCall
    | purged => exact .single (.emit _ e rfl)
    | _ => exact absurd rfl ha

/-- An event that is not a pass is a sequence of calls. -/
theorem stepMem_netCalls (ha : a ≠ .rebind) (hok : e.Ok m.store)
    (hlist : ∀ p, ∀ r ∈ (e.cfg.proxy p).rules, p ∈ e.cfg.proxies) (hc : m.Counted e.cfg) :
    NetCalls e m.world (Daemon.stepMem e a m).world := by
  refine (stepMem_induction (Q := fun m' => m'.Counted e.cfg ∧ NetCalls e m.world m'.world) hok
    ⟨hc, .refl⟩ ?_).2
  rintro m₁ m₂ hok₁ - hm ⟨hc₁, hcalls⟩
  exact ⟨hm.counted rfl hok₁ hlist hc₁, hcalls.trans (hm.netCalls ha hok₁ hlist hc₁)⟩

/-! ## Names -/

/-- The objects of `n'` that `n` has, too, have the same names and modes there. -/
structure Net.Persists (n n' : Net) : Prop where
  fresh_le : n.fresh ≤ n'.fresh
  object : ∀ f < n.fresh, f ∈ n'.ifaces → f ∈ n.ifaces ∧ (n'.iface f).name = (n.iface f).name ∧
    (n'.iface f).promiscuous = (n.iface f).promiscuous ∧ (n'.iface f).proxy = (n.iface f).proxy

namespace Net.Persists

variable {n n' n'' : Net} {g : Iface}

theorem refl (n : Net) : n.Persists n := ⟨le_rfl, fun _ _ hf => ⟨hf, rfl, rfl, rfl⟩⟩

/-- What persists in each step persists. -/
theorem trans (h : n.Persists n') (h' : n'.Persists n'') : n.Persists n'' := by
  refine ⟨h.fresh_le.trans h'.fresh_le, fun f hf hmem => ?_⟩
  obtain ⟨hmem', hname', hmode', hproxy'⟩ := h'.object f (hf.trans_le h.fresh_le) hmem
  obtain ⟨hmem, hname, hmode, hproxy⟩ := h.object f hf hmem'
  exact ⟨hmem, hname'.trans hname, hmode'.trans hmode, hproxy'.trans hproxy⟩

/-- A write to an object that leaves its name, its mode and its proxy alone. -/
theorem set (n : Net) (hname : g.name = (n.iface f).name)
    (hmode : g.promiscuous = (n.iface f).promiscuous) (hproxy : g.proxy = (n.iface f).proxy) :
    n.Persists (n.set f g) := by
  refine ⟨le_rfl, fun j _ hj => ⟨hj, ?_⟩⟩
  by_cases hjf : j = f
  · subst hjf
    rw [Net.set_iface_self]
    exact ⟨hname, hmode, hproxy⟩
  · rw [n.set_iface_of_ne g hjf]
    exact ⟨rfl, rfl, rfl⟩

/-- A new object has a number of its own. -/
theorem alloc (n : Net) (g : Iface) : n.Persists (n.alloc g) := by
  refine ⟨Nat.le_succ _, fun f hf hmem => ?_⟩
  have hold : (n.alloc g).iface f = n.iface f := Function.update_of_ne hf.ne ..
  rw [hold]
  exact ⟨(List.mem_cons.1 hmem).resolve_left hf.ne, rfl, rfl, rfl⟩

/-- An object that is taken off the list takes no other with it. -/
theorem erase (hn : n.ifaces.Nodup) (hifaces : n'.ifaces = n.ifaces.erase f)
    (hfresh : n'.fresh = n.fresh) (hother : ∀ j ≠ f, n'.iface j = n.iface j) : n.Persists n' := by
  refine ⟨hfresh.ge, fun j _ hj => ?_⟩
  rw [hifaces, hn.mem_erase_iff] at hj
  rw [hother j hj.1]
  exact ⟨hj.2, rfl, rfl, rfl⟩

end Net.Persists

/-- One call keeps the objects sound, and those that stay as they are. -/
theorem NetCall.persists (h : NetCall e w w') (hn : w.net.Sound) :
    w'.net.Sound ∧ w.net.Persists w'.net := by
  cases h with
  | other hnet _ =>
    rw [hnet]
    exact ⟨hn, .refl _⟩
  | opened index acts _ hcase _ =>
    generalize w'.net = n' at hcase
    cases hcase with
    | failed => exact ⟨hn, .refl _⟩
    | refused => exact ⟨hn, .refl _⟩
    | shared j hj => exact ⟨hn.set fun hj => hn.waiting j hj, .set _ rfl rfl rfl⟩
    | waiting => exact ⟨hn.alloc fun _ => rfl, .alloc ..⟩
    | created => exact ⟨hn.alloc fun _ => rfl, .alloc ..⟩
  | shared f hf => exact ⟨hn.set fun hf => hn.waiting f hf, .set _ rfl rfl rfl⟩
  | closed f acts hf _ hcase =>
    generalize w'.net = n' at hcase
    cases hcase with
    | kept => exact ⟨hn.set fun hf => hn.waiting f hf, .set _ rfl rfl rfl⟩
    | left n' _ hifaces hfresh hother =>
      exact ⟨hn.erase hifaces hfresh hother, .erase hn.nodup hifaces hfresh hother⟩
    | freed n' _ hifaces hfresh hother =>
      exact ⟨hn.erase hifaces hfresh hother, .erase hn.nodup hifaces hfresh hother⟩

/-- So does a sequence of them. -/
theorem NetCalls.persists (h : NetCalls e w w') (hn : w.net.Sound) :
    w'.net.Sound ∧ w.net.Persists w'.net := by
  induction h with
  | refl => exact ⟨hn, .refl _⟩
  | tail _ hcall ih =>
    obtain ⟨hn', hp'⟩ := hcall.persists ih.1
    exact ⟨hn', ih.2.trans hp'⟩

/-- Rebinding an object to its interface leaves its mode and its proxy. -/
theorem Kernel.rebound_same (k : Kernel) (g : Iface) :
    (k.rebound g).promiscuous = g.promiscuous ∧ (k.rebound g).proxy = g.proxy := by
  unfold Kernel.rebound
  dsimp only
  split_ifs <;> exact ⟨rfl, rfl⟩

/-- A pass leaves the list as it is. -/
theorem rebindAll_persists (e : Env) (m : Mem) (hn : m.world.net.Sound) :
    (ndIfaceRebindAll e m).world.net.Sound ∧
      m.world.net.Persists (ndIfaceRebindAll e m).world.net := by
  refine ⟨hn.exec e m.store .rebindAll, ?_⟩
  obtain ⟨hifaces, hfresh, hiface⟩ := ndIfaceRebindAll_net e m hn.nodup
  refine ⟨hfresh.ge, fun f _ hf => ?_⟩
  rw [hifaces] at hf
  rw [hiface f hf]
  exact ⟨hf, e.kernel.rebound_name _, e.kernel.rebound_same _⟩

/-- In an event, the objects keep their names. -/
theorem stepMem_persists (hok : e.Ok m.store)
    (hlist : ∀ p, ∀ r ∈ (e.cfg.proxy p).rules, p ∈ e.cfg.proxies) (hc : m.Counted e.cfg)
    (hn : m.world.net.Sound) : (Daemon.stepMem e a m).world.net.Sound ∧
      m.world.net.Persists (Daemon.stepMem e a m).world.net := by
  by_cases ha : a = .rebind
  · subst ha
    exact rebindAll_persists e m hn
  · exact (stepMem_netCalls ha hok hlist hc).persists hn

/-! ## Start-up -/

section Startup

variable {c : Config} {cw : Config × World} {d : Daemon}

/-- The object that was opened is in the list. -/
theorem Net.Takes.mem {n n' : Net} (h : n.Takes f n') : f ∈ n'.ifaces := by
  rcases h with ⟨hf, rfl⟩ | ⟨g, -, -, rfl, rfl⟩
  · exact hf
  · exact List.mem_cons_self

/-- What start-up keeps of the interface objects and memberships. -/
theorem ndProxyStartup_world {I : World → Prop}
    (hopen : ∀ name promiscuous w f w', ndIfaceOpen e (some name) 0 promiscuous w = (some f, w') →
      I w → I w')
    (hbind : ∀ w f p, f ∈ w.net.ifaces → I w →
      I { w with net := w.net.set f { w.net.iface f with proxy := some p } })
    (h₀ : I w) (h : ndProxyStartup e c w = some cw) : I cw.2 := by
  unfold ndProxyStartup at h
  split_ifs at h
  refine foldlM_induction (P := fun _ cw => I cw.2) h h₀ ?_
  intro _ p cw₁ cw₂ _ h₁ h₂
  obtain ⟨f, w', ho, hrules⟩ := openProxy_cases h₂
  refine foldlM_induction (P := fun _ cw => I cw.2) hrules ?_ ?_
  · exact hbind w' f p (takes_of_ndIfaceOpen ho).mem (hopen _ _ _ _ _ ho h₁)
  · intro _ r cw₃ cw₄ _ h₃ h₄
    rcases openRule_cases h₄ with ⟨-, rfl⟩ | ⟨-, g, w', ho, rfl⟩
    · exact h₃
    · exact hopen _ _ _ _ _ ho h₃

/-- After start-up, an object is in the list once, and it may be waiting. -/
theorem Daemon.start_sound (h : start e c = some d) : d.mem.world.net.Sound := by
  obtain ⟨cw, hcw, rfl⟩ := Option.map_eq_some_iff.1 h
  refine ndProxyStartup_world (I := fun w => w.net.Sound) ?_ ?_ (Built.start []).sound hcw
  · intro name promiscuous w f w' ho hn
    have hsound := hn.exec e .empty (.openIface (some name) 0 promiscuous)
    rwa [IfaceOp.exec, ho] at hsound
  · exact fun w f p _ hn => hn.set fun hf => hn.waiting f hf

end Startup

end Ndppd
