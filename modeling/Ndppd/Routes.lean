import Ndppd.Daemon.Links
import Ndppd.Lib.Journal

/-!
# The routes of the kernel

The daemon together with the routes of the kernel it runs on (`Host`). The kernel
has at most one route for a destination and a table, via some interface. It is
changed by the requests of the daemon which are accepted, and it loses the routes
of an interface that is deleted or goes down; which of them it has lost is
remembered (`Slot.flushed`), for the statements only.

A session which is *autowired* relies on a route to its target. `Host.Wired` says
that these routes are there, and `Host.Spares` which events do no harm to them, from
the state before the event and the answers of the kernel. The second part is about
the requests made by the transitions of a session: a session that is autowired was so
before, or its route has just been asked for (`Change.autowired`).
-/

namespace Ndppd

open Journal

/-! ## Requests -/

/-- The act is a request about a route. -/
def Act.isRequest : Act → Bool
  | .addRoute .. | .removeRoute .. => true
  | _ => false

/-- The requests in the log, the newest first. -/
def World.requests (w : World) : List Entry := w.log.filter fun en => en.act.isRequest

/-- The requests that were made since `w`. -/
def World.requestsSince (w w' : World) : List Entry :=
  w'.requests.take (w'.requests.length - w.requests.length)

theorem World.requestsSince_eq {w w' : World} {new : List Entry}
    (h : w'.requests = new ++ w.requests) : w.requestsSince w' = new := by
  rw [World.requestsSince, h, List.length_append, Nat.add_sub_cancel, List.take_left]

/-! ## The kernel -/

/-- What the kernel has for a key: nothing, a route via an interface, or nothing
    because it has lost the route with its interface. -/
inductive Slot
  | absent
  | via (oif : ℕ)
  | flushed
  deriving DecidableEq

/-- The routes of the kernel. -/
abbrev Fib := RouteKey → Slot

/-- What a request changes, if it is accepted. -/
def Entry.write (en : Entry) : Option (RouteKey × Slot) :=
  match en.act with
  | .addRoute _ dst pflen oif table true => some (⟨dst, pflen, table⟩, .via oif)
  | .removeRoute _ dst pflen table true => some (⟨dst, pflen, table⟩, .absent)
  | _ => none

/-- The interface with this index is deleted, or goes down. -/
def Fib.flush (fib : Fib) (index : ℕ) : Fib := fun k =>
  if fib k = .via index then .flushed else fib k

/-- The daemon, and the kernel's routes. -/
structure Host where
  daemon : Daemon
  fib : Fib

/-- What happens on the host. -/
inductive HostEvent
  | daemon (ev : Event)
  | flush (index : ℕ)

namespace Host

/-- The state after an event. -/
def step (h : Host) : HostEvent → Host
  | .daemon ev =>
    { daemon := h.daemon.step ev
      fib := replay Entry.write
        (h.daemon.mem.world.requestsSince (h.daemon.step ev).mem.world) h.fib }
  | .flush index => { h with fib := h.fib.flush index }

/-- The state after a run. -/
def run (h : Host) (xs : List HostEvent) : Host := xs.foldl step h

/-- The route a session relies on when it is autowired. -/
def key (h : Host) (s : Session) : RouteKey := ⟨s.tgt, 128, (h.daemon.cfg.rule s.rule).table⟩

/-- The index of an interface object. -/
def index (h : Host) (f : IfaceId) : ℕ := (h.daemon.mem.world.net.iface f).index

/-- The routes of the autowired sessions are there, via their interfaces. -/
def Wired (h : Host) : Prop :=
  ∀ i s, h.daemon.mem.store.session i = some s → s.autowired = true →
    ∃ f, s.iface = some f ∧ h.fib (h.key s) = .via (h.index f)

end Host

/-! ## Passes over the interfaces -/

/-- The queries about this object succeed: its name is looked up, and if it is
    there, so are its address and flags; a membership it needs is granted. -/
def Kernel.Succeeds (k : Kernel) (g : Iface) : Prop :=
  let (cur, errno) := k.ifNametoindex g.name
  if cur = 0 then errno ≠ .other
  else (k.hwaddr g.name).isSome ∧ (k.flags g.name).isSome ∧
    (¬(cur = g.index ∧ g.up) → k.addMembership cur g.promiscuous)

/-- The event is a pass over the interfaces whose queries all succeed. -/
def Daemon.Completes (d : Daemon) (ev : Event) : Prop :=
  ev.action = .rebind ∧
    ∀ f ∈ d.mem.world.net.ifaces, ev.kernel.Succeeds (d.mem.world.net.iface f)

/-- A pass sees that an interface which was up has lost its routes: it is absent,
    or down while the last pass found it up, or it has another index. -/
def Kernel.Notices (k : Kernel) (g : Iface) : Prop :=
  let (cur, errno) := k.ifNametoindex g.name
  if cur = 0 then errno = .ok ∨ errno = .enodev
  else if cur = g.index then (k.flags g.name).getD false = false ∧ g.adminUp
  else k.addMembership cur g.promiscuous

/-! ## The condition -/

/-- The index via which routes may be asked for on the interface `f`: the event is an
    advertisement on it, and it is up, or a pass, and the kernel has it. -/
def Daemon.askIndex (d : Daemon) (ev : Event) (f : IfaceId) : Option ℕ :=
  match ev.action with
  | .rxNa g _ =>
    if g = f ∧ (d.mem.world.net.iface f).up then some (d.mem.world.net.iface f).index else none
  | .rebind =>
    let cur := (ev.kernel.ifNametoindex (d.mem.world.net.iface f).name).1
    if cur ≠ 0 then some cur else none
  | _ => none

/-- A tick deletes the session at this time. -/
def Session.Expires (s : Session) (conf : Conf) (now : ℤ) : Prop :=
  s.state = .invalid ∧ conf.invalidTtl ≤ now - s.stateTime

namespace Host

/-- The session `s` is there, and autowired on the interface `f`. -/
def Autowired (h : Host) (s : Session) (f : IfaceId) : Prop :=
  (∃ i, h.daemon.mem.store.session i = some s) ∧ s.autowired = true ∧ s.iface = some f

/-- The session `s` is there, on the interface `f`, and its rule says that it is to be autowired. -/
def Wirable (h : Host) (s : Session) (f : IfaceId) : Prop :=
  (∃ i, h.daemon.mem.store.session i = some s) ∧ s.iface = some f ∧
    (h.daemon.cfg.rule s.rule).autowire = true

/-- In this state, the event and the answers of the kernel do no harm to the routes of the
    autowired sessions. -/
structure Spares (h : Host) (ev : Event) : Prop where
  /-- The kernel accepts the routes that may be asked for. -/
  granted : ∀ s f n, h.Wirable s f → h.daemon.askIndex ev f = some n →
    ev.kernel.addRoute s.tgt 128 n (h.key s).table = true
  /-- Those who may ask for the same route do so via the same interface. -/
  agreed : ∀ s t f g n, h.Wirable s f → h.Wirable t g → h.key s = h.key t →
    h.daemon.askIndex ev f = some n → f = g
  /-- A session that is deleted does not take away the route of one that is not. -/
  kept : ev.action = .tick → ∀ s t f g, h.Autowired s f → h.Autowired t g → h.key s = h.key t →
    s.Expires h.daemon.conf ev.time →
    ev.kernel.removeRoute s.tgt 128 (h.key s).table = true → t.Expires h.daemon.conf ev.time
  /-- The routes that are left from an earlier run are not those of the sessions. -/
  unowned : ev.action = .removeOwnedRoutes → ∀ route ∈ h.daemon.rt.routes, route.owned = true →
    ev.kernel.removeRoute route.dst route.pflen route.table = true →
    ∀ s f, h.Autowired s f → h.key s ≠ ⟨route.dst, route.pflen, route.table⟩
  /-- A pass sees the interfaces of the sessions whose routes the kernel has lost. -/
  noticed : h.daemon.Completes ev → ∀ s f, h.Autowired s f → h.fib (h.key s) = .flushed →
    ev.kernel.Notices (h.daemon.mem.world.net.iface f)

/-- The event meets the condition. -/
def Meets (h : Host) : HostEvent → Prop
  | .daemon ev => h.Spares ev
  | .flush _ => True

/-- All events of the run meet the condition. -/
def RunMeets : Host → List HostEvent → Prop
  | _, [] => True
  | h, x :: xs => h.Meets x ∧ (h.step x).RunMeets xs

end Host

/-! ## The requests of a transition -/

/-- The request of `ndL_up` for a session, via an interface with this index. -/
abbrev Env.addRouteAct (e : Env) (i : SessionId) (s : Session) (oif : ℕ) : Act :=
  .addRoute i s.tgt 128 oif (e.ruleOf s).table
    (e.kernel.addRoute s.tgt 128 oif (e.ruleOf s).table)

/-- The request of `ndL_down` for a session. -/
abbrev Env.removeRouteAct (e : Env) (i : SessionId) (s : Session) : Act :=
  .removeRoute (some i) s.tgt 128 (e.ruleOf s).table
    (e.kernel.removeRoute s.tgt 128 (e.ruleOf s).table)

variable {e : Env} {i : SessionId} {src : Addr} {srcLl : Option LlAddr} {s s' : Session}
  {w w' : World} {a : Action}

theorem Act.isRequest_of_isMembership {a : Act} (h : a.isMembership = true) :
    a.isRequest = false := by
  cases a <;> first | rfl | exact absurd h (by simp [Act.isMembership])

/-- Nothing but requests changes the requests. -/
theorem World.Grows.requests (h : w.Grows (fun a => a.isRequest = false) w') :
    w'.requests = w.requests :=
  h.filter_eq fun _ => id

theorem openRoute_requests {rule : Rule} {tgt : Addr} {o : Option IfaceId}
    (h : openRoute e rule tgt w = (o, w')) : w'.requests = w.requests := by
  have hgrows := openRoute_grows e rule tgt w
  rw [h] at hgrows
  exact (hgrows.mono fun _ => Act.isRequest_of_isMembership).requests

theorem emit_requests (w : World) (e : Env) {a : Act} (ha : a.isRequest = false) :
    (w.emit e a).requests = w.requests :=
  World.Grows.requests (.of_cons rfl ha)

theorem answerNs_requests (e : Env) (i : SessionId) (src : Addr) (srcLl : Option LlAddr)
    (s : Session) (w : World) : (answerNs e i src srcLl s w).requests = w.requests := by
  unfold answerNs
  cases srcLl with
  | none => exact emit_requests w e rfl
  | some ll =>
    dsimp only
    split_ifs
    · exact emit_requests w e rfl
    · exact emit_requests w e rfl

theorem sendSubs_requests (e : Env) (i : SessionId) (s : Session) (w : World) :
    (sendSubs e i s w).requests = w.requests :=
  List.foldlRecOn (motive := fun w' : World => w'.requests = w.requests) _ _ rfl
    fun w' h _ _ => (emit_requests w' e rfl).trans h

theorem Solicits.requests_eq {p : ProxyId} {tgt : Addr} {w₀ : World}
    (h : Solicits e w a p src tgt srcLl w₀) : w₀.requests = w.requests := by
  cases h with
  | direct => rfl
  | received => exact emit_requests w e rfl

theorem NsCase.requests_eq (h : NsCase e i src srcLl s w s' w') : w'.requests = w.requests := by
  cases h with
  | answered => exact answerNs_requests ..
  | dropped => rfl
  | queued _ _ _ _ _ _ hw =>
    rcases hw with rfl | hw
    · rfl
    · exact openRoute_requests hw
  | resumed _ _ _ w₁ _ _ _ _ _ ho => exact (emit_requests w₁ e rfl).trans (openRoute_requests ho)
  | probed => exact emit_requests w e rfl

theorem StartCase.requests_eq (h : StartCase e i s w s' w') : w'.requests = w.requests := by
  cases h with
  | unrouted _ _ ho => exact openRoute_requests ho
  | routed _ w₁ _ ho => exact (emit_requests w₁ e rfl).trans (openRoute_requests ho)
  | own => rfl
  | probed => exact emit_requests _ e rfl
  | static => rfl
  | stuck => rfl

theorem UpdateCase.requests_eq (h : UpdateCase e i s w (some s') w') :
    w'.requests = w.requests := by
  cases h with
  | retransmitted => exact emit_requests w e rfl
  | staleProbed => exact emit_requests w e rfl
  | reprobed => exact emit_requests w e rfl
  | _ => rfl

/-- A session that is deleted asks for the removal of its route, if it is autowired. -/
theorem UpdateCase.requests_deleted (h : UpdateCase e i s w none w') :
    w'.requests = (if s.iface.isSome && s.autowired then [⟨e.now, e.removeRouteAct i s⟩] else []) ++
      w.requests := by
  cases h with
  | deleted =>
    have hclose : (s.iface.elim (ndLDown e i s w).2
        fun f => ndIfaceClose e f (ndLDown e i s w).2).requests = (ndLDown e i s w).2.requests := by
      cases s.iface with
      | none => rfl
      | some f =>
        exact ((ndIfaceClose_grows e f _).mono fun _ => Act.isRequest_of_isMembership).requests
    rw [hclose]
    unfold ndLDown
    split_ifs
    · rfl
    · rfl

/-- `ndLUp` does nothing, or it asks for the route of the session, which is
    autowired from then on. -/
theorem ndLUp_cases (e : Env) (i : SessionId) (s : Session) (w : World) :
    (ndLUp e i s w = (s, w) ∧ ∀ f, s.iface = some f → (w.net.iface f).up = true →
      (e.ruleOf s).autowire = true → s.autowired = true) ∨
    ∃ f, s.iface = some f ∧ (w.net.iface f).up = true ∧ s.autowired = false ∧
      (e.ruleOf s).autowire = true ∧ ndLUp e i s w = ({ s with autowired := true },
        w.emit e (e.addRouteAct i s (w.net.iface f).index)) := by
  unfold ndLUp
  cases s.iface with
  | none => exact .inl ⟨rfl, fun _ hf => absurd hf (by simp)⟩
  | some f =>
    dsimp only
    split_ifs with h
    · simp only [Bool.and_eq_true, Bool.not_eq_true'] at h
      exact .inr ⟨f, rfl, h.1.1, h.1.2, h.2, rfl⟩
    · refine .inl ⟨rfl, fun g hg hup hrule => ?_⟩
      obtain rfl : f = g := Option.some.inj hg
      simpa [hup, hrule] using h

/-- The route of the session `s` has just been asked for, via its interface. -/
def Wires (e : Env) (i : SessionId) (s : Session) (w w' : World) : Prop :=
  ∃ f accepted, s.iface = some f ∧ (w.net.iface f).up = true ∧ w'.requests =
    ⟨e.now, .addRoute i s.tgt 128 (w.net.iface f).index (e.ruleOf s).table accepted⟩ :: w.requests

theorem wires_of_ndLUp (h : (ndLUp e i s w).1.autowired = true) :
    (s.autowired = true ∧ ndLUp e i s w = (s, w)) ∨
      Wires e i (ndLUp e i s w).1 w (ndLUp e i s w).2 := by
  rcases ndLUp_cases e i s w with ⟨hup, -⟩ | ⟨f, hf, hlink, -, -, hup⟩
  · rw [hup] at h
    exact .inl ⟨h, hup⟩
  · rw [hup]
    exact .inr ⟨f, _, hf, hlink, rfl⟩

theorem NaCase.autowired (h : NaCase e i s w s' w') (hs' : s'.autowired = true) :
    (s.autowired = true ∧ w'.requests = w.requests) ∨ Wires e i s' w w' := by
  cases h with
  | refreshed => exact .inl ⟨hs', rfl⟩
  | validated b w' _ hup =>
    have hwires := wires_of_ndLUp (e := e) (i := i) (s := { s with subs := [] })
      (w := sendSubs e i s w)
    rw [hup] at hwires
    rcases hwires hs' with ⟨hs, heq⟩ | ⟨f, accepted, hf, hlink, hreq⟩
    · obtain rfl : w' = sendSubs e i s w := (Prod.ext_iff.1 heq).2
      exact .inl ⟨hs, sendSubs_requests ..⟩
    · rw [sendSubs_requests, sendSubs_net] at hreq
      rw [sendSubs_net] at hlink
      exact .inr ⟨f, accepted, hf, hlink, hreq⟩

theorem NsCase.autowired_eq (h : NsCase e i src srcLl s w s' w') : s'.autowired = s.autowired := by
  cases h <;> rfl

theorem StartCase.autowired_eq (h : StartCase e i s w s' w') : s'.autowired = s.autowired := by
  cases h <;> rfl

theorem UpdateCase.autowired_eq (h : UpdateCase e i s w (some s') w') :
    s'.autowired = s.autowired := by
  cases h <;> rfl

/-- A session that is autowired after a change was so before, on the same
    interface, or its route has just been asked for. -/
theorem Change.autowired {o : Option Session} (h : Change e i w a o (some s') w')
    (ho : ∀ s, o = some s → s.autowired = true → s.iface ≠ none) (hs' : s'.autowired = true) :
    (∃ s, o = some s ∧ s.autowired = true ∧ s'.iface = s.iface ∧ s.SameKey s') ∨
      w'.net = w.net ∧ Wires e i s' w w' := by
  cases h with
  | created _ _ hstart hns =>
    -- A new session is not autowired.
    rw [hns.autowired_eq, hstart.autowired_eq] at hs'
    exact absurd hs' (by simp [newSession])
  | @solicited _ _ _ s _ _ _ hsol hns =>
    rw [hns.autowired_eq] at hs'
    rcases hns.net_cases with ⟨hf, -⟩ | ⟨hf, -⟩
    · exact .inl ⟨s, rfl, hs', hf, hns.sameKey⟩
    · exact absurd hf (ho s rfl hs')
  | @advertised _ _ s _ _ _ _ hna =>
    rcases hna.autowired hs' with ⟨hs, -⟩ | hwires
    · exact .inl ⟨s, rfl, hs, hna.iface, hna.sameKey⟩
    · exact .inr ⟨hna.net_eq, hwires⟩
  | @updated s _ _ hu =>
    rw [hu.autowired_eq] at hs'
    exact .inl ⟨s, rfl, hs', hu.net_eq.1, hu.sameKey⟩
  | forgotten => exact absurd hs' (by simp)
  | @rewired s =>
    rcases wires_of_ndLUp hs' with ⟨hs, hup⟩ | hwires
    · rw [hup]
      exact .inl ⟨s, rfl, hs, rfl, .refl s⟩
    · exact .inr ⟨ndLUp_net .., hwires⟩

theorem ndLUp_autowire (h : (ndLUp e i s w).1.autowired = true)
    (hs : s.autowired = true → (e.ruleOf s).autowire = true) : (e.ruleOf s).autowire = true := by
  rcases ndLUp_cases e i s w with ⟨hup, -⟩ | ⟨f, -, -, -, hwire, -⟩
  · rw [hup] at h
    exact hs h
  · exact hwire

/-- A session is autowired by its rule. -/
theorem Change.autowire {o : Option Session} (h : Change e i w a o (some s') w')
    (ho : ∀ s, o = some s → s.autowired = true → (e.cfg.rule s.rule).autowire = true)
    (hs' : s'.autowired = true) : (e.cfg.rule s'.rule).autowire = true := by
  cases h with
  | created _ _ hstart hns =>
    rw [hns.autowired_eq, hstart.autowired_eq] at hs'
    exact absurd hs' (by simp [newSession])
  | @solicited _ _ _ s _ _ _ _ hns =>
    rw [hns.autowired_eq] at hs'
    rw [hns.sameKey.rule]
    exact ho s rfl hs'
  | @advertised _ _ s _ _ _ _ hna =>
    cases hna with
    | refreshed => exact ho s rfl hs'
    | validated b w' _ hup =>
      have h := ndLUp_autowire (e := e) (i := i) (s := { s with subs := [] })
        (w := sendSubs e i s w)
      rw [hup] at h
      exact h hs' (ho s rfl)
  | @updated s _ _ hu =>
    rw [hu.autowired_eq] at hs'
    rw [hu.sameKey.rule]
    exact ho s rfl hs'
  | forgotten => exact absurd hs' (by simp)
  | @rewired s =>
    have h := ndLUp_autowire hs' (ho s rfl)
    obtain ⟨b, hb⟩ := ndLUp_fst e i s w
    rw [hb]
    exact h

/-- A change adds some requests to the log. -/
theorem Change.requests {o o' : Option Session} (h : Change e i w a o o' w') :
    ∃ new, w'.requests = new ++ w.requests := by
  have hup : ∀ s w, ∃ new, (ndLUp e i s w).2.requests = new ++ w.requests := by
    intro s w
    rcases ndLUp_cases e i s w with ⟨hup, -⟩ | ⟨f, -, -, -, -, hup⟩
    · exact ⟨[], by rw [hup]; rfl⟩
    · exact ⟨[_], by rw [hup]; rfl⟩
  cases h with
  | created hsol _ hstart hns =>
    exact ⟨[], (hns.requests_eq.trans hstart.requests_eq).trans hsol.requests_eq⟩
  | solicited hsol hns => exact ⟨[], hns.requests_eq.trans hsol.requests_eq⟩
  | @advertised _ _ s _ _ _ _ hna =>
    cases hna with
    | refreshed => exact ⟨[], rfl⟩
    | validated _ _ _ h =>
      obtain ⟨new, hnew⟩ := hup { s with subs := [] } (sendSubs e i s w)
      rw [h, sendSubs_requests] at hnew
      exact ⟨new, hnew⟩
  | updated hu => exact ⟨[], hu.requests_eq⟩
  | deleted hu => exact ⟨_, hu.requests_deleted⟩
  | forgotten => exact ⟨[], rfl⟩
  | rewired => exact hup _ _

end Ndppd
