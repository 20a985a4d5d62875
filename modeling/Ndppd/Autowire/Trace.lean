import Ndppd.Routes

/-!
# Notes on a run

The log of the daemon has what it asks of the outside. It does not have the calls
of `nd_session_iface_changed`, and a request in it does not say what the interface
of its session was at that moment. Both are noted here, in the order in which they
happen (`Note`), by running the daemon with a list of notes next to its memory
(`Traced`): each loop of the source is run again, and what a call on a session has
asked for is noted right after the call (`Traced.after`).

* The memory is that of the daemon (`Traced.step_mem`).
* Nothing is missed: the requests that are noted are those of the log
  (`Daemon.history_requests`).
-/

namespace Ndppd

open Intrusive Relation

/-- What is noted of a run. -/
inductive Note
  /-- `nd_session_iface_changed` is told that an interface went away. -/
  | lost (f : IfaceId)
  /-- `nd_rt_add_route`, for a session. Its interface at that moment is noted with
      its index. -/
  | added (i : SessionId) (oif : ℕ) (via : Option (IfaceId × ℕ))
  /-- `nd_rt_remove_route`, for a session. -/
  | removed (i : SessionId)
  deriving DecidableEq

/-- The interface of a session, and its index. -/
def Mem.link (m : Mem) (i : SessionId) : Option (IfaceId × ℕ) :=
  ((m.store.session i).bind Session.iface).map fun f => (f, (m.world.net.iface f).index)

/-- The note on a request, in the state right after it. The requests of
    `nd_rt_remove_owned_routes` are for no session. -/
def Mem.note (m : Mem) (en : Entry) : Option Note :=
  match en.act with
  | .addRoute i _ _ oif _ _ => some (.added i oif (m.link i))
  | .removeRoute (some i) _ _ _ _ => some (.removed i)
  | _ => none

/-- The memory of the daemon, and the notes so far, the newest first. -/
@[ext]
structure Traced where
  mem : Mem
  notes : List Note

namespace Traced

/-- After a call, its requests are noted. -/
def after (t : Traced) (m : Mem) : Traced where
  mem := m
  notes := (t.mem.world.requestsSince m.world).filterMap m.note ++ t.notes

/-! ## Loops over the sessions -/

/-- One list of `nd_session_iface_changed`. -/
def changedBucket (e : Env) (f : IfaceId) (up : Bool) (t : Traced)
    (b : Fin ndppdSessionBuckets) : Traced :=
  foreach (fun t => t.mem.store.sessions.next)
    (fun i t => t.after (t.mem.withSession i (ifaceChanged e f up i))) t.mem.store.fresh
    (t.mem.store.sessions.head b) t

/-- `nd_session_iface_changed`. That an interface went away is noted. -/
def changed (e : Env) (f : IfaceId) (up : Bool) (t : Traced) : Traced :=
  (List.finRange ndppdSessionBuckets).foldl (changedBucket e f up)
    { t with notes := if up then t.notes else .lost f :: t.notes }

/-- One list of `nd_session_update_all`. -/
def updateBucket (e : Env) (t : Traced) (b : Fin ndppdSessionBuckets) : Traced :=
  foreachS (fun t => t.mem.store.sessions.next) (fun i t => t.after (ndSessionUpdate e i t.mem))
    t.mem.store.fresh (t.mem.store.sessions.head b)
    ((t.mem.store.sessions.head b).bind t.mem.store.sessions.next) t

/-- `nd_session_update_all`. -/
def updateAll (e : Env) (t : Traced) : Traced :=
  (List.finRange ndppdSessionBuckets).foldl (updateBucket e) t

/-! ## Passes over the interfaces -/

/-- `nd_iface_rebind_all`, for an interface that is absent. -/
def rebindAbsent (e : Env) (i : IfaceId) (t : Traced) : Traced :=
  let f := t.mem.world.net.iface i
  if f.up then
    changed e i false (t.after (t.mem.setIface i { f with up := false, adminUp := false }))
  else t

/-- `nd_iface_rebind_all`, for an interface that is up with the same index. -/
def rebindSame (e : Env) (i : IfaceId) (adminUp : Bool) (t : Traced) : Traced :=
  let f := t.mem.world.net.iface i
  let t := if adminUp != f.adminUp then changed e i adminUp t else t
  t.after (t.mem.setIface i { t.mem.world.net.iface i with adminUp := adminUp })

/-- `nd_iface_rebind_all`, for an interface that appeared with the index `cur`. -/
def rebindNew (e : Env) (i : IfaceId) (cur : ℕ) (adminUp : Bool) (t : Traced) : Traced :=
  let f := t.mem.world.net.iface i
  let accepted := e.kernel.addMembership cur f.promiscuous
  let t := t.after (t.mem.emit e (.addMembership cur f.promiscuous accepted))
  if accepted then
    let t := if f.index ≠ 0 ∧ f.index ≠ cur then
      t.after (t.mem.emit e (.dropMembership f.index f.promiscuous)) else t
    let t := if f.up then changed e i false t else t
    let t := t.after (t.mem.setIface i { t.mem.world.net.iface i with index := cur, up := true })
    let t := if adminUp then changed e i true t else t
    t.after (t.mem.setIface i { t.mem.world.net.iface i with adminUp := adminUp })
  else t

/-- `nd_iface_rebind_all`, for one object. -/
def rebindIface (e : Env) (t : Traced) (i : IfaceId) : Traced :=
  let f := t.mem.world.net.iface i
  let (cur, errno) := e.kernel.ifNametoindex f.name
  if cur = 0 then
    if errno = .ok ∨ errno = .enodev then rebindAbsent e i t else t
  else
    let t := t.after (t.mem.setIface i { f with lladdr := (e.kernel.hwaddr f.name).getD f.lladdr })
    let adminUp := (e.kernel.flags f.name).getD false
    if cur = f.index ∧ f.up then rebindSame e i adminUp t else rebindNew e i cur adminUp t

/-- `nd_iface_rebind_all`. -/
def rebindAll (e : Env) (t : Traced) : Traced :=
  t.mem.world.net.ifaces.foldl (rebindIface e) t

/-! ## Events -/

/-- `nd_rt_remove_owned_routes`. -/
def removeOwnedRoutes (e : Env) (t : Traced) : Traced :=
  e.rt.routes.foldl (fun t route => if route.owned then t.after { t.mem with
    world := (ndRtRemoveRoute e none route.dst route.pflen route.table t.mem.world).2 } else t) t

/-- What an action does. -/
def step (e : Env) (a : Action) (t : Traced) : Traced :=
  match a with
  | .tick => t.updateAll e
  | .rebind => t.rebindAll e
  | .removeOwnedRoutes => t.removeOwnedRoutes e
  | a => t.after (Daemon.stepMem e a t.mem)

end Traced

/-- The notes on a run, the newest first. -/
def Daemon.history (d : Daemon) (es : List Event) : List Note :=
  (es.foldl (fun (x : Daemon × List Note) ev => (x.1.step ev,
    (Traced.step (x.1.env ev) ev.action { mem := x.1.mem, notes := x.2 }).notes)) (d, [])).2

/-! ## The memory -/

namespace Traced

variable {e : Env} {t : Traced} {f : IfaceId} {new : List Entry} {m m' : Mem}

theorem changed_mem (e : Env) (f : IfaceId) (up : Bool) (t : Traced) :
    (t.changed e f up).mem = ndSessionIfaceChanged e f up t.mem := by
  refine (List.foldl_hom Traced.mem fun t b => ?_).symm
  exact (foreach_map Traced.mem (fun m : Mem => m.store.sessions.next)
    (fun _ _ => rfl) _ _ t).symm

theorem updateAll_mem (e : Env) (t : Traced) :
    (t.updateAll e).mem = ndSessionUpdateAll e t.mem := by
  refine (List.foldl_hom Traced.mem fun t b => ?_).symm
  exact (foreachS_map Traced.mem (fun m : Mem => m.store.sessions.next)
    (fun _ _ => rfl) _ _ _ t).symm

theorem rebindAbsent_mem (e : Env) (i : IfaceId) (t : Traced) :
    (t.rebindAbsent e i).mem = Ndppd.rebindAbsent e i t.mem := by
  rw [Traced.rebindAbsent, Ndppd.rebindAbsent, apply_ite Traced.mem, changed_mem]
  rfl

theorem rebindSame_mem (e : Env) (i : IfaceId) (adminUp : Bool) (t : Traced) :
    (t.rebindSame e i adminUp).mem = Ndppd.rebindSame e i adminUp t.mem := by
  simp only [Traced.rebindSame, Ndppd.rebindSame, after, apply_ite Traced.mem, changed_mem]

theorem rebindNew_mem (e : Env) (i : IfaceId) (cur : ℕ) (adminUp : Bool) (t : Traced) :
    (t.rebindNew e i cur adminUp).mem = Ndppd.rebindNew e i cur adminUp t.mem := by
  simp only [Traced.rebindNew, Ndppd.rebindNew, after, apply_ite Traced.mem, changed_mem]

theorem rebindIface_mem (e : Env) (t : Traced) (i : IfaceId) :
    (t.rebindIface e i).mem = Ndppd.rebindIface e t.mem i := by
  simp only [Traced.rebindIface, Ndppd.rebindIface, apply_ite Traced.mem, rebindAbsent_mem,
    rebindSame_mem, rebindNew_mem, after]

theorem rebindAll_mem (e : Env) (t : Traced) :
    (t.rebindAll e).mem = ndIfaceRebindAll e t.mem :=
  (List.foldl_hom Traced.mem fun t i => (rebindIface_mem e t i).symm).symm

theorem removeOwnedRoutes_mem (e : Env) (t : Traced) : (t.removeOwnedRoutes e).mem =
    { t.mem with world := ndRtRemoveOwnedRoutes e t.mem.world } := by
  -- Over any part of the list of routes.
  have hloop : ∀ (l : List Route) (t : Traced), (l.foldl (fun t route => if route.owned then
      t.after { t.mem with
        world := (ndRtRemoveRoute e none route.dst route.pflen route.table t.mem.world).2 }
      else t) t).mem = { t.mem with world := l.foldl (fun w route => if route.owned then
        (ndRtRemoveRoute e none route.dst route.pflen route.table w).2 else w) t.mem.world } := by
    intro l
    induction l with
    | nil => exact fun _ => rfl
    | cons route l ih =>
      intro t
      rw [List.foldl_cons, List.foldl_cons, ih]
      split_ifs <;> rfl
  exact hloop e.rt.routes t

/-- The notes do not change what the daemon does. -/
theorem step_mem (e : Env) (a : Action) (t : Traced) :
    (t.step e a).mem = Daemon.stepMem e a t.mem := by
  cases a with
  | tick => exact updateAll_mem e t
  | rebind => exact rebindAll_mem e t
  | removeOwnedRoutes => exact removeOwnedRoutes_mem e t
  | _ => rfl

end Traced

/-- The daemon after a run, with the notes. -/
def Daemon.traced (d : Daemon) (es : List Event) : Traced where
  mem := (d.run es).mem
  notes := d.history es

theorem Daemon.traced_concat (d : Daemon) (es : List Event) (ev : Event) :
    d.traced (es ++ [ev]) = (d.traced es).step ((d.run es).env ev) ev.action := by
  -- The state the notes are taken from is that of the run.
  have hrun : ∀ es : List Event, (es.foldl (fun (x : Daemon × List Note) ev => (x.1.step ev,
      (Traced.step (x.1.env ev) ev.action { mem := x.1.mem, notes := x.2 }).notes)) (d, [])).1 =
        d.run es :=
    fun es => (List.foldl_hom Prod.fst fun _ _ => rfl).symm
  have hnotes : d.history (es ++ [ev]) =
      ((d.traced es).step ((d.run es).env ev) ev.action).notes := by
    rw [Daemon.history, List.foldl_concat, hrun]
    rfl
  have hmem : (d.run (es ++ [ev])).mem =
      ((d.traced es).step ((d.run es).env ev) ev.action).mem := by
    rw [Traced.step_mem, Daemon.run, List.foldl_concat]
    rfl
  rw [Daemon.traced, hnotes, hmem]

/-! ## Induction over the calls -/

namespace Traced

variable {e : Env} {a : Action} {t : Traced} {m : Mem} {Q : Traced → Prop}

theorem after_notes (t : Traced) (m : Mem) {new : List Entry}
    (h : m.world.requests = new ++ t.mem.world.requests) :
    (t.after m).notes = new.filterMap m.note ++ t.notes := by
  rw [after, World.requestsSince_eq h]

theorem after_notes_cons (t : Traced) (m : Mem) {en : Entry}
    (h : m.world.requests = en :: t.mem.world.requests) :
    (t.after m).notes = (m.note en).toList ++ t.notes := by
  have hcons : m.world.requests = [en] ++ t.mem.world.requests := h
  rw [after_notes t m hcons]
  cases hn : m.note en with
  | none => rw [List.filterMap_cons_none hn, List.filterMap_nil, Option.toList_none]
  | some n => rw [List.filterMap_cons_some hn, List.filterMap_nil, Option.toList_some]

/-- Where nothing is asked for, nothing is noted. -/
theorem after_notes_of_eq (h : m.world.requests = t.mem.world.requests) :
    (t.after m).notes = t.notes := by
  have hnone : m.world.requests = [] ++ t.mem.world.requests := h
  rw [after_notes t m hnone, List.filterMap_nil, List.nil_append]

@[simp] theorem after_self (t : Traced) : t.after t.mem = t :=
  Traced.ext rfl (after_notes_of_eq rfl)

/-- `Q` is kept by the calls of the action `a`: those on a session or on something
    outside of the sessions, and those that say that an interface went away. -/
structure KeptBy (e : Env) (a : Action) (Q : Traced → Prop) : Prop where
  move : ∀ t m, e.Ok t.mem.store → Move e a t.mem m → Q t → Q (t.after m)
  lost : ∀ t f, a = .rebind → Q t → Q { t with notes := .lost f :: t.notes }

/-- The store is well formed, and `Q` holds. -/
def Holds (e : Env) (Q : Traced → Prop) (t : Traced) : Prop := e.Ok t.mem.store ∧ Q t

namespace KeptBy

theorem moveGen (h : KeptBy e a Q) (hm : ReflGen (Move e a) t.mem m)
    (ht : Holds e Q t) : Holds e Q (t.after m) := by
  cases hm with
  | refl => rwa [after_self]
  | single hm => exact ⟨hm.ok ht.1, h.move t m ht.1 hm ht.2⟩

theorem changed (h : KeptBy e .rebind Q) (f : IfaceId) (up : Bool) (ht : Holds e Q t) :
    Holds e Q (t.changed e f up) := by
  refine List.foldlRecOn (motive := Holds e Q) _ _ ?_ fun t ht b _ => ?_
  · cases up with
    | true => exact ht
    | false => exact ⟨ht.1, h.lost t f rfl ht.2⟩
  · exact foreach_invariant (I := Holds e Q)
      (fun i t ht => h.moveGen (move_ifaceChanged ht.1 f up i) ht) _ _ ht

theorem updateAll (h : KeptBy e .tick Q) (ht : Holds e Q t) : Holds e Q (t.updateAll e) := by
  refine List.foldlRecOn (motive := Holds e Q) _ _ ht fun t ht b _ => ?_
  exact foreachS_invariant (I := Holds e Q)
    (fun i t ht => h.moveGen (move_update ht.1 i) ht) _ _ _ ht

theorem ite {p : Prop} [Decidable p] {t' : Traced} (ht : Holds e Q t)
    (ht' : Holds e Q t → Holds e Q t') : Holds e Q (if p then t' else t) := by
  split_ifs
  exacts [ht' ht, ht]

theorem setIface (h : KeptBy e .rebind Q) (f : IfaceId) {g : Iface}
    (hg : (t.mem.world.net.iface f).SameObject g) (ht : Holds e Q t) :
    Holds e Q (t.after (t.mem.setIface f g)) :=
  h.moveGen (.single (.world _ (.rebound f g hg))) ht

theorem rebindNew (h : KeptBy e .rebind Q) (f : IfaceId) (cur : ℕ) (adminUp : Bool)
    (ht : Holds e Q t) : Holds e Q (t.rebindNew e f cur adminUp) := by
  have hjoin := h.moveGen (.single (.world _ (.joined cur (t.mem.world.net.iface f).promiscuous
    (e.kernel.addMembership cur (t.mem.world.net.iface f).promiscuous)))) ht
  unfold Traced.rebindNew
  dsimp only
  split
  · -- The steps of the function, from the last one to the first one.
    refine h.setIface f ⟨rfl, rfl, rfl, rfl⟩ (ite ?_ fun ht => h.changed f true ht)
    refine h.setIface f ⟨rfl, rfl, rfl, rfl⟩ (ite ?_ fun ht => h.changed f false ht)
    exact ite hjoin fun ht => h.moveGen (.single (.world _ (.left ..))) ht
  · exact hjoin

theorem rebindIface (h : KeptBy e .rebind Q) (f : IfaceId) (ht : Holds e Q t) :
    Holds e Q (t.rebindIface e f) := by
  unfold Traced.rebindIface
  dsimp only
  split_ifs
  · exact ite ht fun ht => h.changed f false (h.setIface f ⟨rfl, rfl, rfl, rfl⟩ ht)
  · exact ht
  · exact h.setIface f ⟨rfl, rfl, rfl, rfl⟩ (ite (h.setIface f ⟨rfl, rfl, rfl, rfl⟩ ht)
      fun ht => h.changed f _ ht)
  · exact h.rebindNew f _ _ (h.setIface f ⟨rfl, rfl, rfl, rfl⟩ ht)

theorem removeOwnedRoutes (h : KeptBy e .removeOwnedRoutes Q) (ht : Holds e Q t) :
    Holds e Q (t.removeOwnedRoutes e) := by
  refine List.foldlRecOn (motive := Holds e Q) _ _ ht fun t ht route hroute => ?_
  split_ifs with ho
  · exact h.moveGen (.single (.world _ (.purged route hroute ho))) ht
  · exact ht

/-- What the calls of an action keep holds after it. -/
theorem step (h : KeptBy e a Q) (hok : e.Ok t.mem.store) (ht : Q t) : Q (t.step e a) := by
  cases a with
  | tick => exact (h.updateAll ⟨hok, ht⟩).2
  | rebind =>
    exact (List.foldlRecOn (motive := Holds e Q) _ _ ⟨hok, ht⟩ fun t ht f _ => h.rebindIface f ht).2
  | removeOwnedRoutes => exact (h.removeOwnedRoutes ⟨hok, ht⟩).2
  | _ => exact (h.moveGen (stepMem_move hok id) ⟨hok, ht⟩).2

end KeptBy

end Traced

/-! ## The requests of the log -/

/-- The session a request is for, and the index of the interface if a route is added. -/
def Entry.request (en : Entry) : Option (SessionId × Option ℕ) :=
  match en.act with
  | .addRoute i _ _ oif _ _ => some (i, some oif)
  | .removeRoute (some i) _ _ _ _ => some (i, none)
  | _ => none

/-- The request that is noted. -/
def Note.request : Note → Option (SessionId × Option ℕ)
  | .lost _ => none
  | .added i oif _ => some (i, some oif)
  | .removed i => some (i, none)

theorem Mem.note_request (m : Mem) (en : Entry) : (m.note en).bind Note.request = en.request := by
  unfold Mem.note Entry.request
  split <;> rfl

theorem Move.requests {e : Env} {a : Action} {m m' : Mem} (h : Move e a m m') :
    ∃ new, m'.world.requests = new ++ m.world.requests := by
  cases h with
  | session i o o' st' w' _ hc _ => exact hc.requests
  | world w' he =>
    cases he with
    | ignored hsol => exact ⟨[], hsol.requests_eq⟩
    | rebound => exact ⟨[], rfl⟩
    | joined => exact ⟨[], emit_requests _ e rfl⟩
    | left => exact ⟨[], emit_requests _ e rfl⟩
    | purged => exact ⟨[_], rfl⟩

/-- The requests that are noted are those made since `w`. -/
def Traced.Complete (w : World) (t : Traced) : Prop :=
  ∃ new, t.mem.world.requests = new ++ w.requests ∧
    t.notes.filterMap Note.request = new.filterMap Entry.request

theorem Traced.complete_keptBy (e : Env) (a : Action) (w : World) : KeptBy e a (Complete w) where
  move t m _ hm := by
    rintro ⟨new, hreq, hnotes⟩
    obtain ⟨new', hreq'⟩ := hm.requests
    refine ⟨new' ++ new, hreq'.trans ?_, ?_⟩
    · rw [hreq, List.append_assoc]
    · rw [after_notes t m hreq', List.filterMap_append, List.filterMap_append, hnotes,
        List.filterMap_filterMap]
      exact congrArg (· ++ _) (List.filterMap_congr fun en _ => m.note_request en)
  lost _ _ _ h := h

/-- The requests that are noted in a run are those of the log. -/
theorem Daemon.history_requests (conf : Conf) (cfg : Config) (w : World) (es : List Event) :
    ((init conf cfg w).history es).filterMap Note.request =
      (w.requestsSince ((init conf cfg w).run es).mem.world).filterMap Entry.request := by
  have hrun : ((init conf cfg w).traced es).Complete w := by
    induction es using List.reverseRecOn with
    | nil => exact ⟨[], rfl, rfl⟩
    | append_singleton es ev ih =>
      rw [traced_concat]
      exact (Traced.complete_keptBy _ _ w).step (run_ok conf cfg w es ev) ih
  obtain ⟨new, hreq, hnotes⟩ := hrun
  exact hnotes.trans (congrArg _ (World.requestsSince_eq hreq).symm)

end Ndppd
