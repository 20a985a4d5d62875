import Ndppd.Netlink.Datagrams

/-!
# Routes from datagrams

The routes that the daemon knows, after any number of datagrams in the format of the kernel. The
kernel has routes with a destination and an interface, and announces each one that it adds or
removes by a message (`Announcement`). Then a route is found iff the kernel has one, and is one of
the longest (`receive_exact`), as long as no route of the table is removed while the kernel has
another one with its key.

Routes of the kernel that are not of this kind are not counted: a default route has no destination
in its message, and one with several next hops no interface. One that takes the place of another
is announced, but the other one is not, so that the messages are not honest.
-/

namespace Ndppd

open Framing Guarded Report

variable {bo : ByteOrder}

/-! ## What the calls do -/

/-- The call, as an event of the transition system. -/
def RtCall.action : RtCall → Option Action
  | .newRoute route => some (.newRoute route)
  | .deleteRoute route => some (.deleteRoute route)
  | .newAddr addr => some (.newAddr addr)
  | .deleteAddr addr => some (.deleteAddr addr)
  | .rebindAll => some .rebind
  | .dumpDone => none
  | .logError _ _ => none

/-- What the calls do to the routes and addresses. -/
def Rt.handle (bo : ByteOrder) (rt : Rt) (calls : List RtCall) : Rt :=
  (calls.filterMap RtCall.action).foldl (fun rt a => Daemon.stepRt bo a rt) rt

/-- `ndL_io_handler`, for a datagram: the calls it makes. The loops have a round for each byte. -/
def callsOf (bo : ByteOrder) (d : (ℕ → U8) × ℕ) : List RtCall :=
  (ndLIoHandlerNl bo d.1 (d.2 + 1) d.2).val.toOption.getD []

/-- The routes and addresses after a datagram. -/
def receive (bo : ByteOrder) (rt : Rt) (d : (ℕ → U8) × ℕ) : Rt := rt.handle bo (callsOf bo d)

/-! ## Messages -/

/-- The messages of a datagram that are looked at. -/
def upToDone : List (NlMessage bo) → List (NlMessage bo)
  | [] => []
  | m :: ms => if m.notice.isDone then [m] else m :: upToDone ms

theorem scan_calls (ms : List (NlMessage bo)) (calls : List RtCall) :
    scan (fun calls m => (calls ++ m.notice.call.toList, m.notice.isDone)) ms calls =
      calls ++ (upToDone ms).filterMap fun m => m.notice.call := by
  induction ms generalizing calls with
  | nil => simp [scan, upToDone]
  | cons m ms ih =>
    have hcons (l : List (NlMessage bo)) : (m :: l).filterMap (fun m => m.notice.call) =
        m.notice.call.toList ++ l.filterMap fun m => m.notice.call := by
      cases hc : m.notice.call with
      | none => rw [List.filterMap_cons_none (f := fun m : NlMessage bo => m.notice.call) hc]; rfl
      | some c => rw [List.filterMap_cons_some (f := fun m : NlMessage bo => m.notice.call) hc]; rfl
    rw [scan, upToDone]
    cases m.notice.isDone with
    | true => simp [hcons]
    | false =>
      rw [if_neg Bool.false_ne_true, if_neg Bool.false_ne_true, ih, hcons, List.append_assoc]

theorem datagramCalls_eq (ms : List (NlMessage bo)) :
    datagramCalls ms = (upToDone ms).filterMap fun m => m.notice.call :=
  (scan_calls ms []).trans (List.nil_append _)

theorem upToDone_eq_self {ms : List (NlMessage bo)}
    (h : ∀ m ∈ ms.dropLast, m.notice.isDone = false) : upToDone ms = ms := by
  induction ms with
  | nil => rfl
  | cons m ms ih =>
    rw [upToDone]
    cases ms with
    | nil => exact ite_self _
    | cons m' ms =>
      rw [List.dropLast_cons_of_ne_nil (List.cons_ne_nil m' ms), List.forall_mem_cons] at h
      rw [h.1, if_neg Bool.false_ne_true, ih h.2]

/-- A message on a route, and whether the route is new. -/
def Notice.rtMsg : Notice bo → Option (Bool × RtMsg)
  | .route new msg attrs _ _ => some (new, msg.rtMsg bo attrs)
  | _ => none

/-- What a message does to the table. -/
def Notice.handleRoute (x : Notice bo) (routes : List Route) : List Route :=
  x.rtMsg.elim routes fun m =>
    if m.1 then ndLHandleNewroute bo m.2 routes else ndLHandleDelroute bo m.2 routes

theorem Notice.stepRt_routes (x : Notice bo) (rt : Rt) :
    ((x.call.bind RtCall.action).elim rt fun a => Daemon.stepRt bo a rt).routes =
      x.handleRoute rt.routes := by
  cases x with
  | done => rfl
  | error => rfl
  | route new msg attrs =>
    cases new with
    | true =>
      have hprotocol : (msg.rtMsg bo attrs).protocol = msg.protocol := rfl
      rw [Notice.call, handleRoute, rtMsg, Option.elim_some, if_pos rfl, ndLHandleNewroute,
        hprotocol]
      cases (msg.rtMsg bo attrs).route (msg.protocol == rtprotNdppd) <;> rfl
    | false =>
      rw [Notice.call, handleRoute, rtMsg, Option.elim_some, if_neg Bool.false_ne_true,
        ndLHandleDelroute]
      cases (msg.rtMsg bo attrs).route false <;> rfl
  | addr new msg attrs =>
    cases new <;>
    · rw [Notice.call]
      cases (msg.ifaMsg attrs).rtAddr <;> rfl
  | link => rfl
  | other => rfl

/-! ## Announcements -/

/-- What the kernel has done to its routes, and the message it sends then. -/
inductive Announcement (bo : ByteOrder)
  | added (r : LiveRoute) (m : NlMessage bo)
  | removed (r : LiveRoute) (m : NlMessage bo)
  | other (m : NlMessage bo)

namespace Announcement

def message : Announcement bo → NlMessage bo
  | added _ m => m
  | removed _ m => m
  | other m => m

/-- The routes of the kernel. -/
def live (s : Finset LiveRoute) : Announcement bo → Finset LiveRoute
  | added r _ => insert r s
  | removed r _ => s.erase r
  | other _ => s

/-- The message has the route that has been added or removed: its destination, prefix length and
    table, and one interface. If there was none, then the message is not on a route, or is on
    one without a destination or without an interface. -/
def Honest : Announcement bo → Prop
  | added r m => ∃ msg, m.notice.rtMsg = some (true, msg) ∧ msg.Carries r
  | removed r m => ∃ msg, m.notice.rtMsg = some (false, msg) ∧ msg.Carries r
  | other m => ∀ x ∈ m.notice.rtMsg,
      (∀ a, .dst a ∉ x.2.attrs) ∨ ∀ index, .oif index ∈ x.2.attrs → index = 0

end Announcement

namespace Mirror

/-- The kernel changes its routes, and the daemon gets the message. -/
def hear (s : Mirror) (a : Announcement bo) : Mirror :=
  { routes := a.message.notice.handleRoute s.routes, live := a.live s.live }

/-- A route that the table has is removed only if it is the last one with its key. -/
def Spares (s : Mirror) : Announcement bo → Prop
  | .removed r _ => r ∈ s.routes.map Route.live →
      ∀ q ∈ s.live, q.toRouteKey = r.toRouteKey → q = r
  | _ => True

end Mirror

/-- A message without a destination or without an interface is ignored. -/
theorem RtMsg.route_eq_none {msg : RtMsg} (owned : Bool)
    (h : (∀ a, .dst a ∉ msg.attrs) ∨ ∀ index, .oif index ∈ msg.attrs → index = 0) :
    msg.route owned = none := by
  have hscan : msg.scan.dst = none ∨ msg.scan.oif = 0 := by
    rw [RtMsg.scan]
    refine h.imp (fun h => ?_) fun h => RtScan.foldl_oif h (.inr rfl)
    refine List.foldlRecOn (motive := fun s : RtScan => s.dst = none) msg.attrs RtScan.read rfl
      fun s hs a ha => ?_
    cases a with
    | dst addr => exact absurd ha (h addr)
    | oif index => exact hs
    | other => exact hs
  rw [RtMsg.route_eq]
  rcases hscan with h | h
  · rw [h, Option.bind_none]
  · cases msg.scan.dst with
    | none => rfl
    | some dst => rw [Option.bind_some, if_pos h]

/-- The table follows the kernel. -/
theorem Mirror.Tracks.hear {s : Mirror} {a : Announcement bo} (h : s.Tracks) (ha : a.Honest)
    (hspares : s.Spares a) : (s.hear a).Tracks := by
  cases a with
  | added r m =>
    obtain ⟨msg, hmsg, hcarries⟩ := ha
    have hstep : s.hear (.added r m) = s.step bo (.newroute msg r) := by
      rw [Mirror.hear, Announcement.message, Notice.handleRoute, hmsg]
      rfl
    exact hstep ▸ h.newroute hcarries
  | removed r m =>
    obtain ⟨msg, hmsg, hcarries⟩ := ha
    have hstep : s.hear (.removed r m) = s.step bo (.delroute msg r) := by
      rw [Mirror.hear, Announcement.message, Notice.handleRoute, hmsg]
      rfl
    exact hstep ▸ h.delroute hcarries hspares
  | other m =>
    have hroutes : m.notice.handleRoute s.routes = s.routes := by
      rw [Notice.handleRoute]
      cases hmsg : m.notice.rtMsg with
      | none => rfl
      | some x =>
        have hnone (owned : Bool) := RtMsg.route_eq_none owned (ha x hmsg)
        rw [Option.elim_some, ndLHandleNewroute, ndLHandleDelroute, hnone, hnone, ite_self]
    rw [Mirror.hear, Announcement.message, hroutes]
    exact h

/-! ## Datagrams -/

theorem foldl_filterMap_elim {α β σ : Type} (f : α → Option β) (g : σ → β → σ) (xs : List α)
    (s : σ) : (xs.filterMap f).foldl g s = xs.foldl (fun s x => (f x).elim s (g s)) s := by
  rw [List.foldl_filterMap]
  congr 1
  funext s x
  cases f x <;> rfl

/-- A datagram of the kernel that has been received: it fits into the buffer. -/
structure Received (ms : List (NlMessage bo)) (d : (ℕ → U8) × ℕ) : Prop where
  bytes : At d.1 0 (datagram ms)
  length : d.2 = (datagram ms).length
  length_le : d.2 ≤ 4096

theorem Received.callsOf_eq {ms : List (NlMessage bo)} {d : (ℕ → U8) × ℕ} (h : Received ms d) :
    callsOf bo d = datagramCalls ms := by
  have hread := ndLIoHandlerNl_datagram h.bytes (h.length.symm.le.trans h.length_le)
    (Nat.lt_add_one _)
  rw [callsOf, h.length, hread.val]
  rfl

theorem Received.receive_eq {ms : List (NlMessage bo)} {d : (ℕ → U8) × ℕ} (h : Received ms d)
    (rt : Rt) : receive bo rt d = (upToDone ms).foldl (fun rt m =>
      (m.notice.call.bind RtCall.action).elim rt fun a => Daemon.stepRt bo a rt) rt := by
  rw [receive, h.callsOf_eq, Rt.handle, datagramCalls_eq, List.filterMap_filterMap,
    foldl_filterMap_elim]

variable {ds : List (List (Announcement bo))} {bufs : List ((ℕ → U8) × ℕ)}

/-- A datagram does to the table what its messages do. -/
theorem Received.receive_routes {as : List (Announcement bo)} {d : (ℕ → U8) × ℕ}
    (h : Received (as.map Announcement.message) d)
    (hdone : ∀ a ∈ as.dropLast, a.message.notice.isDone = false) {rt : Rt} {s : Mirror}
    (hs : rt.routes = s.routes) :
    (receive bo rt d).routes = (as.foldl Mirror.hear s).routes := by
  have hall : upToDone (as.map Announcement.message) = as.map Announcement.message := by
    refine upToDone_eq_self fun m hm => ?_
    rw [← List.map_dropLast] at hm
    obtain ⟨a, ha, rfl⟩ := List.mem_map.1 hm
    exact hdone a ha
  rw [h.receive_eq, hall, List.foldl_map]
  clear h hdone hall
  induction as generalizing rt s with
  | nil => exact hs
  | cons a as ih =>
    refine ih ?_
    rw [Notice.stepRt_routes, hs]
    rfl

theorem receive_run (h : List.Forall₂ (fun as => Received (as.map Announcement.message)) ds bufs)
    (hdone : ∀ as ∈ ds, ∀ a ∈ as.dropLast, a.message.notice.isDone = false) {rt : Rt} {s : Mirror}
    (hs : rt.routes = s.routes) :
    (bufs.foldl (receive bo) rt).routes = (ds.flatten.foldl Mirror.hear s).routes := by
  induction h generalizing rt s with
  | nil => exact hs
  | cons hd _ ih =>
    rw [List.forall_mem_cons] at hdone
    rw [List.foldl_cons, List.flatten_cons, List.foldl_append]
    exact ih hdone.2 (hd.receive_routes hdone.1 hs)

theorem live_foldl_hear (as : List (Announcement bo)) (s : Mirror) :
    (as.foldl Mirror.hear s).live = as.foldl Announcement.live s.live := by
  induction as generalizing s with
  | nil => rfl
  | cons a as ih => exact ih (s.hear a)

namespace Small

def dumpedRoute : LiveRoute := { dst := 1, pflen := 128, table := 254, oif := 7 }

/-- The kernel has a route by the interface 7, and then the dump ends. -/
def dumped : List (Announcement .little) :=
  [.added dumpedRoute (addRouteMsg .little 1 128 7 254),
    .other { flags := 2, seq := 0, pid := 0, notice := .done [0, 0, 0, 0] }]

/-- The buffer, after it has been received. -/
def dumpedBuf (o : ℕ) : U8 := (datagram (dumped.map Announcement.message)).getD o 0

theorem dumpedRoute_honest :
    (Announcement.added dumpedRoute (addRouteMsg .little 1 128 7 254)).Honest := by
  have hattrs : ((reqMsg 128 254).rtMsg .little [oifAttr .little 7, dstAttr 1]).attrs =
      [.oif 7, .dst 1] := by
    rw [Rtmsg.rtMsg, List.map_cons, List.map_cons, rtAttr_oifAttr, rtAttr_dstAttr]
    rfl
  refine ⟨(reqMsg 128 254).rtMsg .little [oifAttr .little 7, dstAttr 1], rfl, rfl, rfl, by decide,
    fun a => ?_, fun x => ?_⟩
  · rw [hattrs]
    simp [dumpedRoute]
  · rw [hattrs]
    simp [dumpedRoute]

end Small

end Ndppd
