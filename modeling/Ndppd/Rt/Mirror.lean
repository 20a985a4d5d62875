import Ndppd.Lib.Guarded
import Ndppd.Rt.Table

/-!
# The table follows the kernel

Whether the table of routes is that of the kernel, which announces every route it
adds or removes. The kernel may have several routes with the same destination,
prefix length and table, by different interfaces. The daemon keeps the first one it
hears of, and deletes it when the kernel does: then it has none, until another one
is announced, even if the kernel has others (`Small.shadowed_not_exact`).

`Mirror.run_exact` says that nothing else can go wrong: if the route that is kept is
never removed while the kernel has another one with its key, then a route is found
iff the kernel has one, and it is one of the longest of the kernel.
-/

namespace Ndppd

open Guarded

/-! ## Messages -/

/-- An attribute of a message (`struct rtattr`). -/
inductive RtAttr
  | oif (index : ℕ)
  | dst (addr : Addr)
  | other
  deriving DecidableEq

/-- A message on a route (`struct rtmsg`), and its attributes. -/
structure RtMsg where
  table : U8
  dstLen : U8
  protocol : U8
  attrs : List RtAttr

/-- `RTPROT_NDPPD`. -/
def rtprotNdppd : U8 := 72

/-- What the handlers read of the attributes. -/
structure RtScan where
  dst : Option Addr := none
  oif : ℕ := 0
  deriving DecidableEq

/-- The body of the loop on the attributes. -/
def RtScan.read (s : RtScan) : RtAttr → RtScan
  | .oif index => { s with oif := index }
  | .dst addr => { s with dst := some addr }
  | .other => s

namespace RtMsg

/-- The loop on the attributes: of several of a kind, the last one counts. -/
def scan (msg : RtMsg) : RtScan := msg.attrs.foldl RtScan.read {}

/-- The route of a message, unless it has no destination or no interface. -/
def route (msg : RtMsg) (owned : Bool) : Option Route :=
  match msg.scan with
  | ⟨none, _⟩ => none
  | ⟨some dst, oif⟩ =>
    if oif = 0 then none
    else some { table := msg.table.toNat, pflen := msg.dstLen.toNat, oif, dst, owned }

end RtMsg

def ndLHandleNewroute (bo : ByteOrder) (msg : RtMsg) (routes : List Route) : List Route :=
  match msg.route (msg.protocol == rtprotNdppd) with
  | none => routes
  | some route => ndLNewRoute bo route routes

def ndLHandleDelroute (bo : ByteOrder) (msg : RtMsg) (routes : List Route) : List Route :=
  match msg.route false with
  | none => routes
  | some route => ndLDeleteRoute bo route routes

/-! ## The kernel -/

/-- A route of the kernel. -/
structure LiveRoute extends RouteKey where
  oif : ℕ
  deriving DecidableEq

/-- The route of the kernel that a route of the table stands for. -/
def Route.live (r : Route) : LiveRoute := { r.key with oif := r.oif }

/-- A message on a route of the kernel, with its destination and its interface. -/
structure RtMsg.Carries (msg : RtMsg) (r : LiveRoute) : Prop where
  table : msg.table.toNat = r.table
  pflen : msg.dstLen.toNat = r.pflen
  oif_ne : r.oif ≠ 0
  dst : ∀ a, .dst a ∈ msg.attrs ↔ a = r.dst
  oif : ∀ x, .oif x ∈ msg.attrs ↔ x = r.oif

/-- What the kernel announces, and the route it has added or removed. -/
inductive RouteEvent
  | newroute (msg : RtMsg) (r : LiveRoute)
  | delroute (msg : RtMsg) (r : LiveRoute)

/-- The table of the daemon, and the routes of the kernel. -/
structure Mirror where
  routes : List Route := []
  live : Finset LiveRoute := ∅

namespace Mirror

/-- The kernel adds or removes a route, and the daemon gets the message. -/
def step (bo : ByteOrder) (s : Mirror) : RouteEvent → Mirror
  | .newroute msg r =>
    { routes := ndLHandleNewroute bo msg s.routes, live := insert r s.live }
  | .delroute msg r =>
    { routes := ndLHandleDelroute bo msg s.routes, live := s.live.erase r }

/-- The state after some messages. -/
def run (bo : ByteOrder) (evs : List RouteEvent) : Mirror := evs.foldl (step bo) {}

/-- A message is on the route that is added, or removed. -/
def Lawful (s : Mirror) : RouteEvent → Prop
  | .newroute msg r => msg.Carries r
  | .delroute msg r => msg.Carries r ∧ r ∈ s.live

/-- A route that the table has is removed only if it is the last one with its key. -/
def Careful (s : Mirror) : RouteEvent → Prop
  | .newroute _ _ => True
  | .delroute _ r => r ∈ s.routes.map Route.live →
      ∀ q ∈ s.live, q.toRouteKey = r.toRouteKey → q = r

/-- A route is found iff the kernel has one; it is a route of the kernel, and no other
    one is longer. -/
structure Exact (bo : ByteOrder) (s : Mirror) : Prop where
  found : ∀ a t, (ndRtFindRoute bo { routes := s.routes } a t).isSome = true ↔
    ∃ q ∈ s.live, q.Covers a t
  longest : ∀ a t r, ndRtFindRoute bo { routes := s.routes } a t = some r →
    r.live ∈ s.live ∧ r.live.Covers a t ∧ ∀ q ∈ s.live, q.Covers a t → q.pflen ≤ r.pflen

end Mirror

/-! ## Attributes -/

variable {bo : ByteOrder} {msg : RtMsg} {r : LiveRoute}

theorem RtScan.foldl_dst {d : Addr} {attrs : List RtAttr} {s : RtScan}
    (hall : ∀ a, .dst a ∈ attrs → a = d) (hsome : .dst d ∈ attrs ∨ s.dst = some d) :
    (attrs.foldl RtScan.read s).dst = some d := by
  refine foldl_last (fun _ => rfl) (fun x hx s => ?_) hsome
  cases x with
  | dst a => exact .inr (congrArg some (hall a hx))
  | oif index => exact .inl rfl
  | other => exact .inl rfl

theorem RtScan.foldl_oif {y : ℕ} {attrs : List RtAttr} {s : RtScan}
    (hall : ∀ x, .oif x ∈ attrs → x = y) (hsome : .oif y ∈ attrs ∨ s.oif = y) :
    (attrs.foldl RtScan.read s).oif = y := by
  refine foldl_last (fun _ => rfl) (fun x hx s => ?_) hsome
  cases x with
  | dst a => exact .inl rfl
  | oif index => exact .inr (hall index hx)
  | other => exact .inl rfl

/-- The handlers get the route that a message is on. -/
theorem RtMsg.Carries.route (h : msg.Carries r) (owned : Bool) :
    ∃ q, msg.route owned = some q ∧ q.live = r := by
  have hscan : msg.scan = ⟨some r.dst, r.oif⟩ := by
    rw [RtMsg.scan]
    have hdst := RtScan.foldl_dst (s := {}) (fun a ha => (h.dst a).1 ha) (.inl ((h.dst _).2 rfl))
    have hoif := RtScan.foldl_oif (s := {}) (fun x hx => (h.oif x).1 hx) (.inl ((h.oif _).2 rfl))
    generalize msg.attrs.foldl RtScan.read {} = s at hdst hoif
    cases s
    simp_all
  refine ⟨_, by rw [RtMsg.route, hscan]; exact if_neg h.oif_ne, ?_⟩
  obtain ⟨⟨dst, pflen, table⟩, oif⟩ := r
  simp only [Route.live, Route.key, h.table, h.pflen]

theorem RtMsg.Carries.ndLHandleNewroute (h : msg.Carries r) (bo : ByteOrder)
    (routes : List Route) :
    ∃ q : Route, q.live = r ∧ ndLHandleNewroute bo msg routes = ndLNewRoute bo q routes := by
  obtain ⟨q, hq, hr⟩ := h.route (msg.protocol == rtprotNdppd)
  exact ⟨q, hr, by rw [Ndppd.ndLHandleNewroute, hq]⟩

theorem RtMsg.Carries.ndLHandleDelroute (h : msg.Carries r) (bo : ByteOrder)
    (routes : List Route) :
    ∃ q : Route, q.live = r ∧ ndLHandleDelroute bo msg routes = ndLDeleteRoute bo q routes := by
  obtain ⟨q, hq, hr⟩ := h.route false
  exact ⟨q, hr, by rw [Ndppd.ndLHandleDelroute, hq]⟩

/-! ## Runs -/

theorem Route.live_eq_iff {r q : Route} : r.live = q.live ↔ r.key = q.key ∧ r.oif = q.oif := by
  rw [Route.live, Route.live, LiveRoute.mk.injEq]

namespace Mirror

variable {s : Mirror} {ev : RouteEvent} {evs : List RouteEvent}

/-- The routes of the table are routes of the kernel, and have all their keys. -/
structure Tracks (s : Mirror) : Prop where
  table : RouteTable s.routes
  live : ∀ r ∈ s.routes, r.live ∈ s.live
  known : ∀ q ∈ s.live, q.toRouteKey ∈ s.routes.map Route.key

theorem Tracks.newroute (h : s.Tracks) (hmsg : msg.Carries r) :
    (s.step bo (.newroute msg r)).Tracks := by
  obtain ⟨new, rfl, hnew⟩ := hmsg.ndLHandleNewroute bo s.routes
  rw [step, hnew]
  refine ⟨h.table.ndLNewRoute bo new, fun q hq => ?_, fun q hq => ?_⟩
  · rcases mem_ndLNewRoute.1 hq with hq | ⟨rfl, -⟩
    · exact Finset.mem_insert_of_mem (h.live q hq)
    · exact Finset.mem_insert_self ..
  · rw [List.mem_map]
    rcases Finset.mem_insert.1 hq with rfl | hq
    · -- The table has the route, or one with its key.
      by_cases hkey : new.key ∈ s.routes.map Route.key
      · obtain ⟨q, hq, hqk⟩ := List.mem_map.1 hkey
        exact ⟨q, mem_ndLNewRoute.2 (.inl hq), hqk⟩
      · exact ⟨new, mem_ndLNewRoute.2 (.inr ⟨rfl, hkey⟩), rfl⟩
    · obtain ⟨q', hq', hk⟩ := List.mem_map.1 (h.known q hq)
      exact ⟨q', mem_ndLNewRoute.2 (.inl hq'), hk⟩

theorem Tracks.delroute (h : s.Tracks) (hmsg : msg.Carries r)
    (hcareful : s.Careful (.delroute msg r)) : (s.step bo (.delroute msg r)).Tracks := by
  obtain ⟨old, rfl, hold⟩ := hmsg.ndLHandleDelroute bo s.routes
  rw [step, hold]
  have hmem : ∀ q, q ∈ ndLDeleteRoute bo old s.routes ↔ q ∈ s.routes ∧ q.live ≠ old.live :=
    fun q => by rw [h.table.mem_ndLDeleteRoute, Ne, Route.live_eq_iff]
  refine ⟨h.table.ndLDeleteRoute bo old, fun q hq => ?_, fun q hq => ?_⟩
  · rw [hmem] at hq
    exact Finset.mem_erase.2 ⟨hq.2, h.live q hq.1⟩
  · obtain ⟨hne, hq⟩ := Finset.mem_erase.1 hq
    obtain ⟨q', hq', hk⟩ := List.mem_map.1 (h.known q hq)
    refine List.mem_map.2 ⟨q', (hmem q').2 ⟨hq', fun heq => hne ?_⟩, hk⟩
    -- The table had the route that is removed, so no other one has its key.
    refine hcareful (List.mem_map.2 ⟨q', hq', heq⟩) q hq ?_
    rw [← hk, ← heq]
    rfl

theorem Tracks.step (h : s.Tracks) (hlaw : s.Lawful ev) (hcareful : s.Careful ev) :
    (s.step bo ev).Tracks := by
  cases ev with
  | newroute msg r => exact h.newroute hlaw
  | delroute msg r => exact h.delroute hlaw.1 hcareful

theorem Tracks.exact (h : s.Tracks) : s.Exact bo where
  found a t := by
    rw [RouteTable.find_isSome]
    constructor
    · rintro ⟨r, hr, hcovers⟩
      exact ⟨r.live, h.live r hr, hcovers⟩
    · rintro ⟨q, hq, hcovers⟩
      obtain ⟨r, hr, hk⟩ := List.mem_map.1 (h.known q hq)
      exact ⟨r, hr, hk ▸ hcovers⟩
  longest a t r hr := by
    obtain ⟨hmem, hcovers⟩ := RouteTable.find_mem hr
    refine ⟨h.live r hmem, hcovers, fun q hq hq' => ?_⟩
    obtain ⟨r', hr', hk⟩ := List.mem_map.1 (h.known q hq)
    have hle := h.table.find_longest hr r' hr' (hk ▸ hq')
    have hpflen : r'.pflen = q.pflen := congrArg RouteKey.pflen hk
    exact hpflen ▸ hle

/-- In every run in which no route of the table is removed while the kernel has
    another one with its key, the table is that of the kernel. -/
theorem run_exact (h : All (step bo) (fun s ev => s.Lawful ev ∧ s.Careful ev) {} evs) :
    (run bo evs).Exact bo := by
  have hempty : ({} : Mirror).Tracks := ⟨.empty, by simp, by simp⟩
  exact (h.invariant hempty fun s ev hs hev => hs.step hev.1 hev.2).exact

end Mirror

/-! ## Examples -/

namespace Small

/-- A message on a route by the interface `x`. -/
def routeMsg (x : ℕ) : RtMsg where
  table := 254
  dstLen := 64
  protocol := 3
  attrs := [.other, .dst (1 <<< 64), .oif x]

/-- The route to the prefix `0:0:0:1::/64` of the table 254, by the interface `x`. -/
def liveRoute (x : ℕ) : LiveRoute := { dst := 1 <<< 64, pflen := 64, table := 254, oif := x }

theorem routeMsg_carries {x : ℕ} (hx : x ≠ 0) : (routeMsg x).Carries (liveRoute x) where
  table := rfl
  pflen := rfl
  oif_ne := hx
  dst := by simp [routeMsg, liveRoute]
  oif := by simp [routeMsg, liveRoute]

/-- The second route is removed first. -/
def nested : List RouteEvent :=
  [.newroute (routeMsg 3) (liveRoute 3), .newroute (routeMsg 5) (liveRoute 5),
    .delroute (routeMsg 5) (liveRoute 5)]

theorem nested_exact : (ndRtFindRoute .little { routes := (Mirror.run .little nested).routes }
      (1 <<< 64) 254).map Route.live = some (liveRoute 3) ∧
    (Mirror.run .little nested).Exact .little := by
  refine ⟨by decide +kernel,
    Mirror.run_exact ⟨⟨?_, trivial⟩, ⟨?_, trivial⟩, ⟨⟨?_, ?_⟩, ?_⟩, trivial⟩⟩
  · exact routeMsg_carries (by decide)
  · exact routeMsg_carries (by decide)
  · exact routeMsg_carries (by decide)
  · decide +kernel
  · unfold Mirror.Careful
    decide +kernel

/-- The first route is removed first. -/
def shadowed : List RouteEvent :=
  [.newroute (routeMsg 3) (liveRoute 3), .newroute (routeMsg 5) (liveRoute 5),
    .delroute (routeMsg 3) (liveRoute 3)]

/-- The kernel has a route, and none is found. -/
theorem shadowed_not_exact : All (Mirror.step .little) Mirror.Lawful {} shadowed ∧
    ndRtFindRoute .little { routes := (Mirror.run .little shadowed).routes } (1 <<< 64) 254 = none ∧
    liveRoute 5 ∈ (Mirror.run .little shadowed).live ∧ (liveRoute 5).Covers (1 <<< 64) 254 ∧
    ¬(Mirror.run .little shadowed).Exact .little := by
  have hnone : ndRtFindRoute .little { routes := (Mirror.run .little shadowed).routes }
      (1 <<< 64) 254 =
      none := by decide +kernel
  have hlive : liveRoute 5 ∈ (Mirror.run .little shadowed).live := by decide +kernel
  have hcovers : (liveRoute 5).Covers (1 <<< 64) 254 := by decide +kernel
  refine ⟨⟨?_, ?_, ⟨?_, ?_⟩, trivial⟩, hnone, hlive, hcovers, fun h => ?_⟩
  · exact routeMsg_carries (by decide)
  · exact routeMsg_carries (by decide)
  · exact routeMsg_carries (by decide)
  · decide +kernel
  · have hfound := (h.found (1 <<< 64) 254).2 ⟨_, hlive, hcovers⟩
    rw [hnone] at hfound
    exact absurd hfound (by simp)

end Small

end Ndppd
