import Ndppd.Types

/-!
# Routes and addresses

What the daemon knows of the kernel's routes and addresses, and its requests
to the kernel (`rt.c`). The list of routes is kept sorted, the longest prefixes
first, so that the first match is the longest one.
-/

namespace Ndppd

/-- The place of a new route: before the first one whose prefix is not longer. -/
def insertRoute (route : Route) : List Route → List Route
  | [] => [route]
  | cur :: routes =>
    if route.pflen ≥ cur.pflen then route :: cur :: routes else cur :: insertRoute route routes

/-- `ndL_new_route`: a route to a prefix that the table has is not added, whatever its interface. -/
def ndLNewRoute (bo : ByteOrder) (route : Route) (routes : List Route) : List Route :=
  if routes.any fun r => ndAddrEq bo r.dst route.dst && r.pflen == route.pflen &&
      r.table == route.table then routes
  else insertRoute route routes

/-- `ndL_delete_route`: the interface is compared as well. -/
def ndLDeleteRoute (bo : ByteOrder) (route : Route) (routes : List Route) : List Route :=
  routes.eraseP fun r => ndAddrEq bo r.dst route.dst && r.oif == route.oif &&
    r.pflen == route.pflen && r.table == route.table

/-- `nd_rt_is_local_addr` -/
def ndRtIsLocalAddr (bo : ByteOrder) (rt : Rt) (index : ℕ) (addr : Addr) : Bool :=
  rt.addrs.any fun a => a.iif == index && ndAddrEq bo a.addr addr

/-- Whether two own addresses are the same, for `ndL_new_addr` and `ndL_delete_addr`. -/
def RtAddr.same (bo : ByteOrder) (a b : RtAddr) : Bool :=
  a.iif == b.iif && ndAddrEq bo a.addr b.addr && a.pflen == b.pflen

/-- `ndL_new_addr` -/
def ndLNewAddr (bo : ByteOrder) (addr : RtAddr) (addrs : List RtAddr) : List RtAddr :=
  if addrs.any fun a => a.same bo addr then addrs else addr :: addrs

/-- `ndL_delete_addr` -/
def ndLDeleteAddr (bo : ByteOrder) (addr : RtAddr) (addrs : List RtAddr) : List RtAddr :=
  addrs.eraseP fun a => a.same bo addr

/-- `nd_rt_find_route`: the first route that matches. -/
def ndRtFindRoute (bo : ByteOrder) (rt : Rt) (addr : Addr) (table : ℕ) : Option Route :=
  rt.routes.find? fun r => ndAddrMatch bo r.dst addr r.pflen && r.table == table

/-- `nd_rt_add_route`: whether the request is accepted. -/
def ndRtAddRoute (e : Env) (who : SessionId) (dst : Addr) (pflen oif table : ℕ) (w : World) :
    Bool × World :=
  let accepted := e.kernel.addRoute dst pflen oif table
  (accepted, w.emit e (.addRoute who dst pflen oif table accepted))

/-- `nd_rt_remove_route`: whether the request is accepted. -/
def ndRtRemoveRoute (e : Env) (who : Option SessionId) (dst : Addr) (pflen table : ℕ) (w : World) :
    Bool × World :=
  let accepted := e.kernel.removeRoute dst pflen table
  (accepted, w.emit e (.removeRoute who dst pflen table accepted))

/-- `nd_rt_remove_owned_routes`: a request for each route that the daemon has added. -/
def ndRtRemoveOwnedRoutes (e : Env) (w : World) : World :=
  e.rt.routes.foldl (fun w route =>
    if route.owned then (ndRtRemoveRoute e none route.dst route.pflen route.table w).2 else w) w

end Ndppd
