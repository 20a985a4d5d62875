import Ndppd.Lib.Arena
import Ndppd.Rt.Table

/-!
# Routes and addresses in memory

`ndL_routes` and `ndL_addrs` are lists of objects that point to each other. A new route
is linked where it belongs and a new address in front, and a deletion makes the object
before point past the one that is deleted. This module has the functions of `rt.c` on
the pointers (`RouteHeap`, `AddrHeap`); they do what the functions on lists do.

So whatever the calls, the first match is one of the longest (`RouteHeap.run_longest`).
-/

namespace Ndppd

open Intrusive

/-- The route objects, and `ndL_routes`. -/
abbrev RouteHeap := Arena Route

/-- The address objects, and `ndL_addrs`. -/
abbrev AddrHeap := Arena RtAddr

variable {bo : ByteOrder} {l : List ℕ}

/-! ## Routes -/

namespace RouteHeap

def empty : RouteHeap := Arena.empty { dst := 0, oif := 0, pflen := 0, table := 0 }

/-- `ndL_new_route`: the list is walked, and the node is linked where the order wants it. -/
def ndLNewRoute (bo : ByteOrder) (route : Route) (h : RouteHeap) : RouteHeap :=
  match h.find fun r => ndAddrEq bo r.dst route.dst && r.pflen == route.pflen &&
      r.table == route.table with
  | some _ => h
  | none =>
    -- The list is kept sorted, so that it is easier to find a match.
    h.insert (fun cur => decide (route.pflen ≥ cur.pflen)) route

/-- `ndL_delete_route`: the node is found and unlinked. -/
def ndLDeleteRoute (bo : ByteOrder) (route : Route) (h : RouteHeap) : RouteHeap :=
  h.erase fun cur => ndAddrEq bo cur.dst route.dst && cur.oif == route.oif &&
    cur.pflen == route.pflen && cur.table == route.table

def ndRtFindRoute (bo : ByteOrder) (h : RouteHeap) (addr : Addr) (table : ℕ) : Option Route :=
  h.find fun r => ndAddrMatch bo r.dst addr r.pflen && r.table == table

end RouteHeap

/-- The place of a new route, in the list. -/
theorem insertRoute_eq_append (route : Route) (rs : List Route) :
    insertRoute route rs = (rs.takeWhile fun r => !decide (route.pflen ≥ r.pflen)) ++
      route :: rs.dropWhile fun r => !decide (route.pflen ≥ r.pflen) := by
  induction rs with
  | nil => rfl
  | cons r rs ih =>
    rw [insertRoute, List.takeWhile_cons, List.dropWhile_cons, ih]
    by_cases hr : route.pflen ≥ r.pflen
    · simp [hr]
    · simp [hr]

theorem find?_isSome_eq_any {α : Type*} (p : α → Bool) (xs : List α) :
    (xs.find? p).isSome = xs.any p := by
  rw [Bool.eq_iff_iff, List.find?_isSome, List.any_eq_true]

namespace RouteHeap

variable {h : RouteHeap}

/-- What is added to the list of nodes is what the model adds to its list. -/
theorem holds_ndLNewRoute (hl : h.Holds l) (bo : ByteOrder) (route : Route) :
    ∃ l', (ndLNewRoute bo route h).Holds l' ∧
      (ndLNewRoute bo route h).contents l' = Ndppd.ndLNewRoute bo route (h.contents l) := by
  unfold ndLNewRoute Ndppd.ndLNewRoute
  rw [hl.find_eq, ← find?_isSome_eq_any]
  cases (h.contents l).find? _ with
  | some r => exact ⟨l, hl, rfl⟩
  | none =>
    obtain ⟨l', hl', heq⟩ := hl.insert (fun cur => decide (route.pflen ≥ cur.pflen)) route
    exact ⟨l', hl', heq.trans (insertRoute_eq_append route _).symm⟩

/-- What is unlinked is what the model removes. -/
theorem holds_ndLDeleteRoute (hl : h.Holds l) (bo : ByteOrder) (route : Route) :
    ∃ l', (ndLDeleteRoute bo route h).Holds l' ∧
      (ndLDeleteRoute bo route h).contents l' = Ndppd.ndLDeleteRoute bo route (h.contents l) :=
  hl.erase _

/-- A lookup in the nodes finds what the model finds. -/
theorem ndRtFindRoute_eq (hl : h.Holds l) (bo : ByteOrder) (a : Addr) (t : ℕ) :
    ndRtFindRoute bo h a t = Ndppd.ndRtFindRoute bo { routes := h.contents l } a t :=
  hl.find_eq _

end RouteHeap

/-- A call that changes the routes. -/
inductive RouteCall
  | new (route : Route)
  | delete (route : Route)

/-- The call on the objects. -/
def RouteCall.exec (bo : ByteOrder) (h : RouteHeap) : RouteCall → RouteHeap
  | .new route => RouteHeap.ndLNewRoute bo route h
  | .delete route => RouteHeap.ndLDeleteRoute bo route h

/-- The call on a list of routes. -/
def RouteCall.execList (bo : ByteOrder) (rs : List Route) : RouteCall → List Route
  | .new route => ndLNewRoute bo route rs
  | .delete route => ndLDeleteRoute bo route rs

namespace RouteHeap

/-- The objects after some calls. -/
def run (bo : ByteOrder) (calls : List RouteCall) : RouteHeap :=
  calls.foldl (RouteCall.exec bo) empty

/-- The list of routes after some calls. -/
def runList (bo : ByteOrder) (calls : List RouteCall) : List Route :=
  calls.foldl (RouteCall.execList bo) []

/-- The calls on the objects do what those on lists do. -/
theorem run_holds (bo : ByteOrder) (calls : List RouteCall) :
    ∃ l, (run bo calls).Holds l ∧ (run bo calls).contents l = runList bo calls := by
  induction calls using List.reverseRecOn with
  | nil => exact ⟨[], Arena.holds_empty _, rfl⟩
  | append_singleton calls call ih =>
    obtain ⟨l, hl, hroutes⟩ := ih
    rw [run, runList, List.foldl_concat, List.foldl_concat, ← run, ← runList, ← hroutes]
    cases call with
    | new route => exact holds_ndLNewRoute hl bo route
    | delete route => exact holds_ndLDeleteRoute hl bo route

/-- Whatever the calls, the list is a table: sorted, and without duplicates. -/
theorem runList_table (bo : ByteOrder) (calls : List RouteCall) :
    RouteTable (runList bo calls) := by
  induction calls using List.reverseRecOn with
  | nil => exact .empty
  | append_singleton calls call ih =>
    rw [runList, List.foldl_concat, ← runList]
    cases call with
    | new route => exact ih.ndLNewRoute bo route
    | delete route => exact ih.ndLDeleteRoute bo route

/-- Whatever the calls, the list has the longest prefixes first, and no two routes with
    the same destination, prefix length and table. So no route is found iff none of the
    table covers the address, and one that is found is a longest one. -/
theorem run_longest (bo : ByteOrder) (calls : List RouteCall) :
    ∃ l, (run bo calls).Holds l ∧
      ((run bo calls).contents l).Pairwise (fun r q => q.pflen ≤ r.pflen) ∧
      (((run bo calls).contents l).Pairwise fun r q =>
        ¬(r.dst = q.dst ∧ r.pflen = q.pflen ∧ r.table = q.table)) ∧
      ∀ a t,
        (ndRtFindRoute bo (run bo calls) a t = none ↔ ∀ r ∈ (run bo calls).contents l,
          r.table = t → r.pflen ≤ 128 → ¬r.dst.AgreeOn r.pflen a) ∧
        ∀ r, ndRtFindRoute bo (run bo calls) a t = some r → r ∈ (run bo calls).contents l ∧
          r.table = t ∧ r.pflen ≤ 128 ∧ r.dst.AgreeOn r.pflen a ∧
          ∀ q ∈ (run bo calls).contents l, q.table = t → q.pflen ≤ 128 →
            q.dst.AgreeOn q.pflen a → q.pflen ≤ r.pflen := by
  obtain ⟨l, hl, hroutes⟩ := run_holds bo calls
  have htable := hroutes ▸ runList_table bo calls
  refine ⟨l, hl, htable.sorted, ?_, fun a t => ?_⟩
  · have hkeys := List.pairwise_map.1 htable.keys_nodup
    refine hkeys.imp fun hne heq => hne ?_
    rw [Route.key, Route.key, heq.1, heq.2.1, heq.2.2]
  · rw [ndRtFindRoute_eq hl]
    constructor
    · have hfind := (RouteTable.find_isSome bo { routes := (run bo calls).contents l } a t).not
      rw [Option.not_isSome_iff_eq_none] at hfind
      rw [hfind]
      constructor
      · exact fun h r hr ht hp ha => h ⟨r, hr, ht, hp, ha⟩
      · rintro h ⟨r, hr, ht, hp, ha⟩
        exact h r hr ht hp ha
    · intro r hr
      obtain ⟨hmem, ht, hp, ha⟩ := RouteTable.find_mem hr
      exact ⟨hmem, ht, hp, ha, fun q hq htq hpq haq => htable.find_longest hr q hq ⟨htq, hpq, haq⟩⟩

/-- A host route is found before the default route that was added after it, and the
    default route once it is deleted. -/
example : let host : Route := { dst := 5, oif := 3, pflen := 128, table := 254 }
    let default : Route := { dst := 0, oif := 2, pflen := 0, table := 254 }
    ndRtFindRoute .little (run .little [.new host, .new default]) 5 254 = some host ∧
    ndRtFindRoute .little (run .little [.new host, .new default, .delete host]) 5 254 =
      some default := by
  decide +kernel

end RouteHeap

/-! ## Addresses -/

namespace AddrHeap

variable {h : AddrHeap}

def empty : AddrHeap := Arena.empty { iif := 0, addr := 0, pflen := 0 }

def ndLNewAddr (bo : ByteOrder) (addr : RtAddr) (h : AddrHeap) : AddrHeap :=
  match h.find fun a => a.same bo addr with
  | some _ => h
  | none => h.prepend addr

def ndLDeleteAddr (bo : ByteOrder) (addr : RtAddr) (h : AddrHeap) : AddrHeap :=
  h.erase fun a => a.same bo addr

def ndRtIsLocalAddr (bo : ByteOrder) (h : AddrHeap) (index : ℕ) (addr : Addr) : Bool :=
  (h.find fun a => a.iif == index && ndAddrEq bo a.addr addr).isSome

/-- The same for the own addresses, which are not sorted. -/
theorem holds_ndLNewAddr (hl : h.Holds l) (bo : ByteOrder) (addr : RtAddr) :
    ∃ l', (ndLNewAddr bo addr h).Holds l' ∧
      (ndLNewAddr bo addr h).contents l' = Ndppd.ndLNewAddr bo addr (h.contents l) := by
  unfold ndLNewAddr Ndppd.ndLNewAddr
  rw [hl.find_eq, ← find?_isSome_eq_any]
  cases (h.contents l).find? _ with
  | some a => exact ⟨l, hl, rfl⟩
  | none => exact hl.prepend addr

theorem holds_ndLDeleteAddr (hl : h.Holds l) (bo : ByteOrder) (addr : RtAddr) :
    ∃ l', (ndLDeleteAddr bo addr h).Holds l' ∧
      (ndLDeleteAddr bo addr h).contents l' = Ndppd.ndLDeleteAddr bo addr (h.contents l) :=
  hl.erase _

theorem ndRtIsLocalAddr_eq (hl : h.Holds l) (bo : ByteOrder) (index : ℕ) (addr : Addr) :
    ndRtIsLocalAddr bo h index addr =
      Ndppd.ndRtIsLocalAddr bo { addrs := h.contents l } index addr := by
  rw [ndRtIsLocalAddr, hl.find_eq, find?_isSome_eq_any]
  rfl

end AddrHeap

end Ndppd
