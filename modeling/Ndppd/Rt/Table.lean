import Mathlib.Data.List.Sort
import Ndppd.Addr.Prefix
import Ndppd.Rt

/-!
# The table of routes

What every sequence of additions to the table `ndL_routes` and deletions from it
keeps (`RouteTable`): the longest prefixes come first, and no two routes have the same
destination, prefix length and table. So the first match is a longest one
(`RouteTable.find_isSome`, `RouteTable.find_longest`).
-/

namespace Ndppd

/-- A route of the table `t`, to `a`. -/
def RouteKey.Covers (k : RouteKey) (a : Addr) (t : ℕ) : Prop :=
  k.table = t ∧ k.pflen ≤ 128 ∧ k.dst.AgreeOn k.pflen a

instance (k : RouteKey) (a : Addr) (t : ℕ) : Decidable (k.Covers a t) :=
  inferInstanceAs (Decidable (_ ∧ _ ∧ _))

namespace Route

/-- What `ndL_new_route` compares. -/
def key (r : Route) : RouteKey where
  dst := r.dst
  pflen := r.pflen
  table := r.table

/-- The order of the table. -/
def Before (r q : Route) : Prop := r.pflen ≥ q.pflen

instance : DecidableRel Before := fun r q => inferInstanceAs (Decidable (r.pflen ≥ q.pflen))

instance : IsTrans Route Before := ⟨fun _ _ _ h h' => Nat.le_trans h' h⟩

instance : Std.Total Before := ⟨fun r q => Nat.le_total q.pflen r.pflen⟩

end Route

variable {bo : ByteOrder} {route r : Route} {routes : List Route} {a : Addr} {t : ℕ}

/-! ## Additions and deletions -/

/-- The loop of `ndL_new_route` is an ordered insertion. -/
theorem insertRoute_eq (route : Route) (routes : List Route) :
    insertRoute route routes = routes.orderedInsert Route.Before route := by
  induction routes with
  | nil => rfl
  | cons cur routes ih =>
    rw [insertRoute, List.orderedInsert_cons, ih]
    rfl

theorem ndLNewRoute_eq (bo : ByteOrder) (route : Route) (routes : List Route) :
    ndLNewRoute bo route routes = if route.key ∈ routes.map Route.key then routes
      else routes.orderedInsert Route.Before route := by
  have hany : (routes.any fun r => ndAddrEq bo r.dst route.dst && r.pflen == route.pflen &&
      r.table == route.table) = true ↔ route.key ∈ routes.map Route.key := by
    simp only [List.any_eq_true, Bool.and_eq_true, ndAddrEq_iff, beq_iff_eq, List.mem_map,
      Route.key, RouteKey.mk.injEq, and_assoc]
  rw [ndLNewRoute, insertRoute_eq]
  exact if_congr hany rfl rfl

/-- A new route is added unless its key is there. -/
theorem mem_ndLNewRoute : r ∈ ndLNewRoute bo route routes ↔
    r ∈ routes ∨ r = route ∧ route.key ∉ routes.map Route.key := by
  rw [ndLNewRoute_eq]
  split_ifs with h
  · simp [h]
  · rw [List.mem_orderedInsert, or_comm, and_iff_left h]

/-- What `ndL_delete_route` compares. -/
theorem deletes_iff (bo : ByteOrder) (route r : Route) :
    (ndAddrEq bo r.dst route.dst && r.oif == route.oif && r.pflen == route.pflen &&
      r.table == route.table) = true ↔ r.key = route.key ∧ r.oif = route.oif := by
  simp only [Bool.and_eq_true, ndAddrEq_iff, beq_iff_eq, Route.key, RouteKey.mk.injEq]
  tauto

/-- What the table keeps. -/
structure RouteTable (routes : List Route) : Prop where
  sorted : routes.Pairwise Route.Before
  keys_nodup : (routes.map Route.key).Nodup

namespace RouteTable

theorem empty : RouteTable [] := ⟨.nil, .nil⟩

/-- `ndL_new_route` keeps the order, and the keys apart. -/
theorem ndLNewRoute (h : RouteTable routes) (bo : ByteOrder) (route : Route) :
    RouteTable (ndLNewRoute bo route routes) := by
  rw [ndLNewRoute_eq]
  split_ifs with hkey
  · exact h
  · refine ⟨h.sorted.orderedInsert route routes, ?_⟩
    have hperm := (routes.perm_orderedInsert Route.Before route).map Route.key
    exact hperm.nodup_iff.2 (List.nodup_cons.2 ⟨hkey, h.keys_nodup⟩)

/-- So does `ndL_delete_route`. -/
theorem ndLDeleteRoute (h : RouteTable routes) (bo : ByteOrder) (route : Route) :
    RouteTable (ndLDeleteRoute bo route routes) :=
  have hsub := List.eraseP_sublist (l := routes)
  ⟨h.sorted.sublist hsub, (hsub.map _).nodup h.keys_nodup⟩

theorem of_cons (h : RouteTable (r :: routes)) : RouteTable routes :=
  ⟨h.sorted.of_cons, (List.nodup_cons.1 h.keys_nodup).2⟩

/-- The route with the same key is deleted, if its interface is also the same. -/
theorem mem_ndLDeleteRoute (h : RouteTable routes) : r ∈ Ndppd.ndLDeleteRoute bo route routes ↔
    r ∈ routes ∧ ¬(r.key = route.key ∧ r.oif = route.oif) := by
  induction routes with
  | nil => simp [Ndppd.ndLDeleteRoute]
  | cons cur routes ih =>
    rw [Ndppd.ndLDeleteRoute, List.eraseP_cons, cond_eq_ite]
    split_ifs with hcur
    · -- The other routes have other keys.
      rw [deletes_iff] at hcur
      have hkeys := (List.nodup_cons.1 h.keys_nodup).1
      constructor
      · intro hr
        refine ⟨List.mem_cons_of_mem _ hr, fun heq => hkeys ?_⟩
        rw [hcur.1, ← heq.1]
        exact List.mem_map_of_mem hr
      · rintro ⟨hr, hne⟩
        rcases List.mem_cons.1 hr with rfl | hr
        · exact absurd hcur hne
        · exact hr
    · rw [deletes_iff] at hcur
      rw [List.mem_cons, List.mem_cons, ← Ndppd.ndLDeleteRoute, ih h.of_cons]
      constructor
      · rintro (rfl | ⟨hr, hne⟩)
        · exact ⟨.inl rfl, hcur⟩
        · exact ⟨.inr hr, hne⟩
      · rintro ⟨rfl | hr, hne⟩
        · exact .inl rfl
        · exact .inr ⟨hr, hne⟩

/-! ## Matches -/

/-- What the lookup compares is whether the prefix covers the address. -/
theorem covers_iff (bo : ByteOrder) (r : Route) (a : Addr) (t : ℕ) :
    (ndAddrMatch bo r.dst a r.pflen && r.table == t) = true ↔ r.key.Covers a t := by
  rw [Bool.and_eq_true, ndAddrMatch_iff, beq_iff_eq, and_comm]
  rfl

/-- A route is found iff there is one. -/
theorem find_isSome (bo : ByteOrder) (rt : Rt) (a : Addr) (t : ℕ) :
    (ndRtFindRoute bo rt a t).isSome = true ↔ ∃ r ∈ rt.routes, r.key.Covers a t := by
  simp only [ndRtFindRoute, List.find?_isSome, covers_iff]

/-- What is found is in the table, and covers the address. -/
theorem find_mem {rt : Rt} (hr : ndRtFindRoute bo rt a t = some r) :
    r ∈ rt.routes ∧ r.key.Covers a t := by
  have hp := List.find?_some hr
  exact ⟨List.mem_of_find?_eq_some hr, (covers_iff ..).1 hp⟩

/-- No other match is longer than the one found. -/
theorem find_longest {rt : Rt} (h : RouteTable rt.routes) (hr : ndRtFindRoute bo rt a t = some r) :
    ∀ q ∈ rt.routes, q.key.Covers a t → q.pflen ≤ r.pflen := by
  obtain ⟨-, l₁, l₂, hl, hfirst⟩ := List.find?_eq_some_iff_append.1 hr
  intro q hq hcovers
  have hsorted := h.sorted
  rw [hl] at hq hsorted
  rcases List.mem_append.1 hq with hq | hq
  · have hnot := hfirst q hq
    rw [Bool.not_eq_true', ← Bool.not_eq_true, covers_iff] at hnot
    exact absurd hcovers hnot
  · rcases List.mem_cons.1 hq with rfl | hq
    · exact le_refl _
    · exact (List.pairwise_cons.1 (List.pairwise_append.1 hsorted).2.1).1 q hq

end RouteTable

/-! ## Attributes -/

/-- A scan whose steps keep what `g` reads, or make it `b`: it is `b` at the end if it was
    at first, or if a step of those that make it `b` is taken. -/
theorem foldl_last {σ α β : Type} {step : σ → α → σ} {g : σ → β} {b : β} {mark : α}
    {xs : List α} {s : σ} (hmark : ∀ s, g (step s mark) = b)
    (hkeep : ∀ x ∈ xs, ∀ s, g (step s x) = g s ∨ g (step s x) = b)
    (hsome : mark ∈ xs ∨ g s = b) : g (xs.foldl step s) = b := by
  induction xs generalizing s with
  | nil => exact hsome.resolve_left List.not_mem_nil
  | cons x xs ih =>
    refine ih (fun y hy => hkeep y (List.mem_cons_of_mem _ hy)) ?_
    rcases hsome with hmem | hs
    · rcases List.mem_cons.1 hmem with rfl | hmem
      · exact .inr (hmark s)
      · exact .inl hmem
    · exact .inr ((hkeep x List.mem_cons_self s).elim (·.trans hs) id)

end Ndppd
