import Ndppd.Netdev

/-!
# Interface objects are unique

Whether there is one object per interface. The daemon finds the object of an
interface by its index while the object is up, and by its name while it waits. The
index of an object that is up is that of the last pass, so between a change of the
interfaces and the next pass, the object of an interface may not be found: it is
opened once more, and then there are two of them (`Small.recreated_not_unique`), one
of which gets the packets, and the other one has the proxy.

`linkRun_unique` says that nothing else can go wrong: if no interface is opened
whose object is up with another index, and the calls made in a pass succeed, then no
two objects have the same name, and after a pass no two objects that are up have the
same index. The kernel may give names and indexes to its interfaces as it likes,
anew for each operation.
-/

namespace Ndppd

open Guarded

/-- An operation, what it reads, the interfaces the kernel has, and the sessions. -/
structure LinkEvent where
  env : Env
  links : Links
  sessions : Store
  op : IfaceOp

/-- The state after an operation. -/
def LinkEvent.step (w : World) (ev : LinkEvent) : World := ev.op.exec ev.env ev.sessions w

/-- The state after some operations. -/
def linkRun (evs : List LinkEvent) : World := evs.foldl LinkEvent.step { net := .empty, log := [] }

/-- The names of the objects. -/
def Net.names (n : Net) : List IfName := n.ifaces.map fun i => (n.iface i).name

/-- No two objects that are up have the same index, and a packet is for the object
    with the index of the interface it was received on. -/
def Net.Distinct (n : Net) : Prop :=
  (∀ i ∈ n.ifaces, ∀ j ∈ n.ifaces, (n.iface i).up = true → (n.iface j).up = true →
    (n.iface i).index = (n.iface j).index → i = j) ∧
  ∀ i ∈ n.ifaces, (n.iface i).up = true → n.receiver (n.iface i).index = some i

/-- An interface is opened only if no object of its name is up with another index;
    the calls of a pass succeed. -/
def LinkEvent.Meets (w : World) (ev : LinkEvent) : Prop :=
  match ev.op with
  | .openIface name index _ => ∀ nx ∈ ev.env.kernel.resolve name index,
      ∀ i ∈ w.net.ifaces, (w.net.iface i).up = true → (w.net.iface i).name = nx.1 →
        (w.net.iface i).index = nx.2
  | .closeIface _ => True
  | .rebindAll => ∀ i ∈ w.net.ifaces, ev.env.kernel.Settles (w.net.iface i)

/-! ## Names -/

namespace Net

variable {n n' : Net} {i : IfaceId} {g : Iface}

/-- Writing an object, but for its name. -/
theorem names_set (hg : g.name = (n.iface i).name) : (n.set i g).names = n.names := by
  refine List.map_congr_left fun j _ => ?_
  by_cases hj : j = i
  · rw [hj, Net.set_iface_self, hg]
  · rw [n.set_iface_of_ne g hj]

theorem names_alloc (hn : ∀ i ∈ n.ifaces, i < n.fresh) : (n.alloc g).names = g.name :: n.names := by
  have hold : ∀ i ∈ n.ifaces, (n.alloc g).iface i = n.iface i := fun i hi =>
    Function.update_of_ne (hn i hi).ne ..
  have hnew : (n.alloc g).iface n.fresh = g := Function.update_self ..
  change ((n.alloc g).iface n.fresh).name :: n.ifaces.map _ = _
  rw [hnew]
  exact congrArg (_ :: ·) (List.map_congr_left fun i hi => by rw [hold i hi])

theorem names_erase (hn : n.ifaces.Nodup) (hi : n'.ifaces = n.ifaces.erase i)
    (hother : ∀ j ≠ i, n'.iface j = n.iface j) : n'.names.Sublist n.names := by
  have : n'.names = (n.ifaces.erase i).map fun j => (n.iface j).name := by
    rw [Net.names, hi]
    refine List.map_congr_left fun j hj => ?_
    rw [hother j (hn.mem_erase_iff.1 hj).1]
  rw [this]
  exact List.erase_sublist.map _

/-- The objects are listed once, and no two of them have the same name. -/
structure Named (n : Net) : Prop where
  lt_fresh : ∀ i ∈ n.ifaces, i < n.fresh
  nodup : n.ifaces.Nodup
  names_nodup : n.names.Nodup

theorem Named.set (h : n.Named) (hg : g.name = (n.iface i).name) : (n.set i g).Named :=
  ⟨h.lt_fresh, h.nodup, names_set hg ▸ h.names_nodup⟩

theorem Named.alloc (h : n.Named) (hg : g.name ∉ n.names) : (n.alloc g).Named where
  lt_fresh i hi := by
    rcases List.mem_cons.1 hi with rfl | hi
    · exact Nat.lt_succ_self _
    · exact (h.lt_fresh i hi).trans (Nat.lt_succ_self _)
  nodup := List.nodup_cons.2 ⟨fun hi => (h.lt_fresh _ hi).false, h.nodup⟩
  names_nodup := by
    rw [names_alloc h.lt_fresh]
    exact List.nodup_cons.2 ⟨hg, h.names_nodup⟩

theorem Named.erase (h : n.Named) (hi : n'.ifaces = n.ifaces.erase i) (hf : n'.fresh = n.fresh)
    (hother : ∀ j ≠ i, n'.iface j = n.iface j) : n'.Named where
  lt_fresh j hj := by
    rw [hi] at hj
    rw [hf]
    exact h.lt_fresh j (List.mem_of_mem_erase hj)
  nodup := hi ▸ h.nodup.erase i
  names_nodup := (names_erase h.nodup hi hother).nodup h.names_nodup

end Net

/-! ## Operations -/

variable {w : World} {ev : LinkEvent} {evs : List LinkEvent}

/-- No operation makes two objects of one name, under the condition. -/
theorem LinkEvent.step_named (h : w.net.Named) (hmeets : ev.Meets w) : (ev.step w).net.Named := by
  obtain ⟨e, links, sessions, op⟩ := ev
  cases op with
  | openIface name index promiscuous =>
    obtain ⟨acts, -, hcase⟩ := openCase e name index promiscuous w
    change (ndIfaceOpen e name index promiscuous w).2.net.Named
    generalize (ndIfaceOpen e name index promiscuous w).2.net = n' at hcase ⊢
    cases hcase with
    | failed => exact h
    | refused => exact h
    | shared i _ => exact h.set rfl
    | waiting m _ _ hnew =>
      refine h.alloc fun hm => ?_
      obtain ⟨i, hi, him⟩ := List.mem_map.1 hm
      exact hnew i hi him
    | created m x lladdr hr hup hwait =>
      refine h.alloc fun hm => ?_
      obtain ⟨i, hi, him⟩ := List.mem_map.1 hm
      -- An object of this name is up with the same index, or waits.
      cases hu : (w.net.iface i).up with
      | true => exact hup i hi hu (hmeets (m, x) hr i hi hu him)
      | false => exact hwait i hi hu him
  | closeIface i =>
    obtain ⟨acts, -, hcase⟩ := closeCase e i w
    change (ndIfaceClose e i w).net.Named
    generalize (ndIfaceClose e i w).net = n' at hcase ⊢
    cases hcase with
    | kept => exact h.set rfl
    | left n' _ hi hf hother => exact h.erase hi hf hother
    | freed n' _ hi hf hother => exact h.erase hi hf hother
  | rebindAll =>
    obtain ⟨hifaces, hfresh, hdone⟩ := ndIfaceRebindAll_net e ⟨sessions, w⟩ h.nodup
    change (ndIfaceRebindAll e ⟨sessions, w⟩).world.net.Named
    refine ⟨fun i hi => ?_, hifaces ▸ h.nodup, ?_⟩
    · rw [hifaces] at hi
      rw [hfresh]
      exact h.lt_fresh i hi
    · have hnames : (ndIfaceRebindAll e ⟨sessions, w⟩).world.net.names = w.net.names := by
        rw [Net.names, hifaces]
        exact List.map_congr_left fun i hi => by rw [hdone i hi, Kernel.rebound_name]
      exact hnames ▸ h.names_nodup

theorem Net.Distinct.of_injective {n : Net}
    (h : ∀ i ∈ n.ifaces, ∀ j ∈ n.ifaces, (n.iface i).up = true → (n.iface j).up = true →
      (n.iface i).index = (n.iface j).index → i = j) : n.Distinct := by
  refine ⟨h, fun i hi hup => ?_⟩
  rw [Net.receiver]
  cases hj : n.ifaces.find? fun j => (n.iface j).up && (n.iface j).index == (n.iface i).index with
  | none => exact absurd (List.find?_eq_none.1 hj i hi) (by simp [hup])
  | some j =>
    have hp := List.find?_some hj
    rw [Bool.and_eq_true, beq_iff_eq] at hp
    rw [h i hi j (List.mem_of_find?_eq_some hj) hup hp.1 hp.2.symm]

/-- After a pass whose calls succeed, objects of different names have different
    indexes. -/
theorem LinkEvent.rebind_distinct (h : w.net.Named) (hk : ev.env.kernel.Reports ev.links)
    (hop : ev.op = .rebindAll) (hmeets : ev.Meets w) : (ev.step w).net.Distinct := by
  obtain ⟨e, links, sessions, op⟩ := ev
  obtain rfl : op = .rebindAll := hop
  obtain ⟨hifaces, -, hdone⟩ := ndIfaceRebindAll_net e ⟨sessions, w⟩ h.nodup
  have hindex : ∀ i ∈ w.net.ifaces, (e.kernel.rebound (w.net.iface i)).up = true →
      (e.kernel.rebound (w.net.iface i)).index ≠ 0 ∧
        links.index (w.net.iface i).name = (e.kernel.rebound (w.net.iface i)).index := by
    intro i hi hup
    obtain ⟨h0, hx⟩ := (hmeets i hi).index_eq hup
    rw [hx]
    exact ⟨h0, (hk.index _ h0).symm⟩
  change (ndIfaceRebindAll e ⟨sessions, w⟩).world.net.Distinct
  refine .of_injective ?_
  generalize (ndIfaceRebindAll e ⟨sessions, w⟩).world.net = n' at hifaces hdone ⊢
  intro i hi j hj hupi hupj hij
  rw [hifaces] at hi hj
  rw [hdone i hi] at hupi hij
  rw [hdone j hj] at hupj hij
  obtain ⟨hi0, hli⟩ := hindex i hi hupi
  obtain ⟨-, hlj⟩ := hindex j hj hupj
  have hname : (w.net.iface i).name = (w.net.iface j).name :=
    links.index_injective (by rw [hli, hlj, hij]) (by rw [hli]; exact hi0)
  exact List.inj_on_of_nodup_map h.names_nodup hi hj hname

/-! ## Runs -/

theorem linkRun_concat (evs : List LinkEvent) (ev : LinkEvent) :
    linkRun (evs ++ [ev]) = ev.step (linkRun evs) := List.foldl_concat ..

theorem linkRun_named (h : All LinkEvent.step (fun w ev => ev.Meets w) { net := .empty, log := [] }
    evs) : (linkRun evs).net.Named := by
  refine h.invariant (I := fun w => w.net.Named) ?_ fun w ev hw hev => LinkEvent.step_named hw hev
  exact ⟨by simp [Net.empty], List.nodup_nil, List.nodup_nil⟩

/-- In every run whose operations all meet the condition, no two objects have the
    same name, and after a pass no two objects that are up have the same index: a
    packet is for the one object of its interface. -/
theorem linkRun_unique (hk : ∀ ev ∈ evs, ev.env.kernel.Reports ev.links)
    (hmeets : All LinkEvent.step (fun w ev => ev.Meets w) { net := .empty, log := [] } evs) :
    (linkRun evs).net.names.Nodup ∧
      ∀ pre ev, evs = pre ++ [ev] → ev.op = .rebindAll → (linkRun evs).net.Distinct := by
  refine ⟨(linkRun_named hmeets).names_nodup, ?_⟩
  rintro pre ev rfl hop
  rw [all_concat] at hmeets
  rw [linkRun_concat]
  exact LinkEvent.rebind_distinct (linkRun_named hmeets.1) (hk ev (by simp)) hop hmeets.2

/-! ## Examples -/

instance (w : World) (ev : LinkEvent) : Decidable (ev.Meets w) := by
  unfold LinkEvent.Meets
  split <;> infer_instance

namespace Small

/-- An operation on a kernel whose only interface is `[1]`, with the index `x`. -/
def linkEvent (x : ℕ) (op : IfaceOp) : LinkEvent :=
  let links := Links.empty.create [1] x
  { env := { kernel := kernelOf links, conf, cfg := .empty, rt := {}, now := 0 }
    links := links
    sessions := .empty
    op := op }

theorem reports_linkEvent (x : ℕ) (op : IfaceOp) :
    (linkEvent x op).env.kernel.Reports (linkEvent x op).links := (serves _).toReports

/-- The interface is created again with another index, which a pass sees; then it is
    opened by its new index. -/
def rebound : List LinkEvent :=
  [linkEvent 3 (.openIface (some [1]) 0 false), linkEvent 5 .rebindAll,
    linkEvent 5 (.openIface none 5 false), linkEvent 5 .rebindAll]

theorem rebound_unique : (linkRun rebound).net.receiver 5 = some 0 ∧
    (linkRun rebound).net.names.Nodup ∧ (linkRun rebound).net.Distinct := by
  have hk : ∀ ev ∈ rebound, ev.env.kernel.Reports ev.links := by simp [rebound, reports_linkEvent]
  have hrun := linkRun_unique hk (by decide +kernel)
  refine ⟨by decide +kernel, hrun.1, ?_⟩
  exact hrun.2 (rebound.take 3) (linkEvent 5 .rebindAll) rfl rfl

/-- The same, but it is opened before the pass: an `auto` session opens the interface
    of a new route. -/
def recreated : List LinkEvent :=
  [linkEvent 3 (.openIface (some [1]) 0 false), linkEvent 5 (.openIface none 5 false),
    linkEvent 5 .rebindAll]

/-- There are two objects for the interface, and packets are not for the first one. -/
theorem recreated_not_unique : (∀ ev ∈ recreated, ev.env.kernel.Reports ev.links) ∧
    ¬(linkRun recreated).net.names.Nodup ∧ ¬(linkRun recreated).net.Distinct ∧
    (linkRun recreated).net.receiver 5 = some 1 := by
  refine ⟨?_, by decide +kernel, fun h => ?_, by decide +kernel⟩
  · simp [recreated, reports_linkEvent]
  · exact absurd (h.1 0 (by decide +kernel) 1 (by decide +kernel) (by decide +kernel)
      (by decide +kernel) (by decide +kernel)) (by simp)

end Small

end Ndppd
