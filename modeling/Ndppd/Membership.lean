import Ndppd.Netdev

/-!
# Memberships of the packet socket

The daemon hears what its interfaces receive as long as its packet socket is a
member of them. The kernel counts the memberships by index and type (`Socket`), and
those of an interface end with it. The daemon does not ask for them again unless the
index of an interface has changed, or a pass has seen that it was gone; and it gives
up those of the index an object had before, whosever it is by then. So an index that
is used again may leave an object without a membership (`Small.reused_deaf`).

`netRun_joined` says that this is all: if an index is given to a new interface only
when no object has it, other than objects of the same name which wait, then after
every pass the objects that are up have the indexes of their interfaces, and the
socket is a member of them. In between, the socket is a member of an interface as
many times as there are objects for it (`Joined.held`).
-/

namespace Ndppd

open Guarded

/-- What a membership is for: the index of an interface, and whether its type is
    `PACKET_MR_PROMISC`, and not `PACKET_MR_ALLMULTI`. -/
structure Membership where
  index : ℕ
  promiscuous : Bool
  deriving DecidableEq

/-- The memberships of the socket, with their counts. -/
abbrev Socket := Membership → ℕ

namespace Socket

/-- No membership. -/
def empty : Socket := fun _ => 0

/-- What an act does to the memberships. -/
def apply (s : Socket) : Act → Socket
  | .addMembership x p true => Function.update s ⟨x, p⟩ (s ⟨x, p⟩ + 1)
  | .dropMembership x p => Function.update s ⟨x, p⟩ (s ⟨x, p⟩ - 1)
  | _ => s

/-- What some acts do, of which the newest is the first one. -/
def replay (s : Socket) (acts : List Act) : Socket := acts.foldr (fun a s => s.apply a) s

/-- The interface with this index is deleted. -/
def forget (s : Socket) (x : ℕ) : Socket := fun k => if k.index = x then 0 else s k

end Socket

/-- The acts on memberships since `w`. -/
def World.membershipsSince (w w' : World) : List Act :=
  w'.memberships.take (w'.memberships.length - w.memberships.length)

theorem World.membershipsSince_eq {w w' : World} {acts : List Act}
    (h : w'.memberships = acts ++ w.memberships) : w.membershipsSince w' = acts := by
  rw [World.membershipsSince, h, List.length_append, Nat.add_sub_cancel, List.take_left]

/-- The interface layer, the interfaces of the kernel, and the packet socket. -/
structure NetState where
  world : World
  links : Links
  socket : Socket

/-- What happens: an interface is created or deleted, or the daemon runs an
    operation, with any sessions. -/
inductive NetEvent
  | create (n : IfName) (x : ℕ)
  | delete (n : IfName)
  | call (env : Env) (sessions : Store) (op : IfaceOp)

namespace NetState

/-- Nothing is open, and there is no interface. -/
def empty : NetState where
  world := { net := .empty, log := [] }
  links := .empty
  socket := .empty

/-- The state after an event. -/
def step (s : NetState) : NetEvent → NetState
  | .create n x => { s with links := s.links.create n x }
  | .delete n =>
    { s with links := s.links.delete n, socket := s.socket.forget (s.links.index n) }
  | .call e sessions op =>
    let w := op.exec e sessions s.world
    { s with world := w, socket := s.socket.replay (s.world.membershipsSince w) }

/-- The state after some events. -/
def run (evs : List NetEvent) : NetState := evs.foldl step empty

/-- Every call of the daemon on an interface which exists succeeds, and the daemon
    closes objects it has opened. -/
def Lawful (s : NetState) : NetEvent → Prop
  | .call e _ op => e.kernel.Serves s.links ∧
      match op with
      | .closeIface i => i ∈ s.world.net.ifaces
      | _ => True
  | _ => True

/-- An index is given to a new interface only when no object has it, other than
    objects of this name which wait. -/
def Careful (s : NetState) : NetEvent → Prop
  | .create n x => ∀ i ∈ s.world.net.ifaces, (s.world.net.iface i).index = x →
      (s.world.net.iface i).up = false ∧ (s.world.net.iface i).name = n
  | _ => True

/-- The objects that are up have the indexes of their interfaces, and the socket is
    a member of them. -/
def Hears (s : NetState) : Prop :=
  ∀ i ∈ s.world.net.ifaces, (s.world.net.iface i).up = true →
    (s.world.net.iface i).index ≠ 0 ∧
    s.links.index (s.world.net.iface i).name = (s.world.net.iface i).index ∧
    1 ≤ s.socket ⟨(s.world.net.iface i).index, (s.world.net.iface i).promiscuous⟩

end NetState

/-! ## Counting objects -/

/-- The object is up and relies on this membership. -/
def Iface.needs (g : Iface) (k : Membership) : Bool :=
  g.up && g.index == k.index && g.promiscuous == k.promiscuous

theorem Iface.needs_eq_true {g : Iface} {k : Membership} :
    g.needs k = true ↔ g.up = true ∧ g.index = k.index ∧ g.promiscuous = k.promiscuous := by
  simp [Iface.needs, and_assoc]

/-- How many objects rely on a membership. -/
def Net.holders (n : Net) (k : Membership) : ℕ := n.ifaces.countP fun i => (n.iface i).needs k

namespace Net

variable {n n' : Net} {i : IfaceId} {g : Iface} {k : Membership}

theorem holders_split (n : Net) (k : Membership) (hi : i ∈ n.ifaces) :
    n.holders k = (if (n.iface i).needs k then 1 else 0) +
      (n.ifaces.erase i).countP fun j => (n.iface j).needs k := by
  rw [holders, (List.perm_cons_erase hi).countP_eq, List.countP_cons, Nat.add_comm]

/-- Writing an object. -/
theorem holders_set (hn : n.ifaces.Nodup) (hi : i ∈ n.ifaces) (g : Iface) (k : Membership) :
    (n.set i g).holders k + (if (n.iface i).needs k then 1 else 0) =
      n.holders k + if g.needs k then 1 else 0 := by
  have hrest : ((n.set i g).ifaces.erase i).countP (fun j => ((n.set i g).iface j).needs k) =
      (n.ifaces.erase i).countP fun j => (n.iface j).needs k := by
    refine List.countP_congr fun j hj => ?_
    rw [n.set_iface_of_ne g (hn.mem_erase_iff.1 hj).1]
  rw [n.holders_split k hi, (n.set i g).holders_split k hi, hrest, Net.set_iface_self]
  omega

theorem holders_alloc (hn : ∀ i ∈ n.ifaces, i < n.fresh) (g : Iface) (k : Membership) :
    (n.alloc g).holders k = n.holders k + if g.needs k then 1 else 0 := by
  have hnew : (n.alloc g).iface n.fresh = g := Function.update_self ..
  change (n.fresh :: n.ifaces).countP _ = _
  rw [List.countP_cons, hnew]
  refine congrArg (· + _) (List.countP_congr fun i hi => ?_)
  rw [show (n.alloc g).iface i = n.iface i from Function.update_of_ne (hn i hi).ne ..]

theorem holders_erase (hn : n.ifaces.Nodup) (hi : i ∈ n.ifaces)
    (herase : n'.ifaces = n.ifaces.erase i) (hother : ∀ j ≠ i, n'.iface j = n.iface j)
    (k : Membership) : n'.holders k + (if (n.iface i).needs k then 1 else 0) = n.holders k := by
  have hrest : n'.holders k = (n.ifaces.erase i).countP fun j => (n.iface j).needs k := by
    rw [holders, herase]
    refine List.countP_congr fun j hj => ?_
    rw [hother j (hn.mem_erase_iff.1 hj).1]
  rw [n.holders_split k hi, hrest]
  omega

end Net

/-! ## Memberships and objects -/

/-- An interface of the kernel has this index. -/
def Links.Has (l : Links) (x : ℕ) : Prop := x ≠ 0 ∧ ∃ m, l.index m = x

/-- A creation which the kernel does not refuse. -/
theorem Links.index_create {l : Links} {m : IfName} {x : ℕ} (hl : l.create m x ≠ l) :
    (∀ m', (l.create m x).index m' = if m' = m then x else l.index m') ∧ x ≠ 0 ∧ ¬l.Has x ∧
      l.index m = 0 := by
  unfold Links.create at hl ⊢
  split_ifs at hl ⊢ with hfree
  · refine ⟨fun m' => ?_, hfree.2.2, ?_, ?_⟩
    · unfold Links.index
      rw [List.lookup_cons]
      by_cases hm : m' = m
      · simp [hm]
      · rw [if_neg hm, beq_eq_false_iff_ne.2 hm]
    · rintro ⟨hx, m', hm'⟩
      exact hfree.2.1 (List.mem_map.2 ⟨(m', x), l.mem_of_index hm' hx, rfl⟩)
    · by_contra h0
      exact hfree.1 (List.mem_map.2 ⟨(m, l.index m), l.mem_of_index rfl h0, rfl⟩)
  · exact absurd rfl hl

theorem Links.index_delete (l : Links) (m m' : IfName) :
    (l.delete m).index m' = if m' = m then 0 else l.index m' := by
  have hmem : ∀ y, (m', y) ∈ (l.delete m).list ↔ (m', y) ∈ l.list ∧ m' ≠ m := by
    intro y
    simp [Links.delete, List.mem_filter]
  by_cases h0 : (l.delete m).index m' = 0
  · rw [h0]
    split_ifs with hm
    · rfl
    · by_contra hne
      have := (hmem _).2 ⟨l.mem_of_index rfl (Ne.symm hne), hm⟩
      exact hne (h0.symm.trans (Links.index_of_mem this))
  · have := (hmem _).1 (Links.mem_of_index rfl h0)
    rw [if_neg this.2, Links.index_of_mem this.1]

/-- The socket is a member of an interface as many times as there are objects for
    it, and of no other ones. No object has the index of another interface. -/
structure Joined (l : Links) (n : Net) (s : Socket) : Prop where
  lt_fresh : ∀ i ∈ n.ifaces, i < n.fresh
  nodup : n.ifaces.Nodup
  owner : ∀ i ∈ n.ifaces, ∀ m, (n.iface i).index ≠ 0 → l.index m = (n.iface i).index →
    m = (n.iface i).name
  held : ∀ k : Membership, l.Has k.index → s k = n.holders k
  dead : ∀ k : Membership, ¬l.Has k.index → s k = 0

theorem Iface.needs_iff {g : Iface} (hup : g.up = true) {k : Membership} :
    g.needs k = true ↔ k = ⟨g.index, g.promiscuous⟩ := by
  obtain ⟨x, p⟩ := k
  rw [Iface.needs_eq_true, Membership.mk.injEq]
  exact ⟨fun h => ⟨h.2.1.symm, h.2.2.symm⟩, fun h => ⟨hup, h.1.symm, h.2.symm⟩⟩

theorem Socket.apply_add (s : Socket) (x : ℕ) (p : Bool) (k : Membership) :
    s.apply (.addMembership x p true) k = s k + if k = ⟨x, p⟩ then 1 else 0 := by
  simp only [Socket.apply, Function.update_apply]
  split_ifs with h
  · rw [h]
  · rfl

theorem Socket.apply_drop (s : Socket) (x : ℕ) (p : Bool) (k : Membership) :
    s.apply (.dropMembership x p) k = s k - if k = ⟨x, p⟩ then 1 else 0 := by
  simp only [Socket.apply, Function.update_apply]
  split_ifs with h
  · rw [h]
  · rfl

theorem Socket.replay_append (s : Socket) (new old : List Act) :
    s.replay (new ++ old) = (s.replay old).replay new := List.foldr_append ..

/-- A membership is asked for, and another one may be given up. -/
theorem Socket.replay_move (s : Socket) (c : Prop) [Decidable c] (x y : ℕ) (p : Bool)
    (k : Membership) :
    s.replay ((if c then [.dropMembership x p] else []) ++ [.addMembership y p true]) k =
      (s k + if k = ⟨y, p⟩ then 1 else 0) - if c ∧ k = ⟨x, p⟩ then 1 else 0 := by
  by_cases hc : c
  · simp only [hc, if_true, true_and]
    refine (Socket.apply_drop _ x p k).trans ?_
    rw [← s.apply_add]
    rfl
  · simp only [hc, if_false, false_and, Nat.sub_zero]
    exact s.apply_add y p k

namespace Joined

variable {l : Links} {n n' : Net} {s s' : Socket} {i : IfaceId} {g : Iface}

theorem empty : Joined .empty .empty .empty where
  lt_fresh := by simp [Net.empty]
  nodup := List.nodup_nil
  owner := by simp [Net.empty]
  held := by simp [Socket.empty, Net.holders, Net.empty]
  dead := by simp [Socket.empty]

/-- Writing an object: those who rely on the memberships change as these do. -/
theorem set (h : Joined l n s) (hi : i ∈ n.ifaces) (hname : g.name = (n.iface i).name)
    (hindex : g.index = (n.iface i).index ∨ l.index g.name = g.index)
    (hheld : ∀ k : Membership, l.Has k.index →
      s' k + (if (n.iface i).needs k then 1 else 0) = s k + if g.needs k then 1 else 0)
    (hdead : ∀ k : Membership, ¬l.Has k.index → s' k = 0) : Joined l (n.set i g) s' where
  lt_fresh := h.lt_fresh
  nodup := h.nodup
  owner j hj m h0 hm := by
    by_cases hji : j = i
    · rw [hji, Net.set_iface_self] at h0 hm ⊢
      rcases hindex with hindex | hindex
      · rw [hindex] at h0 hm
        exact (h.owner i hi m h0 hm).trans hname.symm
      · exact l.index_injective (hm.trans hindex.symm) (by rw [hm]; exact h0)
    · rw [n.set_iface_of_ne g hji] at h0 hm ⊢
      exact h.owner j hj m h0 hm
  held k hk := by
    have hset := Net.holders_set h.nodup hi g k
    have := hheld k hk
    have := h.held k hk
    omega
  dead := hdead

/-- Writing an object which relies on the same membership as before. -/
theorem set_same (h : Joined l n s) (hi : i ∈ n.ifaces) (hname : g.name = (n.iface i).name)
    (hindex : g.index = (n.iface i).index)
    (hneeds : ∀ k : Membership, l.Has k.index → g.needs k = (n.iface i).needs k) :
    Joined l (n.set i g) s :=
  h.set hi hname (.inl hindex) (fun k hk => by rw [hneeds k hk]) h.dead

theorem alloc (h : Joined l n s) (hindex : g.index = 0 ∨ l.index g.name = g.index)
    (hheld : ∀ k : Membership, l.Has k.index → s' k = s k + if g.needs k then 1 else 0)
    (hdead : ∀ k : Membership, ¬l.Has k.index → s' k = 0) : Joined l (n.alloc g) s' where
  lt_fresh j hj := by
    rcases List.mem_cons.1 hj with rfl | hj
    · exact Nat.lt_succ_self _
    · exact (h.lt_fresh j hj).trans (Nat.lt_succ_self _)
  nodup := List.nodup_cons.2 ⟨fun hi => (h.lt_fresh _ hi).false, h.nodup⟩
  owner j hj m h0 hm := by
    change (Function.update n.iface n.fresh g j).index ≠ 0 at h0
    change l.index m = (Function.update n.iface n.fresh g j).index at hm
    change m = (Function.update n.iface n.fresh g j).name
    rcases List.mem_cons.1 hj with rfl | hj
    · rw [Function.update_self] at h0 hm ⊢
      exact l.index_injective (hm.trans (hindex.resolve_left h0).symm) (by rw [hm]; exact h0)
    · rw [Function.update_of_ne (h.lt_fresh j hj).ne] at h0 hm ⊢
      exact h.owner j hj m h0 hm
  held k hk := by rw [Net.holders_alloc h.lt_fresh, hheld k hk, h.held k hk]
  dead := hdead

theorem erase (h : Joined l n s) (hi : i ∈ n.ifaces) (herase : n'.ifaces = n.ifaces.erase i)
    (hfresh : n'.fresh = n.fresh) (hother : ∀ j ≠ i, n'.iface j = n.iface j)
    (hheld : ∀ k : Membership, l.Has k.index →
      s' k = s k - if (n.iface i).needs k then 1 else 0)
    (hdead : ∀ k : Membership, ¬l.Has k.index → s' k = 0) : Joined l n' s' where
  lt_fresh j hj := by
    rw [herase] at hj
    rw [hfresh]
    exact h.lt_fresh j (List.mem_of_mem_erase hj)
  nodup := herase ▸ h.nodup.erase i
  owner j hj m h0 hm := by
    rw [herase, h.nodup.mem_erase_iff] at hj
    rw [hother j hj.1] at h0 hm ⊢
    exact h.owner j hj.2 m h0 hm
  held k hk := by
    have hcount := Net.holders_erase h.nodup hi herase hother k
    have := hheld k hk
    have := h.held k hk
    omega
  dead := hdead

/-! ### The interfaces of the kernel change -/

theorem create (h : Joined l n s) {m : IfName} {x : ℕ}
    (hnew : ∀ i ∈ n.ifaces, (n.iface i).index = x →
      (n.iface i).up = false ∧ (n.iface i).name = m) : Joined (l.create m x) n s := by
  by_cases hl : l.create m x = l
  · rw [hl]
    exact h
  obtain ⟨hindex, hx, hfree, hm⟩ := Links.index_create hl
  have hhas : ∀ y, (l.create m x).Has y ↔ y = x ∨ l.Has y := by
    intro y
    constructor
    · rintro ⟨hy, m', hm'⟩
      rw [hindex] at hm'
      split_ifs at hm'
      · exact .inl hm'.symm
      · exact .inr ⟨hy, m', hm'⟩
    · rintro (rfl | ⟨hy, m', hm'⟩)
      · exact ⟨hx, m, by rw [hindex, if_pos rfl]⟩
      · refine ⟨hy, m', ?_⟩
        rw [hindex, if_neg, hm']
        rintro rfl
        exact hy (hm'.symm.trans hm)
  refine ⟨h.lt_fresh, h.nodup, fun i hi m' h0 hm' => ?_, fun k hk => ?_, fun k hk => ?_⟩
  · rw [hindex] at hm'
    split_ifs at hm' with heq
    · rw [heq, (hnew i hi hm'.symm).2]
    · exact h.owner i hi m' h0 hm'
  · rcases (hhas k.index).1 hk with hkx | hk
    · -- No object relies on the new index.
      have hnone : n.holders k = 0 := by
        rw [Net.holders, List.countP_eq_zero]
        intro i hi hneeds
        obtain ⟨hup, hik, -⟩ := Iface.needs_eq_true.1 hneeds
        exact absurd ((hnew i hi (hik.trans hkx)).1.symm.trans hup) (by simp)
      rw [hnone]
      exact h.dead k fun hk => hfree (hkx ▸ hk)
    · exact h.held k hk
  · exact h.dead k fun hk' => hk ((hhas k.index).2 (.inr hk'))

theorem delete (h : Joined l n s) (m : IfName) :
    Joined (l.delete m) n (s.forget (l.index m)) := by
  have hhas : ∀ y, (l.delete m).Has y ↔ l.Has y ∧ y ≠ l.index m := by
    intro y
    constructor
    · rintro ⟨hy, m', hm'⟩
      rw [Links.index_delete] at hm'
      split_ifs at hm' with hmm
      · exact absurd hm'.symm hy
      · refine ⟨⟨hy, m', hm'⟩, fun hyx => hmm ?_⟩
        exact l.index_injective (hm'.trans hyx) (by rw [hm']; exact hy)
    · rintro ⟨⟨hy, m', hm'⟩, hne⟩
      refine ⟨hy, m', ?_⟩
      rw [Links.index_delete, if_neg, hm']
      rintro rfl
      exact hne hm'.symm
  refine ⟨h.lt_fresh, h.nodup, fun i hi m' h0 hm' => ?_, fun k hk => ?_, fun k hk => ?_⟩
  · rw [Links.index_delete] at hm'
    split_ifs at hm'
    · exact absurd hm'.symm h0
    · exact h.owner i hi m' h0 hm'
  · obtain ⟨hk, hne⟩ := (hhas k.index).1 hk
    rw [Socket.forget, if_neg hne]
    exact h.held k hk
  · rw [Socket.forget]
    split_ifs with hkm
    · rfl
    · exact h.dead k fun hk' => hk ((hhas k.index).2 ⟨hk', hkm⟩)

/-! ### The daemon runs an operation -/

variable {e : Env}

/-- An object that is up or waits has no index of an interface but its own. -/
theorem index_of_has (h : Joined l n s) (hi : i ∈ n.ifaces) (hx : l.Has (n.iface i).index) :
    l.index (n.iface i).name = (n.iface i).index := by
  obtain ⟨h0, m, hm⟩ := hx
  rw [← h.owner i hi m h0 hm, hm]

theorem opened (h : Joined l n s) (hk : e.kernel.Serves l) {name : Option IfName} {index : ℕ}
    {promiscuous : Bool} {acts : List Act} (hcase : OpenCase e name index promiscuous n n' acts) :
    Joined l n' (s.replay acts) := by
  cases hcase with
  | failed => exact h
  | refused x => exact h
  | shared i hi => exact h.set_same hi rfl rfl fun _ _ => rfl
  | waiting m _ _ _ =>
    exact h.alloc (.inl rfl) (fun k _ => by simp [Socket.replay, Iface.needs]) h.dead
  | created m x lladdr hr _ _ =>
    obtain ⟨hx, h0⟩ := hk.index_of_resolve hr
    have hneeds : ∀ k : Membership, (if k = ⟨x, promiscuous⟩ then 1 else 0) =
        if Iface.needs { index := x, up := true, refcount := 1, lladdr, promiscuous, name := m } k
          then 1 else 0 := fun k => by simp only [Iface.needs_iff]
    refine h.alloc (.inr hx) (fun k _ => ?_) fun k hk => ?_
    · rw [← hneeds]
      exact s.apply_add x promiscuous k
    · refine (s.apply_add x promiscuous k).trans ?_
      rw [h.dead k hk, if_neg]
      rintro rfl
      exact hk ⟨h0, m, hx⟩

theorem closed (h : Joined l n s) (hi : i ∈ n.ifaces) {acts : List Act}
    (hcase : CloseCase i n n' acts) : Joined l n' (s.replay acts) := by
  cases hcase with
  | kept => exact h.set_same hi rfl rfl fun _ _ => rfl
  | left n' hup herase hfresh hother =>
    refine h.erase hi herase hfresh hother (fun k _ => ?_) fun k hk => ?_
    · simp only [Iface.needs_iff hup]
      exact s.apply_drop _ _ k
    · refine (s.apply_drop _ _ k).trans ?_
      rw [h.dead k hk, Nat.zero_sub]
  | freed n' hdown herase hfresh hother =>
    exact h.erase hi herase hfresh hother (fun k _ => by simp [Socket.replay, Iface.needs, hdown])
      h.dead

/-- An object gets the index of its interface. The index it had before is of no
    interface, so that what is given up there was lost already. -/
theorem moved (h : Joined l n s) (hi : i ∈ n.ifaces) (hg : g.name = (n.iface i).name)
    (hp : g.promiscuous = (n.iface i).promiscuous) (hup : g.up = true) (h0 : g.index ≠ 0)
    (hindex : l.index g.name = g.index)
    (hne : ¬(g.index = (n.iface i).index ∧ (n.iface i).up = true)) :
    Joined l (n.set i g) (s.replay
      ((if (n.iface i).index ≠ 0 ∧ (n.iface i).index ≠ g.index then
          [.dropMembership (n.iface i).index (n.iface i).promiscuous] else []) ++
        [.addMembership g.index (n.iface i).promiscuous true])) := by
  have hhas : l.Has g.index := ⟨h0, g.name, hindex⟩
  have hown : l.Has (n.iface i).index → g.index = (n.iface i).index := fun hx => by
    rw [← hindex, hg, h.index_of_has hi hx]
  have hneeds : ∀ k : Membership, l.Has k.index → (n.iface i).needs k = false := by
    refine fun k hk => Bool.eq_false_iff.2 fun hneeds => hne ?_
    obtain ⟨hold, hik, -⟩ := Iface.needs_eq_true.1 hneeds
    exact ⟨hown (hik ▸ hk), hold⟩
  have hself : ∀ k : Membership, g.needs k = true ↔ k = ⟨g.index, (n.iface i).promiscuous⟩ := by
    intro k
    rw [Iface.needs_iff hup, hp]
  refine h.set hi hg (.inr hindex) (fun k hk => ?_) fun k hk => ?_
  · have hlost : ¬(((n.iface i).index ≠ 0 ∧ (n.iface i).index ≠ g.index) ∧
        k = ⟨(n.iface i).index, (n.iface i).promiscuous⟩) := by
      rintro ⟨⟨-, hdrop⟩, rfl⟩
      exact hdrop (hown hk).symm
    simp only [Socket.replay_move, hneeds k hk, hself, if_neg hlost, Bool.false_eq_true, if_false,
      Nat.add_zero, Nat.sub_zero]
  · have hother : k ≠ ⟨g.index, (n.iface i).promiscuous⟩ := by
      rintro rfl
      exact hk hhas
    rw [Socket.replay_move, if_neg hother, h.dead k hk, Nat.zero_add, Nat.zero_sub]

/-- One object of a pass. -/
theorem rebound (h : Joined l n s) (hk : e.kernel.Serves l) (hi : i ∈ n.ifaces) :
    Joined l (n.set i (e.kernel.rebound (n.iface i)))
      (s.replay (e.kernel.rebindActs (n.iface i))) := by
  have hown := h.index_of_has hi
  have hindex := hk.index_eq (n.iface i).name
  have hjoin := hk.membership (n.iface i).name (n.iface i).promiscuous
  unfold Kernel.rebound Kernel.rebindActs
  obtain ⟨cur, errno, hname⟩ : ∃ cur errno,
    e.kernel.ifNametoindex (n.iface i).name = (cur, errno) := ⟨_, _, rfl⟩
  simp only [hname] at hindex ⊢
  rw [← hindex] at hown hjoin
  by_cases hcur : cur = 0
  · have hnone : cur = 0 ∨ cur = (n.iface i).index ∧ (n.iface i).up = true := .inl hcur
    rw [if_pos hcur, if_pos hnone]
    split_ifs with habs
    · refine h.set_same hi rfl rfl fun k hk => ?_
      -- The object had the index of no interface: nobody relied on `k` here.
      have hno : (n.iface i).needs k = false := by
        refine Bool.eq_false_iff.2 fun hneeds => hk.1 ?_
        have hik := (Iface.needs_eq_true.1 hneeds).2.1
        rw [← hik, ← hown (hik ▸ hk), hcur]
      rw [hno]
      rfl
    · exact h.set_same hi rfl rfl fun _ _ => rfl
  by_cases hsame : cur = (n.iface i).index ∧ (n.iface i).up = true
  · have hnone : cur = 0 ∨ cur = (n.iface i).index ∧ (n.iface i).up = true := .inr hsame
    rw [if_neg hcur, if_pos hsame, if_pos hnone]
    exact h.set_same hi rfl rfl fun _ _ => rfl
  have hnew : ¬(cur = 0 ∨ cur = (n.iface i).index ∧ (n.iface i).up = true) :=
    not_or.2 ⟨hcur, hsame⟩
  rw [if_neg hcur, if_neg hsame, if_pos (hjoin hcur), if_neg hnew, if_pos (hjoin hcur)]
  exact h.moved hi rfl rfl rfl hcur hindex.symm hsame

/-- A pass. -/
theorem rebindAll (h : Joined l n s) (hk : e.kernel.Serves l) {m : Mem} (hm : m.world.net = n) :
    ∃ acts, (ndIfaceRebindAll e m).world.memberships = acts ++ m.world.memberships ∧
      Joined l (ndIfaceRebindAll e m).world.net (s.replay acts) := by
  subst hm
  let P (_ : List IfaceId) (net : Net) (acts : List Act) : Prop :=
    net.ifaces = m.world.net.ifaces ∧ Joined l net (s.replay acts)
  have hstep : ∀ l' i net acts, (l' ++ [i]) <+: m.world.net.ifaces → P l' net acts →
      P (l' ++ [i]) (net.set i (e.kernel.rebound (net.iface i)))
        (e.kernel.rebindActs (net.iface i) ++ acts) := by
    rintro l' i net acts hl' ⟨hifaces, hj⟩
    refine ⟨hifaces, ?_⟩
    have hi : i ∈ net.ifaces := hifaces ▸ hl'.subset (by simp)
    rw [Socket.replay_append]
    exact hj.rebound hk hi
  obtain ⟨acts, hacts, -, hj⟩ := ndIfaceRebindAll_rule (P := P) e m ⟨rfl, h⟩ hstep
  exact ⟨acts, hacts, hj⟩

/-- An object that is up with the index of its interface is heard. -/
theorem one_le (h : Joined l n s) (hi : i ∈ n.ifaces) (hup : (n.iface i).up = true)
    (hx : l.Has (n.iface i).index) :
    1 ≤ s ⟨(n.iface i).index, (n.iface i).promiscuous⟩ := by
  rw [h.held _ hx, Net.holders, Nat.one_le_iff_ne_zero, Ne, List.countP_eq_zero]
  exact fun hnone => hnone i hi ((Iface.needs_iff hup).2 rfl)

end Joined

/-! ## Runs -/

namespace NetState

variable {s : NetState} {ev : NetEvent} {evs : List NetEvent}

theorem step_joined (h : Joined s.links s.world.net s.socket) (hl : s.Lawful ev)
    (hc : s.Careful ev) : Joined (s.step ev).links (s.step ev).world.net (s.step ev).socket := by
  cases ev with
  | create n x => exact h.create hc
  | delete n => exact h.delete n
  | call e sessions op =>
    obtain ⟨hk, hop⟩ := hl
    obtain ⟨acts, hacts, hj⟩ : ∃ acts,
        (op.exec e sessions s.world).memberships = acts ++ s.world.memberships ∧
          Joined s.links (op.exec e sessions s.world).net (s.socket.replay acts) := by
      cases op with
      | openIface name index promiscuous =>
        obtain ⟨acts, hacts, hcase⟩ := openCase e name index promiscuous s.world
        exact ⟨acts, hacts, h.opened hk hcase⟩
      | closeIface i =>
        obtain ⟨acts, hacts, hcase⟩ := closeCase e i s.world
        exact ⟨acts, hacts, h.closed hop hcase⟩
      | rebindAll => exact h.rebindAll hk rfl
    rw [← World.membershipsSince_eq hacts] at hj
    exact hj

theorem run_concat (evs : List NetEvent) (ev : NetEvent) : run (evs ++ [ev]) = (run evs).step ev :=
  List.foldl_concat ..

theorem run_joined (h : All step (fun s ev => s.Lawful ev ∧ s.Careful ev) empty evs) :
    Joined (run evs).links (run evs).world.net (run evs).socket :=
  h.invariant (I := fun s => Joined s.links s.world.net s.socket) .empty
    fun _ _ hs hev => step_joined hs hev.1 hev.2

/-- In every run whose calls on existing interfaces succeed, and in which an index is
    used again only when it is safe, after every pass the objects that are up have
    the indexes of their interfaces, and the socket is a member of them. -/
theorem netRun_joined {e : Env} {sessions : Store}
    (h : All step (fun s ev => s.Lawful ev ∧ s.Careful ev) empty
      (evs ++ [.call e sessions .rebindAll])) :
    (run (evs ++ [.call e sessions .rebindAll])).Hears := by
  have hj := run_joined h
  rw [all_concat] at h
  have hk : e.kernel.Serves (run evs).links := h.2.1.1
  have hj₀ := run_joined h.1
  rw [run_concat] at hj ⊢
  obtain ⟨hifaces, -, hdone⟩ := ndIfaceRebindAll_net e ⟨sessions, (run evs).world⟩ hj₀.nodup
  intro i hi hup
  have hi' : i ∈ (run evs).world.net.ifaces := hifaces ▸ hi
  have hobj : ((run evs).step (.call e sessions .rebindAll)).world.net.iface i =
      e.kernel.rebound ((run evs).world.net.iface i) := hdone i hi'
  have hsettle := (hk.settles ((run evs).world.net.iface i)).index_eq (hobj ▸ hup)
  rw [hk.index_eq, ← Kernel.rebound_name e.kernel, ← hobj] at hsettle
  have hlinks : ((run evs).step (.call e sessions .rebindAll)).links = (run evs).links := rfl
  have h0 := hsettle.2 ▸ hsettle.1
  rw [hlinks]
  exact ⟨h0, hsettle.2.symm, hj.one_le hi hup ⟨h0, _, hsettle.2.symm⟩⟩

end NetState

/-! ## Examples -/

namespace Small

/-- An operation, on a kernel with the interfaces `l`. -/
def call (l : Links) (op : IfaceOp) : NetEvent :=
  .call { kernel := kernelOf l, conf, cfg := .empty, rt := {}, now := 0 } .empty op

/-- The interface `[1]`, with the index 3. -/
def link : Links := Links.empty.create [1] 3

/-- The interface is deleted, and created again with the same index after a pass has
    seen that it was gone. -/
def flapped : List NetEvent :=
  [.create [1] 3, call link (.openIface (some [1]) 0 false), .delete [1],
    call (link.delete [1]) .rebindAll, .create [1] 3]

theorem flapped_hears :
    (NetState.run (flapped ++
      [call ((link.delete [1]).create [1] 3) .rebindAll])).world.net.receiver 3 = some 0 ∧
    (NetState.run (flapped ++ [call ((link.delete [1]).create [1] 3) .rebindAll])).Hears := by
  refine ⟨by decide +kernel, NetState.netRun_joined ?_⟩
  exact ⟨⟨trivial, by simp [NetState.Careful, NetState.empty, Net.empty]⟩,
    ⟨⟨serves _, trivial⟩, trivial⟩, ⟨trivial, trivial⟩, ⟨⟨serves _, trivial⟩, trivial⟩,
    ⟨trivial, by unfold NetState.Careful; decide +kernel⟩, ⟨⟨serves _, trivial⟩, trivial⟩, trivial⟩

/-- The same, without a pass in between. -/
def reused : List NetEvent :=
  [.create [1] 3, call link (.openIface (some [1]) 0 false), .delete [1], .create [1] 3]

/-- The object is up, and the socket is not a member of its interface. -/
theorem reused_deaf :
    All NetState.step NetState.Lawful NetState.empty
      (reused ++ [call ((link.delete [1]).create [1] 3) .rebindAll]) ∧
    ¬(NetState.run (reused ++ [call ((link.delete [1]).create [1] 3) .rebindAll])).Hears := by
  refine ⟨⟨trivial, ⟨serves _, trivial⟩, trivial, trivial, ⟨serves _, trivial⟩, trivial⟩,
    fun h => ?_⟩
  have := (h 0 (by decide +kernel) (by decide +kernel)).2.2
  exact absurd this (by decide +kernel)

end Small

end Ndppd
