import Ndppd.Netdev
import Ndppd.Routes

/-!
# Passes converge

A pass over the interfaces brings the objects in line with the kernel
(`Kernel.Agrees`), if the calls it makes succeed. The next one finds nothing to do,
unless the interfaces have changed: it leaves the whole state as it is, so it asks
for no membership and no route (`rebindAll_converges`).

The lists of objects are those `Net.Sound` describes: an object is in the list once,
and one that is waiting for its interface is not known to be up. There are no other
ones (`Built.sound`).
-/

namespace Ndppd

variable {e : Env} {k : Kernel} {g g' : Iface} {m : Mem} {w : World} {n n' : Net} {f : IfaceId}

/-! ## One object -/

/-- The object `g` is now `g'`, as the kernel has its interface. -/
structure Kernel.Agrees (k : Kernel) (g g' : Iface) : Prop where
  name : g'.name = g.name
  proxy : g'.proxy = g.proxy
  promiscuous : g'.promiscuous = g.promiscuous
  refcount : g'.refcount = g.refcount
  absent : (k.ifNametoindex g.name).1 = 0 → g'.up = false ∧ g'.adminUp = false
  present : (k.ifNametoindex g.name).1 ≠ 0 → g'.up = true ∧
    g'.index = (k.ifNametoindex g.name).1 ∧ k.hwaddr g.name = some g'.lladdr ∧
      k.flags g.name = some g'.adminUp

theorem Kernel.agrees_rebound (h : k.Succeeds g) (hwait : g.up = false → g.adminUp = false) :
    k.Agrees g (k.rebound g) := by
  unfold Kernel.Succeeds at h
  unfold Kernel.rebound
  obtain ⟨cur, errno, hname⟩ : ∃ cur errno, k.ifNametoindex g.name = (cur, errno) := ⟨_, _, rfl⟩
  simp only [hname] at h ⊢
  by_cases hcur : cur = 0
  · rw [if_pos hcur] at h
    have hknown := Errno.known_of_ne_other h
    have hzero : (k.ifNametoindex g.name).1 = 0 := by rw [hname]; exact hcur
    rw [if_pos hcur]
    cases hup : g.up with
    | true =>
      rw [if_pos ⟨hknown, rfl⟩]
      exact ⟨rfl, rfl, rfl, rfl, fun _ => ⟨rfl, rfl⟩, fun hne => absurd hzero hne⟩
    | false =>
      rw [if_neg (by simp)]
      exact ⟨rfl, rfl, rfl, rfl, fun _ => ⟨hup, hwait hup⟩, fun hne => absurd hzero hne⟩
  · rw [if_neg hcur] at h ⊢
    obtain ⟨hw, flags, hmember⟩ := h
    obtain ⟨lladdr, hw⟩ := Option.isSome_iff_exists.1 hw
    obtain ⟨adminUp, flags⟩ := Option.isSome_iff_exists.1 flags
    rw [hw, flags, Option.getD_some, Option.getD_some]
    by_cases hsame : cur = g.index ∧ g.up = true
    · rw [if_pos hsame]
      refine ⟨rfl, rfl, rfl, rfl, fun h0 => absurd h0 (by rw [hname]; exact hcur), fun _ => ?_⟩
      exact ⟨hsame.2, by rw [hname]; exact hsame.1.symm, hw, flags⟩
    · rw [if_neg hsame, if_pos (hmember hsame)]
      refine ⟨rfl, rfl, rfl, rfl, fun h0 => absurd h0 (by rw [hname]; exact hcur), fun _ => ?_⟩
      exact ⟨rfl, by rw [hname], hw, flags⟩

theorem Mem.setIface_self (m : Mem) (f : IfaceId) : m.setIface f (m.world.net.iface f) = m := by
  unfold Mem.setIface
  rw [Net.set, Function.update_eq_self]

/-- There is nothing to do for an object which is as the kernel has it. -/
theorem rebindIface_of_agrees (h : e.kernel.Agrees (m.world.net.iface f) (m.world.net.iface f)) :
    rebindIface e m f = m := by
  obtain ⟨-, -, -, -, habsent, hpresent⟩ := h
  unfold rebindIface
  generalize hg : m.world.net.iface f = g at habsent hpresent ⊢
  obtain ⟨cur, errno, hname⟩ : ∃ cur errno, e.kernel.ifNametoindex g.name = (cur, errno) :=
    ⟨_, _, rfl⟩
  simp only [hname] at habsent hpresent ⊢
  by_cases hcur : cur = 0
  · have hdown : rebindAbsent e f m = m := by
      rw [rebindAbsent, hg, if_neg (by simp [(habsent hcur).1])]
    rw [if_pos hcur, hdown, ite_self]
  · obtain ⟨hup, hindex, hw, hflags⟩ := hpresent hcur
    have hself : m.setIface f g = m := hg ▸ m.setIface_self f
    rw [if_neg hcur, if_pos ⟨hindex.symm, hup⟩, hw, hflags, Option.getD_some, Option.getD_some,
      hself, rebindSame, hg]
    simp only [bne_self_eq_false, Bool.false_eq_true, if_false, hg]
    exact hself

/-! ## The objects there are -/

/-- An object which is waiting for its interface is not known to be up. -/
def Iface.Sound (g : Iface) : Prop := g.up = false → g.adminUp = false

/-- An object is in the list once, and has been created; it may be waiting. -/
structure Net.Sound (n : Net) : Prop where
  nodup : n.ifaces.Nodup
  lt_fresh : ∀ f ∈ n.ifaces, f < n.fresh
  waiting : ∀ f ∈ n.ifaces, (n.iface f).Sound

theorem Net.Sound.set (h : n.Sound) (hg : f ∈ n.ifaces → g.Sound) : (n.set f g).Sound where
  nodup := h.nodup
  lt_fresh := h.lt_fresh
  waiting j hj := by
    by_cases hjf : j = f
    · subst hjf
      rw [n.set_iface_self]
      exact hg hj
    · rw [n.set_iface_of_ne g hjf]
      exact h.waiting j hj

theorem Net.Sound.alloc (h : n.Sound) (hg : g.Sound) : (n.alloc g).Sound where
  nodup := List.nodup_cons.2 ⟨fun hmem => (h.lt_fresh _ hmem).false, h.nodup⟩
  lt_fresh := List.forall_mem_cons.2
    ⟨Nat.lt_succ_self _, fun f hf => (h.lt_fresh f hf).trans (Nat.lt_succ_self _)⟩
  waiting := by
    refine List.forall_mem_cons.2 ⟨?_, fun f hf => ?_⟩
    · have hnew : (n.alloc g).iface n.fresh = g := Function.update_self ..
      rw [hnew]
      exact hg
    · have hold : (n.alloc g).iface f = n.iface f := Function.update_of_ne (h.lt_fresh f hf).ne ..
      rw [hold]
      exact h.waiting f hf

theorem Net.Sound.erase (h : n.Sound) (hifaces : n'.ifaces = n.ifaces.erase f)
    (hfresh : n'.fresh = n.fresh) (hother : ∀ j ≠ f, n'.iface j = n.iface j) : n'.Sound where
  nodup := hifaces ▸ h.nodup.erase f
  lt_fresh j hj := by
    rw [hifaces] at hj
    rw [hfresh]
    exact h.lt_fresh j (List.mem_of_mem_erase hj)
  waiting j hj := by
    rw [hifaces, h.nodup.mem_erase_iff] at hj
    rw [hother j hj.1]
    exact h.waiting j hj.2

/-- A pass may find anything out, or nothing. -/
theorem Iface.Sound.rebound (h : g.Sound) (k : Kernel) : (k.rebound g).Sound := by
  unfold Kernel.rebound
  dsimp only
  split_ifs with hcur habsent hsame
  · exact fun _ => rfl
  · exact h
  · exact fun hdown => absurd (hsame.2.symm.trans hdown) (by simp)
  · exact fun hdown => absurd hdown (by simp)
  · exact h

/-- The lists of objects the daemon may have: they are opened, shared, given to
    proxies, closed and visited in passes, in any order, and the kernel may answer
    anything. -/
inductive Built : World → Prop
  | start (log : List Entry) : Built { net := .empty, log }
  | exec {w : World} (e : Env) (sessions : Store) (op : IfaceOp) :
      Built w → Built (op.exec e sessions w)
  | shared {w : World} (f : IfaceId) : Built w → Built { w with net := w.net.addRef f }
  | proxied {w : World} (f : IfaceId) (p : ProxyId) : Built w →
      Built { w with net := w.net.set f { w.net.iface f with proxy := some p } }

theorem Net.Sound.exec (h : w.net.Sound) (e : Env) (sessions : Store) (op : IfaceOp) :
    (op.exec e sessions w).net.Sound := by
  cases op with
  | openIface name index promiscuous =>
    obtain ⟨acts, -, hcase⟩ := openCase e name index promiscuous w
    rw [IfaceOp.exec]
    generalize (ndIfaceOpen e name index promiscuous w).2.net = n' at hcase
    cases hcase with
    | failed => exact h
    | refused => exact h
    | shared i hi => exact h.set fun hi => h.waiting i hi
    | waiting => exact h.alloc fun _ => rfl
    | created => exact h.alloc fun _ => rfl
  | closeIface f =>
    obtain ⟨acts, -, hcase⟩ := closeCase e f w
    rw [IfaceOp.exec]
    generalize (ndIfaceClose e f w).net = n' at hcase
    cases hcase with
    | kept => exact h.set fun hf => h.waiting f hf
    | left n' _ hifaces hfresh hother => exact h.erase hifaces hfresh hother
    | freed n' _ hifaces hfresh hother => exact h.erase hifaces hfresh hother
  | rebindAll =>
    obtain ⟨hifaces, hfresh, hiface⟩ := ndIfaceRebindAll_net e ⟨sessions, w⟩ h.nodup
    rw [IfaceOp.exec]
    refine ⟨hifaces ▸ h.nodup, fun f hf => ?_, fun f hf => ?_⟩
    · rw [hfresh]
      exact h.lt_fresh f (hifaces ▸ hf)
    · rw [hifaces] at hf
      rw [hiface f hf]
      exact (h.waiting f hf).rebound e.kernel

theorem Built.sound (h : Built w) : w.net.Sound := by
  induction h with
  | start => exact ⟨List.nodup_nil, by simp [Net.empty], by simp [Net.empty]⟩
  | exec e sessions op _ ih => exact ih.exec e sessions op
  | shared f _ ih => exact ih.set fun hf => ih.waiting f hf
  | proxied f p _ ih => exact ih.set fun hf => ih.waiting f hf

/-! ## Passes -/

theorem foldl_rebindIface_of_agrees (l : List IfaceId)
    (h : ∀ f ∈ l, e.kernel.Agrees (m.world.net.iface f) (m.world.net.iface f)) :
    l.foldl (rebindIface e) m = m := by
  induction l with
  | nil => rfl
  | cons f l ih =>
    rw [List.foldl_cons, rebindIface_of_agrees (h f List.mem_cons_self)]
    exact ih fun j hj => h j (List.mem_cons_of_mem f hj)

/-- After a pass whose calls succeed, every object is as the kernel has its
    interface, and another pass changes nothing. The sessions may be any. Every list
    of objects the daemon builds is such a list. -/
theorem rebindAll_converges (e : Env) (m : Mem) (hn : m.world.net.Sound)
    (hk : ∀ f ∈ m.world.net.ifaces, e.kernel.Succeeds (m.world.net.iface f)) :
    (∀ w, Built w → w.net.Sound) ∧
    (ndIfaceRebindAll e m).world.net.ifaces = m.world.net.ifaces ∧
    (∀ f ∈ m.world.net.ifaces, e.kernel.Agrees (m.world.net.iface f)
      ((ndIfaceRebindAll e m).world.net.iface f)) ∧
    ∀ e' : Env, e'.kernel = e.kernel →
      ndIfaceRebindAll e' (ndIfaceRebindAll e m) = ndIfaceRebindAll e m := by
  obtain ⟨hifaces, -, hiface⟩ := ndIfaceRebindAll_net e m hn.nodup
  have hagrees : ∀ f ∈ m.world.net.ifaces, e.kernel.Agrees (m.world.net.iface f)
      ((ndIfaceRebindAll e m).world.net.iface f) := by
    intro f hf
    rw [hiface f hf]
    exact Kernel.agrees_rebound (hk f hf) (hn.waiting f hf)
  refine ⟨fun w hw => hw.sound, hifaces, hagrees, fun e' he' => ?_⟩
  refine foldl_rebindIface_of_agrees _ fun f hf => ?_
  have h := hagrees f (hifaces ▸ hf)
  rw [he']
  refine ⟨rfl, rfl, rfl, rfl, fun h0 => h.absent ?_, fun hne => ?_⟩
  · rw [← h.name]
    exact h0
  · rw [h.name] at hne ⊢
    exact h.present hne

/-! ## The small network -/

instance (g : Iface) : Decidable g.Sound := inferInstanceAs (Decidable (_ → _))

instance (k : Kernel) (g : Iface) : Decidable (k.Succeeds g) := by
  unfold Kernel.Succeeds
  dsimp only
  infer_instance

namespace Small

/-- An object which is waiting for an interface that is there now, one which has
    another index now, and one whose interface is gone. -/
def mixed : Mem where
  store := .empty
  world :=
    { net :=
        { ifaces := [2, 1, 0]
          iface := fun
            | 0 => { name := [1], up := false, refcount := 2 }
            | 1 => { name := [2], up := true, adminUp := true, index := 7, refcount := 1 }
            | _ => { name := [9], up := true, adminUp := true, index := 9, promiscuous := true }
          fresh := 3 }
      log := [] }

theorem mixed_sound : mixed.world.net.Sound := ⟨by decide, by decide, by decide⟩

/-- The pass binds two of them, and the other one waits. -/
theorem mixed_converges :
    let m := ndIfaceRebindAll ((daemon ifaceRule).env (event 5 .rebind)) mixed
    (m.world.net.ifaces.map fun f => ((m.world.net.iface f).up, (m.world.net.iface f).index)) =
      [(false, 9), (true, 2), (true, 1)] ∧
    ndIfaceRebindAll ((daemon ifaceRule).env (event 10 .rebind)) m = m := by
  have hall := rebindAll_converges ((daemon ifaceRule).env (event 5 .rebind)) mixed mixed_sound
    (by decide +kernel)
  exact ⟨by decide +kernel, hall.2.2.2 _ rfl⟩

end Small

end Ndppd
