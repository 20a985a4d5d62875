import Ndppd.Daemon.Links
import Ndppd.Lib.Guarded

/-!
# Network interfaces of the kernel

The interface layer on its own, over a kernel whose interfaces come and go. The
kernel gives an index to each interface it has (`Links`); its answers to the daemon
are about the interfaces it has at that time (`Kernel.Reports`), and calls may fail,
unless they are said to succeed (`Kernel.Serves`).

The operations of the layer are those of `IfaceOp`: opening an interface, by its
name or by its index, closing one, and a pass of `nd_iface_rebind_all`. What a pass
does to an object depends on the object and the answers of the kernel only
(`Kernel.rebound`, `ndIfaceRebindAll_iface`), and so do the memberships it asks for
(`Kernel.rebindActs`); the sessions, which may be anything, do not matter.
-/

namespace Ndppd

/-! ## The interfaces of the kernel -/

/-- The interfaces the kernel has, by name, and their indexes. -/
structure Links where
  list : List (IfName × ℕ)
  names_nodup : (list.map Prod.fst).Nodup
  indexes_nodup : (list.map Prod.snd).Nodup
  pos : ∀ x ∈ list, x.2 ≠ 0

namespace Links

variable {l : Links} {n n' : IfName} {x : ℕ}

/-- No interface. -/
def empty : Links where
  list := []
  names_nodup := List.nodup_nil
  indexes_nodup := List.nodup_nil
  pos _ h := absurd h List.not_mem_nil

/-- The index of an interface, or `0` if there is none of this name. -/
def index (l : Links) (n : IfName) : ℕ := (l.list.lookup n).getD 0

/-- The name of the interface with this index. -/
def name (l : Links) (x : ℕ) : Option IfName := (l.list.find? fun y => y.2 == x).map Prod.fst

/-- An interface is created. The kernel refuses a name or an index which is in use. -/
def create (l : Links) (n : IfName) (x : ℕ) : Links :=
  if h : n ∉ l.list.map Prod.fst ∧ x ∉ l.list.map Prod.snd ∧ x ≠ 0 then
    { list := (n, x) :: l.list
      names_nodup := List.nodup_cons.2 ⟨h.1, l.names_nodup⟩
      indexes_nodup := List.nodup_cons.2 ⟨h.2.1, l.indexes_nodup⟩
      pos := fun y hy => (List.mem_cons.1 hy).elim (fun hyx => hyx ▸ h.2.2) (l.pos y) }
  else l

/-- An interface is deleted. -/
def delete (l : Links) (n : IfName) : Links where
  list := l.list.filter fun y => y.1 != n
  names_nodup := l.names_nodup.sublist (List.filter_sublist.map _)
  indexes_nodup := l.indexes_nodup.sublist (List.filter_sublist.map _)
  pos y hy := l.pos y (List.mem_filter.1 hy).1

theorem mem_of_index (h : l.index n = x) (hx : x ≠ 0) : (n, x) ∈ l.list := by
  unfold index at h
  cases hn : l.list.lookup n with
  | none =>
    rw [hn] at h
    exact absurd h.symm hx
  | some y =>
    rw [hn, Option.getD_some] at h
    subst h
    obtain ⟨l₁, l₂, hl, -⟩ := List.lookup_eq_some_iff.1 hn
    rw [hl]
    simp

theorem index_of_mem (h : (n, x) ∈ l.list) : l.index n = x := by
  have hfst : ∀ y, (n, y) ∈ l.list → y = x := fun y hy =>
    congrArg Prod.snd (List.inj_on_of_nodup_map l.names_nodup hy h rfl)
  unfold index
  cases hn : l.list.lookup n with
  | none =>
    rw [List.lookup_eq_none_iff] at hn
    exact absurd (hn _ h) (by simp)
  | some y =>
    obtain ⟨l₁, l₂, hl, -⟩ := List.lookup_eq_some_iff.1 hn
    exact hfst y (by rw [hl]; simp)

/-- Two interfaces have different indexes. -/
theorem index_injective (h : l.index n = l.index n') (hn : l.index n ≠ 0) : n = n' :=
  congrArg Prod.fst (List.inj_on_of_nodup_map l.indexes_nodup (mem_of_index rfl hn)
    (mem_of_index rfl (h ▸ hn)) h)

end Links

/-! ## The answers of the kernel -/

/-- The kernel has the interfaces `l`: what it answers about names and indexes is
    true, if it answers at all. -/
structure Kernel.Reports (k : Kernel) (l : Links) : Prop where
  index : ∀ n, (k.ifNametoindex n).1 ≠ 0 → (k.ifNametoindex n).1 = l.index n
  absent : ∀ n, (k.ifNametoindex n).1 = 0 → (k.ifNametoindex n).2 ≠ .other → l.index n = 0
  name : ∀ x n, x ≠ 0 → k.ifIndextoname x = some n → l.index n = x

/-- The kernel has the interfaces `l`, and every call about one of them succeeds. -/
structure Kernel.Serves (k : Kernel) (l : Links) : Prop extends k.Reports l where
  answers : ∀ n, (k.ifNametoindex n).1 = 0 → (k.ifNametoindex n).2 ≠ .other
  resolves : ∀ n, l.index n ≠ 0 → (k.ifNametoindex n).1 ≠ 0
  hwaddr : ∀ n, l.index n ≠ 0 → (k.hwaddr n).isSome
  membership : ∀ n p, l.index n ≠ 0 → k.addMembership (l.index n) p = true

theorem Kernel.Serves.index_eq {k : Kernel} {l : Links} (h : k.Serves l) (n : IfName) :
    (k.ifNametoindex n).1 = l.index n := by
  by_cases h0 : (k.ifNametoindex n).1 = 0
  · rw [h0, h.absent n h0 (h.answers n h0)]
  · exact h.index n h0

/-! ## Operations -/

/-- The operations of the interface layer. -/
inductive IfaceOp
  | openIface (name : Option IfName) (index : ℕ) (promiscuous : Bool)
  | closeIface (i : IfaceId)
  | rebindAll

/-- Runs an operation. A pass may find any sessions. -/
def IfaceOp.exec (e : Env) (sessions : Store) (w : World) : IfaceOp → World
  | .openIface name index promiscuous => (ndIfaceOpen e name index promiscuous w).2
  | .closeIface i => ndIfaceClose e i w
  | .rebindAll => (ndIfaceRebindAll e { store := sessions, world := w }).world

/-- The memberships that were asked for or given up, the newest first. -/
def World.memberships (w : World) : List Act := (w.log.map Entry.act).filter Act.isMembership

@[simp] theorem World.memberships_emit (w : World) (e : Env) {a : Act}
    (ha : a.isMembership = true) : (w.emit e a).memberships = a :: w.memberships := by
  simp [World.memberships, ha]

@[simp] theorem World.memberships_mk (net : Net) (w : World) :
    ({ w with net := net } : World).memberships = w.memberships := rfl

/-! ## Passes -/

/-- What a pass does to an object, by the answers of the kernel. -/
def Kernel.rebound (k : Kernel) (g : Iface) : Iface :=
  let (cur, errno) := k.ifNametoindex g.name
  let adminUp := (k.flags g.name).getD false
  let g' := { g with lladdr := (k.hwaddr g.name).getD g.lladdr }
  if cur = 0 then
    if (errno = .ok ∨ errno = .enodev) ∧ g.up then { g with up := false, adminUp := false } else g
  else if cur = g.index ∧ g.up then { g' with adminUp := adminUp }
  else if k.addMembership cur g.promiscuous then
    { g' with index := cur, up := true, adminUp := adminUp }
  else g'

/-- The memberships a pass asks for and gives up for an object, the newest first. -/
def Kernel.rebindActs (k : Kernel) (g : Iface) : List Act :=
  let cur := (k.ifNametoindex g.name).1
  if cur = 0 ∨ (cur = g.index ∧ g.up) then []
  else if k.addMembership cur g.promiscuous then
    (if g.index ≠ 0 ∧ g.index ≠ cur then [.dropMembership g.index g.promiscuous] else []) ++
      [.addMembership cur g.promiscuous true]
  else [.addMembership cur g.promiscuous false]

/-- The calls a pass makes for this object succeed. -/
def Kernel.Settles (k : Kernel) (g : Iface) : Prop :=
  let (cur, errno) := k.ifNametoindex g.name
  if cur = 0 then errno ≠ .other
  else cur = g.index ∧ g.up = true ∨ k.addMembership cur g.promiscuous = true

instance (k : Kernel) (g : Iface) : Decidable (k.Settles g) := by
  unfold Kernel.Settles
  dsimp only
  infer_instance

/-- An interface is known to be absent, unless the question itself failed. -/
theorem Errno.known_of_ne_other {errno : Errno} (h : errno ≠ .other) :
    errno = .ok ∨ errno = .enodev := by
  cases errno with
  | ok => exact .inl rfl
  | enodev => exact .inr rfl
  | other => exact absurd rfl h

theorem Kernel.rebound_name (k : Kernel) (g : Iface) : (k.rebound g).name = g.name := by
  unfold Kernel.rebound
  dsimp only
  split_ifs <;> rfl

/-- An object that is up after a pass whose calls succeed has the index of its
    interface. -/
theorem Kernel.Settles.index_eq {k : Kernel} {g : Iface} (h : k.Settles g)
    (hup : (k.rebound g).up = true) :
    (k.ifNametoindex g.name).1 ≠ 0 ∧ (k.rebound g).index = (k.ifNametoindex g.name).1 := by
  unfold Kernel.Settles at h
  unfold Kernel.rebound at hup ⊢
  obtain ⟨cur, errno, hname⟩ : ∃ cur errno, k.ifNametoindex g.name = (cur, errno) := ⟨_, _, rfl⟩
  simp only [hname] at h hup ⊢
  by_cases hcur : cur = 0
  · rw [if_pos hcur] at h hup
    split_ifs at hup with habs
    exact absurd ⟨Errno.known_of_ne_other h, hup⟩ habs
  · rw [if_neg hcur] at h ⊢
    refine ⟨hcur, ?_⟩
    by_cases hsame : cur = g.index ∧ g.up = true
    · rw [if_pos hsame]
      exact hsame.1.symm
    · rw [if_neg hsame, if_pos (h.resolve_left hsame)]

theorem Kernel.Serves.settles {k : Kernel} {l : Links} (h : k.Serves l) (g : Iface) :
    k.Settles g := by
  have hanswers := h.answers g.name
  have hindex := h.index_eq g.name
  unfold Kernel.Settles
  obtain ⟨cur, errno, hname⟩ : ∃ cur errno, k.ifNametoindex g.name = (cur, errno) := ⟨_, _, rfl⟩
  simp only [hname] at hanswers hindex ⊢
  split_ifs with hcur
  · exact hanswers hcur
  · rw [hindex] at hcur ⊢
    exact .inr (h.membership g.name _ hcur)

/-- From `m` to `m'`, the object `i` becomes `g`, and the memberships `acts` are
    asked for and given up. -/
structure Rebinds (i : IfaceId) (g : Iface) (acts : List Act) (m m' : Mem) : Prop where
  net_eq : m'.world.net = m.world.net.set i g
  memberships_eq : m'.world.memberships = acts ++ m.world.memberships

namespace Rebinds

variable {e : Env} {i : IfaceId} {f g : Iface} {acts : List Act} {m m' m'' : Mem}

theorem refl (m : Mem) (i : IfaceId) : Rebinds i (m.world.net.iface i) [] m m := by
  refine ⟨?_, rfl⟩
  rw [Net.set, Function.update_eq_self]

theorem iface_eq (h : Rebinds i g acts m m') : m'.world.net.iface i = g := by
  rw [h.net_eq, Net.set_iface_self]

theorem setIface (h : Rebinds i f acts m m') (g : Iface) :
    Rebinds i g acts m (m'.setIface i g) := by
  refine ⟨?_, h.memberships_eq⟩
  change m'.world.net.set i g = m.world.net.set i g
  rw [h.net_eq, Net.set, Net.set, Net.set, Function.update_idem]

theorem emit (h : Rebinds i g acts m m') {a : Act} (ha : a.isMembership = true) :
    Rebinds i g (a :: acts) m (m'.emit e a) := by
  refine ⟨h.net_eq, ?_⟩
  rw [Mem.emit, World.memberships_emit _ _ ha, h.memberships_eq, List.cons_append]

theorem ifaceChanged (h : Rebinds i g acts m m') (up : Bool) :
    Rebinds i g acts m (ndSessionIfaceChanged e i up m') := by
  refine ⟨(ndSessionIfaceChanged_net ..).trans h.net_eq, ?_⟩
  refine ndSessionIfaceChanged_world (I := fun w => w.memberships = acts ++ m.world.memberships)
    e i up m' (fun j s w hw => ?_) h.memberships_eq
  unfold Ndppd.ifaceChanged ndLUp
  split_ifs
  · exact hw
  · exact hw
  · split
    · split_ifs
      · exact hw
      · exact hw
    · exact hw
  · exact hw

theorem ite {p : Prop} [Decidable p] (h : Rebinds i g acts m m')
    (h' : Rebinds i g acts m m' → Rebinds i g acts m m'') :
    Rebinds i g acts m (if p then m'' else m') := by
  split_ifs
  exacts [h' h, h]

/-- The fields `f` writes are those of the object as it is. -/
theorem modify (h : Rebinds i g acts m m') (f : Iface → Iface) :
    Rebinds i (f g) acts m (m'.setIface i (f (m'.world.net.iface i))) := by
  rw [h.iface_eq]
  exact h.setIface (f g)

theorem rebindAbsent (h : Rebinds i g acts m m') :
    Rebinds i (if g.up then { g with up := false, adminUp := false } else g) acts m
      (rebindAbsent e i m') := by
  unfold Ndppd.rebindAbsent
  simp only [h.iface_eq]
  split_ifs
  · exact (h.setIface _).ifaceChanged false
  · exact h

theorem rebindSame (h : Rebinds i g acts m m') (adminUp : Bool) :
    Rebinds i { g with adminUp := adminUp } acts m (rebindSame e i adminUp m') :=
  (h.ite fun h => h.ifaceChanged adminUp).modify fun g => { g with adminUp := adminUp }

theorem rebindNew_accepted (h : Rebinds i g acts m m') {cur : ℕ} {adminUp : Bool}
    (hacc : e.kernel.addMembership cur g.promiscuous = true) :
    Rebinds i { g with index := cur, up := true, adminUp := adminUp }
      ((if g.index ≠ 0 ∧ g.index ≠ cur then [.dropMembership g.index g.promiscuous] else []) ++
        .addMembership cur g.promiscuous true :: acts) m (rebindNew e i cur adminUp m') := by
  unfold rebindNew
  simp only [h.iface_eq, hacc, if_true]
  refine modify (f := fun g => { g with adminUp := adminUp }) (g := { g with
    index := cur, up := true }) (ite ?_ fun h => h.ifaceChanged true)
  refine modify (f := fun g => { g with index := cur, up := true }) (g := g)
    (ite ?_ fun h => h.ifaceChanged false)
  split_ifs
  · exact (h.emit rfl).emit rfl
  · exact h.emit rfl

theorem rebindNew_refused (h : Rebinds i g acts m m') {cur : ℕ} {adminUp : Bool}
    (hacc : e.kernel.addMembership cur g.promiscuous = false) :
    Rebinds i g (.addMembership cur g.promiscuous false :: acts) m
      (rebindNew e i cur adminUp m') := by
  unfold rebindNew
  simp only [h.iface_eq, hacc, Bool.false_eq_true, if_false]
  exact h.emit rfl

end Rebinds

/-- What a pass does to one object. -/
theorem rebindIface_rebinds (e : Env) (m : Mem) (i : IfaceId) :
    Rebinds i (e.kernel.rebound (m.world.net.iface i)) (e.kernel.rebindActs (m.world.net.iface i))
      m (rebindIface e m i) := by
  have h₀ := Rebinds.refl m i
  unfold rebindIface Kernel.rebound Kernel.rebindActs
  generalize m.world.net.iface i = g at h₀ ⊢
  obtain ⟨cur, errno, hname⟩ : ∃ cur errno, e.kernel.ifNametoindex g.name = (cur, errno) :=
    ⟨_, _, rfl⟩
  simp only [hname]
  by_cases hcur : cur = 0
  · have hnone : cur = 0 ∨ cur = g.index ∧ g.up = true := .inl hcur
    rw [if_pos hcur, if_pos hcur, if_pos hnone]
    by_cases herr : errno = .ok ∨ errno = .enodev
    · rw [if_pos herr]
      simp only [herr, true_and]
      exact h₀.rebindAbsent
    · rw [if_neg herr, if_neg fun habs => herr habs.1]
      exact h₀
  · have h₁ := h₀.setIface { g with lladdr := (e.kernel.hwaddr g.name).getD g.lladdr }
    rw [if_neg hcur, if_neg hcur]
    by_cases hsame : cur = g.index ∧ g.up
    · have hnone : cur = 0 ∨ cur = g.index ∧ g.up = true := .inr hsame
      rw [if_pos hsame, if_pos hsame, if_pos hnone]
      exact h₁.rebindSame _
    · have hsome : ¬(cur = 0 ∨ cur = g.index ∧ g.up = true) := not_or.2 ⟨hcur, hsame⟩
      rw [if_neg hsame, if_neg hsame, if_neg hsome]
      cases hacc : e.kernel.addMembership cur g.promiscuous with
      | true => exact h₁.rebindNew_accepted hacc
      | false => exact h₁.rebindNew_refused hacc

/-- Induction over a pass: `P l net acts` is for when the objects of `l` have been
    visited. -/
theorem ndIfaceRebindAll_rule {P : List IfaceId → Net → List Act → Prop} (e : Env) (m : Mem)
    (h₀ : P [] m.world.net [])
    (hstep : ∀ l i net acts, (l ++ [i]) <+: m.world.net.ifaces → P l net acts →
      P (l ++ [i]) (net.set i (e.kernel.rebound (net.iface i)))
        (e.kernel.rebindActs (net.iface i) ++ acts)) :
    ∃ acts, (ndIfaceRebindAll e m).world.memberships = acts ++ m.world.memberships ∧
      P m.world.net.ifaces (ndIfaceRebindAll e m).world.net acts := by
  have hloop : ∀ l, l <+: m.world.net.ifaces →
      ∃ acts, (l.foldl (rebindIface e) m).world.memberships = acts ++ m.world.memberships ∧
        P l (l.foldl (rebindIface e) m).world.net acts := by
    intro l
    induction l using List.reverseRecOn with
    | nil => exact fun _ => ⟨[], rfl, h₀⟩
    | append_singleton l i ih =>
      intro hl
      obtain ⟨acts, hacts, hP⟩ := ih ((List.prefix_append l [i]).trans hl)
      have hi := rebindIface_rebinds e (l.foldl (rebindIface e) m) i
      rw [List.foldl_concat]
      refine ⟨e.kernel.rebindActs ((l.foldl (rebindIface e) m).world.net.iface i) ++ acts, ?_, ?_⟩
      · rw [hi.memberships_eq, hacts, ← List.append_assoc]
      · rw [hi.net_eq]
        exact hstep l i _ acts hl hP
  exact hloop _ (List.prefix_refl _)

/-- A pass visits each object once. -/
theorem ndIfaceRebindAll_net (e : Env) (m : Mem) (hnodup : m.world.net.ifaces.Nodup) :
    (ndIfaceRebindAll e m).world.net.ifaces = m.world.net.ifaces ∧
      (ndIfaceRebindAll e m).world.net.fresh = m.world.net.fresh ∧
      ∀ i ∈ m.world.net.ifaces, (ndIfaceRebindAll e m).world.net.iface i =
        e.kernel.rebound (m.world.net.iface i) := by
  let P (l : List IfaceId) (net : Net) (_ : List Act) : Prop :=
    net.ifaces = m.world.net.ifaces ∧ net.fresh = m.world.net.fresh ∧
      (∀ i ∈ l, net.iface i = e.kernel.rebound (m.world.net.iface i)) ∧
      ∀ i ∉ l, net.iface i = m.world.net.iface i
  have hstep : ∀ l i net acts, (l ++ [i]) <+: m.world.net.ifaces → P l net acts →
      P (l ++ [i]) (net.set i (e.kernel.rebound (net.iface i)))
        (e.kernel.rebindActs (net.iface i) ++ acts) := by
    rintro l i net - hl ⟨hifaces, hfresh, hdone, hrest⟩
    have hi : i ∉ l := fun hi => by
      have := List.nodup_append.1 (hl.sublist.nodup hnodup)
      exact this.2.2 i hi i (List.mem_singleton_self i) rfl
    refine ⟨hifaces, hfresh, fun j hj => ?_, fun j hj => ?_⟩
    · rcases List.mem_append.1 hj with hj | hj
      · have hji : j ≠ i := fun hji => hi (hji ▸ hj)
        rw [net.set_iface_of_ne _ hji]
        exact hdone j hj
      · rw [List.mem_singleton.1 hj, Net.set_iface_self, hrest i hi]
    · rw [List.mem_append, List.mem_singleton, not_or] at hj
      rw [net.set_iface_of_ne _ hj.2]
      exact hrest j hj.1
  obtain ⟨-, -, hifaces, hfresh, hdone, -⟩ := ndIfaceRebindAll_rule (P := P) e m
    ⟨rfl, rfl, by simp, fun _ _ => rfl⟩ hstep
  exact ⟨hifaces, hfresh, hdone⟩

/-! ## Opening an interface -/

/-- The interface `nd_iface_open` is asked for, and its index. -/
def Kernel.resolve (k : Kernel) (name : Option IfName) (index : ℕ) : Option (IfName × ℕ) :=
  match name with
  | some n => if (k.ifNametoindex n).1 = 0 then none else some (n, (k.ifNametoindex n).1)
  | none => if index = 0 then none else (k.ifIndextoname index).map fun n => (n, index)

theorem Kernel.Reports.index_of_resolve {k : Kernel} {l : Links} (h : k.Reports l)
    {name : Option IfName} {index : ℕ} {n : IfName} {x : ℕ}
    (hr : k.resolve name index = some (n, x)) : l.index n = x ∧ x ≠ 0 := by
  unfold Kernel.resolve at hr
  cases name with
  | some name =>
    dsimp only at hr
    split_ifs at hr with h0
    obtain ⟨rfl, rfl⟩ := Prod.mk.inj (Option.some.inj hr)
    exact ⟨(h.index name h0).symm, h0⟩
  | none =>
    dsimp only at hr
    split_ifs at hr with h0
    obtain ⟨m, hm, hmn⟩ := Option.map_eq_some_iff.1 hr
    obtain ⟨rfl, rfl⟩ := Prod.mk.inj hmn
    exact ⟨h.name index m h0 hm, h0⟩

/-- The result of `nd_iface_open`, on the objects and the memberships. -/
inductive OpenCase (e : Env) (name : Option IfName) (index : ℕ) (promiscuous : Bool) (n : Net) :
    Net → List Act → Prop
  /-- The interface does not open. -/
  | failed : OpenCase e name index promiscuous n n []
  /-- The kernel refuses the membership. -/
  | refused (x : ℕ) : OpenCase e name index promiscuous n n [.addMembership x promiscuous false]
  /-- An object is shared. -/
  | shared (i : IfaceId) : i ∈ n.ifaces → OpenCase e name index promiscuous n (n.addRef i) []
  /-- There is no interface of this name: an object waits for it. -/
  | waiting (m : IfName) : name = some m → (e.kernel.ifNametoindex m).1 = 0 →
      (∀ i ∈ n.ifaces, (n.iface i).name ≠ m) →
      OpenCase e name index promiscuous n
        (n.alloc { refcount := 1, promiscuous, up := false, name := m }) []
  /-- An object is created. No object is up with this index, or waiting for this name. -/
  | created (m : IfName) (x : ℕ) (lladdr : LlAddr) : e.kernel.resolve name index = some (m, x) →
      (∀ i ∈ n.ifaces, (n.iface i).up = true → (n.iface i).index ≠ x) →
      (∀ i ∈ n.ifaces, (n.iface i).up = false → (n.iface i).name ≠ m) →
      OpenCase e name index promiscuous n
        (n.alloc { index := x, up := true, refcount := 1, lladdr, promiscuous, name := m })
        [.addMembership x promiscuous true]

theorem find?_eq_none {n : Net} {q : Iface → Bool}
    (h : (n.ifaces.find? fun i => q (n.iface i)) = none) :
    ∀ i ∈ n.ifaces, q (n.iface i) = false := by
  intro i hi
  have := List.find?_eq_none.1 h i hi
  simpa using this

theorem openCaseAt (e : Env) (name : Option IfName) (index : ℕ) (promiscuous : Bool) (w : World)
    {m : IfName} {x : ℕ} (hr : e.kernel.resolve name index = some (m, x)) :
    ∃ acts, (ndIfaceOpenAt e m x promiscuous w).2.memberships = acts ++ w.memberships ∧
      OpenCase e name index promiscuous w.net (ndIfaceOpenAt e m x promiscuous w).2.net acts := by
  unfold ndIfaceOpenAt
  split
  · next i hi => exact ⟨[], rfl, .shared i (List.mem_of_find?_eq_some hi)⟩
  · next hup =>
    have hup := find?_eq_none (q := fun g => g.index == x && g.up) hup
    split
    · next i hi => exact ⟨[], rfl, .shared i (List.mem_of_find?_eq_some hi)⟩
    · next hwait =>
      have hwait := find?_eq_none (q := fun g => !g.up && g.name == m) hwait
      split
      · exact ⟨[], rfl, .failed⟩
      · next lladdr _ =>
        cases hacc : e.kernel.addMembership x promiscuous with
        | false =>
          exact ⟨[.addMembership x promiscuous false], w.memberships_emit e rfl, .refused x⟩
        | true =>
          refine ⟨[.addMembership x promiscuous true], w.memberships_emit e rfl,
            .created m x lladdr hr ?_ ?_⟩
          · intro i hi hu
            simpa [hu] using hup i hi
          · intro i hi hu
            simpa [hu] using hwait i hi

theorem openCase (e : Env) (name : Option IfName) (index : ℕ) (promiscuous : Bool) (w : World) :
    ∃ acts, (ndIfaceOpen e name index promiscuous w).2.memberships = acts ++ w.memberships ∧
      OpenCase e name index promiscuous w.net (ndIfaceOpen e name index promiscuous w).2.net
        acts := by
  unfold ndIfaceOpen
  cases name with
  | some m =>
    dsimp only
    split_ifs with h0 habs hne
    · cases hi : w.net.ifaces.find? fun i => (w.net.iface i).name == m with
      | some i => exact ⟨[], rfl, .shared i (List.mem_of_find?_eq_some hi)⟩
      | none =>
        have hi := find?_eq_none (q := fun g => g.name == m) hi
        exact ⟨[], rfl, .waiting m rfl h0 fun i hmem => by simpa using hi i hmem⟩
    · exact ⟨[], rfl, .failed⟩
    · exact ⟨[], rfl, .failed⟩
    · exact openCaseAt e _ index promiscuous w (if_neg h0)
  | none =>
    dsimp only
    split_ifs with h0
    · exact ⟨[], rfl, .failed⟩
    · split
      · exact ⟨[], rfl, .failed⟩
      · next m hm =>
        refine openCaseAt e _ index promiscuous w ?_
        rw [Kernel.resolve, if_neg h0, hm, Option.map_some]

/-! ## Closing an interface -/

/-- The result of `nd_iface_close`, on the objects and the memberships. -/
inductive CloseCase (i : IfaceId) (n : Net) : Net → List Act → Prop
  /-- There are other references. -/
  | kept : CloseCase i n
      (n.set i { n.iface i with refcount := (n.iface i).refcount - 1 }) []
  /-- The object is freed, and its membership is given up. -/
  | left (n' : Net) : (n.iface i).up = true → n'.ifaces = n.ifaces.erase i →
      n'.fresh = n.fresh → (∀ j ≠ i, n'.iface j = n.iface j) →
      CloseCase i n n' [.dropMembership (n.iface i).index (n.iface i).promiscuous]
  /-- The object, which was waiting, is freed. -/
  | freed (n' : Net) : (n.iface i).up = false → n'.ifaces = n.ifaces.erase i →
      n'.fresh = n.fresh → (∀ j ≠ i, n'.iface j = n.iface j) → CloseCase i n n' []

theorem closeCase (e : Env) (i : IfaceId) (w : World) :
    ∃ acts, (ndIfaceClose e i w).memberships = acts ++ w.memberships ∧
      CloseCase i w.net (ndIfaceClose e i w).net acts := by
  have hother : ∀ j ≠ i, (w.net.set i { w.net.iface i with
      refcount := (w.net.iface i).refcount - 1 }).iface j = w.net.iface j :=
    fun j hj => w.net.set_iface_of_ne _ hj
  unfold ndIfaceClose
  dsimp only
  split_ifs with hcount hup
  · exact ⟨[], rfl, .kept⟩
  · exact ⟨[.dropMembership (w.net.iface i).index (w.net.iface i).promiscuous],
      World.memberships_emit _ e rfl, .left _ hup rfl rfl hother⟩
  · exact ⟨[], rfl, .freed _ (Bool.eq_false_iff.2 hup) rfl rfl hother⟩

/-! ## A small kernel -/

/-- A kernel with the interfaces `l`, on which every call succeeds. -/
def Small.kernelOf (l : Links) : Kernel where
  ifNametoindex n := (l.index n, if l.index n = 0 then .enodev else .ok)
  ifIndextoname := l.name
  hwaddr n := if l.index n = 0 then none else some 0x020000000001
  flags n := if l.index n = 0 then none else some true
  addMembership x _ := (l.name x).isSome
  addRoute _ _ _ _ := true
  removeRoute _ _ _ := true
  sendmsg x _ := (l.name x).isSome

theorem Links.index_of_name {l : Links} {x : ℕ} {n : IfName} (h : l.name x = some n) :
    l.index n = x := by
  obtain ⟨⟨n', x'⟩, hfind, rfl⟩ := Option.map_eq_some_iff.1 h
  obtain rfl : x' = x := by simpa using List.find?_some hfind
  exact index_of_mem (List.mem_of_find?_eq_some hfind)

theorem Links.name_isSome {l : Links} {n : IfName} (h : l.index n ≠ 0) :
    (l.name (l.index n)).isSome := by
  rw [Links.name, Option.isSome_map, List.find?_isSome]
  exact ⟨_, mem_of_index rfl h, by simp⟩

theorem Small.serves (l : Links) : (kernelOf l).Serves l where
  index n _ := rfl
  absent n h _ := h
  name x n _ h := Links.index_of_name h
  answers n h := by
    have h : l.index n = 0 := h
    simp [kernelOf, h]
  resolves n h := h
  hwaddr n h := by simp [kernelOf, h]
  membership n p h := Links.name_isSome h

end Ndppd
