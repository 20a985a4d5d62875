import Ndppd.Parse
import Ndppd.Startup

/-!
# Capture modes

Start-up opens the interfaces of the proxies with the mode that each of them asks for, and
those of the rules without promiscuous mode. An interface that is asked for several times
is one object: it is up with the index that the name resolves to, or it waits for the name
(`Referent`). Each request after the first one only takes a reference, so that the
mode of an object is the one its first request asks for (`Served`).

The requests come in the order of the list of proxies, that is in the reverse order of the
configuration. `capturesAll_iff` says for which configurations every proxy has the mode
that it asks for.
-/

namespace Ndppd

variable {e : Env} {k : Kernel} {w w' : World} {f g : IfaceId} {n n' : Net} {c : Config}
  {reqs : List (IfName × Bool)} {name : IfName} {promiscuous : Bool}

/-! ## Requests and objects -/

/-- What a name, or an object, stands for: an interface of the kernel, or a name that the
    kernel has no interface for. -/
inductive Referent
  | link (index : ℕ)
  | absent (name : IfName)
  deriving DecidableEq

def Kernel.referent (k : Kernel) (name : IfName) : Referent :=
  if (k.ifNametoindex name).1 = 0 then .absent name else .link (k.ifNametoindex name).1

def Iface.referent (f : Iface) : Referent := if f.up then .link f.index else .absent f.name

/-- The first of the requests that are for `o`. -/
def Kernel.granted (k : Kernel) (reqs : List (IfName × Bool)) (o : Referent) : Option Bool :=
  (reqs.find? fun q => decide (k.referent q.1 = o)).map Prod.snd

theorem Kernel.granted_append (k : Kernel) (reqs reqs' : List (IfName × Bool))
    (o : Referent) : k.granted (reqs ++ reqs') o = (k.granted reqs o).or (k.granted reqs' o) := by
  rw [granted, List.find?_append, Option.map_or]
  rfl

/-- The requests have been made, one after the other: each object that one of them is for
    is there, and it has the mode of the first one. -/
structure Served (k : Kernel) (reqs : List (IfName × Bool)) (n : Net) : Prop where
  lt : ∀ f ∈ n.ifaces, f < n.fresh
  name : ∀ f ∈ n.ifaces, k.referent (n.iface f).name = (n.iface f).referent
  complete : ∀ q ∈ reqs, ∃ f ∈ n.ifaces, (n.iface f).referent = k.referent q.1
  granted : ∀ f ∈ n.ifaces, k.granted reqs (n.iface f).referent = some (n.iface f).promiscuous

namespace Served

theorem empty (k : Kernel) : Served k [] .empty :=
  ⟨nofun, nofun, nofun, nofun⟩

/-- The object `f` is there for the name. -/
def Has (k : Kernel) (n : Net) (name : IfName) (f : IfaceId) : Prop :=
  f ∈ n.ifaces ∧ (n.iface f).referent = k.referent name

/-- Changes that do not touch the mode of an object, nor what it stands for. -/
theorem update (h : Served k reqs n) {i : Iface} (hname : i.name = (n.iface g).name)
    (href : i.referent = (n.iface g).referent) (hmode : i.promiscuous = (n.iface g).promiscuous) :
    Served k reqs (n.set g i) ∧ ∀ name f, Has k n name f → Has k (n.set g i) name f := by
  have hsame : ∀ f, ((n.set g i).iface f).name = (n.iface f).name ∧
      ((n.set g i).iface f).referent = (n.iface f).referent ∧
        ((n.set g i).iface f).promiscuous = (n.iface f).promiscuous := by
    intro f
    by_cases hf : f = g
    · subst hf
      rw [Net.set_iface_self]
      exact ⟨hname, href, hmode⟩
    · rw [n.set_iface_of_ne i hf]
      exact ⟨rfl, rfl, rfl⟩
  refine ⟨⟨h.lt, fun f hf => ?_, fun q hq => ?_, fun f hf => ?_⟩, fun name f hf => ?_⟩
  · rw [(hsame f).1, (hsame f).2.1]
    exact h.name f hf
  · obtain ⟨f, hf, hq⟩ := h.complete q hq
    exact ⟨f, hf, (hsame f).2.1.trans hq⟩
  · rw [(hsame f).2.1, (hsame f).2.2]
    exact h.granted f hf
  · exact ⟨hf.1, (hsame f).2.1.trans hf.2⟩

/-- One more request has been served, by the object `f`. -/
structure By (k : Kernel) (reqs : List (IfName × Bool)) (name : IfName) (promiscuous : Bool)
    (n : Net) (f : IfaceId) (n' : Net) : Prop where
  served : Served k (reqs ++ [(name, promiscuous)]) n'
  has : Has k n' name f
  keeps : ∀ name g, Has k n name g → Has k n' name g

/-- A request for an object that is there takes a reference. -/
theorem share (h : Served k reqs n) (hf : Has k n name f) (promiscuous : Bool) :
    By k reqs name promiscuous n f (n.addRef f) := by
  obtain ⟨h', hhas⟩ := h.update (g := f)
    (i := { n.iface f with refcount := (n.iface f).refcount + 1 }) rfl rfl rfl
  refine ⟨⟨h'.lt, h'.name, fun q hq => ?_, fun g hg => ?_⟩, hhas _ _ hf, hhas⟩
  · rcases List.mem_append.1 hq with hq | hq
    · exact h'.complete q hq
    · rw [List.mem_singleton.1 hq]
      exact ⟨f, hhas _ _ hf⟩
  · rw [k.granted_append]
    exact Option.or_eq_some_iff.2 (.inl (h'.granted g hg))

/-- A request that no object is there for makes one. -/
theorem create (h : Served k reqs n) {i : Iface} (hnew : ∀ f, ¬Has k n i.name f)
    (href : i.referent = k.referent i.name) :
    By k reqs i.name i.promiscuous n n.fresh (n.alloc i) := by
  have hold : ∀ f ∈ n.ifaces, (n.alloc i).iface f = n.iface f :=
    fun f hf => Function.update_of_ne (Nat.ne_of_lt (h.lt f hf)) ..
  have hself : (n.alloc i).iface n.fresh = i := Function.update_self ..
  have hhas : ∀ name g, Has k n name g → Has k (n.alloc i) name g :=
    fun name g hg => ⟨List.mem_cons_of_mem _ hg.1, by rw [hold g hg.1]; exact hg.2⟩
  have hfresh : Has k (n.alloc i) i.name n.fresh :=
    ⟨List.mem_cons_self, by rw [hself]; exact href⟩
  refine ⟨⟨fun f hf => ?_, fun f hf => ?_, fun q hq => ?_, fun f hf => ?_⟩, hfresh, hhas⟩
  · rcases List.mem_cons.1 hf with rfl | hf
    · exact Nat.lt_succ_self _
    · exact Nat.lt_succ_of_lt (h.lt f hf)
  · rcases List.mem_cons.1 hf with rfl | hf
    · rw [hself, href]
    · rw [hold f hf]
      exact h.name f hf
  · rcases List.mem_append.1 hq with hq | hq
    · obtain ⟨f, hf⟩ := h.complete q hq
      exact ⟨f, hhas _ _ hf⟩
    · rw [List.mem_singleton.1 hq]
      exact ⟨_, hfresh⟩
  · rw [k.granted_append]
    rcases List.mem_cons.1 hf with rfl | hf
    · -- No request before was for the object.
      have hnone : k.granted reqs i.referent = none := by
        rw [Kernel.granted, Option.map_eq_none_iff, List.find?_eq_none]
        intro q hq heq
        obtain ⟨f, hf, hfq⟩ := h.complete q hq
        exact hnew f ⟨hf, hfq.trans ((of_decide_eq_true heq).trans href)⟩
      rw [hself, hnone, Option.none_or, Kernel.granted, href]
      simp
    · rw [hold f hf]
      exact Option.or_eq_some_iff.2 (.inl (h.granted f hf))

/-- `nd_iface_open`, for a name that the kernel knows. -/
theorem openAt {index : ℕ} (h : Served e.kernel reqs w.net)
    (hindex : e.kernel.referent name = .link index)
    (ho : ndIfaceOpenAt e name index promiscuous w = (some f, w')) :
    By e.kernel reqs name promiscuous w.net f w'.net := by
  rw [ndIfaceOpenAt] at ho
  split at ho
  · next i hi =>
    obtain rfl := Option.some.inj (congrArg Prod.fst ho)
    obtain rfl := congrArg Prod.snd ho
    have hfound := List.find?_some hi
    obtain ⟨hidx, hup⟩ := Bool.and_eq_true_iff.1 hfound
    refine h.share ⟨List.mem_of_find?_eq_some hi, ?_⟩ promiscuous
    rw [Iface.referent, if_pos hup, hindex, beq_iff_eq.1 hidx]
  · next hnone =>
    split at ho
    · next i hi =>
      obtain rfl := Option.some.inj (congrArg Prod.fst ho)
      obtain rfl := congrArg Prod.snd ho
      have hmem := List.mem_of_find?_eq_some hi
      have hfound := List.find?_some hi
      refine h.share ⟨hmem, ?_⟩ promiscuous
      rw [← h.name i hmem, beq_iff_eq.1 (Bool.and_eq_true_iff.1 hfound).2]
    · split at ho
      · exact absurd (congrArg Prod.fst ho) (Option.some_ne_none f).symm
      · next lladdr _ =>
        dsimp only at ho
        split_ifs at ho
        · obtain rfl := Option.some.inj (congrArg Prod.fst ho)
          obtain rfl := congrArg Prod.snd ho
          refine h.create (i := { index, up := true, refcount := 1, lladdr, promiscuous, name })
            (fun g hg => ?_) hindex.symm
          -- Such an object would have been found by its index.
          have hg' := List.find?_eq_none.1 hnone g hg.1
          have href := hg.2.trans hindex
          rw [Iface.referent] at href
          split_ifs at href with hup
          exact hg' (Bool.and_eq_true_iff.2 ⟨beq_iff_eq.2 (Referent.link.inj href), hup⟩)
        · exact absurd (congrArg Prod.fst ho) (Option.some_ne_none f).symm

/-- `nd_iface_open`, for a name. -/
theorem openName (h : Served e.kernel reqs w.net)
    (ho : ndIfaceOpen e (some name) 0 promiscuous w = (some f, w')) :
    By e.kernel reqs name promiscuous w.net f w'.net := by
  rw [ndIfaceOpen] at ho
  dsimp only at ho
  split_ifs at ho with habsent herrno hindex
  · have href : e.kernel.referent name = .absent name := if_pos habsent
    split at ho
    · next i hi =>
      obtain rfl := Option.some.inj (congrArg Prod.fst ho)
      obtain rfl := congrArg Prod.snd ho
      have hmem := List.mem_of_find?_eq_some hi
      have hname := List.find?_some hi
      refine h.share ⟨hmem, ?_⟩ promiscuous
      rw [← h.name i hmem, beq_iff_eq.1 hname]
    · next hnone =>
      obtain rfl := Option.some.inj (congrArg Prod.fst ho)
      obtain rfl := congrArg Prod.snd ho
      refine h.create (i := { refcount := 1, promiscuous, up := false, name })
        (fun g hg => ?_) href.symm
      -- Such an object would have been found by its name.
      have hg' := List.find?_eq_none.1 hnone g hg.1
      have hgref := hg.2.trans href
      rw [Iface.referent] at hgref
      split_ifs at hgref
      exact hg' (beq_iff_eq.2 (Referent.absent.inj hgref))
  · exact absurd (congrArg Prod.fst ho) (Option.some_ne_none f).symm
  · exact absurd rfl hindex.1
  · exact h.openAt (if_neg habsent) ho

end Served

/-! ## Start-up -/

/-- The requests of a list of rules: those that name an interface. -/
def Config.ruleRequests (c : Config) (rules : List RuleId) : List (IfName × Bool) :=
  rules.filterMap fun r => if (c.rule r).ifname = [] then none else some ((c.rule r).ifname, false)

/-- The requests of a proxy: its own, and those of its rules. -/
def Config.proxyRequests (c : Config) (p : ProxyId) : List (IfName × Bool) :=
  ((c.proxy p).ifname, (c.proxy p).promiscuous) :: c.ruleRequests (c.proxy p).rules

/-- The requests of `nd_proxy_startup`, in their order. -/
def Config.requests (c : Config) : List (IfName × Bool) := c.proxies.flatMap c.proxyRequests

/-- The proxies `l` have their interfaces, after the requests `reqs`. -/
structure Opened (k : Kernel) (c : Config) (l : List ProxyId) (reqs : List (IfName × Bool))
    (cw : Config × World) : Prop where
  opens : c.Opens cw.1
  served : Served k reqs cw.2.net
  iface : ∀ p ∈ l, ∃ f, (cw.1.proxy p).iface = some f ∧ Served.Has k cw.2.net (c.proxy p).ifname f

namespace Opened

variable {cw cw' : Config × World} {l : List ProxyId} {p : ProxyId} {r : RuleId}

theorem rule (h : Opened e.kernel c l reqs cw) (hr : openRule e cw r = some cw') :
    Opened e.kernel c l (reqs ++ c.ruleRequests [r]) cw' := by
  have hname := h.opens.ifname_eq r
  have hopens := h.opens.trans (openRule_opens hr)
  rcases openRule_cases hr with ⟨hnil, rfl⟩ | ⟨hne, f, w', ho, rfl⟩
  · rw [hname] at hnil
    have hreqs : c.ruleRequests [r] = [] := by simp [Config.ruleRequests, hnil]
    rw [hreqs, List.append_nil]
    exact h
  · rw [hname] at hne ho
    have hreqs : c.ruleRequests [r] = [((c.rule r).ifname, false)] := by
      simp [Config.ruleRequests, hne]
    have hby := h.served.openName ho
    refine ⟨hopens, hreqs ▸ hby.served, fun p hp => ?_⟩
    obtain ⟨g, hg, hhas⟩ := h.iface p hp
    exact ⟨g, hg, hby.keeps _ _ hhas⟩

theorem rules (h : Opened e.kernel c l reqs cw) {rules : List RuleId}
    (hr : rules.foldlM (openRule e) cw = some cw') :
    Opened e.kernel c l (reqs ++ c.ruleRequests rules) cw' := by
  refine foldlM_induction (P := fun done => Opened e.kernel c l (reqs ++ c.ruleRequests done)) hr
    (by simpa [Config.ruleRequests] using h) ?_
  intro done r cw₁ cw₂ _ h₁ h₂
  rw [Config.ruleRequests, List.filterMap_append, ← List.append_assoc]
  exact h₁.rule h₂

/-- The interface of a proxy, for which a request has been made. -/
theorem bind (h : Opened e.kernel c l reqs cw)
    (hby : Served.By e.kernel reqs (c.proxy p).ifname promiscuous cw.2.net f w'.net) :
    Opened e.kernel c (l ++ [p]) (reqs ++ [((c.proxy p).ifname, promiscuous)])
      (bindProxy cw.1 p f w') := by
  obtain ⟨hserved, hhas⟩ := hby.served.update (g := f)
    (i := { w'.net.iface f with proxy := some p }) rfl rfl rfl
  refine ⟨h.opens.trans (.setProxy cw.1 p f), hserved, fun q hq => ?_⟩
  by_cases hqp : q = p
  · subst hqp
    exact ⟨f, by rw [bindProxy, Config.setProxy_proxy_self], hhas _ _ hby.has⟩
  · have hql : q ∈ l := (List.mem_append.1 hq).resolve_right fun h => hqp (List.mem_singleton.1 h)
    obtain ⟨g, hg, hg'⟩ := h.iface q hql
    refine ⟨g, ?_, hhas _ _ (hby.keeps _ _ hg')⟩
    rw [bindProxy, cw.1.setProxy_proxy_of_ne _ hqp]
    exact hg

theorem proxy (h : Opened e.kernel c l reqs cw) (hp : openProxy e cw p = some cw') :
    Opened e.kernel c (l ++ [p]) (reqs ++ c.proxyRequests p) cw' := by
  obtain ⟨f, w', ho, hrules⟩ := openProxy_cases hp
  obtain ⟨o, hproxy, -⟩ := h.opens.proxy p
  rw [hproxy] at ho hrules
  have hopened := (h.bind (h.served.openName ho)).rules hrules
  rwa [List.append_assoc] at hopened

/-- After start-up, the interface of each proxy has the mode of its first request. -/
theorem startup (h : ndProxyStartup e c { net := .empty, log := [] } = some cw) :
    Opened e.kernel c c.proxies c.requests cw := by
  rw [ndProxyStartup] at h
  split_ifs at h
  refine foldlM_induction (P := fun l => Opened e.kernel c l (l.flatMap c.proxyRequests)) h
    ⟨.refl c, .empty _, nofun⟩ ?_
  intro l p cw₁ cw₂ _ h₁ h₂
  rw [List.flatMap_append, List.flatMap_singleton]
  exact h₁.proxy h₂

end Opened

/-- Every proxy that asks for promiscuous mode has an interface with this mode. -/
def CapturesAll (cw : Config × World) : Prop :=
  ∀ p ∈ cw.1.proxies, (cw.1.proxy p).promiscuous = true →
    (cw.1.proxy p).iface.any fun f => (cw.2.net.iface f).promiscuous

instance (cw : Config × World) : Decidable (CapturesAll cw) := inferInstanceAs (Decidable (∀ _, _))

/-- The first request for the interface of a proxy that asks for promiscuous mode does so,
    too. -/
def Config.AsksFirst (c : Config) (k : Kernel) : Prop :=
  ∀ p ∈ c.proxies, (c.proxy p).promiscuous = true →
    k.granted c.requests (k.referent (c.proxy p).ifname) = some true

instance (c : Config) (k : Kernel) : Decidable (c.AsksFirst k) :=
  inferInstanceAs (Decidable (∀ _, _))

/-- Start-up gives all proxies that ask for it promiscuous mode, if these requests come
    before others for the same interface. -/
theorem capturesAll_iff {cw : Config × World}
    (h : ndProxyStartup e c { net := .empty, log := [] } = some cw) :
    CapturesAll cw ↔ c.AsksFirst e.kernel := by
  have hopened := Opened.startup h
  rw [CapturesAll, Config.AsksFirst, hopened.opens.proxies]
  refine forall₂_congr fun p hp => ?_
  obtain ⟨o, hproxy, -⟩ := hopened.opens.proxy p
  obtain ⟨f, hf, hmem, href⟩ := hopened.iface p hp
  rw [← href, hopened.served.granted f hmem, hf, hproxy, Option.any_some, Option.some_inj]

namespace Small

/-- A kernel with the interfaces `eth0` and `eth1`. -/
def ethKernel : Kernel :=
  { kernel with ifNametoindex := fun name =>
      if name = bytes "eth0" then (2, .ok)
      else if name = bytes "eth1" then (3, .ok) else (0, .enodev) }

/-- A proxy that asks for promiscuous mode. -/
def promiscuousBlock : String :=
  "proxy eth0 \x7b\npromiscuous yes\nrule ::1/64 \x7b\nstatic\n\x7d\n\x7d\n"

/-- A proxy with a rule for the interface of the first one. -/
def downstreamBlock : String := "proxy eth1 \x7b\nrule ::1/48 \x7b\niface eth0\n\x7d\n\x7d\n"

/-- Start-up with a configuration. -/
def startEth (c : Config) : Option (Config × World) :=
  ndProxyStartup { kernel := ethKernel, conf, cfg := c, rt := {}, now := 0 } c
    { net := .empty, log := [] }

/-- The configuration of a file. -/
def loadText (text : String) : Option Config :=
  (ndConfParse loopback conf (bytes text)).toOption.map (·.2.cfg)

/-- The last block of a file is opened first. -/
theorem promiscuousLast_captures : ∃ c cw, loadText (downstreamBlock ++ promiscuousBlock) = some c ∧
    startEth c = some cw ∧ CapturesAll cw := by
  have hload : (loadText (downstreamBlock ++ promiscuousBlock)).any
      (fun c => (startEth c).isSome ∧ c.AsksFirst ethKernel) = true := by decide +kernel
  obtain ⟨c, hc, hcheck⟩ := (Option.any_eq_true ..).1 hload
  obtain ⟨hstart, hfirst⟩ := of_decide_eq_true hcheck
  obtain ⟨cw, hcw⟩ := Option.isSome_iff_exists.1 hstart
  exact ⟨c, cw, hc, hcw, (capturesAll_iff hcw).2 hfirst⟩

/-- When the promiscuous proxy is the first block of the file, the rule of the other one
    opens the interface before it. -/
theorem promiscuousFirst_not_captures :
    ∃ c cw, loadText (promiscuousBlock ++ downstreamBlock) = some c ∧ startEth c = some cw ∧
      ¬CapturesAll cw := by
  have hload : (loadText (promiscuousBlock ++ downstreamBlock)).any
      (fun c => (startEth c).any (¬CapturesAll ·)) = true := by decide +kernel
  obtain ⟨c, hc, hstart⟩ := (Option.any_eq_true ..).1 hload
  obtain ⟨cw, hcw, hnot⟩ := (Option.any_eq_true ..).1 hstart
  exact ⟨c, cw, hc, hcw, of_decide_eq_true hnot⟩

end Small

end Ndppd
