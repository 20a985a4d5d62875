import Ndppd.Types

/-!
# Interface objects

Opening, sharing and closing interface objects, and sending on them (`iface.c`,
the Linux side). An object that is opened for an interface the kernel does not
have yet is *waiting*: it is not up, and nothing is sent on it until
`ndIfaceRebindAll` binds it.
-/

namespace Ndppd

/-- Writes the object `i`. -/
def Net.set (n : Net) (i : IfaceId) (f : Iface) : Net :=
  { n with iface := Function.update n.iface i f }

@[simp] theorem Net.set_iface_self (n : Net) (i : IfaceId) (f : Iface) :
    (n.set i f).iface i = f := Function.update_self ..

theorem Net.set_iface_of_ne (n : Net) {i j : IfaceId} (f : Iface) (h : j ≠ i) :
    (n.set i f).iface j = n.iface j := Function.update_of_ne h ..

/-- Takes a reference to the object `i`. -/
def Net.addRef (n : Net) (i : IfaceId) : Net :=
  n.set i { n.iface i with refcount := (n.iface i).refcount + 1 }

/-- Creates an object, in front of the list. -/
def Net.alloc (n : Net) (f : Iface) : Net where
  ifaces := n.fresh :: n.ifaces
  iface := Function.update n.iface n.fresh f
  fresh := n.fresh + 1

/-- The object a packet received on the interface `index` is for (the search of
    `ndL_io_handler`). -/
def Net.receiver (n : Net) (index : ℕ) : Option IfaceId :=
  n.ifaces.find? fun i => (n.iface i).up && (n.iface i).index == index

/-- `nd_iface_open`, once the name and the index are resolved: shares an object
    that is up with this index or waiting for this name, or else creates one. -/
def ndIfaceOpenAt (e : Env) (name : IfName) (index : ℕ) (promiscuous : Bool) (w : World) :
    Option IfaceId × World :=
  match w.net.ifaces.find? fun i => (w.net.iface i).index == index && (w.net.iface i).up with
  | some i => (some i, { w with net := w.net.addRef i })
  | none =>
    match w.net.ifaces.find? fun i => !(w.net.iface i).up && (w.net.iface i).name == name with
    | some i => (some i, { w with net := w.net.addRef i })
    | none =>
      match e.kernel.hwaddr name with
      | none => (none, w)
      | some lladdr =>
        let accepted := e.kernel.addMembership index promiscuous
        let w := w.emit e (.addMembership index promiscuous accepted)
        let f : Iface := { index, up := true, refcount := 1, lladdr, promiscuous, name }
        if accepted then (some w.net.fresh, { w with net := w.net.alloc f }) else (none, w)

def ndIfaceOpen (e : Env) (name : Option IfName) (index : ℕ) (promiscuous : Bool) (w : World) :
    Option IfaceId × World :=
  match name with
  | some name =>
    let (resolved, errno) := e.kernel.ifNametoindex name
    if resolved = 0 then
      -- A configured interface that does not exist yet: wait for it.
      if errno = .enodev ∧ index = 0 then
        match w.net.ifaces.find? fun i => (w.net.iface i).name == name with
        | some i => (some i, { w with net := w.net.addRef i })
        | none =>
          let f : Iface := { refcount := 1, promiscuous, up := false, name }
          (some w.net.fresh, { w with net := w.net.alloc f })
      else (none, w)
    else if index ≠ 0 ∧ index ≠ resolved then (none, w)
    else ndIfaceOpenAt e name resolved promiscuous w
  | none =>
    if index = 0 then (none, w)
    else
      match e.kernel.ifIndextoname index with
      | none => (none, w)
      | some name => ndIfaceOpenAt e name index promiscuous w

def ndIfaceClose (e : Env) (i : IfaceId) (w : World) : World :=
  let f := w.net.iface i
  let w := { w with net := w.net.set i { f with refcount := f.refcount - 1 } }
  if f.refcount - 1 > 0 then w
  else
    let w := if f.up then w.emit e (.dropMembership f.index f.promiscuous) else w
    { w with net := { w.net with ifaces := w.net.ifaces.erase i } }

/-- Whether a packet given to `ndL_send_icmp6` goes out: the interface is up, and `nd_io_send`
    succeeds. (A NULL interface is a crash, recorded as a packet on no interface.) -/
def ndLSendIcmp6 (e : Env) (w : World) (iface : Option IfaceId) (msg : Outgoing) : Bool :=
  iface.any fun i => (w.net.iface i).up && e.kernel.sendmsg (w.net.iface i).index msg

/-- The interface is there, and the kernel takes the packet on it. -/
def World.Transmits (w : World) (k : Kernel) (iface : Option IfaceId) (msg : Outgoing) : Prop :=
  ∃ i, iface = some i ∧ (w.net.iface i).up = true ∧
    k.sendmsg (w.net.iface i).index msg = true

theorem ndLSendIcmp6_iff {e : Env} {w : World} {iface : Option IfaceId} {msg : Outgoing} :
    ndLSendIcmp6 e w iface msg = true ↔ w.Transmits e.kernel iface msg := by
  unfold World.Transmits
  cases iface with
  | none => simp [ndLSendIcmp6]
  | some i => simp [ndLSendIcmp6]

def ndIfaceSendNa (e : Env) (who : SessionId) (iface : Option IfaceId) (dst : Addr)
    (dstLl : LlAddr) (tgt : Addr) (tgtLl : Option LlAddr) (router : Bool) (w : World) : World :=
  let tgtLl := tgtLl.getD (iface.elim 0 fun i => (w.net.iface i).lladdr)
  w.emit e (.na who iface dst dstLl tgt tgtLl router
    (ndLSendIcmp6 e w iface (.na dst dstLl tgt)))

def ndIfaceSendNs (e : Env) (who : SessionId) (iface : Option IfaceId) (tgt : Addr) (w : World) :
    World :=
  w.emit e (.ns who iface tgt (ndLSendIcmp6 e w iface (.ns tgt)))

end Ndppd
