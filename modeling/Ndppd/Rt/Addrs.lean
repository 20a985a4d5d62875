import Mathlib.Data.Finset.Basic
import Ndppd.Lib.Guarded
import Ndppd.Rt.Heap

/-!
# Own addresses

Whether `nd_rt_is_local_addr` knows the addresses of the interfaces, which the kernel
announces. A message on an address has the attribute `IFA_ADDRESS`, which the handlers
read. If the address has a peer, this is the peer, and the own address is in the
attribute `IFA_LOCAL`, which they do not read: the daemon takes the peer for an own
address, and does not know the own one (`Small.peer_not_exact`).

Without peers, the addresses are tracked exactly, whatever the order of the messages and
of their attributes, and this is the only condition (`Owned.run_exact_iff`).
-/

namespace Ndppd

open Guarded Intrusive

/-! ## Messages -/

/-- An attribute of a message on an address (`struct rtattr`). -/
inductive IfaAttr
  /-- `IFA_ADDRESS`. -/
  | address (addr : Addr)
  /-- `IFA_LOCAL`. -/
  | ownAddress (addr : Addr)
  | other
  deriving DecidableEq

/-- A message on an address (`struct ifaddrmsg`), and its attributes. -/
structure IfaMsg where
  index : ℕ
  prefixlen : U8
  attrs : List IfaAttr

namespace IfaMsg

/-- The loop on the attributes: of several addresses, the last one counts. -/
def scan (msg : IfaMsg) : Option Addr :=
  msg.attrs.foldl (fun addr rta =>
    match rta with
    | .address a => some a
    | _ => addr) none

/-- What the handlers make of a message. -/
def rtAddr (msg : IfaMsg) : Option RtAddr :=
  msg.scan.map fun addr => { iif := msg.index, addr, pflen := msg.prefixlen.toNat }

end IfaMsg

def ndLHandleNewaddr (bo : ByteOrder) (msg : IfaMsg) (h : AddrHeap) : AddrHeap :=
  match msg.rtAddr with
  | none => h
  | some addr => AddrHeap.ndLNewAddr bo addr h

def ndLHandleDeladdr (bo : ByteOrder) (msg : IfaMsg) (h : AddrHeap) : AddrHeap :=
  match msg.rtAddr with
  | none => h
  | some addr => AddrHeap.ndLDeleteAddr bo addr h

/-! ## The kernel -/

/-- An address of an interface of the kernel, which may have a peer. -/
structure OwnAddr where
  index : ℕ
  own : Addr
  pflen : U8
  peer : Option Addr
  peer_ne : peer ≠ some own
  deriving DecidableEq

/-- What the kernel puts in the attribute `IFA_ADDRESS`. -/
def OwnAddr.shown (r : OwnAddr) : Addr := r.peer.getD r.own

/-- A message of the kernel on an address. The attributes may be in any order. -/
structure IfaMsg.Carries (msg : IfaMsg) (r : OwnAddr) : Prop where
  index : msg.index = r.index
  prefixlen : msg.prefixlen = r.pflen
  address : ∀ a, .address a ∈ msg.attrs ↔ a = r.shown
  ownAddress : ∀ a, .ownAddress a ∈ msg.attrs ↔ r.peer.isSome ∧ a = r.own

/-- What the kernel announces, and the address it has added, updated or removed. -/
inductive AddrEvent
  | newaddr (msg : IfaMsg) (r : OwnAddr)
  | deladdr (msg : IfaMsg) (r : OwnAddr)

/-- The addresses the daemon knows, and those of the kernel. -/
structure Owned where
  addrs : AddrHeap := AddrHeap.empty
  live : Finset OwnAddr := ∅

namespace Owned

/-- The kernel adds, updates or removes an address, and the daemon gets the message. -/
def step (bo : ByteOrder) (s : Owned) : AddrEvent → Owned
  | .newaddr msg r => { addrs := ndLHandleNewaddr bo msg s.addrs, live := insert r s.live }
  | .deladdr msg r => { addrs := ndLHandleDeladdr bo msg s.addrs, live := s.live.erase r }

/-- The state after some messages. -/
def run (bo : ByteOrder) (evs : List AddrEvent) : Owned := evs.foldl (step bo) {}

/-- A message is on the address that is added, updated or removed, which is one of `S`. An
    address that is removed is there. -/
def Lawful (S : Set OwnAddr) (s : Owned) : AddrEvent → Prop
  | .newaddr msg r => r ∈ S ∧ msg.Carries r
  | .deladdr msg r => r ∈ S ∧ msg.Carries r ∧ r ∈ s.live

/-- The daemon knows the addresses of the interfaces. -/
def Exact (bo : ByteOrder) (s : Owned) : Prop :=
  ∀ i a, AddrHeap.ndRtIsLocalAddr bo s.addrs i a = true ↔ ∃ r ∈ s.live, r.index = i ∧ r.own = a

end Owned

/-! ## Attributes -/

variable {bo : ByteOrder} {msg : IfaMsg} {r : OwnAddr} {a : RtAddr} {addrs : List RtAddr}

/-- The handlers get the address that is shown. -/
theorem IfaMsg.Carries.rtAddr (h : msg.Carries r) :
    msg.rtAddr = some { iif := r.index, addr := r.shown, pflen := r.pflen.toNat } := by
  have hscan : msg.scan = some r.shown := by
    refine foldl_last (g := id) (fun _ => rfl) (fun x hx o => ?_) (.inl ((h.address _).2 rfl))
    cases x with
    | address a => exact .inr (congrArg some ((h.address a).1 hx))
    | ownAddress a => exact .inl rfl
    | other => exact .inl rfl
  rw [IfaMsg.rtAddr, hscan, Option.map_some, h.index, h.prefixlen]

/-! ## The list -/

theorem RtAddr.same_iff {b : RtAddr} : a.same bo b = true ↔ a = b := by
  obtain ⟨i, x, n⟩ := a
  obtain ⟨j, y, k⟩ := b
  rw [RtAddr.same, Bool.and_eq_true, Bool.and_eq_true, beq_iff_eq, beq_iff_eq, ndAddrEq_iff,
    RtAddr.mk.injEq, and_assoc]

theorem ndLNewAddr_eq (bo : ByteOrder) (a : RtAddr) (addrs : List RtAddr) :
    ndLNewAddr bo a addrs = if a ∈ addrs then addrs else a :: addrs := by
  have hany : (addrs.any fun b => b.same bo a) = true ↔ a ∈ addrs := by
    simp only [List.any_eq_true, RtAddr.same_iff, exists_eq_right]
  rw [ndLNewAddr]
  exact if_congr hany rfl rfl

theorem ndLDeleteAddr_eq (bo : ByteOrder) (a : RtAddr) (addrs : List RtAddr) :
    ndLDeleteAddr bo a addrs = addrs.erase a := by
  have hsame : (fun b : RtAddr => b.same bo a) = (· == a) := by
    funext b
    rw [Bool.eq_iff_iff, RtAddr.same_iff, beq_iff_eq]
  rw [ndLDeleteAddr, hsame, List.erase_eq_eraseP']

/-! ## Runs -/

/-- The entry of an address without a peer. -/
def OwnAddr.entry (r : OwnAddr) : RtAddr :=
  { iif := r.index, addr := r.own, pflen := r.pflen.toNat }

theorem OwnAddr.entry_injective {q : OwnAddr} (hr : r.peer = none) (hq : q.peer = none)
    (h : r.entry = q.entry) : r = q := by
  obtain ⟨i, own, pflen, peer, hne⟩ := r
  obtain ⟨j, own', pflen', peer', hne'⟩ := q
  obtain ⟨rfl, rfl, hpflen⟩ := RtAddr.mk.inj h
  cases BitVec.eq_of_toNat_eq hpflen
  cases hr
  cases hq
  rfl

theorem IfaMsg.Carries.rtAddr_eq_entry (h : msg.Carries r) (hr : r.peer = none) :
    msg.rtAddr = some r.entry := by
  rw [h.rtAddr, OwnAddr.shown, hr]
  rfl

namespace Owned

variable {s : Owned} {S : Set OwnAddr} {evs : List AddrEvent} {l : List ℕ}

/-- The list has the entries of the addresses of the kernel, once each; no address has a
    peer. -/
structure Tracks (s : Owned) (l : List ℕ) : Prop where
  holds : s.addrs.Holds l
  nodup : (s.addrs.contents l).Nodup
  mem_iff : ∀ a, a ∈ s.addrs.contents l ↔ ∃ r ∈ s.live, r.entry = a
  peer : ∀ r ∈ s.live, r.peer = none

theorem tracks_empty : ({} : Owned).Tracks [] :=
  ⟨Arena.holds_empty _, List.nodup_nil, by simp [Arena.contents], by simp⟩

theorem Tracks.newaddr (h : s.Tracks l) (hmsg : msg.Carries r) (hr : r.peer = none) :
    ∃ l', (s.step bo (.newaddr msg r)).Tracks l' := by
  obtain ⟨l', hl', heq⟩ := AddrHeap.holds_ndLNewAddr h.holds bo r.entry
  rw [ndLNewAddr_eq] at heq
  rw [step, ndLHandleNewaddr, hmsg.rtAddr_eq_entry hr]
  refine ⟨l', hl', ?_, fun a => ?_, fun q hq => ?_⟩
  · dsimp only
    rw [heq]
    split_ifs with hmem
    · exact h.nodup
    · exact List.nodup_cons.2 ⟨hmem, h.nodup⟩
  · have hold : a ∈ (if r.entry ∈ s.addrs.contents l then s.addrs.contents l
        else r.entry :: s.addrs.contents l) ↔ a = r.entry ∨ a ∈ s.addrs.contents l := by
      split_ifs with hmem
      · exact ⟨.inr, fun ha => ha.elim (fun ha => ha ▸ hmem) id⟩
      · exact List.mem_cons
    dsimp only
    rw [heq, hold, h.mem_iff, Finset.exists_mem_insert, eq_comm]
  · rcases Finset.mem_insert.1 hq with rfl | hq
    · exact hr
    · exact h.peer q hq

theorem Tracks.deladdr (h : s.Tracks l) (hmsg : msg.Carries r) (hr : r ∈ s.live) :
    ∃ l', (s.step bo (.deladdr msg r)).Tracks l' := by
  have hpeer := h.peer r hr
  obtain ⟨l', hl', heq⟩ := AddrHeap.holds_ndLDeleteAddr h.holds bo r.entry
  rw [ndLDeleteAddr_eq] at heq
  rw [step, ndLHandleDeladdr, hmsg.rtAddr_eq_entry hpeer]
  refine ⟨l', hl', ?_, fun a => ?_, fun q hq => h.peer q (Finset.mem_of_mem_erase hq)⟩
  · dsimp only
    rw [heq]
    exact h.nodup.erase _
  · dsimp only
    rw [heq, h.nodup.mem_erase_iff, h.mem_iff]
    -- An address that stays has another entry.
    constructor
    · rintro ⟨hne, q, hq, rfl⟩
      exact ⟨q, Finset.mem_erase.2 ⟨fun hqr => hne (hqr ▸ rfl), hq⟩, rfl⟩
    · rintro ⟨q, hq, rfl⟩
      obtain ⟨hne, hq⟩ := Finset.mem_erase.1 hq
      exact ⟨fun heq => hne (OwnAddr.entry_injective (h.peer q hq) hpeer heq), q, hq, rfl⟩

theorem Tracks.exact (h : s.Tracks l) : s.Exact bo := by
  intro i a
  rw [AddrHeap.ndRtIsLocalAddr_eq h.holds, ndRtIsLocalAddr, List.any_eq_true]
  constructor
  · rintro ⟨x, hx, heq⟩
    obtain ⟨r, hr, rfl⟩ := (h.mem_iff x).1 hx
    rw [Bool.and_eq_true, beq_iff_eq, ndAddrEq_iff] at heq
    exact ⟨r, hr, heq⟩
  · rintro ⟨r, hr, rfl, rfl⟩
    refine ⟨r.entry, (h.mem_iff _).2 ⟨r, hr, rfl⟩, ?_⟩
    rw [Bool.and_eq_true, beq_iff_eq, ndAddrEq_iff]
    exact ⟨rfl, rfl⟩

theorem run_exact_of_peer (hS : ∀ r ∈ S, r.peer = none)
    (h : All (step bo) (Lawful S) {} evs) : (run bo evs).Exact bo := by
  obtain ⟨l, hl⟩ := h.invariant (I := fun s => ∃ l, s.Tracks l) ⟨[], tracks_empty⟩ (by
    rintro s ev ⟨l, hl⟩ hev
    cases ev with
    | newaddr msg r => exact hl.newaddr hev.2 (hS r hev.1)
    | deladdr msg r => exact hl.deladdr hev.2.1 hev.2.2)
  exact hl.exact

/-- The message of the kernel on an address, as it is added. -/
def announcement (r : OwnAddr) : IfaMsg where
  index := r.index
  prefixlen := r.pflen
  attrs := (if r.peer.isSome then [.ownAddress r.own] else []) ++ [.address r.shown]

theorem announcement_carries (r : OwnAddr) : (announcement r).Carries r where
  index := rfl
  prefixlen := rfl
  address a := by
    rw [announcement]
    split_ifs <;> simp
  ownAddress a := by
    rw [announcement]
    split_ifs with h <;> simp [h]

/-- After the message on an address, the daemon knows the one that is shown. -/
theorem isLocal_announced (bo : ByteOrder) (r : OwnAddr) (i : ℕ) (a : Addr) :
    AddrHeap.ndRtIsLocalAddr bo (run bo [.newaddr (announcement r) r]).addrs i a = true ↔
      r.index = i ∧ r.shown = a := by
  have hempty : AddrHeap.empty.Holds [] := Arena.holds_empty _
  obtain ⟨l, hl, heq⟩ := AddrHeap.holds_ndLNewAddr hempty bo
    { iif := r.index, addr := r.shown, pflen := r.pflen.toNat }
  have hrun : (run bo [.newaddr (announcement r) r]).addrs = AddrHeap.ndLNewAddr bo
      { iif := r.index, addr := r.shown, pflen := r.pflen.toNat } AddrHeap.empty := by
    change ndLHandleNewaddr bo (announcement r) AddrHeap.empty = _
    rw [ndLHandleNewaddr, (announcement_carries r).rtAddr]
  rw [hrun, AddrHeap.ndRtIsLocalAddr_eq hl, heq, ndLNewAddr_eq]
  simp [ndRtIsLocalAddr, Arena.contents, ndAddrEq_iff]

/-- The own addresses are known after every stream of messages on addresses of `S` if and
    only if none of them has a peer. -/
theorem run_exact_iff (bo : ByteOrder) (S : Set OwnAddr) :
    (∀ evs, All (step bo) (Lawful S) {} evs → (run bo evs).Exact bo) ↔ ∀ r ∈ S, r.peer = none := by
  constructor
  · intro h r hr
    by_contra hpeer
    obtain ⟨peer, hpeer⟩ := Option.ne_none_iff_exists'.1 hpeer
    have hexact := h [.newaddr (announcement r) r] ⟨⟨hr, announcement_carries r⟩, trivial⟩
    have hown := (hexact r.index r.own).2 ⟨r, Finset.mem_insert_self .., rfl, rfl⟩
    obtain ⟨-, hshown⟩ := (isLocal_announced bo r r.index r.own).1 hown
    rw [OwnAddr.shown, hpeer, Option.getD_some] at hshown
    exact r.peer_ne (hpeer.trans (congrArg some hshown))
  · exact fun hS evs h => run_exact_of_peer hS h

end Owned

/-! ## An example -/

namespace Small

/-- The address `::1` of the interface 3, with the peer `::2`. -/
def peered : OwnAddr where
  index := 3
  own := 1
  pflen := 128
  peer := some 2
  peer_ne := by decide

/-- The daemon does not know its address, and answers for the peer. -/
theorem peer_not_exact :
    All (Owned.step .little) (Owned.Lawful Set.univ) {}
      [.newaddr (Owned.announcement peered) peered] ∧
    AddrHeap.ndRtIsLocalAddr .little
      (Owned.run .little [.newaddr (Owned.announcement peered) peered]).addrs 3 1 = false ∧
    AddrHeap.ndRtIsLocalAddr .little
      (Owned.run .little [.newaddr (Owned.announcement peered) peered]).addrs 3 2 = true ∧
    ¬(Owned.run .little [.newaddr (Owned.announcement peered) peered]).Exact .little := by
  have hown : AddrHeap.ndRtIsLocalAddr .little
      (Owned.run .little [.newaddr (Owned.announcement peered) peered]).addrs 3 1 = false := by
    decide +kernel
  refine ⟨⟨⟨trivial, Owned.announcement_carries peered⟩, trivial⟩, hown, by decide +kernel,
    fun h => ?_⟩
  have hlocal := (h 3 1).2 ⟨peered, Finset.mem_insert_self .., rfl, rfl⟩
  exact Bool.false_ne_true (hown.symm.trans hlocal)

end Small

end Ndppd
