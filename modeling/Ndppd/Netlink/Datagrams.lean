import Mathlib.Data.List.GetD
import Ndppd.Netlink
import Ndppd.Wire

/-!
# Datagrams

What the handler of the netlink socket makes of a datagram.

* `ndLIoHandlerNl_ends`: whatever the datagram has, the handler ends, and reads at most the 16
  bytes after its end. It reads them if an attribute is shorter than what it should hold.
* `ndLIoHandlerNl_datagram`: for messages in the format of the kernel, it reads nothing but the
  datagram, and makes the calls of the messages in order, up to the end of a dump.
* `addRouteReq_read`: the request for a route is a message that leads to that route, which is
  owned.
-/

namespace Ndppd

open Framing Report

variable {bo : ByteOrder} {buf : ℕ → U8} {P : Load → Prop} {o n x limit rounds : ℕ}

/-! ## Numbers -/

@[simp] theorem length_hostBytes (bo : ByteOrder) (n x : ℕ) : (hostBytes bo n x).length = n := by
  cases bo <;> simp [hostBytes]

/-- The digits, the last one first. -/
theorem foldr_digits (n x : ℕ) :
    ((List.range n).map fun i => BitVec.ofNat 8 (x / 256 ^ i)).foldr
      (fun (d : U8) k => 256 * k + d.toNat) 0 = x % 256 ^ n := by
  induction n generalizing x with
  | zero => simp [Nat.mod_one]
  | succ n ih =>
    have hstep : (List.range (n + 1)).map (fun i => BitVec.ofNat 8 (x / 256 ^ i)) =
        BitVec.ofNat 8 x :: (List.range n).map fun i => BitVec.ofNat 8 (x / 256 / 256 ^ i) := by
      rw [List.range_succ_eq_map, List.map_cons, List.map_map]
      simp [Function.comp_def, Nat.pow_succ', Nat.div_div_eq_div_mul]
    have hmod : x % 256 ^ (n + 1) = x % 256 + 256 * (x / 256 % 256 ^ n) := by
      rw [Nat.pow_succ', Nat.mod_mul]
    rw [hstep, List.foldr_cons, ih, BitVec.toNat_ofNat, hmod]
    exact Nat.add_comm ..

/-- A number is read back as it was written, in the width that it has. -/
theorem hostNumber_hostBytes (bo : ByteOrder) (n x : ℕ) :
    hostNumber bo (hostBytes bo n x) = x % 256 ^ n := by
  cases bo <;> simp only [hostNumber, hostBytes, List.foldl_reverse, foldr_digits]

theorem hostNumber_single (bo : ByteOrder) (d : U8) : hostNumber bo [d] = d.toNat := by
  cases bo <;> simp [hostNumber]

/-- Lengths are rounded up to a multiple of four, unless that overflows. -/
theorem nlmsgAlign_eq (h : n + 3 < 2 ^ 32) : nlmsgAlign n = (n + 3) / 4 * 4 := by
  have hmask : 0xfffffffc = (2 ^ 30 - 1) <<< 2 := by decide
  have hround : (n + 3) / 4 * 4 = ((n + 3) >>> 2) <<< 2 := by
    rw [Nat.shiftRight_eq_div_pow, Nat.shiftLeft_eq]
  rw [nlmsgAlign, hmask, hround]
  refine Nat.eq_of_testBit_eq fun i => ?_
  rw [Nat.testBit_and, Nat.testBit_shiftLeft, Nat.testBit_shiftLeft, Nat.testBit_shiftRight,
    Nat.testBit_two_pow_sub_one]
  by_cases hi : 2 ≤ i
  · have heq : 2 + (i - 2) = i := by omega
    rw [heq]
    by_cases hlt : i - 2 < 30
    · simp [hi, hlt]
    · have hbit : (n + 3).testBit i = false :=
        Nat.testBit_lt_two_pow (h.trans_le (Nat.pow_le_pow_right (by decide) (by omega)))
      simp [hbit]
  · simp [hi]

theorem le_nlmsgAlign (h : limit < 2 ^ 31) : ∀ k ≤ limit, k ≤ nlmsgAlign k := by
  intro k hk
  rw [nlmsgAlign_eq (by omega)]
  omega

/-! ## Reads -/

theorem loadBytes_yields (buf : ℕ → U8) (h : P ⟨o, n⟩) :
    Yields P (loadBytes buf o n) (.ok (bytesAt buf o n)) := (yields_emit h).andThen (yields_pure _)

/-- A load that is allowed yields the number at its place. -/
theorem loadNumber_yields (bo : ByteOrder) (buf : ℕ → U8) (h : P ⟨o, n⟩) :
    Yields P (loadNumber bo buf o n) (.ok (hostNumber bo (bytesAt buf o n))) :=
  (loadBytes_yields buf h).andThen (yields_pure _)

/-- Bytes that are in the buffer are read from it. -/
theorem bytesAt_of_at {l : List U8} (h : At buf o l) : bytesAt buf o l.length = l := by
  refine List.ext_getElem (length_bytesAt buf o l.length) fun i hi hi' => ?_
  rw [← List.getD_eq_getElem _ 0 hi, getD_bytesAt buf hi', h i hi']

/-- A number that has been stored. -/
theorem loadNumber_at (h : At buf o (hostBytes bo n x)) (hx : x < 256 ^ n) (hP : P ⟨o, n⟩) :
    Yields P (loadNumber bo buf o n) (.ok x) := by
  have hbytes := bytesAt_of_at h
  rw [length_hostBytes] at hbytes
  have hload := loadNumber_yields bo buf hP
  rwa [hbytes, hostNumber_hostBytes, Nat.mod_eq_of_lt hx] at hload

/-! ## Any datagram -/

theorem rtaLen_ends (bo : ByteOrder) (buf : ℕ → U8) (h : o + 4 ≤ limit) :
    ∃ len, Yields (Load.Within (limit + 16)) (rtaLen bo buf o) (.ok len) :=
  ⟨_, loadNumber_yields bo buf (show o + 2 ≤ limit + 16 by omega)⟩

/-- The body of the loop over the attributes of a route. -/
theorem scanRouteAttr_ends (bo : ByteOrder) (buf : ℕ → U8) {s : RouteScan} {len : ℕ}
    (hs : ∀ p ∈ s.dst, p ≤ limit) (hlen : 4 ≤ len) (h : o + len ≤ limit) :
    ∃ r, Yields (Load.Within (limit + 16)) (scanRouteAttr bo buf s o len) (.ok r) ∧
      ∀ p ∈ r.1.dst, p ≤ limit := by
  have htype := loadNumber_yields (P := Load.Within (limit + 16)) bo buf
    (show o + 2 + 2 ≤ limit + 16 by omega)
  by_cases hoif : hostNumber bo (bytesAt buf (o + 2) 2) = rtaOif
  · refine ⟨({ s with oif := hostNumber bo (bytesAt buf (o + 4) 4) }, false), htype.andThen ?_, hs⟩
    rw [if_pos hoif]
    exact (loadNumber_yields bo buf (show o + 4 + 4 ≤ limit + 16 by omega)).andThen (yields_pure _)
  by_cases hdst : hostNumber bo (bytesAt buf (o + 2) 2) = rtaDst
  · refine ⟨({ s with dst := some (o + 4) }, false), htype.andThen ?_, fun p hp => ?_⟩
    · rw [if_neg hoif, if_pos hdst]
      exact yields_pure _
    · obtain rfl := Option.some.inj hp
      omega
  · refine ⟨(s, false), htype.andThen ?_, hs⟩
    rw [if_neg hoif, if_neg hdst]
    exact yields_pure _

/-- The route of a message that ends at `limit`. -/
theorem readRoute_ends (bo : ByteOrder) (buf : ℕ → U8) {owned : Reading Bool} {msg : ℕ}
    (howned : ∃ r, Yields (Load.Within (limit + 16)) owned (.ok r)) (hmsg : msg ≤ limit)
    (hlimit : limit < 2 ^ 31) (hrounds : limit < rounds) {rtl : ℤ}
    (hrtl : rtl = limit - (msg + 12 : ℕ)) :
    ∃ r, Yields (Load.Within (limit + 16)) (readRoute bo buf rounds owned msg rtl) (.ok r) := by
  have hwalk : ∃ s, Yields (Load.Within (limit + 16))
      (walk rtattr .mk (rtaLen bo buf) (scanRouteAttr bo buf) rounds (msg + 12) rtl {}) (.ok s) ∧
        ∀ p ∈ s.dst, p ≤ limit :=
    walk_ends (I := fun s : RouteScan => ∀ p ∈ s.dst, p ≤ limit) (le_nlmsgAlign hlimit)
      (fun o _ ho => rtaLen_ends bo buf ho)
      (fun s hs o _ len hlen ho => scanRouteAttr_ends bo buf hs hlen ho) (by omega) nofun hrtl
  obtain ⟨s, hs, hdst⟩ := hwalk
  obtain ⟨r, hr⟩ := howned
  cases hp : s.dst with
  | none =>
    refine ⟨none, hs.andThen ?_⟩
    rw [hp]
    exact yields_pure _
  | some p =>
    by_cases hoif : s.oif = 0
    · refine ⟨none, hs.andThen ?_⟩
      rw [hp]
      dsimp only
      rw [if_pos hoif]
      exact yields_pure _
    · have hple := hdst p hp
      refine ⟨some
        { table := hostNumber bo (bytesAt buf (msg + 4) 1)
          pflen := hostNumber bo (bytesAt buf (msg + 1) 1)
          oif := s.oif
          dst := addrAt (bytesAt buf p 16) 0
          owned := r }, hs.andThen ?_⟩
      rw [hp]
      dsimp only
      rw [if_neg hoif]
      refine (loadNumber_yields bo buf (show msg + 4 + 1 ≤ limit + 16 by omega)).andThen ?_
      refine (loadNumber_yields bo buf (show msg + 1 + 1 ≤ limit + 16 by omega)).andThen ?_
      refine (loadBytes_yields buf (show p + 16 ≤ limit + 16 by omega)).andThen ?_
      exact hr.andThen (yields_pure _)

theorem readOwned_yields (bo : ByteOrder) (buf : ℕ → U8) (msg : ℕ) (h : P ⟨msg + 5, 1⟩) :
    Yields P (readOwned bo buf msg) (.ok (hostNumber bo (bytesAt buf (msg + 5) 1) == 72)) :=
  (loadNumber_yields bo buf h).andThen (yields_pure _)

/-- An attribute of an address is read within the limit, whatever it says. -/
theorem scanIfaAttr_ends (bo : ByteOrder) (buf : ℕ → U8) {s : Option ℕ} {len : ℕ}
    (hs : ∀ p ∈ s, p ≤ limit) (hlen : 4 ≤ len) (h : o + len ≤ limit) :
    ∃ r, Yields (Load.Within (limit + 16)) (scanIfaAttr bo buf s o len) (.ok r) ∧
      ∀ p ∈ r.1, p ≤ limit := by
  have htype := loadNumber_yields (P := Load.Within (limit + 16)) bo buf
    (show o + 2 + 2 ≤ limit + 16 by omega)
  by_cases haddr : hostNumber bo (bytesAt buf (o + 2) 2) = ifaAddress
  · refine ⟨(some (o + 4), false), htype.andThen ?_, fun p hp => ?_⟩
    · rw [if_pos haddr]
      exact yields_pure _
    · obtain rfl := Option.some.inj hp
      omega
  · refine ⟨(s, false), htype.andThen ?_, hs⟩
    rw [if_neg haddr]
    exact yields_pure _

/-- The address of a message that ends at `limit`. -/
theorem readIfaddr_ends (bo : ByteOrder) (buf : ℕ → U8) {msg : ℕ} (hmsg : msg ≤ limit)
    (hlimit : limit < 2 ^ 31) (hrounds : limit < rounds) {length : ℤ}
    (hlength : length = limit - (msg + 8 : ℕ)) :
    ∃ r, Yields (Load.Within (limit + 16)) (readIfaddr bo buf rounds msg length) (.ok r) := by
  have hwalk : ∃ s, Yields (Load.Within (limit + 16))
      (walk rtattr .mk (rtaLen bo buf) (scanIfaAttr bo buf) rounds (msg + 8) length none) (.ok s) ∧
        ∀ p ∈ s, p ≤ limit :=
    walk_ends (I := fun s : Option ℕ => ∀ p ∈ s, p ≤ limit) (le_nlmsgAlign hlimit)
      (fun o _ ho => rtaLen_ends bo buf ho)
      (fun s hs o _ len hlen ho => scanIfaAttr_ends bo buf hs hlen ho) (by omega) nofun hlength
  obtain ⟨s, hs, haddr⟩ := hwalk
  cases s with
  | none => exact ⟨none, hs.andThen (yields_pure _)⟩
  | some p =>
    have hple := haddr p rfl
    refine ⟨some
      { iif := hostNumber bo (bytesAt buf (msg + 4) 4)
        pflen := hostNumber bo (bytesAt buf (msg + 1) 1)
        addr := addrAt (bytesAt buf p 16) 0 }, hs.andThen ?_⟩
    refine (loadNumber_yields bo buf (show msg + 4 + 4 ≤ limit + 16 by omega)).andThen ?_
    refine (loadNumber_yields bo buf (show msg + 1 + 1 ≤ limit + 16 by omega)).andThen ?_
    exact (loadBytes_yields buf (show p + 16 ≤ limit + 16 by omega)).andThen (yields_pure _)

/-- A message that ends at `limit`. -/
theorem handleMessage_ends (bo : ByteOrder) (buf : ℕ → U8) (calls : List RtCall) {hdr len : ℕ}
    (hlen : 16 ≤ len) (h : hdr + len = limit) (hlimit : limit < 2 ^ 31) (hrounds : limit < rounds) :
    ∃ r, Yields (Load.Within (limit + 16)) (handleMessage bo buf rounds calls hdr len)
      (.ok r) := by
  have htype := loadNumber_yields (P := Load.Within (limit + 16)) bo buf
    (show hdr + 4 + 2 ≤ limit + 16 by omega)
  have hrtl : nlmsgPayload len 12 = limit - (hdr + 16 + 12 : ℕ) := by
    rw [nlmsgPayload]
    omega
  have hlength : nlmsgPayload len 8 = limit - (hdr + 16 + 8 : ℕ) := by
    rw [nlmsgPayload]
    omega
  have howned := readOwned_yields (P := Load.Within (limit + 16)) bo buf (hdr + 16)
    (show hdr + 16 + 5 + 1 ≤ limit + 16 by omega)
  obtain ⟨route, hroute⟩ := readRoute_ends bo buf ⟨_, howned⟩ (show hdr + 16 ≤ limit by omega)
    hlimit hrounds hrtl
  obtain ⟨route', hroute'⟩ := readRoute_ends bo buf ⟨false, yields_pure false⟩
    (show hdr + 16 ≤ limit by omega) hlimit hrounds hrtl
  obtain ⟨addr, haddr⟩ := readIfaddr_ends bo buf (show hdr + 16 ≤ limit by omega) hlimit hrounds
    hlength
  have herror := loadNumber_yields (P := Load.Within (limit + 16)) bo buf
    (show hdr + 16 + 4 ≤ limit + 16 by omega)
  have herrorType := loadNumber_yields (P := Load.Within (limit + 16)) bo buf
    (show hdr + 24 + 2 ≤ limit + 16 by omega)
  have hpure (r : List RtCall × Bool) : Yields (Load.Within (limit + 16)) (pure r : Reading _)
      (.ok r) := yields_pure r
  suffices hbranch : ∀ type : ℕ, ∃ r, Yields (Load.Within (limit + 16))
      (handleType bo buf rounds calls hdr len type) (.ok r) by
    obtain ⟨r, hr⟩ := hbranch _
    exact ⟨r, htype.andThen hr⟩
  intro type
  rw [handleType]
  split_ifs
  · exact ⟨_, hpure _⟩
  · exact ⟨_, herror.andThen (herrorType.andThen (hpure _))⟩
  · exact ⟨_, hroute.andThen (hpure _)⟩
  · exact ⟨_, hroute'.andThen (hpure _)⟩
  · exact ⟨_, haddr.andThen (hpure _)⟩
  · exact ⟨_, haddr.andThen (hpure _)⟩
  · exact ⟨_, hpure _⟩
  · exact ⟨_, hpure _⟩

theorem Load.Within.mono {l : Load} {k : ℕ} (h : l.Within k) (hk : k ≤ n) : l.Within n := h.trans hk

/-- For every datagram, the handler ends, and reads at most 16 bytes after it. -/
theorem ndLIoHandlerNl_ends (bo : ByteOrder) (buf : ℕ → U8) {len : ℕ} (hlen : len ≤ 4096)
    (hrounds : len < rounds) :
    ∃ calls, Yields (Load.Within (len + 16)) (ndLIoHandlerNl bo buf rounds len) (.ok calls) := by
  have hlength : ∀ o ≥ 0, o + nlmsg.header ≤ len →
      ∃ k, Yields (Load.Within (len + 16)) (nlmsgLen bo buf o) (.ok k) := by
    intro o _ ho
    have hheader : nlmsg.header = 16 := rfl
    exact ⟨_, loadNumber_yields bo buf (show o + 4 ≤ len + 16 by omega)⟩
  have hbody : ∀ calls, True → ∀ hdr ≥ 0, ∀ k, nlmsg.header ≤ k → hdr + k ≤ len →
      ∃ r, Yields (Load.Within (len + 16)) (handleMessage bo buf rounds calls hdr k) (.ok r) ∧
        True := by
    intro calls _ hdr _ k hk hle
    obtain ⟨r, hr⟩ := handleMessage_ends bo buf calls hk rfl (by omega)
      (show hdr + k < rounds by omega)
    exact ⟨r, hr.mono fun e he => he.mono (by omega), trivial⟩
  obtain ⟨calls, hcalls, -⟩ := walk_ends (le_nlmsgAlign (show len < 2 ^ 31 by omega)) hlength hbody
    (show len - 0 < rounds by omega) trivial (show (len : ℤ) = len - (0 : ℕ) by simp)
  exact ⟨calls, hcalls⟩

/-! ## Datagrams of the kernel -/

theorem NlAttr.length_bytes (bo : ByteOrder) (a : NlAttr) :
    (a.bytes bo).length = 4 + a.data.length := by
  simp only [NlAttr.bytes, List.length_append, length_hostBytes]
  omega

/-- What the buffer has of an attribute. -/
theorem NlAttr.at_bytes {a : NlAttr} (h : At buf o (a.bytes bo)) :
    At buf o (hostBytes bo 2 (4 + a.data.length)) ∧ At buf (o + 2) (hostBytes bo 2 a.type.toNat) ∧
      At buf (o + 4) a.data := by
  rw [NlAttr.bytes, at_append, at_append, length_hostBytes, length_hostBytes] at h
  exact h

/-- The length of an attribute is its own, and at least that of its header. -/
theorem NlAttr.rtaLen_yields {a : NlAttr} (h : At buf o (a.bytes bo)) :
    4 ≤ (a.bytes bo).length ∧ (o + (a.bytes bo).length ≤ limit →
      Yields (Load.Within limit) (rtaLen bo buf o) (.ok (a.bytes bo).length)) := by
  rw [a.length_bytes bo]
  refine ⟨Nat.le_add_right .., fun ho => ?_⟩
  exact loadNumber_at (NlAttr.at_bytes h).1 a.length_lt (show o + 2 ≤ limit by omega)

/-- The pointer that has been found is to the address that has been found. -/
def PointsTo (buf : ℕ → U8) (limit : ℕ) (p : Option ℕ) (a : Option Addr) : Prop :=
  (p.map fun p => addrAt (bytesAt buf p 16) 0) = a ∧ ∀ q ∈ p, q + 16 ≤ limit

/-- A pointer to the bytes of an address points to the address. -/
theorem pointsTo_some {a : List U8} (h : At buf o a) (ha : a.length = 16)
    (hle : o + 16 ≤ limit) : PointsTo buf limit (some o) (some (addrAt a 0)) := by
  have hbytes := bytesAt_of_at h
  rw [ha] at hbytes
  refine ⟨by rw [Option.map_some, hbytes], fun q hq => ?_⟩
  obtain rfl := Option.some.inj hq
  exact hle

/-- What the loop over the attributes of a route has found. -/
structure RouteScan.Finds (buf : ℕ → U8) (limit : ℕ) (s : RouteScan) (r : RtScan) : Prop where
  dst : PointsTo buf limit s.dst r.dst
  oif : s.oif = r.oif

/-- An attribute of a route is scanned as what it says. -/
theorem scanRouteAttr_at {a : NlAttr} (h : At buf o (a.bytes bo))
    (hle : o + (a.bytes bo).length ≤ limit) (hoif : a.type = 4 → a.data.length = 4)
    (hdst : a.type = 1 → a.data.length = 16) {s : RouteScan} {r : RtScan}
    (hs : s.Finds buf limit r) (len : ℕ) :
    ∃ s', Yields (Load.Within limit) (scanRouteAttr bo buf s o len) (.ok s') ∧
      s'.1.Finds buf limit (r.read (a.rtAttr bo)) ∧ s'.2 = false := by
  obtain ⟨-, htype, hdata⟩ := NlAttr.at_bytes h
  rw [a.length_bytes bo] at hle
  have hload := loadNumber_at (P := Load.Within limit) htype a.type.isLt
    (show o + 2 + 2 ≤ limit by omega)
  rw [NlAttr.rtAttr]
  by_cases h4 : a.type.toNat = rtaOif
  · have hlen := hoif (BitVec.eq_of_toNat_eq h4)
    have hbytes := bytesAt_of_at hdata
    rw [hlen] at hbytes
    rw [if_pos h4]
    refine ⟨({ s with oif := hostNumber bo a.data }, false), hload.andThen ?_, ⟨hs.dst, rfl⟩, rfl⟩
    rw [if_pos h4]
    have hnumber := loadNumber_yields (P := Load.Within limit) bo buf
      (show o + 4 + 4 ≤ limit by omega)
    rw [hbytes] at hnumber
    exact hnumber.andThen (yields_pure _)
  rw [if_neg h4]
  by_cases h1 : a.type.toNat = rtaDst
  · have hlen := hdst (BitVec.eq_of_toNat_eq h1)
    rw [if_pos h1]
    refine ⟨({ s with dst := some (o + 4) }, false), hload.andThen ?_,
      ⟨pointsTo_some hdata hlen (by omega), hs.oif⟩, rfl⟩
    rw [if_neg h4, if_pos h1]
    exact yields_pure _
  · rw [if_neg h1]
    refine ⟨(s, false), hload.andThen ?_, hs, rfl⟩
    rw [if_neg h4, if_neg h1]
    exact yields_pure _

theorem RtMsg.route_eq (msg : RtMsg) (owned : Bool) : msg.route owned =
    msg.scan.dst.bind fun dst => if msg.scan.oif = 0 then none
      else some { table := msg.table.toNat, pflen := msg.dstLen.toNat, oif := msg.scan.oif, dst,
                  owned } := by
  unfold RtMsg.route
  cases msg.scan with
  | mk dst oif => cases dst <;> rfl

theorem loadByte_at {d : U8} (h : buf o = d) (hP : P ⟨o, 1⟩) :
    Yields P (loadNumber bo buf o 1) (.ok d.toNat) := by
  have hload := loadNumber_yields bo buf hP
  have hbytes : bytesAt buf o 1 = [d] := congrArg (fun d => [d]) h
  rwa [hbytes, hostNumber_single] at hload

/-- The loop over the attributes of a route finds what the message says. -/
theorem walkRouteAttrs_at {attrs : List NlAttr} (h : At buf o (attrBytes bo attrs))
    (hoif : ∀ a ∈ attrs, a.type = 4 → a.data.length = 4)
    (hdst : ∀ a ∈ attrs, a.type = 1 → a.data.length = 16)
    (hle : o + (attrBytes bo attrs).length ≤ limit) (hlimit : limit < 2 ^ 31)
    (hrounds : limit < rounds) (m : Rtmsg) :
    ∃ s, Yields (Load.Within limit) (walk rtattr .mk (rtaLen bo buf) (scanRouteAttr bo buf) rounds o
        (attrBytes bo attrs).length {}) (.ok s) ∧
      s.Finds buf limit (m.rtMsg bo attrs).scan := by
  have hscan : (m.rtMsg bo attrs).scan =
      scan (fun (r : RtScan) a => (r.read (a.rtAttr bo), false)) attrs {} := by
    rw [scan_eq_foldl fun _ _ => rfl]
    exact List.foldl_map
  have hstart : ({} : RouteScan).Finds buf limit {} := ⟨⟨rfl, nofun⟩, rfl⟩
  rw [hscan]
  exact walk_pack (g := fun (r : RtScan) a => (r.read (a.rtAttr bo), false))
    (R := RouteScan.Finds buf limit) (le_nlmsgAlign hlimit)
    (fun a _ o ho => NlAttr.rtaLen_yields ho)
    (fun a ha s r o hs ho hole => scanRouteAttr_at ho hole (hoif a ha) (hdst a ha) hs _) h rfl hle
    (lt_of_le_of_lt (Nat.le_of_add_left_le hle) hrounds) hstart

theorem Rtmsg.length_bytes (bo : ByteOrder) (m : Rtmsg) : (m.bytes bo).length = 12 := by
  simp [Rtmsg.bytes]

theorem Ifaddrmsg.length_bytes (bo : ByteOrder) (m : Ifaddrmsg) : (m.bytes bo).length = 8 := by
  simp [Ifaddrmsg.bytes]

/-- A message of a route is read as the route that it says, or as none. -/
theorem readRoute_at {m : Rtmsg} {attrs : List NlAttr} {owned : Reading Bool} {ow : Bool}
    (hmsg : At buf o (m.bytes bo)) (hattrs : At buf (o + 12) (attrBytes bo attrs))
    (hoif : ∀ a ∈ attrs, a.type = 4 → a.data.length = 4)
    (hdst : ∀ a ∈ attrs, a.type = 1 → a.data.length = 16)
    (hle : o + 12 + (attrBytes bo attrs).length ≤ limit) (hlimit : limit < 2 ^ 31)
    (hrounds : limit < rounds) (howned : Yields (Load.Within limit) owned (.ok ow)) :
    Yields (Load.Within limit) (readRoute bo buf rounds owned o (attrBytes bo attrs).length)
      (.ok ((m.rtMsg bo attrs).route ow)) := by
  obtain ⟨s, hs, hfinds⟩ := walkRouteAttrs_at hattrs hoif hdst hle hlimit hrounds m
  rw [RtMsg.route_eq]
  refine hs.andThen ?_
  rw [← hfinds.dst.1, ← hfinds.oif]
  cases hp : s.dst with
  | none => exact yields_pure _
  | some p =>
    dsimp only [Option.map_some, Option.bind_some]
    split_ifs
    · exact yields_pure _
    · have hptr := hfinds.dst.2 p hp
      have hlen := m.length_bytes bo
      have htable : buf (o + 4) = m.table := hmsg 4 (by omega)
      have hdstLen : buf (o + 1) = m.dstLen := hmsg 1 (by omega)
      refine (loadByte_at htable (show o + 4 + 1 ≤ limit by omega)).andThen ?_
      refine (loadByte_at hdstLen (show o + 1 + 1 ≤ limit by omega)).andThen ?_
      exact (loadBytes_yields buf (show p + 16 ≤ limit from hptr)).andThen
        (howned.andThen (yields_pure _))

/-- What an attribute makes of the address that has been found. -/
def IfaAttr.read (addr : Option Addr) : IfaAttr → Option Addr
  | .address a => some a
  | .ownAddress _ => addr
  | .other => addr

theorem IfaMsg.scan_eq (msg : IfaMsg) : msg.scan = msg.attrs.foldl IfaAttr.read none := by
  unfold IfaMsg.scan
  congr 1
  funext addr rta
  cases rta <;> rfl

/-- An attribute of an address is scanned as what it says. -/
theorem scanIfaAttr_at {a : NlAttr} (h : At buf o (a.bytes bo))
    (hle : o + (a.bytes bo).length ≤ limit) (haddr : a.type = 1 → a.data.length = 16)
    {s : Option ℕ} {r : Option Addr} (hs : PointsTo buf limit s r) (len : ℕ) :
    ∃ s', Yields (Load.Within limit) (scanIfaAttr bo buf s o len) (.ok s') ∧
      PointsTo buf limit s'.1 (a.ifaAttr.read r) ∧ s'.2 = false := by
  obtain ⟨-, htype, hdata⟩ := NlAttr.at_bytes h
  rw [a.length_bytes bo] at hle
  have hload := loadNumber_at (P := Load.Within limit) htype a.type.isLt
    (show o + 2 + 2 ≤ limit by omega)
  rw [NlAttr.ifaAttr]
  by_cases h1 : a.type.toNat = ifaAddress
  · have hlen := haddr (BitVec.eq_of_toNat_eq h1)
    rw [if_pos h1]
    refine ⟨(some (o + 4), false), hload.andThen ?_, pointsTo_some hdata hlen (by omega), rfl⟩
    rw [if_pos h1]
    exact yields_pure _
  · rw [if_neg h1]
    refine ⟨(s, false), hload.andThen ?_, ?_, rfl⟩
    · rw [if_neg h1]
      exact yields_pure _
    · split_ifs
      · exact hs
      · exact hs

/-- A message of an address is read as the address that it says, or as none. -/
theorem readIfaddr_at {m : Ifaddrmsg} {attrs : List NlAttr} (hmsg : At buf o (m.bytes bo))
    (hattrs : At buf (o + 8) (attrBytes bo attrs))
    (haddr : ∀ a ∈ attrs, a.type = 1 → a.data.length = 16)
    (hle : o + 8 + (attrBytes bo attrs).length ≤ limit) (hlimit : limit < 2 ^ 31)
    (hrounds : limit < rounds) :
    Yields (Load.Within limit) (readIfaddr bo buf rounds o (attrBytes bo attrs).length)
      (.ok (m.ifaMsg attrs).rtAddr) := by
  have hscan : (m.ifaMsg attrs).scan =
      scan (fun (r : Option Addr) a => (a.ifaAttr.read r, false)) attrs none := by
    rw [IfaMsg.scan_eq, scan_eq_foldl fun _ _ => rfl]
    exact List.foldl_map
  have hstart : PointsTo buf limit none none := ⟨rfl, nofun⟩
  obtain ⟨s, hs, hptr⟩ := walk_pack (o := o + 8) (n := rounds) (P := Load.Within limit)
    (g := fun (r : Option Addr) a => (a.ifaAttr.read r, false))
    (R := PointsTo buf limit) (le_nlmsgAlign hlimit)
    (fun a _ o ho => NlAttr.rtaLen_yields ho)
    (fun a ha s r o hs ho hole => scanIfaAttr_at ho hole (haddr a ha) hs _) hattrs rfl hle
    (lt_of_le_of_lt (Nat.le_of_add_left_le hle) hrounds) hstart
  rw [IfaMsg.rtAddr, hscan]
  refine hs.andThen ?_
  rw [← hptr.1]
  cases s with
  | none => exact yields_pure _
  | some p =>
    have hp := hptr.2 p rfl
    have hlen := m.length_bytes bo
    have hpflen : buf (o + 1) = m.prefixlen := hmsg 1 (by omega)
    have hindex : At buf (o + 4) (hostBytes bo 4 m.index.toNat) := by
      rw [Ifaddrmsg.bytes, at_append] at hmsg
      exact hmsg.2
    refine (loadNumber_at hindex m.index.isLt (show o + 4 + 4 ≤ limit by omega)).andThen ?_
    refine (loadByte_at hpflen (show o + 1 + 1 ≤ limit by omega)).andThen ?_
    exact (loadBytes_yields buf (show p + 16 ≤ limit from hp)).andThen (yields_pure _)

variable {m : NlMessage bo}

theorem NlMessage.length_bytes (m : NlMessage bo) :
    m.bytes.length = 16 + m.notice.payload.length := by
  simp only [NlMessage.bytes, List.length_append, length_hostBytes]
  omega

/-- What the buffer has of a message. -/
theorem NlMessage.at_bytes (h : At buf o m.bytes) :
    At buf o (hostBytes bo 4 (16 + m.notice.payload.length)) ∧
      At buf (o + 4) (hostBytes bo 2 m.notice.type) ∧ At buf (o + 16) m.notice.payload := by
  rw [NlMessage.bytes, at_append, at_append, at_append, at_append, at_append] at h
  simp only [length_hostBytes] at h
  exact ⟨h.1, h.2.1, h.2.2.2.2.2⟩

theorem Notice.type_lt (x : Notice bo) : x.type < 256 ^ 2 := by
  have hall : ∀ type ∈ nlmsgTypes, type < 256 ^ 2 := by decide
  cases x with
  | done => exact hall 3 (by decide)
  | error => exact hall 2 (by decide)
  | route new =>
    cases new with
    | true => exact hall 24 (by decide)
    | false => exact hall 25 (by decide)
  | addr new =>
    cases new with
    | true => exact hall 20 (by decide)
    | false => exact hall 21 (by decide)
  | link new =>
    cases new with
    | true => exact hall 16 (by decide)
    | false => exact hall 17 (by decide)
  | other type => exact type.isLt

/-- A route is an own one by its protocol. -/
theorem readOwned_at (bo : ByteOrder) {d : U8} {msg : ℕ} (h : buf (msg + 5) = d)
    (hle : msg + 6 ≤ limit) :
    Yields (Load.Within limit) (readOwned bo buf msg) (.ok (d == rtprotNdppd)) := by
  have heq : (d.toNat == 72) = (d == rtprotNdppd) := by
    rw [Bool.eq_iff_iff, beq_iff_eq, beq_iff_eq]
    exact ⟨fun h => BitVec.eq_of_toNat_eq (y := rtprotNdppd) h, congrArg BitVec.toNat⟩
  rw [← heq]
  exact (loadByte_at h (show msg + 5 + 1 ≤ limit from hle)).andThen (yields_pure _)

/-- A message, by its type. -/
theorem handleType_at (calls : List RtCall) {hdr : ℕ} {x : Notice bo}
    (h : At buf (hdr + 16) x.payload) (hle : hdr + 16 + x.payload.length ≤ limit)
    (hlimit : limit < 2 ^ 31) (hrounds : limit < rounds) :
    Yields (Load.Within limit)
      (handleType bo buf rounds calls hdr (16 + x.payload.length) x.type)
      (.ok (calls ++ x.call.toList, x.isDone)) := by
  cases x with
  | done payload => exact yields_pure _
  | error errno length type rest hrest =>
    rw [Notice.payload, at_append, at_append, at_append] at h
    simp only [length_hostBytes] at h
    simp only [Notice.payload, List.length_append, length_hostBytes] at hle
    have herrno := loadNumber_at (P := Load.Within limit) h.1 errno.isLt
      (show hdr + 16 + 4 ≤ limit by omega)
    have htype := loadNumber_at (P := Load.Within limit) h.2.2.1 type.isLt
      (show hdr + 24 + 2 ≤ limit by omega)
    exact herrno.andThen (htype.andThen (yields_pure _))
  | route new msg attrs hoif hdst =>
    rw [Notice.payload] at h hle ⊢
    rw [at_append, msg.length_bytes bo] at h
    have hpayload : nlmsgPayload (16 + (msg.bytes bo ++ attrBytes bo attrs).length) 12 =
        (attrBytes bo attrs).length := by
      rw [nlmsgPayload, List.length_append, msg.length_bytes bo]
      omega
    rw [List.length_append, msg.length_bytes bo] at hle
    have hattrs : hdr + 16 + 12 + (attrBytes bo attrs).length ≤ limit := by omega
    cases new with
    | true =>
      have hprotocol : buf (hdr + 16 + 5) = msg.protocol :=
        h.1 5 (by rw [msg.length_bytes bo]; decide)
      have hroute := readRoute_at h.1 h.2 hoif hdst hattrs hlimit hrounds
        (readOwned_at bo hprotocol (by omega))
      rw [← hpayload] at hroute
      exact hroute.andThen (yields_pure _)
    | false =>
      have hroute := readRoute_at h.1 h.2 hoif hdst hattrs hlimit hrounds (yields_pure false)
      rw [← hpayload] at hroute
      exact hroute.andThen (yields_pure _)
  | addr new msg attrs haddr =>
    rw [Notice.payload] at h hle ⊢
    rw [at_append, msg.length_bytes bo] at h
    have hpayload : nlmsgPayload (16 + (msg.bytes bo ++ attrBytes bo attrs).length) 8 =
        (attrBytes bo attrs).length := by
      rw [nlmsgPayload, List.length_append, msg.length_bytes bo]
      omega
    rw [List.length_append, msg.length_bytes bo] at hle
    have hread := readIfaddr_at h.1 h.2 haddr (show hdr + 16 + 8 + _ ≤ limit by omega) hlimit
      hrounds
    rw [← hpayload] at hread
    cases new with
    | true => exact hread.andThen (yields_pure _)
    | false => exact hread.andThen (yields_pure _)
  | link new payload => cases new <;> exact yields_pure _
  | other type payload htype =>
    have hne := htype
    simp only [nlmsgTypes, List.mem_cons, List.not_mem_nil, or_false, not_or] at hne
    obtain ⟨h2, h3, h16, h17, h20, h21, h24, h25⟩ := hne
    rw [handleType, Notice.type, if_neg h3, if_neg h2, if_neg h24, if_neg h25, if_neg h20,
      if_neg h21, if_neg (not_or.2 ⟨h16, h17⟩)]
    simp only [Notice.call, Option.toList_none, List.append_nil]
    exact yields_pure _

/-- For every datagram in the format of the kernel, the handler reads the datagram only, and makes
    the calls of its messages. -/
theorem ndLIoHandlerNl_datagram {ms : List (NlMessage bo)} (h : At buf 0 (datagram ms))
    (hlen : (datagram ms).length ≤ 4096) (hrounds : (datagram ms).length < rounds) :
    Yields (Load.Within (datagram ms).length)
      (ndLIoHandlerNl bo buf rounds (datagram ms).length) (.ok (datagramCalls ms)) := by
  have hlength : ∀ m ∈ ms, ∀ o, At buf o m.bytes → nlmsg.header ≤ m.bytes.length ∧
      (o + m.bytes.length ≤ (datagram ms).length → Yields (Load.Within (datagram ms).length)
        (nlmsgLen bo buf o) (.ok m.bytes.length)) := by
    intro m _ o ho
    rw [m.length_bytes]
    refine ⟨Nat.le_add_right .., fun hle => ?_⟩
    exact loadNumber_at (NlMessage.at_bytes ho).1 (by omega)
      (show o + 4 ≤ (datagram ms).length by omega)
  have hbody : ∀ m ∈ ms, ∀ calls calls' o, calls = calls' → At buf o m.bytes →
      o + m.bytes.length ≤ (datagram ms).length → ∃ r, Yields (Load.Within (datagram ms).length)
        (handleMessage bo buf rounds calls o m.bytes.length) (.ok r) ∧
          r.1 = calls' ++ m.notice.call.toList ∧ r.2 = m.notice.isDone := by
    rintro m _ calls _ o rfl ho hle
    obtain ⟨-, htype, hpayload⟩ := NlMessage.at_bytes ho
    rw [m.length_bytes] at hle ⊢
    have hload := loadNumber_at (P := Load.Within (datagram ms).length) htype m.notice.type_lt
      (show o + 4 + 2 ≤ (datagram ms).length by omega)
    refine ⟨(calls ++ m.notice.call.toList, m.notice.isDone), hload.andThen ?_, rfl, rfl⟩
    exact handleType_at calls hpayload (by omega) (by omega) hrounds
  obtain ⟨calls, hcalls, rfl⟩ := walk_pack (R := Eq)
    (g := fun calls (m : NlMessage bo) => (calls ++ m.notice.call.toList, m.notice.isDone))
    (le_nlmsgAlign (show (datagram ms).length < 2 ^ 31 by omega)) hlength hbody h rfl
    (Nat.zero_add _).le hrounds rfl
  exact hcalls

/-- For every content of the buffer, the handler ends, and reads at most 16 bytes after the
    datagram. If the datagram is in the format of the kernel, it reads nothing after it, and makes
    the calls of its messages, up to the end of a dump. -/
theorem ndLIoHandlerNl_safe (bo : ByteOrder) (buf : ℕ → U8) {len : ℕ} (hlen : len ≤ 4096) :
    (∃ calls, Yields (Load.Within (len + 16)) (ndLIoHandlerNl bo buf (len + 1) len)
      (.ok calls)) ∧
    ∀ ms : List (NlMessage bo), At buf 0 (datagram ms) → (datagram ms).length = len →
      Yields (Load.Within len) (ndLIoHandlerNl bo buf (len + 1) len) (.ok (datagramCalls ms)) := by
  refine ⟨ndLIoHandlerNl_ends bo buf hlen (Nat.lt_add_one _), fun ms hms heq => ?_⟩
  subst heq
  exact ndLIoHandlerNl_datagram hms hlen (Nat.lt_add_one _)

namespace Small

/-- A message on a route whose last attribute, for the destination, has no data. -/
def cutOff : List U8 :=
  hostBytes .little 4 40 ++ hostBytes .little 2 rtmNewroute ++ List.replicate 10 0 ++
    List.replicate 12 0 ++ hostBytes .little 2 8 ++ hostBytes .little 2 rtaOif ++
    hostBytes .little 4 7 ++ hostBytes .little 2 4 ++ hostBytes .little 2 rtaDst

/-- The destination is read after the end of the datagram. -/
theorem cutOff_safe : ⟨40, 16⟩ ∈ (ndLIoHandlerNl .little (cutOff.getD · 0) 41 40).trace ∧
    ∃ calls, Yields (Load.Within 56) (ndLIoHandlerNl .little (cutOff.getD · 0) 41 40)
      (.ok calls) := by
  refine ⟨by decide +kernel, ?_⟩
  exact (ndLIoHandlerNl_safe .little (cutOff.getD · 0) (show 40 ≤ 4096 by decide)).1

end Small

/-! ## Requests -/

section Requests

variable (bo) (dst : Addr) (pflen oif table : ℕ)

/-- The fixed part of the requests. -/
def reqMsg : Rtmsg where
  family := afInet6
  dstLen := .ofNat 8 pflen
  table := .ofNat 8 table
  protocol := rtprotNdppd

/-- The attribute for the interface of a route. -/
def oifAttr : NlAttr where
  type := 4
  data := hostBytes bo 4 oif
  length_lt := by simp

/-- The attribute for the destination of a route. -/
def dstAttr : NlAttr where
  type := 1
  data := dst.bytes
  length_lt := by rw [Addr.length_bytes]; decide

theorem length_oifAttr : (oifAttr bo oif).data.length = 4 := length_hostBytes ..

/-- The request for a route, as a message. -/
def addRouteMsg : NlMessage bo where
  flags := 0x401
  seq := 0
  pid := 0
  notice := .route true (reqMsg pflen table) [oifAttr bo oif, dstAttr dst]
    (List.forall_mem_cons.2 ⟨fun _ => length_oifAttr bo oif,
      List.forall_mem_singleton.2 fun h => absurd h (by simp [dstAttr])⟩)
    (List.forall_mem_cons.2 ⟨fun h => absurd h (by simp [oifAttr]),
      List.forall_mem_singleton.2 fun _ => dst.length_bytes⟩)

theorem attrBytes_dstAttr : attrBytes bo [dstAttr dst] =
    hostBytes bo 2 20 ++ hostBytes bo 2 rtaDst ++ dst.bytes := by
  have hbytes : (dstAttr dst).bytes bo = hostBytes bo 2 20 ++ hostBytes bo 2 rtaDst ++ dst.bytes :=
    (List.append_assoc ..).symm
  have hlen : ((dstAttr dst).bytes bo).length = 20 := by
    rw [NlAttr.length_bytes, dstAttr, Addr.length_bytes]
  have haligned : rtattr.align ((dstAttr dst).bytes bo).length =
      ((dstAttr dst).bytes bo).length := by
    rw [hlen]
    decide
  rw [attrBytes, List.map_cons, List.map_nil, pack_cons_of_aligned _ haligned, pack,
    List.flatMap_nil, List.append_nil, hbytes]

theorem attrBytes_oifAttr (attrs : List NlAttr) : attrBytes bo (oifAttr bo oif :: attrs) =
    hostBytes bo 2 8 ++ hostBytes bo 2 rtaOif ++ hostBytes bo 4 oif ++ attrBytes bo attrs := by
  have hbytes : (oifAttr bo oif).bytes bo =
      hostBytes bo 2 8 ++ hostBytes bo 2 rtaOif ++ hostBytes bo 4 oif := by
    rw [NlAttr.bytes, length_oifAttr]
    exact (List.append_assoc ..).symm
  have hlen : ((oifAttr bo oif).bytes bo).length = 8 := by
    rw [NlAttr.length_bytes, length_oifAttr]
  have haligned : rtattr.align ((oifAttr bo oif).bytes bo).length =
      ((oifAttr bo oif).bytes bo).length := by
    rw [hlen]
    decide
  rw [attrBytes, List.map_cons, pack_cons_of_aligned _ haligned, hbytes, attrBytes]

/-- The request of the daemon is a datagram with one message. -/
theorem datagram_addRouteMsg :
    datagram [addRouteMsg bo dst pflen oif table] = addRouteReq bo dst pflen oif table := by
  have hpayload : (addRouteMsg bo dst pflen oif table).notice.payload =
      (reqMsg pflen table).bytes bo ++ (hostBytes bo 2 8 ++ hostBytes bo 2 rtaOif ++
        hostBytes bo 4 oif ++ (hostBytes bo 2 20 ++ hostBytes bo 2 rtaDst ++ dst.bytes)) := by
    rw [← attrBytes_dstAttr, ← attrBytes_oifAttr]
    rfl
  have hlength : (addRouteMsg bo dst pflen oif table).notice.payload.length = 40 := by
    simp [hpayload, Rtmsg.length_bytes, Addr.length_bytes]
  rw [datagram, List.map_cons, List.map_nil, pack_cons_of_aligned, pack, List.flatMap_nil,
    List.append_nil, NlMessage.bytes, hlength, hpayload]
  · simp only [addRouteReq, List.append_assoc]
    rfl
  · rw [NlMessage.length_bytes, hlength]
    rfl

theorem rtAttr_dstAttr : (dstAttr dst).rtAttr bo = .dst dst := by
  have hdrop : dst.bytes.drop 0 = dst.bytes ++ [] := by simp
  exact congrArg RtAttr.dst (addrAt_field hdrop)

theorem rtAttr_oifAttr : (oifAttr bo oif).rtAttr bo = .oif (oif % 2 ^ 32) :=
  congrArg RtAttr.oif (hostNumber_hostBytes bo 4 oif)

/-- The route of the request. -/
theorem reqMsg_route (hoif : oif % 2 ^ 32 ≠ 0) (owned : Bool) :
    ((reqMsg pflen table).rtMsg bo [oifAttr bo oif, dstAttr dst]).route owned =
      some { dst, pflen := pflen % 256, oif := oif % 2 ^ 32, table := table % 256, owned } := by
  have hscan : ((reqMsg pflen table).rtMsg bo [oifAttr bo oif, dstAttr dst]).scan =
      ⟨some dst, oif % 2 ^ 32⟩ := by
    rw [RtMsg.scan, Rtmsg.rtMsg, List.map_cons, List.map_cons, rtAttr_oifAttr, rtAttr_dstAttr]
    rfl
  rw [RtMsg.route_eq, hscan, Option.bind_some, if_neg hoif]
  rfl

/-- The request of `nd_rt_add_route` is a message on the route it asks for, which is owned. -/
theorem addRouteReq_read {buf : ℕ → U8} (h : At buf 0 (addRouteReq bo dst pflen oif table))
    (hoif : oif % 2 ^ 32 ≠ 0) (hrounds : 56 < rounds) :
    Yields (Load.Within 56) (ndLIoHandlerNl bo buf rounds 56)
      (.ok [.newRoute { dst, pflen := pflen % 256, oif := oif % 2 ^ 32, table := table % 256,
                        owned := true }]) := by
  rw [← datagram_addRouteMsg] at h
  have hlen : (datagram [addRouteMsg bo dst pflen oif table]).length = 56 := by
    simp [datagram_addRouteMsg, addRouteReq, Addr.length_bytes]
  have hread := ndLIoHandlerNl_datagram h (by rw [hlen]; decide) (hlen.trans_lt hrounds)
  have hcalls : datagramCalls [addRouteMsg bo dst pflen oif table] =
      (((reqMsg pflen table).rtMsg bo [oifAttr bo oif, dstAttr dst]).route true
        |>.map RtCall.newRoute).toList := rfl
  rwa [hlen, hcalls, reqMsg_route bo dst pflen oif table hoif] at hread

end Requests

namespace Small

theorem at_getD {β : Type} (l : List β) (d : β) : At (l.getD · d) 0 l := by
  intro i hi
  rw [Nat.zero_add]
  exact List.getD_eq_getElem l d hi

theorem addRouteReq_read_small :
    Yields (Load.Within 56)
      (ndLIoHandlerNl .little ((addRouteReq .little 1 128 7 254).getD · 0) 57 56)
      (.ok [.newRoute { dst := 1, pflen := 128, oif := 7, table := 254, owned := true }]) :=
  addRouteReq_read .little 1 128 7 254 (at_getD _ 0) (by decide) (by decide)

end Small

end Ndppd
