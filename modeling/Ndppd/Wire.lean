import Ndppd.Validity

/-!
# Frames on the wire

The frames that the daemon sends (`nd_iface_send_ns`, `nd_iface_send_na` and
`ndL_send_icmp6`), byte by byte, and what a daemon does with them when it receives
them. Each field is read where it was written (`Ip6Msg.*`), the checksum does not
depend on the bytes it is written in (`ndLCalculateIcmp6Checksum_stamp`), hence a
message that is sent is the one that is dispatched (`verdict_sent`).

`sent_received` puts the two sides together: a solicitation is given to the proxy
with the address of its sender, and an advertisement makes the receiver look for
a session for its target.
-/

namespace Ndppd

/-! ## Bytes -/

/-- The byte `i` of a link-layer address. -/
def LlAddr.u8 (ll : LlAddr) (i : ℕ) : U8 := BitVec.extractLsb' (8 * (5 - i)) 8 ll

/-- The bytes of a link-layer address. -/
def LlAddr.bytes (ll : LlAddr) : List U8 := (List.range 6).map ll.u8

theorem LlAddr.length_bytes (ll : LlAddr) : ll.bytes.length = 6 := rfl

theorem Addr.length_bytes (a : Addr) : a.bytes.length = 16 := rfl

/-- The bytes of a short word (`htons`). -/
def u16Bytes (w : U16) : List U8 := [w.extractLsb' 8 8, w.extractLsb' 0 8]

theorem u16Bytes_append (w : U16) : w.extractLsb' 8 8 ++ w.extractLsb' 0 8 = w := by
  ext i hi
  simp only [BitVec.getElem_append, BitVec.getElem_extractLsb']
  grind

/-- The first `k` bytes of a word of `n` bytes, read one after the other. -/
theorem foldl_bytes {w n k : ℕ} (a : BitVec w) (hw : w ≤ 8 * n) (hk : k ≤ n) :
    ((List.range k).map fun i => a.extractLsb' (8 * (n - 1 - i)) 8).foldl
      (fun (acc : BitVec w) x => acc <<< 8 ||| x.setWidth w) 0 = a >>> (8 * (n - k)) := by
  induction k with
  | zero =>
    rw [Nat.sub_zero, BitVec.ushiftRight_eq_zero hw]
    rfl
  | succ k ih =>
    rw [List.range_succ, List.map_append, List.foldl_append, ih (by omega)]
    have hpos : 8 * (n - k) = 8 * (n - (k + 1)) + 8 := by omega
    have hbyte : 8 * (n - 1 - k) = 8 * (n - (k + 1)) := by omega
    simp only [List.map_cons, List.map_nil, List.foldl_cons, List.foldl_nil, hpos, hbyte]
    ext i hi
    simp only [BitVec.getElem_or, BitVec.getElem_shiftLeft, BitVec.getElem_ushiftRight,
      BitVec.getElem_setWidth, BitVec.getLsbD_extractLsb']
    grind

/-! ## Fields -/

section Fields

variable {b l rest : List U8} {o k : ℕ}

/-- What is after a field. -/
theorem drop_field (h : b.drop o = l ++ rest) (hl : l.length = k) : b.drop (o + k) = rest := by
  rw [← List.drop_drop, h, ← hl, List.drop_left]

theorem getD_field (h : b.drop o = l) (i : ℕ) : b.getD (o + i) 0 = l.getD i 0 := by
  rw [← h, List.getD, List.getD, List.getElem?_drop]

theorem u16At_field {w : U16} (h : b.drop o = u16Bytes w ++ rest) : u16At b o = w := by
  have hfirst := getD_field h 0
  have hsecond := getD_field h 1
  rw [Nat.add_zero] at hfirst
  rw [u16At, hfirst, hsecond]
  exact u16Bytes_append w

/-- An address is read back from its bytes. -/
theorem addrAt_field {a : Addr} (h : b.drop o = a.bytes ++ rest) : addrAt b o = a := by
  rw [addrAt, h, List.take_left' a.length_bytes]
  exact foldl_bytes a (by decide) (le_refl 16)

theorem lladdrAt_field {ll : LlAddr} (h : b.drop o = ll.bytes ++ rest) : lladdrAt b o = ll := by
  rw [lladdrAt, h, List.take_left' ll.length_bytes]
  exact foldl_bytes ll (by decide) (le_refl 6)

end Fields

/-! ## Headers -/

/-- `struct ether_header`. -/
structure EtherHeader where
  dhost : LlAddr := 0
  shost : LlAddr := 0
  type : U16 := 0

/-- `struct ip6_hdr`. -/
structure Ip6Hdr where
  flow : U32 := 0
  plen : U16 := 0
  nxt : U8 := 0
  hops : U8 := 0
  src : Addr := 0
  dst : Addr := 0

/-- `ndL_ip6_msg_t`, and the ICMPv6 message after it. -/
structure Ip6Msg where
  eh : EtherHeader := {}
  ip6h : Ip6Hdr := {}
  icmp : List U8

namespace Ip6Msg

/-- A message, as it is in memory. -/
def bytes (msg : Ip6Msg) : List U8 :=
  msg.eh.dhost.bytes ++ msg.eh.shost.bytes ++ u16Bytes msg.eh.type ++ u32Bytes msg.ip6h.flow ++
    u16Bytes msg.ip6h.plen ++ [msg.ip6h.nxt, msg.ip6h.hops] ++ msg.ip6h.src.bytes ++
    msg.ip6h.dst.bytes ++ msg.icmp

variable (msg : Ip6Msg)

theorem length_bytes : msg.bytes.length = ip6MsgSize + msg.icmp.length := by
  simp only [bytes, List.length_append, LlAddr.length_bytes, Addr.length_bytes]
  rfl

-- The rest of the message, from each of its fields on.
theorem drop_shost : msg.bytes.drop 6 = msg.eh.shost.bytes ++ (u16Bytes msg.eh.type ++
    (u32Bytes msg.ip6h.flow ++ (u16Bytes msg.ip6h.plen ++ ([msg.ip6h.nxt, msg.ip6h.hops] ++
      (msg.ip6h.src.bytes ++ (msg.ip6h.dst.bytes ++ msg.icmp)))))) := by
  simp only [bytes, List.append_assoc]
  exact List.drop_left' (LlAddr.length_bytes _)

theorem drop_type : msg.bytes.drop 12 = u16Bytes msg.eh.type ++ (u32Bytes msg.ip6h.flow ++
    (u16Bytes msg.ip6h.plen ++ ([msg.ip6h.nxt, msg.ip6h.hops] ++ (msg.ip6h.src.bytes ++
      (msg.ip6h.dst.bytes ++ msg.icmp))))) :=
  drop_field (k := 6) msg.drop_shost (LlAddr.length_bytes _)

theorem drop_plen : msg.bytes.drop 18 = u16Bytes msg.ip6h.plen ++ ([msg.ip6h.nxt, msg.ip6h.hops] ++
    (msg.ip6h.src.bytes ++ (msg.ip6h.dst.bytes ++ msg.icmp))) :=
  drop_field (k := 4) (drop_field (k := 2) msg.drop_type rfl) rfl

theorem drop_nxt : msg.bytes.drop 20 = [msg.ip6h.nxt, msg.ip6h.hops] ++ (msg.ip6h.src.bytes ++
    (msg.ip6h.dst.bytes ++ msg.icmp)) :=
  drop_field (k := 2) msg.drop_plen rfl

theorem drop_src : msg.bytes.drop 22 = msg.ip6h.src.bytes ++ (msg.ip6h.dst.bytes ++ msg.icmp) :=
  drop_field (k := 2) msg.drop_nxt rfl

theorem drop_dst : msg.bytes.drop 38 = msg.ip6h.dst.bytes ++ msg.icmp :=
  drop_field (k := 16) msg.drop_src (Addr.length_bytes _)

theorem drop_icmp : msg.bytes.drop ip6MsgSize = msg.icmp :=
  drop_field (k := 16) msg.drop_dst (Addr.length_bytes _)

theorem lladdrAt_shost : lladdrAt msg.bytes 6 = msg.eh.shost := lladdrAt_field msg.drop_shost

theorem u16At_type : u16At msg.bytes 12 = msg.eh.type := u16At_field msg.drop_type

theorem ip6Plen_bytes : ip6Plen msg.bytes = msg.ip6h.plen.toNat :=
  congrArg BitVec.toNat (u16At_field msg.drop_plen)

theorem getD_nxt : msg.bytes.getD 20 0 = msg.ip6h.nxt := getD_field msg.drop_nxt 0

theorem getD_hops : msg.bytes.getD 21 0 = msg.ip6h.hops := getD_field msg.drop_nxt 1

theorem addrAt_src : addrAt msg.bytes 22 = msg.ip6h.src := addrAt_field msg.drop_src

theorem addrAt_dst : addrAt msg.bytes 38 = msg.ip6h.dst := addrAt_field msg.drop_dst

end Ip6Msg

/-! ## Sending -/

/-- Writes the checksum of a message. -/
def stamp (icmp : List U8) (cksum : U16) : List U8 :=
  (icmp.set 2 (cksum.extractLsb' 8 8)).set 3 (cksum.extractLsb' 0 8)

/-- A message, as `ndL_send_icmp6` completes it. -/
def Ip6Msg.complete (msg : Ip6Msg) (f : Iface) (lladdr : LlAddr) : Ip6Msg :=
  let plen : U16 := .ofNat 16 msg.icmp.length
  let cksum := ndLCalculateIcmp6Checksum msg.ip6h.src msg.ip6h.dst (msg.icmp.take plen.toNat)
  { eh := { dhost := lladdr, shost := f.lladdr, type := 0x86dd }
    ip6h := { msg.ip6h with flow := 6 <<< 28, plen, nxt := ipprotoIcmpv6, hops := 255 }
    icmp := stamp msg.icmp cksum }

/-- The frame that `ndL_send_icmp6` gives to the kernel, if it gives one. -/
def ndLSendIcmp6Frame (f : Iface) (msg : Ip6Msg) (lladdr : LlAddr) : Option (List U8) :=
  if !f.up then none else some (msg.complete f lladdr).bytes

/-- `ND_NA_FLAG_ROUTER`, in the first of the four bytes of the flags. -/
def ndNaFlagRouter : U8 := 0x80

/-- `ND_NA_FLAG_SOLICITED`. -/
def ndNaFlagSolicited : U8 := 0x40

/-- `ND_NA_FLAG_OVERRIDE`. -/
def ndNaFlagOverride : U8 := 0x20

/-- `ND_OPT_SOURCE_LINKADDR`. -/
def ndOptSourceLinkaddr : U8 := 1

/-- `ND_OPT_TARGET_LINKADDR`. -/
def ndOptTargetLinkaddr : U8 := 2

/-- An advertisement, with its option. -/
def naMsg (flags : U8) (tgt : Addr) (tgtLl : LlAddr) : List U8 :=
  [ndNeighborAdvert, 0, 0, 0] ++ [flags, 0, 0, 0] ++ tgt.bytes ++
    [ndOptTargetLinkaddr, 1] ++ tgtLl.bytes

/-- The frame of `nd_iface_send_na`. -/
def ndIfaceSendNaFrame (f : Iface) (dst : Addr) (dstLl : LlAddr) (tgt : Addr)
    (tgtLl : Option LlAddr) (router : Bool) : Option (List U8) :=
  let tgtLl := tgtLl.getD f.lladdr
  let flags := ndNaFlagOverride
  let flags := if !ndAddrIsMulticast dst then flags ||| ndNaFlagSolicited else flags
  let flags := if router then flags ||| ndNaFlagRouter else flags
  let ip6h : Ip6Hdr := { src := tgt, dst }
  ndLSendIcmp6Frame f { ip6h, icmp := naMsg flags tgt tgtLl } dstLl

def ndLGetLocalAddr (f : Iface) : Addr :=
  let p := f.lladdr.u8
  ((0xfe : U8) ++ (0x80 : U8) ++ (0 : BitVec 48)) ++
    ((p 0 ^^^ 0x02) ++ (p 1 ++ p 2) ++ ((0xff : U8) ++ (0xfe : U8)) ++ (p 3 ++ p 4 ++ p 5))

/-- The destination of a solicitation: the last three bytes are those of the target. -/
def nsDst (tgt : Addr) : Addr :=
  ((0xff : U8) ++ (0x02 : U8) ++ (0 : BitVec 72) ++ (0x01 : U8) ++ (0xff : U8)) ++
    (tgt.u8 13 ++ tgt.u8 14 ++ tgt.u8 15)

/-- The group that the frame of a solicitation is sent to. -/
def nsDstLl (tgt : Addr) : LlAddr :=
  (0x33 : U8) ++ (0x33 : U8) ++ (0xff : U8) ++ tgt.u8 13 ++ tgt.u8 14 ++ tgt.u8 15

/-- A solicitation, with its option. -/
def nsMsg (tgt : Addr) (lladdr : LlAddr) : List U8 :=
  [ndNeighborSolicit, 0, 0, 0] ++ [0, 0, 0, 0] ++ tgt.bytes ++
    [ndOptSourceLinkaddr, 1] ++ lladdr.bytes

/-- The frame of `nd_iface_send_ns`. -/
def ndIfaceSendNsFrame (f : Iface) (tgt : Addr) : Option (List U8) :=
  let ip6h : Ip6Hdr := { src := ndLGetLocalAddr f, dst := nsDst tgt }
  ndLSendIcmp6Frame f { ip6h, icmp := nsMsg tgt f.lladdr } (nsDstLl tgt)

/-- The frame of an act, which is given to the kernel. -/
def Net.frame (n : Net) : Act → Option (List U8)
  | .ns _ iface tgt _ => iface.bind fun i => ndIfaceSendNsFrame (n.iface i) tgt
  | .na _ iface dst dstLl tgt tgtLl router _ =>
    iface.bind fun i => ndIfaceSendNaFrame (n.iface i) dst dstLl tgt (some tgtLl) router
  | _ => none

theorem isSome_ndLSendIcmp6Frame (f : Iface) (msg : Ip6Msg) (lladdr : LlAddr) :
    (ndLSendIcmp6Frame f msg lladdr).isSome = f.up := by
  rw [ndLSendIcmp6Frame]
  cases f.up <;> rfl

/-- What `nd_iface_send_ns` logs is sent iff there is a frame and the kernel takes it. -/
theorem ndIfaceSendNs_frame (e : Env) (who : SessionId) (i : IfaceId) (tgt : Addr) (w : World) :
    ∃ a, ndIfaceSendNs e who (some i) tgt w = w.emit e a ∧
      a = .ns who (some i) tgt
        ((w.net.frame a).isSome && e.kernel.sendmsg (w.net.iface i).index (.ns tgt)) := by
  refine ⟨_, rfl, congrArg (Act.ns who _ tgt) ?_⟩
  exact congrArg (· && _) (isSome_ndLSendIcmp6Frame ..).symm

/-- What `nd_iface_send_na` logs is sent iff there is a frame and the kernel takes it. -/
theorem ndIfaceSendNa_frame (e : Env) (who : SessionId) (i : IfaceId) (dst : Addr)
    (dstLl : LlAddr) (tgt : Addr) (tgtLl : Option LlAddr) (router : Bool) (w : World) :
    ∃ a, ndIfaceSendNa e who (some i) dst dstLl tgt tgtLl router w = w.emit e a ∧
      w.net.frame a = ndIfaceSendNaFrame (w.net.iface i) dst dstLl tgt tgtLl router ∧
      a = .na who (some i) dst dstLl tgt (tgtLl.getD (w.net.iface i).lladdr) router
        ((w.net.frame a).isSome &&
          e.kernel.sendmsg (w.net.iface i).index (.na dst dstLl tgt)) := by
  refine ⟨_, rfl, rfl, congrArg (Act.na who _ dst dstLl tgt _ router) ?_⟩
  exact congrArg (· && _) (isSome_ndLSendIcmp6Frame ..).symm

/-! ## Receiving what is sent -/

theorem length_stamp (icmp : List U8) (cksum : U16) : (stamp icmp cksum).length = icmp.length := by
  rw [stamp, List.length_set, List.length_set]

theorem u16At_stamp {icmp : List U8} (h : 4 ≤ icmp.length) (cksum : U16) :
    u16At (stamp icmp cksum) 2 = cksum := by
  match icmp, h with
  | a :: b :: c :: d :: rest, _ => exact u16Bytes_append cksum

/-- The checksum of a message does not depend on the one that is written in it. -/
theorem ndLCalculateIcmp6Checksum_stamp (src dst : Addr) {icmp : List U8} (h : 4 ≤ icmp.length)
    (cksum : U16) : ndLCalculateIcmp6Checksum src dst (stamp icmp cksum) =
      ndLCalculateIcmp6Checksum src dst icmp := by
  match icmp, h with
  | a :: b :: c :: d :: rest, _ => rfl

/-- A message whose headers are right is dispatched. -/
theorem verdict_bytes (msg : Ip6Msg) (htype : msg.eh.type = 0x86dd)
    (hnxt : msg.ip6h.nxt = ipprotoIcmpv6) (hhops : msg.ip6h.hops = 255)
    (hplen : msg.ip6h.plen.toNat = msg.icmp.length) (hmin : 8 ≤ msg.icmp.length)
    (hmax : ip6MsgSize + msg.icmp.length ≤ bufSize)
    (hsum : ndLCalculateIcmp6Checksum msg.ip6h.src msg.ip6h.dst msg.icmp = u16At msg.icmp 2) :
    verdict msg.bytes = dispatch msg.ip6h.src msg.ip6h.dst msg.icmp msg.eh.shost := by
  have hlength := msg.length_bytes
  have hmsg : icmp6At msg.bytes 0 = msg.icmp := by
    rw [icmp6At, Nat.add_zero, msg.drop_icmp, msg.ip6Plen_bytes, Nat.sub_zero, hplen,
      List.take_length]
  have hicmp : handleIcmp6 msg.bytes 0 =
      dispatch msg.ip6h.src msg.ip6h.dst msg.icmp msg.eh.shost := by
    simp only [handleIcmp6, hmsg, msg.addrAt_src, msg.addrAt_dst, msg.getD_hops,
      msg.lladdrAt_shost, msg.ip6Plen_bytes]
    rw [if_neg (by omega), if_neg (not_not.2 hsum), if_neg (not_not.2 hhops)]
  rw [verdict, List.take_of_length_le (hlength ▸ hmax), handleBuf, msg.u16At_type,
    msg.ip6Plen_bytes, if_neg (by omega), if_neg (not_not.2 htype), if_neg (by omega)]
  simp only [ndLHandleMsg, msg.getD_nxt, hnxt]
  rw [if_neg (by decide), if_neg (by decide), hicmp]

/-- A message that is sent is dispatched. -/
theorem verdict_sent {f : Iface} (hup : f.up = true) (msg : Ip6Msg) (lladdr : LlAddr)
    (hmin : 8 ≤ msg.icmp.length) (hmax : ip6MsgSize + msg.icmp.length ≤ bufSize) :
    ∃ frame cksum, ndLSendIcmp6Frame f msg lladdr = some frame ∧
      verdict frame = dispatch msg.ip6h.src msg.ip6h.dst (stamp msg.icmp cksum) f.lladdr := by
  let sent := msg.complete f lladdr
  have hbuf : ip6MsgSize + msg.icmp.length ≤ 2048 := hmax
  have hplen : (BitVec.ofNat 16 msg.icmp.length).toNat = msg.icmp.length := by
    rw [BitVec.toNat_ofNat]
    omega
  have hlength : sent.icmp.length = msg.icmp.length := length_stamp ..
  have hsum : ndLCalculateIcmp6Checksum sent.ip6h.src sent.ip6h.dst sent.icmp =
      u16At sent.icmp 2 := by
    simp only [sent, Ip6Msg.complete, hplen, List.take_length]
    rw [ndLCalculateIcmp6Checksum_stamp _ _ (by omega), u16At_stamp (by omega)]
  have hverdict : verdict sent.bytes =
      dispatch sent.ip6h.src sent.ip6h.dst sent.icmp sent.eh.shost :=
    verdict_bytes sent rfl rfl rfl (hplen.trans hlength.symm) (hlength ▸ hmin) (hlength ▸ hmax) hsum
  refine ⟨sent.bytes, _, ?_, hverdict⟩
  rw [ndLSendIcmp6Frame, hup]
  rfl

/-! ## Addresses -/

/-- The interface identifier of a link-layer address: `fffe` in the middle, and the
    universal/local bit inverted. -/
def eui64 (ll : LlAddr) : BitVec 64 :=
  (BitVec.extractLsb' 40 8 ll ^^^ 0x02) ++ BitVec.extractLsb' 24 16 ll ++ (0xfffe : BitVec 16) ++
    BitVec.extractLsb' 0 24 ll

/-- The address `fe80::` with an interface identifier. -/
def linkLocal (id : BitVec 64) : Addr := (0xfe80000000000000 : BitVec 64) ++ id

/-- The address `ff02::1:ff00:0`, with the last 24 bits of `a`. -/
def solicitedNode (a : Addr) : Addr :=
  (0xff0200000000000000000001ff : BitVec 104) ++ a.extractLsb' 0 24

theorem ndLGetLocalAddr_eq (f : Iface) : ndLGetLocalAddr f = linkLocal (eui64 f.lladdr) := by
  have hnet : (0xfe : U8) ++ (0x80 : U8) ++ (0 : BitVec 48) = (0xfe80000000000000 : BitVec 64) := by
    decide
  have hmiddle : (0xff : U8) ++ (0xfe : U8) = (0xfffe : BitVec 16) := by decide
  have htwo (ll : LlAddr) : ll.u8 1 ++ ll.u8 2 = BitVec.extractLsb' 24 16 ll := by
    ext i hi
    simp only [LlAddr.u8, BitVec.getElem_append, BitVec.getElem_extractLsb']
    grind
  have hthree (ll : LlAddr) : ll.u8 3 ++ ll.u8 4 ++ ll.u8 5 = BitVec.extractLsb' 0 24 ll := by
    ext i hi
    simp only [LlAddr.u8, BitVec.getElem_append, BitVec.getElem_extractLsb']
    grind
  simp only [ndLGetLocalAddr, hnet, hmiddle, htwo, hthree]
  rfl

theorem nsDst_eq (tgt : Addr) : nsDst tgt = solicitedNode tgt := by
  have hgroup : (0xff : U8) ++ (0x02 : U8) ++ (0 : BitVec 72) ++ (0x01 : U8) ++ (0xff : U8) =
      (0xff0200000000000000000001ff : BitVec 104) := by decide
  have hthree : tgt.u8 13 ++ tgt.u8 14 ++ tgt.u8 15 = tgt.extractLsb' 0 24 := by
    ext i hi
    simp only [Addr.u8, BitVec.getElem_append, BitVec.getElem_extractLsb']
    grind
  rw [nsDst, hgroup, hthree, solicitedNode]

/-- A link-local address is not `::`. -/
theorem linkLocal_ne_zero (id : BitVec 64) : linkLocal id ≠ 0 := by
  intro h
  have hhigh := congrArg (fun a : Addr => a.extractLsb' 64 64) h
  have hnet : (linkLocal id).extractLsb' 64 64 = 0xfe80000000000000 :=
    BitVec.extractLsb'_append_eq_left
  rw [hnet] at hhigh
  exact absurd hhigh (by decide)

/-! ## The messages that are sent -/

theorem length_nsMsg (tgt : Addr) (lladdr : LlAddr) : (nsMsg tgt lladdr).length = 32 := rfl

theorem length_naMsg (flags : U8) (tgt : Addr) (tgtLl : LlAddr) :
    (naMsg flags tgt tgtLl).length = 32 := rfl

theorem drop_stamp (icmp : List U8) (cksum : U16) : (stamp icmp cksum).drop 8 = icmp.drop 8 := by
  rw [stamp, List.drop_set_of_lt (by decide), List.drop_set_of_lt (by decide)]

/-- The message that is given to `ndL_handle_ns`. -/
theorem verdict_ndIfaceSendNsFrame {f : Iface} (hup : f.up = true) (tgt : Addr) :
    ∃ frame cksum, ndIfaceSendNsFrame f tgt = some frame ∧
      verdict frame = .ns (linkLocal (eui64 f.lladdr)) (solicitedNode tgt)
        (stamp (nsMsg tgt f.lladdr) cksum) f.lladdr := by
  have hmax : ip6MsgSize + 32 ≤ bufSize := by decide
  rw [← ndLGetLocalAddr_eq, ← nsDst_eq]
  obtain ⟨frame, cksum, hsent, hverdict⟩ := verdict_sent hup
    { ip6h := { src := ndLGetLocalAddr f, dst := nsDst tgt }, icmp := nsMsg tgt f.lladdr }
    (nsDstLl tgt) (by rw [length_nsMsg]; decide) hmax
  exact ⟨frame, cksum, hsent, hverdict⟩

/-- The message that is given to `ndL_handle_na`. -/
theorem verdict_ndIfaceSendNaFrame {f : Iface} (hup : f.up = true) (dst : Addr) (dstLl : LlAddr)
    (tgt : Addr) (tgtLl : Option LlAddr) (router : Bool) :
    ∃ frame flags cksum, ndIfaceSendNaFrame f dst dstLl tgt tgtLl router = some frame ∧
      verdict frame = .na (stamp (naMsg flags tgt (tgtLl.getD f.lladdr)) cksum) := by
  have hmax : ip6MsgSize + 32 ≤ bufSize := by decide
  simp only [ndIfaceSendNaFrame]
  generalize (if router = true then _ else _ : U8) = flags
  obtain ⟨frame, cksum, hsent, hverdict⟩ := verdict_sent hup
    { ip6h := { src := tgt, dst }, icmp := naMsg flags tgt (tgtLl.getD f.lladdr) } dstLl
    (by rw [length_naMsg]; decide) hmax
  exact ⟨frame, flags, cksum, hsent, hverdict⟩

/-- One option of eight bytes is read back. -/
theorem nsOptions_sourceLinkaddr (ll : LlAddr) :
    nsOptions 8 ([ndOptSourceLinkaddr, 1] ++ ll.bytes) none = some (some ll) := by
  have hread : lladdrAt ([ndOptSourceLinkaddr, 1] ++ ll.bytes) 2 = ll :=
    lladdrAt_field (List.append_nil _).symm
  have hlength : ([ndOptSourceLinkaddr, 1] ++ ll.bytes).length = 8 := by
    rw [List.length_append, ll.length_bytes]
    rfl
  have hlen : (([ndOptSourceLinkaddr, 1] ++ ll.bytes).getD 1 0).toNat = 1 := rfl
  have hdrop : ([ndOptSourceLinkaddr, 1] ++ ll.bytes).drop (1 * 8) = [] :=
    List.drop_of_length_le hlength.le
  have htype : ([ndOptSourceLinkaddr, 1] ++ ll.bytes).getD 0 0 = 1 := rfl
  simp only [nsOptions, hlength, hlen, hdrop, hread, htype]
  rfl

theorem parseNs_nsMsg (bo : ByteOrder) {src tgt : Addr} (hsrc : src ≠ 0) (htgt : ¬tgt.Multicast)
    (lladdr ethSrc : LlAddr) (cksum : U16) :
    parseNs bo src (stamp (nsMsg tgt lladdr) cksum) ethSrc = some (tgt, some lladdr) := by
  have htail : (stamp (nsMsg tgt lladdr) cksum).drop 8 =
      tgt.bytes ++ ([ndOptSourceLinkaddr, 1] ++ lladdr.bytes) := drop_stamp ..
  have hopts : (stamp (nsMsg tgt lladdr) cksum).drop ndHeaderSize =
      [ndOptSourceLinkaddr, 1] ++ lladdr.bytes := drop_field htail tgt.length_bytes
  have hlength : ([ndOptSourceLinkaddr, 1] ++ lladdr.bytes).length = 8 := rfl
  have hsize : ¬(stamp (nsMsg tgt lladdr) cksum).length < ndHeaderSize := by
    rw [length_stamp, length_nsMsg]
    decide
  have hmulti : ¬ndAddrIsMulticast tgt = true := fun h => htgt (beq_iff_eq.1 h)
  have hspec : ¬ndAddrIsUnspecified bo src = true := mt (ndAddrIsUnspecified_iff bo).1 hsrc
  simp only [parseNs, addrAt_field htail, hopts, hlength, nsOptions_sourceLinkaddr]
  rw [if_neg hsize, if_neg hmulti, if_neg hspec]
  rfl

theorem naTarget_naMsg (flags : U8) (tgt : Addr) (tgtLl : LlAddr) (cksum : U16) :
    naTarget (stamp (naMsg flags tgt tgtLl) cksum) = some tgt := by
  have htail : (stamp (naMsg flags tgt tgtLl) cksum).drop 8 =
      tgt.bytes ++ ([ndOptTargetLinkaddr, 1] ++ tgtLl.bytes) := drop_stamp ..
  have hsize : ¬(stamp (naMsg flags tgt tgtLl) cksum).length < ndHeaderSize := by
    rw [length_stamp, length_naMsg]
    decide
  rw [naTarget, if_neg hsize, addrAt_field htail]

/-- A frame that reaches a call does what the call does. -/
theorem ndLIoHandler_of_reached {e : Env} {index : ℕ} {frame : List U8} {m : Mem} {g : IfaceId}
    {call : Delivery} (hg : m.world.net.receiver index = some g)
    (h : reached e.conf.byteOrder m.world.net index frame = some call) :
    ndLIoHandler e index frame m = call.exec e g m := by
  rw [reached, hg, Option.bind_some] at h
  rw [ndLIoHandler, hg]
  change Verdict.exec e g m (verdict frame) = _
  rw [Verdict.exec_eq, h]
  rfl

/-- What an interface sends is what a daemon receives: a solicitation is given to the
    proxy of the interface `g` with the addresses of its sender, and an advertisement
    makes it look for the session of its target on `g`, whatever the destination, the
    target and the link-layer address of the target are. -/
theorem sent_received (e : Env) (m : Mem) {f : Iface} (hup : f.up = true) {index : ℕ}
    {g : IfaceId} (hg : m.world.net.receiver index = some g) :
    (∀ p tgt, (m.world.net.iface g).proxy = some p → ¬tgt.Multicast →
      ∃ frame call, ndIfaceSendNsFrame f tgt = some frame ∧
        call = .proxyHandleNs p (linkLocal (eui64 f.lladdr)) (solicitedNode tgt) tgt
          (some f.lladdr) ∧
        reached e.conf.byteOrder m.world.net index frame = some call ∧
        ndLIoHandler e index frame m = call.exec e g m) ∧
    ∀ dst dstLl tgt tgtLl router,
      ∃ frame call, ndIfaceSendNaFrame f dst dstLl tgt tgtLl router = some frame ∧
        call = .sessionFindR tgt g ∧
        reached e.conf.byteOrder m.world.net index frame = some call ∧
        ndLIoHandler e index frame m = call.exec e g m := by
  constructor
  · intro p tgt hp htgt
    obtain ⟨frame, cksum, hsent, hverdict⟩ := verdict_ndIfaceSendNsFrame hup tgt
    have hreached : reached e.conf.byteOrder m.world.net index frame =
        some (.proxyHandleNs p (linkLocal (eui64 f.lladdr)) (solicitedNode tgt) tgt
          (some f.lladdr)) := by
      rw [reached, hg, Option.bind_some, hverdict, Verdict.call, hp, Option.bind_some,
        parseNs_nsMsg _ (linkLocal_ne_zero _) htgt]
      rfl
    exact ⟨frame, _, hsent, rfl, hreached, ndLIoHandler_of_reached hg hreached⟩
  · intro dst dstLl tgt tgtLl router
    obtain ⟨frame, flags, cksum, hsent, hverdict⟩ :=
      verdict_ndIfaceSendNaFrame hup dst dstLl tgt tgtLl router
    have hreached : reached e.conf.byteOrder m.world.net index frame =
        some (.sessionFindR tgt g) := by
      rw [reached, hg, Option.bind_some, hverdict, Verdict.call, naTarget_naMsg]
      rfl
    exact ⟨frame, _, hsent, rfl, hreached, ndLIoHandler_of_reached hg hreached⟩

namespace Small

/-- An interface that is up. -/
def sender : Iface := { index := 7, up := true, lladdr := 0x020000000009 }

/-- A solicitation for `::2`, received on the first interface of the small network. -/
theorem sender_received :
    let d := daemon staticRule
    let e := d.env (event 5 .tick)
    ∃ frame, ndIfaceSendNsFrame sender 2 = some frame ∧
      reached e.conf.byteOrder net 1 frame = some (.proxyHandleNs 0
        0xfe80000000000000000000fffe000009 0xff0200000000000000000001ff000002 2
        (some 0x020000000009)) := by
  intro d e
  have hall := sent_received e d.mem (f := sender) rfl
    (show d.mem.world.net.receiver 1 = some 1 by decide +kernel)
  have htgt : (2 : Addr).u8 0 ≠ 0xff := by decide
  obtain ⟨frame, call, hsent, rfl, hreached, -⟩ := hall.1 0 2 (by decide +kernel) htgt
  exact ⟨frame, hsent, hreached⟩

end Small

end Ndppd
