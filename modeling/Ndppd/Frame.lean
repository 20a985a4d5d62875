import Ndppd.Daemon
import Ndppd.Lib.OnesComplement

/-!
# Frames

What the daemon does with a frame (`ndL_io_handler`, the Linux side, and
`ndL_handle_msg`): the checks on the headers and on the checksum, and the handler
that gets the ICMPv6 message. `ndLIoHandler_eq_stepMem` says that a frame is a
solicitation or an advertisement of the transition system `Daemon`, or nothing.

The frame is the sequence of its bytes: an Ethernet header, an IPv6 header, maybe
a hop-by-hop header, and the message.
-/

namespace Ndppd

abbrev U16 := BitVec 16

/-- The two bytes at the offset `o`, as a number (`ntohs`). -/
def u16At (b : List U8) (o : ℕ) : U16 := b.getD o 0 ++ b.getD (o + 1) 0

/-- The bytes of an address. -/
def Addr.bytes (a : Addr) : List U8 := (List.range 16).map a.u8

/-- The bytes of a word (`htonl`). -/
def u32Bytes (w : U32) : List U8 :=
  [w.extractLsb' 24 8, w.extractLsb' 16 8, w.extractLsb' 8 8, w.extractLsb' 0 8]

/-! ## Checksums -/

/-- The end of a round of the loop of `ndL_calculate_checksum`. -/
def foldSum (sum : U32) : U32 := if sum > 0xffff then sum - 0xffff else sum

def ndLCalculateChecksum (sum : U32) : List U8 → U16
  | [] => sum.setWidth 16
  | [x] => (foldSum (sum + x.setWidth 32)).setWidth 16
  | x :: y :: data => ndLCalculateChecksum (foldSum (sum + (x ++ y).setWidth 32)) data

/-- The header of an ICMPv6 message (`struct icmp6_hdr`), without its checksum. -/
def icmp6Hdr (icmp : List U8) : List U8 := icmp.take 2 ++ [0, 0] ++ (icmp.drop 4).take 4

/-- `IPPROTO_ICMPV6`. -/
def ipprotoIcmpv6 : U8 := 58

/-- The pseudo-header of an ICMPv6 message of `size` bytes. -/
def pseudoHeader (src dst : Addr) (size : ℕ) : List U8 :=
  src.bytes ++ dst.bytes ++ u32Bytes (.ofNat 32 size) ++ [0, 0, 0] ++ [ipprotoIcmpv6]

/-- `ndL_calculate_icmp6_checksum`, in the byte order of the host. -/
def ndLCalculateIcmp6Checksum (src dst : Addr) (icmp : List U8) : U16 :=
  let sum := ndLCalculateChecksum 0xffff (pseudoHeader src dst icmp.length ++ icmp6Hdr icmp)
  ~~~ndLCalculateChecksum (sum.setWidth 32) (icmp.drop 8)

/-! ## Headers -/

/-- Why a frame is dropped. -/
inductive Drop
  | tooShort
  | etherType
  | payloadLength
  | truncatedHopByHop
  | hopByHopNext
  | nextHeader
  | truncatedIcmp6
  | checksum
  | hopLimit
  | icmp6Type
  deriving DecidableEq, Repr

/-- The handler that gets a frame, and what it gets. -/
inductive Verdict
  | drop (why : Drop)
  | ns (src dst : Addr) (icmp : List U8) (ethSrc : LlAddr)
  | na (icmp : List U8)
  | mlq
  | mlr
  deriving DecidableEq

/-- `sizeof(ndL_ip6_msg_t)`: an Ethernet header, and an IPv6 header. -/
def ip6MsgSize : ℕ := 54

/-- `ND_NEIGHBOR_SOLICIT`. -/
def ndNeighborSolicit : U8 := 135

/-- `ND_NEIGHBOR_ADVERT`. -/
def ndNeighborAdvert : U8 := 136

/-- `MLD_LISTENER_QUERY`. -/
def mldListenerQuery : U8 := 130

/-- `MLD_LISTENER_REPORT`. -/
def mldListenerReport : U8 := 131

/-- The payload length of the IPv6 header. -/
def ip6Plen (msg : List U8) : ℕ := (u16At msg 18).toNat

/-- The message after `i` bytes of the payload. -/
def icmp6At (msg : List U8) (i : ℕ) : List U8 :=
  (msg.drop (ip6MsgSize + i)).take (ip6Plen msg - i)

/-- The end of `ndL_handle_msg`: the handler for the type of a message. -/
def dispatch (src dst : Addr) (icmp : List U8) (ethSrc : LlAddr) : Verdict :=
  let type := icmp.getD 0 0
  if type = ndNeighborSolicit then .ns src dst icmp ethSrc
  else if type = ndNeighborAdvert then .na icmp
  else if type = mldListenerQuery then .mlq
  else if type = mldListenerReport then .mlr
  else .drop .icmp6Type

/-- The rest of `ndL_handle_msg`, for the message after `i` bytes of the payload. -/
def handleIcmp6 (msg : List U8) (i : ℕ) : Verdict :=
  if ip6Plen msg - i < 8 then .drop .truncatedIcmp6
  else
    let icmp := icmp6At msg i
    let src := addrAt msg 22
    let dst := addrAt msg 38
    if ndLCalculateIcmp6Checksum src dst icmp ≠ u16At icmp 2 then .drop .checksum
    else if msg.getD 21 0 ≠ 255 then .drop .hopLimit
    else dispatch src dst icmp (lladdrAt msg 6)

/-- `IPPROTO_HOPOPTS`. -/
def ipprotoHopopts : U8 := 0

def ndLHandleMsg (msg : List U8) : Verdict :=
  let nxt := msg.getD 20 0
  if nxt = ipprotoHopopts then
    let size := 8 + 8 * (msg.getD 55 0).toNat
    if ip6Plen msg < 8 ∨ ip6Plen msg < size then .drop .truncatedHopByHop
    else if msg.getD 54 0 ≠ ipprotoIcmpv6 then .drop .hopByHopNext
    else handleIcmp6 msg size
  else if nxt ≠ ipprotoIcmpv6 then .drop .nextHeader
  else handleIcmp6 msg 0

/-- The checks of `ndL_io_handler`, on what is in its buffer. -/
def handleBuf (buf : List U8) : Verdict :=
  if buf.length < ip6MsgSize then .drop .tooShort
  else if u16At buf 12 ≠ 0x86dd then .drop .etherType
  else if ip6Plen buf ≠ buf.length - ip6MsgSize then .drop .payloadLength
  else ndLHandleMsg buf

/-- The size of the buffer of `ndL_io_handler`. -/
def bufSize : ℕ := 2048

/-- What happens to a frame. The buffer gets its first bytes. -/
def verdict (frame : List U8) : Verdict := handleBuf (frame.take bufSize)

/-! ## What the checks say -/

/-- A handler gets the frame. -/
def Verdict.Dispatched : Verdict → Prop
  | .drop _ => False
  | _ => True

/-- The message of a frame is after `i` bytes of the payload, and it is not missing. -/
structure Located (buf : List U8) (i : ℕ) : Prop where
  size : ip6MsgSize ≤ buf.length
  etherType : u16At buf 12 = 0x86dd
  plen : ip6Plen buf = buf.length - ip6MsgSize
  next : buf.getD 20 0 = ipprotoIcmpv6 ∧ i = 0 ∨
    buf.getD 20 0 = ipprotoHopopts ∧ i = 8 + 8 * (buf.getD 55 0).toNat ∧
      buf.getD 54 0 = ipprotoIcmpv6
  room : i + 8 ≤ ip6Plen buf

/-- The size of the hop-by-hop header. -/
def hopByHopSize (frame : List U8) : ℕ :=
  if frame.getD 20 0 = ipprotoHopopts then 8 + 8 * (frame.getD 55 0).toNat else 0

/-- The offset of the message. -/
def icmp6Offset (frame : List U8) : ℕ := ip6MsgSize + hopByHopSize frame

theorem getD_take_bufSize {frame : List U8} {o : ℕ} (ho : o < bufSize) :
    (frame.take bufSize).getD o 0 = frame.getD o 0 := by
  simp [List.getD, ho]

theorem hopByHopSize_take {frame : List U8} :
    hopByHopSize (frame.take bufSize) = hopByHopSize frame := by
  have h20 : (20 : ℕ) < bufSize := by decide
  have h55 : (55 : ℕ) < bufSize := by decide
  rw [hopByHopSize, hopByHopSize, getD_take_bufSize h20, getD_take_bufSize h55]

namespace Located

variable {buf : List U8} {i : ℕ}

theorem lt_length (h : Located buf i) : ip6MsgSize + i < buf.length := by
  have hplen := h.plen
  have hroom := h.room
  omega

theorem hopByHopSize_eq (h : Located buf i) : hopByHopSize buf = i := by
  rw [hopByHopSize]
  rcases h.next with ⟨hnxt, hi⟩ | ⟨hnxt, hi, -⟩
  · rw [if_neg (by rw [hnxt]; decide), hi]
  · rw [if_pos hnxt, hi]

theorem icmp6At_eq (h : Located buf i) : icmp6At buf i = buf.drop (ip6MsgSize + i) := by
  rw [icmp6At]
  refine List.take_of_length_le ?_
  rw [List.length_drop, h.plen]
  omega

end Located

/-- Why a frame is dropped, or that it is not. -/
inductive FrameCase (buf : List U8) : Verdict → Prop
  | tooShort (hsize : buf.length < ip6MsgSize) : FrameCase buf (.drop .tooShort)
  | etherType (hsize : ip6MsgSize ≤ buf.length) (htype : u16At buf 12 ≠ 0x86dd) :
      FrameCase buf (.drop .etherType)
  | payloadLength : FrameCase buf (.drop .payloadLength)
  | truncatedHopByHop : FrameCase buf (.drop .truncatedHopByHop)
  | hopByHopNext (hplen : 8 ≤ ip6Plen buf) (hlen : ip6Plen buf = buf.length - ip6MsgSize)
      (hnxt : buf.getD 20 0 = ipprotoHopopts) (hnext : buf.getD 54 0 ≠ ipprotoIcmpv6) :
      FrameCase buf (.drop .hopByHopNext)
  | nextHeader (hsize : ip6MsgSize ≤ buf.length) (hhop : buf.getD 20 0 ≠ ipprotoHopopts)
      (hnxt : buf.getD 20 0 ≠ ipprotoIcmpv6) : FrameCase buf (.drop .nextHeader)
  | truncatedIcmp6 : FrameCase buf (.drop .truncatedIcmp6)
  | checksum : FrameCase buf (.drop .checksum)
  | hopLimit : FrameCase buf (.drop .hopLimit)
  | accepted (i : ℕ) (hi : Located buf i)
      (hsum : ndLCalculateIcmp6Checksum (addrAt buf 22) (addrAt buf 38) (icmp6At buf i) =
        u16At (icmp6At buf i) 2)
      (hhops : buf.getD 21 0 = 255) :
      FrameCase buf (dispatch (addrAt buf 22) (addrAt buf 38) (icmp6At buf i) (lladdrAt buf 6))

theorem frameCase_handleIcmp6 {buf : List U8} {i : ℕ}
    (h : i + 8 ≤ ip6Plen buf → Located buf i) (hi : i ≤ ip6Plen buf) :
    FrameCase buf (handleIcmp6 buf i) := by
  simp only [handleIcmp6]
  split_ifs with htrunc hsum hhops
  · exact .truncatedIcmp6
  · exact .checksum
  · exact .hopLimit
  · exact .accepted i (h (by omega)) (not_not.1 hsum) (not_not.1 hhops)

theorem frameCase (buf : List U8) : FrameCase buf (handleBuf buf) := by
  rw [handleBuf]
  split_ifs with hsize htype hplen
  · exact .tooShort hsize
  · exact .etherType (not_lt.1 hsize) htype
  · exact .payloadLength
  rw [not_not] at htype hplen
  rw [not_lt] at hsize
  simp only [ndLHandleMsg]
  split_ifs with hhop htrunc hnext hnxt
  · exact .truncatedHopByHop
  · exact .hopByHopNext (by omega) hplen hhop hnext
  · have hchain := not_not.1 hnext
    exact frameCase_handleIcmp6
      (fun hroom => ⟨hsize, htype, hplen, .inr ⟨hhop, rfl, hchain⟩, hroom⟩) (by omega)
  · exact .nextHeader hsize hhop hnxt
  · exact frameCase_handleIcmp6 (fun hroom => ⟨hsize, htype, hplen, .inl ⟨not_not.1 hnxt, rfl⟩,
      hroom⟩) (Nat.zero_le _)

/-! ## Handlers -/

/-- Calls the handler, for the interface `f`. -/
def Verdict.exec (e : Env) (f : IfaceId) (m : Mem) : Verdict → Mem
  | .drop _ => m
  | .ns src _ icmp ethSrc => ndLHandleNs e f src icmp ethSrc m
  | .na icmp => ndLHandleNa e f icmp m
  -- These only write to the log.
  | .mlq => m
  | .mlr => m

/-- `ndL_io_handler`, for a frame received on the interface `index`. -/
def ndLIoHandler (e : Env) (index : ℕ) (frame : List U8) (m : Mem) : Mem :=
  match m.world.net.receiver index with
  | none => m
  | some f => (verdict frame).exec e f m

/-- The event of the transition system, if it is one. -/
def Verdict.action (f : IfaceId) : Verdict → Option Action
  | .ns src _ icmp ethSrc => some (.rxNs f src icmp ethSrc)
  | .na icmp => some (.rxNa f icmp)
  | _ => none

/-- What a frame does is what an event does, or nothing. -/
theorem ndLIoHandler_eq_stepMem (e : Env) (index : ℕ) (frame : List U8) (m : Mem) :
    ndLIoHandler e index frame m =
      (((m.world.net.receiver index).bind fun f => (verdict frame).action f).elim m
        fun a => Daemon.stepMem e a m) := by
  rw [ndLIoHandler]
  cases m.world.net.receiver index with
  | none => rfl
  | some f => cases verdict frame <;> rfl

end Ndppd
