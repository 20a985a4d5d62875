import Ndppd.Lib.Framing
import Ndppd.Records
import Ndppd.Rt.Addrs
import Ndppd.Rt.Mirror

/-!
# Netlink

The handler of the netlink socket (`ndL_io_handler` of `rt.c`, on Linux). A datagram is a
sequence of messages, each with a header (`struct nlmsghdr`) that holds its length; a message on
a route or an address is a structure of fixed size and a sequence of attributes, which hold
their lengths, too. The loops over both are those of the macros `NLMSG_OK`, `NLMSG_NEXT`,
`RTA_OK` and `RTA_NEXT`.

A handler reports what it reads of the buffer. Its result is the calls that the daemon makes.
The requests for the kernel are in the same format.
-/

namespace Ndppd

open Framing Report

/-! ## Numbers of the host -/

/-- The `n` bytes that a host stores for a number. -/
def hostBytes (bo : ByteOrder) (n x : ℕ) : List U8 :=
  let digits := (List.range n).map fun i => BitVec.ofNat 8 (x / 256 ^ i)
  match bo with
  | .big => digits.reverse
  | .little => digits

/-- `NLMSG_ALIGN` and `RTA_ALIGN`: the mask has 32 bits. -/
def nlmsgAlign (n : ℕ) : ℕ := (n + 3) &&& 0xfffffffc

/-- Messages: `sizeof(struct nlmsghdr)` is 16. -/
def nlmsg : Format where
  header := 16
  align := nlmsgAlign
  header_pos := by decide

/-- Attributes: `sizeof(struct rtattr)` is 4. -/
def rtattr : Format where
  header := 4
  align := nlmsgAlign
  header_pos := by decide

/-! ## Constants -/

def nlmsgError : ℕ := 2

def nlmsgDone : ℕ := 3

def rtmNewlink : ℕ := 16

def rtmDellink : ℕ := 17

def rtmNewaddr : ℕ := 20

def rtmDeladdr : ℕ := 21

def rtmNewroute : ℕ := 24

def rtmDelroute : ℕ := 25

/-- The types that the handler knows. -/
def nlmsgTypes : List ℕ :=
  [nlmsgError, nlmsgDone, rtmNewlink, rtmDellink, rtmNewaddr, rtmDeladdr, rtmNewroute, rtmDelroute]

def rtaDst : ℕ := 1

def rtaOif : ℕ := 4

def ifaAddress : ℕ := 1

/-! ## Reading -/

/-- A read of `n` bytes at `o`. -/
structure Load where
  o : ℕ
  n : ℕ
  deriving DecidableEq

/-- It ends before `limit`. -/
def Load.Within (limit : ℕ) (l : Load) : Prop := l.o + l.n ≤ limit

/-- A computation that reports what it reads. -/
abbrev Reading := Report Load OutOfRounds

/-- What `ndL_io_handler` calls. -/
inductive RtCall
  | newRoute (route : Route)
  | deleteRoute (route : Route)
  | newAddr (addr : RtAddr)
  | deleteAddr (addr : RtAddr)
  /-- `nd_iface_rebind_all`. -/
  | rebindAll
  /-- The end of a dump: `nd_rt_dump_timeout` is reset. -/
  | dumpDone
  /-- `nd_log_error`, with the error and the type of the request. -/
  | logError (error type : ℕ)
  deriving DecidableEq

section Handlers

variable (bo : ByteOrder) (buf : ℕ → U8) (rounds : ℕ)

def loadBytes (o n : ℕ) : Reading (List U8) := do
  emit ⟨o, n⟩
  return bytesAt buf o n

def loadNumber (o n : ℕ) : Reading ℕ := do
  let b ← loadBytes buf o n
  return hostNumber bo b

/-- `rta_len`. -/
def rtaLen (rta : ℕ) : Reading ℕ := loadNumber bo buf rta 2

/-- What the loop over the attributes of a route has found: where the destination is, and the
    interface. -/
structure RouteScan where
  dst : Option ℕ := none
  oif : ℕ := 0

/-- The body of the loop. It does not look at the length of the attribute. -/
def scanRouteAttr (s : RouteScan) (rta _len : ℕ) : Reading (RouteScan × Bool) := do
  let type ← loadNumber bo buf (rta + 2) 2
  if type = rtaOif then do
    let oif ← loadNumber bo buf (rta + 4) 4
    return ({ s with oif }, false)
  else if type = rtaDst then return ({ s with dst := some (rta + 4) }, false)
  else return (s, false)

/-- `rtm_protocol == RTPROT_NDPPD`. -/
def readOwned (msg : ℕ) : Reading Bool := do
  let protocol ← loadNumber bo buf (msg + 5) 1
  return protocol == 72

/-- What `ndL_handle_newroute` and `ndL_handle_delroute` have in common: the route of the message
    at `msg`, with `rtl` bytes of attributes. The second one does not look at the protocol. -/
def readRoute (owned : Reading Bool) (msg : ℕ) (rtl : ℤ) : Reading (Option Route) := do
  let s ← walk rtattr .mk (rtaLen bo buf) (scanRouteAttr bo buf) rounds (msg + 12) rtl {}
  match s.dst with
  | none => return none
  | some dst =>
    if s.oif = 0 then return none
    else do
      let table ← loadNumber bo buf (msg + 4) 1
      let pflen ← loadNumber bo buf (msg + 1) 1
      let addr ← loadBytes buf dst 16
      let owned ← owned
      return some { table, pflen, oif := s.oif, dst := addrAt addr 0, owned }

/-- The body of the loop over the attributes of an address: where the address is. -/
def scanIfaAttr (s : Option ℕ) (rta _len : ℕ) : Reading (Option ℕ × Bool) := do
  let type ← loadNumber bo buf (rta + 2) 2
  if type = ifaAddress then return (some (rta + 4), false) else return (s, false)

/-- What `ndL_handle_newaddr` and `ndL_handle_deladdr` have in common. -/
def readIfaddr (msg : ℕ) (length : ℤ) : Reading (Option RtAddr) := do
  let s ← walk rtattr .mk (rtaLen bo buf) (scanIfaAttr bo buf) rounds (msg + 8) length none
  match s with
  | none => return none
  | some ptr => do
    let iif ← loadNumber bo buf (msg + 4) 4
    let pflen ← loadNumber bo buf (msg + 1) 1
    let addr ← loadBytes buf ptr 16
    return some { iif, pflen, addr := addrAt addr 0 }

/-- `NLMSG_PAYLOAD`, for a structure of `size` bytes, as a number of the type `int`. -/
def nlmsgPayload (len size : ℕ) : ℤ := len - (16 + size : ℕ)

/-- A message of the type `type`, for the loop over the messages of a datagram: the calls so far,
    and whether it is left. -/
def handleType (calls : List RtCall) (hdr len type : ℕ) : Reading (List RtCall × Bool) :=
  if type = nlmsgDone then return (calls ++ [.dumpDone], true)
  else if type = nlmsgError then do
    let error ← loadNumber bo buf (hdr + 16) 4
    let request ← loadNumber bo buf (hdr + 24) 2
    return (calls ++ [.logError error request], false)
  else if type = rtmNewroute then do
    let route ← readRoute bo buf rounds (readOwned bo buf (hdr + 16)) (hdr + 16)
      (nlmsgPayload len 12)
    return (calls ++ (route.map .newRoute).toList, false)
  else if type = rtmDelroute then do
    let route ← readRoute bo buf rounds (pure false) (hdr + 16) (nlmsgPayload len 12)
    return (calls ++ (route.map .deleteRoute).toList, false)
  else if type = rtmNewaddr then do
    let addr ← readIfaddr bo buf rounds (hdr + 16) (nlmsgPayload len 8)
    return (calls ++ (addr.map .newAddr).toList, false)
  else if type = rtmDeladdr then do
    let addr ← readIfaddr bo buf rounds (hdr + 16) (nlmsgPayload len 8)
    return (calls ++ (addr.map .deleteAddr).toList, false)
  else if type = rtmNewlink ∨ type = rtmDellink then return (calls ++ [.rebindAll], false)
  else return (calls, false)

/-- The body of the loop over the messages. -/
def handleMessage (calls : List RtCall) (hdr len : ℕ) : Reading (List RtCall × Bool) := do
  let type ← loadNumber bo buf (hdr + 4) 2
  handleType bo buf rounds calls hdr len type

/-- `nlmsg_len`. -/
def nlmsgLen (hdr : ℕ) : Reading ℕ := loadNumber bo buf hdr 4

/-- `ndL_io_handler`, for a datagram of `len` bytes. -/
def ndLIoHandlerNl (len : ℕ) : Reading (List RtCall) :=
  walk nlmsg .mk (nlmsgLen bo buf) (handleMessage bo buf rounds) rounds 0 len []

end Handlers

/-! ## The format -/

/-- An attribute. -/
structure NlAttr where
  type : U16
  data : List U8
  length_lt : 4 + data.length < 2 ^ 16

/-- `struct rtmsg`. -/
structure Rtmsg where
  family : U8
  dstLen : U8
  srcLen : U8 := 0
  tos : U8 := 0
  table : U8
  protocol : U8
  scope : U8 := 0
  type : U8 := 0
  flags : U32 := 0

/-- `struct ifaddrmsg`. -/
structure Ifaddrmsg where
  family : U8
  prefixlen : U8
  flags : U8 := 0
  scope : U8 := 0
  index : U32

/-- What a message is on. The attributes that the handlers read have the size of what they
    hold. -/
inductive Notice (bo : ByteOrder)
  | done (payload : List U8)
  /-- `struct nlmsgerr`: the error, the request, and what follows. -/
  | error (errno : U32) (length : U32) (type : U16) (rest : List U8) (h : 10 ≤ rest.length)
  | route (new : Bool) (msg : Rtmsg) (attrs : List NlAttr)
      (hoif : ∀ a ∈ attrs, a.type = 4 → a.data.length = 4)
      (hdst : ∀ a ∈ attrs, a.type = 1 → a.data.length = 16)
  | addr (new : Bool) (msg : Ifaddrmsg) (attrs : List NlAttr)
      (haddr : ∀ a ∈ attrs, a.type = 1 → a.data.length = 16)
  | link (new : Bool) (payload : List U8)
  | other (type : U16) (payload : List U8) (htype : type.toNat ∉ nlmsgTypes)

/-- A message of the kernel. -/
structure NlMessage (bo : ByteOrder) where
  flags : U16
  seq : U32
  pid : U32
  notice : Notice bo

section Wire

variable (bo : ByteOrder)

def NlAttr.bytes (a : NlAttr) : List U8 :=
  hostBytes bo 2 (4 + a.data.length) ++ (hostBytes bo 2 a.type.toNat ++ a.data)

def attrBytes (attrs : List NlAttr) : List U8 := pack rtattr 0 (attrs.map (NlAttr.bytes bo))

def Rtmsg.bytes (m : Rtmsg) : List U8 :=
  [m.family, m.dstLen, m.srcLen, m.tos, m.table, m.protocol, m.scope, m.type] ++
    hostBytes bo 4 m.flags.toNat

def Ifaddrmsg.bytes (m : Ifaddrmsg) : List U8 :=
  [m.family, m.prefixlen, m.flags, m.scope] ++ hostBytes bo 4 m.index.toNat

variable {bo}

def Notice.type : Notice bo → ℕ
  | .done _ => nlmsgDone
  | .error .. => nlmsgError
  | .route new .. => if new then rtmNewroute else rtmDelroute
  | .addr new .. => if new then rtmNewaddr else rtmDeladdr
  | .link new _ => if new then rtmNewlink else rtmDellink
  | .other type _ _ => type.toNat

def Notice.payload : Notice bo → List U8
  | .done payload => payload
  | .error errno length type rest _ => hostBytes bo 4 errno.toNat ++ (hostBytes bo 4 length.toNat ++
      (hostBytes bo 2 type.toNat ++ rest))
  | .route _ msg attrs _ _ => msg.bytes bo ++ attrBytes bo attrs
  | .addr _ msg attrs _ => msg.bytes bo ++ attrBytes bo attrs
  | .link _ payload => payload
  | .other _ payload _ => payload

def NlMessage.bytes (m : NlMessage bo) : List U8 :=
  hostBytes bo 4 (16 + m.notice.payload.length) ++ (hostBytes bo 2 m.notice.type ++
    (hostBytes bo 2 m.flags.toNat ++ (hostBytes bo 4 m.seq.toNat ++ (hostBytes bo 4 m.pid.toNat ++
      m.notice.payload))))

/-- A datagram. -/
def datagram (ms : List (NlMessage bo)) : List U8 := pack nlmsg 0 (ms.map NlMessage.bytes)

/-- What an attribute of a route holds. -/
def NlAttr.rtAttr (bo : ByteOrder) (a : NlAttr) : RtAttr :=
  if a.type.toNat = rtaOif then .oif (hostNumber bo a.data)
  else if a.type.toNat = rtaDst then .dst (addrAt a.data 0)
  else .other

/-- What an attribute of an address holds. -/
def NlAttr.ifaAttr (a : NlAttr) : IfaAttr :=
  if a.type.toNat = ifaAddress then .address (addrAt a.data 0)
  else if a.type.toNat = 2 then .ownAddress (addrAt a.data 0)
  else .other

/-- A message on a route, without its format. -/
def Rtmsg.rtMsg (bo : ByteOrder) (m : Rtmsg) (attrs : List NlAttr) : RtMsg where
  table := m.table
  dstLen := m.dstLen
  protocol := m.protocol
  attrs := attrs.map (NlAttr.rtAttr bo)

/-- A message on an address, without its format. -/
def Ifaddrmsg.ifaMsg (m : Ifaddrmsg) (attrs : List NlAttr) : IfaMsg where
  index := m.index.toNat
  prefixlen := m.prefixlen
  attrs := attrs.map NlAttr.ifaAttr

/-- The call that a message leads to. -/
def Notice.call : Notice bo → Option RtCall
  | .done _ => some .dumpDone
  | .error errno _ type _ _ => some (.logError errno.toNat type.toNat)
  | .route true msg attrs _ _ =>
    ((msg.rtMsg bo attrs).route (msg.protocol == rtprotNdppd)).map .newRoute
  | .route false msg attrs _ _ => ((msg.rtMsg bo attrs).route false).map .deleteRoute
  | .addr true msg attrs _ => (msg.ifaMsg attrs).rtAddr.map .newAddr
  | .addr false msg attrs _ => (msg.ifaMsg attrs).rtAddr.map .deleteAddr
  | .link _ _ => some .rebindAll
  | .other _ _ _ => none

/-- It ends a dump. -/
def Notice.isDone : Notice bo → Bool
  | .done _ => true
  | _ => false

/-- The calls that a datagram leads to: those of its messages, up to the end of a dump. -/
def datagramCalls (ms : List (NlMessage bo)) : List RtCall :=
  scan (fun calls m => (calls ++ m.notice.call.toList, m.notice.isDone)) ms []

end Wire

/-! ## Requests -/

/-- `AF_INET6`. -/
def afInet6 : U8 := 10

/-- The request of `nd_rt_add_route`, field by field. -/
def addRouteReq (bo : ByteOrder) (dst : Addr) (pflen oif table : ℕ) : List U8 :=
  -- `NLM_F_REQUEST | NLM_F_CREATE`
  hostBytes bo 4 56 ++ hostBytes bo 2 rtmNewroute ++ hostBytes bo 2 0x401 ++ hostBytes bo 4 0 ++
    hostBytes bo 4 0 ++
    [afInet6, .ofNat 8 pflen, 0, 0, .ofNat 8 table, rtprotNdppd, 0, 0] ++ hostBytes bo 4 0 ++
    hostBytes bo 2 8 ++ hostBytes bo 2 rtaOif ++ hostBytes bo 4 oif ++
    hostBytes bo 2 20 ++ hostBytes bo 2 rtaDst ++ dst.bytes

end Ndppd
