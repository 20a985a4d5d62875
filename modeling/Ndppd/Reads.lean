import Ndppd.Lib.Report
import Ndppd.Options

/-!
# Reads of a frame

The handlers of a frame once more, with all that they read (`ndL_io_handler`,
`ndL_handle_msg`, `ndL_calculate_icmp6_checksum`, `ndL_handle_ns`, `ndL_handle_na`).
The buffer is memory, of which the first bytes are those received: nothing keeps a
handler from reading further. Every byte that is read is an event, and so is every
subtraction of unsigned numbers, which wraps around below zero. (A field that is read
again, as an argument of a log line for instance, is there once.)

`ioHandler_yields` says that they do what the model of the frames says (`reached`),
that every byte they read was received, and that no subtraction wraps. It is total:
the loop over the options ends.
-/

namespace Ndppd

open Report

/-! ## Memory -/

/-- What a handler does: it reads a byte of the buffer, or of the header that
    `ndL_calculate_icmp6_checksum` builds, or it subtracts `b` from `a`. -/
inductive Access
  | frame (o : ℕ)
  | hdr (o : ℕ)
  | sub (a b : ℕ)
  deriving DecidableEq

/-- `sizeof(hdr)`. -/
def hdrSize : ℕ := 48

/-- The bytes were received, and the subtraction does not wrap. -/
def Access.Within (len : ℕ) : Access → Prop
  | .frame o => o < len
  | .hdr o => o < hdrSize
  | .sub a b => b ≤ a

/-- A loop that has no rounds left. -/
inductive OutOfRounds
  | mk

/-- A handler, with what it does. -/
abbrev Read := Report Access OutOfRounds

/-- The `n` bytes from `o` on. -/
def bytesAt (buf : ℕ → U8) (o : ℕ) : ℕ → List U8
  | 0 => []
  | n + 1 => buf o :: bytesAt buf (o + 1) n

section Memory

variable (buf : ℕ → U8) {len : ℕ}

theorem length_bytesAt (o n : ℕ) : (bytesAt buf o n).length = n := by
  induction n generalizing o with
  | zero => rfl
  | succ n ih => rw [bytesAt, List.length_cons, ih]

theorem getD_bytesAt {o n i : ℕ} (hi : i < n) : (bytesAt buf o n).getD i 0 = buf (o + i) := by
  induction n generalizing o i with
  | zero => omega
  | succ n ih =>
    cases i with
    | zero => rfl
    | succ i =>
      rw [bytesAt, List.getD_cons_succ, ih (by omega)]
      congr 1
      omega

theorem drop_bytesAt (o n k : ℕ) : (bytesAt buf o n).drop k = bytesAt buf (o + k) (n - k) := by
  induction k generalizing o n with
  | zero => rfl
  | succ k ih =>
    cases n with
    | zero => simp [bytesAt]
    | succ n =>
      rw [bytesAt, List.drop_succ_cons, ih, Nat.add_sub_add_right, Nat.add_right_comm,
        Nat.add_assoc]

theorem take_bytesAt {o n k : ℕ} (hk : k ≤ n) : (bytesAt buf o n).take k = bytesAt buf o k := by
  induction k generalizing o n with
  | zero => rfl
  | succ k ih =>
    obtain ⟨n, rfl⟩ : ∃ j, n = j + 1 := ⟨n - 1, by omega⟩
    rw [bytesAt, List.take_succ_cons, ih (by omega), bytesAt]

/-- A part of the bytes. -/
theorem take_drop_bytesAt {o n i k : ℕ} (h : i + k ≤ n) :
    ((bytesAt buf o n).drop i).take k = bytesAt buf (o + i) k := by
  rw [drop_bytesAt, take_bytesAt buf (by omega)]

/-! ## Reading -/

def byte (o : ℕ) : Read U8 := do
  emit (.frame o)
  return buf o

/-- Two bytes, as a number (`ntohs`). -/
def word (o : ℕ) : Read U16 := do
  let x ← byte buf o
  let y ← byte buf (o + 1)
  return x ++ y

/-- Some bytes, in a row. -/
def slice (o : ℕ) : ℕ → Read (List U8)
  | 0 => return []
  | n + 1 => do
    let x ← byte buf o
    let t ← slice (o + 1) n
    return x :: t

def frameAddr (o : ℕ) : Read Addr := do
  let b ← slice buf o 16
  return addrAt b 0

def frameLladdr (o : ℕ) : Read LlAddr := do
  let b ← slice buf o 6
  return lladdrAt b 0

/-- A subtraction of numbers of the type `size_t`. -/
def usub (a b : ℕ) : Read ℕ := do
  emit (.sub a b)
  return (a + 2 ^ 64 - b) % 2 ^ 64

theorem byte_yields {o : ℕ} (h : o < len) :
    Yields (Access.Within len) (byte buf o) (.ok (buf o)) := by
  have hin : Access.Within len (.frame o) := h
  exact (yields_emit hin).andThen (yields_pure _)

theorem word_yields {o : ℕ} (h : o + 2 ≤ len) :
    Yields (Access.Within len) (word buf o) (.ok (u16At (bytesAt buf 0 len) o)) := by
  have hread : u16At (bytesAt buf 0 len) o = buf o ++ buf (o + 1) := by
    rw [u16At, getD_bytesAt buf (by omega), getD_bytesAt buf (by omega), Nat.zero_add, Nat.zero_add]
  rw [hread]
  exact (byte_yields buf (by omega)).andThen ((byte_yields buf (by omega)).andThen (yields_pure _))

theorem slice_yields {o n : ℕ} (h : o + n ≤ len) :
    Yields (Access.Within len) (slice buf o n) (.ok (bytesAt buf o n)) := by
  induction n generalizing o with
  | zero => exact yields_pure _
  | succ n ih =>
    exact (byte_yields buf (by omega)).andThen ((ih (by omega)).andThen (yields_pure _))

theorem frameAddr_yields {o : ℕ} (h : o + 16 ≤ len) :
    Yields (Access.Within len) (frameAddr buf o) (.ok (addrAt (bytesAt buf 0 len) o)) := by
  have hread : addrAt (bytesAt buf 0 len) o = addrAt (bytesAt buf o 16) 0 := by
    rw [addrAt, addrAt, take_drop_bytesAt buf h, take_drop_bytesAt buf (le_refl 16), Nat.zero_add,
      Nat.add_zero]
  rw [hread]
  exact (slice_yields buf h).andThen (yields_pure _)

theorem frameLladdr_yields {o : ℕ} (h : o + 6 ≤ len) :
    Yields (Access.Within len) (frameLladdr buf o) (.ok (lladdrAt (bytesAt buf 0 len) o)) := by
  have hread : lladdrAt (bytesAt buf 0 len) o = lladdrAt (bytesAt buf o 6) 0 := by
    rw [lladdrAt, lladdrAt, take_drop_bytesAt buf h, take_drop_bytesAt buf (le_refl 6),
      Nat.zero_add, Nat.add_zero]
  rw [hread]
  exact (slice_yields buf h).andThen (yields_pure _)

end Memory

theorem usub_yields {len a b : ℕ} (hab : b ≤ a) (ha : a < 2 ^ 64) :
    Yields (Access.Within len) (usub a b) (.ok (a - b)) := by
  have hvalue : (a + 2 ^ 64 - b) % 2 ^ 64 = a - b := by omega
  have hin : Access.Within len (.sub a b) := hab
  rw [← hvalue]
  exact (yields_emit hin).andThen (yields_pure _)

/-! ## Checksums -/

/-- `ndL_calculate_checksum`, for `n` bytes from `p` on. -/
def checksum (read : ℕ → Read U8) (sum : U32) (p : ℕ) : ℕ → Read U16
  | 0 => return sum.setWidth 16
  | 1 => do
    let x ← read p
    return (foldSum (sum + x.setWidth 32)).setWidth 16
  | n + 2 => do
    let x ← read p
    let y ← read (p + 1)
    checksum read (foldSum (sum + (x ++ y).setWidth 32)) (p + 2) n

theorem checksum_yields {len : ℕ} {read : ℕ → Read U8} {mem : ℕ → U8} {p n : ℕ} (sum : U32)
    (hread : ∀ i < n, Yields (Access.Within len) (read (p + i)) (.ok (mem (p + i)))) :
    Yields (Access.Within len) (checksum read sum p n)
      (.ok (ndLCalculateChecksum sum (bytesAt mem p n))) := by
  fun_induction checksum read sum p n with
  | case1 sum p => exact yields_pure _
  | case2 sum p => exact (hread 0 (by omega)).andThen (yields_pure _)
  | case3 sum p n ih =>
    refine (hread 0 (by omega)).andThen ((hread 1 (by omega)).andThen (ih _ _ fun i hi => ?_))
    have hstep := hread (i + 2) (by omega)
    rwa [Nat.add_comm i, ← Nat.add_assoc] at hstep

/-- A byte of the header. -/
def hdrByte (hdr : List U8) (o : ℕ) : Read U8 := do
  emit (.hdr o)
  return hdr.getD o 0

theorem bytesAt_getD (b : List U8) : bytesAt (fun o => b.getD o 0) 0 b.length = b := by
  refine List.ext_getElem (length_bytesAt ..) fun i hi hi' => ?_
  have hget {l : List U8} (h : i < l.length) : l.getD i 0 = l[i] := by
    rw [List.getD, List.getElem?_eq_getElem h]
    rfl
  rw [← hget hi, ← hget hi', getD_bytesAt _ hi', Nat.zero_add]

/-- `ndL_calculate_icmp6_checksum`, for a message of `size` bytes at `ih`. -/
def icmp6Checksum (buf : ℕ → U8) (ih size : ℕ) : Read U16 := do
  let src ← frameAddr buf 22
  let dst ← frameAddr buf 38
  let icmp ← slice buf ih 8
  let hdr := pseudoHeader src dst size ++ icmp6Hdr icmp
  let sum ← checksum (hdrByte hdr) 0xffff 0 hdr.length
  let rest ← usub size 8
  let sum ← checksum (byte buf) (sum.setWidth 32) (ih + 8) rest
  return ~~~sum

theorem icmp6Checksum_yields (buf : ℕ → U8) {len ih size : ℕ} (hlen : ip6MsgSize ≤ len)
    (hsize : 8 ≤ size) (hroom : ih + size ≤ len) (hmax : size < 2 ^ 64) :
    Yields (Access.Within len) (icmp6Checksum buf ih size)
      (.ok (ndLCalculateIcmp6Checksum (addrAt (bytesAt buf 0 len) 22)
        (addrAt (bytesAt buf 0 len) 38) (bytesAt buf ih size))) := by
  have hmsg : 54 ≤ len := hlen
  let src := addrAt (bytesAt buf 0 len) 22
  let dst := addrAt (bytesAt buf 0 len) 38
  let hdr := pseudoHeader src dst size ++ icmp6Hdr (bytesAt buf ih 8)
  have hhdr : hdr.length = hdrSize := by
    rw [List.length_append, length_pseudoHeader, length_icmp6Hdr (by rw [length_bytesAt])]
    rfl
  -- Only the first eight bytes of the message are in the header.
  have hcopied : icmp6Hdr (bytesAt buf ih 8) = icmp6Hdr (bytesAt buf ih size) := by
    rw [icmp6Hdr, icmp6Hdr, take_bytesAt buf (by omega), take_bytesAt buf (by omega),
      take_drop_bytesAt buf (by omega), take_drop_bytesAt buf (by omega)]
  have hread (i : ℕ) (hi : i < hdr.length) : Yields (Access.Within len) (hdrByte hdr (0 + i))
      (.ok (hdr.getD (0 + i) 0)) := by
    have hin : Access.Within len (.hdr (0 + i)) := by
      change 0 + i < hdrSize
      omega
    exact (yields_emit hin).andThen (yields_pure _)
  have hfirst : Yields (Access.Within len) (checksum (hdrByte hdr) 0xffff 0 hdr.length)
      (.ok (ndLCalculateChecksum 0xffff (bytesAt (fun o => hdr.getD o 0) 0 hdr.length))) :=
    checksum_yields 0xffff hread
  rw [bytesAt_getD] at hfirst
  have hsecond (sum : U16) : Yields (Access.Within len)
      (checksum (byte buf) (sum.setWidth 32) (ih + 8) (size - 8))
      (.ok (ndLCalculateChecksum (sum.setWidth 32) ((bytesAt buf ih size).drop 8))) := by
    rw [drop_bytesAt]
    exact checksum_yields _ fun i hi => byte_yields buf (by omega)
  have hresult : ndLCalculateIcmp6Checksum src dst (bytesAt buf ih size) =
      ~~~ndLCalculateChecksum ((ndLCalculateChecksum 0xffff hdr).setWidth 32)
        ((bytesAt buf ih size).drop 8) := by
    simp only [ndLCalculateIcmp6Checksum, length_bytesAt, hdr, hcopied]
  rw [hresult]
  exact (frameAddr_yields buf (by omega)).andThen ((frameAddr_yields buf (by omega)).andThen
    ((slice_yields buf (by omega)).andThen (hfirst.andThen ((usub_yields hsize hmax).andThen
      ((hsecond _).andThen (yields_pure _))))))

/-! ## Options -/

/-- How the loop over the options ends: the message is discarded, or there is a pointer
    to the source link-layer address, which may be NULL. -/
inductive Walk
  | discard
  | done (srcLl : Option ℕ)

/-- The loop of `ndL_handle_ns`, in less than `n` rounds: `optsLen` bytes of options are
    left, from `opts` on. -/
def walkOptions (buf : ℕ → U8) : ℕ → ℕ → ℕ → Option ℕ → Read Walk
  | 0, _, _, _ => fail .mk
  | n + 1, opts, optsLen, srcLl =>
    if optsLen < 8 then return .done srcLl
    else do
      let len ← byte buf (opts + 1)
      if len.toNat = 0 then return .discard
      else if len.toNat * 8 > optsLen then return .done srcLl
      else do
        let type ← byte buf opts
        let left ← usub optsLen (len.toNat * 8)
        walkOptions buf n (opts + len.toNat * 8) left
          (if type = 1 ∧ len.toNat = 1 then some (opts + 2) else srcLl)

/-- A pointer to a link-layer address, of which all the bytes were received. -/
def ValidPtr (len : ℕ) (ptr : Option ℕ) : Prop := ∀ q ∈ ptr, q + 6 ≤ len

/-- What a pointer points to. -/
def deref (buf : ℕ → U8) (len : ℕ) (ptr : Option ℕ) : Option LlAddr :=
  ptr.map (lladdrAt (bytesAt buf 0 len))

theorem validPtr_none (len : ℕ) : ValidPtr len none := fun q hq =>
  absurd hq (Option.not_mem_none q)

/-- Without an option, the pointer is one to the source of the Ethernet header. -/
theorem ValidPtr.getD {len : ℕ} {ptr : Option ℕ} (h : ValidPtr len ptr) (hlen : 12 ≤ len) :
    ValidPtr len (some (ptr.getD 6)) := by
  intro q hq
  rw [← Option.some_inj.1 hq]
  cases ptr with
  | none => exact hlen
  | some q => exact h q rfl

theorem deref_getD (buf : ℕ → U8) (len : ℕ) (ptr : Option ℕ) : deref buf len (some (ptr.getD 6)) =
    some ((deref buf len ptr).getD (lladdrAt (bytesAt buf 0 len) 6)) := by
  cases ptr <;> rfl

/-- The end of the loop is that of the loop of the model, and the pointer is valid. -/
inductive WalkEnds (buf : ℕ → U8) (len : ℕ) : Walk → Option (Option LlAddr) → Prop
  | discard : WalkEnds buf len .discard none
  | done {srcLl : Option ℕ} (h : ValidPtr len srcLl) :
      WalkEnds buf len (.done srcLl) (some (deref buf len srcLl))

theorem walkOptions_yields (buf : ℕ → U8) {len n opts optsLen : ℕ} {srcLl : Option ℕ}
    (hn : optsLen < n) (hroom : opts + optsLen ≤ len) (hlen : len ≤ bufSize)
    (hptr : ValidPtr len srcLl) :
    ∃ w, Yields (Access.Within len) (walkOptions buf n opts optsLen srcLl) (.ok w) ∧
      WalkEnds buf len w (nsOptions n (bytesAt buf opts optsLen) (deref buf len srcLl)) := by
  have hmax : len < 2 ^ 64 := Nat.lt_of_le_of_lt hlen (by decide)
  induction n generalizing opts optsLen srcLl with
  | zero => omega
  | succ n ih =>
    simp only [walkOptions, nsOptions, length_bytesAt]
    by_cases hshort : optsLen < 8
    · rw [if_pos hshort, if_pos hshort]
      exact ⟨_, yields_pure _, .done hptr⟩
    have htype : (bytesAt buf opts optsLen).getD 0 0 = buf opts := getD_bytesAt buf (by omega)
    have hlength : (bytesAt buf opts optsLen).getD 1 0 = buf (opts + 1) :=
      getD_bytesAt buf (by omega)
    have hbyte : Yields (Access.Within len) (byte buf (opts + 1)) (.ok (buf (opts + 1))) :=
      byte_yields buf (by omega)
    rw [if_neg hshort, if_neg hshort, htype, hlength]
    by_cases hzero : (buf (opts + 1)).toNat = 0
    · rw [if_pos hzero]
      exact ⟨_, hbyte.andThen (by rw [if_pos hzero]; exact yields_pure _), .discard⟩
    rw [if_neg hzero]
    by_cases hlong : (buf (opts + 1)).toNat * 8 > optsLen
    · rw [if_pos hlong]
      exact ⟨_, hbyte.andThen (by rw [if_neg hzero, if_pos hlong]; exact yields_pure _), .done hptr⟩
    rw [if_neg hlong, drop_bytesAt]
    let next := if buf opts = 1 ∧ (buf (opts + 1)).toNat = 1 then some (opts + 2) else srcLl
    -- The address of an option that is complete was received.
    have hnext : ValidPtr len next := by
      intro q hq
      simp only [next] at hq
      split_ifs at hq with hsource
      · rw [← Option.some_inj.1 hq]
        omega
      · exact hptr q hq
    have hderef : (if buf opts = 1 ∧ (buf (opts + 1)).toNat = 1
        then some (lladdrAt (bytesAt buf opts optsLen) 2) else deref buf len srcLl) =
        deref buf len next := by
      simp only [next]
      split_ifs with hsource
      · rw [deref, Option.map_some, lladdrAt, lladdrAt, take_drop_bytesAt buf (by omega),
          take_drop_bytesAt buf (by omega), Nat.zero_add]
      · rfl
    obtain ⟨w, hw, hends⟩ := ih (show optsLen - (buf (opts + 1)).toNat * 8 < n by omega)
      (show opts + (buf (opts + 1)).toNat * 8 + (optsLen - (buf (opts + 1)).toNat * 8) ≤ len
        by omega) hnext
    refine ⟨w, hbyte.andThen ?_, hderef ▸ hends⟩
    rw [if_neg hzero, if_neg hlong]
    exact (byte_yields buf (by omega)).andThen ((usub_yields (by omega) (by omega)).andThen hw)

/-! ## Handlers -/

section Handlers

variable (rounds : ℕ) (bo : ByteOrder) (n : Net) (f : IfaceId) (buf : ℕ → U8)

/-- The call of `nd_proxy_handle_ns`, and what its arguments point to. -/
def callProxyHandleNs (p : ProxyId) (ih : ℕ) (srcLl : Option ℕ) : Read (Option Delivery) := do
  let src ← frameAddr buf 22
  let dst ← frameAddr buf 38
  let tgt ← frameAddr buf (ih + 8)
  match srcLl with
  | none => return some (.proxyHandleNs p src dst tgt none)
  | some q => do
    let ll ← frameLladdr buf q
    return some (.proxyHandleNs p src dst tgt (some ll))

/-- `ndL_handle_ns`, for a message of `len` bytes at `ih`. -/
def readNs (ih len : ℕ) : Read (Option Delivery) :=
  match (n.iface f).proxy with
  | none => return none
  | some p =>
    if len < ndHeaderSize then return none
    else do
      -- `nd_addr_is_multicast` only needs the first byte.
      let tgt ← frameAddr buf (ih + 8)
      if ndAddrIsMulticast tgt then return none
      else do
        let src ← frameAddr buf 22
        if ndAddrIsUnspecified bo src then callProxyHandleNs buf p ih none
        else do
          let optsLen ← usub len ndHeaderSize
          let w ← walkOptions buf rounds (ih + ndHeaderSize) optsLen none
          match w with
          | .discard => return none
          -- Without the option, the pointer is that of `msg->eh.ether_shost`.
          | .done srcLl => callProxyHandleNs buf p ih (some (srcLl.getD 6))

/-- `ndL_handle_na`. -/
def readNa (ih len : ℕ) : Read (Option Delivery) :=
  if len < ndHeaderSize then return none
  else do
    let tgt ← frameAddr buf (ih + 8)
    return some (.sessionFindR tgt f)

/-- The end of `ndL_handle_msg`: the handler for the type of a message. -/
def readDispatch (ih ilen : ℕ) : Read (Option Delivery) := do
  let type ← byte buf ih
  if type = ndNeighborSolicit then readNs rounds bo n f buf ih ilen
  else if type = ndNeighborAdvert then readNa f buf ih ilen
  else return none

/-- The rest of `ndL_handle_msg`, for the message after `i` bytes of the payload. -/
def readIcmp6 (plen i : ℕ) : Read (Option Delivery) := do
  let room ← usub plen i
  if room < 8 then return none
  else do
    let ih := ip6MsgSize + i
    let ilen ← usub plen i
    let ilen := ilen % 2 ^ 16
    let sum ← icmp6Checksum buf ih ilen
    let cksum ← word buf (ih + 2)
    if sum ≠ cksum then do
      -- Both are written to the log, for which the checksum is computed again.
      let _ ← word buf (ih + 2)
      let _ ← icmp6Checksum buf ih ilen
      return none
    else do
      let hops ← byte buf 21
      if hops ≠ 255 then return none
      else readDispatch rounds bo n f buf ih ilen

/-- `ndL_handle_msg`. -/
def readMsg : Read (Option Delivery) := do
  let plen ← word buf 18
  let plen := plen.toNat
  let nxt ← byte buf 20
  if nxt = ipprotoHopopts then do
    let room ← usub plen 0
    if room < 8 then return none
    else do
      let hbhLen ← byte buf 55
      if room < 8 + 8 * hbhLen.toNat then return none
      else do
        let hbhNxt ← byte buf 54
        if hbhNxt ≠ ipprotoIcmpv6 then return none
        else readIcmp6 rounds bo n f buf plen (8 + 8 * hbhLen.toNat)
  else if nxt ≠ ipprotoIcmpv6 then return none
  else readIcmp6 rounds bo n f buf plen 0

/-- `ndL_io_handler`, for `len` bytes received on the interface `index`. -/
def ioHandler (index len : ℕ) : Read (Option Delivery) :=
  if len = 0 then return none
  else
    match n.receiver index with
    | none => return none
    | some f =>
      if len < ip6MsgSize then return none
      else do
        let type ← word buf 12
        if type ≠ 0x86dd then return none
        else do
          let plen ← word buf 18
          let size ← usub len ip6MsgSize
          if plen.toNat ≠ size then return none
          else readMsg rounds bo n f buf

variable {rounds bo n f buf} {len ih ilen : ℕ}

/-- A part of the message is a part of the frame. -/
theorem addrAt_bytesAt {o : ℕ} (h : o + 16 ≤ ilen) (hroom : ih + ilen ≤ len) :
    addrAt (bytesAt buf ih ilen) o = addrAt (bytesAt buf 0 len) (ih + o) := by
  rw [addrAt, addrAt, take_drop_bytesAt buf h, take_drop_bytesAt buf (by omega), Nat.zero_add]

theorem u16At_bytesAt {o : ℕ} (h : o + 2 ≤ ilen) (hroom : ih + ilen ≤ len) :
    u16At (bytesAt buf ih ilen) o = u16At (bytesAt buf 0 len) (ih + o) := by
  rw [u16At, u16At, getD_bytesAt buf (by omega), getD_bytesAt buf (by omega),
    getD_bytesAt buf (by omega), getD_bytesAt buf (by omega), Nat.zero_add, Nat.zero_add,
    Nat.add_assoc]

theorem callProxyHandleNs_yields {p : ProxyId} {srcLl : Option ℕ} (hlen : ip6MsgSize ≤ len)
    (hroom : ih + ndHeaderSize ≤ len) (hptr : ValidPtr len srcLl) :
    Yields (Access.Within len) (callProxyHandleNs buf p ih srcLl)
      (.ok (some (.proxyHandleNs p (addrAt (bytesAt buf 0 len) 22) (addrAt (bytesAt buf 0 len) 38)
        (addrAt (bytesAt buf 0 len) (ih + 8)) (deref buf len srcLl)))) := by
  have hmsg : 54 ≤ len := hlen
  have htgt : ih + 24 ≤ len := hroom
  refine (frameAddr_yields buf (by omega)).andThen ((frameAddr_yields buf (by omega)).andThen
    ((frameAddr_yields buf (by omega)).andThen ?_))
  cases srcLl with
  | none => exact yields_pure _
  | some q => exact (frameLladdr_yields buf (hptr q rfl)).andThen (yields_pure _)

theorem readNs_yields (hlen : ip6MsgSize ≤ len) (hmax : len ≤ bufSize) (hroom : ih + ilen ≤ len)
    (hrounds : len < rounds) :
    Yields (Access.Within len) (readNs rounds bo n f buf ih ilen)
      (.ok (Verdict.call bo n f (.ns (addrAt (bytesAt buf 0 len) 22)
        (addrAt (bytesAt buf 0 len) 38) (bytesAt buf ih ilen)
        (lladdrAt (bytesAt buf 0 len) 6)))) := by
  have hmsg : 54 ≤ len := hlen
  have hsize : len < 2 ^ 64 := Nat.lt_of_le_of_lt hmax (by decide)
  rw [readNs, Verdict.call]
  cases (n.iface f).proxy with
  | none => exact yields_pure _
  | some p =>
    simp only [Option.bind_some, parseNs, length_bytesAt]
    by_cases hshort : ilen < ndHeaderSize
    · rw [if_pos hshort, if_pos hshort]
      exact yields_pure _
    have hmin : 24 ≤ ilen := not_lt.1 hshort
    rw [if_neg hshort, if_neg hshort, addrAt_bytesAt (by omega) hroom]
    refine (frameAddr_yields buf (by omega)).andThen ?_
    by_cases hmulti : ndAddrIsMulticast (addrAt (bytesAt buf 0 len) (ih + 8)) = true
    · rw [if_pos hmulti, if_pos hmulti]
      exact yields_pure _
    rw [if_neg hmulti, if_neg hmulti]
    refine (frameAddr_yields buf (by omega)).andThen ?_
    have hheader : ih + ndHeaderSize ≤ len := by
      rw [ndHeaderSize]
      omega
    by_cases hspec : ndAddrIsUnspecified bo (addrAt (bytesAt buf 0 len) 22) = true
    · rw [if_pos hspec, if_pos hspec]
      exact callProxyHandleNs_yields hlen hheader (validPtr_none len)
    rw [if_neg hspec, if_neg hspec, drop_bytesAt, length_bytesAt]
    refine (usub_yields hmin (by omega)).andThen ?_
    let area := bytesAt buf (ih + ndHeaderSize) (ilen - ndHeaderSize)
    have hlength : area.length = ilen - ndHeaderSize := length_bytesAt ..
    obtain ⟨w, hw, hends⟩ := walkOptions_yields buf
      (show ilen - ndHeaderSize < rounds by omega)
      (show ih + ndHeaderSize + (ilen - ndHeaderSize) ≤ len by rw [ndHeaderSize]; omega) hmax
      (validPtr_none len)
    -- The rounds are more than the model needs.
    rw [deref, Option.map_none, nsOptions_of_le (show area.length ≤ rounds by omega),
      hlength] at hends
    generalize nsOptions _ area none = r at hends ⊢
    refine hw.andThen ?_
    cases hends with
    | discard => exact yields_pure _
    | @done srcLl hptr =>
      rw [Option.map_some, Option.map_some, ← deref_getD]
      exact callProxyHandleNs_yields hlen hheader (hptr.getD (by omega))

theorem readNa_yields (hroom : ih + ilen ≤ len) :
    Yields (Access.Within len) (readNa f buf ih ilen)
      (.ok (Verdict.call bo n f (.na (bytesAt buf ih ilen)))) := by
  rw [readNa, Verdict.call, naTarget, length_bytesAt]
  by_cases hshort : ilen < ndHeaderSize
  · rw [if_pos hshort, if_pos hshort]
    exact yields_pure _
  have hmin : 24 ≤ ilen := not_lt.1 hshort
  rw [if_neg hshort, if_neg hshort, addrAt_bytesAt (by omega) hroom]
  exact (frameAddr_yields buf (by omega)).andThen (yields_pure _)

theorem readDispatch_yields (hlen : ip6MsgSize ≤ len) (hmax : len ≤ bufSize)
    (hroom : ih + ilen ≤ len) (hsize : 0 < ilen) (hrounds : len < rounds) :
    Yields (Access.Within len) (readDispatch rounds bo n f buf ih ilen)
      (.ok ((dispatch (addrAt (bytesAt buf 0 len) 22) (addrAt (bytesAt buf 0 len) 38)
        (bytesAt buf ih ilen) (lladdrAt (bytesAt buf 0 len) 6)).call bo n f)) := by
  have htype : (bytesAt buf ih ilen).getD 0 0 = buf ih := getD_bytesAt buf hsize
  simp only [readDispatch, dispatch, htype]
  refine (byte_yields buf (by omega)).andThen ?_
  by_cases hns : buf ih = ndNeighborSolicit
  · rw [if_pos hns, if_pos hns]
    exact readNs_yields hlen hmax hroom hrounds
  rw [if_neg hns, if_neg hns]
  by_cases hna : buf ih = ndNeighborAdvert
  · rw [if_pos hna, if_pos hna]
    exact readNa_yields hroom
  · rw [if_neg hna, if_neg hna]
    -- The two other types only write to the log.
    split_ifs <;> exact yields_pure _

theorem readIcmp6_yields {plen i : ℕ} (hplen : plen = ip6Plen (bytesAt buf 0 len))
    (hsize : len = ip6MsgSize + plen) (hmax : len ≤ bufSize) (hi : i ≤ plen)
    (hrounds : len < rounds) :
    Yields (Access.Within len) (readIcmp6 rounds bo n f buf plen i)
      (.ok ((handleIcmp6 (bytesAt buf 0 len) i).call bo n f)) := by
  have hlen : len ≤ 2048 := hmax
  have hmsg : len = 54 + plen := hsize
  have hsub : Yields (Access.Within len) (usub plen i) (.ok (plen - i)) :=
    usub_yields hi (by omega)
  rw [readIcmp6, handleIcmp6, ← hplen]
  refine hsub.andThen ?_
  by_cases hshort : plen - i < 8
  · rw [if_pos hshort, if_pos hshort]
    exact yields_pure _
  rw [if_neg hshort, if_neg hshort]
  refine hsub.andThen ?_
  have hilen : (plen - i) % 2 ^ 16 = plen - i := Nat.mod_eq_of_lt (by omega)
  have hicmp : icmp6At (bytesAt buf 0 len) i = bytesAt buf (ip6MsgSize + i) (plen - i) := by
    rw [icmp6At, ← hplen, take_drop_bytesAt buf (by rw [ip6MsgSize]; omega), Nat.zero_add]
  have hroom : ip6MsgSize + i + (plen - i) ≤ len := by
    rw [ip6MsgSize]
    omega
  have hsum : Yields (Access.Within len) (icmp6Checksum buf (ip6MsgSize + i) (plen - i))
      (.ok (ndLCalculateIcmp6Checksum (addrAt (bytesAt buf 0 len) 22)
        (addrAt (bytesAt buf 0 len) 38) (bytesAt buf (ip6MsgSize + i) (plen - i)))) :=
    icmp6Checksum_yields buf (by omega) (by omega) hroom (by omega)
  have hword : Yields (Access.Within len) (word buf (ip6MsgSize + i + 2))
      (.ok (u16At (bytesAt buf 0 len) (ip6MsgSize + i + 2))) := word_yields buf (by omega)
  have hhops : (bytesAt buf 0 len).getD 21 0 = buf 21 := by
    rw [getD_bytesAt buf (by omega), Nat.zero_add]
  simp only [hilen, hicmp, hhops, u16At_bytesAt (show 2 + 2 ≤ plen - i by omega) hroom]
  refine hsum.andThen (hword.andThen ?_)
  by_cases hbad : ndLCalculateIcmp6Checksum (addrAt (bytesAt buf 0 len) 22)
      (addrAt (bytesAt buf 0 len) 38) (bytesAt buf (ip6MsgSize + i) (plen - i)) ≠
        u16At (bytesAt buf 0 len) (ip6MsgSize + i + 2)
  · rw [if_pos hbad, if_pos hbad]
    exact hword.andThen (hsum.andThen (yields_pure _))
  rw [if_neg hbad, if_neg hbad]
  refine (byte_yields buf (by omega)).andThen ?_
  by_cases hlimit : buf 21 ≠ 255
  · rw [if_pos hlimit, if_pos hlimit]
    exact yields_pure _
  · rw [if_neg hlimit, if_neg hlimit]
    exact readDispatch_yields (by omega) hmax hroom (by omega) hrounds

theorem readMsg_yields (hplen : ip6Plen (bytesAt buf 0 len) = len - ip6MsgSize)
    (hlen : ip6MsgSize ≤ len) (hmax : len ≤ bufSize) (hrounds : len < rounds) :
    Yields (Access.Within len) (readMsg rounds bo n f buf)
      (.ok ((ndLHandleMsg (bytesAt buf 0 len)).call bo n f)) := by
  have hmsg : 54 ≤ len := hlen
  have hbuf : len ≤ 2048 := hmax
  have hicmp {i : ℕ} (hi : i ≤ ip6Plen (bytesAt buf 0 len)) :
      Yields (Access.Within len) (readIcmp6 rounds bo n f buf (ip6Plen (bytesAt buf 0 len)) i)
        (.ok ((handleIcmp6 (bytesAt buf 0 len) i).call bo n f)) :=
    readIcmp6_yields rfl (by omega) hmax hi hrounds
  have hget {o : ℕ} (ho : o < len) : (bytesAt buf 0 len).getD o 0 = buf o := by
    rw [getD_bytesAt buf ho, Nat.zero_add]
  rw [readMsg, ndLHandleMsg, hget (by omega)]
  refine (word_yields buf (by omega)).andThen ((byte_yields buf (by omega)).andThen ?_)
  generalize hp : ip6Plen (bytesAt buf 0 len) = plen at hplen hicmp ⊢
  have hword : (u16At (bytesAt buf 0 len) 18).toNat = plen := hp
  rw [hword]
  rw [ip6MsgSize] at hplen
  by_cases hhop : buf 20 = ipprotoHopopts
  · rw [if_pos hhop, if_pos hhop]
    refine (usub_yields (Nat.zero_le _) (by omega)).andThen ?_
    rw [Nat.sub_zero]
    by_cases hshort : plen < 8
    · rw [if_pos hshort, if_pos (.inl hshort)]
      exact yields_pure _
    rw [if_neg hshort, hget (by omega), hget (by omega)]
    refine (byte_yields buf (by omega)).andThen ?_
    by_cases htrunc : plen < 8 + 8 * (buf 55).toNat
    · rw [if_pos htrunc, if_pos (.inr htrunc)]
      exact yields_pure _
    rw [if_neg htrunc, if_neg (not_or.2 ⟨hshort, htrunc⟩)]
    refine (byte_yields buf (by omega)).andThen ?_
    by_cases hnext : buf 54 ≠ ipprotoIcmpv6
    · rw [if_pos hnext, if_pos hnext]
      exact yields_pure _
    · rw [if_neg hnext, if_neg hnext]
      exact hicmp (not_lt.1 htrunc)
  · rw [if_neg hhop, if_neg hhop]
    by_cases hnxt : buf 20 ≠ ipprotoIcmpv6
    · rw [if_pos hnxt, if_pos hnxt]
      exact yields_pure _
    · rw [if_neg hnxt, if_neg hnxt]
      exact hicmp (Nat.zero_le _)

end Handlers

/-- A frame of `len` bytes, in a buffer whose other bytes are anything. The handlers do
    what the model says with the bytes that were received, every byte they read is one
    of them, and no subtraction wraps. The loop over the options ends within any number
    of rounds larger than `len`. -/
theorem ioHandler_yields (bo : ByteOrder) (n : Net) (index : ℕ) (buf : ℕ → U8) {len rounds : ℕ}
    (hlen : len ≤ bufSize) (hrounds : len < rounds) :
    Yields (Access.Within len) (ioHandler rounds bo n buf index len)
      (.ok (reached bo n index (bytesAt buf 0 len))) := by
  have hframe : (bytesAt buf 0 len).take bufSize = bytesAt buf 0 len :=
    List.take_of_length_le (by rwa [length_bytesAt])
  rw [ioHandler, reached, verdict, hframe, handleBuf, length_bytesAt]
  by_cases hzero : len = 0
  · rw [if_pos hzero, if_pos (by rw [hzero]; decide)]
    cases n.receiver index <;> exact yields_pure _
  rw [if_neg hzero]
  cases n.receiver index with
  | none => exact yields_pure _
  | some f =>
    rw [Option.bind_some]
    dsimp only
    by_cases hshort : len < ip6MsgSize
    · rw [if_pos hshort, if_pos hshort]
      exact yields_pure _
    have hmsg : 54 ≤ len := not_lt.1 hshort
    have hsize : len < 2 ^ 64 := Nat.lt_of_le_of_lt hlen (by decide)
    rw [if_neg hshort, if_neg hshort]
    refine (word_yields buf (by omega)).andThen ?_
    by_cases htype : u16At (bytesAt buf 0 len) 12 ≠ 0x86dd
    · rw [if_pos htype, if_pos htype]
      exact yields_pure _
    rw [if_neg htype, if_neg htype]
    refine (word_yields buf (by omega)).andThen ((usub_yields (not_lt.1 hshort) hsize).andThen ?_)
    have hword : (u16At (bytesAt buf 0 len) 18).toNat = ip6Plen (bytesAt buf 0 len) := rfl
    rw [hword]
    by_cases hplen : ip6Plen (bytesAt buf 0 len) ≠ len - ip6MsgSize
    · rw [if_pos hplen, if_pos hplen]
      exact yields_pure _
    · rw [if_neg hplen, if_neg hplen]
      exact readMsg_yields (not_not.1 hplen) (not_lt.1 hshort) hlen hrounds

namespace Small

/-- A solicitation of 78 bytes, in a buffer that goes on with other bytes. -/
def nsBuf (o : ℕ) : U8 := (nsFrame 0 0x7c 0x22).getD o 0xaa

/-- It is given to the proxy, and its first 78 bytes only are read. -/
theorem nsBuf_yields :
    (ioHandler 79 .little net nsBuf 1 78).val = .ok (some (.proxyHandleNs 0
      0xfe800000000000000000000000000001 0xff0200000000000000000001ff000002 2
      (some 0x020000000009))) ∧
    ∀ a ∈ (ioHandler 79 .little net nsBuf 1 78).trace, a.Within 78 := by
  have hyields := ioHandler_yields .little net 1 nsBuf (show 78 ≤ bufSize by decide)
    (show 78 < 79 by decide)
  exact ⟨hyields.val.trans (congrArg _ (by decide +kernel)), hyields.trace⟩

end Small

end Ndppd
