import Ndppd.Addr.Prefix
import Ndppd.Checksum

/-!
# Valid messages

RFC 4861 says which solicitations and advertisements are valid (sections 7.1.1 and
7.1.2), and that the others must be discarded. `Valid` states it for the message in
a frame. The daemon makes some of the checks, and then a solicitation is given to
the proxy, or the session of an advertisement is looked for (`reached`).

`reached_valid_iff` says which ones it does not make (`Unchecked`): the code, the
target and the options of an advertisement, the destination and the options of a
solicitation without a source, the flag of an advertisement that was multicast, and
the checksum of a message of odd length. `Small.badCode_not_valid` is a frame that
is accepted whose code is not zero.
-/

namespace Ndppd

/-! ## Calls -/

/-- What is called once a message is accepted. -/
inductive Delivery
  /-- `nd_proxy_handle_ns`. -/
  | proxyHandleNs (p : ProxyId) (src dst tgt : Addr) (srcLl : Option LlAddr)
  /-- `nd_session_find_r`. -/
  | sessionFindR (tgt : Addr) (f : IfaceId)
  deriving DecidableEq

/-- The call that a handler makes, for the interface `f`. -/
def Verdict.call (bo : ByteOrder) (n : Net) (f : IfaceId) : Verdict → Option Delivery
  | .ns src dst icmp ethSrc => (n.iface f).proxy.bind fun p =>
      (parseNs bo src icmp ethSrc).map fun q => .proxyHandleNs p src dst q.1 q.2
  | .na icmp => (naTarget icmp).map fun tgt => .sessionFindR tgt f
  | _ => none

/-- The call that is reached by a frame received on the interface `index`. -/
def reached (bo : ByteOrder) (n : Net) (index : ℕ) (frame : List U8) : Option Delivery :=
  (n.receiver index).bind fun f => (verdict frame).call bo n f

/-- What is done from the call on. -/
def Delivery.exec (e : Env) (f : IfaceId) (m : Mem) : Delivery → Mem
  | .proxyHandleNs p src _ tgt srcLl =>
    ndProxyHandleNs e p src tgt srcLl { m with world := m.world.emit e (.rxNs f src tgt srcLl) }
  | .sessionFindR tgt f =>
    match ndSessionFindR e tgt f m.store with
    | none => m
    | some i => m.withSession i (ndSessionHandleNa e i)

/-- A frame that reaches no call does nothing. -/
theorem Verdict.exec_eq (e : Env) (f : IfaceId) (m : Mem) (v : Verdict) :
    v.exec e f m = (v.call e.conf.byteOrder m.world.net f).elim m (Delivery.exec e f m) := by
  cases v with
  | ns src dst icmp ethSrc =>
    rw [exec, ndLHandleNs, call]
    cases (m.world.net.iface f).proxy with
    | none => rfl
    | some p => cases parseNs e.conf.byteOrder src icmp ethSrc <;> rfl
  | na icmp =>
    rw [exec, ndLHandleNa, call]
    cases naTarget icmp <;> rfl
  | drop => rfl
  | mlq => rfl
  | mlr => rfl

/-! ## The standard -/

/-- What the standard is about. -/
structure Packet where
  hops : U8
  src : Addr
  dst : Addr
  icmp : List U8

/-- The packet in a frame. -/
def packetOf (frame : List U8) : Packet where
  hops := frame.getD 21 0
  src := addrAt frame 22
  dst := addrAt frame 38
  icmp := icmp6At frame (hopByHopSize frame)

/-- The type and the length of an option, in units of eight bytes. -/
structure NdOption where
  type : U8
  len : U8
  deriving DecidableEq

/-- The options that are met in at most `n` steps. The last one may have no length, or
    go on after the end. -/
def optionsMet : ℕ → List U8 → List NdOption
  | 0, _ => []
  | n + 1, opts =>
    if opts.length < 8 then []
    else
      let o : NdOption := ⟨opts.getD 0 0, opts.getD 1 0⟩
      if o.len = 0 ∨ o.len.toNat * 8 > opts.length then [o]
      else o :: optionsMet n (opts.drop (o.len.toNat * 8))

def Addr.Multicast (a : Addr) : Prop := a.u8 0 = 0xff

/-- The addresses `ff02::1:ffxx:xxxx`. -/
def Addr.SolicitedNode (a : Addr) : Prop := a.AgreeOn 104 0xff0200000000000000000001ff000000

namespace Packet

def type (p : Packet) : U8 := p.icmp.getD 0 0

def code (p : Packet) : U8 := p.icmp.getD 1 0

def target (p : Packet) : Addr := addrAt p.icmp 8

/-- The options of a solicitation, or of an advertisement. -/
def options (p : Packet) : List NdOption :=
  let opts := p.icmp.drop ndHeaderSize
  optionsMet opts.length opts

/-- What a solicitation and an advertisement must satisfy. -/
structure Valid (p : Packet) : Prop where
  hops : p.hops = 255
  checksum : u16At p.icmp 2 = internetChecksum p.src p.dst p.icmp
  code : p.code = 0
  length : 24 ≤ p.icmp.length
  target : ¬p.target.Multicast
  options : ∀ o ∈ p.options, o.len ≠ 0
  unspecified : p.type = ndNeighborSolicit → p.src = 0 →
    p.dst.SolicitedNode ∧ ∀ o ∈ p.options, o.type ≠ 1
  solicited : p.type = ndNeighborAdvert → p.dst.Multicast → p.icmp.getD 4 0 &&& 0x40 = 0

/-- What is not checked. -/
structure Unchecked (p : Packet) : Prop where
  checksum : p.icmp.length % 2 = 0 ∨ p.icmp.getLast? = some 0
  code : p.code = 0
  target : p.type = ndNeighborAdvert → ¬p.target.Multicast
  options : p.type = ndNeighborAdvert ∨ p.src = 0 → ∀ o ∈ p.options, o.len ≠ 0
  unspecified : p.type = ndNeighborSolicit → p.src = 0 →
    p.dst.SolicitedNode ∧ ∀ o ∈ p.options, o.type ≠ 1
  solicited : p.type = ndNeighborAdvert → p.dst.Multicast → p.icmp.getD 4 0 &&& 0x40 = 0

end Packet

/-! ## The packet in the buffer -/

section Buffer

variable {frame : List U8} {i o : ℕ}

theorem take_drop_take_bufSize {k : ℕ} (ho : o + k ≤ bufSize) :
    ((frame.take bufSize).drop o).take k = (frame.drop o).take k := by
  rw [List.drop_take, List.take_take,
    Nat.min_eq_left (Nat.le_sub_of_add_le (Nat.add_comm o k ▸ ho))]

theorem addrAt_take (ho : o + 16 ≤ bufSize) :
    addrAt (frame.take bufSize) o = addrAt frame o := by
  rw [addrAt, addrAt, take_drop_take_bufSize ho]

theorem ip6Plen_take : ip6Plen (frame.take bufSize) = ip6Plen frame := by
  have h18 : (18 : ℕ) < bufSize := by decide
  have h19 : (18 + 1 : ℕ) < bufSize := by decide
  rw [ip6Plen, ip6Plen, u16At, u16At, getD_take_bufSize h18, getD_take_bufSize h19]

theorem icmp6At_take (hi : Located (frame.take bufSize) i) :
    icmp6At (frame.take bufSize) i = icmp6At frame i := by
  have hsize : (frame.take bufSize).length ≤ bufSize := List.length_take_le ..
  have hplen := hi.plen
  have hlt := hi.lt_length
  rw [icmp6At, icmp6At, ip6Plen_take, take_drop_take_bufSize]
  rw [← ip6Plen_take]
  omega

/-- The bytes after the end of the buffer do not belong to the packet. -/
theorem packetOf_take (hi : Located (frame.take bufSize) i) :
    packetOf frame = ⟨(frame.take bufSize).getD 21 0, addrAt (frame.take bufSize) 22,
      addrAt (frame.take bufSize) 38, icmp6At (frame.take bufSize) i⟩ := by
  have h21 : (21 : ℕ) < bufSize := by decide
  have h22 : (22 + 16 : ℕ) ≤ bufSize := by decide
  have h38 : (38 + 16 : ℕ) ≤ bufSize := by decide
  rw [packetOf, getD_take_bufSize h21, addrAt_take h22, addrAt_take h38, icmp6At_take hi,
    ← hi.hopByHopSize_eq, hopByHopSize_take]

end Buffer

/-! ## What is checked -/

/-- The options of a solicitation are discarded iff one has no length. -/
theorem nsOptions_eq_none_iff (n : ℕ) (opts : List U8) (srcLl : Option LlAddr) :
    nsOptions n opts srcLl = none ↔ ∃ o ∈ optionsMet n opts, o.len = 0 := by
  have hlen (v : U8) : v.toNat = 0 ↔ v = 0 :=
    ⟨fun h => BitVec.eq_of_toNat_eq h, fun h => h ▸ rfl⟩
  induction n generalizing opts srcLl with
  | zero => simp [nsOptions, optionsMet]
  | succ n ih =>
    by_cases hsize : opts.length < 8
    · simp [nsOptions, optionsMet, hsize]
    simp only [nsOptions, optionsMet, if_neg hsize]
    by_cases hzero : opts.getD 1 0 = 0
    · rw [if_pos ((hlen _).2 hzero), if_pos (.inl hzero)]
      simpa using hzero
    by_cases hlong : (opts.getD 1 0).toNat * 8 > opts.length
    · rw [if_neg (mt (hlen _).1 hzero), if_pos hlong, if_pos (.inr hlong)]
      simpa using hzero
    · rw [if_neg (mt (hlen _).1 hzero), if_neg hlong, if_neg (not_or.2 ⟨hzero, hlong⟩)]
      refine (ih _ _).trans ?_
      simp only [List.mem_cons, exists_eq_or_imp, or_iff_right hzero]

/-- What `ndL_handle_ns` checks. -/
theorem parseNs_isSome_iff (bo : ByteOrder) (src : Addr) (icmp : List U8) (ethSrc : LlAddr) :
    (parseNs bo src icmp ethSrc).isSome = true ↔ 24 ≤ icmp.length ∧ ¬(addrAt icmp 8).Multicast ∧
      (src ≠ 0 → ∀ o ∈ optionsMet (icmp.drop ndHeaderSize).length (icmp.drop ndHeaderSize),
        o.len ≠ 0) := by
  have hmulticast : ndAddrIsMulticast (addrAt icmp 8) = true ↔ (addrAt icmp 8).Multicast :=
    beq_iff_eq
  simp only [parseNs]
  split_ifs with hsize hmulti hsrc
  · exact iff_of_false (by simp) fun h => not_lt.2 h.1 hsize
  · exact iff_of_false (by simp) fun h => h.2.1 (hmulticast.1 hmulti)
  · have hzero := (ndAddrIsUnspecified_iff bo).1 hsrc
    exact iff_of_true rfl ⟨not_lt.1 hsize, mt hmulticast.2 hmulti, fun h => absurd hzero h⟩
  · have hne : src ≠ 0 := mt (ndAddrIsUnspecified_iff bo).2 hsrc
    rw [Option.isSome_map, Option.isSome_iff_ne_none, Ne, nsOptions_eq_none_iff, not_exists]
    simp only [not_and]
    exact ⟨fun h => ⟨not_lt.1 hsize, mt hmulticast.2 hmulti, fun _ => h⟩, fun h => h.2.2 hne⟩

theorem naTarget_isSome_iff {icmp : List U8} :
    (naTarget icmp).isSome = true ↔ 24 ≤ icmp.length := by
  rw [naTarget]
  split_ifs with hsize
  · exact iff_of_false (by simp) (not_le.2 hsize)
  · exact iff_of_true rfl (not_lt.1 hsize)

/-- What is checked before a call is reached. -/
theorem reached_cases {bo : ByteOrder} {n : Net} {index : ℕ} {frame : List U8} {call : Delivery}
    (h : reached bo n index frame = some call) :
    (packetOf frame).hops = 255 ∧
    ndLCalculateIcmp6Checksum (packetOf frame).src (packetOf frame).dst (packetOf frame).icmp =
      u16At (packetOf frame).icmp 2 ∧
    24 ≤ (packetOf frame).icmp.length ∧
    ((packetOf frame).type = ndNeighborSolicit ∧ ¬(packetOf frame).target.Multicast ∧
        ((packetOf frame).src ≠ 0 → ∀ o ∈ (packetOf frame).options, o.len ≠ 0) ∨
      (packetOf frame).type = ndNeighborAdvert) := by
  obtain ⟨f, -, hcall⟩ := Option.bind_eq_some_iff.1 h
  have hcase := frameCase (frame.take bufSize)
  rw [← verdict] at hcase
  generalize verdict frame = v at hcase hcall
  cases hcase with
  | accepted i hi hsum hhops =>
    rw [packetOf_take hi]
    refine ⟨hhops, hsum, ?_⟩
    generalize icmp6At (frame.take bufSize) i = icmp at hcall ⊢
    simp only [dispatch] at hcall
    split_ifs at hcall with hns hna
    · obtain ⟨p, -, hp⟩ := Option.bind_eq_some_iff.1 hcall
      obtain ⟨q, hq, -⟩ := Option.map_eq_some_iff.1 hp
      obtain ⟨hsize, htgt, hopts⟩ := (parseNs_isSome_iff ..).1 (Option.isSome_of_eq_some hq)
      exact ⟨hsize, .inl ⟨hns, htgt, hopts⟩⟩
    · obtain ⟨tgt, htgt, -⟩ := Option.map_eq_some_iff.1 hcall
      exact ⟨naTarget_isSome_iff.1 (Option.isSome_of_eq_some htgt), .inr hna⟩
    all_goals simp [Verdict.call] at hcall
  | _ => simp [Verdict.call] at hcall

/-- A message that is accepted is valid iff it satisfies what is not checked. -/
theorem reached_valid_iff {bo : ByteOrder} {n : Net} {index : ℕ} {frame : List U8} {call : Delivery}
    (h : reached bo n index frame = some call) :
    (packetOf frame).Valid ↔ (packetOf frame).Unchecked := by
  obtain ⟨hhops, hsum, hsize, htype⟩ := reached_cases h
  generalize packetOf frame = p at hhops hsum hsize htype ⊢
  have hchecksum : u16At p.icmp 2 = internetChecksum p.src p.dst p.icmp ↔
      p.icmp.length % 2 = 0 ∨ p.icmp.getLast? = some 0 := by
    rw [← hsum]
    exact ndLCalculateIcmp6Checksum_eq_iff (by omega) p.src p.dst
  constructor
  · intro hv
    exact ⟨hchecksum.1 hv.checksum, hv.code, fun _ => hv.target, fun _ => hv.options,
      hv.unspecified, hv.solicited⟩
  · intro hu
    refine ⟨hhops, hchecksum.2 hu.checksum, hu.code, hsize, ?_, ?_, hu.unspecified, hu.solicited⟩
    · rcases htype with ⟨-, htgt, -⟩ | hna
      · exact htgt
      · exact hu.target hna
    · rcases htype with ⟨-, -, hopts⟩ | hna
      · by_cases hsrc : p.src = 0
        · exact hu.options (.inr hsrc)
        · exact hopts hsrc
      · exact hu.options (.inl hna)

/-! ## Examples -/

namespace Small

/-- A solicitation for `::2` from `fe80::1`, with a code and a checksum. -/
def nsFrame (code cksum₁ cksum₂ : U8) : List U8 :=
  [0x33, 0x33, 0xff, 0, 0, 2] ++ [2, 0, 0, 0, 0, 9] ++ [0x86, 0xdd] ++
    [0x60, 0, 0, 0, 0, 24, 58, 255] ++ [0xfe, 0x80, 0, 0, 0, 0, 0, 0, 0, 0, 0, 0, 0, 0, 0, 1] ++
    [0xff, 2, 0, 0, 0, 0, 0, 0, 0, 0, 0, 1, 0xff, 0, 0, 2] ++
    [135, code, cksum₁, cksum₂, 0, 0, 0, 0] ++ [0, 0, 0, 0, 0, 0, 0, 0, 0, 0, 0, 0, 0, 0, 0, 2]

/-- The interfaces of the small network. -/
def net : Net := (daemon staticRule).mem.world.net

theorem goodCode_valid : reached .little net 1 (nsFrame 0 0x7c 0x22) = some (.proxyHandleNs 0
      0xfe800000000000000000000000000001 0xff0200000000000000000001ff000002 2
      (some 0x020000000009)) ∧ (packetOf (nsFrame 0 0x7c 0x22)).Valid := by
  have h : reached .little net 1 (nsFrame 0 0x7c 0x22) = some (.proxyHandleNs 0
      0xfe800000000000000000000000000001 0xff0200000000000000000001ff000002 2
      (some 0x020000000009)) := by decide +kernel
  have htype : (packetOf (nsFrame 0 0x7c 0x22)).type ≠ ndNeighborAdvert := by decide +kernel
  have hsrc : (packetOf (nsFrame 0 0x7c 0x22)).src ≠ 0 := by decide +kernel
  refine ⟨h, (reached_valid_iff h).2 ⟨by decide +kernel, by decide +kernel, ?_, ?_, ?_, ?_⟩⟩
  · exact fun hna => absurd hna htype
  · exact fun hor => absurd hor (not_or.2 ⟨htype, hsrc⟩)
  · exact fun _ hzero => absurd hzero hsrc
  · exact fun hna => absurd hna htype

/-- A solicitation whose code is not zero is given to the proxy. -/
theorem badCode_not_valid : reached .little net 1 (nsFrame 1 0x7c 0x21) = some (.proxyHandleNs 0
      0xfe800000000000000000000000000001 0xff0200000000000000000001ff000002 2
      (some 0x020000000009)) ∧ (packetOf (nsFrame 1 0x7c 0x21)).code = 1 ∧
    ¬(packetOf (nsFrame 1 0x7c 0x21)).Valid := by
  have hcode : (packetOf (nsFrame 1 0x7c 0x21)).code = 1 := by decide +kernel
  refine ⟨by decide +kernel, hcode, fun h => ?_⟩
  have hzero := h.code
  rw [hcode] at hzero
  exact absurd hzero (by decide)

end Small

end Ndppd
