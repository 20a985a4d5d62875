import Ndppd.Reads

/-!
# Records of the packet filter

The read path of BSD (`ndL_io_handler`). A read from `/dev/bpf` fills a buffer with
records: a header (`struct bpf_hdr`), of a length that it holds itself, a frame, of a
length that it holds too, and padding up to the next word. Nothing in the buffer is
trusted: a length may be anything, and the sum of two of them may wrap around.

The loop over the records reports what it reads and what it hands over to
`ndL_handle_msg`. `walkRecords_yields` says that it ends, and that it reads and hands over
nothing but what is in the buffer. Numbers of the type `size_t` have 64 bits.
-/

namespace Ndppd

open Report

/-- Where the fields of `struct bpf_hdr` are, on a platform. -/
structure BpfHdr where
  /-- `sizeof(struct bpf_hdr)`. -/
  size : ℕ
  /-- The offset of `bh_caplen`, which has four bytes. -/
  caplen : ℕ
  /-- The offset of `bh_hdrlen`, which has two bytes. -/
  hdrlen : ℕ
  caplen_le : caplen + 4 ≤ size
  hdrlen_le : hdrlen + 2 ≤ size
  size_le : size ≤ 64

/-- FreeBSD: a time of sixteen bytes, two lengths of the packet, and that of the header. -/
def BpfHdr.freebsd : BpfHdr where
  size := 32
  caplen := 16
  hdrlen := 24
  caplen_le := by decide
  hdrlen_le := by decide
  size_le := by decide

/-- The number that a host stores as these bytes. -/
def hostNumber (bo : ByteOrder) (b : List U8) : ℕ :=
  let digits := match bo with
    | .big => b
    | .little => b.reverse
  digits.foldl (fun n x => 256 * n + x.toNat) 0

/-- An addition of numbers of the type `size_t`. -/
def sizeAdd (a b : ℕ) : ℕ := (a + b) % 2 ^ 64

/-- `BPF_WORDALIGN`: the next multiple of eight. -/
def bpfWordalign (x : BitVec 64) : BitVec 64 := (x + 7) &&& ~~~7

/-- The size of a record: `bh_hdrlen` and `bh_caplen` are added as numbers of 32 bits. -/
def recordSize (hdrlen : U16) (caplen : U32) : ℕ :=
  (bpfWordalign ((hdrlen.setWidth 32 + caplen).setWidth 64)).toNat

/-! ## The loop -/

/-- What the loop does: it looks at the header of a record, it reads some bytes, or it
    calls `ndL_handle_msg` with a frame. -/
inductive RecordEvent
  | header (i : ℕ)
  | load (o n : ℕ)
  | handleMsg (pktOffset caplen : ℕ)
  deriving DecidableEq

/-- A computation that reports what it does with the buffer. -/
abbrev Walking := Report RecordEvent OutOfRounds

section Walk

variable (l : BpfHdr) (bo : ByteOrder) (buf : ℕ → U8) (ulen : ℕ)

/-- Reads `n` bytes. -/
def load (o n : ℕ) : Walking (List U8) := do
  emit (.load o n)
  return bytesAt buf o n

/-- The checks on a frame, and whether it is handed over. -/
def walkFrame (pktOffset caplen : ℕ) : Walking Bool :=
  if caplen < ip6MsgSize then return false
  else do
    let type ← load buf (pktOffset + 12) 2
    if u16At type 0 ≠ 0x86dd then return false
    else do
      let plen ← load buf (pktOffset + 18) 2
      if (u16At plen 0).toNat ≠ caplen - ip6MsgSize then return false
      else do
        emit (.handleMsg pktOffset caplen)
        return true

/-- A record, given its lengths: the frames that are handed over from there on, with their
    lengths. The loop goes on with the next record (`next`). -/
def walkRecord (next : ℕ → Walking (List (ℕ × ℕ))) (i : ℕ) (hdrlen : U16) (caplen : U32) :
    Walking (List (ℕ × ℕ)) :=
  let pktOffset := sizeAdd i hdrlen.toNat
  let advance := recordSize hdrlen caplen
  -- The same record would be read forever.
  if advance = 0 then return []
  else if pktOffset > ulen ∨ caplen.toNat > ulen - pktOffset then next (sizeAdd i advance)
  else do
    let handled ← walkFrame buf pktOffset caplen.toNat
    let frames ← next (sizeAdd i advance)
    return if handled then (pktOffset, caplen.toNat) :: frames else frames

/-- The loop over the records from `i` on, in less than `n` rounds. -/
def walkRecords : ℕ → ℕ → Walking (List (ℕ × ℕ))
  | 0, _ => fail .mk
  | n + 1, i =>
    if ¬i < ulen then return []
    else if sizeAdd i l.size > ulen then return []
    else do
      emit (.header i)
      let hdrlen ← load buf (i + l.hdrlen) 2
      let caplen ← load buf (i + l.caplen) 4
      walkRecord buf ulen (walkRecords n) i (.ofNat 16 (hostNumber bo hdrlen))
        (.ofNat 32 (hostNumber bo caplen))

end Walk

/-! ## What it reads -/

/-- The bytes are in the buffer; a frame that is handed over is as long as its header
    says. -/
def RecordEvent.Safe (l : BpfHdr) (buf : ℕ → U8) (ulen : ℕ) : RecordEvent → Prop
  | .header i => i + l.size ≤ ulen
  | .load o n => o + n ≤ ulen
  | .handleMsg pktOffset caplen => pktOffset + caplen ≤ ulen ∧ ip6MsgSize ≤ caplen ∧
      ip6Plen (bytesAt buf pktOffset caplen) = caplen - ip6MsgSize

variable {ulen : ℕ}

/-- A record is less than `2 ^ 32` bytes long, up to its padding. -/
theorem recordSize_lt (hdrlen : U16) (caplen : U32) : recordSize hdrlen caplen < 2 ^ 33 := by
  have hsum : ((hdrlen.setWidth 32 + caplen).setWidth 64 + 7).toNat < 2 ^ 33 := by
    have := (hdrlen.setWidth 32 + caplen).isLt
    rw [BitVec.toNat_add, BitVec.toNat_setWidth]
    have h7 : (7 : BitVec 64).toNat = 7 := rfl
    omega
  rw [recordSize, bpfWordalign, BitVec.toNat_and]
  exact Nat.lt_of_le_of_lt Nat.and_le_left hsum

theorem sizeAdd_of_lt {a b : ℕ} (h : a + b < 2 ^ 64) : sizeAdd a b = a + b := Nat.mod_eq_of_lt h

theorem load_yields (l : BpfHdr) (buf : ℕ → U8) {o n : ℕ} (h : o + n ≤ ulen) :
    Yields (RecordEvent.Safe l buf ulen) (load buf o n) (.ok (bytesAt buf o n)) := by
  have hin : RecordEvent.Safe l buf ulen (.load o n) := h
  exact (yields_emit hin).andThen (yields_pure _)

/-- Only frames whose payload ends with them are handed over. -/
theorem walkFrame_yields (l : BpfHdr) (buf : ℕ → U8) {pktOffset caplen : ℕ}
    (h : pktOffset + caplen ≤ ulen) :
    ∃ handled, Yields (RecordEvent.Safe l buf ulen) (walkFrame buf pktOffset caplen)
      (.ok handled) := by
  rw [walkFrame]
  by_cases hshort : caplen < ip6MsgSize
  · rw [if_pos hshort]
    exact ⟨_, yields_pure _⟩
  rw [if_neg hshort]
  have hmsg : 54 ≤ caplen := not_lt.1 hshort
  have hloadType := load_yields l buf (show pktOffset + 12 + 2 ≤ ulen by omega)
  have hloadPlen := load_yields l buf (show pktOffset + 18 + 2 ≤ ulen by omega)
  by_cases htype : u16At (bytesAt buf (pktOffset + 12) 2) 0 ≠ 0x86dd
  · refine ⟨false, hloadType.andThen ?_⟩
    rw [if_pos htype]
    exact yields_pure _
  have hplen : (u16At (bytesAt buf (pktOffset + 18) 2) 0).toNat =
      ip6Plen (bytesAt buf pktOffset caplen) := by
    rw [ip6Plen, u16At, u16At, getD_bytesAt buf (by decide), getD_bytesAt buf (by decide),
      getD_bytesAt buf (by omega), getD_bytesAt buf (by omega)]
  by_cases hbad : (u16At (bytesAt buf (pktOffset + 18) 2) 0).toNat ≠ caplen - ip6MsgSize
  · refine ⟨false, hloadType.andThen ?_⟩
    rw [if_neg htype]
    refine hloadPlen.andThen ?_
    rw [if_pos hbad]
    exact yields_pure _
  · have hsafe : RecordEvent.Safe l buf ulen (.handleMsg pktOffset caplen) :=
      ⟨h, not_lt.1 hshort, hplen.symm.trans (not_not.1 hbad)⟩
    refine ⟨true, hloadType.andThen ?_⟩
    rw [if_neg htype]
    refine hloadPlen.andThen ?_
    rw [if_neg hbad]
    exact (yields_emit hsafe).andThen (yields_pure _)

/-- A record leads to a later one, or to none. -/
theorem walkRecord_yields (l : BpfHdr) (buf : ℕ → U8) {next : ℕ → Walking (List (ℕ × ℕ))} {i : ℕ}
    (hulen : ulen ≤ 4096) (hi : i < ulen)
    (hnext : ∀ i', i < i' → ∃ frames, Yields (RecordEvent.Safe l buf ulen) (next i') (.ok frames))
    (hdrlen : U16) (caplen : U32) :
    ∃ frames, Yields (RecordEvent.Safe l buf ulen) (walkRecord buf ulen next i hdrlen caplen)
      (.ok frames) := by
  have hhdrlen := hdrlen.isLt
  have hsize := recordSize_lt hdrlen caplen
  simp only [walkRecord]
  rw [sizeAdd_of_lt (show i + hdrlen.toNat < 2 ^ 64 by omega),
    sizeAdd_of_lt (show i + recordSize hdrlen caplen < 2 ^ 64 by omega)]
  by_cases hzero : recordSize hdrlen caplen = 0
  · rw [if_pos hzero]
    exact ⟨_, yields_pure _⟩
  rw [if_neg hzero]
  obtain ⟨frames, hframes⟩ := hnext (i + recordSize hdrlen caplen) (by omega)
  by_cases hout : i + hdrlen.toNat > ulen ∨ caplen.toNat > ulen - (i + hdrlen.toNat)
  · rw [if_pos hout]
    exact ⟨frames, hframes⟩
  · rw [if_neg hout]
    obtain ⟨handled, hhandled⟩ := walkFrame_yields l buf
      (show i + hdrlen.toNat + caplen.toNat ≤ ulen by omega)
    exact ⟨_, hhandled.andThen (hframes.andThen (yields_pure _))⟩

/-- The loop over the records ends, and all it reads and hands over is in the buffer. -/
theorem walkRecords_yields (l : BpfHdr) (bo : ByteOrder) (buf : ℕ → U8) {ulen : ℕ}
    (hulen : ulen ≤ 4096) {n i : ℕ} (hn : ulen - i < n) :
    ∃ frames, Yields (RecordEvent.Safe l buf ulen) (walkRecords l bo buf ulen n i)
      (.ok frames) := by
  induction n generalizing i with
  | zero => omega
  | succ n ih =>
    rw [walkRecords]
    by_cases hend : ¬i < ulen
    · rw [if_pos hend]
      exact ⟨_, yields_pure _⟩
    rw [if_neg hend, sizeAdd_of_lt (by have := l.size_le; omega)]
    by_cases hheader : i + l.size > ulen
    · rw [if_pos hheader]
      exact ⟨_, yields_pure _⟩
    rw [if_neg hheader]
    have hsafe : RecordEvent.Safe l buf ulen (.header i) := not_lt.1 hheader
    have hhdrlen := load_yields l buf
      (show i + l.hdrlen + 2 ≤ ulen by have := l.hdrlen_le; omega)
    have hcaplen := load_yields l buf
      (show i + l.caplen + 4 ≤ ulen by have := l.caplen_le; omega)
    -- The next record is after this one, so that there are enough rounds for it.
    obtain ⟨frames, hframes⟩ := walkRecord_yields l buf hulen (not_not.1 hend)
      (fun i' hi' => ih (i := i') (by omega))
      (.ofNat 16 (hostNumber bo (bytesAt buf (i + l.hdrlen) 2)))
      (.ofNat 32 (hostNumber bo (bytesAt buf (i + l.caplen) 4)))
    exact ⟨frames, (yields_emit hsafe).andThen (hhdrlen.andThen (hcaplen.andThen hframes))⟩

/-! ## The handler -/

/-- `ndL_io_handler`, for a read of `ulen` bytes from the packet filter of the interface `f`. -/
def ndLIoHandlerBpf (l : BpfHdr) (e : Env) (f : IfaceId) (buf : ℕ → U8) (ulen : ℕ) (m : Mem) :
    Mem :=
  match (walkRecords l e.conf.byteOrder buf ulen (ulen + 1) 0).val with
  | .error _ => m
  | .ok frames => frames.foldl (fun m x => (ndLHandleMsg (bytesAt buf x.1 x.2)).exec e f m) m

/-- For every read of at most 4096 bytes, the handler goes over the records once, and gives
    each frame it hands over to the handlers of the transition system. -/
theorem ndLIoHandlerBpf_yields (l : BpfHdr) (e : Env) (f : IfaceId) (buf : ℕ → U8) {ulen : ℕ}
    (hulen : ulen ≤ 4096) :
    ∃ frames, Yields (RecordEvent.Safe l buf ulen)
        (walkRecords l e.conf.byteOrder buf ulen (ulen + 1) 0) (.ok frames) ∧
      ∀ m, ndLIoHandlerBpf l e f buf ulen m =
        (frames.filterMap fun x => (ndLHandleMsg (bytesAt buf x.1 x.2)).action f).foldl
          (fun m a => Daemon.stepMem e a m) m := by
  obtain ⟨frames, hframes⟩ :=
    walkRecords_yields l e.conf.byteOrder buf hulen (show ulen - 0 < ulen + 1 by omega)
  refine ⟨frames, hframes, fun m => ?_⟩
  rw [ndLIoHandlerBpf, hframes.val, List.foldl_filterMap]
  dsimp only
  congr 1
  funext m x
  cases ndLHandleMsg (bytesAt buf x.1 x.2) <;> rfl

namespace Small

/-- A record of FreeBSD with a solicitation of 78 bytes, and the beginning of another one
    with a length that wraps around. -/
def bpfRecords : List U8 :=
  List.replicate 16 0 ++ [78, 0, 0, 0, 78, 0, 0, 0, 32, 0] ++ List.replicate 6 0 ++
    nsFrame 0 0x7c 0x22 ++ [0, 0] ++
    List.replicate 16 0 ++ [0xe0, 0xff, 0xff, 0xff, 0, 0, 0, 0, 32, 0] ++ List.replicate 6 0

def bpfBuf (o : ℕ) : U8 := bpfRecords.getD o 0

theorem bpfBuf_yields : (144 ≤ 4096) ∧
    ∃ frames, Yields (RecordEvent.Safe .freebsd bpfBuf 144)
      (walkRecords .freebsd .little bpfBuf 144 145 0) (.ok frames) := by
  obtain ⟨frames, hframes, -⟩ := ndLIoHandlerBpf_yields .freebsd
    { kernel, conf, cfg := .empty, rt := {}, now := 0 } 0 bpfBuf (show 144 ≤ 4096 by decide)
  exact ⟨by decide, frames, hframes⟩

example : (walkRecords .freebsd .little bpfBuf 144 145 0).val.toOption = some [(32, 78)] := by
  decide +kernel

end Small

end Ndppd
