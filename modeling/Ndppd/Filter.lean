import Ndppd.Frame
import Ndppd.Lib.Bpf

/-!
# The filter of the socket

The program that the kernel runs on every frame (`ndL_configure_filter`), and what
`ndL_io_handler` does with those it keeps. The filter and the daemon read the same
fields, at offsets they compute on their own: in the filter, the offset of the
message is in the index register, and the jumps are counted by hand.

* `run_filter`: the frames that are kept;
* `filter_agrees`: they are those that get to a handler, and some which the daemon
  drops because of a length, the checksum or the hop limit.
-/

namespace Ndppd

open Bpf

/-- `filter`, of `ndL_configure_filter`. -/
def filter : List Insn := [
  -- The Ethernet type.
  .ld .half .abs 12,
  .jeq 0x86dd 0 17,
  .ldxImm 54,
  .ld .byte .abs 20,
  -- The hop-by-hop header.
  .jeq 0 0 8,
  .ld .byte .ind 0,
  .st 0,
  .ld .byte .ind 1,
  .alu .mul (.k 8),
  .alu .add (.k 8),
  .alu .add .x,
  .tax,
  .ldMem 0,
  -- The ICMPv6 message.
  .jeq 58 0 5,
  .ld .byte .ind 0,
  .jeq 135 4 0,
  .jeq 136 3 0,
  .jeq 130 2 0,
  .jeq 131 1 0,
  .ret 0,
  .ret 0xffffffff]

/-- The types that have a handler. -/
def handledTypes : List U8 :=
  [ndNeighborSolicit, ndNeighborAdvert, mldListenerQuery, mldListenerReport]

/-- The protocol after the IPv6 header, and after the hop-by-hop header. -/
def lastNext (frame : List U8) : U8 :=
  if frame.getD 20 0 = ipprotoHopopts then frame.getD 54 0 else frame.getD 20 0

/-- The frames that the filter keeps. -/
structure FilterKeeps (frame : List U8) : Prop where
  etherType : u16At frame 12 = 0x86dd
  size : icmp6Offset frame < frame.length
  next : lastNext frame = ipprotoIcmpv6
  type : frame.getD (icmp6Offset frame) 0 ∈ handledTypes

theorem setWidth_eq_iff {v w : U8} : v.setWidth 32 = (w.setWidth 32 : Word) ↔ v = w := by
  constructor
  · intro h
    have := congrArg (BitVec.setWidth 8) h
    simpa using this
  · rintro rfl
    rfl

/-- The filter, from the checks on the type. -/
theorem run_filter_type (frame : List U8) (s : Machine) {type : U8} (ha : s.a = type.setWidth 32) :
    run frame (filter.drop 15) s = some (if type ∈ handledTypes then 0xffffffff else 0) := by
  have hkeep : run frame (filter.drop 20) s = some 0xffffffff := run_ret
  have hdrop : run frame (filter.drop 19) s = some 0 := run_ret
  -- Every check jumps to the last instruction, or goes on to the next one.
  have hjeq : ∀ n, ∀ k : U8, n < 20 →
      filter.drop n = .jeq (k.setWidth 32) (19 - n) 0 :: filter.drop (n + 1) →
      run frame (filter.drop n) s =
        if type = k then some 0xffffffff else run frame (filter.drop (n + 1)) s := by
    intro n k hn heq
    rw [heq]
    split_ifs with htype
    · rw [run_jeq_pos (ha.trans (htype ▸ rfl)), List.drop_drop, ← hkeep]
      congr 2
      omega
    · exact run_jeq_neg (ha ▸ mt setWidth_eq_iff.1 htype)
  rw [hjeq 15 ndNeighborSolicit (by decide) rfl, hjeq 16 ndNeighborAdvert (by decide) rfl,
    hjeq 17 mldListenerQuery (by decide) rfl, hjeq 18 mldListenerReport (by decide) rfl, hdrop]
  simp only [handledTypes, List.mem_cons, List.not_mem_nil, or_false]
  split_ifs <;> simp_all

/-- The filter, from the check on the next header. -/
theorem run_filter_message (frame : List U8) (s : Machine) {nxt : U8}
    (hnxt : s.a = nxt.setWidth 32) :
    run frame (filter.drop 13) s = some (if nxt = ipprotoIcmpv6 ∧ s.x.toNat < frame.length ∧
      frame.getD s.x.toNat 0 ∈ handledTypes then 0xffffffff else 0) := by
  by_cases hicmp : nxt = ipprotoIcmpv6
  · have hload : run frame (filter.drop 13) s = run frame (.ld .byte .ind 0 :: filter.drop 15) s :=
      run_jeq_pos (hnxt.trans (hicmp ▸ rfl))
    have hoffset : Mode.offset s 0 .ind = s.x.toNat := congrArg BitVec.toNat (BitVec.add_zero _)
    rw [hload, run_ld_byte hoffset]
    split_ifs with hsize htype htype
    · exact (run_filter_type frame _ rfl).trans (congrArg some (if_pos htype.2.2))
    · rw [run_filter_type frame _ rfl, if_neg fun h => htype ⟨hicmp, hsize, h⟩]
    · exact absurd htype.2.1 hsize
    · rfl
  · have hfail : run frame (filter.drop 13) s = run frame (filter.drop 19) s :=
      run_jeq_neg (hnxt ▸ mt (setWidth_eq_iff (w := ipprotoIcmpv6)).1 hicmp)
    rw [hfail, if_neg fun h => hicmp h.1]
    exact run_ret

/-- The filter, from the hop-by-hop header. -/
theorem run_filter_hopByHop (frame : List U8) (s : Machine) (hx : s.x = 54) :
    ∃ t : Machine, t.a = (frame.getD 54 0).setWidth 32 ∧
      t.x.toNat = ip6MsgSize + (8 + 8 * (frame.getD 55 0).toNat) ∧
      run frame (filter.drop 5) s =
        if 55 < frame.length then run frame (filter.drop 13) t else some 0 := by
  let nxt : Word := (frame.getD 54 0).setWidth 32
  let len : Word := (frame.getD 55 0).setWidth 32
  let s₁ : Machine := { a := nxt, x := s.x, mem := Function.update s.mem 0 nxt }
  let tail : List Insn := [.alu .mul (.k 8), .alu .add (.k 8), .alu .add .x, .tax, .ldMem 0] ++
    filter.drop 13
  refine ⟨{ s₁ with x := len * 8 + 8 + s.x }, rfl, ?_, ?_⟩
  · have hlen : (frame.getD 55 0).toNat < 256 := (frame.getD 55 0).isLt
    have h8 : (8 : Word).toNat = 8 := rfl
    have h54 : (54 : Word).toNat = 54 := rfl
    simp only [hx, len, ip6MsgSize, BitVec.toNat_add, BitVec.toNat_mul, BitVec.toNat_setWidth,
      h8, h54]
    omega
  · have h54 : Mode.offset s 0 .ind = 54 := by rw [Mode.offset, hx]; rfl
    have h55 : Mode.offset s₁ 1 .ind = 55 := by rw [Mode.offset, hx]; rfl
    have hfirst : run frame (filter.drop 5) s =
        if 54 < frame.length then run frame (.ld .byte .ind 1 :: tail) s₁ else some 0 := by
      change run frame (.ld .byte .ind 0 :: .st 0 :: .ld .byte .ind 1 :: tail) s = _
      rw [run_ld_byte h54, run_st]
    have htail : run frame tail { s₁ with a := len } =
        run frame (filter.drop 13) { s₁ with x := len * 8 + 8 + s.x } := by
      simp only [tail, List.cons_append, List.nil_append]
      rw [run, run, run, run, run]
      rfl
    rw [hfirst, run_ld_byte h55, htail]
    split_ifs with hsize₀ hsize₁ hsize₁
    · rfl
    · rfl
    · omega
    · rfl

instance (frame : List U8) : Decidable (FilterKeeps frame) :=
  decidable_of_iff (u16At frame 12 = 0x86dd ∧ icmp6Offset frame < frame.length ∧
    lastNext frame = ipprotoIcmpv6 ∧ frame.getD (icmp6Offset frame) 0 ∈ handledTypes)
    ⟨fun ⟨h₁, h₂, h₃, h₄⟩ => ⟨h₁, h₂, h₃, h₄⟩, fun ⟨h₁, h₂, h₃, h₄⟩ => ⟨h₁, h₂, h₃, h₄⟩⟩

/-- The filter, from the check on the protocol after the IPv6 header. -/
theorem run_filter_next (frame : List U8) (s : Machine) (hx : s.x = 54)
    (ha : s.a = (frame.getD 20 0).setWidth 32) :
    run frame (filter.drop 4) s = some (if lastNext frame = ipprotoIcmpv6 ∧
      icmp6Offset frame < frame.length ∧ frame.getD (icmp6Offset frame) 0 ∈ handledTypes
      then 0xffffffff else 0) := by
  by_cases hhop : frame.getD 20 0 = ipprotoHopopts
  · obtain ⟨t, hta, htx, ht⟩ := run_filter_hopByHop frame s hx
    have hjump : run frame (filter.drop 4) s = run frame (filter.drop 5) s :=
      run_jeq_pos (ha.trans (hhop ▸ rfl))
    rw [hjump, ht, lastNext, icmp6Offset, hopByHopSize, if_pos hhop, if_pos hhop,
      ← htx]
    split_ifs with hsize hkept hkept
    · rw [run_filter_message frame t hta, if_pos hkept]
    · rw [run_filter_message frame t hta, if_neg hkept]
    · have := hkept.2.1
      simp only [htx, ip6MsgSize] at this
      omega
    · rfl
  · have hjump : run frame (filter.drop 4) s = run frame (filter.drop 13) s :=
      run_jeq_neg (ha ▸ mt (setWidth_eq_iff (w := ipprotoHopopts)).1 hhop)
    have hx' : s.x.toNat = ip6MsgSize := by rw [hx]; rfl
    rw [hjump, run_filter_message frame s ha, hx', lastNext, icmp6Offset, hopByHopSize,
      if_neg hhop, if_neg hhop, Nat.add_zero]

/-- The frames that the filter keeps. -/
theorem run_filter (frame : List U8) :
    run frame filter {} = some (if FilterKeeps frame then 0xffffffff else 0) := by
  let s : Machine := { a := (u16At frame 12).setWidth 32 }
  have hsize (h : FilterKeeps frame) : 54 < frame.length :=
    (Nat.le_add_right ip6MsgSize (hopByHopSize frame)).trans_lt h.size
  have hfirst : run frame filter {} =
      if 12 + 1 < frame.length then run frame (filter.drop 1) s else some 0 := run_ld_half rfl
  rw [hfirst]
  by_cases h12 : 12 + 1 < frame.length
  swap
  · rw [if_neg h12, if_neg fun h => h12 (by have := hsize h; omega)]
  rw [if_pos h12]
  by_cases htype : u16At frame 12 = 0x86dd
  swap
  · have hfail : run frame (filter.drop 1) s = run frame (filter.drop 19) s :=
      run_jeq_neg fun h => htype (by simpa [s] using congrArg (BitVec.setWidth 16) h)
    rw [hfail, if_neg fun h => htype h.etherType]
    exact run_ret
  have hnext : run frame (filter.drop 1) s =
      run frame (.ld .byte .abs 20 :: filter.drop 4) { s with x := 54 } := by
    have hjump : run frame (filter.drop 1) s = run frame (filter.drop 2) s :=
      run_jeq_pos (congrArg (BitVec.setWidth 32) htype)
    exact hjump.trans (run_ldxImm)
  rw [hnext, run_ld_byte (o := 20) rfl]
  by_cases h20 : 20 < frame.length
  swap
  · rw [if_neg h20, if_neg fun h => h20 (by have := hsize h; omega)]
  rw [if_pos h20, run_filter_next frame _ rfl rfl]
  exact congrArg some (if_congr ⟨fun h => ⟨htype, h.2.1, h.1, h.2.2⟩,
    fun h => ⟨h.next, h.size, h.type⟩⟩ rfl rfl)

/-! ## The filter and the daemon -/

section Buffer

variable {frame : List U8}

theorem lastNext_take : lastNext (frame.take bufSize) = lastNext frame := by
  have h20 : (20 : ℕ) < bufSize := by decide
  have h54 : (54 : ℕ) < bufSize := by decide
  rw [lastNext, lastNext, getD_take_bufSize h20, getD_take_bufSize h54]

theorem etherType_take : u16At (frame.take bufSize) 12 = u16At frame 12 := by
  have h12 : (12 : ℕ) < bufSize := by decide
  have h13 : (12 + 1 : ℕ) < bufSize := by decide
  rw [u16At, u16At, getD_take_bufSize h12, getD_take_bufSize h13]

end Buffer

namespace Located

variable {buf : List U8} {i : ℕ}

theorem lastNext_eq (h : Located buf i) : lastNext buf = ipprotoIcmpv6 := by
  rw [lastNext]
  rcases h.next with ⟨hnxt, -⟩ | ⟨hnxt, -, hlast⟩
  · rw [if_neg (by rw [hnxt]; decide), hnxt]
  · rw [if_pos hnxt, hlast]

theorem type_eq (h : Located buf i) : (icmp6At buf i).getD 0 0 = buf.getD (ip6MsgSize + i) 0 := by
  rw [h.icmp6At_eq]
  simp [List.getD]

end Located

theorem dispatch_dispatched_iff (src dst : Addr) (icmp : List U8) (ethSrc : LlAddr) :
    (dispatch src dst icmp ethSrc).Dispatched ↔ icmp.getD 0 0 ∈ handledTypes := by
  simp only [dispatch, handledTypes, List.mem_cons, List.not_mem_nil, or_false]
  split_ifs <;> simp_all [Verdict.Dispatched]

/-- If the message is not missing, only its type matters. -/
theorem filterKeeps_iff {frame : List U8} {i : ℕ} (h : Located (frame.take bufSize) i) :
    FilterKeeps frame ↔ (icmp6At (frame.take bufSize) i).getD 0 0 ∈ handledTypes := by
  have hlt := h.lt_length
  have hoffset : icmp6Offset frame = ip6MsgSize + i :=
    congrArg _ (hopByHopSize_take ▸ h.hopByHopSize_eq)
  have hin : ip6MsgSize + i < bufSize := hlt.trans_le (List.length_take_le ..)
  have htype : (icmp6At (frame.take bufSize) i).getD 0 0 = frame.getD (icmp6Offset frame) 0 := by
    rw [h.type_eq, getD_take_bufSize hin, hoffset]
  rw [htype]
  refine ⟨FilterKeeps.type, fun hmem => ⟨?_, ?_, ?_, hmem⟩⟩
  · exact etherType_take ▸ h.etherType
  · rw [hoffset]
    exact hlt.trans_le (List.length_take_le' ..)
  · exact lastNext_take ▸ h.lastNext_eq

/-- What is dropped by a check that the filter also makes is not kept. -/
theorem FilterKeeps.why {frame : List U8} {why : Drop} (h : FilterKeeps frame)
    (hw : verdict frame = .drop why) :
    why ∈ [Drop.payloadLength, .truncatedHopByHop, .truncatedIcmp6, .checksum, .hopLimit] := by
  have hcase := frameCase (frame.take bufSize)
  have hnext := h.next
  rw [← lastNext_take, lastNext] at hnext
  rw [← verdict, hw] at hcase
  generalize hv : Verdict.drop why = v at hcase
  cases hcase with
  | tooShort hsize =>
    have hlong := (Nat.le_add_right ip6MsgSize (hopByHopSize frame)).trans_lt h.size
    rw [List.length_take, ip6MsgSize, bufSize] at hsize
    rw [ip6MsgSize] at hlong
    omega
  | etherType _ htype => exact absurd (etherType_take.trans h.etherType) htype
  | hopByHopNext _ _ hnxt hlast => exact absurd ((if_pos hnxt).symm.trans hnext) hlast
  | nextHeader _ hhop hnxt => exact absurd ((if_neg hhop).symm.trans hnext) hnxt
  | accepted i hi =>
    have hdispatched := (filterKeeps_iff hi).1 h
    rw [← dispatch_dispatched_iff, ← hv] at hdispatched
    exact hdispatched.elim
  | _ =>
    obtain rfl := Verdict.drop.inj hv
    decide

/-- The filter keeps every frame that gets to a handler. The daemon drops the others
    that it keeps because of a length, the checksum or the hop limit: they are of the
    right type, and have the right headers. -/
theorem filter_agrees (frame : List U8) :
    ((verdict frame).Dispatched → run frame filter {} = some 0xffffffff) ∧
    (run frame filter {} = some 0xffffffff → FilterKeeps frame ∧ ∀ why, verdict frame = .drop why →
      why ∈ [Drop.payloadLength, .truncatedHopByHop, .truncatedIcmp6, .checksum, .hopLimit]) := by
  have hkeeps : run frame filter {} = some 0xffffffff ↔ FilterKeeps frame := by
    rw [run_filter]
    split_ifs with h <;> simp [h]
  rw [hkeeps]
  refine ⟨fun hdispatched => ?_, fun h => ⟨h, fun why => h.why⟩⟩
  have hcase := frameCase (frame.take bufSize)
  rw [← verdict] at hcase
  generalize verdict frame = v at hcase hdispatched
  cases hcase with
  | accepted i hi => exact (filterKeeps_iff hi).2 ((dispatch_dispatched_iff ..).1 hdispatched)
  | _ => exact hdispatched.elim

end Ndppd
