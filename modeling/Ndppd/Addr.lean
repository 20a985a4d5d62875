import Mathlib.Data.Fintype.Basic

/-!
# Addresses

IPv6 and link-layer addresses (`addr.c`). An address is the sequence of its
bytes in memory, hence of its bits in network order: `Addr` is a bit vector
whose most significant bit is the first bit on the wire. The source reads it
through a union, as bytes or as four words in the byte order of the host
(`Addr.u32`), and indexes a table of masks, of which there is one per byte
order (`ndLMasks`).
-/

namespace Ndppd

abbrev U8 := BitVec 8
abbrev U32 := BitVec 32

/-- The byte order of the host (`__BYTE_ORDER__`). -/
inductive ByteOrder
  | big
  | little
  deriving DecidableEq, Repr

/-- `nd_addr_t`: sixteen bytes, the first one the most significant. -/
abbrev Addr := BitVec 128

/-- `nd_lladdr_t`: six bytes, the first one the most significant. -/
abbrev LlAddr := BitVec 48

/-- The byte `i` of an address. -/
def Addr.u8 (a : Addr) (i : ℕ) : U8 := a.extractLsb' (8 * (15 - i)) 8

/-- The four bytes of a word, in the opposite order. -/
def byteSwap (w : U32) : U32 :=
  w.extractLsb' 0 8 ++ w.extractLsb' 8 8 ++ w.extractLsb' 16 8 ++ w.extractLsb' 24 8

/-- The word `i` of an address, as the host loads it. -/
def Addr.u32 (bo : ByteOrder) (a : Addr) (i : ℕ) : U32 :=
  match bo with
  | .big => a.extractLsb' (32 * (3 - i)) 32
  | .little => byteSwap (a.extractLsb' (32 * (3 - i)) 32)

/-- The address whose words the host stores as `w`. -/
def Addr.ofU32 (bo : ByteOrder) (w : ℕ → U32) : Addr :=
  match bo with
  | .big => w 0 ++ w 1 ++ w 2 ++ w 3
  | .little => byteSwap (w 0) ++ byteSwap (w 1) ++ byteSwap (w 2) ++ byteSwap (w 3)

/-- `nd_addr_is_multicast`: the first byte decides. -/
def ndAddrIsMulticast (a : Addr) : Bool := a.u8 0 == 0xff

/-- `ndL_masks`: the masks of the first `i + 1` bits of a word. -/
def ndLMasks : ByteOrder → List U32
  | .big => [
    0x80000000, 0xc0000000, 0xe0000000, 0xf0000000, 0xf8000000, 0xfc000000, 0xfe000000, 0xff000000,
    0xff800000, 0xffc00000, 0xffe00000, 0xfff00000, 0xfff80000, 0xfffc0000, 0xfffe0000, 0xffff0000,
    0xffff8000, 0xffffc000, 0xffffe000, 0xfffff000, 0xfffff800, 0xfffffc00, 0xfffffe00, 0xffffff00,
    0xffffff80, 0xffffffc0, 0xffffffe0, 0xfffffff0, 0xfffffff8, 0xfffffffc, 0xfffffffe, 0xffffffff]
  | .little => [
    0x00000080, 0x000000c0, 0x000000e0, 0x000000f0, 0x000000f8, 0x000000fc, 0x000000fe, 0x000000ff,
    0x000080ff, 0x0000c0ff, 0x0000e0ff, 0x0000f0ff, 0x0000f8ff, 0x0000fcff, 0x0000feff, 0x0000ffff,
    0x0080ffff, 0x00c0ffff, 0x00e0ffff, 0x00f0ffff, 0x00f8ffff, 0x00fcffff, 0x00feffff, 0x00ffffff,
    0x80ffffff, 0xc0ffffff, 0xe0ffffff, 0xf0ffffff, 0xf8ffffff, 0xfcffffff, 0xfeffffff, 0xffffffff]

/-- `ndL_masks[(pflen - 1) & 31]`. -/
def ndLMask (bo : ByteOrder) (pflen : ℕ) : U32 := (ndLMasks bo).getD ((pflen - 1) &&& 31) 0

/-- `nd_addr_eq`: the four words are compared as the host stores them. -/
def ndAddrEq (bo : ByteOrder) (first second : Addr) : Bool :=
  first.u32 bo 0 == second.u32 bo 0 && first.u32 bo 1 == second.u32 bo 1 &&
    first.u32 bo 2 == second.u32 bo 2 && first.u32 bo 3 == second.u32 bo 3

/-- `nd_addr_match`: the words before the last one of the prefix as a whole, and that one under
    its mask. A longer prefix matches nothing. -/
def ndAddrMatch (bo : ByteOrder) (first second : Addr) (pflen : ℕ) : Bool :=
  if pflen > 128 then false
  else if pflen = 0 then true
  else if pflen = 128 then ndAddrEq bo first second
  else
    let top := (pflen - 1) >>> 5
    (List.range (top + 1)).all fun i =>
      let mask := if i < top then 0xffffffff else ndLMask bo pflen
      (first.u32 bo i ^^^ second.u32 bo i) &&& mask == 0

/-- `nd_addr_combine`: the prefix of the first, and the rest of the second. -/
def ndAddrCombine (bo : ByteOrder) (first second : Addr) (pflen : ℕ) : Addr :=
  if pflen = 0 then second
  else if pflen ≥ 128 then first
  else
    let top := (pflen - 1) >>> 5
    Addr.ofU32 bo fun i =>
      if i = top then
        let mask := ndLMask bo pflen
        (first.u32 bo i &&& mask) ||| (second.u32 bo i &&& ~~~mask)
      else if i < top then first.u32 bo i
      else second.u32 bo i

/-- `ndL_count_bits`: pairs, nibbles, bytes and halves are added up in turn. -/
def ndLCountBits (value : U32) : U32 :=
  let value := (value &&& 0x55555555) + ((value >>> 1) &&& 0x55555555)
  let value := (value &&& 0x33333333) + ((value >>> 2) &&& 0x33333333)
  let value := (value &&& 0x0f0f0f0f) + ((value >>> 4) &&& 0x0f0f0f0f)
  let value := (value &&& 0x00ff00ff) + ((value >>> 8) &&& 0x00ff00ff)
  (value &&& 0x0000ffff) + ((value >>> 16) &&& 0x0000ffff)

/-- `nd_mask_to_pflen`: the bits are counted, wherever they are. -/
def ndMaskToPflen (bo : ByteOrder) (netmask : Addr) : ℕ :=
  (ndLCountBits (netmask.u32 bo 0)).toNat + (ndLCountBits (netmask.u32 bo 1)).toNat +
    (ndLCountBits (netmask.u32 bo 2)).toNat + (ndLCountBits (netmask.u32 bo 3)).toNat

/-- `nd_mask_from_pflen` -/
def ndMaskFromPflen (bo : ByteOrder) (pflen : ℕ) : Addr :=
  if pflen = 0 then 0
  else if pflen ≥ 128 then BitVec.allOnes 128
  else
    let top := (pflen - 1) >>> 5
    Addr.ofU32 bo fun i =>
      if i = top then ndLMask bo pflen
      else if i < top then 0xffffffff
      else 0

/-- `nd_addr_hash`, once `ndL_hash_seed` has been drawn. -/
def ndAddrHash (bo : ByteOrder) (seed : U32) (a : Addr) : U32 :=
  let hash := 31 * seed + a.u32 bo 0
  let hash := 31 * hash + a.u32 bo 1
  let hash := 31 * hash + a.u32 bo 2
  31 * hash + a.u32 bo 3

def ndAddrIsUnspecified (bo : ByteOrder) (a : Addr) : Bool :=
  a.u32 bo 0 == 0 && a.u32 bo 1 == 0 && a.u32 bo 2 == 0 && a.u32 bo 3 == 0

def ndLladdrEq (first second : LlAddr) : Bool := first == second

def ndLladdrIsUnspecified (lladdr : LlAddr) : Bool := lladdr == 0

/-! ## Words -/

theorem byteSwap_byteSwap (w : U32) : byteSwap (byteSwap w) = w := by
  rw [byteSwap, byteSwap]
  ext i hi
  simp only [BitVec.getElem_append, BitVec.getElem_extractLsb', BitVec.getLsbD_append,
    BitVec.getLsbD_extractLsb']
  grind

/-- The order of the bytes does not matter to an equality. -/
theorem byteSwap_injective {v w : U32} (h : byteSwap v = byteSwap w) : v = w := by
  rw [← byteSwap_byteSwap v, h, byteSwap_byteSwap]

/-- An address is its four words. -/
theorem Addr.ext_u32 (bo : ByteOrder) {a b : Addr} (h : ∀ i < 4, a.u32 bo i = b.u32 bo i) :
    a = b := by
  have hw : ∀ i < 4, a.extractLsb' (32 * (3 - i)) 32 = b.extractLsb' (32 * (3 - i)) 32 := by
    intro i hi
    cases bo with
    | big => exact h i hi
    | little => exact byteSwap_injective (h i hi)
  apply BitVec.eq_of_getLsbD_eq
  intro j hj
  have := congrArg (fun v : U32 => v.getLsbD (j % 32)) (hw (3 - j / 32) (by omega))
  simpa [BitVec.getLsbD_extractLsb', Nat.mod_lt, show 32 * (3 - (3 - j / 32)) + j % 32 = j by omega]
    using this

/-- Words that are equal in either order are equal addresses. -/
theorem ndAddrEq_iff (bo : ByteOrder) {a b : Addr} : ndAddrEq bo a b = true ↔ a = b := by
  constructor
  · intro h
    simp only [ndAddrEq, Bool.and_eq_true, beq_iff_eq] at h
    obtain ⟨⟨⟨h₀, h₁⟩, h₂⟩, h₃⟩ := h
    refine Addr.ext_u32 bo fun i hi => ?_
    obtain rfl | rfl | rfl | rfl : i = 0 ∨ i = 1 ∨ i = 2 ∨ i = 3 := by omega
    exacts [h₀, h₁, h₂, h₃]
  · rintro rfl
    simp [ndAddrEq]

theorem ndAddrIsUnspecified_iff (bo : ByteOrder) {a : Addr} :
    ndAddrIsUnspecified bo a = true ↔ a = 0 := by
  have h0 : ∀ i, (0 : Addr).u32 bo i = 0 := fun i => by
    cases bo <;> simp [Addr.u32, byteSwap]
  rw [← ndAddrEq_iff bo]
  simp only [ndAddrIsUnspecified, ndAddrEq, h0]

end Ndppd
