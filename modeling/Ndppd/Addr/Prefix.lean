import Ndppd.Addr

/-!
# Prefixes

What the words and the masks of `addr.c` say of the bits of an address, numbered
in the order of the network, on a host of either byte order: a match is an
agreement on the first bits (`ndAddrMatch_iff`).
-/

namespace Ndppd

/-- Two addresses agree on their first `pflen` bits. -/
def Addr.AgreeOn (pflen : ℕ) (a b : Addr) : Prop := ∀ i < pflen, a.getMsbD i = b.getMsbD i

instance (pflen : ℕ) (a b : Addr) : Decidable (a.AgreeOn pflen b) :=
  inferInstanceAs (Decidable (∀ i < pflen, _))

/-! ## Byte order -/

theorem byteSwap_and (v w : U32) : byteSwap v &&& byteSwap w = byteSwap (v &&& w) := by
  ext i hi
  simp only [byteSwap, BitVec.getElem_and, BitVec.getElem_append, BitVec.getElem_extractLsb']
  grind

theorem byteSwap_xor (v w : U32) : byteSwap v ^^^ byteSwap w = byteSwap (v ^^^ w) := by
  ext i hi
  simp only [byteSwap, BitVec.getElem_xor, BitVec.getElem_append, BitVec.getElem_extractLsb']
  grind

theorem byteSwap_eq_zero {w : U32} : byteSwap w = 0 ↔ w = 0 := by
  have h0 : byteSwap 0 = 0 := by decide
  exact ⟨fun h => byteSwap_injective (h.trans h0.symm), fun h => h ▸ h0⟩

/-- The masks for one byte order are those for the other one, as the host loads them. -/
theorem ndLMask_little (pflen : ℕ) : ndLMask .little pflen = byteSwap (ndLMask .big pflen) := by
  have htable : ∀ k < 32, (ndLMasks .little).getD k 0 = byteSwap ((ndLMasks .big).getD k 0) := by
    decide +kernel
  exact htable _ (Nat.lt_of_le_of_lt Nat.and_le_right (by decide))

/-- The words that a match compares do not depend on the byte order. -/
theorem maskedWord_iff (bo : ByteOrder) (a b : Addr) (i top pflen : ℕ) :
    ((a.u32 bo i ^^^ b.u32 bo i) &&& (if i < top then 0xffffffff else ndLMask bo pflen)) = 0 ↔
      ((a.u32 .big i ^^^ b.u32 .big i) &&&
        (if i < top then 0xffffffff else ndLMask .big pflen)) = 0 := by
  cases bo with
  | big => rfl
  | little =>
    have hones : byteSwap 0xffffffff = 0xffffffff := by decide
    have hmask : (if i < top then 0xffffffff else ndLMask .little pflen) =
        byteSwap (if i < top then 0xffffffff else ndLMask .big pflen) := by
      rw [apply_ite byteSwap, hones, ndLMask_little]
    change ((byteSwap (a.u32 .big i) ^^^ byteSwap (b.u32 .big i)) &&& _) = 0 ↔ _
    rw [hmask, byteSwap_xor, byteSwap_and, byteSwap_eq_zero]

/-! ## Bits -/

theorem Addr.getMsbD_u32 (a : Addr) {i j : ℕ} (hi : i < 4) (hj : j < 32) :
    (a.u32 .big i).getMsbD j = a.getMsbD (32 * i + j) := by
  have hpos : 128 - (32 * (3 - i) + 32 - j) = 32 * i + j := by omega
  have hlow : 32 * (3 - i) + 32 - j ≤ 128 := by omega
  rw [Addr.u32, BitVec.getMsbD_extractLsb', hpos]
  simp [hj, hlow]

/-- The mask of a prefix, in the word where the prefix ends. -/
theorem getMsbD_ndLMask {pflen j : ℕ} (hj : j < 32) :
    (ndLMask .big pflen).getMsbD j = decide (j ≤ (pflen - 1) % 32) := by
  have htable : ∀ k < 32, ∀ j < 32, ((ndLMasks .big).getD k 0).getMsbD j = decide (j ≤ k) := by
    decide +kernel
  have hand : (pflen - 1) &&& 31 = (pflen - 1) % 32 := Nat.and_two_pow_sub_one_eq_mod _ 5
  rw [ndLMask, hand]
  exact htable _ (Nat.mod_lt _ (by decide)) j hj

theorem xor_and_eq_zero_iff {n : ℕ} (v w mask : BitVec n) :
    (v ^^^ w) &&& mask = 0 ↔ ∀ j < n, mask.getMsbD j = true → v.getMsbD j = w.getMsbD j := by
  constructor
  · intro h j _ hm
    have hbit := congrArg (fun x : BitVec n => x.getMsbD j) h
    simpa [BitVec.getMsbD_and, BitVec.getMsbD_xor, hm] using hbit
  · intro h
    refine BitVec.eq_of_getMsbD_eq fun j hj => ?_
    cases hm : mask.getMsbD j with
    | false => simp [BitVec.getMsbD_and, hm]
    | true => simp [BitVec.getMsbD_and, BitVec.getMsbD_xor, hm, h j hj hm]

/-- `nd_addr_match`: the prefix is one of an address, and the addresses agree on it. -/
theorem ndAddrMatch_iff (bo : ByteOrder) (a b : Addr) (pflen : ℕ) :
    ndAddrMatch bo a b pflen = true ↔ pflen ≤ 128 ∧ a.AgreeOn pflen b := by
  by_cases hbig : pflen > 128
  · simp [ndAddrMatch, hbig]
  by_cases h0 : pflen = 0
  · simp [ndAddrMatch, h0, Addr.AgreeOn]
  by_cases hall : pflen = 128
  · subst hall
    rw [ndAddrMatch, if_neg hbig, if_neg h0, if_pos rfl, ndAddrEq_iff]
    exact ⟨fun h => ⟨le_refl _, fun i _ => h ▸ rfl⟩, fun h => BitVec.eq_of_getMsbD_eq h.2⟩
  simp only [ndAddrMatch, hbig, h0, hall, if_false, List.all_eq_true, List.mem_range, beq_iff_eq,
    maskedWord_iff bo, Nat.shiftRight_eq_div_pow]
  simp only [xor_and_eq_zero_iff]
  constructor
  · intro h
    refine ⟨by omega, fun i hi => ?_⟩
    have hword := h (i / 32) (by omega) (i % 32) (Nat.mod_lt _ (by decide)) ?_
    · rwa [Addr.getMsbD_u32 _ (by omega) (Nat.mod_lt _ (by decide)),
        Addr.getMsbD_u32 _ (by omega) (Nat.mod_lt _ (by decide)), Nat.div_add_mod] at hword
    · have hmod : i % 32 < 32 := Nat.mod_lt _ (by decide)
      split_ifs with htop
      · have hones : ∀ j < 32, (0xffffffff : U32).getMsbD j = true := by decide
        exact hones _ hmod
      · rw [getMsbD_ndLMask hmod, decide_eq_true_eq]
        omega
  · rintro ⟨-, h⟩ i hi j hj hmask
    rw [Addr.getMsbD_u32 _ (by omega) hj, Addr.getMsbD_u32 _ (by omega) hj]
    refine h _ ?_
    split_ifs at hmask with htop
    · omega
    · rw [getMsbD_ndLMask hj, decide_eq_true_eq] at hmask
      omega

end Ndppd
