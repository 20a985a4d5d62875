import Ndppd.Addr.Prefix
import Ndppd.Types

/-!
# Masks and rewriting

What the functions of `addr.c` that build an address do to its bits, numbered in the
order of the network, on a host of either byte order: a mask has the first bits set
(`getMsbD_ndMaskFromPflen`), and a combination has the first bits of one address and the
others of another one (`getMsbD_ndAddrCombine`).

Rewriting a target keeps what the prefix of the rule does not fix, so that it can be
undone (`ndAddrCombine_injOn`).
-/

namespace Ndppd

/-! ## Words -/

theorem byteSwap_or (v w : U32) : byteSwap v ||| byteSwap w = byteSwap (v ||| w) := by
  ext i hi
  simp only [byteSwap, BitVec.getElem_or, BitVec.getElem_append, BitVec.getElem_extractLsb']
  grind

theorem byteSwap_not (w : U32) : ~~~byteSwap w = byteSwap (~~~w) := by
  ext i hi
  simp only [byteSwap, BitVec.getElem_not, BitVec.getElem_append, BitVec.getElem_extractLsb']
  grind

/-- The bits of the words that are stored are those of the address. -/
theorem Addr.getMsbD_ofU32 (w : ℕ → U32) {i : ℕ} (hi : i < 128) :
    (Addr.ofU32 .big w).getMsbD i = (w (i / 32)).getMsbD (i % 32) := by
  obtain hw | hw | hw | hw : i / 32 = 0 ∨ i / 32 = 1 ∨ i / 32 = 2 ∨ i / 32 = 3 := by omega
  all_goals
    simp only [Addr.ofU32, BitVec.getMsbD_append, hw]
    grind

/-- A host loads the words that it stored. -/
theorem Addr.u32_ofU32 (bo : ByteOrder) (w : ℕ → U32) {i : ℕ} (hi : i < 4) :
    (Addr.ofU32 bo w).u32 bo i = w i := by
  have hbig (w : ℕ → U32) : (Addr.ofU32 .big w).u32 .big i = w i := by
    refine BitVec.eq_of_getMsbD_eq fun j hj => ?_
    have hmod : (32 * i + j) % 32 = j := by omega
    have hdiv : (32 * i + j) / 32 = i := by omega
    rw [Addr.getMsbD_u32 _ hi hj, Addr.getMsbD_ofU32 w (by omega), hmod, hdiv]
  cases bo with
  | big => exact hbig w
  | little =>
    have hswap := hbig fun i => byteSwap (w i)
    change byteSwap ((Addr.ofU32 .big fun i => byteSwap (w i)).u32 .big i) = w i
    rw [hswap, byteSwap_byteSwap]

/-- Words that a host of the other byte order would load alike. -/
theorem Addr.ofU32_little {v w : ℕ → U32} (h : ∀ i, w i = byteSwap (v i)) :
    Addr.ofU32 .little w = Addr.ofU32 .big v := by
  simp only [Addr.ofU32, h, byteSwap_byteSwap]

/-! ## Byte order -/

theorem ndMaskFromPflen_little (pflen : ℕ) :
    ndMaskFromPflen .little pflen = ndMaskFromPflen .big pflen := by
  have hones : byteSwap 0xffffffff = 0xffffffff := by decide
  have hzero : byteSwap 0 = 0 := by decide
  unfold ndMaskFromPflen
  split_ifs with h0 hall
  · rfl
  · rfl
  · refine Addr.ofU32_little fun i => ?_
    rw [apply_ite byteSwap, apply_ite byteSwap, ndLMask_little, hones, hzero]

theorem ndAddrCombine_little (a b : Addr) (pflen : ℕ) :
    ndAddrCombine .little a b pflen = ndAddrCombine .big a b pflen := by
  unfold ndAddrCombine
  split_ifs with h0 hall
  · rfl
  · rfl
  · refine Addr.ofU32_little fun i => ?_
    have hword (c : Addr) : c.u32 .little i = byteSwap (c.u32 .big i) := rfl
    simp only [apply_ite byteSwap, ndLMask_little, hword, byteSwap_not, byteSwap_and, byteSwap_or]

/-! ## Bits -/

/-- The mask of a prefix has the bits of the prefix. -/
theorem getMsbD_ndMaskFromPflen (bo : ByteOrder) (pflen : ℕ) {i : ℕ} (hi : i < 128) :
    (ndMaskFromPflen bo pflen).getMsbD i = decide (i < pflen) := by
  have hbo : ndMaskFromPflen bo pflen = ndMaskFromPflen .big pflen := by
    cases bo with
    | big => rfl
    | little => exact ndMaskFromPflen_little pflen
  rw [hbo, ndMaskFromPflen]
  have hj : i % 32 < 32 := Nat.mod_lt _ (by decide)
  have hones : ∀ j < 32, (0xffffffff : U32).getMsbD j = true := by decide
  split_ifs with h0 hall
  · simp [h0]
  · rw [BitVec.getMsbD_allOnes, decide_eq_decide]
    omega
  rw [Addr.getMsbD_ofU32 _ hi, Nat.shiftRight_eq_div_pow]
  split_ifs with htop hlow
  · rw [getMsbD_ndLMask hj, decide_eq_decide]
    omega
  · rw [hones _ hj, eq_comm, decide_eq_true_eq]
    omega
  · have hlt : ¬i < pflen := by omega
    simp [hlt]

/-- `nd_addr_combine`: the first bits of one address, and the others of the other one. -/
theorem getMsbD_ndAddrCombine (bo : ByteOrder) (a b : Addr) (pflen : ℕ) {i : ℕ} (hi : i < 128) :
    (ndAddrCombine bo a b pflen).getMsbD i = if i < pflen then a.getMsbD i else b.getMsbD i := by
  have hbo : ndAddrCombine bo a b pflen = ndAddrCombine .big a b pflen := by
    cases bo with
    | big => rfl
    | little => exact ndAddrCombine_little a b pflen
  rw [hbo, ndAddrCombine]
  by_cases h0 : pflen = 0
  · rw [if_pos h0, if_neg (by omega)]
  by_cases hall : pflen ≥ 128
  · rw [if_neg h0, if_pos hall, if_pos (by omega)]
  have hj : i % 32 < 32 := Nat.mod_lt _ (by decide)
  have hword (c : Addr) : (c.u32 .big (i / 32)).getMsbD (i % 32) = c.getMsbD i := by
    rw [Addr.getMsbD_u32 _ (by omega) hj, Nat.div_add_mod]
  rw [if_neg h0, if_neg hall, Addr.getMsbD_ofU32 _ hi, Nat.shiftRight_eq_div_pow]
  by_cases htop : i / 32 = (pflen - 1) / 2 ^ 5
  · -- The word where the prefix ends.
    have hmask : (ndLMask .big pflen).getMsbD (i % 32) = decide (i < pflen) := by
      rw [getMsbD_ndLMask hj, decide_eq_decide]
      omega
    rw [if_pos htop]
    simp only [BitVec.getMsbD_or, BitVec.getMsbD_and, BitVec.getMsbD_not, hword, hmask, hj]
    by_cases hlt : i < pflen
    · simp [hlt]
    · simp [hlt]
  · rw [if_neg htop, apply_ite (fun v : U32 => v.getMsbD (i % 32)), hword, hword]
    exact if_congr (by omega) rfl rfl

/-- A match is an agreement under the mask of the prefix. -/
theorem agreeOn_iff_masked (bo : ByteOrder) (a b : Addr) {pflen : ℕ} (h : pflen ≤ 128) :
    a.AgreeOn pflen b ↔ (a ^^^ b) &&& ndMaskFromPflen bo pflen = 0 := by
  rw [xor_and_eq_zero_iff]
  constructor
  · intro hab i hi hmask
    rw [getMsbD_ndMaskFromPflen bo pflen hi, decide_eq_true_eq] at hmask
    exact hab i hmask
  · intro hab i hi
    refine hab i (by omega) ?_
    rw [getMsbD_ndMaskFromPflen bo pflen (by omega), decide_eq_true_eq]
    exact hi

/-- Rewriting can be undone: the bits it replaces are those that the rule fixes. -/
theorem ndAddrCombine_injOn (bo : ByteOrder) (rule : Rule) {t₁ t₂ : Addr}
    (h₁ : ndAddrMatch bo rule.addr t₁ rule.pflen = true)
    (h₂ : ndAddrMatch bo rule.addr t₂ rule.pflen = true) (hle : rule.rewritePflen ≤ rule.pflen)
    (heq : ndAddrCombine bo rule.rewriteTgt t₁ rule.rewritePflen =
      ndAddrCombine bo rule.rewriteTgt t₂ rule.rewritePflen) : t₁ = t₂ := by
  rw [ndAddrMatch_iff] at h₁ h₂
  refine BitVec.eq_of_getMsbD_eq fun i hi => ?_
  by_cases hin : i < rule.pflen
  · exact (h₁.2 i hin).symm.trans (h₂.2 i hin)
  · have hbit := congrArg (fun a : Addr => a.getMsbD i) heq
    simp only [getMsbD_ndAddrCombine bo _ _ _ hi] at hbit
    rwa [if_neg (by omega), if_neg (by omega)] at hbit

/-! ## Lengths -/

/-- The number of bits of the words of a mask. -/
theorem ndLCountBits_ndLMask (bo : ByteOrder) (pflen : ℕ) :
    (ndLCountBits (ndLMask bo pflen)).toNat = (pflen - 1) % 32 + 1 := by
  have htable : ∀ k < 32, (ndLCountBits ((ndLMasks bo).getD k 0)).toNat = k + 1 := by
    cases bo <;> decide +kernel
  have hand : (pflen - 1) &&& 31 = (pflen - 1) % 32 := Nat.and_two_pow_sub_one_eq_mod _ 5
  rw [ndLMask, hand]
  exact htable _ (Nat.mod_lt _ (by decide))

/-- The length of a prefix can be read off its mask. -/
theorem ndMaskToPflen_ndMaskFromPflen (bo : ByteOrder) {pflen : ℕ} (h : pflen ≤ 128) :
    ndMaskToPflen bo (ndMaskFromPflen bo pflen) = pflen := by
  have hones : (ndLCountBits 0xffffffff).toNat = 32 := by decide
  have hzero : (ndLCountBits 0).toNat = 0 := by decide
  rw [ndMaskFromPflen]
  by_cases h0 : pflen = 0
  · rw [if_pos h0, h0]
    cases bo <;> decide
  by_cases hall : pflen ≥ 128
  · rw [if_neg h0, if_pos hall, show pflen = 128 by omega]
    cases bo <;> decide
  have hcount (i : ℕ) : (ndLCountBits (if i = (pflen - 1) / 2 ^ 5 then ndLMask bo pflen
      else if i < (pflen - 1) / 2 ^ 5 then 0xffffffff else 0)).toNat =
      if i = (pflen - 1) / 2 ^ 5 then (pflen - 1) % 32 + 1
      else if i < (pflen - 1) / 2 ^ 5 then 32 else 0 := by
    split_ifs
    exacts [ndLCountBits_ndLMask bo pflen, hones, hzero]
  rw [if_neg h0, if_neg hall, ndMaskToPflen, Addr.u32_ofU32 bo _ (by decide),
    Addr.u32_ofU32 bo _ (by decide), Addr.u32_ofU32 bo _ (by decide),
    Addr.u32_ofU32 bo _ (by decide), Nat.shiftRight_eq_div_pow, hcount, hcount, hcount, hcount]
  obtain htop | htop | htop | htop : (pflen - 1) / 2 ^ 5 = 0 ∨ (pflen - 1) / 2 ^ 5 = 1 ∨
      (pflen - 1) / 2 ^ 5 = 2 ∨ (pflen - 1) / 2 ^ 5 = 3 := by omega
  all_goals
    rw [htop]
    simp only [Nat.reduceEqDiff, Nat.reduceLT, if_true, if_false]
    omega

/-- The functions of `addr.c` agree on what a prefix is, bit for bit. -/
theorem prefix_bitwise (bo : ByteOrder) (a b : Addr) {pflen : ℕ} (h : pflen ≤ 128) :
    (ndAddrMatch bo a b pflen = true ↔ a.AgreeOn pflen b) ∧
      (ndAddrMatch bo a b pflen = true ↔ (a ^^^ b) &&& ndMaskFromPflen bo pflen = 0) ∧
      (∀ i < 128, (ndAddrCombine bo a b pflen).getMsbD i =
        if i < pflen then a.getMsbD i else b.getMsbD i) ∧
      ndMaskToPflen bo (ndMaskFromPflen bo pflen) = pflen ∧
      ∀ (rule : Rule) (t₁ t₂ : Addr), ndAddrMatch bo rule.addr t₁ rule.pflen = true →
        ndAddrMatch bo rule.addr t₂ rule.pflen = true → rule.rewritePflen ≤ rule.pflen →
        ndAddrCombine bo rule.rewriteTgt t₁ rule.rewritePflen =
          ndAddrCombine bo rule.rewriteTgt t₂ rule.rewritePflen → t₁ = t₂ := by
  have hmatch : ndAddrMatch bo a b pflen = true ↔ a.AgreeOn pflen b := by
    rw [ndAddrMatch_iff, and_iff_right h]
  exact ⟨hmatch, hmatch.trans (agreeOn_iff_masked bo a b h),
    fun i hi => getMsbD_ndAddrCombine bo a b pflen hi, ndMaskToPflen_ndMaskFromPflen bo h,
    fun rule t₁ t₂ h₁ h₂ hle => ndAddrCombine_injOn bo rule h₁ h₂ hle⟩

/-- `2001:db8::1` and `2001:db8::2` agree on their first 64 bits. -/
theorem Small.prefix_bitwise_64 :
    64 ≤ 128 ∧ ndAddrMatch .little 0x20010db8000000000000000000000001
      0x20010db8000000000000000000000002 64 = true :=
  ⟨by decide, (prefix_bitwise .little _ _ (by decide)).1.2 (by decide +kernel)⟩

end Ndppd
