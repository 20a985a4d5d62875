import Ndppd.Frame

/-!
# Checksums

The checksum that the daemon computes, and the Internet checksum, which is the
complement of the ones' complement sum of the words of the message, padded with a
zero byte. The daemon adds the last byte of a message of odd length to the low
byte of the sum, instead of the high one: its checksum is the right one iff the
length is even, or that byte is zero (`icmp6Checksum_correct_iff`). The sum itself
never leaves the range that the loop folds (`folds_of_mem_icmp6Rounds`).
-/

namespace Ndppd

open OnesComplement

/-- The words of a message, padded with a zero byte. -/
def words : List U8 → List ℕ
  | [] => []
  | [x] => [256 * x.toNat]
  | x :: y :: data => (256 * x.toNat + y.toNat) :: words data

/-- The words that the daemon adds. -/
def addedWords : List U8 → List ℕ
  | [] => []
  | [x] => [x.toNat]
  | x :: y :: data => (256 * x.toNat + y.toNat) :: addedWords data

/-- The checksum of an ICMPv6 message: its own checksum counts for zero. -/
def internetChecksum (src dst : Addr) (icmp : List U8) : U16 :=
  ~~~.ofNat 16 (sum 0xffff 0 (words (pseudoHeader src dst icmp.length ++ (icmp.set 2 0).set 3 0)))

/-! ## Sums -/

theorem toNat_append_byte (x y : U8) : (x ++ y).toNat = 256 * x.toNat + y.toNat := by
  rw [BitVec.toNat_append, ← Nat.shiftLeft_add_eq_or_of_lt y.isLt, Nat.shiftLeft_eq]
  omega

theorem toNat_foldSum {s w : U32} (hs : s.toNat ≤ 0xffff) (hw : w.toNat ≤ 0xffff) :
    (foldSum (s + w)).toNat = add 0xffff s.toNat w.toNat := by
  have hsum : (s + w).toNat = s.toNat + w.toNat := by
    rw [BitVec.toNat_add]
    omega
  have hmax : (0xffff : U32).toNat = 0xffff := rfl
  rw [foldSum, add, ← hsum]
  by_cases h : (s + w).toNat > 0xffff
  · have hgt : s + w > 0xffff := BitVec.lt_def.2 (hmax ▸ h)
    rw [if_pos hgt, if_pos h, BitVec.toNat_sub_of_le (BitVec.le_of_lt hgt), hmax]
  · have hle : ¬s + w > 0xffff := fun hgt => h (hmax ▸ BitVec.lt_def.1 hgt)
    rw [if_neg hle, if_neg h]

/-- What a round adds. -/
theorem toNat_addend_byte (x : U8) : (x.setWidth 32 : U32).toNat = x.toNat := by
  rw [BitVec.toNat_setWidth]
  omega

theorem toNat_addend_word (x y : U8) :
    ((x ++ y).setWidth 32 : U32).toNat = 256 * x.toNat + y.toNat := by
  rw [BitVec.toNat_setWidth, toNat_append_byte]
  omega

/-- The loop of `ndL_calculate_checksum` is a ones' complement sum: no step
    overflows, and one subtraction is enough. -/
theorem toNat_ndLCalculateChecksum {s : U32} (hs : s.toNat ≤ 0xffff) (data : List U8) :
    (ndLCalculateChecksum s data).toNat = sum 0xffff s.toNat (addedWords data) := by
  have htrunc (t : U32) (ht : t.toNat ≤ 0xffff) : (t.setWidth 16).toNat = t.toNat := by
    rw [BitVec.toNat_setWidth]
    omega
  fun_induction ndLCalculateChecksum s data with
  | case1 s => exact htrunc s hs
  | case2 s x =>
    have hfold := toNat_foldSum hs (w := x.setWidth 32) (by rw [toNat_addend_byte]; omega)
    rw [toNat_addend_byte] at hfold
    rw [htrunc _ (hfold ▸ add_le hs (by omega)), hfold]
    rfl
  | case3 s x y data ih =>
    have hfold := toNat_foldSum hs (w := (x ++ y).setWidth 32)
      (by rw [toNat_addend_word]; omega)
    rw [toNat_addend_word] at hfold
    rw [ih (hfold ▸ add_le hs (by omega)), hfold]
    rfl

/-! ## Rounds -/

/-- The rounds of the loop of `ndL_calculate_checksum`: the sum so far, and what is
    added to it. -/
def rounds (sum : U32) : List U8 → List (U32 × U32)
  | [] => []
  | [x] => [(sum, x.setWidth 32)]
  | x :: y :: data =>
    (sum, (x ++ y).setWidth 32) :: rounds (foldSum (sum + (x ++ y).setWidth 32)) data

/-- A round stays in the range that one subtraction folds. -/
structure Folds (r : U32 × U32) : Prop where
  le : r.1.toNat + r.2.toNat ≤ 2 * 0xffff
  toNat_add : (r.1 + r.2).toNat = r.1.toNat + r.2.toNat
  folded : (foldSum (r.1 + r.2)).toNat ≤ 0xffff

theorem Folds.of_le {s w : U32} (hs : s.toNat ≤ 0xffff) (hw : w.toNat ≤ 0xffff) :
    Folds (s, w) where
  le := by
    change s.toNat + w.toNat ≤ _
    omega
  toNat_add := by
    change (s + w).toNat = s.toNat + w.toNat
    rw [BitVec.toNat_add]
    omega
  folded := toNat_foldSum hs hw ▸ add_le hs hw

theorem folds_of_mem_rounds {s : U32} (hs : s.toNat ≤ 0xffff) {data : List U8} :
    ∀ r ∈ rounds s data, Folds r := by
  fun_induction rounds s data with
  | case1 s => simp
  | case2 s x =>
    rw [List.forall_mem_singleton]
    exact .of_le hs (by rw [toNat_addend_byte]; omega)
  | case3 s x y data ih =>
    have hround : Folds (s, (x ++ y).setWidth 32) :=
      .of_le hs (by rw [toNat_addend_word]; omega)
    exact List.forall_mem_cons.2 ⟨hround, ih hround.folded⟩

/-! ## Words -/

variable {data rest : List U8} {x : U8}

theorem words_append (h : data.length % 2 = 0) (rest : List U8) :
    words (data ++ rest) = words data ++ words rest := by
  fun_induction words data with
  | case1 => rfl
  | case2 x => simp at h
  | case3 x y data ih =>
    rw [List.length_cons, List.length_cons] at h
    exact congrArg _ (ih (by omega))

theorem addedWords_append (h : data.length % 2 = 0) (rest : List U8) :
    addedWords (data ++ rest) = words data ++ addedWords rest := by
  fun_induction words data with
  | case1 => rfl
  | case2 x => simp at h
  | case3 x y data ih =>
    rw [List.length_cons, List.length_cons] at h
    exact congrArg _ (ih (by omega))

theorem words_le : ∀ w ∈ words data, w ≤ 0xffff := by
  fun_induction words data with
  | case1 => simp
  | case2 x => simp only [List.mem_singleton, forall_eq]; omega
  | case3 x y data ih => exact List.forall_mem_cons.2 ⟨by omega, ih⟩

theorem addedWords_le : ∀ w ∈ addedWords data, w ≤ 0xffff := by
  fun_induction addedWords data with
  | case1 => simp
  | case2 x => simp only [List.mem_singleton, forall_eq]; omega
  | case3 x y data ih => exact List.forall_mem_cons.2 ⟨by omega, ih⟩

/-- The words that are added have the right sum iff the last byte is not added on the
    wrong side. -/
theorem addedWords_modEq_iff (data : List U8) :
    (addedWords data).sum ≡ (words data).sum [MOD 0xffff] ↔
      data.length % 2 = 0 ∨ data.getLast? = some 0 := by
  by_cases heven : data.length % 2 = 0
  · have heq := addedWords_append heven []
    rw [List.append_nil, addedWords, List.append_nil] at heq
    rw [heq]
    exact iff_of_true rfl (.inl heven)
  · obtain ⟨init, x, rfl⟩ := data.eq_nil_or_concat'.resolve_left (by rintro rfl; simp at heven)
    have hinit : init.length % 2 = 0 := by
      rw [List.length_append, List.length_singleton] at heven
      omega
    rw [addedWords_append hinit, words_append hinit, List.sum_append, List.sum_append,
      List.getLast?_concat, or_iff_right heven, Option.some_inj]
    constructor
    · intro h
      have hlast : x.toNat ≡ 256 * x.toNat [MOD 0xffff] := by
        simpa [addedWords, words] using h.add_left_cancel' _
      have hx : x.toNat = 0 := by
        rw [Nat.ModEq] at hlast
        omega
      exact BitVec.eq_of_toNat_eq hx
    · rintro rfl
      rfl

/-! ## The checksum of a message -/

theorem length_pseudoHeader (src dst : Addr) (size : ℕ) :
    (pseudoHeader src dst size).length = 40 := by
  simp [pseudoHeader, Addr.bytes, u32Bytes]

/-- Only the first eight bytes of a message are copied, without the checksum. -/
theorem zeroed_eq {icmp : List U8} (h : 8 ≤ icmp.length) :
    (icmp.set 2 0).set 3 0 = icmp6Hdr icmp ++ icmp.drop 8 := by
  match icmp, h with
  | a :: b :: c :: d :: rest, h =>
    have hrest : rest.take 4 ++ rest.drop 4 = rest := List.take_append_drop ..
    simp [icmp6Hdr, hrest]

theorem length_icmp6Hdr {icmp : List U8} (h : 8 ≤ icmp.length) : (icmp6Hdr icmp).length = 8 := by
  rw [icmp6Hdr]
  simp only [List.length_append, List.length_take, List.length_drop, List.length_cons,
    List.length_nil]
  omega

/-- A word of the pseudo-header is the number of the protocol. -/
theorem exists_pos_mem_words (src dst : Addr) (size : ℕ) (rest : List U8) :
    ∃ w ∈ words (pseudoHeader src dst size ++ rest), 0 < w := by
  rw [words_append (by rw [length_pseudoHeader])]
  refine ⟨58, List.mem_append_left _ ?_, by decide⟩
  have hsplit : pseudoHeader src dst size =
      (src.bytes ++ dst.bytes ++ u32Bytes (.ofNat 32 size) ++ [0, 0]) ++ [0, ipprotoIcmpv6] := by
    simp [pseudoHeader]
  rw [hsplit, words_append (by simp [Addr.bytes, u32Bytes])]
  exact List.mem_append_right _ (by decide)

/-- The checksum that the daemon computes, as a sum over the whole message. -/
theorem ndLCalculateIcmp6Checksum_eq {icmp : List U8} (h : 8 ≤ icmp.length) (src dst : Addr) :
    ndLCalculateIcmp6Checksum src dst icmp = ~~~.ofNat 16 (sum 0xffff 0xffff
      (addedWords (pseudoHeader src dst icmp.length ++ (icmp.set 2 0).set 3 0))) := by
  let hdr := pseudoHeader src dst icmp.length ++ icmp6Hdr icmp
  have hhdr : hdr.length % 2 = 0 := by
    rw [List.length_append, length_pseudoHeader, length_icmp6Hdr h]
  have hfirst : (ndLCalculateChecksum 0xffff hdr).toNat = sum 0xffff 0xffff (words hdr) := by
    have heq := addedWords_append hhdr []
    rw [List.append_nil, addedWords, List.append_nil] at heq
    rw [toNat_ndLCalculateChecksum (by decide), heq]
    rfl
  have hwide : ((ndLCalculateChecksum 0xffff hdr).setWidth 32 : U32).toNat =
      sum 0xffff 0xffff (words hdr) := by
    rw [← hfirst, BitVec.toNat_setWidth]
    omega
  have hle : sum 0xffff 0xffff (words hdr) ≤ 0xffff := sum_le (le_refl _) words_le
  rw [zeroed_eq h, ← List.append_assoc, addedWords_append hhdr, sum_append,
    ndLCalculateIcmp6Checksum]
  congr 1
  apply BitVec.eq_of_toNat_eq
  rw [toNat_ndLCalculateChecksum (hwide ▸ hle), hwide, BitVec.toNat_ofNat, Nat.mod_eq_of_lt]
  exact Nat.lt_succ_of_le (sum_le hle addedWords_le)

theorem not_ofNat_inj {a b : ℕ} (ha : a ≤ 0xffff) (hb : b ≤ 0xffff) :
    ~~~BitVec.ofNat 16 a = ~~~BitVec.ofNat 16 b ↔ a = b := by
  constructor
  · intro h
    have hnat := congrArg (fun v : U16 => (~~~v).toNat) h
    simp only [BitVec.not_not, BitVec.toNat_ofNat] at hnat
    omega
  · rintro rfl
    rfl

theorem getLast?_zeroed {icmp : List U8} (h : 8 ≤ icmp.length) :
    ((icmp.set 2 0).set 3 0).getLast? = icmp.getLast? := by
  have h2 : 2 ≠ icmp.length - 1 := by omega
  have h3 : 3 ≠ icmp.length - 1 := by omega
  rw [List.getLast?_eq_getElem?, List.getLast?_eq_getElem?, List.length_set, List.length_set,
    List.getElem?_set_ne h3, List.getElem?_set_ne h2]

/-- The daemon computes the Internet checksum of the messages of even length, and of
    those whose last byte is zero. -/
theorem ndLCalculateIcmp6Checksum_eq_iff {icmp : List U8} (h : 8 ≤ icmp.length) (src dst : Addr) :
    ndLCalculateIcmp6Checksum src dst icmp = internetChecksum src dst icmp ↔
      icmp.length % 2 = 0 ∨ icmp.getLast? = some 0 := by
  let msg := pseudoHeader src dst icmp.length ++ (icmp.set 2 0).set 3 0
  have hlength : msg.length = 40 + icmp.length := by
    rw [List.length_append, length_pseudoHeader, List.length_set, List.length_set]
  have hlast : msg.getLast? = icmp.getLast? := by
    rw [← getLast?_zeroed h]
    refine List.getLast?_append_of_ne_nil _ fun hnil => ?_
    have := congrArg List.length hnil
    rw [List.length_set, List.length_set, List.length_nil] at this
    omega
  have hsum : sum 0xffff 0xffff (addedWords msg) = sum 0xffff 0 (words msg) ↔
      (addedWords msg).sum ≡ (words msg).sum [MOD 0xffff] := by
    rw [sum_eq_iff (le_refl _) addedWords_le (.inl (by decide)) (Nat.zero_le _) words_le
      (.inr (exists_pos_mem_words ..)), Nat.zero_add]
    exact ⟨(Nat.add_modEq_left ..).symm.trans, (Nat.add_modEq_left ..).trans⟩
  rw [ndLCalculateIcmp6Checksum_eq h, internetChecksum,
    not_ofNat_inj (sum_le (le_refl _) addedWords_le) (sum_le (Nat.zero_le _) words_le), hsum,
    addedWords_modEq_iff, hlast, hlength, Nat.add_mod, Nat.zero_add, Nat.mod_mod]

/-- The rounds of the two calls of `ndL_calculate_icmp6_checksum`: one for the headers,
    which starts from `0xffff`, and one for the rest of the message. -/
def icmp6Rounds (src dst : Addr) (icmp : List U8) : List (U32 × U32) :=
  let hdr := pseudoHeader src dst icmp.length ++ icmp6Hdr icmp
  rounds 0xffff hdr ++ rounds ((ndLCalculateChecksum 0xffff hdr).setWidth 32) (icmp.drop 8)

theorem folds_of_mem_icmp6Rounds (src dst : Addr) (icmp : List U8) :
    ∀ r ∈ icmp6Rounds src dst icmp, Folds r := by
  have hcarried (t : U16) : (t.setWidth 32 : U32).toNat ≤ 0xffff := by
    rw [BitVec.toNat_setWidth]
    omega
  exact List.forall_mem_append.2
    ⟨folds_of_mem_rounds (by decide), folds_of_mem_rounds (hcarried _)⟩

/-- The checksum of a message is the Internet checksum iff its length is even or its last
    byte is zero. No round leaves the range, whatever the length. -/
theorem icmp6Checksum_correct_iff (src dst : Addr) {icmp : List U8} (h : 8 ≤ icmp.length) :
    (ndLCalculateIcmp6Checksum src dst icmp = internetChecksum src dst icmp ↔
      icmp.length % 2 = 0 ∨ icmp.getLast? = some 0) ∧
    ∀ r ∈ icmp6Rounds src dst icmp, Folds r :=
  ⟨ndLCalculateIcmp6Checksum_eq_iff h src dst, folds_of_mem_icmp6Rounds src dst icmp⟩

namespace Small

/-- A message of nine bytes, which ends with a zero byte. -/
def paddedMsg : List U8 := [135, 0, 0, 0, 0, 0, 0, 0, 0]

/-- A message of nine bytes, which ends with a one. -/
def oddMsg : List U8 := [135, 0, 0, 0, 0, 0, 0, 0, 1]

theorem paddedMsg_checksum :
    8 ≤ paddedMsg.length ∧
    ((ndLCalculateIcmp6Checksum 0 0 paddedMsg = internetChecksum 0 0 paddedMsg ↔
      paddedMsg.length % 2 = 0 ∨ paddedMsg.getLast? = some 0) ∧
    ∀ r ∈ icmp6Rounds 0 0 paddedMsg, Folds r) :=
  ⟨by decide, icmp6Checksum_correct_iff 0 0 (by decide)⟩

/-- The last byte is added as the low byte of a word. -/
theorem oddMsg_checksum :
    8 ≤ oddMsg.length ∧
    ndLCalculateIcmp6Checksum 0 0 oddMsg ≠ internetChecksum 0 0 oddMsg := by
  decide +kernel

end Small

end Ndppd
