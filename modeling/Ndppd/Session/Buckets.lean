import Ndppd.Addr.Prefix
import Ndppd.Daemon.Runs

/-!
# How sessions are spread over the tables

The list of a session is given by the hash of its target (`NDL_BUCKET`), which starts from a
seed that is drawn at start-up, so that nobody can choose targets that share a list. But the
seed adds the same number to all hashes, and a table has 64 lists: of each word of an address,
the last six bits count. `ndlBucket_eq_iff` says which targets share a list; the seed is not
in it.

On a little-endian host, the last bits of a word are those of its first byte. So the targets
of a long prefix are in one list, whatever the seed (`Daemon.run_oneList`).
-/

namespace Ndppd

/-- The byte of the word `i` of an address that has its last bits. -/
def Addr.lastByte (bo : ByteOrder) (a : Addr) (i : ℕ) : U8 :=
  match bo with
  | .big => a.u8 (4 * i + 3)
  | .little => a.u8 (4 * i)

/-- What the hash makes of these bytes. -/
def spread (bo : ByteOrder) (a : Addr) : ℕ :=
  31 * (31 * (31 * (a.lastByte bo 0).toNat + (a.lastByte bo 1).toNat) +
    (a.lastByte bo 2).toNat) + (a.lastByte bo 3).toNat

/-- The last byte of a word that is loaded in the opposite order is the first one in memory. -/
theorem setWidth_byteSwap (w : U32) : (byteSwap w).setWidth 8 = w.extractLsb' 24 8 := by
  rw [byteSwap]
  ext i hi
  simp only [BitVec.getElem_setWidth, BitVec.getLsbD_append, BitVec.getLsbD_extractLsb',
    BitVec.getElem_extractLsb']
  grind

theorem Addr.setWidth_u32 (bo : ByteOrder) (a : Addr) {i : ℕ} (hi : i < 4) :
    (a.u32 bo i).setWidth 8 = a.lastByte bo i := by
  cases bo with
  | big =>
    have hpos : 8 * (15 - (4 * i + 3)) = 32 * (3 - i) := by omega
    rw [Addr.u32, Addr.lastByte, Addr.u8, hpos]
    ext j hj
    simp only [BitVec.getElem_setWidth, BitVec.getLsbD_extractLsb', BitVec.getElem_extractLsb']
    grind
  | little =>
    have hpos : 8 * (15 - 4 * i) = 32 * (3 - i) + 24 := by omega
    rw [Addr.u32, setWidth_byteSwap, Addr.lastByte, Addr.u8, hpos]
    ext j hj
    simp only [BitVec.getLsbD_extractLsb', BitVec.getElem_extractLsb']
    grind

theorem Addr.u32_mod (bo : ByteOrder) (a : Addr) {i : ℕ} (hi : i < 4) :
    (a.u32 bo i).toNat % 64 = (a.lastByte bo i).toNat % 64 := by
  rw [← a.setWidth_u32 bo hi, BitVec.toNat_setWidth]
  omega

/-- The seed is added to what the address gives. -/
theorem ndAddrHash_mod (bo : ByteOrder) (seed : U32) (a : Addr) :
    (ndAddrHash bo seed a).toNat % 64 = (923521 * seed.toNat + spread bo a) % 64 := by
  have h₀ := a.u32_mod bo (show 0 < 4 by decide)
  have h₁ := a.u32_mod bo (show 1 < 4 by decide)
  have h₂ := a.u32_mod bo (show 2 < 4 by decide)
  have h₃ := a.u32_mod bo (show 3 < 4 by decide)
  have h31 : (31 : U32).toNat = 31 := rfl
  simp only [ndAddrHash, spread, BitVec.toNat_add, BitVec.toNat_mul, h31]
  omega

/-- Two targets share a list iff these bytes of theirs say so, whatever the seed. -/
theorem ndlBucket_eq_iff (c : Conf) (a b : Addr) :
    ndlBucket c a = ndlBucket c b ↔ spread c.byteOrder a % 64 = spread c.byteOrder b % 64 := by
  have ha := ndAddrHash_mod c.byteOrder c.hashSeed a
  have hb := ndAddrHash_mod c.byteOrder c.hashSeed b
  rw [ndlBucket, ndlBucket, Fin.ext_iff, Fin.val_ofNat, Fin.val_ofNat, ha, hb]
  omega

/-- Which targets share a list can be known in advance: it does not depend on the seed. -/
theorem ndlBucket_seed (c : Conf) (seed : U32) (a b : Addr) :
    ndlBucket { c with hashSeed := seed } a = ndlBucket { c with hashSeed := seed } b ↔
      ndlBucket c a = ndlBucket c b := by
  rw [ndlBucket_eq_iff, ndlBucket_eq_iff]

/-! ## Long prefixes -/

/-- On a little-endian host, the last three bytes of an address do not count. -/
theorem spread_eq_of_agreeOn {a b : Addr} (h : a.AgreeOn 104 b) :
    spread .little a = spread .little b := by
  have hbyte : ∀ i < 13, a.u8 i = b.u8 i := by
    intro i hi
    refine BitVec.eq_of_getMsbD_eq fun j hj => ?_
    have hbit := h (8 * i + j) (by omega)
    have hpos : 128 - (8 * (15 - i) + 8 - j) = 8 * i + j := by omega
    rw [Addr.u8, Addr.u8, BitVec.getMsbD_extractLsb', BitVec.getMsbD_extractLsb', hpos, hbit]
  simp only [spread, Addr.lastByte, hbyte 0 (by decide), hbyte 4 (by decide), hbyte 8 (by decide),
    hbyte 12 (by decide)]

theorem Addr.AgreeOn.mono {a b : Addr} {n k : ℕ} (h : a.AgreeOn n b) (hk : k ≤ n) :
    a.AgreeOn k b := fun i hi => h i (hi.trans_le hk)

/-- In every state, on a little-endian host, the sessions of a rule for a prefix of at least
    104 bits are all in one list of `ndL_sessions`, whatever the seed. -/
theorem Daemon.run_oneList {conf : Conf} (cfg : Config) (w : World) (es : List Event)
    (hbo : conf.byteOrder = .little) {r : RuleId} (hr : 104 ≤ (cfg.rule r).pflen) :
    ∃ b, ∀ i s, ((init conf cfg w).run es).mem.store.session i = some s → s.rule = r →
      i ∈ buckets ((init conf cfg w).run es).mem.store.fresh
        ((init conf cfg w).run es).mem.store.sessions b := by
  have hok := run_wellFormed conf cfg w es
  refine ⟨ndlBucket conf (cfg.rule r).addr, fun i s hs hrule => ?_⟩
  have hmatch := (hok.matched i s hs).addr_match
  obtain ⟨-, hagree⟩ := (ndAddrMatch_iff _ _ _ _).1 hmatch
  have hspread := spread_eq_of_agreeOn (hagree.mono (hrule ▸ hr))
  have hbucket : ndlBucket conf s.tgt = ndlBucket conf (cfg.rule r).addr := by
    rw [ndlBucket_eq_iff, hbo, ← hrule, hspread]
  exact (hok.byTgt.mem_iff _ i).2 ⟨s, hs, hbucket⟩

namespace Small

/-- A rule for the prefix `::/120`, whose targets are answered for. -/
def longRule (rule : Rule) : Rule := { rule with mode := .static, pflen := 120 }

/-- The daemon with this rule, after solicitations for `::1` and `::2`. -/
def crowded : Daemon :=
  (Daemon.init conf (daemon longRule).cfg (daemon longRule).mem.world).run
    [event 0 (.ns 0 7 1 (some 3)), event 0 (.ns 0 7 2 (some 3))]

theorem crowded_oneList : 104 ≤ ((daemon longRule).cfg.rule 0).pflen ∧
    crowded.mem.store.count = 2 ∧
    ∃ b, ∀ i s, crowded.mem.store.session i = some s → s.rule = 0 →
      i ∈ buckets crowded.mem.store.fresh crowded.mem.store.sessions b :=
  ⟨by decide +kernel, by decide +kernel, Daemon.run_oneList _ _ _ rfl (by decide +kernel)⟩

end Small

end Ndppd
