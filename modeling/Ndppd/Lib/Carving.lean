import Mathlib.Algebra.Order.Group.Nat
import Mathlib.Data.List.Pairwise
import Mathlib.Logic.Function.Basic

/-!
# Carving blocks from chunks

An allocator that gets chunks of memory, keeps a header at the beginning of each of them,
and takes blocks from what follows, one after the other: below the `mark` of a chunk
everything has been taken, and nothing from there on (`Carved.has_iff`).

* `Carved.carve`: a block is taken at the mark of a chunk.
* `Carved.grow`: there is a new chunk.

The blocks do not overlap, and they are not in a header (`Carved.ne_header`). What becomes
of a block later is not a matter of this module.
-/

namespace Carving

/-- The `size` bytes from `addr` on. -/
structure Block where
  addr : ℕ
  size : ℕ
  deriving DecidableEq

namespace Block

variable {x y : Block} {a : ℕ}

/-- The end of a block. -/
def limit (x : Block) : ℕ := x.addr + x.size

/-- The byte at `a` is in the block. -/
def Has (x : Block) (a : ℕ) : Prop := x.addr ≤ a ∧ a < x.limit

/-- The blocks do not overlap. -/
def Apart (x y : Block) : Prop := x.limit ≤ y.addr ∨ y.limit ≤ x.addr

instance : Std.Symm Apart := ⟨fun _ _ => Or.symm⟩

theorem Apart.not_has (h : x.Apart y) (hx : x.Has a) : ¬y.Has a := by
  intro hy
  rcases h with h | h
  · exact absurd (hy.1.trans_lt hx.2) (Nat.not_lt.2 h)
  · exact absurd (hx.1.trans_lt hy.2) (Nat.not_lt.2 h)

theorem has_addr (h : 0 < x.size) : x.Has x.addr := ⟨le_rfl, Nat.lt_add_of_pos_right h⟩

/-- In blocks that do not overlap, a byte is in one of them at most. -/
theorem eq_of_has {l : List Block} (hl : l.Pairwise Apart) (hx : x ∈ l) (hy : y ∈ l)
    (hxa : x.Has a) (hya : y.Has a) : x = y := by
  by_contra hne
  exact (hl.forall hx hy hne).not_has hxa hya

end Block

/-- The blocks that have been taken from the chunks, up to their marks. -/
structure Carved (header : ℕ) (chunks : List Block) (mark : Block → ℕ) (blocks : List Block) :
    Prop where
  chunks_apart : chunks.Pairwise Block.Apart
  blocks_apart : blocks.Pairwise Block.Apart
  pos : ∀ x ∈ blocks, 0 < x.size
  le_mark : ∀ c ∈ chunks, c.addr + header ≤ mark c
  mark_le : ∀ c ∈ chunks, mark c ≤ c.limit
  inside : ∀ x ∈ blocks, ∃ c ∈ chunks, c.addr + header ≤ x.addr ∧ x.limit ≤ mark c
  covered : ∀ c ∈ chunks, ∀ a, c.addr + header ≤ a → a < mark c → ∃ x ∈ blocks, x.Has a

namespace Carved

variable {header : ℕ} {chunks blocks : List Block} {mark mark' : Block → ℕ} {c x : Block}
  {a n : ℕ}

/-- No chunk, and no block. -/
theorem nil (header : ℕ) (mark : Block → ℕ) : Carved header [] mark [] :=
  ⟨.nil, .nil, nofun, nofun, nofun, nofun, nofun⟩

theorem congr (h : Carved header chunks mark blocks) (hm : ∀ c ∈ chunks, mark' c = mark c) :
    Carved header chunks mark' blocks := by
  refine ⟨h.chunks_apart, h.blocks_apart, h.pos, fun c hc => ?_, fun c hc => ?_, fun x hx => ?_,
    fun c hc => ?_⟩
  · exact hm c hc ▸ h.le_mark c hc
  · exact hm c hc ▸ h.mark_le c hc
  · obtain ⟨c, hc, hx⟩ := h.inside x hx
    exact ⟨c, hc, hm c hc ▸ hx⟩
  · exact hm c hc ▸ h.covered c hc

/-- The chunk of a block contains its bytes. -/
theorem chunk_has (h : Carved header chunks mark blocks) (hx : x ∈ blocks) (ha : x.Has a) :
    ∃ c ∈ chunks, c.Has a ∧ c.addr + header ≤ a ∧ a < mark c := by
  obtain ⟨c, hc, hlo, hhi⟩ := h.inside x hx
  have hlt := ha.2.trans_le hhi
  exact ⟨c, hc, ⟨(Nat.le_add_right ..).trans (hlo.trans ha.1), hlt.trans_le (h.mark_le c hc)⟩,
    hlo.trans ha.1, hlt⟩

/-- After the header of a chunk, the bytes below its mark are those in blocks. -/
theorem has_iff (h : Carved header chunks mark blocks) (hc : c ∈ chunks)
    (hlo : c.addr + header ≤ a) (hhi : a < c.limit) : (∃ x ∈ blocks, x.Has a) ↔ a < mark c := by
  constructor
  · rintro ⟨x, hx, ha⟩
    obtain ⟨c', hc', hhas, -, hlt⟩ := h.chunk_has hx ha
    have heq := Block.eq_of_has h.chunks_apart hc hc' ⟨(Nat.le_add_right ..).trans hlo, hhi⟩ hhas
    rwa [heq]
  · exact h.covered c hc a hlo

/-- A block has its first byte. -/
theorem has_addr (h : Carved header chunks mark blocks) (hx : x ∈ blocks) : x.Has x.addr :=
  Block.has_addr (h.pos x hx)

/-- The header of a chunk is in it. -/
theorem has_header (h : Carved header chunks mark blocks) (hc : c ∈ chunks) (hn : n < header) :
    c.Has (c.addr + n) := by
  refine ⟨Nat.le_add_right .., ?_⟩
  calc c.addr + n < c.addr + header := Nat.add_lt_add_left hn _
    _ ≤ mark c := h.le_mark c hc
    _ ≤ c.limit := h.mark_le c hc

/-- No block has a byte of a header. -/
theorem ne_header (h : Carved header chunks mark blocks) (hx : x ∈ blocks) (ha : x.Has a)
    (hc : c ∈ chunks) (hn : n < header) : a ≠ c.addr + n := by
  rintro rfl
  obtain ⟨c', hc', hhas, hlo, -⟩ := h.chunk_has hx ha
  rw [Block.eq_of_has h.chunks_apart hc' hc hhas (h.has_header hc hn)] at hlo
  exact absurd hn (Nat.not_lt.2 (Nat.le_of_add_le_add_left hlo))

/-- The headers of two chunks do not overlap. -/
theorem header_inj (h : Carved header chunks mark blocks) {c' : Block} (hc : c ∈ chunks)
    (hc' : c' ∈ chunks) {n' : ℕ} (hn : n < header) (hn' : n' < header)
    (heq : c.addr + n = c'.addr + n') : c = c' ∧ n = n' := by
  have hhas := h.has_header hc hn
  have hhas' := h.has_header hc' hn'
  obtain rfl := Block.eq_of_has h.chunks_apart hc hc' hhas (heq ▸ hhas')
  exact ⟨rfl, Nat.add_left_cancel heq⟩

/-- A block is taken at the mark of a chunk. -/
theorem carve (h : Carved header chunks mark blocks) (hc : c ∈ chunks) (hn : 0 < n)
    (hfit : mark c + n ≤ c.limit) :
    Carved header chunks (Function.update mark c (mark c + n)) (⟨mark c, n⟩ :: blocks) := by
  have hle : ∀ c' ∈ chunks, mark c' ≤ Function.update mark c (mark c + n) c' := by
    intro c' _
    by_cases heq : c' = c
    · subst heq
      rw [Function.update_self]
      exact Nat.le_add_right ..
    · rw [Function.update_of_ne heq]
  refine ⟨h.chunks_apart, List.pairwise_cons.2 ⟨fun x hx => ?_, h.blocks_apart⟩, ?_, ?_, ?_, ?_,
    ?_⟩
  · -- The blocks of the chunk are below the mark, the others in other chunks.
    obtain ⟨c', hc', hlo, hhi⟩ := h.inside x hx
    by_cases heq : c = c'
    · exact .inr (heq ▸ hhi)
    · rcases h.chunks_apart.forall hc hc' heq with hapart | hapart
      · exact .inl (hfit.trans (hapart.trans ((Nat.le_add_right ..).trans hlo)))
      · refine .inr (hhi.trans ((h.mark_le c' hc').trans (hapart.trans ?_)))
        exact (Nat.le_add_right ..).trans (h.le_mark c hc)
  · intro x hx
    rcases List.mem_cons.1 hx with rfl | hx
    · exact hn
    · exact h.pos x hx
  · exact fun c' hc' => (h.le_mark c' hc').trans (hle c' hc')
  · intro c' hc'
    by_cases heq : c' = c
    · subst heq
      rwa [Function.update_self]
    · rw [Function.update_of_ne heq]
      exact h.mark_le c' hc'
  · intro x hx
    rcases List.mem_cons.1 hx with rfl | hx
    · exact ⟨c, hc, h.le_mark c hc, (Function.update_self c _ mark).ge⟩
    · obtain ⟨c', hc', hlo, hhi⟩ := h.inside x hx
      exact ⟨c', hc', hlo, hhi.trans (hle c' hc')⟩
  · intro c' hc' a hlo hhi
    by_cases hlt : a < mark c'
    · obtain ⟨x, hx, ha⟩ := h.covered c' hc' a hlo hlt
      exact ⟨x, List.mem_cons_of_mem _ hx, ha⟩
    · -- The byte has just been taken.
      by_cases heq : c' = c
      · subst heq
        rw [Function.update_self] at hhi
        exact ⟨_, List.mem_cons_self, Nat.not_lt.1 hlt, hhi⟩
      · rw [Function.update_of_ne heq] at hhi
        exact absurd hhi hlt

/-- There is a new chunk. -/
theorem grow (h : Carved header chunks mark blocks) (hnew : ∀ c' ∈ chunks, c.Apart c')
    (hheader : 0 < header) (hsize : header ≤ c.size) :
    Carved header (c :: chunks) (Function.update mark c (c.addr + header)) blocks := by
  have hne : ∀ c' ∈ chunks, c' ≠ c := by
    rintro c' hc' rfl
    have hhas := Block.has_addr (hheader.trans_le hsize)
    exact (hnew c' hc').not_has hhas hhas
  have hold := h.congr fun c' hc' => Function.update_of_ne (hne c' hc') (c.addr + header) mark
  have hself : Function.update mark c (c.addr + header) c = c.addr + header :=
    Function.update_self ..
  refine ⟨List.pairwise_cons.2 ⟨hnew, h.chunks_apart⟩, h.blocks_apart, h.pos, ?_, ?_, ?_, ?_⟩
  · exact List.forall_mem_cons.2 ⟨hself.ge, hold.le_mark⟩
  · refine List.forall_mem_cons.2 ⟨?_, hold.mark_le⟩
    exact hself.le.trans (Nat.add_le_add_left hsize _)
  · intro x hx
    obtain ⟨c', hc', hx⟩ := hold.inside x hx
    exact ⟨c', List.mem_cons_of_mem _ hc', hx⟩
  · refine List.forall_mem_cons.2 ⟨fun a hlo hhi => ?_, hold.covered⟩
    exact absurd hlo (Nat.not_le.2 (hself ▸ hhi))

end Carved

end Carving
