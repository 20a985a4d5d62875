import Ndppd.Alloc

/-!
# Objects do not overlap

In every state that the allocator reaches, with whatever the program writes to its objects
(`State.Reachable`), the objects in use and those in the lists of free objects are apart
from each other, and from the headers of the chunks; the lists have objects of their own
size, and `free` is what is left of a chunk (`State.Sound`).

The invariant has two parts. `Chunks` is about the chunks and the objects that have been
taken from them, in use or not, and depends on the words of the headers. `Lists` says that
each of these objects is in use, or in the list of its size, and depends on the first words
of free objects.
-/

namespace Ndppd

namespace Alloc

open Carving Intrusive

variable {h h' : Heap} {chunks carved live : List Block} {L : ℕ → List ℕ} {c x : Block}
  {a b p size v : ℕ}

/-! ## Words -/

theorem wordSub_eq (hle : v ≤ a) (hlt : a - v < 2 ^ 64) : wordSub a v = a - v := by
  rw [wordSub, Nat.add_comm, Nat.add_sub_assoc hle, Nat.add_mod_left, Nat.mod_eq_of_lt hlt]

/-- A size, rounded up, is that of a list. -/
theorem roundUp_eq (hsize : 1 ≤ size ∧ size ≤ maxAlloc) :
    ∃ b < 16, bucket (roundUp size) = b ∧ roundUp size = 8 * (b + 1) := by
  have hall : ∀ size ≤ maxAlloc, 1 ≤ size →
      bucket (roundUp size) < 16 ∧ roundUp size = 8 * (bucket (roundUp size) + 1) := by decide
  exact ⟨_, (hall size hsize.2 hsize.1).1, rfl, (hall size hsize.2 hsize.1).2⟩

theorem not_invalid (hsize : 1 ≤ size ∧ size ≤ maxAlloc) : ¬(size = 0 ∨ size > maxAlloc) := by
  omega

/-- A pointer, unless it is `NULL`. -/
def ptr (a : ℕ) : Option ℕ := if a = 0 then none else some a

theorem ptr_eq_some {q : ℕ} (h : ptr a = some q) : a = q ∧ a ≠ 0 := by
  rw [ptr] at h
  split_ifs at h with ha
  exact ⟨Option.some.inj h, ha⟩

theorem ptr_of_ne (h : a ≠ 0) : ptr a = some a := if_neg h

theorem eq_zero_of_ptr (h : ptr a = none) : a = 0 := by
  by_contra ha
  exact absurd ((ptr_of_ne ha).symm.trans h) (Option.some_ne_none a)

/-- What an object, or a chunk, points to. -/
def link (mem : ℕ → ℕ) (p : ℕ) : Option ℕ := ptr (mem p)

/-- The lists of free objects. -/
def table (h : Heap) : Table ℕ ℕ where
  head b := ptr (h.freeObjects b)
  next := link h.mem

theorem link_store (hne : p ≠ a) : link (h.store a v).mem p = link h.mem p :=
  congrArg ptr (h.store_mem_of_ne v hne)

/-! ## Chunks -/

/-- The header of a chunk. -/
structure Header (mem : ℕ → ℕ) (c : Block) : Prop where
  ne_zero : c.addr ≠ 0
  addr_dvd : 8 ∣ c.addr
  size_dvd : 8 ∣ c.size
  size_le : c.size ≤ chunkAllocMax
  limit_le : c.limit ≤ 2 ^ 64
  size_eq : mem (c.addr + 16) = c.size
  free_dvd : 8 ∣ mem (c.addr + 8)
  free_le : mem (c.addr + 8) + sizeofChunk ≤ c.size

/-- Where the unused tail of a chunk starts. -/
def mark (mem : ℕ → ℕ) (c : Block) : ℕ := c.limit - mem (c.addr + 8)

/-- The chunks, and the objects that have been taken from them. -/
structure Chunks (h : Heap) (chunks carved : List Block) : Prop where
  allocSize_dvd : 8 ∣ h.allocSize
  le_allocSize : chunkAllocSize ≤ h.allocSize
  allocSize_le : h.allocSize ≤ chunkAllocMax
  header : ∀ c ∈ chunks, Header h.mem c
  list : Chain (link h.mem) (ptr h.chunks) (chunks.map Block.addr)
  layout : Carved sizeofChunk chunks (mark h.mem) carved
  object : ∀ x ∈ carved, 8 ∣ x.addr ∧ ∃ b < 16, x.size = 8 * (b + 1)

/-- The lists have the objects that are not in use, by their sizes. -/
structure Lists (h : Heap) (carved live : List Block) (L : ℕ → List ℕ) : Prop where
  table : (table h).Holds L
  nodup : live.Nodup
  live_mem : ∀ x ∈ live, x ∈ carved
  free_mem : ∀ b, ∀ p ∈ L b, b < 16 ∧ (⟨p, 8 * (b + 1)⟩ : Block) ∈ carved
  not_free : ∀ x ∈ live, ∀ b, x.addr ∉ L b
  owned : ∀ x ∈ carved, x ∈ live ∨ ∃ b, x.addr ∈ L b

namespace Chunks

/-- Writes elsewhere than in headers. -/
theorem store (hc : Chunks h chunks carved)
    (ha : ∀ c ∈ chunks, ∀ n < sizeofChunk, a ≠ c.addr + n) :
    Chunks (h.store a v) chunks carved := by
  have hsame (c : Block) (hcm : c ∈ chunks) (n : ℕ) (hn : n < sizeofChunk) :
      (h.store a v).mem (c.addr + n) = h.mem (c.addr + n) :=
    h.store_mem_of_ne v (ha c hcm n hn).symm
  refine ⟨hc.allocSize_dvd, hc.le_allocSize, hc.allocSize_le, fun c hcm => ?_, ?_, ?_, hc.object⟩
  · have hh := hc.header c hcm
    have hfree := hsame c hcm 8 (by decide)
    exact ⟨hh.ne_zero, hh.addr_dvd, hh.size_dvd, hh.size_le, hh.limit_le,
      (hsame c hcm 16 (by decide)).trans hh.size_eq, hfree ▸ hh.free_dvd, hfree ▸ hh.free_le⟩
  · refine hc.list.congr fun q hq => ?_
    obtain ⟨c, hcm, rfl⟩ := List.mem_map.1 hq
    exact congrArg ptr (hsame c hcm 0 (by decide))
  · exact hc.layout.congr fun c hcm => congrArg (c.limit - ·) (hsame c hcm 8 (by decide))

/-- The heads of the lists of free objects do not matter. -/
theorem withFree (hc : Chunks h chunks carved) (f : ℕ → ℕ) :
    Chunks { h with freeObjects := f } chunks carved :=
  ⟨hc.allocSize_dvd, hc.le_allocSize, hc.allocSize_le, hc.header, hc.list, hc.layout, hc.object⟩

/-- An object starts where no other one does. -/
theorem eq_of_addr (hc : Chunks h chunks carved) {y : Block} (hx : x ∈ carved) (hy : y ∈ carved)
    (h : x.addr = y.addr) : x = y :=
  Block.eq_of_has hc.layout.blocks_apart hx hy (hc.layout.has_addr hx)
    (h ▸ hc.layout.has_addr hy)

/-- An object is at no header. -/
theorem ne_header (hc : Chunks h chunks carved) (hx : x ∈ carved) (hcm : c ∈ chunks) {n : ℕ}
    (hn : n < sizeofChunk) : x.addr ≠ c.addr + n :=
  hc.layout.ne_header hx (hc.layout.has_addr hx) hcm hn

theorem addr_ne_zero (hc : Chunks h chunks carved) (hx : x ∈ carved) : x.addr ≠ 0 := by
  obtain ⟨c, -, hlo, -⟩ := hc.layout.inside x hx
  rw [sizeofChunk] at hlo
  omega

end Chunks

namespace Lists

/-- Writes elsewhere than in free objects. -/
theorem store (hl : Lists h carved live L) (ha : ∀ b, a ∉ L b) :
    Lists (h.store a v) carved live L := by
  refine ⟨⟨fun b => ?_, hl.table.disjoint⟩, hl.nodup, hl.live_mem, hl.free_mem, hl.not_free,
    hl.owned⟩
  exact (hl.table.chain b).congr fun q hq => link_store fun hqa => ha b (hqa ▸ hq)

/-- A new object, which is in use. -/
theorem add (hl : Lists h carved live L) (hx : ∀ y ∈ carved, y.addr ≠ x.addr) :
    Lists h (x :: carved) (x :: live) L where
  table := hl.table
  nodup := List.nodup_cons.2 ⟨fun hxl => hx x (hl.live_mem x hxl) rfl, hl.nodup⟩
  live_mem y hy := by
    rcases List.mem_cons.1 hy with rfl | hy
    · exact List.mem_cons_self
    · exact List.mem_cons_of_mem _ (hl.live_mem y hy)
  free_mem b p hp := ⟨(hl.free_mem b p hp).1, List.mem_cons_of_mem _ (hl.free_mem b p hp).2⟩
  not_free y hy b hb := by
    rcases List.mem_cons.1 hy with rfl | hy
    · exact hx _ (hl.free_mem b _ hb).2 rfl
    · exact hl.not_free y hy b hb
  owned y hy := by
    rcases List.mem_cons.1 hy with rfl | hy
    · exact .inl List.mem_cons_self
    · exact (hl.owned y hy).imp_left (List.mem_cons_of_mem _)

/-- A free object is in a chunk. -/
theorem chunk_has (hl : Lists h carved live L) (hc : Chunks h' chunks carved) (hp : p ∈ L b) :
    ∃ c ∈ chunks, c.Has p := by
  have hx := (hl.free_mem b p hp).2
  obtain ⟨c, hcm, hhas, -⟩ := hc.layout.chunk_has hx (hc.layout.has_addr hx)
  exact ⟨c, hcm, hhas⟩

end Lists

/-! ## Freeing -/

/-- What `nd_free` does to the lists. -/
theorem table_free (hp : p ≠ 0) :
    table { h.store p (h.freeObjects b) with
      freeObjects := Function.update h.freeObjects b p } = (table h).prepend b p := by
  have hhead : (fun b' => ptr (Function.update h.freeObjects b p b')) =
      Function.update (fun b' => ptr (h.freeObjects b')) b (some p) := by
    funext b'
    rw [Function.apply_update fun _ => ptr, ptr_of_ne hp]
  have hnext : link (Function.update h.mem p (h.freeObjects b)) =
      Function.update (link h.mem) p (ptr (h.freeObjects b)) := by
    funext q
    exact Function.apply_update (fun _ => ptr) ..
  exact congrArg₂ Table.mk hhead hnext

theorem mem_update {l : List ℕ} {b' q : ℕ} :
    q ∈ Function.update L b l b' ↔ b' = b ∧ q ∈ l ∨ b' ≠ b ∧ q ∈ L b' := by
  by_cases hb : b' = b
  · subst hb
    simp
  · rw [Function.update_of_ne hb]
    simp [hb]

theorem free_sound (hc : Chunks h chunks carved) (hl : Lists h carved live L)
    (hsize : 1 ≤ size ∧ size ≤ maxAlloc) (hp : ⟨p, roundUp size⟩ ∈ live)
    (hf : ndFree p size h = .ok h') :
    Chunks h' chunks carved ∧ ∃ L', Lists h' carved (live.erase ⟨p, roundUp size⟩) L' := by
  obtain ⟨b, hb, hbucket, hround⟩ := roundUp_eq hsize
  rw [ndFree, if_neg (not_invalid hsize), hbucket] at hf
  obtain rfl := Except.ok.inj hf
  rw [hround] at hp ⊢
  have hx := hl.live_mem _ hp
  refine ⟨(hc.store fun c hcm n hn => hc.ne_header hx hcm hn).withFree _, ?_⟩
  -- The list gets the object in front.
  refine ⟨Function.update L b (p :: L b), ?_, ?_, ?_, ?_, ?_, ?_⟩
  · exact (table_free (hc.addr_ne_zero hx)) ▸ hl.table.prepend (hl.not_free _ hp)
  · exact hl.nodup.erase _
  · exact fun y hy => hl.live_mem y (List.mem_of_mem_erase hy)
  · intro b' q hq
    rcases mem_update.1 hq with ⟨rfl, hq'⟩ | ⟨-, hq'⟩
    · rcases List.mem_cons.1 hq' with rfl | hq'
      · exact ⟨hb, hx⟩
      · exact hl.free_mem _ q hq'
    · exact hl.free_mem b' q hq'
  · intro y hy b' hyb
    obtain ⟨hne, hy⟩ := hl.nodup.mem_erase_iff.1 hy
    rcases mem_update.1 hyb with ⟨-, hyb⟩ | ⟨-, hyb⟩
    · rcases List.mem_cons.1 hyb with hyp | hyb
      · exact hne (hc.eq_of_addr (hl.live_mem y hy) hx hyp)
      · exact hl.not_free y hy _ hyb
    · exact hl.not_free y hy b' hyb
  · intro y hy
    by_cases hyx : y = ⟨p, 8 * (b + 1)⟩
    · subst hyx
      exact .inr ⟨b, mem_update.2 (.inl ⟨rfl, List.mem_cons_self⟩)⟩
    · rcases hl.owned y hy with hyl | ⟨b', hyb⟩
      · exact .inl ((List.mem_erase_of_ne hyx).2 hyl)
      · refine .inr ⟨b', mem_update.2 ?_⟩
        by_cases hbb : b' = b
        · exact .inl ⟨hbb, List.mem_cons_of_mem _ (hbb ▸ hyb)⟩
        · exact .inr ⟨hbb, hyb⟩

/-! ## Reusing an object -/

/-- No element of a list points to its first one, so the loop of `ND_LL_DELETE` goes to the end
    of the list. -/
theorem lastBefore_eq {l : List ℕ} {el : ℕ} (hel : el ≠ 0) (hl : Chain (link h.mem) (ptr p) l)
    (hne : ∀ y ∈ l, link h.mem y ≠ some el) (rounds : ℕ) :
    lastBefore h el rounds p = if l.length < rounds then some 0 else none := by
  induction rounds generalizing p l with
  | zero => rw [lastBefore, if_neg (Nat.not_lt_zero _)]
  | succ rounds ih =>
    rw [lastBefore]
    cases l with
    | nil =>
      rw [eq_zero_of_ptr hl, if_neg (by simp), List.length_nil, if_pos (Nat.succ_pos rounds)]
    | cons y l =>
      obtain ⟨rfl, hp⟩ := ptr_eq_some hl.1
      have hnext : h.next p ≠ el := by
        intro heq
        exact hne p List.mem_cons_self (by rw [link, ← Heap.next, heq, ptr_of_ne hel])
      have hrest := ih hl.2 fun z hz => hne z (List.mem_cons_of_mem _ hz)
      rw [if_pos ⟨hp, hnext⟩, List.length_cons, if_congr Nat.succ_lt_succ_iff rfl rfl]
      exact hrest

/-- `ND_LL_DELETE` for the first object of a list. -/
theorem deleteObject_eq (hne : h.freeObjects b ≠ 0) (ht : (table h).Holds L) (rounds : ℕ) :
    deleteObject rounds b (h.freeObjects b) h = if (L b).length < rounds then
      some { h with freeObjects := Function.update h.freeObjects b (h.next (h.freeObjects b)) }
      else none := by
  have hchain := ht.chain b
  have hhead : ∀ y ∈ L b, link h.mem y ≠ some (h.freeObjects b) := by
    cases hL : L b with
    | nil => exact nofun
    | cons y l =>
      rw [hL] at hchain
      obtain ⟨rfl, -⟩ := ptr_eq_some hchain.1
      exact hchain.next_ne_head
  rw [deleteObject, lastBefore_eq hne hchain hhead]
  split_ifs
  · dsimp only [Option.map_some, ne_eq]
    rw [if_neg (not_not.2 rfl), if_pos rfl]
  · rfl

theorem reuse_sound (hc : Chunks h chunks carved) (hl : Lists h carved live L)
    (hne : h.freeObjects b ≠ 0) {f : ℕ → ℕ}
    (hf : f = Function.update h.freeObjects b (h.next (h.freeObjects b))) :
    Chunks { h with freeObjects := f } chunks carved ∧
      ∃ L', Lists { h with freeObjects := f } carved
        (⟨h.freeObjects b, 8 * (b + 1)⟩ :: live) L' := by
  refine ⟨hc.withFree f, ?_⟩
  have hchain := hl.table.chain b
  cases hL : L b with
  | nil =>
    rw [hL] at hchain
    exact absurd (eq_zero_of_ptr hchain) hne
  | cons y l =>
    have hnodup := hchain.nodup
    rw [hL] at hchain hnodup
    obtain ⟨rfl, -⟩ := ptr_eq_some hchain.1
    have hmem : h.freeObjects b ∈ L b := hL ▸ List.mem_cons_self
    have hx := (hl.free_mem b _ hmem).2
    have hsub {b' q : ℕ} (hq : q ∈ Function.update L b l b') : q ∈ L b' := by
      rcases mem_update.1 hq with ⟨rfl, hq'⟩ | ⟨-, hq'⟩
      · exact hL ▸ List.mem_cons_of_mem _ hq'
      · exact hq'
    refine ⟨Function.update L b l, ⟨fun b' => ?_, fun h₁ h₂ => ?_⟩, ?_, ?_, ?_, ?_, ?_⟩
    · by_cases hb : b' = b
      · subst hb
        rw [Function.update_self]
        have hhead : f b' = h.next (h.freeObjects b') := hf ▸ Function.update_self ..
        change Chain (link h.mem) (ptr (f b')) l
        rw [hhead]
        exact hchain.2
      · rw [Function.update_of_ne hb]
        have hhead : f b' = h.freeObjects b' := hf ▸ Function.update_of_ne hb ..
        change Chain (link h.mem) (ptr (f b')) (L b')
        rw [hhead]
        exact hl.table.chain b'
    · exact hl.table.disjoint (hsub h₁) (hsub h₂)
    · exact List.nodup_cons.2 ⟨fun hmem' => hl.not_free _ hmem' b hmem, hl.nodup⟩
    · exact List.forall_mem_cons.2 ⟨hx, hl.live_mem⟩
    · exact fun b' q hq => hl.free_mem b' q (hsub hq)
    · refine List.forall_mem_cons.2 ⟨fun b' hb' => ?_, fun y hy b' hb' => ?_⟩
      · -- The object was in its list once, and in no other one.
        have heq := hl.table.disjoint (hsub hb') hmem
        subst heq
        rw [Function.update_self] at hb'
        exact (List.nodup_cons.1 hnodup).1 hb'
      · exact hl.not_free y hy b' (hsub hb')
    · intro y hy
      rcases hl.owned y hy with hyl | ⟨b', hyb⟩
      · exact .inl (List.mem_cons_of_mem _ hyl)
      · by_cases hyp : y.addr = h.freeObjects b
        · exact .inl (List.mem_cons.2 (.inl (hc.eq_of_addr hy hx hyp)))
        · refine .inr ⟨b', mem_update.2 ?_⟩
          by_cases hb : b' = b
          · subst hb
            rw [hL] at hyb
            exact .inl ⟨rfl, (List.mem_cons.1 hyb).resolve_left hyp⟩
          · exact .inr ⟨hb, hyb⟩

/-! ## Taking an object from a chunk -/

theorem carveObject_eq (hh : Header h.mem c) (hpos : 0 < size) (hfit : size ≤ h.mem (c.addr + 8)) :
    carveObject c.addr size h =
      (mark h.mem c, h.store (c.addr + 8) (h.mem (c.addr + 8) - size)) := by
  have hsize := hh.size_eq
  have hle := hh.free_le
  have hlimit := hh.limit_le
  rw [Block.limit] at hlimit
  have hptr : wordSub (c.addr + h.size c.addr) (h.free c.addr) = mark h.mem c := by
    rw [mark, Block.limit, Heap.size, Heap.free, hsize]
    exact wordSub_eq (by omega) (by omega)
  have hfree : wordSub (h.free c.addr) size = h.mem (c.addr + 8) - size :=
    wordSub_eq hfit (by rw [Heap.free]; omega)
  rw [carveObject, hptr, hfree]

theorem carve_sound (hc : Chunks h chunks carved) (hl : Lists h carved live L) (hcm : c ∈ chunks)
    (hb : b < 16) (hfit : 8 * (b + 1) ≤ h.mem (c.addr + 8)) :
    Chunks (h.store (c.addr + 8) (h.mem (c.addr + 8) - 8 * (b + 1))) chunks
        (⟨mark h.mem c, 8 * (b + 1)⟩ :: carved) ∧
      Lists (h.store (c.addr + 8) (h.mem (c.addr + 8) - 8 * (b + 1)))
        (⟨mark h.mem c, 8 * (b + 1)⟩ :: carved) (⟨mark h.mem c, 8 * (b + 1)⟩ :: live) L := by
  have hh := hc.header c hcm
  have hle := hh.free_le
  have hpos : 0 < 8 * (b + 1) := by omega
  -- The word is that of one header only.
  have hother {c' : Block} (hcm' : c' ∈ chunks) {n : ℕ} (hn : n < sizeofChunk)
      (hne : c' ≠ c ∨ n ≠ 8) (v : ℕ) :
      (h.store (c.addr + 8) v).mem (c'.addr + n) = h.mem (c'.addr + n) := by
    refine h.store_mem_of_ne v fun heq => ?_
    obtain ⟨rfl, rfl⟩ := hc.layout.header_inj hcm' hcm hn (by decide) heq
    exact hne.elim (absurd rfl) (absurd rfl)
  have hlayout : Carved sizeofChunk chunks
      (mark (h.store (c.addr + 8) (h.mem (c.addr + 8) - 8 * (b + 1))).mem)
        (⟨mark h.mem c, 8 * (b + 1)⟩ :: carved) := by
    have hroom : mark h.mem c + 8 * (b + 1) ≤ c.limit := by
      rw [mark, Block.limit]
      omega
    refine (hc.layout.carve hcm hpos hroom).congr fun c' hcm' => ?_
    by_cases heq : c' = c
    · subst heq
      simp only [Function.update_self, mark, Heap.store_mem_self, Block.limit]
      omega
    · rw [Function.update_of_ne heq, mark, hother hcm' (by decide) (.inl heq), mark]
  refine ⟨⟨hc.allocSize_dvd, hc.le_allocSize, hc.allocSize_le, fun c' hcm' => ?_, ?_, hlayout, ?_⟩,
    ?_⟩
  · have hh' := hc.header c' hcm'
    refine ⟨hh'.ne_zero, hh'.addr_dvd, hh'.size_dvd, hh'.size_le, hh'.limit_le, ?_, ?_, ?_⟩
    · exact (hother hcm' (by decide) (.inr (by decide)) _).trans hh'.size_eq
    · by_cases heq : c' = c
      · subst heq
        rw [Heap.store_mem_self]
        exact Nat.dvd_sub hh'.free_dvd (Nat.dvd_mul_right ..)
      · rw [hother hcm' (by decide) (.inl heq)]
        exact hh'.free_dvd
    · by_cases heq : c' = c
      · subst heq
        rw [Heap.store_mem_self]
        omega
      · rw [hother hcm' (by decide) (.inl heq)]
        exact hh'.free_le
  · refine hc.list.congr fun q hq => ?_
    obtain ⟨c', hcm', rfl⟩ := List.mem_map.1 hq
    exact congrArg ptr (hother hcm' (n := 0) (by decide) (.inr (by decide)) _)
  · refine List.forall_mem_cons.2 ⟨⟨?_, b, hb, rfl⟩, hc.object⟩
    exact Nat.dvd_sub ((Nat.dvd_add_iff_right hh.addr_dvd).1 hh.size_dvd) hh.free_dvd
  · have hstore : ∀ b, c.addr + 8 ∉ L b := fun b hb =>
      hc.ne_header (hl.free_mem b _ hb).2 hcm (n := 8) (by decide) rfl
    refine (hl.store hstore).add fun y hy heq => ?_
    have hapart := (List.pairwise_cons.1 hlayout.blocks_apart).1 y hy
    have hhas := hc.layout.has_addr hy
    exact hapart.not_has (Block.has_addr hpos) (heq ▸ hhas)

/-! ## New chunks -/

theorem nextAllocSize_eq (hdvd : 8 ∣ size) (hge : chunkAllocSize ≤ size) :
    8 ∣ nextAllocSize size ∧ chunkAllocSize ≤ nextAllocSize size ∧
      nextAllocSize size ≤ chunkAllocMax := by
  rw [chunkAllocSize] at hge ⊢
  rw [nextAllocSize, chunkAllocMax]
  by_cases hlt : size < 1048576
  · rw [if_pos hlt]
    split_ifs <;> omega
  · rw [if_neg hlt]
    split_ifs <;> omega

theorem wordSub_allocSize (hge : chunkAllocSize ≤ size) (hle : size ≤ chunkAllocMax) :
    wordSub size (roundUp sizeofChunk) = size - sizeofChunk := by
  have hround : roundUp sizeofChunk = sizeofChunk := by decide
  rw [hround]
  refine wordSub_eq ((by decide : sizeofChunk ≤ chunkAllocSize).trans hge) ?_
  exact ((Nat.sub_le ..).trans hle).trans_lt (by decide)

theorem addChunk_sound (hc : Chunks h chunks carved) (hl : Lists h carved live L) {m : ℕ}
    (hne : m ≠ 0) (hdvd : 8 ∣ m) (hle : m + h.allocSize ≤ 2 ^ 64)
    (hapart : ∀ c ∈ chunks, Block.Apart ⟨m, h.allocSize⟩ c) :
    Chunks (addChunk m h) (⟨m, h.allocSize⟩ :: chunks) carved ∧
      Lists (addChunk m h) carved live L := by
  have hsize := hc.le_allocSize
  have hsizeofChunk : sizeofChunk < h.allocSize := lt_of_lt_of_le (by decide) hsize
  -- The header is in no other chunk.
  have hhas {n : ℕ} (hn : n < sizeofChunk) : Block.Has ⟨m, h.allocSize⟩ (m + n) :=
    ⟨Nat.le_add_right .., Nat.add_lt_add_left (hn.trans hsizeofChunk) _⟩
  have hheader (n : ℕ) (hn : n < sizeofChunk) :
      ∀ c ∈ chunks, ∀ n' < sizeofChunk, m + n ≠ c.addr + n' := by
    intro c hcm n' hn' heq
    exact (hapart c hcm).not_has (hhas hn) (heq ▸ hc.layout.has_header hcm hn')
  have hfree (n : ℕ) (hn : n < sizeofChunk) : ∀ b, m + n ∉ L b := by
    intro b hb
    obtain ⟨c, hcm, hchas⟩ := hl.chunk_has hc hb
    exact (hapart c hcm).not_has (hhas hn) hchas
  rw [addChunk, wordSub_allocSize hsize hc.allocSize_le]
  -- The words of the header.
  let h₁ := ((h.store m h.chunks).store (m + 16) h.allocSize).store (m + 8)
    (h.allocSize - sizeofChunk)
  have hnext : h₁.mem m = h.chunks := by
    rw [Heap.store_mem_of_ne _ _ (by omega), Heap.store_mem_of_ne _ _ (by omega),
      Heap.store_mem_self]
  have hsize₁ : h₁.mem (m + 16) = h.allocSize := by
    rw [Heap.store_mem_of_ne _ _ (by omega), Heap.store_mem_self]
  have hfree₁ : h₁.mem (m + 8) = h.allocSize - sizeofChunk := Heap.store_mem_self ..
  have hc₁ : Chunks h₁ chunks carved :=
    ((hc.store (hheader 0 (by decide))).store (hheader 16 (by decide))).store
      (hheader 8 (by decide))
  have hl₁ : Lists h₁ carved live L :=
    ((hl.store (hfree 0 (by decide))).store (hfree 16 (by decide))).store (hfree 8 (by decide))
  obtain ⟨hdvd', hge', hle'⟩ := nextAllocSize_eq hc.allocSize_dvd hsize
  refine ⟨⟨hdvd', hge', hle', ?_, ?_, ?_, hc₁.object⟩, hl₁.table, hl₁.nodup, hl₁.live_mem,
    hl₁.free_mem, hl₁.not_free, hl₁.owned⟩
  · refine List.forall_mem_cons.2 ⟨?_, hc₁.header⟩
    refine ⟨hne, hdvd, hc.allocSize_dvd, hc.allocSize_le, hle, hsize₁, ?_, ?_⟩
    · change 8 ∣ h₁.mem (m + 8)
      rw [hfree₁]
      exact Nat.dvd_sub hc.allocSize_dvd (by decide)
    · change h₁.mem (m + 8) + sizeofChunk ≤ h.allocSize
      rw [hfree₁]
      exact (Nat.sub_add_cancel hsizeofChunk.le).le
  · refine ⟨ptr_of_ne hne, ?_⟩
    change Chain (link h₁.mem) (ptr (h₁.mem m)) _
    rw [hnext]
    exact hc₁.list
  · refine (hc₁.layout.grow hapart (by decide) hsizeofChunk.le).congr fun c' hcm' => ?_
    by_cases heq : c' = ⟨m, h.allocSize⟩
    · subst heq
      rw [Function.update_self]
      change m + h.allocSize - h₁.mem (m + 8) = m + sizeofChunk
      rw [hfree₁]
      omega
    · rw [Function.update_of_ne heq]

/-! ## Looking for a chunk -/

theorem findChunk_mem {rounds chunk : ℕ} {cs : List Block}
    (hl : Chain (link h.mem) (ptr p) (cs.map Block.addr))
    (hf : findChunk h size rounds p = some chunk) :
    chunk = 0 ∨ ∃ c ∈ cs, chunk = c.addr ∧ size ≤ h.mem (c.addr + 8) := by
  induction rounds generalizing p cs with
  | zero => exact absurd hf (by simp [findChunk])
  | succ rounds ih =>
    rw [findChunk] at hf
    cases cs with
    | nil =>
      have hp := eq_zero_of_ptr hl
      rw [if_pos (.inl hp)] at hf
      exact .inl ((Option.some.inj hf).symm.trans hp)
    | cons c cs =>
      obtain ⟨rfl, hp⟩ := ptr_eq_some hl.1
      split_ifs at hf with hstop
      · exact .inr ⟨c, List.mem_cons_self, (Option.some.inj hf).symm, hstop.resolve_left hp⟩
      · obtain hzero | ⟨c', hc', hchunk⟩ := ih hl.2 hf
        · exact .inl hzero
        · exact .inr ⟨c', List.mem_cons_of_mem _ hc', hchunk⟩

/-- The loop over the chunks ends. -/
theorem findChunk_isSome {rounds : ℕ} {cs : List Block}
    (hl : Chain (link h.mem) (ptr p) (cs.map Block.addr)) (hrounds : cs.length < rounds) :
    ∃ chunk, findChunk h size rounds p = some chunk := by
  induction rounds generalizing p cs with
  | zero => exact absurd hrounds (Nat.not_lt_zero _)
  | succ rounds ih =>
    rw [findChunk]
    split_ifs with hstop
    · exact ⟨p, rfl⟩
    · cases cs with
      | nil => exact absurd (.inl (eq_zero_of_ptr hl)) hstop
      | cons c cs =>
        obtain ⟨rfl, -⟩ := ptr_eq_some hl.1
        exact ih hl.2 (Nat.succ_lt_succ_iff.1 hrounds)

/-! ## Histories -/

namespace State

variable {s : State} {m rounds : ℕ}

/-- What `nd_alloc` does: it takes an object from a list, from a chunk, or from a new chunk. -/
theorem alloc_sound {al : Allocated} (hc : Chunks s.heap s.chunks s.carved)
    (hl : Lists s.heap s.carved s.live L) (hsize : 1 ≤ size ∧ size ≤ maxAlloc)
    (ha : ndAlloc rounds m size s.heap = .ok al)
    (hm : ∀ n, al.source = .chunk n → s.Provides m) :
    Chunks (s.allocated m size al).heap (s.allocated m size al).chunks
        (s.allocated m size al).carved ∧
      ∃ L', Lists (s.allocated m size al).heap (s.allocated m size al).carved
        (s.allocated m size al).live L' := by
  obtain ⟨b, hb, hbucket, hround⟩ := roundUp_eq hsize
  have hpos : 0 < 8 * (b + 1) := by omega
  rw [ndAlloc, if_neg (not_invalid hsize)] at ha
  dsimp only at ha
  rw [hbucket, hround] at ha
  by_cases hobj : s.heap.freeObjects b = 0
  · rw [if_neg (not_not.2 hobj)] at ha
    cases hchunk : findChunk s.heap (8 * (b + 1)) rounds s.heap.chunks with
    | none => rw [hchunk] at ha; exact absurd ha (by simp)
    | some chunk =>
      rw [hchunk] at ha
      dsimp only at ha
      obtain rfl | ⟨c, hcm, rfl, hfit⟩ := findChunk_mem hc.list hchunk
      · rw [if_neg (not_not.2 rfl)] at ha
        split_ifs at ha with hzero
        obtain rfl := Except.ok.inj ha
        obtain ⟨hne, hdvd, hle, hapart⟩ := hm _ rfl
        obtain ⟨hc', hl'⟩ := addChunk_sound hc hl hne hdvd hle hapart
        -- The chunk has room for every size.
        have hh := hc'.header _ List.mem_cons_self
        have hroom : 8 * (b + 1) ≤ (addChunk m s.heap).mem (m + 8) := by
          have hge := hc.le_allocSize
          rw [addChunk, Heap.store_mem_self, wordSub_allocSize hge hc.allocSize_le, sizeofChunk]
          rw [chunkAllocSize] at hge
          omega
        obtain ⟨hc₂, hl₂⟩ := carve_sound hc' hl' List.mem_cons_self hb hroom
        simp only [allocated, hround, carveObject_eq hh hpos hroom]
        exact ⟨hc₂, L, hl₂⟩
      · have hh := hc.header c hcm
        rw [if_pos hh.ne_zero, carveObject_eq hh hpos hfit] at ha
        obtain rfl := Except.ok.inj ha
        obtain ⟨hc', hl'⟩ := carve_sound hc hl hcm hb hfit
        simp only [allocated, hround]
        exact ⟨hc', L, hl'⟩
  · rw [if_pos hobj, deleteObject_eq hobj hl.table] at ha
    split_ifs at ha with hrounds
    · obtain rfl := Except.ok.inj ha
      obtain ⟨hc', hl'⟩ := reuse_sound hc hl hobj rfl
      rw [← hround] at hl'
      exact ⟨hc', hl'⟩

/-- What the program may write is neither in a header nor the link of a free object. -/
theorem MayStore.ne (ha : s.MayStore a) (hc : Chunks s.heap s.chunks s.carved)
    (hl : Lists s.heap s.carved s.live L) :
    (∀ c ∈ s.chunks, ∀ n < sizeofChunk, a ≠ c.addr + n) ∧ ∀ b, a ∉ L b := by
  rcases ha with ⟨x, hx, hxa⟩ | houtside
  · refine ⟨fun c hcm n hn => hc.layout.ne_header (hl.live_mem x hx) hxa hcm hn, fun b hb => ?_⟩
    have hy := (hl.free_mem b a hb).2
    have heq := Block.eq_of_has hc.layout.blocks_apart (hl.live_mem x hx) hy hxa
      (hc.layout.has_addr hy)
    exact hl.not_free x hx b (heq ▸ hb)
  · refine ⟨fun c hcm n hn heq => houtside c hcm ?_, fun b hb => ?_⟩
    · exact heq ▸ hc.layout.has_header hcm hn
    · obtain ⟨c, hcm, hchas⟩ := hl.chunk_has hc hb
      exact houtside c hcm hchas

/-- The two parts of the invariant hold in every state. -/
theorem Reachable.invariant (h : s.Reachable) : Chunks s.heap s.chunks s.carved ∧
    ∃ L, Lists s.heap s.carved s.live L := by
  obtain ⟨mem, hsteps⟩ := h
  induction hsteps with
  | refl =>
    have hsize : 8 ∣ chunkAllocSize ∧ chunkAllocSize ≤ chunkAllocMax := by decide
    refine ⟨⟨hsize.1, le_rfl, hsize.2, nofun, rfl, .nil _ _, nofun⟩, fun _ => [], ?_⟩
    exact ⟨⟨fun _ => rfl, nofun⟩, .nil, nofun, nofun, nofun, nofun⟩
  | tail _ hs ih =>
    obtain ⟨hc, L, hl⟩ := ih
    cases hs with
    | alloc hsize ha hm => exact alloc_sound hc hl hsize ha hm
    | free hsize hlive hf => exact free_sound hc hl hsize hlive hf
    | store ha v =>
      obtain ⟨hheader, hfree⟩ := ha.ne hc hl
      exact ⟨hc.store hheader, L, hl.store hfree⟩

/-! ## Soundness -/

/-- The objects in the lists, with the sizes of the lists. -/
def freeBlocks (L : ℕ → List ℕ) : List Block :=
  (List.range 16).flatMap fun b => (L b).map fun p => ⟨p, 8 * (b + 1)⟩

/-- The lists of free objects are `L`. These objects, and those in use, are apart, aligned, and
    in chunks, after their headers. -/
structure Sound (s : State) (L : ℕ → List ℕ) : Prop where
  lists : ∀ b, Chain (link s.heap.mem) (ptr (s.heap.freeObjects b)) (L b)
  /-- The objects in a list have been taken from a chunk with the size of the list. -/
  sizes : ∀ b, ∀ p ∈ L b, b < 16 ∧ (⟨p, 8 * (b + 1)⟩ : Block) ∈ s.carved
  apart : (s.live ++ freeBlocks L).Pairwise Block.Apart
  aligned : ∀ x ∈ s.live ++ freeBlocks L, 8 ∣ x.addr
  inside : ∀ x ∈ s.live ++ freeBlocks L,
    ∃ c ∈ s.chunks, c.addr + sizeofChunk ≤ x.addr ∧ x.limit ≤ c.limit
  chunks : Chain (link s.heap.mem) (ptr s.heap.chunks) (s.chunks.map Block.addr)
  size : ∀ c ∈ s.chunks, s.heap.size c.addr = c.size ∧ c.size ≤ chunkAllocMax
  /-- What is left is not more than there is after the header. -/
  free_le : ∀ c ∈ s.chunks, s.heap.free c.addr + sizeofChunk ≤ c.size
  /-- It is the end of the chunk: the bytes before it are in objects, those in it are not. -/
  tail : ∀ c ∈ s.chunks, ∀ a, c.addr + sizeofChunk ≤ a → a < c.limit →
    ((∃ x ∈ s.live ++ freeBlocks L, x.Has a) ↔ a + s.heap.free c.addr < c.limit)

theorem mem_freeBlocks : x ∈ freeBlocks L ↔ ∃ b < 16, ∃ p ∈ L b, ⟨p, 8 * (b + 1)⟩ = x := by
  simp only [freeBlocks, List.mem_flatMap, List.mem_range, List.mem_map]

/-- The objects in use and in the lists are all those that have been taken. -/
theorem mem_blocks_iff (hc : Chunks h chunks carved) (hl : Lists h carved live L) :
    x ∈ live ++ freeBlocks L ↔ x ∈ carved := by
  rw [List.mem_append, mem_freeBlocks]
  constructor
  · rintro (hx | ⟨b, -, p, hp, rfl⟩)
    · exact hl.live_mem x hx
    · exact (hl.free_mem b p hp).2
  · intro hx
    refine (hl.owned x hx).imp_right fun ⟨b, hb⟩ => ?_
    obtain ⟨hlt, hmem⟩ := hl.free_mem b _ hb
    exact ⟨b, hlt, x.addr, hb, hc.eq_of_addr hmem hx rfl⟩

theorem nodup_blocks (hl : Lists h carved live L) : (live ++ freeBlocks L).Nodup := by
  refine List.nodup_append.2 ⟨hl.nodup, List.nodup_flatMap.2 ⟨fun b _ => ?_, ?_⟩, ?_⟩
  · exact (hl.table.chain b).nodup.map fun p q hpq => congrArg Block.addr hpq
  · refine List.nodup_range.pairwise_of_forall_ne fun b _ b' _ hne => ?_
    rintro x hx hx'
    obtain ⟨p, hp, rfl⟩ := List.mem_map.1 hx
    obtain ⟨q, hq, heq⟩ := List.mem_map.1 hx'
    have hqp : q = p := congrArg Block.addr heq
    exact hne (hl.table.disjoint hp (hqp ▸ hq))
  · rintro x hx y hy rfl
    obtain ⟨b, -, p, hp, rfl⟩ := mem_freeBlocks.1 hy
    exact hl.not_free _ hx b hp

theorem sound_of_invariant (hc : Chunks s.heap s.chunks s.carved)
    (hl : Lists s.heap s.carved s.live L) : s.Sound L where
  lists := hl.table.chain
  sizes := hl.free_mem
  apart := by
    refine (nodup_blocks hl).pairwise_of_forall_ne fun x hx y hy hne => ?_
    rw [mem_blocks_iff hc hl] at hx hy
    exact hc.layout.blocks_apart.forall hx hy hne
  aligned x hx := (hc.object x ((mem_blocks_iff hc hl).1 hx)).1
  inside x hx := by
    obtain ⟨c, hcm, hlo, hhi⟩ := hc.layout.inside x ((mem_blocks_iff hc hl).1 hx)
    exact ⟨c, hcm, hlo, hhi.trans (hc.layout.mark_le c hcm)⟩
  chunks := hc.list
  size c hcm := ⟨(hc.header c hcm).size_eq, (hc.header c hcm).size_le⟩
  free_le c hcm := (hc.header c hcm).free_le
  tail c hcm a hlo hhi := by
    have hiff := hc.layout.has_iff hcm hlo hhi
    simp only [mem_blocks_iff hc hl, hiff, mark, Heap.free]
    omega

/-- Calls return: the loops end, if there is memory. -/
theorem ndAlloc_returns (hc : Chunks s.heap s.chunks s.carved)
    (hl : Lists s.heap s.carved s.live L) (hsize : 1 ≤ size ∧ size ≤ maxAlloc) (hm : m ≠ 0) :
    ∃ rounds al, ndAlloc rounds m size s.heap = .ok al := by
  obtain ⟨b, -, hbucket, -⟩ := roundUp_eq hsize
  refine ⟨(L b).length + s.chunks.length + 1, ?_⟩
  rw [ndAlloc, if_neg (not_invalid hsize)]
  dsimp only
  rw [hbucket]
  by_cases hobj : s.heap.freeObjects b = 0
  · rw [if_neg (not_not.2 hobj)]
    obtain ⟨chunk, hchunk⟩ : ∃ chunk, findChunk s.heap (roundUp size)
        ((L b).length + s.chunks.length + 1) s.heap.chunks = some chunk :=
      findChunk_isSome hc.list (by omega)
    rw [hchunk]
    dsimp only
    rw [if_neg hm]
    split_ifs
    · exact ⟨_, rfl⟩
    · exact ⟨_, rfl⟩
  · rw [if_pos hobj, deleteObject_eq hobj hl.table, if_pos (by omega)]
    exact ⟨_, rfl⟩

/-- In every state, the objects are sound, and calls return. -/
theorem reachable_sound (h : s.Reachable) : (∃ L, s.Sound L) ∧
    (∀ size malloc, 1 ≤ size ∧ size ≤ maxAlloc → malloc ≠ 0 →
      ∃ rounds al, ndAlloc rounds malloc size s.heap = .ok al) ∧
    ∀ ptr size, 1 ≤ size ∧ size ≤ maxAlloc → ∃ h', ndFree ptr size s.heap = .ok h' := by
  obtain ⟨hc, L, hl⟩ := h.invariant
  refine ⟨⟨L, sound_of_invariant hc hl⟩, fun size malloc hsize hm => ?_, fun ptr size hsize => ?_⟩
  · exact ndAlloc_returns hc hl hsize hm
  · rw [ndFree, if_neg (not_invalid hsize)]
    exact ⟨_, rfl⟩

end State

namespace Small

def start : State := .init fun _ => 0

/-- The memory after the first call, for five bytes. -/
def firstHeap : Heap := (carveObject 4096 8 (addChunk 4096 start.heap)).2

/-- After a call for twelve bytes, the first object is freed. -/
def freedState : State :=
  let s := start.allocated 4096 5 ⟨4120, firstHeap, .chunk 16384⟩
  let s := s.allocated 0 12 ⟨4128, (carveObject 4096 16 s.heap).2, .tail⟩
  let h := s.heap.store 4120 (s.heap.freeObjects 0)
  s.freed 4120 5 { h with freeObjects := Function.update h.freeObjects 0 4120 }

theorem freedState_sound : freedState.Reachable ∧ freedState.live = [⟨4128, 16⟩] ∧
    freedState.heap.freeObjects 0 = 4120 ∧ ∃ L, freedState.Sound L := by
  have hfirst : ndAlloc 1 4096 5 start.heap = .ok ⟨4120, firstHeap, .chunk 16384⟩ := rfl
  have h₁ := (State.reachable_init fun _ => 0).step (.alloc (by decide) hfirst
    fun n _ => ⟨by decide, by decide, by decide, nofun⟩)
  have hsecond : ndAlloc 1 0 12 firstHeap =
      .ok ⟨4128, (carveObject 4096 16 firstHeap).2, .tail⟩ := rfl
  have h₂ := h₁.step (.alloc (by decide) hsecond nofun)
  have h₃ : freedState.Reachable := h₂.step (.free (by decide) (by decide) rfl)
  exact ⟨h₃, by decide, rfl, (State.reachable_sound h₃).1⟩

end Small

end Alloc

end Ndppd
