import Mathlib.Algebra.BigOperators.Group.Finset.Piecewise
import Mathlib.Algebra.Order.BigOperators.Group.List
import Ndppd.Alloc.Sound

/-!
# The memory that `malloc` provides

The allocator gives no memory back before the process ends, and objects of one size are never
used for another one. What it gets from `malloc` is bounded all the same, by what has been in
use at a time (`History.provided_le`):

* as many objects of a size have been taken from the chunks as have been in use at a time,
  since one is taken only if all of them are in use (`History.taken_eq`);
* a chunk is asked for only when no other one has space for the object, and it has at most
  twice the size of the one before (`Tight`).

Both go along a history by what a step does to the chunks (`Step.effect`). At the end, every
chunk is freed, once, whatever `free` writes to it (`Reachable.cleanup`).
-/

namespace Ndppd

namespace Alloc

open Carving Intrusive

namespace State

variable {s s' t : State} {c x : Block} {L : ℕ → List ℕ} {past : List State} {n : ℕ}

/-! ## Histories -/

/-- The states since the beginning, the latest one first. -/
inductive History : List State → Prop
  | init (mem : ℕ → ℕ) : History [init mem]
  | step {s s' : State} {past : List State} (h : History (s :: past)) (hs : Step s s') :
      History (s' :: s :: past)

theorem History.reachable (h : History (s :: past)) : s.Reachable := by
  generalize hstates : s :: past = states at h
  induction h generalizing s past with
  | init mem =>
    obtain ⟨rfl, -⟩ := List.cons.inj hstates
    exact reachable_init mem
  | step h hs ih =>
    obtain ⟨rfl, -⟩ := List.cons.inj hstates
    exact (ih rfl).step hs

/-- The objects of `n` bytes that are in use. -/
def inUse (n : ℕ) (s : State) : ℕ := s.live.countP (·.size = n)

/-- The largest number of objects of `n` bytes that have been in use at a time. -/
def peak (n : ℕ) (states : List State) : ℕ := (states.map (inUse n)).foldr max 0

/-- The objects of `n` bytes that have been taken from chunks. -/
def taken (n : ℕ) (s : State) : ℕ := s.carved.countP (·.size = n)

/-- What is left of a chunk. -/
def left (s : State) (c : Block) : ℕ := s.heap.free c.addr

/-! ## What a step does to the chunks -/

/-- Nothing. -/
structure Kept (s s' : State) : Prop where
  chunks : s'.chunks = s.chunks
  carved : s'.carved = s.carved
  allocSize : s'.heap.allocSize = s.heap.allocSize
  left : ∀ c ∈ s.chunks, s'.left c = s.left c

/-- The object `x` is taken from `c`. -/
structure Taken (s : State) (c x : Block) (s' : State) : Prop where
  chunk_mem : c ∈ s.chunks
  fits : x.size ≤ s.left c
  chunks : s'.chunks = s.chunks
  carved : s'.carved = x :: s.carved
  live : s'.live = x :: s.live
  allocSize : s'.heap.allocSize = s.heap.allocSize
  left_self : s'.left c = s.left c - x.size
  left_of_ne : ∀ c' ∈ s.chunks, c' ≠ c → s'.left c' = s.left c'

/-- There is a new chunk `c`. -/
structure Grown (s : State) (c : Block) (s' : State) : Prop where
  size : c.size = s.heap.allocSize
  not_mem : c ∉ s.chunks
  chunks : s'.chunks = c :: s.chunks
  carved : s'.carved = s.carved
  live : s'.live = s.live
  allocSize : s'.heap.allocSize = nextAllocSize s.heap.allocSize
  left_self : s'.left c + sizeofChunk = c.size
  left : ∀ c' ∈ s.chunks, s'.left c' = s.left c'

/-- An object is taken if all of its size are in use, and from a new chunk if no other one has
    space for it. -/
inductive Effect (s s' : State) : Prop
  | kept (h : Kept s s')
  | tail (c x : Block) (h : Taken s c x s') (huse : ∀ y ∈ s.carved, y.size = x.size → y ∈ s.live)
  | chunk (c x : Block) (t : State) (hg : Grown s c t) (ht : Taken t c x s')
      (huse : ∀ y ∈ s.carved, y.size = x.size → y ∈ s.live)
      (hfull : ∀ c' ∈ s.chunks, s.left c' < x.size) (hle : x.size ≤ maxAlloc)

/-- The loop over the chunks returns `NULL` only if none has space. -/
theorem lt_of_findChunk_zero {h : Heap} {p size rounds : ℕ} {cs : List Block}
    (hl : Chain (link h.mem) (ptr p) (cs.map Block.addr))
    (hf : findChunk h size rounds p = some 0) : ∀ c ∈ cs, h.free c.addr < size := by
  induction rounds generalizing p cs with
  | zero => exact absurd hf (by simp [findChunk])
  | succ rounds ih =>
    rw [findChunk] at hf
    cases cs with
    | nil => exact fun c hc => absurd hc List.not_mem_nil
    | cons c cs =>
      obtain ⟨rfl, hp⟩ := ptr_eq_some hl.1
      split_ifs at hf with hstop
      · exact absurd (Option.some.inj hf) hp
      · refine List.forall_mem_cons.2 ⟨?_, ih hl.2 hf⟩
        exact Nat.not_le.1 fun hge => hstop (.inr hge)

/-- If a list is empty, the objects of its size are in use. -/
theorem mem_live_of_empty {b : ℕ} (hl : Lists s.heap s.carved s.live L)
    (hc : Chunks s.heap s.chunks s.carved) (hempty : s.heap.freeObjects b = 0) :
    ∀ y ∈ s.carved, y.size = 8 * (b + 1) → y ∈ s.live := by
  intro y hy hsize
  refine (hl.owned y hy).resolve_right ?_
  rintro ⟨b', hb'⟩
  have heq := congrArg Block.size (hc.eq_of_addr (hl.free_mem b' _ hb').2 hy rfl)
  obtain rfl : b' = b := by
    dsimp only at heq
    omega
  have hchain := hl.table.chain b'
  cases hL : L b' with
  | nil => exact absurd (hL ▸ hb') List.not_mem_nil
  | cons q l =>
    rw [hL] at hchain
    exact (ptr_eq_some hchain.1).2 hempty

/-- Words of headers other than `free` of `c` do not change. -/
theorem left_store_of_ne (hc : Chunks s.heap s.chunks s.carved) (hcm : c ∈ s.chunks) {c' : Block}
    (hcm' : c' ∈ s.chunks) (hne : c' ≠ c) (v : ℕ) :
    (s.heap.store (c.addr + 8) v).free c'.addr = s.heap.free c'.addr := by
  refine s.heap.store_mem_of_ne v fun heq => hne ?_
  exact (hc.layout.header_inj hcm' hcm (by decide) (by decide) heq).1

/-- After the object has been taken from the unused tail of `c`. -/
def takenFrom (s : State) (c : Block) (n : ℕ) : State where
  heap := s.heap.store (c.addr + 8) (s.heap.mem (c.addr + 8) - n)
  chunks := s.chunks
  carved := ⟨mark s.heap.mem c, n⟩ :: s.carved
  live := ⟨mark s.heap.mem c, n⟩ :: s.live

theorem takenFrom_taken (hc : Chunks s.heap s.chunks s.carved) (hcm : c ∈ s.chunks)
    (hfit : n ≤ s.left c) : Taken s c ⟨mark s.heap.mem c, n⟩ (s.takenFrom c n) where
  chunk_mem := hcm
  fits := hfit
  chunks := rfl
  carved := rfl
  live := rfl
  allocSize := rfl
  left_self := Heap.store_mem_self ..
  left_of_ne _ hcm' hne := left_store_of_ne hc hcm hcm' hne _

/-- With a new chunk. -/
def grown (s : State) (m : ℕ) : State :=
  { s with heap := addChunk m s.heap, chunks := ⟨m, s.heap.allocSize⟩ :: s.chunks }

theorem grown_grown {m : ℕ} (hc : Chunks s.heap s.chunks s.carved) (hm : s.Provides m) :
    Grown s ⟨m, s.heap.allocSize⟩ (s.grown m) := by
  have hsize := hc.le_allocSize
  have hlt : sizeofChunk < s.heap.allocSize := lt_of_lt_of_le (by decide) hsize
  have hhas {n : ℕ} (hn : n < sizeofChunk) : Block.Has ⟨m, s.heap.allocSize⟩ (m + n) :=
    ⟨Nat.le_add_right .., Nat.add_lt_add_left (hn.trans hlt) _⟩
  -- The words of the header are in no other chunk.
  have hne {c' : Block} (hcm' : c' ∈ s.chunks) {n : ℕ} (hn : n < sizeofChunk) :
      c'.addr + 8 ≠ m + n := fun heq =>
    (hm.apart c' hcm').not_has (hhas hn) (heq ▸ hc.layout.has_header hcm' (n := 8) (by decide))
  refine ⟨rfl, fun hmem => ?_, rfl, rfl, rfl, rfl, ?_, fun c' hcm' => ?_⟩
  · exact (hm.apart _ hmem).not_has (hhas (n := 0) (by decide)) (hhas (by decide))
  · change (addChunk m s.heap).mem (m + 8) + sizeofChunk = s.heap.allocSize
    rw [addChunk, Heap.store_mem_self, wordSub_allocSize hsize hc.allocSize_le]
    exact Nat.sub_add_cancel hlt.le
  · change (addChunk m s.heap).mem (c'.addr + 8) = s.heap.mem (c'.addr + 8)
    rw [addChunk, Heap.store_mem_of_ne _ _ (hne hcm' (by decide)),
      Heap.store_mem_of_ne _ _ (hne hcm' (by decide))]
    exact s.heap.store_mem_of_ne _ (hne hcm' (n := 0) (by decide))

theorem alloc_effect {rounds m size : ℕ} {al : Allocated} (hc : Chunks s.heap s.chunks s.carved)
    (hl : Lists s.heap s.carved s.live L) (hsize : 1 ≤ size ∧ size ≤ maxAlloc)
    (ha : ndAlloc rounds m size s.heap = .ok al)
    (hm : ∀ n, al.source = .chunk n → s.Provides m) : Effect s (s.allocated m size al) := by
  obtain ⟨b, hb, hbucket, hround⟩ := roundUp_eq hsize
  have hpos : 0 < 8 * (b + 1) := by omega
  rw [ndAlloc, if_neg (not_invalid hsize)] at ha
  dsimp only at ha
  rw [hbucket, hround] at ha
  by_cases hobj : s.heap.freeObjects b = 0
  · have huse := mem_live_of_empty hl hc hobj
    rw [if_neg (not_not.2 hobj)] at ha
    cases hchunk : findChunk s.heap (8 * (b + 1)) rounds s.heap.chunks with
    | none => rw [hchunk] at ha; exact absurd ha (by simp)
    | some chunk =>
      rw [hchunk] at ha
      dsimp only at ha
      obtain rfl | ⟨c, hcm, rfl, hfit⟩ := findChunk_mem hc.list hchunk
      · rw [if_neg (not_not.2 rfl)] at ha
        split_ifs at ha with hzero
        obtain rfl := Except.ok.inj ha
        have hprovides := hm _ rfl
        have hg := grown_grown hc hprovides
        obtain ⟨hne, hdvd, hle, hapart⟩ := hprovides
        obtain ⟨hc', -⟩ := addChunk_sound hc hl hne hdvd hle hapart
        have hroom : 8 * (b + 1) ≤ (s.grown m).left ⟨m, s.heap.allocSize⟩ := by
          have hleft := hg.left_self
          have hge := hc.le_allocSize
          rw [sizeofChunk] at hleft
          rw [chunkAllocSize] at hge
          dsimp only at hleft
          omega
        have hmem : ⟨m, s.heap.allocSize⟩ ∈ (s.grown m).chunks := List.mem_cons_self
        have ht := takenFrom_taken (s := s.grown m) hc' hmem hroom
        simp only [allocated, hround, carveObject_eq (hc'.header _ hmem) hpos hroom]
        refine .chunk _ _ _ hg ht huse (lt_of_findChunk_zero hc.list hchunk) ?_
        change 8 * (b + 1) ≤ 128
        omega
      · have hh := hc.header c hcm
        rw [if_pos hh.ne_zero, carveObject_eq hh hpos hfit] at ha
        obtain rfl := Except.ok.inj ha
        simp only [allocated, hround]
        exact .tail _ _ (takenFrom_taken hc hcm hfit) huse
  · rw [if_pos hobj, deleteObject_eq hobj hl.table] at ha
    split_ifs at ha with hrounds
    obtain rfl := Except.ok.inj ha
    exact .kept ⟨rfl, rfl, rfl, fun _ _ => rfl⟩

/-- What a step does to the chunks. -/
theorem Step.effect (hs : Step s s') (h : s.Reachable) : Effect s s' := by
  obtain ⟨hc, L, hl⟩ := h.invariant
  cases hs with
  | alloc hsize ha hmalloc => exact alloc_effect hc hl hsize ha hmalloc
  | free hsize hlive hf =>
    rw [ndFree, if_neg (not_invalid hsize)] at hf
    obtain rfl := Except.ok.inj hf
    refine .kept ⟨rfl, rfl, rfl, fun c hcm => s.heap.store_mem_of_ne _ ?_⟩
    exact (hc.ne_header (hl.live_mem _ hlive) hcm (n := 8) (by decide)).symm
  | store ha v =>
    refine .kept ⟨rfl, rfl, rfl, fun c hcm => s.heap.store_mem_of_ne _ ?_⟩
    exact ((ha.ne hc hl).1 c hcm 8 (by decide)).symm

/-! ## Objects -/

theorem Reachable.carved_nodup (h : s.Reachable) : s.carved.Nodup := by
  have hlayout := h.invariant.1.layout
  refine (List.pairwise_iff_forall_sublist.2 fun {x y} hsub => ?_)
  rintro rfl
  have hhas := hlayout.has_addr (hsub.subset List.mem_cons_self)
  exact (List.pairwise_iff_forall_sublist.1 hlayout.blocks_apart hsub).not_has hhas hhas

theorem Reachable.inUse_le_taken (h : s.Reachable) (n : ℕ) : inUse n s ≤ taken n s := by
  obtain ⟨-, L, hl⟩ := h.invariant
  exact (List.subperm_of_subset hl.nodup hl.live_mem).countP_le _

/-- If all objects of a size are in use, these are all that have been taken. -/
theorem Reachable.taken_le_inUse (h : s.Reachable)
    (huse : ∀ y ∈ s.carved, y.size = n → y ∈ s.live) : taken n s ≤ inUse n s := by
  rw [taken, inUse, List.countP_eq_length_filter, List.countP_eq_length_filter]
  refine (List.subperm_of_subset (h.carved_nodup.filter _) fun y hy => ?_).length_le
  obtain ⟨hy, hsize⟩ := List.mem_filter.1 hy
  exact List.mem_filter.2 ⟨huse y hy (of_decide_eq_true hsize), hsize⟩

theorem inUse_cons (hlive : s'.live = x :: s.live) :
    inUse n s' = inUse n s + if x.size = n then 1 else 0 := by
  simp [inUse, hlive, List.countP_cons]

theorem taken_cons (hcarved : s'.carved = x :: s.carved) :
    taken n s' = taken n s + if x.size = n then 1 else 0 := by
  simp [taken, hcarved, List.countP_cons]

/-- An object is taken when all of its size are in use. -/
theorem taken_eq_max (h : s.Reachable) (hcarved : s'.carved = x :: s.carved)
    (hlive : s'.live = x :: s.live) (huse : ∀ y ∈ s.carved, y.size = x.size → y ∈ s.live)
    (n : ℕ) : taken n s' = max (inUse n s') (taken n s) := by
  have hle := h.inUse_le_taken n
  rw [taken_cons hcarved, inUse_cons hlive]
  split_ifs with hx
  · subst hx
    have hge := h.taken_le_inUse huse
    omega
  · omega

/-- As many objects have been taken from chunks, of every size, as have been in use at a time. -/
theorem History.taken_eq (h : History (s :: past)) (n : ℕ) : taken n s = peak n (s :: past) := by
  generalize hstates : s :: past = states at h
  induction h generalizing s past with
  | init mem =>
    obtain ⟨rfl, rfl⟩ := List.cons.inj hstates
    rfl
  | @step s₀ s₁ past h hs ih =>
    obtain ⟨rfl, rfl⟩ := List.cons.inj hstates
    have hpeak : peak n (s :: s₀ :: past) = max (inUse n s) (taken n s₀) := by
      rw [ih rfl]
      rfl
    rw [hpeak]
    cases hs.effect h.reachable with
    | kept hk =>
      have hle := (h.reachable.step hs).inUse_le_taken n
      have heq : taken n s = taken n s₀ := by rw [taken, taken, hk.carved]
      omega
    | tail c x ht huse => exact taken_eq_max h.reachable ht.carved ht.live huse n
    | chunk c x t hg ht huse =>
      have hcarved := ht.carved.trans (congrArg (x :: ·) hg.carved)
      have hlive := ht.live.trans (congrArg (x :: ·) hg.live)
      exact taken_eq_max h.reachable hcarved hlive huse n

/-! ## Chunks -/

/-- The bytes of the blocks. -/
def bytes (l : List Block) : ℕ := (l.map Block.size).sum

/-- What is left of the chunks. -/
def leftOf (s : State) (l : List Block) : ℕ := (l.map s.left).sum

/-- The bytes of the chunks are accounted for, and only the latest chunk may have space for every
    object. The next one is no larger than what there is already allows. -/
structure Tight (s : State) : Prop where
  account : bytes s.chunks = leftOf s s.chunks + bytes s.carved + sizeofChunk * s.chunks.length
  full : ∀ c ∈ s.chunks.tail, s.left c < maxAlloc
  le_size : ∀ c ∈ s.chunks, chunkAllocSize ≤ c.size
  allocSize_le : s.heap.allocSize ≤ 2 * bytes s.chunks + chunkAllocSize
  bytes_le : bytes s.chunks ≤ 3 * bytes s.chunks.tail + chunkAllocSize

theorem leftOf_congr {l : List Block} (h : ∀ c ∈ l, s'.left c = s.left c) :
    leftOf s' l = leftOf s l := congrArg List.sum (List.map_congr_left h)

/-- The object comes from what is left. -/
theorem Taken.leftOf_add (h : Taken s c x s') (hnodup : s.chunks.Nodup) :
    leftOf s' s.chunks + x.size = leftOf s s.chunks := by
  have hrest : leftOf s' (s.chunks.erase c) = leftOf s (s.chunks.erase c) := by
    refine leftOf_congr fun c' hc' => ?_
    obtain ⟨hne, hc'⟩ := hnodup.mem_erase_iff.1 hc'
    exact h.left_of_ne c' hc' hne
  have hsplit (t : State) : t.left c + leftOf t (s.chunks.erase c) = leftOf t s.chunks :=
    List.sum_map_erase t.left h.chunk_mem
  have hs := hsplit s
  have hs' := hsplit s'
  have hself := h.left_self
  have hfits := h.fits
  omega

theorem Taken.left_le (h : Taken s c x s') {c' : Block} (hc' : c' ∈ s.chunks) :
    s'.left c' ≤ s.left c' := by
  by_cases heq : c' = c
  · subst heq
    exact h.left_self.le.trans (Nat.sub_le ..)
  · exact (h.left_of_ne c' hc' heq).le

theorem Kept.tight (h : Kept s s') (ht : s.Tight) : s'.Tight := by
  refine ⟨?_, ?_, h.chunks ▸ ht.le_size, ?_, h.chunks ▸ ht.bytes_le⟩
  · rw [h.chunks, h.carved, leftOf_congr h.left]
    exact ht.account
  · rw [h.chunks]
    exact fun c hc => (h.left c (List.mem_of_mem_tail hc)).trans_lt (ht.full c hc)
  · rw [h.chunks, h.allocSize]
    exact ht.allocSize_le

theorem Taken.tight (h : Taken s c x s') (hnodup : s.chunks.Nodup) (ht : s.Tight) : s'.Tight := by
  refine ⟨?_, ?_, h.chunks ▸ ht.le_size, ?_, h.chunks ▸ ht.bytes_le⟩
  · have hleft := h.leftOf_add hnodup
    have hcarved : bytes s'.carved = x.size + bytes s.carved := by
      rw [h.carved]
      rfl
    have haccount := ht.account
    rw [h.chunks]
    omega
  · rw [h.chunks]
    exact fun c hc => (h.left_le (List.mem_of_mem_tail hc)).trans_lt (ht.full c hc)
  · rw [h.chunks, h.allocSize]
    exact ht.allocSize_le

theorem nextAllocSize_le (size : ℕ) : nextAllocSize size ≤ 2 * size := by
  rw [nextAllocSize]
  split_ifs <;> omega

theorem Grown.tight (h : Grown s c s') (hsize : chunkAllocSize ≤ s.heap.allocSize)
    (hfull : ∀ c' ∈ s.chunks, s.left c' < maxAlloc) (ht : s.Tight) : s'.Tight := by
  have hbytes : bytes s'.chunks = s.heap.allocSize + bytes s.chunks := by
    rw [h.chunks, ← h.size]
    rfl
  refine ⟨?_, ?_, ?_, ?_, ?_⟩
  · have hleft : leftOf s' s'.chunks = s'.left c + leftOf s s.chunks := by
      rw [h.chunks, ← leftOf_congr h.left]
      rfl
    have hself := h.left_self
    have haccount := ht.account
    have hc := h.size
    rw [hleft, h.carved, hbytes, h.chunks, List.length_cons, Nat.mul_succ]
    omega
  · rw [h.chunks, List.tail_cons]
    exact fun c' hc' => (h.left c' hc').trans_lt (hfull c' hc')
  · rw [h.chunks]
    exact List.forall_mem_cons.2 ⟨hsize.trans_eq h.size.symm, ht.le_size⟩
  · have hle := nextAllocSize_le s.heap.allocSize
    rw [h.allocSize, hbytes]
    omega
  · have hle := ht.allocSize_le
    rw [hbytes, h.chunks, List.tail_cons]
    omega

theorem Reachable.chunks_nodup (h : s.Reachable) : s.chunks.Nodup :=
  h.invariant.1.list.nodup.of_map _

theorem Reachable.step_tight (h : s.Reachable) (hs : Step s s') (ht : s.Tight) : s'.Tight := by
  cases hs.effect h with
  | kept hk => exact hk.tight ht
  | tail c x htaken _ => exact htaken.tight h.chunks_nodup ht
  | chunk c x t hg htaken _ hfull hle =>
    have hnodup : t.chunks.Nodup := by
      rw [hg.chunks]
      exact List.nodup_cons.2 ⟨hg.not_mem, h.chunks_nodup⟩
    refine htaken.tight hnodup (hg.tight h.invariant.1.le_allocSize (fun c' hc' => ?_) ht)
    exact (hfull c' hc').trans_le hle

theorem History.tight (h : History (s :: past)) : s.Tight := by
  generalize hstates : s :: past = states at h
  induction h generalizing s past with
  | init mem =>
    obtain ⟨rfl, -⟩ := List.cons.inj hstates
    exact ⟨rfl, nofun, nofun, Nat.le_add_left .., Nat.zero_le _⟩
  | step h hs ih =>
    obtain ⟨rfl, -⟩ := List.cons.inj hstates
    exact h.reachable.step_tight hs (ih rfl)

/-- Almost all of the earlier chunks is in objects. -/
theorem Tight.bytes_tail_le (h : s.Tight)
    (hleft : ∀ c ∈ s.chunks, s.left c + sizeofChunk ≤ c.size) :
    bytes s.chunks.tail ≤ bytes s.carved + 151 * s.chunks.tail.length := by
  have haccount := h.account
  have hfull := h.full
  cases hchunks : s.chunks with
  | nil => exact Nat.zero_le _
  | cons c cs =>
    rw [hchunks] at haccount hfull hleft
    have hc := hleft c List.mem_cons_self
    have hsum : leftOf s cs ≤ cs.length * 127 := by
      refine (List.sum_le_card_nsmul _ 127 fun n hn => ?_).trans_eq (by simp)
      obtain ⟨c', hc', rfl⟩ := List.mem_map.1 hn
      exact Nat.lt_succ_iff.1 (hfull c' hc')
    have hbytes : bytes (c :: cs) = c.size + bytes cs := rfl
    have hleftOf : leftOf s (c :: cs) = s.left c + leftOf s cs := rfl
    rw [hbytes, hleftOf, List.length_cons, sizeofChunk] at haccount
    rw [sizeofChunk] at hc
    rw [List.tail_cons]
    omega

/-- The bytes of blocks, by their sizes. -/
theorem bytes_eq_sum {l : List Block} (h : ∀ x ∈ l, ∃ b < 16, x.size = 8 * (b + 1)) :
    bytes l = ∑ b ∈ Finset.range 16, 8 * (b + 1) * l.countP (·.size = 8 * (b + 1)) := by
  induction l with
  | nil => simp [bytes]
  | cons x l ih =>
    obtain ⟨⟨b₀, hb₀, hx⟩, hl⟩ := List.forall_mem_cons.1 h
    have hb (b : ℕ) : (x.size = 8 * (b + 1)) = (b₀ = b) := by
      rw [hx]
      exact propext ⟨fun heq => by omega, fun heq => heq ▸ rfl⟩
    have hself : ∑ b ∈ Finset.range 16, 8 * (b + 1) * (if b₀ = b then 1 else 0) = x.size := by
      simp only [mul_ite, mul_one, mul_zero, Finset.sum_ite_eq, Finset.mem_range, hb₀, if_true, hx]
    calc bytes (x :: l) = bytes l + x.size := Nat.add_comm ..
      _ = ∑ b ∈ Finset.range 16, 8 * (b + 1) * (x :: l).countP (·.size = 8 * (b + 1)) := by
        rw [ih hl, ← hself, ← Finset.sum_add_distrib]
        refine Finset.sum_congr rfl fun b _ => ?_
        rw [List.countP_cons, Nat.mul_add (8 * (b + 1))]
        simp only [hb, decide_eq_true_eq]

/-- The bytes of the objects, if as many of every size were in use as have been at a time. -/
def peakBytes (states : List State) : ℕ :=
  ∑ b ∈ Finset.range 16, 8 * (b + 1) * peak (8 * (b + 1)) states

/-- As many objects of every size have been taken as have been in use at a time, and what
    `malloc` has provided is, but for the first chunk, at most four times as much. -/
theorem History.provided_le (h : History (s :: past)) :
    (∀ n, taken n s = peak n (s :: past)) ∧
      bytes s.chunks ≤ chunkAllocSize + 4 * peakBytes (s :: past) := by
  refine ⟨h.taken_eq, ?_⟩
  have ht := h.tight
  have hc := h.reachable.invariant.1
  have hcarved : bytes s.carved = peakBytes (s :: past) := by
    rw [bytes_eq_sum fun x hx => (hc.object x hx).2]
    exact Finset.sum_congr rfl fun b _ => congrArg _ (h.taken_eq _)
  have htail := ht.bytes_tail_le fun c hcm => (hc.header c hcm).free_le
  -- The objects in an earlier chunk are more than what is lost in it.
  have hge : s.chunks.tail.length * 16384 ≤ bytes s.chunks.tail := by
    refine le_of_eq_of_le ?_ (List.card_nsmul_le_sum _ 16384 fun n hn => ?_)
    · simp
    · obtain ⟨c, hcm, rfl⟩ := List.mem_map.1 hn
      exact ht.le_size c (List.mem_of_mem_tail hcm)
  have hle := ht.bytes_le
  rw [chunkAllocSize] at hle ⊢
  omega

/-! ## The end -/

/-- `nd_alloc_cleanup`: the memory after it, and the chunks that have been freed, in order. What
    `free` leaves in the memory is up to it. -/
def ndAllocCleanup (free : ℕ → (ℕ → ℕ) → ℕ → ℕ) (rounds : ℕ) (h : Heap) : (ℕ → ℕ) × List ℕ :=
  foreachS (fun r => link r.1) (fun chunk r => (free chunk r.1, r.2 ++ [chunk])) rounds
    (ptr h.chunks) ((ptr h.chunks).bind (link h.mem)) (h.mem, [])

/-- The chunks at `l` are linked as they were, and have not been freed. -/
def Remaining (s : State) (r : (ℕ → ℕ) × List ℕ) (l : List ℕ) : Prop :=
  Chain (link r.1) l.head? l ∧ ∃ cs : List Block, cs.Sublist s.chunks ∧ l = cs.map Block.addr

theorem Remaining.free (hc : Chunks s.heap s.chunks s.carved) {free : ℕ → (ℕ → ℕ) → ℕ → ℕ}
    (hfree : ∀ c ∈ s.chunks, ∀ mem a, ¬c.Has a → free c.addr mem a = mem a)
    {r : (ℕ → ℕ) × List ℕ} {p : ℕ} {l : List ℕ} (h : s.Remaining r (p :: l)) :
    s.Remaining (free p r.1, r.2 ++ [p]) l := by
  obtain ⟨hl, cs, hsub, heq⟩ := h
  cases cs with
  | nil => exact absurd heq (by simp)
  | cons c cs =>
    obtain ⟨rfl, rfl⟩ := List.cons.inj heq
    have hcm := hsub.subset List.mem_cons_self
    have hrest := (List.sublist_cons_self c cs).trans hsub
    refine ⟨?_, cs, hrest, rfl⟩
    have htail : Chain (link (free c.addr r.1)) (link r.1 c.addr) (cs.map Block.addr) := by
      refine hl.2.congr fun q hq => ?_
      obtain ⟨c', hc', rfl⟩ := List.mem_map.1 hq
      have hapart := (List.pairwise_cons.1 (hc.layout.chunks_apart.sublist hsub)).1 c' hc'
      have hhas := hc.layout.has_header (hrest.subset hc') (n := 0) (by decide)
      exact congrArg ptr (hfree c hcm r.1 _ fun hin => hapart.not_has hin hhas)
    exact htail.head_eq ▸ htail

theorem foldl_freed (free : ℕ → (ℕ → ℕ) → ℕ → ℕ) (l : List ℕ) (r : (ℕ → ℕ) × List ℕ) :
    (l.foldl (fun r chunk => (free chunk r.1, r.2 ++ [chunk])) r).2 = r.2 ++ l := by
  induction l generalizing r with
  | nil => simp
  | cons x l ih => rw [List.foldl_cons, ih, List.append_assoc, List.singleton_append]

/-- Every chunk is freed once, and nothing else. The loop reads no link of a chunk that has been
    freed, so that it does not matter what `free` writes there. -/
theorem Reachable.cleanup (h : s.Reachable) {free : ℕ → (ℕ → ℕ) → ℕ → ℕ}
    (hfree : ∀ c ∈ s.chunks, ∀ mem a, ¬c.Has a → free c.addr mem a = mem a) {rounds : ℕ}
    (hrounds : s.chunks.length ≤ rounds) :
    (ndAllocCleanup free rounds s.heap).2 = s.chunks.map Block.addr ∧
      (s.chunks.map Block.addr).Nodup := by
  obtain ⟨hc, -⟩ := h.invariant
  refine ⟨?_, hc.list.nodup⟩
  have hhead := hc.list.head_eq
  have hstart : s.Remaining (s.heap.mem, []) (s.chunks.map Block.addr) :=
    ⟨hhead ▸ hc.list, s.chunks, List.Sublist.refl _, rfl⟩
  have hchain : ∀ r l, s.Remaining r l → Chain (link r.1) l.head? l := fun _ _ h => h.1
  have hloop := foreachS_eq_foldl hchain (fun _ _ _ h => h.free hc hfree) hstart
    (show _ ≤ rounds by simpa using hrounds)
  rw [ndAllocCleanup, hhead, hloop, foldl_freed, List.nil_append]

end State

namespace Small

/-- What the allocator goes through until the first object is freed. -/
def freedHistory : List State :=
  let s₁ := start.allocated 4096 5 ⟨4120, firstHeap, .chunk 16384⟩
  let s₂ := s₁.allocated 0 12 ⟨4128, (carveObject 4096 16 s₁.heap).2, .tail⟩
  [freedState, s₂, s₁, start]

theorem history_freedHistory : State.History freedHistory := by
  have hfirst : ndAlloc 1 4096 5 start.heap = .ok ⟨4120, firstHeap, .chunk 16384⟩ := rfl
  have h₁ : State.History [_, start] := .step (.init fun _ => 0) (.alloc (by decide) hfirst
    fun n _ => ⟨by decide, by decide, by decide, nofun⟩)
  have hsecond : ndAlloc 1 0 12 firstHeap =
      .ok ⟨4128, (carveObject 4096 16 firstHeap).2, .tail⟩ := rfl
  have h₂ := State.History.step h₁ (.alloc (by decide) hsecond nofun)
  exact .step h₂ (.free (by decide) (by decide) rfl)

theorem freedHistory_provided_le : State.taken 8 freedState = 1 ∧
    State.peakBytes freedHistory = 24 ∧
    State.bytes freedState.chunks ≤ chunkAllocSize + 4 * State.peakBytes freedHistory := by
  have h := State.History.provided_le history_freedHistory
  exact ⟨(h.1 8).trans (by decide), by decide, h.2⟩

/-- The memory after `n + 1` calls for 128 bytes, as long as they fit into the first chunk. -/
def filledHeap : ℕ → Heap
  | 0 => (carveObject 4096 128 (addChunk 4096 start.heap)).2
  | n + 1 => (carveObject 4096 128 (filledHeap n)).2

def filled : ℕ → State
  | 0 => start.allocated 4096 128 ⟨4120, filledHeap 0, .chunk 16384⟩
  | n + 1 => (filled n).allocated 0 128 ⟨4120 + 128 * (n + 1), filledHeap (n + 1), .tail⟩

/-- The first chunk is the only one, and 128 bytes less of it are left after each call. -/
theorem filledHeap_fields {n : ℕ} (hn : n ≤ 126) :
    (filledHeap n).free 4096 = 16232 - 128 * n ∧ (filledHeap n).size 4096 = 16384 ∧
      (filledHeap n).chunks = 4096 ∧ (filledHeap n).next 4096 = 0 ∧
      (filledHeap n).allocSize = 32768 ∧ (filledHeap n).freeObjects = fun _ => 0 := by
  induction n with
  | zero => exact ⟨by decide, by decide, rfl, by decide, by decide, rfl⟩
  | succ n ih =>
    obtain ⟨hfree, hsize, hchunks, hnext, halloc, hobjects⟩ := ih (by omega)
    have hother {a : ℕ} (ha : a ≠ 4096 + 8) : (filledHeap (n + 1)).mem a = (filledHeap n).mem a :=
      (filledHeap n).store_mem_of_ne _ ha
    refine ⟨?_, (hother (by decide)).trans hsize, hchunks, (hother (by decide)).trans hnext, halloc,
      hobjects⟩
    rw [filledHeap, carveObject, Heap.free, Heap.store_mem_self, hfree, wordSub]
    omega

theorem ndAlloc_filledHeap {n : ℕ} (hn : n + 1 ≤ 126) : ndAlloc 1 0 128 (filledHeap n) =
    .ok ⟨4120 + 128 * (n + 1), filledHeap (n + 1), .tail⟩ := by
  obtain ⟨hfree, hsize, hchunks, -, -, hobjects⟩ := filledHeap_fields (n := n) (by omega)
  have hfind : findChunk (filledHeap n) (roundUp 128) 1 (filledHeap n).chunks = some 4096 := by
    rw [hchunks, findChunk, hfree]
    exact if_pos (.inr (show 128 ≤ 16232 - 128 * n by omega))
  have hptr : (carveObject 4096 128 (filledHeap n)).1 = 4120 + 128 * (n + 1) := by
    rw [carveObject, hsize, hfree, wordSub]
    omega
  rw [ndAlloc, if_neg (by decide)]
  dsimp only
  rw [if_neg (by simp [hobjects]), hfind, ← hptr]
  rfl

theorem filled_reachable {n : ℕ} (hn : n ≤ 126) : (filled n).Reachable ∧
    (filled n).chunks = [⟨4096, 16384⟩] ∧ (filled n).heap = filledHeap n := by
  induction n with
  | zero =>
    have hfirst : ndAlloc 1 4096 128 start.heap = .ok ⟨4120, filledHeap 0, .chunk 16384⟩ := rfl
    exact ⟨(State.reachable_init fun _ => 0).step (.alloc (by decide) hfirst
      fun n _ => ⟨by decide, by decide, by decide, nofun⟩), rfl, rfl⟩
  | succ n ih =>
    obtain ⟨hreachable, hchunks, hheap⟩ := ih (by omega)
    exact ⟨hreachable.step (.alloc (by decide) (hheap ▸ ndAlloc_filledHeap hn) nofun), hchunks, rfl⟩

/-- The next object is taken from a second chunk, which is larger. -/
def twoChunks : State := (filled 126).allocated 32768 128
  ⟨32792, (carveObject 32768 128 (addChunk 32768 (filledHeap 126))).2, .chunk 32768⟩

theorem twoChunks_reachable : twoChunks.Reachable ∧
    twoChunks.chunks = [⟨32768, 32768⟩, ⟨4096, 16384⟩] := by
  obtain ⟨hreachable, hchunks, hheap⟩ := filled_reachable (le_refl 126)
  obtain ⟨hfree, -, hfirst, hnext, halloc, hobjects⟩ := filledHeap_fields (le_refl 126)
  have hfind : findChunk (filledHeap 126) (roundUp 128) 2 (filledHeap 126).chunks = some 0 := by
    rw [hfirst, findChunk, hfree, if_neg (by decide), hnext]
    rfl
  have hsecond : ndAlloc 2 32768 128 (filled 126).heap = .ok ⟨32792,
      (carveObject 32768 128 (addChunk 32768 (filledHeap 126))).2, .chunk 32768⟩ := by
    have hptr : (carveObject 32768 128 (addChunk 32768 (filledHeap 126))).1 = 32792 := by
      rw [carveObject, addChunk, halloc]
      decide
    rw [hheap, ndAlloc, if_neg (by decide)]
    dsimp only
    rw [if_neg (by simp [hobjects]), hfind, ← hptr, ← halloc]
    rfl
  refine ⟨hreachable.step (.alloc (by decide) hsecond fun n _ => ⟨by decide, by decide, ?_, ?_⟩),
    congrArg _ hchunks⟩
  · rw [hheap, halloc]
    decide
  · rw [hheap, halloc, hchunks, List.forall_mem_singleton, Block.Apart]
    decide

/-- A chunk is overwritten when it is freed. -/
def overwrite (chunk : ℕ) (mem : ℕ → ℕ) (a : ℕ) : ℕ :=
  if chunk ≤ a ∧ a < chunk + (if chunk = 4096 then 16384 else 32768) then 7 else mem a

theorem twoChunks_cleanup :
    (State.ndAllocCleanup overwrite 9 twoChunks.heap).2 = [32768, 4096] := by
  obtain ⟨hreachable, hchunks⟩ := twoChunks_reachable
  have hfree : ∀ c ∈ twoChunks.chunks, ∀ mem a, ¬c.Has a → overwrite c.addr mem a = mem a := by
    rw [hchunks, List.forall_mem_cons, List.forall_mem_singleton]
    exact ⟨fun mem a ha => if_neg ha, fun mem a ha => if_neg ha⟩
  have hcleanup := (State.Reachable.cleanup hreachable hfree
    (show twoChunks.chunks.length ≤ 9 by rw [hchunks]; decide)).1
  rwa [hchunks] at hcleanup

end Small

end Alloc

end Ndppd
