import Mathlib.Algebra.Order.Ring.Int
import Mathlib.Data.List.Infix
import Ndppd.Addr

/-!
# Print buffers

`nd_ntoa` and `nd_ll_ntoa` (`addr.c`) write the text of an address into one of three
static buffers, in turn, so that a log line may hold up to three of them. The turn is a
counter of the type `int` that is never reset: it wraps around, and the remainder of a
negative number is negative in C.

`rotates_iff` says for how long this works. The arguments of a log line are evaluated
before the verbosity is looked at (`ndLogPrintf`), so that every packet counts.
-/

namespace Ndppd

/-! ## Buffers -/

/-- The static variables of `nd_ntoa`, or of `nd_ll_ntoa`. The buffers are in memory, one
    after the other: what comes before them has a negative number. -/
structure Printer where
  index : BitVec 32
  buf : ℤ → List U8

/-- The static variables at start-up. -/
def Printer.init : Printer where
  index := 0
  buf _ := []

/-- `index % 3`. -/
def slot (index : BitVec 32) : ℤ := index.toInt.tmod 3

section Print

variable {α : Type} (format : α → List U8)

/-- Writes the text of an address, unless it is NULL; the number of the buffer. -/
def Printer.print (addr : Option α) (p : Printer) : Option ℤ × Printer :=
  match addr with
  | none => (none, p)
  | some a =>
    (some (slot p.index),
      { index := p.index + 1, buf := Function.update p.buf (slot p.index) (format a) })

end Print

/-- `nd_ntoa`, given the text that `inet_ntop` writes. -/
def ndNtoa (inetNtop : Addr → List U8) (addr : Option Addr) (p : Printer) : Option ℤ × Printer :=
  p.print inetNtop addr

/-- `nd_ll_ntoa`, given the text that `ether_ntoa_r` writes. -/
def ndLlNtoa (etherNtoaR : LlAddr → List U8) (addr : Option LlAddr) (p : Printer) :
    Option ℤ × Printer :=
  p.print etherNtoaR addr

/-- The buffers that are written in a sequence of calls, of one of these functions. -/
def writes {α : Type} (print : Option α → Printer → Option ℤ × Printer) :
    List (Option α) → Printer → List ℤ
  | [], _ => []
  | addr :: calls, p => (print addr p).1.toList ++ writes print calls (print addr p).2

/-- The number of calls with an address. -/
def printed {α : Type} (calls : List (Option α)) : ℕ := calls.countP Option.isSome

/-- The calls with an address write into one buffer after the other. -/
theorem writes_eq {α : Type} (format : α → List U8) (calls : List (Option α)) (p : Printer) :
    writes (fun addr p => p.print format addr) calls p =
      (List.range (printed calls)).map fun k => slot (p.index + BitVec.ofNat 32 k) := by
  induction calls generalizing p with
  | nil => rfl
  | cons addr calls ih =>
    cases addr with
    | none =>
      have hcount : printed (none :: calls) = printed calls := List.countP_cons_of_neg (by simp)
      rw [hcount]
      exact ih p
    | some a =>
      have hcount : printed (some a :: calls) = printed calls + 1 :=
        List.countP_cons_of_pos (by simp)
      have hnext (k : ℕ) : p.index + 1#32 + BitVec.ofNat 32 k =
          p.index + BitVec.ofNat 32 (k + 1) := by
        rw [BitVec.add_assoc, Nat.add_comm k, BitVec.ofNat_add]
      rw [hcount, List.range_succ_eq_map, List.map_cons, List.map_map, writes, ih]
      simp only [Printer.print, Option.toList_some, List.singleton_append, hnext,
        Function.comp_def, Nat.succ_eq_add_one, BitVec.ofNat_eq_ofNat, BitVec.add_zero]

/-! ## Turns -/

/-- The buffers are those that there are, and three in a row are different. -/
structure Rotates (slots : List ℤ) : Prop where
  inRange : ∀ s ∈ slots, s = 0 ∨ s = 1 ∨ s = 2
  differ : ∀ a b c, [a, b, c] <:+: slots → a ≠ b ∧ a ≠ c ∧ b ≠ c

/-- While the counter is not negative, the remainder is one. -/
theorem slot_ofNat {k : ℕ} (hk : k < 2 ^ 31) : slot (BitVec.ofNat 32 k) = (k % 3 : ℕ) := by
  have hint : (BitVec.ofNat 32 k).toInt = k := by
    rw [BitVec.toInt_ofNat']
    exact Int.bmod_eq_of_le (by omega) (by omega)
  rw [slot, hint]
  rfl

/-- The first call after the counter has wrapped around writes before the buffers. -/
theorem slot_wrapped : slot (BitVec.ofNat 32 (2 ^ 31)) = -2 := by decide

theorem rotates_map_slot_iff (n : ℕ) :
    Rotates ((List.range n).map fun k => slot (BitVec.ofNat 32 k)) ↔ n ≤ 2 ^ 31 := by
  constructor
  · intro h
    by_contra hn
    have hmem : slot (BitVec.ofNat 32 (2 ^ 31)) ∈
        (List.range n).map fun k => slot (BitVec.ofNat 32 k) :=
      List.mem_map.2 ⟨2 ^ 31, List.mem_range.2 (by omega), rfl⟩
    have hrange := h.inRange _ hmem
    rw [slot_wrapped] at hrange
    omega
  · intro hn
    constructor
    · intro s hs
      obtain ⟨k, hk, rfl⟩ := List.mem_map.1 hs
      rw [slot_ofNat (by have := List.mem_range.1 hk; omega)]
      omega
    · rintro a b c ⟨l₁, l₂, h⟩
      -- The three calls are those after the calls of `l₁`.
      have hlen := congrArg List.length h
      simp only [List.length_append, List.length_cons, List.length_nil, List.length_map,
        List.length_range] at hlen
      have hget (j : ℕ) (hj : j < 3) : [a, b, c][j]? = some (((l₁.length + j) % 3 : ℕ) : ℤ) := by
        have hat := congrArg (fun l : List ℤ => l[l₁.length + j]?) h
        rw [List.append_assoc] at hat
        simp only [List.getElem?_append_right (Nat.le_add_right ..), Nat.add_sub_cancel_left,
          List.getElem?_map, List.getElem?_range (show l₁.length + j < n by omega)] at hat
        rw [List.getElem?_append_left (by simpa using hj)] at hat
        rw [hat, Option.map_some, slot_ofNat (by omega)]
      have ha := Option.some.inj (hget 0 (by decide))
      have hb := Option.some.inj (hget 1 (by decide))
      have hc := Option.some.inj (hget 2 (by decide))
      omega

/-- The buffers rotate for the first `2 ^ 31` calls with an address since start-up. -/
theorem rotates_writes_iff {α : Type} (format : α → List U8) (calls : List (Option α)) :
    Rotates (writes (fun addr p => p.print format addr) calls .init) ↔ printed calls ≤ 2 ^ 31 := by
  have hwrites : writes (fun addr p => p.print format addr) calls .init =
      (List.range (printed calls)).map fun k => slot (BitVec.ofNat 32 k) := by
    rw [writes_eq]
    simp [Printer.init]
  rw [hwrites, rotates_map_slot_iff]

/-! ## Log lines -/

/-- `nd_loglevel_t`. -/
inductive LogLevel
  | error
  | info
  | debug
  | trace
  deriving DecidableEq

/-- `nd_log_printf`: the texts it prints, if the level is not above `nd_opt_verbosity`. -/
def ndLogPrintf (verbosity level : LogLevel) (texts : List (List U8)) : Option (List (List U8)) :=
  if level.ctorIdx > verbosity.ctorIdx then none else some texts

/-- The static variables of both functions. -/
structure Printers where
  ntoa : Printer
  llNtoa : Printer

/-- What a text is when the line is printed: that of a buffer, or `(null)`. -/
def Printer.text (p : Printer) (slot : Option ℤ) : List U8 :=
  slot.elim [0x28, 0x6e, 0x75, 0x6c, 0x6c, 0x29] p.buf

section Trace

variable (inetNtop : Addr → List U8) (etherNtoaR : LlAddr → List U8)

/-- The log line of `nd_proxy_handle_ns`: its arguments are evaluated first. -/
def traceNs (verbosity : LogLevel) (src dst tgt : Addr) (srcLl : Option LlAddr) (p : Printers) :
    Option (List (List U8)) × Printers :=
  let (src, ntoa) := ndNtoa inetNtop (some src) p.ntoa
  let (srcLl, llNtoa) := ndLlNtoa etherNtoaR srcLl p.llNtoa
  let (dst, ntoa) := ndNtoa inetNtop (some dst) ntoa
  let (tgt, ntoa) := ndNtoa inetNtop (some tgt) ntoa
  (ndLogPrintf verbosity .trace [ntoa.text src, llNtoa.text srcLl, ntoa.text dst, ntoa.text tgt],
    ⟨ntoa, llNtoa⟩)

/-- The buffers rotate for the first `2 ^ 31` calls with an address since start-up, and not
    for one more. A solicitation makes three of them, and one more if it has a link-layer
    address, whatever the verbosity is. -/
theorem rotates_iff :
    (∀ calls : List (Option Addr),
      Rotates (writes (ndNtoa inetNtop) calls .init) ↔ printed calls ≤ 2 ^ 31) ∧
    (∀ calls : List (Option LlAddr),
      Rotates (writes (ndLlNtoa etherNtoaR) calls .init) ↔ printed calls ≤ 2 ^ 31) ∧
    ∀ verbosity src dst tgt srcLl p,
      (traceNs inetNtop etherNtoaR verbosity src dst tgt srcLl p).2.ntoa.index =
        p.ntoa.index + 3 ∧
      (traceNs inetNtop etherNtoaR verbosity src dst tgt srcLl p).2.llNtoa.index =
        p.llNtoa.index + if srcLl.isSome then 1 else 0 := by
  refine ⟨rotates_writes_iff inetNtop, rotates_writes_iff etherNtoaR, ?_⟩
  refine fun verbosity src dst tgt srcLl p => ⟨?_, ?_⟩
  · change p.ntoa.index + 1 + 1 + 1 = p.ntoa.index + 3
    rw [BitVec.add_assoc, BitVec.add_assoc]
    rfl
  · cases srcLl with
    | none => exact (BitVec.add_zero _).symm
    | some ll => rfl

end Trace

/-- The call after `2 ^ 31` others writes before the buffers. -/
theorem Small.wrapped_not_rotates :
    ¬Rotates (writes (ndNtoa fun _ => []) (List.replicate (2 ^ 31 + 1) (some 0)) .init) := by
  have hcount : printed (List.replicate (2 ^ 31 + 1) (some (0 : Addr))) = 2 ^ 31 + 1 := by
    rw [printed, List.countP_replicate, if_pos Option.isSome_some]
  intro h
  have hle := (rotates_writes_iff (fun _ => []) _).1 h
  rw [hcount] at hle
  omega

end Ndppd
