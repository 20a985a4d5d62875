import Mathlib.Data.List.Basic

/-!
# Classic BPF

The machine that runs the filter of a socket on a packet: an accumulator, an index
register and a scratch memory, of 32-bit words. Jumps only go forward, so that
every program stops. A load outside of the packet ends the program, and drops the
packet, as returning zero does.
-/

namespace Bpf

abbrev Word := BitVec 32

/-- The size of a load. -/
inductive Size
  | half
  | byte

/-- The offset of a load: `k`, or `k` after the index register. -/
inductive Mode
  | abs
  | ind

inductive Op
  | add
  | mul

/-- A constant, or the index register. -/
inductive Operand
  | k (value : Word)
  | x

inductive Insn
  | ld (size : Size) (mode : Mode) (k : Word)
  | ldMem (i : ℕ)
  | ldxImm (k : Word)
  | st (i : ℕ)
  | alu (op : Op) (src : Operand)
  | tax
  | jeq (k : Word) (jt jf : ℕ)
  | ret (k : Word)

/-- The registers and the memory. -/
structure Machine where
  a : Word := 0
  x : Word := 0
  mem : ℕ → Word := fun _ => 0

/-- The bytes at an offset, the first one the most significant. -/
def load (packet : List (BitVec 8)) : Size → ℕ → Option Word
  | .byte, o => packet[o]?.map (BitVec.setWidth 32)
  | .half, o => packet[o]?.bind fun hi => packet[o + 1]?.map fun lo => (hi ++ lo).setWidth 32

def Mode.offset (s : Machine) (k : Word) : Mode → ℕ
  | .abs => k.toNat
  | .ind => (s.x + k).toNat

def Operand.value (s : Machine) : Operand → Word
  | .k value => value
  | .x => s.x

def Op.eval : Op → Word → Word → Word
  | .add => (· + ·)
  | .mul => (· * ·)

/-- What a program returns. There is no value if it has no end. -/
def run (packet : List (BitVec 8)) : List Insn → Machine → Option Word
  | [], _ => none
  | .ld size mode k :: rest, s =>
    match load packet size (mode.offset s k) with
    | none => some 0
    | some v => run packet rest { s with a := v }
  | .ldMem i :: rest, s => run packet rest { s with a := s.mem i }
  | .ldxImm k :: rest, s => run packet rest { s with x := k }
  | .st i :: rest, s => run packet rest { s with mem := Function.update s.mem i s.a }
  | .alu op src :: rest, s => run packet rest { s with a := op.eval s.a (src.value s) }
  | .tax :: rest, s => run packet rest { s with x := s.a }
  | .jeq k jt jf :: rest, s => run packet (rest.drop (if s.a = k then jt else jf)) s
  | .ret k :: _, _ => some k
termination_by prog => prog.length
decreasing_by all_goals simp only [List.length_drop, List.length_cons]; omega

variable {packet : List (BitVec 8)} {rest : List Insn} {s : Machine} {k : Word} {o : ℕ}

theorem run_ret : run packet (.ret k :: rest) s = some k := by rw [run]

theorem run_ldxImm : run packet (.ldxImm k :: rest) s = run packet rest { s with x := k } := by
  rw [run]

theorem run_st {i : ℕ} : run packet (.st i :: rest) s =
    run packet rest { s with mem := Function.update s.mem i s.a } := by rw [run]

theorem run_jeq_pos {jt jf : ℕ} (h : s.a = k) :
    run packet (.jeq k jt jf :: rest) s = run packet (rest.drop jt) s := by
  rw [run, if_pos h]

theorem run_jeq_neg {jt jf : ℕ} (h : s.a ≠ k) :
    run packet (.jeq k jt jf :: rest) s = run packet (rest.drop jf) s := by
  rw [run, if_neg h]

/-- A load of a byte. -/
theorem run_ld_byte {mode : Mode} (ho : mode.offset s k = o) :
    run packet (.ld .byte mode k :: rest) s = if o < packet.length then
      run packet rest { s with a := (packet.getD o 0).setWidth 32 } else some 0 := by
  rw [run, ho]
  split_ifs with h
  · simp [load, h]
  · simp [load, Nat.not_lt.1 h]

/-- A load of two bytes. -/
theorem run_ld_half {mode : Mode} (ho : mode.offset s k = o) :
    run packet (.ld .half mode k :: rest) s = if o + 1 < packet.length then
      run packet rest { s with a := (packet.getD o 0 ++ packet.getD (o + 1) 0).setWidth 32 }
      else some 0 := by
  rw [run, ho]
  split_ifs with h
  · simp [load, h, Nat.lt_of_succ_lt h]
  · cases hx : packet[o]? with
    | none => simp [load, hx]
    | some x => simp [load, hx, Nat.not_lt.1 h]

end Bpf
