import Mathlib.Data.List.Nodup

/-!
# Open file descriptions

What a process opens is an open file description, which its descriptors refer to. A process that
forks shares its descriptions with its child: each of them is closed when the last descriptor that
refers to it is, in whichever process. Locks and registrations belong to the description, not to
the descriptor, and live as long (`Table.live`).

The descriptions are named by an arbitrary type.
-/

namespace Descriptors

variable {P F : Type*}

/-- The process `proc` refers to `file` by the number `fd`. -/
structure Descriptor (P F : Type*) where
  proc : P
  fd : ℕ
  file : F
deriving DecidableEq

/-- The descriptors of all processes. -/
abbrev Table (P F : Type*) := List (Descriptor P F)

namespace Table

variable {t : Table P F} {p q : P} {fd : ℕ} {f : F} {e : Descriptor P F}

/-! ## Descriptors -/

/-- `p` opens `f`. -/
def add (t : Table P F) (p : P) (fd : ℕ) (f : F) : Table P F := ⟨p, fd, f⟩ :: t

@[simp] theorem mem_add : e ∈ t.add p fd f ↔ e = ⟨p, fd, f⟩ ∨ e ∈ t := List.mem_cons

section

variable [DecidableEq P]

/-- `p` closes a descriptor. -/
def close (t : Table P F) (p : P) (fd : ℕ) : Table P F :=
  t.filter fun e => ¬(e.proc = p ∧ e.fd = fd)

/-- `q` is a copy of `p`. -/
def fork (t : Table P F) (p q : P) : Table P F :=
  t ++ (t.filter fun e => e.proc = p).map fun e => { e with proc := q }

/-- `p` ends. -/
def exit (t : Table P F) (p : P) : Table P F := t.filter fun e => e.proc ≠ p

@[simp] theorem mem_close : e ∈ t.close p fd ↔ e ∈ t ∧ ¬(e.proc = p ∧ e.fd = fd) := by
  rw [close, List.mem_filter, decide_eq_true_eq]

@[simp] theorem mem_exit : e ∈ t.exit p ↔ e ∈ t ∧ e.proc ≠ p := by
  rw [exit, List.mem_filter, decide_eq_true_eq]

@[simp] theorem mem_fork :
    e ∈ t.fork p q ↔ e ∈ t ∨ e.proc = q ∧ ⟨p, e.fd, e.file⟩ ∈ t := by
  simp only [fork, List.mem_append, List.mem_map, List.mem_filter, decide_eq_true_eq]
  refine or_congr_right ⟨?_, ?_⟩
  · rintro ⟨e', ⟨he', rfl⟩, rfl⟩
    exact ⟨rfl, he'⟩
  · rintro ⟨rfl, he⟩
    exact ⟨_, ⟨he, rfl⟩, rfl⟩

end

/-! ## Descriptions -/

/-- Some descriptor refers to the description. -/
def IsOpen (t : Table P F) (f : F) : Prop := ∃ e ∈ t, e.file = f

variable [DecidableEq F]

instance (t : Table P F) (f : F) : Decidable (t.IsOpen f) :=
  inferInstanceAs (Decidable (∃ e ∈ t, e.file = f))

/-- What belongs to a description, while it is open. -/
def live (t : Table P F) (o : Option F) : Option F := o.filter fun f => t.IsOpen f

@[simp] theorem live_eq_some {o : Option F} : t.live o = some f ↔ o = some f ∧ t.IsOpen f := by
  simp [live, Option.filter_eq_some_iff]

end Table

end Descriptors
