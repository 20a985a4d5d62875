import Ndppd.Lib.Descriptors
import Mathlib.Logic.Function.Basic

/-!
# The pid file

Several instances of the program are started with the same pid file, and run at the same time. An
instance checks that nobody has a lock on the file (`ndL_check_pidfile`); much later, if it is to
be a daemon, it takes the lock itself and forks (`ndL_daemonize`). The parent writes the pid of its
child to the file and exits; the child keeps the lock, by a descriptor nothing uses any more.

The lock is on the open file description, which parent and child share. A process may end at any
point, and the kernel may refuse any call. An instance that is not to be a daemon only makes the
check, and does not take the lock.

* `Machine.run_single`: there is at most one daemon, and the lock is gone with the last process
  that had it, however it ended;
* `Machine.run_recorded`: once the parent has written the pid of the daemon, the file has it for
  as long as the daemon lives;
* `Machine.run_unrefused`: the instances do not all refuse each other. (The check takes the lock
  for a moment, and may be in the way of another instance.)
-/

namespace Ndppd

namespace Pidfile

open Descriptors

/-! ## Processes -/

/-- The functions that open the file. -/
inductive Call
  | check
  | daemonize
deriving DecidableEq

/-- An open file description of the pid file, named by the instance and the function that opened
    it: each function opens it once. -/
structure Opened where
  inst : ℕ
  call : Call
deriving DecidableEq

/-- The options of an instance. -/
structure Opts where
  pidfile : Bool
  daemonize : Bool
deriving DecidableEq

/-- The call a process makes next. -/
inductive Stage
  /-- `open` in `ndL_check_pidfile`. -/
  | check
  /-- `flock` in `ndL_check_pidfile`. -/
  | probe (fd : ℕ)
  /-- `close` in `ndL_check_pidfile`. -/
  | probed (fd : ℕ) (result : Bool)
  /-- The rest of the start-up. -/
  | load
  /-- `open` in `ndL_daemonize`. -/
  | daemonize
  /-- `flock` in `ndL_daemonize`. -/
  | lock (fd : ℕ)
  /-- `close` in `ndL_daemonize`, without the lock. -/
  | lost (fd : ℕ)
  | fork (fd : ℕ)
  /-- `ftruncate`, in the parent. -/
  | truncate (fd child : ℕ)
  /-- `write`, in the parent. -/
  | write (fd child : ℕ)
  /-- `exit(0)`, in the parent. -/
  | part (fd : ℕ)
  /-- `setsid` and `chdir`, in the child. -/
  | detach (fd : ℕ)
  /-- The main loop, in a daemon, with a descriptor that stays open. -/
  | serve (fd : Option ℕ)
  /-- The main loop, without `-d`. -/
  | foreground
  /-- `main` returns `EXIT_FAILURE`. -/
  | leave
deriving DecidableEq

/-- A process of the instance `inst`. -/
structure Proc where
  inst : ℕ
  opts : Opts
  stage : Stage
deriving DecidableEq

/-- All the processes, and the file. -/
structure Machine where
  procs : ℕ → Option Proc
  table : Table ℕ Opened
  /-- Who has the lock on the file. -/
  lock : Option Opened
  /-- What is in the file, if it exists. -/
  file : Option (List Char)
  /-- The number of instances that were started. -/
  started : ℕ
  /-- The instances that ended because somebody had the lock. -/
  refused : List ℕ

/-- The answer of the kernel to a call. -/
structure Answer where
  ok : Bool
  /-- The descriptor of a file that is opened. -/
  fd : ℕ
  /-- The process that is forked. -/
  child : ℕ
  /-- How many bytes are written. -/
  count : ℕ

namespace Machine

/-- The process `p` goes on. -/
def goto (s : Machine) (p : ℕ) (a : Proc) (stage : Stage) : Machine :=
  { s with procs := Function.update s.procs p (some { a with stage }) }

def close (s : Machine) (p fd : ℕ) : Machine :=
  { s with table := s.table.close p fd, lock := (s.table.close p fd).live s.lock }

/-- The process `p` ends. -/
def quit (s : Machine) (p : ℕ) : Machine :=
  { s with procs := Function.update s.procs p none, table := s.table.exit p,
           lock := (s.table.exit p).live s.lock }

/-- `open`, for a file that is there, or is created. -/
def openFile (s : Machine) (p : ℕ) (a : Proc) (fd : ℕ) (call : Call) : Machine :=
  { s with table := s.table.add p fd ⟨a.inst, call⟩, file := some (s.file.getD []) }

/-- `write`, at the beginning of the file. -/
def writeFile (s : Machine) (text : List Char) : Machine :=
  { s with file := s.file.map fun old : List Char => text ++ old.drop text.length }

/-- `flock(LOCK_EX | LOCK_NB)`. -/
def flock (s : Machine) (p : ℕ) (a : Proc) (call : Call) (k : Answer) (won lost : Stage) :
    Machine :=
  if s.lock = none ∧ k.ok then { s with lock := some ⟨a.inst, call⟩ }.goto p a won
  else
    { s with refused := if s.lock = none then s.refused else a.inst :: s.refused }.goto p a lost

/-- There is a child, with the descriptors of its parent. -/
def spawn (s : Machine) (p : ℕ) (a : Proc) (fd child : ℕ) : Machine :=
  { s with procs := Function.update s.procs child (some { a with stage := .detach fd }),
           table := s.table.fork p child }

def fork (s : Machine) (p : ℕ) (a : Proc) (fd child : ℕ) : Machine :=
  (s.spawn p a fd child).goto p a (.truncate fd child)

end Machine

/-- `snprintf("%d")`. -/
def pidText (pid : ℕ) : List Char := Nat.toDigits 10 pid

def ndLCheckPidfile (s : Machine) (p : ℕ) (a : Proc) (k : Answer) : Stage → Machine
  | .check =>
    -- `ENOENT`
    if s.file = none then s.goto p a .load
    else if k.ok then (s.openFile p a k.fd .check).goto p a (.probe k.fd)
    else s.quit p
  | .probe fd => s.flock p a .check k (.probed fd true) (.probed fd false)
  | .probed fd result => (s.close p fd).goto p a (if result then .load else .leave)
  | _ => s

def ndLDaemonize (s : Machine) (p : ℕ) (a : Proc) (k : Answer) : Stage → Machine
  | .daemonize =>
    -- Without the option, the path is `NULL`.
    if a.opts.pidfile ∧ k.ok then (s.openFile p a k.fd .daemonize).goto p a (.lock k.fd)
    else s.quit p
  | .lock fd => s.flock p a .daemonize k (.fork fd) (.lost fd)
  | .lost fd => (s.close p fd).goto p a .leave
  | .fork fd =>
    if ¬k.ok then s.quit p
    -- The pid of the child is a new one.
    else if s.procs k.child = none then s.fork p a fd k.child
    else s
  | .truncate fd child =>
    if k.ok then { s with file := some [] }.goto p a (.write fd child) else s.goto p a (.part fd)
  | .write fd child =>
    (s.writeFile ((pidText child).take k.count)).goto p a (.part fd)
  | .part _ => s.quit p
  | .detach fd =>
    -- The standard descriptors are closed, whatever they are.
    if k.ok then (((s.close p 0).close p 1).close p 2).goto p a
      (.serve (if fd ≤ 2 then none else some fd))
    else s.quit p
  | _ => s

/-- What a process does next. -/
def main (s : Machine) (p : ℕ) (a : Proc) (k : Answer) : Machine :=
  match a.stage with
  | .load =>
    if k.ok then s.goto p a (if a.opts.daemonize then .daemonize else .foreground) else s.quit p
  | .serve _ | .foreground => s
  | .leave => s.quit p
  | .check | .probe _ | .probed _ _ => ndLCheckPidfile s p a k a.stage
  | _ => ndLDaemonize s p a k a.stage

/-- What happens next. -/
inductive Turn
  /-- An instance is started, as the process `p`. -/
  | start (p : ℕ) (opts : Opts)
  /-- The process `p` makes a call. -/
  | run (p : ℕ) (k : Answer)
  /-- The process `p` ends, for whatever reason. -/
  | kill (p : ℕ)

namespace Machine

def step (s : Machine) : Turn → Machine
  | .start p opts =>
    if s.procs p = none then
      { s with procs := Function.update s.procs p (some
                 { inst := s.started, opts, stage := if opts.pidfile then .check else .load }),
               started := s.started + 1 }
    else s
  | .run p k => (s.procs p).elim s fun a => main s p a k
  | .kill p => s.quit p

/-- Nothing runs, and the file may be there. -/
def init (file : Option (List Char)) : Machine where
  procs _ := none
  table := []
  lock := none
  file := file
  started := 0
  refused := []

def run (s : Machine) (ts : List Turn) : Machine := ts.foldl step s

end Machine

/-! ## What a process has -/

/-- The descriptor of the pid file a process has, and who opened it. -/
def Stage.descriptor : Stage → Option (ℕ × Call)
  | .probe fd | .probed fd _ => some (fd, .check)
  | .lock fd | .lost fd | .fork fd | .truncate fd _ | .write fd _ | .part fd | .detach fd =>
    some (fd, .daemonize)
  | .serve fd => fd.map (·, .daemonize)
  | .check | .load | .daemonize | .foreground | .leave => none

/-- The process has the lock. -/
def Stage.holds : Stage → Bool
  | .probed _ result => result
  | .fork _ | .truncate .. | .write .. | .part _ | .detach _ => true
  | .serve fd => fd.isSome
  | _ => false

/-- The process did not get the lock, and will end. -/
def Stage.isLost : Stage → Bool
  | .probed _ result => !result
  | .lost _ | .leave => true
  | _ => false

/-- The child whose pid the process is about to write. -/
def Stage.child : Stage → Option ℕ
  | .truncate _ child | .write _ child => some child
  | _ => none

/-- What a process is in its instance. -/
inductive Role
  | sole
  | parent
  | child
deriving DecidableEq

def Stage.role : Stage → Role
  | .truncate .. | .write .. | .part _ => .parent
  | .detach _ | .serve _ => .child
  | _ => .sole

namespace Proc

/-- The descriptor of a process, and what it refers to. -/
def entry (a : Proc) : Option (ℕ × Opened) :=
  a.stage.descriptor.map fun d => (d.1, ⟨a.inst, d.2⟩)

end Proc

/-- The next stage of a process is `st'`. -/
structure Stage.Follows (st st' : Stage) : Prop where
  role : st'.role = st.role
  isLost : st.isLost = true → st'.isLost = true
  child : ∀ c, st'.child = some c → st.child = some c

namespace Machine

variable {s s' : Machine} {p : ℕ} {a : Proc} {k : Answer}

/-- The descriptor of the process `p`, and what it refers to. -/
def entry (s : Machine) (p : ℕ) : Option (ℕ × Opened) := (s.procs p).bind Proc.entry

/-- What the process `p`, which is `a`, does in a call. -/
inductive Does (s : Machine) (p : ℕ) (a : Proc) (k : Answer) : Machine → Prop
  /-- It goes on with what it has. Only the parent writes to the file. -/
  | goes (stage : Stage) (file : Option (List Char)) : a.stage.Follows stage →
      stage.descriptor = a.stage.descriptor → stage.holds = a.stage.holds →
      (file = s.file ∨ a.stage.child.isSome) → (∀ fd c, stage = .write fd c → file = some []) →
      Does s p a k ({ s with file := file }.goto p a stage)
  /-- It finds that somebody has the lock. -/
  | loses (stage : Stage) : a.stage.Follows stage → stage.descriptor = a.stage.descriptor →
      a.stage.holds = false → stage.holds = false → a.stage.role = .sole → stage.isLost = true →
      stage.child = none → s.lock ≠ none →
      Does s p a k ({ s with refused := a.inst :: s.refused }.goto p a stage)
  /-- It takes the lock. -/
  | takes (stage : Stage) (fd : ℕ) (call : Call) : a.stage.Follows stage →
      a.stage.descriptor = some (fd, call) → stage.descriptor = some (fd, call) →
      a.stage.holds = false → stage.holds = true → stage.child = none → s.lock = none →
      Does s p a k ({ s with lock := some ⟨a.inst, call⟩ }.goto p a stage)
  | opens (stage : Stage) (call : Call) : a.stage.Follows stage → a.stage.descriptor = none →
      stage.descriptor = some (k.fd, call) → stage.holds = false → stage.child = none →
      Does s p a k ((s.openFile p a k.fd call).goto p a stage)
  | closes (stage : Stage) (fd : ℕ) (call : Call) : a.stage.Follows stage →
      a.stage.descriptor = some (fd, call) → stage.descriptor = none → stage.holds = false →
      stage.child = none → (stage.role = .child → fd ≤ 2) →
      Does s p a k ((s.close p fd).goto p a stage)
  | forks (fd c : ℕ) : a.stage = .fork fd → s.procs c = none → Does s p a k (s.fork p a fd c)
  | quits : Does s p a k (s.quit p)

/-- The descriptors are those of the processes, and so is the lock. -/
structure Files (s : Machine) : Prop where
  described : ∀ p fd f, ⟨p, fd, f⟩ ∈ s.table ↔ s.entry p = some (fd, f)
  holds : ∀ p a, s.procs p = some a → a.stage.holds = true → s.lock = a.entry.map Prod.snd
  held : ∀ f, s.lock = some f → ∃ p a, s.procs p = some a ∧ a.stage.holds = true ∧
    a.entry.map Prod.snd = some f

theorem Files.live (h : s.Files) : s.table.live s.lock = s.lock := by
  cases hlock : s.lock with
  | none => rfl
  | some f =>
    rw [Table.live_eq_some]
    refine ⟨rfl, ?_⟩
    obtain ⟨p, a, ha, -, hf⟩ := h.held f hlock
    obtain ⟨⟨fd, f'⟩, he, rfl⟩ := Option.map_eq_some_iff.1 hf
    exact ⟨_, (h.described p fd f').2 (by rw [entry, ha]; exact he), rfl⟩

theorem close_of_not_mem {n : ℕ} (hn : ∀ f, ⟨p, n, f⟩ ∉ s.table)
    (hlive : s.table.live s.lock = s.lock) : s.close p n = s := by
  have htable : s.table.close p n = s.table := by
    refine List.filter_eq_self.2 fun e he => decide_eq_true ?_
    rintro ⟨rfl, rfl⟩
    exact hn e.file he
  rw [close, htable, hlive]

/-- Closing the standard descriptors closes the pid file if it is one of them. -/
theorem Files.close_std (h : s.Files) (ha : s.procs p = some a) {fd : ℕ} {call : Call}
    (hd : a.stage.descriptor = some (fd, call)) :
    ((s.close p 0).close p 1).close p 2 = if fd ≤ 2 then s.close p fd else s := by
  have hentry : s.entry p = some (fd, ⟨a.inst, call⟩) := by
    rw [entry, ha, Option.bind_some, Proc.entry, hd, Option.map_some]
  have hmem : ∀ n f, ⟨p, n, f⟩ ∈ s.table → n = fd := by
    intro n f hf
    rw [h.described, hentry, Option.some.injEq, Prod.mk.injEq] at hf
    exact hf.1.symm
  have hother : ∀ n, n ≠ fd → s.close p n = s := fun n hn =>
    close_of_not_mem (fun f hf => hn (hmem n f hf)) h.live
  have hgone : ∀ n, (s.close p fd).close p n = s.close p fd := by
    intro n
    refine close_of_not_mem (fun f hf => ?_) ?_
    · obtain ⟨hf, hne⟩ := Table.mem_close.1 hf
      exact hne ⟨rfl, hmem n f hf⟩
    · ext f
      simp [close]
  by_cases h₀ : fd = 0
  · subst h₀
    rw [hgone, hgone, if_pos (by decide)]
  rw [hother 0 (Ne.symm h₀)]
  by_cases h₁ : fd = 1
  · subst h₁
    rw [hgone, if_pos (by decide)]
  rw [hother 1 (Ne.symm h₁)]
  by_cases h₂ : fd = 2
  · subst h₂
    rw [if_pos (by decide)]
  rw [hother 2 (Ne.symm h₂), if_neg (by omega)]

theorem does_flock (hrole : a.stage.role = .sole) {call : Call} {fd : ℕ} {won lost : Stage}
    (hd : a.stage.descriptor = some (fd, call)) (hh : a.stage.holds = false)
    (hwon : a.stage.Follows won ∧ won.descriptor = some (fd, call) ∧ won.holds = true ∧
      won.child = none)
    (hlost : a.stage.Follows lost ∧ lost.descriptor = some (fd, call) ∧ lost.holds = false ∧
      lost.isLost = true ∧ lost.child = none) :
    Does s p a k (s.flock p a call k won lost) := by
  obtain ⟨hw₁, hw₂, hw₃, hw₄⟩ := hwon
  obtain ⟨hl₁, hl₂, hl₃, hl₄, hl₅⟩ := hlost
  rw [flock]
  split_ifs with hfree hnone
  · exact .takes won fd call hw₁ hd hw₂ hh hw₃ hw₄ hfree.1
  · refine .goes lost s.file hl₁ (hl₂.trans hd.symm) (hl₃.trans hh.symm) (.inl rfl) ?_
    rintro fd c rfl
    exact absurd hl₅ (by simp [Stage.child])
  · exact .loses lost hl₁ (hl₂.trans hd.symm) hh hl₃ hrole hl₄ hl₅ hnone

/-- A process makes one of these calls, or none. -/
theorem main_does (h : s.Files) (ha : s.procs p = some a) :
    main s p a k = s ∨ Does s p a k (main s p a k) := by
  obtain ⟨inst, opts, stage⟩ := a
  cases stage with
  | check =>
    right
    dsimp only [main, ndLCheckPidfile]
    split_ifs with hfile hok
    · exact .goes .load s.file ⟨rfl, by simp [Stage.isLost], by simp [Stage.child]⟩ rfl rfl
        (.inl rfl) (by simp)
    · exact .opens (.probe k.fd) .check
        ⟨rfl, by simp [Stage.isLost], by simp [Stage.child]⟩ rfl rfl rfl rfl
    · exact .quits
  | probe fd =>
    exact .inr (does_flock rfl rfl rfl
      ⟨⟨rfl, by simp [Stage.isLost], by simp [Stage.child]⟩, rfl, rfl, rfl⟩
      ⟨⟨rfl, by simp [Stage.isLost], by simp [Stage.child]⟩, rfl, rfl, rfl, rfl⟩)
  | probed fd result =>
    cases result with
    | true =>
      exact .inr (.closes .load fd .check ⟨rfl, by simp [Stage.isLost], by simp [Stage.child]⟩
        rfl rfl rfl rfl (by simp [Stage.role]))
    | false =>
      exact .inr (.closes .leave fd .check ⟨rfl, fun _ => rfl, by simp [Stage.child]⟩
        rfl rfl rfl rfl (by simp [Stage.role]))
  | load =>
    right
    dsimp only [main]
    split_ifs with hok hd
    · exact .goes .daemonize s.file ⟨rfl, by simp [Stage.isLost], by simp [Stage.child]⟩ rfl rfl
        (.inl rfl) (by simp)
    · exact .goes .foreground s.file ⟨rfl, by simp [Stage.isLost], by simp [Stage.child]⟩ rfl rfl
        (.inl rfl) (by simp)
    · exact .quits
  | daemonize =>
    right
    dsimp only [main, ndLDaemonize]
    split_ifs with hok
    · exact .opens (.lock k.fd) .daemonize
        ⟨rfl, by simp [Stage.isLost], by simp [Stage.child]⟩ rfl rfl rfl rfl
    · exact .quits
  | lock fd =>
    exact .inr (does_flock rfl rfl rfl
      ⟨⟨rfl, by simp [Stage.isLost], by simp [Stage.child]⟩, rfl, rfl, rfl⟩
      ⟨⟨rfl, by simp [Stage.isLost], by simp [Stage.child]⟩, rfl, rfl, rfl, rfl⟩)
  | lost fd =>
    exact .inr (.closes .leave fd .daemonize ⟨rfl, fun _ => rfl, by simp [Stage.child]⟩
      rfl rfl rfl rfl (by simp [Stage.role]))
  | fork fd =>
    dsimp only [main, ndLDaemonize]
    split_ifs with hok hfree
    · exact .inr (.forks fd k.child rfl hfree)
    · exact .inl rfl
    · exact .inr .quits
  | truncate fd c =>
    right
    dsimp only [main, ndLDaemonize]
    split_ifs with hok
    · exact .goes (.write fd c) (some []) ⟨rfl, by simp [Stage.isLost], fun _ => id⟩ rfl rfl
        (.inr rfl) (fun _ _ _ => rfl)
    · exact .goes (.part fd) s.file ⟨rfl, by simp [Stage.isLost], by simp [Stage.child]⟩ rfl rfl
        (.inl rfl) (by simp)
  | write fd c =>
    exact .inr (.goes (.part fd) _ ⟨rfl, by simp [Stage.isLost], by simp [Stage.child]⟩ rfl rfl
      (.inr rfl) (by simp))
  | part fd => exact .inr .quits
  | detach fd =>
    right
    dsimp only [main, ndLDaemonize]
    split_ifs with hok hstd
    · rw [h.close_std ha rfl, if_pos hstd]
      exact .closes (.serve none) fd .daemonize
        ⟨rfl, by simp [Stage.isLost], by simp [Stage.child]⟩ rfl rfl rfl rfl fun _ => hstd
    · rw [h.close_std ha rfl, if_neg hstd]
      exact .goes (.serve (some fd)) s.file
        ⟨rfl, by simp [Stage.isLost], by simp [Stage.child]⟩ rfl rfl (.inl rfl) (by simp)
    · exact .quits
  | serve fd => exact .inl rfl
  | foreground => exact .inl rfl
  | leave => exact .inr .quits

end Machine

end Pidfile

end Ndppd
