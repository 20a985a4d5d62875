import Ndppd.Pidfile.Order
import Mathlib.Data.List.Induction

/-!
# One daemon

The results about the runs, from the order that every call keeps.

The daemon closes the standard descriptors before it serves. The pid file is none of them if they
were taken when it was opened, as they are once the sockets are there (`Turn.Standard`); or else
the daemon would close the pid file, and lose the lock.
-/

namespace Ndppd

namespace Pidfile

variable {st : Stage}

/-- The pid file is not opened as a standard descriptor. -/
def Turn.Standard : Turn → Prop
  | .run _ k => 2 < k.fd
  | _ => True

instance : ∀ t : Turn, Decidable t.Standard
  | .run _ k => inferInstanceAs (Decidable (2 < k.fd))
  | .start .. => inferInstanceAs (Decidable True)
  | .kill _ => inferInstanceAs (Decidable True)

/-- The process is a daemon, in its main loop. -/
def Stage.Serves : Stage → Prop
  | .serve _ => True
  | _ => False

theorem Stage.role_of_serves (h : st.Serves) : st.role = .child := by
  cases st <;> first | rfl | exact absurd h id

namespace Machine

variable {s s' : Machine} {p q : ℕ} {a b : Proc} {k : Answer} {t : Turn} {ts : List Turn}
  {file : Option (List Char)}

/-- The descriptors are not standard ones, and a daemon has one. -/
def Kept (s : Machine) : Prop :=
  ∀ p a, s.procs p = some a → a.stage ≠ .serve none ∧
    ∀ fd call, a.stage.descriptor = some (fd, call) → 2 < fd

theorem Kept.update (h : s.Kept) (hprocs : s'.procs = Function.update s.procs p (some a))
    (hserve : a.stage ≠ .serve none)
    (hfd : ∀ fd call, a.stage.descriptor = some (fd, call) → 2 < fd) : s'.Kept := by
  intro q b hb
  rw [hprocs] at hb
  rcases of_update hb with ⟨-, hb'⟩ | ⟨-, hb'⟩
  · obtain rfl := Option.some.inj hb'
    exact ⟨hserve, hfd⟩
  · exact h q b hb'

theorem Kept.quit (h : s.Kept) (p : ℕ) : (s.quit p).Kept := by
  intro q b hb
  rcases of_update hb with ⟨-, hb'⟩ | ⟨-, hb'⟩
  · exact absurd hb' (by simp)
  · exact h q b hb'

/-- A child has the pid file open. -/
theorem Kept.ne_serve_none (h : s.Kept) (ha : s.procs p = some a)
    (hrole : st.role = a.stage.role) (hd : st.descriptor = a.stage.descriptor) :
    st ≠ .serve none := by
  rintro rfl
  have hne := (h p a ha).1
  cases hst : a.stage with
  | serve fd =>
    rw [hst] at hd hne
    cases fd with
    | none => exact hne rfl
    | some fd => exact absurd hd (by simp [Stage.descriptor])
  | detach fd =>
    rw [hst] at hd
    exact absurd hd (by simp [Stage.descriptor])
  | _ =>
    rw [hst] at hrole
    exact absurd hrole (by simp [Stage.role])

theorem Kept.does (h : s.Kept) (ha : s.procs p = some a) (hfd : 2 < k.fd)
    (hd : Does s p a k s') : s'.Kept := by
  have hold := (h p a ha).2
  cases hd with
  | goes st file hf hdesc =>
    exact h.update rfl (h.ne_serve_none ha hf.role hdesc)
      fun fd call hd => hold fd call (hdesc ▸ hd)
  | loses st hf hdesc =>
    exact h.update rfl (h.ne_serve_none ha hf.role hdesc)
      fun fd call hd => hold fd call (hdesc ▸ hd)
  | takes st fd call hf hdesc hdesc' =>
    have hdesc'' := hdesc'.trans hdesc.symm
    exact h.update rfl (h.ne_serve_none ha hf.role hdesc'') fun fd call hd =>
      hold fd call (hdesc'' ▸ hd)
  | opens st call hf hdesc hdesc' =>
    refine h.update rfl ?_ fun fd call' hd => ?_
    · rintro rfl
      exact absurd hdesc' (by simp [Stage.descriptor])
    · obtain ⟨rfl, -⟩ := Prod.mk.inj (Option.some.inj (hdesc'.symm.trans hd))
      exact hfd
  | closes st fd call hf hdesc hdesc' _ _ hstd =>
    refine h.update rfl ?_ fun fd call hd => absurd (hdesc'.symm.trans hd) (by simp)
    rintro rfl
    have := hold fd call hdesc
    have := hstd rfl
    omega
  | forks fd c hst =>
    have hfd : 2 < fd := hold fd .daemonize (by rw [hst]; rfl)
    have hone : ∀ st : Stage, st.descriptor = some (fd, .daemonize) → st ≠ .serve none ∧
        ∀ fd call, st.descriptor = some (fd, call) → 2 < fd := by
      intro st hd
      refine ⟨?_, fun fd' call hd' => ?_⟩
      · rintro rfl
        exact absurd hd (by simp [Stage.descriptor])
      · obtain ⟨rfl, -⟩ := Prod.mk.inj (Option.some.inj (hd.symm.trans hd'))
        exact hfd
    have hspawn : (s.spawn p a fd c).Kept :=
      h.update rfl (hone (.detach fd) rfl).1 (hone (.detach fd) rfl).2
    exact hspawn.update rfl (hone (.truncate fd c) rfl).1 (hone (.truncate fd c) rfl).2
  | quits => exact h.quit p

theorem Kept.step (h : s.Kept) (ho : s.Orderly) (ht : t.Standard) : (s.step t).Kept := by
  cases t with
  | start p opts =>
    rw [Machine.step]
    by_cases hp : s.procs p = none
    · rw [if_pos hp]
      refine h.update rfl ?_ fun fd call => ?_
      · dsimp only
        split_ifs <;> simp
      · dsimp only
        split_ifs <;> simp [Stage.descriptor]
    · rw [if_neg hp]
      exact h
  | run p k =>
    rw [Machine.step]
    cases ha : s.procs p with
    | none => exact h
    | some a =>
      rw [Option.elim_some]
      rcases main_does (k := k) ho.files ha with hs | hd
      · rw [hs]
        exact h
      · exact h.does ha ht hd
  | kill p => exact h.quit p

theorem run_concat (s : Machine) (ts : List Turn) (t : Turn) :
    s.run (ts ++ [t]) = (s.run ts).step t := List.foldl_concat ..

theorem run_kept (file : Option (List Char)) (hts : ∀ t ∈ ts, t.Standard) :
    ((init file).run ts).Kept := by
  induction ts using List.reverseRecOn with
  | nil => exact fun p a ha => absurd ha (by simp [run, init])
  | append_singleton ts t ih =>
    rw [run_concat]
    exact (ih fun t' ht' => hts t' (by simp [ht'])).step (run_orderly file ts) (hts t (by simp))

/-- A process that is not alone in its instance has the lock. -/
theorem Kept.holds_of_role (h : s.Kept) (ha : s.procs p = some a) (hrole : a.stage.role ≠ .sole) :
    a.stage.holds = true := by
  have hne := (h p a ha).1
  refine Stage.holds_of_role hrole ?_
  cases hst : a.stage with
  | serve fd =>
    rw [hst] at hne
    cases fd with
    | none => exact absurd rfl hne
    | some fd => rfl
  | _ =>
    rw [hst] at hrole
    first | rfl | exact absurd rfl hrole

/-- In every run there is at most one daemon. The lock is had by a process that lives: it does not
    outlast the processes, however they end. -/
theorem run_single (file : Option (List Char)) (hts : ∀ t ∈ ts, t.Standard) :
    let s := (init file).run ts
    (∀ p q a b, s.procs p = some a → s.procs q = some b → a.stage.Serves → b.stage.Serves →
      p = q) ∧
    ∀ f, s.lock = some f → ∃ p a, s.procs p = some a ∧ a.inst = f.inst ∧ a.stage.holds = true := by
  have ho := run_orderly file ts
  have hk := run_kept file hts
  refine ⟨fun p q a b ha hb hpa hqb => ?_, fun f hf => ?_⟩
  · have hrole := Stage.role_of_serves hpa
    have hrole' := Stage.role_of_serves hqb
    have hhold := hk.holds_of_role ha (by simp [hrole])
    have hhold' := hk.holds_of_role hb (by simp [hrole'])
    by_contra hne
    rcases ho.ranks.paired p q a b hne ha hb (ho.files.inst_eq ha hb hhold hhold') with
      ⟨h, -⟩ | ⟨-, h⟩
    · exact absurd (hrole.symm.trans h) (by simp)
    · exact absurd (hrole'.symm.trans h) (by simp)
  · obtain ⟨p, a, ha, hhold, he⟩ := ho.files.held f hf
    exact ⟨p, a, ha, (Proc.inst_of_entry he).symm, hhold⟩

/-! ## What is in the file -/

/-- The file has the pid `c` for as long as there is a process of the instance `i`, which is its
    child or has written it. -/
structure Recorded (s : Machine) (i c : ℕ) : Prop where
  lt : i < s.started
  proc : ∀ p a, s.procs p = some a → a.inst = i → a.stage.role ≠ .sole ∧ a.stage.child = none ∧
    (a.stage.role = .child → p = c) ∧ s.file = some (pidText c)

variable {i c : ℕ}

theorem Recorded.update (h : s.Recorded i c) {o : Option Proc}
    (hprocs : s'.procs = Function.update s.procs p o) (hstarted : s.started ≤ s'.started)
    (hself : ∀ b, o = some b → b.inst = i → b.stage.role ≠ .sole ∧ b.stage.child = none ∧
      (b.stage.role = .child → p = c))
    (hfile : ∀ q b, s'.procs q = some b → b.inst = i → s'.file = some (pidText c)) :
    s'.Recorded i c := by
  refine ⟨Nat.lt_of_lt_of_le h.lt hstarted, fun q b hb hi => ?_⟩
  have hf := hfile q b hb hi
  rw [hprocs] at hb
  rcases of_update hb with ⟨rfl, hb'⟩ | ⟨-, hb'⟩
  · obtain ⟨h₁, h₂, h₃⟩ := hself b hb' hi
    exact ⟨h₁, h₂, h₃, hf⟩
  · obtain ⟨h₁, h₂, h₃, -⟩ := h.proc q b hb' hi
    exact ⟨h₁, h₂, h₃, hf⟩

theorem Recorded.quit (h : s.Recorded i c) (p : ℕ) : (s.quit p).Recorded i c := by
  refine h.update rfl (Nat.le_refl _) (by simp) fun q b hb hi => ?_
  rcases of_update hb with ⟨-, hb'⟩ | ⟨-, hb'⟩
  · exact absurd hb' (by simp)
  · exact (h.proc q b hb' hi).2.2.2

/-- Nobody else writes to the file. -/
theorem Recorded.does (h : s.Recorded i c) (ho : s.Orderly) (hk : s.Kept)
    (ha : s.procs p = some a) (hd : Does s p a k s') : s'.Recorded i c := by
  -- A process goes on in the role it has.
  have hgoes : ∀ st : Stage, a.stage.Follows st →
      ∀ b, some { a with stage := st } = some b → b.inst = i → b.stage.role ≠ .sole ∧
        b.stage.child = none ∧ (b.stage.role = .child → p = c) := by
    rintro st hf b hb hi
    obtain rfl := Option.some.inj hb
    obtain ⟨hrole, hchild, hpid, -⟩ := h.proc p a ha hi
    refine ⟨hf.role.trans_ne hrole, ?_, fun hr => hpid (hf.role.symm.trans hr)⟩
    by_contra hc
    obtain ⟨n, hn⟩ := Option.ne_none_iff_exists'.1 hc
    exact absurd (hchild.symm.trans (hf.child n hn)) (by simp)
  -- The instance had a process before.
  have hold : ∀ (st : Stage) q b,
      Function.update s.procs p (some { a with stage := st }) q = some b → b.inst = i →
        ∃ q₀ b₀, s.procs q₀ = some b₀ ∧ b₀.inst = i := by
    intro st q b hb hi
    rcases of_update hb with ⟨-, hb'⟩ | ⟨-, hb'⟩
    · obtain rfl := Option.some.inj hb'
      exact ⟨p, a, ha, hi⟩
    · exact ⟨q, b, hb', hi⟩
  have hfile : ∀ (st : Stage) q b,
      Function.update s.procs p (some { a with stage := st }) q = some b → b.inst = i →
        s.file = some (pidText c) := by
    intro st q b hb hi
    obtain ⟨q₀, b₀, hb₀, hi₀⟩ := hold st q b hb hi
    exact (h.proc q₀ b₀ hb₀ hi₀).2.2.2
  cases hd with
  | goes st file hf hdesc hholds hwrites =>
    refine h.update rfl (Nat.le_refl _) (hgoes st hf) fun q b hb hi => ?_
    -- The one that writes has the lock, and is of the instance; but nobody there writes.
    refine Eq.trans (hwrites.resolve_right fun hchild => ?_) (hfile st q b hb hi)
    obtain ⟨q₀, b₀, hb₀, hi₀⟩ := hold st q b hb hi
    have hinst := ho.files.inst_eq ha hb₀ (Stage.holds_of_child hchild)
      (hk.holds_of_role hb₀ (h.proc q₀ b₀ hb₀ hi₀).1)
    have hnone := (h.proc p a ha (hinst.trans hi₀)).2.1
    rw [hnone] at hchild
    exact absurd hchild (by simp)
  | loses st hf => exact h.update rfl (Nat.le_refl _) (hgoes st hf) (hfile st)
  | takes st fd call hf => exact h.update rfl (Nat.le_refl _) (hgoes st hf) (hfile st)
  | opens st call hf =>
    refine h.update rfl (Nat.le_refl _) (hgoes st hf) fun q b hb hi => ?_
    change some (s.file.getD []) = _
    rw [hfile st q b hb hi]
    rfl
  | closes st fd call hf => exact h.update rfl (Nat.le_refl _) (hgoes st hf) (hfile st)
  | forks fd n hst hn =>
    -- An instance that forks has one process.
    have hne : a.inst ≠ i := fun hi => (h.proc p a ha hi).1 (by rw [hst]; rfl)
    refine ⟨h.lt, fun q b hb hi => ?_⟩
    rcases of_update (s := s.spawn p a fd n) hb with ⟨-, hb'⟩ | ⟨-, hb'⟩
    · obtain rfl := Option.some.inj hb'
      exact absurd hi hne
    · rcases of_update hb' with ⟨-, hb''⟩ | ⟨-, hb''⟩
      · obtain rfl := Option.some.inj hb''
        exact absurd hi hne
      · exact h.proc q b hb'' hi
  | quits => exact h.quit p

theorem Recorded.step (h : s.Recorded i c) (ho : s.Orderly) (hk : s.Kept) (t : Turn) :
    (s.step t).Recorded i c := by
  cases t with
  | start p opts =>
    rw [Machine.step]
    by_cases hp : s.procs p = none
    · rw [if_pos hp]
      have hne : s.started ≠ i := (Nat.ne_of_lt h.lt).symm
      refine h.update rfl (Nat.le_succ _) ?_ fun q b hb hi => ?_
      · rintro b hb hi
        obtain rfl := Option.some.inj hb
        exact absurd hi hne
      · rcases of_update hb with ⟨-, hb'⟩ | ⟨-, hb'⟩
        · obtain rfl := Option.some.inj hb'
          exact absurd hi hne
        · exact (h.proc q b hb' hi).2.2.2
    · rw [if_neg hp]
      exact h
  | run p k =>
    rw [Machine.step]
    cases ha : s.procs p with
    | none => exact h
    | some a =>
      rw [Option.elim_some]
      rcases main_does (k := k) ho.files ha with hs | hd
      · rw [hs]
        exact h
      · exact h.does ho hk ha hd
  | kill p => exact h.quit p

/-- The parent writes the pid of its child. -/
theorem Orderly.recorded (ho : s.Orderly) (ha : s.procs p = some a) {fd : ℕ}
    (hst : a.stage = .write fd c) (hcount : (pidText c).length ≤ k.count) :
    (s.step (.run p k)).Recorded a.inst c := by
  have hstep : s.step (.run p k) =
      (s.writeFile ((pidText c).take k.count)).goto p a (.part fd) := by
    rw [Machine.step, ha, Option.elim_some, main]
    simp only [hst, ndLDaemonize]
  have hfile : (s.step (.run p k)).file = some (pidText c) := by
    rw [hstep]
    change s.file.map _ = _
    rw [ho.blank p a fd c ha hst, List.take_of_length_le hcount]
    simp
  refine ⟨?_, fun q b hb hi => ?_⟩
  · rw [hstep]
    exact ho.ranks.inst_lt p a ha
  · rw [hstep] at hb
    rcases of_update hb with ⟨-, hb'⟩ | ⟨hne, hb'⟩
    · obtain rfl := Option.some.inj hb'
      exact ⟨by simp [Stage.role], rfl, by simp [Stage.role], hfile⟩
    · have hrole : b.stage.role = .child := by
        rcases ho.ranks.paired q p b a hne hb' ha hi with ⟨-, hr⟩ | ⟨hr, -⟩
        · rw [hst] at hr
          exact absurd hr (by simp [Stage.role])
        · exact hr
      have hchild : b.stage.child = none := by
        rw [← Option.not_isSome_iff_eq_none]
        intro hsome
        exact absurd ((Stage.role_of_child hsome).symm.trans hrole) (by simp)
      refine ⟨by simp [hrole], hchild, fun _ => ?_, hfile⟩
      exact ho.ranks.child p q a b c hne.symm ha hb' hi.symm (by rw [hst]; rfl)

/-- Once the parent has written the pid of its child, whatever happens then, the child is the
    daemon of the instance, and the file has its pid for as long as the daemon lives, if the pid
    file is never opened as a standard descriptor. -/
theorem run_recorded (file : Option (List Char)) {ts' : List Turn} {fd : ℕ}
    (hts : ∀ t ∈ ts ++ [.run p k] ++ ts', t.Standard)
    (ha : ((init file).run ts).procs p = some a) (hst : a.stage = .write fd c)
    (hcount : (pidText c).length ≤ k.count)
    (hb : ((init file).run (ts ++ [.run p k] ++ ts')).procs q = some b)
    (hinst : b.inst = a.inst) (hserves : b.stage.Serves) :
    q = c ∧ ((init file).run (ts ++ [.run p k] ++ ts')).file = some (pidText c) := by
  have hrec : ((init file).run (ts ++ [.run p k] ++ ts')).Recorded a.inst c := by
    clear hb
    induction ts' using List.reverseRecOn with
    | nil =>
      rw [List.append_nil, run_concat]
      exact (run_orderly file ts).recorded ha hst hcount
    | append_singleton ts' t ih =>
      rw [← List.append_assoc] at hts ⊢
      have hts' : ∀ t ∈ ts ++ [.run p k] ++ ts', t.Standard := fun t' ht' =>
        hts t' (List.mem_append_left _ ht')
      rw [run_concat]
      exact (ih hts').step (run_orderly file _) (run_kept file hts') t
  obtain ⟨-, -, hpid, hfile⟩ := hrec.proc q b hb hinst
  exact ⟨hpid (Stage.role_of_serves hserves), hfile⟩

/-! ## Who is refused -/

/-- A process is refused by one of another instance, which has the lock. -/
theorem Orderly.refused_by (ho : s.Orderly) (ha : s.procs p = some a) (hd : Does s p a k s')
    (hne : s'.refused ≠ s.refused) :
    ∃ q b, s.procs q = some b ∧ b.inst ≠ a.inst ∧ b.stage.holds = true := by
  cases hd with
  | loses st hf hdesc hh hh' hrole hlost hchild hlock =>
    obtain ⟨f, hf⟩ := Option.ne_none_iff_exists'.1 hlock
    obtain ⟨q, b, hb, hhb, -⟩ := ho.files.held f hf
    refine ⟨q, b, hb, fun hinst => ?_, hhb⟩
    obtain rfl := ho.ranks.paired.eq ha hrole hb hinst
    obtain rfl := Option.some.inj (ha.symm.trans hb)
    exact absurd (hh.symm.trans hhb) (by simp)
  | _ => exact absurd rfl hne

/-- The instances do not all refuse each other, in any run: one of them is not refused. An instance
    is refused only by a process of another one, which has the lock then. -/
theorem run_unrefused (file : Option (List Char)) (ts : List Turn) :
    let s := (init file).run ts
    (0 < s.started → ∃ i < s.started, i ∉ s.refused) ∧
    ∀ p a k, s.procs p = some a → (s.step (.run p k)).refused ≠ s.refused →
      ∃ q b, s.procs q = some b ∧ b.inst ≠ a.inst ∧ b.stage.holds = true := by
  have ho := run_orderly file ts
  refine ⟨ho.ranks.unrefused, fun p a k ha hne => ?_⟩
  rw [Machine.step, ha, Option.elim_some] at hne
  rcases main_does (k := k) ho.files ha with hs | hd
  · exact absurd (congrArg Machine.refused hs) hne
  · exact ho.refused_by ha hd hne

end Machine

namespace Small

open Machine

/-- Everything is accepted. -/
def yes : Answer where
  ok := true
  fd := 5
  child := 3
  count := 10

def daemonOpts : Opts where
  pidfile := true
  daemonize := true

/-- Two instances are started, and both find no file. The first one gets the lock, and forks. -/
def race : List Turn :=
  [.start 1 daemonOpts, .start 2 daemonOpts, .run 1 yes, .run 2 yes, .run 1 yes, .run 2 yes,
    .run 1 yes, .run 2 yes, .run 1 yes, .run 2 yes, .run 1 yes, .run 1 yes]

/-- Its parent writes the pid of the child, and exits. The child serves, and the other one gives
    up. -/
def raceOver : List Turn := [.run 1 yes, .run 3 yes, .run 2 yes, .run 2 yes]

theorem race_standard : ∀ t ∈ race ++ [.run 1 yes] ++ raceOver, t.Standard := by decide

theorem race_single : (∀ t ∈ race ++ [.run 1 yes] ++ raceOver, t.Standard) ∧
    ((init none).run (race ++ [.run 1 yes] ++ raceOver)).procs 3 =
      some ⟨0, daemonOpts, .serve (some 5)⟩ ∧
    ∀ q b, ((init none).run (race ++ [.run 1 yes] ++ raceOver)).procs q = some b →
      b.stage.Serves → q = 3 := by
  have hserve : ((init none).run (race ++ [.run 1 yes] ++ raceOver)).procs 3 =
      some ⟨0, daemonOpts, .serve (some 5)⟩ := by decide
  exact ⟨race_standard, hserve, fun q b hb hs =>
    (run_single none race_standard).1 q 3 b _ hb hserve hs trivial⟩

theorem race_recorded : (∀ t ∈ race ++ [.run 1 yes] ++ raceOver, t.Standard) ∧
    ((init none).run race).procs 1 = some ⟨0, daemonOpts, .write 5 3⟩ ∧
    ((init none).run (race ++ [.run 1 yes] ++ raceOver)).file = some (pidText 3) := by
  have hwrite : ((init none).run race).procs 1 = some ⟨0, daemonOpts, .write 5 3⟩ := by decide
  have hserve : ((init none).run (race ++ [.run 1 yes] ++ raceOver)).procs 3 =
      some ⟨0, daemonOpts, .serve (some 5)⟩ := by decide
  exact ⟨race_standard, hwrite,
    (run_recorded none race_standard hwrite rfl (by decide) hserve rfl trivial).2⟩

/-- The second instance is refused, and so the first one is not. -/
theorem race_unrefused : ((init none).run race).refused = [1] ∧
    ∃ i < 2, i ∉ ((init none).run race).refused :=
  ⟨by decide, (run_unrefused none race).1 (by decide)⟩

end Small

end Pidfile

end Ndppd
