import Ndppd.Pidfile

/-!
# What the processes keep

The processes of an instance are one, and then a parent and its child (`Machine.Ranks`). What has
the lock is one description, which only the processes of its instance refer to
(`Machine.Files`). Every call keeps the two, and so does the end of a process at any point
(`Machine.run_orderly`).
-/

namespace Ndppd

namespace Pidfile

open Descriptors

/-! ## Stages -/

variable {st st' : Stage}

theorem Stage.isSome_descriptor (h : st.holds = true) : st.descriptor.isSome = true := by
  cases st with
  | serve fd => simpa [Stage.descriptor, Stage.holds] using h
  | _ => first | rfl | exact absurd h (by simp [Stage.holds])

theorem Stage.isLost_eq_false (h : st.holds = true) : st.isLost = false := by
  cases st with
  | probed fd result => simpa [Stage.isLost, Stage.holds] using h
  | _ => first | rfl | exact absurd h (by simp [Stage.holds])

/-- After the fork, the descriptor has the lock. -/
theorem Stage.holds_of_role (h : st.role ≠ .sole) (hd : st.descriptor.isSome = true) :
    st.holds = true := by
  cases st with
  | serve fd => simpa [Stage.descriptor, Stage.holds] using hd
  | _ => first | rfl | exact absurd rfl h

theorem Stage.role_of_child (h : st.child.isSome = true) : st.role = .parent := by
  cases st <;> first | rfl | exact absurd h (by simp [Stage.child])

theorem Stage.holds_of_child (h : st.child.isSome = true) : st.holds = true := by
  cases st <;> first | rfl | exact absurd h (by simp [Stage.child])

namespace Machine

variable {s s' : Machine} {p q : ℕ} {a b : Proc} {k : Answer} {d : ℕ × Call}

/-! ## The lock -/

theorem Proc.exists_entry (h : a.stage.holds = true) :
    ∃ fd call, a.stage.descriptor = some (fd, call) ∧ a.entry = some (fd, ⟨a.inst, call⟩) := by
  obtain ⟨⟨fd, call⟩, hd⟩ := Option.isSome_iff_exists.1 (Stage.isSome_descriptor h)
  exact ⟨fd, call, hd, by rw [Proc.entry, hd]; rfl⟩

theorem Proc.inst_of_entry {f : Opened} (h : a.entry.map Prod.snd = some f) : f.inst = a.inst := by
  simp only [Proc.entry, Option.map_map, Option.map_eq_some_iff] at h
  obtain ⟨d, -, rfl⟩ := h
  rfl

/-- Two processes that have the lock are of one instance. -/
theorem Files.inst_eq (h : s.Files) (ha : s.procs p = some a) (hb : s.procs q = some b)
    (hpa : a.stage.holds = true) (hqb : b.stage.holds = true) : a.inst = b.inst := by
  obtain ⟨fd, call, -, he⟩ := Proc.exists_entry hpa
  have hlock := h.holds p a ha hpa
  rw [he, Option.map_some] at hlock
  exact Proc.inst_of_entry ((h.holds q b hb hqb).symm.trans hlock)

/-- What a process is after another one, or itself, has changed. -/
theorem of_update {o : Option Proc} (h : Function.update s.procs p o q = some b) :
    q = p ∧ o = some b ∨ q ≠ p ∧ s.procs q = some b := by
  by_cases hq : q = p
  · subst hq
    rw [Function.update_self] at h
    exact .inl ⟨rfl, h⟩
  · rw [Function.update_of_ne hq] at h
    exact .inr ⟨hq, h⟩

theorem entry_eq (ha : s.procs p = some a) : s.entry p = a.entry := by rw [entry, ha]; rfl

/-- One process has changed: what has to be shown of its descriptor and of the lock. -/
theorem Files.update (h : s.Files) {o : Option Proc}
    (hprocs : s'.procs = Function.update s.procs p o)
    (htable : ∀ q fd f, ⟨q, fd, f⟩ ∈ s'.table ↔
      if q = p then o.bind Proc.entry = some (fd, f) else ⟨q, fd, f⟩ ∈ s.table)
    (hself : ∀ b, o = some b → b.stage.holds = true → s'.lock = b.entry.map Prod.snd)
    (hother : ∀ q b, q ≠ p → s.procs q = some b → b.stage.holds = true → s'.lock = s.lock)
    (hheld : ∀ f, s'.lock = some f →
      (∃ b, o = some b ∧ b.stage.holds = true ∧ b.entry.map Prod.snd = some f) ∨
      ∃ q b, q ≠ p ∧ s.procs q = some b ∧ b.stage.holds = true ∧ b.entry.map Prod.snd = some f) :
    s'.Files := by
  refine ⟨fun q fd f => ?_, fun q b hb hq => ?_, fun f hf => ?_⟩
  · rw [htable, entry, hprocs]
    by_cases hq : q = p
    · rw [if_pos hq, hq, Function.update_self]
    · rw [if_neg hq, h.described, Function.update_of_ne hq, entry]
  · rw [hprocs] at hb
    rcases of_update hb with ⟨-, hb'⟩ | ⟨hne, hb'⟩
    · exact hself b hb' hq
    · rw [hother q b hne hb' hq]
      exact h.holds q b hb' hq
  · rw [hprocs]
    rcases hheld f hf with ⟨b, hb, hh, he⟩ | ⟨q, b, hne, hb, hh, he⟩
    · exact ⟨p, b, by rw [Function.update_self, hb], hh, he⟩
    · exact ⟨q, b, by rw [Function.update_of_ne hne, hb], hh, he⟩

/-- The descriptor does not change. -/
theorem Files.mem_table (h : s.Files) {o : Option Proc} (ho : o.bind Proc.entry = s.entry p)
    (q fd : ℕ) (f : Opened) : ⟨q, fd, f⟩ ∈ s.table ↔
      if q = p then o.bind Proc.entry = some (fd, f) else ⟨q, fd, f⟩ ∈ s.table := by
  split_ifs with hq
  · rw [hq, ho, h.described]
  · rfl

/-- A process goes on with what it has. -/
theorem Files.goto (h : s.Files) (ha : s.procs p = some a)
    (hd : st.descriptor = a.stage.descriptor) (hh : st.holds = a.stage.holds)
    (file : Option (List Char)) (refused : List ℕ) :
    ({ s with file := file, refused := refused }.goto p a st).Files := by
  have hentry : ({ a with stage := st } : Proc).entry = a.entry := by
    rw [Proc.entry, Proc.entry]
    dsimp only
    rw [hd]
  refine h.update rfl (h.mem_table (o := some { a with stage := st }) ?_) ?_
    (fun _ _ _ _ _ => rfl) fun f hf => ?_
  · rw [Option.bind_some, hentry, entry_eq ha]
  · rintro b hb hhb
    obtain rfl := Option.some.inj hb
    rw [hentry]
    exact h.holds p a ha (hh.symm.trans hhb)
  · obtain ⟨q, b, hb, hq, he⟩ := h.held f hf
    by_cases hqp : q = p
    · subst hqp
      obtain rfl := Option.some.inj (hb.symm.trans ha)
      exact .inl ⟨_, rfl, hh.trans hq, by rw [hentry]; exact he⟩
    · exact .inr ⟨q, b, hqp, hb, hq, he⟩

theorem Proc.entry_of (hd : st.descriptor = some d) :
    ({ a with stage := st } : Proc).entry = some (d.1, ⟨a.inst, d.2⟩) := by
  rw [Proc.entry]
  dsimp only
  rw [hd]
  rfl

/-- A process takes the lock. -/
theorem Files.take (h : s.Files) (ha : s.procs p = some a) {fd : ℕ} {call : Call}
    (hd : a.stage.descriptor = some (fd, call)) (hd' : st.descriptor = some (fd, call))
    (hh : st.holds = true) (hlock : s.lock = none) :
    ({ s with lock := some ⟨a.inst, call⟩ }.goto p a st).Files := by
  have hentry := Proc.entry_of (a := a) hd'
  refine h.update rfl (h.mem_table (o := some { a with stage := st }) ?_) ?_ ?_ fun f hf => ?_
  · rw [Option.bind_some, hentry, entry_eq ha, Proc.entry, hd]
    rfl
  · rintro b hb -
    obtain rfl := Option.some.inj hb
    rw [hentry]
    rfl
  · -- Nobody had it.
    intro q b _ hb hq
    obtain ⟨fd, call, -, he⟩ := Proc.exists_entry hq
    have := h.holds q b hb hq
    rw [hlock, he] at this
    exact absurd this (by simp)
  · obtain rfl := Option.some.inj hf
    exact .inl ⟨_, rfl, hh, by rw [hentry]; rfl⟩

/-- A process opens the file. -/
theorem Files.opens (h : s.Files) (ha : s.procs p = some a) {fd : ℕ} {call : Call}
    (hd : a.stage.descriptor = none) (hd' : st.descriptor = some (fd, call))
    (hh : st.holds = false) : ((s.openFile p a fd call).goto p a st).Files := by
  have hentry := Proc.entry_of (a := a) hd'
  refine h.update rfl (fun q fd' f => ?_) ?_ (fun _ _ _ _ _ => rfl) fun f hf => ?_
  · refine Table.mem_add.trans ?_
    split_ifs with hq
    · subst hq
      rw [h.described, entry_eq ha, Proc.entry, hd, Option.bind_some, hentry]
      simp [eq_comm]
    · simp [hq]
  · rintro b hb hhb
    obtain rfl := Option.some.inj hb
    exact absurd (hh.symm.trans hhb) (by simp)
  · obtain ⟨q, b, hb, hq, he⟩ := h.held f hf
    refine .inr ⟨q, b, ?_, hb, hq, he⟩
    rintro rfl
    obtain rfl := Option.some.inj (hb.symm.trans ha)
    exact absurd (Stage.isSome_descriptor hq) (by simp [hd])

/-- The processes of an instance are one, or a parent and its child. -/
def Paired (s : Machine) : Prop :=
  ∀ p q a b, p ≠ q → s.procs p = some a → s.procs q = some b → a.inst = b.inst →
    a.stage.role = .parent ∧ b.stage.role = .child ∨ a.stage.role = .child ∧ b.stage.role = .parent

/-- A process loses its descriptor. The lock stays if another process refers to it. -/
theorem Files.drop (h : s.Files) (hpaired : s.Paired) {o : Option Proc} {t : Table ℕ Opened}
    (hprocs : s'.procs = Function.update s.procs p o) (ht : s'.table = t)
    (hlock : s'.lock = t.live s.lock) (ho : o.bind Proc.entry = none)
    (hmem : ∀ e, e ∈ t ↔ e ∈ s.table ∧ e.proc ≠ p) : s'.Files := by
  have hopen : ∀ q b, q ≠ p → s.procs q = some b → b.stage.holds = true →
      t.live s.lock = s.lock := by
    intro q b hq hb hhb
    obtain ⟨fd, call, -, he⟩ := Proc.exists_entry hhb
    have hlock' := h.holds q b hb hhb
    rw [he, Option.map_some] at hlock'
    rw [hlock', Table.live_eq_some]
    have hin : (⟨q, fd, ⟨b.inst, call⟩⟩ : Descriptor ℕ Opened) ∈ s.table :=
      (h.described ..).2 ((entry_eq hb).trans he)
    exact ⟨rfl, _, (hmem _).2 ⟨hin, hq⟩, rfl⟩
  refine h.update hprocs (fun q fd f => ?_) ?_ ?_ fun f hf => ?_
  · rw [ht, hmem, ho]
    split_ifs with hq
    · simp [hq]
    · simp [hq]
  · rintro b rfl hhb
    obtain ⟨fd, call, -, he⟩ := Proc.exists_entry hhb
    exact absurd (he.symm.trans ho) (by simp)
  · exact fun q b hq hb hhb => hlock.trans (hopen q b hq hb hhb)
  · rw [hlock, Table.live_eq_some] at hf
    obtain ⟨hf, e, he, rfl⟩ := hf
    obtain ⟨hin, hne⟩ := (hmem e).1 he
    rw [show e = ⟨e.proc, e.fd, e.file⟩ from rfl, h.described] at hin
    obtain ⟨b, hb, heb⟩ := Option.bind_eq_some_iff.1 hin
    have hsnd : b.entry.map Prod.snd = some e.file := by rw [heb]; rfl
    refine .inr ⟨e.proc, b, hne, hb, ?_, hsnd⟩
    -- The one which has the lock is this process, or the other one of the instance.
    obtain ⟨r, c, hc, hhc, hec⟩ := h.held _ hf
    by_cases hr : r = e.proc
    · subst hr
      obtain rfl := Option.some.inj (hc.symm.trans hb)
      exact hhc
    · have hinst : c.inst = b.inst := (Proc.inst_of_entry hec).symm.trans (Proc.inst_of_entry hsnd)
      refine Stage.holds_of_role ?_ ?_
      · rcases hpaired r e.proc c b hr hc hb hinst with ⟨-, hrole⟩ | ⟨-, hrole⟩
        · simp [hrole]
        · simp [hrole]
      · rw [Proc.entry, Option.map_eq_some_iff] at heb
        obtain ⟨d, hd, -⟩ := heb
        rw [hd]
        rfl

theorem Files.quit (h : s.Files) (hpaired : s.Paired) (p : ℕ) : (s.quit p).Files :=
  h.drop hpaired rfl rfl rfl rfl fun _ => Table.mem_exit

theorem Files.close (h : s.Files) (hpaired : s.Paired) (ha : s.procs p = some a) {fd : ℕ}
    {call : Call} (hd : a.stage.descriptor = some (fd, call)) (hd' : st.descriptor = none) :
    ((s.close p fd).goto p a st).Files := by
  refine h.drop hpaired rfl rfl rfl ?_ fun e => ?_
  · rw [Option.bind_some, Proc.entry]
    dsimp only
    rw [hd']
    rfl
  · refine Table.mem_close.trans (and_congr_right fun he =>
      not_congr ⟨And.left, fun hp => ⟨hp, ?_⟩⟩)
    -- It is the only descriptor of the process.
    rw [show e = ⟨e.proc, e.fd, e.file⟩ from rfl, h.described, hp, entry_eq ha, Proc.entry,
      hd] at he
    simpa using congrArg (Option.map Prod.fst) he.symm

theorem Files.fork (h : s.Files) (ha : s.procs p = some a) {fd c : ℕ} (hst : a.stage = .fork fd)
    (hc : s.procs c = none) : (s.fork p a fd c).Files := by
  have hcp : c ≠ p := by
    rintro rfl
    exact absurd (hc.symm.trans ha) (by simp)
  have hentry : a.entry = some (fd, ⟨a.inst, .daemonize⟩) := by
    rw [Proc.entry, hst]
    rfl
  have hlock : s.lock = some ⟨a.inst, .daemonize⟩ := by
    rw [h.holds p a ha (by rw [hst]; rfl), hentry]
    rfl
  have hnone : s.entry c = none := by rw [Machine.entry, hc]; rfl
  -- First there is a child, then its parent goes on.
  have hchild : (s.spawn p a fd c).Files := by
    refine h.update rfl (fun q fd' f => ?_) ?_ (fun _ _ _ _ _ => rfl) fun f hf => ?_
    · refine Table.mem_fork.trans ?_
      dsimp only
      rw [h.described p, entry_eq ha, hentry]
      split_ifs with hq
      · rw [hq, h.described, hnone]
        simp [Proc.entry, Stage.descriptor]
      · simp [hq]
    · rintro b hb -
      obtain rfl := Option.some.inj hb
      exact hlock
    · obtain ⟨q, b, hb, hq, he⟩ := h.held f hf
      refine .inr ⟨q, b, ?_, hb, hq, he⟩
      rintro rfl
      exact absurd (hc.symm.trans hb) (by simp)
  have hp : (s.spawn p a fd c).procs p = some a := (Function.update_of_ne hcp.symm ..).trans ha
  have hd : (Stage.truncate fd c).descriptor = a.stage.descriptor := by rw [hst]; rfl
  exact hchild.goto hp hd (by rw [hst]; rfl) s.file s.refused

theorem Files.start (h : s.Files) (hp : s.procs p = none) (hd : a.stage.descriptor = none)
    (n : ℕ) :
    ({ s with procs := Function.update s.procs p (some a), started := n } : Machine).Files := by
  have hentry : a.entry = none := by rw [Proc.entry, hd]; rfl
  refine h.update rfl (h.mem_table (o := some a) ?_) ?_ (fun _ _ _ _ _ => rfl) fun f hf => ?_
  · rw [Option.bind_some, hentry, Machine.entry, hp]
    rfl
  · rintro b hb hhb
    obtain rfl := Option.some.inj hb
    exact absurd (Stage.isSome_descriptor hhb) (by simp [hd])
  · obtain ⟨q, b, hb, hq, he⟩ := h.held f hf
    refine .inr ⟨q, b, ?_, hb, hq, he⟩
    rintro rfl
    exact absurd (hp.symm.trans hb) (by simp)

/-! ## Instances -/

/-- The processes of each instance, and the instances that are refused. -/
structure Ranks (s : Machine) : Prop where
  inst_lt : ∀ p a, s.procs p = some a → a.inst < s.started
  paired : s.Paired
  child : ∀ p q a b c, p ≠ q → s.procs p = some a → s.procs q = some b → a.inst = b.inst →
    a.stage.child = some c → q = c
  refused_lt : ∀ i ∈ s.refused, i < s.started
  isLost : ∀ p a, s.procs p = some a → a.inst ∈ s.refused → a.stage.isLost = true
  unrefused : 0 < s.started → ∃ i < s.started, i ∉ s.refused

/-- A process changes its stage, as it does before and after the fork. -/
theorem Ranks.update (h : s.Ranks) (ha : s.procs p = some a) (hf : a.stage.Follows st)
    (hprocs : s'.procs = Function.update s.procs p (some { a with stage := st }))
    (hstarted : s'.started = s.started) (hrefused : s'.refused = s.refused) : s'.Ranks := by
  -- What is known of a process now was known of it before.
  have hold : ∀ q b, s'.procs q = some b → ∃ b₀, s.procs q = some b₀ ∧ b₀.inst = b.inst ∧
      b.stage.role = b₀.stage.role ∧ (b₀.stage.isLost = true → b.stage.isLost = true) ∧
      ∀ c, b.stage.child = some c → b₀.stage.child = some c := by
    intro q b hb
    rw [hprocs] at hb
    rcases of_update hb with ⟨rfl, hb'⟩ | ⟨-, hb'⟩
    · obtain rfl := Option.some.inj hb'
      exact ⟨a, ha, rfl, hf.role, hf.isLost, hf.child⟩
    · exact ⟨b, hb', rfl, rfl, id, fun _ => id⟩
  refine ⟨?_, ?_, ?_, ?_, ?_, ?_⟩
  · intro q b hb
    obtain ⟨b₀, hb₀, hinst, -⟩ := hold q b hb
    rw [hstarted, ← hinst]
    exact h.inst_lt q b₀ hb₀
  · intro q r b c hqr hb hc hi
    obtain ⟨b₀, hb₀, hinst, hrole, -⟩ := hold q b hb
    obtain ⟨c₀, hc₀, hinst', hrole', -⟩ := hold r c hc
    rw [hrole, hrole']
    exact h.paired q r b₀ c₀ hqr hb₀ hc₀ (hinst.trans (hi.trans hinst'.symm))
  · intro q r b c n hqr hb hc hi hn
    obtain ⟨b₀, hb₀, hinst, -, -, hchild⟩ := hold q b hb
    obtain ⟨c₀, hc₀, hinst', -⟩ := hold r c hc
    exact h.child q r b₀ c₀ n hqr hb₀ hc₀ (hinst.trans (hi.trans hinst'.symm)) (hchild n hn)
  · rw [hrefused, hstarted]
    exact h.refused_lt
  · intro q b hb hr
    obtain ⟨b₀, hb₀, hinst, -, hlost, -⟩ := hold q b hb
    rw [hrefused, ← hinst] at hr
    exact hlost (h.isLost q b₀ hb₀ hr)
  · rw [hstarted, hrefused]
    exact h.unrefused

/-- A process that is alone in its instance. -/
theorem Paired.eq (h : s.Paired) (ha : s.procs p = some a) (hrole : a.stage.role = .sole)
    (hb : s.procs q = some b) (hinst : b.inst = a.inst) : q = p := by
  by_contra hne
  rcases h q p b a hne hb ha hinst with ⟨-, hr⟩ | ⟨-, hr⟩
  · exact absurd (hrole.symm.trans hr) (by simp)
  · exact absurd (hrole.symm.trans hr) (by simp)

/-- A process is refused by one that has the lock, which is not. -/
theorem Ranks.lose (h : s.Ranks) (hfiles : s.Files) (ha : s.procs p = some a)
    (hf : a.stage.Follows st) (hh : a.stage.holds = false) (hrole : a.stage.role = .sole)
    (hlost : st.isLost = true) (hlock : s.lock ≠ none) :
    ({ s with refused := a.inst :: s.refused }.goto p a st).Ranks := by
  have hmoved : (s.goto p a st).Ranks := h.update ha hf rfl rfl rfl
  refine ⟨hmoved.inst_lt, hmoved.paired, hmoved.child, ?_, ?_, fun _ => ?_⟩
  · exact List.forall_mem_cons.2 ⟨h.inst_lt p a ha, h.refused_lt⟩
  · intro q b hb hr
    rcases List.mem_cons.1 hr with hinst | hr
    · rcases of_update hb with ⟨-, hb'⟩ | ⟨hne, hb'⟩
      · obtain rfl := Option.some.inj hb'
        exact hlost
      · exact absurd (h.paired.eq ha hrole hb' hinst) hne
    · exact hmoved.isLost q b hb hr
  · obtain ⟨f, hf⟩ := Option.ne_none_iff_exists'.1 hlock
    obtain ⟨q, b, hb, hhb, -⟩ := hfiles.held f hf
    refine ⟨b.inst, h.inst_lt q b hb, fun hr => ?_⟩
    rcases List.mem_cons.1 hr with hinst | hr
    · obtain rfl := h.paired.eq ha hrole hb hinst
      obtain rfl := Option.some.inj (ha.symm.trans hb)
      exact absurd (hh.symm.trans hhb) (by simp)
    · exact absurd ((Stage.isLost_eq_false hhb).symm.trans (h.isLost q b hb hr)) (by simp)

theorem Ranks.quit (h : s.Ranks) (p : ℕ) : (s.quit p).Ranks := by
  have hold : ∀ q b, (s.quit p).procs q = some b → s.procs q = some b := by
    intro q b hb
    rcases of_update hb with ⟨-, hb'⟩ | ⟨-, hb'⟩
    · exact absurd hb' (by simp)
    · exact hb'
  exact ⟨fun q b hb => h.inst_lt q b (hold q b hb),
    fun q r b c hqr hb hc => h.paired q r b c hqr (hold q b hb) (hold r c hc),
    fun q r b c n hqr hb hc => h.child q r b c n hqr (hold q b hb) (hold r c hc),
    h.refused_lt, fun q b hb => h.isLost q b (hold q b hb), h.unrefused⟩

theorem Ranks.fork (h : s.Ranks) (ha : s.procs p = some a) {fd c : ℕ} (hst : a.stage = .fork fd)
    (hc : s.procs c = none) : (s.fork p a fd c).Ranks := by
  have hrole : a.stage.role = .sole := by rw [hst]; rfl
  -- A process is the parent, the child, or of another instance.
  have hold : ∀ q b, (s.fork p a fd c).procs q = some b →
      q = p ∧ b = { a with stage := .truncate fd c } ∨ q = c ∧ b = { a with stage := .detach fd } ∨
      s.procs q = some b ∧ b.inst ≠ a.inst := by
    intro q b hb
    rcases of_update (s := s.spawn p a fd c) hb with ⟨rfl, hb'⟩ | ⟨hqp, hb'⟩
    · exact .inl ⟨rfl, (Option.some.inj hb').symm⟩
    · rcases of_update hb' with ⟨rfl, hb''⟩ | ⟨-, hb''⟩
      · exact .inr (.inl ⟨rfl, (Option.some.inj hb'').symm⟩)
      · exact .inr (.inr ⟨hb'', fun hinst => hqp (h.paired.eq ha hrole hb'' hinst)⟩)
  refine ⟨fun q b hb => ?_, fun q r b b' hqr hb hb' hi => ?_, fun q r b b' n hqr hb hb' hi hn => ?_,
    h.refused_lt, fun q b hb hr => ?_, h.unrefused⟩
  · rcases hold q b hb with ⟨-, rfl⟩ | ⟨-, rfl⟩ | ⟨hb, -⟩
    · exact h.inst_lt p a ha
    · exact h.inst_lt p a ha
    · exact h.inst_lt q b hb
  · rcases hold q b hb with ⟨rfl, rfl⟩ | ⟨rfl, rfl⟩ | ⟨hb, hne⟩ <;>
      rcases hold r b' hb' with ⟨rfl, rfl⟩ | ⟨rfl, rfl⟩ | ⟨hb', hne'⟩
    · exact absurd rfl hqr
    · exact .inl ⟨rfl, rfl⟩
    · exact absurd hi.symm hne'
    · exact .inr ⟨rfl, rfl⟩
    · exact absurd rfl hqr
    · exact absurd hi.symm hne'
    · exact absurd hi hne
    · exact absurd hi hne
    · exact h.paired q r b b' hqr hb hb' hi
  · rcases hold q b hb with ⟨rfl, rfl⟩ | ⟨rfl, rfl⟩ | ⟨hb, hne⟩ <;>
      rcases hold r b' hb' with ⟨rfl, rfl⟩ | ⟨rfl, rfl⟩ | ⟨hb', hne'⟩
    · exact absurd rfl hqr
    · exact Option.some.inj hn
    · exact absurd hi.symm hne'
    · exact absurd hn (by simp [Stage.child])
    · exact absurd rfl hqr
    · exact absurd hi.symm hne'
    · exact absurd hi hne
    · exact absurd hi hne
    · exact h.child q r b b' n hqr hb hb' hi hn
  · -- The instance is not refused: it has the lock.
    have hnot : a.inst ∉ s.refused := fun hr => by
      have := h.isLost p a ha hr
      rw [hst] at this
      exact absurd this (by simp [Stage.isLost])
    rcases hold q b hb with ⟨-, rfl⟩ | ⟨-, rfl⟩ | ⟨hb, -⟩
    · exact absurd hr hnot
    · exact absurd hr hnot
    · exact h.isLost q b hb hr

theorem Ranks.start (h : s.Ranks) (hinst : a.inst = s.started) (hrole : a.stage.child = none) :
    ({ s with procs := Function.update s.procs p (some a), started := s.started + 1 } :
      Machine).Ranks := by
  have hold : ∀ q b, Function.update s.procs p (some a) q = some b →
      q = p ∧ b = a ∨ s.procs q = some b ∧ b.inst < s.started := by
    intro q b hb
    rcases of_update hb with ⟨rfl, hb'⟩ | ⟨-, hb'⟩
    · exact .inl ⟨rfl, (Option.some.inj hb').symm⟩
    · exact .inr ⟨hb', h.inst_lt q b hb'⟩
  have hfresh : s.started ∉ s.refused := fun hr => Nat.lt_irrefl _ (h.refused_lt _ hr)
  refine ⟨fun q b hb => ?_, fun q r b b' hqr hb hb' hi => ?_, fun q r b b' n hqr hb hb' hi hn => ?_,
    fun i hi => Nat.lt_succ_of_lt (h.refused_lt i hi), fun q b hb hr => ?_,
    fun _ => ⟨s.started, Nat.lt_succ_self _, hfresh⟩⟩
  · rcases hold q b hb with ⟨-, rfl⟩ | ⟨-, hlt⟩
    · rw [hinst]
      exact Nat.lt_succ_self _
    · exact Nat.lt_succ_of_lt hlt
  · rcases hold q b hb with ⟨rfl, rfl⟩ | ⟨hb, hlt⟩ <;>
      rcases hold r b' hb' with ⟨rfl, rfl⟩ | ⟨hb', hlt'⟩
    · exact absurd rfl hqr
    · omega
    · omega
    · exact h.paired q r b b' hqr hb hb' hi
  · rcases hold q b hb with ⟨rfl, rfl⟩ | ⟨hb, hlt⟩ <;>
      rcases hold r b' hb' with ⟨rfl, rfl⟩ | ⟨hb', hlt'⟩
    · exact absurd rfl hqr
    · exact absurd (hrole.symm.trans hn) (by simp)
    · omega
    · exact h.child q r b b' n hqr hb hb' hi hn
  · rcases hold q b hb with ⟨-, rfl⟩ | ⟨hb, -⟩
    · exact absurd (hinst ▸ hr) hfresh
    · exact h.isLost q b hb hr

/-! ## What every call keeps -/

structure Orderly (s : Machine) : Prop where
  files : s.Files
  ranks : s.Ranks
  /-- The parent writes to an empty file. -/
  blank : ∀ p a fd c, s.procs p = some a → a.stage = .write fd c → s.file = some []

/-- Only one process writes at a time: two parents with the lock are one. -/
theorem Orderly.eq_of_child (h : s.Orderly) (ha : s.procs p = some a) (hb : s.procs q = some b)
    (hpa : a.stage.child.isSome = true) (hqb : b.stage.child.isSome = true) : p = q := by
  by_contra hne
  have hinst := h.files.inst_eq ha hb (Stage.holds_of_child hpa) (Stage.holds_of_child hqb)
  rcases h.ranks.paired p q a b hne ha hb hinst with ⟨-, hr⟩ | ⟨hr, -⟩
  · exact absurd ((Stage.role_of_child hqb).symm.trans hr) (by simp)
  · exact absurd ((Stage.role_of_child hpa).symm.trans hr) (by simp)

theorem Orderly.blank_update (h : s.Orderly) {o : Option Proc}
    (hprocs : s'.procs = Function.update s.procs p o)
    (hself : ∀ b fd c, o = some b → b.stage = .write fd c → s'.file = some [])
    (hother : ∀ q b fd c, q ≠ p → s.procs q = some b → b.stage = .write fd c →
      s'.file = s.file) :
    ∀ q b fd c, s'.procs q = some b → b.stage = .write fd c → s'.file = some [] := by
  intro q b fd c hb hw
  rw [hprocs] at hb
  rcases of_update hb with ⟨-, hb'⟩ | ⟨hne, hb'⟩
  · exact hself b fd c hb' hw
  · rw [hother q b fd c hne hb' hw]
    exact h.blank q b fd c hb' hw

theorem ne_write_of_child (h : st.child = none) (fd c : ℕ) : st ≠ .write fd c := by
  rintro rfl
  exact absurd h (by simp [Stage.child])

/-- Every call keeps the order. -/
theorem Orderly.does (h : s.Orderly) (ha : s.procs p = some a) (hd : Does s p a k s') :
    s'.Orderly := by
  cases hd with
  | goes st file hf hdesc hholds hfile hblank =>
    refine ⟨h.files.goto ha hdesc hholds file s.refused, h.ranks.update ha hf rfl rfl rfl,
      h.blank_update rfl ?_ ?_⟩
    · rintro b fd c hb hw
      obtain rfl := Option.some.inj hb
      exact hblank fd c hw
    · -- While another process is about to write, this one is no parent.
      intro q b fd c hqp hb hw
      refine hfile.resolve_right fun hchild => hqp (h.eq_of_child hb ha ?_ hchild)
      rw [hw]
      rfl
  | loses st hf hdesc hh hh' hrole hlost hchild hlock =>
    refine ⟨h.files.goto ha hdesc (hh'.trans hh.symm) s.file _,
      h.ranks.lose h.files ha hf hh hrole hlost hlock,
      h.blank_update rfl ?_ fun _ _ _ _ _ _ _ => rfl⟩
    rintro b fd c hb hw
    obtain rfl := Option.some.inj hb
    exact absurd hw (ne_write_of_child hchild fd c)
  | takes st fd call hf hdesc hdesc' hh hh' hchild hlock =>
    refine ⟨h.files.take ha hdesc hdesc' hh' hlock, h.ranks.update ha hf rfl rfl rfl,
      h.blank_update rfl ?_ fun _ _ _ _ _ _ _ => rfl⟩
    rintro b fd c hb hw
    obtain rfl := Option.some.inj hb
    exact absurd hw (ne_write_of_child hchild fd c)
  | opens st call hf hdesc hdesc' hh hchild =>
    refine ⟨h.files.opens ha hdesc hdesc' hh, h.ranks.update ha hf rfl rfl rfl,
      h.blank_update rfl ?_ ?_⟩
    · rintro b fd c hb hw
      obtain rfl := Option.some.inj hb
      exact absurd hw (ne_write_of_child hchild fd c)
    · intro q b fd c _ hb hw
      change some (s.file.getD []) = s.file
      rw [h.blank q b fd c hb hw]
      rfl
  | closes st fd call hf hdesc hdesc' hh hchild hstd =>
    refine ⟨h.files.close h.ranks.paired ha hdesc hdesc', h.ranks.update ha hf rfl rfl rfl,
      h.blank_update rfl ?_ fun _ _ _ _ _ _ _ => rfl⟩
    rintro b fd c hb hw
    obtain rfl := Option.some.inj hb
    exact absurd hw (ne_write_of_child hchild fd c)
  | forks fd c hst hc =>
    refine ⟨h.files.fork ha hst hc, h.ranks.fork ha hst hc, fun q b fd' c' hb hw => ?_⟩
    rcases of_update (s := s.spawn p a fd c) hb with ⟨-, hb'⟩ | ⟨-, hb'⟩
    · obtain rfl := Option.some.inj hb'
      exact absurd hw (by simp)
    · rcases of_update hb' with ⟨-, hb''⟩ | ⟨-, hb''⟩
      · obtain rfl := Option.some.inj hb''
        exact absurd hw (by simp)
      · exact h.blank q b fd' c' hb'' hw
  | quits =>
    exact ⟨h.files.quit h.ranks.paired p, h.ranks.quit p,
      h.blank_update rfl (by simp) fun _ _ _ _ _ _ _ => rfl⟩

theorem Orderly.step (h : s.Orderly) (t : Turn) : (s.step t).Orderly := by
  cases t with
  | start p opts =>
    rw [Machine.step]
    by_cases hp : s.procs p = none
    · rw [if_pos hp]
      have hd : (if opts.pidfile then Stage.check else .load).descriptor = none := by
        split_ifs <;> rfl
      have hc : (if opts.pidfile then Stage.check else .load).child = none := by
        split_ifs <;> rfl
      refine ⟨h.files.start hp hd _, h.ranks.start rfl hc,
        h.blank_update rfl ?_ fun _ _ _ _ _ _ _ => rfl⟩
      rintro b fd c hb hw
      obtain rfl := Option.some.inj hb
      exact absurd hw (ne_write_of_child hc fd c)
    · rw [if_neg hp]
      exact h
  | run p k =>
    rw [Machine.step]
    cases ha : s.procs p with
    | none => exact h
    | some a =>
      rw [Option.elim_some]
      rcases main_does (k := k) h.files ha with hs | hd
      · rw [hs]
        exact h
      · exact h.does ha hd
  | kill p =>
    exact ⟨h.files.quit h.ranks.paired p, h.ranks.quit p,
      h.blank_update rfl (by simp) fun _ _ _ _ _ _ _ => rfl⟩

theorem orderly_init (file : Option (List Char)) : (init file).Orderly := by
  refine ⟨⟨?_, ?_, ?_⟩, ⟨?_, ?_, ?_, ?_, ?_, ?_⟩, ?_⟩ <;> simp [init, Paired, entry]

theorem run_orderly (file : Option (List Char)) (ts : List Turn) : ((init file).run ts).Orderly :=
  List.foldlRecOn ts _ (orderly_init file) fun _ h t _ => h.step t

end Machine

end Pidfile

end Ndppd
