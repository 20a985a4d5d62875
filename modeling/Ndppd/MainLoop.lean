import Ndppd.Daemon.Runs
import Ndppd.Frame
import Ndppd.Netlink.Routes

/-!
# The main loop

`main`, once the sockets are open: the loop that runs the sessions, the passes over the interfaces
and the handlers of what has been received, and that asks the kernel for its routes and addresses.
The clock is read once in each round, after the handlers, so that all that happens in a round
happens at one time.

What the loop does is a run of the transition system (`Loop.run_follows`): the properties of the
runs are properties of the loop. It adds to them when things happen.

* `Loop.run_dump`: the routes are asked for once. Those of an earlier instance are removed once,
  when the kernel has sent all of them or after five seconds, and this is when the addresses are
  asked for.
-/

namespace Ndppd

/-- What the kernel is asked for a dump of. -/
inductive Query
  | routes
  | addresses
  deriving DecidableEq

/-- What happens in the main loop. -/
inductive Occurrence
  | event (ev : Event)
  | query (time : ℤ) (q : Query)
  /-- The kernel says that it has sent all of a dump. -/
  | dumpDone (time : ℤ)

/-- Neither is anything asked for, nor are the routes of an earlier instance removed. -/
def Occurrence.Quiet : Occurrence → Prop
  | .event ev => ev.action ≠ .removeOwnedRoutes
  | .query _ _ => False
  | .dumpDone _ => True

/-- The state of the main loop. The log is that of what has happened, in order. -/
structure Loop where
  daemon : Daemon
  /-- `nd_current_time`. -/
  now : ℤ
  /-- `nd_rt_dump_timeout`. -/
  dumpTimeout : ℤ
  queryingRoutes : Bool
  lastSessionUpdate : ℤ
  lastIfaceCheck : ℤ
  log : List Occurrence

/-- What a handler reads from its socket, and the answers of the kernel to what it does. -/
inductive Input
  | frame (kernel : Kernel) (index : ℕ) (frame : List U8)
  /-- Each call has answers of its own. -/
  | datagram (kernel : ℕ → Kernel) (buf : ℕ → U8) (len : ℕ)

/-- What a round of the loop meets: whether a signal has come, the answers of the kernel, what
    there is to read, unless `nd_io_poll` fails, and the time after that. -/
structure Round where
  stop : Bool
  kernel : ℕ → Kernel
  inputs : Option (List Input)
  clock : ℤ

/-- How the loop ends. -/
inductive ExitCode
  | success
  | failure
  deriving DecidableEq

/-- The action is one that a handler runs. -/
def Action.Handled : Action → Prop
  | .tick | .removeOwnedRoutes => False
  | _ => True

theorem RtCall.handled {c : RtCall} {a : Action} (h : c.action = some a) : a.Handled := by
  cases c <;> first | cases h; trivial | exact absurd h (by simp [RtCall.action])

theorem Verdict.handled {v : Verdict} {f : IfaceId} {a : Action} (h : v.action f = some a) :
    a.Handled := by
  cases v <;> first | cases h; trivial | exact absurd h (by simp [Verdict.action])

namespace Loop

/-! ## A round -/

/-- Runs an action, at the time of the round. -/
def exec (l : Loop) (kernel : Kernel) (a : Action) : Loop :=
  { l with
    daemon := l.daemon.step ⟨l.now, kernel, a⟩
    log := l.log ++ [.event ⟨l.now, kernel, a⟩] }

/-- Asks for a dump, if none is running (`nd_rt_query_routes`, `nd_rt_query_addresses`). -/
def query (l : Loop) (q : Query) : Loop :=
  if l.dumpTimeout ≠ 0 then l
  else { l with dumpTimeout := l.now + 5000, log := l.log ++ [.query l.now q] }

def ndRtQueryRoutes (l : Loop) : Loop := l.query .routes

def ndRtQueryAddresses (l : Loop) : Loop := l.query .addresses

/-- A dump does not take longer than five seconds. -/
def expireDump (l : Loop) : Loop := if l.now ≥ l.dumpTimeout then { l with dumpTimeout := 0 } else l

/-- The routes are known: those of an earlier instance are removed. -/
def endDump (l : Loop) (kernel : Kernel) : Loop :=
  if l.queryingRoutes ∧ l.dumpTimeout = 0 then
    ndRtQueryAddresses ({ l with queryingRoutes := false }.exec kernel .removeOwnedRoutes)
  else l

def updateSessions (l : Loop) (kernel : Kernel) : Loop :=
  if l.now - l.lastSessionUpdate > 100 then
    { l.exec kernel .tick with lastSessionUpdate := l.now }
  else l

def checkIfaces (l : Loop) (kernel : Kernel) : Loop :=
  if l.now - l.lastIfaceCheck > 5000 then { l.exec kernel .rebind with lastIfaceCheck := l.now }
  else l

/-- What is done before waiting. -/
def prepare (l : Loop) (kernel : ℕ → Kernel) : Loop :=
  (((l.expireDump).endDump (kernel 0)).updateSessions (kernel 1)).checkIfaces (kernel 2)

/-- `ndL_io_handler` of the packet socket. -/
def handleFrame (l : Loop) (kernel : Kernel) (index : ℕ) (frame : List U8) : Loop :=
  ((l.daemon.mem.world.net.receiver index).bind fun f => (verdict frame).action f).elim l
    fun a => l.exec kernel a

/-- A call that `ndL_io_handler` of the routing socket makes. -/
def handleCall (l : Loop) (kernel : Kernel) (c : RtCall) : Loop :=
  match c.action with
  | some a => l.exec kernel a
  | none =>
    match c with
    | .dumpDone => { l with dumpTimeout := 0, log := l.log ++ [.dumpDone l.now] }
    | _ => l

def handle (l : Loop) : Input → Loop
  | .frame kernel index frame => l.handleFrame kernel index frame
  | .datagram kernel buf len =>
    (callsOf l.daemon.conf.byteOrder (buf, len)).zipIdx.foldl
      (fun l c => l.handleCall (kernel c.2) c.1) l

/-- The handlers that `nd_io_poll` calls. -/
def ndIoPoll (l : Loop) (inputs : List Input) : Loop := inputs.foldl handle l

/-- A round, or the state in which the loop ends. -/
def round (l : Loop) (r : Round) : Except (ExitCode × Loop) Loop :=
  if r.stop then .error (.success, l)
  else
    match r.inputs with
    | none => .error (.failure, l.prepare r.kernel)
    | some inputs => .ok { (l.prepare r.kernel).ndIoPoll inputs with now := r.clock }

/-- The loop, from the time `t`. -/
def start (d : Daemon) (t : ℤ) : Loop :=
  ndRtQueryRoutes
    { daemon := d
      now := t
      dumpTimeout := 0
      queryingRoutes := true
      lastSessionUpdate := 0
      lastIfaceCheck := 0
      log := [] }

def run (l : Loop) (rounds : List Round) : Except (ExitCode × Loop) Loop := rounds.foldlM round l

@[simp] theorem checks_now (l : Loop) (k₁ k₂ : Kernel) :
    ((l.updateSessions k₁).checkIfaces k₂).now = l.now := by
  unfold checkIfaces updateSessions
  split_ifs <;> rfl

@[simp] theorem checks_dumpTimeout (l : Loop) (k₁ k₂ : Kernel) :
    ((l.updateSessions k₁).checkIfaces k₂).dumpTimeout = l.dumpTimeout := by
  unfold checkIfaces updateSessions
  split_ifs <;> rfl

@[simp] theorem checks_queryingRoutes (l : Loop) (k₁ k₂ : Kernel) :
    ((l.updateSessions k₁).checkIfaces k₂).queryingRoutes = l.queryingRoutes := by
  unfold checkIfaces updateSessions
  split_ifs <;> rfl

/-! ## Runs -/

variable {l l' : Loop} {kernel : Kernel} {a : Action} {d : Daemon} {t : ℤ} {rounds : List Round}

theorem round_eq_ok {r : Round} (h : l.round r = .ok l') : ∃ inputs,
    l' = { (l.prepare r.kernel).ndIoPoll inputs with now := r.clock } := by
  unfold round at h
  split at h
  · cases h
  · split at h
    · cases h
    · rename_i inputs _
      exact ⟨inputs, (Except.ok.inj h).symm⟩

/-- What holds at first and is kept by the rounds holds as long as the loop runs. It may depend on
    what the next rounds meet. -/
theorem run_induction {I : List Round → Loop → Prop} (h₀ : I rounds l)
    (hround : ∀ l r rs inputs, I (r :: rs) l →
      I rs { (l.prepare r.kernel).ndIoPoll inputs with now := r.clock })
    (h : l.run rounds = .ok l') : I [] l' := by
  induction rounds generalizing l with
  | nil =>
    obtain rfl := Except.ok.inj h
    exact h₀
  | cons r rs ih =>
    rw [run, List.foldlM_cons] at h
    cases hr : l.round r with
    | error e => rw [hr] at h; cases h
    | ok m =>
      rw [hr] at h
      obtain ⟨inputs, rfl⟩ := round_eq_ok hr
      exact ih (hround l r rs inputs h₀) h

/-- What the checks keep holds when the loop waits. -/
theorem prepare_induction {I : Loop → Prop} {kernel : ℕ → Kernel}
    (hset : ∀ l dumpTimeout queryingRoutes, I l → I { l with dumpTimeout, queryingRoutes })
    (hquery : ∀ l q, I l → I { l with
      dumpTimeout := l.now + 5000, log := l.log ++ [.query l.now q] })
    (hpurge : ∀ l, I l → I (l.exec (kernel 0) .removeOwnedRoutes))
    (htick : ∀ l, I l → I { l.exec (kernel 1) .tick with lastSessionUpdate := l.now })
    (hrebind : ∀ l, I l → I { l.exec (kernel 2) .rebind with lastIfaceCheck := l.now })
    (h : I l) : I (l.prepare kernel) := by
  have hexpire : I l.expireDump := by
    unfold expireDump
    split_ifs
    · exact hset l 0 l.queryingRoutes h
    · exact h
  have hend : I (l.expireDump.endDump (kernel 0)) := by
    unfold endDump
    split_ifs
    · have hremoved := hpurge _ (hset _ l.expireDump.dumpTimeout false hexpire)
      rw [ndRtQueryAddresses, query]
      split_ifs
      · exact hremoved
      · exact hquery _ .addresses hremoved
    · exact hexpire
  have hupdate : I ((l.expireDump.endDump (kernel 0)).updateSessions (kernel 1)) := by
    unfold updateSessions
    split_ifs
    · exact htick _ hend
    · exact hend
  rw [prepare, checkIfaces]
  split_ifs
  · exact hrebind _ hupdate
  · exact hupdate

/-- What the actions of the handlers and the ends of the dumps keep holds after the handlers. -/
theorem ndIoPoll_induction {I : Loop → Prop}
    (hexec : ∀ l kernel a, a.Handled → I l → I (l.exec kernel a))
    (hdone : ∀ l, I l → I { l with dumpTimeout := 0, log := l.log ++ [.dumpDone l.now] })
    (h : I l) (inputs : List Input) : I (l.ndIoPoll inputs) := by
  have hcall : ∀ l kernel c, I l → I (l.handleCall kernel c) := by
    intro l kernel c hl
    unfold handleCall
    split
    · next a ha => exact hexec l kernel a (RtCall.handled ha) hl
    · cases c <;> first | exact hl | exact hdone l hl
  refine List.foldlRecOn (motive := I) inputs _ h fun l hl x _ => ?_
  cases x with
  | frame kernel index frame =>
    rw [handle, handleFrame]
    cases ha : (l.daemon.mem.world.net.receiver index).bind fun f => (verdict frame).action f with
    | none => exact hl
    | some a =>
      obtain ⟨f, -, ha⟩ := Option.bind_eq_some_iff.1 ha
      exact hexec l kernel a (Verdict.handled ha) hl
  | datagram kernel buf len =>
    exact List.foldlRecOn (motive := I) _ _ hl fun l hl c _ => hcall l (kernel c.2) c.1 hl

@[simp] theorem prepare_now (l : Loop) (kernel : ℕ → Kernel) : (l.prepare kernel).now = l.now :=
  prepare_induction (I := fun l' => l'.now = l.now) (fun _ _ _ h => h) (fun _ _ h => h)
    (fun _ h => h) (fun _ h => h) (fun _ h => h) rfl

@[simp] theorem ndIoPoll_now (l : Loop) (inputs : List Input) : (l.ndIoPoll inputs).now = l.now :=
  ndIoPoll_induction (I := fun l' => l'.now = l.now) (fun _ _ _ _ h => h) (fun _ h => h) rfl inputs

/-- When the loop waits, there has been a tick in the last 100 ms. -/
theorem prepare_lastSessionUpdate (l : Loop) (kernel : ℕ → Kernel) :
    (l.prepare kernel).now - (l.prepare kernel).lastSessionUpdate ≤ 100 := by
  have hcheck : (l.prepare kernel).lastSessionUpdate =
      ((l.expireDump.endDump (kernel 0)).updateSessions (kernel 1)).lastSessionUpdate := by
    rw [prepare, checkIfaces]
    split_ifs <;> rfl
  rw [hcheck, prepare, checks_now, updateSessions]
  split_ifs with hlast
  · exact (sub_self _).trans_le (by decide)
  · exact not_lt.1 hlast

/-- When the loop waits, there has been a pass over the interfaces in the last five seconds. -/
theorem prepare_lastIfaceCheck (l : Loop) (kernel : ℕ → Kernel) :
    (l.prepare kernel).now - (l.prepare kernel).lastIfaceCheck ≤ 5000 := by
  rw [prepare, checkIfaces]
  split_ifs with hlast
  · exact (sub_self _).trans_le (by decide)
  · exact not_lt.1 hlast

/-! ## The loop and the transition system -/

/-- The events of the loop so far. -/
def events (l : Loop) : List Event :=
  l.log.filterMap fun
    | .event ev => some ev
    | _ => none

@[simp] theorem exec_events (l : Loop) (kernel : Kernel) (a : Action) :
    (l.exec kernel a).events = l.events ++ [⟨l.now, kernel, a⟩] := by
  simp [events, exec]

theorem exec_mem (l : Loop) (kernel : Kernel) (a : Action) : (l.exec kernel a).daemon.mem =
    Daemon.stepMem (l.daemon.env ⟨l.now, kernel, a⟩) a l.daemon.mem := rfl

/-- A frame does what the handler of the packet socket does. -/
theorem handleFrame_mem (l : Loop) (kernel : Kernel) (index : ℕ) (frame : List U8) (a : Action) :
    (l.handleFrame kernel index frame).daemon.mem =
      ndLIoHandler (l.daemon.env ⟨l.now, kernel, a⟩) index frame l.daemon.mem := by
  rw [ndLIoHandler_eq_stepMem, handleFrame]
  cases (l.daemon.mem.world.net.receiver index).bind fun f => (verdict frame).action f <;> rfl

/-- The loop follows a run of the transition system: the state is that after its events. -/
def Follows (d : Daemon) (l : Loop) : Prop := l.daemon = d.run l.events

namespace Follows

theorem exec (h : Follows d l) (kernel : Kernel) (a : Action) : Follows d (l.exec kernel a) := by
  rw [Follows, exec_events, Daemon.run_concat, ← h]
  rfl

theorem of_eq (h : Follows d l) (hd : l'.daemon = l.daemon) (he : l'.events = l.events) :
    Follows d l' := by
  rw [Follows, hd, he]
  exact h

theorem prepare (h : Follows d l) (kernel : ℕ → Kernel) : Follows d (l.prepare kernel) := by
  refine prepare_induction ?_ ?_ ?_ ?_ ?_ h
  · exact fun _ _ _ hl => hl.of_eq rfl rfl
  · exact fun _ _ hl => hl.of_eq rfl (by simp [events])
  · exact fun _ hl => hl.exec ..
  · exact fun _ hl => (hl.exec ..).of_eq rfl rfl
  · exact fun _ hl => (hl.exec ..).of_eq rfl rfl

theorem ndIoPoll (h : Follows d l) (inputs : List Input) : Follows d (l.ndIoPoll inputs) :=
  ndIoPoll_induction (fun _ kernel a _ hl => hl.exec kernel a)
    (fun _ hl => hl.of_eq rfl (by simp [events])) h inputs

end Follows

/-- Whatever the rounds meet, the state of the daemon is that of a run of the transition system. -/
theorem run_follows (h : (start d t).run rounds = .ok l) : Follows d l := by
  have hstart : Follows d (start d t) := rfl
  exact run_induction (I := fun _ => Follows d) hstart
    (fun _ r _ inputs hl => ((hl.prepare r.kernel).ndIoPoll inputs).of_eq rfl rfl) h

/-! ## Dumps -/

/-- The loop waits for the routes: they have been asked for at the time `t`, and nothing else. -/
structure Dumping (t : ℤ) (l : Loop) : Prop where
  querying : l.queryingRoutes = true
  log : ∃ quiet, l.log = .query t .routes :: quiet ∧ ∀ o ∈ quiet, o.Quiet
  timeout : (l.dumpTimeout = t + 5000 ∧ ∀ t', .dumpDone t' ∉ l.log) ∨
    (l.dumpTimeout = 0 ∧ ∃ t', .dumpDone t' ∈ l.log)

/-- The routes are known, or the loop does not wait for them any longer. Those of an earlier
    instance have been removed once, and then the addresses have been asked for. -/
structure Dumped (t : ℤ) (l : Loop) : Prop where
  querying : l.queryingRoutes = false
  log : ∃ before time kernel after,
    l.log = .query t .routes :: before ++
      .event ⟨time, kernel, .removeOwnedRoutes⟩ :: .query time .addresses :: after ∧
    (∀ o ∈ before, o.Quiet) ∧ (∀ o ∈ after, o.Quiet) ∧
    ((∃ t', .dumpDone t' ∈ before) ∨ t + 5000 ≤ time)

theorem Dumping.append (h : l.Dumping t) {new : List Occurrence} (hlog : l'.log = l.log ++ new)
    (hquiet : ∀ o ∈ new, o.Quiet ∧ ∀ t', o ≠ .dumpDone t')
    (hquerying : l'.queryingRoutes = l.queryingRoutes) (htimeout : l'.dumpTimeout = l.dumpTimeout) :
    l'.Dumping t := by
  obtain ⟨quiet, heq, hall⟩ := h.log
  refine ⟨hquerying.trans h.querying, ⟨quiet ++ new, by rw [hlog, heq, List.cons_append], ?_⟩, ?_⟩
  · exact List.forall_mem_append.2 ⟨hall, fun o ho => (hquiet o ho).1⟩
  · have hiff (t' : ℤ) : .dumpDone t' ∈ l'.log ↔ .dumpDone t' ∈ l.log := by
      rw [hlog, List.mem_append, or_iff_left]
      exact fun hmem => (hquiet _ hmem).2 t' rfl
    rw [htimeout]
    simp only [hiff]
    exact h.timeout

theorem Dumped.append (h : l.Dumped t) {new : List Occurrence} (hlog : l'.log = l.log ++ new)
    (hquiet : ∀ o ∈ new, o.Quiet) (hquerying : l'.queryingRoutes = l.queryingRoutes) :
    l'.Dumped t := by
  obtain ⟨before, time, kernel, after, heq, hbefore, hafter, hend⟩ := h.log
  refine ⟨hquerying.trans h.querying, before, time, kernel, after ++ new, ?_, hbefore, ?_, hend⟩
  · rw [hlog, heq, List.append_assoc]
    rfl
  · exact List.forall_mem_append.2 ⟨hafter, hquiet⟩

theorem quiet_of_handled (ha : a.Handled) : (Occurrence.event ⟨l.now, kernel, a⟩).Quiet := by
  rintro rfl
  exact ha

/-- An end of the dump, or of another one, has been received: the next round ends it. -/
theorem Dumping.done (h : l.Dumping t) :
    Dumping t { l with dumpTimeout := 0, log := l.log ++ [.dumpDone l.now] } := by
  obtain ⟨quiet, heq, hall⟩ := h.log
  refine ⟨h.querying, ⟨quiet ++ [.dumpDone l.now], by rw [heq, List.cons_append], ?_⟩, .inr ?_⟩
  · exact List.forall_mem_append.2 ⟨hall, List.forall_mem_singleton.2 trivial⟩
  · exact ⟨rfl, l.now, List.mem_append_right _ (List.mem_singleton_self _)⟩

/-- The handlers neither ask for a dump nor remove the routes of an earlier instance. -/
theorem ndIoPoll_dump (h : l.Dumping t ∨ l.Dumped t) (inputs : List Input) :
    (l.ndIoPoll inputs).Dumping t ∨ (l.ndIoPoll inputs).Dumped t := by
  refine ndIoPoll_induction (I := fun l => l.Dumping t ∨ l.Dumped t) ?_ ?_ h inputs
  · intro l kernel a ha hl
    refine hl.imp (fun h => h.append rfl ?_ rfl rfl) fun h => h.append rfl ?_ rfl
    · exact List.forall_mem_singleton.2 ⟨quiet_of_handled ha, by simp⟩
    · exact List.forall_mem_singleton.2 (quiet_of_handled ha)
  · intro l hl
    refine hl.imp Dumping.done fun h => h.append rfl (List.forall_mem_singleton.2 trivial) rfl

/-- The sessions and the interfaces have nothing to do with the dump. -/
theorem checks_log (l : Loop) (k₁ k₂ : Kernel) : ∃ new,
    ((l.updateSessions k₁).checkIfaces k₂).log = l.log ++ new ∧
      ∀ o ∈ new, o.Quiet ∧ ∀ t', o ≠ .dumpDone t' := by
  unfold checkIfaces updateSessions
  split_ifs
  · exact ⟨[.event ⟨l.now, k₁, .tick⟩, .event ⟨l.now, k₂, .rebind⟩], by simp [exec],
      by simp [Occurrence.Quiet]⟩
  · exact ⟨[.event ⟨l.now, k₁, .tick⟩], rfl, by simp [Occurrence.Quiet]⟩
  · exact ⟨[.event ⟨l.now, k₂, .rebind⟩], rfl, by simp [Occurrence.Quiet]⟩
  · exact ⟨[], by simp, by simp⟩

/-- The state in which the loop waits, of a dump that is running or over. -/
def Waiting (t : ℤ) (l : Loop) : Prop :=
  (l.Dumping t ∧ l.now < t + 5000 ∧ ∀ t', .dumpDone t' ∉ l.log) ∨ l.Dumped t

/-- The first round for which the dump is complete, or has been running for five seconds,
    ends it. -/
theorem endDump_waiting (ht : 0 ≤ t) (h : l.Dumping t ∨ l.Dumped t) (kernel : Kernel) :
    Waiting t (l.expireDump.endDump kernel) := by
  have hexpire : l.expireDump = { l with dumpTimeout := l.expireDump.dumpTimeout } := by
    unfold expireDump
    split_ifs <;> rfl
  rcases h with hd | hd
  · by_cases hzero : l.expireDump.dumpTimeout = 0
    · -- The removal, and the query.
      right
      obtain ⟨quiet, heq, hall⟩ := hd.log
      have hend : (∃ t', .dumpDone t' ∈ quiet) ∨ t + 5000 ≤ l.now := by
        rcases hd.timeout with ⟨htime, -⟩ | ⟨-, t', ht'⟩
        · right
          by_contra hlt
          rw [expireDump, if_neg (by omega)] at hzero
          omega
        · left
          rw [heq, List.mem_cons] at ht'
          exact ⟨t', ht'.resolve_left (by simp)⟩
      rw [endDump, if_pos ⟨by rw [hexpire]; exact hd.querying, hzero⟩]
      rw [hzero] at hexpire
      rw [hexpire]
      refine ⟨rfl, quiet, l.now, kernel, [], ?_, hall, by simp, hend⟩
      simp [ndRtQueryAddresses, query, exec, heq]
    · left
      rw [endDump, if_neg (by simp [hzero])]
      have hlt : ¬l.now ≥ l.dumpTimeout := by
        intro hge
        rw [expireDump, if_pos hge] at hzero
        exact hzero rfl
      rw [expireDump, if_neg hlt] at hzero ⊢
      rcases hd.timeout with ⟨htime, hnot⟩ | ⟨htime, -⟩
      · exact ⟨hd, by omega, hnot⟩
      · exact absurd htime hzero
  · right
    rw [endDump, if_neg (by rw [hexpire]; simp [hd.querying]), hexpire]
    exact hd.append (List.append_nil _).symm (by simp) rfl

theorem prepare_waiting (ht : 0 ≤ t) (h : l.Dumping t ∨ l.Dumped t) (kernel : ℕ → Kernel) :
    Waiting t (l.prepare kernel) := by
  rw [prepare]
  have hw := endDump_waiting ht h (kernel 0)
  generalize l.expireDump.endDump (kernel 0) = l at hw
  obtain ⟨new, hlog, hnew⟩ := checks_log l (kernel 1) (kernel 2)
  rcases hw with ⟨hd, hnow, hnot⟩ | hd
  · refine .inl ⟨hd.append hlog hnew (by simp) (by simp), by simpa using hnow, fun t' => ?_⟩
    rw [hlog, List.mem_append, not_or]
    exact ⟨hnot t', fun hmem => (hnew _ hmem).2 t' rfl⟩
  · exact .inr (hd.append hlog (fun o ho => (hnew o ho).1) (by simp))

/-- Whenever the loop waits, either the dump of the routes is running: it has been asked for
    at the start, less than five seconds ago, and the kernel has sent no end of a dump. Nothing else
    has been asked for and no route of an earlier instance has been removed. Or it is over: they
    have been removed once, after such an end or after five seconds, and the addresses have
    been asked for then, once. -/
theorem run_dump (d : Daemon) (t : ℤ) (rounds : List Round) (l : Loop) (ht : 0 ≤ t)
    (h : (start d t).run rounds = .ok l) (kernel : ℕ → Kernel) : Waiting t (l.prepare kernel) := by
  have hstart : (start d t).Dumping t :=
    ⟨rfl, ⟨[], rfl, by simp⟩, .inl ⟨rfl, by simp [start, ndRtQueryRoutes, query]⟩⟩
  refine prepare_waiting ht ?_ kernel
  refine run_induction (I := fun _ l => l.Dumping t ∨ l.Dumped t) (.inl hstart) ?_ h
  intro l r rs inputs hl
  have hprep : (l.prepare r.kernel).Dumping t ∨ (l.prepare r.kernel).Dumped t :=
    (prepare_waiting ht hl r.kernel).imp_left And.left
  refine (ndIoPoll_dump hprep inputs).imp (fun hd => ?_) fun hd => ?_
  · exact hd.append (List.append_nil _).symm (by simp) rfl rfl
  · exact hd.append (List.append_nil _).symm (by simp) rfl

end Loop

/-! ## The small network -/

namespace Small

/-- A round without anything to read. -/
def idle (clock : ℤ) : Round where
  stop := false
  kernel := fun _ => kernel
  inputs := some []
  clock := clock

/-- The kernel never answers: the dump is over after six seconds. -/
theorem idle_dump :
    0 ≤ (1000 : ℤ) ∧ ∃ l, (Loop.start (daemon staticRule) 1000).run [idle 5999, idle 7000] = .ok l ∧
      (l.prepare fun _ => kernel).queryingRoutes = false ∧
      Loop.Waiting 1000 (l.prepare fun _ => kernel) :=
  ⟨by decide, _, rfl, rfl, Loop.run_dump (daemon staticRule) 1000 [idle 5999, idle 7000] _
    (by decide) rfl fun _ => kernel⟩

end Small

end Ndppd
