import Ndppd.Daemon.Moves

/-!
# Runs of the daemon

Induction over the runs of the daemon, from its moves: for invariants
(`Daemon.run_induction`), for properties of the events so far
(`Daemon.run_history`), and for properties that depend on the time, if the clock
does not go back (`Daemon.run_clocked`). A tick is more than its moves: it updates every session,
as the session and the interfaces were before the tick (`tick_session`).
-/

namespace Ndppd

namespace Daemon

variable {conf : Conf} {cfg : Config} {w : World}

/-- The last event of a run. -/
theorem run_concat (d : Daemon) (es : List Event) (ev : Event) :
    d.run (es ++ [ev]) = (d.run es).step ev := List.foldl_concat ..

@[simp] theorem init_conf : (init conf cfg w).conf = conf := rfl

@[simp] theorem init_cfg : (init conf cfg w).cfg = cfg := rfl

@[simp] theorem run_conf (d : Daemon) (es : List Event) : (d.run es).conf = d.conf :=
  List.foldlRecOn (motive := fun d' : Daemon => d'.conf = d.conf) es _ rfl fun _ h _ _ => h

@[simp] theorem run_cfg (d : Daemon) (es : List Event) : (d.run es).cfg = d.cfg :=
  List.foldlRecOn (motive := fun d' : Daemon => d'.cfg = d.cfg) es _ rfl fun _ h _ _ => h

@[simp] theorem env_conf (d : Daemon) (ev : Event) : (d.env ev).conf = d.conf := rfl

@[simp] theorem env_cfg (d : Daemon) (ev : Event) : (d.env ev).cfg = d.cfg := rfl

@[simp] theorem env_now (d : Daemon) (ev : Event) : (d.env ev).now = ev.time := rfl

theorem step_mem (d : Daemon) (ev : Event) :
    (d.step ev).mem = stepMem (d.env ev) ev.action d.mem := rfl

/-- The store is well formed in every state reached. -/
theorem run_wellFormed (conf : Conf) (cfg : Config) (w : World) (es : List Event) :
    ((init conf cfg w).run es).mem.store.WellFormed conf cfg := by
  induction es using List.reverseRecOn with
  | nil => exact .empty conf cfg
  | append_singleton es ev ih =>
    have hok : (((init conf cfg w).run es).env ev).Ok ((init conf cfg w).run es).mem.store := by
      simpa [Env.Ok] using ih
    have h := (stepMem_moves (a := ev.action) hok).ok
    rw [run_concat, step_mem]
    simpa [Env.Ok] using h

/-- It is so for the event that comes next. -/
theorem run_ok (conf : Conf) (cfg : Config) (w : World) (es : List Event) (ev : Event) :
    (((init conf cfg w).run es).env ev).Ok ((init conf cfg w).run es).mem.store := by
  simpa [Env.Ok] using run_wellFormed conf cfg w es

/-- What holds at first and is added to by the moves of each event holds of the
    events so far. -/
theorem run_history {P : List Event → Mem → Prop} (h₀ : P [] (init conf cfg w).mem)
    (hmono : ∀ es ev m, P es m → P (es ++ [ev]) m)
    (hmove : ∀ es ev m m', (((init conf cfg w).run es).env ev).Ok m.store →
      (ev.action ≠ .rebind → ((init conf cfg w).run es).mem.world.SameLinks m.world) →
      Move (((init conf cfg w).run es).env ev) ev.action m m' →
      P (es ++ [ev]) m → P (es ++ [ev]) m')
    (es : List Event) : P es ((init conf cfg w).run es).mem := by
  induction es using List.reverseRecOn with
  | nil => exact h₀
  | append_singleton es ev ih =>
    rw [run_concat, step_mem]
    exact stepMem_induction (run_ok conf cfg w es ev) (hmono es ev _ ih)
      fun m₁ m₂ hok hlinks hm => hmove es ev m₁ m₂ hok hlinks hm

/-- What holds at first and is kept by the moves holds in every state reached. -/
theorem run_induction {P : Mem → Prop} (h₀ : P (init conf cfg w).mem)
    (hmove : ∀ e a m m', e.conf = conf → e.cfg = cfg → e.Ok m.store → Move e a m m' →
      P m → P m') (es : List Event) : P ((init conf cfg w).run es).mem :=
  run_history (P := fun _ => P) h₀ (fun _ _ _ h => h)
    (fun es ev m m' hok _ hm => hmove _ _ m m' (by simp) (by simp) hok hm) es

/-- The clock does not go back during the run. -/
def Clocked (es : List Event) : Prop := es.Pairwise fun ev ev' => ev.time ≤ ev'.time

/-- A run has a last time. -/
theorem exists_time_le (es : List Event) : ∃ t, ∀ ev ∈ es, ev.time ≤ t := by
  induction es with
  | nil => exact ⟨0, by simp⟩
  | cons ev es ih =>
    obtain ⟨t, ht⟩ := ih
    refine ⟨max ev.time t, fun ev' hev' => ?_⟩
    rcases List.mem_cons.1 hev' with rfl | hev'
    · exact le_max_left ..
    · exact (ht ev' hev').trans (le_max_right ..)

/-- Invariants that depend on the time, of the runs whose clock does not go back:
    they have to last as time goes by, and be kept by the moves. -/
theorem run_clocked {P : ℤ → Mem → Prop} (h₀ : ∀ t, P t (init conf cfg w).mem)
    (hmono : ∀ t t' m, t ≤ t' → P t m → P t' m)
    (hmove : ∀ e a m m', e.conf = conf → e.cfg = cfg → e.Ok m.store → Move e a m m' →
      P e.now m → P e.now m') {es : List Event} (hes : Clocked es) {t : ℤ}
    (ht : ∀ ev ∈ es, ev.time ≤ t) : P t ((init conf cfg w).run es).mem := by
  induction es using List.reverseRecOn generalizing t with
  | nil => exact h₀ t
  | append_singleton es ev ih =>
    obtain ⟨hes, -, hle⟩ := List.pairwise_append.1 hes
    have hev : P ev.time ((init conf cfg w).run es).mem :=
      ih hes fun ev' hev' => hle ev' hev' ev (List.mem_singleton_self ev)
    rw [run_concat, step_mem]
    refine hmono ev.time t _ (ht ev (by simp)) ?_
    exact stepMem_induction (run_ok conf cfg w es ev) hev fun m₁ m₂ hok _ hm hP =>
      hmove _ _ m₁ m₂ (by simp) (by simp) hok hm hP

end Daemon

/-! ## Sessions -/

/-- The other sessions are as before. -/
theorem Store.Writes.of_ne {e : Env} {st st' : Store} {i j : SessionId} {o : Option Session}
    (h : st.Writes e i o st') (hj : j ≠ i) : st'.session j = st.session j := by
  rw [h.session_eq, Function.update_of_ne hj]

theorem Store.Writes.self {e : Env} {st st' : Store} {i : SessionId} {o : Option Session}
    (h : st.Writes e i o st') : st'.session i = o := by
  rw [h.session_eq, Function.update_self]

/-- What a move keeps of each session, from what a change keeps. -/
theorem Move.forall_session {e : Env} {a : Action} {m m' : Mem} {P : Session → Prop}
    (hm : Move e a m m') (h : ∀ i s, m.store.session i = some s → P s)
    (hchange : ∀ i o s' w', Change e i m.world a o (some s') w' →
      (∀ s, o = some s → P s) → P s') :
    ∀ i s, m'.store.session i = some s → P s := by
  intro j s' hs'
  cases hm with
  | session i o o' st' w' ho hc hw =>
    by_cases hj : j = i
    · subst hj
      obtain rfl : o' = some s' := hw.self.symm.trans hs'
      exact hchange j o s' w' hc fun s hs => h j s (ho.trans hs)
    · exact h j s' ((hw.of_ne hj).symm.trans hs')
  | world w' _ => exact h j s' hs'

/-- What the changes keep of a session holds of the sessions in every state reached. -/
theorem Daemon.run_sessions {conf : Conf} {cfg : Config} {w : World} {P : Session → Prop}
    (hchange : ∀ e i w a o s' w', e.conf = conf → e.cfg = cfg → Change e i w a o (some s') w' →
      (∀ s, o = some s → P s) → P s') (es : List Event) :
    ∀ i s, ((init conf cfg w).run es).mem.store.session i = some s → P s :=
  run_induction (P := fun m => ∀ i s, m.store.session i = some s → P s)
    (fun i s hs => absurd hs (by simp [init, Store.empty]))
    (fun e a m m' hconf hcfg _ hm h => hm.forall_session h fun i o s' w' hc =>
      hchange e i m.world a o s' w' hconf hcfg hc) es

/-! ## Ticks -/

variable {e : Env} {m : Mem} {i : SessionId} {s : Session} {w w' : World}

/-- Whether an address is an own one depends on the links only. -/
theorem ownAddr_congr (h : w.SameLinks w') (rule : Rule) (tgtR : Addr) :
    ownAddr e rule tgtR w' = ownAddr e rule tgtR w := by
  unfold ownAddr
  cases rule.iface with
  | none => rfl
  | some f => rw [Option.any_some, Option.any_some, (h f).1, (h f).2]

theorem waiting_congr (h : w.SameLinks w') (s : Session) :
    (s.iface.any fun f => !(w'.net.iface f).up) = s.iface.any fun f => !(w.net.iface f).up := by
  cases s.iface with
  | none => rfl
  | some f => rw [Option.any_some, Option.any_some, (h f).1]

/-- What an update does to a session does not depend on the log. -/
theorem updateSession_congr (h : w.SameLinks w') :
    (updateSession e i s w').1 = (updateSession e i s w).1 := by
  unfold updateSession
  rw [waiting_congr h]
  simp only [ownAddr_congr h]
  split <;> split_ifs <;> rfl

/-- What an update leaves of its session. -/
theorem ndSessionUpdate_session_self (e : Env) (i : SessionId) (m : Mem) :
    (ndSessionUpdate e i m).store.session i =
      (m.store.session i).bind fun s => (updateSession e i s m.world).1 := by
  unfold ndSessionUpdate
  cases hs : m.store.session i with
  | none => exact hs
  | some s =>
    dsimp only [Option.bind_some]
    obtain ⟨o, w, ho⟩ : ∃ o w, updateSession e i s m.world = (o, w) := ⟨_, _, rfl⟩
    rw [ho]
    cases o with
    | some s' => exact Store.set_session_self ..
    | none => exact Store.unlink_session_self ..

/-- The world after an update. -/
theorem ndSessionUpdate_world (e : Env) (i : SessionId) (m : Mem) :
    (ndSessionUpdate e i m).world =
      (m.store.session i).elim m.world fun s => (updateSession e i s m.world).2 := by
  rw [ndSessionUpdate]
  cases m.store.session i with
  | none => rfl
  | some s =>
    dsimp only [Option.elim_some]
    split
    · rename_i h; rw [h]
    · rename_i h; rw [h]

theorem ndSessionUpdate_sameLinks (e : Env) (i : SessionId) (m : Mem) :
    m.world.SameLinks (ndSessionUpdate e i m).world := by
  rcases ndSessionUpdate_cases e m i with ⟨-, hm⟩ | ⟨s, s', w, -, hc, hm⟩ | ⟨s, w, -, hc, hm⟩
  · rw [hm]
    exact .refl _
  · rw [hm]
    exact hc.sameLinks
  · rw [hm]
    exact hc.sameLinks

/-- In a pass each session is updated once, from what it was before the pass: the others do not
    interfere. -/
theorem foldl_update_session {l : List SessionId} (hl : l.Nodup) (i : SessionId) :
    (l.foldl (fun m i => ndSessionUpdate e i m) m).store.session i =
      if i ∈ l then (m.store.session i).bind fun s => (updateSession e i s m.world).1
      else m.store.session i := by
  induction l generalizing m with
  | nil => simp
  | cons j l ih =>
    obtain ⟨hj, hl⟩ := List.nodup_cons.1 hl
    rw [List.foldl_cons, ih hl]
    by_cases hij : i = j
    · subst hij
      rw [if_neg hj, if_pos List.mem_cons_self, ndSessionUpdate_session_self]
    · rw [ndSessionUpdate_session_of_ne e m hij]
      simp only [updateSession_congr (ndSessionUpdate_sameLinks e j m), List.mem_cons, hij,
        false_or]

/-- A tick updates each session, as it was before the tick. -/
theorem tick_session (h : e.Ok m.store) (i : SessionId) :
    (ndSessionUpdateAll e m).store.session i =
      (m.store.session i).bind fun s => (updateSession e i s m.world).1 := by
  rw [ndSessionUpdateAll_eq h, foldl_update_session (nodup_order h)]
  split_ifs with hi
  · rfl
  · rw [mem_order h, Bool.not_eq_true, Option.isSome_eq_false_iff, Option.isNone_iff_eq_none] at hi
    rw [hi]
    rfl

theorem tick_sameLinks (h : e.Ok m.store) :
    m.world.SameLinks (Daemon.stepMem e .tick m).world :=
  stepMem_induction (Q := fun m' => m.world.SameLinks m'.world) h (.refl _)
    fun _ _ _ _ hm hQ => hQ.trans (hm.sameLinks trivial (by simp))

/-- The session after a tick. -/
theorem tick_updateCase {s' : Session} (h : e.Ok m.store)
    (hs' : (Daemon.stepMem e .tick m).store.session i = some s') :
    ∃ s w', m.store.session i = some s ∧ UpdateCase e i s m.world (some s') w' := by
  rw [Daemon.stepMem, tick_session h] at hs'
  obtain ⟨s, hs, hu⟩ := Option.bind_eq_some_iff.1 hs'
  refine ⟨s, (updateSession e i s m.world).2, hs, ?_⟩
  rw [← hu]
  exact updateCase e i s m.world

end Ndppd
