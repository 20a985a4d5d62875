import Ndppd.Daemon.Runs

/-!
# Calls and the log

The calls of the session layer do not read the log, they only add to it: from a
world with more entries below (`World.under`), they do the same. So what a call
returns, and what it adds, depend on the interfaces only.
-/

namespace Ndppd

/-- The world, with older entries in its log. -/
def World.under (w : World) (l : List Entry) : World := { w with log := w.log ++ l }

/-- A call which only adds to the log. -/
def Framed {α : Type} (g : World → α × World) : Prop :=
  ∀ w l, g (w.under l) = ((g w).1, (g w).2.under l)

/-- The same, for a call which returns nothing. -/
def FramedUnit (g : World → World) : Prop := ∀ w l, g (w.under l) = (g w).under l

variable {α : Type} {e : Env} {i : SessionId} {s : Session} {w : World} {l : List Entry}

/-- A branch on something else than the log. -/
theorem framed_ite {c : Prop} [Decidable c] {a a' b b' : α × World}
    (ha : a' = (a.1, a.2.under l)) (hb : b' = (b.1, b.2.under l)) :
    (if c then a' else b') = ((if c then a else b).1, (if c then a else b).2.under l) := by
  split_ifs
  · exact ha
  · exact hb

/-! ## Interfaces and routes -/

/-- The objects after `nd_iface_close`. -/
def Net.close (n : Net) (f : IfaceId) : Net :=
  { n.set f { n.iface f with refcount := (n.iface f).refcount - 1 } with
    ifaces := if (n.iface f).refcount - 1 > 0 then n.ifaces else n.ifaces.erase f }

/-- What `nd_iface_close` adds to the log. -/
def closeEntries (e : Env) (n : Net) (f : IfaceId) : List Entry :=
  if (n.iface f).refcount - 1 > 0 then []
  else if (n.iface f).up then [⟨e.now, .dropMembership (n.iface f).index (n.iface f).promiscuous⟩]
  else []

/-- Closing an interface, as what becomes of the objects and what is added to the log. -/
theorem ndIfaceClose_eq (e : Env) (f : IfaceId) (w : World) :
    ndIfaceClose e f w = ⟨w.net.close f, closeEntries e w.net f ++ w.log⟩ := by
  obtain ⟨n, log⟩ := w
  rw [ndIfaceClose, Net.close, closeEntries]
  by_cases h : (n.iface f).refcount - 1 > 0
  · simp only [if_pos h]
    rfl
  · by_cases hup : (n.iface f).up = true
    · simp only [if_neg h, if_pos hup]
      rfl
    · simp only [if_neg h, if_neg hup]
      rfl

theorem framed_ndIfaceClose (e : Env) (f : IfaceId) : FramedUnit (ndIfaceClose e f) := by
  intro w l
  rw [ndIfaceClose_eq, ndIfaceClose_eq, World.under, World.under, List.append_assoc]

theorem framed_ndIfaceOpenAt (e : Env) (name : IfName) (index : ℕ) (promiscuous : Bool) :
    Framed (ndIfaceOpenAt e name index promiscuous) := by
  rintro ⟨n, log⟩ l
  simp only [ndIfaceOpenAt, World.under]
  split
  · rfl
  · split
    · rfl
    · split
      · rfl
      · split_ifs <;> rfl

/-- Opening an interface depends on the objects that are there, and on the kernel. -/
theorem framed_ndIfaceOpen (e : Env) (name : Option IfName) (index : ℕ) (promiscuous : Bool) :
    Framed (ndIfaceOpen e name index promiscuous) := by
  intro w l
  cases name with
  | some name =>
    refine framed_ite (framed_ite ?_ rfl) (framed_ite rfl (framed_ndIfaceOpenAt ..))
    cases hfind : w.net.ifaces.find? fun i => (w.net.iface i).name == name with
    | none => simp only [World.under, hfind]
    | some i => simp only [World.under, hfind]
  | none =>
    refine framed_ite rfl ?_
    cases e.kernel.ifIndextoname index with
    | none => rfl
    | some name => exact framed_ndIfaceOpenAt ..

/-- So does opening the interface of a route. -/
theorem framed_openRoute (e : Env) (rule : Rule) (tgt : Addr) : Framed (openRoute e rule tgt) := by
  intro w l
  rw [openRoute, openRoute]
  cases ndRtFindRoute e.conf.byteOrder e.rt tgt rule.table with
  | none => rfl
  | some route => exact framed_ite rfl (framed_ndIfaceOpen ..)

theorem framed_ndLUp (e : Env) (i : SessionId) (s : Session) : Framed (ndLUp e i s) := by
  intro w l
  rw [ndLUp, ndLUp]
  cases s.iface with
  | none => rfl
  | some f => exact framed_ite rfl rfl

theorem framed_ndLDown (e : Env) (i : SessionId) (s : Session) : Framed (ndLDown e i s) :=
  fun _ _ => framed_ite rfl rfl

/-! ## Solicitations and advertisements -/

/-- The answer is sent with what the interface has, not with what has been sent before. -/
theorem framed_answerNs (e : Env) (i : SessionId) (src : Addr) (srcLl : Option LlAddr)
    (s : Session) : FramedUnit (answerNs e i src srcLl s) := by
  intro w l
  cases srcLl with
  | none => rfl
  | some ll =>
    rw [answerNs, answerNs]
    split_ifs <;> rfl

/-- Another look at the route closes one interface and opens another. -/
theorem framed_recheckRoute (e : Env) (i : SessionId) (s : Session) :
    Framed (recheckRoute e i s) := by
  intro w l
  refine framed_ite ?_ rfl
  obtain ⟨o, w', ho⟩ : ∃ o w', openRoute e (e.ruleOf s) s.tgt w = (o, w') := ⟨_, _, rfl⟩
  rw [framed_openRoute, ho]
  cases o <;> rfl

theorem framed_probeStale (e : Env) (i : SessionId) (s : Session) : Framed (probeStale e i s) :=
  fun _ _ => framed_ite rfl rfl

/-- A solicitation for a session, in whatever state the session is. -/
theorem framed_ndSessionHandleNs (e : Env) (i : SessionId) (src : Addr) (srcLl : Option LlAddr)
    (s : Session) : Framed (ndSessionHandleNs e i src srcLl s) := by
  intro w l
  refine framed_ite (Prod.ext rfl (framed_answerNs ..)) ?_
  cases srcLl with
  | none => rfl
  | some ll =>
    cases hsubs : queueSub e.conf.byteOrder src ll s.subs with
    | none => simp only [hsubs]
    | some subs =>
      simp only [hsubs]
      rw [framed_recheckRoute, framed_probeStale]

/-- Each subscriber gets an advertisement: a loop of calls that only add to the log. -/
theorem framed_sendSubs (e : Env) (i : SessionId) (s : Session) : FramedUnit (sendSubs e i s) := by
  intro w l
  rw [sendSubs, sendSubs]
  induction s.subs generalizing w with
  | nil => rfl
  | cons sub subs ih =>
    exact ih (ndIfaceSendNa e i (e.proxyOf s).iface sub.addr sub.lladdr s.tgt (tgtLl e s)
      (e.proxyOf s).router w)

/-- An advertisement for a session. -/
theorem framed_ndSessionHandleNa (e : Env) (i : SessionId) (s : Session) :
    Framed (ndSessionHandleNa e i s) := by
  intro w l
  refine framed_ite rfl ?_
  rw [framed_sendSubs]
  dsimp only
  rw [framed_ndLUp]

/-- The start of a session opens an interface and may solicit on it. -/
theorem framed_startSession (e : Env) (i : SessionId) (s : Session) :
    Framed (startSession e i s) := by
  intro w l
  refine framed_ite ?_ (framed_ite rfl ?_)
  · obtain ⟨o, w', ho⟩ : ∃ o w', openRoute e (e.ruleOf s) s.tgt w = (o, w') := ⟨_, _, rfl⟩
    rw [framed_openRoute, ho]
    cases o <;> rfl
  · cases (e.ruleOf s).iface <;> rfl

theorem framed_ifaceChanged (e : Env) (f : IfaceId) (up : Bool) (i : SessionId) (s : Session) :
    Framed (ifaceChanged e f up i s) :=
  fun _ _ => framed_ite rfl (framed_ite rfl (framed_ite (framed_ndLUp ..) rfl))

/-! ## Timers -/

/-- The update of a session, in each of its states, and its deletion. -/
theorem framed_updateSession (e : Env) (i : SessionId) (s : Session) :
    Framed (updateSession e i s) := by
  intro w l
  rw [updateSession, updateSession]
  cases s.state with
  | incomplete => exact framed_ite (framed_ite rfl rfl) (framed_ite rfl (framed_ite rfl rfl))
  | invalid =>
    refine framed_ite rfl ?_
    dsimp only
    rw [framed_ndLDown]
    cases (ndLDown e i s w).1.iface with
    | none => rfl
    | some f => exact Prod.ext rfl (framed_ndIfaceClose ..)
  | valid => exact framed_ite rfl (framed_ite (framed_ite rfl rfl) (framed_ite rfl rfl))
  | stale => exact framed_ite rfl (framed_ite rfl (framed_ite rfl rfl))

end Ndppd
