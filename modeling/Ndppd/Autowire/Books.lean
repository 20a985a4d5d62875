import Ndppd.Autowire.Passes
import Ndppd.Autowire.Trace

/-!
# The books of the sessions

A session keeps in `autowired` whether it relies on a route. What this flag says of
the past is read off the notes (`Booked`): it is set if and only if the route was
asked for since the interface of the session last went away (`addedSince`). A
route is thus asked for again only after that, via the same interface
(`Note.Fits`).

The calls on a session keep the books (`Booked.move`), and so do the passes over
the interfaces (`Booked.rebindAll`): a session is not autowired any more before its
interface gets another index.
-/

namespace Ndppd

open Intrusive

variable {e : Env} {c : Config} {a : Action} {i j : SessionId} {s s' : Session} {f : IfaceId}
  {t t' : Traced} {m m' : Mem} {w w' : World} {n : Note} {ns : List Note}

/-! ## The past -/

/-- The route of the session `i` was asked for since the interface `f` last went away. -/
def addedSince (i : SessionId) (f : IfaceId) : List Note → Bool
  | [] => false
  | .lost g :: ns => g != f && addedSince i f ns
  | .added j _ _ :: ns => j == i || addedSince i f ns
  | .removed _ :: ns => addedSince i f ns

/-- What is noted fits what was noted before. A route is asked for via the
    interface of its session, with its index; it was not asked for since the
    interface last went away, and never via another one. -/
def Note.Fits (ns : List Note) : Note → Prop
  | .added i oif via => ∃ f, via = some (f, oif) ∧ addedSince i f ns = false ∧
      ∀ oif' via', .added i oif' via' ∈ ns → via' = some (f, oif')
  | _ => True

/-- Every note fits those before it. -/
def Fit : List Note → Prop
  | [] => True
  | n :: ns => n.Fits ns ∧ Fit ns

theorem Fit.append {new : List Note} (h : Fit (new ++ ns)) : Fit ns := by
  induction new with
  | nil => exact h
  | cons n new ih => exact ih h.2

/-- The request is for the session `i`. -/
def Note.About (i : SessionId) : Note → Prop
  | .lost _ => False
  | .added j _ _ => j = i
  | .removed j => j = i

theorem addedSince_of_about (hn : n.About i) (hj : j ≠ i) :
    addedSince j f (n :: ns) = addedSince j f ns := by
  cases n with
  | lost g => exact absurd hn id
  | added k oif via =>
    obtain rfl : k = i := hn
    rw [addedSince, beq_false_of_ne hj.symm, Bool.false_or]
  | removed k => rfl

theorem mem_of_about {oif : ℕ} {via : Option (IfaceId × ℕ)} (hn : n.About i) (hj : j ≠ i)
    (h : .added j oif via ∈ n :: ns) : .added j oif via ∈ ns := by
  rcases List.mem_cons.1 h with rfl | h
  · exact absurd hn hj
  · exact h

/-- Where a route was not asked for at all. -/
theorem addedSince_eq_false (h : ∀ oif via, .added i oif via ∉ ns) (f : IfaceId) :
    addedSince i f ns = false := by
  induction ns with
  | nil => rfl
  | cons n ns ih =>
    have hns := ih fun oif via hmem => h oif via (List.mem_cons_of_mem n hmem)
    cases n with
    | lost g => rw [addedSince, hns, Bool.and_false]
    | added j oif via =>
      have hj : j ≠ i := by
        rintro rfl
        exact h oif via List.mem_cons_self
      rw [addedSince, hns, beq_false_of_ne hj, Bool.false_or]
    | removed j => exact hns

/-- Between two requests, the interface went away. -/
theorem lost_of_addedSince {mid : List Note} {oif : ℕ} {via : Option (IfaceId × ℕ)}
    (h : addedSince i f (mid ++ .added i oif via :: ns) = false) : .lost f ∈ mid := by
  induction mid with
  | nil => simp [addedSince] at h
  | cons n mid ih =>
    cases n with
    | lost g =>
      rw [List.cons_append, addedSince, Bool.and_eq_false_iff, bne_eq_false_iff_eq] at h
      rcases h with rfl | h
      · exact List.mem_cons_self
      · exact List.mem_cons_of_mem _ (ih h)
    | added j oif via =>
      rw [List.cons_append, addedSince, Bool.or_eq_false_iff] at h
      exact List.mem_cons_of_mem _ (ih h.2)
    | removed j => exact List.mem_cons_of_mem _ (ih h)

/-! ## The books -/

/-- The books of a session. -/
structure Session.Booked (c : Config) (t : Traced) (i : SessionId) (s : Session) : Prop where
  lt_fresh : i < t.mem.store.fresh
  /-- It is autowired by its rule, on an interface which is up. -/
  wired : s.autowired = true → (c.rule s.rule).autowire = true ∧
    ∃ f, s.iface = some f ∧ (t.mem.world.net.iface f).up = true
  flag : ∀ f, s.iface = some f → s.autowired = addedSince i f t.notes
  /-- Its route was only asked for via its interface. -/
  link : ∀ oif via, .added i oif via ∈ t.notes → ∃ f, s.iface = some f ∧ via = some (f, oif)

/-- The books of the sessions. -/
structure Booked (c : Config) (t : Traced) : Prop where
  session : ∀ i s, t.mem.store.session i = some s → s.Booked c t i
  fresh : ∀ i oif via, .added i oif via ∈ t.notes → i < t.mem.store.fresh
  fit : Fit t.notes

/-- A session that does not change, when nothing is noted about it. -/
theorem Session.Booked.congr (h : s.Booked c t i)
    (hfresh : t.mem.store.fresh ≤ t'.mem.store.fresh)
    (hup : ∀ f, s.iface = some f → s.autowired = true →
      (t'.mem.world.net.iface f).up = (t.mem.world.net.iface f).up)
    (hsince : ∀ f, s.iface = some f → addedSince i f t'.notes = addedSince i f t.notes)
    (hmem : ∀ oif via, .added i oif via ∈ t'.notes → .added i oif via ∈ t.notes) :
    s.Booked c t' i where
  lt_fresh := h.lt_fresh.trans_le hfresh
  wired hauto := by
    obtain ⟨hrule, f, hf, hlink⟩ := h.wired hauto
    exact ⟨hrule, f, hf, (hup f hf hauto).trans hlink⟩
  flag f hf := (h.flag f hf).trans (hsince f hf).symm
  link oif via hadd := h.link oif via (hmem oif via hadd)

/-- No session is autowired on an interface that is not up. -/
theorem Booked.unwired (h : Booked c t) (hf : (t.mem.world.net.iface f).up = false) :
    Unwired t.mem f := by
  intro i s hs hsf
  by_contra hauto
  obtain ⟨-, g, hg, hup⟩ := (h.session i s hs).wired (Bool.not_eq_false _ ▸ hauto)
  obtain rfl : g = f := Option.some.inj (hg.symm.trans hsf)
  exact absurd (hup.symm.trans hf) (by simp)

namespace Booked

/-- The sessions do not change, and nothing is noted. -/
theorem world (h : Booked c t) (hnotes : (t.after { t.mem with world := w' }).notes = t.notes)
    (hup : ∀ f, ¬Unwired t.mem f → (w'.net.iface f).up = (t.mem.world.net.iface f).up) :
    Booked c (t.after { t.mem with world := w' }) := by
  refine ⟨fun i s hs => ?_, fun i oif via hadd => ?_, ?_⟩
  · refine (h.session i s hs).congr le_rfl (fun f hf hauto => hup f fun hun => ?_)
      (fun f _ => by rw [hnotes]) fun oif via => by rw [hnotes]; exact id
    exact absurd (hauto.symm.trans (hun i s hs hf)) (by simp)
  · rw [hnotes] at hadd
    exact h.fresh i oif via hadd
  · rw [hnotes]
    exact h.fit

/-- The session `i` changes; what is asked for is for it. -/
theorem write (h : Booked c t) {o : Option Session} {st' : Store}
    (hw : t.mem.store.Writes e i o st') (new : Option Note)
    (hnotes : (t.after { store := st', world := w' }).notes = new.toList ++ t.notes)
    (hnew : ∀ n, new = some n → n.About i ∧ n.Fits t.notes)
    (hup : ∀ j s f, t.mem.store.session j = some s → s.iface = some f →
      (w'.net.iface f).up = (t.mem.world.net.iface f).up)
    (hself : ∀ s', o = some s' →
      s'.Booked c (t.after { store := st', world := w' }) i) :
    Booked c (t.after { store := st', world := w' }) := by
  -- What is noted says nothing about the other sessions.
  have hsince : ∀ j f, j ≠ i → addedSince j f (new.toList ++ t.notes) = addedSince j f t.notes := by
    intro j f hj
    cases new with
    | none => rfl
    | some n => exact addedSince_of_about (hnew n rfl).1 hj
  have hmem : ∀ j oif via, j ≠ i → .added j oif via ∈ new.toList ++ t.notes →
      .added j oif via ∈ t.notes := by
    intro j oif via hj hadd
    cases new with
    | none => exact hadd
    | some n => exact mem_of_about (hnew n rfl).1 hj hadd
  refine ⟨fun j s hs => ?_, fun j oif via hadd => ?_, ?_⟩
  · by_cases hj : j = i
    · subst hj
      exact hself s (hw.self.symm.trans hs)
    · have hs' : t.mem.store.session j = some s := (hw.of_ne hj).symm.trans hs
      refine (h.session j s hs').congr hw.fresh_le (fun f hf _ => hup j s f hs' hf)
        (fun f _ => ?_) fun oif via hadd => ?_
      · rw [hnotes]
        exact hsince j f hj
      · rw [hnotes] at hadd
        exact hmem j oif via hj hadd
  · rw [hnotes] at hadd
    by_cases hj : j = i
    · exact hj ▸ hw.lt_fresh
    · exact (h.fresh j oif via (hmem j oif via hj hadd)).trans_le hw.fresh_le
  · rw [hnotes]
    cases new with
    | none => exact h.fit
    | some n => exact ⟨(hnew n rfl).2, h.fit⟩

/-! ## Calls on a session -/

section Change

variable {st' : Store}

/-- Nothing is asked for, and the session is as autowired as before. It may get its
    interface. -/
theorem quiet (h : Booked c t) (hs : t.mem.store.session i = some s)
    (hw : t.mem.store.Writes e i (some s') st') (hreq : w'.requests = t.mem.world.requests)
    (hup : ∀ j s f, t.mem.store.session j = some s → s.iface = some f →
      (w'.net.iface f).up = (t.mem.world.net.iface f).up)
    (hauto : s'.autowired = s.autowired) (hrule : s'.rule = s.rule)
    (hiface : s'.iface = s.iface ∨ s.iface = none) :
    Booked c (t.after { store := st', world := w' }) := by
  have hnotes : (t.after { store := st', world := w' }).notes = t.notes :=
    Traced.after_notes_of_eq hreq
  refine h.write hw none hnotes (fun _ hn => absurd hn (by simp)) hup fun s₁ hs₁ => ?_
  obtain rfl : s' = s₁ := Option.some.inj hs₁
  have hb := h.session i s hs
  refine ⟨hw.lt_fresh, fun hauto' => ?_, fun f hf => ?_, fun oif via hadd => ?_⟩
  · obtain ⟨hwire, f, hf, hlink⟩ := hb.wired (hauto.symm.trans hauto')
    refine ⟨hrule ▸ hwire, f, ?_, (hup i s f hs hf).trans hlink⟩
    exact (hiface.resolve_right (by simp [hf])).trans hf
  · rw [hnotes, hauto]
    rcases hiface with hsame | hnone
    · exact hb.flag f (hsame.symm.trans hf)
    · -- The session had no interface: it was not autowired, and has asked for nothing.
      have hfalse : s.autowired = false := by
        by_contra hne
        obtain ⟨-, g, hg, -⟩ := hb.wired (Bool.not_eq_false _ ▸ hne)
        exact absurd (hg.symm.trans hnone) (by simp)
      rw [hfalse, addedSince_eq_false fun oif via hadd => ?_]
      obtain ⟨g, hg, -⟩ := hb.link oif via hadd
      exact absurd (hg.symm.trans hnone) (by simp)
  · rw [hnotes] at hadd
    obtain ⟨g, hg, hvia⟩ := hb.link oif via hadd
    exact ⟨g, (hiface.resolve_right (by simp [hg])).trans hg, hvia⟩

/-- A new session has asked for nothing. -/
theorem created (h : Booked c t) (hs : t.mem.store.session i = none)
    (hw : t.mem.store.Writes e i (some s') st') (hreq : w'.requests = t.mem.world.requests)
    (hup : ∀ j s f, t.mem.store.session j = some s → s.iface = some f →
      (w'.net.iface f).up = (t.mem.world.net.iface f).up)
    (hauto : s'.autowired = false) : Booked c (t.after { store := st', world := w' }) := by
  have hnotes : (t.after { store := st', world := w' }).notes = t.notes :=
    Traced.after_notes_of_eq hreq
  have hnone : ∀ oif via, .added i oif via ∉ t.notes := by
    intro oif via hadd
    have hlt := h.fresh i oif via hadd
    rw [hw.eq_fresh hs] at hlt
    exact Nat.lt_irrefl _ hlt
  refine h.write hw none hnotes (fun _ hn => absurd hn (by simp)) hup fun s₁ hs₁ => ?_
  obtain rfl : s' = s₁ := Option.some.inj hs₁
  refine ⟨hw.lt_fresh, fun hauto' => ?_, fun f _ => ?_, fun oif via hadd => ?_⟩
  · exact absurd (hauto.symm.trans hauto') (by simp)
  · rw [hnotes, hauto, addedSince_eq_false hnone]
  · rw [hnotes] at hadd
    exact absurd hadd (hnone oif via)

/-- The route of the session is asked for. -/
theorem wire (h : Booked c t) (hs : t.mem.store.session i = some s)
    (hw : t.mem.store.Writes e i (some s') st') (hnet : w'.net = t.mem.world.net)
    (hiface : s'.iface = s.iface) (hrule : s'.rule = s.rule) (hf : s.iface = some f)
    (hup : (t.mem.world.net.iface f).up = true) (hwire : (c.rule s.rule).autowire = true)
    (hauto : s.autowired = false) (hauto' : s'.autowired = true) {now : ℤ} {dst : Addr}
    {pflen table : ℕ} {accepted : Bool} (hreq : w'.requests =
      ⟨now, .addRoute i dst pflen (t.mem.world.net.iface f).index table accepted⟩ ::
        t.mem.world.requests) :
    Booked c (t.after { store := st', world := w' }) := by
  let oif := (t.mem.world.net.iface f).index
  have hlink : ({ store := st', world := w' } : Mem).link i = some (f, oif) := by
    rw [Mem.link, hw.self, Option.bind_some, hiface, hf, hnet]
    rfl
  have hnotes : (t.after { store := st', world := w' }).notes =
      .added i oif (some (f, oif)) :: t.notes := by
    rw [← hlink]
    exact t.after_notes_cons { store := st', world := w' } hreq
  have hb := h.session i s hs
  have hlinks : ∀ oif' via, .added i oif' via ∈ t.notes → via = some (f, oif') := by
    intro oif' via hadd
    obtain ⟨g, hg, hvia⟩ := hb.link oif' via hadd
    rw [hvia, Option.some.inj (hg.symm.trans hf)]
  refine h.write hw (some (.added i oif (some (f, oif)))) hnotes ?_ (fun _ _ _ _ _ => by rw [hnet])
    fun s₁ hs₁ => ?_
  · intro n hn
    obtain rfl := Option.some.inj hn
    exact ⟨rfl, f, rfl, (hb.flag f hf).symm.trans hauto, hlinks⟩
  · obtain rfl : s' = s₁ := Option.some.inj hs₁
    refine ⟨hw.lt_fresh, fun _ => ?_, fun g hg => ?_, fun oif' via hadd => ?_⟩
    · refine ⟨hrule ▸ hwire, f, hiface.trans hf, ?_⟩
      change (w'.net.iface f).up = true
      rw [hnet]
      exact hup
    · rw [hnotes, hauto', addedSince, beq_self_eq_true, Bool.true_or]
    · refine ⟨f, hiface.trans hf, ?_⟩
      rw [hnotes] at hadd
      rcases List.mem_cons.1 hadd with hadd | hadd
      · cases hadd
        rfl
      · exact hlinks oif' via hadd

/-- `ndL_up` on a session, which may change otherwise. -/
theorem up (h : Booked e.cfg t) (hs : t.mem.store.session i = some s) {s₁ : Session} {w₁ : World}
    (hw : t.mem.store.Writes e i (some s') st') (hiface₁ : s₁.iface = s.iface)
    (hrule₁ : s₁.rule = s.rule) (hauto₁ : s₁.autowired = s.autowired)
    (hnet₁ : w₁.net = t.mem.world.net) (hreq₁ : w₁.requests = t.mem.world.requests)
    (hiface : s'.iface = s.iface) (hrule : s'.rule = s.rule)
    (hauto : s'.autowired = (ndLUp e i s₁ w₁).1.autowired) :
    Booked e.cfg (t.after { store := st', world := (ndLUp e i s₁ w₁).2 }) := by
  rcases ndLUp_cases e i s₁ w₁ with ⟨hup, -⟩ | ⟨f, hf, hlink, hfalse, hwire, hup⟩
  · rw [hup] at hauto ⊢
    exact h.quiet hs hw hreq₁ (fun _ _ _ _ _ => by rw [hnet₁]) (hauto.trans hauto₁) hrule
      (.inl hiface)
  · rw [hup] at hauto ⊢
    have hreq : (w₁.emit e (e.addRouteAct i s₁ (w₁.net.iface f).index)).requests =
        ⟨e.now, e.addRouteAct i s₁ (t.mem.world.net.iface f).index⟩ :: t.mem.world.requests := by
      rw [← hnet₁, ← hreq₁]
      rfl
    rw [hnet₁] at hlink
    rw [Env.ruleOf, hrule₁] at hwire
    exact h.wire hs hw hnet₁ hiface hrule (hiface₁.symm.trans hf) hlink hwire
      (hauto₁.symm.trans hfalse) hauto hreq

/-- A session is deleted, and what it has asked for is taken back. -/
theorem deleted (h : Booked c t) (hw : t.mem.store.Writes e i none st') (new : Option Note)
    (hnotes : (t.after { store := st', world := w' }).notes = new.toList ++ t.notes)
    (hnew : ∀ n, new = some n → n = .removed i)
    (hup : ∀ j s f, t.mem.store.session j = some s → s.iface = some f →
      (w'.net.iface f).up = (t.mem.world.net.iface f).up) :
    Booked c (t.after { store := st', world := w' }) := by
  refine h.write hw new hnotes (fun n hn => ?_) hup fun s₁ hs₁ => absurd hs₁ (by simp)
  rw [hnew n hn]
  exact ⟨rfl, trivial⟩

end Change

end Booked

/-- What is noted when a session is deleted. -/
theorem UpdateCase.notes_deleted {st' : Store} (h : UpdateCase e i s t.mem.world none w') :
    (t.after { store := st', world := w' }).notes =
      (if s.iface.isSome && s.autowired then some (Note.removed i) else none).toList ++
        t.notes := by
  have hreq := h.requests_deleted
  split_ifs at hreq ⊢
  · exact t.after_notes { store := st', world := w' } hreq
  · exact t.after_notes { store := st', world := w' } hreq

/-- What happens outside of the sessions is not noted: it asks for nothing, or for
    no session. -/
theorem Effect.notes_eq (h : Effect e t.mem.world a w') :
    (t.after { t.mem with world := w' }).notes = t.notes := by
  cases h with
  | ignored hsol => exact Traced.after_notes_of_eq hsol.requests_eq
  | rebound => exact Traced.after_notes_of_eq rfl
  | joined => exact Traced.after_notes_of_eq (emit_requests _ e rfl)
  | left => exact Traced.after_notes_of_eq (emit_requests _ e rfl)
  | purged route =>
    have hreq : (ndRtRemoveRoute e none route.dst route.pflen route.table
        t.mem.world).2.requests = ⟨e.now, .removeRoute none route.dst route.pflen route.table
          (e.kernel.removeRoute route.dst route.pflen route.table)⟩ :: t.mem.world.requests := rfl
    exact t.after_notes_cons { t.mem with world := _ } hreq

/-- A move of the daemon keeps the books, except in a pass over the interfaces. -/
theorem Booked.move (h : Booked e.cfg t) (hm : Move e a t.mem m') (ha : a ≠ .rebind)
    (hlt : ∀ j s f, t.mem.store.session j = some s → s.iface = some f →
      f < t.mem.world.net.fresh) : Booked e.cfg (t.after m') := by
  cases hm with
  | session i o o' st' w' ho hc hw =>
    have hup : ∀ j s f, t.mem.store.session j = some s → s.iface = some f →
        (w'.net.iface f).up = (t.mem.world.net.iface f).up :=
      fun j s f hs hf => hc.keeps.up f (hlt j s f hs hf)
    cases hc with
    | created hsol _ hstart hns =>
      refine h.created ho hw ?_ hup ?_
      · exact (hns.requests_eq.trans hstart.requests_eq).trans hsol.requests_eq
      · rw [hns.autowired_eq, hstart.autowired_eq]
        rfl
    | solicited hsol hns =>
      refine h.quiet ho hw (hns.requests_eq.trans hsol.requests_eq) hup hns.autowired_eq
        hns.sameKey.rule ?_
      exact hns.net_cases.imp And.left And.left
    | @advertised _ _ s _ _ _ _ hna =>
      cases hna with
      | refreshed => exact h.quiet ho hw rfl hup rfl rfl (.inl rfl)
      | validated b w' _ hb =>
        have hauto :
            b = (ndLUp e i { s with subs := [] } (sendSubs e i s t.mem.world)).1.autowired := by
          rw [hb]
        obtain rfl : w' = (ndLUp e i { s with subs := [] } (sendSubs e i s t.mem.world)).2 := by
          rw [hb]
        exact h.up ho hw rfl rfl rfl (sendSubs_net ..) (sendSubs_requests ..) rfl rfl hauto
    | updated hu =>
      exact h.quiet ho hw hu.requests_eq hup hu.autowired_eq hu.sameKey.rule (.inl hu.net_eq.1)
    | deleted hu =>
      refine h.deleted hw _ hu.notes_deleted (fun n hn => ?_) hup
      split_ifs at hn
      exact (Option.some.inj hn).symm
    | forgotten => exact absurd rfl ha
    | rewired => exact absurd rfl ha
  | world w' he =>
    refine h.world he.notes_eq fun f _ => ?_
    cases he with
    | ignored hsol => rw [hsol.net_eq]
    | purged => rfl
    | rebound => exact absurd rfl ha
    | joined => exact absurd rfl ha
    | left => exact absurd rfl ha

/-! ## Passes over the interfaces -/

theorem ndSessionIfaceChanged_fresh (e : Env) (f : IfaceId) (up : Bool) (m : Mem) :
    (ndSessionIfaceChanged e f up m).store.fresh = m.store.fresh := by
  rw [ndSessionIfaceChanged]
  refine List.foldlRecOn (motive := fun m' : Mem => m'.store.fresh = m.store.fresh) _ _ rfl
    fun m' hm' b _ => ?_
  refine foreach_invariant (I := fun m' : Mem => m'.store.fresh = m.store.fresh)
    (fun i m' hm' => ?_) _ _ hm'
  unfold Mem.withSession
  split
  · exact hm'
  · exact hm'

theorem Traced.changed_false_notes (e : Env) (f : IfaceId) (t : Traced) :
    (t.changed e f false).notes = .lost f :: t.notes := by
  refine List.foldlRecOn (motive := fun t' : Traced => t'.notes = .lost f :: t.notes) _ _ rfl
    fun t' ht' b _ => ?_
  refine foreach_invariant (I := fun t' : Traced => t'.notes = .lost f :: t.notes)
    (fun i t' ht' => ?_) _ _ ht'
  refine (Traced.after_notes_of_eq ?_).trans ht'
  rw [(withSession_forget e f i t'.mem).1]

/-- The membership moves to the new index (`leaveOld`). -/
def Traced.leaveOld (e : Env) (f : IfaceId) (cur : ℕ) (t : Traced) : Traced :=
  let g := t.mem.world.net.iface f
  let t := t.after (t.mem.emit e (joinAct e f cur t.mem))
  if g.index ≠ 0 ∧ g.index ≠ cur then
    t.after (t.mem.emit e (.dropMembership g.index g.promiscuous)) else t

/-- The object gets its new index (`bindNew`). -/
def Traced.bindNew (e : Env) (f : IfaceId) (cur : ℕ) (adminUp : Bool) (t : Traced) : Traced :=
  let t := t.after (t.mem.setIface f { t.mem.world.net.iface f with index := cur, up := true })
  let t := if adminUp then t.changed e f true else t
  t.after (t.mem.setIface f { t.mem.world.net.iface f with adminUp := adminUp })

theorem Traced.rebindNew_refused {cur : ℕ} {adminUp : Bool}
    (h : e.kernel.addMembership cur (t.mem.world.net.iface f).promiscuous = false) :
    t.rebindNew e f cur adminUp = t.after (t.mem.emit e (joinAct e f cur t.mem)) := by
  have hne : ¬e.kernel.addMembership cur (t.mem.world.net.iface f).promiscuous = true := by simp [h]
  exact if_neg hne

theorem Traced.rebindNew_accepted {cur : ℕ} {adminUp : Bool}
    (h : e.kernel.addMembership cur (t.mem.world.net.iface f).promiscuous = true) :
    t.rebindNew e f cur adminUp = (if (t.mem.world.net.iface f).up then
      (t.leaveOld e f cur).changed e f false else t.leaveOld e f cur).bindNew e f cur adminUp :=
  if_pos h

namespace Booked

/-- An object is written: one on which no session is autowired, or without whether
    it is up. -/
theorem setIface (h : Booked c t) (f : IfaceId) {g : Iface}
    (hg : Unwired t.mem f ∨ g.up = (t.mem.world.net.iface f).up) :
    Booked c (t.after (t.mem.setIface f g)) := by
  refine h.world (Traced.after_notes_of_eq rfl) fun f' hf' => ?_
  by_cases hff : f' = f
  · subst hff
    dsimp only
    rw [Net.set_iface_self]
    exact hg.resolve_left hf'
  · dsimp only
    rw [t.mem.world.net.set_iface_of_ne g hff]

theorem emit (h : Booked c t) {x : Act} (hx : x.isRequest = false) :
    Booked c (t.after (t.mem.emit e x)) :=
  h.world (Traced.after_notes_of_eq (emit_requests t.mem.world e hx)) fun _ _ => rfl

/-- The interface `f` goes away; it may have been written just before. -/
theorem lose (h : Booked c t) (t₁ : Traced) (hok : e.Ok t₁.mem.store)
    (hnotes : t₁.notes = t.notes) (hstore : t₁.mem.store = t.mem.store)
    (hnet : ∀ g, g ≠ f → t₁.mem.world.net.iface g = t.mem.world.net.iface g) :
    Booked c (t₁.changed e f false) ∧ Unwired (t₁.changed e f false).mem f := by
  obtain ⟨hworld, hsess⟩ := ndSessionIfaceChanged_false hok f
  have hfresh := (ndSessionIfaceChanged_fresh e f false t₁.mem).ge
  have hnotes' : (t₁.changed e f false).notes = .lost f :: t.notes := by
    rw [Traced.changed_false_notes, hnotes]
  rw [hstore] at hsess hfresh
  have hforget : ∀ i s, (t₁.changed e f false).mem.store.session i = some s →
      ∃ s₁, t.mem.store.session i = some s₁ ∧ s₁.forget f = s := by
    intro i s hs
    rwa [Traced.changed_mem, hsess, Option.map_eq_some_iff] at hs
  have hmem : ∀ i oif via, .added i oif via ∈ (t₁.changed e f false).notes →
      .added i oif via ∈ t.notes := by
    intro i oif via hadd
    rw [hnotes'] at hadd
    exact (List.mem_cons.1 hadd).resolve_left (by simp)
  rw [← Traced.changed_mem] at hfresh
  refine ⟨⟨fun i s hs => ?_, fun i oif via hadd => ?_, ?_⟩, fun i s hs hf => ?_⟩
  · obtain ⟨s₁, hs₁, rfl⟩ := hforget i s hs
    have hb := h.session i s₁ hs₁
    by_cases hf : s₁.iface = some f
    · rw [show s₁.forget f = { s₁ with autowired := false } from if_pos hf]
      refine ⟨hb.lt_fresh.trans_le hfresh, fun hauto => absurd hauto (by simp), fun g hg => ?_,
        fun oif via hadd => hb.link oif via (hmem i oif via hadd)⟩
      obtain rfl : f = g := Option.some.inj (hf.symm.trans hg)
      rw [hnotes', addedSince, bne_self_eq_false, Bool.false_and]
    · rw [show s₁.forget f = s₁ from if_neg hf]
      have hne : ∀ g, s₁.iface = some g → g ≠ f := fun g hg hgf => hf (hgf ▸ hg)
      refine hb.congr hfresh (fun g hg _ => ?_) (fun g hg => ?_) (hmem i)
      · rw [Traced.changed_mem, hworld, hnet g (hne g hg)]
      · rw [hnotes', addedSince, bne_iff_ne.2 (hne g hg).symm, Bool.true_and]
  · exact (h.fresh i oif via (hmem i oif via hadd)).trans_le hfresh
  · rw [hnotes']
    exact ⟨trivial, h.fit⟩
  · obtain ⟨s₁, -, rfl⟩ := hforget i s hs
    rw [Session.forget_iface] at hf
    rw [Session.forget, if_pos hf]

/-- The interface `f` comes back. -/
theorem rewire (h : Traced.Holds e (Booked e.cfg) t) (f : IfaceId) :
    Traced.Holds e (Booked e.cfg) (t.changed e f true) := by
  refine List.foldlRecOn (motive := Traced.Holds e (Booked e.cfg)) _ _ h fun t ht b _ => ?_
  refine foreach_invariant (I := Traced.Holds e (Booked e.cfg)) (fun i t ht => ?_) _ _ ht
  obtain ⟨hok, hb⟩ := ht
  refine ⟨Mem.withSession_ok hok fun s w => ifaceChanged_sameKey e f true i s w, ?_⟩
  cases hs : t.mem.store.session i with
  | none =>
    rw [t.mem.withSession_none _ hs, Traced.after_self]
    exact hb
  | some s =>
    rw [t.mem.withSession_eq _ hs]
    by_cases hcond : s.iface = some f ∧ s.state = .valid
    · rw [show ifaceChanged e f true i s t.mem.world = ndLUp e i s t.mem.world by
        simp [ifaceChanged, hcond.1, hcond.2]]
      obtain ⟨b, hb'⟩ := ndLUp_fst e i s t.mem.world
      have hkey : s.SameKey (ndLUp e i s t.mem.world).1 := by
        rw [hb']
        exact ⟨rfl, rfl, rfl⟩
      refine hb.up hs (.set hok hs hkey) rfl rfl rfl rfl rfl ?_ hkey.rule rfl
      rw [hb']
    · have hnone : ifaceChanged e f true i s t.mem.world = (s, t.mem.world) := by
        rw [not_and_or] at hcond
        rcases hcond with hf | hv
        · simp [ifaceChanged, hf]
        · simp [ifaceChanged, hv]
      rw [hnone, t.mem.store.set_self hs]
      exact (Traced.after_self t).symm ▸ hb

theorem changed (h : Traced.Holds e (Booked e.cfg) t) (f : IfaceId) (up : Bool) :
    Traced.Holds e (Booked e.cfg) (t.changed e f up) := by
  cases up with
  | true => exact rewire h f
  | false =>
    refine ⟨?_, (h.2.lose t h.1 rfl rfl fun _ _ => rfl).1⟩
    rw [Traced.changed_mem]
    exact ndSessionIfaceChanged_ok f false h.1

theorem rebindAbsent (h : Traced.Holds e (Booked e.cfg) t) (f : IfaceId) :
    Traced.Holds e (Booked e.cfg) (t.rebindAbsent e f) := by
  unfold Traced.rebindAbsent
  dsimp only
  split_ifs
  · have hlose := h.2.lose (t.after (t.mem.setIface f { t.mem.world.net.iface f with
      up := false, adminUp := false })) h.1 (Traced.after_notes_of_eq rfl) rfl
      fun g hg => t.mem.world.net.set_iface_of_ne _ hg
    refine ⟨?_, hlose.1⟩
    rw [Traced.changed_mem]
    exact ndSessionIfaceChanged_ok f false h.1
  · exact h

theorem holds_setIface (h : Traced.Holds e (Booked c) t) (f : IfaceId) (g : Iface)
    (hg : Unwired t.mem f ∨ g.up = (t.mem.world.net.iface f).up) :
    Traced.Holds e (Booked c) (t.after (t.mem.setIface f g)) :=
  ⟨h.1, h.2.setIface f hg⟩

theorem holds_setAdminUp (h : Traced.Holds e (Booked c) t) (f : IfaceId) (adminUp : Bool) :
    Traced.Holds e (Booked c) (t.after (t.mem.setIface f
      { t.mem.world.net.iface f with adminUp := adminUp })) :=
  holds_setIface h f { t.mem.world.net.iface f with adminUp := adminUp } (.inr rfl)

theorem rebindSame (h : Traced.Holds e (Booked e.cfg) t) (f : IfaceId) (adminUp : Bool) :
    Traced.Holds e (Booked e.cfg) (t.rebindSame e f adminUp) := by
  unfold Traced.rebindSame
  dsimp only
  split_ifs
  · exact holds_setAdminUp (changed h f adminUp) f adminUp
  · exact holds_setAdminUp h f adminUp

/-- Before an interface gets another index, no session is autowired on it. -/
theorem cleared (h : Traced.Holds e (Booked e.cfg) t) {up : Bool}
    (hup : (t.mem.world.net.iface f).up = up) :
    Traced.Holds e (Booked e.cfg) (if up then t.changed e f false else t) ∧
      Unwired (if up then t.changed e f false else t).mem f := by
  cases up with
  | true => exact ⟨changed h f false, (h.2.lose t h.1 rfl rfl fun _ _ => rfl).2⟩
  | false => exact ⟨h, h.2.unwired hup⟩

theorem leaveOld (h : Traced.Holds e (Booked c) t) (f : IfaceId) (cur : ℕ) :
    Traced.Holds e (Booked c) (t.leaveOld e f cur) ∧
      ((t.leaveOld e f cur).mem.world.net.iface f).up = (t.mem.world.net.iface f).up := by
  have hjoin := h.2.emit (e := e) (x := joinAct e f cur t.mem) rfl
  unfold Traced.leaveOld
  dsimp only
  split_ifs
  · exact ⟨⟨h.1, hjoin.emit rfl⟩, rfl⟩
  · exact ⟨⟨h.1, hjoin⟩, rfl⟩

theorem bindNew (h : Traced.Holds e (Booked e.cfg) t) (hun : Unwired t.mem f) (cur : ℕ)
    (adminUp : Bool) : Traced.Holds e (Booked e.cfg) (t.bindNew e f cur adminUp) := by
  have hbind := holds_setIface h f { t.mem.world.net.iface f with index := cur, up := true }
    (.inl hun)
  have hchanged : Traced.Holds e (Booked e.cfg) (if adminUp then (t.after (t.mem.setIface f
      { t.mem.world.net.iface f with index := cur, up := true })).changed e f true else
      t.after (t.mem.setIface f { t.mem.world.net.iface f with index := cur, up := true })) := by
    split_ifs
    · exact changed hbind f true
    · exact hbind
  exact holds_setAdminUp hchanged f adminUp

theorem rebindNew (h : Traced.Holds e (Booked e.cfg) t) (f : IfaceId) (cur : ℕ)
    (adminUp : Bool) : Traced.Holds e (Booked e.cfg) (t.rebindNew e f cur adminUp) := by
  cases hacc : e.kernel.addMembership cur (t.mem.world.net.iface f).promiscuous with
  | false =>
    rw [Traced.rebindNew_refused hacc]
    exact ⟨h.1, h.2.emit rfl⟩
  | true =>
    obtain ⟨hleave, hup⟩ := leaveOld h f cur
    obtain ⟨hclear, hun⟩ := cleared hleave hup
    rw [Traced.rebindNew_accepted hacc]
    exact bindNew hclear hun cur adminUp

theorem rebindIface (h : Traced.Holds e (Booked e.cfg) t) (f : IfaceId) :
    Traced.Holds e (Booked e.cfg) (t.rebindIface e f) := by
  unfold Traced.rebindIface
  dsimp only
  split_ifs
  · exact rebindAbsent h f
  · exact h
  · refine rebindSame (holds_setIface h f _ ?_) f _
    exact .inr rfl
  · refine rebindNew (holds_setIface h f _ ?_) f _ _
    exact .inr rfl

/-- A pass over the interfaces keeps the books. -/
theorem rebindAll (h : Traced.Holds e (Booked e.cfg) t) :
    Traced.Holds e (Booked e.cfg) (t.rebindAll e) :=
  List.foldlRecOn (motive := Traced.Holds e (Booked e.cfg)) _ _ h fun _ ht f _ => rebindIface ht f

end Booked

end Ndppd
