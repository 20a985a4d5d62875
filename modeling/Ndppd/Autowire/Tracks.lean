import Ndppd.References
import Ndppd.Routes

/-!
# Following the autowired sessions

An event is followed through its moves by `Tracks`: a session that is autowired
now was so at the start of the event, on the same interface, or its route has
been asked for since. Either way its interface is up. This is kept by the moves of
the daemon (`Tracks.move`), except in the passes over the interfaces, where more
has to be said (`Ndppd.Autowire.Passes`).
-/

namespace Ndppd

variable {e : Env} {c : Config} {i : SessionId} {s s' : Session} {w w' : World} {a : Action}
  {m₀ m m' : Mem} {new : List Entry} {K K' : IfaceId → Prop} {f : IfaceId}

/-! ## Following an event -/

/-- The session was autowired on the interface `f` in `m₀` already; the interface
    satisfies `K`, and has had the same index since. -/
def Kept (m₀ m : Mem) (K : IfaceId → Prop) (i : SessionId) (s : Session) (f : IfaceId) : Prop :=
  K f ∧ (m.world.net.iface f).index = (m₀.world.net.iface f).index ∧
    ∃ s₀, m₀.store.session i = some s₀ ∧ s₀.autowired = true ∧ s₀.iface = some f ∧ s₀.SameKey s

/-- The route of the session is among the requests, via an interface with this index. -/
def Asked (c : Config) (new : List Entry) (s : Session) (index : ℕ) : Prop :=
  ∃ t who accepted,
    ⟨t, .addRoute who s.tgt 128 index (c.rule s.rule).table accepted⟩ ∈ new

/-- From `m₀` to `m`, the requests `new` were made. The sessions that are autowired
    were so before, or their routes were asked for; their interfaces are up. -/
structure Tracks (c : Config) (m₀ m : Mem) (new : List Entry) (K : IfaceId → Prop) : Prop where
  requests : m.world.requests = new ++ m₀.world.requests
  wired : ∀ i s, m.store.session i = some s → s.autowired = true →
    ∃ f, s.iface = some f ∧ (m.world.net.iface f).up = true ∧
      (Kept m₀ m K i s f ∨ Asked c new s (m.world.net.iface f).index)

theorem Asked.append {n : ℕ} (h : Asked c new s n) (new' : List Entry) :
    Asked c (new' ++ new) s n := by
  obtain ⟨t, who, accepted, hmem⟩ := h
  exact ⟨t, who, accepted, List.mem_append_right new' hmem⟩

/-- From `m` to `m'`, the session stays autowired, and its interface up with the
    same index. -/
def Carried (m m' : Mem) (i : SessionId) (s : Session) : Prop :=
  ∃ s₁ f, m.store.session i = some s₁ ∧ s₁.autowired = true ∧ s₁.iface = some f ∧
    s.iface = some f ∧ s₁.SameKey s ∧
    (m'.world.net.iface f).up = (m.world.net.iface f).up ∧
    (m'.world.net.iface f).index = (m.world.net.iface f).index

namespace Tracks

theorem refl (h : ∀ i s, m.store.session i = some s → s.autowired = true →
    ∃ f, s.iface = some f ∧ (m.world.net.iface f).up = true) :
    Tracks c m m [] fun _ => True := by
  refine ⟨rfl, fun i s hs hauto => ?_⟩
  obtain ⟨f, hf, hup⟩ := h i s hs hauto
  exact ⟨f, hf, hup, .inl ⟨trivial, rfl, s, hs, hauto, hf, .refl s⟩⟩

/-- A step carries the autowired sessions on, or asks for their routes. -/
theorem step (h : Tracks c m₀ m new K) (new' : List Entry)
    (hreq : m'.world.requests = new' ++ m.world.requests) (hK : ∀ f, K f → K' f)
    (hsess : ∀ i s, m'.store.session i = some s → s.autowired = true → Carried m m' i s ∨
      ∃ f, s.iface = some f ∧ (m'.world.net.iface f).up = true ∧
        Asked c new' s (m'.world.net.iface f).index) :
    Tracks c m₀ m' (new' ++ new) K' := by
  refine ⟨by rw [hreq, h.requests, List.append_assoc], fun i s hs hauto => ?_⟩
  rcases hsess i s hs hauto with ⟨s₁, f, hs₁, hauto₁, hf₁, hf, hk, hup, hindex⟩ | ⟨f, hf, hup, hask⟩
  · obtain ⟨f', hf', hup₁, hcase⟩ := h.wired i s₁ hs₁ hauto₁
    obtain rfl : f' = f := Option.some.inj (hf'.symm.trans hf₁)
    refine ⟨f', hf, hup.trans hup₁, ?_⟩
    rcases hcase with ⟨hKf, hsame, s₀, hs₀, hauto₀, hf₀, hk₀⟩ | hasked
    · exact .inl ⟨hK f' hKf, hindex.trans hsame, s₀, hs₀, hauto₀, hf₀, hk₀.trans hk⟩
    · refine .inr (Asked.append ?_ new')
      rw [hindex, Asked, hk.tgt, hk.rule]
      exact hasked
  · obtain ⟨t, who, accepted, hmem⟩ := hask
    exact ⟨f, hf, hup, .inr ⟨t, who, accepted, List.mem_append_left new hmem⟩⟩

/-- A change of a session. -/
theorem change (h : Tracks e.cfg m₀ m new K) {o o' : Option Session} {st' : Store}
    (ho : m.store.session i = o) (hc : Change e i m.world a o o' w')
    (hw : m.store.Writes e i o' st')
    (hlinks : ∀ j s f, m.store.session j = some s → s.iface = some f →
      (w'.net.iface f).up = (m.world.net.iface f).up ∧
        (w'.net.iface f).index = (m.world.net.iface f).index) :
    ∃ new', Tracks e.cfg m₀ { store := st', world := w' } new' K := by
  obtain ⟨new', hreq⟩ := hc.requests
  refine ⟨new' ++ new, h.step new' hreq (fun _ => id) fun j s hs hauto => ?_⟩
  have hcarry : ∀ s₁, m.store.session j = some s₁ → s₁.autowired = true → s.iface = s₁.iface →
      s₁.SameKey s → Carried m { store := st', world := w' } j s := by
    intro s₁ hs₁ hauto₁ hiface hk
    obtain ⟨f, hf, -⟩ := h.wired j s₁ hs₁ hauto₁
    exact ⟨s₁, f, hs₁, hauto₁, hf, hiface.trans hf, hk, hlinks j s₁ f hs₁ hf⟩
  by_cases hj : j = i
  · subst hj
    obtain rfl : o' = some s := hw.self.symm.trans hs
    have hsome : ∀ s₁, o = some s₁ → s₁.autowired = true → s₁.iface ≠ none := by
      intro s₁ hs₁ hauto₁
      obtain ⟨f, hf, -⟩ := h.wired j s₁ (ho.trans hs₁) hauto₁
      rw [hf]
      exact Option.some_ne_none f
    rcases hc.autowired hsome hauto with ⟨s₁, hs₁, hauto₁, hf, hk⟩ | ⟨hnet, f, acc, hf, hup, hreq'⟩
    · exact .inl (hcarry s₁ (ho.trans hs₁) hauto₁ hf hk)
    · -- The new request is the one for this session.
      have hnew := List.append_cancel_right
        (hreq.symm.trans (hreq'.trans (List.singleton_append ..).symm))
      refine .inr ⟨f, hf, by rw [hnet]; exact hup, e.now, j, acc, ?_⟩
      rw [hnet, hnew]
      exact List.mem_singleton_self _
  · exact .inl (hcarry s ((hw.of_ne hj).symm.trans hs) hauto rfl (.refl s))

/-- A move of the daemon, except in a pass over the interfaces. -/
theorem move (h : Tracks e.cfg m₀ m new K) (hm : Move e a m m') (ha : a ≠ .rebind)
    (hlt : ∀ j s f, m.store.session j = some s → s.iface = some f → f < m.world.net.fresh) :
    ∃ new', Tracks e.cfg m₀ m' new' K := by
  have hsame : ∀ w' : World, w'.net = m.world.net → ∀ i s, m.store.session i = some s →
      s.autowired = true → Carried m { m with world := w' } i s := by
    intro w' hnet i s hs hauto
    obtain ⟨f, hf, -⟩ := h.wired i s hs hauto
    exact ⟨s, f, hs, hauto, hf, hf, .refl s, by rw [hnet], by rw [hnet]⟩
  cases hm with
  | session i o o' st' w' ho hc hw =>
    refine h.change ho hc hw fun j s f hs hf => ?_
    exact ⟨hc.keeps.up f (hlt j s f hs hf), hc.keeps.index f (hlt j s f hs hf)⟩
  | world w' he =>
    cases he with
    | ignored hsol =>
      exact ⟨[] ++ new, h.step [] hsol.requests_eq (fun _ => id) fun i s hs hauto =>
        .inl (hsame w' hsol.net_eq i s hs hauto)⟩
    | purged route =>
      exact ⟨[_] ++ new, h.step [_] rfl (fun _ => id) fun i s hs hauto =>
        .inl (hsame _ rfl i s hs hauto)⟩
    | rebound => exact absurd rfl ha
    | joined => exact absurd rfl ha
    | left => exact absurd rfl ha

end Tracks

theorem Mem.Counted.mem_ifaces (hc : m.Counted c) (hb : Before m.store.fresh m.store.session)
    (hs : m.store.session i = some s) (hf : s.iface = some f) : f ∈ m.world.net.ifaces :=
  (hc.exact.mem_iff f).2 ((totalRefs_pos_iff hb).2 (.inr (.inr ⟨i, s, hs, hf⟩)))

/-- An event which is not a pass over the interfaces. -/
theorem stepMem_tracks (ha : a ≠ .rebind) (hok : e.Ok m.store) (hc : m.Counted e.cfg)
    (hlist : ∀ p, ∀ r ∈ (e.cfg.proxy p).rules, p ∈ e.cfg.proxies)
    (h₀ : Tracks e.cfg m m [] K) : ∃ new, Tracks e.cfg m (Daemon.stepMem e a m) new K := by
  refine (stepMem_induction (Q := fun m' => m'.Counted e.cfg ∧ ∃ new, Tracks e.cfg m m' new K)
    hok ⟨hc, [], h₀⟩ ?_).2
  rintro m₁ m₂ hok₁ - hm ⟨hc₁, new, h⟩
  refine ⟨hm.counted rfl hok₁ hlist hc₁, h.move hm ha fun j s f hs hf => ?_⟩
  exact hc₁.lt_fresh f (hc₁.mem_ifaces hok₁.before hs hf)

end Ndppd
