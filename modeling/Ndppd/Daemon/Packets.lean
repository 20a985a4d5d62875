import Ndppd.Daemon.Runs

/-!
# Packets

The part of the log that is about packets: the solicitations received, and the
solicitations and advertisements sent. The other calls of the daemon — opening
and closing interfaces, and its requests to the kernel — leave it as it is.
-/

namespace Ndppd

/-- The act is about a packet. -/
def Act.isPacket : Act → Bool
  | .ns .. | .na .. | .rxNs .. => true
  | _ => false

/-- The act is about the membership of an interface. -/
def Act.isMembership : Act → Bool
  | .addMembership .. | .dropMembership .. => true
  | _ => false

/-- Joining and leaving a group is no packet. -/
theorem Act.isPacket_of_isMembership {a : Act} (h : a.isMembership = true) :
    a.isPacket = false := by
  cases a <;> first | rfl | exact absurd h (by simp [Act.isMembership])

/-- The packets in the log, the newest first. -/
def World.packets (w : World) : List Entry := w.log.filter fun en => en.act.isPacket

variable {e : Env} {i : SessionId} {s s' : Session} {w w' : World}

/-- An act is seen among the packets if it is about one. -/
theorem World.packets_emit (w : World) (e : Env) (a : Act) :
    (w.emit e a).packets = if a.isPacket then ⟨e.now, a⟩ :: w.packets else w.packets := by
  simp only [World.packets, World.emit_log, List.filter_cons]

/-- The packets are in the log only. -/
@[simp] theorem World.packets_mk (net : Net) (w : World) :
    ({ w with net := net } : World).packets = w.packets := rfl

/-- A solicitation that is sent is logged with what became of it. -/
@[simp] theorem packets_ndIfaceSendNs (e : Env) (i : SessionId) (f : Option IfaceId) (tgt : Addr)
    (w : World) : (ndIfaceSendNs e i f tgt w).packets =
      ⟨e.now, .ns i f tgt (ndLSendIcmp6 e w f (.ns tgt))⟩ :: w.packets :=
  w.packets_emit e _

/-! ## What is added to the log -/

/-- The log of `w'` is that of `w`, with new acts that satisfy `P`. -/
def World.Grows (P : Act → Prop) (w w' : World) : Prop :=
  ∃ new, w'.log = new ++ w.log ∧ ∀ en ∈ new, P en.act

namespace World.Grows

variable {P Q : Act → Prop}

theorem of_eq (h : w'.log = w.log) : World.Grows P w w' := ⟨[], h, by simp⟩

/-- A call that logs one act. -/
theorem of_cons {en : Entry} (h : w'.log = en :: w.log) (hen : P en.act) : World.Grows P w w' :=
  ⟨[en], h, by simpa using hen⟩

/-- What is said about the acts may be weakened. -/
theorem mono (h : World.Grows P w w') (hPQ : ∀ a, P a → Q a) : World.Grows Q w w' := by
  obtain ⟨new, hw, hnew⟩ := h
  exact ⟨new, hw, fun en hen => hPQ _ (hnew en hen)⟩

/-- A part of the log which the new acts do not belong to. -/
theorem filter_eq (h : World.Grows P w w') {q : Act → Bool} (hq : ∀ a, P a → q a = false) :
    (w'.log.filter fun en => q en.act) = w.log.filter fun en => q en.act := by
  obtain ⟨new, hw, hnew⟩ := h
  have hnone : (new.filter fun en => q en.act) = [] := by
    rw [List.filter_eq_nil_iff]
    intro en hen
    simp [hq _ (hnew en hen)]
  rw [hw, List.filter_append, hnone, List.nil_append]

end World.Grows

/-- Closing an interface may leave a group. -/
theorem ndIfaceClose_grows (e : Env) (f : IfaceId) (w : World) :
    w.Grows (fun a => a.isMembership = true) (ndIfaceClose e f w) := by
  unfold ndIfaceClose
  dsimp only
  split_ifs
  · exact .of_eq rfl
  · exact .of_cons rfl rfl
  · exact .of_eq rfl

/-- Opening one may join a group, and do no more. -/
theorem ndIfaceOpenAt_grows (e : Env) (name : IfName) (index : ℕ) (promiscuous : Bool)
    (w : World) :
    w.Grows (fun a => a.isMembership = true) (ndIfaceOpenAt e name index promiscuous w).2 := by
  unfold ndIfaceOpenAt
  split
  · exact .of_eq rfl
  · split
    · exact .of_eq rfl
    · split
      · exact .of_eq rfl
      · dsimp only
        split
        · exact .of_cons rfl rfl
        · exact .of_cons rfl rfl

theorem ndIfaceOpen_grows (e : Env) (name : Option IfName) (index : ℕ) (promiscuous : Bool)
    (w : World) :
    w.Grows (fun a => a.isMembership = true) (ndIfaceOpen e name index promiscuous w).2 := by
  unfold ndIfaceOpen
  split
  · dsimp only
    split_ifs
    · split
      · exact .of_eq rfl
      · exact .of_eq rfl
    · exact .of_eq rfl
    · exact .of_eq rfl
    · exact ndIfaceOpenAt_grows ..
  · split_ifs
    · exact .of_eq rfl
    · split
      · exact .of_eq rfl
      · exact ndIfaceOpenAt_grows ..

/-- The lookup of the route logs nothing. -/
theorem openRoute_grows (e : Env) (rule : Rule) (tgt : Addr) (w : World) :
    w.Grows (fun a => a.isMembership = true) (openRoute e rule tgt w).2 := by
  unfold openRoute
  split
  · exact .of_eq rfl
  · split_ifs
    · exact .of_eq rfl
    · exact ndIfaceOpen_grows ..

/-! ## Advertisements -/

/-- The advertisement of a session to `dst`. -/
def naAct (e : Env) (i : SessionId) (s : Session) (w : World) (dst : Addr) (dstLl : LlAddr) : Act :=
  let f := (e.proxyOf s).iface
  .na i f dst dstLl s.tgt ((tgtLl e s).getD (f.elim 0 fun f => (w.net.iface f).lladdr))
    (e.proxyOf s).router (ndLSendIcmp6 e w f (.na dst dstLl s.tgt))

/-- The act is an advertisement of `tgt` by the session `i` to `dst`, sent on the interface `f`. -/
def Act.IsAnswer (i : SessionId) (f : Option IfaceId) (dst : Sub) (tgt : Addr) (a : Act) : Prop :=
  ∃ tgtLl router, a = .na i f dst.addr dst.lladdr tgt tgtLl router true

/-- The advertisements of a session that are sent are those which the interface of its proxy
    transmits. -/
theorem naAct_isAnswer_iff {j : SessionId} {f : Option IfaceId} {sub dst : Sub} {tgt : Addr} :
    (naAct e i s w sub.addr sub.lladdr).IsAnswer j f dst tgt ↔
      (i = j ∧ (e.proxyOf s).iface = f ∧ sub = dst ∧ s.tgt = tgt) ∧
        w.Transmits e.kernel (e.proxyOf s).iface (.na sub.addr sub.lladdr s.tgt) := by
  rw [← ndLSendIcmp6_iff]
  constructor
  · rintro ⟨tgtLl, router, heq⟩
    obtain ⟨hi, hf, haddr, hll, ht, -, -, hsent⟩ := Act.na.inj heq
    refine ⟨⟨hi, hf, ?_, ht⟩, hsent⟩
    cases sub
    cases dst
    exact congrArg₂ Sub.mk haddr hll
  · rintro ⟨⟨rfl, rfl, rfl, rfl⟩, hsent⟩
    exact ⟨_, _, by rw [naAct, hsent]⟩

/-- Whom the answer to a solicitation goes to. -/
def answerTo (bo : ByteOrder) (src : Addr) (srcLl : Option LlAddr) : Addr × LlAddr :=
  match srcLl with
  | none => (allnodes, allnodesLl)
  | some ll => if ndAddrIsUnspecified bo src then (allnodes, allnodesLl) else (src, ll)

/-- One answer to a solicitation. -/
theorem packets_answerNs (e : Env) (i : SessionId) (src : Addr) (srcLl : Option LlAddr)
    (s : Session) (w : World) : (answerNs e i src srcLl s w).packets =
      ⟨e.now, naAct e i s w (answerTo e.conf.byteOrder src srcLl).1
        (answerTo e.conf.byteOrder src srcLl).2⟩ :: w.packets := by
  have hsend : ∀ dst dstLl, (ndIfaceSendNa e i (e.proxyOf s).iface dst dstLl s.tgt (tgtLl e s)
      (e.proxyOf s).router w).packets = ⟨e.now, naAct e i s w dst dstLl⟩ :: w.packets :=
    fun dst dstLl => w.packets_emit e _
  unfold answerNs answerTo
  cases srcLl with
  | none => exact hsend _ _
  | some ll =>
    dsimp only
    split_ifs
    · exact hsend _ _
    · exact hsend _ _

/-- The advertisements to the subscribers of a session, the last one first. -/
def subEntries (e : Env) (i : SessionId) (s : Session) (w : World) : List Entry :=
  (s.subs.map fun sub => ⟨e.now, naAct e i s w sub.addr sub.lladdr⟩).reverse

/-- The subscribers are those of the session, each with its own address. -/
theorem mem_subEntries {en : Entry} : en ∈ subEntries e i s w ↔
    ∃ sub ∈ s.subs, en = ⟨e.now, naAct e i s w sub.addr sub.lladdr⟩ := by
  rw [subEntries, List.mem_reverse, List.mem_map]
  exact exists_congr fun sub => and_congr_right fun _ => eq_comm

theorem sendSubs_net (e : Env) (i : SessionId) (s : Session) (w : World) :
    (sendSubs e i s w).net = w.net :=
  List.foldlRecOn (motive := fun w' : World => w'.net = w.net) _ _ rfl fun _ h _ _ => h

/-- One advertisement to each subscriber. -/
@[simp] theorem packets_sendSubs (e : Env) (i : SessionId) (s : Session) (w : World) :
    (sendSubs e i s w).packets = subEntries e i s w ++ w.packets := by
  -- The interfaces do not change while the advertisements are sent.
  have hsend : ∀ (subs : List Sub) (w' : World), w'.net = w.net →
      (subs.foldl (fun w sub => ndIfaceSendNa e i (e.proxyOf s).iface sub.addr sub.lladdr s.tgt
        (tgtLl e s) (e.proxyOf s).router w) w').packets =
      (subs.map fun sub => ⟨e.now, naAct e i s w sub.addr sub.lladdr⟩).reverse ++ w'.packets := by
    intro subs
    induction subs with
    | nil => exact fun w' _ => rfl
    | cons sub subs ih =>
      intro w' hw'
      rw [List.foldl_cons, ih (ndIfaceSendNa ..) hw', List.map_cons, List.reverse_cons,
        List.append_assoc]
      refine congrArg _ ((w'.packets_emit e _).trans ?_)
      simp [Act.isPacket, naAct, ndLSendIcmp6, hw']
  exact hsend s.subs w rfl

/-! ## Calls that are not about packets -/

/-- A session that goes up may add a route. It sends nothing. -/
@[simp] theorem packets_ndLUp (e : Env) (i : SessionId) (s : Session) (w : World) :
    (ndLUp e i s w).2.packets = w.packets := by
  unfold ndLUp
  cases s.iface with
  | none => rfl
  | some f =>
    dsimp only
    split_ifs
    · exact w.packets_emit e _
    · rfl

@[simp] theorem packets_ndLDown (e : Env) (i : SessionId) (s : Session) (w : World) :
    (ndLDown e i s w).2.packets = w.packets := by
  unfold ndLDown
  split_ifs
  · exact w.packets_emit e _
  · rfl

@[simp] theorem packets_ndIfaceClose (e : Env) (f : IfaceId) (w : World) :
    (ndIfaceClose e f w).packets = w.packets :=
  (ndIfaceClose_grows e f w).filter_eq fun _ => Act.isPacket_of_isMembership

/-- Opening and closing interfaces is not seen among the packets. -/
theorem packets_ndIfaceOpen (e : Env) (name : Option IfName) (index : ℕ) (promiscuous : Bool)
    (w : World) : (ndIfaceOpen e name index promiscuous w).2.packets = w.packets :=
  (ndIfaceOpen_grows e name index promiscuous w).filter_eq fun _ => Act.isPacket_of_isMembership

theorem packets_openRoute (e : Env) (rule : Rule) (tgt : Addr) (w : World) :
    (openRoute e rule tgt w).2.packets = w.packets :=
  (openRoute_grows e rule tgt w).filter_eq fun _ => Act.isPacket_of_isMembership

theorem packets_of_openRoute {rule : Rule} {tgt : Addr} {o : Option IfaceId}
    (h : openRoute e rule tgt w = (o, w')) : w'.packets = w.packets := by
  rw [← packets_openRoute e rule tgt w, h]

/-- A solicitation on an interface that was opened for it is the one packet. -/
theorem packets_sendNs_of_openRoute {rule : Rule} {tgt : Addr} {o : Option IfaceId}
    (h : openRoute e rule tgt w = (o, w')) (i : SessionId) (f : Option IfaceId) (tgt' : Addr) :
    (ndIfaceSendNs e i f tgt' w').packets =
      ⟨e.now, .ns i f tgt' (ndLSendIcmp6 e w' f (.ns tgt'))⟩ :: w.packets := by
  rw [packets_ndIfaceSendNs, packets_of_openRoute h]

/-- Deleting a session is not about packets. -/
theorem packets_close (e : Env) (i : SessionId) (s : Session) (w : World) :
    (s.iface.elim (ndLDown e i s w).2 fun f => ndIfaceClose e f (ndLDown e i s w).2).packets =
      w.packets := by
  cases s.iface with
  | none => exact packets_ndLDown ..
  | some f => exact (packets_ndIfaceClose ..).trans (packets_ndLDown ..)

/-! ## Transitions -/

/-- The update of a session sends one solicitation, or nothing. -/
theorem UpdateCase.packets {o : Option Session} (h : UpdateCase e i s w o w') :
    w'.packets = w.packets ∨
      w'.packets =
        ⟨e.now, .ns i s.iface s.tgtR (ndLSendIcmp6 e w s.iface (.ns s.tgtR))⟩ :: w.packets := by
  cases h with
  | retransmitted => exact .inr (packets_ndIfaceSendNs ..)
  | staleProbed => exact .inr (packets_ndIfaceSendNs ..)
  | reprobed => exact .inr (packets_ndIfaceSendNs ..)
  | deleted => exact .inl (packets_close e i s w)
  | _ => exact .inl rfl

/-- An advertisement for a session that is not valid yet is passed on to all of its subscribers. -/
theorem NaCase.packets (h : NaCase e i s w s' w') : s.state = .valid ∧ w'.packets = w.packets ∨
    w'.packets = subEntries e i s w ++ w.packets := by
  cases h with
  | refreshed hv => exact .inl ⟨hv, rfl⟩
  | validated b w' _ hup =>
    right
    rw [← packets_sendSubs, ← packets_ndLUp e i { s with subs := [] } (sendSubs e i s w), hup]

/-! ## New packets -/

/-- The new packets of `w'` satisfy `P`. -/
def World.Adds (P : Entry → Prop) (w w' : World) : Prop :=
  ∃ new, w'.packets = new ++ w.packets ∧ ∀ en ∈ new, P en

namespace World.Adds

variable {P Q : Entry → Prop} {w'' : World}

theorem of_eq (h : w'.packets = w.packets) : World.Adds P w w' := ⟨[], h, by simp⟩

/-- A call that sends or receives one packet. -/
theorem of_cons {en : Entry} (h : w'.packets = en :: w.packets) (hen : P en) :
    World.Adds P w w' :=
  ⟨[en], h, by simpa using hen⟩

/-- One call after the other. -/
theorem trans (h : World.Adds P w w') (h' : World.Adds P w' w'') : World.Adds P w w'' := by
  obtain ⟨new, hw, hnew⟩ := h
  obtain ⟨new', hw', hnew'⟩ := h'
  refine ⟨new' ++ new, by rw [hw', hw, List.append_assoc], fun en hen => ?_⟩
  rcases List.mem_append.1 hen with hen | hen
  · exact hnew' en hen
  · exact hnew en hen

theorem mono (h : World.Adds P w w') (hPQ : ∀ en, P en → Q en) : World.Adds Q w w' := by
  obtain ⟨new, hw, hnew⟩ := h
  exact ⟨new, hw, fun en hen => hPQ en (hnew en hen)⟩

end World.Adds

/-! ## Moves without a session -/

/-- The act is a solicitation received. -/
def Act.isRxNs : Act → Bool
  | .rxNs .. => true
  | _ => false

/-- What comes before the handling of a solicitation is its reception. -/
theorem Solicits.adds {a : Action} {p : ProxyId} {src tgt : Addr} {srcLl : Option LlAddr}
    (h : Solicits e w a p src tgt srcLl w') : w.Adds (fun en => en.act.isRxNs = true) w' := by
  cases h with
  | direct => exact .of_eq rfl
  | received => exact .of_cons (w.packets_emit e _) rfl

/-- What happens outside of the sessions is about no packet but solicitations received. -/
theorem Effect.adds {a : Action} (h : Effect e w a w') :
    w.Adds (fun en => en.act.isRxNs = true) w' := by
  cases h with
  | ignored hsol => exact hsol.adds
  | rebound => exact .of_eq rfl
  | joined => exact .of_eq (World.packets_emit ..)
  | left => exact .of_eq (World.packets_emit ..)
  | purged => exact .of_eq (World.packets_emit ..)

end Ndppd
