import Ndppd.Lib.Lifting
import Ndppd.Parse.Progress

/-!
# The grammar over other scanners

The grammar is one program, and a scanner is what it is run with. If the functions of
another scanner go together with those of the daemon (`Scanner.Simulates`), then so do
the two runs of the grammar: `Simulates.file` for a whole file, and
`Simulates.ndLParseBlock` for a block, given that the functions of the table do. The two
loops of a block need not have the same number of rounds: each of them has enough, as a
round reads a newline or at least the key of a directive.
-/

namespace Ndppd

namespace Scanner

variable {n : Type → Type} [Monad n] {τ : Type}

/-- The same token, at two positions that go together. -/
inductive OnToken {α : Type} (At : Cursor → τ → Prop) : α × Cursor → α × τ → Prop
  | mk (a : α) {s : Cursor} {s' : τ} (h : At s s') : OnToken At (a, s) (a, s')

/-- The results of the grammar from the position `s` on: the same is written, at two
    positions that go together, and the parser has not gone back. -/
inductive After (At : Cursor → τ → Prop) (s : Cursor) : Cursor × Loaded → τ × Loaded → Prop
  | mk {s₁ : Cursor} {s₁' : τ} (g : Loaded) (hreach : s.Reaches s₁) (h : At s₁ s₁') :
    After At s (s₁, g) (s₁', g)

/-- What is after a later position is after an earlier one. -/
theorem After.trans {L : Lifting Parse n} {At : Cursor → τ → Prop} {s s₁ : Cursor}
    {x : Parse (Cursor × Loaded)} {y : n (τ × Loaded)} (h : s.Reaches s₁)
    (hxy : L.Rel (After At s₁) x y) : L.Rel (After At s) x y := by
  refine L.rel_mono hxy ?_
  rintro _ _ ⟨g, hreach, hs⟩
  exact ⟨g, h.trans hreach, hs⟩

/-- The functions of a scanner go together with those of the daemon: from positions that are
    `At` each other they give the same, and log errors that are in `Logs`. -/
structure Simulates (libc : Libc) (S : Scanner n τ) (L : Lifting Parse n)
    (At : Cursor → τ → Prop) (Logs : List Message → List Message → Prop) : Prop where
  skip : ∀ {s s'}, At s s' → L.Gives At (ndLSkip s) (S.skip s')
  accept : ∀ {s s'}, At s s' → ∀ valid,
    L.Gives (OnToken At) (ndLAccept s valid) (S.accept s' valid)
  acceptInt : ∀ {s s'}, At s s' → ∀ min max,
    L.Gives (Option.Rel (OnToken At)) (ndLAcceptInt s min max) (S.acceptInt s' min max)
  acceptBool : ∀ {s s'}, At s s' →
    L.Gives (Option.Rel (OnToken At)) (ndLAcceptBool s) (S.acceptBool s')
  acceptAddr : ∀ {s s'}, At s s' →
    L.Gives (ExceptRel Logs (OnToken At)) (ndLAcceptAddr libc s) (S.acceptAddr s')
  acceptLladdr : ∀ {s s'}, At s s' →
    L.Gives (ExceptRel Logs (OnToken At)) (ndLAcceptLladdr libc s) (S.acceptLladdr s')
  acceptName : ∀ {s s'}, At s s' → ∀ size,
    L.Gives (Option.Rel (OnToken At)) (ndLAcceptName s size) (S.acceptName s' size)
  eof : ∀ {s s'}, At s s' → (scanner libc).eof s = S.eof s'
  byte : ∀ {s s'}, At s s' → S.eof s' ≠ true →
    L.Gives Eq (s.data.getD s.offset 0) (S.byte s')
  rounds : ∀ {s s'}, At s s' → s.rest.length < S.rounds s'
  fail : ∀ {α β : Type} {R : α → β → Prop} {log log'}, Logs log log' →
    L.Rel R (.error log) (S.fail log')
  error : ∀ {s s'}, At s s' → ∀ text, Logs (ndLError s text) (S.error s' text)
  refl : ∀ log, Logs log log
  append : ∀ {log log' more more'}, Logs log log' → Logs more more' →
    Logs (log ++ more) (log' ++ more')

namespace Simulates

variable {libc : Libc} {S : Scanner n τ} {L : Lifting Parse n} {At : Cursor → τ → Prop}
  {Logs : List Message → List Message → Prop} {s : Cursor} {s' : τ} {g : Loaded}

/-! ## Blocks -/

section Block

variable {sc : Scope} {ptr : sc.Ptr}
  {call : CfInfo sc → Callback sc → Cursor → Loaded → Parse (Cursor × Loaded)}
  {call' : CfInfo sc → Callback sc → τ → Loaded → n (τ × Loaded)}

/-- The value of a directive, of each type. -/
theorem parseValue (h : Simulates libc S L At Logs) (hs : At s s') (t : CfInfo sc) :
    L.Rel (After At s) ((scanner libc).parseValue sc ptr t s g) (S.parseValue sc ptr t s' g) := by
  rw [Scanner.parseValue, Scanner.parseValue]
  cases t.type with
  | none => exact L.rel_pure ⟨_, .refl s, hs⟩
  | bool field =>
    refine (h.acceptBool hs).bind fun b hb => ?_
    generalize hx : ndLAcceptBool s = x at hb ⊢
    cases hb with
    | none => exact h.fail (h.error hs _)
    | some hb =>
      obtain ⟨v, hs₁⟩ := hb
      exact L.rel_pure ⟨_, reaches_ndLAcceptBool hx, hs₁⟩
  | int field min max =>
    refine (h.acceptInt hs min max).bind fun b hb => ?_
    generalize hx : ndLAcceptInt s min max = x at hb ⊢
    cases hb with
    | none => exact h.fail (h.error hs _)
    | some hb =>
      obtain ⟨v, hs₁⟩ := hb
      exact L.rel_pure ⟨_, reaches_ndLAcceptInt hx, hs₁⟩
  | lladdr field =>
    refine (h.acceptLladdr hs).bind fun b hb => ?_
    generalize hx : ndLAcceptLladdr libc s = x at hb ⊢
    cases hb with
    | error hlog => exact h.fail (h.append hlog (h.error hs _))
    | ok hb =>
      obtain ⟨v, hs₁⟩ := hb
      exact L.rel_pure ⟨_, reaches_acceptWith hx, hs₁⟩

/-- The byte after a directive is read if there is one. -/
theorem atEnd (h : Simulates libc S L At Logs) (hs : At s s') :
    L.Rel Eq ((scanner libc).atEnd s) (S.atEnd s') := by
  rw [Scanner.atEnd, Scanner.atEnd, h.eof hs]
  by_cases heof : S.eof s' = true
  · rw [if_pos heof, if_pos heof]
    exact L.rel_pure rfl
  · rw [if_neg heof, if_neg heof]
    refine (h.byte hs heof).bind ?_
    rintro _ rfl
    split_ifs
    · exact L.rel_pure rfl
    · refine (h.byte hs heof).bind ?_
      rintro _ rfl
      exact L.rel_pure rfl

/-- The end of a directive is found at the same place. -/
theorem parseEnd (h : Simulates libc S L At Logs) (hs : At s s') :
    L.Rel (fun a b => s.Reaches a ∧ At a b) ((scanner libc).parseEnd s) (S.parseEnd s') := by
  refine (h.skip hs).bind fun s₁' hs₁ => L.rel_bind (h.atEnd hs₁) ?_
  rintro c _ rfl
  cases c with
  | false => exact h.fail (h.error hs₁ _)
  | true => exact L.rel_pure ⟨reaches_ndLSkip s, hs₁⟩

variable (h : Simulates libc S L At Logs)
  (hcall : ∀ t cb {s s'} g, At s s' → L.Rel (After At s) (call t cb s g) (call' t cb s' g))

include h hcall

/-- The value and the callback of a directive, for callbacks that go together. -/
theorem parseEntry (hs : At s s') (t : CfInfo sc) :
    L.Rel (After At s) ((scanner libc).parseEntry sc ptr call t s g)
      (S.parseEntry sc ptr call' t s' g) := by
  refine L.rel_bind (h.parseValue hs t) ?_
  rintro _ _ ⟨g₁, hreach, hs₁⟩
  cases t.cb with
  | none => exact L.rel_pure ⟨g₁, hreach, hs₁⟩
  | some cb =>
    refine (h.skip hs₁).bind fun s₂' hs₂ => ?_
    exact After.trans (hreach.trans (reaches_ndLSkip _)) (hcall t cb _ hs₂)

/-- A directive has a key. -/
theorem parseDirective (hs : At s s') :
    L.Rel (fun a b => s.Passes a.1 ∧ After At s a b)
      ((scanner libc).parseDirective sc ptr call s g) (S.parseDirective sc ptr call' s' g) := by
  rw [Scanner.parseDirective, Scanner.parseDirective]
  refine (h.acceptName hs 32).bind fun b hb => ?_
  generalize hx : ndLAcceptName s 32 = x at hb ⊢
  cases hb with
  | none => exact h.fail (h.refl _)
  | some hb =>
    obtain ⟨key, hs₁⟩ := hb
    refine (h.skip hs₁).bind fun s₂' hs₂ => ?_
    cases (ndLCfinfoTable sc).find? fun t => t.key == key with
    | none => exact h.fail (h.error hs₂ _)
    | some t =>
      refine L.rel_bind (h.parseEntry hcall hs₂ t) ?_
      rintro _ _ ⟨g₃, hreach, hs₃⟩
      refine L.rel_bind (h.parseEnd hs₃) ?_
      rintro s₄ s₄' ⟨hend, hs₄⟩
      have hpass := (((passes_ndLAcceptName hx).trans (reaches_ndLSkip _)).trans hreach).trans hend
      exact L.rel_pure ⟨hpass, ⟨_, hpass.reaches, hs₄⟩⟩

/-- A round of the loop, given the rest of them: it reads something before that. -/
theorem parseLoop_succ (hs : At s s') {k k' : ℕ}
    (hnext : ∀ {s₁ s₁'} g, s.Passes s₁ → At s₁ s₁' → L.Rel (After At s₁)
      ((scanner libc).parseLoop sc ptr call k s₁ g) (S.parseLoop sc ptr call' k' s₁' g)) :
    L.Rel (After At s) ((scanner libc).parseLoop sc ptr call (k + 1) s g)
      (S.parseLoop sc ptr call' (k' + 1) s' g) := by
  rw [Scanner.parseLoop, Scanner.parseLoop]
  refine (h.skip hs).bind fun s₁' hs₁ => ?_
  refine (h.accept hs₁ [ch '\n', ch '}']).bind ?_
  have hreach := (reaches_ndLSkip s).trans (reaches_ndLAccept (ndLSkip s) [ch '\n', ch '}'])
  have hpass : (ndLAccept (ndLSkip s) [ch '\n', ch '}']).1 ≠ 0 →
      s.Passes (ndLAccept (ndLSkip s) [ch '\n', ch '}']).2 :=
    fun hne => .of_reaches (reaches_ndLSkip s) (passes_ndLAccept hne)
  generalize ndLAccept (ndLSkip s) [ch '\n', ch '}'] = a at hreach hpass ⊢
  rintro _ ⟨c, hs₂⟩
  dsimp only at hreach hpass ⊢
  rw [h.eof hs₂]
  split_ifs with hclose hdefault hline heof hdefault'
  · exact h.fail (h.error hs₂ _)
  · exact L.rel_pure ⟨_, hreach, hs₂⟩
  · -- The newline was left to read: a NUL would have been accepted as `0`.
    have hne : c ≠ 0 := by
      rw [hline]
      decide
    exact After.trans hreach (hnext _ (hpass hne) hs₂)
  · exact L.rel_pure ⟨_, hreach, hs₂⟩
  · exact h.fail (h.error hs₂ _)
  · refine L.rel_bind (h.parseDirective hcall hs₂) ?_
    rintro _ _ ⟨hkey, g₃, -, hs₃⟩
    exact After.trans (hreach.trans hkey.reaches) (hnext _ (.of_reaches hreach hkey) hs₃)

/-- The rounds of both loops are enough. -/
theorem parseLoop (hs : At s s') {k k' : ℕ} (hk : s.rest.length < k) (hk' : s.rest.length < k') :
    L.Rel (After At s) ((scanner libc).parseLoop sc ptr call k s g)
      (S.parseLoop sc ptr call' k' s' g) := by
  induction k generalizing s s' g k' with
  | zero => exact absurd hk (Nat.not_lt_zero _)
  | succ k ih =>
    obtain ⟨k', rfl⟩ : ∃ i, k' = i + 1 := ⟨k' - 1, by omega⟩
    refine h.parseLoop_succ hcall hs fun g hpass hs₁ => ?_
    have hlt := hpass.length_rest_lt
    exact ih hs₁ (by omega) (by omega)

/-- With the same number of rounds, they may both run out of them. -/
theorem parseLoop_same (hs : At s s')
    (hout : ∀ {s}, L.Rel (After At s) (scanner libc).outOfRounds S.outOfRounds) (k : ℕ) :
    L.Rel (After At s) ((scanner libc).parseLoop sc ptr call k s g)
      (S.parseLoop sc ptr call' k s' g) := by
  induction k generalizing s s' g with
  | zero => exact hout
  | succ k ih => exact h.parseLoop_succ hcall hs fun g _ hs₁ => ih hs₁

/-- A block, with its braces: the loop has the rounds that it needs. -/
theorem ndLParseBlock (hs : At s s') :
    L.Rel (After At s) ((scanner libc).ndLParseBlock sc ptr call s g)
      (S.ndLParseBlock sc ptr call' s' g) := by
  rw [Scanner.ndLParseBlock, Scanner.ndLParseBlock]
  refine (h.skip hs).bind fun s₁' hs₁ => ?_
  by_cases hsc : sc = .default
  · rw [if_pos hsc, if_pos hsc]
    exact After.trans (reaches_ndLSkip s)
      (h.parseLoop hcall hs₁ (Nat.lt_succ_self _) (h.rounds hs₁))
  · rw [if_neg hsc, if_neg hsc]
    refine (h.accept hs₁ [ch '{']).bind ?_
    have hreach := (reaches_ndLSkip s).trans (reaches_ndLAccept (ndLSkip s) [ch '{'])
    generalize ndLAccept (ndLSkip s) [ch '{'] = a at hreach ⊢
    rintro _ ⟨c, hs₂⟩
    dsimp only at hreach ⊢
    split_ifs
    · exact h.fail (h.error hs₂ _)
    · exact After.trans hreach (h.parseLoop hcall hs₂ (Nat.lt_succ_self _) (h.rounds hs₂))

end Block

/-! ## Rules and proxies -/

variable (h : Simulates libc S L At Logs)

include h

/-- The length of a prefix, or none. -/
theorem parsePflen (hs : At s s') :
    L.Rel (fun a b => s.Reaches a.2 ∧ OnToken At a b) ((scanner libc).parsePflen s)
      (S.parsePflen s') := by
  rw [Scanner.parsePflen, Scanner.parsePflen]
  refine (h.accept hs [ch '/']).bind ?_
  have hreach := reaches_ndLAccept s [ch '/']
  generalize ndLAccept s [ch '/'] = a at hreach ⊢
  rintro _ ⟨c, hs₁⟩
  dsimp only at hreach ⊢
  split_ifs
  · exact L.rel_pure ⟨hreach, ⟨_, hs₁⟩⟩
  · refine (h.acceptInt hs₁ 0 128).bind fun b hb => ?_
    generalize hx : ndLAcceptInt _ 0 128 = x at hb ⊢
    cases hb with
    | none => exact h.fail (h.error hs₁ _)
    | some hb =>
      obtain ⟨v, hs₂⟩ := hb
      exact L.rel_pure ⟨hreach.trans (reaches_ndLAcceptInt hx), ⟨_, hs₂⟩⟩

/-- A prefix. The messages for a bad address go together too. -/
theorem parsePrefixed (hs : At s s') {expected expected' : List Message}
    (hexpected : Logs expected expected') :
    L.Rel (fun a b => s.Reaches a.2 ∧ OnToken At a b)
      ((scanner libc).parsePrefixed expected s) (S.parsePrefixed expected' s') := by
  rw [Scanner.parsePrefixed, Scanner.parsePrefixed]
  refine (h.acceptAddr hs).bind fun b hb => ?_
  generalize hx : ndLAcceptAddr libc s = x at hb ⊢
  cases hb with
  | error hlog => exact h.fail (h.append hlog hexpected)
  | ok hb =>
    obtain ⟨addr, hs₁⟩ := hb
    refine L.rel_bind (h.parsePflen hs₁) ?_
    rintro _ _ ⟨hreach, pflen, hs₂⟩
    exact L.rel_pure ⟨(reaches_acceptWith hx).trans hreach, ⟨_, hs₂⟩⟩

/-- The functions of the table for a rule enter no block. -/
theorem callRule (r : RuleId) (info : CfInfo .rule) (cb : Callback .rule) {s : Cursor} {s' : τ}
    (g : Loaded) (hs : At s s') :
    L.Rel (After At s) ((scanner libc).callRule r info cb s g) (S.callRule r info cb s' g) := by
  cases cb with
  | parseRewrite =>
    refine L.rel_bind (h.parsePrefixed hs (h.refl [])) ?_
    rintro _ _ ⟨hreach, x, hs₁⟩
    exact L.rel_pure ⟨_, hreach, hs₁⟩
  | parseMode =>
    change L.Rel _ ((scanner libc).ndLParseMode info r s g) (S.ndLParseMode info r s' g)
    rw [Scanner.ndLParseMode, Scanner.ndLParseMode]
    split_ifs
    · exact h.fail (h.error hs _)
    · exact L.rel_pure ⟨_, .refl s, hs⟩
    · exact L.rel_pure ⟨_, .refl s, hs⟩
    · refine (h.acceptName hs ifNamesize).bind fun b hb => ?_
      generalize hx : ndLAcceptName s ifNamesize = x at hb ⊢
      cases hb with
      | none => exact h.fail (h.error hs _)
      | some hb =>
        obtain ⟨ifname, hs₁⟩ := hb
        exact L.rel_pure ⟨_, (passes_ndLAcceptName hx).reaches, hs₁⟩

section Call

variable {block : RuleId → Cursor → Loaded → Parse (Cursor × Loaded)}
  {block' : RuleId → τ → Loaded → n (τ × Loaded)}
  {pblock : ProxyId → Cursor → Loaded → Parse (Cursor × Loaded)}
  {pblock' : ProxyId → τ → Loaded → n (τ × Loaded)}

/-- A rule, for `rule` blocks that go together. -/
theorem ndLParseRule
    (hblock : ∀ r {s s'} g, At s s' → L.Rel (After At s) (block r s g) (block' r s' g))
    (p : ProxyId) (hs : At s s') :
    L.Rel (After At s) ((scanner libc).ndLParseRule block p s g)
      (S.ndLParseRule block' p s' g) := by
  rw [Scanner.ndLParseRule, Scanner.ndLParseRule]
  refine L.rel_bind (h.parsePrefixed hs (h.error hs _)) ?_
  rintro _ _ ⟨hreach, x, hs₁⟩
  refine L.rel_bind (hblock _ _ hs₁) ?_
  rintro _ _ ⟨g₂, hreach₂, hs₂⟩
  dsimp only
  split_ifs
  · exact h.fail (h.error hs₂ _)
  · exact h.fail (h.error hs₂ _)
  · exact L.rel_pure ⟨g₂, hreach.trans hreach₂, hs₂⟩

theorem callProxy
    (hblock : ∀ r {s s'} g, At s s' → L.Rel (After At s) (block r s g) (block' r s' g))
    (p : ProxyId) (info : CfInfo .proxy) (cb : Callback .proxy) {s : Cursor} {s' : τ}
    (g : Loaded) (hs : At s s') :
    L.Rel (After At s) ((scanner libc).callProxy block p info cb s g)
      (S.callProxy block' p info cb s' g) := by
  cases cb with
  | parseRule => exact h.ndLParseRule hblock p hs

/-- A proxy, for `proxy` blocks that go together. -/
theorem ndLParseProxy
    (hblock : ∀ p {s s'} g, At s s' → L.Rel (After At s) (pblock p s g) (pblock' p s' g))
    (hs : At s s') :
    L.Rel (After At s) ((scanner libc).ndLParseProxy pblock s g)
      (S.ndLParseProxy pblock' s' g) := by
  rw [Scanner.ndLParseProxy, Scanner.ndLParseProxy]
  refine (h.acceptName hs ifNamesize).bind fun b hb => ?_
  generalize hx : ndLAcceptName s ifNamesize = x at hb ⊢
  cases hb with
  | none => exact h.fail (h.error hs _)
  | some hb =>
    obtain ⟨ifname, hs₁⟩ := hb
    dsimp only
    cases ndProxyCreate g.cfg ifname with
    | none => exact h.fail (h.refl _)
    | some y => exact After.trans (passes_ndLAcceptName hx).reaches (hblock _ _ hs₁)

theorem callDefault
    (hblock : ∀ p {s s'} g, At s s' → L.Rel (After At s) (pblock p s g) (pblock' p s' g))
    (info : CfInfo .default) (cb : Callback .default) {s : Cursor} {s' : τ}
    (g : Loaded) (hs : At s s') :
    L.Rel (After At s) ((scanner libc).callDefault pblock info cb s g)
      (S.callDefault pblock' info cb s' g) := by
  cases cb with
  | parseProxy => exact h.ndLParseProxy hblock hs

end Call

/-! ## The file -/

/-- The block of a rule is the innermost one. -/
theorem ruleBlock (r : RuleId) {s : Cursor} {s' : τ} (g : Loaded) (hs : At s s') :
    L.Rel (After At s) ((scanner libc).ruleBlock r s g) (S.ruleBlock r s' g) :=
  h.ndLParseBlock (h.callRule r) hs

/-- The block of a proxy has blocks of rules. -/
theorem proxyBlock (p : ProxyId) {s : Cursor} {s' : τ} (g : Loaded) (hs : At s s') :
    L.Rel (After At s) ((scanner libc).proxyBlock p s g) (S.proxyBlock p s' g) :=
  h.ndLParseBlock (h.callProxy h.ruleBlock p) hs

/-- A file has blocks of proxies: all that is parsed goes together. -/
theorem file (hs : At s s') :
    L.Rel (After At s) ((scanner libc).file s g) (S.file s' g) :=
  h.ndLParseBlock (h.callDefault h.proxyBlock) hs

end Simulates

end Scanner

end Ndppd
