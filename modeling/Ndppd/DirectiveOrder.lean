import Ndppd.Daemon
import Ndppd.Parse.Order

/-!
# Blocks in another order

Two blocks of a proxy with the same directives, in another order
(`ProxyBlock.Reordered`): the rules are in the same order, but the directives of a
rule need not be. No key is repeated (`ProxyBlock.DistinctKeys`).

Both blocks are accepted, or none. They need not make the same rules: a rule
without a link-layer address of its own takes what `target` gives to the proxy
before the rule (`ProxyBlock.inherited`), and nothing from a `target` after it.

* `ndConfParse_reordered`: two files with such blocks are accepted or rejected
  together, and make the same proxies and rules iff the rules inherit the same
  addresses.
-/

namespace Ndppd

variable {libc : Libc}

/-! ## Blocks -/

/-- The same rule, with its directives in another order. -/
structure RuleBlock.Reordered (b b' : RuleBlock) : Prop where
  header : b'.header = b.header
  settings : b.settings.Perm b'.settings

def ProxyItem.setting? : ProxyItem → Option (Setting .proxy)
  | .setting x => some x
  | .rule _ => none

def ProxyItem.rule? : ProxyItem → Option RuleBlock
  | .setting _ => none
  | .rule b => some b

def ProxyBlock.settings (b : ProxyBlock) : List (Setting .proxy) :=
  b.items.filterMap ProxyItem.setting?

def ProxyBlock.rules (b : ProxyBlock) : List RuleBlock := b.items.filterMap ProxyItem.rule?

/-- The same proxy, with its directives in another order, up to the order of the
    rules. -/
structure ProxyBlock.Reordered (b b' : ProxyBlock) : Prop where
  name : b'.name = b.name
  settings : b.settings.Perm b'.settings
  rules : List.Forall₂ RuleBlock.Reordered b.rules b'.rules

/-- No key is repeated, other than `rule`. -/
structure ProxyBlock.DistinctKeys (b : ProxyBlock) : Prop where
  settings : (b.settings.map (·.info.key)).Nodup
  rules : ∀ r ∈ b.rules, (r.settings.map (·.info.key)).Nodup

/-! ## What is read from them -/

/-- A rule that is read, with its directives in another order. -/
structure RuleDef.Reordered (d d' : RuleDef) : Prop where
  addr : d'.addr = d.addr
  pflen : d'.pflen = d.pflen
  dirs : d.dirs.Perm d'.dirs
  keys : (d.dirs.map RuleDir.key).Nodup

/-- A proxy that is read, with its directives in another order. -/
structure ProxyDef.Reordered (d d' : ProxyDef) : Prop where
  ifname : d'.ifname = d.ifname
  settings : (d.dirs.filter ProxyDir.isSetting).Perm (d'.dirs.filter ProxyDir.isSetting)
  keys : ((d.dirs.filter ProxyDir.isSetting).map ProxyDir.key).Nodup
  rules : List.Forall₂ RuleDef.Reordered (d.dirs.filterMap ProxyDir.rule?)
    (d'.dirs.filterMap ProxyDir.rule?)

theorem Setting.readRuleDir_key {x : Setting .rule} {d : RuleDir}
    (h : x.readRuleDir libc = some d) : d.key.text = x.info.key := by
  obtain ⟨info, v, hmem, hb, hv⟩ := x
  have htable := hmem
  simp only [ndLCfinfoTable, List.mem_cons, List.not_mem_nil, or_false] at htable
  rcases htable with rfl | rfl | rfl | rfl | rfl | rfl | rfl
  case inr.inl | inr.inr.inl =>
    obtain ⟨-, h⟩ := Option.ite_none_right_eq_some.1 h
    exact Option.some.inj h ▸ rfl
  all_goals
    obtain ⟨y, -, rfl⟩ := Option.map_eq_some_iff.1 h
    rfl

theorem ProxyItem.read_setting_key {x : Setting .proxy} {d : ProxyDir}
    (h : (ProxyItem.setting x).read libc = some d) :
    d.key.text = x.info.key ∧ d.isSetting = true ∧ d.rule? = none := by
  obtain ⟨info, v, hmem, hb, hv⟩ := x
  have htable := hmem
  simp only [ndLCfinfoTable, List.mem_cons, List.not_mem_nil, or_false] at htable
  rcases htable with rfl | rfl | rfl | rfl
  · exact absurd (hb _ rfl) (by decide)
  all_goals
    obtain ⟨y, -, rfl⟩ := Option.map_eq_some_iff.1 h
    exact ⟨rfl, rfl, rfl⟩

/-- Values with the keys of what they are read from: if those are different, so
    are the keys of the values. -/
theorem nodup_keys {α δ : Type} {read : α → Option δ} {text : α → List U8} {key : δ → CfKey}
    (hkey : ∀ x d, read x = some d → (key d).text = text x) {xs : List α} {ds : List δ}
    (h : xs.mapM read = some ds) (hxs : (xs.map text).Nodup) : (ds.map key).Nodup := by
  refine .of_map CfKey.text ?_
  have heq : (ds.map key).map CfKey.text = xs.map text := by
    rw [List.map_map, ← List.forall₂_eq_eq_eq, List.forall₂_map_left_iff,
      List.forall₂_map_right_iff]
    exact (Traverse.mapM_eq_some_iff.1 h).flip.imp fun d x hx => hkey x d hx
  rwa [heq]

theorem RuleBlock.read_reordered {b b' : RuleBlock} {d : RuleDef} (h : b.Reordered b')
    (hkeys : (b.settings.map (·.info.key)).Nodup) (hd : b.read libc = some d) :
    ∃ d', b'.read libc = some d' ∧ d.Reordered d' := by
  rw [RuleBlock.read] at hd
  obtain ⟨x, hx, hd⟩ := Option.bind_eq_some_iff.1 hd
  obtain ⟨dirs, hdirs, rfl⟩ := Option.map_eq_some_iff.1 hd
  obtain ⟨dirs', hdirs', hperm⟩ := Traverse.mapM_perm h.settings hdirs
  refine ⟨⟨x.1, x.2, dirs'⟩, ?_, rfl, rfl, hperm, ?_⟩
  · rw [RuleBlock.read, h.header, hx, hdirs']
    rfl
  · exact nodup_keys (fun _ _ => Setting.readRuleDir_key) hdirs hkeys

/-- The directives of a proxy are read if its settings and its rules are. -/
theorem mapM_read_iff {items : List ProxyItem} {settings : List ProxyDir} {rules : List RuleDef} :
    (∃ dirs, items.mapM (ProxyItem.read libc) = some dirs ∧
        dirs.filter ProxyDir.isSetting = settings ∧ dirs.filterMap ProxyDir.rule? = rules) ↔
      (items.filterMap ProxyItem.setting?).mapM (fun x => (ProxyItem.setting x).read libc) =
          some settings ∧
        (items.filterMap ProxyItem.rule?).mapM (RuleBlock.read libc) = some rules := by
  induction items generalizing settings rules with
  | nil =>
    constructor
    · rintro ⟨dirs, hdirs, rfl, rfl⟩
      obtain rfl := Option.some.inj hdirs
      exact ⟨rfl, rfl⟩
    · rintro ⟨h, h'⟩
      obtain rfl := Option.some.inj h
      obtain rfl := Option.some.inj h'
      exact ⟨[], rfl, rfl, rfl⟩
  | cons x items ih =>
    cases x with
    | setting x =>
      rw [Traverse.mapM_cons, List.filterMap_cons_some (by rfl), List.filterMap_cons_none (by rfl),
        Traverse.mapM_cons]
      cases hread : (ProxyItem.setting x).read libc with
      | none => simp
      | some d =>
        obtain ⟨-, hset, hrule⟩ := ProxyItem.read_setting_key hread
        simp only [Option.bind_some, Option.map_eq_some_iff]
        constructor
        · rintro ⟨_, ⟨dirs, hdirs, rfl⟩, rfl, rfl⟩
          obtain ⟨h, h'⟩ := ih.1 ⟨dirs, hdirs, rfl, rfl⟩
          refine ⟨⟨_, h, ?_⟩, ?_⟩
          · rw [List.filter_cons_of_pos hset]
          · rw [List.filterMap_cons_none hrule, h']
        · rintro ⟨⟨settings, h, rfl⟩, h'⟩
          obtain ⟨dirs, hdirs, rfl, rfl⟩ := ih.2 ⟨h, h'⟩
          refine ⟨_, ⟨dirs, hdirs, rfl⟩, ?_, ?_⟩
          · rw [List.filter_cons_of_pos hset]
          · rw [List.filterMap_cons_none hrule]
    | rule b =>
      rw [Traverse.mapM_cons, List.filterMap_cons_none (by rfl), List.filterMap_cons_some (by rfl),
        Traverse.mapM_cons, ProxyItem.read]
      cases hread : b.read libc with
      | none => simp
      | some d =>
        simp only [Option.map_some, Option.bind_some, Option.map_eq_some_iff]
        constructor
        · rintro ⟨_, ⟨dirs, hdirs, rfl⟩, rfl, rfl⟩
          obtain ⟨h, h'⟩ := ih.1 ⟨dirs, hdirs, rfl, rfl⟩
          exact ⟨h, _, h', rfl⟩
        · rintro ⟨h, rules, h', rfl⟩
          obtain ⟨dirs, hdirs, rfl, rfl⟩ := ih.2 ⟨h, h'⟩
          exact ⟨_, ⟨dirs, hdirs, rfl⟩, rfl, rfl⟩

theorem ProxyBlock.read_reordered {b b' : ProxyBlock} {d : ProxyDef} (h : b.Reordered b')
    (hkeys : b.DistinctKeys) (hd : b.read libc = some d) :
    ∃ d', b'.read libc = some d' ∧ d.Reordered d' := by
  rw [ProxyBlock.read] at hd
  obtain ⟨ifname, hname, hd⟩ := Option.bind_eq_some_iff.1 hd
  obtain ⟨dirs, hdirs, rfl⟩ := Option.map_eq_some_iff.1 hd
  obtain ⟨hsettings, hrules⟩ := mapM_read_iff.1 ⟨dirs, hdirs, rfl, rfl⟩
  obtain ⟨settings', hsettings', hperm⟩ := Traverse.mapM_perm h.settings hsettings
  have hblocks := (List.forall₂_and_left _ _).2 ⟨hkeys.rules, h.rules⟩
  obtain ⟨rules', hrules', hreordered⟩ := Traverse.mapM_related
    (fun r r' d hr hd => RuleBlock.read_reordered hr.2 hr.1 hd) hblocks hrules
  obtain ⟨dirs', hdirs', rfl, rfl⟩ := mapM_read_iff.2 ⟨hsettings', hrules'⟩
  refine ⟨⟨ifname, dirs'⟩, ?_, rfl, hperm, ?_, hreordered⟩
  · rw [ProxyBlock.read, h.name, hname, hdirs']
    rfl
  · exact nodup_keys (fun _ _ hx => (ProxyItem.read_setting_key hx).1) hsettings hkeys.settings

theorem RuleBlock.Reordered.symm {b b' : RuleBlock} (h : b.Reordered b') : b'.Reordered b :=
  ⟨h.header.symm, h.settings.symm⟩

theorem ProxyBlock.Reordered.symm {b b' : ProxyBlock} (h : b.Reordered b') : b'.Reordered b :=
  ⟨h.name.symm, h.settings.symm, h.rules.flip.imp fun _ _ => RuleBlock.Reordered.symm⟩

theorem ProxyBlock.Reordered.distinctKeys {b b' : ProxyBlock} (h : b.Reordered b')
    (hkeys : b.DistinctKeys) : b'.DistinctKeys where
  settings := (h.settings.map _).nodup hkeys.settings
  rules := by
    have hboth := (List.forall₂_and_left _ _).2 ⟨hkeys.rules, h.rules⟩
    have hboth' : List.Forall₂ (fun r' r =>
        (r'.settings.map (·.info.key)).Nodup ∧ r.Reordered r') b'.rules b.rules :=
      hboth.flip.imp fun r' r hr => ⟨(hr.2.settings.map _).nodup hr.1, hr.2⟩
    exact ((List.forall₂_and_left _ _).1 hboth').1

/-! ## The rules -/

/-- The link-layer addresses that rules without one of their own have from their
    proxy. -/
def inherited (ds : List (RuleDef × LlAddr)) : List LlAddr :=
  ds.filterMap fun x => if x.1.hasTarget then none else some x.2

/-- Rules with the addresses of their proxy, where they have none of their own. -/
def retarget (ds : List (RuleDef × LlAddr)) (rules : List Rule) : List Rule :=
  ds.zipWith (fun x rule => if x.1.hasTarget then rule else { rule with target := x.2 }) rules

theorem inherited_cons (x : RuleDef × LlAddr) (ds : List (RuleDef × LlAddr)) :
    inherited (x :: ds) = if x.1.hasTarget then inherited ds else x.2 :: inherited ds := by
  rw [inherited, List.filterMap_cons]
  split_ifs <;> rfl

theorem retarget_cons (x : RuleDef × LlAddr) (ds : List (RuleDef × LlAddr)) (rule : Rule)
    (rules : List Rule) : retarget (x :: ds) (rule :: rules) =
      (if x.1.hasTarget then rule else { rule with target := x.2 }) :: retarget ds rules := rfl

theorem makeRules_retarget (p : ProxyId) (ds : List (RuleDef × LlAddr)) :
    makeRules p ds = ((ds.map (·.1)).mapM (RuleDef.rule p 0)).map (retarget ds) := by
  induction ds with
  | nil => rfl
  | cons x ds ih =>
    rw [makeRules_cons, List.map_cons, Traverse.mapM_cons, x.1.rule_target p 0, ih]
    cases x.1.rule p 0 with
    | none => rfl
    | some rule =>
      cases (ds.map (·.1)).mapM (RuleDef.rule p 0) <;> rfl

theorem RuleDef.Reordered.rule_eq {d d' : RuleDef} (h : d.Reordered d') (p : ProxyId)
    (t : LlAddr) : d'.rule p t = d.rule p t := by
  rw [RuleDef.rule, RuleDef.rule, h.addr, h.pflen, applyRuleDirs_perm h.dirs h.keys]

theorem RuleDef.Reordered.hasTarget_eq {d d' : RuleDef} (h : d.Reordered d') :
    d'.hasTarget = d.hasTarget :=
  h.dirs.symm.any_eq

theorem mapM_rule_eq {ds ds' : List RuleDef} (h : List.Forall₂ RuleDef.Reordered ds ds')
    (p : ProxyId) (t : LlAddr) : ds'.mapM (RuleDef.rule p t) = ds.mapM (RuleDef.rule p t) := by
  induction h with
  | nil => rfl
  | cons hd _ ih => rw [Traverse.mapM_cons, Traverse.mapM_cons, hd.rule_eq, ih]

/-- The rules are the same iff they inherit the same addresses. -/
theorem retarget_eq_iff {ds ds' : List (RuleDef × LlAddr)}
    (h : List.Forall₂ (fun x x' => x.1.Reordered x'.1) ds ds') {rules : List Rule}
    (hlen : rules.length = ds.length) :
    retarget ds rules = retarget ds' rules ↔ inherited ds = inherited ds' := by
  induction h generalizing rules with
  | nil => exact iff_of_true rfl rfl
  | @cons x x' ds ds' hx _ ih =>
    obtain ⟨rule, rules, rfl⟩ := List.exists_cons_of_length_eq_add_one hlen
    have ih := ih (Nat.succ.inj hlen)
    rw [retarget_cons, retarget_cons, inherited_cons, inherited_cons, hx.hasTarget_eq,
      List.cons_eq_cons]
    by_cases hown : x.1.hasTarget = true
    · simp only [if_pos hown]
      exact (and_iff_right trivial).trans ih
    · simp only [if_neg hown, List.cons_eq_cons]
      exact and_congr ⟨fun h => congrArg Rule.target h, fun h => by rw [h]⟩ ih

/-- The addresses that the rules of a proxy inherit. -/
def ProxyDef.inherited (d : ProxyDef) : List LlAddr := Ndppd.inherited (rulesWith 0 d.dirs)

/-- What two orders of a block make. -/
theorem ProxyDef.Reordered.block {d d' : ProxyDef} (h : d.Reordered d') (p : ProxyId) :
    ((d.block p).isSome ↔ (d'.block p).isSome) ∧
      (d.block p = d'.block p ↔ d.block p = none ∨ d.inherited = d'.inherited) := by
  have hset : setProxyDirs d'.dirs { ifname := d.ifname } =
      setProxyDirs d.dirs { ifname := d.ifname } := by
    rw [← setProxyDirs_filter, ← setProxyDirs_filter d.dirs, setProxyDirs_perm h.settings h.keys]
  have hrules : List.Forall₂ (fun x x' => x.1.Reordered x'.1) (rulesWith 0 d.dirs)
      (rulesWith 0 d'.dirs) := by
    have := h.rules
    rwa [← rulesWith_map_fst 0, ← rulesWith_map_fst 0, List.forall₂_map_left_iff,
      List.forall₂_map_right_iff] at this
  have hrules' : List.Forall₂ RuleDef.Reordered ((rulesWith 0 d.dirs).map (·.1))
      ((rulesWith 0 d'.dirs).map (·.1)) := by
    rw [List.forall₂_map_left_iff, List.forall₂_map_right_iff]
    exact hrules
  rw [ProxyDef.block, ProxyDef.block, h.ifname, applyProxyDirs_eq, applyProxyDirs_eq, hset,
    makeRules_retarget, makeRules_retarget, mapM_rule_eq hrules']
  cases hmade : ((rulesWith 0 d.dirs).map (·.1)).mapM (RuleDef.rule p 0) with
  | none => exact ⟨Iff.rfl, iff_of_true rfl (.inl rfl)⟩
  | some rules =>
    have hlen : rules.length = (rulesWith 0 d.dirs).length := by
      rw [Traverse.length_of_mapM hmade, List.length_map]
    refine ⟨Iff.rfl, ?_⟩
    simp only [Option.map_some, List.append_nil, Option.some.injEq, Prod.mk.injEq, true_and,
      List.reverse_inj, reduceCtorEq, false_or]
    exact retarget_eq_iff hrules hlen

/-! ## Files -/

/-- Settings and proxies which differ in one proxy and its rules. -/
structure View.Replaces (block block' : Proxy × List Rule) (s s' : View) : Prop where
  settings : s'.settings = s.settings
  proxies : ∃ new old, s.proxies = new ++ block :: old ∧ s'.proxies = new ++ block' :: old

section Replaces

variable {block block' : Proxy × List Rule} {s s' : View}

theorem View.Replaces.eq_iff (h : View.Replaces block block' s s') : s = s' ↔ block = block' := by
  obtain ⟨hset, new, old, hs, hs'⟩ := h
  constructor
  · rintro rfl
    have := List.append_cancel_left (hs.symm.trans hs')
    exact (List.cons.inj this).1
  · rintro rfl
    obtain ⟨settings, proxies⟩ := s
    obtain ⟨settings', proxies'⟩ := s'
    exact (View.mk.injEq ..).mpr ⟨hset.symm, hs.trans hs'.symm⟩

/-- The directives after a proxy do not depend on what is in its block. -/
theorem ConfDir.apply_replaces (hname : block'.1.ifname = block.1.ifname)
    (h : View.Replaces block block' s s') (d : ConfDir) :
    (d.apply s = none ∧ d.apply s' = none) ∨ ∃ t t', d.apply s = some t ∧
      d.apply s' = some t' ∧ View.Replaces block block' t t' := by
  obtain ⟨hset, new, old, hs, hs'⟩ := h
  cases d with
  | proxy d =>
    have hany : (s'.proxies.any fun other => other.1.ifname == d.ifname) =
        s.proxies.any fun other => other.1.ifname == d.ifname := by
      rw [hs, hs', List.any_append, List.any_append, List.any_cons, List.any_cons, hname]
    have hlen : s'.proxies.length = s.proxies.length := by
      rw [hs, hs', List.length_append, List.length_append]
      rfl
    simp only [ConfDir.apply, hany, hlen]
    split_ifs
    · exact .inl ⟨rfl, rfl⟩
    · cases applyProxyDirs s.proxies.length d.dirs ({ ifname := d.ifname }, []) with
      | none => exact .inl ⟨rfl, rfl⟩
      | some b => exact .inr ⟨_, _, rfl, rfl, hset, b :: new, old, by simp [hs], by simp [hs']⟩
  | _ => exact .inr ⟨_, _, rfl, rfl, by simp [hset], new, old, hs, hs'⟩

theorem applyConfDirs_replaces (hname : block'.1.ifname = block.1.ifname)
    (h : View.Replaces block block' s s') (ds : List ConfDir) :
    (applyConfDirs ds s = none ∧ applyConfDirs ds s' = none) ∨ ∃ t t',
      applyConfDirs ds s = some t ∧ applyConfDirs ds s' = some t' ∧
        View.Replaces block block' t t' := by
  induction ds generalizing s s' with
  | nil => exact .inr ⟨s, s', rfl, rfl, h⟩
  | cons d ds ih =>
    simp only [applyConfDirs, List.foldlM_cons]
    rcases d.apply_replaces hname h with ⟨hnone, hnone'⟩ | ⟨t, t', ht, ht', h⟩
    · rw [hnone, hnone']
      exact .inl ⟨rfl, rfl⟩
    · rw [ht, ht']
      exact ih h

end Replaces

/-- What is set by a block is not its name. -/
theorem ProxyDef.block_ifname {d : ProxyDef} {p : ProxyId} {block : Proxy × List Rule}
    (h : d.block p = some block) : block.1.ifname = d.ifname := by
  have hset : ∀ (ds : List ProxyDir) (proxy : Proxy),
      (setProxyDirs ds proxy).ifname = proxy.ifname := by
    intro ds
    induction ds with
    | nil => exact fun _ => rfl
    | cons d ds ih => exact fun proxy => (ih _).trans (by cases d <;> rfl)
  rw [ProxyDef.block, applyProxyDirs_eq] at h
  obtain ⟨rules, -, rfl⟩ := Option.map_eq_some_iff.1 h
  exact hset ..

/-- Two files whose directives differ in the order of one block. -/
theorem applyConfDirs_reordered {d d' : ProxyDef} (h : d.Reordered d') (before after : List ConfDir)
    (s : View) : let parse d := applyConfDirs (before ++ .proxy d :: after) s
    ((parse d).isSome ↔ (parse d').isSome) ∧
      (parse d = parse d' ↔ parse d = none ∨ d.inherited = d'.inherited) := by
  have happend : ∀ d, applyConfDirs (before ++ .proxy d :: after) s =
      (applyConfDirs before s).bind fun s =>
        ((ConfDir.proxy d).apply s).bind (applyConfDirs after) :=
    fun _ => List.foldlM_append ..
  dsimp only
  rw [happend, happend]
  cases applyConfDirs before s with
  | none => exact ⟨Iff.rfl, iff_of_true rfl (.inl rfl)⟩
  | some s =>
    dsimp only [Option.bind_some, ConfDir.apply]
    rw [h.ifname]
    split_ifs
    · exact ⟨Iff.rfl, iff_of_true rfl (.inl rfl)⟩
    · obtain ⟨hsome, heq⟩ := h.block s.proxies.length
      have hblock : d'.block s.proxies.length =
          applyProxyDirs s.proxies.length d'.dirs ({ ifname := d.ifname }, []) := by
        rw [ProxyDef.block, h.ifname]
      rw [← ProxyDef.block, ← hblock]
      cases hb : d.block s.proxies.length with
      | none =>
        rw [hb] at hsome
        rw [Option.not_isSome_iff_eq_none.1 (mt hsome.2 (by simp))]
        exact ⟨Iff.rfl, iff_of_true rfl (.inl rfl)⟩
      | some block =>
        obtain ⟨block', hb'⟩ := Option.isSome_iff_exists.1 (hsome.1 (hb ▸ rfl))
        have hname : block'.1.ifname = block.1.ifname := by
          rw [ProxyDef.block_ifname hb, ProxyDef.block_ifname hb', h.ifname]
        have hrepl : View.Replaces block block' { s with proxies := block :: s.proxies }
            { s with proxies := block' :: s.proxies } := ⟨rfl, [], s.proxies, rfl, rfl⟩
        rw [hb, hb'] at heq
        have heq : block = block' ↔ d.inherited = d'.inherited := by simpa using heq
        rw [hb']
        dsimp only [Option.map_some, Option.bind_some]
        rcases applyConfDirs_replaces hname hrepl after with ⟨hn, hn'⟩ | ⟨t, t', ht, ht', hrepl⟩
        · rw [hn, hn']
          exact ⟨Iff.rfl, iff_of_true rfl (.inl rfl)⟩
        · rw [ht, ht']
          refine ⟨iff_of_true rfl rfl, ?_⟩
          simpa [hrepl.eq_iff] using heq

/-- The addresses that the rules of a block inherit, if it can be read. -/
def ProxyBlock.inherited (libc : Libc) (b : ProxyBlock) : Option (List LlAddr) :=
  (b.read libc).map ProxyDef.inherited

/-- Two files which differ in the order of the directives of a proxy are both
    accepted or both rejected. They make the same proxies and rules iff the rules
    inherit the same addresses. -/
theorem ndConfParse_reordered {before after : List FileItem} {b b' : ProxyBlock} {t t' : List U8}
    (h : b.Reordered b') (hkeys : b.DistinctKeys) (ht : FileText (before ++ .proxy b :: after) t)
    (ht' : FileText (before ++ .proxy b' :: after) t') (conf : Conf) :
    ((parsed libc conf t).isSome ↔ (parsed libc conf t').isSome) ∧
      (parsed libc conf t = parsed libc conf t' ↔
        parsed libc conf t = none ∨ b.inherited libc = b'.inherited libc) := by
  have hitem : ∀ b, (FileItem.proxy b).read libc = (b.read libc).map .proxy := fun _ => rfl
  rw [parsed_text ht, parsed_text ht', Traverse.mapM_append, Traverse.mapM_append,
    Traverse.mapM_cons, Traverse.mapM_cons, hitem, hitem, ProxyBlock.inherited,
    ProxyBlock.inherited]
  cases before.mapM (FileItem.read libc) with
  | none => exact ⟨Iff.rfl, iff_of_true rfl (.inl rfl)⟩
  | some ds =>
    cases hd : b.read libc with
    | none =>
      have hd' : b'.read libc = none := by
        by_contra hne
        obtain ⟨d', hd'⟩ := Option.ne_none_iff_exists'.1 hne
        obtain ⟨d, hsome, -⟩ := ProxyBlock.read_reordered h.symm (h.distinctKeys hkeys) hd'
        exact absurd (hd.symm.trans hsome) (by simp)
      rw [hd']
      exact ⟨Iff.rfl, iff_of_true rfl (.inl rfl)⟩
    | some d =>
      obtain ⟨d', hd', hreordered⟩ := ProxyBlock.read_reordered h hkeys hd
      rw [hd']
      cases after.mapM (FileItem.read libc) with
      | none => exact ⟨Iff.rfl, iff_of_true rfl (.inl rfl)⟩
      | some ds' =>
        have := applyConfDirs_reordered hreordered ds ds' (.start conf)
        simpa only [Option.map_some, Option.bind_some, Option.some_inj] using this

namespace Small

/-- The functions of the C library, for one address of each kind. -/
def oneOfEach : Libc where
  inetPton w := if w = bytes "::1" then some 1 else none
  etherAton w := if w = bytes "2:0:0:0:0:1" then some 0x020000000001 else none

/-- `rule ::1 { auto }` -/
def autoRule : RuleBlock where
  header := bytes "::1"
  settings := [{
    info := { key := bytes "auto", type := .none, cb := some .parseMode }
    value := []
    mem := by simp [ndLCfinfoTable]
    no_block := by simp [Callback.isBlock]
    word := fun _ h => absurd h List.not_mem_nil }]
  word := by unfold IsWord; decide

/-- `target 2:0:0:0:0:1` -/
def targetLine : ProxyItem := .setting {
  info := { key := bytes "target", type := .lladdr .proxyTarget }
  value := bytes "2:0:0:0:0:1"
  mem := by simp [ndLCfinfoTable]
  no_block := by simp
  word := by unfold IsWord; decide }

/-- `router yes` -/
def routerLine : ProxyItem := .setting {
  info := { key := bytes "router", type := .bool .router }
  value := bytes "yes"
  mem := by simp [ndLCfinfoTable]
  no_block := by simp
  word := by unfold IsWord; decide }

/-- The proxy of the interface `a`. -/
def proxyA (items : List ProxyItem) : ProxyBlock where
  name := bytes "a"
  items := items
  word := by unfold IsWord; decide

/-- The addresses of the proxies, and those of their rules. -/
def targets (s : View) : List (LlAddr × List LlAddr) :=
  s.proxies.map fun b => (b.1.target, b.2.map (·.target))

def printA (items : List ProxyItem) : List U8 := printFile [.proxy (proxyA items)]

example : printA [.rule autoRule, targetLine] =
    bytes "proxy a \x7b\nrule ::1 \x7b\nauto \n\x7d\ntarget 2:0:0:0:0:1\n\x7d\n" := by
  decide +kernel

theorem fileText_printA (items : List ProxyItem) :
    FileText ([] ++ .proxy (proxyA items) :: []) (printA items) := fileText_printFile _

theorem proxyA_reordered {items items' : List ProxyItem}
    (hsettings : (items.filterMap ProxyItem.setting?).Perm (items'.filterMap ProxyItem.setting?))
    (hrules : items.filterMap ProxyItem.rule? = items'.filterMap ProxyItem.rule?) :
    (proxyA items).Reordered (proxyA items') where
  name := rfl
  settings := hsettings
  rules := by
    rw [ProxyBlock.rules, ProxyBlock.rules, proxyA, proxyA, hrules]
    exact List.forall₂_same.2 fun _ _ => ⟨rfl, .rfl⟩

/-- `target` may be before or after `router`. -/
theorem router_last : parsed oneOfEach conf (printA [routerLine, targetLine, .rule autoRule]) =
    parsed oneOfEach conf (printA [targetLine, .rule autoRule, routerLine]) := by
  have hreordered : (proxyA [routerLine, targetLine, .rule autoRule]).Reordered
      (proxyA [targetLine, .rule autoRule, routerLine]) :=
    proxyA_reordered (.swap ..) (rfl : [autoRule] = [autoRule])
  have hkeys : (proxyA [routerLine, targetLine, .rule autoRule]).DistinctKeys :=
    ⟨by decide +kernel, by decide +kernel⟩
  have hinherited : (proxyA [routerLine, targetLine, .rule autoRule]).inherited oneOfEach =
      (proxyA [targetLine, .rule autoRule, routerLine]).inherited oneOfEach := by
    decide +kernel
  exact (ndConfParse_reordered hreordered hkeys (fileText_printA _) (fileText_printA _) conf).2.2
    (.inr hinherited)

/-- After a rule, `target` does not change the address of the rule. -/
theorem target_last :
    (proxyA [targetLine, .rule autoRule]).Reordered (proxyA [.rule autoRule, targetLine]) ∧
      (proxyA [targetLine, .rule autoRule]).DistinctKeys ∧
      (parsed oneOfEach conf (printA [targetLine, .rule autoRule])).map targets =
        some [(0x020000000001, [0x020000000001])] ∧
      (parsed oneOfEach conf (printA [.rule autoRule, targetLine])).map targets =
        some [(0x020000000001, [0])] := by
  refine ⟨?_, ⟨?_, ?_⟩, ?_, ?_⟩
  · exact proxyA_reordered (.cons _ .nil) (rfl : [autoRule] = [autoRule])
  all_goals decide +kernel

end Small

end Ndppd
