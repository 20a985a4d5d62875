import Ndppd.DirectiveOrder
import Ndppd.Parse.Spelling

/-!
# The round trip

A configuration is given by its values: the settings, the proxies, and the rules
of each (`ConfSpec`). It is written as a file in many ways (`ConfSpec.Rendering`):
the directives of a block are in any order, except that the rules and proxies are
in theirs and `target` is before the rules of its proxy; a directive that gives a
default may be left out; the values may be spelled in several ways, and the file be
laid out in any way.

* `ConfSpec.ndConfParse_rendering`: the parser accepts each of these files, and reads
  the same values from it (`ConfSpec.view`): the same settings, and the same proxies
  and rules, the last ones first.
-/

namespace Ndppd

/-! ## Configurations -/

/-- How a rule finds its interface. -/
inductive ModeSpec
  | auto
  | static
  | iface (ifname : IfaceName)

/-- The values of a rule, in range. Only a rule with an interface of its own is autowired. -/
structure RuleSpec where
  addr : Addr
  pflen : ℕ
  mode : ModeSpec
  autowire : Bool
  table : ℕ
  /-- A link-layer address of its own. -/
  target : Option LlAddr
  rewrite : Option (Addr × ℕ)
  pflen_le : pflen ≤ 128
  table_le : table ≤ 255
  rewrite_le : ∀ x ∈ rewrite, x.2 ≤ 128
  autowire_iface : autowire = true → ∃ ifname, mode = .iface ifname

/-- The values of a proxy, and its rules. -/
structure ProxySpec where
  ifname : IfaceName
  router : Bool
  promiscuous : Bool
  target : Option LlAddr
  rules : List RuleSpec

/-- The values of a file, in range. No two of its proxies have the same interface. -/
structure ConfSpec where
  invalidTtl : ℤ
  validTtl : ℤ
  retransLimit : ℤ
  retransTime : ℤ
  keepalive : Bool
  proxies : List ProxySpec
  invalidTtl_mem : 1000 ≤ invalidTtl ∧ invalidTtl ≤ 3600000
  validTtl_mem : 10000 ≤ validTtl ∧ validTtl ≤ 3600000
  retransLimit_mem : 0 ≤ retransLimit ∧ retransLimit ≤ 10
  retransTime_mem : 0 ≤ retransTime ∧ retransTime ≤ 60000
  ifname_nodup : (proxies.map (·.ifname.text)).Nodup

/-! ### What they configure -/

/-- The mode as the daemon stores it. -/
def ModeSpec.mode : ModeSpec → Mode
  | .auto => .auto
  | .static => .static
  | .iface _ => .iface

/-- The name of the interface, if it has one. -/
def ModeSpec.ifname : ModeSpec → IfName
  | .auto => []
  | .static => []
  | .iface n => n.text

/-- The rule, in a proxy with this link-layer address. -/
def RuleSpec.rule (p : ProxyId) (target : LlAddr) (s : RuleSpec) : Rule where
  proxy := p
  ifname := s.mode.ifname
  target := s.target.getD target
  addr := s.addr
  pflen := s.pflen
  rewriteTgt := s.rewrite.elim 0 (·.1)
  rewritePflen := s.rewrite.elim 0 (·.2)
  autowire := s.autowire
  table := s.table
  mode := s.mode.mode

/-- The proxy, and its rules, the last one first. -/
def ProxySpec.block (p : ProxyId) (s : ProxySpec) : Proxy × List Rule :=
  ({ ifname := s.ifname.text, target := s.target.getD 0, router := s.router,
     promiscuous := s.promiscuous },
    (s.rules.map (RuleSpec.rule p (s.target.getD 0))).reverse)

/-- The settings, and the proxies, the last one first. -/
def ConfSpec.view (conf : Conf) (s : ConfSpec) : View where
  settings := ({ conf with
    invalidTtl := s.invalidTtl
    validTtl := s.validTtl
    retransLimit := s.retransLimit
    retransTime := s.retransTime
    keepalive := s.keepalive }, 5000)
  proxies := (s.proxies.mapIdx ProxySpec.block).reverse

/-! ### How they are written -/

/-- The directive for a mode. -/
def ModeSpec.dir : ModeSpec → RuleDir
  | .auto => .auto
  | .static => .static
  | .iface n => .iface n.text

/-- The directives of a rule. -/
def RuleSpec.dirs (s : RuleSpec) : List RuleDir :=
  [s.mode.dir, .autowire s.autowire, .table s.table] ++ s.target.toList.map .target ++
    s.rewrite.toList.map fun x => .rewrite x.1 x.2

/-- The settings of a proxy. -/
def ProxySpec.settings (s : ProxySpec) : List ProxyDir :=
  [.router s.router, .promiscuous s.promiscuous] ++ s.target.toList.map .target

/-- The settings of the file. -/
def ConfSpec.settings (s : ConfSpec) : List ConfDir :=
  [.invalidTtl s.invalidTtl, .validTtl s.validTtl, .retransLimit s.retransLimit,
    .retransTime s.retransTime, .keepalive s.keepalive]

/-- Directives in some order, some of those that give a default being left out. -/
def Writes {α : Type} (IsDefault : α → Prop) (all written : List α) : Prop :=
  ∃ omitted, (omitted ++ written).Perm all ∧ ∀ d ∈ omitted, IsDefault d

/-- The directive sets what a new rule has. -/
def RuleDir.IsDefault : RuleDir → Prop
  | .autowire b => b = false
  | .table n => n = mainTable
  | _ => False

/-- The directive sets what a new proxy has. -/
def ProxyDir.IsDefault : ProxyDir → Prop
  | .router b => b = false
  | .promiscuous b => b = false
  | _ => False

/-- The directive changes nothing. -/
def ConfDir.IsDefault (conf : Conf) (d : ConfDir) : Prop := d.set (conf, 5000) = (conf, 5000)

/-- `d` is a way to write the rule. -/
structure RuleSpec.Written (s : RuleSpec) (d : RuleDef) : Prop where
  addr : d.addr = s.addr
  pflen : d.pflen = s.pflen
  dirs : Writes RuleDir.IsDefault s.dirs d.dirs

/-- `d` is a way to write the proxy: `target` is before the rules. -/
structure ProxySpec.Written (s : ProxySpec) (d : ProxyDef) : Prop where
  ifname : d.ifname = s.ifname.text
  settings : Writes ProxyDir.IsDefault s.settings (d.dirs.filter ProxyDir.isSetting)
  rules : List.Forall₂ RuleSpec.Written s.rules (d.dirs.filterMap ProxyDir.rule?)
  /-- No rule is before `target`. -/
  target_first : d.dirs.Pairwise fun x y => y.key = .target → x.key ≠ .rule

/-- A directive that is not a proxy. -/
def ConfDir.isSetting : ConfDir → Bool
  | .proxy _ => false
  | _ => true

/-- The proxy that a directive defines. -/
def ConfDir.proxy? : ConfDir → Option ProxyDef
  | .proxy d => some d
  | _ => none

/-- `ds` is a way to write the file. -/
structure ConfSpec.Written (conf : Conf) (s : ConfSpec) (ds : List ConfDir) : Prop where
  settings : Writes (ConfDir.IsDefault conf) s.settings (ds.filter ConfDir.isSetting)
  proxies : List.Forall₂ ProxySpec.Written s.proxies (ds.filterMap ConfDir.proxy?)

/-- A file for a configuration: directives that give its values, in words that spell
    them, in any layout. -/
def ConfSpec.Rendering (libc : Libc) (conf : Conf) (s : ConfSpec) (t : List U8) : Prop :=
  ∃ ds items, s.Written conf ds ∧ List.Forall₂ (ConfDir.Spelled libc) ds items ∧ FileText items t

/-! ## The parser reads them -/

section Writes

variable {α σ : Type} {IsDefault : α → Prop} {all written : List α} {key : α → CfKey}

theorem Writes.subset (h : Writes IsDefault all written) : written ⊆ all := by
  obtain ⟨omitted, hperm, -⟩ := h
  exact fun d hd => hperm.subset (List.mem_append_right omitted hd)

/-- What is left out changes nothing. -/
theorem Writes.foldlM_eq {step : σ → α → Option σ} (h : Writes IsDefault all written)
    (hcomm : ∀ d d', key d ≠ key d' →
      ∀ s, (step s d).bind (step · d') = (step s d').bind (step · d))
    (hkeys : (all.map key).Nodup) {s : σ} (hdefault : ∀ d, IsDefault d → step s d = some s) :
    written.foldlM step s = all.foldlM step s := by
  obtain ⟨omitted, hperm, homitted⟩ := h
  have hfold : ∀ ds : List α, (∀ d ∈ ds, IsDefault d) → ds.foldlM step s = some s := by
    intro ds hds
    induction ds with
    | nil => rfl
    | cons d ds ih =>
      obtain ⟨hd, hds⟩ := List.forall_mem_cons.1 hds
      rw [List.foldlM_cons, hdefault d hd]
      exact ih hds
  have hpair : (omitted ++ written).Pairwise fun d d' =>
      ∀ s, (step s d).bind (step · d') = (step s d').bind (step · d) :=
    (List.pairwise_map.1 ((hperm.map key).nodup_iff.2 hkeys)).imp fun hne => hcomm _ _ hne
  rw [← Reorder.foldlM_reorder hperm hpair, List.foldlM_append, hfold omitted homitted]
  rfl

/-- Order does not matter, and what sets a default may be left out. -/
theorem Writes.foldl_eq {set : σ → α → σ} (h : Writes IsDefault all written)
    (hcomm : ∀ d d', key d ≠ key d' → ∀ s, set (set s d) d' = set (set s d') d)
    (hkeys : (all.map key).Nodup) {s : σ} (hdefault : ∀ d, IsDefault d → set s d = s) :
    written.foldl set s = all.foldl set s := by
  have hsome : ∀ ds : List α, ds.foldlM (fun s d => some (set s d)) s = some (ds.foldl set s) :=
    fun ds => List.foldlM_pure ..
  have hfold : written.foldlM (fun s d => some (set s d)) s =
      all.foldlM (fun s d => some (set s d)) s :=
    h.foldlM_eq (fun d d' hne s => by exact congrArg some (hcomm d d' hne s)) hkeys
      fun d hd => congrArg some (hdefault d hd)
  rw [hsome, hsome] at hfold
  exact Option.some.inj hfold

end Writes

/-! ### Rules -/

/-- No directive of a rule is written twice. -/
theorem RuleSpec.nodup_keys (s : RuleSpec) : (s.dirs.map RuleDir.key).Nodup := by
  rw [RuleSpec.dirs]
  cases s.mode <;> cases s.target <;> cases s.rewrite <;> simp [ModeSpec.dir, RuleDir.key]

/-- All the directives of a rule, from a new rule. -/
theorem RuleSpec.applyRuleDirs_dirs (s : RuleSpec) (p : ProxyId) (t : LlAddr) :
    applyRuleDirs s.dirs (startRule p t s.addr s.pflen) = some (s.rule p t) := by
  rw [RuleSpec.dirs, RuleSpec.rule]
  cases s.mode <;> cases s.target <;> cases s.rewrite <;> rfl

/-- The rule passes the last check of `ndL_parse_rule`. -/
theorem RuleSpec.complete (s : RuleSpec) (p : ProxyId) (t : LlAddr) :
    (s.rule p t).complete = true := by
  have hmode : s.mode.mode ≠ .unknown := by cases s.mode <;> simp [ModeSpec.mode]
  have hiface : s.autowire = true → s.mode.mode = .iface := by
    intro h
    obtain ⟨ifname, hmode⟩ := s.autowire_iface h
    rw [hmode]
    rfl
  rw [Rule.complete]
  cases hautowire : s.autowire with
  | false => simp [RuleSpec.rule, hmode, hautowire]
  | true => simp [RuleSpec.rule, hautowire, hiface hautowire]

/-- Each way to write a rule makes that rule. -/
theorem RuleSpec.Written.rule_eq {s : RuleSpec} {d : RuleDef} (h : s.Written d) (p : ProxyId)
    (t : LlAddr) : d.rule p t = some (s.rule p t) := by
  have hdefault : ∀ d : RuleDir, d.IsDefault →
      d.apply (startRule p t s.addr s.pflen) = some (startRule p t s.addr s.pflen) := by
    intro d hd
    cases d with
    | autowire b =>
      obtain rfl : b = false := hd
      rfl
    | table n =>
      obtain rfl : n = mainTable := hd
      rfl
    | _ => exact hd.elim
  have hdirs : applyRuleDirs d.dirs (startRule p t s.addr s.pflen) = some (s.rule p t) :=
    (h.dirs.foldlM_eq (fun d d' hne rule => RuleDir.apply_comm hne rule) s.nodup_keys
      hdefault).trans (s.applyRuleDirs_dirs p t)
  rw [RuleDef.rule, h.addr, h.pflen, hdirs, Option.bind_some, if_pos (s.complete p t)]

/-! ### Proxies -/

theorem setProxyDirs_target {ds : List ProxyDir} (h : ∀ d ∈ ds, d.key ≠ .target) (proxy : Proxy) :
    (setProxyDirs ds proxy).target = proxy.target := by
  induction ds generalizing proxy with
  | nil => rfl
  | cons d ds ih =>
    obtain ⟨hd, hds⟩ := List.forall_mem_cons.1 h
    refine (ih hds (d.set proxy)).trans ?_
    cases d with
    | target a => exact absurd rfl hd
    | _ => rfl

/-- If no rule is before `target`, all of them have the address of the proxy. -/
theorem rulesWith_of_first {ds : List ProxyDir}
    (h : ds.Pairwise fun x y => y.key = .target → x.key ≠ .rule) (proxy : Proxy) :
    rulesWith proxy.target ds =
      (ds.filterMap ProxyDir.rule?).map fun d => (d, (setProxyDirs ds proxy).target) := by
  induction ds generalizing proxy with
  | nil => rfl
  | cons d ds ih =>
    obtain ⟨hd, hds⟩ := List.pairwise_cons.1 h
    cases d with
    | target a => exact ih hds { proxy with target := a }
    | router b => exact ih hds { proxy with router := b }
    | promiscuous b => exact ih hds { proxy with promiscuous := b }
    | rule d =>
      have hnone : ∀ x ∈ ds, x.key ≠ .target := fun x hx hkey => hd x hx hkey rfl
      have hset : setProxyDirs (.rule d :: ds) proxy = setProxyDirs ds proxy := rfl
      rw [rulesWith, ih hds proxy, hset, setProxyDirs_target hnone]
      rfl

theorem ProxySpec.nodup_keys (s : ProxySpec) : (s.settings.map ProxyDir.key).Nodup := by
  rw [ProxySpec.settings]
  cases s.target <;> simp [ProxyDir.key]

/-- Each way to write a proxy sets its fields. -/
theorem ProxySpec.Written.setProxyDirs_eq {s : ProxySpec} {d : ProxyDef} (h : s.Written d)
    (p : ProxyId) : setProxyDirs d.dirs { ifname := s.ifname.text } = (s.block p).1 := by
  have hdefault : ∀ d : ProxyDir, d.IsDefault →
      d.set { ifname := s.ifname.text } = { ifname := s.ifname.text } := by
    intro d hd
    cases d with
    | router b =>
      obtain rfl : b = false := hd
      rfl
    | promiscuous b =>
      obtain rfl : b = false := hd
      rfl
    | _ => exact hd.elim
  rw [← setProxyDirs_filter]
  refine (h.settings.foldl_eq (fun d d' hne proxy => ProxyDir.set_comm hne proxy) s.nodup_keys
    hdefault).trans ?_
  rw [ProxySpec.settings, ProxySpec.block]
  cases s.target <;> rfl

/-- Each way to write a proxy makes it, with its rules. -/
theorem ProxySpec.Written.block_eq {s : ProxySpec} {d : ProxyDef} (h : s.Written d)
    (p : ProxyId) : d.block p = some (s.block p) := by
  have hset := h.setProxyDirs_eq p
  have hrules : makeRules p (rulesWith 0 d.dirs) =
      some (s.rules.map (RuleSpec.rule p (s.target.getD 0))) := by
    have hfirst := rulesWith_of_first h.target_first { ifname := s.ifname.text }
    rw [hset] at hfirst
    rw [hfirst, makeRules, Traverse.mapM_eq_some_iff, List.forall₂_map_left_iff,
      List.forall₂_map_right_iff]
    exact h.rules.flip.imp fun d s hs => hs.rule_eq p _
  rw [ProxyDef.block, h.ifname, applyProxyDirs_eq, hset, hrules]
  exact congrArg some (Prod.ext rfl (List.append_nil _))

/-! ### The file -/

section File

variable {libc : Libc} {conf : Conf}

/-- A proxy is added, unless there is one for its interface. -/
def addProxy (ps : List (Proxy × List Rule)) (d : ProxyDef) : Option (List (Proxy × List Rule)) :=
  if ps.any fun other => other.1.ifname == d.ifname then none
  else (d.block ps.length).map fun block => block :: ps

/-- What is set by a file. -/
def setConfDirs (ds : List ConfDir) (s : Conf × ℤ) : Conf × ℤ := ds.foldl (fun s d => d.set s) s

/-- A file is its settings and its proxies. -/
theorem applyConfDirs_eq (ds : List ConfDir) (s : View) :
    applyConfDirs ds s = ((ds.filterMap ConfDir.proxy?).foldlM addProxy s.proxies).map fun ps =>
      ⟨setConfDirs ds s.settings, ps⟩ := by
  induction ds generalizing s with
  | nil => rfl
  | cons d ds ih =>
    have hcons : applyConfDirs (d :: ds) s = (d.apply s).bind (applyConfDirs ds) := rfl
    cases d with
    | proxy d =>
      rw [hcons, List.filterMap_cons_some (by rfl), List.foldlM_cons]
      dsimp only [ConfDir.apply, addProxy]
      split_ifs
      · rfl
      · rw [← ProxyDef.block]
        cases d.block s.proxies.length with
        | none => rfl
        | some block => exact ih _
    | _ => exact hcons.trans (ih _)

/-- Settings with different keys may be swapped. -/
theorem ConfDir.set_comm {d d' : ConfDir} (h : d.key ≠ d'.key) (s : Conf × ℤ) :
    d'.set (d.set s) = d.set (d'.set s) := by
  cases d <;> cases d' <;> first | exact absurd rfl h | rfl

theorem setConfDirs_filter (ds : List ConfDir) (s : Conf × ℤ) :
    setConfDirs (ds.filter ConfDir.isSetting) s = setConfDirs ds s := by
  rw [setConfDirs, List.foldl_filter, setConfDirs]
  refine congrArg (fun f => ds.foldl f s) (funext fun s => funext fun d => ?_)
  cases d <;> rfl

/-- Each way to write a file makes its settings. -/
theorem ConfSpec.Written.setConfDirs_eq {s : ConfSpec} {ds : List ConfDir}
    (h : s.Written conf ds) : setConfDirs ds (conf, 5000) = (s.view conf).settings := by
  have hkeys : (s.settings.map ConfDir.key).Nodup := by
    simp [ConfSpec.settings, ConfDir.key]
  rw [← setConfDirs_filter]
  exact h.settings.foldl_eq (fun d d' hne s => ConfDir.set_comm hne s) hkeys fun d hd => hd

/-- The proxies are added in turn. -/
theorem foldlM_addProxy (done : List ProxySpec) {todo : List ProxySpec} {ds : List ProxyDef}
    (h : List.Forall₂ ProxySpec.Written todo ds)
    (hnodup : ((done ++ todo).map (·.ifname.text)).Nodup) :
    ds.foldlM addProxy (done.mapIdx ProxySpec.block).reverse =
      some ((done ++ todo).mapIdx ProxySpec.block).reverse := by
  induction h generalizing done with
  | nil => rw [List.append_nil]; rfl
  | @cons s d todo ds hd _ ih =>
    have hnew : ((done.mapIdx ProxySpec.block).reverse.any fun other =>
        other.1.ifname == d.ifname) = false := by
      rw [List.any_eq_false]
      intro other hmem heq
      obtain ⟨i, hi, rfl⟩ := List.mem_mapIdx.1 (List.mem_reverse.1 hmem)
      have hmem' : s.ifname.text ∈ done.map (·.ifname.text) := by
        rw [← hd.ifname, ← beq_iff_eq.1 heq]
        exact List.mem_map_of_mem (List.getElem_mem hi)
      rw [List.map_append] at hnodup
      exact (List.disjoint_of_nodup_append hnodup) hmem' List.mem_cons_self
    have hadd : addProxy (done.mapIdx ProxySpec.block).reverse d =
        some ((done ++ [s]).mapIdx ProxySpec.block).reverse := by
      rw [addProxy, if_neg (by simp [hnew]), hd.block_eq, List.mapIdx_append]
      simp
    rw [List.append_cons] at hnodup ⊢
    rw [List.foldlM_cons, hadd]
    exact ih _ hnodup

/-! ### Ranges -/

theorem RuleSpec.inRange_of_mem {s : RuleSpec} {d : RuleDir} (h : d ∈ s.dirs) : d.InRange := by
  simp only [RuleSpec.dirs, List.mem_append, List.mem_cons, List.mem_map, List.not_mem_nil,
    or_false, Option.mem_toList] at h
  rcases h with ((rfl | rfl | rfl) | ⟨a, -, rfl⟩) | ⟨x, hx, rfl⟩
  · cases s.mode with
    | iface n => exact ⟨n, rfl⟩
    | _ => trivial
  · trivial
  · exact s.table_le
  · trivial
  · exact s.rewrite_le x hx

theorem RuleSpec.Written.inRange {s : RuleSpec} {d : RuleDef} (h : s.Written d) : d.InRange where
  pflen := h.pflen ▸ s.pflen_le
  dirs _ hx := RuleSpec.inRange_of_mem (h.dirs.subset hx)

theorem ProxySpec.Written.inRange {s : ProxySpec} {d : ProxyDef} (h : s.Written d) :
    d.InRange where
  ifname := ⟨s.ifname, h.ifname⟩
  dirs x hx := by
    cases x with
    | rule r =>
      have hr : r ∈ d.dirs.filterMap ProxyDir.rule? := List.mem_filterMap.2 ⟨_, hx, rfl⟩
      exact Traverse.forall_right h.rules (fun _ _ hs => hs.inRange) r hr
    | _ => trivial

/-- What is written is in the ranges of the tables. -/
theorem ConfSpec.Written.inRange {s : ConfSpec} {ds : List ConfDir} (h : s.Written conf ds) :
    ∀ d ∈ ds, d.InRange := by
  intro d hd
  have hsettings : ∀ d ∈ s.settings, d.InRange := by
    simp only [ConfSpec.settings, List.forall_mem_cons]
    exact ⟨s.invalidTtl_mem, s.validTtl_mem, s.retransLimit_mem, s.retransTime_mem, trivial,
      fun _ h => absurd h List.not_mem_nil⟩
  cases hset : d.isSetting with
  | true => exact hsettings d (h.settings.subset (List.mem_filter.2 ⟨hd, hset⟩))
  | false =>
    cases d with
    | proxy p =>
      have hp : p ∈ ds.filterMap ConfDir.proxy? := List.mem_filterMap.2 ⟨_, hd, rfl⟩
      exact Traverse.forall_right h.proxies (fun _ _ hs => hs.inRange) p hp
    | _ => exact absurd hset (by simp [ConfDir.isSetting])

/-- The parser accepts every file for a configuration, and reads it. -/
theorem ConfSpec.ndConfParse_rendering {s : ConfSpec} {t : List U8} (h : s.Rendering libc conf t) :
    ∃ c g, ndConfParse libc conf t = .ok (c, g) ∧ g.view = s.view conf := by
  obtain ⟨ds, items, hwritten, hspelled, htext⟩ := h
  have hread : items.mapM (FileItem.read libc) = some ds :=
    mapM_of_spelled hspelled hwritten.inRange fun _ _ => FileItem.read_of_spelled
  have hproxies : (ds.filterMap ConfDir.proxy?).foldlM addProxy [] =
      some (s.proxies.mapIdx ProxySpec.block).reverse :=
    foldlM_addProxy [] hwritten.proxies s.ifname_nodup
  rw [← parsed_eq_some_iff, parsed_text htext, hread, Option.bind_some, applyConfDirs_eq,
    View.start, hproxies, hwritten.setConfDirs_eq]
  rfl

end File

namespace Small

/-- The interface `a`. -/
def nameA : IfaceName where
  first := ch 'a'
  others := []
  first_alpha := by decide
  others_mem _ h := absurd h List.not_mem_nil
  length_le := by decide

/-- The rule for `::1`, in the mode `auto`. -/
def autoSpec : RuleSpec where
  addr := 1
  pflen := 128
  mode := .auto
  autowire := false
  table := 254
  target := none
  rewrite := none
  pflen_le := le_rfl
  table_le := by decide
  rewrite_le _ h := absurd h (by simp)
  autowire_iface h := absurd h (by decide)

/-- The default settings, and one proxy. -/
def confSpec : ConfSpec where
  invalidTtl := 10000
  validTtl := 30000
  retransLimit := 3
  retransTime := 1000
  keepalive := false
  proxies := [{
    ifname := nameA
    router := true
    promiscuous := false
    target := some 0x020000000001
    rules := [autoSpec] }]
  invalidTtl_mem := by decide
  validTtl_mem := by decide
  retransLimit_mem := by decide
  retransTime_mem := by decide
  ifname_nodup := List.nodup_singleton _

/-- The directives of the block. -/
def proxyDirs : List ProxyDir :=
  [.target 0x020000000001, .rule ⟨1, 128, [.auto]⟩, .router true]

theorem confSpec_written : confSpec.Written conf [.proxy ⟨bytes "a", proxyDirs⟩] where
  settings := by
    refine ⟨confSpec.settings, by simp [ConfDir.isSetting], ?_⟩
    simp only [ConfSpec.settings, List.forall_mem_cons]
    exact ⟨rfl, rfl, rfl, rfl, rfl, fun _ h => absurd h List.not_mem_nil⟩
  proxies := by
    refine .cons ⟨by decide, ⟨[.promiscuous false], ?_, ?_⟩, .cons ⟨rfl, rfl, ?_⟩ .nil, ?_⟩ .nil
    · exact List.perm_append_singleton (ProxyDir.router true)
        [.promiscuous false, .target 0x020000000001]
    · exact fun d hd => List.mem_singleton.1 hd ▸ rfl
    · refine ⟨[.autowire false, .table 254], ?_, ?_⟩
      · exact List.perm_append_singleton RuleDir.auto [.autowire false, .table 254]
      · simp [RuleDir.IsDefault, mainTable]
    · simp [proxyDirs, ProxyDir.key]

theorem confSpec_spelled : ConfDir.Spelled oneOfEach (.proxy ⟨bytes "a", proxyDirs⟩)
    (.proxy (proxyA [targetLine, .rule autoRule, routerLine])) := by
  refine .proxy ⟨rfl, .cons (.setting rfl ?_) (.cons (.rule ⟨.omitted ?_, ?_⟩)
    (.cons (.setting rfl .yes) .nil))⟩
  · exact ⟨by decide, by decide, by decide, rfl⟩
  · exact ⟨by decide, by decide, by decide, rfl⟩
  · exact .cons ⟨rfl, rfl⟩ .nil

theorem confSpec_parsed : ∃ c g,
    ndConfParse oneOfEach conf (printA [targetLine, .rule autoRule, routerLine]) = .ok (c, g) ∧
      g.view = confSpec.view conf :=
  ConfSpec.ndConfParse_rendering
    ⟨_, _, confSpec_written, .cons confSpec_spelled .nil, fileText_printFile _⟩

end Small

end Ndppd
