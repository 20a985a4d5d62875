import Ndppd.Lib.Reorder
import Ndppd.Parse.Meaning

/-!
# The order of directives

Directives with different keys do not depend on each other, with one exception: a
rule takes the link-layer address its proxy has where the rule is written.

* `applyRuleDirs_perm`: the directives of a rule may be in any order;
* `applyProxyDirs_eq`: what a proxy and its rules are after a block: what is set by
  the block (`setProxyDirs`), and the rules, each with the address of the proxy
  where it is written (`rulesWith`);
* `RuleDef.rule_target`: that address matters for a rule without one of its own.
-/

namespace Ndppd

/-! ## Keys -/

/-- The keys of the three tables. -/
inductive CfKey
  | proxy
  | rule
  | rewrite
  | invalidTtl
  | validTtl
  | renew
  | retransLimit
  | retransTime
  | keepalive
  | router
  | promiscuous
  | auto
  | static
  | autowire
  | iface
  | target
  | table
  deriving DecidableEq

/-- The text of a key. -/
def CfKey.text : CfKey → List U8
  | .proxy => bytes "proxy"
  | .rule => bytes "rule"
  | .rewrite => bytes "rewrite"
  | .invalidTtl => bytes "invalid-ttl"
  | .validTtl => bytes "valid-ttl"
  | .renew => bytes "renew"
  | .retransLimit => bytes "retrans-limit"
  | .retransTime => bytes "retrans-time"
  | .keepalive => bytes "keepalive"
  | .router => bytes "router"
  | .promiscuous => bytes "promiscuous"
  | .auto => bytes "auto"
  | .static => bytes "static"
  | .autowire => bytes "autowire"
  | .iface => bytes "iface"
  | .target => bytes "target"
  | .table => bytes "table"

/-- The key of a directive of a rule. -/
def RuleDir.key : RuleDir → CfKey
  | .rewrite .. => .rewrite
  | .auto => .auto
  | .static => .static
  | .iface _ => .iface
  | .autowire _ => .autowire
  | .target _ => .target
  | .table _ => .table

/-- The key of a directive of a proxy. -/
def ProxyDir.key : ProxyDir → CfKey
  | .router _ => .router
  | .promiscuous _ => .promiscuous
  | .target _ => .target
  | .rule _ => .rule

/-- The key of a directive of the file. -/
def ConfDir.key : ConfDir → CfKey
  | .invalidTtl _ => .invalidTtl
  | .validTtl _ => .validTtl
  | .renew _ => .renew
  | .retransLimit _ => .retransLimit
  | .retransTime _ => .retransTime
  | .keepalive _ => .keepalive
  | .proxy _ => .proxy

/-! ## Rules -/

/-- At most one of the modes is accepted, in any order. -/
theorem RuleDir.apply_comm {d d' : RuleDir} (h : d.key ≠ d'.key) (rule : Rule) :
    (d.apply rule).bind d'.apply = (d'.apply rule).bind d.apply := by
  by_cases hmode : rule.mode = .unknown
  · cases d <;> cases d' <;> first
      | exact absurd rfl h
      | simp [RuleDir.apply, Rule.setMode, hmode]
  · cases d <;> cases d' <;> first
      | exact absurd rfl h
      | simp [RuleDir.apply, Rule.setMode, hmode]

/-- The directives of a rule may be in any order. -/
theorem applyRuleDirs_perm {ds ds' : List RuleDir} (h : ds.Perm ds')
    (hkeys : (ds.map RuleDir.key).Nodup) (rule : Rule) :
    applyRuleDirs ds rule = applyRuleDirs ds' rule :=
  Reorder.foldlM_reorder h
    ((List.pairwise_map.1 hkeys).imp fun hne rule => RuleDir.apply_comm hne rule) rule

/-- Whether a rule has a link-layer address of its own. -/
def RuleDef.hasTarget (d : RuleDef) : Bool := d.dirs.any fun x => x.key == .target

/-- What is written to a rule does not depend on the target that its proxy gave it. -/
theorem RuleDir.apply_target (d : RuleDir) (rule : Rule) (t : LlAddr) :
    d.apply { rule with target := t } =
      if d.key = .target then d.apply rule
      else (d.apply rule).map ({ · with target := t }) := by
  cases d with
  | target a => rfl
  | auto | static | iface =>
    rw [if_neg (by simp [RuleDir.key])]
    simp only [RuleDir.apply, Rule.setMode]
    split_ifs <;> rfl
  | _ => rfl

/-- The address a rule starts with is what it has in the end, unless it has one of
    its own. -/
theorem applyRuleDirs_target (ds : List RuleDir) (rule : Rule) (t : LlAddr) :
    applyRuleDirs ds { rule with target := t } =
      if (ds.any fun x => x.key == .target) = true then applyRuleDirs ds rule
      else (applyRuleDirs ds rule).map ({ · with target := t }) := by
  induction ds generalizing rule with
  | nil => rfl
  | cons d ds ih =>
    have hcons : ∀ rule, applyRuleDirs (d :: ds) rule = (d.apply rule).bind (applyRuleDirs ds) :=
      fun _ => rfl
    rw [hcons, hcons, RuleDir.apply_target, List.any_cons]
    by_cases hd : d.key = .target
    · simp [hd]
    · rw [if_neg hd, beq_eq_false_iff_ne.2 hd, Bool.false_or]
      cases d.apply rule with
      | none => split_ifs <;> rfl
      | some rule' => exact ih rule'

/-- A rule takes the address of its proxy, unless it has one of its own. Whether it
    is accepted does not depend on it. -/
theorem RuleDef.rule_target (d : RuleDef) (p : ProxyId) (t t' : LlAddr) :
    d.rule p t' =
      (d.rule p t).map fun rule => if d.hasTarget then rule else { rule with target := t' } := by
  have hstart : startRule p t' d.addr d.pflen =
      { startRule p t d.addr d.pflen with target := t' } := rfl
  rw [RuleDef.rule, RuleDef.rule, hstart, applyRuleDirs_target, ← RuleDef.hasTarget]
  cases applyRuleDirs d.dirs (startRule p t d.addr d.pflen) with
  | none => split_ifs <;> rfl
  | some rule =>
    have hcomplete : ({ rule with target := t' } : Rule).complete = rule.complete := rfl
    by_cases hown : d.hasTarget = true
    · rw [if_pos hown]
      dsimp only [Option.bind_some]
      split_ifs <;> simp
    · rw [if_neg hown]
      dsimp only [Option.map_some, Option.bind_some]
      rw [hcomplete]
      split_ifs <;> simp

/-! ## Proxies -/

/-- The rules of a block, each with the link-layer address of the proxy where it
    is written. -/
def rulesWith (target : LlAddr) : List ProxyDir → List (RuleDef × LlAddr)
  | [] => []
  | .target a :: ds => rulesWith a ds
  | .rule d :: ds => (d, target) :: rulesWith target ds
  | .router _ :: ds => rulesWith target ds
  | .promiscuous _ :: ds => rulesWith target ds

/-- The rule that a directive defines. -/
def ProxyDir.rule? : ProxyDir → Option RuleDef
  | .rule d => some d
  | _ => none

/-- The rules are those of the block, in their order. -/
theorem rulesWith_map_fst (t : LlAddr) (ds : List ProxyDir) :
    (rulesWith t ds).map (·.1) = ds.filterMap ProxyDir.rule? := by
  induction ds generalizing t with
  | nil => rfl
  | cons d ds ih =>
    cases d with
    | rule d => exact congrArg (d :: ·) (ih t)
    | router b => exact ih t
    | promiscuous b => exact ih t
    | target a => exact ih a

/-- What is set by a block. -/
def setProxyDirs (ds : List ProxyDir) (proxy : Proxy) : Proxy :=
  ds.foldl (fun proxy d => d.set proxy) proxy

/-- The rules that are defined, in a proxy. -/
def makeRules (p : ProxyId) (ds : List (RuleDef × LlAddr)) : Option (List Rule) :=
  ds.mapM fun x => x.1.rule p x.2

theorem makeRules_cons (p : ProxyId) (x : RuleDef × LlAddr) (ds : List (RuleDef × LlAddr)) :
    makeRules p (x :: ds) =
      (x.1.rule p x.2).bind fun rule => (makeRules p ds).map (rule :: ·) :=
  Traverse.mapM_cons ..

/-- A block is its settings and its rules: each rule gets the target that is set before it. -/
theorem applyProxyDirs_eq (p : ProxyId) (ds : List ProxyDir) (s : Proxy × List Rule) :
    applyProxyDirs p ds s = (makeRules p (rulesWith s.1.target ds)).map fun rules =>
      (setProxyDirs ds s.1, rules.reverse ++ s.2) := by
  induction ds generalizing s with
  | nil => rfl
  | cons d ds ih =>
    have hcons : applyProxyDirs p (d :: ds) s = (d.apply p s).bind (applyProxyDirs p ds) := rfl
    cases d with
    | rule d =>
      rw [hcons, ProxyDir.apply, rulesWith, makeRules_cons]
      cases d.rule p s.1.target with
      | none => rfl
      | some rule =>
        dsimp only [Option.map_some, Option.bind_some]
        rw [ih, Option.map_map]
        exact Option.map_congr fun rules _ => by simp [setProxyDirs, ProxyDir.set]
    | router b => exact hcons.trans (ih _)
    | promiscuous b => exact hcons.trans (ih _)
    | target a => exact hcons.trans (ih _)

/-! ### Settings -/

/-- Settings with different keys may be swapped. -/
theorem ProxyDir.set_comm {d d' : ProxyDir} (h : d.key ≠ d'.key) (proxy : Proxy) :
    d'.set (d.set proxy) = d.set (d'.set proxy) := by
  cases d <;> cases d' <;> first | exact absurd rfl h | rfl

/-- A directive that sets a field of the proxy. -/
def ProxyDir.isSetting : ProxyDir → Bool
  | .rule _ => false
  | _ => true

/-- The rules of a block do not set fields of the proxy. -/
theorem setProxyDirs_filter (ds : List ProxyDir) (proxy : Proxy) :
    setProxyDirs (ds.filter ProxyDir.isSetting) proxy = setProxyDirs ds proxy := by
  rw [setProxyDirs, List.foldl_filter, setProxyDirs]
  refine congrArg (fun f => ds.foldl f proxy) (funext fun proxy => funext fun d => ?_)
  cases d <;> rfl

/-- The settings of a proxy may be in any order. -/
theorem setProxyDirs_perm {ds ds' : List ProxyDir} (h : ds.Perm ds')
    (hkeys : (ds.map ProxyDir.key).Nodup) (proxy : Proxy) :
    setProxyDirs ds proxy = setProxyDirs ds' proxy :=
  Reorder.foldl_reorder_keys (fun _ _ hne proxy => ProxyDir.set_comm hne proxy) h hkeys proxy

/-- The proxy and the rules that a block makes. -/
def ProxyDef.block (p : ProxyId) (d : ProxyDef) : Option (Proxy × List Rule) :=
  applyProxyDirs p d.dirs ({ ifname := d.ifname }, [])

end Ndppd
