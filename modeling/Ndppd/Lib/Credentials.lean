import Mathlib.Data.List.Basic

/-!
# Credentials of a process

The identities and the capabilities of a process, and the calls that change them, as Linux has
them: a process may set its identities to any value if it has the capability to, and else only
to those it has already. Leaving the identity `0` clears the effective capabilities, and the
permitted ones too unless they are to be kept; `capset` can only lower the permitted ones.

A process that has neither of the two capabilities for identities is confined: whatever it calls,
it keeps its groups, no capability is added to those it is permitted (`Confined.run`), and if its
three users are the same it keeps them too (`Confined.run_uid`). The calls that set one or two of
the identities only are left out: they allow no others. Programs that are executed may have more
capabilities; that is not a call here.
-/

namespace Credentials

/-- A user or a group. -/
abbrev Ident := BitVec 32

/-- A set of capabilities. -/
abbrev Caps := BitVec 64

/-- The identity that stands for no change. -/
def noChange : Ident := BitVec.allOnes 32

/-- The identities of a process, of users or groups. -/
structure Ids where
  real : Ident
  effective : Ident
  saved : Ident
deriving DecidableEq

namespace Ids

/-- Three times the same one. -/
def all (x : Ident) : Ids := ⟨x, x, x⟩

/-- An identity the process may set without a capability. -/
def Has (ids : Ids) (x : Ident) : Prop :=
  x = noChange ∨ x = ids.real ∨ x = ids.effective ∨ x = ids.saved

instance (ids : Ids) (x : Ident) : Decidable (ids.Has x) :=
  inferInstanceAs (Decidable (_ ∨ _))

/-- The identities that a call gives, but for those that it does not change. -/
def set (ids : Ids) (r e s : Ident) : Ids where
  real := if r = noChange then ids.real else r
  effective := if e = noChange then ids.effective else e
  saved := if s = noChange then ids.saved else s

/-- One of the identities is that of the superuser. -/
def IsRoot (ids : Ids) : Prop := ids.real = 0 ∨ ids.effective = 0 ∨ ids.saved = 0

instance (ids : Ids) : Decidable ids.IsRoot := inferInstanceAs (Decidable (_ ∨ _))

theorem set_noChange (ids : Ids) : ids.set noChange noChange noChange = ids := by
  simp [set]

theorem set_all (ids : Ids) {x : Ident} (hx : x ≠ noChange) : ids.set x x x = all x := by
  simp [set, hx, all]

/-- Who has one identity only keeps it. -/
theorem set_of_has {x r e s : Ident} (hr : (all x).Has r) (he : (all x).Has e)
    (hs : (all x).Has s) : (all x).set r e s = all x := by
  have hone : ∀ y, (all x).Has y → (if y = noChange then x else y) = x := by
    rintro y (rfl | rfl | rfl | rfl) <;> simp
  rw [set, all, hone r hr, hone e he, hone s hs]

end Ids

/-- The credentials of a process. -/
structure Creds where
  uid : Ids
  gid : Ids
  groups : List Ident
  permitted : Caps
  effective : Caps
  inheritable : Caps
  ambient : Caps
  bounding : Caps
  /-- The permitted capabilities outlast the identity `0`. -/
  keepCaps : Bool
deriving DecidableEq

/-- Why a call fails. -/
inductive Refusal
  | eperm
  | einval
deriving DecidableEq

/-- The calls that change credentials. -/
inductive Call
  | setKeepcaps (on : Bool)
  | setgroups (groups : List Ident)
  | setresgid (r e s : Ident)
  | setresuid (r e s : Ident)
  | capset (permitted effective inheritable : Caps)
deriving DecidableEq

/-- The bits of the capabilities to set the identities, and to inherit any other. -/
def capSetgid : ℕ := 6

@[inherit_doc capSetgid]
def capSetuid : ℕ := 7

@[inherit_doc capSetgid]
def capSetpcap : ℕ := 8

/-- `cap_issubset` -/
def IsSubset (a b : Caps) : Prop := a &&& ~~~b = 0

instance (a b : Caps) : Decidable (IsSubset a b) := inferInstanceAs (Decidable (_ = _))

namespace Creds

/-- The capabilities after the users have been set to `uid`. -/
def fixSetuid (c : Creds) (uid : Ids) : Creds :=
  let left := c.uid.IsRoot ∧ ¬uid.IsRoot
  let permitted := if left ∧ ¬c.keepCaps then 0 else c.permitted
  { c with
    uid := uid
    permitted := permitted
    effective :=
      if c.uid.effective ≠ 0 ∧ uid.effective = 0 then permitted
      else if (left ∧ ¬c.keepCaps) ∨ (c.uid.effective = 0 ∧ uid.effective ≠ 0) then 0
      else c.effective
    ambient := if left then 0 else c.ambient }

/-- What a call does, or why it is refused. -/
def exec (c : Creds) : Call → Except Refusal Creds
  | .setKeepcaps on => .ok { c with keepCaps := on }
  | .setgroups groups =>
    if ¬c.effective.getLsbD capSetgid then .error .eperm
    else if noChange ∈ groups then .error .einval
    else .ok { c with groups := groups }
  | .setresgid r e s =>
    if c.effective.getLsbD capSetgid ∨ c.gid.Has r ∧ c.gid.Has e ∧ c.gid.Has s then
      .ok { c with gid := c.gid.set r e s }
    else .error .eperm
  | .setresuid r e s =>
    if c.effective.getLsbD capSetuid ∨ c.uid.Has r ∧ c.uid.Has e ∧ c.uid.Has s then
      .ok (c.fixSetuid (c.uid.set r e s))
    else .error .eperm
  | .capset permitted effective inheritable =>
    if (c.effective.getLsbD capSetpcap ∨ IsSubset inheritable (c.inheritable ||| c.permitted)) ∧
        IsSubset inheritable (c.inheritable ||| c.bounding) ∧
        IsSubset permitted c.permitted ∧ IsSubset effective permitted then
      .ok { c with permitted, effective, inheritable,
                   ambient := c.ambient &&& permitted &&& inheritable }
    else .error .eperm

/-- A call that fails changes nothing. -/
def attempt (c : Creds) (call : Call) : Creds := (c.exec call).toOption.getD c

/-- A process that makes calls, whether they succeed or not. -/
def run (c : Creds) (calls : List Call) : Creds := calls.foldl attempt c

variable {c c' : Creds}

theorem ite_ok_eq_ok {p : Prop} [Decidable p] {e : Refusal} :
    (if p then .ok c else .error e : Except Refusal Creds) = .ok c' ↔ p ∧ c = c' := by
  by_cases h : p <;> simp [h]

theorem exec_setgroups_eq_ok {groups : List Ident} : c.exec (.setgroups groups) = .ok c' ↔
    c.effective.getLsbD capSetgid = true ∧ noChange ∉ groups ∧
      { c with groups := groups } = c' := by
  by_cases hcap : c.effective.getLsbD capSetgid = true <;>
    by_cases hmem : noChange ∈ groups <;> simp [exec, hcap, hmem]

theorem exec_setresgid_eq_ok {r e s : Ident} : c.exec (.setresgid r e s) = .ok c' ↔
    (c.effective.getLsbD capSetgid = true ∨ c.gid.Has r ∧ c.gid.Has e ∧ c.gid.Has s) ∧
      { c with gid := c.gid.set r e s } = c' :=
  ite_ok_eq_ok

theorem exec_setresuid_eq_ok {r e s : Ident} : c.exec (.setresuid r e s) = .ok c' ↔
    (c.effective.getLsbD capSetuid = true ∨ c.uid.Has r ∧ c.uid.Has e ∧ c.uid.Has s) ∧
      c.fixSetuid (c.uid.set r e s) = c' :=
  ite_ok_eq_ok

theorem exec_capset_eq_ok {permitted effective inheritable : Caps} :
    c.exec (.capset permitted effective inheritable) = .ok c' ↔
      ((c.effective.getLsbD capSetpcap = true ∨
          IsSubset inheritable (c.inheritable ||| c.permitted)) ∧
        IsSubset inheritable (c.inheritable ||| c.bounding) ∧
        IsSubset permitted c.permitted ∧ IsSubset effective permitted) ∧
      { c with permitted, effective, inheritable,
               ambient := c.ambient &&& permitted &&& inheritable } = c' :=
  ite_ok_eq_ok

end Creds

/-! ## Subsets -/

variable {a b d : Caps}

/-- A set of capabilities, bit by bit. -/
theorem isSubset_iff : IsSubset a b ↔ ∀ n, a.getLsbD n = true → b.getLsbD n = true := by
  constructor
  · intro h n hn
    have hbit := congrArg (fun x : Caps => x.getLsbD n) h
    have hlt : n < 64 := BitVec.lt_of_getLsbD hn
    simpa [hn, hlt] using hbit
  · intro h
    refine BitVec.eq_of_getLsbD_eq fun n hn => ?_
    cases ha : a.getLsbD n with
    | false => simp [ha]
    | true => simp [ha, h n ha]

theorem IsSubset.refl (a : Caps) : IsSubset a a := isSubset_iff.2 fun _ h => h

theorem IsSubset.trans (h : IsSubset a b) (h' : IsSubset b d) : IsSubset a d :=
  isSubset_iff.2 fun n hn => isSubset_iff.1 h' n (isSubset_iff.1 h n hn)

theorem isSubset_zero (b : Caps) : IsSubset 0 b := isSubset_iff.2 fun n hn => absurd hn (by simp)

/-! ## Confinement -/

variable {c c' : Creds} {caps : Caps} {gid uid : Ident} {call : Call}

/-- The capabilities are among `caps`, and the only group is `gid`. -/
structure Confined (caps : Caps) (gid : Ident) (c : Creds) : Prop where
  permitted : IsSubset c.permitted caps
  effective : IsSubset c.effective caps
  gid_eq : c.gid = .all gid
  groups_eq : c.groups = [gid]

namespace Confined

/-- A capability that is not among `caps` cannot be used. -/
theorem not_capable (h : Confined caps gid c) {n : ℕ} (hn : caps.getLsbD n = false) :
    c.effective.getLsbD n = false := by
  rw [← Bool.not_eq_true] at hn ⊢
  exact fun hcap => hn (isSubset_iff.1 h.effective n hcap)

/-- The capabilities after the users have been set are among those before. -/
theorem fixSetuid (h : Confined caps gid c) (ids : Ids) : Confined caps gid (c.fixSetuid ids) := by
  have hpermitted : IsSubset (c.fixSetuid ids).permitted caps := by
    unfold Creds.fixSetuid
    dsimp only
    split_ifs
    · exact isSubset_zero caps
    · exact h.permitted
  refine ⟨hpermitted, ?_, h.gid_eq, h.groups_eq⟩
  unfold Creds.fixSetuid at hpermitted ⊢
  dsimp only at hpermitted ⊢
  split_ifs
  all_goals first | exact isSubset_zero caps | exact h.permitted | exact h.effective

/-- No call adds a capability to `caps`, or changes a group. -/
theorem exec (hgid : caps.getLsbD capSetgid = false) (h : Confined caps gid c)
    (hc : c.exec call = .ok c') : Confined caps gid c' := by
  have hnot := h.not_capable hgid
  cases call with
  | setKeepcaps on =>
    obtain rfl := Except.ok.inj hc
    exact ⟨h.permitted, h.effective, h.gid_eq, h.groups_eq⟩
  | setgroups groups =>
    obtain ⟨hcap, -⟩ := Creds.exec_setgroups_eq_ok.1 hc
    exact absurd (hnot.symm.trans hcap) (by simp)
  | setresgid r e s =>
    obtain ⟨hmay, rfl⟩ := Creds.exec_setresgid_eq_ok.1 hc
    rw [hnot, h.gid_eq] at hmay
    obtain ⟨hr, he, hs⟩ := hmay.resolve_left (by simp)
    refine ⟨h.permitted, h.effective, ?_, h.groups_eq⟩
    dsimp only
    rw [h.gid_eq, Ids.set_of_has hr he hs]
  | setresuid r e s =>
    obtain ⟨-, rfl⟩ := Creds.exec_setresuid_eq_ok.1 hc
    exact h.fixSetuid _
  | capset permitted effective inheritable =>
    obtain ⟨⟨-, -, hp, he⟩, rfl⟩ := Creds.exec_capset_eq_ok.1 hc
    exact ⟨hp.trans h.permitted, he.trans (hp.trans h.permitted), h.gid_eq, h.groups_eq⟩

/-- Nor does it change the user. -/
theorem exec_uid (hsetuid : caps.getLsbD capSetuid = false) (h : Confined caps gid c)
    (huid : c.uid = .all uid) (hc : c.exec call = .ok c') : c'.uid = .all uid := by
  cases call with
  | setKeepcaps on => exact Except.ok.inj hc ▸ huid
  | setgroups groups => exact (Creds.exec_setgroups_eq_ok.1 hc).2.2 ▸ huid
  | setresgid r e s => exact (Creds.exec_setresgid_eq_ok.1 hc).2 ▸ huid
  | setresuid r e s =>
    obtain ⟨hmay, rfl⟩ := Creds.exec_setresuid_eq_ok.1 hc
    rw [h.not_capable hsetuid, huid] at hmay
    obtain ⟨hr, he, hs⟩ := hmay.resolve_left (by simp)
    exact (congrArg (·.set r e s) huid).trans (Ids.set_of_has hr he hs)
  | capset permitted effective inheritable => exact (Creds.exec_capset_eq_ok.1 hc).2 ▸ huid

end Confined

namespace Creds

/-- What the calls that succeed keep, all sequences of calls keep. -/
theorem run_induction {P : Creds → Prop} (hexec : ∀ c c' call, P c → c.exec call = .ok c' → P c')
    (c : Creds) (h : P c) (calls : List Call) : P (c.run calls) := by
  induction calls generalizing c with
  | nil => exact h
  | cons call calls ih =>
    refine ih _ ?_
    unfold attempt
    cases hc : c.exec call with
    | error e => exact h
    | ok c' => exact hexec c c' call h hc

end Creds

/-- Whatever the process calls, it stays confined. -/
theorem Confined.run (hgid : caps.getLsbD capSetgid = false) (h : Confined caps gid c)
    (calls : List Call) : Confined caps gid (c.run calls) :=
  Creds.run_induction (fun _ _ _ h hc => h.exec hgid hc) c h calls

/-- Whatever it calls, the user stays the same. -/
theorem Confined.run_uid (hgid : caps.getLsbD capSetgid = false)
    (hsetuid : caps.getLsbD capSetuid = false) (h : Confined caps gid c) (huid : c.uid = .all uid)
    (calls : List Call) : (c.run calls).uid = .all uid :=
  (Creds.run_induction (P := fun c => Confined caps gid c ∧ c.uid = .all uid)
    (fun _ _ _ h hc => ⟨h.1.exec hgid hc, h.1.exec_uid hsetuid h.2 hc⟩) c ⟨h, huid⟩ calls).2

end Credentials
