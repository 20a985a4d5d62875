import Ndppd.Accounts
import Ndppd.Lib.Credentials

/-!
# Dropping the privileges

With `--user` the daemon leaves the identity it was started with, once its sockets are open
(`ndLDropPrivileges`): it keeps its capabilities over the change of the user, sets its groups and
its user, and lowers the capabilities to the two it still needs.

Started by the superuser, this succeeds for each user but the superuser itself, unless the group
is `(gid_t)-1` (`Privileged.ndLDropPrivileges_iff`). What matters is that it is for good: once it
has succeeded, no calls of the process bring back a group or a capability
(`ndLDropPrivileges_confined`), nor the user, except that the user `(uid_t)-1` of a file of
accounts passes the check for the superuser and changes nothing.
-/

namespace Ndppd

open Credentials

def strerror : Refusal → String
  | .eperm => "Operation not permitted"
  | .einval => "Invalid argument"

def capNetAdmin : ℕ := 12

def capNetRaw : ℕ := 13

/-- The capabilities that are kept. -/
def keptCaps : Caps := 1 <<< capNetRaw ||| 1 <<< capNetAdmin

/-- A call with the message for its failure. The kernel may deny any call. -/
def syscall (deny : Call → Option Refusal) (name : String) (call : Call) (c : Creds) :
    Except String Creds :=
  match deny call with
  | some errno => .error (name ++ ": " ++ strerror errno)
  | none => (c.exec call).mapError fun errno => name ++ ": " ++ strerror errno

def ndLDropPrivileges (f : AccountFiles) (deny : Call → Option Refusal) (userspec : List U8)
    (c : Creds) : Except String Creds := do
  let (uid, gid) ← ndLParseUserspec f userspec
  if uid = 0 then
    .error "Refusing to drop privileges to uid 0"
  else
    let c ← syscall deny "prctl(PR_SET_KEEPCAPS)" (.setKeepcaps true) c
    let c ← syscall deny "setgroups" (.setgroups [gid]) c
    let c ← syscall deny "setresgid" (.setresgid gid gid gid) c
    let c ← syscall deny "setresuid" (.setresuid uid uid uid) c
    syscall deny "capset" (.capset keptCaps keptCaps 0) c

variable {f : AccountFiles} {deny : Call → Option Refusal} {userspec : List U8} {name : String}
  {call : Call} {c c' : Creds} {uid gid : U32}

theorem syscall_ok (h : syscall deny name call c = .ok c') : c.exec call = .ok c' := by
  unfold syscall at h
  cases hd : deny call with
  | some errno => simp [hd] at h
  | none =>
    rw [hd] at h
    cases hc : c.exec call with
    | error errno => simp [hc, Except.mapError] at h
    | ok c'' => simpa [hc, Except.mapError] using h

theorem syscall_of_exec (hd : deny call = none) (h : c.exec call = .ok c') :
    syscall deny name call c = .ok c' := by
  simp [syscall, hd, h, Except.mapError]

theorem except_bind_eq_ok {α β : Type} {x : Except String α} {g : α → Except String β} {b : β} :
    x >>= g = .ok b ↔ ∃ a, x = .ok a ∧ g a = .ok b := by
  cases x <;> simp [bind, Except.bind]

/-- The calls of `ndL_drop_privileges`, when all of them succeed. -/
structure Dropped (uid gid : U32) (c c' : Creds) : Prop where
  uid_ne : uid ≠ 0
  calls : ∃ c₁ c₂ c₃, { c with keepCaps := true }.exec (.setgroups [gid]) = .ok c₁ ∧
    c₁.exec (.setresgid gid gid gid) = .ok c₂ ∧ c₂.exec (.setresuid uid uid uid) = .ok c₃ ∧
    c₃.exec (.capset keptCaps keptCaps 0) = .ok c'

theorem ndLDropPrivileges_dropped (h : ndLDropPrivileges f deny userspec c = .ok c') :
    ∃ uid gid, ndLParseUserspec f userspec = .ok (uid, gid) ∧ Dropped uid gid c c' := by
  obtain ⟨⟨uid, gid⟩, hparse, hthen⟩ := except_bind_eq_ok.1 h
  refine ⟨uid, gid, hparse, ?_⟩
  dsimp only at hthen
  split_ifs at hthen with huid
  obtain ⟨c₀, h₀, hthen⟩ := except_bind_eq_ok.1 hthen
  obtain rfl := Except.ok.inj (syscall_ok h₀)
  obtain ⟨c₁, h₁, hthen⟩ := except_bind_eq_ok.1 hthen
  obtain ⟨c₂, h₂, hthen⟩ := except_bind_eq_ok.1 hthen
  obtain ⟨c₃, h₃, h₄⟩ := except_bind_eq_ok.1 hthen
  exact ⟨huid, c₁, c₂, c₃, syscall_ok h₁, syscall_ok h₂, syscall_ok h₃, syscall_ok h₄⟩

theorem Dropped.ndLDropPrivileges (hdeny : ∀ call, deny call = none)
    (hparse : ndLParseUserspec f userspec = .ok (uid, gid)) (h : Dropped uid gid c c') :
    Ndppd.ndLDropPrivileges f deny userspec c = .ok c' := by
  obtain ⟨c₁, c₂, c₃, h₁, h₂, h₃, h₄⟩ := h.calls
  refine except_bind_eq_ok.2 ⟨_, hparse, ?_⟩
  dsimp only
  rw [if_neg h.uid_ne]
  refine except_bind_eq_ok.2 ⟨_, syscall_of_exec (hdeny _) rfl, ?_⟩
  refine except_bind_eq_ok.2 ⟨_, syscall_of_exec (hdeny _) h₁, ?_⟩
  refine except_bind_eq_ok.2 ⟨_, syscall_of_exec (hdeny _) h₂, ?_⟩
  refine except_bind_eq_ok.2 ⟨_, syscall_of_exec (hdeny _) h₃, ?_⟩
  exact syscall_of_exec (hdeny _) h₄

/-- Where the calls lead to. -/
theorem Dropped.eq (h : Dropped uid gid c c') : gid ≠ noChange ∧
    c' = { uid := c.uid.set uid uid uid, gid := .all gid, groups := [gid], permitted := keptCaps,
           effective := keptCaps, inheritable := 0, ambient := 0, bounding := c.bounding,
           keepCaps := true } := by
  obtain ⟨c₁, c₂, c₃, h₁, h₂, h₃, h₄⟩ := h.calls
  obtain ⟨-, hmem, rfl⟩ := Creds.exec_setgroups_eq_ok.1 h₁
  obtain ⟨-, rfl⟩ := Creds.exec_setresgid_eq_ok.1 h₂
  obtain ⟨-, rfl⟩ := Creds.exec_setresuid_eq_ok.1 h₃
  obtain ⟨-, rfl⟩ := Creds.exec_capset_eq_ok.1 h₄
  have hgid : gid ≠ noChange := fun heq => hmem (by simp [heq])
  exact ⟨hgid, by simp [Creds.fixSetuid, Ids.set_all _ hgid]⟩

theorem Dropped.confined (h : Dropped uid gid c c') : Confined keptCaps gid c' := by
  obtain ⟨-, rfl⟩ := h.eq
  exact ⟨.refl _, .refl _, rfl, rfl⟩

/-- Once the privileges have been dropped, no calls bring them back: the capabilities are among
    the two that are kept, the groups are those of the option, and so is the user, unless it is
    `(uid_t)-1`. Then the process has the users that it had before. -/
theorem ndLDropPrivileges_confined (h : ndLDropPrivileges f deny userspec c = .ok c') :
    ∃ uid gid, ndLParseUserspec f userspec = .ok (uid, gid) ∧ uid ≠ 0 ∧
      (∀ calls, Confined keptCaps gid (c'.run calls)) ∧
      (uid ≠ noChange → ∀ calls, (c'.run calls).uid = .all uid) ∧
      (uid = noChange → c'.uid = c.uid) := by
  obtain ⟨uid, gid, hparse, hdropped⟩ := ndLDropPrivileges_dropped h
  have hconfined := hdropped.confined
  obtain ⟨-, rfl⟩ := hdropped.eq
  refine ⟨uid, gid, hparse, hdropped.uid_ne, fun calls => hconfined.run (by decide) calls, ?_, ?_⟩
  · intro huid calls
    exact hconfined.run_uid (by decide) (by decide) (Ids.set_all _ huid) calls
  · rintro rfl
    exact Ids.set_noChange _

namespace Small

/-- A superuser, with all capabilities. -/
def root : Creds where
  uid := .all 0
  gid := .all 0
  groups := [0]
  permitted := BitVec.allOnes 64
  effective := BitVec.allOnes 64
  inheritable := 0
  ambient := 0
  bounding := BitVec.allOnes 64
  keepCaps := false

/-- `root` after `--user nobody:nogroup`. -/
def nobody : Creds where
  uid := .all 65534
  gid := .all 65533
  groups := [65533]
  permitted := keptCaps
  effective := keptCaps
  inheritable := 0
  ambient := 0
  bounding := BitVec.allOnes 64
  keepCaps := true

theorem nobody_confined :
    ndLDropPrivileges accounts (fun _ => none) (bytes "nobody:nogroup") root = .ok nobody ∧
      ∃ uid gid, ndLParseUserspec accounts (bytes "nobody:nogroup") = .ok (uid, gid) ∧ uid ≠ 0 ∧
        (∀ calls, Confined keptCaps gid (nobody.run calls)) ∧
        (uid ≠ noChange → ∀ calls, (nobody.run calls).uid = .all uid) ∧
        (uid = noChange → nobody.uid = root.uid) := by
  have h : ndLDropPrivileges accounts (fun _ => none) (bytes "nobody:nogroup") root =
      .ok nobody := by decide +kernel
  exact ⟨h, ndLDropPrivileges_confined h⟩

/-- With the user `4294967295` the superuser stays what it is. -/
example : (ndLDropPrivileges minusOne (fun _ => none) (bytes "nobody") root).toOption.map (·.uid) =
    some (.all 0) := by decide +kernel

end Small

/-- What the superuser has, of that what the calls ask for. -/
structure Privileged (c : Creds) : Prop where
  setgid : c.effective.getLsbD capSetgid = true
  setuid : c.effective.getLsbD capSetuid = true
  permitted : IsSubset keptCaps c.permitted

/-- The calls succeed. Without `PR_SET_KEEPCAPS` the last one would not: the capabilities of the
    superuser would be gone. -/
theorem Privileged.dropped (hc : Privileged c) (huid : uid ≠ 0) (hgid : gid ≠ noChange) :
    ∃ c', Dropped uid gid c c' := by
  refine ⟨_, huid, _, _, _, Creds.exec_setgroups_eq_ok.2 ⟨hc.setgid, ?_, rfl⟩,
    Creds.exec_setresgid_eq_ok.2 ⟨.inl hc.setgid, rfl⟩,
    Creds.exec_setresuid_eq_ok.2 ⟨.inl hc.setuid, rfl⟩,
    Creds.exec_capset_eq_ok.2
      ⟨⟨.inr (isSubset_zero _), isSubset_zero _, ?_, .refl _⟩, rfl⟩⟩
  · simpa using hgid.symm
  · simpa [Creds.fixSetuid] using hc.permitted

/-- With the privileges to do so, and unless the kernel denies a call, dropping them succeeds just
    for the users that are not `0`, with a group that is not `(gid_t)-1`. -/
theorem Privileged.ndLDropPrivileges_iff (hc : Privileged c) (hdeny : ∀ call, deny call = none) :
    (∃ c', ndLDropPrivileges f deny userspec c = .ok c') ↔
      ∃ uid gid, ndLParseUserspec f userspec = .ok (uid, gid) ∧ uid ≠ 0 ∧ gid ≠ noChange := by
  constructor
  · rintro ⟨c', h⟩
    obtain ⟨uid, gid, hparse, hdropped⟩ := ndLDropPrivileges_dropped h
    exact ⟨uid, gid, hparse, hdropped.uid_ne, hdropped.eq.1⟩
  · rintro ⟨uid, gid, hparse, huid, hgid⟩
    obtain ⟨c', hdropped⟩ := hc.dropped huid hgid
    exact ⟨c', hdropped.ndLDropPrivileges hdeny hparse⟩

end Ndppd
