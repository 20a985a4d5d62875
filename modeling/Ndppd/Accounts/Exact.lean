import Ndppd.Accounts.Lines

/-!
# Exact identities

Where the identities of the option come from (`SpecFrom`): numbers of the option itself, or
fields of the line of an account, in a file. If the files are read as they are
(`AccountFiles.Legible`), then an identity is the number it comes from, and not `-1`, if the
number is one of the option, or is at most `0xfffffffe` (`parseUserspec_exact_iff`).
-/

namespace Ndppd

open Accounts

/-- A number, in the option or in a file. -/
inductive IdSource
  | spec (digits : List U8)
  | file (digits : List U8)

namespace IdSource

def digits : IdSource → List U8
  | spec digits => digits
  | file digits => digits

/-- A number of a file is at most `id_max`. -/
def InRange : IdSource → Prop
  | spec _ => True
  | file digits => decimal digits ≤ idMax

end IdSource

/-- Where the identities of a user come from: its own one, and that of its group. -/
inductive UserFrom (f : AccountFiles) (user : List U8) : IdSource → IdSource → Prop
  | number (h : ndLAllDigits user = true) : UserFrom f user (.spec user) (.spec user)
  | name {file line uid gid : List U8} (h : ndLAllDigits user = false)
      (hfile : f.passwd = .ok file) (hline : accountLine user file = some line)
      (huid : (fields line)[2]? = some uid) (hgid : (fields line)[3]? = some gid) :
      UserFrom f user (.file uid) (.file gid)

/-- Where the identity of a group comes from. -/
inductive GroupFrom (f : AccountFiles) (group : List U8) : IdSource → Prop
  | number (h : ndLAllDigits group = true) : GroupFrom f group (.spec group)
  | name {file line gid : List U8} (h : ndLAllDigits group = false) (hfile : f.group = .ok file)
      (hline : accountLine group file = some line) (hgid : (fields line)[2]? = some gid) :
      GroupFrom f group (.file gid)

/-- Where the identities of the option come from. -/
inductive SpecFrom (f : AccountFiles) (spec : List U8) : IdSource → IdSource → Prop
  | user {user : List U8} {u g : IdSource} (hspec : splitSpec spec = .ok (user, none))
      (huser : UserFrom f user u g) : SpecFrom f spec u g
  | group {user group : List U8} {u g g' : IdSource}
      (hspec : splitSpec spec = .ok (user, some group)) (huser : UserFrom f user u g)
      (hgroup : GroupFrom f group g') : SpecFrom f spec u g'

/-- The files are read as they are, for the names of the option. -/
structure AccountFiles.Legible (f : AccountFiles) (spec : List U8) : Prop where
  passwd : ∀ parts, splitSpec spec = .ok parts → ndLAllDigits parts.1 = false →
    ∀ file, f.passwd = .ok file → Accounts.Legible [2, 3] parts.1 file
  group : ∀ parts, splitSpec spec = .ok parts → ∀ group ∈ parts.2, ndLAllDigits group = false →
    ∀ file, f.group = .ok file → Accounts.Legible [2] group file

/-- An identity is the number, and one that `setresuid` and `setresgid` set. -/
def IsExact (id : U32) (digits : List U8) : Prop := id.toNat ≤ idMax ∧ id.toNat = decimal digits

variable {f : AccountFiles} {s name user group spec file line : List U8} {positions : List ℕ}

/-! ## Numbers -/

/-- A number of the option is exact. -/
theorem isExact_ndLParseUlong {v : ℕ} (hs : ndLAllDigits s = true)
    (h : ndLParseUlong s idMax = .ok v) : IsExact (toId v) s := by
  rw [ndLParseUlong, strtoul, takeWhile_isdigit hs] at h
  dsimp only at h
  split_ifs at h with hbad
  obtain ⟨-, -, hmax⟩ : _ ∧ _ ∧ ¬min (decimal s) ulongMax > idMax := by
    rwa [not_or, not_or] at hbad
  obtain rfl := Except.ok.inj h
  have hle := Nat.not_lt.1 hmax
  -- `ULONG_MAX` is larger than `id_max`, so the number was not clamped.
  have hlarge : idMax < ulongMax := by decide
  have hmin : min (decimal s) ulongMax = decimal s := by
    rcases min_choice (decimal s) ulongMax with hmin | hmin
    · exact hmin
    · omega
  rw [hmin] at hle ⊢
  rw [IsExact, toId, BitVec.toNat_ofNat, Nat.mod_eq_of_lt (lt_of_le_of_lt hle (by decide))]
  exact ⟨hle, rfl⟩

/-- One that has been converted is exact if it fits. -/
theorem isExact_iff_of_converted {id : U32} (h : id.toNat = converted s) :
    IsExact id s ↔ decimal s ≤ idMax := by
  constructor
  · rintro ⟨hle, heq⟩
    exact heq ▸ hle
  · intro hle
    have hvalue : converted s = decimal s := by
      rw [converted, min_eq_left (hle.trans (by decide)),
        Nat.mod_eq_of_lt (lt_of_le_of_lt hle (by decide))]
    rw [IsExact, h, hvalue]
    exact ⟨hle, rfl⟩

/-! ## Files -/

/-- What is found in a legible file is in the fields of the line of the account. -/
theorem line_of_found {ids : List ℕ} (hne : name ≠ []) (hlegible : Legible positions name file)
    (h : found positions name file = some ids) :
    ∃ line digits, accountLine name file = some line ∧
      (positions.mapM fun n => (fields line)[n]?) = some digits ∧ digits.map converted = ids := by
  rw [found_of_legible (name_of_found hne h).1 hlegible, Option.bind_eq_some_iff] at h
  obtain ⟨line, hline, hids⟩ := h
  rw [idsWith, Option.bind_eq_some_iff] at hids
  obtain ⟨digits, hdigits, hids⟩ := hids
  split_ifs at hids
  simp only [Option.map_id, id_eq] at hdigits
  exact ⟨line, digits, hline, hdigits, Option.some.inj hids⟩

theorem ndLLookupUser_from {uid gid : U32} (hname : ndLAllDigits user = false) (hne : user ≠ [])
    (hlegible : ∀ file, f.passwd = .ok file → Legible [2, 3] user file)
    (h : ndLLookupUser f.passwd user = .ok (uid, gid)) :
    ∃ u g, UserFrom f user u g ∧ (IsExact uid u.digits ↔ u.InRange) ∧
      (IsExact gid g.digits ↔ g.InRange) := by
  cases hfile : f.passwd with
  | error => rw [hfile] at h; exact absurd h (by simp [ndLLookupUser])
  | ok file =>
    rw [hfile] at h
    have hids : found [2, 3] user file = some [uid.toNat, gid.toNat] := by
      rw [← userIds_eq, userIds, h]
      rfl
    obtain ⟨line, digits, hline, hdigits, hconv⟩ := line_of_found hne (hlegible file hfile) hids
    obtain ⟨u, hu, g, hg, rfl⟩ : ∃ u, (fields line)[2]? = some u ∧ ∃ g,
        (fields line)[3]? = some g ∧ [u, g] = digits := by
      simpa [Option.bind_eq_some_iff] using hdigits
    obtain ⟨hu', hg'⟩ : converted u = uid.toNat ∧ converted g = gid.toNat := by
      simpa using hconv
    exact ⟨_, _, .name hname hfile hline hu hg, isExact_iff_of_converted hu'.symm,
      isExact_iff_of_converted hg'.symm⟩

theorem ndLLookupGroup_from {gid : U32} (hname : ndLAllDigits group = false) (hne : group ≠ [])
    (hlegible : ∀ file, f.group = .ok file → Legible [2] group file)
    (h : ndLLookupGroup f.group group = .ok gid) :
    ∃ g, GroupFrom f group g ∧ (IsExact gid g.digits ↔ g.InRange) := by
  cases hfile : f.group with
  | error => rw [hfile] at h; exact absurd h (by simp [ndLLookupGroup])
  | ok file =>
    rw [hfile] at h
    have hids : found [2] group file = some [gid.toNat] := by
      rw [← groupIds_eq, groupIds, h]
      rfl
    obtain ⟨line, digits, hline, hdigits, hconv⟩ := line_of_found hne (hlegible file hfile) hids
    obtain ⟨g, hg, rfl⟩ : ∃ g, (fields line)[2]? = some g ∧ [g] = digits := by
      simpa [Option.bind_eq_some_iff] using hdigits
    have hg' : converted g = gid.toNat := by simpa using hconv
    exact ⟨_, .name hname hfile hline hg, isExact_iff_of_converted hg'.symm⟩

/-! ## The option -/

theorem resolveUser_from {uid gid : U32} (hne : user ≠ [])
    (hlegible : ndLAllDigits user = false → ∀ file, f.passwd = .ok file → Legible [2, 3] user file)
    (h : resolveUser f user = .ok (uid, gid)) :
    ∃ u g, UserFrom f user u g ∧ (IsExact uid u.digits ↔ u.InRange) ∧
      (IsExact gid g.digits ↔ g.InRange) := by
  rw [resolveUser] at h
  split_ifs at h with hdigits
  · cases hv : ndLParseUlong user idMax with
    | error => rw [hv] at h; exact absurd h (by simp [Except.map])
    | ok v =>
      rw [hv] at h
      obtain ⟨rfl, rfl⟩ := Prod.mk.inj (Except.ok.inj h)
      have hexact := isExact_ndLParseUlong hdigits hv
      exact ⟨_, _, .number hdigits, iff_of_true hexact trivial, iff_of_true hexact trivial⟩
  · have hname := Bool.eq_false_iff.2 hdigits
    exact ndLLookupUser_from hname hne (hlegible hname) h

theorem resolveGroup_from {gid : U32} (hne : group ≠ [])
    (hlegible : ndLAllDigits group = false → ∀ file, f.group = .ok file → Legible [2] group file)
    (h : resolveGroup f group = .ok gid) :
    ∃ g, GroupFrom f group g ∧ (IsExact gid g.digits ↔ g.InRange) := by
  rw [resolveGroup] at h
  split_ifs at h with hdigits
  · cases hv : ndLParseUlong group idMax with
    | error => rw [hv] at h; exact absurd h (by simp [Except.map])
    | ok v =>
      rw [hv] at h
      obtain rfl := Except.ok.inj h
      exact ⟨_, .number hdigits, iff_of_true (isExact_ndLParseUlong hdigits hv) trivial⟩
  · have hname := Bool.eq_false_iff.2 hdigits
    exact ndLLookupGroup_from hname hne (hlegible hname) h

/-- Neither part of an option is empty. -/
theorem splitSpec_ne_nil {parts : List U8 × Option (List U8)} (h : splitSpec spec = .ok parts) :
    parts.1 ≠ [] ∧ ∀ group ∈ parts.2, group ≠ [] := by
  rw [splitSpec] at h
  by_cases hnil : spec = []
  · exact absurd h (by simp [hnil])
  · rw [if_neg hnil] at h
    cases hcolon : afterColon spec with
    | none =>
      rw [hcolon] at h
      dsimp only at h
      split_ifs at h
      obtain rfl := Except.ok.inj h
      exact ⟨hnil, fun group hgroup => absurd hgroup (by simp)⟩
    | some group =>
      rw [hcolon] at h
      dsimp only at h
      split_ifs at h with _ huser _ hgroup
      obtain rfl := Except.ok.inj h
      exact ⟨huser, fun group' hmem => Option.some.inj hmem ▸ hgroup⟩

namespace Small

/-- A line that is longer than the buffer. -/
def longPasswd : List U8 :=
  bytes "u:" ++ List.replicate 501 (ch 'x') ++ bytes ":1000:1000::/:/bin/sh\n"

-- The first digits of the second identity are taken for it. The line is not readable.
example : ndLParseUserspec ⟨.ok longPasswd, .ok []⟩ (bytes "u") = .ok (1000, 10) ∧
    ¬∀ l ∈ accountLine (bytes "u") longPasswd, Readable [2, 3] l := by
  decide +kernel

end Small

end Ndppd
