import Mathlib.Algebra.Order.Ring.Int
import Mathlib.Data.List.DropRight
import Ndppd.Parse

/-!
# Accounts

The user and the group that the daemon drops its privileges to (`ndppd.c`). The option
`-u user[:group]` has a number or a name on each side of the colon. Names are looked up in
`/etc/passwd` and `/etc/group` by functions of the daemon itself, which read these files in
pieces of at most 511 bytes (`fgets`).

A number of the option is checked against the largest identity, `0xfffffffe`. One of a file
is not: it is converted. How the lookups relate to the lines of the files is the subject of
`Ndppd.Accounts.Lines`, and that of the identities to the numbers of `Ndppd.Accounts.Exact`.
-/

namespace Ndppd

/-! ## Numbers -/

def ndLAllDigits (s : List U8) : Bool := !s.isEmpty && s.all isdigit

/-- `ULONG_MAX`. -/
def ulongMax : ℕ := 2 ^ 64 - 1

/-- What `strtoul(s, &end, 10)` returns, whether it sets `errno` to `ERANGE`, and what `end`
    points to. -/
structure Strtoul where
  value : ℕ
  erange : Bool
  rest : List U8

/-- `strtoul`, for a string that does not start with a blank or a sign. -/
def strtoul (s : List U8) : Strtoul :=
  let digits := s.takeWhile isdigit
  { value := min (decimal digits) ulongMax
    erange := decimal digits > ulongMax
    rest := s.drop digits.length }

/-- The conversion to `uid_t` or `gid_t`. -/
def toId (v : ℕ) : U32 := BitVec.ofNat 32 v

def ndLParseUlong (s : List U8) (max : ℕ) : Except String ℕ :=
  let v := strtoul s
  if v.rest ≠ [] ∨ (v.value = ulongMax ∧ v.erange) ∨ v.value > max then
    .error (quoted "Numeric ID" s ++ " out of range (max " ++ toString max ++ ")")
  else .ok v.value

/-! ## Records -/

/-- What follows the first colon: `strchr(s, ':')`, plus one. -/
def afterColon (s : List U8) : Option (List U8) :=
  match s.dropWhile (· != ch ':') with
  | [] => none
  | _ :: t => some t

/-- Where the field `n` starts. -/
def fieldStart : ℕ → List U8 → Option (List U8)
  | 0, s => some s
  | n + 1, s => (afterColon s).bind (fieldStart n)

/-- What is left of a field without the newlines and carriage returns at its end. -/
def trimmed (field : List U8) : List U8 :=
  field.rdropWhile fun c => c == ch '\n' || c == ch '\r'

/-- `ndL_split_field`: the string in a buffer of `outSize` bytes. -/
def ndLSplitField (line : List U8) (n outSize : ℕ) : Option (List U8) :=
  (fieldStart n line).bind fun start =>
    let field := trimmed (start.takeWhile (· != ch ':'))
    if field.length ≥ outSize then none else some field

/-- `fgets`: the bytes that are read, at most `room`, and the rest of the file. -/
def fgets : ℕ → List U8 → List U8 × List U8
  | 0, fp => ([], fp)
  | _ + 1, [] => ([], [])
  | room + 1, c :: fp =>
    if c = ch '\n' then ([c], fp)
    else
      let (line, fp) := fgets room fp
      (c :: line, fp)

/-- The identities of a record, in the fields at `positions`: unless they are missing, too
    long, or no numbers. -/
def recordIds (positions : List ℕ) (line : List U8) : Option (List (List U8)) :=
  match positions.mapM fun n => ndLSplitField line n 32 with
  | none => none
  | some ids => if ids.all ndLAllDigits then some ids else none

/-- The body of the loops of `ndL_lookup_user` and `ndL_lookup_group`: `none` is `continue`,
    and `some none` is `break`. -/
def lookupLine (positions : List ℕ) (name line : List U8) : Option (Option (List (List U8))) :=
  match ndLSplitField line 0 128 with
  | none => none
  | some field => if field ≠ name then none else some (recordIds positions line)

/-- The loops: the identities that they find, as they stand in the file. -/
def lookupLoop (positions : List ℕ) (name : List U8) : ℕ → List U8 → Option (List (List U8))
  | 0, _ => none
  | rounds + 1, fp =>
    let (line, fp) := fgets 511 fp
    if line = [] then none
    else
      match lookupLine positions name (cString line) with
      | none => lookupLoop positions name rounds fp
      | some found => found

def lookup (positions : List ℕ) (name file : List U8) : Option (List (List U8)) :=
  lookupLoop positions name (file.length + 1) file

/-- The conversion of an identity of a file: `(uid_t)strtoul(s, NULL, 10)`. -/
def fileId (s : List U8) : U32 := toId (strtoul s).value

/-- The two files, or why they cannot be opened (`strerror(errno)`). -/
structure AccountFiles where
  passwd : Except String (List U8)
  group : Except String (List U8)

def ndLLookupUser (passwd : Except String (List U8)) (name : List U8) :
    Except String (U32 × U32) :=
  match passwd with
  | .error errno => .error ("Failed to open /etc/passwd: " ++ errno)
  | .ok file =>
    match lookup [2, 3] name file with
    | some [uid, gid] => .ok (fileId uid, fileId gid)
    | _ => .error (quoted "User" name ++ " not found in /etc/passwd")

def ndLLookupGroup (group : Except String (List U8)) (name : List U8) : Except String U32 :=
  match group with
  | .error errno => .error ("Failed to open /etc/group: " ++ errno)
  | .ok file =>
    match lookup [2] name file with
    | some [gid] => .ok (fileId gid)
    | _ => .error (quoted "Group" name ++ " not found in /etc/group")

/-! ## The option -/

/-- `id_max`. -/
def idMax : ℕ := 0xfffffffe

/-- The user and the group of the option. -/
def splitSpec (spec : List U8) : Except String (List U8 × Option (List U8)) :=
  if spec = [] then .error "Empty --user spec"
  else
    match afterColon spec with
    | some group =>
      let user := spec.takeWhile (· != ch ':')
      if (afterColon group).isSome then
        .error (quoted "Invalid --user spec" spec ++ ": more than one ':' separator")
      else if user = [] then
        .error (quoted "Invalid --user spec" spec ++ ": empty user before ':'")
      else if user.length ≥ 128 then .error (quoted "--user name too long:" spec)
      else if group = [] then
        .error (quoted "Invalid --user spec" spec ++ ": empty group after ':'")
      else .ok (user, some group)
    | none =>
      if spec.length ≥ 128 then .error (quoted "--user name too long:" spec) else .ok (spec, none)

/-- The identities of the user: its own one, and the group if the option has none. -/
def resolveUser (f : AccountFiles) (user : List U8) : Except String (U32 × U32) :=
  if ndLAllDigits user then (ndLParseUlong user idMax).map fun v => (toId v, toId v)
  else ndLLookupUser f.passwd user

def resolveGroup (f : AccountFiles) (group : List U8) : Except String U32 :=
  if ndLAllDigits group then (ndLParseUlong group idMax).map toId
  else ndLLookupGroup f.group group

def ndLParseUserspec (f : AccountFiles) (spec : List U8) : Except String (U32 × U32) := do
  let (user, group) ← splitSpec spec
  let (uid, gid) ← resolveUser f user
  match group with
  | none => pure (uid, gid)
  | some group => pure (uid, ← resolveGroup f group)

/-! ## What the loops find -/

variable {s name : List U8} {positions : List ℕ}

theorem takeWhile_isdigit (h : ndLAllDigits s = true) : s.takeWhile isdigit = s := by
  refine List.takeWhile_eq_self_iff.2 fun c hc => ?_
  exact List.all_eq_true.1 (Bool.and_eq_true_iff.1 h).2 c hc

theorem lookupLine_eq (positions : List ℕ) (name line : List U8) : lookupLine positions name line =
    if ndLSplitField line 0 128 = some name then some (recordIds positions line) else none := by
  rw [lookupLine]
  cases ndLSplitField line 0 128 with
  | none => rfl
  | some field => simp only [ne_eq, ite_not, Option.some_inj]

/-- What the loops find is in a string that `fgets` reads, and whose first field is the name. -/
theorem lookupLoop_eq_some {rounds : ℕ} {fp : List U8} {ids : List (List U8)}
    (h : lookupLoop positions name rounds fp = some ids) :
    ∃ fp₁ line fp₂, fgets 511 fp₁ = (line, fp₂) ∧
      ndLSplitField (cString line) 0 128 = some name ∧
      recordIds positions (cString line) = some ids := by
  induction rounds generalizing fp with
  | zero => exact absurd h (by simp [lookupLoop])
  | succ rounds ih =>
    obtain ⟨line, fp', hread⟩ : ∃ line fp', fgets 511 fp = (line, fp') := ⟨_, _, rfl⟩
    rw [lookupLoop, hread] at h
    dsimp only at h
    split_ifs at h
    rw [lookupLine_eq] at h
    by_cases hname : ndLSplitField (cString line) 0 128 = some name
    · rw [if_pos hname] at h
      exact ⟨fp, line, fp', hread, hname, h⟩
    · rw [if_neg hname] at h
      exact ih h

/-- The identities of a record are numbers, in their fields. -/
theorem recordIds_eq_some {line : List U8} {ids : List (List U8)}
    (h : recordIds positions line = some ids) :
    (positions.mapM fun n => ndLSplitField line n 32) = some ids ∧
      ∀ id ∈ ids, ndLAllDigits id = true := by
  rw [recordIds] at h
  cases hmap : positions.mapM fun n => ndLSplitField line n 32 with
  | none => rw [hmap] at h; exact absurd h (by simp)
  | some ids' =>
    rw [hmap] at h
    dsimp only at h
    split_ifs at h with hall
    obtain rfl := Option.some.inj h
    exact ⟨rfl, List.all_eq_true.1 hall⟩

namespace Small

def passwd : List U8 :=
  bytes "root:x:0:0:root:/root:/bin/sh\nnobody:x:65534:65534::/:/bin/false\n"

def accounts : AccountFiles where
  passwd := .ok passwd
  group := .ok (bytes "root:x:0:\nnogroup:x:65533:\n")

/-- A user with the identity `4294967295`. -/
def minusOne : AccountFiles where
  passwd := .ok (bytes "nobody:x:4294967295:100::/:/bin/false\n")
  group := .ok []

end Small

end Ndppd
