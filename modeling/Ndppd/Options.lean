import Ndppd.Validity

/-!
# The options of a solicitation

The loop of `ndL_handle_ns` reads the options one after the other, until one has no
length, one is truncated, or less than eight bytes are left. What it finds is said
here of the bytes themselves: an area is, in one way only, a sequence of complete
options and a rest in which no complete option starts (`Tiling`,
`Tiling.exists_tiling`, `Tiling.unique`), and the loop gives the address of the last source
link-layer address option of the sequence, unless the rest has a length of zero
(`Tiling.nsOptions_eq`).

`handleNs_sourceLl` is the result for a solicitation: the rest decides nothing but
whether the message is discarded.
-/

namespace Ndppd

/-! ## Complete options -/

/-- An option with all its bytes: its type, its length in units of eight bytes, and the
    bytes that follow. Its length is not zero. -/
structure CompleteOption where
  type : U8
  len : U8
  data : List U8
  length_data : data.length + 2 = len.toNat * 8

namespace CompleteOption

variable (o : CompleteOption) {o' : CompleteOption} {more more' area : List U8}

def bytes : List U8 := o.type :: o.len :: o.data

/-- A source link-layer address option of length 1. -/
def isSource : Bool := o.type = 1 ∧ o.len.toNat = 1

/-- The six bytes after the length. -/
def lladdr : LlAddr := lladdrAt o.data 0

theorem length_bytes : o.bytes.length = o.len.toNat * 8 := o.length_data

theorem le_length_bytes : 8 ≤ o.bytes.length := by
  have := o.length_data
  rw [length_bytes]
  omega

theorem drop_append : (o.bytes ++ more).drop (o.len.toNat * 8) = more :=
  List.drop_left' o.length_bytes

/-- The bytes say where an option ends. -/
theorem bytes_append_inj (h : o.bytes ++ more = o'.bytes ++ more') : o = o' ∧ more = more' := by
  obtain ⟨type, len, data, hdata⟩ := o
  obtain ⟨type', len', data', hdata'⟩ := o'
  simp only [bytes, List.cons_append, List.cons.injEq] at h
  obtain ⟨rfl, rfl, htail⟩ := h
  obtain ⟨rfl, rfl⟩ := List.append_inj htail (by omega)
  exact ⟨rfl, rfl⟩

/-- When an area starts with a complete option. -/
theorem exists_append_iff : (∃ o : CompleteOption, ∃ more, area = o.bytes ++ more) ↔
    8 ≤ area.length ∧ (area.getD 1 0).toNat ≠ 0 ∧ (area.getD 1 0).toNat * 8 ≤ area.length := by
  constructor
  · rintro ⟨o, more, rfl⟩
    have hlen : ((o.bytes ++ more).getD 1 0).toNat = o.len.toNat := rfl
    have hbytes := o.length_bytes
    have hmin := o.le_length_bytes
    rw [List.length_append, hlen]
    omega
  · rintro ⟨hmin, hne, hroom⟩
    match area, hmin with
    | type :: len :: tail, _ =>
      have hlen : (type :: len :: tail).getD 1 0 = len := rfl
      rw [hlen] at hne hroom
      simp only [List.length_cons] at hroom
      refine ⟨⟨type, len, tail.take (len.toNat * 8 - 2), ?_⟩, tail.drop (len.toNat * 8 - 2), ?_⟩
      · rw [List.length_take]
        omega
      · simp [bytes]

theorem lladdrAt_append (h : o.isSource = true) : lladdrAt (o.bytes ++ more) 2 = o.lladdr := by
  have hlen : o.len.toNat = 1 := (of_decide_eq_true h).2
  have hdata : o.data.length = 6 := by
    have := o.length_data
    omega
  have htail : (o.bytes ++ more).drop 2 = o.data ++ more := rfl
  rw [lladdr, lladdrAt, lladdrAt, htail, List.drop_zero, List.take_append_of_le_length hdata.ge]

end CompleteOption

open CompleteOption

/-- The address in the last source link-layer address option. -/
def sourceLl (os : List CompleteOption) : Option LlAddr :=
  (os.filter isSource).getLast?.map lladdr

/-- An area, as a sequence of complete options that cannot be made longer, and a rest. -/
structure Tiling (area : List U8) (os : List CompleteOption) (rest : List U8) : Prop where
  eq : area = os.flatMap CompleteOption.bytes ++ rest
  maximal : ∀ o : CompleteOption, ∀ more, rest ≠ o.bytes ++ more

/-- The walk meets a length of zero, with at least eight bytes left. -/
def ZeroLength (rest : List U8) : Prop := 8 ≤ rest.length ∧ rest.getD 1 0 = 0

instance (rest : List U8) : Decidable (ZeroLength rest) := inferInstanceAs (Decidable (_ ∧ _))

namespace Tiling

variable {area rest rest' : List U8} {os os' : List CompleteOption}

theorem nil_iff : Tiling rest [] rest ↔ ∀ o : CompleteOption, ∀ more, rest ≠ o.bytes ++ more :=
  ⟨maximal, fun h => ⟨rfl, h⟩⟩

theorem cons_iff {o : CompleteOption} :
    Tiling area (o :: os) rest ↔ ∃ more, area = o.bytes ++ more ∧ Tiling more os rest := by
  constructor
  · rintro ⟨heq, hmax⟩
    rw [List.flatMap_cons, List.append_assoc] at heq
    exact ⟨_, heq, rfl, hmax⟩
  · rintro ⟨more, rfl, rfl, hmax⟩
    exact ⟨by rw [List.flatMap_cons, List.append_assoc], hmax⟩

theorem exists_tiling (area : List U8) : ∃ os rest, Tiling area os rest := by
  -- Every complete option is at least eight bytes.
  induction hn : area.length using Nat.strongRecOn generalizing area with
  | ind n ih =>
    by_cases hstart : ∃ o : CompleteOption, ∃ more, area = o.bytes ++ more
    · obtain ⟨o, more, rfl⟩ := hstart
      have hmin := o.le_length_bytes
      rw [List.length_append] at hn
      obtain ⟨os, rest, h⟩ := ih more.length (by omega) more rfl
      exact ⟨o :: os, rest, cons_iff.2 ⟨more, rfl, h⟩⟩
    · exact ⟨[], area, nil_iff.2 fun o more heq => hstart ⟨o, more, heq⟩⟩

theorem unique (h : Tiling area os rest) (h' : Tiling area os' rest') :
    os = os' ∧ rest = rest' := by
  induction os generalizing area os' with
  | nil =>
    cases os' with
    | nil => exact ⟨rfl, h.eq.symm.trans h'.eq⟩
    | cons o' os' =>
      obtain ⟨more, heq, -⟩ := cons_iff.1 h'
      exact absurd (h.eq.symm.trans heq) (h.maximal o' more)
  | cons o os ih =>
    obtain ⟨more, heq, hmore⟩ := cons_iff.1 h
    cases os' with
    | nil => exact absurd (h'.eq.symm.trans heq) (h'.maximal o more)
    | cons o' os' =>
      obtain ⟨more', heq', hmore'⟩ := cons_iff.1 h'
      obtain ⟨rfl, rfl⟩ := o.bytes_append_inj (heq.symm.trans heq')
      obtain ⟨rfl, rfl⟩ := ih hmore hmore'
      exact ⟨rfl, rfl⟩

end Tiling

/-! ## The walk -/

/-- A round of the loop, on a complete option. -/
theorem nsOptions_bytes_append (n : ℕ) (o : CompleteOption) (more : List U8)
    (srcLl : Option LlAddr) : nsOptions (n + 1) (o.bytes ++ more) srcLl =
      nsOptions n more (if o.isSource then some o.lladdr else srcLl) := by
  obtain ⟨hmin, hne, hroom⟩ := exists_append_iff.1 ⟨o, more, rfl⟩
  have htype : (o.bytes ++ more).getD 0 0 = o.type := rfl
  have hlen : (o.bytes ++ more).getD 1 0 = o.len := rfl
  rw [hlen] at hne hroom
  simp only [nsOptions, htype, hlen, o.drop_append]
  rw [if_neg (by omega), if_neg hne, if_neg (by omega)]
  by_cases hsource : o.isSource = true
  · rw [if_pos (of_decide_eq_true hsource), if_pos hsource, o.lladdrAt_append hsource]
  · rw [if_neg fun h => hsource (decide_eq_true h), if_neg hsource]

/-- The end of the loop, where no complete option starts. -/
theorem nsOptions_rest {n : ℕ} {rest : List U8} (hn : rest.length ≤ n)
    (hmax : ∀ o : CompleteOption, ∀ more, rest ≠ o.bytes ++ more) (srcLl : Option LlAddr) :
    nsOptions n rest srcLl = if ZeroLength rest then none else some srcLl := by
  have hstart : ¬(8 ≤ rest.length ∧ (rest.getD 1 0).toNat ≠ 0 ∧
      (rest.getD 1 0).toNat * 8 ≤ rest.length) :=
    fun h => have ⟨o, more, heq⟩ := exists_append_iff.2 h; hmax o more heq
  by_cases hshort : rest.length < 8
  · rw [if_neg fun h => not_lt.2 h.1 hshort]
    cases n with
    | zero => rfl
    | succ n => rw [nsOptions, if_pos hshort]
  obtain ⟨n, rfl⟩ : ∃ k, n = k + 1 := ⟨n - 1, by omega⟩
  simp only [nsOptions, if_neg hshort]
  by_cases hzero : rest.getD 1 0 = 0
  · have heq : (rest.getD 1 0).toNat = 0 := congrArg BitVec.toNat hzero
    rw [if_pos heq, if_pos ⟨not_lt.1 hshort, hzero⟩]
  · have hne : (rest.getD 1 0).toNat ≠ 0 := fun h => hzero (BitVec.eq_of_toNat_eq h)
    have hlong : (rest.getD 1 0).toNat * 8 > rest.length := by
      by_contra hle
      exact hstart ⟨not_lt.1 hshort, hne, not_lt.1 hle⟩
    rw [if_neg hne, if_pos hlong, if_neg fun h => hzero h.2]

theorem sourceLl_cons (o : CompleteOption) (os : List CompleteOption) :
    sourceLl (o :: os) = (sourceLl os).or (if o.isSource then some o.lladdr else none) := by
  rw [sourceLl, sourceLl]
  by_cases hsource : o.isSource = true
  · rw [List.filter_cons_of_pos hsource, if_pos hsource, List.getLast?_cons]
    cases (os.filter isSource).getLast? <;> rfl
  · rw [List.filter_cons_of_neg hsource, if_neg hsource, Option.or_none]

/-- What the loop gives: the last address, unless there is a length of zero. -/
theorem Tiling.nsOptions_eq {area rest : List U8} {os : List CompleteOption}
    (h : Tiling area os rest) {n : ℕ} (hn : area.length ≤ n) (srcLl : Option LlAddr) :
    nsOptions n area srcLl =
      if ZeroLength rest then none else some ((sourceLl os).or srcLl) := by
  induction os generalizing area n srcLl with
  | nil =>
    have heq : area = rest := h.eq
    rw [heq, nsOptions_rest (heq ▸ hn) h.maximal]
    rfl
  | cons o os ih =>
    obtain ⟨more, rfl, hmore⟩ := cons_iff.1 h
    have hmin := o.le_length_bytes
    rw [List.length_append] at hn
    obtain ⟨n, rfl⟩ : ∃ k, n = k + 1 := ⟨n - 1, by omega⟩
    rw [nsOptions_bytes_append, ih hmore (by omega), sourceLl_cons, Option.or_assoc]
    congr 3
    split_ifs <;> rfl

/-- There are enough rounds. -/
theorem nsOptions_of_le {opts : List U8} {n : ℕ} (hn : opts.length ≤ n) (srcLl : Option LlAddr) :
    nsOptions n opts srcLl = nsOptions opts.length opts srcLl := by
  obtain ⟨os, rest, h⟩ := Tiling.exists_tiling opts
  rw [h.nsOptions_eq hn, h.nsOptions_eq (le_refl _)]

/-! ## Solicitations -/

section Solicitation

variable {bo : ByteOrder} {src : Addr} {icmp icmp' : List U8} {ethSrc : LlAddr}
  {os : List CompleteOption} {rest rest' : List U8}

/-- What `ndL_handle_ns` reads in a solicitation that has a source. -/
theorem parseNs_of_tiling (hlen : ndHeaderSize ≤ icmp.length) (htgt : ¬(addrAt icmp 8).Multicast)
    (hsrc : src ≠ 0) (h : Tiling (icmp.drop ndHeaderSize) os rest) :
    parseNs bo src icmp ethSrc =
      if ZeroLength rest then none else some (addrAt icmp 8, some ((sourceLl os).getD ethSrc)) := by
  have hmulti : ¬ndAddrIsMulticast (addrAt icmp 8) = true := fun h => htgt (beq_iff_eq.1 h)
  have hspec : ¬ndAddrIsUnspecified bo src = true := mt (ndAddrIsUnspecified_iff bo).1 hsrc
  simp only [parseNs]
  rw [if_neg (not_lt.2 hlen), if_neg hmulti, if_neg hspec, h.nsOptions_eq (le_refl _),
    Option.or_none]
  split_ifs <;> rfl

/-- The target is before the options. -/
theorem addrAt_target_congr (h : icmp.take ndHeaderSize = icmp'.take ndHeaderSize) :
    addrAt icmp 8 = addrAt icmp' 8 := by
  have hbytes (l : List U8) : (l.drop 8).take 16 = (l.take ndHeaderSize).drop 8 := by
    rw [List.drop_take]
    rfl
  rw [addrAt, addrAt, hbytes, hbytes, h]

theorem le_length_congr (h : icmp'.take ndHeaderSize = icmp.take ndHeaderSize)
    (hlen : ndHeaderSize ≤ icmp.length) : ndHeaderSize ≤ icmp'.length := by
  have hlength := congrArg List.length h
  rw [List.length_take, List.length_take] at hlength
  omega

/-- Which function is called for a message that begins as one with a target does. -/
theorem call_of_tiling {n : Net} {f : IfaceId} {p : ProxyId} {dst : Addr}
    (hproxy : (n.iface f).proxy = some p) (hlen : ndHeaderSize ≤ icmp.length)
    (htgt : ¬(addrAt icmp 8).Multicast) (hsrc : src ≠ 0)
    (hhead : icmp'.take ndHeaderSize = icmp.take ndHeaderSize)
    (h : Tiling (icmp'.drop ndHeaderSize) os rest) :
    Verdict.call bo n f (.ns src dst icmp' ethSrc) =
      if ZeroLength rest then none
      else some (.proxyHandleNs p src dst (addrAt icmp 8) (some ((sourceLl os).getD ethSrc))) := by
  have htarget : addrAt icmp' 8 = addrAt icmp 8 := addrAt_target_congr hhead
  rw [Verdict.call, hproxy, Option.bind_some,
    parseNs_of_tiling (le_length_congr hhead hlen) (htarget ▸ htgt) hsrc h, htarget]
  split_ifs <;> rfl

end Solicitation

/-- A solicitation that has a source, on an interface with a proxy. Its options are a
    sequence of complete options, in one way. If the walk meets a length of zero, nothing
    is done; otherwise the proxy is called, with the address in the last source link-layer
    address option of length 1 of the sequence, or the Ethernet source. The bytes that are
    left do not matter, nor do other ones in their place. -/
theorem handleNs_sourceLl (e : Env) (m : Mem) {f : IfaceId} {p : ProxyId} {src dst : Addr}
    {icmp : List U8} {ethSrc : LlAddr} (hproxy : (m.world.net.iface f).proxy = some p)
    (hlen : 24 ≤ icmp.length) (htgt : ¬(addrAt icmp 8).Multicast) (hsrc : src ≠ 0) :
    ∃ os rest, Tiling (icmp.drop 24) os rest ∧
      (∀ os' rest', Tiling (icmp.drop 24) os' rest' → os' = os ∧ rest' = rest) ∧
      (ZeroLength rest →
        Verdict.call e.conf.byteOrder m.world.net f (.ns src dst icmp ethSrc) = none ∧
        ndLHandleNs e f src icmp ethSrc m = m) ∧
      (¬ZeroLength rest →
        let call := Delivery.proxyHandleNs p src dst (addrAt icmp 8)
          (some ((sourceLl os).getD ethSrc))
        Verdict.call e.conf.byteOrder m.world.net f (.ns src dst icmp ethSrc) = some call ∧
        ndLHandleNs e f src icmp ethSrc m = call.exec e f m ∧
        ∀ icmp' rest', icmp'.take 24 = icmp.take 24 → Tiling (icmp'.drop 24) os rest' →
          ¬ZeroLength rest' →
          Verdict.call e.conf.byteOrder m.world.net f (.ns src dst icmp' ethSrc) = some call ∧
          ndLHandleNs e f src icmp' ethSrc m = call.exec e f m) := by
  obtain ⟨os, rest, h⟩ := Tiling.exists_tiling (icmp.drop 24)
  -- What `ndL_handle_ns` does is the call, or nothing.
  have hexec (icmp : List U8) : ndLHandleNs e f src icmp ethSrc m =
      (Verdict.call e.conf.byteOrder m.world.net f (.ns src dst icmp ethSrc)).elim m
        (Delivery.exec e f m) := Verdict.exec_eq e f m (.ns src dst icmp ethSrc)
  refine ⟨os, rest, h, fun os' rest' h' => h'.unique h, fun hzero => ?_, fun hzero => ?_⟩
  · have hnone : Verdict.call e.conf.byteOrder m.world.net f (.ns src dst icmp ethSrc) = none :=
      (call_of_tiling hproxy hlen htgt hsrc rfl h).trans (if_pos hzero)
    exact ⟨hnone, by rw [hexec, hnone]; rfl⟩
  · have hsome (icmp' rest' : List U8) (hhead : icmp'.take 24 = icmp.take 24)
        (h' : Tiling (icmp'.drop 24) os rest') (hzero' : ¬ZeroLength rest') :
        Verdict.call e.conf.byteOrder m.world.net f (.ns src dst icmp' ethSrc) =
          some (.proxyHandleNs p src dst (addrAt icmp 8) (some ((sourceLl os).getD ethSrc))) :=
      (call_of_tiling hproxy hlen htgt hsrc hhead h').trans (if_neg hzero')
    refine ⟨hsome icmp rest rfl h hzero, ?_, fun icmp' rest' hhead h' hzero' =>
      ⟨hsome icmp' rest' hhead h' hzero', ?_⟩⟩
    · rw [hexec, hsome icmp rest rfl h hzero]
      rfl
    · rw [hexec, hsome icmp' rest' hhead h' hzero']
      rfl

namespace Small

/-- A solicitation for `::2` with a nonce, two source link-layer addresses, and an option
    that is truncated. -/
def optionsMsg : List U8 :=
  [135, 0, 0, 0, 0, 0, 0, 0] ++ [0, 0, 0, 0, 0, 0, 0, 0, 0, 0, 0, 0, 0, 0, 0, 2] ++
    [14, 1, 9, 9, 9, 9, 9, 9] ++ [1, 1, 2, 0, 0, 0, 0, 1] ++ [1, 1, 2, 0, 0, 0, 0, 5] ++
    [1, 2, 2, 0, 0, 0, 0, 7]

/-- Its complete options. -/
def optionsMsgOptions : List CompleteOption :=
  [⟨14, 1, [9, 9, 9, 9, 9, 9], rfl⟩, ⟨1, 1, [2, 0, 0, 0, 0, 1], rfl⟩,
    ⟨1, 1, [2, 0, 0, 0, 0, 5], rfl⟩]

theorem optionsMsg_tiling :
    Tiling (optionsMsg.drop 24) optionsMsgOptions [1, 2, 2, 0, 0, 0, 0, 7] where
  eq := rfl
  maximal o more heq := absurd (exists_append_iff.1 ⟨o, more, heq⟩) (by decide)

/-- The address of the second option is given to the proxy. -/
theorem optionsMsg_sourceLl :
    let d := daemon staticRule
    let e := d.env (event 5 .tick)
    ndLHandleNs e 1 1 optionsMsg 9 d.mem =
      Delivery.exec e 1 d.mem (.proxyHandleNs 0 1 0 2 (some 0x020000000005)) := by
  intro d e
  have hproxy : (d.mem.world.net.iface 1).proxy = some 0 := by decide +kernel
  have htarget : addrAt optionsMsg 8 = 2 := by decide +kernel
  have htgt : (addrAt optionsMsg 8).u8 0 ≠ 0xff := by decide +kernel
  have hsrc : (1 : Addr) ≠ 0 := by decide
  obtain ⟨os, rest, -, hunique, -, hcall⟩ :=
    @handleNs_sourceLl e d.mem 1 0 1 0 optionsMsg 9 hproxy (by decide) htgt hsrc
  obtain ⟨rfl, rfl⟩ := hunique _ _ optionsMsg_tiling
  have hexec := (hcall (by decide)).2.1
  rw [htarget] at hexec
  exact hexec

end Small

end Ndppd
