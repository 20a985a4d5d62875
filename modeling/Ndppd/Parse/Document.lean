import Ndppd.Parse.Layout

/-!
# Documents

A configuration as the list of its directives, each with the text of its value:
the settings, the proxies and the rules, in their order (`FileItem`). A document
does something (`evalFile`), or is rejected. Whatever the layout, the parser
reads from its text what the document does (`ndConfParse_text`). Every document
has a text (`printFile`).
-/

namespace Ndppd

/-- Functions of the table that read a block. -/
def Callback.isBlock : {sc : Scope} → Callback sc → Bool
  | _, .parseProxy => true
  | _, .parseRule => true
  | _, .parseRewrite => false
  | _, .parseMode => false

/-- A directive with a value, which is a word, or empty. -/
structure Setting (sc : Scope) where
  info : CfInfo sc
  value : List U8
  mem : info ∈ ndLCfinfoTable sc
  no_block : ∀ cb ∈ info.cb, cb.isBlock = false
  word : IsWord value

/-- A rule: the address and its prefix length, and the directives in its block. -/
structure RuleBlock where
  header : List U8
  settings : List (Setting .rule)
  word : IsWord header

/-- A directive in the block of a proxy: a setting, or a rule. -/
inductive ProxyItem
  | setting (x : Setting .proxy)
  | rule (b : RuleBlock)

/-- A proxy: the name of its interface, and the directives in its block. -/
structure ProxyBlock where
  name : List U8
  items : List ProxyItem
  word : IsWord name

/-- A directive of the file: a setting, or a proxy. -/
inductive FileItem
  | setting (x : Setting .default)
  | proxy (b : ProxyBlock)

/-! ## What a document does -/

/-- What a directive does, by its scope. -/
def Setting.evalRule (libc : Libc) (r : RuleId) (x : Setting .rule) : Loaded → Option Loaded :=
  evalEntry libc r (readCallRule libc r) x.info x.value

/-- A rule is made, written by its directives in turn, and has to be complete in the end. -/
def RuleBlock.eval (libc : Libc) (p : ProxyId) (b : RuleBlock) (g : Loaded) : Option Loaded :=
  (readPrefixed libc b.header).bind fun x =>
    if x.2 = [] then
      let (r, g) := newRule g p x.1.1 x.1.2
      (inTurn (b.settings.map (Setting.evalRule libc r)) g).bind fun g =>
        if (g.cfg.rule r).complete then some g else none
    else none

/-- What a directive of a proxy does. -/
def ProxyItem.eval (libc : Libc) (p : ProxyId) : ProxyItem → Loaded → Option Loaded
  | .setting x => evalEntry libc p (readCallProxy libc p) x.info x.value
  | .rule b => b.eval libc p

/-- A proxy is made, and written by its directives in turn. -/
def ProxyBlock.eval (libc : Libc) (b : ProxyBlock) (g : Loaded) : Option Loaded :=
  (readName ifNamesize b.name).bind fun x =>
    if x.2 = [] then
      (ndProxyCreate g.cfg x.1).bind fun y =>
        inTurn (b.items.map (ProxyItem.eval libc y.1)) { g with cfg := y.2 }
    else none

/-- What a directive of the file does. -/
def FileItem.eval (libc : Libc) : FileItem → Loaded → Option Loaded
  | .setting x => evalEntry libc () (readCallDefault libc) x.info x.value
  | .proxy b => b.eval libc

/-- What a document does: its directives in turn. -/
def evalFile (libc : Libc) (items : List FileItem) : Loaded → Option Loaded :=
  inTurn (items.map (FileItem.eval libc))

/-! ## Texts -/

/-- A text of a directive. -/
inductive Setting.Text {sc : Scope} (x : Setting sc) : List U8 → Prop
  | mk {sep : List U8} : IsBlank sep → (sep = [] → x.value = []) →
      Setting.Text x (x.info.key ++ (sep ++ x.value))

/-- The text of a block with a key and a word before it. -/
inductive BlockText {α : Type} (Text : α → List U8 → Prop) (key word : List U8) (items : List α) :
    List U8 → Prop
  | mk {sep w b : List U8} {ds : List (List U8)} : IsBlank sep → (sep = [] → word = []) →
      IsBlank w → List.Forall₂ Text items ds → Body ds b →
      BlockText Text key word items (key ++ (sep ++ (word ++ (w ++ ch '{' :: (b ++ [ch '}'])))))

/-- A text of a directive of a proxy. -/
inductive ProxyItem.Text : ProxyItem → List U8 → Prop
  | setting {x : Setting .proxy} {d : List U8} : x.Text d → ProxyItem.Text (.setting x) d
  | rule {b : RuleBlock} {d : List U8} :
      BlockText Setting.Text (bytes "rule") b.header b.settings d → ProxyItem.Text (.rule b) d

/-- A text of a directive of the file. -/
inductive FileItem.Text : FileItem → List U8 → Prop
  | setting {x : Setting .default} {d : List U8} : x.Text d → FileItem.Text (.setting x) d
  | proxy {b : ProxyBlock} {d : List U8} :
      BlockText ProxyItem.Text (bytes "proxy") b.name b.items d → FileItem.Text (.proxy b) d

/-- A text of the file. -/
inductive FileText (items : List FileItem) : List U8 → Prop
  | mk {b c : List U8} {ds : List (List U8)} : List.Forall₂ FileItem.Text items ds → Body ds b →
      IsComment c → FileText items (b ++ c)

/-! ## The parser reads documents -/

variable {libc : Libc}

/-- A mode is its key only, or has the name of an interface. -/
theorem readsWord_readMode (info : CfInfo .rule) (r : RuleId) :
    ReadsWord (readMode libc info r) where
  append {v k g} hv hk := by
    rw [readMode_eq, readMode_eq]
    split_ifs
    · rfl
    · rfl
    · rfl
    · rw [(endsInWord_readName ifNamesize).append hv hk]
      cases readName ifNamesize v <;> rfl
  suffix {v g t g'} ht := by
    rw [readMode_eq] at ht
    split_ifs at ht
    · exact (Prod.mk.inj (Option.some.inj ht)).1 ▸ List.suffix_refl v
    · exact (Prod.mk.inj (Option.some.inj ht)).1 ▸ List.suffix_refl v
    · obtain ⟨x, hx, ht⟩ := Option.map_eq_some_iff.1 ht
      exact (Prod.mk.inj ht).1 ▸ (endsInWord_readName ifNamesize).suffix hx

theorem readsWord_readCallRule (r : RuleId) (info : CfInfo .rule) (cb : Callback .rule) :
    ReadsWord (readCallRule libc r info cb) := by
  cases cb with
  | parseRewrite =>
    change ReadsWord (readRewrite libc r)
    rw [show readRewrite libc r = _ from funext₂ (readRewrite_eq r)]
    exact .of_token (endsInWord_readPrefixed libc) fun x g =>
      g.setRule r { g.cfg.rule r with rewriteTgt := x.1, rewritePflen := x.2 }
  | parseMode => exact readsWord_readMode info r

/-- The keys with a function have no other value. -/
theorem type_of_cb {sc : Scope} {info : CfInfo sc} (h : info ∈ ndLCfinfoTable sc)
    (hcb : info.cb ≠ none) : info.type = .none := by
  cases sc with
  | default =>
    simp only [ndLCfinfoTable, List.mem_cons, List.not_mem_nil, or_false] at h
    rcases h with rfl | rfl | rfl | rfl | rfl | rfl | rfl <;> first | rfl | exact absurd rfl hcb
  | proxy =>
    simp only [ndLCfinfoTable, List.mem_cons, List.not_mem_nil, or_false] at h
    rcases h with rfl | rfl | rfl | rfl <;> first | rfl | exact absurd rfl hcb
  | rule =>
    simp only [ndLCfinfoTable, List.mem_cons, List.not_mem_nil, or_false] at h
    rcases h with rfl | rfl | rfl | rfl | rfl | rfl | rfl <;> first | rfl | exact absurd rfl hcb

/-- The keys of the table are names: no layout can be taken for one. -/
theorem table_head {sc : Scope} {info : CfInfo sc} (h : info ∈ ndLCfinfoTable sc) :
    ∃ c ∈ info.key.head?, isalpha c = true := by
  obtain ⟨-, hname, -⟩ := table_key h
  cases hkey : info.key with
  | nil => simp [hkey, readName_eq, nameToken, nameScan] at hname
  | cons c t =>
    refine ⟨c, rfl, ?_⟩
    by_contra hc
    simp [hkey, readName_eq, nameToken, nameScan, hc] at hname

section Items

variable {sc : Scope} {ptr : sc.Ptr}
  {call : CfInfo sc → Callback sc → List U8 → Loaded → Option (List U8 × Loaded)} {d : List U8}

/-- The text of a setting is read as what the setting does. -/
theorem Setting.Text.isItem {x : Setting sc} (hx : x.Text d)
    (hcall : ∀ cb ∈ x.info.cb, ReadsWord (call x.info cb)) :
    IsItem libc sc ptr call d (evalEntry libc ptr call x.info x.value) := by
  cases hx with
  | mk hsep hne =>
    constructor
    · obtain ⟨c, hc, halpha⟩ := table_head x.mem
      obtain ⟨t, ht⟩ := List.head?_eq_some_iff.1 hc
      exact ⟨c, by rw [ht]; rfl, halpha⟩
    · intro k g hk
      have hinfo : HasValue x.info call := by
        by_cases hcb : x.info.cb = none
        · exact .inl hcb
        · exact .inr ⟨type_of_cb x.mem hcb, hcall⟩
      rw [List.append_assoc, List.append_assoc]
      exact readDirective_value x.mem hinfo x.word hsep hne hk g

/-- A directive with a block: what its function does with the word before the
    block, and with the block. -/
theorem BlockText.isItem {α : Type} {Text : α → List U8 → Prop} {info : CfInfo sc}
    {cb : Callback sc} {word : List U8} {items : List α} {m : Loaded → Option Loaded}
    (hinfo : info ∈ ndLCfinfoTable sc) (hcb : info.cb = some cb) (hword : IsWord word)
    (hd : BlockText Text info.key word items d)
    (hcall : ∀ {c b k ds g}, Stops c → List.Forall₂ Text items ds → Body ds b →
      skipText c = ch '{' :: (b ++ ch '}' :: k) →
      call info cb (word ++ c) g = (m g).map fun g' => (k, g')) :
    IsItem libc sc ptr call d m := by
  cases hd with
  | @mk sep w b ds hsep hne hw hds hb =>
    constructor
    · obtain ⟨c, hc, halpha⟩ := table_head hinfo
      obtain ⟨t, ht⟩ := List.head?_eq_some_iff.1 hc
      exact ⟨c, by rw [ht]; rfl, halpha⟩
    · intro k g hk
      have hopen : ∀ t, skipText (ch '{' :: t) = ch '{' :: t := fun t =>
        skipText_cons (by decide) (by decide)
      have hassoc : info.key ++ (sep ++ (word ++ (w ++ ch '{' :: (b ++ [ch '}'])))) ++ k =
          info.key ++ (sep ++ (word ++ (w ++ ch '{' :: (b ++ ch '}' :: k)))) := by simp
      have hw' : Stops (w ++ ch '{' :: (b ++ ch '}' :: k)) :=
        .append_blanks hw (.cons (by decide) _)
      have hstops : Stops (sep ++ (word ++ (w ++ ch '{' :: (b ++ ch '}' :: k)))) := by
        by_cases hnil : sep = []
        · rw [hnil, hne hnil]
          exact hw'
        · exact .blanks hsep hnil
      -- Where the word starts, if there is none, is where the block starts.
      obtain ⟨c, hc, hskip, hword_skip⟩ : ∃ c, Stops c ∧
          skipText c = ch '{' :: (b ++ ch '}' :: k) ∧
          skipText (word ++ (w ++ ch '{' :: (b ++ ch '}' :: k))) = word ++ c := by
        by_cases hnil : word = []
        · refine ⟨ch '{' :: (b ++ ch '}' :: k), .cons (by decide) _, hopen _, ?_⟩
          rw [hnil, List.nil_append, skipText_blanks hw, hopen, List.nil_append]
        · refine ⟨w ++ ch '{' :: (b ++ ch '}' :: k), hw', ?_, skipText_word hword hnil _⟩
          rw [skipText_blanks hw, hopen]
      have hagain : skipText (word ++ c) = word ++ c := by
        rw [← hword_skip, skipText_skipText]
      rw [hassoc, readDirective_key hinfo hstops, skipText_blanks hsep, hword_skip, readEntry_eq,
        readValue_none (type_of_cb hinfo (by simp [hcb])), hcb]
      dsimp only [Option.bind_some, Option.elim_some]
      rw [hagain, hcall hc hds hb hskip]
      have hend : readEnd libc ([] ++ k) = _ := readEnd_append (fun _ h => absurd h (by simp)) hk
      rw [List.nil_append, if_pos rfl] at hend
      cases m g with
      | none => rfl
      | some g' =>
        dsimp only [Option.map_some, Option.bind_some]
        rw [hend]
        rfl

/-- So are the texts of a list of directives, if that of each of them is. -/
theorem isItem_of_text {α : Type} {Text : α → List U8 → Prop} {eval : α → Loaded → Option Loaded}
    {items : List α} {ds : List (List U8)} (hds : List.Forall₂ Text items ds)
    (h : ∀ x d, Text x d → IsItem libc sc ptr call d (eval x)) :
    List.Forall₂ (IsItem libc sc ptr call) ds (items.map eval) := by
  rw [List.forall₂_map_right_iff]
  exact hds.flip.imp fun d x hx => h x d hx

end Items

/-- The text of a rule is read as what the rule does: its block is read in one loop. -/
theorem RuleBlock.isItem {b : RuleBlock} {d : List U8} (p : ProxyId)
    (hd : BlockText Setting.Text (bytes "rule") b.header b.settings d) :
    IsItem libc .proxy p (readCallProxy libc p) d (b.eval libc p) := by
  let info : CfInfo .proxy := { key := bytes "rule", type := .none, cb := some .parseRule }
  have hinfo : info ∈ ndLCfinfoTable .proxy := List.mem_cons_self
  refine BlockText.isItem hinfo rfl b.word hd fun {c body k ds g} hc hds hbody hskip => ?_
  change readRule libc p (b.header ++ c) g = _
  rw [readRule_eq, (endsInWord_readPrefixed libc).append b.word hc, RuleBlock.eval]
  cases hread : readPrefixed libc b.header with
  | none => rfl
  | some x =>
    dsimp only [Option.map_some, Option.bind_some]
    have hword := b.word.of_suffix ((endsInWord_readPrefixed libc).suffix hread)
    obtain ⟨r, g', hnew⟩ : ∃ r g', newRule g p x.1.1 x.1.2 = (r, g') := ⟨_, _, rfl⟩
    have hitems : List.Forall₂ (IsItem libc .rule r (readCallRule libc r)) ds
        (b.settings.map (Setting.evalRule libc r)) :=
      isItem_of_text hds fun x d hx => hx.isItem fun cb _ => readsWord_readCallRule r x.info cb
    rw [hnew]
    dsimp only
    rw [readBlock_braces (by decide) hword hbody hitems hskip]
    by_cases hnil : x.2 = []
    · rw [if_pos hnil, if_pos hnil]
      cases inTurn (b.settings.map (Setting.evalRule libc r)) g' with
      | none => rfl
      | some g'' =>
        dsimp only [Option.map_some, Option.bind_some]
        split_ifs <;> rfl
    · rw [if_neg hnil, if_neg hnil]
      rfl

theorem ProxyItem.Text.isItem {x : ProxyItem} {d : List U8} (p : ProxyId) (hx : x.Text d) :
    IsItem libc .proxy p (readCallProxy libc p) d (x.eval libc p) := by
  cases hx with
  | @setting x _ hx =>
    refine Setting.Text.isItem hx fun cb hcb => ?_
    cases cb with
    | parseRule => exact absurd (x.no_block _ hcb) (by decide)
  | rule hd => exact RuleBlock.isItem p hd

/-- The text of a proxy is read as what the proxy does. -/
theorem ProxyBlock.isItem {b : ProxyBlock} {d : List U8}
    (hd : BlockText ProxyItem.Text (bytes "proxy") b.name b.items d) :
    IsItem libc .default () (readCallDefault libc) d (b.eval libc) := by
  let info : CfInfo .default := { key := bytes "proxy", type := .none, cb := some .parseProxy }
  have hinfo : info ∈ ndLCfinfoTable .default := List.mem_cons_self
  refine BlockText.isItem hinfo rfl b.word hd fun {c body k ds g} hc hds hbody hskip => ?_
  change readProxy libc (b.name ++ c) g = _
  rw [readProxy_eq, (endsInWord_readName ifNamesize).append b.word hc, ProxyBlock.eval]
  cases hread : readName ifNamesize b.name with
  | none => rfl
  | some x =>
    dsimp only [Option.map_some, Option.bind_some]
    have hword := b.word.of_suffix ((endsInWord_readName ifNamesize).suffix hread)
    cases ndProxyCreate g.cfg x.1 with
    | none =>
      split_ifs <;> rfl
    | some y =>
      dsimp only [Option.bind_some]
      have hitems : List.Forall₂ (IsItem libc .proxy y.1 (readCallProxy libc y.1)) ds
          (b.items.map (ProxyItem.eval libc y.1)) :=
        isItem_of_text hds fun x d hx => hx.isItem y.1
      rw [readBlock_braces (by decide) hword hbody hitems hskip]
      split_ifs <;> rfl

theorem FileItem.Text.isItem {x : FileItem} {d : List U8} (hx : x.Text d) :
    IsItem libc .default () (readCallDefault libc) d (x.eval libc) := by
  cases hx with
  | @setting x _ hx =>
    refine Setting.Text.isItem hx fun cb hcb => ?_
    cases cb with
    | parseProxy => exact absurd (x.no_block _ hcb) (by decide)
  | proxy hd => exact ProxyBlock.isItem hd

/-- Whatever the layout of a document, the parser reads from its text what the
    document does. -/
theorem ndConfParse_text {items : List FileItem} {t : List U8} (ht : FileText items t)
    (conf : Conf) : outcome (ndConfParse libc conf t) =
      (evalFile libc items { conf := conf }).map fun g => ([], g) := by
  rw [outcome_ndConfParse]
  cases ht with
  | mk hds hb hc =>
    exact readBlock_file hb (isItem_of_text hds fun x d hx => hx.isItem) hc

/-! ## A text of a document

Each directive in a line of its own, with one blank between words. -/

/-- Each text on a line of its own. -/
def printLines (ds : List (List U8)) : List U8 := ds.flatMap (· ++ [ch '\n'])

/-- The key, a space and the value. -/
def Setting.print {sc : Scope} (x : Setting sc) : List U8 := x.info.key ++ ([ch ' '] ++ x.value)

/-- The header of a block, and its directives in braces. -/
def printBlock (key word : List U8) (ds : List (List U8)) : List U8 :=
  key ++ ([ch ' '] ++ (word ++ ([ch ' '] ++ ch '{' :: (ch '\n' :: printLines ds ++ [ch '}']))))

/-- A directive of a proxy, on one line or in a block. -/
def ProxyItem.print : ProxyItem → List U8
  | .setting x => x.print
  | .rule b => printBlock (bytes "rule") b.header (b.settings.map Setting.print)

/-- A directive of the file, on one line or in a block. -/
def FileItem.print : FileItem → List U8
  | .setting x => x.print
  | .proxy b => printBlock (bytes "proxy") b.name (b.items.map ProxyItem.print)

/-- A text of the document. -/
def printFile (items : List FileItem) : List U8 := printLines (items.map FileItem.print)

theorem isBlank_nil : IsBlank [] := fun _ h => absurd h List.not_mem_nil

theorem isBlank_space : IsBlank [ch ' '] := by
  intro c hc
  rw [List.mem_singleton.1 hc]
  decide

/-- One line each is a layout. -/
theorem body_printLines (ds : List (List U8)) : Body ds (printLines ds) := by
  induction ds with
  | nil => exact .nil (.blanks isBlank_nil)
  | cons d ds ih =>
    have := Body.cons (d := d) (.blanks isBlank_nil) isBlank_nil (.inl rfl) ih
    rwa [List.nil_append, List.nil_append, List.nil_append, List.append_cons] at this

/-- A newline before a block. -/
theorem Body.newline {ds : List (List U8)} {b : List U8} (h : Body ds b) :
    Body ds (ch '\n' :: b) := by
  have hline : ∀ {f}, Filler f → Filler (ch '\n' :: f) := fun hf =>
    .line isBlank_nil (.inl rfl) hf
  cases h with
  | nil hf => exact .nil (hline hf)
  | last hf hw => exact .last (hline hf) hw
  | cons hf hw hc hb => exact .cons (hline hf) hw hc hb

theorem Setting.text_print {sc : Scope} (x : Setting sc) : x.Text x.print :=
  .mk isBlank_space fun h => absurd h (by simp)

/-- A block is printed as a text of it if its directives are. -/
theorem blockText_print {α : Type} {Text : α → List U8 → Prop} {print : α → List U8}
    (h : ∀ x, Text x (print x)) (key word : List U8) (items : List α) :
    BlockText Text key word items (printBlock key word (items.map print)) := by
  refine .mk isBlank_space (fun h => absurd h (by simp)) isBlank_space ?_
    (body_printLines (items.map print)).newline
  rw [List.forall₂_map_right_iff]
  exact List.forall₂_same.2 fun x _ => h x

theorem ProxyItem.text_print (x : ProxyItem) : x.Text x.print := by
  cases x with
  | setting x => exact .setting x.text_print
  | rule b => exact .rule (blockText_print Setting.text_print ..)

theorem FileItem.text_print (x : FileItem) : x.Text x.print := by
  cases x with
  | setting x => exact .setting x.text_print
  | proxy b => exact .proxy (blockText_print ProxyItem.text_print ..)

/-- Every document has a text. -/
theorem fileText_printFile (items : List FileItem) : FileText items (printFile items) := by
  have hds : List.Forall₂ FileItem.Text items (items.map FileItem.print) := by
    rw [List.forall₂_map_right_iff]
    exact List.forall₂_same.2 fun x _ => x.text_print
  have := FileText.mk hds (body_printLines _) (.inl rfl)
  rwa [List.append_nil] at this

end Ndppd
