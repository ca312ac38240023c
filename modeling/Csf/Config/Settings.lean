import Csf.Config.Sections

/-!
# The settings of a stage

The four items of a section are read into static variables. An item that the section leaves out keeps what the nearest
earlier stage has stored there (`inherited`), and the built-in default only if no earlier stage sets it
(`get_varsBefore`). So a stage has the settings of its own section, `ownSettings`, if and only if for each item that it
leaves out the value it inherits is the default.
-/

namespace Csf

inductive ModItem
  | threads
  | stageId
  | pipelineId
  | delay
  deriving DecidableEq

namespace ModItem

def name : ModItem → List Char
  | threads => ['t', 'h', 'r', 'e', 'a', 'd', 's']
  | stageId => ['s', 't', 'a', 'g', 'e', '_', 'i', 'd']
  | pipelineId => ['p', 'i', 'p', 'e', 'l', 'i', 'n', 'e', '_', 'i', 'd']
  | delay => ['d', 'e', 'l', 'a', 'y']

def get : ModItem → ModVars → Int32
  | threads => ModVars.threadnum
  | stageId => ModVars.stageId
  | pipelineId => ModVars.pipelineId
  | delay => ModVars.pipelineDelay

end ModItem

theorem ModVars.ext_get {v w : ModVars} (h : ∀ item : ModItem, item.get v = item.get w) : v = w := by
  obtain ⟨vt, vs, vp, vd⟩ := v
  obtain ⟨wt, ws, wp, wd⟩ := w
  obtain rfl : vt = wt := h .threads
  obtain rfl : vs = ws := h .stageId
  obtain rfl : vp = wp := h .pipelineId
  obtain rfl : vd = wd := h .delay
  rfl

theorem moduleOf_injective {v w : ModVars} {secname : List Char} (h : moduleOf v secname = moduleOf w secname) :
    v = w := by
  obtain ⟨vt, vs, ⟨vp⟩, ⟨vd⟩⟩ := v
  obtain ⟨wt, ws, ⟨wp⟩, ⟨wd⟩⟩ := w
  rw [moduleOf, moduleOf, ModConfig.mk.injEq] at h
  obtain ⟨rfl, rfl, rfl, rfl, -⟩ := h
  rfl

section Settings

variable (ld : Loader) (cfgp : CsfConf) (conf : Dictionary)

/-- The value that a section gives to an item; `-1` counts as missing. -/
def setting (secname : List Char) (item : ModItem) : Option Int32 :=
  match iniparserGetint ld conf (confKey secname item.name) (-1) with
  | none => none
  | some i => if i ≠ -1 then some i else none

theorem parseIntItems_cons_some {σ : Type} {ld : Loader} {conf : Dictionary} {modName : List Char} {cicp : IntConfig σ}
    {cic : List (IntConfig σ)} {vars vars' : σ} (h : parseIntItems ld conf modName (cicp :: cic) vars = some vars') :
    ∃ i, iniparserGetint ld conf (confKey modName cicp.configName) (-1) = some i ∧
      parseIntItems ld conf modName cic (if i ≠ -1 then cicp.var vars i else vars) = some vars' := by
  rw [parseIntItems] at h
  cases hget : iniparserGetint ld conf (confKey modName cicp.configName) (-1) with
  | none =>
    rw [hget] at h
    cases h
  | some i =>
    rw [hget] at h
    exact ⟨i, rfl, h⟩

variable {ld cfgp conf} in
theorem getD_setting {secname : List Char} (item : ModItem) {i : Int32}
    (h : iniparserGetint ld conf (confKey secname item.name) (-1) = some i) (old : Int32) :
    (setting ld conf secname item).getD old = if i ≠ -1 then i else old := by
  rw [setting, h]
  dsimp only
  split_ifs with hi
  · rfl
  · rfl

variable {ld cfgp conf} in
theorem get_parseConfFile {secname : List Char} {vars vars' : ModVars}
    (h : parseConfFile ld conf secname modConfIntArray [] vars = some vars') (item : ModItem) :
    item.get vars' = (setting ld conf secname item).getD (item.get vars) := by
  obtain ⟨w, hw, hstr⟩ := Option.map_eq_some_iff.mp h
  obtain rfl : w = vars' := hstr
  obtain ⟨t, ht, hw⟩ := parseIntItems_cons_some hw
  obtain ⟨st, hst, hw⟩ := parseIntItems_cons_some hw
  obtain ⟨p, hp, hw⟩ := parseIntItems_cons_some hw
  obtain ⟨d, hd, hw⟩ := parseIntItems_cons_some hw
  obtain rfl := Option.some.inj hw
  cases item with
  | threads =>
    rw [getD_setting .threads ht]
    split_ifs <;> rfl
  | stageId =>
    rw [getD_setting .stageId hst]
    split_ifs <;> rfl
  | pipelineId =>
    rw [getD_setting .pipelineId hp]
    split_ifs <;> rfl
  | delay =>
    rw [getD_setting .delay hd]
    split_ifs <;> rfl

/-! ### What a stage inherits -/

/-- The static variables when the loop is through with some sections, unless it stops at one of them. -/
def varsBefore : List (List Char) → ModVars → Option ModVars
  | [], vars => some vars
  | secname :: secnames, vars =>
    match loadSection ld cfgp conf vars secname with
    | .skip => varsBefore secnames vars
    | .stop _ => none
    | .module _ vars => varsBefore secnames vars

/-- The value of an item in the nearest stage, from the end of the list, that sets it. -/
def inherited (earlier : List (List Char)) (item : ModItem) : Option Int32 :=
  (earlier.reverse.filter (isStageSection cfgp)).findSome? fun secname => setting ld conf secname item

variable {ld cfgp conf}

theorem varsBefore_cons (secname : List Char) (secnames : List (List Char)) (vars : ModVars) :
    varsBefore ld cfgp conf (secname :: secnames) vars =
      (varsBefore ld cfgp conf [secname] vars).bind (varsBefore ld cfgp conf secnames) := by
  rw [varsBefore, varsBefore]
  cases loadSection ld cfgp conf vars secname with
  | skip => rfl
  | stop exit => rfl
  | module msp vars => rfl

theorem inherited_cons_getD (secname : List Char) (earlier : List (List Char)) (item : ModItem) (old : Int32) :
    (inherited ld cfgp conf (secname :: earlier) item).getD old =
      (inherited ld cfgp conf earlier item).getD
        ((if isStageSection cfgp secname then setting ld conf secname item else none).getD old) := by
  rw [inherited, List.reverse_cons, List.filter_append, List.findSome?_append, ← inherited]
  cases inherited ld cfgp conf earlier item with
  | some i => rfl
  | none =>
    cases hstage : isStageSection cfgp secname with
    | false => simp [hstage]
    | true =>
      cases hset : setting ld conf secname item <;> simp [hstage, hset]

theorem get_varsBefore {earlier : List (List Char)} {vars vars' : ModVars}
    (h : varsBefore ld cfgp conf earlier vars = some vars') (item : ModItem) :
    item.get vars' = (inherited ld cfgp conf earlier item).getD (item.get vars) := by
  induction earlier generalizing vars with
  | nil =>
    obtain rfl := Option.some.inj h
    rfl
  | cons secname earlier ih =>
    rw [inherited_cons_getD]
    rw [varsBefore] at h
    rcases loadSection_cases ld cfgp conf vars secname with
      ⟨hstage, hskip⟩ | ⟨hstage, ⟨exit, -, hstop⟩ | ⟨v, hparse, hmod, -⟩⟩
    · rw [hskip] at h
      rw [hstage]
      exact ih h
    · rw [hstop] at h
      cases h
    · rw [hmod] at h
      rw [hstage, if_pos rfl, ← get_parseConfFile hparse item]
      exact ih h

/-! ### Own settings -/

variable (ld cfgp conf)

/-- The entry is an item of the section; the parser has put its key into lower case. -/
def isItemOf (secname : List Char) (entry : List Char × Option (List Char)) : Bool :=
  (strlwc (secname ++ [':'])).isPrefixOf entry.1

/-- The settings that a section gives, with the built-in defaults for the items that it leaves out, and nothing else
of the file. -/
def ownSettings (secname : List Char) : Option ModVars :=
  parseConfFile ld (conf.filter (isItemOf secname)) secname modConfIntArray [] ModVars.default

/-- The module that the call makes of a section, with the sections before it. -/
def settingsGiven (earlier : List (List Char)) (secname : List Char) : Option ModConfig :=
  match varsBefore ld cfgp conf earlier ModVars.default with
  | none => none
  | some vars =>
    match loadSection ld cfgp conf vars secname with
    | .module msp _ => some msp
    | _ => none

variable {ld cfgp conf}

theorem strlwc_eq_map {s : List Char} (h : s.length ≤ asciiLineSz) : strlwc s = s.map Char.toLower := by
  rw [strlwc, List.take_of_length_le h]

theorem toLower_ne_colon {c : Char} (h : c ≠ ':') : c.toLower ≠ ':' := by
  intro hc
  delta Char.toLower at hc
  split at hc
  · rename_i hupper
    have hval : (c.val.toNat + 32) % 2 ^ 32 = 58 := congrArg (fun c => c.val.toNat) hc
    have hle : 65 ≤ c.val.toNat := UInt32.le_iff_toNat_le.mp hupper.1
    have hle' : c.val.toNat ≤ 90 := UInt32.le_iff_toNat_le.mp hupper.2
    omega
  · exact h hc

theorem colon_notMem_strlwc {s : List Char} (h : ':' ∉ s) : ':' ∉ strlwc s := by
  intro hmem
  obtain ⟨c, hc, hlower⟩ := List.mem_map.mp hmem
  exact toLower_ne_colon (fun heq => h (heq ▸ List.mem_of_mem_take hc)) hlower

theorem key_cases {secname : List Char} (hcolon : ':' ∉ secname) (item : ModItem) :
    strlwc (secname ++ [':']) <+: strlwc (confKey secname item.name) ∨
      ':' ∉ strlwc (confKey secname item.name) := by
  have hlen : (confKey secname item.name).length ≤ asciiLineSz := by
    rw [confKey, List.length_take]
    exact Nat.le_trans (Nat.min_le_left _ _) (by decide)
  rcases Nat.lt_or_ge secname.length (confItemLen - 1) with hshort | hlong
  · refine Or.inl ?_
    rw [strlwc_eq_map hlen, strlwc_eq_map (by simp [confItemLen, asciiLineSz] at hshort ⊢; omega)]
    refine List.IsPrefix.map _ ?_
    rw [confKey, List.prefix_take_iff]
    refine ⟨⟨item.name, List.append_assoc secname [':'] item.name⟩, ?_⟩
    rw [List.length_append, List.length_singleton]
    exact hshort
  · refine Or.inr (colon_notMem_strlwc ?_)
    rw [confKey, List.take_append_of_le_length hlong]
    exact fun hmem => hcolon (List.mem_of_mem_take hmem)

def SectionsNull (conf : Dictionary) : Prop := ∀ entry ∈ conf, ':' ∉ entry.1 → entry.2 = none

instance (conf : Dictionary) : Decidable (SectionsNull conf) := List.decidableBAll _ conf

theorem dictionaryGet_filter {q : List Char × Option (List Char) → Bool} {key : List Char}
    (h : ∀ entry : List Char × Option (List Char), entry.1 = key → q entry = true) :
    dictionaryGet (conf.filter q) key = dictionaryGet conf key := by
  rw [dictionaryGet, dictionaryGet, List.find?_filter]
  congr 2
  funext entry
  cases hkey : entry.1 == key with
  | false => exact decide_eq_false fun hand => Bool.noConfusion hand.2
  | true => exact decide_eq_true ⟨h entry (eq_of_beq hkey), rfl⟩

theorem iniparserGetint_own {secname : List Char} (hnull : SectionsNull conf) (hcolon : ':' ∉ secname) {item : ModItem}
    {i : Int32} (h : iniparserGetint ld conf (confKey secname item.name) (-1) = some i) :
    iniparserGetint ld (conf.filter (isItemOf secname)) (confKey secname item.name) (-1) = some i := by
  rw [iniparserGetint, iniparserGetstring] at h ⊢
  rcases key_cases hcolon item with hprefix | hfree
  · rw [dictionaryGet_filter, h]
    rintro entry hentry
    rw [isItemOf, hentry]
    exact List.isPrefixOf_iff_prefix.mpr hprefix
  · -- a key that is cut off before the colon can only meet another section, which would be read through NULL
    have hmiss : dictionaryGet conf (strlwc (confKey secname item.name)) = none := by
      cases hfind : conf.find? fun entry => entry.1 == strlwc (confKey secname item.name) with
      | none => rw [dictionaryGet, hfind, Option.map_none]
      | some entry =>
        have hkey : entry.1 = strlwc (confKey secname item.name) := by simpa using List.find?_some hfind
        rw [dictionaryGet, hfind, Option.map_some, hnull entry (List.mem_of_find?_eq_some hfind) (hkey ▸ hfree)] at h
        cases h
    have hmiss' : dictionaryGet (conf.filter (isItemOf secname)) (strlwc (confKey secname item.name)) = none := by
      rw [dictionaryGet, Option.map_eq_none_iff, List.find?_eq_none] at hmiss ⊢
      intro entry hentry
      exact hmiss entry (List.mem_of_mem_filter hentry)
    rw [hmiss] at h
    rw [hmiss']
    exact h

theorem parseIntItems_of_getint {σ : Type} {conf conf' : Dictionary} {modName : List Char} {cic : List (IntConfig σ)}
    (hget : ∀ cicp ∈ cic, ∀ i, iniparserGetint ld conf (confKey modName cicp.configName) (-1) = some i →
      iniparserGetint ld conf' (confKey modName cicp.configName) (-1) = some i) {vars vars' : σ}
    (h : parseIntItems ld conf modName cic vars = some vars') (old : σ) :
    ∃ new, parseIntItems ld conf' modName cic old = some new := by
  induction cic generalizing vars old with
  | nil => exact ⟨old, rfl⟩
  | cons cicp cic ih =>
    obtain ⟨i, hi, hrest⟩ := parseIntItems_cons_some h
    rw [parseIntItems, hget cicp List.mem_cons_self i hi]
    exact ih (fun c hc => hget c (List.mem_cons_of_mem _ hc)) hrest _

theorem exists_item_of_mem {cicp : IntConfig ModVars} (h : cicp ∈ modConfIntArray) :
    ∃ item : ModItem, cicp.configName = item.name := by
  simp only [modConfIntArray, List.mem_cons, List.not_mem_nil, or_false] at h
  rcases h with rfl | rfl | rfl | rfl
  · exact ⟨.threads, rfl⟩
  · exact ⟨.stageId, rfl⟩
  · exact ⟨.pipelineId, rfl⟩
  · exact ⟨.delay, rfl⟩

theorem getint_of_parse {secname : List Char} {vars vars' : ModVars}
    (h : parseConfFile ld conf secname modConfIntArray [] vars = some vars') (item : ModItem) :
    ∃ i, iniparserGetint ld conf (confKey secname item.name) (-1) = some i := by
  obtain ⟨w, hw, -⟩ := Option.map_eq_some_iff.mp h
  obtain ⟨t, ht, hw⟩ := parseIntItems_cons_some hw
  obtain ⟨st, hst, hw⟩ := parseIntItems_cons_some hw
  obtain ⟨p, hp, hw⟩ := parseIntItems_cons_some hw
  obtain ⟨d, hd, -⟩ := parseIntItems_cons_some hw
  cases item with
  | threads => exact ⟨t, ht⟩
  | stageId => exact ⟨st, hst⟩
  | pipelineId => exact ⟨p, hp⟩
  | delay => exact ⟨d, hd⟩

theorem exists_ownSettings {secname : List Char} (hnull : SectionsNull conf) (hcolon : ':' ∉ secname)
    {vars vars' : ModVars} (h : parseConfFile ld conf secname modConfIntArray [] vars = some vars') :
    ∃ own, ownSettings ld conf secname = some own ∧
      ∀ item : ModItem, item.get own = (setting ld conf secname item).getD (item.get ModVars.default) := by
  obtain ⟨w, hw, -⟩ := Option.map_eq_some_iff.mp h
  obtain ⟨own, hown⟩ : ∃ own, parseIntItems ld (conf.filter (isItemOf secname)) secname modConfIntArray
      ModVars.default = some own := by
    refine parseIntItems_of_getint (fun cicp hcicp i hi => ?_) hw ModVars.default
    obtain ⟨item, hitem⟩ := exists_item_of_mem hcicp
    rw [hitem] at hi ⊢
    exact iniparserGetint_own hnull hcolon hi
  have hparse : ownSettings ld conf secname = some own := by
    rw [ownSettings, parseConfFile, hown]
    rfl
  refine ⟨own, hparse, fun item => ?_⟩
  obtain ⟨i, hi⟩ := getint_of_parse h item
  rw [get_parseConfFile hparse item, getD_setting item hi, getD_setting item (iniparserGetint_own hnull hcolon hi)]

theorem settingsGiven_eq_some {earlier : List (List Char)} {secname : List Char} {msp : ModConfig}
    (h : settingsGiven ld cfgp conf earlier secname = some msp) :
    ∃ vars vars', varsBefore ld cfgp conf earlier ModVars.default = some vars ∧
      loadSection ld cfgp conf vars secname = .module msp vars' := by
  rw [settingsGiven] at h
  cases hbefore : varsBefore ld cfgp conf earlier ModVars.default with
  | none =>
    rw [hbefore] at h
    cases h
  | some vars =>
    rw [hbefore] at h
    dsimp only at h
    cases hload : loadSection ld cfgp conf vars secname with
    | skip =>
      rw [hload] at h
      cases h
    | stop exit =>
      rw [hload] at h
      cases h
    | module msp' vars' =>
      rw [hload] at h
      obtain rfl := Option.some.inj h
      exact ⟨vars, vars', rfl, hload⟩

theorem get_settingsGiven {earlier : List (List Char)} {secname : List Char} {msp : ModConfig}
    (h : settingsGiven ld cfgp conf earlier secname = some msp) :
    ∃ vars, msp = moduleOf vars secname ∧ ∀ item : ModItem, item.get vars =
      (setting ld conf secname item).getD
        ((inherited ld cfgp conf earlier item).getD (item.get ModVars.default)) := by
  obtain ⟨vars, vars', hbefore, hload⟩ := settingsGiven_eq_some h
  obtain ⟨-, hparse, hmsp, -⟩ := loadSection_eq_module hload
  refine ⟨vars', hmsp, fun item => ?_⟩
  rw [get_parseConfFile hparse item, get_varsBefore hbefore item]

theorem settingsGiven_of {earlier : List (List Char)} {secname : List Char} {msp : ModConfig} {vars vars' : ModVars}
    (hbefore : varsBefore ld cfgp conf earlier ModVars.default = some vars)
    (hload : loadSection ld cfgp conf vars secname = .module msp vars') :
    settingsGiven ld cfgp conf earlier secname = some msp := by
  rw [settingsGiven, hbefore]
  dsimp only
  rw [hload]

theorem acceptedSections_append {earlier : List (List Char)} {vars before : ModVars}
    (h : varsBefore ld cfgp conf earlier vars = some before) (rest : List (List Char)) :
    acceptedSections ld cfgp conf (earlier ++ rest) vars =
      acceptedSections ld cfgp conf earlier vars ++ acceptedSections ld cfgp conf rest before := by
  induction earlier generalizing vars with
  | nil =>
    obtain rfl := Option.some.inj h
    rfl
  | cons secname earlier ih =>
    rw [varsBefore] at h
    rw [List.cons_append, acceptedSections, acceptedSections]
    cases hload : loadSection ld cfgp conf vars secname with
    | skip =>
      rw [hload] at h
      exact ih h
    | stop exit =>
      rw [hload] at h
      cases h
    | module msp vars' =>
      rw [hload] at h
      exact congrArg (msp :: ·) (ih h)

theorem exists_of_mem_acceptedSections {secnames : List (List Char)} {vars : ModVars} {msp : ModConfig}
    (h : msp ∈ acceptedSections ld cfgp conf secnames vars) :
    ∃ earlier secname later before after, secnames = earlier ++ secname :: later ∧
      varsBefore ld cfgp conf earlier vars = some before ∧
      loadSection ld cfgp conf before secname = .module msp after := by
  induction secnames generalizing vars with
  | nil => cases h
  | cons s secnames ih =>
    rw [acceptedSections] at h
    -- a later section is reached with the static variables that `s` leaves
    have hlater : ∀ vars', varsBefore ld cfgp conf [s] vars = some vars' →
        msp ∈ acceptedSections ld cfgp conf secnames vars' →
        ∃ earlier secname later before after, s :: secnames = earlier ++ secname :: later ∧
          varsBefore ld cfgp conf earlier vars = some before ∧
          loadSection ld cfgp conf before secname = .module msp after := by
      intro vars' hs hmem
      obtain ⟨earlier, secname, later, before, after, rfl, hbefore, hload⟩ := ih hmem
      refine ⟨s :: earlier, secname, later, before, after, rfl, ?_, hload⟩
      rw [varsBefore_cons, hs]
      exact hbefore
    cases hsec : loadSection ld cfgp conf vars s with
    | skip =>
      rw [hsec] at h
      exact hlater vars (by rw [varsBefore, hsec]; rfl) h
    | stop exit =>
      rw [hsec] at h
      cases h
    | module m v =>
      rw [hsec] at h
      rcases List.mem_cons.mp h with rfl | hmem
      · exact ⟨[], s, secnames, vars, v, rfl, rfl, hsec⟩
      · exact hlater v (by rw [varsBefore, hsec]; rfl) hmem

theorem mem_queue_iff {msp : ModConfig} :
    msp ∈ (modConfigInit ld cfgp (some conf) ModVars.default []).2 ↔
      ∃ earlier secname later, iniparserSecnames conf = earlier ++ secname :: later ∧
        settingsGiven ld cfgp conf earlier secname = some msp := by
  rw [modConfigInit_queue, (perm_pairwise_foldl _).1.mem_iff, acceptedModules]
  constructor
  · intro h
    obtain ⟨earlier, secname, later, before, after, hsec, hbefore, hload⟩ := exists_of_mem_acceptedSections h
    exact ⟨earlier, secname, later, hsec, settingsGiven_of hbefore hload⟩
  · rintro ⟨earlier, secname, later, hsec, hgiven⟩
    obtain ⟨before, after, hbefore, hload⟩ := settingsGiven_eq_some hgiven
    rw [hsec, acceptedSections_append hbefore, acceptedSections, hload]
    exact List.mem_append_right _ List.mem_cons_self

end Settings

/-- Of the items that a section leaves out, those that an earlier stage sets have their default there. -/
def InheritsDefaults (ld : Loader) (cfgp : CsfConf) (conf : Dictionary) (earlier : List (List Char))
    (secname : List Char) : Prop :=
  ∀ item : ModItem, setting ld conf secname item = none →
    (inherited ld cfgp conf earlier item).getD (item.get ModVars.default) = item.get ModVars.default

theorem ModItem.forall_iff {p : ModItem → Prop} :
    (p .threads ∧ p .stageId ∧ p .pipelineId ∧ p .delay) ↔ ∀ item, p item := by
  constructor
  · rintro ⟨ht, hs, hp, hd⟩ item
    cases item
    · exact ht
    · exact hs
    · exact hp
    · exact hd
  · intro h
    exact ⟨h _, h _, h _, h _⟩

instance (ld : Loader) (cfgp : CsfConf) (conf : Dictionary) (earlier : List (List Char)) (secname : List Char) :
    Decidable (InheritsDefaults ld cfgp conf earlier secname) :=
  decidable_of_iff _ ModItem.forall_iff

theorem getD_getD_eq_iff {α : Type} (own inh : Option α) (d : α) :
    own.getD (inh.getD d) = own.getD d ↔ (own = none → inh.getD d = d) := by
  cases own with
  | some i => simp
  | none => simp

theorem map_ownSettings_iff {ld : Loader} {cfgp : CsfConf} {conf : Dictionary} {earlier later : List (List Char)}
    {secname : List Char} {msp : ModConfig} (hnull : SectionsNull conf)
    (hsec : iniparserSecnames conf = earlier ++ secname :: later)
    (hgiven : settingsGiven ld cfgp conf earlier secname = some msp) :
    (ownSettings ld conf secname).map (moduleOf · secname) = some msp ↔
      InheritsDefaults ld cfgp conf earlier secname := by
  have hcolon : ':' ∉ secname := by
    have hmem : secname ∈ iniparserSecnames conf := hsec ▸ List.mem_append_right _ List.mem_cons_self
    exact of_decide_eq_true (List.mem_filter.mp hmem).2
  obtain ⟨before, vars', -, hload⟩ := settingsGiven_eq_some hgiven
  obtain ⟨own, hown, hget⟩ := exists_ownSettings hnull hcolon (loadSection_eq_module hload).2.1
  obtain ⟨vars, rfl, hvars⟩ := get_settingsGiven hgiven
  have hitems : moduleOf own secname = moduleOf vars secname ↔ ∀ item : ModItem, item.get vars = item.get own := by
    constructor
    · intro h item
      rw [moduleOf_injective h]
    · intro h
      rw [ModVars.ext_get h]
  rw [hown, Option.map_some, Option.some.injEq, hitems]
  refine forall_congr' fun item => ?_
  rw [hvars item, hget item]
  exact getD_getD_eq_iff _ _ _

/-- A module has the settings of its own section if and only if it inherits no value but defaults. Two configurations
where this is so, and which agree on the items of the section, give it the same settings. -/
theorem own_settings_iff (ld : Loader) (cfgp : CsfConf) (conf : Dictionary) (earlier later : List (List Char))
    (secname : List Char) (msp : ModConfig) (hnull : SectionsNull conf)
    (hsec : iniparserSecnames conf = earlier ++ secname :: later)
    (hgiven : settingsGiven ld cfgp conf earlier secname = some msp) :
    ((ownSettings ld conf secname).map (moduleOf · secname) = some msp ↔
        InheritsDefaults ld cfgp conf earlier secname) ∧
      ∀ conf' earlier' later' msp', SectionsNull conf' → iniparserSecnames conf' = earlier' ++ secname :: later' →
        settingsGiven ld cfgp conf' earlier' secname = some msp' →
        conf'.filter (isItemOf secname) = conf.filter (isItemOf secname) →
        InheritsDefaults ld cfgp conf earlier secname → InheritsDefaults ld cfgp conf' earlier' secname →
        msp' = msp := by
  refine ⟨map_ownSettings_iff hnull hsec hgiven, ?_⟩
  intro conf' earlier' later' msp' hnull' hsec' hgiven' hsame hinh hinh'
  have hmsp := (map_ownSettings_iff hnull hsec hgiven).mpr hinh
  have hmsp' := (map_ownSettings_iff hnull' hsec' hgiven').mpr hinh'
  rw [ownSettings, hsame, ← ownSettings, hmsp] at hmsp'
  exact (Option.some.inj hmsp').symm

/-- The section `c` of three stages sets the only item that the others set; its module is in the queue. -/
theorem own_settings_run :
    settingsGiven plainLoader plainConf descendingStages [['a'], ['b']] ['c'] = some ⟨0, 0, 1, 8, ['c']⟩ ∧
      ⟨0, 0, 1, 8, ['c']⟩ ∈ (modConfigInit plainLoader plainConf (some descendingStages) ModVars.default []).2 ∧
      (ownSettings plainLoader descendingStages ['c']).map (moduleOf · ['c']) = some ⟨0, 0, 1, 8, ['c']⟩ := by
  refine ⟨by decide +kernel, ?_, ?_⟩
  · exact mem_queue_iff.mpr ⟨[['a'], ['b']], ['c'], [], by decide +kernel, by decide +kernel⟩
  refine (own_settings_iff plainLoader plainConf descendingStages [['a'], ['b']] [] ['c'] ⟨0, 0, 1, 8, ['c']⟩
    (by decide +kernel) (by decide +kernel) (by decide +kernel)).1.mpr ?_
  decide +kernel

/-- A section `b` without items, after a section `a` that sets its stage to 3. -/
def stageBefore : Dictionary :=
  [(['a'], none), (['a', ':', 's', 't', 'a', 'g', 'e', '_', 'i', 'd'], some ['3']), (['b'], none)]

/-- Next to `a` the section `b` gets stage 3, without it stage 1. -/
theorem stage_inherited :
    modConfigInit plainLoader plainConf (some stageBefore) ModVars.default [] =
        (.returned csfOk, [⟨0, 0, 3, 8, ['a']⟩, ⟨0, 0, 3, 8, ['b']⟩]) ∧
      removeSections stageBefore [['a']] = [(['b'], none)] ∧
      modConfigInit plainLoader plainConf (some [(['b'], none)]) ModVars.default [] =
        (.returned csfOk, [⟨0, 0, 1, 8, ['b']⟩]) := by
  decide +kernel

end Csf
