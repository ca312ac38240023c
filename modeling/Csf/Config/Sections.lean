import Csf.Config.Order
import Csf.Lib.Lists

/-!
# Which sections become stages

`mod_config_init` passes over a section whose name is a prefix of `server` or of the name of the protocol module, and
takes every other one for a stage. What the loop does with a stage is said once (`loadSection_eq_module`). A call that
returns `CSF_OK` has taken all of them (`loadedSections_of_ok`), so it cannot ignore one whose pipeline is out of range.
-/

namespace Csf

open Lib

section Sections

variable {ld : Loader} {cfgp : CsfConf} {conf : Dictionary} {secname : List Char} {secnames : List (List Char)}
  {vars vars' : ModVars} {msp : ModConfig}

/-- The `MOD_CONFIG` of a section that was read into the static variables. -/
def moduleOf (vars : ModVars) (secname : List Char) : ModConfig :=
  ⟨vars.pipelineId.toUInt32, vars.pipelineDelay.toUInt32, vars.stageId, vars.threadnum,
    secname.take (maxModNameLen - 1)⟩

/-- What the loop does with a section: it passes over it, or stops, or its settings have been read and its pipeline is
in range. -/
theorem loadSection_cases (ld : Loader) (cfgp : CsfConf) (conf : Dictionary) (vars : ModVars) (secname : List Char) :
    isStageSection cfgp secname = false ∧ loadSection ld cfgp conf vars secname = .skip ∨
      isStageSection cfgp secname = true ∧
        ((∃ exit, exit ≠ .returned csfOk ∧ loadSection ld cfgp conf vars secname = .stop exit) ∨
          ∃ vars', parseConfFile ld conf secname modConfIntArray [] vars = some vars' ∧
            loadSection ld cfgp conf vars secname = .module (moduleOf vars' secname) vars' ∧
            vars'.pipelineId.toUInt32.toNat < pipelineSize) := by
  rw [loadSection]
  cases isStageSection cfgp secname with
  | false => exact Or.inl ⟨rfl, rfl⟩
  | true =>
    refine Or.inr ⟨rfl, ?_⟩
    rw [if_neg (by decide)]
    by_cases hopen : (!ld.dlopen (modPath cfgp secname)) = true
    · exact Or.inl ⟨_, by decide, if_pos hopen⟩
    rw [if_neg hopen]
    by_cases halloc : (!ld.calloc secname) = true
    · exact Or.inl ⟨_, by decide, if_pos halloc⟩
    rw [if_neg halloc]
    by_cases hreopen : (!ld.reopen secname) = true
    · exact Or.inl ⟨_, by decide, if_pos hreopen⟩
    rw [if_neg hreopen]
    cases parseConfFile ld conf secname modConfIntArray [] vars with
    | none => exact Or.inl ⟨.fault, by decide, rfl⟩
    | some vars' =>
      dsimp only
      by_cases hsym : (!ld.dlsym (modPath cfgp secname)) = true
      · exact Or.inl ⟨_, by decide, if_pos hsym⟩
      rw [if_neg hsym]
      split_ifs with hinit hrange
      · exact Or.inl ⟨_, by decide, rfl⟩
      · exact Or.inl ⟨.fault, by decide, rfl⟩
      · exact Or.inr ⟨vars', rfl, rfl, Nat.not_le.mp hrange⟩

theorem loadSection_eq_module (h : loadSection ld cfgp conf vars secname = .module msp vars') :
    isStageSection cfgp secname = true ∧ parseConfFile ld conf secname modConfIntArray [] vars = some vars' ∧
      msp = moduleOf vars' secname ∧ vars'.pipelineId.toUInt32.toNat < pipelineSize := by
  rcases loadSection_cases ld cfgp conf vars secname with ⟨-, hskip⟩ | ⟨hstage, ⟨exit, -, hstop⟩ | ⟨v, hparse, hmod, hv⟩⟩
  · rw [hskip] at h
    cases h
  · rw [hstop] at h
    cases h
  · rw [hmod] at h
    cases h
    exact ⟨hstage, hparse, rfl, hv⟩

/-! ### Calls that return `CSF_OK` -/

/-- The sections that the loop takes for stages, up to the one where it stops. -/
def loadedSections (ld : Loader) (cfgp : CsfConf) (conf : Dictionary) : List (List Char) → ModVars → List (List Char)
  | [], _ => []
  | secname :: secnames, vars =>
    match loadSection ld cfgp conf vars secname with
    | .skip => loadedSections ld cfgp conf secnames vars
    | .stop _ => [secname]
    | .module _ vars => secname :: loadedSections ld cfgp conf secnames vars

theorem loadedSections_of_ok {mcqp : List ModConfig}
    (hok : (loadSections ld cfgp conf secnames vars mcqp).1 = .returned csfOk) :
    loadedSections ld cfgp conf secnames vars = secnames.filter (isStageSection cfgp) ∧
      (acceptedSections ld cfgp conf secnames vars).length = (secnames.filter (isStageSection cfgp)).length := by
  induction secnames generalizing vars mcqp with
  | nil => exact ⟨rfl, rfl⟩
  | cons secname secnames ih =>
    rw [loadSections] at hok
    rw [loadedSections, acceptedSections]
    rcases loadSection_cases ld cfgp conf vars secname with
      ⟨hstage, hskip⟩ | ⟨hstage, ⟨exit, hexit, hstop⟩ | ⟨v, -, hmod, -⟩⟩
    · rw [hskip] at hok ⊢
      rw [List.filter_cons_of_neg (by simp [hstage])]
      exact ih hok
    · rw [hstop] at hok
      exact absurd hok hexit
    · rw [hmod] at hok ⊢
      rw [List.filter_cons_of_pos hstage]
      obtain ⟨hloaded, hlen⟩ := ih hok
      exact ⟨congrArg _ hloaded, congrArg Nat.succ hlen⟩

theorem modConfigInit_some (ld : Loader) (cfgp : CsfConf) (conf : Dictionary) (vars : ModVars) (mcqp : List ModConfig) :
    modConfigInit ld cfgp (some conf) vars mcqp = loadSections ld cfgp conf (iniparserSecnames conf) vars mcqp := by
  rw [modConfigInit]
  split_ifs with hsec
  · have hnil : iniparserSecnames conf = [] := List.length_eq_zero_iff.mp (by rw [iniparserGetnsec] at hsec; omega)
    rw [hnil]
    rfl
  · rfl

end Sections

/-! ### The names of stages -/

def serverName : List Char := ['s', 'e', 'r', 'v', 'e', 'r']

theorem strncmpEqual_length_iff (s t : List Char) : strncmpEqual s t s.length = true ↔ s <+: t := by
  rw [strncmpEqual, List.take_length, beq_iff_eq, List.prefix_iff_eq_take]

theorem isStageSection_iff (cfgp : CsfConf) (secname : List Char) :
    isStageSection cfgp secname = true ↔ ¬ secname <+: serverName ∧ ¬ secname <+: cfgp.protocolModule := by
  rw [isStageSection, Bool.and_eq_true, Bool.not_eq_true', Bool.not_eq_true', ← Bool.not_eq_true, ← Bool.not_eq_true,
    strncmpEqual_length_iff, strncmpEqual_length_iff]
  rfl

/-- The section is neither `server` nor the protocol module, whose name the parser would have put into lower case. -/
def MeantAsStage (cfgp : CsfConf) (secname : List Char) : Prop :=
  secname ≠ serverName ∧ secname ≠ strlwc cfgp.protocolModule

instance (cfgp : CsfConf) (secname : List Char) : Decidable (MeantAsStage cfgp secname) :=
  inferInstanceAs (Decidable (_ ∧ _))

/-- A stage whose name is a prefix of `server` or of the name of the protocol module. -/
def PrefixName (cfgp : CsfConf) (secname : List Char) : Prop :=
  MeantAsStage cfgp secname ∧ (secname <+: serverName ∨ secname <+: cfgp.protocolModule)

/-- The section of the protocol module, when its name in the `server` section has upper case letters. -/
def OtherCase (cfgp : CsfConf) (secname : List Char) : Prop :=
  secname = strlwc cfgp.protocolModule ∧ ¬ secname <+: cfgp.protocolModule ∧ ¬ secname <+: serverName

instance (cfgp : CsfConf) (secname : List Char) : Decidable (PrefixName cfgp secname) :=
  inferInstanceAs (Decidable (_ ∧ _))

instance (cfgp : CsfConf) (secname : List Char) : Decidable (OtherCase cfgp secname) :=
  inferInstanceAs (Decidable (_ ∧ _))

theorem isStageSection_eq_iff (cfgp : CsfConf) (secname : List Char) :
    isStageSection cfgp secname = decide (MeantAsStage cfgp secname) ↔
      ¬ PrefixName cfgp secname ∧ ¬ OtherCase cfgp secname := by
  rw [Bool.eq_iff_iff, isStageSection_iff, decide_eq_true_iff, MeantAsStage, PrefixName, MeantAsStage, OtherCase]
  have hserver : secname = serverName → secname <+: serverName := by
    rintro rfl
    exact List.prefix_refl _
  tauto

/-- The sections `server` and `p.so` next to three stages. -/
def serverAndStages : Dictionary :=
  (serverName, none) :: (['p', '.', 's', 'o'], none) :: descendingStages

/-- `v` is no index of `pcb[]`. -/
def OutOfRange (v : Int64) : Prop := v.toInt < 0 ∨ pipelineSize ≤ v.toInt

instance (v : Int64) : Decidable (OutOfRange v) := inferInstanceAs (Decidable (_ ∨ _))

def pipelineKey (secname : List Char) : List Char :=
  secname ++ [':', 'p', 'i', 'p', 'e', 'l', 'i', 'n', 'e', '_', 'i', 'd']

/-- The section carries a `pipeline_id` that is out of range. -/
def outOfRangeSection (ld : Loader) (conf : Dictionary) (secname : List Char) : Bool :=
  match dictionaryGet conf (pipelineKey secname) with
  | some (some str) => decide (OutOfRange (ld.strtol str))
  | _ => false

/-- The entry is the section itself or one of its items. -/
def belongsTo (secname : List Char) (entry : List Char × Option (List Char)) : Bool :=
  entry.1 == secname || (secname ++ [':']).isPrefixOf entry.1

/-- The configuration without some of its sections. -/
def removeSections (conf : Dictionary) (secnames : List (List Char)) : Dictionary :=
  conf.filter fun entry => !secnames.any fun secname => belongsTo secname entry

/-- The stage sections that carry a `pipeline_id` that is out of range. -/
def badSections (ld : Loader) (cfgp : CsfConf) (conf : Dictionary) : List (List Char) :=
  (iniparserSecnames conf).filter fun secname => isStageSection cfgp secname && outOfRangeSection ld conf secname

/-- Whatever the call needs from outside of the repository succeeds. -/
structure Loads (ld : Loader) : Prop where
  dlopen : ∀ path, ld.dlopen path = true
  dlsym : ∀ path, ld.dlsym path = true
  calloc : ∀ secname, ld.calloc secname = true
  reopen : ∀ secname, ld.reopen secname = true
  modInit : ∀ secname msp, ¬ ld.modInit secname msp < 0

section OutOfRange

variable {ld : Loader} {cfgp : CsfConf} {conf : Dictionary}

theorem secnames_removeSections (conf : Dictionary) (gone : List (List Char)) :
    (iniparserSecnames (removeSections conf gone)).Sublist ((iniparserSecnames conf).filter fun key => key ∉ gone) := by
  have hkeys : ((removeSections conf gone).map Prod.fst).Sublist ((conf.map Prod.fst).filter fun key => key ∉ gone) := by
    rw [List.filter_map]
    refine List.Sublist.map _ (List.monotone_filter_right conf fun entry hentry => ?_)
    rw [Function.comp_apply, decide_eq_true_iff]
    intro hgone
    rw [Bool.not_eq_true', List.any_eq_false] at hentry
    exact hentry entry.1 hgone (by rw [belongsTo, beq_self_eq_true, Bool.true_or])
  rw [iniparserSecnames, iniparserSecnames, List.filter_comm]
  exact hkeys.filter _

theorem length_acceptedSections_le (ld : Loader) (cfgp : CsfConf) (conf : Dictionary) (secnames : List (List Char))
    (vars : ModVars) :
    (acceptedSections ld cfgp conf secnames vars).length ≤ (secnames.filter (isStageSection cfgp)).length := by
  induction secnames generalizing vars with
  | nil => exact Nat.le_refl _
  | cons secname secnames ih =>
    rw [acceptedSections]
    rcases loadSection_cases ld cfgp conf vars secname with
      ⟨hstage, hskip⟩ | ⟨hstage, ⟨exit, -, hstop⟩ | ⟨vars', -, hmod, -⟩⟩
    · rw [hskip, List.filter_cons_of_neg (by simp [hstage])]
      exact ih vars
    · rw [hstop]
      exact Nat.zero_le _
    · rw [hmod, List.filter_cons_of_pos hstage]
      exact Nat.succ_le_succ (ih vars')

theorem length_queue (vars : ModVars) (conf : Dictionary) :
    (modConfigInit ld cfgp (some conf) vars []).2.length =
      (acceptedSections ld cfgp conf (iniparserSecnames conf) vars).length := by
  rw [modConfigInit_queue]
  exact (perm_pairwise_foldl _).1.length_eq

theorem queue_ne_of_ok {vars : ModVars} {gone : List (List Char)} {secname : List Char}
    (hok : (modConfigInit ld cfgp (some conf) vars []).1 = .returned csfOk)
    (hsec : secname ∈ iniparserSecnames conf) (hstage : isStageSection cfgp secname = true) (hgone : secname ∈ gone) :
    (modConfigInit ld cfgp (some conf) vars []).2 ≠
      (modConfigInit ld cfgp (some (removeSections conf gone)) vars []).2 := by
  intro heq
  rw [modConfigInit_some] at hok
  have hlen := congrArg List.length heq
  rw [length_queue, length_queue, (loadedSections_of_ok hok).2] at hlen
  have hle := length_acceptedSections_le ld cfgp (removeSections conf gone) (iniparserSecnames (removeSections conf gone))
    vars
  have hsub := ((secnames_removeSections conf gone).filter (isStageSection cfgp)).length_le
  rw [List.filter_comm] at hsub
  have hlt : (((iniparserSecnames conf).filter (isStageSection cfgp)).filter fun key => key ∉ gone).length <
      ((iniparserSecnames conf).filter (isStageSection cfgp)).length :=
    List.length_filter_lt_length_iff_exists.mpr ⟨secname, List.mem_filter.mpr ⟨hsec, hstage⟩, by simpa using hgone⟩
  omega

theorem loadSection_ne_returned (h : Loads ld) (vars : ModVars) (secname : List Char) (rc : Int32) :
    loadSection ld cfgp conf vars secname ≠ .stop (.returned rc) := by
  rw [loadSection]
  simp only [h.dlopen, h.dlsym, h.calloc, h.reopen, h.modInit, Bool.not_true, Bool.false_eq_true, if_false]
  intro heq
  split at heq
  · cases heq
  · cases hparse : parseConfFile ld conf secname modConfIntArray [] vars with
    | none =>
      rw [hparse] at heq
      cases heq
    | some vars' =>
      rw [hparse] at heq
      dsimp only at heq
      split at heq <;> cases heq

theorem loadSections_exit (h : Loads ld) (secnames : List (List Char)) (vars : ModVars) (mcqp : List ModConfig) :
    (loadSections ld cfgp conf secnames vars mcqp).1 = .returned csfOk ∨
      (loadSections ld cfgp conf secnames vars mcqp).1 = .fault := by
  induction secnames generalizing vars mcqp with
  | nil => exact Or.inl rfl
  | cons secname secnames ih =>
    rw [loadSections]
    cases hload : loadSection ld cfgp conf vars secname with
    | skip => exact ih vars mcqp
    | module msp vars' => exact ih vars' (insertModule mcqp msp)
    | stop exit =>
      cases exit with
      | fault => exact Or.inr rfl
      | returned rc => exact absurd hload (loadSection_ne_returned h vars secname rc)

end OutOfRange

/-- A section with a `pipeline_id` that is out of range is never ignored. A call that returns `CSF_OK` has put it into
the queue; and if everything outside is in order, a call that does not return `CSF_OK` has read through `NULL`. -/
theorem out_of_range_never_ignored (ld : Loader) (cfgp : CsfConf) (conf : Dictionary) (vars : ModVars)
    (hbad : badSections ld cfgp conf ≠ []) :
    ¬ ((modConfigInit ld cfgp (some conf) vars []).1 = .returned csfOk ∧
        (modConfigInit ld cfgp (some conf) vars []).2 =
          (modConfigInit ld cfgp (some (removeSections conf (badSections ld cfgp conf))) vars []).2) ∧
      (Loads ld → ¬ ((modConfigInit ld cfgp (some conf) vars []).1 ≠ .fault ∧
        (modConfigInit ld cfgp (some conf) vars []).2 =
          (modConfigInit ld cfgp (some (removeSections conf (badSections ld cfgp conf))) vars []).2)) := by
  obtain ⟨secname, hsecname⟩ := List.exists_mem_of_ne_nil _ hbad
  obtain ⟨hsec, hstage⟩ := List.mem_filter.mp hsecname
  rw [Bool.and_eq_true] at hstage
  refine ⟨fun ⟨hok, heq⟩ => queue_ne_of_ok hok hsec hstage.1 hsecname heq, fun hloads ⟨hfault, heq⟩ => ?_⟩
  have hok : (modConfigInit ld cfgp (some conf) vars []).1 = .returned csfOk := by
    rw [modConfigInit_some] at hfault ⊢
    exact (loadSections_exit hloads _ vars []).resolve_right hfault
  exact queue_ne_of_ok hok hsec hstage.1 hsecname heq

/-- A loader whose `strtol` also knows `16` and `-1`. -/
def signedLoader : Loader :=
  { plainLoader with
    strtol := fun str => if str = ['1', '6'] then 16 else if str = ['-', '1'] then -1 else plainLoader.strtol str }

def fullSection : Dictionary := [
  (['b'], none), (['b', ':', 't', 'h', 'r', 'e', 'a', 'd', 's'], some ['2']),
  (['b', ':', 's', 't', 'a', 'g', 'e', '_', 'i', 'd'], some ['1']),
  (['b', ':', 'p', 'i', 'p', 'e', 'l', 'i', 'n', 'e', '_', 'i', 'd'], some ['1']),
  (['b', ':', 'd', 'e', 'l', 'a', 'y'], some ['3'])]

/-- The section `a`, which only has a `pipeline_id`, before `b`. -/
def pipelineBefore (str : List Char) : Dictionary :=
  (['a'], none) :: (pipelineKey ['a'], some str) :: fullSection

/-- Pipeline 16 is not ignored. -/
theorem out_of_range_never_ignored_run :
    badSections signedLoader plainConf (pipelineBefore ['1', '6']) ≠ [] ∧
      ¬ ((modConfigInit signedLoader plainConf (some (pipelineBefore ['1', '6'])) ModVars.default []).1 =
          .returned csfOk ∧
        (modConfigInit signedLoader plainConf (some (pipelineBefore ['1', '6'])) ModVars.default []).2 =
          (modConfigInit signedLoader plainConf (some (removeSections (pipelineBefore ['1', '6'])
            (badSections signedLoader plainConf (pipelineBefore ['1', '6'])))) ModVars.default []).2) :=
  ⟨by decide +kernel,
    (out_of_range_never_ignored signedLoader plainConf (pipelineBefore ['1', '6']) ModVars.default
      (by decide +kernel)).1⟩

/-- With pipeline 16 the call reads through `NULL` and `b` is lost; with pipeline -1 both sections are in the queue,
and without the section `a` only `b` is. -/
theorem out_of_range_faults :
    modConfigInit signedLoader plainConf (some (pipelineBefore ['1', '6'])) ModVars.default [] = (.fault, []) ∧
      modConfigInit signedLoader plainConf (some (pipelineBefore ['-', '1'])) ModVars.default [] =
        (.returned csfOk, [⟨0, 0, 1, 8, ['a']⟩, ⟨1, 3, 1, 2, ['b']⟩]) ∧
      removeSections (pipelineBefore ['1', '6']) [['a']] = fullSection ∧
      removeSections (pipelineBefore ['-', '1']) [['a']] = fullSection ∧
      modConfigInit signedLoader plainConf (some fullSection) ModVars.default [] =
        (.returned csfOk, [⟨1, 3, 1, 2, ['b']⟩]) := by
  decide +kernel

end Csf
