import Csf.Pipeline.Model

/-!
# Reading the configuration of the modules

`mod_config_init` (`module.c`) walks over the sections of the configuration file. A section that is neither
`server` nor the protocol module names a library with the handlers of one stage: it is opened, its settings are read
into the static variables behind `mod_conf_int_array`, and its `MOD_CONFIG` is put into the module queue, which
`pipeline_init` consumes from front to back.

A parsed file is the list of the entries of its `dictionary`, in the order of their slots. Strings are lists of
characters. What is not part of the repository is a parameter, `Loader`: the dynamic linker, the system allocator,
`strtol`, and the `mod_init` of each library.
-/

namespace Csf

def confItemLen : Nat := 63

def asciiLineSz : Nat := 1024

def csfOk : Int32 := 0
def csfErr : Int32 := -1
def modConfErr : Int32 := -3

/-! ### The dictionary -/

/-- The keys of a `dictionary` with their values; a section is a key without a colon, its value is `NULL`. -/
abbrev Dictionary := List (List Char × Option (List Char))

/-- `dictionary_get`: `none` if the key is not there, `some none` if its value is `NULL`. -/
def dictionaryGet (d : Dictionary) (key : List Char) : Option (Option (List Char)) :=
  (d.find? fun entry => entry.1 == key).map Prod.snd

/-- The section names, as `iniparser_getsecname` returns them for `0`, `1`, … -/
def iniparserSecnames (d : Dictionary) : List (List Char) := (d.map Prod.fst).filter fun key => ':' ∉ key

def iniparserGetnsec (d : Dictionary) : Nat := (iniparserSecnames d).length

def strlwc (s : List Char) : List Char := (s.take asciiLineSz).map Char.toLower

def iniparserGetstring (d : Dictionary) (key : List Char) : Option (Option (List Char)) :=
  dictionaryGet d (strlwc key)

def strncmpEqual (s t : List Char) (n : Nat) : Bool := s.take n == t.take n

/-! ### The item tables -/

/-- `CONF_INT_CONFIG`: the name of an item and the store through its `var` pointer. -/
structure IntConfig (σ : Type) where
  configName : List Char
  var : σ → Int32 → σ

structure StrConfig (σ : Type) where
  configName : List Char
  var : σ → List Char → σ

/-- `snprintf(buf, CONF_ITEM_LEN, "%s:%s", mod_name, config_name)` -/
def confKey (modName configName : List Char) : List Char := (modName ++ ':' :: configName).take (confItemLen - 1)

structure ModVars where
  threadnum : Int32
  stageId : Int32
  pipelineId : Int32
  pipelineDelay : Int32
  deriving DecidableEq

/-- `DEFAULT_THREAD_NUMBER`, `DEFAULT_THREAD_STAGE_ID`, `DEFAULT_PIPELINE_ID`, `DEFAULT_PIPELINE_DELAY` -/
def ModVars.default : ModVars := ⟨8, 1, 0, 0⟩

def modConfIntArray : List (IntConfig ModVars) := [
  ⟨['t', 'h', 'r', 'e', 'a', 'd', 's'], fun vars i => { vars with threadnum := i }⟩,
  ⟨['s', 't', 'a', 'g', 'e', '_', 'i', 'd'], fun vars i => { vars with stageId := i }⟩,
  ⟨['p', 'i', 'p', 'e', 'l', 'i', 'n', 'e', '_', 'i', 'd'], fun vars i => { vars with pipelineId := i }⟩,
  ⟨['d', 'e', 'l', 'a', 'y'], fun vars i => { vars with pipelineDelay := i }⟩]

/-- `MOD_CONFIG` without its link and without the three handlers, which only `mod_init` sets. -/
structure ModConfig where
  pipelineId : UInt32
  delay : UInt32
  stageId : Int32
  threadNum : Int32
  modName : List Char
  deriving DecidableEq

/-- The two fields of `CSF_CONF` that `mod_config_init` reads. -/
structure CsfConf where
  modDir : List Char
  protocolModule : List Char

/-- What is outside of the repository. The outcomes of `calloc` and of opening the file again in `load_conf` are given
for each section. -/
structure Loader where
  strtol : List Char → Int64
  /-- `dlopen` of a path finds a library -/
  dlopen : List Char → Bool
  /-- the library of a path has a `_mod_init` -/
  dlsym : List Char → Bool
  calloc : List Char → Bool
  reopen : List Char → Bool
  modInit : List Char → ModConfig → Int32

variable (ld : Loader)

/-- `iniparser_getint`; `none` is the read through a `NULL` value in `strtol`. -/
def iniparserGetint (d : Dictionary) (key : List Char) (notfound : Int32) : Option Int32 :=
  match iniparserGetstring d key with
  | none => some notfound
  | some none => none
  | some (some str) => some (ld.strtol str).toInt32

/-- The loop over the integer items in `parse_conf_file`. An item with the value `-1` counts as missing, and a missing
item leaves its variable as it is. -/
def parseIntItems {σ : Type} (conf : Dictionary) (modName : List Char) : List (IntConfig σ) → σ → Option σ
  | [], vars => some vars
  | cicp :: cic, vars =>
    match iniparserGetint ld conf (confKey modName cicp.configName) (-1) with
    | none => none
    | some i => parseIntItems conf modName cic (if i ≠ -1 then cicp.var vars i else vars)

/-- The loop over the string items in `parse_conf_file`. -/
def parseStrItems {σ : Type} (conf : Dictionary) (modName : List Char) : List (StrConfig σ) → σ → σ
  | [], vars => vars
  | cscp :: csc, vars =>
    match iniparserGetstring conf (confKey modName cscp.configName) with
    | some (some s) => parseStrItems conf modName csc (cscp.var vars (s.take confItemLen))
    | _ => parseStrItems conf modName csc vars

def parseConfFile {σ : Type} (conf : Dictionary) (modName : List Char) (cic : List (IntConfig σ))
    (csc : List (StrConfig σ)) (vars : σ) : Option σ :=
  (parseIntItems ld conf modName cic vars).map (parseStrItems conf modName csc)

/-! ### The module queue -/

/-- The `TAILQ_FOREACH` that looks for a module of a larger pipeline and inserts the new one before it; `none` if the
queue has no such module (`flag` is still `0`). -/
def insertBeforeLarger (msp : ModConfig) : List ModConfig → Option (List ModConfig)
  | [] => none
  | msp1 :: rest =>
    if msp1.pipelineId > msp.pipelineId then some (msp :: msp1 :: rest)
    else (insertBeforeLarger msp rest).map (msp1 :: ·)

/-- The insertion at the end of the loop body of `mod_config_init`. -/
def insertModule (mcqp : List ModConfig) (msp : ModConfig) : List ModConfig :=
  match insertBeforeLarger msp mcqp with
  | some mcqp' => mcqp'
  | none =>
    match mcqp.getLast? with
    | none => mcqp ++ [msp]
    | some msp1 =>
      if msp1.pipelineId = msp.pipelineId then
        if msp1.stageId > msp.stageId then mcqp.dropLast ++ [msp, msp1] else mcqp ++ [msp]
      else mcqp ++ [msp]

/-! ### `mod_config_init` -/

inductive Exit
  | returned (rc : Int32)
  /-- a read or a call through a `NULL` pointer -/
  | fault
  deriving DecidableEq

inductive SectionResult
  /-- it is no stage -/
  | skip
  | stop (exit : Exit)
  | module (msp : ModConfig) (vars : ModVars)

/-- The two tests on the name, over the length of the name of the section. -/
def isStageSection (cfgp : CsfConf) (secname : List Char) : Bool :=
  !strncmpEqual secname ['s', 'e', 'r', 'v', 'e', 'r'] secname.length &&
    !strncmpEqual secname cfgp.protocolModule secname.length

/-- `snprintf(buf, 2 * CONF_ITEM_LEN, "%s/%s", cfgp->mod_dir, secname)` -/
def modPath (cfgp : CsfConf) (secname : List Char) : List Char :=
  (cfgp.modDir ++ '/' :: secname).take (2 * confItemLen - 1)

/-- The loop body of `mod_config_init` up to the insertion. -/
def loadSection (cfgp : CsfConf) (conf : Dictionary) (vars : ModVars) (secname : List Char) : SectionResult :=
  if !isStageSection cfgp secname then .skip
  else if !ld.dlopen (modPath cfgp secname) then .stop (.returned csfErr)
  else if !ld.calloc secname then .stop (.returned csfErr)
  else if !ld.reopen secname then .stop (.returned modConfErr)
  else
    match parseConfFile ld conf secname modConfIntArray [] vars with
    | none => .stop .fault
    | some vars =>
      let msp : ModConfig :=
        ⟨vars.pipelineId.toUInt32, vars.pipelineDelay.toUInt32, vars.stageId, vars.threadnum, []⟩
      -- a missing _mod_init is reported above, and called here all the same
      if !ld.dlsym (modPath cfgp secname) then .stop .fault
      else if ld.modInit secname msp < 0 then .stop (.returned csfErr)
      -- msp is set to NULL before the message prints msp->pipeline_id
      else if msp.pipelineId.toNat ≥ pipelineSize then .stop .fault
      else .module { msp with modName := secname.take (maxModNameLen - 1) } vars

/-- The loop over the sections, with the static variables and the queue. -/
def loadSections (cfgp : CsfConf) (conf : Dictionary) : List (List Char) → ModVars → List ModConfig →
    Exit × List ModConfig
  | [], _, mcqp => (.returned csfOk, mcqp)
  | secname :: secnames, vars, mcqp =>
    match loadSection ld cfgp conf vars secname with
    | .skip => loadSections cfgp conf secnames vars mcqp
    | .stop exit => (exit, mcqp)
    | .module msp vars => loadSections cfgp conf secnames vars (insertModule mcqp msp)

/-- `mod_config_init`, with the result of parsing the file and the static variables as they stand before the call.
It gives how the call ends and the queue it leaves. -/
def modConfigInit (cfgp : CsfConf) (conf : Option Dictionary) (vars : ModVars) (mcqp : List ModConfig) :
    Exit × List ModConfig :=
  match conf with
  | none => (.returned csfErr, mcqp)
  | some conf =>
    if iniparserGetnsec conf < 1 then (.returned csfOk, mcqp)
    else loadSections ld cfgp conf (iniparserSecnames conf) vars mcqp

end Csf
