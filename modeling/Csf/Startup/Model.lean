import Csf.Config.Sections
import Csf.Pipeline.Route

/-!
# Start-up

`csf_init` (`worker.c`) calls `mod_config_init`, which opens the library of each stage and runs its `_mod_init`
(`libmod.c`), and then `pipeline_init` (`pipeline.c`), which turns the module queue into the `RQCB`s, the `PCB`s and the
worker threads.

The `RQCB`s are addressed by the order of their allocation. The tree of the stages (`pipeline_stage.c`) is a pointer
variable of the file. The server and each library are linked with a copy of this file, so each has its own variable,
and the heads of the trees are addressed by the order of their allocation as well. The tree itself is taken to be right:
it is the list of the `RQCB`s in it, at most one for each name. The model ends where `pipeline_init` begins to wait for
the threads. Outcomes of allocations and of thread creation are given by `Resources`.
-/

namespace Csf

def pipelineInitErr : Int32 := -1
def pipelineConfErr : Int32 := -2

def maxPipelineQueueSize : Int := 0x7FFFFFFF

/-! ### The trees of the stages -/

/-- The copies of `pipeline_stage.o`: one in the server, one in the library of each path. -/
inductive Copy
  | core
  | library (path : List Char)
  deriving DecidableEq

structure StageTrees where
  /-- the trees, by the address of their head -/
  trees : List (List Nat)
  /-- `stage_rqcb_rbt` of each copy -/
  stageRqcbRbt : Copy → Option Nat
  /-- `comm_handle.stagep` -/
  stagep : Option Nat

/-- Static variables are zero. -/
def StageTrees.initial : StageTrees := ⟨[], fun _ => none, none⟩

/-- `stage_init` of a copy, with the pointer that it returns. -/
def stageInit (copy : Copy) (p : Option Nat) (st : StageTrees) : StageTrees × Nat :=
  match p with
  | none =>
    ({ st with
        trees := st.trees ++ [[]]
        stageRqcbRbt := fun c => if c = copy then some st.trees.length else st.stageRqcbRbt c }, st.trees.length)
  | some p => ({ st with stageRqcbRbt := fun c => if c = copy then some p else st.stageRqcbRbt c }, p)

/-! ### The data of the pipelines -/

/-- The part of a `RQCB` that `pipeline_init` fills in, without the three handlers. -/
structure RqcbBlock where
  nextRqcb : Option Nat
  modName : List Char
  queueId : Nat
  delay : UInt32
  deriving DecidableEq

/-- What `calloc` returns. -/
def RqcbBlock.zero : RqcbBlock := ⟨none, [], 0, 0⟩

/-- The part of a `PCB` that does not change any more. -/
structure PcbBlock where
  pipelineId : UInt32
  firstRqcbp : Nat
  deriving DecidableEq

structure PipelineData where
  rqcbs : List RqcbBlock
  pcb : Pipeline → Option PcbBlock
  stages : StageTrees
  qid : Nat
  allThreadNum : UInt32
  /-- the `rqcb` of each thread in `pl_thr_queue_head` -/
  threads : List Nat

/-- `name_cmp` of the `RQCB` at an address with a name. -/
def sameName (rqcbs : List RqcbBlock) (name : List Char) (a : Nat) : Bool :=
  match rqcbs[a]? with
  | some b => b.modName.take (maxModNameLen - 1) == name.take (maxModNameLen - 1)
  | none => false

/-- `stage_find`; `none` is the read through a tree pointer that was never set. -/
def PipelineData.stageFind (d : PipelineData) (copy : Copy) (name : List Char) : Option (Option Nat) :=
  match d.stages.stageRqcbRbt copy with
  | none => none
  | some t => some ((d.stages.trees.getD t []).find? (sameName d.rqcbs (name.take (maxModNameLen - 1))))

/-- `set_next_stage`, with the value of `wtip->next_rqcbp` before and after the call. -/
def PipelineData.setNextStage (d : PipelineData) (copy : Copy) (name : List Char) (nextRqcbp : Option Nat) :
    Option (Int × Option Nat) :=
  match d.stageFind copy name with
  | none => none
  | some none => some (stageSetErr, nextRqcbp)
  | some (some a) => some (stageSetOk, some a)

/-- `stage_add`: `none` is the read through a tree pointer that was never set, `some none` is `STAGE_ADD_ERR`. -/
def stageAdd (copy : Copy) (rqcbp : Nat) (d : PipelineData) : Option (Option PipelineData) :=
  match d.stages.stageRqcbRbt copy with
  | none => none
  | some t =>
    if (d.stages.trees.getD t []).any (sameName d.rqcbs (d.rqcbs.getD rqcbp .zero).modName) then some none
    else some (some { d with stages := { d.stages with trees := d.stages.trees.modify t (· ++ [rqcbp]) } })

/-! ### `pipeline_init` -/

/-- What becomes of one round of `thread_pool_init`. -/
inductive ThreadOutcome
  /-- `calloc` fails, which ends the loop -/
  | noMemory
  /-- `pthread_create` fails -/
  | notCreated
  | created
  deriving DecidableEq

/-- What `pipeline_init` gets from the system. Allocations are given for the address of the new block. -/
structure Resources where
  /-- `malloc` in `stage_init` -/
  tree : Bool
  /-- `worker_mutex` and `worker_cond` can be initialised -/
  worker : Bool
  rqcb : Nat → Bool
  pcb : Pipeline → Bool
  /-- the mutex and the condition variable of a `RQCB` can be initialised -/
  queue : Nat → Bool
  thread : Nat → Nat → ThreadOutcome

inductive InitResult
  | returned (rc : Int32)
  /-- `CRIT` ends the process -/
  | crit
  /-- an access through `NULL` or behind the end of `pcb[]` -/
  | fault
  /-- it waits for the threads, with `pcb[]` and the `RQCB`s in place -/
  | waiting
  deriving DecidableEq

/-- The loop of `thread_pool_init` from round `i` on, with the rounds that are left. -/
def threadPoolInit (outcome : Nat → ThreadOutcome) (rqcbp : Nat) : (left : Nat) → (i : Nat) → List Nat
  | 0, _ => []
  | left + 1, i =>
    match outcome i with
    | .noMemory => []
    | .notCreated => threadPoolInit outcome rqcbp left (i + 1)
    | .created => rqcbp :: threadPoolInit outcome rqcbp left (i + 1)

/-- `RQCB` fields are written through the pointer. -/
def PipelineData.modifyRqcb (d : PipelineData) (a : Nat) (f : RqcbBlock → RqcbBlock) : PipelineData :=
  { d with rqcbs := d.rqcbs.modify a f }

/-- The `PCB` of a pipeline is allocated with its first stage; `none` if `calloc` fails. -/
def addPcb (env : Resources) (mcp : ModConfig) (curId : Pipeline) (rqcbp : Nat) (d : PipelineData) :
    Option PipelineData :=
  match d.pcb curId with
  | some _ => some d
  | none =>
    if env.pcb curId then
      some { d with pcb := fun p => if p = curId then some ⟨mcp.pipelineId, rqcbp⟩ else d.pcb p }
    else none

/-- The `RQCB` of the next module is allocated one round ahead. It gives `next_rqcbp`, `next_arg` and the data; `none`
if `calloc` fails. -/
def addNext (env : Resources) (mcp : ModConfig) (nextMcp : Option ModConfig) (rqcbp : Nat) (d : PipelineData) :
    Option (Option Nat × Option Nat × PipelineData) :=
  match nextMcp with
  | none => some (none, none, d)
  | some nextMcp =>
    let nextRqcbp := d.rqcbs.length
    if env.rqcb nextRqcbp then
      let d := { d with rqcbs := d.rqcbs ++ [RqcbBlock.zero] }
      if nextMcp.pipelineId = mcp.pipelineId then
        some (nextRqcbp, nextRqcbp,
          { d.modifyRqcb rqcbp (fun b => { b with queueId := d.qid }) with qid := d.qid + 1 })
      else some (nextRqcbp, none, { d with qid := 0 })
    else none

/-- `request_queue_init` and the threads of the stage. -/
def startStage (env : Resources) (mcp : ModConfig) (nextArg : Option Nat) (rqcbp : Nat) (d : PipelineData) :
    PipelineData :=
  { d.modifyRqcb rqcbp (fun b => { b with nextRqcb := nextArg, delay := mcp.delay }) with
    allThreadNum := d.allThreadNum + mcp.threadNum.toUInt32
    threads := d.threads ++ threadPoolInit (env.thread rqcbp) rqcbp mcp.threadNum.toInt.toNat 0 }

/-- What one round of the loop over the modules comes to. -/
inductive RoundResult
  | stop (result : InitResult)
  | next (rqcbp : Option Nat) (d : PipelineData)

def addModule (env : Resources) (mcp : ModConfig) (nextMcp : Option ModConfig) (rqcbp : Nat) (d : PipelineData) :
    RoundResult :=
  let d := d.modifyRqcb rqcbp fun b => { b with modName := mcp.modName.take (maxModNameLen - 1) }
  match stageAdd .core rqcbp d with
  | none => .stop .fault
  | some none => .stop (.returned pipelineInitErr)
  | some (some d) =>
    if hid : mcp.pipelineId.toNat < pipelineSize then
      match addPcb env mcp ⟨mcp.pipelineId.toNat, hid⟩ rqcbp d with
      | none => .stop (.returned pipelineInitErr)
      | some d =>
        match addNext env mcp nextMcp rqcbp d with
        | none => .stop (.returned pipelineInitErr)
        | some (nextRqcbp, nextArg, d) =>
          if env.queue rqcbp then .next nextRqcbp (startStage env mcp nextArg rqcbp d) else .stop .crit
    else .stop .fault

theorem exists_of_addModule {env : Resources} {mcp : ModConfig} {nextMcp : Option ModConfig} {rqcbp : Nat}
    {d d' : PipelineData} {next : Option Nat} (h : addModule env mcp nextMcp rqcbp d = .next next d') :
    ∃ curId d₁ d₂ d₃ nextArg,
      stageAdd .core rqcbp
        (d.modifyRqcb rqcbp fun b => { b with modName := mcp.modName.take (maxModNameLen - 1) }) = some (some d₁) ∧
      addPcb env mcp curId rqcbp d₁ = some d₂ ∧ addNext env mcp nextMcp rqcbp d₂ = some (next, nextArg, d₃) ∧
      d' = startStage env mcp nextArg rqcbp d₃ := by
  unfold addModule at h
  dsimp only at h
  split at h
  · cases h
  · cases h
  · rename_i d₁ hadd
    split at h
    · split at h
      · cases h
      · rename_i d₂ hpcb
        split at h
        · cases h
        · rename_i next₂ nextArg d₃ hnext
          split at h
          · cases h
            exact ⟨_, d₁, d₂, d₃, nextArg, hadd, hpcb, hnext, rfl⟩
          · cases h
    · cases h

def pipelineLoop (env : Resources) : List ModConfig → Option Nat → PipelineData → InitResult × PipelineData
  | [], _, d => (.waiting, d)
  | _ :: _, none, d => (.fault, d)
  | mcp :: mqp, some rqcbp, d =>
    match addModule env mcp mqp.head? rqcbp d with
    | .stop result => (result, d)
    | .next rqcbp d => pipelineLoop env mqp rqcbp d

/-- `pipeline_init` up to its wait for the threads. The libraries have been initialised with `stages`. -/
def pipelineInit (env : Resources) (mqp : List ModConfig) (queueSize : Int) (stages : StageTrees) :
    InitResult × PipelineData :=
  let d : PipelineData := ⟨[], fun _ => none, stages, 0, 0, []⟩
  if mqp.isEmpty then (.returned pipelineConfErr, d)
  else if 0 ≤ queueSize ∧ queueSize < maxPipelineQueueSize then
    if !env.tree then (.crit, d)
    else
      let init := stageInit .core none stages
      let d := { d with stages := { init.1 with stagep := some init.2 } }
      if !env.worker then (.returned pipelineInitErr, d)
      else if !env.rqcb 0 then (.returned pipelineInitErr, d)
      else pipelineLoop env mqp (some 0) { d with rqcbs := [RqcbBlock.zero] }
  else (.returned pipelineConfErr, d)

/-! ### `csf_init` -/

/-- The calls of `_mod_init` that `mod_config_init` makes, each with `comm_handle.stagep`. A call that stops the loop
ends the start-up as well. -/
def modInits (ld : Loader) (cfgp : CsfConf) (conf : Dictionary) : List (List Char) → ModVars → StageTrees → StageTrees
  | [], _, st => st
  | secname :: secnames, vars, st =>
    match loadSection ld cfgp conf vars secname with
    | .skip => modInits ld cfgp conf secnames vars st
    | .stop _ => st
    | .module _ vars =>
      modInits ld cfgp conf secnames vars (stageInit (.library (modPath cfgp secname)) st.stagep st).1

/-- `csf_init` from `mod_config_init` to the wait in `pipeline_init`; `none` if it does not come to `pipeline_init`. -/
def csfInit (ld : Loader) (cfgp : CsfConf) (conf : Dictionary) (env : Resources) (queueSize : Int) :
    Option (InitResult × PipelineData) :=
  match modConfigInit ld cfgp (some conf) ModVars.default [] with
  | (.returned rc, mqp) =>
    if rc = csfOk ∧ !mqp.isEmpty then
      some (pipelineInit env mqp queueSize
        (modInits ld cfgp conf (iniparserSecnames conf) ModVars.default .initial))
    else none
  | (.fault, _) => none

end Csf
