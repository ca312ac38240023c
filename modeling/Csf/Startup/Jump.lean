import Csf.Startup.Chains

/-!
# Jumps to a stage by its name

`mod_config_init` initialises the libraries before `pipeline_init` makes the tree of the stages. At that time
`comm_handle.stagep` is `NULL`, and `stage_init(NULL)` in the library makes a tree of its own for it. So each library
keeps a tree that nothing is ever added to (`LibraryTree`), and `set_next_stage` finds no stage in it.
-/

namespace Csf

/-- The tree of a library is empty, and it is not the tree of the server. -/
def LibraryTree (st : StageTrees) (path : List Char) : Prop :=
  ∃ t, st.stageRqcbRbt (.library path) = some t ∧ t < st.trees.length ∧ st.trees.getD t [] = [] ∧
    st.stageRqcbRbt .core ≠ some t

/-! ### `mod_config_init` -/

section Libraries

variable {ld : Loader} {cfgp : CsfConf} {conf : Dictionary} {st : StageTrees} {path : List Char}

/-- No tree has been handed to the libraries, and the server has none. -/
structure Unshared (st : StageTrees) : Prop where
  stagep : st.stagep = none
  core : st.stageRqcbRbt .core = none

theorem Unshared.stageInit (h : Unshared st) (path : List Char) :
    Unshared (Csf.stageInit (.library path) st.stagep st).1 := by
  rw [h.stagep]
  exact ⟨h.stagep, h.core⟩

theorem libraryTree_stageInit (h : Unshared st) (path : List Char) :
    LibraryTree (stageInit (.library path) st.stagep st).1 path := by
  rw [h.stagep]
  refine ⟨st.trees.length, ?_, ?_, ?_, ?_⟩
  · exact if_pos rfl
  · simp [stageInit]
  · simp [stageInit]
  · have hcore : (stageInit (.library path) none st).1.stageRqcbRbt .core = none := h.core
    rw [hcore]
    exact Option.some_ne_none _ ∘ Eq.symm

theorem LibraryTree.stageInit (h : Unshared st) (hlib : LibraryTree st path) (path' : List Char) :
    LibraryTree (Csf.stageInit (.library path') st.stagep st).1 path := by
  by_cases hpath : path = path'
  · exact hpath ▸ libraryTree_stageInit h path
  · obtain ⟨t, hroot, hlt, hempty, hcore⟩ := hlib
    rw [h.stagep]
    refine ⟨t, ?_, ?_, ?_, hcore⟩
    · exact (if_neg (by simpa using hpath)).trans hroot
    · exact Nat.lt_of_lt_of_le hlt (by simp [Csf.stageInit])
    · rw [List.getD_eq_getElem?_getD] at hempty ⊢
      exact (congrArg (·.getD []) (List.getElem?_append_left hlt)).trans hempty

theorem libraryTree_modInits {secnames : List (List Char)} {vars : ModVars} (h : Unshared st) :
    Unshared (modInits ld cfgp conf secnames vars st) ∧
      ∀ path, LibraryTree st path → LibraryTree (modInits ld cfgp conf secnames vars st) path := by
  induction secnames generalizing vars st with
  | nil => exact ⟨h, fun _ hlib => hlib⟩
  | cons secname secnames ih =>
    rw [modInits]
    cases loadSection ld cfgp conf vars secname with
    | skip => exact ih h
    | stop exit => exact ⟨h, fun _ hlib => hlib⟩
    | module msp vars' =>
      obtain ⟨hun, hlibs⟩ := @ih _ vars' (h.stageInit (modPath cfgp secname))
      exact ⟨hun, fun path hlib => hlibs path (hlib.stageInit h _)⟩

theorem libraryTree_of_ok {secnames : List (List Char)} {vars : ModVars} {mcqp : List ModConfig} (h : Unshared st)
    (hok : (loadSections ld cfgp conf secnames vars mcqp).1 = .returned csfOk) {secname : List Char}
    (hsec : secname ∈ secnames) (hstage : isStageSection cfgp secname = true) :
    LibraryTree (modInits ld cfgp conf secnames vars st) (modPath cfgp secname) := by
  induction secnames generalizing vars mcqp st with
  | nil => cases hsec
  | cons s secnames ih =>
    rw [loadSections] at hok
    rw [modInits]
    rcases loadSection_cases ld cfgp conf vars s with ⟨hs, hskip⟩ | ⟨-, ⟨exit, hexit, hstop⟩ | ⟨v, -, hmod, -⟩⟩
    · rw [hskip] at hok ⊢
      rcases List.mem_cons.mp hsec with rfl | hsec
      · rw [hs] at hstage
        cases hstage
      · exact ih h hok hsec
    · rw [hstop] at hok
      exact absurd hok hexit
    · rw [hmod] at hok ⊢
      rcases List.mem_cons.mp hsec with rfl | hsec
      · exact (libraryTree_modInits (h.stageInit _)).2 _ (libraryTree_stageInit h _)
      · exact ih (h.stageInit _) hok hsec

end Libraries

/-! ### `pipeline_init` -/

section Pipelines

variable {env : Resources} {mcp : ModConfig} {nextMcp : Option ModConfig} {path : List Char} {d d' : PipelineData}

theorem stages_addPcb {curId : Pipeline} {a : Nat} (h : addPcb env mcp curId a d = some d') : d'.stages = d.stages := by
  rw [addPcb] at h
  split at h
  · rw [← Option.some.inj h]
  · split_ifs at h
    rw [← Option.some.inj h]

theorem stages_addNext {a : Nat} {next arg : Option Nat} (h : addNext env mcp nextMcp a d = some (next, arg, d')) :
    d'.stages = d.stages := by
  unfold addNext at h
  split at h
  · cases h
    rfl
  · dsimp only at h
    split_ifs at h
    · cases h
      rfl
    · cases h
      rfl

theorem LibraryTree.stageAdd {a : Nat} (hlib : LibraryTree d.stages path)
    (h : Csf.stageAdd .core a d = some (some d')) : LibraryTree d'.stages path := by
  obtain ⟨t, hroot, hlt, hempty, hcore⟩ := hlib
  rw [Csf.stageAdd] at h
  cases hT : d.stages.stageRqcbRbt .core with
  | none =>
    rw [hT] at h
    cases h
  | some T =>
    rw [hT] at h
    dsimp only at h
    split_ifs at h
    · cases h
    · cases h
      have hne : T ≠ t := fun heq => hcore (heq ▸ hT)
      refine ⟨t, hroot, ?_, ?_, hcore⟩
      · exact Nat.lt_of_lt_of_eq hlt (List.length_modify _ _ _).symm
      · rw [List.getD_eq_getElem?_getD] at hempty ⊢
        rw [List.getElem?_modify_ne _ _ hne]
        exact hempty

theorem LibraryTree.addModule {a : Nat} {next : Option Nat} (hlib : LibraryTree d.stages path)
    (h : Csf.addModule env mcp nextMcp a d = .next next d') : LibraryTree d'.stages path := by
  obtain ⟨curId, d₁, d₂, d₃, nextArg, hadd, hpcb, hnext, rfl⟩ := exists_of_addModule h
  have hlib₁ : LibraryTree d₁.stages path := LibraryTree.stageAdd (d := d.modifyRqcb a _) hlib hadd
  have hstages : d₃.stages = d₁.stages := (stages_addNext hnext).trans (stages_addPcb hpcb)
  exact hstages ▸ hlib₁

theorem LibraryTree.pipelineLoop {mqp : List ModConfig} {rqcbp : Option Nat} (hlib : LibraryTree d.stages path) :
    LibraryTree (Csf.pipelineLoop env mqp rqcbp d).2.stages path := by
  induction mqp generalizing rqcbp d with
  | nil => cases rqcbp <;> exact hlib
  | cons mcp mqp ih =>
    cases rqcbp with
    | none => exact hlib
    | some a =>
      rw [Csf.pipelineLoop]
      cases hround : Csf.addModule env mcp mqp.head? a d with
      | stop result => exact hlib
      | next rqcbp d' => exact ih (hlib.addModule hround)

end Pipelines

theorem LibraryTree.newCore {st : StageTrees} {path : List Char} (h : LibraryTree st path) (stagep : Option Nat) :
    LibraryTree { (Csf.stageInit .core none st).1 with stagep := stagep } path := by
  obtain ⟨t, hroot, hlt, hempty, -⟩ := h
  refine ⟨t, hroot, ?_, ?_, ?_⟩
  · exact Nat.lt_of_lt_of_le hlt (by simp [Csf.stageInit])
  · rw [List.getD_eq_getElem?_getD] at hempty ⊢
    exact (congrArg (·.getD []) (List.getElem?_append_left hlt)).trans hempty
  · exact fun heq => Nat.ne_of_gt hlt (Option.some.inj heq)

theorem libraryTree_pipelineInit {env : Resources} {mqp : List ModConfig} {queueSize : Int} {st : StageTrees}
    {path : List Char} (h : LibraryTree st path) : LibraryTree (pipelineInit env mqp queueSize st).2.stages path := by
  unfold pipelineInit
  dsimp only
  split_ifs
  · exact h
  · exact h
  · exact h.newCore _
  · exact h.newCore _
  · exact LibraryTree.pipelineLoop (h.newCore _)
  · exact h

theorem libraryTree_csfInit {ld : Loader} {cfgp : CsfConf} {conf : Dictionary} {env : Resources} {queueSize : Int}
    {result : InitResult} {d : PipelineData} (hinit : csfInit ld cfgp conf env queueSize = some (result, d))
    {secname : List Char} (hsec : secname ∈ iniparserSecnames conf) (hstage : isStageSection cfgp secname = true) :
    LibraryTree d.stages (modPath cfgp secname) := by
  rw [csfInit] at hinit
  split at hinit
  · rename_i rc mqp hconf
    split_ifs at hinit with hok
    have hd : (pipelineInit env mqp queueSize
        (modInits ld cfgp conf (iniparserSecnames conf) ModVars.default .initial)).2 = d :=
      congrArg Prod.snd (Option.some.inj hinit)
    have hall : (loadSections ld cfgp conf (iniparserSecnames conf) ModVars.default []).1 = .returned csfOk := by
      rw [← modConfigInit_some, hconf, hok.1]
    rw [← hd]
    exact libraryTree_pipelineInit (libraryTree_of_ok ⟨rfl, rfl⟩ hall hsec hstage)
  · cases hinit

theorem setNextStage_library {d : PipelineData} {path : List Char} (h : LibraryTree d.stages path) (name : List Char)
    (nextRqcbp : Option Nat) : d.setNextStage (.library path) name nextRqcbp = some (stageSetErr, nextRqcbp) := by
  obtain ⟨t, hroot, -, hempty, -⟩ := h
  rw [PipelineData.setNextStage, PipelineData.stageFind, hroot]
  dsimp only
  rw [hempty]
  rfl

theorem setNextStage_core {queue : List ModConfig} {t : Nat} {d : PipelineData} (h : Built queue t queue.length d)
    (hnames : DistinctNames queue) {i : Nat} {mcp : ModConfig} (hi : queue[i]? = some mcp) {name : List Char}
    (hname : name.take (maxModNameLen - 1) = mcp.modName.take (maxModNameLen - 1)) (nextRqcbp : Option Nat) :
    d.setNextStage .core name nextRqcbp = some (stageSetOk, some i) := by
  obtain ⟨hin, -⟩ := List.getElem?_eq_some_iff.mp hi
  have hsame : ∀ j < queue.length, sameName d.rqcbs (name.take (maxModNameLen - 1)) j = true ↔ j = i := by
    intro j hj
    obtain ⟨b, hb, hblock⟩ := h.block j queue[j] hj (List.getElem?_eq_getElem hj)
    rw [sameName, hb]
    dsimp only
    rw [hblock.modName, hname, List.take_take, List.take_take, Nat.min_self, beq_iff_eq]
    constructor
    · intro heq
      refine (List.getElem?_inj (by rwa [List.length_map]) hnames).mp ?_
      rw [List.getElem?_map, List.getElem?_map, hi, List.getElem?_eq_getElem hj, Option.map_some, Option.map_some, heq]
    · rintro rfl
      rw [List.getElem?_eq_getElem hj] at hi
      rw [Option.some.inj hi]
  have hfind : (List.range queue.length).find? (sameName d.rqcbs (name.take (maxModNameLen - 1))) = some i := by
    refine List.find?_range_eq_some.mpr ⟨(hsame i hin).mpr rfl, List.mem_range.mpr hin, fun j hj => ?_⟩
    rw [Bool.not_eq_true', ← Bool.not_eq_true, hsame j (Nat.lt_trans hj hin)]
    exact Nat.ne_of_lt hj
  rw [PipelineData.setNextStage, PipelineData.stageFind, h.root]
  dsimp only
  rw [h.tree, hfind]

/-- The configuration has a stage of this name, as far as the tree compares names. -/
def StageNamed (cfgp : CsfConf) (conf : Dictionary) (name : List Char) : Prop :=
  ∃ secname ∈ iniparserSecnames conf, isStageSection cfgp secname = true ∧
    secname.take (maxModNameLen - 1) = name.take (maxModNameLen - 1)

/-- A call of `set_next_stage` in a copy does what it is for: it selects the `RQCB` of the stage, and fails for names
that no stage has. -/
structure JumpsRight (cfgp : CsfConf) (conf : Dictionary) (d : PipelineData) (copy : Copy) (name : List Char)
    (nextRqcbp : Option Nat) : Prop where
  found : StageNamed cfgp conf name →
    ∃ a, sameName d.rqcbs name a = true ∧ d.setNextStage copy name nextRqcbp = some (stageSetOk, some a)
  missing : ¬ StageNamed cfgp conf name → d.setNextStage copy name nextRqcbp = some (stageSetErr, nextRqcbp)

/-- In the handler of a module a jump does what it is for if and only if no stage has the name that is asked for. -/
theorem stage_jump_iff (ld : Loader) (cfgp : CsfConf) (conf : Dictionary) (env : Resources) (queueSize : Int)
    (d : PipelineData) (hinit : csfInit ld cfgp conf env queueSize = some (.waiting, d)) (secname : List Char)
    (hsec : secname ∈ iniparserSecnames conf) (hstage : isStageSection cfgp secname = true) (name : List Char)
    (nextRqcbp : Option Nat) :
    JumpsRight cfgp conf d (.library (modPath cfgp secname)) name nextRqcbp ↔ ¬ StageNamed cfgp conf name := by
  have herr := setNextStage_library (libraryTree_csfInit hinit hsec hstage) name nextRqcbp
  constructor
  · intro h hnamed
    obtain ⟨a, -, hok⟩ := h.found hnamed
    rw [herr] at hok
    have hrc : stageSetErr = stageSetOk := congrArg Prod.fst (Option.some.inj hok)
    exact absurd hrc (by decide)
  · intro hnamed
    exact ⟨fun h => absurd h hnamed, fun _ => herr⟩

/-- The library of stage `a` of three stages, with a name that none of them has. -/
theorem stage_jump_run :
    ∃ d, csfInit plainLoader plainConf descendingStages plentiful 100 = some (.waiting, d) ∧
      JumpsRight plainConf descendingStages d (.library (modPath plainConf ['a'])) ['z'] none := by
  have hwait : (csfInit plainLoader plainConf descendingStages plentiful 100).map Prod.fst = some .waiting := by
    decide +kernel
  obtain ⟨⟨result, d⟩, hinit, rfl⟩ := Option.map_eq_some_iff.mp hwait
  refine ⟨d, hinit, (stage_jump_iff plainLoader plainConf descendingStages plentiful 100 d hinit ['a']
    (by decide +kernel) (by decide +kernel) ['z'] none).mpr ?_⟩
  rintro ⟨secname, hsec, -, hname⟩
  revert secname
  decide +kernel

/-- In the library of stage `a` the stage `b` is not found, although it is in the tree of the server. -/
theorem stage_not_found :
    StageNamed plainConf descendingStages ['b'] ∧
      (csfInit plainLoader plainConf descendingStages plentiful 100).map (fun r =>
        (r.1, r.2.setNextStage (.library (modPath plainConf ['a'])) ['b'] none, r.2.setNextStage .core ['b'] none)) =
        some (.waiting, some (stageSetErr, none), some (stageSetOk, some 0)) := by
  refine ⟨⟨['b'], by decide +kernel, by decide +kernel, rfl⟩, by decide +kernel⟩

end Csf
