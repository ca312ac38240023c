import Csf.Startup.Barrier
import Csf.Startup.Jump
import Csf.Tree.Search
import Mathlib.Data.Char
import Mathlib.Data.List.Lex

/-!
# The tree of the stages in memory

`pipeline_init` with the tree of `pipeline_stage.c` as it stands in memory, instead of the list that `Csf.Startup.Model` has
in its place: `stage_add` is `RB_INSERT` and `stage_find` is `RB_FIND`, both with `name_cmp`. `pipelineInit_tree` says that
the two are the same.
-/

namespace Csf

open Lib

/-! ### Names -/

/-- `strncmp`; only the sign of the result is fixed. -/
def strncmp : List Char → List Char → Nat → Int
  | _, _, 0 => 0
  | [], [], _ + 1 => 0
  | [], _ :: _, _ + 1 => -1
  | _ :: _, [], _ + 1 => 1
  | a :: s, b :: t, n + 1 => if a = b then strncmp s t n else if a < b then -1 else 1

theorem strncmp_neg_iff : ∀ (s t : List Char) (n : Nat), strncmp s t n < 0 ↔ s.take n < t.take n
  | s, t, 0 => by simp [strncmp]
  | [], [], n + 1 => by simp [strncmp]
  | [], b :: t, n + 1 => by simp [strncmp]
  | a :: s, [], n + 1 => by simp [strncmp]
  | a :: s, b :: t, n + 1 => by
    rw [strncmp, List.take_succ_cons, List.take_succ_cons, List.cons_lt_cons_iff]
    split_ifs with heq hlt
    · rw [strncmp_neg_iff s t n]
      simp [heq]
    · simp [hlt]
    · simp [heq, hlt]

theorem strncmp_pos_iff : ∀ (s t : List Char) (n : Nat), 0 < strncmp s t n ↔ t.take n < s.take n
  | s, t, 0 => by simp [strncmp]
  | [], [], n + 1 => by simp [strncmp]
  | [], b :: t, n + 1 => by simp [strncmp]
  | a :: s, [], n + 1 => by simp [strncmp]
  | a :: s, b :: t, n + 1 => by
    rw [strncmp, List.take_succ_cons, List.take_succ_cons, List.cons_lt_cons_iff]
    split_ifs with heq hlt
    · rw [strncmp_pos_iff s t n]
      simp [heq]
    · simp [hlt.not_gt, hlt.ne']
    · simp [lt_of_le_of_ne (not_lt.mp hlt) (Ne.symm heq)]

def nameCmp (a b : List Char) : Int :=
  let diff := strncmp a b (maxModNameLen - 1)
  if diff = 0 then 0 else if diff < 0 then -1 else 1

theorem nameCmp_neg_iff (a b : List Char) : nameCmp a b < 0 ↔ a.take (maxModNameLen - 1) < b.take (maxModNameLen - 1) := by
  rw [← strncmp_neg_iff, nameCmp]
  split_ifs <;> omega

theorem nameCmp_pos_iff (a b : List Char) : 0 < nameCmp a b ↔ b.take (maxModNameLen - 1) < a.take (maxModNameLen - 1) := by
  rw [← strncmp_pos_iff, nameCmp]
  split_ifs <;> omega

/-! ### `stage_add` and `stage_find` -/

def rqcbName (rqcbs : List RqcbBlock) (a : Nat) : List Char := (rqcbs.getD a .zero).modName

def rqcbCmp (rqcbs : List RqcbBlock) (a b : Nat) : Int := nameCmp (rqcbName rqcbs a) (rqcbName rqcbs b)

/-- `stage_add`, with true for `STAGE_ADD_OK`; `none` if `RB_INSERT` follows a NULL pointer or takes more than `fuel`
rounds. -/
def stageAddTree (fuel : Nat) (rqcbs : List RqcbBlock) (rqcbp : Nat) (m : RbMem Nat) : Option (Bool × RbMem Nat) := do
  let (p, m) ← m.insert (rqcbCmp rqcbs) fuel rqcbp
  some (p.isNone, m)

/-- `stage_find`; `strlcpy` cuts the name that is searched for. -/
def stageFindTree (fuel : Nat) (rqcbs : List RqcbBlock) (name : List Char) (m : RbMem Nat) : Option (Option Nat) :=
  m.find (fun find a => nameCmp find (rqcbName rqcbs a)) fuel (name.take (maxModNameLen - 1))

/-! ### `pipeline_init` -/

/-- The body of the loop over the modules from `stage_add` on. -/
def finishModule (env : Resources) (mcp : ModConfig) (nextMcp : Option ModConfig) (rqcbp : Nat) (d : PipelineData) :
    RoundResult :=
  if hid : mcp.pipelineId.toNat < pipelineSize then
    match addPcb env mcp ⟨mcp.pipelineId.toNat, hid⟩ rqcbp d with
    | none => .stop (.returned pipelineInitErr)
    | some d =>
      match addNext env mcp nextMcp rqcbp d with
      | none => .stop (.returned pipelineInitErr)
      | some (nextRqcbp, nextArg, d) =>
        if env.queue rqcbp then .next nextRqcbp (startStage env mcp nextArg rqcbp d) else .stop .crit
  else .stop .fault

def addModuleTree (env : Resources) (fuel : Nat) (mcp : ModConfig) (nextMcp : Option ModConfig) (rqcbp : Nat)
    (d : PipelineData) (m : RbMem Nat) : Option (RoundResult × RbMem Nat) := do
  let d := d.modifyRqcb rqcbp fun b => { b with modName := mcp.modName.take (maxModNameLen - 1) }
  let (ok, m) ← stageAddTree fuel d.rqcbs rqcbp m
  if ok then some (finishModule env mcp nextMcp rqcbp d, m) else some (.stop (.returned pipelineInitErr), m)

def pipelineLoopTree (env : Resources) (fuel : Nat) :
    List ModConfig → Option Nat → PipelineData → RbMem Nat → Option (InitResult × PipelineData × RbMem Nat)
  | [], _, d, m => some (.waiting, d, m)
  | _ :: _, none, d, m => some (.fault, d, m)
  | mcp :: mqp, some rqcbp, d, m => do
    match ← addModuleTree env fuel mcp mqp.head? rqcbp d m with
    | (.stop result, m) => some (result, d, m)
    | (.next rqcbp d, m) => pipelineLoopTree env fuel mqp rqcbp d m

/-- `pipeline_init` up to its wait for the threads; `m` is the memory of the tree that `stage_init` allocates. -/
def pipelineInitTree (env : Resources) (fuel : Nat) (mqp : List ModConfig) (queueSize : Int) (stages : StageTrees)
    (m : RbMem Nat) : Option (InitResult × PipelineData × RbMem Nat) :=
  let d : PipelineData := ⟨[], fun _ => none, stages, 0, 0, []⟩
  if mqp.isEmpty then some (.returned pipelineConfErr, d, m)
  else if 0 ≤ queueSize ∧ queueSize < maxPipelineQueueSize then
    if !env.tree then some (.crit, d, m)
    else
      let init := stageInit .core none stages
      let m := m.init
      let d := { d with stages := { init.1 with stagep := some init.2 } }
      if !env.worker then some (.returned pipelineInitErr, d, m)
      else if !env.rqcb 0 then some (.returned pipelineInitErr, d, m)
      else pipelineLoopTree env fuel mqp (some 0) { d with rqcbs := [RqcbBlock.zero] } m
  else some (.returned pipelineConfErr, d, m)

/-! ### The tree holds the list -/

/-- The first 63 characters of a name, by which the tree is ordered. -/
def stageKey (rqcbs : List RqcbBlock) (a : Nat) : List Char := (rqcbName rqcbs a).take (maxModNameLen - 1)

theorem compares_nameCmp (rqcbs : List RqcbBlock) (name : List Char) (es : List Nat) :
    RbMem.Compares (stageKey rqcbs) (fun a => nameCmp name (rqcbName rqcbs a)) (name.take (maxModNameLen - 1)) es :=
  fun _ _ => ⟨nameCmp_neg_iff _ _, nameCmp_pos_iff _ _⟩

theorem sameName_iff {rqcbs : List RqcbBlock} {a : Nat} (h : a < rqcbs.length) {name : List Char} :
    sameName rqcbs name a = true ↔ stageKey rqcbs a = name.take (maxModNameLen - 1) := by
  simp only [sameName, stageKey, rqcbName, List.getD_eq_getElem?_getD, List.getElem?_eq_getElem h, Option.getD_some,
    beq_iff_eq]

def PipelineData.withTrees (d : PipelineData) (trees : List (List Nat)) : PipelineData :=
  { d with stages := { d.stages with trees := trees } }

/-- The memory holds the tree of the server: the `RQCB`s of the list, all of them allocated. -/
structure TreeOf (d : PipelineData) (t : Nat) (m : RbMem Nat) : Prop where
  core : d.stages.stageRqcbRbt .core = some t
  lt : t < d.stages.trees.length
  stores : ∃ es, RbMem.Stores (stageKey d.rqcbs) m es ∧ es.Perm (d.stages.trees.getD t [])
  old : ∀ a ∈ d.stages.trees.getD t [], a < d.rqcbs.length

variable {d d' : PipelineData} {t : Nat} {m : RbMem Nat} {fuel : Nat}

theorem TreeOf.find?_sameName (h : TreeOf d t m) (name : List Char) :
    (d.stages.trees.getD t []).find? (sameName d.rqcbs name) =
      RbMem.lookup (stageKey d.rqcbs) (name.take (maxModNameLen - 1)) (d.stages.trees.getD t []) :=
  RbMem.find?_eq_lookup fun a ha => sameName_iff (h.old a ha)

theorem TreeOf.stageFind (h : TreeOf d t m) (hfuel : 2 * Nat.log 2 ((d.stages.trees.getD t []).length + 1) ≤ fuel)
    (name : List Char) : stageFindTree fuel d.rqcbs name m = d.stageFind .core name := by
  obtain ⟨es, hes, hperm⟩ := h.stores
  rw [stageFindTree, hes.find (compares_nameCmp d.rqcbs _ es) (hperm.length_eq ▸ hfuel), ← hes.lookup_perm hperm,
    ← h.find?_sameName, PipelineData.stageFind, h.core]

theorem getD_modify_append {trees : List (List Nat)} (h : t < trees.length) (a : Nat) :
    (trees.modify t (· ++ [a])).getD t [] = trees.getD t [] ++ [a] := by
  simp [List.getD_eq_getElem?_getD, h]

theorem TreeOf.stageAdd {rqcbp : Nat} (h : TreeOf d t m) (hlt : rqcbp < d.rqcbs.length)
    (hfuel : 2 * Nat.log 2 ((d.stages.trees.getD t []).length + 1) ≤ fuel) :
    (Csf.stageAdd .core rqcbp d = some none ∧ stageAddTree fuel d.rqcbs rqcbp m = some (false, m)) ∨
      ∃ m', Csf.stageAdd .core rqcbp d = some (some (d.withTrees (d.stages.trees.modify t (· ++ [rqcbp])))) ∧
        stageAddTree fuel d.rqcbs rqcbp m = some (true, m') ∧
        TreeOf (d.withTrees (d.stages.trees.modify t (· ++ [rqcbp]))) t m' := by
  obtain ⟨es, hes, hperm⟩ := h.stores
  have hcmp : RbMem.Compares (stageKey d.rqcbs) (rqcbCmp d.rqcbs rqcbp) (stageKey d.rqcbs rqcbp) es :=
    compares_nameCmp d.rqcbs _ es
  have hinsert := hes.insert hcmp (hperm.length_eq ▸ hfuel)
  have hany : (d.stages.trees.getD t []).any (sameName d.rqcbs (d.rqcbs.getD rqcbp .zero).modName) =
      (RbMem.lookup (stageKey d.rqcbs) (stageKey d.rqcbs rqcbp) es).isSome := by
    rw [← hes.lookup_perm hperm, stageKey, rqcbName, ← h.find?_sameName, List.isSome_find?]
  rw [Csf.stageAdd, h.core]
  dsimp only
  rw [hany]
  cases hfind : RbMem.lookup (stageKey d.rqcbs) (stageKey d.rqcbs rqcbp) es with
  | some a =>
    rw [hfind] at hinsert
    dsimp only at hinsert
    left
    exact ⟨by simp, by simp [stageAddTree, hinsert]⟩
  | none =>
    rw [hfind] at hinsert
    obtain ⟨m', es', hrun, hstores, hperm'⟩ := hinsert
    right
    refine ⟨m', by simp [PipelineData.withTrees], by simp [stageAddTree, hrun], h.core, ?_, ?_, ?_⟩
    · simpa [PipelineData.withTrees] using h.lt
    · refine ⟨es', hstores, ?_⟩
      simp only [PipelineData.withTrees, getD_modify_append h.lt]
      exact hperm'.trans ((hperm.cons rqcbp).trans (List.perm_append_singleton _ _).symm)
    · intro a ha
      simp only [PipelineData.withTrees, getD_modify_append h.lt, List.mem_append, List.mem_singleton] at ha
      rcases ha with ha | rfl
      · exact h.old a ha
      · exact hlt

/-! ### The loop over the modules -/

theorem TreeOf.congr (h : TreeOf d t m) (hstages : d'.stages = d.stages) (hlen : d.rqcbs.length ≤ d'.rqcbs.length)
    (hname : ∀ a ∈ d.stages.trees.getD t [], rqcbName d'.rqcbs a = rqcbName d.rqcbs a) : TreeOf d' t m := by
  obtain ⟨es, hes, hperm⟩ := h.stores
  refine ⟨hstages ▸ h.core, hstages ▸ h.lt, ⟨es, hes.congr fun a ha => ?_, hstages ▸ hperm⟩, fun a ha => ?_⟩
  · rw [stageKey, stageKey, hname a (hperm.mem_iff.mp ha)]
  · exact (h.old a (hstages ▸ ha)).trans_le hlen

theorem addPcb_withTrees (env : Resources) (mcp : ModConfig) (curId : Pipeline) (rqcbp : Nat) (d : PipelineData)
    (trees : List (List Nat)) :
    addPcb env mcp curId rqcbp (d.withTrees trees) = (addPcb env mcp curId rqcbp d).map (·.withTrees trees) := by
  simp only [addPcb, PipelineData.withTrees]
  cases d.pcb curId with
  | some b => rfl
  | none => cases env.pcb curId <;> rfl

theorem addNext_withTrees (env : Resources) (mcp : ModConfig) (nextMcp : Option ModConfig) (rqcbp : Nat)
    (d : PipelineData) (trees : List (List Nat)) :
    addNext env mcp nextMcp rqcbp (d.withTrees trees) =
      (addNext env mcp nextMcp rqcbp d).map fun (next, arg, d) => (next, arg, d.withTrees trees) := by
  cases nextMcp with
  | none => rfl
  | some nextMcp =>
    by_cases hrqcb : env.rqcb d.rqcbs.length = true
    · by_cases hid : nextMcp.pipelineId = mcp.pipelineId <;>
        simp [addNext, PipelineData.withTrees, PipelineData.modifyRqcb, hrqcb, hid]
    · simp [addNext, PipelineData.withTrees, hrqcb]

/-- The list of the tree in the outcome of a round. -/
def RoundResult.withTrees (trees : List (List Nat)) : RoundResult → RoundResult
  | .stop result => .stop result
  | .next rqcbp d => .next rqcbp (d.withTrees trees)

theorem finishModule_withTrees (env : Resources) (mcp : ModConfig) (nextMcp : Option ModConfig) (rqcbp : Nat)
    (d : PipelineData) (trees : List (List Nat)) :
    finishModule env mcp nextMcp rqcbp (d.withTrees trees) = (finishModule env mcp nextMcp rqcbp d).withTrees trees := by
  unfold finishModule
  by_cases hid : mcp.pipelineId.toNat < pipelineSize
  · rw [dif_pos hid, dif_pos hid, addPcb_withTrees]
    cases addPcb env mcp ⟨mcp.pipelineId.toNat, hid⟩ rqcbp d with
    | none => rfl
    | some d₁ =>
      rw [Option.map_some]
      dsimp only
      rw [addNext_withTrees]
      cases addNext env mcp nextMcp rqcbp d₁ with
      | none => rfl
      | some r =>
        rw [Option.map_some]
        dsimp only
        split_ifs <;> rfl
  · rw [dif_neg hid, dif_neg hid]
    rfl

/-- The state between two rounds: the next `RQCB` is the last one that was allocated, and it is not in the tree yet. -/
structure RoundOf (d : PipelineData) (t : Nat) (m : RbMem Nat) (rqcbp : Nat) : Prop where
  tree : TreeOf d t m
  last : d.rqcbs.length = rqcbp + 1
  old : ∀ a ∈ d.stages.trees.getD t [], a < rqcbp

theorem rqcbName_modify {rqcbs : List RqcbBlock} {a b : Nat} {f : RqcbBlock → RqcbBlock}
    (hf : b = a → ∀ x, (f x).modName = x.modName) : rqcbName (rqcbs.modify a f) b = rqcbName rqcbs b := by
  simp only [rqcbName, List.getD_eq_getElem?_getD, List.getElem?_modify]
  split_ifs with hab
  · cases rqcbs[b]? with
    | none => rfl
    | some x => exact hf hab.symm x
  · cases rqcbs[b]? <;> rfl

theorem rqcbs_addPcb {env : Resources} {mcp : ModConfig} {curId : Pipeline} {a : Nat}
    (h : addPcb env mcp curId a d = some d') : d'.rqcbs = d.rqcbs := by
  unfold addPcb at h
  split at h
  · rw [← Option.some.inj h]
  · split_ifs at h
    rw [← Option.some.inj h]

theorem rqcbs_addNext {env : Resources} {mcp : ModConfig} {nextMcp : Option ModConfig} {a : Nat} {next arg : Option Nat}
    (h : addNext env mcp nextMcp a d = some (next, arg, d')) : d.rqcbs.length ≤ d'.rqcbs.length ∧
      (∀ b ∈ next, b = d.rqcbs.length ∧ d'.rqcbs.length = b + 1) ∧
      ∀ b < d.rqcbs.length, rqcbName d'.rqcbs b = rqcbName d.rqcbs b := by
  have happend : ∀ b < d.rqcbs.length, rqcbName (d.rqcbs ++ [RqcbBlock.zero]) b = rqcbName d.rqcbs b := by
    intro b hb
    simp only [rqcbName, List.getD_eq_getElem?_getD, List.getElem?_append_left hb]
  unfold addNext at h
  split at h
  · cases h
    exact ⟨le_refl _, by simp, fun b _ => rfl⟩
  · dsimp only at h
    split_ifs at h with hrqcb hid
    · cases h
      refine ⟨by simp [PipelineData.modifyRqcb], fun b hb => ?_, fun b hb => ?_⟩
      · obtain rfl := Option.some.inj hb
        simp [PipelineData.modifyRqcb]
      · refine Eq.trans (rqcbName_modify ?_) (happend b hb)
        exact fun _ _ => rfl
    · cases h
      refine ⟨by simp, fun b hb => ?_, happend⟩
      obtain rfl := Option.some.inj hb
      simp

theorem TreeOf.finishModule {env : Resources} {mcp : ModConfig} {nextMcp : Option ModConfig} {a : Nat} {next : Option Nat}
    (h : TreeOf d t m) (hnext : Csf.finishModule env mcp nextMcp a d = .next next d') :
    TreeOf d' t m ∧ d'.stages = d.stages ∧ ∀ b ∈ next, b = d.rqcbs.length ∧ d'.rqcbs.length = b + 1 := by
  unfold Csf.finishModule at hnext
  by_cases hid : mcp.pipelineId.toNat < pipelineSize
  case neg =>
    rw [dif_neg hid] at hnext
    cases hnext
  rw [dif_pos hid] at hnext
  cases hpcb : addPcb env mcp ⟨mcp.pipelineId.toNat, hid⟩ a d with
  | none => simp [hpcb] at hnext
  | some d₁ =>
    cases hadd : addNext env mcp nextMcp a d₁ with
    | none => simp [hpcb, hadd] at hnext
    | some r =>
      obtain ⟨next', arg, d₂⟩ := r
      simp only [hpcb, hadd] at hnext
      split_ifs at hnext
      obtain ⟨rfl, rfl⟩ := RoundResult.next.inj hnext
      have hstages : d₂.stages = d.stages := (stages_addNext hadd).trans (stages_addPcb hpcb)
      obtain ⟨hlen, hlast, hname⟩ := rqcbs_addNext hadd
      rw [rqcbs_addPcb hpcb] at hlen hlast hname
      refine ⟨h.congr hstages ?_ fun b hb => ?_, hstages, fun b hb => ?_⟩
      · simpa [startStage, PipelineData.modifyRqcb] using hlen
      · refine Eq.trans (rqcbName_modify ?_) (hname b (h.old b hb))
        exact fun _ _ => rfl
      · simpa [startStage, PipelineData.modifyRqcb] using hlast b hb

theorem addModule_of_err {env : Resources} {mcp : ModConfig} {nextMcp : Option ModConfig} {a : Nat}
    (h : stageAdd .core a (d.modifyRqcb a fun b => { b with modName := mcp.modName.take (maxModNameLen - 1) }) =
      some none) : addModule env mcp nextMcp a d = .stop (.returned pipelineInitErr) := by
  unfold addModule
  dsimp only
  rw [h]

theorem addModule_of_ok {env : Resources} {mcp : ModConfig} {nextMcp : Option ModConfig} {a : Nat}
    (h : stageAdd .core a (d.modifyRqcb a fun b => { b with modName := mcp.modName.take (maxModNameLen - 1) }) =
      some (some d')) : addModule env mcp nextMcp a d = finishModule env mcp nextMcp a d' := by
  unfold addModule finishModule
  dsimp only
  generalize stageAdd _ _ _ = o at h ⊢
  subst h
  rfl

theorem RoundOf.addModule {rqcbp : Nat} (h : RoundOf d t m rqcbp) (env : Resources) (mcp : ModConfig)
    (nextMcp : Option ModConfig) (trees : List (List Nat))
    (hfuel : 2 * Nat.log 2 ((d.stages.trees.getD t []).length + 1) ≤ fuel) :
    ∃ m', addModuleTree env fuel mcp nextMcp rqcbp (d.withTrees trees) m =
        some ((Csf.addModule env mcp nextMcp rqcbp d).withTrees trees, m') ∧
      ∀ next d', Csf.addModule env mcp nextMcp rqcbp d = .next next d' → TreeOf d' t m' ∧
        (d'.stages.trees.getD t []).length = (d.stages.trees.getD t []).length + 1 ∧ ∀ b ∈ next, RoundOf d' t m' b := by
  let d₁ := d.modifyRqcb rqcbp fun b => { b with modName := mcp.modName.take (maxModNameLen - 1) }
  have hlt : rqcbp < d₁.rqcbs.length := by simp [d₁, PipelineData.modifyRqcb, h.last]
  have htree : TreeOf d₁ t m := by
    refine h.tree.congr rfl (by simp [d₁, PipelineData.modifyRqcb]) fun a ha => rqcbName_modify fun heq => ?_
    exact absurd heq (h.old a ha).ne
  rcases htree.stageAdd hlt hfuel with ⟨hadd, hmem⟩ | ⟨m', hadd, hmem, htree'⟩
  · rw [addModule_of_err hadd]
    refine ⟨m, ?_, fun next d' heq => by cases heq⟩
    rw [addModuleTree]
    exact congrArg (Option.bind · _) hmem
  · rw [addModule_of_ok hadd]
    refine ⟨m', ?_, fun next d' heq => ?_⟩
    · rw [← finishModule_withTrees, addModuleTree]
      exact congrArg (Option.bind · _) hmem
    · obtain ⟨htree'', hstages, hnext⟩ := htree'.finishModule heq
      have htrees : d'.stages.trees.getD t [] = d.stages.trees.getD t [] ++ [rqcbp] := by
        rw [hstages]
        exact getD_modify_append h.tree.lt rqcbp
      refine ⟨htree'', by rw [htrees, List.length_append, List.length_singleton], fun b hb => ⟨htree'', ?_, fun a ha => ?_⟩⟩
      · exact (hnext b hb).2
      · have hb' : b = rqcbp + 1 := by
          rw [(hnext b hb).1, ← h.last]
          simp [d₁, PipelineData.withTrees, PipelineData.modifyRqcb]
        rw [htrees, List.mem_append, List.mem_singleton] at ha
        rcases ha with ha | rfl
        · have := h.old a ha
          omega
        · omega

theorem RoundOf.pipelineLoop (env : Resources) (trees : List (List Nat)) {n : Nat}
    (hfuel : 2 * Nat.log 2 (n + 1) ≤ fuel) :
    ∀ {mqp : List ModConfig} {rqcbp : Option Nat} {d : PipelineData} {m : RbMem Nat}, TreeOf d t m →
    (∀ a ∈ rqcbp, RoundOf d t m a) → (d.stages.trees.getD t []).length + mqp.length ≤ n →
    ∃ m', pipelineLoopTree env fuel mqp rqcbp (d.withTrees trees) m =
        some ((Csf.pipelineLoop env mqp rqcbp d).1, (Csf.pipelineLoop env mqp rqcbp d).2.withTrees trees, m') ∧
      ((Csf.pipelineLoop env mqp rqcbp d).1 = .waiting → TreeOf (Csf.pipelineLoop env mqp rqcbp d).2 t m' ∧
        ((Csf.pipelineLoop env mqp rqcbp d).2.stages.trees.getD t []).length ≤ n) := by
  intro mqp
  induction mqp with
  | nil =>
    intro rqcbp d m htree _ hlen
    exact ⟨m, rfl, fun _ => ⟨htree, hlen⟩⟩
  | cons mcp mqp ih =>
    intro rqcbp d m htree hround hlen
    cases rqcbp with
    | none => exact ⟨m, rfl, fun h => by cases h⟩
    | some a =>
      have hlog : 2 * Nat.log 2 ((d.stages.trees.getD t []).length + 1) ≤ fuel := by
        refine le_trans (Nat.mul_le_mul_left 2 (Nat.log_mono_right ?_)) hfuel
        rw [List.length_cons] at hlen
        omega
      obtain ⟨m', hrun, hnext⟩ := (hround a rfl).addModule env mcp mqp.head? trees hlog
      rw [Csf.pipelineLoop, pipelineLoopTree]
      simp only [hrun, Option.bind_eq_bind, Option.bind_some]
      cases hmod : Csf.addModule env mcp mqp.head? a d with
      | stop result => exact ⟨m', rfl, fun hwait => absurd hwait (addModule_stop hmod)⟩
      | next rqcbp d' =>
        obtain ⟨htree', hlen', hround'⟩ := hnext rqcbp d' hmod
        simp only [RoundResult.withTrees]
        refine ih htree' hround' ?_
        rw [List.length_cons] at hlen
        omega

/-- The data before the first round. -/
def dataOf (stages : StageTrees) : PipelineData :=
  ⟨[RqcbBlock.zero], fun _ => none,
    { (stageInit .core none stages).1 with stagep := some (stageInit .core none stages).2 }, 0, 0, []⟩

theorem dataOf_tree (stages : StageTrees) : (dataOf stages).stages.trees.getD stages.trees.length [] = [] := by
  simp [dataOf, stageInit, List.getD_eq_getElem?_getD]

theorem RoundOf.initial (stages : StageTrees) (m : RbMem Nat) :
    RoundOf (dataOf stages) stages.trees.length m.init 0 := by
  refine ⟨⟨by simp [dataOf, stageInit], by simp [dataOf, stageInit], ⟨[], RbMem.stores_init m, ?_⟩, ?_⟩, rfl, ?_⟩
  · rw [dataOf_tree]
  · rw [dataOf_tree]
    exact fun _ ha => absurd ha List.not_mem_nil
  · rw [dataOf_tree]
    exact fun _ ha => absurd ha List.not_mem_nil

/-- `pipeline_init` with the tree in memory comes to the same result as with the list. When it waits for the threads the
memory holds a red-black tree of the stages in the order of their names, and `stage_find` finds every stage in a number
of rounds that is logarithmic in the number of modules. -/
theorem pipelineInit_tree (env : Resources) (mqp : List ModConfig) (queueSize : Int) (stages : StageTrees)
    (m : RbMem Nat) (fuel : Nat) (hfuel : 2 * Nat.log 2 (mqp.length + 1) ≤ fuel) :
    ∃ d m', pipelineInitTree env fuel mqp queueSize stages m =
        some ((pipelineInit env mqp queueSize stages).1, d, m') ∧
      (∀ trees, d.withTrees trees = (pipelineInit env mqp queueSize stages).2.withTrees trees) ∧
      ((pipelineInit env mqp queueSize stages).1 = .waiting →
        (∃ es, RbMem.Stores (stageKey d.rqcbs) m' es ∧
          es.Perm ((pipelineInit env mqp queueSize stages).2.stages.trees.getD stages.trees.length [])) ∧
        ∀ name, stageFindTree fuel d.rqcbs name m' = (pipelineInit env mqp queueSize stages).2.stageFind .core name) := by
  unfold pipelineInitTree pipelineInit
  dsimp only
  split_ifs
  · exact ⟨_, _, rfl, fun _ => rfl, fun h => by cases h⟩
  · exact ⟨_, _, rfl, fun _ => rfl, fun h => by cases h⟩
  · exact ⟨_, _, rfl, fun _ => rfl, fun h => by cases h⟩
  · exact ⟨_, _, rfl, fun _ => rfl, fun h => by cases h⟩
  · have hround := RoundOf.initial stages m
    have hlen : ((dataOf stages).stages.trees.getD stages.trees.length []).length + mqp.length ≤ mqp.length := by
      rw [dataOf_tree, List.length_nil, Nat.zero_add]
    obtain ⟨m', hrun, hwait⟩ := RoundOf.pipelineLoop env (dataOf stages).stages.trees hfuel hround.tree
      (fun a ha => Option.some.inj ha ▸ hround) hlen
    refine ⟨_, m', hrun, fun _ => rfl, fun hw => ?_⟩
    obtain ⟨htree, hlen'⟩ := hwait hw
    refine ⟨htree.stores, fun name => htree.stageFind ?_ name⟩
    exact le_trans (Nat.mul_le_mul_left 2 (Nat.log_mono_right (Nat.succ_le_succ hlen'))) hfuel
  · exact ⟨_, _, rfl, fun _ => rfl, fun h => by cases h⟩

/-- Three modules: the stage `b` is found in memory. -/
theorem pipelineInit_tree_run : ∃ d m', pipelineInitTree plentiful 4 (threeModules.foldl insertModule []) 100 .initial
      ⟨none, fun _ _ => none, fun _ => none, fun _ => .black⟩ = some (.waiting, d, m') ∧
    stageFindTree 4 d.rqcbs ['b'] m' = some (some 0) := by
  obtain ⟨d, m', hrun, -, hwait⟩ := pipelineInit_tree plentiful (threeModules.foldl insertModule []) 100 .initial
    ⟨none, fun _ _ => none, fun _ => none, fun _ => .black⟩ 4 (by decide +kernel)
  have hresult : (pipelineInit plentiful (threeModules.foldl insertModule []) 100 .initial).1 = .waiting := by
    decide +kernel
  refine ⟨d, m', hresult ▸ hrun, ((hwait hresult).2 ['b']).trans ?_⟩
  decide +kernel

end Csf
