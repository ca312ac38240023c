import Csf.Startup.Model

/-!
# The chains of the pipelines

The loop of `pipeline_init` links the `RQCB` of a module to the one it allocates for the next module if both belong to
the same pipeline. After `k` rounds the first `k` `RQCB`s are those of the first `k` modules, with their links (`Built`).
The module queue keeps the modules of a pipeline together, whatever the order of the insertions, so following the links
from `first_rqcbp` visits all of them (`follows_group`).
-/

namespace Csf

open Lib

/-- The allocations of `pipeline_init` and the set-up of its locks succeed. Threads may fail: the chains do not depend on
them. -/
structure Resources.Succeeds (env : Resources) : Prop where
  tree : env.tree = true
  worker : env.worker = true
  rqcb : ∀ a, env.rqcb a = true
  pcb : ∀ p, env.pcb p = true
  queue : ∀ a, env.queue a = true

/-- The link that the `RQCB` of a module gets. -/
def linkOf (queue : List ModConfig) (i : Nat) : Option Nat :=
  match queue[i]?, queue[i + 1]? with
  | some mcp, some nextMcp => if nextMcp.pipelineId = mcp.pipelineId then some (i + 1) else none
  | _, _ => none

structure StageBlock (queue : List ModConfig) (i : Nat) (mcp : ModConfig) (b : RqcbBlock) : Prop where
  modName : b.modName = mcp.modName.take (maxModNameLen - 1)
  delay : b.delay = mcp.delay
  nextRqcb : b.nextRqcb = linkOf queue i

/-- The state of the loop after `k` rounds. -/
structure Built (queue : List ModConfig) (t k : Nat) (d : PipelineData) : Prop where
  length : d.rqcbs.length = min (k + 1) queue.length
  block : ∀ i mcp, i < k → queue[i]? = some mcp → ∃ b, d.rqcbs[i]? = some b ∧ StageBlock queue i mcp b
  pcb : ∀ p : Pipeline, d.pcb p =
    ((queue.take k).findIdx? fun mcp => mcp.pipelineId.toNat == p.val).map fun i => ⟨UInt32.ofNat p.val, i⟩
  root : d.stages.stageRqcbRbt .core = some t
  inTrees : t < d.stages.trees.length
  tree : d.stages.trees.getD t [] = List.range k

section Round

variable {env : Resources} {queue : List ModConfig} {t k : Nat} {mcp : ModConfig} {d : PipelineData}

/-- The names of the modules differ in the characters that the tree compares. -/
def DistinctNames (queue : List ModConfig) : Prop :=
  (queue.map fun mcp => mcp.modName.take (maxModNameLen - 1)).Nodup

instance (queue : List ModConfig) : Decidable (DistinctNames queue) := List.nodupDecidable _

theorem stageAdd_of_new (hroot : d.stages.stageRqcbRbt .core = some t) {rqcbp : Nat}
    (hnew : ∀ a ∈ d.stages.trees.getD t [], sameName d.rqcbs (d.rqcbs.getD rqcbp .zero).modName a = false) :
    stageAdd .core rqcbp d =
      some (some { d with stages := { d.stages with trees := d.stages.trees.modify t (· ++ [rqcbp]) } }) := by
  rw [stageAdd, hroot]
  dsimp only
  rw [if_neg]
  rw [Bool.not_eq_true, List.any_eq_false]
  intro a ha
  rw [hnew a ha]
  exact Bool.false_ne_true

theorem addPcb_of_succeeds (henv : env.Succeeds) (mcp : ModConfig) (curId : Pipeline) (rqcbp : Nat) (d : PipelineData) :
    addPcb env mcp curId rqcbp d =
      some { d with
        pcb := fun p => if p = curId then (d.pcb p).or (some ⟨mcp.pipelineId, rqcbp⟩) else d.pcb p } := by
  rw [addPcb]
  cases hpcb : d.pcb curId with
  | some b =>
    have hsame : (fun p => if p = curId then (d.pcb p).or (some ⟨mcp.pipelineId, rqcbp⟩) else d.pcb p) = d.pcb := by
      funext p
      split_ifs with hp
      · rw [hp, hpcb, Option.or_some]
        rfl
      · rfl
    rw [hsame]
  | none =>
    dsimp only
    rw [if_pos (henv.pcb curId)]
    congr 2
    funext p
    split_ifs with hp
    · rw [hp, hpcb, Option.none_or]
    · rfl

def SameBlock (b b' : RqcbBlock) : Prop :=
  b'.modName = b.modName ∧ b'.delay = b.delay ∧ b'.nextRqcb = b.nextRqcb

theorem addNext_of_succeeds (henv : env.Succeeds) (mcp : ModConfig) (nextMcp : Option ModConfig) (rqcbp : Nat)
    (d : PipelineData) :
    ∃ d', addNext env mcp nextMcp rqcbp d =
        some (nextMcp.map fun _ => d.rqcbs.length,
          nextMcp.bind fun n => if n.pipelineId = mcp.pipelineId then some d.rqcbs.length else none, d') ∧
      d'.pcb = d.pcb ∧ d'.stages = d.stages ∧ d'.rqcbs.length = d.rqcbs.length + nextMcp.toList.length ∧
      ∀ (i : Nat) b, d.rqcbs[i]? = some b → ∃ b', d'.rqcbs[i]? = some b' ∧ SameBlock b b' := by
  cases nextMcp with
  | none => exact ⟨d, rfl, rfl, rfl, rfl, fun i b hb => ⟨b, hb, rfl, rfl, rfl⟩⟩
  | some n =>
    rw [addNext]
    dsimp only
    rw [if_pos (henv.rqcb _)]
    have hold : ∀ (i : Nat) b, d.rqcbs[i]? = some b → (d.rqcbs ++ [RqcbBlock.zero])[i]? = some b := by
      intro i b hb
      rw [List.getElem?_append_left (List.getElem?_eq_some_iff.mp hb).1, hb]
    rw [Option.bind_some]
    by_cases hsame : n.pipelineId = mcp.pipelineId
    · rw [if_pos hsame, if_pos hsame]
      refine ⟨{ PipelineData.modifyRqcb { d with rqcbs := d.rqcbs ++ [RqcbBlock.zero] } rqcbp
        (fun b => { b with queueId := d.qid }) with qid := d.qid + 1 }, rfl, rfl, rfl, ?_, fun i b hb => ?_⟩
      · simp [PipelineData.modifyRqcb]
      · dsimp only [PipelineData.modifyRqcb]
        rw [List.getElem?_modify, hold i b hb]
        split_ifs with hi
        · exact ⟨_, rfl, rfl, rfl, rfl⟩
        · exact ⟨b, rfl, rfl, rfl, rfl⟩
    · rw [if_neg hsame, if_neg hsame]
      refine ⟨{ d with rqcbs := d.rqcbs ++ [RqcbBlock.zero], qid := 0 }, rfl, rfl, rfl, ?_, fun i b hb => ?_⟩
      · simp
      · exact ⟨b, hold i b hb, rfl, rfl, rfl⟩

theorem Built.sameName_eq_false (h : Built queue t k d) (hnames : DistinctNames queue) (hk : queue[k]? = some mcp)
    {a : Nat} (ha : a < k) :
    sameName (d.rqcbs.modify k fun b => { b with modName := mcp.modName.take (maxModNameLen - 1) })
      (mcp.modName.take (maxModNameLen - 1)) a = false := by
  obtain ⟨hkn, -⟩ := List.getElem?_eq_some_iff.mp hk
  obtain ⟨b, hb, hblock⟩ := h.block a queue[a] ha (List.getElem?_eq_getElem (Nat.lt_trans ha hkn))
  rw [sameName, List.getElem?_modify_ne _ _ (Nat.ne_of_gt ha), hb]
  dsimp only
  rw [hblock.modName, List.take_take, List.take_take, Nat.min_self, beq_eq_false_iff_ne]
  intro heq
  refine Nat.ne_of_lt ha ((List.getElem?_inj ?_ hnames).mp ?_)
  · rw [List.length_map]
    exact Nat.lt_trans ha hkn
  · rw [List.getElem?_map, List.getElem?_map, hk, List.getElem?_eq_getElem (Nat.lt_trans ha hkn), Option.map_some,
      Option.map_some, heq]

theorem linkOf_eq (hk : queue[k]? = some mcp) :
    linkOf queue k =
      queue[k + 1]?.bind fun n => if n.pipelineId = mcp.pipelineId then some (k + 1) else none := by
  rw [linkOf, hk]
  cases queue[k + 1]? with
  | none => rfl
  | some n => rfl

/-- The middle of a round: the `RQCB` has its name and is in the tree, and the pipeline has a `PCB`. -/
structure Named (queue : List ModConfig) (t k : Nat) (mcp : ModConfig) (d : PipelineData) : Prop where
  length : d.rqcbs.length = k + 1
  block : ∀ i mcp, i < k → queue[i]? = some mcp → ∃ b, d.rqcbs[i]? = some b ∧ StageBlock queue i mcp b
  named : ∃ b, d.rqcbs[k]? = some b ∧ b.modName = mcp.modName.take (maxModNameLen - 1)
  pcb : ∀ p : Pipeline, d.pcb p =
    ((queue.take (k + 1)).findIdx? fun mcp => mcp.pipelineId.toNat == p.val).map fun i => ⟨UInt32.ofNat p.val, i⟩
  root : d.stages.stageRqcbRbt .core = some t
  inTrees : t < d.stages.trees.length
  tree : d.stages.trees.getD t [] = List.range (k + 1)

theorem Named.finish (henv : env.Succeeds) (h : Named queue t k mcp d) (hk : queue[k]? = some mcp) :
    ∃ d', addNext env mcp queue[k + 1]? k d = some (queue[k + 1]?.map fun _ => k + 1, linkOf queue k, d') ∧
      Built queue t (k + 1) (startStage env mcp (linkOf queue k) k d') := by
  obtain ⟨hkn, -⟩ := List.getElem?_eq_some_iff.mp hk
  obtain ⟨d', hnext, hpcb, hstages, hlen, hblocks⟩ := addNext_of_succeeds henv mcp queue[k + 1]? k d
  rw [h.length, ← linkOf_eq hk] at hnext
  refine ⟨d', hnext, ?_⟩
  constructor
  case length =>
    rw [h.length] at hlen
    rw [startStage, PipelineData.modifyRqcb]
    dsimp only
    rw [List.length_modify, hlen]
    rcases Nat.lt_or_ge (k + 1) queue.length with hlt | hge
    · rw [List.getElem?_eq_getElem hlt, Option.toList_some, List.length_singleton]
      omega
    · rw [List.getElem?_eq_none hge, Option.toList_none, List.length_nil]
      omega
  case block =>
    intro i mcp' hi hmcp'
    dsimp only [startStage, PipelineData.modifyRqcb]
    rcases Nat.lt_succ_iff_lt_or_eq.mp hi with hlt | rfl
    · obtain ⟨b, hb, hblock⟩ := h.block i mcp' hlt hmcp'
      obtain ⟨b', hb', hname, hdelay, hlink⟩ := hblocks i b hb
      refine ⟨b', ?_, hname.trans hblock.modName, hdelay.trans hblock.delay, hlink.trans hblock.nextRqcb⟩
      rw [List.getElem?_modify_ne _ _ (Nat.ne_of_gt hlt), hb']
    · obtain ⟨b, hb, hbname⟩ := h.named
      obtain ⟨b', hb', hname, -, -⟩ := hblocks i b hb
      obtain rfl : mcp = mcp' := Option.some.inj (hk.symm.trans hmcp')
      refine ⟨{ b' with nextRqcb := linkOf queue i, delay := mcp.delay }, ?_, hname.trans hbname, rfl, rfl⟩
      rw [List.getElem?_modify_eq, hb']
      rfl
  case pcb => exact fun p => (congrFun hpcb p).trans (h.pcb p)
  case root => exact (congrArg (fun st => st.stageRqcbRbt .core) hstages).trans h.root
  case inTrees =>
    have heq := congrArg (fun st => st.trees.length) hstages
    exact heq ▸ h.inTrees
  case tree => exact (congrArg (fun st => st.trees.getD t []) hstages).trans h.tree

/-- The data in the middle of a round. -/
def nameStage (t k : Nat) (mcp : ModConfig) (curId : Pipeline) (d : PipelineData) : PipelineData :=
  { d with
    rqcbs := d.rqcbs.modify k fun b => { b with modName := mcp.modName.take (maxModNameLen - 1) }
    pcb := fun p => if p = curId then (d.pcb p).or (some ⟨mcp.pipelineId, k⟩) else d.pcb p
    stages := { d.stages with trees := d.stages.trees.modify t (· ++ [k]) } }

theorem Built.getElem?_name (h : Built queue t k d) (hk : queue[k]? = some mcp) :
    (d.rqcbs.modify k fun b => { b with modName := mcp.modName.take (maxModNameLen - 1) })[k]? =
      some { d.rqcbs.getD k .zero with modName := mcp.modName.take (maxModNameLen - 1) } := by
  obtain ⟨hkn, -⟩ := List.getElem?_eq_some_iff.mp hk
  rw [List.getElem?_modify_eq, List.getD_eq_getElem?_getD, List.getElem?_eq_getElem (by rw [h.length]; omega)]
  rfl

theorem Built.pcb_succ (h : Built queue t k d) (hk : queue[k]? = some mcp) {curId : Pipeline}
    (hid : mcp.pipelineId.toNat = curId.val) (p : Pipeline) :
    (if p = curId then (d.pcb p).or (some ⟨mcp.pipelineId, k⟩) else d.pcb p) =
      ((queue.take (k + 1)).findIdx? fun mcp => mcp.pipelineId.toNat == p.val).map fun i =>
        ⟨UInt32.ofNat p.val, i⟩ := by
  obtain ⟨hkn, -⟩ := List.getElem?_eq_some_iff.mp hk
  have hlen : (queue.take k).length = k := by rw [List.length_take, Nat.min_eq_left (Nat.le_of_lt hkn)]
  rw [List.take_add_one, hk, Option.toList_some, List.findIdx?_append, h.pcb p, List.findIdx?_singleton, hlen]
  by_cases hp : p = curId
  · subst hp
    rw [if_pos rfl, if_pos (by rw [hid, beq_self_eq_true]), Option.map_some, Nat.zero_add, ← hid, UInt32.ofNat_toNat]
    cases (queue.take k).findIdx? fun mcp' => mcp'.pipelineId.toNat == mcp.pipelineId.toNat with
    | none => rfl
    | some i => rfl
  · have hne : ¬ (mcp.pipelineId.toNat == p.val) = true := by
      rw [hid, beq_iff_eq]
      exact fun heq => hp (Fin.ext heq.symm)
    rw [if_neg hp, if_neg hne, Option.map_none, Option.or_none]

theorem Built.named (h : Built queue t k d) (hk : queue[k]? = some mcp) (curId : Pipeline)
    (hid : mcp.pipelineId.toNat = curId.val) : Named queue t k mcp (nameStage t k mcp curId d) := by
  obtain ⟨hkn, -⟩ := List.getElem?_eq_some_iff.mp hk
  constructor
  case length =>
    rw [nameStage, List.length_modify, h.length]
    omega
  case block =>
    intro i mcp' hi hmcp'
    obtain ⟨b, hb, hblock⟩ := h.block i mcp' hi hmcp'
    refine ⟨b, ?_, hblock⟩
    rw [nameStage, List.getElem?_modify_ne _ _ (Nat.ne_of_gt hi), hb]
  case named => exact ⟨_, h.getElem?_name hk, rfl⟩
  case pcb => exact h.pcb_succ hk hid
  case root => exact h.root
  case inTrees =>
    rw [nameStage, List.length_modify]
    exact h.inTrees
  case tree =>
    have htree := h.tree
    rw [List.getD_eq_getElem?_getD, List.getElem?_eq_getElem h.inTrees, Option.getD_some] at htree
    rw [nameStage, List.getD_eq_getElem?_getD, List.getElem?_modify_eq, List.getElem?_eq_getElem h.inTrees, htree,
      List.range_succ]
    rfl

theorem Built.round (henv : env.Succeeds) (h : Built queue t k d) (hnames : DistinctNames queue)
    (hid : mcp.pipelineId.toNat < pipelineSize) (hk : queue[k]? = some mcp) :
    ∃ d', addModule env mcp queue[k + 1]? k d = .next (queue[k + 1]?.map fun _ => k + 1) d' ∧
      Built queue t (k + 1) d' := by
  have hnew : ∀ a ∈ d.stages.trees.getD t [], sameName
      (d.rqcbs.modify k fun b => { b with modName := mcp.modName.take (maxModNameLen - 1) })
      ((d.rqcbs.modify k fun b => { b with modName := mcp.modName.take (maxModNameLen - 1) }).getD k .zero).modName
      a = false := by
    intro a ha
    rw [h.tree, List.mem_range] at ha
    rw [List.getD_eq_getElem?_getD, h.getElem?_name hk]
    exact h.sameName_eq_false hnames hk ha
  obtain ⟨d', hnext, hbuilt⟩ := (h.named hk ⟨mcp.pipelineId.toNat, hid⟩ rfl).finish henv hk
  refine ⟨_, ?_, hbuilt⟩
  unfold addModule
  dsimp only
  rw [stageAdd_of_new (d := d.modifyRqcb k _) h.root hnew]
  dsimp only
  rw [dif_pos hid, addPcb_of_succeeds henv]
  dsimp only
  rw [nameStage] at hnext
  dsimp only [PipelineData.modifyRqcb]
  rw [hnext]
  dsimp only
  rw [if_pos (henv.queue k)]

theorem Built.loop (henv : env.Succeeds) (hnames : DistinctNames queue)
    (hids : ∀ mcp ∈ queue, mcp.pipelineId.toNat < pipelineSize) {mqp : List ModConfig} (hmqp : queue.drop k = mqp)
    (hk : k ≤ queue.length) (h : Built queue t k d) :
    ∃ d', pipelineLoop env mqp (mqp.head?.map fun _ => k) d = (.waiting, d') ∧ Built queue t queue.length d' := by
  induction mqp generalizing k d with
  | nil =>
    obtain rfl : k = queue.length := Nat.le_antisymm hk (List.drop_eq_nil_iff.mp hmqp)
    exact ⟨d, rfl, h⟩
  | cons mcp mqp ih =>
    have hget : queue[k]? = some mcp := by rw [← List.head?_drop, hmqp, List.head?_cons]
    have htail : queue.drop (k + 1) = mqp := by rw [← List.tail_drop, hmqp, List.tail_cons]
    obtain ⟨hkn, -⟩ := List.getElem?_eq_some_iff.mp hget
    obtain ⟨d', hround, hbuilt⟩ := h.round henv hnames (hids mcp (List.mem_of_getElem? hget)) hget
    have hnext : queue[k + 1]? = mqp.head? := by rw [← List.head?_drop, htail]
    rw [hnext] at hround
    rw [List.head?_cons, Option.map_some, pipelineLoop, hround]
    exact ih htail hkn hbuilt

theorem Built.initial (hne : queue ≠ []) (stages : StageTrees) :
    Built queue stages.trees.length 0
      ⟨[RqcbBlock.zero], fun _ => none, { (stageInit .core none stages).1 with
        stagep := some (stageInit .core none stages).2 }, 0, 0, []⟩ := by
  constructor
  case length => exact (Nat.min_eq_left (List.length_pos_iff.mpr hne)).symm
  case block => exact fun i mcp hi => absurd hi (Nat.not_lt_zero i)
  case pcb => exact fun p => rfl
  case root => rfl
  case inTrees => simp [stageInit]
  case tree => simp [stageInit]

theorem built_pipelineInit (henv : env.Succeeds) (hne : queue ≠ []) (hnames : DistinctNames queue)
    (hids : ∀ mcp ∈ queue, mcp.pipelineId.toNat < pipelineSize) {queueSize : Int}
    (hsize : 0 ≤ queueSize ∧ queueSize < maxPipelineQueueSize) (stages : StageTrees) :
    ∃ d, pipelineInit env queue queueSize stages = (.waiting, d) ∧
      Built queue stages.trees.length queue.length d := by
  obtain ⟨d, hloop, hbuilt⟩ :=
    (Built.initial hne stages).loop henv hnames hids (List.drop_zero (l := queue)) (Nat.zero_le _)
  refine ⟨d, ?_, hbuilt⟩
  obtain ⟨mcp, mqp, rfl⟩ := List.exists_cons_of_ne_nil hne
  rw [pipelineInit, if_neg (by simp), if_pos hsize, henv.tree, henv.worker, henv.rqcb 0]
  exact hloop

end Round

/-! ### Following the links -/

/-- Following `next_rqcb` from a pointer visits a list of `RQCB`s and ends in `NULL`. -/
inductive Follows (rqcbs : List RqcbBlock) : Option Nat → List Nat → Prop
  | null : Follows rqcbs none []
  | link {a : Nat} {b : RqcbBlock} {l : List Nat} :
    rqcbs[a]? = some b → Follows rqcbs b.nextRqcb l → Follows rqcbs (some a) (a :: l)

/-- Module `i` of the queue is one of pipeline `p`. -/
def inPipeline (queue : List ModConfig) (p : Pipeline) (i : Nat) : Bool :=
  queue[i]?.any fun mcp => mcp.pipelineId.toNat == p.val

/-- The `RQCB`s of the modules of a pipeline, in the order of the module queue. -/
def stagesOf (queue : List ModConfig) (p : Pipeline) : List Nat :=
  (List.range queue.length).filter (inPipeline queue p)

section Follow

variable {queue : List ModConfig} {t : Nat} {d : PipelineData} {p : Pipeline}

theorem filter_range'_eq_nil (hsorted : queue.Pairwise fun m n => m.pipelineId ≤ n.pipelineId) {i : Nat}
    {mcp : ModConfig} (hi : queue[i]? = some mcp) (hlt : p.val < mcp.pipelineId.toNat) (n : Nat) :
    (List.range' i n).filter (inPipeline queue p) = [] := by
  rw [List.filter_eq_nil_iff]
  intro j hj
  have hij : i ≤ j := (List.mem_range'_1.mp hj).1
  rw [inPipeline, Option.any_eq_true]
  rintro ⟨m, hm, hp⟩
  have hle : mcp.pipelineId ≤ m.pipelineId := by
    rcases Nat.eq_or_lt_of_le hij with rfl | hlt'
    · rw [Option.some.inj (hi.symm.trans hm)]
      exact UInt32.le_refl _
    · obtain ⟨hi', rfl⟩ := List.getElem?_eq_some_iff.mp hi
      obtain ⟨hj', rfl⟩ := List.getElem?_eq_some_iff.mp hm
      exact List.pairwise_iff_getElem.mp hsorted i j hi' hj' hlt'
  rw [beq_iff_eq] at hp
  have hle' := UInt32.le_iff_toNat_le.mp hle
  omega

theorem Built.follows (h : Built queue t queue.length d)
    (hsorted : queue.Pairwise fun m n => m.pipelineId ≤ n.pipelineId) (n : Nat) :
    ∀ i, i + (n + 1) = queue.length → inPipeline queue p i = true →
      Follows d.rqcbs (some i) ((List.range' i (n + 1)).filter (inPipeline queue p)) := by
  induction n with
  | zero =>
    intro i hi hp
    obtain ⟨mcp, hmcp, -⟩ := Option.any_eq_true _ _ |>.mp hp
    obtain ⟨b, hb, hblock⟩ := h.block i mcp (by omega) hmcp
    have hnext : b.nextRqcb = none := by
      rw [hblock.nextRqcb, linkOf_eq hmcp, List.getElem?_eq_none (by omega), Option.bind_none]
    rw [List.range'_succ, List.filter_cons_of_pos hp]
    exact Follows.link hb (hnext ▸ Follows.null)
  | succ n ih =>
    intro i hi hp
    obtain ⟨mcp, hmcp, hid⟩ := Option.any_eq_true _ _ |>.mp hp
    obtain ⟨b, hb, hblock⟩ := h.block i mcp (by omega) hmcp
    have hget : queue[i + 1]? = some queue[i + 1] := List.getElem?_eq_getElem (by omega)
    rw [List.range'_succ, List.filter_cons_of_pos hp]
    refine Follows.link hb ?_
    rw [hblock.nextRqcb, linkOf_eq hmcp, hget, Option.bind_some]
    rw [beq_iff_eq] at hid
    by_cases hsame : queue[i + 1].pipelineId = mcp.pipelineId
    · rw [if_pos hsame]
      refine ih (i + 1) (by omega) ?_
      rw [inPipeline, hget, Option.any_some, hsame, hid, beq_self_eq_true]
    · -- the next module belongs to a larger pipeline, since the queue is sorted by pipelines
      rw [if_neg hsame, filter_range'_eq_nil hsorted hget]
      · exact Follows.null
      · obtain ⟨hi', rfl⟩ := List.getElem?_eq_some_iff.mp hmcp
        have hle := List.pairwise_iff_getElem.mp hsorted i (i + 1) hi' (by omega) (Nat.lt_succ_self i)
        have hle' := UInt32.le_iff_toNat_le.mp hle
        have hne : queue[i + 1].pipelineId.toNat ≠ queue[i].pipelineId.toNat := fun heq =>
          hsame (UInt32.toNat_inj.mp heq)
        omega

theorem stagesOf_of_findIdx? {i : Nat}
    (hfind : queue.findIdx? (fun mcp => mcp.pipelineId.toNat == p.val) = some i) :
    ∃ n, i + (n + 1) = queue.length ∧ inPipeline queue p i = true ∧
      stagesOf queue p = (List.range' i (n + 1)).filter (inPipeline queue p) := by
  obtain ⟨hi, hp, hbefore⟩ := List.findIdx?_eq_some_iff_getElem.mp hfind
  refine ⟨queue.length - (i + 1), by omega, ?_, ?_⟩
  · rw [inPipeline, List.getElem?_eq_getElem hi]
    exact hp
  · have hrange : List.range queue.length = List.range i ++ List.range' i (queue.length - (i + 1) + 1) := by
      have happend := List.range'_append_1 (s := 0) (m := i) (n := queue.length - (i + 1) + 1)
      rw [Nat.zero_add] at happend
      rw [List.range_eq_range', List.range_eq_range', happend]
      congr 1
      omega
    have hnone : (List.range i).filter (inPipeline queue p) = [] := by
      rw [List.filter_eq_nil_iff]
      intro j hj
      have hji : j < i := List.mem_range.mp hj
      rw [inPipeline, List.getElem?_eq_getElem (Nat.lt_trans hji hi), Option.any_some]
      exact hbefore j hji
    rw [stagesOf, hrange, List.filter_append, hnone, List.nil_append]

theorem stagesOf_eq_nil (hnone : ∀ mcp ∈ queue, mcp.pipelineId.toNat ≠ p.val) : stagesOf queue p = [] := by
  rw [stagesOf, List.filter_eq_nil_iff]
  intro i _
  rw [inPipeline, Option.any_eq_true]
  rintro ⟨mcp, hmcp, hp⟩
  exact hnone mcp (List.mem_of_getElem? hmcp) (beq_iff_eq.mp hp)

theorem Built.chain (h : Built queue t queue.length d)
    (hsorted : queue.Pairwise fun m n => m.pipelineId ≤ n.pipelineId) (p : Pipeline) :
    Follows d.rqcbs ((d.pcb p).map PcbBlock.firstRqcbp) (stagesOf queue p) ∧
      (d.pcb p = none ↔ ∀ mcp ∈ queue, mcp.pipelineId.toNat ≠ p.val) := by
  have hpcb := h.pcb p
  rw [List.take_length] at hpcb
  cases hfind : queue.findIdx? fun mcp => mcp.pipelineId.toNat == p.val with
  | none =>
    have hnone : ∀ mcp ∈ queue, mcp.pipelineId.toNat ≠ p.val := by
      intro mcp hmcp heq
      have hfalse := List.findIdx?_eq_none_iff.mp hfind mcp hmcp
      rw [heq, beq_self_eq_true] at hfalse
      exact Bool.noConfusion hfalse
    rw [hfind, Option.map_none] at hpcb
    rw [hpcb, stagesOf_eq_nil hnone]
    exact ⟨Follows.null, fun _ => hnone, fun _ => rfl⟩
  | some i =>
    rw [hfind, Option.map_some] at hpcb
    obtain ⟨n, hn, hp, hstages⟩ := stagesOf_of_findIdx? hfind
    rw [hpcb, hstages]
    refine ⟨h.follows hsorted n i hn hp, fun hnull => absurd hnull (Option.some_ne_none _), fun hnone => ?_⟩
    obtain ⟨mcp, hmcp, hid⟩ := (Option.any_eq_true _ _).mp hp
    exact absurd (beq_iff_eq.mp hid) (hnone mcp (List.mem_of_getElem? hmcp))

end Follow

/-- The chains of the pipelines partition the modules, in the order of the module queue, and the module queue has every
module of the file once. -/
theorem chains_partition (env : Resources) (henv : env.Succeeds) (mods : List ModConfig) (hnames : DistinctNames mods)
    (hids : ∀ mcp ∈ mods, mcp.pipelineId.toNat < pipelineSize) (queueSize : Int)
    (hsize : 0 ≤ queueSize ∧ queueSize < maxPipelineQueueSize) (stages : StageTrees) :
    let queue := mods.foldl insertModule []
    let r := pipelineInit env queue queueSize stages
    queue.Perm mods ∧ (mods ≠ [] → r.1 = .waiting) ∧
      (∀ i mcp, queue[i]? = some mcp → ∃ b, r.2.rqcbs[i]? = some b ∧ StageBlock queue i mcp b) ∧
      ∀ p : Pipeline, Follows r.2.rqcbs ((r.2.pcb p).map PcbBlock.firstRqcbp) (stagesOf queue p) ∧
        (r.2.pcb p = none ↔ ∀ mcp ∈ mods, mcp.pipelineId.toNat ≠ p.val) := by
  intro queue r
  obtain ⟨hperm, hsorted⟩ := perm_pairwise_foldl mods
  by_cases hne : mods = []
  · subst hne
    refine ⟨hperm, fun h => absurd rfl h, fun i mcp h => ?_, fun p => ?_⟩
    · cases h
    · exact ⟨Follows.null, fun _ mcp h => absurd h List.not_mem_nil, fun _ => rfl⟩
  · have hqueue : queue ≠ [] := fun h => hne (List.Perm.nil_eq (h ▸ hperm)).symm
    obtain ⟨d, hinit, hbuilt⟩ := built_pipelineInit henv hqueue ((hperm.map _).nodup_iff.mpr hnames)
      (fun mcp hmcp => hids mcp (hperm.mem_iff.mp hmcp)) hsize stages
    have hr : r = (.waiting, d) := hinit
    rw [hr]
    refine ⟨hperm, fun _ => rfl, fun i mcp hi => ?_, fun p => ?_⟩
    · exact hbuilt.block i mcp (List.getElem?_eq_some_iff.mp hi).1 hi
    · obtain ⟨hfollows, hnull⟩ := hbuilt.chain hsorted p
      exact ⟨hfollows, hnull.trans (forall_congr' fun mcp => by rw [hperm.mem_iff])⟩

def plentiful : Resources := ⟨true, true, fun _ => true, fun _ => true, fun _ => true, fun _ _ => .created⟩

theorem plentiful_succeeds : plentiful.Succeeds :=
  ⟨rfl, rfl, fun _ => rfl, fun _ => rfl, fun _ => rfl⟩

/-- Two stages of pipeline 1 in the file, with one of pipeline 0 between them. -/
def threeModules : List ModConfig := [⟨1, 0, 1, 2, ['a']⟩, ⟨0, 0, 1, 1, ['b']⟩, ⟨1, 5, 2, 1, ['c']⟩]

/-- The chain of pipeline 1 has the two stages `a` and `c`, which are the second and third of the queue. -/
theorem chains_partition_run :
    (pipelineInit plentiful (threeModules.foldl insertModule []) 100 .initial).1 = .waiting ∧
      Follows (pipelineInit plentiful (threeModules.foldl insertModule []) 100 .initial).2.rqcbs
        (((pipelineInit plentiful (threeModules.foldl insertModule []) 100 .initial).2.pcb 1).map PcbBlock.firstRqcbp)
        [1, 2] := by
  obtain ⟨-, hwait, -, hchain⟩ := chains_partition plentiful plentiful_succeeds threeModules
    (by decide +kernel) (by decide +kernel) 100 (by decide) .initial
  have hstages : stagesOf (threeModules.foldl insertModule []) 1 = [1, 2] := by decide +kernel
  exact ⟨hwait (by decide), hstages ▸ (hchain 1).1⟩

/-! ### The configuration of the running server -/

section Running

variable {Worker : Type} {queue : List ModConfig} {t : Nat} {d : PipelineData}

/-- The chain of a pipeline, with the stages named by their place in the module queue. -/
def chainOf (queue : List ModConfig) (p : Pipeline) : List (Fin queue.length) :=
  (List.finRange queue.length).filter fun i => inPipeline queue p i.val

theorem map_val_chainOf (queue : List ModConfig) (p : Pipeline) : (chainOf queue p).map Fin.val = stagesOf queue p := by
  rw [chainOf, stagesOf, ← List.map_coe_finRange_eq_range, List.filter_map]
  rfl

theorem inPipeline_iff {p : Pipeline} {i : Nat} (hi : i < queue.length) :
    inPipeline queue p i = true ↔ queue[i].pipelineId.toNat = p.val := by
  rw [inPipeline, List.getElem?_eq_getElem hi, Option.any_some, beq_iff_eq]

theorem mem_chainOf {p : Pipeline} {i : Fin queue.length} :
    i ∈ chainOf queue p ↔ queue[i].pipelineId.toNat = p.val := by
  rw [chainOf, List.mem_filter, inPipeline_iff i.isLt]
  exact and_iff_right (List.mem_finRange i)

theorem nodup_chainOf (queue : List ModConfig) : ((List.finRange pipelineSize).flatMap (chainOf queue)).Nodup := by
  rw [List.nodup_flatMap]
  refine ⟨fun p _ => (List.nodup_finRange _).filter _, (List.nodup_finRange _).imp ?_⟩
  intro p q hpq i hp hq
  exact hpq (Fin.ext ((mem_chainOf.mp hp).symm.trans (mem_chainOf.mp hq)))

theorem mem_flatMap_chainOf (hids : ∀ mcp ∈ queue, mcp.pipelineId.toNat < pipelineSize) (i : Fin queue.length) :
    i ∈ (List.finRange pipelineSize).flatMap (chainOf queue) := by
  have hid := hids queue[i] (List.getElem_mem i.isLt)
  exact List.mem_flatMap.mpr ⟨⟨_, hid⟩, List.mem_finRange _, mem_chainOf.mpr rfl⟩

/-- The configuration that the rest of the model runs with, for a module queue: the chains, names and delays of its
modules, next to what the other parts of `csf_init` leave behind. -/
def startedConfig (hids : ∀ mcp ∈ queue, mcp.pipelineId.toNat < pipelineSize)
    (others : Config (Fin queue.length) Worker) : Config (Fin queue.length) Worker :=
  { others with
    chain := chainOf queue
    chain_nodup := nodup_chainOf queue
    chain_cover := mem_flatMap_chainOf hids
    modName := fun i => queue[i].modName.take (maxModNameLen - 1)
    delay := fun i => queue[i].delay }

theorem Follows.head? {rqcbs : List RqcbBlock} {start : Option Nat} {l : List Nat} (h : Follows rqcbs start l) :
    l.head? = start := by
  cases h with
  | null => rfl
  | link _ _ => rfl

theorem tailqNext_of_notMem {α : Type} [DecidableEq α] {x : α} {l : List α} (h : x ∉ l) : tailqNext x l = none := by
  induction l with
  | nil => rfl
  | cons y l ih =>
    rw [List.mem_cons, not_or] at h
    rw [tailqNext, if_neg (Ne.symm h.1), ih h.2]

theorem Follows.tailqNext_eq {rqcbs : List RqcbBlock} {start : Option Nat} {l : List Nat} (h : Follows rqcbs start l)
    (hl : l.Nodup) {a : Nat} {b : RqcbBlock} (ha : a ∈ l) (hb : rqcbs[a]? = some b) : tailqNext a l = b.nextRqcb := by
  induction h with
  | null => cases ha
  | @link a' b' l ha' hrest ih =>
    obtain ⟨hnot, hl⟩ := List.nodup_cons.mp hl
    rw [tailqNext]
    split_ifs with heq
    · subst heq
      rw [Option.some.inj (hb.symm.trans ha')]
      exact hrest.head?
    · exact ih hl ((List.mem_cons.mp ha).resolve_left (Ne.symm heq))

theorem tailqNext_map {α β : Type} [DecidableEq α] [DecidableEq β] {f : α → β} (hf : Function.Injective f) (x : α)
    (l : List α) : tailqNext (f x) (l.map f) = (tailqNext x l).map f := by
  induction l with
  | nil => rfl
  | cons y l ih =>
    rw [List.map_cons, tailqNext, tailqNext, List.head?_map]
    by_cases hxy : y = x
    · rw [if_pos hxy, if_pos (congrArg f hxy)]
    · rw [if_neg hxy, if_neg (fun h => hxy (hf h)), ih]

theorem findSome?_eq_of_unique {α β : Type} {f : α → Option β} {l : List α} {a : α} (ha : a ∈ l)
    (h : ∀ b ∈ l, b ≠ a → f b = none) : l.findSome? f = f a := by
  induction l with
  | nil => cases ha
  | cons b l ih =>
    rw [List.findSome?_cons]
    by_cases hba : b = a
    · subst hba
      cases hfb : f b with
      | some c => rfl
      | none =>
        refine List.findSome?_eq_none_iff.mpr fun c hc => ?_
        by_cases hcb : c = b
        · rw [hcb, hfb]
        · exact h c (List.mem_cons_of_mem _ hc) hcb
    · rw [h b List.mem_cons_self hba]
      exact ih ((List.mem_cons.mp ha).resolve_left (Ne.symm hba)) fun c hc => h c (List.mem_cons_of_mem _ hc)

/-- `pipeline_init` has built what the rest of the model starts from: `first_rqcbp` and `next_rqcb` agree with its
chains, and every `RQCB` has the name and the delay of its stage. -/
theorem Built.refines (h : Built queue t queue.length d)
    (hsorted : queue.Pairwise fun m n => m.pipelineId ≤ n.pipelineId)
    (hids : ∀ mcp ∈ queue, mcp.pipelineId.toNat < pipelineSize) (others : Config (Fin queue.length) Worker) :
    (∀ p, ((startedConfig hids others).firstRqcb p).map Fin.val = (d.pcb p).map PcbBlock.firstRqcbp) ∧
      ∀ i b, d.rqcbs[i.val]? = some b → ((startedConfig hids others).nextRqcb i).map Fin.val = b.nextRqcb ∧
        (startedConfig hids others).modName i = b.modName ∧ (startedConfig hids others).delay i = b.delay := by
  have hfollows : ∀ p, Follows d.rqcbs ((d.pcb p).map PcbBlock.firstRqcbp) ((chainOf queue p).map Fin.val) := by
    intro p
    rw [map_val_chainOf]
    exact (h.chain hsorted p).1
  refine ⟨fun p => ?_, fun i b hb => ⟨?_, ?_⟩⟩
  · rw [Config.firstRqcb, ← List.head?_map]
    exact (hfollows p).head?
  · have hid := hids queue[i] (List.getElem_mem i.isLt)
    have hmem : i ∈ chainOf queue ⟨_, hid⟩ := mem_chainOf.mpr rfl
    rw [Config.nextRqcb, findSome?_eq_of_unique (List.mem_finRange ⟨_, hid⟩), ← tailqNext_map Fin.val_injective]
    · refine (hfollows _).tailqNext_eq ?_ (List.mem_map.mpr ⟨i, hmem, rfl⟩) hb
      exact ((List.nodup_finRange _).filter _).map Fin.val_injective
    · intro q _ hq
      refine tailqNext_of_notMem fun hmem' => hq ?_
      exact Fin.ext (mem_chainOf.mp hmem').symm
  · obtain ⟨b', hb', hstage⟩ := h.block i queue[i] i.isLt (List.getElem?_eq_getElem i.isLt)
    obtain rfl := Option.some.inj (hb.symm.trans hb')
    exact ⟨hstage.modName.symm, hstage.delay.symm⟩

end Running

end Csf
