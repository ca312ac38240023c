import Csf.Config.Model
import Csf.Lib.StableSort
import Mathlib.Data.List.Induction
import Mathlib.Data.List.Pairwise
import Mathlib.Data.Prod.Lex

/-!
# The order of the module queue

The comment in `mod_config_init` says that the queue is sorted by the pipeline and then by the stage. The insertion
compares the new module with the pipelines of the queue, and with the stage of the last module only. So the modules
of a pipeline always stand together, in the order of the pipelines. Inside of a pipeline a new module goes to the end
of its group, or before the last one if the group is the last of the queue. It can thus pass one module at most, and
none while the queue has a module of a larger pipeline.
-/

namespace Csf

open Lib

/-- What the queue is meant to be sorted by. -/
def ModConfig.key (m : ModConfig) : ℕ ×ₗ ℤ := toLex (m.pipelineId.toNat, m.stageId.toInt)

theorem key_le_iff {m n : ModConfig} :
    m.key ≤ n.key ↔ m.pipelineId < n.pipelineId ∨ m.pipelineId = n.pipelineId ∧ m.stageId ≤ n.stageId := by
  rw [ModConfig.key, ModConfig.key, Prod.Lex.toLex_le_toLex, UInt32.lt_iff_toNat_lt, ← UInt32.toNat_inj,
    Int32.le_iff_toInt_le]

theorem key_lt_iff {m n : ModConfig} :
    m.key < n.key ↔ m.pipelineId < n.pipelineId ∨ m.pipelineId = n.pipelineId ∧ m.stageId < n.stageId := by
  rw [ModConfig.key, ModConfig.key, Prod.Lex.toLex_lt_toLex, UInt32.lt_iff_toNat_lt, ← UInt32.toNat_inj,
    Int32.lt_iff_toInt_lt]

/-! ### The accepted modules -/

section Accepted

variable (ld : Loader) (cfgp : CsfConf) (conf : Dictionary)

/-- The modules of the sections that are inserted, in the order of the file. -/
def acceptedSections : List (List Char) → ModVars → List ModConfig
  | [], _ => []
  | secname :: secnames, vars =>
    match loadSection ld cfgp conf vars secname with
    | .skip => acceptedSections secnames vars
    | .stop _ => []
    | .module msp vars => msp :: acceptedSections secnames vars

/-- The modules that `mod_config_init` accepts, in the order of the file. -/
def acceptedModules (vars : ModVars) : Option Dictionary → List ModConfig
  | none => []
  | some conf => acceptedSections ld cfgp conf (iniparserSecnames conf) vars

theorem loadSections_queue (secnames : List (List Char)) (vars : ModVars) (mcqp : List ModConfig) :
    (loadSections ld cfgp conf secnames vars mcqp).2 =
      (acceptedSections ld cfgp conf secnames vars).foldl insertModule mcqp := by
  induction secnames generalizing vars mcqp with
  | nil => rfl
  | cons secname secnames ih =>
    simp only [loadSections, acceptedSections]
    cases loadSection ld cfgp conf vars secname with
    | skip => exact ih vars mcqp
    | stop exit => rfl
    | module msp vars => exact ih vars (insertModule mcqp msp)

theorem modConfigInit_queue (conf : Option Dictionary) (vars : ModVars) (mcqp : List ModConfig) :
    (modConfigInit ld cfgp conf vars mcqp).2 = (acceptedModules ld cfgp vars conf).foldl insertModule mcqp := by
  cases conf with
  | none => rfl
  | some conf =>
    rw [modConfigInit, acceptedModules]
    split_ifs with hsec
    · have hnil : iniparserSecnames conf = [] := List.length_eq_zero_iff.mp (by rw [iniparserGetnsec] at hsec; omega)
      rw [hnil]
      rfl
    · exact loadSections_queue ld cfgp conf _ vars mcqp

end Accepted

/-! ### Where the insertion puts a module -/

theorem insertBeforeLarger_eq_none {msp : ModConfig} {mcqp : List ModConfig} (h : insertBeforeLarger msp mcqp = none) :
    ∀ m ∈ mcqp, m.pipelineId ≤ msp.pipelineId := by
  induction mcqp with
  | nil => exact fun m hm => absurd hm List.not_mem_nil
  | cons msp1 rest ih =>
    rw [insertBeforeLarger] at h
    split_ifs at h with hlarger
    intro m hm
    rcases List.mem_cons.mp hm with rfl | hm
    · exact UInt32.not_lt.mp hlarger
    · exact ih (Option.map_eq_none_iff.mp h) m hm

theorem insertBeforeLarger_eq_some {msp : ModConfig} {mcqp mcqp' : List ModConfig}
    (h : insertBeforeLarger msp mcqp = some mcqp') :
    ∃ pre msp1 rest, mcqp = pre ++ msp1 :: rest ∧ mcqp' = pre ++ msp :: msp1 :: rest ∧
      (∀ m ∈ pre, m.pipelineId ≤ msp.pipelineId) ∧ msp.pipelineId < msp1.pipelineId := by
  induction mcqp generalizing mcqp' with
  | nil => cases h
  | cons msp1 rest ih =>
    rw [insertBeforeLarger] at h
    split_ifs at h with hlarger
    · cases h
      exact ⟨[], msp1, rest, rfl, rfl, fun m hm => absurd hm List.not_mem_nil, hlarger⟩
    · obtain ⟨rest', hrest, rfl⟩ := Option.map_eq_some_iff.mp h
      obtain ⟨pre, msp2, post, rfl, rfl, hpre, hmsp2⟩ := ih hrest
      refine ⟨msp1 :: pre, msp2, post, rfl, rfl, fun m hm => ?_, hmsp2⟩
      rcases List.mem_cons.mp hm with rfl | hm
      · exact UInt32.not_lt.mp hlarger
      · exact hpre m hm

/-- The three places for a new module between the front `pre` and the rest `post` of the queue. -/
inductive Placed (msp : ModConfig) : List ModConfig → List ModConfig → Prop
  | larger {pre rest : List ModConfig} {msp1 : ModConfig} (hpre : ∀ m ∈ pre, m.pipelineId ≤ msp.pipelineId)
      (hlarger : msp.pipelineId < msp1.pipelineId) : Placed msp pre (msp1 :: rest)
  | beforeLast {pre : List ModConfig} {msp1 : ModConfig} (hpre : ∀ m ∈ pre, m.pipelineId ≤ msp.pipelineId)
      (hsame : msp1.pipelineId = msp.pipelineId) (hstage : msp.stageId < msp1.stageId) : Placed msp pre [msp1]
  | tail {pre : List ModConfig} (hpre : ∀ m ∈ pre, m.pipelineId ≤ msp.pipelineId)
      (hlast : ∀ msp1 ∈ pre.getLast?, msp1.key ≤ msp.key) : Placed msp pre []

theorem insertModule_placed (mcqp : List ModConfig) (msp : ModConfig) :
    ∃ pre post, mcqp = pre ++ post ∧ insertModule mcqp msp = pre ++ msp :: post ∧ Placed msp pre post := by
  rw [insertModule]
  cases hbefore : insertBeforeLarger msp mcqp with
  | some mcqp' =>
    obtain ⟨pre, msp1, rest, hq, hq', hpre, hlarger⟩ := insertBeforeLarger_eq_some hbefore
    exact ⟨pre, msp1 :: rest, hq, hq', .larger hpre hlarger⟩
  | none =>
    have hle := insertBeforeLarger_eq_none hbefore
    have atTail (hlast : ∀ msp1 ∈ mcqp.getLast?, msp1.key ≤ msp.key) :
        ∃ pre post, mcqp = pre ++ post ∧ mcqp ++ [msp] = pre ++ msp :: post ∧ Placed msp pre post :=
      ⟨mcqp, [], (List.append_nil mcqp).symm, rfl, .tail hle hlast⟩
    cases hlast : mcqp.getLast? with
    | none => exact atTail fun msp1 h => by rw [hlast] at h; cases h
    | some msp1 =>
      have hq : mcqp = mcqp.dropLast ++ [msp1] := (List.dropLast_append_getLast? msp1 hlast).symm
      have hlast_mem : msp1 ∈ mcqp := List.mem_of_getLast? hlast
      dsimp only
      by_cases hsame : msp1.pipelineId = msp.pipelineId
      · rw [if_pos hsame]
        by_cases hstage : msp1.stageId > msp.stageId
        · rw [if_pos hstage]
          exact ⟨mcqp.dropLast, [msp1], hq, rfl,
            .beforeLast (fun m hm => hle m (List.mem_of_mem_dropLast hm)) hsame hstage⟩
        · rw [if_neg hstage]
          refine atTail fun m hm => ?_
          obtain rfl : msp1 = m := Option.some.inj (hlast.symm.trans hm)
          exact key_le_iff.mpr (Or.inr ⟨hsame, Int32.not_lt.mp hstage⟩)
      · rw [if_neg hsame]
        refine atTail fun m hm => ?_
        obtain rfl : msp1 = m := Option.some.inj (hlast.symm.trans hm)
        exact key_le_iff.mpr (Or.inl (UInt32.lt_of_le_of_ne (hle _ hlast_mem) hsame))

section Placed

variable {msp : ModConfig} {pre post : List ModConfig}

theorem Placed.pre_le (h : Placed msp pre post) : ∀ m ∈ pre, m.pipelineId ≤ msp.pipelineId := by
  cases h with
  | larger hpre _ => exact hpre
  | beforeLast hpre _ _ => exact hpre
  | tail hpre _ => exact hpre

theorem Placed.key_lt (h : Placed msp pre post) (hq : (pre ++ post).Pairwise fun m n => m.pipelineId ≤ n.pipelineId) :
    ∀ m ∈ post, msp.key < m.key := by
  intro m hm
  cases h with
  | larger hpre hlarger =>
    apply key_lt_iff.mpr
    rcases List.mem_cons.mp hm with rfl | hm
    · exact Or.inl hlarger
    · have hrest := List.rel_of_pairwise_cons (List.pairwise_append.mp hq).2.1 hm
      exact Or.inl (UInt32.lt_of_lt_of_le hlarger hrest)
  | beforeLast hpre hsame hstage =>
    obtain rfl := List.mem_singleton.mp hm
    exact key_lt_iff.mpr (Or.inr ⟨hsame.symm, hstage⟩)
  | tail hpre hlast => cases hm

theorem perm_insertModule (mcqp : List ModConfig) (msp : ModConfig) :
    (insertModule mcqp msp).Perm (mcqp ++ [msp]) := by
  obtain ⟨pre, post, rfl, hins, -⟩ := insertModule_placed mcqp msp
  rw [hins]
  exact perm_insert (List.Perm.refl _)

theorem pairwise_insertModule {mcqp : List ModConfig} (msp : ModConfig)
    (hq : mcqp.Pairwise fun m n => m.pipelineId ≤ n.pipelineId) :
    (insertModule mcqp msp).Pairwise fun m n => m.pipelineId ≤ n.pipelineId := by
  obtain ⟨pre, post, rfl, hins, hplaced⟩ := insertModule_placed mcqp msp
  rw [hins]
  refine pairwise_insert hq hplaced.pre_le fun m hm => ?_
  rcases key_lt_iff.mp (hplaced.key_lt hq m hm) with hlt | ⟨heq, -⟩
  · exact UInt32.le_of_lt hlt
  · exact heq ▸ UInt32.le_refl _

end Placed

/-! ### When the place is the right one -/

/-- `m` is a module of the pipeline of `msp` with a larger stage: `msp` has to be put in front of it. -/
def Overtakes (msp m : ModConfig) : Prop := m.pipelineId = msp.pipelineId ∧ msp.stageId < m.stageId

instance (msp m : ModConfig) : Decidable (Overtakes msp m) := inferInstanceAs (Decidable (_ ∧ _))

/-- How many of the modules before it in the file `msp` has to be put in front of. -/
def overtaken (earlier : List ModConfig) (msp : ModConfig) : Nat := earlier.countP fun m => Overtakes msp m

/-- There is no module to overtake, or one, and no module of a larger pipeline. -/
def Placeable (earlier : List ModConfig) (msp : ModConfig) : Prop :=
  overtaken earlier msp = 0 ∨ overtaken earlier msp = 1 ∧ ∀ m ∈ earlier, m.pipelineId ≤ msp.pipelineId

/-- Every module is placeable after those that precede it in the file. -/
def OrderlyFile (mods : List ModConfig) : Prop :=
  ∀ earlier msp later, mods = earlier ++ msp :: later → Placeable earlier msp

theorem orderlyFile_append_singleton {mods : List ModConfig} {msp : ModConfig} :
    OrderlyFile (mods ++ [msp]) ↔ OrderlyFile mods ∧ Placeable mods msp := by
  constructor
  · intro h
    refine ⟨fun earlier m later hmods => h earlier m (later ++ [msp]) ?_, h mods msp [] rfl⟩
    rw [hmods, List.append_assoc, List.cons_append]
  · rintro ⟨hmods, hmsp⟩ earlier m later heq
    rcases List.eq_nil_or_concat' later with rfl | ⟨later, last, rfl⟩
    · obtain ⟨rfl, hm⟩ := List.append_inj' heq rfl
      cases hm
      exact hmsp
    · rw [← List.cons_append, ← List.append_assoc] at heq
      exact hmods earlier m later (List.append_inj' heq rfl).1

theorem placeable_perm {l l' : List ModConfig} (h : l.Perm l') (msp : ModConfig) :
    Placeable l msp ↔ Placeable l' msp := by
  simp only [Placeable, overtaken, h.countP_eq, h.mem_iff]

theorem key_le_iff_not_overtakes {msp m : ModConfig} (hle : m.pipelineId ≤ msp.pipelineId) :
    m.key ≤ msp.key ↔ ¬ Overtakes msp m := by
  rw [key_le_iff, Overtakes, not_and, Int32.not_lt]
  constructor
  · rintro (hlt | ⟨-, hstage⟩) hsame
    · exact absurd (hsame ▸ hlt) (UInt32.lt_irrefl _)
    · exact hstage
  · intro h
    by_cases hsame : m.pipelineId = msp.pipelineId
    · exact Or.inr ⟨hsame, h hsame⟩
    · exact Or.inl (UInt32.lt_of_le_of_ne hle hsame)

theorem overtaken_eq_zero_iff {msp : ModConfig} {l : List ModConfig}
    (hle : ∀ m ∈ l, m.pipelineId ≤ msp.pipelineId) : overtaken l msp = 0 ↔ ∀ m ∈ l, m.key ≤ msp.key := by
  rw [overtaken, List.countP_eq_zero]
  refine forall₂_congr fun m hm => ?_
  rw [key_le_iff_not_overtakes (hle m hm), decide_eq_true_iff]

theorem overtaken_append (l l' : List ModConfig) (msp : ModConfig) :
    overtaken (l ++ l') msp = overtaken l msp + overtaken l' msp :=
  List.countP_append

/-- The place of a new module in a sorted queue is right exactly if it is placeable. -/
theorem Placed.key_le_iff_placeable {msp : ModConfig} {pre post : List ModConfig} (h : Placed msp pre post)
    (hq : (pre ++ post).Pairwise fun m n => m.key ≤ n.key) :
    (∀ m ∈ pre, m.key ≤ msp.key) ↔ Placeable (pre ++ post) msp := by
  rw [← overtaken_eq_zero_iff h.pre_le, Placeable, overtaken_append]
  cases h with
  | @larger _ msp1 hpre hlarger =>
    have hrest : overtaken (msp1 :: _) msp = 0 := List.countP_eq_zero.mpr fun m hm => by
      rw [decide_eq_true_iff]
      rintro ⟨hsame, -⟩
      rcases List.mem_cons.mp hm with rfl | hm
      · exact absurd (hsame ▸ hlarger) (UInt32.lt_irrefl _)
      · rcases key_le_iff.mp (List.rel_of_pairwise_cons (List.pairwise_append.mp hq).2.1 hm) with hlt | ⟨heq, -⟩
        · exact absurd (UInt32.lt_trans hlarger (hsame ▸ hlt)) (UInt32.lt_irrefl _)
        · exact absurd (hsame ▸ heq ▸ hlarger) (UInt32.lt_irrefl _)
    rw [hrest, Nat.add_zero]
    refine ⟨Or.inl, fun h => h.elim id fun ⟨_, hall⟩ => ?_⟩
    exact absurd (hall msp1 (List.mem_append_right _ List.mem_cons_self)) (UInt32.not_le.mpr hlarger)
  | @beforeLast msp1 hpre hsame hstage =>
    have hlast : overtaken [msp1] msp = 1 := List.countP_singleton.trans (if_pos (decide_eq_true ⟨hsame, hstage⟩))
    rw [hlast]
    constructor
    · intro hzero
      refine Or.inr ⟨by omega, fun m hm => ?_⟩
      rcases List.mem_append.mp hm with hm | hm
      · exact hpre m hm
      · exact List.mem_singleton.mp hm ▸ UInt32.le_of_eq hsame
    · rintro (hzero | ⟨hone, -⟩) <;> omega
  | tail hpre hlast =>
    -- the last module is in its place, so the ones before it are
    have hzero : overtaken pre msp = 0 := (overtaken_eq_zero_iff hpre).mpr fun m hm => by
      rw [List.append_nil] at hq
      have hle := hq.rel_getLast_of_rel_getLast_getLast hm le_rfl
      exact hle.trans (hlast _ (List.getLast?_eq_some_getLast (List.ne_nil_of_mem hm)))
    rw [hzero]
    exact ⟨fun _ => Or.inl rfl, fun _ => rfl⟩

/-! ### The whole queue -/

theorem stableSort_insertModule_iff {mods mcqp : List ModConfig} {msp : ModConfig}
    (hperm : mcqp.Perm mods) (hq : mcqp.Pairwise fun m n => m.pipelineId ≤ n.pipelineId) :
    StableSort ModConfig.key (mods ++ [msp]) (insertModule mcqp msp) ↔
      StableSort ModConfig.key mods mcqp ∧ Placeable mods msp := by
  obtain ⟨pre, post, rfl, hins, hplaced⟩ := insertModule_placed mcqp msp
  rw [hins, stableSort_insert_iff (hplaced.key_lt hq)]
  refine and_congr_right fun hsort => ?_
  rw [hplaced.key_le_iff_placeable hsort.sorted, placeable_perm hperm]

/-- Whatever the file says, the queue has the modules that were inserted, pipeline after pipeline. -/
theorem perm_pairwise_foldl (mods : List ModConfig) :
    (mods.foldl insertModule []).Perm mods ∧
      (mods.foldl insertModule []).Pairwise fun m n => m.pipelineId ≤ n.pipelineId := by
  induction mods using List.reverseRecOn with
  | nil => exact ⟨List.Perm.nil, List.Pairwise.nil⟩
  | append_singleton mods msp ih =>
    rw [List.foldl_append, List.foldl_cons, List.foldl_nil]
    exact ⟨(perm_insertModule _ msp).trans (ih.1.append_right [msp]), pairwise_insertModule msp ih.2⟩

/-- A module that was put into a wrong place stays there, since later insertions do not reorder the queue. -/
theorem stableSort_foldl_iff (mods : List ModConfig) :
    StableSort ModConfig.key mods (mods.foldl insertModule []) ↔ OrderlyFile mods := by
  induction mods using List.reverseRecOn with
  | nil =>
    refine ⟨fun _ earlier msp later h => ?_, fun _ => StableSort.nil _⟩
    exact absurd h.symm (List.append_ne_nil_of_right_ne_nil _ (List.cons_ne_nil _ _))
  | append_singleton mods msp ih =>
    obtain ⟨hperm, hq⟩ := perm_pairwise_foldl mods
    rw [List.foldl_append, List.foldl_cons, List.foldl_nil, stableSort_insertModule_iff hperm hq, ih,
      orderlyFile_append_singleton]

/-- The queue that `mod_config_init` leaves, started with an empty one, is the stable sort of the accepted modules
exactly if every accepted module overtakes none of the accepted modules before it in the file, or just one while
there is none of a larger pipeline. -/
theorem stage_order_iff (ld : Loader) (cfgp : CsfConf) (conf : Option Dictionary) (vars : ModVars) :
    StableSort ModConfig.key (acceptedModules ld cfgp vars conf) (modConfigInit ld cfgp conf vars []).2 ↔
      OrderlyFile (acceptedModules ld cfgp vars conf) := by
  rw [modConfigInit_queue]
  exact stableSort_foldl_iff _

/-- A linker that finds every library, and a `strtol` for one digit. -/
def plainLoader : Loader where
  strtol
    | ['1'] => 1
    | ['2'] => 2
    | ['3'] => 3
    | _ => 0
  dlopen _ := true
  dlsym _ := true
  calloc _ := true
  reopen _ := true
  modInit _ _ := 0

def plainConf : CsfConf := ⟨['.'], ['p', '.', 's', 'o']⟩

/-- Three sections `a`, `b` and `c` with the stages 3, 2 and 1, all of pipeline 0. -/
def descendingStages : Dictionary := [
  (['a'], none), (['a', ':', 's', 't', 'a', 'g', 'e', '_', 'i', 'd'], some ['3']),
  (['b'], none), (['b', ':', 's', 't', 'a', 'g', 'e', '_', 'i', 'd'], some ['2']),
  (['c'], none), (['c', ':', 's', 't', 'a', 'g', 'e', '_', 'i', 'd'], some ['1'])]

/-- All three are accepted, and the queue is 2, 1, 3. -/
theorem descending_stages_misplaced :
    (modConfigInit plainLoader plainConf (some descendingStages) ModVars.default []).1 = .returned csfOk ∧
      (modConfigInit plainLoader plainConf (some descendingStages) ModVars.default []).2.map ModConfig.stageId =
        [2, 1, 3] ∧
      ¬ StableSort ModConfig.key (acceptedModules plainLoader plainConf ModVars.default (some descendingStages))
        (modConfigInit plainLoader plainConf (some descendingStages) ModVars.default []).2 := by
  refine ⟨by decide +kernel, by decide +kernel, fun h => absurd h.sorted (by decide +kernel)⟩

end Csf
