import Csf.Lib.Barrier
import Csf.Startup.Chains
import Mathlib.Data.List.TakeWhile

/-!
# The wait for the threads

`pipeline_init` adds up the configured numbers of threads in `all_thread_num`, an unsigned word, and waits until as many
threads have counted themselves in `initialized_thread_num` (`worker_thread_init`). `thread_pool_init` creates the threads
of a module and goes on when one of them cannot be created; its result is not looked at. So the sum of the configured
numbers stands for the number of threads only up to the rounds that failed, the modules with a negative number and the
overflow of the word.
-/

namespace Csf

open Lib

/-! ### Threads of a module -/

/-- The threads that `thread_pool_init` creates: its rounds up to the first `calloc` that fails, without those in which
`pthread_create` fails. -/
def createdThreads (outcome : Nat → ThreadOutcome) (nthread : Int32) : Nat :=
  ((List.range nthread.toInt.toNat).takeWhile fun i => outcome i ≠ .noMemory).countP fun i => outcome i = .created

theorem length_threadPoolInit (outcome : Nat → ThreadOutcome) (rqcbp left i : Nat) :
    (threadPoolInit outcome rqcbp left i).length =
      ((List.range' i left).takeWhile fun i => outcome i ≠ .noMemory).countP fun i => outcome i = .created := by
  induction left generalizing i with
  | zero => rfl
  | succ left ih =>
    rw [threadPoolInit, List.range'_succ]
    cases houtcome : outcome i with
    | noMemory => simp [houtcome]
    | notCreated => simpa [houtcome] using ih (i + 1)
    | created => simpa [houtcome] using ih (i + 1)

theorem createdThreads_le (outcome : Nat → ThreadOutcome) (nthread : Int32) :
    createdThreads outcome nthread ≤ nthread.toInt.toNat := by
  refine Nat.le_trans List.countP_le_length (Nat.le_trans (List.takeWhile_sublist _).length_le ?_)
  rw [List.length_range]

theorem createdThreads_eq_iff {outcome : Nat → ThreadOutcome} {nthread : Int32} :
    createdThreads outcome nthread = nthread.toInt.toNat ↔ ∀ i < nthread.toInt.toNat, outcome i = .created := by
  constructor
  · intro h
    have hsub : ((List.range nthread.toInt.toNat).takeWhile fun i => outcome i ≠ .noMemory).Sublist
        (List.range nthread.toInt.toNat) := List.takeWhile_sublist _
    have hlen : nthread.toInt.toNat ≤
        ((List.range nthread.toInt.toNat).takeWhile fun i => outcome i ≠ .noMemory).length := by
      rw [createdThreads] at h
      exact Nat.le_trans (Nat.le_of_eq h.symm) List.countP_le_length
    have hall := hsub.eq_of_length_le (by rw [List.length_range]; exact hlen)
    rw [createdThreads, hall] at h
    have hcount := List.countP_eq_length.mp (h.trans List.length_range.symm)
    exact fun i hi => of_decide_eq_true (hcount i (List.mem_range.mpr hi))
  · intro h
    have hmem : ∀ i ∈ List.range nthread.toInt.toNat, outcome i = .created := fun i hi => h i (List.mem_range.mp hi)
    rw [createdThreads, List.takeWhile_eq_self_iff.mpr, List.countP_eq_length.mpr, List.length_range]
    · exact fun i hi => decide_eq_true (hmem i hi)
    · intro i hi
      rw [hmem i hi]
      rfl

/-! ### All modules -/

def configuredTotal : List ModConfig → Int
  | [] => 0
  | mcp :: mqp => mcp.threadNum.toInt + configuredTotal mqp

/-- The threads of the modules, the first of which has the `RQCB` at `a`. -/
def createdTotal (env : Resources) : (a : Nat) → List ModConfig → Nat
  | _, [] => 0
  | a, mcp :: mqp => createdThreads (env.thread a) mcp.threadNum + createdTotal env (a + 1) mqp

theorem toNat_toUInt32 (x : Int32) : (x.toUInt32.toNat : Int) = x.toInt % 4294967296 := by
  have hbits : x.toInt = (x.toUInt32.toNat : Int).bmod 4294967296 := BitVec.toInt_eq_toNat_bmod x.toBitVec
  have hmod := @Int.bmod_emod (x.toUInt32.toNat : Int) 4294967296
  rw [← hbits] at hmod
  have hlt := x.toUInt32.toNat_lt
  omega

section Loop

variable {env : Resources} {mcp : ModConfig} {nextMcp : Option ModConfig} {a : Nat} {d d' : PipelineData}

theorem addPcb_threads {curId : Pipeline} (h : addPcb env mcp curId a d = some d') :
    d'.allThreadNum = d.allThreadNum ∧ d'.threads = d.threads ∧ d'.rqcbs = d.rqcbs := by
  rw [addPcb] at h
  split at h
  · rw [← Option.some.inj h]
    exact ⟨rfl, rfl, rfl⟩
  · split_ifs at h
    rw [← Option.some.inj h]
    exact ⟨rfl, rfl, rfl⟩

theorem addNext_threads {next arg : Option Nat} (h : addNext env mcp nextMcp a d = some (next, arg, d')) :
    d'.allThreadNum = d.allThreadNum ∧ d'.threads = d.threads ∧
      d'.rqcbs.length = d.rqcbs.length + nextMcp.toList.length ∧ next = nextMcp.map fun _ => d.rqcbs.length := by
  unfold addNext at h
  split at h
  · cases h
    exact ⟨rfl, rfl, rfl, rfl⟩
  · dsimp only at h
    split_ifs at h
    · cases h
      refine ⟨rfl, rfl, ?_, rfl⟩
      rw [PipelineData.modifyRqcb, List.length_modify, List.length_append]
      rfl
    · cases h
      exact ⟨rfl, rfl, List.length_append, rfl⟩

theorem stageAdd_threads {copy : Copy} (h : stageAdd copy a d = some (some d')) :
    d'.allThreadNum = d.allThreadNum ∧ d'.threads = d.threads ∧ d'.rqcbs = d.rqcbs := by
  rw [stageAdd] at h
  split at h
  · cases h
  · split_ifs at h
    · cases h
    · cases h
      exact ⟨rfl, rfl, rfl⟩

theorem addModule_threads {next : Option Nat} (h : addModule env mcp nextMcp a d = .next next d') :
    d'.allThreadNum = d.allThreadNum + mcp.threadNum.toUInt32 ∧
      d'.threads.length = d.threads.length + createdThreads (env.thread a) mcp.threadNum ∧
      d'.rqcbs.length = d.rqcbs.length + nextMcp.toList.length ∧ next = nextMcp.map fun _ => d.rqcbs.length := by
  obtain ⟨curId, d₁, d₂, d₃, nextArg, hadd, hpcb, hnext, rfl⟩ := exists_of_addModule h
  obtain ⟨hall₁, hthreads₁, hrqcbs₁⟩ := stageAdd_threads hadd
  obtain ⟨hall₂, hthreads₂, hrqcbs₂⟩ := addPcb_threads hpcb
  obtain ⟨hall₃, hthreads₃, hrqcbs₃, hnext₃⟩ := addNext_threads hnext
  have hlen : d₂.rqcbs.length = d.rqcbs.length := by
    rw [hrqcbs₂, hrqcbs₁, PipelineData.modifyRqcb, List.length_modify]
  refine ⟨?_, ?_, ?_, ?_⟩
  · rw [startStage, hall₃, hall₂, hall₁]
    rfl
  · rw [startStage, List.length_append, length_threadPoolInit, hthreads₃, hthreads₂, hthreads₁, createdThreads,
      List.range_eq_range']
    rfl
  · rw [startStage, PipelineData.modifyRqcb, List.length_modify, hrqcbs₃, hlen]
  · rw [hnext₃, hlen]

theorem addModule_stop {result : InitResult} (h : addModule env mcp nextMcp a d = .stop result) : result ≠ .waiting := by
  unfold addModule at h
  dsimp only at h
  split at h
  · cases h
    exact InitResult.noConfusion
  · cases h
    exact InitResult.noConfusion
  · split at h
    · split at h
      · cases h
        exact InitResult.noConfusion
      · split at h
        · cases h
          exact InitResult.noConfusion
        · split_ifs at h
          cases h
          exact InitResult.noConfusion
    · cases h
      exact InitResult.noConfusion

/-- The loop, by induction on the modules that are left; the next `RQCB` is always the last one allocated. -/
theorem pipelineLoop_threads {mqp : List ModConfig} {rqcbp : Option Nat}
    (hrqcbp : mqp ≠ [] → rqcbp = some a ∧ d.rqcbs.length = a + 1)
    (h : pipelineLoop env mqp rqcbp d = (.waiting, d')) :
    (d'.allThreadNum.toNat : Int) = (d.allThreadNum.toNat + configuredTotal mqp) % 4294967296 ∧
      d'.threads.length = d.threads.length + createdTotal env a mqp := by
  induction mqp generalizing a rqcbp d with
  | nil =>
    obtain ⟨-, rfl⟩ := Prod.mk.inj h
    have hlt := d.allThreadNum.toNat_lt
    refine ⟨?_, rfl⟩
    rw [configuredTotal]
    omega
  | cons mcp mqp ih =>
    obtain ⟨rfl, hlen⟩ := hrqcbp (List.cons_ne_nil _ _)
    rw [pipelineLoop] at h
    split at h
    · rename_i result hround
      exact absurd (Prod.mk.inj h).1 (addModule_stop hround)
    · rename_i next d₁ hround
      obtain ⟨hall, hthreads, hrqcbs, hnext⟩ := addModule_threads hround
      have hrest := ih (a := a + 1) (fun hne => ?_) h
      · obtain ⟨hsum, hcreated⟩ := hrest
        refine ⟨?_, ?_⟩
        · have hnum := toNat_toUInt32 mcp.threadNum
          rw [hall, UInt32.toNat_add] at hsum
          rw [hsum, configuredTotal]
          omega
        · rw [hcreated, hthreads, createdTotal, Nat.add_assoc]
      · cases mqp with
        | nil => exact absurd rfl hne
        | cons mcp' mqp =>
          rw [hnext, hrqcbs, hlen]
          exact ⟨rfl, rfl⟩

end Loop

theorem pipelineInit_threads {env : Resources} {mqp : List ModConfig} {queueSize : Int} {stages : StageTrees}
    {d : PipelineData} (h : pipelineInit env mqp queueSize stages = (.waiting, d)) :
    (d.allThreadNum.toNat : Int) = configuredTotal mqp % 4294967296 ∧ d.threads.length = createdTotal env 0 mqp := by
  rw [pipelineInit] at h
  dsimp only at h
  split_ifs at h
  · exact absurd (Prod.mk.inj h).1 InitResult.noConfusion
  · exact absurd (Prod.mk.inj h).1 InitResult.noConfusion
  · exact absurd (Prod.mk.inj h).1 InitResult.noConfusion
  · exact absurd (Prod.mk.inj h).1 InitResult.noConfusion
  · obtain ⟨hall, hcreated⟩ := pipelineLoop_threads (fun _ => ⟨rfl, rfl⟩) h
    rw [hall, hcreated]
    exact ⟨by simp, Nat.zero_add _⟩
  · exact absurd (Prod.mk.inj h).1 InitResult.noConfusion

/-! ### The wait -/

/-- The variables that the wait and `worker_thread_init` use, for `n` threads. -/
structure StartState (n : Nat) where
  /-- the threads that have run `worker_thread_init` -/
  ready : Finset (Fin n)
  initializedThreadNum : UInt32
  pipelineWorkingThreads : UInt64
  /-- `thread_num` of each `RQCB` -/
  threadNum : Nat → UInt32
  /-- `thr_seq_num` of each thread -/
  thrSeqNum : Fin n → UInt32
  main : Barrier.Waiter

/-- Static variables and the blocks of `calloc` are zero; the loop over the modules is over. -/
def StartState.initial {n : Nat} : StartState n := ⟨∅, 0, 0, fun _ => 0, fun _ => 0, .testing⟩

/-- `worker_thread_init` of a thread, all of it with `worker_mutex`. `request_init` succeeds; otherwise `CRIT` ends the
process. -/
def workerThreadInit (d : PipelineData) (s : StartState d.threads.length) (i : Fin d.threads.length) :
    StartState d.threads.length :=
  let rqcbp := d.threads.get i
  { ready := insert i s.ready
    initializedThreadNum := s.initializedThreadNum + 1
    pipelineWorkingThreads := s.pipelineWorkingThreads + 1
    threadNum := Function.update s.threadNum rqcbp (s.threadNum rqcbp + 1)
    thrSeqNum := Function.update s.thrSeqNum i (s.threadNum rqcbp)
    main := s.main.signalled }

/-- A thread initialises itself, or the main thread makes a test of its loop or wakes up from `pthread_cond_wait`. -/
def startStep (d : PipelineData) (s : StartState d.threads.length) :
    Barrier.Event (Fin d.threads.length) → Option (StartState d.threads.length)
  | .arrive i => if i ∈ s.ready then none else some (workerThreadInit d s i)
  | .test =>
    if s.main = .testing then
      some { s with main := if d.allThreadNum = s.initializedThreadNum then .passed else .waiting }
    else none
  | .wake => if s.main = .waiting then some { s with main := .testing } else none

/-- The states of all runs of the threads against the wait. -/
abbrev Started (d : PipelineData) : StartState d.threads.length → Prop :=
  Reach (startStep d) (fun _ _ _ => True) StartState.initial

/-- Once every thread is initialised, the wait is over or its next test ends it, and it is not over before. -/
structure WaitsForAll (d : PipelineData) : Prop where
  notBefore : ∀ s, Started d s → s.main = .passed → s.ready = Finset.univ
  ends : ∀ s, Started d s → s.ready = Finset.univ →
    s.main = .passed ∨ startStep d s .test = some { s with main := .passed }

def StartState.barrier {n : Nat} (s : StartState n) : Barrier.State (Fin n) 32 :=
  ⟨s.ready, s.initializedThreadNum.toBitVec, s.main⟩

section Wait

variable {d : PipelineData}

theorem step_barrier (s : StartState d.threads.length) (a : Barrier.Event (Fin d.threads.length)) :
    Barrier.step d.allThreadNum.toBitVec s.barrier a = (startStep d s a).map StartState.barrier := by
  cases a with
  | arrive i =>
    rw [Barrier.step, startStep, apply_ite (Option.map StartState.barrier)]
    rfl
  | test =>
    rw [Barrier.step, startStep, apply_ite (Option.map StartState.barrier)]
    refine if_congr Iff.rfl (congrArg some ?_) rfl
    exact congrArg _ (if_congr UInt32.toBitVec_inj rfl rfl)
  | wake =>
    rw [Barrier.step, startStep, apply_ite (Option.map StartState.barrier)]
    rfl

theorem test_passes_iff (s : StartState d.threads.length) :
    Barrier.step d.allThreadNum.toBitVec s.barrier .test = some { s.barrier with waiter := .passed } ↔
      startStep d s .test = some { s with main := .passed } := by
  rw [step_barrier, startStep]
  by_cases htesting : s.main = .testing
  · rw [if_pos htesting]
    by_cases hall : d.allThreadNum = s.initializedThreadNum
    · rw [if_pos hall]
      exact iff_of_true rfl rfl
    · rw [if_neg hall]
      refine iff_of_false (fun h => ?_) fun h => ?_
      · exact Barrier.Waiter.noConfusion (congrArg Barrier.State.waiter (Option.some.inj h))
      · exact Barrier.Waiter.noConfusion (congrArg StartState.main (Option.some.inj h))
  · rw [if_neg htesting]
    exact iff_of_false (Option.some_ne_none _).symm (Option.some_ne_none _).symm

theorem exists_started {t : Barrier.State (Fin d.threads.length) 32} (h : Barrier.Reachable d.allThreadNum.toBitVec t) :
    ∃ s, Started d s ∧ s.barrier = t := by
  have hinitial : (StartState.initial : StartState d.threads.length).barrier = Barrier.State.initial := rfl
  rw [Barrier.Reachable, ← hinitial] at h
  exact Reach.exists_of_map step_barrier h

theorem waitsForAll_iff : WaitsForAll d ↔ d.allThreadNum.toNat = d.threads.length := by
  have hcard : Barrier.Right (Fin d.threads.length) d.allThreadNum.toBitVec ↔
      d.allThreadNum.toNat = d.threads.length := by
    rw [Barrier.right_iff, Fintype.card_fin, UInt32.toNat_toBitVec]
  rw [← hcard]
  constructor
  · rintro ⟨hbefore, hends⟩
    refine ⟨fun t ht hpassed => ?_, fun t ht hall => ?_⟩
    · obtain ⟨s, hs, rfl⟩ := exists_started ht
      exact hbefore s hs hpassed
    · obtain ⟨s, hs, rfl⟩ := exists_started ht
      exact (hends s hs hall).imp id (test_passes_iff s).mpr
  · rintro ⟨hbefore, hends⟩
    refine ⟨fun s hs => hbefore s.barrier (hs.map step_barrier), fun s hs hall => ?_⟩
    exact (hends s.barrier (hs.map step_barrier) hall).imp id (test_passes_iff s).mp

theorem exists_waiting (hless : d.threads.length < d.allThreadNum.toNat) :
    ∃ s, Started d s ∧ s.ready = Finset.univ ∧ s.main = .waiting ∧
      ∀ s', Reach (startStep d) (fun _ _ _ => True) s s' → s'.main ≠ .passed := by
  have hcard : Fintype.card (Fin d.threads.length) < d.allThreadNum.toBitVec.toNat := by
    rw [Fintype.card_fin, UInt32.toNat_toBitVec]
    exact hless
  obtain ⟨t, ht, hall, hwaiting, hnever⟩ := Barrier.exists_stuck hcard
  obtain ⟨s, hs, rfl⟩ := exists_started ht
  exact ⟨s, hs, hall, hwaiting, fun s' hs' => hnever s'.barrier (hs'.map step_barrier)⟩

end Wait

/-- The number that is expected is the number of the threads, and the wait ends when all of them have counted themselves
and not before, exactly if the rounds that failed and the negative numbers cancel out, up to multiples of the word, and
the threads can be counted at all. -/
theorem startup_barrier_iff {env : Resources} {mqp : List ModConfig} {queueSize : Int} {stages : StageTrees}
    {d : PipelineData} (h : pipelineInit env mqp queueSize stages = (.waiting, d)) :
    (d.allThreadNum.toNat = d.threads.length ∧ WaitsForAll d) ↔
      createdTotal env 0 mqp < 4294967296 ∧ (4294967296 : Int) ∣ configuredTotal mqp - createdTotal env 0 mqp := by
  obtain ⟨hall, hcreated⟩ := pipelineInit_threads h
  have hlt := d.allThreadNum.toNat_lt
  rw [waitsForAll_iff, and_self, hcreated, Int.dvd_iff_emod_eq_zero]
  omega

theorem createdTotal_le {mqp : List ModConfig} (hnonneg : ∀ mcp ∈ mqp, 0 ≤ mcp.threadNum.toInt) (env : Resources)
    (a : Nat) :
    createdTotal env a mqp ≤ configuredTotal mqp ∧
      ((createdTotal env a mqp : Int) = configuredTotal mqp ↔
        ∀ i mcp, mqp[i]? = some mcp → ∀ j < mcp.threadNum.toInt.toNat, env.thread (a + i) j = .created) := by
  induction mqp generalizing a with
  | nil => exact ⟨Int.le_refl _, iff_of_true rfl fun i mcp h => absurd h (Option.some_ne_none _).symm⟩
  | cons mcp mqp ih =>
    obtain ⟨hle, heq⟩ := ih (fun mcp' h => hnonneg mcp' (List.mem_cons_of_mem _ h)) (a + 1)
    have hpos := hnonneg mcp List.mem_cons_self
    have hthreads := createdThreads_le (env.thread a) mcp.threadNum
    have hsum : configuredTotal (mcp :: mqp) = mcp.threadNum.toInt + configuredTotal mqp := rfl
    have hcreated : createdTotal env a (mcp :: mqp) =
        createdThreads (env.thread a) mcp.threadNum + createdTotal env (a + 1) mqp := rfl
    refine ⟨by omega, ?_⟩
    have hboth : (createdTotal env a (mcp :: mqp) : Int) = configuredTotal (mcp :: mqp) ↔
        createdThreads (env.thread a) mcp.threadNum = mcp.threadNum.toInt.toNat ∧
          (createdTotal env (a + 1) mqp : Int) = configuredTotal mqp := by omega
    rw [hboth, createdThreads_eq_iff, heq]
    constructor
    · rintro ⟨hfirst, hrest⟩ i mcp' hi
      cases i with
      | zero =>
        obtain rfl := Option.some.inj hi
        exact hfirst
      | succ i =>
        have hthread := hrest i mcp' hi
        rw [Nat.add_right_comm, Nat.add_assoc] at hthread
        exact hthread
    · intro h
      refine ⟨h 0 mcp rfl, fun i mcp' hi => ?_⟩
      rw [Nat.add_right_comm, Nat.add_assoc]
      exact h (i + 1) mcp' hi

theorem startup_barrier_of_nonneg {env : Resources} {mqp : List ModConfig} {queueSize : Int} {stages : StageTrees}
    {d : PipelineData} (h : pipelineInit env mqp queueSize stages = (.waiting, d))
    (hnonneg : ∀ mcp ∈ mqp, 0 ≤ mcp.threadNum.toInt) (hsmall : configuredTotal mqp < 4294967296) :
    WaitsForAll d ↔
      ∀ i mcp, mqp[i]? = some mcp → ∀ j < mcp.threadNum.toInt.toNat, env.thread i j = .created := by
  obtain ⟨hall, hcreated⟩ := pipelineInit_threads h
  obtain ⟨hle, heq⟩ := createdTotal_le hnonneg env 0
  simp only [Nat.zero_add] at heq
  rw [waitsForAll_iff, ← heq, hcreated]
  omega

def twoThreads : List ModConfig := [⟨0, 0, 1, 2, ['a']⟩]

theorem startup_barrier_run :
    ∃ d, pipelineInit plentiful twoThreads 0 .initial = (.waiting, d) ∧ d.allThreadNum = 2 ∧ WaitsForAll d := by
  have hwaiting : pipelineInit plentiful twoThreads 0 .initial =
      (.waiting, (pipelineInit plentiful twoThreads 0 .initial).2) := rfl
  exact ⟨_, hwaiting, by decide +kernel, ((startup_barrier_iff hwaiting).mpr ⟨by decide +kernel, by decide +kernel⟩).2⟩

def oneThreadFails : Resources := { plentiful with thread := fun _ i => if i = 1 then .notCreated else .created }

/-- Two threads are expected and one is created. It counts itself, and the wait never ends. -/
theorem startup_waits_forever :
    ∃ d, pipelineInit oneThreadFails twoThreads 0 .initial = (.waiting, d) ∧ d.allThreadNum = 2 ∧ d.threads.length = 1 ∧
      ∃ s, Started d s ∧ s.ready = Finset.univ ∧ s.main = .waiting ∧
        ∀ s', Reach (startStep d) (fun _ _ _ => True) s s' → s'.main ≠ .passed :=
  ⟨(pipelineInit oneThreadFails twoThreads 0 .initial).2, rfl, by decide +kernel, by decide +kernel,
    exists_waiting (by decide +kernel)⟩

end Csf
