import Csf.Pipeline.Queues
import Csf.System.Machine

/-!
# What a step leaves alone

The frame of the machine's steps: the components that a worker, `send_to_pipeline` or a connection handler
cannot change, and the one way in which a thread changes the program counter of a worker that is not its
own, which is to wake it.
-/

namespace Csf

open Lib

variable {Stage Worker : Type}

/-! ### Workers -/

def offWorkers (s : State Stage Worker) : State Stage Worker :=
  { s with
    heap := fun _ => default
    rqcb := fun _ => ⟨[], 0⟩
    mutex := fun _ => none
    doneRqcb := ⟨[], 0⟩
    doneMutex := none
    conns := fun _ => ⟨.tcp, false, false, 0, 0, 0, false⟩
    doneSignalled := false
    donePipe := 0
    nextRqcbp := fun _ => none
    wk := fun _ => .top
    pipelineWorkingThreads := 0
    status := .running
    trace := [] }

variable [DecidableEq Stage] [DecidableEq Worker]

theorem offWorkers_workerEffect (cfg : Config Stage Worker) (s : State Stage Worker) (w : Worker)
    (a : WorkerAct Stage Worker) : offWorkers (workerEffect cfg s w a) = offWorkers s := by
  cases a with
  | handle r cl calls ret errno =>
    simp only [workerEffect, touchCsp]
    split <;> rfl
  | doneWrite r rest => exact writeByte_keeps cfg cfg.doneFd _ offWorkers fun _ _ => rfl
  | _ => rfl

theorem workerEffect_keeps {β : Type} (cfg : Config Stage Worker) (s : State Stage Worker) (w : Worker)
    (a : WorkerAct Stage Worker) (f : State Stage Worker → β) (hf : ∀ t, f t = f (offWorkers t)) :
    f (workerEffect cfg s w a) = f s := by
  rw [hf (workerEffect cfg s w a), hf s, offWorkers_workerEffect]

theorem trace_workerEffect (cfg : Config Stage Worker) (s : State Stage Worker) (w : Worker)
    (a : WorkerAct Stage Worker) :
    (workerEffect cfg s w a).trace = s.trace ∨
      ∃ r, (workerEffect cfg s w a).trace = .handed r :: s.trace := by
  cases a with
  | handle r cl calls ret errno =>
    exact .inr ⟨r, keeps_of_offConns (offConns_touchCsp r _) State.trace fun _ => rfl⟩
  | doneWrite r rest => exact .inl (writeByte_keeps cfg cfg.doneFd _ State.trace fun _ _ => rfl)
  | _ => exact .inl rfl

theorem workerEffect_handle (cfg : Config Stage Worker) (s : State Stage Worker) (w : Worker) (r : Nat) (cl : Int)
    (calls : List (List Char)) (ret errno : Int) :
    (workerEffect cfg s w (.handle r cl calls ret errno)).wk w = .routing r ((Job.handled calls ret errno
      (s.heap r).nstage).route cfg (cfg.rqcb w) (s.nextRqcbp w)).1 ∧
    (workerEffect cfg s w (.handle r cl calls ret errno)).nextRqcbp w = ((Job.handled calls ret errno
      (s.heap r).nstage).route cfg (cfg.rqcb w) (s.nextRqcbp w)).2 := by
  have hoff := offConns_touchCsp r (handled cfg w r calls ret errno s)
  constructor
  · exact (congrFun (keeps_of_offConns hoff State.wk fun _ => rfl) w).trans (Function.update_self _ _ _)
  · exact (congrFun (keeps_of_offConns hoff State.nextRqcbp fun _ => rfl) w).trans (Function.update_self _ _ _)

/-! ### Waking -/

omit [DecidableEq Stage] [DecidableEq Worker] in
theorem eq_of_wake {β : Type*} (f : WorkerPc Stage → β) (hf : f .woken = f .waiting) {pc pc' : WorkerPc Stage}
    (h : pc' = pc ∨ pc' = .woken ∧ pc = .waiting) : f pc' = f pc := by
  rcases h with rfl | ⟨rfl, rfl⟩
  · rfl
  · exact hf

omit [DecidableEq Stage] in
theorem wake_cases {ws : List Worker} {wk : Worker → WorkerPc Stage} (h : ∀ w ∈ ws, wk w = .waiting) (w : Worker) :
    wake ws wk w = wk w ∨ wake ws wk w = .woken ∧ wk w = .waiting := by
  by_cases hw : w ∈ ws
  · exact .inr ⟨if_pos hw, h w hw⟩
  · exact .inl (if_neg hw)

omit [DecidableEq Worker] in
theorem broadcastWake_cases (cfg : Config Stage Worker) (st : Stage) (wk : Worker → WorkerPc Stage) (w : Worker) :
    broadcastWake cfg st wk w = wk w ∨ broadcastWake cfg st wk w = .woken ∧ wk w = .waiting := by
  by_cases hw : cfg.rqcb w = st ∧ wk w = .waiting
  · exact .inr ⟨if_pos hw, hw.2⟩
  · exact .inl (if_neg hw)

omit [DecidableEq Stage] [DecidableEq Worker] in
theorem waiting_of_mem_kickWakes {cfg : Config Stage Worker} {s : State Stage Worker} {ok : Pipeline → Bool}
    {ws : Pipeline → List Worker} (h : KickOk cfg s ok ws) {w : Worker} (hw : w ∈ kickWakes cfg s ok ws) :
    s.wk w = .waiting := by
  simp only [kickWakes, List.mem_flatMap, List.mem_filter, Bool.and_eq_true, bne_iff_ne, ne_eq,
    Option.isSome_iff_exists] at hw
  obtain ⟨p, ⟨hp, ⟨hok, htmp⟩, st, hst⟩, hmem⟩ := hw
  exact ((h p hp hok htmp st hst).2.1 w hmem).1

/-! ### The main thread, apart from the connections -/

/-- `submit_request` between its checks and `send_to_pipeline`, apart from `CS_HOLD`. -/
def preparedPlain (args : SubmitArgs) (p : Pipeline) (st : Stage) (s : State Stage Worker) : State Stage Worker :=
  { allocRequest args s with
    sub := .checked s.nreq p st args.flags (decide ((s.pcb p).tmpRequestHead ≠ []))
    trace := .submitted s.nreq p :: s.trace }

/-- The disposal of a request, apart from its connection. -/
def disposedPlain (r : Nat) (next : Option Nat) (rc : BitVec 32) (s : State Stage Worker) : State Stage Worker :=
  { s with
    heap := (dropCleaner r rc s).heap
    finalRequestHead := s.finalRequestHead.erase r
    trace := .freed r :: ((if cleans rc && (s.heap r).dataCleaner then [.cleaned r] else []) ++ s.trace)
    blocks := s.blocks.erase r
    main := .testExit next rc }

/-- What a step of the main thread does, apart from the connections. -/
def mainPlain (cfg : Config Stage Worker) (s : State Stage Worker) : MainAct Stage Worker → State Stage Worker
  | .accept => { s with nconn := s.nconn + 1 }
  | .writable _ | .idleTimeout _ | .sendBack _ | .refuse _ _ => s
  | .readable c => { s with main := .session c }
  | .hangup _ _ | .readBlocked _ | .datagramEnd _ => { s with main := .loop }
  | .datagram => { s with nconn := s.nconn + 1, main := .datagram s.nconn }
  | .submit args p st => preparedPlain args p st s
  | .noticeWrite r p => { s with sub := .sent r p }
  | .respond r next _ => { s with main := .calling r next, trace := .responded r :: s.trace }
  | .dispose r next rc => disposedPlain r next rc s
  | a => mainEffect cfg s a

omit [DecidableEq Stage] [DecidableEq Worker] in
theorem writeByte_info (cfg : Config Stage Worker) (s : State Stage Worker) : writeByte cfg infoDoneFd s = s :=
  if_neg (Nat.ne_of_lt cfg.doneFd_pos)

omit [DecidableEq Stage] [DecidableEq Worker] in
theorem offConns_submitPrepare (args : SubmitArgs) (p : Pipeline) (st : Stage) (s : State Stage Worker) :
    offConns (submitPrepare args p st s) = offConns (preparedPlain args p st s) := by
  unfold submitPrepare preparedPlain
  cases args.p <;> simp

omit [DecidableEq Stage] [DecidableEq Worker] in
theorem offConns_disposeRequest (r : Nat) (next : Option Nat) (rc : BitVec 32) (s : State Stage Worker) :
    offConns { disposeRequest r rc s with main := .testExit next rc } = offConns (disposedPlain r next rc s) := by
  have hoff : ∀ t t' : State Stage Worker, offConns t' = offConns t →
      offConns { cleanupRequest r (dropCleaner r rc t') with main := .testExit next rc } =
        offConns { cleanupRequest r (dropCleaner r rc t) with main := .testExit next rc } := by
    intro t t' h
    have hsame : ∀ u : State Stage Worker,
        offConns { cleanupRequest r (dropCleaner r rc u) with main := .testExit next rc } =
          offConns { cleanupRequest r (dropCleaner r rc (offConns u)) with main := .testExit next rc } := by
      intro u
      unfold dropCleaner
      split <;> rfl
    rw [hsame t', hsame t, h]
  rw [disposeRequest, hoff s _ (offConns_disconnectConn r rc s)]
  unfold disposedPlain dropCleaner
  by_cases hc : cleans rc <;> simp [hc, cleanupRequest, offConns]

theorem offConns_mainEffect (cfg : Config Stage Worker) (s : State Stage Worker) (a : MainAct Stage Worker) :
    offConns (mainEffect cfg s a) = offConns (mainPlain cfg s a) := by
  cases a with
  | submit args p st => exact offConns_submitPrepare args p st s
  | hangup c why =>
    have h : offConns (connStateCleanup c (modifyConn c ConnState.connClose s)) = offConns s := by simp
    have hmain : ∀ t : State Stage Worker, offConns { t with main := .loop } = { offConns t with main := .loop } :=
      fun _ => rfl
    rw [mainEffect, mainPlain, hmain, h, hmain]
  | idleTimeout c => simp [mainEffect, mainPlain]
  | respond r next rc =>
    have hmain : ∀ t : State Stage Worker, offConns { t with main := .calling r next, trace := .responded r :: s.trace } =
      { offConns t with main := .calling r next, trace := .responded r :: s.trace } := fun _ => rfl
    rw [mainEffect, mainPlain, hmain, offConns_touchCsp, hmain]
  | noticeWrite r p => rw [mainEffect, writeByte_info, mainPlain]
  | dispose r next rc => exact offConns_disposeRequest r next rc s
  | _ => rfl

theorem mainEffect_plain {β : Type} (cfg : Config Stage Worker) (s : State Stage Worker)
    (a : MainAct Stage Worker) (f : State Stage Worker → β) (hf : ∀ t, f t = f (offConns t)) :
    f (mainEffect cfg s a) = f (mainPlain cfg s a) :=
  keeps_of_offConns (offConns_mainEffect cfg s a) f hf

/-- A step evicts requests. -/
def evicting (cfg : Config Stage Worker) (s : State Stage Worker) : Action Stage Worker → Bool
  | .main (.send _ p st flags concat) => evicts cfg p st flags concat s
  | _ => false

variable [Fintype Stage] [Fintype Worker]

theorem sendLocked_cases (cfg : Config Stage Worker) (q : Nat) (p : Pipeline) (st : Stage) (flags : UInt32)
    (concat : Bool) (s : State Stage Worker) :
    (∃ s₁, QueueMove s s₁ [] [] ∧ refuses cfg p st flags concat s = true ∧
      sendLocked cfg q p st flags concat s = { s₁ with sub := .none }) ∨
    (∃ s₁, QueueMove s s₁ [] [] ∧ sendLocked cfg q p st flags concat s = { s₁ with status := .crashed }) ∨
    ∃ s₁ ev, QueueMove s s₁ ev [q] ∧ (evicts cfg p st flags concat s = true ↔ ev ≠ []) ∧
      sendLocked cfg q p st flags concat s =
        setMutex st (some .main) { s₁ with sub := .inserted q p st (evicts cfg p st flags concat s) } := by
  have hsend := QueueMove.sendToPipeline cfg p st q flags concat s
  have hfull : (sendToPipeline cfg p st q flags concat s).2 = .full → refuses cfg p st flags concat s = true :=
    refuses_of_full
  have hnotice : ∀ n, (sendToPipeline cfg p st q flags concat s).2 = .linked n → n = evicts cfg p st flags concat s :=
    fun n => evicts_of_linked
  unfold sendLocked
  generalize sendToPipeline cfg p st q flags concat s = out at hsend hfull hnotice ⊢
  obtain ⟨s₁, res⟩ := out
  rcases hsend with ⟨hmove, hres | hres⟩ | ⟨ev, notice, hres, hmove, hn⟩ <;> obtain rfl : res = _ := hres
  · exact .inl ⟨s₁, hmove, hfull rfl, rfl⟩
  · exact .inr (.inl ⟨s₁, hmove, rfl⟩)
  · obtain rfl := hnotice notice rfl
    exact .inr (.inr ⟨s₁, ev, hmove, hn, rfl⟩)

/-- Whatever becomes of the call, the locked branch moves requests between the queues, and otherwise sets only the
program counter of the call, the mutex and the status of the process. -/
theorem sendLocked_move (cfg : Config Stage Worker) (q : Nat) (p : Pipeline) (st : Stage) (flags : UInt32)
    (concat : Bool) (s : State Stage Worker) :
    ∃ s₁ ev new, QueueMove s s₁ ev new ∧ (ev ≠ [] → evicts cfg p st flags concat s = true) ∧
      ∃ sub mutex status,
        sendLocked cfg q p st flags concat s = { s₁ with sub := sub, mutex := mutex, status := status } := by
  rcases sendLocked_cases cfg q p st flags concat s with
    ⟨s₁, hmove, -, heq⟩ | ⟨s₁, hmove, heq⟩ | ⟨s₁, ev, hmove, hiff, heq⟩
  · exact ⟨s₁, [], [], hmove, absurd rfl, _, _, _, heq⟩
  · exact ⟨s₁, [], [], hmove, absurd rfl, _, _, _, heq⟩
  · exact ⟨s₁, ev, [q], hmove, hiff.mpr, _, _, _, heq⟩

/-- The state apart from the queues and what goes with the insertion of a request. -/
def offSend (s : State Stage Worker) : State Stage Worker :=
  { offQueues s with sub := .none, mutex := fun _ => none, status := .running }

theorem sendLocked_keeps {β : Type} (cfg : Config Stage Worker) (q : Nat) (p : Pipeline) (st : Stage)
    (flags : UInt32) (concat : Bool) (s : State Stage Worker) (f : State Stage Worker → β)
    (hf : ∀ t, f t = f (offSend t)) : f (sendLocked cfg q p st flags concat s) = f s := by
  have hoff : offSend (sendLocked cfg q p st flags concat s) = offSend s := by
    obtain ⟨s₁, ev, new, hmove, -, sub, mutex, status, heq⟩ := sendLocked_move cfg q p st flags concat s
    rw [heq]
    exact hmove.keeps offSend fun _ => rfl
  rw [hf (sendLocked cfg q p st flags concat s), hf s, hoff]

def offMain (s : State Stage Worker) : State Stage Worker :=
  { (State.init : State Stage Worker) with
    doneMutex := s.doneMutex
    gracefulRestart := s.gracefulRestart
    clockOff := s.clockOff
    nextRqcbp := s.nextRqcbp
    sig := s.sig
    pipelineWorkingThreads := s.pipelineWorkingThreads }

theorem mainEffect_keeps {β : Type} (cfg : Config Stage Worker) (s : State Stage Worker) (a : MainAct Stage Worker)
    (f : State Stage Worker → β) (hf : ∀ t, f t = f (offMain t)) : f (mainEffect cfg s a) = f s := by
  have hoff : offMain (mainEffect cfg s a) = offMain s := by
    rw [mainEffect_plain cfg s a offMain fun _ => rfl]
    cases a with
    | send q p st flags concat => exact sendLocked_keeps cfg q p st flags concat s offMain fun _ => rfl
    | kick ev ok ws => exact (QueueMove.kickRequestQueue cfg ok s).keeps offMain fun _ => rfl
    | _ => rfl
  rw [hf (mainEffect cfg s a), hf s, hoff]

theorem signalEffect_move (cfg : Config Stage Worker) (s : State Stage Worker) (a : SignalAct Stage Worker) :
    ∃ s₁ wk sig g, QueueMove s s₁ [] [] ∧
      signalEffect cfg s a = { s₁ with wk := wk, sig := sig, gracefulRestart := g } := by
  cases a with
  | kick ok ws => exact ⟨_, _, _, _, QueueMove.kickRequestQueue cfg ok s, rfl⟩
  | _ => exact ⟨s, _, _, _, QueueMove.refl s, rfl⟩

/-- The state apart from what the signal thread changes. -/
def offSignals (s : State Stage Worker) : State Stage Worker :=
  { offQueues s with wk := fun _ => .top, sig := .idle, gracefulRestart := false }

theorem signalEffect_keeps {β : Type} (cfg : Config Stage Worker) (s : State Stage Worker)
    (a : SignalAct Stage Worker) (f : State Stage Worker → β) (hf : ∀ t, f t = f (offSignals t)) :
    f (signalEffect cfg s a) = f s := by
  obtain ⟨s₁, wk, sig, g, hmove, heq⟩ := signalEffect_move cfg s a
  have hoff : offSignals (signalEffect cfg s a) = offSignals s := by
    rw [heq]
    exact hmove.keeps offSignals fun _ => rfl
  rw [hf (signalEffect cfg s a), hf s, hoff]

/-! ### The history -/

/-- The events that a step of the main thread records, apart from insertions and evictions under the lock. -/
def records (s : State Stage Worker) : MainAct Stage Worker → List Event
  | .submit _ p _ => [.submitted s.nreq p]
  | .buffer r _ _ _ _ => [.inserted r]
  | .count r _ _ _ _ | .countBuffered r _ => [.counted r]
  | .returnTid r _ => [.accepted r]
  | .takeNull r _ => [.passed r, .taken r]
  | .takeReq r _ => [.taken r]
  | .respond r _ _ => [.responded r]
  | .dispose r _ rc => .freed r :: if cleans rc && (s.heap r).dataCleaner then [.cleaned r] else []
  | _ => []

theorem count_mainEffect (cfg : Config Stage Worker) (s : State Stage Worker) (a : MainAct Stage Worker) {e : Event}
    (hev : ∀ x, e ≠ .evicted x) (hin : ∀ x, e ≠ .inserted x) :
    (mainEffect cfg s a).trace.count e = (records s a).count e + s.trace.count e := by
  rw [mainEffect_plain cfg s a State.trace fun _ => rfl]
  cases a with
  | send q p st flags concat =>
    refine Eq.trans ?_ (Nat.zero_add _).symm
    obtain ⟨s₁, ev, new, hmove, -, sub, mutex, status, heq⟩ := sendLocked_move cfg q p st flags concat s
    simp only [mainPlain, mainEffect, heq]
    exact hmove.trace_other hev hin
  | kick ev ok ws =>
    refine Eq.trans ?_ (Nat.zero_add _).symm
    exact (QueueMove.kickRequestQueue cfg ok s).trace_other hev hin
  | submit | buffer | count | countBuffered | returnTid | takeNull | takeReq | respond | dispose =>
    rw [← List.count_append]
    rfl
  | _ => exact (Nat.zero_add _).symm

theorem mem_mainEffect (cfg : Config Stage Worker) (s : State Stage Worker) (a : MainAct Stage Worker) {e : Event}
    (hev : ∀ x, e ≠ .evicted x) (hin : ∀ x, e ≠ .inserted x) :
    e ∈ (mainEffect cfg s a).trace ↔ e ∈ records s a ∨ e ∈ s.trace := by
  rw [← List.count_pos_iff, count_mainEffect cfg s a hev hin, Nat.add_pos_iff_pos_or_pos, List.count_pos_iff,
    List.count_pos_iff]

/-! ### Program counters -/

theorem wk_mainEffect {cfg : Config Stage Worker} {s : State Stage Worker} {a : MainAct Stage Worker}
    (hg : mainGuard cfg s a) (w : Worker) :
    (mainEffect cfg s a).wk w = s.wk w ∨ (mainEffect cfg s a).wk w = .woken ∧ s.wk w = .waiting := by
  rw [mainEffect_plain cfg s a State.wk fun _ => rfl]
  cases a with
  | send q p st flags concat =>
    exact .inl (congrFun (sendLocked_keeps cfg q p st flags concat s State.wk fun _ => rfl) w)
  | count q p st notice ws => exact wake_cases (fun v hv => (hg.2.1 v hv).1) w
  | kick ev ok ws => exact wake_cases (fun v => waiting_of_mem_kickWakes hg.2) w
  | broadcast st todo next rc => exact broadcastWake_cases cfg st s.wk w
  | _ => exact .inl rfl

omit [Fintype Stage] [Fintype Worker] in
theorem wk_signalEffect {cfg : Config Stage Worker} {s : State Stage Worker} {a : SignalAct Stage Worker}
    (hg : signalGuard cfg s a) (w : Worker) :
    (signalEffect cfg s a).wk w = s.wk w ∨ (signalEffect cfg s a).wk w = .woken ∧ s.wk w = .waiting := by
  cases a with
  | kick ok ws => exact wake_cases (fun v => waiting_of_mem_kickWakes hg.2) w
  | broadcast st todo => exact broadcastWake_cases cfg st s.wk w
  | _ => exact .inl rfl

omit [Fintype Stage] [Fintype Worker] in
theorem wk_workerEffect {cfg : Config Stage Worker} {s : State Stage Worker} {w : Worker}
    {a : WorkerAct Stage Worker} (hg : workerGuard cfg s w a) {v : Worker} (hv : v ≠ w) :
    (workerEffect cfg s w a).wk v = s.wk v ∨ (workerEffect cfg s w a).wk v = .woken ∧ s.wk v = .waiting := by
  cases a with
  | forward r st rest ws =>
    simp only [workerEffect, setWk, Function.update_of_ne hv]
    exact wake_cases (fun u hu => (hg.2.2.1 u hu).1) v
  | handle r cl calls ret errno =>
    refine .inl ?_
    have h := keeps_of_offConns (offConns_touchCsp r (handled cfg w r calls ret errno s)) State.wk fun _ => rfl
    exact (congrFun h v).trans (Function.update_of_ne hv _ _)
  | doneWrite r rest =>
    have h := writeByte_keeps cfg cfg.doneFd (setWk w (resume r rest) s) State.wk fun _ _ => rfl
    exact .inl ((congrFun h v).trans (Function.update_of_ne hv _ _))
  | _ => exact .inl (Function.update_of_ne hv _ _)

/-! ### Blocks -/

theorem heap_mainEffect (cfg : Config Stage Worker) (s : State Stage Worker) (a : MainAct Stage Worker) (r : Nat) :
    (∃ f d, (mainEffect cfg s a).heap r = { s.heap r with flags := f, dataCleaner := d }) ∨
      r = s.nreq ∧ ∃ args p st, a = .submit args p st ∧ (mainEffect cfg s a).heap r = newRequest args s := by
  rw [mainEffect_plain cfg s a State.heap fun _ => rfl]
  cases a with
  | submit args p st =>
    by_cases hr : r = s.nreq
    · exact .inr ⟨hr, args, p, st, rfl, by simp [mainPlain, preparedPlain, allocRequest, hr]⟩
    · exact .inl ⟨_, _, Function.update_of_ne hr _ _⟩
  | send q p st flags concat =>
    obtain ⟨s₁, ev, new, hmove, -, sub, mutex, status, heq⟩ := sendLocked_move cfg q p st flags concat s
    obtain ⟨f, hf⟩ := hmove.heap r
    exact .inl ⟨f, (s.heap r).dataCleaner, by simp only [mainPlain, mainEffect, heq, hf]⟩
  | kick ev ok ws =>
    obtain ⟨f, hf⟩ := (QueueMove.kickRequestQueue cfg ok s).heap r
    exact .inl ⟨f, _, hf⟩
  | dispose q next rc =>
    refine .inl ?_
    simp only [mainPlain, disposedPlain, dropCleaner]
    split
    · exact ⟨_, _, rfl⟩
    · by_cases hq : r = q
      · subst hq
        exact ⟨(s.heap r).flags, false, by simp⟩
      · exact ⟨_, _, Function.update_of_ne hq _ _⟩
  | _ => exact .inl ⟨_, _, rfl⟩

theorem heap_signalEffect (cfg : Config Stage Worker) (s : State Stage Worker) (a : SignalAct Stage Worker)
    (r : Nat) : ∃ f, (signalEffect cfg s a).heap r = { s.heap r with flags := f } := by
  obtain ⟨s₁, wk, sig, g, hmove, heq⟩ := signalEffect_move cfg s a
  rw [heq]
  exact hmove.heap r

omit [Fintype Stage] [Fintype Worker] in
theorem heap_workerEffect (cfg : Config Stage Worker) (s : State Stage Worker) (w : Worker)
    (a : WorkerAct Stage Worker) (r : Nat) :
    ∃ n f x e, (workerEffect cfg s w a).heap r =
      { s.heap r with nstage := (s.heap r).nstage + n, flags := f, ret := x, err := e } ∧
      (n = 0 ∨ n = 1 ∧ ∃ st rest ws, a = .forward r st rest ws) := by
  have hset : ∀ (q : Nat) (req : Request), (∃ n f x e, req =
      { s.heap q with nstage := (s.heap q).nstage + n, flags := f, ret := x, err := e } ∧
      (n = 0 ∨ n = 1 ∧ ∃ st rest ws, a = .forward q st rest ws)) →
      ∃ n f x e, Function.update s.heap q req r =
        { s.heap r with nstage := (s.heap r).nstage + n, flags := f, ret := x, err := e } ∧
        (n = 0 ∨ n = 1 ∧ ∃ st rest ws, a = .forward r st rest ws) := by
    intro q req h
    by_cases hq : r = q
    · subst hq
      simpa using h
    · exact ⟨0, _, _, _, Function.update_of_ne hq _ _, .inl rfl⟩
  cases a with
  | timedOut q cl => exact hset q _ ⟨0, _, _, _, rfl, .inl rfl⟩
  | cancelled q cl => exact hset q _ ⟨0, _, _, _, rfl, .inl rfl⟩
  | handle q cl calls ret errno =>
    have h := keeps_of_offConns (offConns_touchCsp q (handled cfg w q calls ret errno s)) State.heap fun _ => rfl
    simp only [workerEffect, h]
    exact hset q _ ⟨0, _, _, _, rfl, .inl rfl⟩
  | forward q st rest ws => exact hset q _ ⟨1, _, _, _, rfl, .inr ⟨rfl, st, rest, ws, rfl⟩⟩
  | doneWrite q rest =>
    exact ⟨0, _, _, _, congrFun (writeByte_keeps cfg cfg.doneFd _ State.heap fun _ _ => rfl) r, .inl rfl⟩
  | _ => exact ⟨0, _, _, _, rfl, .inl rfl⟩

theorem nreq_mainEffect (cfg : Config Stage Worker) (s : State Stage Worker) (a : MainAct Stage Worker) :
    (mainEffect cfg s a).nreq = s.nreq ∨
      ∃ args p st, a = .submit args p st ∧ (mainEffect cfg s a).nreq = s.nreq + 1 := by
  rw [mainEffect_plain cfg s a State.nreq fun _ => rfl]
  cases a with
  | submit args p st => exact .inr ⟨args, p, st, rfl, rfl⟩
  | send q p st flags concat =>
    exact .inl (sendLocked_keeps cfg q p st flags concat s State.nreq fun _ => rfl)
  | kick ev ok ws => exact .inl ((QueueMove.kickRequestQueue cfg ok s).keeps State.nreq fun _ => rfl)
  | _ => exact .inl rfl

theorem nreq_step_le {cfg : Config Stage Worker} {s s' : State Stage Worker} {a : Action Stage Worker}
    (hs : step cfg s a = some s') : s.nreq ≤ s'.nreq := by
  obtain ⟨-, -, rfl⟩ := step_eq_some hs
  cases a with
  | worker w a => exact (workerEffect_keeps cfg s w a State.nreq fun _ => rfl).ge
  | main a => rcases nreq_mainEffect cfg s a with h | ⟨-, -, -, -, h⟩ <;> rw [effect, h]; omega
  | signals a => exact (signalEffect_keeps cfg s a State.nreq fun _ => rfl).ge
  | tick | cancel => exact le_rfl

theorem block_step {cfg : Config Stage Worker} {s s' : State Stage Worker} {a : Action Stage Worker}
    (hs : step cfg s a = some s') {r : Nat} (hr : r ≠ s.nreq) :
    ∃ n f x e d c, s'.heap r =
      { s.heap r with nstage := n, flags := f, ret := x, err := e, dataCleaner := d, cancelled := c } ∧
      ((s.heap r).cancelled = true → c = true) := by
  obtain ⟨-, -, rfl⟩ := step_eq_some hs
  cases a with
  | worker w a =>
    obtain ⟨n, f, x, e, h, -⟩ := heap_workerEffect cfg s w a r
    exact ⟨_, f, x, e, _, _, h, id⟩
  | main a =>
    obtain ⟨f, d, h⟩ := (heap_mainEffect cfg s a r).resolve_right fun h => hr h.1
    exact ⟨_, f, _, _, d, _, h, id⟩
  | signals a =>
    obtain ⟨f, h⟩ := heap_signalEffect cfg s a r
    exact ⟨_, f, _, _, _, _, h, id⟩
  | tick => exact ⟨_, _, _, _, _, _, rfl, id⟩
  | cancel q =>
    by_cases hq : r = q
    · subst hq
      exact ⟨_, _, _, _, _, true, Function.update_self _ _ _, fun _ => rfl⟩
    · exact ⟨_, _, _, _, _, _, Function.update_of_ne hq _ _, id⟩

theorem heap_step {cfg : Config Stage Worker} {s s' : State Stage Worker} {a : Action Stage Worker}
    (hs : step cfg s a = some s') {r : Nat} (hr : r ≠ s.nreq) :
    (s'.heap r).csp = (s.heap r).csp ∧ (s'.heap r).requestResponder = (s.heap r).requestResponder ∧
      ((s.heap r).cancelled = true → (s'.heap r).cancelled = true) := by
  obtain ⟨n, f, x, e, d, c, h, hc⟩ := block_step hs hr
  rw [h]
  exact ⟨rfl, rfl, hc⟩

/-! ### The history along a step -/

theorem mem_step {cfg : Config Stage Worker} {s s' : State Stage Worker} {a : Action Stage Worker}
    (hs : step cfg s a = some s') {e : Event} (hev : ∀ x, e ≠ .evicted x) (hin : ∀ x, e ≠ .inserted x)
    (he : e ∈ s.trace) : e ∈ s'.trace := by
  obtain ⟨-, -, rfl⟩ := step_eq_some hs
  cases a with
  | worker w a => rcases trace_workerEffect cfg s w a with heq | ⟨q, heq⟩ <;> simp [effect, heq, he]
  | main a => exact (mem_mainEffect cfg s a hev hin).mpr (.inr he)
  | signals a =>
    obtain ⟨s₁, wk, sig, g, hmove, heq⟩ := signalEffect_move cfg s a
    rw [effect, heq, ← List.count_pos_iff]
    rw [← List.count_pos_iff] at he
    exact he.trans_eq (hmove.trace_other hev hin).symm
  | tick | cancel => exact he

theorem freed_step {cfg : Config Stage Worker} {s s' : State Stage Worker} {a : Action Stage Worker}
    (hs : step cfg s a = some s') {r : Nat} (hr : .freed r ∈ s'.trace) :
    .freed r ∈ s.trace ∨ ∃ next rc, a = .main (.dispose r next rc) := by
  obtain ⟨-, -, rfl⟩ := step_eq_some hs
  cases a with
  | worker w a =>
    refine .inl ?_
    rcases trace_workerEffect cfg s w a with heq | ⟨q, heq⟩ <;> simpa [effect, heq] using hr
  | main a =>
    rcases (mem_mainEffect cfg s a (by simp) (by simp)).mp hr with hnew | hold
    · cases a with
      | dispose q next rc =>
        have hq : r = q := by
          simp only [records] at hnew
          split_ifs at hnew <;> simpa using hnew
        exact .inr ⟨next, rc, by rw [hq]⟩
      | _ => simp [records] at hnew
    · exact .inl hold
  | signals a =>
    refine .inl ?_
    obtain ⟨s₁, wk, sig, g, hmove, heq⟩ := signalEffect_move cfg s a
    rw [effect, heq, ← List.count_pos_iff] at hr
    rw [← List.count_pos_iff]
    exact hr.trans_eq (hmove.trace_other (by simp) (by simp))
  | tick | cancel => exact .inl hr

end Csf
