import Csf.Pipeline.Connection
import Csf.System.Counter

/-!
# The lifetime of a connection

`ConnInv` says that every block is as `ConnOk` wants it for the requests that are outstanding on it, and
`connInv` carries it over every run.

A responder that asks for a disconnection makes `done_requests_handler` call `conn_state_cleanup`. Nothing
there asks whether the connection was closed before, so the reference of the connection is released twice.
-/

namespace Csf

open Lib

variable {Stage Worker : Type}

/-! ### All blocks -/

/-- The requests submitted on `c` that are not cleaned up. -/
def unfreed (s : State Stage Worker) (c : Nat) : Finset Nat :=
  (Finset.range s.nreq).filter fun r => (s.heap r).csp = some c ∧ .freed r ∉ s.trace

def openConns (s : State Stage Worker) : Finset Nat := (Finset.range s.nconn).filter fun c => (s.conns c).lost = 0

/-- The connection that the main thread serves is open, and a datagram is open while it is served. -/
structure Served (s : State Stage Worker) : Prop where
  session : ∀ c, s.main = .session c → c < s.nconn ∧ (s.conns c).lost = 0
  datagram : ∀ c, s.main = .datagram c → c < s.nconn ∧ (s.conns c).lost = 0 ∧ (s.conns c).type = .udp
  udp : ∀ c < s.nconn, (s.conns c).type = .udp → (s.conns c).lost = 0 → s.main = .datagram c

structure ConnInv (s : State Stage Worker) : Prop where
  conn : ∀ c < s.nconn, ConnOk (s.conns c) (unfreed s c).card
  vacant : ∀ c, s.nconn ≤ c → (s.conns c).armed = false
  origin : ∀ r < s.nreq, ∀ c, (s.heap r).csp = some c → c < s.nconn
  served : Served s
  counter : s.connectionCounter = (openConns s).card

theorem connInv_init [Fintype Worker] : ConnInv (State.init : State Stage Worker) where
  conn c hc := absurd hc (Nat.not_lt_zero _)
  vacant c _ := rfl
  origin r hr := absurd hr (Nat.not_lt_zero _)
  served := ⟨fun c h => (by cases h), fun c h => (by cases h), fun c hc => absurd hc (Nat.not_lt_zero _)⟩
  counter := rfl

theorem ConnInv.lost_of_armed {s : State Stage Worker} (h : ConnInv s) {c : Nat} (ha : (s.conns c).armed = true) :
    c < s.nconn ∧ (s.conns c).lost = 0 ∧ (s.conns c).type = .tcp := by
  have hc : c < s.nconn := by
    by_contra hc
    rw [h.vacant c (by omega)] at ha
    cases ha
  exact ⟨hc, (h.conn c hc).armed ha⟩

/-- The main thread serves neither a connection nor a datagram. -/
def offDuty : MainPc Stage → Prop
  | .session _ | .datagram _ => False
  | _ => True

theorem Served.of_offDuty {s s' : State Stage Worker} (h : Served s) (hm : ∀ c, s.main ≠ .datagram c)
    (hm' : offDuty s'.main)
    (hconns : ∀ c < s'.nconn, (s'.conns c).type = .udp → (s'.conns c).lost = 0 →
      c < s.nconn ∧ (s.conns c).type = .udp ∧ (s.conns c).lost = 0) : Served s' where
  session c hc := by rw [hc] at hm'; exact hm'.elim
  datagram c hc := by rw [hc] at hm'; exact hm'.elim
  udp c hc htype hlost := by
    obtain ⟨hc, htype, hlost⟩ := hconns c hc htype hlost
    exact absurd (h.udp c hc htype hlost) (hm c)

theorem Served.of_same {s s' : State Stage Worker} (h : Served s) (hmain : s'.main = s.main)
    (hnconn : s'.nconn = s.nconn) (htype : ∀ c, (s'.conns c).type = (s.conns c).type)
    (hlost : ∀ c, (s'.conns c).lost = (s.conns c).lost) : Served s' := by
  refine ⟨fun c hc => ?_, fun c hc => ?_, fun c hc => ?_⟩
  · rw [hnconn, hlost]
    exact h.session c (hmain ▸ hc)
  · rw [hnconn, hlost, htype]
    exact h.datagram c (hmain ▸ hc)
  · rw [htype, hlost, hmain]
    exact h.udp c (hnconn ▸ hc)

structure SameRequests (s s' : State Stage Worker) : Prop where
  nreq : s'.nreq = s.nreq
  csp : ∀ r < s.nreq, (s'.heap r).csp = (s.heap r).csp
  freed : ∀ r, .freed r ∈ s'.trace ↔ .freed r ∈ s.trace

theorem SameRequests.unfreed {s s' : State Stage Worker} (h : SameRequests s s') (c : Nat) :
    unfreed s' c = unfreed s c := by
  rw [Csf.unfreed, Csf.unfreed, h.nreq]
  apply Finset.filter_congr
  intro r hr
  rw [h.csp r (Finset.mem_range.mp hr), h.freed r]

theorem SameRequests.origin {s s' : State Stage Worker} (h : SameRequests s s') (hinv : ConnInv s) :
    ∀ r < s'.nreq, ∀ c, (s'.heap r).csp = some c → c < s.nconn := by
  intro r hr c hc
  rw [h.nreq] at hr
  rw [h.csp r hr] at hc
  exact hinv.origin r hr c hc

theorem ConnInv.of_same {s s' : State Stage Worker} (h : ConnInv s) (hreq : SameRequests s s')
    (hconns : s'.conns = s.conns) (hnconn : s'.nconn = s.nconn)
    (hcounter : s'.connectionCounter = s.connectionCounter) (hserved : Served s') : ConnInv s' where
  conn c hc := by
    rw [hconns, hreq.unfreed]
    exact h.conn c (hnconn ▸ hc)
  vacant c hc := by
    rw [hconns]
    exact h.vacant c (hnconn ▸ hc)
  origin := hnconn ▸ hreq.origin h
  served := hserved
  counter := by
    rw [hcounter, h.counter, openConns, openConns, hconns, hnconn]

theorem ConnInv.update {s s' : State Stage Worker} (h : ConnInv s) {c : Nat} (hc : c < s.nconn) {cs : ConnState}
    (hconns : s'.conns = Function.update s.conns c cs) (hnconn : s'.nconn = s.nconn)
    (hunfreed : ∀ d, d ≠ c → unfreed s' d = unfreed s d) (hok : ConnOk cs (unfreed s' c).card)
    (horigin : ∀ r < s'.nreq, ∀ d, (s'.heap r).csp = some d → d < s.nconn) (hserved : Served s')
    (hcounter : (s'.connectionCounter = s.connectionCounter ∧ cs.lost = (s.conns c).lost) ∨
      s'.connectionCounter = s.connectionCounter - 1 ∧ (s.conns c).lost = 0 ∧ cs.lost = 1) : ConnInv s' where
  conn d hd := by
    by_cases hdc : d = c
    · subst hdc
      rw [hconns, Function.update_self]
      exact hok
    · rw [hconns, Function.update_of_ne hdc, hunfreed d hdc]
      exact h.conn d (hnconn ▸ hd)
  vacant d hd := by
    have hdc : d ≠ c := by omega
    rw [hconns, Function.update_of_ne hdc]
    exact h.vacant d (hnconn ▸ hd)
  origin := hnconn ▸ horigin
  served := hserved
  counter := by
    rcases hcounter with ⟨hcounter, hlost⟩ | ⟨hcounter, hlost, hlost'⟩
    · rw [hcounter, h.counter, openConns, openConns, hconns, hnconn]
      congr 2
      apply Finset.filter_congr
      intro d _
      by_cases hdc : d = c
      · subst hdc
        rw [Function.update_self, hlost]
      · rw [Function.update_of_ne hdc]
    · have hopen : openConns s' = (openConns s).erase c := by
        ext d
        simp only [openConns, hconns, hnconn, Finset.mem_filter, Finset.mem_range, Finset.mem_erase]
        by_cases hdc : d = c
        · subst hdc
          simp [hlost']
        · simp [hdc]
      have hmem : c ∈ openConns s := Finset.mem_filter.mpr ⟨Finset.mem_range.mpr hc, hlost⟩
      have hpos := Finset.card_pos.mpr ⟨c, hmem⟩
      rw [hcounter, h.counter, hopen, Finset.card_erase_of_mem hmem]
      omega

/-! ### Requests and their connections -/

variable [DecidableEq Stage] [DecidableEq Worker] [Fintype Stage] [Fintype Worker]

/-- The steps other than those that allocate or free a request. -/
def keepsRequests : Action Stage Worker → Bool
  | .main (.submit ..) | .main (.dispose ..) => false
  | _ => true

theorem sameRequests_step {cfg : Config Stage Worker} {s s' : State Stage Worker} {a : Action Stage Worker}
    (hs : step cfg s a = some s') (ha : keepsRequests a = true) : SameRequests s s' := by
  refine ⟨?_, fun r hr => (heap_step hs (by omega)).1, fun r => ⟨fun hr => ?_, mem_step hs (by simp) (by simp)⟩⟩
  · obtain ⟨-, -, rfl⟩ := step_eq_some hs
    cases a with
    | worker w a => exact workerEffect_keeps cfg s w a State.nreq fun _ => rfl
    | main a =>
      rcases nreq_mainEffect cfg s a with heq | ⟨args, p, st, rfl, -⟩
      · exact heq
      · simp [keepsRequests] at ha
    | signals a => exact signalEffect_keeps cfg s a State.nreq fun _ => rfl
    | tick | cancel => rfl
  · refine (freed_step hs hr).resolve_right ?_
    rintro ⟨next, rc, rfl⟩
    simp [keepsRequests] at ha

omit [DecidableEq Stage] [DecidableEq Worker] in
theorem FlowInv.mem_unfreed {s : State Stage Worker} (h : FlowInv s) {pl : Place Stage Worker} {r c : Nat}
    (hr : r ∈ places s pl) (hc : (s.heap r).csp = some c) : r ∈ unfreed s c :=
  Finset.mem_filter.mpr ⟨Finset.mem_range.mpr (h.lt_of_mem hr), hc, h.not_freed_of_mem hr⟩

omit [DecidableEq Stage] [DecidableEq Worker] in
theorem touchCsp_eq {s : State Stage Worker} (hflow : FlowInv s) (h : ConnInv s) {pl : Place Stage Worker} {r : Nat}
    (hr : r ∈ places s pl) : touchCsp r s = s := by
  unfold touchCsp
  split
  · rename_i c hc
    have hmem := hflow.mem_unfreed hr hc
    have hok := h.conn c (h.origin r (hflow.lt_of_mem hr) c hc)
    rw [modifyConn, hok.touch_eq (.inr (Finset.card_ne_zero_of_mem hmem)), Function.update_eq_self]
  · rfl

omit [Fintype Stage] [Fintype Worker] in
theorem conns_workerEffect (cfg : Config Stage Worker) (s : State Stage Worker) (w : Worker)
    (a : WorkerAct Stage Worker) :
    (workerEffect cfg s w a).conns = s.conns ∨
      ∃ r cl calls ret errno, a = .handle r cl calls ret errno ∧
        (workerEffect cfg s w a).conns = (touchCsp r s).conns := by
  cases a with
  | handle r cl calls ret errno =>
    refine .inr ⟨r, cl, calls, ret, errno, rfl, ?_⟩
    have hcsp : ((handled cfg w r calls ret errno s).heap r).csp = (s.heap r).csp := by
      simp [handled, setReq, setWk]
    simp only [workerEffect, touchCsp, hcsp]
    cases (s.heap r).csp <;> rfl
  | doneWrite r rest => exact .inl (writeByte_keeps cfg cfg.doneFd _ State.conns fun _ _ => rfl)
  | _ => exact .inl rfl

theorem connInv_workerEffect {cfg : Config Stage Worker} {s : State Stage Worker} {w : Worker}
    {a : WorkerAct Stage Worker} (hflow : FlowInv s) (h : ConnInv s)
    (hs : step cfg s (.worker w a) = some (workerEffect cfg s w a)) : ConnInv (workerEffect cfg s w a) := by
  obtain ⟨-, hg, -⟩ := step_eq_some hs
  have hconns : (workerEffect cfg s w a).conns = s.conns := by
    rcases conns_workerEffect cfg s w a with heq | ⟨r, cl, calls, ret, errno, rfl, heq⟩
    · exact heq
    · have hheld : r ∈ places s (.hand w) := by
        rw [show places s (.hand w) = inHand (s.wk w) from rfl, hg.1]
        exact List.mem_singleton_self r
      rw [heq, touchCsp_eq hflow h hheld]
  have hmain := workerEffect_keeps cfg s w a State.main fun _ => rfl
  have hnconn := workerEffect_keeps cfg s w a State.nconn fun _ => rfl
  refine h.of_same (sameRequests_step hs rfl) hconns hnconn
    (workerEffect_keeps cfg s w a State.connectionCounter fun _ => rfl) ?_
  exact h.served.of_same hmain hnconn (fun c => by rw [hconns]) fun c => by rw [hconns]

/-! ### Submission and disposal -/

/-- A submission is made in a callback for its connection. -/
def ownSubmit (s : State Stage Worker) : Action Stage Worker → Bool
  | .main (.submit args _ _) => args.p.any (callbackOf s)
  | _ => true

/-- A responder asks for a disconnection only while the connection is open. -/
def ClosesOpen (s : State Stage Worker) : Action Stage Worker → Prop
  | .main (.dispose r _ rc) => disconnects rc = true → ∀ c ∈ (s.heap r).csp, (s.conns c).lost = 0
  | _ => True

omit [DecidableEq Stage] [DecidableEq Worker] in
theorem ConnInv.held_of_callback {s : State Stage Worker} (hflow : FlowInv s) (h : ConnInv s) {c : Nat}
    (hc : callbackOf s c = true) : c < s.nconn ∧ ((s.conns c).lost = 0 ∨ (unfreed s c).card ≠ 0) := by
  unfold callbackOf at hc
  split at hc
  · rename_i c' hm
    obtain rfl := beq_iff_eq.mp hc
    exact ⟨(h.served.session c' hm).1, .inl (h.served.session c' hm).2⟩
  · rename_i c' hm
    obtain rfl := beq_iff_eq.mp hc
    exact ⟨(h.served.datagram c' hm).1, .inl (h.served.datagram c' hm).2.1⟩
  · rename_i r next hm
    have hfinal := hflow.final_of_current hm rfl
    have hcsp := beq_iff_eq.mp hc
    exact ⟨h.origin r (hflow.lt_of_mem hfinal) c hcsp,
      .inr (Finset.card_ne_zero_of_mem (hflow.mem_unfreed hfinal hcsp))⟩
  · cases hc

omit [DecidableEq Stage] [DecidableEq Worker] [Fintype Stage] [Fintype Worker] in
theorem unfreed_card_le {cfg : Config Stage Worker} {s : State Stage Worker} (h : Stored cfg s) (c : Nat) :
    (unfreed s c).card ≤ s.blocks.length := by
  have hsub : unfreed s c ⊆ s.blocks.toFinset := by
    intro r hr
    obtain ⟨hr, -, hfreed⟩ := Finset.mem_filter.mp hr
    exact List.mem_toFinset.mpr (h.kept r (Finset.mem_range.mp hr) hfreed)
  exact (Finset.card_le_card hsub).trans (List.toFinset_card_le _)

omit [DecidableEq Stage] [DecidableEq Worker] [Fintype Stage] [Fintype Worker] in
theorem connInv_submit {cfg : Config Stage Worker} {s : State Stage Worker} {args : SubmitArgs} {p : Pipeline}
    {st : Stage} {c : Nat} (hstored : Stored cfg s) (h : ConnInv s) (hp : args.p = some c) (hc : c < s.nconn)
    (hheld : (s.conns c).lost = 0 ∨ (unfreed s c).card ≠ 0) (hroom : s.blocks.length < cfg.maxBlocks)
    (hnew : .freed s.nreq ∉ s.trace) : ConnInv (submitPrepare args p st s) := by
  have hle := unfreed_card_le hstored c
  have hfit := cfg.maxBlocks_lt
  have hs' : submitPrepare args p st s = modifyConn c ConnState.hold (preparedPlain args p st s) := by
    simp only [submitPrepare, preparedPlain, hp]
  have hcsp : ∀ r, ((submitPrepare args p st s).heap r).csp = if r = s.nreq then some c else (s.heap r).csp := by
    intro r
    rw [hs']
    by_cases hr : r = s.nreq
    · simp [modifyConn, preparedPlain, allocRequest, newRequest, hp, hr]
    · simp [modifyConn, preparedPlain, allocRequest, hr]
  have hmem : ∀ d r, r ∈ unfreed (submitPrepare args p st s) d ↔ r ∈ unfreed s d ∨ r = s.nreq ∧ d = c := by
    intro d r
    have hfreed : .freed r ∈ (submitPrepare args p st s).trace ↔ .freed r ∈ s.trace := by
      rw [hs']
      simp [modifyConn, preparedPlain]
    have hnreq : (submitPrepare args p st s).nreq = s.nreq + 1 := by rw [hs']; rfl
    simp only [unfreed, Finset.mem_filter, Finset.mem_range, hcsp r, hfreed, hnreq]
    by_cases hr : r = s.nreq
    · subst hr
      simp [hnew, eq_comm]
    · simp only [hr, if_false, false_and, or_false]
      apply and_congr_left
      intro _
      omega
  have hnot : s.nreq ∉ unfreed s c := by simp [unfreed]
  have hconns : (submitPrepare args p st s).conns = Function.update s.conns c (s.conns c).hold := by rw [hs']; rfl
  refine h.update hc hconns (by rw [hs']; rfl) (fun d hd => ?_) ?_ ?_ ?_ ?_
  · ext r
    rw [hmem d r]
    simp [hd]
  · have hinsert : unfreed (submitPrepare args p st s) c = insert s.nreq (unfreed s c) := by
      ext r
      rw [hmem c r, Finset.mem_insert]
      tauto
    rw [hinsert, Finset.card_insert_of_notMem hnot]
    exact (h.conn c hc).hold hheld (by omega)
  · intro r hr d hd
    rw [hcsp r] at hd
    split_ifs at hd with hnreq
    · exact Option.some.inj hd ▸ hc
    · refine h.origin r ?_ d hd
      have hlt : r < s.nreq + 1 := by rw [hs'] at hr; exact hr
      omega
  · rw [hs']
    refine h.served.of_same rfl rfl (fun d => ?_) (fun d => ?_) <;> by_cases hd : d = c
    · subst hd; simp [modifyConn, preparedPlain, allocRequest, ConnState.hold, ConnState.touch]
    · simp [modifyConn, preparedPlain, allocRequest, hd]
    · subst hd; simp [modifyConn, preparedPlain, allocRequest, ConnState.hold, ConnState.touch]
    · simp [modifyConn, preparedPlain, allocRequest, hd]
  · exact .inl ⟨by rw [hs']; rfl, rfl⟩

omit [DecidableEq Stage] [DecidableEq Worker] [Fintype Stage] [Fintype Worker] in
theorem conns_disposeRequest {r c : Nat} (rc : BitVec 32) {s : State Stage Worker} (hc : (s.heap r).csp = some c) :
    (disposeRequest r rc s).conns = Function.update s.conns c ((s.conns c).disposed rc) ∧
      (disposeRequest r rc s).connectionCounter =
        if disconnects rc then s.connectionCounter - 1 else s.connectionCounter := by
  have hdrop : ∀ t : State Stage Worker, (t.heap r).csp = some c →
      (cleanupRequest r (dropCleaner r rc t)).conns = Function.update t.conns c (t.conns c).rele ∧
        (cleanupRequest r (dropCleaner r rc t)).connectionCounter = t.connectionCounter := by
    intro t ht
    unfold dropCleaner
    split <;> simp [cleanupRequest, ht]
  obtain ⟨hconns, hcounter⟩ := hdrop (disconnectConn r rc s)
    ((congrArg Request.csp (congrFun (keeps_of_offConns (offConns_disconnectConn r rc s) State.heap fun _ => rfl) r)).trans hc)
  rw [disposeRequest, hconns, hcounter]
  unfold disconnectConn ConnState.disposed
  simp only [hc]
  split_ifs <;> simp [connStateCleanup, modifyConn]

omit [DecidableEq Stage] [DecidableEq Worker] [Fintype Stage] [Fintype Worker] in
theorem conns_disposeRequest_none {r : Nat} (rc : BitVec 32) {s : State Stage Worker} (hc : (s.heap r).csp = none) :
    (disposeRequest r rc s).conns = s.conns ∧ (disposeRequest r rc s).connectionCounter = s.connectionCounter := by
  unfold disposeRequest dropCleaner disconnectConn
  simp only [hc]
  split <;> simp [cleanupRequest, hc]

theorem csp_dispose (cfg : Config Stage Worker) (s : State Stage Worker) (q : Nat) (next : Option Nat) (rc : BitVec 32)
    (r : Nat) : ((mainEffect cfg s (.dispose q next rc)).heap r).csp = (s.heap r).csp := by
  rcases heap_mainEffect cfg s (.dispose q next rc) r with ⟨f, d, heq⟩ | ⟨-, _, _, _, ha, -⟩
  · rw [heq]
  · cases ha

omit [Fintype Stage] [Fintype Worker] in
theorem nreq_dispose (cfg : Config Stage Worker) (s : State Stage Worker) (q : Nat) (next : Option Nat)
    (rc : BitVec 32) : (mainEffect cfg s (.dispose q next rc)).nreq = s.nreq :=
  mainEffect_plain cfg s (.dispose q next rc) State.nreq fun _ => rfl

theorem unfreed_dispose (cfg : Config Stage Worker) (s : State Stage Worker) (q : Nat) (next : Option Nat)
    (rc : BitVec 32) (d : Nat) : unfreed (mainEffect cfg s (.dispose q next rc)) d = (unfreed s d).erase q := by
  ext r
  have hfreed : .freed r ∈ (mainEffect cfg s (.dispose q next rc)).trace ↔ r = q ∨ .freed r ∈ s.trace := by
    rw [mem_mainEffect cfg s _ (by simp) (by simp), records]
    split_ifs <;> simp
  simp only [unfreed, Finset.mem_filter, Finset.mem_range, Finset.mem_erase, nreq_dispose, csp_dispose, hfreed]
  tauto

theorem connInv_dispose {cfg : Config Stage Worker} {s : State Stage Worker} {q : Nat} {next : Option Nat}
    {rc : BitVec 32} (hflow : FlowInv s) (h : ConnInv s) (hm : s.main = .dispose q next rc)
    (hopen : disconnects rc = true → ∀ c ∈ (s.heap q).csp, (s.conns c).lost = 0) :
    ConnInv (mainEffect cfg s (.dispose q next rc)) := by
  have hfinal := hflow.final_of_current hm rfl
  have hq := hflow.lt_of_mem hfinal
  have hnconn : (mainEffect cfg s (.dispose q next rc)).nconn = s.nconn :=
    mainEffect_plain cfg s (.dispose q next rc) State.nconn fun _ => rfl
  have horigin : ∀ r < (mainEffect cfg s (.dispose q next rc)).nreq, ∀ d,
      ((mainEffect cfg s (.dispose q next rc)).heap r).csp = some d → d < s.nconn := by
    intro r hr d hd
    rw [nreq_dispose] at hr
    rw [csp_dispose] at hd
    exact h.origin r hr d hd
  have hidle : ∀ c, s.main ≠ .datagram c := by simp [hm]
  cases hc : (s.heap q).csp with
  | none =>
    obtain ⟨hconns, hcounter⟩ := conns_disposeRequest_none rc hc
    have hconns' : (mainEffect cfg s (.dispose q next rc)).conns = s.conns := hconns
    refine ⟨fun d hd => ?_, fun d hd => ?_, hnconn ▸ horigin, ?_, ?_⟩
    · have hnot : q ∉ unfreed s d := by simp [unfreed, hc]
      rw [hconns', unfreed_dispose, Finset.erase_eq_of_notMem hnot]
      exact h.conn d (hnconn ▸ hd)
    · rw [hconns']
      exact h.vacant d (hnconn ▸ hd)
    · refine h.served.of_offDuty hidle trivial ?_
      intro d hd htype hlost
      rw [hconns'] at htype hlost
      exact ⟨hnconn ▸ hd, htype, hlost⟩
    · refine hcounter.trans ?_
      rw [h.counter, openConns, openConns, hconns', hnconn]
  | some c =>
    have hcn : c < s.nconn := h.origin q hq c hc
    have hok := h.conn c hcn
    have hmem := hflow.mem_unfreed hfinal hc
    have hcard := Finset.card_erase_add_one hmem
    rw [← hcard] at hok
    obtain ⟨hconns, hcounter⟩ := conns_disposeRequest rc hc
    have hlost := ConnState.disposed_lost rc (s.conns c)
    refine h.update hcn hconns hnconn (fun d hd => ?_) ?_ horigin ?_ ?_
    · rw [unfreed_dispose, Finset.erase_eq_of_notMem]
      simp only [unfreed, Finset.mem_filter, hc, Option.some.injEq]
      exact fun hin => hd hin.2.1.symm
    · rw [unfreed_dispose]
      unfold ConnState.disposed
      split_ifs with hdis
      · exact (hok.close (hopen hdis c hc)).rele
      · exact hok.rele
    · refine h.served.of_offDuty hidle trivial ?_
      intro d hd htype' hlost'
      have hconns' : (mainEffect cfg s (.dispose q next rc)).conns =
        Function.update s.conns c ((s.conns c).disposed rc) := hconns
      rw [hconns'] at htype' hlost'
      refine ⟨hnconn ▸ hd, ?_⟩
      by_cases hdc : d = c
      · subst hdc
        rw [Function.update_self] at htype' hlost'
        rw [hlost] at hlost'
        rw [ConnState.disposed_type] at htype'
        refine ⟨htype', ?_⟩
        split_ifs at hlost'
        exact hlost'
      · rw [Function.update_of_ne hdc] at htype' hlost'
        exact ⟨htype', hlost'⟩
    · by_cases hdis : disconnects rc = true
      · rw [if_pos hdis] at hcounter hlost
        have hzero := hopen hdis c hc
        exact .inr ⟨hcounter, hzero, by omega⟩
      · rw [if_neg hdis] at hcounter hlost
        exact .inl ⟨hcounter, hlost⟩

/-! ### The main thread -/

omit [DecidableEq Stage] [DecidableEq Worker] [Fintype Stage] [Fintype Worker] in
theorem ConnInv.made {s s' : State Stage Worker} (h : ConnInv s) (hreq : SameRequests s s') {type : ConnType}
    {armed : Bool} (ha : armed = true → type = .tcp)
    (hconns : s'.conns = Function.update s.conns s.nconn ⟨type, true, armed, 1, 0, 0, false⟩)
    (hnconn : s'.nconn = s.nconn + 1) (hcounter : s'.connectionCounter = s.connectionCounter + 1)
    (hserved : Served s') : ConnInv s' where
  conn c hc := by
    rw [hconns, hreq.unfreed]
    by_cases hcn : c = s.nconn
    · have hnone : unfreed s c = ∅ := by
        apply Finset.filter_eq_empty_iff.mpr
        intro r hr hin
        have := h.origin r (Finset.mem_range.mp hr) c hin.1
        omega
      rw [hnone, hcn, Function.update_self, Finset.card_empty]
      exact ConnOk.made type armed ha
    · rw [Function.update_of_ne hcn]
      exact h.conn c (by omega)
  vacant c hc := by
    rw [hconns, Function.update_of_ne (by omega)]
    exact h.vacant c (by omega)
  origin r hr c hc := by
    have := hreq.origin h r hr c hc
    omega
  served := hserved
  counter := by
    have hopen : openConns s' = insert s.nconn (openConns s) := by
      ext c
      simp only [openConns, hconns, hnconn, Finset.mem_filter, Finset.mem_range, Finset.mem_insert]
      by_cases hcn : c = s.nconn
      · subst hcn
        simp
      · simp only [Function.update_of_ne hcn, hcn, false_or]
        apply and_congr_left
        intro _
        omega
    rw [hcounter, h.counter, hopen, Finset.card_insert_of_notMem (by simp [openConns])]
    omega

omit [DecidableEq Stage] [DecidableEq Worker] [Fintype Stage] [Fintype Worker] in
theorem ConnInv.setArmed {s s' : State Stage Worker} (h : ConnInv s) (hreq : SameRequests s s') {c : Nat}
    (hc : c < s.nconn) (hlost : (s.conns c).lost = 0) (htype : (s.conns c).type = .tcp) (b : Bool)
    (hconns : s'.conns = Function.update s.conns c { s.conns c with armed := b }) (hnconn : s'.nconn = s.nconn)
    (hcounter : s'.connectionCounter = s.connectionCounter)
    (hmain : s'.main = s.main ∨ (∀ d, s.main ≠ .datagram d) ∧ (s'.main = .session c ∨ s'.main = .loop)) :
    ConnInv s' := by
  have hok := h.conn c hc
  have htypes : ∀ d, (s'.conns d).type = (s.conns d).type ∧ (s'.conns d).lost = (s.conns d).lost := by
    intro d
    rw [hconns]
    by_cases hd : d = c
    · subst hd; simp
    · simp [hd]
  refine h.update hc hconns hnconn (fun d _ => hreq.unfreed d) ?_ (hreq.origin h) ?_ (.inl ⟨hcounter, rfl⟩)
  · rw [hreq.unfreed]
    exact ⟨hok.lost_le, hok.refCnt, hok.freed, hok.untouched, fun _ => ⟨hlost, htype⟩, hok.fd⟩
  · rcases hmain with hmain | ⟨hmain, hmain'⟩
    · exact h.served.of_same hmain hnconn (fun d => (htypes d).1) fun d => (htypes d).2
    · refine ⟨fun d hd => ?_, fun d hd => ?_, fun d hd ht hl => ?_⟩
      · rw [hd] at hmain'
        obtain rfl : d = c := by simpa using hmain'
        rw [hnconn, (htypes d).2]
        exact ⟨hc, hlost⟩
      · rw [hd] at hmain'
        simp at hmain'
      · rw [(htypes d).1] at ht
        rw [(htypes d).2] at hl
        exact absurd (h.served.udp d (hnconn ▸ hd) ht hl) (hmain d)

omit [DecidableEq Stage] [DecidableEq Worker] [Fintype Stage] [Fintype Worker] in
theorem ConnInv.closed {s s' : State Stage Worker} (h : ConnInv s) (hreq : SameRequests s s') {c : Nat}
    (hc : c < s.nconn) (hlost : (s.conns c).lost = 0) {cs : ConnState} (hok : ConnOk cs (unfreed s c).card)
    (hlost' : cs.lost = 1) (hconns : s'.conns = Function.update s.conns c cs) (hnconn : s'.nconn = s.nconn)
    (hcounter : s'.connectionCounter = s.connectionCounter - 1) (hmain : s'.main = .loop)
    (hother : ∀ d, s.main = .datagram d → d = c) : ConnInv s' := by
  refine h.update hc hconns hnconn (fun d _ => hreq.unfreed d) ?_ (hreq.origin h) ?_ (.inr ⟨hcounter, hlost, hlost'⟩)
  · rw [hreq.unfreed]
    exact hok
  · refine ⟨fun d hd => ?_, fun d hd => ?_, fun d hd ht hl => ?_⟩
    · rw [hmain] at hd
      cases hd
    · rw [hmain] at hd
      cases hd
    · by_cases hdc : d = c
      · rw [hconns, hdc, Function.update_self] at hl
        omega
      · rw [hconns, Function.update_of_ne hdc] at ht hl
        exact absurd (hother d (h.served.udp d (hnconn ▸ hd) ht hl)) hdc

omit [DecidableEq Stage] [DecidableEq Worker] [Fintype Stage] [Fintype Worker] in
theorem ConnInv.tcp_of_session {s : State Stage Worker} (h : ConnInv s) {c : Nat} (hm : s.main = .session c) :
    (s.conns c).type = .tcp := by
  obtain ⟨hc, hl⟩ := h.served.session c hm
  cases ht : (s.conns c).type with
  | tcp => rfl
  | udp =>
    have hserved := h.served.udp c hc ht hl
    rw [hm] at hserved
    cases hserved

omit [DecidableEq Stage] [DecidableEq Worker] [Fintype Stage] [Fintype Worker] in
theorem ConnInv.connOk_datagramEnd {s : State Stage Worker} (h : ConnInv s) {c : Nat} (hc : c < s.nconn)
    (hl : (s.conns c).lost = 0) (ht : (s.conns c).type = .udp) :
    ConnOk (s.conns c).connectionLost.rele (unfreed s c).card := by
  have hok := h.conn c hc
  have hfreed := hok.freed_eq_zero (.inl hl)
  have hnot : (s.conns c).armed = false := by
    by_contra harmed
    have htcp := (hok.armed (by simpa using harmed)).2
    rw [ht] at htcp
    cases htcp
  refine hok.lose hl rfl (fun htcp => ?_) hnot rfl (by simp [ConnState.rele, ConnState.connectionLost, ConnState.touch, hl])
    rfl (by simp [ConnState.rele, ConnState.connectionLost, ConnState.touch, hfreed])
  rw [ht] at htcp
  cases htcp

theorem connInv_mainEffect {cfg : Config Stage Worker} {s : State Stage Worker} {a : MainAct Stage Worker}
    (hflow : FlowInv s) (hstored : Stored cfg s) (h : ConnInv s) (hown : ownSubmit s (.main a) = true)
    (hopen : ClosesOpen s (.main a)) (hs : step cfg s (.main a) = some (mainEffect cfg s a)) :
    ConnInv (mainEffect cfg s a) := by
  obtain ⟨-, hg, -⟩ := step_eq_some hs
  have hreq := fun ha => sameRequests_step hs ha
  -- a step that leaves the connections alone and starts no service
  have hsame : keepsRequests (.main a) = true → (mainEffect cfg s a).conns = s.conns →
      (mainEffect cfg s a).nconn = s.nconn → (mainEffect cfg s a).connectionCounter = s.connectionCounter →
      ((mainEffect cfg s a).main = s.main ∨ (∀ c, s.main ≠ .datagram c) ∧ offDuty (mainEffect cfg s a).main) →
      ConnInv (mainEffect cfg s a) := by
    intro hkeep hconns hnconn hcounter hmain
    refine h.of_same (hreq hkeep) hconns hnconn hcounter ?_
    rcases hmain with hmain | ⟨hmain, hmain'⟩
    · exact h.served.of_same hmain hnconn (fun c => by rw [hconns]) fun c => by rw [hconns]
    · apply h.served.of_offDuty hmain hmain'
      intro c hc ht hl
      rw [hconns] at ht hl
      exact ⟨hnconn ▸ hc, ht, hl⟩
  have hclose : ∀ c, (s.conns c).lost = 0 → (s.conns c).connClose.stateCleanup.lost = 1 := fun c hl => by
    rw [ConnState.close_lost, hl]
  cases a with
  | accept =>
    have hm : s.main = .loop := hg
    refine h.made (hreq rfl) (fun _ => rfl) rfl rfl rfl ?_
    apply h.served.of_offDuty (by simp [hm]) (by simp [mainEffect, connectionMade, hm, offDuty])
    intro c hc ht hl
    by_cases hcn : c = s.nconn
    · subst hcn
      simp [mainEffect, connectionMade] at ht
    · simp only [mainEffect, connectionMade, Function.update_of_ne hcn] at hc ht hl
      exact ⟨by omega, ht, hl⟩
  | datagram =>
    have hm : s.main = .loop := hg
    refine h.made (hreq rfl) (by simp) rfl rfl rfl ⟨fun c hc => ?_, fun c hc => ?_, fun c hc ht hl => ?_⟩
    · simp [mainEffect] at hc
    · simp only [mainEffect, MainPc.datagram.injEq] at hc
      subst hc
      simp [mainEffect, connectionMade]
    · by_cases hcn : c = s.nconn
      · rw [hcn]
        rfl
      · simp only [mainEffect, connectionMade, Function.update_of_ne hcn] at hc ht hl
        have := h.served.udp c (by omega) ht hl
        rw [hm] at this
        cases this
  | readable c =>
    obtain ⟨hm, harmed⟩ := hg
    obtain ⟨hc, hl, ht⟩ := h.lost_of_armed harmed
    refine h.setArmed (hreq rfl) hc hl ht false ?_ rfl rfl (.inr ⟨by simp [hm], .inl rfl⟩)
    simp only [mainEffect, modifyConn, ConnState.eventDel, (h.conn c hc).touch_eq (.inl hl)]
  | writable c =>
    obtain ⟨hm, harmed⟩ := hg
    obtain ⟨hc, hl, ht⟩ := h.lost_of_armed harmed
    refine h.setArmed (hreq rfl) hc hl ht true ?_ rfl rfl (.inl rfl)
    simp only [mainEffect, modifyConn, ConnState.eventAdd, (h.conn c hc).touch_eq (.inl hl)]
  | readBlocked c =>
    obtain ⟨hm, -⟩ := hg
    obtain ⟨hc, hl⟩ := h.served.session c hm
    have ht := h.tcp_of_session hm
    refine h.setArmed (hreq rfl) hc hl ht true ?_ rfl rfl (.inr ⟨by simp [hm], .inr rfl⟩)
    simp only [mainEffect, modifyConn, ConnState.eventAdd, (h.conn c hc).touch_eq (.inl hl)]
  | sendBack c =>
    obtain ⟨hcall, -, ht, hfd⟩ := hg
    obtain ⟨hc, -⟩ := h.held_of_callback hflow hcall
    have hl := ((h.conn c hc).fd ht).mp hfd
    refine h.setArmed (hreq rfl) hc hl ht true ?_ rfl rfl (.inl rfl)
    simp only [mainEffect, modifyConn, ConnState.eventAdd, (h.conn c hc).touch_eq (.inl hl)]
  | idleTimeout c =>
    obtain ⟨hm, harmed⟩ := hg
    obtain ⟨hc, hl, ht⟩ := h.lost_of_armed harmed
    have hdel : (s.conns c).eventDel.connClose.stateCleanup = (s.conns c).connClose.stateCleanup := by
      simp [ConnState.stateCleanup, ConnState.connectionLost, ConnState.eventDel, ConnState.rele, ConnState.connClose,
        ConnState.touch, ht]
    refine h.closed (hreq rfl) hc hl ((h.conn c hc).close hl) (hclose c hl) ?_ rfl rfl hm (by simp [hm])
    simp only [mainEffect, connStateCleanup, modifyConn, Function.update_self, Function.update_idem, hdel]
  | hangup c why =>
    obtain ⟨hm, -⟩ := hg
    obtain ⟨hc, hl⟩ := h.served.session c hm
    refine h.closed (hreq rfl) hc hl ((h.conn c hc).close hl) (hclose c hl) ?_ rfl rfl rfl (by simp [hm])
    simp only [mainEffect, connStateCleanup, modifyConn, Function.update_self, Function.update_idem]
  | datagramEnd c =>
    obtain ⟨hm, -⟩ := hg
    obtain ⟨hc, hl, ht⟩ := h.served.datagram c hm
    have hnew := h.connOk_datagramEnd hc hl ht
    refine h.closed (hreq rfl) hc hl hnew (by simp [ConnState.rele, ConnState.connectionLost, ConnState.touch, hl])
      rfl rfl rfl rfl fun d hd => ?_
    rw [hm, MainPc.datagram.injEq] at hd
    exact hd.symm
  | submit args p st =>
    obtain ⟨-, -, -, hroom⟩ := hg
    obtain ⟨c, hp, hcall⟩ := (Option.any_eq_true _ _).mp hown
    obtain ⟨hc, hheld⟩ := h.held_of_callback hflow hcall
    apply connInv_submit hstored h hp hc hheld hroom
    intro hfreed
    exact Nat.lt_irrefl _ (hflow.lt_of_freed hfreed)
  | dispose q next rc => exact connInv_dispose hflow h hg hopen
  | respond r next rc =>
    obtain ⟨hm, -⟩ := hg
    have htouch := touchCsp_eq hflow h (hflow.final_of_current hm rfl)
    refine hsame rfl ?_ ?_ ?_ (.inr ⟨by simp [hm], trivial⟩) <;> rw [mainEffect, htouch]
  | send q p st flags concat =>
    exact hsame rfl (sendLocked_keeps cfg q p st flags concat s State.conns fun _ => rfl)
      (sendLocked_keeps cfg q p st flags concat s State.nconn fun _ => rfl)
      (sendLocked_keeps cfg q p st flags concat s State.connectionCounter fun _ => rfl)
      (.inl (sendLocked_keeps cfg q p st flags concat s State.main fun _ => rfl))
  | kick ev ok ws =>
    obtain ⟨hm, -⟩ := hg
    have hmove := QueueMove.kickRequestQueue cfg ok s
    exact hsame rfl (hmove.keeps State.conns fun _ => rfl) (hmove.keeps State.nconn fun _ => rfl)
      (hmove.keeps State.connectionCounter fun _ => rfl) (.inr ⟨by simp [hm], trivial⟩)
  | noticeWrite r p =>
    rw [mainEffect, writeByte_info] at hsame ⊢
    exact hsame rfl rfl rfl rfl (.inl rfl)
  | refuse | buffer | count | countBuffered | noticeSkip | noticeClear | noticeSet | returnTid =>
    exact hsame rfl rfl rfl rfl (.inl rfl)
  | drainRead | drainReset | finish | broadcast | broadcastEnd =>
    have hm : s.main = _ := hg
    exact hsame rfl rfl rfl rfl (.inr ⟨by simp [hm], trivial⟩)
  | _ =>
    obtain ⟨hm, -⟩ := hg
    exact hsame rfl rfl rfl rfl (.inr ⟨by simp [hm], trivial⟩)

/-! ### Refusals -/

/-- `send_to_pipeline` refuses, when `submit_request` holds the connection already. -/
def refusedLate (cfg : Config Stage Worker) (s : State Stage Worker) : Action Stage Worker → Bool
  | .main (.send _ p st flags concat) => refuses cfg p st flags concat s
  | _ => false

/-- Every request is linked, or `submit_request` is about to link it. -/
def AllLinked (s : State Stage Worker) : Prop := ∀ r < s.nreq, .inserted r ∈ s.trace ∨ subPhase s.sub r = .checked

theorem allLinked_mainEffect {cfg : Config Stage Worker} {s : State Stage Worker} {a : MainAct Stage Worker}
    (h : AllLinked s) (hR : refusedLate cfg s (.main a) = false) (hg : mainGuard cfg s a) :
    AllLinked (mainEffect cfg s a) := by
  intro r hr
  rw [mainEffect_plain cfg s a State.trace fun _ => rfl, mainEffect_plain cfg s a State.sub fun _ => rfl]
  rw [mainEffect_plain cfg s a State.nreq fun _ => rfl] at hr
  -- outside of the check the request is linked
  have hlinked : r < s.nreq → subPhase s.sub r ≠ .checked → .inserted r ∈ s.trace :=
    fun hr hsub => (h r hr).resolve_right hsub
  cases a with
  | submit args p st =>
    obtain ⟨-, hsub, -⟩ := hg
    rcases Nat.lt_succ_iff_lt_or_eq.mp hr with hr | rfl
    · exact .inl (List.mem_cons_of_mem _ (hlinked hr (by simp [hsub, subPhase])))
    · exact .inr (by simp [mainPlain, preparedPlain, subPhase])
  | send q p st flags concat =>
    obtain ⟨hsub, -⟩ := hg
    simp only [mainPlain, mainEffect] at hr ⊢
    rcases sendLocked_cases cfg q p st flags concat s with
      ⟨s₁, -, hrefused, -⟩ | ⟨s₁, hmove, heq⟩ | ⟨s₁, ev, hmove, -, heq⟩
    · exact absurd hrefused (by simpa [refusedLate] using hR)
    all_goals
      simp only [heq, setMutex, hmove.keeps State.nreq fun _ => rfl] at hr ⊢
      rw [← List.count_pos_iff, hmove.trace_inserted]
    · rw [hmove.keeps State.sub fun _ => rfl]
      exact (h r hr).imp_left List.count_pos_iff.mpr
    · by_cases hq : r = q
      · simp [hq]
      · have hin := hlinked hr (by simp [hsub, subPhase, Ne.symm hq])
        rw [← List.count_pos_iff] at hin
        exact .inl (Nat.add_pos_left hin _)
  | buffer q p st flags concat =>
    have hsub : s.sub = _ := hg
    by_cases hq : r = q
    · subst hq
      exact .inl List.mem_cons_self
    · exact .inl (List.mem_cons_of_mem _ (hlinked hr (by simp [hsub, subPhase, Ne.symm hq])))
  | kick ev ok ws =>
    have hmove := QueueMove.kickRequestQueue cfg ok s
    have hsub := hmove.keeps State.sub fun _ => rfl
    have hnreq := hmove.keeps State.nreq fun _ => rfl
    simp only [mainPlain, mainEffect, kickAll, hsub, hnreq] at hr ⊢
    rw [← List.count_pos_iff, hmove.trace_inserted]
    exact (h r hr).imp_left fun hin => Nat.add_pos_left (List.count_pos_iff.mpr hin) _
  | count q p st notice ws =>
    obtain ⟨hsub, -⟩ := hg
    exact .inl (List.mem_cons_of_mem _ (hlinked hr (by simp only [hsub, subPhase]; split <;> simp)))
  | countBuffered q p | returnTid q p =>
    have hsub : s.sub = _ := hg
    exact .inl (List.mem_cons_of_mem _ (hlinked hr (by simp only [hsub, subPhase]; split <;> simp)))
  | noticeSkip q p | noticeClear q p =>
    obtain ⟨hsub, -⟩ := hg
    exact .inl (hlinked hr (by simp only [hsub, subPhase]; split <;> simp))
  | noticeSet q p | noticeWrite q p =>
    have hsub : s.sub = _ := hg
    exact .inl (hlinked hr (by simp only [hsub, subPhase]; split <;> simp))
  | dispose q next rc =>
    exact (h r hr).imp_left fun hin => List.mem_cons_of_mem _ (List.mem_append_right _ hin)
  | takeNull | takeReq | respond =>
    apply (h r hr).imp_left
    intro hin
    simp [mainPlain, mainEffect, takeRequest, hin]
  | _ => exact h r hr

theorem allLinked_step {cfg : Config Stage Worker} {s s' : State Stage Worker} {a : Action Stage Worker}
    (h : AllLinked s) (hR : refusedLate cfg s a = false) (hs : step cfg s a = some s') : AllLinked s' := by
  obtain ⟨-, hg, rfl⟩ := step_eq_some hs
  cases a with
  | worker w a =>
    intro r hr
    rw [effect, workerEffect_keeps cfg s w a State.nreq fun _ => rfl] at hr
    rw [effect, workerEffect_keeps cfg s w a State.sub fun _ => rfl]
    apply (h r hr).imp_left
    intro hin
    rcases trace_workerEffect cfg s w a with heq | ⟨q, heq⟩ <;> simp [heq, hin]
  | main a => exact allLinked_mainEffect h hR hg
  | signals a =>
    intro r hr
    obtain ⟨s₁, wk, sig, g, hmove, heq⟩ := signalEffect_move cfg s a
    simp only [effect, heq, hmove.keeps State.nreq fun _ => rfl, hmove.keeps State.sub fun _ => rfl] at hr ⊢
    rw [← List.count_pos_iff, hmove.trace_inserted]
    exact (h r hr).imp_left fun hin => Nat.add_pos_left (List.count_pos_iff.mpr hin) _
  | tick | cancel => exact h

/-! ### Lifetime -/

/-- The requests submitted on `c`, linked or about to be, that are not cleaned up. -/
def outstanding (s : State Stage Worker) (c : Nat) : Finset Nat :=
  (Finset.range s.nreq).filter fun r => (s.heap r).csp = some c ∧ .freed r ∉ s.trace ∧
    (.inserted r ∈ s.trace ∨ subPhase s.sub r = .checked)

/-- The descriptor of a TCP connection is closed, or the datagram is delivered. -/
def ended (s : State Stage Worker) (c : Nat) : Prop :=
  match (s.conns c).type with
  | .tcp => (s.conns c).fdOpen = false
  | .udp => s.main ≠ .datagram c

/-- Requests are submitted in callbacks for their connection and none is refused late, none is past the loop
limit, and responders ask for a disconnection only while the connection is open. -/
def Orderly (cfg : Config Stage Worker) (s : State Stage Worker) (a : Action Stage Worker) : Prop :=
  Regular s a ∧ ownSubmit s a = true ∧ refusedLate cfg s a = false ∧ ClosesOpen s a

instance (s : State Stage Worker) (a : Action Stage Worker) : Decidable (ClosesOpen s a) := by
  unfold ClosesOpen
  induction a using Action.casesOn with
  | main a => induction a using MainAct.casesOn <;> infer_instance
  | _ => infer_instance

instance (cfg : Config Stage Worker) (s : State Stage Worker) (a : Action Stage Worker) :
    Decidable (Orderly cfg s a) :=
  inferInstanceAs (Decidable (_ ∧ _ ∧ _ ∧ _))

theorem connInv {cfg : Config Stage Worker} {s : State Stage Worker}
    (h : Reachable cfg (fun s a _ => Orderly cfg s a) s) : ConnInv s ∧ AllLinked s := by
  have hall : (FlowInv s ∧ Stored cfg s) ∧ ConnInv s ∧ AllLinked s := by
    refine h.invariant (I := fun s => (FlowInv s ∧ Stored cfg s) ∧ ConnInv s ∧ AllLinked s) ?_ ?_
    · exact ⟨⟨flowInv_init, stored_init cfg⟩, connInv_init, fun r hr => absurd hr (Nat.not_lt_zero r)⟩
    · rintro s a s' ⟨⟨hflow, hstored⟩, hconn, hlinked⟩ ⟨hregular, hown, hlate, hopen⟩ hs
      refine ⟨⟨flowInv_step hflow hregular hs, stored_step hstored hs⟩, ?_, allLinked_step hlinked hlate hs⟩
      obtain ⟨-, -, rfl⟩ := step_eq_some hs
      cases a with
      | worker w a => exact connInv_workerEffect hflow hconn hs
      | main a => exact connInv_mainEffect hflow hstored hconn hown hopen hs
      | signals a =>
        have hreq := sameRequests_step hs rfl
        have hconns := signalEffect_keeps cfg s a State.conns fun _ => rfl
        have hnconn := signalEffect_keeps cfg s a State.nconn fun _ => rfl
        refine hconn.of_same hreq hconns hnconn (signalEffect_keeps cfg s a State.connectionCounter fun _ => rfl) ?_
        exact hconn.served.of_same (signalEffect_keeps cfg s a State.main fun _ => rfl) hnconn
          (fun c => congrArg (fun f => (f c).type) hconns) fun c => congrArg (fun f => (f c).lost) hconns
      | tick | cancel =>
        exact hconn.of_same (sameRequests_step hs rfl) rfl rfl rfl
          (hconn.served.of_same rfl rfl (fun _ => rfl) fun _ => rfl)
  exact hall.2

/-- **Connection lifetime.** In every orderly run the reference count of a connection is one, until
`connection_lost` is called for it, plus the number of its outstanding requests; `connection_lost` is called
once, when the connection ends; the block is freed once, when nothing holds it any more, and not touched after
that; and the connection counter is the number of connections that are not lost. -/
theorem connection_lifetime (cfg : Config Stage Worker) {s : State Stage Worker}
    (h : Reachable cfg (fun s a _ => Orderly cfg s a) s) {c : Nat} (hc : c < s.nconn) :
    (s.conns c).refCnt.toNat = (if (s.conns c).lost = 0 then 1 else 0) + (outstanding s c).card ∧
    (s.conns c).lost ≤ 1 ∧ ((s.conns c).lost = 1 ↔ ended s c) ∧
    (s.conns c).freed ≤ 1 ∧ ((s.conns c).freed = 1 ↔ (s.conns c).lost = 1 ∧ outstanding s c = ∅) ∧
    (s.conns c).touchedAfterFree = false ∧ s.connectionCounter = (openConns s).card := by
  obtain ⟨hconn, hlinked⟩ := connInv h
  have hok := hconn.conn c hc
  have hout : outstanding s c = unfreed s c := by
    refine Finset.filter_congr fun r hr => and_congr_right fun _ => ?_
    rw [and_iff_left (hlinked r (Finset.mem_range.mp hr))]
  have hlost := hok.lost_le
  have href := hok.refCnt
  have hfreed := hok.freed
  rw [hout]
  refine ⟨?_, hlost, ?_, ?_, ?_, hok.untouched, hconn.counter⟩
  · split_ifs <;> omega
  · unfold ended
    cases ht : (s.conns c).type with
    | tcp =>
      have hfd := hok.fd ht
      rw [← Bool.not_eq_true, hfd]
      omega
    | udp =>
      refine ⟨fun hl hm => ?_, fun hm => ?_⟩
      · have := (hconn.served.datagram c hm).2.1
        omega
      · have hne : (s.conns c).lost ≠ 0 := fun hl => hm (hconn.served.udp c hc ht hl)
        omega
  · rw [hfreed]
    split_ifs <;> omega
  · rw [hfreed, ← Finset.card_eq_zero]
    split_ifs with hif
    · exact ⟨fun _ => hif, fun _ => rfl⟩
    · exact ⟨fun h => absurd h (by decide), fun h => absurd h hif⟩

/-- The peer closes while two requests are outstanding, and one of them completes. -/
theorem connection_lifetime_run :
    ∃ s, Reachable (oneStage 8 0) (fun s a _ => Orderly (oneStage 8 0) s a) s ∧ 0 < s.nconn ∧
      (s.conns 0).lost = 1 ∧ outstanding s 0 = {1} ∧ (s.conns 0).refCnt.toNat = 1 := by
  obtain ⟨s, hs, hconn, hlost, hout⟩ := exists_reachable (oneStage 8 0) (fun s a _ => Orderly (oneStage 8 0) s a)
    ([.main .accept, .main (.readable 0)] ++ submitSteps 0 0 ++ submitSteps 1 0 ++ [.main (.hangup 0 .eof)] ++
      handleSteps 0 [1] 0 ++ doneSteps 0 ++ takeSteps ++ completeSteps 0 none rcInit 1)
    (P := fun s => 0 < s.nconn ∧ (s.conns 0).lost = 1 ∧ outstanding s 0 = {1}) (by decide +kernel)
  refine ⟨s, hs, hconn, hlost, hout, ?_⟩
  rw [(connection_lifetime (oneStage 8 0) hs hconn).1, hlost, hout]
  rfl

/-- The peer closes first and the responder asks to disconnect: `connection_lost` is called twice and the
block is touched after it was freed. -/
theorem connection_lost_twice :
    ∃ s, Reachable (oneStage 8 0) (fun s a _ => Regular s a ∧ ownSubmit s a = true ∧
        refusedLate (oneStage 8 0) s a = false) s ∧
      (s.conns 0).lost = 2 ∧ 0 < (s.conns 0).freed ∧ (s.conns 0).touchedAfterFree = true :=
  exists_reachable (oneStage 8 0) (fun s a _ => Regular s a ∧ ownSubmit s a = true ∧
      refusedLate (oneStage 8 0) s a = false)
    ([.main .accept, .main (.readable 0)] ++ submitSteps 0 0 ++ [.main (.hangup 0 .eof)] ++ handleSteps 0 [] 0 ++
      doneSteps 0 ++ takeSteps ++ completeSteps 0 none rcInit responderDisconnect) (by decide +kernel)

end Csf
