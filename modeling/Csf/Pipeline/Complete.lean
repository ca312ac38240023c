import Csf.Pipeline.Model
import Mathlib.Data.List.Basic

/-!
# Completion and connections: `cleanup_request`, the result of a responder, `CS_HOLD` and `CS_RELE`

The pieces of `done_requests_handler`, `server.c`, `data.c` and the connection handlers that touch a
`CONN_STATE`. Each is a function on the connection's block; a touch after the block was freed is recorded
in the block's history.
-/

namespace Csf

variable {Stage Worker : Type}

/-! ### The result of a responder -/

def responderOk : BitVec 32 := 0
def responderClean : BitVec 32 := 1
def responderDisconnect : BitVec 32 := 4

/-- The initial value of `rc` in `done_requests_handler`. -/
def rcInit : BitVec 32 := responderOk ||| responderClean

/-- `(rc & RESPONDER_DISCONNECT) == RESPONDER_DISCONNECT`, which holds for `RESPONDER_ERROR`, that is `-1`, too. -/
def disconnects (rc : BitVec 32) : Bool := rc &&& responderDisconnect == responderDisconnect

/-- `(rc & RESPONDER_CLEAN) == RESPONDER_CLEAN` -/
def cleans (rc : BitVec 32) : Bool := rc &&& responderClean == responderClean

/-! ### One connection -/

namespace ConnState

def touch (cs : ConnState) : ConnState :=
  { cs with touchedAfterFree := cs.touchedAfterFree || decide (0 < cs.freed) }

def hold (cs : ConnState) : ConnState := { cs.touch with refCnt := cs.refCnt + 1 }

def rele (cs : ConnState) : ConnState :=
  { cs.touch with
    refCnt := cs.refCnt - 1
    freed := if cs.refCnt - 1 = 0 then cs.freed + 1 else cs.freed }

/-- `connection_lost`, as far as the block is concerned. -/
def connectionLost (cs : ConnState) : ConnState := { cs.touch with lost := cs.lost + 1 }

def eventAdd (cs : ConnState) : ConnState := { cs.touch with armed := true }

/-- `event_del` on `ev`; also what libevent does when a one-shot event fires. -/
def eventDel (cs : ConnState) : ConnState := { cs.touch with armed := false }

/-- `conn_close` of the connection's protocol: `tcp_conn_close`, or NULL for UDP. -/
def connClose (cs : ConnState) : ConnState :=
  match cs.type with
  | .tcp => { cs.touch with fdOpen := false }
  | .udp => cs.touch

def stateCleanup (cs : ConnState) : ConnState := cs.connectionLost.eventDel.rele

end ConnState

/-- Apply an operation to the block of connection `c`. -/
def modifyConn (c : Nat) (f : ConnState → ConnState) (s : State Stage Worker) : State Stage Worker :=
  { s with conns := Function.update s.conns c (f (s.conns c)) }

/-- `conn_state_cleanup`, with the connection counter. -/
def connStateCleanup (c : Nat) (s : State Stage Worker) : State Stage Worker :=
  { modifyConn c ConnState.stateCleanup s with connectionCounter := s.connectionCounter - 1 }

/-- The block that a handler for a new connection fills in, and `connection_made`. -/
def connectionMade (type : ConnType) (armed : Bool) (s : State Stage Worker) : State Stage Worker :=
  { s with
    conns := Function.update s.conns s.nconn ⟨type, true, armed, 1, 0, 0, false⟩
    nconn := s.nconn + 1
    connectionCounter := s.connectionCounter + 1 }

/-! ### One completed request -/

/-- `cleanup_request` on the final queue. The list `blocks` forgets the request when it is passed to `sfree`, whatever
`sfree` does with its memory. -/
def cleanupRequest (r : Nat) (s : State Stage Worker) : State Stage Worker :=
  { s with
    finalRequestHead := s.finalRequestHead.erase r
    trace := .freed r :: ((if (s.heap r).dataCleaner then [.cleaned r] else []) ++ s.trace)
    conns := match (s.heap r).csp with
      | some c => Function.update s.conns c (s.conns c).rele
      | none => s.conns
    blocks := s.blocks.erase r }

/-- The branch of the loop that a disconnecting result takes. -/
def disconnectConn (r : Nat) (rc : BitVec 32) (s : State Stage Worker) : State Stage Worker :=
  match (s.heap r).csp with
  | some c => if disconnects rc then connStateCleanup c (modifyConn c ConnState.connClose s) else s
  | none => s

/-- `data_cleaner = NULL` when the result does not ask for the cleaning. -/
def dropCleaner (r : Nat) (rc : BitVec 32) (s : State Stage Worker) : State Stage Worker :=
  if cleans rc then s
  else { s with heap := Function.update s.heap r { s.heap r with dataCleaner := false } }

/-- The loop body of `done_requests_handler` from the test of `rc` to `cleanup_request`. -/
def disposeRequest (r : Nat) (rc : BitVec 32) (s : State Stage Worker) : State Stage Worker :=
  cleanupRequest r (dropCleaner r rc (disconnectConn r rc s))

/-! ### What a disposal leaves alone -/

/-- The state apart from the connections. -/
def offConns (s : State Stage Worker) : State Stage Worker :=
  { s with conns := fun _ => ⟨.tcp, false, false, 0, 0, 0, false⟩, connectionCounter := 0 }

@[simp] theorem offConns_modifyConn (c : Nat) (f : ConnState → ConnState) (s : State Stage Worker) :
    offConns (modifyConn c f s) = offConns s := rfl

@[simp] theorem offConns_connStateCleanup (c : Nat) (s : State Stage Worker) :
    offConns (connStateCleanup c s) = offConns s := rfl

@[simp] theorem offConns_disconnectConn (r : Nat) (rc : BitVec 32) (s : State Stage Worker) :
    offConns (disconnectConn r rc s) = offConns s := by
  unfold disconnectConn
  split
  · split <;> simp
  · rfl

theorem keeps_of_offConns {β : Type} {s s' : State Stage Worker} (h : offConns s' = offConns s)
    (f : State Stage Worker → β) (hf : ∀ t, f t = f (offConns t)) : f s' = f s := by
  rw [hf s', hf s, h]

theorem disposeRequest_trace (r : Nat) (rc : BitVec 32) (s : State Stage Worker) :
    (disposeRequest r rc s).trace =
      .freed r :: ((if cleans rc && (s.heap r).dataCleaner then [.cleaned r] else []) ++ s.trace) := by
  have htrace := keeps_of_offConns (offConns_disconnectConn r rc s) State.trace fun _ => rfl
  have hheap := keeps_of_offConns (offConns_disconnectConn r rc s) State.heap fun _ => rfl
  unfold disposeRequest dropCleaner
  by_cases hc : cleans rc <;> simp [hc, cleanupRequest, htrace, hheap]

/-! ### A batch of completed requests -/

/-- A completed request as the loop of `done_requests_handler` sees it: the type of its connection (`none`
for a NULL `csp`), whether it is cancelled, what its responder returns if it has one and it is called, and
whether a data cleaner is set. -/
structure Completed where
  csp : Option ConnType
  cancelled : Bool
  responder : Option (BitVec 32)
  dataCleaner : Bool
  deriving DecidableEq

structure Disposal where
  connClosed : Bool
  stateCleanedUp : Bool
  cleanerRun : Bool
  deriving DecidableEq

namespace Completed

/-- The result of the responder, if the loop calls it. -/
def ownRc (c : Completed) : Option (BitVec 32) :=
  if c.csp.isSome && !c.cancelled then c.responder else none

/-- The value of `rc` after the loop has passed the request. -/
def rcAfter (rc : BitVec 32) (c : Completed) : BitVec 32 := c.ownRc.getD rc

/-- The disposal of a request for the value of `rc` at the tests. -/
def dispose (rc : BitVec 32) (c : Completed) : Disposal :=
  match c.csp with
  | none => ⟨false, false, false⟩
  | some type => ⟨disconnects rc && type == .tcp, disconnects rc, cleans rc && c.dataCleaner⟩

/-- The disposal of a request that is alone in its batch. -/
def alone (c : Completed) : Disposal := c.dispose (c.rcAfter rcInit)

/-- The value `rc` of another request's responder does not change the disposal of `c`. -/
def Harmless (rc : BitVec 32) (c : Completed) : Prop :=
  disconnects rc = false ∧ (c.dataCleaner = true → cleans rc = true)

end Completed

/-- The loop over a batch, `rc` being its value before the first request. -/
def disposeBatch : BitVec 32 → List Completed → List Disposal
  | _, [] => []
  | rc, c :: batch => c.dispose (c.rcAfter rc) :: disposeBatch (c.rcAfter rc) batch

/-- The responder of `c` is not called although it has a connection. -/
def Completed.Skipped (c : Completed) : Prop := c.csp.isSome = true ∧ c.ownRc = none

namespace Completed

theorem dispose_skipped_iff {c : Completed} (h : c.Skipped) (rc : BitVec 32) :
    c.dispose (c.rcAfter rc) = c.alone ↔ Harmless rc c := by
  obtain ⟨hcsp, hrc⟩ := h
  obtain ⟨type, htype⟩ := Option.isSome_iff_exists.mp hcsp
  have hd : disconnects rcInit = false := by decide
  have hc : cleans rcInit = true := by decide
  simp only [alone, rcAfter, hrc, Option.getD_none, dispose, htype, Disposal.mk.injEq, Harmless, hd, hc,
    Bool.true_and, Bool.false_and]
  cases disconnects rc <;> cases cleans rc <;> cases c.dataCleaner <;> simp

theorem dispose_not_skipped {c : Completed} (h : ¬c.Skipped) (rc : BitVec 32) :
    c.dispose (c.rcAfter rc) = c.alone := by
  cases hcsp : c.csp with
  | none => simp [alone, dispose, hcsp]
  | some type =>
    obtain ⟨x, hx⟩ : ∃ x, c.ownRc = some x :=
      Option.ne_none_iff_exists'.mp fun hnone => h ⟨by simp [hcsp], hnone⟩
    simp [alone, rcAfter, hx]

end Completed

/-- The loop body of the machine makes this disposal: the cleaner, `connection_lost` and the descriptor of the
connection follow it. -/
theorem disposeRequest_disposal (r : Nat) (rc : BitVec 32) (s : State Stage Worker) {c : Nat}
    (hc : (s.heap r).csp = some c) (responder : Option (BitVec 32)) :
    let d := Completed.dispose rc ⟨some (s.conns c).type, (s.heap r).cancelled, responder, (s.heap r).dataCleaner⟩
    (disposeRequest r rc s).trace.count (.cleaned r) = s.trace.count (.cleaned r) + d.cleanerRun.toNat ∧
      ((disposeRequest r rc s).conns c).lost = (s.conns c).lost + d.stateCleanedUp.toNat ∧
      ((disposeRequest r rc s).conns c).fdOpen = ((s.conns c).fdOpen && !d.connClosed) := by
  have hheap := keeps_of_offConns (offConns_disconnectConn r rc s) State.heap fun _ => rfl
  have hconns : (disposeRequest r rc s).conns c = ((disconnectConn r rc s).conns c).rele := by
    unfold disposeRequest dropCleaner
    split <;> simp [cleanupRequest, hheap, hc]
  refine ⟨?_, ?_, ?_⟩
  · rw [disposeRequest_trace]
    cases hcl : cleans rc <;> cases (s.heap r).dataCleaner <;> simp [Completed.dispose, hcl]
  · rw [hconns]
    cases hd : disconnects rc <;>
      simp [disconnectConn, hc, hd, Completed.dispose, connStateCleanup, modifyConn, ConnState.stateCleanup,
        ConnState.rele, ConnState.connectionLost, ConnState.eventDel, ConnState.touch, ConnState.connClose]
    cases (s.conns c).type <;> rfl
  · rw [hconns]
    cases hd : disconnects rc <;>
      simp [disconnectConn, hc, hd, Completed.dispose, connStateCleanup, modifyConn, ConnState.stateCleanup,
        ConnState.rele, ConnState.connectionLost, ConnState.eventDel, ConnState.touch, ConnState.connClose]
    cases (s.conns c).type <;> simp

theorem disposeBatch_eq_map (batch : List Completed) (rc : BitVec 32)
    (hrc : ∀ c ∈ batch, c.Skipped → c.Harmless rc)
    (hall : ∀ c ∈ batch, c.Skipped → ∀ d ∈ batch, ∀ x ∈ d.ownRc, c.Harmless x) :
    disposeBatch rc batch = batch.map Completed.alone := by
  induction batch generalizing rc with
  | nil => rfl
  | cons d batch ih =>
    have hhead : d.dispose (d.rcAfter rc) = d.alone := by
      by_cases hd : d.Skipped
      · exact (Completed.dispose_skipped_iff hd rc).mpr (hrc d List.mem_cons_self hd)
      · exact Completed.dispose_not_skipped hd rc
    rw [disposeBatch, List.map_cons, hhead, ih (d.rcAfter rc)]
    · intro c hc hskip
      cases hown : d.ownRc with
      | none => simpa [Completed.rcAfter, hown] using hrc c (List.mem_cons_of_mem _ hc) hskip
      | some x =>
        have := hall c (List.mem_cons_of_mem _ hc) hskip d List.mem_cons_self x hown
        simpa [Completed.rcAfter, hown] using this
    · intro c hc hskip e he
      exact hall c (List.mem_cons_of_mem _ hc) hskip e (List.mem_cons_of_mem _ he)

end Csf
