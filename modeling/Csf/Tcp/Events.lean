import Csf.Tcp.Model

/-!
# The event of a connection

A connection whose event is not pending gets no event any more, not even a timeout. The handlers of `tcp.c` return
through a dozen of exits; `AfterSends` says what the calls of `tcp_send_back` in between do to the event, and
`settled_readLoop` follows the exits of the read loop.
-/

namespace Csf

open Lib

/-! ### Calls of `tcp_send_back` -/

/-- A call that starts to fill an empty buffer: the direct write leaves something that fits, or is blocked. -/
def starts (x : Send) : Bool :=
  match x.write with
  | .failed .eintr | .failed .ewouldblock => decide (x.msg.length ≤ sendBufLen)
  | .failed _ => false
  | .wrote n => decide (x.msg.length ≠ n ∧ (x.msg.drop n).length ≤ sendBufLen)

/-- From `c` to `c'` there were calls of `tcp_send_back`; `started` says that one of them starts to fill a buffer. -/
structure AfterSends (started : Bool) (c c' : TcpConn) : Prop where
  type : c'.type = c.type
  fdOpen : c'.fdOpen = c.fdOpen
  cleanups : c'.cleanups = c.cleanups
  sent : c'.dataSent = c.dataSent
  stored : c.dataStored ≤ c'.dataStored
  same : c.dataStored ≠ 0 ∨ started = false → c'.armed = c.armed ∧ c'.evWrite = c.evWrite
  empty : started = false → c.dataStored = 0 → c'.dataStored = 0
  opened : started = true → c.dataStored = 0 → c'.armed.isSome ∧ c'.evWrite = true

namespace AfterSends

variable {b b' : Bool} {c c' c'' : TcpConn}

theorem refl (c : TcpConn) : AfterSends false c c :=
  ⟨rfl, rfl, rfl, rfl, le_rfl, fun _ => ⟨rfl, rfl⟩, fun _ => id, fun h => by cases h⟩

theorem trans (h : AfterSends b c c') (h' : AfterSends b' c' c'') : AfterSends (b || b') c c'' where
  type := h'.type.trans h.type
  fdOpen := h'.fdOpen.trans h.fdOpen
  cleanups := h'.cleanups.trans h.cleanups
  sent := h'.sent.trans h.sent
  stored := h.stored.trans h'.stored
  same hor := by
    have hstored := h.stored
    obtain ⟨ha, hw⟩ := h.same (hor.imp_right fun hb => (Bool.or_eq_false_iff.mp hb).1)
    obtain ⟨ha', hw'⟩ := h'.same (hor.imp (fun hne => by omega) fun hb => (Bool.or_eq_false_iff.mp hb).2)
    exact ⟨ha'.trans ha, hw'.trans hw⟩
  empty hb hc := by
    obtain ⟨hb, hb'⟩ := Bool.or_eq_false_iff.mp hb
    exact h'.empty hb' (h.empty hb hc)
  opened hb hc := by
    cases b with
    | false => exact h'.opened hb (h.empty rfl hc)
    | true =>
      -- once the event is armed for writing, later calls leave it so or arm it again
      obtain ⟨ha, hw⟩ := h.opened rfl hc
      by_cases hmore : c'.dataStored ≠ 0 ∨ b' = false
      · obtain ⟨ha', hw'⟩ := h'.same hmore
        exact ⟨ha' ▸ ha, hw'.trans hw⟩
      · obtain ⟨hc', hb'⟩ := not_or.mp hmore
        exact h'.opened (Bool.eq_true_of_not_eq_false hb') (not_not.mp hc')

theorem of_ne (h : AfterSends b c c') (hne : c.dataStored ≠ 0) (b' : Bool) : AfterSends b' c c' where
  type := h.type
  fdOpen := h.fdOpen
  cleanups := h.cleanups
  sent := h.sent
  stored := h.stored
  same _ := h.same (.inl hne)
  empty _ hc := absurd hc hne
  opened _ hc := absurd hc hne

theorem sendRest (timeout : UInt32) (data : List UInt8) (c : TcpConn) :
    AfterSends (decide (data.length ≤ sendBufLen)) c (sendRest timeout true data c).2 := by
  unfold Csf.sendRest
  by_cases hempty : c.dataStored = 0
  · rw [hempty, Nat.zero_add]
    by_cases hfit : data.length ≤ sendBufLen
    · rw [if_pos hfit, decide_eq_true hfit]
      exact ⟨rfl, rfl, rfl, rfl, Nat.le_add_right _ _, fun h => absurd hempty (h.resolve_right (by simp)),
        fun h => absurd h (by simp), fun _ _ => ⟨rfl, rfl⟩⟩
    · rw [if_neg hfit, decide_eq_false hfit]
      exact .refl c
  · refine of_ne (b := false) ?_ hempty _
    rw [if_neg hempty]
    split_ifs
    · exact ⟨rfl, rfl, rfl, rfl, Nat.le_add_right _ _, fun _ => ⟨rfl, rfl⟩, fun _ hc => absurd hc hempty,
        fun _ hc => absurd hc hempty⟩
    · exact .refl c

theorem tcpSendBack (timeout : UInt32) {x : Send} (hadded : x.added = true) {c : TcpConn} (htype : c.type = .tcp) :
    AfterSends (starts x) c (tcpSendBack timeout x c).2 := by
  unfold Csf.tcpSendBack
  rw [if_neg (not_not.mpr htype), hadded]
  by_cases hempty : c.dataStored = 0
  · rw [if_pos hempty]
    unfold starts
    cases x.write with
    | failed e =>
      cases e with
      | eintr | ewouldblock => exact sendRest timeout x.msg c
      | econnreset | other => exact .refl c
    | wrote n =>
      have hwritten : AfterSends false c { c with written := c.written ++ x.msg.take n } :=
        ⟨rfl, rfl, rfl, rfl, le_rfl, fun _ => ⟨rfl, rfl⟩, fun _ => id, fun h => absurd h (by simp)⟩
      simp only
      by_cases hall : x.msg.length = n
      · rw [if_pos hall, decide_eq_false (fun h => h.1 hall)]
        exact hwritten
      · rw [if_neg hall]
        simp only [ne_eq, hall, not_false_eq_true, true_and]
        exact hwritten.trans (sendRest timeout (x.msg.drop n) _)
  · rw [if_neg hempty]
    exact (sendRest timeout x.msg c).of_ne hempty _

theorem sendAll (timeout : UInt32) {xs : List Send} (hadded : ∀ x ∈ xs, x.added = true) {c : TcpConn}
    (htype : c.type = .tcp) : AfterSends (xs.any starts) c (sendAll timeout xs c) := by
  induction xs generalizing c with
  | nil => exact .refl c
  | cons x xs ih =>
    have hfirst := tcpSendBack timeout (hadded x List.mem_cons_self) htype
    exact hfirst.trans (ih (fun y hy => hadded y (List.mem_cons_of_mem _ hy)) (hfirst.type.trans htype))

end AfterSends

/-! ### The buffer between calls -/

/-- Something waits in the buffer, or it is empty and both offsets are back at its start. -/
def Tidy (c : TcpConn) : Prop := c.dataSent < c.dataStored ∨ c.dataSent = 0 ∧ c.dataStored = 0

def Covered (c : TcpConn) : Prop := c.dataSent < c.dataStored → c.evWrite = true

namespace AfterSends

variable {b : Bool} {c c' : TcpConn}

theorem tidy (h : AfterSends b c c') (ht : Tidy c) : Tidy c' := by
  have hsent := h.sent
  have hstored := h.stored
  unfold Tidy at ht ⊢
  omega

theorem covered_iff (h : AfterSends b c c') (ht : Tidy c) : Covered c' ↔ Covered c := by
  have hsent := h.sent
  have hstored := h.stored
  by_cases hempty : c.dataStored = 0
  · refine ⟨fun _ hlt => absurd hlt (by omega), fun _ hlt => ?_⟩
    cases b with
    | true => exact (h.opened rfl hempty).2
    | false =>
      have hstays := h.empty rfl hempty
      omega
  · obtain ⟨-, hwrite⟩ := h.same (.inl hempty)
    have hwaits : c.dataSent < c.dataStored := ht.resolve_right fun h0 => hempty h0.2
    unfold Covered
    rw [hwrite]
    exact ⟨fun h' _ => h' (by omega), fun h' _ => h' hwaits⟩

theorem armed_iff (h : AfterSends b c c') : c'.armed.isSome ↔ c.armed.isSome ∨ c.dataStored = 0 ∧ b = true := by
  by_cases hopen : c.dataStored = 0 ∧ b = true
  · exact ⟨fun _ => .inr hopen, fun _ => (h.opened hopen.2 hopen.1).1⟩
  · have hsame := h.same (by
      rcases not_and_or.mp hopen with hne | hb
      · exact .inl hne
      · exact .inr (Bool.eq_false_of_not_eq_true hb))
    rw [hsame.1]
    exact ⟨.inl, fun h' => h'.resolve_right hopen⟩

theorem armed_or_iff (h : AfterSends b c c') (later : Bool) :
    (c'.armed.isSome ∨ c'.dataStored = 0 ∧ later = true) ↔
      c.armed.isSome ∨ c.dataStored = 0 ∧ (b || later) = true := by
  have hstored := h.stored
  rw [h.armed_iff]
  cases b with
  | true =>
    constructor
    · rintro ((ha | ⟨hc, -⟩) | ⟨hc, -⟩)
      · exact .inl ha
      · exact .inr ⟨hc, rfl⟩
      · exact .inr ⟨by omega, rfl⟩
    · exact fun h' => .inl (h'.imp_right fun hc => ⟨hc.1, rfl⟩)
  | false =>
    constructor
    · rintro ((ha | ⟨-, hb⟩) | ⟨hc, hl⟩)
      · exact .inl ha
      · cases hb
      · exact .inr ⟨by omega, hl⟩
    · rintro (ha | ⟨hc, hl⟩)
      · exact .inl (.inl ha)
      · exact .inr ⟨h.empty rfl hc, hl⟩

end AfterSends

/-! ### The exits of the handlers -/

/-- How a handler is to leave a connection: closed and cleaned up once, or open with its event pending, for writing
too if something waits in the buffer. Every pending event has a timeout. -/
def Settled (c c' : TcpConn) : Prop :=
  c'.fdOpen = false ∧ c'.cleanups = c.cleanups + 1 ∨
    c'.fdOpen = true ∧ c'.cleanups = c.cleanups ∧ c'.armed.isSome ∧ Covered c'

inductive Ending
  /-- end of file, `ECONNRESET`, or the protocol disconnects -/
  | closes
  /-- `EWOULDBLOCK` -/
  | waits
  /-- another error -/
  | fails
  deriving DecidableEq

def ending : List ReadResult → Ending
  | [] => .fails
  | .failed .ewouldblock :: _ => .waits
  | .failed .econnreset :: _ => .closes
  | .failed _ :: _ => .fails
  | .eof :: _ => .closes
  | .data _ rc :: rs => if rc = protocolDisconnect then .closes else ending rs

/-- The calls of `tcp_send_back` that the protocol makes in the read loop. -/
def sendsOf : List ReadResult → List Send
  | .data sends rc :: rs => sends ++ if rc = protocolDisconnect then [] else sendsOf rs
  | _ => []

/-- `event_add` succeeds in the calls of `tcp_send_back` that the protocol makes. -/
def ReadResult.Adds : ReadResult → Prop
  | .data sends _ => ∀ x ∈ sends, x.added = true
  | _ => True

section
variable {c c' : TcpConn}

theorem settled_close (htype : c.type = .tcp) : Settled c (connCleanup (tcpConnClose c)) := by
  rw [tcpConnClose, if_neg (not_not.mpr htype)]
  exact .inl ⟨rfl, rfl⟩

theorem settled_iff_of_open (hopen : c'.fdOpen = true) (hcleanups : c'.cleanups = c.cleanups) :
    Settled c c' ↔ c'.armed.isSome ∧ Covered c' := by
  unfold Settled
  rw [hopen, hcleanups]
  simp

theorem settled_readLoop {timeout : UInt32} {rs : List ReadResult} (htype : c.type = .tcp) (hopen : c.fdOpen = true)
    (htidy : Tidy c) (hadds : ∀ r ∈ rs, r.Adds) (hret : readLoop timeout true rs c = (true, c')) :
    Settled c c' ↔ ending rs = .closes ∨
      (ending rs = .waits ∨ c.armed.isSome ∨ c.dataStored = 0 ∧ (sendsOf rs).any starts = true) ∧ Covered c := by
  induction rs generalizing c with
  | nil => cases hret
  | cons r rs ih =>
    cases r with
    | eof =>
      obtain rfl := (Prod.mk.inj hret).2
      exact ⟨fun _ => .inl rfl, fun _ => settled_close htype⟩
    | failed e =>
      cases e with
      | econnreset =>
        obtain rfl := (Prod.mk.inj hret).2
        exact ⟨fun _ => .inl rfl, fun _ => settled_close htype⟩
      | ewouldblock =>
        obtain rfl := (Prod.mk.inj hret).2
        refine (settled_iff_of_open (show (eventAdd timeout true c).fdOpen = true from hopen) rfl).trans ?_
        exact ⟨fun h => .inr ⟨.inl rfl, h.2⟩, fun h => ⟨rfl, (h.resolve_left (by simp [ending])).2⟩⟩
      | eintr | other =>
        obtain rfl := (Prod.mk.inj hret).2
        rw [settled_iff_of_open hopen rfl]
        simp [ending, sendsOf]
    | data sends rc =>
      have hsent := AfterSends.sendAll timeout (hadds (.data sends rc) List.mem_cons_self) htype
      rw [readLoop] at hret
      by_cases hrc : rc = protocolDisconnect
      · rw [if_pos hrc] at hret
        obtain rfl := (Prod.mk.inj hret).2
        have hclosed := settled_close (hsent.type.trans htype)
        unfold Settled at hclosed ⊢
        rw [hsent.cleanups] at hclosed
        exact ⟨fun _ => .inl (by rw [ending, if_pos hrc]), fun _ => hclosed⟩
      · rw [if_neg hrc] at hret
        have hrest := ih (hsent.type.trans htype) (hsent.fdOpen.trans hopen) (hsent.tidy htidy)
          (fun r hr => hadds r (List.mem_cons_of_mem _ hr)) hret
        have hsettled : Settled (sendAll timeout sends c) c' ↔ Settled c c' := by
          unfold Settled
          rw [hsent.cleanups]
        rw [← hsettled, hrest, hsent.covered_iff htidy, hsent.armed_or_iff, ending, if_neg hrc, sendsOf, if_neg hrc,
          List.any_append]

/-- What every write of `tcp_send_back_handler` keeps holds when it leaves its loop: at `EWOULDBLOCK`, with bytes left in
the buffer, or for its end. -/
theorem tcpSendBackHandler_rule {timeout : UInt32} {P Q : TcpConn → Prop} {ws : List WriteResult}
    (hwrote : ∀ d n, P d → P { d with written := d.written ++ d.pending.take n, dataSent := d.dataSent + n })
    (hwaits : ∀ d, P d → d.dataSent < d.dataStored → Q (eventAdd timeout true d))
    (hdone : ∀ d, P d → Q (sendBackDone timeout true d)) (h : P c)
    (hret : tcpSendBackHandler timeout true ws c = (true, c')) : Q c' := by
  induction ws generalizing c with
  | nil =>
    rw [tcpSendBackHandler] at hret
    split_ifs at hret
    · cases hret
    · obtain rfl := (Prod.mk.inj hret).2
      exact hdone c h
  | cons w ws ih =>
    rw [tcpSendBackHandler.eq_def] at hret
    split_ifs at hret with hleft
    · cases w with
      | wrote n => exact ih (hwrote c n h) hret
      | failed e =>
        cases e with
        | eintr => exact ih h hret
        | ewouldblock =>
          obtain rfl := (Prod.mk.inj hret).2
          exact hwaits c h hleft
        | econnreset | other =>
          obtain rfl := (Prod.mk.inj hret).2
          exact hdone c h
    · obtain rfl := (Prod.mk.inj hret).2
      exact hdone c h

theorem settled_sendBackHandler {timeout : UInt32} {ws : List WriteResult} (hopen : c.fdOpen = true)
    (hwrite : c.evWrite = true) (hret : tcpSendBackHandler timeout true ws c = (true, c')) : Settled c c' := by
  refine tcpSendBackHandler_rule
    (P := fun d => d.fdOpen = true ∧ d.cleanups = c.cleanups ∧ d.evWrite = true) (Q := Settled c)
    (fun _ _ hd => hd) ?_ ?_ ⟨hopen, rfl, hwrite⟩ hret
  · rintro d ⟨hd, hclean, hw⟩ -
    exact .inr ⟨hd, hclean, rfl, fun _ => hw⟩
  · rintro d ⟨hd, hclean, -⟩
    exact .inr ⟨hd, hclean, rfl, fun hlt => absurd hlt (Nat.lt_irrefl 0)⟩

end

/-! ### Runs of a connection -/

/-- Something happens to a connection: `tcp_send_back` is called outside of the handlers, or an event is delivered. -/
inductive TcpAct
  | send (x : Send)
  | event (event : TcpEvent) (env : Answers)

/-- `event_add` succeeds in the handler and in the calls of `tcp_send_back`. -/
def Answers.Adds (env : Answers) : Prop := env.added = true ∧ ∀ r ∈ env.reads, r.Adds

def TcpAct.Adds : TcpAct → Prop
  | .send x => x.added = true
  | .event _ env => env.Adds

instance (c : TcpConn) (event : TcpEvent) : Decidable (Deliverable c event) := by
  unfold Deliverable
  split <;> infer_instance

/-- A call for an open connection, or an event whose handler returns. -/
def tcpStep (timeout : UInt32) (c : TcpConn) : TcpAct → Option TcpConn
  | .send x => if c.fdOpen then some (tcpSendBack timeout x c).2 else none
  | .event event env =>
    if Deliverable c event then
      match deliver timeout event env c with
      | (true, c') => some c'
      | (false, _) => none
    else none

structure TcpInv (c : TcpConn) : Prop where
  type : c.type = .tcp
  tidy : Tidy c
  fdOpen : c.armed.isSome → c.fdOpen = true

namespace TcpInv

variable {c c' : TcpConn}

theorem afterSends {b : Bool} (h : TcpInv c) (hopen : c.fdOpen = true) (hs : AfterSends b c c') : TcpInv c' :=
  ⟨hs.type.trans h.type, hs.tidy h.tidy, fun _ => hs.fdOpen.trans hopen⟩

theorem close (h : TcpInv c) : TcpInv (connCleanup (tcpConnClose c)) := by
  rw [tcpConnClose, if_neg (not_not.mpr h.type)]
  exact ⟨h.type, h.tidy, fun ha => absurd ha (by simp [connCleanup, eventDel])⟩

theorem readLoop {timeout : UInt32} {rs : List ReadResult} (h : TcpInv c) (hopen : c.fdOpen = true)
    (hadds : ∀ r ∈ rs, r.Adds) (hret : readLoop timeout true rs c = (true, c')) : TcpInv c' := by
  induction rs generalizing c with
  | nil => cases hret
  | cons r rs ih =>
    cases r with
    | eof =>
      obtain rfl := (Prod.mk.inj hret).2
      exact h.close
    | failed e =>
      cases e with
      | econnreset =>
        obtain rfl := (Prod.mk.inj hret).2
        exact h.close
      | ewouldblock =>
        obtain rfl := (Prod.mk.inj hret).2
        exact ⟨h.type, h.tidy, fun _ => hopen⟩
      | eintr | other =>
        obtain rfl := (Prod.mk.inj hret).2
        exact h
    | data sends rc =>
      have hsent := AfterSends.sendAll timeout (hadds (.data sends rc) List.mem_cons_self) h.type
      have h₁ := h.afterSends hopen hsent
      rw [Csf.readLoop] at hret
      by_cases hrc : rc = protocolDisconnect
      · rw [if_pos hrc] at hret
        obtain rfl := (Prod.mk.inj hret).2
        exact h₁.close
      · rw [if_neg hrc] at hret
        exact ih h₁ (hsent.fdOpen.trans hopen) (fun r hr => hadds r (List.mem_cons_of_mem _ hr)) hret

theorem sendBackHandler {timeout : UInt32} {ws : List WriteResult} (htype : c.type = .tcp) (hopen : c.fdOpen = true)
    (hret : tcpSendBackHandler timeout true ws c = (true, c')) : TcpInv c' := by
  refine tcpSendBackHandler_rule (P := fun d => d.type = .tcp ∧ d.fdOpen = true) (Q := TcpInv) (fun _ _ hd => hd) ?_ ?_
    ⟨htype, hopen⟩ hret
  · rintro d ⟨ht, hd⟩ hleft
    exact ⟨ht, .inl hleft, fun _ => hd⟩
  · rintro d ⟨ht, hd⟩
    exact ⟨ht, .inr ⟨rfl, rfl⟩, fun _ => hd⟩

theorem open_of_deliverable (h : TcpInv c) {event : TcpEvent} (hdel : Deliverable c event) : c.fdOpen = true := by
  refine h.fdOpen ?_
  cases event with
  | timeout => exact hdel
  | _ => exact hdel.1

theorem eventDel (h : TcpInv c) : TcpInv (eventDel c) :=
  ⟨h.type, h.tidy, fun ha => absurd ha (by simp [Csf.eventDel])⟩

theorem connHandler {timeout : UInt32} {event : TcpEvent} {env : Answers} (h : TcpInv c) (hopen : c.fdOpen = true)
    (henv : env.Adds) (hret : tcpConnHandler timeout event env c = (true, c')) : TcpInv c' := by
  unfold tcpConnHandler at hret
  split_ifs at hret
  · obtain rfl := (Prod.mk.inj hret).2
    exact h.close
  · obtain rfl := (Prod.mk.inj hret).2
    exact h
  · rw [henv.1] at hret
    exact h.readLoop hopen henv.2 hret

theorem deliver {timeout : UInt32} {event : TcpEvent} {env : Answers} (h : TcpInv c) (henv : env.Adds)
    (hdel : Deliverable c event) (hret : deliver timeout event env c = (true, c')) : TcpInv c' := by
  have hopen := h.open_of_deliverable hdel
  unfold Csf.deliver at hret
  split at hret
  · exact h.eventDel.connHandler hopen henv hret
  · unfold tcpEventHandler at hret
    split_ifs at hret
    · exact h.eventDel.connHandler hopen henv hret
    · rw [henv.1] at hret
      exact sendBackHandler (c := Csf.eventDel c) h.type hopen hret
    · exact h.eventDel.connHandler hopen henv hret

end TcpInv

theorem tcpInv_step {timeout : UInt32} {c c' : TcpConn} {a : TcpAct} (h : TcpInv c) (ha : a.Adds)
    (hs : tcpStep timeout c a = some c') : TcpInv c' := by
  cases a with
  | send x =>
    rw [tcpStep] at hs
    split_ifs at hs with hopen
    obtain rfl := Option.some.inj hs
    exact h.afterSends hopen (.tcpSendBack timeout ha h.type)
  | event event env =>
    rw [tcpStep] at hs
    split_ifs at hs with hdel
    split at hs
    · rename_i c'' hret
      obtain rfl := Option.some.inj hs
      exact h.deliver ha hdel hret
    · cases hs

theorem tcpInv_made (timeout : UInt32) (buf : List UInt8) {sends : List Send} (hsends : ∀ x ∈ sends, x.added = true) :
    TcpInv (tcpMade timeout buf sends) := by
  have hstart : TcpInv (tcpAccepted buf) := ⟨rfl, .inr ⟨rfl, rfl⟩, fun _ => rfl⟩
  have hsent := hstart.afterSends rfl (.sendAll timeout hsends rfl)
  exact ⟨hsent.type, hsent.tidy, fun _ => (AfterSends.sendAll timeout hsends rfl).fdOpen⟩

/-! ### Every event -/

/-- The event is a timeout, or the buffer can be written, or the read loop is entered and ends well: it closes the
connection; or it ends with `EWOULDBLOCK`, or with another error after a call of `tcp_send_back` started to fill the
empty buffer, and the event covers what waited in the buffer when it was delivered. -/
def Keeps (c : TcpConn) (event : TcpEvent) (env : Answers) : Prop :=
  event = .timeout ∨ c.callback = .tcpEventHandler ∧ event = .write ∨
    env.fcntlOk = true ∧ (ending env.reads = .closes ∨
      (ending env.reads = .waits ∨ c.dataStored = 0 ∧ (sendsOf env.reads).any starts = true) ∧ Covered c)

theorem settled_connHandler {timeout : UInt32} {event : TcpEvent} {env : Answers} {c c' : TcpConn} (h : TcpInv c)
    (hopen : c.fdOpen = true) (harmed : c.armed = none) (henv : env.Adds)
    (hret : tcpConnHandler timeout event env c = (true, c')) :
    Settled c c' ↔ event = .timeout ∨ env.fcntlOk = true ∧ (ending env.reads = .closes ∨
      (ending env.reads = .waits ∨ c.dataStored = 0 ∧ (sendsOf env.reads).any starts = true) ∧ Covered c) := by
  unfold tcpConnHandler at hret
  split_ifs at hret with htimeout hfcntl
  · obtain rfl := (Prod.mk.inj hret).2
    exact ⟨fun _ => .inl htimeout, fun _ => settled_close h.type⟩
  · obtain rfl := (Prod.mk.inj hret).2
    rw [settled_iff_of_open hopen rfl, harmed, hfcntl]
    simp [htimeout]
  · rw [henv.1] at hret
    rw [settled_readLoop h.type hopen h.tidy henv.2 hret, harmed, Bool.eq_true_of_not_eq_false hfcntl]
    simp [htimeout]

/-- **No orphaned connection.** In every state of every run of a connection, for every event that can be delivered and
every sequence of answers: the handler leaves the connection closed and cleaned up once, or open with its event
pending and for writing too if something waits in the buffer, exactly under this condition. -/
theorem event_settled_iff (timeout : UInt32) {buf : List UInt8} {sends : List Send}
    (hsends : ∀ x ∈ sends, x.added = true) {c : TcpConn}
    (h : Reach (tcpStep timeout) (fun _ a _ => a.Adds) (tcpMade timeout buf sends) c) {event : TcpEvent}
    {env : Answers} (henv : env.Adds) (hdel : Deliverable c event) {c' : TcpConn}
    (hret : deliver timeout event env c = (true, c')) : Settled c c' ↔ Keeps c event env := by
  have hinv : TcpInv c := h.invariant (tcpInv_made timeout buf hsends) fun _ _ _ hI ha hs => tcpInv_step hI ha hs
  have hopen := hinv.open_of_deliverable hdel
  have hconn : tcpConnHandler timeout event env (eventDel c) = (true, c') →
      ¬(c.callback = .tcpEventHandler ∧ event = .write) → (Settled c c' ↔ Keeps c event env) := by
    intro hconn hnot
    refine (settled_connHandler hinv.eventDel hopen rfl henv hconn).trans ?_
    unfold Keeps
    rw [or_iff_right hnot]
    rfl
  unfold deliver at hret
  split at hret
  · rename_i hcallback
    exact hconn hret fun hw => by simp [hcallback] at hw
  · rename_i hcallback
    unfold tcpEventHandler at hret
    split_ifs at hret with hread hwrite
    · exact hconn hret fun hw => by simp [hread] at hw
    · subst hwrite
      rw [henv.1] at hret
      have hsettled := settled_sendBackHandler (c := eventDel c) hopen hdel.2 hret
      exact ⟨fun _ => .inr (.inl ⟨hcallback, rfl⟩), fun _ => hsettled⟩
    · exact hconn hret fun hw => hwrite hw.2

/-- A message of three bytes of which `write` takes one. -/
def cutSend : Send := ⟨[1, 2, 3], .wrote 1, true⟩

/-- A connection to which the session start of the protocol sends `sends`. -/
def newConn (sends : List Send) : TcpConn := tcpMade 5 (List.replicate sendBufLen 0) sends

/-- The protocol answers what is read with a message that is cut: the event is pending for reading and writing. -/
theorem event_settled_run :
    ∃ c', deliver 5 .read ⟨true, [.data [cutSend] 0, .failed .ewouldblock], [], true⟩ (newConn []) = (true, c') ∧
      c'.armed = some 5 ∧ c'.evWrite = true ∧ c'.dataSent < c'.dataStored ∧ Settled (newConn []) c' := by
  have henv : Answers.Adds ⟨true, [.data [cutSend] 0, .failed .ewouldblock], [], true⟩ := by
    refine ⟨rfl, fun r hr => ?_⟩
    simp only [List.mem_cons, List.not_mem_nil, or_false] at hr
    rcases hr with rfl | rfl
    · intro x hx
      rw [List.mem_singleton.mp hx]
      rfl
    · trivial
  have hdel : Deliverable (newConn []) .read := ⟨rfl, rfl⟩
  have hkeeps : Keeps (newConn []) .read ⟨true, [.data [cutSend] 0, .failed .ewouldblock], [], true⟩ :=
    .inr (.inr ⟨rfl, .inr ⟨.inl rfl, fun hlt => absurd hlt (by decide)⟩⟩)
  exact ⟨_, rfl, rfl, rfl, by decide, (event_settled_iff 5 (by simp) .init henv hdel rfl).mpr hkeeps⟩

/-- The first `read` of a new connection fails with `ETIMEDOUT` (110): the handler returns, the descriptor stays open
and nothing is pending. And a connection to which the session start sent a message that was cut: after an event that
finds nothing to read, its event is pending for reading only, while two bytes wait in the buffer. -/
theorem connection_orphaned :
    (∃ c', Deliverable (newConn []) .read ∧
      deliver 5 .read ⟨true, [.failed (.other 110)], [], true⟩ (newConn []) = (true, c') ∧
      c'.fdOpen = true ∧ c'.armed = none ∧ c'.cleanups = 0 ∧ ¬Settled (newConn []) c') ∧
    ∃ c', Deliverable (newConn [cutSend]) .read ∧
      deliver 5 .read ⟨true, [.failed .ewouldblock], [], true⟩ (newConn [cutSend]) = (true, c') ∧
      c'.pending = [2, 3] ∧ c'.evWrite = false ∧ ¬Settled (newConn [cutSend]) c' := by
  constructor
  · refine ⟨_, ⟨rfl, rfl⟩, rfl, rfl, rfl, rfl, fun h => ?_⟩
    rcases h with ⟨hclosed, -⟩ | ⟨-, -, harmed, -⟩
    · cases hclosed
    · cases harmed
  · refine ⟨_, ⟨rfl, rfl⟩, rfl, by decide +kernel, rfl, fun h => ?_⟩
    rcases h with ⟨hclosed, -⟩ | ⟨-, -, -, hcovered⟩
    · cases hclosed
    · exact absurd (hcovered (by decide)) (by decide)

end Csf
