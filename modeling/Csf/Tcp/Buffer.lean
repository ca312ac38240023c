import Csf.Tcp.Model

/-!
# The send buffer

What was written to the socket followed by what waits in the buffer is what `tcp_send_back` accepted, in the order of
its calls, however much each `write` takes.
-/

namespace Csf

open Lib

/-- A call of `tcp_send_back`, or of `tcp_send_back_handler` with the results of its writes. A list of results may
stop before the handler returns, so that the states inside its loop are states of a run, too. -/
inductive SendAct
  | sendBack (x : Send)
  | handler (ws : List WriteResult)

/-- A call, next to the concatenation of the messages whose `tcp_send_back` returned 0. -/
def sendStep (timeout : UInt32) (x : TcpConn × List UInt8) : SendAct → Option (TcpConn × List UInt8)
  | .sendBack s =>
    let out := tcpSendBack timeout s x.1
    some (out.2, if out.1 = 0 then x.2 ++ s.msg else x.2)
  | .handler ws => some ((tcpSendBackHandler timeout true ws x.1).2, x.2)

/-- `write` of `n` bytes takes some of them, or fails with `EINTR` or `EWOULDBLOCK`. -/
def WriteResult.Fine (n : Nat) : WriteResult → Prop
  | .wrote k => k ≤ n
  | .failed .eintr | .failed .ewouldblock => True
  | .failed _ => False

def WriteResult.taken : WriteResult → Nat
  | .wrote k => k
  | .failed _ => 0

/-- The writes of a loop that has `n` bytes to write. -/
def FineWrites : Nat → List WriteResult → Prop
  | _, [] => True
  | n, w :: ws => w.Fine n ∧ FineWrites (n - w.taken) ws

/-- The calls of a run: messages that fit into the buffer, and no other error than those two. -/
def FineCall (c : TcpConn) : SendAct → Prop
  | .sendBack x => x.msg.length ≤ sendBufLen ∧ x.write.Fine x.msg.length ∧ x.added = true
  | .handler ws => FineWrites (c.dataStored - c.dataSent) ws

structure SendInv (c : TcpConn) (acc : List UInt8) : Prop where
  length : c.dataBuf.length = sendBufLen
  sent : c.dataSent ≤ c.dataStored
  stored : c.dataStored ≤ sendBufLen
  bytes : c.written ++ c.pending = acc

namespace SendInv

variable {c : TcpConn} {acc : List UInt8}

theorem events (h : SendInv c acc) (r w : Bool) (cb : Callback) (t : Option UInt32) :
    SendInv { c with evRead := r, evWrite := w, callback := cb, armed := t } acc :=
  ⟨h.length, h.sent, h.stored, h.bytes⟩

theorem store (h : SendInv c acc) {data : List UInt8} (hfit : c.dataStored + data.length ≤ sendBufLen) :
    SendInv (store data c) (acc ++ data) where
  length := (length_overwrite (by rw [h.length]; exact hfit)).trans h.length
  sent := h.sent.trans (Nat.le_add_right _ _)
  stored := hfit
  bytes := by
    have hwindow := window_overwrite data h.sent (by rw [h.length]; exact h.stored)
    rw [TcpConn.pending, Csf.store, hwindow, ← List.append_assoc]
    exact congrArg (· ++ data) h.bytes

theorem sendRest (h : SendInv c acc) (timeout : UInt32) (data : List UInt8) :
    SendInv (sendRest timeout true data c).2 (if (sendRest timeout true data c).1 = 0 then acc ++ data else acc) := by
  unfold Csf.sendRest
  by_cases hfit : c.dataStored + data.length ≤ sendBufLen
  · rw [if_pos hfit]
    by_cases hempty : c.dataStored = 0
    · rw [if_pos hempty]
      exact (h.events true true .tcpEventHandler (some timeout)).store hfit
    · rw [if_neg hempty]
      exact h.store hfit
  · rw [if_neg hfit]
    exact h

theorem sendRest_eq_zero {timeout : UInt32} {data : List UInt8} (hempty : c.dataStored = 0)
    (hlen : data.length ≤ sendBufLen) : (Csf.sendRest timeout true data c).1 = 0 := by
  rw [Csf.sendRest, if_pos (by rw [hempty, Nat.zero_add]; exact hlen), if_pos hempty]
  rfl

theorem afterWrite {timeout : UInt32} {msg : List UInt8} {n : Nat} (h : SendInv c (acc ++ msg.take n))
    (hempty : c.dataStored = 0) (hlen : msg.length ≤ sendBufLen) :
    let out := if msg.length = n then (0, c) else Csf.sendRest timeout true (msg.drop n) c
    SendInv out.2 (if out.1 = 0 then acc ++ msg else acc) := by
  by_cases hall : msg.length = n
  · simp only [if_pos hall]
    rw [List.take_of_length_le hall.le] at h
    exact h
  · have hrest := h.sendRest timeout (msg.drop n)
    have hzero : (Csf.sendRest timeout true (msg.drop n) c).1 = 0 :=
      sendRest_eq_zero hempty (by rw [List.length_drop]; omega)
    rw [if_pos hzero, List.append_assoc, List.take_append_drop] at hrest
    simp only [if_neg hall, if_pos hzero]
    exact hrest

theorem tcpSendBack (h : SendInv c acc) (timeout : UInt32) {x : Send} (hx : FineCall c (.sendBack x)) :
    SendInv (tcpSendBack timeout x c).2 (if (tcpSendBack timeout x c).1 = 0 then acc ++ x.msg else acc) := by
  obtain ⟨hlen, hwrite, hadded⟩ := hx
  unfold Csf.tcpSendBack
  rw [hadded]
  by_cases htype : c.type ≠ .tcp
  · rw [if_pos htype]
    exact h
  rw [if_neg htype]
  by_cases hempty : c.dataStored = 0
  · rw [if_pos hempty]
    cases hw : x.write with
    | failed e =>
      rw [hw] at hwrite
      cases e with
      | eintr | ewouldblock => exact h.sendRest timeout x.msg
      | econnreset | other => exact absurd hwrite id
    | wrote n =>
      rw [hw] at hwrite
      have hdirect : SendInv { c with written := c.written ++ x.msg.take n } (acc ++ x.msg.take n) := by
        have hsent : c.dataSent = 0 := Nat.le_zero.mp (hempty ▸ h.sent)
        have hnone : c.pending = [] := by rw [TcpConn.pending, hempty, hsent, window_self]
        refine ⟨h.length, h.sent, h.stored, ?_⟩
        have hbytes := h.bytes
        rw [hnone, List.append_nil] at hbytes
        rw [hbytes]
        exact (congrArg (_ ++ ·) hnone).trans (List.append_nil _)
      exact hdirect.afterWrite hempty hlen
  · rw [if_neg hempty]
    exact h.sendRest timeout x.msg

theorem sendBackDone (h : SendInv c acc) (timeout : UInt32) (hnone : c.pending = []) :
    SendInv (sendBackDone timeout true c) acc where
  length := (List.length_set ..).trans h.length
  sent := le_rfl
  stored := Nat.zero_le _
  bytes := by
    have hbytes := h.bytes
    rw [hnone] at hbytes
    exact hbytes

theorem tcpSendBackHandler (h : SendInv c acc) (timeout : UInt32) {ws : List WriteResult}
    (hws : FineWrites (c.dataStored - c.dataSent) ws) : SendInv (tcpSendBackHandler timeout true ws c).2 acc := by
  induction ws generalizing c with
  | nil =>
    rw [Csf.tcpSendBackHandler.eq_def]
    split_ifs with hleft
    · exact h
    · refine h.sendBackDone timeout ?_
      rw [TcpConn.pending, Nat.le_antisymm h.sent (Nat.le_of_not_lt hleft), window_self]
  | cons w ws ih =>
    obtain ⟨hfine, hrest⟩ := hws
    rw [Csf.tcpSendBackHandler.eq_def]
    split_ifs with hleft
    · cases w with
      | wrote n =>
        have hn : n ≤ c.dataStored - c.dataSent := hfine
        refine ih ⟨h.length, ?_, h.stored, ?_⟩ ?_
        · change c.dataSent + n ≤ c.dataStored
          omega
        · change c.written ++ c.pending.take n ++ window c.dataBuf (c.dataSent + n) c.dataStored = acc
          rw [window_add, List.append_assoc, ← TcpConn.pending, List.take_append_drop]
          exact h.bytes
        · rw [Nat.sub_sub] at hrest
          exact hrest
      | failed e =>
        cases e with
        | eintr => exact ih h hrest
        | ewouldblock => exact h.events c.evRead c.evWrite c.callback (some timeout)
        | econnreset | other => exact absurd hfine id
    · refine h.sendBackDone timeout ?_
      rw [TcpConn.pending, Nat.le_antisymm h.sent (Nat.le_of_not_lt hleft), window_self]

end SendInv

theorem sendInv_step {timeout : UInt32} {x x' : TcpConn × List UInt8} {a : SendAct} (h : SendInv x.1 x.2)
    (hfine : FineCall x.1 a) (hs : sendStep timeout x a = some x') : SendInv x'.1 x'.2 := by
  cases a with
  | sendBack s =>
    obtain rfl := Option.some.inj hs
    exact h.tcpSendBack timeout hfine
  | handler ws =>
    obtain rfl := Option.some.inj hs
    exact h.tcpSendBackHandler timeout hfine

/-- **The send buffer.** After every sequence of calls, the bytes written to the socket followed by those that wait in
the buffer are the messages that were accepted, and the two offsets are in order and inside the buffer. -/
theorem buffered_send (timeout : UInt32) {buf : List UInt8} (hbuf : buf.length = sendBufLen) {c : TcpConn}
    {acc : List UInt8}
    (h : Reach (sendStep timeout) (fun x a _ => FineCall x.1 a) (tcpAccepted buf, []) (c, acc)) :
    c.written ++ c.pending = acc ∧ c.dataSent ≤ c.dataStored ∧ c.dataStored ≤ sendBufLen := by
  have hinit : SendInv (tcpAccepted buf) [] :=
    ⟨(List.length_set ..).trans hbuf, le_rfl, Nat.zero_le _, by simp [tcpAccepted, TcpConn.pending]⟩
  have hinv : SendInv c acc := h.invariant (I := fun x => SendInv x.1 x.2) hinit
    fun _ _ _ hI hfine hs => sendInv_step hI hfine hs
  exact ⟨hinv.bytes, hinv.sent, hinv.stored⟩

instance (n : Nat) (w : WriteResult) : Decidable (w.Fine n) := by
  unfold WriteResult.Fine
  split <;> infer_instance

instance decidableFineWrites : (n : Nat) → (ws : List WriteResult) → Decidable (FineWrites n ws)
  | _, [] => .isTrue trivial
  | n, w :: ws =>
    have := decidableFineWrites (n - w.taken) ws
    inferInstanceAs (Decidable (w.Fine n ∧ FineWrites (n - w.taken) ws))

instance (c : TcpConn) (a : SendAct) : Decidable (FineCall c a) := by
  unfold FineCall
  split <;> infer_instance

/-- A message is cut by the direct write, a second one waits behind it, and the handler writes a part of both. -/
theorem buffered_send_run :
    ∃ c, Reach (sendStep 5) (fun x a _ => FineCall x.1 a) (tcpAccepted (List.replicate sendBufLen 7), [])
        (c, [1, 2, 3, 4, 5]) ∧
      c.written = [1, 2, 3, 4] ∧ c.pending = [5] ∧ c.written ++ c.pending = [1, 2, 3, 4, 5] := by
  obtain ⟨⟨c, acc⟩, hc, rfl, hwritten, hpending⟩ := exists_reach (sendStep 5) (fun x a _ => FineCall x.1 a)
    (tcpAccepted (List.replicate sendBufLen 7), [])
    [.sendBack ⟨[1, 2, 3], .wrote 1, true⟩, .sendBack ⟨[4, 5], .failed .eintr, true⟩,
      .handler [.failed .eintr, .wrote 3, .failed .ewouldblock]]
    (P := fun x => x.2 = [1, 2, 3, 4, 5] ∧ x.1.written = [1, 2, 3, 4] ∧ x.1.pending = [5]) (by decide +kernel)
  exact ⟨c, hc, hwritten, hpending, (buffered_send 5 (List.length_replicate ..) hc).1⟩

/-! ### Calls that fail -/

/-- The stream is the same in both states: what was written, and what waits. -/
structure SameStream (c c' : TcpConn) : Prop where
  written : c'.written = c.written
  dataSent : c'.dataSent = c.dataSent
  dataStored : c'.dataStored = c.dataStored
  pending : c'.pending = c.pending

theorem SameStream.refl (c : TcpConn) : SameStream c c := ⟨rfl, rfl, rfl, rfl⟩

theorem sendRest_fails_iff (timeout : UInt32) (added : Bool) (data : List UInt8) (c : TcpConn) :
    (sendRest timeout added data c).1 = -1 ↔
      sendBufLen < c.dataStored + data.length ∨ c.dataStored = 0 ∧ added = false := by
  rw [sendRest]
  by_cases hfits : c.dataStored + data.length ≤ sendBufLen
  · rw [if_pos hfits]
    have hnot : ¬ sendBufLen < c.dataStored + data.length := Nat.not_lt.mpr hfits
    by_cases hempty : c.dataStored = 0
    · cases added <;> simp [hempty]
      omega
    · simp [hempty, hnot]
  · rw [if_neg hfits]
    simp [Nat.not_le.mp hfits]

theorem sendRest_sameStream {timeout : UInt32} {added : Bool} {data : List UInt8} {c : TcpConn}
    (h : (sendRest timeout added data c).1 = -1) : SameStream c (sendRest timeout added data c).2 := by
  unfold sendRest at h ⊢
  by_cases hfits : c.dataStored + data.length ≤ sendBufLen
  · rw [if_pos hfits] at h ⊢
    by_cases hempty : c.dataStored = 0
    · rw [if_pos hempty] at h ⊢
      cases added with
      | false => exact ⟨rfl, rfl, rfl, rfl⟩
      | true => simp at h
    · rw [if_neg hempty] at h
      simp at h
  · rw [if_neg hfits]
    exact SameStream.refl c

theorem sendRest_atomic_iff {timeout : UInt32} {added : Bool} {msg : List UInt8} {c : TcpConn} {n : Nat}
    (hempty : c.dataStored = 0) (hle : n ≤ msg.length) :
    ((sendRest timeout added (msg.drop n) { c with written := c.written ++ msg.take n }).1 = -1 →
        SameStream c (sendRest timeout added (msg.drop n) { c with written := c.written ++ msg.take n }).2) ↔
      ¬ (0 < n ∧ (sendBufLen < msg.length - n ∨ added = false)) := by
  have hfails : (sendRest timeout added (msg.drop n) { c with written := c.written ++ msg.take n }).1 = -1 ↔
      sendBufLen < msg.length - n ∨ added = false := by
    rw [sendRest_fails_iff]
    simp [hempty]
  constructor
  · rintro h ⟨hpos, hrefused⟩
    -- the call fails, and a part of the message is on its way
    have hsame := h (hfails.mpr hrefused)
    have hrest := sendRest_sameStream (hfails.mpr hrefused)
    have hnil : msg.take n = [] := List.self_eq_append_right.mp (hsame.written.symm.trans hrest.written)
    rcases List.take_eq_nil_iff.mp hnil with hzero | hmsg
    · omega
    · rw [hmsg, List.length_nil] at hle
      omega
  · intro hnot hfail
    have hzero : n = 0 := by
      by_contra hpos
      exact hnot ⟨Nat.pos_of_ne_zero hpos, hfails.mp hfail⟩
    subst hzero
    have hrest := sendRest_sameStream hfail
    exact ⟨hrest.written.trans (List.append_nil _), hrest.dataSent, hrest.dataStored, hrest.pending⟩

/-- The direct write takes a part of the message, and the rest is then refused: it is longer than the buffer, or
`event_add` fails. -/
def CutAndRefused (c : TcpConn) (x : Send) : Prop :=
  c.type = .tcp ∧ c.dataStored = 0 ∧ ∃ n, x.write = .wrote n ∧ 0 < n ∧ n < x.msg.length ∧
    (sendBufLen < x.msg.length - n ∨ x.added = false)

/-- A call of `tcp_send_back` that fails leaves the stream alone, unless it has written a part of the message and then
refuses the rest; `write` never takes more than it is given. -/
theorem failed_send_atomic_iff (timeout : UInt32) (c : TcpConn) (x : Send)
    (hwrite : ∀ n, x.write = .wrote n → n ≤ x.msg.length) :
    ((tcpSendBack timeout x c).1 = -1 → SameStream c (tcpSendBack timeout x c).2) ↔ ¬ CutAndRefused c x := by
  rw [tcpSendBack]
  by_cases htcp : c.type = .tcp
  swap
  · rw [if_pos htcp]
    exact ⟨fun _ hcut => htcp hcut.1, fun _ _ => SameStream.refl c⟩
  rw [if_neg (not_not_intro htcp)]
  by_cases hempty : c.dataStored = 0
  swap
  · rw [if_neg hempty]
    exact ⟨fun _ hcut => hempty hcut.2.1, fun _ => sendRest_sameStream⟩
  rw [if_pos hempty]
  cases hres : x.write with
  | failed e =>
    -- nothing was written, whatever the error
    have hnot : ¬ CutAndRefused c x := by
      rintro ⟨-, -, n, hn, -⟩
      rw [hres] at hn
      cases hn
    refine ⟨fun _ => hnot, fun _ => ?_⟩
    cases e with
    | eintr => exact sendRest_sameStream
    | ewouldblock => exact sendRest_sameStream
    | econnreset => exact fun _ => SameStream.refl c
    | other code => exact fun _ => SameStream.refl c
  | wrote n =>
    have hle : n ≤ x.msg.length := hwrite n hres
    dsimp only
    by_cases hall : x.msg.length = n
    · rw [if_pos hall]
      refine ⟨fun _ hcut => ?_, fun _ h => by cases h⟩
      obtain ⟨-, -, k, hk, -, hlt, -⟩ := hcut
      cases hres.symm.trans hk
      omega
    rw [if_neg hall, sendRest_atomic_iff hempty hle, not_iff_not]
    constructor
    · rintro ⟨hpos, hrefused⟩
      exact ⟨htcp, hempty, n, hres, hpos, by omega, hrefused⟩
    · rintro ⟨-, -, k, hk, hpos, -, hrefused⟩
      cases hres.symm.trans hk
      exact ⟨hpos, hrefused⟩

def freshConn : TcpConn := tcpAccepted (List.replicate sendBufLen 0)

/-- A message of 3 bytes that `write` takes nothing of, with an event that cannot be added. -/
theorem failed_send_atomic_run :
    (tcpSendBack 5 ⟨[1, 2, 3], .failed .ewouldblock, false⟩ freshConn).1 = -1 ∧
      SameStream freshConn (tcpSendBack 5 ⟨[1, 2, 3], .failed .ewouldblock, false⟩ freshConn).2 := by
  have hret : (tcpSendBack 5 ⟨[1, 2, 3], .failed .ewouldblock, false⟩ freshConn).1 = -1 := by decide +kernel
  refine ⟨hret, (failed_send_atomic_iff 5 freshConn ⟨[1, 2, 3], .failed .ewouldblock, false⟩ ?_).mpr ?_ hret⟩
  · intro n hn
    cases hn
  · rintro ⟨-, -, n, hn, -⟩
    cases hn

/-- A message of 1026 bytes: `write` takes the first, and the other 1025 do not fit into the buffer. -/
theorem failed_send_leaves_byte :
    (tcpSendBack 5 ⟨List.replicate 1026 7, .wrote 1, true⟩ freshConn).1 = -1 ∧
      (tcpSendBack 5 ⟨List.replicate 1026 7, .wrote 1, true⟩ freshConn).2.written = [7] ∧
      ¬ SameStream freshConn (tcpSendBack 5 ⟨List.replicate 1026 7, .wrote 1, true⟩ freshConn).2 := by
  have hwritten : (tcpSendBack 5 ⟨List.replicate 1026 7, .wrote 1, true⟩ freshConn).2.written = [7] := by
    decide +kernel
  refine ⟨by decide +kernel, hwritten, fun h => ?_⟩
  have hnil := hwritten.symm.trans h.written
  cases hnil

end Csf
