import Csf.Pipeline.Model

/-!
# `tcp_write`

The loop of `tcp_write` counts what `write` took, but it calls `write` with the whole buffer every time. What reaches
the socket is kept with its places in the buffer, so that a byte that is sent again is told from another one of the
same value. The number of bytes is a natural number: a buffer in memory is far shorter than `SIZE_MAX`.
-/

namespace Csf

/-- One round of the loop: what `write` returns, and `poll` after `EAGAIN`. -/
inductive WriteRound
  | wrote (n : Nat)
  | eagain (nready : Int)
  | eintr
  | failed
  deriving DecidableEq

/-- The loop of `tcp_write` with the bytes that were sent so far. The result is `none` while the loop still runs when
the rounds are used up. -/
def tcpWriteLoop (buf : List UInt8) (rounds : List WriteRound) (nwritten : Nat) (sent : List (UInt8 × Nat)) :
    Option Int × List (UInt8 × Nat) :=
  if nwritten < buf.length then
    match rounds with
    | [] => (none, sent)
    | .wrote rv :: rounds => tcpWriteLoop buf rounds (nwritten + rv) (sent ++ buf.zipIdx.take rv)
    | .eagain nready :: rounds => if nready = 0 then (some (-1), sent) else tcpWriteLoop buf rounds nwritten sent
    | .eintr :: rounds => tcpWriteLoop buf rounds nwritten sent
    | .failed :: _ => (some (-1), sent)
  else (some nwritten, sent)

def tcpWrite (buf : List UInt8) (rounds : List WriteRound) : Option Int × List (UInt8 × Nat) :=
  tcpWriteLoop buf rounds 0 []

/-- What the first `write` took that took anything. -/
def firstCount : List WriteRound → Option Nat
  | [] => none
  | .wrote rv :: rounds => if rv = 0 then firstCount rounds else some rv
  | _ :: rounds => firstCount rounds

section Loop

variable {buf : List UInt8} {rounds : List WriteRound} {nwritten : Nat} {sent sent' : List (UInt8 × Nat)} {r : Int}

theorem place_of_prefix {n k : Nat} {b : UInt8} (hn : n < buf.length)
    (h : buf.zipIdx.take n ++ [(b, k)] <+: buf.zipIdx) : n = k := by
  obtain ⟨rest, hrest⟩ := h
  have hlen : (buf.zipIdx.take n).length = n := by
    rw [List.length_take, List.length_zipIdx]
    omega
  have hat := congrArg (fun l => l[n]?) hrest
  simp [hlen, hn] at hat
  omega

theorem tcpWriteLoop_of_le (h : buf.length ≤ nwritten) :
    tcpWriteLoop buf rounds nwritten sent = (some (nwritten : Int), sent) := by
  unfold tcpWriteLoop
  rw [if_neg (Nat.not_lt.mpr h)]

theorem sent_prefix_tcpWriteLoop (buf : List UInt8) (rounds : List WriteRound) (nwritten : Nat)
    (sent : List (UInt8 × Nat)) : sent <+: (tcpWriteLoop buf rounds nwritten sent).2 := by
  induction rounds generalizing nwritten sent with
  | nil =>
    unfold tcpWriteLoop
    split <;> exact List.prefix_refl sent
  | cons round rounds ih =>
    unfold tcpWriteLoop
    split
    · cases round with
      | wrote rv => exact (List.prefix_append sent _).trans (ih _ _)
      | eagain nready =>
        dsimp only
        split
        · exact List.prefix_refl sent
        · exact ih _ _
      | eintr => exact ih _ _
      | failed => exact List.prefix_refl sent
    · exact List.prefix_refl sent

theorem first_byte_next (hloop : tcpWriteLoop buf rounds nwritten sent = (some r, sent')) (hr : 0 ≤ r)
    (hlt : nwritten < buf.length) : ∃ b, sent ++ [(b, 0)] <+: sent' := by
  induction rounds generalizing nwritten sent with
  | nil =>
    unfold tcpWriteLoop at hloop
    rw [if_pos hlt] at hloop
    cases hloop
  | cons round rounds ih =>
    unfold tcpWriteLoop at hloop
    rw [if_pos hlt] at hloop
    cases round with
    | wrote rv =>
      cases rv with
      | zero =>
        apply ih _ hlt
        simpa using hloop
      | succ rv =>
        obtain ⟨b, bs, rfl⟩ := List.exists_cons_of_length_pos (Nat.zero_lt_of_lt hlt)
        have hsent := sent_prefix_tcpWriteLoop (b :: bs) rounds (nwritten + (rv + 1))
          (sent ++ (b :: bs).zipIdx.take (rv + 1))
        dsimp only at hloop
        rw [hloop] at hsent
        refine ⟨b, List.IsPrefix.trans ?_ hsent⟩
        rw [List.zipIdx_cons, List.take_succ_cons, List.prefix_append_right_inj]
        exact List.prefix_append [(b, 0)] _
    | eagain nready =>
      dsimp only at hloop
      split at hloop
      · cases hloop
        omega
      · exact ih hloop hlt
    | eintr => exact ih hloop hlt
    | failed =>
      cases hloop
      omega

theorem tcpWriteLoop_exact_iff (hbuf : buf ≠ []) (hloop : tcpWriteLoop buf rounds 0 [] = (some r, sent')) (hr : 0 ≤ r) :
    sent' = buf.zipIdx ∧ r = buf.length ↔ firstCount rounds = some buf.length := by
  have hpos : 0 < buf.length := List.length_pos_of_ne_nil hbuf
  induction rounds with
  | nil =>
    unfold tcpWriteLoop at hloop
    rw [if_pos hpos] at hloop
    cases hloop
  | cons round rounds ih =>
    unfold tcpWriteLoop at hloop
    rw [if_pos hpos] at hloop
    cases round with
    | wrote rv =>
      rw [firstCount]
      rcases Nat.eq_zero_or_pos rv with rfl | hrv
      · rw [if_pos rfl]
        apply ih
        simpa using hloop
      rw [if_neg (by omega), Option.some.injEq]
      simp only [List.nil_append, Nat.zero_add] at hloop
      rcases Nat.lt_or_ge rv buf.length with hshort | hlong
      · -- the buffer is sent again from its start
        obtain ⟨b, hnext⟩ := first_byte_next hloop hr hshort
        refine ⟨fun ⟨hall, _⟩ => absurd ?_ (Nat.ne_of_gt hrv), fun h => absurd h (by omega)⟩
        rw [hall] at hnext
        exact place_of_prefix hshort hnext
      · rw [tcpWriteLoop_of_le hlong] at hloop
        cases hloop
        rw [List.take_of_length_le (by rw [List.length_zipIdx]; exact hlong)]
        exact ⟨fun h => by omega, fun h => ⟨rfl, by omega⟩⟩
    | eagain nready =>
      dsimp only at hloop
      split at hloop
      · cases hloop
        omega
      · exact ih hloop
    | eintr => exact ih hloop
    | failed =>
      cases hloop
      omega

end Loop

/-- A call of `tcp_write` that returns a non-negative value has sent the buffer once, in order, and returns its length,
exactly if the buffer is empty or the first `write` that took anything took all of it. -/
theorem buffer_delivered_iff {buf : List UInt8} {rounds : List WriteRound} {r : Int} {sent : List (UInt8 × Nat)}
    (hret : tcpWrite buf rounds = (some r, sent)) (hr : 0 ≤ r) :
    sent = buf.zipIdx ∧ r = buf.length ↔ buf = [] ∨ firstCount rounds = some buf.length := by
  by_cases hbuf : buf = []
  · subst hbuf
    rw [tcpWrite, tcpWriteLoop_of_le (Nat.zero_le _)] at hret
    cases hret
    exact ⟨fun _ => Or.inl rfl, fun _ => ⟨rfl, rfl⟩⟩
  · rw [tcpWriteLoop_exact_iff hbuf hret hr]
    exact ⟨Or.inr, fun h => h.resolve_left hbuf⟩

/-- Two attempts are interrupted, the third takes all three bytes. -/
theorem buffer_delivered_run :
    tcpWrite [7, 8, 9] [.eintr, .eagain 1, .wrote 3] = (some 3, [(7, 0), (8, 1), (9, 2)]) ∧
      ([(7, 0), (8, 1), (9, 2)] : List (UInt8 × Nat)) = [7, 8, 9].zipIdx := by
  have hret : tcpWrite [7, 8, 9] [.eintr, .eagain 1, .wrote 3] = (some 3, [(7, 0), (8, 1), (9, 2)]) := by decide
  exact ⟨hret, ((buffer_delivered_iff hret (by decide)).mpr (Or.inr (by decide))).1⟩

/-- `write` takes 1 byte and then 2: the first byte is sent twice, the last one not at all, and 3 is returned. -/
theorem first_byte_sent_twice :
    tcpWrite [7, 8, 9] [.wrote 1, .wrote 2] = (some 3, [(7, 0), (7, 0), (8, 1)]) ∧
      ([(7, 0), (7, 0), (8, 1)] : List (UInt8 × Nat)).map Prod.fst ≠ [7, 8, 9] := by
  decide

end Csf
