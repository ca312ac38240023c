import Csf.Pipeline.Complete
import Mathlib.Tactic.Common

/-!
# One connection block

A `CONN_STATE` is held once by the connection itself, until `connection_lost` is called for it, and once by
every request submitted on it, until `cleanup_request` frees the request. `ConnOk` is what this means for one
block with `n` outstanding requests, and the operations of the source on a block keep it.
-/

namespace Csf

theorem toNat_sub_one {x : UInt64} (h : 0 < x.toNat) : (x - 1).toNat + 1 = x.toNat := by
  have hle : (1 : UInt64) ≤ x := by
    rw [UInt64.le_iff_toNat_le]
    exact h
  rw [UInt64.toNat_sub_of_le _ _ hle, UInt64.toNat_one]
  omega

structure ConnOk (cs : ConnState) (n : Nat) : Prop where
  lost_le : cs.lost ≤ 1
  refCnt : cs.refCnt.toNat + cs.lost = 1 + n
  freed : cs.freed = if cs.lost = 1 ∧ n = 0 then 1 else 0
  untouched : cs.touchedAfterFree = false
  armed : cs.armed = true → cs.lost = 0 ∧ cs.type = .tcp
  fd : cs.type = .tcp → (cs.fdOpen = true ↔ cs.lost = 0)

namespace ConnOk

variable {cs : ConnState} {n : Nat}

theorem made (type : ConnType) (armed : Bool) (h : armed = true → type = .tcp) :
    ConnOk ⟨type, true, armed, 1, 0, 0, false⟩ 0 :=
  ⟨Nat.zero_le _, rfl, rfl, rfl, fun ha => ⟨rfl, h ha⟩, fun _ => by simp⟩

theorem freed_eq_zero (h : ConnOk cs n) (hn : cs.lost = 0 ∨ n ≠ 0) : cs.freed = 0 := by
  rw [h.freed, if_neg]
  rintro ⟨hlost, rfl⟩
  rcases hn with hn | hn
  · omega
  · exact hn rfl

theorem touch_eq (h : ConnOk cs n) (hn : cs.lost = 0 ∨ n ≠ 0) : cs.touch = cs := by
  have := h.freed_eq_zero hn
  cases cs
  simp_all [ConnState.touch]

theorem hold (h : ConnOk cs n) (hn : cs.lost = 0 ∨ n ≠ 0) (hfit : n + 2 < 2 ^ 64) : ConnOk cs.hold (n + 1) := by
  have hfreed := h.freed_eq_zero hn
  have href := h.refCnt
  have hlost := h.lost_le
  rw [ConnState.hold, h.touch_eq hn]
  refine ⟨hlost, ?_, ?_, h.untouched, h.armed, h.fd⟩
  · simp only [UInt64.toNat_add, UInt64.toNat_one]
    omega
  · simp [hfreed]

theorem rele (h : ConnOk cs (n + 1)) : ConnOk cs.rele n := by
  have hfreed := h.freed_eq_zero (.inr (by omega))
  have href := h.refCnt
  have hlost := h.lost_le
  have hsub := toNat_sub_one (x := cs.refCnt) (by omega)
  have hzero : cs.refCnt - 1 = 0 ↔ cs.lost = 1 ∧ n = 0 := by
    rw [← UInt64.toNat_inj, UInt64.toNat_zero]
    omega
  rw [ConnState.rele, h.touch_eq (.inr (by omega))]
  refine ⟨hlost, ?_, ?_, h.untouched, h.armed, h.fd⟩
  · simp only
    omega
  · simp only [hzero, hfreed]

theorem lose (h : ConnOk cs n) (hlost : cs.lost = 0) {cs' : ConnState} (htype : cs'.type = cs.type)
    (hfd : cs.type = .tcp → cs'.fdOpen = false) (harmed : cs'.armed = false) (href : cs'.refCnt = cs.refCnt - 1)
    (hlost' : cs'.lost = 1) (hfreed : cs'.freed = if cs.refCnt - 1 = 0 then cs.freed + 1 else cs.freed)
    (htouch : cs'.touchedAfterFree = cs.touchedAfterFree) : ConnOk cs' n := by
  have hnot := h.freed_eq_zero (.inl hlost)
  have hcnt := h.refCnt
  have hsub := toNat_sub_one (x := cs.refCnt) (by omega)
  have hzero : cs.refCnt - 1 = 0 ↔ n = 0 := by
    rw [← UInt64.toNat_inj, UInt64.toNat_zero]
    omega
  refine ⟨by omega, ?_, ?_, by rw [htouch]; exact h.untouched, by simp [harmed], fun ht => ?_⟩
  · rw [href, hlost']
    omega
  · rw [hfreed, hlost', hnot]
    simp [hzero]
  · simp [hfd (htype ▸ ht), hlost']

theorem close (h : ConnOk cs n) (hlost : cs.lost = 0) : ConnOk cs.connClose.stateCleanup n := by
  have hfreed := h.freed_eq_zero (.inl hlost)
  have huntouched := h.untouched
  refine h.lose hlost ?_ ?_ ?_ ?_ ?_ ?_ ?_ <;> cases ht : cs.type <;>
  simp [ConnState.connClose, ConnState.stateCleanup, ConnState.connectionLost, ConnState.eventDel, ConnState.rele,
    ConnState.touch, ht, hlost, hfreed, huntouched]

end ConnOk

/-! ### Disposal -/

/-- The block of a disposed request's connection after the disposal. -/
def ConnState.disposed (rc : BitVec 32) (cs : ConnState) : ConnState :=
  (if disconnects rc then cs.connClose.stateCleanup else cs).rele

theorem ConnState.close_lost (cs : ConnState) : cs.connClose.stateCleanup.lost = cs.lost + 1 := by
  cases ht : cs.type <;> simp [rele, stateCleanup, connectionLost, eventDel, connClose, touch, ht]

theorem ConnState.disposed_type (rc : BitVec 32) (cs : ConnState) : (cs.disposed rc).type = cs.type := by
  unfold ConnState.disposed
  split_ifs
  · cases ht : cs.type <;> simp [rele, stateCleanup, connectionLost, eventDel, connClose, touch, ht]
  · rfl

theorem ConnState.disposed_lost (rc : BitVec 32) (cs : ConnState) :
    (cs.disposed rc).lost = if disconnects rc then cs.lost + 1 else cs.lost := by
  unfold ConnState.disposed
  split_ifs
  · exact cs.close_lost
  · rfl

end Csf
