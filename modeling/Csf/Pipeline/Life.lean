import Mathlib.Logic.Relation
import Mathlib.Tactic.Common

/-!
# The life of one request

What the pipeline promises to one request, apart from threads and queues: `submit_request` links it, counts
it and returns; it lies in one place at a time; the loop of `done_requests_handler` takes it from the final
queue, may call its responder, and frees it. `Life` records how far a request is and how often each of
these things happened to it, `Life.Step` lists what can happen next, and `Life.Ok` is what holds all along.
The machine of the threads refines this model, request by request.
-/

namespace Csf

inductive SubPhase
  | idle
  | checked
  | linked
  | counted
  deriving DecidableEq

/-- Where the loop over the final queue stands with a request. -/
inductive LoopPhase
  | idle
  | taken
  | called
  | finishing
  deriving DecidableEq

/-- `1` while the request is linked and not yet counted. -/
def SubPhase.uncounted : SubPhase → Nat
  | .linked => 1
  | _ => 0

/-- `1` while the request is linked and `submit_request` has not returned. -/
def SubPhase.unreturned : SubPhase → Nat
  | .linked | .counted => 1
  | _ => 0

def LoopPhase.held : LoopPhase → Nat
  | .idle => 0
  | _ => 1

/-- `1` while the loop works on the request and is past the call of the responder. -/
def LoopPhase.past : LoopPhase → Nat
  | .called | .finishing => 1
  | _ => 0

/-- How far one request is: its phases, its occurrences over all places and in the final queue, and how
often each event happened to it. -/
structure Life where
  born : Prop
  sub : SubPhase
  loop : LoopPhase
  occ : Nat
  final : Nat
  inserted : Nat
  counted : Nat
  accepted : Nat
  evicted : Nat
  taken : Nat
  passed : Nat
  responded : Nat
  cleaned : Nat
  freed : Nat

namespace Life

def blank : Life := ⟨False, .idle, .idle, 0, 0, 0, 0, 0, 0, 0, 0, 0, 0, 0⟩

inductive Step : Life → Life → Prop
  | submit (l : Life) (hb : ¬l.born) : Step l { l with born := True, sub := .checked }
  | refuse (l : Life) (hs : l.sub = .checked) : Step l { l with sub := .idle }
  | link (l : Life) (hs : l.sub = .checked) :
      Step l { l with sub := .linked, occ := l.occ + 1, inserted := l.inserted + 1 }
  | count (l : Life) (hs : l.sub = .linked) : Step l { l with sub := .counted, counted := l.counted + 1 }
  | accept (l : Life) (hs : l.sub = .counted) : Step l { l with sub := .idle, accepted := l.accepted + 1 }
  /-- it moves on to the final queue by way of the done queue -/
  | settle (l : Life) (k : Nat) (hk : l.final + k ≤ l.occ) : Step l { l with final := l.final + k }
  /-- a later submission moves it from its first stage to the final queue -/
  | evict (l : Life) (hf : l.final < l.occ) (hs : l.sub = .idle ∨ l.sub = .checked) :
      Step l { l with final := l.final + 1, evicted := l.evicted + 1 }
  | pass (l : Life) (hf : 0 < l.final) (hs : l.sub = .idle) :
      Step l { l with taken := l.taken + 1, passed := l.passed + 1 }
  | take (l : Life) (hf : 0 < l.final) (hs : l.sub = .idle) (hl : l.loop = .idle) :
      Step l { l with loop := .taken, taken := l.taken + 1 }
  | respond (l : Life) (hl : l.loop = .taken) :
      Step l { l with loop := .called, responded := l.responded + 1 }
  | skip (l : Life) (hl : l.loop = .taken) : Step l { l with loop := .finishing }
  | ret (l : Life) (hl : l.loop = .called) : Step l { l with loop := .finishing }
  | free (l : Life) (c : Nat) (hc : c ≤ 1) (hl : l.loop = .finishing) :
      Step l { l with
        loop := .idle, occ := l.occ - 1, final := l.final - 1, cleaned := l.cleaned + c,
        freed := l.freed + 1 }

abbrev Steps : Life → Life → Prop := Relation.ReflTransGen Step

theorem Steps.evicts (l : Life) (k : Nat) (hk : l.final + k ≤ l.occ) (hs : l.sub = .idle ∨ l.sub = .checked) :
    Steps l { l with final := l.final + k, evicted := l.evicted + k } := by
  induction k with
  | zero => exact .refl
  | succ k ih => exact (ih (by omega)).tail (.evict _ (by simp only; omega) hs)

/-- What holds throughout the life of a request. -/
structure Ok (l : Life) : Prop where
  final_le : l.final ≤ l.occ
  conserved : l.occ + l.freed = l.inserted
  once : l.inserted ≤ 1
  unborn : ¬l.born → l.inserted = 0 ∧ l.sub = .idle
  checked : l.sub = .checked → l.inserted = 0
  counted_eq : l.counted + l.sub.uncounted = l.inserted
  accepted_eq : l.accepted + l.sub.unreturned = l.inserted
  taken_eq : l.taken = l.freed + l.passed + l.loop.held
  held_final : l.loop.held ≤ l.final
  responded_le : l.responded ≤ l.freed + l.loop.past
  cleaned_le : l.cleaned ≤ l.freed
  evicted_add : l.evicted + l.occ ≤ l.inserted + l.final
  evicted_counted : l.evicted ≤ l.counted
  taken_counted : 0 < l.taken → l.counted = 1

theorem blank_ok : Ok blank := by
  constructor <;> simp [blank, SubPhase.uncounted, SubPhase.unreturned, LoopPhase.held]

theorem Ok.born_of_sub {l : Life} (h : Ok l) (hs : l.sub ≠ .idle) : l.born := by
  by_contra hb
  exact hs (h.unborn hb).2

theorem Ok.counted_of_final {l : Life} (h : Ok l) (hf : 0 < l.final) (hs : l.sub = .idle) : l.counted = 1 := by
  have hfinal := h.final_le
  have hcons := h.conserved
  have honce := h.once
  have hcounted := h.counted_eq
  simp only [hs, SubPhase.uncounted] at hcounted
  omega

theorem Ok.step {l l' : Life} (h : Ok l) (hs : Step l l') : Ok l' := by
  have hfinal := h.final_le
  have hcons := h.conserved
  have honce := h.once
  have hcounted := h.counted_eq
  have haccepted := h.accepted_eq
  have htaken := h.taken_eq
  have hheld := h.held_final
  have hresponded := h.responded_le
  have hadd := h.evicted_add
  have hevicted := h.evicted_counted
  cases hs with
  | submit hb =>
    obtain ⟨hnone, hidle⟩ := h.unborn hb
    simp only [hidle, SubPhase.uncounted, SubPhase.unreturned] at hcounted haccepted
    exact { h with
      unborn := fun hn => absurd trivial hn
      checked := fun _ => hnone
      counted_eq := hcounted
      accepted_eq := haccepted }
  | refuse hs =>
    simp only [hs, SubPhase.uncounted, SubPhase.unreturned] at hcounted haccepted
    exact { h with
      unborn := fun hb => ⟨(h.unborn hb).1, rfl⟩
      checked := fun hc => by cases hc
      counted_eq := hcounted
      accepted_eq := haccepted }
  | link hs =>
    have hnone := h.checked hs
    simp only [hs, SubPhase.uncounted, SubPhase.unreturned] at hcounted haccepted
    exact { h with
      final_le := Nat.le_succ_of_le hfinal
      conserved := by simp only; omega
      once := by simp only; omega
      unborn := fun hb => absurd (h.born_of_sub (by simp [hs])) hb
      checked := fun hc => by cases hc
      counted_eq := by simp only [SubPhase.uncounted]; omega
      accepted_eq := by simp only [SubPhase.unreturned]; omega
      evicted_add := by simp only; omega }
  | count hs =>
    simp only [hs, SubPhase.uncounted, SubPhase.unreturned] at hcounted haccepted
    exact { h with
      unborn := fun hb => absurd (h.born_of_sub (by simp [hs])) hb
      checked := fun hc => by cases hc
      counted_eq := hcounted
      accepted_eq := haccepted
      evicted_counted := Nat.le_succ_of_le hevicted
      taken_counted := fun hpos => by have := h.taken_counted hpos; omega }
  | accept hs =>
    simp only [hs, SubPhase.uncounted, SubPhase.unreturned] at hcounted haccepted
    exact { h with
      unborn := fun hb => ⟨(h.unborn hb).1, rfl⟩
      checked := fun hc => by cases hc
      counted_eq := hcounted
      accepted_eq := haccepted }
  | settle k hk =>
    exact { h with final_le := hk, held_final := Nat.le_add_right_of_le hheld, evicted_add := by simp only; omega }
  | evict hf hs =>
    -- the request is not the one being submitted, so it was linked and counted before
    have hone : l.counted = 1 := by
      have hchecked := h.checked
      rcases hs with hs | hs <;> simp only [hs, SubPhase.uncounted, forall_const] at hchecked hcounted <;> omega
    exact { h with
      final_le := hf
      held_final := Nat.le_add_right_of_le hheld
      evicted_add := by simp only; omega
      evicted_counted := by simp only; omega }
  | pass hf hs =>
    exact { h with
      taken_eq := by simp only; omega
      taken_counted := fun _ => h.counted_of_final hf hs }
  | take hf hs hl =>
    simp only [hl, LoopPhase.held, LoopPhase.past] at htaken hresponded
    exact { h with
      taken_eq := by simp only [LoopPhase.held]; omega
      held_final := hf
      responded_le := hresponded
      taken_counted := fun _ => h.counted_of_final hf hs }
  | respond hl =>
    simp only [hl, LoopPhase.held, LoopPhase.past] at htaken hheld hresponded
    exact { h with taken_eq := htaken, held_final := hheld, responded_le := Nat.succ_le_succ hresponded }
  | skip hl =>
    simp only [hl, LoopPhase.held, LoopPhase.past] at htaken hheld hresponded
    exact { h with taken_eq := htaken, held_final := hheld, responded_le := Nat.le_succ_of_le hresponded }
  | ret hl =>
    simp only [hl, LoopPhase.held, LoopPhase.past] at htaken hheld hresponded
    exact { h with taken_eq := htaken, held_final := hheld, responded_le := hresponded }
  | free c hc hl =>
    have hcleaned := h.cleaned_le
    simp only [hl, LoopPhase.held, LoopPhase.past] at htaken hheld hresponded
    exact { h with
      final_le := Nat.sub_le_sub_right hfinal 1
      conserved := by simp only; omega
      taken_eq := by simp only [LoopPhase.held]; omega
      held_final := Nat.zero_le _
      responded_le := hresponded
      cleaned_le := by simp only; omega
      evicted_add := by simp only; omega }

theorem Ok.steps {l l' : Life} (h : Ok l) (hs : Steps l l') : Ok l' := by
  induction hs with
  | refl => exact h
  | tail _ hstep ih => exact ih.step hstep

end Life

end Csf
