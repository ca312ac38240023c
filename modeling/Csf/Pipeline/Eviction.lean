import Csf.Pipeline.Lengths

/-!
# What `send_to_pipeline` evicts

The locked branch looks at one queue: `request_head`, with the buffered requests behind it if it has moved them
(`waitingQueue`). The head is kicked out (`kicked`), the requests that are too old are swept out of the rest (`swept`),
and the others stay (`kept`). The sweep removes requests from the list that it walks over; `sweep_eq` says what comes
out of it, and `sendToPipeline_eq` puts the parts together.
-/

namespace Csf

variable {Stage Worker : Type}

/-! ### The requests that leave, and those that stay -/

def waitingQueue (p : Pipeline) (st : Stage) (concat : Bool) (s : State Stage Worker) : List Nat :=
  (s.rqcb st).requestHead ++ if concat then (s.pcb p).tmpRequestHead else []

/-- The head of the queue, if it is kicked out. -/
def kicked (cfg : Config Stage Worker) (flags : UInt32) (queue : List Nat) : List Nat :=
  if hasFlag flags requestForce ∧ hasFlag flags requestKickOut ∧ cfg.pipelineQueueSize.toNat ≤ queue.length then
    queue.take 1
  else []

def behindKicked (cfg : Config Stage Worker) (flags : UInt32) (queue : List Nat) : List Nat :=
  queue.drop (kicked cfg flags queue).length

def swept (cfg : Config Stage Worker) (flags : UInt32) (s : State Stage Worker) (queue : List Nat) : List Nat :=
  if sweeps cfg flags then (behindKicked cfg flags queue).filter (expired cfg s) else []

def kept (cfg : Config Stage Worker) (flags : UInt32) (s : State Stage Worker) (queue : List Nat) : List Nat :=
  if sweeps cfg flags then (behindKicked cfg flags queue).filter fun r => !expired cfg s r
  else behindKicked cfg flags queue

theorem length_parts (cfg : Config Stage Worker) (flags : UInt32) (s : State Stage Worker) (queue : List Nat) :
    (kicked cfg flags queue ++ swept cfg flags s queue).length + (kept cfg flags s queue).length = queue.length := by
  have hkicked : (kicked cfg flags queue).length ≤ queue.length := by
    rw [kicked]
    split_ifs
    · exact List.length_take_le' _ _
    · exact Nat.zero_le _
  have hbehind : (behindKicked cfg flags queue).length = queue.length - (kicked cfg flags queue).length :=
    List.length_drop
  have hrest : (swept cfg flags s queue).length + (kept cfg flags s queue).length =
      (behindKicked cfg flags queue).length := by
    rw [swept, kept]
    split_ifs
    · exact (List.length_eq_length_filter_add _).symm
    · exact Nat.zero_add _
  rw [List.length_append]
  omega

/-! ### Evictions one after the other -/

variable [DecidableEq Stage]

/-- The requests `ev` go to the final queue, `rest` stays in the queue of the stage. -/
def moveToFinal (st : Stage) (rest ev : List Nat) (s : State Stage Worker) : State Stage Worker :=
  { s with
    rqcb := Function.update s.rqcb st ⟨rest, (s.rqcb st).queueLen - UInt32.ofNat ev.length⟩
    pipelineQueueLen := s.pipelineQueueLen - UInt64.ofNat ev.length
    finalRequestHead := s.finalRequestHead ++ ev
    trace := (ev.map Event.evicted).reverse ++ s.trace }

theorem moveToFinal_nil (st : Stage) (s : State Stage Worker) :
    moveToFinal st (s.rqcb st).requestHead [] s = s := by
  have hrqcb : Function.update s.rqcb st ⟨(s.rqcb st).requestHead, (s.rqcb st).queueLen - UInt32.ofNat 0⟩ = s.rqcb := by
    rw [show UInt32.ofNat 0 = 0 from rfl, UInt32.sub_zero]
    exact Function.update_eq_self st s.rqcb
  rw [moveToFinal, List.length_nil, hrqcb, List.append_nil]
  simp

theorem moveToFinal_moveToFinal (st : Stage) (rest rest' ev ev' : List Nat) (s : State Stage Worker) :
    moveToFinal st rest' ev' (moveToFinal st rest ev s) = moveToFinal st rest' (ev ++ ev') s := by
  have hstage : ∀ a b c : UInt32, a - b - c = a - (b + c) := by grind
  have hlen : ∀ a b c : UInt64, a - b - c = a - (b + c) := by grind
  simp only [moveToFinal, Function.update_self, Function.update_idem, List.length_append, UInt32.ofNat_add,
    UInt64.ofNat_add, List.append_assoc, List.map_append, List.reverse_append, hstage, hlen]

theorem evict_eq (st : Stage) (r : Nat) (s : State Stage Worker) :
    evict st r s = moveToFinal st ((s.rqcb st).requestHead.erase r) [r] s := rfl

theorem sweep_eq (cfg : Config Stage Worker) (st : Stage) (l front : List Nat) (s : State Stage Worker)
    (hfront : ∀ x ∈ front, expired cfg s x = false) (hqueue : (s.rqcb st).requestHead = front ++ l) :
    l.foldl (sweepOne cfg st) s =
      moveToFinal st (front ++ l.filter fun r => !expired cfg s r) (l.filter (expired cfg s)) s := by
  induction l generalizing front s with
  | nil =>
    rw [List.filter_nil, List.filter_nil, ← hqueue]
    exact (moveToFinal_nil st s).symm
  | cons r l ih =>
    rw [List.foldl_cons, sweepOne]
    cases hr : expired cfg s r with
    | true =>
      -- `r` is not among the requests that were passed, so it is the one at its place that is removed
      have hnot : r ∉ front := fun hmem => Bool.false_ne_true ((hfront r hmem).symm.trans hr)
      have herase : (s.rqcb st).requestHead.erase r = front ++ l := by
        rw [hqueue, List.erase_append_right _ hnot, List.erase_cons_head]
      have hage : expired cfg (moveToFinal st (front ++ l) [r] s) = expired cfg s := rfl
      have hhead : ((moveToFinal st (front ++ l) [r] s).rqcb st).requestHead = front ++ l := by simp [moveToFinal]
      rw [if_pos rfl, evict_eq, herase, ih front (moveToFinal st (front ++ l) [r] s) hfront hhead,
        moveToFinal_moveToFinal, hage, List.filter_cons_of_pos hr, List.filter_cons_of_neg (by simp [hr]),
        List.singleton_append]
    | false =>
      have hpassed : ∀ x ∈ front ++ [r], expired cfg s x = false := by
        intro x hx
        rcases List.mem_append.mp hx with hx | hx
        · exact hfront x hx
        · rw [List.mem_singleton.mp hx, hr]
      rw [if_neg Bool.false_ne_true, ih (front ++ [r]) s hpassed (by rw [hqueue, List.append_assoc]; rfl),
        List.filter_cons_of_pos (by simp [hr]), List.filter_cons_of_neg (by simp [hr]), List.append_assoc,
        List.singleton_append]

theorem sweepTimedOut_eq (cfg : Config Stage Worker) (st : Stage) (flags : UInt32) (s : State Stage Worker) :
    sweepTimedOut cfg st flags s =
      if sweeps cfg flags then
        moveToFinal st ((s.rqcb st).requestHead.filter fun r => !expired cfg s r)
          ((s.rqcb st).requestHead.filter (expired cfg s)) s
      else s := by
  rw [sweepTimedOut]
  split_ifs
  · exact sweep_eq cfg st _ [] s (by simp) rfl
  · rfl

/-! ### The locked branch -/

theorem requestHead_concatBuffered (p : Pipeline) (st : Stage) (concat : Bool) (s : State Stage Worker) :
    ((concatBuffered p st concat s).rqcb st).requestHead = waitingQueue p st concat s := by
  cases concat with
  | false => exact (List.append_nil _).symm
  | true =>
    unfold concatBuffered
    rw [if_pos rfl]
    split_ifs <;> simp [unlinkActive, concatTmp, waitingQueue]

theorem rqcb_concatBuffered (p : Pipeline) {st st' : Stage} (hst : st' ≠ st) (concat : Bool)
    (s : State Stage Worker) : (concatBuffered p st concat s).rqcb st' = s.rqcb st' := by
  unfold concatBuffered
  split_ifs <;> simp [unlinkActive, concatTmp, hst]

theorem pcb_concatBuffered {p q : Pipeline} (hq : q ≠ p) (st : Stage) (concat : Bool) (s : State Stage Worker) :
    (concatBuffered p st concat s).pcb q = s.pcb q := by
  unfold concatBuffered
  split_ifs <;> simp [unlinkActive, concatTmp, hq]

theorem concatBuffered_keeps {β : Type} (p : Pipeline) (st : Stage) (concat : Bool) (s : State Stage Worker)
    (f : State Stage Worker → β) (hf : ∀ t rqcb pcb apq, f { t with rqcb := rqcb, pcb := pcb, apq := apq } = f t) :
    f (concatBuffered p st concat s) = f s := by
  unfold concatBuffered
  split_ifs
  · exact hf s _ _ _
  · exact hf s _ _ s.apq
  · rfl

theorem queueLen_concatBuffered {p : Pipeline} {st : Stage} {concat : Bool} {s : State Stage Worker}
    (hlen : (s.rqcb st).queueLen = UInt32.ofNat (s.rqcb st).requestHead.length)
    (htmp : concat = true → (s.pcb p).Exact) :
    ((concatBuffered p st concat s).rqcb st).queueLen = UInt32.ofNat (waitingQueue p st concat s).length := by
  cases concat with
  | false =>
    rw [waitingQueue, if_neg Bool.false_ne_true, List.append_nil]
    exact hlen
  | true =>
    have hexact : (s.pcb p).tmpQueueLen = UInt32.ofNat (s.pcb p).tmpRequestHead.length := htmp rfl
    rw [waitingQueue, if_pos rfl, List.length_append, UInt32.ofNat_add, ← hlen, ← hexact]
    unfold concatBuffered
    rw [if_pos rfl]
    split_ifs <;> simp [unlinkActive, concatTmp]

def markKicked (ev : List Nat) (s : State Stage Worker) : State Stage Worker :=
  { s with heap := fun r => if r ∈ ev then { s.heap r with flags := requestKickOut } else s.heap r }

omit [DecidableEq Stage] in
theorem markKicked_nil (s : State Stage Worker) : markKicked [] s = s := by
  simp [markKicked]

omit [DecidableEq Stage] in
theorem expired_markKicked (cfg : Config Stage Worker) (ev : List Nat) (s : State Stage Worker) :
    expired cfg (markKicked ev s) = expired cfg s := by
  funext r
  simp only [expired, markKicked]
  split_ifs <;> rfl

theorem kickOutHead_eq {st : Stage} {h : Nat} {rest : List Nat} {s : State Stage Worker}
    (hqueue : (s.rqcb st).requestHead = h :: rest) : kickOutHead st h s = moveToFinal st rest [h] (markKicked [h] s) := by
  have hheap : Function.update s.heap h { s.heap h with flags := requestKickOut } = (markKicked [h] s).heap := by
    funext r
    simp only [markKicked, List.mem_singleton]
    by_cases hr : r = h
    · subst hr
      rw [Function.update_self, if_pos rfl]
    · rw [Function.update_of_ne hr, if_neg hr]
  rw [kickOutHead, evict_eq, hheap]
  exact congrArg (fun l => moveToFinal st l [h] (markKicked [h] s)) (by rw [hqueue, List.erase_cons_head])

theorem sweepAndInsert_eq (cfg : Config Stage Worker) (st : Stage) (r : Nat) (flags : UInt32) (hit : Bool)
    (s : State Stage Worker) :
    (sweepAndInsert cfg st r flags hit s).1 =
      insertTail st r (moveToFinal st
        (if sweeps cfg flags then (s.rqcb st).requestHead.filter fun r => !expired cfg s r
          else (s.rqcb st).requestHead)
        (if sweeps cfg flags then (s.rqcb st).requestHead.filter (expired cfg s) else []) s) := by
  rw [sweepAndInsert, sweepTimedOut_eq]
  split_ifs
  · rfl
  · exact congrArg (insertTail st r) (moveToFinal_nil st s).symm

section Counted

variable {cfg : Config Stage Worker} {st : Stage} {flags : UInt32} {s : State Stage Worker}

omit [DecidableEq Stage] in
theorem stageFull_iff {n : Nat} (hlen : (s.rqcb st).queueLen.toNat = n) :
    stageFull cfg st s = true ↔ cfg.pipelineQueueSize.toNat ≤ n := by
  rw [stageFull, decide_eq_true_iff, UInt64.le_iff_toNat_le, UInt32.toNat_toUInt64, hlen]

omit [DecidableEq Stage] in
theorem kicked_of_kicksOut {h : Nat} {rest : List Nat} (hlen : (s.rqcb st).queueLen.toNat = (h :: rest).length)
    (hkick : kicksOut cfg st flags s = true) :
    kicked cfg flags (h :: rest) = [h] ∧ behindKicked cfg flags (h :: rest) = rest := by
  rw [kicksOut, Bool.and_eq_true, Bool.and_eq_true, stageFull_iff hlen] at hkick
  have hkicked : kicked cfg flags (h :: rest) = [h] := by
    rw [kicked, if_pos ⟨hkick.1.1, hkick.1.2, hkick.2⟩]
    rfl
  refine ⟨hkicked, ?_⟩
  rw [behindKicked, hkicked]
  rfl

omit [DecidableEq Stage] in
theorem kicked_of_not_kicksOut {queue : List Nat} (hlen : (s.rqcb st).queueLen.toNat = queue.length)
    (hkick : ¬ kicksOut cfg st flags s = true) :
    kicked cfg flags queue = [] ∧ behindKicked cfg flags queue = queue := by
  have hkicked : kicked cfg flags queue = [] := by
    rw [kicked, if_neg]
    rintro ⟨hforce, hkickout, hsize⟩
    refine hkick ?_
    rw [kicksOut, hforce, hkickout, (stageFull_iff hlen).mpr hsize]
    rfl
  refine ⟨hkicked, ?_⟩
  rw [behindKicked, hkicked]
  rfl

omit [DecidableEq Stage] in
theorem sweepHits_eq {age : Nat → Bool} {queue : List Nat} (hqueue : (s.rqcb st).requestHead = queue)
    (hage : expired cfg s = age) :
    sweepHits cfg st flags s = !(if sweeps cfg flags then queue.filter age else []).isEmpty := by
  have hany : ∀ l : List Nat, l.any age = !(l.filter age).isEmpty := by
    intro l
    induction l with
    | nil => rfl
    | cons x l ih =>
      rw [List.any_cons, List.filter_cons, ih]
      cases age x <;> rfl
  rw [sweepHits, hqueue, hage, hany]
  cases sweeps cfg flags <;> rfl

end Counted

/-- What the locked branch makes of a queue whose counter is its length. -/
theorem sendToPipeline_eq {cfg : Config Stage Worker} {p : Pipeline} {st : Stage} {r : Nat} {flags : UInt32}
    {concat notice : Bool} {s s' : State Stage Worker}
    (hlen : ((concatBuffered p st concat s).rqcb st).queueLen.toNat = (waitingQueue p st concat s).length)
    (hret : sendToPipeline cfg p st r flags concat s = (s', .linked notice)) :
    s' = insertTail st r (moveToFinal st (kept cfg flags s (waitingQueue p st concat s))
        (kicked cfg flags (waitingQueue p st concat s) ++ swept cfg flags s (waitingQueue p st concat s))
        (markKicked (kicked cfg flags (waitingQueue p st concat s)) (concatBuffered p st concat s))) ∧
      notice = !(kicked cfg flags (waitingQueue p st concat s) ++
        swept cfg flags s (waitingQueue p st concat s)).isEmpty := by
  have hqueue := requestHead_concatBuffered p st concat s
  have hage : expired cfg (concatBuffered p st concat s) = expired cfg s :=
    concatBuffered_keeps p st concat s (expired cfg) fun _ _ _ _ => rfl
  unfold sendToPipeline at hret
  simp only at hret
  generalize waitingQueue p st concat s = queue at hqueue hlen ⊢
  generalize concatBuffered p st concat s = s₁ at *
  split_ifs at hret with hrefused hkick
  · cases hret
  · -- the kick-out
    cases queue with
    | nil =>
      rw [hqueue] at hret
      cases hret
    | cons h rest =>
      rw [hqueue] at hret
      obtain ⟨hkicked, hbehind⟩ := kicked_of_kicksOut hlen hkick
      have hstate := kickOutHead_eq hqueue
      have hrest : ((kickOutHead st h s₁).rqcb st).requestHead = rest := by
        rw [hstate]
        simp [moveToFinal]
      have hage' : expired cfg (kickOutHead st h s₁) = expired cfg s := by
        rw [hstate]
        exact (expired_markKicked cfg [h] s₁).trans hage
      obtain ⟨hs', hnotice⟩ := Prod.mk.inj hret
      constructor
      · rw [← hs', hkicked, swept, kept, hbehind]
        refine (sweepAndInsert_eq cfg st r flags true (kickOutHead st h s₁)).trans ?_
        rw [hrest, hage', hstate, moveToFinal_moveToFinal]
      · rw [hkicked]
        exact (SendResult.linked.inj hnotice).symm
  · -- no kick-out
    obtain ⟨hkicked, hbehind⟩ := kicked_of_not_kicksOut hlen hkick
    obtain ⟨hs', hnotice⟩ := Prod.mk.inj hret
    constructor
    · rw [← hs', hkicked, swept, kept, hbehind, markKicked_nil, List.nil_append]
      refine (sweepAndInsert_eq cfg st r flags false s₁).trans ?_
      rw [hqueue, hage]
    · rw [hkicked, List.nil_append, swept, hbehind, ← SendResult.linked.inj hnotice, Bool.false_or,
        sweepHits_eq hqueue hage]

/-! ### The sweep of a call -/

/-- The state in which the call comes to the timeout sweep: the buffered requests are moved and the head is kicked
out. `none` if it does not get that far. -/
def beforeSweep (cfg : Config Stage Worker) (p : Pipeline) (st : Stage) (flags : UInt32) (concat : Bool)
    (s : State Stage Worker) : Option (State Stage Worker) :=
  let s := concatBuffered p st concat s
  if !hasFlag flags requestForce && stageFull cfg st s then none
  else if kicksOut cfg st flags s then
    match (s.rqcb st).requestHead with
    | [] => none
    | h :: _ => some (kickOutHead st h s)
  else some s

/-- What the sweep appends to the final queue. -/
def sweptOut (cfg : Config Stage Worker) (st : Stage) (flags : UInt32) (s : State Stage Worker) : List Nat :=
  (sweepTimedOut cfg st flags s).finalRequestHead.drop s.finalRequestHead.length

theorem sweptOut_eq (cfg : Config Stage Worker) (st : Stage) (flags : UInt32) (s : State Stage Worker) :
    sweptOut cfg st flags s = if sweeps cfg flags then (s.rqcb st).requestHead.filter (expired cfg s) else [] := by
  rw [sweptOut, sweepTimedOut_eq]
  split_ifs
  · exact List.drop_left
  · exact List.drop_length

theorem mem_of_mem_sweptOut {cfg : Config Stage Worker} {st : Stage} {flags : UInt32} {s : State Stage Worker} {x : Nat}
    (h : x ∈ sweptOut cfg st flags s) : x ∈ (s.rqcb st).requestHead := by
  rw [sweptOut_eq] at h
  split_ifs at h
  · exact (List.mem_filter.mp h).1
  · exact absurd h List.not_mem_nil

theorem beforeSweep_cases {cfg : Config Stage Worker} {p : Pipeline} {st : Stage} {flags : UInt32} {concat : Bool}
    {s s₁ : State Stage Worker} (h : beforeSweep cfg p st flags concat s = some s₁) :
    s₁ = concatBuffered p st concat s ∨
      ∃ k rest, waitingQueue p st concat s = k :: rest ∧
        s₁ = moveToFinal st rest [k] (markKicked [k] (concatBuffered p st concat s)) := by
  have hqueue := requestHead_concatBuffered p st concat s
  unfold beforeSweep at h
  simp only at h
  split_ifs at h with hfull hkick
  · cases hhead : waitingQueue p st concat s with
    | nil =>
      rw [hqueue, hhead] at h
      cases h
    | cons k rest =>
      have hk := hqueue.trans hhead
      rw [hk] at h
      exact .inr ⟨k, rest, rfl, (Option.some.inj h).symm.trans (kickOutHead_eq hk)⟩
  · exact .inl (Option.some.inj h).symm

theorem sendToPipeline_of_beforeSweep {cfg : Config Stage Worker} {p : Pipeline} {st : Stage} {flags : UInt32}
    {concat : Bool} {s s₁ : State Stage Worker} (r : Nat) (h : beforeSweep cfg p st flags concat s = some s₁) :
    (sendToPipeline cfg p st r flags concat s).1 = insertTail st r (sweepTimedOut cfg st flags s₁) := by
  unfold beforeSweep at h
  unfold sendToPipeline
  simp only at h ⊢
  split_ifs at h ⊢ with hfull hkick
  · cases hhead : ((concatBuffered p st concat s).rqcb st).requestHead with
    | nil =>
      rw [hhead] at h
      cases h
    | cons k rest =>
      rw [hhead] at h
      rw [← Option.some.inj h]
      rfl
  · rw [← Option.some.inj h]
    rfl

theorem sendToPipeline_of_none {cfg : Config Stage Worker} {p : Pipeline} {st : Stage} {flags : UInt32}
    {concat : Bool} {s : State Stage Worker} (r : Nat) (h : beforeSweep cfg p st flags concat s = none) :
    (sendToPipeline cfg p st r flags concat s).1 = concatBuffered p st concat s := by
  unfold beforeSweep at h
  unfold sendToPipeline
  simp only at h ⊢
  split_ifs at h ⊢ with hfull hkick
  · rfl
  · cases hhead : ((concatBuffered p st concat s).rqcb st).requestHead with
    | nil => rfl
    | cons k rest =>
      rw [hhead] at h
      cases h

end Csf
