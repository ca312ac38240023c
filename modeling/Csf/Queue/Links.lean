import Csf.Pipeline.Queues
import Csf.Queue.Tailq
import Mathlib.Data.Fintype.List

/-!
# The queues of the pipeline as pointers

`Links` is the memory of the two kinds of tail queues that the threads share: the queues of requests, linked through
`request_entry`, and the list `apq` of pipelines with buffered requests, linked through `active_queue_entry`. The
queue operations of `submit_request.c` and `kick_request_queue` are given as they act on this memory, macro by macro;
`Represents s m` says that the memory `m` holds the lists of the state `s`, and every operation on the memory does what
the operation of the same name does to the lists. The counters, the flags and the clock are those of the state.
-/

namespace Csf

open Lib

variable {Stage Worker : Type}

inductive QueueHead (Stage : Type)
  /-- `pcb[p]->tmp_request_head` -/
  | tmp (p : Pipeline)
  /-- `request_head` of a stage -/
  | stage (st : Stage)
  /-- `done_rqcb.request_head` -/
  | done
  /-- `final_request_head` -/
  | final
  deriving DecidableEq

/-- The pointers of all queues. -/
structure Links (Stage : Type) where
  requests : Tailq (QueueHead Stage) Nat
  /-- `apq`, the only queue of pipelines -/
  active : Tailq Unit Pipeline

def queues (s : State Stage Worker) : QueueHead Stage → List Nat
  | .tmp p => (s.pcb p).tmpRequestHead
  | .stage st => (s.rqcb st).requestHead
  | .done => s.doneRqcb.requestHead
  | .final => s.finalRequestHead

/-- The memory holds the lists of the state, and the entry of a pipeline tells whether it is on the active list. -/
structure Represents (s : State Stage Worker) (m : Links Stage) : Prop where
  requests : m.requests.Rep (queues s)
  active : m.active.Rep fun _ => s.apq
  entry : ∀ p, m.active.entryEmpty p = true ↔ p ∉ s.apq
  flag : ∀ p, (s.pcb p).activeQueueEntry = true ↔ p ∈ s.apq

/-! ### The operations on the memory -/

namespace Links

/-- `TAILQ_REMOVE` from `apq` and `TAILQ_ENTRY_INIT` -/
def unlinkActive (p : Pipeline) (m : Links Stage) : Option (Links Stage) := do
  let active ← m.active.remove () p
  some { m with active := active.entryInit p }

/-- The pipeline goes on `apq` if its entry is not linked. -/
def linkActive (p : Pipeline) (m : Links Stage) : Links Stage :=
  if m.active.entryEmpty p then { m with active := m.active.insertTail () p } else m

variable [DecidableEq Stage]

def insertTail (h : QueueHead Stage) (r : Nat) (m : Links Stage) : Links Stage :=
  { m with requests := m.requests.insertTail h r }

def remove (h : QueueHead Stage) (r : Nat) (m : Links Stage) : Option (Links Stage) := do
  let requests ← m.requests.remove h r
  some { m with requests := requests }

def concat (h₁ h₂ : QueueHead Stage) (m : Links Stage) : Option (Links Stage) := do
  let requests ← m.requests.concat h₁ h₂
  some { m with requests := requests }

/-- `TAILQ_FIRST` and `TAILQ_REMOVE`: the first request of a queue; none if the queue is empty. -/
def takeFirst (h : QueueHead Stage) (m : Links Stage) : Option (Nat × Links Stage) :=
  match m.requests.tqhFirst h with
  | .elm r => (m.remove h r).map (r, ·)
  | _ => none

def kickPcb (cfg : Config Stage Worker) (ok : Pipeline → Bool) (p : Pipeline) (m : Links Stage) :
    Option (Links Stage) :=
  if m.requests.empty (.tmp p) then m.unlinkActive p
  else
    match cfg.firstRqcb p with
    | some st => if ok p then (m.concat (.stage st) (.tmp p)).bind (unlinkActive p) else some m
    | none => some m

def kickRequestQueue (cfg : Config Stage Worker) (ok : Pipeline → Bool) (m : Links Stage) : Option (Links Stage) :=
  Tailq.foreachSafe active (kickPcb cfg ok) pipelineSize (m.active.tqhFirst ()) m

/-- The move of the buffered requests at the start of `send_to_pipeline`. -/
def concatBuffered (p : Pipeline) (st : Stage) (concat : Bool) (m : Links Stage) : Option (Links Stage) :=
  if concat then do
    let m ← m.concat (.stage st) (.tmp p)
    if m.active.entryEmpty p then some m else m.unlinkActive p
  else some m

/-- A request moves from a stage to the final queue. -/
def evict (st : Stage) (r : Nat) (m : Links Stage) : Option (Links Stage) :=
  (m.remove (.stage st) r).map (insertTail .final r)

/-- The kick-out of the first request, which has to exist. -/
def kickOutHead (st : Stage) (m : Links Stage) : Option (Links Stage) :=
  match m.requests.tqhFirst (.stage st) with
  | .elm r => m.evict st r
  | _ => none

def sweepOne (cfg : Config Stage Worker) (s : State Stage Worker) (st : Stage) (r : Nat) (m : Links Stage) :
    Option (Links Stage) :=
  if expired cfg s r then m.evict st r else some m

/-- The timeout sweep; no queue holds more requests than were ever allocated. -/
def sweepTimedOut (cfg : Config Stage Worker) (s : State Stage Worker) (st : Stage) (flags : UInt32)
    (m : Links Stage) : Option (Links Stage) :=
  if sweeps cfg flags then
    Tailq.foreachSafe requests (sweepOne cfg s st) s.nreq (m.requests.tqhFirst (.stage st)) m
  else some m

/-- The locked branch of `send_to_pipeline`, in the state `s` of the counters. -/
def sendToPipeline (cfg : Config Stage Worker) (p : Pipeline) (st : Stage) (r : Nat) (flags : UInt32)
    (concat : Bool) (s : State Stage Worker) (m : Links Stage) : Option (Links Stage) := do
  let m ← m.concatBuffered p st concat
  let s := Csf.concatBuffered p st concat s
  if !hasFlag flags requestForce && stageFull cfg st s then some m
  else
    let m ← if kicksOut cfg st flags s then m.kickOutHead st else some m
    let m ← m.sweepTimedOut cfg s st flags
    some (m.insertTail (.stage st) r)

end Links

/-! ### What the operations do to the lists -/

section
variable {s : State Stage Worker} {m : Links Stage} {p : Pipeline} {st : Stage} {r : Nat}

theorem Represents.congr {s' : State Stage Worker} (h : Represents s m) (hq : queues s' = queues s)
    (hapq : s'.apq = s.apq) (hflag : ∀ p, (s'.pcb p).activeQueueEntry = (s.pcb p).activeQueueEntry) :
    Represents s' m where
  requests := hq ▸ h.requests
  active := hapq ▸ h.active
  entry := hapq ▸ h.entry
  flag p := by rw [hflag, hapq]; exact h.flag p

theorem Represents.entryEmpty_eq (h : Represents s m) (p : Pipeline) :
    m.active.entryEmpty p = !(s.pcb p).activeQueueEntry := by
  rw [Bool.eq_iff_iff, h.entry p, Bool.not_eq_true', ← h.flag p, Bool.not_eq_true]

theorem Represents.apq_length_le (h : Represents s m) : s.apq.length ≤ pipelineSize := by
  have hcard := (h.active.holds ()).nodup.length_le_card
  rwa [Fintype.card_fin] at hcard

theorem Represents.empty_eq (h : Represents s m) (q : QueueHead Stage) :
    m.requests.empty q = (queues s q).isEmpty :=
  (h.requests.holds q).empty_eq

theorem Represents.unlinkActive (h : Represents s m) (hp : p ∈ s.apq) :
    ∃ m', m.unlinkActive p = some m' ∧ Represents (Csf.unlinkActive p s) m' := by
  obtain ⟨active, hrem, hrep⟩ := h.active.remove_of_mem (h := ()) hp
  have hnd := (h.active.holds ()).nodup
  have hout : ∀ u : Unit, p ∉ Function.update (fun _ : Unit => s.apq) () (s.apq.erase p) u := by
    intro u
    rw [Function.update_self]
    exact hnd.not_mem_erase
  refine ⟨{ m with active := active.entryInit p }, by simp [Links.unlinkActive, hrem], ?_, ?_, fun q => ?_, fun q => ?_⟩
  · have hq : queues (Csf.unlinkActive p s) = queues s := by
      funext q
      cases q with
      | tmp q =>
        by_cases hqp : q = p
        · subst hqp; simp [queues, Csf.unlinkActive]
        · simp [queues, Csf.unlinkActive, Function.update_of_ne hqp]
      | _ => rfl
    rw [hq]
    exact h.requests
  · have hfun : (fun _ : Unit => (Csf.unlinkActive p s).apq) = Function.update (fun _ => s.apq) () (s.apq.erase p) := by
      funext u
      rw [Function.update_self]
      rfl
    rw [hfun]
    exact hrep.entryInit hout
  · by_cases hqp : q = p
    · subst hqp
      simp [Csf.unlinkActive, hnd.not_mem_erase]
    · simp only [Csf.unlinkActive]
      rw [Tailq.entryEmpty_entryInit_of_ne _ hqp, hnd.mem_erase_iff]
      by_cases hqa : q ∈ s.apq
      · have hq' : q ∈ Function.update (fun _ : Unit => s.apq) () (s.apq.erase p) () := by
          rw [Function.update_self]
          exact hnd.mem_erase_iff.mpr ⟨hqp, hqa⟩
        simp [(hrep.holds ()).entryEmpty_of_mem hq', hqp, hqa]
      · rw [h.active.entryEmpty_remove hp hrem hqa, h.entry q]
        simp [hqa]
  · by_cases hqp : q = p
    · subst hqp
      simp [Csf.unlinkActive, hnd.not_mem_erase]
    · simp [Csf.unlinkActive, hnd.mem_erase_iff, hqp, h.flag q]

theorem Represents.linkActive (h : Represents s m) (p : Pipeline) (r : Nat) :
    Represents (countBuffered p r s) (m.linkActive p) := by
  have hq : queues (countBuffered p r s) = queues s := by
    funext q
    cases q with
    | tmp q =>
      by_cases hqp : q = p
      · subst hqp; simp [queues, countBuffered]
      · simp [queues, countBuffered, Function.update_of_ne hqp]
    | _ => rfl
  have hflag : ∀ q, q ≠ p → ((countBuffered p r s).pcb q).activeQueueEntry = (s.pcb q).activeQueueEntry := by
    intro q hqp
    simp [countBuffered, Function.update_of_ne hqp]
  have hflag' : ((countBuffered p r s).pcb p).activeQueueEntry = true := by simp [countBuffered]
  unfold Links.linkActive
  split
  next hentry =>
    have hp : p ∉ s.apq := (h.entry p).mp hentry
    have hoff : (s.pcb p).activeQueueEntry = false := by
      rw [← Bool.not_eq_true, h.flag p]
      exact hp
    have hapq : (countBuffered p r s).apq = s.apq ++ [p] := by simp [countBuffered, hoff]
    have hrep := h.active.insertTail (h := ()) (e := p) fun _ => hp
    have hfun : (fun _ : Unit => s.apq ++ [p]) = Function.update (fun _ => s.apq) () (s.apq ++ [p]) := by
      funext u
      rw [Function.update_self]
    refine ⟨by rw [hq]; exact h.requests, by rw [hapq, hfun]; exact hrep, fun q => ?_, fun q => ?_⟩
    · rw [hapq]
      by_cases hqp : q = p
      · subst hqp
        have hmem : q ∈ Function.update (fun _ : Unit => s.apq) () (s.apq ++ [q]) () := by simp
        simp [(hrep.holds ()).entryEmpty_of_mem hmem]
      by_cases hqa : q ∈ s.apq
      · have hmem : q ∈ Function.update (fun _ : Unit => s.apq) () (s.apq ++ [p]) () := by simp [hqa]
        simp [(hrep.holds ()).entryEmpty_of_mem hmem, hqa]
      · rw [h.active.entryEmpty_insertTail hqa hqp, h.entry q]
        simp [hqa, hqp]
    · rw [hapq]
      by_cases hqp : q = p
      · subst hqp
        simp [hflag']
      · rw [hflag q hqp, h.flag q]
        simp [hqp]
  next hentry =>
    have hp : p ∈ s.apq := by
      by_contra hnot
      exact hentry ((h.entry p).mpr hnot)
    have hon := (h.flag p).mpr hp
    refine h.congr hq (by simp [countBuffered, hon]) fun q => ?_
    by_cases hqp : q = p
    · subst hqp
      rw [hflag', hon]
    · exact hflag q hqp

theorem Represents.setRequests {s' : State Stage Worker} {m' : Tailq (QueueHead Stage) Nat} (h : Represents s m)
    (hrep : m'.Rep (queues s')) (hapq : s'.apq = s.apq)
    (hflag : ∀ p, (s'.pcb p).activeQueueEntry = (s.pcb p).activeQueueEntry) :
    Represents s' { m with requests := m' } where
  requests := hrep
  active := hapq ▸ h.active
  entry := hapq ▸ h.entry
  flag p := by rw [hflag, hapq]; exact h.flag p

variable [DecidableEq Stage]

theorem Represents.insertTail {s' : State Stage Worker} {q : QueueHead Stage} (h : Represents s m)
    (hr : ∀ q, r ∉ queues s q) (hq : queues s' = Function.update (queues s) q (queues s q ++ [r]))
    (hapq : s'.apq = s.apq) (hflag : ∀ p, (s'.pcb p).activeQueueEntry = (s.pcb p).activeQueueEntry) :
    Represents s' (m.insertTail q r) :=
  h.setRequests (by rw [hq]; exact h.requests.insertTail hr) hapq hflag

theorem Represents.remove {s' : State Stage Worker} {q : QueueHead Stage} (h : Represents s m)
    (hr : r ∈ queues s q) (hq : queues s' = Function.update (queues s) q ((queues s q).erase r))
    (hapq : s'.apq = s.apq) (hflag : ∀ p, (s'.pcb p).activeQueueEntry = (s.pcb p).activeQueueEntry) :
    ∃ m', m.remove q r = some m' ∧ Represents s' m' := by
  obtain ⟨requests, hrem, hrep⟩ := h.requests.remove_of_mem hr
  exact ⟨{ m with requests := requests }, by simp [Links.remove, hrem],
    h.setRequests (by rw [hq]; exact hrep) hapq hflag⟩

theorem Represents.concat {s' : State Stage Worker} {q q' : QueueHead Stage} (h : Represents s m) (hne : q ≠ q')
    (hq : queues s' = Function.update (Function.update (queues s) q (queues s q ++ queues s q')) q' [])
    (hapq : s'.apq = s.apq) (hflag : ∀ p, (s'.pcb p).activeQueueEntry = (s.pcb p).activeQueueEntry) :
    ∃ m', m.concat q q' = some m' ∧ Represents s' m' := by
  obtain ⟨requests, hcat, hrep⟩ := h.requests.concat hne
  exact ⟨{ m with requests := requests }, by simp [Links.concat, hcat],
    h.setRequests (by rw [hq]; exact hrep) hapq hflag⟩

/-! ### The lists after an operation -/

theorem queues_concatTmp (p : Pipeline) (st : Stage) (s : State Stage Worker) :
    queues (concatTmp p st s) = Function.update (Function.update (queues s) (.stage st)
      (queues s (.stage st) ++ queues s (.tmp p))) (.tmp p) [] := by
  funext q
  cases q with
  | tmp q =>
    by_cases hq : q = p
    · subst hq; simp [queues, concatTmp]
    · simp [queues, concatTmp, hq]
  | stage q =>
    by_cases hq : q = st
    · subst hq; simp [queues, concatTmp]
    · simp [queues, concatTmp, hq]
  | _ => simp [queues, concatTmp]

theorem queues_insertTail (st : Stage) (r : Nat) (s : State Stage Worker) :
    queues (insertTail st r s) = Function.update (queues s) (.stage st) (queues s (.stage st) ++ [r]) := by
  funext q
  cases q with
  | stage q =>
    by_cases hq : q = st
    · subst hq; simp [queues, insertTail]
    · simp [queues, insertTail, hq]
  | _ => simp [queues, insertTail]

theorem queues_evict (st : Stage) (r : Nat) (s : State Stage Worker) :
    queues (evict st r s) = Function.update (Function.update (queues s) (.stage st) ((queues s (.stage st)).erase r))
      .final (queues s .final ++ [r]) := by
  funext q
  cases q with
  | stage q =>
    by_cases hq : q = st
    · subst hq; simp [queues, evict]
    · simp [queues, evict, hq]
  | _ => simp [queues, evict]

theorem flag_concatTmp (p : Pipeline) (st : Stage) (s : State Stage Worker) (q : Pipeline) :
    ((concatTmp p st s).pcb q).activeQueueEntry = (s.pcb q).activeQueueEntry := by
  by_cases hq : q = p
  · subst hq; simp [concatTmp]
  · simp [concatTmp, hq]

/-! ### `kick_request_queue` -/

theorem Represents.concatTmp (h : Represents s m) (p : Pipeline) (st : Stage) :
    ∃ m', m.concat (.stage st) (.tmp p) = some m' ∧ Represents (Csf.concatTmp p st s) m' :=
  h.concat (by simp) (queues_concatTmp p st s) rfl (flag_concatTmp p st s)

theorem Represents.kickPcb (h : Represents s m) (cfg : Config Stage Worker) (ok : Pipeline → Bool) (hp : p ∈ s.apq) :
    ∃ m', m.kickPcb cfg ok p = some m' ∧ Represents (Csf.kickPcb cfg ok s p) m' := by
  have hempty : m.requests.empty (.tmp p) = true ↔ (s.pcb p).tmpRequestHead = [] := by
    rw [h.empty_eq, List.isEmpty_iff]
    rfl
  unfold Links.kickPcb Csf.kickPcb
  by_cases htmp : (s.pcb p).tmpRequestHead = []
  · rw [if_pos (hempty.mpr htmp), if_pos htmp]
    exact h.unlinkActive hp
  rw [if_neg (mt hempty.mp htmp), if_neg htmp]
  cases cfg.firstRqcb p with
  | none => exact ⟨m, rfl, h⟩
  | some st =>
    dsimp only
    split_ifs with hok
    · obtain ⟨m₁, hm₁, h₁⟩ := h.concatTmp p st
      obtain ⟨m₂, hm₂, h₂⟩ := h₁.unlinkActive hp
      exact ⟨m₂, by rw [hm₁, Option.bind_some, hm₂], h₂⟩
    · exact ⟨m, rfl, h⟩

theorem apq_kickPcb (cfg : Config Stage Worker) (ok : Pipeline → Bool) {done rest : List Pipeline}
    (hapq : s.apq = done ++ p :: rest) (hnd : s.apq.Nodup) :
    ∃ done', (Csf.kickPcb cfg ok s p).apq = done' ++ rest := by
  have herase : s.apq.erase p = done ++ rest := by
    have hp : p ∉ done := by
      rw [hapq] at hnd
      exact fun hmem => (List.nodup_append.mp hnd).2.2 p hmem p List.mem_cons_self rfl
    rw [hapq, List.erase_append_right _ hp, List.erase_cons_head]
  have hkeep : s.apq = (done ++ [p]) ++ rest := by simpa using hapq
  unfold Csf.kickPcb
  split
  · exact ⟨done, herase⟩
  · split
    · split_ifs
      · exact ⟨done, herase⟩
      · exact ⟨_, hkeep⟩
    · exact ⟨_, hkeep⟩

theorem Represents.kickRequestQueue (h : Represents s m) (cfg : Config Stage Worker) (ok : Pipeline → Bool) :
    ∃ m', m.kickRequestQueue cfg ok = some m' ∧ Represents (Csf.kickRequestQueue cfg ok s) m' := by
  let I : List Pipeline → Links Stage → Prop := fun rest m => ∃ t : State Stage Worker, Represents t m ∧
    (∃ done, t.apq = done ++ rest) ∧ rest.foldl (Csf.kickPcb cfg ok) t = Csf.kickRequestQueue cfg ok s
  have hnext : ∀ {p rest m}, I (p :: rest) m → m.active.tqeNext p = rest.head?.elim .null .elm := by
    rintro p rest m ⟨t, ht, ⟨done, happ⟩, -⟩
    have hq := ht.active.holds ()
    rw [happ] at hq
    exact hq.next_eq
  have hbody : ∀ {p rest m}, I (p :: rest) m → ∃ m', Links.kickPcb cfg ok p m = some m' ∧ I rest m' := by
    rintro p rest m ⟨t, ht, ⟨done, happ⟩, hfold⟩
    obtain ⟨m', hm', ht'⟩ := ht.kickPcb cfg ok (p := p) (by rw [happ]; simp)
    exact ⟨m', hm', _, ht', apq_kickPcb cfg ok happ (ht.active.holds ()).nodup, hfold⟩
  obtain ⟨m', hm', t, ht, -, hfold⟩ :=
    Tailq.foreachSafe_rule hnext hbody s.apq h.apq_length_le ⟨s, h, ⟨[], rfl⟩, rfl⟩
  refine ⟨m', ?_, ?_⟩
  · rw [Links.kickRequestQueue, (h.active.holds ()).first_eq]
    exact hm'
  · exact hfold ▸ ht

/-! ### `send_to_pipeline` -/

theorem Represents.concatBuffered (h : Represents s m) (p : Pipeline) (st : Stage) (concat : Bool) :
    ∃ m', m.concatBuffered p st concat = some m' ∧ Represents (Csf.concatBuffered p st concat s) m' := by
  cases concat with
  | false => exact ⟨m, rfl, h⟩
  | true =>
    obtain ⟨m₁, hm₁, h₁⟩ := h.concatTmp p st
    have hentry := h₁.entryEmpty_eq p
    rw [flag_concatTmp] at hentry
    simp only [Links.concatBuffered, Csf.concatBuffered, hm₁, if_true, Option.bind_eq_bind, Option.bind_some]
    cases hflag : (s.pcb p).activeQueueEntry with
    | false =>
      rw [hflag] at hentry
      exact ⟨m₁, by simp [hentry], by simpa using h₁⟩
    | true =>
      rw [hflag] at hentry
      obtain ⟨m₂, hm₂, h₂⟩ := h₁.unlinkActive ((h.flag p).mp hflag)
      exact ⟨m₂, by simp [hentry, hm₂], by simpa using h₂⟩

theorem Represents.evict (h : Represents s m) (hr : r ∈ (s.rqcb st).requestHead) :
    ∃ m', m.evict st r = some m' ∧ Represents (Csf.evict st r s) m' := by
  obtain ⟨requests, hrem, hrep⟩ := h.requests.remove_of_mem (h := .stage st) hr
  have hnd := (h.requests.holds (.stage st)).nodup
  have hout : ∀ q, r ∉ Function.update (queues s) (.stage st) ((queues s (.stage st)).erase r) q := by
    intro q
    by_cases hq : q = .stage st
    · subst hq
      rw [Function.update_self]
      exact hnd.not_mem_erase
    · rw [Function.update_of_ne hq]
      exact fun hmem => hq (h.requests.apart hmem hr)
  refine ⟨({ m with requests := requests } : Links Stage).insertTail .final r, by simp [Links.evict, Links.remove, hrem], ?_⟩
  refine h.setRequests ?_ rfl fun _ => rfl
  rw [queues_evict]
  exact hrep.insertTail (h := .final) hout

theorem Represents.kickOutHead {rest : List Nat} (h : Represents s m) (hl : (s.rqcb st).requestHead = r :: rest) :
    ∃ m', m.kickOutHead st = some m' ∧ Represents (Csf.kickOutHead st r s) m' := by
  have hq : m.requests.Holds (.stage st) (s.rqcb st).requestHead := h.requests.holds (.stage st)
  have hflagged : Represents { s with heap := Function.update s.heap r { s.heap r with flags := requestKickOut } } m :=
    h.congr rfl rfl fun _ => rfl
  rw [hl] at hq
  rw [Links.kickOutHead, hq.first_cons]
  exact hflagged.evict (by rw [hl]; exact List.mem_cons_self)

/-- The sweep visits the requests that were waiting when it started, although it moves some of them away. Its test
reads the clock of the state `s₀` before the kick-out. -/
theorem Represents.sweepTimedOut {s₀ : State Stage Worker} (h : Represents s m) (cfg : Config Stage Worker) (st : Stage)
    (flags : UInt32) (hexp : expired cfg s = expired cfg s₀) (hlt : ∀ r ∈ (s.rqcb st).requestHead, r < s₀.nreq) :
    ∃ m', m.sweepTimedOut cfg s₀ st flags = some m' ∧ Represents (Csf.sweepTimedOut cfg st flags s) m' := by
  unfold Links.sweepTimedOut Csf.sweepTimedOut
  split_ifs
  case neg => exact ⟨m, rfl, h⟩
  let I : List Nat → Links Stage → Prop := fun rest m => ∃ t : State Stage Worker, Represents t m ∧
    expired cfg t = expired cfg s₀ ∧ (∃ done, (t.rqcb st).requestHead = done ++ rest) ∧
    rest.foldl (Csf.sweepOne cfg st) t = (s.rqcb st).requestHead.foldl (Csf.sweepOne cfg st) s
  have hnext : ∀ {r rest m}, I (r :: rest) m → m.requests.tqeNext r = rest.head?.elim .null .elm := by
    rintro r rest m ⟨t, ht, -, ⟨done, happ⟩, -⟩
    have hq : m.requests.Holds (.stage st) (t.rqcb st).requestHead := ht.requests.holds (.stage st)
    rw [happ] at hq
    exact hq.next_eq
  have hbody : ∀ {r rest m}, I (r :: rest) m → ∃ m', Links.sweepOne cfg s₀ st r m = some m' ∧ I rest m' := by
    rintro r rest m ⟨t, ht, hsame, ⟨done, happ⟩, hfold⟩
    have hnd : (t.rqcb st).requestHead.Nodup := (ht.requests.holds (.stage st)).nodup
    rw [List.foldl_cons, Csf.sweepOne, hsame] at hfold
    unfold Links.sweepOne
    split_ifs at hfold ⊢
    · have hr : r ∈ (t.rqcb st).requestHead := by rw [happ]; simp
      obtain ⟨m', hm', ht'⟩ := ht.evict hr
      refine ⟨m', hm', _, ht', hsame, ⟨done, ?_⟩, hfold⟩
      have hr : r ∉ done := by
        rw [happ] at hnd
        exact fun hmem => (List.nodup_append.mp hnd).2.2 r hmem r List.mem_cons_self rfl
      simp only [Csf.evict, Function.update_self]
      rw [happ, List.erase_append_right _ hr, List.erase_cons_head]
    · exact ⟨m, rfl, t, ht, hsame, ⟨done ++ [r], by simpa using happ⟩, hfold⟩
  have hq : m.requests.Holds (.stage st) (s.rqcb st).requestHead := h.requests.holds (.stage st)
  obtain ⟨m', hm', t, ht, -, -, hfold⟩ :=
    Tailq.foreachSafe_rule hnext hbody (s.rqcb st).requestHead (hq.length_le hlt) ⟨s, h, hexp, ⟨[], rfl⟩, rfl⟩
  refine ⟨m', ?_, ?_⟩
  · rw [hq.first_eq]
    exact hm'
  · exact hfold ▸ ht

variable [Fintype Stage] [Fintype Worker] [DecidableEq Worker]

omit [DecidableEq Stage] [DecidableEq Worker] in
theorem notMem_queues (hr : occ (places s) r = 0) (q : QueueHead Stage) : r ∉ queues s q := by
  have hnone := occ_eq_zero_iff.mp hr
  cases q with
  | tmp p => exact hnone (.tmp p)
  | stage st => exact hnone (.stage st)
  | done => exact hnone .done
  | final => exact hnone .final

omit [DecidableEq Stage] [DecidableEq Worker] in
theorem occ_pos_of_mem_stage (hr : r ∈ (s.rqcb st).requestHead) : 0 < occ (places s) r :=
  occ_pos_iff.mpr ⟨.stage st, hr⟩

theorem Represents.sweepAndInsert {s₀ : State Stage Worker} (h : Represents s m) (cfg : Config Stage Worker) (st : Stage)
    (flags : UInt32) (kicked : Bool) (hexp : expired cfg s = expired cfg s₀)
    (hlt : ∀ x, 0 < occ (places s) x → x < s₀.nreq) (hr : occ (places s) r = 0) :
    ∃ m', (m.sweepTimedOut cfg s₀ st flags).map (Links.insertTail (.stage st) r) = some m' ∧
      Represents (Csf.sweepAndInsert cfg st r flags kicked s).1 m' := by
  obtain ⟨m₁, hm₁, h₁⟩ := h.sweepTimedOut cfg st flags hexp fun x hx => hlt x (occ_pos_of_mem_stage hx)
  obtain ⟨ev, hmove, -⟩ := QueueMove.sweepTimedOut cfg st flags s
  have hout : occ (places (Csf.sweepTimedOut cfg st flags s)) r = 0 := by
    rw [hmove.occ r, hr]
    rfl
  exact ⟨m₁.insertTail (.stage st) r, by rw [hm₁]; rfl,
    h₁.insertTail (notMem_queues hout) (queues_insertTail st r _) rfl fun _ => rfl⟩

theorem Represents.sendToPipeline (h : Represents s m) (cfg : Config Stage Worker) (p : Pipeline) (st : Stage)
    (flags : UInt32) (concat : Bool) (hlt : ∀ x, 0 < occ (places s) x → x < s.nreq) (hr : occ (places s) r = 0)
    (hhead : (Csf.sendToPipeline cfg p st r flags concat s).2 ≠ .nullHead) :
    ∃ m', m.sendToPipeline cfg p st r flags concat s = some m' ∧
      Represents (Csf.sendToPipeline cfg p st r flags concat s).1 m' := by
  obtain ⟨m₁, hm₁, h₁⟩ := h.concatBuffered p st concat
  have hmove := QueueMove.concatBuffered p st concat s
  have hnreq : (Csf.concatBuffered p st concat s).nreq = s.nreq := hmove.keeps State.nreq fun _ => rfl
  unfold Links.sendToPipeline
  unfold Csf.sendToPipeline at hhead ⊢
  simp only [hm₁, Option.bind_eq_bind, Option.bind_some] at hhead ⊢
  generalize Csf.concatBuffered p st concat s = s₁ at *
  have hlt₁ : ∀ x, 0 < occ (places s₁) x → x < s₁.nreq := by
    intro x hx
    rw [hmove.occ x, List.count_nil, Nat.add_zero] at hx
    rw [hnreq]
    exact hlt x hx
  have hr₁ : occ (places s₁) r = 0 := by
    rw [hmove.occ r, hr]
    rfl
  split_ifs at hhead ⊢ with hfull hkick
  · exact ⟨m₁, rfl, h₁⟩
  · -- the first request is kicked out
    cases hl : (s₁.rqcb st).requestHead with
    | nil =>
      rw [hl] at hhead
      exact absurd rfl hhead
    | cons x rest =>
      have hx : x ∈ (s₁.rqcb st).requestHead := by rw [hl]; exact List.mem_cons_self
      obtain ⟨m₂, hm₂, h₂⟩ := h₁.kickOutHead hl
      have hout := QueueMove.kickOutHead hx
      have hexp : expired cfg (Csf.kickOutHead st x s₁) = expired cfg s₁ := by
        funext y
        simp only [expired, Csf.kickOutHead, Csf.evict]
        by_cases hy : y = x
        · subst hy; simp
        · simp [hy]
      obtain ⟨m₃, hm₃, h₃⟩ := h₂.sweepAndInsert cfg st flags true hexp
        (fun y hy => hlt₁ y (by rw [hout.occ y] at hy; simpa using hy)) (by rw [hout.occ r, hr₁]; rfl)
      refine ⟨m₃, ?_, h₃⟩
      rw [hm₂, Option.bind_some, ← hm₃]
      cases m₂.sweepTimedOut cfg s₁ st flags <;> rfl
  · obtain ⟨m₂, hm₂, h₂⟩ := h₁.sweepAndInsert cfg st flags false rfl hlt₁ hr₁
    refine ⟨m₂, ?_, h₂⟩
    rw [← hm₂]
    cases m₁.sweepTimedOut cfg s₁ st flags <;> rfl

omit [Fintype Stage] [Fintype Worker] [DecidableEq Worker] in
theorem Represents.sendToPipeline_nullHead (h : Represents s m) (cfg : Config Stage Worker) (p : Pipeline) (st : Stage)
    (flags : UInt32) (concat : Bool) (hhead : (Csf.sendToPipeline cfg p st r flags concat s).2 = .nullHead) :
    m.sendToPipeline cfg p st r flags concat s = none := by
  obtain ⟨m₁, hm₁, h₁⟩ := h.concatBuffered p st concat
  unfold Links.sendToPipeline
  unfold Csf.sendToPipeline at hhead
  simp only [hm₁, Option.bind_eq_bind, Option.bind_some] at hhead ⊢
  generalize Csf.concatBuffered p st concat s = s₁ at *
  split_ifs at hhead ⊢ with hfull hkick
  · have hq : m₁.requests.Holds (.stage st) (s₁.rqcb st).requestHead := h₁.requests.holds (.stage st)
    cases hl : (s₁.rqcb st).requestHead with
    | nil =>
      rw [hl] at hq
      rw [Links.kickOutHead, hq.first_nil]
      rfl
    | cons x rest =>
      rw [hl] at hhead
      cases hhead
  · cases hhead

end

end Csf
