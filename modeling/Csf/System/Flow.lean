import Csf.Pipeline.Life
import Csf.System.Frame

/-!
# Every request lives the life of the model

`life s r` reads off a state how far request `r` is. `life_step` is the simulation: a step of any thread
takes every request through steps of `Life.Step`, provided no handler passes on a request that is past the
loop limit (`Regular`). The run lemma `flowInv` carries the invariant over every run.
-/

namespace Csf

open Lib

variable {Stage Worker : Type}

/-! ### Reading a life off a state -/

/-- The phase of `submit_request` for request `r`. -/
def subPhase : SubmitPc Stage → Nat → SubPhase
  | .none, _ => .idle
  | .checked r' _ _ _ _, r => if r' = r then .checked else .idle
  | .inserted r' _ _ _, r | .buffered r' _, r => if r' = r then .linked else .idle
  | .noticeTest r' _, r | .noticeSet r' _, r | .noticeWrite r' _, r | .sent r' _, r =>
    if r' = r then .counted else .idle

def loopPhase : MainPc Stage → Nat → LoopPhase
  | .respond r' _ _, r => if r' = r then .taken else .idle
  | .calling r' _, r => if r' = r then .called else .idle
  | .dispose r' _ _, r => if r' = r then .finishing else .idle
  | _, _ => .idle

def life [Fintype Stage] [Fintype Worker] (s : State Stage Worker) (r : Nat) : Life where
  born := r < s.nreq
  sub := subPhase s.sub r
  loop := loopPhase s.main r
  occ := occ (places s) r
  final := s.finalRequestHead.count r
  inserted := s.trace.count (.inserted r)
  counted := s.trace.count (.counted r)
  accepted := s.trace.count (.accepted r)
  evicted := s.trace.count (.evicted r)
  taken := s.trace.count (.taken r)
  passed := s.trace.count (.passed r)
  responded := s.trace.count (.responded r)
  cleaned := s.trace.count (.cleaned r)
  freed := s.trace.count (.freed r)

theorem life_congr [Fintype Stage] [Fintype Worker] {s s' : State Stage Worker} {r : Nat}
    (hnreq : s'.nreq = s.nreq) (hsub : subPhase s'.sub r = subPhase s.sub r)
    (hloop : loopPhase s'.main r = loopPhase s.main r) (hocc : occ (places s') r = occ (places s) r)
    (hfinal : s'.finalRequestHead.count r = s.finalRequestHead.count r)
    (htrace : ∀ e : Event, e.about = some r → s'.trace.count e = s.trace.count e) : life s' r = life s r := by
  simp only [life, hnreq, hsub, hloop, hocc, hfinal, htrace (.inserted r) rfl, htrace (.counted r) rfl,
    htrace (.accepted r) rfl, htrace (.evicted r) rfl, htrace (.taken r) rfl, htrace (.passed r) rfl,
    htrace (.responded r) rfl, htrace (.cleaned r) rfl, htrace (.freed r) rfl]

theorem life_same [Fintype Stage] [Fintype Worker] {s s' : State Stage Worker} {r : Nat}
    (hsub : subPhase s'.sub r = subPhase s.sub r) (hloop : loopPhase s'.main r = loopPhase s.main r)
    (hnreq : s'.nreq = s.nreq) (hrqcb : s'.rqcb = s.rqcb) (hpcb : s'.pcb = s.pcb) (hwk : s'.wk = s.wk)
    (hdone : s'.doneRqcb = s.doneRqcb) (hfinal : s'.finalRequestHead = s.finalRequestHead)
    (htrace : s'.trace = s.trace) : life s' r = life s r := by
  have hplaces : places s' = places s := by rw [places, hrqcb, hpcb, hwk, hdone, hfinal]; rfl
  exact life_congr hnreq hsub hloop (by rw [hplaces]) (by rw [hfinal]) fun e _ => by rw [htrace]

theorem count_cons_of_about_ne {e₀ e : Event} {r : Nat} (h₀ : e₀.about ≠ some r) (he : e.about = some r)
    (l : List Event) : (e₀ :: l).count e = l.count e :=
  List.count_cons_of_ne (by rintro rfl; exact h₀ he)

/-! ### What a life depends on besides -/

/-- `submit_next` has at most the current insertion to make. -/
def SingleDest : WorkerPc Stage → Prop
  | .routing _ dests => ∃ d, dests = [d]
  | .doneLocked _ rest | .doneInserted _ rest | .doneTest _ rest | .doneSet _ rest | .doneWrite _ rest =>
    rest = []
  | _ => True

/-- The pointers of the done loop point into the final queue; `tmpreq` still does when the current request
is gone. -/
def Cursor (final : List Nat) : MainPc Stage → Prop
  | .iter cur _ => ∀ x ∈ cur, x ∈ final
  | .respond r next _ | .calling r next | .dispose r next _ => r ∈ final ∧ ∀ x ∈ next, x ∈ final.erase r
  | .testExit next _ | .broadcast _ next _ => ∀ x ∈ next, x ∈ final
  | _ => True

def MainPc.current : MainPc Stage → Option Nat
  | .iter cur _ => cur
  | .respond r _ _ | .calling r _ | .dispose r _ _ => some r
  | _ => none

theorem Cursor.mem_of_current {final : List Nat} {m : MainPc Stage} (h : Cursor final m) {r : Nat}
    (hr : m.current = some r) : r ∈ final := by
  cases m with
  | iter cur rc => exact h r hr
  | respond q next rc | calling q next | dispose q next rc =>
    obtain rfl := Option.some.inj hr
    exact h.1
  | _ => exact absurd hr (Option.some_ne_none r).symm

theorem mem_of_tailqNext {r x : Nat} {l : List Nat} (h : tailqNext r l = some x) : x ∈ l.erase r := by
  induction l with
  | nil => simp [tailqNext] at h
  | cons y l ih =>
    rw [tailqNext] at h
    split_ifs at h with hy
    · subst hy
      rw [List.erase_cons_head]
      exact List.mem_of_mem_head? h
    · rw [List.erase_cons_tail (by simpa using hy)]
      exact List.mem_cons_of_mem _ (ih h)

theorem Cursor.append {final : List Nat} {m : MainPc Stage} (h : Cursor final m) (ev : List Nat) :
    Cursor (final ++ ev) m := by
  have hwindow : ∀ r, r ∈ final → ∀ x ∈ final.erase r, x ∈ (final ++ ev).erase r := fun r hr x hx => by
    rw [List.erase_append_left _ hr]
    exact List.mem_append_left _ hx
  cases m with
  | iter | testExit | broadcast => exact fun x hx => List.mem_append_left _ (h x hx)
  | respond r | calling r | dispose r =>
    exact ⟨List.mem_append_left _ h.1, fun x hx => hwindow r h.1 x (h.2 x hx)⟩
  | _ => trivial

/-- No handler passes on a request that is past the loop limit. -/
def Regular (s : State Stage Worker) : Action Stage Worker → Prop
  | .worker _ (.handle r _ _ ret _) => passesOn ret → (s.heap r).nstage ≤ maxStageJump
  | _ => True

instance (s : State Stage Worker) (a : Action Stage Worker) : Decidable (Regular s a) := by
  unfold Regular
  split <;> infer_instance

/-- The signal thread runs `kick_request_queue`. The main thread may be running it too, and nothing keeps the two apart:
both walk `apq` and unlink its pipelines without a lock. -/
def signalKicks : Action Stage Worker → Bool
  | .signals (.kick ..) => true
  | _ => false

variable [DecidableEq Worker]

theorem inHand_wake (ws : List Worker) {wk : Worker → WorkerPc Stage} (h : ∀ w ∈ ws, wk w = .waiting)
    (w : Worker) : inHand (wake ws wk w) = inHand (wk w) :=
  eq_of_wake inHand rfl (wake_cases h w)

theorem inHand_update {wk : Worker → WorkerPc Stage} {w : Worker} {pc : WorkerPc Stage}
    (h : inHand pc = inHand (wk w)) (v : Worker) : inHand (Function.update wk w pc v) = inHand (wk v) := by
  by_cases hv : v = w
  · subst hv; simpa using h
  · rw [Function.update_of_ne hv]

variable [DecidableEq Stage]

variable [Fintype Stage] [Fintype Worker]

/-- The request that a step of a worker puts into a queue while the worker keeps it for another insertion. -/
def copies : WorkerAct Stage Worker → List Nat
  | .forward r _ rest _ | .doneInsert r rest => if rest.isEmpty then [] else [r]
  | _ => []

omit [DecidableEq Worker] [DecidableEq Stage] [Fintype Stage] [Fintype Worker] in
theorem inHand_resume (r : Nat) (rest : List (Dest Stage)) :
    inHand (resume r rest) = if rest.isEmpty then [] else [r] := by
  cases rest <;> rfl

/-- A step of a worker moves a request from one place to another, leaves all of them, or copies the one in its
hands. -/
theorem occ_workerEffect_copies {cfg : Config Stage Worker} {s : State Stage Worker} {w : Worker}
    {a : WorkerAct Stage Worker} (hg : workerGuard cfg s w a) (x : Nat) :
    occ (places (workerEffect cfg s w a)) x = occ (places s) x + (copies a).count x := by
  have hkeep : ∀ pc, inHand pc = inHand (s.wk w) →
      placesOf s.rqcb s.pcb (Function.update s.wk w pc) s.doneRqcb s.finalRequestHead = places s :=
    fun pc h => placesOf_congr_wk _ _ _ _ (inHand_update h)
  cases a with
  | dequeue r rest =>
    obtain ⟨hpc, hhead, -⟩ := hg
    have h := occ_update₂ (places s) (p := .stage (cfg.rqcb w)) (q := .hand w) (by simp) rest [r] x
    simp only [places, placesOf, workerEffect, setWk, setMutex, placesOf_update_rqcb, placesOf_update_wk, hpc,
      hhead, inHand, copies, List.count_cons, List.count_nil] at h ⊢
    omega
  | forward r st rest ws =>
    obtain ⟨hpc, -, hsig, -⟩ := hg
    have hwk := placesOf_congr_wk s.rqcb s.pcb s.doneRqcb s.finalRequestHead
      (inHand_wake ws fun w hw => (hsig w hw).1)
    have h := occ_update₂ (places s) (p := .stage st) (q := .hand w) (by simp)
      ((s.rqcb st).requestHead ++ [r]) (if rest.isEmpty then [] else [r]) x
    simp only [places, workerEffect, setWk, setReq, toNextStage, placesOf_update_rqcb, placesOf_update_wk, hwk,
      inHand_resume] at h ⊢
    simp only [placesOf, hpc, inHand, copies, List.count_append] at h ⊢
    omega
  | doneInsert r rest =>
    have hpc : s.wk w = .doneLocked r rest := hg
    have h := occ_update₂ (places s) (p := .done) (q := .hand w) (by simp)
      (s.doneRqcb.requestHead ++ [r]) (if rest.isEmpty then [] else [r]) x
    simp only [places, workerEffect, setWk, placesOf_update_wk, inHand] at h ⊢
    rw [placesOf_done s.rqcb s.pcb s.wk s.doneRqcb]
    simp only [placesOf, hpc, inHand, copies, List.count_append] at h ⊢
    omega
  | doneWrite r rest =>
    have hpc : s.wk w = .doneWrite r rest := hg
    have h : placesOf s.rqcb s.pcb (Function.update s.wk w (resume r rest)) s.doneRqcb s.finalRequestHead = places s :=
      hkeep _ (by rw [hpc, inHand_resume]; rfl)
    exact congrArg (occ · x) ((writeByte_keeps cfg cfg.doneFd _ places fun _ _ => rfl).trans h)
  | handle r cl calls ret errno =>
    obtain ⟨hpc, -⟩ := hg
    have h := hkeep (.routing r (submitNext cfg (cfg.rqcb w) (afterCalls cfg (s.nextRqcbp w) calls)
      (s.heap r).nstage ret errno).dests) (by rw [hpc]; rfl)
    exact congrArg (occ · x) ((keeps_of_offConns (offConns_touchCsp r _) places fun _ => rfl).trans h)
  | doneSkip r rest =>
    obtain ⟨hpc, -⟩ := hg
    exact congrArg (occ · x) (hkeep _ (by rw [hpc, inHand_resume]; rfl))
  | wait | spurious | exit | doneUnlock | doneSet =>
    have hpc : s.wk w = _ := hg
    exact congrArg (occ · x) (hkeep _ (by rw [hpc]; rfl))
  | _ =>
    obtain ⟨hpc, -⟩ := hg
    exact congrArg (occ · x) (hkeep _ (by rw [hpc]; rfl))

omit [DecidableEq Worker] [DecidableEq Stage] [Fintype Stage] [Fintype Worker] in
theorem copies_eq_nil {cfg : Config Stage Worker} {s : State Stage Worker} {w : Worker} {a : WorkerAct Stage Worker}
    (hg : workerGuard cfg s w a) (hsd : SingleDest (s.wk w)) : copies a = [] := by
  cases a with
  | forward r st rest ws =>
    rw [hg.1] at hsd
    obtain ⟨d, hd⟩ : ∃ d, Dest.stage st :: rest = [d] := hsd
    obtain ⟨-, rfl⟩ := List.cons.inj hd
    rfl
  | doneInsert r rest =>
    rw [show s.wk w = _ from hg] at hsd
    obtain rfl : rest = [] := hsd
    rfl
  | _ => rfl

omit [DecidableEq Worker] [DecidableEq Stage] [Fintype Stage] [Fintype Worker] in
theorem mem_hand_of_copies {cfg : Config Stage Worker} {s : State Stage Worker} {w : Worker}
    {a : WorkerAct Stage Worker} (hg : workerGuard cfg s w a) {x : Nat} (hx : x ∈ copies a) :
    x ∈ places s (.hand w) := by
  have hsub : ∀ (b : Bool) (r : Nat), x ∈ (if b then [] else [r]) → x ∈ [r] := by
    intro b r h
    cases b
    · exact h
    · exact absurd h List.not_mem_nil
  cases a with
  | forward r st rest ws => simpa [places, placesOf, hg.1, inHand] using hsub _ _ hx
  | doneInsert r rest => simpa [places, placesOf, show s.wk w = _ from hg, inHand] using hsub _ _ hx
  | _ => exact absurd hx List.not_mem_nil

/-! ### The signal thread and the kicks -/

theorem occ_kickAll {cfg : Config Stage Worker} {s : State Stage Worker} {ok : Pipeline → Bool}
    {ws : Pipeline → List Worker} (h : KickOk cfg s ok ws) (x : Nat) :
    occ (places (kickAll cfg ok ws s)) x = occ (places s) x := by
  have hmove := QueueMove.kickRequestQueue cfg ok s
  have hwk := hmove.keeps State.wk fun _ => rfl
  have hplaces : places (kickAll cfg ok ws s) = places (kickRequestQueue cfg ok s) :=
    placesOf_congr_wk _ _ _ _ fun w => by
      rw [hwk]
      exact inHand_wake _ (fun _ => waiting_of_mem_kickWakes h) w
  rw [hplaces, hmove.occ]
  simp

omit [DecidableEq Worker] [Fintype Stage] [Fintype Worker] in
theorem inHand_broadcastWake (cfg : Config Stage Worker) (st : Stage) (wk : Worker → WorkerPc Stage)
    (w : Worker) : inHand (broadcastWake cfg st wk w) = inHand (wk w) :=
  eq_of_wake inHand rfl (broadcastWake_cases cfg st wk w)

/-! ### The simulation -/

theorem life_workerEffect {cfg : Config Stage Worker} {s : State Stage Worker} {w : Worker}
    {a : WorkerAct Stage Worker} (hg : workerGuard cfg s w a) {r : Nat} (hr : r ∉ copies a) :
    life (workerEffect cfg s w a) r = life s r := by
  have hocc : occ (places (workerEffect cfg s w a)) r = occ (places s) r := by
    rw [occ_workerEffect_copies hg, List.count_eq_zero_of_not_mem hr, Nat.add_zero]
  refine life_congr ?_ ?_ ?_ hocc ?_ fun e he => ?_
  · exact workerEffect_keeps cfg s w a State.nreq fun _ => rfl
  · exact workerEffect_keeps cfg s w a (fun t => subPhase t.sub r) fun _ => rfl
  · exact workerEffect_keeps cfg s w a (fun t => loopPhase t.main r) fun _ => rfl
  · exact workerEffect_keeps cfg s w a (fun t => t.finalRequestHead.count r) fun _ => rfl
  · rcases trace_workerEffect cfg s w a with h | ⟨x, h⟩ <;> rw [h]
    exact count_cons_of_about_ne (by simp [Event.about]) he _

theorem life_kickAll {cfg : Config Stage Worker} {s : State Stage Worker} {ok : Pipeline → Bool}
    {ws : Pipeline → List Worker} (h : KickOk cfg s ok ws) (r : Nat) :
    life (kickAll cfg ok ws s) r = life s r := by
  have hmove := QueueMove.kickRequestQueue cfg ok s
  refine life_congr ?_ ?_ ?_ (occ_kickAll h r) ?_ fun e _ => ?_
  · exact hmove.keeps State.nreq fun _ => rfl
  · exact hmove.keeps (fun t => subPhase t.sub r) fun _ => rfl
  · exact hmove.keeps (fun t => loopPhase t.main r) fun _ => rfl
  · exact congrArg (List.count r) (hmove.final.trans (List.append_nil _))
  · simpa [kickAll] using hmove.trace e

theorem life_signalEffect {cfg : Config Stage Worker} {s : State Stage Worker} {a : SignalAct Stage Worker}
    (hg : signalGuard cfg s a) (r : Nat) : life (signalEffect cfg s a) r = life s r := by
  cases a with
  | kick ok ws => exact life_kickAll (s := s) hg.2 r
  | broadcast st todo =>
    exact life_congr rfl rfl rfl
      (congrArg (occ · r) (placesOf_congr_wk _ _ _ _ (inHand_broadcastWake cfg st s.wk))) rfl fun _ _ => rfl
  | _ => rfl

/-- The steps of the main thread that move no request and change no phase. -/
def inert : MainAct Stage Worker → Bool
  | .submit .. | .send .. | .buffer .. | .count .. | .countBuffered .. | .returnTid .. | .take | .takeNull ..
  | .takeReq .. | .respond .. | .noResponder .. | .responderRet .. | .dispose .. => false
  | _ => true

theorem life_mainPlain_inert {cfg : Config Stage Worker} {s : State Stage Worker} {a : MainAct Stage Worker}
    (hg : mainGuard cfg s a) (ha : inert a = true) (r : Nat) : life (mainPlain cfg s a) r = life s r := by
  cases a with
  | submit | send | buffer | count | countBuffered | returnTid | take | takeNull | takeReq | respond
  | noResponder | responderRet | dispose => simp [inert] at ha
  | accept | writable | sendBack | refuse | idleTimeout => exact life_same rfl rfl rfl rfl rfl rfl rfl rfl rfl
  | noticeSkip | noticeClear =>
    obtain ⟨hsub, -⟩ := hg
    exact life_same (by rw [hsub]; rfl) rfl rfl rfl rfl rfl rfl rfl rfl
  | noticeSet | noticeWrite =>
    have hsub : s.sub = _ := hg
    exact life_same (by rw [hsub]; rfl) rfl rfl rfl rfl rfl rfl rfl rfl
  | kick ev ok ws =>
    obtain ⟨hm, hok⟩ := hg
    have hmain := (QueueMove.kickRequestQueue cfg ok s).keeps State.main fun _ => rfl
    rw [← life_kickAll hok r]
    exact life_same rfl (by simp only [mainPlain, mainEffect, kickAll, hmain, hm]; rfl) rfl rfl rfl rfl rfl rfl rfl
  | broadcast st todo next rc =>
    have hm : s.main = .broadcast (st :: todo) next rc := hg
    have hplaces := placesOf_congr_wk s.rqcb s.pcb s.doneRqcb s.finalRequestHead
      (inHand_broadcastWake cfg st s.wk)
    exact life_congr rfl rfl (by rw [hm]; rfl) (congrArg (occ · r) hplaces) rfl fun _ _ => rfl
  | datagram | drainRead | drainReset | finish | broadcastEnd =>
    have hm : s.main = _ := hg
    exact life_same rfl (by rw [hm]; rfl) rfl rfl rfl rfl rfl rfl rfl
  | _ =>
    obtain ⟨hm, -⟩ := hg
    exact life_same rfl (by rw [hm]; rfl) rfl rfl rfl rfl rfl rfl rfl

omit [DecidableEq Worker] [DecidableEq Stage] in
theorem life_queueMove {s s₁ : State Stage Worker} {ev new : List Nat} (h : QueueMove s s₁ ev new) (r : Nat) :
    life s₁ r = { life s r with
      occ := (life s r).occ + new.count r
      final := (life s r).final + ev.count r
      inserted := (life s r).inserted + new.count r
      evicted := (life s r).evicted + ev.count r } := by
  have hother := fun e => h.trace_other (e := e)
  have hnreq := h.keeps State.nreq fun _ => rfl
  have hsub := h.keeps State.sub fun _ => rfl
  have hmain := h.keeps State.main fun _ => rfl
  simp only [life, hnreq, hsub, hmain, h.occ, h.final, List.count_append, h.trace_evicted, h.trace_inserted,
    hother, ne_eq, reduceCtorEq, not_false_eq_true, implies_true]

theorem life_sendLocked {cfg : Config Stage Worker} {s : State Stage Worker} {q : Nat} {p : Pipeline}
    {st : Stage} {flags : UInt32} {concat : Bool} (hsub : s.sub = .checked q p st flags concat) (r : Nat) :
    Life.Steps (life s r) (life (sendLocked cfg q p st flags concat s) r) := by
  have hphase : (life s r).sub = if q = r then .checked else .idle := by simp only [life, hsub, subPhase]
  rcases sendLocked_cases cfg q p st flags concat s with
    ⟨s₁, hmove, -, heq⟩ | ⟨s₁, hmove, heq⟩ | ⟨s₁, ev, hmove, -, heq⟩
  · have hlife : life (sendLocked cfg q p st flags concat s) r = { life s r with sub := .idle } := by
      rw [heq]
      exact (congrArg (fun l : Life => { l with sub := .idle }) (life_queueMove hmove r))
    rw [hlife]
    by_cases hq : q = r
    · exact .single (.refuse _ (by rw [hphase, if_pos hq]))
    · rw [if_neg hq] at hphase
      rw [← hphase]
  · have hlife : life (sendLocked cfg q p st flags concat s) r = life s r := by
      rw [heq]
      exact life_queueMove hmove r
    rw [hlife]
  · have hlife : life (sendLocked cfg q p st flags concat s) r =
        { life s₁ r with sub := if q = r then .linked else .idle } := by
      rw [heq]
      rfl
    have hev := Life.Steps.evicts (life s r) (ev.count r) (hmove.evicted r)
      (by rw [hphase]; split_ifs <;> simp)
    rw [hlife, life_queueMove hmove r]
    by_cases hq : q = r
    · subst hq
      simp only [if_true, List.count_singleton_self]
      exact hev.tail (.link _ (by simpa using hphase))
    · rw [if_neg hq] at hphase ⊢
      simpa [List.count_singleton, hq, ← hphase] using hev

omit [DecidableEq Worker] [DecidableEq Stage] in
theorem steps_of_one {s s' : State Stage Worker} {r : Nat} (q : Nat) (es : List Event)
    (hself : Life.Step (life s q) (life s' q)) (hes : ∀ e ∈ es, e.about = none ∨ e.about = some q)
    (hborn : ∀ r, r ≠ q → (r < s'.nreq ↔ r < s.nreq))
    (hsub : ∀ r, r ≠ q → subPhase s'.sub r = subPhase s.sub r)
    (hloop : ∀ r, r ≠ q → loopPhase s'.main r = loopPhase s.main r)
    (hocc : ∀ r, r ≠ q → occ (places s') r = occ (places s) r)
    (hfinal : ∀ r, r ≠ q → s'.finalRequestHead.count r = s.finalRequestHead.count r)
    (htrace : s'.trace = es ++ s.trace) : Life.Steps (life s r) (life s' r) := by
  by_cases hr : r = q
  · subst hr
    exact .single hself
  · have hcount : ∀ e : Event, e.about = some r → s'.trace.count e = s.trace.count e := fun e he => by
      have hnot : e ∉ es := fun hmem => by
        rcases hes e hmem with h | h
        · rw [h] at he; cases he
        · rw [h] at he; exact hr (Option.some.inj he).symm
      rw [htrace, List.count_append, List.count_eq_zero.mpr hnot, Nat.zero_add]
    have hlife : life s' r = life { s with nreq := s'.nreq } r :=
      life_congr rfl (hsub r hr) (hloop r hr) (hocc r hr) (hfinal r hr) hcount
    have hold : life { s with nreq := s'.nreq } r = life s r := by simp [life, places, hborn r hr]
    rw [hlife, hold]

omit [DecidableEq Worker] [DecidableEq Stage] in
theorem life_prepared {s : State Stage Worker} (args : SubmitArgs) (p : Pipeline) (st : Stage)
    (hsub : s.sub = .none) (r : Nat) : Life.Steps (life s r) (life (preparedPlain args p st s) r) := by
  refine steps_of_one s.nreq [.submitted s.nreq p] ?_ (by simp [Event.about])
    (fun x hx => ?_) (fun x hx => ?_) (fun _ _ => rfl) (fun _ _ => rfl) (fun _ _ => rfl) rfl
  · have hlife : life (preparedPlain args p st s) s.nreq = { life s s.nreq with born := True, sub := .checked } := by
      simp [life, preparedPlain, allocRequest, subPhase, places]
    rw [hlife]
    exact .submit _ (by simp [life])
  · simp only [preparedPlain, allocRequest]
    omega
  · simp [preparedPlain, subPhase, hsub, hx.symm]

theorem life_buffer {s : State Stage Worker} {q : Nat} {p : Pipeline} {st : Stage} {flags : UInt32}
    {concat : Bool} (hsub : s.sub = .checked q p st flags concat) (r : Nat) :
    Life.Steps (life s r) (life { bufferTmp p q s with sub := .buffered q p } r) := by
  have hplaces : places { bufferTmp p q s with sub := .buffered q p } =
      Function.update (places s) (.tmp p) ((s.pcb p).tmpRequestHead ++ [q]) := by
    simp [places, bufferTmp]
  have hocc : ∀ x, occ (Function.update (places s) (.tmp p) ((s.pcb p).tmpRequestHead ++ [q])) x =
      occ (places s) x + [q].count x := fun x => by
    have h := occ_update (places s) (.tmp p) ((s.pcb p).tmpRequestHead ++ [q]) x
    simp only [places, placesOf, List.count_append] at h ⊢
    omega
  refine steps_of_one q [.inserted q] ?_ (by simp [Event.about]) (fun _ _ => Iff.rfl)
    (fun x hx => ?_) (fun _ _ => rfl) (fun x hx => ?_) (fun _ _ => rfl) rfl
  · have hlife : life { bufferTmp p q s with sub := .buffered q p } q = { life s q with
        sub := .linked, occ := (life s q).occ + 1, inserted := (life s q).inserted + 1 } := by
      simp only [life, hplaces, hocc, List.count_singleton_self]
      simp [bufferTmp, subPhase]
    rw [hlife]
    exact .link _ (by simp [life, hsub, subPhase])
  · simp [subPhase, hsub, hx.symm]
  · rw [hplaces, hocc, List.count_eq_zero.mpr (by simpa using hx), Nat.add_zero]

omit [DecidableEq Worker] [DecidableEq Stage] in
theorem life_count {s s' : State Stage Worker} {q r : Nat}
    (hsub : subPhase s.sub = fun r => if q = r then .linked else .idle)
    (hsub' : subPhase s'.sub = fun r => if q = r then .counted else .idle) (hmain : s'.main = s.main)
    (hnreq : s'.nreq = s.nreq) (hplaces : places s' = places s)
    (hfinal : s'.finalRequestHead = s.finalRequestHead) (htrace : s'.trace = .counted q :: s.trace) :
    Life.Steps (life s r) (life s' r) := by
  refine steps_of_one q [.counted q] ?_ (by simp [Event.about]) (fun _ _ => by rw [hnreq])
    (fun x hx => ?_) (fun _ _ => by rw [hmain]) (fun _ _ => by rw [hplaces]) (fun _ _ => by rw [hfinal]) htrace
  · have hlife : life s' q = { life s q with sub := .counted, counted := (life s q).counted + 1 } := by
      simp [life, hsub', hmain, hnreq, hplaces, hfinal, htrace]
    rw [hlife]
    exact .count _ (by simp [life, hsub])
  · simp [hsub, hsub', hx.symm]

omit [DecidableEq Worker] [DecidableEq Stage] in
theorem life_loop {s s' : State Stage Worker} {r : Nat} (q : Nat) (es : List Event)
    (hself : Life.Step (life s q) (life s' q)) (hes : ∀ e ∈ es, e.about = none ∨ e.about = some q)
    (hmain : ∀ x, x ≠ q → loopPhase s.main x = .idle) (hmain' : ∀ x, x ≠ q → loopPhase s'.main x = .idle)
    (hsub : s'.sub = s.sub) (hnreq : s'.nreq = s.nreq) (hplaces : places s' = places s)
    (hfinal : s'.finalRequestHead = s.finalRequestHead) (htrace : s'.trace = es ++ s.trace) :
    Life.Steps (life s r) (life s' r) :=
  steps_of_one q es hself hes (fun _ _ => by rw [hnreq]) (fun _ _ => by rw [hsub])
    (fun x hx => by rw [hmain x hx, hmain' x hx]) (fun _ _ => by rw [hplaces]) (fun _ _ => by rw [hfinal]) htrace

theorem life_free {s s' : State Stage Worker} {q r : Nat} {c : Bool}
    (hloop : loopPhase s.main = fun x => if q = x then .finishing else .idle)
    (hloop' : ∀ x, loopPhase s'.main x = .idle) (hq : q ∈ s.finalRequestHead) (hsub : s'.sub = s.sub)
    (hnreq : s'.nreq = s.nreq) (hfinal : s'.finalRequestHead = s.finalRequestHead.erase q)
    (hplaces : places s' = Function.update (places s) .final (s.finalRequestHead.erase q))
    (htrace : s'.trace = .freed q :: ((if c then [.cleaned q] else []) ++ s.trace)) :
    Life.Steps (life s r) (life s' r) := by
  have hocc : ∀ x, occ (places s') x + [q].count x = occ (places s) x := fun x => by
    have h := occ_update (places s) .final (s.finalRequestHead.erase q) x
    have hpos := List.count_pos_iff.mpr hq
    rw [hplaces]
    simp only [places, placesOf, List.count_erase, List.count_singleton] at h ⊢
    split_ifs at h ⊢ with hx
    · rw [beq_iff_eq] at hx
      subst hx
      omega
    · omega
  refine steps_of_one q (.freed q :: if c then [.cleaned q] else []) ?_ ?_
    (fun _ _ => by rw [hnreq]) (fun _ _ => by rw [hsub]) (fun x hx => ?_) (fun x hx => ?_)
    (fun x hx => ?_) (by simpa using htrace)
  · have hone : occ (places s') q = occ (places s) q - 1 := by
      have := hocc q
      rw [List.count_singleton_self] at this
      omega
    have hlife : life s' q = { life s q with
        loop := .idle, occ := (life s q).occ - 1, final := (life s q).final - 1
        cleaned := (life s q).cleaned + if c then 1 else 0
        freed := (life s q).freed + 1 } := by
      simp only [life, hfinal, htrace, hnreq, hsub, hloop', hone, List.count_erase_self]
      split_ifs <;> simp
    rw [hlife]
    exact .free _ _ (by split_ifs <;> simp) (by simp [life, hloop])
  · split_ifs <;> simp [Event.about]
  · simp [hloop', hloop, hx.symm]
  · have h := hocc x
    rwa [List.count_eq_zero.mpr (by simpa using hx)] at h
  · rw [hfinal]
    exact List.count_erase_of_ne hx

theorem life_take {s : State Stage Worker} (hm : s.main = .take) (r : Nat) :
    Life.Steps (life s r) (life (takeDone s) r) := by
  have hocc : occ (places (takeDone s)) r = occ (places s) r := by
    have h := occ_update₂ (places s) (p := .done) (q := .final) (by simp) []
      (s.finalRequestHead ++ s.doneRqcb.requestHead) r
    simp only [places, takeDone] at h ⊢
    rw [placesOf_final _ _ _ _ s.finalRequestHead, placesOf_done _ _ _ s.doneRqcb]
    simp only [placesOf, List.count_append, List.count_nil] at h ⊢
    omega
  have hlife : life (takeDone s) r =
      { life s r with final := (life s r).final + s.doneRqcb.requestHead.count r } := by
    simp only [life, hocc]
    simp [takeDone, hm, loopPhase]
  have hle := add_count_le_occ (places s) (p := .final) (q := .done) (by simp) r
  rw [hlife]
  exact .single (.settle _ _ hle)

/-- **Simulation, main thread.** -/
theorem life_mainEffect {cfg : Config Stage Worker} {s : State Stage Worker} {a : MainAct Stage Worker}
    (hg : mainGuard cfg s a) (hcur : Cursor s.finalRequestHead s.main)
    (hcb : s.sub ≠ .none → inCallback s.main = true) (r : Nat) :
    Life.Steps (life s r) (life (mainEffect cfg s a) r) := by
  rw [mainEffect_plain cfg s a (life · r) fun _ => rfl]
  have hidle : ∀ {cur rc}, s.main = .iter cur rc → s.sub = .none := fun hm => by
    by_contra h
    have := hcb h
    rw [hm] at this
    cases this
  cases a with
  | submit args p st => exact life_prepared args p st hg.2.1 r
  | send q p st flags concat => exact life_sendLocked hg.1 r
  | buffer q p st flags concat => exact life_buffer hg r
  | count q p st notice ws =>
    obtain ⟨hsub, hsig⟩ := hg
    refine life_count (q := q) (by rw [hsub]; rfl) ?_ rfl rfl ?_ rfl rfl
    · cases notice <;> rfl
    · have hwk := placesOf_congr_wk s.rqcb s.pcb s.doneRqcb s.finalRequestHead
        (inHand_wake ws fun w hw => (hsig.1 w hw).1)
      simp only [mainPlain, mainEffect, countInserted, setMutex, places, placesOf_update_rqcb, hwk]
      exact Function.update_eq_self (.stage st) (places s)
  | countBuffered q p =>
    have hsub : s.sub = .buffered q p := hg
    refine life_count (q := q) (by rw [hsub]; rfl) rfl rfl rfl ?_ rfl rfl
    simp only [mainPlain, mainEffect, countBuffered, places, placesOf_update_pcb]
    exact Function.update_eq_self (.tmp p) (places s)
  | returnTid q p =>
    have hsub : s.sub = .sent q p := hg
    have hplaces : places (mainPlain cfg s (.returnTid q p)) = places s := by
      simp only [mainPlain, mainEffect, places, placesOf_update_pcb]
      exact Function.update_eq_self (.tmp p) (places s)
    refine steps_of_one q [.accepted q] ?_ (by simp [Event.about]) (fun _ _ => Iff.rfl)
      (fun x hx => ?_) (fun _ _ => rfl) (fun _ _ => by rw [hplaces]) (fun _ _ => rfl) rfl
    · have hlife : life (mainPlain cfg s (.returnTid q p)) q =
          { life s q with sub := .idle, accepted := (life s q).accepted + 1 } := by
        simp only [life, hplaces]
        simp [mainPlain, mainEffect, subPhase]
      rw [hlife]
      exact .accept _ (by simp [life, hsub, subPhase])
    · simp [mainPlain, mainEffect, hsub, subPhase, hx.symm]
  | take => exact life_take hg.1 r
  | takeNull q rc =>
    obtain ⟨hm, -⟩ := hg
    rw [hm] at hcur
    have hlife : life (mainPlain cfg s (.takeNull q rc)) q =
        { life s q with taken := (life s q).taken + 1, passed := (life s q).passed + 1 } := by
      simp [life, mainPlain, mainEffect, takeRequest, places, loopPhase, hm]
    refine life_loop q [.passed q, .taken q] ?_ (by simp [Event.about]) (fun _ _ => by rw [hm]; rfl)
      (fun _ _ => rfl) rfl rfl rfl rfl rfl
    rw [hlife]
    exact .pass _ (List.count_pos_iff.mpr (hcur q rfl)) (by simp [life, hidle hm, subPhase])
  | takeReq q rc =>
    obtain ⟨hm, -⟩ := hg
    rw [hm] at hcur
    have hlife : life (mainPlain cfg s (.takeReq q rc)) q =
        { life s q with loop := .taken, taken := (life s q).taken + 1 } := by
      simp [life, mainPlain, mainEffect, takeRequest, places, loopPhase]
    refine life_loop q [.taken q] ?_ (by simp [Event.about]) (fun _ _ => by rw [hm]; rfl)
      (fun x hx => if_neg hx.symm) rfl rfl rfl rfl rfl
    rw [hlife]
    exact .take _ (List.count_pos_iff.mpr (hcur q rfl)) (by simp [life, hidle hm, subPhase])
      (by simp [life, hm, loopPhase])
  | respond q next rc =>
    obtain ⟨hm, -⟩ := hg
    have hlife : life (mainPlain cfg s (.respond q next rc)) q =
        { life s q with loop := .called, responded := (life s q).responded + 1 } := by
      simp [life, mainPlain, places, loopPhase]
    refine life_loop q [.responded q] ?_ (by simp [Event.about])
      (fun x hx => by rw [hm]; exact if_neg hx.symm) (fun x hx => if_neg hx.symm) rfl rfl rfl rfl rfl
    rw [hlife]
    exact .respond _ (by simp [life, hm, loopPhase])
  | noResponder q next rc =>
    obtain ⟨hm, -⟩ := hg
    have hlife : life (mainPlain cfg s (.noResponder q next rc)) q = { life s q with loop := .finishing } := by
      simp [life, mainPlain, mainEffect, places, loopPhase]
    refine life_loop q [] ?_ (by simp) (fun x hx => by rw [hm]; exact if_neg hx.symm)
      (fun x hx => if_neg hx.symm) rfl rfl rfl rfl rfl
    rw [hlife]
    exact .skip _ (by simp [life, hm, loopPhase])
  | responderRet q next rc =>
    obtain ⟨hm, -⟩ := hg
    have hlife : life (mainPlain cfg s (.responderRet q next rc)) q = { life s q with loop := .finishing } := by
      simp [life, mainPlain, mainEffect, places, loopPhase]
    refine life_loop q [] ?_ (by simp) (fun x hx => by rw [hm]; exact if_neg hx.symm)
      (fun x hx => if_neg hx.symm) rfl rfl rfl rfl rfl
    rw [hlife]
    exact .ret _ (by simp [life, hm, loopPhase])
  | dispose q next rc =>
    have hm : s.main = .dispose q next rc := hg
    rw [hm] at hcur
    exact life_free (by rw [hm]; rfl) (fun _ => rfl) hcur.1 rfl rfl rfl
      (placesOf_final _ _ _ _ s.finalRequestHead _) rfl
  | _ => rw [life_mainPlain_inert hg rfl]

/-! ### The invariant -/

/-- Every request lives the life of the model, and what the simulation needs besides. -/
structure FlowInv (s : State Stage Worker) : Prop where
  single : ∀ w, SingleDest (s.wk w)
  callback : s.sub ≠ .none → inCallback s.main = true
  cursor : Cursor s.finalRequestHead s.main
  life : ∀ r, (life s r).Ok

omit [Fintype Stage] [Fintype Worker] in
theorem singleDest_workerEffect {cfg : Config Stage Worker} {s : State Stage Worker} {w : Worker}
    {a : WorkerAct Stage Worker} (hg : workerGuard cfg s w a) (hR : Regular s (.worker w a))
    (h : ∀ v, SingleDest (s.wk v)) (v : Worker) : SingleDest ((workerEffect cfg s w a).wk v) := by
  by_cases hv : v = w
  case neg => exact (eq_of_wake SingleDest rfl (wk_workerEffect hg hv)).mpr (h v)
  subst hv
  have hsd := h v
  cases a with
  | handle r cl calls ret errno =>
    rw [(workerEffect_handle cfg s v r cl calls ret errno).1]
    exact submitNext_single cfg _ _ _ _ _ hR
  | forward r st rest ws =>
    obtain ⟨hpc, -⟩ := hg
    obtain ⟨d, hd⟩ : ∃ d, Dest.stage st :: rest = [d] := by rw [hpc] at hsd; exact hsd
    obtain ⟨-, rfl⟩ := List.cons.inj hd
    simp [workerEffect, setWk, resume, SingleDest]
  | doneLock r rest =>
    obtain ⟨hpc, -⟩ := hg
    obtain ⟨d, hd⟩ : ∃ d, Dest.done :: rest = [d] := by rw [hpc] at hsd; exact hsd
    obtain ⟨-, rfl⟩ := List.cons.inj hd
    simp [workerEffect, setWk, SingleDest]
  | doneWrite r rest =>
    have hpc : s.wk v = .doneWrite r rest := hg
    have hrest : rest = [] := by rw [hpc] at hsd; exact hsd
    subst hrest
    rw [workerEffect, writeByte_keeps cfg cfg.doneFd _ State.wk fun _ _ => rfl]
    simp [setWk, resume, SingleDest]
  | doneInsert r rest | doneUnlock r rest | doneSet r rest =>
    have hpc : s.wk v = _ := hg
    rw [hpc] at hsd
    simpa [workerEffect, setWk, SingleDest] using hsd
  | doneSkip r rest =>
    obtain ⟨hpc, -⟩ := hg
    have hrest : rest = [] := by rw [hpc] at hsd; exact hsd
    subst hrest
    simp [workerEffect, setWk, resume, SingleDest]
  | doneClear r rest =>
    obtain ⟨hpc, -⟩ := hg
    rw [hpc] at hsd
    simpa [workerEffect, setWk, SingleDest] using hsd
  | _ => simp [workerEffect, setWk, SingleDest]

theorem callback_mainEffect {cfg : Config Stage Worker} {s : State Stage Worker} {a : MainAct Stage Worker}
    (hg : mainGuard cfg s a) (h : s.sub ≠ .none → inCallback s.main = true)
    (hne : (mainEffect cfg s a).sub ≠ .none) : inCallback (mainEffect cfg s a).main = true := by
  rw [mainEffect_plain cfg s a State.sub fun _ => rfl] at hne
  rw [mainEffect_plain cfg s a State.main fun _ => rfl]
  have hout : ∀ {m}, s.main = m → inCallback m = false → s.sub = .none := fun hm hf => by
    by_contra hs
    rw [hm, hf] at h
    cases h hs
  cases a with
  | submit => exact hg.1
  | send q p st flags concat =>
    have hmain := sendLocked_keeps cfg q p st flags concat s State.main fun _ => rfl
    have hsub : s.sub ≠ .none := by rw [hg.1]; simp
    exact hmain ▸ h hsub
  | buffer | countBuffered | noticeSet | noticeWrite =>
    have hsub : s.sub = _ := hg
    exact h (by rw [hsub]; simp)
  | count | noticeSkip | noticeClear =>
    obtain ⟨hsub, -⟩ := hg
    exact h (by rw [hsub]; simp)
  | returnTid => exact absurd rfl hne
  | refuse | sendBack | idleTimeout | writable | accept => exact h hne
  | hangup | readBlocked | readDone | datagramEnd | responderRet => exact absurd hg.2 hne
  | readable | datagram | respond => rfl
  | drainRead | drainReset | finish | broadcast | broadcastEnd | dispose =>
    have hm : s.main = _ := hg
    exact absurd (hout hm rfl) hne
  | kick ev ok ws =>
    have hsub := (QueueMove.kickRequestQueue cfg ok s).keeps State.sub fun _ => rfl
    exact absurd (hsub.trans (hout hg.1 rfl)) hne
  | _ => exact absurd (hout hg.1 rfl) hne

theorem callback_step {cfg : Config Stage Worker} {s s' : State Stage Worker} {a : Action Stage Worker}
    (h : s.sub ≠ .none → inCallback s.main = true) (hs : step cfg s a = some s') :
    s'.sub ≠ .none → inCallback s'.main = true := by
  obtain ⟨-, hg, rfl⟩ := step_eq_some hs
  cases a with
  | worker w a =>
    rw [effect, workerEffect_keeps cfg s w a State.sub fun _ => rfl,
      workerEffect_keeps cfg s w a State.main fun _ => rfl]
    exact h
  | main a => exact callback_mainEffect hg h
  | signals a =>
    rw [effect, signalEffect_keeps cfg s a State.sub fun _ => rfl, signalEffect_keeps cfg s a State.main fun _ => rfl]
    exact h
  | tick | cancel => exact h

theorem cursor_mainEffect {cfg : Config Stage Worker} {s : State Stage Worker} {a : MainAct Stage Worker}
    (hg : mainGuard cfg s a) (h : Cursor s.finalRequestHead s.main) :
    Cursor (mainEffect cfg s a).finalRequestHead (mainEffect cfg s a).main := by
  rw [mainEffect_plain cfg s a State.finalRequestHead fun _ => rfl,
    mainEffect_plain cfg s a State.main fun _ => rfl]
  cases a with
  | send q p st flags concat =>
    simp only [mainPlain, mainEffect]
    obtain ⟨s₁, ev, new, hmove, -, sub, mutex, status, heq⟩ := sendLocked_move cfg q p st flags concat s
    simp only [heq, hmove.final, hmove.keeps State.main fun _ => rfl]
    exact h.append _
  | take | takeBusy => exact fun x hx => List.mem_of_mem_head? hx
  | takeNull q rc => exact fun x hx => List.mem_of_mem_erase (mem_of_tailqNext hx)
  | takeReq q rc =>
    rw [hg.1] at h
    exact ⟨h q rfl, fun x hx => mem_of_tailqNext hx⟩
  | dispose q next rc =>
    have hm : s.main = .dispose q next rc := hg
    rw [hm] at h
    exact h.2
  | respond | noResponder | responderRet | quiet | startBroadcast =>
    rw [hg.1] at h
    exact h
  | broadcast | broadcastEnd =>
    have hm : s.main = _ := hg
    rw [hm] at h
    exact h
  | accept | writable | sendBack | refuse | buffer | count | countBuffered | noticeSkip | noticeClear | noticeSet
  | noticeWrite | returnTid | idleTimeout | submit => exact h
  | _ => trivial

omit [DecidableEq Worker] [DecidableEq Stage] in
theorem flowInv_init : FlowInv (State.init : State Stage Worker) where
  single _ := trivial
  callback h := absurd rfl h
  cursor := trivial
  life r := by
    have hocc : occ (places (State.init : State Stage Worker)) r = 0 :=
      occ_eq_zero_iff.mpr fun pl => by cases pl <;> exact List.not_mem_nil
    have hlife : life (State.init : State Stage Worker) r = .blank := by
      simp only [life, hocc]
      simp [State.init, subPhase, loopPhase, Life.blank]
    rw [hlife]
    exact Life.blank_ok

def Action.copies : Action Stage Worker → List Nat
  | .worker _ a => Csf.copies a
  | _ => []

/-- **Simulation.** A step takes every request that it does not copy through steps of its life. -/
theorem life_step {cfg : Config Stage Worker} {s s' : State Stage Worker} {a : Action Stage Worker}
    (hcursor : Cursor s.finalRequestHead s.main) (hcallback : s.sub ≠ .none → inCallback s.main = true)
    (hs : step cfg s a = some s') {r : Nat} (hr : r ∉ a.copies) : Life.Steps (life s r) (life s' r) := by
  obtain ⟨-, hg, rfl⟩ := step_eq_some hs
  cases a with
  | worker w a => rw [effect, life_workerEffect hg hr]
  | main a => exact life_mainEffect hg hcursor hcallback r
  | signals a => rw [effect, life_signalEffect hg]
  | tick => rw [show life (effect cfg s .tick) r = life s r from life_same rfl rfl rfl rfl rfl rfl rfl rfl rfl]
  | cancel q =>
    rw [show life (effect cfg s (.cancel q)) r = life s r from life_same rfl rfl rfl rfl rfl rfl rfl rfl rfl]

theorem cursor_step {cfg : Config Stage Worker} {s s' : State Stage Worker} {a : Action Stage Worker}
    (h : Cursor s.finalRequestHead s.main) (hs : step cfg s a = some s') : Cursor s'.finalRequestHead s'.main := by
  obtain ⟨-, hg, rfl⟩ := step_eq_some hs
  cases a with
  | worker w a =>
    rw [effect, workerEffect_keeps cfg s w a State.finalRequestHead fun _ => rfl,
      workerEffect_keeps cfg s w a State.main fun _ => rfl]
    exact h
  | main a => exact cursor_mainEffect hg h
  | signals a =>
    have hfinal : (signalEffect cfg s a).finalRequestHead = s.finalRequestHead := by
      obtain ⟨s₁, wk, sig, g, hmove, heq⟩ := signalEffect_move cfg s a
      rw [heq]
      exact hmove.final.trans (List.append_nil _)
    rw [effect, signalEffect_keeps cfg s a State.main fun _ => rfl, hfinal]
    exact h
  | tick | cancel => exact h

theorem flowInv_step {cfg : Config Stage Worker} {s s' : State Stage Worker} {a : Action Stage Worker}
    (h : FlowInv s) (hR : Regular s a) (hs : step cfg s a = some s') : FlowInv s' := by
  have hcopies : a.copies = [] := by
    obtain ⟨-, hg, -⟩ := step_eq_some hs
    cases a with
    | worker w a => exact copies_eq_nil hg (h.single w)
    | _ => rfl
  have hlife := fun r => (h.life r).steps
    (life_step h.cursor h.callback hs (r := r) (by rw [hcopies]; exact List.not_mem_nil))
  have hcallback := callback_step h.callback hs
  have hcursor := cursor_step h.cursor hs
  obtain ⟨-, hg, rfl⟩ := step_eq_some hs
  refine ⟨fun v => ?_, hcallback, hcursor, hlife⟩
  cases a with
  | worker w a => exact singleDest_workerEffect hg hR h.single v
  | main a => exact (eq_of_wake SingleDest rfl (wk_mainEffect hg v)).mpr (h.single v)
  | signals a => exact (eq_of_wake SingleDest rfl (wk_signalEffect hg v)).mpr (h.single v)
  | tick | cancel => exact h.single v

/-- **Every run.** In runs in which no handler passes on a request past the loop limit, the invariant holds in
every state reached. -/
theorem flowInv {cfg : Config Stage Worker} {R : State Stage Worker → Action Stage Worker → State Stage Worker → Prop}
    (hR : ∀ s a s', R s a s' → Regular s a) {s : State Stage Worker} (h : Reachable cfg R s) : FlowInv s :=
  h.invariant flowInv_init fun s a s' hI hr hs => flowInv_step hI (hR s a s' hr) hs

omit [DecidableEq Stage] [DecidableEq Worker] in
theorem FlowInv.lt_of_occ {s : State Stage Worker} (h : FlowInv s) {r : Nat} (hr : 0 < occ (places s) r) :
    r < s.nreq := by
  by_contra hnot
  have hzero := ((h.life r).unborn hnot).1
  have hcons := (h.life r).conserved
  simp only [Csf.life] at hzero hcons
  omega

omit [DecidableEq Stage] [DecidableEq Worker] in
theorem FlowInv.lt_of_mem {s : State Stage Worker} (h : FlowInv s) {r : Nat} {pl : Place Stage Worker}
    (hr : r ∈ places s pl) : r < s.nreq :=
  h.lt_of_occ (occ_pos_iff.mpr ⟨pl, hr⟩)

omit [DecidableEq Stage] [DecidableEq Worker] in
theorem FlowInv.final_of_current {s : State Stage Worker} (h : FlowInv s) {r : Nat} {m : MainPc Stage}
    (hm : s.main = m) (hr : m.current = some r) : r ∈ places s .final :=
  h.cursor.mem_of_current (hm ▸ hr)

omit [DecidableEq Stage] [DecidableEq Worker] in
theorem FlowInv.lt_of_freed {s : State Stage Worker} (h : FlowInv s) {r : Nat} (hr : .freed r ∈ s.trace) :
    r < s.nreq := by
  by_contra hnot
  have hzero := ((h.life r).unborn hnot).1
  have hcons := (h.life r).conserved
  simp only [Csf.life] at hzero hcons
  rw [← List.count_pos_iff] at hr
  omega

omit [DecidableEq Stage] [DecidableEq Worker] in
theorem FlowInv.occ_le_one {s : State Stage Worker} (h : FlowInv s) (r : Nat) : occ (places s) r ≤ 1 := by
  have hcons := (h.life r).conserved
  have honce := (h.life r).once
  simp only [Csf.life] at hcons honce
  omega

theorem FlowInv.place_unique {s : State Stage Worker} (h : FlowInv s) {r : Nat} {pl pl' : Place Stage Worker}
    (hr : r ∈ places s pl) (hr' : r ∈ places s pl') : pl = pl' :=
  eq_of_occ_le_one (h.occ_le_one r) hr hr'

omit [DecidableEq Stage] [DecidableEq Worker] in
theorem FlowInv.not_freed_of_mem {s : State Stage Worker} (h : FlowInv s) {r : Nat} {pl : Place Stage Worker}
    (hr : r ∈ places s pl) : .freed r ∉ s.trace := by
  intro hfreed
  have hcons := (h.life r).conserved
  have honce := (h.life r).once
  simp only [Csf.life] at hcons honce
  have hle := count_le_occ (places s) pl r
  rw [← List.count_pos_iff] at hr hfreed
  omega

/-! ### Blocks that are not allocated

Past the loop limit a request is copied, and its life is no longer one of `Life.Step`. A block that is not
allocated yet has none of it in any run. -/

structure Unborn (s : State Stage Worker) : Prop where
  callback : s.sub ≠ .none → inCallback s.main = true
  cursor : Cursor s.finalRequestHead s.main
  life : ∀ r, s.nreq ≤ r → (life s r).Ok

omit [DecidableEq Worker] [DecidableEq Stage] in
theorem unborn_init : Unborn (State.init : State Stage Worker) :=
  ⟨flowInv_init.callback, flowInv_init.cursor, fun r _ => flowInv_init.life r⟩

omit [DecidableEq Worker] [DecidableEq Stage] in
theorem Unborn.not_mem {s : State Stage Worker} (h : Unborn s) {r : Nat} (hr : s.nreq ≤ r)
    (pl : Place Stage Worker) : r ∉ places s pl := by
  have hnone := (h.life r hr).unborn (by simp only [Csf.life]; omega)
  have hcons := (h.life r hr).conserved
  simp only [Csf.life] at hnone hcons
  exact occ_eq_zero_iff.mp (by omega) pl

omit [DecidableEq Worker] [DecidableEq Stage] in
theorem Unborn.not_taken {s : State Stage Worker} (h : Unborn s) {r : Nat} (hr : s.nreq ≤ r) :
    .taken r ∉ s.trace := by
  have hnone := (h.life r hr).unborn (by simp only [Csf.life]; omega)
  have hcounted := (h.life r hr).counted_eq
  have htaken := (h.life r hr).taken_counted
  simp only [Csf.life] at hnone hcounted htaken
  rw [← List.count_eq_zero]
  omega

theorem unborn_step {cfg : Config Stage Worker} {s s' : State Stage Worker} {a : Action Stage Worker}
    (h : Unborn s) (hs : step cfg s a = some s') : Unborn s' := by
  refine ⟨callback_step h.callback hs, cursor_step h.cursor hs, fun r hr => ?_⟩
  have hold : s.nreq ≤ r := (nreq_step_le hs).trans hr
  refine (h.life r hold).steps (life_step h.cursor h.callback hs fun hcopies => ?_)
  obtain ⟨-, hg, -⟩ := step_eq_some hs
  cases a with
  | worker w a => exact h.not_mem hold _ (mem_hand_of_copies hg hcopies)
  | _ => exact List.not_mem_nil hcopies

end Csf
