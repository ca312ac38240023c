import Csf.System.Conserve
import Csf.System.Signal

/-!
# Evicted requests

`send_to_pipeline` moves an evicted request straight to the final queue. The byte that is to announce it goes
to the descriptor that `request_info_init` stored before the done pipe existed, and the handler looks at the
done queue only before it walks over the final queue. So an evicted request is found by the next handler run
if the done pipe holds a byte and the done queue a request at the time of the eviction (`alert`), and stays
where it is otherwise.

The walk is `TAILQ_FOREACH_SAFE`: the request after the current one is fixed before the responder is called. If
that responder evicts requests while there is no next one, the walk ends without them (`Visits`).
-/

namespace Csf

open Lib

variable {Stage Worker : Type}

/-! ### Answers -/

/-- The responder was called, or there is a reason why not. -/
def Answered (s : State Stage Worker) (r : Nat) : Prop :=
  .responded r ∈ s.trace ∨ (s.heap r).cancelled = true ∨ (s.heap r).requestResponder = false

structure RespInv (s : State Stage Worker) : Prop where
  freed : ∀ r, .freed r ∈ s.trace → Answered s r
  calling : ∀ r next, s.main = .calling r next → .responded r ∈ s.trace
  dispose : ∀ r next rc, s.main = .dispose r next rc → Answered s r

theorem respInv_init [Fintype Worker] : RespInv (State.init : State Stage Worker) where
  freed r h := absurd h List.not_mem_nil
  calling r next h := by cases h
  dispose r next rc h := by cases h

variable [DecidableEq Stage] [DecidableEq Worker] [Fintype Stage] [Fintype Worker]

theorem answered_step {cfg : Config Stage Worker} {s s' : State Stage Worker} {a : Action Stage Worker}
    (hs : step cfg s a = some s') {r : Nat} (hr : r < s.nreq) (h : Answered s r) : Answered s' r := by
  obtain ⟨-, hresp, hcancel⟩ := heap_step hs (show r ≠ s.nreq by omega)
  refine h.imp (mem_step hs (by simp) (by simp)) (Or.imp hcancel fun hnone => ?_)
  rw [hresp]
  exact hnone

theorem main_mainEffect_calling {cfg : Config Stage Worker} {s : State Stage Worker} {a : MainAct Stage Worker}
    {r : Nat} {next : Option Nat} (h : (mainEffect cfg s a).main = .calling r next) :
    s.main = .calling r next ∨ ∃ rc, a = .respond r next rc := by
  rw [mainEffect_plain cfg s a State.main fun _ => rfl] at h
  cases a with
  | respond q next' rc =>
    obtain ⟨rfl, rfl⟩ := MainPc.calling.inj h
    exact .inr ⟨rc, rfl⟩
  | send q p st flags concat => exact .inl ((sendLocked_keeps cfg q p st flags concat s State.main fun _ => rfl) ▸ h)
  | accept | writable | idleTimeout | sendBack | refuse | submit | buffer | count | countBuffered | noticeSkip
  | noticeClear | noticeSet | noticeWrite | returnTid => exact .inl h
  | _ => cases h

theorem main_mainEffect_dispose {cfg : Config Stage Worker} {s : State Stage Worker} {a : MainAct Stage Worker}
    {r : Nat} {next : Option Nat} {rc : BitVec 32} (h : (mainEffect cfg s a).main = .dispose r next rc) :
    s.main = .dispose r next rc ∨ a = .noResponder r next rc ∨ a = .responderRet r next rc := by
  rw [mainEffect_plain cfg s a State.main fun _ => rfl] at h
  cases a with
  | noResponder q next' rc' =>
    obtain ⟨rfl, rfl, rfl⟩ := MainPc.dispose.inj h
    exact .inr (.inl rfl)
  | responderRet q next' rc' =>
    obtain ⟨rfl, rfl, rfl⟩ := MainPc.dispose.inj h
    exact .inr (.inr rfl)
  | send q p st flags concat => exact .inl ((sendLocked_keeps cfg q p st flags concat s State.main fun _ => rfl) ▸ h)
  | accept | writable | idleTimeout | sendBack | refuse | submit | buffer | count | countBuffered | noticeSkip
  | noticeClear | noticeSet | noticeWrite | returnTid => exact .inl h
  | _ => cases h

theorem main_step {cfg : Config Stage Worker} {s s' : State Stage Worker} {a : Action Stage Worker}
    (hs : step cfg s a = some s') : s'.main = s.main ∨ ∃ m, a = .main m := by
  obtain ⟨-, -, rfl⟩ := step_eq_some hs
  cases a with
  | worker w a => exact .inl (workerEffect_keeps cfg s w a State.main fun _ => rfl)
  | main a => exact .inr ⟨a, rfl⟩
  | signals a => exact .inl (signalEffect_keeps cfg s a State.main fun _ => rfl)
  | tick | cancel => exact .inl rfl

theorem respInv_step {cfg : Config Stage Worker} {s s' : State Stage Worker} {a : Action Stage Worker}
    (hflow : FlowInv s) (h : RespInv s) (hs : step cfg s a = some s') : RespInv s' := by
  have hlt : ∀ {r m}, s.main = m → m.current = some r → r < s.nreq := fun hm hr =>
    hflow.lt_of_mem (hflow.final_of_current hm hr)
  refine ⟨fun r hr => ?_, fun r next hm => ?_, fun r next rc hm => ?_⟩
  · rcases freed_step hs hr with hold | ⟨next, rc, rfl⟩
    · exact answered_step hs (hflow.lt_of_freed hold) (h.freed r hold)
    · obtain ⟨-, hg, -⟩ := step_eq_some hs
      have hm : s.main = .dispose r next rc := hg
      exact answered_step hs (hlt hm rfl) (h.dispose r next rc hm)
  · rcases main_step hs with hsame | ⟨m, rfl⟩
    · exact mem_step hs (by simp) (by simp) (h.calling r next (hsame ▸ hm))
    · obtain ⟨-, -, rfl⟩ := step_eq_some hs
      rcases main_mainEffect_calling hm with hold | ⟨rc, rfl⟩
      · exact mem_step hs (by simp) (by simp) (h.calling r next hold)
      · exact (mem_mainEffect cfg s _ (by simp) (by simp)).mpr (.inl List.mem_cons_self)
  · rcases main_step hs with hsame | ⟨m, rfl⟩
    · have hold : s.main = .dispose r next rc := hsame ▸ hm
      exact answered_step hs (hlt hold rfl) (h.dispose r next rc hold)
    · obtain ⟨-, hg, rfl⟩ := step_eq_some hs
      rcases main_mainEffect_dispose hm with hold | rfl | rfl
      · exact answered_step hs (hlt hold rfl) (h.dispose r next rc hold)
      · obtain ⟨hpc, hnone⟩ := hg
        refine answered_step hs (hlt hpc rfl) (.inr ?_)
        exact (not_and_or.mp hnone).imp eq_true_of_ne_false eq_false_of_ne_true
      · obtain ⟨hpc, -⟩ := hg
        exact .inl (mem_step hs (by simp) (by simp) (h.calling r next hpc))

/-! ### The walk over the final queue -/

/-- The pipe holds a byte and the done queue a request. -/
def alert (s : State Stage Worker) : Prop := 0 < s.donePipe ∧ s.doneRqcb.requestHead ≠ []

instance (s : State Stage Worker) : Decidable (alert s) := inferInstanceAs (Decidable (_ ∧ _))

/-- The walk has the requests `l` before it and goes on with `next`: it starts at their head, or it ends and
the next handler run will find them. -/
def Visits (al : Prop) (l : List Nat) (next : Option Nat) : Prop := next = l.head? ∨ next = none ∧ al

/-- A responder runs, and the request after its own is fixed. -/
def goesOn : MainPc Stage → Bool
  | .calling _ next => next.isSome
  | _ => false

/-- Who finds the requests of the final queue, by where the main thread is. -/
def Found (al done : Prop) (final : List Nat) : MainPc Stage → Prop
  | .loop | .session _ | .datagram _ | .drainTest _ | .drainRead _ | .drainReset .timeout | .kick .timeout
  | .testDone .timeout => final ≠ [] → al
  | .drainReset .read | .kick .read | .testDone .read | .take => final ≠ [] → done
  | .iter next _ | .testExit next _ | .broadcast _ next _ => Visits al final next
  | .respond r next _ | .calling r next | .dispose r next _ => ∃ l, final = r :: l ∧ Visits al l next

/-- What became of the requests that the handler run started with. -/
def Progress (freed : Nat → Prop) (final batch : List Nat) : MainPc Stage → Prop
  | .loop | .session _ | .datagram _ => ∀ b ∈ batch, freed b
  | .drainTest ev | .drainRead ev | .drainReset ev | .kick ev | .testDone ev =>
    ∀ b ∈ batch, freed b ∨ ev = .read ∧ b ∈ final
  | .take => ∀ b ∈ batch, freed b ∨ b ∈ final
  | .iter next _ | .testExit next _ | .broadcast _ next _ => ∀ b ∈ batch, freed b ∨ next ≠ none ∧ b ∈ final
  | .respond r next _ | .calling r next | .dispose r next _ =>
    ∀ b ∈ batch, freed b ∨ b = r ∨ next ≠ none ∧ b ∈ final

structure EvictInv (s : State Stage Worker) : Prop where
  found : Found (alert s) (s.doneRqcb.requestHead ≠ []) s.finalRequestHead s.main
  progress : Progress (fun r => .freed r ∈ s.trace) s.finalRequestHead s.batch s.main

theorem Visits.mono {al al' : Prop} {l : List Nat} {next : Option Nat} (h : Visits al l next) (hal : al → al') :
    Visits al' l next := h.imp_right (And.imp_right hal)

theorem head?_ne_none_of_mem {l : List Nat} {b : Nat} (h : b ∈ l) : l.head? ≠ none := by
  rw [ne_eq, List.head?_eq_none_iff]
  exact List.ne_nil_of_mem h

theorem Visits.append {al : Prop} {l : List Nat} {next : Option Nat} (h : Visits al l next) {ev : List Nat}
    (hal : ev ≠ [] → al ∨ next ≠ none) : Visits al (l ++ ev) next := by
  rcases h with rfl | h
  · cases l with
    | nil =>
      cases ev with
      | nil => exact .inl rfl
      | cons x ev => exact .inr ⟨rfl, (hal (by simp)).resolve_right fun hne => hne rfl⟩
    | cons x l => exact .inl rfl
  · exact .inr h

omit [DecidableEq Stage] [Fintype Stage] in
theorem Found.mono {al al' done done' : Prop} {final : List Nat} {m : MainPc Stage} (h : Found al done final m)
    (hal : al → al') (hdone : done → done') : Found al' done' final m := by
  have hvisits := fun {l : List Nat} {next : Option Nat} (hv : Visits al l next) => hv.mono hal
  cases m with
  | drainReset ev | kick ev | testDone ev =>
    cases ev with
    | read => exact hdone ∘ h
    | timeout => exact hal ∘ h
  | take => exact hdone ∘ h
  | iter | testExit | broadcast => exact hvisits h
  | respond | calling | dispose =>
    obtain ⟨l, hl, hv⟩ := h
    exact ⟨l, hl, hvisits hv⟩
  | _ => exact hal ∘ h

omit [DecidableEq Stage] [Fintype Stage] in
theorem Found.append {al done : Prop} {final ev : List Nat} {m : MainPc Stage} (h : Found al done final m)
    (hal : ev ≠ [] → al ∧ done ∨ goesOn m = true) : Found al done (final ++ ev) m := by
  have hlater : ∀ {p : Prop}, (final ≠ [] → p) → (ev ≠ [] → p) → final ++ ev ≠ [] → p := by
    intro p hf he hne
    by_cases hev : ev = []
    · exact hf (by simpa [hev] using hne)
    · exact he hev
  have hstop : goesOn m ≠ true → ev ≠ [] → al ∧ done := fun hno he => (hal he).resolve_right hno
  cases m with
  | drainReset e | kick e | testDone e =>
    cases e with
    | read => exact hlater h fun he => (hstop (by simp [goesOn]) he).2
    | timeout => exact hlater h fun he => (hstop (by simp [goesOn]) he).1
  | take => exact hlater h fun he => (hstop (by simp [goesOn]) he).2
  | iter | testExit | broadcast => exact Visits.append h fun he => .inl (hstop (by simp [goesOn]) he).1
  | calling r next =>
    obtain ⟨l, rfl, hv⟩ := h
    refine ⟨l ++ ev, rfl, hv.append fun he => (hal he).imp And.left fun hgo => ?_⟩
    exact Option.isSome_iff_ne_none.mp hgo
  | respond | dispose =>
    obtain ⟨l, rfl, hv⟩ := h
    exact ⟨l ++ ev, rfl, hv.append fun he => .inl (hstop (by simp [goesOn]) he).1⟩
  | _ => exact hlater h fun he => (hstop (by simp [goesOn]) he).1

omit [DecidableEq Stage] [Fintype Stage] in
theorem Progress.mono {freed freed' : Nat → Prop} {final final' batch : List Nat} {m : MainPc Stage}
    (h : Progress freed final batch m) (hfreed : ∀ b, freed b → freed' b) (hfinal : final ⊆ final') :
    Progress freed' final' batch m := by
  cases m with
  | loop | session | datagram => exact fun b hb => hfreed b (h b hb)
  | take => exact fun b hb => (h b hb).imp (hfreed b) fun hin => hfinal hin
  | respond | calling | dispose =>
    exact fun b hb => (h b hb).imp (hfreed b) (Or.imp_right (And.imp_right fun hin => hfinal hin))
  | _ => exact fun b hb => (h b hb).imp (hfreed b) (And.imp_right fun hin => hfinal hin)

theorem Visits.takeReq {al : Prop} {final : List Nat} {r : Nat} (h : Visits al final (some r)) :
    ∃ l, final = r :: l ∧ tailqNext r final = l.head? := by
  have hhead : final.head? = some r := (h.resolve_right (by simp)).symm
  obtain ⟨l, rfl⟩ := List.head?_eq_some_iff.mp hhead
  exact ⟨l, rfl, by simp [tailqNext]⟩

theorem progress_takeReq {freed : Nat → Prop} {final l batch : List Nat} {r : Nat} {next : Option Nat}
    (hl : final = r :: l) (hnext : next = l.head?) (h : ∀ b ∈ batch, freed b ∨ b ∈ final) :
    ∀ b ∈ batch, freed b ∨ b = r ∨ next ≠ none ∧ b ∈ final := by
  refine fun b hb => (h b hb).imp_right fun hin => ?_
  rcases List.mem_cons.mp (hl ▸ hin) with rfl | htail
  · exact .inl rfl
  · exact .inr ⟨hnext ▸ head?_ne_none_of_mem htail, hin⟩

theorem progress_dispose {freed freed' : Nat → Prop} {final batch : List Nat} {r : Nat} {next : Option Nat}
    (h : ∀ b ∈ batch, freed b ∨ b = r ∨ next ≠ none ∧ b ∈ final) (hfreed : ∀ b, freed b → freed' b) (hr : freed' r) :
    ∀ b ∈ batch, freed' b ∨ next ≠ none ∧ b ∈ final.erase r := by
  intro b hb
  by_cases hbr : b = r
  · exact .inl (hbr ▸ hr)
  · rcases h b hb with hold | heq | ⟨hnext, hin⟩
    · exact .inl (hfreed b hold)
    · exact absurd heq hbr
    · exact .inr ⟨hnext, (List.mem_erase_of_ne hbr).mpr hin⟩

/-! ### Steps -/

/-- Requests are evicted only while there is an alert, or by a responder that is not the last of its walk. -/
def EvictsAlerted (cfg : Config Stage Worker) (s : State Stage Worker) (a : Action Stage Worker) : Prop :=
  evicting cfg s a = true → alert s ∨ goesOn s.main = true

instance (cfg : Config Stage Worker) (s : State Stage Worker) (a : Action Stage Worker) :
    Decidable (EvictsAlerted cfg s a) := inferInstanceAs (Decidable (_ → _))

/-- On `EV_TIMEOUT` the handler reads the last bytes of the pipe only when the final queue is empty. -/
def TimeoutSpares (s : State Stage Worker) : Action Stage Worker → Prop
  | .main (.drainRead .timeout) => s.finalRequestHead = [] ∨ junkSize < s.donePipe
  | _ => True

instance (s : State Stage Worker) (a : Action Stage Worker) : Decidable (TimeoutSpares s a) := by
  unfold TimeoutSpares
  induction a using Action.casesOn with
  | main a =>
    induction a using MainAct.casesOn with
    | drainRead ev => induction ev using PipeEvent.casesOn <;> infer_instance
    | _ => infer_instance
  | _ => infer_instance

omit [DecidableEq Stage] [DecidableEq Worker] [Fintype Stage] [Fintype Worker] in
theorem EvictInv.of_same {s s' : State Stage Worker} (h : EvictInv s) (hmain : s'.main = s.main)
    (hfinal : s'.finalRequestHead = s.finalRequestHead) (hbatch : s'.batch = s.batch)
    (hfreed : ∀ r, .freed r ∈ s.trace → .freed r ∈ s'.trace) (hpipe : 0 < s.donePipe → 0 < s'.donePipe)
    (hdone : s.doneRqcb.requestHead ≠ [] → s'.doneRqcb.requestHead ≠ []) : EvictInv s' where
  found := by
    rw [hmain, hfinal]
    exact h.found.mono (And.imp hpipe hdone) hdone
  progress := by
    rw [hmain, hfinal, hbatch]
    exact h.progress.mono hfreed (List.Subset.refl _)

omit [DecidableEq Stage] [DecidableEq Worker] in
theorem EvictInv.queueMove {s s₁ : State Stage Worker} (h : EvictInv s) {ev new : List Nat}
    (hmove : QueueMove s s₁ ev new) (hal : ev ≠ [] → alert s ∨ goesOn s.main = true) : EvictInv s₁ where
  found := by
    rw [alert, hmove.keeps State.donePipe fun _ => rfl, hmove.keeps State.doneRqcb fun _ => rfl,
      hmove.keeps State.main fun _ => rfl, hmove.final]
    exact h.found.append fun hne => (hal hne).imp_left fun halert => ⟨halert, halert.2⟩
  progress := by
    rw [hmove.keeps State.main fun _ => rfl, hmove.final, hmove.keeps State.batch fun _ => rfl]
    refine h.progress.mono (fun r hr => ?_) (List.subset_append_left _ _)
    rw [← List.count_pos_iff] at hr ⊢
    exact hr.trans_eq (hmove.trace_other (by simp) (by simp)).symm

theorem evictInv_workerEffect {cfg : Config Stage Worker} {s : State Stage Worker} {w : Worker}
    {a : WorkerAct Stage Worker} (h : EvictInv s)
    (hs : step cfg s (.worker w a) = some (workerEffect cfg s w a)) : EvictInv (workerEffect cfg s w a) := by
  refine h.of_same (workerEffect_keeps cfg s w a State.main fun _ => rfl)
    (workerEffect_keeps cfg s w a State.finalRequestHead fun _ => rfl)
    (workerEffect_keeps cfg s w a State.batch fun _ => rfl) (fun r => mem_step hs (by simp) (by simp)) ?_ ?_
  · cases a with
    | handle r cl calls ret errno =>
      rw [show (workerEffect cfg s w (.handle r cl calls ret errno)).donePipe = s.donePipe from
        keeps_of_offConns (offConns_touchCsp r _) State.donePipe fun _ => rfl]
      exact id
    | doneWrite r rest =>
      intro hpipe
      have hcap := cfg.pipeCapacity_pos
      simp only [workerEffect, writeByte, if_true, setWk, lt_min_iff]
      omega
    | _ => exact id
  · cases a with
    | handle r cl calls ret errno =>
      rw [show (workerEffect cfg s w (.handle r cl calls ret errno)).doneRqcb = s.doneRqcb from
        keeps_of_offConns (offConns_touchCsp r _) State.doneRqcb fun _ => rfl]
      exact id
    | doneInsert r rest => exact fun _ => List.append_ne_nil_of_right_ne_nil _ (List.cons_ne_nil r [])
    | doneWrite r rest =>
      rw [workerEffect, writeByte_keeps cfg cfg.doneFd _ State.doneRqcb fun _ _ => rfl]
      exact id
    | _ => exact id

theorem evictInv_mainEffect {cfg : Config Stage Worker} {s : State Stage Worker} {a : MainAct Stage Worker}
    (h : EvictInv s) (hev : EvictsAlerted cfg s (.main a)) (htime : TimeoutSpares s (.main a))
    (hnull : meetsNull (.main a : Action Stage Worker) = false) (hg : mainGuard cfg s a) :
    EvictInv (mainEffect cfg s a) := by
  suffices hplain : EvictInv (mainPlain cfg s a) from
    ⟨(mainEffect_plain cfg s a (fun t => Found (alert t) (t.doneRqcb.requestHead ≠ []) t.finalRequestHead t.main)
        fun _ => rfl).mpr hplain.found,
      (mainEffect_plain cfg s a (fun t => Progress (fun r => .freed r ∈ t.trace) t.finalRequestHead t.batch t.main)
        fun _ => rfl).mpr hplain.progress⟩
  have hfreed : ∀ r, .freed r ∈ s.trace → .freed r ∈ (mainPlain cfg s a).trace := fun r hr => by
    rw [← mainEffect_plain cfg s a State.trace fun _ => rfl]
    exact (mem_mainEffect cfg s a (by simp) (by simp)).mpr (.inr hr)
  have hfound := h.found
  have hprogress := h.progress
  cases a with
  | accept | writable | idleTimeout | sendBack | refuse | submit | buffer | count | countBuffered | noticeSkip
  | noticeClear | noticeSet | noticeWrite | returnTid => exact h.of_same rfl rfl rfl hfreed id id
  | send q p st flags concat =>
    have hev : evicts cfg p st flags concat s = true → alert s ∨ goesOn s.main = true := hev
    simp only [mainPlain, mainEffect]
    obtain ⟨s₁, ev, new, hmove, hevicts, sub, mutex, status, heq⟩ := sendLocked_move cfg q p st flags concat s
    rw [heq]
    have hinv := h.queueMove hmove fun hne => hev (hevicts hne)
    exact ⟨hinv.found, hinv.progress⟩
  | kick ev ok ws =>
    obtain ⟨hm, -⟩ := hg
    have hmove := QueueMove.kickRequestQueue cfg ok s
    have hinv := h.queueMove hmove (absurd rfl)
    have hfound := hinv.found
    have hprogress := hinv.progress
    rw [hmove.keeps State.main fun _ => rfl, hm] at hfound hprogress
    exact ⟨by cases ev <;> exact hfound, hprogress⟩
  | event ev =>
    obtain ⟨hm, -⟩ := hg
    rw [hm] at hfound
    refine ⟨hfound, ?_⟩
    cases ev with
    | read => exact fun b hb => .inr ⟨rfl, hb⟩
    | timeout => exact fun b hb => absurd hb List.not_mem_nil
  | drainHit ev =>
    rw [hg.1] at hfound hprogress
    exact ⟨hfound, hprogress⟩
  | drainMiss ev =>
    rw [hg.1] at hfound hprogress
    refine ⟨?_, hprogress⟩
    cases ev with
    | read => exact fun hne => (hfound hne).2
    | timeout => exact hfound
  | drainRead ev =>
    have hm : s.main = .drainRead ev := hg
    rw [hm] at hfound hprogress
    refine ⟨?_, hprogress⟩
    cases ev with
    | read => exact fun hne => (hfound hne).2
    | timeout =>
      intro hne
      have hpipe : junkSize < s.donePipe := htime.resolve_left hne
      exact ⟨Nat.sub_pos_of_lt hpipe, (hfound hne).2⟩
  | drainReset ev =>
    have hm : s.main = .drainReset ev := hg
    rw [hm] at hfound hprogress
    exact ⟨by cases ev <;> exact hfound, hprogress⟩
  | skip ev =>
    obtain ⟨hm, hskip⟩ := hg
    rw [hm] at hfound hprogress
    cases ev with
    | read =>
      -- nothing is done, so nothing was evicted either
      have hdone : s.doneRqcb.requestHead = [] := hskip.resolve_right (by simp)
      have hempty : s.finalRequestHead = [] := by
        by_contra hne
        exact hfound hne hdone
      refine ⟨fun hne => absurd hempty hne, fun b hb => (hprogress b hb).resolve_right ?_⟩
      rw [hempty]
      simp
    | timeout => exact ⟨hfound, fun b hb => (hprogress b hb).resolve_right (by simp)⟩
  | enter =>
    rw [hg.1] at hfound hprogress
    exact ⟨hfound, fun b hb => (hprogress b hb).imp_right And.right⟩
  | take =>
    rw [hg.1] at hprogress
    refine ⟨.inl rfl, fun b hb => (hprogress b hb).imp_right fun hin => ?_⟩
    have hin' : b ∈ s.finalRequestHead ++ s.doneRqcb.requestHead := List.mem_append_left _ hin
    exact ⟨head?_ne_none_of_mem hin', hin'⟩
  | takeBusy =>
    rw [hg.1] at hprogress
    exact ⟨.inl rfl, fun b hb => (hprogress b hb).imp_right fun hin => ⟨head?_ne_none_of_mem hin, hin⟩⟩
  | finish rc =>
    have hm : s.main = .iter none rc := hg
    rw [hm] at hfound hprogress
    refine ⟨fun hne => ?_, fun b hb => (hprogress b hb).resolve_right (by simp)⟩
    rcases hfound with hnone | ⟨-, hal⟩
    · exact absurd (List.head?_eq_none_iff.mp hnone.symm) hne
    · exact hal
  | takeNull r rc => simp [meetsNull] at hnull
  | takeReq r rc =>
    obtain ⟨hm, -⟩ := hg
    rw [hm] at hfound hprogress
    obtain ⟨l, hl, hnext⟩ := Visits.takeReq hfound
    refine ⟨⟨l, hl, .inl hnext⟩, progress_takeReq hl hnext fun b hb => ?_⟩
    exact (hprogress b hb).imp (List.mem_cons_of_mem _) And.right
  | dispose r next rc =>
    have hm : s.main = .dispose r next rc := hg
    rw [hm] at hfound hprogress
    obtain ⟨l, hl, hvisits⟩ := hfound
    have herase : s.finalRequestHead.erase r = l := by rw [hl, List.erase_cons_head]
    refine ⟨?_, progress_dispose hprogress hfreed List.mem_cons_self⟩
    show Visits (alert s) (s.finalRequestHead.erase r) next
    rw [herase]
    exact hvisits
  | respond r next rc =>
    rw [hg.1] at hfound hprogress
    exact ⟨hfound, fun b hb => (hprogress b hb).imp_left fun hin => hfreed b hin⟩
  | broadcast st todo next rc =>
    have hm : s.main = _ := hg
    rw [hm] at hfound hprogress
    exact ⟨hfound, hprogress⟩
  | datagram | broadcastEnd =>
    have hm : s.main = _ := hg
    rw [hm] at hfound hprogress
    exact ⟨hfound, hprogress⟩
  | _ =>
    rw [hg.1] at hfound hprogress
    exact ⟨hfound, hprogress⟩

theorem evictInv_step {cfg : Config Stage Worker} {s s' : State Stage Worker} {a : Action Stage Worker}
    (h : EvictInv s) (hev : EvictsAlerted cfg s a) (htime : TimeoutSpares s a) (hnull : meetsNull a = false)
    (hs : step cfg s a = some s') : EvictInv s' := by
  obtain ⟨-, hg, rfl⟩ := step_eq_some hs
  cases a with
  | worker w a => exact evictInv_workerEffect h hs
  | main a => exact evictInv_mainEffect h hev htime hnull hg
  | signals a =>
    obtain ⟨s₁, wk, sig, g, hmove, heq⟩ := signalEffect_move cfg s a
    have hinv := h.queueMove hmove (absurd rfl)
    rw [effect, heq]
    exact ⟨hinv.found, hinv.progress⟩
  | tick | cancel => exact ⟨h.found, h.progress⟩

omit [DecidableEq Stage] [DecidableEq Worker] [Fintype Stage] in
theorem evictInv_init : EvictInv (State.init : State Stage Worker) where
  found h := absurd rfl h
  progress _ h := absurd h List.not_mem_nil

/-! ### The next run of the handler -/

/-- The steps in which every eviction is announced and every announcement is heard. -/
def Announced (cfg : Config Stage Worker) (s : State Stage Worker) (a : Action Stage Worker) : Prop :=
  Regular s a ∧ connected a = true ∧ EvictsAlerted cfg s a ∧ TimeoutSpares s a

instance (cfg : Config Stage Worker) (s : State Stage Worker) (a : Action Stage Worker) :
    Decidable (Announced cfg s a) := inferInstanceAs (Decidable (_ ∧ _))

/-- **Evicted requests are found.** In every state of such a run in which the main thread is idle, a non-empty
final queue means an unread byte in the done pipe, and the last run of the handler on `EV_READ` has answered
and freed every request that was in the final queue when it started. -/
theorem evicted_not_stranded (cfg : Config Stage Worker) {s : State Stage Worker}
    (h : Reachable cfg (fun s a _ => Announced cfg s a) s) (hidle : s.main = .loop) :
    (s.finalRequestHead ≠ [] → 0 < s.donePipe) ∧ ∀ r ∈ s.batch, .freed r ∈ s.trace ∧ Answered s r := by
  obtain ⟨hreg, -⟩ := connected_reachable (fun _ _ _ hr => hr.2.1) (fun _ _ _ _ hr _ => hr.1) h
  have hinv : FlowInv s ∧ RespInv s ∧ EvictInv s := by
    refine hreg.invariant (I := fun s => FlowInv s ∧ RespInv s ∧ EvictInv s) ?_ ?_
    · exact ⟨flowInv_init, respInv_init, evictInv_init⟩
    · rintro s a s' ⟨hflow, hresp, hevict⟩ ⟨⟨hregular, -, hev, htime⟩, -, hnull⟩ hs
      exact ⟨flowInv_step hflow hregular hs, respInv_step hflow hresp hs, evictInv_step hevict hev htime hnull hs⟩
  obtain ⟨-, hresp, hevict⟩ := hinv
  have hfound := hevict.found
  have hprogress := hevict.progress
  rw [hidle] at hfound hprogress
  exact ⟨fun hne => (hfound hne).1, fun r hr => ⟨hprogress r hr, hresp.freed r (hprogress r hr)⟩⟩

/-- A request is kicked out while another is done and announced; the next run of the handler answers both. -/
theorem evicted_not_stranded_run :
    ∃ s, Reachable (oneStage 1 0) (fun s a _ => Announced (oneStage 1 0) s a) s ∧ .evicted 1 ∈ s.trace ∧
      .freed 1 ∈ s.trace ∧ Answered s 1 := by
  obtain ⟨s, hs, hmain, hbatch, hevicted⟩ := exists_reachable (oneStage 1 0)
    (fun s a _ => Announced (oneStage 1 0) s a)
    ([.main .accept, .main (.readable 0)] ++ submitSteps 0 requestForce ++
      [.worker 0 .lock, .worker 0 (.dequeue 0 [])] ++ submitSteps 1 requestForce ++
      [.worker 0 (.handle 0 0 [] 0 0)] ++ doneSteps 0 ++ kickOutSteps 2 true ++ [.main (.readBlocked 0)] ++ takeSteps ++
      completeSteps 1 (some 0) rcInit 1 ++ completeSteps 0 none 1 1 ++ [.main (.finish 1)])
    (P := fun s => s.main = .loop ∧ s.batch = [1] ∧ .evicted 1 ∈ s.trace) (by decide +kernel)
  obtain ⟨hfreed, hanswered⟩ := (evicted_not_stranded (oneStage 1 0) hs hmain).2 1 (by simp [hbatch])
  exact ⟨s, hs, hevicted, hfreed, hanswered⟩

/-- A request is kicked out while nothing is done. The notice goes to the wrong descriptor. -/
theorem evicted_stranded :
    ∃ s, Reachable (oneStage 1 0) (fun _ a s' => Benign a s') s ∧ s.main = .loop ∧ s.finalRequestHead = [0] ∧
      s.donePipe = 0 :=
  exists_reachable (oneStage 1 0) (fun _ a s' => Benign a s')
    ([.main .accept, .main (.readable 0)] ++ submitSteps 0 requestForce ++ kickOutSteps 1 false ++
      [.main (.readBlocked 0)])
    (by decide +kernel)

end Csf
