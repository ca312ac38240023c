import Csf.Pipeline.Order
import Csf.System.Conserve

/-!
# First in, first out

On the lists of the machine, the workers of the first stage see the requests of a pipeline in the order in which
`submit_request` accepted them (`dispatched_in_order`). `Ledger` says how the record of a run goes with the submission
in progress: requests are submitted, linked and accepted one after the other. `Lines` says that the requests which no
worker has taken yet form a line: the waiting ones of the pipeline, in that order, with nobody missing. A request that
comes back to the first stage by a requeue or a jump was taken before and does not count.

Which requests were taken is the history of the run (`Lib.withHistory`); no step of the process reads it.
-/

namespace Csf

open Lib

variable {Stage Worker : Type}

/-- The requests that a step takes off a stage queue. -/
def dispatches (_ : State Stage Worker) : Action Stage Worker → List Nat
  | .worker _ (.dequeue r _) => [r]
  | _ => []

def SubmitPc.req : SubmitPc Stage → Option Nat
  | .none => Option.none
  | .checked r .. | .inserted r .. | .buffered r _ | .noticeTest r _ | .noticeSet r _ | .noticeWrite r _
  | .sent r _ => some r

/-- The request of a submission in progress, once it is linked. -/
def SubmitPc.linkedReq : SubmitPc Stage → Option Nat
  | .none | .checked .. => Option.none
  | .inserted r .. | .buffered r _ | .noticeTest r _ | .noticeSet r _ | .noticeWrite r _ | .sent r _ => some r

def WorkerPc.req : WorkerPc Stage → Option Nat
  | .holding r _ | .routing r _ | .doneLocked r _ | .doneInserted r _ | .doneTest r _ | .doneSet r _
  | .doneWrite r _ => some r
  | _ => Option.none

/-! ### The record of submissions -/

/-- Events that are not about submission. -/
def Event.late : Event → Bool
  | .submitted .. | .inserted _ | .accepted _ => false
  | _ => true

/-- How the record, newest first, goes with the submission in progress. -/
structure Ledger (cfg : Config Stage Worker) (s : State Stage Worker) : Prop where
  checked : ∀ r p st flags concat, s.sub = .checked r p st flags concat →
    cfg.firstRqcb p = some st ∧ .submitted r p ∈ s.trace ∧ .inserted r ∉ s.trace ∧
      (concat = false → (s.pcb p).tmpRequestHead = [])
  current : ∀ r, s.sub.req = some r → r + 1 = s.nreq
  linked : ∀ r, s.sub.linkedReq = some r → .inserted r ∈ s.trace
  old : ∀ r p, .submitted r p ∈ s.trace → r < s.nreq
  inserted : ∀ r, .inserted r ∈ s.trace → r < s.nreq ∧ (.accepted r ∈ s.trace ∨ s.sub.req = some r)
  accepted : ∀ r, .accepted r ∈ s.trace → .inserted r ∈ s.trace
  submittedOrder : ∀ a b p q, .submitted a p ∈ s.trace → .submitted b q ∈ s.trace → a < b →
    [.submitted b q, .submitted a p].Sublist s.trace
  acceptedOrder : ∀ a b, .inserted a ∈ s.trace → .accepted b ∈ s.trace → a < b →
    [.accepted b, .accepted a].Sublist s.trace

namespace Ledger

variable {cfg : Config Stage Worker} {s s' : State Stage Worker}

theorem init [Fintype Worker] (cfg : Config Stage Worker) : Ledger cfg State.init := by
  constructor <;> simp [State.init, SubmitPc.req, SubmitPc.linkedReq]

theorem of_late (h : Ledger cfg s) (new : List Event) (htrace : s'.trace = new ++ s.trace)
    (hlate : ∀ e ∈ new, e.late = true) (hnreq : s'.nreq = s.nreq) (hreq : s'.sub.req = s.sub.req)
    (hlinked : s'.sub.linkedReq = s.sub.linkedReq)
    (hchecked : ∀ r p st flags concat, s'.sub = .checked r p st flags concat →
      s.sub = .checked r p st flags concat ∧ (s'.pcb p).tmpRequestHead ⊆ (s.pcb p).tmpRequestHead) :
    Ledger cfg s' := by
  have hmem : ∀ e : Event, e.late = false → (e ∈ s'.trace ↔ e ∈ s.trace) := by
    intro e he
    rw [htrace, List.mem_append, or_iff_right]
    intro hin
    rw [hlate e hin] at he
    cases he
  have hsuffix : s.trace.Sublist s'.trace := htrace ▸ List.sublist_append_right _ _
  have hsubmitted : ∀ r p, .submitted r p ∈ s'.trace ↔ .submitted r p ∈ s.trace := fun r p => hmem _ rfl
  have hinserted : ∀ r, .inserted r ∈ s'.trace ↔ .inserted r ∈ s.trace := fun r => hmem _ rfl
  have haccepted : ∀ r, .accepted r ∈ s'.trace ↔ .accepted r ∈ s.trace := fun r => hmem _ rfl
  constructor
  · intro r p st flags concat hsub
    obtain ⟨hold, htmp⟩ := hchecked r p st flags concat hsub
    obtain ⟨hfirst, hs, hi, hconcat⟩ := h.checked r p st flags concat hold
    refine ⟨hfirst, (hsubmitted r p).mpr hs, mt (hinserted r).mp hi, fun hc => ?_⟩
    rw [hconcat hc] at htmp
    exact List.subset_nil.mp htmp
  · intro r hr
    rw [hnreq]
    exact h.current r (hreq ▸ hr)
  · intro r hr
    exact (hinserted r).mpr (h.linked r (hlinked ▸ hr))
  · intro r p hr
    rw [hnreq]
    exact h.old r p ((hsubmitted r p).mp hr)
  · intro r hr
    rw [hnreq, haccepted, hreq]
    exact h.inserted r ((hinserted r).mp hr)
  · intro r hr
    exact (hinserted r).mpr (h.accepted r ((haccepted r).mp hr))
  · intro a b p q ha hb hab
    exact (h.submittedOrder a b p q ((hsubmitted a p).mp ha) ((hsubmitted b q).mp hb) hab).trans hsuffix
  · intro a b ha hb hab
    exact (h.acceptedOrder a b ((hinserted a).mp ha) ((haccepted b).mp hb) hab).trans hsuffix

theorem of_same (h : Ledger cfg s) (new : List Event) (htrace : s'.trace = new ++ s.trace)
    (hlate : ∀ e ∈ new, e.late = true) (hnreq : s'.nreq = s.nreq) (hsub : s'.sub = s.sub) (hpcb : s'.pcb = s.pcb) :
    Ledger cfg s' :=
  h.of_late new htrace hlate hnreq (by rw [hsub]) (by rw [hsub])
    fun _ _ _ _ _ hc => ⟨hsub ▸ hc, by rw [hpcb]; exact List.Subset.refl _⟩

theorem submit (h : Ledger cfg s) {p : Pipeline} {st : Stage} {flags : UInt32}
    (hfirst : cfg.firstRqcb p = some st) (htrace : s'.trace = .submitted s.nreq p :: s.trace)
    (hnreq : s'.nreq = s.nreq + 1) (hnone : s.sub = .none)
    (hsub : s'.sub = .checked s.nreq p st flags (decide ((s.pcb p).tmpRequestHead ≠ []))) (hpcb : s'.pcb = s.pcb) :
    Ledger cfg s' := by
  have hinserted : ∀ r, .inserted r ∈ s'.trace ↔ .inserted r ∈ s.trace := fun r => by simp [htrace]
  have haccepted : ∀ r, .accepted r ∈ s'.trace ↔ .accepted r ∈ s.trace := fun r => by simp [htrace]
  have hsubmitted : ∀ r q, .submitted r q ∈ s'.trace ↔ r = s.nreq ∧ q = p ∨ .submitted r q ∈ s.trace := fun r q => by
    simp [htrace]
  have hsuffix : s.trace.Sublist s'.trace := htrace ▸ List.sublist_cons_self _ _
  constructor
  · intro r q st' flags' concat hchecked
    rw [hsub] at hchecked
    obtain ⟨rfl, rfl, rfl, -, rfl⟩ := SubmitPc.checked.inj hchecked
    refine ⟨hfirst, (hsubmitted _ _).mpr (.inl ⟨rfl, rfl⟩), fun hin => ?_, fun hc => ?_⟩
    · exact absurd (h.inserted _ ((hinserted _).mp hin)).1 (lt_irrefl _)
    · rw [hpcb]
      simpa using hc
  · intro r hr
    rw [hsub] at hr
    rw [hnreq, ← Option.some.inj hr]
  · intro r hr
    rw [hsub] at hr
    cases hr
  · intro r q hr
    rcases (hsubmitted r q).mp hr with ⟨rfl, -⟩ | hr
    · omega
    · have := h.old r q hr
      omega
  · intro r hr
    obtain ⟨hlt, hret⟩ := h.inserted r ((hinserted r).mp hr)
    rw [hnone] at hret
    exact ⟨by omega, .inl ((haccepted r).mpr (hret.resolve_right (by simp [SubmitPc.req])))⟩
  · intro r hr
    exact (hinserted r).mpr (h.accepted r ((haccepted r).mp hr))
  · intro a b q q' ha hb hab
    rcases (hsubmitted a q).mp ha with ⟨rfl, -⟩ | ha
    · rcases (hsubmitted b q').mp hb with ⟨rfl, -⟩ | hb
      · omega
      · have := h.old b q' hb
        omega
    rcases (hsubmitted b q').mp hb with ⟨rfl, rfl⟩ | hb
    · rw [htrace]
      exact (List.singleton_sublist.mpr ha).cons_cons _
    · exact (h.submittedOrder a b q q' ha hb hab).trans hsuffix
  · intro a b ha hb hab
    exact (h.acceptedOrder a b ((hinserted a).mp ha) ((haccepted b).mp hb) hab).trans hsuffix

theorem refuse (h : Ledger cfg s) {r : Nat} {p : Pipeline} {st : Stage} {flags : UInt32} {concat : Bool}
    (hsub : s.sub = .checked r p st flags concat) : Ledger cfg { s with sub := .none } where
  checked _ _ _ _ _ h := by cases h
  current _ h := by cases h
  linked _ h := by cases h
  old := h.old
  inserted x hx := by
    obtain ⟨hlt, hret⟩ := h.inserted x hx
    refine ⟨hlt, .inl (hret.resolve_right fun hreq => ?_)⟩
    rw [hsub] at hreq
    obtain rfl := Option.some.inj hreq
    exact (h.checked r p st flags concat hsub).2.2.1 hx
  accepted := h.accepted
  submittedOrder := h.submittedOrder
  acceptedOrder := h.acceptedOrder

theorem link (h : Ledger cfg s) {r : Nat} {p : Pipeline} {st : Stage} {flags : UInt32} {concat : Bool}
    (hsub : s.sub = .checked r p st flags concat) (htrace : s'.trace = .inserted r :: s.trace)
    (hnreq : s'.nreq = s.nreq) (hreq : s'.sub.req = some r) (hlinked : s'.sub.linkedReq = some r) : Ledger cfg s' := by
  have hcur := h.current r (by rw [hsub]; rfl)
  have hinserted : ∀ x, .inserted x ∈ s'.trace ↔ x = r ∨ .inserted x ∈ s.trace := fun x => by simp [htrace]
  have haccepted : ∀ x, .accepted x ∈ s'.trace ↔ .accepted x ∈ s.trace := fun x => by simp [htrace]
  have hsubmitted : ∀ x q, .submitted x q ∈ s'.trace ↔ .submitted x q ∈ s.trace := fun x q => by simp [htrace]
  have hsuffix : s.trace.Sublist s'.trace := htrace ▸ List.sublist_cons_self _ _
  constructor
  · intro x q st' flags' concat' hchecked
    rw [hchecked] at hlinked
    cases hlinked
  · intro x hx
    rw [hreq] at hx
    rw [hnreq, ← Option.some.inj hx, hcur]
  · intro x hx
    rw [hlinked] at hx
    exact (hinserted x).mpr (.inl (Option.some.inj hx).symm)
  · intro x q hx
    rw [hnreq]
    exact h.old x q ((hsubmitted x q).mp hx)
  · intro x hx
    rw [hnreq, hreq]
    rcases (hinserted x).mp hx with rfl | hx
    · exact ⟨by omega, .inr rfl⟩
    · obtain ⟨hlt, hret⟩ := h.inserted x hx
      refine ⟨hlt, hret.imp (haccepted x).mpr fun hold => ?_⟩
      rw [hsub] at hold
      exact hold
  · intro x hx
    exact (hinserted x).mpr (.inr (h.accepted x ((haccepted x).mp hx)))
  · intro a b q q' ha hb hab
    exact (h.submittedOrder a b q q' ((hsubmitted a q).mp ha) ((hsubmitted b q').mp hb) hab).trans hsuffix
  · intro a b ha hb hab
    -- nothing was accepted after the submission in progress
    have hb := (haccepted b).mp hb
    have hlt := (h.inserted b (h.accepted b hb)).1
    have ha := ((hinserted a).mp ha).resolve_left (by omega)
    exact (h.acceptedOrder a b ha hb hab).trans hsuffix

theorem accept (h : Ledger cfg s) {r : Nat} {p : Pipeline} (hsub : s.sub = .sent r p)
    (htrace : s'.trace = .accepted r :: s.trace) (hnreq : s'.nreq = s.nreq) (hnone : s'.sub = .none) :
    Ledger cfg s' := by
  have hcur := h.current r (by rw [hsub]; rfl)
  have hinserted : ∀ x, .inserted x ∈ s'.trace ↔ .inserted x ∈ s.trace := fun x => by simp [htrace]
  have haccepted : ∀ x, .accepted x ∈ s'.trace ↔ x = r ∨ .accepted x ∈ s.trace := fun x => by simp [htrace]
  have hsubmitted : ∀ x q, .submitted x q ∈ s'.trace ↔ .submitted x q ∈ s.trace := fun x q => by simp [htrace]
  have hsuffix : s.trace.Sublist s'.trace := htrace ▸ List.sublist_cons_self _ _
  have hbefore : ∀ x, .inserted x ∈ s.trace → x = r ∨ .accepted x ∈ s.trace := fun x hx => by
    rcases (h.inserted x hx).2 with hacc | hreq
    · exact .inr hacc
    · rw [hsub] at hreq
      exact .inl (Option.some.inj hreq).symm
  constructor
  · intro x q st' flags' concat' hchecked
    rw [hnone] at hchecked
    cases hchecked
  · intro x hx
    rw [hnone] at hx
    cases hx
  · intro x hx
    rw [hnone] at hx
    cases hx
  · intro x q hx
    rw [hnreq]
    exact h.old x q ((hsubmitted x q).mp hx)
  · intro x hx
    rw [hnreq]
    have hx := (hinserted x).mp hx
    exact ⟨(h.inserted x hx).1, .inl ((haccepted x).mpr (hbefore x hx))⟩
  · intro x hx
    rcases (haccepted x).mp hx with rfl | hx
    · exact (hinserted _).mpr (h.linked _ (by rw [hsub]; rfl))
    · exact (hinserted x).mpr (h.accepted x hx)
  · intro a b q q' ha hb hab
    exact (h.submittedOrder a b q q' ((hsubmitted a q).mp ha) ((hsubmitted b q').mp hb) hab).trans hsuffix
  · intro a b ha hb hab
    have ha := (hinserted a).mp ha
    rcases (haccepted b).mp hb with rfl | hb
    · -- everything linked before was accepted before
      have hacc := (hbefore a ha).resolve_left (by omega)
      rw [htrace]
      exact (List.singleton_sublist.mpr hacc).cons_cons _
    · exact (h.acceptedOrder a b ha hb hab).trans hsuffix

end Ledger

variable [DecidableEq Stage] [DecidableEq Worker] [Fintype Stage] [Fintype Worker]

theorem sendLocked_order {cfg : Config Stage Worker} {p : Pipeline} {st : Stage}
    (hfirst : cfg.firstRqcb p = some st) (r : Nat) (flags : UInt32) {concat : Bool} {s : State Stage Worker}
    (hconcat : concat = false → (s.pcb p).tmpRequestHead = []) :
    ∃ s₁, Thinned cfg s s₁ ∧ (s₁.pcb p).tmpRequestHead = [] ∧ s₁.nreq = s.nreq ∧ s₁.sub = s.sub ∧
      (sendLocked cfg r p st flags concat s = { s₁ with sub := .none } ∨
        sendLocked cfg r p st flags concat s = { s₁ with status := .crashed } ∨
        ∃ notice, sendLocked cfg r p st flags concat s =
          setMutex st (some .main) { insertTail st r s₁ with sub := .inserted r p st notice }) := by
  obtain ⟨s₁, hthin, htmp, heq⟩ := sendToPipeline_order hfirst r flags hconcat
  have hkeeps : ∀ {β : Type} (f : State Stage Worker → β), (∀ t, f t = f (offQueues t)) →
      f (sendToPipeline cfg p st r flags concat s).1 = f s := by
    intro β f hf
    rcases QueueMove.sendToPipeline cfg p st r flags concat s with ⟨hmove, -⟩ | ⟨ev, notice, -, hmove, -⟩ <;>
    exact hmove.keeps f hf
  have hnreq := hkeeps State.nreq fun _ => rfl
  have hsub := hkeeps State.sub fun _ => rfl
  rcases heq with heq | heq | ⟨notice, heq⟩ <;> rw [heq] at hnreq hsub
  · exact ⟨s₁, hthin, htmp, hnreq, hsub, .inl (by simp [sendLocked, heq])⟩
  · exact ⟨s₁, hthin, htmp, hnreq, hsub, .inr (.inl (by simp [sendLocked, heq]))⟩
  · exact ⟨s₁, hthin, htmp, hnreq, hsub, .inr (.inr ⟨notice, by simp [sendLocked, heq]⟩)⟩

theorem ledger_send {cfg : Config Stage Worker} {s : State Stage Worker} {r : Nat} {p : Pipeline} {st : Stage}
    {flags : UInt32} {concat : Bool} (h : Ledger cfg s) (hsub : s.sub = .checked r p st flags concat) :
    Ledger cfg (sendLocked cfg r p st flags concat s) := by
  obtain ⟨hfirst, -, -, hconcat⟩ := h.checked r p st flags concat hsub
  obtain ⟨s₁, hthin, htmp, hnreq, hsub₁, heq⟩ := sendLocked_order hfirst r flags hconcat
  obtain ⟨ev, htrace⟩ := hthin.trace
  have h₁ : Ledger cfg s₁ := by
    refine h.of_late _ htrace (fun e he => ?_) hnreq (by rw [hsub₁]) (by rw [hsub₁]) fun r' p' st' flags' concat' hc => ?_
    · obtain ⟨x, -, rfl⟩ := List.mem_map.mp he
      rfl
    · rw [hsub₁] at hc
      refine ⟨hc, ?_⟩
      rw [hsub] at hc
      obtain ⟨-, rfl, -⟩ := SubmitPc.checked.inj hc
      rw [htmp]
      exact List.nil_subset _
  rw [← hsub₁] at hsub
  rcases heq with heq | heq | ⟨notice, heq⟩ <;> rw [heq]
  · exact h₁.refuse hsub
  · exact h₁.of_same [] rfl (by simp) rfl rfl rfl
  · exact h₁.link hsub rfl rfl rfl rfl

theorem ledger_kick {cfg : Config Stage Worker} {s s' : State Stage Worker} (h : Ledger cfg s) (ok : Pipeline → Bool)
    (htrace : s'.trace = (kickRequestQueue cfg ok s).trace) (hnreq : s'.nreq = (kickRequestQueue cfg ok s).nreq)
    (hsub : s'.sub = (kickRequestQueue cfg ok s).sub) (hpcb : s'.pcb = (kickRequestQueue cfg ok s).pcb) :
    Ledger cfg s' := by
  have hmove := QueueMove.kickRequestQueue cfg ok s
  obtain ⟨ev, hev⟩ := (Thinned.kickRequestQueue cfg ok s).trace
  have hkeep := hmove.keeps State.sub fun _ => rfl
  have hkick : Ledger cfg (kickRequestQueue cfg ok s) := by
    refine h.of_late _ hev (fun e he => ?_) (hmove.keeps State.nreq fun _ => rfl) (congrArg _ hkeep)
      (congrArg _ hkeep) fun _ p _ _ _ hc => ⟨hkeep ▸ hc, hmove.tmp p⟩
    obtain ⟨x, -, rfl⟩ := List.mem_map.mp he
    rfl
  exact hkick.of_same [] htrace (by simp) hnreq hsub hpcb

theorem ledger_mainPlain {cfg : Config Stage Worker} {s : State Stage Worker} {a : MainAct Stage Worker}
    (h : Ledger cfg s) (hg : mainGuard cfg s a) : Ledger cfg (mainPlain cfg s a) := by
  have hnil : ∀ e ∈ ([] : List Event), e.late = true := fun _ he => absurd he List.not_mem_nil
  cases a with
  | submit args p st =>
    obtain ⟨-, hnone, hcheck, -⟩ := hg
    exact h.submit (submitCheck_eq_ok_iff.mp hcheck).2.2.1 rfl rfl hnone rfl rfl
  | send r p st flags concat => exact ledger_send h hg.1
  | buffer r p st flags concat => exact h.link hg rfl rfl rfl rfl
  | returnTid r p => exact h.accept hg rfl rfl rfl
  | count r p st notice ws =>
    refine h.of_late [.counted r] rfl (by simp [Event.late]) rfl ?_ ?_ ?_ <;>
    cases notice <;> simp [mainPlain, mainEffect, setMutex, hg.1, SubmitPc.req, SubmitPc.linkedReq]
  | countBuffered r p =>
    have hsub : s.sub = .buffered r p := hg
    refine h.of_late [.counted r] rfl (by simp [Event.late]) rfl ?_ ?_ ?_ <;>
    simp [mainPlain, mainEffect, hsub, SubmitPc.req, SubmitPc.linkedReq]
  | noticeSkip | noticeClear =>
    refine h.of_late [] rfl hnil rfl ?_ ?_ ?_ <;>
    simp [mainPlain, mainEffect, hg.1, SubmitPc.req, SubmitPc.linkedReq]
  | noticeSet r p | noticeWrite r p =>
    have hsub : s.sub = _ := hg
    refine h.of_late [] rfl hnil rfl ?_ ?_ ?_ <;>
    simp [mainPlain, mainEffect, hsub, SubmitPc.req, SubmitPc.linkedReq]
  | kick ev ok ws => exact ledger_kick h ok rfl rfl rfl rfl
  | takeNull r rc => exact h.of_same [.passed r, .taken r] rfl (by simp [Event.late]) rfl rfl rfl
  | takeReq r rc => exact h.of_same [.taken r] rfl (by simp [Event.late]) rfl rfl rfl
  | respond r next rc => exact h.of_same [.responded r] rfl (by simp [Event.late]) rfl rfl rfl
  | dispose r next rc =>
    refine h.of_same (.freed r :: if cleans rc && (s.heap r).dataCleaner then [.cleaned r] else []) rfl ?_ rfl rfl rfl
    split_ifs <;> simp [Event.late]
  | _ => exact h.of_same [] rfl hnil rfl rfl rfl

theorem ledger_step {cfg : Config Stage Worker} {s s' : State Stage Worker} {a : Action Stage Worker}
    (h : Ledger cfg s) (hs : step cfg s a = some s') : Ledger cfg s' := by
  have hnil : ∀ e ∈ ([] : List Event), e.late = true := fun _ he => absurd he List.not_mem_nil
  obtain ⟨-, hg, rfl⟩ := step_eq_some hs
  cases a with
  | worker w a =>
    have hnreq := workerEffect_keeps cfg s w a State.nreq fun _ => rfl
    have hsub := workerEffect_keeps cfg s w a State.sub fun _ => rfl
    have hpcb := workerEffect_keeps cfg s w a State.pcb fun _ => rfl
    rcases trace_workerEffect cfg s w a with htrace | ⟨r, htrace⟩
    · exact h.of_same [] htrace hnil hnreq hsub hpcb
    · exact h.of_same [.handed r] htrace (by simp [Event.late]) hnreq hsub hpcb
  | main a =>
    exact (ledger_mainPlain h hg).of_same [] (mainEffect_plain cfg s a State.trace fun _ => rfl) hnil
      (mainEffect_plain cfg s a State.nreq fun _ => rfl) (mainEffect_plain cfg s a State.sub fun _ => rfl)
      (mainEffect_plain cfg s a State.pcb fun _ => rfl)
  | signals a =>
    cases a with
    | kick ok ws => exact ledger_kick h ok rfl rfl rfl rfl
    | _ => exact h.of_same [] rfl hnil rfl rfl rfl
  | tick | cancel => exact h.of_same [] rfl hnil rfl rfl rfl

/-! ### The lines -/

/-- The requests of a pipeline that wait for their first worker; `d` lists the ones that were taken before. -/
def line (cfg : Config Stage Worker) (s : State Stage Worker) (d : List Nat) (p : Pipeline) : List Nat :=
  (waiting cfg s p).filter (· ∉ d)

/-- The line of every pipeline is in order, it holds requests of the pipeline only, and nobody is missing from
it. -/
structure Lines (cfg : Config Stage Worker) (s : State Stage Worker) (d : List Nat) : Prop where
  sorted : ∀ p, (line cfg s d p).Pairwise (· < ·)
  home : ∀ p, ∀ x ∈ line cfg s d p, .submitted x p ∈ s.trace ∧ .inserted x ∈ s.trace
  complete : ∀ p x, .submitted x p ∈ s.trace → .inserted x ∈ s.trace → .evicted x ∉ s.trace → x ∉ d →
    x ∈ line cfg s d p

/-- What a worker is busy with and what waits inside a pipeline was taken, and nothing is taken before it is
linked. -/
structure Taken (cfg : Config Stage Worker) (s : State Stage Worker) (d : List Nat) : Prop where
  hands : ∀ w r, (s.wk w).req = some r → r ∈ d
  inner : ∀ st, (∀ p, cfg.firstRqcb p ≠ some st) → ∀ x ∈ (s.rqcb st).requestHead, x ∈ d
  inserted : ∀ x ∈ d, .inserted x ∈ s.trace

section
omit [DecidableEq Stage] [DecidableEq Worker] [Fintype Stage] [Fintype Worker]

theorem mem_line {cfg : Config Stage Worker} {s : State Stage Worker} {d : List Nat} {p : Pipeline} {x : Nat} :
    x ∈ line cfg s d p ↔ x ∈ waiting cfg s p ∧ x ∉ d := by
  rw [line, List.mem_filter, decide_eq_true_eq]

/-- The line loses requests that were evicted or taken, and gets new ones behind the others. -/
theorem Lines.move {cfg : Config Stage Worker} {s s' : State Stage Worker} {d d' : List Nat} (h : Lines cfg s d)
    (kept new : Pipeline → List Nat) (htrace : s.trace ⊆ s'.trace) (hd : d ⊆ d')
    (hkept : ∀ p, (kept p).Sublist (line cfg s d p))
    (hgone : ∀ p, ∀ x ∈ line cfg s d p, x ∈ kept p ∨ .evicted x ∈ s'.trace ∨ x ∈ d')
    (hline : ∀ p, line cfg s' d' p = kept p ++ new p) (hsorted : ∀ p, (new p).Pairwise (· < ·))
    (hnew : ∀ p, ∀ x ∈ new p, .submitted x p ∈ s'.trace ∧ .inserted x ∈ s'.trace ∧ ∀ y ∈ kept p, y < x)
    (hrecord : ∀ p x, .submitted x p ∈ s'.trace → .inserted x ∈ s'.trace →
      .submitted x p ∈ s.trace ∧ .inserted x ∈ s.trace ∨ x ∈ new p) : Lines cfg s' d' := by
  refine ⟨fun p => ?_, fun p x hx => ?_, fun p x hsub hin hev hnot => ?_⟩
  · rw [hline p, List.pairwise_append]
    exact ⟨(h.sorted p).sublist (hkept p), hsorted p, fun y hy x hx => (hnew p x hx).2.2 y hy⟩
  · rw [hline p] at hx
    rcases List.mem_append.mp hx with hx | hx
    · obtain ⟨hsub, hin⟩ := h.home p x ((hkept p).subset hx)
      exact ⟨htrace hsub, htrace hin⟩
    · exact ⟨(hnew p x hx).1, (hnew p x hx).2.1⟩
  · rw [hline p, List.mem_append]
    rcases hrecord p x hsub hin with ⟨hsub, hin⟩ | hx
    · have hold := h.complete p x hsub hin (fun he => hev (htrace he)) fun hx => hnot (hd hx)
      rcases hgone p x hold with hk | he | ht
      · exact .inl hk
      · exact absurd he hev
      · exact absurd ht hnot
    · exact .inr hx

theorem Lines.thin {cfg : Config Stage Worker} {s s₁ s' : State Stage Worker} {d : List Nat} (h : Lines cfg s d)
    (hthin : Thinned cfg s s₁) (p : Pipeline) (new : List Nat) (htrace : s₁.trace ⊆ s'.trace)
    (hwaiting : ∀ q, waiting cfg s' q = waiting cfg s₁ q ++ if q = p then new else [])
    (hsorted : new.Pairwise (· < ·))
    (hnew : ∀ x ∈ new, x ∉ d ∧ .submitted x p ∈ s'.trace ∧ .inserted x ∈ s'.trace ∧ ∀ y ∈ line cfg s d p, y < x)
    (hrecord : ∀ q x, .submitted x q ∈ s'.trace → .inserted x ∈ s'.trace →
      .submitted x q ∈ s.trace ∧ .inserted x ∈ s.trace ∨ q = p ∧ x ∈ new) : Lines cfg s' d := by
  obtain ⟨ev, hev⟩ := hthin.trace
  have hkept : ∀ q, (line cfg s₁ d q).Sublist (line cfg s d q) := fun q => (hthin.sublist q).filter _
  have hif : ∀ q x, x ∈ (if q = p then new else []) → q = p ∧ x ∈ new := by
    intro q x hx
    split_ifs at hx with hq
    · exact ⟨hq, hx⟩
    · exact absurd hx List.not_mem_nil
  refine h.move (line cfg s₁ d) (fun q => if q = p then new else []) (fun e he => ?_) (List.Subset.refl d) hkept
    (fun q x hx => ?_) (fun q => ?_) (fun q => ?_) (fun q x hx => ?_) (fun q x hsub hin => ?_)
  · exact htrace (hev ▸ List.mem_append_right _ he)
  · obtain ⟨hin, hnot⟩ := mem_line.mp hx
    rcases hthin.gone q x hin with hin | he
    · exact .inl (mem_line.mpr ⟨hin, hnot⟩)
    · exact .inr (.inl (htrace he))
  · rw [line, hwaiting q, List.filter_append, line]
    congr 1
    rw [List.filter_eq_self]
    intro x hx
    exact decide_eq_true (hnew x (hif q x hx).2).1
  · split_ifs
    · exact hsorted
    · exact .nil
  · obtain ⟨rfl, hmem⟩ := hif q x hx
    obtain ⟨-, hsub, hin, hlt⟩ := hnew x hmem
    exact ⟨hsub, hin, fun y hy => hlt y ((hkept q).subset hy)⟩
  · rcases hrecord q x hsub hin with hold | ⟨rfl, hx⟩
    · exact .inl hold
    · exact .inr (by simpa using hx)

theorem Lines.of_line {cfg : Config Stage Worker} {s s' : State Stage Worker} {d d' : List Nat} (h : Lines cfg s d)
    (hd : d ⊆ d') (hkept : ∀ p, (line cfg s' d' p).Sublist (line cfg s d p))
    (hgone : ∀ p, ∀ x ∈ line cfg s d p, x ∈ line cfg s' d' p ∨ x ∈ d')
    (htrace : s'.trace = s.trace ∨ ∃ r, s'.trace = .handed r :: s.trace) : Lines cfg s' d' := by
  have hmem : ∀ e : Event, (∀ r, e ≠ .handed r) → (e ∈ s'.trace ↔ e ∈ s.trace) := by
    intro e he
    rcases htrace with htrace | ⟨r, htrace⟩
    · rw [htrace]
    · rw [htrace, List.mem_cons, or_iff_right (he r)]
  have hsub : s.trace ⊆ s'.trace := by
    rcases htrace with htrace | ⟨r, htrace⟩ <;> rw [htrace]
    · exact List.Subset.refl _
    · exact List.subset_cons_self _ _
  refine h.move (line cfg s' d') (fun _ => []) hsub hd hkept (fun p x hx => (hgone p x hx).imp_right .inr)
    (fun p => (List.append_nil _).symm) (fun p => .nil) (by simp) (fun p x hs hi => .inl ⟨?_, ?_⟩)
  · exact (hmem _ (by simp)).mp hs
  · exact (hmem _ (by simp)).mp hi

end

section
omit [Fintype Stage] [Fintype Worker]

theorem req_workerEffect {cfg : Config Stage Worker} {s : State Stage Worker} {w : Worker}
    {a : WorkerAct Stage Worker} (hg : workerGuard cfg s w a) {v : Worker} {x : Nat}
    (hx : ((workerEffect cfg s w a).wk v).req = some x) :
    (s.wk v).req = some x ∨ x ∈ dispatches s (.worker w a) := by
  by_cases hv : v = w
  case neg => exact .inl ((eq_of_wake WorkerPc.req rfl (wk_workerEffect hg hv)) ▸ hx)
  subst hv
  have hresume : ∀ (r : Nat) (rest : List (Dest Stage)), (resume r rest).req = some x → r = x := by
    intro r rest h
    cases rest with
    | nil => cases h
    | cons => exact Option.some.inj h
  cases a with
  | dequeue r rest =>
    simp only [workerEffect, setWk, Function.update_self, WorkerPc.req, Option.some.injEq] at hx
    exact .inr (by simp [dispatches, hx])
  | handle r cl calls ret errno =>
    rw [(workerEffect_handle cfg s v r cl calls ret errno).1] at hx
    rw [hg.1]
    exact .inl hx
  | forward r st rest ws =>
    simp only [workerEffect, setWk, Function.update_self] at hx
    rw [hg.1]
    exact .inl (congrArg some (hresume r rest hx))
  | doneSkip r rest =>
    simp only [workerEffect, setWk, Function.update_self] at hx
    rw [hg.1]
    exact .inl (congrArg some (hresume r rest hx))
  | doneWrite r rest =>
    rw [workerEffect, writeByte_keeps cfg cfg.doneFd _ State.wk fun _ _ => rfl] at hx
    simp only [setWk, Function.update_self] at hx
    rw [show s.wk v = _ from hg]
    exact .inl (congrArg some (hresume r rest hx))
  | timedOut | cancelled | noHandler | doneLock | doneClear =>
    simp only [workerEffect, setWk, Function.update_self] at hx
    rw [hg.1]
    exact .inl hx
  | doneInsert | doneUnlock | doneSet =>
    simp only [workerEffect, setWk, Function.update_self] at hx
    rw [show s.wk v = _ from hg]
    exact .inl hx
  | _ => simp [workerEffect, setWk, WorkerPc.req] at hx

theorem rqcb_workerEffect (cfg : Config Stage Worker) (s : State Stage Worker) (w : Worker)
    {a : WorkerAct Stage Worker} (hdequeue : ∀ r rest, a ≠ .dequeue r rest)
    (hforward : ∀ r st rest ws, a ≠ .forward r st rest ws) : (workerEffect cfg s w a).rqcb = s.rqcb := by
  cases a with
  | dequeue r rest => exact absurd rfl (hdequeue r rest)
  | forward r st rest ws => exact absurd rfl (hforward r st rest ws)
  | handle r cl calls ret errno =>
    exact keeps_of_offConns (offConns_touchCsp r (handled cfg w r calls ret errno s)) State.rqcb fun _ => rfl
  | doneWrite r rest => exact writeByte_keeps cfg cfg.doneFd _ State.rqcb fun _ _ => rfl
  | _ => rfl

theorem lines_worker {cfg : Config Stage Worker} {s : State Stage Worker} {d : List Nat} {w : Worker}
    {a : WorkerAct Stage Worker} (h : Lines cfg s d) (htaken : Taken cfg s d) (hg : workerGuard cfg s w a) :
    Lines cfg (workerEffect cfg s w a) (dispatches s (.worker w a) ++ d) := by
  have htrace := trace_workerEffect cfg s w a
  have hrqcb : (∀ r rest, a ≠ .dequeue r rest) → (∀ r st rest ws, a ≠ .forward r st rest ws) →
      (workerEffect cfg s w a).rqcb = s.rqcb := rqcb_workerEffect cfg s w
  -- the steps that leave the lines alone
  have hsame : (dispatches s (.worker w a)) = [] →
      (∀ p, line cfg (workerEffect cfg s w a) d p = line cfg s d p) →
      Lines cfg (workerEffect cfg s w a) (dispatches s (.worker w a) ++ d) := by
    intro hnone hline
    rw [hnone]
    refine h.of_line (List.Subset.refl d) (fun p => ?_) (fun p x hx => .inl ?_) htrace
    · exact (hline p).symm ▸ List.Sublist.refl _
    · exact (hline p).symm ▸ hx
  cases a with
  | dequeue r rest =>
    obtain ⟨-, hhead, -⟩ := hg
    have hwaiting : ∀ p, waiting cfg s p = waiting cfg (workerEffect cfg s w (.dequeue r rest)) p ∨
        waiting cfg s p = r :: waiting cfg (workerEffect cfg s w (.dequeue r rest)) p := by
      intro p
      by_cases hfirst : cfg.firstRqcb p = some (cfg.rqcb w)
      · right
        rw [waiting_eq hfirst, waiting_eq hfirst, hhead]
        simp [workerEffect, setWk, setMutex]
      · left
        refine waiting_congr cfg (fun st hst => ?_) rfl
        have hne : st ≠ cfg.rqcb w := by
          rintro rfl
          exact hfirst hst
        simp [workerEffect, setWk, setMutex, Function.update_of_ne hne]
    refine h.of_line (List.subset_cons_self r d) (fun p => ?_) (fun p x hx => ?_) htrace
    · have hfilter : (line cfg (workerEffect cfg s w (.dequeue r rest)) (r :: d) p).Sublist
          (line cfg (workerEffect cfg s w (.dequeue r rest)) d p) := by
        refine List.monotone_filter_right _ fun x hx => ?_
        simp only [decide_eq_true_eq, List.mem_cons, not_or] at hx ⊢
        exact hx.2
      refine hfilter.trans (List.Sublist.filter _ ?_)
      rcases hwaiting p with hw | hw <;> rw [hw]
      exact List.sublist_cons_self _ _
    · obtain ⟨hin, hnot⟩ := mem_line.mp hx
      by_cases hxr : x = r
      · exact .inr (hxr ▸ List.mem_cons_self)
      · refine .inl (mem_line.mpr ⟨?_, by simp [dispatches, hxr, hnot]⟩)
        rcases hwaiting p with hw | hw <;> rw [hw] at hin
        · exact hin
        · exact (List.mem_cons.mp hin).resolve_left hxr
  | forward r st rest ws =>
    have hr : r ∈ d := htaken.hands w r (by rw [hg.1]; rfl)
    refine hsame rfl fun p => ?_
    by_cases hfirst : cfg.firstRqcb p = some st
    · -- it was taken before, so it does not count
      rw [line, line, waiting_eq hfirst, waiting_eq hfirst]
      simp [workerEffect, setWk, toNextStage, setReq, hr]
    · refine congrArg (List.filter _) (waiting_congr cfg (fun st' hst' => ?_) rfl)
      have hne : st' ≠ st := by
        rintro rfl
        exact hfirst hst'
      simp [workerEffect, setWk, toNextStage, setReq, Function.update_of_ne hne]
  | _ =>
    refine hsame rfl fun p => ?_
    refine congrArg (List.filter _) (waiting_congr cfg (fun st _ => ?_) ?_)
    · rw [hrqcb (by simp) (by simp)]
    · rw [workerEffect_keeps cfg s w _ State.pcb fun _ => rfl]

end

section
omit [DecidableEq Stage] [DecidableEq Worker] [Fintype Stage] [Fintype Worker]

theorem Lines.of_waiting {cfg : Config Stage Worker} {s s' : State Stage Worker} {d : List Nat} (h : Lines cfg s d)
    (hwaiting : ∀ p, waiting cfg s' p = waiting cfg s p) (htrace : s.trace ⊆ s'.trace)
    (hrecord : ∀ p x, .submitted x p ∈ s'.trace → .inserted x ∈ s'.trace →
      .submitted x p ∈ s.trace ∧ .inserted x ∈ s.trace) : Lines cfg s' d := by
  have hline : ∀ p, line cfg s' d p = line cfg s d p := fun p => congrArg (List.filter _) (hwaiting p)
  refine h.move (line cfg s d) (fun _ => []) htrace (List.Subset.refl d) (fun p => .refl _) (fun p x hx => .inl hx)
    (fun p => ?_) (fun p => .nil) (by simp) fun p x hs hi => .inl (hrecord p x hs hi)
  rw [hline p, List.append_nil]

theorem Lines.of_new {cfg : Config Stage Worker} {s s' : State Stage Worker} {d : List Nat} (h : Lines cfg s d)
    (hwaiting : ∀ p, waiting cfg s' p = waiting cfg s p) (new : List Event) (htrace : s'.trace = new ++ s.trace)
    (hnew : ∀ e ∈ new, (∀ x p, e ≠ .submitted x p) ∧ ∀ x, e ≠ .inserted x) : Lines cfg s' d := by
  refine h.of_waiting hwaiting (htrace ▸ List.subset_append_right _ _) fun p x hs hi => ?_
  rw [htrace] at hs hi
  refine ⟨(List.mem_append.mp hs).resolve_left fun hin => (hnew _ hin).1 x p rfl, ?_⟩
  exact (List.mem_append.mp hi).resolve_left fun hin => (hnew _ hin).2 x rfl

end

section
omit [DecidableEq Stage] [DecidableEq Worker] [Fintype Stage] [Fintype Worker]

theorem Lines.append {cfg : Config Stage Worker} {s s₁ s' : State Stage Worker} {d : List Nat} {r : Nat}
    {p : Pipeline} {st : Stage} {flags : UInt32} {concat : Bool} (h : Lines cfg s d) (hledger : Ledger cfg s)
    (hhomed : Homed s) (htaken : Taken cfg s d) (hsub : s.sub = .checked r p st flags concat)
    (hthin : Thinned cfg s s₁)
    (hwaiting : ∀ q, waiting cfg s' q = waiting cfg s₁ q ++ if q = p then [r] else [])
    (htrace : s'.trace = .inserted r :: s₁.trace) : Lines cfg s' d := by
  obtain ⟨-, hsubmitted, hnot, -⟩ := hledger.checked r p st flags concat hsub
  have hcur := hledger.current r (by rw [hsub]; rfl)
  obtain ⟨ev, hev⟩ := hthin.trace
  have hmem : ∀ {e : Event}, e ∈ s.trace → e ∈ s'.trace := fun he => by
    rw [htrace, hev]
    exact List.mem_cons_of_mem _ (List.mem_append_right _ he)
  have hback : ∀ e : Event, (∀ x, e ≠ .evicted x) → e ≠ .inserted r → e ∈ s'.trace → e ∈ s.trace := by
    intro e hne hnr he
    rw [htrace, hev, List.mem_cons, List.mem_append, List.mem_map] at he
    rcases he with he | ⟨x, -, rfl⟩ | he
    · exact absurd he hnr
    · exact absurd rfl (hne x)
    · exact he
  refine h.thin hthin p [r] (htrace ▸ List.subset_cons_self _ _) hwaiting (List.pairwise_singleton _ _)
    (fun x hx => ?_) fun q x hs hi => ?_
  · obtain rfl := List.mem_singleton.mp hx
    refine ⟨fun hd => hnot (htaken.inserted x hd), hmem hsubmitted, htrace ▸ List.mem_cons_self, fun y hy => ?_⟩
    -- whoever waits was linked before
    have hy := (h.home p y hy).2
    have hlt := (hledger.inserted y hy).1
    have hne : y ≠ x := fun heq => hnot (heq ▸ hy)
    omega
  · have hs := hback _ (by simp) (by simp) hs
    by_cases hx : x = r
    · subst hx
      exact .inr ⟨hhomed.one x q p hs hsubmitted, List.mem_singleton_self x⟩
    · exact .inl ⟨hs, hback _ (by simp) (by simpa using hx) hi⟩

theorem Lines.of_thinned {cfg : Config Stage Worker} {s s₁ s' : State Stage Worker} {d : List Nat}
    (h : Lines cfg s d) (hthin : Thinned cfg s s₁) (hwaiting : ∀ q, waiting cfg s' q = waiting cfg s₁ q)
    (htrace : s'.trace = s₁.trace) : Lines cfg s' d := by
  obtain ⟨ev, hev⟩ := hthin.trace
  have hback : ∀ e : Event, (∀ x, e ≠ .evicted x) → e ∈ s'.trace → e ∈ s.trace := by
    intro e hne he
    rw [htrace, hev, List.mem_append, List.mem_map] at he
    rcases he with ⟨x, -, rfl⟩ | he
    · exact absurd rfl (hne x)
    · exact he
  refine h.thin hthin 0 [] (htrace ▸ List.Subset.refl _) (fun q => ?_) .nil (by simp) fun q x hs hi => ?_
  · rw [hwaiting q, ite_self, List.append_nil]
  · exact .inl ⟨hback _ (by simp) hs, hback _ (by simp) hi⟩

end

theorem lines_mainPlain {cfg : Config Stage Worker} {s : State Stage Worker} {d : List Nat}
    {a : MainAct Stage Worker} (h : Lines cfg s d) (hledger : Ledger cfg s) (hhomed : Homed s)
    (htaken : Taken cfg s d) (hg : mainGuard cfg s a) : Lines cfg (mainPlain cfg s a) d := by
  cases a with
  | send r p st flags concat =>
    obtain ⟨hsub, -⟩ := hg
    obtain ⟨hfirst, -, -, hconcat⟩ := hledger.checked r p st flags concat hsub
    obtain ⟨s₁, hthin, htmp, -, -, heq⟩ := sendLocked_order hfirst r flags hconcat
    change Lines cfg (sendLocked cfg r p st flags concat s) d
    rcases heq with heq | heq | ⟨notice, heq⟩ <;> rw [heq]
    · exact h.of_thinned hthin (fun q => rfl) rfl
    · exact h.of_thinned hthin (fun q => rfl) rfl
    · exact h.append hledger hhomed htaken hsub hthin (waiting_insertTail hfirst r htmp) rfl
  | buffer r p st flags concat =>
    have hsub : s.sub = .checked r p st flags concat := hg
    exact h.append hledger hhomed htaken hsub (.refl s) (waiting_bufferTmp r s) rfl
  | kick ev ok ws => exact h.of_thinned (.kickRequestQueue cfg ok s) (fun q => rfl) rfl
  | submit args p st =>
    refine h.of_waiting (fun q => rfl) (List.subset_cons_self _ _) fun q x hs hi => ?_
    have hi : .inserted x ∈ s.trace := by simpa [mainPlain, preparedPlain] using hi
    have hlt := (hledger.inserted x hi).1
    have hs : x = s.nreq ∧ q = p ∨ .submitted x q ∈ s.trace := by simpa [mainPlain, preparedPlain] using hs
    exact ⟨hs.resolve_left fun heq => by omega, hi⟩
  | count r p st notice ws =>
    refine h.of_new (fun q => waiting_congr cfg (fun st' _ => ?_) rfl) [.counted r] rfl (by simp)
    by_cases hst : st' = st
    · subst hst; simp [mainPlain, mainEffect, setMutex, countInserted]
    · simp [mainPlain, mainEffect, setMutex, countInserted, Function.update_of_ne hst]
  | countBuffered r p =>
    refine h.of_new (fun q => waiting_congr cfg (fun st' _ => rfl) ?_) [.counted r] rfl (by simp)
    by_cases hq : q = p
    · subst hq; simp [mainPlain, mainEffect, countBuffered]
    · simp [mainPlain, mainEffect, countBuffered, Function.update_of_ne hq]
  | returnTid r p =>
    refine h.of_new (fun q => waiting_congr cfg (fun st' _ => rfl) ?_) [.accepted r] rfl (by simp)
    by_cases hq : q = p
    · subst hq; simp [mainPlain, mainEffect]
    · simp [mainPlain, mainEffect, Function.update_of_ne hq]
  | takeNull r rc => exact h.of_new (fun q => rfl) [.passed r, .taken r] rfl (by simp)
  | takeReq r rc => exact h.of_new (fun q => rfl) [.taken r] rfl (by simp)
  | respond r next rc => exact h.of_new (fun q => rfl) [.responded r] rfl (by simp)
  | dispose r next rc =>
    refine h.of_new (fun q => rfl) (.freed r :: if cleans rc && (s.heap r).dataCleaner then [.cleaned r] else []) rfl ?_
    split_ifs <;> simp
  | _ => exact h.of_new (fun q => rfl) [] rfl (by simp)

theorem lines_step {cfg : Config Stage Worker} {s s' : State Stage Worker} {a : Action Stage Worker} {d : List Nat}
    (h : Lines cfg s d) (hledger : Ledger cfg s) (hhomed : Homed s) (htaken : Taken cfg s d)
    (hs : step cfg s a = some s') : Lines cfg s' (dispatches s a ++ d) := by
  obtain ⟨-, hg, rfl⟩ := step_eq_some hs
  cases a with
  | worker w a => exact lines_worker h htaken hg
  | main a =>
    refine (lines_mainPlain h hledger hhomed htaken hg).of_new (fun q => waiting_congr cfg (fun st _ => ?_) ?_) []
      (mainEffect_plain cfg s a State.trace fun _ => rfl) (by simp)
    · exact congrArg (fun f => (f st).requestHead) (mainEffect_plain cfg s a State.rqcb fun _ => rfl)
    · exact congrArg (fun f => (f q).tmpRequestHead) (mainEffect_plain cfg s a State.pcb fun _ => rfl)
  | signals a =>
    cases a with
    | kick ok ws => exact h.of_thinned (.kickRequestQueue cfg ok s) (fun q => rfl) rfl
    | _ => exact h.of_new (fun q => rfl) [] rfl (by simp)
  | tick | cancel => exact h.of_new (fun q => rfl) [] rfl (by simp)

/-! ### What was taken -/

omit [DecidableEq Worker] [Fintype Stage] [Fintype Worker] in
theorem Taken.inserted_of_mem {cfg : Config Stage Worker} {s : State Stage Worker} {d : List Nat}
    (h : Taken cfg s d) (hlines : Lines cfg s d) {st : Stage} {x : Nat} (hx : x ∈ (s.rqcb st).requestHead) :
    .inserted x ∈ s.trace := by
  by_cases hd : x ∈ d
  · exact h.inserted x hd
  by_cases hinner : ∀ p, cfg.firstRqcb p ≠ some st
  · exact absurd (h.inner st hinner x hx) hd
  · push Not at hinner
    obtain ⟨p, hfirst⟩ := hinner
    refine (hlines.home p x (mem_line.mpr ⟨?_, hd⟩)).2
    rw [waiting_eq hfirst]
    exact List.mem_append_left _ hx

omit [Fintype Stage] [Fintype Worker] in
theorem taken_worker {cfg : Config Stage Worker} {s : State Stage Worker} {d : List Nat} {w : Worker}
    {a : WorkerAct Stage Worker} (h : Taken cfg s d) (hlines : Lines cfg s d) (hg : workerGuard cfg s w a) :
    Taken cfg (workerEffect cfg s w a) (dispatches s (.worker w a) ++ d) := by
  have hmem : ∀ x, .inserted x ∈ s.trace → .inserted x ∈ (workerEffect cfg s w a).trace := fun x hx => by
    rcases trace_workerEffect cfg s w a with htrace | ⟨r, htrace⟩ <;> rw [htrace]
    · exact hx
    · exact List.mem_cons_of_mem _ hx
  have hrqcb : (∀ r rest, a ≠ .dequeue r rest) → (∀ r st rest ws, a ≠ .forward r st rest ws) →
      (workerEffect cfg s w a).rqcb = s.rqcb := rqcb_workerEffect cfg s w
  refine ⟨fun v x hx => ?_, fun st hinner x hx => ?_, fun x hx => hmem x ?_⟩
  · rw [List.mem_append]
    exact (req_workerEffect hg hx).symm.imp_right (h.hands v x)
  · rw [List.mem_append]
    right
    cases a with
    | dequeue r rest =>
      refine h.inner st hinner x ?_
      by_cases hst : st = cfg.rqcb w
      · subst hst
        rw [hg.2.1]
        exact List.mem_cons_of_mem _ (by simpa [workerEffect, setWk, setMutex] using hx)
      · simpa [workerEffect, setWk, setMutex, Function.update_of_ne hst] using hx
    | forward r st' rest ws =>
      by_cases hst : st = st'
      · subst hst
        have hx : x ∈ (s.rqcb st).requestHead ∨ x = r := by
          simpa [workerEffect, setWk, toNextStage, setReq] using hx
        rcases hx with hx | rfl
        · exact h.inner st hinner x hx
        · exact h.hands w x (by rw [hg.1]; rfl)
      · refine h.inner st hinner x ?_
        simpa [workerEffect, setWk, toNextStage, setReq, Function.update_of_ne hst] using hx
    | _ =>
      rw [hrqcb (by simp) (by simp)] at hx
      exact h.inner st hinner x hx
  · rcases List.mem_append.mp hx with hnew | hold
    · unfold dispatches at hnew
      split at hnew
      · rename_i r rest heq
        cases heq
        obtain rfl := List.mem_singleton.mp hnew
        exact h.inserted_of_mem hlines (by rw [hg.2.1]; exact List.mem_cons_self)
      · exact absurd hnew List.not_mem_nil
    · exact h.inserted x hold

omit [DecidableEq Stage] [DecidableEq Worker] [Fintype Stage] [Fintype Worker] in
theorem Taken.of_thinned {cfg : Config Stage Worker} {s s₁ s' : State Stage Worker} {d : List Nat}
    (h : Taken cfg s d) (hthin : Thinned cfg s s₁) (hwk : ∀ w, (s'.wk w).req = (s.wk w).req)
    (hinner : ∀ st, (∀ p, cfg.firstRqcb p ≠ some st) → (s'.rqcb st).requestHead = (s₁.rqcb st).requestHead)
    (htrace : s₁.trace ⊆ s'.trace) : Taken cfg s' d := by
  obtain ⟨ev, hev⟩ := hthin.trace
  refine ⟨fun w r hr => h.hands w r (hwk w ▸ hr), fun st hst x hx => ?_, fun x hx => ?_⟩
  · rw [hinner st hst, hthin.inner st hst] at hx
    exact h.inner st hst x hx
  · exact htrace (hev ▸ List.mem_append_right _ (h.inserted x hx))

theorem taken_mainEffect {cfg : Config Stage Worker} {s : State Stage Worker} {d : List Nat}
    {a : MainAct Stage Worker} (h : Taken cfg s d) (hledger : Ledger cfg s) (hg : mainGuard cfg s a) :
    Taken cfg (mainEffect cfg s a) d := by
  have hwk : ∀ w, ((mainEffect cfg s a).wk w).req = (s.wk w).req := fun w =>
    eq_of_wake WorkerPc.req rfl (wk_mainEffect hg w)
  obtain ⟨s₁, hthin, hinner, htrace⟩ : ∃ s₁, Thinned cfg s s₁ ∧
      (∀ st, (∀ p, cfg.firstRqcb p ≠ some st) →
        ((mainPlain cfg s a).rqcb st).requestHead = (s₁.rqcb st).requestHead) ∧
      s₁.trace ⊆ (mainPlain cfg s a).trace := by
    cases a with
    | send r p st flags concat =>
      obtain ⟨hfirst, -, -, hconcat⟩ := hledger.checked r p st flags concat hg.1
      obtain ⟨s₁, hthin, htmp, -, -, heq⟩ := sendLocked_order hfirst r flags hconcat
      refine ⟨s₁, hthin, ?_⟩
      simp only [mainPlain, mainEffect]
      rcases heq with heq | heq | ⟨notice, heq⟩ <;> rw [heq]
      · exact ⟨fun _ _ => rfl, List.Subset.refl _⟩
      · exact ⟨fun _ _ => rfl, List.Subset.refl _⟩
      · refine ⟨fun st' hst' => ?_, List.subset_cons_self _ _⟩
        simp [setMutex, insertTail, Function.update_of_ne (ne_of_inner hfirst hst')]
    | kick ev ok ws => exact ⟨_, .kickRequestQueue cfg ok s, fun _ _ => rfl, List.Subset.refl _⟩
    | count r p st notice ws =>
      refine ⟨s, .refl s, fun st' _ => ?_, List.subset_cons_self _ _⟩
      by_cases hst : st' = st
      · subst hst; simp [mainPlain, mainEffect, setMutex, countInserted]
      · simp [mainPlain, mainEffect, setMutex, countInserted, Function.update_of_ne hst]
    | takeNull r rc => exact ⟨s, .refl s, fun _ _ => rfl, List.subset_append_right [Event.passed r, .taken r] _⟩
    | dispose r next rc =>
      exact ⟨s, .refl s, fun _ _ => rfl, List.subset_cons_of_subset _ (List.subset_append_right _ _)⟩
    | submit | buffer | countBuffered | returnTid | takeReq | respond =>
      exact ⟨s, .refl s, fun _ _ => rfl, List.subset_cons_self _ _⟩
    | _ => exact ⟨s, .refl s, fun _ _ => rfl, List.Subset.refl _⟩
  refine h.of_thinned hthin hwk (fun st hst => ?_) ?_
  · rw [mainEffect_plain cfg s a State.rqcb fun _ => rfl]
    exact hinner st hst
  · rw [mainEffect_plain cfg s a State.trace fun _ => rfl]
    exact htrace

theorem taken_step {cfg : Config Stage Worker} {s s' : State Stage Worker} {a : Action Stage Worker} {d : List Nat}
    (h : Taken cfg s d) (hlines : Lines cfg s d) (hledger : Ledger cfg s) (hs : step cfg s a = some s') :
    Taken cfg s' (dispatches s a ++ d) := by
  obtain ⟨-, hg, rfl⟩ := step_eq_some hs
  cases a with
  | worker w a => exact taken_worker h hlines hg
  | main a => exact taken_mainEffect h hledger hg
  | signals a =>
    have hwk : ∀ w, ((signalEffect cfg s a).wk w).req = (s.wk w).req := fun w =>
      eq_of_wake WorkerPc.req rfl (wk_signalEffect hg w)
    cases a with
    | kick ok ws => exact h.of_thinned (.kickRequestQueue cfg ok s) hwk (fun _ _ => rfl) (List.Subset.refl _)
    | _ => exact h.of_thinned (.refl s) hwk (fun _ _ => rfl) (List.Subset.refl _)
  | tick | cancel => exact h.of_thinned (.refl s) (fun _ => rfl) (fun _ _ => rfl) (List.Subset.refl _)

/-! ### First in, first out -/

structure FifoInv (cfg : Config Stage Worker) (s : State Stage Worker) (d : List Nat) : Prop where
  homed : Homed s
  ledger : Ledger cfg s
  lines : Lines cfg s d
  taken : Taken cfg s d

omit [DecidableEq Stage] [DecidableEq Worker] [Fintype Stage] in
theorem fifoInv_init (cfg : Config Stage Worker) : FifoInv cfg State.init [] where
  homed := homed_init
  ledger := .init cfg
  lines := by
    have hline : ∀ p, line cfg (State.init : State Stage Worker) [] p = [] := fun p => by
      cases hfirst : cfg.firstRqcb p <;> simp [line, waiting, hfirst, State.init]
    exact ⟨fun p => by simp [hline p], fun p => by simp [hline p], fun p x hx => absurd hx List.not_mem_nil⟩
  taken := by constructor <;> simp [State.init, WorkerPc.req]

/-- `a` was submitted before `b`; the record of a run is newest first. -/
def SubmittedBefore (s : State Stage Worker) (p : Pipeline) (a b : Nat) : Prop :=
  [Event.submitted b p, .submitted a p].Sublist s.trace

/-- `submit_request` has returned for `a`, and had not returned for `b` by then. -/
def AcceptedBefore (s : State Stage Worker) (a b : Nat) : Prop :=
  .accepted a ∈ s.trace ∧ a ≠ b ∧ ¬[Event.accepted a, .accepted b].Sublist s.trace

/-- The states of the process with the list of requests that some worker has taken off a queue. -/
abbrev ReachableDispatch (cfg : Config Stage Worker) : State Stage Worker × List Nat → Prop :=
  Reach (withHistory (step cfg) dispatches) (fun _ _ _ => True) (State.init, [])

theorem fifoInv {cfg : Config Stage Worker} {x : State Stage Worker × List Nat} (h : ReachableDispatch cfg x) :
    FifoInv cfg x.1 x.2 := by
  refine h.invariant (I := fun x => FifoInv cfg x.1 x.2) (fifoInv_init cfg) ?_
  intro x a x' hI _ hx
  obtain ⟨hs, hd⟩ := withHistory_eq_some hx
  rw [hd]
  exact ⟨homed_step hI.homed hs, ledger_step hI.ledger hs,
    lines_step hI.lines hI.ledger hI.homed hI.taken hs, taken_step hI.taken hI.lines hI.ledger hs⟩

/-- In the line of every pipeline the requests stand in the order of their submission, and when a worker of the first
stage takes a request for the first time, every request of the pipeline that was accepted before it has been taken by a
worker, or was evicted. -/
theorem dispatched_in_order (cfg : Config Stage Worker) {s : State Stage Worker} {d : List Nat}
    (h : ReachableDispatch cfg (s, d)) (p : Pipeline) (st : Stage) (hfirst : cfg.firstRqcb p = some st) :
    (((s.rqcb st).requestHead ++ (s.pcb p).tmpRequestHead).filter (· ∉ d)).Pairwise (SubmittedBefore s p) ∧
    ∀ w b rest, cfg.rqcb w = st → Guard cfg s (.worker w (.dequeue b rest)) → b ∉ d →
      ∀ a, .submitted a p ∈ s.trace → AcceptedBefore s a b → a ∈ d ∨ .evicted a ∈ s.trace := by
  obtain ⟨hhomed, hledger, hlines, -⟩ := fifoInv h
  simp only at hhomed hledger hlines
  have hline : line cfg s d p = ((s.rqcb st).requestHead ++ (s.pcb p).tmpRequestHead).filter (· ∉ d) := by
    rw [line, waiting_eq hfirst]
  constructor
  · rw [← hline]
    refine (hlines.sorted p).imp_of_mem fun {a b} ha hb hab => ?_
    exact hledger.submittedOrder a b p p (hlines.home p a ha).1 (hlines.home p b hb).1 hab
  · rintro w b rest rfl ⟨-, hhead, -⟩ hb a hsub ⟨hacc, hne, hnot⟩
    by_contra hwaits
    push Not at hwaits
    -- `a` would wait in a line that `b` heads
    have ha := hlines.complete p a hsub (hledger.accepted a hacc) hwaits.2 hwaits.1
    have hsorted := hlines.sorted p
    have hinb : b ∈ line cfg s d p := by simp [hline, hhead, hb]
    rw [hline, hhead, List.cons_append, List.filter_cons_of_pos (by simpa using hb)] at ha hsorted
    have hlt := (List.pairwise_cons.mp hsorted).1 a ((List.mem_cons.mp ha).resolve_left hne)
    exact hnot (hledger.acceptedOrder b a (hlines.home p b hinb).2 hacc hlt)

end Csf
