import Csf.Lib.Tagged
import Csf.System.Fifo
import Csf.System.Refusal

/-!
# Transaction ids

A call of `submit_request` that passes its tests takes the next number of the static counter `inc`, puts the pipeline id
above its low 56 bits, and returns the result if the request gets into the pipeline. The counter is shared by all
pipelines, and it advances for calls that are refused later, too. What the calls of a run got and returned is kept in a
history, newest first; `CallInv` says how it goes with the counter and with the call in progress.
-/

namespace Csf

open Lib

variable {Stage Worker : Type}

/-! ### The history of calls -/

/-- What a call of `submit_request` leaves in the history. -/
inductive SubmitEvent
  | entered (pipelineId : UInt32)
  /-- it returned an error code -/
  | refused (code : Int)
  /-- it returned its transaction id -/
  | accepted (value : Int)
  deriving DecidableEq

/-- A call that returned its transaction id. -/
structure AcceptedCall where
  pipelineId : UInt32
  value : Int
  deriving DecidableEq

/-- The calls that returned a transaction id, newest first. Calls are not nested. -/
def acceptedCalls : List SubmitEvent → List AcceptedCall
  | .accepted value :: .entered pipelineId :: hist => ⟨pipelineId, value⟩ :: acceptedCalls hist
  | _ :: hist => acceptedCalls hist
  | [] => []

@[simp] theorem acceptedCalls_entered (id : UInt32) (hist : List SubmitEvent) :
    acceptedCalls (.entered id :: hist) = acceptedCalls hist := by
  rw [acceptedCalls]
  intro value id' hist' h
  cases h

@[simp] theorem acceptedCalls_refused (code : Int) (hist : List SubmitEvent) :
    acceptedCalls (.refused code :: hist) = acceptedCalls hist := by
  rw [acceptedCalls]
  intro value id' hist' h
  cases h

def SubmitEvent.tid : SubmitEvent → Option Int
  | .accepted value => some value
  | _ => none

def SubmitEvent.isEntered : SubmitEvent → Bool
  | .entered _ => true
  | _ => false

def submissions (hist : List SubmitEvent) : Nat := hist.countP SubmitEvent.isEntered

section
variable [DecidableEq Stage]

def submitEvents (cfg : Config Stage Worker) (s : State Stage Worker) : Action Stage Worker → List SubmitEvent
  | .main (.submit args _ _) => [.entered args.pipelineId]
  | .main (.refuse args code) => [.refused code, .entered args.pipelineId]
  | .main (.returnTid r p) => ((returnValue cfg s (.main (.returnTid r p))).map .accepted).toList
  | a => ((returnValue cfg s a).map .refused).toList

end

/-! ### The transaction id as a number -/

theorem toNat_mask {id : UInt32} (hid : id.toNat < pipelineSize) : (id &&& 0x7f).toNat = id.toNat := by
  have hmod := Nat.and_two_pow_sub_one_eq_mod id.toNat 7
  have hlt : id.toNat < 16 := hid
  rw [UInt32.toNat_and]
  exact hmod.trans (Nat.mod_eq_of_lt (by omega))

theorem toNat_tid {id : UInt32} (hid : id.toNat < pipelineSize) {k : UInt64} (hk : k.toNat < 2 ^ 56) :
    (((id &&& 0x7f).toUInt64 <<< 56) + k).toNat = tagged 56 id.toNat k.toNat := by
  have hlt : tagged 56 id.toNat k.toNat < 2 ^ 60 := tagged_lt (v := 4) hid hk
  have hhigh : ((id &&& 0x7f).toUInt64 <<< 56).toNat = id.toNat * 2 ^ 56 := by
    have hid' : id.toNat < 16 := hid
    rw [UInt64.toNat_shiftLeft, UInt32.toNat_toUInt64, toNat_mask hid, Nat.shiftLeft_eq,
      show UInt64.toNat 56 % 64 = 56 from rfl]
    exact Nat.mod_eq_of_lt (by omega)
  rw [tagged] at hlt ⊢
  rw [UInt64.toNat_add, hhigh]
  omega

theorem toInt_tid {id : UInt32} (hid : id.toNat < pipelineSize) {k : UInt64} (hk : k.toNat < 2 ^ 56) :
    (((id &&& 0x7f).toUInt64 <<< 56) + k).toInt64.toInt = tagged 56 id.toNat k.toNat := by
  have hnat := toNat_tid hid hk
  have hlt : tagged 56 id.toNat k.toNat < 2 ^ 60 := tagged_lt (v := 4) hid hk
  rw [← hnat] at hlt ⊢
  exact BitVec.toInt_eq_toNat_of_lt (x := (((id &&& 0x7f).toUInt64 <<< 56) + k).toBitVec) (by
    rw [UInt64.toNat_toBitVec]
    omega)

/-! ### What a step does to the call in progress -/

variable [DecidableEq Stage] [DecidableEq Worker] [Fintype Stage] [Fintype Worker]

theorem tid_step {cfg : Config Stage Worker} {s s' : State Stage Worker} {a : Action Stage Worker}
    (hs : step cfg s a = some s') {r : Nat} (hr : r < s.nreq) : (s'.heap r).tid = (s.heap r).tid := by
  obtain ⟨n, f, x, e, d, c, h, -⟩ := block_step hs (Nat.ne_of_lt hr)
  rw [h]

/-- The part of a step that the history and the counter see. -/
inductive CallStep (s s' : State Stage Worker) : List SubmitEvent → Prop
  | quiet (hreq : s'.sub.req = s.sub.req) (hinc : s'.inc = s.inc) : CallStep s s' []
  | enters (id : UInt32) (hid : id.toNat < pipelineSize) (hnone : s.sub.req = none) (hreq : s'.sub.req = some s.nreq)
      (hnreq : s.nreq < s'.nreq) (hinc : s'.inc = s.inc + 1)
      (htid : (s'.heap s.nreq).tid = ((id &&& 0x7f).toUInt64 <<< 56) + (s.inc + 1)) : CallStep s s' [.entered id]
  | tested (id : UInt32) (code : Int) (hcode : code = submitGenericError ∨ code = submitQueueFull)
      (hnone : s.sub.req = none) (heq : s' = s) : CallStep s s' [.refused code, .entered id]
  | refuses (r : Nat) (hreq : s.sub.req = some r) (hnone : s'.sub.req = none) (hinc : s'.inc = s.inc) :
      CallStep s s' [.refused submitGenericError]
  | accepts (r : Nat) (hreq : s.sub.req = some r) (hnone : s'.sub.req = none) (hinc : s'.inc = s.inc) :
      CallStep s s' [.accepted (s.heap r).tid.toInt64.toInt]

theorem callStep_send {cfg : Config Stage Worker} {s : State Stage Worker} {r : Nat} {p : Pipeline} {st : Stage}
    {flags : UInt32} {concat : Bool} (hsub : s.sub = .checked r p st flags concat) :
    CallStep s (sendLocked cfg r p st flags concat s) (submitEvents cfg s (.main (.send r p st flags concat))) := by
  have hinc : (sendLocked cfg r p st flags concat s).inc = s.inc :=
    sendLocked_keeps cfg r p st flags concat s State.inc fun _ => rfl
  have hreq : s.sub.req = some r := by rw [hsub]; rfl
  have hevents : submitEvents cfg s (.main (.send r p st flags concat)) =
      if (sendToPipeline cfg p st r flags concat s).2 = .full then [.refused submitGenericError] else [] := by
    simp only [submitEvents, returnValue]
    split_ifs <;> rfl
  have hmoved : (sendToPipeline cfg p st r flags concat s).1.sub = s.sub := by
    rcases QueueMove.sendToPipeline cfg p st r flags concat s with ⟨hmove, -⟩ | ⟨ev, notice, -, hmove, -⟩
    · exact hmove.keeps State.sub fun _ => rfl
    · exact hmove.keeps State.sub fun _ => rfl
  rw [hevents]
  unfold sendLocked at hinc ⊢
  generalize sendToPipeline cfg p st r flags concat s = out at hinc hmoved ⊢
  obtain ⟨s₁, result⟩ := out
  cases result with
  | full => exact .refuses r hreq rfl hinc
  | nullHead => exact .quiet (congrArg SubmitPc.req hmoved) hinc
  | linked notice => exact .quiet hreq.symm hinc

theorem callStep {cfg : Config Stage Worker} {s s' : State Stage Worker} {a : Action Stage Worker}
    (hs : step cfg s a = some s') : CallStep s s' (submitEvents cfg s a) := by
  obtain ⟨-, hg, rfl⟩ := step_eq_some hs
  cases a with
  | worker w a =>
    refine .quiet ?_ (workerEffect_keeps cfg s w a State.inc fun _ => rfl)
    exact congrArg SubmitPc.req (workerEffect_keeps cfg s w a State.sub fun _ => rfl)
  | signals a =>
    refine .quiet ?_ (signalEffect_keeps cfg s a State.inc fun _ => rfl)
    exact congrArg SubmitPc.req (signalEffect_keeps cfg s a State.sub fun _ => rfl)
  | tick => exact .quiet rfl rfl
  | cancel q => exact .quiet rfl rfl
  | main a =>
    have hsub := mainEffect_plain cfg s a State.sub fun _ => rfl
    have hinc := mainEffect_plain cfg s a State.inc fun _ => rfl
    cases a with
    | submit args p st =>
      have hid : args.pipelineId.toNat = p := (submitCheck_eq_ok_iff.mp hg.2.2.1).1
      refine .enters args.pipelineId (hid ▸ p.isLt) ?_ ?_ ?_ hinc ?_
      · rw [hg.2.1]
        rfl
      · exact congrArg SubmitPc.req hsub
      · rw [effect, mainEffect_plain cfg s _ State.nreq fun _ => rfl]
        exact Nat.lt_succ_self _
      · rw [effect, mainEffect_plain cfg s _ State.heap fun _ => rfl, mainPlain, preparedPlain, allocRequest]
        dsimp only
        rw [Function.update_self, newRequest]
    | refuse args code =>
      have hcode := (code_of_submitCheck hg.2.2).symm.imp_left And.left
      exact .tested args.pipelineId code hcode (congrArg SubmitPc.req hg.2.1) rfl
    | send r p st flags concat => exact callStep_send hg.1
    | returnTid r p => exact .accepts r (congrArg SubmitPc.req hg) rfl rfl
    | kick ev ok ws =>
      have hmove := QueueMove.kickRequestQueue cfg ok s
      exact .quiet (congrArg SubmitPc.req (hmove.keeps State.sub fun _ => rfl)) (hmove.keeps State.inc fun _ => rfl)
    | buffer r p st flags concat => exact .quiet (congrArg SubmitPc.req hg).symm rfl
    | count r p st notice ws =>
      have hreq : s.sub.req = some r := congrArg SubmitPc.req hg.1
      refine .quiet ?_ rfl
      rw [hreq, effect, hsub]
      cases notice <;> rfl
    | countBuffered r p => exact .quiet (congrArg SubmitPc.req hg).symm rfl
    | noticeSkip r p => exact .quiet (congrArg SubmitPc.req hg.1).symm rfl
    | noticeClear r p => exact .quiet (congrArg SubmitPc.req hg.1).symm rfl
    | noticeSet r p => exact .quiet (congrArg SubmitPc.req hg).symm rfl
    | noticeWrite r p => exact .quiet ((congrArg SubmitPc.req hsub).trans (congrArg SubmitPc.req hg).symm) hinc
    | _ => exact .quiet (congrArg SubmitPc.req hsub) hinc

/-! ### The invariant -/

/-- The number of the counter that a transaction id was made with. -/
def AcceptedCall.serial (call : AcceptedCall) : Nat := call.value.toNat % 2 ^ 56

/-- The value is the pipeline id above the number. -/
def AcceptedCall.Made (call : AcceptedCall) : Prop :=
  call.pipelineId.toNat < pipelineSize ∧ call.value = tagged 56 call.pipelineId.toNat call.serial

theorem AcceptedCall.serial_eq (id : UInt32) {k : Nat} (hk : k < 2 ^ 56) :
    AcceptedCall.serial ⟨id, tagged 56 id.toNat k⟩ = k := by
  rw [AcceptedCall.serial, Int.toNat_natCast, tagged_mod hk]

/-- How the history goes with the counter and with the call in progress, which has the newest number. -/
structure CallInv (s : State Stage Worker) (hist : List SubmitEvent) : Prop where
  inc_le : s.inc.toNat ≤ submissions hist
  codes : ∀ code, .refused code ∈ hist → code = submitGenericError ∨ code = submitQueueFull
  tids : hist.filterMap SubmitEvent.tid = (acceptedCalls hist).map AcceptedCall.value
  made : ∀ call ∈ acceptedCalls hist, call.Made ∧ call.serial ≤ s.inc.toNat
  order : (acceptedCalls hist).Pairwise fun newer older => older.serial < newer.serial
  pending : ∀ r, s.sub.req = some r → r < s.nreq ∧ (∀ call ∈ acceptedCalls hist, call.serial < s.inc.toNat) ∧
    ∃ id hist', hist = .entered id :: hist' ∧ id.toNat < pipelineSize ∧
      (s.heap r).tid = ((id &&& 0x7f).toUInt64 <<< 56) + s.inc

omit [DecidableEq Stage] [DecidableEq Worker] [Fintype Stage] in
theorem callInv_init : CallInv (State.init : State Stage Worker) [] where
  inc_le := Nat.le_refl _
  codes _ h := absurd h List.not_mem_nil
  tids := rfl
  made _ h := absurd h List.not_mem_nil
  order := List.Pairwise.nil
  pending _ h := absurd h (Option.some_ne_none _).symm

theorem submissions_append (hist hist' : List SubmitEvent) :
    submissions (hist ++ hist') = submissions hist + submissions hist' := List.countP_append

omit [DecidableEq Stage] [DecidableEq Worker] [Fintype Stage] [Fintype Worker] in
theorem CallStep.codes {s s' : State Stage Worker} {events : List SubmitEvent} (h : CallStep s s' events) (code : Int)
    (hc : .refused code ∈ events) : code = submitGenericError ∨ code = submitQueueFull := by
  cases h with
  | tested id code' hcode =>
    rcases List.mem_cons.mp hc with hc | hc
    · exact SubmitEvent.refused.inj hc ▸ hcode
    · exact absurd (List.mem_singleton.mp hc) (by simp)
  | refuses => exact Or.inl (SubmitEvent.refused.inj (List.mem_singleton.mp hc))
  | _ => simp at hc

omit [DecidableEq Stage] [DecidableEq Worker] [Fintype Stage] [Fintype Worker] in
theorem CallStep.inc_le {s s' : State Stage Worker} {events : List SubmitEvent} (h : CallStep s s' events) :
    s'.inc.toNat ≤ submissions events + s.inc.toNat := by
  cases h with
  | enters id hid hnone hreq hnreq hinc =>
    rw [hinc, UInt64.toNat_add, UInt64.toNat_one, show submissions [.entered id] = 1 from rfl, Nat.add_comm 1]
    exact Nat.mod_le _ _
  | tested id code hcode hnone heq =>
    rw [heq]
    exact Nat.le_add_left _ _
  | quiet hreq hinc =>
    rw [hinc]
    exact Nat.le_add_left _ _
  | refuses r hreq hnone hinc | accepts r hreq hnone hinc =>
    rw [hinc]
    exact Nat.le_add_left _ _

theorem callInv_step {cfg : Config Stage Worker} {s s' : State Stage Worker} {a : Action Stage Worker}
    {hist : List SubmitEvent} (h : CallInv s hist) (hs : step cfg s a = some s')
    (hfew : submissions (submitEvents cfg s a ++ hist) < 2 ^ 56) : CallInv s' (submitEvents cfg s a ++ hist) := by
  have htid := fun r => tid_step hs (r := r)
  have hnreq := nreq_step_le hs
  have hcase := callStep hs
  generalize submitEvents cfg s a = events at hcase hfew ⊢
  have hinc_le : s'.inc.toNat ≤ submissions (events ++ hist) := by
    rw [submissions_append]
    exact hcase.inc_le.trans (Nat.add_le_add_left h.inc_le _)
  have hcodes : ∀ code, .refused code ∈ events ++ hist → code = submitGenericError ∨ code = submitQueueFull :=
    fun code hc => (List.mem_append.mp hc).elim (hcase.codes code) (h.codes code)
  -- after a call has returned there is none in progress
  have hidle {P : Nat → Prop} (hnone : s'.sub.req = none) (r : Nat) (hr : s'.sub.req = some r) : P r :=
    absurd (hnone.symm.trans hr) (Option.some_ne_none _).symm
  cases hcase with
  | quiet hreq hinc =>
    refine ⟨hinc_le, hcodes, h.tids, hinc ▸ h.made, h.order, fun r hr => ?_⟩
    obtain ⟨hlt, hless, id, hist', rfl, hid, htid'⟩ := h.pending r (hreq ▸ hr)
    exact ⟨by omega, hinc ▸ hless, id, hist', rfl, hid, by rw [htid r hlt, htid', hinc]⟩
  | enters id hid hnone hreq hlt hinc hnew =>
    have hsucc : s'.inc.toNat = s.inc.toNat + 1 := by
      have hold := h.inc_le
      rw [submissions_append] at hfew
      rw [hinc, UInt64.toNat_add]
      exact Nat.mod_eq_of_lt (by simp only [UInt64.toNat_one]; omega)
    have hsame : acceptedCalls ([.entered id] ++ hist) = acceptedCalls hist := acceptedCalls_entered id hist
    refine ⟨hinc_le, hcodes, hsame ▸ h.tids, ?_, hsame ▸ h.order, fun r hr => ?_⟩
    · rw [hsame, hsucc]
      exact fun call hcall => ⟨(h.made call hcall).1, Nat.le_succ_of_le (h.made call hcall).2⟩
    · obtain rfl : s.nreq = r := Option.some.inj (hreq.symm.trans hr)
      refine ⟨hlt, ?_, id, hist, rfl, hid, by rw [hnew, hinc]⟩
      rw [hsame, hsucc]
      exact fun call hcall => Nat.lt_succ_of_le (h.made call hcall).2
  | tested id code hcode hnone heq =>
    have hsame : acceptedCalls ([.refused code, .entered id] ++ hist) = acceptedCalls hist := by
      simp only [List.cons_append, List.nil_append, acceptedCalls_refused, acceptedCalls_entered]
    subst heq
    exact ⟨hinc_le, hcodes, hsame ▸ h.tids, hsame ▸ h.made, hsame ▸ h.order, hidle hnone⟩
  | refuses r hreq hnone hinc =>
    have hsame : acceptedCalls ([.refused submitGenericError] ++ hist) = acceptedCalls hist := acceptedCalls_refused _ hist
    refine ⟨hinc_le, hcodes, hsame ▸ h.tids, ?_, hsame ▸ h.order, hidle hnone⟩
    rw [hsame, hinc]
    exact h.made
  | accepts r hreq hnone hinc =>
    obtain ⟨-, hless, id, hist', rfl, hid, htid'⟩ := h.pending r hreq
    have hsmall : s.inc.toNat < 2 ^ 56 := by
      have hold := h.inc_le
      rw [submissions_append] at hfew
      omega
    rw [acceptedCalls_entered] at hless
    have htids := h.tids
    have hmade := h.made
    have horder := h.order
    rw [acceptedCalls_entered] at htids hmade horder
    have hserial := AcceptedCall.serial_eq id hsmall
    rw [htid', toInt_tid hid hsmall] at hinc_le hcodes ⊢
    refine ⟨hinc_le, hcodes, congrArg _ htids, ?_, ?_, hidle hnone⟩
    · rw [hinc]
      intro call hcall
      rcases List.mem_cons.mp hcall with rfl | hcall
      · exact ⟨⟨hid, by rw [hserial]⟩, Nat.le_of_eq hserial⟩
      · exact hmade call hcall
    · refine List.Pairwise.cons (fun call hcall => ?_) horder
      rw [hserial]
      exact hless call hcall

/-! ### Whole runs -/

/-- The states of the process with the history of the calls, in every run. -/
abbrev ReachableCalls (cfg : Config Stage Worker) : State Stage Worker × List SubmitEvent → Prop :=
  Reach (withHistory (step cfg) (submitEvents cfg)) (fun _ _ _ => True) (State.init, [])

theorem callInv {cfg : Config Stage Worker} {x : State Stage Worker × List SubmitEvent} (h : ReachableCalls cfg x)
    (hfew : submissions x.2 < 2 ^ 56) : CallInv x.1 x.2 := by
  refine h.invariant (I := fun x => submissions x.2 < 2 ^ 56 → CallInv x.1 x.2) (fun _ => callInv_init) ?_ hfew
  intro x a x' hI _ hx hfew
  obtain ⟨hs, hhist⟩ := withHistory_eq_some hx
  rw [hhist] at hfew ⊢
  refine callInv_step (hI ?_) hs hfew
  rw [submissions_append] at hfew
  omega

/-- **Transaction ids.** In every run with fewer than `2 ^ 56` calls of `submit_request`: the calls that return a
transaction id are those of `acceptedCalls`, and the others return one of the two error codes; the ids are not negative;
a shift by 56 bits gives back the pipeline id; any two of them differ, and those for one pipeline increase. -/
theorem transaction_ids (cfg : Config Stage Worker) {s : State Stage Worker} {hist : List SubmitEvent}
    (h : ReachableCalls cfg (s, hist)) (hfew : submissions hist < 2 ^ 56) :
    hist.filterMap SubmitEvent.tid = (acceptedCalls hist).map AcceptedCall.value ∧
    (∀ code, .refused code ∈ hist → code = submitGenericError ∨ code = submitQueueFull) ∧
    (∀ call ∈ acceptedCalls hist, 0 ≤ call.value ∧ call.value >>> (56 : Nat) = call.pipelineId.toNat) ∧
    (acceptedCalls hist).Pairwise fun newer older =>
      newer.value ≠ older.value ∧ (newer.pipelineId = older.pipelineId → older.value < newer.value) := by
  have hI := callInv h hfew
  have hsmall : ∀ call ∈ acceptedCalls hist, call.serial < 2 ^ 56 := fun call _ => Nat.mod_lt _ (Nat.two_pow_pos 56)
  refine ⟨hI.tids, hI.codes, fun call hcall => ?_, ?_⟩
  · have hvalue := (hI.made call hcall).1.2
    rw [hvalue]
    refine ⟨Int.natCast_nonneg _, ?_⟩
    rw [← Int.natCast_shiftRight, tagged_shiftRight (hsmall call hcall)]
  · refine List.Pairwise.imp_of_mem (fun {newer older} hnewer holder hlt => ?_) hI.order
    rw [(hI.made newer hnewer).1.2, (hI.made older holder).1.2]
    constructor
    · exact fun heq => tagged_ne_tagged (hsmall newer hnewer) (hsmall older holder) (Nat.ne_of_gt hlt) (Int.ofNat.inj heq)
    · intro hsame
      rw [hsame]
      exact Int.ofNat_lt.mpr (tagged_lt_tagged_iff.mpr hlt)

/-- Two requests get their ids, and between them a call for a pipeline that does not exist is refused. -/
theorem transaction_ids_run :
    ∃ s hist, ReachableCalls (oneStage 8 0) (s, hist) ∧ submissions hist = 3 ∧ acceptedCalls hist = [⟨0, 2⟩, ⟨0, 1⟩] ∧
      ∀ call ∈ acceptedCalls hist, 0 ≤ call.value ∧ call.value >>> (56 : Nat) = call.pipelineId.toNat := by
  obtain ⟨⟨s, hist⟩, hs, hcount, hcalls⟩ :=
    exists_reach (withHistory (step (oneStage 8 0)) (submitEvents (oneStage 8 0))) (fun _ _ _ => True) (State.init, [])
      ([.main .accept, .main (.readable 0)] ++ submitSteps 0 0 ++
        [.main (.refuse { submitZero 0 with pipelineId := 16 } submitGenericError)] ++ submitSteps 1 0)
      (P := fun x => submissions x.2 = 3 ∧ acceptedCalls x.2 = [⟨0, 2⟩, ⟨0, 1⟩]) (by decide +kernel)
  refine ⟨s, hist, hs, hcount, hcalls, (transaction_ids (oneStage 8 0) hs ?_).2.2.1⟩
  rw [show submissions hist = 3 from hcount]
  decide

end Csf
