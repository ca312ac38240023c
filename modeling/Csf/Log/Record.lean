import Csf.Log.Model
import Csf.Log.Rotation

/-!
# The records of the log

`write_log` prints the header into `msg` and then the message behind it, both with the size of the whole array. The place
of the message is the length that the header would have without being cut. So the message is written behind the end of
the array if both together are too long, and a header that is cut hides it. The newline replaces the NUL, unless the
string fills the array up to its last byte.
-/

namespace Csf

open Lib

section Text

variable {header message : List Char}

def recordText (header message : List Char) : List Char :=
  if header.length < maxMsgLen then header ++ message.take (maxMsgLen - 1) else header.take (maxMsgLen - 1)

theorem textAt_snprintf (off n : Nat) (text : List Char) (msg : Nat → Char) :
    TextAt nul (snprintf off n text msg) off (text.take (n - 1)) := textAt_store msg off _

theorem snprintf_of_lt {off i : Nat} (h : i < off) (n : Nat) (text : List Char) (msg : Nat → Char) :
    snprintf off n text msg i = msg i := store_of_lt h _

theorem textAt_recordText (header message : List Char) (msg : Nat → Char) :
    TextAt nul (snprintf header.length maxMsgLen message (snprintf 0 maxMsgLen header msg)) 0
      (recordText header message) := by
  have hheader := textAt_snprintf 0 maxMsgLen header msg
  rw [recordText]
  split_ifs with hfits
  · -- the message takes the place of the NUL behind the header
    rw [List.take_of_length_le (Nat.le_sub_one_of_lt hfits)] at hheader
    refine textAt_append.mpr ⟨fun i hi => ?_, ?_⟩
    · rw [Nat.zero_add, snprintf_of_lt hi]
      have hget := textAt_iff.mp hheader i (Nat.le_of_lt hi)
      rw [Nat.zero_add] at hget
      exact hget
    · rw [Nat.zero_add]
      exact textAt_snprintf header.length maxMsgLen message _
  · -- the message stands behind the NUL of the header
    refine hheader.congr fun i _ hi => snprintf_of_lt ?_ _ _ _
    rw [List.length_take, maxMsgLen] at hi
    rw [maxMsgLen] at hfits
    omega

theorem length_recordText (header message : List Char) :
    (recordText header message).length =
      if header.length < maxMsgLen then header.length + min (maxMsgLen - 1) message.length else maxMsgLen - 1 := by
  rw [recordText]
  split_ifs with hfits
  · rw [List.length_append, List.length_take]
  · rw [List.length_take]
    omega

theorem nul_notMem_recordText (hheader : nul ∉ header) (hmessage : nul ∉ message) : nul ∉ recordText header message := by
  rw [recordText]
  split_ifs
  · rw [List.mem_append, not_or]
    exact ⟨hheader, fun h => hmessage (List.mem_of_mem_take h)⟩
  · exact fun h => hheader (List.mem_of_mem_take h)

theorem forall_mem_range'_le {off k n : Nat} : (∀ i ∈ List.range' off (k + 1), i ≤ n) ↔ off + k ≤ n := by
  constructor
  · exact fun h => h _ (List.mem_range'_1.mpr ⟨Nat.le_add_right _ _, Nat.lt_succ_self _⟩)
  · intro h i hi
    exact Nat.le_trans (Nat.le_of_lt_succ (List.mem_range'_1.mp hi).2) h

theorem recordText_length_pos (hne : header ≠ []) : 0 < (recordText header message).length := by
  have hhead := List.length_pos_iff.mpr hne
  rw [length_recordText, maxMsgLen]
  split_ifs
  all_goals omega

theorem lengthFrom_record (hheader : nul ∉ header) (hmessage : nul ∉ message) (msg : Nat → Char) :
    lengthFrom nul (snprintf header.length maxMsgLen message (snprintf 0 maxMsgLen header msg))
      (header.length + maxMsgLen) 0 = (recordText header message).length := by
  have hlimit : (recordText header message).length < header.length + maxMsgLen := by
    rw [length_recordText, maxMsgLen]
    split_ifs
    all_goals omega
  have hlen := lengthFrom_eq (textAt_recordText header message msg) (nul_notMem_recordText hheader hmessage) hlimit
  rw [Nat.zero_add] at hlen
  exact hlen

theorem bytes_writeRecord (hheader : nul ∉ header) (hmessage : nul ∉ message) (hne : header ≠ []) (msg : Nat → Char) :
    (writeRecord header message msg).bytes =
      recordText header message ++ [if (recordText header message).length < maxMsgLen then newline else nul] := by
  have htext := textAt_recordText header message msg
  rw [writeRecord]
  dsimp only
  rw [lengthFrom_record hheader hmessage]
  by_cases hend : (recordText header message).length < maxMsgLen
  · have hbytes := htext.map_range'_store newline
    rw [Nat.zero_add] at hbytes
    rw [if_pos ⟨recordText_length_pos hne, hend⟩, if_pos hend]
    exact hbytes
  · rw [if_neg (fun h => hend h.2), if_neg hend]
    exact htext.map_range'_succ

theorem accesses_writeRecord (hheader : nul ∉ header) (hmessage : nul ∉ message) (msg : Nat → Char) :
    (∀ i ∈ (writeRecord header message msg).accesses, i ≤ maxMsgLen) ↔
      header.length + min message.length (maxMsgLen - 1) ≤ maxMsgLen := by
  rw [writeRecord]
  dsimp only
  rw [lengthFrom_record hheader hmessage, List.forall_mem_append, List.forall_mem_append, List.forall_mem_append,
    List.forall_mem_append, snprintfWrites, snprintfWrites, forall_mem_range'_le, forall_mem_range'_le,
    forall_mem_range'_le, Nat.zero_add, Nat.zero_add]
  constructor
  · exact fun h => h.1.1.1.2
  · intro h
    have hlast : (recordText header message).length ≤ maxMsgLen := by
      rw [maxMsgLen] at h
      rw [length_recordText, maxMsgLen]
      split_ifs
      all_goals omega
    refine ⟨⟨⟨⟨?_, h⟩, hlast⟩, fun i hi => ?_⟩, hlast⟩
    · rw [maxMsgLen]
      omega
    · split_ifs at hi
      · rw [List.mem_singleton.mp hi]
        exact hlast
      · exact absurd hi List.not_mem_nil

end Text

/-! ### Framing and bounds -/

theorem recordHeader_ne_nil (ascTime hostName logIdent : CString) (pid : UInt32) :
    recordHeader ascTime hostName logIdent pid ≠ [] := by
  rw [recordHeader]
  exact List.append_ne_nil_of_right_ne_nil _ (List.cons_ne_nil _ _)

theorem nul_notMem_recordHeader (ascTime hostName logIdent : CString) (pid : UInt32) :
    nul ∉ recordHeader ascTime hostName logIdent pid := by
  have hdigits : nul ∉ Nat.toDigits 10 pid.toNat := by
    intro h
    exact absurd (Nat.isDigit_of_mem_toDigits (by decide) (by decide) h) (by decide)
  have hblank : nul ≠ ' ' := by decide
  have hbracket : nul ≠ '[' := by decide
  have hrest : nul ∉ [']', ':', ' '] := by decide
  rw [recordHeader]
  simp only [List.mem_append, List.mem_cons (a := nul) (b := ' '), List.mem_cons (a := nul) (b := '['), not_or]
  exact ⟨⟨⟨⟨ascTime.2, hblank, hostName.2⟩, hblank, logIdent.2⟩, hbracket, hdigits⟩, hrest⟩

/-- All accesses are to the array, and header and message are appended, cut to what fits, with a newline and without
NUL. -/
structure WellFramed (header message : List Char) (record : LogRecord) : Prop where
  bounds : ∀ i ∈ record.accesses, i ≤ maxMsgLen
  bytes : ∃ n, maxMsgLen - 1 ≤ n ∧ n ≤ maxMsgLen ∧ record.bytes = (header ++ message).take n ++ [newline]
  noNul : nul ∉ record.bytes

section Framed

variable {header message : List Char}

theorem wellFramed_iff (hheader : nul ∉ header) (hmessage : nul ∉ message) (hne : header ≠ []) (msg : Nat → Char) :
    WellFramed header message (writeRecord header message msg) ↔
      header.length + message.length < maxMsgLen ∨ header.length = maxMsgLen ∧ message = [] := by
  have hbytes := bytes_writeRecord hheader hmessage hne msg
  have haccesses := accesses_writeRecord hheader hmessage msg
  have hlength := length_recordText header message
  have hpos := List.length_pos_iff.mpr hne
  constructor
  · rintro ⟨hbounds, -, hnul⟩
    rw [haccesses] at hbounds
    have hend : (recordText header message).length < maxMsgLen := by
      by_contra hfull
      rw [hbytes, if_neg hfull] at hnul
      exact hnul (List.mem_append_right _ (List.mem_singleton_self nul))
    rw [hlength] at hend
    rw [← List.length_eq_zero_iff]
    rw [maxMsgLen] at hbounds hend ⊢
    split_ifs at hend
    all_goals omega
  · intro h
    -- the two cases differ in what is cut
    have htext : (recordText header message).length < maxMsgLen ∧
        recordText header message = (header ++ message).take (maxMsgLen - 1) := by
      rcases h with hshort | ⟨hfull, rfl⟩
      · have hfits : header.length < maxMsgLen := Nat.lt_of_le_of_lt (Nat.le_add_right _ _) hshort
        have heq : recordText header message = header ++ message := by
          rw [recordText, if_pos hfits, List.take_of_length_le (Nat.le_sub_one_of_lt (by omega))]
        rw [heq, List.length_append, List.take_of_length_le]
        · exact ⟨hshort, rfl⟩
        · rw [List.length_append]
          exact Nat.le_sub_one_of_lt hshort
      · rw [recordText, if_neg (Nat.not_lt_of_le (Nat.le_of_eq hfull.symm)), List.append_nil, List.length_take, hfull]
        exact ⟨by decide, rfl⟩
    rw [if_pos htext.1] at hbytes
    refine ⟨haccesses.mpr ?_, ⟨maxMsgLen - 1, Nat.le_refl _, Nat.sub_le _ _, ?_⟩, ?_⟩
    · rw [maxMsgLen] at h ⊢
      rcases h with hshort | ⟨hfull, rfl⟩
      · omega
      · rw [hfull]
        decide
    · rw [hbytes, htext.2]
    · rw [hbytes, List.mem_append, not_or]
      exact ⟨nul_notMem_recordText hheader hmessage, by decide⟩

end Framed

theorem header_createLogfile (env : LogEnv) (zone : Timezone) (now : Nat) (lh : LogHandle) :
    (createLogfile env zone now lh).1.header env = lh.header env := by
  rw [createLogfile]
  dsimp only
  split_ifs
  · rfl
  · rfl

theorem header_checkTimepoint (env : LogEnv) (zone : Timezone) (now : Nat) (lh : LogHandle) :
    (checkTimepoint env zone now lh).header env = lh.header env := by
  rw [checkTimepoint]
  split
  all_goals
    split_ifs
    · exact header_createLogfile env zone now lh
    · rfl

section Appended

variable {env : LogEnv} {call : LogCall} {lh : LogHandle} {lh' : Option LogHandle} {file : LogFile} {record : LogRecord}

theorem eq_writeRecord (h : writeLog env call (some lh) = (lh', .append file record)) :
    record = writeRecord (lh.header env call.zone call.now) call.message.1 call.msg := by
  rw [writeLog] at h
  split at h
  · exact absurd (Prod.mk.inj h).2 LogEffect.noConfusion
  · dsimp only at h
    split at h
    · exact absurd (Prod.mk.inj h).2 LogEffect.noConfusion
    · obtain ⟨-, hrecord⟩ := LogEffect.append.inj (Prod.mk.inj h).2
      rw [header_checkTimepoint] at hrecord
      exact hrecord.symm

theorem header_ne_nil (env : LogEnv) (lh : LogHandle) (zone : Timezone) (now : Nat) : lh.header env zone now ≠ [] :=
  recordHeader_ne_nil _ _ _ _

theorem nul_notMem_header (env : LogEnv) (lh : LogHandle) (zone : Timezone) (now : Nat) :
    nul ∉ lh.header env zone now :=
  nul_notMem_recordHeader _ _ _ _

theorem bytes_of_full (h : writeLog env call (some lh) = (lh', .append file record))
    (hfull : (lh.header env call.zone call.now).length + call.message.1.length = maxMsgLen)
    (hmessage : call.message.1 ≠ []) :
    record.bytes = lh.header env call.zone call.now ++ call.message.1 ++ [nul] := by
  have hpos := List.length_pos_iff.mpr (header_ne_nil env lh call.zone call.now)
  have hpos' := List.length_pos_iff.mpr hmessage
  have htext : recordText (lh.header env call.zone call.now) call.message.1 =
      lh.header env call.zone call.now ++ call.message.1 := by
    rw [recordText, if_pos (by omega), List.take_of_length_le (Nat.le_sub_one_of_lt (by omega))]
  rw [eq_writeRecord h, bytes_writeRecord (nul_notMem_header env lh call.zone call.now) call.message.2
    (header_ne_nil env lh call.zone call.now) call.msg, htext, if_neg]
  rw [List.length_append, hfull]
  exact Nat.lt_irrefl _

theorem exists_access_of_long (h : writeLog env call (some lh) = (lh', .append file record))
    (hlong : maxMsgLen < (lh.header env call.zone call.now).length + min call.message.1.length (maxMsgLen - 1)) :
    ∃ i ∈ record.accesses, maxMsgLen < i := by
  have haccesses := accesses_writeRecord (nul_notMem_header env lh call.zone call.now) call.message.2 call.msg
  by_contra hnone
  rw [not_exists] at hnone
  rw [← eq_writeRecord h] at haccesses
  exact Nat.not_le_of_lt hlong (haccesses.mp fun i hi => Nat.le_of_not_lt fun hlt => hnone i ⟨hi, hlt⟩)

end Appended

/-- In the branch for the files of the logger, the accesses stay in the array and the record is framed exactly if header
and message have fewer than `MAX_MSG_LEN` characters together, or the header has just as many and the message is empty. -/
theorem record_framed_iff {env : LogEnv} {call : LogCall} {lh : LogHandle} {lh' : Option LogHandle} {file : LogFile}
    {record : LogRecord} (h : writeLog env call (some lh) = (lh', .append file record)) :
    WellFramed (lh.header env call.zone call.now) call.message.1 record ↔
      (lh.header env call.zone call.now).length + call.message.1.length < maxMsgLen ∨
        (lh.header env call.zone call.now).length = maxMsgLen ∧ call.message.1 = [] := by
  rw [eq_writeRecord h]
  exact wellFramed_iff (nul_notMem_header env lh call.zone call.now) call.message.2
    (header_ne_nil env lh call.zone call.now) call.msg

/-- The record of the message `x` at half past ten. -/
theorem record_framed_run :
    ∃ lh lh' file record, hourlyLogger = some lh ∧
      writeLog january1970 (callAt 37800) (some lh) = (lh', .append file record) ∧
      WellFramed (lh.header january1970 .utc 37800) ['x'] record := by
  have hcall : writeLog january1970 (callAt 37800) (some (hourlyLogger.get rfl)) = (_, .append _ _) := rfl
  exact ⟨_, _, _, _, rfl, hcall, (record_framed_iff hcall).mpr (Or.inl (by decide))⟩

def callWith (n : Nat) : LogCall :=
  ⟨37800, .utc, 6, ⟨List.replicate n 'x', fun h => absurd (List.eq_of_mem_replicate h) (by decide)⟩, fun _ => nul⟩

/-- With a header of 38 characters, a message of 474 leaves no room for the newline, and the NUL goes to the file. One
more character, and the NUL is written behind the end of the array. -/
theorem record_not_framed :
    ∃ lh lh' file record record', hourlyLogger = some lh ∧
      writeLog january1970 (callWith 474) (some lh) = (lh', .append file record) ∧
      record.bytes = lh.header january1970 .utc 37800 ++ List.replicate 474 'x' ++ [nul] ∧
      writeLog january1970 (callWith 475) (some lh) = (lh', .append file record') ∧
      ∃ i ∈ record'.accesses, maxMsgLen < i := by
  have hcall : writeLog january1970 (callWith 474) (some (hourlyLogger.get rfl)) = (_, .append _ _) := rfl
  have hcall' : writeLog january1970 (callWith 475) (some (hourlyLogger.get rfl)) = (_, .append _ _) := rfl
  have hheader : ((hourlyLogger.get rfl).header january1970 .utc 37800).length = 38 := by decide
  have hmessage (n : Nat) : (callWith n).message.1.length = n := List.length_replicate
  refine ⟨hourlyLogger.get rfl, _, _, _, _, rfl, hcall, bytes_of_full hcall ?_ ?_, hcall',
    exists_access_of_long hcall' ?_⟩
  · rw [hmessage]
    exact congrArg (· + 474) hheader
  · exact List.cons_ne_nil _ _
  · rw [hmessage]
    exact Nat.lt_of_lt_of_eq (by decide) (congrArg (· + min 475 511) hheader).symm

end Csf
