import Csf.Ini.Agree
import Csf.Lib.Strings

/-!
# What `iniparser_load_mem` reads and what it accepts

`getnstr` ends a line at a carriage return, a newline or a NUL, and `loadMemRun` is the loop of the loader with its calls
of `getnstr`. A line that does not fit into the buffer ends the loop. The end of the text is only looked for after a
call, and the NUL behind a last line without newline counts as a byte of that line, so the next call starts behind it.

The loader returns what it has when the loop ends. The count of errors is set again by every section and every value, so
only the last line that is not blank and no comment decides (`errs_foldl`).
-/

namespace Csf

open Lib

/-! ### The calls of `getnstr` -/

/-- The offsets that `getnstr` reads, at offset `s` with a buffer of `n` bytes. -/
def getnstrReads (mem : Nat → Char) : (n : Nat) → (s : Nat) → List Nat
  | 0, _ => []
  | n + 1, s =>
    if mem s = carriageReturn ∨ mem s = newline ∨ mem s = nul then
      if mem s = carriageReturn then
        -- the byte behind a carriage return is compared, and copied if it is a newline
        if mem (s + 1) = newline ∧ n + 1 ≠ 1 then [s, s + 1, s + 1] else [s, s + 1]
      else [s]
    else s :: getnstrReads mem n (s + 1)

/-- What the loop of `iniparser_load_mem` does: its calls of `getnstr` with offset and size, the last value of `tpos`, and
what the loader returns. -/
structure LoadRun where
  calls : List (Nat × Nat)
  tpos : Nat
  result : Option Dictionary
  deriving DecidableEq

def LoadRun.call (run : LoadRun) (s n : Nat) : LoadRun := { run with calls := (s, n) :: run.calls }

/-- The loop of `iniparser_load_mem`, as `iniparserLoadMemLoop` has it. -/
def loadMemRun (mem : Nat → Char) (inilen tpos : Nat) (pre : List Char) (st : IniState) : LoadRun :=
  match getnstr mem tpos (asciiLineSz - pre.length) with
  | (rpos, buf) =>
    if _hpos : rpos ≠ 0 ∧ tpos < inilen then
      match endLine (cstr (pre ++ buf)) ((cstr (pre ++ buf)).length + 1) with
      | .continued pre' => (loadMemRun mem inilen (tpos + rpos) pre' st).call tpos (asciiLineSz - pre.length)
      | .complete line => (loadMemRun mem inilen (tpos + rpos) [] (st.line line)).call tpos (asciiLineSz - pre.length)
    else ⟨[(tpos, asciiLineSz - pre.length)], tpos, st.result⟩
  termination_by inilen - tpos
  decreasing_by
    · exact offset_advances _hpos
    · exact offset_advances _hpos

def LoadRun.reads (mem : Nat → Char) (run : LoadRun) : List Nat :=
  run.calls.flatMap fun call => getnstrReads mem call.2 call.1

theorem loadMemRun_result (mem : Nat → Char) (inilen tpos : Nat) (pre : List Char) (st : IniState) :
    (loadMemRun mem inilen tpos pre st).result = iniparserLoadMemLoop mem inilen tpos pre st := by
  induction hk : inilen - tpos using Nat.strong_induction_on generalizing tpos pre st with
  | _ k ih =>
    rw [loadMemRun, iniparserLoadMemLoop]
    dsimp only
    by_cases hpos : (getnstr mem tpos (asciiLineSz - pre.length)).1 ≠ 0 ∧ tpos < inilen
    · have hless := offset_advances hpos
      rw [dif_pos hpos, dif_pos hpos]
      generalize endLine _ _ = ended
      cases ended with
      | continued pre' => exact ih _ (hk ▸ hless) _ pre' st rfl
      | complete line => exact ih _ (hk ▸ hless) _ [] (st.line line) rfl
    · rw [dif_neg hpos, dif_neg hpos]

/-! ### Lines of a text in memory -/

def isTerminator (c : Char) : Bool := c == carriageReturn || c == newline || c == nul

theorem isTerminator_iff {c : Char} : isTerminator c = true ↔ c = carriageReturn ∨ c = newline ∨ c = nul := by
  simp [isTerminator, or_assoc]

/-- The pieces between the terminators, one more than there are terminators. -/
def textLines (text : List Char) : List (List Char) := text.splitOnP isTerminator

theorem textAt_inMemory (text : List Char) : TextAt nul (inMemory text) 0 text := textAt_getD text

theorem exists_line (text : List Char) :
    ∃ line rest, text = line ++ rest ∧ (∀ c ∈ line, isTerminator c = false) ∧
      (rest = [] ∨ ∃ c rest', rest = c :: rest' ∧ isTerminator c = true) := by
  refine ⟨text.takeWhile (!isTerminator ·), text.dropWhile (!isTerminator ·), List.takeWhile_append_dropWhile.symm,
    fun c hc => ?_, ?_⟩
  · have hnot := List.mem_takeWhile_imp hc
    exact Bool.not_eq_true' _ ▸ hnot
  · cases hrest : text.dropWhile (!isTerminator ·) with
    | nil => exact Or.inl rfl
    | cons c rest' =>
      refine Or.inr ⟨c, rest', rfl, ?_⟩
      have hhead := List.head_dropWhile_not (!isTerminator ·) (l := text) (by rw [hrest]; exact List.cons_ne_nil _ _)
      simp only [hrest, List.head_cons, Bool.not_eq_false'] at hhead
      exact hhead

theorem textLines_terminator {c : Char} (hc : isTerminator c = true) (text : List Char) :
    textLines (c :: text) = [] :: textLines text := by
  rw [textLines, List.splitOnP_cons_eq_if_modifyHead, if_pos hc]
  rfl

theorem textLines_last {line : List Char} (hline : ∀ c ∈ line, isTerminator c = false) : textLines line = [line] :=
  List.splitOnP_eq_singleton hline

theorem textLines_line {line : List Char} (hline : ∀ c ∈ line, isTerminator c = false) {c : Char}
    (hc : isTerminator c = true) (rest : List Char) : textLines (line ++ c :: rest) = line :: textLines rest :=
  List.splitOnP_append_cons_of_forall_mem hline c hc rest

theorem textLines_ne_nil (text : List Char) : textLines text ≠ [] := List.splitOnP_ne_nil _ _

/-! ### `getnstr` on a line -/

section Getnstr

variable {mem : Nat → Char} {line : List Char}

theorem getnstr_short (hline : ∀ c ∈ line, isTerminator c = false) {s n : Nat}
    (hmem : ∀ i < line.length, mem (s + i) = line.getD i nul) (hn : line.length ≤ n) :
    getnstr mem s n = getnstrLoop mem (n - line.length) (s + line.length) line := by
  have hplain : ∀ c ∈ line, ¬ (c = carriageReturn ∨ c = newline ∨ c = nul) := by
    intro c hc hterm
    rw [← isTerminator_iff, hline c hc] at hterm
    exact Bool.false_ne_true hterm
  rw [getnstr, getnstrLoop_skip hplain hn hmem, List.nil_append]

theorem getnstr_long (hline : ∀ c ∈ line, isTerminator c = false) {s n : Nat}
    (hmem : ∀ i < line.length, mem (s + i) = line.getD i nul) (hn : n ≤ line.length) :
    (getnstr mem s n).1 = 0 := by
  have htake : (line.take n).length = n := by rw [List.length_take, Nat.min_eq_left hn]
  have hmem' : ∀ i < (line.take n).length, mem (s + i) = (line.take n).getD i nul := by
    intro i hi
    rw [htake] at hi
    rw [hmem i (Nat.lt_of_lt_of_le hi hn), List.getD_eq_getElem?_getD, List.getD_eq_getElem?_getD,
      List.getElem?_take_of_lt hi]
  rw [getnstr_short (fun c hc => hline c (List.mem_of_mem_take hc)) hmem' (Nat.le_of_eq htake), htake, Nat.sub_self]
  rfl

theorem getnstrLoop_end {k s : Nat} (hterm : isTerminator (mem s) = true) (d : List Char) :
    ∃ ends, getnstrLoop mem (k + 1) s d = (d.length + ends.length, d ++ ends) ∧
      (k = 0 ∧ ends = [] ∨ k ≠ 0 ∧ ends = [mem s] ∨
        k ≠ 0 ∧ mem s = carriageReturn ∧ mem (s + 1) = newline ∧ ends = [mem s, mem (s + 1)]) := by
  rw [getnstrLoop, if_pos (isTerminator_iff.mp hterm)]
  by_cases hk : k = 0
  · subst hk
    refine ⟨[], ?_, Or.inl ⟨rfl, rfl⟩⟩
    rw [if_neg (fun h => h.2.2 rfl), getnstrEnd, if_neg (fun h => h rfl), List.append_nil]
    rfl
  · by_cases hcrlf : mem s = carriageReturn ∧ mem (s + 1) = newline
    · rw [if_pos ⟨hcrlf.1, hcrlf.2, by omega⟩, getnstrEnd]
      by_cases hone : k - 1 ≠ 0
      · refine ⟨[mem s, mem (s + 1)], ?_, Or.inr (Or.inr ⟨hk, hcrlf.1, hcrlf.2, rfl⟩)⟩
        rw [if_pos hone, List.append_assoc, List.length_append]
        rfl
      · refine ⟨[mem s], ?_, Or.inr (Or.inl ⟨hk, rfl⟩)⟩
        rw [if_neg hone, List.length_append]
    · refine ⟨[mem s], ?_, Or.inr (Or.inl ⟨hk, rfl⟩)⟩
      rw [if_neg (fun h => hcrlf ⟨h.1, h.2.1⟩), getnstrEnd, if_pos (by omega)]
      rfl

theorem IniState.line_ends (hline : ∀ c ∈ line, isTerminator c = false) {ends : List Char}
    (hends : ∀ c ∈ ends, isTerminator c = true) (st : IniState) : st.line (cstr (line ++ ends)) = st.line line := by
  have hcstr : cstr (line ++ ends) = line ++ cstr ends := by
    refine List.takeWhile_append_of_pos fun c hc => ?_
    rw [bne_iff_ne]
    rintro rfl
    exact absurd (hline nul hc) (by decide)
  have hblanks : ∀ c ∈ cstr ends, isspace c = true := by
    intro c hc
    have hne := List.mem_takeWhile_imp (p := (· != nul)) hc
    have hmem : c ∈ ends := (List.takeWhile_sublist _).subset hc
    rcases isTerminator_iff.mp (hends c hmem) with rfl | rfl | rfl
    · decide
    · decide
    · exact absurd hne (by decide)
  rw [hcstr, IniState.line, IniState.line, iniparserLine_congr (strstrip_append_blanks hblanks line)]

theorem getnstrReads_self {n s : Nat} (hn : n ≠ 0) : s ∈ getnstrReads mem n s := by
  obtain ⟨n, rfl⟩ := Nat.exists_eq_succ_of_ne_zero hn
  rw [getnstrReads]
  split_ifs
  all_goals exact List.mem_cons_self

theorem getnstrReads_le {n s e : Nat} (hnul : mem e = nul) (hs : s ≤ e) : ∀ r ∈ getnstrReads mem n s, r ≤ e := by
  induction n generalizing s with
  | zero => exact fun r hr => absurd hr List.not_mem_nil
  | succ n ih =>
    intro r hr
    have hlt : mem s ≠ nul → s + 1 ≤ e := by
      intro hne
      rcases Nat.lt_or_eq_of_le hs with hlt | rfl
      · exact hlt
      · exact absurd hnul hne
    rw [getnstrReads] at hr
    split_ifs at hr with hterm hcr hlf
    · have hnext := hlt (by rw [hcr]; decide)
      simp only [List.mem_cons, List.not_mem_nil, or_false] at hr
      omega
    · have hnext := hlt (by rw [hcr]; decide)
      simp only [List.mem_cons, List.not_mem_nil, or_false] at hr
      omega
    · rw [List.mem_singleton] at hr
      omega
    · rcases List.mem_cons.mp hr with rfl | hr
      · exact hs
      · exact ih (hlt fun h => hterm (Or.inr (Or.inr h))) r hr

end Getnstr

/-! ### A run on a text -/

section Run

variable {mem : Nat → Char} {inilen tpos : Nat} {st : IniState}

theorem loadMemRun_stop (h : (getnstr mem tpos asciiLineSz).1 = 0 ∨ inilen ≤ tpos) :
    loadMemRun mem inilen tpos [] st = ⟨[(tpos, asciiLineSz)], tpos, st.result⟩ := by
  rw [loadMemRun]
  dsimp only
  rw [dif_neg]
  · rfl
  · rintro ⟨hpos, hlt⟩
    exact h.elim hpos (Nat.not_le_of_lt hlt)

theorem loadMemRun_line {line ends : List Char} (hline : ∀ c ∈ line, isTerminator c = false)
    (hends : ∀ c ∈ ends, isTerminator c = true)
    (hget : getnstr mem tpos asciiLineSz = (line.length + ends.length, line ++ ends))
    (hpos : line.length + ends.length ≠ 0) (hlt : tpos < inilen) :
    loadMemRun mem inilen tpos [] st =
      (loadMemRun mem inilen (tpos + (line.length + ends.length)) [] (st.line line)).call tpos asciiLineSz := by
  have hget' : getnstr mem tpos (asciiLineSz - ([] : List Char).length) =
      (line.length + ends.length, line ++ ends) := hget
  rw [loadMemRun, hget']
  dsimp only
  rw [dif_pos ⟨hpos, hlt⟩, List.nil_append, endLine_mem]
  dsimp only
  rw [st.line_ends hline hends]
  rfl

end Run

/-- The lines before the first one that does not fit into the buffer. -/
def fitting (lines : List (List Char)) : List (List Char) := lines.takeWhile fun line => line.length < asciiLineSz

/-- What a run on these lines comes to, from offset `s` on. -/
structure LoadSpec (inilen s : Nat) (lines : List (List Char)) (st : IniState) (run : LoadRun) : Prop where
  result : run.result = ((fitting lines).foldl IniState.line st).result
  complete : inilen ≤ run.tpos ↔ ∀ line ∈ lines, line.length < asciiLineSz
  inside : run.tpos ≤ inilen ↔ (∃ line ∈ lines, asciiLineSz ≤ line.length) ∨
    ∃ line, lines.getLast? = some line ∧ (line = [] ∨ line.length + 1 = asciiLineSz)
  start : s ≤ run.tpos
  last : (run.tpos, asciiLineSz) ∈ run.calls
  calls : ∀ call ∈ run.calls, call.1 ≤ run.tpos

theorem fitting_cons_of_short {line : List Char} (h : line.length < asciiLineSz) (lines : List (List Char)) :
    fitting (line :: lines) = line :: fitting lines := List.takeWhile_cons_of_pos (decide_eq_true h)

theorem getLast?_cons_of_ne_nil {α : Type} {a : α} {l : List α} (hl : l ≠ []) : (a :: l).getLast? = l.getLast? := by
  cases l with
  | nil => exact absurd rfl hl
  | cons b l => rfl

theorem IniState.line_nil (st : IniState) : st.line [] = st := rfl

section Spec

variable {inilen s : Nat} {line : List Char} {lines : List (List Char)} {st : IniState} {run : LoadRun}

theorem LoadSpec.cons {s' : Nat} (h : LoadSpec inilen s' lines (st.line line) run) (hlines : lines ≠ [])
    (hshort : line.length < asciiLineSz) (hs : s ≤ s') :
    LoadSpec inilen s (line :: lines) st (run.call s asciiLineSz) where
  result := by
    rw [fitting_cons_of_short hshort, List.foldl_cons]
    exact h.result
  complete := by
    rw [List.forall_mem_cons]
    exact h.complete.trans (and_iff_right hshort).symm
  inside := by
    have hlong : ¬ asciiLineSz ≤ line.length := Nat.not_le_of_lt hshort
    rw [List.exists_mem_cons_iff, or_iff_right hlong, getLast?_cons_of_ne_nil hlines]
    exact h.inside
  start := Nat.le_trans hs h.start
  last := List.mem_cons_of_mem _ h.last
  calls := by
    intro call hcall
    rcases List.mem_cons.mp hcall with rfl | hcall
    · exact Nat.le_trans hs h.start
    · exact h.calls call hcall

theorem loadSpec_nil_cons (hlines : lines ≠ []) :
    LoadSpec inilen s ([] :: lines) st run ↔ LoadSpec inilen s lines st run := by
  have hzero : ([] : List Char).length < asciiLineSz := by decide
  have hfold : (fitting ([] :: lines)).foldl IniState.line st = (fitting lines).foldl IniState.line st := by
    rw [fitting_cons_of_short hzero, List.foldl_cons, st.line_nil]
  have hall : (∀ line ∈ [] :: lines, line.length < asciiLineSz) ↔ ∀ line ∈ lines, line.length < asciiLineSz := by
    rw [List.forall_mem_cons]
    exact and_iff_right hzero
  have hex : (∃ line ∈ [] :: lines, asciiLineSz ≤ line.length) ↔ ∃ line ∈ lines, asciiLineSz ≤ line.length := by
    rw [List.exists_mem_cons_iff]
    exact or_iff_right (Nat.not_le_of_lt hzero)
  have hlast : ([] :: lines).getLast? = lines.getLast? := getLast?_cons_of_ne_nil hlines
  constructor
  · rintro ⟨hresult, hcomplete, hinside, hstart, hmem, hcalls⟩
    rw [hfold] at hresult
    rw [hall] at hcomplete
    rw [hex, hlast] at hinside
    exact ⟨hresult, hcomplete, hinside, hstart, hmem, hcalls⟩
  · rintro ⟨hresult, hcomplete, hinside, hstart, hmem, hcalls⟩
    rw [← hfold] at hresult
    rw [← hall] at hcomplete
    rw [← hex, ← hlast] at hinside
    exact ⟨hresult, hcomplete, hinside, hstart, hmem, hcalls⟩

theorem loadSpec_end : LoadSpec inilen inilen [[]] st ⟨[(inilen, asciiLineSz)], inilen, st.result⟩ where
  result := rfl
  complete := iff_of_true (Nat.le_refl _) (by decide)
  inside := iff_of_true (Nat.le_refl _) (Or.inr ⟨[], rfl, Or.inl rfl⟩)
  start := Nat.le_refl _
  last := List.mem_singleton_self _
  calls := by simp

theorem loadSpec_long (hlong : asciiLineSz ≤ line.length) (hs : s < inilen) :
    LoadSpec inilen s (line :: lines) st ⟨[(s, asciiLineSz)], s, st.result⟩ where
  result := by
    rw [fitting, List.takeWhile_cons_of_neg (by simpa using hlong)]
    rfl
  complete := iff_of_false (Nat.not_le_of_lt hs)
    fun hall => Nat.not_lt_of_le hlong (hall line List.mem_cons_self)
  inside := iff_of_true (Nat.le_of_lt hs) (Or.inl ⟨line, List.mem_cons_self, hlong⟩)
  start := Nat.le_refl _
  last := List.mem_singleton_self _
  calls := by simp

theorem loadSpec_last (hne : line ≠ []) (hshort : line.length < asciiLineSz) {e : Nat} (hs : s ≤ inilen)
    (hle : inilen ≤ e) (he : e ≤ inilen ↔ line.length + 1 = asciiLineSz) :
    LoadSpec inilen s [line] st ⟨[(s, asciiLineSz), (e, asciiLineSz)], e, (st.line line).result⟩ where
  result := by
    rw [fitting_cons_of_short hshort]
    rfl
  complete := by
    refine iff_of_true hle fun line' h => ?_
    rw [List.mem_singleton.mp h]
    exact hshort
  inside := by
    simp [he, hne, hshort]
  start := Nat.le_trans hs hle
  last := List.mem_cons_of_mem _ (List.mem_singleton_self _)
  calls := by
    intro call hcall
    simp only [List.mem_cons, List.not_mem_nil, or_false] at hcall
    rcases hcall with rfl | rfl
    · exact Nat.le_trans hs hle
    · exact Nat.le_refl _

end Spec


theorem exists_rest {mem : Nat → Char} {rest ends : List Char} {c : Char} {s k : Nat} (hc : isTerminator c = true)
    (hat : TextAt nul mem s (c :: rest))
    (hends : k = 0 ∧ ends = [] ∨ k ≠ 0 ∧ ends = [mem s] ∨
      k ≠ 0 ∧ mem s = carriageReturn ∧ mem (s + 1) = newline ∧ ends = [mem s, mem (s + 1)]) :
    (∀ c ∈ ends, isTerminator c = true) ∧ ∃ rest', TextAt nul mem (s + ends.length) rest' ∧
      ends.length + rest'.length = rest.length + 1 ∧
      ∀ inilen s st run, LoadSpec inilen s (textLines rest') st run → LoadSpec inilen s (textLines rest) st run := by
  obtain ⟨hs, hrest⟩ := hat
  rcases hends with ⟨-, rfl⟩ | ⟨-, rfl⟩ | ⟨-, -, hlf, rfl⟩
  · refine ⟨fun c hc => absurd hc List.not_mem_nil, c :: rest, ⟨hs, hrest⟩, Nat.zero_add _, ?_⟩
    intro inilen s st run h
    rw [textLines_terminator hc, loadSpec_nil_cons (textLines_ne_nil _)] at h
    exact h
  · refine ⟨fun c' hc' => ?_, rest, hrest, Nat.add_comm _ _, fun _ _ _ _ h => h⟩
    rw [List.mem_singleton.mp hc', hs]
    exact hc
  · cases rest with
    | nil => exact absurd (hlf.symm.trans hrest) (by decide)
    | cons c' rest =>
      obtain ⟨hs', hrest⟩ := hrest
      have hc' : isTerminator c' = true := by
        rw [← hs', hlf]
        decide
      refine ⟨?_, rest, hrest, ?_, ?_⟩
      · simp only [List.mem_cons, List.not_mem_nil, or_false, forall_eq_or_imp, forall_eq]
        rw [hs, hs']
        exact ⟨hc, hc'⟩
      · simp only [List.length_cons, List.length_nil]
        omega
      · intro inilen s st run h
        rw [textLines_terminator hc', loadSpec_nil_cons (textLines_ne_nil _)]
        exact h

section Text

variable {mem : Nat → Char} {inilen s : Nat} {line : List Char}

theorem loadMemRun_long (hline : ∀ c ∈ line, isTerminator c = false) {rest : List Char}
    (hat : TextAt nul mem s (line ++ rest)) (hrest : rest = [] ∨ ∃ c rest', rest = c :: rest' ∧ isTerminator c = true)
    (hlen : inilen = s + (line ++ rest).length) (hlong : asciiLineSz ≤ line.length) (st : IniState) :
    LoadSpec inilen s (textLines (line ++ rest)) st (loadMemRun mem inilen s [] st) := by
  have hpos : 0 < line.length := Nat.lt_of_lt_of_le (by decide) hlong
  have hlt : s < inilen := by
    rw [List.length_append] at hlen
    omega
  rw [loadMemRun_stop (Or.inl (getnstr_long hline (textAt_append.mp hat).1 hlong))]
  rcases hrest with rfl | ⟨c, rest, rfl, hc⟩
  · rw [List.append_nil, textLines_last hline]
    exact loadSpec_long hlong hlt
  · rw [textLines_line hline hc]
    exact loadSpec_long hlong hlt

theorem loadMemRun_last (hline : ∀ c ∈ line, isTerminator c = false) (hat : TextAt nul mem s line)
    (hlen : inilen = s + line.length) (hshort : line.length < asciiLineSz) (st : IniState) :
    LoadSpec inilen s (textLines line) st (loadMemRun mem inilen s [] st) := by
  have hnul := hat.end_eq
  rw [textLines_last hline]
  by_cases hne : line = []
  · subst hne
    obtain rfl : inilen = s := hlen
    rw [loadMemRun_stop (Or.inr (Nat.le_refl _))]
    exact loadSpec_end
  · have hpos := List.length_pos_iff.mpr hne
    obtain ⟨room, hroom⟩ := Nat.exists_eq_add_of_lt hshort
    rw [← List.append_nil line] at hat
    have hget := getnstr_short hline (textAt_append.mp hat).1 (Nat.le_of_lt hshort)
    rw [show asciiLineSz - line.length = room + 1 by omega] at hget
    have hterm : isTerminator (mem (s + line.length)) = true := by
      rw [hnul]
      decide
    obtain ⟨ends, hend, hcase⟩ := getnstrLoop_end (k := room) hterm line
    have hends : (∀ c ∈ ends, isTerminator c = true) ∧ (ends.length = 0 ↔ room = 0) := by
      rcases hcase with ⟨hzero, rfl⟩ | ⟨hroom', rfl⟩ | ⟨-, hcr, -, -⟩
      · exact ⟨fun c hc => absurd hc List.not_mem_nil, iff_of_true rfl hzero⟩
      · refine ⟨fun c hc => ?_, iff_of_false (Nat.succ_ne_zero _) hroom'⟩
        rw [List.mem_singleton.mp hc]
        exact hterm
      · exact absurd (hnul.symm.trans hcr) (by decide)
    rw [loadMemRun_line hline hends.1 (hget.trans hend) (by omega) (by omega), loadMemRun_stop (Or.inr (by omega))]
    exact loadSpec_last hne hshort (by omega) (by omega) (by omega)

theorem loadMemRun_cons (hline : ∀ c ∈ line, isTerminator c = false) {c : Char} (hc : isTerminator c = true)
    {rest : List Char} (hat : TextAt nul mem s (line ++ c :: rest)) (hlen : inilen = s + (line ++ c :: rest).length)
    (hshort : line.length < asciiLineSz) (st : IniState)
    (ih : ∀ s' rest', rest'.length < (line ++ c :: rest).length → TextAt nul mem s' rest' → inilen = s' + rest'.length →
      LoadSpec inilen s' (textLines rest') (st.line line) (loadMemRun mem inilen s' [] (st.line line))) :
    LoadSpec inilen s (textLines (line ++ c :: rest)) st (loadMemRun mem inilen s [] st) := by
  obtain ⟨hmem, hat'⟩ := textAt_append.mp hat
  obtain ⟨room, hroom⟩ := Nat.exists_eq_add_of_lt hshort
  have hget := getnstr_short hline hmem (Nat.le_of_lt hshort)
  rw [show asciiLineSz - line.length = room + 1 by omega] at hget
  have hterm : isTerminator (mem (s + line.length)) = true := by
    rw [hat'.1]
    exact hc
  obtain ⟨ends, hend, hcase⟩ := getnstrLoop_end (k := room) hterm line
  have hpos : line.length + ends.length ≠ 0 := by
    rcases hcase with ⟨hzero, rfl⟩ | ⟨-, rfl⟩ | ⟨-, -, -, rfl⟩
    · have hsize : asciiLineSz = 1024 := rfl
      omega
    · exact Nat.succ_ne_zero _
    · exact Nat.succ_ne_zero _
  obtain ⟨hends, rest', hat'', hlen', hsame⟩ := exists_rest hc hat' hcase
  rw [Nat.add_assoc] at hat''
  rw [List.length_append, List.length_cons] at hlen ih
  have hrun := hsame _ _ _ _ (ih _ rest' (by omega) hat'' (by omega))
  rw [textLines_line hline hc, loadMemRun_line hline hends (hget.trans hend) hpos (by omega)]
  exact hrun.cons (textLines_ne_nil _) hshort (Nat.le_add_right _ _)

end Text

/-- The loop on a text, by induction on its length: each line that fits leaves a shorter text. -/
theorem loadMemRun_spec {mem : Nat → Char} {inilen s : Nat} {text : List Char} (hat : TextAt nul mem s text)
    (hlen : inilen = s + text.length) (st : IniState) :
    LoadSpec inilen s (textLines text) st (loadMemRun mem inilen s [] st) := by
  induction hk : text.length using Nat.strong_induction_on generalizing s text st with
  | _ k ih =>
    obtain ⟨line, rest, rfl, hline, hrest⟩ := exists_line text
    rcases Nat.lt_or_ge line.length asciiLineSz with hshort | hlong
    · rcases hrest with rfl | ⟨c, rest, rfl, hc⟩
      · rw [List.append_nil] at hat hlen ⊢
        exact loadMemRun_last hline hat hlen hshort st
      · refine loadMemRun_cons hline hc hat hlen hshort st fun s' rest' hless hat' hlen' => ?_
        exact ih rest'.length (hk ▸ hless) hat' hlen' (st.line line) rfl
    · exact loadMemRun_long hline hat hrest hlen hlong st

def iniparserLoadMemRun (mem : Nat → Char) (inilen : Nat) : LoadRun := loadMemRun mem inilen 0 [] .initial

theorem iniparserLoadMemRun_result (mem : Nat → Char) (inilen : Nat) :
    (iniparserLoadMemRun mem inilen).result = iniparserLoadMem mem inilen := loadMemRun_result mem inilen 0 [] .initial

theorem iniparserLoadMemRun_spec {mem : Nat → Char} {text : List Char} (hat : TextAt nul mem 0 text) :
    LoadSpec text.length 0 (textLines text) .initial (iniparserLoadMemRun mem text.length) :=
  loadMemRun_spec hat (Nat.zero_add _).symm .initial

/-! ### The bytes that are read -/

theorem LoadSpec.reads_le_iff {mem : Nat → Char} {inilen s : Nat} {lines : List (List Char)} {st : IniState}
    {run : LoadRun} (h : LoadSpec inilen s lines st run) (hnul : mem inilen = nul) :
    (∀ offset ∈ run.reads mem, offset ≤ inilen) ↔ run.tpos ≤ inilen := by
  constructor
  · intro hreads
    exact hreads _ (List.mem_flatMap.mpr ⟨_, h.last, getnstrReads_self (Nat.succ_ne_zero 1023)⟩)
  · intro hle offset hoffset
    obtain ⟨call, hcall, hread⟩ := List.mem_flatMap.mp hoffset
    exact getnstrReads_le hnul (Nat.le_trans (h.calls call hcall) hle) offset hread

/-- The loader reads only the text and its NUL exactly if a line does not fit into the buffer, or the last one is empty
or just fills it. -/
theorem load_mem_reads_inside_iff {mem : Nat → Char} {text : List Char} (hat : TextAt nul mem 0 text) :
    (iniparserLoadMemRun mem text.length).result = iniparserLoadMem mem text.length ∧
      ((∀ offset ∈ (iniparserLoadMemRun mem text.length).reads mem, offset ≤ text.length) ↔
        (∃ line ∈ textLines text, asciiLineSz ≤ line.length) ∨
          ∃ line, (textLines text).getLast? = some line ∧ (line = [] ∨ line.length + 1 = asciiLineSz)) := by
  have hspec := iniparserLoadMemRun_spec hat
  have hnul : mem text.length = nul := by
    have hend := hat.end_eq
    rw [Nat.zero_add] at hend
    exact hend
  exact ⟨iniparserLoadMemRun_result mem text.length, (hspec.reads_le_iff hnul).trans hspec.inside⟩

theorem load_mem_reads_inside_run :
    (iniparserLoadMemRun (inMemory plainText) plainText.length).calls =
        [(0, asciiLineSz), (4, asciiLineSz), (8, asciiLineSz)] ∧
      ∀ offset ∈ (iniparserLoadMemRun (inMemory plainText) plainText.length).reads (inMemory plainText),
        offset ≤ plainText.length :=
  ⟨by decide +kernel,
    (load_mem_reads_inside_iff (textAt_inMemory plainText)).2.mpr (Or.inr ⟨[], by decide, Or.inl rfl⟩)⟩

/-- The text `a=1` without a newline: the second call starts behind its NUL. -/
theorem load_mem_reads_outside :
    (iniparserLoadMemRun (inMemory ['a', '=', '1']) 3).calls = [(0, asciiLineSz), (4, asciiLineSz)] ∧
      4 ∈ (iniparserLoadMemRun (inMemory ['a', '=', '1']) 3).reads (inMemory ['a', '=', '1']) := by
  decide +kernel

/-! ### The texts that are accepted -/

theorem iniparserLine_secname (line secname secname' : List Char) :
    iniparserLine line secname = iniparserLine line secname' ∨
      ∃ name name', iniparserLine line secname = .lineSection name ∧ iniparserLine line secname' = .lineSection name' := by
  simp only [iniparserLine]
  by_cases hsection : (strstrip line).head? = some '[' ∧ (strstrip line).getLast? = some ']'
  · simp only [if_pos hsection]
    split_ifs
    · exact Or.inl rfl
    · exact Or.inl rfl
    · exact Or.inr ⟨_, _, rfl, rfl⟩
  · simp only [if_neg hsection]
    exact Or.inl trivial

def Wrong (line : List Char) : Prop := iniparserLine line [] = .lineError

def Silent (line : List Char) : Prop := iniparserLine line [] = .lineEmpty ∨ iniparserLine line [] = .lineComment

instance : DecidablePred Wrong := fun line => decEq (iniparserLine line []) .lineError

instance : DecidablePred Silent := fun line =>
  inferInstanceAs (Decidable (iniparserLine line [] = .lineEmpty ∨ iniparserLine line [] = .lineComment))

theorem wrong_iff (line secname : List Char) : Wrong line ↔ iniparserLine line secname = .lineError := by
  rw [Wrong]
  rcases iniparserLine_secname line secname [] with h | ⟨name, name', h, h'⟩
  · rw [h]
  · rw [h, h']
    exact iff_of_false LineStatus.noConfusion LineStatus.noConfusion

theorem silent_iff (line secname : List Char) :
    Silent line ↔ iniparserLine line secname = .lineEmpty ∨ iniparserLine line secname = .lineComment := by
  rw [Silent]
  rcases iniparserLine_secname line secname [] with h | ⟨name, name', h, h'⟩
  · rw [h]
  · rw [h, h']
    exact iff_of_false (fun h => h.elim LineStatus.noConfusion LineStatus.noConfusion)
      fun h => h.elim LineStatus.noConfusion LineStatus.noConfusion

theorem IniState.line_of_silent {line : List Char} (h : Silent line) (st : IniState) : st.line line = st := by
  rw [IniState.line]
  rcases (silent_iff line st.secname).mp h with h | h
  · rw [h]
  · rw [h]

theorem IniState.errs_line {line : List Char} (h : ¬ Silent line) (st : IniState) :
    (st.line line).errs ≠ 0 ↔ Wrong line := by
  rw [silent_iff line st.secname, not_or] at h
  rw [wrong_iff line st.secname, IniState.line]
  cases hline : iniparserLine line st.secname with
  | lineEmpty => exact absurd hline h.1
  | lineComment => exact absurd hline h.2
  | lineSection secname => exact iff_of_false (fun h => h rfl) LineStatus.noConfusion
  | lineValue key value => exact iff_of_false (fun h => h rfl) LineStatus.noConfusion
  | lineError => exact iff_of_true (Nat.succ_ne_zero _) rfl

/-- The last line that counts is one with a syntax error. -/
def EndsWrong (lines : List (List Char)) : Prop :=
  ∃ line, (lines.filter fun line => ¬ Silent line).getLast? = some line ∧ Wrong line

instance : DecidablePred EndsWrong := fun lines =>
  decidable_of_iff (((lines.filter fun line => ¬ Silent line).getLast?.any fun line => Wrong line) = true) (by
    simp [EndsWrong, Option.any_eq_true])

theorem errs_foldl {st : IniState} (hst : st.errs = 0) (lines : List (List Char)) :
    (lines.foldl IniState.line st).errs ≠ 0 ↔ EndsWrong lines := by
  induction lines using List.reverseRecOn with
  | nil =>
    refine iff_of_false (fun h => h hst) ?_
    rintro ⟨line, hlast, -⟩
    exact absurd hlast (Option.some_ne_none line).symm
  | append_singleton lines line ih =>
    rw [List.foldl_append, List.foldl_cons, List.foldl_nil, EndsWrong, List.filter_append]
    by_cases hsilent : Silent line
    · rw [IniState.line_of_silent hsilent, List.filter_cons_of_neg (by simpa using hsilent), List.filter_nil,
        List.append_nil]
      exact ih
    · rw [IniState.errs_line hsilent, List.filter_cons_of_pos (by simpa using hsilent), List.filter_nil,
        List.getLast?_concat]
      constructor
      · exact fun hwrong => ⟨line, rfl, hwrong⟩
      · rintro ⟨line', hlast, hwrong⟩
        exact Option.some.inj hlast ▸ hwrong

theorem iniparserLoadMem_eq_none_iff {mem : Nat → Char} {text : List Char} (hat : TextAt nul mem 0 text) :
    iniparserLoadMem mem text.length = none ↔ EndsWrong (fitting (textLines text)) := by
  have hstart : IniState.initial.errs = 0 := rfl
  rw [← errs_foldl hstart, ← iniparserLoadMemRun_result, (iniparserLoadMemRun_spec hat).result,
    IniState.result]
  split_ifs with herrs
  · exact iff_of_false not_false (fun h => h herrs)
  · exact iff_of_true rfl herrs

/-- Every line fits into the buffer and has no syntax error. -/
def GoodText (text : List Char) : Prop := ∀ line ∈ textLines text, line.length < asciiLineSz ∧ ¬ Wrong line

instance : DecidablePred GoodText := fun text =>
  inferInstanceAs (Decidable (∀ line ∈ textLines text, line.length < asciiLineSz ∧ ¬ Wrong line))

/-- A dictionary means that the whole text was consumed and no line is wrong, in other words a bad text is refused,
exactly if the text is good or, before the first line that does not fit, the last line that counts is wrong. -/
theorem load_mem_refuses_bad_iff {mem : Nat → Char} {text : List Char} (hat : TextAt nul mem 0 text) :
    ((∀ d, iniparserLoadMem mem text.length = some d →
          text.length ≤ (iniparserLoadMemRun mem text.length).tpos ∧
            ∀ line ∈ textLines text, ∀ secname, iniparserLine line secname ≠ .lineError) ↔
        GoodText text ∨ EndsWrong (fitting (textLines text))) ∧
      (((∃ line ∈ textLines text, asciiLineSz ≤ line.length ∨ ∃ secname, iniparserLine line secname = .lineError) →
          iniparserLoadMem mem text.length = none) ↔
        GoodText text ∨ EndsWrong (fitting (textLines text))) := by
  have hgood : GoodText text ↔ text.length ≤ (iniparserLoadMemRun mem text.length).tpos ∧
      ∀ line ∈ textLines text, ∀ secname, iniparserLine line secname ≠ .lineError := by
    rw [(iniparserLoadMemRun_spec hat).complete]
    constructor
    · intro h
      refine ⟨fun line hline => (h line hline).1, fun line hline secname => ?_⟩
      exact fun herror => (h line hline).2 ((wrong_iff line secname).mpr herror)
    · rintro ⟨hshort, hright⟩ line hline
      exact ⟨hshort line hline, hright line hline []⟩
  have hbad : (∃ line ∈ textLines text,
      asciiLineSz ≤ line.length ∨ ∃ secname, iniparserLine line secname = .lineError) ↔ ¬ GoodText text := by
    simp only [GoodText, not_forall, not_and_or, not_not, Nat.not_lt, exists_prop, ← wrong_iff, exists_const]
  rw [← iniparserLoadMem_eq_none_iff hat, hbad]
  refine ⟨?_, Decidable.imp_iff_not_or.trans (by rw [Decidable.not_not])⟩
  cases iniparserLoadMem mem text.length with
  | none => exact iff_of_true (fun d hd => absurd hd (Option.some_ne_none d).symm) (Or.inr rfl)
  | some d =>
    rw [hgood]
    constructor
    · exact fun h => Or.inl (h d rfl)
    · exact fun h d' _ => h.resolve_right (Option.some_ne_none d)

theorem load_mem_refuses_bad_run :
    iniparserLoadMem (inMemory plainText) plainText.length = some [(['s'], none), (['s', ':', 'a'], some ['1'])] ∧
      plainText.length ≤ (iniparserLoadMemRun (inMemory plainText) plainText.length).tpos ∧
        ∀ line ∈ textLines plainText, ∀ secname, iniparserLine line secname ≠ .lineError := by
  have hload : iniparserLoadMem (inMemory plainText) plainText.length =
      some [(['s'], none), (['s', ':', 'a'], some ['1'])] := by decide +kernel
  have hgood : GoodText plainText := by decide +kernel
  exact ⟨hload, (load_mem_refuses_bad_iff (textAt_inMemory plainText)).1.mpr (Or.inl hgood) _ hload⟩

/-- The text `a` and `b=1` has an error in its first line and is accepted. So is a line of `ASCIILINESZ` characters, none
of which is consumed. -/
theorem bad_texts_accepted :
    (Wrong ['a'] ∧
      iniparserLoadMem (inMemory ['a', newline, 'b', '=', '1', newline]) 6 = some [([':', 'b'], some ['1'])]) ∧
      iniparserLoadMem (inMemory (List.replicate asciiLineSz 'a')) asciiLineSz = some [] ∧
      (iniparserLoadMemRun (inMemory (List.replicate asciiLineSz 'a')) asciiLineSz).tpos = 0 := by
  refine ⟨by decide +kernel, ?_⟩
  have hline : ∀ c ∈ List.replicate asciiLineSz 'a', isTerminator c = false := by
    intro c hc
    rw [List.eq_of_mem_replicate hc]
    decide
  have hmem : ∀ i < (List.replicate asciiLineSz 'a').length,
      inMemory (List.replicate asciiLineSz 'a') (0 + i) = (List.replicate asciiLineSz 'a').getD i nul := by
    intro i _
    rw [Nat.zero_add, inMemory]
  have hrun : iniparserLoadMemRun (inMemory (List.replicate asciiLineSz 'a')) asciiLineSz =
      ⟨[(0, asciiLineSz)], 0, some []⟩ :=
    loadMemRun_stop (Or.inl (getnstr_long hline hmem (Nat.le_of_eq List.length_replicate.symm)))
  rw [← iniparserLoadMemRun_result, hrun]
  exact ⟨rfl, rfl⟩

end Csf
