import Csf.Ini.Model
import Mathlib.Data.List.GetD
import Mathlib.Data.List.TakeWhile

/-!
# The two loaders

`iniparser_load` looks for a backslash at the last character of a line that is no blank. `iniparser_load_mem` starts at the
NUL behind the line (`endLine_mem`), so it never strips a line and never continues one. `iniparser_line` strips the line
itself, so this only matters for lines that end in a backslash: on a text without such lines both pass the same lines to
`iniparser_line`, up to blanks at the end (`loadLines_textOf`, `loadMemLines_textOf`).

Both build the key `section:key` in the array `tmp`, without a check. A section and a key that each fit into a line can be
too long together; `tmpLengths` are the lengths of the strings that are written.
-/

namespace Csf

/-! ### Stripping -/

theorem stripTail_append_blanks {blanks : List Char} (hblanks : ∀ c ∈ blanks, isspace c = true) (s : List Char) :
    stripTail (s ++ blanks) = stripTail s := by
  have hnil : blanks.reverse.dropWhile isspace = [] := by
    rw [List.dropWhile_eq_nil_iff]
    exact fun c hc => hblanks c (List.mem_reverse.mp hc)
  rw [stripTail, List.reverse_append, List.dropWhile_append, hnil]
  rfl

theorem strstrip_append_blanks {blanks : List Char} (hblanks : ∀ c ∈ blanks, isspace c = true) (s : List Char) :
    strstrip (s ++ blanks) = strstrip s := by
  rw [strstrip, strstrip, List.dropWhile_append]
  split
  · rename_i hempty
    have hnil : blanks.dropWhile isspace = [] := List.dropWhile_eq_nil_iff.mpr hblanks
    rw [hnil, List.isEmpty_iff.mp hempty]
  · exact stripTail_append_blanks hblanks _

theorem exists_blanks (s : List Char) : ∃ blanks, (∀ c ∈ blanks, isspace c = true) ∧ s = stripTail s ++ blanks := by
  refine ⟨(s.reverse.takeWhile isspace).reverse, fun c hc => List.mem_takeWhile_imp (List.mem_reverse.mp hc), ?_⟩
  rw [stripTail, ← List.reverse_append, List.takeWhile_append_dropWhile, List.reverse_reverse]

theorem strstrip_stripTail (s : List Char) : strstrip (stripTail s) = strstrip s := by
  obtain ⟨blanks, hblanks, hs⟩ := exists_blanks s
  have hstrip := strstrip_append_blanks hblanks (stripTail s)
  rw [← hs] at hstrip
  exact hstrip.symm

theorem stripEnd_length (line : List Char) :
    stripEnd line line.length =
      (stripTail line, if stripTail line = [] then none else some ((stripTail line).length - 1)) := by
  induction line using List.reverseRecOn with
  | nil => rfl
  | append_singleton line c ih =>
    have hlast : (line ++ [c]).getD line.length nul = c := by simp
    rw [List.length_append, List.length_singleton, stripEnd, hlast]
    cases hc : isspace c with
    | true =>
      have hblank : ∀ c' ∈ [c], isspace c' = true := fun c' hc' => List.mem_singleton.mp hc' ▸ hc
      rw [if_pos rfl, List.take_left, ih, stripTail_append_blanks hblank]
    | false =>
      have hkeep : stripTail (line ++ [c]) = line ++ [c] := by
        rw [stripTail, List.reverse_append, List.reverse_singleton, List.singleton_append,
          List.dropWhile_cons_of_neg (by rw [hc]; exact Bool.false_ne_true), List.reverse_cons, List.reverse_reverse]
      rw [if_neg Bool.false_ne_true, hkeep, if_neg (List.append_ne_nil_of_right_ne_nil _ (List.cons_ne_nil c []))]
      simp

/-- The last character of a line, apart from blanks, is a backslash. -/
def Continues (line : List Char) : Prop := (stripTail line).getLast? = some backslash

instance (line : List Char) : Decidable (Continues line) :=
  decEq (stripTail line).getLast? (some backslash)

theorem endLine_file {line : List Char} (h : ¬ Continues line) :
    endLine line line.length = .complete (stripTail line) := by
  rw [endLine, stripEnd_length]
  by_cases hnil : stripTail line = []
  · rw [if_pos hnil]
  · rw [if_neg hnil]
    dsimp only
    rw [if_neg]
    intro hlast
    refine h ?_
    rw [Continues, List.getLast?_eq_getElem?]
    rw [List.getD_eq_getElem?_getD] at hlast
    cases hget : (stripTail line)[(stripTail line).length - 1]? with
    | none =>
      rw [hget] at hlast
      exact absurd hlast (by decide)
    | some c =>
      rw [hget] at hlast
      exact congrArg some hlast

theorem endLine_mem (line : List Char) : endLine line (line.length + 1) = .complete line := by
  have hnul : line.getD line.length nul = nul := by simp
  rw [endLine, stripEnd, hnul, if_neg (by decide)]
  dsimp only
  rw [hnul, if_neg (by decide)]

/-! ### Lines -/

/-- The lines of a text, without their newlines. -/
def linesOf : List Char → List (List Char)
  | [] => []
  | c :: text =>
    if c = newline then [] :: linesOf text
    else
      match linesOf text with
      | [] => [[c]]
      | line :: lines => (c :: line) :: lines

/-- Each line followed by a newline. -/
def textOf (lines : List (List Char)) : List Char := lines.flatMap fun line => line ++ [newline]

theorem textOf_cons (line : List Char) (lines : List (List Char)) :
    textOf (line :: lines) = line ++ newline :: textOf lines := by
  rw [textOf, List.flatMap_cons, List.append_assoc]
  rfl

theorem textOf_linesOf {text : List Char} (h : text = [] ∨ text.getLast? = some newline) :
    textOf (linesOf text) = text := by
  induction text with
  | nil => rfl
  | cons c text ih =>
    rw [linesOf]
    have hend := h.resolve_left (List.cons_ne_nil c text)
    split_ifs with hc
    · have hrest : text = [] ∨ text.getLast? = some newline := by
        cases text with
        | nil => exact Or.inl rfl
        | cons c' text => exact Or.inr hend
      rw [textOf_cons, ih hrest, hc]
      rfl
    · cases text with
      | nil => exact absurd (Option.some.inj hend) hc
      | cons c' text =>
        have htext := ih (Or.inr hend)
        split
        · rename_i hnil
          rw [hnil] at htext
          cases htext
        · rename_i line lines hlines
          rw [hlines, textOf_cons] at htext
          rw [textOf_cons, List.cons_append, htext]

theorem mem_of_mem_linesOf {text line : List Char} (h : line ∈ linesOf text) {c : Char} (hc : c ∈ line) :
    c ∈ text ∧ c ≠ newline := by
  induction text generalizing line with
  | nil => cases h
  | cons c' text ih =>
    rw [linesOf] at h
    split_ifs at h with hc'
    · rcases List.mem_cons.mp h with rfl | h
      · cases hc
      · exact ⟨List.mem_cons_of_mem _ (ih h hc).1, (ih h hc).2⟩
    · split at h
      · rw [List.mem_singleton] at h
        subst h
        rw [List.mem_singleton] at hc
        exact ⟨hc ▸ List.mem_cons_self, hc ▸ hc'⟩
      · rename_i line' lines hlines
        rcases List.mem_cons.mp h with rfl | h
        · rcases List.mem_cons.mp hc with rfl | hc
          · exact ⟨List.mem_cons_self, hc'⟩
          · have hline : line' ∈ linesOf text := hlines ▸ List.mem_cons_self
            exact ⟨List.mem_cons_of_mem _ (ih hline hc).1, (ih hline hc).2⟩
        · have hline : line ∈ linesOf text := hlines ▸ List.mem_cons_of_mem _ h
          exact ⟨List.mem_cons_of_mem _ (ih hline hc).1, (ih hline hc).2⟩

/-- What a line of the file may be made of, and how long it may be. -/
structure PlainLine (line : List Char) : Prop where
  newline : newline ∉ line
  carriageReturn : carriageReturn ∉ line
  nul : nul ∉ line
  short : line.length < asciiLineSz - 2

theorem takeLine_line {line : List Char} (hline : newline ∉ line) (rest : List Char) {k : Nat} (hk : line.length < k) :
    takeLine k (line ++ newline :: rest) = (line ++ [newline], rest) := by
  induction line generalizing k with
  | nil =>
    obtain ⟨k, rfl⟩ := Nat.exists_eq_succ_of_ne_zero (Nat.ne_of_gt hk)
    exact if_pos rfl
  | cons c line ih =>
    obtain ⟨k, rfl⟩ := Nat.exists_eq_succ_of_ne_zero (Nat.ne_of_gt (Nat.lt_of_le_of_lt (Nat.zero_le _) hk))
    rw [List.mem_cons, not_or] at hline
    rw [List.cons_append, takeLine, if_neg (Ne.symm hline.1), ih hline.2 (Nat.lt_of_succ_lt_succ hk)]
    rfl

theorem fgets_line {line : List Char} (h : PlainLine line) (rest : List Char) :
    fgets asciiLineSz (line ++ newline :: rest) = some (line ++ [newline], rest) := by
  have hlen := h.short
  rw [fgets, if_neg, takeLine_line h.newline]
  · omega
  · exact fun hnil => List.append_ne_nil_of_right_ne_nil _ (List.cons_ne_nil _ _) hnil.1

theorem cstr_line {line : List Char} (h : PlainLine line) : cstr (line ++ [newline]) = line ++ [newline] := by
  rw [cstr, List.takeWhile_eq_self_iff]
  intro c hc
  rw [bne_iff_ne]
  rintro rfl
  rcases List.mem_append.mp hc with hc | hc
  · exact h.nul hc
  · exact absurd (List.mem_singleton.mp hc) (by decide)

theorem getnstrLoop_skip {mem : Nat → Char} {line : List Char}
    (hline : ∀ c ∈ line, ¬ (c = carriageReturn ∨ c = newline ∨ c = nul)) {n s : Nat} (hn : line.length ≤ n)
    (hmem : ∀ i < line.length, mem (s + i) = line.getD i nul) (d : List Char) :
    getnstrLoop mem n s d = getnstrLoop mem (n - line.length) (s + line.length) (d ++ line) := by
  induction line generalizing n s d with
  | nil => rw [List.append_nil, List.length_nil, Nat.sub_zero, Nat.add_zero]
  | cons c line ih =>
    obtain ⟨n, rfl⟩ := Nat.exists_eq_succ_of_ne_zero (Nat.ne_of_gt (Nat.lt_of_lt_of_le (Nat.succ_pos _) hn))
    have hs : mem s = c := hmem 0 (Nat.succ_pos _)
    have hrest : ∀ i < line.length, mem (s + 1 + i) = line.getD i nul := by
      intro i hi
      rw [Nat.add_assoc, Nat.add_comm 1 i, hmem (i + 1) (Nat.succ_lt_succ hi)]
      rfl
    rw [getnstrLoop, hs, if_neg (hline c List.mem_cons_self),
      ih (fun c' hc' => hline c' (List.mem_cons_of_mem _ hc')) (Nat.le_of_succ_le_succ hn) hrest, List.length_cons,
      Nat.succ_eq_add_one, Nat.add_sub_add_right, List.append_assoc, List.singleton_append, Nat.add_assoc s 1,
      Nat.add_comm 1]

theorem getnstrLoop_line {mem : Nat → Char} {line : List Char} (hnl : newline ∉ line) (hcr : carriageReturn ∉ line)
    (hnul : nul ∉ line) {n s : Nat} (hn : line.length + 1 < n)
    (hmem : ∀ i < line.length + 1, mem (s + i) = (line ++ [newline]).getD i nul) (d : List Char) :
    getnstrLoop mem n s d = (d.length + line.length + 1, d ++ line ++ [newline]) := by
  have hline : ∀ c ∈ line, ¬ (c = carriageReturn ∨ c = newline ∨ c = nul) := by
    rintro c hc (rfl | rfl | rfl)
    · exact hcr hc
    · exact hnl hc
    · exact hnul hc
  have hskip : ∀ i < line.length, mem (s + i) = line.getD i nul := by
    intro i hi
    rw [hmem i (Nat.lt_succ_of_lt hi), List.getD_append _ _ _ _ hi]
  have hend : mem (s + line.length) = newline := by
    rw [hmem line.length (Nat.lt_succ_self _), List.getD_append_right _ _ _ _ (Nat.le_refl _), Nat.sub_self]
    rfl
  obtain ⟨k, hk⟩ := Nat.exists_eq_add_of_lt hn
  have hleft : n - line.length = k + 1 + 1 := by omega
  have hcr' : ¬ (newline = carriageReturn ∧ mem (s + line.length + 1) = newline ∧ k + 1 + 1 ≠ 1) := fun h =>
    absurd h.1 (by decide)
  rw [getnstrLoop_skip hline (by omega) hskip, hleft, getnstrLoop, hend, if_pos (Or.inr (Or.inl rfl)), if_neg hcr',
    getnstrEnd, if_pos (by omega), List.length_append]

theorem getnstr_line {mem : Nat → Char} {line : List Char} (h : PlainLine line) {s : Nat}
    (hmem : ∀ i < line.length + 1, mem (s + i) = (line ++ [newline]).getD i nul) :
    getnstr mem s asciiLineSz = (line.length + 1, line ++ [newline]) := by
  have hlen := h.short
  rw [getnstr, getnstrLoop_line h.newline h.carriageReturn h.nul (by omega) hmem, List.length_nil, Nat.zero_add,
    List.nil_append]

/-! ### The lines that are parsed -/

/-- The lines that `iniparser_load` passes to `iniparser_line`, and whether it gets to the end of the file: it gives up at
a line that is too long. -/
def loadLines (text pre : List Char) : List (List Char) × Bool :=
  match _hget : fgets (asciiLineSz - pre.length) text with
  | none => ([], true)
  | some (chunk, rest) =>
    if _hchunk : chunk = [] then ([], false)
    else if (cstr (pre ++ chunk)).getLast? ≠ some newline then ([], false)
    else
      match endLine (cstr (pre ++ chunk)) (cstr (pre ++ chunk)).length with
      | .continued pre => loadLines rest pre
      | .complete line => (line :: (loadLines rest []).1, (loadLines rest []).2)
  termination_by text.length
  decreasing_by
    all_goals exact length_fgets _hget _hchunk

/-- The lines that `iniparser_load_mem` passes to `iniparser_line`. -/
def loadMemLines (mem : Nat → Char) (inilen tpos : Nat) (pre : List Char) : List (List Char) :=
  match getnstr mem tpos (asciiLineSz - pre.length) with
  | (rpos, buf) =>
    if _hpos : rpos ≠ 0 ∧ tpos < inilen then
      match endLine (cstr (pre ++ buf)) ((cstr (pre ++ buf)).length + 1) with
      | .continued pre => loadMemLines mem inilen (tpos + rpos) pre
      | .complete line => line :: loadMemLines mem inilen (tpos + rpos) []
    else []
  termination_by inilen - tpos
  decreasing_by
    all_goals exact offset_advances _hpos

theorem loadLines_of_none {text pre : List Char} (hget : fgets (asciiLineSz - pre.length) text = none) :
    loadLines text pre = ([], true) := by
  rw [loadLines]
  split
  · rfl
  · rename_i hsome
    rw [hget] at hsome
    cases hsome

theorem loadLines_of_some {text pre chunk rest : List Char}
    (hget : fgets (asciiLineSz - pre.length) text = some (chunk, rest)) :
    loadLines text pre =
      if chunk = [] then ([], false)
      else if (cstr (pre ++ chunk)).getLast? ≠ some newline then ([], false)
      else
        match endLine (cstr (pre ++ chunk)) (cstr (pre ++ chunk)).length with
        | .continued pre => loadLines rest pre
        | .complete line => (line :: (loadLines rest []).1, (loadLines rest []).2) := by
  rw [loadLines]
  split
  · rename_i hnone
    rw [hget] at hnone
    cases hnone
  · rename_i hsome
    rw [hget] at hsome
    obtain ⟨rfl, rfl⟩ := Prod.mk.inj (Option.some.inj hsome)
    rfl

theorem iniparserLoadLoop_eq (text pre : List Char) (st : IniState) : iniparserLoadLoop text pre st =
    if (loadLines text pre).2 = true then ((loadLines text pre).1.foldl IniState.line st).result else none := by
  fun_induction iniparserLoadLoop text pre st with
  | case1 text pre st hget =>
    rw [loadLines_of_none hget]
    rfl
  | case2 text pre st rest hget =>
    rw [loadLines_of_some hget, if_pos rfl]
    rfl
  | case3 text pre st chunk rest hget hchunk hlast =>
    rw [loadLines_of_some hget, if_neg hchunk, if_pos hlast]
    rfl
  | case4 text pre st chunk rest hget hchunk hlast pre' hend ih =>
    rw [ih, loadLines_of_some hget, if_neg hchunk, if_neg hlast, hend]
  | case5 text pre st chunk rest hget hchunk hlast line hend ih =>
    rw [ih, loadLines_of_some hget, if_neg hchunk, if_neg hlast, hend]
    rfl

theorem iniparserLoadMemLoop_eq (mem : Nat → Char) (inilen tpos : Nat) (pre : List Char) (st : IniState) :
    iniparserLoadMemLoop mem inilen tpos pre st =
      ((loadMemLines mem inilen tpos pre).foldl IniState.line st).result := by
  induction hk : inilen - tpos using Nat.strong_induction_on generalizing tpos pre st with
  | _ k ih =>
    rw [iniparserLoadMemLoop, loadMemLines]
    dsimp only
    by_cases hpos : (getnstr mem tpos (asciiLineSz - pre.length)).1 ≠ 0 ∧ tpos < inilen
    · have hless := offset_advances hpos
      rw [dif_pos hpos, dif_pos hpos]
      generalize endLine _ _ = ended
      cases ended with
      | continued pre' => exact ih _ (hk ▸ hless) _ pre' st rfl
      | complete line => exact ih _ (hk ▸ hless) _ [] (st.line line) rfl
    · rw [dif_neg hpos, dif_neg hpos]
      rfl

/-- The lengths of the strings that `sprintf(tmp, "%s:%s", section, key)` makes of the lines of a loader. -/
def tmpLengths (st : IniState) : List (List Char) → List Nat
  | [] => []
  | line :: lines =>
    match iniparserLine line st.secname with
    | .lineValue key _ => (st.secname ++ ':' :: key).length :: tmpLengths (st.line line) lines
    | _ => tmpLengths (st.line line) lines

/-! ### One line in both loaders -/

theorem iniparserLine_congr {line line' : List Char} (h : strstrip line = strstrip line') (secname : List Char) :
    iniparserLine line secname = iniparserLine line' secname := by
  rw [iniparserLine, iniparserLine, h]

theorem lines_congr {α : Type} {f g : α → List Char} (h : ∀ x, strstrip (f x) = strstrip (g x)) (l : List α)
    (st : IniState) : (l.map f).foldl IniState.line st = (l.map g).foldl IniState.line st ∧
      tmpLengths st (l.map f) = tmpLengths st (l.map g) := by
  induction l generalizing st with
  | nil => exact ⟨rfl, rfl⟩
  | cons x l ih =>
    have hline := iniparserLine_congr (h x) st.secname
    have hst : st.line (f x) = st.line (g x) := by rw [IniState.line, IniState.line, hline]
    obtain ⟨hfold, htmp⟩ := ih (st.line (g x))
    constructor
    · rw [List.map_cons, List.map_cons, List.foldl_cons, List.foldl_cons, hst, hfold]
    · rw [List.map_cons, List.map_cons, tmpLengths, tmpLengths, hline, hst, htmp]

theorem stripTail_newline (line : List Char) : stripTail (line ++ [newline]) = stripTail line :=
  stripTail_append_blanks (fun c hc => List.mem_singleton.mp hc ▸ (by decide)) line

theorem continues_newline {line : List Char} (h : ¬ Continues line) : ¬ Continues (line ++ [newline]) := by
  rw [Continues, stripTail_newline]
  exact h

theorem loadLines_line {line : List Char} (h : PlainLine line) (hcont : ¬ Continues line) (rest : List Char) :
    loadLines (line ++ newline :: rest) [] =
      (stripTail (line ++ [newline]) :: (loadLines rest []).1, (loadLines rest []).2) := by
  have hfgets : fgets (asciiLineSz - ([] : List Char).length) (line ++ newline :: rest) =
      some (line ++ [newline], rest) := fgets_line h rest
  have hlast : (line ++ [newline]).getLast? = some newline := List.getLast?_concat
  rw [loadLines_of_some hfgets, if_neg (List.append_ne_nil_of_right_ne_nil _ (List.cons_ne_nil _ _)), List.nil_append,
    cstr_line h, if_neg (fun hne => hne hlast), endLine_file (continues_newline hcont)]

theorem loadLines_textOf {lines : List (List Char)} (hlines : ∀ line ∈ lines, PlainLine line ∧ ¬ Continues line) :
    loadLines (textOf lines) [] = (lines.map fun line => stripTail (line ++ [newline]), true) := by
  induction lines with
  | nil => exact loadLines_of_none rfl
  | cons line lines ih =>
    obtain ⟨hplain, hcont⟩ := hlines line List.mem_cons_self
    rw [textOf_cons, loadLines_line hplain hcont, ih fun l hl => hlines l (List.mem_cons_of_mem _ hl)]
    rfl

theorem loadMemLines_line {mem : Nat → Char} {line : List Char} (h : PlainLine line) {inilen tpos : Nat}
    (hmem : ∀ i < line.length + 1, mem (tpos + i) = (line ++ [newline]).getD i nul) (hpos : tpos < inilen) :
    loadMemLines mem inilen tpos [] = (line ++ [newline]) :: loadMemLines mem inilen (tpos + (line.length + 1)) [] := by
  have hget : getnstr mem tpos (asciiLineSz - ([] : List Char).length) = (line.length + 1, line ++ [newline]) :=
    getnstr_line h hmem
  rw [loadMemLines, hget]
  dsimp only
  rw [dif_pos ⟨Nat.succ_ne_zero _, hpos⟩, List.nil_append, cstr_line h, endLine_mem]

theorem loadMemLines_textOf (mem : Nat → Char) (inilen tpos : Nat) {lines : List (List Char)}
    (hlines : ∀ line ∈ lines, PlainLine line)
    (hmem : ∀ i < (textOf lines).length, mem (tpos + i) = (textOf lines).getD i nul)
    (hlen : inilen = tpos + (textOf lines).length) :
    loadMemLines mem inilen tpos [] = lines.map fun line => line ++ [newline] := by
  induction lines generalizing tpos with
  | nil =>
    rw [loadMemLines]
    dsimp only
    rw [dif_neg]
    · rfl
    · rintro ⟨-, hpos⟩
      exact Nat.lt_irrefl _ (hlen ▸ hpos)
  | cons line lines ih =>
    have htext : (textOf (line :: lines)).length = line.length + 1 + (textOf lines).length := by
      rw [textOf_cons, List.length_append, List.length_cons]
      omega
    rw [loadMemLines_line (hlines line List.mem_cons_self), List.map_cons]
    · refine congrArg _ (ih _ (fun l hl => hlines l (List.mem_cons_of_mem _ hl)) (fun i hi => ?_) (by omega))
      rw [Nat.add_assoc, hmem _ (by omega), textOf_cons, List.append_cons, List.getD_eq_getElem?_getD,
        List.getD_eq_getElem?_getD, List.getElem?_append_right (by simp), List.length_append, List.length_singleton,
        Nat.add_sub_cancel_left]
    · intro i hi
      rw [hmem i (by omega), textOf_cons, List.append_cons, List.getD_eq_getElem?_getD, List.getD_eq_getElem?_getD,
        List.getElem?_append_left (by simpa using hi)]
    · omega

/-- The bytes of a text in memory, with its NUL. -/
def inMemory (text : List Char) (i : Nat) : Char := text.getD i nul

/-- On a text without NUL and carriage return, all of whose lines end in a newline and fit into the buffer, both loaders
return the same if no line ends in a backslash and every string that `iniparser_load` builds in `tmp` fits there; then
those of `iniparser_load_mem` fit too. -/
theorem loaders_agree (text : List Char) (hnul : nul ∉ text) (hcr : carriageReturn ∉ text)
    (hend : text = [] ∨ text.getLast? = some newline) (hshort : ∀ line ∈ linesOf text, line.length < asciiLineSz - 2)
    (hcont : ∀ line ∈ linesOf text, ¬ Continues line)
    (htmp : ∀ n ∈ tmpLengths .initial (loadLines text []).1, n ≤ asciiLineSz) :
    (∀ n ∈ tmpLengths .initial (loadMemLines (inMemory text) text.length 0 []), n ≤ asciiLineSz) ∧
      iniparserLoadMem (inMemory text) text.length = iniparserLoad text := by
  have hlines : ∀ line ∈ linesOf text, PlainLine line := by
    intro line hline
    refine ⟨fun h => ?_, fun h => ?_, fun h => ?_, hshort line hline⟩
    · exact (mem_of_mem_linesOf hline h).2 rfl
    · exact hcr (mem_of_mem_linesOf hline h).1
    · exact hnul (mem_of_mem_linesOf hline h).1
  have htext := textOf_linesOf hend
  have hfile := loadLines_textOf fun line hline => ⟨hlines line hline, hcont line hline⟩
  have hmem := loadMemLines_textOf (inMemory text) text.length 0 hlines
    (fun i _ => by rw [Nat.zero_add, htext]; rfl) (by rw [Nat.zero_add, htext])
  rw [htext] at hfile
  obtain ⟨hfold, hlengths⟩ := lines_congr (fun line => strstrip_stripTail (line ++ [newline])) (linesOf text) .initial
  rw [hfile, hlengths, ← hmem] at htmp
  refine ⟨htmp, ?_⟩
  rw [iniparserLoadMem, iniparserLoadMemLoop_eq, iniparserLoad, iniparserLoadLoop_eq, hfile, if_pos rfl, hfold, hmem]

/-- The text `[s]`, `a=1`. -/
def plainText : List Char := ['[', 's', ']', newline, 'a', '=', '1', newline]

theorem loaders_agree_run :
    iniparserLoad plainText = some [(['s'], none), (['s', ':', 'a'], some ['1'])] ∧
      iniparserLoadMem (inMemory plainText) plainText.length = iniparserLoad plainText :=
  ⟨by decide +kernel, (loaders_agree plainText (by decide) (by decide) (by decide) (by decide +kernel)
    (by decide +kernel) (by decide +kernel)).2⟩

/-- The text `a=1\` and `2`: the file gives `12` for `a`, the text in memory is refused. -/
theorem continued_line_refused :
    iniparserLoad ['a', '=', '1', backslash, newline, '2', newline] = some [([':', 'a'], some ['1', '2'])] ∧
      iniparserLoadMem (inMemory ['a', '=', '1', backslash, newline, '2', newline]) 7 = none := by
  decide +kernel

/-- A section of 600 characters and a key of 600 characters are two lines that fit. -/
def longKeyText : List Char :=
  '[' :: List.replicate 600 's' ++ [']', newline] ++ List.replicate 600 'k' ++ ['=', '1', newline]

/-- The name of the entry does not fit into `tmp`. -/
theorem long_key_overruns : (∀ line ∈ linesOf longKeyText, line.length < asciiLineSz - 2) ∧
    ∃ n ∈ tmpLengths .initial (loadLines longKeyText []).1, asciiLineSz < n := by
  decide +kernel

/-- Not every line that ends in a backslash makes a difference: here it is a comment, and the last line. -/
example : Continues ['#', backslash] ∧ iniparserLoadMem (inMemory ['#', backslash, newline]) 3 =
    iniparserLoad ['#', backslash, newline] := by
  decide +kernel

end Csf
