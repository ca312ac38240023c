import Csf.Lib.Lists
import Csf.Monitor.Stat
import Mathlib.Data.List.TakeWhile

/-!
# Which variables `stat` reports

The help text of the monitor gives the form `stat item1,...,itemN [-e item1,...,itemN]` of the command. `StatLine` is such
a line, and `StatLine.Wants` is what it asks for: the variables of the groups it names, or all variables, without those
that it excepts.

`cmd_stat` looks for the name of a variable inside the list of the groups and inside the list of the exceptions. So a
line can select a variable by a longer name, and a group whose name contains the letters `all` stands for all groups. A
line without groups is recognised by the length of what follows `stat`, which is 1 for a newline and not for a carriage
return and a newline. `StatLine.Clear` is what these searches need in order to find what the line asks for; for names
without commas and blanks it says which names may contain which others (`StatLine.clear_iff_of_plain`).
-/

namespace Csf

open Lib

inductive CommandEnd
  | newline
  | crlf
  | interrupt
  /-- the end of the stream, or of the buffer -/
  | none
  deriving DecidableEq

def CommandEnd.text : CommandEnd → List Char
  | .newline => [Csf.newline]
  | .crlf => [carriageReturn, Csf.newline]
  | .interrupt => [Csf.interrupt]
  | .none => []

/-- The names of a list, with commas between them. -/
def commaList (names : List CString) : List Char := [','].intercalate (names.map Subtype.val)

structure StatLine where
  groups : List CString
  excepts : List CString
  ending : CommandEnd
  group_ne_nil : ∀ group ∈ groups, group.1 ≠ []
  group_plain : ∀ group ∈ groups, ',' ∉ group.1 ∧ '-' ∉ group.1 ∧ group.1.any isspace = false
  in_line : ∀ name ∈ groups ++ excepts, newline ∉ name.1 ∧ interrupt ∉ name.1

namespace StatLine

variable (line : StatLine) (name : CString)

def groupText : List Char := if line.groups = [] then [] else ' ' :: commaList line.groups

def body : List Char :=
  ['s', 't', 'a', 't'] ++
    (line.groupText ++ if line.excepts = [] then [] else ' ' :: '-' :: 'e' :: ' ' :: commaList line.excepts)

def text : List Char := line.body ++ line.ending.text

/-- The text from `stat` to the option. -/
def argText : List Char := line.groupText ++ if line.excepts = [] then line.ending.text else [' ']

/-- The exceptions up to the first blank. -/
def exceptText : List Char :=
  if line.excepts = [] then []
  else ((commaList line.excepts ++ line.ending.text).dropWhile isspace).takeWhile fun c => !isspace c

def ForAll : Prop := line.groups = [] ∨ allWord ∈ line.groups

def Wants : Prop := (line.ForAll ∨ name ∈ line.groups) ∧ name ∉ line.excepts

instance : Decidable line.ForAll := inferInstanceAs (Decidable (_ ∨ _))

instance : Decidable (line.Wants name) := inferInstanceAs (Decidable (_ ∧ _))

/-- The searches for a name find what the line asks for. -/
structure Clear : Prop where
  /-- a name that is asked for does not stand inside the exceptions -/
  kept : line.Wants name → ¬ name.1 <:+: line.exceptText
  /-- a line that is only the word `stat` ends in one character -/
  bare : line.Wants name → line.groups = [] → line.excepts = [] →
    line.ending.text.length = 1 ∨ name.1 <:+: line.ending.text
  /-- a name that is not asked for stands inside the exceptions, or no group contains the letters of `all` and the name
  does not stand inside the groups -/
  dropped : ¬ line.Wants name → name.1 <:+: line.exceptText ∨
    line.groups ≠ [] ∧ (∀ group ∈ line.groups, ¬ allWord.1 <:+: group.1) ∧ ¬ name.1 <:+: line.argText

instance : Decidable (line.Clear name) :=
  decidable_of_iff
    ((line.Wants name → ¬ name.1 <:+: line.exceptText) ∧
      (line.Wants name → line.groups = [] → line.excepts = [] →
        line.ending.text.length = 1 ∨ name.1 <:+: line.ending.text) ∧
      (¬ line.Wants name → name.1 <:+: line.exceptText ∨
        line.groups ≠ [] ∧ (∀ group ∈ line.groups, ¬ allWord.1 <:+: group.1) ∧ ¬ name.1 <:+: line.argText))
    ⟨fun h => ⟨h.1, h.2.1, h.2.2⟩, fun h => ⟨h.kept, h.bare, h.dropped⟩⟩

structure Received : Prop where
  /-- `readline` takes the line and no more, whether it ends in a character of its own, with the stream or with the
  buffer -/
  read : ∀ rest fin, (line.ending = .none → rest = [] ∧ fin = .eof ∨ line.text.length + 1 = cmdBufSize) →
    readline cmdBufSize (line.text ++ rest) fin = .line line.text
  whole : cstr line.text = line.text
  command : commandDistribute line.text = some .stat
  /-- `arg` and `e_opt` have room for a NUL -/
  fits : (scanArg line.text).length < cmdBufSize ∧ (scanExcept line.text).length < cmdBufSize

variable {line name}

/-! ### Lists of names -/

theorem mem_commaList {names : List CString} {c : Char} (h : c ∈ commaList names) :
    c = ',' ∨ ∃ name ∈ names, c ∈ name.1 := by
  refine (mem_intercalate h).imp List.mem_singleton.mp ?_
  rintro ⟨_, hmem, hc⟩
  obtain ⟨name, hname, rfl⟩ := List.mem_map.mp hmem
  exact ⟨name, hname, hc⟩

theorem infix_commaList_of_mem {names : List CString} (h : name ∈ names) : name.1 <:+: commaList names :=
  infix_intercalate_of_mem (List.mem_map_of_mem h)

theorem infix_commaList_iff {names : List CString} (hcomma : ',' ∉ name.1) (hne : name.1 ≠ []) :
    name.1 <:+: commaList names ↔ ∃ listed ∈ names, name.1 <:+: listed.1 := by
  rw [commaList, infix_intercalate_iff hcomma hne]
  constructor
  · rintro ⟨_, hmem, hname⟩
    obtain ⟨listed, hlisted, rfl⟩ := List.mem_map.mp hmem
    exact ⟨listed, hlisted, hname⟩
  · rintro ⟨listed, hlisted, hname⟩
    exact ⟨listed.1, List.mem_map_of_mem hlisted, hname⟩

theorem mem_ending {ending : CommandEnd} {c : Char} (h : c ∈ ending.text) : isspace c = true ∨ c = interrupt := by
  have hall : ending.text.all (fun c => isspace c || c == interrupt) = true := by
    cases ending <;> decide
  have hc := List.all_eq_true.mp hall c h
  rwa [Bool.or_eq_true, beq_iff_eq] at hc

/-! ### Reading the line -/

theorem notMem_groupText {c : Char} (hletter : c ∉ [' ', ',']) (hgroups : ∀ group ∈ line.groups, c ∉ group.1) :
    c ∉ line.groupText := by
  rw [List.mem_cons, List.mem_singleton, not_or] at hletter
  unfold groupText
  split_ifs
  · exact List.not_mem_nil
  · rw [List.mem_cons]
    rintro (hblank | hlist)
    · exact hletter.1 hblank
    · rcases mem_commaList hlist with hcomma | ⟨group, hgroup, hc⟩
      · exact hletter.2 hcomma
      · exact hgroups group hgroup hc

theorem notMem_body {c : Char} (hletter : c ∉ ['s', 't', 'a', 't', ' ', '-', 'e', ','])
    (hnames : ∀ name ∈ line.groups ++ line.excepts, c ∉ name.1) : c ∉ line.body := by
  have hletters : ∀ letters ⊆ ['s', 't', 'a', 't', ' ', '-', 'e', ','], c ∉ letters := fun _ hsub hc => hletter (hsub hc)
  have hgroups : c ∉ line.groupText :=
    notMem_groupText (hletters _ (by simp)) fun group hgroup => hnames group (List.mem_append_left _ hgroup)
  have hlist : c ∉ commaList line.excepts := by
    intro hmem
    rcases mem_commaList hmem with rfl | ⟨name, hname, hc⟩
    · exact hletter (by decide)
    · exact hnames name (List.mem_append_right _ hname) hc
  rw [body, List.mem_append, List.mem_append]
  rintro (hstat | hgroup | hopt)
  · exact hletters _ (by simp) hstat
  · exact hgroups hgroup
  · split_ifs at hopt
    · exact absurd hopt List.not_mem_nil
    · rcases List.mem_append.mp (show c ∈ [' ', '-', 'e', ' '] ++ commaList line.excepts from hopt) with hdash | hmem
      · exact hletters _ (by simp) hdash
      · exact hlist hmem

theorem body_plain : newline ∉ line.body ∧ interrupt ∉ line.body :=
  ⟨notMem_body (by decide) fun name hname => (line.in_line name hname).1,
    notMem_body (by decide) fun name hname => (line.in_line name hname).2⟩

theorem text_eq_append (h : line.ending ≠ .none) :
    ∃ pre c, line.text = pre ++ [c] ∧ (newline ∉ pre ∧ interrupt ∉ pre) ∧ (c = newline ∨ c = interrupt) := by
  unfold text
  cases hending : line.ending with
  | newline => exact ⟨line.body, _, rfl, body_plain, Or.inl rfl⟩
  | crlf =>
    refine ⟨line.body ++ [carriageReturn], newline, ?_, ?_, Or.inl rfl⟩
    · rw [List.append_assoc]
      rfl
    · rw [List.mem_append, List.mem_append, not_or, not_or]
      exact ⟨⟨body_plain.1, by decide⟩, body_plain.2, by decide⟩
  | interrupt => exact ⟨line.body, _, rfl, body_plain, Or.inr rfl⟩
  | none => exact absurd hending h

theorem readline_text (hfits : line.text.length < cmdBufSize) (rest : List Char) (fin : StreamEnd)
    (hend : line.ending = .none → rest = [] ∧ fin = .eof ∨ line.text.length + 1 = cmdBufSize) :
    readline cmdBufSize (line.text ++ rest) fin = .line line.text := by
  have hlen : line.text.length ≤ cmdBufSize - 1 := Nat.le_pred_of_lt hfits
  unfold readline
  by_cases hending : line.ending = .none
  · have hbody : line.text = line.body := by rw [text, hending, CommandEnd.text, List.append_nil]
    rw [hbody] at hlen hend ⊢
    rw [readlineLoop_append body_plain hlen, List.nil_append]
    rcases hend hending with ⟨rfl, rfl⟩ | hfull
    · -- the end of the stream, with room in the buffer or without
      cases cmdBufSize - 1 - line.body.length with
      | zero => rfl
      | succ n =>
        have hne : line.body ≠ [] := List.cons_ne_nil _ _
        rw [readlineLoop]
        exact if_neg hne
    · rw [← hfull, Nat.add_sub_cancel, Nat.sub_self, readlineLoop]
  · obtain ⟨pre, c, htext, hpre, hc⟩ := text_eq_append hending
    rw [htext, List.length_append, List.length_singleton] at hlen
    rw [htext, List.append_assoc, List.singleton_append, readlineLoop_stop hpre hlen hc, List.nil_append]

theorem cstr_text : cstr line.text = line.text := by
  rw [cstr, List.takeWhile_eq_self_iff]
  intro c hc
  rw [bne_iff_ne]
  rintro rfl
  rcases List.mem_append.mp hc with hbody | hending
  · exact notMem_body (by decide) (fun name _ => name.2) hbody
  · exact absurd (mem_ending hending) (by decide)

theorem commandDistribute_text : commandDistribute line.text = some .stat := rfl

/-! ### The two texts -/

def optionText (line : StatLine) : List Char :=
  if line.excepts = [] then [] else ['-', 'e'] ++ ' ' :: (commaList line.excepts ++ line.ending.text)

theorem text_eq : line.text = ['s', 't', 'a', 't'] ++ (line.argText ++ line.optionText) := by
  unfold text body argText optionText
  split_ifs <;> simp only [List.append_assoc, List.nil_append, List.append_nil, List.cons_append]

theorem notMem_argText : '-' ∉ line.argText := by
  rw [argText, List.mem_append, not_or]
  refine ⟨notMem_groupText (by decide) fun group hgroup => (line.group_plain group hgroup).2.1, ?_⟩
  split_ifs
  · exact fun htail => absurd (mem_ending htail) (by decide)
  · decide

theorem scan_option {s : List Char} (hs : '-' ∉ s) :
    (s ++ line.optionText).takeWhile (· != '-') = s ∧ (s ++ line.optionText).dropWhile (· != '-') = line.optionText := by
  have hplain : ∀ c ∈ s, (c != '-') = true := by
    intro c hc
    rw [bne_iff_ne]
    rintro rfl
    exact hs hc
  rw [List.takeWhile_append_of_pos hplain, List.dropWhile_append_of_pos hplain]
  unfold optionText
  split_ifs
  · exact ⟨List.append_nil s, rfl⟩
  · exact ⟨List.append_nil s, rfl⟩

theorem scanArg_text : scanArg line.text = line.argText := by
  rw [scanArg, text_eq, scanText_append]
  dsimp only
  rw [scanSet_elim, (scan_option notMem_argText).1]

theorem scanExcept_text : scanExcept line.text = line.exceptText := by
  have hplain : '-' ∉ ['s', 't', 'a', 't'] ++ line.argText := by
    rw [List.mem_append]
    exact not_or.mpr ⟨by decide, notMem_argText⟩
  rw [scanExcept, text_eq, ← List.append_assoc, scanSet, (scan_option hplain).1, (scan_option hplain).2]
  rw [if_neg (List.append_ne_nil_of_left_ne_nil (List.cons_ne_nil _ _) _)]
  dsimp only
  unfold optionText exceptText
  split_ifs with hexcepts
  · rfl
  · rw [scanText_append]
    dsimp only
    rw [scanSet_elim]
    rfl

/-! ### The searches -/

/-- A name with no comma and no blank, as the names in a line are meant. -/
structure Plain (name : CString) : Prop where
  ne_nil : name.1 ≠ []
  comma : ',' ∉ name.1
  interrupt : interrupt ∉ name.1
  blank : name.1.any isspace = false

theorem plain_allWord : Plain allWord := ⟨by decide, by decide, by decide, by decide⟩

theorem Plain.notMem_of_isspace (h : Plain name) {c : Char} (hc : isspace c = true) : c ∉ name.1 :=
  fun hmem => List.any_eq_false.mp h.blank c hmem hc

theorem Plain.notMem_ending (h : Plain name) {ending : CommandEnd} : ∀ c ∈ ending.text, c ∉ name.1 := by
  intro c hc
  rcases mem_ending hc with hblank | rfl
  · exact h.notMem_of_isspace hblank
  · exact h.interrupt

theorem Plain.infix_argText_iff (h : Plain name) (hgroups : line.groups ≠ []) :
    name.1 <:+: line.argText ↔ ∃ group ∈ line.groups, name.1 <:+: group.1 := by
  have htail : ∀ c ∈ (if line.excepts = [] then line.ending.text else [' ']), c ∉ name.1 := by
    split_ifs
    · exact h.notMem_ending
    · rintro c hc
      rw [List.mem_singleton.mp hc]
      exact h.notMem_of_isspace (by decide)
  rw [argText, infix_append_iff_of_disjoint h.ne_nil htail, groupText, if_neg hgroups,
    infix_cons_iff_of_notMem (h.notMem_of_isspace (by decide)), infix_commaList_iff h.comma h.ne_nil]

theorem infix_argText_of_mem (h : name ∈ line.groups) : name.1 <:+: line.argText := by
  have hgroups : line.groups ≠ [] := List.ne_nil_of_mem h
  rw [argText, groupText, if_neg hgroups]
  exact (infix_commaList_of_mem h).trans (((List.suffix_cons _ _).isInfix).trans (List.prefix_append _ _).isInfix)

theorem length_argText_ne (hgroups : line.groups ≠ []) : line.argText.length ≠ 1 := by
  obtain ⟨group, hgroup⟩ := List.exists_mem_of_ne_nil _ hgroups
  have hlen := (infix_commaList_of_mem hgroup).length_le
  have hpos := List.length_pos_of_ne_nil (line.group_ne_nil group hgroup)
  rw [argText, groupText, if_neg hgroups, List.cons_append, List.length_cons, List.length_append]
  omega

theorem selected_iff_of_groups (hgroups : line.groups ≠ []) :
    Selected line.argText line.exceptText name ↔ ¬ name.1 <:+: line.exceptText ∧
      ((∃ group ∈ line.groups, allWord.1 <:+: group.1) ∨ name.1 <:+: line.argText) := by
  rw [← plain_allWord.infix_argText_iff hgroups]
  constructor
  · rintro ⟨hkept, hall | hlen | hname⟩
    · exact ⟨hkept, Or.inl hall⟩
    · exact absurd hlen (length_argText_ne hgroups)
    · exact ⟨hkept, Or.inr hname⟩
  · rintro ⟨hkept, hfound⟩
    exact ⟨hkept, hfound.imp_right Or.inr⟩

theorem selected_iff_of_nil (hgroups : line.groups = []) :
    Selected line.argText line.exceptText name ↔ ¬ name.1 <:+: line.exceptText ∧
      (line.excepts = [] → line.ending.text.length = 1 ∨ name.1 <:+: line.ending.text) := by
  have harg : line.argText = if line.excepts = [] then line.ending.text else [' '] := by
    rw [argText, groupText, if_pos hgroups, List.nil_append]
  have hletters : ¬ allWord.1 <:+: line.ending.text := fun hall =>
    absurd (mem_ending (hall.subset (List.mem_cons_self : 'a' ∈ allWord.1))) (by decide)
  rw [harg]
  split_ifs with hexcepts
  · constructor
    · rintro ⟨hkept, hall | hfound⟩
      · exact absurd hall hletters
      · exact ⟨hkept, fun _ => hfound⟩
    · rintro ⟨hkept, hfound⟩
      exact ⟨hkept, Or.inr (hfound hexcepts)⟩
  · constructor
    · exact fun h => ⟨h.kept, fun hnil => absurd hnil hexcepts⟩
    · exact fun h => ⟨h.1, Or.inr (Or.inl rfl)⟩

theorem Clear.selected_iff_wants (h : line.Clear name) :
    Selected line.argText line.exceptText name ↔ line.Wants name := by
  constructor
  · intro hsel
    by_contra hw
    rcases h.dropped hw with hexcept | ⟨hgroups, hall, hname⟩
    · exact hsel.kept hexcept
    · rcases ((selected_iff_of_groups hgroups).mp hsel).2 with ⟨group, hgroup, hin⟩ | hin
      · exact hall group hgroup hin
      · exact hname hin
  · intro hw
    by_cases hgroups : line.groups = []
    · exact (selected_iff_of_nil hgroups).mpr ⟨h.kept hw, h.bare hw hgroups⟩
    · refine (selected_iff_of_groups hgroups).mpr ⟨h.kept hw, ?_⟩
      rcases hw.1 with (hnil | hall) | hmem
      · exact absurd hnil hgroups
      · exact Or.inl ⟨allWord, hall, List.infix_rfl⟩
      · exact Or.inr (infix_argText_of_mem hmem)

theorem clear_of_selected_iff (h : Selected line.argText line.exceptText name ↔ line.Wants name) : line.Clear name := by
  refine ⟨fun hw => (h.mpr hw).kept, fun hw hgroups => ((selected_iff_of_nil hgroups).mp (h.mpr hw)).2, fun hw => ?_⟩
  by_cases hexcept : name.1 <:+: line.exceptText
  · exact Or.inl hexcept
  · have hgroups : line.groups ≠ [] := by
      -- without groups only an exception is not asked for, and then one blank follows `stat`
      intro hnil
      refine hw ⟨Or.inl (Or.inl hnil), fun hmem => hw (h.mp ?_)⟩
      exact (selected_iff_of_nil hnil).mpr ⟨hexcept, fun hexcepts => absurd hexcepts (List.ne_nil_of_mem hmem)⟩
    have hmissed : ¬ ((∃ group ∈ line.groups, allWord.1 <:+: group.1) ∨ name.1 <:+: line.argText) :=
      fun hfound => hw (h.mp ((selected_iff_of_groups hgroups).mpr ⟨hexcept, hfound⟩))
    refine Or.inr ⟨hgroups, fun group hgroup hall => ?_, fun hname => ?_⟩
    · exact hmissed (Or.inl ⟨group, hgroup, hall⟩)
    · exact hmissed (Or.inr hname)

/-! ### Plain names -/

theorem word_append {s : List Char} (hs : s.any isspace = false) (ending : CommandEnd) :
    ((s ++ ending.text).dropWhile isspace).takeWhile (fun c => !isspace c) =
      s ++ ending.text.takeWhile fun c => !isspace c := by
  have htake (rest : List Char) : (s ++ rest).takeWhile (fun c => !isspace c) = s ++ rest.takeWhile fun c => !isspace c :=
    List.takeWhile_append_of_pos fun c hc => by rw [Bool.eq_false_iff.mpr (List.any_eq_false.mp hs c hc), Bool.not_false]
  cases s with
  | nil => cases ending <;> rfl
  | cons c s =>
    rw [List.cons_append, List.dropWhile_cons_of_neg (List.any_eq_false.mp hs c List.mem_cons_self)]
    exact htake _

theorem Plain.infix_exceptText_iff (h : Plain name)
    (hexcepts : ∀ listed ∈ line.excepts, listed.1.any isspace = false) :
    name.1 <:+: line.exceptText ↔ ∃ listed ∈ line.excepts, name.1 <:+: listed.1 := by
  have hblank : (commaList line.excepts).any isspace = false := by
    refine List.any_eq_false.mpr fun c hc => ?_
    rcases mem_commaList hc with rfl | ⟨listed, hlisted, hc⟩
    · decide
    · exact List.any_eq_false.mp (hexcepts listed hlisted) c hc
  have hend : ∀ c ∈ line.ending.text.takeWhile (fun c => !isspace c), c ∉ name.1 :=
    fun c hc => h.notMem_ending c ((List.takeWhile_sublist _).subset hc)
  rw [exceptText, word_append hblank, ← infix_commaList_iff h.comma h.ne_nil]
  split_ifs with hnil
  · rw [hnil]
    rfl
  · exact infix_append_iff_of_disjoint h.ne_nil hend

theorem Plain.not_infix_ending (h : Plain name) : ¬ name.1 <:+: line.ending.text := by
  intro hin
  obtain ⟨c, hc⟩ := List.exists_mem_of_ne_nil _ h.ne_nil
  exact h.notMem_ending c (hin.subset hc) hc

theorem clear_iff_of_plain (h : Plain name) (hexcepts : ∀ listed ∈ line.excepts, listed.1.any isspace = false) :
    line.Clear name ↔
      (line.Wants name → (∀ listed ∈ line.excepts, ¬ name.1 <:+: listed.1) ∧
        (line.groups = [] → line.excepts = [] → line.ending.text.length = 1)) ∧
      (¬ line.Wants name → (∃ listed ∈ line.excepts, name.1 <:+: listed.1) ∨
        line.groups ≠ [] ∧ ∀ group ∈ line.groups, ¬ allWord.1 <:+: group.1 ∧ ¬ name.1 <:+: group.1) := by
  have hexcept := h.infix_exceptText_iff hexcepts
  constructor
  · intro hclear
    refine ⟨fun hw => ⟨fun listed hlisted hin => ?_, fun hgroups hnil => ?_⟩, fun hw => ?_⟩
    · exact hclear.kept hw (hexcept.mpr ⟨listed, hlisted, hin⟩)
    · exact (hclear.bare hw hgroups hnil).resolve_right h.not_infix_ending
    · refine (hclear.dropped hw).imp hexcept.mp ?_
      rintro ⟨hgroups, hall, hname⟩
      refine ⟨hgroups, fun group hgroup => ⟨hall group hgroup, fun hin => ?_⟩⟩
      exact hname ((h.infix_argText_iff hgroups).mpr ⟨group, hgroup, hin⟩)
  · rintro ⟨hwanted, hnot⟩
    refine ⟨fun hw hin => ?_, fun hw hgroups hnil => Or.inl ((hwanted hw).2 hgroups hnil), fun hw => ?_⟩
    · obtain ⟨listed, hlisted, hin⟩ := hexcept.mp hin
      exact (hwanted hw).1 listed hlisted hin
    · refine (hnot hw).imp hexcept.mpr ?_
      rintro ⟨hgroups, hall⟩
      refine ⟨hgroups, fun group hgroup => (hall group hgroup).1, fun hin => ?_⟩
      obtain ⟨group, hgroup, hin⟩ := (h.infix_argText_iff hgroups).mp hin
      exact (hall group hgroup).2 hin

/-! ### Whole runs -/

theorem length_argText_le : line.argText.length ≤ line.text.length := by
  rw [text_eq, List.length_append, List.length_append]
  omega

theorem exceptText_sublist : line.exceptText.Sublist line.optionText := by
  unfold exceptText optionText
  split_ifs
  · exact List.Sublist.refl _
  · have hword := (List.takeWhile_sublist fun c => !isspace c).trans
      (List.dropWhile_sublist (l := commaList line.excepts ++ line.ending.text) isspace)
    exact hword.trans ((List.sublist_cons_self _ _).trans (List.sublist_append_right _ _))

theorem length_exceptText_le : line.exceptText.length ≤ line.text.length := by
  have hoption : line.exceptText.length ≤ line.optionText.length := exceptText_sublist.length_le
  rw [text_eq, List.length_append, List.length_append]
  omega

theorem received (hfits : line.text.length < cmdBufSize) : line.Received where
  read := readline_text hfits
  whole := cstr_text
  command := commandDistribute_text
  fits := by
    rw [scanArg_text, scanExcept_text]
    exact ⟨Nat.lt_of_le_of_lt length_argText_le hfits, Nat.lt_of_le_of_lt length_exceptText_le hfits⟩

end StatLine

/-- `cmd_stat` reports what a line asks for exactly when the names in the registry are clear. -/
theorem stat_selection_iff (shown : VarType → Nat → List Char) (registry : List VarNode) (line : StatLine)
    (hfits : line.text.length < cmdBufSize) :
    line.Received ∧
      (reported (cmdStat shown registry line.text) = (registry.filter fun node => line.Wants node.soName) ↔
        ∀ node ∈ registry, line.Clear node.soName) := by
  refine ⟨StatLine.received hfits, ?_⟩
  rw [reported_cmdStat, StatLine.scanArg_text, StatLine.scanExcept_text, filter_eq_filter_iff]
  exact forall₂_congr fun _ _ => decide_eq_decide.trans ⟨StatLine.clear_of_selected_iff, StatLine.Clear.selected_iff_wants⟩

/-! ### Runs -/

def counterOf (soName : List Char) (hname : nul ∉ soName) (hshort : soName.length < maxFieldLength) : VarNode :=
  ⟨⟨['n'], by decide⟩, ⟨soName, hname⟩, 1, 0x20, by decide, hshort⟩

def abCounter : VarNode := counterOf ['a', 'b'] (by decide) (by decide)
def abcCounter : VarNode := counterOf ['a', 'b', 'c'] (by decide) (by decide)
def dbCounter : VarNode := counterOf ['d', 'b'] (by decide) (by decide)

/-- `stat ab,db -e db` -/
def twoGroups : StatLine := ⟨[abCounter.soName, dbCounter.soName], [dbCounter.soName], .newline,
  by decide, by decide, by decide⟩

/-- The three counters are registered by calls of `register_stat_int`. -/
theorem stat_selection_run :
    (∃ calls : List Registration,
        calls.foldl (registerStatInt true) [] = [abcCounter, dbCounter, abCounter]) ∧
      twoGroups.Received ∧
      reported (cmdStat (fun _ _ => ['0']) [abcCounter, dbCounter, abCounter] twoGroups.text) = [abCounter] := by
  obtain ⟨hreceived, hselection⟩ :=
    stat_selection_iff (fun _ _ => ['0']) [abcCounter, dbCounter, abCounter] twoGroups (by decide)
  exact ⟨exists_registrations _, hreceived, hselection.mpr (by decide)⟩

/-- `stat abc` -/
def oneGroup : StatLine := ⟨[abcCounter.soName], [], .newline, by decide, by decide, by decide⟩

/-- `stat hall` -/
def hallGroup : StatLine := ⟨[⟨['h', 'a', 'l', 'l'], by decide⟩], [], .newline, by decide, by decide, by decide⟩

/-- `stat`, from a client that ends lines with a carriage return and a newline -/
def noGroup : StatLine := ⟨[], [], .crlf, by decide, by decide, by decide⟩

/-- A part of the name of a group is reported with it, a group with the letters of `all` reports the others, and the word
alone reports nothing. -/
theorem stat_reports_others :
    reported (cmdStat (fun _ _ => ['0']) [abCounter, dbCounter] oneGroup.text) = [abCounter] ∧
      ¬ oneGroup.Wants abCounter.soName ∧
      reported (cmdStat (fun _ _ => ['0']) [dbCounter] hallGroup.text) = [dbCounter] ∧
      ¬ hallGroup.Wants dbCounter.soName ∧
      reported (cmdStat (fun _ _ => ['0']) [dbCounter] noGroup.text) = [] ∧ noGroup.Wants dbCounter.soName := by
  decide

end Csf
