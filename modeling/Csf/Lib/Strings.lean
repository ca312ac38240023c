import Mathlib.Data.List.GetD

/-!
# Terminated strings in memory

A memory is a function from offsets to values. `TextAt stop mem s text` says that `text` and the terminator `stop` stand
at offset `s`; `store` writes a list at an offset; `lengthFrom` is the search for the terminator. A string is split where it
is put together (`textAt_append`), does not depend on the memory behind its terminator (`TextAt.congr`),
and is found again by `lengthFrom` if the terminator does not occur in it (`lengthFrom_eq`). A buffer that is filled value
by value holds the list of them (`Filled.push`), and a string once the terminator is put behind it (`Filled.textAt`).
-/

namespace Csf.Lib

variable {α : Type*} {stop : α} {mem : Nat → α} {s : Nat} {line text : List α}

/-- The text and its terminator stand at an offset. -/
def TextAt (stop : α) (mem : Nat → α) : (s : Nat) → List α → Prop
  | s, [] => mem s = stop
  | s, c :: text => mem s = c ∧ TextAt stop mem (s + 1) text

theorem textAt_iff : TextAt stop mem s text ↔ ∀ i ≤ text.length, mem (s + i) = text.getD i stop := by
  induction text generalizing s with
  | nil =>
    constructor
    · intro h i hi
      rw [Nat.le_zero.mp hi]
      exact h
    · exact fun h => h 0 (Nat.le_refl _)
  | cons c text ih =>
    rw [TextAt, ih]
    constructor
    · rintro ⟨hs, hrest⟩ i hi
      cases i with
      | zero => exact hs
      | succ i =>
        rw [← Nat.add_assoc, Nat.add_right_comm, hrest i (Nat.le_of_succ_le_succ hi)]
        rfl
    · intro h
      refine ⟨h 0 (Nat.zero_le _), fun i hi => ?_⟩
      rw [Nat.add_right_comm, Nat.add_assoc, h (i + 1) (Nat.succ_le_succ hi)]
      rfl

theorem TextAt.end_eq (h : TextAt stop mem s text) : mem (s + text.length) = stop := by
  rw [textAt_iff.mp h _ (Nat.le_refl _)]
  exact List.getD_eq_default _ _ (Nat.le_refl _)

theorem textAt_append :
    TextAt stop mem s (line ++ text) ↔
      (∀ i < line.length, mem (s + i) = line.getD i stop) ∧ TextAt stop mem (s + line.length) text := by
  rw [textAt_iff, textAt_iff, List.length_append]
  constructor
  · intro h
    refine ⟨fun i hi => ?_, fun i hi => ?_⟩
    · rw [h i (by omega), List.getD_append _ _ _ _ hi]
    · rw [Nat.add_assoc, h _ (by omega), List.getD_append_right _ _ _ _ (Nat.le_add_right _ _), Nat.add_sub_cancel_left]
  · rintro ⟨hline, htext⟩ i hi
    rcases Nat.lt_or_ge i line.length with hlt | hge
    · rw [hline i hlt, List.getD_append _ _ _ _ hlt]
    · obtain ⟨j, rfl⟩ := Nat.exists_eq_add_of_le hge
      rw [← Nat.add_assoc, htext j (by omega), List.getD_append_right _ _ _ _ hge, Nat.add_sub_cancel_left]

theorem TextAt.congr {mem' : Nat → α} (h : TextAt stop mem s text)
    (hsame : ∀ i, s ≤ i → i ≤ s + text.length → mem' i = mem i) : TextAt stop mem' s text := by
  rw [textAt_iff] at h ⊢
  intro i hi
  rw [hsame _ (Nat.le_add_right _ _) (Nat.add_le_add_left hi s), h i hi]

theorem textAt_getD (text : List α) : TextAt stop (fun i => text.getD i stop) 0 text := by
  rw [textAt_iff]
  intro i _
  rw [Nat.zero_add]

theorem TextAt.map_range' (h : TextAt stop mem s text) : (List.range' s text.length).map mem = text := by
  induction text generalizing s with
  | nil => rfl
  | cons c text ih =>
    obtain ⟨hs, hrest⟩ := h
    rw [List.length_cons, List.range'_succ, List.map_cons, hs, ih hrest]

theorem TextAt.map_range'_succ (h : TextAt stop mem s text) :
    (List.range' s (text.length + 1)).map mem = text ++ [stop] := by
  rw [List.range'_1_concat, List.map_append, h.map_range', List.map_singleton, h.end_eq]

/-! ### The search for the terminator -/

/-- The offset of the first terminator from `s` on, after at most `limit` comparisons. -/
def lengthFrom [DecidableEq α] (stop : α) (mem : Nat → α) : (limit s : Nat) → Nat
  | 0, s => s
  | limit + 1, s => if mem s = stop then s else lengthFrom stop mem limit (s + 1)

theorem lengthFrom_eq [DecidableEq α] (h : TextAt stop mem s text) (hstop : stop ∉ text) {limit : Nat}
    (hlimit : text.length < limit) : lengthFrom stop mem limit s = s + text.length := by
  induction text generalizing s limit with
  | nil =>
    obtain ⟨limit, rfl⟩ := Nat.exists_eq_succ_of_ne_zero (Nat.ne_of_gt hlimit)
    exact if_pos h
  | cons c text ih =>
    obtain ⟨limit, rfl⟩ := Nat.exists_eq_succ_of_ne_zero (Nat.ne_of_gt (Nat.lt_of_le_of_lt (Nat.zero_le _) hlimit))
    obtain ⟨hs, hrest⟩ := h
    rw [List.mem_cons, not_or] at hstop
    rw [lengthFrom, if_neg (by rw [hs]; exact Ne.symm hstop.1), ih hrest hstop.2 (Nat.lt_of_succ_lt_succ hlimit),
      List.length_cons, Nat.add_assoc, Nat.add_comm 1]

/-! ### Writing -/

/-- A list written at an offset. -/
def store (mem : Nat → α) (off : Nat) (l : List α) (i : Nat) : α :=
  if off ≤ i then (l[i - off]?).getD (mem i) else mem i

theorem store_of_lt {off i : Nat} (h : i < off) (l : List α) : store mem off l i = mem i :=
  if_neg (Nat.not_le_of_lt h)

theorem textAt_store (mem : Nat → α) (off : Nat) (text : List α) :
    TextAt stop (store mem off (text ++ [stop])) off text := by
  rw [textAt_iff]
  intro i hi
  have hlen : i < (text ++ [stop]).length := by
    rw [List.length_append, List.length_singleton]
    exact Nat.lt_succ_of_le hi
  rw [store, if_pos (Nat.le_add_right _ _), Nat.add_sub_cancel_left, List.getElem?_eq_getElem hlen, Option.getD_some]
  rcases Nat.lt_or_eq_of_le hi with hlt | rfl
  · rw [List.getElem_append_left hlt, List.getD_eq_getElem _ _ hlt]
  · rw [List.getElem_concat_length rfl, List.getD_eq_default _ _ (Nat.le_refl _)]

theorem store_self (mem : Nat → α) (off : Nat) (a : α) : store mem off [a] off = a := by
  rw [store, if_pos (Nat.le_refl _), Nat.sub_self]
  rfl

theorem TextAt.map_range'_store (h : TextAt stop mem s text) (a : α) :
    (List.range' s (text.length + 1)).map (store mem (s + text.length) [a]) = text ++ [a] := by
  have hsame : (List.range' s text.length).map (store mem (s + text.length) [a]) =
      (List.range' s text.length).map mem := by
    refine List.map_congr_left fun i hi => store_of_lt ?_ _
    rw [List.mem_range'_1] at hi
    exact hi.2
  rw [List.range'_1_concat, List.map_append, hsame, h.map_range', List.map_singleton, store_self]

/-! ### A list that grows -/

def Filled (stop : α) (mem : Nat → α) (l : List α) : Prop := ∀ i < l.length, mem i = l.getD i stop

namespace Filled

variable {l : List α}

theorem nil (stop : α) (mem : Nat → α) : Filled stop mem [] := fun i hi => absurd hi (Nat.not_lt_zero i)

theorem left {l' : List α} (h : Filled stop mem (l ++ l')) : Filled stop mem l := by
  intro i hi
  rw [h i (by rw [List.length_append]; omega), List.getD_append _ _ _ _ hi]

theorem store (h : Filled stop mem l) {off : Nat} (hoff : l.length ≤ off) (l' : List α) :
    Filled stop (store mem off l') l := by
  intro i hi
  rw [store_of_lt (Nat.lt_of_lt_of_le hi hoff), h i hi]

theorem push (h : Filled stop mem l) (a : α) : Filled stop (Lib.store mem l.length [a]) (l ++ [a]) := by
  intro i hi
  rw [List.length_append, List.length_singleton] at hi
  rcases Nat.lt_or_eq_of_le (Nat.le_of_lt_succ hi) with hlt | rfl
  · rw [h.store (Nat.le_refl _) [a] i hlt, List.getD_append _ _ _ _ hlt]
  · rw [store_self, List.getD_append_right _ _ _ _ (Nat.le_refl _), Nat.sub_self]
    rfl

theorem textAt (h : Filled stop mem l) : TextAt stop (Lib.store mem l.length [stop]) 0 l := by
  rw [textAt_iff]
  intro i hi
  rw [Nat.zero_add]
  rcases Nat.lt_or_eq_of_le hi with hlt | rfl
  · exact h.store (Nat.le_refl _) [stop] i hlt
  · rw [store_self, List.getD_eq_default _ _ (Nat.le_refl _)]

end Filled

end Csf.Lib
