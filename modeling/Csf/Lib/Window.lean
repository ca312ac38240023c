import Mathlib.Data.List.Basic

/-!
# A window into a buffer

A buffer is a list of fixed length. `window l i j` is the part between two offsets, `overwrite l i src` copies `src`
over the part that starts at offset `i`. Copying to the end of the window appends to it, and moving its start drops
from it.
-/

namespace Csf.Lib

variable {α : Type*}

/-- The part of `l` from offset `i` up to offset `j`. -/
def window (l : List α) (i j : Nat) : List α := (l.take j).drop i

/-- `src` is copied into `l` at offset `i`; the list gets longer if it does not fit. -/
def overwrite (l : List α) (i : Nat) (src : List α) : List α := l.take i ++ src ++ l.drop (i + src.length)

@[simp] theorem window_self (l : List α) (i : Nat) : window l i i = [] := by
  rw [window, List.drop_eq_nil_iff, List.length_take]
  exact Nat.min_le_left _ _

theorem length_overwrite {l src : List α} {i : Nat} (h : i + src.length ≤ l.length) :
    (overwrite l i src).length = l.length := by
  simp only [overwrite, List.length_append, List.length_take, List.length_drop]
  omega

theorem window_overwrite {l : List α} (src : List α) {i j : Nat} (hi : i ≤ j) (hj : j ≤ l.length) :
    window (overwrite l j src) i (j + src.length) = window l i j ++ src := by
  have hlen : (l.take j).length = j := by rw [List.length_take, Nat.min_eq_left hj]
  have htake : (overwrite l j src).take (j + src.length) = l.take j ++ src :=
    List.take_left' (by rw [List.length_append, hlen])
  rw [window, htake, List.drop_append_of_le_length (by rw [hlen]; exact hi), window]

theorem window_add (l : List α) (i j n : Nat) : window l (i + n) j = (window l i j).drop n := by
  rw [window, window, List.drop_drop]

end Csf.Lib
