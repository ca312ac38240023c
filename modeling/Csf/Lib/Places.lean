import Mathlib.Algebra.Order.BigOperators.Group.Finset
import Mathlib.Data.Fintype.BigOperators

/-!
# Items distributed over finitely many lists

`c : P → List α` says which items lie in which of finitely many places, each place keeping its items in
order. `occ c x` counts the occurrences of `x` over all places, so `occ c x = 1` says that `x` lies
exactly once in exactly one of them (`occ_eq_one_iff`). Replacing the content of one place changes the
count by the difference of that place's counts (`occ_update`).
-/

namespace Csf.Lib

variable {P α : Type*} [Fintype P] [DecidableEq α]

/-- How often `x` occurs in all places together. -/
def occ (c : P → List α) (x : α) : Nat := ∑ p, (c p).count x

theorem occ_update [DecidableEq P] (c : P → List α) (p : P) (l : List α) (x : α) :
    occ (Function.update c p l) x + (c p).count x = occ c x + l.count x := by
  have hupd : ∀ q, (Function.update c p l q).count x =
      Function.update (fun q => (c q).count x) p (l.count x) q := by
    intro q
    by_cases hq : q = p
    · subst hq; simp
    · simp [Function.update_of_ne hq]
  have hsum : occ (Function.update c p l) x =
      ∑ q, Function.update (fun q => (c q).count x) p (l.count x) q :=
    Finset.sum_congr rfl fun q _ => hupd q
  have herase := Finset.add_sum_erase Finset.univ (fun q => (c q).count x) (Finset.mem_univ p)
  rw [hsum, Finset.sum_update_of_mem (Finset.mem_univ p), Finset.sdiff_singleton_eq_erase, occ]
  omega

theorem occ_update₂ [DecidableEq P] (c : P → List α) {p q : P} (hne : q ≠ p) (l l' : List α) (x : α) :
    occ (Function.update (Function.update c p l) q l') x + (c p).count x + (c q).count x =
      occ c x + l.count x + l'.count x := by
  have h₁ := occ_update c p l x
  have h₂ := occ_update (Function.update c p l) q l' x
  rw [Function.update_of_ne hne] at h₂
  omega

theorem occ_mono {c c' : P → List α} {x : α} (h : ∀ p, (c p).count x ≤ (c' p).count x) : occ c x ≤ occ c' x :=
  Finset.sum_le_sum fun p _ => h p

theorem count_le_occ (c : P → List α) (p : P) (x : α) : (c p).count x ≤ occ c x :=
  Finset.single_le_sum (f := fun q => (c q).count x) (fun _ _ => Nat.zero_le _) (Finset.mem_univ p)

theorem occ_pos_iff {c : P → List α} {x : α} : 0 < occ c x ↔ ∃ p, x ∈ c p := by
  rw [occ, Finset.sum_pos_iff]
  simp [List.count_pos_iff]

theorem occ_eq_zero_iff {c : P → List α} {x : α} : occ c x = 0 ↔ ∀ p, x ∉ c p := by
  rw [← not_iff_not, ← ne_eq, ← Nat.pos_iff_ne_zero, occ_pos_iff]
  simp

theorem add_count_le_occ [DecidableEq P] (c : P → List α) {p q : P} (hne : p ≠ q) (x : α) :
    (c p).count x + (c q).count x ≤ occ c x := by
  have hpair : ∑ r ∈ {p, q}, (c r).count x = (c p).count x + (c q).count x := Finset.sum_pair hne
  rw [← hpair]
  exact Finset.sum_le_sum_of_subset (Finset.subset_univ _)

theorem eq_of_occ_le_one [DecidableEq P] {c : P → List α} {x : α} (h : occ c x ≤ 1) {p q : P} (hp : x ∈ c p)
    (hq : x ∈ c q) : p = q := by
  by_contra hne
  have htwo := add_count_le_occ c hne x
  rw [← List.count_pos_iff] at hp hq
  omega

theorem occ_eq_one_iff [DecidableEq P] {c : P → List α} {x : α} :
    occ c x = 1 ↔ ∃ p, (c p).count x = 1 ∧ ∀ q, q ≠ p → x ∉ c q := by
  constructor
  · intro h
    obtain ⟨p, hp⟩ := occ_pos_iff.mp (show 0 < occ c x by omega)
    have hle := count_le_occ c p x
    have hpos := List.count_pos_iff.mpr hp
    exact ⟨p, by omega, fun q hq hmem => hq (eq_of_occ_le_one h.le hmem hp)⟩
  · rintro ⟨p, hp, hother⟩
    rw [occ, Finset.sum_eq_single p (fun q _ hq => List.count_eq_zero.mpr (hother q hq))
      (fun h => absurd (Finset.mem_univ p) h), hp]

/-! ### Totals -/

theorem sum_range_add_count {n n' : Nat} {f f' : Nat → Nat} {l : List Nat} (hn : n ≤ n')
    (hzero : ∀ r, n ≤ r → f r = 0) (hl : ∀ r ∈ l, r < n) (hf : ∀ r, f' r = f r + l.count r) :
    ∑ r ∈ Finset.range n', f' r = ∑ r ∈ Finset.range n, f r + l.length := by
  have hsub : Finset.range n ⊆ Finset.range n' := Finset.range_subset_range.mpr hn
  have hout : ∀ r ∈ Finset.range n', r ∉ Finset.range n → f' r = 0 := by
    intro r _ hr
    rw [Finset.mem_range, not_lt] at hr
    rw [hf r, hzero r hr, Nat.zero_add]
    exact List.count_eq_zero.mpr fun hmem => absurd (hl r hmem) (by omega)
  have hlen : ∑ r ∈ Finset.range n, l.count r = l.length := by
    have h := Multiset.sum_count_eq_card (m := (l : Multiset Nat)) fun r hr => Finset.mem_range.mpr (hl r hr)
    simpa only [Multiset.coe_count, Multiset.coe_card] using h
  rw [← Finset.sum_subset hsub hout, Finset.sum_congr rfl fun r _ => hf r, Finset.sum_add_distrib, hlen]

end Csf.Lib
