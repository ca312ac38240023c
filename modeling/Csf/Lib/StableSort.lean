import Mathlib.Data.List.Basic
import Mathlib.Order.Lattice

/-!
# Stable sorting by insertion

`StableSort key l out`: `out` has the members of `l`, sorted by their keys, and those with equal keys stand in the
order they have in `l`. A list that is built by insertion, one member after the other, stays a stable sort of what
was inserted exactly if every new member is put behind all members with a key that is not larger.
-/

namespace Csf.Lib

variable {α κ : Type*} [LinearOrder κ] {key : α → κ} {l pre post : List α} {x : α}

/-- `out` is `l` sorted by `key`, with equal keys in the order of `l`. -/
structure StableSort (key : α → κ) (l out : List α) : Prop where
  perm : out.Perm l
  sorted : out.Pairwise fun a b => key a ≤ key b
  stable : ∀ k, (out.filter fun a => key a = k) = l.filter fun a => key a = k

theorem StableSort.nil (key : α → κ) : StableSort key [] [] :=
  ⟨List.Perm.nil, List.Pairwise.nil, fun _ => rfl⟩

theorem perm_insert (h : (pre ++ post).Perm l) : (pre ++ x :: post).Perm (l ++ [x]) :=
  List.perm_middle.trans ((h.cons x).trans (List.perm_append_singleton x l).symm)

theorem pairwise_insert {r : α → α → Prop} (h : (pre ++ post).Pairwise r) (hpre : ∀ y ∈ pre, r y x)
    (hpost : ∀ y ∈ post, r x y) : (pre ++ x :: post).Pairwise r := by
  rw [List.pairwise_append] at h ⊢
  obtain ⟨hp, hq, hpq⟩ := h
  refine ⟨hp, List.pairwise_cons.mpr ⟨hpost, hq⟩, fun a ha b hb => ?_⟩
  rcases List.mem_cons.mp hb with rfl | hb
  · exact hpre a ha
  · exact hpq a ha b hb

theorem filter_insert_iff (hpost : ∀ y ∈ post, key x < key y) (k : κ) :
    ((pre ++ x :: post).filter fun a => key a = k) = ((l ++ [x]).filter fun a => key a = k) ↔
      ((pre ++ post).filter fun a => key a = k) = l.filter fun a => key a = k := by
  by_cases hk : key x = k
  · have hnone : (post.filter fun a => key a = k) = [] := by
      apply List.filter_eq_nil_iff.mpr
      intro y hy
      simpa [← hk] using (hpost y hy).ne'
    simp [List.filter_append, hk, hnone]
  · simp [List.filter_append, hk]

theorem stableSort_insert_iff (hpost : ∀ y ∈ post, key x < key y) :
    StableSort key (l ++ [x]) (pre ++ x :: post) ↔
      StableSort key l (pre ++ post) ∧ ∀ y ∈ pre, key y ≤ key x := by
  constructor
  · intro h
    have hsub : (pre ++ post).Sublist (pre ++ x :: post) := (List.sublist_cons_self x post).append_left pre
    refine ⟨⟨?_, h.sorted.sublist hsub, fun k => (filter_insert_iff hpost k).mp (h.stable k)⟩, fun y hy => ?_⟩
    · exact (List.perm_middle.symm.trans (h.perm.trans (List.perm_append_singleton x l))).cons_inv
    · exact (List.pairwise_append.mp h.sorted).2.2 y hy x List.mem_cons_self
  · rintro ⟨h, hpre⟩
    refine ⟨perm_insert h.perm, pairwise_insert h.sorted hpre fun y hy => (hpost y hy).le, fun k => ?_⟩
    exact (filter_insert_iff hpost k).mpr (h.stable k)

end Csf.Lib
