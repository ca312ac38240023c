import Mathlib.Data.List.Infix

/-!
# Selections and substrings

Two filters of a list agree exactly if their conditions agree on it (`filter_eq_filter_iff`).

A list stands inside another when it is an infix of it. An infix without the separator does not reach over a separator
(`infix_append_cons_iff`), so inside a joined list of texts it stands inside one of them (`infix_intercalate_iff`).
-/

namespace Csf.Lib

variable {α : Type*} {sep : α} {v a b : List α} {names : List (List α)}

theorem filter_eq_filter_iff {p q : α → Bool} {l : List α} : l.filter p = l.filter q ↔ ∀ a ∈ l, p a = q a := by
  constructor
  · intro h a ha
    have hp : a ∈ l.filter p ↔ a ∈ l.filter q := by rw [h]
    rw [List.mem_filter, List.mem_filter] at hp
    exact Bool.eq_iff_iff.mpr ⟨fun hpa => (hp.mp ⟨ha, hpa⟩).2, fun hqa => (hp.mpr ⟨ha, hqa⟩).2⟩
  · exact List.filter_congr

theorem prefix_cons_iff_of_notMem (h : sep ∉ v) : v <+: sep :: b ↔ v = [] := by
  constructor
  · intro hv
    rcases List.prefix_cons_iff.mp hv with hnil | ⟨t, rfl, _⟩
    · exact hnil
    · exact absurd List.mem_cons_self h
  · rintro rfl
    exact List.nil_prefix

theorem infix_cons_iff_of_notMem (h : sep ∉ v) : v <:+: sep :: b ↔ v <:+: b := by
  rw [List.infix_cons_iff, prefix_cons_iff_of_notMem h]
  constructor
  · rintro (rfl | hb)
    · exact List.nil_infix
    · exact hb
  · exact Or.inr

theorem infix_append_cons_iff (h : sep ∉ v) : v <:+: a ++ sep :: b ↔ v <:+: a ∨ v <:+: b := by
  rw [List.infix_append_iff, infix_cons_iff_of_notMem h]
  constructor
  · rintro (ha | hb | ⟨l₁, l₂, rfl, hl₁, hl₂⟩)
    · exact Or.inl ha
    · exact Or.inr hb
    · have hl₂ := (prefix_cons_iff_of_notMem fun hmem => h (List.mem_append_right _ hmem)).mp hl₂
      rw [hl₂, List.append_nil]
      exact Or.inl hl₁.isInfix
  · exact fun h => h.imp_right Or.inl

theorem infix_append_iff_of_disjoint (hv : v ≠ []) (h : ∀ c ∈ b, c ∉ v) : v <:+: a ++ b ↔ v <:+: a := by
  cases b with
  | nil => rw [List.append_nil]
  | cons c b =>
    rw [infix_append_cons_iff (h c List.mem_cons_self)]
    constructor
    · rintro (ha | hb)
      · exact ha
      · obtain ⟨c', hc'⟩ := List.exists_mem_of_ne_nil v hv
        exact absurd hc' (h c' (List.mem_cons_of_mem c (hb.subset hc')))
    · exact Or.inl

theorem infix_intercalate_iff (h : sep ∉ v) (hv : v ≠ []) :
    v <:+: [sep].intercalate names ↔ ∃ name ∈ names, v <:+: name := by
  induction names with
  | nil => simp [hv]
  | cons name names ih =>
    rw [List.exists_mem_cons_iff]
    by_cases hnames : names = []
    · simp [hnames]
    · rw [List.intercalate_cons_of_ne_nil hnames, List.append_assoc, List.singleton_append, infix_append_cons_iff h, ih]

theorem infix_intercalate_of_mem {sep : List α} (h : v ∈ names) : v <:+: sep.intercalate names := by
  induction names with
  | nil => exact absurd h List.not_mem_nil
  | cons name names ih =>
    by_cases hnames : names = []
    · rw [hnames] at h ⊢
      rw [List.mem_singleton.mp h, List.intercalate_singleton]
    · rw [List.intercalate_cons_of_ne_nil hnames]
      rcases List.mem_cons.mp h with rfl | hmem
      · rw [List.append_assoc]
        exact (List.prefix_append _ _).isInfix
      · exact (ih hmem).trans (List.suffix_append _ _).isInfix

theorem mem_intercalate {sep : List α} {c : α} (h : c ∈ sep.intercalate names) :
    c ∈ sep ∨ ∃ name ∈ names, c ∈ name := by
  induction names with
  | nil => exact absurd h List.not_mem_nil
  | cons name names ih =>
    by_cases hnames : names = []
    · rw [hnames, List.intercalate_singleton] at h
      exact Or.inr ⟨name, List.mem_cons_self, h⟩
    · rw [List.intercalate_cons_of_ne_nil hnames, List.append_assoc, List.mem_append, List.mem_append] at h
      rcases h with hname | hsep | hrest
      · exact Or.inr ⟨name, List.mem_cons_self, hname⟩
      · exact Or.inl hsep
      · exact (ih hrest).imp_right fun ⟨name', hmem, hc⟩ => ⟨name', List.mem_cons_of_mem name hmem, hc⟩

end Csf.Lib
