import Mathlib.Data.List.Basic
import Mathlib.Data.List.Nodup
import Mathlib.Logic.Function.Basic

/-!
# Things that have one owner

`c o` lists what owner `o` holds. `Separate c` says that nothing is held twice, neither by one owner nor by two. A
change of hands is made of two updates: the old owner is left with a part of what it held, and something that nobody
holds is given to the new owner; `Separate.update` covers both.
-/

namespace Csf.Lib

variable {O α : Type*} {c : O → List α}

/-- Nothing is held twice. -/
structure Separate (c : O → List α) : Prop where
  nodup : ∀ o, (c o).Nodup
  apart : ∀ {o o' x}, x ∈ c o → x ∈ c o' → o = o'

namespace Separate

variable [DecidableEq O]

theorem update (h : Separate c) (o : O) (new : List α) {l : List α} (hl : l.Sublist (c o)) (hnew : new.Nodup)
    (hfree : ∀ x ∈ new, ∀ o', x ∉ c o') : Separate (Function.update c o (new ++ l)) := by
  have hmem : ∀ o' x, x ∈ Function.update c o (new ++ l) o' → x ∈ new ∧ o' = o ∨ x ∈ c o' := by
    intro o' x hx
    by_cases ho : o' = o
    · subst ho
      rw [Function.update_self, List.mem_append] at hx
      exact hx.imp (fun hn => ⟨hn, rfl⟩) fun hx => hl.subset hx
    · rw [Function.update_of_ne ho] at hx
      exact .inr hx
  refine ⟨fun o' => ?_, fun {o₁ o₂ x} h₁ h₂ => ?_⟩
  · by_cases ho : o' = o
    · subst ho
      rw [Function.update_self]
      exact hnew.append ((h.nodup o').sublist hl) fun x hx hxl => hfree x hx o' (hl.subset hxl)
    · rw [Function.update_of_ne ho]
      exact h.nodup o'
  · rcases hmem o₁ x h₁ with ⟨hn₁, rfl⟩ | hc₁
    · rcases hmem o₂ x h₂ with ⟨-, rfl⟩ | hc₂
      · rfl
      · exact absurd hc₂ (hfree x hn₁ o₂)
    · rcases hmem o₂ x h₂ with ⟨hn₂, rfl⟩ | hc₂
      · exact absurd hc₁ (hfree x hn₂ o₁)
      · exact h.apart hc₁ hc₂

theorem free_of_update (h : Separate c) {o : O} {x : α} {l : List α} (hx : x ∈ c o) (hl : x ∉ l) (o' : O) :
    x ∉ Function.update c o l o' := by
  by_cases ho : o' = o
  · subst ho
    rwa [Function.update_self]
  · rw [Function.update_of_ne ho]
    exact fun hx' => ho (h.apart hx' hx)

end Separate

end Csf.Lib
