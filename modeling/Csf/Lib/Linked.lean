import Mathlib.Data.List.Basic

/-!
# Linked lists in a memory of pointers

A memory is a function from addresses to pointers; every element `e` has one address of its own, `cell e`, where
it keeps the pointer to the element after it. `Seg` says which elements the pointers between two addresses lead
through, `Back` that every element knows the address of the pointer that leads to it, as in lists that unlink an
element without a search. `Seg.frame` and `Back.frame` say what such a segment does not depend on, `Seg.unique` that
the pointers determine the list.
-/

namespace Csf.Lib

/-- A pointer to an element. `invalid` is a value that is neither NULL nor the address of an element. -/
inductive Ptr (E : Type*)
  | null
  | elm (e : E)
  | invalid
  deriving DecidableEq

variable {A E : Type*} {cell : E → A} {get get' : A → Ptr E} {back back' : E → Option A} {a b c : A} {e : E}
  {l l' : List E}

/-- The pointers from the address `a` on lead through the elements `l` to the address `b`. -/
def Seg (cell : E → A) (get : A → Ptr E) : A → List E → A → Prop
  | a, [], b => a = b
  | a, e :: l, b => get a = .elm e ∧ Seg cell get (cell e) l b

/-- Every element of `l`, which starts at the address `a`, points back to the address of the pointer to it. -/
def Back (cell : E → A) (back : E → Option A) : A → List E → Prop
  | _, [] => True
  | a, e :: l => back e = some a ∧ Back cell back (cell e) l

def froms (cell : E → A) : A → List E → List A
  | _, [] => []
  | a, e :: l => a :: froms cell (cell e) l

/-! ### Segments -/

theorem Seg.append : ∀ {a : A} {l : List E}, Seg cell get a (l ++ l') c ↔ ∃ b, Seg cell get a l b ∧ Seg cell get b l' c
  | a, [] => by simp [Seg]
  | a, e :: l => by simp [Seg, Seg.append (l := l), and_assoc]

theorem Seg.cells : ∀ {a : A} {l : List E}, Seg cell get a l b → a :: l.map cell = froms cell a l ++ [b]
  | a, [], h => by simpa [Seg, froms] using h
  | a, e :: l, h => by simp [froms, ← h.2.cells]

theorem Seg.end_mem (h : Seg cell get a l b) : b ∈ a :: l.map cell := by
  rw [h.cells]
  exact List.mem_append_right _ (List.mem_singleton_self b)

theorem Seg.froms_subset (h : Seg cell get a l b) {x : A} (hx : x ∈ froms cell a l) : x ∈ a :: l.map cell := by
  rw [h.cells]
  exact List.mem_append_left _ hx

theorem Seg.end_notMem (h : Seg cell get a l b) (hnd : (a :: l.map cell).Nodup) : b ∉ froms cell a l := by
  rw [h.cells] at hnd
  intro hb
  exact (List.nodup_append.mp hnd).2.2 b hb b (List.mem_singleton_self b) rfl

theorem Seg.frame : ∀ {a : A} {l : List E}, Seg cell get a l b → (∀ x ∈ froms cell a l, get' x = get x) →
    Seg cell get' a l b
  | _, [], h, _ => h
  | a, _ :: _, h, hget => ⟨(hget a List.mem_cons_self).trans h.1, h.2.frame fun x hx => hget x (List.mem_cons_of_mem a hx)⟩

theorem Seg.unique : ∀ {a : A} {l l' : List E}, Seg cell get a l b → get b = .null → Seg cell get a l' c →
    get c = .null → l = l'
  | _, [], [], _, _, _, _ => rfl
  | a, [], e :: l', h, hb, h', _ => by
    obtain rfl : a = b := h
    rw [h'.1] at hb
    cases hb
  | a, e :: l, [], h, _, h', hc => by
    obtain rfl : a = c := h'
    rw [h.1] at hc
    cases hc
  | a, e :: l, e' :: l', h, hb, h', hc => by
    have he := h.1.symm.trans h'.1
    obtain rfl := Ptr.elm.inj he
    rw [h.2.unique hb h'.2 hc]

/-! ### Back pointers -/

theorem Back.append : ∀ {a : A} {l : List E}, Seg cell get a l b →
    (Back cell back a (l ++ l') ↔ Back cell back a l ∧ Back cell back b l')
  | a, [], h => by
    obtain rfl : a = b := h
    simp [Back]
  | a, e :: l, h => by simp [Back, Back.append h.2, and_assoc]

theorem Back.frame : ∀ {a : A} {l : List E}, Back cell back a l → (∀ e ∈ l, back' e = back e) → Back cell back' a l
  | _, [], _, _ => trivial
  | _, e :: _, h, hback => ⟨(hback e List.mem_cons_self).trans h.1, h.2.frame fun x hx => hback x (List.mem_cons_of_mem e hx)⟩

theorem Back.of_mem : ∀ {a : A} {l : List E}, Back cell back a l → ∀ {e : E}, e ∈ l → ∃ x, back e = some x
  | a, _ :: _, h, e, he => by
    rcases List.mem_cons.mp he with rfl | he
    · exact ⟨a, h.1⟩
    · exact h.2.of_mem he

end Csf.Lib
