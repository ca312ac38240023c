import Csf.Lib.Linked
import Mathlib.Data.List.Nodup
import Mathlib.Data.List.Perm.Subperm
import Mathlib.Logic.Function.Basic

/-!
# Tail queues: the `TAILQ` macros of `queue.h`

The queues of the server at the level of their pointers. A head has the two words `tqh_first` and `tqh_last`, the
entry of an element the two words `tqe_next` and `tqe_prev`; `tqh_last` and `tqe_prev` are addresses of pointers,
either of the `tqh_first` of a head or of the `tqe_next` of an element. `(void *)-1`, which `TAILQ_ENTRY_INIT` stores, is
`Ptr.invalid` or the missing address. A macro that would write through it, or through a NULL pointer, has no result.

`Tailq.Rep m c` says that the memory `m` holds the list `c h` in the queue of every head `h`, each element in at most
one of them. Every macro then does to the memory what the list operation of the same name does to `c`.
-/

namespace Csf

open Lib

/-- The address of a pointer to an element: `&head->tqh_first` or `&elm->field.tqe_next`. -/
inductive Tailq.Slot (H E : Type)
  | first (h : H)
  | next (e : E)
  deriving DecidableEq

/-- The words of the queue heads `H` and of the entries of the elements `E`. -/
structure Tailq (H E : Type) where
  tqhFirst : H → Ptr E
  tqhLast : H → Tailq.Slot H E
  tqeNext : E → Ptr E
  tqePrev : E → Option (Tailq.Slot H E)

namespace Tailq

variable {H E : Type}

/-! ### The macros -/

def deref (m : Tailq H E) : Slot H E → Ptr E
  | .first h => m.tqhFirst h
  | .next e => m.tqeNext e

def empty (m : Tailq H E) (h : H) : Bool :=
  match m.tqhFirst h with
  | .null => true
  | _ => false

def entryEmpty (m : Tailq H E) (e : E) : Bool :=
  match m.tqeNext e, m.tqePrev e with
  | .invalid, none => true
  | _, _ => false

/-- The address of a pointer read as that of a head: behind it is `tqh_last`, or the `tqe_prev` of the entry. -/
def lastOf (m : Tailq H E) : Slot H E → Option (Slot H E)
  | .first h => some (m.tqhLast h)
  | .next e => m.tqePrev e

def last (m : Tailq H E) (h : H) : Option (Ptr E) := (m.lastOf (m.tqhLast h)).map m.deref

section
variable [DecidableEq H] [DecidableEq E]

def assign (m : Tailq H E) (a : Slot H E) (p : Ptr E) : Tailq H E :=
  match a with
  | .first h => { m with tqhFirst := Function.update m.tqhFirst h p }
  | .next e => { m with tqeNext := Function.update m.tqeNext e p }

omit [DecidableEq E] in
def init (h : H) (m : Tailq H E) : Tailq H E :=
  { m with
    tqhFirst := Function.update m.tqhFirst h .null
    tqhLast := Function.update m.tqhLast h (.first h) }

omit [DecidableEq H] in
def entryInit (e : E) (m : Tailq H E) : Tailq H E :=
  { m with
    tqeNext := Function.update m.tqeNext e .invalid
    tqePrev := Function.update m.tqePrev e none }

def insertTail (h : H) (e : E) (m : Tailq H E) : Tailq H E :=
  let m := { m with tqeNext := Function.update m.tqeNext e .null }
  let m := { m with tqePrev := Function.update m.tqePrev e (some (m.tqhLast h)) }
  let m := m.assign (m.tqhLast h) (.elm e)
  { m with tqhLast := Function.update m.tqhLast h (.next e) }

def insertBefore (listelm e : E) (m : Tailq H E) : Option (Tailq H E) := do
  let m := { m with tqePrev := Function.update m.tqePrev e (m.tqePrev listelm) }
  let m := { m with tqeNext := Function.update m.tqeNext e (.elm listelm) }
  let prev ← m.tqePrev listelm
  let m := m.assign prev (.elm e)
  some { m with tqePrev := Function.update m.tqePrev listelm (some (.next e)) }

def remove (h : H) (e : E) (m : Tailq H E) : Option (Tailq H E) := do
  let prev ← m.tqePrev e
  let m ← match m.tqeNext e with
    | .elm x => some { m with tqePrev := Function.update m.tqePrev x (some prev) }
    | .null => some { m with tqhLast := Function.update m.tqhLast h prev }
    | .invalid => none
  some (m.assign prev (m.tqeNext e))

def concat (h₁ h₂ : H) (m : Tailq H E) : Option (Tailq H E) :=
  if m.empty h₂ then some m
  else
    let m := m.assign (m.tqhLast h₁) (m.tqhFirst h₂)
    match m.tqhFirst h₂ with
    | .elm x =>
      let m := { m with tqePrev := Function.update m.tqePrev x (some (m.tqhLast h₁)) }
      let m := { m with tqhLast := Function.update m.tqhLast h₁ (m.tqhLast h₂) }
      some (m.init h₂)
    | _ => none

/-- `TAILQ_FOREACH_SAFE` from the element `var` on: the body sees the element, and the one after it was read before
the body ran. `fuel` bounds the rounds. -/
def foreachSafe {σ : Type} (links : σ → Tailq H E) (body : E → σ → Option σ) : Nat → Ptr E → σ → Option σ
  | _, .null, s => some s
  | _, .invalid, _ => none
  | 0, .elm _, _ => none
  | fuel + 1, .elm e, s => do
    let tvar := (links s).tqeNext e
    let s ← body e s
    foreachSafe links body fuel tvar s

end

/-- The elements that `TAILQ_NEXT` leads through from a pointer on, `fuel` of them at most. -/
def walk (m : Tailq H E) : Nat → Ptr E → List E
  | fuel + 1, .elm e => e :: m.walk fuel (m.tqeNext e)
  | _, _ => []

/-! ### What a memory holds -/

structure Holds (m : Tailq H E) (h : H) (l : List E) : Prop where
  nodup : l.Nodup
  seg : Seg .next m.deref (.first h) l (m.tqhLast h)
  back : Back .next m.tqePrev (.first h) l
  last : m.deref (m.tqhLast h) = .null

/-- The queue of every head `h` holds the list `c h`, and an element is in at most one queue. -/
structure Rep (m : Tailq H E) (c : H → List E) : Prop where
  holds : ∀ h, Holds m h (c h)
  apart : ∀ {h h' : H} {e : E}, e ∈ c h → e ∈ c h' → h = h'

variable {m m' : Tailq H E} {c : H → List E} {h h' : H} {e : E} {l l' : List E}

theorem nodup_slots (hl : l.Nodup) : (Slot.first h :: l.map Slot.next : List (Slot H E)).Nodup :=
  List.nodup_cons.mpr ⟨by simp, hl.map fun _ _ hxy => Slot.next.inj hxy⟩

@[simp] theorem next_mem_slots : Slot.next e ∈ (Slot.first h :: l.map Slot.next : List (Slot H E)) ↔ e ∈ l := by
  simp

@[simp] theorem first_mem_slots : Slot.first h' ∈ (Slot.first h :: l.map Slot.next : List (Slot H E)) ↔ h' = h := by
  simp

theorem Holds.last_notMem (hq : Holds m h l) : m.tqhLast h ∉ froms .next (Slot.first h) l :=
  hq.seg.end_notMem (nodup_slots hq.nodup)

theorem Holds.frame (hq : Holds m h l) (hderef : ∀ a ∈ (Slot.first h :: l.map Slot.next), m'.deref a = m.deref a)
    (hlast : m'.tqhLast h = m.tqhLast h) (hprev : ∀ e ∈ l, m'.tqePrev e = m.tqePrev e) : Holds m' h l where
  nodup := hq.nodup
  seg := by
    rw [hlast]
    exact hq.seg.frame fun a ha => hderef a (hq.seg.froms_subset ha)
  back := hq.back.frame hprev
  last := by
    rw [hlast, hderef _ hq.seg.end_mem]
    exact hq.last

theorem Holds.empty_eq (hq : Holds m h l) : m.empty h = l.isEmpty := by
  cases l with
  | nil =>
    have hfirst : Slot.first h = m.tqhLast h := hq.seg
    have hnull : m.tqhFirst h = .null := by simpa [← hfirst, deref] using hq.last
    simp [empty, hnull]
  | cons e l =>
    have hfirst : m.tqhFirst h = .elm e := hq.seg.1
    simp [empty, hfirst]

theorem Holds.first_cons (hq : Holds m h (e :: l)) : m.tqhFirst h = .elm e := hq.seg.1

theorem Holds.first_nil (hq : Holds m h ([] : List E)) : m.tqhFirst h = .null := by
  have hfirst : Slot.first h = m.tqhLast h := hq.seg
  simpa [← hfirst, deref] using hq.last

theorem Holds.first_eq (hq : Holds m h l) : m.tqhFirst h = l.head?.elim .null .elm := by
  cases l with
  | nil => exact hq.first_nil
  | cons e l => exact hq.first_cons

theorem Holds.length_le {m : Tailq H Nat} {l : List Nat} {n : Nat} (hq : Holds m h l) (hlt : ∀ r ∈ l, r < n) :
    l.length ≤ n := by
  have hsub : l ⊆ List.range n := fun r hr => List.mem_range.mpr (hlt r hr)
  simpa using (hq.nodup.subperm hsub).length_le

theorem walk_of_seg {b : Slot H E} (hb : m.deref b = .null) : ∀ {l : List E} {a : Slot H E} {fuel : Nat},
    Seg .next m.deref a l b → l.length ≤ fuel → m.walk fuel (m.deref a) = l
  | [], a, fuel, hseg, _ => by
    obtain rfl : a = b := hseg
    rw [hb]
    cases fuel <;> rfl
  | e :: l, a, fuel, hseg, hfuel => by
    obtain ⟨fuel, rfl⟩ := Nat.exists_eq_add_of_le' (Nat.one_le_of_lt hfuel)
    rw [hseg.1, walk]
    exact congrArg _ (walk_of_seg hb hseg.2 (Nat.le_of_succ_le_succ hfuel))

theorem Holds.walk_eq {fuel : Nat} (hq : Holds m h l) (hfuel : l.length ≤ fuel) :
    m.walk fuel (m.tqhFirst h) = l :=
  walk_of_seg hq.last hq.seg hfuel

theorem Holds.entryEmpty_of_mem (hq : Holds m h l) (he : e ∈ l) : m.entryEmpty e = false := by
  obtain ⟨a, ha⟩ := hq.back.of_mem he
  unfold entryEmpty
  split
  · simp_all
  · rfl

theorem Holds.split (hq : Holds m h (l ++ e :: l')) : ∃ a, Seg .next m.deref (.first h) l a ∧
    Back .next m.tqePrev (.first h) l ∧ m.deref a = .elm e ∧ m.tqePrev e = some a ∧
    Seg .next m.deref (.next e) l' (m.tqhLast h) ∧ Back .next m.tqePrev (.next e) l' := by
  obtain ⟨a, hseg, hget, hrest⟩ := Seg.append.mp hq.seg
  obtain ⟨hback, hprev, hbrest⟩ := (Back.append hseg).mp hq.back
  exact ⟨a, hseg, hback, hget, hprev, hrest, hbrest⟩

theorem Holds.next_nil (hq : Holds m h (l ++ [e])) : m.tqeNext e = .null := by
  obtain ⟨a, -, -, -, -, hend, -⟩ := hq.split
  have hlast : Slot.next e = m.tqhLast h := hend
  simpa [← hlast, deref] using hq.last

theorem Holds.next_cons {x : E} (hq : Holds m h (l ++ e :: x :: l')) : m.tqeNext e = .elm x := by
  obtain ⟨a, -, -, -, -, hrest, -⟩ := hq.split
  exact hrest.1

theorem Holds.next_eq (hq : Holds m h (l ++ e :: l')) : m.tqeNext e = l'.head?.elim .null .elm := by
  cases l' with
  | nil => exact hq.next_nil
  | cons x l' => exact hq.next_cons

theorem Holds.last_eq (hq : Holds m h l) :
    m.last h = some ((l.getLast?).elim .null .elm) := by
  rcases List.eq_nil_or_concat l with rfl | ⟨l, e, rfl⟩
  · have hfirst : Slot.first h = m.tqhLast h := hq.seg
    have hnull := hq.last
    rw [← hfirst] at hnull
    simp [Tailq.last, ← hfirst, lastOf, hnull]
  · rw [List.concat_eq_append] at hq ⊢
    obtain ⟨a, -, -, hget, hprev, hend, -⟩ := hq.split
    have hlast : Slot.next e = m.tqhLast h := hend
    simp [Tailq.last, ← hlast, lastOf, hprev, hget]

/-! ### What the macros do -/

section
variable [DecidableEq H] [DecidableEq E]

@[simp] theorem deref_assign (m : Tailq H E) (a : Slot H E) (p : Ptr E) :
    (m.assign a p).deref = Function.update m.deref a p := by
  funext b
  cases a <;> cases b <;> simp [assign, deref, Function.update_apply]

@[simp] theorem tqhLast_assign (m : Tailq H E) (a : Slot H E) (p : Ptr E) : (m.assign a p).tqhLast = m.tqhLast := by
  cases a <;> rfl

@[simp] theorem tqePrev_assign (m : Tailq H E) (a : Slot H E) (p : Ptr E) : (m.assign a p).tqePrev = m.tqePrev := by
  cases a <;> rfl

theorem deref_init (m : Tailq H E) (h : H) : (m.init h).deref = Function.update m.deref (.first h) .null := by
  funext b
  cases b <;> simp [init, deref, Function.update_apply]

omit [DecidableEq H] [DecidableEq E] in
theorem tqhFirst_eq_deref (m : Tailq H E) (h : H) : m.tqhFirst h = m.deref (.first h) := rfl

omit [DecidableEq E] in
/-- What an operation on the queue of `h` changes: words of that queue and of the element `e`, so that the other
queues stay as they are. -/
theorem Rep.update (hm : Rep m c) (hnew : Holds m' h l) (hl : ∀ x ∈ l, x ∈ c h ∨ ∀ h', x ∉ c h')
    (hderef : ∀ a, a ∉ (Slot.first h :: (c h).map Slot.next) → (∀ x, a = .next x → ∃ h', x ∈ c h') → m'.deref a = m.deref a)
    (hlast : ∀ h', h' ≠ h → m'.tqhLast h' = m.tqhLast h')
    (hprev : ∀ x, x ∉ c h → (∃ h', x ∈ c h') → m'.tqePrev x = m.tqePrev x) : Rep m' (Function.update c h l) := by
  have hother : ∀ {h' x}, h' ≠ h → x ∈ c h' → x ∉ c h := fun hne hx hx' => hne (hm.apart hx hx')
  refine ⟨fun h' => ?_, fun {h₁ h₂ x} hx₁ hx₂ => ?_⟩
  · by_cases hh : h' = h
    · subst hh
      rwa [Function.update_self]
    rw [Function.update_of_ne hh]
    refine (hm.holds h').frame ?_ (hlast h' hh) fun x hx => hprev x (hother hh hx) ⟨h', hx⟩
    intro a ha
    rcases List.mem_cons.mp ha with rfl | ha
    · exact hderef _ (by simpa using hh) (by simp)
    · obtain ⟨x, hx, rfl⟩ := List.mem_map.mp ha
      refine hderef _ (by simpa using hother hh hx) fun y hy => ?_
      obtain rfl := Slot.next.inj hy
      exact ⟨h', hx⟩
  · -- an element of the new list was in the queue of `h` or in none
    have hmem : ∀ {h' x}, h' ≠ h → x ∈ c h' → x ∈ l → False := by
      intro h' x hne hx hxl
      rcases hl x hxl with hold | hfresh
      · exact hother hne hx hold
      · exact hfresh h' hx
    simp only [Function.update_apply] at hx₁ hx₂
    split_ifs at hx₁ hx₂ with h₁' h₂' h₂'
    · rw [h₁', h₂']
    · exact absurd hx₁ fun hxl => hmem h₂' hx₂ hxl
    · exact absurd hx₂ fun hxl => hmem h₁' hx₁ hxl
    · exact hm.apart hx₁ hx₂

theorem Rep.insertTail (hm : Rep m c) (he : ∀ h', e ∉ c h') :
    Rep (m.insertTail h e) (Function.update c h (c h ++ [e])) := by
  have hq := hm.holds h
  have hlast := hq.seg.end_mem
  have hne : m.tqhLast h ≠ .next e := by
    intro heq
    rw [heq, next_mem_slots] at hlast
    exact he h hlast
  have hderef : (m.insertTail h e).deref =
      Function.update (Function.update m.deref (.next e) .null) (m.tqhLast h) (.elm e) := by
    have hnext : ({ m with tqeNext := Function.update m.tqeNext e .null } : Tailq H E).deref =
        Function.update m.deref (.next e) .null := by
      funext b
      cases b <;> simp [deref, Function.update_apply]
    rw [← hnext]
    exact deref_assign _ _ _
  have hprev : (m.insertTail h e).tqePrev = Function.update m.tqePrev e (some (m.tqhLast h)) := tqePrev_assign _ _ _
  have hends : (m.insertTail h e).tqhLast = Function.update m.tqhLast h (.next e) := by
    rw [Tailq.insertTail]
    simp
  refine hm.update ⟨?_, ?_, ?_, ?_⟩ ?_ ?_ ?_ ?_
  · exact List.nodup_append.mpr ⟨hq.nodup, List.nodup_singleton e, by
      rintro x hx y hy rfl
      rw [List.mem_singleton.mp hy] at hx
      exact he h hx⟩
  · rw [hends, Function.update_self, hderef]
    refine Seg.append.mpr ⟨m.tqhLast h, hq.seg.frame fun a ha => ?_, Function.update_self _ _ _, rfl⟩
    have ha₁ : a ≠ m.tqhLast h := fun heq => hq.last_notMem (heq ▸ ha)
    have ha₂ : a ≠ .next e := fun heq => he h (next_mem_slots.mp (heq ▸ hq.seg.froms_subset ha))
    rw [Function.update_of_ne ha₁, Function.update_of_ne ha₂]
  · rw [hprev]
    refine (Back.append hq.seg).mpr ⟨hq.back.frame fun x hx => ?_, Function.update_self _ _ _, trivial⟩
    have hxe : x ≠ e := fun heq => he h (heq ▸ hx)
    exact Function.update_of_ne hxe _ _
  · rw [hends, Function.update_self, hderef, Function.update_of_ne hne.symm, Function.update_self]
  · intro x hx
    rcases List.mem_append.mp hx with hx | hx
    · exact .inl hx
    · exact .inr (List.mem_singleton.mp hx ▸ he)
  · intro a ha hmem
    have ha₁ : a ≠ m.tqhLast h := fun heq => ha (heq ▸ hlast)
    have ha₂ : a ≠ .next e := fun heq => by
      obtain ⟨h', hx⟩ := hmem e heq
      exact he h' hx
    rw [hderef, Function.update_of_ne ha₁, Function.update_of_ne ha₂]
  · intro h' hh
    rw [hends, Function.update_of_ne hh]
  · rintro x - ⟨h', hx⟩
    have hxe : x ≠ e := fun heq => he h' (heq ▸ hx)
    rw [hprev, Function.update_of_ne hxe]

theorem Rep.insertBefore {x : E} (hm : Rep m c) (he : ∀ h', e ∉ c h') (hx : c h = l ++ x :: l') :
    ∃ m', m.insertBefore x e = some m' ∧ Rep m' (Function.update c h (l ++ e :: x :: l')) := by
  have hq := hm.holds h
  rw [hx] at hq
  obtain ⟨a, hseg, hback, hget, hprev, hrest, hbrest⟩ := hq.split
  have ha := hseg.end_mem
  have hxe : x ≠ e := by
    rintro rfl
    exact he h (by simp [hx])
  have hout : ∀ y ∈ e :: x :: l', a ≠ .next y := by
    rintro y hy rfl
    have hyl : y ∈ l := next_mem_slots.mp ha
    rcases List.mem_cons.mp hy with rfl | hy
    · exact he h (by simp [hx, hyl])
    · exact (List.nodup_append.mp hq.nodup).2.2 y hyl y hy rfl
  refine ⟨{ (({ m with
      tqePrev := Function.update m.tqePrev e (some a)
      tqeNext := Function.update m.tqeNext e (.elm x) } : Tailq H E).assign a (.elm e)) with
      tqePrev := Function.update (Function.update m.tqePrev e (some a)) x (some (.next e)) }, ?_, ?_⟩
  · simp [Tailq.insertBefore, hprev, Function.update_of_ne hxe]
  generalize hm' : ({ (({ m with
      tqePrev := Function.update m.tqePrev e (some a)
      tqeNext := Function.update m.tqeNext e (.elm x) } : Tailq H E).assign a (.elm e)) with
      tqePrev := Function.update (Function.update m.tqePrev e (some a)) x (some (.next e)) } : Tailq H E) = m'
  have hderef : m'.deref = Function.update (Function.update m.deref (.next e) (.elm x)) a (.elm e) := by
    have hnext : ({ m with
        tqePrev := Function.update m.tqePrev e (some a)
        tqeNext := Function.update m.tqeNext e (.elm x) } : Tailq H E).deref =
        Function.update m.deref (.next e) (.elm x) := by
      funext b
      cases b <;> simp [deref, Function.update_apply]
    rw [← hnext, ← hm']
    exact deref_assign _ _ _
  have hprev' : m'.tqePrev = Function.update (Function.update m.tqePrev e (some a)) x (some (.next e)) := by rw [← hm']
  have hends : m'.tqhLast = m.tqhLast := by
    rw [← hm']
    exact tqhLast_assign _ _ _
  have hsame : ∀ b, b ≠ a → b ≠ .next e → m'.deref b = m.deref b := by
    intro b h₁ h₂
    rw [hderef, Function.update_of_ne h₁, Function.update_of_ne h₂]
  have hback' : ∀ y, y ≠ e → y ≠ x → m'.tqePrev y = m.tqePrev y := by
    intro y h₁ h₂
    rw [hprev', Function.update_of_ne h₂, Function.update_of_ne h₁]
  have hnd := List.nodup_append.mp hq.nodup
  have hxl' : x ∉ l' := (List.nodup_cons.mp hnd.2.1).1
  have hel : ∀ y ∈ l ++ x :: l', y ≠ e := fun y hy heq => he h (by rw [hx]; exact heq ▸ hy)
  have hsplit : ∀ y, y ∈ l ++ e :: x :: l' ↔ y = e ∨ y ∈ l ++ x :: l' := by
    intro y
    simp only [List.mem_append, List.mem_cons]
    tauto
  refine hm.update ⟨?_, ?_, ?_, ?_⟩ ?_ ?_ ?_ ?_
  · rw [List.nodup_middle, List.nodup_cons]
    exact ⟨fun hmem => he h (by rwa [hx]), hq.nodup⟩
  · rw [hends]
    refine Seg.append.mpr ⟨a, hseg.frame fun b hb => hsame b ?_ ?_, ?_, ?_, hrest.frame fun b hb => hsame b ?_ ?_⟩
    · rintro rfl
      exact hseg.end_notMem (nodup_slots hnd.1) hb
    · rintro rfl
      exact hel e (List.mem_append_left _ (next_mem_slots.mp (hseg.froms_subset hb))) rfl
    · rw [hderef, Function.update_self]
    · rw [hderef, Function.update_of_ne (hout e List.mem_cons_self).symm, Function.update_self]
    · obtain ⟨y, hy, rfl⟩ := List.mem_map.mp (show b ∈ (x :: l').map Slot.next from hrest.froms_subset hb)
      exact (hout y (List.mem_cons_of_mem e hy)).symm
    · obtain ⟨y, hy, rfl⟩ := List.mem_map.mp (show b ∈ (x :: l').map Slot.next from hrest.froms_subset hb)
      exact fun heq => hel y (List.mem_append_right _ hy) (Slot.next.inj heq)
  · have hseg' : Seg .next m.deref (.first h) l a := hseg
    refine (Back.append hseg').mpr ⟨hback.frame fun y hy => hback' y ?_ ?_, ?_, ?_, hbrest.frame fun y hy => hback' y ?_ ?_⟩
    · exact hel y (List.mem_append_left _ hy)
    · rintro rfl
      exact hnd.2.2 y hy y List.mem_cons_self rfl
    · rw [hprev', Function.update_of_ne hxe.symm, Function.update_self]
    · rw [hprev', Function.update_self]
    · exact hel y (List.mem_append_right _ (List.mem_cons_of_mem x hy))
    · rintro rfl
      exact hxl' hy
  · have hlast : m.tqhLast h ∈ (x :: l').map Slot.next := hrest.end_mem
    obtain ⟨y, hy, hyl⟩ := List.mem_map.mp hlast
    rw [hends, ← hyl, hsame, hyl]
    · exact hq.last
    · exact (hout y (List.mem_cons_of_mem e hy)).symm
    · exact fun heq => hel y (List.mem_append_right _ hy) (Slot.next.inj heq)
  · intro y hy
    rcases (hsplit y).mp hy with rfl | hy
    · exact .inr he
    · exact .inl (by rwa [hx])
  · intro b hb hmem
    refine hsame b ?_ fun heq => ?_
    · rintro rfl
      refine hb ?_
      rw [hx]
      rcases List.mem_cons.mp ha with rfl | ha
      · simp
      · obtain ⟨y, hy, rfl⟩ := List.mem_map.mp ha
        simp [hy]
    · obtain ⟨h', hx'⟩ := hmem e heq
      exact he h' hx'
  · exact fun h' _ => by rw [hends]
  · rintro y hy ⟨h', hy'⟩
    refine hback' y (fun heq => he h' (heq ▸ hy')) fun heq => hy ?_
    rw [hx, heq]
    exact List.mem_append_right _ List.mem_cons_self

theorem Rep.remove (hm : Rep m c) (hx : c h = l ++ e :: l') :
    ∃ m', m.remove h e = some m' ∧ Rep m' (Function.update c h (l ++ l')) := by
  have hq := hm.holds h
  rw [hx] at hq
  obtain ⟨a, hseg, hback, hget, hprev, hrest, hbrest⟩ := hq.split
  have ha := hseg.end_mem
  have hnd := List.nodup_append.mp hq.nodup
  have hout : ∀ y ∈ e :: l', a ≠ .next y := by
    rintro y hy rfl
    exact hnd.2.2 y (next_mem_slots.mp ha) y hy rfl
  have hsub : (l ++ l').Sublist (l ++ e :: l') := (List.Sublist.refl l).append (List.sublist_cons_self e l')
  have hslots : a ∈ (Slot.first h :: (c h).map Slot.next : List (Slot H E)) := by
    rw [hx]
    rcases List.mem_cons.mp ha with rfl | ha
    · simp
    · obtain ⟨y, hy, rfl⟩ := List.mem_map.mp ha
      simp [hy]
  have hhead : ∀ (p : Ptr E) b, b ∈ froms Slot.next (Slot.first h) l → Function.update m.deref a p b = m.deref b := by
    intro p b hb
    refine Function.update_of_ne ?_ _ _
    rintro rfl
    exact hseg.end_notMem (nodup_slots hnd.1) hb
  have hmem : ∀ y ∈ l ++ l', y ∈ c h ∨ ∀ h', y ∉ c h' := fun y hy => .inl (by rw [hx]; exact hsub.subset hy)
  cases l' with
  | nil =>
    have hend : Slot.next e = m.tqhLast h := hrest
    have hnull : m.tqeNext e = .null := hq.next_nil
    refine ⟨({ m with tqhLast := Function.update m.tqhLast h a } : Tailq H E).assign a .null,
      by simp [Tailq.remove, hprev, hnull], ?_⟩
    rw [List.append_nil] at hmem ⊢
    have hends : ({ m with tqhLast := Function.update m.tqhLast h a } : Tailq H E).tqhLast h = a :=
      Function.update_self _ _ _
    refine hm.update ⟨hnd.1, ?_, ?_, ?_⟩ hmem ?_ ?_ ?_
    · rw [tqhLast_assign, deref_assign, hends]
      exact hseg.frame fun b hb => hhead .null b hb
    · rw [tqePrev_assign]
      exact hback
    · rw [tqhLast_assign, deref_assign, hends, Function.update_self]
    · intro b hb _
      rw [deref_assign]
      refine Function.update_of_ne ?_ _ _
      rintro rfl
      exact hb hslots
    · intro h' hne
      rw [tqhLast_assign]
      exact Function.update_of_ne hne _ _
    · exact fun y _ _ => by rw [tqePrev_assign]
  | cons x l' =>
    have hnext : m.tqeNext e = .elm x := hq.next_cons
    have hxl' : x ∉ l' := (List.nodup_cons.mp (List.nodup_cons.mp hnd.2.1).2).1
    refine ⟨({ m with tqePrev := Function.update m.tqePrev x (some a) } : Tailq H E).assign a (.elm x),
      by simp [Tailq.remove, hprev, hnext], ?_⟩
    refine hm.update ⟨hq.nodup.sublist hsub, ?_, ?_, ?_⟩ hmem ?_ ?_ ?_
    · rw [tqhLast_assign, deref_assign]
      refine Seg.append.mpr ⟨a, hseg.frame fun b hb => hhead (.elm x) b hb, Function.update_self _ _ _,
        hrest.2.frame fun b hb => ?_⟩
      obtain ⟨y, hy, rfl⟩ := List.mem_map.mp (show b ∈ (x :: l').map Slot.next from hrest.2.froms_subset hb)
      exact Function.update_of_ne (hout y (List.mem_cons_of_mem e hy)).symm _ _
    · rw [tqePrev_assign]
      refine (Back.append hseg).mpr ⟨hback.frame fun y hy => ?_, Function.update_self _ _ _,
        hbrest.2.frame fun y hy => ?_⟩
      · have hyx : y ≠ x := fun heq => hnd.2.2 y hy x (by simp) heq
        exact Function.update_of_ne hyx _ _
      · have hyx : y ≠ x := fun heq => hxl' (heq ▸ hy)
        exact Function.update_of_ne hyx _ _
    · have hlast : m.tqhLast h ∈ (x :: l').map Slot.next := hrest.2.end_mem
      obtain ⟨y, hy, hyl⟩ := List.mem_map.mp hlast
      rw [tqhLast_assign, deref_assign, ← hyl, Function.update_of_ne (hout y (List.mem_cons_of_mem e hy)).symm]
      rw [show ({ m with tqePrev := Function.update m.tqePrev x (some a) } : Tailq H E).deref = m.deref from rfl, hyl]
      exact hq.last
    · intro b hb _
      rw [deref_assign]
      refine Function.update_of_ne ?_ _ _
      rintro rfl
      exact hb hslots
    · exact fun h' _ => by rw [tqhLast_assign]
    · rintro y hy -
      rw [tqePrev_assign]
      have hyx : y ≠ x := by
        rintro rfl
        exact hy (by rw [hx]; simp)
      exact Function.update_of_ne hyx _ _

theorem Rep.remove_of_mem (hm : Rep m c) (he : e ∈ c h) :
    ∃ m', m.remove h e = some m' ∧ Rep m' (Function.update c h ((c h).erase e)) := by
  obtain ⟨l, l', hx⟩ := List.append_of_mem he
  have hnd := (hm.holds h).nodup
  have herase : (c h).erase e = l ++ l' := by
    rw [hx] at hnd ⊢
    rw [List.erase_append_right _ fun hel => (List.nodup_append.mp hnd).2.2 e hel e List.mem_cons_self rfl,
      List.erase_cons_head]
  rw [herase]
  exact hm.remove hx

theorem Rep.concat {h₁ h₂ : H} (hm : Rep m c) (hne : h₁ ≠ h₂) :
    ∃ m', m.concat h₁ h₂ = some m' ∧ Rep m' (Function.update (Function.update c h₁ (c h₁ ++ c h₂)) h₂ []) := by
  have hq₁ := hm.holds h₁
  have hq₂ := hm.holds h₂
  cases hc : c h₂ with
  | nil =>
    refine ⟨m, by simp [Tailq.concat, hq₂.empty_eq, hc], ?_⟩
    have hsame : Function.update (Function.update c h₁ (c h₁ ++ [])) h₂ [] = c := by
      rw [List.append_nil, Function.update_eq_self, ← hc, Function.update_eq_self]
    rwa [hsame]
  | cons x l₂ =>
    rw [hc] at hq₂
    have hfirst := hq₂.first_cons
    have hlast₁ := hq₁.seg.end_mem
    have hlast₂ : m.tqhLast h₂ ∈ (x :: l₂).map Slot.next := hq₂.seg.2.end_mem
    have hsep : ∀ y ∈ c h₁, y ∉ x :: l₂ := fun y hy hy' => hne (hm.apart hy (hc ▸ hy'))
    have hne₁ : m.tqhLast h₁ ≠ .first h₂ := by
      intro heq
      rw [heq, first_mem_slots] at hlast₁
      exact hne hlast₁.symm
    have hout : ∀ y ∈ x :: l₂, Slot.next y ≠ m.tqhLast h₁ := by
      intro y hy heq
      rw [← heq, next_mem_slots] at hlast₁
      exact hsep y hlast₁ hy
    have hfirst' : (m.assign (m.tqhLast h₁) (.elm x)).tqhFirst h₂ = .elm x := by
      rw [tqhFirst_eq_deref, deref_assign, Function.update_of_ne hne₁.symm]
      exact hfirst
    let m' : Tailq H E := (({ m.assign (m.tqhLast h₁) (.elm x) with
        tqePrev := Function.update m.tqePrev x (some (m.tqhLast h₁))
        tqhLast := Function.update m.tqhLast h₁ (m.tqhLast h₂) } : Tailq H E)).init h₂
    refine ⟨m', ?_, ?_⟩
    · simp [Tailq.concat, hq₂.empty_eq, hfirst, hfirst', m']
    have hderef : m'.deref = Function.update (Function.update m.deref (m.tqhLast h₁) (.elm x)) (.first h₂) .null := by
      rw [← deref_assign]
      exact deref_init _ _
    have hprev : m'.tqePrev = Function.update m.tqePrev x (some (m.tqhLast h₁)) := rfl
    have hends : m'.tqhLast = Function.update (Function.update m.tqhLast h₁ (m.tqhLast h₂)) h₂ (.first h₂) := rfl
    have hsame : ∀ b, b ≠ m.tqhLast h₁ → b ≠ .first h₂ → m'.deref b = m.deref b := by
      intro b hb₁ hb₂
      rw [hderef, Function.update_of_ne hb₂, Function.update_of_ne hb₁]
    have htail : ∀ b ∈ (x :: l₂).map Slot.next, m'.deref b = m.deref b := by
      intro b hb
      obtain ⟨y, hy, rfl⟩ := List.mem_map.mp hb
      exact hsame _ (hout y hy) (by simp)
    have hnd₂ := List.nodup_cons.mp hq₂.nodup
    have hnew₁ : Holds m' h₁ (c h₁ ++ x :: l₂) := by
      refine ⟨?_, ?_, ?_, ?_⟩
      · refine List.nodup_append.mpr ⟨hq₁.nodup, hq₂.nodup, ?_⟩
        rintro y hy z hz rfl
        exact hsep y hy hz
      · rw [hends, Function.update_of_ne hne, Function.update_self]
        refine Seg.append.mpr ⟨m.tqhLast h₁, hq₁.seg.frame fun b hb => hsame b ?_ ?_, ?_,
          hq₂.seg.2.frame fun b hb => htail b (hq₂.seg.2.froms_subset hb)⟩
        · rintro rfl
          exact hq₁.last_notMem hb
        · rintro rfl
          exact hne (first_mem_slots.mp (hq₁.seg.froms_subset hb)).symm
        · rw [hderef, Function.update_of_ne hne₁, Function.update_self]
      · rw [hprev]
        refine (Back.append hq₁.seg).mpr ⟨hq₁.back.frame fun y hy => ?_, Function.update_self _ _ _,
          hq₂.back.2.frame fun y hy => ?_⟩
        · have hyx : y ≠ x := fun heq => hsep y hy (heq ▸ List.mem_cons_self)
          exact Function.update_of_ne hyx _ _
        · have hyx : y ≠ x := fun heq => hnd₂.1 (heq ▸ hy)
          exact Function.update_of_ne hyx _ _
      · rw [hends, Function.update_of_ne hne, Function.update_self, htail _ hlast₂]
        exact hq₂.last
    have hnew₂ : Holds m' h₂ [] := by
      refine ⟨List.nodup_nil, ?_, trivial, ?_⟩
      · rw [hends, Function.update_self]
        rfl
      · rw [hends, Function.update_self, hderef, Function.update_self]
    refine ⟨fun h' => ?_, fun {k k' y} hy hy' => ?_⟩
    · by_cases hh₂ : h' = h₂
      · subst hh₂
        rwa [Function.update_self]
      rw [Function.update_of_ne hh₂]
      by_cases hh₁ : h' = h₁
      · subst hh₁
        rwa [Function.update_self]
      rw [Function.update_of_ne hh₁]
      refine (hm.holds h').frame (fun b hb => hsame b ?_ ?_) ?_ fun y hy => ?_
      · rintro rfl
        rcases List.mem_cons.mp hb with heq | hb
        · rw [heq, first_mem_slots] at hlast₁
          exact hh₁ hlast₁
        · obtain ⟨y, hy, heq⟩ := List.mem_map.mp hb
          rw [← heq, next_mem_slots] at hlast₁
          exact hh₁ (hm.apart hy hlast₁)
      · rintro rfl
        exact hh₂ (first_mem_slots.mp hb).symm
      · rw [hends, Function.update_of_ne hh₂, Function.update_of_ne hh₁]
      · have hyx : y ≠ x := by
          rintro rfl
          exact hh₂ (hm.apart hy (hc ▸ List.mem_cons_self))
        exact Function.update_of_ne hyx _ _
    · -- the elements of `h₂` are now those of `h₁`
      have hwhere : ∀ {k}, y ∈ Function.update (Function.update c h₁ (c h₁ ++ x :: l₂)) h₂ [] k →
          k = h₁ ∧ (y ∈ c h₁ ∨ y ∈ c h₂) ∨ k ≠ h₁ ∧ k ≠ h₂ ∧ y ∈ c k := by
        intro k hk
        simp only [Function.update_apply] at hk
        split_ifs at hk with hk₂ hk₁
        · cases hk
        · exact .inl ⟨hk₁, by rw [hc]; exact List.mem_append.mp hk⟩
        · exact .inr ⟨hk₁, hk₂, hk⟩
      rcases hwhere hy with ⟨rfl, hold⟩ | ⟨hk₁, hk₂, hold⟩ <;>
        rcases hwhere hy' with ⟨rfl, hold'⟩ | ⟨hk₁', hk₂', hold'⟩
      · rfl
      · rcases hold with hold | hold
        · exact hm.apart hold hold'
        · exact absurd (hm.apart hold' hold) hk₂'
      · rcases hold' with hold' | hold'
        · exact hm.apart hold hold'
        · exact absurd (hm.apart hold hold') hk₂
      · exact hm.apart hold hold'

theorem Rep.entryEmpty_insertTail {x : E} (hm : Rep m c) (hx : x ∉ c h) (hne : x ≠ e) :
    (m.insertTail h e).entryEmpty x = m.entryEmpty x := by
  have hlast : m.tqhLast h ≠ .next x := by
    intro heq
    have hmem := (hm.holds h).seg.end_mem
    rw [heq, next_mem_slots] at hmem
    exact hx hmem
  have hnext : (m.insertTail h e).tqeNext x = m.tqeNext x := by
    unfold Tailq.insertTail
    cases hl : m.tqhLast h with
    | first h' => simp [assign, hl, Function.update_of_ne hne]
    | next y =>
      have hxy : x ≠ y := fun heq => hlast (by rw [hl, heq])
      simp [assign, hl, Function.update_of_ne hne, Function.update_of_ne hxy]
  have hprev : (m.insertTail h e).tqePrev x = m.tqePrev x := by
    rw [show (m.insertTail h e).tqePrev = _ from tqePrev_assign _ _ _]
    exact Function.update_of_ne hne _ _
  rw [entryEmpty, entryEmpty, hnext, hprev]

theorem Rep.entryEmpty_remove {x : E} (hm : Rep m c) (he : e ∈ c h) (hm' : m.remove h e = some m') (hx : x ∉ c h) :
    m'.entryEmpty x = m.entryEmpty x := by
  obtain ⟨l, l', hc⟩ := List.append_of_mem he
  have hq := hm.holds h
  rw [hc] at hq hx
  obtain ⟨a, hseg, -, -, hprev, -, -⟩ := hq.split
  have ha : a ≠ .next x := by
    rintro rfl
    exact hx (List.mem_append_left _ (next_mem_slots.mp hseg.end_mem))
  have hassign : ∀ (m₁ : Tailq H E) (p : Ptr E), (m₁.assign a p).tqeNext x = m₁.tqeNext x := by
    intro m₁ p
    cases a with
    | first h' => rfl
    | next y => exact Function.update_of_ne (fun heq => ha (by rw [heq])) _ _
  cases l' with
  | nil =>
    simp only [Tailq.remove, hprev, hq.next_nil, Option.bind_eq_bind, Option.bind_some, Option.some.injEq] at hm'
    rw [← hm', entryEmpty, entryEmpty, hassign, tqePrev_assign]
  | cons y l' =>
    simp only [Tailq.remove, hprev, hq.next_cons, Option.bind_eq_bind, Option.bind_some, Option.some.injEq] at hm'
    have hxy : x ≠ y := fun heq => hx (by simp [heq])
    rw [← hm', entryEmpty, entryEmpty, hassign, tqePrev_assign]
    simp only [Function.update_of_ne hxy]

omit [DecidableEq H] in
theorem Rep.entryInit (hm : Rep m c) (he : ∀ h', e ∉ c h') : Rep (m.entryInit e) c := by
  refine ⟨fun h => (hm.holds h).frame (fun a ha => ?_) rfl fun x hx => ?_, hm.apart⟩
  · cases a with
    | first h' => rfl
    | next x =>
      have hxe : x ≠ e := fun heq => he h (heq ▸ next_mem_slots.mp ha)
      exact Function.update_of_ne hxe _ _
  · have hxe : x ≠ e := fun heq => he h (heq ▸ hx)
    exact Function.update_of_ne hxe _ _

omit [DecidableEq H] in
@[simp] theorem entryEmpty_entryInit_self (m : Tailq H E) (e : E) : (m.entryInit e).entryEmpty e = true := by
  simp [entryEmpty, Tailq.entryInit]

omit [DecidableEq H] in
theorem entryEmpty_entryInit_of_ne {x : E} (m : Tailq H E) (hx : x ≠ e) :
    (m.entryInit e).entryEmpty x = m.entryEmpty x := by
  simp [entryEmpty, Tailq.entryInit, Function.update_of_ne hx]

end

theorem Rep.of_init (hfirst : ∀ h, m.tqhFirst h = .null) (hlast : ∀ h, m.tqhLast h = .first h) :
    Rep m fun _ => [] where
  holds h := ⟨List.nodup_nil, (hlast h).symm, trivial, by rw [hlast]; exact hfirst h⟩
  apart h := by cases h

/-- What holds between the rounds of `TAILQ_FOREACH_SAFE`: the element that the loop has read ahead is still the next
one to visit when its round starts. -/
theorem foreachSafe_rule {σ : Type} {links : σ → Tailq H E} {body : E → σ → Option σ} {I : List E → σ → Prop}
    (hnext : ∀ {e rest s}, I (e :: rest) s → (links s).tqeNext e = rest.head?.elim .null .elm)
    (hbody : ∀ {e rest s}, I (e :: rest) s → ∃ s', body e s = some s' ∧ I rest s') :
    ∀ (rest : List E) {fuel : Nat} {s : σ}, rest.length ≤ fuel → I rest s →
      ∃ s', foreachSafe links body fuel (rest.head?.elim .null .elm) s = some s' ∧ I [] s' := by
  intro rest
  induction rest with
  | nil =>
    intro fuel s _ hI
    exact ⟨s, by simp [foreachSafe], hI⟩
  | cons e rest ih =>
    intro fuel s hfuel hI
    obtain ⟨fuel, rfl⟩ : ∃ n, fuel = n + 1 := ⟨fuel - 1, by simp at hfuel; omega⟩
    obtain ⟨s₁, hs₁, hI₁⟩ := hbody hI
    have hrest : rest.length ≤ fuel := by simpa using hfuel
    obtain ⟨s₂, hs₂, hI₂⟩ := ih hrest hI₁
    refine ⟨s₂, ?_, hI₂⟩
    simpa [foreachSafe, hnext hI, hs₁] using hs₂

end Tailq

end Csf
