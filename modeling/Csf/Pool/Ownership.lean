import Csf.Lib.Owners
import Csf.Pool.Model
import Mathlib.Data.List.Basic

/-!
# Who holds the blocks of the pool

As long as the sizes that callers ask for are positive `int`s, every block is held by one caller or by the list of
one size class, is allocated, and was allocated for the size that its holder takes it to have. This needs nothing of
the counters, so that it also holds when the system allocator fails. `AllocCase` lists the ways through `mp_alloc`; what
is proved about the function goes through them.
-/

namespace Csf

open Lib

/-- The header of a block that was allocated for `size` bytes. -/
def entry (size : Int64) : MemEntry := ⟨size, (sizeofMemEntry + size.toUInt64).toNat⟩

theorem capacity_entry {size : Int64} (h : 0 < size) : (entry size).capacity = size.toInt.toNat := by
  have hpos := Int64.lt_iff_toInt_lt.mp h
  have hlt := size.toInt_lt
  have hnat : size.toUInt64.toNat = size.toInt.toNat := Int64.toNat_toUInt64_of_le (Int64.le_of_lt h)
  simp only [MemEntry.capacity, entry, UInt64.toNat_add, hnat, sizeofMemEntry]
  rw [show (0 : Int64).toInt = 0 from rfl] at hpos
  rw [show (16 : UInt64).toNat = 16 from rfl]
  omega

theorem toInt32_toInt64 (key : Int32) : key.toInt64.toInt32 = key := by
  have hle := key.le_toInt
  have hlt := key.toInt_lt
  rw [← Int32.toInt_inj, Int64.toInt_toInt32, Int32.toInt_toInt64, Int.bmod_eq_of_le] <;> omega

/-! ### Calls of the system allocator -/

/-- Only memory changed, and what was allocated is as before. -/
structure Memory (p p' : Pool) : Prop where
  frame : p' = { p with blocks := p'.blocks, heap := p'.heap, calls := p'.calls }
  kept : ∀ a ∈ p.blocks, a ∈ p'.blocks ∧ p'.heap a = p.heap a

/-- The blocks `new` were allocated for `size` bytes each. -/
structure Grown (size : Int64) (new : List Nat) (p p' : Pool) : Prop extends Memory p p' where
  nodup : new.Nodup
  fresh : ∀ a ∈ new, a ∉ p.blocks
  made : ∀ a ∈ new, a ∈ p'.blocks ∧ p'.heap a = entry size

theorem Memory.trans {p p' p'' : Pool} (h : Memory p p') (h' : Memory p' p'') : Memory p p'' where
  frame := by rw [h'.frame, h.frame]
  kept a ha := by
    obtain ⟨hin, heq⟩ := h.kept a ha
    obtain ⟨hin', heq'⟩ := h'.kept a hin
    exact ⟨hin', heq'.trans heq⟩

theorem Grown.nil (size : Int64) (p : Pool) : Grown size [] p p where
  frame := rfl
  kept _ ha := ⟨ha, rfl⟩
  nodup := List.nodup_nil
  fresh := by simp
  made := by simp

theorem Grown.trans {size : Int64} {new new' : List Nat} {p p' p'' : Pool} (h : Grown size new p p')
    (h' : Grown size new' p' p'') : Grown size (new' ++ new) p p'' where
  toMemory := h.toMemory.trans h'.toMemory
  nodup := h'.nodup.append h.nodup fun a ha' ha => h'.fresh a ha' (h.made a ha).1
  fresh a ha := by
    rcases List.mem_append.mp ha with ha' | ha
    · exact fun hin => h'.fresh a ha' (h.kept a hin).1
    · exact h.fresh a ha
  made a ha := by
    rcases List.mem_append.mp ha with ha' | ha
    · exact h'.made a ha'
    · obtain ⟨hin, heq⟩ := h.made a ha
      obtain ⟨hin', heq'⟩ := h'.kept a hin
      exact ⟨hin', heq'.trans heq⟩

theorem memory_newTreeEntry (sys : Allocator) (p : Pool) : Memory p (newTreeEntry sys p).2 := by
  unfold newTreeEntry
  split
  · exact ⟨rfl, fun a ha => ⟨ha, rfl⟩⟩
  · exact ⟨rfl, fun a ha => ⟨List.mem_cons_of_mem _ ha, rfl⟩⟩

theorem grown_newMemEntry (sys : Allocator) (size : Int64) (p : Pool) :
    Grown size (newMemEntry sys size p).1.toList p (newMemEntry sys size p).2 := by
  unfold newMemEntry
  simp only
  split
  · exact ⟨⟨rfl, fun a ha => ⟨ha, rfl⟩⟩, List.nodup_nil, by simp, by simp⟩
  · rename_i a ha
    have hfresh := sys.fresh _ _ _ _ ha
    refine ⟨⟨rfl, fun x hx => ⟨List.mem_cons_of_mem _ hx, ?_⟩⟩, by simp, by simpa using hfresh, by simp [entry]⟩
    exact Function.update_of_ne (by rintro rfl; exact hfresh hx) _ _

theorem mem_foldl_erase {a : Nat} {as l : List Nat} (hl : a ∈ l) (ha : a ∉ as) : a ∈ as.foldl List.erase l := by
  induction as generalizing l with
  | nil => exact hl
  | cons x as ih =>
    obtain ⟨hx, has⟩ := List.ne_and_not_mem_of_not_mem_cons ha
    exact ih ((List.mem_erase_of_ne hx).mpr hl) has

theorem grown_mpInitBlock {sys : Allocator} {size : Int64} {n : Nat} {e e' : TreeEntry} {p p' : Pool}
    (h : mpInitBlock sys size n e p = (true, e', p')) :
    ∃ new, Grown size new p p' ∧ new.length = n ∧
      e' = { e with totalItem := e.totalItem + UInt32.ofNat n, memHead := new ++ e.memHead } := by
  induction n generalizing e p with
  | zero =>
    obtain ⟨-, rfl, rfl⟩ := h
    exact ⟨[], .nil size _, rfl, by simp⟩
  | succ n ih =>
    have hgrown := grown_newMemEntry sys size p
    rw [mpInitBlock] at h
    generalize newMemEntry sys size p = out at h hgrown
    obtain ⟨r, p₁⟩ := out
    cases r with
    | none => cases h
    | some a =>
      obtain ⟨new, hnew, hlen, rfl⟩ := ih h
      refine ⟨new ++ [a], hgrown.trans hnew, by simp [hlen], ?_⟩
      simp only [List.append_assoc, List.singleton_append, TreeEntry.mk.injEq, and_true, true_and]
      rw [UInt32.ofNat_add, UInt32.add_assoc, UInt32.add_comm (UInt32.ofNat n)]
      rfl

theorem memory_mpInitBlock {sys : Allocator} {size : Int64} {n : Nat} {e e' : TreeEntry} {p p' : Pool}
    (h : mpInitBlock sys size n e p = (false, e', p')) :
    e'.memHead = [] ∧ e'.memSize = e.memSize ∧
      p' = { p with blocks := p'.blocks, heap := p'.heap, calls := p'.calls } ∧
      ∀ a ∈ p.blocks, a ∉ e.memHead → a ∈ p'.blocks ∧ p'.heap a = p.heap a := by
  induction n generalizing e p with
  | zero => cases h
  | succ n ih =>
    have hgrown := grown_newMemEntry sys size p
    rw [mpInitBlock] at h
    generalize newMemEntry sys size p = out at h hgrown
    obtain ⟨r, p₁⟩ := out
    simp only at hgrown
    cases r with
    | none =>
      obtain ⟨-, rfl, rfl⟩ := h
      refine ⟨rfl, rfl, ?_, fun a ha hnot => ?_⟩
      · rw [hgrown.frame]
        rfl
      · obtain ⟨hin, heq⟩ := hgrown.kept a ha
        exact ⟨mem_foldl_erase hin hnot, heq⟩
    | some b =>
      obtain ⟨hhead, hsize, hframe, hkept⟩ := ih h
      refine ⟨hhead, hsize, ?_, fun a ha hnot => ?_⟩
      · rw [hframe, hgrown.frame]
      · obtain ⟨hin, heq⟩ := hgrown.kept a ha
        have hne : a ≠ b := by
          rintro rfl
          exact hgrown.fresh a (by simp) ha
        obtain ⟨hin', heq'⟩ := hkept a hin (by simp [hne, hnot])
        exact ⟨hin', heq'.trans heq⟩

namespace Memory

variable {p p' : Pool}

theorem tree (h : Memory p p') : p'.tree = p.tree := by rw [h.frame]

theorem live (h : Memory p p') : p'.live = p.live := by rw [h.frame]

theorem initialized (h : Memory p p') : p'.initialized = p.initialized := by rw [h.frame]

theorem preAllocNum (h : Memory p p') : p'.preAllocNum = p.preAllocNum := by rw [h.frame]

theorem of_newTreeEntry {sys : Allocator} {ok : Bool} (h : newTreeEntry sys p = (ok, p')) : Memory p p' := by
  have hmem := memory_newTreeEntry sys p
  rwa [h] at hmem

theorem of_failed {sys : Allocator} {size : Int64} {n : Nat} {e e' : TreeEntry}
    (h : mpInitBlock sys size n e p = (false, e', p')) (hnil : e.memHead = []) : Memory p p' := by
  obtain ⟨-, -, hframe, hkept⟩ := memory_mpInitBlock h
  exact ⟨hframe, fun a ha => hkept a ha (hnil ▸ List.not_mem_nil)⟩

end Memory

/-! ### The ways through `mp_alloc` -/

/-- How `mp_alloc` comes to its result, for a pool that is initialized and a positive size. -/
inductive AllocCase (sys : Allocator) (size : Int64) (p : Pool) : Option Nat × Pool → Prop
  /-- no memory for the entry of a new class -/
  | noEntry {p₁ : Pool} (hkey : p.tree size.toInt32 = none) (hentry : newTreeEntry sys p = (false, p₁)) :
    AllocCase sys size p (none, p₁)
  /-- no memory for the blocks of a new class -/
  | noBlocks {p₁ p₂ : Pool} {e : TreeEntry} (hkey : p.tree size.toInt32 = none)
    (hentry : newTreeEntry sys p = (true, p₁))
    (hblock : mpInitBlock sys size (p.preAllocNum - 1).toNat ⟨size.toInt32, 0, []⟩ p₁ = (false, e, p₂)) :
    AllocCase sys size p (none, p₂)
  /-- a new class -/
  | created {p₁ p₂ : Pool} {e : TreeEntry} (hkey : p.tree size.toInt32 = none)
    (hentry : newTreeEntry sys p = (true, p₁))
    (hblock : mpInitBlock sys size (p.preAllocNum - 1).toNat ⟨size.toInt32, 0, []⟩ p₁ = (true, e, p₂)) :
    AllocCase sys size p (newMemEntry sys size (p₂.setClass size.toInt32 e))
  /-- no memory for the blocks of a class that has run out of them -/
  | notRefilled {e₀ e : TreeEntry} {p₁ : Pool} (hkey : p.tree size.toInt32 = some e₀) (hzero : e₀.totalItem = 0)
    (hblock : mpInitBlock sys e₀.memSize.toInt64 (p.preAllocNum - 1).toNat { e₀ with memHead := [] } p =
      (false, e, p₁)) : AllocCase sys size p (none, p₁.setClass size.toInt32 e)
  | refilled {e₀ e : TreeEntry} {p₁ : Pool} (hkey : p.tree size.toInt32 = some e₀) (hzero : e₀.totalItem = 0)
    (hblock : mpInitBlock sys e₀.memSize.toInt64 (p.preAllocNum - 1).toNat { e₀ with memHead := [] } p =
      (true, e, p₁)) : AllocCase sys size p (newMemEntry sys size (p₁.setClass size.toInt32 e))
  | popped {e : TreeEntry} {a : Nat} {rest : List Nat} (hkey : p.tree size.toInt32 = some e) (hzero : e.totalItem ≠ 0)
    (hhead : e.memHead = a :: rest) :
    AllocCase sys size p (some a, p.setClass size.toInt32 { e with totalItem := e.totalItem - 1, memHead := rest })
  /-- `alloc: FATAL ERROR!` -/
  | stuck {e : TreeEntry} (hkey : p.tree size.toInt32 = some e) (hzero : e.totalItem ≠ 0) (hhead : e.memHead = []) :
    AllocCase sys size p (none, { p with printed := .alloc :: p.printed })

theorem mpAlloc_cases (sys : Allocator) (size : Int64) (p : Pool) :
    (p.initialized = false ∨ size ≤ 0) ∧ mpAlloc sys size p = (none, p) ∨
      (p.initialized = true ∧ 0 < size) ∧ AllocCase sys size p (mpAlloc sys size p) := by
  unfold mpAlloc
  split_ifs with hinit hsize
  · exact .inl ⟨.inl hinit, rfl⟩
  · exact .inl ⟨.inr hsize, rfl⟩
  refine .inr ⟨⟨by simpa using hinit, Int64.not_le.mp hsize⟩, ?_⟩
  cases hkey : p.tree size.toInt32 with
  | none =>
    simp only
    rcases hentry : newTreeEntry sys p with ⟨ok, p₁⟩
    have hnum := (Memory.of_newTreeEntry hentry).preAllocNum
    cases ok with
    | false => exact .noEntry hkey hentry
    | true =>
      simp only [hnum]
      rcases hblock : mpInitBlock sys size (p.preAllocNum - 1).toNat ⟨size.toInt32, 0, []⟩ p₁ with ⟨ok, e, p₂⟩
      cases ok with
      | false => exact .noBlocks hkey hentry hblock
      | true => exact .created hkey hentry hblock
  | some e =>
    simp only
    split_ifs with hzero
    · rcases hblock : mpInitBlock sys e.memSize.toInt64 (p.preAllocNum - 1).toNat { e with memHead := [] } p with
        ⟨ok, e', p₁⟩
      cases ok with
      | false => exact .notRefilled hkey hzero hblock
      | true => exact .refilled hkey hzero hblock
    · cases hhead : e.memHead with
      | nil => exact .stuck hkey hzero hhead
      | cons a rest => exact .popped hkey hzero hhead

theorem trim_append (f total : UInt32) (l : List Nat) : (trim f total l).1 ++ (trim f total l).2.2 = l := by
  induction l generalizing total with
  | nil => rfl
  | cons a l ih =>
    rw [trim]
    split_ifs
    · rfl
    · exact congrArg (a :: ·) (ih _)

/-! ### The invariant -/

/-- Who can hold a block: a caller, or the list of one size class. -/
inductive Holder
  | caller
  | pool (key : Int32)
  deriving DecidableEq

def owned (p : Pool) : Holder → List Nat
  | .caller => p.live.map Prod.fst
  | .pool key =>
    match p.tree key with
    | none => []
    | some e => e.memHead

/-- Every block has one holder at most, and is allocated. -/
structure OwnInv (p : Pool) : Prop where
  separate : Separate (owned p)
  allocated : ∀ o, owned p o ⊆ p.blocks

theorem setClass_tree_self (p : Pool) (key : Int32) (e : TreeEntry) : (p.setClass key e).tree key = some e :=
  Function.update_self key _ _

theorem setClass_tree_of_ne (p : Pool) {key k : Int32} (e : TreeEntry) (hk : k ≠ key) :
    (p.setClass key e).tree k = p.tree k :=
  Function.update_of_ne hk _ _

theorem owned_setClass (p : Pool) (key : Int32) (e : TreeEntry) :
    owned (p.setClass key e) = Function.update (owned p) (.pool key) e.memHead := by
  funext o
  cases o with
  | caller => rfl
  | pool k =>
    by_cases hk : k = key
    · subst hk
      rw [Function.update_self, owned, setClass_tree_self]
    · rw [Function.update_of_ne (by simpa using hk), owned, owned, setClass_tree_of_ne p e hk]

theorem owned_live (p : Pool) (l : List (Nat × Nat)) :
    owned { p with live := l } = Function.update (owned p) .caller (l.map Prod.fst) := by
  funext o
  cases o with
  | caller => rfl
  | pool k => rfl

theorem owned_pool {p : Pool} {key : Int32} {e : TreeEntry} (h : p.tree key = some e) :
    owned p (.pool key) = e.memHead := by
  rw [owned, h]

namespace OwnInv

variable {p p' : Pool}

theorem init : OwnInv Pool.init where
  separate := ⟨fun o => by cases o <;> simp [owned, Pool.init], fun {o o' x} h => by cases o <;> simp [owned, Pool.init] at h⟩
  allocated o := by cases o <;> simp [owned, Pool.init]

theorem memory (h : OwnInv p) (hm : Memory p p') : OwnInv p' := by
  have howned : owned p' = owned p := by rw [hm.frame]; rfl
  refine ⟨howned ▸ h.separate, fun o a ha => ?_⟩
  rw [howned] at ha
  exact (hm.kept a (h.allocated o ha)).1

theorem update (h : OwnInv p) {o : Holder} (new : List Nat) {l : List Nat} (hl : l.Sublist (owned p o))
    (hnew : new.Nodup) (hfree : ∀ a ∈ new, ∀ o', a ∉ owned p o') (hblocks : ∀ a ∈ new, a ∈ p.blocks)
    (howned : owned p' = Function.update (owned p) o (new ++ l)) (hsame : p'.blocks = p.blocks) : OwnInv p' := by
  refine ⟨howned ▸ h.separate.update o new hl hnew hfree, fun o' a ha => ?_⟩
  rw [howned] at ha
  rw [hsame]
  by_cases ho : o' = o
  · subst ho
    rw [Function.update_self, List.mem_append] at ha
    exact ha.elim (hblocks a) fun ha => h.allocated _ (hl.subset ha)
  · rw [Function.update_of_ne ho] at ha
    exact h.allocated o' ha

theorem setClass (h : OwnInv p) {key : Int32} (new : List Nat) {e : TreeEntry} {l : List Nat}
    (hhead : e.memHead = new ++ l) (hl : l.Sublist (owned p (.pool key))) (hnew : new.Nodup)
    (hfree : ∀ a ∈ new, ∀ o, a ∉ owned p o) (hblocks : ∀ a ∈ new, a ∈ p.blocks) : OwnInv (p.setClass key e) :=
  h.update new hl hnew hfree hblocks (by rw [owned_setClass, hhead]) rfl

theorem give (h : OwnInv p) {a : Nat} (hfree : ∀ o, a ∉ owned p o) (hblock : a ∈ p.blocks) (n : Nat) :
    OwnInv { p with live := (a, n) :: p.live } :=
  h.update [a] (List.Sublist.refl _) (by simp) (by simpa using hfree) (by simpa using hblock) (owned_live p _) rfl

theorem take (h : OwnInv p) (a : Nat) : OwnInv { p with live := p.live.filter (·.1 ≠ a) } :=
  h.update [] (List.filter_sublist.map Prod.fst) List.nodup_nil (by simp) (by simp) (owned_live p _) rfl

theorem sysFree (h : OwnInv p) {as : List Nat} (hfree : ∀ a ∈ as, ∀ o, a ∉ owned p o) : OwnInv (sysFree as p) where
  separate := h.separate
  allocated o a ha := mem_foldl_erase (h.allocated o ha) fun has => hfree a has o ha

theorem fill (h : OwnInv p) (key : Int32) {size : Int64} {new : List Nat} (hgrown : Grown size new p p') {e : TreeEntry}
    (hhead : e.memHead = new) : OwnInv (p'.setClass key e) := by
  have howned : owned p' = owned p := by rw [hgrown.frame]; rfl
  refine (h.memory hgrown.toMemory).setClass new (hhead.trans (List.append_nil new).symm) (List.nil_sublist _)
    hgrown.nodup (fun a ha o ho => ?_) fun a ha => (hgrown.made a ha).1
  rw [howned] at ho
  exact hgrown.fresh a ha (h.allocated o ho)

theorem free_of_setClass (h : OwnInv p) {key : Int32} {e e' : TreeEntry} (hkey : p.tree key = some e) {a : Nat}
    (ha : a ∈ e.memHead) (hnot : a ∉ e'.memHead) (o : Holder) : a ∉ owned (p.setClass key e') o := by
  rw [owned_setClass]
  exact h.separate.free_of_update (by rwa [owned_pool hkey]) hnot o

theorem giveBack (h : OwnInv p) {a : Nat} {key : Int32} {e : TreeEntry} (hfree : ∀ o, a ∉ owned p o)
    (hkey : p.tree key = some e) {freed rest : List Nat} (hhead : freed ++ rest = e.memHead) (total : UInt32) :
    OwnInv (Csf.sysFree (a :: freed) (p.setClass key { e with totalItem := total, memHead := rest })) := by
  have howned : owned p (.pool key) = freed ++ rest := (owned_pool hkey).trans hhead.symm
  have hrest := h.setClass [] (e := { e with totalItem := total, memHead := rest }) rfl
    (by rw [howned]; exact List.sublist_append_right freed rest) List.nodup_nil (by simp) (by simp)
  have hnodup := h.separate.nodup (.pool key)
  rw [howned, List.nodup_append] at hnodup
  refine hrest.sysFree fun x hx o => ?_
  rcases List.mem_cons.mp hx with rfl | hx
  · rw [owned_setClass]
    by_cases ho : o = .pool key
    · subst ho
      rw [Function.update_self]
      exact fun hin => hfree (.pool key) (by rw [howned]; exact List.mem_append_right _ hin)
    · rw [Function.update_of_ne ho]
      exact hfree o
  · exact h.free_of_setClass hkey (hhead ▸ List.mem_append_left _ hx) (fun hin => hnodup.2.2 x hx x hin rfl) o

end OwnInv

structure PoolInv (p : Pool) : Prop where
  separate : Separate (owned p)
  allocated : ∀ o, owned p o ⊆ p.blocks
  classes : ∀ key e, p.tree key = some e →
    e.memSize = key ∧ 0 < key ∧ ∀ a ∈ e.memHead, p.heap a = entry key.toInt64
  live : ∀ x ∈ p.live, ∃ key : Int32, 0 < key ∧ (x.2 : Int) = key.toInt ∧ p.heap x.1 = entry key.toInt64 ∧
    (p.tree key).isSome

theorem PoolInv.own {p : Pool} (h : PoolInv p) : OwnInv p := ⟨h.separate, h.allocated⟩

theorem poolInv_init : PoolInv Pool.init where
  separate := OwnInv.init.separate
  allocated := OwnInv.init.allocated
  classes key e h := by simp [Pool.init] at h
  live x hx := by simp [Pool.init] at hx

namespace PoolInv

variable {p p' : Pool}

theorem memory (h : PoolInv p) (hm : Memory p p') : PoolInv p' := by
  have htree : p'.tree = p.tree := by rw [hm.frame]
  have hlive : p'.live = p.live := by rw [hm.frame]
  have hheap : ∀ o, ∀ a ∈ owned p o, p'.heap a = p.heap a := fun o a ha => (hm.kept a (h.allocated o ha)).2
  have hown := h.own.memory hm
  refine ⟨hown.separate, hown.allocated, fun key e he => ?_, fun x hx => ?_⟩
  · rw [htree] at he
    obtain ⟨hsize, hpos, hentries⟩ := h.classes key e he
    refine ⟨hsize, hpos, fun a ha => (hheap (.pool key) a ?_).trans (hentries a ha)⟩
    rwa [owned_pool he]
  · rw [hlive] at hx
    obtain ⟨key, hpos, hn, hentry, hclass⟩ := h.live x hx
    exact ⟨key, hpos, hn, (hheap .caller x.1 (List.mem_map_of_mem hx)).trans hentry, htree ▸ hclass⟩

theorem setClass (h : PoolInv p) {key : Int32} (hpos : 0 < key) (new : List Nat) {e : TreeEntry} {l : List Nat}
    (hsize : e.memSize = key) (hhead : e.memHead = new ++ l) (hl : l.Sublist (owned p (.pool key)))
    (hnew : new.Nodup) (hfree : ∀ a ∈ new, ∀ o, a ∉ owned p o)
    (hmade : ∀ a ∈ new, a ∈ p.blocks ∧ p.heap a = entry key.toInt64) : PoolInv (p.setClass key e) := by
  have hold : ∀ a ∈ owned p (.pool key), p.heap a = entry key.toInt64 := fun a ha => by
    simp only [owned] at ha
    split at ha
    · exact absurd ha List.not_mem_nil
    · rename_i e₀ he₀
      exact (h.classes key e₀ he₀).2.2 a ha
  have hown := h.own.setClass new hhead hl hnew hfree fun a ha => (hmade a ha).1
  refine ⟨hown.separate, hown.allocated, fun k e' he' => ?_, fun x hx => ?_⟩
  · by_cases hk : k = key
    · subst hk
      obtain rfl := Option.some.inj ((setClass_tree_self p k e).symm.trans he')
      refine ⟨hsize, hpos, fun a ha => ?_⟩
      rw [hhead, List.mem_append] at ha
      exact ha.elim (fun ha => (hmade a ha).2) fun ha => hold a (hl.subset ha)
    · rw [setClass_tree_of_ne p e hk] at he'
      exact h.classes k e' he'
  · obtain ⟨k, hk, hn, hentry, hclass⟩ := h.live x hx
    refine ⟨k, hk, hn, hentry, ?_⟩
    by_cases heq : k = key
    · subst heq
      rw [setClass_tree_self]
      rfl
    · rwa [setClass_tree_of_ne p e heq]

theorem give (h : PoolInv p) {a : Nat} {key : Int32} (hfree : ∀ o, a ∉ owned p o) (hblock : a ∈ p.blocks)
    (hentry : p.heap a = entry key.toInt64) (hpos : 0 < key) (hclass : (p.tree key).isSome) {n : Nat}
    (hn : (n : Int) = key.toInt) : PoolInv { p with live := (a, n) :: p.live } := by
  have hown := h.own.give hfree hblock n
  refine ⟨hown.separate, hown.allocated, h.classes, fun x hx => ?_⟩
  · rcases List.mem_cons.mp hx with rfl | hx
    · exact ⟨key, hpos, hn, hentry, hclass⟩
    · exact h.live x hx

theorem take (h : PoolInv p) (a : Nat) : PoolInv { p with live := p.live.filter (·.1 ≠ a) } where
  separate := (h.own.take a).separate
  allocated := (h.own.take a).allocated
  classes := h.classes
  live x hx := h.live x (List.mem_of_mem_filter hx)

/-! ### Calls of the pool -/

theorem printed (h : PoolInv p) (l : List Fatal) : PoolInv { p with printed := l } :=
  ⟨h.separate, h.allocated, h.classes, h.live⟩

theorem mpInit (h : PoolInv p) (a f : UInt64) : PoolInv (mpInit a f p) := by
  unfold Csf.mpInit
  split <;> exact ⟨h.separate, h.allocated, h.classes, h.live⟩

theorem newMemEntry (h : PoolInv p) (sys : Allocator) {key : Int32} (hpos : 0 < key) (hclass : (p.tree key).isSome)
    {n : Nat} (hn : (n : Int) = key.toInt) : PoolInv (handOut n (newMemEntry sys key.toInt64 p)) := by
  have hgrown := grown_newMemEntry sys key.toInt64 p
  generalize Csf.newMemEntry sys key.toInt64 p = out at hgrown
  obtain ⟨r, p'⟩ := out
  simp only at hgrown
  have h' := h.memory hgrown.toMemory
  cases r with
  | none => exact h'
  | some a =>
    have howned : owned p' = owned p := by rw [hgrown.frame]; rfl
    obtain ⟨hblock, hentry⟩ := hgrown.made a (by simp)
    refine h'.give (fun o ha => ?_) hblock hentry hpos ?_ hn
    · rw [howned] at ha
      exact hgrown.fresh a (by simp) (h.allocated o ha)
    · rw [hgrown.frame]
      exact hclass

theorem fill (h : PoolInv p) {key : Int32} (hpos : 0 < key) {new : List Nat} (hgrown : Grown key.toInt64 new p p')
    {e : TreeEntry} (hsize : e.memSize = key) (hhead : e.memHead = new) : PoolInv (p'.setClass key e) := by
  have howned : owned p' = owned p := by rw [hgrown.frame]; rfl
  refine (h.memory hgrown.toMemory).setClass hpos new hsize (hhead.trans (List.append_nil new).symm)
    (List.nil_sublist _) hgrown.nodup (fun a ha o ho => ?_) hgrown.made
  rw [howned] at ho
  exact hgrown.fresh a ha (h.allocated o ho)

theorem pop (h : PoolInv p) {key : Int32} {e : TreeEntry} (hkey : p.tree key = some e) {a : Nat} {rest : List Nat}
    (hhead : e.memHead = a :: rest) (total : UInt32) {n : Nat} (hn : (n : Int) = key.toInt) :
    PoolInv (handOut n (some a, p.setClass key { e with totalItem := total, memHead := rest })) := by
  obtain ⟨hsize, hpos, hentries⟩ := h.classes key e hkey
  have howned : owned p (.pool key) = a :: rest := (owned_pool hkey).trans hhead
  have hrest := h.setClass hpos [] (e := { e with totalItem := total, memHead := rest }) hsize rfl
    (by rw [howned]; exact List.sublist_cons_self a rest) List.nodup_nil (by simp) (by simp)
  refine hrest.give (fun o => ?_) (h.allocated (.pool key) (by simp [howned])) (hentries a (by simp [hhead])) hpos
    (by simp [setClass_tree_self]) hn
  have hnodup := h.separate.nodup (.pool key)
  rw [howned] at hnodup
  rw [owned_setClass]
  exact h.separate.free_of_update (by simp [howned]) (List.nodup_cons.mp hnodup).1 o

theorem mpAlloc (h : PoolInv p) (sys : Allocator) {key : Int32} (hpos : 0 < key) {n : Nat}
    (hn : (n : Int) = key.toInt) : PoolInv (handOut n (mpAlloc sys key.toInt64 p)) := by
  have hint := toInt32_toInt64 key
  rcases mpAlloc_cases sys key.toInt64 p with ⟨-, heq⟩ | ⟨-, hcase⟩
  · rw [heq]
    exact h
  generalize Csf.mpAlloc sys key.toInt64 p = out at hcase
  cases hcase with
  | noEntry hkey hentry => exact h.memory (.of_newTreeEntry hentry)
  | noBlocks hkey hentry hblock => exact (h.memory (.of_newTreeEntry hentry)).memory (.of_failed hblock rfl)
  | created hkey hentry hblock =>
    obtain ⟨new, hgrown, -, rfl⟩ := grown_mpInitBlock hblock
    rw [hint]
    exact ((h.memory (.of_newTreeEntry hentry)).fill hpos hgrown rfl (List.append_nil new)).newMemEntry sys hpos
      (by simp [setClass_tree_self]) hn
  | notRefilled hkey hzero hblock =>
    rw [hint] at hkey ⊢
    obtain ⟨hsize, -⟩ := h.classes key _ hkey
    obtain ⟨hnil, hsize', -⟩ := memory_mpInitBlock hblock
    exact (h.memory (.of_failed hblock rfl)).setClass hpos [] (hsize'.trans hsize) (hnil.trans (List.append_nil []).symm)
      (List.nil_sublist _) List.nodup_nil (by simp) (by simp)
  | @refilled e₀ e p₁ hkey hzero hblock =>
    rw [hint] at hkey ⊢
    obtain ⟨rfl, -⟩ := h.classes key e₀ hkey
    obtain ⟨new, hgrown, -, he⟩ := grown_mpInitBlock hblock
    have hfill := h.fill hpos hgrown (e := e) (by rw [he]) (by rw [he]; exact List.append_nil new)
    exact hfill.newMemEntry sys hpos (by simp [setClass_tree_self]) hn
  | popped hkey hzero hhead =>
    rw [hint] at hkey ⊢
    exact h.pop hkey hhead _ hn
  | stuck => exact h.printed _

theorem giveBack (h : PoolInv p) {a : Nat} {key : Int32} {e : TreeEntry} (hfree : ∀ o, a ∉ owned p o)
    (hkey : p.tree key = some e) {freed rest : List Nat} (hhead : freed ++ rest = e.memHead) (total : UInt32) :
    PoolInv (Csf.sysFree (a :: freed) (p.setClass key { e with totalItem := total, memHead := rest })) := by
  obtain ⟨hsize, hpos, -⟩ := h.classes key e hkey
  have howned : owned p (.pool key) = freed ++ rest := (owned_pool hkey).trans hhead.symm
  have hrest := h.setClass hpos [] (e := { e with totalItem := total, memHead := rest }) hsize rfl
    (by rw [howned]; exact List.sublist_append_right freed rest) List.nodup_nil (by simp) (by simp)
  have hown := h.own.giveBack hfree hkey hhead total
  exact ⟨hown.separate, hown.allocated, hrest.classes, hrest.live⟩

theorem mpPfree (h : PoolInv p) {a : Nat} {key : Int32} {e : TreeEntry} (hfree : ∀ o, a ∉ owned p o)
    (hblock : a ∈ p.blocks) (hentry : p.heap a = entry key.toInt64) (hkey : p.tree key = some e) :
    PoolInv (mpPfree (some a) p) := by
  obtain ⟨hsize, hpos, -⟩ := h.classes key e hkey
  have htrim := trim_append p.preFreeNum e.totalItem e.memHead
  unfold Csf.mpPfree
  simp only [hentry, entry, toInt32_toInt64, hkey]
  split_ifs
  · exact h
  · exact (h.giveBack hfree hkey htrim _).printed _
  · exact h.giveBack hfree hkey htrim _
  · exact h.setClass hpos [a] (e := { e with totalItem := e.totalItem + 1, memHead := a :: e.memHead }) hsize rfl
      (by rw [owned_pool hkey]) (by simp) (by simpa using hfree) (by simpa using ⟨hblock, hentry⟩)

theorem mpFree (h : PoolInv p) {a : Nat} (ha : a ∈ p.live.map Prod.fst) :
    PoolInv (mpFree (some a) { p with live := p.live.filter (·.1 ≠ a) }) := by
  obtain ⟨x, hx, rfl⟩ := List.mem_map.mp ha
  obtain ⟨key, -, -, hentry, hclass⟩ := h.live x hx
  obtain ⟨e, hkey⟩ := Option.isSome_iff_exists.mp hclass
  refine (h.take x.1).mpPfree (fun o => ?_) (h.allocated .caller ha) hentry hkey
  rw [owned_live]
  exact h.separate.free_of_update ha (by simp) o

end PoolInv

/-! ### Histories -/

/-- The number of bytes that a call asks `mp_alloc` for. -/
def asked : PoolCall → Option UInt64
  | .malloc size => some size
  | .calloc number size => some (number * size)
  | _ => none

def wanted : PoolCall → Nat
  | .malloc size => size.toNat
  | .calloc number size => number.toNat * size.toNat
  | _ => 0

def refused (size : UInt64) : Bool := decide (size.toInt64 ≤ 0)

/-- The caller wants a positive `int` of bytes, or is refused. -/
def Small (call : PoolCall) : Prop :=
  ∀ size ∈ asked call, refused size = true ∨ 0 < wanted call ∧ wanted call < 2 ^ 31

instance (call : PoolCall) : Decidable (Small call) := Option.decidableForallMem (asked call)

theorem toInt_toInt64 (size : UInt64) : size.toInt64.toInt = (size.toNat : Int).bmod (2 ^ 64) := by
  change size.toBitVec.toInt = _
  rw [BitVec.toInt_eq_toNat_bmod]
  rfl

theorem exists_key (size : UInt64) (hpos : 0 < size.toNat) (hlt : size.toNat < 2 ^ 31) :
    ∃ key : Int32, 0 < key ∧ size.toInt64 = key.toInt64 ∧ (size.toNat : Int) = key.toInt := by
  have hsize : size.toInt64.toInt = size.toNat := by
    rw [toInt_toInt64, Int.bmod_eq_of_le] <;> omega
  have hkey : size.toInt64.toInt32.toInt = size.toNat := by
    rw [Int64.toInt_toInt32, hsize, Int.bmod_eq_of_le] <;> omega
  refine ⟨size.toInt64.toInt32, ?_, ?_, hkey.symm⟩
  · rw [Int32.lt_iff_toInt_lt, hkey, show (0 : Int32).toInt = 0 from rfl]
    exact_mod_cast hpos
  · rw [← Int64.toInt_inj, Int32.toInt_toInt64, hsize, hkey]

theorem toNat_asked {call : PoolCall} {size : UInt64} (h : size ∈ asked call) (hlt : wanted call < 2 ^ 31) :
    size.toNat = wanted call := by
  cases call with
  | malloc n =>
    obtain rfl := Option.some.inj h
    rfl
  | calloc m n =>
    obtain rfl := Option.some.inj h
    simp only [wanted] at hlt ⊢
    rw [UInt64.toNat_mul]
    exact Nat.mod_eq_of_lt (by omega)
  | init | free => cases h

/-- What a call for a positive `int` of bytes, or one that is refused, does. -/
theorem PoolInv.handOut {p : Pool} (h : PoolInv p) (sys : Allocator) {call : PoolCall} (hsmall : Small call)
    {size : UInt64} (hasked : size ∈ asked call) : PoolInv (handOut (wanted call) (Csf.mpAlloc sys size.toInt64 p)) := by
  rcases hsmall size hasked with hrefused | ⟨hpos, hlt⟩
  · have hnone : Csf.mpAlloc sys size.toInt64 p = (none, p) := by
      unfold Csf.mpAlloc
      split_ifs
      · rfl
      · rfl
      · exact absurd (of_decide_eq_true hrefused) (by assumption)
    rw [hnone]
    exact h
  · have hnat := toNat_asked hasked hlt
    obtain ⟨key, hkey, heq, hn⟩ := exists_key size (by omega) (by omega)
    rw [heq]
    exact h.mpAlloc sys hkey (by rw [← hn, hnat])

theorem poolInv_step {sys : Allocator} {p p' : Pool} {call : PoolCall} (h : PoolInv p) (hsmall : Small call)
    (hs : poolStep sys p call = some p') : PoolInv p' := by
  cases call with
  | init a f =>
    obtain rfl := Option.some.inj hs
    exact h.mpInit a f
  | malloc size =>
    obtain rfl := Option.some.inj hs
    exact h.handOut sys hsmall rfl
  | calloc number size =>
    obtain rfl := Option.some.inj hs
    exact h.handOut sys hsmall rfl
  | free ptr =>
    cases ptr with
    | none =>
      obtain rfl := Option.some.inj hs
      unfold Csf.mpFree Csf.mpPfree
      split_ifs <;> exact h
    | some a =>
      rw [poolStep] at hs
      split_ifs at hs with ha
      obtain rfl := Option.some.inj hs
      exact h.mpFree ha

theorem PoolInv.capacity {p p' : Pool} (h : PoolInv p) {sys : Allocator} {call : PoolCall} (hsmall : Small call)
    {size : UInt64} (hasked : size ∈ asked call) {a : Nat} (hret : Csf.mpAlloc sys size.toInt64 p = (some a, p')) :
    wanted call ≤ (p'.heap a).capacity := by
  have hinv := h.handOut sys hsmall hasked
  rw [hret] at hinv
  obtain ⟨key, hpos, hn, hentry, -⟩ := hinv.live (a, wanted call) List.mem_cons_self
  have hcapacity : (p'.heap a).capacity = key.toInt64.toInt.toNat := by
    rw [show p'.heap a = _ from hentry]
    refine capacity_entry (Int64.lt_iff_toInt_lt.mpr ?_)
    rw [Int32.toInt_toInt64]
    exact Int32.lt_iff_toInt_lt.mp hpos
  rw [hcapacity, Int32.toInt_toInt64]
  simp only at hn
  omega

/-- **Blocks are large enough.** After every history of calls that each want less than 2 ^ 31 bytes or are refused,
with a system allocator that may fail: what `mp_malloc` and `mp_calloc` return for such a call has room for the size,
and for the product of the two arguments as a number. -/
theorem block_capacity (sys : Allocator) {p : Pool} (h : Reach (poolStep sys) (fun _ call _ => Small call) Pool.init p) :
    (∀ size a p', Small (.malloc size) → mpMalloc sys size p = (some a, p') → size.toNat ≤ (p'.heap a).capacity) ∧
    ∀ number size a p', Small (.calloc number size) → mpCalloc sys number size p = (some a, p') →
      number.toNat * size.toNat ≤ (p'.heap a).capacity := by
  have hinv : PoolInv p := h.invariant poolInv_init fun _ _ _ hI hsmall hs => poolInv_step hI hsmall hs
  exact ⟨fun _ _ _ hsmall hret => hinv.capacity hsmall rfl hret, fun _ _ _ _ hsmall hret => hinv.capacity hsmall rfl hret⟩

theorem lt_of_mem_foldr {a : Nat} {l : List Nat} (h : a ∈ l) : a < l.foldr max 0 + 1 := by
  induction l with
  | nil => cases h
  | cons x l ih =>
    rw [List.foldr_cons]
    rcases List.mem_cons.mp h with rfl | h
    · omega
    · have := ih h
      omega

def placeAbove (_ : Nat) (blocks : List Nat) (_ : Nat) : Option Nat := some (blocks.foldr max 0 + 1)

theorem placeAbove_fresh (n : Nat) (blocks : List Nat) (bytes a : Nat) (h : placeAbove n blocks bytes = some a) :
    a ∉ blocks := by
  obtain rfl := Option.some.inj h
  exact fun ha => Nat.lt_irrefl _ (lt_of_mem_foldr ha)

/-- A system allocator that never fails and goes upwards. -/
def upwards : Allocator := ⟨placeAbove, placeAbove_fresh⟩

/-- A block of 8 bytes is freed and comes back. -/
theorem block_capacity_run :
    ∃ p, Reach (poolStep upwards) (fun _ call _ => Small call) Pool.init p ∧
      ∃ a p', mpMalloc upwards 8 p = (some a, p') ∧ 8 ≤ (p'.heap a).capacity := by
  obtain ⟨p, hp, hret⟩ := exists_reach (poolStep upwards) (fun _ call _ => Small call) Pool.init
    [.init 2 2, .malloc 8, .free (some 3)] (P := fun p => (mpMalloc upwards 8 p).1 = some 3) (by decide +kernel)
  exact ⟨p, hp, 3, _, Prod.ext hret rfl, (block_capacity upwards hp).1 8 3 _ (by decide) (Prod.ext hret rfl)⟩

/-- After `mp_malloc(8)`, `mp_malloc(2 ^ 32 + 8)` returns one of the blocks of 8 bytes that were allocated ahead, and
so does `mp_calloc(2 ^ 61 + 1, 8)`, whose product wraps around to 8. -/
theorem block_too_small :
    ∃ p, Reach (poolStep upwards) (fun _ _ _ => True) Pool.init p ∧
      (∃ a p', mpMalloc upwards 4294967304 p = (some a, p') ∧ (p'.heap a).capacity = 8) ∧
      ∃ a p', mpCalloc upwards 2305843009213693953 8 p = (some a, p') ∧ (p'.heap a).capacity = 8 := by
  obtain ⟨p, hp, hsize, hproduct⟩ := exists_reach (poolStep upwards) (fun _ _ _ => True) Pool.init [.init 0 0, .malloc 8]
    (P := fun p => ((mpMalloc upwards 4294967304 p).1.any fun a =>
        (((mpMalloc upwards 4294967304 p).2.heap a).capacity == 8)) = true ∧
      ((mpCalloc upwards 2305843009213693953 8 p).1.any fun a =>
        (((mpCalloc upwards 2305843009213693953 8 p).2.heap a).capacity == 8)) = true) (by decide +kernel)
  obtain ⟨a, ha, hcap⟩ := (Option.any_eq_true _ _).mp hsize
  obtain ⟨b, hb, hcap'⟩ := (Option.any_eq_true _ _).mp hproduct
  exact ⟨p, hp, ⟨a, _, Prod.ext ha rfl, beq_iff_eq.mp hcap⟩, b, _, Prod.ext hb rfl, beq_iff_eq.mp hcap'⟩

end Csf
