import Csf.Pool.Counts

/-!
# When the system allocator fails

`mp_alloc` can lose its system allocator at three places: when it creates a size class, when it allocates blocks ahead
for it, and when it allocates the block that it returns. Whatever happens, callers keep what they hold (`ownInv_step`,
for every history and every size).

The roll-back of `mp_init_block` gives the blocks back and leaves `total_item` as it is. This does no harm to a class
that is not in the tree yet. A class that is in the tree keeps a count for an empty list, and `mp_alloc` then refuses
every request of that size until a block is freed.
-/

namespace Csf

open Lib

/-! ### Which call of the system allocator fails -/

/-- The number of bytes that `mp_init_block` asks for. -/
def blockBytes (size : Int64) : Nat := (sizeofMemEntry + size.toUInt64).toNat

/-- Of `n` calls of the system allocator in a row, for `bytes` bytes each, the first one that fails, counted from 0; the
first of them is call number `call` and finds `blocks` in use. -/
def firstFailure (sys : Allocator) (bytes : Nat) : Nat → Nat → List Nat → Option Nat
  | 0, _, _ => none
  | n + 1, call, blocks =>
    match sys.place call blocks bytes with
    | none => some 0
    | some a => (firstFailure sys bytes n (call + 1) (a :: blocks)).map (· + 1)

theorem firstFailure_of_true {sys : Allocator} {size : Int64} {n : Nat} {e e' : TreeEntry} {p p' : Pool}
    (h : mpInitBlock sys size n e p = (true, e', p')) :
    firstFailure sys (blockBytes size) n p.calls p.blocks = none := by
  induction n generalizing e p with
  | zero => rfl
  | succ n ih =>
    rw [mpInitBlock, newMemEntry] at h
    rw [firstFailure, blockBytes]
    cases hplace : sys.place p.calls p.blocks (sizeofMemEntry + size.toUInt64).toNat with
    | none =>
      simp only [hplace] at h
      cases h
    | some a =>
      simp only [hplace] at h
      rw [Option.map_eq_none_iff]
      exact ih h

theorem firstFailure_of_false {sys : Allocator} {size : Int64} {n : Nat} {e e' : TreeEntry} {p p' : Pool}
    (h : mpInitBlock sys size n e p = (false, e', p')) :
    ∃ i < n, firstFailure sys (blockBytes size) n p.calls p.blocks = some i ∧
      e'.totalItem = e.totalItem + UInt32.ofNat i := by
  induction n generalizing e p with
  | zero => cases h
  | succ n ih =>
    rw [mpInitBlock, newMemEntry] at h
    rw [firstFailure, blockBytes]
    cases hplace : sys.place p.calls p.blocks (sizeofMemEntry + size.toUInt64).toNat with
    | none =>
      simp only [hplace] at h
      obtain ⟨-, rfl, -⟩ := h
      exact ⟨0, Nat.succ_pos n, rfl, (UInt32.add_zero _).symm⟩
    | some a =>
      simp only [hplace] at h
      obtain ⟨i, hi, hfirst, htotal⟩ := ih h
      refine ⟨i + 1, Nat.succ_lt_succ hi, Option.map_eq_some_iff.mpr ⟨i, hfirst, rfl⟩, ?_⟩
      rw [htotal, UInt32.ofNat_add, UInt32.add_comm (UInt32.ofNat i), ← UInt32.add_assoc]
      rfl

/-! ### The order of the sizes -/

/-- What `mp_alloc` is asked for is refused, or below 2 ^ 31. -/
def Sized (call : PoolCall) : Prop := ∀ size ∈ asked call, refused size = true ∨ size.toNat < 2 ^ 31

instance (call : PoolCall) : Decidable (Sized call) := Option.decidableForallMem (asked call)

theorem sizeCmp_eq_sign {a b : Int32} (ha : 0 < a) (hb : 0 < b) : sizeCmp a b = (a.toInt - b.toInt).sign := by
  have hzero : (0 : Int32).toInt = 0 := rfl
  rw [Int32.lt_iff_toInt_lt, hzero] at ha hb
  have hla := a.toInt_lt
  have hlb := b.toInt_lt
  have hdiff : (a - b).toInt = a.toInt - b.toInt := by
    rw [Int32.toInt_sub, Int.bmod_eq_of_le] <;> omega
  unfold sizeCmp
  simp only [← Int32.toInt_inj, Int32.lt_iff_toInt_lt, hdiff, hzero]
  split_ifs with heq hlt
  · rw [heq, Int.sign_zero]
  · exact (Int.sign_eq_neg_one_of_neg hlt).symm
  · exact (Int.sign_eq_one_of_pos (by omega)).symm

def KeysPos (p : Pool) : Prop := ∀ key, (p.tree key).isSome → 0 < key

theorem KeysPos.setClass {p : Pool} (h : KeysPos p) {key : Int32} (hkey : 0 < key) (e : TreeEntry) :
    KeysPos (p.setClass key e) := by
  intro k hk
  by_cases heq : k = key
  · exact heq ▸ hkey
  · rw [setClass_tree_of_ne p e heq] at hk
    exact h k hk

theorem KeysPos.of_tree {p p' : Pool} (h : KeysPos p) (htree : p'.tree = p.tree) : KeysPos p' :=
  fun key hkey => h key (htree ▸ hkey)

theorem KeysPos.mpAlloc {p : Pool} (h : KeysPos p) (sys : Allocator) {size : Int64} (hsize : 0 < size → 0 < size.toInt32)
    (n : Nat) : KeysPos (handOut n (mpAlloc sys size p)) := by
  suffices hout : KeysPos (Csf.mpAlloc sys size p).2 by
    generalize Csf.mpAlloc sys size p = out at hout
    obtain ⟨r, q⟩ := out
    cases r <;> exact hout
  rcases mpAlloc_cases sys size p with ⟨-, heq⟩ | ⟨hready, hcase⟩
  · rw [heq]
    exact h
  have hkey := hsize hready.2
  have hlast : ∀ q : Pool, KeysPos q → KeysPos (newMemEntry sys size q).2 := fun q hq =>
    hq.of_tree (grown_newMemEntry sys size q).toMemory.tree
  generalize Csf.mpAlloc sys size p = out at hcase
  cases hcase with
  | noEntry _ hentry => exact h.of_tree (Memory.of_newTreeEntry hentry).tree
  | noBlocks _ hentry hblock => exact h.of_tree ((Memory.of_newTreeEntry hentry).trans (.of_failed hblock rfl)).tree
  | created _ hentry hblock =>
    obtain ⟨new, hgrown, -, -⟩ := grown_mpInitBlock hblock
    have htree := ((Memory.of_newTreeEntry hentry).trans hgrown.toMemory).tree
    exact hlast _ ((h.of_tree htree).setClass hkey _)
  | notRefilled _ _ hblock => exact (h.of_tree (Memory.of_failed hblock rfl).tree).setClass hkey _
  | refilled _ _ hblock =>
    obtain ⟨new, hgrown, -, -⟩ := grown_mpInitBlock hblock
    exact hlast _ ((h.of_tree hgrown.toMemory.tree).setClass hkey _)
  | popped => exact h.setClass hkey _
  | stuck => exact h

theorem KeysPos.mpFree {p : Pool} (h : KeysPos p) (ptr : Option Nat) : KeysPos (mpFree ptr p) := by
  unfold Csf.mpFree mpPfree
  split_ifs
  · exact h
  cases ptr with
  | none => exact h
  | some a =>
    simp only
    split
    · exact h
    · rename_i e he
      have hkey := h (p.heap a).size.toInt32 (by rw [he]; rfl)
      split_ifs <;> exact h.setClass hkey _

theorem key_pos {size : UInt64} (h : refused size = true ∨ size.toNat < 2 ^ 31) (hpos : 0 < size.toInt64) :
    0 < size.toInt64.toInt32 := by
  rcases h with hrefused | hlt
  · exact absurd (of_decide_eq_true hrefused) (Int64.not_le.mpr hpos)
  · have hne : 0 < size.toNat := by
      rw [Int64.lt_iff_toInt_lt, toInt_toInt64, Int.bmod_eq_of_le (by omega) (by omega),
        show (0 : Int64).toInt = 0 from rfl] at hpos
      exact_mod_cast hpos
    obtain ⟨key, hkey, heq, -⟩ := exists_key size hne hlt
    rw [heq, toInt32_toInt64]
    exact hkey

theorem keysPos_step {sys : Allocator} {p p' : Pool} {call : PoolCall} (h : KeysPos p) (hsized : Sized call)
    (hs : poolStep sys p call = some p') : KeysPos p' := by
  cases call with
  | init a f =>
    obtain rfl := Option.some.inj hs
    unfold mpInit
    split_ifs <;> exact h
  | malloc size =>
    obtain rfl := Option.some.inj hs
    exact h.mpAlloc sys (key_pos (hsized size rfl)) _
  | calloc number size =>
    obtain rfl := Option.some.inj hs
    exact h.mpAlloc sys (key_pos (hsized (number * size) rfl)) _
  | free ptr =>
    cases ptr with
    | none =>
      obtain rfl := Option.some.inj hs
      exact h.mpFree none
    | some a =>
      rw [poolStep] at hs
      split_ifs at hs
      obtain rfl := Option.some.inj hs
      exact KeysPos.mpFree (p := { p with live := p.live.filter (·.1 ≠ a) }) h (some a)

/-- Among the classes of the pool and the size, `size_cmp` is the order of the numbers, so that `RB_FIND` finds a class
exactly if it is there. -/
def Ordered (size : Int64) (p : Pool) : Prop :=
  ∀ a b, a = size.toInt32 ∨ (p.tree a).isSome → b = size.toInt32 ∨ (p.tree b).isSome →
    sizeCmp a b = (a.toInt - b.toInt).sign

theorem KeysPos.ordered {p : Pool} (h : KeysPos p) {size : Int64} (hsize : 0 < size.toInt32) : Ordered size p :=
  fun a b ha hb => sizeCmp_eq_sign (ha.elim (· ▸ hsize) (h a)) (hb.elim (· ▸ hsize) (h b))

/-! ### What callers hold -/

namespace OwnInv

variable {p p' : Pool}

theorem newMemEntry (h : OwnInv p) (sys : Allocator) (size : Int64) (n : Nat) :
    OwnInv (handOut n (newMemEntry sys size p)) := by
  have hgrown := grown_newMemEntry sys size p
  generalize Csf.newMemEntry sys size p = out at hgrown
  obtain ⟨r, p'⟩ := out
  simp only at hgrown
  have h' := h.memory hgrown.toMemory
  cases r with
  | none => exact h'
  | some a =>
    have howned : owned p' = owned p := by rw [hgrown.frame]; rfl
    refine h'.give (fun o ha => ?_) (hgrown.made a (by simp)).1 n
    rw [howned] at ha
    exact hgrown.fresh a (by simp) (h.allocated o ha)

theorem mpAlloc (h : OwnInv p) (sys : Allocator) (size : Int64) (n : Nat) :
    OwnInv (handOut n (mpAlloc sys size p)) := by
  rcases mpAlloc_cases sys size p with ⟨-, heq⟩ | ⟨-, hcase⟩
  · rw [heq]
    exact h
  generalize Csf.mpAlloc sys size p = out at hcase
  cases hcase with
  | noEntry hkey hentry => exact h.memory (.of_newTreeEntry hentry)
  | noBlocks hkey hentry hblock => exact (h.memory (.of_newTreeEntry hentry)).memory (.of_failed hblock rfl)
  | created hkey hentry hblock =>
    obtain ⟨new, hgrown, -, rfl⟩ := grown_mpInitBlock hblock
    exact ((h.memory (.of_newTreeEntry hentry)).fill _ hgrown (List.append_nil new)).newMemEntry sys size n
  | notRefilled hkey hzero hblock =>
    obtain ⟨hnil, -⟩ := memory_mpInitBlock hblock
    exact (h.memory (.of_failed hblock rfl)).setClass [] (hnil.trans (List.append_nil []).symm) (List.nil_sublist _)
      List.nodup_nil (by simp) (by simp)
  | refilled hkey hzero hblock =>
    obtain ⟨new, hgrown, -, rfl⟩ := grown_mpInitBlock hblock
    exact (h.fill _ hgrown (List.append_nil new)).newMemEntry sys size n
  | @popped e a rest hkey hzero hhead =>
    have howned : owned p (.pool size.toInt32) = a :: rest := (owned_pool hkey).trans hhead
    have hnodup := h.separate.nodup (.pool size.toInt32)
    rw [howned] at hnodup
    have hrest := h.setClass [] (e := { e with totalItem := e.totalItem - 1, memHead := rest }) rfl
      (by rw [howned]; exact List.sublist_cons_self a rest) List.nodup_nil (by simp) (by simp)
    refine hrest.give (fun o => ?_) (h.allocated (.pool size.toInt32) (by simp [howned])) n
    exact h.free_of_setClass hkey (by simp [hhead]) (List.nodup_cons.mp hnodup).1 o
  | stuck => exact ⟨h.separate, h.allocated⟩

theorem mpFree (h : OwnInv p) {a : Nat} (ha : a ∈ p.live.map Prod.fst) :
    OwnInv (mpFree (some a) { p with live := p.live.filter (·.1 ≠ a) }) := by
  have hown := h.take a
  have hfree : ∀ o, a ∉ owned { p with live := p.live.filter (·.1 ≠ a) } o := fun o => by
    rw [owned_live]
    exact h.separate.free_of_update ha (by simp) o
  have hblock : a ∈ p.blocks := h.allocated .caller ha
  generalize hq : ({ p with live := p.live.filter (·.1 ≠ a) } : Pool) = q at hown hfree
  have hblock' : a ∈ q.blocks := hq ▸ hblock
  unfold Csf.mpFree mpPfree
  simp only
  split_ifs
  · exact hown
  split
  · exact ⟨hown.separate, hown.allocated⟩
  · rename_i e hkey
    have htrim := trim_append q.preFreeNum e.totalItem e.memHead
    split_ifs
    · have hback := hown.giveBack hfree hkey htrim (trim q.preFreeNum e.totalItem e.memHead).2.1
      exact ⟨hback.separate, hback.allocated⟩
    · exact hown.giveBack hfree hkey htrim _
    · exact hown.setClass [a] (l := e.memHead) rfl (by rw [owned_pool hkey]) (by simp) (by simpa using hfree)
        (by simpa using hblock')

end OwnInv

theorem poolStep_rule {sys : Allocator} {p p' : Pool} {call : PoolCall} {I : Pool → Prop}
    (hs : poolStep sys p call = some p') (hinit : ∀ a f, I (mpInit a f p))
    (halloc : ∀ size n, I (handOut n (mpAlloc sys size p))) (hnone : I (mpFree none p))
    (hfree : ∀ a ∈ p.live.map Prod.fst, I (mpFree (some a) { p with live := p.live.filter (·.1 ≠ a) })) : I p' := by
  cases call with
  | init a f =>
    obtain rfl := Option.some.inj hs
    exact hinit a f
  | malloc size =>
    obtain rfl := Option.some.inj hs
    exact halloc _ _
  | calloc number size =>
    obtain rfl := Option.some.inj hs
    exact halloc _ _
  | free ptr =>
    cases ptr with
    | none =>
      obtain rfl := Option.some.inj hs
      exact hnone
    | some a =>
      rw [poolStep] at hs
      split_ifs at hs with ha
      obtain rfl := Option.some.inj hs
      exact hfree a ha

theorem ownInv_step {sys : Allocator} {p p' : Pool} {call : PoolCall} (h : OwnInv p)
    (hs : poolStep sys p call = some p') : OwnInv p' := by
  refine poolStep_rule hs (fun a f => ?_) (fun size n => h.mpAlloc sys size n) ?_ fun a ha => h.mpFree ha
  · unfold mpInit
    split_ifs <;> exact ⟨h.separate, h.allocated⟩
  · unfold mpFree mpPfree
    split_ifs <;> exact h

structure Kept (p p' : Pool) : Prop where
  live : p'.live = p.live
  initialized : p'.initialized = p.initialized
  heap : ∀ a ∈ p.blocks, p'.heap a = p.heap a

theorem Memory.keeps {p p' : Pool} (h : Memory p p') : Kept p p' := ⟨h.live, h.initialized, fun a ha => (h.kept a ha).2⟩

theorem Memory.keeps_last {p p₁ : Pool} (h : Memory p p₁) (sys : Allocator) (size : Int64) (key : Int32)
    (e : TreeEntry) : Kept p (newMemEntry sys size (p₁.setClass key e)).2 := by
  have hlast := (grown_newMemEntry sys size (p₁.setClass key e)).toMemory
  refine ⟨hlast.live.trans h.live, hlast.initialized.trans h.initialized, fun a ha => ?_⟩
  obtain ⟨hin, heq⟩ := h.kept a ha
  exact (hlast.kept a hin).2.trans heq

theorem mpAlloc_keeps (sys : Allocator) (size : Int64) (p : Pool) : Kept p (mpAlloc sys size p).2 := by
  rcases mpAlloc_cases sys size p with ⟨-, heq⟩ | ⟨-, hcase⟩
  · rw [heq]
    exact ⟨rfl, rfl, fun _ _ => rfl⟩
  generalize mpAlloc sys size p = out at hcase
  cases hcase with
  | noEntry hkey hentry => exact (Memory.of_newTreeEntry hentry).keeps
  | noBlocks hkey hentry hblock => exact ((Memory.of_newTreeEntry hentry).trans (.of_failed hblock rfl)).keeps
  | created hkey hentry hblock =>
    obtain ⟨new, hgrown, -, -⟩ := grown_mpInitBlock hblock
    exact ((Memory.of_newTreeEntry hentry).trans hgrown.toMemory).keeps_last sys size _ _
  | notRefilled hkey hzero hblock =>
    have hkeeps := (Memory.of_failed hblock rfl).keeps
    exact ⟨hkeeps.live, hkeeps.initialized, hkeeps.heap⟩
  | refilled hkey hzero hblock =>
    obtain ⟨new, hgrown, -, -⟩ := grown_mpInitBlock hblock
    exact hgrown.toMemory.keeps_last sys size _ _
  | popped => exact ⟨rfl, rfl, fun _ _ => rfl⟩
  | stuck => exact ⟨rfl, rfl, fun _ _ => rfl⟩

/-! ### A class that serves -/

/-- `total_item` of the class is the length of its list, modulo the width. -/
def Matched (key : Int32) (p : Pool) : Prop :=
  ∀ e, p.tree key = some e → e.totalItem = UInt32.ofNat e.memHead.length

theorem Matched.setClass {key k : Int32} {p : Pool} (h : Matched key p) {e : TreeEntry}
    (he : key = k → e.totalItem = UInt32.ofNat e.memHead.length) : Matched key (p.setClass k e) := by
  intro e' he'
  by_cases hk : key = k
  · subst hk
    obtain rfl := Option.some.inj ((setClass_tree_self p key e).symm.trans he')
    exact he rfl
  · rw [setClass_tree_of_ne p e hk] at he'
    exact h e' he'

theorem Matched.of_tree {key : Int32} {p p' : Pool} (h : Matched key p) (htree : p'.tree = p.tree) : Matched key p' :=
  fun e he => h e (htree ▸ he)

theorem matched_mpInitBlock {sys : Allocator} {size : Int64} {n : Nat} {e e' : TreeEntry} {p p' : Pool}
    (h : mpInitBlock sys size n e p = (true, e', p')) (hzero : e.totalItem = 0) (hnil : e.memHead = []) :
    e'.totalItem = UInt32.ofNat e'.memHead.length ∧ e'.memHead.length = n := by
  obtain ⟨new, -, hlen, rfl⟩ := grown_mpInitBlock h
  simp only [hzero, hnil, List.append_nil, UInt32.zero_add, hlen, true_and]

theorem Matched.mpAlloc {key : Int32} {p : Pool} (h : Matched key p) (sys : Allocator) (size : Int64)
    (hroll : ∀ e₀ e p₁, p.tree size.toInt32 = some e₀ → e₀.totalItem = 0 →
      mpInitBlock sys e₀.memSize.toInt64 (p.preAllocNum - 1).toNat { e₀ with memHead := [] } p = (false, e, p₁) →
        e.totalItem = 0) : Matched key (Csf.mpAlloc sys size p).2 := by
  rcases mpAlloc_cases sys size p with ⟨-, heq⟩ | ⟨-, hcase⟩
  · rw [heq]
    exact h
  have hlast : ∀ q : Pool, (newMemEntry sys size q).2.tree = q.tree := fun q =>
    (grown_newMemEntry sys size q).toMemory.tree
  generalize Csf.mpAlloc sys size p = out at hcase
  cases hcase with
  | noEntry hkey hentry => exact h.of_tree (Memory.of_newTreeEntry hentry).tree
  | noBlocks hkey hentry hblock =>
    exact h.of_tree ((Memory.of_newTreeEntry hentry).trans (.of_failed hblock rfl)).tree
  | created hkey hentry hblock =>
    obtain ⟨new, hgrown, -, -⟩ := grown_mpInitBlock hblock
    have htree := ((Memory.of_newTreeEntry hentry).trans hgrown.toMemory).tree
    exact ((h.of_tree htree).setClass fun _ => (matched_mpInitBlock hblock rfl rfl).1).of_tree (hlast _)
  | notRefilled hkey hzero hblock =>
    obtain ⟨hnil, -⟩ := memory_mpInitBlock hblock
    refine (h.of_tree (Memory.of_failed hblock rfl).tree).setClass fun _ => ?_
    rw [hroll _ _ _ hkey hzero hblock, hnil]
    rfl
  | refilled hkey hzero hblock =>
    obtain ⟨new, hgrown, -, -⟩ := grown_mpInitBlock hblock
    exact ((h.of_tree hgrown.toMemory.tree).setClass fun _ => (matched_mpInitBlock hblock hzero rfl).1).of_tree (hlast _)
  | @popped e a rest hkey hzero hhead =>
    refine h.setClass fun hk => ?_
    have hcount := h e (hk ▸ hkey)
    rw [hhead, List.length_cons, UInt32.ofNat_add] at hcount
    simp only [hcount]
    grind
  | stuck => exact h

theorem trim_total (f total : UInt32) (l : List Nat) :
    (trim f total l).2.1 = total - UInt32.ofNat (trim f total l).1.length := by
  induction l generalizing total with
  | nil => exact (UInt32.sub_zero total).symm
  | cons a l ih =>
    rw [trim]
    split_ifs
    · rfl
    · simp only [ih, List.length_cons, UInt32.ofNat_add]
      grind

theorem Matched.mpFree {key : Int32} {p : Pool} (h : Matched key p) (ptr : Option Nat) :
    Matched key (mpFree ptr p) := by
  unfold Csf.mpFree mpPfree
  split_ifs
  · exact h
  cases ptr with
  | none => exact h
  | some a =>
    simp only
    split
    · exact h
    · rename_i e hkey
      have hparts := congrArg List.length (trim_append p.preFreeNum e.totalItem e.memHead)
      have htotal := trim_total p.preFreeNum e.totalItem e.memHead
      generalize trim p.preFreeNum e.totalItem e.memHead = out at hparts htotal
      obtain ⟨freed, total, rest⟩ := out
      simp only [List.length_append] at hparts htotal ⊢
      have htrimmed : Matched key (p.setClass (p.heap a).size.toInt32 { e with totalItem := total, memHead := rest }) := by
        refine h.setClass fun hk => ?_
        have hcount := h e (hk ▸ hkey)
        rw [← hparts, UInt32.ofNat_add] at hcount
        simp only [htotal, hcount]
        grind
      split_ifs
      · exact htrimmed
      · exact htrimmed
      · refine h.setClass fun hk => ?_
        simp only [h e (hk ▸ hkey), List.length_cons, UInt32.ofNat_add]
        rfl

theorem matched_step {sys : Allocator} (hsys : sys.NeverFails) {key : Int32} {p p' : Pool} {call : PoolCall}
    (h : Matched key p) (hs : poolStep sys p call = some p') : Matched key p' := by
  refine poolStep_rule hs (fun a f => ?_) (fun size n => ?_) (h.mpFree none) fun a _ => ?_
  · unfold mpInit
    split_ifs <;> exact h
  · have hout := h.mpAlloc sys size fun e₀ e p₁ _ _ hblock => by
      have hok := mpInitBlock_fst hsys e₀.memSize.toInt64 (p.preAllocNum - 1).toNat { e₀ with memHead := [] } p
      rw [hblock] at hok
      cases hok
    generalize mpAlloc sys size p = out at hout
    obtain ⟨r, q⟩ := out
    cases r <;> exact hout
  · exact Matched.mpFree (p := { p with live := p.live.filter (·.1 ≠ a) }) h (some a)

theorem initialized_mpFree (ptr : Option Nat) (p : Pool) : (mpFree ptr p).initialized = p.initialized := by
  unfold mpFree mpPfree
  split_ifs
  · rfl
  cases ptr with
  | none => rfl
  | some a =>
    simp only
    split
    · rfl
    · split_ifs <;> rfl

theorem initialized_step {sys : Allocator} {p p' : Pool} {call : PoolCall} (h : p.initialized = true)
    (hs : poolStep sys p call = some p') : p'.initialized = true := by
  refine poolStep_rule (I := fun q => q.initialized = true) hs (fun a f => ?_) (fun size n => ?_)
    ((initialized_mpFree none p).trans h) fun a _ => (initialized_mpFree (some a) _).trans h
  · unfold mpInit
    split_ifs <;> rfl
  · have hout := (mpAlloc_keeps sys size p).initialized.trans h
    generalize mpAlloc sys size p = out at hout
    obtain ⟨r, q⟩ := out
    cases r <;> exact hout

theorem isSome_mpAlloc {sys : Allocator} (hsys : sys.NeverFails) {size : Int64} {p : Pool} (hinit : p.initialized = true)
    (hsize : 0 < size) (h : Matched size.toInt32 p) : (mpAlloc sys size p).1.isSome := by
  rcases mpAlloc_cases sys size p with ⟨hrefused, -⟩ | ⟨-, hcase⟩
  · rcases hrefused with hnot | hle
    · rw [hinit] at hnot
      cases hnot
    · exact absurd hsize (Int64.not_lt.mpr hle)
  have hblocks := mpInitBlock_fst hsys
  generalize mpAlloc sys size p = out at hcase
  cases hcase with
  | noEntry hkey hentry =>
    have hok := newTreeEntry_fst hsys p
    rw [hentry] at hok
    cases hok
  | noBlocks hkey hentry hblock =>
    have hok := hblocks size _ _ _ |>.symm.trans (congrArg Prod.fst hblock)
    cases hok
  | created => exact newMemEntry_fst hsys size _
  | notRefilled hkey hzero hblock =>
    have hok := hblocks _ _ _ _ |>.symm.trans (congrArg Prod.fst hblock)
    cases hok
  | refilled => exact newMemEntry_fst hsys size _
  | popped => rfl
  | stuck hkey hzero hhead =>
    have hcount := h _ hkey
    rw [hhead] at hcount
    exact absurd hcount hzero

/-! ### A call that fails -/

/-- What a failed call for `size` bytes is to leave behind: counters that were right still are, what callers hold is
theirs as before, and once there is memory again, calls of that size are served, whatever calls for less than 2 ^ 31
bytes come in between. -/
structure Usable (size : Int64) (p p' : Pool) : Prop where
  counted : ∀ key e', p'.tree key = some e' →
    (∀ e, p.tree key = some e → e.totalItem.toNat = e.memHead.length) → e'.totalItem.toNat = e'.memHead.length
  live : p'.live = p.live ∧ ∀ x ∈ p.live, x.1 ∈ p'.blocks ∧ p'.heap x.1 = p.heap x.1 ∧
    ∀ key, x.1 ∉ owned p' (.pool key)
  again : ∀ sys : Allocator, sys.NeverFails → ∀ q, Reach (poolStep sys) (fun _ call _ => Sized call) p' q →
    (mpAlloc sys size q).1.isSome

/-- The class is in the tree without blocks, and of the blocks that are to be allocated ahead for it, the system
allocator has memory for the first and not for all. -/
def Stranded (sys : Allocator) (size : Int64) (p : Pool) : Prop :=
  ∃ e, p.tree size.toInt32 = some e ∧ e.totalItem = 0 ∧ ∃ i, 0 < i ∧
    firstFailure sys (blockBytes e.memSize.toInt64) (p.preAllocNum - 1).toNat p.calls p.blocks = some i

theorem tree_of_last_failed {sys : Allocator} {size : Int64} {p q q' : Pool} {e : TreeEntry}
    (h : newMemEntry sys size (q.setClass size.toInt32 e) = (none, q')) (htree : q.tree = p.tree) :
    q'.tree = Function.update p.tree size.toInt32 (some e) := by
  have hmem := (grown_newMemEntry sys size (q.setClass size.toInt32 e)).toMemory
  rw [h] at hmem
  exact hmem.tree.trans (by rw [Pool.setClass, htree])

theorem class_of_rolled_back {sys : Allocator} {size : Int64} {p p₁ : Pool} {e₀ e : TreeEntry}
    (hkey : p.tree size.toInt32 = some e₀) (hzero : e₀.totalItem = 0)
    (hblock : mpInitBlock sys e₀.memSize.toInt64 (p.preAllocNum - 1).toNat { e₀ with memHead := [] } p =
      (false, e, p₁)) :
    e.totalItem.toNat = e.memHead.length ∧ ¬ Stranded sys size p ∨
      Stranded sys size p ∧ e.totalItem ≠ 0 ∧ e.memHead = [] := by
  have hwidth : (p.preAllocNum - 1).toNat < 2 ^ 32 := UInt32.toNat_lt _
  obtain ⟨hnil, -⟩ := memory_mpInitBlock hblock
  obtain ⟨i, hi, hfirst, htotal⟩ := firstFailure_of_false hblock
  rw [show TreeEntry.totalItem _ = 0 from hzero, UInt32.zero_add] at htotal
  rcases Nat.eq_zero_or_pos i with rfl | hpos
  · refine .inl ⟨?_, ?_⟩
    · rw [htotal, hnil]
      rfl
    · rintro ⟨e₁, he₁, -, j, hj, hfirst'⟩
      obtain rfl := Option.some.inj (hkey.symm.trans he₁)
      obtain rfl := Option.some.inj (hfirst.symm.trans hfirst')
      exact absurd hj (Nat.lt_irrefl 0)
  · refine .inr ⟨⟨e₀, hkey, hzero, i, hpos, hfirst⟩, ?_, hnil⟩
    rw [htotal, ← UInt32.toNat_inj.ne, UInt32.toNat_ofNat_of_lt' (Nat.lt_trans hi hwidth)]
    exact Nat.ne_of_gt hpos

/-- What the failed call makes of the class: nothing if it was not there, or it is there with the right count, or the
roll-back has left `i` on an empty list. -/
theorem class_of_failed {sys : Allocator} {size : Int64} {p p' : Pool} (hnull : mpAlloc sys size p = (none, p'))
    (hasked : p.calls < p'.calls) :
    (p.initialized = true ∧ 0 < size) ∧
      (p.tree size.toInt32 = none ∧ p'.tree = p.tree ∨
        ∃ e', p'.tree = Function.update p.tree size.toInt32 (some e') ∧
          (e'.totalItem.toNat = e'.memHead.length ∧ ¬ Stranded sys size p ∨
            Stranded sys size p ∧ e'.totalItem ≠ 0 ∧ e'.memHead = [])) := by
  rcases mpAlloc_cases sys size p with ⟨-, heq⟩ | ⟨hready, hcase⟩
  · rw [hnull] at heq
    obtain rfl := (Prod.mk.inj heq).2
    exact absurd hasked (Nat.lt_irrefl _)
  refine ⟨hready, ?_⟩
  have hwidth : (p.preAllocNum - 1).toNat < 2 ^ 32 := UInt32.toNat_lt _
  generalize mpAlloc sys size p = out at hcase hnull
  cases hcase with
  | noEntry hkey hentry =>
    obtain rfl := (Prod.mk.inj hnull).2
    exact .inl ⟨hkey, (Memory.of_newTreeEntry hentry).tree⟩
  | noBlocks hkey hentry hblock =>
    obtain rfl := (Prod.mk.inj hnull).2
    exact .inl ⟨hkey, ((Memory.of_newTreeEntry hentry).trans (.of_failed hblock rfl)).tree⟩
  | created hkey hentry hblock =>
    obtain ⟨new, hgrown, -, -⟩ := grown_mpInitBlock hblock
    have htree := tree_of_last_failed hnull ((Memory.of_newTreeEntry hentry).trans hgrown.toMemory).tree
    obtain ⟨hcount, hlen⟩ := matched_mpInitBlock hblock rfl rfl
    refine .inr ⟨_, htree, .inl ⟨?_, ?_⟩⟩
    · rw [hcount, UInt32.toNat_ofNat_of_lt' (by rw [hlen]; exact hwidth)]
    · rintro ⟨e, he, -⟩
      rw [hkey] at he
      cases he
  | @notRefilled e₀ e p₁ hkey hzero hblock =>
    obtain rfl := (Prod.mk.inj hnull).2
    refine .inr ⟨e, ?_, class_of_rolled_back hkey hzero hblock⟩
    rw [Pool.setClass, (Memory.of_failed hblock rfl).tree]
  | refilled hkey hzero hblock =>
    obtain ⟨new, hgrown, -, -⟩ := grown_mpInitBlock hblock
    have htree := tree_of_last_failed hnull hgrown.toMemory.tree
    obtain ⟨hcount, hlen⟩ := matched_mpInitBlock hblock hzero rfl
    refine .inr ⟨_, htree, .inl ⟨?_, ?_⟩⟩
    · rw [hcount, UInt32.toNat_ofNat_of_lt' (by rw [hlen]; exact hwidth)]
    · rintro ⟨e, he, -, i, -, hfirst⟩
      obtain rfl := Option.some.inj (hkey.symm.trans he)
      rw [firstFailure_of_true hblock] at hfirst
      cases hfirst
  | popped => cases (Prod.mk.inj hnull).1
  | stuck =>
    obtain rfl := (Prod.mk.inj hnull).2
    exact absurd hasked (Nat.lt_irrefl _)

/-- **A failed allocation leaves the pool usable** exactly if it does not strand its size class: for every history of
calls for less than 2 ^ 31 bytes, with a system allocator that may fail, and every such call of `mp_alloc` that returns
`NULL` after it has asked the system allocator. The sizes of such a history are in order. -/
theorem failed_alloc_usable_iff (sys₀ sys : Allocator) {p p' : Pool} {size : UInt64}
    (hp : Reach (poolStep sys₀) (fun _ call _ => Sized call) Pool.init p) (hsized : Sized (.malloc size))
    (hnull : mpAlloc sys size.toInt64 p = (none, p')) (hasked : p.calls < p'.calls) :
    Ordered size.toInt64 p ∧ (Usable size.toInt64 p p' ↔ ¬ Stranded sys size.toInt64 p) := by
  have hkeys : KeysPos p := hp.invariant (fun _ hnone => by cases hnone) fun _ _ _ hI hR hs => keysPos_step hI hR hs
  have hready := (class_of_failed hnull hasked).1
  refine ⟨hkeys.ordered (key_pos (hsized size rfl) hready.2), ?_⟩
  generalize size.toInt64 = size at hnull hready
  have hown : OwnInv p := hp.invariant OwnInv.init fun _ _ _ hI _ hs => ownInv_step hI hs
  have hown' := hown.mpAlloc sys size 0
  have hkept := mpAlloc_keeps sys size p
  rw [hnull] at hown' hkept
  obtain ⟨⟨hinit, hsize⟩, hclass⟩ := class_of_failed hnull hasked
  have hinit' : p'.initialized = true := hkept.initialized.trans hinit
  constructor
  · -- a stranded class refuses the next call, with any system allocator
    intro h hstranded
    obtain ⟨hnone, -⟩ | ⟨e', htree, ⟨-, hnot⟩ | ⟨-, hcount, hnil⟩⟩ := hclass
    · obtain ⟨e, he, -⟩ := hstranded
      rw [hnone] at he
      cases he
    · exact hnot hstranded
    · have hkey : p'.tree size.toInt32 = some e' := by rw [htree, Function.update_self]
      have hsome := h.again upwards upwards_neverFails p' .init
      unfold mpAlloc at hsome
      rw [if_neg (by simp [hinit']), if_neg (Int64.not_le.mpr hsize), hkey] at hsome
      simp [hcount, hnil] at hsome
  · intro hnot
    refine ⟨fun key e' he' hbefore => ?_, ⟨hkept.live, fun x hx => ?_⟩, fun sys' hsys q hq => ?_⟩
    · obtain ⟨-, htree⟩ | ⟨e, htree, ⟨hcount, -⟩ | ⟨hstranded, -⟩⟩ := hclass
      · exact hbefore e' (htree ▸ he')
      · by_cases hk : key = size.toInt32
        · subst hk
          rw [htree, Function.update_self] at he'
          exact Option.some.inj he' ▸ hcount
        · rw [htree, Function.update_of_ne hk] at he'
          exact hbefore e' he'
      · exact absurd hstranded hnot
    · have hcaller : x.1 ∈ owned p' .caller := by
        rw [owned, hkept.live]
        exact List.mem_map_of_mem hx
      refine ⟨hown'.allocated .caller hcaller, hkept.heap x.1 ?_, fun key hpool => ?_⟩
      · exact hown.allocated .caller (List.mem_map_of_mem hx)
      · cases hown'.separate.apart hcaller hpool
    · have hmatched : Matched size.toInt32 p' := by
        intro e' he'
        obtain ⟨hnone, htree⟩ | ⟨e, htree, ⟨hcount, -⟩ | ⟨hstranded, -⟩⟩ := hclass
        · rw [htree, hnone] at he'
          cases he'
        · rw [htree, Function.update_self] at he'
          rw [← Option.some.inj he', ← hcount, UInt32.ofNat_toNat]
        · exact absurd hstranded hnot
      obtain ⟨hready, hserves⟩ := hq.invariant (I := fun q => q.initialized = true ∧ Matched size.toInt32 q)
        ⟨hinit', hmatched⟩ fun _ _ _ hI _ hs => ⟨initialized_step hI.1 hs, matched_step hsys hI.2 hs⟩
      exact isSome_mpAlloc hsys hready hsize hserves

/-- The system allocator that goes upwards and fails at call number `k`. -/
def failsAt (k : Nat) : Allocator where
  place n blocks bytes := if n = k then none else placeAbove n blocks bytes
  fresh n blocks bytes a h := by
    split_ifs at h
    exact placeAbove_fresh n blocks bytes a h

/-- The block to be returned is the one that fails: two blocks were allocated ahead, and are there for the next call. -/
theorem failed_alloc_usable_run :
    ∃ p p', Reach (poolStep upwards) (fun _ call _ => Sized call) Pool.init p ∧ mpAlloc (failsAt 3) 8 p = (none, p') ∧
      p.calls < p'.calls ∧ Usable 8 p p' := by
  obtain ⟨p, hp, hnull, hcalls, hnone⟩ := exists_reach (poolStep upwards) (fun _ call _ => Sized call) Pool.init [.init 3 3]
    (P := fun p => (mpAlloc (failsAt 3) 8 p).1 = none ∧ p.calls < (mpAlloc (failsAt 3) 8 p).2.calls ∧ p.tree 8 = none)
    (by decide +kernel)
  refine ⟨p, _, hp, Prod.ext hnull rfl, hcalls, ?_⟩
  have hsized : Sized (.malloc 8) := by decide
  refine (failed_alloc_usable_iff upwards (failsAt 3) hp hsized (Prod.ext hnull rfl) hcalls).2.mpr ?_
  rintro ⟨e, he, -⟩
  rw [show (UInt64.toInt64 8).toInt32 = 8 from rfl, hnone] at he
  cases he

/-- The class has run out of blocks, and the second of the two blocks to be allocated ahead fails: `total_item` stays 1
on an empty list, and the next call returns `NULL` with memory available. -/
theorem failed_alloc_strands :
    ∃ p p', Reach (poolStep upwards) (fun _ call _ => Sized call) Pool.init p ∧ mpAlloc (failsAt 5) 8 p = (none, p') ∧
      p.calls < p'.calls ∧ p.tree 8 = some ⟨8, 0, []⟩ ∧ p'.tree 8 = some ⟨8, 1, []⟩ ∧
      (mpAlloc upwards 8 p').1 = none ∧ ¬ Usable 8 p p' := by
  obtain ⟨p, hp, hnull, hcalls, hbefore, hafter, hnext⟩ := exists_reach (poolStep upwards) (fun _ call _ => Sized call)
    Pool.init [.init 3 3, .malloc 8, .malloc 8, .malloc 8]
    (P := fun p => (mpAlloc (failsAt 5) 8 p).1 = none ∧ p.calls < (mpAlloc (failsAt 5) 8 p).2.calls ∧
      p.tree 8 = some ⟨8, 0, []⟩ ∧ (mpAlloc (failsAt 5) 8 p).2.tree 8 = some ⟨8, 1, []⟩ ∧
      (mpAlloc upwards 8 (mpAlloc (failsAt 5) 8 p).2).1 = none) (by decide +kernel)
  refine ⟨p, _, hp, Prod.ext hnull rfl, hcalls, hbefore, hafter, hnext, fun h => ?_⟩
  have hsome := h.again upwards upwards_neverFails _ .init
  rw [hnext] at hsome
  cases hsome

end Csf
