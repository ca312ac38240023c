import Csf.Pool.Ownership

/-!
# The counters of the pool

With a system allocator that does not fail, `total_item` of every size class is the length of its list and exceeds
`g_pre_free_num` by at most one, so that the branches that print an error are not reached. The counter is an
`unsigned int`: it wraps around when a block is put on a list of 2 ^ 32 - 1 blocks, which happens only if
`g_pre_free_num` is 2 ^ 32 - 1.
-/

namespace Csf

open Lib

def Allocator.NeverFails (sys : Allocator) : Prop := ∀ n blocks bytes, (sys.place n blocks bytes).isSome

/-- The calls of a history: between 1 and 2 ^ 31 - 1 bytes are asked for, or a block is freed. -/
def Plain : PoolCall → Prop
  | .malloc size => 0 < size.toNat ∧ size.toNat < 2 ^ 31
  | .free (some _) => True
  | _ => False

/-- The call frees a block of a size class whose counter and limit are the largest `unsigned int`. -/
def wraps (p : Pool) : PoolCall → Bool
  | .free (some a) =>
    match p.tree (p.heap a).size.toInt32 with
    | some e => e.totalItem == 4294967295 && p.preFreeNum == 4294967295
    | none => false
  | _ => false

structure CountInv (p : Pool) : Prop where
  initialized : p.initialized = true
  ahead : 0 < p.preAllocNum.toNat ∧ p.preAllocNum.toNat ≤ p.preFreeNum.toNat
  counts : ∀ key e, p.tree key = some e →
    e.totalItem.toNat = e.memHead.length ∧ e.memHead.length ≤ p.preFreeNum.toNat + 1
  printed : p.printed = []

namespace CountInv

variable {p p' : Pool}

theorem memory (h : CountInv p) (hm : Memory p p') : CountInv p' := by
  rw [hm.frame]
  exact ⟨h.initialized, h.ahead, h.counts, h.printed⟩

theorem setClass (h : CountInv p) (key : Int32) {e : TreeEntry} (hcount : e.totalItem.toNat = e.memHead.length)
    (hbound : e.memHead.length ≤ p.preFreeNum.toNat + 1) : CountInv (p.setClass key e) := by
  refine ⟨h.initialized, h.ahead, fun k e' he' => ?_, h.printed⟩
  by_cases hk : k = key
  · subst hk
    obtain rfl := Option.some.inj ((setClass_tree_self p k e).symm.trans he')
    exact ⟨hcount, hbound⟩
  · rw [setClass_tree_of_ne p e hk] at he'
    exact h.counts k e' he'

end CountInv

/-! ### Calls -/

section
variable {sys : Allocator}

theorem newTreeEntry_fst (hsys : sys.NeverFails) (p : Pool) : (newTreeEntry sys p).1 = true := by
  have hplace := hsys p.calls p.blocks sizeofTreeEntry
  unfold newTreeEntry
  split
  · rename_i hnone
    rw [hnone] at hplace
    cases hplace
  · rfl

theorem newMemEntry_fst (hsys : sys.NeverFails) (size : Int64) (p : Pool) : ((newMemEntry sys size p).1).isSome := by
  have hplace := hsys p.calls p.blocks (sizeofMemEntry + size.toUInt64).toNat
  unfold newMemEntry
  simp only
  split
  · rename_i hnone
    rw [hnone] at hplace
    cases hplace
  · rfl

theorem mpInitBlock_fst (hsys : sys.NeverFails) (size : Int64) (n : Nat) (e : TreeEntry) (p : Pool) :
    (mpInitBlock sys size n e p).1 = true := by
  induction n generalizing e p with
  | zero => rfl
  | succ n ih =>
    have hsome := newMemEntry_fst hsys size p
    rw [mpInitBlock]
    generalize newMemEntry sys size p = out at hsome
    obtain ⟨r, p₁⟩ := out
    cases r with
    | none => cases hsome
    | some a => exact ih _ _

theorem CountInv.fill {p p' : Pool} (h : CountInv p) {size : Int64} {e e' : TreeEntry}
    (hout : mpInitBlock sys size (p.preAllocNum - 1).toNat e p = (true, e', p')) (key : Int32) (hzero : e.totalItem = 0)
    (hnil : e.memHead = []) : CountInv (p'.setClass key e') := by
  obtain ⟨new, hgrown, hlen, he⟩ := grown_mpInitBlock hout
  have hahead := h.ahead
  have hone : (p.preAllocNum - 1).toNat = p.preAllocNum.toNat - 1 :=
    UInt32.toNat_sub_of_le _ _ (UInt32.le_iff_toNat_le.mpr hahead.1)
  have hfree : p'.preFreeNum = p.preFreeNum := by rw [hgrown.frame]
  have hcount : e'.totalItem = p.preAllocNum - 1 := by
    rw [he, hzero, UInt32.ofNat_toNat, UInt32.zero_add]
  have hhead : e'.memHead = new := by rw [he, hnil, List.append_nil]
  refine (h.memory hgrown.toMemory).setClass key ?_ ?_
  · rw [hcount, hhead, hlen]
  · rw [hhead, hlen, hone, hfree]
    omega

theorem CountInv.mpAlloc {p : Pool} (h : CountInv p) (hsys : sys.NeverFails) (size : Int64) :
    CountInv (mpAlloc sys size p).2 := by
  rcases mpAlloc_cases sys size p with ⟨-, heq⟩ | ⟨-, hcase⟩
  · rw [heq]
    exact h
  generalize Csf.mpAlloc sys size p = out at hcase
  cases hcase with
  | noEntry hkey hentry =>
    have hok := newTreeEntry_fst hsys p
    rw [hentry] at hok
    exact absurd hok Bool.false_ne_true
  | @noBlocks p₁ _ _ hkey hentry hblock =>
    have hok := mpInitBlock_fst hsys size (p.preAllocNum - 1).toNat ⟨size.toInt32, 0, []⟩ p₁
    rw [hblock] at hok
    exact absurd hok Bool.false_ne_true
  | created hkey hentry hblock =>
    have hmem := Memory.of_newTreeEntry hentry
    rw [← hmem.preAllocNum] at hblock
    exact ((h.memory hmem).fill hblock _ rfl rfl).memory (grown_newMemEntry sys size _).toMemory
  | @notRefilled e₀ _ _ hkey hzero hblock =>
    have hok := mpInitBlock_fst hsys e₀.memSize.toInt64 (p.preAllocNum - 1).toNat { e₀ with memHead := [] } p
    rw [hblock] at hok
    exact absurd hok Bool.false_ne_true
  | refilled hkey hzero hblock =>
    exact (h.fill hblock _ hzero rfl).memory (grown_newMemEntry sys size _).toMemory
  | @popped e a rest hkey hzero hhead =>
    obtain ⟨hcount, hbound⟩ := h.counts _ e hkey
    have hpos : e.totalItem.toNat ≠ 0 := fun h0 => hzero (UInt32.toNat_inj.mp h0)
    have hone : (e.totalItem - 1).toNat = e.totalItem.toNat - 1 :=
      UInt32.toNat_sub_of_le _ _ (UInt32.le_iff_toNat_le.mpr (Nat.pos_of_ne_zero hpos))
    rw [hhead, List.length_cons] at hcount hbound
    refine h.setClass size.toInt32 ?_ ?_
    · simp only [hone]
      omega
    · simp only
      omega
  | @stuck e hkey hzero hhead =>
    obtain ⟨hcount, -⟩ := h.counts _ e hkey
    rw [hhead] at hcount
    exact absurd (UInt32.toNat_inj.mp hcount) hzero

theorem CountInv.handOut {out : Option Nat × Pool} (h : CountInv out.2) (n : Nat) : CountInv (handOut n out) := by
  obtain ⟨r, p⟩ := out
  cases r with
  | none => exact h
  | some a => exact ⟨h.initialized, h.ahead, h.counts, h.printed⟩

theorem trim_eq {f total : UInt32} {a : Nat} {rest : List Nat} (h : total.toNat = f.toNat + 1) :
    trim f total (a :: rest) = ([a], f, rest) := by
  have hone : total - 1 = f := by
    rw [← UInt32.toNat_inj, UInt32.toNat_sub_of_le _ _ (UInt32.le_iff_toNat_le.mpr (by rw [h]; exact Nat.le_add_left _ _))]
    exact (congrArg (· - 1) h).trans (Nat.add_sub_cancel _ _)
  rw [trim, if_pos hone, hone]

theorem CountInv.mpFree {p : Pool} (h : CountInv p) {a : Nat} {e : TreeEntry}
    (hkey : p.tree (p.heap a).size.toInt32 = some e) (hwraps : wraps p (.free (some a)) = false) :
    CountInv (mpFree (some a) p) := by
  obtain ⟨hcount, hbound⟩ := h.counts _ e hkey
  have hlt := UInt32.toNat_lt e.totalItem
  have hfree := UInt32.toNat_lt p.preFreeNum
  unfold Csf.mpFree mpPfree
  simp only [h.initialized, Bool.true_eq_false, if_false, hkey]
  by_cases htotal : e.totalItem > p.preFreeNum
  · have hgt : p.preFreeNum.toNat < e.totalItem.toNat := UInt32.lt_iff_toNat_lt.mp htotal
    cases hhead : e.memHead with
    | nil =>
      rw [hhead, List.length_nil] at hcount
      omega
    | cons b rest =>
      rw [hhead, List.length_cons] at hcount hbound
      simp only [if_pos htotal, trim_eq (show e.totalItem.toNat = p.preFreeNum.toNat + 1 by omega)]
      have hset := h.setClass (p.heap a).size.toInt32 (e := { e with totalItem := p.preFreeNum, memHead := rest })
        (by simp only; omega) (by simp only; omega)
      split_ifs with hlimit
      · exact absurd rfl hlimit
      · exact ⟨hset.initialized, hset.ahead, hset.counts, hset.printed⟩
  · have hle : e.totalItem.toNat ≤ p.preFreeNum.toNat := UInt32.le_iff_toNat_le.mp (UInt32.not_lt.mp htotal)
    have hroom : e.totalItem.toNat + 1 < 2 ^ 32 := by
      by_contra hfull
      have hone : e.totalItem = 4294967295 := by
        rw [← UInt32.toNat_inj]
        exact (show e.totalItem.toNat = 4294967295 by omega)
      have htwo : p.preFreeNum = 4294967295 := by
        rw [← UInt32.toNat_inj]
        exact (show p.preFreeNum.toNat = 4294967295 by omega)
      simp [wraps, hkey, hone, htwo] at hwraps
    have hadd : (e.totalItem + 1).toNat = e.totalItem.toNat + 1 := by
      rw [UInt32.toNat_add]
      exact Nat.mod_eq_of_lt hroom
    rw [if_neg htotal]
    refine h.setClass _ ?_ ?_
    · rw [hadd, hcount, List.length_cons]
    · rw [List.length_cons]
      omega

theorem PoolInv.class_of_live {p : Pool} (h : PoolInv p) {a : Nat} (ha : a ∈ p.live.map Prod.fst) :
    ∃ e, p.tree (p.heap a).size.toInt32 = some e := by
  obtain ⟨x, hx, rfl⟩ := List.mem_map.mp ha
  obtain ⟨key, -, -, hentry, hclass⟩ := h.live x hx
  rw [hentry]
  simp only [entry, toInt32_toInt64]
  exact Option.isSome_iff_exists.mp hclass

theorem countInv_step (hsys : sys.NeverFails) {p p' : Pool} {call : PoolCall} (hinv : PoolInv p) (h : CountInv p)
    (hplain : Plain call) (hwraps : wraps p call = false) (hs : poolStep sys p call = some p') : CountInv p' := by
  cases call with
  | init a f => cases hplain
  | calloc number size => cases hplain
  | malloc size =>
    obtain rfl := Option.some.inj hs
    exact (h.mpAlloc hsys size.toInt64).handOut _
  | free ptr =>
    cases ptr with
    | none => cases hplain
    | some a =>
      rw [poolStep] at hs
      split_ifs at hs with ha
      obtain rfl := Option.some.inj hs
      obtain ⟨e, he⟩ := hinv.class_of_live ha
      have htaken : CountInv { p with live := p.live.filter (·.1 ≠ a) } := ⟨h.initialized, h.ahead, h.counts, h.printed⟩
      exact htaken.mpFree he hwraps

end

theorem countInv_mpInit {a f : UInt64} (h : (a = 0 ∨ f = 0) ∨ a.toNat < 2 ^ 32 ∧ f.toNat < 2 ^ 32) :
    CountInv (mpInit a f Pool.init) := by
  have hnone : ∀ key e, Pool.init.tree key = some e →
      e.totalItem.toNat = e.memHead.length ∧ ∀ n, e.memHead.length ≤ n := fun key e he => by cases he
  by_cases hset : a ≠ 0 ∧ f ≠ 0
  · obtain ⟨ha, hf⟩ := h.resolve_left (by simpa [not_or] using hset)
    have hpos : a.toNat ≠ 0 := fun h0 => hset.1 (UInt64.toNat_inj.mp h0)
    rw [mpInit, if_pos hset]
    refine ⟨rfl, ?_, fun key e he => ⟨(hnone key e he).1, (hnone key e he).2 _⟩, rfl⟩
    by_cases hlt : f < a
    · simp only [if_pos hlt, UInt64.toNat_toUInt32]
      omega
    · have hle : a.toNat ≤ f.toNat := UInt64.le_iff_toNat_le.mp (UInt64.not_lt.mp hlt)
      simp only [if_neg hlt, UInt64.toNat_toUInt32]
      omega
  · rw [mpInit, if_neg hset]
    exact ⟨rfl, by decide, fun key e he => ⟨(hnone key e he).1, (hnone key e he).2 _⟩, rfl⟩

/-! ### Every history -/

/-- The state of the pool: the blocks that callers hold and those in the lists are distinct, every counter is the
length of its list and within the limit, every block in a list has the size of its class, every block that a caller
holds has the size that was asked for, and no error was printed. -/
structure PoolOk (p : Pool) : Prop where
  distinct : Separate (owned p)
  count : ∀ key e, p.tree key = some e → e.totalItem.toNat = e.memHead.length
  bound : ∀ key e, p.tree key = some e → e.totalItem.toNat ≤ p.preFreeNum.toNat + 1
  sizes : ∀ key e, p.tree key = some e → ∀ a ∈ e.memHead, (p.heap a).size.toInt = e.memSize.toInt
  returned : ∀ x ∈ p.live, (p.heap x.1).size.toInt = x.2
  printed : p.printed = []

theorem Plain.small {call : PoolCall} (h : Plain call) : Small call := by
  intro size hasked
  cases call with
  | malloc n => exact .inr h
  | calloc | init => cases h
  | free => cases hasked

/-- **The pool.** After one `mp_init` and every history of `mp_malloc` for 1 to 2 ^ 31 - 1 bytes and `mp_free` of
blocks that are held, in which no counter wraps around, the pool is as it should be. -/
theorem pool_invariant (sys : Allocator) (hsys : sys.NeverFails) {a f : UInt64}
    (haf : (a = 0 ∨ f = 0) ∨ a.toNat < 2 ^ 32 ∧ f.toNat < 2 ^ 32) {p : Pool}
    (h : Reach (poolStep sys) (fun q call _ => Plain call ∧ wraps q call = false) (mpInit a f Pool.init) p) :
    PoolOk p := by
  have hinv : PoolInv p ∧ CountInv p := h.invariant (I := fun q => PoolInv q ∧ CountInv q)
    ⟨poolInv_init.mpInit a f, countInv_mpInit haf⟩
    fun q call q' hI hR hs => ⟨poolInv_step hI.1 hR.1.small hs, countInv_step hsys hI.1 hI.2 hR.1 hR.2 hs⟩
  obtain ⟨hpool, hcount⟩ := hinv
  refine ⟨hpool.separate, fun key e he => (hcount.counts key e he).1, fun key e he => ?_, fun key e he b hb => ?_,
    fun x hx => ?_, hcount.printed⟩
  · obtain ⟨heq, hle⟩ := hcount.counts key e he
    omega
  · obtain ⟨hsize, -, hentries⟩ := hpool.classes key e he
    rw [hentries b hb, hsize]
    exact Int32.toInt_toInt64 key
  · obtain ⟨key, -, hn, hentry, -⟩ := hpool.live x hx
    rw [hentry, hn]
    exact Int32.toInt_toInt64 key

instance (call : PoolCall) : Decidable (Plain call) := by
  unfold Plain
  split <;> infer_instance

theorem upwards_neverFails : upwards.NeverFails := fun _ _ _ => rfl

/-- Four blocks are held and freed: the third makes the list one longer than the limit, the fourth is given back
together with it. -/
theorem pool_invariant_run :
    ∃ p, Reach (poolStep upwards) (fun q call _ => Plain call ∧ wraps q call = false) (mpInit 2 2 Pool.init) p ∧
      p.tree 8 = some ⟨8, 2, [2, 3]⟩ ∧ p.live = [] ∧ PoolOk p := by
  obtain ⟨p, hp, htree, hlive⟩ := exists_reach (poolStep upwards) (fun q call _ => Plain call ∧ wraps q call = false)
    (mpInit 2 2 Pool.init)
    [.malloc 8, .malloc 8, .malloc 8, .malloc 8, .free (some 3), .free (some 2), .free (some 5), .free (some 4)]
    (P := fun p => p.tree 8 = some ⟨8, 2, [2, 3]⟩ ∧ p.live = []) (by decide +kernel)
  exact ⟨p, hp, htree, hlive, pool_invariant upwards upwards_neverFails (by decide) hp⟩

/-! ### The largest limit

With `mp_init(1, 2 ^ 32 - 1)` nothing is allocated ahead and nothing is given back: a caller gets as many blocks as it
wants, and all of them can be put on the list. -/

/-- The history is one of `mp_malloc(1)` and `mp_free`, `n` blocks are held and `m` are in the list. -/
structure Filling (n m : Nat) (p : Pool) : Prop where
  reach : Reach (poolStep upwards) (fun _ call _ => Plain call) (mpInit 1 4294967295 Pool.init) p
  initialized : p.initialized = true
  ahead : p.preAllocNum = 1
  limit : p.preFreeNum = 4294967295
  held : p.live.length = n
  keys : ∀ x ∈ p.live, (p.heap x.1).size = 1
  list : ∃ e, p.tree 1 = some e ∧ e.totalItem = UInt32.ofNat m ∧ e.memHead.length = m

theorem Filling.inv {n m : Nat} {p : Pool} (h : Filling n m p) : PoolInv p :=
  h.reach.invariant (poolInv_init.mpInit 1 4294967295) fun _ _ _ hI hplain hs => poolInv_step hI hplain.small hs

theorem filling_first : ∃ p, Filling 1 0 p := by
  obtain ⟨p, hp, hinit, hahead, hlimit, hheld, hkeys, htree⟩ := exists_reach (poolStep upwards) (fun _ call _ => Plain call)
    (mpInit 1 4294967295 Pool.init) [.malloc 1]
    (P := fun p => p.initialized = true ∧ p.preAllocNum = 1 ∧ p.preFreeNum = 4294967295 ∧ p.live.length = 1 ∧
      (∀ x ∈ p.live, (p.heap x.1).size = 1) ∧ p.tree 1 = some ⟨1, 0, []⟩) (by decide +kernel)
  exact ⟨p, hp, hinit, hahead, hlimit, hheld, hkeys, _, htree, rfl, rfl⟩

theorem Filling.malloc {n : Nat} {p : Pool} (h : Filling n 0 p) : ∃ p', Filling (n + 1) 0 p' := by
  obtain ⟨e, htree, htotal, hlen⟩ := h.list
  have hkey : (1 : UInt64).toInt64.toInt32 = 1 := by decide
  have hstep : poolStep upwards p (.malloc 1) =
      some (handOut 1 (newMemEntry upwards 1 (p.setClass 1 { e with memHead := [] }))) := by
    simp only [poolStep, mpMalloc, mpAlloc, h.initialized, hkey, htree, htotal, h.ahead]
    rfl
  have hgrown := grown_newMemEntry upwards 1 (p.setClass 1 { e with memHead := [] })
  have hplain : Plain (.malloc 1) := by decide
  refine ⟨_, ⟨h.reach.next hplain hstep, h.initialized, h.ahead, h.limit, ?_, fun x hx => ?_, ?_⟩⟩
  · exact congrArg (· + 1) h.held
  · rcases List.mem_cons.mp hx with rfl | hx
    · exact congrArg MemEntry.size (hgrown.made _ (List.mem_singleton.mpr rfl)).2
    · refine (congrArg MemEntry.size (hgrown.kept x.1 ?_).2).trans (h.keys x hx)
      exact h.inv.allocated .caller (List.mem_map_of_mem hx)
  · exact ⟨_, setClass_tree_self p 1 _, htotal, rfl⟩

theorem Filling.free {n m : Nat} {p : Pool} (h : Filling (n + 1) m p) : ∃ p', Filling n (m + 1) p' := by
  obtain ⟨e, htree, htotal, hlen⟩ := h.list
  obtain ⟨x, rest, hlive⟩ : ∃ x rest, p.live = x :: rest := List.exists_cons_of_length_eq_add_one h.held
  have hsize : (p.heap x.1).size = 1 := h.keys x (by rw [hlive]; exact List.mem_cons_self)
  have hnodup := h.inv.separate.nodup .caller
  have hfilter : p.live.filter (·.1 ≠ x.1) = rest := by
    rw [owned, hlive, List.map_cons, List.nodup_cons] at hnodup
    rw [hlive, List.filter_cons_of_neg (by simp), List.filter_eq_self]
    intro y hy
    have hne : y.1 ≠ x.1 := fun heq => hnodup.1 (heq ▸ List.mem_map_of_mem hy)
    simpa using hne
  have hstep : poolStep upwards p (.free (some x.1)) = some (Pool.setClass 1
      { e with totalItem := e.totalItem + 1, memHead := x.1 :: e.memHead } { p with live := rest }) := by
    have hlimit : ¬4294967295 < e.totalItem := UInt32.not_lt.mpr (UInt32.le_iff_toNat_le.mpr (by
      have := e.totalItem.toNat_lt
      change e.totalItem.toNat ≤ 4294967295
      omega))
    have hin : x.1 ∈ p.live.map Prod.fst := by rw [hlive]; exact List.mem_cons_self
    rw [poolStep, if_pos hin, hfilter]
    simp only [mpFree, mpPfree, h.initialized, hsize, h.limit, show (1 : Int64).toInt32 = 1 from by decide, htree,
      Bool.true_eq_false, if_false]
    rw [if_neg hlimit]
  have hheld := h.held
  rw [hlive, List.length_cons] at hheld
  have hplain : Plain (.free (some x.1)) := trivial
  refine ⟨_, ⟨h.reach.next hplain hstep, h.initialized, h.ahead, h.limit, Nat.succ.inj hheld, fun y hy => ?_, ?_⟩⟩
  · exact h.keys y (by rw [hlive]; exact List.mem_cons_of_mem _ hy)
  · refine ⟨_, setClass_tree_self _ 1 _, ?_, congrArg (· + 1) hlen⟩
    rw [htotal, UInt32.ofNat_add]
    rfl

/-- After 2 ^ 32 calls of `mp_malloc(1)` all blocks are freed: the list has 2 ^ 32 blocks and its counter is 0. -/
theorem count_wraps_around :
    ∃ p, Reach (poolStep upwards) (fun _ call _ => Plain call) (mpInit 1 4294967295 Pool.init) p ∧
      ∃ e, p.tree 1 = some e ∧ e.totalItem = 0 ∧ e.memHead.length = 2 ^ 32 := by
  have hmalloc : ∀ n, ∃ p, Filling (n + 1) 0 p := by
    intro n
    induction n with
    | zero => exact filling_first
    | succ n ih =>
      obtain ⟨p, hp⟩ := ih
      exact hp.malloc
  have hfree : ∀ m n k p, Filling (n + m) k p → ∃ p', Filling n (k + m) p' := by
    intro m
    induction m with
    | zero => exact fun n k p hp => ⟨p, hp⟩
    | succ m ih =>
      intro n k p hp
      obtain ⟨p₁, hp₁⟩ := Filling.free (show Filling (n + m + 1) k p from hp)
      obtain ⟨p₂, hp₂⟩ := ih n (k + 1) p₁ hp₁
      exact ⟨p₂, by rw [show k + (m + 1) = k + 1 + m by omega]; exact hp₂⟩
  obtain ⟨p, hp⟩ := hmalloc (2 ^ 32 - 1)
  obtain ⟨p', hp'⟩ := hfree (2 ^ 32) 0 0 p (by simpa using hp)
  obtain ⟨e, htree, htotal, hlen⟩ := hp'.list
  exact ⟨p', hp'.reach, e, htree, htotal.trans (by decide), by simpa using hlen⟩

end Csf
