import Csf.Lib.Reach
import Mathlib.Algebra.GroupWithZero.Nat
import Mathlib.Data.List.Basic
import Mathlib.Logic.Function.Basic

/-!
# The memory pool

`mempool.c` keeps the blocks that were freed in lists, one for every size, in a red-black tree keyed by the size. The
tree is taken to be a finite map, which it is as long as `size_cmp` orders the keys: while all sizes are below 2 ^ 31
(`sizeCmp_eq_sign`). A block is named by the address of its header. `blocks` are the addresses that the
system allocator has handed out and not got back, `heap` is what stands in the header of each.

The system allocator is a parameter: it may fail at every call, and may use an address again that was given back to
it. `live` is the ghost list of the blocks that callers hold, with the number of bytes each of them asked for.
-/

namespace Csf

/-- The system allocator: `place n blocks bytes` is the address that its call number `n` returns when `blocks` are in
use and `bytes` bytes are asked for, or `none` for `NULL`. -/
structure Allocator where
  place : Nat → List Nat → Nat → Option Nat
  fresh : ∀ n blocks bytes a, place n blocks bytes = some a → a ∉ blocks

/-- `sizeof(struct MP_MEM_ENTRY)` -/
def sizeofMemEntry : UInt64 := 16

def sizeofTreeEntry : Nat := 48

/-- `struct MP_MEM_ENTRY` without its link, and the number of bytes that the system allocator was asked for. -/
structure MemEntry where
  size : Int64
  bytes : Nat
  deriving DecidableEq

def MemEntry.capacity (e : MemEntry) : Nat := e.bytes - sizeofMemEntry.toNat

/-- `struct MP_TREE_ENTRY` without its links. -/
structure TreeEntry where
  memSize : Int32
  totalItem : UInt32
  memHead : List Nat
  deriving DecidableEq

/-- `size_cmp` on the sizes of two classes. The subtraction is one of `int`, and wraps around when the keys are further
apart than 2 ^ 31. -/
def sizeCmp (a b : Int32) : Int :=
  let diff := a - b
  if diff = 0 then 0 else if diff < 0 then -1 else 1

/-- The messages of the branches that are not meant to be reached. -/
inductive Fatal
  /-- `alloc: FATAL ERROR!` -/
  | alloc
  /-- `mp_free: FATAL ERROR! Could be memory overflow!, size: %ld` -/
  | unknownSize (size : Int64)
  /-- `mp_free: FATAL ERROR!` -/
  | trim
  deriving DecidableEq

structure Pool where
  initialized : Bool
  preAllocNum : UInt32
  preFreeNum : UInt32
  /-- the class that `RB_FIND` finds for a key; with keys that `size_cmp` does not order, it can miss a class -/
  tree : Int32 → Option TreeEntry
  blocks : List Nat
  heap : Nat → MemEntry
  /-- the number of calls of the system allocator so far -/
  calls : Nat
  /-- what was printed -/
  printed : List Fatal
  live : List (Nat × Nat)

/-- The pool when the process starts. -/
def Pool.init : Pool := ⟨false, 10, 20, fun _ => none, [], fun _ => ⟨0, 0⟩, 0, [], []⟩

def mpInit (preAllocNum preFreeNum : UInt64) (p : Pool) : Pool :=
  if preAllocNum ≠ 0 ∧ preFreeNum ≠ 0 then
    { p with
      initialized := true
      preAllocNum := preAllocNum.toUInt32
      preFreeNum := (if preFreeNum < preAllocNum then preAllocNum else preFreeNum).toUInt32 }
  else { p with initialized := true }

/-- The entry of one size class is written. -/
def Pool.setClass (key : Int32) (e : TreeEntry) (p : Pool) : Pool :=
  { p with tree := Function.update p.tree key (some e) }

def newTreeEntry (sys : Allocator) (p : Pool) : Bool × Pool :=
  match sys.place p.calls p.blocks sizeofTreeEntry with
  | none => (false, { p with calls := p.calls + 1 })
  | some a => (true, { p with calls := p.calls + 1, blocks := a :: p.blocks })

/-- `malloc` or `calloc` of a block for `size` bytes behind its header, and the assignment to its size field. -/
def newMemEntry (sys : Allocator) (size : Int64) (p : Pool) : Option Nat × Pool :=
  let bytes := (sizeofMemEntry + size.toUInt64).toNat
  match sys.place p.calls p.blocks bytes with
  | none => (none, { p with calls := p.calls + 1 })
  | some a => (some a, { p with
      calls := p.calls + 1
      blocks := a :: p.blocks
      heap := Function.update p.heap a ⟨size, bytes⟩ })

def sysFree (as : List Nat) (p : Pool) : Pool := { p with blocks := as.foldl List.erase p.blocks }

/-- `mp_init_block`: the loop, with the number of rounds to go. When the allocator fails, the list is given back but
`total_item` stays. -/
def mpInitBlock (sys : Allocator) (size : Int64) : Nat → TreeEntry → Pool → Bool × TreeEntry × Pool
  | 0, e, p => (true, e, p)
  | n + 1, e, p =>
    match newMemEntry sys size p with
    | (none, p) => (false, { e with memHead := [] }, sysFree e.memHead p)
    | (some a, p) =>
      mpInitBlock sys size n { e with totalItem := e.totalItem + 1, memHead := a :: e.memHead } p

def mpAlloc (sys : Allocator) (size : Int64) (p : Pool) : Option Nat × Pool :=
  if p.initialized = false then (none, p)
  else if size ≤ 0 then (none, p)
  else
    match p.tree size.toInt32 with
    | none =>
      match newTreeEntry sys p with
      | (false, p) => (none, p)
      | (true, p) =>
        match mpInitBlock sys size (p.preAllocNum - 1).toNat ⟨size.toInt32, 0, []⟩ p with
        | (false, _, p) => (none, p)
        | (true, e, p) => newMemEntry sys size (p.setClass size.toInt32 e)
    | some e =>
      if e.totalItem = 0 then
        match mpInitBlock sys e.memSize.toInt64 (p.preAllocNum - 1).toNat { e with memHead := [] } p with
        | (false, e, p) => (none, p.setClass size.toInt32 e)
        | (true, e, p) => newMemEntry sys size (p.setClass size.toInt32 e)
      else
        match e.memHead with
        | a :: rest => (some a, p.setClass size.toInt32 { e with totalItem := e.totalItem - 1, memHead := rest })
        | [] => (none, { p with printed := .alloc :: p.printed })

/-- The loop of `mp_pfree` that gives blocks back: which ones, and the count and the list it leaves. -/
def trim (preFreeNum : UInt32) : UInt32 → List Nat → List Nat × UInt32 × List Nat
  | total, [] => ([], total, [])
  | total, a :: rest =>
    if total - 1 = preFreeNum then ([a], total - 1, rest)
    else
      let (freed, total', rest') := trim preFreeNum (total - 1) rest
      (a :: freed, total', rest')

def mpPfree (ptr : Option Nat) (p : Pool) : Pool :=
  if p.initialized = false then p
  else
    match ptr with
    | none => p
    | some a =>
      let size := (p.heap a).size
      match p.tree size.toInt32 with
      | none => { p with printed := .unknownSize size :: p.printed }
      | some e =>
        if e.totalItem > p.preFreeNum then
          let (freed, total, rest) := trim p.preFreeNum e.totalItem e.memHead
          let p := sysFree (a :: freed) (p.setClass size.toInt32 { e with totalItem := total, memHead := rest })
          if total ≠ p.preFreeNum then { p with printed := .trim :: p.printed } else p
        else p.setClass size.toInt32 { e with totalItem := e.totalItem + 1, memHead := a :: e.memHead }

def mpMalloc (sys : Allocator) (size : UInt64) (p : Pool) : Option Nat × Pool := mpAlloc sys size.toInt64 p

/-- `mp_calloc`; what the bytes of a block hold is not modelled. -/
def mpCalloc (sys : Allocator) (number size : UInt64) (p : Pool) : Option Nat × Pool :=
  mpAlloc sys (number * size).toInt64 p

def mpFree (ptr : Option Nat) (p : Pool) : Pool := mpPfree ptr p

/-! ### Histories -/

/-- A call of one of the functions of the pool. -/
inductive PoolCall
  | init (preAllocNum preFreeNum : UInt64)
  | malloc (size : UInt64)
  | calloc (number size : UInt64)
  | free (ptr : Option Nat)
  deriving DecidableEq

/-- The caller gets the block that a call returned for `n` bytes. -/
def handOut (n : Nat) : Option Nat × Pool → Pool
  | (none, p) => p
  | (some a, p) => { p with live := (a, n) :: p.live }

/-- One call. A block is freed by a caller that holds it. -/
def poolStep (sys : Allocator) (p : Pool) : PoolCall → Option Pool
  | .init a f => some (mpInit a f p)
  | .malloc size => some (handOut size.toNat (mpMalloc sys size p))
  | .calloc number size => some (handOut (number.toNat * size.toNat) (mpCalloc sys number size p))
  | .free none => some (mpFree none p)
  | .free (some a) =>
    if a ∈ p.live.map Prod.fst then some (mpFree (some a) { p with live := p.live.filter (·.1 ≠ a) }) else none

end Csf
