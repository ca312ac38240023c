import Csf.Lib.RedBlack

/-!
# Red-black trees in memory: the `RB` macros of `tree.h`

The functions that `RB_GENERATE` makes, at the level of their pointers: a tree head has the word `rbh_root`, the entry
of an element the pointers `rbe_left`, `rbe_right` and `rbe_parent` and the colour. A NULL pointer is `none`; an operation
that follows one has no result. The code for the two sides is the same up to left and right, so each function takes
the side as an argument where the macro is written twice. `cmp` is the comparison function that the macro is given.

`RB_REMOVE` and the functions that walk through a tree are generated but never called by the server.
-/

namespace Csf

open Lib

/-- The words of one tree and of the entries of its elements. -/
structure RbMem (E : Type) where
  rbhRoot : Option E
  /-- `rbe_left` and `rbe_right` -/
  rbeChild : Dir → E → Option E
  rbeParent : E → Option E
  rbeColor : E → Color

namespace RbMem

variable {E : Type} [DecidableEq E]

/-! ### Words -/

def setChild (d : Dir) (e : E) (x : Option E) (m : RbMem E) : RbMem E :=
  { m with rbeChild := fun d' e' => if d' = d ∧ e' = e then x else m.rbeChild d' e' }

def setParent (e : E) (x : Option E) (m : RbMem E) : RbMem E :=
  { m with rbeParent := fun e' => if e' = e then x else m.rbeParent e' }

def setColor (e : E) (c : Color) (m : RbMem E) : RbMem E :=
  { m with rbeColor := fun e' => if e' = e then c else m.rbeColor e' }

omit [DecidableEq E] in
def init (m : RbMem E) : RbMem E := { m with rbhRoot := none }

def set (e : E) (parent : Option E) (m : RbMem E) : RbMem E :=
  (((m.setParent e parent).setChild .right e none).setChild .left e none).setColor e .red

def setBlackred (black red : E) (m : RbMem E) : RbMem E := (m.setColor black .black).setColor red .red

/-! ### Rotations -/

/-- The parent pointer of a child of `elm`, which may be NULL. -/
def adopt (child : Option E) (elm : E) (m : RbMem E) : RbMem E :=
  match child with
  | some x => m.setParent x (some elm)
  | none => m

/-- The pointer to `elm` in the node above, or in the head, is replaced by one to `tmp`. -/
def replaceChild (parent : Option E) (elm tmp : E) (m : RbMem E) : RbMem E :=
  match parent with
  | some p => if m.rbeChild .left p = some elm then m.setChild .left p (some tmp) else m.setChild .right p (some tmp)
  | none => { m with rbhRoot := some tmp }

/-- A rotation that moves `elm` down on the side `d`. -/
def rotate (d : Dir) (elm : E) (m : RbMem E) : Option (RbMem E) := do
  let tmp ← m.rbeChild d.other elm
  let m := m.setChild d.other elm (m.rbeChild d tmp)
  let m := m.adopt (m.rbeChild d tmp) elm
  let m := m.setParent tmp (m.rbeParent elm)
  let m := m.replaceChild (m.rbeParent elm) elm tmp
  let m := m.setChild d tmp (some elm)
  some (m.setParent elm (some tmp))

def rotateLeft (elm : E) (m : RbMem E) : Option (RbMem E) := m.rotate .left elm

def rotateRight (elm : E) (m : RbMem E) : Option (RbMem E) := m.rotate .right elm

/-! ### Insertion -/

/-- One round of the loop of `RB_INSERT_COLOR` for a red `parent` that is the child of `gparent` on the side `d`: the new
`elm` and the memory. -/
def insertColorSide (d : Dir) (elm parent gparent : E) (m : RbMem E) : Option (E × RbMem E) :=
  match (m.rbeChild d.other gparent).filter fun tmp => m.rbeColor tmp = .red with
  | some tmp => some (gparent, (m.setColor tmp .black).setBlackred parent gparent)
  | none =>
    if m.rbeChild d.other parent = some elm then do
      let m ← m.rotate d parent
      -- `elm` and `parent` change their roles
      let m ← (m.setBlackred elm gparent).rotate d.other gparent
      some (parent, m)
    else do
      let m ← (m.setBlackred parent gparent).rotate d.other gparent
      some (elm, m)

def insertColorRound (elm parent : E) (m : RbMem E) : Option (E × RbMem E) := do
  let gparent ← m.rbeParent parent
  if m.rbeChild .left gparent = some parent then m.insertColorSide .left elm parent gparent
  else m.insertColorSide .right elm parent gparent

omit [DecidableEq E] in
/-- The condition of the loop: the parent of `elm`, if it is red. -/
def redParent (elm : E) (m : RbMem E) : Option E := (m.rbeParent elm).filter fun parent => m.rbeColor parent = .red

def insertColor : Nat → E → RbMem E → Option (RbMem E)
  | fuel, elm, m =>
    match m.redParent elm, fuel with
    | none, _ => m.rbhRoot.map fun root => m.setColor root .black
    | some _, 0 => none
    | some parent, fuel + 1 => (m.insertColorRound elm parent).bind fun (elm, m) => insertColor fuel elm m

inductive Place (E : Type)
  /-- an element that compares equal -/
  | found (tmp : E)
  /-- a free place under `parent`, on the side that `comp` says -/
  | free (parent : Option E) (comp : Int)

omit [DecidableEq E] in
/-- The search of `RB_INSERT` from `tmp` on; `fuel` bounds the rounds. -/
def insertSearch (cmp : E → E → Int) (elm : E) (m : RbMem E) : Nat → Option E → Option E → Int → Option (Place E)
  | _, none, parent, comp => some (.free parent comp)
  | 0, some _, _, _ => none
  | fuel + 1, some tmp, _, _ =>
    let comp := cmp elm tmp
    if comp < 0 then insertSearch cmp elm m fuel (m.rbeChild .left tmp) (some tmp) comp
    else if 0 < comp then insertSearch cmp elm m fuel (m.rbeChild .right tmp) (some tmp) comp
    else some (.found tmp)

def link (parent : Option E) (comp : Int) (elm : E) (m : RbMem E) : RbMem E :=
  match parent with
  | some p => if comp < 0 then m.setChild .left p (some elm) else m.setChild .right p (some elm)
  | none => { m with rbhRoot := some elm }

def insert (cmp : E → E → Int) (fuel : Nat) (elm : E) (m : RbMem E) : Option (Option E × RbMem E) := do
  match ← m.insertSearch cmp elm fuel m.rbhRoot none 0 with
  | .found tmp => some (some tmp, m)
  | .free parent comp =>
    let m ← ((m.set elm parent).link parent comp elm).insertColor fuel elm
    some (none, m)

/-! ### Search -/

omit [DecidableEq E] in
/-- The loop of `RB_FIND` from `tmp` on; `fuel` bounds the rounds. What is searched for need not be in memory that the
tree knows: the callers fill in an element on the stack. -/
def findFrom {K : Type} (cmp : K → E → Int) (elm : K) (m : RbMem E) : Nat → Option E → Option (Option E)
  | _, none => some none
  | 0, some _ => none
  | fuel + 1, some tmp =>
    let comp := cmp elm tmp
    if comp < 0 then findFrom cmp elm m fuel (m.rbeChild .left tmp)
    else if 0 < comp then findFrom cmp elm m fuel (m.rbeChild .right tmp)
    else some (some tmp)

omit [DecidableEq E] in
def find {K : Type} (cmp : K → E → Int) (fuel : Nat) (elm : K) (m : RbMem E) : Option (Option E) :=
  m.findFrom cmp elm fuel m.rbhRoot

end RbMem

end Csf
