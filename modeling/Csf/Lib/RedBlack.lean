import Mathlib.Algebra.GroupWithZero.Nat
import Mathlib.Data.Nat.Log
import Mathlib.Order.Basic
import Mathlib.Data.List.Basic

/-!
# Red-black trees and paths in them

Trees with coloured nodes. `Balanced` and `NoRedRed` are the two conditions of a red-black tree; together they bound
its height by twice the logarithm of its size (`height_le_log`). A path is a list of frames, the deepest first, each
with the node it passes, the side on which it goes down and the subtree on the other side; `plug` puts a tree back
under a path. `PathOk` says that a tree with a black root makes a red-black tree there, and `Repairable` is the situation
in the middle of an insertion: the tree under the path has a red root and may sit under a red node. `Repairable.done`,
`Repairable.recolor`, `Repairable.outer` and `Repairable.inner` are the ways on from there.
-/

namespace Csf.Lib

inductive Color
  | black
  | red
  deriving DecidableEq

inductive Dir
  | left
  | right
  deriving DecidableEq

def Dir.other : Dir → Dir
  | .left => .right
  | .right => .left

@[simp] theorem Dir.other_other (d : Dir) : d.other.other = d := by cases d <;> rfl

@[simp] theorem Dir.other_ne (d : Dir) : d.other ≠ d := by cases d <;> simp [Dir.other]

@[simp] theorem Dir.ne_other (d : Dir) : d ≠ d.other := d.other_ne.symm

theorem Dir.eq_or_other (d d' : Dir) : d' = d ∨ d' = d.other := by cases d <;> cases d' <;> simp [Dir.other]

inductive RbTree (E : Type*)
  | leaf
  | node (c : Color) (l : RbTree E) (e : E) (r : RbTree E)

namespace RbTree

variable {E : Type*}

def root : RbTree E → Option E
  | leaf => none
  | node _ _ e _ => some e

/-- An empty tree counts as black. -/
def color : RbTree E → Color
  | leaf => .black
  | node c _ _ _ => c

def elems : RbTree E → List E
  | leaf => []
  | node _ l e r => l.elems ++ e :: r.elems

def height : RbTree E → Nat
  | leaf => 0
  | node _ l _ r => max l.height r.height + 1

/-- How much a node adds to the number of black nodes on a path. -/
def weight : Color → Nat
  | .black => 1
  | .red => 0

/-- Every path from the top to a leaf passes `n` black nodes. -/
def Balanced : RbTree E → Nat → Prop
  | leaf, n => n = 0
  | node c l _ r, n => ∃ k, l.Balanced k ∧ r.Balanced k ∧ n = k + weight c

def NoRedRed : RbTree E → Prop
  | leaf => True
  | node c l _ r => (c = .red → l.color = .black ∧ r.color = .black) ∧ l.NoRedRed ∧ r.NoRedRed

/-- The conditions of a red-black tree. -/
structure Valid (t : RbTree E) : Prop where
  black : t.color = .black
  balanced : ∃ n, t.Balanced n
  noRedRed : t.NoRedRed

theorem valid_leaf : (leaf : RbTree E).Valid := ⟨rfl, ⟨0, rfl⟩, trivial⟩

@[simp] theorem root_eq_none {t : RbTree E} : t.root = none ↔ t = leaf := by cases t <;> simp [root]

theorem root_mem {t : RbTree E} {e : E} (h : t.root = some e) : e ∈ t.elems := by
  cases t with
  | leaf => cases h
  | node c l x r =>
    obtain rfl := Option.some.inj h
    simp [elems]

/-! ### Size and height -/

theorem two_pow_le_length {t : RbTree E} : ∀ {n : Nat}, t.Balanced n → 2 ^ n ≤ t.elems.length + 1 := by
  induction t with
  | leaf =>
    intro n h
    obtain rfl : n = 0 := h
    simp [elems]
  | node c l e r ihl ihr =>
    rintro n ⟨k, hl, hr, rfl⟩
    have hl' := ihl hl
    have hr' := ihr hr
    have hw : 2 ^ (k + weight c) ≤ 2 ^ k + 2 ^ k := by
      cases c with
      | black => simp [weight, Nat.pow_succ]; omega
      | red => simp [weight]
    simp only [elems, List.length_append, List.length_cons]
    omega

theorem height_le {t : RbTree E} : ∀ {n : Nat}, t.Balanced n → t.NoRedRed →
    t.height ≤ 2 * n + (if t.color = .red then 1 else 0) := by
  induction t with
  | leaf =>
    intro n _ _
    simp [height]
  | node c l e r ihl ihr =>
    rintro n ⟨k, hl, hr, rfl⟩ ⟨hc, hnl, hnr⟩
    have hl' := ihl hl hnl
    have hr' := ihr hr hnr
    cases c with
    | red =>
      obtain ⟨hlb, hrb⟩ := hc rfl
      simp only [hlb, hrb, reduceCtorEq, if_false] at hl' hr'
      simp only [height, weight, color, if_true]
      omega
    | black =>
      have hle : ∀ x : RbTree E, (if x.color = .red then 1 else 0) ≤ 1 := fun x => by split <;> omega
      have h₁ := hle l
      have h₂ := hle r
      simp only [height, weight, color, reduceCtorEq, if_false]
      omega

/-- A red-black tree is at most twice as high as the logarithm of its size. -/
theorem Valid.height_le_log {t : RbTree E} (h : t.Valid) : t.height ≤ 2 * Nat.log 2 (t.elems.length + 1) := by
  obtain ⟨n, hn⟩ := h.balanced
  have hle := height_le hn h.noRedRed
  rw [h.black] at hle
  have hlog : n ≤ Nat.log 2 (t.elems.length + 1) := Nat.le_log_of_pow_le Nat.one_lt_two (two_pow_le_length hn)
  simp only [reduceCtorEq, if_false] at hle
  omega

/-! ### Sides -/

/-- A node with `a` on the side `d` and `b` on the other side. -/
def side (d : Dir) (c : Color) (a : RbTree E) (e : E) (b : RbTree E) : RbTree E :=
  match d with
  | .left => node c a e b
  | .right => node c b e a

@[simp] theorem root_side (d : Dir) (c : Color) (a : RbTree E) (e : E) (b : RbTree E) : (side d c a e b).root = some e := by
  cases d <;> rfl

@[simp] theorem color_side (d : Dir) (c : Color) (a : RbTree E) (e : E) (b : RbTree E) : (side d c a e b).color = c := by
  cases d <;> rfl

theorem side_other (d : Dir) (c : Color) (a : RbTree E) (e : E) (b : RbTree E) : side d.other c a e b = side d c b e a := by
  cases d <;> rfl

theorem mem_side {d : Dir} {c : Color} {a b : RbTree E} {e x : E} :
    x ∈ (side d c a e b).elems ↔ x = e ∨ x ∈ a.elems ∨ x ∈ b.elems := by
  cases d <;> simp only [side, elems, List.mem_append, List.mem_cons] <;> tauto

theorem balanced_side {d : Dir} {c : Color} {a b : RbTree E} {e : E} {n : Nat} :
    (side d c a e b).Balanced n ↔ ∃ k, a.Balanced k ∧ b.Balanced k ∧ n = k + weight c := by
  cases d with
  | left => rfl
  | right =>
    simp only [side, Balanced]
    exact exists_congr fun k => and_left_comm

theorem noRedRed_side {d : Dir} {c : Color} {a b : RbTree E} {e : E} : (side d c a e b).NoRedRed ↔
    (c = .red → a.color = .black ∧ b.color = .black) ∧ a.NoRedRed ∧ b.NoRedRed := by
  cases d with
  | left => rfl
  | right =>
    simp only [side, NoRedRed]
    rw [and_comm (a := b.NoRedRed), and_comm (a := b.color = .black)]

theorem elems_rotate (d : Dir) (cx cy cx' cy' : Color) (a b c : RbTree E) (x y : E) :
    (side d cy' (side d cx' a x b) y c).elems = (side d cx a x (side d cy b y c)).elems := by
  cases d <;> simp [side, elems]

/-! ### Paths -/

/-- One step of a path: it passes the node `elm` on the way to its child on the side `dir`. -/
structure Frame (E : Type*) where
  dir : Dir
  color : Color
  elm : E
  sib : RbTree E

def Frame.attach (f : Frame E) (t : RbTree E) : RbTree E := side f.dir f.color t f.elm f.sib

/-- The tree `t` under a path. -/
def plug (t : RbTree E) : List (Frame E) → RbTree E
  | [] => t
  | f :: path => plug (f.attach t) path

def above (path : List (Frame E)) : Option E := path.head?.map Frame.elm

/-- The nodes of a path to the left of what is under it. -/
def lefts : List (Frame E) → List E
  | [] => []
  | f :: path =>
    match f.dir with
    | .left => lefts path
    | .right => lefts path ++ (f.sib.elems ++ [f.elm])

/-- The nodes of a path to the right of what is under it. -/
def rights : List (Frame E) → List E
  | [] => []
  | f :: path =>
    match f.dir with
    | .left => (f.elm :: f.sib.elems) ++ rights path
    | .right => rights path

theorem elems_plug (path : List (Frame E)) : ∀ t : RbTree E, (plug t path).elems = lefts path ++ t.elems ++ rights path := by
  induction path with
  | nil => simp [plug, lefts, rights]
  | cons f path ih =>
    intro t
    rw [plug, ih, lefts, rights, Frame.attach]
    cases f.dir <;> simp [side, elems]

/-! ### Red-black paths -/

/-- A tree with a black root and `n` black nodes on its paths makes a red-black tree under the path. -/
def PathOk : List (Frame E) → Nat → Prop
  | [], _ => True
  | f :: path, n => f.sib.Balanced n ∧ f.sib.NoRedRed ∧
      (f.color = .red → f.sib.color = .black ∧ ∃ g rest, path = g :: rest ∧ g.color = .black) ∧
      PathOk path (n + weight f.color)

theorem PathOk.plug : ∀ {path : List (Frame E)} {n : Nat} {t : RbTree E}, PathOk path n → t.Balanced n → t.NoRedRed →
    (t.color = .red → ∀ f ∈ path.head?, f.color = .black) →
    (∃ k, (plug t path).Balanced k) ∧ (plug t path).NoRedRed ∧ (path ≠ [] → (plug t path).color = .black) := by
  intro path
  induction path with
  | nil =>
    intro n t _ hb hn _
    exact ⟨⟨n, hb⟩, hn, fun h => absurd rfl h⟩
  | cons f path ih =>
    rintro n t ⟨hsb, hsn, hred, hpath⟩ hb hn htop
    have hb' : (f.attach t).Balanced (n + weight f.color) := balanced_side.mpr ⟨n, hb, hsb, rfl⟩
    have hn' : (f.attach t).NoRedRed := by
      refine noRedRed_side.mpr ⟨fun hf => ⟨?_, (hred hf).1⟩, hn, hsn⟩
      by_contra hne
      have ht : t.color = .red := by cases hc : t.color <;> simp_all
      have hblack := htop ht f rfl
      rw [hf] at hblack
      cases hblack
    have htop' : (f.attach t).color = .red → ∀ g ∈ path.head?, g.color = .black := by
      intro hf g hg
      rw [Frame.attach, color_side] at hf
      obtain ⟨-, g', rest, rfl, hg'⟩ := hred hf
      obtain rfl := Option.some.inj hg
      exact hg'
    obtain ⟨hbal, hnrr, hcol⟩ := ih hpath hb' hn' htop'
    refine ⟨hbal, hnrr, fun _ => ?_⟩
    cases path with
    | nil =>
      simp only [RbTree.plug, Frame.attach, color_side]
      by_contra hne
      have hf : f.color = .red := by cases hc : f.color <;> simp_all
      obtain ⟨-, g, rest, heq, -⟩ := hred hf
      cases heq
    | cons g rest => exact hcol (by simp)

theorem PathOk.of_plug : ∀ {path : List (Frame E)} {t : RbTree E}, (RbTree.plug t path).Valid →
    ∃ n, t.Balanced n ∧ t.NoRedRed ∧ PathOk path n ∧ (t.color = .red → ∃ g rest, path = g :: rest ∧ g.color = .black) := by
  intro path
  induction path with
  | nil =>
    rintro t ⟨hblack, ⟨n, hn⟩, hnrr⟩
    exact ⟨n, hn, hnrr, trivial, fun hred => absurd (hblack.symm.trans hred) (by simp)⟩
  | cons f path ih =>
    intro t h
    obtain ⟨n, hb, hn, hpath, htop⟩ := ih h
    obtain ⟨k, ht, hs, rfl⟩ := balanced_side.mp hb
    obtain ⟨hred, htn, hsn⟩ := noRedRed_side.mp hn
    rw [Frame.attach, color_side] at htop
    refine ⟨k, ht, htn, ⟨hs, hsn, fun hf => ⟨(hred hf).2, htop hf⟩, hpath⟩, fun ht => ⟨f, path, rfl, ?_⟩⟩
    by_contra hne
    have hf : f.color = .red := by cases hc : f.color <;> simp_all
    rw [(hred hf).1] at ht
    cases ht

/-- In the middle of an insertion: the tree has a red root, and nothing is wrong except that the node above may be red
too. -/
structure Repairable (t : RbTree E) (path : List (Frame E)) (n : Nat) : Prop where
  red : t.color = .red
  balanced : t.Balanced n
  noRedRed : t.NoRedRed
  path : PathOk path n

def blacken : RbTree E → RbTree E
  | leaf => leaf
  | node _ l e r => node .black l e r

theorem elems_blacken (t : RbTree E) : t.blacken.elems = t.elems := by cases t <;> rfl

theorem blacken_valid {t : RbTree E} (hb : ∃ n, t.Balanced n) (hn : t.NoRedRed) : t.blacken.Valid := by
  cases t with
  | leaf => exact valid_leaf
  | node c l e r =>
    obtain ⟨n, k, hl, hr, -⟩ := hb
    exact ⟨rfl, ⟨k + 1, k, hl, hr, rfl⟩, fun h => (by cases h), hn.2⟩

theorem Repairable.done {t : RbTree E} {path : List (Frame E)} {n : Nat} (h : Repairable t path n)
    (hblack : ∀ f ∈ path.head?, f.color = .black) : (plug t path).blacken.Valid := by
  obtain ⟨hb, hn, -⟩ := h.path.plug h.balanced h.noRedRed fun _ => hblack
  exact blacken_valid hb hn

theorem Repairable.grandparent {t : RbTree E} {f : Frame E} {path : List (Frame E)} {n : Nat}
    (h : Repairable t (f :: path) n) (hf : f.color = .red) : ∃ g rest, path = g :: rest ∧ g.color = .black :=
  (h.path.2.2.1 hf).2

theorem Repairable.recolor {t a b : RbTree E} {f g : Frame E} {u : E} {d : Dir} {path : List (Frame E)} {n : Nat}
    (h : Repairable t (f :: g :: path) n) (hf : f.color = .red) (hg : g.color = .black)
    (hsib : g.sib = side d .red a u b) :
    Repairable (side g.dir .red (side f.dir .black t f.elm f.sib) g.elm (side d .black a u b)) path (n + 1) := by
  obtain ⟨hfb, hfn, -, hgb, hgn, -, hpath⟩ := h.path
  rw [hf] at hgb hpath
  rw [hg] at hpath
  rw [hsib] at hgb hgn
  obtain ⟨k, hab, hbb, hk⟩ := balanced_side.mp hgb
  obtain ⟨-, han, hbn⟩ := noRedRed_side.mp hgn
  simp only [weight, Nat.add_zero] at hk hpath
  subst hk
  refine ⟨color_side _ _ _ _ _, ?_, ?_, hpath⟩
  · refine balanced_side.mpr ⟨n + 1, ?_, ?_, rfl⟩
    · exact balanced_side.mpr ⟨n, h.balanced, hfb, rfl⟩
    · exact balanced_side.mpr ⟨n, hab, hbb, rfl⟩
  · refine noRedRed_side.mpr ⟨fun _ => ⟨color_side _ _ _ _ _, color_side _ _ _ _ _⟩, ?_, ?_⟩
    · exact noRedRed_side.mpr ⟨fun hc => (by cases hc), h.noRedRed, hfn⟩
    · exact noRedRed_side.mpr ⟨fun hc => (by cases hc), han, hbn⟩

theorem valid_of_rotation {path : List (Frame E)} {n : Nat} {d : Dir} {t a b : RbTree E} {x y : E}
    (hpath : PathOk path (n + 1)) (ht : t.Balanced n) (htn : t.NoRedRed) (ha : a.Balanced n) (han : a.NoRedRed)
    (hac : a.color = .black) (hb : b.Balanced n) (hbn : b.NoRedRed) (hbc : b.color = .black) :
    (plug (side d .black t x (side d .red a y b)) path).Valid := by
  have hbal : (side d .black t x (side d .red a y b)).Balanced (n + 1) :=
    balanced_side.mpr ⟨n, ht, balanced_side.mpr ⟨n, ha, hb, rfl⟩, rfl⟩
  have hnrr : (side d .black t x (side d .red a y b)).NoRedRed :=
    noRedRed_side.mpr ⟨fun hc => (by cases hc), htn, noRedRed_side.mpr ⟨fun _ => ⟨hac, hbc⟩, han, hbn⟩⟩
  obtain ⟨hb', hn', hc'⟩ := hpath.plug hbal hnrr fun hc => (by simp at hc)
  refine ⟨?_, hb', hn'⟩
  cases path with
  | nil => exact color_side _ _ _ _ _
  | cons f path => exact hc' (by simp)

theorem Repairable.outer {t : RbTree E} {f g : Frame E} {path : List (Frame E)} {n : Nat}
    (h : Repairable t (f :: g :: path) n) (hf : f.color = .red) (hg : g.color = .black) (hsib : g.sib.color = .black) :
    (plug (side g.dir .black t f.elm (side g.dir .red f.sib g.elm g.sib)) path).Valid := by
  obtain ⟨hfb, hfn, hred, hgb, hgn, -, hpath⟩ := h.path
  rw [hf] at hgb hpath
  rw [hg] at hpath
  exact valid_of_rotation hpath h.balanced h.noRedRed hfb hfn (hred hf).1 hgb hgn hsib

theorem Repairable.inner {a b : RbTree E} {e : E} {d : Dir} {f g : Frame E} {path : List (Frame E)} {n : Nat}
    (h : Repairable (side d .red a e b) (f :: g :: path) n) (hf : f.color = .red) (hg : g.color = .black)
    (hsib : g.sib.color = .black) :
    (plug (side d .black (side d .red f.sib f.elm a) e (side d .red b g.elm g.sib)) path).Valid := by
  obtain ⟨hfb, hfn, hred, hgb, hgn, -, hpath⟩ := h.path
  rw [hf] at hgb hpath
  rw [hg] at hpath
  obtain ⟨k, hab, hbb, hk⟩ := balanced_side.mp h.balanced
  obtain ⟨hcol, han, hbn⟩ := noRedRed_side.mp h.noRedRed
  simp only [weight, Nat.add_zero] at hk
  subst hk
  have hleft : (side d .red f.sib f.elm a).Balanced n := balanced_side.mpr ⟨n, hfb, hab, rfl⟩
  have hleft' : (side d .red f.sib f.elm a).NoRedRed :=
    noRedRed_side.mpr ⟨fun _ => ⟨(hred hf).1, (hcol rfl).1⟩, hfn, han⟩
  exact valid_of_rotation hpath hleft hleft' hbb hbn (hcol rfl).2 hgb hgn hsib

end RbTree

end Csf.Lib
