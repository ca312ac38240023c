import Csf.Tree.Model
import Mathlib.Data.List.Nodup

/-!
# The tree that a memory holds, and its rotations

`RbMem.Rep m p t`: the entries of the memory `m` form the tree `t` below the parent pointer `p`. `RbMem.At m t path` cuts a
tree in memory in two, the part `t` at which the code works and the path of the nodes above it, and can be moved up and
down (`at_cons`). A rotation at the top of `t` changes only `t` (`At.rotate`).
-/

namespace Csf

open Lib RbTree

namespace RbMem

variable {E : Type} {m m' : RbMem E}

/-- The memory holds the tree `t`, whose top has the parent pointer `p`. -/
def Rep (m : RbMem E) : Option E → RbTree E → Prop
  | _, .leaf => True
  | p, .node c l e r => m.rbeParent e = p ∧ m.rbeColor e = c ∧ m.rbeChild .left e = l.root ∧
      m.rbeChild .right e = r.root ∧ Rep m (some e) l ∧ Rep m (some e) r

/-- The memory holds the nodes of a path, with the pointer `x` where the path ends. -/
def RepPath (m : RbMem E) : Option E → List (Frame E) → Prop
  | x, [] => m.rbhRoot = x
  | x, f :: path => m.rbeParent f.elm = above path ∧ m.rbeColor f.elm = f.color ∧ m.rbeChild f.dir f.elm = x ∧
      m.rbeChild f.dir.other f.elm = f.sib.root ∧ Rep m (some f.elm) f.sib ∧ RepPath m (some f.elm) path

/-- The memory holds the tree `t` under a path, every node once. -/
structure At (m : RbMem E) (t : RbTree E) (path : List (Frame E)) : Prop where
  rep : Rep m (above path) t
  repPath : RepPath m t.root path
  nodup : (plug t path).elems.Nodup

theorem rep_side {d : Dir} {c : Color} {a b : RbTree E} {e : E} {p : Option E} : Rep m p (side d c a e b) ↔
    m.rbeParent e = p ∧ m.rbeColor e = c ∧ m.rbeChild d e = a.root ∧ m.rbeChild d.other e = b.root ∧
      Rep m (some e) a ∧ Rep m (some e) b := by
  cases d with
  | left => rfl
  | right =>
    simp only [side, Rep, Dir.other]
    tauto

theorem at_cons {t : RbTree E} {f : Frame E} {path : List (Frame E)} : At m t (f :: path) ↔ At m (f.attach t) path := by
  constructor
  · rintro ⟨htree, ⟨hpar, hcol, hchild, hsib, hrep, hpath⟩, hnd⟩
    refine ⟨rep_side.mpr ⟨hpar, hcol, hchild, hsib, htree, hrep⟩, ?_, hnd⟩
    rw [Frame.attach, root_side]
    exact hpath
  · rintro ⟨htree, hpath, hnd⟩
    obtain ⟨hpar, hcol, hchild, hsib, ht, hrep⟩ := rep_side.mp htree
    rw [Frame.attach, root_side] at hpath
    exact ⟨ht, ⟨hpar, hcol, hchild, hsib, hrep, hpath⟩, hnd⟩

/-! ### Frames -/

/-- The entry of an element is the same in two memories. -/
structure Same (m m' : RbMem E) (e : E) : Prop where
  parent : m'.rbeParent e = m.rbeParent e
  color : m'.rbeColor e = m.rbeColor e
  child : ∀ d, m'.rbeChild d e = m.rbeChild d e

theorem Rep.frame : ∀ {t : RbTree E} {p : Option E}, Rep m p t → (∀ e ∈ t.elems, Same m m' e) → Rep m' p t := by
  intro t
  induction t with
  | leaf => exact fun _ _ => trivial
  | node c l e r ihl ihr =>
    rintro p ⟨hpar, hcol, hleft, hright, hl, hr⟩ hsame
    have he := hsame e (by simp [elems])
    refine ⟨he.parent.trans hpar, he.color.trans hcol, (he.child _).trans hleft, (he.child _).trans hright, ?_, ?_⟩
    · exact ihl hl fun x hx => hsame x (by simp [elems, hx])
    · exact ihr hr fun x hx => hsame x (by simp [elems, hx])

theorem Rep.reparent {t : RbTree E} {p q : Option E} (h : Rep m p t) (hnd : t.elems.Nodup)
    (htop : ∀ e, t.root = some e →
      m'.rbeParent e = q ∧ m'.rbeColor e = m.rbeColor e ∧ ∀ d, m'.rbeChild d e = m.rbeChild d e)
    (hsame : ∀ e ∈ t.elems, t.root ≠ some e → Same m m' e) : Rep m' q t := by
  cases t with
  | leaf => trivial
  | node c l e r =>
    obtain ⟨-, hcol, hleft, hright, hl, hr⟩ := h
    obtain ⟨hpar, hcol', hchild⟩ := htop e rfl
    have hsub : ∀ x ∈ l.elems ++ r.elems, Same m m' x := by
      intro x hx
      have hne : x ≠ e := by
        rintro rfl
        simp only [elems, List.nodup_middle, List.nodup_cons] at hnd
        exact hnd.1 hx
      refine hsame x ?_ fun hroot => hne (Option.some.inj hroot).symm
      rcases List.mem_append.mp hx with hx | hx <;> simp [elems, hx]
    exact ⟨hpar, hcol'.trans hcol, (hchild _).trans hleft, (hchild _).trans hright,
      hl.frame fun x hx => hsub x (by simp [hx]), hr.frame fun x hx => hsub x (by simp [hx])⟩

def onPath (path : List (Frame E)) (e : E) : Prop := e ∈ lefts path ∨ e ∈ rights path

theorem onPath_cons {f : Frame E} {path : List (Frame E)} {e : E} :
    onPath (f :: path) e ↔ e = f.elm ∨ e ∈ f.sib.elems ∨ onPath path e := by
  unfold onPath
  rw [lefts, rights]
  cases f.dir <;> simp only [List.mem_append, List.mem_cons, List.not_mem_nil, or_false] <;> tauto

theorem RepPath.frame : ∀ {path : List (Frame E)} {x : Option E}, RepPath m x path → m'.rbhRoot = m.rbhRoot →
    (∀ e, onPath path e → Same m m' e) → RepPath m' x path := by
  intro path
  induction path with
  | nil => exact fun h hroot _ => hroot.trans h
  | cons f path ih =>
    rintro x ⟨hpar, hcol, hchild, hsib, hrep, hpath⟩ hroot hsame
    have hf := hsame f.elm (onPath_cons.mpr (.inl rfl))
    refine ⟨hf.parent.trans hpar, hf.color.trans hcol, (hf.child _).trans hchild, (hf.child _).trans hsib, ?_, ?_⟩
    · exact hrep.frame fun e he => hsame e (onPath_cons.mpr (.inr (.inl he)))
    · exact ih hpath hroot fun e he => hsame e (onPath_cons.mpr (.inr (.inr he)))

/-! ### Distinct nodes -/

/-- Where the pointer at the end of a path is stored, if not in the head. -/
def endAt (path : List (Frame E)) : Option (Dir × E) := path.head?.map fun f => (f.dir, f.elm)

theorem nodup_plug {t : RbTree E} {path : List (Frame E)} (h : (plug t path).elems.Nodup) :
    t.elems.Nodup ∧ ∀ e ∈ t.elems, ¬onPath path e := by
  rw [elems_plug, List.append_assoc] at h
  obtain ⟨-, hrest, hdis⟩ := List.nodup_append.mp h
  obtain ⟨ht, -, hdis'⟩ := List.nodup_append.mp hrest
  refine ⟨ht, fun e he hon => ?_⟩
  rcases hon with hon | hon
  · exact hdis e hon e (List.mem_append_left _ he) rfl
  · exact hdis' e he e hon rfl

theorem nodup_side {d : Dir} {c : Color} {a b : RbTree E} {e : E} (h : (side d c a e b).elems.Nodup) :
    a.elems.Nodup ∧ b.elems.Nodup ∧ e ∉ a.elems ∧ e ∉ b.elems ∧ ∀ x ∈ a.elems, x ∉ b.elems := by
  have key : ∀ {s t : RbTree E}, (node c s e t).elems.Nodup →
      s.elems.Nodup ∧ t.elems.Nodup ∧ e ∉ s.elems ∧ e ∉ t.elems ∧ ∀ x ∈ s.elems, x ∉ t.elems := by
    intro s t hnd
    rw [elems, List.nodup_middle, List.nodup_cons, List.mem_append] at hnd
    obtain ⟨hs, ht, hdis⟩ := List.nodup_append.mp hnd.2
    exact ⟨hs, ht, fun he => hnd.1 (.inl he), fun he => hnd.1 (.inr he), fun x hx hx' => hdis x hx x hx' rfl⟩
  cases d with
  | left => exact key h
  | right =>
    obtain ⟨hb, ha, heb, hea, hdis⟩ := key h
    exact ⟨ha, hb, hea, heb, fun x hx hx' => hdis x hx' hx⟩

theorem onPath_of_endAt {path : List (Frame E)} {d : Dir} {e : E} (h : endAt path = some (d, e)) : onPath path e := by
  cases path with
  | nil => cases h
  | cons f path => exact onPath_cons.mpr (.inl (congrArg Prod.snd (Option.some.inj h)).symm)

theorem RepPath.setEnd {t : RbTree E} {path : List (Frame E)} {x y : Option E} (h : RepPath m x path)
    (hnd : (plug t path).elems.Nodup) (hroot : m'.rbhRoot = if path.isEmpty then y else m.rbhRoot)
    (hparent : ∀ e, onPath path e → m'.rbeParent e = m.rbeParent e)
    (hcolor : ∀ e, onPath path e → m'.rbeColor e = m.rbeColor e)
    (hend : ∀ de, endAt path = some de → m'.rbeChild de.1 de.2 = y)
    (hchild : ∀ d e, onPath path e → endAt path ≠ some (d, e) → m'.rbeChild d e = m.rbeChild d e) :
    RepPath m' y path := by
  cases path with
  | nil => exact hroot
  | cons f path =>
    obtain ⟨hpar, hcol, -, hsib, hrep, hpath⟩ := h
    have hf : onPath (f :: path) f.elm := onPath_cons.mpr (.inl rfl)
    obtain ⟨hattach, houter⟩ := nodup_plug (show (plug (f.attach t) path).elems.Nodup from hnd)
    obtain ⟨-, -, -, hnsib, -⟩ := nodup_side hattach
    have hnpath : ¬onPath path f.elm := houter _ (mem_side.mpr (.inl rfl))
    -- below the end of the path nothing changes
    have hsame : ∀ e, e ≠ f.elm → onPath (f :: path) e → Same m m' e := by
      intro e hne hon
      refine ⟨hparent e hon, hcolor e hon, fun d => hchild d e hon fun heq => hne ?_⟩
      exact (congrArg Prod.snd (Option.some.inj heq)).symm
    have hother : m'.rbeChild f.dir.other f.elm = m.rbeChild f.dir.other f.elm :=
      hchild _ _ hf fun heq => f.dir.ne_other (congrArg Prod.fst (Option.some.inj heq))
    refine ⟨(hparent _ hf).trans hpar, (hcolor _ hf).trans hcol, hend _ rfl, hother.trans hsib, ?_, ?_⟩
    · refine hrep.frame fun e he => hsame e ?_ (onPath_cons.mpr (.inr (.inl he)))
      rintro rfl
      exact hnsib he
    · refine hpath.frame hroot fun e he => hsame e ?_ (onPath_cons.mpr (.inr (.inr he)))
      rintro rfl
      exact hnpath he

/-! ### Rotations -/

variable [DecidableEq E]

/-- What a rotation writes: `x` goes down on the side `d`, its other child `y` takes its place, and the subtree `b` changes
from `y` to `x`. -/
structure Rotated (m m' : RbMem E) (d : Dir) (x y : E) (b : RbTree E) (path : List (Frame E)) : Prop where
  color : m'.rbeColor = m.rbeColor
  root : m'.rbhRoot = if path.isEmpty then some y else m.rbhRoot
  parent : ∀ e, m'.rbeParent e =
    if e = x then some y else if e = y then above path else if b.root = some e then some x else m.rbeParent e
  child : ∀ d' e, m'.rbeChild d' e =
    if d' = d ∧ e = y then some x else if endAt path = some (d', e) then some y
    else if d' = d.other ∧ e = x then b.root else m.rbeChild d' e

def writeEnd (path : List (Frame E)) (x : E) (m : RbMem E) : RbMem E :=
  match path with
  | [] => { m with rbhRoot := some x }
  | f :: _ => m.setChild f.dir f.elm (some x)

@[simp] theorem writeEnd_rbeParent (path : List (Frame E)) (x : E) (m : RbMem E) :
    (m.writeEnd path x).rbeParent = m.rbeParent := by cases path <;> rfl

@[simp] theorem writeEnd_rbeColor (path : List (Frame E)) (x : E) (m : RbMem E) :
    (m.writeEnd path x).rbeColor = m.rbeColor := by cases path <;> rfl

@[simp] theorem writeEnd_rbhRoot (path : List (Frame E)) (x : E) (m : RbMem E) :
    (m.writeEnd path x).rbhRoot = if path.isEmpty then some x else m.rbhRoot := by cases path <;> rfl

@[simp] theorem writeEnd_rbeChild (path : List (Frame E)) (x : E) (m : RbMem E) (d : Dir) (e : E) :
    (m.writeEnd path x).rbeChild d e = if endAt path = some (d, e) then some x else m.rbeChild d e := by
  cases path with
  | nil => rfl
  | cons f path =>
    simp only [writeEnd, setChild, endAt, List.head?_cons, Option.map_some, Option.some.injEq, Prod.mk.injEq, eq_comm]

theorem replaceChild_eq {path : List (Frame E)} {x y : E} (h : RepPath m (some x) path) (hx : ¬onPath path x)
    (hsame : ∀ d e, onPath path e → m'.rbeChild d e = m.rbeChild d e) :
    m'.replaceChild (above path) x y = m'.writeEnd path y := by
  cases path with
  | nil => rfl
  | cons f path =>
    obtain ⟨-, -, hchild, hsib, -⟩ := h
    have hne : f.sib.root ≠ some x := fun heq => hx (onPath_cons.mpr (.inr (.inl (root_mem heq))))
    rw [← hsame _ _ (onPath_cons.mpr (.inl rfl))] at hchild hsib
    simp only [replaceChild, writeEnd, above, List.head?_cons, Option.map_some]
    cases hd : f.dir with
    | left =>
      rw [hd] at hchild
      rw [if_pos hchild]
    | right =>
      rw [hd, Dir.other] at hsib
      rw [if_neg (hsib ▸ hne)]

theorem adopt_eq (child : Option E) (x : E) (m : RbMem E) :
    m.adopt child x = { m with rbeParent := fun e => if child = some e then some x else m.rbeParent e } := by
  cases child with
  | none => simp [adopt]
  | some z => simp only [adopt, setParent, Option.some.injEq, eq_comm]

theorem rotate_eq {d : Dir} {cx cy : Color} {a b c : RbTree E} {x y : E} {path : List (Frame E)}
    (h : At m (side d cx a x (side d cy b y c)) path) : ∃ m', m.rotate d x = some m' ∧ Rotated m m' d x y b path := by
  obtain ⟨hparx, -, -, hyx, -, hy⟩ := rep_side.mp h.rep
  obtain ⟨-, -, hby, -⟩ := rep_side.mp hy
  obtain ⟨hnd, hout⟩ := nodup_plug h.nodup
  obtain ⟨-, hndy, -, hxy, -⟩ := nodup_side hnd
  obtain ⟨-, -, hyb, -⟩ := nodup_side hndy
  have hx : ¬onPath path x := hout x (mem_side.mpr (.inl rfl))
  have hyout : ¬onPath path y := hout y (mem_side.mpr (.inr (.inr (mem_side.mpr (.inl rfl)))))
  have hne : y ≠ x := by
    rintro rfl
    exact hxy (mem_side.mpr (.inl rfl))
  have hbx : b.root ≠ some x := fun heq => hxy (mem_side.mpr (.inr (.inl (root_mem heq))))
  have hpath := h.repPath
  rw [root_side] at hyx hpath
  -- the words before the pointer to `x` is replaced
  let m₁ := m.setChild d.other x b.root
  let m₂ : RbMem E := { m₁ with rbeParent := fun e => if b.root = some e then some x else m₁.rbeParent e }
  let m₃ := m₂.setParent y (above path)
  have hby' : m₁.rbeChild d y = b.root := by simp [m₁, setChild, hby]
  have hpar₂ : m₂.rbeParent x = above path := by simp [m₂, m₁, setChild, hbx, hparx]
  have hpar₃ : m₃.rbeParent x = above path := by simp [m₃, setParent, hne.symm, hpar₂]
  have hend : m₃.replaceChild (above path) x y = m₃.writeEnd path y := by
    refine replaceChild_eq hpath hx fun d' e he => ?_
    have hex : e ≠ x := by
      rintro rfl
      exact hx he
    simp [m₃, m₂, m₁, setParent, setChild, hex]
  have hrun : m.rotate d x = some (((m₃.writeEnd path y).setChild d y (some x)).setParent x (some y)) := by
    simp only [Csf.RbMem.rotate, hyx, hby, Option.bind_eq_bind, Option.bind_some]
    rw [show (m.setChild d.other x b.root).rbeChild d y = b.root from hby', adopt_eq]
    change some ((((m₂.setParent y (m₂.rbeParent x)).replaceChild _ x y).setChild d y _).setParent x _) = _
    rw [hpar₂]
    change some (((m₃.replaceChild (m₃.rbeParent x) x y).setChild d y _).setParent x _) = _
    rw [hpar₃, hend]
  refine ⟨_, hrun, ?_⟩
  constructor <;> simp [m₃, m₂, m₁, setParent, setChild]

/-- A rotation touches the entries of its two nodes, of the node above and of the subtree that changes sides. -/
theorem Rotated.same {d : Dir} {x y e : E} {b : RbTree E} {path : List (Frame E)} (h : Rotated m m' d x y b path)
    (hx : e ≠ x) (hy : e ≠ y) (hb : b.root ≠ some e) (hpath : ¬onPath path e) : Same m m' e := by
  refine ⟨?_, by rw [h.color], fun d' => ?_⟩
  · rw [h.parent, if_neg hx, if_neg hy, if_neg hb]
  · rw [h.child, if_neg fun hc => hy hc.2, if_neg fun hc => hpath (onPath_of_endAt hc), if_neg fun hc => hx hc.2]

theorem At.rotate {d : Dir} {cx cy : Color} {a b c : RbTree E} {x y : E} {path : List (Frame E)}
    (h : At m (side d cx a x (side d cy b y c)) path) :
    ∃ m', m.rotate d x = some m' ∧ At m' (side d cy (side d cx a x b) y c) path := by
  obtain ⟨m', hrun, hrot⟩ := rotate_eq h
  refine ⟨m', hrun, ?_⟩
  obtain ⟨-, hcolx, hax, -, ha, hy⟩ := rep_side.mp h.rep
  obtain ⟨-, hcoly, -, hcy, hb, hc⟩ := rep_side.mp hy
  obtain ⟨hnd, hout⟩ := nodup_plug h.nodup
  obtain ⟨-, hndy, hxa, hxy, hay⟩ := nodup_side hnd
  obtain ⟨hndb, -, hyb, hyc, hbc⟩ := nodup_side hndy
  simp only [mem_side, not_or] at hxy hay
  obtain ⟨hxney, hxb, hxc⟩ := hxy
  have houtx : ¬onPath path x := hout x (mem_side.mpr (.inl rfl))
  have houty : ¬onPath path y := hout y (mem_side.mpr (.inr (.inr (mem_side.mpr (.inl rfl)))))
  -- the subtrees outside of `b` stay as they are
  have hsamea : ∀ e ∈ a.elems, Same m m' e := by
    intro e he
    obtain ⟨hey, heb, -⟩ := hay e he
    exact hrot.same (fun heq => hxa (heq ▸ he)) hey (fun heq => heb (root_mem heq)) (hout e (mem_side.mpr (.inr (.inl he))))
  have hsamec : ∀ e ∈ c.elems, Same m m' e := by
    intro e he
    refine hrot.same (fun heq => hxc (heq ▸ he)) (fun heq => hyc (heq ▸ he)) (fun heq => hbc e (root_mem heq) he) ?_
    exact hout e (mem_side.mpr (.inr (.inr (mem_side.mpr (.inr (.inr he))))))
  have houtb : ∀ e ∈ b.elems, ¬onPath path e := fun e he =>
    hout e (mem_side.mpr (.inr (.inr (mem_side.mpr (.inr (.inl he))))))
  have hrepb : Rep m' (some x) b := by
    refine hb.reparent hndb (fun e he => ?_) fun e he hne => ?_
    · have heb : e ∈ b.elems := root_mem he
      have hex : e ≠ x := fun heq => hxb (heq ▸ heb)
      have hey : e ≠ y := fun heq => hyb (heq ▸ heb)
      refine ⟨?_, by rw [hrot.color], fun d' => ?_⟩
      · rw [hrot.parent, if_neg hex, if_neg hey, if_pos he]
      · rw [hrot.child, if_neg fun hc => hey hc.2, if_neg fun hc => houtb e heb (onPath_of_endAt hc),
          if_neg fun hc => hex hc.2]
    · exact hrot.same (fun heq => hxb (heq ▸ he)) (fun heq => hyb (heq ▸ he)) hne (houtb e he)
  have hrepx : Rep m' (some y) (side d cx a x b) := by
    refine rep_side.mpr ⟨?_, by rw [hrot.color, hcolx], ?_, ?_, ha.frame hsamea, hrepb⟩
    · rw [hrot.parent, if_pos rfl]
    · rw [hrot.child, if_neg fun hc => hxney hc.2, if_neg fun hc => houtx (onPath_of_endAt hc),
        if_neg fun hc => d.ne_other hc.1, hax]
    · rw [hrot.child, if_neg fun hc => hxney hc.2, if_neg fun hc => houtx (onPath_of_endAt hc), if_pos ⟨rfl, rfl⟩]
  refine ⟨rep_side.mpr ⟨?_, by rw [hrot.color, hcoly], ?_, ?_, hrepx, hc.frame hsamec⟩, ?_, ?_⟩
  · rw [hrot.parent, if_neg (Ne.symm hxney), if_pos rfl]
  · rw [hrot.child, if_pos ⟨rfl, rfl⟩, root_side]
  · rw [hrot.child, if_neg fun hc => d.other_ne hc.1, if_neg fun hc => houty (onPath_of_endAt hc),
      if_neg fun hc => hxney hc.2.symm, hcy]
  · have hnotx : ∀ e, onPath path e → e ≠ x ∧ e ≠ y ∧ b.root ≠ some e := by
      intro e he
      refine ⟨?_, ?_, fun heq => houtb e (root_mem heq) he⟩
      · rintro rfl
        exact houtx he
      · rintro rfl
        exact houty he
    rw [root_side]
    refine h.repPath.setEnd h.nodup hrot.root (fun e he => ?_) (fun e _ => by rw [hrot.color]) (fun de hde => ?_)
      fun d' e he hne => ?_
    · obtain ⟨hex, hey, hbe⟩ := hnotx e he
      rw [hrot.parent, if_neg hex, if_neg hey, if_neg hbe]
    · obtain ⟨-, hey, -⟩ := hnotx de.2 (onPath_of_endAt hde)
      rw [hrot.child, if_neg fun hc => hey hc.2, if_pos hde]
    · obtain ⟨hex, hey, -⟩ := hnotx e he
      rw [hrot.child, if_neg fun hc => hey hc.2, if_neg hne, if_neg fun hc => hex hc.2]
  · have helems := h.nodup
    rwa [elems_plug, ← elems_rotate d cx cy cx cy, ← elems_plug] at helems

end RbMem

end Csf
