import Csf.Tree.Rotate

/-!
# Insertion: the colours

`RB_INSERT_COLOR` climbs from the new node to the top. Before each round the memory holds a tree that is `Repairable` at
the node `elm` (`insertColor_spec`): a round paints three nodes and climbs two levels, or it rotates and the loop ends
(`insertColorRound_spec`). A NULL pointer is never followed.
-/

namespace Csf

open Lib RbTree

namespace RbMem

variable {E : Type} [DecidableEq E] {m m' : RbMem E}

/-! ### Colours -/

theorem At.setColor {d : Dir} {c c' : Color} {a b : RbTree E} {e : E} {path : List (Frame E)}
    (h : At m (side d c a e b) path) : At (m.setColor e c') (side d c' a e b) path := by
  obtain ⟨hpar, -, ha, hb, hrepa, hrepb⟩ := rep_side.mp h.rep
  obtain ⟨hnd, hout⟩ := nodup_plug h.nodup
  obtain ⟨-, -, hea, heb, -⟩ := nodup_side hnd
  have hsame : ∀ x, x ≠ e → Same m (m.setColor e c') x := fun x hne =>
    ⟨rfl, by simp [RbMem.setColor, hne], fun _ => rfl⟩
  have hpath : ∀ x, onPath path x → Same m (m.setColor e c') x := by
    intro x hx
    refine hsame x ?_
    rintro rfl
    exact hout _ (mem_side.mpr (.inl rfl)) hx
  refine ⟨rep_side.mpr ⟨hpar, by simp [RbMem.setColor], ha, hb, ?_, ?_⟩, ?_, ?_⟩
  · exact hrepa.frame fun x hx => hsame x fun heq => hea (heq ▸ hx)
  · exact hrepb.frame fun x hx => hsame x fun heq => heb (heq ▸ hx)
  · have hroot := h.repPath
    rw [root_side] at hroot ⊢
    exact hroot.frame rfl hpath
  · have helems := h.nodup
    have heq : (side d c' a e b).elems = (side d c a e b).elems := by cases d <;> rfl
    rwa [elems_plug, ← heq, ← elems_plug] at helems

omit [DecidableEq E] in
theorem at_side {d : Dir} {c : Color} {a b : RbTree E} {e : E} {path : List (Frame E)} :
    At m (side d c a e b) path ↔ At m a (⟨d, c, e, b⟩ :: path) :=
  (at_cons (f := ⟨d, c, e, b⟩)).symm

theorem At.setColor_child {d d' : Dir} {c c₁ c₂ : Color} {a b s : RbTree E} {e p : E} {path : List (Frame E)}
    (h : At m (side d' c (side d c₁ a e b) p s) path) :
    At (m.setColor e c₂) (side d' c (side d c₂ a e b) p s) path :=
  at_side.mpr (at_side.mp h).setColor

theorem At.setBlackred {d d' : Dir} {c c' : Color} {a b s : RbTree E} {e p : E} {path : List (Frame E)}
    (h : At m (side d' c (side d c' a e b) p s) path) :
    At (m.setBlackred e p) (side d' .red (side d .black a e b) p s) path :=
  h.setColor_child.setColor

omit [DecidableEq E] in
theorem At.plug : ∀ {path : List (Frame E)} {t : RbTree E}, At m t path → At m (plug t path) [] := by
  intro path
  induction path with
  | nil => exact id
  | cons f path ih => exact fun h => ih (at_cons.mp h)

omit [DecidableEq E] in
theorem At.parent_eq {t : RbTree E} {path : List (Frame E)} {elm : E} (h : At m t path) (helm : t.root = some elm) :
    m.rbeParent elm = above path := by
  cases t with
  | leaf => cases helm
  | node c l e r =>
    obtain rfl := Option.some.inj helm
    exact h.rep.1

theorem At.blacken {t : RbTree E} (h : At m t []) (hne : t ≠ .leaf) :
    ∃ m', (m.rbhRoot.map fun root => m.setColor root .black) = some m' ∧ At m' t.blacken [] := by
  cases t with
  | leaf => exact absurd rfl hne
  | node c l e r =>
    have hroot : m.rbhRoot = some e := h.repPath
    exact ⟨m.setColor e .black, by rw [hroot, Option.map_some], At.setColor (d := .left) h⟩

/-! ### One round -/

theorem insertColorRound_eq {t : RbTree E} {f g : Frame E} {path : List (Frame E)} (elm : E) (h : At m t (f :: g :: path)) :
    m.insertColorRound elm f.elm = m.insertColorSide g.dir elm f.elm g.elm := by
  have hg := at_cons.mp h
  obtain ⟨hpar, -⟩ := rep_side.mp hg.rep
  obtain ⟨-, -, hchild, hsib, -⟩ := hg.repPath
  rw [Frame.attach, root_side] at hchild
  obtain ⟨hnd, -⟩ := nodup_plug (at_cons.mp hg).nodup
  obtain ⟨-, -, -, -, hdis⟩ := nodup_side hnd
  have hne : g.sib.root ≠ some f.elm := fun heq => hdis f.elm (mem_side.mpr (.inl rfl)) (root_mem heq)
  simp only [insertColorRound, hpar, above, List.head?_cons, Option.map_some, Option.bind_eq_bind, Option.bind_some]
  cases hd : g.dir with
  | left => rw [if_pos (hd ▸ hchild)]
  | right =>
    rw [hd, Dir.other] at hsib
    rw [if_neg (hsib ▸ hne)]

omit [DecidableEq E] in
theorem redSib_eq {t : RbTree E} {g : Frame E} {path : List (Frame E)} (h : At m t (g :: path)) :
    ((m.rbeChild g.dir.other g.elm).filter fun tmp => m.rbeColor tmp = .red) =
      if g.sib.color = .red then g.sib.root else none := by
  obtain ⟨-, -, -, hsib, hrep, -⟩ := h.repPath
  rw [hsib]
  cases hg : g.sib with
  | leaf => rfl
  | node c a u b =>
    rw [hg] at hrep
    cases c <;> simp [root, color, Option.filter, hrep.2.1]

/-- What a round leaves: the tree is repairable two levels higher, or it is a red-black tree and the loop ends. -/
inductive Round (m' : RbMem E) (t : RbTree E) (path : List (Frame E)) (n : Nat) : E → Prop
  | climb {t' : RbTree E} {elm : E} (hat : At m' t' path) (hrep : Repairable t' path n) (hroot : t'.root = some elm)
      (helems : t'.elems = t.elems) : Round m' t path n elm
  | stop {t' : RbTree E} {elm : E} (hat : At m' t' path) (hvalid : (plug t' path).Valid)
      (hblack : m'.redParent elm = none) (helems : t'.elems = t.elems) : Round m' t path n elm

theorem insertColorSide_recolor {t : RbTree E} {f g : Frame E} {path : List (Frame E)} {n : Nat} (elm : E)
    (h : At m t (f :: g :: path)) (hrep : Repairable t (f :: g :: path) n) (hf : f.color = .red) (hg : g.color = .black)
    (hsib : g.sib.color = .red) :
    ∃ m', m.insertColorSide g.dir elm f.elm g.elm = some (g.elm, m') ∧
      Round m' (g.attach (f.attach t)) path (n + 1) g.elm := by
  have hat := at_cons.mp (at_cons.mp h)
  obtain ⟨a, u, b, hu⟩ : ∃ a u b, g.sib = side g.dir .red a u b := by
    cases hs : g.sib with
    | leaf => rw [hs] at hsib; cases hsib
    | node c l u r =>
      rw [hs] at hsib
      obtain rfl : c = .red := hsib
      cases g.dir with
      | left => exact ⟨l, u, r, rfl⟩
      | right => exact ⟨r, u, l, rfl⟩
  refine ⟨(m.setColor u .black).setBlackred f.elm g.elm, ?_, ?_⟩
  · rw [insertColorSide, redSib_eq (at_cons.mp h), if_pos hsib, hu, root_side]
  · rw [Frame.attach, Frame.attach, hu] at hat
    -- the sibling is painted as the child on the other side
    rw [← side_other] at hat
    have hblack : At (m.setColor u .black) _ path := hat.setColor_child
    rw [side_other] at hblack
    refine .climb hblack.setBlackred (hrep.recolor hf hg hu) (root_side _ _ _ _ _) ?_
    rw [Frame.attach, Frame.attach, hu]
    cases f.dir <;> cases g.dir <;> rfl

theorem At.rotateUp {d : Dir} {c c' : Color} {a b s : RbTree E} {e p : E} {path : List (Frame E)}
    (h : At m (side d c (side d c' a e b) p s) path) : ∃ m', (m.setBlackred e p).rotate d.other p = some m' ∧
      At m' (side d .black a e (side d .red b p s)) path := by
  have hat := h.setBlackred
  rw [← side_other d .red, ← side_other d .black] at hat
  obtain ⟨m', hrun, hat'⟩ := hat.rotate
  rw [side_other, side_other] at hat'
  exact ⟨m', hrun, hat'⟩

omit [DecidableEq E] in
theorem At.redParent_none {d : Dir} {a b : RbTree E} {e elm : E} {path : List (Frame E)}
    (h : At m (side d .black a e b) path) (helm : a.root = some elm) : m.redParent elm = none := by
  obtain ⟨-, hcol, -⟩ := rep_side.mp h.rep
  rw [redParent, (at_side.mp h).parent_eq helm]
  simp [above, Option.filter, hcol]

theorem insertColorSide_outer {t : RbTree E} {f g : Frame E} {path : List (Frame E)} {n : Nat} {elm : E}
    (h : At m t (f :: g :: path)) (hrep : Repairable t (f :: g :: path) n) (helm : t.root = some elm)
    (hf : f.color = .red) (hg : g.color = .black) (hsib : g.sib.color = .black) (hdir : f.dir = g.dir) :
    ∃ m', m.insertColorSide g.dir elm f.elm g.elm = some (elm, m') ∧
      Round m' (g.attach (f.attach t)) path (n + 1) elm := by
  have hat := at_cons.mp (at_cons.mp h)
  obtain ⟨-, -, -, hchild, -⟩ := h.repPath
  obtain ⟨-, -, -, -, hdis⟩ := nodup_side (nodup_plug (at_cons.mp h).nodup).1
  have htest : m.rbeChild g.dir.other f.elm ≠ some elm := by
    rw [← hdir, hchild]
    exact fun heq => hdis elm (root_mem helm) (root_mem heq)
  rw [Frame.attach, Frame.attach, hdir] at hat ⊢
  obtain ⟨m', hrun, hat'⟩ := hat.rotateUp
  refine ⟨m', ?_, .stop hat' (hrep.outer hf hg hsib) (hat'.redParent_none helm) ?_⟩
  · rw [insertColorSide, redSib_eq (at_cons.mp h), hsib, if_neg (by simp), if_neg htest, hrun]
    rfl
  · cases g.dir <;> simp [side, elems]

theorem insertColorSide_inner {t : RbTree E} {f g : Frame E} {path : List (Frame E)} {n : Nat} {elm : E}
    (h : At m t (f :: g :: path)) (hrep : Repairable t (f :: g :: path) n) (helm : t.root = some elm)
    (hf : f.color = .red) (hg : g.color = .black) (hsib : g.sib.color = .black) (hdir : f.dir = g.dir.other) :
    ∃ m', m.insertColorSide g.dir elm f.elm g.elm = some (f.elm, m') ∧
      Round m' (g.attach (f.attach t)) path (n + 1) f.elm := by
  obtain ⟨a, b, rfl⟩ : ∃ a b, t = side g.dir .red a elm b := by
    cases t with
    | leaf => cases helm
    | node c l e r =>
      obtain rfl := Option.some.inj helm
      obtain rfl : c = .red := hrep.red
      cases g.dir with
      | left => exact ⟨l, r, rfl⟩
      | right => exact ⟨r, l, rfl⟩
  have hat := at_cons.mp h
  obtain ⟨-, -, htest, -⟩ := h.repPath
  rw [root_side, hdir] at htest
  rw [Frame.attach, hdir, side_other] at hat
  obtain ⟨m₁, hrun₁, hat₁⟩ := hat.rotate
  obtain ⟨m₂, hrun₂, hat₂⟩ := (at_cons.mp hat₁).rotateUp
  rw [hf] at hat₂
  refine ⟨m₂, ?_, .stop hat₂ (hrep.inner hf hg hsib) (hat₂.redParent_none (root_side _ _ _ _ _)) ?_⟩
  · rw [insertColorSide, redSib_eq (at_cons.mp h), hsib, if_neg (by simp), if_pos htest, hrun₁]
    simp only [Option.bind_eq_bind, Option.bind_some, hrun₂]
  · rw [Frame.attach, Frame.attach, hdir]
    cases g.dir <;> simp [side, elems, Dir.other]

theorem insertColorRound_spec {t : RbTree E} {f g : Frame E} {path : List (Frame E)} {n : Nat} {elm : E}
    (h : At m t (f :: g :: path)) (hrep : Repairable t (f :: g :: path) n) (helm : t.root = some elm)
    (hf : f.color = .red) (hg : g.color = .black) :
    ∃ elm' m', m.insertColorRound elm f.elm = some (elm', m') ∧
      Round m' (g.attach (f.attach t)) path (n + 1) elm' := by
  rw [insertColorRound_eq elm h]
  cases hsib : g.sib.color with
  | red =>
    obtain ⟨m', hrun, hround⟩ := insertColorSide_recolor elm h hrep hf hg hsib
    exact ⟨g.elm, m', hrun, hround⟩
  | black =>
    rcases g.dir.eq_or_other f.dir with hdir | hdir
    · obtain ⟨m', hrun, hround⟩ := insertColorSide_outer h hrep helm hf hg hsib hdir
      exact ⟨elm, m', hrun, hround⟩
    · obtain ⟨m', hrun, hround⟩ := insertColorSide_inner h hrep helm hf hg hsib hdir
      exact ⟨f.elm, m', hrun, hround⟩

/-! ### The loop -/

theorem insertColor_of_none {fuel : Nat} {elm : E} (h : m.redParent elm = none) :
    m.insertColor fuel elm = m.rbhRoot.map fun root => m.setColor root .black := by
  unfold insertColor
  rw [h]

theorem insertColor_succ {fuel : Nat} {elm parent : E} (h : m.redParent elm = some parent) :
    m.insertColor (fuel + 1) elm = (m.insertColorRound elm parent).bind fun (elm, m) => insertColor fuel elm m := by
  conv_lhs => rw [insertColor.eq_def]
  simp only [h]

omit [DecidableEq E] in
theorem At.redParent_eq {t : RbTree E} {path : List (Frame E)} {elm : E} (h : At m t path) (helm : t.root = some elm) :
    m.redParent elm = (path.head?.filter fun f => f.color = .red).map Frame.elm := by
  rw [redParent, h.parent_eq helm]
  cases path with
  | nil => rfl
  | cons f path =>
    obtain ⟨-, hcol, -⟩ := h.repPath
    cases hf : f.color <;> simp [above, Option.filter, hcol, hf]

theorem At.insertColor_done {t : RbTree E} {path : List (Frame E)} {elm : E} (h : At m t path)
    (hne : (RbTree.plug t path).elems ≠ []) (hvalid : (RbTree.plug t path).blacken.Valid)
    (hnone : m.redParent elm = none) (fuel : Nat) :
    ∃ m' t', m.insertColor fuel elm = some m' ∧ At m' t' [] ∧ t'.Valid ∧ t'.elems = (RbTree.plug t path).elems := by
  have hleaf : RbTree.plug t path ≠ .leaf := by
    intro heq
    rw [heq] at hne
    exact hne rfl
  obtain ⟨m', hrun, hat⟩ := h.plug.blacken hleaf
  exact ⟨m', _, (insertColor_of_none hnone).trans hrun, hat, hvalid, elems_blacken _⟩

omit [DecidableEq E] in
theorem elems_plug_ne_nil {t : RbTree E} {elm : E} (h : t.root = some elm) (path : List (Frame E)) :
    (plug t path).elems ≠ [] := by
  rw [elems_plug]
  exact List.ne_nil_of_mem (List.mem_append_left _ (List.mem_append_right _ (root_mem h)))

/-- The loop ends at a red-black tree of the same elements, with a round for every two levels that it climbs. -/
theorem insertColor_spec : ∀ {fuel : Nat} {m : RbMem E} {t : RbTree E} {path : List (Frame E)} {n : Nat} {elm : E},
    At m t path → Repairable t path n → t.root = some elm → path.length ≤ 2 * fuel →
    ∃ m' t', m.insertColor fuel elm = some m' ∧ At m' t' [] ∧ t'.Valid ∧ t'.elems = (plug t path).elems := by
  intro fuel
  induction fuel with
  | zero =>
    intro m t path n elm hat hrep helm hlen
    obtain rfl : path = [] := List.eq_nil_of_length_eq_zero (by omega)
    exact hat.insertColor_done (elems_plug_ne_nil helm _) (hrep.done (by simp)) (hat.redParent_eq helm) 0
  | succ fuel ih =>
    intro m t path n elm hat hrep helm hlen
    cases hred : m.redParent elm with
    | none =>
      refine hat.insertColor_done (elems_plug_ne_nil helm _) (hrep.done fun f hf => ?_) hred _
      rw [hat.redParent_eq helm, Option.map_eq_none_iff, Option.filter_eq_none_iff] at hred
      have hne := hred f hf
      cases hc : f.color <;> simp_all
    | some parent =>
      have hparent := hred
      rw [hat.redParent_eq helm, Option.map_eq_some_iff] at hred
      obtain ⟨f, hfilter, rfl⟩ := hred
      obtain ⟨hhead, hf⟩ := Option.filter_eq_some_iff.mp hfilter
      obtain ⟨rest, rfl⟩ := List.head?_eq_some_iff.mp hhead
      obtain ⟨g, path, rfl, hg⟩ := hrep.grandparent (of_decide_eq_true hf)
      obtain ⟨elm', m', hrun, hround⟩ := insertColorRound_spec hat hrep helm (of_decide_eq_true hf) hg
      rw [insertColor_succ hparent, hrun, Option.bind_some, RbTree.plug, RbTree.plug, elems_plug]
      cases hround with
      | climb hat' hrep' hroot helems =>
        simp only [List.length_cons] at hlen
        rw [← helems, ← elems_plug]
        exact ih hat' hrep' hroot (by omega)
      | @stop t' _ hat' hvalid hblack helems =>
        have hlen' : (plug t' path).elems ≠ [] := by
          rw [elems_plug, helems]
          exact List.ne_nil_of_mem (List.mem_append_left _ (List.mem_append_right _ (mem_side.mpr (.inl rfl))))
        rw [← helems, ← elems_plug]
        exact hat'.insertColor_done hlen' (blacken_valid hvalid.balanced hvalid.noRedRed) hblack fuel

end RbMem

end Csf
