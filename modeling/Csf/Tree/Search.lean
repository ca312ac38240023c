import Csf.Tree.Insert
import Mathlib.Data.List.Find
import Mathlib.Data.List.Sort

/-!
# Ordered trees: `RB_INSERT` and `RB_FIND`

`Stores key m es`: the memory holds a red-black tree whose elements from left to right are `es`, in the order of their
keys. Where the comparison function is that of the keys, `RB_INSERT` adds an element or returns the one that has the same
key (`insert_spec`), and `RB_FIND` finds what is there (`find_spec`).
-/

namespace Csf

open Lib RbTree

namespace RbMem

variable {E : Type} {κ : Type} [LinearOrder κ] {m : RbMem E} {key : E → κ}

/-- The memory holds a red-black tree of the elements `es`, in the order of their keys. -/
def Stores (key : E → κ) (m : RbMem E) (es : List E) : Prop :=
  ∃ t, At m t [] ∧ t.Valid ∧ t.elems = es ∧ es.Pairwise fun a b => key a < key b

def lookup (key : E → κ) (k : κ) (es : List E) : Option E := es.find? fun e => key e = k

/-- The results of comparisons are those of comparisons with the key `k`. -/
def Compares (key : E → κ) (comp : E → Int) (k : κ) (es : List E) : Prop :=
  ∀ e ∈ es, (comp e < 0 ↔ k < key e) ∧ (0 < comp e ↔ key e < k)

theorem stores_init (m : RbMem E) : Stores key m.init [] :=
  ⟨.leaf, ⟨trivial, rfl, List.nodup_nil⟩, valid_leaf, rfl, .nil⟩

theorem Stores.congr {key' : E → κ} {es : List E} (h : Stores key m es) (hkey : ∀ e ∈ es, key' e = key e) :
    Stores key' m es := by
  obtain ⟨t, hat, hvalid, helems, hsorted⟩ := h
  refine ⟨t, hat, hvalid, helems, hsorted.imp_of_mem fun {a b} ha hb hlt => ?_⟩
  rw [hkey a ha, hkey b hb]
  exact hlt

/-! ### Search -/

theorem lookup_eq_none_of_lt {k : κ} {es : List E} (h : ∀ e ∈ es, key e < k ∨ k < key e) : lookup key k es = none := by
  refine List.find?_eq_none.mpr fun e he heq => ?_
  rw [decide_eq_true_eq] at heq
  rcases h e he with hlt | hlt
  · exact absurd heq hlt.ne
  · exact absurd heq hlt.ne'

theorem find?_eq_lookup {k : κ} {es : List E} {p : E → Bool} (h : ∀ e ∈ es, p e = true ↔ key e = k) :
    es.find? p = lookup key k es := by
  refine List.find?_congr fun e he => ?_
  rw [Bool.eq_iff_iff, h e he, decide_eq_true_eq]

theorem lookup_append (k : κ) (xs ys : List E) : lookup key k (xs ++ ys) = (lookup key k xs).or (lookup key k ys) :=
  List.find?_append

theorem lookup_eq_some_of_mem {k : κ} {es : List E} {e : E} (hsorted : es.Pairwise fun a b => key a < key b) (he : e ∈ es)
    (hk : key e = k) : lookup key k es = some e := by
  obtain ⟨xs, ys, rfl⟩ := List.append_of_mem he
  obtain ⟨-, -, hcross⟩ := List.pairwise_append.mp hsorted
  have hnone : lookup key k xs = none := lookup_eq_none_of_lt fun x hx => .inl (hk ▸ hcross x hx e (by simp))
  rw [lookup_append, hnone, Option.none_or, lookup, List.find?_cons_of_pos (by simpa using hk)]

theorem findFrom_spec {K : Type} {cmp : K → E → Int} {elm : K} {k : κ} : ∀ {t : RbTree E} {p : Option E} {fuel : Nat},
    Rep m p t → (t.elems.Pairwise fun a b => key a < key b) → Compares key (cmp elm) k t.elems → t.height ≤ fuel →
    m.findFrom cmp elm fuel t.root = some (lookup key k t.elems) := by
  intro t
  induction t with
  | leaf =>
    intro p fuel _ _ _ _
    cases fuel <;> rfl
  | node c l e r ihl ihr =>
    rintro p fuel ⟨-, -, hleft, hright, hl, hr⟩ hsorted hcmp hfuel
    obtain ⟨fuel, rfl⟩ : ∃ n, fuel = n + 1 := ⟨fuel - 1, by rw [height] at hfuel; omega⟩
    simp only [height] at hfuel
    obtain ⟨hsl, hsr, hcross⟩ := List.pairwise_append.mp hsorted
    obtain ⟨her, hsr⟩ := List.pairwise_cons.mp hsr
    obtain ⟨hlt, hgt⟩ := hcmp e (by simp [elems])
    have hcl : Compares key (cmp elm) k l.elems := fun x hx => hcmp x (by simp [elems, hx])
    have hcr : Compares key (cmp elm) k r.elems := fun x hx => hcmp x (by simp [elems, hx])
    have hle : ∀ x ∈ l.elems, key x < key e := fun x hx => hcross x hx e (by simp)
    simp only [root, findFrom, elems, lookup_append]
    split_ifs with hneg hpos
    · -- nothing from `e` on has the key
      have hk := hlt.mp hneg
      have hnone : lookup key k (e :: r.elems) = none := by
        refine lookup_eq_none_of_lt fun x hx => .inr ?_
        rcases List.mem_cons.mp hx with rfl | hx
        · exact hk
        · exact hk.trans (her x hx)
      rw [hleft, ihl hl hsl hcl (by omega), hnone, Option.or_none]
    · have hk := hgt.mp hpos
      have hnone : lookup key k (l.elems ++ [e]) = none := by
        refine lookup_eq_none_of_lt fun x hx => .inl ?_
        rcases List.mem_append.mp hx with hx | hx
        · exact (hle x hx).trans hk
        · rwa [List.mem_singleton.mp hx]
      rw [hright, ihr hr hsr hcr (by omega), ← lookup_append, List.append_cons, lookup_append, hnone, Option.none_or]
    · have hk : key e = k := le_antisymm (not_lt.mp fun h => hneg (hlt.mpr h)) (not_lt.mp fun h => hpos (hgt.mpr h))
      have hsome := lookup_eq_some_of_mem hsorted (show e ∈ (node c l e r).elems by simp [elems]) hk
      rw [elems, lookup_append] at hsome
      rw [hsome]

theorem Stores.lookup_perm {es l : List E} (h : Stores key m es) (hperm : es.Perm l) (k : κ) :
    lookup key k l = lookup key k es := by
  obtain ⟨-, -, -, -, hsorted⟩ := h
  cases hl : lookup key k l with
  | none =>
    rw [eq_comm, lookup, List.find?_eq_none]
    exact fun e he => List.find?_eq_none.mp hl e (hperm.mem_iff.mp he)
  | some e =>
    have hk : key e = k := of_decide_eq_true (List.find?_some (p := fun e => decide (key e = k)) hl)
    exact (lookup_eq_some_of_mem hsorted (hperm.mem_iff.mpr (List.mem_of_find?_eq_some hl)) hk).symm

theorem Stores.find {K : Type} {cmp : K → E → Int} {elm : K} {k : κ} {es : List E} {fuel : Nat} (h : Stores key m es)
    (hcmp : Compares key (cmp elm) k es) (hfuel : 2 * Nat.log 2 (es.length + 1) ≤ fuel) :
    m.find cmp fuel elm = some (lookup key k es) := by
  obtain ⟨t, hat, hvalid, rfl, hsorted⟩ := h
  have hroot : m.rbhRoot = t.root := hat.repPath
  rw [RbMem.find, hroot]
  exact findFrom_spec hat.rep hsorted hcmp (hvalid.height_le_log.trans hfuel)

/-! ### The place of a new element -/

/-- The side on which the path goes down from the last node that was compared. -/
def SideOf (comp : Int) (path : List (Frame E)) : Prop := ∀ f ∈ path.head?, f.dir = .left ↔ comp < 0

/-- A place in a tree between the smaller and the greater keys. -/
structure Between (key : E → κ) (k : κ) (path : List (Frame E)) : Prop where
  lefts : ∀ e ∈ lefts path, key e < k
  rights : ∀ e ∈ rights path, k < key e

/-- Where the search of `RB_INSERT` ends in the tree `t`, at most `n` levels down. -/
inductive Found (key : E → κ) (k : κ) (m : RbMem E) (t : RbTree E) (n : Nat) : Place E → Prop
  | found {tmp : E} (hmem : tmp ∈ t.elems) (hkey : key tmp = k) : Found key k m t n (.found tmp)
  | free {path : List (Frame E)} {comp : Int} (hat : At m .leaf path) (hplug : plug .leaf path = t)
      (hbetween : Between key k path) (hside : SideOf comp path) (hlen : path.length ≤ n) :
      Found key k m t n (.free (above path) comp)

theorem insertSearch_spec {cmp : E → E → Int} {elm : E} {k : κ} {n : Nat} :
    ∀ {t : RbTree E} {path : List (Frame E)} {fuel : Nat} {comp : Int}, At m t path →
    (t.elems.Pairwise fun a b => key a < key b) → Compares key (cmp elm) k t.elems → Between key k path →
    SideOf comp path → t.height ≤ fuel → path.length + t.height ≤ n →
    ∃ place, m.insertSearch cmp elm fuel t.root (above path) comp = some place ∧ Found key k m (plug t path) n place := by
  intro t
  induction t with
  | leaf =>
    intro path fuel comp hat _ _ hbetween hside _ hlen
    refine ⟨.free (above path) comp, ?_, .free hat rfl hbetween hside (by simpa [height] using hlen)⟩
    cases fuel <;> rfl
  | node c l e r ihl ihr =>
    intro path fuel comp hat hsorted hcmp hbetween _ hfuel hlen
    obtain ⟨fuel, rfl⟩ : ∃ n, fuel = n + 1 := ⟨fuel - 1, by rw [height] at hfuel; omega⟩
    simp only [height] at hfuel hlen
    obtain ⟨hsl, hsr, hcross⟩ := List.pairwise_append.mp hsorted
    obtain ⟨her, hsr⟩ := List.pairwise_cons.mp hsr
    obtain ⟨hlt, hgt⟩ := hcmp e (by simp [elems])
    obtain ⟨-, -, hleft, hright, -⟩ := hat.rep
    simp only [root, insertSearch]
    split_ifs with hneg hpos
    · have hk := hlt.mp hneg
      have hbetween' : Between key k (⟨.left, c, e, r⟩ :: path) := by
        refine ⟨hbetween.lefts, fun x hx => ?_⟩
        simp only [rights, List.cons_append, List.mem_cons, List.mem_append] at hx
        rcases hx with rfl | hx | hx
        · exact hk
        · exact hk.trans (her x hx)
        · exact hbetween.rights x hx
      have hside' : SideOf (cmp elm e) (⟨.left, c, e, r⟩ :: path) := by
        intro f hf
        obtain rfl := Option.some.inj hf
        exact iff_of_true rfl hneg
      rw [hleft]
      refine ihl ((at_cons (f := ⟨.left, c, e, r⟩)).mpr hat) hsl (fun x hx => hcmp x (by simp [elems, hx])) hbetween' hside'
        (by omega) ?_
      rw [List.length_cons]
      omega
    · have hk := hgt.mp hpos
      have hbetween' : Between key k (⟨.right, c, e, l⟩ :: path) := by
        refine ⟨fun x hx => ?_, hbetween.rights⟩
        simp only [lefts, List.mem_append, List.mem_singleton] at hx
        rcases hx with hx | hx | rfl
        · exact hbetween.lefts x hx
        · exact (hcross x hx e (by simp)).trans hk
        · exact hk
      have hside' : SideOf (cmp elm e) (⟨.right, c, e, l⟩ :: path) := by
        intro f hf
        obtain rfl := Option.some.inj hf
        exact iff_of_false (by simp) hneg
      rw [hright]
      refine ihr ((at_cons (f := ⟨.right, c, e, l⟩)).mpr hat) hsr (fun x hx => hcmp x (by simp [elems, hx])) hbetween' hside'
        (by omega) ?_
      rw [List.length_cons]
      omega
    · have hk : key e = k := le_antisymm (not_lt.mp fun h => hneg (hlt.mpr h)) (not_lt.mp fun h => hpos (hgt.mpr h))
      exact ⟨_, rfl, .found (by simp [elems_plug, elems]) hk⟩

/-! ### Insertion -/

variable [DecidableEq E]

@[simp] theorem set_rbhRoot (e : E) (p : Option E) (m : RbMem E) : (m.set e p).rbhRoot = m.rbhRoot := rfl

@[simp] theorem set_rbeParent (e x : E) (p : Option E) (m : RbMem E) :
    (m.set e p).rbeParent x = if x = e then p else m.rbeParent x := rfl

@[simp] theorem set_rbeColor (e x : E) (p : Option E) (m : RbMem E) :
    (m.set e p).rbeColor x = if x = e then .red else m.rbeColor x := rfl

@[simp] theorem set_rbeChild (d : Dir) (e x : E) (p : Option E) (m : RbMem E) :
    (m.set e p).rbeChild d x = if x = e then none else m.rbeChild d x := by
  by_cases hx : x = e <;> cases d <;> simp [set, setColor, setChild, setParent, hx]

theorem link_eq {path : List (Frame E)} {comp : Int} {elm : E} (hside : SideOf comp path) (m : RbMem E) :
    m.link (above path) comp elm = m.writeEnd path elm := by
  cases path with
  | nil => rfl
  | cons f path =>
    have hf := hside f rfl
    simp only [link, writeEnd, above, List.head?_cons, Option.map_some]
    cases hd : f.dir with
    | left => rw [if_pos (hf.mp hd)]
    | right => rw [if_neg fun hneg => by simp [hd] at hf; omega]

theorem At.link {path : List (Frame E)} {comp : Int} {elm : E} (h : At m .leaf path) (hside : SideOf comp path)
    (hnew : ¬onPath path elm) :
    At ((m.set elm (above path)).link (above path) comp elm) (node .red .leaf elm .leaf) path := by
  rw [link_eq hside]
  have hne : ∀ e, onPath path e → e ≠ elm := by
    rintro e he rfl
    exact hnew he
  have hend : ∀ d, endAt path ≠ some (d, elm) := fun d heq => hnew (onPath_of_endAt heq)
  refine ⟨⟨?_, ?_, ?_, ?_, trivial, trivial⟩, ?_, ?_⟩
  · simp
  · simp
  · simp [hend, root]
  · simp [hend, root]
  · refine h.repPath.setEnd h.nodup (by simp [root]) (fun e he => ?_) (fun e he => ?_) (fun de hde => by simp [hde, root])
      fun d e he hde => ?_
    · simp [hne e he]
    · simp [hne e he]
    · simp [hne e he, hde]
  · have hnd := h.nodup
    rw [elems_plug] at hnd ⊢
    simp only [elems, List.append_nil, List.nil_append, List.append_assoc, List.singleton_append] at hnd ⊢
    rw [List.nodup_middle, List.nodup_cons, List.mem_append]
    exact ⟨hnew, hnd⟩

omit [DecidableEq E] in
theorem Between.notOnPath {k : κ} {path : List (Frame E)} {elm : E} (h : Between key k path) (hk : key elm = k) :
    ¬onPath path elm := by
  rintro (hon | hon)
  · exact (h.lefts elm hon).ne hk
  · exact (h.rights elm hon).ne' hk

omit [DecidableEq E] in
theorem repairable_of_leaf {path : List (Frame E)} {elm : E} (h : (plug .leaf path).Valid) :
    Repairable (node .red .leaf elm .leaf) path 0 := by
  obtain ⟨n, hn, -, hpath, -⟩ := PathOk.of_plug h
  obtain rfl : n = 0 := hn
  exact ⟨rfl, ⟨0, rfl, rfl, rfl⟩, ⟨fun _ => ⟨rfl, rfl⟩, trivial, trivial⟩, hpath⟩

/-- `RB_INSERT` returns the element that has the key and leaves the tree as it is, or it returns NULL and the tree has the
new element. It follows no NULL pointer. -/
theorem Stores.insert {cmp : E → E → Int} {elm : E} {es : List E} {fuel : Nat} (h : Stores key m es)
    (hcmp : Compares key (cmp elm) (key elm) es) (hfuel : 2 * Nat.log 2 (es.length + 1) ≤ fuel) :
    match lookup key (key elm) es with
    | some e => m.insert cmp fuel elm = some (some e, m)
    | none => ∃ m' es', m.insert cmp fuel elm = some (none, m') ∧ Stores key m' es' ∧ es'.Perm (elm :: es) := by
  obtain ⟨t, hat, hvalid, rfl, hsorted⟩ := h
  have hheight : t.height ≤ fuel := hvalid.height_le_log.trans hfuel
  have hroot : m.rbhRoot = t.root := hat.repPath
  have hside : SideOf 0 ([] : List (Frame E)) := fun f hf => by cases hf
  obtain ⟨place, hsearch, hfound⟩ := insertSearch_spec (k := key elm) (n := t.height) hat hsorted hcmp
    ⟨by simp [lefts], by simp [rights]⟩ hside hheight (by simp)
  rw [← hroot, above, List.head?_nil, Option.map_none] at hsearch
  cases hfound with
  | @found tmp hmem hkey =>
    rw [lookup_eq_some_of_mem hsorted hmem hkey]
    simp only [RbMem.insert, hsearch, Option.bind_eq_bind, Option.bind_some]
  | @free path comp hat' hplug hbetween hside' hlen =>
    rw [show plug t [] = t from rfl] at hplug
    have helems : t.elems = lefts path ++ rights path := by rw [← hplug, elems_plug, elems, List.append_nil]
    have hnone : lookup key (key elm) t.elems = none := by
      refine lookup_eq_none_of_lt fun e he => ?_
      rw [helems, List.mem_append] at he
      exact he.imp (hbetween.lefts e) (hbetween.rights e)
    have hlink := hat'.link hside' (hbetween.notOnPath (show key elm = key elm from rfl))
    obtain ⟨m', t', hcolor, hat'', hvalid', helems'⟩ := insertColor_spec hlink
      (repairable_of_leaf (hplug ▸ hvalid)) rfl (show path.length ≤ 2 * fuel by omega)
    rw [elems_plug] at helems'
    simp only [elems, List.nil_append, List.append_assoc, List.singleton_append] at helems'
    rw [hnone]
    refine ⟨m', t'.elems, ?_, ⟨t', hat'', hvalid', rfl, ?_⟩, ?_⟩
    · simp only [RbMem.insert, hsearch, hcolor, Option.bind_eq_bind, Option.bind_some]
    · rw [helems] at hsorted
      obtain ⟨hsl, hsr, hcross⟩ := List.pairwise_append.mp hsorted
      rw [helems']
      refine List.pairwise_append.mpr ⟨hsl, List.pairwise_cons.mpr ⟨hbetween.rights, hsr⟩, fun a ha b hb => ?_⟩
      rcases List.mem_cons.mp hb with rfl | hb
      · exact hbetween.lefts a ha
      · exact hcross a ha b hb
    · rw [helems', helems]
      exact List.perm_middle

end RbMem

end Csf
