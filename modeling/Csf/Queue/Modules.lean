import Csf.Config.Order
import Csf.Queue.Tailq

/-!
# The module queue as pointers

`mod_config_init` inserts every module into its queue with `TAILQ_FOREACH`, `TAILQ_INSERT_BEFORE`, `TAILQ_LAST` and
`TAILQ_INSERT_TAIL`. `insertModuleLinks` is that insertion on the pointers of the queue, for the block `e`; the blocks are
numbered in the order in which they are allocated and `mod` gives their contents. The queue it builds is the list that
`insertModule` builds.
-/

namespace Csf

open Lib

variable {mod : Nat → ModConfig} {m : Tailq Unit Nat} {l : List Nat} {e : Nat}

/-- The `TAILQ_FOREACH` of `mod_config_init` from the block `var` on: the first module of a larger pipeline than `id`,
or NULL. `fuel` bounds the rounds. -/
def findLarger (mod : Nat → ModConfig) (id : UInt32) (m : Tailq Unit Nat) : Nat → Ptr Nat → Option (Ptr Nat)
  | _, .null => some .null
  | _, .invalid => none
  | 0, .elm _ => none
  | fuel + 1, .elm x =>
    if (mod x).pipelineId > id then some (.elm x) else findLarger mod id m fuel (m.tqeNext x)

/-- The insertion of block `e` at the end of the loop body of `mod_config_init`; `e` blocks were inserted before. -/
def insertModuleLinks (mod : Nat → ModConfig) (e : Nat) (m : Tailq Unit Nat) : Option (Tailq Unit Nat) :=
  if m.empty () then some (m.insertTail () e)
  else do
    match ← findLarger mod (mod e).pipelineId m e (m.tqhFirst ()) with
    | .elm x => m.insertBefore x e
    | _ =>
      match ← m.last () with
      | .elm x =>
        if (mod x).pipelineId = (mod e).pipelineId then
          if (mod x).stageId > (mod e).stageId then m.insertBefore x e else some (m.insertTail () e)
        else some (m.insertTail () e)
      | _ => some (m.insertTail () e)

/-! ### The search -/

theorem findLarger_eq (mod : Nat → ModConfig) (id : UInt32) (rest : List Nat) : ∀ (pre : List Nat) (fuel : Nat),
    m.Holds () (pre ++ rest) → rest.length ≤ fuel → findLarger mod id m fuel (rest.head?.elim .null .elm) =
      some ((rest.find? fun x => (mod x).pipelineId > id).elim .null .elm) := by
  induction rest with
  | nil =>
    intro pre fuel _ _
    simp [findLarger]
  | cons x rest ih =>
    intro pre fuel hq hfuel
    obtain ⟨fuel, rfl⟩ : ∃ n, fuel = n + 1 := ⟨fuel - 1, by simp at hfuel; omega⟩
    have hnext := hq.next_eq
    have hrest := ih (pre ++ [x]) fuel (by simpa using hq) (by simpa using hfuel)
    by_cases hx : (mod x).pipelineId > id
    · simp [findLarger, hx]
    · simp only [List.head?_cons, Option.elim_some, findLarger, hx, if_false, hnext, hrest, List.find?_cons, decide_false]

theorem insertBeforeLarger_map (pre post : List Nat) {x : Nat}
    (hx : (mod x).pipelineId > (mod e).pipelineId) (hpre : ∀ y ∈ pre, ¬(mod y).pipelineId > (mod e).pipelineId) :
    insertBeforeLarger (mod e) ((pre ++ x :: post).map mod) = some ((pre ++ e :: x :: post).map mod) := by
  induction pre with
  | nil => simp [insertBeforeLarger, hx]
  | cons y pre ih =>
    have hy := hpre y List.mem_cons_self
    rw [List.cons_append, List.map_cons, insertBeforeLarger, if_neg hy,
      ih fun z hz => hpre z (List.mem_cons_of_mem y hz)]
    rfl

theorem insertBeforeLarger_map_none (hl : ∀ y ∈ l, ¬(mod y).pipelineId > (mod e).pipelineId) :
    insertBeforeLarger (mod e) (l.map mod) = none := by
  induction l with
  | nil => rfl
  | cons y l ih =>
    have hy := hl y List.mem_cons_self
    simp [insertBeforeLarger, hy, ih fun z hz => hl z (List.mem_cons_of_mem y hz)]

/-! ### One insertion -/

theorem update_unit (l l' : List Nat) : Function.update (fun _ : Unit => l) () l' = fun _ => l' := by
  funext u
  rw [Function.update_self]

theorem insertModuleLinks_rep (mod : Nat → ModConfig) (hm : m.Rep fun _ => l) (he : e ∉ l) (hlen : l.length ≤ e) :
    ∃ m' l', insertModuleLinks mod e m = some m' ∧ m'.Rep (fun _ => l') ∧
      l'.map mod = insertModule (l.map mod) (mod e) ∧ l'.Perm (e :: l) := by
  have hq := hm.holds ()
  have htail : ∃ m', some (m.insertTail () e) = some m' ∧ m'.Rep fun _ => l ++ [e] :=
    ⟨_, rfl, update_unit l _ ▸ hm.insertTail (h := ()) fun _ => he⟩
  have hbefore : ∀ {pre post x}, l = pre ++ x :: post → ∃ m', m.insertBefore x e = some m' ∧
      m'.Rep fun _ => pre ++ e :: x :: post := by
    intro pre post x hl
    obtain ⟨m', hm', hrep⟩ := hm.insertBefore (h := ()) (fun _ => he) hl
    exact ⟨m', hm', update_unit l _ ▸ hrep⟩
  rcases List.eq_nil_or_concat l with rfl | ⟨l₀, x, hl⟩
  · obtain ⟨m', hm', hrep⟩ := htail
    exact ⟨m', [e], by simpa [insertModuleLinks, hq.empty_eq] using hm', hrep, rfl, .refl _⟩
  rw [List.concat_eq_append] at hl
  have hempty : m.empty () = false := by
    rw [hq.empty_eq, hl]
    simp
  have hfirst := hq.first_eq
  have hfind := findLarger_eq mod (mod e).pipelineId l [] e hq hlen
  have hlast := hq.last_eq
  rw [hl, List.getLast?_concat, Option.elim_some] at hlast
  unfold insertModuleLinks
  simp only [hempty, hfirst, hfind, Bool.false_eq_true, if_false, Option.bind_eq_bind, Option.bind_some]
  cases hlarger : l.find? fun x => decide ((mod x).pipelineId > (mod e).pipelineId) with
  | some y =>
    obtain ⟨hy, pre, post, hsplit, hpre⟩ := List.find?_eq_some_iff_append.mp hlarger
    obtain ⟨m', hm', hrep⟩ := hbefore hsplit
    refine ⟨m', _, hm', hrep, ?_, ?_⟩
    · have hins := insertBeforeLarger_map pre post (of_decide_eq_true hy) fun z hz => by simpa using hpre z hz
      rw [insertModule, hsplit, hins]
    · rw [hsplit]
      exact List.perm_middle
  | none =>
    have hnone := insertBeforeLarger_map_none (e := e) fun z hz => by simpa using List.find?_eq_none.mp hlarger z hz
    have hget : (l.map mod).getLast? = some (mod x) := by rw [hl]; simp
    simp only [Option.elim_none, hlast, Option.bind_some, insertModule, hnone, hget]
    have hend : ∃ m' l', some (m.insertTail () e) = some m' ∧ m'.Rep (fun _ => l') ∧
        l'.map mod = l.map mod ++ [mod e] ∧ l'.Perm (e :: l) := by
      obtain ⟨m', hm', hrep⟩ := htail
      exact ⟨m', _, hm', hrep, by simp, List.perm_append_singleton e l⟩
    split_ifs
    · obtain ⟨m', hm', hrep⟩ := hbefore hl
      refine ⟨m', _, hm', hrep, ?_, ?_⟩
      · rw [hl]
        simp
      · rw [hl]
        exact List.perm_middle
    · exact hend
    · exact hend

/-! ### Every sequence of modules -/

/-- The insertions of the blocks `0`, `1`, ... in this order. -/
def moduleLinks (mod : Nat → ModConfig) (m : Tailq Unit Nat) : Nat → Option (Tailq Unit Nat)
  | 0 => some m
  | n + 1 => (moduleLinks mod m n).bind (insertModuleLinks mod n)

/-- For every sequence of modules the pointers of the module queue hold the blocks in the order of the list that
`mod_config_init` is to build. -/
theorem module_queue_linked (mod : Nat → ModConfig) (m : Tailq Unit Nat) (n : Nat) :
    ∃ m' l', moduleLinks mod (m.init ()) n = some m' ∧ m'.Holds () l' ∧ l'.Perm (List.range n) ∧
      l'.map mod = ((List.range n).map mod).foldl insertModule [] := by
  suffices hrep : ∃ m' l', moduleLinks mod (m.init ()) n = some m' ∧ m'.Rep (fun _ => l') ∧ l'.Perm (List.range n) ∧
      l'.map mod = ((List.range n).map mod).foldl insertModule [] by
    obtain ⟨m', l', hm', hrep, hrest⟩ := hrep
    exact ⟨m', l', hm', hrep.holds (), hrest⟩
  induction n with
  | zero => exact ⟨m.init (), [], rfl, .of_init (fun _ => by simp [Tailq.init]) (fun _ => by simp [Tailq.init]), .refl _, rfl⟩
  | succ n ih =>
    obtain ⟨m₁, l₁, hm₁, hrep₁, hperm₁, hmap₁⟩ := ih
    have hnew : n ∉ l₁ := by
      rw [hperm₁.mem_iff, List.mem_range]
      exact Nat.lt_irrefl n
    obtain ⟨m₂, l₂, hm₂, hrep₂, hmap₂, hperm₂⟩ := insertModuleLinks_rep mod hrep₁ hnew (by simp [hperm₁.length_eq])
    refine ⟨m₂, l₂, by rw [moduleLinks, hm₁, Option.bind_some, hm₂], hrep₂, ?_, ?_⟩
    · rw [List.range_succ]
      exact (hperm₂.trans (hperm₁.cons n)).trans (List.perm_append_singleton n _).symm
    · rw [hmap₂, hmap₁, List.range_succ]
      simp

end Csf
