import Csf.Lib.Reach
import Csf.Tcp.Writev

/-!
# Where `tcp_writev` goes on, and when it ends

The search after a write compares with the ends of the buffers, and stops at the first one that it meets exactly. The
place it gives is always the right one. But behind that end there may be empty buffers: if these are the last ones,
everything is written and `cur_block` is not yet `vector_len`, so the loop goes on with nothing left to write, and
every further call of `writev` brings it back to the same place (`failed_of_returned`).
-/

namespace Csf

open Lib

/-! ### The end of the search -/

/-- The last buffer is not empty, or it is the only one. -/
def EndsFilled (lens : List Nat) : Prop := lens.length = 1 ∨ lens.getLast? ≠ some 0

instance : DecidablePred EndsFilled := fun lens => inferInstanceAs (Decidable (lens.length = 1 ∨ lens.getLast? ≠ some 0))

theorem sum_eq_zero_of_last {lens : List Nat} (hsum : lens.sum = 0) (hne : lens ≠ []) : lens.getLast? = some 0 := by
  rw [List.getLast?_eq_some_getLast hne, List.sum_eq_zero_iff_forall_eq_nat.mp hsum _ (List.getLast_mem hne)]

theorem endsFilled_cons {len : Nat} {lens : List Nat} (hsum : 0 < lens.sum) :
    EndsFilled (len :: lens) ↔ EndsFilled lens := by
  cases lens with
  | nil => exact absurd hsum (Nat.lt_irrefl 0)
  | cons len' lens =>
    rw [EndsFilled, EndsFilled, List.getLast?_cons_cons]
    constructor
    · rintro (hone | hlast)
      · exact absurd (Nat.succ.inj hone) (Nat.succ_ne_zero _)
      · exact Or.inr hlast
    · rintro (hone | hlast)
      · obtain rfl : lens = [] := List.eq_nil_of_length_eq_zero (Nat.succ.inj hone)
        right
        rw [List.sum_cons, List.sum_nil, Nat.add_zero] at hsum
        simpa using Nat.ne_of_gt hsum
      · exact Or.inr hlast

theorem endsFilled_cons_of_sum_eq_zero {len : Nat} {lens : List Nat} (hsum : lens.sum = 0) :
    EndsFilled (len :: lens) ↔ lens = [] := by
  constructor
  · rintro (hone | hlast)
    · exact List.eq_nil_of_length_eq_zero (Nat.succ.inj hone)
    · by_contra hne
      apply hlast
      obtain ⟨len', lens', rfl⟩ := List.exists_cons_of_ne_nil hne
      rw [List.getLast?_cons_cons]
      exact sum_eq_zero_of_last hsum hne
  · rintro rfl
    exact Or.inl rfl

theorem searchBlock_eq_length_iff {lens : List Nat} (hne : lens ≠ []) {start n : Nat} (cur : Nat)
    (hn : n ≤ start + lens.sum) :
    (searchBlock n (lens.zip (vecBaseByteOrdinal start lens)) cur).1 = cur + lens.length ↔
      n = start + lens.sum ∧ EndsFilled lens := by
  induction lens generalizing start cur with
  | nil => exact absurd rfl hne
  | cons len lens ih =>
    rw [List.sum_cons] at hn ⊢
    rw [vecBaseByteOrdinal, List.zip_cons_cons, searchBlock, List.length_cons]
    rcases Nat.lt_trichotomy n (start + len) with hlt | heq | hgt
    · rw [if_pos hlt]
      simp only
      omega
    · -- an exact end: the search stops, whatever comes behind
      rw [if_neg (by omega), if_pos heq]
      have hsum : n = start + (len + lens.sum) ↔ lens.sum = 0 := by omega
      rw [hsum]
      constructor
      · intro hcur
        obtain rfl : lens = [] := List.eq_nil_of_length_eq_zero (by simp only at hcur; omega)
        exact ⟨rfl, Or.inl rfl⟩
      · rintro ⟨hzero, hfilled⟩
        rw [(endsFilled_cons_of_sum_eq_zero hzero).mp hfilled]
        rfl
    · rw [if_neg (by omega), if_neg (by omega)]
      have hpos : 0 < lens.sum := by omega
      have hrest : lens ≠ [] := by
        rintro rfl
        exact absurd hpos (Nat.lt_irrefl 0)
      rw [endsFilled_cons hpos, Nat.add_comm lens.length 1, ← Nat.add_assoc cur, ← Nat.add_assoc start,
        ih hrest (cur + 1) (by omega)]

theorem search_eq_length_iff {lens : List Nat} (hpos : 0 < lens.length) {n : Nat} (hn : n ≤ lens.sum) :
    (search lens n).1 = lens.length ↔ n = lens.sum ∧ EndsFilled lens := by
  have hblock : (searchBlock n (lens.zip (vecBaseByteOrdinal 0 lens)) 0).1 = 0 + lens.length ↔
      n = 0 + lens.sum ∧ EndsFilled lens :=
    searchBlock_eq_length_iff (List.ne_nil_of_length_pos hpos) 0 (by omega)
  rw [Nat.zero_add, Nat.zero_add] at hblock
  exact hblock

/-! ### One iteration of the loop -/

/-- An iteration after which the loop starts over. -/
def writevStep (lens : List Nat) (s : Writev) (round : WriteRound) : Option Writev :=
  if s.curBlock < lens.length then
    match round with
    | .wrote rc => if rc ≤ (passed s.resume).length then some (s.resume.wrote lens rc) else none
    | .eagain nready => if nready = 0 then none else some { s.resume with writeAgain := false }
    | .eintr => some { s.resume with writeAgain := false }
    | .failed => none
  else none

/-- The loop after these rounds, if it is still in `tcp_writev`. -/
def writevRun (lens : List Nat) (rounds : List WriteRound) : Option Writev :=
  run (writevStep lens) (fun _ _ _ => true) (Writev.init lens) rounds

theorem tcpWritevLoop_of_step {lens : List Nat} {s t : Writev} {round : WriteRound}
    (h : writevStep lens s round = some t) (rounds : List WriteRound) :
    tcpWritevLoop lens (round :: rounds) s = tcpWritevLoop lens rounds t := by
  unfold writevStep at h
  split_ifs at h with hlt
  cases round with
  | wrote rc =>
    dsimp only at h
    split_ifs at h with hrc
    rw [tcpWritevLoop, if_pos hlt, if_pos hrc, Option.some.inj h]
  | eagain nready =>
    dsimp only at h
    split_ifs at h with hready
    rw [tcpWritevLoop, if_pos hlt, if_neg hready, Option.some.inj h]
  | eintr => rw [tcpWritevLoop, if_pos hlt, Option.some.inj h]
  | failed => exact absurd h (Option.some_ne_none _).symm

theorem tcpWritevLoop_of_run {lens : List Nat} {s t : Writev} {rounds : List WriteRound}
    (h : run (writevStep lens) (fun _ _ _ => true) s rounds = some t) (more : List WriteRound) :
    tcpWritevLoop lens (rounds ++ more) s = tcpWritevLoop lens more t := by
  induction rounds generalizing s with
  | nil =>
    rw [run, Option.some.injEq] at h
    rw [List.nil_append, h]
  | cons round rounds ih =>
    obtain ⟨s', hs, -, hrest⟩ := run_cons_eq_some.mp h
    rw [List.cons_append, tcpWritevLoop_of_step hs, ih hrest]

theorem position_of_wrote {lens : List Nat} {s t : Writev} {rc : Nat} (h : writevStep lens s (.wrote rc) = some t) :
    t.curBlock = (search lens t.nwritten).1 ∧ t.curOffset = (search lens t.nwritten).2 := by
  rw [writevStep] at h
  split_ifs at h
  rw [← Option.some.inj h]
  exact ⟨rfl, rfl⟩

theorem ends_of_all_written {lens : List Nat} (hpos : 0 < lens.length) (hmax : lens.length ≤ iovMax)
    {rounds : List WriteRound} {rc : Nat} {s : Writev} (hrun : writevRun lens (rounds ++ [.wrote rc]) = some s)
    (hall : s.nwritten = lens.sum) :
    tcpWritev lens (rounds ++ [.wrote rc]) = (some (lens.sum : Int), s) ↔ EndsFilled lens := by
  obtain ⟨t, -, hlast⟩ := run_append_eq_some.mp hrun
  obtain ⟨s', hstep, -, hs⟩ := run_cons_eq_some.mp hlast
  rw [run, Option.some.injEq] at hs
  subst hs
  have hblock := (position_of_wrote hstep).1
  have hends := search_eq_length_iff hpos (Nat.le_of_eq hall)
  rw [← hblock] at hends
  have hle : s'.curBlock ≤ lens.length := by
    rw [hblock]
    exact (search_spec (Nat.le_of_eq hall)).le
  have hloop := tcpWritevLoop_of_run hrun []
  rw [List.append_nil] at hloop
  rw [tcpWritev, if_neg (by omega), hloop, tcpWritevLoop]
  by_cases hlt : s'.curBlock < lens.length
  · rw [if_pos hlt]
    refine iff_of_false (fun h => ?_) (fun hfilled => ?_)
    · exact absurd (congrArg Prod.fst h) (Option.some_ne_none _).symm
    · exact absurd (hends.mpr ⟨hall, hfilled⟩) (Nat.ne_of_lt hlt)
  · rw [if_neg hlt, hall]
    exact iff_of_true rfl (hends.mp (by omega)).2

/-! ### A vector that ends in an empty buffer -/

theorem OnTrack.lt_length {lens : List Nat} {s : Writev} (h : OnTrack lens s) (hpos : 0 < lens.length)
    (hends : ¬ EndsFilled lens) : s.curBlock < lens.length := by
  have hsearch := search_eq_length_iff hpos h.le
  have hle := (search_spec h.le).le
  have hleast := h.least
  have hne : (search lens s.nwritten).1 ≠ lens.length := fun heq => hends (hsearch.mp heq).2
  omega

def failingRounds : List WriteRound := [.eagain 0, .failed]

theorem OnTrack.failed_of_returned {lens : List Nat} {s s' : Writev} {rounds : List WriteRound} {r : Int}
    (h : OnTrack lens s) (hpos : 0 < lens.length) (hends : ¬ EndsFilled lens)
    (happart : StopsApart lens s.nwritten rounds) (hloop : tcpWritevLoop lens rounds s = (some r, s')) :
    r = -1 ∧ ∃ round ∈ rounds, round ∈ failingRounds := by
  have hlt := h.lt_length hpos hends
  induction rounds generalizing s with
  | nil =>
    rw [tcpWritevLoop, if_pos hlt] at hloop
    exact absurd (congrArg Prod.fst hloop) (Option.some_ne_none _).symm
  | cons round rounds ih =>
    -- the rest of the rounds starts from a state of the same kind
    have hnext : ∀ t, OnTrack lens t → StopsApart lens t.nwritten rounds →
        tcpWritevLoop lens rounds t = (some r, s') → r = -1 ∧ ∃ round' ∈ round :: rounds, round' ∈ failingRounds := by
      intro t ht hapart hrest
      obtain ⟨hr, round', hmem, hfails⟩ := ih ht hapart hrest (ht.lt_length hpos hends)
      exact ⟨hr, round', List.mem_cons_of_mem _ hmem, hfails⟩
    have hsame : s.resume.nwritten = s.nwritten := by
      rw [Writev.resume]
      split_ifs <;> rfl
    unfold tcpWritevLoop at hloop
    rw [if_pos hlt] at hloop
    cases round with
    | wrote rc =>
      dsimp only at hloop
      obtain ⟨hone, hrest⟩ := happart
      rw [← hsame] at hone hrest
      split_ifs at hloop with hrc
      · exact hnext _ (h.interrupted.wrote rfl hrc hone) hrest hloop
      · exact absurd (congrArg Prod.fst hloop) (Option.some_ne_none _).symm
    | eagain nready =>
      dsimp only at hloop
      split_ifs at hloop with hready
      · refine ⟨(Option.some.inj (congrArg Prod.fst hloop)).symm, _, List.mem_cons_self, ?_⟩
        rw [hready]
        exact List.mem_cons_self
      · exact hnext _ h.interrupted (hsame ▸ happart) hloop
    | eintr => exact hnext _ h.interrupted (hsame ▸ happart) hloop
    | failed =>
      refine ⟨(Option.some.inj (congrArg Prod.fst hloop)).symm, _, List.mem_cons_self, ?_⟩
      exact List.mem_cons_of_mem _ List.mem_cons_self

/-- `tcp_writev` on a vector of several buffers, the last of which is empty, never returns a number of bytes, in
whatever way the bytes are taken, unless it has lost its place before. -/
theorem failed_of_returned {lens : List Nat} (hpos : 0 < lens.length) (hmax : lens.length ≤ iovMax)
    (hends : ¬ EndsFilled lens) {rounds : List WriteRound} (happart : StopsApart lens 0 rounds) {r : Int} {s : Writev}
    (hret : tcpWritev lens rounds = (some r, s)) : r = -1 ∧ ∃ round ∈ rounds, round ∈ failingRounds := by
  rw [tcpWritev, if_neg (by omega)] at hret
  exact (OnTrack.init lens).failed_of_returned hpos hends happart hret

/-! ### The search and the end of the loop -/

/-- The search gives the place behind the first `n` bytes: in a buffer that has more bytes, or at an empty one, or
behind the last one. -/
structure ResumesAt (lens : List Nat) (n b o : Nat) : Prop where
  place : startOf lens b + o = n
  offset : b = lens.length ∨ ∃ len, lens[b]? = some len ∧ (o < len ∨ len = 0 ∧ o = 0)

theorem StopsAt.resumesAt {lens : List Nat} {n b o : Nat} (h : StopsAt lens n b o) : ResumesAt lens n b o where
  place := h.place
  offset := by
    rcases Nat.eq_zero_or_pos o with rfl | ho
    · rcases Nat.eq_or_lt_of_le h.le with heq | hlt
      · exact Or.inl heq
      · refine Or.inr ⟨lens[b], List.getElem?_eq_getElem hlt, ?_⟩
        omega
    · obtain ⟨len, hlen, hlt⟩ := h.inside ho
      exact Or.inr ⟨len, hlen, Or.inl hlt⟩

/-- For every vector that `tcp_writev` accepts: the search after `n` bytes gives the right place, and it gives the end
of the vector exactly if everything is written, unless everything is written and the last of several buffers is empty.
The loop ends with the write that completes the vector exactly if the vector does not end so. -/
theorem resume_position_iff {lens : List Nat} (hpos : 0 < lens.length) (hmax : lens.length ≤ iovMax) :
    (∀ n ≤ lens.sum, ResumesAt lens n (search lens n).1 (search lens n).2 ∧
        (((search lens n).1 = lens.length ↔ n = lens.sum) ↔ (n = lens.sum → EndsFilled lens))) ∧
      ∀ rounds rc s, writevRun lens (rounds ++ [.wrote rc]) = some s → s.nwritten = lens.sum →
        (tcpWritev lens (rounds ++ [.wrote rc]) = (some (lens.sum : Int), s) ↔ EndsFilled lens) := by
  refine ⟨fun n hn => ⟨(search_spec hn).resumesAt, ?_⟩, fun rounds rc s hrun hall => ?_⟩
  · rw [search_eq_length_iff hpos hn]
    constructor
    · exact fun hiff hall => (hiff.mpr hall).2
    · exact fun hfilled => ⟨And.left, fun hall => ⟨hall, hfilled hall⟩⟩
  · exact ends_of_all_written hpos hmax hrun hall

/-- An empty buffer between two filled ones; the first call stops at its place, and the second one is the last. -/
theorem resume_position_run :
    search [2, 0, 3] 2 = (1, 0) ∧ ResumesAt [2, 0, 3] 2 1 0 ∧
      ∃ s, tcpWritev [2, 0, 3] [.wrote 2, .eintr, .wrote 3] = (some 5, s) := by
  have hall := @resume_position_iff [2, 0, 3] (by decide) (by decide)
  refine ⟨by decide, (hall.1 2 (by decide)).1, ?_⟩
  have hrounds : ∃ s, writevRun [2, 0, 3] [.wrote 2, .eintr, .wrote 3] = some s ∧ s.nwritten = 5 :=
    exists_run _ (by decide +kernel)
  obtain ⟨s, hrun, hwritten⟩ := hrounds
  exact ⟨s, (hall.2 [.wrote 2, .eintr] 3 s hrun hwritten).mpr (by decide)⟩

/-- One byte and an empty buffer: after the write of the byte the search gives buffer 1 of 2, and however often `writev`
returns 0 after that, the loop has not ended. -/
theorem empty_last_buffer_endless :
    search [1, 0] 1 = (1, 0) ∧ [1, 0].sum = 1 ∧ [1, 0].length = 2 ∧
      ∀ k, (tcpWritev [1, 0] (.wrote 1 :: List.replicate k (.wrote 0))).1 = none := by
  refine ⟨by decide, rfl, rfl, fun k => ?_⟩
  have happart : StopsApart [1, 0] 0 (.wrote 1 :: List.replicate k (.wrote 0)) :=
    ⟨by decide +kernel, stopsApart_of_sum_le _ (Nat.le_refl 1)⟩
  by_contra hreturned
  obtain ⟨r, hr⟩ := Option.ne_none_iff_exists'.mp hreturned
  obtain ⟨-, round, hmem, hfails⟩ := failed_of_returned (by decide) (by decide) (by decide) happart (Prod.ext hr rfl)
  rcases List.mem_cons.mp hmem with rfl | hmem
  · exact absurd hfails (by decide)
  · rw [List.eq_of_mem_replicate hmem] at hfails
    exact absurd hfails (by decide)

end Csf
