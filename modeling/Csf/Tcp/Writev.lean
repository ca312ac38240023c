import Csf.Tcp.Write
import Mathlib.Data.List.Basic

/-!
# `tcp_writev`

After a short write, `tcp_writev` looks for the buffer and the offset where it has to go on, and moves the entry of
that buffer in `new_vector` by this offset. The offset is counted from the start of the original buffer, but the entry
may have been moved before: when two successive writes stop inside the same buffer, it is moved too far. Otherwise what
is passed to `writev` is always what is left (`OnTrack.passed_eq`).

A vector is given by the lengths of its buffers. A byte is named by the number of its buffer and its place there.
-/

namespace Csf

/-! ### The function -/

def iovMax : Nat := 1024

/-- An entry of `new_vector`: how far its base is from the start of the buffer, and its length. -/
structure Iov where
  base : Nat
  len : Nat
  deriving DecidableEq

/-- The base is moved by `off`, the length is reduced by it as a `size_t`. -/
def Iov.advance (off : Nat) (v : Iov) : Iov :=
  ⟨v.base + off, if off ≤ v.len then v.len - off else v.len + 2 ^ 64 - off⟩

/-- The bytes that an array of entries covers; `i` is the number of the first one. -/
def vectorBytes (i : Nat) : List Iov → List (Nat × Nat)
  | [] => []
  | v :: vs => ((List.range v.len).map fun j => (i, v.base + j)) ++ vectorBytes (i + 1) vs

/-- `new_vector` as it is first filled in. -/
def newVector (lens : List Nat) : List Iov := lens.map fun len => ⟨0, len⟩

/-- `vec_base_byte_ordinal`: where each buffer ends, if the first one starts at `start`. -/
def vecBaseByteOrdinal (start : Nat) : List Nat → List Nat
  | [] => []
  | len :: lens => (start + len) :: vecBaseByteOrdinal (start + len) lens

/-- The loop that searches `cur_block` and `cur_offset`, over the lengths and ends of the buffers. -/
def searchBlock (nwritten : Nat) : List (Nat × Nat) → Nat → Nat × Nat
  | [], curBlock => (curBlock, 0)
  | (len, ordinal) :: rest, curBlock =>
    if nwritten < ordinal then (curBlock, len - (ordinal - nwritten))
    else if nwritten = ordinal then (curBlock + 1, 0)
    else searchBlock nwritten rest (curBlock + 1)

def search (lens : List Nat) (nwritten : Nat) : Nat × Nat :=
  searchBlock nwritten (lens.zip (vecBaseByteOrdinal 0 lens)) 0

/-- The variables of `tcp_writev`, the bytes that were sent, and whether a length has wrapped around. -/
structure Writev where
  vector : List Iov
  /-- the index of `new_vector_startp` -/
  start : Nat
  curBlock : Nat
  curOffset : Nat
  nwritten : Nat
  writeAgain : Bool
  sent : List (Nat × Nat)
  underflow : Bool
  deriving DecidableEq

def Writev.init (lens : List Nat) : Writev := ⟨newVector lens, 0, 0, 0, 0, true, [], false⟩

/-- The beginning of the loop body: the entry of the current buffer is moved, unless the last call was interrupted. -/
def Writev.resume (s : Writev) : Writev :=
  if s.writeAgain then
    { s with
      start := s.curBlock
      vector := s.vector.modify s.curBlock (Iov.advance s.curOffset)
      underflow := s.underflow || s.vector[s.curBlock]?.any fun v => decide (v.len < s.curOffset) }
  else s

/-- What is passed to `writev`. -/
def passed (s : Writev) : List (Nat × Nat) := vectorBytes s.start (s.vector.drop s.start)

def Writev.wrote (lens : List Nat) (rc : Nat) (s : Writev) : Writev :=
  { s with
    nwritten := s.nwritten + rc
    curBlock := (search lens (s.nwritten + rc)).1
    curOffset := (search lens (s.nwritten + rc)).2
    writeAgain := true
    sent := s.sent ++ (passed s).take rc }

/-- The loop of `tcp_writev`. The result is `none` while the loop still runs when the rounds are used up, and when a
round says that `writev` took more than it was given. -/
def tcpWritevLoop (lens : List Nat) (rounds : List WriteRound) (s : Writev) : Option Int × Writev :=
  if s.curBlock < lens.length then
    match rounds with
    | [] => (none, s)
    | .wrote rc :: rounds =>
      if rc ≤ (passed s.resume).length then tcpWritevLoop lens rounds (s.resume.wrote lens rc)
      else (none, s.resume)
    | .eagain nready :: rounds =>
      if nready = 0 then (some (-1), s.resume) else tcpWritevLoop lens rounds { s.resume with writeAgain := false }
    | .eintr :: rounds => tcpWritevLoop lens rounds { s.resume with writeAgain := false }
    | .failed :: _ => (some (-1), s.resume)
  else (some s.nwritten, s)

/-- `tcp_writev` for buffers of the lengths `lens` -/
def tcpWritev (lens : List Nat) (rounds : List WriteRound) : Option Int × Writev :=
  if lens.length = 0 ∨ lens.length > iovMax then (some (-1), Writev.init lens)
  else tcpWritevLoop lens rounds (Writev.init lens)

/-! ### The search -/

def startOf (lens : List Nat) (b : Nat) : Nat := (lens.take b).sum

theorem startOf_mono (lens : List Nat) {b b' : Nat} (h : b ≤ b') : startOf lens b ≤ startOf lens b' := by
  obtain ⟨k, rfl⟩ := Nat.exists_eq_add_of_le h
  rw [startOf, startOf, List.take_add, List.sum_append]
  omega

theorem startOf_succ {lens : List Nat} {b len : Nat} (h : lens[b]? = some len) :
    startOf lens (b + 1) = startOf lens b + len := by
  rw [startOf, List.take_add_one, h, List.sum_append, startOf]
  rfl

theorem startOf_le_sum (lens : List Nat) (b : Nat) : startOf lens b ≤ lens.sum := by
  have h := startOf_mono lens (Nat.le_max_left b lens.length)
  rw [startOf, startOf, List.take_of_length_le (Nat.le_max_right _ _)] at h
  exact h

/-- `n` is behind the start of buffer `b` and before its end. -/
def Inside (lens : List Nat) (b n : Nat) : Prop := startOf lens b < n ∧ n < startOf lens (b + 1)

theorem Inside.unique {lens : List Nat} {b b' n : Nat} (h : Inside lens b n) (h' : Inside lens b' n) : b = b' := by
  obtain ⟨hb, hn⟩ := h
  obtain ⟨hb', hn'⟩ := h'
  rcases Nat.lt_trichotomy b b' with hlt | heq | hgt
  · have := startOf_mono lens (show b + 1 ≤ b' from hlt)
    omega
  · exact heq
  · have := startOf_mono lens (show b' + 1 ≤ b from hgt)
    omega

theorem Inside.lt_length {lens : List Nat} {b n : Nat} (h : Inside lens b n) : b < lens.length := by
  by_contra hge
  obtain ⟨hb, hn⟩ := h
  rw [startOf, List.take_of_length_le (by omega)] at hb
  rw [startOf, List.take_of_length_le (by omega)] at hn
  omega

theorem not_inside_startOf (lens : List Nat) (b b' : Nat) : ¬ Inside lens b (startOf lens b') := by
  rintro ⟨hb, hn⟩
  rcases Nat.lt_or_ge b b' with hlt | hge
  · have := startOf_mono lens (show b + 1 ≤ b' from hlt)
    omega
  · have := startOf_mono lens hge
    omega

/-- Where the search stops: at the start of a buffer, or inside of one. -/
structure StopsAt (lens : List Nat) (n b o : Nat) : Prop where
  le : b ≤ lens.length
  place : startOf lens b + o = n
  inside : 0 < o → ∃ len, lens[b]? = some len ∧ o < len

theorem searchBlock_spec (lens : List Nat) {start n : Nat} (cur : Nat) (hstart : start ≤ n)
    (hn : n ≤ start + lens.sum) :
    ∃ k o, searchBlock n (lens.zip (vecBaseByteOrdinal start lens)) cur = (cur + k, o) ∧
      StopsAt lens (n - start) k o := by
  induction lens generalizing start cur with
  | nil =>
    rw [List.sum_nil] at hn
    refine ⟨0, 0, rfl, Nat.le_refl _, ?_, fun h => absurd h (Nat.lt_irrefl 0)⟩
    simp only [startOf, List.take_nil, List.sum_nil]
    omega
  | cons len lens ih =>
    rw [List.sum_cons] at hn
    rw [vecBaseByteOrdinal, List.zip_cons_cons, searchBlock]
    rcases Nat.lt_trichotomy n (start + len) with hlt | heq | hgt
    · rw [if_pos hlt]
      refine ⟨0, len - (start + len - n), rfl, Nat.zero_le _, ?_, fun _ => ⟨len, rfl, by omega⟩⟩
      simp only [startOf, List.take_zero, List.sum_nil]
      omega
    · rw [if_neg (by omega), if_pos heq]
      refine ⟨1, 0, rfl, Nat.succ_le_succ (Nat.zero_le _), ?_, fun h => absurd h (Nat.lt_irrefl 0)⟩
      simp only [startOf, List.take_succ_cons, List.take_zero, List.sum_cons, List.sum_nil]
      omega
    · rw [if_neg (by omega), if_neg (by omega)]
      obtain ⟨k, o, heq, hstops⟩ := ih (cur + 1) (Nat.le_of_lt hgt) (by omega)
      refine ⟨k + 1, o, ?_, Nat.succ_le_succ hstops.le, ?_, hstops.inside⟩
      · rw [heq, Nat.add_assoc, Nat.add_comm 1 k]
      · have hplace := hstops.place
        simp only [startOf, List.take_succ_cons, List.sum_cons] at hplace ⊢
        omega

theorem search_spec {lens : List Nat} {n : Nat} (hn : n ≤ lens.sum) :
    StopsAt lens n (search lens n).1 (search lens n).2 := by
  obtain ⟨k, o, heq, hstops⟩ := searchBlock_spec lens 0 (Nat.zero_le n) (by omega)
  rw [search, heq, Nat.zero_add]
  exact hstops

theorem le_searchBlock (n : Nat) (l : List (Nat × Nat)) (cur : Nat) : cur ≤ (searchBlock n l cur).1 := by
  induction l generalizing cur with
  | nil => exact Nat.le_refl _
  | cons x l ih =>
    rw [searchBlock]
    split_ifs
    · exact Nat.le_refl _
    · exact Nat.le_succ _
    · exact (Nat.le_succ _).trans (ih _)

theorem search_mono (lens : List Nat) {n n' : Nat} (h : n ≤ n') : (search lens n).1 ≤ (search lens n').1 := by
  have hblock : ∀ (l : List (Nat × Nat)) (cur : Nat), (searchBlock n l cur).1 ≤ (searchBlock n' l cur).1 := by
    intro l
    induction l with
    | nil => exact fun _ => Nat.le_refl _
    | cons x l ih =>
      intro cur
      rw [searchBlock, searchBlock]
      rcases Nat.lt_trichotomy n x.2 with hlt | heq | hgt
      · rw [if_pos hlt]
        split_ifs
        · exact Nat.le_refl _
        · exact Nat.le_succ _
        · exact (Nat.le_succ _).trans (le_searchBlock _ _ _)
      · rw [if_neg (by omega), if_pos heq, if_neg (by omega)]
        split_ifs
        · exact Nat.le_refl _
        · exact le_searchBlock _ _ _
      · rw [if_neg (by omega), if_neg (by omega), if_neg (by omega), if_neg (by omega)]
        exact ih _
  exact hblock _ _

theorem StopsAt.inside_of_pos {lens : List Nat} {n b o : Nat} (h : StopsAt lens n b o) (ho : 0 < o) :
    Inside lens b n := by
  obtain ⟨len, hlen, hlt⟩ := h.inside ho
  have hplace := h.place
  have hend := startOf_succ hlen
  exact ⟨by omega, by omega⟩

theorem search_of_inside {lens : List Nat} {b n : Nat} (h : Inside lens b n) :
    search lens n = (b, n - startOf lens b) := by
  have hstops := search_spec (h.2.le.trans (startOf_le_sum lens _))
  have hplace := hstops.place
  have ho : 0 < (search lens n).2 := by
    by_contra hzero
    apply not_inside_startOf lens b (search lens n).1
    rw [show startOf lens (search lens n).1 = n by omega]
    exact h
  have hb : b = (search lens n).1 := h.unique (hstops.inside_of_pos ho)
  rw [← hb] at hplace
  exact Prod.ext hb.symm (by simp only; omega)

/-! ### The bytes of a vector -/

def allBytes (lens : List Nat) : List (Nat × Nat) := vectorBytes 0 (newVector lens)

@[simp] theorem Iov.advance_zero (v : Iov) : v.advance 0 = v := rfl

theorem length_vectorBytes (i : Nat) (lens : List Nat) : (vectorBytes i (newVector lens)).length = lens.sum := by
  induction lens generalizing i with
  | nil => rfl
  | cons len lens ih =>
    have htail := ih (i + 1)
    simp only [newVector, List.map_cons, vectorBytes] at htail ⊢
    rw [List.length_append, htail, List.length_map, List.length_range, List.sum_cons]

theorem vectorBytes_drop (lens : List Nat) (i b : Nat) :
    vectorBytes (i + b) ((newVector lens).drop b) = (vectorBytes i (newVector lens)).drop (startOf lens b) := by
  induction lens generalizing i b with
  | nil => simp [newVector, vectorBytes]
  | cons len lens ih =>
    cases b with
    | zero => rfl
    | succ b =>
      have htail := ih (i + 1) b
      simp only [newVector, startOf, List.map_cons, List.drop_succ_cons, vectorBytes, List.take_succ_cons,
        List.sum_cons] at htail ⊢
      have hhead : ((List.range len).map fun j => (i, 0 + j)).drop (len + (lens.take b).sum) = [] := by
        apply List.drop_eq_nil_of_le
        rw [List.length_map, List.length_range]
        omega
      rw [show i + (b + 1) = i + 1 + b by omega, htail, List.drop_append, hhead, List.nil_append, List.length_map,
        List.length_range, Nat.add_sub_cancel_left]

theorem vectorBytes_advance {len o : Nat} (h : o ≤ len) (i : Nat) (vs : List Iov) :
    vectorBytes i (Iov.advance o ⟨0, len⟩ :: vs) = (vectorBytes i (⟨0, len⟩ :: vs)).drop o := by
  obtain ⟨k, rfl⟩ := Nat.exists_eq_add_of_le h
  have hlen : ((List.range o).map fun j => (i, 0 + j)).length = o := by rw [List.length_map, List.length_range]
  simp only [vectorBytes, Iov.advance, if_pos h, Nat.add_sub_cancel_left]
  rw [List.range_add, List.map_append, List.append_assoc, List.drop_append_of_le_length (by rw [hlen]),
    List.drop_eq_nil_of_le (by rw [hlen]), List.nil_append, List.map_map]
  congr 2
  funext j
  simp

theorem mem_vectorBytes {i : Nat} {v : Iov} {vs : List Iov} {x : Nat × Nat} (h : x ∈ vectorBytes i (v :: vs)) :
    i < x.1 ∨ x.1 = i ∧ v.base ≤ x.2 := by
  have hlater : ∀ (vs : List Iov) (i : Nat), x ∈ vectorBytes i vs → i ≤ x.1 := by
    intro vs
    induction vs with
    | nil => exact fun i h => absurd h List.not_mem_nil
    | cons v vs ih =>
      intro i h
      rcases List.mem_append.mp h with h | h
      · obtain ⟨j, -, rfl⟩ := List.mem_map.mp h
        exact Nat.le_refl i
      · exact (Nat.le_succ i).trans (ih (i + 1) h)
  rcases List.mem_append.mp h with h | h
  · obtain ⟨j, -, rfl⟩ := List.mem_map.mp h
    exact Or.inr ⟨rfl, Nat.le_add_right _ _⟩
  · exact Or.inl (hlater vs (i + 1) h)

/-! ### A run without two stops in one buffer -/

/-- Both positions are inside of one buffer. -/
def WithinOne (lens : List Nat) (n n' : Nat) : Prop := ∃ b, Inside lens b n ∧ Inside lens b n'

instance (lens : List Nat) (b n : Nat) : Decidable (Inside lens b n) := inferInstanceAs (Decidable (_ ∧ _))

theorem any_range_iff_withinOne (lens : List Nat) (n n' : Nat) :
    ((List.range lens.length).any fun b => decide (Inside lens b n) && decide (Inside lens b n')) = true ↔
      WithinOne lens n n' := by
  simp only [List.any_eq_true, List.mem_range, Bool.and_eq_true, decide_eq_true_eq]
  constructor
  · rintro ⟨b, -, h⟩
    exact ⟨b, h⟩
  · rintro ⟨b, h⟩
    exact ⟨b, h.1.lt_length, h⟩

instance (lens : List Nat) (n n' : Nat) : Decidable (WithinOne lens n n') :=
  decidable_of_iff _ (any_range_iff_withinOne lens n n')

/-- The entries from the current one on are as they were filled in, except that the current one has been moved by the
offset if the last call was interrupted. What was sent is what comes before the position. -/
structure OnTrack (lens : List Nat) (s : Writev) : Prop where
  le : s.nwritten ≤ lens.sum
  stops : StopsAt lens s.nwritten s.curBlock s.curOffset
  least : s.curBlock ≤ (search lens s.nwritten).1
  sent : s.sent = (allBytes lens).take s.nwritten
  noUnderflow : s.underflow = false
  entries : s.vector.drop s.curBlock =
    ((newVector lens).drop s.curBlock).modifyHead (Iov.advance (if s.writeAgain then 0 else s.curOffset))
  start : s.writeAgain = false → s.start = s.curBlock

theorem modifyHead_advance_zero (l : List Iov) : l.modifyHead (Iov.advance 0) = l := by
  cases l <;> rfl

theorem drop_succ_modifyHead {α : Type} (f : α → α) (l : List α) (k : Nat) :
    (l.modifyHead f).drop (k + 1) = l.drop (k + 1) := by
  cases l <;> rfl

theorem drop_modify_self {α : Type} (f : α → α) (l : List α) (i : Nat) :
    (l.modify i f).drop i = (l.drop i).modifyHead f := by
  induction l generalizing i with
  | nil => simp
  | cons x l ih =>
    cases i with
    | zero => simp
    | succ i => simpa using ih i

namespace OnTrack

variable {lens : List Nat} {s : Writev}

theorem init (lens : List Nat) : OnTrack lens (Writev.init lens) where
  le := Nat.zero_le _
  stops := ⟨Nat.zero_le _, rfl, fun h => absurd h (Nat.lt_irrefl 0)⟩
  least := Nat.zero_le _
  sent := rfl
  noUnderflow := rfl
  entries := (modifyHead_advance_zero _).symm
  start := fun h => by cases h

theorem interrupted (h : OnTrack lens s) : OnTrack lens { s.resume with writeAgain := false } := by
  cases hagain : s.writeAgain with
  | false =>
    rw [Writev.resume, hagain]
    exact ⟨h.le, h.stops, h.least, h.sent, h.noUnderflow, by simpa [hagain] using h.entries, fun _ => h.start hagain⟩
  | true =>
    have hentries := h.entries
    rw [hagain, if_pos rfl, modifyHead_advance_zero] at hentries
    have hflow : (s.vector[s.curBlock]?.any fun v => decide (v.len < s.curOffset)) = false := by
      have hentry : s.vector[s.curBlock]? = (newVector lens)[s.curBlock]? := by
        have hhead := congrArg (fun l => l[0]?) hentries
        simpa using hhead
      rw [hentry, newVector, List.getElem?_map]
      rcases Nat.eq_zero_or_pos s.curOffset with hzero | hpos
      · cases lens[s.curBlock]? <;> simp [hzero]
      · obtain ⟨len, hlen, hlt⟩ := h.stops.inside hpos
        simp [hlen]
        omega
    rw [Writev.resume, hagain]
    refine ⟨h.le, h.stops, h.least, h.sent, ?_, ?_, fun _ => rfl⟩
    · simp [h.noUnderflow, hflow]
    · simp [drop_modify_self, hentries]

theorem passed_eq (h : OnTrack lens s) (hagain : s.writeAgain = false) :
    passed s = (allBytes lens).drop s.nwritten := by
  have hentries := h.entries
  rw [hagain, if_neg Bool.false_ne_true] at hentries
  rw [passed, h.start hagain, hentries, ← h.stops.place, ← List.drop_drop, allBytes, ← vectorBytes_drop, Nat.zero_add]
  cases hrest : lens.drop s.curBlock with
  | nil =>
    rw [newVector, ← List.map_drop, hrest]
    exact (List.drop_nil).symm
  | cons len rest =>
    have hle : s.curOffset ≤ len := by
      have hhead : lens[s.curBlock]? = some len := by
        rw [← List.head?_drop, hrest]
        rfl
      rcases Nat.eq_zero_or_pos s.curOffset with hzero | hpos
      · omega
      · obtain ⟨len', hlen', hlt⟩ := h.stops.inside hpos
        cases hhead.symm.trans hlen'
        omega
    rw [newVector, ← List.map_drop, hrest]
    exact vectorBytes_advance hle _ _

theorem wrote {rc : Nat} (h : OnTrack lens s) (hagain : s.writeAgain = false) (hrc : rc ≤ (passed s).length)
    (hone : ¬ WithinOne lens s.nwritten (s.nwritten + rc)) : OnTrack lens (s.wrote lens rc) := by
  rw [h.passed_eq hagain, List.length_drop, allBytes, length_vectorBytes] at hrc
  have hle : s.nwritten + rc ≤ lens.sum := by
    have := h.le
    omega
  have hstops := search_spec hle
  have hblock : s.curBlock ≤ (search lens (s.nwritten + rc)).1 :=
    h.least.trans (search_mono lens (Nat.le_add_right _ _))
  refine ⟨hle, hstops, Nat.le_refl _, ?_, h.noUnderflow, ?_, fun hf => by cases hf⟩
  · show s.sent ++ (passed s).take rc = _
    rw [h.sent, h.passed_eq hagain, ← List.take_add]
    rfl
  · show s.vector.drop _ = ((newVector lens).drop _).modifyHead (Iov.advance 0)
    rw [modifyHead_advance_zero]
    have hentries := h.entries
    rw [hagain, if_neg Bool.false_ne_true] at hentries
    rcases Nat.eq_or_lt_of_le hblock with heq | hlt
    · -- still the same buffer: then the position was at its start, and the entry has not been moved
      have hzero : s.curOffset = 0 := by
        by_contra hpos
        have hin := h.stops.inside_of_pos (Nat.pos_of_ne_zero hpos)
        have hplace := hstops.place
        rw [← heq] at hstops hplace
        exact hone ⟨s.curBlock, hin, hstops.inside_of_pos (by have := h.stops.place; omega)⟩
      rw [hzero, modifyHead_advance_zero] at hentries
      show s.vector.drop (search lens (s.nwritten + rc)).1 = (newVector lens).drop (search lens (s.nwritten + rc)).1
      rw [← heq]
      exact hentries
    · obtain ⟨k, hk⟩ := Nat.exists_eq_add_of_lt hlt
      show s.vector.drop (search lens (s.nwritten + rc)).1 = (newVector lens).drop (search lens (s.nwritten + rc)).1
      have htail := congrArg (List.drop (k + 1)) hentries
      rw [drop_succ_modifyHead, List.drop_drop, List.drop_drop] at htail
      rw [hk]
      exact htail

end OnTrack

/-! ### A run with two stops in one buffer -/

/-- The position is inside of a buffer whose entry has been moved, or is about to be moved, too far. -/
structure Skewed (lens : List Nat) (s : Writev) : Prop where
  inside : Inside lens s.curBlock s.nwritten
  place : startOf lens s.curBlock + s.curOffset = s.nwritten
  sent : s.sent = (allBytes lens).take s.nwritten
  entry : ∃ v ∈ s.vector[s.curBlock]?, (if s.writeAgain then 0 else s.curOffset) < v.base
  start : s.writeAgain = false → s.start = s.curBlock

theorem getElem?_allBytes {lens : List Nat} {b n : Nat} (h : Inside lens b n) :
    (allBytes lens)[n]? = some (b, n - startOf lens b) := by
  have hb := h.lt_length
  have hend := startOf_succ (List.getElem?_eq_getElem hb)
  obtain ⟨hlow, hhigh⟩ := h
  obtain ⟨j, rfl⟩ := Nat.exists_eq_add_of_lt hlow
  have hdrop := vectorBytes_drop lens 0 b
  have hentry : (newVector lens).drop b = ⟨0, lens[b]⟩ :: (newVector lens).drop (b + 1) := by
    rw [newVector, List.drop_eq_getElem_cons (by rwa [List.length_map]), List.getElem_map]
  rw [hentry, vectorBytes] at hdrop
  have hat := congrArg (fun l => l[j + 1]?) hdrop
  have hlt : j + 1 < lens[b] := by omega
  simp only [List.getElem?_drop] at hat
  rw [List.getElem?_append_left (by rw [List.length_map, List.length_range]; exact hlt)] at hat
  rw [allBytes, Nat.add_assoc, ← hat, List.getElem?_map, List.getElem?_range hlt]
  simp

namespace Skewed

variable {lens : List Nat} {s : Writev}

theorem interrupted (h : Skewed lens s) : Skewed lens { s.resume with writeAgain := false } := by
  cases hagain : s.writeAgain with
  | false =>
    rw [Writev.resume, hagain]
    exact ⟨h.inside, h.place, h.sent, by simpa [hagain] using h.entry, fun _ => h.start hagain⟩
  | true =>
    obtain ⟨v, hv, hbase⟩ := h.entry
    rw [Writev.resume, hagain]
    rw [hagain, if_pos rfl] at hbase
    refine ⟨h.inside, h.place, h.sent, ⟨v.advance s.curOffset, ?_, ?_⟩, fun _ => rfl⟩
    · show v.advance s.curOffset ∈ (s.vector.modify s.curBlock (Iov.advance s.curOffset))[s.curBlock]?
      rw [List.getElem?_modify_eq, Option.mem_def.mp hv]
      rfl
    · show s.curOffset < v.base + s.curOffset
      omega

theorem not_mem_passed (h : Skewed lens s) (hagain : s.writeAgain = false) :
    (s.curBlock, s.curOffset) ∉ passed s := by
  intro hmem
  obtain ⟨v, hv, hbase⟩ := h.entry
  rw [hagain, if_neg Bool.false_ne_true] at hbase
  obtain ⟨hlt, hget⟩ := List.getElem?_eq_some_iff.mp hv
  rw [passed, h.start hagain, List.drop_eq_getElem_cons hlt, hget] at hmem
  rcases mem_vectorBytes hmem with hlater | ⟨-, hle⟩
  · exact Nat.lt_irrefl _ hlater
  · simp only at hle
    omega

theorem wrote {rc : Nat} (h : Skewed lens s) (hagain : s.writeAgain = false) (hrc : rc ≤ (passed s).length) :
    Skewed lens (s.wrote lens rc) ∨ ¬ (s.wrote lens rc).sent <+: allBytes lens := by
  cases rc with
  | zero =>
    left
    have hsearch : search lens s.nwritten = (s.curBlock, s.curOffset) := by
      rw [search_of_inside h.inside, ← h.place, Nat.add_sub_cancel_left]
    have hsame : s.wrote lens 0 = { s with writeAgain := true } := by
      simp only [Writev.wrote, hsearch, Nat.add_zero, List.take_zero, List.append_nil]
    obtain ⟨v, hv, hbase⟩ := h.entry
    rw [hsame]
    exact ⟨h.inside, h.place, h.sent, ⟨v, hv, Nat.zero_lt_of_lt hbase⟩, fun hf => by cases hf⟩
  | succ rc =>
    right
    intro hprefix
    cases hpassed : passed s with
    | nil =>
      rw [hpassed] at hrc
      exact absurd hrc (Nat.not_succ_le_zero rc)
    | cons x rest =>
      have hlen : s.sent.length = s.nwritten := by
        have hlt := h.inside.2.le.trans (startOf_le_sum lens _)
        rw [h.sent, List.length_take, allBytes, length_vectorBytes]
        omega
      -- the first byte that this call sends is taken for the one at the position
      have hx : x = (s.curBlock, s.curOffset) := by
        obtain ⟨rest', hall⟩ := hprefix
        have hat := congrArg (fun l => l[s.nwritten]?) hall
        simp only [Writev.wrote, hpassed, List.take_succ_cons, List.append_assoc] at hat
        rw [getElem?_allBytes h.inside, List.getElem?_append_right (by omega), hlen, Nat.sub_self, List.cons_append,
          List.getElem?_cons_zero, Option.some.injEq] at hat
        rw [hat, Prod.mk.injEq]
        have := h.place
        omega
      apply h.not_mem_passed hagain
      rw [hpassed, hx]
      exact List.mem_cons_self

end Skewed

/-- The first of two stops in one buffer moves its entry, and the second one makes the loop move it again. -/
theorem OnTrack.skewed {lens : List Nat} {s : Writev} {rc : Nat} (h : OnTrack lens s) (hagain : s.writeAgain = false)
    (hone : WithinOne lens s.nwritten (s.nwritten + rc)) : Skewed lens (s.wrote lens rc) := by
  obtain ⟨b, hin, hin'⟩ := hone
  have hpos : 0 < s.curOffset := by
    by_contra hzero
    apply not_inside_startOf lens b s.curBlock
    rw [show startOf lens s.curBlock = s.nwritten by have := h.stops.place; omega]
    exact hin
  obtain rfl : b = s.curBlock := hin.unique (h.stops.inside_of_pos hpos)
  have hsearch := search_of_inside hin'
  have hb := hin.lt_length
  have hentry : s.vector[s.curBlock]? = some (Iov.advance s.curOffset ⟨0, lens[s.curBlock]⟩) := by
    have hentries := h.entries
    rw [hagain, if_neg Bool.false_ne_true] at hentries
    have hhead := congrArg (fun l => l[0]?) hentries
    simpa [newVector, hb] using hhead
  refine ⟨?_, ?_, ?_, ⟨Iov.advance s.curOffset ⟨0, lens[s.curBlock]⟩, ?_, ?_⟩, fun hf => by cases hf⟩
  · simp only [Writev.wrote, hsearch]
    exact hin'
  · have := hin'.1
    simp only [Writev.wrote, hsearch]
    omega
  · simp only [Writev.wrote]
    rw [h.sent, h.passed_eq hagain, ← List.take_add]
  · simp only [Writev.wrote, hsearch]
    exact hentry
  · show 0 < 0 + s.curOffset
    omega

/-! ### Whole runs -/

section Loop

variable {lens : List Nat} {rounds : List WriteRound} {s s' : Writev} {r : Int}

theorem resume_sent (s : Writev) : s.resume.sent = s.sent := by
  unfold Writev.resume
  split <;> rfl

theorem sent_prefix_tcpWritevLoop (lens : List Nat) (rounds : List WriteRound) (s : Writev) :
    s.sent <+: (tcpWritevLoop lens rounds s).2.sent := by
  induction rounds generalizing s with
  | nil =>
    unfold tcpWritevLoop
    split <;> exact List.prefix_refl _
  | cons round rounds ih =>
    unfold tcpWritevLoop
    split
    · rw [← resume_sent s]
      cases round with
      | wrote rc =>
        dsimp only
        split
        · exact (List.prefix_append _ _).trans (ih (s.resume.wrote lens rc))
        · exact List.prefix_refl _
      | eagain nready =>
        dsimp only
        split
        · exact List.prefix_refl _
        · exact ih { s.resume with writeAgain := false }
      | eintr => exact ih { s.resume with writeAgain := false }
      | failed => exact List.prefix_refl _
    · exact List.prefix_refl _

theorem Skewed.not_exact (h : Skewed lens s) (hloop : tcpWritevLoop lens rounds s = (some r, s')) (hr : 0 ≤ r) :
    s'.sent ≠ allBytes lens := by
  induction rounds generalizing s with
  | nil =>
    unfold tcpWritevLoop at hloop
    rw [if_pos h.inside.lt_length] at hloop
    cases hloop
  | cons round rounds ih =>
    unfold tcpWritevLoop at hloop
    rw [if_pos h.inside.lt_length] at hloop
    cases round with
    | wrote rc =>
      dsimp only at hloop
      split at hloop
      · rename_i hrc
        rcases h.interrupted.wrote rfl hrc with hskewed | hlost
        · exact ih hskewed hloop
        · intro hall
          have hprefix := sent_prefix_tcpWritevLoop lens rounds (s.resume.wrote lens rc)
          rw [hloop] at hprefix
          exact hlost (hall ▸ hprefix)
      · cases hloop
    | eagain nready =>
      dsimp only at hloop
      split at hloop
      · cases hloop
        omega
      · exact ih h.interrupted hloop
    | eintr => exact ih h.interrupted hloop
    | failed =>
      cases hloop
      omega

/-- No two successive calls stop inside of one buffer; `n` is the position before the rounds. -/
def StopsApart (lens : List Nat) : Nat → List WriteRound → Prop
  | _, [] => True
  | n, .wrote rc :: rounds => ¬ WithinOne lens n (n + rc) ∧ StopsApart lens (n + rc) rounds
  | n, _ :: rounds => StopsApart lens n rounds

instance decidableStopsApart (lens : List Nat) :
    (n : Nat) → (rounds : List WriteRound) → Decidable (StopsApart lens n rounds)
  | _, [] => .isTrue trivial
  | n, .wrote rc :: rounds =>
    have := decidableStopsApart lens (n + rc) rounds
    inferInstanceAs (Decidable (¬ WithinOne lens n (n + rc) ∧ StopsApart lens (n + rc) rounds))
  | n, .eagain _ :: rounds => decidableStopsApart lens n rounds
  | n, .eintr :: rounds => decidableStopsApart lens n rounds
  | n, .failed :: rounds => decidableStopsApart lens n rounds

theorem stopsApart_of_sum_le (rounds : List WriteRound) {n : Nat} (h : lens.sum ≤ n) : StopsApart lens n rounds := by
  induction rounds generalizing n with
  | nil => trivial
  | cons round rounds ih =>
    cases round with
    | wrote rc =>
      refine ⟨?_, ih (by omega)⟩
      rintro ⟨b, ⟨-, hend⟩, -⟩
      have := startOf_le_sum lens (b + 1)
      omega
    | eagain nready => exact ih h
    | eintr => exact ih h
    | failed => exact ih h

theorem OnTrack.nwritten_eq (h : OnTrack lens s) (hdone : ¬ s.curBlock < lens.length) : s.nwritten = lens.sum := by
  have hzero : s.curOffset = 0 := by
    by_contra hpos
    exact hdone (h.stops.inside_of_pos (Nat.pos_of_ne_zero hpos)).lt_length
  have hplace := h.stops.place
  rw [hzero, startOf, List.take_of_length_le (by omega)] at hplace
  omega

theorem OnTrack.exact_iff_of_done (h : OnTrack lens s) (hdone : ¬ s.curBlock < lens.length)
    (hloop : tcpWritevLoop lens rounds s = (some r, s')) :
    s'.sent = allBytes lens ∧ r = lens.sum ∧ s'.underflow = false ↔ StopsApart lens s.nwritten rounds := by
  refine ⟨fun _ => stopsApart_of_sum_le rounds (h.nwritten_eq hdone).ge, fun _ => ?_⟩
  unfold tcpWritevLoop at hloop
  rw [if_neg hdone] at hloop
  cases hloop
  refine ⟨?_, by rw [h.nwritten_eq hdone], h.noUnderflow⟩
  rw [h.sent, h.nwritten_eq hdone, List.take_of_length_le]
  rw [allBytes, length_vectorBytes]

theorem OnTrack.exact_iff (h : OnTrack lens s) (hloop : tcpWritevLoop lens rounds s = (some r, s')) (hr : 0 ≤ r) :
    s'.sent = allBytes lens ∧ r = lens.sum ∧ s'.underflow = false ↔ StopsApart lens s.nwritten rounds := by
  by_cases hlt : s.curBlock < lens.length
  swap
  · exact h.exact_iff_of_done hlt hloop
  induction rounds generalizing s with
  | nil =>
    unfold tcpWritevLoop at hloop
    rw [if_pos hlt] at hloop
    cases hloop
  | cons round rounds ih =>
    -- the rest of the rounds starts from a state of the same kind
    have hnext : ∀ t, OnTrack lens t → tcpWritevLoop lens rounds t = (some r, s') →
        (s'.sent = allBytes lens ∧ r = lens.sum ∧ s'.underflow = false ↔ StopsApart lens t.nwritten rounds) := by
      intro t ht hrest
      by_cases hmore : t.curBlock < lens.length
      · exact ih ht hrest hmore
      · exact ht.exact_iff_of_done hmore hrest
    have hsame : s.resume.nwritten = s.nwritten := by
      unfold Writev.resume
      split <;> rfl
    unfold tcpWritevLoop at hloop
    rw [if_pos hlt] at hloop
    cases round with
    | wrote rc =>
      dsimp only at hloop
      split at hloop
      · rename_i hrc
        rw [StopsApart]
        by_cases hone : WithinOne lens s.nwritten (s.nwritten + rc)
        · -- the second stop in one buffer
          have hskewed : Skewed lens (s.resume.wrote lens rc) := h.interrupted.skewed rfl (by rwa [← hsame] at hone)
          exact ⟨fun hexact => absurd hexact.1 (hskewed.not_exact hloop hr), fun happart => absurd hone happart.1⟩
        · have htrack : OnTrack lens (s.resume.wrote lens rc) :=
            h.interrupted.wrote rfl hrc (by rwa [← hsame] at hone)
          rw [hnext _ htrack hloop, ← hsame]
          exact ⟨fun happart => ⟨by rwa [hsame], happart⟩, And.right⟩
      · cases hloop
    | eagain nready =>
      dsimp only at hloop
      split at hloop
      · cases hloop
        omega
      · have hrest := hnext _ h.interrupted hloop
        simp only [hsame] at hrest
        exact hrest
    | eintr =>
      have hrest := hnext _ h.interrupted hloop
      simp only [hsame] at hrest
      exact hrest
    | failed =>
      cases hloop
      omega

/-- A call of `tcp_writev` that returns a non-negative value has sent all bytes of the vector once, in order, returns
their number, and no length has wrapped around, exactly if no two successive calls of `writev` stop inside of one
buffer. -/
theorem vector_delivered_iff {lens : List Nat} {rounds : List WriteRound} {r : Int} {s : Writev}
    (hret : tcpWritev lens rounds = (some r, s)) (hr : 0 ≤ r) :
    s.sent = allBytes lens ∧ r = lens.sum ∧ s.underflow = false ↔ StopsApart lens 0 rounds := by
  rw [tcpWritev] at hret
  split_ifs at hret with hlen
  · cases hret
    omega
  · exact (OnTrack.init lens).exact_iff hret hr

end Loop

/-- Buffers of 4 and 3 bytes: the first call is interrupted, the next ones stop inside of the first buffer, at the end
of it, and at the end. -/
theorem vector_delivered_run :
    ∃ s, tcpWritev [4, 3] [.eintr, .wrote 1, .wrote 3, .eagain 1, .wrote 3] = (some 7, s) ∧
      s.sent = allBytes [4, 3] := by
  have hret : tcpWritev [4, 3] [.eintr, .wrote 1, .wrote 3, .eagain 1, .wrote 3] =
      (some 7, (tcpWritev [4, 3] [.eintr, .wrote 1, .wrote 3, .eagain 1, .wrote 3]).2) := by
    decide +kernel
  exact ⟨_, hret, ((vector_delivered_iff hret (by decide)).mpr (by decide +kernel)).1⟩

/-- Two buffers of 4 bytes, and calls that take 1, 1, 5 and 1 bytes. The first two stop inside of the first buffer:
its byte 2 is not sent, and the last byte of the second buffer is sent twice. -/
theorem byte_skipped :
    (tcpWritev [4, 4] [.wrote 1, .wrote 1, .wrote 5, .wrote 1]).1 = some 8 ∧
      (tcpWritev [4, 4] [.wrote 1, .wrote 1, .wrote 5, .wrote 1]).2.sent =
        [(0, 0), (0, 1), (0, 3), (1, 0), (1, 1), (1, 2), (1, 3), (1, 3)] ∧
      (tcpWritev [4, 4] [.wrote 1, .wrote 1, .wrote 5, .wrote 1]).2.sent ≠ allBytes [4, 4] := by
  decide +kernel

end Csf
