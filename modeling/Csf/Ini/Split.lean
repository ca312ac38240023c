import Csf.Ini.Load
import Mathlib.Data.List.Chain

/-!
# How `getnstr` cuts a text into lines

Called again and again, each time behind what the last call took, `getnstr` goes through a text and its NUL. Here the
function is modelled with the buffer that it fills and with its result as an `int`; `getnstrInto_spec` ties it to
`getnstr`. What the calls are to give are the `pieces` of the text: the bytes up to a terminator and with it, a carriage
return and a newline counting as one. They do, for every buffer in which the pieces fit, as long as no piece is so long
that its length does not fit into an `int`.
-/

namespace Csf

open Lib

/-! ### `getnstr` and its buffer -/

/-- The `int` that gets the difference `k` of two pointers. -/
def intOf (k : Nat) : Int := (k : Int).bmod 4294967296

theorem intOf_eq_iff (k : Nat) : intOf k = k ↔ k < 2 ^ 31 := by
  unfold intOf
  constructor
  · intro h
    have hlt := @Int.bmod_lt k 4294967296 (by decide)
    rw [h] at hlt
    omega
  · intro h
    apply Int.bmod_eq_of_le
    · omega
    · omega

/-- The end of `getnstr`, with the terminator in `buf[d]` and `n` bytes left. -/
def getnstrIntoEnd (n d : Nat) (buf : Nat → Char) : Int × (Nat → Char) :=
  if n - 1 ≠ 0 then (intOf (d + 1), store buf (d + 1) [nul]) else (intOf d, store buf d [nul])

/-- The loop of `getnstr`: `n` bytes are left in the buffer, `s` is the offset in the text and `d` the one in the
buffer. -/
def getnstrIntoLoop (mem : Nat → Char) : (n s d : Nat) → (buf : Nat → Char) → Int × (Nat → Char)
  | 0, _, _, buf => (0, buf)
  | n + 1, s, d, buf =>
    if mem s = carriageReturn ∨ mem s = newline ∨ mem s = nul then
      if mem s = carriageReturn ∧ mem (s + 1) = newline ∧ n + 1 ≠ 1 then
        getnstrIntoEnd n (d + 1) (store (store buf d [mem s]) (d + 1) [mem (s + 1)])
      else getnstrIntoEnd (n + 1) d (store buf d [mem s])
    else getnstrIntoLoop mem n (s + 1) (d + 1) (store buf d [mem s])

/-- `getnstr` on the text at an offset, with a buffer of `n` bytes: its result and the buffer after the call -/
def getnstrInto (mem : Nat → Char) (s n : Nat) (buf : Nat → Char) : Int × (Nat → Char) := getnstrIntoLoop mem n s 0 buf

/-- The results and buffers of `k` calls, each from the offset that the result before has advanced. -/
def getnstrCalls (mem : Nat → Char) (n : Nat) : (k s : Nat) → (buf : Nat → Char) → List (Int × (Nat → Char))
  | 0, _, _ => []
  | k + 1, s, buf =>
    getnstrInto mem s n buf ::
      getnstrCalls mem n k (s + (getnstrInto mem s n buf).1).toNat (getnstrInto mem s n buf).2

section Buffer

variable {mem buf : Nat → Char} {d : List Char}

theorem getnstrIntoEnd_spec {c : Char} (h : Filled nul buf (d ++ [c])) (n : Nat) :
    (getnstrIntoEnd n d.length buf).1 = intOf (getnstrEnd n d c).1 ∧
      TextAt nul (getnstrIntoEnd n d.length buf).2 0 (getnstrEnd n d c).2 := by
  rw [getnstrIntoEnd, getnstrEnd]
  by_cases hn : n - 1 ≠ 0
  · rw [if_pos hn, if_pos hn]
    have htext := h.textAt
    rw [List.length_append, List.length_singleton] at htext
    refine ⟨?_, htext⟩
    dsimp only
  · rw [if_neg hn, if_neg hn]
    refine ⟨?_, h.left.textAt⟩
    dsimp only

theorem getnstrIntoLoop_spec (h : Filled nul buf d) (n s : Nat) :
    (getnstrIntoLoop mem n s d.length buf).1 = intOf (getnstrLoop mem n s d).1 ∧
      ((getnstrLoop mem n s d).1 ≠ 0 →
        TextAt nul (getnstrIntoLoop mem n s d.length buf).2 0 (getnstrLoop mem n s d).2) := by
  induction n generalizing s d buf with
  | zero =>
    refine ⟨?_, fun hne => absurd rfl hne⟩
    simp only [getnstrIntoLoop, getnstrLoop]
    decide
  | succ n ih =>
    have hpush := h.push (mem s)
    have hlen : (d ++ [mem s]).length = d.length + 1 := by rw [List.length_append, List.length_singleton]
    rw [getnstrIntoLoop, getnstrLoop]
    by_cases hterm : mem s = carriageReturn ∨ mem s = newline ∨ mem s = nul
    · rw [if_pos hterm, if_pos hterm]
      by_cases hcrlf : mem s = carriageReturn ∧ mem (s + 1) = newline ∧ n + 1 ≠ 1
      · have hpush' := hpush.push (mem (s + 1))
        have hend := getnstrIntoEnd_spec hpush' n
        rw [hlen] at hend
        rw [if_pos hcrlf, if_pos hcrlf]
        exact ⟨hend.1, fun _ => hend.2⟩
      · have hend := getnstrIntoEnd_spec hpush (n + 1)
        rw [if_neg hcrlf, if_neg hcrlf]
        exact ⟨hend.1, fun _ => hend.2⟩
    · have hrest := ih hpush (s + 1)
      rw [hlen] at hrest
      rw [if_neg hterm, if_neg hterm]
      exact hrest

theorem getnstrInto_spec (mem buf : Nat → Char) (s n : Nat) :
    (getnstrInto mem s n buf).1 = intOf (getnstr mem s n).1 ∧
      ((getnstr mem s n).1 ≠ 0 → TextAt nul (getnstrInto mem s n buf).2 0 (getnstr mem s n).2) :=
  getnstrIntoLoop_spec (Filled.nil nul buf) n s

end Buffer

/-! ### The pieces of a text -/

def endsPiece (c : Char) (text : List Char) : Bool :=
  isTerminator c && !(c == carriageReturn && text.head? == some newline)

/-- The text and its NUL, cut behind each line. -/
def pieces : List Char → List (List Char)
  | [] => [[nul]]
  | c :: text => if endsPiece c text then [c] :: pieces text else (pieces text).modifyHead (c :: ·)

/-- The first piece of a text, and what is left if it is not the last one. -/
inductive FirstPiece : (text piece : List Char) → (rest : Option (List Char)) → Prop
  | last {line : List Char} (hline : ∀ c ∈ line, isTerminator c = false) : FirstPiece line (line ++ [nul]) none
  | single {line rest : List Char} {c : Char} (hline : ∀ c ∈ line, isTerminator c = false)
      (hc : endsPiece c rest = true) : FirstPiece (line ++ c :: rest) (line ++ [c]) (some rest)
  | crlf {line rest : List Char} (hline : ∀ c ∈ line, isTerminator c = false) :
      FirstPiece (line ++ carriageReturn :: newline :: rest) (line ++ [carriageReturn, newline]) (some rest)

theorem endsPiece_iff {c : Char} {text : List Char} :
    endsPiece c text = true ↔ isTerminator c = true ∧ ¬ (c = carriageReturn ∧ text.head? = some newline) := by
  rw [endsPiece, Bool.and_eq_true, Bool.not_eq_true', Bool.and_eq_false_iff, not_and_or, beq_eq_false_iff_ne,
    beq_eq_false_iff_ne]

theorem pieces_append {line : List Char} (hline : ∀ c ∈ line, isTerminator c = false) (text : List Char) :
    pieces (line ++ text) = (pieces text).modifyHead (line ++ ·) := by
  induction line with
  | nil =>
    rw [List.nil_append]
    cases pieces text <;> rfl
  | cons c line ih =>
    have hc : ¬ endsPiece c (line ++ text) = true := by
      rw [endsPiece_iff, hline c List.mem_cons_self]
      exact fun h => Bool.false_ne_true h.1
    rw [List.cons_append, pieces, if_neg hc, ih fun c' hc' => hline c' (List.mem_cons_of_mem _ hc'),
      List.modifyHead_modifyHead]
    rfl

theorem pieces_crlf (rest : List Char) :
    pieces (carriageReturn :: newline :: rest) = [carriageReturn, newline] :: pieces rest := by
  have hcr : ¬ endsPiece carriageReturn (newline :: rest) = true := by
    rw [endsPiece_iff]
    exact fun h => h.2 ⟨rfl, rfl⟩
  have hlf : endsPiece newline rest = true := by
    rw [endsPiece_iff]
    exact ⟨by decide, fun h => absurd h.1 (by decide)⟩
  rw [pieces, if_neg hcr, pieces, if_pos hlf]
  rfl

theorem exists_firstPiece (text : List Char) :
    ∃ piece rest, FirstPiece text piece rest ∧ pieces text = piece :: rest.elim [] pieces := by
  obtain ⟨line, rest, rfl, hline, hrest⟩ := exists_line text
  rw [pieces_append hline]
  rcases hrest with rfl | ⟨c, rest, rfl, hc⟩
  · rw [List.append_nil]
    exact ⟨_, none, .last hline, rfl⟩
  · by_cases hends : endsPiece c rest = true
    · refine ⟨_, some rest, .single hline hends, ?_⟩
      rw [pieces, if_pos hends]
      rfl
    · rw [endsPiece_iff, not_and, not_not] at hends
      obtain ⟨rfl, hhead⟩ := hends hc
      obtain ⟨rest, rfl⟩ : ∃ rest', rest = newline :: rest' := by
        rw [List.head?_eq_some_iff] at hhead
        exact hhead
      refine ⟨_, some rest, .crlf hline, ?_⟩
      rw [pieces_crlf]
      rfl

namespace FirstPiece

variable {text piece rest : List Char}

theorem eq_append (h : FirstPiece text piece (some rest)) : text = piece ++ rest := by
  cases h with
  | single hline hc => rw [List.append_assoc, List.singleton_append]
  | crlf hline => rw [List.append_assoc, List.cons_append, List.singleton_append]

theorem length_pos {rest : Option (List Char)} (h : FirstPiece text piece rest) : 0 < piece.length := by
  cases h with
  | last | single | crlf => rw [List.length_append]; exact Nat.lt_add_left _ (Nat.succ_pos _)

end FirstPiece

theorem pieces_induction {motive : List Char → Prop}
    (last : ∀ text piece, FirstPiece text piece none → pieces text = [piece] → motive text)
    (next : ∀ text piece rest, FirstPiece text piece (some rest) → pieces text = piece :: pieces rest → motive rest →
      motive text) (text : List Char) : motive text := by
  induction hk : text.length using Nat.strong_induction_on generalizing text with
  | _ k ih =>
    obtain ⟨piece, rest, hfirst, hpieces⟩ := exists_firstPiece text
    cases rest with
    | none => exact last text piece hfirst hpieces
    | some rest =>
      refine next text piece rest hfirst hpieces (ih rest.length ?_ rest rfl)
      rw [← hk, hfirst.eq_append, List.length_append]
      have := hfirst.length_pos
      omega

/-! ### What the pieces are -/

/-- A run of bytes that are no terminators, and one terminator. -/
def IsPiece (piece : List Char) : Prop :=
  ∃ line ends, piece = line ++ ends ∧ (∀ c ∈ line, isTerminator c = false) ∧
    ends ∈ [[newline], [carriageReturn], [carriageReturn, newline], [nul]]

theorem FirstPiece.isPiece {text piece : List Char} {rest : Option (List Char)} (h : FirstPiece text piece rest) :
    IsPiece piece := by
  cases h with
  | last hline => exact ⟨_, _, rfl, hline, by simp⟩
  | crlf hline => exact ⟨_, _, rfl, hline, by simp⟩
  | single hline hc =>
    refine ⟨_, _, rfl, hline, ?_⟩
    rcases isTerminator_iff.mp (endsPiece_iff.mp hc).1 with rfl | rfl | rfl
    · simp
    · simp
    · simp

theorem isPiece_of_mem {text piece : List Char} (h : piece ∈ pieces text) : IsPiece piece := by
  induction text using pieces_induction with
  | last text first hfirst hpieces =>
    rw [hpieces, List.mem_singleton] at h
    exact h ▸ hfirst.isPiece
  | next text first rest hfirst hpieces ih =>
    rw [hpieces, List.mem_cons] at h
    rcases h with rfl | h
    · exact hfirst.isPiece
    · exact ih h

theorem flatten_pieces (text : List Char) : (pieces text).flatten = text ++ [nul] := by
  induction text using pieces_induction with
  | last text piece hfirst hpieces =>
    cases hfirst
    rw [hpieces, List.flatten_singleton]
  | next text piece rest hfirst hpieces ih =>
    rw [hpieces, List.flatten_cons, ih, hfirst.eq_append, List.append_assoc]

theorem pieces_ne_nil (text : List Char) : pieces text ≠ [] := by
  obtain ⟨piece, rest, -, hpieces⟩ := exists_firstPiece text
  rw [hpieces]
  exact List.cons_ne_nil _ _

theorem nul_notMem_of_mem_dropLast {text piece : List Char} (hnul : nul ∉ text) (h : piece ∈ (pieces text).dropLast) :
    nul ∉ piece := by
  induction text using pieces_induction with
  | last text first hfirst hpieces =>
    rw [hpieces] at h
    exact absurd h List.not_mem_nil
  | next text first rest hfirst hpieces ih =>
    rw [hfirst.eq_append, List.mem_append, not_or] at hnul
    rw [hpieces, List.dropLast_cons_of_ne_nil (pieces_ne_nil rest), List.mem_cons] at h
    rcases h with rfl | h
    · exact hnul.1
    · exact ih hnul.2 h

theorem head?_of_mem_head? {text piece : List Char} (h : piece ∈ (pieces text).head?) :
    piece.head? = (text ++ [nul]).head? := by
  cases text with
  | nil =>
    rw [pieces, List.head?_cons, Option.mem_some] at h
    rw [← h]
    rfl
  | cons c text =>
    obtain ⟨first, rest, hpieces⟩ := List.exists_cons_of_ne_nil (pieces_ne_nil text)
    rw [pieces, hpieces] at h
    split_ifs at h
    · rw [List.head?_cons, Option.mem_some] at h
      rw [← h]
      rfl
    · rw [List.modifyHead_cons, List.head?_cons, Option.mem_some] at h
      rw [← h]
      rfl

/-- A carriage return and the newline behind it are in different pieces. -/
def SplitBetween (piece next : List Char) : Prop :=
  piece.getLast? = some carriageReturn ∧ next.head? = some newline

theorem FirstPiece.not_splitBetween {text piece rest next : List Char} (h : FirstPiece text piece (some rest))
    (hnext : next ∈ (pieces rest).head?) : ¬ SplitBetween piece next := by
  rintro ⟨hlast, hhead⟩
  rw [head?_of_mem_head? hnext] at hhead
  cases h with
  | crlf hline =>
    rw [List.getLast?_append_of_ne_nil _ (List.cons_ne_nil _ _)] at hlast
    exact absurd (Option.some.inj hlast) (by decide)
  | single hline hc =>
    rw [List.getLast?_concat, Option.some.injEq] at hlast
    refine (endsPiece_iff.mp hc).2 ⟨hlast, ?_⟩
    cases rest with
    | nil => exact absurd (Option.some.inj hhead) (by decide)
    | cons c rest => exact hhead

theorem isChain_pieces (text : List Char) : (pieces text).IsChain fun piece next => ¬ SplitBetween piece next := by
  induction text using pieces_induction with
  | last text piece hfirst hpieces =>
    rw [hpieces]
    exact List.isChain_singleton _
  | next text piece rest hfirst hpieces ih =>
    rw [hpieces, List.isChain_cons]
    exact ⟨fun next hnext => hfirst.not_splitBetween hnext, ih⟩

structure CutAtLines (text : List Char) (ps : List (List Char)) : Prop where
  bytes : ps.flatten = text ++ [nul]
  piece : ∀ piece ∈ ps, IsPiece piece
  final : nul ∉ text → ∀ piece ∈ ps.dropLast, nul ∉ piece
  whole : ps.IsChain fun piece next => ¬ SplitBetween piece next

theorem cutAtLines_pieces (text : List Char) : CutAtLines text (pieces text) where
  bytes := flatten_pieces text
  piece _ h := isPiece_of_mem h
  final hnul _ h := nul_notMem_of_mem_dropLast hnul h
  whole := isChain_pieces text

/-! ### The calls -/

section Calls

variable {mem : Nat → Char} {line : List Char} {s n : Nat}

theorem getnstr_single (hline : ∀ c ∈ line, isTerminator c = false)
    (hmem : ∀ i < line.length, mem (s + i) = line.getD i nul) (hterm : isTerminator (mem (s + line.length)) = true)
    (hcrlf : ¬ (mem (s + line.length) = carriageReturn ∧ mem (s + line.length + 1) = newline))
    (hn : line.length + 1 < n) : getnstr mem s n = (line.length + 1, line ++ [mem (s + line.length)]) := by
  obtain ⟨k, rfl⟩ := Nat.exists_eq_add_of_lt hn
  rw [getnstr_short hline hmem (by omega), show line.length + 1 + k + 1 - line.length = k + 2 by omega, getnstrLoop,
    if_pos (isTerminator_iff.mp hterm), if_neg fun h => hcrlf ⟨h.1, h.2.1⟩, getnstrEnd, if_pos (by omega)]

theorem getnstr_crlf (hline : ∀ c ∈ line, isTerminator c = false)
    (hmem : ∀ i < line.length, mem (s + i) = line.getD i nul) (hcr : mem (s + line.length) = carriageReturn)
    (hlf : mem (s + line.length + 1) = newline) (hn : line.length + 2 < n) :
    getnstr mem s n = (line.length + 2, line ++ [carriageReturn, newline]) := by
  obtain ⟨k, rfl⟩ := Nat.exists_eq_add_of_lt hn
  rw [getnstr_short hline hmem (by omega), show line.length + 2 + k + 1 - line.length = k + 3 by omega, getnstrLoop,
    if_pos (Or.inl hcr), if_pos ⟨hcr, hlf, by omega⟩, getnstrEnd, if_pos (by omega), hcr, hlf, List.append_assoc,
    List.length_append]
  rfl

theorem FirstPiece.getnstr_eq {text piece : List Char} {rest : Option (List Char)} (h : FirstPiece text piece rest)
    (hat : TextAt nul mem s text) (hn : piece.length < n) :
    getnstr mem s n = (piece.length, piece) ∧ ∀ rest' ∈ rest, TextAt nul mem (s + piece.length) rest' := by
  cases h with
  | last hline =>
    rw [List.length_append] at hn ⊢
    have hnul := hat.end_eq
    rw [← List.append_nil text] at hat
    have hget := getnstr_single hline (textAt_append.mp hat).1 (by rw [hnul]; decide)
      (by rw [hnul]; exact fun h => absurd h.1 (by decide)) hn
    rw [hnul] at hget
    exact ⟨hget, fun rest' h => absurd h (Option.not_mem_none rest')⟩
  | @single line rest c hline hc =>
    rw [List.length_append] at hn ⊢
    obtain ⟨hmem, hs, hrest⟩ := textAt_append.mp hat
    obtain ⟨hterm, hcrlf⟩ := endsPiece_iff.mp hc
    have hget := getnstr_single hline hmem (by rw [hs]; exact hterm) ?_ hn
    · rw [hs] at hget
      refine ⟨hget, fun rest' h => ?_⟩
      rw [← Option.some.inj h]
      exact hrest
    · -- the byte behind a carriage return is the first one of the rest, or the NUL
      rintro ⟨hcr, hlf⟩
      refine hcrlf ⟨hs.symm.trans hcr, ?_⟩
      cases rest with
      | nil => exact absurd (hrest.symm.trans hlf) (by decide)
      | cons c' rest => rw [List.head?_cons, ← hrest.1, hlf]
  | crlf hline =>
    rw [List.length_append] at hn ⊢
    obtain ⟨hmem, hs, hs', hrest⟩ := textAt_append.mp hat
    refine ⟨getnstr_crlf hline hmem hs hs' hn, fun rest' h => ?_⟩
    rw [← Option.some.inj h]
    exact hrest

end Calls

/-- What a call for a piece is to give: the length of the piece, and the piece with a NUL in the buffer. -/
def Copied (piece : List Char) (call : Int × (Nat → Char)) : Prop :=
  call.1 = piece.length ∧ 0 < call.1 ∧ TextAt nul call.2 0 piece

theorem FirstPiece.copied_iff {mem : Nat → Char} {s n : Nat} {text piece : List Char} {rest : Option (List Char)}
    (h : FirstPiece text piece rest) (hat : TextAt nul mem s text) (hn : piece.length < n) (buf : Nat → Char) :
    Copied piece (getnstrInto mem s n buf) ↔ piece.length < 2 ^ 31 := by
  obtain ⟨hresult, hbuf⟩ := getnstrInto_spec mem buf s n
  have hpos := h.length_pos
  rw [(h.getnstr_eq hat hn).1] at hresult hbuf
  rw [Copied, hresult, ← intOf_eq_iff]
  constructor
  · exact fun hcopied => hcopied.1
  · exact fun hint => ⟨hint, by rw [hint]; omega, hbuf (by omega)⟩

/-- The calls on a text, by induction over its pieces: as long as the results are the lengths, each call starts with the
next piece. -/
theorem forall₂_copied_iff {mem : Nat → Char} {s n : Nat} {text : List Char} (hat : TextAt nul mem s text)
    (hfit : ∀ piece ∈ pieces text, piece.length < n) (buf : Nat → Char) :
    List.Forall₂ Copied (pieces text) (getnstrCalls mem n (pieces text).length s buf) ↔
      ∀ piece ∈ pieces text, piece.length < 2 ^ 31 := by
  induction text using pieces_induction generalizing s buf with
  | last text piece hfirst hpieces =>
    rw [hpieces] at hfit ⊢
    rw [List.length_singleton, getnstrCalls, getnstrCalls, List.forall₂_cons,
      hfirst.copied_iff hat (hfit piece List.mem_cons_self), List.forall_mem_singleton]
    exact and_iff_left List.Forall₂.nil
  | next text piece rest hfirst hpieces ih =>
    rw [hpieces] at hfit ⊢
    have hn := hfit piece List.mem_cons_self
    have hat' := (hfirst.getnstr_eq hat hn).2 rest rfl
    rw [List.length_cons, getnstrCalls, List.forall₂_cons, hfirst.copied_iff hat hn, List.forall_mem_cons]
    refine and_congr_right fun hsmall => ?_
    have hresult := ((hfirst.copied_iff hat hn buf).mpr hsmall).1
    rw [hresult, show ((s : Int) + (piece.length : Int)).toNat = s + piece.length by omega]
    exact ih hat' (fun piece' h => hfit piece' (List.mem_cons_of_mem _ h)) _

/-- For every text in memory, every buffer size in which each line fits with its terminator and a NUL, and every former
content of the buffer: the calls of `getnstr` cut the text and its NUL at the lines, give the length of each piece, which
is positive, and leave it in the buffer with a NUL, exactly if every piece is shorter than `2 ^ 31` bytes. -/
theorem text_split_iff {mem : Nat → Char} {text : List Char} {n : Nat} (hat : TextAt nul mem 0 text)
    (hfit : ∀ piece ∈ pieces text, piece.length < n) (buf : Nat → Char) :
    CutAtLines text (pieces text) ∧
      (List.Forall₂ Copied (pieces text) (getnstrCalls mem n (pieces text).length 0 buf) ↔
        ∀ piece ∈ pieces text, piece.length < 2 ^ 31) :=
  ⟨cutAtLines_pieces text, forall₂_copied_iff hat hfit buf⟩

/-- Lines with all the terminators. -/
theorem text_split_run :
    pieces ['a', carriageReturn, newline, carriageReturn, 'b', newline, 'c'] =
        [['a', carriageReturn, newline], [carriageReturn], ['b', newline], ['c', nul]] ∧
      List.Forall₂ Copied [['a', carriageReturn, newline], [carriageReturn], ['b', newline], ['c', nul]]
        (getnstrCalls (inMemory ['a', carriageReturn, newline, carriageReturn, 'b', newline, 'c']) 4 4 0 fun _ => 'x') := by
  have hpieces : pieces ['a', carriageReturn, newline, carriageReturn, 'b', newline, 'c'] =
      [['a', carriageReturn, newline], [carriageReturn], ['b', newline], ['c', nul]] := by decide
  have hsplit := (text_split_iff (n := 4) (textAt_inMemory ['a', carriageReturn, newline, carriageReturn, 'b', newline, 'c'])
    (by decide) fun _ => 'x').2.mpr (by decide)
  rw [hpieces] at hsplit
  exact ⟨hpieces, hsplit⟩

theorem pieces_line {line : List Char} (hline : ∀ c ∈ line, isTerminator c = false) :
    pieces (line ++ [newline]) = [line ++ [newline], [nul]] := by
  rw [pieces_append hline, pieces, if_pos (by decide), pieces]
  rfl

/-- A line of `2 ^ 31 - 1` characters and its newline, with room for both and a NUL: the result is negative. -/
theorem long_line_negative :
    (∀ piece ∈ pieces (List.replicate (2 ^ 31 - 1) 'a' ++ [newline]), piece.length < 2 ^ 32) ∧
      (getnstrInto (inMemory (List.replicate (2 ^ 31 - 1) 'a' ++ [newline])) 0 (2 ^ 32) fun _ => nul).1 = -2147483648 := by
  generalize hk : 2 ^ 31 - 1 = k
  have hline : ∀ c ∈ List.replicate k 'a', isTerminator c = false := by
    intro c hc
    rw [List.eq_of_mem_replicate hc]
    decide
  have hfirst : FirstPiece (List.replicate k 'a' ++ [newline]) (List.replicate k 'a' ++ [newline]) (some []) :=
    .single hline (by decide)
  have hlen : (List.replicate k 'a' ++ [newline]).length = 2 ^ 31 := by
    rw [List.length_append, List.length_replicate, List.length_singleton]
    omega
  have hfits : (List.replicate k 'a' ++ [newline]).length < 2 ^ 32 := by omega
  refine ⟨?_, ?_⟩
  · rw [pieces_line hline]
    simp only [List.forall_mem_cons]
    exact ⟨hfits, by decide, fun piece h => absurd h List.not_mem_nil⟩
  · rw [(getnstrInto_spec _ _ 0 (2 ^ 32)).1, (hfirst.getnstr_eq (textAt_inMemory _) hfits).1, hlen]
    dsimp only
    decide +kernel

end Csf
