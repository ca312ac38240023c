import Csf.Config.Model

/-!
# The parser of configuration files

`iniparser.c` has two loaders: `iniparser_load` reads a file with `fgets`, and `iniparser_load_mem` reads a text in memory
with `getnstr`. Both hand each line to `iniparser_line` and put what it finds into the dictionary. A line that ends in a
backslash is to be continued by the next one; `endLine` is the code for this, which both have.

A text in memory is a function from offsets to characters. Allocations succeed, so `dictionary_set` returns 0. The read
of `line[-1]` that `iniparser_load` makes on a blank line is taken not to find a backslash.
-/

namespace Csf

/-! ### Characters and strings -/

def nul : Char := Char.ofNat 0
def newline : Char := Char.ofNat 10
def carriageReturn : Char := Char.ofNat 13
def quote : Char := Char.ofNat 34
def apostrophe : Char := Char.ofNat 39
def backslash : Char := Char.ofNat 92

/-- `isspace` of the C locale -/
def isspace (c : Char) : Bool := c.toNat == 32 || (9 ≤ c.toNat && c.toNat ≤ 13)

/-- The string in a buffer. -/
def cstr (buf : List Char) : List Char := buf.takeWhile (· != nul)

def stripTail (s : List Char) : List Char := (s.reverse.dropWhile isspace).reverse

def strstrip (s : List Char) : List Char := stripTail (s.dropWhile isspace)

/-! ### Conversions of `sscanf` -/

/-- A conversion `%[...]`, which takes at least one character. -/
def scanSet (p : Char → Bool) (s : List Char) : Option (List Char × List Char) :=
  if s.takeWhile p = [] then none else some (s.takeWhile p, s.dropWhile p)

def scanChar (c : Char) : List Char → Option (List Char)
  | [] => none
  | c' :: s => if c' = c then some s else none

def scanBlanks (s : List Char) : List Char := s.dropWhile isspace

/-- `"%[^=] ="` and what follows -/
def scanKey (line : List Char) : Option (List Char × List Char) :=
  match scanSet (· != '=') line with
  | none => none
  | some (key, s) => (scanChar '=' (scanBlanks s)).map fun s => (key, scanBlanks s)

/-- `"%[^=] = \"%[^\"]\""`, and the same with the other kind of quotes -/
def scanQuoted (mark : Char) (line : List Char) : Option (List Char × List Char) :=
  match scanKey line with
  | none => none
  | some (key, s) =>
    match scanChar mark s with
    | none => none
    | some s => (scanSet (· != mark) s).map fun r => (key, r.1)

/-- `"%[^=] = %[^;#]"` -/
def scanPlain (line : List Char) : Option (List Char × List Char) :=
  match scanKey line with
  | none => none
  | some (key, s) => (scanSet (fun c => c != ';' && c != '#') s).map fun r => (key, r.1)

/-- `"%[^=] = %[;#]"` -/
def scanComment (line : List Char) : Option (List Char × List Char) :=
  match scanKey line with
  | none => none
  | some (key, s) => (scanSet (fun c => c == ';' || c == '#') s).map fun r => (key, r.1)

/-- `"%[^=] %[=]"` -/
def scanNoValue (line : List Char) : Option (List Char × List Char) :=
  match scanSet (· != '=') line with
  | none => none
  | some (key, s) => (scanSet (· == '=') (scanBlanks s)).map fun r => (key, r.1)

/-- `"[%[^]]"` -/
def scanSection (line : List Char) : Option (List Char) :=
  match scanChar '[' line with
  | none => none
  | some s => (scanSet (· != ']') s).map Prod.fst

/-! ### `iniparser_line` -/

/-- `line_status`, with what is stored for the caller -/
inductive LineStatus
  | lineEmpty
  | lineComment
  | lineSection (secname : List Char)
  | lineValue (key value : List Char)
  | lineError
  deriving DecidableEq

/-- `iniparser_line`. A section without a name leaves the buffer of the caller as it was. -/
def iniparserLine (inputLine secname : List Char) : LineStatus :=
  let line := strstrip inputLine
  if line = [] then .lineEmpty
  else if line.head? = some '#' then .lineComment
  else if line.head? = some '[' ∧ line.getLast? = some ']' then
    .lineSection (strlwc (strstrip ((scanSection line).getD secname)))
  else
    match (scanQuoted quote line).or ((scanQuoted apostrophe line).or (scanPlain line)) with
    | some (key, value) =>
      let value := strstrip value
      .lineValue (strlwc (strstrip key))
        (if value = [quote, quote] ∨ value = [apostrophe, apostrophe] then [] else value)
    | none =>
      match (scanComment line).or (scanNoValue line) with
      | some (key, _) => .lineValue (strlwc (strstrip key)) []
      | none => .lineError

/-! ### What the loaders share -/

def dictionarySet (d : Dictionary) (key : List Char) (val : Option (List Char)) : Dictionary :=
  if d.any fun entry => entry.1 == key then d.map fun entry => if entry.1 == key then (entry.1, val) else entry
  else d ++ [(key, val)]

structure IniState where
  dict : Dictionary
  secname : List Char
  errs : Nat
  deriving DecidableEq

def IniState.initial : IniState := ⟨[], [], 0⟩

/-- The `switch` on the status of a line. A later entry clears the count of errors. The key of an entry is built in `tmp`,
which has `ASCIILINESZ + 1` bytes: the entry is as it is here if it fits (`tmpLengths`). -/
def IniState.line (st : IniState) (line : List Char) : IniState :=
  match iniparserLine line st.secname with
  | .lineEmpty => st
  | .lineComment => st
  | .lineSection secname => ⟨dictionarySet st.dict secname none, secname, 0⟩
  | .lineValue key val => { st with dict := dictionarySet st.dict (st.secname ++ ':' :: key) (some val), errs := 0 }
  | .lineError => { st with errs := st.errs + 1 }

/-- What a loader returns, `none` for `NULL`. -/
def IniState.result (st : IniState) : Option Dictionary := if st.errs = 0 then some st.dict else none

/-- The loop that clears blanks at the end of a line, from index `n - 1` down. It gives the line and the index where it
stops, `none` for `-1`. -/
def stripEnd (line : List Char) : Nat → List Char × Option Nat
  | 0 => (line, none)
  | len + 1 => if isspace (line.getD len nul) then stripEnd (line.take len) len else (line, some len)

inductive LineEnd
  /-- it goes on in the next one, behind these characters -/
  | continued (pre : List Char)
  | complete (line : List Char)
  deriving DecidableEq

/-- The end of a line, where the code has set `len` to `n - 1`. -/
def endLine (line : List Char) (n : Nat) : LineEnd :=
  match stripEnd line n with
  | (line, some len) => if line.getD len nul = backslash then .continued (line.take len) else .complete line
  | (line, none) => .complete line

/-! ### `iniparser_load` -/

/-- At most `k` characters, up to the end of the line. -/
def takeLine : Nat → List Char → List Char × List Char
  | 0, text => ([], text)
  | _ + 1, [] => ([], [])
  | k + 1, c :: text => if c = newline then ([c], text) else (c :: (takeLine k text).1, (takeLine k text).2)

/-- `fgets` with a buffer of `n` bytes: what is read and what is left, `none` at the end of the file -/
def fgets (n : Nat) (text : List Char) : Option (List Char × List Char) :=
  if text = [] ∧ 1 < n then none else some (takeLine (n - 1) text)

theorem length_takeLine (k : Nat) (text : List Char) :
    (takeLine k text).1.length + (takeLine k text).2.length = text.length := by
  induction k generalizing text with
  | zero => exact Nat.zero_add _
  | succ k ih =>
    cases text with
    | nil => rfl
    | cons c text =>
      rw [takeLine]
      split
      · exact Nat.add_comm 1 _
      · have hrest := ih text
        simp only [List.length_cons]
        omega

theorem length_fgets {n : Nat} {text chunk rest : List Char} (h : fgets n text = some (chunk, rest))
    (hchunk : chunk ≠ []) : rest.length < text.length := by
  rw [fgets] at h
  split_ifs at h
  have hlen := length_takeLine (n - 1) text
  rw [Option.some.inj h] at hlen
  dsimp only at hlen
  have hpos := List.length_pos_iff.mpr hchunk
  omega

/-- The loop of `iniparser_load`, with the characters `pre` of a line that is continued. -/
def iniparserLoadLoop (text pre : List Char) (st : IniState) : Option Dictionary :=
  match _hget : fgets (asciiLineSz - pre.length) text with
  | none => st.result
  | some (chunk, rest) =>
    -- without room in the buffer the line does not end in a newline either
    if _hchunk : chunk = [] then none
    else if (cstr (pre ++ chunk)).getLast? ≠ some newline then none
    else
      match endLine (cstr (pre ++ chunk)) (cstr (pre ++ chunk)).length with
      | .continued pre => iniparserLoadLoop rest pre st
      | .complete line => iniparserLoadLoop rest [] (st.line line)
  termination_by text.length
  decreasing_by
    · exact length_fgets _hget _hchunk
    · exact length_fgets _hget _hchunk

/-- `iniparser_load` of a file that can be opened -/
def iniparserLoad (text : List Char) : Option Dictionary := iniparserLoadLoop text [] .initial

/-! ### `iniparser_load_mem` -/

/-- The end of `getnstr` at the terminator `c`, with `n` bytes left in the buffer. -/
def getnstrEnd (n : Nat) (d : List Char) (c : Char) : Nat × List Char :=
  if n - 1 ≠ 0 then (d.length + 1, d ++ [c]) else (d.length, d)

/-- The loop of `getnstr` at offset `s`, with `n` bytes left in the buffer and `d` copied. -/
def getnstrLoop (mem : Nat → Char) : (n : Nat) → (s : Nat) → (d : List Char) → Nat × List Char
  | 0, _, d => (0, d)
  | n + 1, s, d =>
    if mem s = carriageReturn ∨ mem s = newline ∨ mem s = nul then
      if mem s = carriageReturn ∧ mem (s + 1) = newline ∧ n + 1 ≠ 1 then getnstrEnd n (d ++ [mem s]) (mem (s + 1))
      else getnstrEnd (n + 1) d (mem s)
    else getnstrLoop mem n (s + 1) (d ++ [mem s])

/-- `getnstr` on the text at an offset: its result, and what is in the buffer before the last NUL -/
def getnstr (mem : Nat → Char) (s n : Nat) : Nat × List Char := getnstrLoop mem n s []

theorem offset_advances {inilen tpos rpos : Nat} (h : rpos ≠ 0 ∧ tpos < inilen) :
    inilen - (tpos + rpos) < inilen - tpos := by omega

/-- The loop of `iniparser_load_mem`. Its `len` is the index of the NUL at the end of the line. -/
def iniparserLoadMemLoop (mem : Nat → Char) (inilen tpos : Nat) (pre : List Char) (st : IniState) :
    Option Dictionary :=
  match getnstr mem tpos (asciiLineSz - pre.length) with
  | (rpos, buf) =>
    if _hpos : rpos ≠ 0 ∧ tpos < inilen then
      match endLine (cstr (pre ++ buf)) ((cstr (pre ++ buf)).length + 1) with
      | .continued pre => iniparserLoadMemLoop mem inilen (tpos + rpos) pre st
      | .complete line => iniparserLoadMemLoop mem inilen (tpos + rpos) [] (st.line line)
    else st.result
  termination_by inilen - tpos
  decreasing_by
    · exact offset_advances _hpos
    · exact offset_advances _hpos

def iniparserLoadMem (mem : Nat → Char) (inilen : Nat) : Option Dictionary :=
  iniparserLoadMemLoop mem inilen 0 [] .initial

end Csf
