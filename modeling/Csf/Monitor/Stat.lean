import Csf.Log.Model
import Csf.Monitor.Model
import Mathlib.Data.List.Infix

/-!
# The registry of the monitor and the command `stat`

`register_stat_int` puts variables into the list `monitor_head` and takes them out again. A client of the monitor sends
lines, which `readline` reads, and `cmd_stat` answers with one text for each variable that the line selects. It reads two
texts from the line with `sscanf`, and selects a variable by looking for its `so_name` inside of them.

A pointer is a number, or `none` for `NULL`. How `snprintf` prints the value of a type at an address is a parameter of
`cmd_stat`. `reported` are the variables that a run of `cmd_stat` writes a text for.
-/

namespace Csf

def maxFieldLength : Nat := 21
def cmdBufSize : Nat := 200

/-! ### The registry -/

structure VarNode where
  itemName : CString
  soName : CString
  val : Nat
  option : Nat
  itemName_short : itemName.1.length < maxFieldLength
  soName_short : soName.1.length < maxFieldLength
  deriving DecidableEq

def VarNode.make (itemName : CString) (val : Nat) (soName : CString) (option : Nat) : VarNode where
  itemName := itemName.cut (maxFieldLength - 1)
  soName := soName.cut (maxFieldLength - 1)
  val := val
  option := option
  itemName_short := Nat.lt_succ_of_le (List.length_take_le _ _)
  soName_short := Nat.lt_succ_of_le (List.length_take_le _ _)

/-- `add_node`, whose `malloc` may fail -/
def addNode (allocated : Bool) (itemName : CString) (val : Nat) (soName : CString) (option : Nat)
    (monitorHead : List VarNode) : List VarNode :=
  if allocated then VarNode.make itemName val soName option :: monitorHead else monitorHead

/-- A call of `register_stat_int`, and whether `malloc` succeeds in it. -/
structure Registration where
  soName : Option CString
  itemName : Option CString
  option : Int
  val : Option Nat
  allocated : Bool

def removeNode (val : Option Nat) (monitorHead : List VarNode) : List VarNode :=
  monitorHead.filter fun node => !(some node.val == val || val.isNone)

def registerStatInt (monitorEnable : Bool) (monitorHead : List VarNode) (call : Registration) : List VarNode :=
  if !monitorEnable then monitorHead
  else if 0 ≤ call.option then
    match call.itemName, call.val, call.soName with
    | some itemName, some val, some soName =>
      addNode call.allocated itemName val soName call.option.toNat monitorHead
    -- the option is not -1 here either
    | _, _, _ => monitorHead
  else if call.option = -1 then removeNode call.val monitorHead
  else monitorHead

def VarNode.registration (node : VarNode) : Registration :=
  ⟨some node.soName, some node.itemName, node.option, some node.val, true⟩

theorem CString.cut_of_le {s : CString} {n : Nat} (h : s.1.length ≤ n) : s.cut n = s :=
  Subtype.ext (List.take_of_length_le h)

theorem registerStatInt_registration (monitorHead : List VarNode) (node : VarNode) :
    registerStatInt true monitorHead node.registration = node :: monitorHead := by
  have hmake : VarNode.make node.itemName node.val node.soName node.option = node := by
    unfold VarNode.make
    congr
    · exact CString.cut_of_le (Nat.le_of_lt_succ node.itemName_short)
    · exact CString.cut_of_le (Nat.le_of_lt_succ node.soName_short)
  have hoption : 0 ≤ node.registration.option := Int.natCast_nonneg _
  rw [registerStatInt, Bool.not_true, if_neg Bool.false_ne_true, if_pos hoption]
  exact congrArg (· :: monitorHead) hmake

theorem exists_registrations (registry : List VarNode) :
    ∃ calls : List Registration, calls.foldl (registerStatInt true) [] = registry := by
  refine ⟨(registry.map VarNode.registration).reverse, ?_⟩
  rw [List.foldl_reverse]
  induction registry with
  | nil => rfl
  | cons node registry ih => rw [List.map_cons, List.foldr_cons, ih, registerStatInt_registration]

/-! ### Reading a line -/

/-- The character of CTRL+C. -/
def interrupt : Char := Char.ofNat 3

inductive StreamEnd
  | eof
  | error
  | reset
  deriving DecidableEq

/-- The loop of `readline`, with the number of characters that still fit and the line so far. -/
def readlineLoop (fin : StreamEnd) : Nat → List Char → List Char → LineResult
  | 0, line, _ => .line line
  | _ + 1, line, [] =>
    match fin with
    | .eof => if line = [] then .eof else .line line
    | .error => .error
    | .reset => .reset
  | n + 1, line, c :: input =>
    if c = newline ∨ c = interrupt then .line (line ++ [c]) else readlineLoop fin n (line ++ [c]) input

/-- `readline` for a client that sends the characters of `input`. -/
def readline (maxlen : Nat) (input : List Char) (fin : StreamEnd) : LineResult :=
  readlineLoop fin (maxlen - 1) [] input

theorem readlineLoop_append {fin : StreamEnd} {text : List Char} (htext : newline ∉ text ∧ interrupt ∉ text)
    {n : Nat} (hn : text.length ≤ n) (line rest : List Char) :
    readlineLoop fin n line (text ++ rest) = readlineLoop fin (n - text.length) (line ++ text) rest := by
  induction text generalizing n line with
  | nil => rw [List.nil_append, List.append_nil, List.length_nil, Nat.sub_zero]
  | cons c text ih =>
    obtain ⟨n, rfl⟩ := Nat.exists_eq_add_of_lt (Nat.lt_of_lt_of_le (Nat.succ_pos _) hn)
    obtain ⟨hnewline, hinterrupt⟩ := htext
    rw [List.mem_cons, not_or] at hnewline hinterrupt
    rw [List.length_cons] at hn
    rw [List.cons_append, readlineLoop, if_neg (not_or.mpr ⟨Ne.symm hnewline.1, Ne.symm hinterrupt.1⟩),
      ih ⟨hnewline.2, hinterrupt.2⟩ (by omega), List.append_assoc, List.singleton_append, List.length_cons]
    congr 1
    omega

theorem readlineLoop_stop {fin : StreamEnd} {text : List Char} (htext : newline ∉ text ∧ interrupt ∉ text)
    {n : Nat} (hn : text.length < n) {c : Char} (hc : c = newline ∨ c = interrupt) (line rest : List Char) :
    readlineLoop fin n line (text ++ c :: rest) = .line (line ++ text ++ [c]) := by
  obtain ⟨k, rfl⟩ := Nat.exists_eq_add_of_lt hn
  rw [readlineLoop_append htext (Nat.le_of_lt hn), Nat.add_assoc, Nat.add_sub_cancel_left, readlineLoop, if_pos hc]

/-! ### `stat` -/

inductive VarType
  | uint64
  | int64
  | uint32
  | int32
  | uint
  | int
  | char
  | string
  | float
  | double
  deriving DecidableEq

/-- The bits of the types, in the order in which `cmd_stat` tests them. -/
def mntTypes : List (VarType × Nat) := [
  (.uint64, 0x1), (.int64, 0x2), (.uint32, 0x4), (.int32, 0x8), (.uint, 0x10), (.int, 0x20), (.char, 0x40),
  (.string, 0x80), (.float, 0x100), (.double, 0x200)]

def mntGroupStat : Nat := 0x400

def VarNode.type (node : VarNode) : Option VarType :=
  (mntTypes.find? fun entry => node.option &&& entry.2 == entry.2).map Prod.fst

def VarNode.buf (shown : VarType → Nat → List Char) (node : VarNode) : List Char :=
  let text := match node.type with
    | some type =>
      let mark := if node.option &&& mntGroupStat = mntGroupStat then ['#', '#', '|'] else ['|']
      node.itemName.1 ++ ',' :: shown type node.val ++ ',' :: node.soName.1 ++ mark
    | none => node.itemName.1 ++ ",*TYPE INVALID*,".toList ++ node.soName.1 ++ ['|']
  text.take (cmdBufSize - 1)

/-- A call of `writen` in `cmd_stat`, and the node that it is for. -/
structure StatWrite where
  node : Option VarNode
  text : List Char
  deriving DecidableEq

/-- The text of a node. It ends at a NUL, which a `char` can be. -/
def VarNode.write (shown : VarType → Nat → List Char) (node : VarNode) : StatWrite :=
  ⟨some node, cstr (node.buf shown)⟩

def strstr : List Char → List Char → Bool
  | [], text => text.isEmpty
  | c :: s, text => text.isPrefixOf (c :: s) || strstr s text

def scanText : List Char → List Char → Option (List Char)
  | [], s => some s
  | c :: format, s => (scanChar c s).bind (scanText format)

/-- `sscanf(command, "stat%[^-]", arg)`, with the zeros that `arg` has before -/
def scanArg (command : List Char) : List Char :=
  match scanText ['s', 't', 'a', 't'] command with
  | none => []
  | some s => (scanSet (· != '-') s).elim [] Prod.fst

/-- `sscanf(command, "%*[^-]-e%s", e_opt)`, with the zeros that `e_opt` has before -/
def scanExcept (command : List Char) : List Char :=
  match scanSet (· != '-') command with
  | none => []
  | some (_, s) =>
    match scanText ['-', 'e'] s with
    | none => []
    | some s => (scanSet (fun c => !isspace c) (scanBlanks s)).elim [] Prod.fst

def allWord : CString := ⟨['a', 'l', 'l'], by decide⟩

def cmdStatLoop (shown : VarType → Nat → List Char) (arg eOpt : List Char) : List VarNode → List StatWrite
  | [] => []
  | node :: nodes =>
    if strstr arg allWord.1 || arg.length == 1 then
      if strstr eOpt node.soName.1 then cmdStatLoop shown arg eOpt nodes
      else node.write shown :: cmdStatLoop shown arg eOpt nodes
    else if !strstr arg node.soName.1 || strstr eOpt node.soName.1 then cmdStatLoop shown arg eOpt nodes
    else node.write shown :: cmdStatLoop shown arg eOpt nodes

def cmdStat (shown : VarType → Nat → List Char) (monitorHead : List VarNode) (command : List Char) : List StatWrite :=
  cmdStatLoop shown (scanArg command) (scanExcept command) monitorHead ++
    [⟨none, [carriageReturn, newline, carriageReturn, newline]⟩]

def reported (writes : List StatWrite) : List VarNode := writes.filterMap StatWrite.node

theorem strstr_iff {s text : List Char} : strstr s text ↔ text <:+: s := by
  induction s with
  | nil => rw [strstr, List.isEmpty_iff, List.infix_nil]
  | cons c s ih => rw [strstr, Bool.or_eq_true, List.isPrefixOf_iff_prefix, ih, List.infix_cons_iff]

theorem scanText_append (format s : List Char) : scanText format (format ++ s) = some s := by
  induction format with
  | nil => rfl
  | cons c format ih => rw [List.cons_append, scanText, scanChar, if_pos rfl, Option.bind_some, ih]

theorem scanSet_elim (p : Char → Bool) (s : List Char) : (scanSet p s).elim [] Prod.fst = s.takeWhile p := by
  unfold scanSet
  split_ifs with h
  · exact h.symm
  · rfl

/-- What `cmd_stat` asks of the name of a variable. -/
structure Selected (arg eOpt : List Char) (name : CString) : Prop where
  kept : ¬ name.1 <:+: eOpt
  found : allWord.1 <:+: arg ∨ arg.length = 1 ∨ name.1 <:+: arg

theorem selected_iff (arg eOpt : List Char) (name : CString) :
    Selected arg eOpt name ↔
      strstr eOpt name.1 = false ∧ ((strstr arg allWord.1 || arg.length == 1) = true ∨ strstr arg name.1 = true) := by
  rw [← Bool.not_eq_true, strstr_iff, Bool.or_eq_true, strstr_iff, strstr_iff, beq_iff_eq, or_assoc]
  exact ⟨fun h => ⟨h.kept, h.found⟩, fun h => ⟨h.1, h.2⟩⟩

instance (arg eOpt : List Char) (name : CString) : Decidable (Selected arg eOpt name) :=
  decidable_of_iff _ (selected_iff arg eOpt name).symm

theorem cmdStatLoop_eq (shown : VarType → Nat → List Char) (arg eOpt : List Char) (nodes : List VarNode) :
    cmdStatLoop shown arg eOpt nodes =
      (nodes.filter fun node => Selected arg eOpt node.soName).map (VarNode.write shown) := by
  induction nodes with
  | nil => rfl
  | cons node nodes ih =>
    have hsel := selected_iff arg eOpt node.soName
    rw [cmdStatLoop, ih, List.filter_cons]
    -- the two searches for the name, and whether all variables are asked for
    cases hbroad : strstr arg allWord.1 || arg.length == 1 <;> cases harg : strstr arg node.soName.1 <;>
      cases hopt : strstr eOpt node.soName.1 <;> simp_all

/-- A run of `cmd_stat` writes for the nodes whose names are selected, in the order of the list. -/
theorem reported_cmdStat (shown : VarType → Nat → List Char) (monitorHead : List VarNode) (command : List Char) :
    reported (cmdStat shown monitorHead command) =
      monitorHead.filter fun node => Selected (scanArg command) (scanExcept command) node.soName := by
  rw [cmdStat, reported, cmdStatLoop_eq, List.filterMap_append, List.filterMap_map]
  have hnode : StatWrite.node ∘ VarNode.write shown = some := rfl
  rw [hnode, List.filterMap_some]
  exact List.append_nil _

end Csf
