import Csf.Config.Settings
import Mathlib.Data.List.Nodup

/-!
# What `parse_conf_file` stores

`parse_conf_file` goes over two tables of items, each a name and the address of a variable. For every item it looks up
one key and stores the value behind it. This is what it should do for the key made of the section and the item, in lower
case. Three things are different: the key is cut to the 62 characters that fit into `buf`; the integer -1 is what the
code takes for a missing key; and a key whose value is `NULL`, as a section has, makes `strtol` read through `NULL`.
-/

namespace Csf

/-! ### Variables behind addresses -/

/-- The variables of a program: those of type `int` at the addresses `ι`, and the buffers at the addresses `κ`. -/
structure ItemVars (ι κ : Type) where
  int : ι → Int32
  str : κ → List Char

section
variable {α β ι : Type} [DecidableEq ι]

/-- The variables of the items, one after the other, get what `read` finds under their names. -/
def assign (read : α → Option β) : List (α × ι) → (ι → β) → ι → β
  | [], vars => vars
  | item :: items, vars =>
    assign read items
      (match read item.1 with
        | some value => Function.update vars item.2 value
        | none => vars)

theorem assign_of_notMem (read : α → Option β) {items : List (α × ι)} {x : ι} (hx : x ∉ items.map Prod.snd)
    (vars : ι → β) : assign read items vars x = vars x := by
  induction items generalizing vars with
  | nil => rfl
  | cons item items ih =>
    rw [List.map_cons, List.mem_cons, not_or] at hx
    rw [assign, ih hx.2]
    cases read item.1 with
    | none => rfl
    | some value => exact Function.update_of_ne hx.1 _ _

theorem assign_of_mem (read : α → Option β) {items : List (α × ι)} (hnodup : (items.map Prod.snd).Nodup)
    {item : α × ι} (hitem : item ∈ items) (vars : ι → β) :
    assign read items vars item.2 = (read item.1).getD (vars item.2) := by
  induction items generalizing vars with
  | nil => cases hitem
  | cons first items ih =>
    rw [List.map_cons, List.nodup_cons] at hnodup
    rw [assign]
    rcases List.mem_cons.mp hitem with rfl | hlater
    · rw [assign_of_notMem read hnodup.1]
      cases read item.1 with
      | none => rfl
      | some value => exact Function.update_self _ _ _
    · rw [ih hnodup.2 hlater]
      have hne : item.2 ≠ first.2 := fun h => hnodup.1 (h ▸ List.mem_map_of_mem hlater)
      cases read first.1 with
      | none => rfl
      | some value => exact congrArg _ (Function.update_of_ne hne _ _)

end

/-! ### The tables -/

variable {ι κ : Type} [DecidableEq ι] [DecidableEq κ]

/-- `CONF_INT_CONFIG` entries for names and addresses -/
def intTable (cic : List (List Char × ι)) : List (IntConfig (ItemVars ι κ)) :=
  cic.map fun item => ⟨item.1, fun vars i => { vars with int := Function.update vars.int item.2 i }⟩

/-- `CONF_STR_CONFIG` entries for names and addresses -/
def strTable (csc : List (List Char × κ)) : List (StrConfig (ItemVars ι κ)) :=
  csc.map fun item => ⟨item.1, fun vars s => { vars with str := Function.update vars.str item.2 s }⟩

/-- The key of an item: section and name, in lower case. -/
def itemKey (modName configName : List Char) : List Char := (modName ++ ':' :: configName).map Char.toLower

def lookupKey (modName configName : List Char) : List Char := strlwc (confKey modName configName)

def storedInt (ld : Loader) (conf : Dictionary) (key : List Char) : Option Int32 :=
  (dictionaryGet conf key).join.map fun str => (ld.strtol str).toInt32

/-- The text that is stored under a key, as far as it is copied. -/
def storedStr (conf : Dictionary) (key : List Char) : Option (List Char) :=
  (dictionaryGet conf key).join.map (List.take confItemLen)

def readInt (ld : Loader) (conf : Dictionary) (modName configName : List Char) : Option Int32 :=
  (storedInt ld conf (lookupKey modName configName)).filter (· ≠ -1)

/-- The value of the key that is looked up is `NULL`. -/
def readsNull (conf : Dictionary) (modName configName : List Char) : Bool :=
  dictionaryGet conf (lookupKey modName configName) == some none

omit [DecidableEq κ] in
theorem parseIntItems_table (ld : Loader) (conf : Dictionary) (modName : List Char) (cic : List (List Char × ι))
    (vars : ItemVars ι κ) :
    parseIntItems ld conf modName (intTable cic) vars =
      if cic.any fun item => readsNull conf modName item.1 then none
      else some { vars with int := assign (readInt ld conf modName) cic vars.int } := by
  induction cic generalizing vars with
  | nil => rfl
  | cons item cic ih =>
    simp only [intTable, List.map_cons, List.any_cons] at ih ⊢
    rw [parseIntItems, iniparserGetint, iniparserGetstring, assign]
    rcases hget : dictionaryGet conf (strlwc (confKey modName item.1)) with _ | _ | str
    · have hnull : readsNull conf modName item.1 = false := by simp [readsNull, lookupKey, hget]
      have hread : readInt ld conf modName item.1 = none := by simp [readInt, storedInt, lookupKey, hget]
      simp only [hnull, hread, Bool.false_or]
      exact ih vars
    · have hnull : readsNull conf modName item.1 = true := by simp [readsNull, lookupKey, hget]
      simp only [hnull, Bool.true_or, if_true]
    · have hnull : readsNull conf modName item.1 = false := by simp [readsNull, lookupKey, hget]
      simp only [hnull, Bool.false_or]
      by_cases hminus : (ld.strtol str).toInt32 = -1
      · have hread : readInt ld conf modName item.1 = none := by simp [readInt, storedInt, lookupKey, hget, hminus]
        simp only [hread, hminus]
        exact ih vars
      · have hread : readInt ld conf modName item.1 = some (ld.strtol str).toInt32 := by
          simp [readInt, storedInt, lookupKey, hget, hminus]
        simp only [hread, if_pos hminus]
        exact ih _

omit [DecidableEq ι] in
theorem parseStrItems_table (conf : Dictionary) (modName : List Char) (csc : List (List Char × κ))
    (vars : ItemVars ι κ) :
    parseStrItems conf modName (strTable csc) vars =
      { vars with str := assign (fun name => storedStr conf (lookupKey modName name)) csc vars.str } := by
  induction csc generalizing vars with
  | nil => rfl
  | cons item csc ih =>
    simp only [strTable, List.map_cons] at ih ⊢
    rw [parseStrItems, iniparserGetstring, assign, storedStr]
    simp only [lookupKey]
    cases hget : dictionaryGet conf (strlwc (confKey modName item.1)) with
    | none => exact ih vars
    | some val =>
      cases val with
      | none => exact ih vars
      | some str => exact ih _

/-! ### The property -/

/-- What the call should do: every item of the tables gets what is stored under its key, or keeps its value. -/
def Faithful (ld : Loader) (conf : Dictionary) (modName : List Char) (cic : List (List Char × ι))
    (csc : List (List Char × κ)) (vars : ItemVars ι κ) : Prop :=
  ∃ vars', parseConfFile ld conf modName (intTable cic) (strTable csc) vars = some vars' ∧
    (∀ item ∈ cic, vars'.int item.2 = (storedInt ld conf (itemKey modName item.1)).getD (vars.int item.2)) ∧
    ∀ item ∈ csc, vars'.str item.2 = (storedStr conf (itemKey modName item.1)).getD (vars.str item.2)

/-- What it takes: no integer item comes to a `NULL`, and what is read under the key that is looked up is, with the -1
left out, what is stored under the key of the item. -/
structure Readable (ld : Loader) (conf : Dictionary) (modName : List Char) (cic : List (List Char × ι))
    (csc : List (List Char × κ)) (vars : ItemVars ι κ) : Prop where
  notNull : ∀ item ∈ cic, readsNull conf modName item.1 = false
  int : ∀ item ∈ cic, (readInt ld conf modName item.1).getD (vars.int item.2) =
    (storedInt ld conf (itemKey modName item.1)).getD (vars.int item.2)
  str : ∀ item ∈ csc, (storedStr conf (lookupKey modName item.1)).getD (vars.str item.2) =
    (storedStr conf (itemKey modName item.1)).getD (vars.str item.2)

theorem lookupKey_eq {modName configName : List Char} (h : modName.length + 1 + configName.length < confItemLen) :
    lookupKey modName configName = itemKey modName configName := by
  have hlen : (modName ++ ':' :: configName).length = modName.length + 1 + configName.length := by
    rw [List.length_append, List.length_cons]
    omega
  have hfits : confItemLen ≤ asciiLineSz := by decide
  have hkey : confKey modName configName = modName ++ ':' :: configName :=
    List.take_of_length_le (by omega)
  rw [lookupKey, hkey, strlwc_eq_map (by omega), itemKey]

omit [DecidableEq ι] [DecidableEq κ] in
theorem readable_iff_of_short (ld : Loader) (conf : Dictionary) {modName : List Char} {cic : List (List Char × ι)}
    {csc : List (List Char × κ)} (vars : ItemVars ι κ)
    (hcic : ∀ item ∈ cic, modName.length + 1 + item.1.length < confItemLen)
    (hcsc : ∀ item ∈ csc, modName.length + 1 + item.1.length < confItemLen) :
    Readable ld conf modName cic csc vars ↔ ∀ item ∈ cic, readsNull conf modName item.1 = false ∧
      (storedInt ld conf (itemKey modName item.1) = some (-1) → vars.int item.2 = -1) := by
  have hint : ∀ item ∈ cic, ((readInt ld conf modName item.1).getD (vars.int item.2) =
      (storedInt ld conf (itemKey modName item.1)).getD (vars.int item.2) ↔
      (storedInt ld conf (itemKey modName item.1) = some (-1) → vars.int item.2 = -1)) := by
    intro item hitem
    rw [readInt, lookupKey_eq (hcic item hitem)]
    cases storedInt ld conf (itemKey modName item.1) with
    | none => simp
    | some i =>
      by_cases hminus : i = -1
      · simp [hminus, Option.filter]
      · simp [hminus, Option.filter]
  constructor
  · exact fun h item hitem => ⟨h.notNull item hitem, (hint item hitem).mp (h.int item hitem)⟩
  · refine fun h => ⟨fun item hitem => (h item hitem).1, fun item hitem => (hint item hitem).mpr (h item hitem).2,
      fun item hitem => ?_⟩
    rw [lookupKey_eq (hcsc item hitem)]

/-- **`parse_conf_file` is faithful** exactly on what is readable, for every dictionary, section and tables in which no
two items share a variable. -/
theorem parse_conf_file_faithful_iff (ld : Loader) (conf : Dictionary) (modName : List Char)
    {cic : List (List Char × ι)} {csc : List (List Char × κ)} (vars : ItemVars ι κ) (hcic : (cic.map Prod.snd).Nodup)
    (hcsc : (csc.map Prod.snd).Nodup) :
    Faithful ld conf modName cic csc vars ↔ Readable ld conf modName cic csc vars := by
  have hparse : parseConfFile ld conf modName (intTable cic) (strTable csc) vars =
      if cic.any fun item => readsNull conf modName item.1 then none
      else some ⟨assign (readInt ld conf modName) cic vars.int,
        assign (fun name => storedStr conf (lookupKey modName name)) csc vars.str⟩ := by
    rw [parseConfFile, parseIntItems_table]
    split_ifs
    · rfl
    · rw [Option.map_some, parseStrItems_table]
  have hnull : (cic.any fun item => readsNull conf modName item.1) = false ↔
      ∀ item ∈ cic, readsNull conf modName item.1 = false := by
    simp only [List.any_eq_false, Bool.not_eq_true]
  constructor
  · rintro ⟨vars', hret, hint, hstr⟩
    rw [hparse] at hret
    split_ifs at hret with hany
    obtain rfl := Option.some.inj hret
    refine ⟨hnull.mp (Bool.eq_false_of_not_eq_true hany), fun item hitem => ?_, fun item hitem => ?_⟩
    · exact (assign_of_mem _ hcic hitem vars.int).symm.trans (hint item hitem)
    · exact (assign_of_mem _ hcsc hitem vars.str).symm.trans (hstr item hitem)
  · rintro ⟨hnot, hint, hstr⟩
    refine ⟨_, (hparse.trans (by rw [hnull.mpr hnot]; rfl)), fun item hitem => ?_, fun item hitem => ?_⟩
    · exact (assign_of_mem _ hcic hitem vars.int).trans (hint item hitem)
    · exact (assign_of_mem _ hcsc hitem vars.str).trans (hstr item hitem)

/-! Cases, with one variable of each kind. -/

def oneItem (modName configName : List Char) (value : Option (List Char)) : Dictionary :=
  [(itemKey modName configName, value)]

def noTexts : List (List Char × Unit) := []

/-- A number and a text are stored, whatever the case of the names. -/
theorem parse_conf_file_faithful_run :
    Faithful signedLoader (oneItem ['S'] ['n'] (some ['2']) ++ oneItem ['S'] ['T'] (some ['x', 'y'])) ['S'] [(['n'], ())]
      [(['T'], ())] ⟨fun _ => 8, fun _ => []⟩ :=
  (parse_conf_file_faithful_iff signedLoader _ ['S'] ⟨fun _ => 8, fun _ => []⟩ (by decide) (by decide)).mpr
    ⟨by decide, by decide, by decide⟩

/-- Not stored: the number -1, and a number under a key of 63 characters. The entry of a section `a:b` makes the item `b`
of the section `a` a read through `NULL`. -/
theorem items_misread :
    (parseConfFile signedLoader (oneItem ['s'] ['n'] (some ['-', '1'])) ['s'] (intTable [(['n'], ())])
        (strTable noTexts) ⟨fun _ => 8, fun _ => []⟩).map (·.int ()) = some 8 ∧
      ¬ Faithful signedLoader (oneItem ['s'] ['n'] (some ['-', '1'])) ['s'] [(['n'], ())] noTexts
        ⟨fun _ => 8, fun _ => []⟩ ∧
      (parseConfFile signedLoader (oneItem (List.replicate 60 's') ['n', 'o'] (some ['2'])) (List.replicate 60 's')
        (intTable [(['n', 'o'], ())]) (strTable noTexts) ⟨fun _ => 8, fun _ => []⟩).map (·.int ()) = some 8 ∧
      (parseConfFile signedLoader (oneItem ['a'] ['b'] none) ['a'] (intTable [(['b'], ())])
        (strTable noTexts) ⟨fun _ => 8, fun _ => []⟩).isNone := by
  refine ⟨by decide +kernel, ?_, by decide +kernel, by decide +kernel⟩
  rintro ⟨vars', hret, hint, -⟩
  have hkept : (parseConfFile signedLoader (oneItem ['s'] ['n'] (some ['-', '1'])) ['s'] (intTable [(['n'], ())])
      (strTable noTexts) ⟨fun _ => 8, fun _ => []⟩).map (·.int ()) = some 8 := by decide +kernel
  have hwanted := hint (['n'], ()) List.mem_cons_self
  rw [hret, Option.map_some, Option.some.injEq] at hkept
  rw [hkept] at hwanted
  exact absurd hwanted (by decide +kernel)

end Csf
