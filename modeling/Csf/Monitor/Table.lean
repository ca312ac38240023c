import Csf.Monitor.Model

/-!
# The table of the monitor

On the end of file or a reset of a client the loop closes `connfd`, the descriptor that the last call of
`accept_new_client` gave, instead of the client's own. Nothing else goes wrong before a `stop`: the table is exact as long
as each client that leaves is the one accepted last (`Sound.monitorRound`), and the first round in which another one
leaves, or a `stop` arrives, breaks it (`Sound.orderly`). The argument for the second half is that the log only grows,
so a wrong call of `close` stays in it; and if there is no descriptor to be closed wrongly, since `connfd` is `-1`, the
client's own stays open without an entry.
-/

namespace Csf

open Lib

/-- The open descriptors of clients are the entries behind the first, each once. -/
structure TableExact (s : Monitor) : Prop where
  mem_iff : ∀ fd, fd ∈ s.clients ↔ ∃ i : Slot, i ≠ 0 ∧ s.fdArray i = some fd
  once : ∀ i j : Slot, i ≠ 0 → j ≠ 0 → ∀ fd, s.fdArray i = some fd → s.fdArray j = some fd → i = j

/-- A call of `close` is for the descriptor of the client that left, and for one that is open; an index is in bounds. -/
def MonitorEvent.Right : MonitorEvent → Prop
  | .close none _ _ => True
  | .close (some fd) (.left fd') wasOpen => fd = fd' ∧ wasOpen = true
  | .close (some _) _ wasOpen => wasOpen = true
  | .access i => i < maxOpenFd

/-- What the loop is to guarantee; the table only while it runs. -/
structure Monitor.Right (s : Monitor) : Prop where
  table : s.switchMonitorRun = true → TableExact s
  log : ∀ e ∈ s.log, e.Right

def EntryOk (connfd : Option Nat) (fd : Nat) : Option LineResult → Prop
  | some .reset => connfd = some fd
  | some .eof => connfd = some fd
  | some (.line text) => commandDistribute text ≠ some .stop
  | _ => True

/-- Each client that leaves in the round is the one accepted last, and none sends `stop`. -/
def Round.Orderly (listenfd : Nat) (s : Monitor) (r : Round) : Prop :=
  (acceptPart listenfd r s).2 = true → ∀ i : Slot, i ≠ 0 → ∀ fd, (acceptPart listenfd r s).1.fdArray i = some fd →
    EntryOk (acceptPart listenfd r s).1.connfd fd (r.read i)

/-- The states between iterations of orderly runs. -/
structure Sound (listenfd : Nat) (s : Monitor) : Prop where
  run : s.switchMonitorRun = true
  zero : s.fdArray 0 = some listenfd
  nodup : s.clients.Nodup
  notListen : listenfd ∉ s.clients
  table : TableExact s
  log : ∀ e ∈ s.log, e.Right

section Loop

variable {listenfd : Nat} {s : Monitor} {r : Round}

theorem Sound.right (h : Sound listenfd s) : s.Right := ⟨fun _ => h.table, h.log⟩

theorem Sound.initial (listenfd : Nat) : Sound listenfd (Monitor.initial listenfd) := by
  have hnone : ∀ i : Slot, i ≠ 0 → (Monitor.initial listenfd).fdArray i = none := fun i hi => if_neg hi
  refine ⟨rfl, rfl, List.nodup_nil, List.not_mem_nil, ⟨fun fd => ⟨fun h => absurd h List.not_mem_nil, ?_⟩, ?_⟩, ?_⟩
  · rintro ⟨i, hi, hfd⟩
    rw [hnone i hi] at hfd
    cases hfd
  · intro i j hi _ fd hfd _
    rw [hnone i hi] at hfd
    cases hfd
  · exact fun e he => absurd he List.not_mem_nil

theorem forall_mem_append_singleton {p : MonitorEvent → Prop} {l : List MonitorEvent} {e : MonitorEvent}
    (hl : ∀ e ∈ l, p e) (he : p e) : ∀ e' ∈ l ++ [e], p e' := by
  intro e' he'
  rcases List.mem_append.mp he' with h | h
  · exact hl e' h
  · exact List.mem_singleton.mp h ▸ he

theorem Sound.access (h : Sound listenfd s) {i : Nat} (hi : i < maxOpenFd) :
    Sound listenfd (s.note (.access i)) :=
  ⟨h.run, h.zero, h.nodup, h.notListen, ⟨h.table.mem_iff, h.table.once⟩, forall_mem_append_singleton h.log hi⟩

theorem Sound.accesses (h : Sound listenfd s) {n : Nat} (hn : n ≤ maxOpenFd) :
    Sound listenfd { s with log := s.log ++ (List.range n).map MonitorEvent.access } := by
  refine ⟨h.run, h.zero, h.nodup, h.notListen, ⟨h.table.mem_iff, h.table.once⟩, fun e he => ?_⟩
  rcases List.mem_append.mp he with he | he
  · exact h.log e he
  · obtain ⟨i, hi, rfl⟩ := List.mem_map.mp he
    exact Nat.lt_of_lt_of_le (List.mem_range.mp hi) hn

/-! ### A new client -/

theorem TableExact.insert {i : Slot} {fd : Nat} (h : TableExact s) (hi : i ≠ 0) (hfree : s.fdArray i = none)
    (hfd : fd ∉ s.clients) {s' : Monitor} (hclients : s'.clients = fd :: s.clients)
    (hset : ∀ j, s'.fdArray j = if j = i then some fd else s.fdArray j) : TableExact s' := by
  have hold : ∀ j : Slot, j ≠ 0 → ∀ fd', s.fdArray j = some fd' → fd' ≠ fd := by
    rintro j hj fd' hjfd rfl
    exact hfd ((h.mem_iff fd').mpr ⟨j, hj, hjfd⟩)
  constructor
  · intro fd'
    rw [hclients, List.mem_cons, h.mem_iff]
    constructor
    · rintro (rfl | ⟨j, hj, hjfd⟩)
      · exact ⟨i, hi, by rw [hset, if_pos rfl]⟩
      · refine ⟨j, hj, ?_⟩
        rw [hset, if_neg, hjfd]
        rintro rfl
        rw [hfree] at hjfd
        cases hjfd
    · rintro ⟨j, hj, hjfd⟩
      rw [hset] at hjfd
      split_ifs at hjfd with hji
      · exact Or.inl (Option.some.inj hjfd).symm
      · exact Or.inr ⟨j, hj, hjfd⟩
  · intro j k hj hk fd' hjfd hkfd
    rw [hset] at hjfd hkfd
    split_ifs at hjfd hkfd with hji hki hki
    · rw [hji, hki]
    · exact absurd (Option.some.inj hjfd).symm (hold k hk fd' hkfd)
    · exact absurd (Option.some.inj hkfd).symm (hold j hj fd' hjfd)
    · exact h.once j k hj hk fd' hjfd hkfd

theorem Sound.acceptNewClient (h : Sound listenfd s) {accepted : Option Nat}
    (hfresh : ∀ fd ∈ accepted, fd ≠ listenfd ∧ fd ∉ s.clients) :
    Sound listenfd (Csf.acceptNewClient listenfd accepted s) := by
  cases accepted with
  | none => exact ⟨h.run, h.zero, h.nodup, h.notListen, ⟨h.table.mem_iff, h.table.once⟩, h.log⟩
  | some fd =>
    obtain ⟨hlisten, hfd⟩ := hfresh fd rfl
    rw [Csf.acceptNewClient]
    dsimp only
    split
    · rename_i i hfind
      have hfree : s.fdArray i = none := by simpa using List.find?_some hfind
      have hi : i ≠ 0 := by
        rintro rfl
        rw [h.zero] at hfree
        cases hfree
      have hlog := (h.accesses i.isLt).log
      refine ⟨h.run, ?_, List.nodup_cons.mpr ⟨hfd, h.nodup⟩, ?_, h.table.insert hi hfree hfd rfl fun _ => rfl, hlog⟩
      · exact (if_neg hi.symm).trans h.zero
      · exact List.not_mem_cons_of_ne_of_not_mem hlisten.symm h.notListen
    · have hlog := (h.accesses (Nat.le_refl _)).log
      rw [Monitor.close, if_neg hlisten]
      have hclients : (fd :: s.clients).erase fd = s.clients := List.erase_cons_head _ _
      refine ⟨h.run, h.zero, hclients.symm.subst (motive := List.Nodup) h.nodup,
        hclients.symm.subst (motive := fun l => listenfd ∉ l) h.notListen, ⟨fun fd' => ?_, h.table.once⟩,
        forall_mem_append_singleton hlog (decide_eq_true List.mem_cons_self)⟩
      exact (iff_of_eq (congrArg (fd' ∈ ·) hclients)).trans (h.table.mem_iff fd')

theorem Sound.acceptPart (h : Sound listenfd s) (hfresh : r.Fresh listenfd s) :
    Sound listenfd (Csf.acceptPart listenfd r s).1 := by
  have hzero : Sound listenfd (s.note (.access 0)) := h.access (by decide)
  rw [Csf.acceptPart]
  dsimp only
  split
  · split
    · exact hzero.acceptNewClient hfresh
    · exact hzero.acceptNewClient hfresh
  · exact hzero

/-! ### A client that is ready -/

theorem fdArray_close (s : Monitor) (fd : Option Nat) (cause : Cause) :
    (s.close listenfd fd cause).fdArray = s.fdArray := by
  cases fd with
  | none => rfl
  | some fd =>
    rw [Monitor.close]
    split <;> rfl

theorem connfd_close (s : Monitor) (fd : Option Nat) (cause : Cause) :
    (s.close listenfd fd cause).connfd = s.connfd := by
  cases fd with
  | none => rfl
  | some fd =>
    rw [Monitor.close]
    split <;> rfl

theorem fdArray_stopLoop (listenfd : Nat) (beyond : Option Nat) (is : List Nat) (s : Monitor) :
    (stopLoop listenfd beyond is s).fdArray = s.fdArray ∧ (stopLoop listenfd beyond is s).connfd = s.connfd := by
  induction is generalizing s with
  | nil => exact ⟨rfl, rfl⟩
  | cons i is ih =>
    rw [stopLoop]
    split
    · exact ih _
    · refine ⟨(ih _).1.trans ?_, (ih _).2.trans ?_⟩
      · rw [fdArray_close]
        rfl
      · rw [connfd_close]
        rfl

theorem fdArray_readClient (listenfd : Nat) (r : Round) (s : Monitor) (i : Slot) :
    (readClient listenfd r s i).connfd = s.connfd ∧
      (∀ j, j ≠ i → (readClient listenfd r s i).fdArray j = s.fdArray j) ∧
      ((readClient listenfd r s i).fdArray i = s.fdArray i ∨ (readClient listenfd r s i).fdArray i = none) := by
  unfold readClient
  dsimp only
  split
  · exact ⟨rfl, fun _ _ => rfl, Or.inl rfl⟩
  · split
    · exact ⟨rfl, fun _ _ => rfl, Or.inl rfl⟩
    · exact ⟨rfl, fun _ _ => rfl, Or.inl rfl⟩
    · exact ⟨connfd_close .., fun j hj => (if_neg hj).trans (congrFun (fdArray_close ..) j), Or.inr (if_pos rfl)⟩
    · exact ⟨connfd_close .., fun j hj => (if_neg hj).trans (congrFun (fdArray_close ..) j), Or.inr (if_pos rfl)⟩
    · split
      · obtain ⟨hfd, hconn⟩ := fdArray_stopLoop listenfd r.beyond (List.range (maxOpenFd + 1))
          ((s.note (.access i)).close listenfd (some listenfd) .stop)
        rw [fdArray_close] at hfd
        rw [connfd_close] at hconn
        exact ⟨hconn, fun j _ => congrFun hfd j, Or.inl (congrFun hfd i)⟩
      · exact ⟨rfl, fun _ _ => rfl, Or.inl rfl⟩

theorem TableExact.erase {i : Slot} {fd : Nat} (h : TableExact s) (hi : i ≠ 0) (hfd : s.fdArray i = some fd)
    (hnodup : s.clients.Nodup) {s' : Monitor} (hclients : s'.clients = s.clients.erase fd)
    (hset : ∀ j, s'.fdArray j = if j = i then none else s.fdArray j) : TableExact s' := by
  constructor
  · intro fd'
    rw [hclients, hnodup.mem_erase_iff, h.mem_iff]
    constructor
    · rintro ⟨hne, j, hj, hjfd⟩
      refine ⟨j, hj, ?_⟩
      rw [hset, if_neg, hjfd]
      rintro rfl
      exact hne (Option.some.inj (hjfd.symm.trans hfd))
    · rintro ⟨j, hj, hjfd⟩
      rw [hset] at hjfd
      split_ifs at hjfd with hji
      refine ⟨?_, j, hj, hjfd⟩
      rintro rfl
      exact hji (h.once j i hj hi fd' hjfd hfd)
  · intro j k hj hk fd' hjfd hkfd
    rw [hset] at hjfd hkfd
    split_ifs at hjfd hkfd
    exact h.once j k hj hk fd' hjfd hkfd

theorem Sound.leave (h : Sound listenfd s) {i : Slot} (hi : i ≠ 0) {fd : Nat} (hfd : s.fdArray i = some fd)
    (hconn : s.connfd = some fd) : Sound listenfd ((s.close listenfd s.connfd (.left fd)).setFd i none) := by
  have hmem : fd ∈ s.clients := (h.table.mem_iff fd).mpr ⟨i, hi, hfd⟩
  have hlisten : fd ≠ listenfd := fun heq => h.notListen (heq ▸ hmem)
  rw [hconn, Monitor.close, if_neg hlisten]
  refine ⟨h.run, (if_neg hi.symm).trans h.zero, h.nodup.erase _, fun hl => h.notListen (List.mem_of_mem_erase hl),
    h.table.erase hi hfd h.nodup rfl fun _ => rfl, forall_mem_append_singleton h.log ?_⟩
  exact ⟨rfl, decide_eq_true hmem⟩

theorem Sound.readClient (h : Sound listenfd s) {i : Slot} (hi : i ≠ 0)
    (hok : ∀ fd, s.fdArray i = some fd → EntryOk s.connfd fd (r.read i)) :
    Sound listenfd (Csf.readClient listenfd r s i) := by
  have haccess := h.access i.isLt
  unfold Csf.readClient
  dsimp only
  split
  · exact haccess
  · rename_i fd hfd
    have hentry := hok fd hfd
    split
    · exact haccess
    · exact haccess
    · rename_i hread
      rw [hread] at hentry
      exact haccess.leave hi hfd hentry
    · rename_i hread
      rw [hread] at hentry
      exact haccess.leave hi hfd hentry
    · rename_i text hread
      rw [hread] at hentry
      rw [if_neg hentry]
      exact haccess

theorem Sound.readClients {l : List Slot} (hl : l.Nodup) (hzero : ∀ i ∈ l, i ≠ 0) (h : Sound listenfd s)
    (hok : ∀ i ∈ l, ∀ fd, s.fdArray i = some fd → EntryOk s.connfd fd (r.read i)) :
    Sound listenfd (l.foldl (Csf.readClient listenfd r) s) := by
  induction l generalizing s with
  | nil => exact h
  | cons i l ih =>
    obtain ⟨hnot, hl⟩ := List.nodup_cons.mp hl
    obtain ⟨hconn, hframe, -⟩ := fdArray_readClient listenfd r s i
    refine ih hl (fun j hj => hzero j (List.mem_cons_of_mem _ hj))
      (h.readClient (hzero i List.mem_cons_self) (hok i List.mem_cons_self)) fun j hj fd hfd => ?_
    have hji : j ≠ i := fun heq => hnot (heq ▸ hj)
    rw [hframe j hji] at hfd
    rw [hconn]
    exact hok j (List.mem_cons_of_mem _ hj) fd hfd

theorem nodup_clientSlots : clientSlots.Nodup := (List.nodup_finRange maxOpenFd).tail

theorem mem_clientSlots {i : Slot} : i ∈ clientSlots ↔ i ≠ 0 := by
  revert i
  decide

/-- An orderly round keeps the table exact. -/
theorem Sound.monitorRound (h : Sound listenfd s) (hfresh : r.Fresh listenfd s) (hr : r.Orderly listenfd s) :
    Sound listenfd (Csf.monitorRound listenfd r s) := by
  unfold Csf.monitorRound
  dsimp only
  split
  · rename_i hgo
    exact (h.acceptPart hfresh).readClients nodup_clientSlots (fun i hi => mem_clientSlots.mp hi)
      fun i hi => hr hgo i (mem_clientSlots.mp hi)
  · exact h.acceptPart hfresh

/-! ### The first round that is not orderly -/

theorem log_close (listenfd : Nat) (s : Monitor) (fd : Option Nat) (cause : Cause) :
    ∃ wasOpen, (s.close listenfd fd cause).log = s.log ++ [.close fd cause wasOpen] := by
  cases fd with
  | none => exact ⟨false, rfl⟩
  | some fd =>
    rw [Monitor.close]
    split
    · exact ⟨_, rfl⟩
    · exact ⟨_, rfl⟩

theorem log_prefix_note (s : Monitor) (e : MonitorEvent) : s.log <+: (s.note e).log := List.prefix_append _ _

theorem log_prefix_close (s : Monitor) (fd : Option Nat) (cause : Cause) :
    s.log <+: (s.close listenfd fd cause).log := by
  obtain ⟨b, hb⟩ := log_close listenfd s fd cause
  rw [hb]
  exact List.prefix_append _ _

theorem log_prefix_stopLoop (beyond : Option Nat) (is : List Nat) (s : Monitor) :
    s.log <+: (stopLoop listenfd beyond is s).log := by
  induction is generalizing s with
  | nil => exact List.prefix_refl _
  | cons i is ih =>
    rw [stopLoop]
    split
    · exact (log_prefix_note ..).trans (ih _)
    · exact (log_prefix_note ..).trans ((log_prefix_close ..).trans (ih _))

theorem access_mem_stopLoop (beyond : Option Nat) {is : List Nat} {i : Nat} (hi : i ∈ is) (s : Monitor) :
    .access i ∈ (stopLoop listenfd beyond is s).log := by
  induction is generalizing s with
  | nil => cases hi
  | cons j is ih =>
    rw [stopLoop]
    rcases List.mem_cons.mp hi with rfl | hi
    · have hnow : .access i ∈ (s.note (.access i)).log := List.mem_append_right _ List.mem_cons_self
      split
      · exact (log_prefix_stopLoop beyond is _).subset hnow
      · exact (log_prefix_stopLoop beyond is _).subset ((log_prefix_close ..).subset hnow)
    · split
      · exact ih hi _
      · exact ih hi _

theorem access_mem_cmdStop (beyond : Option Nat) (s : Monitor) :
    .access maxOpenFd ∈ (cmdStop listenfd beyond s).log :=
  access_mem_stopLoop beyond (List.mem_range.mpr (Nat.lt_succ_self _)) _

theorem log_prefix_readClient (s : Monitor) (i : Slot) : s.log <+: (readClient listenfd r s i).log := by
  have hnow := log_prefix_note s (.access i)
  unfold readClient
  dsimp only
  split
  · exact hnow
  · split
    · exact hnow
    · exact hnow
    · exact hnow.trans (log_prefix_close ..)
    · exact hnow.trans (log_prefix_close ..)
    · split
      · exact hnow.trans ((log_prefix_close ..).trans (log_prefix_stopLoop ..))
      · exact hnow

theorem log_prefix_readClients (l : List Slot) (s : Monitor) :
    s.log <+: (l.foldl (readClient listenfd r) s).log := by
  induction l generalizing s with
  | nil => exact List.prefix_refl _
  | cons i l ih => exact (log_prefix_readClient s i).trans (ih _)

theorem fdArray_readClients {l : List Slot} {i : Slot} {fd : Nat}
    (h : (l.foldl (readClient listenfd r) s).fdArray i = some fd) : s.fdArray i = some fd := by
  induction l generalizing s with
  | nil => exact h
  | cons j l ih =>
    obtain ⟨-, hframe, hown⟩ := fdArray_readClient listenfd r s j
    have hi := ih h
    by_cases hij : i = j
    · subst hij
      rcases hown with hsame | hnone
      · exact hsame ▸ hi
      · rw [hnone] at hi
        cases hi
    · exact hframe i hij ▸ hi

theorem readClients_turn {l : List Slot} {i : Slot} (hi : i ∈ l) {p : Monitor → Prop} (hl : l.Nodup)
    (hstay : ∀ s j, j ≠ i → p s → p (readClient listenfd r s j))
    (hturn : ∀ s', s'.fdArray i = s.fdArray i → s'.connfd = s.connfd → p (readClient listenfd r s' i)) :
    p (l.foldl (readClient listenfd r) s) := by
  induction l generalizing s with
  | nil => cases hi
  | cons j l ih =>
    obtain ⟨hnot, hl⟩ := List.nodup_cons.mp hl
    obtain ⟨hconn, hframe, -⟩ := fdArray_readClient listenfd r s j
    by_cases hij : i = j
    · subst hij
      have hkeep : ∀ (l : List Slot) (s : Monitor), i ∉ l → p s → p (l.foldl (readClient listenfd r) s) := by
        intro l
        induction l with
        | nil => exact fun s _ hp => hp
        | cons k l ihl =>
          intro s hk hp
          rw [List.mem_cons, not_or] at hk
          exact ihl _ hk.2 (hstay s k (Ne.symm hk.1) hp)
      exact hkeep l _ hnot (hturn s rfl rfl)
    · refine ih ((List.mem_cons.mp hi).resolve_left hij) hl fun s' hfd' hconn' => ?_
      exact hturn s' (hfd'.trans (hframe i hij)) (hconn'.trans hconn)

theorem readClients_leave {l : List Slot} (hl : l.Nodup) {i : Slot} (hi : i ∈ l) {fd : Nat}
    (hfd : s.fdArray i = some fd) (hread : r.read i = some .reset ∨ r.read i = some .eof) :
    (∃ wasOpen, .close s.connfd (.left fd) wasOpen ∈ (l.foldl (readClient listenfd r) s).log) ∧
      (l.foldl (readClient listenfd r) s).fdArray i = none := by
  refine readClients_turn hi hl (p := fun s' => (∃ wasOpen, .close s.connfd (.left fd) wasOpen ∈ s'.log) ∧
    s'.fdArray i = none) ?_ ?_
  · rintro s' j hji ⟨⟨b, hb⟩, hnone⟩
    refine ⟨⟨b, (log_prefix_readClient s' j).subset hb⟩, ?_⟩
    rw [(fdArray_readClient listenfd r s' j).2.1 i hji.symm, hnone]
  · intro s' hfd' hconn'
    have hentry : (s'.note (.access i)).fdArray i = some fd := hfd'.trans hfd
    obtain ⟨b, hb⟩ := log_close listenfd (s'.note (.access i)) s'.connfd (.left fd)
    unfold readClient
    dsimp only
    rw [hentry]
    have hevent : .close s.connfd (.left fd) b ∈
        ((s'.note (.access i)).close listenfd s'.connfd (.left fd)).log := by
      rw [hb, hconn']
      exact List.mem_append_right _ List.mem_cons_self
    rcases hread with hread | hread
    · rw [hread]
      exact ⟨⟨b, hevent⟩, if_pos rfl⟩
    · rw [hread]
      exact ⟨⟨b, hevent⟩, if_pos rfl⟩

theorem readClients_stop {l : List Slot} (hl : l.Nodup) {i : Slot} (hi : i ∈ l) {fd : Nat}
    (hfd : s.fdArray i = some fd) {text : List Char} (hread : r.read i = some (.line text))
    (hstop : commandDistribute text = some .stop) :
    .access maxOpenFd ∈ (l.foldl (readClient listenfd r) s).log := by
  refine readClients_turn hi hl (p := fun s' => .access maxOpenFd ∈ s'.log) ?_ ?_
  · intro s' j _ hmem
    exact (log_prefix_readClient s' j).subset hmem
  · intro s' hfd' _
    have hentry : (s'.note (.access i)).fdArray i = some fd := hfd'.trans hfd
    unfold readClient
    dsimp only
    rw [hentry, hread]
    dsimp only
    rw [if_pos hstop]
    exact access_mem_cmdStop ..

theorem clients_readClients {l : List Slot} (hconn : s.connfd = none)
    (hlog : ∀ e ∈ (l.foldl (readClient listenfd r) s).log, e.Right) :
    (l.foldl (readClient listenfd r) s).clients = s.clients ∧
      (l.foldl (readClient listenfd r) s).switchMonitorRun = s.switchMonitorRun := by
  induction l generalizing s with
  | nil => exact ⟨rfl, rfl⟩
  | cons i l ih =>
    obtain ⟨hconn', -, -⟩ := fdArray_readClient listenfd r s i
    obtain ⟨hclients, hrun⟩ := ih (hconn'.trans hconn) hlog
    have hone : (readClient listenfd r s i).clients = s.clients ∧
        (readClient listenfd r s i).switchMonitorRun = s.switchMonitorRun := by
      have hright : ∀ e ∈ (readClient listenfd r s i).log, e.Right := fun e he =>
        hlog e ((log_prefix_readClients l _).subset he)
      unfold readClient at hright ⊢
      dsimp only at hright ⊢
      split
      · exact ⟨rfl, rfl⟩
      · rename_i fd hfd
        rw [hfd] at hright
        dsimp only at hright
        have hnone : (s.note (.access i)).connfd = none := hconn
        split
        · exact ⟨rfl, rfl⟩
        · exact ⟨rfl, rfl⟩
        · rw [hnone]
          exact ⟨rfl, rfl⟩
        · rw [hnone]
          exact ⟨rfl, rfl⟩
        · rename_i text hread
          rw [hread] at hright
          dsimp only at hright
          split
          · rename_i hstop
            rw [if_pos hstop] at hright
            exact absurd (hright _ (access_mem_cmdStop ..)) (Nat.lt_irrefl _)
          · exact ⟨rfl, rfl⟩
    exact ⟨hclients.trans hone.1, hrun.trans hone.2⟩

theorem Sound.orderly (h : Sound listenfd s) (hfresh : r.Fresh listenfd s)
    (hright : (Csf.monitorRound listenfd r s).Right) : r.Orderly listenfd s := by
  intro hgo i hi fd hfd
  have hstart := h.acceptPart hfresh
  unfold Csf.monitorRound at hright
  dsimp only at hright
  rw [if_pos hgo] at hright
  have himem := mem_clientSlots.mpr hi
  -- the same argument for the two ways in which a client leaves
  have hleave : r.read i = some .reset ∨ r.read i = some .eof → (Csf.acceptPart listenfd r s).1.connfd = some fd := by
    intro hread
    obtain ⟨⟨b, hb⟩, hcleared⟩ := readClients_leave nodup_clientSlots himem hfd hread
    have hevent := hright.log _ hb
    cases hconn : (Csf.acceptPart listenfd r s).1.connfd with
    | some c =>
      rw [hconn] at hevent
      exact congrArg some hevent.1
    | none =>
      obtain ⟨hclients, hrun⟩ := clients_readClients hconn hright.log
      have hexact := hright.table (hrun.trans hstart.run)
      have hmem := (hstart.table.mem_iff fd).mpr ⟨i, hi, hfd⟩
      obtain ⟨j, hj, hjfd⟩ := (hexact.mem_iff fd).mp (hclients ▸ hmem)
      obtain rfl := hstart.table.once i j hi hj fd hfd (fdArray_readClients hjfd)
      rw [hcleared] at hjfd
      cases hjfd
  cases hread : r.read i with
  | none => exact trivial
  | some result =>
    cases result with
    | error => exact trivial
    | reset => exact hleave (Or.inl hread)
    | eof => exact hleave (Or.inr hread)
    | line text =>
      intro hstop
      exact absurd (hright.log _ (readClients_stop nodup_clientSlots himem hfd hread hstop)) (Nat.lt_irrefl _)

end Loop

theorem Sound.of_reach {listenfd : Nat} {s : Monitor}
    (h : Reach (monitorStep listenfd) (fun s r _ => r.Orderly listenfd s) (Monitor.initial listenfd) s) :
    Sound listenfd s := by
  refine h.invariant (Sound.initial listenfd) fun s r s' hs hr hstep => ?_
  rw [monitorStep] at hstep
  split_ifs at hstep with hrun
  obtain rfl := Option.some.inj hstep
  exact hs.monitorRound hrun.2 hr

/-- In every run of orderly rounds the table is exact and the calls of `close` are right. The next round keeps this if
and only if it is orderly. -/
theorem monitor_table_iff (listenfd : Nat) (s : Monitor)
    (hreach : Reach (monitorStep listenfd) (fun s r _ => r.Orderly listenfd s) (Monitor.initial listenfd) s) :
    s.Right ∧ ∀ r s', monitorStep listenfd s r = some s' → (s'.Right ↔ r.Orderly listenfd s) := by
  have hs := Sound.of_reach hreach
  refine ⟨hs.right, fun r s' hstep => ?_⟩
  rw [monitorStep] at hstep
  split_ifs at hstep with hrun
  obtain rfl := Option.some.inj hstep
  exact ⟨hs.orderly hrun.2, fun hr => (hs.monitorRound hrun.2 hr).right⟩

def connectRound (fd : Nat) : Round := ⟨1, true, some fd, fun _ => none, none⟩

def leaveRound (i : Slot) : Round := ⟨1, false, none, fun j => if j = i then some .eof else none, none⟩

theorem orderly_connectRound (listenfd fd : Nat) (s : Monitor) : (connectRound fd).Orderly listenfd s := by
  intro _ i _ fd' _
  exact trivial

/-- A client comes and leaves. -/
theorem monitor_table_run :
    ∃ s, Reach (monitorStep 3) (fun s r _ => r.Orderly 3 s) (Monitor.initial 3) s ∧ s.Right ∧ s.clients = [] ∧
      .close (some 5) (.left 5) true ∈ s.log := by
  have hfirst : Reach (monitorStep 3) (fun s r _ => r.Orderly 3 s) (Monitor.initial 3)
      (monitorRound 3 (connectRound 5) (Monitor.initial 3)) :=
    .next .init (orderly_connectRound 3 5 _) (if_pos (by decide))
  have hleave : (leaveRound 1).Orderly 3 (monitorRound 3 (connectRound 5) (Monitor.initial 3)) := by
    intro _ i _ fd hfd
    by_cases hi : i = 1
    · subst hi
      have hconn : (acceptPart 3 (leaveRound 1) (monitorRound 3 (connectRound 5) (Monitor.initial 3))).1.connfd =
          (acceptPart 3 (leaveRound 1) (monitorRound 3 (connectRound 5) (Monitor.initial 3))).1.fdArray 1 := by decide
      exact hconn.trans hfd
    · have hread : (leaveRound 1).read i = none := if_neg hi
      rw [hread]
      exact trivial
  have hreach := Reach.next hfirst hleave (if_pos (by decide))
  exact ⟨_, hreach, (monitor_table_iff 3 _ hreach).1, by decide, by decide⟩

/-- Of two clients the one that came first leaves: the descriptor of the other is closed. -/
theorem wrong_descriptor_closed :
    ∃ s, Reach (monitorStep 3) (fun _ _ _ => True) (Monitor.initial 3) s ∧ s.clients = [5] ∧ s.fdArray 1 = none ∧
      s.fdArray 2 = some 6 ∧ .close (some 6) (.left 5) true ∈ s.log ∧ ¬ s.Right := by
  obtain ⟨s, hreach, hclients, hfree, hother, hclose⟩ := exists_reach (monitorStep 3) (fun _ _ _ => True)
    (Monitor.initial 3) [connectRound 5, connectRound 6, leaveRound 1]
    (P := fun s => s.clients = [5] ∧ s.fdArray 1 = none ∧ s.fdArray 2 = some 6 ∧
      .close (some 6) (.left 5) true ∈ s.log) (by decide +kernel)
  refine ⟨s, hreach, hclients, hfree, hother, hclose, fun hright => ?_⟩
  have hevent := hright.log _ hclose
  exact absurd hevent.1 (by decide)

end Csf
