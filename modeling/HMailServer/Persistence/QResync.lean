import HMailServer.Persistence.Expunged

/- QRESYNC never hides an expunge. The records of a folder are those of its deletions
   from some mod-sequence on: a deletion adds the next one, and pruning takes away the
   oldest ones but never the newest. So whatever is older than the oldest record left
   is what `RemembersExpungesSince` says no to. -/
namespace HMailServer
namespace PersistentIMAPFolder

/-! ## Runs -/

/-- A deleted message, and the counter of its folder when its row went. -/
structure Deleted where
  folderID : Int
  uid : Int
  counter : Int
  deriving DecidableEq, Repr

structure State where
  db : Database
  deleted : List Deleted

inductive Call where
  | delete (faults : DeletionFaults) (message : Message)
  | prune (call : PruneCall)

/-- Whether the call takes the row of the message out of the table. -/
def removesRow (faults : DeletionFaults) (db : Database) (message : Message) : Bool :=
  0 < message.id && !faults.delete && decide (message ∈ db.messages)

def step (s : State) : Call → State
  | .delete faults message =>
    { db := deleteObject faults s.db message
      deleted := if removesRow faults s.db message then
          s.deleted ++ [⟨message.folderID, message.uid, (s.db.currentModSeq message.folderID).getD 0⟩]
        else s.deleted }
  | .prune call => { s with db := (pruneExpungedForFolder call s.db).1 }

def run (s : State) (calls : List Call) : State := calls.foldl step s

/-- If the server says that it remembers, it names every message deleted since. -/
def Complete (s : State) (folderID : Int) : Prop :=
  ∀ sinceModSeq, remembersExpungesSince s.db folderID sinceModSeq = true →
    ∀ d ∈ s.deleted, d.folderID = folderID → sinceModSeq ≤ d.counter →
      d.uid ∈ getExpungedUIDsSince s.db folderID sinceModSeq

/-- The statements of a deletion that come after its row is gone succeed, and the
message is one of an account, in a folder that exists. -/
def DeletionMeets (s : State) (faults : DeletionFaults) (message : Message) : Prop :=
  0 < message.id → faults.delete = false →
    faults.increase = false ∧ faults.read = false ∧ faults.insert = false ∧
      0 < message.accountID ∧ 0 < message.folderID ∧ s.db.currentModSeq message.folderID ≠ none

/-- Every deletion of the run meets the condition. -/
def DeletionsMeet : State → List Call → Prop
  | _, [] => True
  | s, call :: rest =>
    (match call with
      | .delete faults message => DeletionMeets s faults message
      | .prune _ => True) ∧ DeletionsMeet (step s call) rest

/-! ## Deleting -/

/-- What a deletion without a failure after its first statement does. -/
theorem deleteObject_records {s : State} {faults : DeletionFaults} {message : Message} (hid : 0 < message.id)
    (hdelete : faults.delete = false) (hmeets : DeletionMeets s faults message) :
    ∃ counter, s.db.currentModSeq message.folderID = some counter ∧
      (deleteObject faults s.db message).expunged =
        s.db.expunged ++ [⟨message.accountID, message.folderID, message.uid, counter + 1⟩] ∧
      ∀ id, (deleteObject faults s.db message).currentModSeq id =
        if id = message.folderID then some (counter + 1) else s.db.currentModSeq id := by
  obtain ⟨hincrease, hread, hinsert, haccount, hfolder, hrow⟩ := hmeets hid hdelete
  obtain ⟨counter, hcounter⟩ := Option.ne_none_iff_exists'.1 hrow
  have hne : message.folderID ≠ 0 := by omega
  have hvalue : ∀ db : Database, db.currentModSeq message.folderID = some counter →
      getCurrentModSeq false (increaseCurrentModSeq db message.folderID) message.folderID = counter + 1 := by
    intro db hdb
    unfold getCurrentModSeq increaseCurrentModSeq
    rw [if_neg (by simp [hne])]
    simp [hdb]
  refine ⟨counter, hcounter, ?_, ?_⟩
  · unfold deleteObject getNextModSeq addExpunged
    simp only [hincrease, hread, hinsert, hdelete, if_neg (Int.not_le.2 hid), if_neg hne, haccount, hfolder, hne,
      and_self, if_true, Bool.false_eq_true, if_false, or_self]
    rw [hvalue { s.db with messages := s.db.messages.filter fun row => row.id ≠ message.id } hcounter]
    rfl
  · intro id
    unfold deleteObject getNextModSeq addExpunged
    simp only [hincrease, hread, hinsert, hdelete, if_neg (Int.not_le.2 hid), if_neg hne, haccount, hfolder, hne,
      and_self, if_true, Bool.false_eq_true, if_false, or_self]
    unfold increaseCurrentModSeq
    dsimp only
    split
    · rename_i hfolder'
      rw [hfolder', hcounter]
      rfl
    · rfl

/-- A deletion whose first statement fails does nothing. -/
theorem deleteObject_idle {faults : DeletionFaults} {db : Database} {message : Message}
    (h : message.id ≤ 0 ∨ faults.delete = true) : deleteObject faults db message = db := by
  unfold deleteObject
  rcases h with h | h
  · rw [if_pos h]
  · rw [h]
    simp

/-! ## Pruning -/

/-- The records of a folder that are at or above a boundary stay, those of the other
folders too. -/
structure Pruned (call : PruneCall) (boundary : Int) (db db' : Database) : Prop where
  messages : db'.messages = db.messages
  currentModSeq : db'.currentModSeq = db.currentModSeq
  expunged : db'.expunged = db.expunged.filter fun row => ¬(row.folderID = call.folderID ∧ row.modSeq < boundary)

theorem Pruned.mem {call : PruneCall} {boundary : Int} {db db' : Database} (h : Pruned call boundary db db')
    (folderID : Int) (row : Expunged) :
    row ∈ recordsOf db' folderID ↔
      row ∈ recordsOf db folderID ∧ ¬(row.folderID = call.folderID ∧ row.modSeq < boundary) := by
  unfold recordsOf
  rw [h.expunged, List.mem_filter, List.mem_filter, List.mem_filter, decide_eq_true_iff, decide_eq_true_iff]
  tauto

theorem deleteSlices_pruned (call : PruneCall) (sliceWidth cutoff lowest : Int) (db : Database) (left : Nat) :
    ∀ (batch : Nat) (boundary : Int) (db' : Database), Pruned call boundary db db' → boundary ≤ cutoff →
      0 ≤ sliceWidth → ∃ final, boundary ≤ final ∧ final ≤ cutoff ∧
        Pruned call final db (deleteSlices call sliceWidth cutoff left batch boundary db') := by
  induction left with
  | zero => exact fun _ boundary db' h hle _ => ⟨boundary, le_rfl, hle, h⟩
  | succ left ih =>
    intro batch boundary db' h hle hwidth
    unfold deleteSlices
    split
    · exact ⟨boundary, le_rfl, hle, h⟩
    · split
      · exact ⟨boundary, le_rfl, hle, h⟩
      · have hnext : Pruned call (min (boundary + sliceWidth) cutoff) db
            (deleteBelow db' call.folderID (min (boundary + sliceWidth) cutoff)) := by
          refine ⟨h.messages, h.currentModSeq, ?_⟩
          unfold deleteBelow
          dsimp only
          rw [h.expunged, List.filter_filter]
          apply List.filter_congr
          intro row _
          rw [Bool.eq_iff_iff, Bool.and_eq_true, decide_eq_true_iff, decide_eq_true_iff]
          constructor
          · exact fun hrow => hrow.1
          · exact fun hrow => ⟨hrow, fun hb => hrow ⟨hb.1, by omega⟩⟩
        obtain ⟨final, hfirst, hlast, hfinal⟩ := ih (batch + 1) _ _ hnext (min_le_right _ _) hwidth
        exact ⟨final, by omega, hlast, hfinal⟩

/-- A cutoff that has been walked back is no higher. -/
theorem walkBack_le (call : PruneCall) (db : Database) (lowest : Int) (left : Nat) : ∀ (attempt : Nat) (cutoff c : Int),
    walkBack call db lowest left attempt cutoff = some c → c ≤ cutoff := by
  induction left with
  | zero =>
    intro _ cutoff c h
    cases h
    exact le_rfl
  | succ left ih =>
    intro attempt cutoff c h
    unfold walkBack at h
    split at h
    · cases h
      exact le_rfl
    · split at h
      · cases h
      · split at h
        · cases h
          exact le_rfl
        · have := ih (attempt + 1) _ c h
          unfold lowerCutoff at this
          omega

/-- Pruning does nothing, or keeps what is at or above a boundary that the cutoff,
walked back, is not below; the newest record is above it. -/
theorem pruneExpungedForFolder_cases (call : PruneCall) (db : Database) :
    (pruneExpungedForFolder call db).1 = db ∨
      ∃ lowest highest cutoff boundary, lowestModSeq db call.folderID = some lowest ∧
        highestModSeq db call.folderID = some highest ∧
        walkBack call db lowest maxAttempts 0 (min call.cutoffEstimate highest) = some cutoff ∧
        boundary ≤ cutoff ∧ boundary ≤ highest ∧ Pruned call boundary db (pruneExpungedForFolder call db).1 := by
  generalize hresult : pruneExpungedForFolder call db = result
  unfold pruneExpungedForFolder at hresult
  split at hresult
  · exact .inl (by rw [← hresult])
  · split at hresult
    · exact .inl (by rw [← hresult])
    · split at hresult
      · exact .inl (by rw [← hresult])
      · dsimp only at hresult
        split at hresult
        · exact .inl (by rw [← hresult])
        · split at hresult
          · rename_i lowest highest hlowest hhighest
            split at hresult
            · exact .inl (by rw [← hresult])
            · split at hresult
              · exact .inl (by rw [← hresult])
              · split at hresult
                · exact .inl (by rw [← hresult])
                · rename_i cutoff hwalk
                  split at hresult
                  · exact .inl (by rw [← hresult])
                  · rename_i habove
                    have hle := walkBack_le call db lowest _ _ _ cutoff hwalk
                    have hstart : Pruned call lowest db db := by
                      refine ⟨rfl, rfl, (List.filter_eq_self.2 ?_).symm⟩
                      intro row hrow
                      rw [decide_eq_true_iff]
                      rintro ⟨hfolder, hlt⟩
                      have hmem : row.modSeq ∈ (recordsOf db call.folderID).map Expunged.modSeq :=
                        List.mem_map.2 ⟨row, List.mem_filter.2 ⟨hrow, decide_eq_true hfolder⟩, rfl⟩
                      have := (List.min?_eq_some_iff.1 hlowest).2 _ hmem
                      omega
                    obtain ⟨final, hfirst, hlast, hfinal⟩ := deleteSlices_pruned call
                      (min (max call.sliceEstimate 1) (highest - lowest + 1)) cutoff lowest db maxBatches 0 lowest db
                      hstart (by omega) (by omega)
                    refine .inr ⟨lowest, highest, cutoff, final, hlowest, hhighest, hwalk, hlast, by omega, ?_⟩
                    split at hresult <;> rw [← hresult] <;> exact hfinal
          · exact .inl (by rw [← hresult])

/-- The newest record of a folder survives. -/
theorem prune_keeps_newest (call : PruneCall) (db : Database) (row : Expunged)
    (hnewest : highestModSeq db row.folderID = some row.modSeq) (hrow : row ∈ db.expunged) :
    row ∈ (pruneExpungedForFolder call db).1.expunged := by
  rcases pruneExpungedForFolder_cases call db with h | ⟨_, highest, _, boundary, -, hhighest, -, -, hle, hpruned⟩
  · rw [h]
    exact hrow
  · rw [hpruned.expunged, List.mem_filter, decide_eq_true_iff]
    refine ⟨hrow, ?_⟩
    rintro ⟨hfolder, hlt⟩
    rw [hfolder, hhighest] at hnewest
    cases hnewest
    omega

/-! ## Keeping enough -/

/-- The cutoff after so many steps back. -/
def walkedBack (lowest cutoff : Int) : Nat → Int
  | 0 => cutoff
  | n + 1 => walkedBack lowest (lowerCutoff lowest cutoff) n

/-- The estimate, no higher than the newest record and walked back as often as the
loop does, leaves enough. -/
def PruneMeets (db : Database) (call : PruneCall) : Prop :=
  ∀ lowest highest, lowestModSeq db call.folderID = some lowest → highestModSeq db call.folderID = some highest →
    call.keepRecords ≤
      survivors db call.folderID (walkedBack lowest (min call.cutoffEstimate highest) maxAttempts)

theorem survivors_anti (db : Database) (folderID : Int) {c c' : Int} (h : c ≤ c') :
    survivors db folderID c' ≤ survivors db folderID c := by
  unfold survivors
  have hsub : ((recordsOf db folderID).filter fun row => c' ≤ row.modSeq).Sublist
      ((recordsOf db folderID).filter fun row => c ≤ row.modSeq) := by
    apply List.monotone_filter_right
    intro row hrow
    rw [decide_eq_true_iff] at hrow ⊢
    omega
  exact Int.ofNat_le.2 hsub.length_le

theorem survivors_lowest {db : Database} {folderID lowest c : Int} (hlowest : lowestModSeq db folderID = some lowest)
    (hc : c ≤ lowest) : survivors db folderID c = (recordsOf db folderID).length := by
  unfold survivors
  rw [List.filter_eq_self.2]
  intro row hrow
  rw [decide_eq_true_iff]
  have := (List.min?_eq_some_iff.1 hlowest).2 _ (List.mem_map.2 ⟨row, hrow, rfl⟩)
  omega

/-- If the last cutoff that the loop may come to leaves enough, the one it ends with does. -/
theorem walkBack_enough (call : PruneCall) {db : Database} {lowest : Int}
    (hlowest : lowestModSeq db call.folderID = some lowest)
    (htotal : call.keepRecords ≤ (recordsOf db call.folderID).length) (left : Nat) : ∀ (attempt : Nat) (cutoff c : Int),
    call.keepRecords ≤ survivors db call.folderID (walkedBack lowest cutoff left) →
    walkBack call db lowest left attempt cutoff = some c → call.keepRecords ≤ survivors db call.folderID c := by
  induction left with
  | zero =>
    intro _ cutoff c hlast h
    cases h
    exact hlast
  | succ left ih =>
    intro attempt cutoff c hlast h
    unfold walkBack at h
    split at h
    · rename_i hle
      cases h
      rw [survivors_lowest hlowest hle]
      exact htotal
    · split at h
      · cases h
      · split at h
        · rename_i henough
          cases h
          exact henough
        · exact ih (attempt + 1) _ c hlast h

/-- A pruning that meets the condition leaves `keepRecords` records, if they were there. -/
theorem prune_keeps_enough (call : PruneCall) (db : Database) (hmeets : PruneMeets db call)
    (hbefore : call.keepRecords ≤ (recordsOf db call.folderID).length) :
    call.keepRecords ≤ (recordsOf (pruneExpungedForFolder call db).1 call.folderID).length := by
  rcases pruneExpungedForFolder_cases call db with
    h | ⟨lowest, highest, cutoff, boundary, hlowest, hhighest, hwalk, hcutoff, -, hpruned⟩
  · rw [h]
    exact hbefore
  · have hsame : recordsOf (pruneExpungedForFolder call db).1 call.folderID =
        (recordsOf db call.folderID).filter fun row => boundary ≤ row.modSeq := by
      unfold recordsOf
      rw [hpruned.expunged, List.filter_filter, List.filter_filter]
      apply List.filter_congr
      intro row _
      rw [Bool.eq_iff_iff, Bool.and_eq_true, Bool.and_eq_true, decide_eq_true_iff, decide_eq_true_iff,
        decide_eq_true_iff]
      constructor
      · exact fun hrow => ⟨by by_contra hb; exact hrow.2 ⟨hrow.1, by omega⟩, hrow.1⟩
      · exact fun hrow => ⟨hrow.2, fun hb => by omega⟩
    have henough := walkBack_enough call hlowest hbefore maxAttempts 0 _ cutoff (hmeets lowest highest hlowest hhighest) hwalk
    rw [hsame]
    exact henough.trans (survivors_anti db call.folderID hcutoff)

/-! ## Remembering -/

/-- The records of the folder are those of its deletions from some mod-sequence on. -/
structure Remembered (s : State) (folderID : Int) : Prop where
  counter : ∃ counter, s.db.currentModSeq folderID = some counter ∧
    (∀ row ∈ recordsOf s.db folderID, row.modSeq ≤ counter) ∧
    ∀ d ∈ s.deleted, d.folderID = folderID → d.counter < counter
  kept : ∀ d ∈ s.deleted, d.folderID = folderID →
    (∃ row ∈ recordsOf s.db folderID, row.uid = d.uid ∧ row.modSeq = d.counter + 1) ∨
      (recordsOf s.db folderID ≠ [] ∧ ∀ row ∈ recordsOf s.db folderID, d.counter + 1 < row.modSeq)

theorem Remembered.complete {s : State} {folderID : Int} (hfolder : 0 < folderID) (h : Remembered s folderID) :
    Complete s folderID := by
  intro sinceModSeq hyes d hd hdf hsince
  have hne : folderID ≠ 0 := by omega
  unfold remembersExpungesSince at hyes
  rw [if_neg hne] at hyes
  unfold getExpungedUIDsSince
  rw [if_neg hne, List.mem_mergeSort, List.mem_map]
  rcases h.kept d hd hdf with ⟨row, hrow, huid, hmod⟩ | ⟨hsome, hall⟩
  · refine ⟨row, List.mem_filter.2 ⟨hrow, ?_⟩, huid⟩
    rw [decide_eq_true_iff]
    omega
  · -- the oldest record is younger, and the answer was no
    exfalso
    cases hlowest : lowestModSeq s.db folderID with
    | none =>
      unfold lowestModSeq at hlowest
      rw [List.min?_eq_none_iff, List.map_eq_nil_iff] at hlowest
      exact hsome hlowest
    | some lowest =>
      rw [hlowest] at hyes
      obtain ⟨hmem, -⟩ := List.min?_eq_some_iff.1 hlowest
      obtain ⟨row, hrow, hmod⟩ := List.mem_map.1 hmem
      have := hall row hrow
      have := of_decide_eq_true hyes
      omega

theorem Remembered.prune {s : State} {folderID : Int} (h : Remembered s folderID) (call : PruneCall) :
    Remembered (step s (.prune call)) folderID := by
  rcases pruneExpungedForFolder_cases call s.db with
    he | ⟨_, highest, _, boundary, -, hhighest, -, -, hle, hpruned⟩
  · unfold step
    dsimp only
    rw [he]
    exact h
  · obtain ⟨counter, hcounter, hmods, hcounters⟩ := h.counter
    have hmem := hpruned.mem folderID
    refine ⟨⟨counter, ?_, fun row hrow => hmods row ((hmem row).1 hrow).1, hcounters⟩, ?_⟩
    · show (pruneExpungedForFolder call s.db).1.currentModSeq folderID = some counter
      rw [hpruned.currentModSeq]
      exact hcounter
    · intro d hd hdf
      show (∃ row ∈ recordsOf (pruneExpungedForFolder call s.db).1 folderID, _) ∨
        (recordsOf (pruneExpungedForFolder call s.db).1 folderID ≠ [] ∧
          ∀ row ∈ recordsOf (pruneExpungedForFolder call s.db).1 folderID, _)
      rcases h.kept d hd hdf with ⟨row, hrow, huid, hmod⟩ | ⟨hsome, hall⟩
      · by_cases hgone : row.folderID = call.folderID ∧ row.modSeq < boundary
        · -- it was pruned: the newest record is still there, and all that are left are younger
          obtain ⟨hsame, hlt⟩ := hgone
          have hfolder : row.folderID = folderID := of_decide_eq_true (List.mem_filter.1 hrow).2
          have hcall : call.folderID = folderID := hsame.symm.trans hfolder
          obtain ⟨hmax, -⟩ := List.max?_eq_some_iff.1 hhighest
          obtain ⟨newest, hnewest, hnewmod⟩ := List.mem_map.1 hmax
          rw [hcall] at hnewest
          refine .inr ⟨List.ne_nil_of_mem ((hmem newest).2 ⟨hnewest, fun hn => by omega⟩), fun r hr => ?_⟩
          obtain ⟨hr, hstay⟩ := (hmem r).1 hr
          have hrf : r.folderID = call.folderID := (of_decide_eq_true (List.mem_filter.1 hr).2 : r.folderID = folderID).trans hcall.symm
          by_contra hlow
          exact hstay ⟨hrf, by omega⟩
        · exact .inl ⟨row, (hmem row).2 ⟨hrow, hgone⟩, huid, hmod⟩
      · refine .inr ⟨?_, fun row hrow => hall row ((hmem row).1 hrow).1⟩
        by_cases hcall : call.folderID = folderID
        · obtain ⟨hmax, -⟩ := List.max?_eq_some_iff.1 hhighest
          obtain ⟨newest, hnewest, hnewmod⟩ := List.mem_map.1 hmax
          rw [hcall] at hnewest
          exact List.ne_nil_of_mem ((hmem newest).2 ⟨hnewest, fun hn => by omega⟩)
        · obtain ⟨row, hrow⟩ := List.exists_mem_of_ne_nil _ hsome
          have hrf : row.folderID = folderID := of_decide_eq_true (List.mem_filter.1 hrow).2
          exact List.ne_nil_of_mem ((hmem row).2 ⟨hrow, fun hn => hcall (hn.1.symm.trans hrf)⟩)

theorem mem_recordsOf_append (db db' : Database) (record : Expunged) (folderID : Int)
    (h : db'.expunged = db.expunged ++ [record]) (row : Expunged) :
    row ∈ recordsOf db' folderID ↔ row ∈ recordsOf db folderID ∨ (row = record ∧ record.folderID = folderID) := by
  unfold recordsOf
  rw [h, List.filter_append, List.mem_append]
  apply or_congr_right
  rw [List.mem_filter, List.mem_singleton, decide_eq_true_iff]
  constructor
  · intro hrow
    exact ⟨hrow.1, hrow.1 ▸ hrow.2⟩
  · intro hrow
    exact ⟨hrow.1, hrow.1.symm ▸ hrow.2⟩

theorem Remembered.delete {s : State} {folderID : Int} (h : Remembered s folderID) (faults : DeletionFaults)
    (message : Message) (hmeets : DeletionMeets s faults message) :
    Remembered (step s (.delete faults message)) folderID := by
  by_cases hidle : message.id ≤ 0 ∨ faults.delete = true
  · have hno : removesRow faults s.db message = false := by
      unfold removesRow
      rcases hidle with hid | hid
      · rw [decide_eq_false (Int.not_lt.2 hid)]
        rfl
      · rw [hid]
        simp
    unfold step
    dsimp only
    rw [deleteObject_idle hidle, hno]
    exact h
  · rw [not_or, Int.not_le, Bool.not_eq_true] at hidle
    obtain ⟨now, hnow, hexpunged, hcounters⟩ := deleteObject_records hidle.1 hidle.2 hmeets
    have hmem := mem_recordsOf_append s.db _ _ folderID hexpunged
    obtain ⟨counter, hcounter, hmods, hdeleted⟩ := h.counter
    have hold : ∀ d ∈ (step s (.delete faults message)).deleted,
        d ∈ s.deleted ∨ d = ⟨message.folderID, message.uid, now⟩ := by
      intro d hd
      unfold step at hd
      dsimp only at hd
      rw [hnow] at hd
      split at hd
      · rcases List.mem_append.1 hd with hd | hd
        · exact .inl hd
        · exact .inr (List.mem_singleton.1 hd)
      · exact .inl hd
    by_cases hfolder : message.folderID = folderID
    · subst hfolder
      have hsame : counter = now := Option.some.inj (hcounter.symm.trans hnow)
      subst hsame
      refine ⟨⟨counter + 1, ?_, ?_, ?_⟩, ?_⟩
      · exact (hcounters _).trans (if_pos rfl)
      · intro row hrow
        rcases (hmem row).1 hrow with hrow | ⟨rfl, -⟩
        · have := hmods row hrow
          omega
        · exact le_rfl
      · intro d hd hdf
        rcases hold d hd with hd | rfl
        · have := hdeleted d hd hdf
          omega
        · show counter < counter + 1
          omega
      · intro d hd hdf
        rcases hold d hd with hd | rfl
        · rcases h.kept d hd hdf with ⟨row, hrow, huid, hmod⟩ | ⟨hsome, hall⟩
          · exact .inl ⟨row, (hmem row).2 (.inl hrow), huid, hmod⟩
          · obtain ⟨row, hrow⟩ := List.exists_mem_of_ne_nil _ hsome
            refine .inr ⟨List.ne_nil_of_mem ((hmem row).2 (.inl hrow)), fun r hr => ?_⟩
            rcases (hmem r).1 hr with hr | ⟨rfl, -⟩
            · exact hall r hr
            · have := hdeleted d hd hdf
              show d.counter + 1 < counter + 1
              omega
        · exact .inl ⟨_, (hmem _).2 (.inr ⟨rfl, rfl⟩), rfl, rfl⟩
    · have hsame : ∀ row, row ∈ recordsOf (deleteObject faults s.db message) folderID ↔
          row ∈ recordsOf s.db folderID := by
        intro row
        rw [hmem row]
        exact or_iff_left fun hr => hfolder hr.2
      have hdf' : ∀ d ∈ (step s (.delete faults message)).deleted, d.folderID = folderID → d ∈ s.deleted := by
        intro d hd hdf
        rcases hold d hd with hd | rfl
        · exact hd
        · exact absurd hdf hfolder
      refine ⟨⟨counter, ?_, fun row hrow => hmods row ((hsame row).1 hrow),
        fun d hd hdf => hdeleted d (hdf' d hd hdf) hdf⟩, ?_⟩
      · exact (hcounters folderID).trans ((if_neg (Ne.symm hfolder)).trans hcounter)
      · intro d hd hdf
        rcases h.kept d (hdf' d hd hdf) hdf with ⟨row, hrow, huid, hmod⟩ | ⟨hsome, hall⟩
        · exact .inl ⟨row, (hsame row).2 hrow, huid, hmod⟩
        · obtain ⟨row, hrow⟩ := List.exists_mem_of_ne_nil _ hsome
          exact .inr ⟨List.ne_nil_of_mem ((hsame row).2 hrow), fun r hr => hall r ((hsame r).1 hr)⟩

theorem run_remembered (calls : List Call) : ∀ (s : State) (folderID : Int), Remembered s folderID →
    DeletionsMeet s calls → Remembered (run s calls) folderID := by
  induction calls with
  | nil => exact fun _ _ h _ => h
  | cons call rest ih =>
    intro s folderID h hmeets
    apply ih (step s call) folderID _ hmeets.2
    cases call with
    | delete faults message => exact h.delete faults message hmeets.1
    | prune call => exact h.prune call

/-- A folder of which nothing has been deleted yet. -/
def Fresh (s : State) (folderID : Int) : Prop :=
  s.deleted = [] ∧ recordsOf s.db folderID = [] ∧ s.db.currentModSeq folderID ≠ none

theorem Fresh.remembered {s : State} {folderID : Int} (h : Fresh s folderID) : Remembered s folderID := by
  obtain ⟨hdeleted, hrecords, hrow⟩ := h
  obtain ⟨counter, hcounter⟩ := Option.ne_none_iff_exists'.1 hrow
  refine ⟨⟨counter, hcounter, fun row hr => ?_, fun d hd => ?_⟩, fun d hd => ?_⟩
  · rw [hrecords] at hr
    cases hr
  · rw [hdeleted] at hd
    cases hd
  · rw [hdeleted] at hd
    cases hd

/-- A statement that fails after the row is gone hides the message at once. -/
theorem delete_hides {s : State} {folderID counter : Int} (hfolder : 0 < folderID) (h : Remembered s folderID)
    (hcounter : s.db.currentModSeq folderID = some counter) (hnonneg : 0 ≤ counter) {faults : DeletionFaults}
    {message : Message} (hf : message.folderID = folderID) (hrow : removesRow faults s.db message = true)
    (hcomplete : Complete (step s (.delete faults message)) folderID) : DeletionMeets s faults message := by
  subst hf
  intro hid hdelete
  obtain ⟨now, hnow, hmods, -⟩ := h.counter
  have hsame : now = counter := Option.some.inj (hnow.symm.trans hcounter)
  subst hsame
  have hne : message.folderID ≠ 0 := by omega
  by_contra hfails
  -- no record that is added has the next mod-sequence
  have hlow : ∀ row ∈ recordsOf (deleteObject faults s.db message) message.folderID, row.modSeq ≤ now := by
    intro row hr
    unfold recordsOf at hr
    rw [List.mem_filter, decide_eq_true_iff] at hr
    obtain ⟨hr, hrf⟩ := hr
    have hadded : row ∈ s.db.expunged ∨ row.modSeq = 0 := by
      unfold deleteObject at hr
      rw [if_neg (Int.not_le.2 hid), hdelete, if_neg Bool.false_ne_true] at hr
      dsimp only at hr
      split at hr
      · rename_i haccount
        unfold getNextModSeq addExpunged at hr
        rw [if_neg hne] at hr
        cases hincrease : faults.increase with
        | true =>
          rw [hincrease] at hr
          simp only [if_true] at hr
          split at hr
          · exact .inl hr
          · rcases List.mem_append.1 hr with hr | hr
            · exact .inl hr
            · rw [List.mem_singleton.1 hr]
              exact .inr rfl
        | false =>
          rw [hincrease] at hr
          simp only [Bool.false_eq_true, if_false] at hr
          split at hr
          · exact .inl hr
          · rename_i hinsert
            rw [not_or, Bool.not_eq_true] at hinsert
            rcases List.mem_append.1 hr with hr | hr
            · exact .inl hr
            · rw [List.mem_singleton.1 hr]
              refine .inr ?_
              cases hread : faults.read with
              | true =>
                unfold getCurrentModSeq
                exact if_pos (.inr rfl)
              | false =>
                exact absurd ⟨hincrease, hread, hinsert.2, haccount.1, haccount.2, by rw [hcounter]; exact Option.some_ne_none _⟩ hfails
      · exact .inl hr
    rcases hadded with hr | hr
    · exact hmods row (List.mem_filter.2 ⟨hr, decide_eq_true hrf⟩)
    · omega
  have hyes : remembersExpungesSince (step s (.delete faults message)).db message.folderID now = true := by
    unfold remembersExpungesSince
    rw [if_neg hne]
    cases hlowest : lowestModSeq (step s (.delete faults message)).db message.folderID with
    | none => rfl
    | some lowest =>
      obtain ⟨hmem, -⟩ := List.min?_eq_some_iff.1 hlowest
      obtain ⟨row, hr, hmod⟩ := List.mem_map.1 hmem
      have := hlow row hr
      exact decide_eq_true (by omega)
  have hnew : (⟨message.folderID, message.uid, now⟩ : Deleted) ∈ (step s (.delete faults message)).deleted := by
    unfold step
    dsimp only
    rw [if_pos hrow, hcounter]
    exact List.mem_append_right _ (List.mem_singleton.2 rfl)
  have huid := hcomplete now hyes _ hnew rfl le_rfl
  unfold getExpungedUIDsSince at huid
  rw [if_neg hne, List.mem_mergeSort, List.mem_map] at huid
  obtain ⟨row, hr, -⟩ := huid
  rw [List.mem_filter, decide_eq_true_iff] at hr
  have := hlow row hr.1
  omega

/-- QRESYNC never hides an expunge. In every run whose deletions meet their condition the
server names every message deleted since a mod-sequence that it says it remembers, and
after one more deletion it does exactly if that one meets the condition; pruning never removes the newest record of a folder, whatever fails, and leaves
`keepRecords` records where it meets its own condition. -/
theorem expunges_remembered (s : State) (folderID : Int) (hfolder : 0 < folderID) (hfresh : Fresh s folderID)
    (calls : List Call) :
    (DeletionsMeet s calls → Complete (run s calls) folderID ∧
      ∀ counter faults message, (run s calls).db.currentModSeq folderID = some counter → 0 ≤ counter →
        message.folderID = folderID → removesRow faults (run s calls).db message = true →
        (Complete (step (run s calls) (.delete faults message)) folderID ↔
          DeletionMeets (run s calls) faults message)) ∧
      ∀ call : PruneCall,
        (∀ row ∈ (run s calls).db.expunged, highestModSeq (run s calls).db row.folderID = some row.modSeq →
          row ∈ (pruneExpungedForFolder call (run s calls).db).1.expunged) ∧
        (PruneMeets (run s calls).db call →
          call.keepRecords ≤ (recordsOf (run s calls).db call.folderID).length →
          call.keepRecords ≤ (recordsOf (pruneExpungedForFolder call (run s calls).db).1 call.folderID).length) := by
  refine ⟨fun hmeets => ?_, fun call => ?_⟩
  · have h := run_remembered calls s folderID hfresh.remembered hmeets
    refine ⟨h.complete hfolder, fun counter faults message hcounter hnonneg hf hrow => ⟨?_, fun hone => ?_⟩⟩
    · exact delete_hides hfolder h hcounter hnonneg hf hrow
    · exact (h.delete faults message hone).complete hfolder
  exact ⟨fun row hrow hnewest => prune_keeps_newest call _ row hnewest hrow,
    fun hmeets hbefore => prune_keeps_enough call _ hmeets hbefore⟩

/-- Two messages deleted without a failure, and the older record pruned. -/
theorem expunges_remembered_pruned :
    let s : State := ⟨⟨[⟨1, 7, 3, 41⟩, ⟨2, 7, 3, 42⟩], fun _ => some 10, []⟩, []⟩
    let call : PruneCall :=
      { folderID := 3, recordCount := 2, keepRecords := 1, batchRecords := 500, cutoffEstimate := 12, sliceEstimate := 500 }
    let calls : List Call := [.delete {} ⟨1, 7, 3, 41⟩, .delete {} ⟨2, 7, 3, 42⟩, .prune call]
    (recordsOf (run s calls).db 3).map Expunged.modSeq = [12] ∧ Complete (run s calls) 3 ∧
      call.keepRecords ≤ (recordsOf (pruneExpungedForFolder call (run s (calls.take 2)).db).1 call.folderID).length := by
  intro s call calls
  have hfresh : Fresh s 3 := ⟨rfl, rfl, by decide⟩
  have hone : DeletionMeets s {} ⟨1, 7, 3, 41⟩ := fun _ _ => by decide
  have htwo : DeletionMeets (step s (.delete {} ⟨1, 7, 3, 41⟩)) {} ⟨2, 7, 3, 42⟩ := fun _ _ => by decide
  refine ⟨by decide, ((expunges_remembered s 3 (by decide) hfresh calls).1 ⟨hone, htwo, trivial, trivial⟩).1, ?_⟩
  refine ((expunges_remembered s 3 (by decide) hfresh (calls.take 2)).2 call).2 ?_ (by decide)
  intro lowest highest hlowest hhighest
  have hl : lowestModSeq (run s (calls.take 2)).db call.folderID = some 11 := by decide
  have hh : highestModSeq (run s (calls.take 2)).db call.folderID = some 12 := by decide
  rw [hl] at hlowest
  rw [hh] at hhighest
  cases hlowest
  cases hhighest
  decide

/-- A counter that cannot be increased leaves the expunge with mod-sequence 0, which no
client is told of; and four attempts need not bring the cutoff down far enough. -/
theorem expunges_forgotten :
    (¬∀ (s : State) (folderID : Int) (calls : List Call), 0 < folderID → Fresh s folderID →
      Complete (run s calls) folderID) ∧
    ¬∀ (db : Database) (call : PruneCall), call.keepRecords ≤ (recordsOf db call.folderID).length →
      call.keepRecords ≤ (recordsOf (pruneExpungedForFolder call db).1 call.folderID).length := by
  constructor
  · intro hall
    have h := hall ⟨⟨[⟨1, 7, 3, 41⟩], fun _ => some 10, []⟩, []⟩ 3 [.delete { increase := true } ⟨1, 7, 3, 41⟩]
      (by decide) ⟨rfl, rfl, by decide⟩ 10 (by decide) ⟨3, 41, 10⟩ (by decide) rfl le_rfl
    unfold getExpungedUIDsSince at h
    rw [if_neg (by decide), List.mem_mergeSort] at h
    exact absurd h (by decide)
  · intro hall
    have h := hall ⟨[], fun _ => some 1000, [⟨7, 3, 41, 1⟩, ⟨7, 3, 42, 2⟩, ⟨7, 3, 43, 1000⟩]⟩
      { folderID := 3, recordCount := 3, keepRecords := 2, batchRecords := 500, cutoffEstimate := 334, sliceEstimate := 166666 }
      (by decide)
    exact absurd h (by decide)

end PersistentIMAPFolder
end HMailServer
