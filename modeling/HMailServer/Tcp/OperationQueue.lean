import Mathlib

/- The operation queue of a socket, `TCPIP/IOOperationQueue.cpp`. An operation is
   whatever `IOOperation` holds; the queue reads its type only. The mutex makes
   each call one step. -/
namespace HMailServer.Tcp.OperationQueue

inductive OperationType where
  | write
  | read
  | shutdownSend
  | disconnect
  | handshake
  | delay
  deriving DecidableEq, Repr

/-- The value of `IOOperation::OperationType`, which a report names. -/
def OperationType.number : OperationType → Nat
  | .write => 0
  | .read => 1
  | .shutdownSend => 2
  | .disconnect => 3
  | .handshake => 4
  | .delay => 5

structure IOOperationQueue (Operation : Type) where
  queueOperations : List Operation := []
  ongoingOperations : List Operation := []
  deriving DecidableEq, Repr

variable {Operation : Type} (getType : Operation → OperationType)

def push (q : IOOperationQueue Operation) (operation : Operation) : IOOperationQueue Operation :=
  { q with queueOperations := q.queueOperations ++ [operation] }

/-- The first ongoing operation of the type goes; without one there is a report. -/
def pop (q : IOOperationQueue Operation) (type : OperationType) : IOOperationQueue Operation × Option String :=
  if q.ongoingOperations = [] then
    (q, some ("Trying to pop empty operation list. Type: " ++ toString type.number))
  else if q.ongoingOperations.any fun oper => getType oper == type then
    ({ q with ongoingOperations := q.ongoingOperations.eraseP fun oper => getType oper == type }, none)
  else (q, some "Trying to remove non-existant item from operation list.")

/-- Whether an operation may start while another is ongoing. -/
def mayStart (pendingType : OperationType) : OperationType → Bool
  | .write =>
    match pendingType with
    | .write | .read | .disconnect | .shutdownSend | .handshake | .delay => false
  | .read =>
    match pendingType with
    | .write | .disconnect | .shutdownSend | .delay => true
    | .read | .handshake => false
  | .disconnect | .shutdownSend | .handshake | .delay => false

def front (q : IOOperationQueue Operation) : Option Operation × IOOperationQueue Operation :=
  match q.queueOperations with
  | [] => (none, q)
  | nextOperation :: rest =>
    if q.ongoingOperations.all fun ongoing => mayStart (getType nextOperation) (getType ongoing) then
      (some nextOperation, ⟨rest, q.ongoingOperations ++ [nextOperation]⟩)
    else (none, q)

/-! ## Runs -/

inductive Call (Operation : Type) where
  | push (operation : Operation)
  | front
  | pop (type : OperationType)

/-- The queue with what has been pushed and what `Front` has returned, in order. -/
structure History (Operation : Type) where
  queue : IOOperationQueue Operation := {}
  pushed : List Operation := []
  started : List Operation := []

def History.call (h : History Operation) : Call Operation → History Operation
  | .push operation => { h with queue := push h.queue operation, pushed := h.pushed ++ [operation] }
  | .front => { h with queue := (front getType h.queue).2, started := h.started ++ (front getType h.queue).1.toList }
  | .pop type => { h with queue := (pop getType h.queue type).1 }

/-- `Pop(type)` is called only while an operation of that type is ongoing. -/
def Allowed (h : History Operation) : Call Operation → Prop
  | .pop type => ∃ operation ∈ h.queue.ongoingOperations, getType operation = type
  | _ => True

inductive Reachable : History Operation → Prop
  | init : Reachable {}
  | call {h : History Operation} (c : Call Operation) : Reachable h → Allowed getType h c → Reachable (h.call getType c)

/-! ## What is ongoing -/

/-- Every ongoing operation could start while those before it were ongoing. -/
def Compatible (ongoing : List Operation) : Prop :=
  ongoing.Pairwise fun earlier later => mayStart (getType later) (getType earlier) = true

variable {getType}

/-- Only a read has anything ongoing after it, and then no read and no handshake. -/
theorem mayStart_iff (pending ongoing : OperationType) :
    mayStart pending ongoing = true ↔ ongoing = .read ∧ pending ≠ .read ∧ pending ≠ .handshake := by
  cases ongoing <;> cases pending <;> decide

/-- So one operation is ongoing, or a read and one other. -/
theorem compatible_iff (ongoing : List Operation) :
    Compatible getType ongoing ↔ ongoing.length ≤ 1 ∨
      ∃ r o, ongoing = [r, o] ∧ getType r = .read ∧ getType o ≠ .read ∧ getType o ≠ .handshake := by
  match ongoing with
  | [] => simp [Compatible]
  | [a] => simp [Compatible]
  | [a, b] => simp [Compatible, mayStart_iff]
  | a :: b :: c :: rest =>
    have hfalse : ¬Compatible getType (a :: b :: c :: rest) := by
      intro h
      obtain ⟨ha, hb, _⟩ := List.pairwise_cons.1 h |>.imp_right List.pairwise_cons.1
      have hab := (mayStart_iff _ _).1 (ha b List.mem_cons_self)
      have hbc := (mayStart_iff _ _).1 (hb c List.mem_cons_self)
      exact hab.2.1 hbc.1
    simp [hfalse]

/-- No two ongoing operations are of one type. -/
theorem Compatible.nodup {ongoing : List Operation} (h : Compatible getType ongoing) : (ongoing.map getType).Nodup := by
  obtain hone | ⟨r, o, rfl, hr, ho, _⟩ := (compatible_iff ongoing).1 h
  · match ongoing, hone with
    | [], _ => exact List.nodup_nil
    | [a], _ => exact List.nodup_singleton _
  · simp [hr, Ne.symm ho]

/-- What `Front` starts, it starts while everything ongoing lets it. -/
theorem front_some {q : IOOperationQueue Operation} {operation : Operation}
    (h : (front getType q).1 = some operation) :
    ∃ rest, q.queueOperations = operation :: rest ∧
      (∀ ongoing ∈ q.ongoingOperations, mayStart (getType operation) (getType ongoing) = true) ∧
      (front getType q).2 = ⟨rest, q.ongoingOperations ++ [operation]⟩ := by
  unfold front at h ⊢
  split at h
  · cases h
  · rename_i next rest hqueue
    split at h
    · rename_i hall
      obtain rfl := Option.some.inj h
      rw [if_pos hall]
      exact ⟨rest, hqueue, List.all_eq_true.1 hall, rfl⟩
    · cases h

theorem front_none {q : IOOperationQueue Operation} (h : (front getType q).1 = none) : (front getType q).2 = q := by
  unfold front at h ⊢
  split
  · rfl
  · split
    · rename_i hqueue hall
      rw [hqueue] at h
      simp [hall] at h
    · rfl

/-- `Pop` of an ongoing operation's type removes that operation. -/
theorem pop_ongoing {q : IOOperationQueue Operation} (h : Compatible getType q.ongoingOperations) {i : Nat}
    (hi : i < q.ongoingOperations.length) :
    pop getType q (getType q.ongoingOperations[i]) =
      ({ q with ongoingOperations := q.ongoingOperations.eraseIdx i }, none) := by
  have hany : (q.ongoingOperations.any fun oper => getType oper == getType q.ongoingOperations[i]) = true :=
    List.any_eq_true.2 ⟨q.ongoingOperations[i], List.getElem_mem hi, by simp⟩
  have hne : q.ongoingOperations ≠ [] := List.ne_nil_of_length_pos (by omega)
  have hfirst : q.ongoingOperations.findIdx (fun oper => getType oper == getType q.ongoingOperations[i]) = i := by
    rw [List.findIdx_eq hi]
    refine ⟨by simp, fun j hj => ?_⟩
    -- an earlier one of the type would be a second
    have hnodup := List.pairwise_iff_getElem.1 h.nodup j i (by rw [List.length_map]; omega) (by rw [List.length_map]; omega) hj
    rw [List.getElem_map, List.getElem_map] at hnodup
    simpa using hnodup
  unfold pop
  rw [if_neg hne, if_pos hany, List.eraseP_eq_eraseIdx]
  have hsome : q.ongoingOperations.findIdx? (fun oper => getType oper == getType q.ongoingOperations[i]) = some i := by
    rw [List.findIdx?_eq_some_iff_findIdx_eq]
    exact ⟨hi, hfirst⟩
  rw [hsome]

/-! ## Every run -/

/-- What holds after every run. -/
structure Ordered (getType : Operation → OperationType) (h : History Operation) : Prop where
  order : h.started ++ h.queue.queueOperations = h.pushed
  compatible : Compatible getType h.queue.ongoingOperations

theorem Ordered.call {h : History Operation} (ho : Ordered getType h) {c : Call Operation}
    (hc : Allowed getType h c) : Ordered getType (h.call getType c) := by
  obtain ⟨horder, hcompatible⟩ := ho
  cases c with
  | push operation =>
    refine ⟨?_, hcompatible⟩
    show h.started ++ (h.queue.queueOperations ++ [operation]) = h.pushed ++ [operation]
    rw [← List.append_assoc, horder]
  | front =>
    cases hfront : (front getType h.queue).1 with
    | none =>
      have hqueue := front_none hfront
      refine ⟨?_, ?_⟩
      · show h.started ++ (front getType h.queue).1.toList ++ (front getType h.queue).2.queueOperations = h.pushed
        rw [hqueue, hfront, Option.toList_none, List.append_nil]
        exact horder
      · show Compatible getType (front getType h.queue).2.ongoingOperations
        rwa [hqueue]
    | some operation =>
      obtain ⟨rest, hrest, hall, hqueue⟩ := front_some hfront
      refine ⟨?_, ?_⟩
      · show h.started ++ (front getType h.queue).1.toList ++ (front getType h.queue).2.queueOperations = h.pushed
        rw [hqueue, hfront, ← horder, hrest, List.append_assoc]
        rfl
      · show Compatible getType (front getType h.queue).2.ongoingOperations
        rw [hqueue]
        refine List.pairwise_append.2 ⟨hcompatible, List.pairwise_singleton _ _, ?_⟩
        intro ongoing hongoing later hlater
        rw [List.mem_singleton.1 hlater]
        exact hall ongoing hongoing
  | pop type =>
    obtain ⟨operation, hongoing, rfl⟩ := hc
    obtain ⟨i, hi, rfl⟩ := List.mem_iff_getElem.1 hongoing
    have hpop := pop_ongoing hcompatible hi
    refine ⟨?_, ?_⟩
    · show h.started ++ (pop getType h.queue _).1.queueOperations = h.pushed
      rw [hpop]
      exact horder
    · show Compatible getType (pop getType h.queue _).1.ongoingOperations
      rw [hpop]
      exact hcompatible.sublist (List.eraseIdx_sublist _ _)

theorem Reachable.ordered {h : History Operation} (hr : Reachable getType h) : Ordered getType h := by
  induction hr with
  | init => exact ⟨rfl, List.Pairwise.nil⟩
  | call c _ hc ih => exact ih.call hc

/-- The operations of a type among those that are ongoing. -/
def ongoingOf (getType : Operation → OperationType) (q : IOOperationQueue Operation) (type : OperationType) :
    List Operation := q.ongoingOperations.filter fun operation => getType operation == type

/-- In every run what was pushed is started once at most and in that order; one
    write and one read at most are ongoing and a handshake only alone; nothing
    starts beside a disconnect, shutdown, handshake or delay, and of all types only
    none beside a write; and `Pop` removes the operation that completed. -/
theorem operations_keep_order_and_exclusions (getType : Operation → OperationType) (h : History Operation)
    (hr : Reachable getType h) :
    h.started ++ h.queue.queueOperations = h.pushed ∧
    (ongoingOf getType h.queue .write).length ≤ 1 ∧ (ongoingOf getType h.queue .read).length ≤ 1 ∧
    (∀ operation ∈ h.queue.ongoingOperations, getType operation = .handshake →
      h.queue.ongoingOperations = [operation]) ∧
    (∀ operation, (front getType h.queue).1 = some operation → ∀ ongoing ∈ h.queue.ongoingOperations,
      getType ongoing ∉ [.disconnect, .shutdownSend, .handshake, .delay] ∧
      (getType ongoing = .write → getType operation ∉ [.read, .disconnect, .shutdownSend, .handshake, .delay])) ∧
    ∀ (i : Nat) (hi : i < h.queue.ongoingOperations.length),
      pop getType h.queue (getType h.queue.ongoingOperations[i]) =
        ({ h.queue with ongoingOperations := h.queue.ongoingOperations.eraseIdx i }, none) := by
  obtain ⟨horder, hcompatible⟩ := hr.ordered
  have hcount : ∀ type, (ongoingOf getType h.queue type).length ≤ 1 := by
    intro type
    have hone := List.nodup_iff_count_le_one.1 hcompatible.nodup type
    rw [List.count, List.countP_map, List.countP_eq_length_filter] at hone
    exact hone
  refine ⟨horder, hcount _, hcount _, ?_, ?_, fun i hi => pop_ongoing hcompatible hi⟩
  · intro operation hongoing htype
    obtain hone | ⟨r, o, htwo, hr, _, ho⟩ := (compatible_iff _).1 hcompatible
    · obtain ⟨a, ha⟩ := List.length_eq_one_iff.1 (Nat.le_antisymm hone (List.length_pos_of_mem hongoing))
      rw [ha] at hongoing ⊢
      rw [List.mem_singleton.1 hongoing]
    · rw [htwo] at hongoing
      obtain rfl | hongoing := List.mem_cons.1 hongoing
      · rw [hr] at htype
        cases htype
      · rw [List.mem_singleton.1 hongoing] at htype
        exact absurd htype ho
  · intro operation hfront ongoing hongoing
    obtain ⟨_, _, hall, _⟩ := front_some hfront
    have hread := ((mayStart_iff _ _).1 (hall ongoing hongoing)).1
    rw [hread]
    exact ⟨by decide, fun h => by cases h⟩

/-- A write goes out while the command before it is still being read. -/
theorem operations_keep_order_and_exclusions_reading :
    (ongoingOf id (front id (front id (push (push ({} : IOOperationQueue OperationType) .read) .write)).2).2 .read).length ≤ 1 := by
  have hr : Reachable id (((((({} : History OperationType).call id (.push .read)).call id (.push .write)).call id
      .front).call id .front)) :=
    .call _ (.call _ (.call _ (.call _ .init trivial) trivial) trivial) trivial
  exact (operations_keep_order_and_exclusions id _ hr).2.2.1

end HMailServer.Tcp.OperationQueue
