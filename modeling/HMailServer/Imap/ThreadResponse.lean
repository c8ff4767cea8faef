import HMailServer.Imap.ThreadSubject

/- The response of THREAD. A client reads the numbers of a response as its runs
   of digits; rendering writes the messages of a tree in preorder, each number
   between punctuation. With the earlier phases this gives that a THREAD response
   carries the number of every searched message once, and no other. -/
namespace HMailServer.Thread
open PointerForest Forest Heap Fuel

/-! ## The numbers of a text -/

def isDigit (c : WChar) : Bool := 48 ≤ c && c ≤ 57

/-- The runs of digits, `current` being the value of the run that is open. -/
def readNumbers : Option Nat → WString → List Nat
  | current, [] => current.toList
  | current, c :: rest =>
    if isDigit c then readNumbers (some (10 * current.getD 0 + (c - 48))) rest
    else current.toList ++ readNumbers none rest

def numbersOf (text : WString) : List Nat := readNumbers none text

/-- Text that closes a run and opens none. -/
def Punctuation (text : WString) : Prop := text ≠ [] ∧ ∀ c ∈ text, isDigit c = false

instance (text : WString) : Decidable (Punctuation text) :=
  inferInstanceAs (Decidable (_ ∧ _))

theorem readNumbers_silent (text rest : WString) (hs : ∀ c ∈ text, isDigit c = false) :
    readNumbers none (text ++ rest) = readNumbers none rest := by
  induction text with
  | nil => rfl
  | cons c text ih =>
    rw [List.cons_append, readNumbers, hs c (by simp), if_neg (by simp), Option.toList_none,
      List.nil_append]
    exact ih fun d hd => hs d (by simp [hd])

theorem readNumbers_punctuation {text : WString} (hp : Punctuation text) (a b : WString) :
    ∀ current, readNumbers current (a ++ text ++ b) = readNumbers current a ++ readNumbers none b := by
  induction a with
  | nil =>
    intro current
    obtain ⟨hne, hs⟩ := hp
    cases text with
    | nil => exact absurd rfl hne
    | cons c text =>
      have hrest := readNumbers_silent text b fun d hd => hs d (by simp [hd])
      rw [List.nil_append, List.cons_append, readNumbers.eq_2, hs c (by simp), if_neg (by simp), hrest]
      cases current <;> rfl
  | cons c a ih =>
    intro current
    rw [List.append_assoc, List.cons_append, readNumbers, readNumbers, ← List.append_assoc]
    split
    · exact ih _
    · rw [ih none, List.append_assoc]

theorem numbersOf_punctuation {text : WString} (hp : Punctuation text) (a b : WString) :
    numbersOf (a ++ text ++ b) = numbersOf a ++ numbersOf b := readNumbers_punctuation hp a b none

theorem numbersOf_append_punctuation {text : WString} (hp : Punctuation text) (a : WString) :
    numbersOf (a ++ text) = numbersOf a := by
  have h := numbersOf_punctuation hp a []
  rwa [List.append_nil, show numbersOf [] = [] from rfl, List.append_nil] at h

theorem punctuation_space : Punctuation (wide " ") := by decide
theorem punctuation_open : Punctuation (wide "(") := by decide
theorem punctuation_spaceOpen : Punctuation (wide " (") := by decide
theorem punctuation_close : Punctuation (wide ")") := by decide

/-- Digits extend the run that is open. -/
theorem readNumbers_digits (cs : List Char) (hcs : ∀ c ∈ cs, c.isDigit) : ∀ v,
    readNumbers (some v) (cs.map Char.toNat) = [Nat.ofDigitChars 10 cs v] := by
  induction cs with
  | nil => intro v; simp [readNumbers]
  | cons c cs ih =>
    intro v
    have hc : isDigit c.toNat = true := by
      have h := hcs c (by simp)
      simp only [Char.isDigit, Bool.and_eq_true, decide_eq_true_eq] at h
      simp only [isDigit, Bool.and_eq_true, decide_eq_true_eq]
      exact ⟨h.1, h.2⟩
    rw [List.map_cons, readNumbers, if_pos hc, Nat.ofDigitChars_cons]
    exact ih (fun d hd => hcs d (by simp [hd])) _

theorem numbersOf_decimal (n : Nat) : numbersOf (decimal n) = [n] := by
  have hd : ∀ c ∈ Nat.toDigits 10 n, c.isDigit :=
    fun c hc => Nat.isDigit_of_mem_toDigits (by decide) (by decide) hc
  have hv := readNumbers_digits (Nat.toDigits 10 n) hd 0
  rw [Nat.ofDigitChars_ten_toDigits] at hv
  -- the first digit opens the run with the value zero
  cases hcs : Nat.toDigits 10 n with
  | nil => exact absurd hcs Nat.toDigits_ne_nil
  | cons c cs =>
    rw [hcs] at hv
    rw [numbersOf, decimal, hcs, ← hv, List.map_cons, readNumbers.eq_2, readNumbers.eq_2]
    split
    · rfl
    · rename_i hc
      exfalso
      have h := hd c (by rw [hcs]; simp)
      simp only [Char.isDigit, Bool.and_eq_true, decide_eq_true_eq] at h
      simp only [isDigit, Bool.and_eq_true, decide_eq_true_eq] at hc
      exact hc ⟨h.1, h.2⟩

/-! ## Rendering -/

/-- Every number before this text stays apart from what is appended to it. -/
def Closed (out : WString) : Prop := ∀ s, numbersOf (out ++ s) = numbersOf out ++ numbersOf s

theorem closed_append {text : WString} (hp : Punctuation text) (out : WString) :
    Closed (out ++ text) := by
  intro s
  rw [numbersOf_punctuation hp, numbersOf_append_punctuation hp]

theorem numbersIn_cons (h : Heap) (useUid : Bool) (p : Ptr) (b r : Forest Ptr) :
    numbersIn h useUid (.cons p b r) =
      (h.number useUid p).toList ++ numbersIn h useUid b ++ numbersIn h useUid r := by
  rw [numbersIn, nodes_cons, List.filterMap_cons, List.filterMap_append]
  cases h.number useUid p <;> rfl

/-- What rendering one container appends. -/
def RendersTree (h : Heap) (useUid : Bool) (p : Ptr) (b : Forest Ptr) : Prop :=
  ∀ first out, (first = true → Closed out) → ∃ out',
    Returns (fun n => renderFrom h useUid n p first out) out' ∧
      numbersOf out' = numbersOf out ++ numbersIn h useUid (tree p b)

/-- What rendering the nested lists of a branch appends, however they are opened. -/
def RendersBranches (h : Heap) (useUid : Bool) (F : Forest Ptr) : Prop :=
  ∀ opening : WString → WString, (∀ out, Punctuation (opening out)) → ∀ out, Closed out → ∃ out',
    Returns (fun n => (roots F).foldlM (fun out child =>
      (renderFrom h useUid n child true (out ++ opening out)).map (· ++ wide ")")) out) out' ∧
      numbersOf out' = numbersOf out ++ numbersIn h useUid F

/-- A container, given that its children are rendered as branches and, when there
is one only, as the next link of the chain. -/
theorem rendersTree {h : Heap} {useUid : Bool} {p : Ptr} {b : Forest Ptr}
    (hc : (h.cell p).children = roots b) (hbranches : RendersBranches h useUid b)
    (hchain : ∀ q c, b = tree q c → RendersTree h useUid q c) : RendersTree h useUid p b := by
  have hnumbers : ∀ out, numbersOf out ++ numbersIn h useUid (tree p b) =
      numbersOf out ++ (h.number useUid p).toList ++ numbersIn h useUid b := by
    intro out
    rw [tree, numbersIn_cons]
    simp [numbersIn]
  intro first out hfirst
  cases hm : (h.cell p).message with
  | none =>
    have hnum : h.number useUid p = none := by rw [Heap.number, hm]; rfl
    cases hb : b with
    | nil =>
      refine ⟨out, (Returns.pure' out).step fun n => ?_, ?_⟩
      · rw [renderFrom, hm, hc, hb]
        rfl
      · rw [← hb, hnumbers, hnum, hb]
        simp [numbersIn]
    | cons q c r =>
      have hclosed : Closed (if first then out else out ++ wide " ") := by
        split
        · rename_i hf
          exact hfirst hf
        · exact closed_append punctuation_space out
      have hsame : numbersOf (if first then out else out ++ wide " ") = numbersOf out := by
        split
        · rfl
        · exact numbersOf_append_punctuation punctuation_space out
      obtain ⟨out', hret, hout⟩ := hbranches (fun _ => wide "(") (fun _ => punctuation_open) _ hclosed
      refine ⟨out', hret.step fun n => ?_, ?_⟩
      · rw [renderFrom, hm, hc, hb]
        rfl
      · rw [hout, hsame, ← hb, hnumbers, hnum]
        simp
  | some m =>
    have hnum : h.number useUid p = some (numberOf useUid (h.cell p).sequence m) := by
      rw [Heap.number, hm]
      rfl
    have hshown : numbersOf ((if first then out else out ++ wide " ") ++
        decimal (numberOf useUid (h.cell p).sequence m)) =
        numbersOf out ++ (h.number useUid p).toList := by
      rw [hnum]
      split
      · rename_i hf
        rw [hfirst hf, numbersOf_decimal]
        rfl
      · rw [numbersOf_punctuation punctuation_space, numbersOf_decimal]
        rfl
    cases hb : b with
    | nil =>
      refine ⟨(if first then out else out ++ wide " ") ++
        decimal (numberOf useUid (h.cell p).sequence m), (Returns.pure' _).step fun n => ?_, ?_⟩
      · rw [renderFrom, hm, hc, hb]
        rfl
      · rw [← hb, hnumbers, ← hshown, hb]
        simp [numbersIn]
    | cons q c r =>
      cases r with
      | nil =>
        obtain ⟨out', hret, hout⟩ := hchain q c hb false _ (by intro hf; cases hf)
        refine ⟨out', hret.step fun n => ?_, ?_⟩
        · rw [renderFrom, hm, hc, hb]
          rfl
        · rw [hout, hshown, ← hb, hnumbers, hb]
          rfl
      | cons q' c' r' =>
        obtain ⟨out', hret, hout⟩ := hbranches (fun _ => wide "(") (fun _ => punctuation_open) _
          (closed_append punctuation_space _)
        refine ⟨out', hret.step fun n => ?_, ?_⟩
        · rw [renderFrom, hm, hc, hb]
          rfl
        · rw [hout, numbersOf_append_punctuation punctuation_space, hshown, ← hb, hnumbers]

/-- Rendering returns on every forest the pointers hold. -/
theorem renders {h : Heap} (useUid : Bool) (F : Forest Ptr) : ∀ par, Linked h.links par F →
    RendersBranches h useUid F ∧ ∀ q c, F = tree q c → RendersTree h useUid q c := by
  induction F with
  | nil =>
    intro par _
    refine ⟨fun opening _ out _ => ⟨out, Returns.pure' out, by simp [numbersIn]⟩, ?_⟩
    intro q c hF
    cases hF
  | cons p b r ihb ihr =>
    intro par hl
    obtain ⟨-, hc, hb, hr⟩ := hl
    obtain ⟨hbb, hbc⟩ := ihb _ hb
    have htree := rendersTree hc hbb hbc
    refine ⟨?_, ?_⟩
    · intro opening hop out hout
      obtain ⟨out₁, hret, hnum⟩ := htree true (out ++ opening out) fun _ => closed_append (hop out) out
      obtain ⟨out₂, hret', hnum'⟩ := (ihr par hr).1 opening hop _ (closed_append punctuation_close out₁)
      refine ⟨out₂, Returns.foldlM_cons (hret.map' (· ++ wide ")")) hret', ?_⟩
      rw [hnum', numbersOf_append_punctuation punctuation_close, hnum,
        numbersOf_append_punctuation (hop out), numbersIn_cons, tree, numbersIn_cons]
      simp [numbersIn]
    · intro q c hF
      injection hF with hp hb' hr'
      subst hp
      subst hb'
      exact htree

theorem renderRoots_spec {h : Heap} {F : Forest Ptr} (hF : Rooted h F) (useUid : Bool) :
    ∃ response, Returns (renderRoots h useUid) response ∧
      numbersOf response = numbersIn h useUid F := by
  obtain ⟨hbranches, -⟩ := renders useUid F _ hF.linked
  obtain ⟨response, hret, hnum⟩ := hbranches
    (fun out => if out.isEmpty then wide " (" else wide "(") (fun out => by
      show Punctuation (if out.isEmpty then wide " (" else wide "(")
      split
      · exact punctuation_spaceOpen
      · exact punctuation_open) [] (fun s => rfl)
  refine ⟨response, hret.congr' fun n => ?_, hnum⟩
  rw [renderRoots, hF.children]
  rfl

/-! ## The whole build -/

theorem loadMessages_eq_none (env : Environment) (algorithm : Algorithm)
    (abortRequested : Nat → Bool) (messages : List (Nat × Message)) : ∀ asked s,
    loadMessages env algorithm abortRequested asked s messages = none ↔
      ∃ i < messages.length, abortRequested (asked + i) = true := by
  induction messages with
  | nil => intro asked s; simp [loadMessages]
  | cons entry rest ih =>
    intro asked s
    rw [loadMessages]
    split
    · rename_i ha
      exact iff_of_true rfl ⟨0, by simp, ha⟩
    · rename_i ha
      rw [ih]
      constructor
      · rintro ⟨i, hi, hab⟩
        exact ⟨i + 1, by simpa using hi, by rw [show asked + (i + 1) = asked + 1 + i by omega]; exact hab⟩
      · rintro ⟨i, hi, hab⟩
        cases i with
        | zero => exact absurd hab ha
        | succ i =>
          exact ⟨i, by simpa using hi,
            by rw [show asked + 1 + i = asked + (i + 1) by omega]; exact hab⟩

/-- ORDEREDSUBJECT loads without links. -/
theorem loadMessages_unlinked (env : Environment) (abortRequested : Nat → Bool)
    (messages : List (Nat × Message)) : ∀ asked s t,
    (∀ p, (s.heap.cell p).parent = none ∧ (s.heap.cell p).children = []) →
    loadMessages env .orderedSubject abortRequested asked s messages = some t →
    ∀ p, (t.heap.cell p).parent = none ∧ (t.heap.cell p).children = [] := by
  induction messages with
  | nil =>
    intro asked s t hs ht
    injection ht with ht
    rw [← ht]
    exact hs
  | cons entry rest ih =>
    intro asked s t hs ht
    rw [loadMessages] at ht
    split at ht
    · cases ht
    · refine ih _ _ t ?_ ht
      have hfresh : ∀ p, (s.heap.makeContainer.1.cell p).parent = none ∧
          (s.heap.makeContainer.1.cell p).children = [] := by
        intro p
        rw [cell_makeContainer]
        split
        · exact ⟨rfl, rfl⟩
        · exact hs p
      have hown : ∀ id p, ((ownContainer s id).1.heap.cell p).parent = none ∧
          ((ownContainer s id).1.heap.cell p).children = [] := by
        intro id p
        unfold ownContainer
        split
        · exact hfresh p
        · split
          · exact hfresh p
          · split
            · exact hs p
            · exact hfresh p
      intro p
      have hp := hown (extractFirstMessageId entry.2.messageId) p
      simp only [loadMessage, fillContainer, Heap.set]
      split
      · rename_i hq
        rw [← hq]
        exact hp
      · exact hp

/-- The searched containers carry the numbers of the messages. -/
theorem LoadInv.numbers {s : LoadState} {loaded : List (Nat × Message)} (hs : LoadInv s loaded)
    (useUid : Bool) : s.searchedContainers.filterMap (s.heap.number useUid) =
      loaded.map fun e => numberOf useUid e.1 e.2 := by
  have h := congrArg (List.filterMap fun e : Nat × Option Message => e.2.map (numberOf useUid e.1))
    hs.messages
  rw [List.filterMap_map, List.filterMap_map] at h
  calc s.searchedContainers.filterMap (s.heap.number useUid)
      = loaded.filterMap fun e => some (numberOf useUid e.1 e.2) := h
    _ = loaded.map fun e => numberOf useUid e.1 e.2 := by rw [List.filterMap_eq_map']

theorem numbersIn_eq_messagesIn (h : Heap) (useUid : Bool) (F : Forest Ptr) :
    numbersIn h useUid F = (messagesIn h F).filterMap (h.number useUid) := by
  rw [numbersIn, messagesIn, List.filterMap_filter]
  refine List.filterMap_congr fun p _ => ?_
  cases hm : (h.cell p).message with
  | none => simp [Heap.number, hm]
  | some m => simp

/-- A forest over the whole arena has the numbers of the searched messages. -/
theorem LoadInv.numbersIn_perm {s : LoadState} {loaded : List (Nat × Message)} (hs : LoadInv s loaded)
    (useUid : Bool) {F : Forest Ptr} (hn : (nodes F).Nodup)
    (hmem : ∀ p, p ∈ nodes F ↔ s.heap.Owned p) :
    (numbersIn s.heap useUid F).Perm (loaded.map fun e => numberOf useUid e.1 e.2) := by
  have hperm : (messagesIn s.heap F).Perm s.searchedContainers := by
    refine (List.perm_ext_iff_of_nodup (hn.filter _) hs.nodup).mpr fun p => ?_
    rw [List.mem_filter, hmem, hs.searched]
  rw [← hs.numbers useUid]
  refine List.Perm.trans ?_ (hperm.filterMap _)
  rw [numbersIn_eq_messagesIn]

theorem Heap.SameContent.numbersIn {h h' : Heap} (hs : SameContent h h') (useUid : Bool)
    (F : Forest Ptr) : Thread.numbersIn h' useUid F = Thread.numbersIn h useUid F :=
  List.filterMap_congr fun p _ => hs.number useUid p

/-- REFERENCES arranges all searched messages under the virtual root. -/
theorem arrange_references {s : LoadState} {loaded : List (Nat × Message)} (hs : LoadInv s loaded)
    (useUid : Bool) : ∃ h F, Returns (fun n => arrange n .references s) h ∧ Rooted h F ∧
      (numbersIn h useUid F).Perm (loaded.map fun e => numberOf useUid e.1 e.2) := by
  obtain ⟨F₁, hF₁, hmem, hsame₁, hpar₁⟩ := attachRoots_rooted hs
  obtain ⟨h₂, F₂, hret₂, hF₂, hsame₂, hpar₂, hsub, hmsg⟩ := prune_spec hF₁
  obtain ⟨h₃, F₃, hret₃, hF₃, hsame₃, hpar₃, hperm₃⟩ :=
    sortChildrenRecursively_spec hF₂ (hpar₂.trans hpar₁)
  have hsame : SameContent s.heap h₃ := (hsame₁.trans hsame₂).trans hsame₃
  have hown : ∀ p ∈ nodes F₃, h₃.Owned p := by
    intro p hp
    rw [hsame.owned, ← hmem]
    exact hsub.subset (hperm₃.mem_iff.mp hp)
  obtain ⟨h₄, F₄, hret₄, hF₄, hpar₄, hperm₄⟩ := groupBySubject_spec hF₃ hpar₃ hown useUid
  obtain ⟨h₅, F₅, hret₅, hF₅, hsame₅, -, hperm₅⟩ := sortChildrenRecursively_spec hF₄ hpar₄
  refine ⟨h₅, F₅, ?_, hF₅, ?_⟩
  · have hgroup : Returns (fun n => (groupBySubject h₃).bind fun h =>
        sortChildrenRecursively n h .virtualRoot) h₅ :=
      hret₅.congr' fun n => by rw [hret₄]; rfl
    exact hret₂.bind' (g := fun n h => (sortChildrenRecursively n h .virtualRoot).bind fun h =>
      (groupBySubject h).bind fun h => sortChildrenRecursively n h .virtualRoot)
      (hret₃.bind' (g := fun n h => (groupBySubject h).bind fun h =>
        sortChildrenRecursively n h .virtualRoot) hgroup)
  · calc (numbersIn h₅ useUid F₅).Perm (numbersIn h₄ useUid F₄) := by
          rw [hsame₅.numbersIn]
          exact hperm₅.filterMap _
      _ |>.Perm (numbersIn h₃ useUid F₃) := hperm₄
      _ |>.Perm (numbersIn s.heap useUid F₂) := by
          rw [hsame.numbersIn]
          exact hperm₃.filterMap _
      _ |>.Perm (numbersIn s.heap useUid F₁) := by
          rw [hsame₁.messagesIn, hsame₁.messagesIn] at hmsg
          rw [numbersIn_eq_messagesIn, numbersIn_eq_messagesIn, hmsg]
      _ |>.Perm (loaded.map fun e => numberOf useUid e.1 e.2) :=
          hs.numbersIn_perm useUid hF₁.nodup hmem

/-- ORDEREDSUBJECT arranges all searched messages under the virtual root. -/
theorem arrange_orderedSubject {s : LoadState} {loaded : List (Nat × Message)}
    (hs : LoadInv s loaded)
    (halone : ∀ p, (s.heap.cell p).parent = none ∧ (s.heap.cell p).children = []) (useUid : Bool) :
    ∃ h F, Returns (fun n => arrange n .orderedSubject s) h ∧ Rooted h F ∧
      (numbersIn h useUid F).Perm (loaded.map fun e => numberOf useUid e.1 e.2) := by
  have hv : Ptr.virtualRoot ∉ s.searchedContainers := by
    intro hx
    exact s.heap.not_owned_virtualRoot ((hs.searched _).mp hx).1
  obtain ⟨F, hF, hsame, hperm⟩ := orderBySubject_spec hs.nodup hv halone
  refine ⟨_, F, Returns.pure' _, hF, ?_⟩
  rw [hsame.numbersIn, ← hs.numbers useUid]
  exact hperm.filterMap _

/-- THREAD loses and invents nothing. For every list of searched messages, both
algorithms and both numberings, `BuildThreads` returns; it completes unless it
was asked to stop in front of some message, and then the numbers in the response
are the numbers of the searched messages, each as often as it was searched. -/
theorem buildThreads_numbers (env : Environment) (messages : List (Nat × Message)) (useUid : Bool)
    (algorithm : Algorithm) (abortRequested : Nat → Bool) :
    ∃ completed response,
      Returns (fun fuel => buildThreads fuel env messages useUid algorithm abortRequested)
        (completed, response) ∧
      (completed = true ↔ ∀ i < messages.length, abortRequested i = false) ∧
      (completed = true →
        (numbersOf response).Perm (messages.map fun e => numberOf useUid e.1 e.2)) := by
  by_cases hempty : messages = []
  · subst hempty
    exact ⟨true, [], Returns.pure' _, by simp, fun _ => .refl _⟩
  · have hne : messages.isEmpty = false := by simpa using hempty
    cases hload : loadMessages env algorithm abortRequested 0 .initial messages with
    | none =>
      refine ⟨false, [], (Returns.pure' (false, [])).congr' fun n => ?_, ?_, by simp⟩
      · rw [buildThreads, hne, hload]
        rfl
      · obtain ⟨i, hi, hab⟩ := (loadMessages_eq_none _ _ _ _ _ _).mp hload
        rw [Nat.zero_add] at hab
        refine iff_of_false (by simp) fun hall => ?_
        rw [hall i hi] at hab
        cases hab
    | some s =>
      have hs := loadMessages_inv env algorithm abortRequested messages 0 _ [] initial_inv s hload
      rw [List.nil_append] at hs
      obtain ⟨h, F, hret, hF, hperm⟩ : ∃ h F, Returns (fun n => arrange n algorithm s) h ∧
          Rooted h F ∧
          (numbersIn h useUid F).Perm (messages.map fun e => numberOf useUid e.1 e.2) := by
        cases algorithm with
        | references => exact arrange_references hs useUid
        | orderedSubject =>
          exact arrange_orderedSubject hs
            (loadMessages_unlinked env abortRequested messages 0 _ s (fun _ => ⟨rfl, rfl⟩) hload) useUid
      obtain ⟨response, hrender, hnum⟩ := renderRoots_spec hF useUid
      refine ⟨true, response, ?_, ?_, fun _ => by rw [hnum]; exact hperm⟩
      · refine (hret.bind' (g := fun n h => (renderRoots h useUid n).map fun r => (true, r))
          (hrender.map' _)).congr' fun n => ?_
        rw [buildThreads, hne, hload]
        show ((arrange n algorithm s).bind fun h => (renderRoots h useUid n).bind fun r =>
          some (true, r)) = _
        simp only [Option.map_eq_bind]
        rfl
      · refine iff_of_true rfl fun i hi => ?_
        by_contra hab
        have hnone := (loadMessages_eq_none env algorithm abortRequested messages 0 .initial).mpr
          ⟨i, hi, by simpa using hab⟩
        rw [hload] at hnone
        cases hnone

end HMailServer.Thread
