import HMailServer.Imap.SequenceSet
import Mathlib

/- Which messages a sequence set reaches. Every member of the set takes what it
   names, less what it misses, and what it takes wrongly (`SeqPart.Missed`,
   `SeqPart.Extra`): a UID range up to `*` that begins above the largest UID loses
   the last message, and numbers from 2^31 on do not fit the `int` they are read
   into. `resolveTargets_named` tells from this when a set is resolved right. -/
namespace HMailServer
open SequenceDeletion

/-! ## What a member misses and takes wrongly -/

def intMax : Nat := 2147483647

/-- Messages the member names and the server does not find. -/
def SeqPart.Missed (runtime : CRuntime) (isUid : Bool) (top u : Nat) : SeqPart → Prop
  | .one (.number n _) => (runtime = .windows ∨ isUid = false) ∧ intMax < n ∧ u = n
  | .range (.number a _) (.number b _) =>
    match runtime, isUid with
    | .windows, _ => intMax < u ∧ min a b ≤ u ∧ u ≤ max a b
    | .posix, true => False
    | .posix, false => min a b ≤ intMax ∧ intMax < max a b ∧ min a b < u ∧ u ≤ max a b
  | .range (.number a _) .star =>
    isUid = true ∧ u = top ∧ top < a ∧ (runtime = .windows → top < intMax)
  | _ => False

/-- Messages the server takes and the member does not name. -/
def SeqPart.Extra (runtime : CRuntime) (isUid : Bool) (top u : Nat) : SeqPart → Prop
  | .one (.number n _) => runtime = .windows ∧ intMax < n ∧ u = intMax
  | .range (.number a _) (.number b _) =>
    match runtime, isUid with
    | .windows, _ => intMax < min a b ∧ u = intMax
    | .posix, true => False
    | .posix, false =>
      intMax < min a b ∧ ¬(min a b ≤ u ∧ u ≤ max a b) ∨ min a b ≤ intMax ∧ intMax < max a b ∧ u < min a b
  | .range (.number a _) .star | .range .star (.number a _) =>
    match runtime, isUid with
    | .windows, _ => intMax ≤ u ∧ u < min a top
    | .posix, true => False
    | .posix, false => intMax < a ∧ u < min a top
  | _ => False

/-- Messages the server takes. -/
def SeqPart.Taken (runtime : CRuntime) (isUid : Bool) (top u : Nat) (part : SeqPart) : Prop :=
  part.Names top u ∧ ¬part.Missed runtime isUid top u ∨ part.Extra runtime isUid top u

theorem SeqPart.Missed.names {runtime : CRuntime} {isUid : Bool} {top u : Nat} {part : SeqPart}
    (h : part.Missed runtime isUid top u) : part.Names top u := by
  match part, runtime, isUid, h with
  | .one (.number n _), _, _, h => exact h.2.2
  | .range (.number a _) (.number b _), .windows, _, h => exact h.2
  | .range (.number a _) (.number b _), .posix, false, h =>
    show min a b ≤ u ∧ u ≤ max a b
    exact ⟨Nat.le_of_lt h.2.2.1, h.2.2.2⟩
  | .range (.number a _) .star, _, _, h =>
    show min a top ≤ u ∧ u ≤ max a top
    rw [h.2.1]
    omega

/-! ## The text of a set -/

theorem text_digit {n : Nat} {valid : 0 < n ∧ n < 4294967296} :
    ∀ c : Nat, c ∈ (SeqNumber.number n valid).text → 48 ≤ c ∧ c ≤ 57 := by
  intro c hc
  obtain ⟨d, hd, rfl⟩ := List.mem_map.1 hc
  have hdigit := Nat.isDigit_of_mem_toDigits (by decide) (by decide) hd
  simpa [Char.isDigit, UInt32.le_iff_toNat_le] using hdigit

theorem text_ne_nil (x : SeqNumber) : x.text ≠ [] := by
  cases x with
  | number n valid =>
    show (Nat.toDigits 10 n).map Char.toNat ≠ []
    simp [Nat.toDigits_ne_nil]
  | star => exact List.cons_ne_nil _ _

/-- Neither a comma nor a colon stands in a number. -/
theorem text_plain (x : SeqNumber) : 44 ∉ x.text ∧ 58 ∉ x.text := by
  cases x with
  | number n valid =>
    constructor
    · intro h
      have := text_digit _ h
      omega
    · intro h
      have := text_digit _ h
      omega
  | star => decide

theorem text_star (x : SeqNumber) : (x.text == wide "*") = true ↔ x = .star := by
  cases x with
  | number n valid =>
    rw [beq_iff_eq]
    constructor
    · intro h
      have := @text_digit n valid 42 (by rw [h]; decide)
      omega
    · intro h
      cases h
  | star => simp [SeqNumber.text]

theorem digitsValue_text (n : Nat) (valid : 0 < n ∧ n < 4294967296) :
    WString.digitsValue (SeqNumber.number n valid).text = n := by
  unfold WString.digitsValue
  rw [List.takeWhile_eq_self_iff.2 fun c hc => by simpa using text_digit c hc]
  unfold SeqNumber.text
  rw [List.foldl_map]
  exact Nat.ofDigitChars_ten_toDigits

/-- The text of a number is read as the number, held at the end of the range. -/
theorem ttoi_text (bits n : Nat) (valid : 0 < n ∧ n < 4294967296) :
    WString.ttoi bits (SeqNumber.number n valid).text =
      max (-(2 : Int) ^ (bits - 1)) (min (n : Int) ((2 : Int) ^ (bits - 1) - 1)) := by
  obtain ⟨c, rest, hcons⟩ := List.exists_cons_of_ne_nil (text_ne_nil (.number n valid))
  have hc := @text_digit n valid c (by rw [hcons]; exact List.mem_cons_self)
  have hvalue := digitsValue_text n valid
  rw [hcons] at hvalue ⊢
  unfold WString.ttoi
  have hplain : ∀ d : Nat, 48 ≤ d ∧ d ≤ 57 → ¬decide (d = 32 ∨ 9 ≤ d ∧ d ≤ 13) = true := by
    intro d hd
    rw [decide_eq_true_eq]
    omega
  have hdrop : (c :: rest).dropWhile (fun c => decide (c = 32 ∨ 9 ≤ c ∧ c ≤ 13)) = c :: rest :=
    List.dropWhile_cons_of_neg (hplain c hc)
  rw [hdrop]
  dsimp only
  split
  · rename_i heq
    cases heq
    omega
  · rename_i heq
    cases heq
    omega
  · rw [hvalue]

theorem windows_ttoi (n : Nat) (valid : 0 < n ∧ n < 4294967296) :
    CRuntime.windows.ttoi (SeqNumber.number n valid).text = (min n intMax : Nat) := by
  show WString.ttoi 32 _ = _
  rw [ttoi_text]
  unfold intMax
  norm_num

theorem posix_ttoi (n : Nat) (valid : 0 < n ∧ n < 4294967296) :
    CRuntime.posix.ttoi (SeqNumber.number n valid).text =
      if n ≤ intMax then (n : Int) else (n : Int) - 4294967296 := by
  show (WString.ttoi 64 _).bmod 4294967296 = _
  rw [ttoi_text]
  have hheld : max (-(2 : Int) ^ (64 - 1)) (min (n : Int) ((2 : Int) ^ (64 - 1) - 1)) = n := by
    norm_num
    omega
  rw [hheld]
  unfold intMax
  rw [Int.bmod_def]
  split <;> split <;> omega

theorem text_part_ne_nil (part : SeqPart) : part.text ≠ [] := by
  cases part with
  | one x => exact text_ne_nil x
  | range x y => simp [SeqPart.text]

theorem splitString_setText {set : List SeqPart} (hset : set ≠ []) :
    WString.splitString (setText set) 44 = set.map SeqPart.text := by
  have hcomma : ∀ t ∈ set.map SeqPart.text, 44 ∉ t := by
    intro t ht
    obtain ⟨part, -, rfl⟩ := List.mem_map.1 ht
    cases part with
    | one x => exact (text_plain x).1
    | range x y =>
      intro h
      rcases List.mem_append.1 h with h | h
      · exact (text_plain x).1 h
      · rcases List.mem_cons.1 h with h | h
        · cases h
        · exact (text_plain y).1 h
  have hsplit : (setText set).splitOn 44 = set.map SeqPart.text :=
    List.splitOn_intercalate 44 hcomma (by simpa using hset)
  unfold WString.splitString
  rw [hsplit, if_neg]
  intro hlast
  obtain ⟨part, -, hnil⟩ := List.mem_map.1 (List.mem_of_getLast? hlast)
  exact text_part_ne_nil part hnil

theorem findFrom_one (x : SeqNumber) : WString.findFrom x.text 58 0 = none := by
  unfold WString.findFrom
  rw [List.drop_zero, Option.map_eq_none_iff, List.findIdx?_eq_none_iff]
  intro c hc
  have := (text_plain x).2
  rw [beq_eq_false_iff_ne]
  rintro rfl
  exact this hc

theorem findFrom_range (x y : SeqNumber) :
    WString.findFrom (x.text ++ 58 :: y.text) 58 0 = some x.text.length := by
  have hnone := findFrom_one x
  unfold WString.findFrom at hnone ⊢
  rw [List.drop_zero, Option.map_eq_none_iff] at hnone
  rw [List.drop_zero, List.findIdx?_append, hnone, List.findIdx?_cons]
  simp

namespace IMAPFolderView

variable {v : IMAPFolderView}

/-! ## Looking up the view -/

/-- The message with this sequence number. -/
def At (v : IMAPFolderView) (sequence : Int) (entry : IMAPViewEntry) (i : Nat) : Prop :=
  sequence = i + 1 ∧ v.entries[i]? = some entry

theorem mem_getEntriesByUIDRange (first last : Nat) (sequence : Int) (entry : IMAPViewEntry) :
    (sequence, entry) ∈ v.getEntriesByUIDRange first last ↔
      ∃ i, v.At sequence entry i ∧ first ≤ entry.uid ∧ entry.uid ≤ last := by
  unfold getEntriesByUIDRange
  rw [List.mem_filterMap]
  constructor
  · rintro ⟨⟨e, i⟩, he, h⟩
    have hget := List.mem_zipIdx_iff_getElem?.1 he
    dsimp only at h hget
    split at h
    · cases h
    · rename_i hrange
      cases h
      exact ⟨i, ⟨rfl, hget⟩, by omega, by omega⟩
  · intro ⟨i, ⟨hseq, hget⟩, hfirst, hlast⟩
    refine ⟨(entry, i), List.mem_zipIdx_iff_getElem?.2 hget, ?_⟩
    dsimp only
    rw [if_neg (by omega), hseq]

theorem mem_getEntryByUID (hv : v.Ordered) (uid : Nat) (sequence : Int) (entry : IMAPViewEntry) :
    (sequence, entry) ∈ (v.getEntryByUID uid).toList ↔ ∃ i, v.At sequence entry i ∧ entry.uid = uid := by
  unfold getEntryByUID
  rw [Option.mem_toList, List.findSome?_eq_some_iff]
  constructor
  · rintro ⟨before, ⟨e, i⟩, behind, hsplit, h, -⟩
    have hmem : (e, i) ∈ v.entries.zipIdx := by
      rw [hsplit]
      simp
    have hget := List.mem_zipIdx_iff_getElem?.1 hmem
    dsimp only at h hget
    split at h
    · rename_i huid
      cases h
      exact ⟨i, ⟨rfl, hget⟩, huid⟩
    · cases h
  · intro ⟨i, ⟨hseq, hget⟩, huid⟩
    have hi : i < v.entries.length := (List.getElem?_eq_some_iff.1 hget).1
    have hlen : i < v.entries.zipIdx.length := by simpa using hi
    have hentry : v.entries.zipIdx[i] = (entry, i) := by
      rw [List.getElem_zipIdx, (List.getElem?_eq_some_iff.1 hget).2, Nat.zero_add]
    refine ⟨v.entries.zipIdx.take i, (entry, i), v.entries.zipIdx.drop (i + 1), ?_, ?_, ?_⟩
    · rw [← hentry, List.cons_getElem_drop_succ, List.take_append_drop]
    · dsimp only
      rw [if_pos huid, hseq]
    · -- the entries in front have smaller UIDs
      rintro ⟨e, j⟩ hj
      obtain ⟨k, hk, hjk⟩ := List.mem_take_iff_getElem.1 hj
      rw [List.getElem_zipIdx] at hjk
      cases hjk
      have hk : k < i := by omega
      have hlt := List.pairwise_iff_getElem.1 hv.increasing k i (by omega) hi hk
      rw [(List.getElem?_eq_some_iff.1 hget).2] at hlt
      dsimp only
      rw [if_neg (by omega)]

theorem mem_getEntryBySequence (n sequence : Int) (entry : IMAPViewEntry) :
    (sequence, entry) ∈ ((v.getEntryBySequence n).map (n, ·)).toList ↔ ∃ i, v.At sequence entry i ∧ sequence = n := by
  unfold getEntryBySequence
  rw [Option.mem_toList]
  constructor
  · intro h
    split at h
    · cases h
    · rename_i hrange
      obtain ⟨e, he, h⟩ := Option.map_eq_some_iff.1 h
      cases h
      exact ⟨(n - 1).toNat, ⟨by omega, he⟩, rfl⟩
  · intro ⟨i, ⟨hseq, hget⟩, hn⟩
    have hi : i < v.entries.length := (List.getElem?_eq_some_iff.1 hget).1
    rw [if_neg (by omega), show (n - 1).toNat = i by omega, hget, hn]
    rfl

theorem mem_getEntriesBySequenceRange (first last sequence : Int) (entry : IMAPViewEntry) :
    (sequence, entry) ∈ v.getEntriesBySequenceRange first last ↔
      ∃ i, v.At sequence entry i ∧ first ≤ sequence ∧ (last < 0 ∨ sequence ≤ last) := by
  unfold getEntriesBySequenceRange
  dsimp only
  rw [List.mem_filterMap]
  constructor
  · rintro ⟨j, hj, h⟩
    obtain ⟨e, he, h⟩ := Option.map_eq_some_iff.1 h
    cases h
    rw [List.mem_range] at hj
    refine ⟨_, ⟨?_, he⟩, ?_⟩
    · split <;> omega
    · split_ifs at hj ⊢ <;> omega
  · intro ⟨i, ⟨hseq, hget⟩, hfirst, hlast⟩
    have hi : i < v.entries.length := (List.getElem?_eq_some_iff.1 hget).1
    by_cases hsmall : first < 1
    · refine ⟨i, ?_, ?_⟩
      · rw [List.mem_range]
        split_ifs <;> omega
      · rw [if_pos hsmall, show (1 + (i : Int) - 1).toNat = i by omega, hget, hseq]
        simp [Int.add_comm]
    · refine ⟨(sequence - first).toNat, ?_, ?_⟩
      · rw [List.mem_range]
        split_ifs <;> omega
      · rw [if_neg hsmall, show (first + ((sequence - first).toNat : Int) - 1).toNat = i by omega, hget]
        simp
        omega

/-! ## The star -/

theorem uid_le_top (hv : v.Ordered) {entry : IMAPViewEntry} {i : Nat} (h : v.entries[i]? = some entry) :
    entry.uid ≤ v.getHighestUID := by
  have hi : i < v.entries.length := (List.getElem?_eq_some_iff.1 h).1
  unfold getHighestUID
  rw [List.getLast?_eq_getElem?, List.getElem?_eq_getElem (by omega), Option.elim_some]
  rw [← (List.getElem?_eq_some_iff.1 h).2]
  obtain hlast | hlast : i = v.entries.length - 1 ∨ i < v.entries.length - 1 := by omega
  · subst hlast
    exact Nat.le_refl _
  · exact Nat.le_of_lt (List.pairwise_iff_getElem.1 hv.increasing i _ hi (by omega) hlast)

theorem top_uid (hv : v.Ordered) : v.top true = v.getHighestUID := by
  unfold top getHighestUID
  rw [if_pos rfl]
  cases hlast : v.entries.getLast? with
  | none =>
    rw [List.getLast?_eq_none_iff.1 hlast]
    rfl
  | some last =>
    have hmax : (v.entries.map IMAPViewEntry.uid).max? = some last.uid := by
      rw [List.max?_eq_some_iff]
      refine ⟨List.mem_map.2 ⟨last, List.mem_of_getLast? hlast, rfl⟩, ?_⟩
      intro uid huid
      obtain ⟨entry, hentry, rfl⟩ := List.mem_map.1 huid
      obtain ⟨i, hi⟩ := List.mem_iff_getElem?.1 hentry
      have hle := uid_le_top hv hi
      unfold getHighestUID at hle
      rwa [hlast] at hle
    rw [hmax]
    rfl

theorem highest_pos (hv : v.Ordered) {entry : IMAPViewEntry} {i : Nat} (h : v.entries[i]? = some entry) :
    0 < v.getHighestUID := by
  have hle := uid_le_top hv h
  have hpos := (hv.valid entry (List.mem_of_getElem? h)).1
  omega

theorem highest_valid (hv : v.Ordered) : v.getHighestUID < 4294967296 := by
  unfold getHighestUID
  cases hlast : v.entries.getLast? with
  | none => show (0 : Nat) < _; omega
  | some entry => exact (hv.valid entry (List.mem_of_getLast? hlast)).2

/-! ## One member of a set -/

/-- What a member takes of the view. -/
def TakenFrom (v : IMAPFolderView) (runtime : CRuntime) (isUid : Bool) (part : SeqPart)
    (targets : List (Int × IMAPViewEntry)) : Prop :=
  ∀ sequence entry, (sequence, entry) ∈ targets ↔
    ∃ i, v.At sequence entry i ∧ part.Taken runtime isUid (v.top isUid) (address isUid i entry)

theorem unsigned_windows (n : Nat) (valid : 0 < n ∧ n < 4294967296) :
    unsigned (CRuntime.windows.ttoi (SeqNumber.number n valid).text) = min n intMax := by
  rw [windows_ttoi]
  unfold unsigned intMax
  omega

theorem unsigned_posix (n : Nat) (valid : 0 < n ∧ n < 4294967296) :
    unsigned (CRuntime.posix.ttoi (SeqNumber.number n valid).text) = n := by
  rw [posix_ttoi]
  unfold unsigned intMax
  split <;> omega

/-- What a number of a UID command is read as. -/
def readUid (runtime : CRuntime) (n : Nat) : Nat :=
  match runtime with
  | .windows => min n intMax
  | .posix => n

theorem unsigned_ttoi (runtime : CRuntime) (n : Nat) (valid : 0 < n ∧ n < 4294967296) :
    unsigned (runtime.ttoi (SeqNumber.number n valid).text) = readUid runtime n := by
  cases runtime with
  | windows => exact unsigned_windows n valid
  | posix => exact unsigned_posix n valid

theorem number_not_star (n : Nat) (valid : 0 < n ∧ n < 4294967296) :
    ((SeqNumber.number n valid).text == wide "*") = false := by
  rw [← Bool.not_eq_true, text_star]
  intro h
  cases h

theorem star_star : (SeqNumber.star.text == wide "*") = true := (text_star _).2 rfl

/-- A range of UIDs, read from `a` to `b` in either order. -/
theorem mem_uids (a b : Nat) (sequence : Int) (entry : IMAPViewEntry) :
    (sequence, entry) ∈ (if b < a then v.getEntriesByUIDRange b a else v.getEntriesByUIDRange a b) ↔
      ∃ i, v.At sequence entry i ∧ min a b ≤ entry.uid ∧ entry.uid ≤ max a b := by
  split
  · rw [mem_getEntriesByUIDRange, Nat.min_eq_right (by omega), Nat.max_eq_left (by omega)]
  · rw [mem_getEntriesByUIDRange, Nat.min_eq_left (by omega), Nat.max_eq_right (by omega)]

theorem uids_one (hv : v.Ordered) (runtime : CRuntime) (x : SeqNumber) :
    v.TakenFrom runtime true (.one x) (v.resolveUIDs runtime x.text x.text x.text false) := by
  intro sequence entry
  unfold resolveUIDs
  rw [top_uid hv]
  cases x with
  | number n valid =>
    simp only [number_not_star, Bool.or_self, Bool.false_and, Bool.false_eq_true, if_false]
    rw [unsigned_ttoi]
    have hread : readUid runtime n ≠ 0 := by
      unfold readUid intMax
      cases runtime <;> dsimp only <;> omega
    rw [if_neg hread, mem_getEntryByUID hv]
    apply exists_congr
    intro i
    apply and_congr_right
    intro _
    unfold SeqPart.Taken SeqPart.Names SeqPart.Missed SeqPart.Extra readUid address SeqNumber.value
    cases runtime with
    | windows => simp; omega
    | posix => simp
  | star =>
    simp only [star_star, Bool.or_self, Bool.true_and, beq_iff_eq, if_true, Bool.false_eq_true, if_false]
    by_cases hempty : v.getHighestUID = 0
    · rw [if_pos hempty]
      constructor
      · intro h
        cases h
      · intro ⟨i, hat, _⟩
        have := highest_pos hv hat.2
        omega
    · rw [if_neg hempty, if_neg hempty, mem_getEntryByUID hv]
      apply exists_congr
      intro i
      apply and_congr_right
      intro _
      unfold SeqPart.Taken SeqPart.Names SeqPart.Missed SeqPart.Extra address SeqNumber.value
      simp

theorem uids_range (hv : v.Ordered) (runtime : CRuntime) (sCur : WString) (x y : SeqNumber) :
    v.TakenFrom runtime true (.range x y) (v.resolveUIDs runtime sCur x.text y.text true) := by
  intro sequence entry
  unfold resolveUIDs
  rw [top_uid hv]
  have htop := highest_valid hv
  -- no star meets an empty view
  have hstar : ∀ targets : List (Int × IMAPViewEntry),
      ((sequence, entry) ∈ targets ↔ ∃ i, v.At sequence entry i ∧
        (SeqPart.range x y).Taken runtime true v.getHighestUID (address true i entry)) →
      ((sequence, entry) ∈ (if v.getHighestUID = 0 then [] else targets) ↔ ∃ i, v.At sequence entry i ∧
        (SeqPart.range x y).Taken runtime true v.getHighestUID (address true i entry)) := by
    intro targets h
    split
    · rename_i hempty
      constructor
      · intro hmem
        cases hmem
      · intro ⟨i, hat, _⟩
        have := highest_pos hv hat.2
        omega
    · exact h
  cases x with
  | number a hva =>
    cases y with
    | number b hvb =>
      simp only [number_not_star, Bool.or_self, Bool.false_and, Bool.false_eq_true, if_false, if_true]
      rw [unsigned_ttoi, unsigned_ttoi, mem_uids]
      apply exists_congr
      intro i
      apply and_congr_right
      intro _
      unfold SeqPart.Taken SeqPart.Names SeqPart.Missed SeqPart.Extra readUid address SeqNumber.value intMax
      cases runtime with
      | windows => simp only [if_true]; omega
      | posix => simp
    | star =>
      simp only [number_not_star, star_star, Bool.or_true, Bool.true_and, beq_iff_eq, Bool.false_eq_true, if_false,
        if_true]
      apply hstar
      rw [unsigned_ttoi, mem_uids]
      apply exists_congr
      intro i
      apply and_congr_right
      intro hat
      have hle := uid_le_top hv hat.2
      unfold SeqPart.Taken SeqPart.Names SeqPart.Missed SeqPart.Extra readUid address SeqNumber.value intMax
      cases runtime with
      | windows => simp only [if_true, true_and, forall_const]; omega
      | posix => simp only [if_true, true_and, reduceCtorEq, false_implies, and_true, or_false]; omega
  | star =>
    cases y with
    | number b hvb =>
      simp only [number_not_star, star_star, Bool.or_false, Bool.true_and, beq_iff_eq, Bool.false_eq_true, if_false,
        if_true]
      apply hstar
      rw [unsigned_ttoi, mem_uids]
      apply exists_congr
      intro i
      apply and_congr_right
      intro hat
      have hle := uid_le_top hv hat.2
      unfold SeqPart.Taken SeqPart.Names SeqPart.Missed SeqPart.Extra readUid address SeqNumber.value intMax
      cases runtime with
      | windows => simp only [if_true, not_false_iff, and_true]; omega
      | posix => simp
    | star =>
      simp only [star_star, Bool.or_self, Bool.true_and, beq_iff_eq, if_true]
      apply hstar
      rw [mem_uids]
      apply exists_congr
      intro i
      apply and_congr_right
      intro hat
      have hle := uid_le_top hv hat.2
      unfold SeqPart.Taken SeqPart.Names SeqPart.Missed SeqPart.Extra address SeqNumber.value
      simp only [if_true, not_false_iff, and_true, or_false]
      omega

/-- What a number of a sequence-number command is read as. -/
def readIndex (runtime : CRuntime) (n : Nat) : Int :=
  match runtime with
  | .windows => (min n intMax : Nat)
  | .posix => if n ≤ intMax then (n : Int) else (n : Int) - 4294967296

theorem ttoi_number (runtime : CRuntime) (n : Nat) (valid : 0 < n ∧ n < 4294967296) :
    runtime.ttoi (SeqNumber.number n valid).text = readIndex runtime n := by
  cases runtime with
  | windows => exact windows_ttoi n valid
  | posix => exact posix_ttoi n valid

theorem mem_sequences (a b sequence : Int) (entry : IMAPViewEntry) :
    (sequence, entry) ∈
        (if b < a then v.getEntriesBySequenceRange b a else v.getEntriesBySequenceRange a b) ↔
      ∃ i, v.At sequence entry i ∧ min a b ≤ sequence ∧ (max a b < 0 ∨ sequence ≤ max a b) := by
  split
  · rw [mem_getEntriesBySequenceRange, Int.min_eq_right (by omega), Int.max_eq_left (by omega)]
  · rw [mem_getEntriesBySequenceRange, Int.min_eq_left (by omega), Int.max_eq_right (by omega)]

theorem top_sequence : v.top false = v.entries.length := rfl

theorem At.le_count {sequence : Int} {entry : IMAPViewEntry} {i : Nat} (h : v.At sequence entry i) :
    i + 1 ≤ v.entries.length := (List.getElem?_eq_some_iff.1 h.2).1

theorem sequences_one (runtime : CRuntime) (x : SeqNumber) :
    v.TakenFrom runtime false (.one x) (v.resolveSequences runtime x.text x.text x.text false) := by
  intro sequence entry
  unfold resolveSequences
  rw [top_sequence]
  have hpos : ∀ n : Int, ((sequence, entry) ∈ (if n ≤ 0 then [] else ((v.getEntryBySequence n).map (n, ·)).toList) ↔
      ∃ i, v.At sequence entry i ∧ sequence = n) := by
    intro n
    split
    · constructor
      · intro h
        cases h
      · intro ⟨i, hat, hn⟩
        have := hat.1
        omega
    · exact mem_getEntryBySequence n sequence entry
  cases x with
  | number n valid =>
    simp only [number_not_star, Bool.false_eq_true, if_false]
    rw [ttoi_number, hpos]
    apply exists_congr
    intro i
    apply and_congr_right
    intro hat
    have hseq := hat.1
    unfold SeqPart.Taken SeqPart.Names SeqPart.Missed SeqPart.Extra readIndex address SeqNumber.value intMax
    cases runtime with
    | windows => simp only [Bool.false_eq_true, if_false, true_or, true_and]; omega
    | posix => simp only [Bool.false_eq_true, if_false, or_true, true_and, reduceCtorEq, false_and, or_false]; omega
  | star =>
    simp only [star_star, Bool.false_eq_true, if_false, if_true]
    rw [hpos]
    apply exists_congr
    intro i
    apply and_congr_right
    intro hat
    have hseq := hat.1
    unfold SeqPart.Taken SeqPart.Names SeqPart.Missed SeqPart.Extra address SeqNumber.value getMessageCount
    simp only [Bool.false_eq_true, if_false, not_false_iff, and_true, or_false]
    omega

theorem sequences_range (runtime : CRuntime) (sCur : WString) (x y : SeqNumber) :
    v.TakenFrom runtime false (.range x y) (v.resolveSequences runtime sCur x.text y.text true) := by
  intro sequence entry
  unfold resolveSequences
  rw [top_sequence]
  cases x with
  | number a hva =>
    cases y with
    | number b hvb =>
      simp only [number_not_star, Bool.false_eq_true, if_false, if_true]
      rw [ttoi_number, ttoi_number, mem_sequences]
      apply exists_congr
      intro i
      apply and_congr_right
      intro hat
      have hseq := hat.1
      unfold SeqPart.Taken SeqPart.Names SeqPart.Missed SeqPart.Extra readIndex address SeqNumber.value intMax
      cases runtime with
      | windows => simp only [Bool.false_eq_true, if_false]; omega
      | posix => simp only [Bool.false_eq_true, if_false]; split <;> split <;> omega
    | star =>
      simp only [number_not_star, star_star, Bool.false_eq_true, if_false, if_true]
      rw [ttoi_number, mem_sequences]
      apply exists_congr
      intro i
      apply and_congr_right
      intro hat
      have hseq := hat.1
      have hcount := hat.le_count
      unfold SeqPart.Taken SeqPart.Names SeqPart.Missed SeqPart.Extra readIndex address SeqNumber.value intMax
        getMessageCount
      cases runtime with
      | windows => simp only [Bool.false_eq_true, if_false, false_and, not_false_iff, and_true]; omega
      | posix =>
        simp only [Bool.false_eq_true, if_false, false_and, not_false_iff, and_true]
        split <;> omega
  | star =>
    cases y with
    | number b hvb =>
      simp only [number_not_star, star_star, Bool.false_eq_true, if_false, if_true]
      rw [ttoi_number, mem_sequences]
      apply exists_congr
      intro i
      apply and_congr_right
      intro hat
      have hseq := hat.1
      have hcount := hat.le_count
      unfold SeqPart.Taken SeqPart.Names SeqPart.Missed SeqPart.Extra readIndex address SeqNumber.value intMax
        getMessageCount
      cases runtime with
      | windows => simp only [Bool.false_eq_true, if_false, not_false_iff, and_true]; omega
      | posix =>
        simp only [Bool.false_eq_true, if_false, not_false_iff, and_true]
        split <;> omega
    | star =>
      simp only [star_star, if_true]
      rw [mem_sequences]
      apply exists_congr
      intro i
      apply and_congr_right
      intro hat
      have hseq := hat.1
      have hcount := hat.le_count
      unfold SeqPart.Taken SeqPart.Names SeqPart.Missed SeqPart.Extra address SeqNumber.value getMessageCount
      simp only [Bool.false_eq_true, if_false, not_false_iff, and_true, or_false]
      omega

/-! ## The whole set -/

/-- Every message that is misread by a member is made good by another: one that is
missed is taken after all, and one that is taken wrongly is named after all. -/
def MadeGood (v : IMAPFolderView) (runtime : CRuntime) (isUid : Bool) (set : List SeqPart) : Prop :=
  ∀ i entry, v.entries[i]? = some entry → ∀ part ∈ set,
    (part.Missed runtime isUid (v.top isUid) (address isUid i entry) →
      ∃ other ∈ set, other.Taken runtime isUid (v.top isUid) (address isUid i entry)) ∧
    (part.Extra runtime isUid (v.top isUid) (address isUid i entry) →
      ∃ other ∈ set, other.Names (v.top isUid) (address isUid i entry))

theorem mem_resolveTargets (hv : v.Ordered) (runtime : CRuntime) (isUid : Bool) {set : List SeqPart} (hset : set ≠ [])
    (sequence : Int) (entry : IMAPViewEntry) :
    (sequence, entry) ∈ v.resolveTargets runtime isUid (setText set) ↔
      ∃ i, v.At sequence entry i ∧
        ∃ part ∈ set, part.Taken runtime isUid (v.top isUid) (address isUid i entry) := by
  have hpart : ∀ part : SeqPart, v.TakenFrom runtime isUid part
      (let colon := WString.findFrom part.text 58 0
      let sFirstPart := colon.elim part.text fun lColonPos => part.text.take lColonPos
      let sSecondPart := colon.elim part.text fun lColonPos => part.text.drop (lColonPos + 1)
      if isUid then v.resolveUIDs runtime part.text sFirstPart sSecondPart colon.isSome
      else v.resolveSequences runtime part.text sFirstPart sSecondPart colon.isSome) := by
    intro part
    cases part with
    | one x =>
      dsimp only [SeqPart.text]
      rw [findFrom_one]
      cases isUid with
      | true => exact uids_one hv runtime x
      | false => exact sequences_one runtime x
    | range x y =>
      dsimp only [SeqPart.text]
      rw [findFrom_range]
      dsimp only [Option.elim_some, Option.isSome_some]
      rw [List.take_left, show (x.text ++ 58 :: y.text).drop (x.text.length + 1) = y.text by simp]
      cases isUid with
      | true => exact uids_range hv runtime (x.text ++ 58 :: y.text) x y
      | false => exact sequences_range runtime (x.text ++ 58 :: y.text) x y
  unfold resolveTargets
  rw [splitString_setText hset, List.mem_flatMap]
  constructor
  · intro ⟨t, ht, hmem⟩
    obtain ⟨part, hpartmem, rfl⟩ := List.mem_map.1 ht
    obtain ⟨i, hat, htaken⟩ := (hpart part sequence entry).1 hmem
    exact ⟨i, hat, part, hpartmem, htaken⟩
  · intro ⟨i, hat, part, hpartmem, htaken⟩
    exact ⟨part.text, List.mem_map.2 ⟨part, hpartmem, rfl⟩, (hpart part sequence entry).2 ⟨i, hat, htaken⟩⟩

/-- A set is resolved to the messages it names, each with its own sequence number,
exactly where what its members misread is made good. -/
theorem resolveTargets_named (hv : v.Ordered) (runtime : CRuntime) (isUid : Bool) (set : List SeqPart) (hset : set ≠ []) :
    v.NamedBy isUid set (v.resolveTargets runtime isUid (setText set)) ↔ v.MadeGood runtime isUid set := by
  constructor
  · intro h i entry hget part hpart
    have hat : v.At (i + 1) entry i := ⟨rfl, hget⟩
    have hsame : (∃ part ∈ set, part.Taken runtime isUid (v.top isUid) (address isUid i entry)) ↔
        ∃ part ∈ set, part.Names (v.top isUid) (address isUid i entry) := by
      have hmem := (mem_resolveTargets hv runtime isUid hset (i + 1) entry).symm.trans (h (i + 1) entry)
      have hi : ∀ j, v.At (i + 1) entry j → j = i := by
        intro j hj
        have := hj.1
        omega
      constructor
      · intro htaken
        obtain ⟨j, hj, hget', hnames⟩ := hmem.1 ⟨i, hat, htaken⟩
        rwa [hi j ⟨hj, hget'⟩] at hnames
      · intro hnames
        obtain ⟨j, hj, htaken⟩ := hmem.2 ⟨i, rfl, hget, hnames⟩
        rwa [hi j hj] at htaken
    exact ⟨fun hmissed => hsame.2 ⟨part, hpart, hmissed.names⟩, fun hextra => hsame.1 ⟨part, hpart, .inr hextra⟩⟩
  · intro hgood sequence entry
    rw [mem_resolveTargets hv runtime isUid hset]
    apply exists_congr
    intro i
    rw [← and_assoc]
    apply and_congr_right
    intro hat
    have hmade := hgood i entry hat.2
    constructor
    · intro ⟨part, hpart, htaken⟩
      rcases htaken with ⟨hnames, _⟩ | hextra
      · exact ⟨part, hpart, hnames⟩
      · exact (hmade part hpart).2 hextra
    · intro ⟨part, hpart, hnames⟩
      by_cases hmissed : part.Missed runtime isUid (v.top isUid) (address isUid i entry)
      · exact (hmade part hpart).1 hmissed
      · exact ⟨part, hpart, .inl ⟨hnames, hmissed⟩⟩

/-- The last message of a mailbox whose only UID is 5, asked for by `1:*,*:7`. -/
theorem resolveTargets_named_last :
    let v : IMAPFolderView := { entries := [⟨1, 5⟩] }
    let set : List SeqPart := [.range (.number 1 (by decide)) .star, .range .star (.number 7 (by decide))]
    v.NamedBy true set (v.resolveTargets .windows true (setText set)) ↔ v.MadeGood .windows true set := by
  intro v set
  have hv : v.Ordered := by
    refine ⟨List.pairwise_singleton _ _, ?_⟩
    intro entry hentry
    rw [List.mem_singleton.1 hentry]
    decide
  exact resolveTargets_named hv .windows true set (List.cons_ne_nil _ _)

/-- `10:*` of that mailbox names its last message, and the server finds none. -/
theorem resolveTargets_loses_last :
    let v : IMAPFolderView := { entries := [⟨1, 5⟩] }
    let set : List SeqPart := [.range (.number 10 (by decide)) .star]
    v.Ordered ∧ setText set = wide "10:*" ∧ v.resolveTargets .windows true (setText set) = [] ∧
      v.resolveTargets .posix true (setText set) = [] ∧ ¬v.NamedBy true set [] := by
  intro v set
  refine ⟨⟨List.pairwise_singleton _ _, ?_⟩, by decide, by decide +kernel, by decide +kernel, ?_⟩
  · intro entry hentry
    rw [List.mem_singleton.1 hentry]
    decide
  · intro h
    have hnamed : ((1 : Int), (⟨1, 5⟩ : IMAPViewEntry)) ∈ ([] : List (Int × IMAPViewEntry)) :=
      (h 1 ⟨1, 5⟩).2 ⟨0, rfl, rfl, _, List.mem_singleton.2 rfl, by decide, by decide⟩
    cases hnamed

/-- Members whose numbers fit an `int`; a UID range up to `*` begins at a UID in use
or below one. -/
def Plain (v : IMAPFolderView) (isUid : Bool) : SeqPart → Prop
  | .one (.number n _) => n ≤ intMax
  | .range (.number a _) (.number b _) => a ≤ intMax ∧ b ≤ intMax
  | .range (.number a _) .star => a ≤ intMax ∧ (isUid = true → a ≤ v.top isUid)
  | .range .star (.number b _) => b ≤ intMax
  | _ => True

/-- Nothing of such a set is misread. -/
theorem madeGood_of_plain (runtime : CRuntime) (isUid : Bool) {set : List SeqPart}
    (h : ∀ part ∈ set, v.Plain isUid part) : v.MadeGood runtime isUid set := by
  intro i entry _ part hpart
  generalize address isUid i entry = u
  have hplain := h part hpart
  have hnone : ¬part.Missed runtime isUid (v.top isUid) u ∧ ¬part.Extra runtime isUid (v.top isUid) u := by
    match part, hplain with
    | .one (.number n _), hplain =>
      have hn : n ≤ intMax := hplain
      exact ⟨fun h => by have := h.2.1; omega, fun h => by have := h.2.1; omega⟩
    | .range (.number a _) (.number b _), hplain =>
      have ha : a ≤ intMax ∧ b ≤ intMax := hplain
      unfold SeqPart.Missed SeqPart.Extra
      cases runtime <;> cases isUid <;> simp only [not_false_iff, true_and] <;> omega
    | .range (.number a _) .star, hplain =>
      have ha : a ≤ intMax ∧ (isUid = true → a ≤ v.top isUid) := hplain
      unfold SeqPart.Missed SeqPart.Extra
      cases runtime <;> cases isUid <;> simp at ha ⊢ <;> omega
    | .range .star (.number b _), hplain =>
      have hb : b ≤ intMax := hplain
      unfold SeqPart.Missed SeqPart.Extra
      cases runtime <;> cases isUid <;> simp only [not_false_iff, true_and] <;> omega
    | .one .star, _ => exact ⟨id, id⟩
    | .range .star .star, _ => exact ⟨id, id⟩
  exact ⟨fun hmissed => absurd hmissed hnone.1, fun hextra => absurd hextra hnone.2⟩

end IMAPFolderView
end HMailServer
