import Mathlib
import HMailServer.Lib.Occurrence
import HMailServer.Sql.ParameterSubstitution
import HMailServer.Util.AnsiString

/- The header and the body of a message file (`LoadHeader` and `LoadBody` of
   `Common/Persistence/PersistentMessage.cpp`). Both read the file in pieces of
   a configured size; the one searches what it has gathered for the empty line,
   the other each piece by itself. -/
namespace HMailServer.Persistence

/-- The two sizes of `IniFileSettings`. -/
structure ReadSizes where
  loadHeaderReadSize : Int := 4000
  loadBodyReadSize : Int := 4000
  deriving DecidableEq, Repr

def readBufferSize : Nat := 50000

/-- A size that is not positive, or larger than the buffer, gives way to the
    buffer's size. -/
def readSize (configured : Int) : Nat :=
  if configured ≤ 0 ∨ configured > readBufferSize then readBufferSize else configured.toNat

/-- A line break, and what ends the header. -/
def lineBreak : AnsiString := [13, 10]
def emptyLine : AnsiString := [13, 10, 13, 10]

/-- What `ReadFile` hands over until the file ends, with `none` for a read that
    fails. -/
abbrev Reads := List (Option AnsiString)

/-- The reads of a file that can be read. -/
def readsFrom (size : Nat) : Nat → AnsiString → Reads
  | 0, _ => []
  | fuel + 1, file => if file = [] then [] else some (file.take size) :: readsFrom size fuel (file.drop size)

def reads (size : Nat) (file : AnsiString) : Reads := readsFrom size file.length file

/-- The loop of `LoadHeader` behind `headerData`. -/
def loadHeaderFrom (headerData : WString) : Reads → WString
  | [] => headerData
  | none :: _ => []
  | some chunk :: rest =>
    let headerData := headerData ++ Sql.widen chunk
    match Occurrence.find (Sql.widen emptyLine) headerData with
    | some headerEnd => headerData.take (headerEnd + 2)
    | none => loadHeaderFrom headerData rest

/-- `PersistentMessage::LoadHeader`, with `none` for a file that cannot be
    opened. -/
def loadHeader (settings : ReadSizes) (reads : Option (Nat → Reads)) : AnsiString :=
  match reads with
  | none => []
  | some reads => Sql.narrow (loadHeaderFrom [] (reads (readSize settings.loadHeaderReadSize)))

/-- The loop of `LoadBody`: `foundHeader`, and `retVal` so far. -/
def loadBodyFrom : Bool → AnsiString → Reads → AnsiString
  | _, retVal, [] => retVal
  | _, _, none :: _ => []
  | true, retVal, some readData :: rest => loadBodyFrom true (retVal ++ readData) rest
  | false, retVal, some readData :: rest =>
    match Occurrence.find emptyLine readData with
    | none => loadBodyFrom false retVal rest
    | some headerEnd =>
      -- The separator counts only when something of the piece is left behind it.
      if headerEnd + 4 < readData.length then loadBodyFrom true (retVal ++ readData.drop (headerEnd + 4)) rest
      else loadBodyFrom false retVal rest

/-- `PersistentMessage::LoadBody`. -/
def loadBody (settings : ReadSizes) (reads : Option (Nat → Reads)) : AnsiString :=
  match reads with
  | none => []
  | some reads => loadBodyFrom false [] (reads (readSize settings.loadBodyReadSize))

/-- A file that is there and can be read. -/
def readable (file : AnsiString) : Option (Nat → Reads) := some fun size => reads size file

/-! ## The pieces -/

theorem readSize_pos (configured : Int) : 0 < readSize configured := by
  rw [readSize]
  split
  · exact Nat.succ_pos _
  · omega

theorem readsFrom_of_le {size fuel : Nat} {file : AnsiString} (hsize : 0 < size) (hfuel : file.length ≤ fuel) :
    readsFrom size fuel file = reads size file := by
  induction fuel using Nat.strong_induction_on generalizing file with
  | _ fuel ih =>
    cases fuel with
    | zero =>
      rw [List.length_eq_zero_iff.1 (Nat.le_zero.1 hfuel)]
      rfl
    | succ fuel =>
      cases file with
      | nil => rfl
      | cons c file =>
        have hrest : ((c :: file).drop size).length ≤ file.length := by
          rw [List.length_drop, List.length_cons]
          omega
        rw [List.length_cons] at hfuel
        rw [reads, List.length_cons, readsFrom, readsFrom, if_neg (List.cons_ne_nil c file),
          if_neg (List.cons_ne_nil c file), ih fuel (Nat.lt_succ_self fuel) (by omega),
          ih file.length (by omega) hrest]

@[simp] theorem reads_nil (size : Nat) : reads size [] = [] := rfl

theorem reads_of_ne_nil {size : Nat} {file : AnsiString} (hsize : 0 < size) (h : file ≠ []) :
    reads size file = some (file.take size) :: reads size (file.drop size) := by
  cases file with
  | nil => exact absurd rfl h
  | cons c file =>
    have hrest : ((c :: file).drop size).length ≤ file.length := by
      rw [List.length_drop, List.length_cons]
      omega
    rw [reads, List.length_cons, readsFrom, if_neg h, readsFrom_of_le hsize hrest]

/-- An induction over the pieces of a file. -/
theorem reads_induction {size : Nat} {P : AnsiString → Prop} (hsize : 0 < size) (hnil : P [])
    (hpiece : ∀ file, file ≠ [] → P (file.drop size) → P file) (file : AnsiString) : P file := by
  induction hn : file.length using Nat.strong_induction_on generalizing file with
  | _ n ih =>
    by_cases h : file = []
    · rw [h]
      exact hnil
    · have hpos := List.length_pos_iff.2 h
      have hrest : (file.drop size).length < n := by
        rw [List.length_drop]
        omega
      exact hpiece file h (ih _ hrest _ rfl)

/-! ## The header -/

theorem widen_prefix_iff (s t : AnsiString) : Sql.widen s <+: Sql.widen t ↔ s <+: t := by
  apply List.prefix_map_iff_of_injective
  intro a b h
  exact UInt8.toNat_inj.1 h

/-- A search reads the same of the widened text. -/
theorem find_widen (sub s : AnsiString) : Occurrence.find (Sql.widen sub) (Sql.widen s) = Occurrence.find sub s := by
  induction s with
  | nil =>
    cases sub with
    | nil => rfl
    | cons c sub => rfl
  | cons c s ih =>
    have hcons : Sql.widen (c :: s) = c.toNat :: Sql.widen s := rfl
    have hhead := widen_prefix_iff sub (c :: s)
    rw [hcons] at hhead
    rw [hcons, Occurrence.find_cons, Occurrence.find_cons, ih]
    simp only [hhead]

theorem narrow_widen (s : AnsiString) : Sql.narrow (Sql.widen s) = s := by
  rw [Sql.narrow, Sql.widen, List.map_map]
  refine (List.map_congr_left fun c _ => ?_).trans (List.map_id s)
  have hlt := c.toNat_lt
  simp only [Function.comp_apply, id_eq]
  rw [if_pos (by omega), UInt8.ofNat_toNat]

/-- The loop has found the separator as soon as the gathered text holds it. -/
theorem loadHeaderFrom_reads {size : Nat} (hsize : 0 < size) {headerEnd : Nat} (rest : AnsiString) :
    ∀ headerData : AnsiString, Occurrence.find emptyLine headerData = none →
      Occurrence.find emptyLine (headerData ++ rest) = some headerEnd →
      loadHeaderFrom (Sql.widen headerData) (reads size rest) = Sql.widen ((headerData ++ rest).take (headerEnd + 2)) := by
  induction rest using reads_induction hsize with
  | hnil =>
    intro headerData hnone hfind
    rw [List.append_nil, hnone] at hfind
    exact absurd hfind nofun
  | hpiece rest hne ih =>
    intro headerData hnone hfind
    have hpieces : headerData ++ rest = (headerData ++ rest.take size) ++ rest.drop size := by
      rw [List.append_assoc, List.take_append_drop]
    rw [reads_of_ne_nil hsize hne, loadHeaderFrom, ← Sql.widen_append, find_widen]
    cases hhere : Occurrence.find emptyLine (headerData ++ rest.take size) with
    | none =>
      rw [hpieces] at hfind
      rw [hpieces]
      exact ih _ hhere hfind
    | some here =>
      have hend : here = headerEnd := by
        have h := Occurrence.find_append (t := rest.drop size) hhere
        rw [← hpieces, hfind] at h
        exact (Option.some.inj h).symm
      have hlength := Occurrence.length_le_of_find hhere
      rw [show emptyLine.length = 4 from rfl] at hlength
      rw [hpieces, ← hend, List.take_append_of_le_length (by omega)]
      exact (List.map_take ..).symm

theorem loadHeader_readable (settings : ReadSizes) {file : AnsiString} {headerEnd : Nat}
    (h : Occurrence.find emptyLine file = some headerEnd) :
    loadHeader settings (readable file) = file.take (headerEnd + 2) := by
  have hloop := loadHeaderFrom_reads (readSize_pos settings.loadHeaderReadSize) file [] rfl h
  have hstart : Sql.widen [] = [] := rfl
  rw [hstart, List.nil_append] at hloop
  change Sql.narrow (loadHeaderFrom [] (reads (readSize settings.loadHeaderReadSize) file)) = _
  rw [hloop, narrow_widen]

/-! ## The body -/

theorem loadBodyFrom_found {size : Nat} (hsize : 0 < size) (file : AnsiString) :
    ∀ retVal, loadBodyFrom true retVal (reads size file) = retVal ++ file := by
  induction file using reads_induction hsize with
  | hnil =>
    intro retVal
    rw [reads_nil, loadBodyFrom, List.append_nil]
  | hpiece file hne ih =>
    intro retVal
    rw [reads_of_ne_nil hsize hne, loadBodyFrom, ih, List.append_assoc, List.take_append_drop]

/-- A search that has not found the separator yet drops at least its four
    octets. -/
theorem loadBodyFrom_length {size : Nat} (hsize : 0 < size) (file : AnsiString) :
    loadBodyFrom false [] (reads size file) = [] ∨
      (loadBodyFrom false [] (reads size file)).length + 4 ≤ file.length := by
  induction file using reads_induction hsize with
  | hnil => exact .inl rfl
  | hpiece file hne ih =>
    have hskip : loadBodyFrom false [] (reads size (file.drop size)) = [] ∨
        (loadBodyFrom false [] (reads size (file.drop size))).length + 4 ≤ file.length := by
      apply ih.imp_right
      intro h
      rw [List.length_drop] at h
      omega
    rw [reads_of_ne_nil hsize hne, loadBodyFrom]
    cases hfind : Occurrence.find emptyLine (file.take size) with
    | none => exact hskip
    | some here =>
      simp only
      split
      · rename_i hleft
        apply Or.inr
        rw [loadBodyFrom_found hsize, List.nil_append, List.length_append, List.length_drop, List.length_drop]
        rw [List.length_take] at hleft ⊢
        omega
      · exact hskip

/-- A piece without the separator is passed over. -/
theorem loadBodyFrom_skip {size : Nat} (hsize : 0 < size) {file : AnsiString} {headerEnd : Nat}
    (h : Occurrence.find emptyLine file = some headerEnd) (hbehind : size ≤ headerEnd) :
    loadBodyFrom false [] (reads size file) = loadBodyFrom false [] (reads size (file.drop size)) := by
  have hlength := Occurrence.length_le_of_find h
  rw [show emptyLine.length = 4 from rfl] at hlength
  have hne : file ≠ [] := by
    intro hnil
    rw [hnil] at hlength
    exact absurd hlength (by simp)
  have hnone : Occurrence.find emptyLine (file.take size) = none := by
    cases hfind : Occurrence.find emptyLine (file.take size) with
    | none => rfl
    | some here =>
      have hfile := Occurrence.find_append (t := file.drop size) hfind
      have hwithin := Occurrence.length_le_of_find hfind
      rw [List.take_append_drop, h] at hfile
      rw [List.length_take, ← Option.some.inj hfile, show emptyLine.length = 4 from rfl] at hwithin
      omega
  rw [reads_of_ne_nil hsize hne, loadBodyFrom, hnone]

/-- The loop finds the body when nothing follows the separator, or when its
    piece goes on behind it. -/
theorem loadBodyFrom_eq_iff {size : Nat} (hsize : 0 < size) (file : AnsiString) :
    ∀ headerEnd, Occurrence.find emptyLine file = some headerEnd →
      (loadBodyFrom false [] (reads size file) = file.drop (headerEnd + 4) ↔
        file.length = headerEnd + 4 ∨ headerEnd % size + 4 < size) := by
  induction file using reads_induction hsize with
  | hnil => exact fun _ h => absurd h nofun
  | hpiece file hne ih =>
    intro headerEnd h
    have hlength := Occurrence.length_le_of_find h
    rw [show emptyLine.length = 4 from rfl] at hlength
    by_cases hbehind : size ≤ headerEnd
    · -- The separator begins in a later piece.
      have hdrop := ih (headerEnd - size) (Occurrence.find_drop h hbehind)
      rw [loadBodyFrom_skip hsize h hbehind, ← Nat.mod_eq_sub_mod hbehind, List.drop_drop, List.length_drop,
        show size + (headerEnd - size + 4) = headerEnd + 4 by omega] at *
      rw [hdrop]
      omega
    · have hmod : headerEnd % size = headerEnd := Nat.mod_eq_of_lt (by omega)
      have hshort := loadBodyFrom_length hsize (file.drop size)
      rw [List.length_drop] at hshort
      rw [reads_of_ne_nil hsize hne, loadBodyFrom, hmod]
      by_cases hstraddles : size < headerEnd + 4
      · -- It straddles the edge: the piece is dropped, and with it a part of
        -- the separator that no later piece can make up for.
        have hnone : Occurrence.find emptyLine (file.take size) = none := by
          cases hfind : Occurrence.find emptyLine (file.take size) with
          | none => rfl
          | some here =>
            have hfile := Occurrence.find_append (t := file.drop size) hfind
            have hwithin := Occurrence.length_le_of_find hfind
            rw [List.take_append_drop, h] at hfile
            rw [List.length_take, ← Option.some.inj hfile, show emptyLine.length = 4 from rfl] at hwithin
            omega
        simp only [hnone]
        constructor
        · intro hbody
          rw [hbody] at hshort
          rw [List.length_drop, List.drop_eq_nil_iff] at hshort
          omega
        · rintro (hend | hroom)
          · rw [List.drop_eq_nil_of_le (Nat.le_of_eq hend)]
            apply hshort.resolve_right
            omega
          · omega
      · have hhere : Occurrence.find emptyLine (file.take size) = some headerEnd := by
          apply Occurrence.find_of_append (t := file.drop size)
          · rw [List.take_append_drop, h]
          · rw [List.length_take, show emptyLine.length = 4 from rfl]
            omega
        simp only [hhere, List.length_take]
        by_cases hroom : headerEnd + 4 < min size file.length
        · rw [if_pos hroom, loadBodyFrom_found hsize, List.nil_append]
          refine iff_of_true ?_ (by omega)
          rw [← List.drop_append_of_le_length (by rw [List.length_take]; omega), List.take_append_drop]
        · rw [if_neg hroom]
          constructor
          · intro hbody
            rw [hbody] at hshort
            rw [List.length_drop, List.drop_eq_nil_iff] at hshort
            omega
          · rintro (hend | hfits)
            · rw [List.drop_eq_nil_of_le (Nat.le_of_eq hend)]
              apply hshort.resolve_right
              omega
            · rw [show file.length = headerEnd + 4 by omega] at hshort
              rw [List.drop_eq_nil_of_le (i := headerEnd + 4) (by omega)]
              apply hshort.resolve_right
              omega

/-- A read that fails never leaves a part of the body. -/
theorem loadBodyFrom_failed {rs : Reads} (h : none ∈ rs) (foundHeader : Bool) (retVal : AnsiString) :
    loadBodyFrom foundHeader retVal rs = [] := by
  induction rs generalizing foundHeader retVal with
  | nil => exact absurd h List.not_mem_nil
  | cons read rs ih =>
    cases read with
    | none => cases foundHeader <;> rw [loadBodyFrom]
    | some readData =>
      have hrest : none ∈ rs := (List.mem_cons.1 h).resolve_left nofun
      cases foundHeader with
      | true => exact ih hrest true _
      | false =>
        rw [loadBodyFrom]
        split
        · exact ih hrest false retVal
        · split
          · exact ih hrest true _
          · exact ih hrest false retVal

/-! ## Both -/

/-- The header and the body come apart at the first empty line. -/
def SplitsAtEmptyLine (settings : ReadSizes) (file : AnsiString) (headerEnd : Nat) : Prop :=
  loadHeader settings (readable file) = file.take (headerEnd + 2) ∧
    loadBody settings (readable file) = file.drop (headerEnd + 4) ∧
    loadHeader settings (readable file) ++ lineBreak ++ loadBody settings (readable file) = file

instance (settings : ReadSizes) (file : AnsiString) (headerEnd : Nat) :
    Decidable (SplitsAtEmptyLine settings file headerEnd) :=
  inferInstanceAs (Decidable (_ ∧ _))

/-- What stands around the separator. -/
theorem rejoined {file : AnsiString} {headerEnd : Nat} (h : Occurrence.find emptyLine file = some headerEnd) :
    file.take (headerEnd + 2) ++ lineBreak ++ file.drop (headerEnd + 4) = file := by
  obtain ⟨-, ⟨rest, hrest⟩, -⟩ := Occurrence.find_eq_some_iff.1 h
  have hbehind : file.drop (headerEnd + 2) = lineBreak ++ rest := by
    rw [← List.drop_drop, ← hrest]
    rfl
  have hbody : file.drop (headerEnd + 4) = rest := by
    rw [← List.drop_drop, ← hrest]
    rfl
  rw [hbody, List.append_assoc, ← hbehind, List.take_append_drop]

/-- The first empty line behind a text without a carriage return. -/
theorem find_emptyLine (header : AnsiString) (h : 13 ∉ header) (body : AnsiString) :
    Occurrence.find emptyLine (header ++ (emptyLine ++ body)) = some header.length := by
  induction header with
  | nil =>
    rw [List.nil_append]
    exact Occurrence.find_append (by decide)
  | cons c header ih =>
    rw [List.mem_cons, not_or] at h
    have hhead : ¬emptyLine <+: c :: (header ++ (emptyLine ++ body)) := fun hp => h.1 (List.cons_prefix_cons.1 hp).1
    rw [List.cons_append, Occurrence.find_cons, if_neg hhead, ih h.2]
    rfl

/-- The two readers split a message at the same place exactly when nothing
    follows its first empty line, or when the body reader's piece that holds
    the line goes on behind it. -/
theorem splits_at_empty_line_iff (settings : ReadSizes) {file : AnsiString} {headerEnd : Nat}
    (h : Occurrence.find emptyLine file = some headerEnd) :
    SplitsAtEmptyLine settings file headerEnd ↔
      file.length = headerEnd + 4 ∨
        headerEnd % readSize settings.loadBodyReadSize + 4 < readSize settings.loadBodyReadSize := by
  have hheader := loadHeader_readable settings h
  have hloop := loadBodyFrom_eq_iff (readSize_pos settings.loadBodyReadSize) file headerEnd h
  constructor
  · intro hsplits
    exact hloop.1 hsplits.2.1
  · intro hroom
    have hbody : loadBody settings (readable file) = file.drop (headerEnd + 4) := hloop.2 hroom
    refine ⟨hheader, hbody, ?_⟩
    rw [hheader, hbody]
    exact rejoined h

theorem splits_at_empty_line_short :
    SplitsAtEmptyLine {} (ansi "Subject: A" ++ (emptyLine ++ ansi "Hello")) 10 :=
  (splits_at_empty_line_iff {} (find_emptyLine (ansi "Subject: A") (by decide +kernel) (ansi "Hello"))).2
    (.inr (by decide))

/-- A header of 3,996 octets: its separator ends where the default size's first
    piece does. -/
def longHeader : AnsiString := ansi "Subject: " ++ List.replicate 3987 65

def longMessage : AnsiString := longHeader ++ (emptyLine ++ ansi "Hello")

theorem find_longMessage : Occurrence.find emptyLine longMessage = some 3996 := by
  have hlength : longHeader.length = 3996 := by
    rw [longHeader, List.length_append, List.length_replicate]
    rfl
  have hclean : (13 : UInt8) ∉ longHeader := by
    rw [longHeader, List.mem_append, not_or, List.mem_replicate]
    exact ⟨by decide, fun h => absurd h.2 (by decide)⟩
  rw [longMessage, find_emptyLine longHeader hclean, hlength]

/-- With the default sizes the body of a message whose header is 3,996 octets
    long is not found. -/
theorem body_lost_at_piece_end :
    Occurrence.find emptyLine longMessage = some 3996 ∧ ¬SplitsAtEmptyLine {} longMessage 3996 := by
  have hlength : longMessage.length = 4005 := by
    rw [longMessage, List.length_append, longHeader, List.length_append, List.length_replicate]
    decide +kernel
  refine ⟨find_longMessage, fun hsplits => ?_⟩
  have hroom := (loadBodyFrom_eq_iff (readSize_pos 4000) longMessage 3996 find_longMessage).1 hsplits.2.1
  rw [hlength, show readSize 4000 = 4000 from rfl] at hroom
  omega

end HMailServer.Persistence
