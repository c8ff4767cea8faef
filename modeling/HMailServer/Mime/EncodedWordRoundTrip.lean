import HMailServer.Mime.EncodedWord
import HMailServer.Lib.Byte

/- Encoded words in UTF-8. Both forms cut the input in groups, one for each word,
   and are read back. The B form cuts behind a character; the Q form cuts behind
   any byte that fills the line. -/
namespace HMailServer.MimeEncodedWord
open AnsiString

def utf8Name : AnsiString := ansi "utf-8"

/-- A word with its payload. -/
def wordText (encoding : UInt8) (payload : AnsiString) : AnsiString := wordStart utf8Name encoding ++ payload ++ ansi "?="

/-- The words in a text. -/
def wordsOf (text : AnsiString) : List AnsiString := if text = [] then [] else text.splitOn 32

/-- The payload of a B or of a Q word, decoded. -/
def decodePayload (encoding : UInt8) (payload : AnsiString) : AnsiString :=
  if encoding = 66 then MimeCodeBase64.decode payload else MimeCodeQ.decode payload

/-- RFC 2047, sections 2 and 5: a word is short enough and carries whole
    characters. -/
def ValidWord (encoding : UInt8) (word : AnsiString) : Prop :=
  word.length ≤ maxEncodedWordLen ∧ ∃ payload cs, word = wordText encoding payload ∧
    decodePayload encoding payload = Utf8.encode cs

/-- What is promised of the encoding of a text. -/
structure EncodedWordsValid (encoding : UInt8) (input : AnsiString) : Prop where
  encoded : ∃ text, encode encoding utf8Name input = some text ∧ (∀ word ∈ wordsOf text, ValidWord encoding word) ∧
    decode text = input

/-! ## Reading words -/

theorem searchPair_skip {a b : UInt8} {s : List UInt8} (h : a ∉ s) (rest : List UInt8) :
    searchPair a b (s ++ a :: b :: rest) = some s.length := by
  induction s with
  | nil => simp [searchPair]
  | cons c s ih =>
    rw [List.mem_cons, not_or] at h
    have hnext := ih h.2
    cases s with
    | nil =>
      rw [List.nil_append] at hnext
      rw [List.singleton_append, searchPair, if_neg fun hc => h.1 hc.1.symm, hnext]
      rfl
    | cons d s =>
      rw [List.cons_append] at hnext
      rw [List.cons_append, List.cons_append, searchPair, if_neg fun hc => h.1 hc.1.symm, hnext]
      rfl

theorem wordText_append (encoding : UInt8) (payload rest : AnsiString) : wordText encoding payload ++ rest =
    61 :: 63 :: (utf8Name ++ 63 :: encoding :: 63 :: (payload ++ (63 :: 61 :: rest))) := by
  simp [wordText, wordStart, utf8Name, ansi]

theorem two_le_length_wordText (encoding : UInt8) (payload : AnsiString) : 2 ≤ (wordText encoding payload).length := by
  simp [wordText, ansi]
  omega

theorem encodedWordAt_wordText (encoding : UInt8) (payload rest : AnsiString) :
    encodedWordAt (wordText encoding payload ++ rest) = some (toLower encoding, payload ++ (63 :: 61 :: rest)) := by
  have hname : (utf8Name ++ 63 :: encoding :: 63 :: (payload ++ (63 :: 61 :: rest))).dropWhile (· != 63) =
      63 :: encoding :: 63 :: (payload ++ (63 :: 61 :: rest)) := by
    rw [List.dropWhile_append_of_pos (by decide +kernel)]
    rfl
  rw [wordText_append, encodedWordAt, hname]
  exact if_neg (by simp)

theorem wordText_ne_nil (encoding : UInt8) (payload : AnsiString) : wordText encoding payload ≠ [] := by
  simp [wordText, ansi]

section
variable {encoding : UInt8} (hencoding : encoding = 66 ∨ encoding = 81) {payload : AnsiString}
  (hpayload : (63 : UInt8) ∉ payload)
include hencoding hpayload

/-- A word is decoded, and what is behind it read on. -/
theorem decodeFrom_wordText (turns : Nat) (atStart : Bool) (rest : AnsiString) :
    decodeFrom (turns + 1) atStart (wordText encoding payload ++ rest) =
      decodePayload encoding payload ++ decodeFrom turns false rest := by
  have hne : wordText encoding payload ++ rest ≠ [] := by simp [wordText_ne_nil]
  have htake : (payload ++ (63 :: 61 :: rest)).take payload.length = payload := List.take_left' rfl
  have hdrop : (payload ++ (63 :: 61 :: rest)).drop (payload.length + 2) = rest := by simp
  rw [decodeFrom, if_neg hne, encodedWordAt_wordText]
  dsimp only
  rw [searchPair_skip hpayload, Option.getD_some, htake, hdrop, decodePayload]
  rcases hencoding with rfl | rfl
  · rfl
  · rfl

end

/-- The space in front of a word is passed. -/
theorem decodeFrom_space (turns : Nat) (encoding : UInt8) (payload rest : AnsiString) :
    decodeFrom (turns + 1) false (32 :: (wordText encoding payload ++ rest)) =
      decodeFrom turns false (wordText encoding payload ++ rest) := by
  have hword : ∃ more, wordText encoding payload ++ rest = 61 :: 63 :: more := ⟨_, wordText_append encoding payload rest⟩
  obtain ⟨more, hmore⟩ := hword
  have hsearch : searchPair 61 63 (61 :: 63 :: more) = some 0 := by simp [searchPair]
  have hspaces : ((32 :: 61 :: 63 :: more).takeWhile isSpace).length = 1 := by
    rw [List.takeWhile_cons_of_pos (by decide), List.takeWhile_cons_of_neg (by decide)]
    rfl
  rw [hmore, decodeFrom, if_neg (List.cons_ne_nil _ _)]
  simp only [encodedWordAt, List.tail_cons, hsearch, hspaces]
  rfl

/-- Words with a space between them, each of them read. -/
theorem decodeFrom_words {encoding : UInt8} (hencoding : encoding = 66 ∨ encoding = 81) {payloads : List AnsiString}
    (hpayloads : ∀ p ∈ payloads, (63 : UInt8) ∉ p) (turns : Nat)
    (hturns : (payloads.flatMap fun p => 32 :: wordText encoding p).length ≤ turns) :
    decodeFrom turns false (payloads.flatMap fun p => 32 :: wordText encoding p) =
      payloads.flatMap (decodePayload encoding) := by
  induction payloads generalizing turns with
  | nil => cases turns <;> rfl
  | cons p payloads ih =>
    obtain ⟨hp, hrest⟩ := List.forall_mem_cons.1 hpayloads
    have hlength := two_le_length_wordText encoding p
    rw [List.flatMap_cons, List.length_append, List.length_cons] at hturns
    obtain ⟨n, rfl⟩ : ∃ n, turns = n + 2 := ⟨turns - 2, by omega⟩
    rw [List.flatMap_cons, List.cons_append, decodeFrom_space, decodeFrom_wordText hencoding hp, ih hrest n (by omega),
      List.flatMap_cons]

/-- Words joined by spaces are read back. -/
theorem decode_words {encoding : UInt8} (hencoding : encoding = 66 ∨ encoding = 81) {p : AnsiString}
    {payloads : List AnsiString} (hpayloads : ∀ q ∈ p :: payloads, (63 : UInt8) ∉ q) :
    decode ([32].intercalate ((p :: payloads).map (wordText encoding))) = (p :: payloads).flatMap (decodePayload encoding) := by
  obtain ⟨hp, hrest⟩ := List.forall_mem_cons.1 hpayloads
  have hlength := two_le_length_wordText encoding p
  have hjoined : [32].intercalate ((p :: payloads).map (wordText encoding)) =
      wordText encoding p ++ payloads.flatMap fun p => 32 :: wordText encoding p := by
    rw [List.map_cons, Separated.intercalate_cons, List.flatMap_map]
  rw [decode, hjoined, List.length_append]
  obtain ⟨n, hn⟩ : ∃ n, (wordText encoding p).length + (payloads.flatMap fun p => 32 :: wordText encoding p).length = n + 1 :=
    ⟨_, (Nat.sub_add_cancel (by omega)).symm⟩
  rw [hn, decodeFrom_wordText hencoding hp, decodeFrom_words hencoding hrest n (by omega), List.flatMap_cons]

theorem space_notMem_wordText {encoding : UInt8} (hencoding : encoding = 66 ∨ encoding = 81) {payload : AnsiString}
    (h : (32 : UInt8) ∉ payload) : (32 : UInt8) ∉ wordText encoding payload := by
  have hstart : (32 : UInt8) ∉ wordStart utf8Name encoding := by rcases hencoding with rfl | rfl <;> decide
  rw [wordText, List.mem_append, List.mem_append, not_or, not_or]
  exact ⟨⟨hstart, h⟩, by decide⟩

theorem wordsOf_words {encoding : UInt8} (hencoding : encoding = 66 ∨ encoding = 81) {p : AnsiString}
    {payloads : List AnsiString} (hpayloads : ∀ q ∈ p :: payloads, (32 : UInt8) ∉ q) :
    wordsOf ([32].intercalate ((p :: payloads).map (wordText encoding))) = (p :: payloads).map (wordText encoding) := by
  have hne : [32].intercalate ((p :: payloads).map (wordText encoding)) ≠ [] := by
    rw [List.map_cons, Separated.intercalate_cons]
    simp [wordText_ne_nil]
  have hspace : ∀ w ∈ (p :: payloads).map (wordText encoding), (32 : UInt8) ∉ w := by
    intro w hw
    obtain ⟨q, hq, rfl⟩ := List.mem_map.1 hw
    exact space_notMem_wordText hencoding (hpayloads q hq)
  rw [wordsOf, if_neg hne]
  exact List.splitOn_intercalate 32 hspace (by simp)

theorem wordText_inj {encoding : UInt8} {p q : AnsiString} (h : wordText encoding p = wordText encoding q) : p = q :=
  List.append_cancel_left (List.append_cancel_right h)

/-! ## The Q form -/

def qMaxLine : Nat := 63

def qText (input : List UInt8) : AnsiString := input.flatMap qWritten

def qColumns (input : List UInt8) : Nat := (input.map codeLen).sum

/-- The bytes of the word that is open at that column, and of the words behind
    it. -/
def qGroups : Nat → List UInt8 → List (List UInt8)
  | _, [] => [[]]
  | column, ch :: input =>
    if qMaxLine < column + codeLen ch then [] :: (qGroups (codeLen ch) input).modifyHead (ch :: ·)
    else (qGroups (column + codeLen ch) input).modifyHead (ch :: ·)

theorem qGroups_ne_nil (column : Nat) (input : List UInt8) : qGroups column input ≠ [] := by
  have hmodify : ∀ (f : List UInt8 → List UInt8) (gs : List (List UInt8)), gs ≠ [] → gs.modifyHead f ≠ [] := by
    intro f gs hgs
    obtain ⟨g, gs, rfl⟩ := List.exists_cons_of_ne_nil hgs
    exact List.cons_ne_nil _ _
  induction input generalizing column with
  | nil => exact List.cons_ne_nil _ _
  | cons ch input ih =>
    rw [qGroups]
    split
    · exact List.cons_ne_nil _ _
    · exact hmodify _ _ (ih _)

theorem qGroups_flatten (column : Nat) (input : List UInt8) : (qGroups column input).flatten = input := by
  have hmodify : ∀ (ch : UInt8) (gs : List (List UInt8)), gs ≠ [] → (gs.modifyHead (ch :: ·)).flatten = ch :: gs.flatten := by
    intro ch gs hgs
    obtain ⟨g, gs, rfl⟩ := List.exists_cons_of_ne_nil hgs
    rfl
  induction input generalizing column with
  | nil => rfl
  | cons ch input ih =>
    rw [qGroups]
    split
    · rw [List.flatten_cons, List.nil_append, hmodify _ _ (qGroups_ne_nil _ _), ih]
    · rw [hmodify _ _ (qGroups_ne_nil _ _), ih]

theorem codeLen_pos (ch : UInt8) : 1 ≤ codeLen ch ∧ codeLen ch ≤ 3 := by
  rw [codeLen]
  split <;> omega

theorem length_qWritten (ch : UInt8) : (qWritten ch).length = codeLen ch := by
  rw [qWritten, codeLen]
  split <;> rfl

theorem length_qText (input : List UInt8) : (qText input).length = qColumns input := by
  induction input with
  | nil => rfl
  | cons ch input ih =>
    rw [qText, List.flatMap_cons, List.length_append, length_qWritten, ← qText, ih, qColumns, qColumns, List.map_cons,
      List.sum_cons]

/-- The groups fit on their lines. -/
theorem qGroups_columns (column : Nat) (input : List UInt8) (hcolumn : column ≤ qMaxLine) :
    ∃ g gs, qGroups column input = g :: gs ∧ column + qColumns g ≤ qMaxLine ∧ ∀ h ∈ gs, qColumns h ≤ qMaxLine := by
  induction input generalizing column with
  | nil => exact ⟨[], [], rfl, hcolumn, fun h hh => absurd hh List.not_mem_nil⟩
  | cons ch input ih =>
    obtain ⟨_, hthree⟩ := codeLen_pos ch
    have hmax : qMaxLine = 63 := rfl
    have hcons : ∀ g, qColumns (ch :: g) = codeLen ch + qColumns g := fun g => by
      rw [qColumns, List.map_cons, List.sum_cons, qColumns]
    rw [qGroups]
    split
    · obtain ⟨g, gs, hgroups, hg, hgs⟩ := ih (codeLen ch) (by omega)
      rw [hgroups]
      refine ⟨[], (ch :: g) :: gs, rfl, by simpa [qColumns] using hcolumn, List.forall_mem_cons.2 ⟨?_, hgs⟩⟩
      rw [hcons]
      exact hg
    · obtain ⟨g, gs, hgroups, hg, hgs⟩ := ih (column + codeLen ch) (by omega)
      rw [hgroups]
      refine ⟨ch :: g, gs, rfl, ?_, hgs⟩
      rw [hcons]
      omega

/-- What the encoder writes, from within a word on. -/
theorem qEncodeFrom_groups {column : Nat} (hcolumn : column ≠ 0) (input : List UInt8) :
    ∃ g gs, qGroups column input = g :: gs ∧ qEncodeFrom utf8Name qMaxLine column input =
      qText g ++ ansi "?=" ++ gs.flatMap fun h => 32 :: wordText 81 (qText h) := by
  induction input generalizing column with
  | nil => exact ⟨[], [], rfl, (List.append_nil _).symm⟩
  | cons ch input ih =>
    have htext : ∀ g, qText (ch :: g) = qWritten ch ++ qText g := fun g => by rw [qText, List.flatMap_cons, qText]
    have hpos := (codeLen_pos ch).1
    by_cases hfull : qMaxLine < column + codeLen ch
    · have hcolumn' : 0 + codeLen ch ≠ 0 := by omega
      obtain ⟨g, gs, hgroups, htail⟩ := ih hcolumn'
      rw [Nat.zero_add] at hgroups htail
      have hfull' : decide ((qMaxLine : Int) < column + codeLen ch) = true := by
        rw [decide_eq_true_eq]
        exact_mod_cast hfull
      have hclose : ansi "?= " = ansi "?=" ++ [32] := rfl
      refine ⟨[], (ch :: g) :: gs, ?_, ?_⟩
      · rw [qGroups, if_pos hfull, hgroups]
        rfl
      · rw [qEncodeFrom, hfull', if_pos rfl, if_pos rfl, if_pos rfl, Nat.zero_add, htail, hclose, List.flatMap_cons, wordText,
          htext]
        simp [qText]
    · have hcolumn' : column + codeLen ch ≠ 0 := by omega
      obtain ⟨g, gs, hgroups, htail⟩ := ih hcolumn'
      have hfull' : decide ((qMaxLine : Int) < column + codeLen ch) = false := by
        rw [decide_eq_false_iff_not]
        exact_mod_cast hfull
      refine ⟨ch :: g, gs, ?_, ?_⟩
      · rw [qGroups, if_neg hfull, hgroups]
        rfl
      · rw [qEncodeFrom, hfull', if_neg Bool.false_ne_true, if_neg Bool.false_ne_true, if_neg hcolumn, htail, htext]
        simp

theorem qEncode_groups {input : List UInt8} (hinput : input ≠ []) :
    encode 81 utf8Name input = some ([32].intercalate (((qGroups 0 input).map qText).map (wordText 81))) := by
  obtain ⟨ch, rest, rfl⟩ := List.exists_cons_of_ne_nil hinput
  have hpos := codeLen_pos ch
  have hmax : qMaxLine = 63 := rfl
  have hcolumn : 0 + codeLen ch ≠ 0 := by omega
  obtain ⟨g, gs, hgroups, htail⟩ := qEncodeFrom_groups hcolumn rest
  rw [Nat.zero_add] at hgroups htail
  have hfull : decide ((qMaxLine : Int) < (0 : Nat) + codeLen ch) = false := by
    rw [decide_eq_false_iff_not]
    omega
  have hfirst : qGroups 0 (ch :: rest) = (ch :: g) :: gs := by
    rw [qGroups, if_neg (by omega), Nat.zero_add, hgroups]
    rfl
  have hencode : encode 81 utf8Name (ch :: rest) = some (qEncodeFrom utf8Name qMaxLine 0 (ch :: rest)) := by
    rw [encode, if_neg (by decide), if_neg (List.cons_ne_nil _ _), if_neg (by decide)]
    rfl
  have htext : qText (ch :: g) = qWritten ch ++ qText g := by rw [qText, List.flatMap_cons, qText]
  rw [hencode, hfirst, List.map_cons, List.map_cons, Separated.intercalate_cons, List.flatMap_map, List.flatMap_map, qEncodeFrom,
    hfull, if_neg Bool.false_ne_true, if_neg Bool.false_ne_true, if_pos rfl, Nat.zero_add, htail, wordText, htext]
  simp

theorem qWritten_chars : ∀ ch : UInt8, 32 ∉ qWritten ch ∧ 63 ∉ qWritten ch :=
  Byte.forall_of_lt (by decide +kernel)

theorem qText_chars (input : List UInt8) : 32 ∉ qText input ∧ 63 ∉ qText input := by
  refine ⟨fun h => ?_, fun h => ?_⟩
  · obtain ⟨ch, _, hch⟩ := List.mem_flatMap.1 h
    exact (qWritten_chars ch).1 hch
  · obtain ⟨ch, _, hch⟩ := List.mem_flatMap.1 h
    exact (qWritten_chars ch).2 hch

theorem decode_qWritten (ch : UInt8) (rest : AnsiString) :
    MimeCodeQ.decode (qWritten ch ++ rest) = ch :: MimeCodeQ.decode rest := by
  rw [qWritten]
  split
  · rw [MimeCodeQP.escape, List.cons_append, List.cons_append, List.cons_append, List.nil_append, MimeCodeQ.decode,
      if_pos rfl, if_pos (MimeCodeQP.isHexDigit_tableAt (ch >>> 4)), MimeCodeQP.digitValue_tableAt,
      MimeCodeQP.digitValue_tableAt, MimeCodeQP.nibbles_joined]
  · rename_i hcopy
    have hne : ch ≠ 61 ∧ ch ≠ 95 := by
      constructor
      · rintro rfl
        exact hcopy rfl
      · rintro rfl
        exact hcopy rfl
    rw [MimeCodeQ.decode.eq_def]
    simp [hne.1, hne.2]

theorem decode_qText (input : List UInt8) : MimeCodeQ.decode (qText input) = input := by
  induction input with
  | nil => rfl
  | cons ch input ih => rw [qText, List.flatMap_cons, ← qText, decode_qWritten, ih]

/-- The Q form is read back, and its words are short enough; they are valid where
    the groups are whole characters. -/
theorem encodedWordsValid_q_iff (input : List UInt8) :
    EncodedWordsValid 81 input ↔ input = [] ∨ ∀ g ∈ qGroups 0 input, ∃ cs, g = Utf8.encode cs := by
  by_cases hinput : input = []
  · have hencode : encode 81 utf8Name [] = some [] := by
      rw [encode, if_neg (by decide), if_pos rfl]
    rw [hinput]
    exact iff_of_true ⟨[], hencode, fun w hw => absurd hw List.not_mem_nil, rfl⟩ (.inl rfl)
  · obtain ⟨g, gs, hgroups, hg, hgs⟩ := qGroups_columns 0 input (Nat.zero_le _)
    have hencode := qEncode_groups hinput
    have hchars : ∀ q ∈ (qGroups 0 input).map qText, 32 ∉ q ∧ 63 ∉ q := by
      intro q hq
      obtain ⟨h, _, rfl⟩ := List.mem_map.1 hq
      exact qText_chars h
    rw [hgroups, List.map_cons] at hchars
    have hwords := wordsOf_words (.inr rfl) fun q hq => (hchars q hq).1
    have hdecode := decode_words (.inr rfl) fun q hq => (hchars q hq).2
    rw [← List.map_cons, ← hgroups] at hwords hdecode
    have hlossless : decode ([32].intercalate (((qGroups 0 input).map qText).map (wordText 81))) = input := by
      have hpayload : ∀ h, decodePayload 81 (qText h) = h := decode_qText
      have hflat : (qGroups 0 input).flatMap (fun h => decodePayload 81 (qText h)) = (qGroups 0 input).flatten := by
        simp only [hpayload, List.flatMap_id']
      rw [hdecode, List.flatMap_map, hflat, qGroups_flatten]
    have hlength : ∀ h ∈ qGroups 0 input, (wordText 81 (qText h)).length ≤ maxEncodedWordLen := by
      intro h hh
      have hcolumns : qColumns h ≤ qMaxLine := by
        rw [hgroups] at hh
        rcases List.mem_cons.1 hh with rfl | hh
        · omega
        · exact hgs h hh
      have hstart : (wordText 81 (qText h)).length = 12 + qColumns h := by
        rw [wordText, List.length_append, List.length_append, length_qText]
        have hlen : (wordStart utf8Name 81).length = 10 := by decide
        have hend : (ansi "?=").length = 2 := by decide
        omega
      have hmax : qMaxLine = 63 := rfl
      have hmax' : maxEncodedWordLen = 75 := rfl
      omega
    constructor
    · rintro ⟨text, htext, hvalid, _⟩
      rw [hencode] at htext
      rw [← Option.some.inj htext, hwords] at hvalid
      refine .inr fun h hh => ?_
      obtain ⟨_, payload, cs, hword, hpayload⟩ := hvalid _ (List.mem_map_of_mem (List.mem_map_of_mem hh))
      have hdecoded : decodePayload 81 (qText h) = h := decode_qText h
      rw [← wordText_inj hword, hdecoded] at hpayload
      exact ⟨cs, hpayload⟩
    · rintro (hnil | hwhole)
      · exact absurd hnil hinput
      · refine ⟨_, hencode, ?_, hlossless⟩
        intro w hw
        rw [hwords] at hw
        obtain ⟨q, hq, rfl⟩ := List.mem_map.1 hw
        obtain ⟨h, hh, rfl⟩ := List.mem_map.1 hq
        obtain ⟨cs, hcs⟩ := hwhole h hh
        have hdecoded : decodePayload 81 (qText h) = h := decode_qText h
        exact ⟨hlength h hh, qText h, cs, rfl, by rw [hdecoded, hcs]⟩

/-! ## Whole characters in the Q form -/

/-- No character is cut: each that begins in a word ends on its line. -/
def fitsColumns : Nat → List Char → Bool
  | _, [] => true
  | column, c :: cs =>
    let bytes := String.utf8EncodeChar c
    if qMaxLine < column + qColumns (bytes.take 1) then fitsColumns (qColumns bytes) cs
    else decide (column + qColumns bytes ≤ qMaxLine) && fitsColumns (column + qColumns bytes) cs

def WholeGroups (groups : List (List UInt8)) : Prop := ∀ g ∈ groups, ∃ cs, g = Utf8.encode cs

theorem qColumns_cons (ch : UInt8) (input : List UInt8) : qColumns (ch :: input) = codeLen ch + qColumns input := by
  rw [qColumns, List.map_cons, List.sum_cons, qColumns]

theorem qColumns_le (input : List UInt8) : qColumns input ≤ 3 * input.length := by
  induction input with
  | nil => exact Nat.zero_le _
  | cons ch input ih =>
    have hthree := (codeLen_pos ch).2
    rw [qColumns_cons, List.length_cons]
    omega

theorem modifyHead_append (p q : List UInt8) (groups : List (List UInt8)) :
    (groups.modifyHead (q ++ ·)).modifyHead (p ++ ·) = groups.modifyHead (p ++ q ++ ·) := by
  rw [List.modifyHead_modifyHead]
  congr 1
  funext g
  exact (List.append_assoc p q g).symm

/-- Bytes that fit stay in the word that is open. -/
theorem qGroups_append {column : Nat} {bytes : List UInt8} (h : column + qColumns bytes ≤ qMaxLine) (rest : List UInt8) :
    qGroups column (bytes ++ rest) = (qGroups (column + qColumns bytes) rest).modifyHead (bytes ++ ·) := by
  induction bytes generalizing column with
  | nil =>
    have hid : (fun g : List UInt8 => [] ++ g) = id := rfl
    rw [List.nil_append, hid, List.modifyHead_id]
    rfl
  | cons ch bytes ih =>
    rw [qColumns_cons] at h
    rw [List.cons_append, qGroups, if_neg (by omega), ih (by omega), qColumns_cons, ← Nat.add_assoc]
    exact modifyHead_append [ch] bytes _

/-- Bytes that do not fit are cut where the line is full. -/
theorem qGroups_cut {column : Nat} {bytes : List UInt8} (hcolumn : column ≤ qMaxLine) (h : qMaxLine < column + qColumns bytes)
    (rest : List UInt8) :
    ∃ p q gs, bytes = p ++ q ∧ q ≠ [] ∧ qGroups column (bytes ++ rest) = p :: gs := by
  induction bytes generalizing column with
  | nil => exact absurd h (Nat.not_lt.2 hcolumn)
  | cons ch bytes ih =>
    rw [qColumns_cons] at h
    by_cases hfull : qMaxLine < column + codeLen ch
    · have hcut : qGroups column (ch :: bytes ++ rest) =
          [] :: (qGroups (codeLen ch) (bytes ++ rest)).modifyHead (ch :: ·) := by
        rw [List.cons_append, qGroups, if_pos hfull]
      exact ⟨[], ch :: bytes, _, rfl, List.cons_ne_nil _ _, hcut⟩
    · have hcolumn' : column + codeLen ch ≤ qMaxLine := Nat.not_lt.1 hfull
      obtain ⟨p, q, gs, hbytes, hq, hgroups⟩ := ih hcolumn' (by omega)
      refine ⟨ch :: p, q, gs, by rw [hbytes, List.cons_append], hq, ?_⟩
      rw [List.cons_append, qGroups, if_neg hfull, hgroups]
      rfl

/-- The word that is open carries `ds` already. -/
theorem wholeGroups_iff {column : Nat} (hcolumn : column ≤ qMaxLine) (ds cs : List Char) :
    WholeGroups ((qGroups column (Utf8.encode cs)).modifyHead (Utf8.encode ds ++ ·)) ↔ fitsColumns column cs = true := by
  induction cs generalizing column ds with
  | nil =>
    refine iff_of_true (fun g hg => ⟨ds, ?_⟩) rfl
    rw [List.mem_singleton.1 hg]
    exact List.append_nil _
  | cons c cs ih =>
    obtain ⟨head, tail, hchar, _, _, hlength, _⟩ := Utf8.encodeChar_shape c
    have hmax : qMaxLine = 63 := rfl
    have hcolumns := qColumns_le (String.utf8EncodeChar c)
    rw [hchar, List.length_cons] at hcolumns
    have hone : qColumns ((String.utf8EncodeChar c).take 1) = codeLen head := by
      rw [hchar, List.take_succ_cons, List.take_zero, qColumns_cons]
      rfl
    have hsingle : Utf8.encode [c] = String.utf8EncodeChar c := List.append_nil _
    rw [Utf8.encode_cons, fitsColumns, hone]
    by_cases hfull : qMaxLine < column + codeLen head
    · -- A new word begins with the character, and it fits there.
      have hnew : qGroups column (String.utf8EncodeChar c ++ Utf8.encode cs) =
          [] :: qGroups 0 (String.utf8EncodeChar c ++ Utf8.encode cs) := by
        have hpos := codeLen_pos head
        rw [hchar, List.cons_append, qGroups, if_pos hfull, qGroups, if_neg (by omega), Nat.zero_add]
      have hfits : 0 + qColumns (String.utf8EncodeChar c) ≤ qMaxLine := by
        rw [hchar]
        omega
      have hrest := ih hfits [c]
      rw [hsingle, Nat.zero_add] at hrest
      rw [if_pos hfull, ← hrest, hnew, qGroups_append hfits, Nat.zero_add, WholeGroups, WholeGroups, List.modifyHead_cons,
        List.append_nil, List.forall_mem_cons]
      exact and_iff_right ⟨ds, rfl⟩
    · rw [if_neg hfull, Bool.and_eq_true, decide_eq_true_eq]
      by_cases hfits : column + qColumns (String.utf8EncodeChar c) ≤ qMaxLine
      · have hrest := ih hfits (ds ++ [c])
        rw [Utf8.encode_append, hsingle] at hrest
        rw [qGroups_append hfits, modifyHead_append, hrest]
        exact (and_iff_right hfits).symm
      · -- The line is full within the character.
        refine iff_of_false (fun hwhole => ?_) fun h => hfits h.1
        rw [hchar, qColumns_cons] at hfits
        have hcolumn' : column + codeLen head ≤ qMaxLine := Nat.not_lt.1 hfull
        have hover : qMaxLine < column + codeLen head + qColumns tail := by omega
        obtain ⟨p, q, gs, htail, hq, hgroups⟩ := qGroups_cut hcolumn' hover (Utf8.encode cs)
        rw [hchar, List.cons_append, qGroups, if_neg hfull, hgroups] at hwhole
        obtain ⟨es, hes⟩ := hwhole _ List.mem_cons_self
        have hsplit : String.utf8EncodeChar c = (head :: p) ++ q := by rw [hchar, htail, List.cons_append]
        exact Utf8.encode_append_ne hsplit (List.cons_ne_nil _ _) hq ds es hes

/-- The Q form is valid where no character is cut. -/
theorem encodedWordsValid_q (cs : List Char) : EncodedWordsValid 81 (Utf8.encode cs) ↔ fitsColumns 0 cs = true := by
  have hgroups := wholeGroups_iff (Nat.zero_le _) [] cs
  have hid : (fun g : List UInt8 => Utf8.encode [] ++ g) = id := rfl
  rw [hid, List.modifyHead_id] at hgroups
  rw [encodedWordsValid_q_iff, ← hgroups]
  cases cs with
  | nil => exact iff_of_true (.inl rfl) fun g hg => ⟨[], List.mem_singleton.1 hg⟩
  | cons c cs =>
    refine or_iff_right fun hnil => ?_
    rw [Utf8.encode_cons] at hnil
    exact Utf8.encodeChar_ne_nil c (List.append_eq_nil_iff.1 hnil).1

/-! ## The B form -/

def bMaxBlockSize : Nat := 45

def bText (cs : List Char) : AnsiString := MimeCodeBase64.encode false (Utf8.encode cs)

theorem length_le_encode (cs : List Char) : cs.length ≤ (Utf8.encode cs).length := by
  induction cs with
  | nil => exact Nat.zero_le _
  | cons c cs ih =>
    have hpos := List.length_pos_iff.2 (Utf8.encodeChar_ne_nil c)
    rw [Utf8.encode_cons, List.length_append, List.length_cons]
    omega

/-- The pointer moves over one character. -/
theorem charMoveNext_encode (c : Char) (cs : List Char) :
    charMoveNext true (Utf8.encode (c :: cs)) = (String.utf8EncodeChar c).length := by
  obtain ⟨head, tail, hchar, _, htail, _⟩ := Utf8.encodeChar_shape c
  rw [charMoveNext, if_pos rfl, Utf8.encode_cons, hchar, List.cons_append, List.tail_cons, Utf8.takeWhile_isContinuation htail,
    List.length_cons, Nat.add_comm]

/-- A block is made of whole characters, and takes one at least. -/
theorem safeBlock_encode {turns moved : Nat} {cs : List Char} (hmoved : moved ≤ bMaxBlockSize) (hturns : cs.length ≤ turns) :
    ∃ ds es, cs = ds ++ es ∧ safeBlock true bMaxBlockSize turns moved (Utf8.encode cs) = moved + (Utf8.encode ds).length ∧
      moved + (Utf8.encode ds).length ≤ bMaxBlockSize ∧ (cs ≠ [] → moved = 0 → ds ≠ []) := by
  induction turns generalizing moved cs with
  | zero =>
    obtain rfl := List.length_eq_zero_iff.1 (Nat.le_zero.1 hturns)
    exact ⟨[], [], rfl, rfl, hmoved, fun hne => absurd rfl hne⟩
  | succ turns ih =>
    cases cs with
    | nil => exact ⟨[], [], rfl, rfl, hmoved, fun hne => absurd rfl hne⟩
    | cons c cs =>
      obtain ⟨head, tail, hchar, _, _, hlength, _⟩ := Utf8.encodeChar_shape c
      have hmax : bMaxBlockSize = 45 := rfl
      have hne : Utf8.encode (c :: cs) ≠ [] := by
        rw [Utf8.encode_cons, hchar]
        exact List.cons_ne_nil _ _
      rw [safeBlock, if_neg hne, charMoveNext_encode]
      by_cases hfull : bMaxBlockSize < moved + (String.utf8EncodeChar c).length
      · refine ⟨[], c :: cs, rfl, ?_, hmoved, fun _ hzero => ?_⟩
        · exact if_pos (by exact_mod_cast hfull)
        · rw [hchar, List.length_cons] at hfull
          omega
      · have hnext : cs.length ≤ turns := Nat.le_of_succ_le_succ hturns
        obtain ⟨ds, es, hcs, hblock, hle, _⟩ := ih (Nat.not_lt.1 hfull) hnext
        have hdrop : (Utf8.encode (c :: cs)).drop (String.utf8EncodeChar c).length = Utf8.encode cs := List.drop_left' rfl
        refine ⟨c :: ds, es, by rw [hcs, List.cons_append], ?_, ?_, fun _ _ => List.cons_ne_nil _ _⟩
        · rw [if_neg (by exact_mod_cast hfull), hdrop, hblock, Utf8.encode_cons, List.length_append, Nat.add_assoc]
        · rw [Utf8.encode_cons, List.length_append, ← Nat.add_assoc]
          exact hle

/-- What the encoder writes: a word for each block. -/
theorem bEncodeFrom_groups {turns : Nat} {cs : List Char} (hne : cs ≠ []) (hturns : cs.length < turns) :
    ∃ g gs, (g :: gs).flatten = cs ∧ (∀ h ∈ g :: gs, (Utf8.encode h).length ≤ bMaxBlockSize) ∧
      bEncodeFrom utf8Name bMaxBlockSize turns (Utf8.encode cs) =
        some ([32].intercalate (((g :: gs).map bText).map (wordText 66))) := by
  induction turns generalizing cs with
  | zero => exact absurd hturns (Nat.not_lt_zero _)
  | succ turns ih =>
    obtain ⟨ds, es, hcs, hblock, hle, hmoves⟩ := safeBlock_encode (Nat.zero_le _) (length_le_encode cs)
    have hds := hmoves hne rfl
    have hutf8 : equalsNoCase utf8Name (ansi "utf-8") = true := by decide
    have hsplit : Utf8.encode cs = Utf8.encode ds ++ Utf8.encode es := by rw [hcs, Utf8.encode_append]
    have hsize : min (Utf8.encode cs).length (safeBlock true bMaxBlockSize (Utf8.encode cs).length 0 (Utf8.encode cs)) =
        (Utf8.encode ds).length := by
      rw [hblock, hsplit, List.length_append]
      omega
    have htake : (Utf8.encode cs).take (Utf8.encode ds).length = Utf8.encode ds := by
      rw [hsplit]
      exact List.take_left' rfl
    have hdrop : (Utf8.encode cs).drop (Utf8.encode ds).length = Utf8.encode es := by
      rw [hsplit]
      exact List.drop_left' rfl
    have hword : wordStart utf8Name 66 ++ MimeCodeBase64.encode false (Utf8.encode ds) ++ ansi "?=" = wordText 66 (bText ds) := rfl
    rw [bEncodeFrom]
    simp only [hutf8, hsize, htake, hdrop, hword]
    rw [Nat.zero_add] at hle
    by_cases hlast : (Utf8.encode cs).length ≤ (Utf8.encode ds).length
    · have hes : es = [] := by
        rw [hsplit, List.length_append] at hlast
        exact List.length_eq_zero_iff.1 (Nat.le_zero.1 (by have := length_le_encode es; omega))
      refine ⟨ds, [], ?_, List.forall_mem_singleton.2 hle, ?_⟩
      · rw [hcs, hes, List.flatten_singleton, List.append_nil]
      · rw [if_pos hlast, List.map_singleton, List.map_singleton, Separated.intercalate_cons, List.flatMap_nil, List.append_nil]
    · have hes : es ≠ [] := by
        rintro rfl
        rw [hcs, List.append_nil] at hlast
        exact hlast (Nat.le_refl _)
      have hshorter : es.length < turns := by
        have hpos := List.length_pos_iff.2 hds
        rw [hcs, List.length_append] at hturns
        omega
      obtain ⟨g, gs, hflat, hall, hrest⟩ := ih hes hshorter
      refine ⟨ds, g :: gs, ?_, List.forall_mem_cons.2 ⟨hle, hall⟩, ?_⟩
      · rw [List.flatten_cons, hflat, hcs]
      · rw [if_neg hlast, hrest, Option.map_some, List.map_cons, List.map_cons, List.map_cons, List.map_cons,
          List.map_cons, List.map_cons, List.intercalate_cons_cons]

theorem bText_chars (cs : List Char) : 32 ∉ bText cs ∧ 63 ∉ bText cs :=
  ⟨fun h => absurd (MimeCodeBase64.isBase64_encode _ 32 h) (by decide),
    fun h => absurd (MimeCodeBase64.isBase64_encode _ 63 h) (by decide)⟩

theorem decode_bText (cs : List Char) : decodePayload 66 (bText cs) = Utf8.encode cs := MimeCodeBase64.decode_encode false _

/-- The B form is valid. -/
theorem encodedWordsValid_b (cs : List Char) : EncodedWordsValid 66 (Utf8.encode cs) := by
  by_cases hne : cs = []
  · rw [hne]
    refine ⟨[], ?_, fun w hw => absurd hw List.not_mem_nil, rfl⟩
    rw [encode, if_neg (by decide)]
    exact if_pos rfl
  · have hinput : Utf8.encode cs ≠ [] := by
      have hle := length_le_encode cs
      have hpos := List.length_pos_iff.2 hne
      exact List.length_pos_iff.1 (by omega)
    have hturns : cs.length < (Utf8.encode cs).length + 1 := Nat.lt_succ_of_le (length_le_encode cs)
    obtain ⟨g, gs, hflat, hall, htext⟩ := bEncodeFrom_groups hne hturns
    have hencode : encode 66 utf8Name (Utf8.encode cs) =
        bEncodeFrom utf8Name bMaxBlockSize ((Utf8.encode cs).length + 1) (Utf8.encode cs) := by
      rw [encode, if_neg (by decide), if_neg hinput, if_pos (by decide)]
      rfl
    have hchars : ∀ q ∈ (g :: gs).map bText, 32 ∉ q ∧ 63 ∉ q := by
      intro q hq
      obtain ⟨h, _, rfl⟩ := List.mem_map.1 hq
      exact bText_chars h
    rw [List.map_cons] at hchars
    have hwords := wordsOf_words (.inl rfl) fun q hq => (hchars q hq).1
    have hdecode := decode_words (.inl rfl) fun q hq => (hchars q hq).2
    rw [← List.map_cons] at hwords hdecode
    refine ⟨_, hencode.trans htext, ?_, ?_⟩
    · intro w hw
      rw [hwords] at hw
      obtain ⟨q, hq, rfl⟩ := List.mem_map.1 hw
      obtain ⟨h, hh, rfl⟩ := List.mem_map.1 hq
      refine ⟨?_, bText h, h, rfl, decode_bText h⟩
      have hstart : (wordStart utf8Name 66).length = 10 := by decide
      have hend : (ansi "?=").length = 2 := by decide
      have hmax : maxEncodedWordLen = 75 := rfl
      have hblock : bMaxBlockSize = 45 := rfl
      have hlength := hall h hh
      rw [wordText, List.length_append, List.length_append, bText, MimeCodeBase64.length_encode]
      omega
    · have hbytes : ∀ groups : List (List Char), (groups.map bText).flatMap (decodePayload 66) = Utf8.encode groups.flatten := by
        intro groups
        induction groups with
        | nil => rfl
        | cons h groups ih => rw [List.map_cons, List.flatMap_cons, ih, decode_bText, List.flatten_cons, Utf8.encode_append]
      rw [hdecode, hbytes, hflat]

/-- The B form is valid for every text, the Q form where no character is cut. -/
theorem encodedWordsValid_iff (cs : List Char) :
    EncodedWordsValid 66 (Utf8.encode cs) ∧ (EncodedWordsValid 81 (Utf8.encode cs) ↔ fitsColumns 0 cs = true) :=
  ⟨encodedWordsValid_b cs, encodedWordsValid_q cs⟩

/-- A character of two bytes at the end of a line. -/
theorem cut_character_not_valid :
    selectEncoding 62 2 = 81 ∧ ¬ EncodedWordsValid 81 (Utf8.encode (List.replicate 60 'a' ++ ['é'])) := by
  refine ⟨by decide, fun h => ?_⟩
  exact absurd ((encodedWordsValid_q _).1 h) (by decide +kernel)

end HMailServer.MimeEncodedWord
