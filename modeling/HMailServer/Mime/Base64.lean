import HMailServer.Util.AnsiString

/- The Base64 coder (`MimeCodeBase64` in `Common/Mime/MimeCode.cpp`, `Base64` in
   `Common/Util/Encoding`). Both loops are automata over a group: the encoder
   carries the bits of a byte that the next character takes, the decoder those of
   a character that the next byte takes. -/
namespace HMailServer
open AnsiString

namespace MimeCodeBase64

/-! ## The code -/

def maxMimeLineLen : Nat := 76

def table : AnsiString := ansi "ABCDEFGHIJKLMNOPQRSTUVWXYZabcdefghijklmnopqrstuvwxyz0123456789+/"

/-- `s_Base64Table[i]`. -/
def tableAt (i : UInt8) : UInt8 := table.getD i.toNat 0

def decodeBase64Char (c : UInt8) : UInt8 :=
  if 65 ≤ c ∧ c ≤ 90 then c - 65
  else if 97 ≤ c ∧ c ≤ 122 then c - 97 + 26
  else if 48 ≤ c ∧ c ≤ 57 then c - 48 + 52
  else if c = 43 then 62
  else if c = 47 then 63
  else 64

/-- What the encoder writes for a byte, and the bits it carries on. -/
def encodeByte (nFrom : Nat) (chHigh4bits ch : UInt8) : AnsiString × UInt8 :=
  match nFrom % 3 with
  | 0 => ([tableAt (ch >>> 2)], (ch <<< 4) &&& 0x30)
  | 1 => ([tableAt (chHigh4bits ||| (ch >>> 4))], (ch <<< 2) &&& 0x3c)
  | _ => ([tableAt (chHigh4bits ||| (ch >>> 6)), tableAt (ch &&& 0x3f)], chHigh4bits)

/-- The loop of `Encode` and what is written behind it. -/
def encodeFrom (addLineBreak : Bool) : Nat → UInt8 → Nat → List UInt8 → AnsiString
  | nFrom, chHigh4bits, nLineLen, [] =>
    (if nFrom % 3 ≠ 0 then tableAt chHigh4bits :: List.replicate (4 - nFrom % 3 - 1) 61 else []) ++
      (if addLineBreak ∧ nLineLen ≠ 0 then [13, 10] else [])
  | nFrom, chHigh4bits, nLineLen, ch :: input =>
    let written := encodeByte nFrom chHigh4bits ch
    let nLineLen := nLineLen + written.1.length
    if addLineBreak ∧ maxMimeLineLen ≤ nLineLen then
      written.1 ++ [13, 10] ++ encodeFrom addLineBreak (nFrom + 1) written.2 0 input
    else written.1 ++ encodeFrom addLineBreak (nFrom + 1) written.2 nLineLen input

def encode (addLineBreak : Bool) (input : AnsiString) : AnsiString := encodeFrom addLineBreak 0 0 0 input

/-- What the decoder writes for a character, and the bits it carries on. -/
def decodeChar (nFrom : Nat) (chHighBits ch : UInt8) : AnsiString × UInt8 :=
  match nFrom % 4 with
  | 0 => ([], ch <<< 2)
  | 1 => ([chHighBits ||| (ch >>> 4)], ch <<< 4)
  | 2 => ([chHighBits ||| (ch >>> 2)], ch <<< 6)
  | _ => ([chHighBits ||| ch], chHighBits)

/-- The loop of `Decode`: `=` ends it, and what is not in the alphabet is
    passed. -/
def decodeFrom : Nat → UInt8 → AnsiString → AnsiString
  | _, _, [] => []
  | nFrom, chHighBits, c :: input =>
    if c = 61 then []
    else
      let decoded := decodeBase64Char c
      if 64 ≤ decoded then decodeFrom nFrom chHighBits input
      else
        let written := decodeChar nFrom chHighBits decoded
        written.1 ++ decodeFrom (nFrom + 1) written.2 input

def decode (input : AnsiString) : AnsiString := decodeFrom 0 0 input

end MimeCodeBase64

namespace Base64

/-- `Base64::Encode`: the line breaks are taken out again. -/
def encode (input : AnsiString) : AnsiString := replaceFrom (ansi "\r\n") [] 0 (MimeCodeBase64.encode true input)

def decode (input : AnsiString) : AnsiString := MimeCodeBase64.decode input

end Base64

namespace MimeCodeBase64

/-! ## The alphabet -/

def isAlphabet (c : UInt8) : Bool := decodeBase64Char c < 64

/-- The characters that mean something to the decoder. -/
def isBase64 (c : UInt8) : Bool := isAlphabet c || c == 61

theorem table_bytes : table =
    (List.range' 65 26 ++ List.range' 97 26 ++ List.range' 48 10 ++ [43, 47]).map UInt8.ofNat := by decide

/-- The decoder and the table undo each other. -/
theorem table_decodes : ∀ c : UInt8, (decodeBase64Char c < 64 → tableAt (decodeBase64Char c) = c) ∧
    (c < 64 → decodeBase64Char (tableAt c) = c) := by
  simp only [tableAt, table_bytes]
  decide +kernel

theorem decodeBase64Char_tableAt (i : UInt8) (h : i < 64) : decodeBase64Char (tableAt i) = i := (table_decodes i).2 h

theorem length_table : table.length = 64 := by
  rw [table_bytes]
  rfl

theorem isAlphabet_iff (c : UInt8) : isAlphabet c = true ↔ c ∈ table := by
  constructor
  · intro h
    have hdigit : decodeBase64Char c < 64 := of_decide_eq_true h
    have hlength : (decodeBase64Char c).toNat < table.length := by
      rw [length_table]
      exact UInt8.lt_iff_toNat_lt.1 hdigit
    rw [← (table_decodes c).1 hdigit, tableAt, List.getD_eq_getElem _ _ hlength]
    exact List.getElem_mem hlength
  · intro h
    obtain ⟨i, hlength, rfl⟩ := List.getElem_of_mem h
    have hi : i < 64 := by rwa [length_table] at hlength
    have hdigit : UInt8.ofNat i < 64 := by
      rw [UInt8.lt_iff_toNat_lt, UInt8.toNat_ofNat_of_lt' (Nat.lt_trans hi (by decide))]
      exact hi
    have hchar := decodeBase64Char_tableAt (UInt8.ofNat i) hdigit
    rw [tableAt, UInt8.toNat_ofNat_of_lt' (Nat.lt_trans hi (by decide)), List.getD_eq_getElem _ _ hlength] at hchar
    rw [isAlphabet, hchar]
    exact decide_eq_true hdigit

theorem ne_padding_of_isAlphabet {c : UInt8} (h : isAlphabet c = true) : (c != 61) = true := by
  rw [bne_iff_ne]
  rintro rfl
  exact absurd h (by decide)

theorem isAlphabet_tableAt {i : UInt8} (h : i < 64) : isAlphabet (tableAt i) = true := by
  rw [isAlphabet, decodeBase64Char_tableAt i h]
  exact decide_eq_true h

theorem isBase64_tableAt {i : UInt8} (h : i < 64) : isBase64 (tableAt i) = true := by
  rw [isBase64, isAlphabet_tableAt h]
  rfl

/-! ## What the decoder passes -/

theorem decodeFrom_skip {nFrom : Nat} {high c : UInt8} (hc : isBase64 c = false) (input : AnsiString) :
    decodeFrom nFrom high (c :: input) = decodeFrom nFrom high input := by
  rw [isBase64, Bool.or_eq_false_iff, isAlphabet, decide_eq_false_iff_not, UInt8.not_lt, beq_eq_false_iff_ne] at hc
  rw [decodeFrom, if_neg hc.2]
  exact if_pos hc.1

theorem decodeFrom_filter (nFrom : Nat) (high : UInt8) (input : AnsiString) :
    decodeFrom nFrom high (input.filter isBase64) = decodeFrom nFrom high input := by
  induction input generalizing nFrom high with
  | nil => rfl
  | cons c input ih =>
    cases hc : isBase64 c with
    | false => rw [List.filter_cons_of_neg (by simp [hc]), decodeFrom_skip hc, ih]
    | true =>
      rw [List.filter_cons_of_pos hc, decodeFrom, decodeFrom]
      split
      · rfl
      · dsimp only
        split
        · exact ih nFrom high
        · rw [ih]

theorem decodeFrom_tableAt {i : UInt8} (hi : i < 64) (nFrom : Nat) (high : UInt8) (input : AnsiString) :
    decodeFrom nFrom high (tableAt i :: input) =
      (decodeChar nFrom high i).1 ++ decodeFrom (nFrom + 1) (decodeChar nFrom high i).2 input := by
  have hne : tableAt i ≠ 61 := by
    intro h
    have halphabet := isAlphabet_tableAt hi
    rw [h] at halphabet
    cases halphabet
  rw [decodeFrom, if_neg hne]
  dsimp only
  rw [decodeBase64Char_tableAt i hi, if_neg (UInt8.not_le.2 hi)]

/-! ## Groups -/

/-- A byte of which the encoder has written a part: the bits both carry. -/
inductive Pending : Nat → AnsiString → UInt8 → UInt8 → Prop where
  | none (high high' : UInt8) : Pending 0 [] high high'
  | six (a : UInt8) : Pending 1 [a] ((a <<< 4) &&& 0x30) ((a >>> 2) <<< 2)
  | four (b : UInt8) : Pending 2 [b] ((b <<< 2) &&& 0x3c) ((b >>> 4) <<< 4)

/-- The bits of a byte: those that pick a character, and those that leave the byte
    and that the next character brings back. -/
theorem octet_bits : ∀ a : UInt8, (a < 64 ↔ a >>> 6 = 0) ∧
    (a >>> 2 < 64 ∧ a >>> 4 < 64 ∧ a >>> 6 < 64 ∧ a &&& 0x3f < 64 ∧ (a <<< 4) &&& 0x30 < 64 ∧ (a <<< 2) &&& 0x3c < 64) ∧
    (((a >>> 2) <<< 2) ||| (((a <<< 4) &&& 0x30) >>> 4) = a ∧ ((a <<< 4) &&& 0x30) <<< 4 = 0 ∧ (a >>> 4) >>> 4 = 0) ∧
    (((a >>> 4) <<< 4) ||| (((a <<< 2) &&& 0x3c) >>> 2) = a ∧ ((a <<< 2) &&& 0x3c) <<< 6 = 0 ∧ (a >>> 6) >>> 2 = 0) ∧
    ((a >>> 6) <<< 6) ||| (a &&& 0x3f) = a := by
  decide +kernel

theorem or_lt {i j : UInt8} (hi : i < 64) (hj : j < 64) : i ||| j < 64 := by
  rw [(octet_bits _).1] at hi hj ⊢
  rw [UInt8.shiftRight_or, hi, hj]
  rfl

theorem index_lt (a : UInt8) : a >>> 2 < 64 ∧ a >>> 4 < 64 ∧ a >>> 6 < 64 ∧ a &&& 0x3f < 64 ∧
    (a <<< 4) &&& 0x30 < 64 ∧ (a <<< 2) &&& 0x3c < 64 := (octet_bits a).2.1

theorem six_bits (a : UInt8) : ((a >>> 2) <<< 2) ||| (((a <<< 4) &&& 0x30) >>> 4) = a ∧
    ((a <<< 4) &&& 0x30) <<< 4 = 0 ∧ (a >>> 4) >>> 4 = 0 := (octet_bits a).2.2.1

theorem four_bits (a : UInt8) : ((a >>> 4) <<< 4) ||| (((a <<< 2) &&& 0x3c) >>> 2) = a ∧
    ((a <<< 2) &&& 0x3c) <<< 6 = 0 ∧ (a >>> 6) >>> 2 = 0 := (octet_bits a).2.2.2.1

theorem last_bits (a : UInt8) : ((a >>> 6) <<< 6) ||| (a &&& 0x3f) = a := (octet_bits a).2.2.2.2

section
variable {n m : Nat} {high : UInt8}

theorem encodeByte_zero (hn : n % 3 = 0) (ch : UInt8) :
    encodeByte n high ch = ([tableAt (ch >>> 2)], (ch <<< 4) &&& 0x30) := by
  simp only [encodeByte, hn]

theorem encodeByte_one (hn : n % 3 = 1) (ch : UInt8) :
    encodeByte n high ch = ([tableAt (high ||| (ch >>> 4))], (ch <<< 2) &&& 0x3c) := by
  simp only [encodeByte, hn]

theorem encodeByte_two (hn : n % 3 = 2) (ch : UInt8) :
    encodeByte n high ch = ([tableAt (high ||| (ch >>> 6)), tableAt (ch &&& 0x3f)], high) := by
  simp only [encodeByte, hn]

theorem decodeChar_zero (hm : m % 4 = 0) (ch : UInt8) : decodeChar m high ch = ([], ch <<< 2) := by
  simp only [decodeChar, hm]

theorem decodeChar_one (hm : m % 4 = 1) (ch : UInt8) : decodeChar m high ch = ([high ||| (ch >>> 4)], ch <<< 4) := by
  simp only [decodeChar, hm]

theorem decodeChar_two (hm : m % 4 = 2) (ch : UInt8) : decodeChar m high ch = ([high ||| (ch >>> 2)], ch <<< 6) := by
  simp only [decodeChar, hm]

theorem decodeChar_three (hm : m % 4 = 3) (ch : UInt8) : decodeChar m high ch = ([high ||| ch], high) := by
  simp only [decodeChar, hm]

/-- The second character ends the first byte and begins the second. -/
theorem decodeChar_second (hm : m % 4 = 1) (a b : UInt8) :
    decodeChar m ((a >>> 2) <<< 2) (((a <<< 4) &&& (0x30 : UInt8)) ||| (b >>> 4)) = ([a], (b >>> 4) <<< 4) := by
  obtain ⟨hbits, hout, _⟩ := six_bits a
  obtain ⟨_, _, hzero⟩ := six_bits b
  rw [decodeChar_one hm, UInt8.shiftRight_or, hzero, UInt8.or_zero, hbits, UInt8.shiftLeft_or, hout, UInt8.zero_or]

/-- The third character ends the second byte and begins the third. -/
theorem decodeChar_third (hm : m % 4 = 2) (b c : UInt8) :
    decodeChar m ((b >>> 4) <<< 4) (((b <<< 2) &&& (0x3c : UInt8)) ||| (c >>> 6)) = ([b], (c >>> 6) <<< 6) := by
  obtain ⟨hbits, hout, _⟩ := four_bits b
  obtain ⟨_, _, hzero⟩ := four_bits c
  rw [decodeChar_two hm, UInt8.shiftRight_or, hzero, UInt8.or_zero, hbits, UInt8.shiftLeft_or, hout, UInt8.zero_or]

end

theorem decodeFrom_lineBreak (nFrom : Nat) (high : UInt8) (input : AnsiString) :
    decodeFrom nFrom high ([13, 10] ++ input) = decodeFrom nFrom high input := by
  rw [List.cons_append, decodeFrom_skip (by decide), List.cons_append, decodeFrom_skip (by decide), List.nil_append]

/-- What one byte adds to what the decoder reads. -/
theorem decodeFrom_encodeByte {n m p : Nat} {pending : AnsiString} {high high' : UInt8} (hn : n % 3 = p) (hm : m % 4 = p)
    (h : Pending p pending high high') (ch : UInt8) :
    ∃ m' p' pending' high'', (n + 1) % 3 = p' ∧ m' % 4 = p' ∧ Pending p' pending' (encodeByte n high ch).2 high'' ∧
      ∀ rest done, decodeFrom m' high'' rest = pending' ++ done →
        decodeFrom m high' ((encodeByte n high ch).1 ++ rest) = pending ++ ch :: done := by
  obtain ⟨hsix, hfour, htwo, hlast, _⟩ := index_lt ch
  cases h with
  | none =>
    rw [encodeByte_zero hn]
    refine ⟨m + 1, 1, [ch], _, by omega, by omega, .six ch, fun rest done hrest => ?_⟩
    rw [List.singleton_append, decodeFrom_tableAt hsix, decodeChar_zero hm, hrest]
    rfl
  | six a =>
    rw [encodeByte_one hn]
    refine ⟨m + 1, 2, [ch], _, by omega, by omega, .four ch, fun rest done hrest => ?_⟩
    rw [List.singleton_append, decodeFrom_tableAt (or_lt (index_lt a).2.2.2.2.1 hfour), decodeChar_second hm, hrest]
    rfl
  | four b =>
    have hthree : (m + 1) % 4 = 3 := by omega
    rw [encodeByte_two hn]
    refine ⟨m + 2, 0, [], (ch >>> 6) <<< 6, by omega, by omega, .none _ _, fun rest done hrest => ?_⟩
    have htail := decodeFrom_tableAt hlast (m + 1) ((ch >>> 6) <<< 6) rest
    rw [decodeChar_three hthree, last_bits, hrest] at htail
    rw [List.cons_append, decodeFrom_tableAt (or_lt (index_lt b).2.2.2.2.2 htwo), decodeChar_third hm]
    exact congrArg (b :: ·) htail

/-- The decoder gives back what is pending, and the bytes behind it. -/
theorem decodeFrom_encodeFrom (addLineBreak : Bool) (input : AnsiString) {n m p : Nat} {pending : AnsiString}
    {high high' : UInt8} (nLineLen : Nat) (hn : n % 3 = p) (hm : m % 4 = p) (h : Pending p pending high high') :
    decodeFrom m high' (encodeFrom addLineBreak n high nLineLen input) = pending ++ input := by
  induction input generalizing n m p pending high high' nLineLen with
  | nil =>
    have hpad : ∀ m high' rest, decodeFrom m high' (61 :: rest) = [] := fun m high' rest => by rw [decodeFrom, if_pos rfl]
    rw [encodeFrom, List.append_nil]
    cases h with
    | none =>
      rw [if_neg (by omega), List.nil_append]
      split
      · exact decodeFrom_lineBreak m high' []
      · rfl
    | six a =>
      have hpads : List.replicate (4 - 1 - 1) (61 : UInt8) = [61, 61] := rfl
      rw [if_pos (by omega), hn, hpads, List.cons_append, decodeFrom_tableAt (index_lt a).2.2.2.2.1, List.cons_append, hpad,
        decodeChar_one hm, (six_bits a).1]
      rfl
    | four b =>
      have hpads : List.replicate (4 - 2 - 1) (61 : UInt8) = [61] := rfl
      rw [if_pos (by omega), hn, hpads, List.cons_append, decodeFrom_tableAt (index_lt b).2.2.2.2.2, List.cons_append, hpad,
        decodeChar_two hm, (four_bits b).1]
      rfl
  | cons ch input ih =>
    obtain ⟨m', p', pending', high'', hn', hm', h', hwritten⟩ := decodeFrom_encodeByte hn hm h ch
    rw [encodeFrom]
    split
    · rw [List.append_assoc]
      apply hwritten
      rw [decodeFrom_lineBreak]
      exact ih 0 hn' hm' h'
    · apply hwritten
      exact ih _ hn' hm' h'

/-- Decoding undoes encoding. -/
theorem decode_encode (addLineBreak : Bool) (input : AnsiString) : decode (encode addLineBreak input) = input :=
  decodeFrom_encodeFrom (n := 0) (m := 0) addLineBreak input 0 rfl rfl (.none 0 0)

/-! ## What is written -/

/-- A written character is in the alphabet. -/
theorem mem_encodeByte {n p : Nat} {pending : AnsiString} {high high' : UInt8} (hn : n % 3 = p)
    (h : Pending p pending high high') (ch : UInt8) : ∀ c ∈ (encodeByte n high ch).1, isAlphabet c = true := by
  obtain ⟨hsix, hfour, htwo, hlast, _⟩ := index_lt ch
  intro c hc
  cases h with
  | none =>
    rw [encodeByte_zero hn, List.mem_singleton] at hc
    rw [hc]
    exact isAlphabet_tableAt hsix
  | six a =>
    rw [encodeByte_one hn, List.mem_singleton] at hc
    rw [hc]
    exact isAlphabet_tableAt (or_lt (index_lt a).2.2.2.2.1 hfour)
  | four b =>
    rw [encodeByte_two hn, List.mem_cons, List.mem_singleton] at hc
    rcases hc with rfl | rfl
    · exact isAlphabet_tableAt (or_lt (index_lt b).2.2.2.2.2 htwo)
    · exact isAlphabet_tableAt hlast

theorem Pending.next {n p : Nat} {pending : AnsiString} {high high' : UInt8} (hn : n % 3 = p)
    (h : Pending p pending high high') (ch : UInt8) :
    ∃ p' pending' high'', (n + 1) % 3 = p' ∧ Pending p' pending' (encodeByte n high ch).2 high'' := by
  obtain ⟨m', p', pending', high'', hn', _, h', _⟩ := decodeFrom_encodeByte (m := p) hn (by cases h <;> rfl) h ch
  exact ⟨p', pending', high'', hn', h'⟩

theorem length_encodeByte {n : Nat} (high ch : UInt8) :
    (encodeByte n high ch).1.length = if n % 3 = 2 then 2 else 1 := by
  have hlt : n % 3 < 3 := Nat.mod_lt n (by decide)
  by_cases hzero : n % 3 = 0
  · rw [encodeByte_zero hzero, if_neg (by omega)]
    rfl
  · by_cases hone : n % 3 = 1
    · rw [encodeByte_one hone, if_neg (by omega)]
      rfl
    · have htwo : n % 3 = 2 := by omega
      rw [encodeByte_two htwo, if_pos htwo]
      rfl

theorem encodeFrom_false_cons (n : Nat) (high : UInt8) (nLineLen nLineLen' : Nat) (ch : UInt8) (input : List UInt8) :
    encodeFrom false n high nLineLen (ch :: input) =
      (encodeByte n high ch).1 ++ encodeFrom false (n + 1) (encodeByte n high ch).2 nLineLen' input := by
  induction input generalizing n high nLineLen nLineLen' ch with
  | nil => simp [encodeFrom]
  | cons d input ih =>
    rw [encodeFrom, if_neg (by simp), ih (n + 1) _ _ 0, ih (n + 1) _ nLineLen' 0]

theorem encodeFrom_false_lineLen (n : Nat) (high : UInt8) (nLineLen nLineLen' : Nat) (input : List UInt8) :
    encodeFrom false n high nLineLen input = encodeFrom false n high nLineLen' input := by
  cases input with
  | nil => simp [encodeFrom]
  | cons ch input => rw [encodeFrom_false_cons _ _ _ 0, encodeFrom_false_cons _ _ nLineLen' 0]

/-- A group of three bytes takes four characters. -/
theorem length_encodeFrom (n : Nat) (high : UInt8) (nLineLen : Nat) (input : List UInt8) :
    (encodeFrom false n high nLineLen input).length + n % 3 = 4 * ((input.length + n % 3 + 2) / 3) := by
  have hlt : n % 3 < 3 := Nat.mod_lt n (by decide)
  induction input generalizing n high nLineLen with
  | nil =>
    rw [encodeFrom, if_neg (c := false = true ∧ _) (by simp), List.append_nil]
    split
    · rw [List.length_cons, List.length_replicate, List.length_nil]
      omega
    · rw [List.length_nil]
      omega
  | cons ch input ih =>
    have hrest := ih (n + 1) (encodeByte n high ch).2 0 (Nat.mod_lt _ (by decide))
    rw [encodeFrom_false_cons _ _ _ 0, List.length_append, length_encodeByte, List.length_cons]
    split <;> omega

theorem length_encode (input : AnsiString) : (encode false input).length = 4 * ((input.length + 2) / 3) :=
  length_encodeFrom 0 0 0 input

/-- What the encoder writes behind the last byte. -/
def padding (n : Nat) (high : UInt8) : AnsiString :=
  if n % 3 ≠ 0 then tableAt high :: List.replicate (4 - n % 3 - 1) 61 else []

theorem padding_spec {n p : Nat} {pending : AnsiString} {high high' : UInt8} (hn : n % 3 = p)
    (h : Pending p pending high high') :
    ∃ body k, padding n high = body ++ List.replicate k 61 ∧ k ≤ 2 ∧ ∀ c ∈ body, isAlphabet c = true := by
  cases h with
  | none => exact ⟨[], 0, by rw [padding, if_neg (by omega)]; rfl, by omega, fun c hc => absurd hc List.not_mem_nil⟩
  | six a =>
    refine ⟨[tableAt ((a <<< 4) &&& 0x30)], 2, ?_, by omega, ?_⟩
    · rw [padding, if_pos (by omega), hn]
      rfl
    · intro c hc
      rw [List.mem_singleton.1 hc]
      exact isAlphabet_tableAt (index_lt a).2.2.2.2.1
  | four b =>
    refine ⟨[tableAt ((b <<< 2) &&& 0x3c)], 1, ?_, by omega, ?_⟩
    · rw [padding, if_pos (by omega), hn]
      rfl
    · intro c hc
      rw [List.mem_singleton.1 hc]
      exact isAlphabet_tableAt (index_lt b).2.2.2.2.2

/-- Without line breaks: characters of the alphabet, and up to two `=` behind
    them. -/
theorem encodeFrom_body {n p : Nat} {pending : AnsiString} {high high' : UInt8} (nLineLen : Nat) (input : List UInt8)
    (hn : n % 3 = p) (h : Pending p pending high high') :
    ∃ body k, encodeFrom false n high nLineLen input = body ++ List.replicate k 61 ∧ k ≤ 2 ∧
      ∀ c ∈ body, isAlphabet c = true := by
  induction input generalizing n p pending high high' nLineLen with
  | nil =>
    have hend : encodeFrom false n high nLineLen [] = padding n high := by
      rw [encodeFrom, padding, if_neg (c := false = true ∧ _) (by simp), List.append_nil]
    rw [hend]
    exact padding_spec hn h
  | cons ch input ih =>
    obtain ⟨p', pending', high'', hn', h'⟩ := h.next hn ch
    obtain ⟨body, k, hbody, hk, hall⟩ := ih 0 hn' h'
    refine ⟨(encodeByte n high ch).1 ++ body, k, ?_, hk, ?_⟩
    · rw [encodeFrom_false_cons _ _ _ 0, hbody, List.append_assoc]
    · intro c hc
      rcases List.mem_append.1 hc with hc | hc
      · exact mem_encodeByte hn h ch c hc
      · exact hall c hc

/-- With line breaks: what is written in lines of at most 76 characters. The
    line so far ends where the group does. -/
theorem encodeFrom_lines {n p : Nat} {pending : AnsiString} {high high' : UInt8} (line : AnsiString) (input : List UInt8)
    (hn : n % 3 = p) (h : Pending p pending high high') (hline : line.length % 4 = p) (hlength : line.length < maxMimeLineLen) :
    ∃ lines : List AnsiString, line ++ encodeFrom true n high line.length input = lines.flatMap (· ++ [13, 10]) ∧
      lines.flatten = line ++ encodeFrom false n high 0 input ∧ ∀ l ∈ lines, l.length ≤ maxMimeLineLen := by
  have hmax : maxMimeLineLen = 76 := rfl
  induction input generalizing n p pending high high' line with
  | nil =>
    have hpadding : (padding n high).length = if n % 3 ≠ 0 then 4 - n % 3 else 0 := by
      rw [padding]
      split
      · rw [List.length_cons, List.length_replicate]
        have hlt : n % 3 < 3 := Nat.mod_lt n (by decide)
        omega
      · rfl
    have hlt : n % 3 < 3 := Nat.mod_lt n (by decide)
    have hfalse : encodeFrom false n high 0 [] = padding n high := by
      rw [encodeFrom, padding, if_neg (c := false = true ∧ _) (by simp), List.append_nil]
    by_cases hnil : line.length = 0
    · have hp : n % 3 = 0 := by omega
      refine ⟨[], ?_, ?_, fun l hl => absurd hl List.not_mem_nil⟩
      · rw [List.length_eq_zero_iff.1 hnil, encodeFrom, if_neg (by omega), if_neg (by simp)]
        rfl
      · rw [hfalse, padding, if_neg (by omega), List.length_eq_zero_iff.1 hnil]
        rfl
    · refine ⟨[line ++ padding n high], ?_, ?_, ?_⟩
      · rw [encodeFrom, if_pos (c := true = true ∧ _) ⟨rfl, hnil⟩, ← padding]
        simp
      · rw [hfalse]
        simp
      · intro l hl
        rw [List.mem_singleton.1 hl, List.length_append, hpadding]
        split <;> omega
  | cons ch input ih =>
    obtain ⟨p', pending', high'', hn', h'⟩ := h.next hn ch
    have hwritten := length_encodeByte (n := n) high ch
    have hlt : n % 3 < 3 := Nat.mod_lt n (by decide)
    rw [encodeFrom_false_cons _ _ _ 0, encodeFrom]
    by_cases hfull : maxMimeLineLen ≤ line.length + (encodeByte n high ch).1.length
    · have htwo : n % 3 = 2 := by
        by_contra hne
        rw [if_neg hne] at hwritten
        omega
      rw [if_pos htwo] at hwritten
      obtain ⟨lines, hlines, hflat, hall⟩ := ih [] hn' h' (by rw [List.length_nil]; omega) (by decide)
      refine ⟨(line ++ (encodeByte n high ch).1) :: lines, ?_, ?_, List.forall_mem_cons.2 ⟨?_, hall⟩⟩
      · rw [if_pos ⟨rfl, hfull⟩, List.flatMap_cons, ← hlines]
        simp
      · rw [List.flatten_cons, hflat]
        simp
      · rw [List.length_append]
        omega
    · have hmod : (line ++ (encodeByte n high ch).1).length % 4 = p' := by
        rw [List.length_append, hwritten]
        split <;> omega
      obtain ⟨lines, hlines, hflat, hall⟩ := ih (line ++ (encodeByte n high ch).1) hn' h' hmod
        (by rw [List.length_append]; omega)
      refine ⟨lines, ?_, ?_, hall⟩
      · rw [if_neg (fun hc => hfull hc.2), ← hlines, List.length_append, List.append_assoc]
      · rw [hflat, List.append_assoc]

/-- Without its padding the text takes a character for every six bits. -/
theorem length_filter_encodeFrom {n p : Nat} {pending : AnsiString} {high high' : UInt8} (nLineLen : Nat) (input : List UInt8)
    (hn : n % 3 = p) (h : Pending p pending high high') :
    ((encodeFrom false n high nLineLen input).filter (· != 61)).length = (8 * input.length + 2 * p + 5) / 6 := by
  induction input generalizing n p pending high high' nLineLen with
  | nil =>
    have hend : encodeFrom false n high nLineLen [] = padding n high := by
      rw [encodeFrom, padding, if_neg (c := false = true ∧ _) (by simp), List.append_nil]
    have hone : ∀ i k, i < 64 → ((tableAt i :: List.replicate k 61).filter (· != 61)).length = 1 := by
      intro i k hi
      have hkeep : (tableAt i != 61) = true := ne_padding_of_isAlphabet (isAlphabet_tableAt hi)
      have hdrop : (List.replicate k (61 : UInt8)).filter (· != 61) = [] := List.filter_replicate_of_neg (by decide)
      rw [List.filter_cons, if_pos hkeep, hdrop]
      rfl
    rw [hend, padding]
    cases h with
    | none => rw [if_neg (by omega)]; rfl
    | six a => rw [if_pos (by omega), hone _ _ (index_lt a).2.2.2.2.1]; rfl
    | four b => rw [if_pos (by omega), hone _ _ (index_lt b).2.2.2.2.2]; rfl
  | cons ch input ih =>
    obtain ⟨p', pending', high'', hn', h'⟩ := h.next hn ch
    have hwritten : (encodeByte n high ch).1.filter (· != 61) = (encodeByte n high ch).1 :=
      List.filter_eq_self.2 fun c hc => ne_padding_of_isAlphabet (mem_encodeByte hn h ch c hc)
    have hlt : n % 3 < 3 := Nat.mod_lt n (by decide)
    rw [encodeFrom_false_cons _ _ _ 0, List.filter_append, hwritten, List.length_append, length_encodeByte, ih 0 hn' h',
      List.length_cons]
    split <;> omega

theorem encode_body (input : AnsiString) :
    ∃ body k, encode false input = body ++ List.replicate k 61 ∧ k ≤ 2 ∧ ∀ c ∈ body, c ∈ table := by
  obtain ⟨body, k, hbody, hk, hall⟩ := encodeFrom_body (n := 0) 0 input rfl (.none 0 0)
  exact ⟨body, k, hbody, hk, fun c hc => (isAlphabet_iff c).1 (hall c hc)⟩

theorem encode_lines (input : AnsiString) :
    ∃ lines : List AnsiString, encode true input = lines.flatMap (· ++ [13, 10]) ∧ lines.flatten = encode false input ∧
      ∀ l ∈ lines, l.length ≤ maxMimeLineLen :=
  encodeFrom_lines (n := 0) [] input rfl (.none 0 0) rfl (by decide)

/-! ## Without padding -/

def unpadded (input : AnsiString) : AnsiString := (encode false input).filter (· != 61)

theorem length_unpadded (input : AnsiString) : (unpadded input).length = (8 * input.length + 5) / 6 :=
  length_filter_encodeFrom (n := 0) 0 input rfl (.none 0 0)

theorem unpadded_body (input : AnsiString) :
    ∃ k, encode false input = unpadded input ++ List.replicate k 61 ∧ ∀ c ∈ unpadded input, c ∈ table := by
  obtain ⟨body, k, hbody, _, hall⟩ := encode_body input
  have hkeep : body.filter (· != 61) = body :=
    List.filter_eq_self.2 fun c hc => ne_padding_of_isAlphabet ((isAlphabet_iff c).2 (hall c hc))
  have hunpadded : unpadded input = body := by
    rw [unpadded, hbody, List.filter_append, hkeep, List.filter_replicate_of_neg (by decide), List.append_nil]
  rw [hunpadded]
  exact ⟨k, hbody, hall⟩

/-- The padding ends the text for the decoder, as the end does. -/
theorem decodeFrom_padding (nFrom : Nat) (high : UInt8) (text : AnsiString) (k : Nat) (h : (61 : UInt8) ∉ text) :
    decodeFrom nFrom high (text ++ List.replicate k 61) = decodeFrom nFrom high text := by
  induction text generalizing nFrom high with
  | nil =>
    cases k with
    | zero => rfl
    | succ k =>
      rw [List.nil_append, List.replicate_succ]
      exact if_pos rfl
  | cons c text ih =>
    rw [List.mem_cons, not_or] at h
    simp only [List.cons_append, decodeFrom, ih _ _ h.2]

theorem decode_unpadded (input : AnsiString) : decode (unpadded input) = input := by
  obtain ⟨k, hencode, hall⟩ := unpadded_body input
  have hno : (61 : UInt8) ∉ unpadded input := fun hc => absurd ((isAlphabet_iff 61).2 (hall 61 hc)) (by decide)
  calc decode (unpadded input) = decode (encode false input) := by
        rw [hencode]
        exact (decodeFrom_padding 0 0 _ k hno).symm
    _ = input := decode_encode false input

/-- Only characters that mean something to the decoder are written. -/
theorem isBase64_encode (input : AnsiString) : ∀ c ∈ encode false input, isBase64 c = true := by
  obtain ⟨body, k, hbody, _, hall⟩ := encode_body input
  intro c hc
  rw [hbody, List.mem_append] at hc
  rcases hc with hc | hc
  · rw [isBase64, (isAlphabet_iff c).2 (hall c hc)]
    rfl
  · rw [List.eq_of_mem_replicate hc]
    rfl

theorem noLineBreak_encode (input : AnsiString) : (13 : UInt8) ∉ encode false input := by
  intro hc
  exact absurd (isBase64_encode input 13 hc) (by decide)

end MimeCodeBase64

namespace Base64

theorem replaceFrom_lines (lines : List AnsiString) (h : (13 : UInt8) ∉ lines.flatten) :
    replaceFrom [13, 10] [] 0 (lines.flatMap (· ++ [13, 10])) = lines.flatten := by
  have hline : ∀ l rest : AnsiString, (13 : UInt8) ∉ l →
      replaceFrom [13, 10] [] 0 (l ++ 13 :: 10 :: rest) = l ++ replaceFrom [13, 10] [] 0 rest := by
    intro l rest hl
    induction l with
    | nil => rfl
    | cons c l ih =>
      rw [List.mem_cons, not_or] at hl
      have hno : List.isPrefixOf [13, 10] (c :: (l ++ 13 :: 10 :: rest)) = false := by simp [List.isPrefixOf, hl.1]
      rw [List.cons_append, replaceFrom, hno, if_neg Bool.false_ne_true, ih hl.2, List.cons_append]
  induction lines with
  | nil => rfl
  | cons l lines ih =>
    rw [List.flatten_cons, List.mem_append, not_or] at h
    rw [List.flatMap_cons, List.append_assoc, List.cons_append, List.cons_append, List.nil_append, hline _ _ h.1, ih h.2,
      List.flatten_cons]

theorem encode_eq (input : AnsiString) : encode input = MimeCodeBase64.encode false input := by
  obtain ⟨lines, hlines, hflat, _⟩ := MimeCodeBase64.encode_lines input
  have hcr := MimeCodeBase64.noLineBreak_encode input
  rw [← hflat] at hcr
  rw [encode, hlines, ← hflat]
  exact replaceFrom_lines lines hcr

end Base64

namespace MimeCodeBase64

/-- Decoding gives back what was encoded, whatever was put between the characters
    that mean something to it. The encoding is made of the alphabet and up to two
    `=`, in lines of at most 76 characters where line breaks are on. -/
theorem base64_round_trip (input : AnsiString) :
    (∀ addLineBreak text, text.filter isBase64 = (encode addLineBreak input).filter isBase64 → decode text = input) ∧
    (∃ body k, encode false input = body ++ List.replicate k 61 ∧ k ≤ 2 ∧ ∀ c ∈ body, c ∈ table) ∧
    (∃ lines : List AnsiString, encode true input = lines.flatMap (· ++ [13, 10]) ∧
      lines.flatten = encode false input ∧ ∀ l ∈ lines, l.length ≤ maxMimeLineLen) ∧
    Base64.encode input = encode false input ∧ Base64.decode (Base64.encode input) = input := by
  have hdecode : ∀ addLineBreak text, text.filter isBase64 = (encode addLineBreak input).filter isBase64 →
      decode text = input := by
    intro addLineBreak text htext
    calc decode text = decode (text.filter isBase64) := (decodeFrom_filter 0 0 text).symm
      _ = decode ((encode addLineBreak input).filter isBase64) := by rw [htext]
      _ = decode (encode addLineBreak input) := decodeFrom_filter 0 0 _
      _ = input := decode_encode addLineBreak input
  refine ⟨hdecode, encode_body input, encode_lines input, Base64.encode_eq input, ?_⟩
  rw [Base64.encode_eq, Base64.decode, decode_encode]

/-- A text with spaces and a line end in it. -/
theorem decode_spaced_text : decode (ansi " VG V\r\nz*dA=-=") = ansi "Test" :=
  (base64_round_trip (ansi "Test")).1 true _ (by decide +kernel)

end MimeCodeBase64
end HMailServer
