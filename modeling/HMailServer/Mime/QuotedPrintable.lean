import HMailServer.AntiSpam.Dkim.BodyCanonicalization

/- The quoted-printable coder (`MimeCodeQP` in `Common/Mime/MimeCode.cpp`). The
   bytes in front of the one that is encoded stand last first, as the encoder
   looks back at them. -/
namespace HMailServer
open AnsiString

namespace MimeCodeQP

/-! ## The code -/

def maxMimeLineLen : Int := 76

/-- `s_QPTable[i]`. -/
def tableAt (i : UInt8) : UInt8 := (ansi "0123456789ABCDEF").getD i.toNat 0

/-- `CMimeChar::IsHexDigit`: capital letters only. -/
def isHexDigit (c : UInt8) : Bool := (48 ≤ c && c ≤ 57) || (65 ≤ c && c ≤ 70)

/-- A dot alone on its line, in front of another one. -/
def isLoneDot (before after : List UInt8) : Bool :=
  match before, after with
  | 10 :: 13 :: _, 13 :: 10 :: _ => true
  | _, _ => false

/-- `bQuote`: whether the byte is written as an escape. -/
def isQuoted (quoteLineBreak addLineBreak : Bool) (before : List UInt8) (nLineLen : Int) (ch : UInt8)
    (after : List UInt8) : Bool :=
  if ch = 9 ∨ ch = 32 then
    after.isEmpty || (!quoteLineBreak && after.head? == some 13) ||
      (addLineBreak && decide (maxMimeLineLen - 4 ≤ nLineLen))
  else if !quoteLineBreak && (ch == 13 || ch == 10) then false
  else if !quoteLineBreak && ch == 46 then isLoneDot before after
  else ch < 33 || ch > 126 || ch == 61

def escape (ch : UInt8) : AnsiString := [61, tableAt ((ch >>> 4) &&& 0x0f), tableAt (ch &&& 0x0f)]

/-- What is written for a byte. -/
def writtenByte (quoteLineBreak addLineBreak : Bool) (before : List UInt8) (nLineLen : Int) (ch : UInt8)
    (after : List UInt8) : AnsiString :=
  if isQuoted quoteLineBreak addLineBreak before nLineLen ch after then escape ch else [ch]

/-- The loop of `Encode`. A hard line break is copied, and the line starts
    anew. -/
def encodeFrom (quoteLineBreak addLineBreak : Bool) : List UInt8 → Int → List UInt8 → AnsiString
  | _, _, [] => []
  | before, nLineLen, ch :: input =>
    let written := writtenByte quoteLineBreak addLineBreak before nLineLen ch input
    let nLineLen := if !quoteLineBreak && (ch == 13 || ch == 10) then -1 else nLineLen
    if addLineBreak ∧ maxMimeLineLen ≤ nLineLen + written.length then
      [61, 13, 10] ++ (written ++ encodeFrom quoteLineBreak addLineBreak (ch :: before) written.length input)
    else written ++ encodeFrom quoteLineBreak addLineBreak (ch :: before) (nLineLen + written.length) input

def encode (quoteLineBreak addLineBreak : Bool) (input : AnsiString) : AnsiString :=
  encodeFrom quoteLineBreak addLineBreak [] 0 input

/-- The value of a digit; letters are not looked at further. -/
def digitValue (c : UInt8) : UInt8 := c - if c > 57 then 0x37 else 48

def decode : AnsiString → AnsiString
  | [] => []
  | c :: input =>
    if c = 61 then
      match input with
      | d :: e :: input =>
        if isHexDigit d then ((digitValue d <<< 4) ||| (digitValue e &&& 0x0f)) :: decode input
        else if d = 13 ∧ e = 10 then decode input
        else d :: decode (e :: input)
      | _ => []
    else c :: decode input

/-! ## The round trip -/

/-- A digit of an escape is a capital letter or a decimal digit, and its value is
    read back. -/
theorem tableAt_digit : ∀ i : Fin 16, isHexDigit (tableAt (UInt8.ofNat i)) = true ∧
    digitValue (tableAt (UInt8.ofNat i)) = UInt8.ofNat i := by
  decide

theorem exists_nibble (b : UInt8) : ∃ i : Fin 16, b &&& 0x0f = UInt8.ofNat i := by
  have hlt : (b &&& 0x0f).toNat < 16 := by
    rw [UInt8.toNat_and]
    exact Nat.lt_succ_of_le Nat.and_le_right
  exact ⟨⟨(b &&& 0x0f).toNat, hlt⟩, UInt8.ofNat_toNat.symm⟩

theorem isHexDigit_tableAt (b : UInt8) : isHexDigit (tableAt (b &&& 0x0f)) = true := by
  obtain ⟨i, hi⟩ := exists_nibble b
  rw [hi]
  exact (tableAt_digit i).1

theorem digitValue_tableAt (b : UInt8) : digitValue (tableAt (b &&& 0x0f)) = b &&& 0x0f := by
  obtain ⟨i, hi⟩ := exists_nibble b
  rw [hi]
  exact (tableAt_digit i).2

theorem nibbles_joined : ∀ ch : UInt8, (((ch >>> 4) &&& 0x0f) <<< 4) ||| ((ch &&& 0x0f) &&& 0x0f) = ch := by
  decide +kernel

theorem decode_escape (ch : UInt8) (rest : AnsiString) : decode (escape ch ++ rest) = ch :: decode rest := by
  rw [escape, List.cons_append, List.cons_append, List.cons_append, List.nil_append, decode, if_pos rfl,
    if_pos (isHexDigit_tableAt (ch >>> 4)), digitValue_tableAt, digitValue_tableAt, nibbles_joined]

theorem decode_softBreak (rest : AnsiString) : decode (61 :: 13 :: 10 :: rest) = decode rest := by
  rw [decode, if_pos rfl, if_neg (by decide), if_pos ⟨rfl, rfl⟩]

theorem decode_char {c : UInt8} (hc : c ≠ 61) (rest : AnsiString) : decode (c :: rest) = c :: decode rest := by
  rw [decode.eq_def]
  simp [hc]

/-- An equals sign is always quoted. -/
theorem isQuoted_equals (quoteLineBreak addLineBreak : Bool) (before : List UInt8) (nLineLen : Int) (after : List UInt8) :
    isQuoted quoteLineBreak addLineBreak before nLineLen 61 after = true := by
  cases quoteLineBreak <;> rfl

/-- What is written for a byte is read back. -/
theorem decode_written (quoteLineBreak addLineBreak : Bool) (before : List UInt8) (nLineLen : Int) (ch : UInt8)
    (after rest : AnsiString) :
    decode (writtenByte quoteLineBreak addLineBreak before nLineLen ch after ++ rest) = ch :: decode rest := by
  rw [writtenByte]
  split
  · exact decode_escape ch rest
  · rename_i hcopy
    have hne : ch ≠ 61 := by
      rintro rfl
      exact hcopy (isQuoted_equals quoteLineBreak addLineBreak before nLineLen after)
    exact decode_char hne rest

theorem decode_encodeFrom (quoteLineBreak addLineBreak : Bool) (before : List UInt8) (nLineLen : Int) (input : AnsiString) :
    decode (encodeFrom quoteLineBreak addLineBreak before nLineLen input) = input := by
  induction input generalizing before nLineLen with
  | nil => rfl
  | cons ch input ih =>
    rw [encodeFrom]
    generalize (if (!quoteLineBreak && (ch == 13 || ch == 10)) = true then -1 else nLineLen) = nLineLen'
    split
    · rw [List.cons_append, List.cons_append, List.cons_append, List.nil_append, decode_softBreak, decode_written, ih]
    · rw [decode_written, ih]

/-! ## The lines -/

/-- A text whose lines end in CRLF, the last one perhaps in nothing. -/
inductive CrlfText : AnsiString → Prop where
  | nil : CrlfText []
  | char {c : UInt8} {rest : AnsiString} (cr : c ≠ 13) (lf : c ≠ 10) (text : CrlfText rest) : CrlfText (c :: rest)
  | lineEnd {rest : AnsiString} (text : CrlfText rest) : CrlfText (13 :: 10 :: rest)

/-- A line may be written: it is short enough, and no space or tab stands at its
    end. -/
def WritableLine (l : AnsiString) : Prop := l.length ≤ 76 ∧ ∀ c, l.getLast? = some c → c ≠ 32 ∧ c ≠ 9

/-- The line that is written so far, in front of the input. -/
structure OpenLine (quoteLineBreak : Bool) (line input : AnsiString) : Prop where
  noCr : (13 : UInt8) ∉ line
  length : line.length < 76
  blank : ∀ c, line.getLast? = some c → c = 32 ∨ c = 9 → input ≠ [] ∧ (quoteLineBreak = false → input.head? ≠ some 13)

theorem noLineEnd_of_noCr {s : AnsiString} (h : (13 : UInt8) ∉ s) : Dkim.NoLineEnd s := by
  induction s with
  | nil => trivial
  | cons c s ih =>
    rw [List.mem_cons, not_or] at h
    rw [Dkim.noLineEnd_cons fun hc => absurd hc.symm h.1]
    exact ih h.2

theorem not_blank_of_hexDigit {c : UInt8} (h : isHexDigit c = true) : c ≠ 13 ∧ c ≠ 32 ∧ c ≠ 9 := by
  refine ⟨?_, ?_, ?_⟩ <;>
  · rintro rfl
    exact absurd h (by decide)

theorem escape_chars (ch : UInt8) : ∀ c ∈ escape ch, c ≠ 13 ∧ c ≠ 32 ∧ c ≠ 9 := by
  intro c hc
  rw [escape, List.mem_cons, List.mem_cons, List.mem_singleton] at hc
  rcases hc with rfl | rfl | rfl
  · decide
  · exact not_blank_of_hexDigit (isHexDigit_tableAt _)
  · exact not_blank_of_hexDigit (isHexDigit_tableAt _)

section
variable {quoteLineBreak : Bool}

/-- A blank that is copied stands neither at the end nor in front of a line
    break. -/
theorem isQuoted_blank {before after : List UInt8} {nLineLen : Int} {ch : UInt8} (hch : ch = 32 ∨ ch = 9)
    (h : isQuoted quoteLineBreak true before nLineLen ch after = false) :
    after ≠ [] ∧ (quoteLineBreak = false → after.head? ≠ some 13) := by
  rw [isQuoted, if_pos hch.symm, Bool.or_eq_false_iff, Bool.or_eq_false_iff] at h
  obtain ⟨⟨hend, hbreak⟩, _⟩ := h
  constructor
  · rintro rfl
    cases hend
  · rintro rfl hhead
    rw [hhead] at hbreak
    cases hbreak

theorem isQuoted_cr {before after : List UInt8} {nLineLen : Int} :
    isQuoted true true before nLineLen 13 after = true := rfl

/-- The line that a written byte leaves open. -/
theorem openLine_written {line before after : AnsiString} {nLineLen : Int} {ch : UInt8}
    (hline : (13 : UInt8) ∉ line) (hcr : quoteLineBreak = false → ch ≠ 13)
    (hlength : (line ++ writtenByte quoteLineBreak true before nLineLen ch after).length < 76) :
    OpenLine quoteLineBreak (line ++ writtenByte quoteLineBreak true before nLineLen ch after) after := by
  rw [writtenByte] at hlength ⊢
  cases hquoted : isQuoted quoteLineBreak true before nLineLen ch after with
  | true =>
    rw [hquoted, if_pos rfl] at hlength
    rw [if_pos rfl]
    refine ⟨?_, hlength, fun c hc hblank => ?_⟩
    · rw [List.mem_append, not_or]
      exact ⟨hline, fun hc => (escape_chars ch 13 hc).1 rfl⟩
    · have hne : escape ch ≠ [] := List.cons_ne_nil _ _
      rw [List.getLast?_append_of_ne_nil _ hne] at hc
      obtain ⟨_, h32, h9⟩ := escape_chars ch c (List.mem_of_getLast? hc)
      rcases hblank with hc | hc
      · exact absurd hc h32
      · exact absurd hc h9
  | false =>
    rw [hquoted, if_neg Bool.false_ne_true] at hlength
    rw [if_neg Bool.false_ne_true]
    have hno : ch ≠ 13 := by
      rintro rfl
      cases quoteLineBreak with
      | false => exact hcr rfl rfl
      | true =>
        rw [isQuoted_cr] at hquoted
        cases hquoted
    refine ⟨?_, hlength, fun c hc hblank => ?_⟩
    · rw [List.mem_append, List.mem_singleton, not_or]
      exact ⟨hline, hno.symm⟩
    · rw [List.getLast?_concat, Option.some_inj] at hc
      rw [← hc] at hblank
      exact isQuoted_blank hblank hquoted

theorem length_writtenByte (addLineBreak : Bool) (before : List UInt8) (nLineLen : Int) (ch : UInt8) (after : List UInt8) :
    (writtenByte quoteLineBreak addLineBreak before nLineLen ch after).length ≤ 3 := by
  rw [writtenByte]
  split
  · exact Nat.le_refl 3
  · exact Nat.le_of_lt (by decide : 1 < 3)

theorem encodeFrom_lineEnd (addLineBreak : Bool) (before : List UInt8) (nLineLen : Int) (rest : List UInt8) :
    encodeFrom false addLineBreak before nLineLen (13 :: 10 :: rest) =
      13 :: 10 :: encodeFrom false addLineBreak (10 :: 13 :: before) 0 rest := by
  have hcr : writtenByte false addLineBreak before nLineLen 13 (10 :: rest) = [13] := rfl
  have hlf : writtenByte false addLineBreak (13 :: before) 0 10 rest = [10] := rfl
  have hmax : maxMimeLineLen = 76 := rfl
  have hshort : ¬ (addLineBreak = true ∧ maxMimeLineLen ≤ -1 + (([13] : List UInt8).length : Int)) := by
    rw [hmax]
    rintro ⟨_, h⟩
    exact absurd h (by decide)
  have hstep : encodeFrom false addLineBreak (13 :: before) 0 (10 :: rest) =
      10 :: encodeFrom false addLineBreak (10 :: 13 :: before) 0 rest := by
    rw [encodeFrom, hlf]
    exact if_neg hshort
  rw [encodeFrom, hcr]
  exact (if_neg hshort).trans (congrArg (13 :: ·) hstep)

/-- Every line that is written is short enough and ends in no blank. -/
theorem writableLines {input : AnsiString} (htext : quoteLineBreak = false → CrlfText input) (before line : AnsiString)
    (h : OpenLine quoteLineBreak line input) :
    ∀ l ∈ Dkim.bodyLines (line ++ encodeFrom quoteLineBreak true before line.length input), WritableLine l := by
  induction hn : input.length using Nat.strongRecOn generalizing input before line with
  | _ n ih =>
    have hclosed : (∀ c, line.getLast? = some c → c ≠ 32 ∧ c ≠ 9) → WritableLine line := fun hlast => ⟨h.length.le, hlast⟩
    cases input with
    | nil =>
      intro l hl
      rw [encodeFrom, List.append_nil, Dkim.bodyLines_last (noLineEnd_of_noCr h.noCr)] at hl
      rw [List.mem_singleton.1 hl]
      apply hclosed
      refine fun c hc => ⟨?_, ?_⟩
      · exact fun hblank => (h.blank c hc (.inl hblank)).1 rfl
      · exact fun hblank => (h.blank c hc (.inr hblank)).1 rfl
    | cons ch rest =>
      by_cases hbreak : quoteLineBreak = false ∧ ch = 13
      · obtain ⟨rfl, rfl⟩ := hbreak
        cases htext rfl with
        | char hcr => exact absurd rfl hcr
        | @lineEnd rest hmore =>
          rw [encodeFrom_lineEnd, Dkim.bodyLines_line (noLineEnd_of_noCr h.noCr)]
          refine List.forall_mem_cons.2 ⟨hclosed fun c hc => ⟨?_, ?_⟩, ?_⟩
          · exact fun hblank => (h.blank c hc (.inl hblank)).2 rfl rfl
          · exact fun hblank => (h.blank c hc (.inr hblank)).2 rfl rfl
          · have hopen : OpenLine false [] rest := ⟨List.not_mem_nil, by decide, fun c hc => by cases hc⟩
            have hlt : rest.length < n := by
              rw [← hn, List.length_cons, List.length_cons]
              omega
            exact ih rest.length hlt (fun _ => hmore) (10 :: 13 :: before) [] hopen rfl
      · have hcr : quoteLineBreak = false → ch ≠ 13 := fun hq hch => hbreak ⟨hq, hch⟩
        have hrest : quoteLineBreak = false → ch ≠ 10 ∧ CrlfText rest := by
          intro hq
          cases htext hq with
          | char _ hlf htext => exact ⟨hlf, htext⟩
          | lineEnd => exact absurd rfl (hcr hq)
        have hnext : (if (!quoteLineBreak && (ch == 13 || ch == 10)) = true then -1 else (line.length : Int)) = line.length := by
          apply if_neg
          cases quoteLineBreak with
          | true => exact Bool.false_ne_true
          | false => simp [hcr rfl, (hrest rfl).1]
        have hlt : rest.length < n := by
          rw [← hn, List.length_cons]
          omega
        have hwritten : (writtenByte quoteLineBreak true before line.length ch rest).length ≤ 3 :=
          length_writtenByte true before line.length ch rest
        have hmax : maxMimeLineLen = 76 := rfl
        rw [encodeFrom, hnext]
        split
        · have hsoft : Dkim.NoLineEnd (line ++ [61]) := by
            apply noLineEnd_of_noCr
            rw [List.mem_append, List.mem_singleton, not_or]
            exact ⟨h.noCr, by decide⟩
          have hassoc : ∀ t : AnsiString, line ++ ([61, 13, 10] ++ t) = (line ++ [61]) ++ 13 :: 10 :: t := by simp
          have hopen : OpenLine quoteLineBreak ([] ++ writtenByte quoteLineBreak true before line.length ch rest) rest :=
            openLine_written List.not_mem_nil hcr (by rw [List.nil_append]; omega)
          have hlength : (line ++ [61]).length ≤ 76 := by
            rw [List.length_append, List.length_singleton]
            exact h.length
          rw [hassoc, Dkim.bodyLines_line hsoft]
          refine List.forall_mem_cons.2 ⟨⟨hlength, fun c hc => ?_⟩, ?_⟩
          · rw [List.getLast?_concat, Option.some_inj] at hc
            rw [← hc]
            decide
          · exact ih rest.length hlt (fun hq => (hrest hq).2) (ch :: before) _ hopen rfl
        · rename_i hshort
          have hlength : (line ++ writtenByte quoteLineBreak true before line.length ch rest).length < 76 := by
            rw [List.length_append]
            by_contra hlong
            exact hshort ⟨rfl, by omega⟩
          have hopen := openLine_written h.noCr hcr hlength
          have hlines := ih rest.length hlt (fun hq => (hrest hq).2) (ch :: before) _ hopen rfl
          rw [List.length_append, Nat.cast_add, List.append_assoc] at hlines
          exact hlines

end

/-- Decoding undoes encoding. With line breaks on, a text whose lines end in CRLF
    is written in lines of at most 76 characters that end in no space or tab. -/
theorem quoted_printable_round_trip (input : AnsiString) (quoteLineBreak : Bool) :
    (∀ addLineBreak, decode (encode quoteLineBreak addLineBreak input) = input) ∧
    (CrlfText input → ∀ l ∈ Dkim.bodyLines (encode quoteLineBreak true input), WritableLine l) := by
  refine ⟨fun addLineBreak => decode_encodeFrom quoteLineBreak addLineBreak [] 0 input, fun htext => ?_⟩
  have hopen : OpenLine quoteLineBreak [] input := ⟨List.not_mem_nil, by decide, fun c hc => by cases hc⟩
  exact writableLines (fun _ => htext) [] [] hopen

/-- A line with a blank at its end. -/
theorem writable_blank_line : ∀ l ∈ Dkim.bodyLines (encode false true (ansi "a \r\n")), WritableLine l := by
  have htext : CrlfText (ansi "a \r\n") :=
    .char (by decide) (by decide) (.char (by decide) (by decide) (.lineEnd .nil))
  exact (quoted_printable_round_trip (ansi "a \r\n") false).2 htext

end MimeCodeQP
end HMailServer
