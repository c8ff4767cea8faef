import HMailServer.Tcp.ProxyLine

/- Which PROXY headers are read exactly. -/
namespace HMailServer.ProxyProtocolParser
open AnsiString Incremental

/-! ## Streams that are misread -/

/-- The line of a stream, up to its first LF. -/
structure Line (stream : Nat → UInt8) (line : AnsiString) : Prop where
  begins : Begins stream (line ++ [13, 10])
  noFeed : 10 ∉ line
  length : line.length + 2 ≤ 107

/-- The streams whose beginning is misread. -/
inductive Misread (reader : AddressReader) (stream : Nat → UInt8) : Prop where
  /-- A line of TCP with a space at its end, a NUL, a scope behind an address or zeros
      in front of a port. -/
  | tcp {line family s d p q : AnsiString} {tail : List AnsiString} {source : Source} {port' : Nat} (hline : Line stream line)
      (hloose : LooseTcp reader line family s d p q tail source port')
      (hsloppy : Sloppy line s d p q tail source port')
  /-- A line of UNKNOWN but for a NUL in its first two pieces. -/
  | unknownCut {line : AnsiString} (hline : Line stream line) (hloose : LooseUnknown line) (hfilled : Filled line)
      (hcut : ¬∃ rest, line.splitOn 32 = ansi "PROXY" :: ansi "UNKNOWN" :: rest)
  /-- A header of UNKNOWN with a bare LF, or with an empty piece. -/
  | unknownRefused {line : AnsiString} (hbegins : Begins stream (line ++ [13, 10])) (hvalid : ValidHeader reader (line ++ [13, 10]) none)
      (hunknown : ∃ rest, line.splitOn 32 = ansi "PROXY" :: ansi "UNKNOWN" :: rest) (hrefused : 10 ∈ line ∨ ¬Filled line)

/-! ## Reading a line -/

section
variable {reader : AddressReader} {stream : Nat → UInt8}

theorem parse_version1 (h0 : stream 0 = 80) {n : Nat} (hn : 0 < n) :
    parse reader (taken stream n) = parseVersion1 reader (taken stream n) := by
  obtain ⟨m, rfl⟩ : ∃ m, n = m + 1 := ⟨n - 1, by omega⟩
  have hcons : taken stream (m + 1) = stream 0 :: (taken stream (m + 1)).tail := by
    refine List.cons_head?_tail ?_ |>.symm
    rw [List.head?_eq_getElem?]
    exact getElem?_taken hn
  rw [hcons, parse, h0, if_pos rfl]

theorem findIdx_none {n : Nat} (hno : ∀ j < n, stream j ≠ 10) : (taken stream n).findIdx? (· == 10) = none := by
  rw [List.findIdx?_eq_none_iff]
  intro c hc
  obtain ⟨j, hj, rfl⟩ := mem_taken.1 hc
  exact beq_eq_false_iff_ne.2 (hno j hj)

theorem findIdx_feed {i : Nat} (hi : stream i = 10) (hno : ∀ j < i, stream j ≠ 10) :
    (taken stream (i + 1)).findIdx? (· == 10) = some i := by
  rw [taken_succ, List.findIdx?_append, findIdx_none hno, hi, length_taken]
  simp

/-- Up to its LF a line is read byte for byte. -/
theorem reads_line (h0 : stream 0 = 80) {n : Nat} (hn : n ≤ 107) (hno : ∀ j, j + 1 < n → stream j ≠ 10) :
    Reads (asks reader) stream n := by
  induction n with
  | zero => exact .refl
  | succ n ih =>
    refine (ih (by omega) fun j hj => hno j (by omega)).more ?_
    rw [asks]
    by_cases hzero : n = 0
    · rw [hzero]
      rfl
    · have hlength : ¬proxyV1MaxLineLength ≤ (taken stream n).length := by
        rw [length_taken, proxyV1MaxLineLength]
        omega
      rw [parse_version1 h0 (by omega), parseVersion1, findIdx_none fun j hj => hno j (by omega)]
      dsimp only
      rw [if_neg hlength]
      rfl

theorem parse_tooLong (h0 : stream 0 = 80) (hno : ∀ j < 107, stream j ≠ 10) :
    ∃ n message, Reads (asks reader) stream n ∧ parse reader (taken stream n) = .invalid message := by
  refine ⟨107, ansi "No CRLF within the maximum 107 bytes of a PROXY protocol v1 line",
    reads_line h0 (Nat.le_refl _) fun j hj => hno j (by omega), ?_⟩
  rw [parse_version1 h0 (by decide), parseVersion1, findIdx_none hno]
  dsimp only
  rw [if_pos (by rw [length_taken, proxyV1MaxLineLength])]

/-- The first LF ends the reading. -/
theorem stops_at_feed (h0 : stream 0 = 80) {i : Nat} (hi : stream i = 10) (hno : ∀ j < i, stream j ≠ 10) (hlast : i < 107) :
    Reads (asks reader) stream (i + 1) ∧
      parse reader (taken stream (i + 1)) =
        if stream (i - 1) ≠ 13 then .invalid (ansi "PROXY protocol v1 line terminated by a bare LF instead of CRLF")
        else parseLine reader (taken stream (i - 1)) := by
  refine ⟨reads_line h0 (by omega) fun j hj => hno j (by omega), ?_⟩
  have hpos : i ≠ 0 := by
    intro h
    rw [h, h0] at hi
    cases hi
  rw [parse_version1 h0 (by omega), parseVersion1, findIdx_feed hi hno]
  dsimp only
  have hbefore : (taken stream (i + 1))[i - 1]? = some (stream (i - 1)) := getElem?_taken (by omega)
  rw [hbefore, take_taken (by omega)]
  by_cases hcr : stream (i - 1) = 13
  · rw [if_neg (by simp [hpos, hcr]), if_neg (by simp [hcr])]
  · rw [if_pos (.inr (by simpa using hcr)), if_pos hcr]

theorem parseTcpTokens_final (reader : AddressReader) (family : AnsiString) (rest : List AnsiString) :
    (parseTcpTokens reader family rest).bytesNeeded = none := by
  unfold parseTcpTokens
  repeat' split
  all_goals rfl

theorem parseLine_final (reader : AddressReader) (line : AnsiString) : (parseLine reader line).bytesNeeded = none := by
  unfold parseLine
  dsimp only
  repeat' split
  all_goals first | rfl | exact parseTcpTokens_final _ _ _

/-- What is no complete header is invalid in the end. -/
theorem final_cases {status : Status} (h : status.bytesNeeded = none) :
    (∃ result, status = .complete result) ∨ ∃ message, status = .invalid message := by
  cases status with
  | needMore n => cases h
  | complete result => exact .inl ⟨result, rfl⟩
  | invalid message => exact .inr ⟨message, rfl⟩

theorem Line.get (hl : Line stream line) : stream (line.length + 1) = 10 ∧ stream line.length = 13 ∧
    (∀ j < line.length + 1, stream j ≠ 10) ∧ taken stream line.length = line := by
  have hfeed : stream (line.length + 1) = 10 := hl.begins.get (by simp)
  have hcr : stream line.length = 13 := hl.begins.get (by simp)
  have htaken : taken stream line.length = line := hl.begins.append
  refine ⟨hfeed, hcr, fun j hj => ?_, htaken⟩
  by_cases hend : j = line.length
  · rw [hend, hcr]
    decide
  · intro h10
    refine hl.noFeed ?_
    rw [← htaken, mem_taken]
    exact ⟨j, by omega, h10⟩

/-- A line is parsed when its LF is there. -/
theorem stops_at_line {line : AnsiString} (h0 : stream 0 = 80) (hl : Line stream line) :
    Reads (asks reader) stream (line.length + 2) ∧ parse reader (taken stream (line.length + 2)) = parseLine reader line := by
  obtain ⟨hfeed, hcr, hno, htaken⟩ := hl.get
  have hlast : line.length + 1 < 107 := by
    have hlength := hl.length
    omega
  obtain ⟨hreads, hparse⟩ : Reads (asks reader) stream (line.length + 1 + 1) ∧ _ := stops_at_feed h0 hfeed hno hlast
  refine ⟨hreads, ?_⟩
  rw [hparse, Nat.add_sub_cancel, if_neg (by simpa using hcr), htaken]

/-! ## Reading the binary header -/

theorem parse_version2 (h0 : stream 0 = 0x0D) {n : Nat} (hn : 0 < n) :
    parse reader (taken stream n) = parseVersion2 (taken stream n) := by
  obtain ⟨m, rfl⟩ : ∃ m, n = m + 1 := ⟨n - 1, by omega⟩
  have hcons : taken stream (m + 1) = stream 0 :: (taken stream (m + 1)).tail := by
    refine List.cons_head?_tail ?_ |>.symm
    rw [List.head?_eq_getElem?]
    exact getElem?_taken hn
  rw [hcons, parse, h0, if_neg (by decide), if_pos rfl]

theorem getD_taken {n i : Nat} (h : i < n) : (taken stream n).getD i 0 = stream i := by
  rw [List.getD_eq_getElem?_getD, getElem?_taken h, Option.getD_some]

theorem word_taken {n i : Nat} (h : i + 1 < n) :
    word (taken stream n) i = (stream i).toNat * 256 + (stream (i + 1)).toNat := by
  rw [word, getD_taken (by omega), getD_taken h]

theorem word_drop (buffer : List UInt8) (i : Nat) : word (buffer.drop 16) i = word buffer (16 + i) := by
  have hget : ∀ j, (buffer.drop 16).getD j 0 = buffer.getD (16 + j) 0 := by
    intro j
    rw [List.getD_eq_getElem?_getD, List.getD_eq_getElem?_getD, List.getElem?_drop]
  rw [word, word, hget, hget, Nat.add_assoc]

/-- The length that a header of version 2 declares. -/
def declared (stream : Nat → UInt8) : Nat := (stream 14).toNat * 256 + (stream 15).toNat

/-- The fixed part of a header. -/
theorem reads_fixed (h0 : stream 0 = 0x0D) : Reads (asks reader) stream 16 := by
  have hone : Reads (asks reader) stream (0 + 1) := Reads.more .refl rfl
  refine hone.more (k := 15) ?_
  rw [asks, parse_version2 h0 (by decide), parseVersion2, length_taken, if_pos (by decide)]
  rfl

theorem command_iff : ∀ c : UInt8, (c &&& 0xF0 = 0x20 ∧ (c &&& 0x0F = 0 ∨ c &&& 0x0F = 1)) ↔ c = 0x20 ∨ c = 0x21 := by
  decide +kernel

/-- What is made of a buffer with the fixed part. -/
theorem parseVersion2_taken {n : Nat} (hn : 16 ≤ n) :
    parseVersion2 (taken stream n) =
      if taken stream 12 ≠ proxyV2Signature then .invalid (ansi "Invalid PROXY protocol v2 signature")
      else if stream 12 &&& 0xF0 ≠ 0x20 then .invalid (ansi "Unsupported PROXY protocol version")
      else if stream 12 &&& 0x0F ≠ 0 ∧ stream 12 &&& 0x0F ≠ 1 then .invalid (ansi "Unsupported PROXY protocol v2 command")
      else if n < 16 + declared stream then .needMore (16 + declared stream - n)
      else if stream 12 &&& 0x0F = 0 then .complete none
      else if stream 13 = 0x11 then
        if declared stream < 12 then .invalid (ansi "PROXY protocol v2 TCP4 address block is too short")
        else .complete (some (.v4 (((taken stream n).drop 16).take 4), word (taken stream n) 24))
      else if stream 13 = 0x21 then
        if declared stream < 36 then .invalid (ansi "PROXY protocol v2 TCP6 address block is too short")
        else .complete (some (.v6 (((taken stream n).drop 16).take 16) 0, word (taken stream n) 48))
      else .complete none := by
  rw [parseVersion2, length_taken, if_neg (by omega), take_taken (by omega)]
  dsimp only
  rw [getD_taken (by omega), getD_taken (by omega), word_taken (by omega)]
  rfl

theorem refused_version2 (h0 : stream 0 = 0x0D)
    (h : taken stream 12 ≠ proxyV2Signature ∨ ¬(stream 12 = 0x20 ∨ stream 12 = 0x21)) :
    ∃ message, parse reader (taken stream 16) = .invalid message := by
  rw [parse_version2 h0 (by decide), parseVersion2_taken (Nat.le_refl _)]
  by_cases hsignature : taken stream 12 = proxyV2Signature
  · rw [if_neg (not_not.2 hsignature)]
    have hcommand := h.resolve_left (not_not.2 hsignature)
    rw [← command_iff, not_and] at hcommand
    by_cases hversion : stream 12 &&& 0xF0 = 0x20
    · have hcommand := hcommand hversion
      rw [not_or] at hcommand
      rw [if_neg (not_not.2 hversion), if_pos hcommand]
      exact ⟨_, rfl⟩
    · rw [if_pos hversion]
      exact ⟨_, rfl⟩
  · rw [if_pos hsignature]
    exact ⟨_, rfl⟩

/-- A header of version 2 is read to the end of its block. -/
theorem stops_version2 (h0 : stream 0 = 0x0D) (hsignature : taken stream 12 = proxyV2Signature)
    (hcommand : stream 12 = 0x20 ∨ stream 12 = 0x21) :
    Reads (asks reader) stream (16 + declared stream) ∧
      parse reader (taken stream (16 + declared stream)) =
        if stream 12 = 0x21 ∧ stream 13 = 0x11 ∧ declared stream < 12 then
          .invalid (ansi "PROXY protocol v2 TCP4 address block is too short")
        else if stream 12 = 0x21 ∧ stream 13 = 0x21 ∧ declared stream < 36 then
          .invalid (ansi "PROXY protocol v2 TCP6 address block is too short")
        else .complete (carried (stream 12) (stream 13) ((taken stream (16 + declared stream)).drop 16)) := by
  obtain ⟨hversion, hknown⟩ := (command_iff _).2 hcommand
  have hknown : ¬(stream 12 &&& 0x0F ≠ 0 ∧ stream 12 &&& 0x0F ≠ 1) := by
    rw [not_and_or, not_not, not_not]
    exact hknown
  constructor
  · by_cases hblock : declared stream = 0
    · rw [hblock]
      exact reads_fixed h0
    · refine (reads_fixed h0).more ?_
      rw [asks, parse_version2 h0 (by decide), parseVersion2_taken (Nat.le_refl _), if_neg (not_not.2 hsignature),
        if_neg (not_not.2 hversion), if_neg hknown, if_pos (by omega), Status.bytesNeeded, Nat.add_sub_cancel_left]
  · rw [parse_version2 h0 (by omega), parseVersion2_taken (Nat.le_add_right _ _), if_neg (not_not.2 hsignature),
      if_neg (not_not.2 hversion), if_neg hknown, if_neg (Nat.lt_irrefl _), carried, word_drop, word_drop]
    obtain hlocal | hproxy := hcommand
    · rw [hlocal, if_pos (by decide), if_neg (by simp), if_neg (by simp), if_neg (by simp), if_neg (by simp)]
    · rw [hproxy, if_neg (by decide)]
      by_cases h4 : stream 13 = 0x11
      · rw [h4]
        simp
      · by_cases h6 : stream 13 = 0x21
        · rw [h6]
          simp
        · simp [h4, h6]

/-! ## Headers read exactly -/

/-- No more is read than the bound. -/
theorem reads_le_limit {n : Nat} (h : Reads (asks reader) stream n) : n ≤ limit stream := by
  refine Reads.induct (P := fun n => n ≤ limit stream) (Nat.zero_le _) (fun n k hn hk => ?_) h
  unfold limit at hn ⊢
  by_cases hzero : n = 0
  · rw [hzero, asks] at hk
    have hone : k = 1 := Option.some.inj hk.symm
    split_ifs <;> omega
  have hpos : 0 < n := Nat.pos_of_ne_zero hzero
  rw [asks] at hk
  by_cases h80 : stream 0 = 80
  · rw [if_pos h80] at hn ⊢
    rw [parse_version1 h80 hpos, parseVersion1] at hk
    split at hk
    · split at hk
      · cases hk
      · rename_i hlength
        rw [length_taken, proxyV1MaxLineLength] at hlength
        have hone : k = 1 := Option.some.inj hk.symm
        omega
    · split at hk
      · cases hk
      · rw [parseLine_final] at hk
        cases hk
  rw [if_neg h80] at hn ⊢
  by_cases h13 : stream 0 = 0x0D
  · rw [if_pos h13] at hn ⊢
    rw [parse_version2 h13 hpos] at hk
    by_cases hfixed : n < 16
    · rw [parseVersion2, length_taken, if_pos hfixed] at hk
      have hrest : k = 16 - n := Option.some.inj hk.symm
      omega
    · rw [parseVersion2_taken (Nat.not_lt.1 hfixed)] at hk
      simp only [apply_ite Status.bytesNeeded] at hk
      simp only [Status.bytesNeeded, ite_self] at hk
      iterate 3
        split at hk
        · cases hk
      split at hk
      · cases hk
        rw [declared]
        omega
      · cases hk
  · -- the first byte is no beginning of a header
    obtain ⟨m, rfl⟩ : ∃ m, n = m + 1 := ⟨n - 1, by omega⟩
    have hcons : taken stream (m + 1) = stream 0 :: (taken stream (m + 1)).tail := by
      refine List.cons_head?_tail ?_ |>.symm
      rw [List.head?_eq_getElem?]
      exact getElem?_taken hpos
    rw [hcons, parse, if_neg h80, if_neg h13] at hk
    cases hk

theorem validHeader_first {h : List UInt8} {result : Option Source} (hvalid : ValidHeader reader h result) :
    (∃ line, h = line ++ [13, 10] ∧ ValidLine reader line result ∧ ¬[13, 10] <:+: line ∧ line.length + 2 ≤ 107) ∨
      h.head? = some 0x0D := by
  cases hvalid with
  | version1 hline hfirst hlength => exact .inl ⟨_, rfl, hline, hfirst, hlength⟩
  | version2 => exact .inr rfl

theorem pieces_first {line a : AnsiString} {rest : List AnsiString} (h : line.splitOn 32 = a :: rest) (ha : cstr a = ansi "PROXY") :
    line.head? = some 80 := by
  have hline : line = [32].intercalate (a :: rest) := by rw [← h, List.intercalate_splitOn]
  have hhead : a.head? = some 80 := by
    cases a with
    | nil => exact absurd ha.symm words_distinct.2.1
    | cons c a =>
      have hbegin : cstr (c :: a) <+: c :: a := List.takeWhile_prefix _
      rw [ha] at hbegin
      obtain ⟨rest, hrest⟩ := hbegin
      have htext : ansi "PROXY" = 80 :: ansi "ROXY" := by decide
      rw [← hrest, htext]
      rfl
  rw [hline, Separated.intercalate_cons, List.head?_append, hhead]
  rfl

theorem validLine_first (hdoc : reader.Documented) {line : AnsiString} {result : Option Source}
    (h : ValidLine reader line result) : line.head? = some 80 := by
  have hproxy : cstr (ansi "PROXY") = ansi "PROXY" := proxy_plain.cstr
  cases result with
  | none =>
    obtain ⟨rest, hrest⟩ := validLine_unknown_iff.1 h
    exact pieces_first hrest hproxy
  | some source =>
    obtain ⟨family, s, d, p, q, port', hstrict⟩ := h.strict hdoc
    exact pieces_first hstrict.pieces hproxy

theorem begins_first {line : AnsiString} (hb : Begins stream (line ++ [13, 10])) (h : line.head? = some 80) : stream 0 = 80 := by
  refine hb.get ?_
  rw [← List.head?_eq_getElem?, List.head?_append, h]
  rfl

/-- A header's line is the line of the stream. -/
theorem line_unique {line line' : AnsiString} (hl : Line stream line) (hb : Begins stream (line' ++ [13, 10]))
    (hfirst : ¬[13, 10] <:+: line') : line' = line := by
  obtain ⟨hfeed, hcr, hno, htaken⟩ := hl.get
  have hfeed' : stream (line'.length + 1) = 10 := hb.get (by simp)
  have htaken' : taken stream line'.length = line' := hb.append
  have hle : line.length ≤ line'.length := by
    by_contra hlt
    exact hno (line'.length + 1) (by omega) hfeed'
  obtain heq | hlt := Nat.eq_or_lt_of_le hle
  · rw [← htaken', ← htaken, heq]
  · -- the LF of the line stands in `line'`, with its CR
    exfalso
    by_cases hnext : line'.length = line.length + 1
    · have hlast : stream line'.length = 13 := hb.get (by simp)
      rw [hnext, hfeed] at hlast
      cases hlast
    · refine hfirst ⟨taken stream line.length, (taken stream line'.length).drop (line.length + 2), ?_⟩
      have htwo : taken stream line.length ++ [13, 10] = taken stream (line.length + 2) := by
        rw [taken_succ, taken_succ, hcr, hfeed, List.append_assoc]
        rfl
      have hcut : taken stream (line.length + 2) = (taken stream line'.length).take (line.length + 2) :=
        (take_taken (by omega)).symm
      rw [htwo, hcut, List.take_append_drop, htaken']

theorem noInfix_of_noFeed {line : AnsiString} (h : 10 ∉ line) : ¬[13, 10] <:+: line :=
  fun hin => h (hin.subset (by simp))

/-- The header of a line. -/
theorem Line.valid {line : AnsiString} (hl : Line stream line) {result : Option Source} (h : ValidLine reader line result) :
    ValidHeader reader (line ++ [13, 10]) result := .version1 h (noInfix_of_noFeed hl.noFeed) hl.length

theorem invalid_of_not_complete {n : Nat} (hreads : Reads (asks reader) stream n)
    (hfinal : (parse reader (taken stream n)).bytesNeeded = none)
    (hnot : ∀ result, parse reader (taken stream n) ≠ .complete result) :
    ∃ n message, Reads (asks reader) stream n ∧ parse reader (taken stream n) = .invalid message := by
  obtain ⟨result, h⟩ | ⟨message, h⟩ := final_cases hfinal
  · exact absurd h (hnot result)
  · exact ⟨n, message, hreads, h⟩

theorem header_of_first (h0 : stream 0 = 80) {h : List UInt8} {result : Option Source}
    (hvalid : ValidHeader reader h result) (hb : Begins stream h) :
    ∃ line, h = line ++ [13, 10] ∧ ValidLine reader line result ∧ ¬[13, 10] <:+: line ∧ line.length + 2 ≤ 107 := by
  obtain hline | hfirst := validHeader_first hvalid
  · exact hline
  · have h13 : stream 0 = 0x0D := hb.get (by rw [← List.head?_eq_getElem?, hfirst])
    rw [h0] at h13
    cases h13

/-- Where a stream is read exactly, a line that is taken is valid. -/
theorem valid_of_exact {line : AnsiString} (hl : Line stream line) (h0 : stream 0 = 80)
    (hexact : Exact reader stream) {result : Option Source} (h : parseLine reader line = .complete result) :
    ValidLine reader line result := by
  obtain ⟨hreads, hparse⟩ : Reads (asks reader) stream (line.length + 2) ∧ _ := stops_at_line h0 hl
  by_cases hany : ∃ header result', ValidHeader reader header result' ∧ Begins stream header
  · obtain ⟨header, result', hvalid, hb⟩ := hany
    obtain ⟨line', rfl, hline', hfirst, _⟩ := header_of_first h0 hvalid hb
    obtain rfl := line_unique hl hb hfirst
    have hcomplete := (hexact.valid _ _ hvalid hb).2
    rw [List.length_append, List.length_cons, List.length_cons, List.length_nil, hparse, h] at hcomplete
    cases hcomplete
    exact hline'
  · obtain ⟨n, message, hn, hmessage⟩ := hexact.invalid fun header result' hvalid hb => hany ⟨header, result', hvalid, hb⟩
    have heq : n = line.length + 2 := by
      refine Stops.unique ⟨hn, ?_⟩ ⟨hreads, ?_⟩
      · rw [asks, hmessage]
        rfl
      · rw [asks, hparse, parseLine_final]
    rw [heq, hparse, h] at hmessage
    cases hmessage

/-- A misread stream is not read exactly. -/
theorem not_exact_of_misread (hdoc : reader.Documented) (hmis : Misread reader stream) : ¬Exact reader stream := by
  intro hexact
  have hproxy : cstr (ansi "PROXY") = ansi "PROXY" := proxy_plain.cstr
  cases hmis with
  | @tcp line family s d p q tail source port' hline hloose hsloppy =>
    obtain ⟨a, b, rest, hpieces, ha, _⟩ := looseTcp_second hloose
    have h0 := begins_first hline.begins (pieces_first hpieces ha)
    have htaken := (parseLine_accepts hdoc).2 (.inr ⟨family, s, d, p, q, tail, source, port', rfl, hloose⟩)
    exact sloppy_invalid hdoc hloose hsloppy _ (valid_of_exact hline h0 hexact htaken)
  | @unknownCut line hline hloose hfilled hcut =>
    obtain ⟨a, b, rest, hpieces, ha, _⟩ := hloose
    have h0 := begins_first hline.begins (pieces_first hpieces ha)
    have htaken := (parseLine_accepts hdoc).2 (.inl ⟨rfl, ⟨a, b, rest, hpieces, ha, ‹_›⟩, hfilled⟩)
    exact hcut (validLine_unknown_iff.1 (valid_of_exact hline h0 hexact htaken))
  | @unknownRefused line hbegins hvalid hunknown hrefused =>
    obtain ⟨rest, hrest⟩ := hunknown
    have h0 := begins_first hbegins (pieces_first hrest hproxy)
    obtain ⟨hreads, hparse⟩ := hexact.valid _ _ hvalid hbegins
    rw [List.length_append, List.length_cons, List.length_cons, List.length_nil] at hreads hparse
    obtain ⟨line', heq, _, _, hlength⟩ := header_of_first h0 hvalid hbegins
    obtain rfl := List.append_cancel_right heq
    by_cases hfeed : 10 ∈ line
    · -- the code stops at the bare LF
      have htaken : taken stream line.length = line := hbegins.append
      obtain ⟨j, hj, hj10⟩ := mem_taken.1 (htaken.symm ▸ hfeed)
      have hex : ∃ i, stream i = 10 := ⟨j, hj10⟩
      have hle : Nat.find hex ≤ j := Nat.find_min' hex hj10
      obtain ⟨hstop, hstatus⟩ : Reads (asks reader) stream (Nat.find hex + 1) ∧ _ :=
        stops_at_feed h0 (Nat.find_spec hex) (fun i hi => Nat.find_min hex hi) (by omega)
      have hsame : Nat.find hex + 1 = line.length + 2 := by
        refine Stops.unique ⟨hstop, ?_⟩ ⟨hreads, ?_⟩
        · rw [asks, hstatus]
          split
          · rfl
          · exact parseLine_final _ _
        · rw [asks, hparse]
          rfl
      omega
    · have hline : Line stream line := ⟨hbegins, hfeed, hlength⟩
      obtain ⟨_, hstatus⟩ : Reads (asks reader) stream (line.length + 2) ∧ _ := stops_at_line h0 hline
      rw [hstatus] at hparse
      obtain ⟨_, _, hfilled⟩ | ⟨_, _, _, _, _, _, _, _, hsome, _⟩ := (parseLine_accepts hdoc).1 hparse
      · obtain hmem | hgap := hrefused
        · exact hfeed hmem
        · exact hgap hfilled
      · cases hsome

/-- A stream with a line up to a CRLF. -/
theorem exact_of_line (hdoc : reader.Documented) (hmis : ¬Misread reader stream) {line : AnsiString} (hl : Line stream line)
    (h0 : stream 0 = 80) : Exact reader stream := by
  obtain ⟨hreads, hparse⟩ : Reads (asks reader) stream (line.length + 2) ∧ _ := stops_at_line h0 hl
  refine ⟨fun header result hvalid hb => ?_, fun hnone => ?_, fun n => reads_le_limit⟩
  · obtain ⟨line', rfl, hline', hfirst, _⟩ := header_of_first h0 hvalid hb
    obtain rfl := line_unique hl hb hfirst
    rw [List.length_append, List.length_cons, List.length_cons, List.length_nil]
    refine ⟨hreads, hparse.trans ((parseLine_accepts hdoc).2 ?_)⟩
    cases result with
    | none =>
      have hunknown := validLine_unknown_iff.1 hline'
      have hproxy : cstr (ansi "PROXY") = ansi "PROXY" := proxy_plain.cstr
      have hname : cstr (ansi "UNKNOWN") = ansi "UNKNOWN" := unknown_plain.cstr
      obtain ⟨rest, hrest⟩ := hunknown
      refine .inl ⟨rfl, ⟨_, _, rest, hrest, hproxy, hname⟩, ?_⟩
      by_contra hgap
      exact hmis (.unknownRefused hb hvalid ⟨rest, hrest⟩ (.inr hgap))
    | some source =>
      obtain ⟨family, s, d, p, q, port', hstrict⟩ := hline'.strict hdoc
      exact .inr ⟨family, s, d, p, q, [], source, port', rfl, hstrict.loose⟩
  · refine invalid_of_not_complete hreads (by rw [hparse, parseLine_final]) fun result hcomplete => ?_
    have hnot : ¬ValidLine reader line result := fun h => hnone _ _ (hl.valid h) hl.begins
    rw [hparse] at hcomplete
    obtain ⟨rfl, hloose, hfilled⟩ | ⟨family, s, d, p, q, tail, source, port', rfl, hloose⟩ :=
      (parseLine_accepts hdoc).1 hcomplete
    · exact hmis (.unknownCut hl hloose hfilled fun h => hnot (validLine_unknown_iff.2 h))
    · exact hmis (.tcp hl hloose (by_contra fun h => hnot (valid_of_not_sloppy hloose h)))

/-- A stream whose first LF has no CR. -/
theorem exact_of_bareFeed (hdoc : reader.Documented) (hmis : ¬Misread reader stream) (h0 : stream 0 = 80) {i : Nat}
    (hi : stream i = 10) (hno : ∀ j < i, stream j ≠ 10) (hlast : i < 107) (hcr : stream (i - 1) ≠ 13) : Exact reader stream := by
  obtain ⟨hreads, hparse⟩ : Reads (asks reader) stream (i + 1) ∧ _ := stops_at_feed h0 hi hno hlast
  rw [if_pos hcr] at hparse
  refine ⟨fun header result hvalid hb => ?_, fun _ => ⟨_, _, hreads, hparse⟩, fun n => reads_le_limit⟩
  exfalso
  obtain ⟨line, rfl, hline, hfirst, _⟩ := header_of_first h0 hvalid hb
  have hend : stream (line.length + 1) = 10 := hb.get (by simp)
  have hback : stream line.length = 13 := hb.get (by simp)
  have hle : i ≤ line.length + 1 := by
    by_contra hlt
    exact hno _ (by omega) hend
  have hne : i ≠ line.length + 1 := by
    intro h
    rw [h, Nat.add_sub_cancel] at hcr
    exact hcr hback
  have hne' : i ≠ line.length := by
    intro h
    rw [← h, hi] at hback
    cases hback
  have hmem : 10 ∈ line := by
    have htaken : taken stream line.length = line := hb.append
    rw [← htaken, mem_taken]
    exact ⟨i, by omega, hi⟩
  cases result with
  | none => exact hmis (.unknownRefused hb hvalid (validLine_unknown_iff.1 hline) (.inl hmem))
  | some source =>
    obtain ⟨family, s, d, p, q, port', hstrict⟩ := hline.strict hdoc
    exact absurd (hstrict.chars 10 hmem) (by decide)

theorem exact_version1 (hdoc : reader.Documented) (hmis : ¬Misread reader stream) (h0 : stream 0 = 80) : Exact reader stream := by
  by_cases hfeed : ∃ i, stream i = 10 ∧ i < 107
  · have hi := Nat.find_spec hfeed
    have hno : ∀ j < Nat.find hfeed, stream j ≠ 10 := by
      intro j hj h10
      exact Nat.find_min hfeed hj ⟨h10, by omega⟩
    generalize Nat.find hfeed = i at hi hno
    have hpos : i ≠ 0 := by
      intro h
      rw [h, h0] at hi
      cases hi.1
    by_cases hcr : stream (i - 1) = 13
    · obtain ⟨k, rfl⟩ : ∃ k, i = k + 1 := ⟨i - 1, by omega⟩
      rw [Nat.add_sub_cancel] at hcr
      have hl : Line stream (taken stream k) := by
        refine ⟨?_, fun hmem => ?_, by rw [length_taken]; omega⟩
        · rw [Begins, List.length_append, length_taken]
          show taken stream (k + 1 + 1) = _
          rw [taken_succ, taken_succ, hcr, hi.1, List.append_assoc]
          rfl
        · obtain ⟨j, hj, h10⟩ := mem_taken.1 hmem
          exact hno j (by omega) h10
      exact exact_of_line hdoc hmis hl h0
    · exact exact_of_bareFeed hdoc hmis h0 hi.1 hno hi.2 hcr
  · have hno : ∀ j < 107, stream j ≠ 10 := fun j hj h10 => hfeed ⟨j, h10, hj⟩
    refine ⟨fun header result hvalid hb => ?_, fun _ => parse_tooLong h0 hno, fun n => reads_le_limit⟩
    obtain ⟨line, rfl, _, _, hlength⟩ := header_of_first h0 hvalid hb
    exact absurd (hb.get (by simp) : stream (line.length + 1) = 10) (hno _ (by omega))

/-- A header of version 2 is read exactly. -/
theorem exact_version2 (hdoc : reader.Documented) (h0 : stream 0 = 0x0D) : Exact reader stream := by
  refine ⟨fun header result hvalid hb => ?_, fun hnone => ?_, fun n => reads_le_limit⟩
  · cases hvalid with
    | version1 hline =>
      have h80 := begins_first hb (validLine_first hdoc hline)
      rw [h0] at h80
      cases h80
    | @version2 command family high low block hcommand hlength h4 h6 =>
      have hget : ∀ i c, [command, family, high, low][i]? = some c → stream (12 + i) = c := by
        intro i c hc
        refine hb.get ?_
        have hi : i < 4 := (List.getElem?_eq_some_iff.1 hc).1
        rw [List.append_assoc, List.getElem?_append_right (by simp [proxyV2Signature]), List.getElem?_append_left
          (by simp [proxyV2Signature]; omega)]
        simpa [proxyV2Signature] using hc
      have hsignature : taken stream 12 = proxyV2Signature := by
        rw [List.append_assoc] at hb
        exact hb.append
      have h12 : stream 12 = command := hget 0 _ rfl
      have h13 : stream 13 = family := hget 1 _ rfl
      have hdeclared : declared stream = block.length := by
        have h14 : stream 14 = high := hget 2 _ rfl
        have h15 : stream 15 = low := hget 3 _ rfl
        rw [declared, h14, h15, hlength]
      have hlen : (proxyV2Signature ++ [command, family, high, low] ++ block).length = 16 + declared stream := by
        rw [hdeclared, List.length_append]
        rfl
      have hblock : (taken stream (16 + declared stream)).drop 16 = block := by
        rw [← hlen, hb]
        rfl
      obtain ⟨hreads, hparse⟩ : Reads (asks reader) stream (16 + declared stream) ∧ _ :=
        stops_version2 h0 hsignature (h12 ▸ hcommand)
      rw [hlen]
      refine ⟨hreads, ?_⟩
      rw [hparse, hblock, h12, h13, if_neg, if_neg]
      · rintro ⟨hc, hf, hshort⟩
        have hfit := h6 hc hf
        omega
      · rintro ⟨hc, hf, hshort⟩
        have hfit := h4 hc hf
        omega
  · by_cases hhead : taken stream 12 = proxyV2Signature ∧ (stream 12 = 0x20 ∨ stream 12 = 0x21)
    · obtain ⟨hsignature, hcommand⟩ := hhead
      obtain ⟨hreads, hparse⟩ : Reads (asks reader) stream (16 + declared stream) ∧ _ := stops_version2 h0 hsignature hcommand
      by_cases h4 : stream 12 = 0x21 ∧ stream 13 = 0x11 ∧ declared stream < 12
      · rw [if_pos h4] at hparse
        exact ⟨_, _, hreads, hparse⟩
      by_cases h6 : stream 12 = 0x21 ∧ stream 13 = 0x21 ∧ declared stream < 36
      · rw [if_neg h4, if_pos h6] at hparse
        exact ⟨_, _, hreads, hparse⟩
      exfalso
      have hlength : ((taken stream (16 + declared stream)).drop 16).length = declared stream := by
        rw [List.length_drop, length_taken, Nat.add_sub_cancel_left]
      have hheader : proxyV2Signature ++ [stream 12, stream 13, stream 14, stream 15] ++
          (taken stream (16 + declared stream)).drop 16 = taken stream (16 + declared stream) := by
        have hfixed : taken stream 16 = taken stream 12 ++ [stream 12, stream 13, stream 14, stream 15] := by
          rw [taken_succ, taken_succ, taken_succ, taken_succ]
          simp only [List.append_assoc]
          rfl
        rw [← hsignature, ← hfixed, ← take_taken (Nat.le_add_right 16 (declared stream)), List.take_append_drop]
      refine hnone _ _ (@ValidHeader.version2 reader (stream 12) (stream 13) (stream 14) (stream 15) _ hcommand hlength
        (fun hc hf => ?_) fun hc hf => ?_) ?_
      · rw [hlength]
        exact Nat.not_lt.1 fun hshort => h4 ⟨hc, hf, hshort⟩
      · rw [hlength]
        exact Nat.not_lt.1 fun hshort => h6 ⟨hc, hf, hshort⟩
      · rw [hheader, Begins, length_taken]
    · obtain ⟨message, hmessage⟩ : ∃ message, parse reader (taken stream 16) = .invalid message :=
        refused_version2 h0 (by rw [not_and_or] at hhead; exact hhead)
      exact ⟨16, message, reads_fixed h0, hmessage⟩

theorem exact_other (hdoc : reader.Documented) (h80 : stream 0 ≠ 80) (h13 : stream 0 ≠ 0x0D) : Exact reader stream := by
  refine ⟨fun header result hvalid hb => ?_, fun _ => ?_, fun n => reads_le_limit⟩
  · obtain ⟨line, rfl, hline, _⟩ | hfirst := validHeader_first hvalid
    · exact absurd (begins_first hb (validLine_first hdoc hline)) h80
    · exact absurd (hb.get (by rw [← List.head?_eq_getElem?, hfirst])) h13
  · have hone : Reads (asks reader) stream (0 + 1) := Reads.more .refl rfl
    refine ⟨1, ansi "The data does not begin with a PROXY protocol v1 or v2 header", hone, ?_⟩
    have hfirst : taken stream 1 = [stream 0] := rfl
    rw [hfirst, parse, if_neg h80, if_neg h13]

/-- Exactly the streams whose beginning is not misread are read exactly. -/
theorem header_is_read_exactly_iff (hdoc : reader.Documented) : Exact reader stream ↔ ¬Misread reader stream := by
  constructor
  · exact fun hexact hmis => not_exact_of_misread hdoc hmis hexact
  · intro hmis
    by_cases h80 : stream 0 = 80
    · exact exact_version1 hdoc hmis h80
    by_cases h13 : stream 0 = 0x0D
    · exact exact_version2 hdoc h13
    · exact exact_other hdoc h80 h13

end

/-! ## Two streams -/

/-- A stream that begins with a valid line of TCP is not misread. -/
theorem not_misread_of_tcp {reader : AddressReader} (hdoc : reader.Documented) {stream : Nat → UInt8} {line : AnsiString}
    {source : Source} (hl : Line stream line) (hvalid : ValidLine reader line (some source)) : ¬Misread reader stream := by
  obtain ⟨family, s, d, p, q, port', hstrict⟩ := hvalid.strict hdoc
  have hfamily := looseAddress_family hstrict.loose.sourceText
  have hunknown : ∀ {a b rest}, line.splitOn 32 = a :: b :: rest → cstr b ≠ ansi "UNKNOWN" := by
    intro a b rest hpieces hb
    rw [hstrict.pieces] at hpieces
    obtain ⟨_, hpieces⟩ := List.cons_eq_cons.1 hpieces
    rw [← (List.cons_eq_cons.1 hpieces).1, (family_plain hfamily).cstr] at hb
    exact unknown_ne_family hfamily hb.symm
  intro hmis
  cases hmis with
  | tcp hline hloose hsloppy =>
    obtain rfl := line_unique hl hline.begins (noInfix_of_noFeed hline.noFeed)
    exact sloppy_invalid hdoc hloose hsloppy _ hvalid
  | unknownCut hline hloose =>
    obtain rfl := line_unique hl hline.begins (noInfix_of_noFeed hline.noFeed)
    obtain ⟨a, b, rest, hpieces, _, hb⟩ := hloose
    exact hunknown hpieces hb
  | @unknownRefused line' hbegins hheader hname =>
    obtain ⟨rest, hrest⟩ := hname
    have hproxy : cstr (ansi "PROXY") = ansi "PROXY" := proxy_plain.cstr
    obtain ⟨line'', heq, _, hfirst, _⟩ := header_of_first (begins_first hbegins (pieces_first hrest hproxy)) hheader hbegins
    obtain rfl := List.append_cancel_right heq
    obtain rfl := line_unique hl hbegins hfirst
    exact hunknown hrest unknown_plain.cstr

/-- A reader of two addresses. -/
def twoAddresses : AddressReader where
  makeAddressV4 s :=
    if s = ansi "192.0.2.1" then some [192, 0, 2, 1]
    else if s = ansi "198.51.100.2" then some [198, 51, 100, 2]
    else none
  makeAddressV6 _ := none

theorem twoAddresses_documented : twoAddresses.Documented where
  v4 := by
    intro s a h
    simp only [twoAddresses] at h
    split at h
    · rename_i hs
      rw [hs]
      exact ⟨by decide +kernel, by decide +kernel⟩
    · split at h
      · rename_i hs
        rw [hs]
        exact ⟨by decide +kernel, by decide +kernel⟩
      · cases h
  v6 := by
    intro s a h
    cases h

/-- A line, and behind it the first byte of a TLS handshake over and over. -/
def proxied (line : AnsiString) (i : Nat) : UInt8 := (line ++ [13, 10]).getD i 0x16

theorem proxied_line {line : AnsiString} (hfeed : 10 ∉ line) (hlength : line.length + 2 ≤ 107) : Line (proxied line) line :=
  ⟨begins_getD _ _, hfeed, hlength⟩

def tcp4Line : AnsiString := ansi "PROXY TCP4 192.0.2.1 198.51.100.2 56324 25"

theorem header_is_read_exactly_tcp4 :
    Reads (asks twoAddresses) (proxied tcp4Line) (tcp4Line ++ [13, 10]).length ∧
      parse twoAddresses (taken (proxied tcp4Line) (tcp4Line ++ [13, 10]).length) =
        .complete (some (.v4 [192, 0, 2, 1], 56324)) := by
  have hline : Line (proxied tcp4Line) tcp4Line := proxied_line (by decide +kernel) (by decide +kernel)
  have hport : formatNat 56324 = ansi "56324" := by
    rw [formatNat, if_neg (by decide), show Nat.digits 10 56324 = [4, 2, 3, 6, 5] by norm_num]
    decide +kernel
  have hport' : formatNat 25 = ansi "25" := by
    rw [formatNat, if_neg (by decide), show Nat.digits 10 25 = [5, 2] by norm_num]
    decide +kernel
  have htext : tcp4Line =
      [32].intercalate [ansi "PROXY", ansi "TCP4", ansi "192.0.2.1", ansi "198.51.100.2", formatNat 56324, formatNat 25] := by
    rw [hport, hport']
    decide +kernel
  have hdestination : AddressText twoAddresses (ansi "TCP4") (ansi "198.51.100.2") (.v4 [198, 51, 100, 2]) :=
    .tcp4 (by decide +kernel)
  have hvalid : ValidLine twoAddresses tcp4Line (some (.v4 [192, 0, 2, 1], 56324)) := by
    rw [htext]
    exact .tcp (.tcp4 (by decide +kernel)) hdestination (by decide) (by decide)
  have hexact := (header_is_read_exactly_iff twoAddresses_documented).2 (not_misread_of_tcp twoAddresses_documented hline hvalid)
  exact hexact.valid _ _ (hline.valid hvalid) hline.begins

/-- A line with a space at its end is taken. -/
theorem trailing_space_taken :
    ∃ reader : AddressReader, reader.Documented ∧ ¬Exact reader (proxied (tcp4Line ++ [32])) := by
  refine ⟨twoAddresses, twoAddresses_documented, not_exact_of_misread twoAddresses_documented ?_⟩
  have hline : Line (proxied (tcp4Line ++ [32])) (tcp4Line ++ [32]) := proxied_line (by decide +kernel) (by decide +kernel)
  have hport : parsePortNumber (ansi "56324") = some 56324 := by decide +kernel
  have hport' : parsePortNumber (ansi "25") = some 25 := by decide +kernel
  have hs : twoAddresses.makeAddressV4 (ansi "192.0.2.1") = some [192, 0, 2, 1] := by decide +kernel
  have hd : twoAddresses.makeAddressV4 (ansi "198.51.100.2") = some [198, 51, 100, 2] := by decide +kernel
  have hloose : LooseTcp twoAddresses (tcp4Line ++ [32]) (ansi "TCP4") (ansi "192.0.2.1") (ansi "198.51.100.2") (ansi "56324")
      (ansi "25") [[]] (.v4 [192, 0, 2, 1], 56324) 25 := by
    constructor
    · exact ⟨[ansi "PROXY", ansi "TCP4", ansi "192.0.2.1", ansi "198.51.100.2", ansi "56324", ansi "25"], by decide +kernel,
        by decide +kernel⟩
    · exact .inr ⟨[], rfl, rfl⟩
    · exact .tcp4 hs
    · exact ⟨_, .tcp4 hd⟩
    · exact parsePortNumber_iff.1 hport
    · exact parsePortNumber_iff.1 hport'
  exact .tcp hline hloose (.inl (List.cons_ne_nil _ _))

end HMailServer.ProxyProtocolParser
