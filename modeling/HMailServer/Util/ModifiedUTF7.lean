import HMailServer.Util.Utf7
import HMailServer.Lib.Separated

/- Mailbox names in modified UTF-7 (`ModifiedUTF7` in `Common/Util/Encoding`, RFC
   3501, section 5.1.3). A run of characters that may not stand for themselves goes
   through the platform's UTF-7 converter, and its delimiters are trimmed off. What
   passes between a narrow and a wide string on the way does so byte for byte, up
   to its first NUL. -/
namespace HMailServer.ModifiedUTF7
open AnsiString

/-! ## The code -/

/-- `IsSpecialCharacter_`. -/
def isSpecialCharacter (c : Nat) : Bool := c < 32 || 127 ≤ c

/-- `Charset::ToMultiByte` for UTF-7. -/
def toMultiByte (codec : Utf7Codec) (s : WString) : AnsiString := if s = [] then [] else cstr (codec.toUtf7 s)

/-- `Charset::ToWideChar` for UTF-7. -/
def toWideChar (codec : Utf7Codec) (s : AnsiString) : WString := if s = [] then [] else WString.cstr (codec.fromUtf7 (cstr s))

/-- What is written between `&` and `-` for a run. -/
def trimmed (codec : Utf7Codec) (subSet : WString) : AnsiString :=
  ((toMultiByte codec subSet).dropWhile (· == 43)).rdropWhile (· == 45)

/-- The loop of `Encode`. Every turn passes a character at least. -/
def encodeFrom (codec : Utf7Codec) : Nat → WString → AnsiString
  | 0, _ => []
  | _ + 1, [] => []
  | turns + 1, c :: s =>
    if isSpecialCharacter c then
      38 :: (trimmed codec (c :: s.takeWhile isSpecialCharacter) ++
        45 :: encodeFrom codec turns (s.dropWhile isSpecialCharacter))
    else UInt8.ofNat c :: ((if c = 38 then [45] else []) ++ encodeFrom codec turns s)

def encode (codec : Utf7Codec) (sUnicodeString : WString) : AnsiString :=
  encodeFrom codec sUnicodeString.length sUnicodeString

/-- The loop of `Decode`; `none` where it meets a special character. Every turn
    passes a byte at least. -/
def decodeFrom (codec : Utf7Codec) : Nat → AnsiString → Option WString
  | 0, _ => some []
  | _ + 1, [] => some []
  | turns + 1, c :: s =>
    if isSpecialCharacter c.toNat then none
    else if c ≠ 38 then (decodeFrom codec turns s).map (c.toNat :: ·)
    else if s.head? = some 45 then (decodeFrom codec turns s.tail).map (38 :: ·)
    else
      let subSet := s.takeWhile (· != 45)
      let unicodeString := if subSet = [] then [] else toWideChar codec (43 :: (subSet ++ [45]))
      (decodeFrom codec turns (s.dropWhile (· != 45)).tail).map (unicodeString ++ ·)

def decode (codec : Utf7Codec) (s : AnsiString) : WString := (decodeFrom codec s.length s).getD []

/-! ## What is promised -/

/-- Base64 with `,` in place of `/`. -/
def modifiedBase64 (s : WString) : AnsiString := (Utf7.base64 s).map fun c => if c = 47 then 44 else c

/-- RFC 3501, section 5.1.3. -/
inductive Modified : AnsiString → Prop where
  | nil : Modified []
  | literal {c : UInt8} {rest : AnsiString} (hc : 32 ≤ c ∧ c ≤ 126 ∧ c ≠ 38) (h : Modified rest) : Modified (c :: rest)
  | ampersand {rest : AnsiString} (h : Modified rest) : Modified (38 :: 45 :: rest)
  | run {s : WString} {rest : AnsiString} (hs : Utf7.ScalarValues s) (hne : s ≠ []) (hspecial : ∀ c ∈ s, isSpecialCharacter c = true)
      (h : Modified rest) : Modified (38 :: (modifiedBase64 s ++ 45 :: rest))

structure NameSurvives (codec : Utf7Codec) (s : WString) : Prop where
  modified : Modified (encode codec s)
  decoded : decode codec (encode codec s) = s

/-- The runs of special characters, with empty ones in between. -/
def runs (s : WString) : List WString := s.splitOnP fun c => !isSpecialCharacter c

/-- The converter shifts every character of the run, no byte of its Base64 is
    trimmed off, and none is `/`. -/
def runSurvives (codec : Utf7Codec) (run : WString) : Bool :=
  run.all (fun c => c != 0 && !codec.direct c) && !(Utf7.base64 run).contains 47 && (Utf7.base64 run).head? != some 43

/-! ## Runs -/

theorem runs_cons {c : WChar} (hc : isSpecialCharacter c = false) (s : WString) : runs (c :: s) = [] :: runs s :=
  @List.splitOnP_append_cons_of_forall_mem _ _ [] (fun _ hx => absurd hx List.not_mem_nil) c (by rw [hc]; rfl) s

/-- A run, and what does not go on with it. -/
theorem forall_runs_append {P : WString → Prop} (hnil : P []) {run rest : WString}
    (hrun : ∀ c ∈ run, isSpecialCharacter c = true) (hrest : ∀ c ∈ rest.head?, isSpecialCharacter c = false) :
    (∀ r ∈ runs (run ++ rest), P r) ↔ P run ∧ ∀ r ∈ runs rest, P r := by
  have hkeep : ∀ c ∈ run, (!isSpecialCharacter c) = false := fun c hc => by rw [hrun c hc]; rfl
  cases rest with
  | nil =>
    have hsingle : runs (run ++ []) = [run] := by
      rw [List.append_nil]
      exact List.splitOnP_eq_singleton hkeep
    rw [hsingle, List.forall_mem_singleton]
    exact (and_iff_left fun r hr => List.mem_singleton.1 hr ▸ hnil).symm
  | cons c rest =>
    have hc := hrest c rfl
    have hsplit : runs (run ++ c :: rest) = run :: runs rest :=
      List.splitOnP_append_cons_of_forall_mem hkeep c (by rw [hc]; rfl) rest
    rw [hsplit, runs_cons hc, List.forall_mem_cons, List.forall_mem_cons]
    exact and_congr_right fun _ => (and_iff_right hnil).symm

theorem runSurvives_iff {codec : Utf7Codec} {run : WString} : runSurvives codec run = true ↔
    (∀ c ∈ run, c ≠ 0 ∧ codec.direct c = false) ∧ 47 ∉ Utf7.base64 run ∧ (Utf7.base64 run).head? ≠ some 43 := by
  simp only [runSurvives, Bool.and_eq_true, List.all_eq_true, bne_iff_ne, Bool.not_eq_true', List.contains_eq_mem,
    decide_eq_false_iff_not, and_assoc]

/-! ## What is trimmed -/

theorem mem_trim {b : UInt8} {text : AnsiString} (h : b ∈ text) (hplus : b ≠ 43) (hdash : b ≠ 45) :
    b ∈ (text.dropWhile (· == 43)).rdropWhile (· == 45) := by
  have hfront : b ∈ text.dropWhile (· == 43) := by
    rw [← List.takeWhile_append_dropWhile (p := (· == 43)) (l := text), List.mem_append] at h
    rcases h with h | h
    · have hb := List.mem_takeWhile_imp h
      exact absurd (beq_iff_eq.1 hb) hplus
    · exact h
  have hback := (List.mem_append (s := (text.dropWhile (· == 43)).rdropWhile (· == 45))
    (t := (text.dropWhile (· == 43)).rtakeWhile (· == 45))).1 (by rw [List.rdropWhile_append_rtakeWhile]; exact hfront)
  rcases hback with h | h
  · exact h
  · have hb := List.mem_rtakeWhile_imp h
    exact absurd (beq_iff_eq.1 hb) hdash

section
variable {codec : Utf7Codec} (hcodec : codec.Rfc2152) {run : WString} (hscalar : Utf7.ScalarValues run) (hne : run ≠ [])
include hcodec hne

theorem toMultiByte_eq : toMultiByte codec run = codec.toUtf7 run := by
  rw [toMultiByte, if_neg hne]
  exact cstr_eq fun c hc hzero => hcodec.noNul run (hzero ▸ hc)

/-- A character that stands for itself is written. -/
theorem direct_mem_trimmed (hspecial : ∀ c ∈ run, isSpecialCharacter c = true) {c : WChar} (hc : c ∈ run)
    (hdirect : codec.direct c = true) : ∃ b ∈ trimmed codec run, b < 32 := by
  have hwritten := hcodec.written run c hc hdirect
  have hcontrol : c = 9 ∨ c = 10 ∨ c = 13 := by
    have hs := hspecial c hc
    rw [isSpecialCharacter, Bool.or_eq_true, decide_eq_true_eq, decide_eq_true_eq] at hs
    rcases hcodec.direct_le c hdirect with h | h | h | h
    · exact .inl h
    · exact .inr (.inl h)
    · exact .inr (.inr h)
    · have hlow : (32 : Nat) ≤ c := h.1
      have hhigh : (126 : Nat) ≥ c := h.2
      exact absurd hs (by omega)
  have hbyte : UInt8.ofNat c ≠ 43 ∧ UInt8.ofNat c ≠ 45 ∧ UInt8.ofNat c < 32 := by
    rcases hcontrol with rfl | rfl | rfl <;> decide
  refine ⟨UInt8.ofNat c, ?_, hbyte.2.2⟩
  rw [trimmed, toMultiByte_eq hcodec hne]
  exact mem_trim hwritten hbyte.1 hbyte.2.1

include hscalar in
/-- Of a shifted run the delimiters are trimmed off, and each `+` in front. -/
theorem trimmed_shifted (hdirect : ∀ c ∈ run, codec.direct c = false) :
    trimmed codec run = (Utf7.base64 run).dropWhile (· == 43) := by
  have hdash : ∀ c ∈ (Utf7.base64 run).dropWhile (· == 43), c ≠ 45 := fun c hc =>
    (Utf7.base64_ne run c ((List.dropWhile_sublist _).subset hc)).2.2.1
  have hfront : ∀ text : AnsiString, (text ++ [45]).dropWhile (· == 43) = text.dropWhile (· == 43) ++ [45] := by
    intro text
    induction text with
    | nil => rfl
    | cons b text ih =>
      rw [List.cons_append, List.dropWhile_cons, List.dropWhile_cons]
      split
      · exact ih
      · rfl
  have hback : ∀ text : AnsiString, (∀ c ∈ text, c ≠ 45) → (text ++ [45]).rdropWhile (· == 45) = text := by
    intro text htext
    rw [List.rdropWhile_concat_pos _ _ _ rfl]
    refine List.rdropWhile_eq_self_iff.2 fun hnil hlast => ?_
    exact htext _ (List.getLast_mem hnil) (beq_iff_eq.1 hlast)
  rw [trimmed, toMultiByte_eq hcodec hne, hcodec.shifts run hscalar hne hdirect, Utf7.shifted,
    List.dropWhile_cons_of_pos rfl, hfront, hback _ hdash]

end

/-! ## Steps of the decoder -/

theorem isSpecialCharacter_byte {c : UInt8} (h : 32 ≤ c ∧ c ≤ 126) : isSpecialCharacter c.toNat = false := by
  have hlow : 32 ≤ c.toNat := UInt8.le_iff_toNat_le.1 h.1
  have hhigh : c.toNat ≤ 126 := UInt8.le_iff_toNat_le.1 h.2
  rw [isSpecialCharacter, Bool.or_eq_false_iff, decide_eq_false_iff_not, decide_eq_false_iff_not]
  omega

theorem decodeFrom_literal (codec : Utf7Codec) {c : UInt8} (hc : 32 ≤ c ∧ c ≤ 126 ∧ c ≠ 38) (turns : Nat) (rest : AnsiString) :
    decodeFrom codec (turns + 1) (c :: rest) = (decodeFrom codec turns rest).map (c.toNat :: ·) := by
  rw [decodeFrom, isSpecialCharacter_byte ⟨hc.1, hc.2.1⟩, if_neg Bool.false_ne_true, if_pos hc.2.2]

theorem decodeFrom_ampersand (codec : Utf7Codec) (turns : Nat) (rest : AnsiString) :
    decodeFrom codec (turns + 1) (38 :: 45 :: rest) = (decodeFrom codec turns rest).map (38 :: ·) := by
  rw [decodeFrom, isSpecialCharacter_byte (by decide), if_neg Bool.false_ne_true, if_neg (by simp)]
  exact if_pos rfl

theorem decodeFrom_run (codec : Utf7Codec) (turns : Nat) {text : AnsiString} (hne : text ≠ []) (hdash : ∀ c ∈ text, c ≠ 45)
    (rest : AnsiString) : decodeFrom codec (turns + 1) (38 :: (text ++ 45 :: rest)) =
      (decodeFrom codec turns rest).map (toWideChar codec (43 :: (text ++ [45])) ++ ·) := by
  have hall : ∀ c ∈ text, (c != 45) = true := fun c hc => bne_iff_ne.2 (hdash c hc)
  have htake : (text ++ 45 :: rest).takeWhile (· != 45) = text := by
    rw [List.takeWhile_append_of_pos hall, List.takeWhile_cons_of_neg (by decide), List.append_nil]
  have hdrop : ((text ++ 45 :: rest).dropWhile (· != 45)).tail = rest := by
    rw [List.dropWhile_append_of_pos hall, List.dropWhile_cons_of_neg (by decide), List.tail_cons]
  have hhead : (text ++ 45 :: rest).head? ≠ some 45 := by
    obtain ⟨c, text, rfl⟩ := List.exists_cons_of_ne_nil hne
    intro h
    exact hdash c List.mem_cons_self (Option.some.inj h)
  rw [decodeFrom, isSpecialCharacter_byte (by decide), if_neg Bool.false_ne_true, if_neg (by simp), if_neg hhead]
  simp only [htake, hdrop, if_neg hne]

/-- A shifted text is read, up to its first NUL. -/
theorem toWideChar_shifted {codec : Utf7Codec} (hcodec : codec.Rfc2152) {s : WString} (hs : Utf7.ScalarValues s) (hne : s ≠ []) :
    toWideChar codec (43 :: (Utf7.base64 s ++ [45])) = WString.cstr s := by
  have hnul : cstr (Utf7.shifted s) = Utf7.shifted s := cstr_eq fun c hc => Utf7.mem_shifted hc
  rw [toWideChar, if_neg (List.cons_ne_nil _ _), ← Utf7.shifted, hnul, hcodec.reads s hs hne]

/-! ## Which names survive -/

/-- The width of a text in UTF-16. -/
def width (s : WString) : Nat := (Utf16.encode s).length

theorem width_append (s t : WString) : width (s ++ t) = width s + width t := by
  rw [width, Utf16.encode, List.flatMap_append, List.length_append]
  rfl

theorem width_cons (c : WChar) (s : WString) : width (c :: s) = width [c] + width s := width_append [c] s

/-- A C string is no wider, and as wide only where there is no NUL. -/
theorem width_cstr (s : WString) : width (WString.cstr s) ≤ width s ∧ (width s ≤ width (WString.cstr s) → ∀ c ∈ s, c ≠ 0) := by
  have hsplit := List.takeWhile_append_dropWhile (p := (· != 0)) (l := s)
  have hwidth := width_append (s.takeWhile (· != 0)) (s.dropWhile (· != 0))
  rw [hsplit] at hwidth
  rw [WString.cstr]
  refine ⟨by omega, fun hle => ?_⟩
  have hzero : width (s.dropWhile (· != 0)) = 0 := by omega
  have hlength := Utf16.length_le_encode (s.dropWhile (· != 0))
  rw [← width, hzero] at hlength
  have hnil : s.dropWhile (· != 0) = [] := List.length_eq_zero_iff.1 (Nat.le_zero.1 hlength)
  exact fun c hc => bne_iff_ne.1 (List.dropWhile_eq_nil_iff.1 hnil c hc)

theorem cstr_eq_self {s : WString} (h : ∀ c ∈ s, c ≠ 0) : WString.cstr s = s :=
  List.takeWhile_eq_self_iff.2 fun c hc => bne_iff_ne.2 (h c hc)

theorem Modified.printable {text : AnsiString} (h : Modified text) : ∀ c ∈ text, 32 ≤ c ∧ c ≤ 126 := by
  induction h with
  | nil => exact fun c hc => absurd hc List.not_mem_nil
  | literal hc _ ih => exact List.forall_mem_cons.2 ⟨⟨hc.1, hc.2.1⟩, ih⟩
  | ampersand _ ih => exact List.forall_mem_cons.2 ⟨by decide, List.forall_mem_cons.2 ⟨by decide, ih⟩⟩
  | run hs hne _ _ ih =>
    refine List.forall_mem_cons.2 ⟨by decide, fun c hc => ?_⟩
    rcases List.mem_append.1 hc with hc | hc
    · obtain ⟨d, hd, rfl⟩ := List.mem_map.1 hc
      split
      · decide
      · exact (Utf7.base64_ne _ d hd).2.2.2
    · rcases List.mem_cons.1 hc with rfl | hc
      · decide
      · exact ih c hc

theorem Modified.behind {c : UInt8} {rest : AnsiString} (hc : c ≠ 38) (h : Modified (c :: rest)) : Modified rest := by
  cases h with
  | literal _ h => exact h
  | ampersand _ => exact absurd rfl hc
  | run _ _ _ _ => exact absurd rfl hc

/-- What may stand between `&` and `-`. -/
theorem Modified.shift {text rest : AnsiString} (hdash : ∀ c ∈ text, c ≠ 45) (h : Modified (38 :: (text ++ 45 :: rest))) :
    Modified rest ∧ (text = [] ∨ ∃ s, Utf7.ScalarValues s ∧ s ≠ [] ∧ text = modifiedBase64 s) := by
  generalize hwhole : (38 :: (text ++ 45 :: rest) : AnsiString) = whole at h
  cases h with
  | nil => exact absurd hwhole (List.cons_ne_nil _ _)
  | literal hc _ => exact absurd (List.cons.inj hwhole).1.symm hc.2.2
  | ampersand h =>
    have hbehind := (List.cons.inj hwhole).2
    cases text with
    | nil => exact ⟨(List.cons.inj hbehind).2 ▸ h, .inl rfl⟩
    | cons c text => exact absurd (List.cons.inj hbehind).1 (hdash c List.mem_cons_self)
  | @run s rest' hs hne _ h =>
    have hmodified : (45 : UInt8) ∉ modifiedBase64 s := by
      intro hc
      obtain ⟨d, hd, hmap⟩ := List.mem_map.1 hc
      split at hmap
      · exact absurd hmap (by decide)
      · exact (Utf7.base64_ne s d hd).2.2.1 hmap
    have hhead : ∀ more : AnsiString, ∀ c, (45 :: more).head? = some c → c = 45 := fun _ c hc => (Option.some.inj hc).symm
    obtain ⟨htext, hrest⟩ := Separated.append_inj (fun hc => hdash 45 hc rfl) hmodified (hhead _) (hhead _)
      (List.cons.inj hwhole).2
    exact ⟨(List.cons.inj hrest).2 ▸ h, .inr ⟨s, hs, hne, htext⟩⟩

theorem modifiedBase64_eq {s : WString} (h : 47 ∉ Utf7.base64 s) : modifiedBase64 s = Utf7.base64 s := by
  have hid : ∀ c ∈ Utf7.base64 s, (if c = 47 then 44 else c) = c := by
    intro c hc
    refine if_neg ?_
    rintro rfl
    exact h hc
  rw [modifiedBase64, List.map_congr_left hid, List.map_id']

/-- A single unit does not fill its Base64 with `+`. -/
theorem two_le_width {s : WString} (hs : Utf7.ScalarValues s) (hne : s ≠ []) (hplus : ∀ c ∈ Utf7.base64 s, c = 43) :
    2 ≤ width s := by
  have hlength := Utf7.length_base64 s
  have hpos := List.length_pos_iff.2 hne
  have hunits := Utf16.length_le_encode s
  by_contra hlt
  have hone : (Utf16.encode s).length = 1 := by
    rw [width] at hlt
    omega
  rw [hone] at hlength
  have hbase64 : Utf7.base64 s = [43, 43, 43] := List.eq_replicate_iff.2 ⟨hlength, hplus⟩
  have hagain : Utf7.base64 (Utf16.decode (Utf16.ofBytes (MimeCodeBase64.decode (Utf7.base64 s)))) = Utf7.base64 s := by
    rw [Utf7.decode_base64 hs]
  rw [hbase64] at hagain
  exact absurd hagain (by decide)

section
variable {codec : Utf7Codec} (hcodec : codec.Rfc2152)
include hcodec

/-- A run that survives is written in its form and read back. -/
theorem run_step {run : WString} (hscalar : Utf7.ScalarValues run) (hne : run ≠ [])
    (h : runSurvives codec run = true) :
    trimmed codec run = modifiedBase64 run ∧
      ∀ turns rest, decodeFrom codec (turns + 1) (38 :: (trimmed codec run ++ 45 :: rest)) =
        (decodeFrom codec turns rest).map (run ++ ·) := by
  obtain ⟨hall, hslash, hplus⟩ := runSurvives_iff.1 h
  have hkeep : (Utf7.base64 run).dropWhile (· == 43) = Utf7.base64 run := by
    obtain ⟨c, text, htext⟩ := List.exists_cons_of_ne_nil (Utf7.base64_ne_nil hne)
    rw [htext] at hplus ⊢
    exact List.dropWhile_cons_of_neg fun hc => hplus (congrArg some (beq_iff_eq.1 hc))
  have htrimmed : trimmed codec run = Utf7.base64 run := by
    rw [trimmed_shifted hcodec hscalar hne fun c hc => (hall c hc).2, hkeep]
  refine ⟨htrimmed.trans (modifiedBase64_eq hslash).symm, fun turns rest => ?_⟩
  rw [htrimmed, decodeFrom_run codec turns (Utf7.base64_ne_nil hne) fun c hc => (Utf7.base64_ne run c hc).2.2.1,
    toWideChar_shifted hcodec hscalar hne, cstr_eq_self fun c hc => (hall c hc).1]

/-- What a run in its form is read as is no wider than the run, and as wide only
    where the run survives. -/
theorem run_bound {run : WString} (hscalar : Utf7.ScalarValues run) (hne : run ≠ [])
    (hspecial : ∀ c ∈ run, isSpecialCharacter c = true) {rest : AnsiString}
    (h : Modified (38 :: (trimmed codec run ++ 45 :: rest))) :
    Modified rest ∧ ∃ w, width w ≤ width run ∧ (width run ≤ width w → runSurvives codec run = true) ∧
      ∀ turns, decodeFrom codec (turns + 1) (38 :: (trimmed codec run ++ 45 :: rest)) =
        (decodeFrom codec turns rest).map (w ++ ·) := by
  have hdirect : ∀ c ∈ run, codec.direct c = false := by
    intro c hc
    by_contra hd
    obtain ⟨b, hb, hlow⟩ := direct_mem_trimmed hcodec hne hspecial hc (eq_true_of_ne_false hd)
    have hprintable := h.printable b (List.mem_cons_of_mem _ (List.mem_append_left _ hb))
    exact absurd hprintable.1 (UInt8.not_le.2 hlow)
  have htrimmed := trimmed_shifted hcodec hscalar hne hdirect
  have hsub : trimmed codec run ⊆ Utf7.base64 run := htrimmed ▸ (List.dropWhile_sublist _).subset
  have hdash : ∀ c ∈ trimmed codec run, c ≠ 45 := fun c hc => (Utf7.base64_ne run c (hsub hc)).2.2.1
  obtain ⟨hrest, hnil | ⟨s, hs, hsne, htext⟩⟩ := h.shift hdash
  · -- Every character of the Base64 was `+`.
    have hplus : ∀ c ∈ Utf7.base64 run, c = 43 := by
      rw [htrimmed, List.dropWhile_eq_nil_iff] at hnil
      exact fun c hc => beq_iff_eq.1 (hnil c hc)
    have htwo := two_le_width hscalar hne hplus
    have hone : width [38] = 1 := rfl
    refine ⟨hrest, [38], by omega, fun hle => absurd hle (by omega), fun turns => ?_⟩
    rw [hnil]
    exact decodeFrom_ampersand codec turns rest
  · -- What is left is the Base64 of another text.
    have hslash : 47 ∉ Utf7.base64 s := by
      intro hc
      have hcomma : (44 : UInt8) ∈ trimmed codec run := by
        rw [htext, modifiedBase64]
        exact List.mem_map.2 ⟨47, hc, rfl⟩
      exact (Utf7.base64_ne run 44 (hsub hcomma)).2.1 rfl
    rw [modifiedBase64_eq hslash] at htext
    have hlengths := congrArg List.length (htext.symm.trans htrimmed)
    have hshorter := (List.dropWhile_sublist (· == 43) (l := Utf7.base64 run)).length_le
    have hcstr := width_cstr s
    have hlength := Utf7.length_base64 s
    have hlength' := Utf7.length_base64 run
    have hwidth : width s = (Utf16.encode s).length := rfl
    have hwidth' : width run = (Utf16.encode run).length := rfl
    refine ⟨hrest, WString.cstr s, by omega, fun hle => ?_, fun turns => ?_⟩
    · have hfull : (Utf7.base64 run).dropWhile (· == 43) = Utf7.base64 run :=
        (List.dropWhile_sublist _).eq_of_length (by omega)
      rw [htrimmed, hfull] at htext
      obtain rfl := Utf7.base64_inj hscalar hs htext
      refine runSurvives_iff.2 ⟨fun c hc => ⟨hcstr.2 hle c hc, hdirect c hc⟩, hslash, fun hhead => ?_⟩
      have hnot := List.dropWhile_eq_self_iff.1 hfull (List.length_pos_iff.2 (Utf7.base64_ne_nil hne))
      rw [List.head?_eq_getElem?, List.getElem?_eq_getElem (List.length_pos_iff.2 (Utf7.base64_ne_nil hne))] at hhead
      exact hnot (beq_iff_eq.2 (Option.some.inj hhead))
    · rw [htext, decodeFrom_run codec turns (Utf7.base64_ne_nil hsne) fun c hc => (Utf7.base64_ne s c hc).2.2.1,
        toWideChar_shifted hcodec hs hsne]

omit hcodec in
/-- A special character begins a run. -/
theorem encodeFrom_run {c : WChar} (hc : isSpecialCharacter c = true) (s : WString) :
    ∃ run rest, c :: s = run ++ rest ∧ run ≠ [] ∧ (∀ d ∈ run, isSpecialCharacter d = true) ∧
      (∀ d ∈ rest.head?, isSpecialCharacter d = false) ∧ rest.length ≤ s.length ∧
      ∀ turns, encodeFrom codec (turns + 1) (c :: s) = 38 :: (trimmed codec run ++ 45 :: encodeFrom codec turns rest) := by
  refine ⟨c :: s.takeWhile isSpecialCharacter, s.dropWhile isSpecialCharacter, ?_, List.cons_ne_nil _ _,
    List.forall_mem_cons.2 ⟨hc, fun d hd => List.mem_takeWhile_imp hd⟩, fun d hd => ?_, (List.dropWhile_sublist _).length_le,
    fun turns => ?_⟩
  · rw [List.cons_append, List.takeWhile_append_dropWhile]
  · have hhead := List.head?_dropWhile_not isSpecialCharacter s
    rw [hd] at hhead
    exact hhead
  · rw [encodeFrom, if_pos hc]

omit hcodec in
theorem encodeFrom_ampersand (turns : Nat) (s : WString) :
    encodeFrom codec (turns + 1) (38 :: s) = 38 :: 45 :: encodeFrom codec turns s := by
  rw [encodeFrom, if_neg (by decide), if_pos rfl]
  rfl

omit hcodec in
/-- Another character is one printable byte. -/
theorem encodeFrom_literal {c : WChar} (hc : isSpecialCharacter c = false) (hand : c ≠ 38) :
    ∃ b : UInt8, b.toNat = c ∧ (32 ≤ b ∧ b ≤ 126 ∧ b ≠ 38) ∧
      ∀ turns s, encodeFrom codec (turns + 1) (c :: s) = b :: encodeFrom codec turns s := by
  have hrange : ∀ n : Nat, n < 127 → isSpecialCharacter n = false → n ≠ 38 →
      (UInt8.ofNat n).toNat = n ∧ 32 ≤ UInt8.ofNat n ∧ UInt8.ofNat n ≤ 126 ∧ UInt8.ofNat n ≠ 38 := by decide
  have hlt : c < 127 := by
    rw [isSpecialCharacter, Bool.or_eq_false_iff, decide_eq_false_iff_not, decide_eq_false_iff_not] at hc
    exact Nat.not_le.1 hc.2
  obtain ⟨hnat, hbounds⟩ := hrange c hlt hc hand
  refine ⟨UInt8.ofNat c, hnat, hbounds, fun turns s => ?_⟩
  rw [encodeFrom, if_neg (by rw [hc]; exact Bool.false_ne_true), if_neg hand, List.nil_append]

omit hcodec in
theorem decodeFrom_nil (n : Nat) : decodeFrom codec n [] = some [] := by cases n <;> rfl

/-- Where the result is in its form it is read as a text that is no wider, and as
    wide only where every run survives. -/
theorem encodeFrom_bound {turns : Nat} {s : WString} (hturns : s.length ≤ turns) (hscalar : Utf7.ScalarValues s)
    (h : Modified (encodeFrom codec turns s)) :
    ∃ out, (∀ n, (encodeFrom codec turns s).length ≤ n → decodeFrom codec n (encodeFrom codec turns s) = some out) ∧
      width out ≤ width s ∧ (width s ≤ width out → ∀ run ∈ runs s, runSurvives codec run = true) := by
  induction turns generalizing s with
  | zero =>
    obtain rfl := List.length_eq_zero_iff.1 (Nat.le_zero.1 hturns)
    exact ⟨[], fun n _ => decodeFrom_nil n, Nat.le_refl _, fun _ => List.forall_mem_singleton.2 rfl⟩
  | succ turns ih =>
    cases s with
    | nil => exact ⟨[], fun n _ => decodeFrom_nil n, Nat.le_refl _, fun _ => List.forall_mem_singleton.2 rfl⟩
    | cons c s =>
      have hs : Utf7.ScalarValues s := fun d hd => hscalar d (List.mem_cons_of_mem _ hd)
      have hlength : s.length ≤ turns := Nat.le_of_succ_le_succ hturns
      cases hspecial : isSpecialCharacter c with
      | true =>
        obtain ⟨run, rest, hsplit, hne, hrun, hhead, hrest, hencode⟩ := @encodeFrom_run codec _ hspecial s
        have hscalars : Utf7.ScalarValues run ∧ Utf7.ScalarValues rest := by
          rw [hsplit] at hscalar
          exact ⟨fun d hd => hscalar d (List.mem_append_left _ hd), fun d hd => hscalar d (List.mem_append_right _ hd)⟩
        rw [hencode] at h ⊢
        obtain ⟨hmodified, w, hw, hwsurvives, hstep⟩ := run_bound hcodec hscalars.1 hne hrun h
        obtain ⟨out, hdecode, hout, hsurvive⟩ := ih (Nat.le_trans hrest hlength) hscalars.2 hmodified
        rw [hsplit]
        refine ⟨w ++ out, fun n hn => ?_, ?_, fun hle => ?_⟩
        · rw [List.length_cons, List.length_append, List.length_cons] at hn
          obtain ⟨m, rfl⟩ : ∃ m, n = m + 1 := ⟨n - 1, by omega⟩
          rw [hstep, hdecode m (by omega), Option.map_some]
        · rw [width_append, width_append]
          omega
        · rw [width_append, width_append] at hle
          rw [forall_runs_append (P := fun r => runSurvives codec r = true) rfl hrun hhead]
          exact ⟨hwsurvives (by omega), hsurvive (by omega)⟩
      | false =>
        rw [runs_cons hspecial, List.forall_mem_cons]
        by_cases hand : c = 38
        · subst hand
          rw [encodeFrom_ampersand] at h ⊢
          obtain ⟨hmodified, _⟩ := @Modified.shift [] _ (fun c hc => absurd hc List.not_mem_nil) h
          obtain ⟨out, hdecode, hout, hsurvive⟩ := ih hlength hs hmodified
          refine ⟨38 :: out, fun n hn => ?_, ?_, fun hle => ⟨rfl, ?_⟩⟩
          · rw [List.length_cons, List.length_cons] at hn
            obtain ⟨m, rfl⟩ : ∃ m, n = m + 1 := ⟨n - 1, by omega⟩
            rw [decodeFrom_ampersand, hdecode m (by omega), Option.map_some]
          · rw [width_cons, width_cons 38 s]
            omega
          · rw [width_cons, width_cons 38 out] at hle
            exact hsurvive (by omega)
        · obtain ⟨b, hb, hbounds, hencode⟩ := @encodeFrom_literal codec _ hspecial hand
          rw [hencode] at h ⊢
          obtain ⟨out, hdecode, hout, hsurvive⟩ := ih hlength hs (h.behind hbounds.2.2)
          refine ⟨c :: out, fun n hn => ?_, ?_, fun hle => ⟨rfl, ?_⟩⟩
          · rw [List.length_cons] at hn
            obtain ⟨m, rfl⟩ : ∃ m, n = m + 1 := ⟨n - 1, by omega⟩
            rw [decodeFrom_literal codec hbounds, hdecode m (by omega), Option.map_some, hb]
          · rw [width_cons, width_cons c s]
            omega
          · rw [width_cons, width_cons c out] at hle
            exact hsurvive (by omega)

/-- Where every run survives the result is in its form and read back. -/
theorem encodeFrom_survives {turns : Nat} {s : WString} (hturns : s.length ≤ turns) (hscalar : Utf7.ScalarValues s)
    (h : ∀ run ∈ runs s, runSurvives codec run = true) :
    Modified (encodeFrom codec turns s) ∧
      ∀ n, (encodeFrom codec turns s).length ≤ n → decodeFrom codec n (encodeFrom codec turns s) = some s := by
  induction turns generalizing s with
  | zero =>
    obtain rfl := List.length_eq_zero_iff.1 (Nat.le_zero.1 hturns)
    exact ⟨.nil, fun n _ => decodeFrom_nil n⟩
  | succ turns ih =>
    cases s with
    | nil => exact ⟨.nil, fun n _ => decodeFrom_nil n⟩
    | cons c s =>
      have hs : Utf7.ScalarValues s := fun d hd => hscalar d (List.mem_cons_of_mem _ hd)
      have hlength : s.length ≤ turns := Nat.le_of_succ_le_succ hturns
      cases hspecial : isSpecialCharacter c with
      | true =>
        obtain ⟨run, rest, hsplit, hne, hrun, hhead, hrest, hencode⟩ := @encodeFrom_run codec _ hspecial s
        rw [hencode]
        rw [hsplit] at hscalar h ⊢
        have hscalar' : Utf7.ScalarValues run := fun d hd => hscalar d (List.mem_append_left _ hd)
        obtain ⟨hrunSurvives, hrestSurvives⟩ := (forall_runs_append (P := fun r => runSurvives codec r = true) rfl hrun hhead).1 h
        obtain ⟨htrimmed, hstep⟩ := run_step hcodec hscalar' hne hrunSurvives
        obtain ⟨hmodified, hdecode⟩ := ih (Nat.le_trans hrest hlength) (fun d hd => hscalar d (List.mem_append_right _ hd))
          hrestSurvives
        refine ⟨?_, fun n hn => ?_⟩
        · rw [htrimmed]
          exact .run hscalar' hne hrun hmodified
        · rw [List.length_cons, List.length_append, List.length_cons] at hn
          obtain ⟨m, rfl⟩ : ∃ m, n = m + 1 := ⟨n - 1, by omega⟩
          rw [hstep, hdecode m (by omega), Option.map_some]
      | false =>
        rw [runs_cons hspecial, List.forall_mem_cons] at h
        obtain ⟨hmodified, hdecode⟩ := ih hlength hs h.2
        by_cases hand : c = 38
        · subst hand
          rw [encodeFrom_ampersand]
          refine ⟨.ampersand hmodified, fun n hn => ?_⟩
          rw [List.length_cons, List.length_cons] at hn
          obtain ⟨m, rfl⟩ : ∃ m, n = m + 1 := ⟨n - 1, by omega⟩
          rw [decodeFrom_ampersand, hdecode m (by omega), Option.map_some]
        · obtain ⟨b, hb, hbounds, hencode⟩ := @encodeFrom_literal codec _ hspecial hand
          rw [hencode]
          refine ⟨.literal hbounds hmodified, fun n hn => ?_⟩
          rw [List.length_cons] at hn
          obtain ⟨m, rfl⟩ : ∃ m, n = m + 1 := ⟨n - 1, by omega⟩
          rw [decodeFrom_literal codec hbounds, hdecode m (by omega), Option.map_some, hb]

/-- A mailbox name survives exactly if each of its runs does, and such names are
    told apart by their encodings. -/
theorem nameSurvives_iff {s : WString} (hscalar : Utf7.ScalarValues s) :
    (NameSurvives codec s ↔ ∀ run ∈ runs s, runSurvives codec run = true) ∧
    ∀ t, Utf7.ScalarValues t → (∀ run ∈ runs s ++ runs t, runSurvives codec run = true) → encode codec s = encode codec t →
      s = t := by
  have hdecode : ∀ {u}, Utf7.ScalarValues u → (∀ run ∈ runs u, runSurvives codec run = true) → NameSurvives codec u := by
    intro u hu hruns
    obtain ⟨hmodified, hback⟩ := encodeFrom_survives hcodec (Nat.le_refl _) hu hruns
    refine ⟨hmodified, ?_⟩
    rw [decode, encode, hback _ (Nat.le_refl _), Option.getD_some]
  refine ⟨⟨fun h => ?_, hdecode hscalar⟩, fun t ht hruns heq => ?_⟩
  · obtain ⟨out, hback, _, hsurvive⟩ := encodeFrom_bound hcodec (Nat.le_refl _) hscalar h.modified
    have hout : out = s := by
      have hdecoded := h.decoded
      rwa [decode, encode, hback _ (Nat.le_refl _), Option.getD_some] at hdecoded
    exact hsurvive (by rw [hout])
  · have hs := hdecode hscalar fun run hrun => hruns run (List.mem_append_left _ hrun)
    have ht' := hdecode ht fun run hrun => hruns run (List.mem_append_right _ hrun)
    rw [← hs.decoded, ← ht'.decoded, heq]

end

/-- The name of the source's own comment, with an ampersand. -/
theorem swedish_name_survives : NameSurvives Utf7.referenceCodec (wide "TEåäöST & co") := by
  have hscalar : Utf7.ScalarValues (wide "TEåäöST & co") := by decide +kernel
  exact (nameSurvives_iff Utf7.referenceCodec_rfc2152 hscalar).1.2 (by decide +kernel)

/-- A character whose Base64 begins with `+`. -/
theorem plus_name_lost : Utf7.referenceCodec.Rfc2152 ∧ Utf7.ScalarValues [0xf900] ∧
    ¬ NameSurvives Utf7.referenceCodec [0xf900] := by
  have hscalar : Utf7.ScalarValues [0xf900] := by decide
  refine ⟨Utf7.referenceCodec_rfc2152, hscalar, fun h => ?_⟩
  exact absurd ((nameSurvives_iff Utf7.referenceCodec_rfc2152 hscalar).1.1 h) (by decide +kernel)

end HMailServer.ModifiedUTF7
