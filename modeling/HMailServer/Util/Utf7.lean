import HMailServer.Lib.Utf16
import HMailServer.Mime.Base64
import HMailServer.Util.WideString

/- UTF-7 (RFC 2152) as the platform converts it. The converter is a parameter:
   which of the characters that may stand for themselves do so is its own choice.
   One converter is given to run. -/
namespace HMailServer
open AnsiString

/-- The converter that `Unicode::ToCodePage` and `FromCodePage` call. -/
structure Utf7Codec where
  toUtf7 : WString → AnsiString
  fromUtf7 : AnsiString → WString
  /-- The characters it writes as they are. -/
  direct : WChar → Bool

namespace Utf7

/-- The Base64 of a text in UTF-16, without padding. -/
def base64 (s : WString) : AnsiString := MimeCodeBase64.unpadded (Utf16.bytes (Utf16.encode s))

def ScalarValues (s : WString) : Prop := ∀ c ∈ s, c.isValidChar

instance (s : WString) : Decidable (ScalarValues s) := inferInstanceAs (Decidable (∀ c ∈ s, c < 0xd800 ∨ 0xdfff < c ∧ c < 0x110000))

/-- `+`, Base64, `-`. -/
def shifted (s : WString) : AnsiString := 43 :: (base64 s ++ [45])

end Utf7

/-- What RFC 2152 says of a converter. -/
structure Utf7Codec.Rfc2152 (codec : Utf7Codec) : Prop where
  /-- Outside the printable characters, only a tab and the line ends may stand for
      themselves. -/
  direct_le : ∀ c, codec.direct c = true → c = 9 ∨ c = 10 ∨ c = 13 ∨ 32 ≤ c ∧ c ≤ 126
  noNul : ∀ s, (0 : UInt8) ∉ codec.toUtf7 s
  written : ∀ s, ∀ c ∈ s, codec.direct c = true → UInt8.ofNat c ∈ codec.toUtf7 s
  /-- What may not stand for itself is shifted. -/
  shifts : ∀ s, Utf7.ScalarValues s → s ≠ [] → (∀ c ∈ s, codec.direct c = false) → codec.toUtf7 s = Utf7.shifted s
  reads : ∀ s, Utf7.ScalarValues s → s ≠ [] → codec.fromUtf7 (Utf7.shifted s) = s

namespace Utf7

/-! ## Base64 -/

theorem base64_table (s : WString) : ∀ c ∈ base64 s, c ∈ MimeCodeBase64.table := by
  obtain ⟨_, _, hall⟩ := MimeCodeBase64.unpadded_body (Utf16.bytes (Utf16.encode s))
  exact hall

theorem base64_ne (s : WString) : ∀ c ∈ base64 s, c ≠ 0 ∧ c ≠ 44 ∧ c ≠ 45 ∧ 32 ≤ c ∧ c ≤ 126 := by
  have htable : ∀ c ∈ MimeCodeBase64.table, c ≠ 0 ∧ c ≠ 44 ∧ c ≠ 45 ∧ 32 ≤ c ∧ c ≤ 126 :=
    List.all_iff_forall_prop.1 (by decide)
  exact fun c hc => htable c (base64_table s c hc)

theorem length_base64 (s : WString) : (base64 s).length = (16 * (Utf16.encode s).length + 5) / 6 := by
  rw [base64, MimeCodeBase64.length_unpadded, Utf16.length_bytes]
  congr 1
  omega

theorem decode_base64 {s : WString} (hs : ScalarValues s) :
    Utf16.decode (Utf16.ofBytes (MimeCodeBase64.decode (base64 s))) = s := by
  rw [base64, MimeCodeBase64.decode_unpadded, Utf16.ofBytes_bytes (Utf16.unit_lt hs), Utf16.decode_encode hs]

theorem base64_inj {s t : WString} (hs : ScalarValues s) (ht : ScalarValues t) (h : base64 s = base64 t) : s = t := by
  rw [← decode_base64 hs, ← decode_base64 ht, h]

theorem base64_ne_nil {s : WString} (hs : s ≠ []) : base64 s ≠ [] := by
  have hpos := List.length_pos_iff.2 hs
  have hunits := Utf16.length_le_encode s
  have hlength := length_base64 s
  intro hnil
  rw [hnil, List.length_nil] at hlength
  omega

/-! ## A converter -/

/-- The tab, the line ends and the printable characters but `+`, `\` and `~`. -/
def isDirect (c : WChar) : Bool := c == 9 || c == 10 || c == 13 || (32 ≤ c && c ≤ 125 && c != 43 && c != 92)

def flush (pending : WString) : AnsiString := if pending = [] then [] else shifted pending

/-- `pending` is shifted where it ends. -/
def writeFrom (pending : WString) : WString → AnsiString
  | [] => flush pending
  | c :: s => if isDirect c then flush pending ++ UInt8.ofNat c :: writeFrom [] s else writeFrom (pending ++ [c]) s

def unshift (text : AnsiString) : WString := Utf16.decode (Utf16.ofBytes (MimeCodeBase64.decode text))

/-- Within a shift, the Base64 so far. -/
def readFrom : Option AnsiString → AnsiString → WString
  | none, [] => []
  | none, c :: text => if c = 43 then readFrom (some []) text else c.toNat :: readFrom none text
  | some base64, [] => unshift base64
  | some base64, c :: text =>
    if c = 45 then (if base64 = [] then [43] else unshift base64) ++ readFrom none text
    else if MimeCodeBase64.isAlphabet c then readFrom (some (base64 ++ [c])) text
    else unshift base64 ++ c.toNat :: readFrom none text

def referenceCodec : Utf7Codec where
  toUtf7 := writeFrom []
  fromUtf7 := readFrom none
  direct := isDirect

theorem mem_shifted {s : WString} {b : UInt8} (h : b ∈ shifted s) : b ≠ 0 := by
  rw [shifted, List.mem_cons, List.mem_append, List.mem_singleton] at h
  rcases h with rfl | h | rfl
  · decide
  · exact (base64_ne s b h).1
  · decide

theorem mem_flush {s : WString} {b : UInt8} (h : b ∈ flush s) : b ≠ 0 := by
  rw [flush] at h
  split at h
  · exact absurd h List.not_mem_nil
  · exact mem_shifted h

theorem direct_bounds {c : Nat} (h : isDirect c = true) : c = 9 ∨ c = 10 ∨ c = 13 ∨ 32 ≤ c ∧ c ≤ 126 := by
  simp only [isDirect, Bool.or_eq_true, Bool.and_eq_true, beq_iff_eq, decide_eq_true_eq] at h
  rcases h with ((h | h) | h) | h
  · exact .inl h
  · exact .inr (.inl h)
  · exact .inr (.inr (.inl h))
  · exact .inr (.inr (.inr ⟨h.1.1.1, Nat.le_succ_of_le h.1.1.2⟩))

theorem writeFrom_noNul (pending : WString) (s : List Nat) : ∀ b ∈ writeFrom pending s, b ≠ 0 := by
  induction s generalizing pending with
  | nil => exact fun b hb => mem_flush hb
  | cons c s ih =>
    rw [writeFrom]
    split
    · rename_i hc
      intro b hb
      rcases List.mem_append.1 hb with hb | hb
      · exact mem_flush hb
      · rcases List.mem_cons.1 hb with rfl | hb
        · have hbounds := direct_bounds hc
          have hlt : c < 256 := by rcases hbounds with h | h | h | h <;> omega
          have hnat : (UInt8.ofNat c).toNat = c := UInt8.toNat_ofNat_of_lt hlt
          intro hzero
          rw [hzero] at hnat
          rw [← hnat] at hbounds
          exact absurd hbounds (by decide)
        · exact ih [] b hb
    · exact ih _

theorem writeFrom_written {c : WChar} (hc : isDirect c = true) (pending s : WString) (h : c ∈ s) :
    UInt8.ofNat c ∈ writeFrom pending s := by
  induction s generalizing pending with
  | nil => exact absurd h List.not_mem_nil
  | cons d s ih =>
    rw [writeFrom]
    rcases List.mem_cons.1 h with rfl | h
    · rw [if_pos hc]
      exact List.mem_append_right _ List.mem_cons_self
    · split
      · exact List.mem_append_right _ (List.mem_cons_of_mem _ (ih [] h))
      · exact ih _ h

theorem writeFrom_shifts (pending s : WString) (h : ∀ c ∈ s, isDirect c = false) :
    writeFrom pending s = flush (pending ++ s) := by
  induction s generalizing pending with
  | nil => rw [writeFrom, List.append_nil]
  | cons c s ih =>
    obtain ⟨hc, hrest⟩ := List.forall_mem_cons.1 h
    rw [writeFrom, if_neg (by rw [hc]; exact Bool.false_ne_true), ih _ hrest, List.append_assoc, List.singleton_append]

theorem readFrom_base64 (read text : AnsiString) (h : ∀ c ∈ text, MimeCodeBase64.isAlphabet c = true) (rest : AnsiString) :
    readFrom (some read) (text ++ rest) = readFrom (some (read ++ text)) rest := by
  induction text generalizing read with
  | nil => rw [List.nil_append, List.append_nil]
  | cons c text ih =>
    obtain ⟨hc, hrest⟩ := List.forall_mem_cons.1 h
    have hdash : c ≠ 45 := by
      rintro rfl
      exact absurd hc (by decide)
    rw [List.cons_append, readFrom, if_neg hdash, if_pos hc, ih _ hrest, List.append_assoc, List.singleton_append]

theorem referenceCodec_rfc2152 : referenceCodec.Rfc2152 where
  direct_le := fun _ hc => direct_bounds hc
  noNul := fun s h => writeFrom_noNul [] s 0 h rfl
  written := fun s _ hc hdirect => writeFrom_written hdirect [] s hc
  shifts := fun s _ hne hall => by
    have hshift : writeFrom [] s = flush s := writeFrom_shifts [] s hall
    have hflush : flush s = shifted s := if_neg hne
    exact hshift.trans hflush
  reads := fun s hs hne => by
    have halphabet : ∀ c ∈ base64 s, MimeCodeBase64.isAlphabet c = true := fun c hc =>
      (MimeCodeBase64.isAlphabet_iff c).2 (base64_table s c hc)
    have hread := readFrom_base64 [] (base64 s) halphabet [45]
    rw [List.nil_append] at hread
    calc readFrom none (shifted s) = readFrom (some []) (base64 s ++ [45]) := by rw [shifted, readFrom, if_pos rfl]
      _ = readFrom (some (base64 s)) [45] := hread
      _ = unshift (base64 s) ++ [] := congrArg (· ++ []) (if_neg (base64_ne_nil hne))
      _ = s := by rw [List.append_nil, unshift, decode_base64 hs]

end Utf7
end HMailServer
