import HMailServer.Mime.Base64
import HMailServer.Util.WideString
import HMailServer.Lib.Byte

/- How the text of a SASL response becomes credentials (`Base64Decode` and
   `DecodeSaslPlain` of `Common/Util/Parsing/StringParser.cpp`). The conversions
   between wide and narrow strings belong to the system; what every one of them
   does with ASCII is stated. -/
namespace HMailServer

/-- The conversions of `String` and `AnsiString` into each other, and
    `Unicode::MultiByteToWide`. -/
structure Conversions where
  toWide : AnsiString → WString
  toNarrow : WString → AnsiString
  utf8ToWide : AnsiString → WString

/-- ASCII text, as characters of a narrow string. -/
def IsAscii (s : AnsiString) : Prop := ∀ c ∈ s, 0 < c ∧ c < 128

/-- The wide string with the same characters. -/
def sameCharacters (s : AnsiString) : WString := s.map UInt8.toNat

/-- Every code page, and UTF-8, has ASCII at its own places. -/
structure Conversions.KeepAscii (conv : Conversions) : Prop where
  toWide : ∀ s, IsAscii s → conv.toWide s = sameCharacters s
  toNarrow : ∀ s, IsAscii s → conv.toNarrow (sameCharacters s) = s
  utf8ToWide : ∀ s, IsAscii s → conv.utf8ToWide s = sameCharacters s

/-- The locale's `toupper` of ASCII. -/
def UpperAscii (loc : Locale) : Prop := ∀ c < 128, loc.toUpper c = asciiUpper c

namespace StringParser

/-- `Base64Decode`: a NUL that comes out is stored as a tab. -/
def base64Decode (conv : Conversions) (input : WString) : WString :=
  if input = [] then []
  else conv.toWide ((MimeCodeBase64.decode (conv.toNarrow input)).map fun c => if c = 0 then 9 else c)

/-- `DecodeSaslPlain` without the authorization identity, which nobody reads;
    where it fails, what it would write is left as it was. -/
def decodeSaslPlain (conv : Conversions) (base64 : WString) : Bool × WString × WString :=
  match (MimeCodeBase64.decode (conv.toNarrow base64)).splitOn 0 with
  | [_, authcid, password] => (true, conv.utf8ToWide authcid, conv.utf8ToWide password)
  | _ => (false, [], [])

end StringParser

/-! ## ASCII -/

theorem sameCharacters_injective : Function.Injective sameCharacters :=
  List.map_injective_iff.2 fun _ _ h => UInt8.toNat_inj.1 h

theorem sameCharacters_eq_nil {s : AnsiString} : sameCharacters s = [] ↔ s = [] := List.map_eq_nil_iff

theorem wide_injective : Function.Injective wide := by
  intro s t h
  have htext := List.map_injective_iff.2 (fun a b hab => Char.ext (UInt32.toNat_inj.1 hab)) h
  exact String.toList_inj.1 htext

theorem IsAscii.append {s t : AnsiString} (hs : IsAscii s) (ht : IsAscii t) : IsAscii (s ++ t) := by
  intro c hc
  rcases List.mem_append.1 hc with hc | hc
  · exact hs c hc
  · exact ht c hc

theorem IsAscii.cons {c : UInt8} {s : AnsiString} (hc : 0 < c ∧ c < 128) (hs : IsAscii s) : IsAscii (c :: s) :=
  List.forall_mem_cons.2 ⟨hc, hs⟩

theorem isAscii_of_isBase64 {s : AnsiString} (h : ∀ c ∈ s, MimeCodeBase64.isBase64 c = true) : IsAscii s := by
  have hchar : ∀ c : UInt8, MimeCodeBase64.isBase64 c = true → 0 < c ∧ c < 128 := Byte.forall_of_lt (by decide +kernel)
  exact fun c hc => hchar c (h c hc)

theorem notMem_of_isBase64 {s : AnsiString} (h : ∀ c ∈ s, MimeCodeBase64.isBase64 c = true) : (32 : UInt8) ∉ s :=
  fun hc => absurd (h 32 hc) (by decide)

theorem isAscii_star : IsAscii [42] := by
  intro c hc
  rw [List.mem_singleton.1 hc]
  decide

theorem wide_star : wide "*" = sameCharacters [42] := by decide

/-- Upper case is the same on both sides of a conversion. -/
theorem makeUpper_sameCharacters {loc : Locale} (hloc : UpperAscii loc) {s : AnsiString} (hs : IsAscii s) :
    WString.makeUpper loc (sameCharacters s) = sameCharacters (AnsiString.makeUpper s) := by
  have hchar : ∀ c : UInt8, asciiUpper c.toNat = (AnsiString.toUpper c).toNat :=
    Byte.forall_of_lt (by decide +kernel)
  unfold WString.makeUpper sameCharacters AnsiString.makeUpper
  rw [List.map_map, List.map_map]
  apply List.map_congr_left
  intro c hc
  calc loc.toUpper c.toNat = asciiUpper c.toNat := hloc _ (UInt8.lt_iff_toNat_lt.1 (hs c hc).2)
    _ = (AnsiString.toUpper c).toNat := hchar c

namespace StringParser

variable {conv : Conversions} (hconv : conv.KeepAscii)

include hconv

/-- A name or a password comes back from its base64. -/
theorem base64Decode_encode {s : AnsiString} (hs : IsAscii s) :
    base64Decode conv (sameCharacters (MimeCodeBase64.encode false s)) = sameCharacters s := by
  have hencoded := isAscii_of_isBase64 (MimeCodeBase64.isBase64_encode s)
  have hkept : s.map (fun c => if c = 0 then 9 else c) = s := by
    conv_rhs => rw [← List.map_id s]
    apply List.map_congr_left
    intro c hc
    exact if_neg fun hzero => absurd (hs c hc).1 (by rw [hzero]; decide)
  unfold base64Decode
  rw [hconv.toNarrow _ hencoded, MimeCodeBase64.decode_encode, hkept, hconv.toWide s hs]
  split
  · rename_i hnil
    have hlength := MimeCodeBase64.length_encode s
    rw [sameCharacters_eq_nil.1 hnil, List.length_nil] at hlength
    have hempty : s.length = 0 := by omega
    rw [List.length_eq_zero_iff.1 hempty]
    rfl
  · rfl

/-- The message of PLAIN splits into what it was made of. -/
theorem decodeSaslPlain_encode {authzid name password : AnsiString} (hauthzid : IsAscii authzid) (hname : IsAscii name)
    (hpassword : IsAscii password) :
    decodeSaslPlain conv (sameCharacters (MimeCodeBase64.encode false (authzid ++ 0 :: name ++ 0 :: password))) =
      (true, sameCharacters name, sameCharacters password) := by
  have hencoded := isAscii_of_isBase64 (MimeCodeBase64.isBase64_encode (authzid ++ 0 :: name ++ 0 :: password))
  have hno : ∀ s : AnsiString, IsAscii s → (0 : UInt8) ∉ s := fun s hs hzero => absurd (hs 0 hzero).1 (by decide)
  have hjoin : authzid ++ 0 :: name ++ 0 :: password = [(0 : UInt8)].intercalate [authzid, name, password] := by
    simp [List.intercalate]
  have hsplit : (authzid ++ 0 :: name ++ 0 :: password).splitOn 0 = [authzid, name, password] := by
    rw [hjoin]
    apply List.splitOn_intercalate
    · intro part hpart
      simp only [List.mem_cons, List.not_mem_nil, or_false] at hpart
      rcases hpart with rfl | rfl | rfl
      · exact hno _ hauthzid
      · exact hno _ hname
      · exact hno _ hpassword
    · exact List.cons_ne_nil _ _
  unfold decodeSaslPlain
  rw [hconv.toNarrow _ hencoded, MimeCodeBase64.decode_encode, hsplit]
  dsimp only
  rw [hconv.utf8ToWide name hname, hconv.utf8ToWide password hpassword]

/-- The line that cancels an exchange decodes to nothing. -/
theorem base64Decode_star : base64Decode conv (wide "*") = [] := by
  rw [base64Decode, if_neg (by decide), wide_star, hconv.toNarrow [42] isAscii_star]
  exact hconv.toWide [] fun _ hc => absurd hc List.not_mem_nil

theorem decodeSaslPlain_star : (decodeSaslPlain conv (wide "*")).1 = false := by
  have hpieces : (MimeCodeBase64.decode [42]).splitOn 0 = [[]] := by decide
  rw [decodeSaslPlain, wide_star, hconv.toNarrow [42] isAscii_star, hpieces]

end StringParser

/-! ## The code page with a character for every octet -/

def latin1 : Conversions where
  toWide := sameCharacters
  toNarrow s := s.map UInt8.ofNat
  utf8ToWide := sameCharacters

theorem latin1_keepAscii : latin1.KeepAscii where
  toWide _ _ := rfl
  toNarrow s _ := by
    have hchar : ∀ c : UInt8, UInt8.ofNat c.toNat = c := fun c => UInt8.ofNat_toNat
    show (s.map UInt8.toNat).map UInt8.ofNat = s
    rw [List.map_map]
    conv_rhs => rw [← List.map_id s]
    exact List.map_congr_left fun c _ => hchar c
  utf8ToWide _ _ := rfl

theorem upperAscii_classic : UpperAscii classicLocale := fun _ _ => rfl

end HMailServer
