import Mathlib

/- UTF-16. A character beyond the first 65536 is a pair of surrogates; the units
   are written with their high byte in front. -/
namespace Utf16

def encodeChar (c : Nat) : List Nat :=
  if c < 0x10000 then [c] else [0xd800 + (c - 0x10000) / 0x400, 0xdc00 + (c - 0x10000) % 0x400]

def encode (s : List Nat) : List Nat := s.flatMap encodeChar

def isHigh (u : Nat) : Bool := 0xd800 ≤ u && u < 0xdc00

def decode : List Nat → List Nat
  | hi :: lo :: us =>
    if isHigh hi then ((hi - 0xd800) * 0x400 + (lo - 0xdc00) + 0x10000) :: decode us else hi :: decode (lo :: us)
  | us => us

/-- Big-endian. -/
def bytes (us : List Nat) : List UInt8 := us.flatMap fun u => [UInt8.ofNat (u / 256), UInt8.ofNat (u % 256)]

def ofBytes : List UInt8 → List Nat
  | a :: b :: rest => (256 * a.toNat + b.toNat) :: ofBytes rest
  | _ => []

theorem encode_cons (c : Nat) (s : List Nat) : encode (c :: s) = encodeChar c ++ encode s := rfl

theorem length_encodeChar (c : Nat) : 1 ≤ (encodeChar c).length ∧ (encodeChar c).length ≤ 2 := by
  rw [encodeChar]
  split
  · exact ⟨Nat.le_refl _, Nat.le_succ _⟩
  · exact ⟨Nat.le_succ _, Nat.le_refl _⟩

theorem length_le_encode (s : List Nat) : s.length ≤ (encode s).length := by
  induction s with
  | nil => exact Nat.le_refl _
  | cons c s ih =>
    have hone := (length_encodeChar c).1
    rw [encode_cons, List.length_append, List.length_cons]
    omega

theorem decode_single {c : Nat} (hc : isHigh c = false) (us : List Nat) : decode (c :: us) = c :: decode us := by
  cases us with
  | nil => rfl
  | cons u us => rw [decode, if_neg (by rw [hc]; exact Bool.false_ne_true)]

/-- A text is read back. -/
theorem decode_encode {s : List Nat} (hs : ∀ c ∈ s, c.isValidChar) : decode (encode s) = s := by
  induction s with
  | nil => rfl
  | cons c s ih =>
    obtain ⟨hc, hrest⟩ := List.forall_mem_cons.1 hs
    rw [encode_cons, encodeChar]
    split
    · have hhigh : isHigh c = false := by
        rw [isHigh, Bool.and_eq_false_iff, decide_eq_false_iff_not, decide_eq_false_iff_not]
        rcases hc with hlow | hhigh
        · exact .inl (by omega)
        · exact .inr (by omega)
      rw [List.singleton_append, decode_single hhigh, ih hrest]
    · have hmax : c < 0x110000 := hc.elim (fun h => by omega) fun h => h.2
      have hhigh : isHigh (0xd800 + (c - 0x10000) / 0x400) = true := by
        rw [isHigh, Bool.and_eq_true, decide_eq_true_eq, decide_eq_true_eq]
        omega
      rw [List.cons_append, List.singleton_append, decode, if_pos hhigh, ih hrest]
      congr 1
      omega

theorem unit_lt {s : List Nat} (hs : ∀ c ∈ s, c.isValidChar) : ∀ u ∈ encode s, u < 65536 := by
  intro u hu
  obtain ⟨c, hc, huc⟩ := List.mem_flatMap.1 hu
  have hmax : c < 0x110000 := (hs c hc).elim (fun h => by omega) fun h => h.2
  rw [encodeChar] at huc
  split at huc
  · rw [List.mem_singleton.1 huc]
    assumption
  · rcases List.mem_cons.1 huc with rfl | huc
    · omega
    · rw [List.mem_singleton.1 huc]
      omega

theorem ofBytes_bytes {us : List Nat} (hus : ∀ u ∈ us, u < 65536) : ofBytes (bytes us) = us := by
  induction us with
  | nil => rfl
  | cons u us ih =>
    obtain ⟨hu, hrest⟩ := List.forall_mem_cons.1 hus
    have hhigh : (UInt8.ofNat (u / 256)).toNat = u / 256 := UInt8.toNat_ofNat_of_lt (show u / 256 < 256 by omega)
    have hlow : (UInt8.ofNat (u % 256)).toNat = u % 256 := UInt8.toNat_ofNat_of_lt (show u % 256 < 256 by omega)
    have hcons : bytes (u :: us) = UInt8.ofNat (u / 256) :: UInt8.ofNat (u % 256) :: bytes us := rfl
    rw [hcons, ofBytes, hhigh, hlow, ih hrest, Nat.div_add_mod]

theorem length_bytes (us : List Nat) : (bytes us).length = 2 * us.length := by
  induction us with
  | nil => rfl
  | cons u us ih =>
    have hcons : bytes (u :: us) = UInt8.ofNat (u / 256) :: UInt8.ofNat (u % 256) :: bytes us := rfl
    rw [hcons, List.length_cons, List.length_cons, List.length_cons, ih]
    omega

end Utf16
