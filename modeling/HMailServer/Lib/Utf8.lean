import Mathlib

/- UTF-8 texts as the encodings of their characters, one behind the other. The
   encoding of a character is a head byte and up to three continuation bytes, and
   none is the beginning of another. -/
namespace Utf8

def isContinuation (c : UInt8) : Bool := c &&& 0xc0 == 0x80

def encode (cs : List Char) : List UInt8 := cs.flatMap String.utf8EncodeChar

theorem encode_cons (c : Char) (cs : List Char) : encode (c :: cs) = String.utf8EncodeChar c ++ encode cs := rfl

theorem encode_append (cs ds : List Char) : encode (cs ++ ds) = encode cs ++ encode ds := List.flatMap_append

theorem continuation_byte (n : Nat) : isContinuation (UInt8.ofNat (n % 64 + 128)) = true := by
  have hall : ∀ m < 64, isContinuation (UInt8.ofNat (m + 128)) = true := by decide
  exact hall (n % 64) (Nat.mod_lt n (by decide))

/-- A head byte and its continuation bytes; a character of one byte is in
    ASCII. -/
theorem encodeChar_shape (c : Char) :
    ∃ head tail, String.utf8EncodeChar c = head :: tail ∧ isContinuation head = false ∧
      (∀ b ∈ tail, isContinuation b = true) ∧ tail.length ≤ 3 ∧ (tail ≠ [] → 128 ≤ head) := by
  rw [String.utf8EncodeChar]
  split
  · rename_i h
    have hall : ∀ m < 128, isContinuation (UInt8.ofNat m) = false := by decide
    exact ⟨_, [], rfl, hall _ (by omega), fun b hb => absurd hb List.not_mem_nil, Nat.zero_le 3, fun h => absurd rfl h⟩
  · split
    · have hall : ∀ m < 32, isContinuation (UInt8.ofNat (m + 192)) = false ∧ 128 ≤ UInt8.ofNat (m + 192) := by decide
      obtain ⟨hhead, hge⟩ := hall _ (Nat.mod_lt (c.val.toNat / 64) (by decide))
      refine ⟨_, _, rfl, hhead, ?_, by simp, fun _ => hge⟩
      intro b hb
      rw [List.mem_singleton.1 hb]
      exact continuation_byte _
    · split
      · have hall : ∀ m < 16, isContinuation (UInt8.ofNat (m + 224)) = false ∧ 128 ≤ UInt8.ofNat (m + 224) := by decide
        obtain ⟨hhead, hge⟩ := hall _ (Nat.mod_lt (c.val.toNat / 4096) (by decide))
        refine ⟨_, _, rfl, hhead, ?_, by simp, fun _ => hge⟩
        intro b hb
        rw [List.mem_cons, List.mem_singleton] at hb
        rcases hb with rfl | rfl <;> exact continuation_byte _
      · have hall : ∀ m < 8, isContinuation (UInt8.ofNat (m + 240)) = false ∧ 128 ≤ UInt8.ofNat (m + 240) := by decide
        obtain ⟨hhead, hge⟩ := hall _ (Nat.mod_lt (c.val.toNat / 262144) (by decide))
        refine ⟨_, _, rfl, hhead, ?_, by simp, fun _ => hge⟩
        intro b hb
        rw [List.mem_cons, List.mem_cons, List.mem_singleton] at hb
        rcases hb with rfl | rfl | rfl <;> exact continuation_byte _

theorem encodeChar_ne_nil (c : Char) : String.utf8EncodeChar c ≠ [] := String.utf8EncodeChar_ne_nil

/-- Texts that begin with two characters begin with the same. -/
theorem encodeChar_inj {c d : Char} {s t : List UInt8}
    (h : String.utf8EncodeChar c ++ s = String.utf8EncodeChar d ++ t) : c = d ∧ s = t := by
  have hc := ByteArray.utf8DecodeChar?_utf8EncodeChar_append (b := s.toByteArray) (c := c)
  have hd := ByteArray.utf8DecodeChar?_utf8EncodeChar_append (b := t.toByteArray) (c := d)
  rw [← List.toByteArray_append] at hc hd
  rw [h, hd] at hc
  obtain rfl := Option.some.inj hc
  exact ⟨rfl, List.append_cancel_left h⟩

/-- A text that ends within a character is no text. -/
theorem encode_append_ne {c : Char} {p q : List UInt8} (h : String.utf8EncodeChar c = p ++ q) (hp : p ≠ []) (hq : q ≠ [])
    (cs ds : List Char) : encode cs ++ p ≠ encode ds := by
  induction cs generalizing ds with
  | nil =>
    cases ds with
    | nil => exact hp
    | cons d ds =>
      intro heq
      have hchar : String.utf8EncodeChar d ++ (encode ds ++ q) = String.utf8EncodeChar c ++ [] := by
        rw [← List.append_assoc, ← encode_cons, ← heq, List.append_nil, h]
        rfl
      have hnil := (encodeChar_inj hchar).2
      exact hq (List.append_eq_nil_iff.1 hnil).2
  | cons c' cs ih =>
    cases ds with
    | nil =>
      intro heq
      rw [encode_cons, List.append_assoc] at heq
      exact encodeChar_ne_nil c' (List.append_eq_nil_iff.1 heq).1
    | cons d ds =>
      intro heq
      rw [encode_cons, encode_cons, List.append_assoc] at heq
      exact ih ds (encodeChar_inj heq).2

/-- Behind its head byte a character goes on to the next head byte. -/
theorem takeWhile_isContinuation {tail : List UInt8} (htail : ∀ b ∈ tail, isContinuation b = true) (cs : List Char) :
    (tail ++ encode cs).takeWhile isContinuation = tail := by
  rw [List.takeWhile_append_of_pos htail]
  cases cs with
  | nil => rw [encode, List.flatMap_nil, List.takeWhile_nil, List.append_nil]
  | cons c cs =>
    obtain ⟨head, more, hchar, hhead, _⟩ := encodeChar_shape c
    rw [encode_cons, hchar, List.cons_append, List.takeWhile_cons_of_neg (by simp [hhead]), List.append_nil]

end Utf8
