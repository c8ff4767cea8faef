import HMailServer.Smtp.SpfEvaluator
import HMailServer.Smtp.SpfRecordText

/- The networks of an SPF record: an accepted literal always reads as an address, and a
   prefix of `n` bits compares the first `n` bits of two addresses. -/
namespace HMailServer

namespace SPFAddress
open SPFSyntax

/-! ## The literals of a record -/

/-- The groups that are read are those that were counted. -/
theorem countGroups_length {written n : ℕ} {groups : List AnsiString} (h : countGroups written groups = some n) :
    n = written + (groups.flatMap fun group => if 46 ∈ group then [(), ()] else [()]).length := by
  induction groups generalizing written with
  | nil => exact (Option.some.inj h).symm
  | cons group groups ih =>
    rw [countGroups] at h
    rw [List.flatMap_cons, List.length_append]
    split at h
    · rename_i hlast
      split at h
      · have hrest := ih h
        rw [if_pos hlast.2]
        simp only [List.length_cons, List.length_nil]
        omega
      · cases h
    · rename_i hlast
      split at h
      · rename_i hgroup
        have hdot : 46 ∉ group := notMem_of_isHexGroup hgroup (by decide)
        have hrest := ih h
        rw [if_neg hdot]
        simp only [List.length_cons, List.length_nil]
        omega
      · cases h

theorem length_readIP6Groups (side : AnsiString) : (readIP6Groups side).length =
    ((writtenGroups side).flatMap fun group => if 46 ∈ group then [(), ()] else [()]).length := by
  rw [readIP6Groups]
  simp only [List.length_flatMap]
  congr 1
  refine List.map_congr_left fun group _ => ?_
  split <;> rfl

theorem readIP6_isSome {text : AnsiString} (h : isValidIP6Network text = true) : (readIP6 text).isSome = true := by
  unfold isValidIP6Network at h
  unfold readIP6
  split at h
  · rename_i doubleColon hfind
    dsimp only at h
    split at h
    · cases h
    · split at h
      · rename_i written hcount
        have hlength := countGroups_length hcount
        have hroom : written ≤ 7 := of_decide_eq_true h
        rw [List.flatMap_append, List.length_append, ← length_readIP6Groups, ← length_readIP6Groups] at hlength
        dsimp only
        rw [if_neg (by omega)]
        rfl
      · cases h
  · split at h
    · rename_i written hcount
      have hlength := countGroups_length hcount
      have hfull : written = 8 := of_decide_eq_true h
      rw [← length_readIP6Groups] at hlength
      dsimp only
      rw [if_neg (by omega)]
      rfl
    · cases h

theorem tryParse_ip4 {text : AnsiString} (h : isValidIP4Network text = true) : tryParse text = some (ofIP4 (readIP4 text)) := by
  rw [tryParse, if_pos h]

theorem tryParse_isSome {text : AnsiString} (h : isValidIP6Network text = true) : (tryParse text).isSome = true := by
  obtain ⟨bytes, hread⟩ := Option.isSome_iff_exists.1 (readIP6_isSome h)
  unfold tryParse
  rw [h, hread]
  split
  · rfl
  · rw [if_neg (by decide)]
    dsimp only
    split <;> rfl

/-! ## Prefixes -/

/-- A bit of an address, the first one of its first byte being bit zero. -/
def bit (a : SPFAddress) (k : ℕ) : Bool :=
  if h : k / 8 < 16 then (a.bytes ⟨k / 8, h⟩).toNat.testBit (7 - k % 8) else false

theorem byte_eq_iff (x y : UInt8) : x = y ↔ ∀ j < 8, x.toNat.testBit (7 - j) = y.toNat.testBit (7 - j) := by
  refine ⟨fun h j _ => by rw [h], fun h => UInt8.toNat_inj.1 (Nat.eq_of_testBit_eq fun i => ?_)⟩
  by_cases hi : i < 8
  · have hj := h (7 - i) (by omega)
    have hsub : 7 - (7 - i) = i := by omega
    rwa [hsub] at hj
  · have hpow : 2 ^ 8 ≤ 2 ^ i := Nat.pow_le_pow_right (by decide) (by omega)
    rw [Nat.testBit_lt_two_pow (x.toNat_lt.trans_le hpow), Nat.testBit_lt_two_pow (y.toNat_lt.trans_le hpow)]

theorem testBit_mask : ∀ r < 8, 0 < r → ∀ j < 8, (UInt8.ofNat (255 <<< (8 - r))).toNat.testBit (7 - j) = decide (j < r) := by
  decide +kernel

theorem masked_eq_iff (x y : UInt8) {r : ℕ} (hr : r < 8) (hpos : 0 < r) :
    x &&& UInt8.ofNat (255 <<< (8 - r)) = y &&& UInt8.ofNat (255 <<< (8 - r)) ↔
      ∀ j < r, x.toNat.testBit (7 - j) = y.toNat.testBit (7 - j) := by
  rw [byte_eq_iff]
  simp only [UInt8.toNat_and, Nat.testBit_and]
  constructor
  · intro h j hj
    have hbit := h j (by omega)
    rwa [testBit_mask r hr hpos j (by omega), decide_eq_true hj, Bool.and_true, Bool.and_true] at hbit
  · intro h j hj
    rw [testBit_mask r hr hpos j hj]
    by_cases hlt : j < r
    · rw [h j hlt]
    · rw [decide_eq_false hlt, Bool.and_false, Bool.and_false]

/-- The bits of the whole bytes of a prefix. -/
theorem bits_bytes (a b : SPFAddress) {w : ℕ} (hw : w ≤ 16) :
    (∀ i : Fin 16, i.val < w → a.bytes i = b.bytes i) ↔ ∀ k < 8 * w, a.bit k = b.bit k := by
  constructor
  · intro h k hk
    have hbyte : k / 8 < 16 := by omega
    rw [bit, bit, dif_pos hbyte, dif_pos hbyte, h ⟨k / 8, hbyte⟩ (by show k / 8 < w; omega)]
  · intro h i hi
    refine (byte_eq_iff _ _).2 fun j hj => ?_
    have hbit := h (8 * i.val + j) (by omega)
    have hdiv : (8 * i.val + j) / 8 = i.val := by omega
    have hmod : (8 * i.val + j) % 8 = j := by omega
    simp only [bit, hdiv, hmod, i.isLt, dif_pos] at hbit
    exact hbit

/-- A prefix of `n` bits matches exactly where the families are the same, the length is one
    of theirs and the first `n` bits agree. -/
theorem matchesPrefix_iff (a b : SPFAddress) (n : ℕ) :
    a.matchesPrefix b n = true ↔ a.family ≠ .none ∧ a.family = b.family ∧ (n : ℤ) ≤ a.getBitCount ∧
      ∀ k < n, a.bit k = b.bit k := by
  unfold matchesPrefix
  by_cases hfamily : a.family = .none ∨ a.family ≠ b.family
  · rw [if_pos hfamily]
    refine iff_of_false Bool.false_ne_true fun h => ?_
    obtain hnone | hne := hfamily
    · exact h.1 hnone
    · exact hne h.2.1
  · rw [if_neg hfamily]
    rw [not_or, not_not] at hfamily
    by_cases hrange : (n : ℤ) < 0 ∨ a.getBitCount < n
    · rw [if_pos hrange]
      exact iff_of_false Bool.false_ne_true fun h => by omega
    · rw [if_neg hrange]
      have hcount : a.getBitCount ≤ 128 := by
        unfold getBitCount
        split <;> decide
      have hbytes := bits_bytes a b (w := n / 8) (by omega)
      have hnat : (n : ℤ).toNat = n := Int.toNat_natCast n
      dsimp only
      rw [hnat]
      have hgoal : (a.family ≠ .none ∧ a.family = b.family ∧ (n : ℤ) ≤ a.getBitCount ∧ ∀ k < n, a.bit k = b.bit k) ↔
          ∀ k < n, a.bit k = b.bit k :=
        ⟨fun h => h.2.2.2, fun h => ⟨hfamily.1, hfamily.2, by omega, h⟩⟩
      rw [hgoal]
      by_cases hwhole : ∀ i : Fin 16, i.val < n / 8 → a.bytes i = b.bytes i
      · rw [if_neg (not_not.2 hwhole)]
        have hfirst := hbytes.1 hwhole
        by_cases hr : n % 8 = 0
        · rw [if_pos hr]
          exact iff_of_true rfl fun k hk => hfirst k (by omega)
        · rw [if_neg hr, decide_eq_true_iff]
          have hlast : n / 8 < 16 := by omega
          have hmasked := masked_eq_iff (a.bytes ⟨n / 8, hlast⟩) (b.bytes ⟨n / 8, hlast⟩)
            (Nat.mod_lt n (by decide)) (Nat.pos_of_ne_zero hr)
          constructor
          · intro h k hk
            by_cases hk' : k < 8 * (n / 8)
            · exact hfirst k hk'
            · have hdiv : k / 8 = n / 8 := by omega
              have hbit := hmasked.1 (h ⟨n / 8, hlast⟩ rfl) (k % 8) (by omega)
              simp only [bit, hdiv, hlast, dif_pos]
              exact hbit
          · intro h i hi
            obtain rfl : i = ⟨n / 8, hlast⟩ := Fin.ext hi
            refine hmasked.2 fun j hj => ?_
            have hbit := h (8 * (n / 8) + j) (by omega)
            have hdiv : (8 * (n / 8) + j) / 8 = n / 8 := by omega
            have hmod : (8 * (n / 8) + j) % 8 = j := by omega
            simp only [bit, hdiv, hmod, hlast, dif_pos] at hbit
            exact hbit
      · rw [if_pos hwhole]
        exact iff_of_false Bool.false_ne_true fun h => hwhole (hbytes.2 fun k hk => h k (by omega))

end SPFAddress

namespace SPFEvaluator
open SPFSyntax SPFMechanism

/-- An IPv4 network written as an IPv6 one. -/
def mappedNetwork : SPFMechanism :=
  { type := .IP6, qualifier := .pass, address := ansi "::ffff:192.0.2.0", ip6PrefixLength := 24 }

/-- A check of an IPv4 client of that network. -/
def mappedCheck : SPFEvaluator where
  lookup := fun _ _ => none
  expander := SPFMacroExpander.create (SPFAddress.ofIP4 ![192, 0, 2, 7]) [] (ansi "mail.a.test")

end SPFEvaluator
end HMailServer
