import HMailServer.Lib.LoneSeparator
import HMailServer.Lib.Separated
import HMailServer.Smtp.SpfAddress

/- The readable form of an SPF address is read back as the address, so that two texts
   are of one address exactly if they have one readable form. -/
namespace HMailServer.SPFAddress
open SPFSyntax LongestRun LoneSeparator

/-! ## Octets -/

theorem toDecimal_octet : ∀ n < 256, isOctet (toDecimal n) = true ∧ AnsiString.digitsValue (toDecimal n) = n := by
  decide +kernel

theorem isDigit_of_isOctet {text : AnsiString} (h : isOctet text = true) : ∀ c ∈ text, AnsiString.isDigit c = true := by
  unfold isOctet at h
  split at h
  · exact absurd h (by simp)
  · split at h
    · exact absurd h (by simp)
    · rename_i hall
      simpa using hall

/-- No byte but a digit or a full stop is in a dotted quad. -/
theorem notMem_of_isValidIP4Network {text : AnsiString} (h : isValidIP4Network text = true) {c : UInt8}
    (hdigit : AnsiString.isDigit c = false) (hdot : c ≠ 46) : c ∉ text := by
  intro hmem
  have hoctets : (split text 46).all isOctet = true := by
    unfold isValidIP4Network at h
    dsimp only at h
    split at h
    · exact absurd h (by simp)
    · exact h
  obtain hsep | ⟨octet, hoctet, hc⟩ := Separated.mem_or_mem_splitOn 46 hmem
  · exact hdot hsep
  · have hall := isDigit_of_isOctet (List.all_eq_true.1 hoctets octet hoctet) c hc
    rw [hdigit] at hall
    exact absurd hall (by simp)

theorem lt_of_octet (i : Fin 4) : i.val < 16 := by omega

/-- The four octets of an address. -/
def octets (bytes : Fin 16 → UInt8) : List UInt8 := List.ofFn fun i : Fin 4 => bytes ⟨i.val, lt_of_octet i⟩

theorem split_toDottedQuad (bytes : Fin 16 → UInt8) :
    split (toDottedQuad bytes) 46 = (octets bytes).map fun octet => toDecimal octet.toNat := by
  have hdot : ∀ text ∈ (octets bytes).map fun octet => toDecimal octet.toNat, 46 ∉ text := by
    intro text htext
    obtain ⟨octet, -, rfl⟩ := List.mem_map.1 htext
    intro hmem
    have hdigit := isDigit_of_isOctet (toDecimal_octet octet.toNat octet.toNat_lt).1 46 hmem
    exact absurd hdigit (by decide)
  exact List.splitOn_intercalate 46 hdot (by simp)

theorem isValidIP4Network_toDottedQuad (bytes : Fin 16 → UInt8) : isValidIP4Network (toDottedQuad bytes) = true := by
  unfold isValidIP4Network
  rw [split_toDottedQuad]
  simp [octets, (toDecimal_octet _ (UInt8.toNat_lt _)).1]

theorem readIP4_toDottedQuad (bytes : Fin 16 → UInt8) (i : Fin 4) :
    readIP4 (toDottedQuad bytes) i = bytes ⟨i.val, lt_of_octet i⟩ := by
  have hoctet : (split (toDottedQuad bytes) 46)[i.val]? = some (toDecimal (bytes ⟨i.val, lt_of_octet i⟩).toNat) := by
    rw [split_toDottedQuad, octets, List.getElem?_map, List.getElem?_ofFn, dif_pos i.isLt]
    rfl
  unfold readIP4
  rw [hoctet]
  dsimp only
  rw [(toDecimal_octet _ (UInt8.toNat_lt _)).2, UInt8.ofNat_toNat]

/-! ## Groups -/

theorem hexValue_lowerHexDigits : ∀ n < 16, hexValue (lowerHexDigits.getD n 0) = n ∧
    isHexDigit (lowerHexDigits.getD n 0) = true := by
  decide

/-- One digit more of a group. -/
theorem shift_hexValue {value n : Nat} (hvalue : value < 4096) (hn : n < 16) :
    (value <<< 4 ||| hexValue (lowerHexDigits.getD n 0)) % 4294967296 = value * 16 + n := by
  rw [(hexValue_lowerHexDigits n hn).1, ← Nat.shiftLeft_add_eq_or_of_lt hn, Nat.shiftLeft_eq]
  omega

theorem nibble_eq (group k : Nat) : group >>> (4 * k) &&& 15 = group / 16 ^ k % 16 := by
  rw [Nat.shiftRight_eq_div_pow, pow_mul]
  exact Nat.and_two_pow_sub_one_eq_mod _ 4

/-- The text of a group: its hex digits from the first that is not zero on. -/
theorem writeGroup_eq {group : Nat} (h : group < 65536) : ∃ digits : List Nat,
    writeGroup group = digits.map (fun n => lowerHexDigits.getD n 0) ∧ (∀ n ∈ digits, n < 16) ∧
      (1 ≤ digits.length ∧ digits.length ≤ 4) ∧ digits.foldl (fun value n => value * 16 + n) 0 = group := by
  have htwelve := nibble_eq group 3
  have height := nibble_eq group 2
  have hfour := nibble_eq group 1
  have hzero := nibble_eq group 0
  norm_num at htwelve height hfour hzero
  unfold writeGroup
  simp only [List.foldl_cons, List.foldl_nil, htwelve, height, hfour, hzero, Nat.shiftRight_zero]
  by_cases h3 : group / 4096 % 16 = 0
  · by_cases h2 : group / 256 % 16 = 0
    · by_cases h1 : group / 16 % 16 = 0
      · refine ⟨[group % 16], by simp [h1, h2, h3], ?_, by simp, ?_⟩
        · intro n hn
          rw [List.mem_singleton] at hn
          omega
        · simp only [List.foldl_cons, List.foldl_nil]
          omega
      · refine ⟨[group / 16 % 16, group % 16], by simp [h1, h2, h3], ?_, by simp, ?_⟩
        · intro n hn
          simp only [List.mem_cons, List.not_mem_nil, or_false] at hn
          omega
        · simp only [List.foldl_cons, List.foldl_nil]
          omega
    · refine ⟨[group / 256 % 16, group / 16 % 16, group % 16], by simp [h2, h3], ?_, by simp, ?_⟩
      · intro n hn
        simp only [List.mem_cons, List.not_mem_nil, or_false] at hn
        omega
      · simp only [List.foldl_cons, List.foldl_nil]
        omega
  · refine ⟨[group / 4096 % 16, group / 256 % 16, group / 16 % 16, group % 16], by simp [h3], ?_, by simp, ?_⟩
    · intro n hn
      simp only [List.mem_cons, List.not_mem_nil, or_false] at hn
      omega
    · simp only [List.foldl_cons, List.foldl_nil]
      omega

/-- The loop over the digits of a group, after `k` of them. -/
theorem foldl_hexValue {digits : List Nat} {k value : Nat} (hdigits : ∀ n ∈ digits, n < 16) (hvalue : value < 16 ^ k)
    (hlength : k + digits.length ≤ 4) :
    (digits.map fun n => lowerHexDigits.getD n 0).foldl
        (fun value c => (value <<< 4 ||| hexValue c) % 4294967296) value =
      digits.foldl (fun value n => value * 16 + n) value ∧
      digits.foldl (fun value n => value * 16 + n) value < 65536 := by
  induction digits generalizing k value with
  | nil =>
    have hpow : 16 ^ k ≤ 16 ^ 4 := Nat.pow_le_pow_right (by decide) (by simpa using hlength)
    exact ⟨rfl, lt_of_lt_of_le hvalue hpow⟩
  | cons n digits ih =>
    rw [List.length_cons] at hlength
    have hn := hdigits n List.mem_cons_self
    have hpow : 16 ^ k ≤ 16 ^ 3 := Nat.pow_le_pow_right (by decide) (by omega)
    have hsmall : value < 4096 := lt_of_lt_of_le hvalue hpow
    have hnext : value * 16 + n < 16 ^ (k + 1) := by
      rw [Nat.pow_succ]
      omega
    rw [List.map_cons, List.foldl_cons, List.foldl_cons, shift_hexValue hsmall hn]
    exact ih (fun m hm => hdigits m (List.mem_cons_of_mem n hm)) hnext (by omega)

theorem readHexGroup_writeGroup {group : Nat} (h : group < 65536) : readHexGroup (writeGroup group) = group := by
  obtain ⟨digits, heq, hdigits, hlength, hvalue⟩ := writeGroup_eq h
  have hloop := @foldl_hexValue digits 0 0 hdigits (by decide) (by omega)
  rw [hvalue] at hloop
  unfold readHexGroup
  rw [heq, hloop.1, Nat.mod_eq_of_lt hloop.2]

theorem isHexGroup_writeGroup {group : Nat} (h : group < 65536) : isHexGroup (writeGroup group) = true := by
  obtain ⟨digits, heq, hdigits, hlength, -⟩ := writeGroup_eq h
  have hrange : ¬((writeGroup group).length < 1 ∨ 4 < (writeGroup group).length) := by
    rw [heq, List.length_map]
    omega
  unfold isHexGroup
  rw [if_neg hrange, heq, List.all_map, List.all_eq_true]
  intro n hn
  exact (hexValue_lowerHexDigits n (hdigits n hn)).2

/-! ## Sides -/

theorem notMem_of_isHexGroup {text : AnsiString} (h : isHexGroup text = true) {c : UInt8}
    (hc : isHexDigit c = false) : c ∉ text := by
  intro hmem
  unfold isHexGroup at h
  split at h
  · exact absurd h (by simp)
  · have hdigit := List.all_eq_true.1 h c hmem
    rw [hc] at hdigit
    exact absurd hdigit (by simp)

theorem ne_nil_of_isHexGroup {text : AnsiString} (h : isHexGroup text = true) : text ≠ [] := by
  rintro rfl
  exact absurd h (by decide)

/-- The groups of a side are sixteen bits each. -/
def Groups (gs : List Nat) : Prop := ∀ g ∈ gs, g < 65536

theorem written_side {gs : List Nat} (h : Groups gs) : ∀ text ∈ gs.map writeGroup, text ≠ [] ∧ 58 ∉ text := by
  intro text htext
  obtain ⟨g, hg, rfl⟩ := List.mem_map.1 htext
  have hgroup := isHexGroup_writeGroup (h g hg)
  exact ⟨ne_nil_of_isHexGroup hgroup, notMem_of_isHexGroup hgroup (by decide)⟩

theorem lone_writeSide {gs : List Nat} (h : Groups gs) : Lone 58 (writeSide gs) := (lone_intercalate (written_side h)).1

/-- A side is read as the groups it was written from. -/
theorem writtenGroups_writeSide {gs : List Nat} (h : Groups gs) : writtenGroups (writeSide gs) = gs.map writeGroup := by
  have hempty := (lone_intercalate (written_side h)).2
  unfold writtenGroups
  by_cases hnil : gs = []
  · rw [hnil]
    rfl
  · have hne : (writeSide gs).isEmpty = false := by
      rw [List.isEmpty_eq_false_iff]
      intro heq
      exact hnil (List.map_eq_nil_iff.1 (hempty.1 heq))
    rw [hne]
    exact List.splitOn_intercalate 58 (fun text htext => (written_side h text htext).2) (by simpa using hnil)

theorem countGroups_append {gs : List Nat} (h : Groups gs) (written : Nat) :
    countGroups written (gs.map writeGroup) = some (written + gs.length) := by
  induction gs generalizing written with
  | nil => rfl
  | cons g gs ih =>
    have hgroup := isHexGroup_writeGroup (h g List.mem_cons_self)
    have hdot : ¬((gs.map writeGroup).isEmpty = true ∧ 46 ∈ writeGroup g) := by
      intro hlast
      exact notMem_of_isHexGroup hgroup (by decide) hlast.2
    rw [List.map_cons, countGroups, if_neg hdot, if_pos hgroup, ih fun g' hg' => h g' (List.mem_cons_of_mem g hg'),
      List.length_cons]
    congr 1
    omega

theorem readIP6Groups_writeSide {gs : List Nat} (h : Groups gs) : readIP6Groups (writeSide gs) = gs := by
  unfold readIP6Groups
  rw [writtenGroups_writeSide h, List.flatMap_map]
  induction gs with
  | nil => rfl
  | cons g gs ih =>
    have hg := h g List.mem_cons_self
    have hdot : 46 ∉ writeGroup g := notMem_of_isHexGroup (isHexGroup_writeGroup hg) (by decide)
    rw [List.flatMap_cons, ih fun g' hg' => h g' (List.mem_cons_of_mem g hg'), if_neg hdot, readHexGroup_writeGroup hg,
      List.singleton_append]

/-! ## The groups of an address -/

theorem pair_eq (high low : UInt8) : high.toNat <<< 8 ||| low.toNat = high.toNat * 256 + low.toNat := by
  rw [← Nat.shiftLeft_add_eq_or_of_lt low.toNat_lt, Nat.shiftLeft_eq]

theorem length_groups (a : SPFAddress) : a.groups.length = 8 := List.length_ofFn

theorem groups_lt (a : SPFAddress) : Groups a.groups := by
  intro g hg
  obtain ⟨i, rfl⟩ := List.mem_ofFn.1 hg
  have hhigh := (a.bytes ⟨i.val * 2, by omega⟩).toNat_lt
  have hlow := (a.bytes ⟨i.val * 2 + 1, by omega⟩).toNat_lt
  rw [pair_eq]
  omega

theorem Groups.take {gs : List Nat} (h : Groups gs) (n : Nat) : Groups (gs.take n) := by
  intro g hg
  exact h g (List.mem_of_mem_take hg)

theorem Groups.drop {gs : List Nat} (h : Groups gs) (n : Nat) : Groups (gs.drop n) := by
  intro g hg
  exact h g (List.mem_of_mem_drop hg)

theorem Groups.append {gs gs' : List Nat} (h : Groups gs) (h' : Groups gs') : Groups (gs ++ gs') := by
  intro g hg
  obtain hg | hg := List.mem_append.1 hg
  · exact h g hg
  · exact h' g hg

/-- The bytes of an address are those of its groups. -/
theorem byteOf_groups (a : SPFAddress) (i : Fin 16) : byteOf (a.groups.getD (i.val / 2) 0) i = a.bytes i := by
  have hlt : i.val / 2 < 8 := by omega
  have hhigh := (a.bytes ⟨i.val / 2 * 2, by omega⟩).toNat_lt
  have hlow := (a.bytes ⟨i.val / 2 * 2 + 1, by omega⟩).toNat_lt
  have hgroup : a.groups.getD (i.val / 2) 0 =
      (a.bytes ⟨i.val / 2 * 2, by omega⟩).toNat * 256 + (a.bytes ⟨i.val / 2 * 2 + 1, by omega⟩).toNat := by
    rw [List.getD_eq_getElem?_getD, groups, List.getElem?_ofFn, dif_pos hlt, Option.getD_some, pair_eq]
  unfold byteOf
  rw [hgroup]
  split
  case isTrue heven =>
    have hindex : (⟨i.val / 2 * 2, by omega⟩ : Fin 16) = i := by
      apply Fin.ext
      show i.val / 2 * 2 = i.val
      omega
    have hdiv : ∀ high low : Nat, low < 2 ^ 8 → (high * 256 + low) / 2 ^ 8 = high := by
      intro high low hlow
      omega
    rw [Nat.shiftRight_eq_div_pow, hdiv _ _ hlow, UInt8.ofNat_toNat, hindex]
  case isFalse hodd =>
    have hindex : (⟨i.val / 2 * 2 + 1, by omega⟩ : Fin 16) = i := by
      apply Fin.ext
      show i.val / 2 * 2 + 1 = i.val
      omega
    have hmod : ∀ high low : Nat, low < 2 ^ 8 → (high * 256 + low) % 2 ^ 8 = low := by
      intro high low hlow
      omega
    have hand : ∀ n : Nat, n &&& 255 = n % 2 ^ 8 := fun n => Nat.and_two_pow_sub_one_eq_mod n 8
    rw [hand, hmod _ _ hlow, UInt8.ofNat_toNat, hindex]

/-! ## The run -/

/-- The search finds the first of the longest runs. -/
theorem searchRun_spec {gs : List Nat} (hgs : gs.length = 8) {fuel i : Nat} {best : Run}
    (h : FirstLongestBefore (· == 0) gs i best.bestStart best.bestLength) (hfuel : 8 ≤ i + fuel) :
    ∃ j, 8 ≤ j ∧ FirstLongestBefore (· == 0) gs j (searchRun gs fuel i best).bestStart
      (searchRun gs fuel i best).bestLength := by
  induction fuel generalizing i best with
  | zero => exact ⟨i, hfuel, h⟩
  | succ fuel ih =>
    unfold searchRun
    split
    case isTrue hend => exact ⟨i, hend, h⟩
    case isFalse hlt =>
      have hbound : i < gs.length := by omega
      have hget : gs.getD i 0 = gs[i] := by simp [List.getD_eq_getElem?_getD, hbound]
      split
      case isTrue hne =>
        apply ih _ (by omega)
        apply h.skip (runLength_of_neg hbound _)
        rw [hget] at hne
        simpa using hne
      case isFalse hzero =>
        have hpos : 0 < runLength (· == 0) gs i := by
          rw [runLength_of_pos hbound (by rw [hget] at hzero; simpa using hzero)]
          exact Nat.succ_pos _
        have hnext : i + runLength (· == 0) gs i - 1 + 1 = i + runLength (· == 0) gs i := by omega
        dsimp only
        rw [hnext]
        apply ih _ (by omega)
        have hrun := h.run_at
        split
        case isTrue hlonger =>
          rw [if_pos hlonger, if_pos hlonger] at hrun
          exact hrun
        case isFalse hshorter =>
          rw [if_neg hshorter, if_neg hshorter] at hrun
          exact hrun

/-- The run the readable form leaves out. -/
def bestRun (a : SPFAddress) : Run := searchRun a.groups 8 0 ⟨0, 0⟩

theorem bestRun_before (a : SPFAddress) : ∃ j, 8 ≤ j ∧
    FirstLongestBefore (· == 0) a.groups j a.bestRun.bestStart a.bestRun.bestLength :=
  @searchRun_spec a.groups a.length_groups 8 0 ⟨0, 0⟩ (FirstLongestBefore.zero (· == 0) a.groups 0) (by decide)

theorem bestRun_longest (a : SPFAddress) (i : Nat) : runLength (· == 0) a.groups i ≤ a.bestRun.bestLength := by
  obtain ⟨j, hj, hbest⟩ := a.bestRun_before
  by_cases hi : i < j
  · exact hbest.longest i hi
  · rw [runLength_of_length_le (by rw [length_groups]; omega)]
    exact Nat.zero_le _

theorem bestRun_firstLongest {a : SPFAddress} (hpos : 0 < a.bestRun.bestLength) :
    FirstLongest (· == 0) a.groups a.bestRun.bestStart a.bestRun.bestLength := by
  obtain ⟨j, hj, hbest⟩ := a.bestRun_before
  exact hbest.firstLongest hpos (by rw [length_groups]; omega)

theorem bestRun_end {a : SPFAddress} (hpos : 0 < a.bestRun.bestLength) :
    a.bestRun.bestStart + a.bestRun.bestLength ≤ 8 := by
  have hrun := (bestRun_firstLongest hpos).run
  have hend := runLength_le (· == 0) a.groups a.bestRun.bestStart
  rw [hrun, length_groups] at hend
  omega

/-- The groups of the run are zero. -/
theorem zero_of_bestRun {a : SPFAddress} {k : Nat} (hstart : a.bestRun.bestStart ≤ k)
    (hend : k < a.bestRun.bestStart + a.bestRun.bestLength) : a.groups.getD k 0 = 0 := by
  have hpos : 0 < a.bestRun.bestLength := by omega
  have hle := bestRun_end hpos
  have hrun := (bestRun_firstLongest hpos).run
  obtain ⟨k, rfl⟩ := Nat.exists_eq_add_of_le hstart
  have hlt : a.bestRun.bestStart + k < a.groups.length := by
    rw [length_groups]
    omega
  have hrest := runLength_add (p := (· == 0)) (s := a.groups) (i := a.bestRun.bestStart) (k := k) (by omega)
  have hzero := pos_of_runLength (p := (· == 0)) hlt (by omega)
  rw [List.getD_eq_getElem?_getD, List.getElem?_eq_getElem hlt]
  simpa using hzero

/-! ## Reading the form -/

/-- The groups in front of the run, the zeros of the run and the groups behind it. -/
theorem placeGroups_run {a : SPFAddress} (hpos : 0 < a.bestRun.bestLength) :
    placeGroups (a.groups.take a.bestRun.bestStart) (a.groups.drop (a.bestRun.bestStart + a.bestRun.bestLength)) =
      a.bytes := by
  have hend := bestRun_end hpos
  funext i
  have hoffset : 8 - (a.groups.drop (a.bestRun.bestStart + a.bestRun.bestLength)).length =
      a.bestRun.bestStart + a.bestRun.bestLength := by
    rw [List.length_drop, length_groups]
    omega
  have htake : (a.groups.take a.bestRun.bestStart).length = a.bestRun.bestStart := by
    rw [List.length_take, length_groups]
    omega
  unfold placeGroups
  rw [hoffset, htake]
  dsimp only
  split
  case isTrue hbehind =>
    have hindex : a.bestRun.bestStart + a.bestRun.bestLength +
        (i.val / 2 - (a.bestRun.bestStart + a.bestRun.bestLength)) = i.val / 2 := by omega
    rw [List.getD_eq_getElem?_getD, List.getElem?_drop, hindex, ← List.getD_eq_getElem?_getD, byteOf_groups]
  case isFalse hbefore =>
    split
    case isTrue hfront =>
      rw [List.getD_eq_getElem?_getD, List.getElem?_take_of_lt hfront, ← List.getD_eq_getElem?_getD, byteOf_groups]
    case isFalse hinside =>
      -- a group of the run is zero, and so are its bytes
      have hzero := zero_of_bestRun (not_lt.1 hinside) (not_le.1 hbefore)
      rw [← byteOf_groups a i, hzero]
      unfold byteOf
      split
      · rfl
      · rfl

theorem placeGroups_all (a : SPFAddress) : placeGroups a.groups [] = a.bytes := by
  funext i
  have hlt : ¬8 ≤ i.val / 2 := by omega
  unfold placeGroups
  rw [List.length_nil, length_groups]
  dsimp only
  rw [if_neg hlt, if_pos (not_le.1 hlt), byteOf_groups]

theorem ansi_colons : ansi "::" = [58, 58] := by decide

theorem getReadableForm_ip6 {a : SPFAddress} (hfamily : a.family = .ip6) :
    a.getReadableForm = if a.bestRun.bestLength < 2 then writeSide a.groups
      else writeSide (a.groups.take a.bestRun.bestStart) ++ 58 :: 58 ::
        writeSide (a.groups.drop (a.bestRun.bestStart + a.bestRun.bestLength)) := by
  unfold getReadableForm
  rw [hfamily, ansi_colons]
  simp only [List.append_assoc, List.cons_append, List.nil_append]
  rfl

/-- The form of an IPv6 address is valid and is read as its bytes. -/
theorem readIP6_getReadableForm {a : SPFAddress} (hfamily : a.family = .ip6) :
    isValidIP6Network a.getReadableForm = true ∧ readIP6 a.getReadableForm = some a.bytes := by
  rw [getReadableForm_ip6 hfamily]
  split
  case isTrue hshort =>
    have hlone := lone_writeSide a.groups_lt
    unfold isValidIP6Network readIP6
    rw [ansi_colons, find_none hlone]
    dsimp only
    rw [writtenGroups_writeSide a.groups_lt, countGroups_append a.groups_lt, readIP6Groups_writeSide a.groups_lt,
      placeGroups_all, length_groups]
    exact ⟨rfl, rfl⟩
  case isFalse hlong =>
    have hpos : 0 < a.bestRun.bestLength := by omega
    have hend := bestRun_end hpos
    have hhead := a.groups_lt.take a.bestRun.bestStart
    have htail := a.groups_lt.drop (a.bestRun.bestStart + a.bestRun.bestLength)
    have hfind := find_append (lone_writeSide hhead) (lone_writeSide htail)
    have hlength : (a.groups.take a.bestRun.bestStart).length +
        (a.groups.drop (a.bestRun.bestStart + a.bestRun.bestLength)).length ≤ 6 := by
      rw [List.length_take, List.length_drop, length_groups]
      omega
    have htwo : ∀ s t : AnsiString, (s ++ 58 :: 58 :: t).drop (s.length + 2) = t := by
      intro s t
      rw [← List.drop_drop, List.drop_left]
      rfl
    unfold isValidIP6Network readIP6
    rw [ansi_colons, hfind]
    dsimp only
    rw [List.take_left, htwo, find_none (lone_writeSide htail), writtenGroups_writeSide hhead,
      writtenGroups_writeSide htail, readIP6Groups_writeSide hhead, readIP6Groups_writeSide htail,
      ← List.map_append, countGroups_append (hhead.append htail), if_neg (by simp), if_neg (by omega), placeGroups_run hpos]
    simp only [List.length_append]
    refine ⟨?_, trivial⟩
    rw [decide_eq_true_eq]
    omega

theorem colon_mem_getReadableForm {a : SPFAddress} (hfamily : a.family = .ip6) : 58 ∈ a.getReadableForm := by
  rw [getReadableForm_ip6 hfamily]
  split
  case isTrue hshort =>
    have hlength := a.length_groups
    match hgroups : a.groups, hlength with
    | g :: g' :: rest, _ =>
      unfold writeSide
      rw [List.map_cons, List.map_cons, List.intercalate_cons_cons]
      simp
  case isFalse hlong => simp

/-! ## One form for one address -/

@[ext] theorem ext {a b : SPFAddress} (hfamily : a.family = b.family) (hbytes : ∀ i, a.bytes i = b.bytes i) : a = b := by
  cases a
  cases b
  simp only [SPFAddress.mk.injEq]
  exact ⟨hfamily, funext hbytes⟩

/-- What `TryParse` answers: an IPv4 address, or an IPv6 address that carries none. -/
structure Parsed (a : SPFAddress) : Prop where
  family : a.family = .ip4 ∨ a.family = .ip6 ∧ isIP4Mapped a.bytes = false

theorem parsed_of_tryParse {text : AnsiString} {a : SPFAddress} (h : tryParse text = some a) : Parsed a := by
  unfold tryParse at h
  split at h
  · cases h
    exact ⟨.inl rfl⟩
  · split at h
    · exact absurd h (by simp)
    · split at h
      · exact absurd h (by simp)
      · split at h
        · cases h
          exact ⟨.inl rfl⟩
        · rename_i hmapped
          cases h
          exact ⟨.inr ⟨rfl, Bool.eq_false_iff.2 hmapped⟩⟩

/-- The readable form of an address is read back as the address. -/
theorem tryParse_getReadableForm {a : SPFAddress} (h : Parsed a) : tryParse a.getReadableForm = some a := by
  obtain hip4 | ⟨hip6, hmapped⟩ := h.family
  · have hform : a.getReadableForm = toDottedQuad a.bytes := by
      unfold getReadableForm
      rw [hip4]
    unfold tryParse
    rw [hform, isValidIP4Network_toDottedQuad, if_pos rfl]
    congr 1
    apply ext hip4.symm
    intro i
    show (if h : i.val < 4 then readIP4 (toDottedQuad a.bytes) ⟨i.val, h⟩ else 0) = a.bytes i
    split
    · rw [readIP4_toDottedQuad]
    · rename_i hi
      exact (a.rest_zero.2 hip4 i (by omega)).symm
  · obtain ⟨hvalid, hread⟩ := readIP6_getReadableForm hip6
    have hnot : isValidIP4Network a.getReadableForm = false := by
      rw [Bool.eq_false_iff]
      intro hquad
      exact notMem_of_isValidIP4Network hquad (by decide) (by decide) (colon_mem_getReadableForm hip6)
    unfold tryParse
    rw [hnot, hvalid, hread]
    simp only [Bool.false_eq_true, if_false, Bool.not_true, hmapped]
    congr 1
    exact ext hip6.symm fun _ => rfl

/-- Over whole bytes a prefix agrees exactly if they do. -/
theorem matchesPrefix_bytes {a b : SPFAddress} {n : Nat} (hfamily : a.family ≠ .none) (hsame : a.family = b.family)
    (hn : (8 * n : Int) ≤ a.getBitCount) :
    a.matchesPrefix b (8 * n : Int) = true ↔ ∀ i : Fin 16, i.val < n → a.bytes i = b.bytes i := by
  have hnone : ¬(a.family = .none ∨ a.family ≠ b.family) := by
    rw [not_or, not_not]
    exact ⟨hfamily, hsame⟩
  have hrange : ¬((8 * n : Int) < 0 ∨ a.getBitCount < (8 * n : Int)) := by omega
  have hbytes : (8 * n : Int).toNat / 8 = n := by omega
  have hbits : (8 * n : Int).toNat % 8 = 0 := by omega
  unfold matchesPrefix
  rw [if_neg hnone, if_neg hrange]
  dsimp only
  rw [hbytes, hbits]
  by_cases hall : ∀ i : Fin 16, i.val < n → a.bytes i = b.bytes i
  · rw [if_neg (not_not.2 hall), if_pos rfl]
    exact iff_of_true rfl hall
  · rw [if_pos hall]
    exact iff_of_false (by simp) hall

/-- `Equals` compares the bytes of the family, and the others are zero. -/
theorem equals_iff {a b : SPFAddress} (h : a.family ≠ .none) : a.equals b = true ↔ a = b := by
  by_cases hsame : a.family = b.family
  · unfold equals
    cases hfamily : a.family with
    | none => exact absurd hfamily h
    | ip4 =>
      have hcount : a.getBitCount = (8 * (4 : Nat) : Int) := by
        unfold getBitCount
        rw [hfamily]
        rfl
      rw [hcount, matchesPrefix_bytes h hsame hcount.ge]
      constructor
      · intro hbytes
        apply ext hsame
        intro i
        by_cases hi : i.val < 4
        · exact hbytes i hi
        · rw [a.rest_zero.2 hfamily i (by omega), b.rest_zero.2 (hsame ▸ hfamily) i (by omega)]
      · rintro rfl i -
        rfl
    | ip6 =>
      have hcount : a.getBitCount = (8 * (16 : Nat) : Int) := by
        unfold getBitCount
        rw [hfamily]
        rfl
      rw [hcount, matchesPrefix_bytes h hsame hcount.ge]
      constructor
      · intro hbytes
        exact ext hsame fun i => hbytes i i.isLt
      · rintro rfl i -
        rfl
  · refine iff_of_false ?_ (fun heq => hsame (by rw [heq]))
    unfold equals matchesPrefix
    rw [if_pos (.inr hsame)]
    simp

theorem Parsed.family_ne_none {a : SPFAddress} (h : Parsed a) : a.family ≠ .none := by
  obtain hip4 | ⟨hip6, -⟩ := h.family
  · rw [hip4]
    nofun
  · rw [hip6]
    nofun

/-- Where the readable form of an IPv6 address has a `::`. -/
theorem colons_position {a : SPFAddress} (hfamily : a.family = .ip6) {j : Nat}
    (h : [58, 58] <+: a.getReadableForm.drop j) :
    2 ≤ a.bestRun.bestLength ∧ j = (writeSide (a.groups.take a.bestRun.bestStart)).length := by
  rw [getReadableForm_ip6 hfamily] at h
  split at h
  case isTrue hshort =>
    have hpair := h.isInfix.trans (List.drop_suffix j (writeSide a.groups)).isInfix
    exact absurd hpair (lone_writeSide a.groups_lt).no_pair
  case isFalse hlong =>
    have hhead := lone_writeSide (a.groups_lt.take a.bestRun.bestStart)
    have htail := lone_writeSide (a.groups_lt.drop (a.bestRun.bestStart + a.bestRun.bestLength))
    exact ⟨not_lt.1 hlong, position_of_pair hhead htail h⟩

theorem not_colons_ip4 {a : SPFAddress} (hfamily : a.family ≠ .ip6) {j : Nat} :
    ¬[58, 58] <+: a.getReadableForm.drop j := by
  intro h
  have hmem : 58 ∈ a.getReadableForm := List.mem_of_mem_drop (h.subset (by simp))
  unfold getReadableForm at hmem
  cases hf : a.family with
  | none =>
    rw [hf] at hmem
    exact absurd hmem (by simp)
  | ip4 =>
    rw [hf] at hmem
    exact notMem_of_isValidIP4Network (isValidIP4Network_toDottedQuad a.bytes) (by decide) (by decide) hmem
  | ip6 => exact hfamily hf

/-- The readable form of a parsed address is read back as the address; two texts are of
    one address exactly if they have one readable form; and a readable form has at most
    one `::`, in place of the first of the longest runs of zero groups where that has at
    least two. -/
theorem readable_form :
    (∀ a : SPFAddress, a.family = .ip4 ∨ a.family = .ip6 ∧ isIP4Mapped a.bytes = false →
      tryParse a.getReadableForm = some a ∧ a.equals a = true) ∧
    (∀ text other a b, tryParse text = some a → tryParse other = some b →
      (a.equals b = true ↔ a.getReadableForm = b.getReadableForm)) ∧
    (∀ (a : SPFAddress) (i j : Nat), ansi "::" <+: a.getReadableForm.drop i → ansi "::" <+: a.getReadableForm.drop j →
      i = j) ∧
    ∀ a : SPFAddress, a.family = .ip6 →
      ((∀ i, runLength (· == 0) a.groups i < 2) ∧ a.getReadableForm = writeSide a.groups) ∨
        ∃ start length, 2 ≤ length ∧ FirstLongest (· == 0) a.groups start length ∧
          a.getReadableForm = writeSide (a.groups.take start) ++ ansi "::" ++
            writeSide (a.groups.drop (start + length)) := by
  refine ⟨?back, ?same, ?once, ?run⟩
  case back =>
    intro a h
    have hparsed : Parsed a := ⟨h⟩
    exact ⟨tryParse_getReadableForm hparsed, (equals_iff hparsed.family_ne_none).2 rfl⟩
  case same =>
    intro text other a b ha hb
    have hparsed := parsed_of_tryParse ha
    rw [equals_iff hparsed.family_ne_none]
    constructor
    · intro heq
      rw [heq]
    · intro hform
      have hback := tryParse_getReadableForm hparsed
      rw [hform, tryParse_getReadableForm (parsed_of_tryParse hb)] at hback
      exact (Option.some.inj hback).symm
  case once =>
    intro a i j hi hj
    rw [ansi_colons] at hi hj
    by_cases hfamily : a.family = .ip6
    · rw [(colons_position hfamily hi).2, (colons_position hfamily hj).2]
    · exact absurd hi (not_colons_ip4 hfamily)
  case run =>
    intro a hfamily
    rw [getReadableForm_ip6 hfamily]
    by_cases hshort : a.bestRun.bestLength < 2
    · refine .inl ⟨?_, if_pos hshort⟩
      intro i
      exact lt_of_le_of_lt (a.bestRun_longest i) hshort
    · refine .inr ⟨a.bestRun.bestStart, a.bestRun.bestLength, not_lt.1 hshort, bestRun_firstLongest (by omega), ?_⟩
      rw [if_neg hshort, ansi_colons]
      simp only [List.append_assoc, List.cons_append, List.nil_append]

end HMailServer.SPFAddress
