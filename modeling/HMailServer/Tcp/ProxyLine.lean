import HMailServer.Lib.Separated
import HMailServer.Tcp.ProxyProtocol
import HMailServer.Lib.Byte

/- Which lines the parser takes, and which of them the protocol knows. -/
namespace HMailServer.ProxyProtocolParser
open AnsiString

/-! ## Words -/

/-- A token of printable characters, without a scope. -/
def Plain (t : AnsiString) : Prop := ∀ c ∈ t, 32 < c ∧ c ≠ 37

theorem Plain.cstr {t : AnsiString} (h : Plain t) : cstr t = t := by
  refine cstr_eq fun c hc h0 => ?_
  rw [h0] at hc
  exact absurd (h 0 hc).1 (by decide)

theorem Plain.noSpace {t : AnsiString} (h : Plain t) : 32 ∉ t := fun hmem => absurd (h 32 hmem).1 (by decide)

theorem proxy_plain : Plain (ansi "PROXY") := List.all_iff_forall_prop.1 (by decide)

theorem unknown_plain : Plain (ansi "UNKNOWN") := List.all_iff_forall_prop.1 (by decide)

theorem tcp4_plain : Plain (ansi "TCP4") := List.all_iff_forall_prop.1 (by decide)

theorem tcp6_plain : Plain (ansi "TCP6") := List.all_iff_forall_prop.1 (by decide)

theorem isHexDigit_plain : ∀ c, isHexDigit c = true → 32 < c ∧ c ≠ 37 := Byte.forall_of_lt (by decide +kernel)

theorem isDigit_plain (c : UInt8) (h : isDigit c = true) : 32 < c ∧ c ≠ 37 :=
  isHexDigit_plain c (by simp [isHexDigit, h])

/-- The words are different, and none is empty. -/
theorem words_distinct :
    (ansi "TCP6" ≠ ansi "TCP4" ∧ ansi "TCP4" ≠ ansi "UNKNOWN" ∧ ansi "TCP6" ≠ ansi "UNKNOWN") ∧
      ansi "PROXY" ≠ [] ∧ ansi "TCP4" ≠ [] ∧ ansi "TCP6" ≠ [] ∧ ansi "UNKNOWN" ≠ [] := by
  decide

theorem ansi_space : ansi " " = [32] := by decide

theorem proxyUnknown_text :
    ansi "PROXY UNKNOWN" = ansi "PROXY" ++ 32 :: ansi "UNKNOWN" ∧
      ansi "PROXY UNKNOWN " = ansi "PROXY" ++ 32 :: (ansi "UNKNOWN" ++ [32]) := by
  decide

/-! ## Lines that are taken -/

/-- The digits of a port, perhaps with zeros in front. -/
structure PortText (s : AnsiString) (port : Nat) : Prop where
  nonempty : s ≠ []
  length : s.length ≤ 5
  digits : ∀ c ∈ s, isDigit c = true
  value : digitsValue s = port
  small : port ≤ 65535

/-- The addresses of a family, perhaps with a scope. -/
inductive LooseAddress (reader : AddressReader) : AnsiString → AnsiString → IPAddress → Prop where
  | tcp4 {s : AnsiString} {a : List UInt8} (h : reader.makeAddressV4 s = some a) : LooseAddress reader (ansi "TCP4") s (.v4 a)
  | tcp6 {s : AnsiString} {a : List UInt8 × Nat} (h : reader.makeAddressV6 s = some a) (hcolon : 58 ∈ s) :
      LooseAddress reader (ansi "TCP6") s (.v6 a.1 a.2)

/-- A line with the six tokens of TCP in front of its spaces' NULs, and perhaps one
    piece more of which nothing is in front of its NUL. -/
structure LooseTcp (reader : AddressReader) (line family s d p q : AnsiString) (tail : List AnsiString) (source : Source)
    (port' : Nat) : Prop where
  pieces : ∃ ps, line.splitOn 32 = ps ++ tail ∧ ps.map cstr = [ansi "PROXY", family, s, d, p, q]
  tail : tail = [] ∨ ∃ rest, tail = [rest] ∧ cstr rest = []
  sourceText : LooseAddress reader family s source.1
  destinationText : ∃ a, LooseAddress reader family d a
  port : PortText p source.2
  port' : PortText q port'

/-- What makes a line of TCP one that the protocol does not know. -/
def Sloppy (line s d p q : AnsiString) (tail : List AnsiString) (source : Source) (port' : Nat) : Prop :=
  tail ≠ [] ∨ 0 ∈ line ∨ 37 ∈ s ∨ 37 ∈ d ∨ p ≠ formatNat source.2 ∨ q ≠ formatNat port'

/-- No piece but the last is empty or begins with a NUL. -/
def Filled (line : AnsiString) : Prop := ∀ p ∈ (line.splitOn 32).dropLast, cstr p ≠ []

/-- The first two pieces are those of UNKNOWN, up to their NULs. -/
def LooseUnknown (line : AnsiString) : Prop :=
  ∃ p q rest, line.splitOn 32 = p :: q :: rest ∧ cstr p = ansi "PROXY" ∧ cstr q = ansi "UNKNOWN"

/-! ## Tokens -/

theorem parsePortNumber_iff {s : AnsiString} {port : Nat} : parsePortNumber s = some port ↔ PortText s port := by
  unfold parsePortNumber
  constructor
  · intro h
    split at h
    · cases h
    · rename_i hlength
      rw [not_or] at hlength
      split at h
      · cases h
      · rename_i hdigits
        split at h
        · cases h
        · rename_i hsmall
          have hvalue := Option.some.inj h
          rw [not_not, List.all_eq_true] at hdigits
          exact ⟨hlength.1, Nat.not_lt.1 hlength.2, hdigits, hvalue, by omega⟩
  · rintro ⟨hne, hlength, hdigits, hvalue, hsmall⟩
    rw [if_neg (by rw [not_or]; exact ⟨hne, by omega⟩), if_neg (by rw [not_not, List.all_eq_true]; exact hdigits),
      if_neg (by omega), hvalue]

theorem portText_formatNat {port : Nat} (h : port ≤ 65535) : PortText (formatNat port) port where
  nonempty := formatNat_ne_nil port
  length := length_formatNat_le (by decide) (by omega)
  digits := formatNat_isDigit port
  value := digitsValue_formatNat port
  small := h

theorem tryParse_iff {reader : AddressReader} (hreader : reader.Documented) {family s : AnsiString} {a : IPAddress}
    (hfamily : family = ansi "TCP4" ∨ family = ansi "TCP6") :
    tryParse reader s = some a ∧ a.isOf family = true ↔ LooseAddress reader family s a := by
  have hne : ansi "TCP6" ≠ ansi "TCP4" := words_distinct.1.1
  constructor
  · rintro ⟨hparse, hof⟩
    unfold tryParse at hparse
    split at hparse
    · rename_i hcolon
      obtain ⟨b, hb, rfl⟩ := Option.map_eq_some_iff.1 hparse
      obtain rfl | rfl := hfamily
      · simp [IPAddress.isOf] at hof
      · exact .tcp6 hb hcolon
    · obtain ⟨b, hb, rfl⟩ := Option.map_eq_some_iff.1 hparse
      have h4 : family = ansi "TCP4" := by simpa [IPAddress.isOf] using hof
      rw [h4]
      exact .tcp4 hb
  · intro h
    unfold tryParse
    cases h with
    | tcp4 h =>
      have hcolon : 58 ∉ s := by
        intro hmem
        obtain hdigit | hdot := (hreader.v4 s _ h).2 58 hmem
        · exact absurd hdigit (by decide)
        · exact absurd hdot (by decide)
      rw [if_neg hcolon, h]
      exact ⟨rfl, beq_self_eq_true _⟩
    | tcp6 h hcolon =>
      rw [if_pos hcolon, h]
      exact ⟨rfl, bne_iff_ne.2 hne⟩

theorem parseTcpTokens_iff {reader : AddressReader} (hreader : reader.Documented) {family : AnsiString}
    (hfamily : family = ansi "TCP4" ∨ family = ansi "TCP6") {rest : List AnsiString} {result : Option Source} :
    parseTcpTokens reader family rest = .complete result ↔
      ∃ s d p q source a port', rest = [s, d, p, q] ∧ result = some source ∧ LooseAddress reader family s source.1 ∧
        LooseAddress reader family d a ∧ PortText p source.2 ∧ PortText q port' := by
  constructor
  · intro h
    unfold parseTcpTokens at h
    split at h
    · rename_i s d p q
      split at h
      · rename_i source destination hs hd
        split at h
        · cases h
        · rename_i hof
          rw [not_or, not_not, not_not] at hof
          split at h
          · rename_i port port' hp hq
            cases h
            exact ⟨s, d, p, q, (source, port), destination, port', rfl, rfl, (tryParse_iff hreader hfamily).1 ⟨hs, hof.1⟩,
              (tryParse_iff hreader hfamily).1 ⟨hd, hof.2⟩, parsePortNumber_iff.1 hp, parsePortNumber_iff.1 hq⟩
          · cases h
      · cases h
    · cases h
  · rintro ⟨s, d, p, q, ⟨source, port⟩, a, port', rfl, rfl, hs, hd, hp, hq⟩
    obtain ⟨hs, hsof⟩ := (tryParse_iff hreader hfamily).2 hs
    obtain ⟨hd, hdof⟩ := (tryParse_iff hreader hfamily).2 hd
    rw [parseTcpTokens, hs, hd]
    dsimp only
    rw [if_neg (by rw [hsof, hdof]; simp), parsePortNumber_iff.2 hp, parsePortNumber_iff.2 hq]

theorem splitString_concat {line last : AnsiString} {init : List AnsiString} (h : line.splitOn 32 = init ++ [last])
    (hinit : init ≠ []) :
    StringParser.splitString line (ansi " ") = init.map cstr ++ if cstr last = [] then [] else [cstr last] := by
  rw [ansi_space, StringParser.splitString, StringParser.splitPieces_singleton, h]
  split
  · rename_i p hp
    obtain ⟨q, qs, rfl⟩ := List.exists_cons_of_ne_nil hinit
    simp at hp
  · dsimp only
    rw [List.map_append, List.map_singleton, List.getLast?_concat, List.dropLast_concat]
    by_cases hlast : cstr last = []
    · rw [hlast, if_pos rfl, if_pos rfl, List.append_nil]
    · rw [if_neg (by simpa using hlast), if_neg hlast]

theorem splitString_short {line p : AnsiString} (h : line.splitOn 32 = [p]) :
    (StringParser.splitString line (ansi " ")).length ≤ 1 := by
  rw [ansi_space, StringParser.splitString, StringParser.splitPieces_singleton, h]
  dsimp only
  split
  · exact Nat.zero_le _
  · exact Nat.le_refl _

theorem parseLine_iff {reader : AddressReader} {line : AnsiString} {result : Option Source} :
    parseLine reader line = .complete result ↔
      ∃ family rest, StringParser.splitString line (ansi " ") = ansi "PROXY" :: family :: rest ∧
        (∀ t ∈ StringParser.splitString line (ansi " "), t ≠ []) ∧
        (family = ansi "UNKNOWN" ∧ result = none ∨
          (family = ansi "TCP4" ∨ family = ansi "TCP6") ∧ parseTcpTokens reader family rest = .complete result) := by
  obtain ⟨_, hnot4, hnot6⟩ := words_distinct.1
  unfold parseLine
  dsimp only
  generalize StringParser.splitString line (ansi " ") = tokens
  have hempty : tokens.any (·.isEmpty) = true ↔ ¬∀ t ∈ tokens, t ≠ [] := by simp
  constructor
  · intro h
    split at h
    · cases h
    · rename_i hfull
      rw [hempty, not_not] at hfull
      split at h
      · rename_i proxy family rest
        split at h
        · cases h
        · rename_i hproxy
          rw [not_not] at hproxy
          subst hproxy
          refine ⟨family, rest, rfl, hfull, ?_⟩
          split at h
          · rename_i hunknown
            cases h
            exact .inl ⟨hunknown, rfl⟩
          · split at h
            · cases h
            · rename_i hfamily
              rw [not_and_or, not_not, not_not] at hfamily
              exact .inr ⟨hfamily, h⟩
      · cases h
  · rintro ⟨family, rest, rfl, hfull, hcase⟩
    rw [if_neg fun h => hempty.1 h hfull]
    dsimp only
    rw [if_neg (not_not.2 rfl)]
    obtain ⟨rfl, rfl⟩ | ⟨hfamily, htokens⟩ := hcase
    · rw [if_pos rfl]
    · have hunknown : family ≠ ansi "UNKNOWN" := by
        obtain rfl | rfl := hfamily
        · exact hnot4
        · exact hnot6
      rw [if_neg hunknown, if_neg (by rw [not_and_or, not_not, not_not]; exact hfamily), htokens]

/-- What the tokens of a line are, where it has more than one piece. -/
theorem tokens_of {line last : AnsiString} {init : List AnsiString} (h : line.splitOn 32 = init ++ [last]) (hinit : init ≠ []) :
    (∀ t ∈ StringParser.splitString line (ansi " "), t ≠ []) ↔ Filled line := by
  rw [splitString_concat h hinit, Filled, h, List.dropLast_concat, List.forall_mem_append, List.forall_mem_map,
    and_iff_left]
  split
  · simp
  · rename_i hlast
    exact List.forall_mem_singleton.2 hlast

theorem looseTcp_filled {reader : AddressReader} {line family s d p q : AnsiString} {tail : List AnsiString} {source : Source}
    {port' : Nat} (h : LooseTcp reader line family s d p q tail source port')
    (hdoc : reader.Documented) : ∀ t ∈ [ansi "PROXY", family, s, d, p, q], t ≠ [] := by
  have haddress : ∀ {s : AnsiString} {a : IPAddress}, LooseAddress reader family s a → family ≠ [] ∧ s ≠ [] := by
    intro s a ha
    cases ha with
    | tcp4 ha => exact ⟨words_distinct.2.2.1, (hdoc.v4 _ _ ha).1⟩
    | tcp6 _ hcolon => exact ⟨words_distinct.2.2.2.1, List.ne_nil_of_mem hcolon⟩
  obtain ⟨a, ha⟩ := h.destinationText
  obtain ⟨hfamily, hs⟩ := haddress h.sourceText
  simp only [List.mem_cons, List.not_mem_nil, or_false, forall_eq_or_imp, forall_eq]
  exact ⟨words_distinct.2.1, hfamily, hs, (haddress ha).2, h.port.nonempty, h.port'.nonempty⟩

/-- The lines that are taken. -/
theorem parseLine_accepts {reader : AddressReader} (hdoc : reader.Documented) {line : AnsiString} {result : Option Source} :
    parseLine reader line = .complete result ↔
      (result = none ∧ LooseUnknown line ∧ Filled line) ∨
        ∃ family s d p q tail source port', result = some source ∧ LooseTcp reader line family s d p q tail source port' := by
  obtain hnil | ⟨init, last, hpieces⟩ := List.eq_nil_or_concat' (line.splitOn 32)
  · exact absurd hnil (List.splitOn_ne_nil 32 line)
  by_cases hinit : init = []
  · -- a line of one piece is refused
    rw [hinit, List.nil_append] at hpieces
    have hshort := splitString_short hpieces
    constructor
    · intro h
      obtain ⟨family, rest, htokens, _⟩ := parseLine_iff.1 h
      rw [htokens] at hshort
      simp at hshort
    · rintro (⟨_, ⟨p, q, rest, hp, _⟩, _⟩ | ⟨family, s, d, p, q, tail, source, port', _, hloose⟩)
      · rw [hpieces] at hp
        cases hp
      · obtain ⟨ps, hps, hmap⟩ := hloose.pieces
        have hlength := congrArg List.length hps
        have hsix := congrArg List.length hmap
        simp only [hpieces, List.length_append, List.length_map, List.length_cons, List.length_nil] at hlength hsix
        omega
  have htokens := splitString_concat hpieces hinit
  rw [parseLine_iff, tokens_of hpieces hinit]
  constructor
  · rintro ⟨family, rest, hsplit, hfilled, hcase⟩
    rw [htokens] at hsplit
    obtain ⟨hunknown, rfl⟩ | ⟨hfamily, hparse⟩ := hcase
    · refine .inl ⟨rfl, ?_, hfilled⟩
      obtain ⟨p, init, rfl⟩ := List.exists_cons_of_ne_nil hinit
      rw [List.map_cons, List.cons_append] at hsplit
      obtain ⟨hp, hrest⟩ := List.cons_eq_cons.1 hsplit
      cases init with
      | nil =>
        refine ⟨p, last, [], hpieces, hp, ?_⟩
        split at hrest
        · cases hrest
        · rw [(List.cons_eq_cons.1 hrest).1, hunknown]
      | cons q init =>
        refine ⟨p, q, init ++ [last], hpieces, hp, ?_⟩
        rw [(List.cons_eq_cons.1 hrest).1, hunknown]
    · obtain ⟨s, d, p, q, source, a, port', rfl, rfl, hs, hd, hp, hq⟩ := (parseTcpTokens_iff hdoc hfamily).1 hparse
      by_cases hlast : cstr last = []
      · rw [if_pos hlast, List.append_nil] at hsplit
        exact .inr ⟨family, s, d, p, q, [last], source, port', rfl,
          ⟨init, hpieces, hsplit⟩, .inr ⟨last, rfl, hlast⟩, hs, ⟨a, hd⟩, hp, hq⟩
      · rw [if_neg hlast] at hsplit
        refine .inr ⟨family, s, d, p, q, [], source, port', rfl, ⟨line.splitOn 32, (List.append_nil _).symm, ?_⟩, .inl rfl,
          hs, ⟨a, hd⟩, hp, hq⟩
        rw [hpieces, List.map_append, List.map_singleton, hsplit]
  · rintro (⟨rfl, ⟨p, q, rest, hp, hproxy, hunknown⟩, hfilled⟩ | ⟨family, s, d, p, q, tail, source, port', rfl, hloose⟩)
    · have hne : cstr q ≠ [] := hunknown ▸ words_distinct.2.2.2.2
      obtain hrest | ⟨rest, last', rfl⟩ := List.eq_nil_or_concat' rest
      · subst hrest
        rw [splitString_concat (show line.splitOn 32 = [p] ++ [q] from hp) (List.cons_ne_nil _ _), if_neg hne]
        exact ⟨ansi "UNKNOWN", [], by rw [List.map_singleton, hproxy, hunknown]; rfl, hfilled, .inl ⟨rfl, rfl⟩⟩
      · rw [splitString_concat (show line.splitOn 32 = (p :: q :: rest) ++ [last'] from hp) (List.cons_ne_nil _ _),
          List.map_cons, List.map_cons, hproxy, hunknown]
        exact ⟨ansi "UNKNOWN", _, rfl, hfilled, .inl ⟨rfl, rfl⟩⟩
    · have hfull := looseTcp_filled hloose hdoc
      obtain ⟨ps, hps, hmap⟩ := hloose.pieces
      obtain ⟨a, ha⟩ := hloose.destinationText
      have hfamily : family = ansi "TCP4" ∨ family = ansi "TCP6" := by
        cases ha with
        | tcp4 => exact .inl rfl
        | tcp6 => exact .inr rfl
      have hparse := (parseTcpTokens_iff hdoc hfamily).2
        ⟨s, d, p, q, source, a, port', rfl, rfl, hloose.sourceText, ha, hloose.port, hloose.port'⟩
      obtain htail | ⟨rest, htail, hrest⟩ := hloose.tail
      · subst htail
        rw [List.append_nil] at hps
        obtain ⟨hcutInit, hcutLast⟩ : init.map cstr = [ansi "PROXY", family, s, d, p] ∧ cstr last = q := by
          rw [← hps, hpieces, List.map_append, List.map_singleton] at hmap
          have hsplit : [ansi "PROXY", family, s, d, p, q] = [ansi "PROXY", family, s, d, p] ++ [q] := rfl
          rw [hsplit] at hmap
          obtain ⟨hi, hl⟩ := List.append_inj' hmap rfl
          exact ⟨hi, List.singleton_inj.1 hl⟩
        refine ⟨family, [s, d, p, q], ?_, ?_, .inr ⟨hfamily, hparse⟩⟩
        · rw [htokens, hcutInit, hcutLast, if_neg (hfull q (by simp))]
          rfl
        · rw [Filled, hpieces, List.dropLast_concat]
          intro t ht
          have hmem := List.mem_map_of_mem (f := cstr) ht
          rw [hcutInit] at hmem
          refine hfull _ ?_
          simp only [List.mem_cons, List.not_mem_nil, or_false] at hmem ⊢
          tauto
      · subst htail
        obtain ⟨rfl, hlast⟩ := List.append_inj' (hpieces.symm.trans hps) rfl
        rw [List.singleton_inj.1 hlast] at htokens
        refine ⟨family, [s, d, p, q], ?_, ?_, .inr ⟨hfamily, hparse⟩⟩
        · rw [htokens, hmap, if_pos hrest]
          rfl
        · rw [Filled, hpieces, List.dropLast_concat]
          intro t ht
          have hmem := List.mem_map_of_mem (f := cstr) ht
          rw [hmap] at hmem
          exact hfull _ hmem

/-! ## Valid lines -/

theorem AddressText.loose {reader : AddressReader} (hdoc : reader.Documented) {family s : AnsiString} {a : IPAddress}
    (h : AddressText reader family s a) : LooseAddress reader family s a ∧ Plain s := by
  cases h with
  | tcp4 h =>
    refine ⟨.tcp4 h, fun c hc => ?_⟩
    obtain hc | rfl := (hdoc.v4 _ _ h).2 c hc
    · exact isDigit_plain c hc
    · decide
  | tcp6 h hscope =>
    obtain ⟨hcolon, hchars⟩ := hdoc.v6 _ _ h hscope
    refine ⟨.tcp6 h hcolon, fun c hc => ?_⟩
    obtain hc | rfl | rfl := hchars c hc
    · exact isHexDigit_plain c hc
    · decide
    · decide

theorem formatNat_plain (n : Nat) : Plain (formatNat n) := fun c hc => isDigit_plain c (formatNat_isDigit n c hc)

theorem looseAddress_family {reader : AddressReader} {family s : AnsiString} {a : IPAddress} (h : LooseAddress reader family s a) :
    family = ansi "TCP4" ∨ family = ansi "TCP6" := by
  cases h with
  | tcp4 => exact .inl rfl
  | tcp6 => exact .inr rfl

theorem family_plain {family : AnsiString} (h : family = ansi "TCP4" ∨ family = ansi "TCP6") : Plain family := by
  obtain rfl | rfl := h
  · exact tcp4_plain
  · exact tcp6_plain

/-- The tokens of a valid line of TCP. -/
structure StrictTcp (reader : AddressReader) (line family s d p q : AnsiString) (source : Source) (port' : Nat) : Prop where
  pieces : line.splitOn 32 = [ansi "PROXY", family, s, d, p, q]
  plain : ∀ t ∈ [ansi "PROXY", family, s, d, p, q], Plain t
  loose : LooseTcp reader line family s d p q [] source port'
  port : p = formatNat source.2
  port' : q = formatNat port'

theorem ValidLine.strict {reader : AddressReader} (hdoc : reader.Documented) {line : AnsiString} {source : Source}
    (h : ValidLine reader line (some source)) : ∃ family s d p q port', StrictTcp reader line family s d p q source port' := by
  generalize hresult : some source = result at h
  cases h with
  | @tcp family s d address destination port port' hs hd hport hport' =>
    cases hresult
    obtain ⟨hls, hps⟩ := hs.loose hdoc
    obtain ⟨hld, hpd⟩ := hd.loose hdoc
    have hplain : ∀ t ∈ [ansi "PROXY", family, s, d, formatNat port, formatNat port'], Plain t := by
      simp only [List.mem_cons, List.not_mem_nil, or_false, forall_eq_or_imp, forall_eq]
      exact ⟨proxy_plain, family_plain (looseAddress_family hls), hps, hpd,
        formatNat_plain port, formatNat_plain port'⟩
    have hpieces : List.splitOn 32 ([32].intercalate [ansi "PROXY", family, s, d, formatNat port, formatNat port']) =
        [ansi "PROXY", family, s, d, formatNat port, formatNat port'] := by
      refine List.splitOn_intercalate 32 (fun t ht h32 => ?_) (List.cons_ne_nil _ _)
      exact absurd (hplain t ht 32 h32).1 (by decide)
    have hcut : [ansi "PROXY", family, s, d, formatNat port, formatNat port'].map cstr =
        [ansi "PROXY", family, s, d, formatNat port, formatNat port'] := by
      rw [List.map_congr_left fun t ht => (hplain t ht).cstr, List.map_id']
    exact ⟨family, s, d, formatNat port, formatNat port', port', hpieces, hplain,
      ⟨⟨_, by rw [hpieces, List.append_nil], hcut⟩, .inl rfl, hls, ⟨destination, hld⟩, portText_formatNat hport,
        portText_formatNat hport'⟩, rfl, rfl⟩
  | unknown => cases hresult
  | unknownMore => cases hresult

theorem proxyUnknown_pieces (ignored : AnsiString) :
    (ansi "PROXY UNKNOWN " ++ ignored).splitOn 32 = ansi "PROXY" :: ansi "UNKNOWN" :: ignored.splitOn 32 := by
  have htext : ansi "PROXY UNKNOWN " ++ ignored = ansi "PROXY" ++ 32 :: (ansi "UNKNOWN" ++ 32 :: ignored) := by
    rw [proxyUnknown_text.2]
    simp
  rw [htext, List.splitOn_append_cons_self_of_not_mem proxy_plain.noSpace,
    List.splitOn_append_cons_self_of_not_mem unknown_plain.noSpace]

theorem validLine_unknown_iff {reader : AddressReader} {line : AnsiString} :
    ValidLine reader line none ↔ ∃ rest, line.splitOn 32 = ansi "PROXY" :: ansi "UNKNOWN" :: rest := by
  constructor
  · intro h
    generalize hresult : (none : Option Source) = result at h
    cases h with
    | tcp => cases hresult
    | unknown =>
      refine ⟨[], ?_⟩
      rw [proxyUnknown_text.1, List.splitOn_append_cons_self_of_not_mem proxy_plain.noSpace,
        List.splitOn_eq_singleton unknown_plain.noSpace]
    | unknownMore ignored => exact ⟨_, proxyUnknown_pieces ignored⟩
  · rintro ⟨rest, hrest⟩
    have hline : line = [32].intercalate (ansi "PROXY" :: ansi "UNKNOWN" :: rest) := by
      rw [← hrest, List.intercalate_splitOn]
    rw [hline]
    cases rest with
    | nil =>
      have htext : [32].intercalate [ansi "PROXY", ansi "UNKNOWN"] = ansi "PROXY UNKNOWN" := by
        rw [proxyUnknown_text.1, List.intercalate_cons_of_ne_nil (List.cons_ne_nil _ _), List.intercalate_singleton]
        simp
      rw [htext]
      exact .unknown
    | cons t rest =>
      have htext : [32].intercalate (ansi "PROXY" :: ansi "UNKNOWN" :: t :: rest) =
          ansi "PROXY UNKNOWN " ++ [32].intercalate (t :: rest) := by
        rw [List.intercalate_cons_of_ne_nil (List.cons_ne_nil _ _), List.intercalate_cons_of_ne_nil (List.cons_ne_nil _ _),
          proxyUnknown_text.2]
        simp
      rw [htext]
      exact .unknownMore _

/-- A line of TCP is made of plain tokens and spaces. -/
theorem StrictTcp.chars {reader : AddressReader} {line family s d p q : AnsiString} {source : Source} {port' : Nat}
    (h : StrictTcp reader line family s d p q source port') : ∀ c ∈ line, 32 ≤ c := by
  intro c hc
  obtain rfl | ⟨t, ht, hmem⟩ := Separated.mem_or_mem_splitOn 32 hc
  · decide
  · rw [h.pieces] at ht
    exact UInt8.le_of_lt (h.plain t ht c hmem).1

theorem looseTcp_second {reader : AddressReader} {line family s d p q : AnsiString} {tail : List AnsiString} {source : Source}
    {port' : Nat} (h : LooseTcp reader line family s d p q tail source port') :
    ∃ a b rest, line.splitOn 32 = a :: b :: rest ∧ cstr a = ansi "PROXY" ∧ cstr b = family := by
  obtain ⟨ps, hps, hmap⟩ := h.pieces
  obtain ⟨a, ps, rfl, ha, hmap⟩ := List.map_eq_cons_iff.1 hmap
  obtain ⟨b, ps, rfl, hb, hmap⟩ := List.map_eq_cons_iff.1 hmap
  exact ⟨a, b, ps ++ tail, hps, ha, hb⟩

theorem unknown_ne_family {family : AnsiString} (h : family = ansi "TCP4" ∨ family = ansi "TCP6") : ansi "UNKNOWN" ≠ family := by
  obtain rfl | rfl := h
  · exact words_distinct.1.2.1.symm
  · exact words_distinct.1.2.2.symm

/-- A sloppy line is no valid one. -/
theorem sloppy_invalid {reader : AddressReader} (hdoc : reader.Documented) {line family s d p q : AnsiString}
    {tail : List AnsiString} {source : Source} {port' : Nat} (h : LooseTcp reader line family s d p q tail source port')
    (hsloppy : Sloppy line s d p q tail source port') (result : Option Source) : ¬ValidLine reader line result := by
  intro hvalid
  cases result with
  | none =>
    obtain ⟨rest, hrest⟩ := validLine_unknown_iff.1 hvalid
    obtain ⟨a, b, rest', hpieces, _, hb⟩ := looseTcp_second h
    rw [hrest] at hpieces
    obtain ⟨_, hpieces⟩ := List.cons_eq_cons.1 hpieces
    rw [← (List.cons_eq_cons.1 hpieces).1, unknown_plain.cstr] at hb
    exact unknown_ne_family (looseAddress_family h.sourceText) hb
  | some source' =>
    obtain ⟨family', s', d', p', q', port'', hstrict⟩ := hvalid.strict hdoc
    obtain ⟨ps, hps, hmap⟩ := h.pieces
    have hsix : ps.length = 6 := by
      have hlength := congrArg List.length hmap
      rwa [List.length_map] at hlength
    have hall := hps.symm.trans hstrict.pieces
    have htail : tail = [] := by
      have hlength := congrArg List.length hall
      simp only [List.length_append, List.length_cons, List.length_nil] at hlength
      exact List.length_eq_zero_iff.1 (by omega)
    rw [htail, List.append_nil] at hall
    rw [hall, List.map_congr_left fun t ht => (hstrict.plain t ht).cstr, List.map_id'] at hmap
    simp only [List.cons.injEq, and_true, true_and] at hmap
    obtain ⟨_, rfl, rfl, rfl, rfl⟩ := hmap
    have hplain : ∀ {t}, t ∈ [ansi "PROXY", family', s', d', p', q'] → 37 ∉ t := fun ht h37 => (hstrict.plain _ ht 37 h37).2 rfl
    have hport : p' = formatNat source.2 := by
      rw [← h.port.value, hstrict.port, digitsValue_formatNat]
    have hport' : q' = formatNat port' := by
      rw [← h.port'.value, hstrict.port', digitsValue_formatNat]
    obtain h1 | h2 | h3 | h4 | h5 | h6 := hsloppy
    · exact h1 htail
    · exact absurd (hstrict.chars 0 h2) (by decide)
    · exact hplain (by simp) h3
    · exact hplain (by simp) h4
    · exact h5 hport
    · exact h6 hport'

/-- A line that is not sloppy is valid. -/
theorem valid_of_not_sloppy {reader : AddressReader} {line family s d p q : AnsiString} {tail : List AnsiString}
    {source : Source} {port' : Nat} (h : LooseTcp reader line family s d p q tail source port')
    (hsloppy : ¬Sloppy line s d p q tail source port') : ValidLine reader line (some source) := by
  simp only [Sloppy, not_or, not_not] at hsloppy
  obtain ⟨htail, hnul, hs, hd, hp, hq⟩ := hsloppy
  obtain ⟨ps, hps, hmap⟩ := h.pieces
  rw [htail, List.append_nil] at hps
  have hcut : ps.map cstr = ps := by
    have hwhole : ∀ t ∈ ps, cstr t = t := by
      intro t ht
      refine cstr_eq fun c hc h0 => hnul ?_
      rw [h0] at hc
      exact Separated.mem_of_mem_splitOn (hps ▸ ht) hc
    rw [List.map_congr_left hwhole, List.map_id']
  have hline : line = [32].intercalate [ansi "PROXY", family, s, d, p, q] := by
    rw [← hmap, hcut, ← hps, List.intercalate_splitOn]
  have htext : ∀ {t : AnsiString} {a : IPAddress}, LooseAddress reader family t a → 37 ∉ t → AddressText reader family t a := by
    intro t a ha hscope
    cases ha with
    | tcp4 ha => exact .tcp4 ha
    | tcp6 ha _ => exact .tcp6 ha hscope
  obtain ⟨a, ha⟩ := h.destinationText
  rw [hline, hp, hq]
  exact .tcp (htext h.sourceText hs) (htext ha hd) h.port.small h.port'.small

end HMailServer.ProxyProtocolParser
