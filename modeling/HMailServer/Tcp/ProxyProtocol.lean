import HMailServer.Util.StringParser
import HMailServer.Lib.Incremental

/- The PROXY header in front of a connection, `ProxyProtocol.cpp`: the parser as it is
   written, and what the protocol calls a header. -/
namespace HMailServer.ProxyProtocolParser
open AnsiString Incremental

inductive IPAddress where
  | v4 (octets : List UInt8)
  | v6 (octets : List UInt8) (scope : Nat)
  deriving DecidableEq

/-- Boost's readers of address texts. -/
structure AddressReader where
  makeAddressV4 : AnsiString → Option (List UInt8)
  makeAddressV6 : AnsiString → Option (List UInt8 × Nat)

def isHexDigit (c : UInt8) : Bool := isDigit c || (97 ≤ c && c ≤ 102) || (65 ≤ c && c ≤ 70)

/-- The addresses that they take: dotted decimals, and groups of hexadecimal digits
    that a scope may stand behind. -/
structure AddressReader.Documented (reader : AddressReader) : Prop where
  v4 : ∀ s a, reader.makeAddressV4 s = some a → s ≠ [] ∧ ∀ c ∈ s, isDigit c = true ∨ c = 46
  v6 : ∀ s a, reader.makeAddressV6 s = some a → 37 ∉ s → 58 ∈ s ∧ ∀ c ∈ s, isHexDigit c = true ∨ c = 46 ∨ c = 58

/-- The port of a source address stands beside it. -/
abbrev Source := IPAddress × Nat

inductive Status where
  | needMore (bytesNeeded : Nat)
  | complete (source : Option Source)
  | invalid (errorMessage : AnsiString)

def Status.bytesNeeded : Status → Option Nat
  | .needMore n => some n
  | _ => none

def proxyV2Signature : List UInt8 := [0x0D, 0x0A, 0x0D, 0x0A, 0x00, 0x0D, 0x0A, 0x51, 0x55, 0x49, 0x54, 0x0A]

def proxyV1MaxLineLength : Nat := 107

def parsePortNumber (value : AnsiString) : Option Nat :=
  if value = [] ∨ 5 < value.length then none
  else if ¬value.all isDigit then none
  else if 65535 < digitsValue value then none
  else some (digitsValue value)

section
variable (reader : AddressReader)

/-- `IPAddress::TryParse`. -/
def tryParse (s : AnsiString) : Option IPAddress :=
  if 58 ∈ s then (reader.makeAddressV6 s).map fun a => .v6 a.1 a.2 else (reader.makeAddressV4 s).map .v4

/-- The address has the type of the protocol family. -/
def IPAddress.isOf (protocolFamily : AnsiString) : IPAddress → Bool
  | .v4 _ => protocolFamily == ansi "TCP4"
  | .v6 _ _ => protocolFamily != ansi "TCP4"

/-- The tokens behind a family that names addresses. -/
def parseTcpTokens (protocolFamily : AnsiString) : List AnsiString → Status
  | [source, destination, sourcePort, destinationPort] =>
    match tryParse reader source, tryParse reader destination with
    | some sourceAddress, some destinationAddress =>
      if ¬sourceAddress.isOf protocolFamily ∨ ¬destinationAddress.isOf protocolFamily then
        .invalid (ansi "Address family mismatch in PROXY protocol v1 line")
      else
        match parsePortNumber sourcePort, parsePortNumber destinationPort with
        | some port, some _ => .complete (some (sourceAddress, port))
        | _, _ => .invalid (ansi "Unparsable port in PROXY protocol v1 line")
    | _, _ => .invalid (ansi "Unparsable address in PROXY protocol v1 line")
  | _ => .invalid (ansi "A PROXY protocol v1 TCP line must have exactly 6 tokens")

/-- `ParseVersion1_` from the line on. -/
def parseLine (line : AnsiString) : Status :=
  let tokens := StringParser.splitString line (ansi " ")
  if tokens.any (·.isEmpty) then .invalid (ansi "Malformed spacing in PROXY protocol v1 line")
  else
    match tokens with
    | proxy :: protocolFamily :: rest =>
      if proxy ≠ ansi "PROXY" then .invalid (ansi "Malformed PROXY protocol v1 line")
      else if protocolFamily = ansi "UNKNOWN" then .complete none
      else if protocolFamily ≠ ansi "TCP4" ∧ protocolFamily ≠ ansi "TCP6" then
        .invalid (ansi "Unsupported protocol family in PROXY protocol v1 line: " ++ protocolFamily)
      else parseTcpTokens reader protocolFamily rest
    | _ => .invalid (ansi "Malformed PROXY protocol v1 line")

def parseVersion1 (buffer : List UInt8) : Status :=
  match buffer.findIdx? (· == 10) with
  | none =>
    if proxyV1MaxLineLength ≤ buffer.length then
      .invalid (ansi "No CRLF within the maximum 107 bytes of a PROXY protocol v1 line")
    else .needMore 1
  | some lineFeedIndex =>
    if lineFeedIndex = 0 ∨ buffer[lineFeedIndex - 1]? ≠ some 13 then
      .invalid (ansi "PROXY protocol v1 line terminated by a bare LF instead of CRLF")
    else parseLine reader (buffer.take (lineFeedIndex - 1))

end

/-- Two bytes of the buffer as a number. -/
def word (buffer : List UInt8) (i : Nat) : Nat := (buffer.getD i 0).toNat * 256 + (buffer.getD (i + 1) 0).toNat

def parseVersion2 (buffer : List UInt8) : Status :=
  if buffer.length < 16 then .needMore (16 - buffer.length)
  else if buffer.take 12 ≠ proxyV2Signature then .invalid (ansi "Invalid PROXY protocol v2 signature")
  else
    let versionAndCommand := buffer.getD 12 0
    if versionAndCommand &&& 0xF0 ≠ 0x20 then .invalid (ansi "Unsupported PROXY protocol version")
    else
      let command := versionAndCommand &&& 0x0F
      if command ≠ 0 ∧ command ≠ 1 then .invalid (ansi "Unsupported PROXY protocol v2 command")
      else
        let familyAndTransport := buffer.getD 13 0
        let addressBlockLength := word buffer 14
        if buffer.length < 16 + addressBlockLength then .needMore (16 + addressBlockLength - buffer.length)
        else if command = 0 then .complete none
        else if familyAndTransport = 0x11 then
          if addressBlockLength < 12 then .invalid (ansi "PROXY protocol v2 TCP4 address block is too short")
          else .complete (some (.v4 ((buffer.drop 16).take 4), word buffer 24))
        else if familyAndTransport = 0x21 then
          if addressBlockLength < 36 then .invalid (ansi "PROXY protocol v2 TCP6 address block is too short")
          else .complete (some (.v6 ((buffer.drop 16).take 16) 0, word buffer 48))
        else .complete none

def parse (reader : AddressReader) (buffer : List UInt8) : Status :=
  match buffer with
  | [] => .needMore 1
  | c :: _ =>
    if c = 80 then parseVersion1 reader buffer
    else if c = 0x0D then parseVersion2 buffer
    else .invalid (ansi "The data does not begin with a PROXY protocol v1 or v2 header")

/-! ## Headers -/

/-- The addresses of a family, as the protocol writes them: without a scope. -/
inductive AddressText (reader : AddressReader) : AnsiString → AnsiString → IPAddress → Prop where
  | tcp4 {s : AnsiString} {a : List UInt8} (h : reader.makeAddressV4 s = some a) : AddressText reader (ansi "TCP4") s (.v4 a)
  | tcp6 {s : AnsiString} {a : List UInt8 × Nat} (h : reader.makeAddressV6 s = some a) (hscope : 37 ∉ s) :
      AddressText reader (ansi "TCP6") s (.v6 a.1 a.2)

/-- The lines of version 1 (section 2.1), without the CRLF, and the source they name. -/
inductive ValidLine (reader : AddressReader) : AnsiString → Option Source → Prop where
  | tcp {family s d : AnsiString} {source destination : IPAddress} {port port' : Nat}
      (hs : AddressText reader family s source) (hd : AddressText reader family d destination)
      (hport : port ≤ 65535) (hport' : port' ≤ 65535) :
      ValidLine reader ([32].intercalate [ansi "PROXY", family, s, d, formatNat port, formatNat port'])
        (some (source, port))
  | unknown : ValidLine reader (ansi "PROXY UNKNOWN") none
  | unknownMore (ignored : AnsiString) : ValidLine reader (ansi "PROXY UNKNOWN " ++ ignored) none

/-- The source that a header of version 2 names (section 2.2). -/
def carried (command familyAndTransport : UInt8) (block : List UInt8) : Option Source :=
  if command = 0x21 ∧ familyAndTransport = 0x11 then some (.v4 (block.take 4), word block 8)
  else if command = 0x21 ∧ familyAndTransport = 0x21 then some (.v6 (block.take 16) 0, word block 32)
  else none

/-- What a PROXY header is, with the source it carries. -/
inductive ValidHeader (reader : AddressReader) : List UInt8 → Option Source → Prop where
  | version1 {line : AnsiString} {source : Option Source} (hline : ValidLine reader line source)
      -- the header ends at its first CRLF
      (hfirst : ¬[13, 10] <:+: line) (hlength : line.length + 2 ≤ 107) : ValidHeader reader (line ++ [13, 10]) source
  | version2 {command familyAndTransport high low : UInt8} {block : List UInt8} (hcommand : command = 0x20 ∨ command = 0x21)
      (hlength : block.length = high.toNat * 256 + low.toNat)
      (h4 : command = 0x21 → familyAndTransport = 0x11 → 12 ≤ block.length)
      (h6 : command = 0x21 → familyAndTransport = 0x21 → 36 ≤ block.length) :
      ValidHeader reader (proxyV2Signature ++ [command, familyAndTransport, high, low] ++ block)
        (carried command familyAndTransport block)

/-- What the parser asks its caller for. -/
def asks (reader : AddressReader) (buffer : List UInt8) : Option Nat := (parse reader buffer).bytesNeeded

/-- The most that a caller may read of a stream. -/
def limit (stream : Nat → UInt8) : Nat :=
  if stream 0 = 80 then 107
  else if stream 0 = 0x0D then 16 + ((stream 14).toNat * 256 + (stream 15).toNat)
  else 1

/-- The header of a stream is read exactly. -/
structure Exact (reader : AddressReader) (stream : Nat → UInt8) : Prop where
  valid : ∀ h source, ValidHeader reader h source → Begins stream h →
    Reads (asks reader) stream h.length ∧ parse reader (taken stream h.length) = .complete source
  invalid : (∀ h source, ValidHeader reader h source → ¬Begins stream h) →
    ∃ n message, Reads (asks reader) stream n ∧ parse reader (taken stream n) = .invalid message
  bound : ∀ n, Reads (asks reader) stream n → n ≤ limit stream

end HMailServer.ProxyProtocolParser
