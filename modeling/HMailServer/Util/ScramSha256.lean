import HMailServer.Util.StringParser
import HMailServer.Lib.Cut

/- The first half of a SCRAM exchange, `Common/Util/Hashing/ScramSha256.cpp`: the
   user's name out of the client's first message, and the server's answer. HMAC,
   the random octets and `sscanf` are parameters. -/
namespace HMailServer.ScramSha256
open AnsiString StringParser Cut

/-- `StartsWith`, which compares without case. -/
def startsWith (s text : AnsiString) : Bool := equalsNoCase (s.take text.length) text

/-- `GetAttribute_`: the value of the first part that begins with the name. -/
def getAttribute (message : AnsiString) (name : UInt8) : AnsiString :=
  match (splitString message (ansi ",")).find? fun part => startsWith part [name, 61] with
  | some part => part.drop 2
  | none => []

/-- The escapes of a saslname undone, one after the other. -/
def unescapeName (user : AnsiString) : AnsiString :=
  let user := replaceFrom (ansi "=2C") (ansi ",") 0 user
  let user := replaceFrom (ansi "=2c") (ansi ",") 0 user
  let user := replaceFrom (ansi "=3D") (ansi "=") 0 user
  replaceFrom (ansi "=3d") (ansi "=") 0 user

/-- The two fields of the gs2 header, and what is behind it. -/
def gs2Fields (clientFirst : AnsiString) : Option (AnsiString × AnsiString × AnsiString) :=
  match cut 44 clientFirst with
  | none => none
  | some (cbindFlag, afterFirst) =>
    match cut 44 afterFirst with
    | none => none
    | some (authzidPart, bare) => some (cbindFlag, authzidPart, bare)

def extractUsername (clientFirst : AnsiString) : Option AnsiString :=
  match gs2Fields clientFirst with
  | none => none
  | some (_, _, bare) =>
    let user := getAttribute bare 110
    if user = [] then none else some (unescapeName user)

/-! ## The server's answer -/

structure Settings where
  administratorPassword : AnsiString
  password : AnsiString
  databaseName : AnsiString
  databaseServer : AnsiString

/-- What the functions call outside themselves. -/
structure Library where
  /-- `HMAC` with SHA-256: the key and the data. -/
  hmac : AnsiString → AnsiString → List UInt8
  /-- `sscanf` of `%02x`. -/
  scanHex : AnsiString → Option Nat
  atoi : AnsiString → Int

structure ScramSession where
  plusMode : Bool := false
  serverSupportsCbind : Bool := false
  needClientFinal : Bool := false
  realAccount : Bool := false
  saltedPassword : List UInt8 := []
  gs2Header : AnsiString := []
  clientFirstBare : AnsiString := []
  serverFirst : AnsiString := []
  combinedNonce : AnsiString := []

variable (lib : Library)

def base64Table : AnsiString := ansi "ABCDEFGHIJKLMNOPQRSTUVWXYZabcdefghijklmnopqrstuvwxyz0123456789+/"

/-- One of the four characters that 24 bits are written with. -/
def base64Char (n shift : Nat) : UInt8 := base64Table.getD ((n >>> shift) &&& 0x3F) 0

/-- `Base64Encode_`. -/
def base64Encode : List UInt8 → AnsiString
  | a :: b :: c :: rest =>
    let n := a.toNat <<< 16 ||| b.toNat <<< 8 ||| c.toNat
    base64Char n 18 :: base64Char n 12 :: base64Char n 6 :: base64Char n 0 :: base64Encode rest
  | [a, b] =>
    let n := a.toNat <<< 16 ||| b.toNat <<< 8
    [base64Char n 18, base64Char n 12, base64Char n 6, 61]
  | [a] =>
    let n := a.toNat <<< 16
    [base64Char n 18, base64Char n 12, 61, 61]
  | [] => []

/-- `DeriveAntiEnumerationSalt_`. -/
def deriveAntiEnumerationSalt (settings : Settings) (username : AnsiString) : List UInt8 :=
  let keyMaterial := ansi "hMailServer-SCRAM-anti-enumeration-key" ++ [31] ++ settings.administratorPassword ++ [31] ++
    settings.password ++ [31] ++ settings.databaseName ++ [31] ++ settings.databaseServer
  (lib.hmac keyMaterial (ansi "scram-anti-enum-salt:" ++ lower username)).take 16

/-- The octets of pairs of hexadecimal digits; a last one alone is passed. -/
def hexToBytes : AnsiString → Option (List UInt8)
  | a :: b :: rest =>
    match lib.scanHex [a, b] with
    | none => none
    | some value => (hexToBytes rest).map (UInt8.ofNat value :: ·)
  | _ => some []

/-- `ParseStoredPbkdf2_`: the iterations, the salt and the salted password. -/
def parseStoredPbkdf2 (stored : AnsiString) : Option (Int × List UInt8 × List UInt8) :=
  if startsWith stored (ansi "$h1$") then
    match splitString stored (ansi "$") with
    | [_, _, iterationText, saltHex, keyHex] =>
      if lib.atoi iterationText ≤ 0 then none
      else if saltHex.length % 2 ≠ 0 ∨ keyHex.length % 2 ≠ 0 then none
      else match hexToBytes lib saltHex, hexToBytes lib keyHex with
        | some salt, some saltedPassword =>
          if saltedPassword.length = 32 then some (lib.atoi iterationText, salt, saltedPassword) else none
        | _, _ => none
    | _ => none
  else none

/-- The name that the salt of an unknown account is derived from. -/
def probedUser (bare : AnsiString) : AnsiString := unescapeName (getAttribute bare 110)

/-- Whether the channel binding flag is one for this mechanism. -/
def cbindFlagAccepted (s : ScramSession) (cbindFlag : AnsiString) : Bool :=
  if s.plusMode then cbindFlag == ansi "p=tls-server-end-point"
  else (cbindFlag == ansi "n" || cbindFlag == ansi "y") && !(cbindFlag == ansi "y" && s.serverSupportsCbind)

/-- `%d`. -/
def formatInt (n : Int) : AnsiString := if n < 0 then 45 :: formatNat n.natAbs else formatNat n.natAbs

/-- `ProcessClientFirst`, with the server's nonce and the random password of an
    exchange that has to fail. -/
def processClientFirst (settings : Settings) (serverNonce : AnsiString) (randomPassword : List UInt8) (s : ScramSession)
    (clientFirst storedPbkdf2Hash : AnsiString) : Option ScramSession :=
  match gs2Fields clientFirst with
  | none => none
  | some (cbindFlag, authzidPart, bare) =>
    if !cbindFlagAccepted s cbindFlag then none
    else if authzidPart ≠ [] then none
    else
      let clientNonce := getAttribute bare 114
      if clientNonce = [] then none
      else
        let stored := parseStoredPbkdf2 lib storedPbkdf2Hash
        let (iterations, salt, saltedPassword) :=
          stored.getD (210000, deriveAntiEnumerationSalt lib settings (probedUser bare), randomPassword)
        some { s with
          gs2Header := cbindFlag ++ [44] ++ authzidPart ++ [44]
          clientFirstBare := bare
          combinedNonce := clientNonce ++ serverNonce
          realAccount := stored.isSome
          saltedPassword := saltedPassword
          serverFirst := ansi "r=" ++ (clientNonce ++ serverNonce) ++ ansi ",s=" ++ base64Encode salt ++ ansi ",i=" ++
            formatInt iterations
          needClientFinal := true }

end HMailServer.ScramSha256
