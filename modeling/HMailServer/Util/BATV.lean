import HMailServer.Util.SRS

/- Bounce address tag validation (`Common/Util/BATV.cpp`). -/
namespace HMailServer
open Cut

namespace BATV

def keyNumber : WChar := 49
def maxAgeDays : Int := 7
def dayModulus : Nat := 1000
def hashHexLength : Nat := 6
def tagValueLength : Nat := 10

def currentDayNumber (now : Nat) : Nat := now / 86400 % dayModulus

def dayNumberInRange (now dayNumber : Nat) : Bool :=
  let age : Int := (currentDayNumber now : Int) - dayNumber
  let age := if age < 0 then age + dayModulus else age
  age ≤ maxAgeDays || (dayModulus : Int) - 1 ≤ age

/-- `Format` of `%03d` for a number below a thousand. -/
def formatDay (day : Nat) : WString := [48 + day / 100, 48 + day / 10 % 10, 48 + day % 10]

variable (env : SigningEnvironment)

def canonical (keyAndDay mailbox : WString) : WString :=
  env.toAnsi keyAndDay ++ env.toAnsi (WString.makeLower env.loc mailbox)

def computeHash (secret keyAndDay mailbox : WString) : WString :=
  (env.computeHMACSHA256Hex (env.toAnsi secret) (canonical env keyAndDay mailbox)).take hashHexLength

def isPrvs (address : WString) : Bool :=
  match cutLast 64 address with
  | none => false
  | some (localPart, _) =>
    localPart ≠ [] && 5 + tagValueLength + 2 ≤ localPart.length &&
      WString.equalsNoCase (localPart.take 5) (wide "prvs=") && localPart.getD (5 + tagValueLength) 0 == 61

/-- `Format` of `prvs=%s%s=%s@%s`. -/
def formatAddress (keyAndDay hash localPart domain : WString) : WString :=
  wide "prvs=" ++ WString.cstr keyAndDay ++ WString.cstr hash ++ 61 :: WString.cstr localPart ++
    64 :: WString.cstr domain

def sign (now : Nat) (mailbox secret : WString) : WString :=
  if mailbox = [] ∨ secret = [] then []
  else if isPrvs mailbox then []
  else match cutLast 64 mailbox with
    | none => []
    | some (localPart, domain) =>
      if localPart = [] ∨ domain = [] then []
      else
        let keyAndDay := keyNumber :: formatDay (currentDayNumber now)
        formatAddress keyAndDay (computeHash env secret keyAndDay mailbox) localPart domain

def digitValue (c : WChar) : Nat := c - 48

def verify (now : Nat) (address secret : WString) : Option WString :=
  if secret = [] ∨ !isPrvs address then none
  else match cutLast 64 address with
    | none => none
    | some (localPart, domain) =>
      let payload := localPart.drop 5
      let tagValue := payload.take tagValueLength
      let originalLocal := payload.drop (tagValueLength + 1)
      if originalLocal = [] then none
      else
        let keyAndDay := tagValue.take 4
        let hash := tagValue.drop 4
        let dayDigits := WString.mid keyAndDay 1 3
        if !dayDigits.all (fun c => 48 ≤ c && c ≤ 57) then none
        else
          let candidateMailbox := originalLocal ++ 64 :: domain
          if !WString.equalsNoCase (computeHash env secret keyAndDay candidateMailbox) hash then none
          else
            let dayNumber := digitValue (dayDigits.getD 0 0) * 100 + digitValue (dayDigits.getD 1 0) * 10 +
              digitValue (dayDigits.getD 2 0)
            if dayNumberInRange now dayNumber then some candidateMailbox else none

end BATV
end HMailServer
