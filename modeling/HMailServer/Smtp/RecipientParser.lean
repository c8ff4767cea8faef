import HMailServer.Util.SRS
import HMailServer.Util.BATV

/- `RecipientParser` (`SMTP/RecipientParser.cpp`), the two walks that answer a
   RCPT TO: `CheckDeliveryPossibility` decides whether the address is accepted,
   `CreateMessageRecipientList` turns it into recipients of the message. What
   they read from the caches, the settings and the clock is a `Directory`. Both
   count their levels up to 25; here `left` is what remains of them. -/
namespace HMailServer

namespace StringParser

/-- `Mid(ReverseFind("@") + 1)`, the whole text where there is no at sign. -/
def extractDomain (address : WString) : WString := ((Cut.cutLast 64 address).map Prod.snd).getD address

/-- `Mid(0, ReverseFind("@"))`, where a count of -1 takes nothing. -/
def extractAddress (address : WString) : WString := ((Cut.cutLast 64 address).map Prod.fst).getD []

end StringParser

namespace RecipientParser
open StringParser

structure Domain where
  name : WString
  isActive : Bool
  postmaster : WString
  usePlusAddressing : Bool
  plusAddressingChar : WString

structure DomainAlias where
  aliasName : WString
  domainID : Nat

structure Account where
  id : Nat
  active : Bool
  accountMaxSize : Nat
  /-- `SpaceAvailable(1)`. -/
  spaceAvailable : Bool

structure Alias where
  isActive : Bool
  value : WString

inductive ListMode where
  | lmPublic | lmMembership | lmAnnouncement | lmDomainMembers
  deriving DecidableEq

structure DistributionList where
  address : WString
  active : Bool
  requireAuth : Bool
  listMode : ListMode
  requireAddress : WString
  domainID : Nat
  moderatorAddress : WString
  members : List WString

structure Route where
  toAllAddresses : Bool
  hasAddress : WString → Bool
  treatRecipientAsLocalDomain : Bool

/-- The directory and the settings. `PreSaveLimitationsCheck` refuses a domain
    under the name of a domain alias, an alias under the name of a domain and a
    domain name with an at sign; names are looked up without regard to case. -/
structure Directory where
  signing : SigningEnvironment
  now : Nat
  srsEnabled : Bool
  srsSecret : WString
  batvEnabled : Bool
  batvSecret : WString
  rejectFullMailboxAtRcpt : Bool
  domainAliases : List DomainAlias
  domainByID : Nat → Option Domain
  domain : WString → Option Domain
  account : WString → Option Account
  aliasOf : WString → Option Alias
  list : WString → Option DistributionList
  route : WString → Option Route
  domain_not_alias : ∀ id dom, domainByID id = some dom → 64 ∉ dom.name ∧
    ∀ al ∈ domainAliases, WString.equalsNoCase al.aliasName dom.name = false
  list_noCase : ∀ a b, WString.makeLower signing.loc a = WString.makeLower signing.loc b → list a = list b

variable (d : Directory)

/-- `String::ToLower`. -/
def Directory.lower (s : WString) : WString := WString.makeLower d.signing.loc s

/-- `DomainAliases::ApplyAliasesOnAddress`. -/
def Directory.applyAliasesOnAddress (address : WString) : WString :=
  match d.domainAliases.find? fun al => WString.equalsNoCase al.aliasName (extractDomain address) with
  | none => address
  | some al =>
    match d.domainByID al.domainID with
    | none => address
    | some dom => extractAddress address ++ 64 :: dom.name

/-- `Find` of a string; `none` is -1. -/
def findString (s sub : WString) : Option Nat :=
  (List.range (s.length + 1)).find? fun i => sub.isPrefixOf (s.drop i)

/-- `PlusAddressing::ExtractAccountAddress`. -/
def extractAccountAddress (address : WString) (domain : Option Domain) : WString :=
  match domain with
  | none => address
  | some dom =>
    if dom.usePlusAddressing then
      match findString (extractAddress address) dom.plusAddressingChar with
      | none => address
      | some i => (extractAddress address).take i ++ 64 :: extractDomain address
    else address

/-! ## CheckDeliveryPossibility -/

inductive DeliveryPossibility where
  | possible | recipientUnknown | permissionDenied | mailboxFull
  deriving DecidableEq

/-- What a check hands on to the next one: the error text and
    `moderated_list_addresses_`. -/
structure CheckState where
  errMsg : WString
  moderated : Finset WString
  deriving DecidableEq

structure Answer extends CheckState where
  possibility : DeliveryPossibility
  treatSecurityAsLocal : Bool
  deriving DecidableEq

def CheckState.answer (st : CheckState) (possibility : DeliveryPossibility) (treatSecurityAsLocal : Bool) : Answer :=
  { st with possibility, treatSecurityAsLocal }

def CheckState.unknown (st : CheckState) (msg : String) (treatSecurityAsLocal : Bool) : Answer :=
  { st with errMsg := wide msg }.answer .recipientUnknown treatSecurityAsLocal

def unknownUser : String := "Unknown user"

def isMailboxFull (acc : Account) : Bool :=
  d.rejectFullMailboxAtRcpt && acc.accountMaxSize != 0 && !acc.spaceAvailable

/-- The sender is the list's moderator and has authenticated. -/
def isAuthenticatedModerator (authed : Bool) (sender : WString) (l : DistributionList) : Bool :=
  l.moderatorAddress != [] && authed &&
    WString.equalsNoCase (d.applyAliasesOnAddress sender) (d.applyAliasesOnAddress l.moderatorAddress)

/-- The mode checks of `UserCanSendToList_`: the text of the refusal, if any. -/
def modeRefusal (authed : Bool) (sender : WString) (l : DistributionList) : Option String :=
  if isAuthenticatedModerator d authed sender l then none
  else if l.requireAuth && !authed then some "SMTP authentication required."
  else match l.listMode with
    | .lmAnnouncement =>
      if WString.equalsNoCase (d.applyAliasesOnAddress sender) (d.applyAliasesOnAddress l.requireAddress) then none
      else some "Not authorized owner."
    | .lmDomainMembers =>
      -- a list is stored under a domain, so `GetDomain` finds it
      if (d.domainByID l.domainID).any fun dom =>
          WString.equalsNoCase (extractDomain (d.applyAliasesOnAddress sender)) dom.name then none
      else some "Not authorized domain."
    | .lmPublic => none
    | .lmMembership =>
      if l.members.any fun m => WString.equalsNoCase (d.applyAliasesOnAddress m) sender then none
      else some "Not authorized sender."

/-- The loop over the members, which one refusal ends. -/
def checkMembers (check : WString → CheckState → DeliveryPossibility × CheckState) :
    List WString → CheckState → DeliveryPossibility × CheckState
  | [], st => (.possible, st)
  | m :: ms, st =>
    if (check m st).1 = .permissionDenied then (.permissionDenied, (check m st).2)
    else checkMembers check ms (check m st).2

/-- `UserCanSendToList_`; `check` is the call of `CheckDeliveryPossibility`. -/
def userCanSendToList (check : WString → CheckState → DeliveryPossibility × CheckState) (authed : Bool)
    (sender : WString) (l : DistributionList) (st : CheckState) : DeliveryPossibility × CheckState :=
  match modeRefusal d authed sender l with
  | some msg => (.permissionDenied, { st with errMsg := wide msg })
  | none => checkMembers check l.members st

/-- The end of the loop's body: the catch-all address. `goOn` is `continue`. -/
def checkCatchAll (domain : Option Domain) (treatLocal : Bool) (st : CheckState) (goOn : WString → Answer) : Answer :=
  match domain with
  | some dom => if dom.postmaster ≠ [] then goOn dom.postmaster else st.unknown unknownUser treatLocal
  | none => st.answer .possible treatLocal

/-- The loop's body behind the local domain: the routes. -/
def checkRoutes (first : Bool) (domain : Option Domain) (recipientAddress : WString) (treatLocal : Bool)
    (st : CheckState) (goOn : WString → Answer) : Answer :=
  match d.route (extractDomain recipientAddress) with
  | some route =>
    if route.toAllAddresses || route.hasAddress recipientAddress then
      st.answer .possible (if first then route.treatRecipientAsLocalDomain else treatLocal)
    else if domain.all fun dom => dom.postmaster = [] then st.unknown "Recipient not in route list." treatLocal
    else checkCatchAll domain treatLocal st goOn
  | none => checkCatchAll domain treatLocal st goOn

/-- The branch of an active list. -/
def checkList (check : WString → CheckState → DeliveryPossibility × CheckState) (authed : Bool) (sender : WString)
    (primaryAddress : WString) (l : DistributionList) (treatLocal : Bool) (st : CheckState) : Answer :=
  let moderationKey := d.lower primaryAddress
  let r := userCanSendToList d check authed sender l st
  if r.1 = .permissionDenied then
    if l.moderatorAddress = [] then r.2.answer .permissionDenied treatLocal
    -- accepted, and forwarded to the moderator when the address is expanded
    else CheckState.answer { errMsg := [], moderated := insert moderationKey r.2.moderated } .possible treatLocal
  else CheckState.answer { r.2 with moderated := r.2.moderated.erase moderationKey } .possible treatLocal

/-- The `while` loop of `CheckDeliveryPossibility`; the aliases of the sender's
    domain have been applied. -/
def checkLoop (authed : Bool) : Nat → WString → WString → Bool → Bool → CheckState → Answer
  | 0, _, _, _, treatLocal, st =>
    st.unknown "Mail server configuration error. Too many recursive forwards." treatLocal
  | left + 1, sender, recipientAddress, quota, treatLocal, st =>
    let first := left + 1 == 25
    let withoutPlus := d.applyAliasesOnAddress recipientAddress
    let domain := d.domain (extractDomain withoutPlus)
    let active := domain.any fun dom => dom.isActive
    if active && d.srsEnabled && SRS.isSRS0 withoutPlus then
      match SRS.reverse d.signing d.now withoutPlus d.srsSecret with
      | some originalSender => checkLoop authed left sender originalSender quota true st
      | none => st.unknown unknownUser treatLocal
    else if active && d.batvEnabled && BATV.isPrvs withoutPlus then
      match BATV.verify d.signing d.now withoutPlus d.batvSecret with
      | some originalRecipient => checkLoop authed left sender originalRecipient quota true st
      | none => st.unknown unknownUser treatLocal
    else
      let primaryAddress := extractAccountAddress withoutPlus domain
      match domain with
      | none =>
        checkRoutes d first none recipientAddress treatLocal st fun a => checkLoop authed left sender a quota treatLocal st
      | some dom =>
        let treatLocal := first || treatLocal
        if !dom.isActive then st.unknown "Domain has been disabled." treatLocal
        else match d.account primaryAddress with
          | some acc =>
            if acc.active then
              if quota && isMailboxFull d acc then
                { st with errMsg := wide "Mailbox is full." }.answer .mailboxFull treatLocal
              else st.answer .possible treatLocal
            else st.unknown "Account is not active." treatLocal
          | none =>
            match d.aliasOf primaryAddress with
            | some al =>
              if al.isActive then checkLoop authed left sender al.value quota treatLocal st
              else st.unknown "Alias is not active." treatLocal
            | none =>
              match d.list primaryAddress with
              | some l =>
                if !l.active then st.unknown "Distribution list is not active." treatLocal
                else
                  checkList d (fun m st =>
                      let a := checkLoop authed left (d.applyAliasesOnAddress sender) m false false st
                      (a.possibility, a.toCheckState))
                    authed sender primaryAddress l treatLocal st
              | none =>
                checkRoutes d first (some dom) recipientAddress treatLocal st fun a =>
                  checkLoop authed left sender a quota treatLocal st

/-- `CheckDeliveryPossibility` as RCPT TO calls it, with no level used up and
    with the mailbox's quota. -/
def checkDeliveryPossibility (authed : Bool) (sender originalRecipient : WString) (moderated : Finset WString) : Answer :=
  checkLoop d authed 25 (d.applyAliasesOnAddress sender) originalRecipient true false { errMsg := [], moderated }

/-! ## CreateMessageRecipientList -/

structure MessageRecipient where
  address : WString
  originalAddress : WString
  localAccountID : Nat
  isLocalName : Bool
  isModerationForward : Bool
  dsnNotify : Nat
  deriving DecidableEq

/-- What an expansion adds to: the recipients, `recipientOK`, and the numbers
    and texts given to `ReportError`. `expanded` is no part of the code: it
    records the lists whose members were taken. -/
structure Expansion where
  recipients : List MessageRecipient
  recipientOK : Bool
  reported : List (Nat × WString)
  expanded : List DistributionList

/-- `AddRecipient_`. -/
def addRecipient (recipients : List MessageRecipient) (r : MessageRecipient) : List MessageRecipient :=
  if d.lower r.address = [] then recipients
  else if recipients.any fun other => d.lower other.address = d.lower r.address then recipients
  else recipients ++ [r]

/-- `recipientOK = true` and `AddRecipient_`. -/
def Expansion.deliver (e : Expansion) (r : MessageRecipient) : Expansion :=
  { e with recipientOK := true, recipients := addRecipient d e.recipients r }

/-- `SetIsModerationForward` on what stands from `first` on. -/
def markForwards (first : Nat) (recipients : List MessageRecipient) : List MessageRecipient :=
  recipients.take first ++ (recipients.drop first).map fun r => { r with isModerationForward := true }

/-- The branch of a list that is marked; `create` is the recursive call. -/
def createModerated (create : WString → Expansion → Expansion) (l : DistributionList) (e : Expansion) : Expansion :=
  if l.moderatorAddress = [] then
    { e with reported := e.reported ++ [(6360, wide "Distribution list " ++ l.address ++
      wide " needed a posting forwarded for approval, but no longer has a moderator address. The recipient was refused.")] }
  else if WString.equalsNoCase l.moderatorAddress l.address then
    { e with reported := e.reported ++ [(6363, wide "Distribution list " ++ l.address ++
      wide " has its own address configured as its moderator address, so a posting needing approval has nowhere to go. The recipient was refused.")] }
  else
    let f := create l.moderatorAddress { e with recipientOK := false }
    if !f.recipientOK then
      { f with
        recipientOK := e.recipientOK
        reported := f.reported ++ [(6361, wide "Distribution list " ++ l.address ++
          wide " needed a posting forwarded for approval, but its moderator address " ++ l.moderatorAddress ++
          wide " does not resolve to any deliverable recipient. The recipient was refused.")] }
    else { f with recipients := markForwards e.recipients.length f.recipients, recipientOK := true }

/-- The loop over the members. -/
def createMembers (create : WString → Expansion → Expansion) : List WString → Expansion → Expansion
  | [], e => e
  | m :: ms, e => createMembers create ms (create m e)

/-- The body behind the routes. -/
def createCatchAll (domain : Option Domain) (recipientAddress original : WString)
    (create : WString → Expansion → Expansion) (e : Expansion) : Expansion :=
  match domain with
  | some dom => if dom.postmaster ≠ [] then create dom.postmaster e else e
  | none => e.deliver d ⟨recipientAddress, original, 0, false, false, 0⟩

/-- The body behind the local domain. -/
def createRoutes (domain : Option Domain) (recipientAddress original : WString)
    (create : WString → Expansion → Expansion) (e : Expansion) : Expansion :=
  match d.route (extractDomain recipientAddress) with
  | some route =>
    if route.toAllAddresses || route.hasAddress recipientAddress then
      e.deliver d ⟨recipientAddress, original, 0, route.treatRecipientAsLocalDomain, false, 0⟩
    else if domain.all fun dom => dom.postmaster = [] then e
    else createCatchAll d domain recipientAddress original create e
  | none => createCatchAll d domain recipientAddress original create e

/-- `CreateMessageRecipientList_`. -/
def createMessageRecipientList_ (moderated : Finset WString) (original : WString) :
    Nat → WString → Expansion → Expansion
  | 0, _, e => e
  | left + 1, recipientAddress, e =>
    let primaryAddress := d.applyAliasesOnAddress recipientAddress
    let domain := d.domain (extractDomain primaryAddress)
    let active := domain.any fun dom => dom.isActive
    if active && d.srsEnabled && SRS.isSRS0 primaryAddress then
      match SRS.reverse d.signing d.now primaryAddress d.srsSecret with
      | some originalSender => createMessageRecipientList_ moderated original left originalSender e
      | none => e
    else if active && d.batvEnabled && BATV.isPrvs primaryAddress then
      match BATV.verify d.signing d.now primaryAddress d.batvSecret with
      | some originalRecipient => createMessageRecipientList_ moderated original left originalRecipient e
      | none => e
    else
      let primaryAddress := extractAccountAddress primaryAddress domain
      match domain with
      | none =>
        createRoutes d none recipientAddress original (createMessageRecipientList_ moderated original left) e
      | some dom =>
        if !dom.isActive then e
        else match d.account primaryAddress with
          | some acc => if acc.active then e.deliver d ⟨primaryAddress, original, acc.id, true, false, 0⟩ else e
          | none =>
            match d.aliasOf primaryAddress with
            | some al => if al.isActive then createMessageRecipientList_ moderated original left al.value e else e
            | none =>
              match d.list primaryAddress with
              | some l =>
                if !l.active then e
                else if d.lower primaryAddress ∈ moderated then
                  createModerated (createMessageRecipientList_ moderated original left) l e
                else
                  createMembers (createMessageRecipientList_ moderated original left) l.members
                    { e with expanded := e.expanded ++ [l] }
              | none =>
                createRoutes d (some dom) recipientAddress original
                  (createMessageRecipientList_ moderated original left) e

/-- `CreateMessageRecipientList` on the recipients the message has. -/
def createMessageRecipientList (moderated : Finset WString) (address : WString)
    (recipients : List MessageRecipient) : Expansion :=
  createMessageRecipientList_ d moderated address 25 address ⟨recipients, false, [], []⟩

end RecipientParser
end HMailServer
