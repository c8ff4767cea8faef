import HMailServer.Imap.SearchParser

/- Whether a message meets the criteria of a SEARCH
   (`IMAPCommandSEARCH::DoesMessageMatch_` and its `Matches..Criteria_`
   functions, `IMAP/IMAPCommandSearch.cpp`). The member `message_data_` is the
   one piece of state that an answer can depend on: a flag that says whether
   the message has been loaded. -/
namespace HMailServer

/-- The parts of `DateTime` that the criteria read: the value its operators
    compare, and the calendar day. -/
structure DateTime where
  value : Int
  year : Int
  month : Int
  day : Int
  deriving DecidableEq, Repr

/-- What the matching functions read of a message. The two header readers are
    `mime_header_`, loaded from the header of the file, and `message_data_`,
    loaded from all of it. -/
structure SearchMessage where
  flagDeleted : Bool
  flagSeen : Bool
  flagAnswered : Bool
  flagDraft : Bool
  flagFlagged : Bool
  isRecent : Bool
  keywords : List WString
  modSeq : Int
  size : Int
  uid : Int
  index : Int
  emailId : WString
  createTime : DateTime
  saveDate : DateTime
  mimeHeaderField : WString → WString
  dataField : WString → WString
  dataHeader : WString
  dataBody : WString
  dataHTMLBody : WString
  dataAttachmentText : WString
  cannotContain : WString → Bool

/-- What the matching functions read beside the message. `secondsAgo` is the
    current time less a span. -/
structure SearchEnvironment where
  loc : Locale
  maxUid : Int
  messageCount : Int
  getDateFromIMAP : WString → DateTime
  getDateFromMimeHeader : WString → DateTime
  getIMAPDateFromMimeHeader : WString → WString
  secondsAgo : Int → DateTime

/-- `IMAPListLookup::IsItemInList`. -/
def isItemInList (items : List WString) (item maxItem : Int) : Bool :=
  items.any fun cur =>
    let bound (s : WString) : Int := if s = wide "*" then maxItem else WString.ttoi 32 s
    match cur.findIdx? (· == 58) with
    | some colon =>
      let lower := bound (cur.take colon)
      let upper := bound (cur.drop (colon + 1))
      if upper < lower then upper ≤ item && item ≤ lower else lower ≤ item && item ≤ upper
    | none => bound cur == item

namespace IMAPCommandSEARCH

variable (env : SearchEnvironment) (msg : SearchMessage)

def getHeaderValue (loaded : Bool) (field : WString) : WString :=
  if loaded then msg.dataField field else msg.mimeHeaderField field

/-- The common tail of the criteria: `if (bMatch) return GetPositive() else
    return !GetPositive()`. -/
def signed (k : SearchKeyCriteria) (b : Bool) : Bool := if b then k.positive else !k.positive

def matchesHeaderCriteria (loaded : Bool) (k : SearchKeyCriteria) (field : WString) : Bool :=
  signed k (WString.containsNoCase env.loc (getHeaderValue msg loaded field) k.text)

/-- The answer and whether the message is loaded afterwards. -/
def matchesBODYCriteria (loaded : Bool) (k : SearchKeyCriteria) : Bool × Bool :=
  if !loaded && msg.cannotContain k.text then (!k.positive, false)
  else (signed k (WString.containsNoCase env.loc
    (msg.dataBody ++ msg.dataHTMLBody ++ msg.dataAttachmentText) k.text), true)

/-- The negative branch does not read the attachments. -/
def matchesTEXTCriteria (loaded : Bool) (k : SearchKeyCriteria) : Bool × Bool :=
  if !loaded && msg.cannotContain k.text then (!k.positive, false)
  else
    let found (s : WString) := WString.containsNoCase env.loc s k.text
    if k.positive then
      (!(!found msg.dataHeader && !found msg.dataBody && !found msg.dataHTMLBody &&
        !found msg.dataAttachmentText), true)
    else (!(found msg.dataHeader || found msg.dataBody || found msg.dataHTMLBody), true)

def sameDay (a b : DateTime) : Bool := a.year == b.year && a.month == b.month && a.day == b.day

def maxIntervalSeconds : Int := 100 * 365 * 24 * 60 * 60

def matchesWITHINCriteria (k : SearchKeyCriteria) : Bool :=
  let cutoff := env.secondsAgo (min (WString.ttoi 64 k.text) maxIntervalSeconds)
  signed k (if k.type = .older then msg.createTime.value ≤ cutoff.value else msg.createTime.value > cutoff.value)

/-- The switch of `DoesMessageMatch_`: the answer for one key, and whether the
    message is loaded afterwards. -/
def matchesKey (loaded : Bool) (k : SearchKeyCriteria) : Bool × Bool :=
  let sentDate := getHeaderValue msg loaded (wide "Date")
  let criteriaDate := env.getDateFromIMAP k.text
  match k.type with
  | .deleted => (!(k.positive && !msg.flagDeleted || !k.positive && msg.flagDeleted), loaded)
  | .all => (k.positive, loaded)
  | .undeleted => (!(k.positive && msg.flagDeleted || !k.positive && !msg.flagDeleted), loaded)
  | .seen => (!(k.positive && !msg.flagSeen || !k.positive && msg.flagSeen), loaded)
  | .unseen => (!(k.positive && msg.flagSeen || !k.positive && !msg.flagSeen), loaded)
  | .recent => (!(k.positive && !msg.isRecent || !k.positive && msg.isRecent), loaded)
  | .header => (matchesHeaderCriteria env msg loaded k k.headerField, loaded)
  | .uid => (signed k (isItemInList k.sequenceSet msg.uid env.maxUid), loaded)
  | .sequenceSet => (signed k (isItemInList k.sequenceSet msg.index env.messageCount), loaded)
  | .text => matchesTEXTCriteria env msg loaded k
  | .body => matchesBODYCriteria env msg loaded k
  | .subject => (matchesHeaderCriteria env msg loaded k (wide "Subject"), loaded)
  | .from => (matchesHeaderCriteria env msg loaded k (wide "From"), loaded)
  | .to => (matchesHeaderCriteria env msg loaded k (wide "To"), loaded)
  | .cc => (matchesHeaderCriteria env msg loaded k (wide "CC"), loaded)
  | .on => (signed k (sameDay msg.createTime criteriaDate), loaded)
  | .sentOn => (signed k (env.getIMAPDateFromMimeHeader sentDate == k.text), loaded)
  | .sentBefore => (signed k ((env.getDateFromMimeHeader sentDate).value ≤ criteriaDate.value), loaded)
  | .sentSince => (signed k ((env.getDateFromMimeHeader sentDate).value ≥ criteriaDate.value), loaded)
  | .since => (signed k (msg.createTime.value ≥ criteriaDate.value), loaded)
  | .savedBefore => (signed k (msg.saveDate.value < criteriaDate.value), loaded)
  | .savedOn => (signed k (sameDay msg.saveDate criteriaDate), loaded)
  | .savedSince => (signed k (msg.saveDate.value ≥ criteriaDate.value), loaded)
  | .emailId => (WString.equalsNoCase msg.emailId k.text == k.positive, loaded)
  | .threadId => (!k.positive, loaded)
  | .savedateSupported => (k.positive, loaded)
  | .answered => (!(k.positive && !msg.flagAnswered || !k.positive && msg.flagAnswered), loaded)
  | .draft => (!(k.positive && !msg.flagDraft || !k.positive && msg.flagDraft), loaded)
  | .flagged => (!(k.positive && !msg.flagFlagged || !k.positive && msg.flagFlagged), loaded)
  | .new =>
    let set := msg.isRecent && !msg.flagSeen
    (!(k.positive && !set || !k.positive && set), loaded)
  | .old =>
    let set := !msg.isRecent
    (!(k.positive && !set || !k.positive && set), loaded)
  | .unanswered => (!(k.positive && msg.flagAnswered || !k.positive && !msg.flagAnswered), loaded)
  | .undraft => (!(k.positive && msg.flagDraft || !k.positive && !msg.flagDraft), loaded)
  | .unflagged => (!(k.positive && msg.flagFlagged || !k.positive && !msg.flagFlagged), loaded)
  | .before => (signed k (msg.createTime.value < criteriaDate.value), loaded)
  | .larger => (signed k (msg.size > WString.ttoi 32 k.text), loaded)
  | .smaller => (signed k (msg.size < WString.ttoi 32 k.text), loaded)
  | .keyword => (msg.keywords.any (WString.equalsNoCase · k.text) == k.positive, loaded)
  | .unkeyword => (msg.keywords.any (WString.equalsNoCase · k.text) != k.positive, loaded)
  | .older | .younger => (matchesWITHINCriteria env msg k, loaded)
  | .modSeq =>
    let hit : Bool := msg.modSeq ≥ WString.ttoi 64 k.text
    (!(k.positive && !hit || !k.positive && hit), loaded)
  -- No case of the switch: the answer it started from stands.
  | .charset | .unknown => (true, loaded)

mutual
/-- One criterion of the loop. A sub-criterion starts from no loaded message. -/
def matchesCriteria (loaded : Bool) : IMAPSearchCriteria → Bool × Bool
  | .key k => matchesKey env msg loaded k
  | .sub isOR subs => matchLoop isOR false true subs
/-- The loop of `DoesMessageMatch_`; `last` is `bMessageIsMatchingCriteria`. -/
def matchLoop (isOR loaded last : Bool) : List IMAPSearchCriteria → Bool × Bool
  | [] => (last, loaded)
  | c :: cs =>
    let (m, loaded) := matchesCriteria loaded c
    if isOR then
      if m then (true, loaded) else matchLoop isOR loaded m cs
    else if !m then (false, loaded) else matchLoop isOR loaded m cs
end

/-- `DoesMessageMatch_` on the criterion that `ParseCommand` returns. -/
def doesMessageMatch (criterias : List IMAPSearchCriteria) : Bool :=
  (matchLoop env msg false false true criterias).1

end IMAPCommandSEARCH
end HMailServer
