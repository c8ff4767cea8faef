import HMailServer.Util.WideString

/- The DNS tree walk that finds organizational domains
   (`Common/AntiSpam/DMARC/DmarcTreeWalk.cpp`), and the alignment test of
   `DMARC.cpp` over it. The resolver's TXT answers are a parameter, `none` being
   a lookup failure. -/
namespace HMailServer

structure DmarcEnvironment where
  loc : Locale
  getTXTRecords : WString → Option (List WString)
  -- the setting `DmarcTreeWalkEnabled`
  treeWalkEnabled : Bool
  -- `PublicSuffixList::GetPublicSuffixLabelCount`
  publicSuffixLabelCount : List WString → Nat

structure DmarcTreeWalkRecord where
  domain : WString
  record : WString
  psdYes : Bool
  psdNo : Bool
  deriving DecidableEq

namespace DmarcTreeWalk

def maxLabelsWalked : Nat := 7

/-- `StartsWith`, which compares without case. -/
def startsWith (s text : WString) : Bool := WString.equalsNoCase (s.take text.length) text

/-- The first part whose name is the tag. -/
def getTag (loc : Locale) (record tag : WString) : Option WString :=
  (WString.splitString record 59).findSome? fun part =>
    let part := WString.trim loc part
    match part.findIdx? (· == 61) with
    | none => none
    | some equals =>
      if equals = 0 then none
      else if WString.makeLower loc (WString.trim loc (part.take equals)) ≠ tag then none
      else some (WString.makeLower loc (WString.trim loc (part.drop (equals + 1))))

/-- None of the records where two of them are of this version. -/
def selectSingleRecord (loc : Locale) (txtRecords : List WString) : Option WString :=
  match (txtRecords.map (WString.trim loc)).filter fun record => startsWith record (wide "v=DMARC1") with
  | [record] => some record
  | _ => none

/-- `MakeLower` and `TrimRight` of the dots. -/
def normalize (loc : Locale) (domain : WString) : WString :=
  (WString.makeLower loc domain).rdropWhile (· == 46)

/-- Labels joined by dots, as the loops of the source do: no dot is written
    while the name is still empty. -/
def joinLabels (labels : List WString) : WString :=
  labels.foldl (fun target label => (if target = [] then target else target ++ [46]) ++ label) []

/-- The names to query, with the shortcut for eight or more labels. -/
def targets (lowerDomain : WString) : List WString :=
  let labels := WString.splitString lowerDomain 46
  let startIndex := if 8 ≤ labels.length then labels.length - maxLabelsWalked else 1
  lowerDomain :: (List.range' startIndex (labels.length - startIndex)).map fun i => joinLabels (labels.drop i)

def recordAt (loc : Locale) (target record : WString) : DmarcTreeWalkRecord :=
  match getTag loc record (wide "psd") with
  | none => ⟨target, record, false, false⟩
  | some psd => ⟨target, record, psd = wide "y", psd = wide "n"⟩

/-- The records found, and whether a lookup failed. -/
def walkTargets (env : DmarcEnvironment) : List WString → List DmarcTreeWalkRecord × Bool
  | [] => ([], false)
  | target :: rest =>
    match env.getTXTRecords (wide "_dmarc." ++ target) with
    | none => ([], true)
    | some txtRecords =>
      match selectSingleRecord env.loc txtRecords with
      | none => walkTargets env rest
      | some record =>
        let found := recordAt env.loc target record
        -- an explicit psd= answer ends the walk
        if found.psdYes || found.psdNo then ([found], false)
        else (found :: (walkTargets env rest).1, (walkTargets env rest).2)

def walk (env : DmarcEnvironment) (domain : WString) : List DmarcTreeWalkRecord × Bool :=
  let lowerDomain := normalize env.loc domain
  if lowerDomain = [] then ([], false)
  else if WString.splitString lowerDomain 46 = [] then ([], false)
  else walkTargets env (targets lowerDomain)

/-- The second rule at one record: one label below it, of the starting domain. -/
def belowSuffix (lowerStart : WString) (record : DmarcTreeWalkRecord) : Option WString :=
  if !record.psdYes || record.domain == lowerStart then none
  else
    let startLabels := WString.splitString lowerStart 46
    let psdLabels := WString.splitString record.domain 46
    if startLabels.length ≤ psdLabels.length then none
    else some (joinLabels (startLabels.drop (startLabels.length - (psdLabels.length + 1))))

/-- The third rule: the first of the names with the fewest labels. -/
def fewestLabels (first : WString) (records : List DmarcTreeWalkRecord) : WString :=
  records.foldl (fun fewest record =>
    if (WString.splitString record.domain 46).length < (WString.splitString fewest 46).length then record.domain
    else fewest) first

def selectOrganizationalDomain (loc : Locale) (startDomain : WString) (records : List DmarcTreeWalkRecord) : WString :=
  let lowerStart := normalize loc startDomain
  match records.find? DmarcTreeWalkRecord.psdNo with
  | some record => record.domain
  | none =>
    match records.findSome? (belowSuffix lowerStart) with
    | some organizationalDomain => organizationalDomain
    | none =>
      match records with
      | [] => lowerStart
      | first :: _ => fewestLabels first.domain records

structure CacheEntry where
  organizationalDomain : WString
  expires : Nat

abbrev Cache := List (WString × CacheEntry)

def cacheSeconds : Nat := 300
def maxCacheEntries : Nat := 10000

def storeAnswer (cache : Cache) (now : Nat) (lowerDomain organizationalDomain : WString) : Cache :=
  let cache := if maxCacheEntries ≤ cache.length then [] else cache
  (lowerDomain, ⟨organizationalDomain, now + cacheSeconds⟩) :: cache.filter fun entry => entry.1 ≠ lowerDomain

/-- The walk where the cache has no answer: the cache afterwards, the domain and
    whether a lookup failed. -/
def walkAndStore (env : DmarcEnvironment) (cache : Cache) (now : Nat) (lowerDomain : WString) :
    Cache × WString × Bool :=
  let walked := walk env lowerDomain
  if walked.2 then (cache, lowerDomain, true)
  else
    let organizationalDomain := selectOrganizationalDomain env.loc lowerDomain walked.1
    (storeAnswer cache now lowerDomain organizationalDomain, organizationalDomain, false)

def getOrganizationalDomain (env : DmarcEnvironment) (cache : Cache) (now : Nat) (domain : WString) :
    Cache × WString × Bool :=
  let lowerDomain := normalize env.loc domain
  if lowerDomain = [] then (cache, lowerDomain, false)
  else match cache.lookup lowerDomain with
    | none => walkAndStore env cache now lowerDomain
    | some cached =>
      if now < cached.expires ∧ cached.expires ≤ now + cacheSeconds then (cache, cached.organizationalDomain, false)
      else walkAndStore env (cache.filter fun entry => entry.1 ≠ lowerDomain) now lowerDomain

end DmarcTreeWalk

namespace Dmarc
open DmarcTreeWalk

/-- The public suffix and the label below it. -/
def listedDomain (env : DmarcEnvironment) (lowerDomain : WString) : WString :=
  let labels := WString.splitString lowerDomain 46
  let listed := env.publicSuffixLabelCount labels
  let suffixLabels := if listed = 0 then 1 else listed
  if labels.length ≤ suffixLabels + 1 then lowerDomain
  else joinLabels (labels.drop (labels.length - (suffixLabels + 1)))

/-- The walk where it is enabled and completes, else the public suffix list. -/
def getOrganizationalDomain (env : DmarcEnvironment) (cache : Cache) (now : Nat) (domain : WString) :
    Cache × WString :=
  let lowerDomain := normalize env.loc domain
  if (WString.splitString lowerDomain 46).length ≤ 1 then (cache, lowerDomain)
  else if env.treeWalkEnabled then
    match DmarcTreeWalk.getOrganizationalDomain env cache now lowerDomain with
    | (cache, walked, false) => (cache, walked)
    | (cache, _, true) => (cache, listedDomain env lowerDomain)
  else (cache, listedDomain env lowerDomain)

inductive AlignmentMode where
  | relaxed
  | strict
  deriving DecidableEq

/-- The two names are looked up one after the other, each at its own time. -/
def domainsAligned (env : DmarcEnvironment) (cache : Cache) (now now' : Nat) (authenticatedDomain fromDomain : WString)
    (mode : AlignmentMode) : Cache × Bool :=
  if authenticatedDomain = [] ∨ fromDomain = [] then (cache, false)
  else
    let authLower := normalize env.loc authenticatedDomain
    let fromLower := normalize env.loc fromDomain
    match mode with
    | .strict => (cache, authLower == fromLower)
    | .relaxed =>
      let auth := getOrganizationalDomain env cache now authLower
      let sender := getOrganizationalDomain env auth.1 now' fromLower
      (sender.1, auth.2 == sender.2)

end Dmarc
end HMailServer
