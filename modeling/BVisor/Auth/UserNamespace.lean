import BVisor.Data.Run
import BVisor.Data.Segments

/-! User namespaces and the maps between the IDs of a namespace and those of its parent. -/

namespace BVisor.Auth

open Data (Range Segment SegmentFunctions findSegment tryInsertRange spanRange)

/-- `uint32(-1)`: no ID. -/
def noID : Nat :=
  2 ^ 32 - 1

def idMapFunctions : SegmentFunctions Nat where
  maxKey := noID
  merge first value _ other :=
    if (value + first.length) % 2 ^ 32 = other then some value else none
  split range value key := (value, (value + (key - range.start)) % 2 ^ 32)

abbrev IDMapSet :=
  List (Segment Nat)

def mapID (set : IDMapSet) (id : Nat) : Nat :=
  if id = noID then noID
  else
    match findSegment set id with
    | none => noID
    | some segment => (segment.value + (id - segment.start)) % 2 ^ 32

structure IDMaps where
  fromParent : IDMapSet
  toParent : IDMapSet
deriving DecidableEq

def IDMaps.empty : IDMaps :=
  ⟨[], []⟩

structure UserNamespace where
  parent : Option Nat
  owner : Nat
  uidMaps : IDMaps
  gidMaps : IDMaps
  parentHadSetfcap : Bool
  setgroupsAllowed : Bool
deriving DecidableEq

/-- The namespaces in the order of their creation, with their parents by position. -/
abbrev Namespaces :=
  List UserNamespace

inductive Kind where
  | uid | gid
deriving DecidableEq

def UserNamespace.maps (ns : UserNamespace) : Kind → IDMaps
  | .uid => ns.uidMaps
  | .gid => ns.gidMaps

def UserNamespace.withMaps (ns : UserNamespace) (kind : Kind) (maps : IDMaps) : UserNamespace :=
  match kind with
  | .uid => { ns with uidMaps := maps }
  | .gid => { ns with gidMaps := maps }

def newRootUserNamespace : UserNamespace where
  parent := none
  owner := 0
  uidMaps := ⟨[⟨⟨0, noID⟩, 0⟩], [⟨⟨0, noID⟩, 0⟩]⟩
  gidMaps := ⟨[⟨⟨0, noID⟩, 0⟩], [⟨⟨0, noID⟩, 0⟩]⟩
  parentHadSetfcap := false
  setgroupsAllowed := true

namespace Namespaces

def lineageWithin (namespaces : Namespaces) : Nat → Nat → List UserNamespace
  | 0, _ => []
  | fuel + 1, index =>
    match namespaces[index]? with
    | none => []
    | some ns =>
      match ns.parent with
      | none => [ns]
      | some parent => ns :: lineageWithin namespaces fuel parent

def lineage (namespaces : Namespaces) (index : Nat) : List UserNamespace :=
  lineageWithin namespaces (index + 1) index

end Namespaces

/-- `MapFromKUID` and `MapFromKGID` over a namespace and its ancestors. -/
def mapFromKID (kind : Kind) (id : Nat) : List UserNamespace → Nat
  | [] => id
  | [_] => id
  | ns :: ancestors => mapID (ns.maps kind).fromParent (mapFromKID kind id ancestors)

def mapToKID (kind : Kind) (id : Nat) : List UserNamespace → Nat
  | [] => id
  | [_] => id
  | ns :: ancestors => mapToKID kind (mapID (ns.maps kind).toParent id) ancestors

structure IDMapEntry where
  firstID : UInt32
  firstParentID : UInt32
  length : UInt32
deriving DecidableEq

structure Credentials where
  userNamespace : Nat
  effectiveKUID : Nat
  effectiveKGID : Nat
  effectiveCaps : Nat
deriving DecidableEq

inductive Errno where
  | eperm | einval | eusers
deriving DecidableEq

def capSetgid : Nat := 6

def capSetuid : Nat := 7

def capSysAdmin : Nat := 21

def capSetfcap : Nat := 31

namespace Namespaces

variable (namespaces : Namespaces)

def hasCapabilityWithin (c : Credentials) (capability : Nat) : Nat → Nat → Bool
  | 0, _ => false
  | fuel + 1, index =>
    if c.userNamespace = index then c.effectiveCaps.testBit capability
    else
      match namespaces[index]? with
      | none => false
      | some ns =>
        match ns.parent with
        | none => false
        | some parent =>
          if c.userNamespace = parent ∧ c.effectiveKUID = ns.owner then true
          else hasCapabilityWithin c capability fuel parent

def hasCapabilityIn (c : Credentials) (capability : Nat) (index : Nat) : Bool :=
  hasCapabilityWithin namespaces c capability (index + 1) index

def mapFromKUID (index kuid : Nat) : Nat :=
  mapFromKID .uid kuid (namespaces.lineage index)

def mapFromKGID (index kgid : Nat) : Nat :=
  mapFromKID .gid kgid (namespaces.lineage index)

def mapToKUID (index uid : Nat) : Nat :=
  mapToKID .uid uid (namespaces.lineage index)

def mapToKGID (index gid : Nat) : Nat :=
  mapToKID .gid gid (namespaces.lineage index)

end Namespaces

def allIDsMapped (set : IDMapSet) (start stop : Nat) : Bool :=
  spanRange set ⟨start, stop⟩ = stop - start

def addEntry (parentMap : IDMapSet) (maps : IDMaps) (entry : IDMapEntry) : Except Errno IDMaps :=
  let lastID := entry.firstID + entry.length
  if lastID ≤ entry.firstID then .error .einval
  else
    let lastParentID := entry.firstParentID + entry.length
    if lastParentID ≤ entry.firstParentID then .error .einval
    else if !allIDsMapped parentMap entry.firstParentID.toNat lastParentID.toNat then
      .error .eperm
    else
      match tryInsertRange idMapFunctions maps.fromParent
          ⟨entry.firstParentID.toNat, lastParentID.toNat⟩ entry.firstID.toNat with
      | none => .error .einval
      | some fromParent =>
        match tryInsertRange idMapFunctions maps.toParent
            ⟨entry.firstID.toNat, lastID.toNat⟩ entry.firstParentID.toNat with
        | none => .error .einval
        | some toParent => .ok ⟨fromParent, toParent⟩

/-- `trySetUIDMap` and `trySetGIDMap`, on the maps of the namespace.  What a failed call leaves
in the maps does not show: the caller removes it. -/
def trySetIDMap (parentMap : IDMapSet) (maps : IDMaps) : List IDMapEntry → Except Errno IDMaps
  | [] => .ok maps
  | entry :: rest =>
    match addEntry parentMap maps entry with
    | .error errno => .error errno
    | .ok maps => trySetIDMap parentMap maps rest

namespace Namespaces

variable (namespaces : Namespaces)

/-- The checks that `SetUIDMap` and `SetGIDMap` share: the map is not set, there is an entry, and
the writer has the capability and is in the namespace or in its parent. -/
def mayWrite (c : Credentials) (capability index : Nat) (parent : Option Nat) (maps : IDMaps)
    (entries : List IDMapEntry) : Except Errno Unit :=
  if !maps.fromParent.isEmpty then .error .eperm
  else if entries.isEmpty then .error .einval
  else if !namespaces.hasCapabilityIn c capability index then .error .eperm
  else if c.userNamespace ≠ index ∧ some c.userNamespace ≠ parent then .error .eperm
  else .ok ()

def mapsOnly (entries : List IDMapEntry) (toKID : Nat → Nat) (kid : Nat) : Bool :=
  match entries with
  | [entry] => toKID entry.firstParentID.toNat = kid && entry.length = 1
  | _ => false

def verifyRootUserMapping (c : Credentials) (index parent : Nat) (ns : UserNamespace)
    (entries : List IDMapEntry) : Bool :=
  if entries.all fun entry => entry.firstParentID ≠ 0 then true
  else if c.userNamespace = index then ns.parentHadSetfcap
  else namespaces.hasCapabilityIn c capSetfcap parent

def finish (index : Nat) (ns : UserNamespace) (kind : Kind) (result : Except Errno IDMaps) :
    Except Errno Unit × Namespaces :=
  match result with
  | .error errno => (.error errno, namespaces.set index (ns.withMaps kind .empty))
  | .ok maps => (.ok (), namespaces.set index (ns.withMaps kind maps))

/-- `none` where there is no such namespace, or the root would be taken for a child. -/
def setUIDMap (c : Credentials) (index : Nat) (entries : List IDMapEntry) :
    Option (Except Errno Unit × Namespaces) :=
  match namespaces[index]? with
  | none => none
  | some ns =>
    match namespaces.mayWrite c capSetuid index ns.parent ns.uidMaps entries with
    | .error errno => some (.error errno, namespaces)
    | .ok () =>
      match ns.parent with
      | none => none
      | some parent =>
        if !namespaces.hasCapabilityIn c capSetuid parent &&
            !(mapsOnly entries (namespaces.mapToKUID parent) c.effectiveKUID && c.effectiveKUID = ns.owner) then
          some (.error .eperm, namespaces)
        else if !namespaces.verifyRootUserMapping c index parent ns entries then
          some (.error .eperm, namespaces)
        else
          match namespaces[parent]? with
          | none => none
          | some above => some (namespaces.finish index ns .uid
              (trySetIDMap above.uidMaps.toParent ns.uidMaps entries))

def setGIDMap (c : Credentials) (index : Nat) (entries : List IDMapEntry) :
    Option (Except Errno Unit × Namespaces) :=
  match namespaces[index]? with
  | none => none
  | some ns =>
    match namespaces.mayWrite c capSetgid index ns.parent ns.gidMaps entries with
    | .error errno => some (.error errno, namespaces)
    | .ok () =>
      match ns.parent with
      | none => none
      | some parent =>
        if !namespaces.hasCapabilityIn c capSetgid parent &&
            !(mapsOnly entries (namespaces.mapToKGID parent) c.effectiveKGID &&
              c.effectiveKUID = ns.owner && !ns.setgroupsAllowed) then
          some (.error .eperm, namespaces)
        else
          match namespaces[parent]? with
          | none => none
          | some above => some (namespaces.finish index ns .gid
              (trySetIDMap above.gidMaps.toParent ns.gidMaps entries))

def setIDMap (kind : Kind) (c : Credentials) (index : Nat) (entries : List IDMapEntry) :
    Option (Except Errno Unit × Namespaces) :=
  match kind with
  | .uid => namespaces.setUIDMap c index entries
  | .gid => namespaces.setGIDMap c index entries

def maxUserNamespaceDepth : Nat := 32

def newChildUserNamespace (c : Credentials) : Option (Except Errno Unit × Namespaces) :=
  match namespaces[c.userNamespace]? with
  | none => none
  | some parent =>
    if (namespaces.lineage c.userNamespace).length ≥ maxUserNamespaceDepth then
      some (.error .eusers, namespaces)
    else if namespaces.mapFromKUID c.userNamespace c.effectiveKUID = noID then
      some (.error .eperm, namespaces)
    else if namespaces.mapFromKGID c.userNamespace c.effectiveKGID = noID then
      some (.error .eperm, namespaces)
    else
      some (.ok (), namespaces ++ [{
        parent := some c.userNamespace
        owner := c.effectiveKUID
        uidMaps := .empty
        gidMaps := .empty
        parentHadSetfcap := namespaces.hasCapabilityIn c capSetfcap c.userNamespace
        setgroupsAllowed := parent.setgroupsAllowed }])

def setSetgroupsAllowed (c : Credentials) (index : Nat) (allow : Bool) :
    Option (Except Errno Unit × Namespaces) :=
  match namespaces[index]? with
  | none => none
  | some ns =>
    if !namespaces.hasCapabilityIn c capSysAdmin index then some (.error .eperm, namespaces)
    else if allow then
      some (if ns.setgroupsAllowed then .ok () else .error .eperm, namespaces)
    else if !ns.gidMaps.fromParent.isEmpty then some (.error .eperm, namespaces)
    else some (.ok (), namespaces.set index { ns with setgroupsAllowed := false })

end Namespaces

inductive Call where
  | newChildUserNamespace (c : Credentials)
  | setIDMap (kind : Kind) (c : Credentials) (index : Nat) (entries : List IDMapEntry)
  | setSetgroupsAllowed (c : Credentials) (index : Nat) (allow : Bool)

def Namespaces.call (namespaces : Namespaces) : Call → Option (Except Errno Unit × Namespaces)
  | .newChildUserNamespace c => namespaces.newChildUserNamespace c
  | .setIDMap kind c index entries => namespaces.setIDMap kind c index entries
  | .setSetgroupsAllowed c index allow => namespaces.setSetgroupsAllowed c index allow

def Namespaces.step (namespaces : Namespaces) (call : Call) : Option Namespaces :=
  (namespaces.call call).map Prod.snd

end BVisor.Auth
