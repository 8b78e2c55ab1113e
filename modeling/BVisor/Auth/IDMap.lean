import BVisor.Auth.UserNamespace

/-! The ID maps of a namespace are inverse to each other, along the whole line of its ancestors. -/

namespace BVisor.Auth

open Option Namespaces List

open Data (Range Segment Fits lookup Lawful findSegment tryInsertRange spanRange run)

def shift (start value id : Nat) : Nat :=
  (value + (id - start)) % 2 ^ 32

def IDMapSet.Valid (set : IDMapSet) : Prop :=
  Fits (fun _ => True) 0 set noID

def image (set : IDMapSet) (id : Nat) : Option Nat :=
  lookup shift set id

theorem idMapFunctions_lawful : Lawful idMapFunctions (fun _ => True) shift where
  merge_good _ _ _ _ _ _ _ _ := trivial
  merge_left first value second other merged key _ _ done _ _ := by
    simp only [idMapFunctions] at done
    split at done
    · cases done
      rfl
    · cases done
  merge_right first value second other merged key _ _ done touches nonempty inside := by
    have after := inside.1
    simp only [idMapFunctions] at done
    split at done
    · next same =>
      cases done
      rw [← same, shift, shift, Nat.mod_add_mod, Range.length]
      congr 1
      omega
    · cases done
  split_good _ _ _ _ := ⟨trivial, trivial⟩
  split_left _ _ _ _ _ _ _ := rfl
  split_right range value middle key after late _ := by
    simp only [idMapFunctions, shift, Nat.mod_add_mod]
    congr 1
    omega

variable {set : IDMapSet} {maps : IDMaps} {id other : Nat} {parentMap : IDMapSet} {added : IDMaps}

theorem IDMapSet.Valid.image_lt (valid : set.Valid) (mapped : image set id ≠ none) : id < noID := by
  apply Nat.lt_of_not_le
  intro large
  exact mapped (valid.lookup_outside (.inr large))

theorem mapID_eq (valid : set.Valid) : mapID set id = (image set id).getD noID := by
  by_cases none : id = noID
  · rw [mapID, if_pos none, image, valid.lookup_outside (.inr (Nat.le_of_eq none.symm))]
    rfl
  · rw [mapID, if_neg none, image, Data.lookup_eq_find valid]
    cases findSegment set id <;> rfl

theorem mapID_noID : mapID set noID = noID :=
  if_pos rfl

structure IDMaps.Paired (maps : IDMaps) : Prop where
  validFrom : maps.fromParent.Valid
  validTo : maps.toParent.Valid
  inverse : ∀ id parentID, image maps.toParent id = some parentID ↔ image maps.fromParent parentID = some id

namespace IDMaps.Paired

theorem mapID_to (paired : maps.Paired) (mapped : mapID maps.toParent id ≠ noID) :
    mapID maps.fromParent (mapID maps.toParent id) = id := by
  rw [mapID_eq paired.validTo] at mapped ⊢
  cases found : image maps.toParent id with
  | none => exact absurd (by rw [found]; rfl) mapped
  | some parentID =>
    rw [getD_some, mapID_eq paired.validFrom, (paired.inverse id parentID).mp found]
    rfl

theorem swap (paired : maps.Paired) : IDMaps.Paired ⟨maps.toParent, maps.fromParent⟩ :=
  ⟨paired.validTo, paired.validFrom, fun id parentID => (paired.inverse parentID id).symm⟩

theorem mapID_from (paired : maps.Paired) (mapped : mapID maps.fromParent id ≠ noID) :
    mapID maps.toParent (mapID maps.fromParent id) = id :=
  paired.swap.mapID_to mapped

theorem empty : IDMaps.empty.Paired :=
  ⟨Nat.zero_le _, Nat.zero_le _, fun _ _ => ⟨fun found => (nomatch found), fun found => (nomatch found)⟩⟩

theorem toParent_nil (paired : maps.Paired) (unset : maps.fromParent = []) : maps.toParent = [] := by
  cases full : maps.toParent with
  | nil => rfl
  | cons segment rest =>
    have valid := paired.validTo
    rw [full] at valid
    have found : image maps.toParent segment.start =
        some (shift segment.start segment.value segment.start) := by
      rw [full]
      exact if_pos ⟨Nat.le_refl _, valid.2.1⟩
    have back := (paired.inverse _ _).mp found
    rw [unset] at back
    cases back

end IDMaps.Paired

/-- Every ID of the parent that is mapped to is mapped by the parent. -/
def Inside (maps : IDMaps) (parentMap : IDMapSet) : Prop :=
  ∀ id parentID, image maps.toParent id = some parentID → image parentMap parentID ≠ none

theorem toNat_add_of_lt {first length : UInt32} (unwrapped : ¬ first + length ≤ first) :
    (first + length).toNat = first.toNat + length.toNat ∧ first.toNat < (first + length).toNat ∧
      (first + length).toNat ≤ noID := by
  have below := first.toNat_lt
  have small := length.toNat_lt
  simp only [UInt32.le_iff_toNat_le, UInt32.toNat_add] at unwrapped ⊢
  simp only [noID]
  omega

theorem inverse_extend {there back there' back' : Nat → Option Nat} {first firstParent length : Nat}
    (inverse : ∀ id parentID, there id = some parentID ↔ back parentID = some id)
    (freeThere : ∀ id, first ≤ id → id < first + length → there id = none)
    (freeBack : ∀ id, firstParent ≤ id → id < firstParent + length → back id = none)
    (extended : ∀ id, there' id =
      if first ≤ id ∧ id < first + length then some (firstParent + (id - first)) else there id)
    (extendedBack : ∀ id, back' id =
      if firstParent ≤ id ∧ id < firstParent + length then some (first + (id - firstParent))
      else back id) (id parentID : Nat) :
    there' id = some parentID ↔ back' parentID = some id := by
  rw [extended, extendedBack]
  by_cases new : first ≤ id ∧ id < first + length
  · rw [if_pos new]
    by_cases newParent : firstParent ≤ parentID ∧ parentID < firstParent + length
    · rw [if_pos newParent, some.injEq, some.injEq]
      omega
    rw [if_neg newParent, ← inverse, freeThere id new.1 new.2, some.injEq]
    constructor
    · intro same
      omega
    · intro impossible
      cases impossible
  rw [if_neg new]
  by_cases newParent : firstParent ≤ parentID ∧ parentID < firstParent + length
  · rw [if_pos newParent, inverse, freeBack parentID newParent.1 newParent.2, some.injEq]
    constructor
    · intro impossible
      cases impossible
    · intro same
      omega
  · rw [if_neg newParent]
    exact inverse id parentID

theorem image_insert {first value : UInt32} {length : UInt32} {inserted : IDMapSet}
    (valid : set.Valid) (unwrapped : ¬ first + length ≤ first) (valueUnwrapped : ¬ value + length ≤ value)
    (done : tryInsertRange idMapFunctions set ⟨first.toNat, (first + length).toNat⟩ value.toNat =
      some inserted) :
    inserted.Valid ∧
      (∀ id, first.toNat ≤ id → id < first.toNat + length.toNat → image set id = none) ∧
      ∀ id, image inserted id =
        if first.toNat ≤ id ∧ id < first.toNat + length.toNat then
          some (value.toNat + (id - first.toNat))
        else image set id := by
  obtain ⟨last, nonempty, bounded⟩ := toNat_add_of_lt unwrapped
  obtain ⟨lastValue, _, valueBounded⟩ := toNat_add_of_lt valueUnwrapped
  obtain ⟨insertedValid, free, looks⟩ := Data.tryInsertRange_spec idMapFunctions_lawful valid
    nonempty bounded trivial done
  refine ⟨insertedValid, fun id after early => free id ⟨after, by simp only [last]; exact early⟩,
    fun id => ?_⟩
  rw [image, looks id]
  simp only [Range.Contains, last]
  by_cases inside : first.toNat ≤ id ∧ id < first.toNat + length.toNat
  · rw [if_pos inside, if_pos inside, shift, Nat.mod_eq_of_lt]
    simp only [noID] at valueBounded
    omega
  · rw [if_neg inside, if_neg inside, image]

theorem addEntry_paired {entry : IDMapEntry}
    (paired : maps.Paired) (inside : Inside maps parentMap) (parentValid : parentMap.Valid)
    (done : addEntry parentMap maps entry = .ok added) :
    added.Paired ∧ Inside added parentMap := by
  simp only [addEntry] at done
  split at done
  · cases done
  next unwrapped =>
  split at done
  · cases done
  next parentUnwrapped =>
  split at done
  · cases done
  next covered =>
  split at done
  · cases done
  next fromParent insertedFrom =>
  split at done
  · cases done
  next toParent insertedTo =>
  cases done
  obtain ⟨validFrom, freeFrom, looksFrom⟩ := image_insert paired.validFrom parentUnwrapped unwrapped insertedFrom
  obtain ⟨validTo, freeTo, looksTo⟩ := image_insert paired.validTo unwrapped parentUnwrapped insertedTo
  refine ⟨⟨validFrom, validTo,
    inverse_extend paired.inverse freeTo freeFrom looksTo looksFrom⟩, fun id parentID found => ?_⟩
  have found : image toParent id = some parentID := found
  rw [looksTo] at found
  split at found
  · next new =>
    obtain ⟨last, _, _⟩ := toNat_add_of_lt parentUnwrapped
    have full : spanRange parentMap ⟨entry.firstParentID.toNat,
        (entry.firstParentID + entry.length).toNat⟩ =
          (entry.firstParentID + entry.length).toNat - entry.firstParentID.toNat := by
      simpa [allIDsMapped] using covered
    cases found
    exact Data.spanRange_full parentValid full ⟨by simp only; omega, by simp only [last]; omega⟩
  · exact inside id parentID found

theorem trySetIDMap_paired {entries : List IDMapEntry}
    (paired : maps.Paired) (inside : Inside maps parentMap) (parentValid : parentMap.Valid)
    (done : trySetIDMap parentMap maps entries = .ok added) :
    added.Paired ∧ Inside added parentMap := by
  induction entries generalizing maps with
  | nil =>
    cases done
    exact ⟨paired, inside⟩
  | cons entry rest ih =>
    simp only [trySetIDMap] at done
    split at done
    · cases done
    · next more addedOne =>
      obtain ⟨pairedMore, insideMore⟩ := addEntry_paired paired inside parentValid addedOne
      exact ih pairedMore insideMore done

def rootMaps : IDMaps :=
  ⟨[⟨⟨0, noID⟩, 0⟩], [⟨⟨0, noID⟩, 0⟩]⟩

theorem rootMaps_image (small : id < noID) : image rootMaps.toParent id = some id := by
  have inside : (Range.mk 0 noID).Contains id := ⟨Nat.zero_le id, small⟩
  have looked : image rootMaps.toParent id = some (shift 0 0 id) := if_pos inside
  rw [looked, shift, Nat.mod_eq_of_lt]
  · simp
  · simp only [noID] at small
    omega

theorem rootMaps_paired : rootMaps.Paired := by
  have valid : IDMapSet.Valid rootMaps.toParent := by
    simp [IDMapSet.Valid, rootMaps, Fits, noID]
  have swap : ∀ id parentID, image rootMaps.toParent id = some parentID →
      image rootMaps.toParent parentID = some id := by
    intro id parentID found
    have small := valid.image_lt (found ▸ some_ne_none parentID)
    rw [rootMaps_image small] at found
    cases found
    exact rootMaps_image small
  exact ⟨valid, valid, fun id parentID => ⟨swap id parentID, swap parentID id⟩⟩

/-- A namespace and its ancestors: each maps into what the next one maps, and the root maps every
ID to itself. -/
def Linked (kind : Kind) : List UserNamespace → Prop
  | [] => False
  | [root] => root.maps kind = rootMaps
  | ns :: parent :: rest => (ns.maps kind).Paired ∧
      Inside (ns.maps kind) (parent.maps kind).toParent ∧ Linked kind (parent :: rest)

section Line

variable {kind : Kind} {line : List UserNamespace}

theorem mapToKID_noID : mapToKID kind noID line = noID := by
  induction line with
  | nil => rfl
  | cons ns rest ih =>
    cases rest with
    | nil => rfl
    | cons parent rest =>
      rw [mapToKID, mapID_noID]
      · exact ih
      · exact cons_ne_nil parent rest

theorem mapFromKID_mapToKID (linked : Linked kind line) (mapped : mapToKID kind id line ≠ noID) :
    mapFromKID kind (mapToKID kind id line) line = id := by
  induction line generalizing id with
  | nil => exact linked.elim
  | cons ns rest ih =>
    cases rest with
    | nil => rfl
    | cons parent rest =>
      obtain ⟨paired, _, linked⟩ := linked
      simp only [mapToKID, mapFromKID] at mapped ⊢
      rw [ih linked mapped]
      apply paired.mapID_to
      intro unmapped
      rw [unmapped, mapToKID_noID] at mapped
      exact mapped rfl

theorem mapToKID_mapFromKID (linked : Linked kind line) (mapped : mapFromKID kind id line ≠ noID) :
    mapToKID kind (mapFromKID kind id line) line = id := by
  induction line with
  | nil => exact linked.elim
  | cons ns rest ih =>
    cases rest with
    | nil => rfl
    | cons parent rest =>
      obtain ⟨paired, _, linked⟩ := linked
      simp only [mapToKID, mapFromKID] at mapped ⊢
      rw [paired.mapID_from mapped]
      apply ih linked
      intro unmapped
      rw [unmapped, mapID_noID] at mapped
      exact mapped rfl

def mapUp (kind : Kind) (id : Nat) (line : List UserNamespace) : Nat :=
  line.foldl (fun id ns => mapID (ns.maps kind).toParent id) id

theorem mapUp_ne_noID {ns : UserNamespace} {rest : List UserNamespace}
    (linked : Linked kind (ns :: rest)) (mapped : image (ns.maps kind).toParent id ≠ none)
    (levels : Nat) : mapUp kind id ((ns :: rest).take levels) ≠ noID := by
  induction rest generalizing ns id levels with
  | nil =>
    have same : ns.maps kind = rootMaps := linked
    rw [same] at mapped
    have small := rootMaps_paired.validTo.image_lt mapped
    cases levels with
    | zero => exact Nat.ne_of_lt small
    | succ levels =>
      rw [take_of_length_le (by simp)]
      simp only [mapUp, foldl, same]
      rw [mapID_eq rootMaps_paired.validTo, rootMaps_image small]
      exact Nat.ne_of_lt small
  | cons parent rest ih =>
    obtain ⟨paired, inside, linked⟩ := linked
    cases levels with
    | zero => exact Nat.ne_of_lt (paired.validTo.image_lt mapped)
    | succ levels =>
      obtain ⟨parentID, found⟩ := ne_none_iff_exists'.mp mapped
      have step : mapID (ns.maps kind).toParent id = parentID := by
        rw [mapID_eq paired.validTo, found]
        rfl
      show mapUp kind (mapID (ns.maps kind).toParent id) ((parent :: rest).take levels) ≠ noID
      rw [step]
      exact ih linked (inside id parentID found) levels

end Line

def Placed (namespaces : Namespaces) (index : Nat) (ns : UserNamespace) : Prop :=
  match ns.parent with
  | none => ∀ kind, ns.maps kind = rootMaps
  | some parent => parent < index ∧ ∃ above, namespaces[parent]? = some above ∧
      ∀ kind, (ns.maps kind).Paired ∧ Inside (ns.maps kind) (above.maps kind).toParent

def Namespaces.Sound (namespaces : Namespaces) : Prop :=
  ∀ index ns, namespaces[index]? = some ns → Placed namespaces index ns

section Tree

variable {namespaces after : Namespaces} {kind : Kind} {index : Nat} {ns : UserNamespace}

/-- What maps into a namespace still does. -/
def Namespaces.Keeps (namespaces after : Namespaces) : Prop :=
  ∀ (parent : Nat) (above : UserNamespace), namespaces[parent]? = some above →
    ∃ above' : UserNamespace, after[parent]? = some above' ∧ ∀ childMaps kind,
      Inside childMaps (above.maps kind).toParent → Inside childMaps (above'.maps kind).toParent

theorem Placed.stays (placed : Placed namespaces index ns) (stays : namespaces.Keeps after) : Placed after index ns := by
  simp only [Placed] at placed ⊢
  split at placed
  · exact placed
  · obtain ⟨earlier, above, foundAbove, both⟩ := placed
    obtain ⟨above', foundAbove', kept⟩ := stays _ above foundAbove
    exact ⟨earlier, above', foundAbove', fun kind => ⟨(both kind).1, kept _ kind (both kind).2⟩⟩

section

variable (sound : namespaces.Sound)
include sound

section

variable (found : namespaces[index]? = some ns)
include found

theorem Namespaces.Sound.paired (kind : Kind) : (ns.maps kind).Paired := by
  have placed := sound index ns found
  cases parentOf : ns.parent with
  | none =>
    simp only [Placed, parentOf] at placed
    rw [placed kind]
    exact rootMaps_paired
  | some parent =>
    simp only [Placed, parentOf] at placed
    obtain ⟨_, above, _, both⟩ := placed
    exact (both kind).1

theorem Namespaces.Sound.linkedWithin {fuel : Nat} (enough : index < fuel) :
    ∃ ancestors, namespaces.lineageWithin fuel index = ns :: ancestors ∧
      Linked kind (ns :: ancestors) := by
  induction fuel generalizing index ns with
  | zero => exact absurd enough (Nat.not_lt_zero _)
  | succ fuel ih =>
    have placed := sound index ns found
    cases parentOf : ns.parent with
    | none =>
      simp only [Placed, parentOf] at placed
      exact ⟨[], by simp only [lineageWithin, found, parentOf], placed kind⟩
    | some parent =>
      simp only [Placed, parentOf] at placed
      obtain ⟨earlier, above, foundAbove, both⟩ := placed
      obtain ⟨ancestors, line, linked⟩ := ih foundAbove (by omega)
      exact ⟨above :: ancestors, by simp only [lineageWithin, found, parentOf, line],
        (both kind).1, (both kind).2, linked⟩

theorem Namespaces.Sound.linked :
    ∃ ancestors, namespaces.lineage index = ns :: ancestors ∧ Linked kind (ns :: ancestors) :=
  sound.linkedWithin found (Nat.lt_succ_self index)

theorem Namespaces.Sound.update {new : UserNamespace} (sameParent : new.parent = ns.parent)
    (maps : ∀ kind, new.maps kind = ns.maps kind ∨
      (ns.maps kind).toParent = [] ∧ ∃ parent above, ns.parent = some parent ∧
        namespaces[parent]? = some above ∧ (new.maps kind).Paired ∧
        Inside (new.maps kind) (above.maps kind).toParent) :
    Sound (namespaces.set index new) := by
  have inRange : index < namespaces.length := (List.getElem?_eq_some_iff.mp found).1
  have here : (namespaces.set index new)[index]? = some new := by
    rw [getElem?_set_self inRange]
  -- what a child maps to stays mapped: the map of its parent was empty or has not changed
  have childrenInside : ∀ (childMaps : IDMaps) kind, Inside childMaps (ns.maps kind).toParent →
      Inside childMaps (new.maps kind).toParent := by
    intro childMaps kind inside
    obtain same | ⟨unset, _⟩ := maps kind
    · rw [same]
      exact inside
    · intro id parentID mapped
      have impossible := inside id parentID mapped
      rw [unset] at impossible
      exact absurd rfl impossible
  have aboveStays : Keeps namespaces (namespaces.set index new) := by
    intro parent above foundAbove
    by_cases same : parent = index
    · subst same
      rw [found] at foundAbove
      cases foundAbove
      exact ⟨new, here, childrenInside⟩
    · exact ⟨above, by rw [getElem?_set_ne (Ne.symm same), foundAbove],
        fun _ _ inside => inside⟩
  intro position other foundOther
  by_cases same : position = index
  · subst same
    rw [here] at foundOther
    cases foundOther
    apply Placed.stays _ aboveStays
    have placed := sound position ns found
    simp only [Placed, sameParent] at placed ⊢
    cases parentOf : ns.parent with
    | none =>
      simp only [parentOf] at placed ⊢
      intro kind
      obtain unchanged | ⟨_, parent, _, impossible, _⟩ := maps kind
      · rw [unchanged]
        exact placed kind
      · rw [parentOf] at impossible
        cases impossible
    | some parent =>
      simp only [parentOf] at placed ⊢
      obtain ⟨earlier, above, foundAbove, both⟩ := placed
      refine ⟨earlier, above, foundAbove, fun kind => ?_⟩
      obtain unchanged | ⟨_, otherParent, otherAbove, parentIs, aboveIs, paired, inside⟩ := maps kind
      · rw [unchanged]
        exact both kind
      rw [parentOf] at parentIs
      cases parentIs
      rw [foundAbove] at aboveIs
      cases aboveIs
      exact ⟨paired, inside⟩
  · rw [getElem?_set_ne (Ne.symm same)] at foundOther
    exact (sound position other foundOther).stays aboveStays

end

end

variable {entries : List IDMapEntry} {c : Credentials}

theorem mayWrite_ok {capability : Nat} {parent : Option Nat}
    (allowed : namespaces.mayWrite c capability index parent maps entries = .ok ()) :
    maps.fromParent = [] := by
  simp only [mayWrite] at allowed
  split at allowed
  · cases allowed
  · next unset => simpa using unset

variable {result : Except Errno Unit}

theorem setIDMap_cases (called : namespaces.setIDMap kind c index entries = some (result, after)) :
    (∃ errno, result = .error errno ∧ after = namespaces) ∨
      ∃ ns parent above, namespaces[index]? = some ns ∧ (ns.maps kind).fromParent = [] ∧
        ns.parent = some parent ∧ namespaces[parent]? = some above ∧
        (result, after) = namespaces.finish index ns kind
          (trySetIDMap (above.maps kind).toParent (ns.maps kind) entries) := by
  cases found : namespaces[index]? with
  | none =>
    cases kind <;> simp [setIDMap, setUIDMap, setGIDMap, found] at called
  | some ns =>
    cases kind with
    | uid =>
      simp only [setIDMap, setUIDMap, found] at called
      split at called
      · cases called
        exact .inl ⟨_, rfl, rfl⟩
      next allowed =>
      have unset := mayWrite_ok allowed
      split at called
      · cases called
      next parent parentOf =>
      split at called
      · cases called
        exact .inl ⟨_, rfl, rfl⟩
      split at called
      · cases called
        exact .inl ⟨_, rfl, rfl⟩
      split at called
      · cases called
      next above foundAbove =>
      exact .inr ⟨ns, parent, above, rfl, unset, parentOf, foundAbove, (Option.some.inj called).symm⟩
    | gid =>
      simp only [setIDMap, setGIDMap, found] at called
      split at called
      · cases called
        exact .inl ⟨_, rfl, rfl⟩
      next allowed =>
      have unset := mayWrite_ok allowed
      split at called
      · cases called
      next parent parentOf =>
      split at called
      · cases called
        exact .inl ⟨_, rfl, rfl⟩
      split at called
      · cases called
      next above foundAbove =>
      exact .inr ⟨ns, parent, above, rfl, unset, parentOf, foundAbove, (Option.some.inj called).symm⟩

theorem maps_withMaps (ns : UserNamespace) (kind other : Kind) (maps : IDMaps) :
    (ns.withMaps kind maps).maps other = if other = kind then maps else ns.maps other := by
  cases kind <;> cases other <;> rfl

theorem parent_withMaps (ns : UserNamespace) (kind : Kind) (maps : IDMaps) :
    (ns.withMaps kind maps).parent = ns.parent := by
  cases kind <;> rfl

theorem withMaps_same (ns : UserNamespace) (kind : Kind) : ns.withMaps kind (ns.maps kind) = ns := by
  cases kind <;> rfl

section

variable (sound : namespaces.Sound)
include sound

theorem setIDMap_error {errno : Errno}
    (called : namespaces.setIDMap kind c index entries = some (.error errno, after)) :
    after = namespaces := by
  obtain ⟨_, _, same⟩ | ⟨ns, parent, above, found, unset, _, _, finished⟩ := setIDMap_cases called
  · exact same
  have unsetTo := (sound.paired found kind).toParent_nil unset
  have empty : ns.maps kind = .empty := by
    cases maps : ns.maps kind
    simp only [maps] at unset unsetTo
    rw [unset, unsetTo]
    rfl
  simp only [finish] at finished
  split at finished
  · cases finished
    obtain ⟨inRange, same⟩ := List.getElem?_eq_some_iff.mp found
    rw [← empty, withMaps_same, ← same]
    exact List.set_getElem_self inRange
  · cases finished

theorem setIDMap_sound
    (called : namespaces.setIDMap kind c index entries = some (result, after)) : after.Sound := by
  cases result with
  | error errno =>
    rw [setIDMap_error sound called]
    exact sound
  | ok done =>
    obtain ⟨_, impossible, _⟩ |
      ⟨ns, parent, above, found, unset, parentOf, foundAbove, finished⟩ := setIDMap_cases called
    · cases impossible
    have paired := sound.paired found kind
    have unsetTo := paired.toParent_nil unset
    simp only [finish] at finished
    split at finished
    · cases finished
    next maps added =>
    cases finished
    have nothing : Inside (ns.maps kind) (above.maps kind).toParent := by
      intro id parentID mapped
      rw [unsetTo] at mapped
      cases mapped
    obtain ⟨newPaired, newInside⟩ := trySetIDMap_paired paired nothing
      (sound.paired foundAbove kind).validTo added
    apply sound.update found (parent_withMaps ns kind maps)
    intro other
    rw [maps_withMaps]
    split
    · next same =>
      subst same
      exact .inr ⟨unsetTo, parent, above, parentOf, foundAbove, newPaired, newInside⟩
    · exact .inl rfl

theorem newChildUserNamespace_sound
    (called : namespaces.newChildUserNamespace c = some (result, after)) : after.Sound := by
  simp only [newChildUserNamespace] at called
  split at called
  · cases called
  next parent foundParent =>
  split at called
  · cases called
    exact sound
  split at called
  · cases called
    exact sound
  split at called
  · cases called
    exact sound
  cases called
  have inRange : c.userNamespace < namespaces.length := (List.getElem?_eq_some_iff.mp foundParent).1
  have keeps : ∀ {position : Nat} {other : UserNamespace} (more : Namespaces),
      namespaces[position]? = some other → (namespaces ++ more)[position]? = some other := by
    intro position other more foundOther
    rw [List.getElem?_append_left (List.getElem?_eq_some_iff.mp foundOther).1, foundOther]
  intro position other foundOther
  by_cases old : position < namespaces.length
  · rw [getElem?_append_left old] at foundOther
    exact (sound position other foundOther).stays fun _ above foundAbove =>
      ⟨above, keeps _ foundAbove, fun _ _ inside => inside⟩
  rw [getElem?_append_right (Nat.le_of_not_lt old)] at foundOther
  have last : position - namespaces.length = 0 := by
    have := (List.getElem?_eq_some_iff.mp foundOther).1
    simp only [length_singleton] at this
    omega
  rw [last] at foundOther
  cases foundOther
  refine ⟨by omega, parent, keeps _ foundParent, fun kind => ?_⟩
  cases kind <;> exact ⟨.empty, fun _ _ mapped => (nomatch mapped)⟩

theorem setSetgroupsAllowed_sound {allow : Bool}
    (called : namespaces.setSetgroupsAllowed c index allow = some (result, after)) :
    after.Sound := by
  simp only [setSetgroupsAllowed] at called
  split at called
  · cases called
  next ns found =>
  split at called
  · cases called
    exact sound
  split at called
  · cases called
    exact sound
  split at called
  · cases called
    exact sound
  cases called
  exact sound.update found rfl fun kind => .inl (by cases kind <;> rfl)

theorem Namespaces.step_sound {call : Call} (stepped : namespaces.step call = some after) : after.Sound := by
  obtain ⟨⟨result, next⟩, called, rfl⟩ := map_eq_some_iff.mp stepped
  cases call with
  | newChildUserNamespace c => exact newChildUserNamespace_sound sound called
  | setIDMap kind c index entries => exact setIDMap_sound sound called
  | setSetgroupsAllowed c index allow => exact setSetgroupsAllowed_sound sound called

end

theorem sound_root : Namespaces.Sound [newRootUserNamespace] := by
  intro index ns found
  obtain ⟨inRange, rfl⟩ := List.getElem?_eq_some_iff.mp found
  have first : index = 0 := by simpa using inRange
  subst first
  intro kind
  cases kind <;> rfl

end Tree

/-- In every tree of namespaces that calls lead to, for user and group IDs: the map of a namespace
to the root is injective and inverse to the map from the root, an ID that is mapped has a mapping
in each ancestor, and a call that returns an error changes nothing. -/
theorem id_maps_are_partial_bijections {namespaces : Namespaces} (calls : List Call)
    (ran : run Namespaces.step [newRootUserNamespace] calls = some namespaces) (kind : Kind)
    (index : Nat) (ns : UserNamespace) (found : namespaces[index]? = some ns) :
    (∀ id other, mapToKID kind id (namespaces.lineage index) ≠ noID →
        mapToKID kind id (namespaces.lineage index) =
          mapToKID kind other (namespaces.lineage index) → id = other) ∧
      (∀ id, mapToKID kind id (namespaces.lineage index) ≠ noID →
        mapFromKID kind (mapToKID kind id (namespaces.lineage index))
          (namespaces.lineage index) = id) ∧
      (∀ kid, mapFromKID kind kid (namespaces.lineage index) ≠ noID →
        mapToKID kind (mapFromKID kind kid (namespaces.lineage index))
          (namespaces.lineage index) = kid) ∧
      (∀ id, mapID (ns.maps kind).toParent id ≠ noID →
        ∀ levels, mapUp kind id ((namespaces.lineage index).take levels) ≠ noID) ∧
      ∀ c entries errno after,
        namespaces.setIDMap kind c index entries = some (.error errno, after) →
          after = namespaces := by
  have sound : namespaces.Sound := Data.run_invariant Namespaces.Sound
    (fun _ _ _ sound stepped => Namespaces.step_sound sound stepped) ran sound_root
  obtain ⟨ancestors, line, linked⟩ := @Namespaces.Sound.linked _ kind _ _ sound found
  rw [line]
  refine ⟨fun id other mapped same => ?_, fun id => mapFromKID_mapToKID linked,
    fun kid => mapToKID_mapFromKID linked, fun id mapped levels => ?_,
    fun c entries errno after => setIDMap_error sound⟩
  · rw [← mapFromKID_mapToKID linked mapped, same, mapFromKID_mapToKID linked (same ▸ mapped)]
  · apply mapUp_ne_noID linked
    intro unmapped
    rw [mapID_eq (sound.paired found kind).validTo, unmapped] at mapped
    exact mapped rfl

def rootCredentials : Credentials :=
  ⟨0, 0, 0, 2 ^ 32 - 1⟩

def mappedChild : List Call :=
  [.newChildUserNamespace rootCredentials, .setIDMap .uid rootCredentials 1 [⟨0, 100, 10⟩]]

theorem mappedChild_bijection :
    ∃ namespaces, run Namespaces.step [newRootUserNamespace] mappedChild = some namespaces ∧
      namespaces.mapToKUID 1 3 = 103 ∧ namespaces.mapFromKUID 1 103 = 3 := by
  refine ⟨_, rfl, by decide, ?_⟩
  exact (id_maps_are_partial_bijections mappedChild rfl .uid 1 _ rfl).2.1 3 (by decide)

/-- A second call is refused, and the namespace keeps the map of the first. -/
theorem second_map_refused :
    ∃ namespaces after, run Namespaces.step [newRootUserNamespace] mappedChild =
        some namespaces ∧
      namespaces.setUIDMap rootCredentials 1 [⟨0, 200, 10⟩] = some (.error .eperm, after) ∧
      after.mapToKUID 1 3 = 103 :=
  ⟨_, _, rfl, rfl, by decide⟩

end BVisor.Auth
