import BVisor.State.Wire

/-! What is saved is loaded again. -/

namespace BVisor.State

open Option hiding map_map

open List

variable {rest : Bytes}

/-- `load` reads `item` off `bytes`, whatever follows them. -/
def Reads {α : Type} (load : Bytes → Option (α × Bytes)) (item : α) (bytes : Bytes) : Prop :=
  ∀ rest, load (bytes ++ rest) = some (item, rest)

/-! Integers. -/

theorem low_bits (byte : UInt8) :
    ¬ (byte ||| 0x80) < 0x80 ∧ ((byte ||| 0x80) &&& 0x7f).toNat = byte.toNat % 128 := by
  have high : 128 ≤ byte.toNat ||| 128 := Nat.right_le_or
  have low : (byte.toNat ||| 2 ^ 7) &&& (2 ^ 7 - 1) = byte.toNat % 2 ^ 7 := by
    rw [Nat.and_two_pow_sub_one_eq_mod, Nat.or_mod_two_pow, Nat.mod_self, Nat.or_zero]
  rw [UInt8.lt_iff_toNat_lt, UInt8.toNat_and, UInt8.toNat_or]
  exact ⟨Nat.not_lt.mpr high, low⟩

theorem or_shifted {value shift digit : Nat} (below : value < 2 ^ shift) (fits : digit * 2 ^ shift < 2 ^ 64) :
    value ||| (digit <<< shift) % 2 ^ 64 = value + digit * 2 ^ shift := by
  rw [Nat.shiftLeft_eq, Nat.mod_eq_of_lt fits, Nat.or_comm, Nat.mul_comm,
    ← Nat.two_pow_add_eq_or_of_lt below, Nat.add_comm]

theorem loadUintFrom_last {value digit shift left : Nat} (below : value < 2 ^ shift)
    (fits : digit * 2 ^ shift < 2 ^ 64) (small : digit < 128) (top : left = 0 → digit ≤ 1) :
    loadUintFrom (left + 1) value shift (UInt8.ofNat digit :: rest) =
      some (value + digit * 2 ^ shift, rest) := by
  have byte : (UInt8.ofNat digit).toNat = digit := by
    rw [UInt8.toNat_ofNat']
    omega
  have low : UInt8.ofNat digit < 0x80 := by
    rw [UInt8.lt_iff_toNat_lt, byte]
    exact small
  have inRange : ¬ (left = 0 ∧ UInt8.ofNat digit > 1) := by
    intro ⟨last, large⟩
    have bound : 1 < (UInt8.ofNat digit).toNat := UInt8.lt_iff_toNat_lt.mp large
    have := top last
    omega
  rw [loadUintFrom, if_pos low, if_neg inRange, byte, or_shifted below fits]

theorem loadUintFrom_saveUintFrom {value acc shift left : Nat} (below : acc < 2 ^ shift)
    (fits : value * 2 ^ shift < 2 ^ 64) (room : shift + 7 * left = 63) :
    loadUintFrom (left + 1) acc shift (saveUintFrom (left + 1) value ++ rest) =
      some (acc + value * 2 ^ shift, rest) := by
  induction left generalizing value acc shift with
  | zero =>
    have last : shift = 63 := by omega
    subst last
    rw [saveUintFrom, if_neg (by omega)]
    exact loadUintFrom_last below fits (by omega) (fun _ => by omega)
  | succ left ih =>
    by_cases more : 0x80 ≤ value
    · obtain ⟨high, low⟩ := low_bits (UInt8.ofNat value)
      have split : value = value / 128 * 128 + value % 128 := (Nat.div_add_mod' value 128).symm
      have next : 2 ^ (shift + 7) = 128 * 2 ^ shift := by rw [Nat.pow_add, Nat.mul_comm]
      have digitFits : value % 128 * 2 ^ shift ≤ value * 2 ^ shift := Nat.mul_le_mul_right _ (Nat.mod_le _ _)
      have digitBelow : value % 128 * 2 ^ shift ≤ 127 * 2 ^ shift := Nat.mul_le_mul_right _ (by omega)
      have digit : (UInt8.ofNat value).toNat % 128 = value % 128 := by
        rw [UInt8.toNat_ofNat']
        omega
      have whole : value / 128 * 2 ^ (shift + 7) + value % 128 * 2 ^ shift =
          value * 2 ^ shift := by
        rw [next, ← Nat.mul_assoc, ← Nat.add_mul, ← split]
      rw [saveUintFrom, if_pos more, cons_append, loadUintFrom, if_neg high, low, digit,
        or_shifted below (by omega), show value >>> 7 = value / 128 from
          Nat.shiftRight_eq_div_pow value 7, ih (by omega) (by omega) (by omega)]
      congr 2
      omega
    · rw [saveUintFrom, if_neg more]
      exact loadUintFrom_last below fits (by omega) (fun none => by omega)

theorem loadUint_saveUint (value : UInt64) : Reads loadUint value (saveUint value) := by
  intro rest
  have fits : value.toNat * 2 ^ 0 < 2 ^ 64 := by
    have := value.toNat_lt
    omega
  rw [loadUint, saveUint, loadUintFrom_saveUintFrom (by decide) fits (by decide)]
  simp

theorem saveUint_length (value : UInt64) : 0 < (saveUint value).length := by
  rw [saveUint, saveUintFrom]
  split <;> simp

theorem zigzag_positive (value : BitVec 64) (positive : value.msb = false) :
    value <<< 1 &&& 1 = 0 ∧ value <<< 1 >>> 1 = value := by
  have small : value.toNat < 2 ^ 63 := by
    have := BitVec.msb_eq_false_iff_two_mul_lt.mp positive
    omega
  constructor
  · apply BitVec.eq_of_toNat_eq
    simp [BitVec.toNat_shiftLeft, Nat.shiftLeft_eq]
  · apply BitVec.eq_of_toNat_eq
    simp [BitVec.toNat_shiftLeft, BitVec.toNat_ushiftRight, Nat.shiftLeft_eq, Nat.shiftRight_eq_div_pow]
    omega

theorem zigzag_negative (value : BitVec 64) (negative : value.msb = true) :
    ~~~(value <<< 1) &&& 1 ≠ 0 ∧ ~~~(~~~(value <<< 1) >>> 1) = value := by
  have large : 2 ^ 63 ≤ value.toNat := by
    have := BitVec.msb_eq_true_iff_two_mul_ge.mp negative
    omega
  constructor
  · intro zero
    have number := congrArg BitVec.toNat zero
    simp [BitVec.toNat_shiftLeft, Nat.shiftLeft_eq] at number
    omega
  · apply BitVec.eq_of_toNat_eq
    simp [BitVec.toNat_shiftLeft, BitVec.toNat_ushiftRight, Nat.shiftLeft_eq, Nat.shiftRight_eq_div_pow]
    omega

theorem loadInt_saveInt (value : BitVec 64) : Reads loadInt value (saveInt value) := by
  intro rest
  cases sign : value.msb with
  | false =>
    obtain ⟨even, half⟩ := zigzag_positive value sign
    rw [saveInt, if_neg (by simp [sign]), loadInt, loadUint_saveUint _ rest]
    simp only [bind_eq_bind, bind_some]
    rw [if_neg (not_not_intro even), half]
  | true =>
    obtain ⟨odd, half⟩ := zigzag_negative value sign
    rw [saveInt, if_pos sign, loadInt, loadUint_saveUint _ rest]
    simp only [bind_eq_bind, bind_some]
    rw [if_pos odd, half]

/-! Lengths and strings. -/

variable {α : Type} {items : List α}

theorem makeSlice_length (fits : items.length < 2 ^ 63) :
    makeSlice (UInt64.ofNat items.length) = some items.length := by
  have size : (UInt64.ofNat items.length).toNat = items.length := by
    rw [UInt64.toNat_ofNat']
    omega
  rw [makeSlice, size, if_pos fits]

theorem length_zero_iff (fits : items.length < 2 ^ 63) : UInt64.ofNat items.length = 0 ↔ items = [] := by
  rw [← UInt64.toNat_inj, UInt64.toNat_ofNat', ← length_eq_zero_iff]
  have : (0 : UInt64).toNat = 0 := rfl
  omega

theorem readFull_append (text : Bytes) : Reads (readFull text.length) text text := by
  intro rest
  simp [readFull]

theorem loadString_saveString {text : Bytes} (fits : text.length < 2 ^ 63) :
    Reads loadString text (saveString text) := by
  intro rest
  simp [loadString, saveString, saveLength, loadUint_saveUint _ (text ++ rest),
    makeSlice_length fits, readFull_append text rest]

theorem times_map {ι : Type} {load : Bytes → Option (α × Bytes)} (item : ι → α)
    (bytes : ι → Bytes) {parts : List ι} (each : ∀ part ∈ parts, Reads load (item part) (bytes part)) :
    Reads (times load parts.length) (parts.map item) (parts.map bytes).flatten := by
  intro rest
  induction parts with
  | nil => rfl
  | cons part others ih =>
    have first := each part mem_cons_self ((others.map bytes).flatten ++ rest)
    have later := ih (forall_mem_cons.mp each).2
    simp [times, first, later]

theorem times_saved {load : Bytes → Option (α × Bytes)} {save : α → Bytes} (each : ∀ item ∈ items, Reads load item (save item)) :
    Reads (times load items.length) items (items.flatMap save) := by
  simpa [List.flatMap] using times_map id save each

/-! Types and references. -/

/-- A number in front of `body` takes a byte, and so one level of the recursion. -/
theorem fuel_left {number : UInt64} {body : Bytes} {fuel : Nat}
    (enough : (saveUint number ++ body).length ≤ fuel) :
    ∃ left, fuel = left + 1 ∧ body.length ≤ left := by
  have := saveUint_length number
  rw [length_append] at enough
  exact ⟨fuel - 1, by omega, by omega⟩

theorem loadTypeSpecFrom_saveTypeSpec {type : TypeSpec} {fuel : Nat}
    (enough : (saveTypeSpec type).length ≤ fuel) :
    Reads (loadTypeSpecFrom fuel) type (saveTypeSpec type) := by
  intro rest
  induction type generalizing fuel rest with
  | typeID id =>
    obtain ⟨left, rfl, _⟩ := fuel_left enough
    simp [loadTypeSpecFrom, saveTypeSpec, loadUint_saveUint 0 (saveUint id ++ rest), loadUint_saveUint id rest]
  | pointer type ih =>
    obtain ⟨left, rfl, inner⟩ := fuel_left enough
    simp [loadTypeSpecFrom, saveTypeSpec, loadUint_saveUint 1 (saveTypeSpec type ++ rest), ih inner rest]
  | array count type ih =>
    rw [saveTypeSpec, append_assoc] at enough
    obtain ⟨left, rfl, inner⟩ := fuel_left enough
    rw [length_append] at inner
    simp [loadTypeSpecFrom, saveTypeSpec,
      loadUint_saveUint 2 (saveUint count ++ (saveTypeSpec type ++ rest)),
      loadUint_saveUint count (saveTypeSpec type ++ rest),
      ih (show (saveTypeSpec type).length ≤ left by omega) rest]
  | slice type ih =>
    obtain ⟨left, rfl, inner⟩ := fuel_left enough
    simp [loadTypeSpecFrom, saveTypeSpec, loadUint_saveUint 3 (saveTypeSpec type ++ rest), ih inner rest]
  | map key value keyIh valueIh =>
    rw [saveTypeSpec, append_assoc] at enough
    obtain ⟨left, rfl, inner⟩ := fuel_left enough
    rw [length_append] at inner
    simp [loadTypeSpecFrom, saveTypeSpec,
      loadUint_saveUint 4 (saveTypeSpec key ++ (saveTypeSpec value ++ rest)),
      keyIh (show (saveTypeSpec key).length ≤ left by omega) (saveTypeSpec value ++ rest),
      valueIh (show (saveTypeSpec value).length ≤ left by omega) rest]
  | nil =>
    obtain ⟨left, rfl, _⟩ := @fuel_left 5 [] fuel (by simpa [saveTypeSpec] using enough)
    simp [loadTypeSpecFrom, saveTypeSpec, loadUint_saveUint 5 rest]

theorem loadTypeSpec_saveTypeSpec (type : TypeSpec) : Reads loadTypeSpec type (saveTypeSpec type) := by
  intro rest
  exact loadTypeSpecFrom_saveTypeSpec (by simp) rest

/-- A field name is not empty, and it is a Go string. -/
def Dot.Named : Dot → Prop
  | .index _ => True
  | .fieldName name => name ≠ [] ∧ name.length < 2 ^ 63

theorem loadDot_saveDot {dot : Dot} (named : dot.Named) : Reads loadDot dot (saveDot dot) := by
  intro rest
  cases dot with
  | index value =>
    have bound := value.toNat_lt
    have positive : (value.toBitVec.setWidth 64).msb = false := by
      rw [BitVec.msb_eq_false_iff_two_mul_lt]
      simp
      omega
    have same : (value.toBitVec.setWidth 64).setWidth 32 = value.toBitVec := by
      apply BitVec.eq_of_toNat_eq
      simp
    simp [loadDot, saveDot, loadInt_saveInt _ rest, positive, same]
  | fieldName name =>
    obtain ⟨present, fits⟩ := named
    have size : 0 < name.length := length_pos_iff.mpr present
    have negative : (-BitVec.ofNat 64 name.length).msb = true := by
      rw [BitVec.msb_eq_true_iff_two_mul_ge, BitVec.toNat_neg, BitVec.toNat_ofNat]
      omega
    have count : UInt64.ofBitVec (- -BitVec.ofNat 64 name.length) = UInt64.ofNat name.length := by
      rw [BitVec.neg_neg]
      rfl
    rw [loadDot, saveDot, append_assoc, loadInt_saveInt _ (name ++ rest)]
    simp only [bind_eq_bind, bind_some]
    rw [if_neg (by simp [negative]), count, makeSlice_length fits]
    simp only [bind_some, readFull_append name rest]

/-- The field names are there, and the dots are a Go slice. -/
structure Ref.Named (ref : Ref) : Prop where
  each : ∀ dot ∈ ref.dots, dot.Named
  fits : ref.dots.length < 2 ^ 63

/-- A reference has a type exactly if it has dots. -/
def Ref.Typed (ref : Ref) : Prop :=
  ref.type.isSome = true ↔ ref.dots ≠ []

theorem loadRef_saveRef {ref : Ref} (named : ref.Named) (typed : ref.Typed) :
    ∃ body, saveRef ref = some body ∧ Reads loadRef ref body := by
  obtain ⟨root, dots, type⟩ := ref
  have each := times_saved (fun dot member => loadDot_saveDot (named.each dot member))
  have count := makeSlice_length named.fits
  have lead : ∀ after, saveUint root ++ saveLength dots ++ dots.flatMap saveDot ++ after =
      saveUint root ++ (saveLength dots ++ (dots.flatMap saveDot ++ after)) := by simp
  cases dots with
  | nil =>
    have none : type = none := by simpa [Ref.Typed] using typed
    subst none
    exact ⟨_, rfl, fun rest => by
      rw [lead, loadRef, loadUint_saveUint]
      simp only [bind_eq_bind, bind_some, saveLength, loadUint_saveUint _ _, count]
      simp [times]⟩
  | cons dot others =>
    obtain ⟨type, rfl⟩ := isSome_iff_exists.mp (typed.mpr (by simp))
    have saved : saveRef ⟨root, dot :: others, some type⟩ =
        some (saveUint root ++ saveLength (dot :: others) ++ (dot :: others).flatMap saveDot ++
          saveTypeSpec type) := by simp [saveRef]
    refine ⟨_, saved, fun rest => ?_⟩
    rw [append_assoc, lead]
    rw [loadRef, loadUint_saveUint]
    simp only [bind_eq_bind, bind_some, saveLength, loadUint_saveUint _ _, count]
    rw [each]
    simp [loadTypeSpec_saveTypeSpec type rest]

/-! Objects. -/

def OneKind (objects : List Object) : Prop :=
  ∀ first ∈ objects, ∀ second ∈ objects, first.kind = second.kind

/-- An object without floating-point or complex parts whose lists are Go slices, whose arrays and
maps have one kind of elements, keys and values, and whose references have named fields and `fits`.
-/
inductive Storable (fits : Ref → Prop) : Object → Prop
  | bool (value : Bool) : Storable fits (.bool value)
  | int (value : BitVec 64) : Storable fits (.int value)
  | uint (value : UInt64) : Storable fits (.uint value)
  | nil : Storable fits .nil
  | ref {ref : Ref} (named : ref.Named) (fit : fits ref) : Storable fits (.ref ref)
  | string {text : Bytes} (short : text.length < 2 ^ 63) : Storable fits (.string text)
  | slice (length capacity : UInt64) {ref : Ref} (named : ref.Named) (fit : fits ref) :
      Storable fits (.slice length capacity ref)
  | array {contents : List Object} (short : contents.length < 2 ^ 63) (same : OneKind contents)
      (each : ∀ object ∈ contents, Storable fits object) : Storable fits (.array contents)
  | map {keys values : List Object} (short : keys.length < 2 ^ 63)
      (paired : keys.length = values.length) (sameKeys : OneKind keys) (sameValues : OneKind values)
      (eachKey : ∀ object ∈ keys, Storable fits object)
      (eachValue : ∀ object ∈ values, Storable fits object) : Storable fits (.map keys values)
  | struct (typeID : UInt64) {fields : Object} (inner : Storable fits fields) :
      Storable fits (.struct typeID fields)
  | noObjects : Storable fits .noObjects
  | multipleObjects {objects : List Object} (short : objects.length < 2 ^ 63)
      (each : ∀ object ∈ objects, Storable fits object) : Storable fits (.multipleObjects objects)
  | interface (type : TypeSpec) {value : Object} (inner : Storable fits value) :
      Storable fits (.interface type value)
  | type {name : Bytes} {fields : List Bytes} (short : name.length < 2 ^ 63)
      (shortFields : fields.length < 2 ^ 63) (each : ∀ field ∈ fields, field.length < 2 ^ 63) :
      Storable fits (.type name fields)

variable {objects : List Object} {object : Object}

open Object

/-- The object is saved as `body`, and loaded from it within as many levels as it has bytes. -/
def Object.Kept (object : Object) (body : Bytes) : Prop :=
  object.save = some body ∧ ∀ fuel, body.length ≤ fuel → Reads (loadFrom (fuel + 1) object.kind) object body

theorem saveEach_pairs (each : ∀ object ∈ objects, ∃ body, object.Kept body) :
    ∃ pairs : List (Object × Bytes), objects = pairs.map (·.1) ∧
      saveEach objects = some (pairs.map (·.2)) ∧ ∀ pair ∈ pairs, pair.1.Kept pair.2 := by
  induction objects with
  | nil => exact ⟨[], rfl, by simp [saveEach], fun _ member => nomatch member⟩
  | cons object rest ih =>
    obtain ⟨body, kept⟩ := each object mem_cons_self
    obtain ⟨pairs, rfl, saved, keptRest⟩ := ih (forall_mem_cons.mp each).2
    refine ⟨(object, body) :: pairs, rfl, ?_, forall_mem_cons.mpr ⟨kept, keptRest⟩⟩
    simp [saveEach, kept.1, saved]

theorem ofHeader_header (kind : Kind) : Kind.ofHeader kind.header = some kind := by
  cases kind <;> rfl

theorem loadTagged_tagged {load : Kind → Bytes → Option (Object × Bytes)}
    {body : Bytes} (reads : Reads (load object.kind) object body) :
    Reads (loadTagged load) object (tagged object body) := by
  intro rest
  rw [tagged, append_assoc, loadTagged, loadUint_saveUint]
  simp only [bind_eq_bind, bind_some, ofHeader_header]
  exact reads rest

theorem loadBoth_reads {first second : Bytes → Option (Object × Bytes)} {key value : Object}
    {keyBody valueBody : Bytes} (readsKey : Reads first key keyBody) (readsValue : Reads second value valueBody) :
    Reads (loadBoth first second) (key, value) (keyBody ++ valueBody) := by
  intro rest
  rw [append_assoc, loadBoth, readsKey (valueBody ++ rest)]
  simp [readsValue rest]

theorem length_le_flatten {parts : List Bytes} {part : Bytes} (member : part ∈ parts) :
    part.length ≤ parts.flatten.length :=
  (sublist_flatten_of_mem member).length_le

section

variable {fuel : Nat}

/-- Every storable object that fits in `fuel` bytes is loaded within `fuel` levels. -/
def LoadsWithin (fuel : Nat) : Prop :=
  ∀ {object : Object} {body : Bytes}, Storable Ref.Typed object → object.save = some body →
    body.length < fuel → Reads (loadFrom fuel object.kind) object body

variable {body : Bytes}

theorem Object.Kept.reads {kind : Kind} (kept : object.Kept body) (alike : object.kind = kind)
    (fits : body.length < fuel) : Reads (loadFrom fuel kind) object body := by
  subst alike
  cases fuel with
  | zero => cases fits
  | succ fuel => exact kept.2 fuel (Nat.le_of_lt_succ fits)

theorem fits_part {number : UInt64} {parts : List Bytes} {part : Bytes}
    (fits : (saveUint number ++ parts.flatten).length ≤ fuel) (member : part ∈ parts) :
    part.length < fuel := by
  have := saveUint_length number
  have := length_le_flatten member
  rw [length_append] at fits
  omega

theorem kept_array {contents : List Object} (short : contents.length < 2 ^ 63) (same : OneKind contents)
    (each : ∀ object ∈ contents, ∃ body, object.Kept body) : ∃ body, (array contents).Kept body := by
  obtain ⟨pairs, rfl, saved, kept⟩ := saveEach_pairs each
  have count := makeSlice_length short
  have zero := length_zero_iff short
  refine ⟨_, by simp only [save, saved]; rfl, fun fuel fits rest => ?_⟩
  rw [saveLength] at fits
  rw [kind, loadFrom, append_assoc, saveLength, loadUint_saveUint]
  simp only [bind_eq_bind, bind_some]
  cases pairs with
  | nil => rfl
  | cons pair others =>
    have part := fun {part} => @fits_part fuel _ _ part fits
    simp only [map_cons, firstTagged, mem_cons] at part
    have headFits : pair.2.length < fuel := by
      have whole := part (.inl rfl)
      rw [tagged, length_append] at whole
      omega
    have head := loadTagged_tagged ((kept _ mem_cons_self).reads rfl headFits) ((others.map (·.2)).flatten ++ rest)
    have tail := times_map (·.1) (·.2) (fun inner (member : inner ∈ others) =>
      have inside : inner ∈ pair :: others := mem_cons_of_mem _ member
      (kept _ inside).reads (same _ (mem_map_of_mem inside) pair.1 mem_cons_self)
        (part (.inr (mem_map_of_mem member)))) rest
    rw [if_neg fun isZero => nomatch zero.mp isZero]
    simp only [count, bind_some]
    simp only [map_cons, firstTagged, flatten_cons, append_assoc,
      bind_some, head, length_cons, length_map, Nat.add_sub_cancel, tail]

theorem kept_multipleObjects (short : objects.length < 2 ^ 63)
    (each : ∀ object ∈ objects, ∃ body, object.Kept body) : ∃ body, (multipleObjects objects).Kept body := by
  obtain ⟨pairs, rfl, saved, kept⟩ := saveEach_pairs each
  have zipped : List.zipWith tagged (pairs.map (·.1)) (pairs.map (·.2)) =
      pairs.map fun pair => tagged pair.1 pair.2 := by
    rw [zipWith_map, zipWith_self]
  refine ⟨_, by simp only [save, saved]; rfl, fun fuel fits rest => ?_⟩
  rw [saveLength, zipped] at fits
  rw [kind, loadFrom, append_assoc, saveLength, zipped, loadUint_saveUint]
  simp only [bind_eq_bind, bind_some, makeSlice_length short]
  have reads : ∀ pair ∈ pairs,
      Reads (loadTagged (loadFrom fuel)) pair.1 (tagged pair.1 pair.2) := by
    intro pair member
    have inside : tagged pair.1 pair.2 ∈ pairs.map fun pair => tagged pair.1 pair.2 :=
      mem_map.mpr ⟨pair, member, rfl⟩
    have whole := fits_part fits inside
    rw [tagged, length_append] at whole
    exact loadTagged_tagged ((kept pair member).reads rfl (by omega))
  have all := times_map Prod.fst (fun pair => tagged pair.1 pair.2) reads rest
  simp only [length_map, all, bind_some]

theorem zip_firstTagged {keys values : List (Object × Bytes)} :
    List.zipWith (· ++ ·) (firstTagged (keys.map (·.1)) (keys.map (·.2)))
      (firstTagged (values.map (·.1)) (values.map (·.2))) =
    match keys, values with
    | key :: keys, value :: values =>
      (tagged key.1 key.2 ++ tagged value.1 value.2) :: (keys.zip values).map fun both => both.1.2 ++ both.2.2
    | _, _ => [] := by
  match keys, values with
  | [], _ => rfl
  | _ :: _, [] => rfl
  | key :: keys, value :: values =>
    simp only [map_cons, firstTagged, zipWith_cons_cons, zipWith_map]
    rw [map_zip_eq_zipWith]
    rfl

theorem kept_map {keys values : List Object} (short : keys.length < 2 ^ 63) (paired : keys.length = values.length)
    (sameKeys : OneKind keys) (sameValues : OneKind values) (eachKey : ∀ object ∈ keys, ∃ body, object.Kept body)
    (eachValue : ∀ object ∈ values, ∃ body, object.Kept body) : ∃ body, (map keys values).Kept body := by
  obtain ⟨keyPairs, rfl, savedKeys, keptKey⟩ := saveEach_pairs eachKey
  obtain ⟨valuePairs, rfl, savedValues, keptValue⟩ := saveEach_pairs eachValue
  have count := makeSlice_length short
  have zero := length_zero_iff short
  refine ⟨_, by simp only [save, paired, savedKeys, savedValues]; rfl, fun fuel fits rest => ?_⟩
  rw [saveLength, zip_firstTagged] at fits
  rw [kind, loadFrom, append_assoc, saveLength, zip_firstTagged, loadUint_saveUint]
  simp only [bind_eq_bind, bind_some]
  match keyPairs, valuePairs with
  | [], [] => rfl
  | [], _ :: _ => nomatch paired
  | _ :: _, [] => nomatch paired
  | key :: keys, value :: values =>
    have part := fun {part} => @fits_part fuel _ _ part fits
    simp only [mem_cons] at part
    have sizes : key.2.length < fuel ∧ value.2.length < fuel := by
      have whole := part (.inl rfl)
      simp only [tagged, length_append] at whole
      omega
    have head := loadBoth_reads
      (loadTagged_tagged ((keptKey _ mem_cons_self).reads rfl sizes.1))
      (loadTagged_tagged ((keptValue _ mem_cons_self).reads rfl sizes.2))
      (((keys.zip values).map fun both => both.1.2 ++ both.2.2).flatten ++ rest)
    have later : ∀ both ∈ keys.zip values,
        Reads (loadBoth (loadFrom fuel key.1.kind) (loadFrom fuel value.1.kind))
          (both.1.1, both.2.1) (both.1.2 ++ both.2.2) := by
      intro both member
      obtain ⟨keyMember, valueMember⟩ := of_mem_zip member
      have keyInside : both.1 ∈ key :: keys := mem_cons_of_mem _ keyMember
      have valueInside : both.2 ∈ value :: values := mem_cons_of_mem _ valueMember
      have size := part (.inr (mem_map_of_mem member))
      rw [length_append] at size
      exact loadBoth_reads
        ((keptKey _ keyInside).reads (sameKeys _ (mem_map_of_mem keyInside) _ mem_cons_self) (by omega))
        ((keptValue _ valueInside).reads (sameValues _ (mem_map_of_mem valueInside) _ mem_cons_self) (by omega))
    have tail := times_map
      (fun both : (Object × Bytes) × (Object × Bytes) => (both.1.1, both.2.1))
      (fun both => both.1.2 ++ both.2.2) later rest
    have lengths : keys.length = values.length := by simpa using paired
    have firsts : (keys.zip values).map (fun both => both.1.1) = keys.map (·.1) := by
      rw [show (fun both : (Object × Bytes) × (Object × Bytes) => both.1.1) = Prod.fst ∘ Prod.fst
        from rfl, ← map_map, map_fst_zip (by omega)]
    have seconds : (keys.zip values).map (fun both => both.2.1) = values.map (·.1) := by
      rw [show (fun both : (Object × Bytes) × (Object × Bytes) => both.2.1) = Prod.fst ∘ Prod.snd
        from rfl, ← map_map, map_snd_zip (by omega)]
    rw [length_zip, ← lengths, Nat.min_self] at tail
    rw [if_neg fun isZero => nomatch zero.mp isZero]
    simp only [count, bind_some]
    simp only [flatten_cons, append_assoc] at head ⊢
    simp only [head, bind_some, map_cons, length_cons, length_map,
      Nat.add_sub_cancel, tail, map_map, Function.comp_def, firsts, seconds]

theorem kept_of_storable (storable : Storable Ref.Typed object) : ∃ body, object.Kept body := by
  induction storable with
  | bool value =>
    refine ⟨_, rfl, fun fuel _ rest => ?_⟩
    cases value <;> simp [kind, loadFrom, loadBool, loadUint_saveUint _ rest]
  | int value =>
    refine ⟨_, rfl, fun fuel _ rest => ?_⟩
    simp [kind, loadFrom, loadInt_saveInt value rest]
  | uint value =>
    refine ⟨_, rfl, fun fuel _ rest => ?_⟩
    simp [kind, loadFrom, loadUint_saveUint value rest]
  | nil | noObjects => exact ⟨_, rfl, fun _ _ _ => rfl⟩
  | ref named typed =>
    obtain ⟨body, saved, reads⟩ := loadRef_saveRef named typed
    refine ⟨body, saved, fun fuel _ rest => ?_⟩
    simp [kind, loadFrom, reads rest]
  | string short =>
    refine ⟨_, rfl, fun fuel _ rest => ?_⟩
    simp [kind, loadFrom, loadString_saveString short rest]
  | slice length capacity named typed =>
    obtain ⟨body, saved, reads⟩ := loadRef_saveRef named typed
    refine ⟨_, by simp only [save, saved]; rfl, fun fuel _ rest => ?_⟩
    simp [kind, loadFrom, loadUint_saveUint _ _, reads rest]
  | array short same _ ih => exact kept_array short same ih
  | map short paired sameKeys sameValues _ _ keyIh valueIh =>
    exact kept_map short paired sameKeys sameValues keyIh valueIh
  | struct typeID _ ih =>
    obtain ⟨body, kept⟩ := ih
    refine ⟨_, by simp only [save, kept.1]; rfl, fun fuel fits rest => ?_⟩
    have := saveUint_length typeID
    simp only [tagged, length_append] at fits
    have reads := loadTagged_tagged (kept.reads rfl (show body.length < fuel by omega)) rest
    simp [kind, loadFrom, loadUint_saveUint _ _, reads]
  | multipleObjects short _ ih => exact kept_multipleObjects short ih
  | @interface type value _ ih =>
    obtain ⟨body, kept⟩ := ih
    refine ⟨_, by simp only [save, kept.1]; rfl, fun fuel fits rest => ?_⟩
    have := saveUint_length value.kind.header
    simp only [tagged, length_append] at fits
    have reads := loadTagged_tagged (kept.reads rfl (show body.length < fuel by omega)) rest
    simp [kind, loadFrom, loadTypeSpec_saveTypeSpec type _, reads]
  | type short shortFields each =>
    refine ⟨_, rfl, fun fuel _ rest => ?_⟩
    have fields := times_saved (fun field member => loadString_saveString (each field member)) rest
    simp [kind, loadFrom, loadString_saveString short _, saveLength,
      loadUint_saveUint _ _, makeSlice_length shortFields, fields]

theorem loadsWithin (fuel : Nat) : LoadsWithin fuel := by
  intro object body storable saved fits
  obtain ⟨_, kept⟩ := kept_of_storable storable
  cases kept.1.symm.trans saved
  exact kept.reads rfl fits

end

theorem load_Save (storable : Storable Ref.Typed object) :
    ∃ bytes, object.Save = some bytes ∧ Reads load object bytes := by
  obtain ⟨body, saved, _⟩ := kept_of_storable storable
  refine ⟨tagged object body, by rw [Object.Save, saved]; rfl, ?_⟩
  intro rest
  have short : body.length < (tagged object body ++ rest).length := by
    have := saveUint_length object.kind.header
    simp only [tagged, length_append]
    omega
  exact loadTagged_tagged (loadsWithin _ storable saved short) rest

/-- Objects that are saved one after another are loaded again, up to the end of their bytes. -/
theorem load_saveAll {objects : List Object} (storable : ∀ object ∈ objects, Storable Ref.Typed object) :
    ∃ bytes, saveAll objects = some bytes ∧
      ∀ rest, times load objects.length (bytes ++ rest) = some (objects, rest) := by
  induction objects with
  | nil => exact ⟨[], rfl, fun rest => rfl⟩
  | cons object others ih =>
    obtain ⟨first, saved, reads⟩ := load_Save (storable object mem_cons_self)
    obtain ⟨bytes, savedOthers, readsOthers⟩ := ih (forall_mem_cons.mp storable).2
    refine ⟨first ++ bytes, by simp [saveAll, saved, savedOthers], fun rest => ?_⟩
    simp [times, append_assoc, reads (bytes ++ rest), readsOthers rest]

/-- A reference to a field of an array's element, in an array. -/
theorem load_saveAll_reference :
    ∃ bytes, saveAll [.array [.ref ⟨1, [.fieldName [97], .index 3], some (.typeID 2)⟩,
        .ref ⟨2, [], none⟩]] = some bytes ∧
      ∀ rest, times load 1 (bytes ++ rest) =
        some ([.array [.ref ⟨1, [.fieldName [97], .index 3], some (.typeID 2)⟩,
          .ref ⟨2, [], none⟩]], rest) := by
  have first : Storable Ref.Typed (.ref ⟨1, [.fieldName [97], .index 3], some (.typeID 2)⟩) :=
    .ref ⟨by simp [Dot.Named], by decide⟩ (by simp [Ref.Typed])
  have second : Storable Ref.Typed (.ref ⟨2, [], none⟩) := .ref ⟨by simp, by decide⟩ (by simp [Ref.Typed])
  have storable : ∀ object ∈ [Object.array [.ref ⟨1, [.fieldName [97], .index 3], some (.typeID 2)⟩,
      .ref ⟨2, [], none⟩]], Storable Ref.Typed object := by
    intro object member
    rw [mem_singleton.mp member]
    exact .array (by decide) (by simp [OneKind, Object.kind]) (by simp [first, second])
  exact load_saveAll storable

/-- The type of a reference without dots is not saved. -/
theorem type_without_dots_lost :
    Storable (fun _ => True) (.ref ⟨1, [], some .nil⟩) ∧
      saveAll [.ref ⟨1, [], some .nil⟩] = some [6, 1, 0] ∧
      times load 1 [6, 1, 0] ≠ some ([.ref ⟨1, [], some .nil⟩], []) := by
  have storable : Storable (fun _ => True) (.ref ⟨1, [], some .nil⟩) := .ref ⟨by simp, by decide⟩ trivial
  have saved : saveAll [.ref ⟨1, [], some .nil⟩] = some [6, 1, 0] := rfl
  have loaded : times load 1 [6, 1, 0] = some ([.ref ⟨1, [], none⟩], []) := rfl
  have lost : times load 1 [6, 1, 0] ≠ some ([.ref ⟨1, [], some .nil⟩], []) := by
    rw [loaded]
    simp
  exact ⟨storable, saved, lost⟩

end BVisor.State
