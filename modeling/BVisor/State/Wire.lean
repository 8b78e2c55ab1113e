import Mathlib

/-! The wire format of the state package: objects as bytes, without a tag where the reader knows the
kind already. A panic, which is how the package reports an error, is `none`. Strings are byte
strings and a floating-point number is the word of its bits. -/

namespace BVisor.State

abbrev Bytes := List UInt8

/-! Unsigned and signed integers. -/

/-- What the loop of `Uint.save` puts into a buffer of `room` bytes. -/
def saveUintFrom : Nat → Nat → Bytes
  | 0, _ => []
  | room + 1, value =>
    if 0x80 ≤ value then (UInt8.ofNat value ||| 0x80) :: saveUintFrom room (value >>> 7)
    else [UInt8.ofNat value]

def saveUint (value : UInt64) : Bytes := saveUintFrom 10 value.toNat

def loadUintFrom : Nat → Nat → Nat → Bytes → Option (Nat × Bytes)
  | 0, _, _, _ => none
  | _ + 1, _, _, [] => none
  | left + 1, value, shift, byte :: rest =>
    if byte < 0x80 then
      if left = 0 ∧ byte > 1 then none
      else some (value ||| (byte.toNat <<< shift) % 2 ^ 64, rest)
    else loadUintFrom left (value ||| ((byte &&& 0x7f).toNat <<< shift) % 2 ^ 64) (shift + 7) rest

def loadUint (bytes : Bytes) : Option (UInt64 × Bytes) :=
  match loadUintFrom 10 0 0 bytes with
  | some (value, rest) => some (UInt64.ofNat value, rest)
  | none => none

/-- An `Int` is the word of its two's complement. -/
def saveInt (value : BitVec 64) : Bytes :=
  if value.msb then saveUint (UInt64.ofBitVec (~~~(value <<< 1)))
  else saveUint (UInt64.ofBitVec (value <<< 1))

def loadInt (bytes : Bytes) : Option (BitVec 64 × Bytes) := do
  let (word, rest) ← loadUint bytes
  let half := word.toBitVec >>> 1
  if word.toBitVec &&& 1 ≠ 0 then some (~~~half, rest) else some (half, rest)

def loadBool (bytes : Bytes) : Option (Bool × Bytes) := do
  let (word, rest) ← loadUint bytes
  some (word == 1, rest)

def saveLength {α : Type} (items : List α) : Bytes := saveUint (UInt64.ofNat items.length)

/-- A slice of `count` elements cannot be made unless the count is an `int`. -/
def makeSlice (count : UInt64) : Option Nat :=
  if count.toNat < 2 ^ 63 then some count.toNat else none

def readFull (count : Nat) (bytes : Bytes) : Option (Bytes × Bytes) :=
  if count ≤ bytes.length then some (bytes.take count, bytes.drop count) else none

def times {α : Type} (load : Bytes → Option (α × Bytes)) : Nat → Bytes → Option (List α × Bytes)
  | 0, bytes => some ([], bytes)
  | count + 1, bytes =>
    match load bytes with
    | none => none
    | some (item, bytes) =>
      match times load count bytes with
      | none => none
      | some (items, rest) => some (item :: items, rest)

def saveString (text : Bytes) : Bytes := saveLength text ++ text

def loadString (bytes : Bytes) : Option (Bytes × Bytes) := do
  let (count, bytes) ← loadUint bytes
  let count ← makeSlice count
  readFull count bytes

/-! Types and references. -/

inductive TypeSpec where
  | typeID (id : UInt64)
  | pointer (type : TypeSpec)
  | array (count : UInt64) (type : TypeSpec)
  | slice (type : TypeSpec)
  | map (key value : TypeSpec)
  | nil
deriving DecidableEq

def saveTypeSpec : TypeSpec → Bytes
  | .typeID id => saveUint 0 ++ saveUint id
  | .pointer type => saveUint 1 ++ saveTypeSpec type
  | .array count type => saveUint 2 ++ saveUint count ++ saveTypeSpec type
  | .slice type => saveUint 3 ++ saveTypeSpec type
  | .map key value => saveUint 4 ++ saveTypeSpec key ++ saveTypeSpec value
  | .nil => saveUint 5

/-- The recursion of `loadTypeSpec`, at most `fuel` deep. -/
def loadTypeSpecFrom : Nat → Bytes → Option (TypeSpec × Bytes)
  | 0, _ => none
  | fuel + 1, bytes => do
      let (header, bytes) ← loadUint bytes
      match header.toNat with
      | 0 =>
        let (id, bytes) ← loadUint bytes
        some (.typeID id, bytes)
      | 1 =>
        let (type, bytes) ← loadTypeSpecFrom fuel bytes
        some (.pointer type, bytes)
      | 2 =>
        let (count, bytes) ← loadUint bytes
        let (type, bytes) ← loadTypeSpecFrom fuel bytes
        some (.array count type, bytes)
      | 3 =>
        let (type, bytes) ← loadTypeSpecFrom fuel bytes
        some (.slice type, bytes)
      | 4 =>
        let (key, bytes) ← loadTypeSpecFrom fuel bytes
        let (value, bytes) ← loadTypeSpecFrom fuel bytes
        some (.map key value, bytes)
      | 5 => some (.nil, bytes)
      | _ => none

/-- Every level of a type takes a byte, so that the recursion is no deeper than the bytes are
long. -/
def loadTypeSpec (bytes : Bytes) : Option (TypeSpec × Bytes) :=
  loadTypeSpecFrom bytes.length bytes

inductive Dot where
  | index (value : UInt32)
  | fieldName (name : Bytes)
deriving DecidableEq

def saveDot : Dot → Bytes
  | .index value => saveInt (value.toBitVec.setWidth 64)
  | .fieldName name => saveInt (-BitVec.ofNat 64 name.length) ++ name

def loadDot (bytes : Bytes) : Option (Dot × Bytes) := do
  let (number, bytes) ← loadInt bytes
  if number.msb = false then some (.index (UInt32.ofBitVec (number.setWidth 32)), bytes)
  else
    let count ← makeSlice (UInt64.ofBitVec (-number))
    let (name, bytes) ← readFull count bytes
    some (.fieldName name, bytes)

structure Ref where
  root : UInt64
  dots : List Dot
  /-- `none` is the nil interface. -/
  type : Option TypeSpec
deriving DecidableEq

def saveRef (ref : Ref) : Option Bytes :=
  let dots := saveUint ref.root ++ saveLength ref.dots ++ ref.dots.flatMap saveDot
  if ref.dots = [] then some dots
  else
    match ref.type with
    | some type => some (dots ++ saveTypeSpec type)
    | none => none

def loadRef (bytes : Bytes) : Option (Ref × Bytes) := do
  let (root, bytes) ← loadUint bytes
  let (count, bytes) ← loadUint bytes
  let count ← makeSlice count
  let (dots, bytes) ← times loadDot count bytes
  if count = 0 then some ({ root, dots, type := none }, bytes)
  else
    let (type, bytes) ← loadTypeSpec bytes
    some ({ root, dots, type := some type }, bytes)

/-! Objects. -/

inductive Kind where
  | bool | int | uint | float32 | float64 | nil | ref | string | slice | array | map | struct
  | noObjects | multipleObjects | interface | complex64 | complex128 | type
deriving DecidableEq

def Kind.header : Kind → UInt64
  | .bool => 0
  | .int => 1
  | .uint => 2
  | .float32 => 3
  | .float64 => 4
  | .nil => 5
  | .ref => 6
  | .string => 7
  | .slice => 8
  | .array => 9
  | .map => 10
  | .struct => 11
  | .noObjects => 12
  | .multipleObjects => 13
  | .interface => 14
  | .complex64 => 15
  | .complex128 => 16
  | .type => 17

def Kind.ofHeader (header : UInt64) : Option Kind :=
  match header.toNat with
  | 0 => some .bool
  | 1 => some .int
  | 2 => some .uint
  | 3 => some .float32
  | 4 => some .float64
  | 5 => some .nil
  | 6 => some .ref
  | 7 => some .string
  | 8 => some .slice
  | 9 => some .array
  | 10 => some .map
  | 11 => some .struct
  | 12 => some .noObjects
  | 13 => some .multipleObjects
  | 14 => some .interface
  | 15 => some .complex64
  | 16 => some .complex128
  | 17 => some .type
  | _ => none

inductive Object where
  | bool (value : Bool)
  | int (value : BitVec 64)
  | uint (value : UInt64)
  | float32 (bits : UInt32)
  | float64 (bits : UInt64)
  | nil
  | ref (ref : Ref)
  | string (text : Bytes)
  | slice (length capacity : UInt64) (ref : Ref)
  | array (contents : List Object)
  | map (keys values : List Object)
  | struct (typeID : UInt64) (fields : Object)
  | noObjects
  | multipleObjects (objects : List Object)
  | interface (type : TypeSpec) (value : Object)
  | complex64 (real imaginary : UInt32)
  | complex128 (real imaginary : UInt64)
  | type (name : Bytes) (fields : List Bytes)

def Object.kind : Object → Kind
  | .bool _ => .bool
  | .int _ => .int
  | .uint _ => .uint
  | .float32 _ => .float32
  | .float64 _ => .float64
  | .nil => .nil
  | .ref _ => .ref
  | .string _ => .string
  | .slice _ _ _ => .slice
  | .array _ => .array
  | .map _ _ => .map
  | .struct _ _ => .struct
  | .noObjects => .noObjects
  | .multipleObjects _ => .multipleObjects
  | .interface _ _ => .interface
  | .complex64 _ _ => .complex64
  | .complex128 _ _ => .complex128
  | .type _ _ => .type

/-- What `Save` writes of an object whose own `save` writes `body`. -/
def tagged (object : Object) (body : Bytes) : Bytes := saveUint object.kind.header ++ body

def firstTagged : List Object → List Bytes → List Bytes
  | object :: _, body :: rest => tagged object body :: rest
  | _, _ => []

mutual

def Object.save : Object → Option Bytes
  | .bool value => some (saveUint (if value then 1 else 0))
  | .int value => some (saveInt value)
  | .uint value => some (saveUint value)
  | .float32 bits => some (saveUint bits.toUInt64)
  | .float64 bits => some (saveUint bits)
  | .nil => some []
  | .ref ref => saveRef ref
  | .string text => some (saveString text)
  | .slice length capacity ref => do
      let body ← saveRef ref
      some (saveUint length ++ saveUint capacity ++ body)
  | .array contents => do
      let bodies ← saveEach contents
      some (saveLength contents ++ (firstTagged contents bodies).flatten)
  | .map keys values =>
    if keys.length = values.length then do
      let keyBodies ← saveEach keys
      let valueBodies ← saveEach values
      some (saveLength keys ++ (List.zipWith (· ++ ·) (firstTagged keys keyBodies)
        (firstTagged values valueBodies)).flatten)
    else none
  | .struct typeID fields => do
      let body ← fields.save
      some (saveUint typeID ++ tagged fields body)
  | .noObjects => some []
  | .multipleObjects objects => do
      let bodies ← saveEach objects
      some (saveLength objects ++ (List.zipWith tagged objects bodies).flatten)
  | .interface type value => do
      let body ← value.save
      some (saveTypeSpec type ++ tagged value body)
  | .complex64 real imaginary =>
    some (saveUint real.toUInt64 ++ saveUint imaginary.toUInt64)
  | .complex128 real imaginary => some (saveUint real ++ saveUint imaginary)
  | .type name fields => some (saveString name ++ saveLength fields ++ fields.flatMap saveString)

def saveEach : List Object → Option (List Bytes)
  | [] => some []
  | object :: rest => do
      let body ← object.save
      let bodies ← saveEach rest
      some (body :: bodies)

end

def Object.Save (object : Object) : Option Bytes :=
  object.save.map (tagged object)

def loadTagged (load : Kind → Bytes → Option (Object × Bytes)) (bytes : Bytes) :
    Option (Object × Bytes) := do
  let (header, bytes) ← loadUint bytes
  let kind ← Kind.ofHeader header
  load kind bytes

def loadBoth (first second : Bytes → Option (Object × Bytes)) (bytes : Bytes) :
    Option ((Object × Object) × Bytes) := do
  let (key, bytes) ← first bytes
  let (value, bytes) ← second bytes
  some ((key, value), bytes)

/-- The methods `load` of the kinds of objects, nested at most `fuel` deep. -/
def loadFrom : Nat → Kind → Bytes → Option (Object × Bytes)
  | 0, _, _ => none
  | fuel + 1, kind, bytes =>
    match kind with
    | .bool => do
        let (value, bytes) ← loadBool bytes
        some (.bool value, bytes)
    | .int => do
        let (value, bytes) ← loadInt bytes
        some (.int value, bytes)
    | .uint => do
        let (value, bytes) ← loadUint bytes
        some (.uint value, bytes)
    | .float32 => do
        let (bits, bytes) ← loadUint bytes
        some (.float32 bits.toUInt32, bytes)
    | .float64 => do
        let (bits, bytes) ← loadUint bytes
        some (.float64 bits, bytes)
    | .nil => some (.nil, bytes)
    | .ref => do
        let (ref, bytes) ← loadRef bytes
        some (.ref ref, bytes)
    | .string => do
        let (text, bytes) ← loadString bytes
        some (.string text, bytes)
    | .slice => do
        let (length, bytes) ← loadUint bytes
        let (capacity, bytes) ← loadUint bytes
        let (ref, bytes) ← loadRef bytes
        some (.slice length capacity ref, bytes)
    | .array => do
        let (count, bytes) ← loadUint bytes
        if count = 0 then some (.array [], bytes)
        else
          let count ← makeSlice count
          let (first, bytes) ← loadTagged (loadFrom fuel) bytes
          let (others, bytes) ← times (loadFrom fuel first.kind) (count - 1) bytes
          some (.array (first :: others), bytes)
    | .map => do
        let (count, bytes) ← loadUint bytes
        if count = 0 then some (.map [] [], bytes)
        else
          let count ← makeSlice count
          let (first, bytes) ←
            loadBoth (loadTagged (loadFrom fuel)) (loadTagged (loadFrom fuel)) bytes
          let (others, bytes) ← times
            (loadBoth (loadFrom fuel first.1.kind) (loadFrom fuel first.2.kind)) (count - 1) bytes
          some (.map (first.1 :: others.map (·.1)) (first.2 :: others.map (·.2)), bytes)
    | .struct => do
        let (typeID, bytes) ← loadUint bytes
        let (fields, bytes) ← loadTagged (loadFrom fuel) bytes
        some (.struct typeID fields, bytes)
    | .noObjects => some (.noObjects, bytes)
    | .multipleObjects => do
        let (count, bytes) ← loadUint bytes
        let count ← makeSlice count
        let (objects, bytes) ← times (loadTagged (loadFrom fuel)) count bytes
        some (.multipleObjects objects, bytes)
    | .interface => do
        let (type, bytes) ← loadTypeSpec bytes
        let (value, bytes) ← loadTagged (loadFrom fuel) bytes
        some (.interface type value, bytes)
    | .complex64 => do
        let (real, bytes) ← loadUint bytes
        let (imaginary, bytes) ← loadUint bytes
        some (.complex64 real.toUInt32 imaginary.toUInt32, bytes)
    | .complex128 => do
        let (real, bytes) ← loadUint bytes
        let (imaginary, bytes) ← loadUint bytes
        some (.complex128 real imaginary, bytes)
    | .type => do
        let (name, bytes) ← loadString bytes
        let (count, bytes) ← loadUint bytes
        let count ← makeSlice count
        let (fields, bytes) ← times loadString count bytes
        some (.type name fields, bytes)

/-- `Load`. Every level of an object takes a byte, so that the recursion is no deeper than the bytes
are long. -/
def load (bytes : Bytes) : Option (Object × Bytes) :=
  loadTagged (loadFrom bytes.length) bytes

def saveAll : List Object → Option Bytes
  | [] => some []
  | object :: rest => do
      let first ← object.Save
      let others ← saveAll rest
      some (first ++ others)

end BVisor.State
