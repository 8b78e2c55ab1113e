import BVisor.Lisafs.Message

/-! Unmarshalling gives back what was marshalled, never reads out of range, and takes from any bytes
it accepts exactly as many as the message it finds would be marshalled to. -/

namespace BVisor.Lisafs

open BVisor.Data BVisor.Data.Packed List SizedString

variable {α β γ : Type} {packed : Packed α} {src bytes : Bytes} {value : α}

/-- The value is read from its bytes, whatever follows them. -/
def Reads (decode : Bytes → Decoded α) (bytes : Bytes) (value : α) : Prop :=
  ∀ tail, decode (bytes ++ tail) = some (.accepted value tail)

/-- The bytes that an accepted value was read from are as many as its size. -/
def Outcome.Takes (size : α → Nat) (src : Bytes) : Outcome α → Prop
  | .rejected _ => True
  | .accepted value rest => ∃ used, src = used ++ rest ∧ used.length = size value

/-- No bytes make the decoder read out of range or take more or less than the value's size. -/
def Contained (size : α → Nat) (decode : Bytes → Decoded α) : Prop :=
  ∀ src, ∃ outcome, decode src = some outcome ∧ outcome.Takes size src

theorem takes_append {size : α → Nat} {used srcRemain more rest : Bytes}
    (joined : src = used ++ srcRemain) (split : srcRemain = more ++ rest)
    (total : used.length + more.length = size value) : (Outcome.accepted value rest).Takes size src :=
  ⟨used ++ more, by rw [joined, split, append_assoc], by rw [length_append, total]⟩

/-! Slices and the generated codecs. -/

variable {count : Nat}

theorem cut_append {first second : Bytes} (whole : first.length = count) :
    cut count (first ++ second) = some (first, second) := by
  have enough : count ≤ (first ++ second).length := by
    rw [length_append]
    omega
  rw [cut, if_pos enough, take_left' whole, drop_left' whole]

theorem cut_exists (enough : count ≤ src.length) :
    ∃ first second, cut count src = some (first, second) ∧ src = first ++ second ∧
      first.length = count :=
  ⟨src.take count, src.drop count, if_pos enough, (take_append_drop count src).symm, length_take_of_le enough⟩

theorem unmarshalUnsafe_encode (value : α) (tail : Bytes) :
    unmarshalUnsafe packed (packed.encode value ++ tail) = some (value, tail) := by
  simp only [unmarshalUnsafe, cut_append (packed.encode_length value), packed.decode_encode]

theorem unmarshalUnsafe_exists (enough : packed.size ≤ src.length) :
    ∃ value used rest, unmarshalUnsafe packed src = some (value, rest) ∧ src = used ++ rest ∧
      used.length = packed.size := by
  obtain ⟨first, second, found, joined, size⟩ := cut_exists enough
  exact ⟨packed.decode first, first, second, by simp only [unmarshalUnsafe, found], joined, size⟩

theorem unmarshalUnsafeSlice_encodeAll (items : List α) (tail : Bytes) :
    unmarshalUnsafeSlice packed items.length (packed.encodeAll items ++ tail) =
      some (items, tail) := by
  simp only [unmarshalUnsafeSlice, cut_append (packed.encodeAll_length items), packed.decodeAll_encodeAll]

theorem unmarshalUnsafeSlice_exists (enough : count * packed.size ≤ src.length) :
    ∃ items used rest, unmarshalUnsafeSlice packed count src = some (items, rest) ∧
      items.length = count ∧ src = used ++ rest ∧ used.length = count * packed.size := by
  obtain ⟨first, second, found, joined, size⟩ := cut_exists enough
  exact ⟨packed.decodeAll count first, first, second, by simp only [unmarshalUnsafeSlice, found],
    packed.decodeAll_length count first, joined, size⟩

theorem checkedUnmarshal_reads (value : α) : Reads (checkedUnmarshal packed) (packed.encode value) value := by
  intro tail
  have enough : ¬ packed.size > (packed.encode value ++ tail).length := by
    rw [length_append, packed.encode_length]
    omega
  simp only [checkedUnmarshal, if_neg enough, unmarshalUnsafe_encode]

theorem checkedUnmarshal_contained (packed : Packed α) :
    Contained (fun _ => packed.size) (checkedUnmarshal packed) := by
  intro src
  by_cases short : packed.size > src.length
  · exact ⟨.rejected src, if_pos short, trivial⟩
  obtain ⟨value, used, rest, found, joined, size⟩ :=
    unmarshalUnsafe_exists (Nat.le_of_not_lt short : packed.size ≤ src.length)
  exact ⟨.accepted value rest, by simp only [checkedUnmarshal, if_neg short, found],
    used, joined, size⟩

/-! Rejection of the whole message with one of its parts. -/

variable {part : Bytes → Decoded α} {items : List α}

theorem orReject_reads (reads : Reads part bytes value)
    (whole tail : Bytes) (next : α → Bytes → Decoded β) :
    Decoded.orReject (part (bytes ++ tail)) whole next = next value tail := by
  rw [reads tail]
  rfl

theorem orReject_contained {size : α → Nat} (total : β → Nat)
    (contained : Contained size part) {whole start : Bytes} {next : α → Bytes → Decoded β}
    (continues : ∀ value used rest, src = used ++ rest → used.length = size value →
      ∃ outcome, next value rest = some outcome ∧ outcome.Takes total start) :
    ∃ outcome, Decoded.orReject (part src) whole next = some outcome ∧
      outcome.Takes total start := by
  obtain ⟨outcome, found, takes⟩ := contained src
  rw [found]
  cases outcome with
  | rejected _ => exact ⟨.rejected whole, rfl, trivial⟩
  | accepted value rest =>
    obtain ⟨used, split, length⟩ := takes
    exact continues value used rest split length

/-! Strings and arrays. -/

theorem toNat_ofNat_length (fits : items.length < 2 ^ 16) :
    (UInt16.ofNat items.length).toNat = items.length := by
  rw [UInt16.toNat_ofNat']
  exact Nat.mod_eq_of_lt fits

variable {s : SizedString}

namespace SizedString

theorem marshalBytes_of_fits (fits : s.length < 2 ^ 16) :
    s.marshalBytes = uint16.encode (UInt16.ofNat s.length) ++ s := by
  simp only [marshalBytes, toNat_ofNat_length fits, take_length]

theorem marshalBytes_length (fits : s.length < 2 ^ 16) : s.marshalBytes.length = s.sizeBytes := by
  rw [marshalBytes_of_fits fits, length_append, uint16.encode_length, sizeBytes]

theorem reads (fits : s.length < 2 ^ 16) : Reads checkedUnmarshal s.marshalBytes s := by
  intro tail
  have enough : ¬ (s ++ tail).length < (UInt16.ofNat s.length).toNat := by
    rw [toNat_ofNat_length fits, length_append]
    omega
  rw [marshalBytes_of_fits fits, append_assoc, checkedUnmarshal,
    orReject_reads (checkedUnmarshal_reads _), if_neg enough, toNat_ofNat_length fits,
    cut_append rfl]

theorem contained : Contained sizeBytes checkedUnmarshal := by
  intro src
  apply orReject_contained sizeBytes (checkedUnmarshal_contained uint16)
  intro strLen used srcRemain joined length
  by_cases short : srcRemain.length < strLen.toNat
  · exact ⟨.rejected src, if_pos short, trivial⟩
  · obtain ⟨text, rest, found, split, size⟩ := cut_exists (Nat.le_of_not_lt short)
    exact ⟨.accepted text rest, by simp only [if_neg short, found],
      takes_append joined split (by rw [length, sizeBytes])⟩

end SizedString

section Each

variable {element : Bytes → Decoded α} {size : α → Nat} {encode : α → Bytes}

theorem unmarshalEach_reads
    (reads : ∀ item ∈ items, Reads element (encode item) item) (whole : Bytes) :
    Reads (unmarshalEach element whole items.length) (items.flatMap encode) items := by
  induction items with
  | nil =>
    intro tail
    rfl
  | cons item rest ih =>
    intro tail
    have first := reads item mem_cons_self
    have others := ih (forall_mem_cons.mp reads).2
    rw [flatMap_cons, append_assoc, length_cons, unmarshalEach, orReject_reads first, orReject_reads others]

theorem unmarshalEach_contained (contained : Contained size element) (count : Nat) (whole : Bytes) :
    Contained (fun items => (items.map size).sum) (unmarshalEach element whole count) := by
  induction count with
  | zero =>
    intro src
    exact ⟨.accepted [] src, rfl, [], rfl, rfl⟩
  | succ count ih =>
    intro src
    rw [unmarshalEach]
    apply orReject_contained _ contained
    intro item used srcRemain joined length
    apply orReject_contained _ ih
    intro items usedRest rest split lengthRest
    exact ⟨.accepted (item :: items) rest, rfl,
      takes_append joined split (by simp only [length, lengthRest, map_cons, sum_cons])⟩

theorem flatMap_length (lengths : ∀ item ∈ items, (encode item).length = size item) :
    (items.flatMap encode).length = (items.map size).sum := by
  induction items with
  | nil => rfl
  | cons item rest ih =>
    rw [flatMap_cons, length_append, lengths item mem_cons_self,
      ih (forall_mem_cons.mp lengths).2, map_cons,
      sum_cons]

end Each

namespace StringArray

/-- Every string fits its length field, and so does the number of strings. -/
def Fits (s : StringArray) : Prop :=
  s.length < 2 ^ 16 ∧ ∀ text ∈ s, text.length < 2 ^ 16

variable {s : StringArray}

theorem marshalBytes_length (fits : s.Fits) : s.marshalBytes.length = s.sizeBytes := by
  rw [marshalBytes, length_append, uint16.encode_length, sizeBytes,
    flatMap_length fun text member => SizedString.marshalBytes_length (fits.2 text member)]

theorem reads (fits : s.Fits) : Reads checkedUnmarshal s.marshalBytes s := by
  intro tail
  have each := unmarshalEach_reads fun text member => SizedString.reads (fits.2 text member)
  rw [marshalBytes, append_assoc, checkedUnmarshal,
    orReject_reads (checkedUnmarshal_reads _), toNat_ofNat_length fits.1, each]

theorem contained : Contained sizeBytes checkedUnmarshal := by
  intro src
  apply orReject_contained sizeBytes (checkedUnmarshal_contained uint16)
  intro arrLen used srcRemain joined length
  obtain ⟨outcome, found, takes⟩ := unmarshalEach_contained SizedString.contained arrLen.toNat src srcRemain
  refine ⟨outcome, found, ?_⟩
  cases outcome with
  | rejected _ => exact trivial
  | accepted items rest =>
    obtain ⟨usedRest, split, lengthRest⟩ := takes
    exact takes_append joined split (by rw [length, lengthRest, sizeBytes])

end StringArray

/-! The families. -/

section Families

variable {minimum : Nat} {fixed : Packed α} {part : Bytes → Decoded β} {size : β → Nat}
  {make : α → β → γ} {total : γ → Nat}

theorem unmarshalThen_reads {fields : α} {last : β} (reads : Reads part bytes last)
    (least : minimum ≤ fixed.size + bytes.length) :
    Reads (unmarshalThen minimum fixed part make) (fixed.encode fields ++ bytes) (make fields last) := by
  intro tail
  have enough : ¬ minimum > (fixed.encode fields ++ bytes ++ tail).length := by
    rw [length_append, length_append, fixed.encode_length]
    omega
  rw [unmarshalThen, if_neg enough, append_assoc, unmarshalUnsafe_encode]
  exact orReject_reads reads _ tail _

theorem unmarshalThen_contained (contained : Contained size part) (least : fixed.size ≤ minimum)
    (sizes : ∀ fields last, total (make fields last) = fixed.size + size last) :
    Contained total (unmarshalThen minimum fixed part make) := by
  intro src
  by_cases short : minimum > src.length
  · exact ⟨.rejected src, if_pos short, trivial⟩
  obtain ⟨fields, used, srcRemain, found, joined, length⟩ :=
    unmarshalUnsafe_exists (Nat.le_trans least (Nat.le_of_not_lt short))
  simp only [unmarshalThen, if_neg short, found]
  apply orReject_contained total contained
  intro last usedRest rest split lengthRest
  exact ⟨.accepted (make fields last) rest, rfl,
    takes_append joined split (by rw [length, lengthRest, sizes])⟩

variable {make : α → List β → γ} {element : Packed β}

theorem unmarshalCounted_reads (fields : α)
    {items : List β} (fits : items.length < 2 ^ 16) (least : minimum ≤ fixed.size + 2) :
    Reads (unmarshalCounted minimum fixed element make)
      (fixed.encode fields ++ (uint16.encode (UInt16.ofNat items.length) ++
        element.encodeAll items)) (make fields items) := by
  intro tail
  have counted : (UInt16.ofNat items.length).toNat = items.length := toNat_ofNat_length fits
  have head : fixed.encode fields ++ (uint16.encode (UInt16.ofNat items.length) ++
      element.encodeAll items) ++ tail =
      (pair fixed uint16).encode (fields, UInt16.ofNat items.length) ++ (element.encodeAll items ++ tail) := by
    simp only [pair, append_assoc]
  have whole : ((pair fixed uint16).encode (fields, UInt16.ofNat items.length)).length =
      fixed.size + 2 := (pair fixed uint16).encode_length _
  have enough : ¬ minimum > ((pair fixed uint16).encode (fields, UInt16.ofNat items.length) ++
      (element.encodeAll items ++ tail)).length := by
    rw [length_append, whole]
    omega
  have room : ¬ items.length * element.size > (element.encodeAll items ++ tail).length := by
    rw [length_append, encodeAll_length]
    omega
  rw [head, unmarshalCounted, if_neg enough, unmarshalUnsafe_encode]
  simp only [counted, if_neg room, unmarshalUnsafeSlice_encodeAll]

theorem unmarshalCounted_contained (least : fixed.size + 2 ≤ minimum)
    (sizes : ∀ fields items, total (make fields items) =
      fixed.size + 2 + items.length * element.size) :
    Contained total (unmarshalCounted minimum fixed element make) := by
  intro src
  by_cases short : minimum > src.length
  · exact ⟨.rejected src, if_pos short, trivial⟩
  have enough : (pair fixed uint16).size ≤ src.length := by
    change fixed.size + 2 ≤ src.length
    omega
  obtain ⟨⟨fields, count⟩, used, srcRemain, found, joined, length⟩ := unmarshalUnsafe_exists enough
  by_cases missing : count.toNat * element.size > srcRemain.length
  · exact ⟨.rejected src, by simp only [unmarshalCounted, if_neg short, found, if_pos missing], trivial⟩
  obtain ⟨items, usedRest, rest, later, counted, split, lengthRest⟩ :=
    unmarshalUnsafeSlice_exists (Nat.le_of_not_lt missing)
  refine ⟨.accepted (make fields items) rest,
    by simp only [unmarshalCounted, if_neg short, found, if_neg missing, later],
    takes_append joined split ?_⟩
  rw [length, lengthRest, sizes, counted]
  rfl

theorem unmarshalTwoStrings_reads {first second : SizedString} (firstFits : first.length < 2 ^ 16)
    (secondFits : second.length < 2 ^ 16) :
    Reads unmarshalTwoStrings (first.marshalBytes ++ second.marshalBytes) (first, second) := by
  intro tail
  rw [unmarshalTwoStrings, append_assoc, orReject_reads (reads firstFits),
    orReject_reads (reads secondFits)]

theorem unmarshalTwoStrings_contained :
    Contained (fun pair => sizeBytes pair.1 + sizeBytes pair.2)
      unmarshalTwoStrings := by
  intro src
  apply orReject_contained _ contained
  intro first used srcRemain joined length
  apply orReject_contained _ contained
  intro second usedRest rest split lengthRest
  exact ⟨.accepted (first, second) rest, rfl, takes_append joined split (by rw [length, lengthRest])⟩

variable {part : Bytes → Decoded α} {make : α → β}

theorem unmarshalOnly_reads
    (reads : Reads part bytes value) : Reads (unmarshalOnly part make) bytes (make value) := by
  intro tail
  simp only [unmarshalOnly, reads tail]

variable {size : α → Nat} {total : β → Nat}

theorem unmarshalOnly_after {used srcRemain : Bytes} (joined : src = used ++ srcRemain)
    (contained : Contained size part) (sizes : ∀ value, total (make value) = used.length + size value) :
    ∃ outcome, unmarshalOnly part make srcRemain = some outcome ∧ outcome.Takes total src := by
  obtain ⟨outcome, found, takes⟩ := contained srcRemain
  cases outcome with
  | rejected rest => exact ⟨.rejected rest, by simp only [unmarshalOnly, found], trivial⟩
  | accepted value rest =>
    obtain ⟨usedRest, split, length⟩ := takes
    exact ⟨.accepted (make value) rest, by simp only [unmarshalOnly, found],
      takes_append joined split (by rw [length, sizes])⟩

theorem unmarshalOnly_contained (contained : Contained size part)
    (sizes : ∀ value, total (make value) = size value) : Contained total (unmarshalOnly part make) := by
  intro src
  apply unmarshalOnly_after (nil_append src).symm contained
  intro value
  rw [sizes, length_nil, Nat.zero_add]

end Families

end BVisor.Lisafs
