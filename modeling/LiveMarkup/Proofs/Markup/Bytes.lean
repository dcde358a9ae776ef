import LiveMarkup.Proofs.Markup.Appending
import Mathlib.Data.List.Basic

/-!
Texts addressed by bytes. An offset into a text counts the bytes of its encoding, of which a
character takes up to four. A text can be cut at an offset only if a character ends there
(`cut?_eq_some_iff`), and what reads or cuts a text elsewhere meets an `OffsetFault`. A byte of a
character that takes several is none of a character that takes one
(`toUInt8_mem_utf8EncodeChar_iff`), so that a search for a quote, a slash or a bracket may look at
bytes.
-/

set_option autoImplicit false
set_option relaxedAutoImplicit false

namespace LiveMarkup

/-! ### Bytes -/

/-- The bytes that a text is encoded in. -/
def bytes (text : List Char) : List UInt8 := text.flatMap String.utf8EncodeChar

theorem bytes_cons (c : Char) (text : List Char) :
    bytes (c :: text) = String.utf8EncodeChar c ++ bytes text := List.flatMap_cons

theorem bytes_append (front rest : List Char) : bytes (front ++ rest) = bytes front ++ bytes rest :=
  List.flatMap_append

theorem length_bytes (text : List Char) : (bytes text).length = byteLength text := by
  simp [bytes, byteLength, String.utf8ByteSize, List.utf8Encode]

@[simp] theorem byteLength_nil : byteLength [] = 0 := rfl

theorem byteLength_append (front rest : List Char) :
    byteLength (front ++ rest) = byteLength front + byteLength rest := by
  rw [← length_bytes, bytes_append, List.length_append, length_bytes, length_bytes]

theorem byteLength_cons (c : Char) (text : List Char) :
    byteLength (c :: text) = c.utf8Size + byteLength text := by
  rw [← length_bytes, bytes_cons, List.length_append, String.length_utf8EncodeChar, length_bytes]

theorem byteLength_pos {text : List Char} (h : text ≠ []) : 0 < byteLength text := by
  obtain ⟨c, rest, rfl⟩ := List.exists_cons_of_ne_nil h
  rw [byteLength_cons]
  exact Nat.add_pos_left c.utf8Size_pos _

/-- A byte that encodes a character on its own is in the encoding of no other character. -/
theorem toUInt8_mem_utf8EncodeChar_iff {a : Char} (ha : a.toNat ≤ 127) (c : Char) :
    a.toUInt8 ∈ String.utf8EncodeChar c ↔ c = a := by
  have hbyte : a.toUInt8.toNat = a.toNat := by
    rw [← Char.toUInt8_val, UInt32.toNat_toUInt8, Char.toNat_val]
    omega
  have heq (n : Nat) (hn : n < 256) : a.toUInt8 = UInt8.ofNat n ↔ a.toNat = n := by
    rw [← UInt8.toNat_inj, hbyte, UInt8.toNat_ofNat', Nat.mod_eq_of_lt hn]
  have hc : c = a ↔ a.toNat = c.val.toNat := by
    rw [eq_comm, Char.ext_iff, ← UInt32.toNat_inj]
    rfl
  rw [hc, String.utf8EncodeChar]
  split
  · rw [List.mem_singleton, heq _ (by omega)]
  · -- every byte of a longer encoding is marked by its highest bit
    refine iff_of_false (fun hmem ↦ ?_) (by omega)
    have hmarked : ∃ n, 128 ≤ n ∧ n < 256 ∧ a.toUInt8 = UInt8.ofNat n := by
      split at hmem
      · simp only [List.mem_cons, List.not_mem_nil, or_false] at hmem
        rcases hmem with h | h <;> exact ⟨_, by omega, by omega, h⟩
      · split at hmem
        · simp only [List.mem_cons, List.not_mem_nil, or_false] at hmem
          rcases hmem with h | h | h <;> exact ⟨_, by omega, by omega, h⟩
        · simp only [List.mem_cons, List.not_mem_nil, or_false] at hmem
          rcases hmem with h | h | h | h <;> exact ⟨_, by omega, by omega, h⟩
    obtain ⟨n, hlow, hn, hsame⟩ := hmarked
    rw [heq n hn] at hsame
    omega

theorem utf8EncodeChar_of_le {a : Char} (ha : a.toNat ≤ 127) :
    String.utf8EncodeChar a = [a.toUInt8] := by
  have hsize : a.utf8Size = 1 := Char.utf8Size_eq_one_iff.mpr (UInt32.le_iff_toNat_le.mpr ha)
  rw [String.utf8EncodeChar_eq_singleton hsize, Char.toUInt8_val]

theorem head?_bytes {a : Char} (ha : a.toNat ≤ 127) (text : List Char) :
    (bytes text).head? = some a.toUInt8 ↔ text.head? = some a := by
  cases text with
  | nil => simp [bytes]
  | cons c rest =>
    rw [bytes_cons, List.head?_append_of_ne_nil _ String.utf8EncodeChar_ne_nil, List.head?_cons,
      Option.some_inj]
    constructor
    · exact fun h ↦ (toUInt8_mem_utf8EncodeChar_iff ha c).mp (List.mem_of_mem_head? h)
    · rintro rfl
      rw [utf8EncodeChar_of_le ha, List.head?_cons]

theorem getLast?_bytes {a : Char} (ha : a.toNat ≤ 127) (text : List Char) :
    (bytes text).getLast? = some a.toUInt8 ↔ text.getLast? = some a := by
  rcases List.eq_nil_or_concat' text with rfl | ⟨front, c, rfl⟩
  · simp [bytes]
  · have hlast : bytes [c] = String.utf8EncodeChar c := List.flatMap_singleton ..
    rw [bytes_append, hlast, List.getLast?_append_of_ne_nil _ String.utf8EncodeChar_ne_nil,
      List.getLast?_concat, Option.some_inj]
    constructor
    · exact fun h ↦ (toUInt8_mem_utf8EncodeChar_iff ha c).mp (List.mem_of_getLast? h)
    · rintro rfl
      rw [utf8EncodeChar_of_le ha, List.getLast?_singleton]

/-! ### Offsets -/

/-- What goes wrong at offsets that a text does not have. -/
inductive OffsetFault where
  /-- There is no byte at the offset. -/
  | index (offset : Nat)
  /-- The text has no such part, or it cuts a character. -/
  | slice (start stop : Nat)
  /-- The difference is below zero. -/
  | underflow (n m : Nat)
  deriving DecidableEq

theorem ok_bind {α β : Type} (x : α) (f : α → Except OffsetFault β) :
    (Except.ok x >>= f) = f x := rfl

/-- Cuts a text at an offset, if a character ends there. -/
def cut? : List Char → Nat → Option (List Char × List Char)
  | text, 0 => some ([], text)
  | [], _ + 1 => none
  | c :: rest, n + 1 =>
    if c.utf8Size ≤ n + 1 then
      (cut? rest (n + 1 - c.utf8Size)).map fun (front, back) ↦ (c :: front, back)
    else none

theorem cut?_append (front rest : List Char) :
    cut? (front ++ rest) (byteLength front) = some (front, rest) := by
  induction front with
  | nil => cases rest <;> rfl
  | cons c front ih =>
    obtain ⟨n, hn⟩ := Nat.exists_eq_add_one_of_ne_zero
      (Nat.ne_of_gt (byteLength_pos (List.cons_ne_nil c front)))
    have hrest : n + 1 - c.utf8Size = byteLength front := by
      rw [byteLength_cons] at hn
      omega
    have hfits : c.utf8Size ≤ n + 1 := by
      rw [byteLength_cons] at hn
      omega
    rw [hn, List.cons_append, cut?, if_pos hfits, hrest, ih]
    rfl

theorem cut?_eq_some_iff {text front rest : List Char} {n : Nat} :
    cut? text n = some (front, rest) ↔ text = front ++ rest ∧ byteLength front = n := by
  constructor
  · intro h
    fun_induction cut? text n generalizing front with
    | case1 text =>
      obtain ⟨rfl, rfl⟩ : [] = front ∧ text = rest := by simpa using h
      exact ⟨rfl, rfl⟩
    | case2 => cases h
    | case3 c tail n hfits ih =>
      obtain ⟨⟨front', back⟩, hcut, heq⟩ := Option.map_eq_some_iff.mp h
      obtain ⟨rfl, rfl⟩ : c :: front' = front ∧ back = rest := by simpa using heq
      obtain ⟨rfl, hlength⟩ := ih hcut
      refine ⟨rfl, ?_⟩
      rw [byteLength_cons, hlength]
      omega
    | case4 => cases h
  · rintro ⟨rfl, rfl⟩
    exact cut?_append front rest

/-- The text from an offset on, if there is one. -/
def suffix? (text : List Char) (start : Nat) : Option (List Char) := (cut? text start).map Prod.snd

theorem suffix?_append (front rest : List Char) :
    suffix? (front ++ rest) (byteLength front) = some rest := by
  rw [suffix?, cut?_append, Option.map_some]

theorem exists_of_suffix? {text rest : List Char} {start : Nat}
    (h : suffix? text start = some rest) :
    ∃ front, text = front ++ rest ∧ byteLength front = start := by
  obtain ⟨⟨front, _⟩, hcut, rfl⟩ := Option.map_eq_some_iff.mp h
  exact ⟨front, cut?_eq_some_iff.mp hcut⟩

/-- A part of a text, with what stands before and behind it. -/
def cutOut (text : List Char) (start stop : Nat) :
    Except OffsetFault (List Char × List Char × List Char) :=
  match cut? text start with
  | none => .error (.slice start stop)
  | some (front, rest) =>
    if stop < start then .error (.slice start stop)
    else
      match cut? rest (stop - start) with
      | none => .error (.slice start stop)
      | some (part, back) => .ok (front, part, back)

theorem cutOut_append (front part back : List Char) :
    cutOut (front ++ (part ++ back)) (byteLength front) (byteLength (front ++ part)) =
      .ok (front, part, back) := by
  have horder : ¬byteLength (front ++ part) < byteLength front := by
    rw [byteLength_append]
    omega
  have hlength : byteLength (front ++ part) - byteLength front = byteLength part := by
    rw [byteLength_append, Nat.add_sub_cancel_left]
  rw [cutOut, cut?_append]
  dsimp only
  rw [if_neg horder, hlength, cut?_append]

/-- The part of a text between two offsets. -/
def slice (text : List Char) (start stop : Nat) : Except OffsetFault (List Char) := do
  let (_, part, _) ← cutOut text start stop
  return part

/-- A text with another part between two offsets. -/
def splice (text : List Char) (start stop : Nat) (new : List Char) :
    Except OffsetFault (List Char) := do
  let (front, _, back) ← cutOut text start stop
  return front ++ new ++ back

theorem slice_append (front part back : List Char) :
    slice (front ++ (part ++ back)) (byteLength front) (byteLength (front ++ part)) = .ok part := by
  rw [slice, cutOut_append]
  rfl

theorem splice_append (front part back new : List Char) :
    splice (front ++ (part ++ back)) (byteLength front) (byteLength (front ++ part)) new =
      .ok (front ++ new ++ back) := by
  rw [splice, cutOut_append]
  rfl

/-- The byte at an offset. -/
def byteAt (text : List Char) (offset : Nat) : Except OffsetFault UInt8 :=
  match (bytes text)[offset]? with
  | some byte => .ok byte
  | none => .error (.index offset)

/-- The bytes from an offset on. -/
def bytesFrom (text : List Char) (offset : Nat) : Except OffsetFault (List UInt8) :=
  if offset ≤ byteLength text then .ok ((bytes text).drop offset)
  else .error (.slice offset (byteLength text))

/-- The byte in front of a cut is the last one of the front. -/
theorem exists_byteAt {front : List Char} (h : front ≠ []) (rest : List Char) :
    ∃ byte, byteAt (front ++ rest) (byteLength front - 1) = .ok byte ∧
      (bytes front).getLast? = some byte := by
  have hpos : byteLength front - 1 < (bytes front).length := by
    rw [length_bytes]
    exact Nat.sub_lt (byteLength_pos h) Nat.one_pos
  obtain ⟨byte, hbyte⟩ : ∃ byte, (bytes front)[byteLength front - 1]? = some byte :=
    ⟨_, List.getElem?_eq_getElem hpos⟩
  refine ⟨byte, ?_, ?_⟩
  · rw [byteAt, bytes_append, List.getElem?_append_left hpos, hbyte]
  · rw [List.getLast?_eq_getElem?, length_bytes, hbyte]

theorem drop_bytes_append (front rest : List Char) :
    (bytes (front ++ rest)).drop (byteLength front) = bytes rest := by
  rw [bytes_append, ← length_bytes front, List.drop_left]

theorem bytesFrom_append (front rest : List Char) :
    bytesFrom (front ++ rest) (byteLength front) = .ok (bytes rest) := by
  have hle : byteLength front ≤ byteLength (front ++ rest) := by
    rw [byteLength_append]
    omega
  rw [bytesFrom, if_pos hle, drop_bytes_append]

/-- The difference of two offsets. -/
def difference (n m : Nat) : Except OffsetFault Nat :=
  if m ≤ n then .ok (n - m) else .error (.underflow n m)

theorem difference_of_le {n m : Nat} (h : m ≤ n) : difference n m = .ok (n - m) := if_pos h

/-- Where the first character of a kind starts. -/
def firstAt? (p : Char → Bool) : List Char → Option Nat
  | [] => none
  | c :: rest => if p c then some 0 else (firstAt? p rest).map (c.utf8Size + ·)

theorem getD_firstAt? (p : Char → Bool) (text : List Char) :
    (firstAt? p text).getD (byteLength text) = byteLength (text.takeWhile (!p ·)) := by
  induction text with
  | nil => rfl
  | cons c rest ih =>
    rw [firstAt?]
    by_cases hc : p c = true
    · simp [hc]
    · rw [if_neg hc, List.takeWhile_cons_of_pos (by simpa using hc), byteLength_cons,
        byteLength_cons, ← ih]
      cases firstAt? p rest <;> rfl

theorem lt_of_firstAt? {p : Char → Bool} {text : List Char} {offset : Nat}
    (h : firstAt? p text = some offset) : offset < byteLength text := by
  induction text generalizing offset with
  | nil => cases h
  | cons c rest ih =>
    rw [firstAt?] at h
    rw [byteLength_cons]
    split at h
    · obtain rfl := Option.some.inj h
      exact Nat.add_pos_left c.utf8Size_pos _
    · obtain ⟨later, hlater, rfl⟩ := Option.map_eq_some_iff.mp h
      exact Nat.add_lt_add_left (ih hlater) _

end LiveMarkup
