import LiveMarkup.Proofs.Markup.Bytes

/-!
Searching markup with a cursor. The search for the next tag looks for a `<` and then at bytes behind
it, at offsets that it computes (`sightAt`, `nextTag`). From the end of a character on it finds the
first tag that scanning finds (`exists_nextTag`); elsewhere it finds none. It meets no fault, and a
tag that it finds ends behind the cursor (`nextTag_bounds`), so that a loop over tags comes to an
end.
-/

set_option autoImplicit false
set_option relaxedAutoImplicit false

namespace LiveMarkup

/-! ### What stands at a bracket -/

/-- A tag where it stands in a text. -/
structure TagSpot where
  name : List Char
  start : Nat
  /-- Behind the `>`. -/
  stop : Nat
  kind : TagKind
  deriving DecidableEq

/-- What stands at a `<`. -/
inductive Sight where
  | text
  /-- A tag that is never closed. -/
  | unterminated
  | tag (spot : TagSpot)

/-- Where the first `>` outside double quotes stands. -/
def tagEnd? (quoted : Bool) : List UInt8 → Option Nat
  | [] => none
  | byte :: rest =>
    if byte = '"'.toUInt8 then (tagEnd? (!quoted) rest).map (· + 1)
    else if byte = '>'.toUInt8 ∧ quoted = false then some 0
    else (tagEnd? quoted rest).map (· + 1)

/-- What a tag that ends at an offset does. -/
def kindAt (text : List Char) (stop : Nat) (closing : Bool) : Except OffsetFault TagKind := do
  if closing then return .closing
  let last ← byteAt text (← difference stop 2)
  return if last = '/'.toUInt8 then .selfClosing else .opening

/-- Looks at what may be a tag from its name on. -/
def sightFrom (text : List Char) (start nameFrom : Nat) (closing : Bool) :
    Except OffsetFault Sight := do
  let tail := (suffix? text nameFrom).getD []
  let nameLength := (firstAt? (fun c ↦ isBlank c || c == '/' || c == '>') tail).getD
    (byteLength tail)
  let name ← slice tail 0 nameLength
  if Tag.isName name then
    let body ← bytesFrom text (nameFrom + nameLength)
    match tagEnd? false body with
    | none => return .unterminated
    | some length =>
      let stop := nameFrom + nameLength + length + 1
      let kind ← kindAt text stop closing
      return .tag ⟨name, start, stop, kind⟩
  else return .text

/-- Looks at what stands at a `<`. -/
def sightAt (text : List Char) (start : Nat) : Except OffsetFault Sight :=
  if (bytes text)[start + 1]? = some '/'.toUInt8 then sightFrom text start (start + 2) true
  else sightFrom text start (start + 1) false

/-- The place of a tag that starts at an offset. -/
def Tag.spot (tag : Tag) (start : Nat) : TagSpot :=
  ⟨tag.name, start, start + byteLength tag.text, tag.kind⟩

theorem Tag.name_spot (tag : Tag) (start : Nat) : (tag.spot start).name = tag.name := rfl

theorem Tag.start_spot (tag : Tag) (start : Nat) : (tag.spot start).start = start := rfl

theorem Tag.kind_spot (tag : Tag) (start : Nat) : (tag.spot start).kind = tag.kind := rfl

theorem Tag.stop_spot (front : List Char) (tag : Tag) :
    (tag.spot (byteLength front)).stop = byteLength (front ++ tag.text) :=
  (byteLength_append front tag.text).symm

/-- What a reading looks like at an offset. -/
def TagReading.sight (start : Nat) : TagReading → Sight
  | .text => .text
  | .unterminated => .unterminated
  | .tag found _ => .tag (found.spot start)

/-- Bytes that neither toggle quoting nor end a tag are passed over. -/
theorem tagEnd?_append {quoted : Bool} {front : List UInt8}
    (h : ∀ byte ∈ front, byte ≠ '"'.toUInt8 ∧ (byte = '>'.toUInt8 → quoted = true))
    (rest : List UInt8) :
    tagEnd? quoted (front ++ rest) = (tagEnd? quoted rest).map (front.length + ·) := by
  induction front with
  | nil =>
    cases hend : tagEnd? quoted rest <;> simp [hend]
  | cons byte front ih =>
    obtain ⟨hquote, hclose⟩ := h byte List.mem_cons_self
    have hgo : ¬(byte = '>'.toUInt8 ∧ quoted = false) := by
      rintro ⟨hbyte, hquoted⟩
      rw [hclose hbyte] at hquoted
      cases hquoted
    rw [List.cons_append, tagEnd?, if_neg hquote, if_neg hgo,
      ih fun other hother ↦ h other (List.mem_cons_of_mem byte hother), Option.map_map]
    congr 1
    funext n
    simp only [Function.comp_apply, List.length_cons]
    omega

/-- The end of a tag is the same among bytes and among characters. -/
theorem tagEnd?_bytes (quoted : Bool) (text : List Char) :
    tagEnd? quoted (bytes text) =
      (splitTagEnd? quoted text).map fun split ↦ byteLength split.1 := by
  induction text generalizing quoted with
  | nil => rfl
  | cons c rest ih =>
    rw [bytes_cons, splitTagEnd?]
    by_cases hquote : c = '"'
    · subst hquote
      have hquoted : (quoted != ('"' == '"')) = !quoted := by simp
      have hbyte : String.utf8EncodeChar '"' = ['"'.toUInt8] := utf8EncodeChar_of_le (by decide)
      have hclose : ¬('"' = '>' ∧ (!quoted) = true) := fun h ↦ absurd h.1 (by decide)
      rw [hbyte, List.singleton_append, tagEnd?, if_pos rfl, ih, if_neg hclose, hquoted,
        Option.map_map, Option.map_map]
      congr 1
      funext split
      show byteLength split.1 + 1 = byteLength ('"' :: split.1)
      rw [byteLength_cons, Nat.add_comm]
      rfl
    · have hquoted : (quoted != (c == '"')) = quoted := by
        rw [beq_eq_false_iff_ne.mpr hquote, Bool.bne_false]
      have hskip : ∀ byte ∈ String.utf8EncodeChar c, byte ≠ '"'.toUInt8 := by
        rintro byte hbyte rfl
        exact hquote ((toUInt8_mem_utf8EncodeChar_iff (by decide) c).mp hbyte)
      by_cases hclose : c = '>' ∧ (!quoted) = true
      · obtain ⟨rfl, hopen⟩ := hclose
        have hbyte : String.utf8EncodeChar '>' = ['>'.toUInt8] := utf8EncodeChar_of_le (by decide)
        rw [if_pos ⟨rfl, hopen⟩, hbyte, List.singleton_append, tagEnd?, if_neg (by decide),
          if_pos ⟨rfl, by simpa using hopen⟩]
        rfl
      · have hpass : ∀ byte ∈ String.utf8EncodeChar c,
            byte ≠ '"'.toUInt8 ∧ (byte = '>'.toUInt8 → quoted = true) := by
          refine fun byte hbyte ↦ ⟨hskip byte hbyte, ?_⟩
          rintro rfl
          have hc := (toUInt8_mem_utf8EncodeChar_iff (by decide) c).mp hbyte
          simpa [hc] using hclose
        rw [if_neg hclose, tagEnd?_append hpass, ih, hquoted, String.length_utf8EncodeChar,
          Option.map_map, Option.map_map]
        congr 1
        funext split
        exact (byteLength_cons c split.1).symm

/-- A name does not end in a slash, so that the last character before the `>` of a tag is a slash
only as the end of its body. -/
theorem getLast?_eq_slash_iff {name : List Char} (hname : Tag.isName name = true)
    (hchars : ∀ c ∈ name, Tag.isNameChar c = true) (front body : List Char) :
    (front ++ name ++ body).getLast? = some '/' ↔ body.getLast? = some '/' := by
  have hne : name ≠ [] := by
    rintro rfl
    cases hname
  by_cases hbody : body = []
  · subst hbody
    rw [List.append_nil, List.getLast?_append_of_ne_nil _ hne]
    refine iff_of_false (fun hlast ↦ ?_) (by simp)
    exact absurd (hchars '/' (List.mem_of_getLast? hlast)) (by decide)
  · rw [List.getLast?_append_of_ne_nil _ hbody]

theorem kindAt_eq {name : List Char} (hname : Tag.isName name = true)
    (hchars : ∀ c ∈ name, Tag.isNameChar c = true) (front body after : List Char)
    (closing : Bool) :
    kindAt (front ++ name ++ body ++ '>' :: after) (byteLength (front ++ name ++ body) + 1)
      closing = .ok (Tag.kind ⟨closing, name, body⟩) := by
  cases closing with
  | true => rfl
  | false =>
    have hne : front ++ name ++ body ≠ [] := by
      intro hnil
      obtain ⟨-, rfl, -⟩ : front = [] ∧ name = [] ∧ body = [] := by simpa using hnil
      cases hname
    obtain ⟨byte, hbyte, hlast⟩ := exists_byteAt hne ('>' :: after)
    have hslash : byte = '/'.toUInt8 ↔ body.getLast? = some '/' := by
      rw [← getLast?_eq_slash_iff hname hchars front body, ← getLast?_bytes (by decide), hlast,
        Option.some_inj]
    have hle : 2 ≤ byteLength (front ++ name ++ body) + 1 := Nat.succ_le_succ (byteLength_pos hne)
    rw [kindAt, if_neg Bool.false_ne_true, difference_of_le hle, ok_bind, Nat.add_sub_add_right,
      hbyte, ok_bind, Tag.kind, if_neg Bool.false_ne_true]
    simp only [hslash]
    rfl

/-- From the name of a tag on, looking at bytes shows what reading shows. -/
theorem sightFrom_eq (front tail : List Char) (closing : Bool) :
    sightFrom (front ++ ('<' :: if closing then ['/'] else []) ++ tail) (byteLength front)
        (byteLength (front ++ '<' :: if closing then ['/'] else [])) closing =
      .ok ((readName closing tail).sight (byteLength front)) := by
  obtain ⟨head, hhead⟩ : ∃ head, front ++ ('<' :: if closing then ['/'] else []) = head := ⟨_, rfl⟩
  obtain ⟨name, hname⟩ : ∃ name, tail.takeWhile Tag.isNameChar = name := ⟨_, rfl⟩
  obtain ⟨rest, hrest⟩ : ∃ rest, tail.dropWhile Tag.isNameChar = rest := ⟨_, rfl⟩
  have htail : tail = name ++ rest := by
    rw [← hname, ← hrest, List.takeWhile_append_dropWhile]
  have hlength : (firstAt? (fun c ↦ isBlank c || c == '/' || c == '>') tail).getD
      (byteLength tail) = byteLength name := by
    rw [getD_firstAt?, ← hname]
    rfl
  have hslice : slice tail 0 (byteLength name) = .ok name := by
    rw [htail]
    exact slice_append [] name rest
  have hbytes : bytesFrom (head ++ tail) (byteLength head + byteLength name) =
      .ok (bytes rest) := by
    rw [htail, ← List.append_assoc, ← byteLength_append]
    exact bytesFrom_append _ rest
  unfold sightFrom
  rw [hhead]
  dsimp only
  rw [suffix?_append, Option.getD_some, hlength, hslice, ok_bind, hbytes, ok_bind, tagEnd?_bytes,
    readName, hname, hrest]
  by_cases hisName : Tag.isName name = true
  · rw [if_pos hisName, if_pos hisName]
    cases hend : splitTagEnd? false rest with
    | none => rfl
    | some split =>
      obtain ⟨body, after⟩ := split
      have htext : head ++ tail = head ++ name ++ body ++ '>' :: after := by
        rw [htail, eq_of_splitTagEnd? hend, ← List.append_assoc, ← List.append_assoc]
      have hstop : byteLength head + byteLength name + byteLength body + 1 =
          byteLength (head ++ name ++ body) + 1 := by
        rw [byteLength_append, byteLength_append]
      have hwhole : byteLength (head ++ name ++ body) + 1 =
          byteLength front + byteLength (Tag.text ⟨closing, name, body⟩) := by
        have hone : byteLength (head ++ name ++ body) + 1 =
            byteLength (head ++ name ++ body ++ ['>']) := (byteLength_append _ ['>']).symm
        rw [hone, ← hhead, ← byteLength_append, Tag.text]
        simp only [List.append_assoc, List.cons_append]
      have hchars : ∀ c ∈ name, Tag.isNameChar c = true := fun c hc ↦
        List.all_eq_true.mp List.all_takeWhile c (hname ▸ hc)
      rw [Option.map_some]
      dsimp only
      rw [hstop, htext, kindAt_eq hisName hchars, ok_bind, hwhole]
      rfl
  · rw [if_neg hisName, if_neg hisName]
    rfl

/-- At a `<`, looking at bytes shows what reading shows. -/
theorem sightAt_eq (front rest : List Char) :
    sightAt (front ++ '<' :: rest) (byteLength front) =
      .ok ((readTag rest).sight (byteLength front)) := by
  have hsplit : front ++ '<' :: rest = front ++ ['<'] ++ rest := by simp
  have hlength : byteLength (front ++ ['<']) = byteLength front + 1 := byteLength_append _ ['<']
  have hslash : (bytes (front ++ '<' :: rest))[byteLength front + 1]? = some '/'.toUInt8 ↔
      rest.head? = some '/' := by
    rw [hsplit, ← hlength, ← List.head?_drop, drop_bytes_append, head?_bytes (by decide)]
  rw [sightAt]
  simp only [hslash]
  by_cases hhead : rest.head? = some '/'
  · obtain ⟨tail, rfl⟩ : ∃ tail, rest = '/' :: tail := ⟨_, List.eq_cons_of_mem_head? hhead⟩
    have htwo : byteLength (front ++ ['<', '/']) = byteLength front + 2 := byteLength_append _ _
    have hsight := sightFrom_eq front tail true
    rw [if_pos rfl, htwo, List.append_assoc] at hsight
    rw [if_pos hhead]
    exact hsight
  · have hread : readTag rest = readName false rest :=
      readTag.eq_2 rest fun tail h ↦ hhead (by rw [h, List.head?_cons])
    have hsight := sightFrom_eq front rest false
    rw [if_neg Bool.false_ne_true, hlength, ← hsplit] at hsight
    rw [if_neg hhead, hread]
    exact hsight

/-! ### The next tag -/

/-- Where the next `<` stands from a cursor on. -/
def bracketFrom? (text : List Char) (cursor : Nat) : Option Nat :=
  (suffix? text cursor).bind fun rest ↦ (firstAt? (· == '<') rest).map (cursor + ·)

theorem bracketFrom?_bounds {text : List Char} {cursor start : Nat}
    (h : bracketFrom? text cursor = some start) : cursor ≤ start ∧ start < byteLength text := by
  obtain ⟨rest, hrest, h⟩ := Option.bind_eq_some_iff.mp h
  obtain ⟨offset, hoffset, rfl⟩ := Option.map_eq_some_iff.mp h
  obtain ⟨front, rfl, rfl⟩ := exists_of_suffix? hrest
  have hlt := lt_of_firstAt? hoffset
  rw [byteLength_append]
  omega

/-- The next tag at a cursor or behind it. -/
def nextTag (text : List Char) (cursor : Nat) : Except OffsetFault (Option TagSpot) :=
  match h : bracketFrom? text cursor with
  | none => .ok none
  | some start =>
    have := bracketFrom?_bounds h
    match sightAt text start with
    | .error fault => .error fault
    | .ok .text => nextTag text (start + 1)
    | .ok .unterminated => .ok none
    | .ok (.tag spot) => .ok (some spot)
  termination_by byteLength text - cursor

theorem nextTag_of_none {text : List Char} {cursor : Nat} (h : bracketFrom? text cursor = none) :
    nextTag text cursor = .ok none := by
  rw [nextTag]
  split
  · rfl
  · rename_i hstart
    rw [h] at hstart
    cases hstart

theorem nextTag_of_some {text : List Char} {cursor start : Nat}
    (h : bracketFrom? text cursor = some start) :
    nextTag text cursor = sightAt text start >>= fun
      | .text => nextTag text (start + 1)
      | .unterminated => .ok none
      | .tag spot => .ok (some spot) := by
  rw [nextTag]
  split
  · rename_i hnone
    rw [h] at hnone
    cases hnone
  · rename_i hstart
    rw [h] at hstart
    obtain rfl := Option.some.inj hstart
    split <;> rename_i hsight <;> rw [hsight] <;> rfl

/-- A cursor sees only where the next `<` stands. -/
theorem nextTag_congr {text : List Char} {cursor other : Nat}
    (h : bracketFrom? text cursor = bracketFrom? text other) :
    nextTag text cursor = nextTag text other := by
  cases hother : bracketFrom? text other with
  | none => rw [nextTag_of_none hother, nextTag_of_none (h.trans hother)]
  | some start => rw [nextTag_of_some hother, nextTag_of_some (h.trans hother)]

theorem bracketFrom?_nil (front : List Char) :
    bracketFrom? (front ++ []) (byteLength front) = none := by
  rw [bracketFrom?, suffix?_append]
  rfl

theorem bracketFrom?_bracket (front rest : List Char) :
    bracketFrom? (front ++ '<' :: rest) (byteLength front) = some (byteLength front) := by
  rw [bracketFrom?, suffix?_append]
  rfl

theorem bracketFrom?_skip {c : Char} (hc : c ≠ '<') (front rest : List Char) :
    bracketFrom? (front ++ c :: rest) (byteLength front) =
      bracketFrom? (front ++ [c] ++ rest) (byteLength (front ++ [c])) := by
  have hlength : byteLength (front ++ [c]) = byteLength front + c.utf8Size := by
    rw [byteLength_append, byteLength_cons, byteLength_nil, Nat.add_zero]
  rw [bracketFrom?, bracketFrom?, suffix?_append, suffix?_append, Option.bind_some,
    Option.bind_some, firstAt?, if_neg (by simpa using hc), Option.map_map, hlength]
  congr 1
  funext offset
  exact (Nat.add_assoc _ _ _).symm

/-- The first tag behind a front of a text, told from the tokens of what follows the front. -/
inductive NextTag (front : List Char) : List Char → List Token → Option TagSpot → Prop where
  | none (rest : List Char) : NextTag front rest (rest.map .text) none
  | tag (gap : List Char) (tag : Tag) (after : List Char) :
      NextTag front (gap ++ (tag.text ++ after)) (gap.map .text ++ .tag tag :: Token.scan after)
        (some (tag.spot (byteLength (front ++ gap))))

theorem NextTag.cons {front rest : List Char} {c : Char} {tokens : List Token}
    {found : Option TagSpot} (h : NextTag (front ++ [c]) rest tokens found) :
    NextTag front (c :: rest) (.text c :: tokens) found := by
  cases h with
  | none => exact .none (c :: rest)
  | tag gap tag after =>
    rw [List.append_assoc, List.singleton_append]
    exact .tag (c :: gap) tag after

/-- From the end of a character on, the search finds the first tag that scanning finds. -/
theorem exists_nextTag (front rest : List Char) :
    ∃ found, nextTag (front ++ rest) (byteLength front) = .ok found ∧
      NextTag front rest (Token.scan rest) found := by
  fun_induction Token.scan rest generalizing front with
  | case1 => exact ⟨none, nextTag_of_none (bracketFrom?_nil front), .none []⟩
  | case2 rest hread ih =>
    obtain ⟨found, hfound, hnext⟩ := ih (front ++ ['<'])
    refine ⟨found, ?_, hnext.cons⟩
    rw [nextTag_of_some (bracketFrom?_bracket front rest), sightAt_eq, hread, ok_bind]
    rw [byteLength_append, List.append_assoc] at hfound
    exact hfound
  | case3 rest hread =>
    refine ⟨none, ?_, .none ('<' :: rest)⟩
    rw [nextTag_of_some (bracketFrom?_bracket front rest), sightAt_eq, hread]
    rfl
  | case4 rest tag after hread _ ih =>
    refine ⟨some (tag.spot (byteLength front)), ?_, ?_⟩
    · rw [nextTag_of_some (bracketFrom?_bracket front rest), sightAt_eq, hread]
      rfl
    · have hnext : NextTag front _ _ _ := .tag [] tag after
      rwa [List.append_nil, List.nil_append, ← eq_of_readTag hread] at hnext
  | case5 c rest hc ih =>
    obtain ⟨found, hfound, hnext⟩ := ih (front ++ [c])
    refine ⟨found, ?_, hnext.cons⟩
    have hsplit : front ++ c :: rest = front ++ [c] ++ rest := by simp
    have hskip := bracketFrom?_skip hc front rest
    rw [← hsplit] at hskip hfound
    rw [nextTag_congr hskip, hfound]

theorem nextTag_bounds {text : List Char} {cursor : Nat} {spot : TagSpot}
    (h : nextTag text cursor = .ok (some spot)) :
    cursor < spot.stop ∧ spot.stop ≤ byteLength text := by
  cases hrest : suffix? text cursor with
  | none =>
    rw [nextTag_of_none (by rw [bracketFrom?, hrest]; rfl)] at h
    cases h
  | some rest =>
    obtain ⟨front, rfl, rfl⟩ := exists_of_suffix? hrest
    obtain ⟨found, hfound, hnext⟩ := exists_nextTag front rest
    obtain rfl : found = some spot := Except.ok.inj (hfound.symm.trans h)
    generalize Token.scan rest = tokens at hnext
    cases hnext with
    | tag gap tag after =>
      have hpos : 0 < byteLength tag.text := byteLength_pos (by rw [tag.text_eq]; simp)
      simp only [Tag.spot, byteLength_append]
      omega

/-- The search meets no fault, wherever it starts. -/
theorem nextTag_ne_error (text : List Char) (cursor : Nat) :
    ∃ found, nextTag text cursor = .ok found := by
  cases hrest : suffix? text cursor with
  | none => exact ⟨none, nextTag_of_none (by rw [bracketFrom?, hrest]; rfl)⟩
  | some rest =>
    obtain ⟨front, rfl, rfl⟩ := exists_of_suffix? hrest
    obtain ⟨found, hfound, -⟩ := exists_nextTag front rest
    exact ⟨found, hfound⟩

end LiveMarkup
