import LiveMarkup.Proofs.Markup.Cursor

/-!
Seeking elements with a cursor. Loops over the tags of a text go on from where the last tag ended
(`cursor_induction`): one collects the tags (`tagsFrom`), one looks for the tag that closes an
element, counting those of its name (`closeAt`), and one for the element with an id (`locateAt`). A
write cuts the text at the offsets that were found (`setInnerAt`). They meet no fault and give what
the search among tokens gives, in bytes (`locateAt_eq`, `setInnerAt_eq`).
-/

set_option autoImplicit false
set_option relaxedAutoImplicit false

namespace LiveMarkup

/-! ### Loops over tags -/

/-- The place of an element that is a single tag. -/
def TagSpot.alone (tag : TagSpot) : Place :=
  ⟨tag.name, tag.start, tag.stop, tag.stop, tag.stop, tag.stop, true⟩

/-- The place of an element between two tags. -/
def TagSpot.around (tag close : TagSpot) : Place :=
  ⟨tag.name, tag.start, tag.stop, tag.stop, close.start, close.stop, false⟩

/-- The tags from a cursor on, each looked for where the one before it ends. -/
def tagsFrom (text : List Char) (cursor : Nat) : Except OffsetFault (List TagSpot) :=
  match h : nextTag text cursor with
  | .error fault => .error fault
  | .ok none => .ok []
  | .ok (some spot) =>
    have := nextTag_bounds h
    (tagsFrom text spot.stop).map (spot :: ·)
  termination_by byteLength text - cursor

/-- The tag that closes an element with this name, of which `depth` are open at the cursor. -/
def closeAt (text name : List Char) (depth cursor : Nat) : Except OffsetFault (Option TagSpot) :=
  match h : nextTag text cursor with
  | .error fault => .error fault
  | .ok none => .ok none
  | .ok (some spot) =>
    have := nextTag_bounds h
    if spot.name ≠ name then closeAt text name depth spot.stop
    else
      match spot.kind with
      | .opening => closeAt text name (depth + 1) spot.stop
      | .selfClosing => closeAt text name depth spot.stop
      | .closing => do
        let depth ← difference depth 1
        if depth = 0 then return some spot else closeAt text name depth spot.stop
  termination_by byteLength text - cursor

/-- The place of the element with an id, looked for from a cursor on. -/
def locateAt (text id : List Char) (cursor : Nat) : Except OffsetFault (Option Place) :=
  match h : nextTag text cursor with
  | .error fault => .error fault
  | .ok none => .ok none
  | .ok (some spot) =>
    have := nextTag_bounds h
    if spot.kind = .closing then locateAt text id spot.stop
    else do
      let shown ← slice text spot.start spot.stop
      if !occursIn (" id=\"".toList ++ id ++ ['"']) shown then locateAt text id spot.stop
      else if spot.kind = .selfClosing then return some spot.alone
      else return (← closeAt text spot.name 1 spot.stop).map spot.around
  termination_by byteLength text - cursor

/-- A text with another one inside the element at a place. -/
def writeAt (text : List Char) (place : Place) (new : List Char) :
    Except OffsetFault (List Char) := do
  if place.selfClosing then
    let head ← slice text place.start (← difference place.openEnd 2)
    splice text place.start place.stop
      (head ++ '>' :: new ++ ("</".toList ++ place.name ++ ['>']))
  else splice text place.innerStart place.innerEnd new

/-- A text with another one inside the element with an id, if there is one. -/
def setInnerAt (text id new : List Char) : Except OffsetFault (Option (List Char)) := do
  match ← locateAt text id 0 with
  | none => return none
  | some place => return some (← writeAt text place new)

/-! ### One round of a loop -/

section
variable {text : List Char} {cursor : Nat} {spot : TagSpot}

theorem tagsFrom_of_none (h : nextTag text cursor = .ok none) : tagsFrom text cursor = .ok [] := by
  rw [tagsFrom]
  split <;> rename_i heq <;> rw [h] at heq <;> cases heq

theorem tagsFrom_of_some (h : nextTag text cursor = .ok (some spot)) :
    tagsFrom text cursor = (tagsFrom text spot.stop).map (spot :: ·) := by
  rw [tagsFrom]
  split <;> rename_i heq <;> rw [h] at heq <;> cases heq
  rfl

theorem closeAt_of_none (name : List Char) (depth : Nat) (h : nextTag text cursor = .ok none) :
    closeAt text name depth cursor = .ok none := by
  rw [closeAt]
  split <;> rename_i heq <;> rw [h] at heq <;> cases heq

theorem closeAt_of_ne {name : List Char} (depth : Nat) (h : nextTag text cursor = .ok (some spot))
    (hname : spot.name ≠ name) :
    closeAt text name depth cursor = closeAt text name depth spot.stop := by
  rw [closeAt]
  split <;> rename_i heq <;> rw [h] at heq <;> cases heq
  rw [if_pos hname]

theorem closeAt_of_eq {name : List Char} (depth : Nat) (h : nextTag text cursor = .ok (some spot))
    (hname : spot.name = name) :
    closeAt text name depth cursor =
      match spot.kind with
      | .opening => closeAt text name (depth + 1) spot.stop
      | .selfClosing => closeAt text name depth spot.stop
      | .closing => difference depth 1 >>= fun depth ↦
        if depth = 0 then .ok (some spot) else closeAt text name depth spot.stop := by
  rw [closeAt]
  split <;> rename_i heq <;> rw [h] at heq <;> cases heq
  rw [if_neg (not_not_intro hname)]
  rfl

theorem locateAt_of_none (id : List Char) (h : nextTag text cursor = .ok none) :
    locateAt text id cursor = .ok none := by
  rw [locateAt]
  split <;> rename_i heq <;> rw [h] at heq <;> cases heq

theorem locateAt_of_some (id : List Char) (h : nextTag text cursor = .ok (some spot)) :
    locateAt text id cursor =
      if spot.kind = .closing then locateAt text id spot.stop
      else slice text spot.start spot.stop >>= fun shown ↦
        if !occursIn (" id=\"".toList ++ id ++ ['"']) shown then locateAt text id spot.stop
        else if spot.kind = .selfClosing then .ok (some spot.alone)
        else closeAt text spot.name 1 spot.stop >>= fun close? ↦
          .ok (close?.map spot.around) := by
  rw [locateAt]
  split <;> rename_i heq <;> rw [h] at heq <;> cases heq
  rfl

end

/-! ### Whole loops -/

/-- A loop over the tags of a text: what holds where no tag is left, and passes from the end of a
tag back to where the search for it started, holds from the end of each character on. -/
theorem cursor_induction {motive : List Char → List Char → Prop}
    (done : ∀ front rest, nextTag (front ++ rest) (byteLength front) = .ok none →
      Token.scan rest = rest.map .text → motive front rest)
    (next : ∀ (front gap : List Char) (tag : Tag) (after : List Char),
      nextTag (front ++ gap ++ tag.text ++ after) (byteLength front) =
        .ok (some (tag.spot (byteLength (front ++ gap)))) →
      Token.scan (gap ++ (tag.text ++ after)) = gap.map .text ++ .tag tag :: Token.scan after →
      motive (front ++ gap ++ tag.text) after → motive front (gap ++ (tag.text ++ after)))
    (front rest : List Char) : motive front rest := by
  induction hlength : rest.length using Nat.strongRecOn generalizing front rest with
  | ind n ih =>
    obtain ⟨found, hfound, hnext⟩ := exists_nextTag front rest
    generalize htokens : Token.scan rest = tokens at hnext
    cases hnext with
    | none => exact done front rest hfound htokens
    | tag gap tag after =>
      have hshorter : after.length < n := by
        rw [← hlength, tag.text_eq]
        simp only [List.length_append, List.length_cons]
        omega
      have hsplit : front ++ (gap ++ (tag.text ++ after)) = front ++ gap ++ tag.text ++ after := by
        simp only [List.append_assoc]
      rw [hsplit] at hfound
      exact next front gap tag after hfound htokens (ih _ hshorter _ after rfl)

/-- The places of the tags among tokens, the first of which starts at an offset. -/
def spots (offset : Nat) : List Token → List TagSpot
  | [] => []
  | .text c :: rest => spots (offset + byteLength [c]) rest
  | .tag tag :: rest => tag.spot offset :: spots (offset + byteLength tag.text) rest

theorem spots_append (offset : Nat) (front rest : List Token) :
    spots offset (front ++ rest) =
      spots offset front ++ spots (offset + byteLength (Token.allChars front)) rest := by
  induction front generalizing offset with
  | nil => rfl
  | cons token front ih =>
    rw [List.cons_append, Token.allChars_cons, byteLength_append, ← Nat.add_assoc]
    cases token with
    | text c =>
      rw [spots, spots, ih]
      rfl
    | tag tag =>
      rw [spots, spots, ih, List.cons_append]
      rfl

theorem spots_map_text (offset : Nat) (text : List Char) : spots offset (text.map .text) = [] := by
  induction text generalizing offset with
  | nil => rfl
  | cons c rest ih => exact ih _

/-- The loop over all tags finds those that scanning finds. -/
theorem tagsFrom_eq (front rest : List Char) :
    tagsFrom (front ++ rest) (byteLength front) =
      .ok (spots (byteLength front) (Token.scan rest)) := by
  induction front, rest using cursor_induction with
  | done front rest hnone hscan => rw [tagsFrom_of_none hnone, hscan, spots_map_text]
  | next front gap tag after hsome hscan ih =>
    have hsplit : front ++ (gap ++ (tag.text ++ after)) = front ++ gap ++ tag.text ++ after := by
      simp only [List.append_assoc]
    rw [hsplit, tagsFrom_of_some hsome, tag.stop_spot, ih, hscan, spots_append, spots_map_text,
      Token.allChars_map_text, ← byteLength_append, List.nil_append, spots, ← byteLength_append]
    rfl

/-- The place of the tag that closes an element, for a search behind a front of a text. -/
def closeSpot (front : List Char) (found : List Token × Tag × List Token) : TagSpot :=
  found.2.1.spot (byteLength (front ++ Token.allChars found.1))

theorem closeSpot_passing (front : List Char) (tokens : List Token)
    (found : List Token × Tag × List Token) :
    closeSpot front (passing tokens found) =
      closeSpot (front ++ Token.allChars tokens) found := by
  rw [closeSpot, closeSpot, passing, Token.allChars_append, List.append_assoc]

theorem splitClose?_map_text (name : List Char) (depth : Nat) (text : List Char)
    (rest : List Token) :
    splitClose? name depth (text.map .text ++ rest) =
      (splitClose? name depth rest).map (passing (text.map .text)) := by
  induction text with
  | nil =>
    rw [List.map_nil, List.nil_append]
    cases splitClose? name depth rest <;> rfl
  | cons c text ih =>
    show (splitClose? name depth (text.map .text ++ rest)).map (passing [.text c]) = _
    rw [ih, Option.map_map]
    rfl

/-- The loop for the tag that closes an element finds the one that the search finds. -/
theorem closeAt_eq (name : List Char) (depth : Nat) (front rest : List Char) :
    closeAt (front ++ rest) name (depth + 1) (byteLength front) =
      .ok ((splitClose? name depth (Token.scan rest)).map (closeSpot front)) := by
  induction front, rest using cursor_induction generalizing depth with
  | done front rest hnone hscan =>
    have hnothing := splitClose?_map_text name depth rest []
    rw [List.append_nil] at hnothing
    rw [closeAt_of_none name _ hnone, hscan, hnothing]
    rfl
  | next front gap tag after hsome hscan ih =>
    have hsplit : front ++ (gap ++ (tag.text ++ after)) = front ++ gap ++ tag.text ++ after := by
      simp only [List.append_assoc]
    have hpass (found : Option (List Token × Tag × List Token)) :
        ((found.map (passing [.tag tag])).map (passing (gap.map .text))).map (closeSpot front) =
          found.map (closeSpot (front ++ gap ++ tag.text)) := by
      rw [Option.map_map, Option.map_map]
      congr 1
      funext split
      simp only [Function.comp_apply, closeSpot_passing, Token.allChars_map_text]
      rw [Token.allChars_cons, Token.allChars, List.flatMap_nil, List.append_nil]
      rfl
    -- the loop and the search pass over the tag alike, with as many elements open behind it
    have honward (later : Nat) (hstep : splitClose? name depth (.tag tag :: Token.scan after) =
          (splitClose? name later (Token.scan after)).map (passing [.tag tag])) :
        closeAt (front ++ gap ++ tag.text ++ after) name (later + 1)
            (tag.spot (byteLength (front ++ gap))).stop =
          .ok (((splitClose? name depth (.tag tag :: Token.scan after)).map
            (passing (gap.map .text))).map (closeSpot front)) := by
      rw [hstep, hpass, tag.stop_spot, ih]
    rw [hsplit, hscan, splitClose?_map_text]
    by_cases hname : tag.name = name
    · rw [closeAt_of_eq _ hsome hname]
      cases hkind : tag.kind with
      | opening =>
        rw [tag.kind_spot, hkind]
        refine honward (depth + 1) ?_
        simp only [splitClose?, hname, hkind, if_true]
        rfl
      | selfClosing =>
        rw [tag.kind_spot, hkind]
        refine honward depth ?_
        simp only [splitClose?, hname, hkind, if_true]
        rfl
      | closing =>
        rw [tag.kind_spot, hkind, difference_of_le (Nat.le_add_left 1 depth), Nat.add_sub_cancel]
        dsimp only
        rw [ok_bind]
        cases depth with
        | zero =>
          rw [if_pos rfl, ← hname, splitClose?_found hkind, Option.map_some, Option.map_some,
            closeSpot_passing, Token.allChars_map_text, closeSpot, Token.allChars, List.flatMap_nil,
            List.append_nil]
        | succ depth =>
          rw [if_neg (Nat.succ_ne_zero depth)]
          refine honward depth ?_
          simp only [splitClose?, hname, hkind, if_true]
          rfl
    · rw [closeAt_of_ne _ hsome hname]
      refine honward depth ?_
      simp only [splitClose?, hname, if_false]
      rfl

/-- Where an element stands depends on the text in front of it, not on how it was read. -/
theorem Located.place_behind_congr {tokens other : List Token}
    (h : Token.allChars tokens = Token.allChars other) (element : Located) :
    (element.behind tokens).place = (element.behind other).place := by
  have hbefore : Token.allChars (element.behind tokens).before =
      Token.allChars (element.behind other).before := by
    rw [behind, behind, Token.allChars_append, Token.allChars_append, h]
  rw [place, place, hbefore]
  rfl

theorem place_alone (before after : List Token) (tag : Tag) :
    Located.place ⟨before, tag, [], none, after⟩ =
      (tag.spot (byteLength (Token.allChars before))).alone := by
  simp [Located.place, Located.innerText, Located.outerText, Token.allChars, TagSpot.alone,
    Tag.spot, byteLength_append]

theorem place_around (before inner after : List Token) (tag close : Tag) :
    Located.place ⟨before, tag, inner, some close, after⟩ =
      (tag.spot (byteLength (Token.allChars before))).around
        (close.spot (byteLength (Token.allChars before ++ tag.text ++ Token.allChars inner))) := by
  simp [Located.place, Located.innerText, Located.outerText, TagSpot.around, Tag.spot,
    byteLength_append, Nat.add_assoc]

/-- Reading goes on behind a tag as behind the text that the tag was read from. -/
theorem place_behind_tag (front gap : List Char) (tag : Tag) (element : Located) :
    (((element.behind [.tag tag]).behind (gap.map .text)).behind (front.map .text)).place =
      (element.behind ((front ++ gap ++ tag.text).map .text)).place := by
  have hchars : Token.allChars (front.map .text ++ (gap.map .text ++ [.tag tag])) =
      Token.allChars ((front ++ gap ++ tag.text).map .text) := by
    rw [Token.allChars_append, Token.allChars_append, Token.allChars_map_text,
      Token.allChars_map_text, Token.allChars_map_text, Token.allChars_cons, List.append_assoc]
    exact congrArg (fun text ↦ front ++ (gap ++ text)) (List.append_nil tag.text)
  rw [← element.place_behind_congr hchars]
  simp only [Located.behind, List.append_assoc]

/-- At the first tag that shows an id, the loop finds the place of the element that the search
finds, or that it is not closed. -/
theorem place_of_shows {id : List Char} {tag : Tag} (hshows : tag.showsId id = true)
    (hkind : tag.kind ≠ .closing) (front gap after : List Char) :
    (if tag.kind = .selfClosing then
        .ok (some (tag.spot (byteLength (front ++ gap))).alone)
      else
        closeAt (front ++ gap ++ tag.text ++ after) tag.name 1
            (byteLength (front ++ gap ++ tag.text)) >>= fun close? ↦
          .ok (close?.map (tag.spot (byteLength (front ++ gap))).around)) =
      .ok (((locate? id (.tag tag :: Token.scan after)).map
        (Located.behind (gap.map .text))).map fun element ↦
          (element.behind (front.map .text)).place) := by
  have hbefore : Token.allChars (front.map .text ++ (gap.map .text ++ [])) = front ++ gap := by
    rw [List.append_nil, Token.allChars_append, Token.allChars_map_text, Token.allChars_map_text]
  cases hcase : tag.kind with
  | closing => exact absurd hcase hkind
  | selfClosing =>
    rw [if_pos rfl, locate?_alone hshows hcase, Option.map_some, Option.map_some, Located.behind,
      Located.behind, place_alone, hbefore]
  | opening =>
    rw [if_neg (by decide), locate?_opening hshows hcase, closeAt_eq, ok_bind]
    cases splitClose? tag.name 0 (Token.scan after) with
    | none => rfl
    | some found =>
      have hplace := place_around (front.map .text ++ (gap.map .text ++ [])) found.1 found.2.2 tag
        found.2.1
      rw [hbefore] at hplace
      exact congrArg (Except.ok ∘ some) hplace.symm

/-- The loop for an element with an id finds the place of the one that the search finds. -/
theorem locateAt_eq (id front rest : List Char) :
    locateAt (front ++ rest) id (byteLength front) =
      .ok ((locate? id (Token.scan rest)).map fun element ↦
        (element.behind (front.map .text)).place) := by
  have htext (text : List Char) : ∀ token ∈ text.map Token.text, token.hits id = false := by
    intro token htoken
    obtain ⟨c, -, rfl⟩ := List.mem_map.mp htoken
    rfl
  induction front, rest using cursor_induction with
  | done front rest hnone hscan =>
    rw [locateAt_of_none id hnone, hscan, locate?_eq_none_of_forall (htext rest)]
    rfl
  | next front gap tag after hsome hscan ih =>
    have hsplit : front ++ (gap ++ (tag.text ++ after)) = front ++ gap ++ tag.text ++ after := by
      simp only [List.append_assoc]
    have hskip (hmiss : Token.hits id (.tag tag) = false) :
        locateAt (front ++ gap ++ tag.text ++ after) id (byteLength (front ++ gap ++ tag.text)) =
          .ok (((locate? id (.tag tag :: Token.scan after)).map
            (Located.behind (gap.map .text))).map fun element ↦
              (element.behind (front.map .text)).place) := by
      rw [locate?_skip hmiss, Option.map_map, Option.map_map, ih]
      congr 2
      funext element
      exact (place_behind_tag front gap tag element).symm
    have hslice : slice (front ++ gap ++ tag.text ++ after) (byteLength (front ++ gap))
        (byteLength (front ++ gap ++ tag.text)) = .ok tag.text := by
      rw [List.append_assoc (front ++ gap)]
      exact slice_append (front ++ gap) tag.text after
    rw [hsplit, hscan, locate?_append (htext gap), locateAt_of_some id hsome, tag.kind_spot,
      tag.stop_spot]
    by_cases hclosing : tag.kind = .closing
    · rw [if_pos hclosing]
      exact hskip (by simp [Token.hits, hclosing])
    · rw [if_neg hclosing, tag.start_spot, tag.name_spot, hslice, ok_bind]
      change (if (!tag.showsId id) = true then _ else _) = _
      cases hshows : tag.showsId id with
      | false => exact hskip (by simp [Token.hits, hshows])
      | true =>
        rw [if_neg (by decide)]
        exact place_of_shows hshows hclosing front gap after

theorem locateAt_zero (text id : List Char) :
    locateAt text id 0 = .ok ((locate? id (Token.scan text)).map Located.place) :=
  locateAt_eq id [] text

/-! ### Writing into an element -/

/-- A tag that closes itself ends in a slash and a `>`, in front of which it is the opening tag that
it becomes. -/
theorem Tag.exists_text_of_selfClosing {tag : Tag} (h : tag.kind = .selfClosing) :
    ∃ stem, tag.text = stem ++ ['/', '>'] ∧
      Tag.text { tag with body := tag.body.dropLast } = stem ++ ['>'] := by
  obtain ⟨-, hbody⟩ := Tag.body_of_selfClosing h
  refine ⟨_, ?_, rfl⟩
  rw [text, hbody, List.dropLast_concat]
  simp only [List.append_assoc, List.cons_append, List.nil_append]

theorem writeAt_alone {tag : Tag} (h : tag.kind = .selfClosing) (before after : List Token)
    (new : List Char) :
    writeAt (Token.allChars (before ++ .tag tag :: after))
        (Located.place ⟨before, tag, [], none, after⟩) new =
      .ok (Located.withInner ⟨before, tag, [], none, after⟩ new) := by
  obtain ⟨stem, hstem, hopen⟩ := Tag.exists_text_of_selfClosing h
  obtain ⟨front, hfront⟩ : ∃ front, Token.allChars before = front := ⟨_, rfl⟩
  have htext : Token.allChars (before ++ .tag tag :: after) =
      front ++ (tag.text ++ Token.allChars after) := by
    rw [Token.allChars_append, Token.allChars_cons, hfront]
    rfl
  have hdifference : difference (byteLength (front ++ tag.text)) 2 =
      .ok (byteLength (front ++ stem)) := by
    have htwo : byteLength (front ++ tag.text) = byteLength (front ++ stem) + 2 := by
      rw [hstem, ← List.append_assoc]
      exact byteLength_append _ ['/', '>']
    rw [htwo, difference_of_le (Nat.le_add_left 2 _), Nat.add_sub_cancel]
  have hslice : slice (front ++ (tag.text ++ Token.allChars after)) (byteLength front)
      (byteLength (front ++ stem)) = .ok stem := by
    rw [hstem, List.append_assoc stem]
    exact slice_append front stem _
  have hopenTag : (Located.openTag ⟨before, tag, [], none, after⟩).text = stem ++ ['>'] := hopen
  have hcloseTag : (Located.closeTag ⟨before, tag, [], none, after⟩).text =
      "</".toList ++ tag.name ++ ['>'] := by
    rw [Located.closeTag, Option.getD_none, Tag.text, List.append_nil]
    rfl
  have halone : (tag.spot (byteLength front)).alone.selfClosing = true := rfl
  rw [place_alone, hfront, htext, writeAt, if_pos halone]
  dsimp only [TagSpot.alone]
  rw [tag.stop_spot, tag.start_spot, tag.name_spot, hdifference, ok_bind, hslice, ok_bind,
    splice_append, Located.withInner_eq, hopenTag, hcloseTag, hfront]
  simp only [List.append_assoc, List.cons_append, List.nil_append]

theorem writeAt_around (before inner after : List Token) (tag close : Tag) (new : List Char) :
    writeAt (Token.allChars (before ++ .tag tag :: (inner ++ .tag close :: after)))
        (Located.place ⟨before, tag, inner, some close, after⟩) new =
      .ok (Located.withInner ⟨before, tag, inner, some close, after⟩ new) := by
  obtain ⟨front, hfront⟩ : ∃ front, Token.allChars before ++ tag.text = front := ⟨_, rfl⟩
  have htext : Token.allChars (before ++ .tag tag :: (inner ++ .tag close :: after)) =
      front ++ (Token.allChars inner ++ (close.text ++ Token.allChars after)) := by
    rw [← hfront, Token.allChars_append, Token.allChars_cons, Token.allChars_append,
      Token.allChars_cons, List.append_assoc]
    rfl
  have hopenTag : Located.openTag ⟨before, tag, inner, some close, after⟩ = tag := rfl
  have hcloseTag : Located.closeTag ⟨before, tag, inner, some close, after⟩ = close := rfl
  have haround (start : TagSpot) (stop : TagSpot) : ¬(start.around stop).selfClosing = true :=
    Bool.false_ne_true
  rw [place_around, hfront, htext, writeAt, if_neg (haround _ _)]
  dsimp only [TagSpot.around]
  rw [tag.stop_spot, hfront, close.start_spot, splice_append,
    Located.withInner_eq, hopenTag, hcloseTag, ← hfront]
  simp only [List.append_assoc]

/-- Writing at offsets is writing into the element that the search finds. -/
theorem setInnerAt_eq (text id new : List Char) :
    setInnerAt text id new =
      .ok ((locate? id (Token.scan text)).map fun element ↦ element.withInner new) := by
  have hwrite {element : Located} (h : locate? id (Token.scan text) = some element) :
      writeAt text element.place new = .ok (element.withInner new) := by
    have hchars := Token.allChars_scan text
    generalize Token.scan text = tokens at h hchars
    rw [← hchars]
    cases locate?_eq_some_iff.mp h with
    | alone _ _ hkind => exact writeAt_alone hkind _ _ new
    | around => exact writeAt_around _ _ _ _ _ new
  rw [setInnerAt, locateAt_zero, ok_bind]
  cases hfound : locate? id (Token.scan text) with
  | none => rfl
  | some element =>
    rw [Option.map_some, Option.map_some]
    dsimp only
    rw [hwrite hfound]
    rfl

end LiveMarkup
