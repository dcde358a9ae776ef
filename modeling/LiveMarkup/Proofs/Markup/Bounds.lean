import LiveMarkup.Proofs.Markup.Seeking

/-!
Where elements stand. The tags that are found in a text one behind the other are parts of it that
begin with `<`, end with `>` and do not overlap (`AreTags`). Which element has an id is told from
these tags alone (`Seeks`): it starts at the first one that shows the id without closing an element
and ends there, if that tag closes itself, or at the first later tag that brings the count of open
elements of its name from one to zero; without such a tag, or without one that shows the id, there
is none. No search and no write reaches for a place that the text does not have, and the offsets of
an element lie in order within the text and between its characters (`Surface.seek_bounds`).
-/

set_option autoImplicit false
set_option relaxedAutoImplicit false

namespace LiveMarkup

/-! ### Parts of a text -/

/-- A part of a text stands between two offsets. -/
def StandsAt (text part : List Char) (start stop : Nat) : Prop :=
  ∃ front back, text = front ++ (part ++ back) ∧ byteLength front = start ∧
    byteLength (front ++ part) = stop

/-- A text can be cut at an offset. -/
def IsBoundary (text : List Char) (offset : Nat) : Prop :=
  ∃ front rest, text = front ++ rest ∧ byteLength front = offset

/-- Between two offsets stands one part. -/
theorem StandsAt.unique {text part other : List Char} {start stop : Nat}
    (h : StandsAt text part start stop) (h' : StandsAt text other start stop) : part = other := by
  have hslice {part : List Char} (h : StandsAt text part start stop) :
      slice text start stop = .ok part := by
    obtain ⟨front, back, rfl, rfl, rfl⟩ := h
    exact slice_append front part back
  exact Except.ok.inj ((hslice h).symm.trans (hslice h'))

/-- A list is split at the first of its elements for which a property of it and of what stands in
front of it holds. -/
structure IsFirst {α : Type} (p : List α → α → Prop) (xs front : List α) (x : α) (back : List α) :
    Prop where
  eq : xs = front ++ x :: back
  holds : p front x
  first : ∀ front' y back', front = front' ++ y :: back' → ¬p front' y

theorem IsFirst.unique {α : Type} {p : List α → α → Prop} {xs front front' back back' : List α}
    {x x' : α} (h : IsFirst p xs front x back) (h' : IsFirst p xs front' x' back') :
    front = front' ∧ x = x' ∧ back = back' := by
  -- of two splits one lies behind the other
  have hsame := h.eq.symm.trans h'.eq
  rcases List.append_eq_append_iff.mp hsame with ⟨between, rfl, hbetween⟩ | ⟨between, rfl, hbetween⟩
  · cases between with
    | nil =>
      obtain ⟨rfl, rfl⟩ := List.cons.inj hbetween
      exact ⟨(List.append_nil front).symm, rfl, rfl⟩
    | cons y between =>
      obtain ⟨rfl, -⟩ := List.cons.inj hbetween
      exact absurd h.holds (h'.first front x between rfl)
  · cases between with
    | nil =>
      obtain ⟨rfl, rfl⟩ := List.cons.inj hbetween
      exact ⟨List.append_nil front', rfl, rfl⟩
    | cons y between =>
      obtain ⟨rfl, -⟩ := List.cons.inj hbetween
      exact absurd h'.holds (h.first front' x' between rfl)

/-! ### Tags in a text -/

/-- The places in a text are such of tags: each begins with `<` and ends behind `>`, and the next
one begins where it ends or later. -/
structure AreTags (text : List Char) (tags : List TagSpot) : Prop where
  nonempty : ∀ tag ∈ tags, tag.start < tag.stop
  framed : ∀ tag ∈ tags, ∃ body, StandsAt text ('<' :: (body ++ ['>'])) tag.start tag.stop
  ordered : tags.Pairwise fun earlier later ↦ earlier.stop ≤ later.start

namespace TagSpot

/-- The tag shows an id and does not close an element. -/
def Shows (text id : List Char) (tag : TagSpot) : Prop :=
  tag.kind ≠ .closing ∧ ∃ shown, StandsAt text shown tag.start tag.stop ∧
    " id=\"".toList ++ id ++ ['"'] <:+: shown

/-- The tag opens an element with a name. -/
def opens (name : List Char) (tag : TagSpot) : Bool := tag.name == name && tag.kind == .opening

/-- The tag closes an element with a name. -/
def closes (name : List Char) (tag : TagSpot) : Bool := tag.name == name && tag.kind == .closing

/-- How many elements of a name tags open, less those that they close. -/
def openCount (name : List Char) (tags : List TagSpot) : Int :=
  tags.countP (opens name) - tags.countP (closes name)

/-- A later tag brings the count of open elements with the name of a tag, from that tag on, from one
to zero. -/
def ClosedBy (tag : TagSpot) (between : List TagSpot) (close : TagSpot) : Prop :=
  openCount tag.name (tag :: between) = 1 ∧ openCount tag.name (tag :: (between ++ [close])) = 0

/-- How the element ends that starts with a tag, told from the tags behind it. -/
inductive Ends (tag : TagSpot) (later : List TagSpot) : Option Place → Prop where
  | alone (hkind : tag.kind = .selfClosing) : Ends tag later (some tag.alone)
  | closed {between rest : List TagSpot} {close : TagSpot} (hkind : tag.kind = .opening)
      (hclose : IsFirst tag.ClosedBy later between close rest) :
      Ends tag later (some (tag.around close))
  | unclosed (hkind : tag.kind = .opening)
      (hopen : ∀ between close rest, later = between ++ close :: rest →
        ¬tag.ClosedBy between close) : Ends tag later none

end TagSpot

/-- The place of the element with an id, told from the tags of a text. -/
inductive Seeks (text id : List Char) (tags : List TagSpot) : Option Place → Prop where
  | absent (h : ∀ tag ∈ tags, ¬tag.Shows text id) : Seeks text id tags none
  | found {before later : List TagSpot} {tag : TagSpot} {place? : Option Place}
      (htag : IsFirst (fun _ tag ↦ tag.Shows text id) tags before tag later)
      (hends : tag.Ends later place?) : Seeks text id tags place?

theorem TagSpot.Ends.unique {tag : TagSpot} {later : List TagSpot} {place? other? : Option Place}
    (h : tag.Ends later place?) (h' : tag.Ends later other?) : place? = other? := by
  have hkinds (hopening : tag.kind = .opening) (hclosing : tag.kind = .selfClosing) : False := by
    rw [hopening] at hclosing
    cases hclosing
  cases h with
  | alone hkind =>
    cases h' with
    | alone => rfl
    | closed hkind' => exact (hkinds hkind' hkind).elim
    | unclosed hkind' => exact (hkinds hkind' hkind).elim
  | closed hkind hclose =>
    cases h' with
    | alone hkind' => exact (hkinds hkind hkind').elim
    | closed _ hclose' =>
      obtain ⟨-, rfl, -⟩ := hclose.unique hclose'
      rfl
    | unclosed _ hopen => exact absurd hclose.holds (hopen _ _ _ hclose.eq)
  | unclosed hkind hopen =>
    cases h' with
    | alone hkind' => exact (hkinds hkind hkind').elim
    | closed _ hclose => exact absurd hclose.holds (hopen _ _ _ hclose.eq)
    | unclosed => rfl

theorem Seeks.unique {text id : List Char} {tags : List TagSpot} {place? other? : Option Place}
    (h : Seeks text id tags place?) (h' : Seeks text id tags other?) : place? = other? := by
  have hsome {before later : List TagSpot} {tag : TagSpot}
      (htag : IsFirst (fun _ tag ↦ tag.Shows text id) tags before tag later)
      (habsent : ∀ tag ∈ tags, ¬tag.Shows text id) : False :=
    habsent tag (by rw [htag.eq]; simp) htag.holds
  cases h with
  | absent habsent =>
    cases h' with
    | absent => rfl
    | found htag => exact (hsome htag habsent).elim
  | found htag hends =>
    cases h' with
    | absent habsent => exact (hsome htag habsent).elim
    | found htag' hends' =>
      obtain ⟨-, rfl, rfl⟩ := htag.unique htag'
      exact hends.unique hends'

/-! ### Tags among tokens -/

/-- A split of the tags among tokens is a split of the tokens. -/
theorem exists_of_spots_eq {offset : Nat} {tokens : List Token} {front back : List TagSpot}
    {spot : TagSpot} (h : spots offset tokens = front ++ spot :: back) :
    ∃ before tag after, tokens = before ++ .tag tag :: after ∧ front = spots offset before ∧
      spot = tag.spot (offset + byteLength (Token.allChars before)) ∧
      back = spots (offset + byteLength (Token.allChars before) + byteLength tag.text) after := by
  induction tokens generalizing offset front with
  | nil => simp [spots] at h
  | cons token rest ih =>
    cases token with
    | text c =>
      obtain ⟨before, tag, after, rfl, rfl, rfl, rfl⟩ := ih h
      refine ⟨.text c :: before, tag, after, rfl, rfl, ?_, ?_⟩ <;>
        rw [Token.allChars_cons, byteLength_append, ← Nat.add_assoc] <;> rfl
    | tag tag =>
      cases front with
      | nil =>
        obtain ⟨rfl, rfl⟩ := List.cons.inj h
        exact ⟨[], tag, rest, rfl, rfl, rfl, rfl⟩
      | cons first front =>
        obtain ⟨rfl, hrest⟩ := List.cons.inj h
        obtain ⟨before, tag', after, rfl, rfl, rfl, rfl⟩ := ih hrest
        refine ⟨.tag tag :: before, tag', after, rfl, rfl, ?_, ?_⟩ <;>
          rw [Token.allChars_cons, byteLength_append, ← Nat.add_assoc] <;> rfl

/-- The tags of tokens from the start of a text on. -/
theorem spots_zero_append_cons (before after : List Token) (tag : Tag) :
    spots 0 (before ++ .tag tag :: after) =
      spots 0 before ++ tag.spot (byteLength (Token.allChars before)) ::
        spots (byteLength (Token.allChars before ++ tag.text)) after := by
  rw [spots_append, Nat.zero_add, spots, byteLength_append]

theorem exists_of_spots_zero_eq {tokens : List Token} {front back : List TagSpot} {spot : TagSpot}
    (h : spots 0 tokens = front ++ spot :: back) :
    ∃ before tag after, tokens = before ++ .tag tag :: after ∧ front = spots 0 before ∧
      spot = tag.spot (byteLength (Token.allChars before)) := by
  obtain ⟨before, tag, after, htokens, hfront, hspot, -⟩ := exists_of_spots_eq h
  rw [Nat.zero_add] at hspot
  exact ⟨before, tag, after, htokens, hfront, hspot⟩

theorem le_start_of_mem_spots {offset : Nat} {tokens : List Token} {spot : TagSpot}
    (h : spot ∈ spots offset tokens) : offset ≤ spot.start := by
  obtain ⟨front, back, hsplit⟩ := List.append_of_mem h
  obtain ⟨before, tag, after, -, -, rfl, -⟩ := exists_of_spots_eq hsplit
  exact Nat.le_add_right offset _

theorem pairwise_spots (offset : Nat) (tokens : List Token) :
    (spots offset tokens).Pairwise fun earlier later ↦ earlier.stop ≤ later.start := by
  induction tokens generalizing offset with
  | nil => exact .nil
  | cons token rest ih =>
    cases token with
    | text c => exact ih _
    | tag tag => exact .cons (fun _ hspot ↦ le_start_of_mem_spots hspot) (ih _)

theorem standsAt_spot (before after : List Token) (tag : Tag) :
    StandsAt (Token.allChars (before ++ .tag tag :: after)) tag.text
      (byteLength (Token.allChars before)) (byteLength (Token.allChars before ++ tag.text)) := by
  refine ⟨Token.allChars before, Token.allChars after, ?_, rfl, rfl⟩
  rw [Token.allChars_append, Token.allChars_cons]
  rfl

theorem areTags_spots (tokens : List Token) : AreTags (Token.allChars tokens) (spots 0 tokens) := by
  have hspot {spot : TagSpot} (h : spot ∈ spots 0 tokens) :
      ∃ before tag after, tokens = before ++ .tag tag :: after ∧
        spot = tag.spot (byteLength (Token.allChars before)) := by
    obtain ⟨front, back, hsplit⟩ := List.append_of_mem h
    obtain ⟨before, tag, after, htokens, -, hspot⟩ := exists_of_spots_zero_eq hsplit
    exact ⟨before, tag, after, htokens, hspot⟩
  refine ⟨fun spot h ↦ ?_, fun spot h ↦ ?_, pairwise_spots 0 tokens⟩
  · obtain ⟨before, tag, after, -, rfl⟩ := hspot h
    exact Nat.lt_add_of_pos_right (byteLength_pos (by rw [tag.text_eq]; simp))
  · obtain ⟨before, tag, after, rfl, rfl⟩ := hspot h
    refine ⟨(if tag.closing then ['/'] else []) ++ tag.name ++ tag.body, ?_⟩
    rw [tag.stop_spot]
    exact standsAt_spot before after tag

/-- A tag shows an id at its place if an element with the id can start at it. -/
theorem shows_spot_iff (id : List Char) (before after : List Token) (tag : Tag) :
    (tag.spot (byteLength (Token.allChars before))).Shows
        (Token.allChars (before ++ .tag tag :: after)) id ↔
      Token.hits id (.tag tag) = true := by
  have hstands := standsAt_spot before after tag
  rw [← tag.stop_spot] at hstands
  have hshows : tag.showsId id = true ↔ " id=\"".toList ++ id ++ ['"'] <:+: tag.text :=
    occursIn_iff _ _
  rw [Token.hits, Bool.and_eq_true, bne_iff_ne, hshows, TagSpot.Shows, tag.kind_spot]
  refine and_congr_right fun _ ↦ ⟨?_, fun h ↦ ⟨tag.text, hstands, h⟩⟩
  rintro ⟨shown, hshown, hwithin⟩
  rwa [← hstands.unique hshown] at hwithin

theorem isFirst_shows {id : List Char} {before after : List Token} {tag : Tag}
    (hbefore : ∀ token ∈ before, token.hits id = false)
    (hhits : Token.hits id (.tag tag) = true) :
    IsFirst (fun _ spot ↦ spot.Shows (Token.allChars (before ++ .tag tag :: after)) id)
      (spots 0 (before ++ .tag tag :: after)) (spots 0 before)
      (tag.spot (byteLength (Token.allChars before)))
      (spots (byteLength (Token.allChars before ++ tag.text)) after) := by
  refine ⟨spots_zero_append_cons before after tag, (shows_spot_iff id before after tag).mpr hhits,
    fun front' spot back' hsplit hshows ↦ ?_⟩
  obtain ⟨front, other, back, rfl, -, rfl⟩ := exists_of_spots_zero_eq hsplit
  rw [List.append_assoc, List.cons_append, shows_spot_iff] at hshows
  rw [hbefore (.tag other) (by simp)] at hshows
  cases hshows

/-! ### Open elements -/

theorem openCount_append (name : List Char) (front back : List TagSpot) :
    TagSpot.openCount name (front ++ back) =
      TagSpot.openCount name front + TagSpot.openCount name back := by
  rw [TagSpot.openCount, List.countP_append, List.countP_append, TagSpot.openCount,
    TagSpot.openCount]
  omega

theorem openCount_cons (name : List Char) (tag : TagSpot) (tags : List TagSpot) :
    TagSpot.openCount name (tag :: tags) =
      TagSpot.openCount name [tag] + TagSpot.openCount name tags :=
  openCount_append name [tag] tags

theorem openCount_spots (name : List Char) (offset : Nat) (tokens : List Token) :
    TagSpot.openCount name (spots offset tokens) =
      (openings name tokens : Int) - closings name tokens := by
  induction tokens generalizing offset with
  | nil => rfl
  | cons token rest ih =>
    rw [openings_cons, closings_cons]
    cases token with
    | text c =>
      have hrest := ih (offset + byteLength [c])
      rw [spots, hrest]
      simp [openings, closings, Token.opens, Token.closes]
    | tag tag =>
      have htag : TagSpot.openCount name [tag.spot offset] =
          (openings name [.tag tag] : Int) - closings name [.tag tag] := by
        simp only [TagSpot.openCount, openings, closings, List.countP_singleton]
        rfl
      rw [spots, openCount_cons, ih, htag]
      omega

/-- The count of open elements falls to zero at the end of balanced numbers of tags. -/
theorem closedBy_spots_iff {tag : Tag} (h : tag.kind = .opening) (start offset offset' : Nat)
    (inner : List Token) (close : Tag) :
    (tag.spot start).ClosedBy (spots offset inner) (close.spot offset') ↔
      closings tag.name inner = openings tag.name inner ∧ close.name = tag.name ∧
        close.kind = .closing := by
  have hfirst : TagSpot.openCount tag.name [tag.spot start] = 1 := by
    simp [TagSpot.openCount, TagSpot.opens, TagSpot.closes, Tag.spot, h]
  have hlast : TagSpot.openCount tag.name [close.spot offset'] = -1 ↔
      close.name = tag.name ∧ close.kind = .closing := by
    by_cases hclose : close.name = tag.name
    · cases hkind : close.kind <;>
        simp [TagSpot.openCount, TagSpot.opens, TagSpot.closes, Tag.spot, hclose, hkind]
    · simp [TagSpot.openCount, TagSpot.opens, TagSpot.closes, Tag.spot, hclose]
  rw [TagSpot.ClosedBy, tag.name_spot, openCount_cons _ _ (spots offset inner),
    openCount_cons _ _ (spots offset inner ++ _), openCount_append, openCount_spots, hfirst,
    ← hlast]
  omega

theorem counts_of_closing {name : List Char} {close : Tag} (hname : close.name = name)
    (hclose : close.kind = .closing) :
    closings name [.tag close] = 1 ∧ openings name [.tag close] = 0 := by
  simp [closings, openings, Token.opens, Token.closes, hname, hclose]

/-- The search for a closing tag finds the first that brings the count to zero. -/
theorem isFirst_closedBy {tag close : Tag} {inner : List Token} (h : tag.kind = .opening)
    (hname : close.name = tag.name) (hclose : close.kind = .closing)
    (hinner : Balanced tag.name inner) (start offset : Nat) (after : List Token) :
    IsFirst (tag.spot start).ClosedBy (spots offset (inner ++ .tag close :: after))
      (spots offset inner) (close.spot (offset + byteLength (Token.allChars inner)))
      (spots (offset + byteLength (Token.allChars inner) + byteLength close.text) after) := by
  refine ⟨?_, (closedBy_spots_iff h _ _ _ inner close).mpr ⟨hinner.closings_eq, hname, hclose⟩,
    fun front' spot back' hsplit hclosed ↦ ?_⟩
  · rw [spots_append, spots]
  · obtain ⟨front, other, back, rfl, rfl, rfl, -⟩ := exists_of_spots_eq hsplit
    obtain ⟨heq, hother, hkind⟩ := (closedBy_spots_iff h _ _ _ front other).mp hclosed
    -- the closing tag would be one too many in the front part that ends with it
    have hle := hinner.closings_le (front ++ [.tag other]) (by simp)
    obtain ⟨hclosings, hopenings⟩ := counts_of_closing hother hkind
    rw [closings_append, openings_append] at hle
    omega

/-- If the search for a closing tag finds none, no tag brings the count to zero. -/
theorem closings_ne_of_splitClose? {name : List Char} {depth : Nat} {tokens : List Token}
    (h : splitClose? name depth tokens = none) {inner after : List Token} {close : Tag}
    (htokens : tokens = inner ++ .tag close :: after) (hname : close.name = name)
    (hclose : close.kind = .closing) : closings name inner ≠ openings name inner + depth := by
  induction tokens generalizing depth inner with
  | nil => simp at htokens
  | cons token rest ih =>
    rcases splitClose?_cons name token depth rest with
      ⟨-, other, -, -, -, hfound⟩ | ⟨depth', hdepth, hstep⟩
    · rw [h] at hfound
      cases hfound
    · rw [hstep, Option.map_eq_none_iff] at h
      cases inner with
      | nil =>
        obtain ⟨rfl, -⟩ := List.cons.inj htokens
        obtain ⟨hclosings, hopenings⟩ := counts_of_closing hname hclose
        rw [closings_nil, openings_nil]
        omega
      | cons first inner =>
        obtain ⟨rfl, hrest⟩ := List.cons.inj htokens
        have hlater := ih h hrest
        rw [closings_cons, openings_cons]
        omega

/-! ### Elements -/

/-- There is no element with an id if no tag shows the id, or if the first one that does opens an
element that is not closed. -/
theorem locate?_eq_none_cases {id : List Char} {tokens : List Token}
    (h : locate? id tokens = none) :
    (∀ token ∈ tokens, token.hits id = false) ∨
      ∃ before tag after, tokens = before ++ .tag tag :: after ∧
        (∀ token ∈ before, token.hits id = false) ∧ Token.hits id (.tag tag) = true ∧
        tag.kind = .opening ∧ splitClose? tag.name 0 after = none := by
  induction tokens with
  | nil => exact .inl fun token htoken ↦ absurd htoken List.not_mem_nil
  | cons token rest ih =>
    cases hhits : token.hits id with
    | false =>
      rw [locate?_skip hhits, Option.map_eq_none_iff] at h
      rcases ih h with hnone | ⟨before, tag, after, rfl, hbefore, htag⟩
      · exact .inl (List.forall_mem_cons.mpr ⟨hhits, hnone⟩)
      · exact .inr ⟨token :: before, tag, after, rfl, List.forall_mem_cons.mpr ⟨hhits, hbefore⟩,
          htag⟩
    | true =>
      cases token with
      | text c => cases hhits
      | tag tag =>
        obtain ⟨hkind, hshows⟩ : tag.kind ≠ .closing ∧ tag.showsId id = true := by
          simpa [Token.hits] using hhits
        cases hcase : tag.kind with
        | closing => exact absurd hcase hkind
        | selfClosing =>
          rw [locate?_alone hshows hcase] at h
          cases h
        | opening =>
          rw [locate?_opening hshows hcase, Option.map_eq_none_iff] at h
          exact .inr ⟨[], tag, rest, rfl, fun token htoken ↦ absurd htoken List.not_mem_nil, hhits,
            hcase, h⟩

/-- The search finds what the tags tell. -/
theorem seeks_locate? (id : List Char) (tokens : List Token) :
    Seeks (Token.allChars tokens) id (spots 0 tokens) ((locate? id tokens).map Located.place) := by
  cases hfound : locate? id tokens with
  | none =>
    rcases locate?_eq_none_cases hfound with
      hnone | ⟨before, tag, after, rfl, hbefore, hhits, hkind, hopen⟩
    · refine .absent fun spot hspot hshows ↦ ?_
      obtain ⟨front, back, hsplit⟩ := List.append_of_mem hspot
      obtain ⟨before, tag, after, rfl, -, rfl⟩ := exists_of_spots_zero_eq hsplit
      rw [shows_spot_iff, hnone (.tag tag) (by simp)] at hshows
      cases hshows
    · refine .found (isFirst_shows hbefore hhits) (.unclosed hkind ?_)
      intro between spot rest hsplit hclosed
      obtain ⟨inner, close, after', hafter, rfl, rfl, -⟩ := exists_of_spots_eq hsplit
      obtain ⟨heq, hname, hclose⟩ := (closedBy_spots_iff hkind _ _ _ inner close).mp hclosed
      exact closings_ne_of_splitClose? hopen hafter hname hclose heq
  | some element =>
    have hhits {tag : Tag} (hshows : tag.showsId id = true) (hkind : tag.kind ≠ .closing) :
        Token.hits id (.tag tag) = true := by
      rw [Token.hits, hshows, Bool.and_true]
      exact bne_iff_ne.mpr hkind
    cases locate?_eq_some_iff.mp hfound with
    | @alone before after tag hbefore hshows hkind =>
      rw [Option.map_some, place_alone]
      refine .found (isFirst_shows hbefore (hhits hshows ?_)) (.alone hkind)
      rw [hkind]
      decide
    | @around before inner after tag close hbefore hshows hkind hname hclose hinner =>
      have hclosed := isFirst_closedBy hkind hname hclose hinner
        (byteLength (Token.allChars before)) (byteLength (Token.allChars before ++ tag.text)) after
      rw [Option.map_some, place_around, byteLength_append]
      refine .found (isFirst_shows hbefore (hhits hshows ?_)) (.closed hkind hclosed)
      rw [hkind]
      decide

/-- The offsets of a place lie in order within a text and between its characters. -/
structure Place.IsWithin (place : Place) (text : List Char) : Prop where
  start_lt : place.start < place.openEnd
  openEnd_le : place.openEnd ≤ place.innerStart
  innerStart_le : place.innerStart ≤ place.innerEnd
  innerEnd_le : place.innerEnd ≤ place.stop
  stop_le : place.stop ≤ byteLength text
  boundary : ∀ offset ∈ [place.start, place.openEnd, place.innerStart, place.innerEnd, place.stop],
    IsBoundary text offset

theorem Located.isWithin {id : List Char} {tokens : List Token} {element : Located}
    (h : locate? id tokens = some element) : element.place.IsWithin (Token.allChars tokens) := by
  have htext : Token.allChars tokens = Token.allChars element.before ++
      (element.tag.text ++ (element.innerText ++
        (element.close?.elim [] Tag.text ++ Token.allChars element.after))) := by
    cases locate?_eq_some_iff.mp h with
    | alone =>
      rw [Token.allChars_append, Token.allChars_cons]
      rfl
    | around =>
      rw [Token.allChars_append, Token.allChars_cons, Token.allChars_append, Token.allChars_cons]
      rfl
  have hpos : 0 < byteLength element.tag.text := byteLength_pos (by rw [element.tag.text_eq]; simp)
  have hboundary (front rest : List Char) (hsplit : Token.allChars tokens = front ++ rest) :
      IsBoundary (Token.allChars tokens) (byteLength front) := ⟨front, rest, hsplit, rfl⟩
  have houter : element.outerText =
      element.tag.text ++ (element.innerText ++ element.close?.elim [] Tag.text) :=
    List.append_assoc _ _ _
  refine ⟨?_, Nat.le_refl _, ?_, ?_, ?_, ?_⟩
  · simp only [Located.place, byteLength_append]
    omega
  · simp only [Located.place, byteLength_append]
    omega
  · simp only [Located.place, houter, byteLength_append]
    omega
  · rw [htext]
    simp only [Located.place, houter, byteLength_append]
    omega
  · have hopen := hboundary (Token.allChars element.before ++ element.tag.text) _
      (htext.trans (List.append_assoc _ _ _).symm)
    have hinner := hboundary
      (Token.allChars element.before ++ element.tag.text ++ element.innerText)
      (element.close?.elim [] Tag.text ++ Token.allChars element.after) (by
        rw [htext]
        simp only [List.append_assoc])
    have hstop := hboundary (Token.allChars element.before ++ element.outerText)
      (Token.allChars element.after) (by
        rw [htext, houter]
        simp only [List.append_assoc])
    simp only [List.forall_mem_cons]
    exact ⟨hboundary _ _ htext, hopen, hopen, hinner, hstop,
      fun _ hnone ↦ absurd hnone List.not_mem_nil⟩

namespace Surface

/-- Where elements stand in the markup of a surface, whatever it is. No search for a tag and no
write reaches for a place that the markup does not have. The tags that are found one behind the
other come to an end, do not overlap and begin and end with brackets; they tell whether there is an
element with an id, and where it stands. -/
theorem seek_bounds (surface : Surface) (id : String) :
    let text := surface.markup.toList
    (∀ cursor, ∃ found, nextTag text cursor = .ok found) ∧
      ∃ tags, tagsFrom text 0 = .ok tags ∧ tags = spots 0 (Token.scan text) ∧ AreTags text tags ∧
        locateAt text id.toList 0 = .ok (surface.place? id) ∧
        (∀ place?, surface.place? id = place? ↔ Seeks text id.toList tags place?) ∧
        (∀ place, surface.place? id = some place → place.IsWithin text) ∧
        ∀ new : String, setInnerAt text id.toList new.toList =
          .ok ((surface.setInner id new).toOption.map fun changed ↦ changed.markup.toList) := by
  intro text
  have hchars : Token.allChars (Token.scan text) = text := Token.allChars_scan text
  have hseeks := seeks_locate? id.toList (Token.scan text)
  have htags := areTags_spots (Token.scan text)
  rw [hchars] at hseeks htags
  refine ⟨nextTag_ne_error text, _, tagsFrom_eq [] text, rfl, htags, locateAt_zero text id.toList,
    fun place? ↦ ⟨?_, hseeks.unique⟩, fun place hplace ↦ ?_, fun new ↦ ?_⟩
  · rintro rfl
    exact hseeks
  · obtain ⟨element, helement, rfl⟩ := Option.map_eq_some_iff.mp hplace
    have hwithin := Located.isWithin helement
    rwa [hchars] at hwithin
  · rw [setInnerAt_eq, setInner, find?]
    cases locate? id.toList (Token.scan text) with
    | none => rfl
    | some element =>
      refine congrArg (Except.ok ∘ some) ?_
      exact String.toList_ofList.symm

example : place? { markup := "a < é<b x=\">\" id=\"i\"><b></b></b>" } "i" =
    some ⟨['b'], 6, 22, 22, 29, 33, false⟩ := by decide +kernel

end Surface

end LiveMarkup
