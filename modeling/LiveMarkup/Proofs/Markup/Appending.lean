import LiveMarkup.Proofs.Markup.Rewriting

/-!
Appending markup. Text added at the end can change how the end of a text is read: a tag that was
never closed may end in it, and a `<` may go on as a tag. It cannot change anything up to the end
of a tag that was found (`exists_scan_append`). An element ends at a tag, so it is found again
where it was (`Finds.append`), whatever the markup looks like.
-/

set_option autoImplicit false
set_option relaxedAutoImplicit false

namespace LiveMarkup

/-! ### Where an element stands -/

/-- The place of an element, in bytes from the start of the markup. -/
structure Place where
  name : List Char
  start : Nat
  /-- Behind the first tag. -/
  openEnd : Nat
  innerStart : Nat
  innerEnd : Nat
  /-- Behind the last tag. -/
  stop : Nat
  selfClosing : Bool
  deriving DecidableEq

/-- The length of a text in bytes. -/
def byteLength (text : List Char) : Nat := (String.ofList text).utf8ByteSize

/-- The place of an element that was cut out of its markup. -/
def Located.place (element : Located) : Place where
  name := element.tag.name
  start := byteLength (Token.allChars element.before)
  openEnd := byteLength (Token.allChars element.before ++ element.tag.text)
  innerStart := byteLength (Token.allChars element.before ++ element.tag.text)
  innerEnd := byteLength (Token.allChars element.before ++ element.tag.text ++ element.innerText)
  stop := byteLength (Token.allChars element.before ++ element.outerText)
  selfClosing := element.close?.isNone

/-! ### Scanning a longer text -/

/-- Text added behind a tag is scanned together with what stood behind the tag, and changes
nothing before. -/
theorem exists_scan_append {markup : List Char} {front after : List Token} {tag : Tag}
    (h : Token.scan markup = front ++ .tag tag :: after) (added : List Char) :
    ∃ later, Token.scan (markup ++ added) = front ++ .tag tag :: later ∧
      Token.allChars later = Token.allChars after ++ added := by
  obtain ⟨rest, hreads, hreadable, hafter⟩ := reads_of_scan_eq h
  have hat (text : List Char) : AtTag (tag.text ++ text) := by
    rw [tag.text_eq]
    exact atTag_cons _
  have hmarkup : markup ++ added = Token.allChars front ++ (tag.text ++ (rest ++ added)) := by
    rw [hreads.text_eq, List.append_assoc, List.append_assoc]
  have hlonger : Reads (markup ++ added) (front ++ [.tag tag]) (rest ++ added) := by
    rw [hmarkup]
    exact (hreads.transport (hat rest) (hat (rest ++ added))).trans
      (Reads.single hreadable (rest ++ added))
  refine ⟨Token.scan (rest ++ added), ?_, ?_⟩
  · rw [hlonger.scan_eq, List.append_assoc, List.singleton_append]
  · rw [Token.allChars_scan, hafter, Token.allChars_scan]

/-- An element of a text is the same element of a longer one. -/
theorem Finds.append {id markup : List Char} {element : Located}
    (h : Finds id (Token.scan markup) element) (added : List Char) :
    ∃ later, Finds id (Token.scan (markup ++ added)) { element with after := later } ∧
      Token.allChars later = Token.allChars element.after ++ added := by
  generalize hscan : Token.scan markup = tokens at h
  cases h with
  | @alone before after tag hbefore hshows hkind =>
    obtain ⟨later, hlater, hchars⟩ := exists_scan_append hscan added
    refine ⟨later, ?_, hchars⟩
    rw [hlater]
    exact .alone hbefore hshows hkind
  | @around before inner after tag close hbefore hshows hkind hname hclose hinner =>
    -- The closing tag, not the first one, is the last thing that the search looks at.
    have hsplit : Token.scan markup = (before ++ .tag tag :: inner) ++ .tag close :: after := by
      rw [hscan, List.append_assoc, List.cons_append]
    obtain ⟨later, hlater, hchars⟩ := exists_scan_append hsplit added
    refine ⟨later, ?_, hchars⟩
    rw [hlater, List.append_assoc, List.cons_append]
    exact .around hbefore hshows hkind hname hclose hinner

namespace Surface

/-- The place of the element with an id. -/
def place? (surface : Surface) (id : String) : Option Place :=
  (surface.find? id).map Located.place

/-- Appending never moves or hides an element. Whatever the markup of a surface and whatever is
added to it, an element that was found is found again: the same tags around the same content,
behind the same text, in the same place; only what follows the element has grown. That there is
an element with the id, its markup and the markup inside it are unchanged. -/
theorem find?_append {surface : Surface} {id : String} {element : Located}
    (h : surface.find? id = some element) (added : String) :
    (∃ later, (surface.append added).find? id = some { element with after := later } ∧
      Token.allChars later = Token.allChars element.after ++ added.toList) ∧
      surface.place? id = some element.place ∧
      (surface.append added).place? id = some element.place ∧
      (surface.append added).hasElement id = surface.hasElement id ∧
      (surface.append added).outerMarkup? id = surface.outerMarkup? id ∧
      (surface.append added).innerMarkup? id = surface.innerMarkup? id := by
  obtain ⟨later, hfinds, hchars⟩ :=
    ((surface.find?_eq_some_iff id element).mp h).append added.toList
  have hfound : (surface.append added).find? id = some { element with after := later } := by
    rw [find?_eq_some_iff, append, String.toList_append]
    exact hfinds
  refine ⟨⟨later, hfound, hchars⟩, ?_, ?_, ?_, ?_, ?_⟩
  · rw [place?, h, Option.map_some]
  · rw [place?, hfound, Option.map_some]
    rfl
  · rw [hasElement, hasElement, hfound, h, Option.isSome_some, Option.isSome_some]
  · rw [outerMarkup?, outerMarkup?, hfound, h, Option.map_some, Option.map_some]
    rfl
  · rw [innerMarkup?, innerMarkup?, hfound, h, Option.map_some, Option.map_some]
    rfl

/-- Behind the element `a` stands a tag that is not closed. What is appended closes it, and shows
the id once more. -/
theorem find?_append_halfOpen :
    ∃ element, find? { markup := "<i>é</i><b id=\"a\">x</b><p id=\"" } "a" = some element ∧
      (append { markup := "<i>é</i><b id=\"a\">x</b><p id=\"" } "a\">y</p>").place? "a" =
        some element.place ∧
      element.place = ⟨['b'], 9, 19, 19, 20, 24, false⟩ := by
  let element : Located :=
    ⟨[.tag ⟨false, ['i'], []⟩, .text 'é', .tag ⟨true, ['i'], []⟩],
      ⟨false, ['b'], " id=\"a\"".toList⟩, [.text 'x'], some ⟨true, ['b'], []⟩,
      "<p id=\"".toList.map .text⟩
  have hfind : find? { markup := "<i>é</i><b id=\"a\">x</b><p id=\"" } "a" = some element := by
    decide +kernel
  exact ⟨element, hfind, (find?_append hfind "a\">y</p>").2.2.1, by decide +kernel⟩

end Surface

end LiveMarkup
