import LiveMarkup.Proofs.Markup.Splicing
import LiveMarkup.World.Clicking

/-!
Rewriting the content of an element on a surface. A text that is read to its end and balanced in
the name of the element is read back from the element that it was written into; nothing around
the element changes, and a second write leaves no trace of the first. A surface without the
element is left as it was.
-/

set_option autoImplicit false
set_option relaxedAutoImplicit false

namespace LiveMarkup

namespace Surface

theorem find?_eq_some_iff (surface : Surface) (id : String) (element : Located) :
    surface.find? id = some element ↔
      Finds id.toList (Token.scan surface.markup.toList) element :=
  locate?_eq_some_iff

/-- A surface shows an element and what stands around it. -/
theorem markup_eq_of_find? {surface : Surface} {id : String} {element : Located}
    (h : surface.find? id = some element) :
    surface.markup.toList = Token.allChars element.before ++ element.outerText ++
      Token.allChars element.after := by
  have hscan := Token.allChars_scan surface.markup.toList
  have hfinds := (surface.find?_eq_some_iff id element).mp h
  generalize Token.scan surface.markup.toList = tokens at hscan hfinds
  rw [← hscan]
  cases hfinds with
  | alone =>
    simp [Token.allChars, Token.chars, Located.outerText]
  | around =>
    simp [Token.allChars, Token.chars, Located.outerText]

theorem setInner_of_find? {surface : Surface} {id : String} {element : Located}
    (h : surface.find? id = some element) (text : String) :
    surface.setInner id text =
      .ok { surface with markup := String.ofList (element.withInner text.toList) } := by
  simp only [setInner, h]

theorem setInner_of_find?_eq_none {surface : Surface} {id : String} (h : surface.find? id = none)
    (text : String) : surface.setInner id text = .error (.elementNotFound id) := by
  simp only [setInner, h]

theorem attachClick_of_find?_eq_none {surface : Surface} {id : String}
    (h : surface.find? id = none) (handler : Handler) :
    surface.attachClick id handler = .error (.elementNotFound id) := by
  simp [attachClick, hasElement, h]

/-- The element of a changed surface is the one written into, around the new text. -/
theorem find?_withInner {surface : Surface} {id : String} {element : Located}
    (h : surface.find? id = some element) (hprinted : element.IsPrinted) {text : String}
    {tokens : List Token} (htext : Reads text.toList tokens [])
    (hbalanced : Balanced element.tag.name tokens) :
    find? { surface with markup := String.ofList (element.withInner text.toList) } id =
      some (element.filled tokens) := by
  rw [find?_eq_some_iff, String.toList_ofList]
  exact ((surface.find?_eq_some_iff id element).mp h).withInner hprinted htext hbalanced

end Surface

namespace Located

/-- Text written between two tags leaves them as they are. -/
theorem tags_eq_of_close? {element : Located} {close : Tag} (h : element.close? = some close) :
    element.openTag = element.tag ∧ element.closeTag = close := by
  simp [openTag, closeTag, h]

/-- Text written into an element of a single tag takes the slash out of it. -/
theorem tags_eq_of_alone {element : Located} (h : element.close? = none)
    (hkind : element.tag.kind = .selfClosing) :
    ∃ stem, element.tag.text = stem ++ "/>".toList ∧ element.openTag.text = stem ++ ['>'] ∧
      element.closeTag.text = "</".toList ++ element.tag.name ++ ['>'] := by
  obtain ⟨hclosing, hbody⟩ := Tag.body_of_selfClosing hkind
  refine ⟨'<' :: element.tag.name ++ element.tag.body.dropLast, ?_, ?_, ?_⟩
  · rw [Tag.text, hclosing, hbody]
    simp
  · simp [openTag, h, Tag.text, hclosing]
  · simp [closeTag, h, Tag.text]

/-- The text of an element that holds other tokens. -/
theorem outerText_filled (element : Located) (tokens : List Token) :
    (element.filled tokens).outerText =
      element.openTag.text ++ Token.allChars tokens ++ element.closeTag.text := rfl

end Located

namespace Surface

variable {surface : Surface} {id : String} {element : Located}

/-- An element that is not closed is a single tag. -/
theorem exists_stem_of_alone (h : surface.find? id = some element)
    (halone : element.close? = none) :
    ∃ stem, element.outerText = stem ++ "/>".toList ∧ element.openTag.text = stem ++ ['>'] ∧
      element.closeTag.text = "</".toList ++ element.tag.name ++ ['>'] := by
  have hfinds := (surface.find?_eq_some_iff id element).mp h
  generalize Token.scan surface.markup.toList = scanned at hfinds
  cases hfinds with
  | alone _ _ hkind =>
    obtain ⟨stem, htag, hopen, hclose⟩ := Located.tags_eq_of_alone halone hkind
    refine ⟨stem, ?_, hopen, hclose⟩
    simp [Located.outerText, htag, Token.allChars]
  | around => cases halone

/-- A surface with another text in its element: what stands before and after the element is
unchanged, and so are its tags, except that a tag that closed itself is an opening one, followed by
a closing one. -/
structure Refills (surface : Surface) (element : Located) (text : String) (changed : Surface) :
    Prop where
  listeners : changed.listeners = surface.listeners
  markup : surface.markup.toList =
    Token.allChars element.before ++ element.outerText ++ Token.allChars element.after
  around : ∀ close, element.close? = some close →
    element.outerText = element.tag.text ++ element.innerText ++ close.text ∧
      changed.markup.toList = Token.allChars element.before ++
        (element.tag.text ++ text.toList ++ close.text) ++ Token.allChars element.after
  alone : element.close? = none → ∃ stem, element.outerText = stem ++ "/>".toList ∧
    changed.markup.toList = Token.allChars element.before ++
      (stem ++ ['>'] ++ text.toList ++ ("</".toList ++ element.tag.name ++ ['>'])) ++
        Token.allChars element.after

/-- Writing into an element changes what is inside it, and nothing else. -/
theorem refills_withInner (h : surface.find? id = some element) (text : String) :
    surface.Refills element text
      { surface with markup := String.ofList (element.withInner text.toList) } where
  listeners := rfl
  markup := markup_eq_of_find? h
  around := fun close hclose ↦ by
    obtain ⟨hopen, hcloseTag⟩ := Located.tags_eq_of_close? hclose
    refine ⟨?_, ?_⟩
    · rw [Located.outerText, Located.innerText, hclose, Option.elim_some]
    · rw [String.toList_ofList, element.withInner_eq, hopen, hcloseTag]
  alone := fun halone ↦ by
    obtain ⟨stem, houter, hopen, hclose⟩ := exists_stem_of_alone h halone
    refine ⟨stem, houter, ?_⟩
    rw [String.toList_ofList, element.withInner_eq, hopen, hclose]

/-- The text that was written into an element is read back from it. -/
theorem innerMarkup?_withInner (h : surface.find? id = some element) (hprinted : element.IsPrinted)
    {text : String} {tokens : List Token} (htext : Reads text.toList tokens [])
    (hbalanced : Balanced element.tag.name tokens) :
    innerMarkup? { surface with markup := String.ofList (element.withInner text.toList) } id =
      some text := by
  have hchars : Token.allChars tokens = text.toList := by
    rw [htext.text_eq, List.append_nil]
  rw [innerMarkup?, find?_withInner h hprinted htext hbalanced, Option.map_some,
    Located.innerText_filled, hchars, String.ofList_toList]

end Surface

/-- Write, then read back. An element in printed form takes any text that is read to its end and
balanced in the name of the element: the text is what stands inside the element afterwards; what
stands before and after the element is unchanged, and so are its tags, except that a tag that
closed itself becomes an opening one, followed by a closing one; and any further write gives what
it would have given without the first. Where no element has the id, writing and attaching a
listener say so and change nothing. -/
theorem innerMarkup?_setInner {σ : Type} [Journal σ] (client : Client σ) (w : World σ)
    (host : HostId) (surface : Surface) (hhost : w.host host = .surface surface) (id : String) :
    (∀ element, surface.find? id = some element → element.IsPrinted →
      ∀ (text : String) (tokens : List Token), Reads text.toList tokens [] →
        Balanced element.tag.name tokens →
          ∃ changed new, surface.setInner id text = .ok changed ∧ changed.find? id = some new ∧
            changed.innerMarkup? id = some text ∧ changed.listeners = surface.listeners ∧
            surface.markup.toList =
              Token.allChars element.before ++ element.outerText ++ Token.allChars element.after ∧
            changed.markup.toList =
              Token.allChars element.before ++ new.outerText ++ Token.allChars element.after ∧
            (∀ close, element.close? = some close →
              new.outerText = element.tag.text ++ text.toList ++ close.text) ∧
            (element.close? = none → ∃ stem, element.outerText = stem ++ "/>".toList ∧
              new.outerText =
                stem ++ ['>'] ++ text.toList ++ ("</".toList ++ element.tag.name ++ ['>'])) ∧
            ∀ further, changed.setInner id further = surface.setInner id further) ∧
      (surface.find? id = none → ∀ (text : String) (handler : Handler),
        surface.setInner id text = .error (.elementNotFound id) ∧
          w.setInner host id text = (.error (.elementNotFound id), w) ∧
          surface.attachClick id handler = .error (.elementNotFound id) ∧
          w.attachClick client host id handler = .ok (.error (.elementNotFound id), w)) := by
  constructor
  · intro element hfind hprinted text tokens htext hbalanced
    have hfound := Surface.find?_withInner hfind hprinted htext hbalanced
    have houter : (element.filled tokens).outerText =
        element.openTag.text ++ text.toList ++ element.closeTag.text := by
      rw [Located.outerText_filled, htext.text_eq, List.append_nil]
    refine ⟨_, element.filled tokens, Surface.setInner_of_find? hfind text, hfound,
      Surface.innerMarkup?_withInner hfind hprinted htext hbalanced, rfl,
      Surface.markup_eq_of_find? hfind, ?_, fun close hclose ↦ ?_, fun halone ↦ ?_,
      fun further ↦ ?_⟩
    · rw [String.toList_ofList, element.withInner_eq, houter]
    · obtain ⟨hopen, hcloseTag⟩ := Located.tags_eq_of_close? hclose
      rw [houter, hopen, hcloseTag]
    · obtain ⟨stem, halone, hopen, hclose⟩ := Surface.exists_stem_of_alone hfind halone
      refine ⟨stem, halone, ?_⟩
      rw [houter, hopen, hclose]
    · rw [Surface.setInner_of_find? hfound, Surface.setInner_of_find? hfind,
        Located.withInner_filled]
  · intro hfind text handler
    have hset := Surface.setInner_of_find?_eq_none hfind text
    have hattach := Surface.attachClick_of_find?_eq_none hfind handler
    refine ⟨hset, ?_, hattach, ?_⟩
    · simp only [World.setInner, hhost, hset]
    · simp only [World.attachClick, hhost, hattach]
      rfl

/-- The empty element `a` takes a text with a stray `<` and a tag of its own name; there is no
element `z`. -/
theorem innerMarkup?_setInner_selfClosing :
    (∃ changed : Surface,
      Surface.setInner { markup := "<p>x<b id=\"a\"/></p>" } "a" "1 < 2<b>!</b>" = .ok changed ∧
        changed.innerMarkup? "a" = some "1 < 2<b>!</b>") ∧
      Surface.setInner { markup := "<p>x<b id=\"a\"/></p>" } "z" "" =
        .error (.elementNotFound "z") := by
  let surface : Surface := { markup := "<p>x<b id=\"a\"/></p>" }
  let element : Located :=
    ⟨[.tag ⟨false, ['p'], []⟩, .text 'x'], ⟨false, ['b'], " id=\"a\"/".toList⟩, [], none,
      [.tag ⟨true, ['p'], []⟩]⟩
  let client : Client (List Note) := ⟨fun _ w ↦ .ok w, fun _ _ w ↦ .ok (none, w)⟩
  let w : World (List Note) := World.addHost { client := [] } (.surface surface)
  have hfind : surface.find? "a" = some element := by decide +kernel
  have hprinted : element.IsPrinted := fun _ ↦ by decide +kernel
  let tokens : List Token :=
    [.text '1', .text ' ', .text '<', .text ' ', .text '2'] ++
      (.tag ⟨false, ['b'], []⟩ :: [.text '!'] ++ [.tag ⟨true, ['b'], []⟩])
  have htext : "1 < 2<b>!</b>".toList =
      ['1', ' ', '<', ' ', '2', '<', 'b', '>', '!', '<', '/', 'b', '>'] := by decide +kernel
  have hreads : Reads "1 < 2<b>!</b>".toList tokens [] := by
    rw [htext]
    exact .char (by decide) (.char (by decide)
      (.char (by decide) (.char (by decide) (.char (by decide)
        (.tag rfl (.char (by decide) (.tag rfl (.done []))))))))
  have hbalanced : Balanced ['b'] tokens :=
    (balanced_of_forall (by decide)).append
      ((balanced_of_forall (by decide)).enclose (by decide) (by decide) (by decide))
  constructor
  · obtain ⟨changed, -, hset, -, hinner, -⟩ :=
      (innerMarkup?_setInner client w 0 surface rfl "a").1 element hfind hprinted _ _ hreads
        hbalanced
    exact ⟨changed, hset, hinner⟩
  · exact ((innerMarkup?_setInner client w 0 surface rfl "z").2 (by decide +kernel) "" 0).1

end LiveMarkup
