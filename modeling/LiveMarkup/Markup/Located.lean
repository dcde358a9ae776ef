import LiveMarkup.Markup.Tag

/-!
Elements addressed by id. An element starts at the first tag that does not close and shows the
id. If that tag closes itself it is the whole element; otherwise the element ends at the tag
that closes it, tags of the same name balanced. If there is no such tag, no element has the id.
-/

set_option autoImplicit false
set_option relaxedAutoImplicit false

namespace LiveMarkup

/-- Whether a text stands somewhere inside another. -/
def occursIn (needle : List Char) : List Char → Bool
  | [] => needle.isEmpty
  | c :: rest => needle.isPrefixOf (c :: rest) || occursIn needle rest

namespace Tag

/-- Whether the tag shows ` id="..."` with this id. -/
def showsId (id : List Char) (tag : Tag) : Bool :=
  occursIn (" id=\"".toList ++ id ++ ['"']) tag.text

end Tag

/-- Splits tokens at the tag that closes an element with this name, `depth` more elements of
the name being open. -/
def splitClose? (name : List Char) (depth : Nat) :
    List Token → Option (List Token × Tag × List Token)
  | [] => none
  | token :: rest =>
    let onward (depth : Nat) := (splitClose? name depth rest).map
      fun (inner, close, after) ↦ (token :: inner, close, after)
    match token with
    | .text _ => onward depth
    | .tag tag =>
      if tag.name = name then
        match tag.kind, depth with
        | .opening, _ => onward (depth + 1)
        | .selfClosing, _ => onward depth
        | .closing, 0 => some ([], tag, rest)
        | .closing, depth + 1 => onward depth
      else onward depth

/-- Markup cut up around one of its elements. -/
structure Located where
  before : List Token
  /-- The first tag of the element. -/
  tag : Tag
  inner : List Token
  /-- The tag that closes the element, if the first does not close itself. -/
  close? : Option Tag
  after : List Token
  deriving DecidableEq

namespace Located

/-- The text of the element, tags included. -/
def outerText (element : Located) : List Char :=
  element.tag.text ++ Token.allChars element.inner ++ element.close?.elim [] Tag.text

/-- The text inside the element. -/
def innerText (element : Located) : List Char := Token.allChars element.inner

/-- The markup with another text inside the element. A tag that closes itself becomes an
opening and a closing one around the text. -/
def withInner (element : Located) (text : List Char) : List Char :=
  let (tag, close) := match element.close? with
    | some close => (element.tag, close)
    | none =>
      ({ element.tag with body := element.tag.body.dropLast }, ⟨true, element.tag.name, []⟩)
  Token.allChars element.before ++ (tag.text ++ text ++ close.text) ++ Token.allChars element.after

end Located

/-- Finds the element with an id among tokens. -/
def locate? (id : List Char) : List Token → Option Located
  | [] => none
  | token :: rest =>
    let onward := (locate? id rest).map
      fun element ↦ { element with before := token :: element.before }
    match token with
    | .text _ => onward
    | .tag tag =>
      if tag.kind = .closing ∨ !tag.showsId id then onward
      else if tag.kind = .selfClosing then some ⟨[], tag, [], none, rest⟩
      else (splitClose? tag.name 0 rest).map
        fun (inner, close, after) ↦ ⟨[], tag, inner, some close, after⟩

end LiveMarkup
