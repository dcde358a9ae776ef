import LiveMarkup.Text.Blank

/-!
Markup text read as tokens. A tag is a `<`, an optional `/`, a name that starts with an ASCII
letter and ends before a blank, `/` or `>`, and everything up to the next `>` outside double
quotes. A `<` without a name is text; after a tag that is never closed, all is text.
-/

set_option autoImplicit false
set_option relaxedAutoImplicit false

namespace LiveMarkup

/-- A tag: whether it closes an element, its name, and what stands between the name and the
final `>`. -/
structure Tag where
  closing : Bool
  name : List Char
  body : List Char
  deriving DecidableEq

/-- What a tag does to the nesting of elements. -/
inductive TagKind where
  | opening
  | selfClosing
  | closing
  deriving DecidableEq

namespace Tag

/-- The text of a tag. -/
def text (tag : Tag) : List Char :=
  '<' :: (if tag.closing then ['/'] else []) ++ tag.name ++ tag.body ++ ['>']

/-- A tag that does not close an element closes itself if its last character is a slash. -/
def kind (tag : Tag) : TagKind :=
  if tag.closing then .closing
  else if tag.body.getLast? = some '/' then .selfClosing
  else .opening

/-- The characters that a tag name goes on with. -/
def isNameChar (c : Char) : Bool := !(isBlank c || c == '/' || c == '>')

/-- Whether a text can be the name of a tag. -/
def isName : List Char → Bool
  | [] => false
  | c :: _ => c.isAlpha

end Tag

/-- Splits a text at the first `>` outside double quotes. -/
def splitTagEnd? (quoted : Bool) : List Char → Option (List Char × List Char)
  | [] => none
  | c :: rest =>
    if c = '>' ∧ !quoted then some ([], rest)
    else (splitTagEnd? (quoted != (c == '"')) rest).map fun (body, after) ↦ (c :: body, after)

theorem eq_of_splitTagEnd? {quoted : Bool} {text body after : List Char}
    (h : splitTagEnd? quoted text = some (body, after)) : text = body ++ '>' :: after := by
  induction text generalizing quoted body with
  | nil => simp [splitTagEnd?] at h
  | cons c rest ih =>
    rw [splitTagEnd?] at h
    split at h
    · rename_i hc
      obtain ⟨rfl, rfl⟩ : [] = body ∧ rest = after := by simpa using h
      rw [hc.1, List.nil_append]
    · obtain ⟨⟨tail, after'⟩, htail, heq⟩ := Option.map_eq_some_iff.mp h
      obtain ⟨rfl, rfl⟩ : c :: tail = body ∧ after' = after := by simpa using heq
      rw [ih htail, List.cons_append]

/-- How a text after a `<` goes on. -/
inductive TagReading where
  /-- Not as a tag. -/
  | text
  /-- As a tag that is never closed. -/
  | unterminated
  /-- As a tag, and what follows it. -/
  | tag (tag : Tag) (after : List Char)

/-- Reads a tag from its name on. -/
def readName (closing : Bool) (text : List Char) : TagReading :=
  if Tag.isName (text.takeWhile Tag.isNameChar) then
    match splitTagEnd? false (text.dropWhile Tag.isNameChar) with
    | some (body, after) => .tag ⟨closing, text.takeWhile Tag.isNameChar, body⟩ after
    | none => .unterminated
  else .text

/-- Reads a tag whose `<` has been read. -/
def readTag : List Char → TagReading
  | '/' :: text => readName true text
  | text => readName false text

theorem eq_of_readName {closing : Bool} {text after : List Char} {tag : Tag}
    (h : readName closing text = .tag tag after) :
    tag.closing = closing ∧ text = tag.name ++ tag.body ++ '>' :: after := by
  rw [readName] at h
  split at h
  · split at h
    · rename_i body after' hend
      obtain ⟨rfl, rfl⟩ : _ = tag ∧ after' = after := by simpa using h
      refine ⟨rfl, ?_⟩
      rw [List.append_assoc, ← eq_of_splitTagEnd? hend, List.takeWhile_append_dropWhile]
    · cases h
  · cases h

/-- A tag that is read is the text that it was read from. -/
theorem eq_of_readTag {text after : List Char} {tag : Tag} (h : readTag text = .tag tag after) :
    '<' :: text = tag.text ++ after := by
  rw [readTag.eq_def] at h
  split at h
  · obtain ⟨hclosing, rfl⟩ := eq_of_readName h
    simp [Tag.text, hclosing]
  · obtain ⟨hclosing, htext⟩ := eq_of_readName h
    rw [htext]
    simp [Tag.text, hclosing]

/-- Reading a tag uses up text. -/
theorem length_lt_of_readTag {text after : List Char} {tag : Tag}
    (h : readTag text = .tag tag after) : after.length < text.length := by
  have hlength := congrArg List.length (eq_of_readTag h)
  simp only [Tag.text, List.length_cons, List.length_append, List.cons_append] at hlength
  omega

/-- A piece of markup: one character of text, or a tag. -/
inductive Token where
  | text (c : Char)
  | tag (tag : Tag)
  deriving DecidableEq

namespace Token

/-- The text of a token. -/
def chars : Token → List Char
  | .text c => [c]
  | .tag t => t.text

/-- The text of tokens. -/
def allChars (tokens : List Token) : List Char := tokens.flatMap chars

/-- The tokens of a text. -/
def scan : List Char → List Token
  | [] => []
  | c :: rest =>
    if c = '<' then
      match h : readTag rest with
      | .text => .text c :: scan rest
      | .unterminated => .text c :: rest.map .text
      | .tag t after =>
        have : after.length < rest.length := length_lt_of_readTag h
        .tag t :: scan after
    else .text c :: scan rest
  termination_by markup => markup.length

theorem allChars_cons (token : Token) (rest : List Token) :
    allChars (token :: rest) = token.chars ++ allChars rest := List.flatMap_cons

theorem allChars_append (front rest : List Token) :
    allChars (front ++ rest) = allChars front ++ allChars rest := List.flatMap_append

theorem allChars_map_text (s : List Char) : allChars (s.map text) = s := by
  induction s with
  | nil => rfl
  | cons c rest ih => rw [List.map_cons, allChars_cons, ih]; rfl

/-- Scanning loses nothing. -/
theorem allChars_scan (markup : List Char) : allChars (scan markup) = markup := by
  fun_induction scan markup with
  | case1 => rfl
  | case2 rest h ih => rw [allChars_cons, ih]; rfl
  | case3 rest h => rw [allChars_cons, allChars_map_text]; rfl
  | case4 rest t after h _ ih => rw [allChars_cons, ih]; exact (eq_of_readTag h).symm
  | case5 c rest h ih => rw [allChars_cons, ih]; rfl

end Token

end LiveMarkup
