import LiveMarkup.Markup.Surface
import LiveMarkup.Proofs.Markup.Locating

/-!
Writing into an element. The new text stands between an opening and a closing tag
(`Located.openTag`, `Located.closeTag`), also in an element whose one tag closed itself. If the
text is read to its end and balanced in the name of the element, scanning the changed markup
finds the same tokens around it as before (`Finds.scan_withInner`), and the element again
(`Finds.withInner`).
-/

set_option autoImplicit false
set_option relaxedAutoImplicit false

namespace LiveMarkup

namespace Located

/-- The tag that opens the element once text was written into it. -/
def openTag (element : Located) : Tag :=
  match element.close? with
  | some _ => element.tag
  | none => { element.tag with body := element.tag.body.dropLast }

/-- The tag that closes the element once text was written into it. -/
def closeTag (element : Located) : Tag := element.close?.getD ⟨true, element.tag.name, []⟩

/-- An element is in printed form if a single tag that it consists of ends in a quote, a slash
and `>`. -/
def IsPrinted (element : Located) : Prop :=
  element.close? = none → "\"/>".toList <:+ element.tag.text

/-- The element with other content. -/
def filled (element : Located) (tokens : List Token) : Located :=
  ⟨element.before, element.openTag, tokens, some element.closeTag, element.after⟩

theorem withInner_eq (element : Located) (text : List Char) :
    element.withInner text = Token.allChars element.before ++
      (element.openTag.text ++ text ++ element.closeTag.text) ++ Token.allChars element.after := by
  cases hclose : element.close? <;> simp [withInner, openTag, closeTag, hclose]

/-- Only the tags and what stands around them matter to a later write. -/
theorem withInner_filled (element : Located) (tokens : List Token) (text : List Char) :
    (element.filled tokens).withInner text = element.withInner text := by
  rw [withInner_eq, withInner_eq]
  rfl

theorem innerText_filled (element : Located) (tokens : List Token) :
    (element.filled tokens).innerText = Token.allChars tokens := rfl

end Located

/-! ### Opening a tag that closed itself -/

theorem splitTagEnd?_slash {quoted : Bool} {body : List Char}
    (h : splitTagEnd? quoted (body ++ ['/'] ++ ['>']) = some (body ++ ['/'], [])) :
    splitTagEnd? quoted (body ++ ['>']) = some (body, []) := by
  induction body generalizing quoted with
  | nil =>
    cases quoted with
    | false => simp [splitTagEnd?]
    | true => simp [splitTagEnd?] at h
  | cons c body ih =>
    rw [List.cons_append, List.cons_append, splitTagEnd?] at h
    rw [List.cons_append, splitTagEnd?]
    split at h
    · simp at h
    · rename_i hc
      obtain ⟨⟨tail, after⟩, htail, heq⟩ := Option.map_eq_some_iff.mp h
      obtain ⟨rfl, rfl⟩ : tail = body ++ ['/'] ∧ after = [] := by simpa using heq
      rw [if_neg hc, ih htail]
      rfl

theorem Tag.readable_dropSlash {tag : Tag} {body : List Char} (h : tag.Readable)
    (hbody : tag.body = body ++ ['/']) : Tag.Readable { tag with body := body } where
  isName := h.isName
  nameChars := h.nameChars
  bodyStart := fun c hc ↦ h.bodyStart c (by
    cases body with
    | nil => simp at hc
    | cons d rest => simpa [hbody] using hc)
  bodyEnd := splitTagEnd?_slash (by simpa only [hbody] using h.bodyEnd)

theorem Tag.showsId_dropSlash {id : List Char} {tag : Tag} {body : List Char}
    (h : tag.showsId id = true) (hbody : tag.body = body ++ ['/']) :
    Tag.showsId id { tag with body := body } = true := by
  rw [showsId_iff] at h ⊢
  let front := '<' :: (if tag.closing then ['/'] else []) ++ tag.name ++ body
  have htext : tag.text = front ++ ['/'] ++ ['>'] := by simp [text, hbody, front]
  have hneedle : idNeedle id = ' ' :: 'i' :: 'd' :: '=' :: '"' :: id ++ ['"'] := rfl
  rw [htext, hneedle] at h
  have hfront : ' ' :: 'i' :: 'd' :: '=' :: '"' :: id ++ ['"'] <:+: front :=
    infix_of_infix_append_singleton (infix_of_infix_append_singleton h (by decide)) (by decide)
  have hopen : Tag.text { tag with body := body } = front ++ ['>'] := by simp [text, front]
  rw [hopen, hneedle]
  exact hfront.trans (List.prefix_append front ['>']).isInfix

theorem Tag.body_of_selfClosing {tag : Tag} (h : tag.kind = .selfClosing) :
    tag.closing = false ∧ tag.body = tag.body.dropLast ++ ['/'] := by
  rw [kind] at h
  split at h
  · cases h
  · rename_i hclosing
    split at h
    · rename_i hlast
      refine ⟨by simpa using hclosing, ?_⟩
      obtain ⟨front, hfront⟩ := List.getLast?_eq_some_iff.mp hlast
      rw [hfront, List.dropLast_concat]
    · cases h

/-- A printed tag that closes itself has no further slash, so that it opens an element once the
slash is taken out. -/
theorem Tag.kind_dropSlash {tag : Tag} {body : List Char} (hclosing : tag.closing = false)
    (hbody : tag.body = body ++ ['/']) (hprinted : "\"/>".toList <:+ tag.text) :
    Tag.kind { tag with body := body } = .opening := by
  have hlast : body.getLast? ≠ some '/' := by
    intro hlast
    obtain ⟨front, rfl⟩ := List.getLast?_eq_some_iff.mp hlast
    obtain ⟨start, hstart⟩ := hprinted
    have hends := congrArg (fun text : List Char ↦ text.reverse.take 3) hstart
    simp [text, hbody] at hends
  simp [kind, hclosing, hlast]

/-! ### The changed markup -/

namespace Finds

variable {id : List Char} {markup : List Char} {element : Located}

/-- The tags around the content of an element are as the scanner and the search want them. -/
theorem tags (h : Finds id (Token.scan markup) element) (hprinted : element.IsPrinted) :
    element.openTag.Readable ∧ element.closeTag.Readable ∧ element.openTag.name = element.tag.name ∧
      element.closeTag.name = element.tag.name ∧ element.openTag.showsId id = true ∧
      element.openTag.kind = .opening ∧ element.closeTag.kind = .closing := by
  generalize htokens : Token.scan markup = tokens at h
  cases h with
  | @alone before after tag hbefore hshows hkind =>
    obtain ⟨-, -, hreadable, -⟩ := reads_of_scan_eq htokens
    obtain ⟨hclosing, hbody⟩ := Tag.body_of_selfClosing hkind
    refine ⟨Tag.readable_dropSlash hreadable hbody, ?_, rfl, rfl,
      Tag.showsId_dropSlash hshows hbody,
      Tag.kind_dropSlash hclosing hbody (hprinted rfl), rfl⟩
    exact ⟨hreadable.isName, hreadable.nameChars, by simp [Located.closeTag],
      by simp [Located.closeTag, splitTagEnd?]⟩
  | @around before inner after tag close hbefore hshows hkind hname hclose hinner =>
    obtain ⟨-, -, hreadable, -⟩ := reads_of_scan_eq htokens
    have hsplit : Token.scan markup = (before ++ .tag tag :: inner) ++ .tag close :: after := by
      rw [htokens]
      simp
    obtain ⟨-, -, hcloseReadable, -⟩ := reads_of_scan_eq hsplit
    exact ⟨hreadable, hcloseReadable, rfl, hname, hshows, hkind, hclose⟩

/-- What stands before an element is read in front of any text that starts with a tag. -/
theorem reads_before (h : Finds id (Token.scan markup) element) (tag : Tag) (rest : List Char) :
    Reads (Token.allChars element.before ++ (tag.text ++ rest)) element.before
      (tag.text ++ rest) := by
  have hbefore : ∃ later, Token.scan markup = element.before ++ .tag element.tag :: later := by
    generalize Token.scan markup = tokens at h
    cases h with
    | alone => exact ⟨_, rfl⟩
    | around => exact ⟨_, rfl⟩
  obtain ⟨later, hlater⟩ := hbefore
  obtain ⟨left, hreads, -, -⟩ := reads_of_scan_eq hlater
  have hat (t : Tag) (text : List Char) : AtTag (t.text ++ text) := by
    rw [t.text_eq]
    exact atTag_cons _
  exact hreads.transport (hat _ _) (hat _ _)

/-- What stands after an element is scanned alike on its own. -/
theorem scan_after (h : Finds id (Token.scan markup) element) :
    Token.scan (Token.allChars element.after) = element.after := by
  have hafter : ∃ front tag, Token.scan markup = front ++ .tag tag :: element.after := by
    generalize Token.scan markup = tokens at h
    cases h with
    | @alone before after tag => exact ⟨before, tag, rfl⟩
    | @around before inner after tag close =>
      exact ⟨before ++ .tag tag :: inner, close, by simp⟩
  obtain ⟨front, tag, hfront⟩ := hafter
  obtain ⟨left, -, -, hleft⟩ := reads_of_scan_eq hfront
  rw [hleft, Token.allChars_scan]

/-- Scanning changed markup finds the old tokens around those of the new text. -/
theorem scan_withInner (h : Finds id (Token.scan markup) element) (hprinted : element.IsPrinted)
    {text : List Char} {tokens : List Token} (htext : Reads text tokens []) :
    Token.scan (element.withInner text) = element.before ++ .tag element.openTag ::
      (tokens ++ .tag element.closeTag :: element.after) := by
  obtain ⟨hopen, hclose, -⟩ := h.tags hprinted
  let rest := element.closeTag.text ++ Token.allChars element.after
  have hsplit : element.withInner text =
      Token.allChars element.before ++ (element.openTag.text ++ (text ++ rest)) := by
    simp [Located.withInner_eq, rest]
  have hrest : AtTag rest := by
    simp only [rest, Tag.text_eq]
    exact atTag_cons _
  have hinner : Reads (text ++ rest) tokens rest := by
    have hmoved := htext.transport atTag_nil hrest
    rwa [← List.append_nil (Token.allChars tokens), ← htext.text_eq] at hmoved
  have hreads := (h.reads_before element.openTag (text ++ rest)).trans
    ((Reads.single hopen (text ++ rest)).trans (hinner.trans (Reads.single hclose _)))
  rw [hsplit, hreads.scan_eq, h.scan_after]
  simp

/-- The element is found again around the new text. -/
theorem withInner (h : Finds id (Token.scan markup) element) (hprinted : element.IsPrinted)
    {text : List Char} {tokens : List Token} (htext : Reads text tokens [])
    (hbalanced : Balanced element.tag.name tokens) :
    Finds id (Token.scan (element.withInner text)) (element.filled tokens) := by
  obtain ⟨-, -, hopenName, hcloseName, hshows, hopenKind, hcloseKind⟩ := h.tags hprinted
  have hbefore : ∀ token ∈ element.before, token.hits id = false := by
    generalize Token.scan markup = scanned at h
    cases h with
    | alone hbefore => exact hbefore
    | around hbefore => exact hbefore
  rw [h.scan_withInner hprinted htext]
  refine .around hbefore hshows hopenKind ?_ hcloseKind ?_
  · rw [hcloseName, hopenName]
  · rwa [hopenName]

end Finds

end LiveMarkup
