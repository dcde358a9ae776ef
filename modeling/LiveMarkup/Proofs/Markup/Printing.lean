import LiveMarkup.Markup.Tree
import LiveMarkup.Proofs.Markup.Locating

/-!
Printed tags and texts. A tag name without delimiters and attributes whose keys and values
cannot end their place early print as one tag (`SafeTag.readable`), which shows an id exactly if
the id is the value of an `id` attribute (`showsId_startTag_iff`). In a safe text no `<` opens a
tag, whatever follows the text (`SafeText.reads`).
-/

set_option autoImplicit false
set_option relaxedAutoImplicit false

namespace LiveMarkup

/-! ### What can be printed -/

/-- A tag name: a letter, and then anything but blanks, slashes and `>`. -/
structure SafeTag (tag : List Char) : Prop where
  letter : ∃ c ∈ tag.head?, c.isAlpha = true
  chars : ∀ c ∈ tag, isBlank c = false ∧ c ≠ '/' ∧ c ≠ '>'

/-- A printed attribute: no blank, quote or `>` in the key, and no quote in the value. -/
structure SafeAttribute (pair : String × String) : Prop where
  key : ∀ c ∈ pair.1.toList, isBlank c = false ∧ c ≠ '"' ∧ c ≠ '>'
  value : ∀ c ∈ pair.2.toList, c ≠ '"'

/-- A text in which every `<` is followed by a character that is neither a letter nor a slash. -/
def SafeText (text : List Char) : Prop :=
  ∀ front rest, text = front ++ '<' :: rest → ∃ c ∈ rest.head?, c.isAlpha = false ∧ c ≠ '/'

/-- An id that can be searched for: without blanks and quotes. -/
def SafeId (id : List Char) : Prop := ∀ c ∈ id, isBlank c = false ∧ c ≠ '"'

theorem safeTag_iff (tag : List Char) :
    SafeTag tag ↔ (tag.head?.any Char.isAlpha &&
      tag.all fun c ↦ !isBlank c && c != '/' && c != '>') = true := by
  rw [Bool.and_eq_true, Option.any_eq_true, List.all_eq_true]
  constructor
  · exact fun h ↦ ⟨h.letter, fun c hc ↦ by simpa [and_assoc] using h.chars c hc⟩
  · exact fun h ↦ ⟨h.1, fun c hc ↦ by simpa [and_assoc] using h.2 c hc⟩

theorem safeAttribute_iff (pair : String × String) :
    SafeAttribute pair ↔ ((pair.1.toList.all fun c ↦ !isBlank c && c != '"' && c != '>') &&
      pair.2.toList.all fun c ↦ c != '"') = true := by
  rw [Bool.and_eq_true, List.all_eq_true, List.all_eq_true]
  constructor
  · exact fun h ↦ ⟨fun c hc ↦ by simpa [and_assoc] using h.key c hc,
      fun c hc ↦ bne_iff_ne.mpr (h.value c hc)⟩
  · exact fun h ↦ ⟨fun c hc ↦ by simpa [and_assoc] using h.1 c hc,
      fun c hc ↦ bne_iff_ne.mp (h.2 c hc)⟩

theorem safeId_iff (id : List Char) :
    SafeId id ↔ (id.all fun c ↦ !isBlank c && c != '"') = true := by
  simp [SafeId]

theorem safeText_cons_iff (c : Char) (text : List Char) :
    SafeText (c :: text) ↔
      (c = '<' → ∃ d ∈ text.head?, d.isAlpha = false ∧ d ≠ '/') ∧ SafeText text := by
  constructor
  · intro h
    exact ⟨fun hc ↦ h [] text (by rw [hc]; rfl),
      fun front rest heq ↦ h (c :: front) rest (by rw [heq]; rfl)⟩
  · rintro ⟨hfirst, hrest⟩ front rest heq
    cases front with
    | nil =>
      obtain ⟨hc, rfl⟩ := List.cons.inj heq
      exact hfirst hc
    | cons d front => exact hrest front rest (List.cons.inj heq).2

instance (tag : List Char) : Decidable (SafeTag tag) := decidable_of_iff _ (safeTag_iff tag).symm

instance (pair : String × String) : Decidable (SafeAttribute pair) :=
  decidable_of_iff _ (safeAttribute_iff pair).symm

instance (id : List Char) : Decidable (SafeId id) := decidable_of_iff _ (safeId_iff id).symm

/-- Whether a text is safe, found character by character. -/
def isSafeText : List Char → Bool
  | [] => true
  | c :: text => (c != '<' || text.head?.any fun d ↦ !d.isAlpha && d != '/') && isSafeText text

theorem safeText_iff (text : List Char) : SafeText text ↔ isSafeText text = true := by
  induction text with
  | nil => exact ⟨fun _ ↦ rfl, fun _ front rest heq ↦ by simp at heq⟩
  | cons c text ih =>
    rw [safeText_cons_iff, isSafeText, Bool.and_eq_true, ih]
    refine and_congr_left fun _ ↦ ?_
    by_cases hc : c = '<' <;> simp [hc, Option.any_eq_true]

instance (text : List Char) : Decidable (SafeText text) :=
  decidable_of_iff _ (safeText_iff text).symm

theorem SafeTag.nameChars {tag : List Char} (h : SafeTag tag) :
    ∀ c ∈ tag, Tag.isNameChar c = true := by
  intro c hc
  obtain ⟨hblank, hslash, hclose⟩ := h.chars c hc
  simp [Tag.isNameChar, hblank, hslash, hclose]

theorem SafeTag.isName {tag : List Char} (h : SafeTag tag) : Tag.isName tag = true := by
  obtain ⟨c, hc, halpha⟩ := h.letter
  cases tag with
  | nil => simp at hc
  | cons d rest =>
    obtain rfl : d = c := by simpa using hc
    exact halpha

theorem SafeText.of_notMem {text : List Char} (h : '<' ∉ text) : SafeText text := by
  intro front rest heq
  exact absurd (by simp [heq]) h

/-- A safe text is read as text, whatever follows it. -/
theorem SafeText.reads {text : List Char} (h : SafeText text) (rest : List Char) :
    Reads (text ++ rest) (text.map .text) rest := by
  induction text with
  | nil => exact .done rest
  | cons c text ih =>
    obtain ⟨hfirst, hrest⟩ := (safeText_cons_iff c text).mp h
    refine .char (fun hc ↦ ?_) (ih hrest)
    obtain ⟨d, hd, halpha, hslash⟩ := hfirst hc
    cases text with
    | nil => simp at hd
    | cons e text =>
      obtain rfl : e = d := by simpa using hd
      exact (opensTag.eq_2 e (text ++ rest) fun _ _ hcd _ ↦ hslash hcd).trans halpha

/-! ### The characters of attributes -/

/-- Attributes as they stand in a tag, character by character. -/
def attributeChars : List (String × String) → List Char
  | [] => []
  | (key, value) :: rest =>
    ' ' :: (key.toList ++ '=' :: '"' :: (value.toList ++ '"' :: attributeChars rest))

theorem toList_attributeText (attributes : List (String × String)) :
    (Tree.attributeText attributes).toList = attributeChars attributes := by
  induction attributes with
  | nil => rfl
  | cons pair rest ih =>
    simp [Tree.attributeText, attributeChars, String.toList_append, ih]

/-- Attributes are either nothing, or start with a blank and end with a quote. -/
theorem attributeChars_eq (attributes : List (String × String)) :
    attributeChars attributes = [] ∨
      ∃ inner, attributeChars attributes = ' ' :: inner ++ ['"'] := by
  induction attributes with
  | nil => exact Or.inl rfl
  | cons pair rest ih =>
    refine Or.inr ?_
    rcases ih with hnil | ⟨inner, hinner⟩
    · exact ⟨pair.1.toList ++ '=' :: '"' :: pair.2.toList, by simp [attributeChars, hnil]⟩
    · exact ⟨pair.1.toList ++ '=' :: '"' :: (pair.2.toList ++ '"' :: ' ' :: inner),
        by simp [attributeChars, hinner]⟩

/-! ### Where a printed tag ends -/

theorem splitTagEnd?_unquoted {text : List Char} (h : ∀ c ∈ text, c ≠ '"' ∧ c ≠ '>')
    (rest : List Char) :
    splitTagEnd? false (text ++ rest) =
      (splitTagEnd? false rest).map fun (body, after) ↦ (text ++ body, after) := by
  induction text with
  | nil =>
    rw [List.nil_append]
    cases splitTagEnd? false rest <;> rfl
  | cons c text ih =>
    obtain ⟨hquote, hclose⟩ := h c (by simp)
    have hc : ¬(c = '>' ∧ (!false) = true) := fun hc ↦ hclose hc.1
    have hstay : (false != (c == '"')) = false := by simpa using hquote
    rw [List.cons_append, splitTagEnd?, if_neg hc, hstay,
      ih fun d hd ↦ h d (List.mem_cons_of_mem c hd), Option.map_map]
    rfl

theorem splitTagEnd?_quoted {text : List Char} (h : ∀ c ∈ text, c ≠ '"') (rest : List Char) :
    splitTagEnd? true (text ++ rest) =
      (splitTagEnd? true rest).map fun (body, after) ↦ (text ++ body, after) := by
  induction text with
  | nil =>
    rw [List.nil_append]
    cases splitTagEnd? true rest <;> rfl
  | cons c text ih =>
    have hc : ¬(c = '>' ∧ (!true) = true) := by simp
    have hstay : (true != (c == '"')) = true := by simpa using h c (by simp)
    rw [List.cons_append, splitTagEnd?, if_neg hc, hstay,
      ih fun d hd ↦ h d (List.mem_cons_of_mem c hd), Option.map_map]
    rfl

theorem splitTagEnd?_quote (quoted : Bool) (rest : List Char) :
    splitTagEnd? quoted ('"' :: rest) =
      (splitTagEnd? (!quoted) rest).map fun (body, after) ↦ ('"' :: body, after) := by
  cases quoted <;> simp [splitTagEnd?]

/-- A tag does not end among its attributes. -/
theorem splitTagEnd?_attributes {attributes : List (String × String)}
    (h : ∀ pair ∈ attributes, SafeAttribute pair) (rest : List Char) :
    splitTagEnd? false (attributeChars attributes ++ rest) =
      (splitTagEnd? false rest).map fun (body, after) ↦
        (attributeChars attributes ++ body, after) := by
  induction attributes with
  | nil =>
    rw [attributeChars, List.nil_append]
    cases splitTagEnd? false rest <;> rfl
  | cons pair attributes ih =>
    have hsafe := h pair (by simp)
    have hkey : ∀ c ∈ ' ' :: (pair.1.toList ++ ['=']), c ≠ '"' ∧ c ≠ '>' := by
      intro c hc
      rcases List.mem_cons.mp hc with rfl | hc
      · decide
      · rcases List.mem_append.mp hc with hc | hc
        · exact (hsafe.key c hc).2
        · rw [List.mem_singleton.mp hc]
          decide
    have hsplit : attributeChars (pair :: attributes) ++ rest =
        (' ' :: (pair.1.toList ++ ['='])) ++
          ('"' :: (pair.2.toList ++ ('"' :: (attributeChars attributes ++ rest)))) := by
      simp [attributeChars]
    rw [hsplit, splitTagEnd?_unquoted hkey, splitTagEnd?_quote, Bool.not_false,
      splitTagEnd?_quoted hsafe.value, splitTagEnd?_quote, Bool.not_true,
      ih fun other hother ↦ h other (List.mem_cons_of_mem pair hother)]
    simp only [Option.map_map]
    congr 1
    funext found
    simp [attributeChars]

/-! ### Printed tags -/

/-- The tag that starts an element. -/
def startTag (tag : String) (attributes : List (String × String)) (isEmpty : Bool) : Tag :=
  ⟨false, tag.toList, attributeChars attributes ++ if isEmpty then ['/'] else []⟩

/-- The tag that ends an element. -/
def endTag (tag : String) : Tag := ⟨true, tag.toList, []⟩

theorem kind_startTag (tag : String) (attributes : List (String × String)) (isEmpty : Bool) :
    (startTag tag attributes isEmpty).kind = if isEmpty then .selfClosing else .opening := by
  cases isEmpty with
  | true => simp [startTag, Tag.kind]
  | false =>
    rcases attributeChars_eq attributes with hnil | ⟨inner, hinner⟩
    · simp [startTag, Tag.kind, hnil]
    · have hlast : (' ' :: (inner ++ ['"'])).getLast? = some '"' := by
        rw [← List.cons_append, List.getLast?_concat]
      simp [startTag, Tag.kind, hinner, hlast]

theorem kind_endTag (tag : String) : (endTag tag).kind = .closing := rfl

theorem SafeTag.readable_startTag {tag : String} {attributes : List (String × String)}
    (h : SafeTag tag.toList) (hattributes : ∀ pair ∈ attributes, SafeAttribute pair)
    (isEmpty : Bool) : (startTag tag attributes isEmpty).Readable where
  isName := h.isName
  nameChars := h.nameChars
  bodyStart := by
    intro c hc
    rcases attributeChars_eq attributes with hnil | ⟨inner, hinner⟩
    · cases isEmpty with
      | true =>
        obtain rfl : '/' = c := by simpa [startTag, hnil] using hc
        decide
      | false => simp [startTag, hnil] at hc
    · obtain rfl : ' ' = c := by simpa [startTag, hinner] using hc
      decide
  bodyEnd := by
    cases isEmpty with
    | true =>
      have hend : splitTagEnd? false ['/', '>'] = some (['/'], []) := by simp [splitTagEnd?]
      simp [startTag, splitTagEnd?_attributes hattributes, hend]
    | false =>
      have hend : splitTagEnd? false ['>'] = some ([], []) := by simp [splitTagEnd?]
      simp [startTag, splitTagEnd?_attributes hattributes, hend]

theorem SafeTag.readable_endTag {tag : String} (h : SafeTag tag.toList) :
    (endTag tag).Readable where
  isName := h.isName
  nameChars := h.nameChars
  bodyStart := by simp [endTag]
  bodyEnd := by simp [endTag, splitTagEnd?]

/-! ### The id that a printed tag shows -/

theorem infix_of_infix_append {c : Char} {needle front text : List Char}
    (h : c :: needle <:+: front ++ text) (hfront : c ∉ front) : c :: needle <:+: text := by
  induction front with
  | nil => exact h
  | cons d front ih =>
    rcases List.infix_cons_iff.mp h with hahead | hwithin
    · exact absurd (List.cons_prefix_cons.mp hahead).1 fun hcd ↦ hfront (by simp [hcd])
    · exact ih hwithin fun hc ↦ hfront (List.mem_cons_of_mem d hc)

/-- Texts without quotes that are followed by one are equal if one of the two wholes starts the
other. -/
theorem eq_of_prefix_quote {first second rest rest' : List Char} (hfirst : '"' ∉ first)
    (hsecond : '"' ∉ second) (h : first ++ '"' :: rest <+: second ++ '"' :: rest') :
    first = second ∧ rest <+: rest' := by
  induction first generalizing second with
  | nil =>
    cases second with
    | nil => exact ⟨rfl, (List.cons_prefix_cons.mp h).2⟩
    | cons d second =>
      exact absurd (List.cons_prefix_cons.mp h).1 fun hd ↦ hsecond (hd ▸ List.mem_cons_self)
  | cons c first ih =>
    cases second with
    | nil => exact absurd (List.cons_prefix_cons.mp h).1 fun hc ↦ hfirst (by simp [hc])
    | cons d second =>
      obtain ⟨rfl, htail⟩ := List.cons_prefix_cons.mp h
      obtain ⟨rfl, hrest⟩ := ih (fun hc ↦ hfirst (List.mem_cons_of_mem c hc))
        (fun hc ↦ hsecond (List.mem_cons_of_mem c hc)) htail
      exact ⟨rfl, hrest⟩

/-- A needle that starts inside a quoted value ends in its closing quote at the latest, which it
cannot, if the value is followed by anything but an id and a quote. -/
theorem infix_of_infix_value {id value rest : List Char} (hvalue : ∀ c ∈ value, c ≠ '"')
    (hrest : ¬id ++ ['"'] <+: rest) (h : idNeedle id <:+: value ++ '"' :: rest) :
    idNeedle id <:+: rest := by
  induction value with
  | nil =>
    rw [idNeedle] at h ⊢
    rcases List.infix_cons_iff.mp h with hahead | hwithin
    · exact absurd (List.cons_prefix_cons.mp hahead).1 (by decide)
    · exact hwithin
  | cons c value ih =>
    rcases List.infix_cons_iff.mp h with hahead | hwithin
    · rw [idNeedle] at hahead
      have hquote : '"' ∉ c :: value := fun hmem ↦ hvalue _ hmem rfl
      have hneedle : '"' ∉ [' ', 'i', 'd', '='] := by decide
      exact absurd (eq_of_prefix_quote hneedle hquote hahead).2 hrest
    · exact ih (fun d hd ↦ hvalue d (List.mem_cons_of_mem c hd)) hwithin

/-- No id with its closing quote stands where attributes or the end of a tag may stand. -/
theorem not_prefix_attributeChars {id : List Char} (hid : SafeId id)
    (attributes : List (String × String)) {last : List Char}
    (hlast : ∀ c ∈ last, c ≠ ' ' ∧ c ≠ '"') :
    ¬id ++ ['"'] <+: attributeChars attributes ++ last := by
  intro hahead
  rcases attributeChars_eq attributes with hnil | ⟨inner, hinner⟩
  · rw [hnil, List.nil_append] at hahead
    exact (hlast '"' (hahead.subset (by simp))).2 rfl
  · rw [hinner] at hahead
    cases id with
    | nil => exact absurd (List.cons_prefix_cons.mp hahead).1 (by decide)
    | cons c rest =>
      obtain rfl : c = ' ' := (List.cons_prefix_cons.mp hahead).1
      exact absurd (hid ' ' List.mem_cons_self).1 (by decide)

/-- Where an attribute is followed by something else than an id and a quote, it is an `id` attribute
that shows the id, or what follows it shows the id. -/
theorem eq_or_infix_of_infix_attribute {id key value : String} (hid : SafeId id.toList)
    (hsafe : SafeAttribute (key, value)) {rest : List Char} (hrest : ¬id.toList ++ ['"'] <+: rest)
    (h : idNeedle id.toList <:+:
      ' ' :: ((key.toList ++ ['=']) ++ '"' :: (value.toList ++ '"' :: rest))) :
    ("id", id) = (key, value) ∨ idNeedle id.toList <:+: rest := by
  rw [idNeedle] at h
  rcases List.infix_cons_iff.mp h with hahead | hwithin
  · -- The needle starts with this attribute: key and value are what it asks for.
    have hquoteKey : '"' ∉ key.toList ++ ['='] := by
      intro hmem
      rcases List.mem_append.mp hmem with hmem | hmem
      · exact (hsafe.key _ hmem).2.1 rfl
      · exact absurd (List.mem_singleton.mp hmem) (by decide)
    have hquoteValue : '"' ∉ value.toList := fun hmem ↦ hsafe.value _ hmem rfl
    have hquoteId : '"' ∉ id.toList := fun hmem ↦ (hid _ hmem).2 rfl
    obtain ⟨hkey, hvalue⟩ := eq_of_prefix_quote (by decide) hquoteKey
      (List.cons_prefix_cons.mp hahead).2
    have hsame : id.toList = value.toList := (eq_of_prefix_quote hquoteId hquoteValue hvalue).1
    have hname : "id".toList ++ ['='] = key.toList ++ ['='] := hkey
    have hkey : "id".toList = key.toList := List.append_cancel_right hname
    exact .inl (by rw [String.toList_inj.mp hsame, ← String.toList_inj.mp hkey])
  · -- Else it starts behind this attribute: keys have no blank, and a value ends too early.
    have hfront : ' ' ∉ (key.toList ++ ['=']) ++ ['"'] := by
      intro hmem
      rcases List.mem_append.mp hmem with hmem | hmem
      · rcases List.mem_append.mp hmem with hmem | hmem
        · exact absurd (hsafe.key _ hmem).1 (by decide)
        · exact absurd (List.mem_singleton.mp hmem) (by decide)
      · exact absurd (List.mem_singleton.mp hmem) (by decide)
    have hvalue : idNeedle id.toList <:+: value.toList ++ '"' :: rest := by
      rw [idNeedle]
      exact infix_of_infix_append (by simpa using hwithin) hfront
    exact .inr (infix_of_infix_value hsafe.value hrest hvalue)

/-- Attributes show an id exactly if it is the value of an `id` attribute. -/
theorem infix_attributeChars_iff {id : String} (hid : SafeId id.toList)
    {attributes : List (String × String)} (h : ∀ pair ∈ attributes, SafeAttribute pair)
    {last : List Char} (hlast : ∀ c ∈ last, c ≠ ' ' ∧ c ≠ '"') :
    idNeedle id.toList <:+: attributeChars attributes ++ last ↔ ("id", id) ∈ attributes := by
  have hspace : ' ' ∉ last := fun hmem ↦ (hlast _ hmem).1 rfl
  induction attributes with
  | nil =>
    have hnone : ¬idNeedle id.toList <:+: last := by
      intro hwithin
      rw [idNeedle] at hwithin
      exact hspace (hwithin.subset (by simp))
    simpa [attributeChars] using hnone
  | cons pair attributes ih =>
    obtain ⟨key, value⟩ := pair
    have hsplit : attributeChars ((key, value) :: attributes) ++ last =
        ' ' :: ((key.toList ++ ['=']) ++ '"' ::
          (value.toList ++ '"' :: (attributeChars attributes ++ last))) := by
      simp [attributeChars]
    have hrest :
        idNeedle id.toList <:+: attributeChars attributes ++ last ↔ ("id", id) ∈ attributes :=
      ih fun other hother ↦ h other (List.mem_cons_of_mem _ hother)
    rw [hsplit, List.mem_cons, ← hrest]
    constructor
    · exact eq_or_infix_of_infix_attribute hid (h (key, value) List.mem_cons_self)
        (not_prefix_attributeChars hid attributes hlast)
    · rintro (heq | hwithin)
      · obtain ⟨rfl, rfl⟩ := Prod.mk.inj heq
        refine List.IsPrefix.isInfix ⟨attributeChars attributes ++ last, ?_⟩
        have hkey : "id".toList = ['i', 'd'] := rfl
        simp [idNeedle, hkey]
      · have hsuffix :=
          List.suffix_append (' ' :: (key.toList ++ '=' :: '"' :: (value.toList ++ ['"'])))
          (attributeChars attributes ++ last)
        exact hwithin.trans (by simpa using hsuffix.isInfix)

/-- A printed tag shows an id exactly if it has an `id` attribute of that value. -/
theorem showsId_startTag_iff {tag : String} (htag : SafeTag tag.toList)
    {attributes : List (String × String)}
    (hattributes : ∀ pair ∈ attributes, SafeAttribute pair) {id : String}
    (hid : SafeId id.toList) (isEmpty : Bool) :
    (startTag tag attributes isEmpty).showsId id.toList = true ↔ ("id", id) ∈ attributes := by
  let last : List Char := (if isEmpty then ['/'] else []) ++ ['>']
  have hlast : ∀ c ∈ last, c ≠ ' ' ∧ c ≠ '"' := by
    cases isEmpty <;> simp [last]
  have htext : (startTag tag attributes isEmpty).text =
      ('<' :: tag.toList) ++ (attributeChars attributes ++ last) := by
    simp [startTag, Tag.text, last]
  have hfront : ' ' ∉ '<' :: tag.toList := by
    intro hmem
    rcases List.mem_cons.mp hmem with heq | hmem
    · exact absurd heq (by decide)
    · exact absurd (htag.chars ' ' hmem).1 (by decide)
  rw [showsId_iff, htext, ← infix_attributeChars_iff hid hattributes hlast]
  constructor
  · intro hwithin
    rw [idNeedle] at hwithin ⊢
    exact infix_of_infix_append hwithin hfront
  · exact fun hwithin ↦ hwithin.trans (List.suffix_append _ _).isInfix

end LiveMarkup
