import LiveMarkup.Markup.Located

/-!
Reading a front part of a markup text. `Reads text tokens rest` says that the tag scanner reads
`tokens` off the front of `text`, with the characters of `rest` still to come, and meets no tag
that is never closed. A text that is read to its end this way is `Reads text tokens []`.

A tag that was read once is read in whatever text it stands (`Tag.Readable`), and whether a `<`
opens a tag depends on the two characters after it only (`readTag_eq_text_iff`). What was read
before the end of a text, or before a `<`, is therefore read in the same way before any other
such place (`Reads.transport`). Each tag that scanning finds comes with a reading of what stands
before it (`reads_of_scan_eq`).
-/

set_option autoImplicit false
set_option relaxedAutoImplicit false

namespace LiveMarkup

/-! ### What opens a tag -/

/-- Whether a text after a `<` goes on as a tag: with a letter, or a slash and a letter. -/
def opensTag : List Char → Bool
  | '/' :: c :: _ => c.isAlpha
  | c :: _ => c.isAlpha
  | [] => false

theorem isNameChar_of_isAlpha {c : Char} (h : c.isAlpha = true) : Tag.isNameChar c = true := by
  have hval : (65 ≤ c.toNat ∧ c.toNat ≤ 90) ∨ (97 ≤ c.toNat ∧ c.toNat ≤ 122) := by
    have hcases : (decide (c.val ≥ 65 ∧ c.val ≤ 90) || (c.val ≥ 97 && c.val ≤ 122)) = true := h
    simpa [UInt32.le_iff_toNat_le] using hcases
  have hblank : isBlank c = false := by
    simp only [isBlank, Bool.or_eq_false_iff, Bool.and_eq_false_iff, decide_eq_false_iff_not,
      beq_eq_false_iff_ne]
    omega
  have hslash : c ≠ '/' := by rintro rfl; simp at hval
  have hclose : c ≠ '>' := by rintro rfl; simp at hval
  simp [Tag.isNameChar, hblank, hslash, hclose]

theorem isName_takeWhile (text : List Char) :
    Tag.isName (text.takeWhile Tag.isNameChar) = text.head?.any Char.isAlpha := by
  cases text with
  | nil => rfl
  | cons c rest =>
    by_cases hname : Tag.isNameChar c = true
    · simp [hname, Tag.isName]
    · have halpha : c.isAlpha = false :=
        Bool.eq_false_iff.mpr fun hc ↦ hname (isNameChar_of_isAlpha hc)
      simp [hname, Tag.isName, halpha]

theorem readName_eq_text_iff (closing : Bool) (text : List Char) :
    readName closing text = .text ↔ text.head?.any Char.isAlpha = false := by
  rw [readName, isName_takeWhile]
  by_cases h : text.head?.any Char.isAlpha = true
  · rw [if_pos h]
    split <;> simp [h]
  · simp [h]

/-- A `<` is text unless a letter, or a slash and a letter, follow. -/
theorem readTag_eq_text_iff (text : List Char) :
    readTag text = .text ↔ opensTag text = false := by
  rw [readTag.eq_def]
  split
  · rename_i tail
    rw [readName_eq_text_iff]
    cases tail with
    | nil => simp [opensTag]
    | cons c rest => simp [opensTag]
  · rename_i hslash
    rw [readName_eq_text_iff]
    cases text with
    | nil => simp [opensTag]
    | cons c rest =>
      have hc : c ≠ '/' := fun hc ↦ hslash rest (by rw [hc])
      rw [opensTag.eq_2 c rest fun d tail hcd _ ↦ hc hcd]
      rfl

/-- Markup that may follow a cut: none, or such that starts with a `<`. -/
def AtTag (rest : List Char) : Prop := ∀ c ∈ rest.head?, c = '<'

theorem atTag_nil : AtTag [] := by simp [AtTag]

theorem atTag_cons (rest : List Char) : AtTag ('<' :: rest) := by simp [AtTag]

theorem opensTag_of_atTag {rest : List Char} (h : AtTag rest) : opensTag rest = false := by
  cases rest with
  | nil => rfl
  | cons c tail =>
    obtain rfl : c = '<' := h c (by simp)
    simp [opensTag]

/-- Whether a `<` opens a tag cannot be changed by what follows a later cut. -/
theorem opensTag_append_congr (text : List Char) {rest rest' : List Char} (h : AtTag rest)
    (h' : AtTag rest') : opensTag (text ++ rest) = opensTag (text ++ rest') := by
  have hslash {tail : List Char} (htail : AtTag tail) : opensTag ('/' :: tail) = false := by
    cases tail with
    | nil => rfl
    | cons c tail =>
      obtain rfl : c = '<' := htail c (by simp)
      simp [opensTag]
  match text with
  | [] => rw [List.nil_append, List.nil_append, opensTag_of_atTag h, opensTag_of_atTag h']
  | [c] =>
    by_cases hc : c = '/'
    · subst hc
      exact (hslash h).trans (hslash h').symm
    · have hother (tail : List Char) : opensTag (c :: tail) = c.isAlpha :=
        opensTag.eq_2 c tail fun _ _ hcd _ ↦ hc hcd
      exact (hother rest).trans (hother rest').symm
  | c :: d :: tail =>
    by_cases hc : c = '/'
    · subst hc
      rfl
    · have hother (tail : List Char) : opensTag (c :: tail) = c.isAlpha :=
        opensTag.eq_2 c tail fun _ _ hcd _ ↦ hc hcd
      exact (hother _).trans (hother _).symm

/-! ### Tags that are read wherever they stand -/

theorem splitTagEnd?_body {quoted : Bool} {body after : List Char}
    (h : splitTagEnd? quoted (body ++ '>' :: after) = some (body, after)) (after' : List Char) :
    splitTagEnd? quoted (body ++ '>' :: after') = some (body, after') := by
  induction body generalizing quoted with
  | nil =>
    cases quoted with
    | false => simp [splitTagEnd?]
    | true => simp [splitTagEnd?] at h
  | cons c body ih =>
    rw [List.cons_append, splitTagEnd?] at h ⊢
    split at h
    · simp at h
    · rename_i hc
      obtain ⟨⟨tail, after''⟩, htail, heq⟩ := Option.map_eq_some_iff.mp h
      obtain ⟨rfl, rfl⟩ : tail = body ∧ after'' = after := by simpa using heq
      rw [if_neg hc, ih htail]
      rfl

namespace Tag

/-- The text of a tag without its `<`. -/
def tail (tag : Tag) : List Char :=
  (if tag.closing then ['/'] else []) ++ tag.name ++ tag.body ++ ['>']

theorem text_eq (tag : Tag) : tag.text = '<' :: tag.tail := by simp [text, tail]

/-- A tag as the scanner reads it: its name goes on up to its body, and the first `>` outside
quotes ends the body. -/
structure Readable (tag : Tag) : Prop where
  isName : isName tag.name = true
  nameChars : ∀ c ∈ tag.name, isNameChar c = true
  bodyStart : ∀ c ∈ tag.body.head?, isNameChar c = false
  bodyEnd : splitTagEnd? false (tag.body ++ ['>']) = some (tag.body, [])

theorem Readable.readName {tag : Tag} (h : tag.Readable) (after : List Char) :
    readName tag.closing (tag.name ++ tag.body ++ '>' :: after) = .tag tag after := by
  have hstop : (tag.body ++ '>' :: after).takeWhile isNameChar = [] := by
    cases hbody : tag.body with
    | nil => simp [isNameChar]
    | cons c rest => simp [h.bodyStart c (by simp [hbody])]
  have htake : (tag.name ++ tag.body ++ '>' :: after).takeWhile isNameChar = tag.name := by
    rw [List.append_assoc, List.takeWhile_append_of_pos h.nameChars, hstop, List.append_nil]
  have hdrop : (tag.name ++ tag.body ++ '>' :: after).dropWhile isNameChar =
      tag.body ++ '>' :: after := by
    have hsplit := List.takeWhile_append_dropWhile (p := isNameChar)
      (l := tag.name ++ tag.body ++ '>' :: after)
    rw [htake] at hsplit
    exact List.append_cancel_left (hsplit.trans (List.append_assoc ..))
  rw [LiveMarkup.readName, htake, if_pos h.isName, hdrop, splitTagEnd?_body h.bodyEnd]

/-- A readable tag is read, whatever follows it. -/
theorem Readable.readTag {tag : Tag} (h : tag.Readable) (after : List Char) :
    readTag (tag.tail ++ after) = .tag tag after := by
  have hread := h.readName after
  cases hclosing : tag.closing with
  | true =>
    rw [hclosing] at hread
    simpa [tail, hclosing, LiveMarkup.readTag] using hread
  | false =>
    rw [hclosing] at hread
    have hslash : ∀ text, tag.name ++ tag.body ++ '>' :: after ≠ '/' :: text := by
      intro text heq
      have hname := h.isName
      cases hnamed : tag.name with
      | nil => simp [hnamed, Tag.isName] at hname
      | cons c rest =>
        rw [hnamed] at heq hname
        obtain rfl : c = '/' := (List.cons.inj heq).1
        simp [Tag.isName] at hname
    have hplain := (LiveMarkup.readTag.eq_2 _ hslash).trans hread
    simpa [tail, hclosing] using hplain

end Tag

theorem readable_of_readName {closing : Bool} {text after : List Char} {tag : Tag}
    (h : readName closing text = .tag tag after) : tag.Readable := by
  rw [readName] at h
  split at h
  · rename_i hname
    split at h
    · rename_i body after' hend
      obtain ⟨rfl, rfl⟩ : _ = tag ∧ after' = after := by simpa using h
      refine ⟨hname, fun c hc ↦ List.all_eq_true.mp List.all_takeWhile c hc, fun c hc ↦ ?_, ?_⟩
      · have hhead := List.head?_dropWhile_not Tag.isNameChar text
        cases body with
        | nil => simp at hc
        | cons d rest =>
          obtain rfl : d = c := by simpa using hc
          rw [eq_of_splitTagEnd? hend] at hhead
          simpa using hhead
      · rw [eq_of_splitTagEnd? hend] at hend
        exact splitTagEnd?_body hend []
    · cases h
  · cases h

/-- A tag that was read once is read in whatever text it stands. -/
theorem readable_of_readTag {text after : List Char} {tag : Tag}
    (h : readTag text = .tag tag after) :
    tag.Readable := by
  rw [readTag.eq_def] at h
  split at h
  · exact readable_of_readName h
  · exact readable_of_readName h

/-! ### Readings -/

/-- The scanner reads tokens off the front of a text and leaves the rest. -/
inductive Reads : List Char → List Token → List Char → Prop where
  | done (rest : List Char) : Reads rest [] rest
  | char {c : Char} {text : List Char} {tokens : List Token} {rest : List Char}
      (htext : c = '<' → opensTag text = false) (hrest : Reads text tokens rest) :
      Reads (c :: text) (.text c :: tokens) rest
  | tag {tag : Tag} {text after : List Char} {tokens : List Token} {rest : List Char}
      (htag : readTag text = .tag tag after) (hrest : Reads after tokens rest) :
      Reads ('<' :: text) (.tag tag :: tokens) rest

namespace Reads

theorem trans {text middle rest : List Char} {tokens tokens' : List Token}
    (h : Reads text tokens middle) (h' : Reads middle tokens' rest) :
    Reads text (tokens ++ tokens') rest := by
  induction h with
  | done => exact h'
  | char htext _ ih => exact .char htext (ih h')
  | tag htag _ ih => exact .tag htag (ih h')

/-- Reading loses nothing. -/
theorem text_eq {text rest : List Char} {tokens : List Token} (h : Reads text tokens rest) :
    text = Token.allChars tokens ++ rest := by
  induction h with
  | done => rfl
  | char _ _ ih => rw [Token.allChars_cons, ih]; rfl
  | tag htag _ ih => rw [Token.allChars_cons, List.append_assoc, ← ih]; exact eq_of_readTag htag

/-- What is read comes first in what scanning finds. -/
theorem scan_eq {text rest : List Char} {tokens : List Token} (h : Reads text tokens rest) :
    Token.scan text = tokens ++ Token.scan rest := by
  induction h with
  | done => rfl
  | @char c text tokens rest htext _ ih =>
    rw [Token.scan, List.cons_append, ← ih]
    split
    · rename_i hc
      have htext := (readTag_eq_text_iff text).mpr (htext hc)
      split
      · rfl
      · rename_i hread
        rw [htext] at hread
        cases hread
      · rename_i hread
        rw [htext] at hread
        cases hread
    · rfl
  | @tag t text after tokens rest htag _ ih =>
    rw [Token.scan, if_pos rfl, List.cons_append, ← ih]
    split
    · rename_i hread
      rw [htag] at hread
      cases hread
    · rename_i hread
      rw [htag] at hread
      cases hread
    · rename_i t' after' hread
      rw [htag] at hread
      obtain ⟨rfl, rfl⟩ := TagReading.tag.inj hread
      rfl

/-- What was read before a cut is read in the same way before any other. -/
theorem transport {text rest rest' : List Char} {tokens : List Token} (h : Reads text tokens rest)
    (hrest : AtTag rest) (hrest' : AtTag rest') :
    Reads (Token.allChars tokens ++ rest') tokens rest' := by
  induction h with
  | done => exact .done rest'
  | @char c text tokens rest htext hread ih =>
    rw [Token.allChars_cons]
    refine .char (fun hc ↦ ?_) (ih hrest)
    have hopens := htext hc
    rw [hread.text_eq] at hopens
    exact (opensTag_append_congr _ hrest' hrest).trans hopens
  | @tag t text after tokens rest htag _ ih =>
    rw [Token.allChars_cons, List.append_assoc]
    change Reads (t.text ++ _) _ _
    rw [t.text_eq]
    exact .tag ((readable_of_readTag htag).readTag _) (ih hrest)

/-- A readable tag is read. -/
theorem single {tag : Tag} (h : tag.Readable) (rest : List Char) :
    Reads (tag.text ++ rest) [.tag tag] rest := by
  rw [tag.text_eq]
  exact .tag (h.readTag rest) (.done rest)

end Reads

/-- Scanning finds a tag only where it was read. -/
theorem reads_of_scan_eq {markup : List Char} {before after : List Token} {tag : Tag}
    (h : Token.scan markup = before ++ .tag tag :: after) :
    ∃ rest, Reads markup before (tag.text ++ rest) ∧ tag.Readable ∧ after = Token.scan rest := by
  fun_induction Token.scan markup generalizing before with
  | case1 => simp at h
  | case2 rest hread ih =>
    cases before with
    | nil => simp at h
    | cons token before =>
      obtain ⟨rfl, htail⟩ := List.cons.inj h
      obtain ⟨left, hleft, htag, hafter⟩ := ih htail
      exact ⟨left, .char (fun _ ↦ (readTag_eq_text_iff rest).mp hread) hleft, htag, hafter⟩
  | case3 rest hread =>
    have hmem : Token.tag tag ∈ Token.text '<' :: rest.map Token.text := h ▸ by simp
    simp at hmem
  | case4 rest t left hread _ ih =>
    cases before with
    | nil =>
      obtain ⟨ht, rfl⟩ := List.cons.inj h
      obtain rfl : t = tag := Token.tag.inj ht
      refine ⟨left, ?_, readable_of_readTag hread, rfl⟩
      rw [eq_of_readTag hread]
      exact .done _
    | cons token before =>
      obtain ⟨rfl, htail⟩ := List.cons.inj h
      obtain ⟨left', hleft, htag, hafter⟩ := ih htail
      exact ⟨left', .tag hread hleft, htag, hafter⟩
  | case5 c rest hc ih =>
    cases before with
    | nil => simp at h
    | cons token before =>
      obtain ⟨rfl, htail⟩ := List.cons.inj h
      obtain ⟨left, hleft, htag, hafter⟩ := ih htail
      exact ⟨left, .char (fun hc' ↦ absurd hc' hc) hleft, htag, hafter⟩

end LiveMarkup
