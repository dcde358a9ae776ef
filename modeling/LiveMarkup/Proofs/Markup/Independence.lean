import LiveMarkup.Proofs.Markup.Rewriting

/-!
Writing into two elements of one markup text. If the elements do not overlap, it does not matter
which is written into first (`Finds.withInner_comm`); if one stands inside the other, a write into
the outer one leaves no trace of a write into the inner one (`Finds.withInner_absorb`). Both hold
since the tokens of an element can be moved (`Finds.move`), and since balanced tokens can be
exchanged for other balanced ones (`Balanced.exchange`).
-/

set_option autoImplicit false
set_option relaxedAutoImplicit false

namespace LiveMarkup

/-! ### Balanced parts -/

/-- A balanced part can be exchanged for another. -/
theorem Balanced.exchange {name : List Char} {front part part' back : List Token}
    (h : Balanced name (front ++ (part ++ back))) (hpart : Balanced name part)
    (hpart' : Balanced name part') : Balanced name (front ++ (part' ++ back)) := by
  have hcount := hpart.closings_eq
  have hcount' := hpart'.closings_eq
  refine ⟨fun start hstart ↦ ?_, ?_⟩
  · rcases prefix_append_cases hstart with hfront | ⟨tail, rfl, htail⟩
    · exact h.closings_le start (hfront.trans (List.prefix_append front _))
    · rcases prefix_append_cases htail with hinside | ⟨last, rfl, hlast⟩
      · have hle := h.closings_le front (List.prefix_append front _)
        have hle' := hpart'.closings_le tail hinside
        rw [closings_append, openings_append]
        omega
      · have hle := h.closings_le (front ++ (part ++ last))
          ((List.prefix_append_right_inj front).mpr ((List.prefix_append_right_inj part).mpr hlast))
        simp only [closings_append, openings_append] at hle ⊢
        omega
  · have heq := h.closings_eq
    simp only [closings_append, openings_append] at heq ⊢
    omega

/-- Two tags of one name around balanced tokens are balanced, whatever that name is. -/
theorem Balanced.between {name : List Char} {tag close : Tag} {tokens : List Token}
    (h : Balanced name tokens) (htag : tag.kind = .opening) (hclose : close.kind = .closing)
    (hname : close.name = tag.name) :
    Balanced name (.tag tag :: (tokens ++ [.tag close])) := by
  refine h.enclose ?_ ?_ ?_
  · simp [closings, Token.closes, htag]
  · simp [openings, Token.opens, hclose]
  · simp [openings, closings, Token.opens, Token.closes, htag, hclose, hname]

/-- A tag that closes itself is balanced. -/
theorem balanced_selfClosing (name : List Char) {tag : Tag} (htag : tag.kind = .selfClosing) :
    Balanced name [.tag tag] := by
  refine balanced_of_forall fun token htoken ↦ ?_
  obtain rfl := List.mem_singleton.mp htoken
  simp [Token.opens, Token.closes, htag]

/-! ### Where an element stands -/

theorem Token.chars_ne_nil (token : Token) : token.chars ≠ [] := by
  cases token with
  | text c => simp [chars]
  | tag tag => simp [chars, Tag.text]

/-- Of two front parts of a token list, the one with less text is a front part of the other. -/
theorem prefix_of_length_allChars_le {front front' tokens : List Token} (h : front <+: tokens)
    (h' : front' <+: tokens)
    (hle : (Token.allChars front).length ≤ (Token.allChars front').length) : front <+: front' := by
  rcases List.prefix_or_prefix_of_prefix h h' with hfront | ⟨rest, rfl⟩
  · exact hfront
  · cases rest with
    | nil => simp
    | cons token rest =>
      have hpositive : 0 < token.chars.length := List.length_pos_iff.mpr token.chars_ne_nil
      rw [Token.allChars_append, Token.allChars_cons, List.length_append, List.length_append] at hle
      omega

namespace Located

/-- The tokens of an element. -/
def tokens (element : Located) : List Token :=
  .tag element.tag :: (element.inner ++ element.close?.toList.map .tag)

/-- How many characters stand before an element. -/
def start (element : Located) : Nat := (Token.allChars element.before).length

/-- How many characters stand before the end of an element. -/
def stop (element : Located) : Nat := element.start + element.outerText.length

/-- How many characters stand before the text inside an element. -/
def innerStart (element : Located) : Nat := element.start + element.tag.text.length

/-- How many characters stand before the end of the text inside an element. -/
def innerStop (element : Located) : Nat := element.innerStart + element.innerText.length

/-- Two elements that do not overlap. -/
def Apart (element other : Located) : Prop :=
  element.stop ≤ other.start ∨ other.stop ≤ element.start

/-- An element that stands within the text inside another. -/
def LiesIn (element outer : Located) : Prop :=
  outer.innerStart ≤ element.start ∧ element.stop ≤ outer.innerStop

theorem allChars_tokens (element : Located) :
    Token.allChars element.tokens = element.outerText := by
  cases hclose : element.close? <;>
    simp [tokens, outerText, hclose, Token.allChars, Token.chars]

theorem stop_eq (element : Located) :
    element.stop = (Token.allChars (element.before ++ element.tokens)).length := by
  rw [Token.allChars_append, List.length_append, element.allChars_tokens, stop, start]

theorem innerStart_eq (element : Located) :
    element.innerStart = (Token.allChars (element.before ++ [.tag element.tag])).length := by
  rw [Token.allChars_append, List.length_append, innerStart, start]
  simp [Token.allChars, Token.chars]

theorem innerStop_eq (element : Located) :
    element.innerStop =
      (Token.allChars (element.before ++ .tag element.tag :: element.inner)).length := by
  rw [Token.allChars_append, Token.allChars_cons, innerStop, innerStart, start, innerText]
  simp only [List.length_append, Token.chars]
  omega

end Located

/-! ### Elements and the tokens around them -/

theorem Tag.showsId_of_dropSlash {id : List Char} {tag : Tag} {body : List Char}
    (hbody : tag.body = body ++ ['/']) (h : Tag.showsId id { tag with body := body } = true) :
    tag.showsId id = true := by
  rw [showsId_iff] at h ⊢
  let front := '<' :: (if tag.closing then ['/'] else []) ++ tag.name ++ body
  have hopen : Tag.text { tag with body := body } = front ++ ['>'] := by simp [text, front]
  have hneedle : idNeedle id = ' ' :: 'i' :: 'd' :: '=' :: '"' :: id ++ ['"'] := rfl
  rw [hopen, hneedle] at h
  have hfront := infix_of_infix_append_singleton h (by decide)
  have htext : tag.text = front ++ (['/'] ++ ['>']) := by simp [text, hbody, front]
  rw [htext, hneedle]
  exact hfront.trans (List.prefix_append front _).isInfix

namespace Finds

variable {id other markup : List Char} {tokens : List Token} {element : Located}

theorem tokens_eq (h : Finds id tokens element) :
    tokens = element.before ++ (element.tokens ++ element.after) := by
  cases h with
  | alone => rfl
  | around => simp [Located.tokens]

theorem before_hits (h : Finds id tokens element) :
    ∀ token ∈ element.before, token.hits id = false := by
  cases h with
  | alone hbefore => exact hbefore
  | around hbefore => exact hbefore

/-- An element is found wherever its tokens stand, unless the id is shown before them. -/
theorem move (h : Finds id tokens element) {before : List Token}
    (hbefore : ∀ token ∈ before, token.hits id = false) (after : List Token) :
    Finds id (before ++ (element.tokens ++ after))
      { element with before := before, after := after } := by
  cases h with
  | alone _ hshows hkind => exact .alone hbefore hshows hkind
  | @around _ inner _ tag close _ hshows hkind hname hclose hinner =>
    have htokens : before ++ ((Located.mk [] tag inner (some close) []).tokens ++ after) =
        before ++ .tag tag :: (inner ++ .tag close :: after) := by
      simp [Located.tokens]
    show Finds id (before ++ ((Located.mk [] tag inner (some close) []).tokens ++ after)) _
    rw [htokens]
    exact .around hbefore hshows hkind hname hclose hinner

/-- The tags and texts of an element are balanced in a name if those inside it are. -/
theorem balanced_tokens (h : Finds id tokens element) {name : List Char}
    (hinner : Balanced name element.inner) : Balanced name element.tokens := by
  cases h with
  | alone _ _ hkind => exact balanced_selfClosing name hkind
  | around _ _ hkind hname hclose => exact hinner.between hkind hclose hname

theorem filled_tokens (h : Finds id (Token.scan markup) element) (hprinted : element.IsPrinted)
    {text : List Char} (htext : Reads text tokens []) :
    Token.scan (element.withInner text) =
      element.before ++ ((element.filled tokens).tokens ++ element.after) := by
  rw [h.scan_withInner hprinted htext]
  simp [Located.tokens, Located.filled]

theorem balanced_filled (h : Finds id (Token.scan markup) element) (hprinted : element.IsPrinted)
    {name : List Char} (htokens : Balanced name tokens) :
    Balanced name (element.filled tokens).tokens := by
  obtain ⟨-, -, hopen, hclose, -, hopenKind, hcloseKind⟩ := h.tags hprinted
  exact htokens.between hopenKind hcloseKind (hclose.trans hopen.symm)

/-- Writing into an element shows no id that neither its first tag nor the new text shows. -/
theorem hits_filled (h : Finds id (Token.scan markup) element) (hprinted : element.IsPrinted)
    (htag : (Token.tag element.tag).hits other = false)
    (htokens : ∀ token ∈ tokens, token.hits other = false) :
    ∀ token ∈ (element.filled tokens).tokens, token.hits other = false := by
  obtain ⟨-, -, -, -, -, hopenKind, hcloseKind⟩ := h.tags hprinted
  have hshows : element.openTag.showsId other = false := by
    generalize Token.scan markup = scanned at h
    cases h with
    | alone _ _ hkind =>
      obtain ⟨-, hbody⟩ := Tag.body_of_selfClosing hkind
      rw [Bool.eq_false_iff]
      intro hopen
      have hshown := Tag.showsId_of_dropSlash hbody hopen
      simp [Token.hits, hkind, hshown] at htag
    | @around _ _ _ tag _ _ _ hkind =>
      show tag.showsId other = false
      simpa [Token.hits, hkind] using htag
  intro token htoken
  rcases List.mem_cons.mp htoken with rfl | htoken
  · simp [Located.filled, Token.hits, hshows]
  · rcases List.mem_append.mp htoken with hinside | hlast
    · exact htokens token hinside
    · obtain rfl : token = .tag element.closeTag := by simpa [Located.filled] using hlast
      simp [Token.hits, hcloseKind]

end Finds

/-! ### Two elements of one text -/

section Two

variable {x y markup a b : List Char} {tokens tokens' : List Token} {first second : Located}

/-- What stands between an element and a later one. -/
theorem exists_between (hx : Finds x (Token.scan markup) first)
    (hy : Finds y (Token.scan markup) second) (hstop : first.stop ≤ second.start) :
    ∃ between, second.before = first.before ++ (first.tokens ++ between) ∧
      first.after = between ++ (second.tokens ++ second.after) := by
  have hfirst : first.before ++ first.tokens <+: Token.scan markup := by
    rw [hx.tokens_eq, ← List.append_assoc]
    exact List.prefix_append _ _
  have hsecond : second.before <+: Token.scan markup := by
    rw [hy.tokens_eq]
    exact List.prefix_append _ _
  rw [first.stop_eq] at hstop
  obtain ⟨between, hbetween⟩ := prefix_of_length_allChars_le hfirst hsecond hstop
  have hbefore : second.before = first.before ++ (first.tokens ++ between) := by
    rw [← hbetween, List.append_assoc]
  refine ⟨between, hbefore, ?_⟩
  have hsame := hx.tokens_eq.symm.trans hy.tokens_eq
  rw [hbefore] at hsame
  simpa only [List.append_assoc, List.append_cancel_left_eq] using hsame

/-- Each of two elements that do not overlap is found after the other was written into, and both
orders lead to the same text. -/
theorem Finds.withInner_comm (hx : Finds x (Token.scan markup) first)
    (hy : Finds y (Token.scan markup) second) (hprinted : first.IsPrinted)
    (hprinted' : second.IsPrinted) (hstop : first.stop ≤ second.start)
    (ha : Reads a tokens []) (hb : Reads b tokens' [])
    (hhides : ∀ token ∈ tokens, token.hits y = false) :
    ∃ first' second', Finds y (Token.scan (first.withInner a)) second' ∧
      Finds x (Token.scan (second.withInner b)) first' ∧
      second'.withInner b = first'.withInner a := by
  obtain ⟨between, hbefore, hafter⟩ := exists_between hx hy hstop
  have hnone := hy.before_hits
  rw [hbefore] at hnone
  have hfilled : ∀ token ∈ first.before ++ ((first.filled tokens).tokens ++ between),
      token.hits y = false := by
    intro token htoken
    rcases List.mem_append.mp htoken with hin | hin
    · exact hnone token (List.mem_append_left _ hin)
    · rcases List.mem_append.mp hin with hin | hin
      · refine hx.hits_filled hprinted (hnone _ ?_) hhides token hin
        simp [Located.tokens]
      · exact hnone token (by simp [hin])
  have hsecond := hy.move hfilled second.after
  have hfirst := hx.move hx.before_hits
    (between ++ ((second.filled tokens').tokens ++ second.after))
  refine ⟨{ first with after := between ++ ((second.filled tokens').tokens ++ second.after) },
    { second with before := first.before ++ ((first.filled tokens).tokens ++ between) }, ?_, ?_, ?_⟩
  · rw [hx.filled_tokens hprinted ha, hafter]
    simpa only [List.append_assoc] using hsecond
  · rw [hy.filled_tokens hprinted' hb, hbefore]
    simpa only [List.append_assoc] using hfirst
  · have hchars : Token.allChars tokens = a := by rw [ha.text_eq, List.append_nil]
    have hchars' : Token.allChars tokens' = b := by rw [hb.text_eq, List.append_nil]
    rw [Located.withInner_eq, Located.withInner_eq]
    simp only [Token.allChars_append, Located.allChars_tokens, Located.outerText_filled, hchars,
      hchars', List.append_assoc]
    rfl

/-- What stands before and after an element that lies in another. -/
theorem exists_within (hx : Finds x (Token.scan markup) first)
    (hy : Finds y (Token.scan markup) second) (hin : second.LiesIn first) :
    ∃ front back, second.before = first.before ++ .tag first.tag :: front ∧
      first.inner = front ++ (second.tokens ++ back) ∧
      second.after = back ++ (first.close?.toList.map .tag ++ first.after) := by
  obtain ⟨hstart, hstop⟩ := hin
  have htokens : Token.scan markup = (first.before ++ .tag first.tag :: first.inner) ++
      (first.close?.toList.map .tag ++ first.after) := by
    rw [hx.tokens_eq]
    simp [Located.tokens]
  have hopen : first.before ++ [.tag first.tag] <+: Token.scan markup := by
    rw [htokens]
    exact ⟨first.inner ++ (first.close?.toList.map .tag ++ first.after), by simp⟩
  have hinner : first.before ++ .tag first.tag :: first.inner <+: Token.scan markup := by
    rw [htokens]
    exact List.prefix_append _ _
  have hsecond : second.before <+: Token.scan markup := by
    rw [hy.tokens_eq]
    exact List.prefix_append _ _
  have hsecond' : second.before ++ second.tokens <+: Token.scan markup := by
    rw [hy.tokens_eq, ← List.append_assoc]
    exact List.prefix_append _ _
  rw [first.innerStart_eq] at hstart
  rw [second.stop_eq, first.innerStop_eq] at hstop
  obtain ⟨front, hfront⟩ := prefix_of_length_allChars_le hopen hsecond hstart
  obtain ⟨back, hback⟩ := prefix_of_length_allChars_le hsecond' hinner hstop
  have hbefore : second.before = first.before ++ .tag first.tag :: front := by
    rw [← hfront]
    simp
  have hwithin : first.inner = front ++ (second.tokens ++ back) := by
    rw [hbefore] at hback
    simpa using hback.symm
  refine ⟨front, back, hbefore, hwithin, ?_⟩
  have hsame := hy.tokens_eq.symm.trans htokens
  rw [hbefore, hwithin] at hsame
  simpa using hsame

/-- An element is found after one that lies in it was written into, and whatever is written into
it then leads to the same text as without the first write. -/
theorem Finds.withInner_absorb (hx : Finds x (Token.scan markup) first)
    (hy : Finds y (Token.scan markup) second) (hprinted : second.IsPrinted)
    (hin : second.LiesIn first) (hb : Reads b tokens [])
    (hbalanced : Balanced first.tag.name tokens)
    (hpresent : Balanced first.tag.name second.inner) :
    ∃ first', Finds x (Token.scan (second.withInner b)) first' ∧
      ∀ text, first'.withInner text = first.withInner text := by
  obtain ⟨front, back, hbefore, hwithin, hafter⟩ := exists_within hx hy hin
  have hold : Balanced first.tag.name second.tokens := hy.balanced_tokens hpresent
  have hnew : Balanced first.tag.name (second.filled tokens).tokens :=
    hy.balanced_filled hprinted hbalanced
  have hscan := hy.filled_tokens hprinted hb
  rw [hbefore, hafter] at hscan
  rw [hscan]
  generalize Token.scan markup = scanned at hx
  cases hx with
  | alone =>
    have hempty := congrArg List.length hwithin
    simp [Located.tokens] at hempty
  | @around before inner after tag close hnone hshows hkind hname hclose hinner =>
    dsimp only at hwithin hold hnew ⊢
    rw [hwithin] at hinner
    refine ⟨⟨before, tag, front ++ ((second.filled tokens).tokens ++ back), some close, after⟩,
      ?_, fun text ↦ rfl⟩
    have hfound : Finds x (before ++ .tag tag ::
        ((front ++ ((second.filled tokens).tokens ++ back)) ++ .tag close :: after)) _ :=
      .around hnone hshows hkind hname hclose (hinner.exchange hold hnew)
    simpa using hfound

end Two

/-! ### Two elements of a surface -/

/-- A text that can stand inside any element: it is read to its end, its tags nest, whatever their
name, and none of them starts an element with one of the ids. -/
structure Fragment (ids : List String) (text : String) (tokens : List Token) : Prop where
  reads : Reads text.toList tokens []
  balanced : ∀ name, Balanced name tokens
  hides : ∀ id ∈ ids, ∀ token ∈ tokens, token.hits id.toList = false

/-- Writes into two elements that do not overlap lead to one surface in either order, and a write
into an element leaves no trace of a write into an element inside it, provided that what stands in
the inner element is balanced in the name of the outer one. -/
theorem setInner_comm_and_absorb (surface : Surface) {x y : String} {first second : Located}
    (hx : surface.find? x = some first) (hy : surface.find? y = some second)
    (hprinted : first.IsPrinted) (hprinted' : second.IsPrinted) {a b : String}
    {tokens tokens' : List Token} (ha : Fragment [x, y] a tokens)
    (hb : Fragment [x, y] b tokens') :
    (first.Apart second → ∃ viaFirst viaSecond last,
      surface.setInner x a = .ok viaFirst ∧ viaFirst.setInner y b = .ok last ∧
        surface.setInner y b = .ok viaSecond ∧ viaSecond.setInner x a = .ok last) ∧
      (second.LiesIn first → Balanced first.tag.name second.inner → ∃ viaSecond last,
        surface.setInner y b = .ok viaSecond ∧ viaSecond.setInner x a = .ok last ∧
          surface.setInner x a = .ok last) := by
  have hfinds := (surface.find?_eq_some_iff x first).mp hx
  have hfinds' := (surface.find?_eq_some_iff y second).mp hy
  have hfound {id : String} {text : List Char} {element : Located}
      (h : Finds id.toList (Token.scan text) element) :
      Surface.find? { surface with markup := String.ofList text } id = some element := by
    rw [Surface.find?_eq_some_iff, String.toList_ofList]
    exact h
  constructor
  · intro hapart
    rcases hapart with hstop | hstop
    · obtain ⟨first', second', hsecond, hfirst, hsame⟩ := hfinds.withInner_comm hfinds' hprinted
        hprinted' hstop ha.reads hb.reads (ha.hides y (by simp))
      refine ⟨_, _, _, Surface.setInner_of_find? hx a,
        Surface.setInner_of_find? (hfound hsecond) b, Surface.setInner_of_find? hy b, ?_⟩
      rw [Surface.setInner_of_find? (hfound hfirst) a, hsame]
    · obtain ⟨second', first', hfirst, hsecond, hsame⟩ := hfinds'.withInner_comm hfinds hprinted'
        hprinted hstop hb.reads ha.reads (hb.hides x (by simp))
      refine ⟨_, _, _, Surface.setInner_of_find? hx a,
        Surface.setInner_of_find? (hfound hsecond) b, Surface.setInner_of_find? hy b, ?_⟩
      rw [Surface.setInner_of_find? (hfound hfirst) a, hsame]
  · intro hin hpresent
    obtain ⟨first', hfirst, hsame⟩ := hfinds.withInner_absorb hfinds' hprinted' hin hb.reads
      (hb.balanced first.tag.name) hpresent
    refine ⟨_, _, Surface.setInner_of_find? hy b, Surface.setInner_of_find? (hfound hfirst) a, ?_⟩
    rw [Surface.setInner_of_find? hx a, hsame]

/-- The empty element `z` stands after `x`, and the empty element `y` inside it. -/
theorem setInner_comm_and_absorb_paragraph :
    ∃ surface : Surface, surface.markup = "<p id=\"x\">1<b id=\"y\"/></p><i id=\"z\"/>" ∧
      (∃ viaFirst viaSecond last,
        surface.setInner "x" "2<u>3</u>" = .ok viaFirst ∧ viaFirst.setInner "z" "4" = .ok last ∧
          surface.setInner "z" "4" = .ok viaSecond ∧
            viaSecond.setInner "x" "2<u>3</u>" = .ok last) ∧
        ∃ viaSecond last,
          surface.setInner "y" "4" = .ok viaSecond ∧
            viaSecond.setInner "x" "2<u>3</u>" = .ok last ∧
              surface.setInner "x" "2<u>3</u>" = .ok last := by
  let surface : Surface := { markup := "<p id=\"x\">1<b id=\"y\"/></p><i id=\"z\"/>" }
  let paragraph : Tag := ⟨false, ['p'], " id=\"x\"".toList⟩
  let bold : Tag := ⟨false, ['b'], " id=\"y\"/".toList⟩
  let italic : Tag := ⟨false, ['i'], " id=\"z\"/".toList⟩
  let close : Tag := ⟨true, ['p'], []⟩
  let first : Located :=
    ⟨[], paragraph, [.text '1', .tag bold], some close, [.tag italic]⟩
  let inside : Located := ⟨[.tag paragraph, .text '1'], bold, [], none, [.tag close, .tag italic]⟩
  let second : Located :=
    ⟨[.tag paragraph, .text '1', .tag bold, .tag close], italic, [], none, []⟩
  have hx : surface.find? "x" = some first := by decide +kernel
  have hy : surface.find? "y" = some inside := by decide +kernel
  have hz : surface.find? "z" = some second := by decide +kernel
  have hprinted : first.IsPrinted := fun halone ↦ by cases halone
  have hprintedInside : inside.IsPrinted := fun _ ↦ by decide +kernel
  have hprintedSecond : second.IsPrinted := fun _ ↦ by decide +kernel
  let tokens : List Token :=
    [.text '2'] ++ (.tag ⟨false, ['u'], []⟩ :: [.text '3'] ++ [.tag ⟨true, ['u'], []⟩])
  have hreads : Reads "2<u>3</u>".toList tokens [] := by
    have htext : "2<u>3</u>".toList = ['2', '<', 'u', '>', '3', '<', '/', 'u', '>'] := by
      decide +kernel
    rw [htext]
    exact .char (by decide) (.tag rfl (.char (by decide) (.tag rfl (.done []))))
  have hbalanced (name : List Char) : Balanced name tokens :=
    (balanced_of_forall (by simp [Token.opens, Token.closes])).append
      ((balanced_of_forall (by simp [Token.opens, Token.closes])).between rfl rfl rfl)
  have hdigit : Reads "4".toList [.text '4'] [] := by
    have htext : "4".toList = ['4'] := by decide +kernel
    rw [htext]
    exact .char (by decide) (.done [])
  have ha (other : String) (hother : ∀ token ∈ tokens, token.hits other.toList = false) :
      Fragment ["x", other] "2<u>3</u>" tokens := by
    refine ⟨hreads, hbalanced, ?_⟩
    exact List.forall_mem_cons.mpr ⟨by decide +kernel, List.forall_mem_singleton.mpr hother⟩
  have hb (other : String) : Fragment ["x", other] "4" [.text '4'] :=
    ⟨hdigit, fun name ↦ balanced_of_forall (by simp [Token.opens, Token.closes]),
      fun id _ ↦ by simp [Token.hits]⟩
  refine ⟨surface, rfl, ?_, ?_⟩
  · exact (setInner_comm_and_absorb surface hx hz hprinted hprintedSecond
      (ha "z" (by decide +kernel)) (hb "z")).1 (.inl (by decide +kernel))
  · exact (setInner_comm_and_absorb surface hx hy hprinted hprintedInside
      (ha "y" (by decide +kernel)) (hb "y")).2 ⟨by decide +kernel, by decide +kernel⟩
        (balanced_of_forall (by simp [inside]))

end LiveMarkup
