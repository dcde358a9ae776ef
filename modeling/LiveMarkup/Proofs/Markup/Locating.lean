import LiveMarkup.Proofs.Markup.Balance
import LiveMarkup.Proofs.Markup.Reading

/-!
Finding elements. `Finds id tokens element` says in full which element of a token list has an
id: it starts at the first tag that shows the id without closing an element, and it ends there,
if that tag closes itself, or at the tag that follows balanced content. The search finds this
element and no other (`locate?_eq_some_iff`).
-/

set_option autoImplicit false
set_option relaxedAutoImplicit false

namespace LiveMarkup

/-! ### Text that stands inside other text -/

theorem occursIn_iff (needle text : List Char) :
    occursIn needle text = true ↔ needle <:+: text := by
  induction text with
  | nil => simp [occursIn]
  | cons c rest ih =>
    rw [occursIn, Bool.or_eq_true, ih, List.isPrefixOf_iff_prefix, List.infix_cons_iff]

/-- What a tag with an id contains. -/
def idNeedle (id : List Char) : List Char := ' ' :: (['i', 'd', '='] ++ '"' :: (id ++ ['"']))

theorem showsId_iff (id : List Char) (tag : Tag) :
    tag.showsId id = true ↔ idNeedle id <:+: tag.text := by
  have hstart : " id=\"".toList = [' ', 'i', 'd', '=', '"'] := rfl
  have hneedle : " id=\"".toList ++ id ++ ['"'] = idNeedle id := by rw [hstart]; rfl
  rw [Tag.showsId, occursIn_iff, hneedle]

/-- A text that ends in another character cannot reach the last character of a text. -/
theorem infix_of_infix_append_singleton {front text : List Char} {last c : Char}
    (h : front ++ [last] <:+: text ++ [c]) (hne : last ≠ c) : front ++ [last] <:+: text := by
  rcases List.infix_concat_iff.mp h with hsuffix | hwithin
  · rcases List.suffix_concat_iff.mp hsuffix with hnil | ⟨tail, heq, _⟩
    · simp at hnil
    · have hlast := congrArg List.getLast? heq
      simp [hne] at hlast
  · exact hwithin

/-! ### Elements -/

/-- Whether an element with an id can start at a token. -/
def Token.hits (id : List Char) : Token → Bool
  | .text _ => false
  | .tag t => t.kind != .closing && t.showsId id

/-- The element of a token list that has an id, and the tokens around it. -/
inductive Finds (id : List Char) : List Token → Located → Prop where
  /-- The first tag that shows the id closes itself. -/
  | alone {before after : List Token} {tag : Tag}
    (hbefore : ∀ token ∈ before, token.hits id = false)
      (hshows : tag.showsId id = true) (hkind : tag.kind = .selfClosing) :
      Finds id (before ++ .tag tag :: after) ⟨before, tag, [], none, after⟩
  /-- The first tag that shows the id opens an element, which a later tag closes. -/
  | around {before inner after : List Token} {tag close : Tag}
      (hbefore : ∀ token ∈ before, token.hits id = false) (hshows : tag.showsId id = true)
      (hkind : tag.kind = .opening) (hname : close.name = tag.name) (hclose : close.kind = .closing)
      (hinner : Balanced tag.name inner) :
      Finds id (before ++ .tag tag :: (inner ++ .tag close :: after))
        ⟨before, tag, inner, some close, after⟩

/-- An element with tokens put in front of what stands before it. -/
def Located.behind (tokens : List Token) (element : Located) : Located :=
  { element with before := tokens ++ element.before }

theorem locate?_skip {id : List Char} {token : Token} (h : token.hits id = false)
    (rest : List Token) :
    locate? id (token :: rest) = (locate? id rest).map (Located.behind [token]) := by
  cases token with
  | text c => rfl
  | tag t =>
    have hskip : t.kind = .closing ∨ (!t.showsId id) = true := by
      by_cases hkind : t.kind = .closing
      · exact Or.inl hkind
      · simpa [Token.hits, hkind] using h
    simp only [locate?, hskip, if_true]
    rfl

theorem locate?_alone {id : List Char} {tag : Tag} (hshows : tag.showsId id = true)
    (hkind : tag.kind = .selfClosing) (rest : List Token) :
    locate? id (.tag tag :: rest) = some ⟨[], tag, [], none, rest⟩ := by
  simp [locate?, hshows, hkind]

theorem locate?_opening {id : List Char} {tag : Tag} (hshows : tag.showsId id = true)
    (hkind : tag.kind = .opening) (rest : List Token) :
    locate? id (.tag tag :: rest) = (splitClose? tag.name 0 rest).map
      fun (inner, close, after) ↦ ⟨[], tag, inner, some close, after⟩ := by
  simp [locate?, hshows, hkind]

theorem locate?_append {id : List Char} {before : List Token}
    (h : ∀ token ∈ before, token.hits id = false) (rest : List Token) :
    locate? id (before ++ rest) = (locate? id rest).map (Located.behind before) := by
  induction before with
  | nil =>
    change locate? id rest = (locate? id rest).map _
    cases locate? id rest <;> rfl
  | cons token before ih =>
    rw [List.cons_append, locate?_skip (h token (by simp)),
      ih fun other hother ↦ h other (List.mem_cons_of_mem token hother), Option.map_map]
    rfl

/-- No element has the id if no token can start one. -/
theorem locate?_eq_none_of_forall {id : List Char} {tokens : List Token}
    (h : ∀ token ∈ tokens, token.hits id = false) : locate? id tokens = none := by
  rw [← List.append_nil tokens, locate?_append h]
  rfl

theorem Finds.locate?_eq {id : List Char} {tokens : List Token} {element : Located}
    (h : Finds id tokens element) : locate? id tokens = some element := by
  cases h with
  | alone hbefore hshows hkind =>
    rw [locate?_append hbefore, locate?_alone hshows hkind, Option.map_some, Located.behind,
      List.append_nil]
  | around hbefore hshows hkind hname hclose hinner =>
    rw [locate?_append hbefore, locate?_opening hshows hkind,
      splitClose?_eq_some_iff.mpr ⟨rfl, hname, hclose, hinner⟩, Option.map_some, Option.map_some,
      Located.behind, List.append_nil]

theorem Finds.behind {id : List Char} {tokens rest : List Token} {element : Located}
    (h : ∀ token ∈ tokens, token.hits id = false) (hfinds : Finds id rest element) :
    Finds id (tokens ++ rest) (element.behind tokens) := by
  cases hfinds with
  | @alone before after tag hbefore hshows hkind =>
    rw [← List.append_assoc]
    exact .alone (fun token htoken ↦ (List.mem_append.mp htoken).elim (h token) (hbefore token))
      hshows hkind
  | @around before inner after tag close hbefore hshows hkind hname hclose hinner =>
    rw [← List.append_assoc]
    exact .around (fun token htoken ↦ (List.mem_append.mp htoken).elim (h token) (hbefore token))
      hshows hkind hname hclose hinner

/-- The search finds the element with an id and no other. -/
theorem locate?_eq_some_iff {id : List Char} {tokens : List Token} {element : Located} :
    locate? id tokens = some element ↔ Finds id tokens element := by
  refine ⟨fun h ↦ ?_, Finds.locate?_eq⟩
  induction tokens generalizing element with
  | nil => simp [locate?] at h
  | cons token rest ih =>
    cases hhits : token.hits id with
    | false =>
      rw [locate?_skip hhits] at h
      obtain ⟨later, hlater, rfl⟩ := Option.map_eq_some_iff.mp h
      have hfirst : ∀ other ∈ [token], other.hits id = false := by simpa using hhits
      exact (ih hlater).behind hfirst
    | true =>
      have hnone : ∀ other ∈ ([] : List Token), other.hits id = false := by simp
      cases token with
      | text c => simp [Token.hits] at hhits
      | tag tag =>
        obtain ⟨hkind, hshows⟩ : tag.kind ≠ .closing ∧ tag.showsId id = true := by
          simpa [Token.hits] using hhits
        cases hcase : tag.kind with
        | closing => exact absurd hcase hkind
        | selfClosing =>
          rw [locate?_alone hshows hcase] at h
          obtain rfl := Option.some.inj h
          exact .alone hnone hshows hcase
        | opening =>
          rw [locate?_opening hshows hcase] at h
          obtain ⟨⟨inner, close, after⟩, hsplit, rfl⟩ := Option.map_eq_some_iff.mp h
          obtain ⟨rfl, hname, hclose, hinner⟩ := splitClose?_eq_some_iff.mp hsplit
          exact .around hnone hshows hcase hname hclose hinner

end LiveMarkup
