import LiveMarkup.Markup.Located

/-!
Balanced tags. Tokens are balanced in a name if the tags of that name nest: no front part has
more closing than opening ones, and in all there are as many of each. A tag that closes itself
does not count. The search for the tag that closes an element finds the first one that has
balanced tokens in front of it (`splitClose?_eq_some_iff`).
-/

set_option autoImplicit false
set_option relaxedAutoImplicit false

namespace LiveMarkup

/-- Whether a token opens an element with a name. -/
def Token.opens (name : List Char) : Token → Bool
  | .text _ => false
  | .tag t => t.name == name && t.kind == .opening

/-- Whether a token closes an element with a name. -/
def Token.closes (name : List Char) : Token → Bool
  | .text _ => false
  | .tag t => t.name == name && t.kind == .closing

/-- How many tokens open an element with a name. -/
def openings (name : List Char) (tokens : List Token) : Nat := tokens.countP (Token.opens name)

/-- How many tokens close an element with a name. -/
def closings (name : List Char) (tokens : List Token) : Nat := tokens.countP (Token.closes name)

/-- The tags of a name nest: none is closed before it is opened, and each is closed. -/
structure Balanced (name : List Char) (tokens : List Token) : Prop where
  closings_le : ∀ front, front <+: tokens → closings name front ≤ openings name front
  closings_eq : closings name tokens = openings name tokens

@[simp] theorem openings_nil (name : List Char) : openings name [] = 0 := rfl

@[simp] theorem closings_nil (name : List Char) : closings name [] = 0 := rfl

theorem openings_append (name : List Char) (front tokens : List Token) :
    openings name (front ++ tokens) = openings name front + openings name tokens :=
  List.countP_append

theorem closings_append (name : List Char) (front tokens : List Token) :
    closings name (front ++ tokens) = closings name front + closings name tokens :=
  List.countP_append

theorem openings_cons (name : List Char) (token : Token) (tokens : List Token) :
    openings name (token :: tokens) = openings name [token] + openings name tokens :=
  openings_append name [token] tokens

theorem closings_cons (name : List Char) (token : Token) (tokens : List Token) :
    closings name (token :: tokens) = closings name [token] + closings name tokens :=
  closings_append name [token] tokens

theorem prefix_append_cases {front first second : List Token} (h : front <+: first ++ second) :
    front <+: first ∨ ∃ tail, front = first ++ tail ∧ tail <+: second := by
  obtain ⟨rest, hrest⟩ := h
  rcases List.append_eq_append_iff.mp hrest with ⟨tail, rfl, _⟩ | ⟨tail, rfl, htail⟩
  · exact Or.inl (List.prefix_append front tail)
  · exact Or.inr ⟨tail, rfl, ⟨rest, htail.symm⟩⟩

/-- Balanced parts make a balanced whole. -/
theorem Balanced.append {name : List Char} {first second : List Token} (h : Balanced name first)
    (h' : Balanced name second) : Balanced name (first ++ second) := by
  refine ⟨fun front hfront ↦ ?_, ?_⟩
  · rcases prefix_append_cases hfront with hpre | ⟨tail, rfl, htail⟩
    · exact h.closings_le front hpre
    · have := h'.closings_le tail htail
      rw [closings_append, openings_append, h.closings_eq]
      omega
  · rw [closings_append, openings_append, h.closings_eq, h'.closings_eq]

/-- Tokens that neither open nor close an element of the name are balanced. -/
theorem balanced_of_forall {name : List Char} {tokens : List Token}
    (h : ∀ token ∈ tokens, token.opens name = false ∧ token.closes name = false) :
    Balanced name tokens := by
  have hzero (front : List Token) (hfront : front <+: tokens) :
      closings name front = 0 ∧ openings name front = 0 := by
    refine ⟨List.countP_eq_zero.mpr fun token htoken ↦ ?_,
      List.countP_eq_zero.mpr fun token htoken ↦ ?_⟩
    · simp [(h token (hfront.subset htoken)).2]
    · simp [(h token (hfront.subset htoken)).1]
  refine ⟨fun front hfront ↦ ?_, ?_⟩
  · exact Nat.le_of_eq ((hzero front hfront).1.trans (hzero front hfront).2.symm)
  · rw [(hzero tokens List.prefix_rfl).1, (hzero tokens List.prefix_rfl).2]

/-- An element with balanced content is balanced. -/
theorem Balanced.enclose {name : List Char} {first last : Token} {tokens : List Token}
    (h : Balanced name tokens) (hfirst : closings name [first] = 0)
    (hlast : openings name [last] = 0)
    (heq : openings name [first] = closings name [last]) :
    Balanced name (first :: tokens ++ [last]) := by
  have hle (front : List Token) (hfront : front <+: tokens) :=
    h.closings_le front hfront
  refine ⟨fun front hfront ↦ ?_, ?_⟩
  · rcases prefix_append_cases hfront with hpre | ⟨tail, rfl, htail⟩
    · rcases List.prefix_cons_iff.mp hpre with rfl | ⟨front', rfl, hfront'⟩
      · simp
      · rw [closings_cons, openings_cons, hfirst]
        have := hle front' hfront'
        omega
    · have htail' : closings name tail ≤ closings name [last] := htail.sublist.countP_le
      rw [closings_append, openings_append, closings_cons, openings_cons, h.closings_eq]
      omega
  · rw [closings_append, openings_append, closings_cons, openings_cons, h.closings_eq]
    omega

/-! ### The search for a closing tag -/

/-- What the search for a closing tag finds, with tokens put in front of it. -/
def passing (tokens : List Token) (found : List Token × Tag × List Token) :
    List Token × Tag × List Token :=
  (tokens ++ found.1, found.2)

/-- One step of the search: it ends at a closing tag that it has no opening one for, and else
goes on with one more or one less element open. -/
theorem splitClose?_cons (name : List Char) (token : Token) (depth : Nat) (rest : List Token) :
    (depth = 0 ∧ ∃ close, token = .tag close ∧ close.name = name ∧ close.kind = .closing ∧
        splitClose? name depth (token :: rest) = some ([], close, rest)) ∨
      ∃ depth', depth' + closings name [token] = depth + openings name [token] ∧
        splitClose? name depth (token :: rest) =
          (splitClose? name depth' rest).map (passing [token]) := by
  cases token with
  | text c => exact Or.inr ⟨depth, rfl, rfl⟩
  | tag t =>
    by_cases hname : t.name = name
    · cases hkind : t.kind with
      | opening =>
        refine Or.inr ⟨depth + 1, ?_, ?_⟩
        · simp [closings, openings, Token.opens, Token.closes, hname, hkind]
        · simp only [splitClose?, hname, hkind, if_true]
          rfl
      | selfClosing =>
        refine Or.inr ⟨depth, ?_, ?_⟩
        · simp [closings, openings, Token.opens, Token.closes, hkind]
        · simp only [splitClose?, hname, hkind, if_true]
          rfl
      | closing =>
        cases depth with
        | zero =>
          refine Or.inl ⟨rfl, t, rfl, hname, hkind, ?_⟩
          simp only [splitClose?, hname, hkind, if_true]
        | succ depth =>
          refine Or.inr ⟨depth, ?_, ?_⟩
          · simp [closings, openings, Token.opens, Token.closes, hname, hkind]
          · simp only [splitClose?, hname, hkind, if_true]
            rfl
    · refine Or.inr ⟨depth, ?_, ?_⟩
      · simp [closings, openings, Token.opens, Token.closes, hname]
      · simp only [splitClose?, hname, if_false]
        rfl

theorem splitClose?_found {close : Tag} (h : close.kind = .closing) (rest : List Token) :
    splitClose? close.name 0 (.tag close :: rest) = some ([], close, rest) := by
  simp only [splitClose?, h, if_true]

/-- Tokens that close no more than `depth` elements too many are passed over. -/
theorem splitClose?_append {name : List Char} {tokens : List Token} {depth : Nat}
    (h : ∀ front, front <+: tokens → closings name front ≤ openings name front + depth)
    (rest : List Token) :
    splitClose? name depth (tokens ++ rest) =
      (splitClose? name (openings name tokens + depth - closings name tokens) rest).map
        (passing tokens) := by
  induction tokens generalizing depth with
  | nil =>
    rw [List.nil_append, openings_nil, closings_nil, Nat.zero_add, Nat.sub_zero]
    cases splitClose? name depth rest <;> rfl
  | cons token tokens ih =>
    rcases splitClose?_cons name token depth (tokens ++ rest) with
      ⟨rfl, close, rfl, hname, hkind, -⟩ | ⟨depth', hdepth, hstep⟩
    · have hfirst := h [.tag close] (List.prefix_append [.tag close] tokens)
      simp [closings, openings, Token.opens, Token.closes, hname, hkind] at hfirst
    · have htail (front : List Token) (hfront : front <+: tokens) :
          closings name front ≤ openings name front + depth' := by
        have := h (token :: front) (List.cons_prefix_cons.mpr ⟨rfl, hfront⟩)
        rw [closings_cons, openings_cons] at this
        omega
      have hleft : openings name (token :: tokens) + depth - closings name (token :: tokens) =
          openings name tokens + depth' - closings name tokens := by
        rw [closings_cons, openings_cons]
        omega
      rw [List.cons_append, hstep, ih htail, hleft, Option.map_map]
      rfl

/-- What the search passes over closes `depth` elements too many in the end, and never more on
the way. -/
theorem splitClose?_eq_some {name : List Char} {depth : Nat} {tokens inner after : List Token}
    {close : Tag} (h : splitClose? name depth tokens = some (inner, close, after)) :
    tokens = inner ++ .tag close :: after ∧ close.name = name ∧ close.kind = .closing ∧
      (∀ front, front <+: inner → closings name front ≤ openings name front + depth) ∧
      closings name inner = openings name inner + depth := by
  induction tokens generalizing depth inner with
  | nil => simp [splitClose?] at h
  | cons token tokens ih =>
    rcases splitClose?_cons name token depth tokens with
      ⟨rfl, close', rfl, hname, hkind, hstep⟩ | ⟨depth', hdepth, hstep⟩
    · rw [hstep] at h
      obtain ⟨rfl, rfl, rfl⟩ : [] = inner ∧ close' = close ∧ tokens = after := by simpa using h
      refine ⟨rfl, hname, hkind, fun front hfront ↦ ?_, rfl⟩
      rw [List.prefix_nil.mp hfront]
      exact Nat.le_refl 0
    · rw [hstep] at h
      obtain ⟨⟨tail, close', after'⟩, hfound, heq⟩ := Option.map_eq_some_iff.mp h
      simp only [passing, Prod.mk.injEq] at heq
      obtain ⟨rfl, rfl, rfl⟩ := heq
      obtain ⟨rfl, hname, hkind, hle, heq⟩ := ih hfound
      refine ⟨rfl, hname, hkind, fun front hfront ↦ ?_, ?_⟩
      · rcases List.prefix_cons_iff.mp hfront with rfl | ⟨front', rfl, hfront'⟩
        · simp
        · have := hle front' hfront'
          rw [closings_cons, openings_cons]
          omega
      · change closings name (token :: tail) = openings name (token :: tail) + depth
        rw [closings_cons, openings_cons]
        omega

/-- The tag that closes an element is the one after balanced tokens. -/
theorem splitClose?_eq_some_iff {name : List Char} {tokens inner after : List Token} {close : Tag} :
    splitClose? name 0 tokens = some (inner, close, after) ↔
      tokens = inner ++ .tag close :: after ∧ close.name = name ∧ close.kind = .closing ∧
        Balanced name inner := by
  constructor
  · intro h
    obtain ⟨htokens, hname, hkind, hle, heq⟩ := splitClose?_eq_some h
    exact ⟨htokens, hname, hkind, ⟨hle, heq⟩⟩
  · rintro ⟨rfl, rfl, hkind, hbalanced⟩
    rw [splitClose?_append hbalanced.closings_le, hbalanced.closings_eq, Nat.add_zero, Nat.sub_self,
      splitClose?_found hkind, Option.map_some, passing, List.append_nil]

end LiveMarkup
