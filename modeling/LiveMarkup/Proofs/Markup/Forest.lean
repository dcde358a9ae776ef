import LiveMarkup.Proofs.Markup.Printing

/-!
Printed trees read back. The markup of safe trees is scanned as exactly the tags and texts that
were printed (`Tree.Safe.reads`), and the tags of every name nest (`Tree.Safe.balanced`). An
element whose id no other element shows is found where it was printed, with the markup that it
was printed as (`Tree.exists_finds`); an id that no element shows is not found
(`Tree.locate?_eq_none`).
-/

set_option autoImplicit false
set_option relaxedAutoImplicit false

namespace LiveMarkup

namespace Tree

/-- A tree that prints as markup which reads back. -/
inductive Safe : Tree → Prop where
  | text {s : String} (htext : SafeText s.toList) : Safe (.text s)
  | element {node : NodeId} {tag : String} {attributes : List (String × String)}
      {content : List Tree} (htag : SafeTag tag.toList)
      (hattributes : ∀ pair ∈ attributes, SafeAttribute pair)
      (hcontent : ∀ tree ∈ content, Safe tree) : Safe (.element node tag attributes content)

mutual

/-- The tags and texts that a tree prints as. -/
def tokens : Tree → List Token
  | .text s => s.toList.map .text
  | .element _ tag attributes content =>
    .tag (startTag tag attributes content.isEmpty) ::
      (tokensAll content ++ if content.isEmpty then [] else [.tag (endTag tag)])

/-- The tags and texts that several trees print as. -/
def tokensAll : List Tree → List Token
  | [] => []
  | tree :: rest => tree.tokens ++ tokensAll rest

end

mutual

/-- The elements of a tree, itself and those below it, in the order of their first tags. -/
def elements : Tree → List Tree
  | .text _ => []
  | .element node tag attributes content =>
    .element node tag attributes content :: elementsAll content

/-- The elements of several trees. -/
def elementsAll : List Tree → List Tree
  | [] => []
  | tree :: rest => tree.elements ++ elementsAll rest

end

/-- The printed attributes of an element; none of text. -/
def attributes : Tree → List (String × String)
  | .text _ => []
  | .element _ _ attributes _ => attributes

/-- Whether an element prints an id. -/
def printsId (id : String) (tree : Tree) : Bool := tree.attributes.contains ("id", id)

/-- How many elements of several trees print an id. -/
def occurrences (id : String) (trees : List Tree) : Nat := (elementsAll trees).countP (printsId id)

theorem printsId_iff (id : String) (tree : Tree) :
    tree.printsId id = true ↔ ("id", id) ∈ tree.attributes :=
  List.contains_iff_mem

/-! ### Markup as tags and texts -/

/-- An element prints as its first tag, its content, and its last tag, if it has content. -/
theorem toList_markup_element (node : NodeId) (tag : String) (attributes : List (String × String))
    (content : List Tree) :
    (Tree.element node tag attributes content).markup.toList =
      (startTag tag attributes content.isEmpty).text ++ ((markupAll content).toList ++
        if content.isEmpty then [] else (endTag tag).text) := by
  cases content with
  | nil =>
    simp [markup, markupAll, startTag, Tag.text, String.toList_append, toList_attributeText]
  | cons first rest =>
    simp [markup, markupAll, startTag, endTag, Tag.text, String.toList_append, toList_attributeText]

theorem reads_markupAll {trees : List Tree}
    (h : ∀ tree ∈ trees, ∀ rest, Reads (tree.markup.toList ++ rest) tree.tokens rest)
    (rest : List Char) : Reads ((markupAll trees).toList ++ rest) (tokensAll trees) rest := by
  induction trees with
  | nil => exact .done rest
  | cons tree trees ih =>
    rw [markupAll, String.toList_append, List.append_assoc]
    exact (h tree (by simp) _).trans
      (ih fun other hother ↦ h other (List.mem_cons_of_mem tree hother))

/-- Safe trees are read as what they print as, whatever follows. -/
theorem Safe.reads {tree : Tree} (h : tree.Safe) (rest : List Char) :
    Reads (tree.markup.toList ++ rest) tree.tokens rest := by
  induction h generalizing rest with
  | @text s htext => exact htext.reads rest
  | @element node tag attributes content htag hattributes _ ih =>
    have hstart := htag.readable_startTag hattributes content.isEmpty
    rw [toList_markup_element, tokens, List.append_assoc, List.append_assoc]
    refine (Reads.single hstart _).trans ((reads_markupAll ih _).trans ?_)
    cases content.isEmpty with
    | true => exact .done rest
    | false => exact Reads.single htag.readable_endTag rest

theorem Safe.content {tree : Tree} (h : tree.Safe) : ∀ below ∈ tree.content, below.Safe := by
  cases h with
  | text => simp [Tree.content]
  | element _ _ hcontent => exact hcontent

/-- What is inside a safe tree is read to its end. -/
theorem Safe.reads_innerMarkup {tree : Tree} (h : tree.Safe) :
    Reads tree.innerMarkup.toList (tokensAll tree.content) [] := by
  have hreads := reads_markupAll (fun below hbelow ↦ (h.content below hbelow).reads) []
  rwa [List.append_nil] at hreads

/-! ### Nesting -/

theorem balanced_tokensAll {name : List Char} {trees : List Tree}
    (h : ∀ tree ∈ trees, Balanced name tree.tokens) : Balanced name (tokensAll trees) := by
  induction trees with
  | nil => exact balanced_of_forall (by simp [tokensAll])
  | cons tree trees ih =>
    exact (h tree (by simp)).append
      (ih fun other hother ↦ h other (List.mem_cons_of_mem tree hother))

/-- The tags of every name nest in a printed tree. -/
theorem Safe.balanced {tree : Tree} (h : tree.Safe) (name : List Char) :
    Balanced name tree.tokens := by
  induction h with
  | text =>
    refine balanced_of_forall fun token htoken ↦ ?_
    obtain ⟨c, _, rfl⟩ := List.mem_map.mp htoken
    exact ⟨rfl, rfl⟩
  | @element node tag attributes content _ _ _ ih =>
    have hcontent := balanced_tokensAll ih
    have hkind := kind_startTag tag attributes content.isEmpty
    cases content with
    | nil =>
      refine balanced_of_forall fun token htoken ↦ ?_
      obtain rfl : token = .tag (startTag tag attributes true) := by
        simpa [tokens, tokensAll] using htoken
      simp [Token.opens, Token.closes,
        show (startTag tag attributes true).kind = .selfClosing from hkind]
    | cons first rest =>
      have hkind : (startTag tag attributes false).kind = .opening := hkind
      have hname : (startTag tag attributes false).name = (endTag tag).name := rfl
      show Balanced name (.tag (startTag tag attributes false) ::
        (tokensAll (first :: rest) ++ [.tag (endTag tag)]))
      refine hcontent.enclose ?_ ?_ ?_
      · simp [closings, Token.closes, hkind]
      · simp [openings, Token.opens, kind_endTag]
      · simp [closings, openings, Token.closes, Token.opens, kind_endTag, hkind, hname]

theorem Safe.balanced_content {tree : Tree} (h : tree.Safe) (name : List Char) :
    Balanced name (tokensAll tree.content) :=
  balanced_tokensAll fun below hbelow ↦ (h.content below hbelow).balanced name

/-! ### Ids -/

theorem countP_hits_tokensAll {id : String} {trees : List Tree}
    (h : ∀ tree ∈ trees, tree.tokens.countP (Token.hits id.toList) =
      tree.elements.countP (printsId id)) :
    (tokensAll trees).countP (Token.hits id.toList) = occurrences id trees := by
  induction trees with
  | nil => rfl
  | cons tree trees ih =>
    rw [tokensAll, occurrences, elementsAll, List.countP_append, List.countP_append,
      h tree (by simp),
      ih fun other hother ↦ h other (List.mem_cons_of_mem tree hother)]
    rfl

/-- As many tags can start an element with an id as elements print it. -/
theorem Safe.countP_hits {id : String} (hid : SafeId id.toList) {tree : Tree} (h : tree.Safe) :
    tree.tokens.countP (Token.hits id.toList) = tree.elements.countP (printsId id) := by
  induction h with
  | @text s =>
    rw [elements, List.countP_nil, List.countP_eq_zero]
    intro token htoken
    obtain ⟨c, _, rfl⟩ := List.mem_map.mp htoken
    simp [Token.hits]
  | @element node tag attributes content htag hattributes _ ih =>
    have hstart : Token.hits id.toList (.tag (startTag tag attributes content.isEmpty)) =
        printsId id (.element node tag attributes content) := by
      have hkind : (startTag tag attributes content.isEmpty).kind ≠ .closing := by
        rw [kind_startTag]
        cases content.isEmpty <;> simp
      rw [Bool.eq_iff_iff, printsId_iff, Tree.attributes,
        ← showsId_startTag_iff htag hattributes hid content.isEmpty]
      simp [Token.hits, hkind]
    have hend : (if content.isEmpty then [] else [Token.tag (endTag tag)]).countP
        (Token.hits id.toList) = 0 := by
      cases content.isEmpty <;> simp [Token.hits, kind_endTag]
    rw [tokens, elements, List.countP_cons, List.countP_cons, List.countP_append, hend, hstart,
      countP_hits_tokensAll ih]
    rfl

theorem exists_tokensAll_eq {trees : List Tree} {element : Tree}
    (h : ∀ tree ∈ trees, element ∈ tree.elements → element.Safe ∧
      ∃ before after, tree.tokens = before ++ (element.tokens ++ after))
    (helement : element ∈ elementsAll trees) :
    element.Safe ∧ ∃ before after, tokensAll trees = before ++ (element.tokens ++ after) := by
  induction trees with
  | nil => simp [elementsAll] at helement
  | cons tree trees ih =>
    rcases List.mem_append.mp helement with hfirst | hlater
    · obtain ⟨hsafe, before, after, htokens⟩ := h tree (by simp) hfirst
      exact ⟨hsafe, before, after ++ tokensAll trees, by simp [tokensAll, htokens]⟩
    · obtain ⟨hsafe, before, after, htokens⟩ :=
        ih (fun other hother ↦ h other (List.mem_cons_of_mem tree hother)) hlater
      exact ⟨hsafe, tree.tokens ++ before, after, by simp [tokensAll, htokens]⟩

/-- Each element of a tree stands somewhere in what the tree prints as. -/
theorem Safe.exists_tokens_eq {tree : Tree} (h : tree.Safe) {element : Tree}
    (helement : element ∈ tree.elements) :
    element.Safe ∧ ∃ before after, tree.tokens = before ++ (element.tokens ++ after) := by
  induction h with
  | text => simp [elements] at helement
  | @element node tag attributes content htag hattributes hcontent ih =>
    rcases List.mem_cons.mp helement with rfl | hbelow
    · exact ⟨.element htag hattributes hcontent, [], [], by simp⟩
    · obtain ⟨hsafe, before, after, htokens⟩ := exists_tokensAll_eq ih hbelow
      refine ⟨hsafe, .tag (startTag tag attributes content.isEmpty) :: before,
        after ++ (if content.isEmpty then [] else [.tag (endTag tag)]), ?_⟩
      simp [tokens, htokens]

/-! ### Finding what was printed -/

theorem allChars_tokensAll {trees : List Tree} (h : ∀ tree ∈ trees, tree.Safe) :
    Token.allChars (tokensAll trees) = (markupAll trees).toList := by
  have hreads := reads_markupAll (fun tree htree ↦ (h tree htree).reads) []
  have htext := hreads.text_eq
  rwa [List.append_nil, List.append_nil, eq_comm] at htext

/-- An id that no element prints is not found. -/
theorem locate?_eq_none {id : String} (hid : SafeId id.toList) {trees : List Tree}
    (h : ∀ tree ∈ trees, tree.Safe) (hnone : occurrences id trees = 0) :
    locate? id.toList (tokensAll trees) = none := by
  rw [← countP_hits_tokensAll fun tree htree ↦ (h tree htree).countP_hits hid,
    List.countP_eq_zero] at hnone
  exact locate?_eq_none_of_forall fun token htoken ↦ by simpa using hnone token htoken

/-- An element whose id is printed once is found as it was printed. -/
theorem exists_finds {id : String} (hid : SafeId id.toList) {trees : List Tree}
    (h : ∀ tree ∈ trees, tree.Safe) (honce : occurrences id trees = 1) {element : Tree}
    (helement : element ∈ elementsAll trees) (hprints : element.printsId id = true) :
    ∃ found, Finds id.toList (tokensAll trees) found ∧
      found.outerText = element.markup.toList ∧ found.innerText = element.innerMarkup.toList := by
  obtain ⟨hsafe, before, after, htokens⟩ :=
    exists_tokensAll_eq (fun tree htree ↦ (h tree htree).exists_tokens_eq) helement
  cases hsafe with
  | text => simp [printsId, attributes] at hprints
  | @element node tag attributes content htag hattributes hcontent =>
    have hshows := (showsId_startTag_iff htag hattributes hid content.isEmpty).mpr
      ((printsId_iff id _).mp hprints)
    have hkind := kind_startTag tag attributes content.isEmpty
    have hchars := allChars_tokensAll hcontent
    have hbefore : ∀ token ∈ before, token.hits id.toList = false := by
      rw [← countP_hits_tokensAll fun tree htree ↦ (h tree htree).countP_hits hid, htokens,
        List.countP_append, List.countP_append, tokens, List.countP_cons] at honce
      have hhits :
          Token.hits id.toList (.tag (startTag tag attributes content.isEmpty)) = true := by
        rw [Token.hits, hshows, hkind]
        cases content.isEmpty <;> rfl
      have hzero : before.countP (Token.hits id.toList) = 0 := by
        rw [if_pos hhits] at honce
        omega
      intro token htoken
      simpa using List.countP_eq_zero.mp hzero token htoken
    cases content with
    | nil =>
      have hsplit : tokensAll trees = before ++ .tag (startTag tag attributes true) :: after := by
        simp [htokens, tokens, tokensAll]
      rw [hsplit]
      refine ⟨_, .alone hbefore hshows hkind, ?_, ?_⟩
      · simp [toList_markup_element, Located.outerText, Token.allChars, markupAll]
      · rfl
    | cons first rest =>
      have hsplit : tokensAll trees = before ++ .tag (startTag tag attributes false) ::
          (tokensAll (first :: rest) ++ .tag (endTag tag) :: after) := by
        simp [htokens, tokens]
      have hbalanced := balanced_tokensAll fun tree htree ↦
        (hcontent tree htree).balanced (startTag tag attributes false).name
      rw [hsplit]
      refine ⟨_, .around hbefore hshows hkind rfl (kind_endTag tag) hbalanced, ?_, ?_⟩
      · rw [toList_markup_element, ← hchars]
        simp [Located.outerText]
      · rw [Located.innerText, hchars]
        rfl

end Tree

end LiveMarkup
