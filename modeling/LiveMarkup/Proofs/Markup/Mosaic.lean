import LiveMarkup.Proofs.Markup.Forest
import LiveMarkup.Proofs.Markup.Rewriting

/-!
Surfaces made of pieces. A piece is an element that was printed once and whose content was
written anew since, any number of times (`Piece`). A surface that shows pieces one after the
other has the element of a piece where the piece stands (`Surface.find?_mosaic`), and writing
into that element changes this piece and no other (`Surface.setInner_mosaic`).
-/

set_option autoImplicit false
set_option relaxedAutoImplicit false

namespace LiveMarkup

/-- An element as it was printed, with what it holds now; nothing if it is a single tag still. -/
structure Piece where
  tag : String
  attributes : List (String × String)
  content? : Option (List Tree)

namespace Piece

/-- What a piece holds. -/
def content (piece : Piece) : List Tree := piece.content?.getD []

/-- The first tag of a piece. -/
def start (piece : Piece) : Tag := startTag piece.tag piece.attributes piece.content?.isNone

/-- The tag that closes a piece, unless the first does. -/
def close? (piece : Piece) : Option Tag := piece.content?.map fun _ ↦ endTag piece.tag

/-- The tags and texts of a piece. -/
def tokens (piece : Piece) : List Token :=
  .tag piece.start :: (Tree.tokensAll piece.content ++ piece.close?.toList.map .tag)

/-- A piece with other content. -/
def filled (piece : Piece) (trees : List Tree) : Piece := { piece with content? := some trees }

/-- A piece that is read back as it is. -/
structure Safe (piece : Piece) : Prop where
  tag : SafeTag piece.tag.toList
  attributes : ∀ pair ∈ piece.attributes, SafeAttribute pair
  content : ∀ tree ∈ piece.content, tree.Safe

/-- A piece prints an id nowhere inside. -/
def HidesNo (piece : Piece) (id : String) : Prop := Tree.occurrences id piece.content = 0

theorem Safe.filled {piece : Piece} (h : piece.Safe) {trees : List Tree}
    (htrees : ∀ tree ∈ trees, tree.Safe) : (piece.filled trees).Safe :=
  ⟨h.tag, h.attributes, htrees⟩

/-- A printed element is a piece. -/
def ofElement (tag : String) (attributes : List (String × String)) (content : List Tree) : Piece :=
  ⟨tag, attributes, if content.isEmpty then none else some content⟩

theorem content_ofElement (tag : String) (attributes : List (String × String))
    (content : List Tree) : (ofElement tag attributes content).content = content := by
  cases content <;> rfl

theorem tokens_ofElement (node : NodeId) (tag : String) (attributes : List (String × String))
    (content : List Tree) :
    (ofElement tag attributes content).tokens =
      (Tree.element node tag attributes content).tokens := by
  cases content <;> rfl

/-! ### Reading pieces -/

theorem kind_start (piece : Piece) :
    piece.start.kind = if piece.content?.isNone then .selfClosing else .opening :=
  kind_startTag ..

/-- A safe piece is read as its tags and texts, whatever follows. -/
theorem Safe.reads {piece : Piece} (h : piece.Safe) (rest : List Char) :
    Reads (Token.allChars piece.tokens ++ rest) piece.tokens rest := by
  have hstart := h.tag.readable_startTag h.attributes piece.content?.isNone
  have hcontent := Tree.reads_markupAll (fun tree htree ↦ (h.content tree htree).reads)
  rw [tokens, Token.allChars_cons, Token.allChars_append, Tree.allChars_tokensAll h.content]
  show Reads (piece.start.text ++ _ ++ rest) _ rest
  rw [List.append_assoc, List.append_assoc]
  refine (Reads.single hstart _).trans ((hcontent _).trans ?_)
  rw [close?]
  cases piece.content? with
  | none => exact .done rest
  | some trees =>
    show Reads ((endTag piece.tag).text ++ [] ++ rest) [.tag (endTag piece.tag)] rest
    rw [List.append_nil]
    exact Reads.single h.tag.readable_endTag rest

theorem Safe.hits_start_iff {piece : Piece} (h : piece.Safe) {id : String}
    (hid : SafeId id.toList) :
    Token.hits id.toList (.tag piece.start) = true ↔ ("id", id) ∈ piece.attributes := by
  have hkind : piece.start.kind ≠ .closing := by
    rw [kind_start]
    split <;> simp
  rw [← showsId_startTag_iff h.tag h.attributes hid piece.content?.isNone, ← Piece.start]
  simp [Token.hits, hkind]

/-- No element with an id starts in a piece that does not print it. -/
theorem Safe.hits_eq_false {piece : Piece} (h : piece.Safe) {id : String} (hid : SafeId id.toList)
    (hroot : ("id", id) ∉ piece.attributes) (hinside : piece.HidesNo id) :
    ∀ token ∈ piece.tokens, token.hits id.toList = false := by
  intro token htoken
  rcases List.mem_cons.mp htoken with rfl | htoken
  · rw [← Bool.not_eq_true, h.hits_start_iff hid]
    exact hroot
  rcases List.mem_append.mp htoken with hcontent | hlast
  · rw [HidesNo, ← Tree.countP_hits_tokensAll fun tree htree ↦
      (h.content tree htree).countP_hits hid,
      List.countP_eq_zero] at hinside
    exact Bool.eq_false_iff.mpr (hinside token hcontent)
  · obtain ⟨tag, htag, rfl⟩ := List.mem_map.mp hlast
    obtain ⟨_, _, rfl⟩ := Option.map_eq_some_iff.mp (Option.mem_toList.mp htag)
    rfl

/-- A piece in its place among tokens. -/
def located (piece : Piece) (before after : List Token) : Located :=
  ⟨before, piece.start, Tree.tokensAll piece.content, piece.close?, after⟩

/-- A piece is found by an id that it prints and nothing before it does. -/
theorem Safe.finds {piece : Piece} (h : piece.Safe) {id : String} (hid : SafeId id.toList)
    (hroot : ("id", id) ∈ piece.attributes) {before : List Token}
    (hbefore : ∀ token ∈ before, token.hits id.toList = false) (after : List Token) :
    Finds id.toList (before ++ (piece.tokens ++ after)) (piece.located before after) := by
  have hshows : piece.start.showsId id.toList = true :=
    (showsId_startTag_iff h.tag h.attributes hid _).mpr hroot
  have hkind := piece.kind_start
  cases hcontent : piece.content? with
  | none =>
    have htokens : piece.tokens = [.tag piece.start] := by
      simp [tokens, Piece.content, close?, hcontent, Tree.tokensAll]
    have hlocated : piece.located before after = ⟨before, piece.start, [], none, after⟩ := by
      simp [located, Piece.content, close?, hcontent, Tree.tokensAll]
    rw [htokens, hlocated]
    refine .alone hbefore hshows ?_
    rw [hkind, hcontent]
    rfl
  | some trees =>
    have htokens : piece.tokens =
        .tag piece.start :: (Tree.tokensAll piece.content ++ [.tag (endTag piece.tag)]) := by
      simp [tokens, close?, hcontent]
    have hlocated : piece.located before after =
        ⟨before, piece.start, Tree.tokensAll piece.content, some (endTag piece.tag), after⟩ := by
      simp [located, close?, hcontent]
    rw [htokens, hlocated, List.cons_append, List.append_assoc, List.singleton_append]
    refine .around hbefore hshows ?_ rfl (kind_endTag piece.tag) ?_
    · rw [hkind, hcontent]
      rfl
    · exact Tree.balanced_tokensAll fun tree htree ↦ (h.content tree htree).balanced _

/-- Writing trees into a piece in its place fills the piece. -/
theorem withInner_located (piece : Piece) {trees : List Tree} (htrees : ∀ tree ∈ trees, tree.Safe)
    (before after : List Token) :
    (piece.located before after).withInner (Tree.markupAll trees).toList =
      Token.allChars (before ++ ((piece.filled trees).tokens ++ after)) := by
  have hopen : (piece.located before after).openTag = (piece.filled trees).start := by
    rw [Located.openTag, located, close?]
    cases hcontent : piece.content? with
    | none => simp [start, startTag, filled, hcontent]
    | some => simp [start, startTag, filled, hcontent]
  have hclose : (piece.located before after).closeTag = endTag piece.tag := by
    rw [Located.closeTag, located, close?]
    cases piece.content? <;> rfl
  rw [Located.withInner_eq, hopen, hclose, ← Tree.allChars_tokensAll htrees]
  simp [located, tokens, filled, content, close?, Token.allChars, Token.chars]

end Piece

/-! ### Several pieces -/

/-- The tags and texts of pieces one after the other. -/
def mosaicTokens (pieces : List Piece) : List Token := pieces.flatMap Piece.tokens

/-- The markup of pieces one after the other. -/
def mosaic (pieces : List Piece) : String := String.ofList (Token.allChars (mosaicTokens pieces))

theorem mosaicTokens_append_cons (front : List Piece) (piece : Piece) (back : List Piece) :
    mosaicTokens (front ++ piece :: back) =
      mosaicTokens front ++ (piece.tokens ++ mosaicTokens back) := by
  rw [mosaicTokens, List.flatMap_append, List.flatMap_cons]
  rfl

theorem mosaic_append (front back : List Piece) :
    mosaic (front ++ back) = mosaic front ++ mosaic back := by
  rw [mosaic, mosaic, mosaic, mosaicTokens, List.flatMap_append, Token.allChars_append,
    String.ofList_append]
  rfl

theorem mosaic_eq_join (pieces : List Piece) :
    mosaic pieces = String.join (pieces.map fun piece ↦ mosaic [piece]) := by
  induction pieces with
  | nil => rfl
  | cons piece pieces ih =>
    rw [List.map_cons, String.join_cons, ← ih, ← mosaic_append]
    rfl

/-- A printed element at the end is one more piece. -/
theorem mosaic_append_markup (pieces : List Piece) {node : NodeId} {tag : String}
    {attributes : List (String × String)} {content : List Tree}
    (h : (Tree.element node tag attributes content).Safe) :
    mosaic pieces ++ (Tree.element node tag attributes content).markup =
      mosaic (pieces ++ [.ofElement tag attributes content]) := by
  have hchars : Token.allChars (Tree.element node tag attributes content).tokens =
      (Tree.element node tag attributes content).markup.toList := by
    have hreads := (h.reads []).text_eq
    rwa [List.append_nil, List.append_nil, eq_comm] at hreads
  have hlast : mosaic [.ofElement tag attributes content] =
      (Tree.element node tag attributes content).markup := by
    rw [mosaic, mosaicTokens, List.flatMap_singleton, Piece.tokens_ofElement node, hchars,
      String.ofList_toList]
  rw [mosaic_append, hlast]

/-- Pieces are read as what they were printed as. -/
theorem scan_mosaic {pieces : List Piece} (h : ∀ piece ∈ pieces, piece.Safe) :
    Token.scan (mosaic pieces).toList = mosaicTokens pieces := by
  have hreads (rest : List Char) :
      Reads (Token.allChars (mosaicTokens pieces) ++ rest) (mosaicTokens pieces) rest := by
    induction pieces with
    | nil => exact .done rest
    | cons piece pieces ih =>
      rw [mosaicTokens, List.flatMap_cons, Token.allChars_append, List.append_assoc]
      exact ((h piece List.mem_cons_self).reads _).trans
        (ih fun other hother ↦ h other (List.mem_cons_of_mem piece hother))
  have hscan := (hreads []).scan_eq
  rw [List.append_nil, Token.scan, List.append_nil] at hscan
  rw [mosaic, String.toList_ofList, hscan]

namespace Surface

variable {surface : Surface} {front back : List Piece} {piece : Piece} {id : String}

/-- The element of a piece stands where the piece does. -/
theorem find?_mosaic (hmarkup : surface.markup = mosaic (front ++ piece :: back))
    (hsafe : ∀ other ∈ front ++ piece :: back, other.Safe) (hid : SafeId id.toList)
    (hroot : ("id", id) ∈ piece.attributes)
    (hfront : ∀ other ∈ front, ("id", id) ∉ other.attributes ∧ other.HidesNo id) :
    surface.find? id = some (piece.located (mosaicTokens front) (mosaicTokens back)) := by
  rw [find?_eq_some_iff, hmarkup, scan_mosaic hsafe, mosaicTokens_append_cons]
  refine (hsafe piece (by simp)).finds hid hroot (fun token htoken ↦ ?_) _
  obtain ⟨other, hother, htoken⟩ := List.mem_flatMap.mp htoken
  obtain ⟨hnone, hinside⟩ := hfront other hother
  exact (hsafe other (List.mem_append_left _ hother)).hits_eq_false hid hnone hinside token htoken

/-- Inside the element of a piece stands what the piece holds. -/
theorem innerMarkup?_of_located {before after : List Token}
    (hfind : surface.find? id = some (piece.located before after)) (hsafe : piece.Safe) :
    surface.innerMarkup? id = some (Tree.markupAll piece.content) := by
  rw [innerMarkup?, hfind, Option.map_some, Located.innerText, Piece.located,
    Tree.allChars_tokensAll hsafe.content, String.ofList_toList]

theorem outerMarkup?_of_located {before after : List Token}
    (hfind : surface.find? id = some (piece.located before after)) :
    surface.outerMarkup? id = some (mosaic [piece]) := by
  have hone : Token.allChars (mosaicTokens [piece]) = (piece.located before after).outerText := by
    rw [mosaicTokens, List.flatMap_singleton, Piece.tokens, Located.outerText, Piece.located]
    cases piece.close? <;> simp [Token.allChars, Token.chars]
  rw [outerMarkup?, hfind, Option.map_some, mosaic, hone]

/-- Writing trees into the element of a piece fills the piece and leaves all others as they are. -/
theorem withInner_mosaic (front back : List Piece) (piece : Piece) {trees : List Tree}
    (htrees : ∀ tree ∈ trees, tree.Safe) :
    String.ofList ((piece.located (mosaicTokens front) (mosaicTokens back)).withInner
      (Tree.markupAll trees).toList) = mosaic (front ++ piece.filled trees :: back) := by
  rw [piece.withInner_located htrees, mosaic, mosaicTokens_append_cons]

end Surface

end LiveMarkup
