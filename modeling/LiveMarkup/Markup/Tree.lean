import LiveMarkup.Reference

/-!
Markup trees: what a node and everything below it show, with all values filled in. A tree is
written as markup without escaping anything.
-/

set_option autoImplicit false
set_option relaxedAutoImplicit false

namespace LiveMarkup

/-- An element, with the node that it shows, or text. -/
inductive Tree where
  | element (node : NodeId) (tag : String) (attributes : List (String × String))
      (content : List Tree)
  | text (s : String)

namespace Tree

/-- Attributes as they stand in a tag. -/
def attributeText : List (String × String) → String
  | [] => ""
  | (key, value) :: rest => " " ++ key ++ "=\"" ++ value ++ "\"" ++ attributeText rest

mutual

/-- The markup of a tree. An element without content is a single tag that closes itself. -/
def markup : Tree → String
  | .text s => s
  | .element _ tag attributes [] => "<" ++ tag ++ attributeText attributes ++ "/>"
  | .element _ tag attributes (first :: rest) =>
    "<" ++ tag ++ attributeText attributes ++ ">" ++ (first.markup ++ markupAll rest) ++
      "</" ++ tag ++ ">"

/-- The markup of several trees. -/
def markupAll : List Tree → String
  | [] => ""
  | tree :: rest => tree.markup ++ markupAll rest

end

/-- The content of an element; none of text. -/
def content : Tree → List Tree
  | .element _ _ _ content => content
  | .text _ => []

/-- The markup of what is inside an element. -/
def innerMarkup (tree : Tree) : String := markupAll tree.content

/-- The node around a tree, if the tree is an element. -/
def link (parent : NodeId) : Tree → List (NodeId × NodeId)
  | .text _ => []
  | .element node _ _ _ => [(node, parent)]

mutual

/-- The elements below an element, each with the node around it, in the order of their tags. -/
def links : Tree → List (NodeId × NodeId)
  | .text _ => []
  | .element node _ _ content => linksBelow node content

/-- The elements among trees and below them, the trees standing inside `parent`. -/
def linksBelow (parent : NodeId) : List Tree → List (NodeId × NodeId)
  | [] => []
  | tree :: rest => tree.link parent ++ tree.links ++ linksBelow parent rest

end

end Tree

end LiveMarkup
