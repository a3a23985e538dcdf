import Reparse.Syntax.Tree

/-!
# The root of a parse

A parse ends with a list of trees, the last of which is the token that ends the input. If exactly
one of them is more than an extra, an error or the end, and it has children, it becomes the root
and takes the others in beside its children. Otherwise the root is an error node around all of them.
-/

namespace Reparse

namespace Tree

/-- Whether a tree could be the root on its own account. -/
def isPrincipal (tree : Tree) : Bool :=
  !tree.info.extra && !tree.info.isError && !tree.info.isEnd

/-- The children of the root: a principal tree gives way to its children, the others stay and stand
in no field. -/
def rootChildren : List (Edge Tree) → List (Edge Tree)
  | [] => []
  | ⟨_, tree⟩ :: rest =>
    if tree.isPrincipal then tree.children ++ rootChildren rest else ⟨0, tree⟩ :: rootChildren rest

/-- The root made of the trees of a parse. -/
def root (vocabulary : Vocabulary) (items : List (Edge Tree)) : Tree :=
  match items.filter fun edge => edge.tree.isPrincipal with
  | [principal] =>
    if principal.tree.children.isEmpty then error items
    else
      let symbol := principal.tree.info.symbol
      branch symbol noState (vocabulary.kind symbol) (rootChildren items)
  | _ => error items

end Tree

end Reparse
