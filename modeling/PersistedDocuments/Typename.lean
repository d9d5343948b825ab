import PersistedDocuments.Transformer

/-!
# Type names in nested selections

The transformer that makes clients ask for the type of every nested object: each selection set below
a field or an inline fragment that does not select `__typename` gets it as its last selection. The
outermost sets of operations and fragments are left as they are, and spreads are not followed.
-/

namespace PersistedDocuments.GraphQL

/-- The field that asks for the type of an object. -/
def typenameField : String := "__typename"

/-- The plain field `__typename` at the given place. -/
def Selection.typename (pos : Pos) : Selection :=
  .field ⟨pos, none, typenameField, [], []⟩ ⟨pos, pos⟩ []

/-- A field whose name is `__typename`, under whatever alias. -/
def Selection.isTypename : Selection → Bool
  | .field head _ _ => head.name = typenameField
  | _ => false

/-- What a nested selection set gets at its end. Leaf fields get nothing, nor do sets that ask for
the type themselves. -/
def Selections.missingTypename (span : Span) (items : Selections) : Selections :=
  if items.isEmpty || items.any Selection.isTypename then [] else [.typename span.last]

mutual
def Selection.addTypename : Selection → Selection
  | .field head span items =>
    .field head span (Selections.addTypename items ++ Selections.missingTypename span items)
  | .spread pos name directives => .spread pos name directives
  | .inline pos condition directives span items =>
    .inline pos condition directives span
      (Selections.addTypename items ++ Selections.missingTypename span items)

/-- Completes the sets below the selections, but not the list of selections itself. -/
def Selections.addTypename : Selections → Selections
  | [] => []
  | selection :: rest => selection.addTypename :: Selections.addTypename rest
end

def SelectionSet.addTypename (set : SelectionSet) : SelectionSet :=
  ⟨set.span, Selections.addTypename set.items⟩

def Definition.addTypename : Definition → Definition
  | .operation op => .operation { op with selectionSet := op.selectionSet.addTypename }
  | .fragment fr => .fragment { fr with selectionSet := fr.selectionSet.addTypename }

def Document.addTypename (document : Document) : Document :=
  ⟨document.definitions.map Definition.addTypename⟩

end PersistedDocuments.GraphQL

namespace PersistedDocuments

/-- Asks for the type of every nested object. -/
def Transformer.addTypename : Transformer :=
  ⟨"add_typename", fun document => .ok document.addTypename⟩

end PersistedDocuments
