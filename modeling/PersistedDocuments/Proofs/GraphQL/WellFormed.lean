import PersistedDocuments.Proofs.GraphQL.Phrases

/-!
# Trees that texts can stand for

What the grammar builds obeys rules that the syntax tree alone does not express: names are names,
integers fit 64 bits, the members of an object are sorted, no set of braces is empty, and brackets
are not nested too deeply. Every document that is read has this form. The number beside most of the
rules is the one that the readers take, the number of brackets that may still be opened.
-/

namespace PersistedDocuments.GraphQL

open Grammar

/-- A text that is one name. -/
def IsName (text : String) : Prop :=
  ∃ first rest, text.toList = first :: rest ∧ isNameStart first = true ∧
    ∀ c ∈ rest, isNamePart c = true

theorem isName_iff {text : String} : IsName text ↔
    (text.toList.head?.any isNameStart && text.toList.tail.all isNamePart) = true := by
  rw [IsName]
  cases text.toList with
  | nil => simp
  | cons first rest =>
      constructor
      · rintro ⟨_, _, same, starts, parts⟩
        cases same
        simpa [starts] using parts
      · intro holds
        simp only [List.head?_cons, Option.any_some, List.tail_cons, Bool.and_eq_true] at holds
        exact ⟨first, rest, rfl, holds.1, List.all_eq_true.1 holds.2⟩

instance (text : String) : Decidable (IsName text) :=
  decidable_of_iff _ isName_iff.symm

/-- An integer of 64 bits. -/
def Number.InRange (n : Int) : Prop := -intLimit ≤ n ∧ n < intLimit

/-- A token that a scan can find. -/
def Token.Valid : Token → Prop
  | .name text => IsName text
  | .int n => Number.InRange n
  | _ => True

/-! ## Rules for each kind of node -/

/-- Members in increasing order of their distinct names. -/
def Members.Sorted (members : Members) : Prop := members.Pairwise fun a b => a.1 < b.1

/-- A value with at most the given number of brackets open at once, and without variables unless it
may have them. -/
inductive Value.Fits (dynamic : Bool) : Nat → Value → Prop
  | reference {depth name} (allowed : dynamic = true) (isName : IsName name) :
      Fits dynamic depth (.variable name)
  | int {depth n} (inRange : Number.InRange n) : Fits dynamic depth (.int n)
  | float {depth x} : Fits dynamic depth (.float x)
  | string {depth text} : Fits dynamic depth (.string text)
  | boolean {depth b} : Fits dynamic depth (.boolean b)
  | null {depth} : Fits dynamic depth .null
  | enum {depth name} (isName : IsName name) (plain : valueOfName name = .enum name) :
      Fits dynamic depth (.enum name)
  | list {depth items} (each : ∀ item ∈ items, Fits dynamic depth item) :
      Fits dynamic (depth + 1) (.list items)
  | object {depth members} (sorted : Members.Sorted members)
      (names : ∀ member ∈ members, IsName member.1)
      (each : ∀ member ∈ members, Fits dynamic depth member.2) :
      Fits dynamic (depth + 1) (.object members)

/-- Arguments, whose parentheses take one of the brackets. -/
def Members.FitArguments (depth : Nat) (arguments : Members) : Prop :=
  ∀ argument ∈ arguments, IsName argument.1 ∧ 0 < depth ∧ argument.2.Fits true (depth - 1)

/-- A type in which no mark follows another. -/
inductive Ty.Fits : Nat → Ty → Prop
  | named {depth name} (isName : IsName name) : Fits depth (.named name)
  | list {depth item} (fits : Fits depth item) : Fits (depth + 1) (.list item)
  | nonNull {depth type} (fits : Fits depth type) (unmarked : ∀ inner, type ≠ .nonNull inner) :
      Fits depth (.nonNull type)

structure Directive.Fits (depth : Nat) (directive : Directive) : Prop where
  name : IsName directive.name
  arguments : Members.FitArguments depth directive.arguments

structure Variable.Fits (depth : Nat) (var : Variable) : Prop where
  name : IsName var.name
  type : var.type.Fits depth
  default : ∀ value, var.default = some value → value.Fits false depth

structure FieldHead.Fits (depth : Nat) (head : FieldHead) : Prop where
  aliasName : ∀ label, head.aliasName = some label → IsName label
  name : IsName head.name
  arguments : Members.FitArguments depth head.arguments
  directives : ∀ directive ∈ head.directives, directive.Fits depth

inductive Selection.Fits : Nat → Selection → Prop
  | leaf {depth head span} (fits : FieldHead.Fits depth head) : Fits depth (.field head span [])
  | field {depth head span items} (fits : FieldHead.Fits (depth + 1) head) (nonempty : items ≠ [])
      (each : ∀ item ∈ items, Fits depth item) : Fits (depth + 1) (.field head span items)
  | spread {depth pos name directives} (isName : IsName name) (notOn : name ≠ "on")
      (marks : ∀ directive ∈ directives, Directive.Fits depth directive) :
      Fits depth (.spread pos name directives)
  | inline {depth pos condition directives span items}
      (names : ∀ name, condition = some name → IsName name)
      (marks : ∀ directive ∈ directives, Directive.Fits (depth + 1) directive)
      (nonempty : items ≠ []) (each : ∀ item ∈ items, Fits depth item) :
      Fits (depth + 1) (.inline pos condition directives span items)

/-- A set of braces that takes one of the brackets. -/
structure SelectionSet.Fits (depth : Nat) (set : SelectionSet) : Prop where
  nonempty : set.items ≠ []
  room : 0 < depth
  each : ∀ item ∈ set.items, item.Fits (depth - 1)

structure OperationHeader.Fits (header : OperationHeader) : Prop where
  name : ∀ text, header.name = some text → IsName text
  variableDefinitions : ∀ var ∈ header.variableDefinitions, var.Fits (nestingLimit - 1)
  directives : ∀ directive ∈ header.directives, directive.Fits nestingLimit

structure Operation.Fits (operation : Operation) : Prop where
  header : ∀ header, operation.header = some header → header.Fits
  selectionSet : operation.selectionSet.Fits nestingLimit

structure Fragment.Fits (fragment : Fragment) : Prop where
  name : IsName fragment.name
  typeCondition : IsName fragment.typeCondition
  directives : ∀ directive ∈ fragment.directives, directive.Fits nestingLimit
  selectionSet : fragment.selectionSet.Fits nestingLimit

def Definition.Fits : Definition → Prop
  | .operation op => op.Fits
  | .fragment fr => fr.Fits

/-- A document that a text can stand for. -/
structure Document.Fits (document : Document) : Prop where
  nonempty : document.definitions ≠ []
  each : ∀ definition ∈ document.definitions, definition.Fits

/-! ## Objects are sorted -/

namespace Members

variable {name : String} {value : Value} {members : Members}

theorem mem_set {member : String × Value} (present : member ∈ set name value members) :
    member = (name, value) ∨ member ∈ members := by
  fun_induction set name value members with
  | case1 => exact .inl (List.mem_singleton.1 present)
  | case2 => exact List.mem_cons.1 present
  | case3 =>
      rcases List.mem_cons.1 present with new | old
      · exact .inl new
      · exact .inr (List.mem_cons_of_mem _ old)
  | case4 _ _ _ _ _ ih =>
      rcases List.mem_cons.1 present with first | later
      · exact .inr (first ▸ List.mem_cons_self)
      · exact (ih later).imp_right (List.mem_cons_of_mem _)

theorem sorted_set (sorted : Sorted members) : Sorted (set name value members) := by
  fun_induction set name value members with
  | case1 => exact List.pairwise_singleton _ _
  | case2 other old rest before =>
      refine .cons (fun member present => ?_) sorted
      rcases List.mem_cons.1 present with rfl | later
      · exact before
      · exact String.lt_trans before (List.rel_of_pairwise_cons sorted later)
  | case3 old rest _ =>
      exact .cons (fun _ => List.rel_of_pairwise_cons sorted) (List.Pairwise.of_cons sorted)
  | case4 other old rest notBefore different ih =>
      refine .cons (fun member present => ?_) (ih (List.Pairwise.of_cons sorted))
      rcases mem_set present with rfl | later
      · by_cases before : other < name
        · exact before
        · exact absurd (String.le_antisymm (String.not_lt.1 before) (String.not_lt.1 notBefore))
            different
      · exact List.rel_of_pairwise_cons sorted later

/-- A member whose name is larger than all others goes to the end. -/
theorem set_of_forall_lt (last : ∀ member ∈ members, member.1 < name) :
    set name value members = members ++ [(name, value)] := by
  induction members with
  | nil => rfl
  | cons first rest ih =>
      rcases first with ⟨other, old⟩
      have before : other < name := last _ List.mem_cons_self
      have different : name ≠ other := fun same => String.lt_irrefl _ (same ▸ before)
      rw [set, if_neg (String.lt_asymm before), if_neg different,
        ih fun member present => last member (List.mem_cons_of_mem _ present)]
      rfl

end Members

theorem Value.foldl_set_sorted {members start : Members}
    (sorted : Members.Sorted (start ++ members)) :
    members.foldl (fun object (name, value) => Members.set name value object) start =
      start ++ members := by
  induction members generalizing start with
  | nil => exact (List.append_nil _).symm
  | cons first rest ih =>
      rcases first with ⟨name, value⟩
      have before : ∀ member ∈ start, member.1 < name := fun member present =>
        (List.pairwise_append.1 sorted).2.2 member present _ List.mem_cons_self
      rw [List.foldl_cons]
      dsimp only
      rw [Members.set_of_forall_lt before, ih]
      · simp
      · simpa using sorted

/-- Setting members keeps the order, and only adds members that are set. -/
theorem Members.sorted_foldl_set {allowed : String × Value → Prop} {given start : Members}
    (sorted : Sorted start) (origin : ∀ member ∈ start, allowed member)
    (later : ∀ member ∈ given, allowed member) :
    Sorted (given.foldl (fun object (name, value) => set name value object) start) ∧
      ∀ member ∈ given.foldl (fun object (name, value) => set name value object) start,
        allowed member := by
  induction given generalizing start with
  | nil => exact ⟨sorted, origin⟩
  | cons first rest ih =>
      apply ih
      · exact sorted_set sorted
      · intro member present
        rcases mem_set present with rfl | old
        · exact later _ List.mem_cons_self
        · exact origin member old
      · exact fun member present => later member (List.mem_cons_of_mem _ present)

/-- Sorted members make an object as they are. -/
theorem Value.ofMembers_of_sorted {members : Members} (sorted : Members.Sorted members) :
    Value.ofMembers members = .object members := by
  have whole : Members.Sorted ([] ++ members) := sorted
  rw [ofMembers, foldl_set_sorted whole]
  rfl

end PersistedDocuments.GraphQL
