import Mathlib.Data.List.Nodup
import PersistedDocuments.Proofs.Json.Concurrence
import PersistedDocuments.Request

/-!
# Requests as objects

A request is made of three members of an object; the others play no part in it, and null stands for
an absent one. A text that is read as a request and as an object gives the request that the members
of the object make, in whatever order and among whatever others they stand.
-/

namespace PersistedDocuments

open Json

namespace Json

/-- The value, unless it is null. -/
def Value.nonNull? : Value → Option Value
  | .null => none
  | value => some value

/-- The text, if there is one, that a value stands for. -/
def Value.textOrNull? : Value → Option (Option String)
  | .null => some none
  | .string text => some (some text)
  | _ => none

namespace Members

variable {members : Members} {name other : String} {value : Value}

theorem get?_set_self : get? (set name value members) name = some value := by
  induction members with
  | nil => exact List.lookup_cons_self
  | cons first rest ih =>
      rcases first with ⟨found, old⟩
      by_cases same : found = name
      · rw [set, if_pos same]
        exact List.lookup_cons_self
      · rw [set, if_neg same, get?, List.lookup_cons, beq_false_of_ne (Ne.symm same)]
        exact ih

theorem get?_set_other (different : other ≠ name) :
    get? (set name value members) other = get? members other := by
  induction members with
  | nil => rw [set, get?, List.lookup_cons, beq_false_of_ne different]; rfl
  | cons first rest ih =>
      rcases first with ⟨found, old⟩
      by_cases same : found = name
      · rw [set, if_pos same, get?, get?, List.lookup_cons, List.lookup_cons, same,
          beq_false_of_ne different]
      · rw [set, if_neg same, get?, get?, List.lookup_cons, List.lookup_cons]
        split
        · rfl
        · exact ih

theorem set_set : set name value (set name value members) = set name value members := by
  induction members with
  | nil => exact if_pos rfl
  | cons first rest ih =>
      rcases first with ⟨found, old⟩
      by_cases same : found = name
      · rw [set, if_pos same, set, if_pos rfl]
      · rw [set, if_neg same, set, if_neg same, ih]

/-- The result is the members with one set to a value: in the place of the first of its name, or at
the end if there is none. -/
inductive Sets (name : String) (value : Value) (members result : Members) : Prop
  | replaced (before : Members) (old : Value) (after : Members)
      (was : members = before ++ (name, old) :: after)
      (becomes : result = before ++ (name, value) :: after) (first : name ∉ before.map Prod.fst)
  | added (absent : name ∉ members.map Prod.fst) (becomes : result = members ++ [(name, value)])

theorem sets_set (name : String) (value : Value) (members : Members) :
    Sets name value members (set name value members) := by
  induction members with
  | nil => exact .added (List.not_mem_nil) rfl
  | cons first rest ih =>
      rcases first with ⟨found, old⟩
      by_cases same : found = name
      · subst same
        exact .replaced [] old rest rfl (if_pos rfl) List.not_mem_nil
      · rw [set, if_neg same]
        cases ih with
        | replaced before older after was becomes first =>
            refine .replaced ((found, old) :: before) older after ?_ ?_ ?_
            · rw [was, List.cons_append]
            · rw [becomes, List.cons_append]
            · rw [List.map_cons, List.mem_cons, not_or]
              exact ⟨Ne.symm same, first⟩
        | added absent becomes =>
            refine .added ?_ ?_
            · rw [List.map_cons, List.mem_cons, not_or]
              exact ⟨Ne.symm same, absent⟩
            · rw [becomes, List.cons_append]

/-- A member with a new name is added at the end. -/
theorem set_of_not_mem (fresh : name ∉ members.map Prod.fst) :
    set name value members = members ++ [(name, value)] := by
  cases sets_set name value members with
  | replaced before old after was _ _ =>
      rw [was, List.map_append, List.mem_append, not_or] at fresh
      exact absurd List.mem_cons_self fresh.2
  | added _ becomes => exact becomes

/-- Setting a member keeps the names distinct. -/
theorem nodup_set (distinct : (members.map Prod.fst).Nodup) :
    ((set name value members).map Prod.fst).Nodup := by
  cases sets_set name value members with
  | replaced before old after was becomes _ =>
      rw [was, List.map_append, List.map_cons] at distinct
      rwa [becomes, List.map_append, List.map_cons]
  | added absent becomes =>
      rw [becomes, List.map_append, List.map_singleton]
      rw [← List.concat_eq_append, List.nodup_concat]
      exact ⟨absent, distinct⟩

end Members

end Json

/-- The request that the members of an object make: the identifier has to be there, and the name of
an operation has to be a text unless it is null. -/
def PersistedRequest.ofMembers? (members : Members) : Option PersistedRequest := do
  let id ← QueryId.ofJson? (← Members.get? members "id")
  let operationName ← (Members.get? members "operationName").elim (some none) Value.textOrNull?
  return ⟨id, (Members.get? members "variables").bind Value.nonNull?, operationName⟩

namespace Request

/-- The parts of a request are those that the members read so far make. -/
structure MadeOf (members : Members) (parts : Parts QueryId) : Prop where
  subject : (Members.get? members "id").map QueryId.ofJson? = parts.subject.map some
  variableValues : (Members.get? members "variables").map Value.nonNull? = parts.variableValues
  operationName : (Members.get? members "operationName").map Value.textOrNull? =
    parts.operationName.map some

namespace MadeOf

variable {members : Members} {parts : Parts QueryId} {depth : Nat}

open Decoder

/-- A member is read as a value and, unless it has been there before, as the part of a shape. -/
theorem concur_once {α : Type} {related : Value → α → Prop} {item : Decoder α}
    (agree : Concur related (Decoder.value depth) item) (before : Option α) :
    Concur (fun value part => ∃ found, part = some found ∧ related value found)
      (symbol ':' >>= fun _ => Decoder.value depth) (once before item) := by
  rw [once]
  cases before with
  | some _ => exact concur_throw_right _ _
  | none =>
      refine concur_after _ fun _ => ?_
      rw [map_eq_pure_bind, ← bind_pure (Decoder.value depth)]
      exact agree.bind fun value found holds => concur_pure ⟨found, rfl, holds⟩

/-- A member of another name than the three leaves the parts as they are. -/
theorem set_other {name : String} (made : MadeOf members parts) (notId : name ≠ "id")
    (notVariables : name ≠ "variables") (notName : name ≠ "operationName") (value : Value) :
    MadeOf (Members.set name value members) parts where
  subject := by rw [Members.get?_set_other (Ne.symm notId), made.subject]
  variableValues := by rw [Members.get?_set_other (Ne.symm notVariables), made.variableValues]
  operationName := by rw [Members.get?_set_other (Ne.symm notName), made.operationName]

theorem set_id (made : MadeOf members parts) {value : Value} {id : QueryId}
    (stands : QueryId.ofJson? value = some id) :
    MadeOf (Members.set "id" value members) { parts with subject := some id } where
  subject := by rw [Members.get?_set_self, Option.map_some, stands, Option.map_some]
  variableValues := by rw [Members.get?_set_other (by decide), made.variableValues]
  operationName := by rw [Members.get?_set_other (by decide), made.operationName]

theorem set_variables (made : MadeOf members parts) (value : Value) :
    MadeOf (Members.set "variables" value members)
      { parts with variableValues := some value.nonNull? } where
  subject := by rw [Members.get?_set_other (by decide), made.subject]
  variableValues := by rw [Members.get?_set_self, Option.map_some]
  operationName := by rw [Members.get?_set_other (by decide), made.operationName]

theorem set_operationName (made : MadeOf members parts) {value : Value} {text : Option String}
    (stands : value.textOrNull? = some text) :
    MadeOf (Members.set "operationName" value members)
      { parts with operationName := some text } where
  subject := by rw [Members.get?_set_other (by decide), made.subject]
  variableValues := by rw [Members.get?_set_other (by decide), made.variableValues]
  operationName := by rw [Members.get?_set_self, Option.map_some, stands, Option.map_some]

/-- One member more is one value more, and the part that it makes. -/
theorem concur_member (made : MadeOf members parts) (depth : Nat) :
    Concur MadeOf
      (do
        let name ← name
        symbol ':'
        return Members.set name (← Decoder.value depth) members)
      (member "id" (QueryId.decoder depth) depth parts) := by
  rw [member]
  refine concur_after _ fun found => ?_
  split
  · next same =>
      subst same
      rw [← bind_assoc]
      refine (concur_once (concur_require _ _) parts.subject).bind fun value part stands => ?_
      rcases stands with ⟨id, rfl, stands⟩
      exact concur_pure (made.set_id stands)
  · split
    · next same =>
        subst same
        rw [← bind_assoc]
        refine (concur_once (concur_orNull (concur_self _)) parts.variableValues).bind ?_
        rintro value part ⟨inner, rfl, ⟨rfl, rfl⟩ | ⟨notNull, found, rfl, rfl⟩⟩
        · exact concur_pure (made.set_variables .null)
        · have whole : some value = value.nonNull? := by cases value <;> trivial
          rw [whole]
          exact concur_pure (made.set_variables value)
    · split
      · next same =>
          subst same
          rw [← bind_assoc]
          refine (concur_once (concur_orNull (concur_value_text _)) parts.operationName).bind ?_
          rintro value part ⟨inner, rfl, ⟨rfl, rfl⟩ | ⟨_, text, rfl, rfl⟩⟩
          · exact concur_pure (made.set_operationName rfl)
          · exact concur_pure (made.set_operationName rfl)
      · next notId notVariables notName =>
          refine concur_after _ fun _ => (concur_value_skip depth).bind fun value _ _ => ?_
          exact concur_pure (made.set_other notId notVariables notName value)

/-- Members that make all parts of a request make the request. -/
theorem ofMembers? (made : MadeOf members parts) {id : QueryId} (present : parts.subject = some id) :
    PersistedRequest.ofMembers? members =
      some ⟨id, parts.variableValues.join, parts.operationName.join⟩ := by
  have ⟨subject, variableValues, operationName⟩ := made
  rw [present] at subject
  rcases Option.map_eq_some_iff.1 subject with ⟨value, found, stands⟩
  have named : (Members.get? members "operationName").elim (some none) Value.textOrNull? =
      some parts.operationName.join := by
    cases text : parts.operationName with
    | none =>
        rw [text, Option.map_none, Option.map_eq_none_iff] at operationName
        rw [operationName]
        rfl
    | some text? =>
        rw [text, Option.map_some, Option.map_eq_some_iff] at operationName
        rcases operationName with ⟨value, found, read⟩
        rw [found]
        exact read
  have part : (Members.get? members "variables").bind Value.nonNull? =
      parts.variableValues.join := by
    rw [← variableValues]
    cases Members.get? members "variables" <;> rfl
  rw [PersistedRequest.ofMembers?, found, named, part]
  change (QueryId.ofJson? value).bind _ = _
  rw [stands]
  rfl

end MadeOf

end Request

/-! ## Texts -/

section

variable {s : String} {members : Members}

open Decoder

/-- The text of an object begins with a brace, behind which its members stand. -/
theorem Json.Value.read_eq_object (read : Value.read s = .ok (.object members)) :
    ∃ tail rest, Decoder.front s.toList = '{' :: tail ∧
      fold '}' (fun members => do
        let name ← name
        symbol ':'
        return Members.set name (← Decoder.value (nestingLimit - 1)) members) [] tail =
        .ok (members, rest) := by
  rcases run_eq_ok read with ⟨rest, found⟩
  have reads := readsValue found
  generalize Decoder.front s.toList = start at reads
  cases reads with
  | object folded => exact ⟨_, rest, rfl, folded⟩
  | scalar reads =>
      cases reads with
      | number _ decoded =>
          rcases Number.decode_eq_ok decoded with ⟨parts, _, valued⟩
          rcases Number.Parts.value?_eq_some valued with ⟨_, same⟩ | ⟨_, same⟩ <;> cases same

/-- The names of an object that is read are distinct. -/
theorem Json.Value.nodup_of_read (read : Value.read s = .ok (.object members)) :
    (members.map Prod.fst).Nodup := by
  rcases read_eq_object read with ⟨tail, rest, _, folded⟩
  have step (object mirror : Members) (holds : object = mirror ∧ (object.map Prod.fst).Nodup) :
      Concur (fun object mirror => object = mirror ∧ (object.map Prod.fst).Nodup)
        (do
          let name ← name
          symbol ':'
          return Members.set name (← Decoder.value (nestingLimit - 1)) object)
        (do
          let name ← name
          symbol ':'
          return Members.set name (← Decoder.value (nestingLimit - 1)) mirror) := by
    obtain ⟨rfl, distinct⟩ := holds
    refine concur_after _ fun name => concur_after _ fun _ => concur_after _ fun value => ?_
    exact concur_pure ⟨rfl, Members.nodup_set distinct⟩
  have start : ([] : Members) = [] ∧ (([] : Members).map Prod.fst).Nodup := ⟨rfl, List.nodup_nil⟩
  exact (concur_fold step start _ _ _ _ _ folded folded).2.2

/-- A request that is read from the text of an object is the one that the members make. -/
theorem PersistedRequest.ofMembers?_of_read {request : PersistedRequest}
    (object : Value.read s = .ok (.object members)) (read : PersistedRequest.read s = .ok request) :
    ofMembers? members = some request := by
  rcases Json.Value.read_eq_object object with ⟨tail, rest, starts, folded⟩
  rcases run_eq_ok (mapError_eq_ok.1 read) with ⟨behind, decoded⟩
  rw [Request.decoder, peek_bind, starts] at decoded
  rcases bind_eq_ok.1 decoded with ⟨⟨parts, middle⟩, made, required⟩
  have start : Request.MadeOf [] ⟨none, none, none⟩ := ⟨rfl, rfl, rfl⟩
  have step (members : Members) (parts : Request.Parts QueryId)
      (made : Request.MadeOf members parts) := made.concur_member (nestingLimit - 1)
  have ⟨_, holds⟩ := concur_fold step start _ _ _ _ _ folded made
  cases subject : parts.subject with
  | none =>
      dsimp only at required
      rw [subject] at required
      cases required
  | some id =>
      dsimp only at required
      rw [subject] at required
      cases required
      exact holds.ofMembers? subject

end

end PersistedDocuments
