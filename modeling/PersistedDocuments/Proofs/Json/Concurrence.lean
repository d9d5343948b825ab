import Mathlib.Data.List.DropRight
import PersistedDocuments.Proofs.Json.Reading
import PersistedDocuments.Proofs.Outcome

/-!
# Decoders of different shapes

A decoder that asks for a shape, one that takes any value and one that passes a value over read the
same text in different ways. Where two of them succeed, they leave the same rest, and one law for
every way in which decoders are put together shows that their results correspond.
-/

namespace PersistedDocuments.Json

namespace Quoted

/-! ## Strings -/

theorem skip_code {coded rest : List Char} {n : Nat} (code : unit coded = .ok (n, rest)) :
    skip ('\\' :: 'u' :: coded) = skip rest := by
  rw [skip]
  split
  · next failed =>
      rw [code] at failed
      cases failed
  · next found =>
      rw [code] at found
      cases found
      rfl

theorem skip_lowSurrogate {cs rest : List Char} {n : Nat} (low : lowSurrogate cs = .ok (n, rest)) :
    skip cs = skip rest := by
  rw [lowSurrogate.eq_def] at low
  split at low
  · rcases bind_eq_ok.1 low with ⟨⟨code, behind⟩, read, checked⟩
    dsimp only at checked
    split at checked
    · cases checked
      exact skip_code read
    · cases checked
  all_goals cases low

/-- A coded character is one escape or two, which are passed over one after the other. -/
theorem skip_codedChar {coded rest : List Char} {c : Char}
    (code : codedChar coded = .ok (c, rest)) : skip ('\\' :: 'u' :: coded) = skip rest := by
  rw [codedChar] at code
  rcases bind_eq_ok.1 code with ⟨⟨n, behind⟩, read, others⟩
  rw [skip_code read]
  dsimp only at others
  split at others
  · cases others
  · split at others
    · rcases bind_eq_ok.1 others with ⟨⟨low, last⟩, second, same⟩
      have ends : last = rest := (Prod.mk.inj (Except.ok.inj same)).2
      rw [skip_lowSurrogate second, ends]
    · have ends : behind = rest := (Prod.mk.inj (Except.ok.inj others)).2
      rw [ends]

theorem exists_decode {c : Char} {cs text rest : List Char}
    (read : (decode cs >>= fun (found, behind) => pure (c :: found, behind)) =
      (.ok (text, rest) : Except Problem (List Char × List Char))) :
    ∃ found, decode cs = .ok (found, rest) := by
  rcases bind_eq_ok.1 read with ⟨⟨found, behind⟩, inner, same⟩
  cases same
  exact ⟨found, inner⟩

/-- What is read is passed over. -/
theorem skip_of_decode {cs text rest : List Char} (read : decode cs = .ok (text, rest)) :
    skip cs = .ok rest := by
  fun_induction decode cs generalizing text with
  | case1 => cases read
  | case2 =>
      cases read
      rw [skip]
  | case3 => cases read
  | case4 => cases read
  | case5 _ _ _ code ih =>
      rcases exists_decode read with ⟨found, inner⟩
      rw [skip_codedChar code]
      exact ih inner
  | case6 => cases read
  | case7 letter behind notCode c means ih =>
      rcases exists_decode read with ⟨found, inner⟩
      rw [skip, means]
      · exact ih inner
      · exact notCode
  | case8 => cases read
  | case9 c behind notQuote notLast notCode notLetter plain ih =>
      rcases exists_decode read with ⟨found, inner⟩
      rw [skip, if_neg plain]
      · exact ih inner
      all_goals assumption

end Quoted

namespace Number

/-! ## Numbers -/

/-- The parts of the number at the front of a text, with its sign. -/
def signedParts (cs : List Char) : Except Problem (Parts × List Char) :=
  match cs with
  | '-' :: cs => parts true cs
  | cs => parts false cs

theorem decode_eq (cs : List Char) :
    decode cs = signedParts cs >>= fun (found, rest) =>
      match found.value? with
      | some value => .ok (value, rest)
      | none => .error .malformed := by
  rw [decode.eq_def]
  dsimp only
  split
  · rfl
  · next positive =>
      rw [signedParts]
      · rfl
      · exact positive

theorem decode_eq_ok {cs rest : List Char} {value : Value} (read : decode cs = .ok (value, rest)) :
    ∃ found, signedParts cs = .ok (found, rest) ∧ found.value? = some value := by
  rw [decode_eq] at read
  rcases bind_eq_ok.1 read with ⟨⟨found, behind⟩, start, same⟩
  dsimp only at same
  split at same
  · next valued =>
      cases same
      exact ⟨found, start, valued⟩
  · cases same

theorem skip_eq (cs : List Char) :
    skip cs = match signedParts cs with
      | .ok (_, rest) => .ok rest
      | .error _ => .error .malformed := rfl

theorem skip_of_decode {cs rest : List Char} {value : Value} (read : decode cs = .ok (value, rest)) :
    skip cs = .ok rest := by
  rcases decode_eq_ok read with ⟨found, start, _⟩
  rw [skip_eq, start]

/-- A number is an integer or a double. -/
theorem Parts.value?_eq_some {found : Parts} {value : Value} (valued : found.value? = some value) :
    (∃ n, value = .int n) ∨ ∃ x, value = .float x := by
  rw [value?] at valued
  dsimp only at valued
  split at valued
  · split at valued
    · exact .inl ⟨_, (Option.some.inj valued).symm⟩
    · split at valued
      · exact .inl ⟨_, (Option.some.inj valued).symm⟩
      · rcases Option.map_eq_some_iff.1 valued with ⟨_, _, same⟩
        exact .inr ⟨_, same.symm⟩
  · rcases Option.map_eq_some_iff.1 valued with ⟨_, _, same⟩
    exact .inr ⟨_, same.symm⟩

end Number

namespace Decoder

/-! ## Two decoders on one text -/

variable {α β γ δ σ τ : Type}

/-- Where both decoders succeed on a text, they leave the same rest and related results. -/
def Concur (related : α → β → Prop) (first : Decoder α) (second : Decoder β) : Prop :=
  ∀ cs found rest other behind, first cs = .ok (found, rest) → second cs = .ok (other, behind) →
    rest = behind ∧ related found other

section

variable {related : α → β → Prop} {relatedNext : γ → δ → Prop} {first : Decoder α}
  {second : Decoder β}

theorem concur_self (decoder : Decoder α) : Concur Eq decoder decoder := by
  intro cs found rest other behind read again
  cases read.symm.trans again
  exact ⟨rfl, rfl⟩

theorem concur_pure {found : α} {other : β} (holds : related found other) :
    Concur related (pure found) (pure other) := by
  rintro cs _ _ _ _ ⟨⟩ ⟨⟩
  exact ⟨rfl, holds⟩

theorem concur_throw (problem : Problem) (second : Decoder β) :
    Concur related (throw problem) second := by
  rintro cs _ _ _ _ ⟨⟩

theorem concur_throw_right (first : Decoder α) (problem : Problem) :
    Concur related first (throw problem) := by
  rintro cs _ _ _ _ _ ⟨⟩

theorem Concur.bind (agree : Concur related first second) {next : α → Decoder γ}
    {otherNext : β → Decoder δ}
    (later : ∀ found other, related found other →
      Concur relatedNext (next found) (otherNext other)) :
    Concur relatedNext (first >>= next) (second >>= otherNext) := by
  intro cs result rest otherResult behind read otherRead
  rcases bind_eq_ok.1 read with ⟨⟨found, middle⟩, start, ends⟩
  rcases bind_eq_ok.1 otherRead with ⟨⟨other, otherMiddle⟩, otherStart, otherEnds⟩
  have ⟨same, holds⟩ := agree _ _ _ _ _ start otherStart
  cases same
  exact later found other holds middle _ _ _ _ ends otherEnds

/-- The same first step, and then two decoders for whatever it has found. -/
theorem concur_after (step : Decoder α) {next : α → Decoder γ} {otherNext : α → Decoder δ}
    (later : ∀ found, Concur relatedNext (next found) (otherNext found)) :
    Concur relatedNext (step >>= next) (step >>= otherNext) :=
  (concur_self step).bind fun found _ same => same ▸ later found

end

variable {related : σ → τ → Prop} {item : σ → Decoder σ} {other : τ → Decoder τ} {close : Char}

theorem concur_foldWithin
    (step : ∀ state mirror, related state mirror → Concur related (item state) (other mirror))
    (bound : List Char) {state : σ} {mirror : τ} (holds : related state mirror) :
    Concur related (foldWithin close item bound state) (foldWithin close other bound mirror) := by
  induction bound generalizing state mirror with
  | nil => exact concur_throw _ _
  | cons _ bound ih =>
      rw [foldWithin, foldWithin]
      apply concur_after
      intro head
      cases head with
      | none => exact concur_throw _ _
      | some c =>
          dsimp only
          split
          · exact concur_after _ fun _ => concur_pure holds
          · split
            · exact concur_after _ fun _ => (step _ _ holds).bind fun _ _ => ih
            · exact concur_throw _ _

/-- Items that are read in two ways, one after the other, leave related states. -/
theorem concur_fold
    (step : ∀ state mirror, related state mirror → Concur related (item state) (other mirror))
    {start : σ} {mirror : τ} (holds : related start mirror) :
    Concur related (fold close item start) (fold close other mirror) := by
  rw [fold, fold]
  apply concur_after
  intro head
  cases head with
  | none => exact concur_throw _ _
  | some c =>
      dsimp only
      split
      · exact concur_after _ fun _ => concur_pure holds
      · refine (step _ _ holds).bind fun _ _ later => ?_
        exact concur_after _ fun bound => concur_foldWithin step bound later

/-! ## Values -/

/-- How a value without brackets is read: the text in front of it, the text behind it, and what it
is. -/
inductive ReadsScalar : List Char → List Char → Value → Prop
  | null {tail rest} (read : word "null".toList ('n' :: tail) = .ok ((), rest)) :
      ReadsScalar ('n' :: tail) rest .null
  | yes {tail rest} (read : word "true".toList ('t' :: tail) = .ok ((), rest)) :
      ReadsScalar ('t' :: tail) rest (.boolean true)
  | no {tail rest} (read : word "false".toList ('f' :: tail) = .ok ((), rest)) :
      ReadsScalar ('f' :: tail) rest (.boolean false)
  | string {tail rest text} (read : string tail = .ok (text, rest)) :
      ReadsScalar ('"' :: tail) rest (.string text)
  | number {c tail rest value} (starts : (c = '-' || c.isDigit) = true)
      (read : Number.decode (c :: tail) = .ok (value, rest)) : ReadsScalar (c :: tail) rest value

/-- How a value is read with at most so many brackets open at once. -/
inductive ReadsValue : Nat → List Char → List Char → Value → Prop
  | array {depth tail rest items}
      (read : fold ']' (fun items => do return items ++ [← value depth]) [] tail =
        .ok (items, rest)) :
      ReadsValue (depth + 1) ('[' :: tail) rest (.array items)
  | object {depth tail rest members}
      (read : fold '}' (fun members => do
          let name ← name
          symbol ':'
          return Members.set name (← value depth) members) [] tail =
        .ok (members, rest)) :
      ReadsValue (depth + 1) ('{' :: tail) rest (.object members)
  | scalar {depth front rest value} (reads : ReadsScalar front rest value) :
      ReadsValue depth front rest value

/-- How a value is passed over. -/
inductive Skips : Nat → List Char → List Char → Prop
  | array {depth tail rest}
      (read : fold ']' (fun _ => skipUpTo depth) () tail = .ok ((), rest)) :
      Skips (depth + 1) ('[' :: tail) rest
  | object {depth tail rest}
      (read : fold '}' (fun _ => do
          symbol '"'
          skipScalar.skipString
          symbol ':'
          skipUpTo depth) () tail =
        .ok ((), rest)) :
      Skips (depth + 1) ('{' :: tail) rest
  | scalar {depth front rest} (read : skipScalar front = .ok ((), rest)) : Skips depth front rest

/-- The text from its first character on that is no space. -/
def front (cs : List Char) : List Char := cs.dropWhile isSpace

theorem front_front (cs : List Char) : front (front cs) = front cs := List.dropWhile_idempotent _ _

theorem peek_bind (next : Option Char → Decoder α) (cs : List Char) :
    (peek >>= next) cs = next (front cs).head? (front cs) := rfl

theorem word_eq_ok {text cs rest : List Char} {value result : Value}
    (read : (word text >>= fun _ => pure value) cs = .ok (result, rest)) :
    word text cs = .ok ((), rest) ∧ value = result := by
  rcases bind_eq_ok.1 read with ⟨⟨_, behind⟩, found, same⟩
  cases same
  exact ⟨found, rfl⟩

theorem readsScalar {cs rest : List Char} {value : Value} (read : scalar cs = .ok (value, rest)) :
    ReadsScalar (front cs) rest value := by
  rw [scalar, peek_bind] at read
  generalize head : (front cs).head? = found at read
  split at read
  · cases read
  · rcases List.head?_eq_some_iff.1 head with ⟨tail, same⟩
    rw [same] at read ⊢
    obtain ⟨found, rfl⟩ := word_eq_ok read
    exact .null found
  · rcases List.head?_eq_some_iff.1 head with ⟨tail, same⟩
    rw [same] at read ⊢
    obtain ⟨found, rfl⟩ := word_eq_ok read
    exact .yes found
  · rcases List.head?_eq_some_iff.1 head with ⟨tail, same⟩
    rw [same] at read ⊢
    obtain ⟨found, rfl⟩ := word_eq_ok read
    exact .no found
  · rcases List.head?_eq_some_iff.1 head with ⟨tail, same⟩
    rw [same] at read ⊢
    rcases map_eq_ok.1 read with ⟨⟨text, behind⟩, found, ends⟩
    cases ends
    exact .string found
  · rcases List.head?_eq_some_iff.1 head with ⟨tail, same⟩
    rw [same] at read ⊢
    split at read
    · next starts => exact .number starts read
    · cases read

theorem readsValue {depth : Nat} {cs rest : List Char} {value : Value}
    (read : Decoder.value depth cs = .ok (value, rest)) :
    ReadsValue depth (front cs) rest value := by
  have around : ∃ nested, valueAround nested cs = .ok (value, rest) ∧
      ∀ item, nested = some item → ∃ inner, depth = inner + 1 ∧ item = Decoder.value inner := by
    cases depth with
    | zero => exact ⟨none, read, nofun⟩
    | succ inner => exact ⟨some (Decoder.value inner), read, fun _ same => ⟨inner, rfl, by cases same; rfl⟩⟩
  rcases around with ⟨nested, around, deep⟩
  rw [valueAround, peek_bind] at around
  generalize head : (front cs).head? = found at around
  split at around
  · next item =>
      rcases List.head?_eq_some_iff.1 head with ⟨tail, same⟩
      rcases deep item rfl with ⟨inner, rfl, rfl⟩
      rw [same] at around ⊢
      rcases bind_eq_ok.1 around with ⟨⟨items, behind⟩, found, ends⟩
      cases ends
      exact .array found
  · next item =>
      rcases List.head?_eq_some_iff.1 head with ⟨tail, same⟩
      rcases deep item rfl with ⟨inner, rfl, rfl⟩
      rw [same] at around ⊢
      rcases bind_eq_ok.1 around with ⟨⟨members, behind⟩, found, ends⟩
      cases ends
      exact .object found
  · have reads := readsScalar around
    rw [front_front] at reads
    exact .scalar reads

theorem skipScalar_front (cs : List Char) : skipScalar (front cs) = skipScalar cs := by
  rw [skipScalar, peek_bind, peek_bind, front_front]

theorem skips {depth : Nat} {cs rest : List Char} (read : skipUpTo depth cs = .ok ((), rest)) :
    Skips depth (front cs) rest := by
  cases depth with
  | zero =>
      rw [skipUpTo, ← skipScalar_front] at read
      exact .scalar read
  | succ inner =>
      rw [skipUpTo, peek_bind] at read
      generalize head : (front cs).head? = found at read
      split at read
      · rcases List.head?_eq_some_iff.1 head with ⟨tail, same⟩
        rw [same] at read ⊢
        exact .array read
      · rcases List.head?_eq_some_iff.1 head with ⟨tail, same⟩
        rw [same] at read ⊢
        exact .object read
      · exact .scalar read

/-- What is read off a whole text is read off its front. -/
theorem run_eq_ok {decoder : Decoder α} {s : String} {found : α} (read : run decoder s = .ok found) :
    ∃ rest, decoder s.toList = .ok (found, rest) := by
  rcases bind_eq_ok.1 read with ⟨⟨result, rest⟩, started, ends⟩
  dsimp only at ends
  split at ends
  · cases ends
    exact ⟨rest, started⟩
  · cases ends

/-- A value without brackets that is read is passed over. -/
theorem skipScalar_of_readsScalar {cs rest : List Char} {value : Value}
    (reads : ReadsScalar cs rest value) : skipScalar cs = .ok ((), rest) := by
  cases reads with
  | null read => exact read
  | yes read => exact read
  | no read => exact read
  | @string tail _ text read =>
      rcases bind_eq_ok.1 read with ⟨⟨found, behind⟩, decoded, same⟩
      cases same
      have skipped := Quoted.skip_of_decode decoded
      change (do return ((), ← Quoted.skip tail) : Except Problem (Unit × List Char)) = _
      rw [skipped]
      rfl
  | @number c tail _ _ starts read =>
      have space : isSpace c = false := by
        rcases Bool.or_eq_true_iff.1 starts with sign | digit
        · rw [of_decide_eq_true sign]
          rfl
        · exact isSpace_of_isDigit digit
      have number : skipScalar.skipNumber (c :: tail) = .ok ((), rest) := by
        change (do return ((), ← Number.skip (c :: tail)) : Except Problem (Unit × List Char)) = _
        rw [Number.skip_of_decode read]
        rfl
      rw [skipScalar, bind_eq (peek_cons space tail)]
      refine (congrFun (?_ : _ = skipScalar.skipNumber) _).trans number
      split
      · next same => cases same
      · next same => cases same; cases starts
      · next same => cases same; cases starts
      · next same => cases same; cases starts
      · next same => cases same; cases starts
      · next same =>
          cases same
          exact if_pos starts

theorem ReadsScalar.rest_eq {bound : Nat} {cs rest behind : List Char} {value : Value}
    (reads : ReadsScalar cs rest value) (passed : Skips bound cs behind) : rest = behind := by
  have skipped := skipScalar_of_readsScalar reads
  cases passed with
  | array => cases skipped
  | object => cases skipped
  | scalar read =>
      cases skipped.symm.trans read
      rfl

theorem concur_string_skipString : Concur (fun _ _ => True) string skipScalar.skipString := by
  intro cs text rest _ behind read skipped
  rcases bind_eq_ok.1 read with ⟨⟨found, middle⟩, decoded, same⟩
  rcases bind_eq_ok.1 skipped with ⟨passed, skip, same'⟩
  cases same
  cases same'
  cases (Quoted.skip_of_decode decoded).symm.trans skip
  exact ⟨rfl, trivial⟩

/-- Where a value is read and passed over, both end at one place. -/
theorem concur_value_skipUpTo (depth bound : Nat) :
    Concur (fun _ _ => True) (Decoder.value depth) (skipUpTo bound) := by
  induction depth generalizing bound with
  | zero =>
      intro cs found rest _ behind read skipped
      cases readsValue read with
      | scalar reads => exact ⟨reads.rest_eq (skips skipped), trivial⟩
  | succ depth ih =>
      intro cs found rest _ behind read skipped
      have reads := readsValue read
      have passed := skips skipped
      generalize front cs = start at reads passed
      -- Both look at the same first character, so a bracket is one for both or for neither.
      cases reads with
      | scalar reads => exact ⟨reads.rest_eq passed, trivial⟩
      | array folded =>
          cases passed with
          | scalar skipped => cases skipped
          | @array bound _ _ skipped =>
              have step (items : Values) (_ : Unit) (_ : True) : Concur (fun _ _ => True)
                  (do return items ++ [← Decoder.value depth]) (skipUpTo bound) := by
                rw [← bind_pure (skipUpTo bound)]
                exact (ih bound).bind fun _ _ _ => concur_pure trivial
              exact concur_fold step trivial _ _ _ _ _ folded skipped
      | object folded =>
          cases passed with
          | scalar skipped => cases skipped
          | @object bound _ _ skipped =>
              have names : Concur (fun _ _ => True) name
                  (symbol '"' >>= fun _ => skipScalar.skipString) :=
                concur_after _ fun _ => concur_string_skipString
              have step (members : Members) (_ : Unit) (_ : True) : Concur (fun _ _ => True)
                  (do
                    let name ← name
                    symbol ':'
                    return Members.set name (← Decoder.value depth) members)
                  (do
                    symbol '"'
                    skipScalar.skipString
                    symbol ':'
                    skipUpTo bound) := by
                rw [← bind_pure (skipUpTo bound), ← bind_assoc]
                refine names.bind fun _ _ _ => concur_after _ fun _ => ?_
                exact (ih bound).bind fun _ _ _ => concur_pure trivial
              exact concur_fold step trivial _ _ _ _ _ folded skipped

theorem concur_value_skip (depth : Nat) :
    Concur (fun _ _ => True) (Decoder.value depth) skip :=
  fun cs _ _ _ _ read skipped =>
    concur_value_skipUpTo depth cs.length cs _ _ _ _ read skipped

/-! ## Values of a shape -/

theorem value_front (depth : Nat) (cs : List Char) :
    Decoder.value depth (front cs) = Decoder.value depth cs := by
  have around (nested : Option (Decoder Value)) :
      valueAround nested (front cs) = valueAround nested cs := by
    rw [valueAround, peek_bind, peek_bind, front_front]
  cases depth with
  | zero => exact around none
  | succ depth => exact around _

/-- A value is read as a part of a shape by reading any value and asking what it stands for. -/
theorem concur_require (decoder : Decoder α) (part? : α → Option β) :
    Concur (fun found part => part? found = some part) decoder
      (decoder >>= fun found => require (part? found)) := by
  intro cs found rest part behind read required
  rw [bind_eq read] at required
  cases asked : part? found with
  | none =>
      rw [asked] at required
      cases required
  | some other =>
      rw [asked] at required
      cases required
      exact ⟨rfl, asked⟩

theorem wrongShape_ne_ok {cs : List Char} {result : α × List Char} : wrongShape cs ≠ .ok result := by
  intro read
  rw [wrongShape, peek_bind] at read
  generalize (front cs).head? = head at read
  split at read
  · cases read
  · cases read
  · rcases bind_eq_ok.1 read with ⟨_, _, failed⟩
    cases failed

/-- Any value that is read as a string is that string. -/
theorem concur_value_text (depth : Nat) :
    Concur (fun value text => value = .string text) (Decoder.value depth) text := by
  intro cs value rest found behind read shaped
  have reads := readsValue read
  rw [text, peek_bind] at shaped
  generalize head : (front cs).head? = first at shaped
  split at shaped
  · rcases List.head?_eq_some_iff.1 head with ⟨tail, same⟩
    rw [same] at reads shaped
    have spelled : string tail = .ok (found, behind) := shaped
    cases reads with
    | scalar reads =>
        cases reads with
        | string inner =>
            cases inner.symm.trans spelled
            exact ⟨rfl, rfl⟩
        | number starts => cases starts
  · exact absurd shaped wrongShape_ne_ok

theorem word_null_of_readsValue {depth : Nat} {tail rest : List Char} {value : Value}
    (reads : ReadsValue depth ('n' :: tail) rest value) :
    word "null".toList ('n' :: tail) = .ok ((), rest) ∧ value = .null := by
  cases reads with
  | scalar reads =>
      cases reads with
      | null read => exact ⟨read, rfl⟩
      | number starts => cases starts

theorem head_of_readsValue {depth : Nat} {cs rest : List Char}
    (reads : ReadsValue depth cs rest .null) : cs.head? = some 'n' := by
  cases reads with
  | scalar reads =>
      cases reads with
      | null => rfl
      | number _ read =>
          rcases Number.decode_eq_ok read with ⟨found, _, valued⟩
          rcases Number.Parts.value?_eq_some valued with ⟨_, same⟩ | ⟨_, same⟩ <;> cases same

/-- A part that may be null is absent for null and for no other value. -/
theorem concur_orNull {depth : Nat} {item : Decoder α} {related : Value → α → Prop}
    (agree : Concur related (Decoder.value depth) item) :
    Concur (fun value part => value = .null ∧ part = none ∨
        value ≠ .null ∧ ∃ found, part = some found ∧ related value found)
      (Decoder.value depth) (orNull item) := by
  intro cs value rest part behind read shaped
  have reads := readsValue read
  rw [orNull, peek_bind] at shaped
  generalize head : (front cs).head? = first at shaped
  split at shaped
  · rcases List.head?_eq_some_iff.1 head with ⟨tail, same⟩
    rw [same] at reads shaped
    rcases bind_eq_ok.1 shaped with ⟨⟨_, middle⟩, found, same⟩
    cases same
    have ⟨null, isNull⟩ := word_null_of_readsValue reads
    cases null.symm.trans found
    exact ⟨rfl, .inl ⟨isNull, rfl⟩⟩
  · next notNull =>
      rcases map_eq_ok.1 shaped with ⟨⟨found, middle⟩, inner, same⟩
      cases same
      rw [← value_front] at read
      have ⟨same, holds⟩ := agree _ _ _ _ _ read inner
      refine ⟨same, .inr ⟨?_, found, rfl, holds⟩⟩
      rintro rfl
      exact notNull (head.symm.trans (head_of_readsValue reads))

end Decoder

end PersistedDocuments.Json
