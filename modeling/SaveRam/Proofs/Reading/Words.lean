import SaveRam.Behavior.Reading
import SaveRam.Proofs.Token.Words

/-!
# Programs read from words

The program of a text is made of the values in front of the first token without
one, three at a time: `Reading.program_ofText`.

The tokens of the words that are numerals as a whole are those words.  Behind the
first other word reading need not stop, because this word may begin with a numeral:
`1.5` is a one in front of a token without a value, and `09` is a zero and a nine.
`Reading.program_of_words` says what such words add to the program, and when they
add nothing.
-/

namespace SaveRam

namespace Program

/-- The triples made of the values, three at a time.  Up to two values at the end are
left over. -/
def ofValues : List Int64 → Program
  | opcode :: param1 :: param2 :: vs => ⟨opcode, param1, param2⟩ :: ofValues vs
  | _ => []

theorem length_ofValues (vs : List Int64) : (ofValues vs).length = vs.length / 3 := by
  induction vs using ofValues.induct with
  | case1 opcode param1 param2 vs ih =>
    simp only [ofValues, List.length_cons, ih]
    omega
  | case2 vs h =>
    match vs, h with
    | [], _ | [_], _ | [_, _], _ => simp [ofValues]
    | a :: b :: c :: vs, h => exact absurd rfl (h a b c vs)

/-- Further values leave the triples of the first ones as they are. -/
theorem ofValues_isPrefix_append (vs us : List Int64) : ofValues vs <+: ofValues (vs ++ us) := by
  induction vs using ofValues.induct with
  | case1 opcode param1 param2 vs ih => exact List.cons_prefix_cons.2 ⟨rfl, ih⟩
  | case2 vs h =>
    rw [ofValues]
    · exact List.nil_prefix
    · exact h

/-- Further values make no triple as long as they are too few to fill up one. -/
theorem ofValues_append_eq_iff {vs us : List Int64} :
    ofValues (vs ++ us) = ofValues vs ↔ vs.length % 3 + us.length < 3 := by
  have hlength : (ofValues (vs ++ us)).length = (ofValues vs).length ↔
      vs.length % 3 + us.length < 3 := by
    rw [length_ofValues, length_ofValues, List.length_append]
    omega
  rw [← hlength]
  exact ⟨congrArg List.length,
    fun h => ((ofValues_isPrefix_append vs us).eq_of_length h.symm).symm⟩

end Program

namespace Reading

/-! ## Values of tokens -/

/-- The values in front of the first one that is missing. -/
def leading : List (Option Int64) → List Int64
  | some v :: vs => v :: leading vs
  | _ => []

/-- The values read since the last complete triple, in order. -/
def Pending.values : Pending → List Int64
  | .none => []
  | .one opcode => [opcode]
  | .two opcode param1 => [opcode, param1]

theorem program_collect (acc : Array Triple) (pending : Pending) (ts : List Token) :
    (collect acc pending ts).program =
      acc.toList ++ .ofValues (pending.values ++ leading (ts.map Token.value)) := by
  induction ts generalizing acc pending with
  | nil => cases pending <;> simp [collect, leading, Pending.values, Program.ofValues]
  | cons t ts ih =>
    cases hv : t.value with
    | none => cases pending <;> simp [collect, hv, leading, Pending.values, Program.ofValues]
    | some v =>
      cases pending <;> simp [collect, hv, ih, leading, Pending.values, Program.ofValues]

/-- The values in front of the first token without one are taken three at a time. -/
theorem program_ofText (text : String) :
    (ofText text).program = .ofValues (leading (Token.values text.toList)) :=
  program_collect #[] .none (Token.scan text)

/-! ## Values of words -/

/-- The words that are whole come first, and then the tokens of all other words. -/
theorem leading_flatMap_values (ws : List (List Char)) :
    leading (ws.flatMap Token.values) =
      leading (ws.map Token.whole?) ++
        leading ((ws.drop (leading (ws.map Token.whole?)).length).flatMap Token.values) := by
  induction ws with
  | nil => rfl
  | cons w ws ih =>
    cases hw : Token.whole? w with
    | none =>
      simp only [List.map_cons, hw, leading, List.length_nil, List.drop_zero, List.nil_append]
    | some v =>
      simp only [List.map_cons, hw, leading, List.length_cons, List.drop_succ_cons,
        List.flatMap_cons, Token.values_of_whole hw, List.cons_append, List.nil_append]
      rw [← ih]

/-- The program of a text has the triples of its words `vs` up to the first one that is
no whole number.  What the rest of the words is cut into counts as well, and is not
noticed exactly if it does not complete a triple. -/
theorem program_of_words (text : String) :
    let ws := Token.words text.toList
    let vs := leading (ws.map Token.whole?)
    let more := leading ((ws.drop vs.length).flatMap Token.values)
    (ofText text).program = .ofValues (vs ++ more) ∧
      ((ofText text).program = .ofValues vs ↔ vs.length % 3 + more.length < 3) := by
  intro ws vs more
  have hprogram : (ofText text).program = .ofValues (vs ++ more) := by
    rw [program_ofText, Token.values_eq_flatMap_words, leading_flatMap_values]
  exact ⟨hprogram, by rw [hprogram, Program.ofValues_append_eq_iff]⟩

/-- The first two words are whole, and the third one brings the triple that they lack
before reading stops inside of it. -/
theorem program_of_words_fraction :
    let text := "1 0xa000 1.5"
    let ws := Token.words text.toList
    ws.map Token.whole? = [some 1, some 0xa000, none] ∧
      (ofText text).program = [⟨1, 0xa000, 1⟩] ∧
      (ofText text).program ≠ .ofValues (leading (ws.map Token.whole?)) := by
  intro text ws
  have hws : ws.map Token.whole? = [some 1, some 0xa000, none] := by decide
  have hvalues : Token.values text.toList = [some 1, some 0xa000, some 1, none, some 5] := by
    decide +kernel
  have hprogram : (ofText text).program = [⟨1, 0xa000, 1⟩] := by
    rw [program_ofText, hvalues]
    rfl
  refine ⟨hws, hprogram, ?_⟩
  rw [hws, hprogram]
  exact List.cons_ne_nil _ _

end Reading

end SaveRam
