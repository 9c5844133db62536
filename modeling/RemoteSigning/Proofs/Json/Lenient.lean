import RemoteSigning.Json.Lenient
import RemoteSigning.Proofs.Results

/-!
# Values that lenient readers take in

Where a value has no fault, a lenient reader that reads all of it comes to its end. One that does not
enter arrays and objects, or reads nothing in them, does so at least for everything else.
-/

namespace RemoteSigning.Json

/-- Whether a value is no array and no object. -/
def Value.IsScalar : Value → Prop
  | .array _ | .object _ => False
  | _ => True

mutual

/-- By induction on the document: what has a value has been read to its end, and so has all that is
in it. -/
theorem Document.isTakenIn_of_value {place : Place} :
    ∀ {d : Document} {v : Value}, d.value place = .ok v → d.isTakenIn place = true
  | .null, _, _ | .bool _, _, _ | .number (.ok _), _, _ | .string (.ok _), _, _ => rfl
  | .number (.error _), _, h | .string (.error _), _, h => by cases h
  | .brokenNull _, _, h | .brokenScalar _ _, _, h | .broken _ _, _, h => by cases h
  | .array items, v, h => by
      simp only [Document.value, Except.bind_eq_ok] at h
      obtain ⟨inner, hEnter, values, hValues, -⟩ := h
      rw [Document.isTakenIn, hEnter]
      exact items.isTakenIn_of_values hValues
  | .object members, v, h => by
      simp only [Document.value, Except.bind_eq_ok] at h
      obtain ⟨inner, hEnter, values, hValues, -⟩ := h
      rw [Document.isTakenIn, hEnter]
      exact members.isTakenIn_of_values hValues

theorem Items.isTakenIn_of_values {place : Place} :
    ∀ (items : Items) {values : List Value}, items.values place = .ok values →
      items.isTakenIn place = true
  | .closed, _, _ => rfl
  | .stop _, _, h => by cases h
  | .next item rest, _, h => by
      simp only [Items.values, Except.bind_eq_ok] at h
      obtain ⟨v, hItem, values, hRest, -⟩ := h
      rw [Items.isTakenIn, hItem]
      exact rest.isTakenIn_of_values hRest

theorem Members.isTakenIn_of_values {place : Place} :
    ∀ (members : Members) {values : List (String × Value)}, members.values place = .ok values →
      members.isTakenIn place = true
  | .closed, _, _ => rfl
  | .stop _, _, h | .nameless _, _, h | .brokenName _ _, _, h => by cases h
  | .next name value rest, _, h => by
      simp only [Members.values, Except.bind_eq_ok] at h
      obtain ⟨k, rfl, v, hValue, values, hRest, -⟩ := h
      rw [Members.isTakenIn, hValue]
      exact rest.isTakenIn_of_values hRest

end

/-- What has no fault is taken in, by readers that do not read all of it only if it is scalar. -/
theorem Leniency.accepts_of_value {leniency : Leniency} {place : Place} {d : Document} {v : Value}
    (h : d.value place = .ok v) (hScalar : leniency = .whole ∨ v.IsScalar) :
    leniency.accepts place d = true := by
  have hTaken := Document.isTakenIn_of_value h
  obtain rfl | hScalar := hScalar
  · rwa [accepts]
  · cases d with
    | array _ | object _ =>
        simp only [Document.value, Except.bind_eq_ok] at h
        obtain ⟨inner, -, values, -, hSame⟩ := h
        cases hSame
        exact hScalar.elim
    | _ => cases leniency <;> exact hTaken

end RemoteSigning.Json
