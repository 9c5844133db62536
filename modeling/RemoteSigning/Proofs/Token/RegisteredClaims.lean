import RemoteSigning.Token.Claims
import RemoteSigning.Proofs.Json.Lenient

/-!
# Registered claims

The registered claims are read beside the claims of a token, and what they say never matters. Beside
claims that were read, they stop a token only if the claims are an array, or if one of the registered
ones is written twice, or so that its lenient reader does not come to its end.
-/

namespace RemoteSigning.Token

open Json

/-- The registered claims of an object as written, in its order. -/
def registeredIn : Members → List (String × Document)
  | .next (.ok name) value rest =>
    if (registered.lookup name).isSome then (name, value) :: registeredIn rest
    else registeredIn rest
  | .next (.error _) _ rest => registeredIn rest
  | _ => []

/-- Whether the lenient reader of a registered claim comes to the end of its value. -/
def IsTakenIn (place : Place) (claim : String × Document) : Prop :=
  ∃ leniency, registered.lookup claim.1 = some leniency ∧ leniency.accepts place claim.2

theorem field?_registeredForm (name : String) :
    registeredForm.field? name =
      (registered.lookup name).map fun leniency => registeredField (name, leniency) := by
  have hFind (claims : List (String × Leniency)) :
      ((claims.map registeredField).find? fun f => f.name == name || f.aliases.contains name) =
        (claims.lookup name).map fun leniency => registeredField (name, leniency) := by
    induction claims with
    | nil => rfl
    | cons claim claims ih =>
        obtain ⟨k, leniency⟩ := claim
        by_cases hSame : name = k
        · subst hSame
          simp [registeredField]
        · have hLookup : (name == k) = false := beq_false_of_ne hSame
          have hField : ((registeredField (k, leniency)).name == name ||
              (registeredField (k, leniency)).aliases.contains name) = false := by
            simpa [registeredField] using Ne.symm hSame
          rw [List.map_cons, List.find?_cons, hField, List.lookup_cons, hLookup]
          exact ih
  exact hFind registered

/-- A registered claim is read if it is there for the first time and its value is taken in. -/
theorem readMembers_registered {name : String} {leniency : Leniency}
    (hLookup : registered.lookup name = some leniency) {place : Place} {seen : List String}
    {value : Document} {rest : Members} :
    registeredForm.readMembers place seen () (.next (.ok name) value rest) = .ok () ↔
      (IsTakenIn place (name, value) ∧ name ∉ seen) ∧
        registeredForm.readMembers place (name :: seen) () rest = .ok () := by
  have hTaken : IsTakenIn place (name, value) ↔ leniency.accepts place value = true := by
    simp [IsTakenIn, hLookup]
  rw [hTaken, Record.readMembers]
  simp only [liftFault, Except.mapError_ok, Except.ok_bind, field?_registeredForm, hLookup,
    Option.map_some]
  by_cases hSeen : name ∈ seen <;> by_cases hAccepts : leniency.accepts place value = true <;>
    simp [registeredField, hSeen, hAccepts]

theorem readMembers_unregistered {name : String} (hLookup : registered.lookup name = none)
    {value : Document} (hSkip : value.skip = none) {place : Place} {seen : List String}
    {rest : Members} :
    registeredForm.readMembers place seen () (.next (.ok name) value rest) =
      registeredForm.readMembers place seen () rest := by
  rw [Record.readMembers]
  simp only [liftFault, Except.mapError_ok, Except.ok_bind, field?_registeredForm, hLookup,
    Option.map_none]
  simp [Record.readUndeclared, registeredForm, hSkip]

/-- There is nothing wrong inside a text or a number that was read. -/
theorem skip_of_declared {f : Record.Field Claims} (hField : f ∈ Claims.form.fields) {place : Place}
    {value : Document} {x y : Claims} (h : f.read place value x = .ok y) : value.skip = none := by
  simp only [Claims.form, List.mem_cons, List.not_mem_nil, or_false] at hField
  rcases hField with rfl | rfl <;>
    simp only [Record.Field.mandatory, Record.Field.reading, Except.bind_eq_ok] at h <;>
    obtain ⟨a, hRead, -⟩ := h
  · unfold Decoder.string at hRead
    split at hRead
    · simp [Document.skip]
    · cases hRead
  · unfold Decoder.u64 at hRead
    split at hRead
    · simp [Document.skip]
    · cases hRead

/-- Where the claims are read past a member, its name is whole and there is nothing wrong inside its
value. -/
theorem Claims.read_next {place : Place} {seen : List String} {x c : Claims}
    {name : Except Fault String} {value : Document} {rest : Members}
    (h : form.readMembers place seen x (.next name value rest) = .ok c) :
    ∃ k, name = .ok k ∧ value.skip = none ∧
      ∃ seen' x', form.readMembers place seen' x' rest = .ok c := by
  simp only [Record.readMembers, liftFault, Except.bind_eq_ok, Except.mapError_eq_ok] at h
  obtain ⟨k, rfl, h⟩ := h
  refine ⟨k, rfl, ?_⟩
  split at h
  · rename_i f hField
    split at h
    · cases h
    · obtain ⟨y, hRead, hRest⟩ := Except.bind_eq_ok.mp h
      exact ⟨skip_of_declared (List.mem_of_find?_eq_some hField) hRead, _, y, hRest⟩
  · obtain ⟨y, hRead, hRest⟩ := Except.bind_eq_ok.mp h
    refine ⟨?_, _, y, hRest⟩
    simp only [form, Record.readUndeclared] at hRead
    split at hRead
    · cases hRead
    · assumption

theorem readMembers_registered_iff : ∀ (members : Members) (seen : List String) {place : Place}
    {seen' : List String} {x c : Claims},
    Claims.form.readMembers place seen' x members = .ok c →
    (registeredForm.readMembers place seen () members = .ok () ↔
      (∀ claim ∈ registeredIn members, IsTakenIn place claim ∧ claim.1 ∉ seen) ∧
        ((registeredIn members).map (·.1)).Nodup)
  | .closed, seen, _, _, _, _, _ => by
      have hComplete : Record.checkComplete registeredForm.fields seen = .ok () := rfl
      simp [Record.readMembers, registeredIn, hComplete]
  | .stop _, _, _, _, _, _, h => by cases h
  | .nameless _, _, _, _, _, _, h => by cases h
  | .brokenName _ _, _, _, _, _, _, h => by cases h
  | .next name value rest, seen, _, _, _, _, h => by
      obtain ⟨k, rfl, hSkip, _, _, hRest⟩ := Claims.read_next h
      have ih (seen : List String) := readMembers_registered_iff rest seen hRest
      cases hLookup : registered.lookup k with
      | none =>
          rw [readMembers_unregistered hLookup hSkip, registeredIn, hLookup]
          exact ih seen
      | some leniency =>
          rw [readMembers_registered hLookup, ih, registeredIn, hLookup, Option.isSome_some,
            if_pos rfl, List.forall_mem_cons, List.map_cons, List.nodup_cons]
          constructor
          · rintro ⟨hFirst, hLater, hNodup⟩
            refine ⟨⟨hFirst, fun claim hClaim => ⟨(hLater claim hClaim).1, fun hSeen =>
              (hLater claim hClaim).2 (List.mem_cons_of_mem _ hSeen)⟩⟩, fun hTwice => ?_, hNodup⟩
            obtain ⟨claim, hClaim, rfl⟩ := List.mem_map.mp hTwice
            exact (hLater claim hClaim).2 List.mem_cons_self
          · rintro ⟨⟨hFirst, hLater⟩, hOnce, hNodup⟩
            refine ⟨hFirst, fun claim hClaim => ⟨(hLater claim hClaim).1, fun hSeen => ?_⟩, hNodup⟩
            rcases List.mem_cons.mp hSeen with hSame | hSeen
            · exact hOnce (List.mem_map.mpr ⟨claim, hClaim, hSame⟩)
            · exact (hLater claim hClaim).2 hSeen

theorem checkEnd_eq_ok {place : Place} {total : Nat} {items : Items} {u : Unit} :
    Record.checkEnd place total items = .ok u ↔ items = .closed := by
  unfold Record.checkEnd
  split
  · simp
  · split <;> simp_all

/-- Claims that are written as an array leave nothing for the registered claims that an array has to
have. -/
theorem readItems_registered_ne_ok {place : Place} {total total' index : Nat} {x c : Claims}
    {items : Items}
    (h : Claims.form.readItems place total index x Claims.form.fields items = .ok c) :
    registeredForm.readItems place total' 0 () registeredForm.fields items ≠ .ok () := by
  cases items with
  | closed => cases h
  | stop why => cases h
  | next first rest =>
      simp only [Claims.form, Record.readItems, Except.bind_eq_ok] at h
      obtain ⟨x, -, h⟩ := h
      cases rest with
      | closed => cases h
      | stop why => cases h
      | next second rest =>
          simp only [Record.readItems, Except.bind_eq_ok, checkEnd_eq_ok] at h
          obtain ⟨_, -, _, rfl, -⟩ := h
          intro hRegistered
          simp only [registeredForm, registered, List.map_cons, Record.readItems,
            Except.bind_eq_ok] at hRegistered
          obtain ⟨_, -, _, -, hSubject⟩ := hRegistered
          cases hSubject

/-- Beside claims that are read, the registered claims are read exactly if all are members of an
object, none is written twice and the value of each is taken in. -/
theorem decoder_registered_iff {place : Place} {d : Document} {c : Claims}
    (h : Claims.form.decoder place d = .ok c) :
    registeredForm.decoder place d = .ok () ↔
      ∃ members inner, d = .object members ∧ place.enter = .ok inner ∧
        (∀ claim ∈ registeredIn members, IsTakenIn inner claim) ∧
          ((registeredIn members).map (·.1)).Nodup := by
  cases d with
  | object members =>
      simp only [Record.decoder, liftFault, Except.bind_eq_ok, Except.mapError_eq_ok] at h ⊢
      obtain ⟨inner, hEnter, hClaims⟩ := h
      have hRead := readMembers_registered_iff members [] hClaims
      simp only [List.not_mem_nil, not_false_iff, and_true] at hRead
      constructor
      · rintro ⟨inner', hEnter', hRegistered⟩
        obtain rfl : inner = inner' := Except.ok.inj (hEnter.symm.trans hEnter')
        exact ⟨members, inner, rfl, hEnter, hRead.mp hRegistered⟩
      · rintro ⟨_, inner', hSame, hEnter', hTaken⟩
        cases hSame
        obtain rfl : inner = inner' := Except.ok.inj (hEnter.symm.trans hEnter')
        exact ⟨inner, hEnter, hRead.mpr hTaken⟩
  | array items =>
      constructor
      · intro hRegistered
        simp only [Record.decoder, Claims.form, registeredForm, liftFault, Except.bind_eq_ok,
          Except.mapError_eq_ok] at h hRegistered
        obtain ⟨inner, hEnter, hClaims⟩ := h
        obtain ⟨inner', hEnter', hRead⟩ := hRegistered
        obtain rfl : inner = inner' := Except.ok.inj (hEnter.symm.trans hEnter')
        exact absurd hRead (readItems_registered_ne_ok hClaims)
      · rintro ⟨members, _, hSame, -⟩
        cases hSame
  | _ => cases h

theorem decoder_start_iff {d : Document} {c : Claims}
    (h : Claims.form.decoder Place.start d = .ok c) :
    registeredForm.decoder Place.start d = .ok () ↔
      ∃ members, d = .object members ∧
        (∀ claim ∈ registeredIn members, IsTakenIn (.text 127) claim) ∧
          ((registeredIn members).map (·.1)).Nodup := by
  rw [decoder_registered_iff h]
  constructor
  · rintro ⟨members, inner, rfl, hEnter, hTaken⟩
    obtain rfl := Except.ok.inj hEnter
    exact ⟨members, rfl, hTaken⟩
  · rintro ⟨members, rfl, hTaken⟩
    exact ⟨members, _, rfl, rfl, hTaken⟩

/-- A registered claim without a fault is taken in, whatever it says, unless it is an array or object
that its reader does not read. -/
theorem isTakenIn_of_value {place : Place} {claim : String × Document} {value : Value}
    (hRegistered : (registered.lookup claim.1).isSome) (h : claim.2.value place = .ok value)
    (hRead : claim.1 ∈ ["iss", "aud"] ∨ value.IsScalar) : IsTakenIn place claim := by
  obtain ⟨leniency, hLookup⟩ := Option.isSome_iff_exists.mp hRegistered
  refine ⟨leniency, hLookup, Leniency.accepts_of_value h (hRead.imp_left fun hName => ?_)⟩
  simp only [List.mem_cons, List.not_mem_nil, or_false] at hName
  obtain hName | hName := hName <;> rw [hName] at hLookup <;> exact (Option.some.inj hLookup).symm

end RemoteSigning.Token
