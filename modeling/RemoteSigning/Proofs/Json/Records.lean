import RemoteSigning.Json.Decoder
import RemoteSigning.Proofs.Json.Ranges

/-!
# Records read back

Members that a record declares are read one after the other, each into its own place, in whatever
order they are written. And whatever every single member keeps true of a record, reading a whole
record makes true.
-/

namespace RemoteSigning.Json

variable {ρ α : Type}

/-- Whether a reader of values in memory gives `a` for a value, which is not `null`. -/
def Decoder.Reads (decoder : Decoder α) (v : Value) (a : α) : Prop :=
  v ≠ .null ∧ decoder .value (Document.ofValue v) = .ok a

/-- A string is read as itself. -/
theorem Decoder.reads_string (s : String) : Decoder.string.Reads (.string s) s :=
  ⟨Value.noConfusion, rfl⟩

theorem Decoder.reads_bool (b : Bool) : Decoder.bool.Reads (.bool b) b :=
  ⟨Value.noConfusion, rfl⟩

theorem Decoder.reads_u64 (n : Nat) : Decoder.u64.Reads (.integer n) n := by
  refine ⟨Value.noConfusion, ?_⟩
  simp [Document.ofValue, Decoder.u64]

/-- An integer is read if it fits. -/
theorem Decoder.reads_i64 {n : Int} (h : n < 2 ^ 63) : Decoder.i64.Reads (.integer n) n :=
  ⟨Value.noConfusion, if_pos h⟩

/-- An integer that was read fits. -/
theorem Decoder.lt_of_i64 {place : Place} {d : Document} {n : Int}
    (h : Decoder.i64 place d = .ok n) : n < 2 ^ 63 := by
  unfold Decoder.i64 at h
  split at h
  · split at h
    · rename_i hFits
      cases h
      exact hFits
    · cases h
  · cases h

/-- A canonical value other than `null` is read as itself. -/
theorem Decoder.reads_any {v : Value} (hNull : v ≠ .null) (hCanonical : v.IsCanonical) :
    Decoder.any.Reads v v := by
  refine ⟨hNull, ?_⟩
  rw [Decoder.any, value_ofValue v .value trivial, hCanonical.canonical_eq]
  rfl

/-- A choice is read from its name. -/
theorem Decoder.reads_choice {choices : List (String × α)} {name : String} {a : α}
    (h : choices.lookup name = some a) : (Decoder.choice choices).Reads (.string name) a := by
  refine ⟨Value.noConfusion, ?_⟩
  simp only [Document.ofValue, Decoder.choice, Decoder.choose, h]

/-- A list is read from what its items are read from. -/
theorem Decoder.reads_list {decoder : Decoder α} {write : α → Value} {l : List α}
    (h : ∀ a ∈ l, decoder.Reads (write a) a) :
    (Decoder.list decoder).Reads (.array (l.map write)) l := by
  refine ⟨Value.noConfusion, ?_⟩
  have hItems : Decoder.items decoder .value (Items.ofValues (l.map write)) = .ok l := by
    induction l with
    | nil => rfl
    | cons a l ih =>
        obtain ⟨hFirst, hRest⟩ := List.forall_mem_cons.mp h
        simp only [List.map_cons, Items.ofValues, Decoder.items, hFirst.2, Except.ok_bind, ih hRest]
        rfl
  exact hItems

/-- What may be absent is read if it is there. -/
theorem Decoder.Reads.option {decoder : Decoder α} {v : Value} {a : α} (h : decoder.Reads v a) :
    decoder.option .value (Document.ofValue v) = .ok (some a) := by
  obtain ⟨hNull, hRead⟩ := h
  cases v with
  | null => exact absurd rfl hNull
  | _ =>
      simp only [Document.ofValue] at hRead ⊢
      simp only [Decoder.option, hRead]
      rfl

/-- Where `null` may stand, what is read as present is not written as `null`. -/
theorem Decoder.of_option {decoder : Decoder α} {place : Place} {d : Document} {a : α}
    (h : decoder.option place d = .ok (some a)) : d ≠ .null ∧ decoder place d = .ok a := by
  unfold Decoder.option at h
  split at h
  · cases h
  · cases h
  · rename_i hNull _
    obtain ⟨b, hRead, hSome⟩ := Except.map_eq_ok.mp h
    cases hSome
    exact ⟨hNull, hRead⟩

namespace Record

/-- Reads one member of an object in memory. -/
def readMember (r : Record ρ) (place : Place) (x : ρ) (m : String × Value) : Except Error ρ :=
  match r.field? m.1 with
  | some f => f.read place (Document.ofValue m.2) x
  | none => readUndeclared r.undeclared place m.1 (Document.ofValue m.2) x

/-- A record is complete if all required members have been seen. -/
theorem checkComplete_eq_ok {fields : List (Field ρ)} {seen : List String} :
    checkComplete fields seen = .ok () ↔ ∀ f ∈ fields, f.required → f.name ∈ seen := by
  unfold checkComplete
  split
  · rename_i f hMissing
    obtain ⟨hRequired, hAbsent⟩ : f.required ∧ f.name ∉ seen := by
      simpa using List.find?_some hMissing
    constructor
    · intro h
      cases h
    · intro h
      exact absurd (h f (List.mem_of_find?_eq_some hMissing) hRequired) hAbsent
  · rename_i hNone
    simpa using hNone

/-- A member without aliases is declared under one name only. -/
theorem name_eq_of_field? {r : Record ρ} (hPlain : ∀ f ∈ r.fields, f.aliases = []) {name : String}
    {f : Field ρ} (h : r.field? name = some f) : f.name = name := by
  have hName := List.find?_some h
  simpa [hPlain f (List.mem_of_find?_eq_some h)] using hName

theorem field?_eq_none {r : Record ρ} {name : String} (h : r.field? name = none) {f : Field ρ}
    (hf : f ∈ r.fields) : f.name ≠ name := by
  have hOther := List.find?_eq_none.mp h f hf
  simp only [Bool.or_eq_true, not_or, beq_iff_eq] at hOther
  exact hOther.1

/-- Members with distinct names are read one after the other, if those that must be there are. -/
theorem readMembers_ofValues {r : Record ρ} (hPlain : ∀ f ∈ r.fields, f.aliases = [])
    {place : Place} {seen : List String} {x y : ρ} {members : List (String × Value)}
    (hDistinct : (members.map (·.1)).Nodup) (hUnseen : ∀ m ∈ members, m.1 ∉ seen)
    (hComplete : ∀ f ∈ r.fields, f.required → f.name ∈ seen ∨ f.name ∈ members.map (·.1))
    (hRead : members.foldlM (r.readMember place) x = .ok y) :
    r.readMembers place seen x (Members.ofValues members) = .ok y := by
  induction members generalizing seen x with
  | nil =>
      cases hRead
      have hEnd : checkComplete r.fields seen = .ok () :=
        checkComplete_eq_ok.mpr fun f hf hRequired => by simpa using hComplete f hf hRequired
      simp only [Members.ofValues, readMembers, hEnd, Except.ok_bind, Except.pure_eq_ok]
  | cons m rest ih =>
      obtain ⟨hNew, hRest⟩ := List.nodup_cons.mp hDistinct
      obtain ⟨hFirst, hLater⟩ := List.forall_mem_cons.mp hUnseen
      rw [List.foldlM_cons, Except.bind_eq_ok] at hRead
      obtain ⟨z, hMember, hRead⟩ := hRead
      simp only [Members.ofValues, readMembers, liftFault, Except.mapError_ok, Except.ok_bind]
      cases hField : r.field? m.1 with
      | some f =>
          have hName : f.name = m.1 := name_eq_of_field? hPlain hField
          have hOnce : seen.contains m.1 = false := by simpa using hFirst
          simp only [readMember, hField] at hMember
          simp only [hName, hOnce, Bool.false_eq_true, if_false, hMember, Except.ok_bind]
          refine ih hRest (fun n hn hSeen => ?_) (fun g hg hRequired => ?_) hRead
          · rcases List.mem_cons.mp hSeen with hSame | hSeen
            · exact hNew (List.mem_map.mpr ⟨n, hn, hSame⟩)
            · exact hLater n hn hSeen
          · rcases hComplete g hg hRequired with hSeen | hMembers
            · exact .inl (List.mem_cons_of_mem _ hSeen)
            · rcases List.mem_cons.mp hMembers with hSame | hRest
              · exact .inl (hSame ▸ List.mem_cons_self)
              · exact .inr hRest
      | none =>
          simp only [readMember, hField] at hMember
          simp only [hMember, Except.ok_bind]
          refine ih hRest hLater (fun g hg hRequired => ?_) hRead
          refine (hComplete g hg hRequired).imp_right fun hMembers => ?_
          exact (List.mem_cons.mp hMembers).resolve_left (field?_eq_none hField hg)

/-- The declared names of a record in order. -/
def names (r : Record ρ) : List String := r.fields.map (·.name)

/-- Without aliases a name stands for no member exactly if it is not declared. -/
theorem field?_eq_none_iff {r : Record ρ} (hPlain : ∀ f ∈ r.fields, f.aliases = []) {name : String} :
    r.field? name = none ↔ name ∉ r.names := by
  rw [field?, List.find?_eq_none, names, List.mem_map, not_exists]
  refine forall_congr' fun f => ⟨fun h hName => ?_, fun h hf => ?_⟩
  · exact h hName.1 (by simp [hName.2])
  · simp [hPlain f hf, show f.name ≠ name from fun hName => h ⟨hf, hName⟩]

/-- The names of the members that must be there. -/
def required (r : Record ρ) : List String := (r.fields.filter (·.required)).map (·.name)

/-- An object of members with distinct names is read one member after the other, if those that must
be there are. -/
theorem reads_object {r : Record ρ} {x : ρ} {members : List (String × Value)}
    (hPlain : ∀ f ∈ r.fields, f.aliases = []) (hDistinct : (members.map (·.1)).Nodup)
    (hComplete : r.required ⊆ members.map (·.1))
    (hRead : members.foldlM (r.readMember .value) r.empty = .ok x) :
    r.decoder.Reads (.object members) x := by
  refine ⟨Value.noConfusion, ?_⟩
  have hMembers : r.readMembers .value [] r.empty (Members.ofValues members) = .ok x := by
    refine readMembers_ofValues hPlain hDistinct (fun _ _ => List.not_mem_nil) ?_ hRead
    intro f hf hRequired
    exact .inr (hComplete (List.mem_map_of_mem (List.mem_filter.mpr ⟨hf, hRequired⟩)))
  exact hMembers

/-- A mandatory member is stored as it was read. -/
theorem readMember_mandatory {r : Record ρ} {x : ρ} {name : String} {v : Value} {a : α}
    {decoder : Decoder α} {store : α → ρ → ρ}
    (hField : r.field? name = some (.mandatory name decoder store)) (hRead : decoder.Reads v a) :
    r.readMember .value x (name, v) = .ok (store a x) := by
  simp only [readMember, hField, Field.mandatory, Field.reading, hRead.2]
  rfl

/-- So is a member with a default, if it is there. -/
theorem readMember_defaulted {r : Record ρ} {x : ρ} {name : String} {v : Value} {a : α}
    {decoder : Decoder α} {store : α → ρ → ρ}
    (hField : r.field? name = some (.defaulted name decoder store))
    (hRead : decoder .value (Document.ofValue v) = .ok a) :
    r.readMember .value x (name, v) = .ok (store a x) := by
  simp only [readMember, hField, Field.defaulted, Field.reading, hRead]
  rfl

/-- A member that may be absent is stored, whether it is there or not. -/
theorem foldlM_optional {r : Record ρ} {x : ρ} {name : String} {write : α → Value} {a? : Option α}
    {decoder : Decoder α} {store : Option α → ρ → ρ}
    (hField : r.field? name = some (.optional name decoder store))
    (hAbsent : store none x = x) (hRead : ∀ a ∈ a?, decoder.Reads (write a) a) :
    (Value.optional name write a?).foldlM (r.readMember .value) x = .ok (store a? x) := by
  cases a? with
  | none => rw [hAbsent]; rfl
  | some a =>
      have hMember : r.readMember .value x (name, write a) = .ok (store (some a) x) := by
        simp only [readMember, hField, Field.optional, Field.defaulted, Field.reading,
          (hRead a rfl).option]
        rfl
      simp only [Value.optional, List.foldlM_cons, hMember, Except.ok_bind, List.foldlM_nil]
      rfl

/-- A record with many members is read part by part. The record between two parts is written out, for
the nested updates that the steps leave behind grow too fast. -/
theorem foldlM_append_ok {r : Record ρ} {place : Place} {first rest : List (String × Value)}
    {x y z : ρ} (hFirst : first.foldlM (r.readMember place) x = .ok y)
    (hRest : rest.foldlM (r.readMember place) y = .ok z) :
    (first ++ rest).foldlM (r.readMember place) x = .ok z := by
  rw [List.foldlM_append, hFirst, Except.ok_bind, hRest]

theorem foldlM_cons_ok {r : Record ρ} {place : Place} {m : String × Value}
    {rest : List (String × Value)} {x y z : ρ} (hFirst : r.readMember place x m = .ok y)
    (hRest : rest.foldlM (r.readMember place) y = .ok z) :
    (m :: rest).foldlM (r.readMember place) x = .ok z := by
  rw [List.foldlM_cons, hFirst, Except.ok_bind, hRest]

theorem readMember_mandatory_ok {r : Record ρ} {x y : ρ} {name : String} {v : Value} {a : α}
    {decoder : Decoder α} {store : α → ρ → ρ}
    (hField : r.field? name = some (.mandatory name decoder store)) (hRead : decoder.Reads v a)
    (hStored : store a x = y) : r.readMember .value x (name, v) = .ok y := by
  rw [readMember_mandatory hField hRead, hStored]

theorem readMember_defaulted_ok {r : Record ρ} {x y : ρ} {name : String} {v : Value} {a : α}
    {decoder : Decoder α} {store : α → ρ → ρ}
    (hField : r.field? name = some (.defaulted name decoder store))
    (hRead : decoder .value (Document.ofValue v) = .ok a) (hStored : store a x = y) :
    r.readMember .value x (name, v) = .ok y := by
  rw [readMember_defaulted hField hRead, hStored]

theorem foldlM_optional_ok {r : Record ρ} {x y : ρ} {name : String} {write : α → Value}
    {a? : Option α} {decoder : Decoder α} {store : Option α → ρ → ρ}
    (hField : r.field? name = some (.optional name decoder store))
    (hAbsent : store none x = x) (hRead : ∀ a ∈ a?, decoder.Reads (write a) a)
    (hStored : store a? x = y) :
    (Value.optional name write a?).foldlM (r.readMember .value) x = .ok y := by
  rw [foldlM_optional hField hAbsent hRead, hStored]

end Record

/-- The items that were read before the end or a fault. -/
def Items.documents : Items → List Document
  | .next item rest => item :: rest.documents
  | _ => []

/-- The values of the members that were read before the end or a fault. -/
def Members.documents : Members → List Document
  | .next _ value rest => value :: rest.documents
  | _ => []

/-- The trees of the items or of the members' values. -/
def Document.children : Document → List Document
  | .array items => items.documents
  | .object members => members.documents
  | _ => []

theorem Items.InRange.documents : ∀ {items : Items}, items.InRange →
    ∀ child ∈ items.documents, child.InRange
  | .closed, _ => List.forall_mem_nil _
  | .stop _, _ => List.forall_mem_nil _
  | .next _ _, h => List.forall_mem_cons.mpr ⟨h.1, documents h.2⟩

theorem Members.InRange.documents : ∀ {members : Members}, members.InRange →
    ∀ child ∈ members.documents, child.InRange
  | .closed, _ => List.forall_mem_nil _
  | .stop _, _ => List.forall_mem_nil _
  | .nameless _, _ => List.forall_mem_nil _
  | .brokenName _ _, _ => List.forall_mem_nil _
  | .next _ _ _, h => List.forall_mem_cons.mpr ⟨h.1, documents h.2⟩

/-- If all numbers of a document are in range, so are those of its parts. -/
theorem Document.InRange.children {d : Document} (h : d.InRange) :
    ∀ child ∈ d.children, child.InRange := by
  cases d with
  | array items => exact Items.InRange.documents h
  | object members => exact Members.InRange.documents h
  | _ => exact List.forall_mem_nil _

namespace Record

variable {r : Record ρ} {place : Place} {Q : Document → Prop} {P : ρ → Prop}

/-- Whether reading a member at a place, out of a tree of which something is known, keeps a property
of the record. -/
def Field.Keeps (f : Field ρ) (place : Place) (Q : Document → Prop) (P : ρ → Prop) : Prop :=
  ∀ d x y, Q d → P x → f.read place d x = .ok y → P y

/-- The same of members that are not declared. -/
def KeepsUndeclared (r : Record ρ) (place : Place) (Q : Document → Prop) (P : ρ → Prop) : Prop :=
  ∀ name d x y, r.field? name = none → Q d → P x →
    readUndeclared r.undeclared place name d x = .ok y → P y

/-- Reading a field keeps what storing a value that was read keeps. -/
theorem Field.keeps_reading {decoder : Decoder α} {store : α → ρ → ρ} {name : String}
    {aliases : List String} {required omissible : Bool}
    (h : ∀ d a x, Q d → decoder place d = .ok a → P x → P (store a x)) :
    Field.Keeps ⟨name, aliases, required, omissible, reading decoder store⟩ place Q P := by
  intro d x y hKnown hx hRead
  simp only [reading, Except.bind_eq_ok, Except.pure_eq_ok, Except.ok.injEq] at hRead
  obtain ⟨a, hDecoded, rfl⟩ := hRead
  exact h d a x hKnown hDecoded hx

/-- A member that is skipped leaves the record alone. -/
theorem keepsUndeclared_dropped (hDropped : r.undeclared = .dropped) :
    r.KeepsUndeclared place Q P := by
  intro name d x y _ _ hx hRead
  rw [hDropped, readUndeclared] at hRead
  split at hRead
  · cases hRead
  · cases hRead
    exact hx

/-- By induction on the members: reading them keeps what reading each of them keeps. -/
theorem keeps_readMembers (hUndeclared : r.KeepsUndeclared place Q P)
    (hFields : ∀ f ∈ r.fields, f.Keeps place Q P) : ∀ (members : Members) {seen : List String}
    {x y : ρ}, (∀ d ∈ members.documents, Q d) → P x →
      r.readMembers place seen x members = .ok y → P y
  | .closed, _, _, _, _, hx, h => by
      simp only [readMembers, Except.bind_eq_ok, Except.pure_eq_ok, Except.ok.injEq] at h
      obtain ⟨-, -, rfl⟩ := h
      exact hx
  | .stop _, _, _, _, _, _, h => by cases h
  | .nameless _, _, _, _, _, _, h => by cases h
  | .brokenName _ _, _, _, _, _, _, h => by cases h
  | .next name value rest, seen, x, y, hKnown, hx, h => by
      obtain ⟨hFirst, hLater⟩ := List.forall_mem_cons.mp hKnown
      simp only [readMembers, Except.bind_eq_ok] at h
      obtain ⟨name, -, h⟩ := h
      split at h
      · rename_i f hField
        split at h
        · cases h
        · obtain ⟨z, hRead, hRest⟩ := Except.bind_eq_ok.mp h
          have hz : P z := hFields f (List.mem_of_find?_eq_some hField) value x z hFirst hx hRead
          exact keeps_readMembers hUndeclared hFields rest hLater hz hRest
      · rename_i hField
        obtain ⟨z, hRead, hRest⟩ := Except.bind_eq_ok.mp h
        have hz : P z := hUndeclared name value x z hField hFirst hx hRead
        exact keeps_readMembers hUndeclared hFields rest hLater hz hRest

/-- The same of a record that is read from an array, by induction on its fields. -/
theorem keeps_readItems {total : Nat} {fields : List (Field ρ)}
    (hFields : ∀ f ∈ fields, f.Keeps place Q P) {index : Nat} {x y : ρ} {items : Items}
    (hKnown : ∀ d ∈ items.documents, Q d) (hx : P x)
    (h : r.readItems place total index x fields items = .ok y) : P y := by
  induction fields generalizing index x items with
  | nil =>
      simp only [readItems, Except.bind_eq_ok, Except.pure_eq_ok, Except.ok.injEq] at h
      obtain ⟨-, -, rfl⟩ := h
      exact hx
  | cons f fields ih =>
      obtain ⟨hFirst, hRest⟩ := List.forall_mem_cons.mp hFields
      cases items with
      | closed =>
          simp only [readItems] at h
          split at h
          · exact ih hRest hKnown hx h
          · cases h
      | stop why => cases h
      | next item rest =>
          obtain ⟨hItem, hLater⟩ := List.forall_mem_cons.mp hKnown
          simp only [readItems, Except.bind_eq_ok] at h
          obtain ⟨z, hRead, h⟩ := h
          exact ih hRest hLater (hFirst item x z hItem hx hRead) h

/-- A property of the empty record that every member keeps holds of whatever is read. -/
theorem keeps_decoder {x : ρ} {d : Document}
    (hUndeclared : ∀ inner, place.enter = .ok inner → r.KeepsUndeclared inner Q P)
    (hFields : ∀ inner, place.enter = .ok inner → ∀ f ∈ r.fields, f.Keeps inner Q P)
    (hEmpty : P r.empty) (hKnown : ∀ child ∈ d.children, Q child)
    (h : r.decoder place d = .ok x) : P x := by
  unfold decoder at h
  split at h
  · simp only [liftFault, Except.bind_eq_ok, Except.mapError_eq_ok] at h
    obtain ⟨inner, hEnter, h⟩ := h
    exact keeps_readMembers (hUndeclared inner hEnter) (hFields inner hEnter) _ hKnown hEmpty h
  · simp only [liftFault, Except.bind_eq_ok, Except.mapError_eq_ok] at h
    obtain ⟨inner, hEnter, h⟩ := h
    exact keeps_readItems (hFields inner hEnter) hKnown hEmpty h
  · cases h

end Record

/-- Whatever holds of each item that is read holds of a list that is read. -/
theorem Decoder.forall_mem_list {decoder : Decoder α} {place : Place} {d : Document} {l : List α}
    {p : α → Prop} (h : ∀ inner item a, decoder inner item = .ok a → p a)
    (hRead : Decoder.list decoder place d = .ok l) : ∀ a ∈ l, p a := by
  have hItems : ∀ (items : Items) {inner : Place} {l : List α},
      Decoder.items decoder inner items = .ok l → ∀ a ∈ l, p a := by
    intro items
    induction items using Items.documents.induct with
    | case1 item rest ih =>
        intro inner l hRead
        simp only [Decoder.items, Except.bind_eq_ok, Except.pure_eq_ok, Except.ok.injEq] at hRead
        obtain ⟨a, hFirst, rest, hRest, rfl⟩ := hRead
        exact List.forall_mem_cons.mpr ⟨h inner item a hFirst, ih hRest⟩
    | case2 items hOther =>
        intro inner l hRead
        cases items with
        | closed =>
            cases hRead
            exact List.forall_mem_nil _
        | stop why => cases hRead
        | next item rest => exact absurd rfl (hOther item rest)
  unfold Decoder.list at hRead
  split at hRead
  · obtain ⟨inner, -, hRead⟩ := Except.bind_eq_ok.mp hRead
    exact hItems _ hRead
  · cases hRead

end RemoteSigning.Json
