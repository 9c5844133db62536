import RemoteSigning.Proofs.Json.Records
import Mathlib.Data.List.Pairwise

/-!
# Members in any order

A record whose members are stored each in its own place is read alike whatever the order in which
they are written. In particular it is read back from its canonical form, where members that it does
not declare stand between those that it does.
-/

namespace RemoteSigning.Json

variable {ρ α β : Type}

namespace Value

/-- Members of different names can be put into sorted members in either order. -/
theorem insertMember_insertMember {name name' : String} (hNames : name ≠ name') (v v' : Value)
    (members : List (String × Value)) :
    insertMember name' v' (insertMember name v members) =
      insertMember name v (insertMember name' v' members) := by
  induction members with
  | nil =>
      rcases lt_or_gt_of_ne hNames with hLt | hGt
      · simp [insertMember, hLt, lt_asymm hLt, hNames.symm]
      · simp [insertMember, hGt, lt_asymm hGt, hNames]
  | cons first rest ih =>
      obtain ⟨k, w⟩ := first
      grind [insertMember]

end Value

namespace Record

/-- Whether two steps on a record, each of which may fail, give the same in both orders. -/
def Independent (s t : ρ → Except Error ρ) : Prop :=
  ∀ x y, (s x >>= t) = .ok y ↔ (t x >>= s) = .ok y

/-- It does not matter which of two steps is named first. -/
theorem Independent.symm {s t : ρ → Except Error ρ} (h : Independent s t) : Independent t s :=
  fun x y => (h x y).symm

/-- Two members that are stored in different places. -/
theorem independent_store {a? : Except Error α} {b? : Except Error β} {store : α → ρ → ρ}
    {store' : β → ρ → ρ} (h : ∀ a b x, store' b (store a x) = store a (store' b x)) :
    Independent (fun x => do return store (← a?) x) (fun x => do return store' (← b?) x) := by
  intro x y
  cases a? with
  | error e => cases b? <;> simp
  | ok a =>
      cases b? with
      | error e => simp
      | ok b => simp [h a b x]

/-- A member that is skipped is stored nowhere. -/
theorem independent_dropped (s : ρ → Except Error ρ) (place : Place) (name : String)
    (d : Document) : Independent s (readUndeclared .dropped place name d) := by
  intro x y
  show (s x >>= fun z => readUndeclared .dropped place name d z) = .ok y ↔
    (readUndeclared .dropped place name d x >>= s) = .ok y
  simp only [readUndeclared]
  cases d.skip <;> simp

/-- Whether two declared members are stored in different places. -/
def Field.Apart (f g : Field ρ) : Prop :=
  ∀ place d e, Independent (f.read place d) (g.read place e)

/-- Whether a declared member is stored apart from members that are not declared. -/
def Field.ApartFrom (f : Field ρ) (u : Undeclared ρ) : Prop :=
  ∀ place d name e, Independent (f.read place d) (readUndeclared u place name e)

instance : Std.Symm (@Field.Apart ρ) where
  symm _ _ h place d e := (h place e d).symm

/-- Fields that store in places of their own are apart. -/
theorem Field.apart {decoder : Decoder α} {decoder' : Decoder β} {store : α → ρ → ρ}
    {store' : β → ρ → ρ} (h : ∀ a b x, store' b (store a x) = store a (store' b x))
    {name name' : String} {aliases aliases' : List String}
    {required required' omissible omissible' : Bool} :
    Field.Apart ⟨name, aliases, required, omissible, reading decoder store⟩
      ⟨name', aliases', required', omissible', reading decoder' store'⟩ :=
  fun _ _ _ => independent_store h

theorem Field.apartFrom_kept {decoder : Decoder α} {store : α → ρ → ρ}
    {store' : String → Value → ρ → ρ}
    (h : ∀ a k v x, store' k v (store a x) = store a (store' k v x)) {name : String}
    {aliases : List String} {required omissible : Bool} :
    Field.ApartFrom ⟨name, aliases, required, omissible, reading decoder store⟩ (.kept store') :=
  fun _ _ k _ => independent_store fun a v x => h a k v x

/-- Whether all members of a record have names and places of their own. -/
structure Orderless (r : Record ρ) : Prop where
  plain : ∀ f ∈ r.fields, f.aliases = []
  distinct : r.names.Nodup
  declared : r.fields.Pairwise Field.Apart
  undeclared : ∀ f ∈ r.fields, f.ApartFrom r.undeclared
  others : ∀ place name d name' e, name ≠ name' →
    Independent (readUndeclared r.undeclared place name d)
      (readUndeclared r.undeclared place name' e)

variable {r : Record ρ} {place : Place}

/-- If members that are not declared are dropped, only the declared ones can get in the way of each
other. -/
theorem orderless_of_dropped (hDropped : r.undeclared = .dropped)
    (hPlain : ∀ f ∈ r.fields, f.aliases = []) (hDistinct : r.names.Nodup)
    (hDeclared : r.fields.Pairwise Field.Apart) : r.Orderless where
  plain := hPlain
  distinct := hDistinct
  declared := hDeclared
  undeclared f _ place d name e := by
    rw [hDropped]
    exact independent_dropped _ place name e
  others place name d name' e _ := by
    rw [hDropped]
    exact independent_dropped _ place name' e

/-- If they are kept, they must not get in the way of the declared ones or of each other. -/
theorem orderless_of_kept {store : String → Value → ρ → ρ} (hKept : r.undeclared = .kept store)
    (hPlain : ∀ f ∈ r.fields, f.aliases = []) (hDistinct : r.names.Nodup)
    (hDeclared : r.fields.Pairwise Field.Apart)
    (hApart : ∀ f ∈ r.fields, f.ApartFrom (.kept store))
    (hOthers : ∀ name v name' v' x, name ≠ name' →
      store name' v' (store name v x) = store name v (store name' v' x)) : r.Orderless where
  plain := hPlain
  distinct := hDistinct
  declared := hDeclared
  undeclared f hf := by
    rw [hKept]
    exact hApart f hf
  others place name d name' e hNames := by
    rw [hKept]
    exact independent_store fun v v' x => hOthers name v name' v' x hNames

/-- Members with different names can be read in either order. -/
theorem Orderless.readMember (h : r.Orderless) {m n : String × Value} (hNames : m.1 ≠ n.1) :
    Independent (r.readMember place · m) (r.readMember place · n) := by
  unfold Record.readMember
  cases hm : r.field? m.1 with
  | some f =>
      have hf : f ∈ r.fields := List.mem_of_find?_eq_some hm
      cases hn : r.field? n.1 with
      | some g =>
          have hg : g ∈ r.fields := List.mem_of_find?_eq_some hn
          have hOther : f ≠ g := by
            rintro rfl
            exact hNames ((name_eq_of_field? h.plain hm).symm.trans (name_eq_of_field? h.plain hn))
          exact h.declared.forall hf hg hOther place _ _
      | none => exact h.undeclared f hf place _ _ _
  | none =>
      cases hn : r.field? n.1 with
      | some g =>
          have hg : g ∈ r.fields := List.mem_of_find?_eq_some hn
          exact (h.undeclared g hg place _ _ _).symm
      | none => exact h.others place _ _ _ _ hNames

/-- By induction on the exchanges that lead from one order to the other. -/
theorem Orderless.foldlM_perm (h : r.Orderless) {members written : List (String × Value)}
    (hPerm : members.Perm written) (hDistinct : (members.map (·.1)).Nodup) {x y : ρ} :
    members.foldlM (r.readMember place) x = .ok y ↔
      written.foldlM (r.readMember place) x = .ok y := by
  induction hPerm generalizing x with
  | nil => exact Iff.rfl
  | cons m _ ih =>
      have hRest := (List.nodup_cons.mp hDistinct).2
      simp only [List.foldlM_cons, Except.bind_eq_ok, ih hRest]
  | swap m n rest =>
      have hNames : n.1 ≠ m.1 := by
        intro hSame
        exact (List.nodup_cons.mp hDistinct).1 (List.mem_map.mpr ⟨m, List.mem_cons_self, hSame.symm⟩)
      have hExchange : Independent (r.readMember place · n) (r.readMember place · m) :=
        h.readMember hNames
      simp only [Independent, Except.bind_eq_ok] at hExchange
      simp only [List.foldlM_cons, Except.bind_eq_ok]
      constructor
      · rintro ⟨a, hFirst, b, hSecond, hRest⟩
        obtain ⟨a', hFirst', hSecond'⟩ := (hExchange x b).mp ⟨a, hFirst, hSecond⟩
        exact ⟨a', hFirst', b, hSecond', hRest⟩
      · rintro ⟨a, hFirst, b, hSecond, hRest⟩
        obtain ⟨a', hFirst', hSecond'⟩ := (hExchange x b).mpr ⟨a, hFirst, hSecond⟩
        exact ⟨a', hFirst', b, hSecond', hRest⟩
  | trans hFirst _ ih ih' =>
      exact (ih hDistinct).trans (ih' ((hFirst.map (·.1)).nodup_iff.mp hDistinct))

/-- A record is read from the canonical form of an object whose members, in the order in which they
are written and with their values in canonical form, are read one after the other. -/
theorem Orderless.reads_canonical (h : r.Orderless) {members : List (String × Value)} {x : ρ}
    (hDistinct : (members.map (·.1)).Nodup)
    (hComplete : r.required ⊆ members.map (·.1))
    (hRead : (Value.canonicalMembers members).foldlM (r.readMember .value) r.empty = .ok x) :
    r.decoder.Reads (Value.object members).canonical x := by
  rw [← Value.names_canonicalMembers] at hDistinct hComplete
  have hPerm := Value.sortMembers_perm hDistinct
  have hNames := hPerm.map (·.1)
  rw [Value.canonical]
  exact reads_object h.plain (hNames.nodup_iff.mpr hDistinct)
    (List.Subset.trans hComplete hNames.symm.subset) ((h.foldlM_perm hPerm.symm hDistinct).mp hRead)

/-- A record is read from its declared members in whatever order they were written. -/
theorem Orderless.reads_declared (h : r.Orderless) {members : List (String × Value)} {x : ρ}
    (hNames : (members.map (·.1)).Sublist r.names) (hComplete : r.required ⊆ members.map (·.1))
    (hRead : (Value.canonicalMembers members).foldlM (r.readMember .value) r.empty = .ok x) :
    r.decoder.Reads (Value.object members).canonical x :=
  h.reads_canonical (h.distinct.sublist hNames) hComplete hRead

/-- Whether members are as reading leaves those that a record does not declare. -/
structure Carries (r : Record ρ) (extra : List (String × Value)) : Prop where
  sorted : Value.SortedMembers extra
  isCanonical : ∀ m ∈ extra, m.2.IsCanonical
  undeclared : ∀ m ∈ extra, r.field? m.1 = none

theorem carries_nil (r : Record ρ) : r.Carries [] where
  sorted := List.Pairwise.nil
  isCanonical := List.forall_mem_nil _
  undeclared := List.forall_mem_nil _

/-- One more member that is not declared can be carried along. -/
theorem Carries.insertMember {extra : List (String × Value)} (h : r.Carries extra) {name : String}
    {v : Value} (hName : r.field? name = none) (hValue : v.IsCanonical) :
    r.Carries (Value.insertMember name v extra) where
  sorted := h.sorted.insertMember name v
  isCanonical m hm := by
    rcases Value.mem_of_mem_insertMember hm with rfl | hm
    · exact hValue
    · exact h.isCanonical m hm
  undeclared m hm := by
    rcases Value.mem_of_mem_insertMember hm with rfl | hm
    · exact hName
    · exact h.undeclared m hm

theorem Carries.canonicalMembers_eq {extra : List (String × Value)} (h : r.Carries extra) :
    Value.canonicalMembers extra = extra :=
  Value.MembersCanonical.canonicalMembers_eq (Value.membersCanonical_iff.mpr h.isCanonical)

/-- Carried members have names of their own, beside the declared ones. -/
theorem Carries.distinct {extra declared : List (String × Value)} (h : r.Carries extra)
    (hOrderless : r.Orderless) (hNames : (declared.map (·.1)).Sublist r.names) :
    ((declared ++ extra).map (·.1)).Nodup := by
  rw [List.map_append, List.nodup_append]
  refine ⟨hOrderless.distinct.sublist hNames, (List.pairwise_map.mpr h.sorted).imp ne_of_lt, ?_⟩
  rintro name hDeclared _ hExtra rfl
  obtain ⟨f, hf, hName⟩ := List.mem_map.mp (hNames.subset hDeclared)
  obtain ⟨m, hm, hSame⟩ := List.mem_map.mp hExtra
  exact field?_eq_none (h.undeclared m hm) hf (hName.trans hSame.symm)

/-- Carried members are stored one after the other. -/
theorem foldlM_kept {store : String → Value → ρ → ρ} (hKept : r.undeclared = .kept store)
    {extra : List (String × Value)} (hUndeclared : ∀ m ∈ extra, r.field? m.1 = none)
    (hCanonical : ∀ m ∈ extra, m.2.IsCanonical) (x : ρ) :
    extra.foldlM (r.readMember .value) x = .ok (extra.foldl (fun x m => store m.1 m.2 x) x) := by
  induction extra generalizing x with
  | nil => rfl
  | cons m rest ih =>
      obtain ⟨hFirst, hRest⟩ := List.forall_mem_cons.mp hUndeclared
      obtain ⟨hValue, hValues⟩ := List.forall_mem_cons.mp hCanonical
      have hMember : r.readMember .value x m = .ok (store m.1 m.2 x) := by
        simp only [Record.readMember, hFirst, hKept, readUndeclared, Decoder.any,
          value_ofValue m.2 .value trivial, hValue.canonical_eq]
        rfl
      rw [List.foldlM_cons, hMember, Except.ok_bind, ih hRest hValues, List.foldl_cons]

/-- A record that keeps undeclared members sorted, in a place that `put` fills, takes in all carried
members at once. -/
theorem Carries.foldlM_kept {put : List (String × Value) → ρ} {store : String → Value → ρ → ρ}
    (hKept : r.undeclared = .kept store)
    (hPut : ∀ name v extra, store name v (put extra) = put (Value.insertMember name v extra))
    {extra : List (String × Value)} (h : r.Carries extra) :
    extra.foldlM (r.readMember .value) (put []) = .ok (put extra) := by
  have hFold : extra.foldl (fun x m => store m.1 m.2 x) (put []) = put (Value.sortMembers extra) :=
    List.foldl_hom put fun extra m => hPut m.1 m.2 extra
  rw [Record.foldlM_kept hKept h.undeclared h.isCanonical, hFold, h.sorted.sortMembers_eq]

/-- Reading keeps what is carried as it should be. -/
theorem keepsUndeclared_kept {place : Place} {store : String → Value → ρ → ρ} {Q : Document → Prop}
    {P : ρ → Prop} (hKept : r.undeclared = .kept store) (hPlace : place.Admits 0)
    (hStore : ∀ name v x, r.field? name = none → v.IsCanonical → P x → P (store name v x)) :
    r.KeepsUndeclared place Q P := by
  intro name d x y hName _ hx hRead
  rw [hKept] at hRead
  simp only [readUndeclared, Decoder.any, liftFault, Except.bind_eq_ok, Except.mapError_eq_ok,
    Except.pure_eq_ok, Except.ok.injEq] at hRead
  obtain ⟨v, hValue, rfl⟩ := hRead
  exact hStore name v x hName (isCanonical_of_value d hPlace hValue).1 hx

end Record

end RemoteSigning.Json
