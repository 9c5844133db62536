import RemoteSigning.Proofs.Url.Addresses
import RemoteSigning.Proofs.Url.Domains
import RemoteSigning.Url.Parse

/-!
# Hosts are read back

Whatever a host was read from, its text is read as the host again, ends where the host ends and has
nothing in it that ends an authority.
-/

namespace RemoteSigning.Url

open Text Items

/-- The signs that divide an authority or end it. -/
def dividers : List Char := ['#', '/', '?', '@', '\\']

theorem hostLength_of_plain {cs rest : List Char} (hPlain : ∀ c ∈ cs, c ≠ ':' ∧ c ≠ '[')
    (hRest : ∀ c ∈ rest.head?, c = ':') : hostLength false (cs ++ rest) = cs.length := by
  induction cs with
  | nil =>
    cases rest with
    | nil => rfl
    | cons c rest => rw [List.nil_append, hRest c rfl]; rfl
  | cons c cs ih =>
    rw [List.forall_mem_cons] at hPlain
    rw [List.cons_append, hostLength, if_neg fun h => hPlain.1.1 h.1, if_neg hPlain.1.2, ite_self,
      ih hPlain.2, List.length_cons]

theorem hostLength_of_bracketed {cs rest : List Char} (hPlain : ∀ c ∈ cs, c ≠ '[' ∧ c ≠ ']')
    (hRest : ∀ c ∈ rest.head?, c = ':') :
    hostLength true (cs ++ ']' :: rest) = cs.length + 1 := by
  induction cs with
  | nil =>
    have hEnd := hostLength_of_plain (List.forall_mem_nil fun c => c ≠ ':' ∧ c ≠ '[') hRest
    rw [List.nil_append] at hEnd
    rw [List.nil_append, hostLength, if_neg (by decide), if_neg (by decide), if_pos rfl, hEnd]
  | cons c cs ih =>
    rw [List.forall_mem_cons] at hPlain
    rw [List.cons_append, hostLength, if_neg fun h => absurd h.2 (by decide), if_neg hPlain.1.1,
      if_neg hPlain.1.2, ih hPlain.2, List.length_cons]

/-- A host whose text is read as the host, in the place where it is written. -/
structure Host.Settled (h : Host) : Prop where
  nonempty : h.text.toList ≠ []
  plain : ∀ c ∈ h.text.toList, 0x20 < c.toNat ∧ c ∉ dividers
  delimited : ∀ rest : List Char, (∀ c ∈ rest.head?, c = ':') →
    hostLength false (h.text.toList ++ rest) = h.text.toList.length
  reads : hostOf .special h.text.toList = .ok h

theorem bracketed_of_ofText? {inner : List Char} {numbers : List Nat}
    (h : Ipv6.ofText? inner = some numbers) :
    bracketed ('[' :: (inner ++ [']'])) = .ok (.ipv6 numbers) := by
  have hReverse : ('[' :: (inner ++ [']'])).reverse = ']' :: ('[' :: inner).reverse := by
    rw [← List.cons_append, List.reverse_append, List.reverse_singleton, List.singleton_append]
  have hInner : ('[' :: inner).reverse.reverse.drop 1 = inner := by
    rw [List.reverse_reverse, List.drop_one, List.tail_cons]
  simp only [bracketed, hReverse, hInner, h]

/-- A host without brackets is a domain or an address, whichever its name means. -/
theorem specialHost_eq_ok {cs : List Char} {h : Host} :
    specialHost cs = .ok h ↔
      ∃ name, Domain.ofOctets? (Percent.decode (cs.flatMap charOctets)) = some name ∧ name ≠ [] ∧
        (Ipv4.isMeant name = false ∧ h = .domain (String.ofList name) ∨
          Ipv4.isMeant name = true ∧ ∃ address, Ipv4.ofName? name = some address ∧
            h = .ipv4 address) := by
  rw [specialHost]
  constructor
  · intro hRead
    split at hRead
    · cases hRead
    · cases hRead
    · next name hSome hName =>
      refine ⟨name, hName, hSome, ?_⟩
      split_ifs at hRead with hMeant
      · split at hRead
        · next address hAddress => exact .inr ⟨hMeant, address, hAddress, (Except.ok.inj hRead).symm⟩
        · cases hRead
      · exact .inl ⟨Bool.eq_false_iff.mpr hMeant, (Except.ok.inj hRead).symm⟩
  · rintro ⟨name, hName, hSome, hHost⟩
    obtain ⟨c, cs, rfl⟩ := List.exists_cons_of_ne_nil hSome
    rw [hName]
    obtain ⟨hMeant, rfl⟩ | ⟨hMeant, address, hAddress, rfl⟩ := hHost
    · exact if_neg (Bool.eq_false_iff.mp hMeant)
    · refine (if_pos hMeant).trans ?_
      rw [hAddress]

/-- A name of a domain or an address of version 4. -/
theorem Host.settled_of_name {h : Host} {name : List Char} (hText : h.text.toList = name)
    (hSome : name ≠ []) (hAllowed : ∀ c ∈ name, Domain.isAllowed c = true)
    (hForm : Domain.ofOctets? (name.flatMap charOctets) = some name)
    (hMeant : Ipv4.isMeant name = false ∧ h = .domain (String.ofList name) ∨
      Ipv4.isMeant name = true ∧ ∃ address, Ipv4.ofName? name = some address ∧
        h = .ipv4 address) : h.Settled := by
  have hSign (c sign : Char) (hc : c ∈ name) (hForbidden : sign ∈ Domain.forbidden) : c ≠ sign :=
    fun hEq => Domain.notMem_of_isAllowed (hAllowed c hc) (hEq ▸ hForbidden)
  have hPlain : Percent.decode (name.flatMap charOctets) = name.flatMap charOctets := by
    have hPercent : UInt8.ofNat '%'.toNat ∉ name.flatMap charOctets := by
      refine octet_notMem (by decide) fun c hc => ?_
      have hRange := Domain.lt_of_isAllowed (hAllowed c hc)
      exact ⟨by omega, hSign c '%' hc (by decide)⟩
    exact Percent.decode_of_notMem hPercent
  have hHead : name.head? ≠ some '[' := fun hBracket =>
    hSign '[' '[' (List.mem_of_head? hBracket) (by decide) rfl
  exact {
    nonempty := hText ▸ hSome
    plain := by
      rw [hText]
      intro c hc
      refine ⟨(Domain.lt_of_isAllowed (hAllowed c hc)).1, fun hMem => ?_⟩
      have hDividers : ∀ d ∈ dividers, d ∈ Domain.forbidden := by decide
      exact hSign c c hc (hDividers c hMem) rfl
    delimited := by
      rw [hText]
      exact fun rest => hostLength_of_plain fun c hc =>
        ⟨hSign c ':' hc (by decide), hSign c '[' hc (by decide)⟩
    reads := by
      rw [hText, hostOf, if_neg hHead]
      refine (if_pos rfl).trans (specialHost_eq_ok.mpr ⟨name, ?_, hSome, hMeant⟩)
      rw [hPlain, hForm] }

/-- A domain is read again as itself. -/
theorem Host.settled_domain {bytes : List UInt8} {name : List Char}
    (hName : Domain.ofOctets? bytes = some name) (hSome : name ≠ [])
    (hMeant : Ipv4.isMeant name = false) : (Host.domain (String.ofList name)).Settled := by
  obtain ⟨_, -, -, -, hAllowed⟩ := Domain.exists_formed hName
  exact settled_of_name String.toList_ofList hSome (List.all_eq_true.mp hAllowed)
    (Domain.ofOctets?_of_form hName) (.inl ⟨hMeant, rfl⟩)

/-- So is an address. -/
theorem Host.settled_ipv4 {address : Nat} (h : address < 2 ^ 32) : (Host.ipv4 address).Settled := by
  have hDigit (l : List Char) (hl : l ∈ (Ipv4.octetsOf address).map fun n => (toString n).toList) :
      ∀ c ∈ l, c.isDigit = true := by
    obtain ⟨n, hn, rfl⟩ := List.mem_map.mp hl
    exact List.all_eq_true.mp (Ipv4.number?_octet n (Ipv4.octetsOf_lt h n hn)).2.1
  have hAllowed : ∀ c ∈ (Ipv4.text address).toList, Domain.isAllowed c = true := by
    intro c hc
    rw [Ipv4.toList_text] at hc
    obtain hc | ⟨l, hl, hc⟩ := mem_intercalate hc
    · rw [List.mem_singleton.mp hc]
      decide
    · obtain ⟨d, hd, rfl⟩ := exists_of_isDigit (hDigit l hl c hc)
      exact (Domain.of_digit d hd).2.1
  have hForm : Domain.ofOctets? ((Ipv4.text address).toList.flatMap charOctets) =
      some (Ipv4.text address).toList := by
    have hAll := List.all_eq_true.mpr hAllowed
    rw [Ipv4.toList_text] at hAll ⊢
    exact Domain.ofOctets?_of_formed (List.cons_ne_nil _ _)
      (fun l hl => Domain.formed_of_isDigit (hDigit l hl)) hAll
  refine settled_of_name rfl (fun hNone => ?_) hAllowed hForm
    (.inr ⟨Ipv4.isMeant_text h, address, Ipv4.ofName?_text h, rfl⟩)
  have hMeant := Ipv4.isMeant_text h
  rw [show (Ipv4.text address).toList = [] from hNone] at hMeant
  exact absurd hMeant (by decide)

theorem Host.settled_ipv6 {numbers : List Nat} (h : Ipv6.IsAddress numbers) :
    (Host.ipv6 numbers).Settled := by
  have hText : (Host.ipv6 numbers).text.toList = '[' :: ((Ipv6.text numbers).toList ++ [']']) := by
    rw [Host.text, String.toList_append, String.toList_append]
    rfl
  have hDigit : ∀ d < 16, 0x20 < (Nat.digitChar d).toNat ∧ Nat.digitChar d ∉ dividers ∧
      Nat.digitChar d ≠ '[' ∧ Nat.digitChar d ≠ ']' := by decide
  have hChar (c : Char) (hc : c ∈ (Ipv6.text numbers).toList) :
      0x20 < c.toNat ∧ c ∉ dividers ∧ c ≠ '[' ∧ c ≠ ']' := by
    obtain rfl | ⟨d, hd, rfl⟩ := Ipv6.mem_text hc
    · decide
    · exact hDigit d hd
  exact {
    nonempty := by
      rw [hText]
      exact List.cons_ne_nil _ _
    plain := by
      rw [hText]
      intro c hc
      obtain rfl | hc := List.mem_cons.mp hc
      · decide
      · obtain hc | hc := List.mem_append.mp hc
        · exact ⟨(hChar c hc).1, (hChar c hc).2.1⟩
        · rw [List.mem_singleton.mp hc]
          decide
    delimited := by
      intro rest hRest
      rw [hText, List.cons_append, List.append_assoc, List.singleton_append, hostLength,
        if_neg (by decide), if_pos rfl,
        hostLength_of_bracketed (fun c hc => (hChar c hc).2.2) hRest, List.length_cons,
        List.length_append, List.length_singleton]
    reads := by
      have hRead := Ipv6.ofText?_text h
      rw [hText, hostOf, List.head?_cons, if_pos rfl]
      exact bracketed_of_ofText? hRead }

/-- Every host that is read is settled. -/
theorem Host.settled_of_hostOf {cs : List Char} {h : Host} (hRead : hostOf .special cs = .ok h) :
    h.Settled := by
  rw [hostOf] at hRead
  split_ifs at hRead with hBracket hStrict
  · rw [bracketed] at hRead
    split at hRead
    · split at hRead
      · next numbers hText =>
        obtain rfl := Except.ok.inj hRead
        exact settled_ipv6 (Ipv6.isAddress_of_ofText? hText)
      · cases hRead
    · cases hRead
  · obtain ⟨name, hName, hSome, ⟨hMeant, rfl⟩ | ⟨hMeant, address, hAddress, rfl⟩⟩ :=
      specialHost_eq_ok.mp hRead
    · exact settled_domain hName hSome hMeant
    · exact settled_ipv4 (Ipv4.lt_of_ofName? hAddress)
  · exact absurd rfl hStrict

end RemoteSigning.Url
