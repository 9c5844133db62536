import RemoteSigning.Proofs.Results
import RemoteSigning.Proofs.Url.Hosts

/-!
# Authorities are read back

User name, password, host and port as a special URL has them, each of which ends where the next one
begins.
-/

namespace RemoteSigning.Url

open Text Items
open Percent (inUserinfo)

variable {scheme : String} {cs rest : List Char}

/-- A port that a URL keeps: it has 16 bits, and the scheme implies another one or none. -/
def IsPort (scheme : String) (p : Nat) : Prop := p ≤ 65535 ∧ impliedPort scheme ≠ some p

/-- A port that was read is one that a URL keeps. -/
theorem isPort_of_readPort {n : Nat} {digits : Bool} {port : Option Nat} (hSmall : n ≤ 65535)
    (h : readPort scheme n digits cs = .ok (port, rest)) : ∀ p ∈ port, IsPort scheme p := by
  have hPort (n : Nat) (digits : Bool) (hSmall : n ≤ 65535) :
      ∀ p ∈ readPort.port scheme n digits, IsPort scheme p := by
    intro p hp
    obtain ⟨hKept, hNumber⟩ := Option.ite_none_right_eq_some.mp hp
    obtain rfl := Option.some.inj hNumber
    exact ⟨hSmall, hKept.2⟩
  fun_induction readPort scheme n digits cs with
  | case1 => cases h
  | case2 n digits c more hDigit n' hFits ih => exact ih (Nat.le_of_not_lt hFits) h
  | case3 n digits =>
    obtain ⟨rfl, -⟩ := Prod.mk.inj (Except.ok.inj h)
    exact hPort n digits hSmall
  | case4 => cases h
  | case5 n digits =>
    obtain ⟨rfl, -⟩ := Prod.mk.inj (Except.ok.inj h)
    exact hPort n digits hSmall

/-- A port as it is written. -/
def portText (port : Option Nat) : List Char := port.elim [] (':' :: Nat.toDigits 10 ·)

/-- Digits are read as long as the number fits. -/
theorem readPort_digits {n : Nat} {digits : Bool} (hDigits : ∀ c ∈ cs, c.isDigit = true)
    (hFits : Nat.ofDigitChars 10 cs n ≤ 65535) (hSome : cs ≠ [] ∨ digits = true) :
    readPort scheme n digits (cs ++ rest) =
      readPort scheme (Nat.ofDigitChars 10 cs n) true rest := by
  induction cs generalizing n digits with
  | nil =>
    rw [hSome.resolve_left (fun h => h rfl)]
    rfl
  | cons c cs ih =>
    rw [List.forall_mem_cons] at hDigits
    rw [Nat.ofDigitChars_cons, Nat.mul_comm] at hFits ⊢
    have hSmall : n * 10 + (c.toNat - 48) ≤ 65535 := Nat.le_trans (le_ofDigitChars cs _) hFits
    rw [List.cons_append, readPort, if_pos hDigits.1]
    exact (if_neg (Nat.not_lt.mpr hSmall)).trans (ih hDigits.2 hFits (.inr rfl))

/-- A port is read as it is written. -/
theorem readPort_written {p : Nat} (h : IsPort scheme p) (rest : List Char) :
    readPort scheme 0 false (Nat.toDigits 10 p ++ '/' :: rest) = .ok (some p, '/' :: rest) := by
  have hNumber : Nat.ofDigitChars 10 (Nat.toDigits 10 p) 0 = p :=
    Nat.ofDigitChars_toDigits (by decide) (by decide)
  rw [readPort_digits (fun _ => Nat.isDigit_of_mem_toDigits (by decide) (by decide))
      (by rw [hNumber]; exact h.1) (.inl Nat.toDigits_ne_nil),
    hNumber, readPort, if_neg (by decide), if_pos (.inl rfl), readPort.port, if_pos ⟨rfl, h.2⟩]

theorem splitCredentials_of_notMem (h : '@' ∉ cs) : splitCredentials cs = (none, cs) := by
  have hHost : (cs.reverse.takeWhile (· != '@')).reverse = cs := by
    rw [← List.append_nil cs.reverse,
      List.takeWhile_append_of_pos (ne_of_notMem (mt List.mem_reverse.mp h)), List.takeWhile_nil,
      List.append_nil, List.reverse_reverse]
  rw [splitCredentials, hHost]
  exact if_pos rfl

/-- Credentials end at the last sign for them. -/
theorem splitCredentials_append (credentials : List Char) (h : '@' ∉ cs) :
    splitCredentials (credentials ++ '@' :: cs) = (some credentials, cs) := by
  have hHost : ((credentials ++ '@' :: cs).reverse.takeWhile (· != '@')).reverse = cs := by
    rw [List.reverse_append, List.reverse_cons, List.append_assoc,
      List.takeWhile_append_of_pos (ne_of_notMem (mt List.mem_reverse.mp h)),
      List.singleton_append, List.takeWhile_cons_of_neg (by decide), List.append_nil,
      List.reverse_reverse]
  have hLength : (credentials ++ '@' :: cs).length = credentials.length + 1 + cs.length := by
    rw [List.length_append, List.length_cons]
    omega
  rw [splitCredentials, hHost, hLength]
  refine (if_neg (by omega)).trans ?_
  rw [Nat.add_sub_cancel, Nat.add_sub_cancel, List.take_left]

/-- The credentials of a URL as they are written, without the sign that ends them. -/
def credentialsOf (username password : String) : Option (List Char) :=
  if username = "" ∧ password = "" then none
  else if password = "" then some username.toList
  else some (username.toList ++ ':' :: password.toList)

/-- What is written in front of a host. -/
def withAt (credentials : Option (List Char)) : List Char := credentials.elim [] (· ++ ['@'])

theorem splitCredentials_withAt (credentials : Option (List Char)) (h : '@' ∉ cs) :
    splitCredentials (withAt credentials ++ cs) = (credentials, cs) := by
  cases credentials with
  | none => exact splitCredentials_of_notMem h
  | some credentials =>
    rw [withAt, Option.elim_some, List.append_assoc, List.singleton_append,
      splitCredentials_append credentials h]

theorem drop_withAt (credentials : Option (List Char)) (cs : List Char) :
    (withAt credentials ++ cs).drop (credentials.elim 0 (·.length + 1)) = cs := by
  cases credentials with
  | none => rfl
  | some credentials =>
    refine List.drop_left' ?_
    rw [withAt, Option.elim_some, Option.elim_some, List.length_append, List.length_singleton]

theorem userinfoText_of_keeps {text : String} (h : ∀ c ∈ text.toList, inUserinfo.Keeps c) :
    userinfoText text.toList = text := by
  rw [userinfoText, Percent.encode_of_keeps h, String.ofList_toList]

/-- Names and passwords are parted where they are joined. -/
theorem userinfoText_credentialsOf {username password : String}
    (hUsername : ∀ c ∈ username.toList, inUserinfo.Keeps c)
    (hPassword : ∀ c ∈ password.toList, inUserinfo.Keeps c) :
    userinfoText (((credentialsOf username password).getD []).takeWhile (· != ':')) = username ∧
      userinfoText ((((credentialsOf username password).getD []).dropWhile (· != ':')).drop 1) =
        password := by
  have hColon : ':' ∉ username.toList := fun hMem => (hUsername _ hMem).notMem (by decide)
  have hParts (tail : List Char) : (username.toList ++ tail).takeWhile (· != ':') =
        username.toList ++ tail.takeWhile (· != ':') ∧
      (username.toList ++ tail).dropWhile (· != ':') = tail.dropWhile (· != ':') :=
    ⟨List.takeWhile_append_of_pos (ne_of_notMem hColon),
      List.dropWhile_append_of_pos (ne_of_notMem hColon)⟩
  rw [credentialsOf]
  split_ifs with hNone hNoPassword
  · obtain ⟨rfl, rfl⟩ := hNone
    exact ⟨rfl, rfl⟩
  · subst hNoPassword
    have hSelf := hParts []
    rw [List.append_nil] at hSelf
    rw [Option.getD_some, hSelf.1, hSelf.2, List.takeWhile_nil, List.append_nil,
      userinfoText_of_keeps hUsername]
    exact ⟨rfl, rfl⟩
  · rw [Option.getD_some, (hParts _).1, (hParts _).2, List.takeWhile_cons_of_neg (by decide),
      List.dropWhile_cons_of_neg (by decide), List.append_nil, List.drop_one, List.tail_cons]
    exact ⟨userinfoText_of_keeps hUsername, userinfoText_of_keeps hPassword⟩

/-- Credentials that are written have something in them. -/
theorem credentialsOf_ne_nil (username password : String) :
    credentialsOf username password ≠ some [] := by
  rw [credentialsOf]
  split_ifs with hNone hNoPassword
  · exact Option.some_ne_none _ |>.symm
  · intro hEmpty
    exact hNone ⟨String.toList_eq_nil_iff.mp (Option.some.inj hEmpty), hNoPassword⟩
  · intro hEmpty
    exact List.append_ne_nil_of_right_ne_nil _ (List.cons_ne_nil _ _) (Option.some.inj hEmpty)

/-- An authority in the form in which a special URL keeps it. -/
structure Authority.Settled (scheme : String) (a : Authority) : Prop where
  username : ∀ c ∈ a.username.toList, inUserinfo.Keeps c
  password : ∀ c ∈ a.password.toList, inUserinfo.Keeps c
  host : a.host.Settled
  port : ∀ p ∈ a.port, IsPort scheme p

/-- What is read of an authority is kept as it stands. -/
theorem settled_of_readAuthority {a : Authority} (hKind : SchemeKind.of scheme = .special)
    (h : readAuthority scheme cs = .ok (a, rest)) : a.Settled scheme := by
  have hKeeps (cs : List Char) : ∀ c ∈ (userinfoText cs).toList, inUserinfo.Keeps c := by
    rw [userinfoText, String.toList_ofList]
    exact fun c => Percent.keeps_of_mem_encode Percent.keeps_signs_inUserinfo
  simp only [readAuthority, hKind, Except.throw_eq_error, Except.error_bind, Except.ite_error_eq_ok,
    Except.bind_eq_ok] at h
  obtain ⟨-, -, host, hHost, -, h⟩ := h
  have hSettled := Host.settled_of_hostOf hHost
  split at h
  · obtain ⟨⟨port, more⟩, hPort, h⟩ := Except.bind_eq_ok.mp h
    obtain ⟨rfl, rfl⟩ := Prod.mk.inj (Except.ok.inj h)
    exact ⟨hKeeps _, hKeeps _, hSettled, isPort_of_readPort (Nat.zero_le _) hPort⟩
  · obtain ⟨rfl, rfl⟩ := Prod.mk.inj (Except.ok.inj h)
    exact ⟨hKeeps _, hKeeps _, hSettled, by simp⟩

/-- An authority as it is written. -/
def Authority.chars (a : Authority) : List Char :=
  withAt (credentialsOf a.username a.password) ++ (a.host.text.toList ++ portText a.port)

theorem endsAuthority_of_notMem {c : Char} (h : c ∉ dividers) : endsAuthority .special c = false := by
  simp only [dividers, List.mem_cons, List.not_mem_nil, or_false, not_or] at h
  simp [endsAuthority, h]

theorem Percent.Reserved.Keeps.plain {c : Char} (h : inUserinfo.Keeps c) :
    0x20 < c.toNat ∧ c ∉ dividers := by
  have hDividers : ∀ d ∈ dividers, d ∈ inUserinfo := by decide
  exact ⟨h.lt (by decide), fun hMem => h.notMem (hDividers c hMem)⟩

theorem plain_portText (port : Option Nat) :
    ∀ c ∈ portText port, 0x20 < c.toNat ∧ c ∉ dividers := by
  have hDigit : ∀ d < 10, 0x20 < (Char.ofNat (48 + d)).toNat ∧ Char.ofNat (48 + d) ∉ dividers := by
    decide
  intro c hc
  cases port with
  | none => cases hc
  | some p =>
    obtain rfl | hc := List.mem_cons.mp hc
    · decide
    · obtain ⟨d, hd, rfl⟩ :=
        exists_of_isDigit (Nat.isDigit_of_mem_toDigits (by decide) (by decide) hc)
      exact hDigit d hd

variable {a : Authority}

theorem Authority.Settled.plain_host (h : a.Settled scheme) :
    ∀ c ∈ a.host.text.toList ++ portText a.port, 0x20 < c.toNat ∧ c ∉ dividers := by
  rw [List.forall_mem_append]
  exact ⟨h.host.plain, plain_portText a.port⟩

/-- Nothing in an authority ends it. -/
theorem Authority.Settled.plain (h : a.Settled scheme) :
    ∀ c ∈ a.chars, 0x20 < c.toNat ∧ endsAuthority .special c = false := by
  have hPart {cs : List Char} (hc : ∀ c ∈ cs, 0x20 < c.toNat ∧ c ∉ dividers) :
      ∀ c ∈ cs, 0x20 < c.toNat ∧ endsAuthority .special c = false :=
    fun c hMem => (hc c hMem).imp_right endsAuthority_of_notMem
  have hUsername := hPart fun c hc => (h.username c hc).plain
  have hPassword := hPart fun c hc => (h.password c hc).plain
  have hSigns : ∀ c ∈ [':', '@'], 0x20 < c.toNat ∧ endsAuthority .special c = false := by decide
  rw [Authority.chars, List.forall_mem_append]
  refine ⟨?_, hPart h.plain_host⟩
  rw [credentialsOf]
  split_ifs
  · exact fun c hc => absurd hc (List.not_mem_nil)
  · rw [withAt, Option.elim_some, List.forall_mem_append, List.forall_mem_singleton]
    exact ⟨hUsername, hSigns '@' (by decide)⟩
  · rw [withAt, Option.elim_some, List.forall_mem_append, List.forall_mem_append,
      List.forall_mem_cons, List.forall_mem_singleton]
    exact ⟨⟨hUsername, hSigns ':' (by decide), hPassword⟩, hSigns '@' (by decide)⟩

theorem Authority.Settled.chars_ne_nil (h : a.Settled scheme) : a.chars ≠ [] :=
  List.append_ne_nil_of_right_ne_nil _ (List.append_ne_nil_of_left_ne_nil h.host.nonempty _)

theorem isSlash_of_endsAuthority {c : Char} (h : endsAuthority .special c = false) :
    isSlash .special c = false := by
  simp only [endsAuthority, isSlash, Bool.or_eq_false_iff] at h ⊢
  exact ⟨h.1.1.1, h.2⟩

/-- Reading stops where the authority ends. -/
theorem takeWhile_authority {written : List Char}
    (hWritten : ∀ c ∈ written, endsAuthority .special c = false) (rest : List Char) :
    (written ++ '/' :: rest).takeWhile (!endsAuthority .special ·) = written := by
  rw [List.takeWhile_append_of_pos fun c hc => by rw [hWritten c hc]; rfl,
    List.takeWhile_cons_of_neg (by decide), List.append_nil]

/-- An authority is read from what is written for it. -/
theorem readAuthority_chars (hKind : SchemeKind.of scheme = .special)
    (h : a.Settled scheme) (rest : List Char) :
    readAuthority scheme (a.chars ++ '/' :: rest) = .ok (a, '/' :: rest) := by
  have hPlain := h.plain_host
  have hAt : '@' ∉ a.host.text.toList ++ portText a.port :=
    fun hMem => (hPlain _ hMem).2 (by decide)
  have hWhole := takeWhile_authority (fun c hc => (h.plain c hc).2) rest
  have hPart := takeWhile_authority (fun c hc => endsAuthority_of_notMem (hPlain c hc).2) rest
  have hSplit : splitCredentials a.chars = (credentialsOf a.username a.password, _) :=
    splitCredentials_withAt _ hAt
  have hDrop : (a.chars ++ '/' :: rest).drop
      ((credentialsOf a.username a.password).elim 0 (·.length + 1)) =
        a.host.text.toList ++ portText a.port ++ '/' :: rest := by
    rw [Authority.chars, List.append_assoc, drop_withAt]
  have hLength := h.host.delimited (portText a.port) (by cases a.port <;> simp [portText])
  have hLater : (a.host.text.toList ++ portText a.port ++ '/' :: rest).drop
      a.host.text.toList.length = portText a.port ++ '/' :: rest := by
    rw [List.append_assoc, List.drop_left]
  -- The sign is only written after credentials that have something in them.
  have hSkip : (credentialsOf a.username a.password).elim 0 (·.length + 1) ≠ 1 := by
    intro hOne
    obtain hNone | ⟨credentials, hSome⟩ :=
      Option.eq_none_or_eq_some (credentialsOf a.username a.password)
    · rw [hNone] at hOne
      exact absurd hOne (by decide)
    · rw [hSome, Option.elim_some, Nat.add_eq_right, List.length_eq_zero_iff] at hOne
      exact credentialsOf_ne_nil a.username a.password (hOne ▸ hSome)
  have hHost : a.host ≠ .domain "" := fun hEmpty => h.host.nonempty (by rw [hEmpty]; rfl)
  obtain ⟨hUsername, hPassword⟩ := userinfoText_credentialsOf h.username h.password
  simp only [readAuthority, hKind, hWhole, hSplit, hDrop, hPart, hLength, hLater, hUsername,
    hPassword, List.take_left, h.host.reads, Except.throw_eq_error, Except.error_bind,
    Except.ok_bind, Except.ite_error_eq_ok]
  refine ⟨fun hOne => hSkip hOne.1, ?_, ?_, ?_⟩
  · exact fun hNone => h.host.nonempty (List.length_eq_zero_iff.mp hNone.1)
  · exact fun hEmpty => hHost hEmpty.1
  · cases hPort : a.port with
    | none =>
      obtain ⟨username, password, host, port⟩ := a
      obtain rfl : port = none := hPort
      rfl
    | some p =>
      have hRead := readPort_written (h.port p hPort) rest
      obtain ⟨username, password, host, port⟩ := a
      obtain rfl : port = some p := hPort
      simp only [portText, Option.elim_some, List.cons_append, hRead, Except.ok_bind,
        Except.pure_eq_ok]

end RemoteSigning.Url
